import HexDns.Lib.Lines
import HexDns.Tasks.ZoneFile

/-! # The lines of a zone file

A line with an owner, a TTL, a type and the fields of the rdata is an entry with these tokens if each
of them spells one (`adds_publishedLine`), and stands for a record if its owner can be read
(`says_recordEntry`); the numbers and the types always do. -/

namespace HexDns.Tasks.Lines

open HexDns.Lib.Texts HexDns.Lib.MasterFile HexDns.Lib.Tables HexDns.Models.Db HexDns.Models.Env
  HexDns.Models.Names HexDns.Tasks.ZoneFile HexDns.Base.Py HexDns.Base.Codecs HexDns.Base.Label

/-! ### Words that are plain -/

theorem isSpecial_digit {c : Char} (h : c.isDigit = true) : Lexer.isSpecial c = false := by
  have hc : ∀ d : Char, d.isDigit = false → c ≠ d := by
    rintro d hd rfl
    rw [h] at hd; exact Bool.noConfusion hd
  simp [Lexer.isSpecial, Lexer.isBlank, hc ' ' rfl, hc '\t' rfl, hc '\r' rfl, hc '\n' rfl, hc ';' rfl,
    hc '(' rfl, hc ')' rfl, hc '"' rfl, hc '\\' rfl]

theorem isPlain_showNat (n : ℕ) : IsPlain (showNat n) :=
  ⟨Nat.toDigits_ne_nil, fun _ hc => isSpecial_digit (isDigit_showNat hc)⟩

theorem isPlain_showInt (n : ℤ) : IsPlain (showInt n) := by
  obtain ⟨hne, hall⟩ := isPlain_showNat n.natAbs
  unfold showInt
  split_ifs
  · refine ⟨by simp, fun c hc => ?_⟩
    rcases List.mem_cons.mp hc with rfl | hc
    · rfl
    · exact hall c hc
  · exact ⟨hne, hall⟩

theorem isPlain_in : IsPlain "IN".toList := by decide

theorem isPlain_rtypeText {rtype : HexDns.Base.Message.QType} (h : rtypeText rtype ≠ []) :
    IsPlain (rtypeText rtype) := by
  cases rtype <;> first | exact absurd rfl h | decide

/-! ### Digits -/

theorem isSpecial_hex : ∀ n < 16, Lexer.isSpecial (Nat.digitChar n) = false := by decide

theorem isSpecial_base64 : ∀ n < 64, Lexer.isSpecial (base64Char n) = false := by decide

theorem isSpecial_hexlify (b : Bytes) : ∀ c ∈ hexlify b, Lexer.isSpecial c = false := by
  intro c hc
  obtain ⟨x, -, hc⟩ := List.mem_flatMap.mp hc
  have hx : x.toNat < 256 := x.toNat_lt
  rcases List.mem_cons.mp hc with rfl | hc
  · exact isSpecial_hex _ (by omega)
  · rw [List.mem_singleton.mp hc]
    exact isSpecial_hex _ (by omega)

theorem isSpecial_b64encode (b : Bytes) : ∀ c ∈ b64encode b, Lexer.isSpecial c = false := by
  have hpad : Lexer.isSpecial '=' = false := by decide
  fun_induction b64encode b with
  | case1 => simp
  | case2 a =>
    have ha : a.toNat < 256 := a.toNat_lt
    simp only [List.mem_cons, List.not_mem_nil, or_false]
    rintro c (rfl | rfl | rfl | rfl)
    · exact isSpecial_base64 _ (by omega)
    · exact isSpecial_base64 _ (by omega)
    · exact hpad
    · exact hpad
  | case3 a b =>
    have ha : a.toNat < 256 := a.toNat_lt
    have hb : b.toNat < 256 := b.toNat_lt
    simp only [List.mem_cons, List.not_mem_nil, or_false]
    rintro c (rfl | rfl | rfl | rfl)
    · exact isSpecial_base64 _ (by omega)
    · exact isSpecial_base64 _ (by omega)
    · exact isSpecial_base64 _ (by omega)
    · exact hpad
  | case4 a b d t ih =>
    have ha : a.toNat < 256 := a.toNat_lt
    have hb : b.toNat < 256 := b.toNat_lt
    have hd : d.toNat < 256 := d.toNat_lt
    simp only [List.mem_cons]
    rintro c (rfl | rfl | rfl | rfl | hc)
    · exact isSpecial_base64 _ (by omega)
    · exact isSpecial_base64 _ (by omega)
    · exact isSpecial_base64 _ (by omega)
    · exact isSpecial_base64 _ (by omega)
    · exact ih c hc

/-- A text without special characters is a word, or nothing. -/
theorem closes_plain (origin : List Bytes) {t : Text} (h : ∀ c ∈ t, Lexer.isSpecial c = false) :
    ∃ ks, Closes origin t ks [] := by
  by_cases ht : t = []
  · exact ⟨[], [], by rw [ht]; exact ends_nil, says_nil origin⟩
  · have hw : List.Forall₂ Spells [t] [plainToken t] := .cons (spells_plain ⟨ht, h⟩) .nil
    have hclose : Closes origin ([' '].intercalate [t]) [plainToken t] [] := closes_words hw
    rw [List.intercalate_singleton] at hclose
    exact ⟨_, hclose⟩

/-! ### Names -/

/-- A byte as `showByte` writes it. -/
def byteSym (b : UInt8) : Sym := ⟨b, !(33 ≤ b.toNat && b.toNat ≤ 126)⟩

theorem text_byteSym (b : UInt8) : (byteSym b).text = showByte b := by
  unfold showByte
  by_cases hb : 33 ≤ b.toNat ∧ b.toNat ≤ 126
  · have he : byteSym b = ⟨b, false⟩ := by simp [byteSym, hb]
    rw [he, if_pos hb]
    rfl
  · have he : byteSym b = ⟨b, true⟩ := by
      simp only [byteSym, Sym.mk.injEq, Bool.not_eq_eq_eq_not, Bool.not_true, true_and]
      simpa using hb
    rw [he, if_neg hb]
    rfl

/-- A byte that does not end a label or a word where it is printed. -/
def CleanByte (b : UInt8) : Prop := b.toNat ∉ [34, 40, 41, 46, 59, 92]

instance (b : UInt8) : Decidable (CleanByte b) := inferInstanceAs (Decidable (¬ _))

theorem isSpecial_ofNat : ∀ n < 127, 33 ≤ n → n ∉ [34, 40, 41, 59, 92] →
    Lexer.isSpecial (Char.ofNat n) = false := by decide

theorem CleanByte.isPlain {b : UInt8} (h : CleanByte b) : (byteSym b).IsPlain := by
  intro he
  have hb : 33 ≤ b.toNat ∧ b.toNat ≤ 126 := by simpa [byteSym] using he
  have hn : b.toNat ∉ [34, 40, 41, 59, 92] := by
    intro hn
    exact h (by revert hn; simp; omega)
  exact ⟨by show b.toNat < 128; omega, isSpecial_ofNat b.toNat (by omega) hb.1 hn⟩

theorem CleanByte.ne_dot {b : UInt8} (h : CleanByte b) : byteSym b ≠ ⟨46, false⟩ := by
  intro hb
  have : b = 46 := congrArg Sym.byte hb
  rw [this] at h
  exact h (by decide)

/-- Labels as `DNSLabel` prints them, with dots between them. -/
def labelsText (ls : List Bytes) : Text := ['.'].intercalate (ls.map (·.flatMap showByte))

/-- The word of labels with dots between them. -/
def labelsToken (ls : List Bytes) : Token := joined (ls.map (·.map byteSym))

theorem symsText_labelsToken (ls : List Bytes) : symsText (labelsToken ls).syms = labelsText ls := by
  have hdot : [(⟨46, false⟩ : Sym)].flatMap Sym.text = ['.'] := rfl
  show ([(⟨46, false⟩ : Sym)].intercalate _).flatMap Sym.text = _
  rw [flatMap_intercalate, hdot, labelsText, List.map_map]
  congr 1
  refine List.map_congr_left fun l _ => ?_
  rw [Function.comp_apply, List.flatMap_map]
  exact List.flatMap_congr fun b _ => text_byteSym b

/-- The first label is not empty. -/
def HasHead (ls : List Bytes) : Prop := ∃ x l rest, ls = (x :: l) :: rest

/-- **Labels that are clean** are read as their word. -/
theorem spells_labels {ls : List Bytes} (hhead : HasHead ls) (h : ∀ m ∈ ls, ∀ b ∈ m, CleanByte b) :
    Spells (labelsText ls) (labelsToken ls) := by
  rw [← symsText_labelsToken]
  refine spells_syms ?_ fun y hy => ?_
  · obtain ⟨x, l, rest, rfl⟩ := hhead
    rcases rest with _ | ⟨m, rest⟩
    · simp [labelsToken, joined]
    · simp [labelsToken, joined, List.intercalate_cons_of_ne_nil]
  · rcases mem_of_mem_intercalate hy with hy | ⟨m, hm, hy⟩
    · rw [List.mem_singleton.mp hy]
      intro _
      decide
    · obtain ⟨m, hm', rfl⟩ := List.mem_map.mp hm
      obtain ⟨b, hb, rfl⟩ := List.mem_map.mp hy
      exact (h m hm' b hb).isPlain

/-- The name that clean labels are: they are relative unless the last is empty. -/
theorem readName_labels (origin : List Bytes) {ls : List Bytes} (hhead : HasHead ls)
    (h : ∀ m ∈ ls, ∀ b ∈ m, CleanByte b) (hat : ls ≠ [[64]]) :
    readName origin (labelsToken ls) =
      (if ls.getLast? = some [] then some ls.dropLast else some (ls ++ origin)).filter validLabels := by
  have hbytes : ∀ ms : List Bytes, (ms.map (·.map byteSym)).map (·.map Sym.byte) = ms := by
    intro ms
    rw [List.map_map]
    refine (List.map_congr_left fun m _ => ?_).trans (List.map_id ms)
    show (m.map byteSym).map Sym.byte = m
    rw [List.map_map]
    exact List.map_id m
  have hlast : ((ls.map (·.map byteSym)).getLast? = some []) = (ls.getLast? = some []) := by
    rw [List.getLast?_map, Option.map_eq_some_iff]
    simp
  have hdot : ∀ m ∈ ls.map (·.map byteSym), (⟨46, false⟩ : Sym) ∉ m := by
    intro m hm hdot
    obtain ⟨m', hm', rfl⟩ := List.mem_map.mp hm
    obtain ⟨b, hb, hbd⟩ := List.mem_map.mp hdot
    exact (h m' hm' b hb).ne_dot hbd
  have hone : ls.map (·.map byteSym) ≠ [[⟨64, false⟩]] := by
    intro hone
    refine hat ?_
    rw [← hbytes ls, hone]
    rfl
  have hfirst : ∃ x l rest, ls.map (·.map byteSym) = (x :: l) :: rest := by
    obtain ⟨x, l, rest, rfl⟩ := hhead
    exact ⟨byteSym x, l.map byteSym, rest.map (·.map byteSym), rfl⟩
  unfold labelsToken
  rw [readName_joined origin hdot hfirst hone]
  simp only [hlast, ← List.map_dropLast, hbytes]

/-! ### Lines -/

/-- A line is four words and the rdata. -/
theorem recordLine_eq (owner : Text) (ttl : ℕ) (rtype rdata : Text) : recordLine owner ttl rtype rdata =
    [' '].intercalate [owner, showNat ttl, "IN".toList, rtype] ++ [' '] ++ rdata ++ ['\n'] := by
  unfold recordLine line
  simp [List.intercalate]

/-- The entry of a line. -/
def recordEntry (owner : Token) (ttl : ℕ) (rtype : Text) (rdata : List Token) : Entry :=
  ⟨false, owner :: plainToken (showNat ttl) :: plainToken "IN".toList :: plainToken rtype :: rdata⟩

/-- **A line is read as its entry**, and what its rdata goes on with follows. -/
theorem adds_recordLine {owner : Text} {o : Token} (ho : Spells owner o) (ttl : ℕ) {rtype : Text}
    (ht : IsPlain rtype) {rdata : Text} {ks : List Token} {es : List Entry} (hr : Ends rdata ks es) :
    Adds (recordLine owner ttl rtype rdata) (recordEntry o ttl rtype ks :: es) := by
  have hwords : List.Forall₂ Spells [owner, showNat ttl, "IN".toList, rtype]
      [o, plainToken (showNat ttl), plainToken "IN".toList, plainToken rtype] :=
    .cons ho (.cons (spells_plain (isPlain_showNat ttl)) (.cons (spells_plain isPlain_in)
      (.cons (spells_plain ht) .nil)))
  rw [recordLine_eq]
  exact adds_line_ends hwords (by simp) hr

/-- A line whose rdata are words. -/
theorem adds_recordLine_words {owner : Text} {o : Token} (ho : Spells owner o) (ttl : ℕ) {rtype : Text}
    (ht : IsPlain rtype) {words : List Text} {rdata : List Token}
    (hw : List.Forall₂ Spells words rdata) :
    Adds (recordLine owner ttl rtype ([' '].intercalate words)) [recordEntry o ttl rtype rdata] :=
  adds_recordLine ho ttl ht (ends_words hw)

/-- The line of a record whose fields spell tokens is read as its entry. -/
theorem adds_publishedLine {owner : Text} {o : Token} (ho : Spells owner o) (ttl : ℕ)
    {record : Published} (ht : rtypeText record.1 ≠ []) {rdata : List Token}
    (hw : List.Forall₂ (fun f k => Spells f.text k) record.2 rdata) :
    Adds (publishedLine owner ttl record) [recordEntry o ttl (rtypeText record.1) rdata] := by
  refine adds_recordLine_words ho ttl (isPlain_rtypeText ht) ?_
  rw [List.forall₂_map_left_iff]
  exact hw

/-! ### Records -/

/-- The record of a line. -/
def lineRecord (owner : List Bytes) (ttl : ℕ) (rtype : Text) (rdata : List Token) : Record :=
  ⟨owner, ttl, encode "IN".toList, encode rtype, rdata⟩

/-- It is not the word of a directive. -/
def NoDirective (o : Token) : Prop :=
  o.bytes ≠ encode "$ORIGIN".toList ∧ o.bytes ≠ encode "$TTL".toList

/-- **An entry of a line is its record** if its owner can be read. -/
theorem step_recordEntry (s : Reader) {o : Token} (ho : NoDirective o) (ttl : ℕ) (rtype : Text)
    (rdata : List Token) : s.step (recordEntry o ttl rtype rdata) =
      (readName s.origin o).map fun owner =>
        { s with owner := some owner, records := s.records ++ [lineRecord owner ttl rtype rdata] } := by
  have hin : encode "IN".toList ∈ classes := by decide
  have hfields : readFields s.ttl (plainToken (showNat ttl) :: plainToken "IN".toList ::
      plainToken rtype :: rdata) = some (ttl, encode "IN".toList, encode rtype, rdata) := by
    have httl : readNat (plainToken (showNat ttl)) = some ttl := readNat_digits ttl
    unfold readFields
    simp only [httl, bytes_plainToken, hin, if_true]
  unfold Reader.step
  simp only [recordEntry, Bool.false_eq_true, if_false, if_neg ho.1, if_neg ho.2]
  rcases readName s.origin o with _ | owner
  · rfl
  · show s.record owner _ = _
    unfold Reader.record
    rw [hfields]
    rfl

theorem says_recordEntry {origin owner : List Bytes} {o : Token} (ho : NoDirective o)
    (hread : readName origin o = some owner) (ttl : ℕ) (rtype : Text) (rdata : List Token) :
    Says origin [recordEntry o ttl rtype rdata] [lineRecord owner ttl rtype rdata] := by
  rintro s rfl
  refine ⟨some owner, ?_⟩
  show (s.step _).bind _ = _
  rw [step_recordEntry s ho, hread]
  rfl

/-- **A line gives its record**, and after it what its rdata goes on with. -/
theorem gives_recordLine {origin labels : List Bytes} {owner : Text} {o : Token} (ho : Spells owner o)
    (hd : NoDirective o) (hread : readName origin o = some labels) (ttl : ℕ) {rtype : Text}
    (ht : IsPlain rtype) {rdata : Text} {ks : List Token} {rs : List Record}
    (hr : Closes origin rdata ks rs) :
    Gives origin (recordLine owner ttl rtype rdata) (lineRecord labels ttl rtype ks :: rs) := by
  obtain ⟨es, hends, hsays⟩ := hr
  exact ⟨_, adds_recordLine ho ttl ht hends, (says_recordEntry hd hread ttl rtype ks).append hsays⟩

/-! ### Comments -/

theorem newline_not_mem_showNat (n : ℕ) : '\n' ∉ showNat n := by
  intro hn
  have := (isPlain_showNat n).2 _ hn
  revert this
  decide

/-- The comment with the number of a row. -/
theorem gives_commentLine {origin : List Bytes} {t : Text} (ht : '\n' ∉ t) (n : ℕ) :
    Gives origin (line [';' :: t, showNat n]) [] := by
  have hline : line [';' :: t, showNat n] = ';' :: (t ++ showNat n) ++ ['\n'] := by simp [line]
  rw [hline]
  refine gives_comment ?_
  have := newline_not_mem_showNat n
  simp [this, ht]

/-! ### Headers -/

/-- The name as it is printed, with the dot at its end. -/
def nameToken (l : DnsLabel) : Token := labelsToken (l.label ++ [[]])

section
variable {l : DnsLabel}

theorem toText_eq (hl : l.label ≠ []) : l.toText = labelsText (l.label ++ [[]]) := by
  have hne : l.label.map (·.flatMap showByte) ≠ [] := by simpa using hl
  unfold DnsLabel.toText labelsText
  rw [List.map_append, intercalate_append hne (by simp)]
  simp

theorem HasHead.append {ls : List Bytes} (h : HasHead ls) (ms : List Bytes) : HasHead (ls ++ ms) := by
  obtain ⟨x, m, rest, rfl⟩ := h
  exact ⟨x, m, rest ++ ms, rfl⟩

theorem HasHead.ne_nil {ls : List Bytes} (h : HasHead ls) : ls ≠ [] := by
  obtain ⟨x, m, rest, rfl⟩ := h
  exact List.cons_ne_nil _ _

theorem clean_append_nil (hc : ∀ m ∈ l.label, ∀ b ∈ m, CleanByte b) :
    ∀ m ∈ l.label ++ [[]], ∀ b ∈ m, CleanByte b := by
  intro m hm b hb
  rcases List.mem_append.mp hm with hm | hm
  · exact hc m hm b hb
  · rw [List.mem_singleton.mp hm] at hb
    cases hb

/-- A clean name is read as it is printed. -/
theorem spells_toText (hl : HasHead l.label) (hc : ∀ m ∈ l.label, ∀ b ∈ m, CleanByte b) :
    Spells l.toText (nameToken l) := by
  rw [toText_eq hl.ne_nil]
  exact spells_labels (hl.append _) (clean_append_nil hc)

/-- It is absolute. -/
theorem readName_nameToken (origin : List Bytes) (hl : HasHead l.label)
    (hc : ∀ m ∈ l.label, ∀ b ∈ m, CleanByte b) (hv : validLabels l.label = true) :
    readName origin (nameToken l) = some l.label := by
  have hat : l.label ++ [[]] ≠ [[64]] := by
    intro hat
    have hlast : (l.label ++ [[]]).getLast? = some [] := by simp
    rw [hat] at hlast
    cases hlast
  have hread := readName_labels origin (hl.append [[]]) (clean_append_nil hc) hat
  rw [if_pos (by simp), List.dropLast_concat] at hread
  show readName origin (labelsToken _) = _
  rw [hread, Option.filter_some, if_pos hv]

/-- The line that sets the origin. -/
theorem adds_originLine (hl : HasHead l.label) (hc : ∀ m ∈ l.label, ∀ b ∈ m, CleanByte b) :
    Adds (line ["$ORIGIN ".toList, l.toText]) [originEntry (nameToken l)] := by
  have hwords : List.Forall₂ Spells ["$ORIGIN".toList, l.toText]
      [plainToken "$ORIGIN".toList, nameToken l] :=
    .cons (spells_plain (by decide)) (.cons (spells_toText hl hc) .nil)
  have hline : line ["$ORIGIN ".toList, l.toText] =
      [' '].intercalate ["$ORIGIN".toList, l.toText] ++ ['\n'] := by
    simp [line, List.intercalate]
  rw [hline]
  exact adds_line hwords (by simp)

end

section
variable {origin : List Bytes}

/-- The word of the apex. -/
theorem spells_at : Spells ['@'] (plainToken ['@']) := spells_plain (by decide)

theorem noDirective_at : NoDirective (plainToken ['@']) := ⟨by decide, by decide⟩

theorem gives_apexLine (horigin : validLabels origin = true) (ttl : ℕ) {rtype : Text} (ht : IsPlain rtype)
    {rdata : Text} {ks : List Token} {rs : List Record} (hr : Closes origin rdata ks rs) :
    Gives origin (recordLine ['@'] ttl rtype rdata) (lineRecord origin ttl rtype ks :: rs) := by
  refine gives_recordLine spells_at noDirective_at ?_ ttl ht hr
  rw [readName_at]
  simp [horigin]

/-- The record of the SOA line. -/
def soaRecord (origin : List Bytes) (primary : Token) (time : ℕ) (timers : List Token) : Record :=
  lineRecord origin 86400 "SOA".toList
    (primary :: plainToken "noc.as207960.net.".toList :: plainToken (showNat time) :: timers)

theorem gives_soaLine (horigin : validLabels origin = true) {primaryNs : Text} {primary : Token}
    (hp : Spells primaryNs primary) (time : ℕ) {timers : Text} {ks : List Token}
    (ht : Closes origin timers ks []) :
    Gives origin (soaLine primaryNs time timers) [soaRecord origin primary time ks] := by
  have hwords : List.Forall₂ Spells [primaryNs, "noc.as207960.net.".toList, showNat time]
      [primary, plainToken "noc.as207960.net.".toList, plainToken (showNat time)] :=
    .cons hp (.cons (spells_plain (by decide)) (.cons (spells_plain (isPlain_showNat time)) .nil))
  have hrdata : [' '].intercalate [primaryNs, "noc.as207960.net.".toList, showNat time, timers] =
      [' '].intercalate [primaryNs, "noc.as207960.net.".toList, showNat time] ++ [' '] ++ timers := by
    simp [List.intercalate]
  unfold soaLine
  rw [hrdata]
  exact gives_apexLine horigin 86400 (by decide) (ht.after hwords (by simp))

/-- The record of the line of a name server. -/
def nsRecord (origin : List Bytes) (ns : Token) : Record := lineRecord origin 86400 "NS".toList [ns]

theorem gives_nsLine (horigin : validLabels origin = true) {ns : Text} {k : Token} (h : Spells ns k) :
    Gives origin (recordLine ['@'] 86400 "NS".toList ns) [nsRecord origin k] := by
  have hwords : List.Forall₂ Spells [ns] [k] := .cons h .nil
  have hrdata : ns = [' '].intercalate [ns] := by simp
  rw [hrdata]
  exact gives_apexLine horigin 86400 (by decide) (closes_words hwords)

end

/-! ### The CDS and CDNSKEY records -/

/-- The rdata of the first CDS line. -/
theorem closes_digest (origin : List Bytes) (tag : ℕ) (digest : Bytes) :
    ∃ ks, Closes origin (showNat tag ++ " 13 2 ".toList ++ hexlify digest) ks [] := by
  obtain ⟨ks, hks⟩ := closes_plain origin (isSpecial_hexlify digest)
  have hwords : List.Forall₂ Spells [showNat tag, "13".toList, "2".toList]
      [plainToken (showNat tag), plainToken "13".toList, plainToken "2".toList] :=
    .cons (spells_plain (isPlain_showNat tag)) (.cons (spells_plain (by decide))
      (.cons (spells_plain (by decide)) .nil))
  have htext : showNat tag ++ " 13 2 ".toList ++ hexlify digest =
      [' '].intercalate [showNat tag, "13".toList, "2".toList] ++ [' '] ++ hexlify digest := by
    simp [List.intercalate]
  rw [htext]
  exact ⟨_, hks.after hwords (by simp)⟩

/-- The rdata of the first CDNSKEY line. -/
theorem closes_key (origin : List Bytes) (key : Bytes) :
    ∃ ks, Closes origin ("257 3 13 ".toList ++ b64encode key) ks [] := by
  obtain ⟨ks, hks⟩ := closes_plain origin (isSpecial_b64encode key)
  have hwords : List.Forall₂ Spells ["257".toList, ['3'], "13".toList]
      [plainToken "257".toList, plainToken ['3'], plainToken "13".toList] :=
    spells_plains (by decide)
  have htext : "257 3 13 ".toList ++ b64encode key =
      [' '].intercalate ["257".toList, ['3'], "13".toList] ++ [' '] ++ b64encode key := by
    simp [List.intercalate]
  rw [htext]
  exact ⟨_, hks.after hwords (by simp)⟩

section
variable {origin : List Bytes}

/-- Three numbers before the last text of the rdata. -/
theorem closes_numbers {a b c : ℤ} {t : Text} {ks : List Token} {rs : List Record}
    (ht : Closes origin t ks rs) : Closes origin
      ([' '].intercalate [showInt a, showInt b, showInt c, t])
      (plainToken (showInt a) :: plainToken (showInt b) :: plainToken (showInt c) :: ks) rs := by
  have hwords : List.Forall₂ Spells [showInt a, showInt b, showInt c]
      [plainToken (showInt a), plainToken (showInt b), plainToken (showInt c)] :=
    .cons (spells_plain (isPlain_showInt a)) (.cons (spells_plain (isPlain_showInt b))
      (.cons (spells_plain (isPlain_showInt c)) .nil))
  have htext : [' '].intercalate [showInt a, showInt b, showInt c, t] =
      [' '].intercalate [showInt a, showInt b, showInt c] ++ [' '] ++ t := by
    simp [List.intercalate]
  rw [htext]
  exact ht.after hwords (by simp)

variable {h : Host} {st : Store} {zone : Zone} {root : DnsLabel} {owner : Text} {o : Token}
  {labels : List Bytes} {P : Record → Prop}

/-- The types of the CDS and CDNSKEY lines. -/
def cdsTypes : List Bytes := [encode "CDS".toList, encode "CDNSKEY".toList]

/-- The lines of the CDS and CDNSKEY records under an owner that can be read. -/
theorem givesOnly_cdsText (ho : Spells owner o) (hd : NoDirective o)
    (hread : readName origin o = some labels)
    (hP : ∀ r, r.owner = labels → r.rtype ∈ cdsTypes → P r)
    (henc : zone.cdsDisable = false → ∃ name, h.encodeName root = .ok name)
    (hcds : zone.cdsDisable = false → ∀ cds ∈ st.additionalCds, cds.dnsZone = zone.id →
      ∃ ks rs, Closes origin cds.digest ks rs ∧ ∀ r ∈ rs, P r)
    (hkey : zone.cdsDisable = false → ∀ cdnskey ∈ st.additionalCdnskey, cdnskey.dnsZone = zone.id →
      ∃ ks rs, Closes origin cdnskey.publicKey ks rs ∧ ∀ r ∈ rs, P r) :
    ∃ t, cdsText h st zone root owner = .ok t ∧ GivesOnly origin P t := by
  have hline : ∀ {rtype rdata : Text} {ks : List Token} {rs : List Record},
      IsPlain rtype ∧ encode rtype ∈ cdsTypes → Closes origin rdata ks rs → (∀ r ∈ rs, P r) →
      GivesOnly origin P (recordLine owner 86400 rtype rdata) := by
    intro rtype rdata ks rs htype hclose hrs
    refine ⟨_, gives_recordLine ho hd hread 86400 htype.1 hclose, fun r hr => ?_⟩
    rcases List.mem_cons.mp hr with rfl | hr
    · exact hP _ rfl htype.2
    · exact hrs r hr
  have hnone : ∀ r ∈ ([] : List Record), P r := fun r hr => by cases hr
  have hcds' : IsPlain "CDS".toList ∧ encode "CDS".toList ∈ cdsTypes := by decide
  have hkey' : IsPlain "CDNSKEY".toList ∧ encode "CDNSKEY".toList ∈ cdsTypes := by decide
  unfold cdsText
  by_cases hdis : zone.cdsDisable = true
  · rw [if_pos hdis]
    have h1 : List.Forall₂ Spells [['0'], ['0'], ['0'], ['0', '0']]
        [plainToken ['0'], plainToken ['0'], plainToken ['0'], plainToken ['0', '0']] := spells_plains (by decide)
    have h2 : List.Forall₂ Spells [['0'], ['3'], ['0'], "AA==".toList]
        [plainToken ['0'], plainToken ['3'], plainToken ['0'], plainToken "AA==".toList] := spells_plains (by decide)
    exact ⟨_, rfl, (hline hcds' (closes_words h1) hnone).append (hline hkey' (closes_words h2) hnone)⟩
  · rw [if_neg hdis]
    have hdis' : zone.cdsDisable = false := by simpa using hdis
    obtain ⟨name, hname⟩ := henc hdis'
    have hdigest : makeZoneDigest h root =
        .ok (hexlify (h.sha256 (name ++ dnskeyData h)), makeKeyTag (dnskeyData h)) := by
      unfold makeZoneDigest
      rw [hname]
      rfl
    rw [hdigest]
    obtain ⟨ks₁, h1⟩ := closes_digest origin (makeKeyTag (dnskeyData h))
      (h.sha256 (name ++ dnskeyData h))
    obtain ⟨ks₂, h2⟩ := closes_key origin h.dnssecKey
    refine ⟨_, rfl, GivesOnly.append (GivesOnly.append (GivesOnly.append (hline hcds' h1 hnone)
      (givesOnly_flatMap fun cds hmem => ?_)) (hline hkey' h2 hnone))
      (givesOnly_flatMap fun cdnskey hmem => ?_)⟩
    · obtain ⟨hmem, hzone⟩ := List.mem_filter.mp hmem
      obtain ⟨ks, rs, hclose, hrs⟩ := hcds hdis' cds hmem (by simpa using hzone)
      exact GivesOnly.append ⟨[], gives_commentLine (t := " Additional CDS ".toList) (by decide) cds.id, hnone⟩
        (hline hcds' (closes_numbers hclose) hrs)
    · obtain ⟨hmem, hzone⟩ := List.mem_filter.mp hmem
      obtain ⟨ks, rs, hclose, hrs⟩ := hkey hdis' cdnskey hmem (by simpa using hzone)
      exact GivesOnly.append
        ⟨[], gives_commentLine (t := " Additional CDNSKEY ".toList) (by decide) cdnskey.id, hnone⟩
        (hline hkey' (closes_numbers hclose) hrs)

end

end HexDns.Tasks.Lines
