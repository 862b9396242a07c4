import HexDns.Tasks.Changes
import HexDns.Tasks.Lines
import HexDns.Tasks.Published

/-! # The owners of imported records

`import_zone_file` stores a record under the labels that `dns_label_to_record_name` leaves of its owner,
joined by dots in lower case, and `generate_fzone` writes the row under `idna_label` of that text, which a
server completes with the root of the zone. An owner that is not in the zone is left as it is, and then
completed; a blank comes back as `\040`, which is a parenthesis in a zone file; a dot in a label becomes
two labels, and what is not ASCII another label or no owner.

`keepsOwner_iff`: the row of a record is published at the owner, and the owner in the zone, if and only
if the owner is a valid name at or below the root whose labels above it are of letters, digits, `-`, `_`
and `*` only (`PlainOwner`). `importedOwners_iff` says this of every record that an import stores. -/

namespace HexDns.Tasks.ImportedOwners

open HexDns.Lib.Texts HexDns.Lib.Tables HexDns.Lib.Programs HexDns.Lib.MasterFile HexDns.Base.Py
  HexDns.Base.Label HexDns.Base.Message HexDns.Models.Db HexDns.Models.Env HexDns.Models.Convert
  HexDns.Models.Names HexDns.Models.ImportZone HexDns.Grpc.Steps HexDns.Tasks.ZoneFile
  HexDns.Tasks.Published HexDns.Tasks.Lines HexDns.Tasks.Changes

/-! ### Owners -/

/-- A byte of a label that is written as it is: a letter, a digit, `-`, `_` or `*`. -/
def PlainByte (x : UInt8) : Prop :=
  (65 ≤ x.toNat ∧ x.toNat ≤ 90) ∨ (97 ≤ x.toNat ∧ x.toNat ≤ 122) ∨ (48 ≤ x.toNat ∧ x.toNat ≤ 57) ∨
    x.toNat ∈ [42, 45, 95]

instance (x : UInt8) : Decidable (PlainByte x) := inferInstanceAs (Decidable (_ ∨ _))

/-- The owner is a valid name at or below the root of the zone, with plain labels above the root. -/
def PlainOwner (zoneRoot owner : DnsLabel) : Prop :=
  validLabels owner.label = true ∧ ∃ above root, owner.label = above ++ root ∧
    DnsLabel.Eqv ⟨root⟩ zoneRoot ∧ ∀ l ∈ above, ∀ x ∈ l, PlainByte x

/-- What `idna.encode` returns has only lower-case letters, digits, hyphens and dots. -/
def IdnaAscii (h : Host) : Prop :=
  ∀ t u, h.idna t = some u → ∀ c ∈ u, c.isLower ∨ c.isDigit ∨ c = '-' ∨ c = '.'

/-- The owner is in the zone, and the row is published at it. -/
def KeepsOwner (h : Host) (zoneRoot : DnsLabel) (owner : DnsLabel) (row : Row) : Prop :=
  Below owner zoneRoot ∧ PublishedAt h zoneRoot row owner

theorem below_iff_split {l m : DnsLabel} :
    Below l m ↔ ∃ above root, l.label = above ++ root ∧ DnsLabel.Eqv ⟨root⟩ m := by
  constructor
  · rintro ⟨p, hp⟩
    obtain ⟨above, root, hl, -, hroot⟩ := List.map_eq_append_iff.mp hp.symm
    exact ⟨above, root, hl, hroot⟩
  · rintro ⟨above, root, hl, hroot⟩
    unfold Below
    rw [← show DnsLabel.lower ⟨root⟩ = m.lower from hroot]
    unfold DnsLabel.lower
    rw [hl, List.map_append]
    exact List.suffix_append _ _

theorem validLabels_congr {l m : DnsLabel} (h : l.Eqv m) : validLabels l.label = validLabels m.label := by
  have hlens : l.label.map List.length = m.label.map List.length := by
    have hmap := congrArg (List.map List.length) h
    unfold DnsLabel.lower at hmap
    simpa [Function.comp_def] using hmap
  unfold validLabels
  have hall : ∀ ls : List Bytes, ls.all (fun l => 0 < l.length && l.length < 64) =
      (ls.map List.length).all (fun n => 0 < n && n < 64) := by
    intro ls
    rw [List.all_map]
    rfl
  have hsum : ∀ ls : List Bytes, (ls.map (·.length + 1)).sum = ((ls.map List.length).map (· + 1)).sum := by
    intro ls
    rw [List.map_map]
    rfl
  rw [hall, hall, hsum, hsum, hlens]

/-! ### What the text of an owner is read as -/

/-- A text that spells a token is one token. -/
theorem oneToken_of_spells {t : Text} {k : Token} (ht : Spells t k) : oneToken t = some k := by
  have hlex := ht (.fresh []) (Lexer.between_fresh []) '\n' (Or.inr rfl)
  unfold oneToken tokens entries
  rw [hlex]
  rfl

/-- A byte of a label between dots. -/
theorem mem_splitDots {syms : List Sym} {l : List Sym} (hl : l ∈ splitDots syms) {x : Sym} (hx : x ∈ l) :
    x ∈ syms ∧ x ≠ ⟨46, false⟩ := by
  rw [splitDots_eq] at hl
  constructor
  · have hmem := mem_intercalate_of_mem [(⟨46, false⟩ : Sym)] hl hx
    rwa [List.intercalate_splitOn] at hmem
  · rintro rfl
    exact not_mem_of_mem_splitOn hl hx

/-- The bytes of a name that is read are bytes of the token, up to the origin. -/
theorem readName_bytes {origin : List Bytes} {t : Token} {ls : List Bytes} (hat : t.syms ≠ [⟨64, false⟩])
    (hr : readName origin t = some ls) : validLabels ls = true ∧ ∃ as bs, ls = as ++ bs ∧
      bs.length ≤ origin.length ∧
        ∀ l ∈ as, ∀ x ∈ l, ⟨x, true⟩ ∈ t.syms ∨ (⟨x, false⟩ ∈ t.syms ∧ x ≠ 46) := by
  have hbytes : ∀ l ∈ (splitDots t.syms).map (·.map Sym.byte), ∀ x ∈ l,
      ⟨x, true⟩ ∈ t.syms ∨ (⟨x, false⟩ ∈ t.syms ∧ x ≠ 46) := by
    intro l hl x hx
    obtain ⟨piece, hpiece, rfl⟩ := List.mem_map.mp hl
    obtain ⟨⟨b, e⟩, hb, rfl⟩ := List.mem_map.mp hx
    obtain ⟨hmem, hne⟩ := mem_splitDots hpiece hb
    rcases e with _ | _
    · refine Or.inr ⟨hmem, ?_⟩
      rintro rfl
      exact hne rfl
    · exact Or.inl hmem
  unfold readName at hr
  dsimp only at hr
  obtain ⟨hlabels, hvalid⟩ := Option.filter_eq_some_iff.mp hr
  refine ⟨hvalid, ?_⟩
  rw [if_neg hat] at hlabels
  split_ifs at hlabels with h1 h2 h3
  · obtain rfl := Option.some.inj hlabels
    exact ⟨[], [], rfl, Nat.zero_le _, fun l hl => nomatch hl⟩
  · obtain rfl := Option.some.inj hlabels
    exact ⟨_, [], (List.append_nil _).symm, Nat.zero_le _, fun l hl => hbytes l (List.mem_of_mem_dropLast hl)⟩
  · obtain rfl := Option.some.inj hlabels
    exact ⟨_, origin, rfl, le_rfl, hbytes⟩

/-! ### The text of an owner -/

/-- The symbols that a record name is written with: a blank as the escaped code 40. -/
def ownerSym (c : Char) : Sym :=
  if c = ' ' then ⟨40, true⟩ else ⟨UInt8.ofNat c.toNat, false⟩

theorem escapeBlanks_eq {t : Text} (ht : IsAscii t) : escapeBlanks t = symsText (t.map ownerSym) := by
  unfold escapeBlanks symsText
  rw [List.flatMap_map]
  refine List.flatMap_congr fun c hc => ?_
  unfold ownerSym
  by_cases hblank : c = ' '
  · rw [if_pos hblank, if_pos hblank]
    rfl
  · have hlt := ht c hc
    have hnat : (UInt8.ofNat c.toNat).toNat = c.toNat := toNat_byteOf hlt
    rw [if_neg hblank, if_neg hblank]
    show [c] = [Char.ofNat (UInt8.ofNat c.toNat).toNat]
    rw [hnat, Char.ofNat_toNat]

theorem allowedChar_lt {c : Char} (hc : allowedChar c = true) : c.toNat < 128 := by
  simp only [allowedChar, Bool.or_eq_true, decide_eq_true_eq, isAlpha_iff, isDigit_iff] at hc
  rcases hc with (h | h) | hmem
  · omega
  · omega
  · have hall : ∀ c ∈ ['-', '_', ' ', '*', '.'], c.toNat < 128 := by decide
    exact hall c hmem

theorem allowed_spec : ∀ n < 128, allowedChar (Char.ofNat n) = true → Char.ofNat n ≠ ' ' →
    Lexer.isSpecial (Char.ofNat n) = false ∧ (PlainByte (UInt8.ofNat n) ∨ n = 46) := by decide +kernel

theorem isPlain_ownerSym {c : Char} (hc : allowedChar c = true) : (ownerSym c).IsPlain := by
  have hlt := allowedChar_lt hc
  unfold ownerSym
  by_cases hblank : c = ' '
  · rw [if_pos hblank]
    intro he
    cases he
  · have hspec := allowed_spec c.toNat hlt (by rwa [Char.ofNat_toNat]) (by rwa [Char.ofNat_toNat])
    have hnat : (UInt8.ofNat c.toNat).toNat = c.toNat := toNat_byteOf hlt
    rw [if_neg hblank]
    intro _
    show (UInt8.ofNat c.toNat).toNat < 128 ∧ Lexer.isSpecial (Char.ofNat (UInt8.ofNat c.toNat).toNat) = false
    rw [hnat]
    exact ⟨hlt, hspec.1⟩

/-- The bytes that a record name is read as: plain ones, or a parenthesis for a blank. -/
theorem byte_ownerSym {t : Text} (ht : ∀ c ∈ t, allowedChar c = true) {x : UInt8}
    (hx : ⟨x, true⟩ ∈ t.map ownerSym ∨ (⟨x, false⟩ ∈ t.map ownerSym ∧ x ≠ 46)) :
    PlainByte x ∨ (x = 40 ∧ ' ' ∈ t) := by
  have hcases : ∃ c ∈ t, ∃ e, ownerSym c = ⟨x, e⟩ ∧ (e = false → x ≠ 46) := by
    rcases hx with hx | ⟨hx, hne⟩
    · obtain ⟨c, hc, heq⟩ := List.mem_map.mp hx
      exact ⟨c, hc, true, heq, fun he => nomatch he⟩
    · obtain ⟨c, hc, heq⟩ := List.mem_map.mp hx
      exact ⟨c, hc, false, heq, fun _ => hne⟩
  obtain ⟨c, hc, e, heq, hne⟩ := hcases
  unfold ownerSym at heq
  by_cases hblank : c = ' '
  · rw [if_pos hblank] at heq
    exact Or.inr ⟨(Sym.mk.inj heq).1.symm, hblank ▸ hc⟩
  · rw [if_neg hblank] at heq
    obtain ⟨rfl, rfl⟩ := Sym.mk.inj heq
    have hallowed := ht c hc
    have hspec := allowed_spec c.toNat (allowedChar_lt hallowed) (by rwa [Char.ofNat_toNat])
      (by rwa [Char.ofNat_toNat])
    rcases hspec.2 with hplain | hdot
    · exact Or.inl hplain
    · exact absurd (by rw [hdot]; rfl) (hne rfl)

/-- What a record name that is written with allowed characters is read as. -/
theorem read_escapeBlanks {origin ls : List Bytes} {t : Text} (ht : ∀ c ∈ t, allowedChar c = true)
    (hne : t ≠ []) (hr : (oneToken (escapeBlanks t)).bind (readName origin) = some ls) :
    validLabels ls = true ∧ ∃ as bs, ls = as ++ bs ∧ bs.length ≤ origin.length ∧
      ∀ l ∈ as, ∀ x ∈ l, PlainByte x ∨ (x = 40 ∧ ' ' ∈ t) := by
  have hspells : Spells (symsText (t.map ownerSym)) ⟨false, t.map ownerSym⟩ := by
    refine spells_syms (by simpa using hne) fun x hx => ?_
    obtain ⟨c, hc, rfl⟩ := List.mem_map.mp hx
    exact isPlain_ownerSym (ht c hc)
  rw [escapeBlanks_eq fun c hc => allowedChar_lt (ht c hc), oneToken_of_spells hspells] at hr
  have hat : t.map ownerSym ≠ [⟨64, false⟩] := by
    intro hat
    have hmem : (⟨64, false⟩ : Sym) ∈ t.map ownerSym := by rw [hat]; exact List.mem_cons_self
    rcases byte_ownerSym ht (Or.inr ⟨hmem, by decide⟩) with hplain | ⟨h40, -⟩
    · exact absurd hplain (by decide)
    · cases h40
  obtain ⟨hvalid, as, bs, hls, hlen, hbytes⟩ := readName_bytes hat hr
  exact ⟨hvalid, as, bs, hls, hlen, fun l hl x hx => byte_ownerSym ht (hbytes l hl x hx)⟩

/-! ### The record name of an owner -/

section
variable {h : Host} {zone : Zone} {zoneRoot owner : DnsLabel} {name : Text}

/-- The record name of an owner in the zone: the labels above the root in lower case, joined by dots. -/
theorem recordName_of_split (hroot : DnsLabel.ofText h.py zone.zoneRoot = .ok zoneRoot)
    {above root : List Bytes} (howner : owner.label = above ++ root) (heqv : DnsLabel.Eqv ⟨root⟩ zoneRoot)
    (hname : dnsLabelToRecordName h owner zone = .ok name) :
    (above = [] ∧ name = ['@']) ∨ (above ≠ [] ∧ ∃ ts, DnsLabel.texts ⟨above⟩ = .ok ts ∧
      name = ['.'].intercalate (ts.map h.py.lower)) := by
  unfold dnsLabelToRecordName at hname
  rw [hroot] at hname
  change (if zoneRoot.Eqv owner then _ else _) = _ at hname
  by_cases hne : above = []
  · have hsame : zoneRoot.Eqv owner := by
      have hlabel : owner = ⟨root⟩ := by
        rcases owner with ⟨label⟩
        rw [hne] at howner
        exact congrArg DnsLabel.mk howner
      rw [hlabel]
      exact heqv.symm
    rw [if_pos hsame] at hname
    exact Or.inl ⟨hne, (Except.ok.inj hname).symm⟩
  · have hother : ¬ zoneRoot.Eqv owner := by
      intro hsame
      have hlen := length_eq_of_eqv hsame
      have hlen' := length_eq_of_eqv heqv
      rw [howner, List.length_append] at hlen
      have hpos := List.length_pos_iff.mpr hne
      dsimp only at hlen'
      omega
    rw [if_neg hother] at hname
    obtain ⟨ts, hts, hname⟩ := bind_eq_ok.mp hname
    refine Or.inr ⟨hne, ts, ?_, (Except.ok.inj hname).symm⟩
    unfold DnsLabel.texts at hts ⊢
    rwa [label_stripSuffix howner heqv hne] at hts

/-! ### What is published -/

theorem escapeBlanks_of_notMem {t : Text} (ht : ' ' ∉ t) : escapeBlanks t = t := by
  unfold escapeBlanks
  induction t with
  | nil => rfl
  | cons c t ih =>
    have hc : c ≠ ' ' := fun hc => ht (hc ▸ List.mem_cons_self)
    rw [List.flatMap_cons, if_neg hc, ih fun hmem => ht (List.mem_cons_of_mem c hmem)]
    rfl

/-- The characters of an A-label are allowed. -/
theorem allowedChar_of_idna {c : Char} (hc : c.isLower ∨ c.isDigit ∨ c = '-' ∨ c = '.') : allowedChar c = true := by
  unfold allowedChar
  rcases hc with hlower | hdigit | rfl | rfl
  · rw [isAlpha_iff.mpr (Or.inr (isLower_iff.mp hlower)), Bool.true_or, Bool.true_or]
  · rw [hdigit, Bool.or_true, Bool.true_or]
  · decide
  · decide

/-- The text that a row is published under: `@`, or allowed characters, where only the record name itself
has blanks. -/
theorem ownerText_cases (hascii : IdnaAscii h) {row : Row} (hm : row.model ≠ .https) {u : Text}
    (hu : ownerText h row = some u) : u = ['@'] ∨ ∃ v, u = escapeBlanks v ∧ v ≠ [] ∧
      (∀ c ∈ v, allowedChar c = true) ∧ (' ' ∈ v → v = row.recordName) := by
  rw [ownerText_of_ne hm] at hu
  obtain ⟨hlabel, hne⟩ := Option.filter_eq_some_iff.mp hu
  have hne : u ≠ [] := of_decide_eq_true hne
  unfold idnaLabel at hlabel
  by_cases hapex : isApex row.recordName = true
  · rw [if_pos hapex] at hlabel
    exact Or.inl (Option.some.inj hlabel).symm
  · rw [if_neg hapex] at hlabel
    right
    rcases hidna : h.idna row.recordName with _ | v
    · rw [hidna] at hlabel
      dsimp only at hlabel
      split_ifs at hlabel with hall
      obtain rfl := Option.some.inj hlabel
      refine ⟨row.recordName, rfl, ?_, List.all_eq_true.mp hall, fun _ => rfl⟩
      intro hnil
      rw [hnil] at hne
      exact hne rfl
    · rw [hidna] at hlabel
      obtain rfl := Option.some.inj hlabel
      have hchars := hascii _ _ hidna
      have hblank : ' ' ∉ v := fun hmem => absurd (hchars ' ' hmem) (by decide)
      refine ⟨v, (escapeBlanks_of_notMem hblank).symm, hne, fun c hc => allowedChar_of_idna (hchars c hc),
        fun hmem => absurd hmem hblank⟩

/-- The case of a byte does not matter for what a label is written with. -/
theorem lowerByte_spec (x : UInt8) :
    (PlainByte (lowerByte x) ↔ PlainByte x) ∧ (lowerByte x = 40 ↔ x = 40) := by
  have hall : ∀ n < 256, (PlainByte (lowerByte (UInt8.ofNat n)) ↔ PlainByte (UInt8.ofNat n)) ∧
      (lowerByte (UInt8.ofNat n) = 40 ↔ UInt8.ofNat n = 40) := by decide +kernel
  have hx := hall x.toNat x.toNat_lt
  rwa [UInt8.ofNat_toNat] at hx

theorem plainByte_lt {x : UInt8} (hx : PlainByte x) : x.toNat < 128 := by
  rcases hx with hx | hx | hx | hx
  · omega
  · omega
  · omega
  · have hall : ∀ n ∈ [42, 45, 95], n < 128 := by decide
    exact hall _ hx

theorem plain_of_lower_eq {x y : UInt8} {P : Prop} (hlower : lowerByte x = lowerByte y)
    (hy : PlainByte y ∨ (y = 40 ∧ P)) : PlainByte x ∨ (x = 40 ∧ P) := by
  rcases hy with hy | ⟨hy, hP⟩
  · refine Or.inl ((lowerByte_spec x).1.mp ?_)
    rw [hlower]
    exact (lowerByte_spec y).1.mpr hy
  · refine Or.inr ⟨(lowerByte_spec x).2.mp ?_, hP⟩
    rw [hlower]
    exact (lowerByte_spec y).2.mpr hy

/-- What stands above the root is, but for the case, what is read before the origin. -/
theorem lower_above_mem {above root as bs : List Bytes}
    (heq : DnsLabel.Eqv ⟨above ++ root⟩ ⟨as ++ bs⟩) (hlen : bs.length ≤ root.length) {l : Bytes}
    (hl : l ∈ above) : ∃ m ∈ as, l.map lowerByte = m.map lowerByte := by
  have hsplit : above.map (·.map lowerByte) ++ root.map (·.map lowerByte) =
      as.map (·.map lowerByte) ++ bs.map (·.map lowerByte) := by
    rw [← List.map_append, ← List.map_append]
    exact heq
  have hlens := congrArg List.length hsplit
  simp only [List.length_append, List.length_map] at hlens
  have hprefix : above.map (·.map lowerByte) <+: as.map (·.map lowerByte) := by
    refine List.prefix_of_prefix_length_le (List.prefix_append _ (root.map (·.map lowerByte))) ?_ ?_
    · rw [hsplit]
      exact List.prefix_append _ _
    · rw [List.length_map, List.length_map]
      omega
  have hmem := hprefix.subset (List.mem_map_of_mem hl)
  obtain ⟨m, hm, heq⟩ := List.mem_map.mp hmem
  exact ⟨m, hm, heq.symm⟩

/-- A parenthesis in an ASCII label of the owner is one in the record name. -/
theorem paren_mem_recordName (hroot : DnsLabel.ofText h.py zone.zoneRoot = .ok zoneRoot)
    {above root : List Bytes} (howner : owner.label = above ++ root) (heqv : DnsLabel.Eqv ⟨root⟩ zoneRoot)
    (hname : dnsLabelToRecordName h owner zone = .ok name) {l : Bytes} (hl : l ∈ above)
    (hlt : ∀ y ∈ l, y.toNat < 128) (hparen : 40 ∈ l) : '(' ∈ name := by
  rcases recordName_of_split hroot howner heqv hname with ⟨hnil, -⟩ | ⟨-, ts, hts, rfl⟩
  · rw [hnil] at hl
    cases hl
  · obtain ⟨t, ht, hdecode⟩ := (mem_mapM hts).2 l hl
    have hdecode := decodeText_eq_ok.mp hdecode
    obtain ⟨t', ht', hascii⟩ := exists_decode hlt
    obtain rfl : t = t' := Option.some.inj (hdecode.symm.trans ht')
    have hmem : '(' ∈ t := by
      rw [← decode_eq_some.mp hdecode] at hparen
      obtain ⟨c, hc, hbyte⟩ := List.mem_flatMap.mp hparen
      have hc128 := hascii c hc
      rw [utf8EncodeChar_ascii hc128, List.mem_singleton] at hbyte
      have hnat := congrArg UInt8.toNat hbyte
      rw [UInt8.toNat_ofNat', Nat.mod_eq_of_lt (by omega)] at hnat
      have hchar : c = '(' := Char.toNat_inj.mp hnat.symm
      exact hchar ▸ hc
    have hlower : '(' ∈ h.py.lower t := by
      rw [lower_ascii hascii]
      exact List.mem_map.mpr ⟨'(', hmem, by decide⟩
    exact mem_intercalate_of_mem ['.'] (List.mem_map_of_mem ht) hlower

/-- An owner in the zone that its row is published at has plain labels above the root. -/
theorem plainOwner_of_publishedAt (hascii : IdnaAscii h)
    (hroot : DnsLabel.ofText h.py zone.zoneRoot = .ok zoneRoot)
    (hname : dnsLabelToRecordName h owner zone = .ok name) {row : Row} (hrow : row.recordName = name)
    (hm : row.model ≠ .https) (hkeeps : KeepsOwner h zoneRoot owner row) : PlainOwner zoneRoot owner := by
  obtain ⟨hbelow, ls, hls, heqv⟩ := hkeeps
  obtain ⟨above, root, howner, hsame⟩ := below_iff_split.mp hbelow
  unfold publishedOwner at hls
  obtain ⟨token, htoken, hread⟩ := Option.bind_eq_some_iff.mp hls
  obtain ⟨u, hu, htoken⟩ := Option.bind_eq_some_iff.mp htoken
  have hlen : root.length = zoneRoot.label.length := length_eq_of_eqv hsame
  rcases ownerText_cases hascii hm hu with rfl | ⟨v, rfl, hne, hallowed, hblank⟩
  · -- the root, so that there is nothing above it
    rw [oneToken_of_spells spells_at] at htoken
    obtain rfl := Option.some.inj htoken
    rw [readName_at] at hread
    obtain ⟨hls', hvalid⟩ := Option.filter_eq_some_iff.mp hread
    obtain rfl := Option.some.inj hls'
    have hlength := length_eq_of_eqv heqv
    rw [howner, List.length_append] at hlength
    have hnil : above = [] := List.length_eq_zero_iff.mp (by dsimp only at hlength; omega)
    refine ⟨(validLabels_congr heqv).trans hvalid, above, root, howner, hsame, fun l hl => ?_⟩
    rw [hnil] at hl
    cases hl
  · obtain ⟨hvalid, as, bs, rfl, hbs, hbytes⟩ := read_escapeBlanks hallowed hne
      (Option.bind_eq_some_iff.mpr ⟨token, htoken, hread⟩)
    have heqv' : DnsLabel.Eqv ⟨above ++ root⟩ ⟨as ++ bs⟩ := by
      rw [← howner]
      exact heqv
    have habove : ∀ l ∈ above, ∀ x ∈ l, PlainByte x ∨ (x = 40 ∧ ' ' ∈ v) := by
      intro l hl x hx
      obtain ⟨m, hm, heq⟩ := lower_above_mem heqv' (by omega) hl
      have hmem : lowerByte x ∈ m.map lowerByte := heq ▸ List.mem_map_of_mem hx
      obtain ⟨y, hy, hlower⟩ := List.mem_map.mp hmem
      exact plain_of_lower_eq hlower.symm (hbytes m hm y hy)
    refine ⟨(validLabels_congr heqv).trans hvalid, above, root, howner, hsame, fun l hl x hx => ?_⟩
    rcases habove l hl x hx with hplain | ⟨h40, hmem⟩
    · exact hplain
    · -- a parenthesis in the owner would be one in the record name
      rw [hblank hmem, hrow] at hallowed
      have hlt : ∀ y ∈ l, y.toNat < 128 := fun y hy => by
        rcases habove l hl y hy with hplain | ⟨rfl, -⟩
        · exact plainByte_lt hplain
        · decide
      have hparen := paren_mem_recordName hroot howner hsame hname hl hlt (h40 ▸ hx)
      exact absurd (hallowed '(' hparen) (by decide)

/-! ### What is published of a plain owner -/

/-- A character that a plain label is stored with. -/
def PlainChar (c : Char) : Prop :=
  (97 ≤ c.toNat ∧ c.toNat ≤ 122) ∨ (48 ≤ c.toNat ∧ c.toNat ≤ 57) ∨ c ∈ ['-', '_', '*']

instance (c : Char) : Decidable (PlainChar c) := inferInstanceAs (Decidable (_ ∨ _))

theorem plainChar_spec {c : Char} (hc : PlainChar c) : 33 ≤ c.toNat ∧ c.toNat ≤ 126 ∧ Plain c ∧
    allowedChar c = true ∧ isSpace c = false ∧ c ≠ '@' ∧ c ≠ ' ' := by
  have hrange : 33 ≤ c.toNat ∧ c.toNat ≤ 126 := by
    rcases hc with hc | hc | hc
    · omega
    · omega
    · have hall : ∀ c ∈ ['-', '_', '*'], 33 ≤ c.toNat ∧ c.toNat ≤ 126 := by decide
      exact hall c hc
  have hall : ∀ n < 128, PlainChar (Char.ofNat n) → Plain (Char.ofNat n) ∧
      allowedChar (Char.ofNat n) = true ∧ isSpace (Char.ofNat n) = false ∧ Char.ofNat n ≠ '@' ∧
        Char.ofNat n ≠ ' ' := by decide +kernel
  have hspec := hall c.toNat (by omega) (by rwa [Char.ofNat_toNat])
  rw [Char.ofNat_toNat] at hspec
  exact ⟨hrange.1, hrange.2, hspec⟩

/-- A plain byte in lower case is clean, and a character that is encoded as it is one of these. -/
theorem lowerByte_plain {x : UInt8} (hx : PlainByte x) : CleanByte (lowerByte x) ∧ lowerByte x ≠ 64 ∧
    lowerByte (lowerByte x) = lowerByte x ∧ PlainChar (Char.ofNat (lowerByte x).toNat) := by
  have hall : ∀ n < 128, PlainByte (UInt8.ofNat n) → CleanByte (lowerByte (UInt8.ofNat n)) ∧
      lowerByte (UInt8.ofNat n) ≠ 64 ∧
      lowerByte (lowerByte (UInt8.ofNat n)) = lowerByte (UInt8.ofNat n) ∧
        PlainChar (Char.ofNat (lowerByte (UInt8.ofNat n)).toNat) := by decide +kernel
  have hspec := hall x.toNat (plainByte_lt hx)
  rw [UInt8.ofNat_toNat] at hspec
  exact hspec hx

/-- The texts of plain labels in lower case. -/
theorem lower_texts {above : List Bytes} (hplain : ∀ l ∈ above, ∀ x ∈ l, PlainByte x) {ts : List Text}
    (hts : DnsLabel.texts ⟨above⟩ = .ok ts) :
    (ts.map h.py.lower).map encode = above.map (·.map lowerByte) ∧
      ∀ u ∈ ts.map h.py.lower, ∀ c ∈ u, PlainChar c := by
  induction above generalizing ts with
  | nil =>
    obtain rfl := Except.ok.inj hts
    exact ⟨rfl, fun u hu => nomatch hu⟩
  | cons l above ih =>
    obtain ⟨t, ts, rfl, ht, hts⟩ := (texts_eq_ok rfl).mp hts
    obtain ⟨hencode, hchars⟩ := ih (fun l' hl' => hplain l' (List.mem_cons_of_mem l hl')) hts
    have hl : ∀ x ∈ l, PlainByte x := hplain l List.mem_cons_self
    obtain ⟨t', ht', hascii⟩ := exists_decode fun x hx => plainByte_lt (hl x hx)
    obtain rfl : t = t' := Option.some.inj (ht.symm.trans ht')
    have hlower : encode (h.py.lower t) = l.map lowerByte := by
      rw [lower_ascii hascii, encode_lower, decode_eq_some.mp ht]
    refine ⟨?_, fun u hu => ?_⟩
    · rw [List.map_cons, List.map_cons, List.map_cons, hlower, hencode]
    · rcases List.mem_cons.mp hu with rfl | hu
      · intro c hc
        have hlt : c.toNat < 128 := by
          rw [lower_ascii hascii] at hc
          obtain ⟨d, hd, rfl⟩ := List.mem_map.mp hc
          exact toNat_lowerChar_lt (hascii d hd)
        have hmem : UInt8.ofNat c.toNat ∈ encode (h.py.lower t) := by
          refine List.mem_flatMap.mpr ⟨c, hc, ?_⟩
          rw [utf8EncodeChar_ascii hlt]
          exact List.mem_singleton_self _
        rw [hlower] at hmem
        obtain ⟨x, hx, hbyte⟩ := List.mem_map.mp hmem
        have hchar := (lowerByte_plain (hl x hx)).2.2.2
        rw [hbyte, UInt8.toNat_ofNat', Nat.mod_eq_of_lt (by omega), Char.ofNat_toNat] at hchar
        exact hchar
      · exact hchars u hu

theorem strip_of_noSpace {t : Text} (ht : ∀ c ∈ t, isSpace c = false) : strip t = t := by
  have hfront : t.dropWhile isSpace = t := by
    refine List.dropWhile_eq_self_iff.mpr fun hlen => ?_
    simpa using ht _ (List.getElem_mem hlen)
  unfold strip stripBy
  rw [hfront]
  refine List.rdropWhile_eq_self_iff.mpr fun hne => ?_
  simpa using ht _ (List.getLast_mem hne)

/-- A name of plain labels is its own label. -/
theorem idnaLabel_of_plain {t : Text} (hne : t ≠ []) (ht : ∀ c ∈ t, PlainChar c ∨ c = '.') :
    idnaLabel h t = some t := by
  have hspec : ∀ c ∈ t, Plain c ∧ allowedChar c = true ∧ isSpace c = false ∧ c ≠ '@' ∧ c ≠ ' ' := by
    intro c hc
    rcases ht c hc with hplain | rfl
    · exact (plainChar_spec hplain).2.2
    · decide
  have hstrip : strip t = t := strip_of_noSpace fun c hc => (hspec c hc).2.2.1
  have hapex : isApex t = false := by
    have hat : t ≠ ['@'] := by
      rintro rfl
      exact (hspec '@' List.mem_cons_self).2.2.2.1 rfl
    unfold isApex
    rw [hstrip]
    simp [hat, hne]
  unfold idnaLabel
  rw [if_neg (by rw [hapex]; exact Bool.false_ne_true)]
  rcases hidna : h.idna t with _ | u
  · dsimp only
    rw [if_pos (List.all_eq_true.mpr fun c hc => (hspec c hc).2.1),
      escapeBlanks_of_notMem fun hmem => (hspec ' ' hmem).2.2.2.2 rfl]
  · exact congrArg some (h.idna_plain t u (fun c hc => (hspec c hc).1) hidna)

/-- The row of a plain owner is published at it. -/
theorem publishedAt_of_plainOwner (hroot : DnsLabel.ofText h.py zone.zoneRoot = .ok zoneRoot)
    (hname : dnsLabelToRecordName h owner zone = .ok name) {row : Row} (hrow : row.recordName = name)
    (hm : row.model ≠ .https) (hplain : PlainOwner zoneRoot owner) :
    KeepsOwner h zoneRoot owner row := by
  obtain ⟨hvalid, above, root, howner, hsame, hbytes⟩ := hplain
  refine ⟨below_iff_split.mpr ⟨above, root, howner, hsame⟩, ?_⟩
  unfold PublishedAt publishedOwner
  rw [ownerText_of_ne hm, hrow]
  rcases recordName_of_split hroot howner hsame hname with ⟨rfl, rfl⟩ | ⟨hne, ts, hts, rfl⟩
  · -- the root
    have heqv : owner.Eqv ⟨zoneRoot.label⟩ := by
      rcases owner with ⟨label⟩
      obtain rfl : label = root := howner
      exact hsame
    have hlabel : idnaLabel h ['@'] = some ['@'] := rfl
    rw [hlabel]
    refine ⟨zoneRoot.label, ?_, heqv⟩
    show (oneToken ['@']).bind (readName zoneRoot.label) = some zoneRoot.label
    rw [oneToken_of_spells spells_at]
    exact Option.filter_eq_some_iff.mpr ⟨rfl, (validLabels_congr heqv).symm.trans hvalid⟩
  · -- the labels in lower case, which the origin completes
    obtain ⟨hencode, hchars⟩ := lower_texts (h := h) hbytes hts
    obtain ⟨labels, hlabels⟩ : ∃ labels, labels = above.map (·.map lowerByte) := ⟨_, rfl⟩
    have hlens : ∀ l ∈ above, l ≠ [] := by
      intro l hl hnil
      have hall := List.all_eq_true.mp (Bool.and_eq_true_iff.mp hvalid).1 l
        (howner ▸ List.mem_append_left root hl)
      rw [hnil] at hall
      exact absurd hall (by decide)
    have hclean : ∀ m ∈ labels, ∀ b ∈ m, CleanByte b ∧ b ≠ 64 := by
      rw [hlabels]
      intro m hm b hb
      obtain ⟨l, hl, rfl⟩ := List.mem_map.mp hm
      obtain ⟨x, hx, rfl⟩ := List.mem_map.mp hb
      have hspec := lowerByte_plain (hbytes l hl x hx)
      exact ⟨hspec.1, hspec.2.1⟩
    have hfull : ∀ m ∈ labels, m ≠ [] := by
      rw [hlabels]
      intro m hm hnil
      obtain ⟨l, hl, rfl⟩ := List.mem_map.mp hm
      exact hlens l hl (List.map_eq_nil_iff.mp hnil)
    have hhead : HasHead labels := by
      rcases hcases : labels with _ | ⟨_ | ⟨x, l⟩, rest⟩
      · rw [hlabels] at hcases
        exact absurd (List.map_eq_nil_iff.mp hcases) hne
      · exact absurd rfl (hfull [] (hcases ▸ List.mem_cons_self))
      · exact ⟨x, l, rest, rfl⟩
    have htext : ['.'].intercalate (ts.map h.py.lower) = labelsText labels := by
      unfold labelsText
      rw [hlabels, ← hencode, List.map_map]
      congr 1
      refine (List.map_id _).symm.trans (List.map_congr_left fun u hu => ?_)
      refine (flatMap_showByte fun c hc => ?_).symm
      have hspec := plainChar_spec (hchars u hu c hc)
      exact ⟨hspec.1, hspec.2.1⟩
    have hspells := spells_labels hhead fun m hm b hb => (hclean m hm b hb).1
    have hnonempty : ['.'].intercalate (ts.map h.py.lower) ≠ [] := by
      rw [htext]
      intro hnil
      rw [hnil] at hspells
      have hnone : oneToken [] = none := by decide
      exact nomatch hnone.symm.trans (oneToken_of_spells hspells)
    have hlabel : idnaLabel h (['.'].intercalate (ts.map h.py.lower)) =
        some (['.'].intercalate (ts.map h.py.lower)) := by
      refine idnaLabel_of_plain hnonempty fun c hc => ?_
      rcases mem_of_mem_intercalate hc with hc | ⟨u, hu, hc⟩
      · exact Or.inr (List.mem_singleton.mp hc)
      · exact Or.inl (hchars u hu c hc)
    have heqv : owner.Eqv ⟨labels ++ zoneRoot.label⟩ := by
      rcases owner with ⟨label⟩
      obtain rfl : label = above ++ root := howner
      show (above ++ root).map _ = (labels ++ zoneRoot.label).map _
      rw [List.map_append, List.map_append, hlabels, List.map_map]
      congr 1
      refine List.map_congr_left fun l hl => ?_
      show l.map lowerByte = (l.map lowerByte).map lowerByte
      rw [List.map_map]
      refine List.map_congr_left fun x hx => ?_
      exact (lowerByte_plain (hbytes l hl x hx)).2.2.1.symm
    rw [hlabel]
    refine ⟨labels ++ zoneRoot.label, ?_, heqv⟩
    have hfilter : Option.filter (· ≠ []) (some (['.'].intercalate (ts.map h.py.lower))) =
        some (['.'].intercalate (ts.map h.py.lower)) :=
      Option.filter_eq_some_iff.mpr ⟨rfl, decide_eq_true hnonempty⟩
    rw [hfilter]
    show (oneToken (['.'].intercalate (ts.map h.py.lower))).bind (readName zoneRoot.label) = _
    rw [htext, oneToken_of_spells hspells]
    show readName zoneRoot.label (labelsToken labels) = _
    have hat : labels ≠ [[64]] := by
      intro hat
      have hmem : [64] ∈ labels := by rw [hat]; exact List.mem_cons_self
      exact (hclean [64] hmem 64 List.mem_cons_self).2 rfl
    have hlast : labels.getLast? ≠ some [] := by
      intro hlast
      exact hfull [] (List.mem_of_getLast? hlast) rfl
    rw [readName_labels _ hhead (fun m hm b hb => (hclean m hm b hb).1) hat, if_neg hlast]
    exact Option.filter_eq_some_iff.mpr ⟨rfl, (validLabels_congr heqv).symm.trans hvalid⟩

/-- **The row of a record** is published at the owner, and that in the zone, if and only if the owner is a
valid name in the zone with plain labels above the root. -/
theorem keepsOwner_iff (hascii : IdnaAscii h) (hroot : DnsLabel.ofText h.py zone.zoneRoot = .ok zoneRoot)
    (hname : dnsLabelToRecordName h owner zone = .ok name) {row : Row} (hrow : row.recordName = name)
    (hm : row.model ≠ .https) : KeepsOwner h zoneRoot owner row ↔ PlainOwner zoneRoot owner :=
  ⟨plainOwner_of_publishedAt hascii hroot hname hrow hm, publishedAt_of_plainOwner hroot hname hrow hm⟩

end

/-! ### The import -/

/-- The rows that are created by writes. -/
def createdRows (ws : List Write) : List Row :=
  ws.filterMap fun | .create row => some row | _ => none

theorem createdRows_append (ws ws' : List Write) :
    createdRows (ws ++ ws') = createdRows ws ++ createdRows ws' :=
  List.filterMap_append

theorem createdRows_deleteSet (p : Row → Bool) (st : Store) :
    createdRows (deleteSet p st).journal = createdRows st.journal := by
  have hnone : createdRows ((st.records.rows.filter p).map .delete) = [] := by
    unfold createdRows
    rw [List.filterMap_map]
    exact List.filterMap_eq_nil_iff.mpr fun row _ => rfl
  show createdRows (st.journal ++ _) = _
  rw [createdRows_append, hnone, List.append_nil]

theorem model_importColumns {t : QType} {columns : Rr → Except PyErr RecordData}
    (hcols : importColumns t = some columns) {rr : Rr} {data : RecordData} (hdata : columns rr = .ok data) :
    data.model ≠ .https := by
  rcases t with _ | _ | _ | _ | _ | _ | _ | _ | _ | _ | _ | _ | _ | _ | _ | _ | _ | _ | _ | _ | _ | c <;>
    cases hcols
  all_goals
    simp only [addressColumns, cnameColumns, mxColumns, nsColumns, txtColumns, srvColumns, caaColumns,
      naptrColumns, dnskeyColumns] at hdata
    first
      | (split at hdata <;> cases hdata <;> exact Model.noConfusion)
      | (cases hdata; exact Model.noConfusion)

/-- The row has the record name of the record, and no name of its own. -/
def NamedAfter (h : Host) (zone : Zone) (rr : Rr) (row : Row) : Prop :=
  dnsLabelToRecordName h rr.rname zone = .ok row.recordName ∧ row.model ≠ .https

section
variable {h : Host} {zone : Zone} {st st' : Store}

/-- **A record that is imported** creates one row, under the record name of its owner. -/
theorem createdRows_importRr {rr : Rr} (hrr : Imported rr)
    (hrun : run (importRr h zone rr) st = (.ok (), st')) :
    ∃ row, createdRows st'.journal = createdRows st.journal ++ [row] ∧ NamedAfter h zone rr row := by
  obtain ⟨hclass, hsome⟩ := hrr
  obtain ⟨columns, hcols⟩ := Option.isSome_iff_exists.mp hsome
  rw [run_importRr hclass hcols] at hrun
  rcases hmade : fromRr h columns rr zone st.records.next with e | made
  · rw [hmade] at hrun
    cases hrun
  rw [hmade] at hrun
  dsimp only at hrun
  obtain ⟨name, data, hname, hdata, rfl⟩ := fromRr_eq_ok.mp hmade
  -- the rows that are deleted before are not of this id
  obtain ⟨st₁, hst₁⟩ : ∃ st₁, st₁ = if rr.rtype = .cname then deleteSet (fun x => x.zone = zone.id &&
    x.model = .cname && x.recordName = name) st else st := ⟨_, rfl⟩
  have hbefore : createdRows st₁.journal = createdRows st.journal ∧ st₁.records.next = st.records.next := by
    rw [hst₁]
    split_ifs
    · exact ⟨createdRows_deleteSet _ st, rfl⟩
    · exact ⟨rfl, rfl⟩
  have hsaves : ∀ row : Row, row.id = st.records.next → row.recordName = name → row.data = data →
      run (saveRow h row) st₁ = (.ok (), st') → ∃ row',
        createdRows st'.journal = createdRows st.journal ++ [row'] ∧ NamedAfter h zone rr row' := by
    intro row hid hrow hrowData hsave
    rw [run_saveRow] at hsave
    obtain ⟨hok, hst'⟩ := Prod.mk.inj hsave
    rcases hsaved : saved h row with e | row'
    · rw [hsaved] at hok
      cases hok
    · have hnew : getRow st₁.records row.id = none := by
        rw [hid, ← hbefore.2]
        exact getRow_next st₁
      have hjournal := journal_saveStore hsaved st₁
      rw [hnew, hst'] at hjournal
      obtain ⟨data', hdata', rfl, -⟩ := saved_eq_ok.mp hsaved
      refine ⟨{ row with recordName := h.py.lower row.recordName, data := data' }, ?_, ?_, ?_⟩
      · rw [hjournal, createdRows_append, hbefore.1]
        rfl
      · show _ = Except.ok (h.py.lower row.recordName)
        rw [hrow, lower_dnsLabelToRecordName hname]
        exact hname
      · show data'.model ≠ _
        rw [model_columnsOf hdata', hrowData]
        exact model_importColumns hcols hdata
  rw [← hst₁] at hrun
  by_cases httl : rr.ttl ≤ 1
  · rw [if_pos httl] at hrun
    exact hsaves _ rfl rfl rfl hrun
  · rw [if_neg httl] at hrun
    exact hsaves _ rfl rfl rfl hrun

/-- A loop over records creates a row for each that is imported. -/
theorem createdRows_runAll {records : List Rr}
    (hrun : run (runAll (importRr h zone) records) st = (.ok (), st')) :
    ∃ rows, createdRows st'.journal = createdRows st.journal ++ rows ∧
      List.Forall₂ (NamedAfter h zone) (records.filter Imported) rows := by
  induction records generalizing st with
  | nil =>
    obtain rfl : st = st' := congrArg Prod.snd hrun
    exact ⟨[], (List.append_nil _).symm, List.Forall₂.nil⟩
  | cons rr records ih =>
    change run (importRr h zone rr >>= fun _ => runAll (importRr h zone) records) st = _ at hrun
    rw [run_bind] at hrun
    rcases hfirst : run (importRr h zone rr) st with ⟨e | u, st₁⟩
    · rw [hfirst] at hrun
      cases hrun
    rw [hfirst] at hrun
    obtain ⟨rows, hrows, hall⟩ := ih hrun
    by_cases hrr : Imported rr
    · obtain ⟨row, hrow, hnamed⟩ := createdRows_importRr hrr hfirst
      refine ⟨row :: rows, ?_, ?_⟩
      · rw [hrows, hrow, List.append_assoc, List.singleton_append]
      · have hfilter : (rr :: records).filter Imported = rr :: records.filter Imported :=
          List.filter_cons_of_pos (by simpa using hrr)
        rw [hfilter]
        exact List.Forall₂.cons hnamed hall
    · rw [importRr_of_not hrr] at hfirst
      obtain rfl : st = st₁ := congrArg Prod.snd hfirst
      refine ⟨rows, hrows, ?_⟩
      have hfilter : (rr :: records).filter Imported = records.filter Imported :=
        List.filter_cons_of_neg (by simpa using hrr)
      rw [hfilter]
      exact hall

/-- **An import** creates a row for each record that is imported, which is published at the owner of the
record, and that in the zone, if and only if the owner is plain; or it fails, and writes nothing. -/
theorem importedOwners_iff (hascii : IdnaAscii h) (parser : ZoneParser) (zoneData : Text)
    (overwrite : Bool) (st : Store) {zoneRoot : DnsLabel}
    (hroot : DnsLabel.ofText h.py zone.zoneRoot = .ok zoneRoot) {records : List Rr}
    (hrecords : parser zoneData zoneRoot = .ok records) :
    ((run (importZoneFile h parser zone zoneData overwrite) st).1 = .ok () ∧
      ∃ rows, createdRows (run (importZoneFile h parser zone zoneData overwrite) st).2.journal =
          createdRows st.journal ++ rows ∧
        List.Forall₂ (fun rr row => KeepsOwner h zoneRoot rr.rname row ↔ PlainOwner zoneRoot rr.rname)
          (records.filter Imported) rows) ∨
    ((run (importZoneFile h parser zone zoneData overwrite) st).1 ≠ .ok () ∧
      (run (importZoneFile h parser zone zoneData overwrite) st).2.journal = st.journal) := by
  rw [run_importZoneFile overwrite st hroot hrecords]
  obtain ⟨st₁, hst₁⟩ : ∃ st₁, st₁ = if overwrite then deleteSet (fun x => x.zone = zone.id &&
    overwrittenModels.contains x.model) st else st := ⟨_, rfl⟩
  have hbefore : createdRows st₁.journal = createdRows st.journal := by
    rw [hst₁]
    split_ifs
    · exact createdRows_deleteSet _ st
    · rfl
  rw [← hst₁]
  rcases hloop : run (runAll (importRr h zone) records) st₁ with ⟨e | u, st'⟩
  · exact Or.inr ⟨fun hok => (nomatch hok), rfl⟩
  · obtain ⟨rows, hrows, hall⟩ := createdRows_runAll hloop
    rw [hbefore] at hrows
    refine Or.inl ⟨rfl, rows, hrows, hall.imp fun rr row hnamed => ?_⟩
    exact keepsOwner_iff hascii hroot hnamed.1 rfl hnamed.2

end

/-! ### An import with three owners -/

theorem idnaAscii_ascii : IdnaAscii .ascii := by
  intro t u hu
  have hdef : (if t.map lowerChar ≠ [] ∧ ∀ c ∈ t.map lowerChar, c.isLower ∨ c.isDigit ∨ c = '-' ∨ c = '.' then
      some (t.map lowerChar) else none) = some u := hu
  split_ifs at hdef with hchars
  obtain rfl := Option.some.inj hdef
  exact hchars.2

/-- The zone `example.com`. -/
def exampleZone : Zone := ⟨1, "example.com".toList, false⟩

def exampleRoot : DnsLabel := ⟨[encode "example".toList, encode "com".toList]⟩

/-- An address of the name. -/
def addressOf (label : List Text) : Rr := ⟨⟨label.map encode⟩, .a, .in, 300, .a 0x0a000001⟩

/-- An owner of the zone, one of another zone, and one with a blank. -/
def threeOwners : List Rr :=
  [addressOf ["WWW".toList, "example".toList, "com".toList],
    addressOf ["www".toList, "example".toList, "net".toList],
    addressOf ["a b".toList, "example".toList, "com".toList]]

def threeOwnersParser : ZoneParser := fun _ _ => .ok threeOwners

/-- The row of an address with the record name. -/
def addressRow (id : ℕ) (recordName : Text) : Row :=
  ⟨id, 1, recordName, 300, .address (some (.v4 0x0a000001)) true⟩

/-- The owner of another zone is completed with the root, and the blank comes back as a parenthesis. -/
theorem not_keepsOwner_threeOwners :
    (run (importZoneFile .ascii threeOwnersParser exampleZone [] false) Store.empty).1 = .ok () ∧
    createdRows (run (importZoneFile .ascii threeOwnersParser exampleZone [] false) Store.empty).2.journal =
      [addressRow 0 "www".toList, addressRow 1 "www.example.net".toList, addressRow 2 "a b".toList] ∧
    (publishedOwner .ascii exampleRoot (addressRow 1 "www.example.net".toList) =
      some (["www", "example", "net", "example", "com"].map fun l => encode l.toList)) ∧
    (publishedOwner .ascii exampleRoot (addressRow 2 "a b".toList) =
      some (["a(b", "example", "com"].map fun l => encode l.toList)) ∧
    ¬ Below (addressOf ["www".toList, "example".toList, "net".toList]).rname exampleRoot ∧
    ¬ PublishedAt .ascii exampleRoot (addressRow 2 "a b".toList)
      (addressOf ["a b".toList, "example".toList, "com".toList]).rname := by
  have hpublished : publishedOwner .ascii exampleRoot (addressRow 2 "a b".toList) =
      some (["a(b", "example", "com"].map fun l => encode l.toList) := by decide +kernel
  refine ⟨by decide +kernel, by decide +kernel, by decide +kernel, hpublished, by decide +kernel, ?_⟩
  rintro ⟨ls, hls, heqv⟩
  obtain rfl := Option.some.inj (hpublished.symm.trans hls)
  exact absurd heqv (by decide +kernel)

theorem importedOwners_threeOwners : ∃ rows,
    createdRows (run (importZoneFile .ascii threeOwnersParser exampleZone [] false) Store.empty).2.journal =
      rows ∧ List.Forall₂ (fun rr row => KeepsOwner .ascii exampleRoot rr.rname row ↔
        PlainOwner exampleRoot rr.rname) threeOwners rows := by
  have hok : (run (importZoneFile .ascii threeOwnersParser exampleZone [] false) Store.empty).1 = .ok () := by
    decide +kernel
  have hroot : DnsLabel.ofText Host.ascii.py exampleZone.zoneRoot = .ok exampleRoot := by decide +kernel
  rcases importedOwners_iff idnaAscii_ascii threeOwnersParser [] false Store.empty hroot
    rfl with ⟨-, rows, hrows, hall⟩ | ⟨herror, -⟩
  · exact ⟨rows, hrows, hall⟩
  · exact absurd hok herror

end HexDns.Tasks.ImportedOwners
