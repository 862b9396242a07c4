import HexDns.Base.Py

/-! # Domain names as the library `dnslib` has them

`DnsLabel` is `dnslib.DNSLabel`: the labels of a name as byte strings, first label first, the root
without labels. Names are compared, and suffixes matched, without regard to the case of the ASCII
letters. `ofText` is the constructor on a text, `toText` is `str`.

`matchSuffix` and `stripSuffix` compare `self.label[-len(suffix.label):]`; with an empty suffix that
slice is the whole name, so that the root is a suffix of itself only. -/

namespace HexDns.Base.Label

open HexDns.Lib.Texts HexDns.Lib.Programs HexDns.Base.Py

/-- `dnslib.DNSLabel` -/
structure DnsLabel where
  label : List Bytes
  deriving DecidableEq, Repr

/-- The root. -/
def DnsLabel.root : DnsLabel := ⟨[]⟩

/-- The labels in lower case. -/
def DnsLabel.lower (l : DnsLabel) : List Bytes := l.label.map (·.map lowerByte)

/-- `self == other` -/
def DnsLabel.Eqv (l m : DnsLabel) : Prop := l.lower = m.lower

instance (l m : DnsLabel) : Decidable (l.Eqv m) := inferInstanceAs (Decidable (l.lower = m.lower))

@[refl] theorem DnsLabel.Eqv.refl (l : DnsLabel) : l.Eqv l := rfl

@[symm] theorem DnsLabel.Eqv.symm {l m : DnsLabel} (h : l.Eqv m) : m.Eqv l := Eq.symm h

@[trans] theorem DnsLabel.Eqv.trans {l m n : DnsLabel} (h : l.Eqv m) (h' : m.Eqv n) : l.Eqv n :=
  Eq.trans h h'

/-- The name is equal to another or below it. -/
def Below (l m : DnsLabel) : Prop := m.lower <:+ l.lower

instance (l m : DnsLabel) : Decidable (Below l m) := inferInstanceAs (Decidable (m.lower <:+ l.lower))

/-- `l[-n:]` -/
def lastN {α : Type} (n : ℕ) (l : List α) : List α := if n = 0 then l else l.drop (l.length - n)

/-- `l[:-n]` -/
def butLastN {α : Type} (n : ℕ) (l : List α) : List α :=
  if n = 0 then [] else l.take (l.length - n)

/-- `DNSLabel.matchSuffix` -/
def DnsLabel.matchSuffix (l suffix : DnsLabel) : Bool :=
  DnsLabel.Eqv ⟨lastN suffix.label.length l.label⟩ suffix

/-- `DNSLabel.stripSuffix` -/
def DnsLabel.stripSuffix (l suffix : DnsLabel) : DnsLabel :=
  if l.matchSuffix suffix then ⟨butLastN suffix.label.length l.label⟩ else l

@[simp] theorem length_lower (l : DnsLabel) : l.lower.length = l.label.length := List.length_map _

theorem lower_eq_nil {l : DnsLabel} : l.lower = [] ↔ l.label = [] := List.map_eq_nil_iff

theorem matchSuffix_iff {l s : DnsLabel} :
    l.matchSuffix s = true ↔ s.lower <:+ l.lower ∧ (s.label = [] → l.label = []) := by
  unfold DnsLabel.matchSuffix
  rw [decide_eq_true_iff]
  unfold DnsLabel.Eqv lastN
  split_ifs with hn
  · have hs : s.label = [] := List.length_eq_zero_iff.mp hn
    rw [lower_eq_nil.mpr hs]
    change l.lower = [] ↔ _
    rw [lower_eq_nil]
    exact ⟨fun h => ⟨List.nil_suffix, fun _ => h⟩, fun h => h.2 hs⟩
  · have hs : s.label ≠ [] := fun h => hn (by rw [h]; rfl)
    have hd : DnsLabel.lower ⟨l.label.drop (l.label.length - s.label.length)⟩
        = l.lower.drop (l.lower.length - s.lower.length) := by
      simp only [DnsLabel.lower, List.map_drop, List.length_map]
    rw [hd]
    constructor
    · intro h
      exact ⟨h ▸ List.drop_suffix _ _, fun h' => absurd h' hs⟩
    · rintro ⟨⟨p, hp⟩, -⟩
      rw [← hp]; simp

/-- What is stripped and what is left make up the name. -/
theorem lower_stripSuffix {l s : DnsLabel} (h : l.matchSuffix s = true) :
    (l.stripSuffix s).lower ++ s.lower = l.lower := by
  have h' := h
  unfold DnsLabel.matchSuffix at h'
  rw [decide_eq_true_iff] at h'
  unfold DnsLabel.Eqv at h'
  unfold DnsLabel.stripSuffix
  rw [if_pos h, ← h']
  unfold lastN butLastN
  split_ifs with hn
  · rfl
  · simp only [DnsLabel.lower]
    rw [← List.map_append, List.take_append_drop]

/-! ### Names and texts -/

/-- `\ddd` for the character with that code -/
def unescape : Text → Text
  | '\\' :: a :: b :: c :: t =>
    if a.isDigit ∧ b.isDigit ∧ c.isDigit then
      Char.ofNat (Nat.ofDigitChars 10 [a, b, c] 0) :: unescape t
    else '\\' :: unescape (a :: b :: c :: t)
  | c :: t => c :: unescape t
  | [] => []

/-- The codec `idna` on an ASCII text: no label is empty (the last may be) or longer than 63. -/
def encodeIdnaAscii (t : Text) : Except PyErr Bytes :=
  let labels := (encode t).splitOn 46
  if (∀ l ∈ labels.dropLast, 0 < l.length ∧ l.length < 64) ∧ (labels.getLastD []).length < 64 then
    .ok (encode t)
  else .error .unicodeError

/-- `t.encode("idna")` -/
def encodeIdna (py : Python) (t : Text) : Except PyErr Bytes :=
  if IsAscii t then encodeIdnaAscii t else py.encodeIdna t

/-- `DNSLabel(b)` of a byte string -/
def DnsLabel.ofBytes (b : Bytes) : DnsLabel :=
  if b = [] ∨ b = [46] then .root else ⟨(b.rdropWhile (· = 46)).splitOn 46⟩

/-- `DNSLabel(text)` -/
def DnsLabel.ofText (py : Python) (t : Text) : Except PyErr DnsLabel :=
  if t = [] ∨ t = ['.'] then .ok .root
  else do
    let b ← encodeIdna py (unescape t)
    return ⟨(b.rdropWhile (· = 46)).splitOn 46⟩

/-- A byte of a label in a text: itself if it is printable, else `\ddd`. -/
def showByte (b : UInt8) : Text :=
  if 33 ≤ b.toNat ∧ b.toNat ≤ 126 then [Char.ofNat b.toNat]
  else '\\' :: [b.toNat / 100, b.toNat / 10 % 10, b.toNat % 10].map Nat.digitChar

/-- `str(label)` -/
def DnsLabel.toText (l : DnsLabel) : Text :=
  ['.'].intercalate (l.label.map (·.flatMap showByte)) ++ ['.']

/-- A text of printable characters is printed as it is. -/
theorem flatMap_showByte {t : Text} (ht : ∀ c ∈ t, 33 ≤ c.toNat ∧ c.toNat ≤ 126) :
    (encode t).flatMap showByte = t := by
  induction t with
  | nil => rfl
  | cons c t ih =>
    obtain ⟨hlo, hhi⟩ := ht c List.mem_cons_self
    have hnat : (UInt8.ofNat c.toNat).toNat = c.toNat := toNat_byteOf (by omega)
    have hchar : showByte (UInt8.ofNat c.toNat) = [c] := by
      unfold showByte
      rw [hnat, if_pos ⟨hlo, hhi⟩, Char.ofNat_toNat]
    rw [encode_cons, utf8EncodeChar_ascii (by omega), List.flatMap_append, List.flatMap_singleton, hchar,
      ih fun d hd => ht d (List.mem_cons_of_mem c hd)]
    rfl

/-- `bytes.decode` -/
def decodeText (b : Bytes) : Except PyErr Text :=
  match decode b with
  | some t => .ok t
  | none => .error .unicodeError

theorem decodeText_eq_ok {b : Bytes} {t : Text} : decodeText b = .ok t ↔ decode b = some t := by
  unfold decodeText
  split
  · rename_i u hu
    rw [hu]
    simp
  · rename_i hu
    rw [hu]
    simp

/-- `[n.decode() for n in self.label]` -/
def DnsLabel.texts (l : DnsLabel) : Except PyErr (List Text) := l.label.mapM decodeText

/-- `".".join(map(lambda n: n.decode(), self.label))` -/
def DnsLabel.searchName (l : DnsLabel) : Except PyErr Text := do
  return ['.'].intercalate (← l.texts)

/-- The name with the label `*` in the place of its first. -/
def DnsLabel.wildcard (l : DnsLabel) : DnsLabel :=
  match l.label with
  | [] => l
  | _ :: ls => ⟨[42] :: ls⟩

/-- `DNSLabel("@")` -/
def DnsLabel.at : DnsLabel := ⟨[[64]]⟩

theorem texts_eq_ok {l : DnsLabel} {b : Bytes} {bs : List Bytes} (hl : l.label = b :: bs)
    {ts : List Text} : l.texts = .ok ts ↔
      ∃ t ts', ts = t :: ts' ∧ decode b = some t ∧ DnsLabel.texts ⟨bs⟩ = .ok ts' := by
  unfold DnsLabel.texts
  rw [hl, List.mapM_cons]
  unfold decodeText
  rcases decode b with _ | t
  · simp [bind, Except.bind]
  · change (List.mapM decodeText bs >>= fun ts' => pure (t :: ts')) = _ ↔ _
    unfold decodeText
    rcases List.mapM _ bs with e | ts'
    · simp [bind, Except.bind]
    · simp [bind, Except.bind, pure, Except.pure, eq_comm]

theorem texts_wildcard {l : DnsLabel} {t : Text} {ts : List Text} (h : l.texts = .ok (t :: ts)) :
    l.wildcard.texts = .ok (['*'] :: ts) := by
  rcases hl : l.label with _ | ⟨b, bs⟩
  · unfold DnsLabel.texts at h; rw [hl] at h; cases h
  obtain ⟨t', ts', heq, -, hts⟩ := (texts_eq_ok hl).mp h
  cases heq
  have hw : l.wildcard.label = [42] :: bs := by unfold DnsLabel.wildcard; rw [hl]
  exact (texts_eq_ok hw).mpr ⟨['*'], ts, rfl, by decide, hts⟩

theorem searchName_eq_ok {l : DnsLabel} {s : Text} :
    l.searchName = .ok s ↔ ∃ ts, l.texts = .ok ts ∧ s = ['.'].intercalate ts := by
  unfold DnsLabel.searchName
  rcases l.texts with e | ts
  · simp [bind, Except.bind]
  · simp [bind, Except.bind, pure, Except.pure, eq_comm]

theorem exists_searchName_wildcard {l : DnsLabel} {s : Text} (h : l.searchName = .ok s) :
    ∃ w, l.wildcard.searchName = .ok w := by
  obtain ⟨ts, hts, -⟩ := searchName_eq_ok.mp h
  rcases hl : l.label with _ | ⟨b, bs⟩
  · have hw : l.wildcard = l := by unfold DnsLabel.wildcard; rw [hl]
    exact ⟨s, by rw [hw, h]⟩
  obtain ⟨t, ts', rfl, -, -⟩ := (texts_eq_ok hl).mp hts
  exact ⟨_, searchName_eq_ok.mpr ⟨_, texts_wildcard hts, rfl⟩⟩

theorem ascii_encodeIdnaAscii {t : Text} {b : Bytes} (ht : IsAscii t)
    (h : encodeIdnaAscii t = .ok b) : ∀ x ∈ b, x.toNat < 128 := by
  unfold encodeIdnaAscii at h
  dsimp only at h
  split_ifs at h
  cases h
  intro x hx
  obtain ⟨c, hc, hx⟩ := List.mem_flatMap.mp hx
  rw [utf8EncodeChar_ascii (ht c hc), List.mem_singleton] at hx
  rw [hx]
  have := ht c hc
  simp; omega

/-- The labels of a name given as a text are ASCII. -/
theorem ascii_ofText {py : Python} {t : Text} {l : DnsLabel} (h : DnsLabel.ofText py t = .ok l) :
    ∀ b ∈ l.label, ∀ x ∈ b, x.toNat < 128 := by
  unfold DnsLabel.ofText at h
  split_ifs at h with h1
  · cases h
    intro b hb; cases hb
  obtain ⟨b, hb, hl⟩ := bind_eq_ok.mp h
  obtain rfl := Except.ok.inj hl
  have hasc : ∀ x ∈ b, x.toNat < 128 := by
    unfold encodeIdna at hb
    split_ifs at hb with ha
    · exact ascii_encodeIdnaAscii ha hb
    · exact py.encodeIdna_ascii _ _ hb
  intro p hp x hx
  refine hasc x ((List.rdropWhile_prefix (fun y => decide (y = 46)) b).subset ?_)
  have := mem_intercalate_of_mem [46] hp hx
  rwa [List.intercalate_splitOn] at this

theorem unescape_eq_self {t : Text} (h : '\\' ∉ t) : unescape t = t := by
  induction t with
  | nil => rfl
  | cons c t ih =>
    have hc : c ≠ '\\' := fun hc => h (hc ▸ List.mem_cons_self)
    rw [unescape.eq_def]
    split
    · exact absurd (List.cons.inj ‹_›).1 hc
    · obtain ⟨rfl, rfl⟩ := List.cons.inj ‹_›
      rw [ih fun h' => h (List.mem_cons_of_mem _ h')]
    · exact absurd ‹_› (List.cons_ne_nil c t)

/-- The tables are not looked at for a name that is given as an ASCII text without a backslash. -/
theorem ofText_ascii (py : Python) {t : Text} (ht : IsAscii t) (hslash : '\\' ∉ t) :
    DnsLabel.ofText py t = DnsLabel.ofText .ascii t := by
  unfold DnsLabel.ofText encodeIdna
  rw [unescape_eq_self hslash]
  simp only [if_pos ht]

/-- A byte of a name that is given as an ASCII text without a backslash is one of its characters. -/
theorem mem_ofText {py : Python} {t : Text} {l : DnsLabel} (ht : IsAscii t) (hslash : '\\' ∉ t)
    (h : DnsLabel.ofText py t = .ok l) {b : Bytes} (hb : b ∈ l.label) {x : UInt8} (hx : x ∈ b) :
    x ≠ 46 ∧ ∃ c ∈ t, x = UInt8.ofNat c.toNat := by
  unfold DnsLabel.ofText at h
  split_ifs at h with h1
  · cases h
    cases hb
  obtain ⟨e, he, hl⟩ := bind_eq_ok.mp h
  obtain rfl := Except.ok.inj hl
  have henc : e = encode t := by
    rw [unescape_eq_self hslash, encodeIdna, if_pos ht] at he
    unfold encodeIdnaAscii at he
    dsimp only at he
    split_ifs at he
    exact (Except.ok.inj he).symm
  subst henc
  refine ⟨fun h46 => not_mem_of_mem_splitOn hb (h46 ▸ hx), ?_⟩
  have hmem : x ∈ encode t := by
    refine (List.rdropWhile_prefix (fun y => decide (y = 46)) _).subset ?_
    have := mem_intercalate_of_mem [46] hb hx
    rwa [List.intercalate_splitOn] at this
  obtain ⟨c, hc, hxc⟩ := List.mem_flatMap.mp hmem
  rw [utf8EncodeChar_ascii (ht c hc), List.mem_singleton] at hxc
  exact ⟨c, hc, hxc⟩

theorem exists_texts {l : DnsLabel} (h : ∀ b ∈ l.label, ∀ x ∈ b, x.toNat < 128) :
    ∃ ts, l.texts = .ok ts ∧ ∀ t ∈ ts, IsAscii t := by
  obtain ⟨bs⟩ := l
  induction bs with
  | nil => exact ⟨[], rfl, by simp⟩
  | cons b bs ih =>
    obtain ⟨ts, hts, hasc⟩ := ih fun b' hb' => h b' (List.mem_cons_of_mem _ hb')
    obtain ⟨t, ht, hta⟩ := exists_decode (h b List.mem_cons_self)
    refine ⟨t :: ts, (texts_eq_ok rfl).mpr ⟨t, ts, rfl, ht, hts⟩, ?_⟩
    intro u hu
    rcases List.mem_cons.mp hu with rfl | hu
    · exact hta
    · exact hasc u hu

theorem length_texts {l : DnsLabel} {ts : List Text} (h : l.texts = .ok ts) :
    ts.length = l.label.length := by
  obtain ⟨bs⟩ := l
  induction bs generalizing ts with
  | nil => cases h; rfl
  | cons b bs ih =>
    obtain ⟨t, ts', rfl, -, hts⟩ := (texts_eq_ok rfl).mp h
    rw [List.length_cons, ih hts]; rfl

/-- Two names that are the same but for the case of ASCII letters have such texts. -/
theorem texts_eqv {l m : DnsLabel} (h : l.Eqv m) {ts us : List Text} (hl : l.texts = .ok ts)
    (hm : m.texts = .ok us) : ts.map (·.map lowerChar) = us.map (·.map lowerChar) := by
  obtain ⟨bs⟩ := l
  obtain ⟨cs⟩ := m
  induction bs generalizing cs ts us with
  | nil =>
    obtain rfl : cs = [] := lower_eq_nil.mp (Eq.symm h)
    cases hl; cases hm; rfl
  | cons b bs ih =>
    rcases cs with _ | ⟨c, cs⟩
    · exact absurd h (by simp [DnsLabel.Eqv, DnsLabel.lower])
    obtain ⟨hbc, htail⟩ := List.cons.inj h
    obtain ⟨t, ts', rfl, ht, hts⟩ := (texts_eq_ok rfl).mp hl
    obtain ⟨u, us', rfl, hu, hus⟩ := (texts_eq_ok rfl).mp hm
    rw [List.map_cons, List.map_cons, ih hts cs hus htail]
    have h1 := decode_lower ht
    rw [show b.map lowerByte = c.map lowerByte from hbc, decode_lower hu] at h1
    rw [Option.some.inj h1]

/-- A suffix of the labels has the suffix of the texts. -/
theorem texts_append {bs cs : List Bytes} {ts : List Text}
    (h : DnsLabel.texts ⟨bs ++ cs⟩ = .ok ts) :
    ∃ us vs, ts = us ++ vs ∧ DnsLabel.texts ⟨bs⟩ = .ok us ∧ DnsLabel.texts ⟨cs⟩ = .ok vs := by
  induction bs generalizing ts with
  | nil => exact ⟨[], ts, rfl, rfl, h⟩
  | cons b bs ih =>
    obtain ⟨t, ts', rfl, ht, hts⟩ := (texts_eq_ok rfl).mp h
    obtain ⟨us, vs, rfl, hus, hvs⟩ := ih hts
    exact ⟨t :: us, vs, rfl, (texts_eq_ok rfl).mpr ⟨t, us, rfl, ht, hus⟩, hvs⟩

theorem length_eq_of_eqv {l m : DnsLabel} (h : l.Eqv m) : l.label.length = m.label.length := by
  have hl : l.lower.length = m.lower.length := congrArg List.length h
  rwa [length_lower, length_lower] at hl

theorem matchSuffix_congr {l s s' : DnsLabel} (h : s.Eqv s') : l.matchSuffix s = l.matchSuffix s' := by
  unfold DnsLabel.matchSuffix
  rw [length_eq_of_eqv h]
  exact decide_eq_decide.mpr ⟨fun h' => h'.trans h, fun h' => h'.trans h.symm⟩

theorem stripSuffix_congr {l s s' : DnsLabel} (h : s.Eqv s') :
    l.stripSuffix s = l.stripSuffix s' := by
  unfold DnsLabel.stripSuffix
  rw [matchSuffix_congr h, length_eq_of_eqv h]

/-- Nothing is left of a name exactly if the suffix is the name. -/
theorem label_stripSuffix_eq_nil {l s : DnsLabel} (h : l.matchSuffix s = true) :
    (l.stripSuffix s).label = [] ↔ s.Eqv l := by
  have hl := lower_stripSuffix h
  rw [← lower_eq_nil]
  unfold DnsLabel.Eqv
  constructor
  · intro h'
    rw [← hl, h']; rfl
  · intro h'
    rw [← h'] at hl
    simpa using hl

/-- What stands above a suffix is left when it is stripped. -/
theorem label_stripSuffix {l s : DnsLabel} {above root : List Bytes} (hl : l.label = above ++ root)
    (hroot : DnsLabel.Eqv ⟨root⟩ s) (hne : above ≠ []) : (l.stripSuffix s).label = above := by
  have hlen : root.length = s.label.length := length_eq_of_eqv hroot
  by_cases hs : s.label = []
  · have hno : l.matchSuffix s = false := by
      rw [Bool.eq_false_iff]
      intro hmatch
      have hnil := (matchSuffix_iff.mp hmatch).2 hs
      rw [hl] at hnil
      exact hne (List.append_eq_nil_iff.mp hnil).1
    have hnil : root = [] := List.length_eq_zero_iff.mp (by rw [hlen, hs]; rfl)
    unfold DnsLabel.stripSuffix
    rw [if_neg (by rw [hno]; exact Bool.false_ne_true), hl, hnil, List.append_nil]
  · have hyes : l.matchSuffix s = true := by
      refine matchSuffix_iff.mpr ⟨?_, fun h0 => absurd h0 hs⟩
      rw [← show DnsLabel.lower ⟨root⟩ = s.lower from hroot]
      unfold DnsLabel.lower
      rw [hl, List.map_append]
      exact List.suffix_append _ _
    have hpos : s.label.length ≠ 0 := fun h0 => hs (List.length_eq_zero_iff.mp h0)
    unfold DnsLabel.stripSuffix
    rw [if_pos hyes]
    unfold butLastN
    rw [if_neg hpos, ← hlen, hl]
    simp

/-- The texts of a suffix in ASCII end those of the name, but for the case of ASCII letters. -/
theorem texts_of_matchSuffix {l s : DnsLabel} (h : l.matchSuffix s = true) {ts us : List Text}
    (hl : l.texts = .ok ts) (hs : s.texts = .ok us) :
    ∃ ps vs, ts = ps ++ vs ∧ vs.map (·.map lowerChar) = us.map (·.map lowerChar) := by
  unfold DnsLabel.matchSuffix at h
  rw [decide_eq_true_iff] at h
  unfold lastN at h
  split_ifs at h with hn
  · exact ⟨[], ts, rfl, texts_eqv h hl hs⟩
  · have hl' : DnsLabel.texts ⟨l.label.take (l.label.length - s.label.length) ++
        l.label.drop (l.label.length - s.label.length)⟩ = .ok ts := by
      rw [List.take_append_drop]; exact hl
    obtain ⟨ps, vs, hts, -, hvs⟩ := texts_append hl'
    exact ⟨ps, vs, hts, texts_eqv h hvs hs⟩

end HexDns.Base.Label
