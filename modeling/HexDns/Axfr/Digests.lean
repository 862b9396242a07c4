import HexDns.Axfr.RdataParsers

/-! # The digests that the AXFR parser reads

`parse_ds` joins the tokens after the digest type and takes two bytes at a time off the text. What is left over at the
end is not looked at, and `from_str_radix` takes a plus sign. `readsExactly_iff` says on which texts this shows. -/

namespace HexDns.Axfr.Digests

open HexDns.Lib.Texts HexDns.Lib.Programs HexDns.Base.Codecs HexDns.Axfr.KeyData HexDns.Axfr.RdataParsers

/-! ### The statement -/

/-- The digits are those of the bytes, two for each, and the first of them the higher one. -/
def Spells (t : Text) (b : Bytes) : Prop :=
  t.map hexValue = b.flatMap fun x => [some (x.toNat / 16), some (x.toNat % 16)]

/-- An even number of hexadecimal digits. -/
structure HexDigits (t : Text) : Prop where
  nonempty : t ≠ []
  even : t.length % 2 = 0
  digits : ∀ c ∈ t, (hexValue c).isSome

/-- **A digest is read exactly**: from hexadecimal digits in pairs, and from no other text, and it is what they spell. -/
def ReadsExactly {F : Type} (lib : Fields F) (tag algorithm digestType : Text) (tokens : List Text) : Prop :=
  ((∃ ds, parseDs lib (tag :: algorithm :: digestType :: tokens) = .ok ds) ↔ HexDigits tokens.flatten) ∧
    ∀ ds, parseDs lib (tag :: algorithm :: digestType :: tokens) = .ok ds → Spells tokens.flatten ds.digest

/-- Two characters that `from_str_radix` takes. -/
def IsPair (p : Char × Char) : Prop := (p.1 = '+' ∨ (hexValue p.1).isSome) ∧ (hexValue p.2).isSome

/-- Pairs, and what may be left over. -/
structure Cuts (t : Text) (pairs : List (Char × Char)) (left : Text) : Prop where
  eq : t = pairs.flatMap (fun p => [p.1, p.2]) ++ left
  pairs : ∀ p ∈ pairs, IsPair p
  short : left.length ≤ 1
  ascii : ∀ c ∈ left, c.toNat < 128

/-- **The texts that are read though they are no hexadecimal digits in pairs**: pairs of two digits, or of a plus sign and
a digit, with one ASCII character after them or with a plus sign in them. -/
def Lenient (t : Text) : Prop :=
  ∃ pairs left, Cuts t pairs left ∧ (left ≠ [] ∨ ∃ p ∈ pairs, p.1 = '+')

/-! ### What the loop takes -/

section
variable {t left : Text} {pairs : List (Char × Char)} {p : Char × Char}

theorem hexByte_isSome {c d : Char} : (∃ b, hexByte c d = some b) ↔ IsPair (c, d) := by
  unfold hexByte IsPair
  by_cases hplus : c = '+'
  · rw [if_pos hplus]
    rcases hexValue d with _ | y <;> simp [hplus]
  · rw [if_neg hplus]
    rcases hexValue c with _ | x <;> rcases hexValue d with _ | y <;> simp [hplus]

theorem utf8Size_of_hexValue {c : Char} (h : (hexValue c).isSome) : c.utf8Size = 1 := by
  have hc := toNat_of_hexValue h
  exact utf8Size_eq_one_iff.mpr (by omega)

theorem IsPair.utf8Size (h : IsPair p) : p.1.utf8Size = 1 ∧ p.2.utf8Size = 1 := by
  refine ⟨?_, utf8Size_of_hexValue h.2⟩
  rcases h.1 with hplus | hhex
  · rw [hplus]
    rfl
  · exact utf8Size_of_hexValue hhex

theorem Cuts.cons (hp : IsPair p) (h : Cuts t pairs left) : Cuts (p.1 :: p.2 :: t) (p :: pairs) left where
  eq := by
    rw [h.eq]
    rfl
  pairs := List.forall_mem_cons.mpr ⟨hp, h.pairs⟩
  short := h.short
  ascii := h.ascii

/-- **The loop returns** if and only if the text is cut into pairs. -/
theorem digestBytes_isSome : (∃ b, digestBytes t = some b) ↔ ∃ pairs left, Cuts t pairs left := by
  constructor
  · rintro ⟨b, hb⟩
    fun_induction digestBytes t generalizing b with
    | case1 => exact ⟨[], [], rfl, List.forall_mem_nil _, Nat.zero_le 1, List.forall_mem_nil _⟩
    | case2 c hc =>
      exact ⟨[], [c], rfl, List.forall_mem_nil _, le_rfl,
        List.forall_mem_singleton.mpr (utf8Size_eq_one_iff.mp hc)⟩
    | case3 => cases hb
    | case4 c d t hsize ih =>
      obtain ⟨x, hx, hb⟩ := Option.bind_eq_some_iff.mp hb
      obtain ⟨b', hb', -⟩ := Option.map_eq_some_iff.mp hb
      obtain ⟨pairs, left, hcuts⟩ := ih b' hb'
      exact ⟨(c, d) :: pairs, left, hcuts.cons (hexByte_isSome.mp ⟨x, hx⟩)⟩
    | case5 => cases hb
  · rintro ⟨pairs, left, heq, hpairs, hshort, hascii⟩
    induction pairs generalizing t with
    | nil =>
      rcases left with _ | ⟨c, _ | ⟨d, left⟩⟩
      · exact ⟨[], by rw [heq]; rfl⟩
      · refine ⟨[], ?_⟩
        rw [heq]
        exact if_pos (utf8Size_eq_one_iff.mpr (hascii c List.mem_cons_self))
      · simp at hshort
    | cons p pairs ih =>
      obtain ⟨hp, hpairs⟩ := List.forall_mem_cons.mp hpairs
      obtain ⟨b, hb⟩ := ih rfl hpairs
      obtain ⟨x, hx⟩ := hexByte_isSome.mpr hp
      refine ⟨x :: b, ?_⟩
      rw [heq]
      show digestBytes (p.1 :: p.2 :: (pairs.flatMap (fun p => [p.1, p.2]) ++ left)) = _
      rw [digestBytes, if_pos hp.utf8Size, hx, hb]
      rfl

theorem hexValue_lt {c : Char} {x : ℕ} (h : hexValue c = some x) : x < 16 := by
  unfold hexValue at h
  split_ifs at h <;>
  · have hx := Option.some.inj h
    omega

/-- **Hexadecimal digits** are read as the bytes that they spell. -/
theorem digestBytes_of_hex (heven : t.length % 2 = 0) (hdigits : ∀ c ∈ t, (hexValue c).isSome) :
    ∃ b, digestBytes t = some b ∧ Spells t b := by
  fun_induction digestBytes t with
  | case1 => exact ⟨[], rfl, rfl⟩
  | case2 => cases heven
  | case3 => cases heven
  | case4 c d t hsize ih =>
    obtain ⟨hc, hdigits⟩ := List.forall_mem_cons.mp hdigits
    obtain ⟨hd, hdigits⟩ := List.forall_mem_cons.mp hdigits
    obtain ⟨b, hb, hspells⟩ := ih (by simp only [List.length_cons] at heven; omega) hdigits
    obtain ⟨x, hx⟩ := Option.isSome_iff_exists.mp hc
    obtain ⟨y, hy⟩ := Option.isSome_iff_exists.mp hd
    have hxlt := hexValue_lt hx
    have hylt := hexValue_lt hy
    refine ⟨UInt8.ofNat (16 * x + y) :: b, ?_, ?_⟩
    · rw [hexByte_digits hx hy, hb]
      rfl
    · have hbyte : (UInt8.ofNat (16 * x + y)).toNat = 16 * x + y := by
        rw [UInt8.toNat_ofNat', Nat.mod_eq_of_lt (by omega)]
      have hhigh : (16 * x + y) / 16 = x := by omega
      have hlow : (16 * x + y) % 16 = y := by omega
      unfold Spells at hspells ⊢
      rw [List.flatMap_cons, hbyte, hhigh, hlow, List.map_cons, List.map_cons, hx, hy, hspells]
      rfl
  | case5 c d t hsize =>
    obtain ⟨hc, hdigits⟩ := List.forall_mem_cons.mp hdigits
    obtain ⟨hd, -⟩ := List.forall_mem_cons.mp hdigits
    exact absurd ⟨utf8Size_of_hexValue hc, utf8Size_of_hexValue hd⟩ hsize

/-! ### The texts that are no digits -/

theorem Cuts.nonempty (h : Cuts t pairs left) (hlenient : left ≠ [] ∨ ∃ p ∈ pairs, p.1 = '+') : t ≠ [] := by
  rw [h.eq]
  rcases hlenient with hleft | ⟨p, hp, -⟩
  · simp [hleft]
  · rcases pairs with _ | ⟨q, pairs⟩
    · cases hp
    · simp

theorem Cuts.length (h : Cuts t pairs left) : t.length = 2 * pairs.length + left.length := by
  rw [h.eq, List.length_append, List.length_flatMap]
  simp [Nat.mul_comm]

/-- **Cut texts are digits in pairs**, unless something is left over or there is a sign. -/
theorem Cuts.hexDigits_iff (h : Cuts t pairs left) (hne : t ≠ []) :
    HexDigits t ↔ ¬ (left ≠ [] ∨ ∃ p ∈ pairs, p.1 = '+') := by
  constructor
  · rintro ⟨-, heven, hdigits⟩ (hleft | ⟨p, hp, hplus⟩)
    · have hpos := List.length_pos_iff.mpr hleft
      have hlen := h.length
      have hshort := h.short
      omega
    · have hmem : '+' ∈ t := by
        rw [h.eq, ← hplus]
        exact List.mem_append_left _ (List.mem_flatMap.mpr ⟨p, hp, List.mem_cons_self⟩)
      have hsign := hdigits '+' hmem
      exact absurd hsign (by decide)
  · intro hnot
    push Not at hnot
    obtain ⟨rfl, hnosign⟩ := hnot
    refine ⟨hne, ?_, fun c hc => ?_⟩
    · have hlen := h.length
      rw [List.length_nil] at hlen
      omega
    · rw [h.eq, List.append_nil] at hc
      obtain ⟨p, hp, hc⟩ := List.mem_flatMap.mp hc
      obtain ⟨hfirst, hsecond⟩ := h.pairs p hp
      rcases List.mem_pair.mp hc with rfl | rfl
      · exact hfirst.resolve_left (hnosign p hp)
      · exact hsecond

end

/-! ### The digests -/

section
variable {F : Type} {lib : Fields F} {tag algorithm digestType : Text} {tokens : List Text} {a b c : ℕ}

/-- What `parse_ds` does after the first three tokens. -/
theorem parseDs_eq_ok (htag : parseUint 16 tag = some a) (halgorithm : parseAlgorithm algorithm = some b)
    (hdigestType : (parseUint 8 digestType).filter (lib.digestType ·) = some c) {ds : Ds} :
    parseDs lib (tag :: algorithm :: digestType :: tokens) = .ok ds ↔
      tokens.flatten ≠ [] ∧ ∃ digest, digestBytes tokens.flatten = some digest ∧ ds = ⟨a, b, c, digest⟩ := by
  unfold RdataParsers.parseDs
  dsimp only
  rw [htag, halgorithm, hdigestType, digestLoop_eq]
  show (if tokens.flatten = [] then _ else _) = _ ↔ _
  by_cases hempty : tokens.flatten = []
  · rw [if_pos hempty]
    exact iff_of_false (fun h => nomatch h) fun h => h.1 hempty
  rw [if_neg hempty]
  rcases digestBytes tokens.flatten with _ | digest
  · exact iff_of_false (fun h => nomatch h) fun ⟨_, _, hnone, _⟩ => nomatch hnone
  · show Except.ok _ = _ ↔ _
    simp [hempty, eq_comm]

/-- **When a digest is read exactly**: unless there is a plus sign in a pair, or a character left over, of a text that is
read. -/
theorem readsExactly_iff (htag : parseUint 16 tag = some a) (halgorithm : parseAlgorithm algorithm = some b)
    (hdigestType : (parseUint 8 digestType).filter (lib.digestType ·) = some c) :
    ReadsExactly lib tag algorithm digestType tokens ↔ ¬ Lenient tokens.flatten := by
  have hok : (∃ ds, parseDs lib (tag :: algorithm :: digestType :: tokens) = .ok ds) ↔
      tokens.flatten ≠ [] ∧ ∃ pairs left, Cuts tokens.flatten pairs left := by
    simp only [parseDs_eq_ok htag halgorithm hdigestType, ← digestBytes_isSome]
    constructor
    · rintro ⟨ds, hne, digest, hdigest, -⟩
      exact ⟨hne, digest, hdigest⟩
    · rintro ⟨hne, digest, hdigest⟩
      exact ⟨_, hne, digest, hdigest, rfl⟩
  unfold ReadsExactly
  rw [hok]
  constructor
  · rintro ⟨hiff, -⟩ ⟨pairs, left, hcuts, hlenient⟩
    have hne := hcuts.nonempty hlenient
    exact (hcuts.hexDigits_iff hne).mp (hiff.mp ⟨hne, pairs, left, hcuts⟩) hlenient
  · intro hnot
    have hread : ∀ {pairs left}, tokens.flatten ≠ [] → Cuts tokens.flatten pairs left → HexDigits tokens.flatten :=
      fun hne hcuts => (hcuts.hexDigits_iff hne).mpr fun hlenient => hnot ⟨_, _, hcuts, hlenient⟩
    refine ⟨⟨?_, ?_⟩, ?_⟩
    · rintro ⟨hne, pairs, left, hcuts⟩
      exact hread hne hcuts
    · intro hhex
      obtain ⟨digest, hdigest, -⟩ := digestBytes_of_hex hhex.even hhex.digits
      exact ⟨hhex.nonempty, digestBytes_isSome.mp ⟨digest, hdigest⟩⟩
    · intro ds hds
      obtain ⟨hne, digest, hdigest, rfl⟩ := (parseDs_eq_ok htag halgorithm hdigestType).mp hds
      obtain ⟨pairs, left, hcuts⟩ := digestBytes_isSome.mp ⟨digest, hdigest⟩
      have hhex := hread hne hcuts
      obtain ⟨digest', hdigest', hspells⟩ := digestBytes_of_hex hhex.even hhex.digits
      obtain rfl := Option.some.inj (hdigest.symm.trans hdigest')
      exact hspells

end

/-! ### One byte -/

private def digestFields : Fields ℚ where
  floats := rational
  parse _ _ _ := none
  name _ := none
  digestType n := n ∈ [1, 2, 4]
  nsec3Hash n := n = 1
  hexDecode _ := none
  base32Decode _ := none
  timestamp _ _ _ _ _ _ := none
  emit _ := none
  encode _ := []

theorem readsExactly_ab : ReadsExactly digestFields "1".toList "8".toList "2".toList ["a".toList, "B".toList] ↔
    ¬ Lenient ["a".toList, "B".toList].flatten :=
  readsExactly_iff (a := 1) (b := 8) (c := 2) rfl rfl rfl

/-- A digit that is left over, and a sign. -/
theorem not_readsExactly : ¬ ReadsExactly digestFields "1".toList "8".toList "2".toList ["abc".toList] ∧
    ¬ ReadsExactly digestFields "1".toList "8".toList "2".toList ["+a".toList] := by
  have hread : ∀ {t : Text} {b : Bytes}, t ≠ [] → digestBytes t = some b →
      ReadsExactly digestFields "1".toList "8".toList "2".toList [t] → HexDigits [t].flatten := by
    intro t b hne hb hexact
    refine hexact.1.mp ⟨⟨1, 8, 2, b⟩, (parseDs_eq_ok rfl rfl rfl).mpr ⟨?_, b, ?_, rfl⟩⟩
    · simpa using hne
    · simpa using hb
  constructor
  · intro hexact
    have hhex := hread (b := [0xab]) (by decide) (by decide) hexact
    exact absurd hhex.even (by decide)
  · intro hexact
    have hhex := hread (b := [0x0a]) (by decide) (by decide) hexact
    exact absurd (hhex.digits '+' (by decide)) (by decide)

end HexDns.Axfr.Digests
