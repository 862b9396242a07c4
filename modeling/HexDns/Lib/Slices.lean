import HexDns.Lib.Texts

/-! # Slices of a text at byte positions

A position in a text is a number of bytes of its UTF-8 encoding. A text can be cut only where a character
ends: `splitAt` has nothing at the other positions, and `slice` nothing when one of its ends is such. -/

namespace HexDns.Lib.Slices

open HexDns.Lib.Texts

/-- The bytes of the UTF-8 encoding. -/
def byteLength (t : Text) : ℕ := (t.map Char.utf8Size).sum

/-- The text up to a position and from it on. -/
def splitAt : ℕ → Text → Option (Text × Text)
  | n, [] => if n = 0 then some ([], []) else none
  | n, c :: t =>
    if n = 0 then some ([], c :: t)
    else if c.utf8Size ≤ n then (splitAt (n - c.utf8Size) t).map fun p => (c :: p.1, p.2)
    else none

/-- A character ends at the position. -/
def IsCharBoundary (t : Text) (n : ℕ) : Prop := (splitAt n t).isSome

instance (t : Text) (n : ℕ) : Decidable (IsCharBoundary t n) := inferInstanceAs (Decidable (_ = true))

/-- The text between two positions. -/
def slice (i j : ℕ) (t : Text) : Option Text :=
  (splitAt i t).bind fun p => (splitAt (j - i) p.2).map (·.1)

theorem byteLength_nil : byteLength [] = 0 := rfl

theorem byteLength_cons (c : Char) (t : Text) : byteLength (c :: t) = c.utf8Size + byteLength t := by
  simp [byteLength]

theorem byteLength_append (t u : Text) : byteLength (t ++ u) = byteLength t + byteLength u := by
  simp [byteLength]

theorem byteLength_eq_zero {t : Text} : byteLength t = 0 ↔ t = [] := by
  rcases t with _ | ⟨c, t⟩
  · simp [byteLength_nil]
  · have hpos : 0 < c.utf8Size := c.utf8Size_pos
    rw [byteLength_cons]
    simp
    omega

theorem splitAt_eq_some {n : ℕ} {t a b : Text} : splitAt n t = some (a, b) ↔ t = a ++ b ∧ byteLength a = n := by
  induction t generalizing n a with
  | nil =>
    unfold splitAt
    split_ifs with hn
    · subst hn
      simp only [Option.some.injEq, Prod.mk.injEq, List.nil_eq, List.append_eq_nil_iff, byteLength_eq_zero]
      tauto
    · constructor
      · intro h
        cases h
      · rintro ⟨hab, rfl⟩
        rw [(List.append_eq_nil_iff.mp hab.symm).1] at hn
        exact absurd rfl hn
  | cons c t ih =>
    have hpos : 0 < c.utf8Size := c.utf8Size_pos
    unfold splitAt
    by_cases hn : n = 0
    · subst hn
      rw [if_pos rfl, byteLength_eq_zero]
      constructor
      · intro h
        obtain ⟨rfl, rfl⟩ := Prod.mk.inj (Option.some.inj h)
        exact ⟨rfl, rfl⟩
      · rintro ⟨h, rfl⟩
        rw [h, List.nil_append]
    rw [if_neg hn]
    constructor
    · intro h
      split_ifs at h with hc
      obtain ⟨⟨a', b'⟩, hsplit, h⟩ := Option.map_eq_some_iff.mp h
      obtain ⟨rfl, rfl⟩ := Prod.mk.inj h
      obtain ⟨ht, hlen⟩ := ih.mp hsplit
      refine ⟨congrArg (c :: ·) ht, ?_⟩
      show byteLength (c :: a') = n
      rw [byteLength_cons]
      omega
    · rintro ⟨h, hlen⟩
      rcases a with _ | ⟨d, a⟩
      · exact absurd hlen.symm hn
      obtain ⟨rfl, ht⟩ := List.cons.inj h
      rw [byteLength_cons] at hlen
      rw [if_pos (by omega), ih.mpr ⟨ht, show byteLength a = n - c.utf8Size by omega⟩]
      rfl

theorem isCharBoundary_iff {t : Text} {n : ℕ} : IsCharBoundary t n ↔ ∃ a b, t = a ++ b ∧ byteLength a = n := by
  unfold IsCharBoundary
  rw [Option.isSome_iff_exists]
  constructor
  · rintro ⟨⟨a, b⟩, h⟩
    exact ⟨a, b, splitAt_eq_some.mp h⟩
  · rintro ⟨a, b, h⟩
    exact ⟨(a, b), splitAt_eq_some.mpr h⟩

theorem isCharBoundary_cons {c : Char} {t : Text} {n : ℕ} (hn : n ≠ 0) :
    IsCharBoundary (c :: t) n ↔ c.utf8Size ≤ n ∧ IsCharBoundary t (n - c.utf8Size) := by
  unfold IsCharBoundary
  rw [splitAt, if_neg hn]
  split_ifs with hc
  · simp [hc]
  · simp [hc]

/-- A position after another is one of what is left there. -/
theorem isCharBoundary_append {t u : Text} {n : ℕ} (hn : byteLength t ≤ n) :
    IsCharBoundary (t ++ u) n ↔ IsCharBoundary u (n - byteLength t) := by
  induction t generalizing n with
  | nil => rfl
  | cons c t ih =>
    have hpos : 0 < c.utf8Size := c.utf8Size_pos
    rw [byteLength_cons] at hn ⊢
    rw [List.cons_append, isCharBoundary_cons (by omega), ih (by omega),
      show n - c.utf8Size - byteLength t = n - (c.utf8Size + byteLength t) by omega]
    exact and_iff_right (by omega)

theorem byteLength_of_isAscii {t : Text} (h : IsAscii t) : byteLength t = t.length := by
  induction t with
  | nil => rfl
  | cons c t ih =>
    have hc : c.utf8Size = 1 := by
      have hlt : c.toNat < 128 := h c List.mem_cons_self
      rw [Char.utf8Size_eq_one_iff]
      show c.toNat ≤ 127
      omega
    rw [byteLength_cons, hc, ih fun d hd => h d (List.mem_cons_of_mem c hd), List.length_cons]
    omega

/-- Single bytes end everywhere. -/
theorem isCharBoundary_of_isAscii {t : Text} {n : ℕ} (h : IsAscii t) (hn : n ≤ byteLength t) :
    IsCharBoundary t n := by
  have htake : IsAscii (t.take n) := fun c hc => h c (List.mem_of_mem_take hc)
  rw [byteLength_of_isAscii h] at hn
  refine isCharBoundary_iff.mpr ⟨t.take n, t.drop n, (List.take_append_drop n t).symm, ?_⟩
  rw [byteLength_of_isAscii htake, List.length_take]
  omega

/-- **There is a slice between ends of characters, and only there.** -/
theorem slice_isSome {t : Text} {i j : ℕ} (hij : i ≤ j) :
    (slice i j t).isSome ↔ IsCharBoundary t i ∧ IsCharBoundary t j := by
  unfold slice
  rcases hi : splitAt i t with _ | ⟨a, b⟩
  · simp [IsCharBoundary, hi]
  · obtain ⟨rfl, rfl⟩ := splitAt_eq_some.mp hi
    have hb : IsCharBoundary (a ++ b) (byteLength a) := isCharBoundary_iff.mpr ⟨a, b, rfl, rfl⟩
    rw [Option.bind_some, Option.isSome_map, isCharBoundary_append hij]
    exact ⟨fun h => ⟨hb, h⟩, fun h => h.2⟩

example : slice 2 4 "aé€".toList = none := by decide
example : slice 1 3 "aé€".toList = some "é".toList := by decide

end HexDns.Lib.Slices
