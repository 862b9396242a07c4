import Mathlib.Order.Preorder.Finite
import Mathlib.Data.Set.Finite.Basic

/-! # Chains that end

`next` says what comes after an element, if anything. `after next n a` is what comes after `n` steps from
`a`. If only finitely many elements come after another one, the chain from an element ends if and only if
it does not come to an element that comes again (`ends_iff`). -/

namespace HexDns.Lib.Chains

variable {α : Type} {next : α → Option α}

/-- What comes after a number of steps. -/
def after (next : α → Option α) : ℕ → α → Option α
  | 0, a => some a
  | n + 1, a => (next a).bind (after next n)

/-- The chain from the element ends. -/
def Ends (next : α → Option α) (a : α) : Prop := ∃ n, after next n a = none

/-- The element comes again after itself. -/
def Recurs (next : α → Option α) (a : α) : Prop := ∃ n, 0 < n ∧ after next n a = some a

theorem after_add (m n : ℕ) (a : α) : after next (m + n) a = (after next m a).bind (after next n) := by
  induction m generalizing a with
  | zero =>
    rw [Nat.zero_add]
    rfl
  | succ m ih =>
    have hstep : after next (m + 1 + n) a = (next a).bind (after next (m + n)) := by
      rw [Nat.add_right_comm]
      rfl
    rw [hstep]
    show (next a).bind _ = ((next a).bind (after next m)).bind _
    rcases next a with _ | b
    · rfl
    · exact ih b

theorem after_eq_none_of_le {m n : ℕ} {a : α} (h : after next m a = none) (hle : m ≤ n) :
    after next n a = none := by
  obtain ⟨k, rfl⟩ := Nat.exists_eq_add_of_le hle
  rw [after_add, h]
  rfl

/-- An element that comes again comes after every number of rounds. -/
theorem after_mul {a : α} {n : ℕ} (h : after next n a = some a) (k : ℕ) : after next (k * n) a = some a := by
  induction k with
  | zero =>
    rw [Nat.zero_mul]
    rfl
  | succ k ih =>
    rw [Nat.succ_mul, after_add, ih]
    exact h

/-- **The chain from an element ends if and only if nothing on it comes again.** -/
theorem ends_iff {s : Set α} (hs : s.Finite) (hnext : ∀ a b, next a = some b → b ∈ s) (a : α) :
    Ends next a ↔ ∀ m b, after next m a = some b → ¬ Recurs next b := by
  constructor
  · rintro ⟨k, hk⟩ m b hb ⟨n, hn, hround⟩
    have hcomes : after next (m + k * n) a = some b := by
      rw [after_add, hb]
      exact after_mul hround k
    have hle : k ≤ m + k * n := by
      have := Nat.le_mul_of_pos_right k hn
      omega
    rw [after_eq_none_of_le hk hle] at hcomes
    cases hcomes
  · intro hno
    by_contra hends
    have hsome : ∀ n, ∃ b, after next n a = some b := by
      intro n
      rcases hb : after next n a with _ | b
      · exact absurd ⟨n, hb⟩ hends
      · exact ⟨b, rfl⟩
    choose f hf using hsome
    have hmem : ∀ n, f (n + 1) ∈ s := by
      intro n
      have hlast := hf (n + 1)
      rw [after_add, hf n] at hlast
      have hstep : (next (f n)).bind (after next 0) = some (f (n + 1)) := hlast
      obtain ⟨b, hb, hrest⟩ := Option.bind_eq_some_iff.mp hstep
      obtain rfl := Option.some.inj hrest
      exact hnext (f n) _ hb
    obtain ⟨i, j, hlt, heq⟩ := hs.exists_lt_map_eq_of_forall_mem hmem
    refine hno (i + 1) (f (i + 1)) (hf (i + 1)) ⟨j - i, by omega, ?_⟩
    have hj := hf (i + 1 + (j - i))
    have hsum : i + 1 + (j - i) = j + 1 := by omega
    rw [after_add, hf (i + 1)] at hj
    rw [hsum, ← heq] at hj
    exact hj

end HexDns.Lib.Chains
