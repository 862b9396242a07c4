import Mathlib.Algebra.Order.Round
import Mathlib.Data.Int.Log
import Mathlib.Data.Rat.Floor
import Mathlib.Tactic.Linarith
import Mathlib.Tactic.Positivity
import Mathlib.Tactic.Ring

/-! # Truncation, rounding and leading digits

Numbers of an ordered field made into integers: towards zero (`truncate`), and to the nearest, a half to
the even one (`roundEven`). A positive number is its leading digit to a base times a power of the base, up
to less than that power (`lead_le`, `lt_lead`). -/

namespace HexDns.Lib.Rounding

variable {R : Type} [Field R] [LinearOrder R] [FloorRing R]

/-- The integer next to the number on the side of zero. -/
def truncate (x : R) : ℤ := if 0 ≤ x then ⌊x⌋ else ⌈x⌉

/-- The nearest integer, the even one of two. -/
def roundEven (x : R) : ℤ := if 2 * Int.fract x = 1 ∧ ⌊x⌋ % 2 = 0 then ⌊x⌋ else round x

/-- The leading digit to the base `b`. -/
def leadingDigit (b : ℕ) (x : R) : ℤ := ⌊x / (b : R) ^ Int.log b x⌋

variable [IsStrictOrderedRing R] {x : R}

omit [IsStrictOrderedRing R] in
theorem truncate_of_nonneg (hx : 0 ≤ x) : truncate x = ⌊x⌋ := if_pos hx

theorem truncate_neg (x : R) : truncate (-x) = - truncate x := by
  unfold truncate
  rcases lt_trichotomy x 0 with hx | rfl | hx
  · rw [if_pos (by linarith), if_neg (by linarith), Int.floor_neg]
  · simp
  · rw [if_neg (by linarith), if_pos hx.le, Int.ceil_neg]

/-- Rounding is off by a half at most. -/
theorem abs_roundEven_sub (x : R) : |(roundEven x : R) - x| ≤ 1 / 2 := by
  unfold roundEven
  split_ifs with h
  · have hfract : Int.fract x = 1 / 2 := by linarith [h.1]
    rw [← neg_sub, abs_neg, Int.self_sub_floor, hfract, abs_of_nonneg (by norm_num)]
  · rw [abs_sub_comm]
    exact abs_sub_round x

/-- A number is rounded to at most an odd one if and only if it is less than a half above it. -/
theorem roundEven_le_iff {n : ℤ} (hn : n % 2 = 1) : roundEven x ≤ n ↔ x < n + 1 / 2 := by
  have hfloor : (⌊x⌋ : R) + Int.fract x = x := Int.floor_add_fract x
  unfold roundEven
  split_ifs with h
  · have hfract : Int.fract x = 1 / 2 := by linarith [h.1]
    have hx : x < (n : R) + 1 / 2 ↔ (⌊x⌋ : R) < n := by constructor <;> intro hlt <;> linarith
    rw [hx, Int.cast_lt]
    omega
  · rw [round_eq, ← Int.lt_add_one_iff, Int.floor_lt]
    push_cast
    constructor <;> intro hlt <;> linarith

theorem roundEven_nonneg (hx : 0 ≤ x) : 0 ≤ roundEven x := by
  unfold roundEven
  split_ifs
  · exact Int.floor_nonneg.mpr hx
  · rw [round_eq]
    exact Int.floor_nonneg.mpr (by linarith)

/-! ### Leading digits -/

variable {b : ℕ}

theorem lead_le (hb : 1 < b) (x : R) : (leadingDigit b x : R) * (b : R) ^ Int.log b x ≤ x := by
  have hpos : (0 : R) < (b : R) ^ Int.log b x := zpow_pos (by exact_mod_cast (by omega : 0 < b)) _
  have hfloor : (leadingDigit b x : R) ≤ x / (b : R) ^ Int.log b x := Int.floor_le _
  rwa [le_div_iff₀ hpos] at hfloor

/-- The number is less than one unit of its leading digit above it. -/
theorem lt_lead (hb : 1 < b) (x : R) :
    x < (leadingDigit b x : R) * (b : R) ^ Int.log b x + (b : R) ^ Int.log b x := by
  have hpos : (0 : R) < (b : R) ^ Int.log b x := zpow_pos (by exact_mod_cast (by omega : 0 < b)) _
  have hfloor : x / (b : R) ^ Int.log b x < leadingDigit b x + 1 := Int.lt_floor_add_one _
  rw [div_lt_iff₀ hpos] at hfloor
  linarith

theorem one_le_leadingDigit (hb : 1 < b) (hx : 0 < x) : 1 ≤ leadingDigit b x := by
  have hpos : (0 : R) < (b : R) ^ Int.log b x := zpow_pos (by exact_mod_cast (by omega : 0 < b)) _
  have hle : (b : R) ^ Int.log b x ≤ x := Int.zpow_log_le_self hb hx
  unfold leadingDigit
  rw [Int.le_floor, Int.cast_one, le_div_iff₀ hpos, one_mul]
  exact hle

theorem leadingDigit_lt (hb : 1 < b) (x : R) : leadingDigit b x < b := by
  have hbase : (0 : R) < b := by exact_mod_cast (by omega : 0 < b)
  have hpos : (0 : R) < (b : R) ^ Int.log b x := zpow_pos hbase _
  have hlt : x < (b : R) ^ (Int.log b x + 1) := Int.lt_zpow_succ_log_self hb x
  unfold leadingDigit
  rw [Int.floor_lt, div_lt_iff₀ hpos]
  rw [zpow_add_one₀ hbase.ne'] at hlt
  push_cast
  linarith

end HexDns.Lib.Rounding
