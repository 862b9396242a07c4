import Mathlib.Algebra.Order.Ring.Nat
import Mathlib.Data.Nat.Basic
import Mathlib.Tactic.Ring

/-! # A fixed number of digits

`digits b n x` are the `n` last digits of `x` to the base `b`, the highest first. The first `k` of them
are the digits of `x / b ^ (n - k)`, so that numbers below `b ^ n` begin with the same `k` digits exactly
if these quotients are equal. -/

namespace HexDns.Lib.Digits

/-- The `n` last digits of a number to the base `b`, the highest first. -/
def digits (b n x : ℕ) : List ℕ := (List.range n).map fun i => x / b ^ (n - 1 - i) % b

variable {b n k x y : ℕ}

@[simp] theorem length_digits : (digits b n x).length = n := by simp [digits]

theorem lt_of_mem_digits (hb : 0 < b) {d : ℕ} (hd : d ∈ digits b n x) : d < b := by
  obtain ⟨i, -, rfl⟩ := List.mem_map.mp hd
  exact Nat.mod_lt _ hb

theorem digits_succ : digits b (n + 1) x = digits b n (x / b) ++ [x % b] := by
  unfold digits
  rw [List.range_succ, List.map_append]
  congr 1
  · refine List.map_congr_left fun i hi => ?_
    have hi : i < n := List.mem_range.mp hi
    have he : n + 1 - 1 - i = n - 1 - i + 1 := by omega
    rw [he, pow_succ', Nat.div_div_eq_div_mul]
  · simp

theorem digits_inj (hx : x < b ^ n) (hy : y < b ^ n) (h : digits b n x = digits b n y) : x = y := by
  induction n generalizing x y with
  | zero =>
    rw [pow_zero] at hx hy
    omega
  | succ n ih =>
    rw [digits_succ, digits_succ] at h
    obtain ⟨hinit, hlast⟩ := List.append_inj' h rfl
    have hdiv : x / b = y / b :=
      ih (Nat.div_lt_of_lt_mul (by rwa [← pow_succ'])) (Nat.div_lt_of_lt_mul (by rwa [← pow_succ'])) hinit
    have hmod : x % b = y % b := (List.cons.inj hlast).1
    rw [← Nat.div_add_mod x b, ← Nat.div_add_mod y b, hdiv, hmod]

theorem take_digits (hk : k ≤ n) : (digits b n x).take k = digits b k (x / b ^ (n - k)) := by
  unfold digits
  rw [← List.map_take, List.take_range, min_eq_left hk]
  refine List.map_congr_left fun i hi => ?_
  have hi : i < k := List.mem_range.mp hi
  have he : n - 1 - i = n - k + (k - 1 - i) := by omega
  rw [he, pow_add, Nat.div_div_eq_div_mul]

/-- **Numbers begin with the same digits if they have the same quotient.** -/
theorem take_digits_eq_iff (hx : x < b ^ n) (hy : y < b ^ n) (hk : k ≤ n) :
    (digits b n x).take k = (digits b n y).take k ↔ x / b ^ (n - k) = y / b ^ (n - k) := by
  have hlt : ∀ {z}, z < b ^ n → z / b ^ (n - k) < b ^ k := fun {z} hz =>
    Nat.div_lt_of_lt_mul (by rwa [← pow_add, Nat.sub_add_cancel hk])
  rw [take_digits hk, take_digits hk]
  exact ⟨fun h => digits_inj (hlt hx) (hlt hy) h, fun h => by rw [h]⟩

/-- Horner's rule gives the number back. -/
theorem foldl_digits (hx : x < b ^ n) : (digits b n x).foldl (fun acc d => b * acc + d) 0 = x := by
  induction n generalizing x with
  | zero =>
    rw [pow_zero] at hx
    have hzero : x = 0 := by omega
    rw [hzero]
    rfl
  | succ n ih =>
    have hdiv : x / b < b ^ n := Nat.div_lt_of_lt_mul (by rwa [← pow_succ'])
    rw [digits_succ, List.foldl_append, ih hdiv]
    exact Nat.div_add_mod x b

/-- The digits of two numbers side by side. -/
theorem digits_append (hb : 0 < b) {m : ℕ} (hy : y < b ^ m) :
    digits b (n + m) (x * b ^ m + y) = digits b n x ++ digits b m y := by
  induction m generalizing y with
  | zero =>
    rw [pow_zero] at hy
    have hzero : y = 0 := by omega
    rw [hzero, pow_zero, mul_one, add_zero, add_zero]
    exact (List.append_nil _).symm
  | succ m ih =>
    have hdiv : y / b < b ^ m := Nat.div_lt_of_lt_mul (by rwa [← pow_succ'])
    have hshift : x * b ^ (m + 1) + y = b * (x * b ^ m) + y := by rw [pow_succ]; ring
    rw [← add_assoc, digits_succ, digits_succ, hshift, Nat.mul_add_div hb, Nat.mul_add_mod_self_left, ih hdiv,
      List.append_assoc]

/-- Writing the digits with distinct signs loses nothing. -/
theorem map_digits_inj {α : Type*} {f : ℕ → α} (hf : ∀ d < b, ∀ e < b, f d = f e → d = e) {l l' : List ℕ}
    (hl : ∀ d ∈ l, d < b) (hl' : ∀ d ∈ l', d < b) (h : l.map f = l'.map f) : l = l' := by
  induction l generalizing l' with
  | nil => exact (List.map_eq_nil_iff.mp h.symm).symm
  | cons d l ih =>
    rcases l' with _ | ⟨e, l'⟩
    · simp at h
    · obtain ⟨hhead, htail⟩ := List.cons.inj h
      have hde : d = e := hf d (hl d (by simp)) e (hl' e (by simp)) hhead
      rw [hde, ih (fun x hx => hl x (by simp [hx])) (fun x hx => hl' x (by simp [hx])) htail]

/-- A number whose last `m` bits are zero has a number beside it with the same bits above these and
other ones above the last `j`. -/
theorem exists_same_quotient {w m j a : ℕ} (ha : a < 2 ^ w) (hm : m ≤ w) (hj : j < m)
    (hzero : a % 2 ^ m = 0) :
    ∃ b < 2 ^ w, a / 2 ^ m = b / 2 ^ m ∧ a / 2 ^ j ≠ b / 2 ^ j := by
  obtain ⟨c, rfl⟩ := Nat.dvd_of_mod_eq_zero hzero
  have hpos : 0 < 2 ^ m := Nat.two_pow_pos m
  have hlt : 2 ^ j < 2 ^ m := Nat.pow_lt_pow_right (by decide) hj
  have hw : 2 ^ w = 2 ^ m * 2 ^ (w - m) := by rw [← pow_add, Nat.add_sub_cancel' hm]
  have hc : c + 1 ≤ 2 ^ (w - m) := Nat.lt_of_mul_lt_mul_left (hw ▸ ha)
  refine ⟨2 ^ m * c + 2 ^ j, ?_, ?_, ?_⟩
  · calc 2 ^ m * c + 2 ^ j < 2 ^ m * (c + 1) := by rw [Nat.mul_add_one]; omega
      _ ≤ 2 ^ w := hw ▸ Nat.mul_le_mul_left _ hc
  · rw [Nat.mul_add_div hpos, Nat.div_eq_of_lt hlt, Nat.mul_div_cancel_left _ hpos, add_zero]
  · rw [Nat.add_div_right _ (Nat.two_pow_pos j)]
    exact (Nat.succ_ne_self _).symm

/-- Every number has one beside it with the same bits above the last `m` and other ones above the last
`j`. -/
theorem exists_other_quotient {w m j a : ℕ} (ha : a < 2 ^ w) (hm : m ≤ w) (hj : j < m) :
    ∃ b < 2 ^ w, a / 2 ^ m = b / 2 ^ m ∧ a / 2 ^ j ≠ b / 2 ^ j := by
  have hpos : 0 < 2 ^ m := Nat.two_pow_pos m
  have hdiv : a / 2 ^ m = 2 ^ m * (a / 2 ^ m) / 2 ^ m := (Nat.mul_div_cancel_left _ hpos).symm
  have hlt : 2 ^ m * (a / 2 ^ m) < 2 ^ w := (Nat.mul_div_le a (2 ^ m)).trans_lt ha
  obtain ⟨b, hb, hsame, hother⟩ := exists_same_quotient hlt hm hj (Nat.mul_mod_right _ _)
  by_cases heq : a / 2 ^ j = 2 ^ m * (a / 2 ^ m) / 2 ^ j
  · exact ⟨b, hb, hdiv.trans hsame, fun h => hother (heq.symm.trans h)⟩
  · exact ⟨2 ^ m * (a / 2 ^ m), hlt, hdiv, heq⟩

end HexDns.Lib.Digits
