import HexDns.Axfr.Loc
import HexDns.Models.Loc

/-! # Sizes in locations

Both codes write a size as its leading digit and the power of ten, in four bits each. Below one
centimetre the power is negative: the digit is written all the same, and the power comes out as 0 in the
one and modulo 16 in the other. `sizeKept_iff` says that both are right from one centimetre on. -/

namespace HexDns.Axfr.LocSizes

open HexDns.Lib.Rounding HexDns.Models.Loc

/-- Both codes write the same byte of two digits, and it stands for the size in centimetres, up to one
unit of its leading digit. -/
structure SizeKept (size : ℚ) : Prop where
  same : Models.Loc.encSize (size * 100) = Axfr.Loc.encSize (size * 100)
  mantissa : Models.Loc.encSize (size * 100) / 16 ≤ 9
  exponent : Models.Loc.encSize (size * 100) % 16 ≤ 9
  decoded : if size * 100 < 1 then decSize (Models.Loc.encSize (size * 100)) = 0
    else (decSize (Models.Loc.encSize (size * 100)) : ℚ) ≤ size * 100 ∧
      size * 100 - 10 ^ Int.log 10 (size * 100) < decSize (Models.Loc.encSize (size * 100))

variable {x : ℚ}

/-- The byte of a positive size: the leading digit and the power, modulo 16. -/
theorem encSize_of_pos (hx : 0 < x) : ∃ digit : ℕ, leadingDigit 10 x = digit ∧ 1 ≤ digit ∧ digit ≤ 9 ∧
    Models.Loc.encSize x = digit * 16 + (Int.log 10 x % 16).toNat := by
  have hlo : 1 ≤ leadingDigit 10 x := one_le_leadingDigit (by decide) hx
  have hhi : leadingDigit 10 x < 10 := leadingDigit_lt (by decide) x
  obtain ⟨digit, hdigit⟩ := Int.eq_ofNat_of_zero_le (by omega : 0 ≤ leadingDigit 10 x)
  have hquot : 0 ≤ x / (10 : ℚ) ^ Int.log 10 x := div_nonneg hx.le (zpow_nonneg (by norm_num) _)
  have hman : truncate (x / (10 : ℚ) ^ Int.log 10 x) = digit := by
    rw [truncate_of_nonneg hquot, ← hdigit]
    unfold leadingDigit
    push_cast
    rfl
  refine ⟨digit, hdigit, by omega, by omega, ?_⟩
  unfold Models.Loc.encSize
  rw [if_pos hx.ne']
  dsimp only
  rw [hman]
  omega

/-- The byte of the server, where the power is not negative. -/
theorem encSize_axfr (hx : 1 ≤ x) {digit : ℕ} (hdigit : leadingDigit 10 x = digit) (hdigit9 : digit ≤ 9)
    {e : ℕ} (he : Int.log 10 x = e) (he9 : e ≤ 9) : Axfr.Loc.encSize x = digit * 16 + e := by
  have hman : Axfr.Loc.castUint 8 (x / (10 : ℚ) ^ Int.log 10 x) = digit := by
    have hfloor : ⌊x / (10 : ℚ) ^ Int.log 10 x⌋ = digit := by
      rw [← hdigit]
      unfold leadingDigit
      push_cast
      rfl
    unfold Axfr.Loc.castUint
    rw [hfloor]
    omega
  have hexp : Axfr.Loc.castUint 8 (Int.log 10 x) = e := by
    unfold Axfr.Loc.castUint
    rw [Int.floor_intCast, he]
    omega
  unfold Axfr.Loc.encSize
  rw [if_pos (by linarith : x ≠ 0)]
  dsimp only
  rw [hman, hexp]
  omega

theorem decSize_digits {digit e : ℕ} (hdigit : digit ≤ 9) (he : e < 16) :
    decSize (digit * 16 + e) = digit * 10 ^ e := by
  unfold decSize
  rw [show (digit * 16 + e) % 16 = e by omega, show (digit * 16 + e) % 256 / 16 = digit by omega]

/-- **A size is written alike and read back if and only if** it is nothing or at least one centimetre. -/
theorem sizeKept_iff {size : ℚ} (hlo : 0 ≤ size) (hhi : size ≤ 90000000) :
    SizeKept size ↔ size = 0 ∨ 1 / 100 ≤ size := by
  obtain ⟨x, hx⟩ : ∃ x, x = size * 100 := ⟨_, rfl⟩
  constructor
  · intro hkept
    by_contra hsmall
    push Not at hsmall
    obtain ⟨hne, hlt⟩ := hsmall
    have hpos : 0 < size * 100 := by positivity
    obtain ⟨digit, -, hdigit1, hdigit9, henc⟩ := encSize_of_pos hpos
    have hdec := hkept.decoded
    rw [if_pos (by linarith), henc, decSize_digits hdigit9 (by omega)] at hdec
    have hpow : 0 < 10 ^ (Int.log 10 (size * 100) % 16).toNat := by positivity
    have hprod := Nat.mul_pos hdigit1 hpow
    omega
  · rintro (rfl | hcm)
    · -- nothing
      refine ⟨?_, ?_, ?_, ?_⟩ <;> rw [zero_mul] <;> decide +kernel
    · -- the leading digit and its power
      have hone : 1 ≤ size * 100 := by linarith
      obtain ⟨digit, hlead, hdigit1, hdigit9, henc⟩ := encSize_of_pos (by linarith : 0 < size * 100)
      have hlog0 : 0 ≤ Int.log 10 (size * 100) :=
        (Int.zpow_le_iff_le_log (by decide) (by linarith)).mp (by simpa using hone)
      have hlog9 : Int.log 10 (size * 100) < 10 := by
        refine (Int.lt_zpow_iff_log_lt (by decide) (by linarith)).mp ?_
        norm_num
        linarith
      obtain ⟨e, he⟩ := Int.eq_ofNat_of_zero_le hlog0
      have hbyte : Models.Loc.encSize (size * 100) = digit * 16 + e := by
        rw [henc, he]
        omega
      have hdec : (decSize (Models.Loc.encSize (size * 100)) : ℚ) =
          leadingDigit 10 (size * 100) * 10 ^ Int.log 10 (size * 100) := by
        rw [hbyte, decSize_digits hdigit9 (by omega), hlead, he]
        push_cast
        rw [zpow_natCast]
      refine ⟨?_, ?_, ?_, ?_⟩
      · rw [hbyte, encSize_axfr hone hlead hdigit9 he (by omega)]
      · omega
      · omega
      · rw [if_neg (by linarith), hdec]
        have hle := lead_le (b := 10) (by decide) (size * 100)
        have hlt := lt_lead (b := 10) (by decide) (size * 100)
        push_cast at hle hlt
        exact ⟨hle, by linarith⟩

theorem sizeKept_metre : SizeKept 1 := (sizeKept_iff (by norm_num) (by norm_num)).mpr (Or.inr (by norm_num))

/-- Half a centimetre is written as five centimetres by the server. -/
theorem not_sizeKept : ¬ ∀ size : ℚ, 0 ≤ size → size ≤ 90000000 → SizeKept size := by
  intro h
  have hkept := (h (1 / 200) (by norm_num) (by norm_num)).same
  exact absurd hkept (by decide +kernel)

end HexDns.Axfr.LocSizes
