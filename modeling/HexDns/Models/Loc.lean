import HexDns.Lib.Rounding
import HexDns.Models.Names
import HexDns.Models.Wire

/-! # Locations

`LOC.pack` and the decoder of `LOCRecord` in `models.py`, and `dd_to_dms` of `tasks.py` with the texts of
its results. The floats of the code are rationals here, and the floor of a logarithm is the true one. -/

namespace HexDns.Models.Loc

open HexDns.Lib.Texts HexDns.Lib.Rounding HexDns.Base.Py HexDns.Base.Codecs HexDns.Models.Names
  HexDns.Models.Wire

/-! ### Sizes -/

/-- `enc_size` of `LOC.pack`, of a size in centimetres: `size_man << 4` and `size_exp` are cut to four
bits each. -/
def encSize (value : ℚ) : ℕ :=
  let sizeExp : ℤ := if value ≠ 0 then Int.log 10 value else 0
  let sizeMan : ℤ := truncate (value / (10 : ℚ) ^ sizeExp)
  (sizeMan % 16 * 16 + sizeExp % 16).toNat

/-- `LOCRecord._dec_size` -/
def decSize (value : ℕ) : ℕ :=
  let sizeExp := value % 16
  let sizeMan := value % 256 / 16
  sizeMan * 10 ^ sizeExp

/-- `LOC.pack` -/
def pack (lat long altitude size hp vp : ℚ) : Except PyErr Bytes :=
  let fields : List ℤ := [truncate (lat * 3600 * 1000) + 2 ^ 31, truncate (long * 3600 * 1000) + 2 ^ 31,
    truncate ((altitude + 100000) * 100)]
  if ∀ n ∈ fields, 0 ≤ n ∧ n < 2 ^ 32 then
    .ok (0 :: [size, hp, vp].map (fun q => UInt8.ofNat (encSize (q * 100))) ++
      fields.flatMap fun n => packUint 4 n.toNat)
  else .error .structError

example : encSize 9000000000 = 0x99 := by decide +kernel
example : decSize 0x99 = 9000000000 := by decide

/-! ### Coordinates -/

/-- `dd_to_dms` -/
def ddToDms (dd : ℚ) : ℤ × ℤ × ℚ :=
  let d1 : ℤ := truncate dd
  let m1 : ℤ := truncate ((dd - d1) * 60)
  let s1 : ℚ := roundEven (|(dd - d1 - m1 / 60) * 3600| * 1000) / 1000
  (|d1|, |m1|, s1)

/-- The digits after the point, of a number of thousandths. -/
def fractionText (n : ℕ) : Text :=
  if n % 10 ≠ 0 then [n / 100 % 10, n / 10 % 10, n % 10].map Nat.digitChar
  else if n / 10 % 10 ≠ 0 then [n / 100 % 10, n / 10 % 10].map Nat.digitChar
  else [Nat.digitChar (n / 100 % 10)]

/-- `str` of a float, of a number of thousandths -/
def thousandthsText (n : ℕ) : Text := showNat (n / 1000) ++ '.' :: fractionText n

/-- The texts of degrees, minutes and seconds. -/
def dmsTexts (dd : ℚ) : Text × Text × Text :=
  let (d1, m1, s1) := ddToDms dd
  (showInt d1, showInt m1, thousandthsText ⌊s1 * 1000⌋.toNat)

example : dmsTexts (-(1 / 8 + 1 / 7200000)) = (['0'], ['7'], "30.0".toList) := by decide +kernel
example : thousandthsText 59050 = "59.05".toList := by decide

end HexDns.Models.Loc
