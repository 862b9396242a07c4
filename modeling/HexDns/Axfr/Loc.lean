import HexDns.Axfr.KeyData
import HexDns.Lib.Rounding

/-! # Locations in a zone file

`parse_loc` of `axfr/src/parser.rs`. The floats of the code are rationals here: the words for infinities
and for what is no number, which no record is printed with, are left out. -/

namespace HexDns.Axfr.Loc

open HexDns.Lib.Texts HexDns.Lib.Rounding HexDns.Base.Codecs HexDns.Axfr.KeyData

/-! ### Numbers -/

/-- The exponent of a float, from the `e` on. -/
def parseExponent : Text → Option ℤ
  | [] => some 0
  | _ :: '-' :: t => if t ≠ [] ∧ t.all Char.isDigit then some (-(Nat.ofDigitChars 10 t 0 : ℤ)) else none
  | _ :: '+' :: t => if t ≠ [] ∧ t.all Char.isDigit then some (Nat.ofDigitChars 10 t 0) else none
  | _ :: t => if t ≠ [] ∧ t.all Char.isDigit then some (Nat.ofDigitChars 10 t 0) else none

/-- `str::parse::<f64>` without a sign -/
def parseUnsigned (t : Text) : Option ℚ :=
  let number := t.takeWhile fun c => c ≠ 'e' && c ≠ 'E'
  let exponent := t.dropWhile fun c => c ≠ 'e' && c ≠ 'E'
  let whole := number.takeWhile (· ≠ '.')
  let fraction := (number.dropWhile (· ≠ '.')).drop 1
  if whole ++ fraction ≠ [] ∧ (whole ++ fraction).all Char.isDigit then
    (parseExponent exponent).map fun e =>
      (Nat.ofDigitChars 10 (whole ++ fraction) 0 : ℚ) / 10 ^ fraction.length * 10 ^ e
  else none

/-- `str::parse::<f64>` -/
def parseF64 : Text → Option ℚ
  | '-' :: t => (parseUnsigned t).map (- ·)
  | '+' :: t => parseUnsigned t
  | t => parseUnsigned t

/-- `x as u8` or `x as u32` of a float -/
def castUint (bits : ℕ) (x : ℚ) : ℕ := min ⌊x⌋.toNat (2 ^ bits - 1)

/-- `enc_size`: `size_man as u8 << 4` and `size_exp as u8` are cut to four bits each. -/
def encSize (size : ℚ) : ℕ :=
  let sizeExp : ℤ := if size ≠ 0 then Int.log 10 size else 0
  let sizeMan := size / (10 : ℚ) ^ sizeExp
  castUint 8 sizeMan % 16 * 16 + castUint 8 sizeExp % 16

/-! ### The parser -/

/-- Degrees, minutes, seconds, and the sign. -/
structure Angle where
  d : ℕ
  m : ℕ
  s : ℚ
  mul : ℚ
  deriving DecidableEq

/-- The tokens of a latitude or a longitude, where `plus` and `minus` are the words for its sides. -/
def parseAngle (plus minus : Text) : List Text → Option (Angle × List Text)
  | d :: n :: tokens => do
    let d ← parseUint 32 d
    if n = plus then some (⟨d, 0, 0, 1⟩, tokens)
    else if n = minus then some (⟨d, 0, 0, -1⟩, tokens)
    else do
      let m ← parseUint 32 n
      match tokens with
      | n :: tokens =>
        if n = plus then some (⟨d, m, 0, 1⟩, tokens)
        else if n = minus then some (⟨d, m, 0, -1⟩, tokens)
        else do
          let s ← parseF64 n
          match tokens with
          | n :: tokens =>
            if n = plus then some (⟨d, m, s, 1⟩, tokens)
            else if n = minus then some (⟨d, m, s, -1⟩, tokens)
            else none
          | [] => none
      | [] => none
  | _ => none

/-- A length in metres, with or without the unit. -/
def parseMetres (t : Text) : Option ℚ := parseF64 (t.rdropWhile (· = 'm'))

/-- The next length, if there is one. -/
def nextMetres (default : ℚ) : List Text → Option (ℚ × List Text)
  | [] => some (default, [])
  | t :: tokens => (parseMetres t).map fun q => (q, tokens)

/-- The fields of the rdata. -/
structure LocData where
  size : ℕ
  hp : ℕ
  vp : ℕ
  lat : ℕ
  long : ℕ
  alt : ℕ
  deriving DecidableEq, Repr

/-- The checks of an angle, whose degrees go up to `max`. -/
def Angle.valid (max : ℕ) (a : Angle) : Bool := a.d ≤ max ∧ a.m ≤ 59 ∧ ¬ (a.s < 0 ∨ 60 ≤ a.s)

/-- An angle in thousandths of a second, from the middle. -/
def Angle.encode (a : Angle) : ℕ :=
  castUint 32 ((a.d * 60 * 60 + a.m * 60 + a.s) * 1000 * a.mul + 2 ^ 31)

/-- `parse_loc` up to the bytes -/
def parseFields (tokens : List Text) : Option LocData := do
  let (lat, tokens) ← parseAngle ['N'] ['S'] tokens
  let (long, tokens) ← parseAngle ['E'] ['W'] tokens
  match tokens with
  | [] => none
  | t :: tokens =>
    let alt ← parseMetres t
    let (size, tokens) ← nextMetres 1 tokens
    let (hp, tokens) ← nextMetres 10000 tokens
    let (vp, _) ← nextMetres 10 tokens
    if lat.valid 90 ∧ long.valid 180 ∧ ¬ (alt < -100000 ∨ 42849672.95 < alt) ∧
        ∀ q ∈ [size, hp, vp], ¬ (q < 0 ∨ 90000000 < q) then
      some ⟨encSize (size * 100), encSize (hp * 100), encSize (vp * 100), lat.encode, long.encode,
        castUint 32 ((alt + 100000) * 100)⟩
    else none

/-- `parse_loc` -/
def parseLoc (tokens : List Text) : Option Bytes :=
  (parseFields tokens).map fun loc =>
    [0, UInt8.ofNat loc.size, UInt8.ofNat loc.hp, UInt8.ofNat loc.vp] ++ packUint 4 loc.lat ++
      packUint 4 loc.long ++ packUint 4 loc.alt

example : parseF64 "-1.5e-05".toList = some (-15 / 1000000) := by decide +kernel
example : parseFields (["52", "N", "4", "30", "E", "-2m"].map String.toList) =
    some ⟨0x12, 0x16, 0x13, 2334683648, 2163683648, 9999800⟩ := by decide +kernel

end HexDns.Axfr.Loc
