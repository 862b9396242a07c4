import HexDns.Base.Py

/-! # The codecs of the Python library that the models use

`bytes.fromhex` and `hexlify`, `base64.b64decode` in its lenient default mode and `b64encode`,
`struct.pack`, the `replace` mode of the UTF-8 decoder, and `repr` of a byte string. -/

namespace HexDns.Base.Codecs

open HexDns.Lib.Texts HexDns.Base.Py

/-! ### Hexadecimal -/

/-- The value of a hexadecimal digit in either case. -/
def hexValue (c : Char) : Option ℕ :=
  if 48 ≤ c.toNat ∧ c.toNat ≤ 57 then some (c.toNat - 48)
  else if 97 ≤ c.toNat ∧ c.toNat ≤ 102 then some (c.toNat - 87)
  else if 65 ≤ c.toNat ∧ c.toNat ≤ 70 then some (c.toNat - 55)
  else none

/-- `Py_ISSPACE` -/
def isAsciiSpace (c : Char) : Bool := (9 ≤ c.toNat && c.toNat ≤ 13) || c.toNat = 32

/-- `bytes.fromhex`: pairs of digits, with blanks between the pairs. -/
def fromHex : Text → Except PyErr Bytes
  | [] => .ok []
  | [c] => if isAsciiSpace c then .ok [] else .error .valueError
  | c :: d :: t =>
    if isAsciiSpace c then fromHex (d :: t)
    else
      match hexValue c, hexValue d with
      | some x, some y => (fromHex t).map (UInt8.ofNat (16 * x + y) :: ·)
      | _, _ => .error .valueError

/-- `binascii.hexlify(b).decode()` -/
def hexlify (b : Bytes) : Text :=
  b.flatMap fun x => [Nat.digitChar (x.toNat / 16), Nat.digitChar (x.toNat % 16)]

/-! ### Base64 -/

/-- The value of a character of the Base64 alphabet. -/
def base64Value (c : Char) : Option ℕ :=
  if 65 ≤ c.toNat ∧ c.toNat ≤ 90 then some (c.toNat - 65)
  else if 97 ≤ c.toNat ∧ c.toNat ≤ 122 then some (c.toNat - 71)
  else if 48 ≤ c.toNat ∧ c.toNat ≤ 57 then some (c.toNat + 4)
  else if c = '+' then some 62
  else if c = '/' then some 63
  else none

/-- The loop of `binascii.a2b_base64`: `quad` characters of the current group have been read, `left`
are the bits left over from them, and `pads` signs `=` have followed. Other characters are skipped,
and what follows a complete padding is not looked at. -/
def a2bBase64 (quad left pads : ℕ) : Text → Except PyErr Bytes
  | [] => if quad = 0 then .ok [] else .error .valueError
  | c :: t =>
    if c = '=' then
      if 2 ≤ quad then
        if 4 ≤ quad + (pads + 1) then .ok [] else a2bBase64 quad left (pads + 1) t
      else a2bBase64 quad left pads t
    else
      match base64Value c with
      | none => a2bBase64 quad left pads t
      | some v =>
        match quad with
        | 0 => a2bBase64 1 v 0 t
        | 1 => (a2bBase64 2 (v % 16) 0 t).map (UInt8.ofNat (4 * left + v / 16) :: ·)
        | 2 => (a2bBase64 3 (v % 4) 0 t).map (UInt8.ofNat (16 * left + v / 4) :: ·)
        | _ => (a2bBase64 0 0 0 t).map (UInt8.ofNat (64 * left + v) :: ·)

/-- `base64.b64decode(t)`; a text that is not ASCII is a `ValueError` too, but not a
`binascii.Error`. -/
def b64decode (t : Text) : Except PyErr Bytes :=
  if IsAscii t then a2bBase64 0 0 0 t else .error .unicodeError

/-- The character of the Base64 alphabet with a value. -/
def base64Char (n : ℕ) : Char :=
  if n < 26 then Char.ofNat (n + 65)
  else if n < 52 then Char.ofNat (n + 71)
  else if n < 62 then Char.ofNat (n - 4)
  else if n = 62 then '+' else '/'

/-- `base64.b64encode(b).decode()` -/
def b64encode : Bytes → Text
  | [] => []
  | [a] => [base64Char (a.toNat / 4), base64Char (a.toNat % 4 * 16), '=', '=']
  | [a, b] =>
    [base64Char (a.toNat / 4), base64Char (a.toNat % 4 * 16 + b.toNat / 16),
      base64Char (b.toNat % 16 * 4), '=']
  | a :: b :: c :: t =>
    base64Char (a.toNat / 4) :: base64Char (a.toNat % 4 * 16 + b.toNat / 16) ::
      base64Char (b.toNat % 16 * 4 + c.toNat / 64) :: base64Char (c.toNat % 64) :: b64encode t

/-! ### Integers -/

/-- `struct.pack("!…", n)` for an integer of so many bytes -/
def packUint (bytes n : ℕ) : Bytes :=
  (List.range bytes).map fun i => UInt8.ofNat (n / 256 ^ (bytes - 1 - i))

/-! ### UTF-8 with replacement -/

/-- The character that a byte string starts with, and the number of its bytes. -/
def firstChar (b : Bytes) : Option (Char × ℕ) :=
  [1, 2, 3, 4].findSome? fun k =>
    match decode (b.take k) with
    | some [c] => some (c, k)
    | _ => none

/-- `b` may follow the first byte `a` of a character. -/
def secondOk (a b : ℕ) : Bool :=
  if a = 0xe0 then 0xa0 ≤ b && b ≤ 0xbf
  else if a = 0xed then 0x80 ≤ b && b ≤ 0x9f
  else if a = 0xf0 then 0x90 ≤ b && b ≤ 0xbf
  else if a = 0xf4 then 0x80 ≤ b && b ≤ 0x8f
  else 0x80 ≤ b && b ≤ 0xbf

/-- The number of bytes that are replaced together where no character starts: the longest start of a
character there, at least one byte. -/
def subpart : Bytes → ℕ
  | a :: b :: rest =>
    if 0xe0 ≤ a.toNat ∧ a.toNat ≤ 0xf4 ∧ secondOk a.toNat b.toNat then
      match rest with
      | c :: _ => if 0xf0 ≤ a.toNat ∧ 0x80 ≤ c.toNat ∧ c.toNat ≤ 0xbf then 3 else 2
      | [] => 2
    else 1
  | _ => 1

/-- The loop of `decodeReplace`, with the length as fuel. -/
def decodeReplaceFrom : ℕ → Bytes → Text
  | 0, _ => []
  | _ + 1, [] => []
  | n + 1, b =>
    match firstChar b with
    | some (c, k) => c :: decodeReplaceFrom n (b.drop k)
    | none => Char.ofNat 0xfffd :: decodeReplaceFrom n (b.drop (subpart b))

/-- `b.decode(errors='replace')` -/
def decodeReplace (b : Bytes) : Text := decodeReplaceFrom b.length b

/-! ### `repr` -/

/-- A byte in the `repr` of a byte string between the quotes `q`. -/
def reprByte (q : Char) (b : UInt8) : Text :=
  if b = 92 then ['\\', '\\']
  else if b.toNat = q.toNat then ['\\', q]
  else if b = 9 then ['\\', 't']
  else if b = 10 then ['\\', 'n']
  else if b = 13 then ['\\', 'r']
  else if 32 ≤ b.toNat ∧ b.toNat < 127 then [Char.ofNat b.toNat]
  else ['\\', 'x', Nat.digitChar (b.toNat / 16), Nat.digitChar (b.toNat % 16)]

/-- `str(b)` of a byte string, which is its `repr` -/
def reprBytes (b : Bytes) : Text :=
  let q := if 39 ∈ b ∧ 34 ∉ b then '"' else '\''
  ['b', q] ++ b.flatMap (reprByte q) ++ [q]

end HexDns.Base.Codecs
