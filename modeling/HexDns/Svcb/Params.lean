import HexDns.Svcb.Addresses
import HexDns.Svcb.Escaping

/-! # SVCB parameters

The classes of `svcb.py` for one parameter and for a list of them: the constructors from texts, `pack` for
the wire, and `repr`. A parameter whose key is a text is made with the number of the key; the keys that
have no name are written `key` and a number. -/

namespace HexDns.Svcb.Params

open HexDns.Lib.Texts HexDns.Lib.Programs HexDns.Lib.Scanners HexDns.Base.Py HexDns.Base.Codecs
  HexDns.Models.Names HexDns.Svcb.Decode HexDns.Svcb.Escaping HexDns.Svcb.Addresses

/-! ### Data -/

/-- The data of a parameter, with one constructor for each class. -/
inductive ParamData
  /-- `NullParamData` -/
  | null
  /-- `OctetParamData` -/
  | octet (data : Bytes)
  /-- `IntegerParamData` -/
  | integer (data : ℕ)
  /-- `MandatoryData` -/
  | mandatory (params : List ℤ)
  /-- `ALPNData` -/
  | alpn (alpns : List Bytes)
  /-- `IPv4Data` -/
  | ipv4 (addrs : List (BitVec 32))
  /-- `IPv6Data` -/
  | ipv6 (addrs : List (BitVec 128))
  deriving DecidableEq, Repr

/-- `struct.pack("!H", n)` -/
def packShort (n : ℤ) : Except PyErr Bytes :=
  if 0 ≤ n ∧ n ≤ 65535 then .ok (packUint 2 n.toNat) else .error .structError

/-- `struct.pack("!B", len(p))` and `p` -/
def packCounted (p : Bytes) : Except PyErr Bytes :=
  if p.length ≤ 255 then .ok (UInt8.ofNat p.length :: p) else .error .structError

/-- `pack` of the data -/
def ParamData.pack : ParamData → Except PyErr Bytes
  | .null => .ok []
  | .octet data => .ok data
  | .integer data => packShort data
  | .mandatory params => (params.mapM packShort).map List.flatten
  | .alpn alpns => (alpns.mapM packCounted).map List.flatten
  | .ipv4 addrs => .ok (addrs.flatMap fun a => packUint 4 a.toNat)
  | .ipv6 addrs => .ok (addrs.flatMap fun a => packUint 16 a.toNat)

/-! ### Keys -/

/-- `PARAM_MAPPING` -/
def paramMapping : List (Text × ℕ) :=
  [("mandatory".toList, 0), ("alpn".toList, 1), ("no-default-alpn".toList, 2), ("port".toList, 3),
    ("ipv4hint".toList, 4), ("ech".toList, 5), ("ipv6hint".toList, 6)]

/-- `param_id_to_name` -/
def paramIdToName (param : ℤ) : Text :=
  match paramMapping.find? fun kv => (kv.2 : ℤ) = param with
  | some (k, _) => k
  | none => "key".toList ++ showInt param

/-- The number with these digits. -/
def natOfKey (t : Text) : Option ℕ :=
  if t ≠ [] ∧ ∀ c ∈ t, c.isDigit then some (Nat.ofDigitChars 10 t 0) else none

/-- `int(t)` of a text of small letters, digits and `-`: digits, maybe after a minus sign -/
def intOfKey (t : Text) : Option ℤ :=
  if t.head? = some '-' then (natOfKey t.tail).map fun n : ℕ => -(n : ℤ)
  else (natOfKey t).map fun n : ℕ => (n : ℤ)

/-- The number of a key, as `SVCBParam.__init__` finds it. -/
def keyId (key : Text) : Except PyErr ℤ :=
  match paramMapping.lookup key with
  | some id => .ok id
  | none =>
    if "key".toList.isPrefixOf key then
      match intOfKey (key.drop 3) with
      | some id => .ok id
      | none => .error .valueError
    else .error .valueError

/-! ### Parameters -/

/-- `SVCBParam` -/
structure SvcbParam where
  key : ℤ
  data : ParamData
  deriving DecidableEq, Repr

/-- `SVCBParam(key, data)` of a key that is a text -/
def svcbParam (key : Text) (data : ParamData) : Except PyErr SvcbParam :=
  (keyId key).map fun id => ⟨id, data⟩

/-- `SVCBParam.pack` -/
def SvcbParam.pack (p : SvcbParam) : Except PyErr Bytes := do
  let data ← p.data.pack
  if 65535 < data.length then throw .valueError
  else
    let key ← packShort p.key
    let length ← packShort data.length
    return key ++ length ++ data

/-- `SVCBParamList.pack`; `sorted` is stable. -/
def packParams (params : List SvcbParam) : Except PyErr Bytes :=
  ((params.insertionSort fun p q => p.key ≤ q.key).mapM SvcbParam.pack).map List.flatten

/-- `params[key]` of a list, with the number of the key: the first one with the key -/
def getParam (params : List SvcbParam) (key : ℤ) : Option SvcbParam := params.find? fun p => p.key = key

/-! ### From texts -/

/-- A byte string of ASCII characters as a text. -/
def asciiText (b : Bytes) : Text := b.map fun x => Char.ofNat x.toNat

/-- `params[key] = value` of a dictionary in the order of its first insertions -/
def dictSet {κ β : Type} [DecidableEq κ] (params : List (κ × β)) (item : κ × β) : List (κ × β) :=
  if item.1 ∈ params.map Prod.fst then params.map fun p => if p.1 = item.1 then item else p
  else params ++ [item]

/-- The parameter of an item of `params`; a `ValueError` becomes a `ValidationError`. -/
def octetParam (item : Bytes × Bytes) : Except PyErr SvcbParam :=
  match svcbParam (asciiText item.1) (.octet item.2) with
  | .error .valueError => .error .validationError
  | r => r

/-- `decode_svcb_param_list` -/
def decodeSvcbParamList (value : Text) : Except PyErr (List SvcbParam) := do
  let params ← decodeParams (encode value)
  (params.foldl dictSet []).mapM octetParam

/-- The value of a text that is one character string, with nothing left over. -/
def decodeValue (data : Text) : Except PyErr Bytes := do
  let (value, data) ← decodeCharStr (encode data)
  if data ≠ [] then throw .validationError else return value

/-- `ALPNData(alpns)` -/
def alpnData (alpns : List Bytes) : Except PyErr (List Bytes) :=
  if ∀ v ∈ alpns, v.length ≤ 255 then .ok alpns else .error .validationError

/-- `ALPNData.from_str` -/
def alpnFromStr (data : Text) : Except PyErr (List Bytes) := do
  let value ← decodeValue data
  let elms ← decodeSvcbCommaList value
  alpnData elms

/-- An address of a list, by one of the two constructors of addresses. -/
def addressOf {α : Type} (parse : Text → Option α) (v : Bytes) : Except PyErr α :=
  match decode v with
  | none => .error .validationError
  | some t =>
    match parse t with
    | none => .error .validationError
    | some a => .ok a

/-- `from_str` of the two classes of address hints -/
def hintsFromStr {α : Type} (parse : Text → Option α) (data : Text) : Except PyErr (List α) := do
  let value ← decodeValue data
  let elms ← decodeSvcbCommaList value
  elms.mapM (addressOf parse)

/-- `IPv4Data.from_str` -/
def ipv4FromStr (data : Text) : Except PyErr (List (BitVec 32)) := hintsFromStr ipv4Address data

/-- `IPv6Data.from_str` -/
def ipv6FromStr (data : Text) : Except PyErr (List (BitVec 128)) := hintsFromStr ipv6Address data

/-! ### `repr` -/

/-- `v.decode()` -/
def decodeUtf8 (v : Bytes) : Except PyErr Text :=
  match decode v with
  | some t => .ok t
  | none => .error .unicodeError

/-- A byte in `OctetParamData.__repr__`. -/
def reprOctet (b : UInt8) : Text :=
  if 32 ≤ b.toNat ∧ b.toNat ≤ 126 then [Char.ofNat b.toNat] else '\\' :: showNat b.toNat

/-- `repr(data)` -/
def ParamData.repr : ParamData → Except PyErr Text
  | .null => .ok "null".toList
  | .octet data => .ok (data.flatMap reprOctet)
  | .integer data => .ok (showNat data)
  | .mandatory params => .ok ([','].intercalate (params.map paramIdToName))
  | .alpn alpns => (alpns.mapM decodeUtf8).map fun ts => [','].intercalate ts
  | .ipv4 addrs => .ok ([','].intercalate (addrs.map ipv4Text))
  | .ipv6 addrs => .ok ([','].intercalate (addrs.map ipv6Text))

/-- `SVCBParam.__repr__` -/
def SvcbParam.repr (p : SvcbParam) : Except PyErr Text :=
  match p.data with
  | .null => .ok (paramIdToName p.key)
  | data => data.repr.map fun t => paramIdToName p.key ++ '=' :: t

/-- `SVCBParamList.__repr__` -/
def reprParams (params : List SvcbParam) : Except PyErr Text :=
  (params.mapM SvcbParam.repr).map fun ts => [' '].intercalate ts

end HexDns.Svcb.Params
