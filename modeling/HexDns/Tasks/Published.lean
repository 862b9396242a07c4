import HexDns.Lib.MasterFile
import HexDns.Tasks.ZoneFile

/-! # What a zone file says

The records of a zone file, as a server reads them: the owner by the rules of master files
(`PublishedAt`), the rdata in its wire form with names in lower case (`readRdata`). The fields are
read one by one, each from the text that is written for it; a number or an address is what its text
says. `rdataWire` is the same of the rdata of a request. -/

namespace HexDns.Tasks.Published

open HexDns.Lib.Texts HexDns.Lib.MasterFile HexDns.Base.Py HexDns.Base.Codecs HexDns.Base.Label
  HexDns.Base.Message HexDns.Models.Db HexDns.Models.Env HexDns.Models.Convert HexDns.Models.Names
  HexDns.Tasks.ZoneFile

/-! ### Fields -/

/-- A name in wire form. -/
def nameWire (ls : List Bytes) : Bytes :=
  ls.flatMap (fun l => UInt8.ofNat l.length :: l.map lowerByte) ++ [0]

/-- A number as an unsigned integer of so many bytes. -/
def uint (bytes : ℕ) (n : ℤ) : Option Bytes :=
  if 0 ≤ n ∧ n < 256 ^ bytes then some (packUint bytes n.toNat) else none

/-- A text that is one token. -/
def oneToken (t : Text) : Option Token :=
  match tokens t with
  | some [token] => some token
  | _ => none

/-- A name as it is written. -/
def readLabel (origin : List Bytes) (l : DnsLabel) : Option Bytes :=
  ((oneToken l.toText).bind (readName origin)).map nameWire

/-- A string as it is written by `encode_str`. -/
def readStr (t : Text) : Option Bytes := (oneToken (quoted t)).map Token.bytes

/-- A string of at most 255 bytes, with its length. -/
def counted (b : Bytes) : Option Bytes :=
  if b.length < 256 then some (UInt8.ofNat b.length :: b) else none

/-- The characters of a text that may be several tokens. -/
def readWords (t : Text) : Option Text :=
  (tokens t).bind fun ts =>
    if ts ≠ [] ∧ ts.all (!·.quoted) then decode (ts.flatMap Token.bytes) else none

/-- Hexadecimal digits. -/
def readHex (t : Text) : Option Bytes := (readWords t).bind fun t => (fromHex t).toOption

/-- The Base64 alphabet with its padding. -/
def readBase64 (t : Text) : Option Bytes :=
  (readWords t).bind fun t =>
    let digits := t.takeWhile (· ≠ '=')
    let padding := t.dropWhile (· ≠ '=')
    if t.length % 4 = 0 ∧ digits.all (fun c => (base64Value c).isSome) ∧ padding.length ≤ 2 ∧
        padding.all (· = '=') then
      (b64decode t).toOption
    else none

/-- A decimal number. -/
def readDecimal (t : Text) : Option ℚ :=
  match t with
  | '-' :: t => (readDigits t).map (- ·)
  | t => readDigits t
where
  readDigits (t : Text) : Option ℚ :=
    let whole := t.takeWhile (· ≠ '.')
    let rest := (t.dropWhile (· ≠ '.')).drop 1
    if whole ≠ [] ∧ (whole ++ rest).all Char.isDigit then
      some (Nat.ofDigitChars 10 whole 0 + (Nat.ofDigitChars 10 rest 0 : ℚ) / 10 ^ rest.length)
    else none

/-- A length in metres, in centimetres. -/
def readMetres (t : Text) : Option ℤ :=
  if t.getLast? = some 'm' then (readDecimal t.dropLast).map fun q => (q * 100).floor else none

/-- The byte of a size: a digit and a power of ten. -/
def sizeByte (n : ℤ) : Option Bytes :=
  if 0 ≤ n then
    let e := (Nat.toDigits 10 n.toNat).length - 1
    if e < 10 then some [UInt8.ofNat (16 * (n.toNat / 10 ^ e) + e)] else none
  else none

/-- Degrees, minutes and seconds, in thousandths of a second from the middle. -/
def readAngle (d m s sign : Text) (plus minus : Char) : Option Bytes := do
  let n := (((← readDecimal d) * 3600 + (← readDecimal m) * 60 + (← readDecimal s)) * 1000).floor
  if sign = [plus] then uint 4 (2 ^ 31 + n)
  else if sign = [minus] then uint 4 (2 ^ 31 - n)
  else none

/-- The words of a LOC record. -/
def readLoc : List Field → Option Bytes
  | [.word d1, .word m1, .word s1, .word ns, .word d2, .word m2, .word s2, .word ew, .word altitude,
      .word size, .word hp, .word vp] => do
    return [0] ++ (← (readMetres size).bind sizeByte) ++ (← (readMetres hp).bind sizeByte) ++
      (← (readMetres vp).bind sizeByte) ++ (← readAngle d1 m1 s1 ns 'N' 'S') ++
      (← readAngle d2 m2 s2 ew 'E' 'W') ++
      (← (readMetres altitude).bind fun n => uint 4 (n + 10000000))
  | _ => none

/-- The rdata of a record of a zone file, in wire form. -/
def readRdata (origin : List Bytes) : Published → Option Bytes
  | (.a, [.address (.v4 a)]) => some (packUint 4 a.toNat)
  | (.aaaa, [.address (.v6 a)]) => some (packUint 16 a.toNat)
  | (.ns, [.name l]) | (.cname, [.name l]) => readLabel origin l
  | (.mx, [.num preference, .name l]) => do
    return (← uint 2 preference) ++ (← readLabel origin l)
  | (.txt, [.str t]) => (readStr t).bind counted
  | (.srv, [.num priority, .num weight, .num port, .name l]) => do
    return (← uint 2 priority) ++ (← uint 2 weight) ++ (← uint 2 port) ++ (← readLabel origin l)
  | (.caa, [.num flags, .str tag, .str value]) => do
    return (← uint 1 flags) ++ (← (readStr tag).bind counted) ++ (← readStr value)
  | (.caa, [.num flags, .word tag, .str value]) => do
    return (← uint 1 flags) ++ (← ((oneToken tag).map Token.bytes).bind counted) ++ (← readStr value)
  | (.naptr, [.num order, .num preference, .str flags, .str service, .str regexp, .name l]) => do
    return (← uint 2 order) ++ (← uint 2 preference) ++ (← (readStr flags).bind counted) ++
      (← (readStr service).bind counted) ++ (← (readStr regexp).bind counted) ++
      (← readLabel origin l)
  | (.sshfp, [.num algorithm, .num fingerprintType, .word t]) => do
    return (← uint 1 algorithm) ++ (← uint 1 fingerprintType) ++ (← readHex t)
  | (.ds, [.num keyTag, .num algorithm, .num digestType, .word digest]) => do
    return (← uint 2 keyTag) ++ (← uint 1 algorithm) ++ (← uint 1 digestType) ++ (← readHex digest)
  | (.dnskey, [.num flags, .num protocol, .num algorithm, .word key]) => do
    return (← uint 2 flags) ++ (← uint 1 protocol) ++ (← uint 1 algorithm) ++ (← readBase64 key)
  | (.hinfo, [.str cpu, .str os]) => do
    return (← (readStr cpu).bind counted) ++ (← (readStr os).bind counted)
  | (.rp, [.name mbox, .name txt]) => do
    return (← readLabel origin mbox) ++ (← readLabel origin txt)
  | (.dhcid, [.word t]) => readBase64 t
  | (.https, [.word _, .num _, .word t]) => readHex t
  | (.loc, fields) => readLoc fields
  | _ => none

/-! ### The rdata of a request -/

/-- A string of NAPTR. -/
def valBytes : PyVal → Option Bytes
  | .bytes b => some b
  | .str t => some (encode t)
  | _ => none

/-- The rdata of a request, in wire form. The classes of the repository do not come from a request. -/
def rdataWire : Rdata → Option Bytes
  | .empty => some []
  | .a data => some (packUint 4 data.toNat)
  | .aaaa data => some (packUint 16 data.toNat)
  | .ns l | .cname l => some (nameWire l.label)
  | .mx preference l => some (packUint 2 preference ++ nameWire l.label)
  | .txt data => some (data.flatMap fun b => UInt8.ofNat b.length :: b)
  | .srv priority weight port l =>
    some (packUint 2 priority ++ packUint 2 weight ++ packUint 2 port ++ nameWire l.label)
  | .caa flags tag value =>
    some (packUint 1 flags ++ UInt8.ofNat (encode tag).length :: encode tag ++ encode value)
  | .naptr order preference flags service regexp l => do
    return packUint 2 order ++ packUint 2 preference ++ (← (valBytes flags).bind counted) ++
      (← (valBytes service).bind counted) ++ (← (valBytes regexp).bind counted) ++
      nameWire l.label
  | .dnskey flags protocol algorithm key =>
    some (packUint 2 flags ++ packUint 1 protocol ++ packUint 1 algorithm ++ key)
  | .rd data | .lib _ data => some data
  | _ => none

/-- The rdata of a resource record of a request, in wire form; the names of RP are in lower case too. -/
def rrWire (h : Host) (rr : Rr) : Option Bytes :=
  match rr.rtype, rr.rdata with
  | .rp, .rd data =>
    match h.decodeName data 0 with
    | .ok (mbox, offset) =>
      match h.decodeName data offset with
      | .ok (txt, _) => some (nameWire mbox.label ++ nameWire txt.label)
      | .error _ => some data
    | .error _ => some data
  | _, x => rdataWire x

/-- The published record has the type and the rdata of the resource record. -/
def SameRecord (h : Host) (zoneRoot : DnsLabel) (rr : Rr) (record : Published) : Prop :=
  record.1 = rr.rtype ∧
    ∃ wire, readRdata zoneRoot.label record = some wire ∧ rrWire h rr = some wire

/-! ### Published rows -/

section
variable (h : Host) (st : Store) (zone : Zone) (zoneRoot : DnsLabel)

/-- The owner that a row is published with. -/
def publishedOwner (self : Row) : Option (List Bytes) :=
  ((ownerText h self).bind oneToken).bind (readName zoneRoot.label)

/-- The row is published with this owner. -/
def PublishedAt (self : Row) (owner : DnsLabel) : Prop :=
  ∃ ls, publishedOwner h zoneRoot self = some ls ∧ owner.Eqv ⟨ls⟩

/-- The row is published with a record of which `p` holds. -/
def PublishedWith (self : Row) (p : Published → Prop) : Prop :=
  ∃ records, published h st zone zoneRoot self = .ok (some records) ∧ ∃ record ∈ records, p record

end

end HexDns.Tasks.Published
