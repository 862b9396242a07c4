import HexDns.Axfr.Access
import HexDns.Tasks.ZoneFile

/-! # Reverse zone files

`generate_rzone` of `tasks.py` with the rows that it reads, and the query by which `generate_fzone` finds
the reverse zones of its address records. An `RzoneFile` is the text in its parts, so that the automatic
lines can be told from the others. -/

namespace HexDns.Tasks.Rzone

open HexDns.Lib.Texts HexDns.Lib.Tables HexDns.Lib.Programs HexDns.Base.Py HexDns.Base.Label
  HexDns.Base.Message HexDns.Models.Db HexDns.Models.Env HexDns.Models.Names HexDns.Axfr.Access
  HexDns.Tasks.ZoneFile

/-! ### Rows -/

/-- `ReverseDNSZone` -/
structure ReverseZone where
  id : ℕ
  zoneRootAddress : IpAddr
  zoneRootPrefix : ℕ
  cdsDisable : Bool
  deriving DecidableEq, Repr

/-- `PTRRecord` -/
structure PtrRecord where
  id : ℕ
  zone : ℕ
  recordAddress : IpAddr
  ttl : ℕ
  pointer : Text
  deriving DecidableEq, Repr

/-- `ReverseNSRecord` -/
structure ReverseNs where
  id : ℕ
  zone : ℕ
  recordAddress : IpAddr
  recordPrefix : ℕ
  ttl : ℕ
  nameserver : Text
  deriving DecidableEq, Repr

/-- The database with the rows of the reverse zones. -/
structure Db where
  forward : Store
  reverseZones : Table ReverseZone ReverseZone.id
  ptrRecords : Table PtrRecord PtrRecord.id
  reverseNs : Table ReverseNs ReverseNs.id
  /-- `ReverseDNSZoneAdditionalCDS` -/
  additionalCds : Table AdditionalCds AdditionalCds.id
  /-- `ReverseDNSZoneAdditionalCDNSKEY` -/
  additionalCdnskey : Table AdditionalCdnskey AdditionalCdnskey.id

/-- `zone.get_user().account.id` of the forward and of the reverse zones -/
structure Accounts where
  forward : ℕ → Except PyErr ℕ
  reverse : ℕ → Except PyErr ℕ

/-! ### Networks -/

/-- `ipaddress.ip_network((address, prefix))`: none if the prefix is too long or there are host bits. -/
def ipNetwork (address : IpAddr) (pre : ℕ) : Option IpNetwork :=
  match address with
  | .v4 a => if pre ≤ 32 ∧ a.toNat % 2 ^ (32 - pre) = 0 then some ⟨.v4 a, pre⟩ else none
  | .v6 a => if pre ≤ 128 ∧ a.toNat % 2 ^ (128 - pre) = 0 then some ⟨.v6 a, pre⟩ else none

/-- The bits of an address. -/
def bits : IpAddr → ℕ
  | .v4 _ => 32
  | .v6 _ => 128

/-- `inet address << inet network` of SQL: strictly inside. -/
def strictlyInside (address : IpAddr) (network : IpNetwork) : Bool :=
  network.contains address && network.prefixLen < bits address

/-- The decimal numbers of an IPv4 address. -/
def octets (a : BitVec 32) : List Text :=
  (List.range 4).map fun i => showNat (a.toNat / 256 ^ (3 - i) % 256)

/-- The hexadecimal digits of an IPv6 address. -/
def nibbles (a : BitVec 128) : List Text :=
  (List.range 32).map fun i => [Nat.digitChar (a.toNat / 16 ^ (31 - i) % 16)]

/-- `network_to_apra` -/
def networkToApra (network : IpNetwork) : DnsLabel :=
  match network.address with
  | .v6 a => ⟨(((nibbles a).take ((network.prefixLen + 3) / 4)).reverse ++
      ["ip6".toList, "arpa".toList]).map encode⟩
  | .v4 a => ⟨(((octets a).take ((network.prefixLen + 7) / 8)).reverse ++
      ["in-addr".toList, "arpa".toList]).map encode⟩

/-- `address_to_apra` -/
def addressToApra : IpAddr → DnsLabel
  | .v6 a => ⟨((nibbles a).reverse ++ ["ip6".toList, "arpa".toList]).map encode⟩
  | .v4 a => ⟨((octets a).reverse ++ ["in-addr".toList, "arpa".toList]).map encode⟩

/-- The order of addresses in the database. -/
def addressKey : IpAddr → ℕ × ℕ
  | .v4 a => (0, a.toNat)
  | .v6 a => (1, a.toNat)

def addressLe (a b : IpAddr) : Bool :=
  (addressKey a).1 < (addressKey b).1 ||
    ((addressKey a).1 = (addressKey b).1 && (addressKey a).2 ≤ (addressKey b).2)

/-! ### The file -/

/-- The line of an address record. -/
structure AutoLine where
  id : ℕ
  address : IpAddr
  ttl : ℕ
  pointer : DnsLabel
  deriving DecidableEq, Repr

def AutoLine.text (l : AutoLine) : Text :=
  line ["; Address record ".toList, showNat l.id] ++
    recordLine (addressToApra l.address).toText l.ttl "PTR".toList l.pointer.toText

/-- A reverse zone file: the header, the PTR and the NS records, and the lines of address records. -/
structure RzoneFile where
  header : Text
  ptrs : Text
  ns : Text
  auto : List AutoLine
  deriving DecidableEq, Repr

def RzoneFile.text (f : RzoneFile) : Text := f.header ++ f.ptrs ++ f.ns ++ f.auto.flatMap AutoLine.text

section
variable (h : Host)

/-- `pointer` of a PTR record, where `@` is the root of the zone -/
def ptrPointer (zoneRoot : DnsLabel) (record : PtrRecord) : Except PyErr DnsLabel :=
  if record.pointer = ['@'] then .ok zoneRoot else DnsLabel.ofText h.py record.pointer

def ptrText (zoneRoot : DnsLabel) (record : PtrRecord) : Except PyErr Text := do
  let pointer ← ptrPointer h zoneRoot record
  return line ["; PTR record ".toList, showNat record.id] ++
    recordLine (addressToApra record.recordAddress).toText record.ttl "PTR".toList pointer.toText

def reverseNsText (zoneRoot : DnsLabel) (record : ReverseNs) : Except PyErr Text := do
  let nameserver ← DnsLabel.ofText h.py record.nameserver
  return line ["; NS record ".toList, showNat record.id] ++
    recordLine (showNat record.recordPrefix ++ '.' :: zoneRoot.toText) record.ttl "NS".toList
      nameserver.toText

/-- `zone_ptr` of an address record -/
def zonePtr (zone : Zone) (recordName : Text) : Except PyErr DnsLabel :=
  if recordName = ['@'] then DnsLabel.ofText h.py zone.zoneRoot
  else DnsLabel.ofText h.py (recordName ++ '.' :: zone.zoneRoot)

/-- The line of an address record in the zone of an account, if it is one of that account. -/
def autoLine (accounts : Accounts) (db : Db) (account : ℕ) (record : Row) (address : IpAddr) :
    Except PyErr (Option AutoLine) := do
  let account2 ← accounts.forward record.zone
  if account2 = account then
    match getRow db.forward.zones record.zone with
    | none => throw .other
    | some zone =>
      let pointer ← zonePtr h zone record.recordName
      return some ⟨record.id, address, record.ttl, pointer⟩
  else return none

/-- `SELECT * FROM dns_grpc_addressrecord WHERE (auto_reverse AND address << inet %s)`, with the
addresses -/
def autoRecords (st : Store) (network : IpNetwork) : List (Row × IpAddr) :=
  st.records.rows.filterMap fun r =>
    match r.data with
    | .address (some address) true =>
      if strictlyInside address network then some (r, address) else none
    | _ => none

/-- The rows that `generate_zone_header` reads of a reverse zone, which has no name servers of its
own. -/
def headerRows (db : Db) : Store :=
  { Store.empty with additionalCds := db.additionalCds, additionalCdnskey := db.additionalCdnskey }

/-- `generate_rzone` at the time `time` in seconds -/
def generateRzone (accounts : Accounts) (db : Db) (time : ℕ) (zone : ReverseZone) :
    Except PyErr RzoneFile := do
  match ipNetwork zone.zoneRootAddress zone.zoneRootPrefix with
  | none => throw .valueError
  | some network =>
    let zoneRoot := networkToApra network
    let header ← generateZoneHeader h (headerRows db) time ⟨zone.id, [], zone.cdsDisable⟩ zoneRoot
    let account ← accounts.reverse zone.id
    let ptrs ← ((db.ptrRecords.rows.filter fun r => r.zone = zone.id).insertionSort fun r s =>
      addressLe r.recordAddress s.recordAddress).mapM (ptrText h zoneRoot)
    let ns ← ((db.reverseNs.rows.filter fun r => r.zone = zone.id).insertionSort fun r s =>
      addressLe r.recordAddress s.recordAddress).mapM (reverseNsText h zoneRoot)
    let auto ← (autoRecords db.forward network).mapM fun x => autoLine h accounts db account x.1 x.2
    return ⟨header, ptrs.flatten, ns.flatten, auto.reduceOption⟩

/-! ### The reverse zones of the address records -/

/-- `SELECT * FROM dns_grpc_reversednszone WHERE (inet %s << CAST(… AS inet))`; the cast fails for a
prefix that is too long, and the host bits of the root do not matter. -/
def reverseZonesOf (db : Db) (address : IpAddr) : Except PyErr (List ReverseZone) :=
  if db.reverseZones.rows.all fun zone => zone.zoneRootPrefix ≤ bits zone.zoneRootAddress then
    .ok (db.reverseZones.rows.filter fun zone =>
      strictlyInside address ⟨zone.zoneRootAddress, zone.zoneRootPrefix⟩)
  else .error .databaseError

/-- The reverse zones that `generate_fzone` puts tasks into the queue for. -/
def rzonesOf (db : Db) (zone : Zone) : Except PyErr (List ℕ) := do
  let zones ← (rowsOf db.forward zone .address).mapM fun r =>
    match ownerText h r, r.data with
    | some _, .address (some address) true => reverseZonesOf db address
    | _, _ => .ok []
  return (zones.flatten.map ReverseZone.id).dedup

end

example : networkToApra ⟨.v4 0x0a000000#32, 9⟩ = networkToApra ⟨.v4 0x0a000000#32, 16⟩ := by decide

end HexDns.Tasks.Rzone
