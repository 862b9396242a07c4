import HexDns.Models.Env
import Mathlib.Data.List.Sort

/-! # The zone of a name

`find_zone` goes through the zones with the longest root text first, and takes the first whose root
is a suffix of the name; the owner of that zone decides whether it is returned. -/

namespace HexDns.Grpc.FindZone

open HexDns.Lib.Texts HexDns.Lib.Tables HexDns.Base.Py HexDns.Base.Label HexDns.Models.Db
  HexDns.Models.Env

/-- `DNSZone.objects.order_by(Length("zone_root").desc())` -/
def zonesByLength (st : Store) : List Zone :=
  st.zones.rows.insertionSort fun z w => w.zoneRoot.length ≤ z.zoneRoot.length

/-- `if len(record_name.label) == 0: record_name = DNSLabel("@")` -/
def orAt (l : DnsLabel) : DnsLabel := if l.label.length = 0 then .at else l

/-- The loop of `find_zone`. -/
def findZoneIn (h : Host) (qname : DnsLabel) :
    List Zone → Except PyErr (Option (Zone × DnsLabel))
  | [] => .ok none
  | zone :: zones => do
    let zoneRoot ← DnsLabel.ofText h.py zone.zoneRoot
    if qname.matchSuffix zoneRoot then
      match h.owner zone.id with
      | .active true | .requestException => return some (zone, orAt (qname.stripSuffix zoneRoot))
      | .active false => return none
      | .raises e => throw e
    else findZoneIn h qname zones

/-- `DnsServiceServicer.find_zone` -/
def findZone (h : Host) (st : Store) (qname : DnsLabel) :
    Except PyErr (Option (Zone × DnsLabel)) :=
  findZoneIn h qname (zonesByLength st)

@[simp] theorem mem_zonesByLength {st : Store} {z : Zone} : z ∈ zonesByLength st ↔ z ∈ st.zones :=
  List.mem_insertionSort _

end HexDns.Grpc.FindZone
