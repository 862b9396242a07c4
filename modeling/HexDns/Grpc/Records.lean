import HexDns.Grpc.FindZone
import HexDns.Models.Convert

/-! # The records of a name

The static and shared lookups of `DnsServiceServicer`: `find_records` with its fall back to the
wildcard name, `any_records` and `any_record_type`. Names are looked up by their text, the decoded
labels joined by dots, in the letter case of the request. -/

namespace HexDns.Grpc.Records

open HexDns.Lib.Texts HexDns.Lib.Tables HexDns.Base.Py HexDns.Base.Label HexDns.Base.Message
  HexDns.Models.Db HexDns.Models.Env

/-- `model.objects.filter(record_name=name, zone=zone)` -/
def named (st : Store) (m : Model) (name : Text) (zone : Zone) : List Row :=
  st.recordsOf m fun r => r.recordName = name ∧ r.zone = zone.id

@[simp] theorem mem_named {st : Store} {m : Model} {name : Text} {zone : Zone} {r : Row} :
    r ∈ named st m name zone ↔
      r ∈ st.records ∧ r.model = m ∧ r.recordName = name ∧ r.zone = zone.id := by
  unfold named
  rw [mem_recordsOf, decide_eq_true_iff]

/-- `DnsServiceServicer.find_records` -/
def findRecords (st : Store) (m : Model) (rname : DnsLabel) (zone : Zone) :
    Except PyErr (List Row) := do
  let searchName ← rname.searchName
  if named st m searchName zone ≠ [] then return named st m searchName zone
  else return named st m (← rname.wildcard.searchName) zone

/-- The rows that `find_records` returns for a name that can be decoded. -/
def foundRows (st : Store) (recordName : DnsLabel) (zone : Zone) (m : Model) : List Row :=
  match findRecords st m recordName zone with
  | .ok rows => rows
  | .error _ => []

theorem findRecords_eq {l : DnsLabel} {s w : Text} (hs : l.searchName = .ok s)
    (hw : l.wildcard.searchName = .ok w) (st : Store) (m : Model) (zone : Zone) :
    findRecords st m l zone =
      .ok (if named st m s zone ≠ [] then named st m s zone else named st m w zone) := by
  unfold findRecords
  rw [hs, hw]
  change (if named st m s zone ≠ [] then pure (named st m s zone) else _) = _
  split_ifs <;> rfl

theorem foundRows_eq {l : DnsLabel} {s w : Text} (hs : l.searchName = .ok s)
    (hw : l.wildcard.searchName = .ok w) (st : Store) (m : Model) (zone : Zone) :
    foundRows st l zone m =
      if named st m s zone ≠ [] then named st m s zone else named st m w zone := by
  unfold foundRows
  rw [findRecords_eq hs hw]

theorem findRecords_eq_foundRows {l : DnsLabel} {s : Text} (hs : l.searchName = .ok s) (st : Store)
    (m : Model) (zone : Zone) : findRecords st m l zone = .ok (foundRows st l zone m) := by
  obtain ⟨w, hw⟩ := exists_searchName_wildcard hs
  rw [foundRows_eq hs hw, findRecords_eq hs hw]

theorem findRecords_error {l : DnsLabel} {e : PyErr} (hs : l.searchName = .error e) (st : Store)
    (m : Model) (zone : Zone) : findRecords st m l zone = .error e := by
  unfold findRecords
  rw [hs]; rfl

/-- The rows found are those of the name, or if there are none, those of the wildcard name. -/
theorem mem_foundRows {l : DnsLabel} {s w : Text} (hs : l.searchName = .ok s)
    (hw : l.wildcard.searchName = .ok w) {st : Store} {m : Model} {zone : Zone} {r : Row} :
    r ∈ foundRows st l zone m ↔ r ∈ st.records ∧ r.model = m ∧ r.zone = zone.id ∧
      (r.recordName = s ∨ named st m s zone = [] ∧ r.recordName = w) := by
  rw [foundRows_eq hs hw]
  by_cases hn : named st m s zone = []
  · rw [if_neg (not_not.mpr hn), mem_named]
    constructor
    · rintro ⟨h1, h2, h3, h4⟩; exact ⟨h1, h2, h4, Or.inr ⟨hn, h3⟩⟩
    · rintro ⟨h1, h2, h4, h3 | ⟨-, h3⟩⟩
      · have : r ∈ named st m s zone := mem_named.mpr ⟨h1, h2, h3, h4⟩
        rw [hn] at this; cases this
      · exact ⟨h1, h2, h3, h4⟩
  · rw [if_pos hn, mem_named]
    constructor
    · rintro ⟨h1, h2, h3, h4⟩; exact ⟨h1, h2, h4, Or.inl h3⟩
    · rintro ⟨h1, h2, h4, h3 | ⟨h3, -⟩⟩
      · exact ⟨h1, h2, h3, h4⟩
      · exact absurd h3 hn

theorem foundRows_model {st : Store} {l : DnsLabel} {zone : Zone} {m : Model} {r : Row}
    (hr : r ∈ foundRows st l zone m) : r ∈ st.records ∧ r.model = m := by
  rcases hs : l.searchName with e | s
  · unfold foundRows at hr; rw [findRecords_error hs] at hr; cases hr
  obtain ⟨w, hw⟩ := exists_searchName_wildcard hs
  have h := (mem_foundRows hs hw).mp hr
  exact ⟨h.1, h.2.1⟩

theorem foundRows_congr {st st' : Store} {m : Model} {zone : Zone}
    (h : ∀ name, named st' m name zone = named st m name zone) (l : DnsLabel) :
    foundRows st' l zone m = foundRows st l zone m := by
  unfold foundRows findRecords
  simp only [h]

/-- `DnsServiceServicer.parse_https_record_name`: port, scheme and the rest of the name -/
def parseHttpsRecordName (py : Python) (recordName : DnsLabel) : ℤ × Text × DnsLabel :=
  match recordName.label with
  | (95 :: possPort) :: (95 :: possScheme) :: rest =>
    match (decode possPort).bind py.int, decode possScheme with
    | some port, some scheme => (port, scheme, if rest = [] then .at else ⟨rest⟩)
    | _, _ => (443, "https".toList, recordName)
  | _ => (443, "https".toList, recordName)

/-- The port and scheme of an HTTPS row. -/
def httpsMatches (port : ℤ) (scheme : Text) (r : Row) : Bool :=
  match r.data with
  | .https data => data.scheme = some scheme ∧ data.port.map Int.ofNat = some port
  | _ => false

/-- The models that `any_records` counts, without that of CNAME and HTTPS records. -/
def countedModels : List Model :=
  [.address, .dynamicAddress, .redirect, .mx, .ns, .txt, .srv, .caa, .naptr, .sshfp, .ds, .aname, .loc,
    .hinfo, .rp]

/-- `DnsServiceServicer.any_records` -/
def anyRecords (h : Host) (st : Store) (rname : DnsLabel) (zone : Zone) (includeCname : Bool) :
    Except PyErr Bool := do
  let searchName ← rname.searchName
  let wildcardSearchName ← rname.wildcard.searchName
  let anyOf (m : Model) : Bool :=
    named st m searchName zone ≠ [] || named st m wildcardSearchName zone ≠ []
  if countedModels.any anyOf || (includeCname && anyOf .cname) then return true
  else
    let (port, scheme, newRecordName) := parseHttpsRecordName h.py rname
    let newWildcardSearchName ← newRecordName.wildcard.searchName
    let newRecordName ← newRecordName.searchName
    return (named st .https newRecordName zone ++ named st .https newWildcardSearchName zone).any
      (httpsMatches port scheme)

/-- The model whose rows `any_record_type` counts for a type. -/
def countedModel : QType → Option Model
  | .mx => some .mx
  | .ns => some .ns
  | .txt => some .txt
  | .srv => some .srv
  | .caa => some .caa
  | .naptr => some .naptr
  | .sshfp => some .sshfp
  | .ds => some .ds
  | .loc => some .loc
  | .hinfo => some .hinfo
  | .rp => some .rp
  | .cname => some .cname
  | _ => none

/-- The row has an address of the type's version. -/
def addressOfType (qtype : QType) (r : Row) : Bool :=
  match r.data, qtype with
  | .address (some (.v4 _)) _, .a => true
  | .address (some (.v6 _)) _, .aaaa => true
  | _, _ => false

/-- `DnsServiceServicer.any_record_type` -/
def anyRecordType (h : Host) (st : Store) (rname : DnsLabel) (zone : Zone) (qtype : QType) :
    Except PyErr Bool := do
  let searchName ← rname.searchName
  if qtype = .a ∨ qtype = .aaaa then
    return (← findRecords st .address rname zone).any (addressOfType qtype)
  else if qtype = .https then
    let (port, scheme, newRecordName) := parseHttpsRecordName h.py rname
    return (named st .https (← newRecordName.searchName) zone).any (httpsMatches port scheme)
  else
    match countedModel qtype with
    | some m => return named st m searchName zone ≠ []
    | none => return false

end HexDns.Grpc.Records
