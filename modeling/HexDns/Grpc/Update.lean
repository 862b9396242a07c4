import HexDns.Grpc.Lookup
import HexDns.Grpc.Tsig

/-! # DNS UPDATE

`handle_update_query` of `grpc.py`, after the authentication of the request: the zone, the
prerequisites, the prescan of the update section and the update loop, and `UpdateQuery` around it.
An early return is the exception `Stop.rcode`, so that a stage ends in `ok` only if the handler goes
on after it; what the update loop has written before it stops stays written. -/

namespace HexDns.Grpc.Update

open HexDns.Lib.Texts HexDns.Lib.Tables HexDns.Lib.Programs HexDns.Base.Py HexDns.Base.Label
  HexDns.Base.Message HexDns.Models.Db HexDns.Models.Env HexDns.Models.Convert
  HexDns.Grpc.FindZone HexDns.Grpc.Records HexDns.Grpc.Lookup HexDns.Grpc.Tsig

/-- How a stage of the handler ends early: a response with this code, or an exception. -/
inductive Stop
  | rcode (c : Rcode)
  | raised (e : PyErr)
  deriving DecidableEq, Repr

def orRaise {σ α : Type} (x : Except PyErr α) : Exec σ Stop α := ofResult (x.mapError .raised)

/-- A program of the models, run by the handler. -/
def calling {σ α : Type} (m : Exec σ PyErr α) : Exec σ Stop α :=
  fun s => match run m s with
    | (.ok a, s) => (.ok a, s)
    | (.error e, s) => (.error (.raised e), s)

section
variable (h : Host)

/-! ### The zone -/

/-- The loop for the zone of a name: the last zone whose root is the name. -/
def zoneNamedIn (zoneName : DnsLabel) : List Zone → Except PyErr (Option Zone)
  | [] => .ok none
  | z :: zones => do
    let zoneRoot ← DnsLabel.ofText h.py z.zoneRoot
    let later ← zoneNamedIn zoneName zones
    return if later.isSome then later else if zoneName.Eqv zoneRoot then some z else none

def zoneNamed (st : Store) (zoneName : DnsLabel) : Except PyErr (Option Zone) :=
  zoneNamedIn h zoneName (zonesByLength st)

/-! ### Prerequisites -/

/-- The part of a name above the zone, `DNSLabel("@")` for the zone itself. -/
def recordNameOrAt (rname zoneName : DnsLabel) : DnsLabel := orAt (rname.stripSuffix zoneName)

/-- `temp_prereq_rrset`: for each name and type, the records listed with the zone's class. -/
abbrev RrSets := List ((DnsLabel × QType) × List Rr)

/-- `temp_prereq_rrset[(rname, rtype)].append(rr)` -/
def addToRrSets (rr : Rr) : RrSets → RrSets
  | [] => [((rr.rname, rr.rtype), [rr])]
  | (key, values) :: rest =>
    if h.nameKey key.1 = h.nameKey rr.rname ∧ key.2 = rr.rtype then (key, values ++ [rr]) :: rest
    else (key, values) :: addToRrSets rr rest

/-- `any_records` or, for a type, `any_record_type` -/
def anyOfType (st : Store) (recordName : DnsLabel) (zone : Zone) (rtype : QType) :
    Except PyErr Bool :=
  if rtype = .any then anyRecords h st recordName zone true
  else anyRecordType h st recordName zone rtype

/-- One prerequisite of the first loop; those of the zone's class are collected. -/
def prerequisite (st : Store) (zone : Zone) (zoneName : DnsLabel) (rrSets : RrSets) (rr : Rr) :
    Except Stop RrSets :=
  if rr.ttl ≠ 0 then .error (.rcode .formerr)
  else if !rr.rname.matchSuffix zoneName then .error (.rcode .notzone)
  else
    match rr.rclass with
    | .any =>
      if rr.rdata ≠ .empty then .error (.rcode .formerr)
      else
        match anyOfType h st (recordNameOrAt rr.rname zoneName) zone rr.rtype with
        | .error e => .error (.raised e)
        | .ok true => .ok rrSets
        | .ok false => .error (.rcode (if rr.rtype = .any then .nxdomain else .nxrrset))
    | .none =>
      if rr.rdata ≠ .empty then .error (.rcode .formerr)
      else
        match anyOfType h st (recordNameOrAt rr.rname zoneName) zone rr.rtype with
        | .error e => .error (.raised e)
        | .ok false => .ok rrSets
        | .ok true => .error (.rcode (if rr.rtype = .any then .yxdomain else .yxrrset))
    | .in => .ok (addToRrSets h rr rrSets)
    | .other _ => .error (.rcode .formerr)

/-- The lookup function for the type of a listed RRset. -/
def lookupFunc : QType → Option Func
  | .a | .aaaa => some .addr
  | .mx => some .mx
  | .ns => some .ns
  | .txt => some .txt
  | .srv => some .srv
  | .caa => some .caa
  | .naptr => some .naptr
  | .sshfp => some .sshfp
  | .ds => some .ds
  | .loc => some .loc
  | .hinfo => some .hinfo
  | .rp => some .rp
  | .https => some .https
  | .dhcid => some .dhcid
  | _ => none

/-- `list.sort(key=lambda r: (r.rname, r.rdata))`: neither names nor rdata have an order, so that two
records that differ in one of them are a `TypeError`. -/
def sortRrs : List Rr → Except PyErr (List Rr)
  | r :: s :: rest =>
    if r.rname.Eqv s.rname ∧ r.rdata.eq s.rdata then (sortRrs (s :: rest)).map (r :: ·)
    else .error .typeError
  | rrs => .ok rrs

/-- `values != found_rr`, the other way round -/
def sameRrs : List Rr → List Rr → Bool
  | [], [] => true
  | r :: rs, s :: ss => r.eq s && sameRrs rs ss
  | _, _ => false

/-- The answers of `temp_dns_res` for a listed RRset. A CNAME goes into `dns_res`, the state. -/
def foundRrs (st : Store) (zone : Zone) (recordName rname : DnsLabel) (rtype : QType) :
    Exec (List Rr) PyErr (List Rr) :=
  match lookupFunc rtype with
  | some f =>
    match run (lookup h st rtype h.recursionLimit f recordName zone rname) ⟨[], [], [], .noerror⟩ with
    | (.ok (), res) => return res.rr
    | (.error e, _) => throw e
  | none =>
    if rtype = .cname then do
      let records ← ofResult (findRecords st .cname recordName zone)
      match records with
      | [] => return []
      | record :: _ =>
        let rr ← ofResult (toRr h record rname)
        modify fun answers => answers ++ rr.toList
        return []
    else return []

/-- One RRset of the second loop. -/
def rrSetPrerequisite (st : Store) (zone : Zone) (zoneName : DnsLabel)
    (rrSet : (DnsLabel × QType) × List Rr) : Exec (List Rr) Stop Unit := do
  let ((rname, rtype), values) := rrSet
  let foundRr ← calling (foundRrs h st zone (recordNameOrAt rname zoneName) rname rtype)
  let values ← orRaise (sortRrs values)
  let foundRr ← orRaise (sortRrs foundRr)
  if sameRrs values foundRr then pure () else throw (.rcode .yxrrset)

/-- The prerequisite section; the state has the answers added to the response. -/
def prerequisites (st : Store) (zone : Zone) (zoneName : DnsLabel) (prset : List Rr) :
    Exec (List Rr) Stop Unit := do
  let rrSets ← ofResult (prset.foldlM (prerequisite h st zone zoneName) [])
  runAll (rrSetPrerequisite h st zone zoneName) rrSets

/-! ### Prescan -/

def supportedTypes : List QType :=
  [.a, .aaaa, .mx, .ns, .txt, .srv, .caa, .naptr, .ds, .loc, .hinfo, .rp, .cname, .dhcid]

/-- The prescan of one record of the update section: the code of the response, if it is refused. -/
def prescanRr (zoneName : DnsLabel) (rr : Rr) : Option Rcode :=
  match rr.rclass with
  | .other _ => some .yxrrset
  | .in =>
    if !rr.rname.matchSuffix zoneName then some .notzone
    else if rr.rtype ∉ supportedTypes then some .formerr
    else none
  | .any =>
    if !rr.rname.matchSuffix zoneName then some .notzone
    else if rr.rdata ≠ .empty ∨ rr.rtype ∉ supportedTypes ++ [.any] ∨ rr.ttl ≠ 0 then some .formerr
    else none
  | .none =>
    if !rr.rname.matchSuffix zoneName then some .notzone
    else if rr.ttl ≠ 0 ∨ rr.rtype ∉ supportedTypes then some .formerr
    else none

def prescan (zoneName : DnsLabel) (upset : List Rr) : Option Rcode :=
  upset.findSome? (prescanRr zoneName)

/-! ### The update loop -/

/-- The model of a type: its rows by `get_record_models`, its columns by `from_rr`. -/
def modelOfType : QType → Option (Model × (Rr → Except PyErr RecordData))
  | .a | .aaaa => some (.address, addressColumns true)
  | .mx => some (.mx, mxColumns)
  | .ns => some (.ns, nsColumns)
  | .txt => some (.txt, txtColumns)
  | .srv => some (.srv, srvColumns)
  | .caa => some (.caa, caaColumns)
  | .naptr => some (.naptr, naptrColumns)
  | .ds => some (.ds, dsColumns)
  | .loc => some (.loc, locColumns)
  | .hinfo => some (.hinfo, hinfoColumns)
  | .rp => some (.rp, rpColumns h)
  | .dhcid => some (.dhcid, dhcidColumns)
  | .cname => some (.cname, cnameColumns)
  | _ => none

variable {h} in
theorem makes_modelOfType {t : QType} {m : Model} {columns : Rr → Except PyErr RecordData}
    (hm : modelOfType h t = some (m, columns)) : Makes columns m := by
  rcases t with _ | _ | _ | _ | _ | _ | _ | _ | _ | _ | _ | _ | _ | _ | _ | _ | _ | _ | _ | _ | _ | c <;>
    cases hm
  case hinfo => exact makes_hinfoColumns
  case rp => exact makes_rpColumns
  all_goals
    intro rr data hd
    simp only [addressColumns, cnameColumns, mxColumns, nsColumns, txtColumns, srvColumns, caaColumns,
      naptrColumns, dsColumns, locColumns, dhcidColumns] at hd
    first
      | (split at hd <;> cases hd <;> rfl)
      | (cases hd; rfl)

/-- `get_record_models` -/
def getRecordModels (st : Store) (rrtype : QType) (recordName : DnsLabel) (zone : Zone) :
    Except PyErr (Option (List Row)) :=
  match modelOfType h rrtype with
  | some (m, _) => (findRecords st m recordName zone).map some
  | none => .ok none

/-- `_acme-challenge` -/
def acmeChallenge : Bytes := encode "_acme-challenge".toList

/-- The part of `can_manage` about `restrict_to`. -/
def inRestriction (tsigKey : UpdateSecret) (recordName : DnsLabel) : Except PyErr Bool :=
  if tsigKey.restrictTo = ['@'] then .ok true
  else (DnsLabel.ofText h.py tsigKey.restrictTo).map recordName.matchSuffix

/-- `can_manage` -/
def canManage (tsigKey : UpdateSecret) (rrtype : QType) (recordName : DnsLabel) :
    Except PyErr Bool := do
  let below ← inRestriction h tsigKey recordName
  if below then
    match tsigKey.type with
    | .unlimited => return true
    | .acmeDns01 =>
      match recordName.label with
      | [] => throw .indexError
      | first :: _ => return first = acmeChallenge ∧ rrtype = .txt
    | .other _ => return false
  else return false

/-- `if not can_manage(…)`: the response has the code `NOTAUTH`. -/
def checkManage (tsigKey : UpdateSecret) (rrtype : QType) (recordName : DnsLabel) :
    Exec Store Stop Unit := do
  if ← orRaise (canManage h tsigKey rrtype recordName) then pure () else throw (.rcode .notauth)

/-- The loop of `_try_update` over the rows of the type: the first with the rdata of `rr` is
updated. -/
def tryUpdateIn (zone : Zone) (rr : Rr) : List Row → Exec Store PyErr Bool
  | [] => return true
  | record :: records => do
    match ← ofResult (toRr h record rr.rname) with
    | none => throw .attributeError
    | some recordRr =>
      if rr.rdata.eq recordRr.rdata then do
        let record ← ofResult (updateFromRr h (updateColumns h record) record rr zone)
        saveRow h record
        return false
      else tryUpdateIn zone rr records

/-- `_try_update`: whether a new row is to be saved -/
def tryUpdate (zone : Zone) (recordName : DnsLabel) (rr : Rr) : Exec Store PyErr Bool := do
  let st ← get
  let blocked ← ofResult (if rr.rtype = .cname then anyRecords h st recordName zone false
    else anyRecordType h st recordName zone .cname)
  if blocked then return false
  else
    match ← ofResult (getRecordModels h st rr.rtype recordName zone) with
    | none => return true
    | some records => tryUpdateIn h zone rr records

/-- RFC 2136 § 3.4.2.2: add to an RRset -/
def addRr (tsigKey : UpdateSecret) (zone : Zone) (recordName : DnsLabel) (rr : Rr) :
    Exec Store Stop Unit := do
  checkManage h tsigKey rr.rtype recordName
  match modelOfType h rr.rtype with
  | none => pure ()
  | some (_, columns) =>
    let st ← get
    let newRecord ← orRaise (fromRr h columns rr zone st.records.next)
    let create ← calling (tryUpdate h zone recordName rr)
    if create then calling (saveRow h newRecord) else pure ()

/-- The models whose rows class ANY type ANY deletes. -/
def deletedModels : List Model :=
  [.address, .mx, .ns, .txt, .srv, .caa, .naptr, .ds, .loc, .hinfo, .rp, .cname, .dhcid]

/-- Delete a row, if `p` holds of its resource record. -/
def deleteIf (rname : DnsLabel) (p : Rr → Bool) (record : Row) : Exec Store Stop Unit := do
  match ← orRaise (toRr h record rname) with
  | none => throw (.raised .attributeError)
  | some recordRr => if p recordRr then calling (deleteRow record) else pure ()

/-- RFC 2136 § 3.4.2.3 for type ANY, the rows of one model: delete all RRsets of a name -/
def deleteAllOf (tsigKey : UpdateSecret) (zone : Zone) (recordName : DnsLabel) (rr : Rr) (m : Model) :
    Exec Store Stop Unit := do
  let st ← get
  let records ← orRaise (findRecords st m recordName zone)
  runAll (fun record => do
    match ← orRaise (toRr h record rr.rname) with
    | none => throw (.raised .attributeError)
    | some recordRr =>
      checkManage h tsigKey recordRr.rtype recordName
      calling (deleteRow record)) records

/-- RFC 2136 § 3.4.2.3 for another type: delete an RRset -/
def deleteRrSet (tsigKey : UpdateSecret) (zone : Zone) (recordName : DnsLabel) (rr : Rr) :
    Exec Store Stop Unit := do
  let st ← get
  let records ← orRaise (getRecordModels h st rr.rtype recordName zone)
  checkManage h tsigKey rr.rtype recordName
  runAll (deleteIf h rr.rname fun recordRr => recordRr.rtype = rr.rtype) (records.getD [])

/-- RFC 2136 § 3.4.2.4: delete an RR from an RRset -/
def deleteRr (tsigKey : UpdateSecret) (zone : Zone) (recordName : DnsLabel) (rr : Rr) :
    Exec Store Stop Unit := do
  let st ← get
  let records ← orRaise (getRecordModels h st rr.rtype recordName zone)
  match records with
  | none => pure ()
  | some records =>
    checkManage h tsigKey rr.rtype recordName
    runAll (deleteIf h rr.rname fun recordRr =>
      rr.rdata.eq recordRr.rdata && recordRr.rtype = rr.rtype) records

/-- One record of the update section. -/
def updateRr (tsigKey : UpdateSecret) (zone : Zone) (zoneName : DnsLabel) (rr : Rr) :
    Exec Store Stop Unit :=
  let recordName := rr.rname.stripSuffix zoneName
  match rr.rclass with
  | .in => addRr h tsigKey zone recordName rr
  | .any =>
    if rr.rtype = .any then runAll (deleteAllOf h tsigKey zone recordName rr) deletedModels
    else deleteRrSet h tsigKey zone recordName rr
  | .none => deleteRr h tsigKey zone recordName rr
  | .other _ => pure ()

/-- The update section. -/
def updateLoop (tsigKey : UpdateSecret) (zone : Zone) (zoneName : DnsLabel) (upset : List Rr) :
    Exec Store Stop Unit :=
  runAll (updateRr h tsigKey zone zoneName) upset

/-! ### The handler -/

/-- A signed response with a code and answers. -/
def respond (now : ℕ) (dnsReq : DnsRecord) (inc : Incoming) (rcode : Rcode) (answers : List Rr) :
    Except PyErr Response :=
  signResp h now dnsReq inc rcode answers 0 [] (now / 10 ^ 6)

/-- The response of a stage that has stopped. -/
def respondStop (now : ℕ) (dnsReq : DnsRecord) (inc : Incoming) (answers : List Rr) :
    Stop → Except PyErr Response
  | .rcode c => respond h now dnsReq inc c answers
  | .raised e => .error e

/-- The zone that an authenticated request is for, which has to be the zone of its key. -/
def targetZone (st : Store) (inc : Incoming) (zoneName : DnsLabel) : Except Stop Zone :=
  match zoneNamed h st zoneName with
  | .error e => .error (.raised e)
  | .ok none => .error (.rcode .notauth)
  | .ok (some zone) => if inc.tsigKey.zone = zone.id then .ok zone else .error (.rcode .notauth)

/-- What is known before the update loop: the request's key and time, the zone and its name, and the
answers added to the response. -/
structure Admitted where
  inc : Incoming
  zoneName : DnsLabel
  zone : Zone
  answers : List Rr

/-- The handler up to the update loop, which does not write: authentication, zone, prerequisites
and prescan. -/
def admission (now : ℕ) (st : Store) (dnsReq : DnsRecord) : Except Refusal Admitted :=
  match authenticate h now st dnsReq with
  | .error refusal => .error refusal
  | .ok (inc, zoneName) =>
    match targetZone h st inc zoneName with
    | .error stop => .error (respondStop h now dnsReq inc [] stop)
    | .ok zone =>
      match run (prerequisites h st zone zoneName dnsReq.rr) [] with
      | (.error stop, answers) => .error (respondStop h now dnsReq inc answers stop)
      | (.ok (), answers) =>
        match prescan zoneName dnsReq.auth with
        | some rcode => .error (respond h now dnsReq inc rcode answers)
        | none => .ok ⟨inc, zoneName, zone, answers⟩

/-- `handle_update_query`: the response or exception, and the database after it -/
def handleUpdateQuery (now : ℕ) (dnsReq : DnsRecord) (st : Store) : Except PyErr Response × Store :=
  match admission h now st dnsReq with
  | .error refusal => (refusal, st)
  | .ok adm =>
    match run (updateLoop h adm.inc.tsigKey adm.zone adm.zoneName dnsReq.auth) st with
    | (.ok (), st) => (respond h now dnsReq adm.inc .noerror adm.answers, st)
    | (.error stop, st) => (respondStop h now dnsReq adm.inc adm.answers stop, st)

/-- `UpdateQuery`: an exception of the handler becomes a response `SERVFAIL`, and one of the parser
that is not `DNSError` leaves the call without a response. -/
def updateQuery (now : ℕ) (msg : Bytes) (st : Store) : Except PyErr Response × Store :=
  match h.parse msg with
  | .error .dnsError => (.ok ⟨.formerr, [], [], none⟩, st)
  | .error e => (.error e, st)
  | .ok dnsReq =>
    match handleUpdateQuery h now dnsReq st with
    | (.ok res, st) => (.ok res, st)
    | (.error _, st) => (.ok (reply dnsReq .servfail), st)

end

end HexDns.Grpc.Update
