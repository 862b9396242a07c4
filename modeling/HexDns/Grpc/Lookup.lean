import HexDns.Grpc.Records

/-! # Answers to a name and type

The `lookup_…` functions of `DnsServiceServicer`, which add resource records to a response. They are
called for prerequisites only and always without DNSSEC, so that the branches on `is_dnssec` are left
out. The functions differ in what they add directly (`lookupAddr` to `lookupDhcid` below, each of
which says whether `lookup_cname` is to go on), and all go on in the same way: `lookupCname` adds a
CNAME and calls the function again on its target in another zone, or adds a referral.

A chain of CNAMEs that does not end is a `RecursionError`; `lookup` has the recursion limit as
fuel. -/

namespace HexDns.Grpc.Lookup

open HexDns.Lib.Texts HexDns.Lib.Tables HexDns.Lib.Programs HexDns.Base.Py HexDns.Base.Label
  HexDns.Base.Message HexDns.Models.Db HexDns.Models.Env HexDns.Models.Convert
  HexDns.Grpc.FindZone HexDns.Grpc.Records

/-- The sections and the response code of a response. -/
structure DnsRes where
  rr : List Rr
  auth : List Rr
  ar : List Rr
  rcode : Rcode
  deriving DecidableEq, Repr

/-- A program that fills a response. -/
abbrev Fill (α : Type) := Exec DnsRes PyErr α

def addAnswer (rr : Rr) : Fill Unit := modify fun res => { res with rr := res.rr ++ [rr] }

def addAuth (rr : Rr) : Fill Unit := modify fun res => { res with auth := res.auth ++ [rr] }

def addAr (rr : Rr) : Fill Unit := modify fun res => { res with ar := res.ar ++ [rr] }

/-- `NAMESERVERS` of `grpc.py` -/
def nameservers : List Text :=
  ["ns1.as207960.net".toList, "ns2.as207960.net".toList, "ns3.as207960.net".toList,
    "ns4.as207960.net".toList]

section
variable (h : Host) (st : Store)

/-! ### The records that the models answer with -/

/-- `DynamicAddressRecord.to_rr_v4` and `to_rr_v6`, what there is of them -/
def dynamicRr (self : Row) (qtype : QType) (queryName : DnsLabel) : Option Rr :=
  match self.data, qtype with
  | .dynamicAddress (some a) _ _, .a => some ⟨queryName, .a, .in, self.ttl, .a a⟩
  | .dynamicAddress _ (some a) _, .aaaa => some ⟨queryName, .aaaa, .in, self.ttl, .aaaa a⟩
  | _, _ => none

/-- The address, if it is of the type's version, as a resource record. -/
def addressRr (address : IpAddr) (qtype : QType) (ttl : ℕ) (queryName : DnsLabel) : Option Rr :=
  match address, qtype with
  | .v4 a, .a => some ⟨queryName, .a, .in, ttl, .a a⟩
  | .v6 a, .aaaa => some ⟨queryName, .aaaa, .in, ttl, .aaaa a⟩
  | _, _ => none

/-- The address of a row of `AddressRecord`. -/
def rowAddress (r : Row) : Option IpAddr :=
  match r.data with
  | .address a _ => a
  | _ => none

/-- `ANAMERecord.to_rrs` -/
def anameRrs (self : Row) (zone : Zone) (qtype : QType) (queryName : DnsLabel) :
    Except PyErr (List Rr) :=
  match self.data with
  | .aname aliasName => do
    let aliasLabel ← DnsLabel.ofText h.py aliasName
    let zoneLabel ← DnsLabel.ofText h.py zone.zoneRoot
    if aliasLabel.matchSuffix zoneLabel then
      let searchName ← (aliasLabel.stripSuffix zoneLabel).searchName
      return ((named st .address searchName zone).filterMap rowAddress).filterMap
        (addressRr · qtype self.ttl queryName)
    else
      return (st.anameCache.rows.filter fun c => c.record = self.id).filterMap
        (addressRr ·.address qtype self.ttl queryName)
  | _ => .error .attributeError

/-- `RedirectRecord.to_rr_v4` and `to_rr_v6` -/
def redirectRr (self : Row) (qtype : QType) (queryName : DnsLabel) : Option Rr :=
  addressRr (if qtype = .a then .v4 0x2d815ffe else .v6 0x2a0e1cc1000100000000000000010007) qtype
    self.ttl queryName

/-- `RedirectRecord.to_rr_caa` -/
def redirectRrCaa (self : Row) (queryName : DnsLabel) : Rr :=
  ⟨queryName, .caa, .in, self.ttl, .caa 0 "issue".toList "letsencrypt.org".toList⟩

/-- `SSHFPRecord.to_rrs` -/
def sshfpRrs (self : Row) (queryName : DnsLabel) : Except PyErr (List Rr) :=
  match self.data with
  | .sshfp hostKey => do
    let (keyType, decodedKey) ← h.sshKey hostKey
    return ((sshAlgoNum keyType).map fun n =>
      [⟨queryName, .sshfp, .in, self.ttl, .sshfp n 1 (h.sha1 decodedKey)⟩,
        ⟨queryName, .sshfp, .in, self.ttl, .sshfp n 2 (h.sha256 decodedKey)⟩]).getD []
  | _ => .error .attributeError

/-! ### Referrals -/

/-- `DnsServiceServicer.lookup_additional_addr` -/
def lookupAdditionalAddr (qtype : QType) (queryName : DnsLabel) : Fill Unit := do
  let found ← ofResult (findZone h st queryName)
  match found with
  | none => pure ()
  | some (zone, recordName) =>
    let records ← ofResult (findRecords st .address recordName zone)
    runAll (fun record => do
      let rr ← ofResult (toRr h record queryName)
      rr.elim (throw .attributeError) addAr) records
    if records = [] then
      let records ← ofResult (findRecords st .dynamicAddress recordName zone)
      runAll addAr (records.flatMap fun record =>
        (dynamicRr record .a queryName).toList ++ (dynamicRr record .aaaa queryName).toList)
      let records ← ofResult (findRecords st .aname recordName zone)
      runAll (fun record => do
        let rrs ← ofResult (anameRrs h st record zone qtype queryName)
        runAll addAnswer rrs) records

/-- `NSRecord.objects.order_by(Length("record_name").desc()).filter(zone=zone)` -/
def nsByLength (zone : Zone) : List Row :=
  (st.recordsOf .ns fun r => r.zone = zone.id).insertionSort fun r s =>
    s.recordName.length ≤ r.recordName.length

/-- The loop of `lookup_referral`; it says whether a name server was found. -/
def referralIn (qtype : QType) (recordName : DnsLabel) (zone : Zone) : List Row → Fill Bool
  | [] => pure false
  | nameserver :: rest => do
    let delegated ← ofResult (DnsLabel.ofText h.py nameserver.recordName)
    if recordName.matchSuffix delegated then
      match nameserver.data with
      | .ns target => do
        let ns ← ofResult (DnsLabel.ofText h.py target)
        let owner ← ofResult (DnsLabel.ofText h.py (nameserver.recordName ++ '.' :: zone.zoneRoot))
        addAuth ⟨owner, .ns, .in, nameserver.ttl, .ns ns⟩
        lookupAdditionalAddr h st qtype ns
      | _ => throw .attributeError
      let _ ← referralIn qtype recordName zone rest
      return true
    else referralIn qtype recordName zone rest

/-- `DnsServiceServicer.lookup_referral` -/
def lookupReferral (qtype : QType) (recordName : DnsLabel) (zone : Zone) : Fill Unit := do
  let nsFound ← referralIn h st qtype recordName zone (nsByLength st zone)
  if !nsFound && !decide (recordName.Eqv .at) then
    let found ← ofResult (anyRecords h st recordName zone true)
    if found then pure () else modify fun res => { res with rcode := .nxdomain }

/-- `DnsServiceServicer.lookup_cname`, with `func` for what is called on the target -/
def lookupCname (qtype : QType) (recordName : DnsLabel) (zone : Zone) (queryName : DnsLabel)
    (func : DnsLabel → Zone → DnsLabel → Fill Unit) : Fill Unit := do
  let found ← ofResult (anyRecords h st recordName zone false)
  if found then lookupReferral h st qtype recordName zone
  else
    let cnames ← ofResult (findRecords st .cname recordName zone)
    match cnames with
    | [] => lookupReferral h st qtype recordName zone
    | cnameRecord :: _ =>
      match cnameRecord.data with
      | .cname aliasName => do
        let aliasLabel ← ofResult (DnsLabel.ofText h.py aliasName)
        addAnswer ⟨queryName, .cname, .in, cnameRecord.ttl, .cname aliasLabel⟩
        let target ← ofResult (findZone h st aliasLabel)
        match target with
        | none => pure ()
        | some (newZone, newRecordName) =>
          if newZone.id ≠ zone.id ∧ ¬ recordName.Eqv newRecordName then
            func newRecordName newZone aliasLabel
          else pure ()
      | _ => throw .attributeError

/-! ### What the functions add directly

Each function says whether it has found records of its own; if not, `lookup_cname` goes on. -/

/-- The records of a model, by `to_rr`. -/
def lookupRecords (m : Model) (recordName : DnsLabel) (zone : Zone) (queryName : DnsLabel) :
    Fill Bool := do
  let records ← ofResult (findRecords st m recordName zone)
  runAll (fun record => do
    let rr ← ofResult (toRr h record queryName)
    rr.elim (throw .attributeError) addAnswer) records
  return records ≠ []

/-- `lookup_addr` -/
def lookupAddr (qtype : QType) (recordName : DnsLabel) (zone : Zone) (queryName : DnsLabel) :
    Fill Bool := do
  let records ← ofResult (findRecords st .address recordName zone)
  let rrs := records.filterMap fun r =>
    (rowAddress r).bind fun a => addressRr a qtype r.ttl queryName
  runAll addAnswer rrs
  if rrs ≠ [] then return true
  let records ← ofResult (findRecords st .dynamicAddress recordName zone)
  let rrs := records.filterMap fun r => dynamicRr r qtype queryName
  runAll addAnswer rrs
  if rrs ≠ [] then return true
  let records ← ofResult (findRecords st .aname recordName zone)
  let rrs ← ofResult (records.mapM fun r => anameRrs h st r zone qtype queryName)
  runAll addAnswer rrs.flatten
  if rrs.flatten ≠ [] then return true
  let records ← ofResult (findRecords st .redirect recordName zone)
  match records with
  | [] => return false
  | redirectRecord :: _ =>
    let rrs := (redirectRr redirectRecord qtype queryName).toList
    runAll addAnswer rrs
    return rrs ≠ []

/-- `lookup_mx` -/
def lookupMx := lookupRecords h st .mx

/-- `lookup_ns`; the apex is also answered with the zone's own name servers. -/
def lookupNs (recordName : DnsLabel) (zone : Zone) (queryName : DnsLabel) : Fill Bool := do
  let found ← lookupRecords h st .ns recordName zone queryName
  if recordName.Eqv .at then
    let customNs := st.customNs.rows.filter fun ns => ns.dnsZone = zone.id
    runAll (fun ns => do
      let label ← ofResult (DnsLabel.ofText h.py ns)
      addAnswer ⟨queryName, .ns, .in, 86400, .ns label⟩)
      (if customNs ≠ [] then customNs.map (·.nameserver) else nameservers)
  return found

/-- `lookup_txt` -/
def lookupTxt := lookupRecords h st .txt

/-- `lookup_srv` -/
def lookupSrv := lookupRecords h st .srv

/-- `lookup_caa` -/
def lookupCaa (recordName : DnsLabel) (zone : Zone) (queryName : DnsLabel) : Fill Bool := do
  let found ← lookupRecords h st .caa recordName zone queryName
  if found then return true
  let records ← ofResult (findRecords st .redirect recordName zone)
  match records with
  | [] => return false
  | redirectRecord :: _ =>
    addAnswer (redirectRrCaa redirectRecord queryName)
    return true

/-- `lookup_naptr` -/
def lookupNaptr := lookupRecords h st .naptr

/-- `lookup_sshfp` -/
def lookupSshfp (recordName : DnsLabel) (zone : Zone) (queryName : DnsLabel) : Fill Bool := do
  let records ← ofResult (findRecords st .sshfp recordName zone)
  runAll (fun record => do
    let rrs ← ofResult (sshfpRrs h record queryName)
    runAll addAnswer rrs) records
  return records ≠ []

/-- `lookup_ds`, which skips the records without a digest -/
def lookupDs (recordName : DnsLabel) (zone : Zone) (queryName : DnsLabel) : Fill Bool := do
  let records ← ofResult (findRecords st .ds recordName zone)
  runAll (fun record => do
    let rr ← ofResult (toRr h record queryName)
    rr.elim (pure ()) addAnswer) records
  return records ≠ []

/-- `lookup_loc` -/
def lookupLoc := lookupRecords h st .loc

/-- `lookup_hinfo` -/
def lookupHinfo := lookupRecords h st .hinfo

/-- `lookup_rp` -/
def lookupRp := lookupRecords h st .rp

/-- `lookup_https` -/
def lookupHttps (recordName : DnsLabel) (zone : Zone) (queryName : DnsLabel) : Fill Bool := do
  let (port, scheme, newRecordName) := parseHttpsRecordName h.py recordName
  let records ← ofResult (findRecords st .https newRecordName zone)
  let records := records.filter (httpsMatches port scheme)
  runAll (fun record => do
    let rr ← ofResult (toRr h record queryName)
    rr.elim (throw .attributeError) addAnswer) records
  return records ≠ []

/-- `lookup_dhcid` -/
def lookupDhcid := lookupRecords h st .dhcid

/-- The lookup functions that pass themselves, or another, to `lookup_cname`. -/
inductive Func
  | addr | mx | ns | txt | srv | caa | naptr | sshfp | ds | loc | hinfo | rp | https | dhcid
  deriving DecidableEq, Repr

def Func.direct (qtype : QType) : Func → DnsLabel → Zone → DnsLabel → Fill Bool
  | .addr => lookupAddr h st qtype
  | .mx => lookupMx h st
  | .ns => lookupNs h st
  | .txt => lookupTxt h st
  | .srv => lookupSrv h st
  | .caa => lookupCaa h st
  | .naptr => lookupNaptr h st
  | .sshfp => lookupSshfp h st
  | .ds => lookupDs h st
  | .loc => lookupLoc h st
  | .hinfo => lookupHinfo h st
  | .rp => lookupRp h st
  | .https => lookupHttps h st
  | .dhcid => lookupDhcid h st

/-- The function that is passed to `lookup_cname`: `lookup_https` passes `lookup_sshfp`. -/
def Func.next : Func → Func
  | .https => .sshfp
  | f => f

/-- A lookup function, with the number of calls that the stack has room for. -/
def lookup (qtype : QType) : ℕ → Func → DnsLabel → Zone → DnsLabel → Fill Unit
  | 0, _, _, _, _ => throw .recursionError
  | fuel + 1, f, recordName, zone, queryName => do
    let found ← f.direct h st qtype recordName zone queryName
    if found then pure ()
    else lookupCname h st qtype recordName zone queryName (lookup qtype fuel f.next)

end

end HexDns.Grpc.Lookup
