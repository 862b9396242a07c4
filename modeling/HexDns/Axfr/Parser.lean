import Mathlib.Tactic.Linarith
import HexDns.Axfr.Server

/-! # The zone file parser of the AXFR server

`Parser::parse` of `axfr/src/parser.rs`: the loop over the tokens, with the variables that it carries
along, and `flush_record`, which adds a record to the map. The lexer, the parsers of names, times and
classes and the set of records are those of the DNS library; `rdata` is the `match` on the record type,
whose branches parse the rdata of one type.

`Kept` is what the map has: the set of an SOA is that one record. -/

namespace HexDns.Axfr.Parser

open HexDns.Lib.Texts HexDns.Lib.Programs HexDns.Base.Label HexDns.Base.Message HexDns.Axfr.Server

/-! ### Record types -/

/-- `RecordType` -/
inductive RecordType
  | a | aaaa | aname | any | axfr | caa | cds | cdnskey | cname | dhcid | dname | csync | dnskey | ds | hinfo
  | https | ixfr | key | loc | mx | naptr | ns | nsec | nsec3 | nsec3param | null | openpgpkey | opt | ptr | rp
  | rrsig | sig | soa | srv | sshfp | svcb | tlsa | tsig | txt | unknown (code : ℕ) | zero
  deriving DecidableEq, Repr

/-- `RecordType::to_trust` -/
def RecordType.toTrust : RecordType → QType
  | .a => .a
  | .aaaa => .aaaa
  | .aname => .other 65305
  | .any => .any
  | .axfr => .axfr
  | .caa => .caa
  | .cds => .other 59
  | .cdnskey => .other 60
  | .cname => .cname
  | .dhcid => .dhcid
  | .dname => .other 39
  | .csync => .other 62
  | .dnskey => .dnskey
  | .ds => .ds
  | .hinfo => .hinfo
  | .https => .https
  | .ixfr => .other 251
  | .key => .other 25
  | .loc => .loc
  | .mx => .mx
  | .naptr => .naptr
  | .ns => .ns
  | .nsec => .other 47
  | .nsec3 => .other 50
  | .nsec3param => .other 51
  | .null => .other 10
  | .openpgpkey => .other 61
  | .opt => .other 41
  | .ptr => .other 12
  | .rp => .rp
  | .rrsig => .other 46
  | .sig => .other 24
  | .soa => .soa
  | .srv => .srv
  | .sshfp => .sshfp
  | .svcb => .other 64
  | .tlsa => .other 52
  | .tsig => .tsig
  | .txt => .txt
  | .unknown code => .other code
  | .zero => .other 0

/-- The names that `RecordType::from_str` knows. -/
def recordTypes : List (String × RecordType) :=
  [("A", .a), ("AAAA", .aaaa), ("ANAME", .aname), ("AXFR", .axfr), ("CAA", .caa), ("CDNSKEY", .cdnskey),
    ("CDS", .cds), ("CNAME", .cname), ("CSYNC", .csync), ("DHCID", .dhcid), ("DNSKEY", .dnskey), ("DS", .ds),
    ("HINFO", .hinfo), ("HTTPS", .https), ("KEY", .key), ("LOC", .loc), ("MX", .mx), ("NAPTR", .naptr),
    ("NSEC", .nsec), ("NSEC3", .nsec3), ("NSEC3PARAM", .nsec3param), ("NS", .ns), ("NULL", .null),
    ("OPENPGPKEY", .openpgpkey), ("PTR", .ptr), ("RP", .rp), ("RRSIG", .rrsig), ("SIG", .sig), ("SOA", .soa),
    ("SRV", .srv), ("SSHFP", .sshfp), ("SVCB", .svcb), ("TLSA", .tlsa), ("TXT", .txt), ("TSIG", .tsig),
    ("ANY", .any), ("*", .any)]

/-- `RecordType::from_str`, as a release build has it, without the assertion on the characters -/
def RecordType.fromStr (t : Text) : Option RecordType :=
  (recordTypes.find? fun e => e.1.toList = t).map (·.2)

theorem toTrust_eq_soa {t : RecordType} : t.toTrust = .soa ↔ t = .soa := by
  constructor
  · intro h
    cases t <;> first | rfl | cases h
  · rintro rfl
    rfl

/-! ### The order of the map -/

/-- `u16::from` of a record type -/
def typeCode : QType → ℕ
  | .a => 1
  | .ns => 2
  | .cname => 5
  | .soa => 6
  | .hinfo => 13
  | .mx => 15
  | .txt => 16
  | .rp => 17
  | .aaaa => 28
  | .loc => 29
  | .srv => 33
  | .naptr => 35
  | .ds => 43
  | .sshfp => 44
  | .dnskey => 48
  | .dhcid => 49
  | .https => 65
  | .tsig => 250
  | .axfr => 252
  | .any => 255
  | .caa => 257
  | .other code => code

/-- The type is one without a name of its own. -/
def isOther : QType → Bool
  | .other _ => true
  | _ => false

/-- The type of a code with a name. -/
def namedType (code : ℕ) : QType :=
  ([.a, .ns, .cname, .soa, .hinfo, .mx, .txt, .rp, .aaaa, .loc, .srv, .naptr, .ds, .sshfp, .dnskey, .dhcid, .https,
    .tsig, .axfr, .any, .caa].find? fun t => typeCode t = code).getD (.other code)

/-- `Ord` of `RrKey`: names from the root on, then types -/
def RrKey.cmp : RrKey → RrKey → Ordering :=
  compareLex (compareOn fun k => k.name.label.reverse)
    (compareLex (compareOn fun k => typeCode k.recordType) (compareOn fun k => isOther k.recordType))

theorem type_ext {t u : QType} (hcode : typeCode t = typeCode u) (hother : isOther t = isOther u) : t = u := by
  have hback : ∀ t : QType, (if isOther t then .other (typeCode t) else namedType (typeCode t)) = t := by
    intro t
    cases t <;> rfl
  rw [← hback t, ← hback u, hcode, hother]

instance : Std.TransCmp RrKey.cmp := by
  unfold RrKey.cmp
  infer_instance

instance : Std.LawfulEqCmp RrKey.cmp where
  compare_self := by
    intro k
    exact Std.ReflCmp.compare_self
  eq_of_compare := by
    rintro ⟨⟨ls⟩, t⟩ ⟨⟨ms⟩, u⟩ h
    simp only [RrKey.cmp, compareLex, compareOn, Ordering.then_eq_eq] at h
    obtain ⟨hname, hcode, hother⟩ := h
    have hname := List.reverse_injective (Std.LawfulEqCmp.eq_of_compare hname)
    have htype := type_ext (Std.LawfulEqCmp.eq_of_compare hcode) (Std.LawfulEqCmp.eq_of_compare hother)
    rw [show ls = ms from hname, htype]

/-- `BTreeMap<RrKey, RecordSet>`; a set without signatures is its list of records. -/
abbrev Records := Std.TreeMap RrKey (List Record) RrKey.cmp

/-! ### The parser -/

/-- `Token` -/
inductive Token
  | blank
  | list (parts : List Text)
  | charData (data : Text)
  | atSign
  | includeFile
  | origin
  | ttl
  | eol
  deriving DecidableEq, Repr

/-- `RData`: its wire form, and the expiry and the minimum of an `RData::SOA`. -/
structure RData where
  soa : Option (ℤ × ℕ)
  wire : Bytes
  deriving DecidableEq, Repr

/-- What the parser uses of the library, and its own parsers of rdata. -/
structure Library where
  /-- what `Lexer::next_token` returns up to the end, and whether an error is the end -/
  lexer : Text → List Token × Bool
  /-- `Name::parse` -/
  name : Text → Option DnsLabel → Option DnsLabel
  /-- `Parser::parse_time` -/
  time : Text → Option ℕ
  /-- `DNSClass::from_str` -/
  dnsClass : Text → Option QClass
  rdata : RecordType → List Text → DnsLabel → Except Failure RData
  /-- `RecordSet::insert`, which never adds to the signatures of a set -/
  insert : List Record → Record → List Record

/-- The variables of `parse`. -/
structure Vars where
  origin : DnsLabel
  dnsClass : QClass
  currentName : Option DnsLabel
  rtype : Option RecordType
  ttl : Option ℕ
  records : Records

/-- `State` -/
inductive State
  | startLine
  | ttlClassType
  | ttl
  | record (recordParts : List Text)
  | includeFile
  | origin
  deriving DecidableEq, Repr

/-- The TTL of a record, and the TTL variable after it. -/
def recordTtl (rtype : RecordType) (rdata : RData) (ttl : Option ℕ) : Except Failure (ℕ × Option ℕ) :=
  if rtype = .soa then
    match rdata.soa with
    | some (expire, minimum) => .ok ((expire % 2 ^ 32).toNat, some (ttl.getD minimum))
    | none => .error .error
  else
    match ttl with
    | some t => .ok (t, ttl)
    | none => .error .error

/-- The end of `flush_record`: add the record to the map. -/
def addRecord (lib : Library) (rtype : RecordType) (record : Record) (records : Records) :
    Except Failure Records :=
  let key : RrKey := ⟨⟨record.name.lower⟩, record.recordType⟩
  if rtype = .soa then
    if records[key]?.isSome then .error .error else .ok (records.insert key [record])
  else .ok (records.insert key (lib.insert (records[key]?.getD []) record))

/-- `flush_record` -/
def flushRecord (lib : Library) (recordParts : List Text) (v : Vars) : Except Failure Vars :=
  match v.rtype with
  | none => .error .error
  | some rtype => do
    let rdata ← lib.rdata rtype recordParts v.origin
    match v.currentName with
    | none => throw .error
    | some name => do
      let (ttl, ttl') ← recordTtl rtype rdata v.ttl
      let records ← addRecord lib rtype ⟨name, rtype.toTrust, v.dnsClass, ttl, rdata.wire⟩ v.records
      return { v with ttl := ttl', records }

/-- A word at the start of a line. -/
def startLine (lib : Library) (v : Vars) : Token → Except Failure (Vars × State)
  | .origin => .ok (v, .origin)
  | .ttl => .ok (v, .ttl)
  | .charData data =>
    match lib.name data (some v.origin) with
    | some name => .ok ({ v with currentName := some name }, .ttlClassType)
    | none => .error .error
  | .atSign => .ok ({ v with currentName := some v.origin }, .ttlClassType)
  | .blank => .ok (v, .ttlClassType)
  | .eol => .ok (v, .startLine)
  | _ => .error .error

/-- A word before the type: a TTL, a class or the type. -/
def ttlClassType (lib : Library) (v : Vars) (data : Text) : Except Failure (Vars × State) :=
  let typed data :=
    match RecordType.fromStr data with
    | some rtype => Except.ok ({ v with rtype := some rtype }, State.record [])
    | none => .error .error
  match lib.time data with
  | some ttl => .ok ({ v with ttl := some ttl }, .ttlClassType)
  | none =>
    let data := data.map Char.toUpper
    if data.any fun c => !c.isUpper then typed data
    else
      match lib.dnsClass data with
      | some dnsClass => .ok ({ v with dnsClass }, .ttlClassType)
      | none => typed data

/-- The body of the loop. -/
def step (lib : Library) : Vars × State → Token → Except Failure (Vars × State)
  | (v, .startLine), t => startLine lib { v with rtype := none } t
  | (v, .ttl), .charData data =>
    match lib.time data with
    | some ttl => .ok ({ v with ttl := some ttl }, .startLine)
    | none => .error .error
  | (v, .origin), .charData data =>
    match lib.name data none with
    | some origin => .ok ({ v with origin }, .startLine)
    | none => .error .error
  | (v, .ttlClassType), .charData data => ttlClassType lib v data
  | (v, .ttlClassType), .eol => .ok (v, .startLine)
  | (v, .record recordParts), .eol => do return (← flushRecord lib recordParts v, .startLine)
  | (v, .record recordParts), .charData part => .ok (v, .record (recordParts ++ [part]))
  | (v, .record recordParts), .list parts => .ok (v, .record (recordParts ++ parts))
  | _, _ => .error .error

/-- The flush for a missing end of line. -/
def finish (lib : Library) (v : Vars) : State → Except Failure Vars
  | .record recordParts => flushRecord lib recordParts v
  | _ => .ok v

/-- `Parser::parse` -/
def parse (lib : Library) (contents : Text) (origin : DnsLabel) : Except Failure (DnsLabel × Records) := do
  let start : Vars × State := (⟨origin, .in, none, none, none, ∅⟩, .startLine)
  let (v, state) ← (lib.lexer contents).1.foldlM (step lib) start
  if (lib.lexer contents).2 then throw .error
  else do
    let v ← finish lib v state
    return (v.origin, v.records)

/-- The map as it is gone through. -/
def zoneFile (records : Records) : ZoneFile := records.toList.map fun e => (e.1, ⟨e.2, e.2⟩)

/-! ### What the map has -/

/-- **The set of an SOA is the one record** of the name and the type. -/
def Kept (records : Records) : Prop :=
  ∀ (key : RrKey) (l : List Record), records[key]? = some l → key.recordType = .soa →
    ∃ soa, l = [soa] ∧ soa.recordType = .soa ∧ soa.name.lower = key.name.label

section
variable {lib : Library} {records records' : Records} {v v' : Vars} {state state' : State}

theorem kept_empty : Kept ∅ := by
  intro key l hl
  rw [Std.TreeMap.getElem?_emptyc] at hl
  cases hl

theorem Kept.add {rtype : RecordType} {record : Record} (hrecord : record.recordType = rtype.toTrust)
    (h : Kept records) (hadd : addRecord lib rtype record records = .ok records') : Kept records' := by
  unfold addRecord at hadd
  by_cases hsoa : rtype = .soa
  · rw [if_pos hsoa] at hadd
    split_ifs at hadd
    obtain rfl := Except.ok.inj hadd
    intro key l hl htype
    rw [Std.TreeMap.getElem?_insert] at hl
    split_ifs at hl with heq
    · obtain rfl := Std.LawfulEqCmp.eq_of_compare heq
      obtain rfl := Option.some.inj hl
      exact ⟨record, rfl, htype, rfl⟩
    · exact h key l hl htype
  · rw [if_neg hsoa] at hadd
    obtain rfl := Except.ok.inj hadd
    intro key l hl htype
    rw [Std.TreeMap.getElem?_insert] at hl
    split_ifs at hl with heq
    · obtain rfl := Std.LawfulEqCmp.eq_of_compare heq
      have htype : rtype.toTrust = .soa := hrecord ▸ htype
      exact absurd (toTrust_eq_soa.mp htype) hsoa
    · exact h key l hl htype

theorem Kept.flush {recordParts : List Text} (h : Kept v.records) (hv : flushRecord lib recordParts v = .ok v') :
    Kept v'.records := by
  unfold flushRecord at hv
  rcases hrtype : v.rtype with _ | rtype
  · rw [hrtype] at hv
    cases hv
  rw [hrtype] at hv
  obtain ⟨rdata, -, hv⟩ := bind_eq_ok.mp hv
  rcases hname : v.currentName with _ | name
  · rw [hname] at hv
    cases hv
  rw [hname] at hv
  obtain ⟨⟨ttl, ttl'⟩, -, hv⟩ := bind_eq_ok.mp hv
  obtain ⟨records, hadd, hv⟩ := bind_eq_ok.mp hv
  obtain rfl := Except.ok.inj hv
  exact h.add rfl hadd

theorem Kept.startLine {t : Token} (h : Kept v.records) (hv : startLine lib v t = .ok (v', state')) :
    Kept v'.records := by
  unfold Parser.startLine at hv
  split at hv
  · cases hv; exact h
  · cases hv; exact h
  · split at hv
    · cases hv; exact h
    · cases hv
  · cases hv; exact h
  · cases hv; exact h
  · cases hv; exact h
  · cases hv

theorem Kept.ttlClassType {data : Text} (h : Kept v.records)
    (hv : ttlClassType lib v data = .ok (v', state')) : Kept v'.records := by
  have htyped : ∀ data, (match RecordType.fromStr data with
      | some rtype => Except.ok ({ v with rtype := some rtype }, State.record [])
      | none => .error Failure.error) = .ok (v', state') → Kept v'.records := by
    intro data hdata
    split at hdata
    · cases hdata; exact h
    · cases hdata
  unfold Parser.ttlClassType at hv
  dsimp only at hv
  split at hv
  · cases hv; exact h
  split_ifs at hv
  · exact htyped _ hv
  split at hv
  · cases hv; exact h
  · exact htyped _ hv

/-- One token. -/
theorem Kept.step {t : Token} (h : Kept v.records) (hv : step lib (v, state) t = .ok (v', state')) :
    Kept v'.records := by
  rcases state with _ | _ | _ | recordParts | _ | _
  case startLine => exact Kept.startLine (v := { v with rtype := none }) h hv
  case includeFile => cases hv
  all_goals rcases t with _ | parts | data | _ | _ | _ | _ | _
  all_goals try cases hv
  case ttlClassType.charData => exact Kept.ttlClassType h hv
  case ttlClassType.eol => exact h
  case ttl.charData =>
    change (match lib.time data with | some ttl => _ | none => _) = _ at hv
    split at hv
    · cases hv; exact h
    · cases hv
  case origin.charData =>
    change (match lib.name data none with | some origin => _ | none => _) = _ at hv
    split at hv
    · cases hv; exact h
    · cases hv
  case record.list => exact h
  case record.charData => exact h
  case record.eol =>
    obtain ⟨v1, hv1, hv⟩ := bind_eq_ok.mp hv
    obtain ⟨rfl, -⟩ := Prod.mk.inj (Except.ok.inj hv)
    exact Kept.flush h hv1

/-- All of them. -/
theorem Kept.foldlM {tokens : List Token} {vs vs' : Vars × State} (h : Kept vs.1.records)
    (hv : tokens.foldlM (Parser.step lib) vs = .ok vs') : Kept vs'.1.records := by
  induction tokens generalizing vs with
  | nil =>
    obtain rfl := Except.ok.inj hv
    exact h
  | cons t tokens ih =>
    rw [List.foldlM_cons] at hv
    obtain ⟨vs1, h1, hv⟩ := bind_eq_ok.mp hv
    exact ih (Kept.step h h1) hv

/-- **What is parsed keeps an SOA as the one record of its set.** -/
theorem kept_of_parse {contents : Text} {origin origin' : DnsLabel}
    (hparse : parse lib contents origin = .ok (origin', records)) : Kept records := by
  unfold parse at hparse
  dsimp only at hparse
  obtain ⟨⟨v, state⟩, hfold, hparse⟩ := bind_eq_ok.mp hparse
  have hkept : Kept v.records := Kept.foldlM kept_empty hfold
  split_ifs at hparse
  obtain ⟨v', hfinish, hparse⟩ := bind_eq_ok.mp hparse
  obtain ⟨-, rfl⟩ := Prod.mk.inj (Except.ok.inj hparse)
  unfold finish at hfinish
  split at hfinish
  · exact Kept.flush hkept hfinish
  · obtain rfl := Except.ok.inj hfinish
    exact hkept

end

end HexDns.Axfr.Parser
