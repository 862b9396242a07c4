import HexDns.Grpc.Lookup
import HexDns.Tasks.Denoted
import HexDns.Tasks.Isolation
import Mathlib.Data.Int.Log
import Mathlib.Data.Rat.Floor

/-! # The export of a zone

`export_zone_file` of `views/fzone.py` prints the resource records that the models make of the rows;
`generate_fzone` writes the lines that are served from the columns. `shows_of_exportable` says for which
zones the two files have the same records. The IPv6 address of a dynamic row is not exported
(`not_shows_ipv6`): both of its records are made by `to_rr_v4`. -/

namespace HexDns.Views.Export

open HexDns.Lib.Texts HexDns.Lib.MasterFile HexDns.Lib.Tables HexDns.Lib.Programs HexDns.Base.Py
  HexDns.Base.Codecs HexDns.Base.Label HexDns.Base.Message HexDns.Models.Db HexDns.Models.Env
  HexDns.Models.Convert HexDns.Models.Names HexDns.Models.Validators HexDns.Grpc.Lookup
  HexDns.Tasks.ZoneFile HexDns.Tasks.Published HexDns.Tasks.Frame HexDns.Tasks.Lines
  HexDns.Tasks.Quoting HexDns.Tasks.Addresses HexDns.Tasks.Denoted HexDns.Tasks.Isolation

section
variable (h : Host)

/-! ### The exported file -/

/-- `dns_label` -/
def dnsLabel (zone : Zone) (self : Row) : Except PyErr DnsLabel :=
  match self.data with
  | .https data =>
    let recordName := svcbRecordName h self.recordName data
    if recordName = some ['@'] then DnsLabel.ofText h.py zone.zoneRoot
    else DnsLabel.ofText h.py (showOption recordName ++ '.' :: zone.zoneRoot)
  | _ =>
    if self.recordName = ['@'] then DnsLabel.ofText h.py zone.zoneRoot
    else DnsLabel.ofText h.py (showOption (idnaLabel h self.recordName) ++ '.' :: zone.zoneRoot)

/-- `GitHubPagesRecord.to_rrs_v4`; `to_rrs_v6` returns nothing. -/
def githubRrsV4 (self : Row) (queryName : DnsLabel) : List Rr :=
  [ipv4 185 199 108 153, ipv4 185 199 109 153, ipv4 185 199 110 153, ipv4 185 199 111 153].filterMap
    (addressRr · .a self.ttl queryName)

/-- `record.to_rr(record.dns_label).toZone()`: nothing has no `toZone`. -/
def oneRr : Option Rr → Except PyErr (List Rr)
  | some rr => .ok [rr]
  | none => .error .attributeError

/-- The resource records of a row under its label. The records of a dynamic row are both made by
`to_rr_v4`. -/
def rowRrs (self : Row) (label : DnsLabel) : Except PyErr (List Rr) :=
  match self.data with
  | .dynamicAddress .. =>
    let v4Rr := dynamicRr self .a label
    let v6Rr := dynamicRr self .a label
    .ok (v4Rr.toList ++ v6Rr.toList)
  | .sshfp _ => sshfpRrs h self label
  | .githubPages => .ok (githubRrsV4 self label)
  | _ => (toRr h self label).bind oneRr

/-- `dnslib.RR("@", dnslib.QTYPE.NS, rdata=dnslib.NS(ns.nameserver), ttl=86400)` -/
def customNsRr (ns : CustomNs) : Except PyErr Rr := do
  return ⟨.at, .ns, .in, 86400, .ns (← DnsLabel.ofText h.py ns.nameserver)⟩

/-- The record classes in the order of `export_zone_file`. -/
def exportedModels : List Model :=
  [.dynamicAddress, .address, .cname, .mx, .ns, .txt, .srv, .caa, .naptr, .ds, .loc, .hinfo, .rp,
    .https, .sshfp, .githubPages]

/-- `export_zone_file`: the records that it prints with `toZone`, after the line of the origin -/
def exportZoneFile (st : Store) (zone : Zone) : Except PyErr (List Rr) := do
  let ns ← (st.customNs.rows.filter fun ns => ns.dnsZone = zone.id).mapM (customNsRr h)
  let rrs ← (exportedModels.flatMap (rowsOf st zone)).mapM fun self => do
    rowRrs h self (← dnsLabel h zone self)
  return ns ++ rrs.flatten

/-! ### The rdata of the classes of the repository -/

/-- `int(q)` -/
def truncate (q : ℚ) : ℤ := if 0 ≤ q then ⌊q⌋ else -⌊-q⌋

/-- `enc_size` of `LOC.pack` -/
def encSize (value : ℚ) : ℤ :=
  let sizeExp := if value ≠ 0 then Int.log 10 value else 0
  let sizeMan := truncate (value / 10 ^ sizeExp)
  16 * sizeMan % 256 + sizeExp % 16

/-- `LOC.pack`, with exact numbers in the place of floats -/
def locWire (lat long altitude size hp vp : ℚ) : Option Bytes := do
  return [0] ++ (← uint 1 (encSize (size * 100))) ++ (← uint 1 (encSize (hp * 100))) ++
    (← uint 1 (encSize (vp * 100))) ++ (← uint 4 (truncate (lat * 3600 * 1000) + 2 ^ 31)) ++
    (← uint 4 (truncate (long * 3600 * 1000) + 2 ^ 31)) ++
    (← uint 4 (truncate ((altitude + 100000) * 100)))

/-- `pack` of an rdata object, with names in lower case -/
def packedRdata : Rdata → Option Bytes
  | .sshfp algorithm fingerprintType fingerprint => do
    return (← uint 1 algorithm) ++ (← uint 1 fingerprintType) ++ fingerprint
  | .ds keyTag algorithm digestType digest => do
    return (← uint 2 keyTag) ++ (← uint 1 algorithm) ++ (← uint 1 digestType) ++ digest
  | .loc lat long altitude size hp vp => locWire lat long altitude size hp vp
  | .rp mbox txt => some (nameWire mbox.label ++ nameWire txt.label)
  | .dhcid data => some data
  | .svcb priority target params =>
    ((DnsLabel.ofText h.py target).bind h.encodeName).toOption.map fun target =>
      packUint 2 priority ++ target ++ params
  | x => rdataWire x

/-- The record that a resource record is; `toZone` prints it. -/
def printed (rr : Rr) : Option Denoted :=
  (packedRdata h rr.rdata).map fun rdata => ⟨rr.rname.lower, rr.ttl, rr.rclass, rr.rtype, rdata⟩

/-! ### The statement -/

/-- The resource records and the records of a text are the same: each is one of the others. -/
def SameRecords (origin : List Bytes) (rrs : List Rr) (rs : List Record) : Prop :=
  (∀ rr ∈ rrs, ∃ x, printed h rr = some x ∧ ∃ r ∈ rs, denoted origin r = some x) ∧
    ∀ r ∈ rs, ∃ x, denoted origin r = some x ∧ ∃ rr ∈ rrs, printed h rr = some x

/-- A record of the header that is not left out: name servers count if they are not the default ones. -/
def Counts (customNs : List CustomNs) (r : Record) : Bool :=
  r.rtype ∉ ["SOA", "CDS", "CDNSKEY"].map (fun t => encode t.toList) &&
    (r.rtype = encode "NS".toList → customNs ≠ [])

/-- **The export shows what is published**: the records of the exported file are those of the zone file,
but for what is left out of the header. -/
def Shows (st : Store) (time : ℕ) (zone : Zone) : Prop :=
  ∃ zoneRoot header text hs rs rrs, DnsLabel.ofText h.py zone.zoneRoot = .ok zoneRoot ∧
    generateZoneHeader h st time zone zoneRoot = .ok header ∧ records [] header = some hs ∧
    generateFzone h st time zone = .ok text ∧ records [] text = some (hs ++ rs) ∧
    exportZoneFile h st zone = .ok rrs ∧
    SameRecords h zoneRoot.label rrs
      (hs.filter (Counts (st.customNs.rows.filter fun ns => ns.dnsZone = zone.id)) ++ rs)

/-! ### The condition on the rows -/

/-- The text is a name that is printed as itself. -/
def IsName (t : Text) : Prop := ∃ l, DnsLabel.ofText h.py t = .ok l ∧ IsPrinted l

/-- The text is a string that is written as itself, with at most 255 bytes. -/
def IsString (t : Text) : Prop := '\\' ∉ t ∧ (encode t).length < 256

/-- The columns are exported as they are written. -/
def SameData (zoneRoot : DnsLabel) : RecordData → Prop
  | .address address _ => address.isSome = true
  | .dynamicAddress _ currentIpv6 _ => currentIpv6 = none
  | .cname aliasName => ∃ l target, DnsLabel.ofText h.py aliasName = .ok l ∧
      cnameTarget h zoneRoot aliasName = .ok (some target) ∧ target.Eqv l ∧ IsPrinted target
  | .mx exchange priority => priority < 65536 ∧ IsName h exchange
  | .ns nameserver => IsName h nameserver
  | .txt data => data ≠ [] ∧ IsString data
  | .srv priority weight port target =>
    priority < 65536 ∧ weight < 65536 ∧ port < 65536 ∧ IsName h target
  | .caa flag tag value => flag < 256 ∧ IsString tag ∧ '\\' ∉ value
  | .naptr order preference flags service regexp replacement => ∃ (o p : ℕ) (f s r t : Text),
      order = .int o ∧ preference = .int p ∧ o < 65536 ∧ p < 65536 ∧ flags = .str f ∧ service = .str s ∧
        regexp = .str r ∧ replacement = .str t ∧ IsString f ∧ IsString s ∧ IsString r ∧ IsName h t
  | .sshfp hostKey => ∃ key, h.sshKey hostKey = .ok key
  | .ds keyTag algorithm digestType digest => keyTag < 65536 ∧ algorithm < 256 ∧ digestType < 256 ∧
      ∃ ks b, Closes zoneRoot.label digest ks [] ∧ tokensHex ks = some b ∧
        digestBin digest = .ok (some b) ∧ b ≠ []
  | .loc latitude longitude altitude size hp vp =>
    (∀ t ∈ locWords h latitude longitude altitude size hp vp, IsPlain t) ∧ ∃ b,
      readLoc ((locWords h latitude longitude altitude size hp vp).map .word) = some b ∧
        locWire latitude longitude altitude size hp vp = some b
  | .hinfo cpu os => IsString cpu ∧ IsString os
  | .rp mailbox txt => IsName h mailbox ∧ IsName h txt
  | .https data => ∃ l target params, DnsLabel.ofText h.py data.target = .ok l ∧
      h.encodeName l = .ok target ∧ h.svcbParams data = .ok params
  | .aname _ | .redirect | .dnskey .. | .dhcid _ | .githubPages => False

/-- The owner is written as a word that is read as the label of the row. -/
def SameOwner (zone : Zone) (zoneRoot : DnsLabel) (self : Row) : Prop :=
  ∃ owner o labels l, ownerText h self = some owner ∧ Spells owner o ∧ NoDirective o ∧
    readName zoneRoot.label o = some labels ∧ dnsLabel h zone self = .ok l ∧ l.Eqv ⟨labels⟩

/-- Neither of the files has a record of the row. -/
def IsSilent (st : Store) (zone : Zone) (zoneRoot : DnsLabel) (self : Row) : Prop :=
  match self.data with
  | .aname aliasName => ownerText h self = none ∨ anameAddresses h st zone zoneRoot self aliasName = .ok []
  | .redirect | .dnskey .. | .dhcid _ => ownerText h self = none
  | .dynamicAddress none currentIpv6 _ =>
    (ownerText h self = none ∨ currentIpv6 = none) ∧ ∃ l, dnsLabel h zone self = .ok l
  | .sshfp hostKey => (∃ key, h.sshKey hostKey = .ok key ∧ sshAlgoNum key.1 = none) ∧
      ∃ l, dnsLabel h zone self = .ok l
  | _ => False

/-- The row has the same records in both files. -/
def ExportableRow (st : Store) (zone : Zone) (zoneRoot : DnsLabel) (self : Row) : Prop :=
  IsSilent h st zone zoneRoot self ∨ (SameOwner h zone zoneRoot self ∧ SameData h zoneRoot self.data)

/-- **The condition on the rows of a zone**: the header can be read, there are no name servers in it but
the default ones, and the other rows have the same records in both files. -/
structure Exportable (st : Store) (zone : Zone) (zoneRoot : DnsLabel) : Prop where
  root : DnsLabel.ofText h.py zone.zoneRoot = .ok zoneRoot
  head : HasHead zoneRoot.label
  bytes : ∀ m ∈ zoneRoot.label, ∀ b ∈ m, CleanByte b
  valid : validLabels zoneRoot.label = true
  digest : zone.cdsDisable = false → ∃ name, h.encodeName zoneRoot = .ok name
  customNs : ∀ ns ∈ st.customNs, ns.dnsZone ≠ zone.id
  additionalCds : zone.cdsDisable = false → ∀ cds ∈ st.additionalCds, cds.dnsZone = zone.id →
    EndsLine zoneRoot.label cds.digest
  additionalCdnskey : zone.cdsDisable = false → ∀ cdnskey ∈ st.additionalCdnskey,
    cdnskey.dnsZone = zone.id → EndsLine zoneRoot.label cdnskey.publicKey
  rows : ∀ r ∈ st.records, r.zone = zone.id → ExportableRow h st zone zoneRoot r

end

/-! ### A record and its resource record -/

section
variable {h : Host} {st : Store} {zone : Zone} {zoneRoot label : DnsLabel} {self : Row}

/-- The line of the record, and the resource record under the label, are the same record. -/
def Match (h : Host) (origin : List Bytes) (label : DnsLabel) (ttl : ℕ) (record : Published) (rr : Rr) :
    Prop :=
  record.1 ∈ rowTypes ∧ ∃ x ks wire, rr = ⟨label, record.1, .in, ttl, x⟩ ∧
    Closes origin (rdataText record) ks [] ∧ tokensRdata origin record.1 ks = some wire ∧
      packedRdata h x = some wire

/-- Each record has its resource record, and the other way round. -/
def Paired (h : Host) (origin : List Bytes) (label : DnsLabel) (ttl : ℕ) (records : List Published)
    (rrs : List Rr) : Prop :=
  (∀ record ∈ records, ∃ rr ∈ rrs, Match h origin label ttl record rr) ∧
    ∀ rr ∈ rrs, ∃ record ∈ records, Match h origin label ttl record rr

theorem Match.paired {origin : List Bytes} {ttl : ℕ} {record : Published} {rr : Rr}
    (hm : Match h origin label ttl record rr) : Paired h origin label ttl [record] [rr] := by
  refine ⟨fun record' hmem => ?_, fun rr' hmem => ?_⟩
  · obtain rfl := List.mem_singleton.mp hmem
    exact ⟨rr, List.mem_singleton_self rr, hm⟩
  · obtain rfl := List.mem_singleton.mp hmem
    exact ⟨record, List.mem_singleton_self record, hm⟩

/-- A record whose fields are words. -/
theorem match_fields {origin : List Bytes} {ttl : ℕ} {rtype : QType} (ht : rtype ∈ rowTypes)
    {fields : List Field} {ks : List Token} (hs : List.Forall₂ (fun f k => Spells f.text k) fields ks)
    {x : Rdata} {wire : Bytes} (hks : tokensRdata origin rtype ks = some wire)
    (hx : packedRdata h x = some wire) :
    Match h origin label ttl (rtype, fields) ⟨label, rtype, .in, ttl, x⟩ :=
  ⟨ht, x, ks, wire, rfl, closes_fields origin hs, hks, hx⟩

theorem isPlain_ipv4Text (a : BitVec 32) : IsPlain (ipv4Text a) := by
  refine ⟨fun hnil => ?_, isSpecial_ipv4Text a⟩
  have hread := readIpv4_ipv4Text a
  have hnone : readIpv4 [] = none := by decide
  rw [hnil, hnone] at hread
  cases hread

theorem isPlain_ipv6Text (a : BitVec 128) : IsPlain (ipv6Text a) := by
  refine ⟨fun hnil => ?_, isSpecial_ipv6Text a⟩
  have hread := readIpv6_ipv6Text a
  have hnone : readIpv6 [] = none := by decide
  rw [hnil, hnone] at hread
  cases hread

theorem match_address (h : Host) (origin : List Bytes) (label : DnsLabel) (ttl : ℕ) (a : IpAddr) :
    ∃ rr, addressRr a (addressRdata a).1 ttl label = some rr ∧
      Match h origin label ttl (addressRdata a) rr := by
  rcases a with a | a
  · have hks : tokensRdata origin .a [plainToken (ipv4Text a)] = some (packUint 4 a.toNat) := by
      rw [tokensRdata_a, wordText_plainToken, Option.bind_some, readIpv4_ipv4Text, Option.map_some]
    have hspells : Spells (Field.text (.address (.v4 a))) (plainToken (ipv4Text a)) :=
      spells_plain (isPlain_ipv4Text a)
    exact ⟨⟨label, .a, .in, ttl, .a a⟩, rfl, match_fields (by decide) (.cons hspells .nil) hks rfl⟩
  · have hks : tokensRdata origin .aaaa [plainToken (ipv6Text a)] = some (packUint 16 a.toNat) := by
      rw [tokensRdata_aaaa, wordText_plainToken, Option.bind_some, readIpv6_ipv6Text, Option.map_some]
    have hspells : Spells (Field.text (.address (.v6 a))) (plainToken (ipv6Text a)) :=
      spells_plain (isPlain_ipv6Text a)
    exact ⟨⟨label, .aaaa, .in, ttl, .aaaa a⟩, rfl, match_fields (by decide) (.cons hspells .nil) hks rfl⟩

/-! ### A row in both files -/

/-- The row is written as the records that it is exported as. -/
def SameRow (h : Host) (st : Store) (zone : Zone) (zoneRoot : DnsLabel) (self : Row) (label : DnsLabel) :
    Prop :=
  ∃ records rrs, published h st zone zoneRoot self = .ok records ∧ rowRrs h self label = .ok rrs ∧
    Paired h zoneRoot.label label self.ttl (records.getD []) rrs

theorem sameRow_one (record : Published) (x : Rdata)
    (hp : published h st zone zoneRoot self = .ok (some [record]))
    (hrow : rowRrs h self label = (toRr h self label).bind oneRr)
    (hx : toRdata h self.data = .ok (some (record.1, x)))
    (hm : Match h zoneRoot.label label self.ttl record ⟨label, record.1, .in, self.ttl, x⟩) :
    SameRow h st zone zoneRoot self label := by
  refine ⟨_, _, hp, ?_, hm.paired⟩
  rw [hrow, toRr_eq_some.mpr ⟨record.1, x, hx, rfl⟩]
  rfl

theorem fits_eq {bits n : ℕ} (hn : n < 2 ^ bits) : fits bits n = .ok n := if_pos hn

theorem uint_natCast {bytes n : ℕ} (hn : n < 256 ^ bytes) : uint bytes n = some (packUint bytes n) := by
  rw [uint, if_pos ⟨by omega, by exact_mod_cast hn⟩, Int.toNat_natCast]

theorem sameRow_address {a : IpAddr} {autoReverse : Bool}
    (hself : self.data = .address (some a) autoReverse) : SameRow h st zone zoneRoot self label := by
  obtain ⟨rr, hrr, hm⟩ := match_address h zoneRoot.label label self.ttl a
  refine ⟨some [addressRdata a], [rr], ?_, ?_, hm.paired⟩
  · unfold published
    rw [hself]
  · unfold rowRrs toRr
    rw [hself]
    rcases a with a | a
    · exact congrArg (fun rr => Except.ok [rr]) (Option.some.inj hrr)
    · exact congrArg (fun rr => Except.ok [rr]) (Option.some.inj hrr)

theorem sameRow_dynamicAddress {currentIpv4 : Option (BitVec 32)} {password : Text}
    (hself : self.data = .dynamicAddress currentIpv4 none password) :
    SameRow h st zone zoneRoot self label := by
  refine ⟨_, _, by unfold published; rw [hself], by unfold rowRrs; rw [hself], ?_⟩
  rcases currentIpv4 with _ | a
  · have hnone : dynamicRr self .a label = none := by
      unfold dynamicRr
      rw [hself]
    rw [hnone]
    exact ⟨fun record hmem => (nomatch hmem), fun rr hmem => (nomatch hmem)⟩
  · obtain ⟨rr, hrr, hm⟩ := match_address h zoneRoot.label label self.ttl (.v4 a)
    have hsome : dynamicRr self .a label = some rr := by
      rw [← hrr]
      unfold dynamicRr
      rw [hself]
      rfl
    rw [hsome]
    -- the record is exported twice
    refine ⟨fun record hmem => ?_, fun rr' hmem => ?_⟩
    · obtain rfl := List.mem_singleton.mp hmem
      exact ⟨rr, List.mem_cons_self, hm⟩
    · obtain rfl : rr' = rr := by simpa using hmem
      exact ⟨_, List.mem_singleton_self _, hm⟩

theorem sameRow_cname {aliasName : Text} {l target : DnsLabel} (hself : self.data = .cname aliasName)
    (hl : DnsLabel.ofText h.py aliasName = .ok l)
    (htarget : cnameTarget h zoneRoot aliasName = .ok (some target)) (heqv : target.Eqv l)
    (hprint : IsPrinted target) : SameRow h st zone zoneRoot self label := by
  obtain ⟨k, hk, hwire⟩ := hprint.spells zoneRoot.label
  refine sameRow_one (.cname, [.name target]) (.cname l) ?_ ?_ ?_
    (match_fields (by decide) (.cons hk .nil) hwire (congrArg some (nameWire_congr heqv).symm))
  · unfold published
    rw [hself]
    show (cnameTarget h zoneRoot aliasName >>= _) = _
    rw [htarget]
    rfl
  · unfold rowRrs
    rw [hself]
  · rw [hself]
    show (DnsLabel.ofText h.py aliasName >>= _) = _
    rw [hl]
    rfl

theorem sameRow_mx {exchange : Text} {priority : ℕ} (hself : self.data = .mx exchange priority)
    (hp : priority < 65536) (hname : IsName h exchange) : SameRow h st zone zoneRoot self label := by
  obtain ⟨l, hl, hprint⟩ := hname
  obtain ⟨k, hk, hwire⟩ := hprint.spells zoneRoot.label
  have hks : tokensRdata zoneRoot.label .mx [plainToken (showNat priority), k] =
      some (packUint 2 priority ++ nameWire l.label) := by
    rw [tokensRdata_mx, tokenUint_showNat (by omega), hwire]
    rfl
  refine sameRow_one (.mx, [.num priority, .name l]) (.mx priority l) ?_ ?_ ?_
    (match_fields (by decide) (.cons (spells_num priority) (.cons hk .nil)) hks rfl)
  · unfold published
    rw [hself]
    show (DnsLabel.ofText h.py exchange >>= _) = _
    rw [hl]
    rfl
  · unfold rowRrs
    rw [hself]
  · rw [hself]
    show (fits 16 priority >>= _) = _
    rw [fits_eq (by omega)]
    show (DnsLabel.ofText h.py exchange >>= _) = _
    rw [hl]
    rfl

theorem sameRow_ns {nameserver : Text} (hself : self.data = .ns nameserver)
    (hname : IsName h nameserver) : SameRow h st zone zoneRoot self label := by
  obtain ⟨l, hl, hprint⟩ := hname
  obtain ⟨k, hk, hwire⟩ := hprint.spells zoneRoot.label
  refine sameRow_one (.ns, [.name l]) (.ns l) ?_ ?_ ?_
    (match_fields (by decide) (.cons hk .nil) hwire rfl)
  · unfold published
    rw [hself]
    show (DnsLabel.ofText h.py nameserver >>= _) = _
    rw [hl]
    rfl
  · unfold rowRrs
    rw [hself]
  · rw [hself]
    show (DnsLabel.ofText h.py nameserver >>= _) = _
    rw [hl]
    rfl

theorem spells_str {t : Text} (ht : '\\' ∉ t) : Spells (Field.text (.str t)) (stringToken t) :=
  (reads_quoted ht).spells

theorem counted_stringToken {t : Text} (ht : IsString t) :
    counted (stringToken t).bytes = some (UInt8.ofNat (encode t).length :: encode t) := by
  rw [bytes_stringToken]
  exact counted_eq_some ht.2

/-- A text that fits into one string is one chunk. -/
theorem chunks_of_length {data : Text} (hne : data ≠ []) (hlen : data.length < 256) :
    chunks data = [data] := by
  have hpos : 0 < data.length := List.length_pos_iff.mpr hne
  have hcount : (data.length + 254) / 255 = 1 := by omega
  unfold chunks
  rw [hcount]
  show [(data.drop (255 * 0)).take 255] = [data]
  rw [Nat.mul_zero, List.drop_zero, List.take_of_length_le (by omega)]

theorem sameRow_txt {data : Text} (hself : self.data = .txt data) (hne : data ≠ [])
    (hdata : IsString data) : SameRow h st zone zoneRoot self label := by
  have hks : tokensRdata zoneRoot.label .txt [stringToken data] =
      some (UInt8.ofNat (encode data).length :: encode data) := by
    rw [tokensRdata_txt, if_neg (by simp), List.mapM_cons, counted_stringToken hdata]
    simp
  have hle := length_le_encode data
  have hlt := hdata.2
  refine sameRow_one (.txt, [.str data]) (.txt [encode data]) ?_ ?_ ?_
    (match_fields (by decide) (.cons (spells_str hdata.1) .nil) hks ?_)
  · unfold published
    rw [hself]
  · unfold rowRrs
    rw [hself]
  · rw [hself]
    show (txtRdata ((chunks data).map encode) >>= _) = _
    rw [chunks_of_length hne (by omega), txtRdata, if_pos]
    · rfl
    · intro s hs
      obtain rfl := List.mem_singleton.mp hs
      omega
  · simp [packedRdata, rdataWire]

theorem sameRow_srv {priority weight port : ℕ} {target : Text}
    (hself : self.data = .srv priority weight port target) (hp : priority < 65536) (hw : weight < 65536)
    (ho : port < 65536) (hname : IsName h target) : SameRow h st zone zoneRoot self label := by
  obtain ⟨l, hl, hprint⟩ := hname
  obtain ⟨k, hk, hwire⟩ := hprint.spells zoneRoot.label
  have hks : tokensRdata zoneRoot.label .srv
      [plainToken (showNat priority), plainToken (showNat weight), plainToken (showNat port), k] =
      some (packUint 2 priority ++ packUint 2 weight ++ packUint 2 port ++ nameWire l.label) := by
    rw [tokensRdata_srv, tokenUint_showNat (by omega), tokenUint_showNat (by omega),
      tokenUint_showNat (by omega), hwire]
    rfl
  refine sameRow_one (.srv, [.num priority, .num weight, .num port, .name l])
    (.srv priority weight port l) ?_ ?_ ?_ (match_fields (by decide) (.cons (spells_num priority)
      (.cons (spells_num weight) (.cons (spells_num port) (.cons hk .nil)))) hks rfl)
  · unfold published
    rw [hself]
    show (DnsLabel.ofText h.py target >>= _) = _
    rw [hl]
    rfl
  · unfold rowRrs
    rw [hself]
  · rw [hself]
    show (fits 16 priority >>= fun _ => fits 16 weight >>= fun _ => fits 16 port >>= _) = _
    rw [fits_eq (by omega), fits_eq (by omega), fits_eq (by omega)]
    show (DnsLabel.ofText h.py target >>= _) = _
    rw [hl]
    rfl

theorem sameRow_caa {flag : ℕ} {tag value : Text} (hself : self.data = .caa flag tag value)
    (hf : flag < 256) (htag : IsString tag) (hvalue : '\\' ∉ value) :
    SameRow h st zone zoneRoot self label := by
  have hks : tokensRdata zoneRoot.label .caa
      [plainToken (showNat flag), stringToken tag, stringToken value] =
      some (packUint 1 flag ++ UInt8.ofNat (encode tag).length :: encode tag ++ encode value) := by
    rw [tokensRdata_caa, tokenUint_showNat (by omega), counted_stringToken htag, bytes_stringToken]
    rfl
  refine sameRow_one (.caa, [.num flag, .str tag, .str value]) (.caa flag tag value) ?_ ?_ ?_
    (match_fields (by decide) (.cons (spells_num flag) (.cons (spells_str htag.1)
      (.cons (spells_str hvalue) .nil))) hks rfl)
  · unfold published
    rw [hself]
  · unfold rowRrs
    rw [hself]
  · rw [hself]
    show (fits 8 flag >>= _) = _
    rw [fits_eq (by omega)]
    rfl

theorem sameRow_naptr {o p : ℕ} {f s r t : Text}
    (hself : self.data = .naptr (.int o) (.int p) (.str f) (.str s) (.str r) (.str t))
    (ho : o < 65536) (hp : p < 65536) (hf : IsString f) (hs : IsString s) (hr : IsString r)
    (hname : IsName h t) : SameRow h st zone zoneRoot self label := by
  obtain ⟨l, hl, hprint⟩ := hname
  obtain ⟨k, hk, hwire⟩ := hprint.spells zoneRoot.label
  have hcounted : ∀ {u : Text}, IsString u → counted (encode u) =
      some (UInt8.ofNat (encode u).length :: encode u) := fun hu => counted_eq_some hu.2
  have hks : tokensRdata zoneRoot.label .naptr [plainToken (showNat o), plainToken (showNat p),
      stringToken f, stringToken s, stringToken r, k] = some (packUint 2 o ++ packUint 2 p ++
        (UInt8.ofNat (encode f).length :: encode f) ++ (UInt8.ofNat (encode s).length :: encode s) ++
        (UInt8.ofNat (encode r).length :: encode r) ++ nameWire l.label) := by
    rw [tokensRdata_naptr, tokenUint_showNat (by omega), tokenUint_showNat (by omega), counted_stringToken hf,
      counted_stringToken hs, counted_stringToken hr, hwire]
    rfl
  have hx : packedRdata h (.naptr o p (.str f) (.str s) (.str r) l) = some (packUint 2 o ++ packUint 2 p ++
        (UInt8.ofNat (encode f).length :: encode f) ++ (UInt8.ofNat (encode s).length :: encode s) ++
        (UInt8.ofNat (encode r).length :: encode r) ++ nameWire l.label) := by
    have hpack : packedRdata h (.naptr o p (.str f) (.str s) (.str r) l) =
        rdataWire (.naptr o p (.str f) (.str s) (.str r) l) := rfl
    rw [hpack, rdataWire]
    simp only [valBytes, Option.bind_some, hcounted hf, hcounted hs, hcounted hr]
    rfl
  refine sameRow_one (.naptr, [.num o, .num p, .str f, .str s, .str r, .name l])
    (.naptr o p (.str f) (.str s) (.str r) l) ?_ ?_ ?_ (match_fields (by decide) (.cons (spells_num o)
      (.cons (spells_num p) (.cons (spells_str hf.1) (.cons (spells_str hs.1) (.cons (spells_str hr.1)
        (.cons hk .nil)))))) hks hx)
  · unfold published
    rw [hself]
    have hlabel : labelVal h (.str t) = .ok (.name l) := by
      show (DnsLabel.ofText h.py t).map Field.name = _
      rw [hl]
      rfl
    show (labelVal h (.str t) >>= _) = _
    rw [hlabel]
    rfl
  · unfold rowRrs
    rw [hself]
  · rw [hself]
    show (naptrRdata h (.int o) (.int p) (.str f) (.str s) (.str r) (.str t) >>= _) = _
    unfold naptrRdata
    show ((fits 16 o >>= fun _ => fits 16 p >>= _) >>= _) = _
    rw [fits_eq (by omega), fits_eq (by omega)]
    show ((DnsLabel.ofText h.py t >>= _) >>= _) = _
    rw [hl]
    rfl

theorem sshAlgoNum_lt {keyType : Bytes} {n : ℕ} (hn : sshAlgoNum keyType = some n) : n < 256 := by
  unfold sshAlgoNum at hn
  split_ifs at hn <;> obtain rfl := Option.some.inj hn <;> omega

theorem sameRow_sshfp {hostKey : Text} {keyType decodedKey : Bytes} (hself : self.data = .sshfp hostKey)
    (hkey : h.sshKey hostKey = .ok (keyType, decodedKey)) : SameRow h st zone zoneRoot self label := by
  have hpublished : published h st zone zoneRoot self = .ok ((sshAlgoNum keyType).map fun n =>
      [(.sshfp, [.num n, .num 1, .word (hexlify (h.sha1 decodedKey))]),
        (.sshfp, [.num n, .num 2, .word (hexlify (h.sha256 decodedKey))])]) := by
    unfold published
    rw [hself]
    show (h.sshKey hostKey >>= _) = _
    rw [hkey]
    rfl
  have hrow : rowRrs h self label = .ok (((sshAlgoNum keyType).map fun n =>
      [⟨label, .sshfp, .in, self.ttl, .sshfp n 1 (h.sha1 decodedKey)⟩,
        ⟨label, .sshfp, .in, self.ttl, .sshfp n 2 (h.sha256 decodedKey)⟩]).getD []) := by
    unfold rowRrs
    rw [hself]
    show sshfpRrs h self label = _
    unfold sshfpRrs
    rw [hself]
    show (h.sshKey hostKey >>= _) = _
    rw [hkey]
    rfl
  refine ⟨_, _, hpublished, hrow, ?_⟩
  rcases hn : sshAlgoNum keyType with _ | n
  · exact ⟨fun record hmem => (nomatch hmem), fun rr hmem => (nomatch hmem)⟩
  have hlt := sshAlgoNum_lt hn
  have hmatch : ∀ (i : ℕ) (b : Bytes), i < 256 → Match h zoneRoot.label label self.ttl
      (.sshfp, [.num n, .num i, .word (hexlify b)]) ⟨label, .sshfp, .in, self.ttl, .sshfp n i b⟩ := by
    intro i b hi
    obtain ⟨ks, hclose, hhex⟩ := closes_hexlify zoneRoot.label b
    refine ⟨show QType.sshfp ∈ rowTypes by decide, .sshfp n i b, [plainToken (showNat n), plainToken (showNat i)] ++ ks,
      packUint 1 n ++ packUint 1 i ++ b, rfl, ?_, ?_, ?_⟩
    · exact closes_fields_after (f := .word (hexlify b)) (.cons (spells_num n) (.cons (spells_num i) .nil))
        (by simp) hclose
    · show tokensRdata _ .sshfp (plainToken (showNat n) :: plainToken (showNat i) :: ks) = _
      rw [tokensRdata_sshfp, tokenUint_showNat (by omega), tokenUint_showNat (by omega), hhex]
      rfl
    · rw [packedRdata, uint_natCast (by omega), uint_natCast (by omega)]
      rfl
  refine ⟨fun record hmem => ?_, fun rr hmem => ?_⟩
  · rcases List.mem_pair.mp hmem with rfl | rfl
    · exact ⟨_, List.mem_cons_self, hmatch 1 _ (by omega)⟩
    · exact ⟨_, List.mem_cons_of_mem _ List.mem_cons_self, hmatch 2 _ (by omega)⟩
  · rcases List.mem_pair.mp hmem with rfl | rfl
    · exact ⟨_, List.mem_cons_self, hmatch 1 _ (by omega)⟩
    · exact ⟨_, List.mem_cons_of_mem _ List.mem_cons_self, hmatch 2 _ (by omega)⟩

theorem sameRow_ds {keyTag algorithm digestType : ℕ} {digest : Text} {ks : List Token} {b : Bytes}
    (hself : self.data = .ds keyTag algorithm digestType digest) (hk : keyTag < 65536)
    (ha : algorithm < 256) (hd : digestType < 256) (hclose : Closes zoneRoot.label digest ks [])
    (hhex : tokensHex ks = some b) (hbin : digestBin digest = .ok (some b)) (hb : b ≠ []) :
    SameRow h st zone zoneRoot self label := by
  obtain ⟨x, b, rfl⟩ := List.exists_cons_of_ne_nil hb
  refine sameRow_one (.ds, [.num keyTag, .num algorithm, .num digestType, .word digest])
    (.ds keyTag algorithm digestType (x :: b)) ?_ ?_ ?_ ⟨show QType.ds ∈ rowTypes by decide, _,
      [plainToken (showNat keyTag), plainToken (showNat algorithm), plainToken (showNat digestType)] ++ ks,
      packUint 2 keyTag ++ packUint 1 algorithm ++ packUint 1 digestType ++ x :: b, rfl, ?_, ?_, ?_⟩
  · unfold published
    rw [hself]
  · unfold rowRrs
    rw [hself]
  · rw [hself]
    show (digestBin digest >>= _) = _
    rw [hbin]
    rfl
  · exact closes_fields_after (f := .word digest) (.cons (spells_num keyTag) (.cons (spells_num algorithm)
      (.cons (spells_num digestType) .nil))) (by simp) hclose
  · show tokensRdata _ .ds (plainToken (showNat keyTag) :: plainToken (showNat algorithm) ::
      plainToken (showNat digestType) :: ks) = _
    rw [tokensRdata_ds, tokenUint_showNat (by omega), tokenUint_showNat (by omega),
      tokenUint_showNat (by omega), hhex]
    rfl
  · rw [packedRdata, uint_natCast (by omega), uint_natCast (by omega), uint_natCast (by omega)]
    rfl

theorem sameRow_loc {latitude longitude altitude size hp vp : ℚ} {b : Bytes}
    (hself : self.data = .loc latitude longitude altitude size hp vp)
    (hplain : ∀ t ∈ locWords h latitude longitude altitude size hp vp, IsPlain t)
    (hread : readLoc ((locWords h latitude longitude altitude size hp vp).map .word) = some b)
    (hwire : locWire latitude longitude altitude size hp vp = some b) :
    SameRow h st zone zoneRoot self label := by
  have hspells : ∀ ts : List Text, (∀ t ∈ ts, IsPlain t) →
      List.Forall₂ (fun f k => Spells f.text k) (ts.map Field.word) (ts.map plainToken) := by
    intro ts hts
    rw [List.forall₂_map_left_iff, List.forall₂_map_right_iff]
    exact List.forall₂_same.mpr fun t ht => spells_plain (hts t ht)
  have hwords : ∀ ts : List Text, (ts.map plainToken).mapM wordText = some ts := by
    intro ts
    induction ts with
    | nil => rfl
    | cons t ts ih =>
      rw [List.map_cons, List.mapM_cons, wordText_plainToken, ih]
      rfl
  have hks : tokensRdata zoneRoot.label .loc
      ((locWords h latitude longitude altitude size hp vp).map plainToken) = some b := by
    rw [tokensRdata_loc, hwords]
    exact hread
  refine sameRow_one (.loc, (locWords h latitude longitude altitude size hp vp).map .word)
    (.loc latitude longitude altitude size hp vp) ?_ ?_ ?_
    (match_fields (by decide) (hspells _ hplain) hks hwire)
  · unfold published
    rw [hself]
  · unfold rowRrs
    rw [hself]
  · rw [hself]
    rfl

theorem sameRow_hinfo {cpu os : Text} (hself : self.data = .hinfo cpu os) (hcpu : IsString cpu)
    (hos : IsString os) : SameRow h st zone zoneRoot self label := by
  have hks : tokensRdata zoneRoot.label .hinfo [stringToken cpu, stringToken os] =
      some ((UInt8.ofNat (encode cpu).length :: encode cpu) ++
        (UInt8.ofNat (encode os).length :: encode os)) := by
    rw [tokensRdata_hinfo, counted_stringToken hcpu, counted_stringToken hos]
    rfl
  refine sameRow_one (.hinfo, [.str cpu, .str os]) (.txt [encode cpu, encode os]) ?_ ?_ ?_
    (match_fields (by decide) (.cons (spells_str hcpu.1) (.cons (spells_str hos.1) .nil)) hks ?_)
  · unfold published
    rw [hself]
  · unfold rowRrs
    rw [hself]
  · rw [hself]
    have hlen := hcpu.2
    have hlen' := hos.2
    show (txtRdata [encode cpu, encode os] >>= _) = _
    rw [txtRdata, if_pos]
    · rfl
    · intro s hs
      rcases List.mem_pair.mp hs with rfl | rfl <;> omega
  · simp [packedRdata, rdataWire]

theorem sameRow_rp {mailbox txt : Text} (hself : self.data = .rp mailbox txt) (hmbox : IsName h mailbox)
    (htxt : IsName h txt) : SameRow h st zone zoneRoot self label := by
  obtain ⟨l, hl, hprint⟩ := hmbox
  obtain ⟨l', hl', hprint'⟩ := htxt
  obtain ⟨k, hk, hwire⟩ := hprint.spells zoneRoot.label
  obtain ⟨k', hk', hwire'⟩ := hprint'.spells zoneRoot.label
  have hks : tokensRdata zoneRoot.label .rp [k, k'] = some (nameWire l.label ++ nameWire l'.label) := by
    rw [tokensRdata_rp, hwire, hwire']
    rfl
  refine sameRow_one (.rp, [.name l, .name l']) (.rp l l') ?_ ?_ ?_
    (match_fields (by decide) (.cons hk (.cons hk' .nil)) hks rfl)
  · unfold published
    rw [hself]
    show (DnsLabel.ofText h.py mailbox >>= fun _ => DnsLabel.ofText h.py txt >>= _) = _
    rw [hl, hl']
    rfl
  · unfold rowRrs
    rw [hself]
  · rw [hself]
    show (DnsLabel.ofText h.py mailbox >>= fun _ => DnsLabel.ofText h.py txt >>= _) = _
    rw [hl, hl']
    rfl

theorem sameRow_https {data : HttpsData} {l : DnsLabel} {target params : Bytes}
    (hself : self.data = .https data) (hl : DnsLabel.ofText h.py data.target = .ok l)
    (htarget : h.encodeName l = .ok target) (hparams : h.svcbParams data = .ok params) :
    SameRow h st zone zoneRoot self label := by
  let packed := packUint 2 data.priority ++ target ++ params
  obtain ⟨ks, hclose, hhex⟩ := closes_hexlify zoneRoot.label packed
  have hhash : Spells (Field.text (.word "\\#".toList)) ⟨false, [⟨35, true⟩]⟩ := spells_hash
  refine sameRow_one (.https, [.word "\\#".toList, .num packed.length, .word (hexlify packed)])
    (.svcb data.priority data.target params) ?_ ?_ ?_ ⟨show QType.https ∈ rowTypes by decide, _,
      [⟨false, [⟨35, true⟩]⟩, plainToken (showNat packed.length)] ++ ks, packed, rfl, ?_, ?_, ?_⟩
  · unfold published
    rw [hself]
    show (DnsLabel.ofText h.py data.target >>= _) = _
    rw [hl]
    show (h.encodeName l >>= _) = _
    rw [htarget]
    show (h.svcbParams data >>= _) = _
    rw [hparams]
    rfl
  · unfold rowRrs
    rw [hself]
  · rw [hself]
    show (h.svcbParams data >>= _) = _
    rw [hparams]
    rfl
  · exact closes_fields_after (f := .word (hexlify packed)) (.cons hhash
      (.cons (spells_num packed.length) .nil)) (by simp) hclose
  · have hlen : readNat (plainToken (showNat packed.length)) = some packed.length :=
      readNat_digits packed.length
    show (tokensHex ks >>= _) = _
    rw [hhex]
    show (if _ ∧ readNat _ = _ then _ else _) = _
    rw [if_pos ⟨rfl, hlen⟩]
    rfl
  · show Option.map _ (Except.toOption (Except.bind (DnsLabel.ofText h.py data.target) h.encodeName)) = _
    rw [hl]
    show Option.map _ (Except.toOption (h.encodeName l)) = _
    rw [htarget]
    rfl

/-- **A row with the same data** is written as the records that it is exported as. -/
theorem sameRow_of_sameData (st : Store) (zone : Zone) (hd : SameData h zoneRoot self.data)
    (label : DnsLabel) :
    SameRow h st zone zoneRoot self label := by
  rcases hself : self.data with ⟨_ | a, _⟩ | ⟨a, b, _⟩ | _ | aliasName | _ | ⟨exchange, priority⟩ |
    nameserver | data | ⟨priority, weight, port, target⟩ | ⟨flag, tag, value⟩ |
    ⟨order, preference, flags, service, regexp, replacement⟩ | hostKey |
    ⟨keyTag, algorithm, digestType, digest⟩ | _ | ⟨latitude, longitude, altitude, size, hp, vp⟩ |
    ⟨cpu, os⟩ | ⟨mailbox, txt⟩ | data | _ | _ <;> rw [hself] at hd
  · cases hd
  · exact sameRow_address hself
  · obtain rfl : b = none := hd
    exact sameRow_dynamicAddress hself
  · exact hd.elim
  · obtain ⟨l, target, hl, htarget, heqv, hprint⟩ := hd
    exact sameRow_cname hself hl htarget heqv hprint
  · exact hd.elim
  · exact sameRow_mx hself hd.1 hd.2
  · exact sameRow_ns hself hd
  · exact sameRow_txt hself hd.1 hd.2
  · obtain ⟨hp, hw, ho, hname⟩ := hd
    exact sameRow_srv hself hp hw ho hname
  · obtain ⟨hf, htag, hvalue⟩ := hd
    exact sameRow_caa hself hf htag hvalue
  · obtain ⟨o, p, f, s, r, t, rfl, rfl, ho, hp, rfl, rfl, rfl, rfl, hf, hs, hr, hname⟩ := hd
    exact sameRow_naptr hself ho hp hf hs hr hname
  · obtain ⟨⟨keyType, decodedKey⟩, hkey⟩ := hd
    exact sameRow_sshfp hself hkey
  · obtain ⟨hk, ha, hd, ks, b, hclose, hhex, hbin, hb⟩ := hd
    exact sameRow_ds hself hk ha hd hclose hhex hbin hb
  · exact hd.elim
  · obtain ⟨hplain, b, hread, hwire⟩ := hd
    exact sameRow_loc hself hplain hread hwire
  · exact sameRow_hinfo hself hd.1 hd.2
  · exact sameRow_rp hself hd.1 hd.2
  · obtain ⟨l, target, params, hl, htarget, hparams⟩ := hd
    exact sameRow_https hself hl htarget hparams
  · exact hd.elim
  · exact hd.elim

/-! ### The files -/

theorem rtypeText_ne_nil_of_mem : ∀ t ∈ rowTypes, rtypeText t ≠ [] := by decide

/-- The text of a row gives the records that are paired with the resource records. -/
theorem gives_of_paired {owner : Text} {o : Token} {labels : List Bytes}
    (howner : ownerText h self = some owner) (hspells : Spells owner o) (hnodir : NoDirective o)
    (hread : readName zoneRoot.label o = some labels) (heqv : label.Eqv ⟨labels⟩)
    {records : Option (List Published)} (hp : published h st zone zoneRoot self = .ok records)
    {rrs : List Rr} (hpair : Paired h zoneRoot.label label self.ttl (records.getD []) rrs) :
    ∃ t rs, rowText h st zone zoneRoot self = .ok t ∧ Gives zoneRoot.label t rs ∧
      SameRecords h zoneRoot.label rrs rs := by
  unfold rowText
  rw [howner]
  show ∃ t rs, (published h st zone zoneRoot self >>= _) = _ ∧ _
  rw [hp]
  rcases records with _ | records
  · refine ⟨[], [], rfl, gives_nil, fun rr hmem => ?_, fun r hmem => (nomatch hmem)⟩
    obtain ⟨record, hrecord, -⟩ := hpair.2 rr hmem
    cases hrecord
  have hline : ∀ record ∈ records, ∃ ks, Closes zoneRoot.label (rdataText record) ks [] := by
    intro record hmem
    obtain ⟨rr, -, -, x, ks, wire, -, hclose, -⟩ := hpair.1 record hmem
    exact ⟨ks, hclose⟩
  choose! tokensOf htokens using hline
  let recordOf := fun record : Published => lineRecord labels self.ttl (rtypeText record.1) (tokensOf record)
  -- the tokens of a line are those that it matches its resource record with
  have hmatch : ∀ record ∈ records, ∀ rr, Match h zoneRoot.label label self.ttl record rr →
      ∃ x, printed h rr = some x ∧ denoted zoneRoot.label (recordOf record) = some x := by
    rintro record hmem rr ⟨htype, x, ks, wire, rfl, ⟨es, hends, -⟩, hks, hx⟩
    obtain ⟨es', hends', -⟩ := htokens record hmem
    obtain rfl := (hends.inj hends').1
    refine ⟨⟨label.lower, self.ttl, .in, record.1, wire⟩, ?_, ?_⟩
    · unfold printed
      rw [hx]
      rfl
    · have hlower : label.lower = DnsLabel.lower ⟨labels⟩ := heqv
      rw [hlower]
      exact denoted_lineRecord htype hks
  refine ⟨_, records.map recordOf, rfl, ?_, fun rr hmem => ?_, fun r hmem => ?_⟩
  · have hlines : Gives zoneRoot.label (records.flatMap (publishedLine owner self.ttl))
        (records.flatMap fun record => [recordOf record]) := by
      refine gives_flatMap fun record hmem => ?_
      obtain ⟨rr, -, htype, -⟩ := hpair.1 record hmem
      exact gives_recordLine hspells hnodir hread self.ttl
        (isPlain_rtypeText (rtypeText_ne_nil_of_mem _ htype)) (htokens record hmem)
    rw [← List.map_eq_flatMap] at hlines
    exact (gives_rowComment self.model self.id).append hlines
  · obtain ⟨record, hrecord, hm⟩ := hpair.2 rr hmem
    obtain ⟨x, hprinted, hdenoted⟩ := hmatch record hrecord rr hm
    exact ⟨x, hprinted, recordOf record, List.mem_map_of_mem hrecord, hdenoted⟩
  · obtain ⟨record, hrecord, rfl⟩ := List.mem_map.mp hmem
    obtain ⟨rr, hrr, hm⟩ := hpair.1 record hrecord
    obtain ⟨x, hprinted, hdenoted⟩ := hmatch record hrecord rr hm
    exact ⟨x, hdenoted, rr, hrr, hprinted⟩

/-- A row that is not written gives nothing. -/
theorem gives_nothing (hnone : ownerText h self = none ∨ ∃ records,
    published h st zone zoneRoot self = .ok records ∧ records.getD [] = []) :
    ∃ t, rowText h st zone zoneRoot self = .ok t ∧ Gives zoneRoot.label t [] := by
  unfold rowText
  rcases howner : ownerText h self with _ | owner
  · exact ⟨[], rfl, gives_nil⟩
  rw [howner] at hnone
  obtain ⟨records, hp, hnil⟩ := hnone.resolve_left (Option.some_ne_none owner)
  show ∃ t, (published h st zone zoneRoot self >>= _) = _ ∧ _
  rw [hp]
  rcases records with _ | records
  · exact ⟨[], rfl, gives_nil⟩
  · obtain rfl : records = [] := hnil
    exact ⟨_, rfl, (gives_rowComment self.model self.id).append gives_nil⟩

theorem model_of_sameData (hd : SameData h zoneRoot self.data) : self.model ∈ exportedModels := by
  unfold Row.model
  generalize self.data = data at hd ⊢
  rcases data with _ | _ | _ | _ | _ | _ | _ | _ | _ | _ | _ | _ | _ | _ | _ | _ | _ | _ | _ | _ <;>
    first | exact hd.elim | simp [RecordData.model, exportedModels]

/-- **A row that is exportable** gives records, those that it is exported as if its class is. -/
theorem row_of_exportable (hr : ExportableRow h st zone zoneRoot self) :
    ∃ t rs, rowText h st zone zoneRoot self = .ok t ∧ Gives zoneRoot.label t rs ∧
      (self.model ∉ exportedModels → rs = []) ∧ (self.model ∈ exportedModels → ∃ rrs,
        (dnsLabel h zone self >>= rowRrs h self) = .ok rrs ∧ SameRecords h zoneRoot.label rrs rs) := by
  have hempty : SameRecords h zoneRoot.label [] [] :=
    ⟨fun rr hmem => (nomatch hmem), fun r hmem => (nomatch hmem)⟩
  rcases hr with hsilent | ⟨⟨owner, o, labels, label, howner, hspells, hnodir, hread, hlabel, heqv⟩, hd⟩
  · obtain ⟨id, z, recordName, ttl, data⟩ := self
    suffices hnone : (ownerText h ⟨id, z, recordName, ttl, data⟩ = none ∨ ∃ records,
        published h st zone zoneRoot ⟨id, z, recordName, ttl, data⟩ = .ok records ∧
          records.getD [] = []) ∧ (data.model ∈ exportedModels →
        (dnsLabel h zone ⟨id, z, recordName, ttl, data⟩ >>= rowRrs h ⟨id, z, recordName, ttl, data⟩) =
          .ok []) by
      obtain ⟨t, ht, hgives⟩ := gives_nothing hnone.1
      exact ⟨t, [], ht, hgives, fun _ => rfl, fun hmem => ⟨[], hnone.2 hmem, hempty⟩⟩
    rcases data with _ | ⟨_ | a, b, _⟩ | aliasName | _ | _ | _ | _ | _ | _ | _ | _ | hostKey | _ | _ | _ |
      _ | _ | _ | _ | _
    case dynamicAddress.none =>
      obtain ⟨hor, l, hl⟩ := hsilent
      refine ⟨hor.imp_right fun hb => ?_, fun _ => ?_⟩
      · obtain rfl : b = none := hb
        exact ⟨some [], rfl, rfl⟩
      · rw [hl]
        rcases b with _ | b <;> rfl
    case aname =>
      refine ⟨hsilent.imp_right fun hnil => ⟨some [], ?_, rfl⟩, fun hmem =>
        absurd hmem (show Model.aname ∉ exportedModels by decide)⟩
      show (anameAddresses h st zone zoneRoot _ aliasName >>= _) = _
      rw [hnil]
      rfl
    case sshfp =>
      obtain ⟨⟨⟨keyType, decodedKey⟩, hkey, hn⟩, l, hl⟩ := hsilent
      have hn' : sshAlgoNum keyType = none := hn
      refine ⟨Or.inr ⟨none, ?_, rfl⟩, fun _ => ?_⟩
      · show (h.sshKey hostKey >>= _) = _
        rw [hkey]
        show Except.ok (Option.map _ (sshAlgoNum keyType >>= _)) = _
        rw [hn']
        rfl
      · rw [hl]
        show (h.sshKey hostKey >>= _) = _
        rw [hkey]
        show Except.ok (Option.getD (Option.map _ (sshAlgoNum keyType)) []) = _
        rw [hn']
        rfl
    case redirect =>
      exact ⟨Or.inl hsilent, fun hmem => absurd hmem (show Model.redirect ∉ exportedModels by decide)⟩
    case dnskey =>
      exact ⟨Or.inl hsilent, fun hmem => absurd hmem (show Model.dnskey ∉ exportedModels by decide)⟩
    case dhcid =>
      exact ⟨Or.inl hsilent, fun hmem => absurd hmem (show Model.dhcid ∉ exportedModels by decide)⟩
    all_goals exact hsilent.elim
  · obtain ⟨records, rrs, hp, hrow, hpair⟩ := sameRow_of_sameData st zone hd label
    obtain ⟨t, rs, ht, hgives, hsame⟩ := gives_of_paired howner hspells hnodir hread heqv hp hpair
    refine ⟨t, rs, ht, hgives, fun hmem => absurd (model_of_sameData hd) hmem, fun _ => ⟨rrs, ?_, hsame⟩⟩
    rw [hlabel]
    exact hrow

theorem exportZoneFile_eq_ok (hns : ∀ ns ∈ st.customNs, ns.dnsZone ≠ zone.id)
    {rrss : List (List Rr)} (hrows : (exportedModels.flatMap (rowsOf st zone)).mapM
      (fun self => dnsLabel h zone self >>= rowRrs h self) = .ok rrss) :
    exportZoneFile h st zone = .ok rrss.flatten := by
  have hnone : (st.customNs.rows.filter fun ns => ns.dnsZone = zone.id) = [] := by
    refine List.filter_eq_nil_iff.mpr fun ns hmem => ?_
    simpa using hns ns hmem
  unfold exportZoneFile
  rw [hnone]
  exact bind_eq_ok.mpr ⟨[], rfl, bind_eq_ok.mpr ⟨rrss, hrows, rfl⟩⟩

/-- **The export shows what is published**, where there are only the default name servers, and the other
rows have the same records in both files. -/
theorem shows_of_exportable (hc : Exportable h st zone zoneRoot) (time : ℕ) : Shows h st time zone := by
  obtain ⟨rest, hs, hheader, hrest, htypes⟩ := gives_header hc.valid hc.digest
    (fun ns hns hz => absurd hz (hc.customNs ns hns)) hc.additionalCds hc.additionalCdnskey time
  have hrow : ∀ r ∈ st.records, r.zone = zone.id → ∃ t, rowText h st zone zoneRoot r = .ok t ∧
      Gives zoneRoot.label t (rowRecords h st zone zoneRoot r) ∧
      (r.model ∉ exportedModels → rowRecords h st zone zoneRoot r = []) ∧
      (r.model ∈ exportedModels → ∃ rrs, (dnsLabel h zone r >>= rowRrs h r) = .ok rrs ∧
        SameRecords h zoneRoot.label rrs (rowRecords h st zone zoneRoot r)) := by
    intro r hr hz
    obtain ⟨t, rs, ht, hgives, hout, hin⟩ := row_of_exportable (hc.rows r hr hz)
    rw [rowRecords_eq ht hgives]
    exact ⟨t, ht, hgives, hout, hin⟩
  obtain ⟨texts, htexts, hgives⟩ := gives_mapM (l := publishedModels.flatMap (rowsOf st zone)) fun r hr => by
    obtain ⟨hr, hz, -⟩ := mem_flatMap_rowsOf.mp hr
    obtain ⟨t, ht, hgives, -⟩ := hrow r hr hz
    exact ⟨t, ht, hgives⟩
  have hexported : ∀ r ∈ exportedModels.flatMap (rowsOf st zone), ∃ rrs,
      (dnsLabel h zone r >>= rowRrs h r) = .ok rrs ∧ True := by
    intro r hr
    obtain ⟨hr, hz, hm⟩ := mem_flatMap_rowsOf.mp hr
    obtain ⟨t, -, -, -, hin⟩ := hrow r hr hz
    obtain ⟨rrs, hrrs, -⟩ := hin hm
    exact ⟨rrs, hrrs, trivial⟩
  obtain ⟨rrss, hrrss, -⟩ := exists_mapM hexported
  obtain ⟨hback, hforth⟩ := mem_mapM hrrss
  have horigin := adds_originLine hc.head hc.bytes
  have hname := readName_nameToken [] hc.head hc.bytes hc.valid
  have hcounts : hs.filter (Counts (st.customNs.rows.filter fun ns => ns.dnsZone = zone.id)) = [] := by
    refine List.filter_eq_nil_iff.mpr fun r hr hcounts => ?_
    have hnone : (st.customNs.rows.filter fun ns => ns.dnsZone = zone.id) = [] := by
      refine List.filter_eq_nil_iff.mpr fun ns hmem => ?_
      simpa using hc.customNs ns hmem
    rw [hnone] at hcounts
    simp only [Counts, Bool.and_eq_true, decide_eq_true_iff] at hcounts
    have htype := htypes r hr
    simp only [headerTypes, cdsTypes, List.mem_cons, List.not_mem_nil, or_false] at htype
    rcases htype with htype | htype | htype | htype
    · exact hcounts.1 (by rw [htype]; decide)
    · exact hcounts.2 htype rfl
    · exact hcounts.1 (by rw [htype]; decide)
    · exact hcounts.1 (by rw [htype]; decide)
  refine ⟨zoneRoot, _, _, hs,
    (publishedModels.flatMap (rowsOf st zone)).flatMap (rowRecords h st zone zoneRoot), rrss.flatten,
    hc.root, hheader, records_of_gives horigin hname hrest,
    generateFzone_eq_ok.mpr ⟨zoneRoot, _, texts, hc.root, hheader, htexts, rfl⟩, ?_,
    exportZoneFile_eq_ok hc.customNs hrrss, ?_⟩
  · rw [List.append_assoc]
    exact records_of_gives horigin hname (hrest.append hgives)
  rw [hcounts, List.nil_append]
  refine ⟨fun rr hmem => ?_, fun record hmem => ?_⟩
  · obtain ⟨rrs, hrrs, hmem⟩ := List.mem_flatten.mp hmem
    obtain ⟨r, hr, hrr⟩ := hback rrs hrrs
    obtain ⟨hmemr, hz, hm⟩ := mem_flatMap_rowsOf.mp hr
    obtain ⟨t, -, -, -, hin⟩ := hrow r hmemr hz
    obtain ⟨rrs', hrr', hsame⟩ := hin hm
    obtain rfl := Except.ok.inj (hrr.symm.trans hrr')
    obtain ⟨x, hx, record, hrecord, hdenoted⟩ := hsame.1 rr hmem
    have hpub : ∀ m, m ∈ publishedModels := by
      intro m
      cases m <;> decide
    exact ⟨x, hx, record, List.mem_flatMap.mpr
      ⟨r, mem_flatMap_rowsOf.mpr ⟨hmemr, hz, hpub _⟩, hrecord⟩, hdenoted⟩
  · obtain ⟨r, hr, hrecord⟩ := List.mem_flatMap.mp hmem
    obtain ⟨hmemr, hz, -⟩ := mem_flatMap_rowsOf.mp hr
    obtain ⟨t, -, -, hout, hin⟩ := hrow r hmemr hz
    by_cases hm : r.model ∈ exportedModels
    · obtain ⟨rrs, hrrs, hsame⟩ := hin hm
      obtain ⟨x, hx, rr, hrr, hprinted⟩ := hsame.2 record hrecord
      obtain ⟨rrs', hmem', hrrs'⟩ := hforth r (mem_flatMap_rowsOf.mpr ⟨hmemr, hz, hm⟩)
      obtain rfl := Except.ok.inj (hrrs.symm.trans hrrs')
      exact ⟨x, hx, rr, List.mem_flatten.mpr ⟨rrs, hmem', hrr⟩, hprinted⟩
    · rw [hout hm] at hrecord
      exact absurd hrecord List.not_mem_nil

end

/-! ### Zones with a row -/

/-- A zone with an address and a text. -/
def exampleStore : Store :=
  { Store.empty with
    zones := Table.empty.save exampleZone
    records := (Table.empty.save
      ⟨1, 1, "www".toList, 300, .address (some (.v6 0x20010db8000000000000000000000001#128)) true⟩).save
        ⟨2, 1, ['@'], 3600, .txt "v=spf1 -all".toList⟩ }

theorem shows_example : Shows .ascii exampleStore 0 exampleZone := by
  refine shows_of_exportable (?_ : Exportable .ascii _ exampleZone exampleRoot) 0
  refine ⟨ofText_exampleZone, ⟨101, [120, 97, 109, 112, 108, 101], [encode "com".toList], by decide⟩,
    by decide, by decide, fun _ => ⟨_, rfl⟩, fun ns hns => (nomatch hns), fun _ row hrow => (nomatch hrow),
    fun _ row hrow => (nomatch hrow), fun r hr _ => Or.inr ?_⟩
  rcases List.mem_pair.mp hr with rfl | rfl
  · refine ⟨⟨"www".toList, plainToken "www".toList, encode "www".toList :: exampleRoot.label,
      ⟨encode "www".toList :: exampleRoot.label⟩, by decide, spells_plain (by decide),
      ⟨by decide, by decide⟩, by decide, by decide, rfl⟩, rfl⟩
  · exact ⟨⟨['@'], plainToken ['@'], exampleRoot.label, exampleRoot, by decide, spells_at,
      noDirective_at, by decide, by decide, rfl⟩, by decide, by decide, by decide⟩

/-- A dynamic row that has an IPv6 address. -/
def dynamicRow : Row :=
  ⟨1, 1, "home".toList, 300, .dynamicAddress none (some 0x20010db8000000000000000000000001#128)
    "secret".toList⟩

/-- The AAAA record is published and not exported. -/
theorem not_shows_ipv6 : cleanDynamicAddressRecord dynamicRow = .ok () ∧
    ¬ Shows .ascii (withRow dynamicRow) 0 exampleZone := by
  refine ⟨by decide, ?_⟩
  rintro ⟨zoneRoot, header, text, hs, rs, rrs, hroot, hheader, hhs, htext, hrs, hexport, hsame⟩
  obtain rfl : exampleRoot = zoneRoot := Except.ok.inj (ofText_exampleZone.symm.trans hroot)
  have hnone : exportZoneFile .ascii (withRow dynamicRow) exampleZone = .ok [] := by decide
  obtain rfl : [] = rrs := Except.ok.inj (hnone.symm.trans hexport)
  have hlen : ((generateZoneHeader .ascii (withRow dynamicRow) 0 exampleZone exampleRoot).toOption.bind
      (records [])).map List.length = some 7 := by decide +kernel
  have hlen' : ((generateFzone .ascii (withRow dynamicRow) 0 exampleZone).toOption.bind
      (records [])).map List.length = some 8 := by decide +kernel
  rw [hheader] at hlen
  rw [htext] at hlen'
  have hlen : (records [] header).map List.length = some 7 := hlen
  have hlen' : (records [] text).map List.length = some 8 := hlen'
  rw [hhs, Option.map_some] at hlen
  rw [hrs, Option.map_some, List.length_append] at hlen'
  have hone : 0 < rs.length := by
    have := Option.some.inj hlen
    have := Option.some.inj hlen'
    omega
  obtain ⟨r, hr⟩ := List.exists_mem_of_length_pos hone
  obtain ⟨x, -, rr, hrr, -⟩ := hsame.2 r (List.mem_append_right _ hr)
  cases hrr

end HexDns.Views.Export
