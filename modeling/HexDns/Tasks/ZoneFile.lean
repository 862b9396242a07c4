import HexDns.Models.Convert
import HexDns.Models.Names
import HexDns.Grpc.Records

/-! # Zone files

`generate_fzone` of `tasks.py` and what it calls: the text of the zone file of a forward zone. The
loops over the record classes differ in the words of a comment and in the records that a row is
written as, `published`; the rest is `rowText`. The reverse zones that the address records are found in
are not part of the file and left out. -/

namespace HexDns.Tasks.ZoneFile

open HexDns.Lib.Texts HexDns.Lib.Tables HexDns.Base.Py HexDns.Base.Codecs HexDns.Base.Label
  HexDns.Base.Message HexDns.Models.Db HexDns.Models.Env HexDns.Models.Convert HexDns.Models.Names
  HexDns.Grpc.Records

/-- `NAMESERVERS` of `tasks.py` -/
def nameservers : List Text :=
  ["ns1.as207960.net.".toList, "ns2.as207960.net.".toList, "ns3.as207960.net.".toList,
    "ns4.as207960.net.".toList]

/-- A line of a zone file. -/
def line (parts : List Text) : Text := parts.flatten ++ ['\n']

/-- `f"{owner} {ttl} IN {rtype} {rdata}\n"` -/
def recordLine (owner : Text) (ttl : ℕ) (rtype rdata : Text) : Text :=
  line [owner, [' '], showNat ttl, " IN ".toList, rtype, [' '], rdata]

/-- `encode_str` -/
def encodeStr (data : Text) : Text :=
  data.flatMap fun c =>
    if c = '"' then ['\\', '"']
    else if c.toNat < 128 then [c]
    else (encode [c]).flatMap fun b => '\\' :: showNat b.toNat

/-- `f"\"{encode_str(t)}\""` -/
def quoted (t : Text) : Text := '"' :: encodeStr t ++ ['"']

section
variable (h : Host)

/-! ### The records of a row -/

/-- A field of the rdata of a record, as the line is written. -/
inductive Field
  | num (n : ℤ)
  | address (a : IpAddr)
  | name (l : DnsLabel)
  /-- between quotes, by `encode_str` -/
  | str (t : Text)
  | word (t : Text)
  deriving DecidableEq, Repr

def Field.text : Field → Text
  | .num n => showInt n
  | .address (.v4 a) => ipv4Text a
  | .address (.v6 a) => ipv6Text a
  | .name l => l.toText
  | .str t => quoted t
  | .word t => t

/-- The types of the records that are written. -/
def rtypeText : QType → Text
  | .a => ['A']
  | .ns => "NS".toList
  | .cname => "CNAME".toList
  | .mx => "MX".toList
  | .txt => "TXT".toList
  | .rp => "RP".toList
  | .aaaa => "AAAA".toList
  | .loc => "LOC".toList
  | .srv => "SRV".toList
  | .naptr => "NAPTR".toList
  | .ds => "DS".toList
  | .sshfp => "SSHFP".toList
  | .dnskey => "DNSKEY".toList
  | .dhcid => "DHCID".toList
  | .https => "TYPE65".toList
  | .caa => "CAA".toList
  | .hinfo => "HINFO".toList
  | _ => []

/-- The type and the rdata of a record that is written. -/
abbrev Published := QType × List Field

/-- An address as a record. -/
def addressRdata : IpAddr → Published
  | .v4 a => (.a, [.address (.v4 a)])
  | .v6 a => (.aaaa, [.address (.v6 a)])

/-- A character of `string.printable` below 127. -/
def printable (c : Char) : Bool := (32 ≤ c.toNat && c.toNat < 127) || (9 ≤ c.toNat && c.toNat ≤ 13)

/-- The target of a CNAME row, if it is written. -/
def cnameTarget (zoneRoot : DnsLabel) (aliasName : Text) : Except PyErr (Option DnsLabel) :=
  if aliasName = ['@'] then .ok (some zoneRoot)
  else
    match h.idna aliasName with
    | some t => .ok (some (DnsLabel.ofBytes (encode t)))
    | none =>
      if aliasName.all printable then (DnsLabel.ofText h.py aliasName).map some else .ok none

/-- `encode_str` of a column, which has to be a text. -/
def strVal : PyVal → Except PyErr Field
  | .str t => .ok (.str t)
  | _ => .error .attributeError

/-- `dnslib.DNSLabel(v)` of a column, which has to be a text. -/
def labelVal : PyVal → Except PyErr Field
  | .str t => (DnsLabel.ofText h.py t).map .name
  | _ => .error .typeError

/-- `f"{v}"` of a column -/
def showVal : PyVal → Field
  | .int n => .num n
  | .str t => .word t
  | v => .word (reprVal v)

/-- The words of a LOC record. -/
def locWords (latitude longitude altitude size hp vp : ℚ) : List Text :=
  let (d1, m1, s1) := h.ddToDms latitude
  let (d2, m2, s2) := h.ddToDms longitude
  [d1, m1, s1, if latitude < 0 then ['S'] else ['N'], d2, m2, s2,
    if longitude < 0 then ['W'] else ['E'], h.floatText altitude ++ ['m'], h.floatText size ++ ['m'],
    h.floatText hp ++ ['m'], h.floatText vp ++ ['m']]

/-- An IPv4 address from its four numbers. -/
def ipv4 (a b c d : ℕ) : IpAddr := .v4 (BitVec.ofNat 32 (((a * 256 + b) * 256 + c) * 256 + d))

/-- The addresses of GitHub Pages. -/
def githubAddresses : List IpAddr :=
  [ipv4 185 199 108 153, ipv4 185 199 109 153, ipv4 185 199 110 153, ipv4 185 199 111 153,
    .v6 0x260650c0800000000000000000000153#128, .v6 0x260650c0800100000000000000000153#128,
    .v6 0x260650c0800200000000000000000153#128, .v6 0x260650c0800300000000000000000153#128]

/-- The records of a redirect. -/
def redirectRecords : List Published :=
  [(.a, [.address (ipv4 45 129 95 254)]),
    (.aaaa, [.address (.v6 0x2a0e1cc1000100000000000000010007#128)]),
    (.caa, [.num 0, .word "iodef".toList, .str "mailto:noc@as207960.net".toList]),
    (.caa, [.num 0, .word "issue".toList, .str "pki.goog".toList]),
    (.caa, [.num 0, .word "issue".toList, .str "letsencrypt.org".toList])]

/-- The addresses that an ANAME row is written with: those of the zone, or the cached ones. -/
def anameAddresses (st : Store) (zone : Zone) (zoneRoot : DnsLabel) (self : Row) (aliasName : Text) :
    Except PyErr (List IpAddr) := do
  let aliasLabel ← DnsLabel.ofText h.py aliasName
  if aliasLabel.matchSuffix zoneRoot then
    let searchName ← (aliasLabel.stripSuffix zoneRoot).searchName
    (named st .address searchName zone).mapM fun r =>
      match r.data with
      | .address (some address) _ => .ok address
      | _ => .error .valueError
  else return (st.anameCache.rows.filter fun c => c.record = self.id).map AnameCache.address

/-- The records that a row is written as; nothing for a row that is passed over. -/
def published (st : Store) (zone : Zone) (zoneRoot : DnsLabel) (self : Row) :
    Except PyErr (Option (List Published)) :=
  match self.data with
  | .address none _ => .error .valueError
  | .address (some address) _ => .ok (some [addressRdata address])
  | .dynamicAddress currentIpv4 currentIpv6 _ =>
    .ok (some ((currentIpv4.map fun a => addressRdata (.v4 a)).toList ++
      (currentIpv6.map fun a => addressRdata (.v6 a)).toList))
  | .aname aliasName => do
    return some ((← anameAddresses h st zone zoneRoot self aliasName).map addressRdata)
  | .githubPages => .ok (some (githubAddresses.map addressRdata))
  | .cname aliasName => do
    return (← cnameTarget h zoneRoot aliasName).map fun target => [(.cname, [.name target])]
  | .redirect => .ok (some redirectRecords)
  | .mx exchange priority => do
    return some [(.mx, [.num priority, .name (← DnsLabel.ofText h.py exchange)])]
  | .ns nameserver => do return some [(.ns, [.name (← DnsLabel.ofText h.py nameserver)])]
  | .txt data => .ok (some [(.txt, [.str data])])
  | .srv priority weight port target => do
    return some [(.srv, [.num priority, .num weight, .num port,
      .name (← DnsLabel.ofText h.py target)])]
  | .caa flag tag value => .ok (some [(.caa, [.num flag, .str tag, .str value])])
  | .naptr order preference flags service regexp replacement => do
    return some [(.naptr, [showVal order, showVal preference, ← strVal flags, ← strVal service,
      ← strVal (if regexp = .none then .str [] else regexp), ← labelVal h replacement])]
  | .sshfp hostKey => do
    let (keyType, decodedKey) ← h.sshKey hostKey
    return (sshAlgoNum keyType).map fun n =>
      [(.sshfp, [.num n, .num 1, .word (hexlify (h.sha1 decodedKey))]),
        (.sshfp, [.num n, .num 2, .word (hexlify (h.sha256 decodedKey))])]
  | .ds keyTag algorithm digestType digest =>
    .ok (some [(.ds, [.num keyTag, .num algorithm, .num digestType, .word digest])])
  | .dnskey flags protocol algorithm publicKey =>
    .ok (some [(.dnskey, [.num flags, .num protocol, .num algorithm, showVal publicKey])])
  | .loc latitude longitude altitude size hp vp =>
    .ok (some [(.loc, (locWords h latitude longitude altitude size hp vp).map .word)])
  | .hinfo cpu os => .ok (some [(.hinfo, [.str cpu, .str os])])
  | .rp mailbox txt => do
    return some [(.rp, [.name (← DnsLabel.ofText h.py mailbox), .name (← DnsLabel.ofText h.py txt)])]
  | .https data => do
    let target ← h.encodeName (← DnsLabel.ofText h.py data.target)
    let data := packUint 2 data.priority ++ target ++ (← h.svcbParams data)
    return some [(.https, [.word "\\#".toList, .num data.length, .word (hexlify data)])]
  | .dhcid data => .ok (some [(.dhcid, [.word (b64encode data)])])

/-- The line of a record. -/
def publishedLine (owner : Text) (ttl : ℕ) (record : Published) : Text :=
  recordLine owner ttl (rtypeText record.1) ([' '].intercalate (record.2.map Field.text))

/-- The name of the class in the comment of a row. -/
def comment : Model → Text
  | .address => "Address".toList
  | .dynamicAddress => "Dynamic address".toList
  | .aname => "ANAME".toList
  | .cname => "CNAME".toList
  | .redirect => "Redirect".toList
  | .mx => "MX".toList
  | .ns => "NS".toList
  | .txt => "TXT".toList
  | .srv => "SRV".toList
  | .caa => "CAA".toList
  | .naptr => "NAPTR".toList
  | .sshfp => "SSHFP".toList
  | .ds => "DS".toList
  | .dnskey => "DNSKEY".toList
  | .loc => "LOC".toList
  | .hinfo => "HINFO".toList
  | .rp => "RP".toList
  | .https => "HTTPS".toList
  | .dhcid => "DHCID".toList
  | .githubPages => "Github pages".toList

/-- The owner that a row is written with, if it is written; an HTTPS row always is. -/
def ownerText (self : Row) : Option Text :=
  match self.data with
  | .https data => some (showOption (svcbRecordName h self.recordName data))
  | _ => (idnaLabel h self.recordName).filter (· ≠ [])

variable {h} in
theorem ownerText_of_ne {row : Row} (hm : row.model ≠ .https) :
    ownerText h row = (idnaLabel h row.recordName).filter (· ≠ []) := by
  obtain ⟨id, z, recordName, ttl, data⟩ := row
  rcases data with _ | _ | _ | _ | _ | _ | _ | _ | _ | _ | _ | _ | _ | _ | _ | _ | _ | _ | _ | _
  case https => exact absurd rfl hm
  all_goals rfl

/-- What the loop over a record class adds for a row. -/
def rowText (st : Store) (zone : Zone) (zoneRoot : DnsLabel) (self : Row) : Except PyErr Text :=
  match ownerText h self with
  | none => .ok []
  | some owner => do
    match ← published h st zone zoneRoot self with
    | none => return []
    | some records =>
      return line ["; ".toList, comment self.model, " record ".toList, showNat self.id] ++
        records.flatMap (publishedLine owner self.ttl)

/-! ### The header -/

/-- `tasks.make_key_tag` of the packed DNSKEY -/
def makeKeyTag (data : Bytes) : ℕ :=
  let tag := ((List.range (data.length / 2)).map fun i =>
    256 * (data.getD (2 * i) 0).toNat + (data.getD (2 * i + 1) 0).toNat).sum +
      if data.length % 2 ≠ 0 then 256 * (data.getD (data.length - 1) 0).toNat else 0
  (tag + tag / 65536 % 65536) % 65536

/-- `utils.get_dnskey()`, packed -/
def dnskeyData : Bytes := packUint 2 257 ++ [3, 13] ++ h.dnssecKey

/-- `utils.make_zone_digest` -/
def makeZoneDigest (zoneName : DnsLabel) : Except PyErr (Text × ℕ) := do
  return (hexlify (h.sha256 ((← h.encodeName zoneName) ++ dnskeyData h)), makeKeyTag (dnskeyData h))

/-- `str(dnslib.DNSLabel(t))` -/
def labelText (t : Text) : Except PyErr Text := (DnsLabel.ofText h.py t).map DnsLabel.toText

/-- The first name server: that of the first row by key, if there are rows. -/
def primaryNs (customNs : List CustomNs) : Except PyErr Text :=
  match (customNs.insertionSort fun a b => a.id ≤ b.id).head? with
  | some ns => labelText h ns.nameserver
  | none => .ok (nameservers.headD [])

/-- The name servers of the NS records. -/
def headerNs (customNs : List CustomNs) : Except PyErr (List Text) :=
  if customNs = [] then .ok nameservers else customNs.mapM (labelText h ·.nameserver)

/-- The rdata of an additional CDS row. -/
def cdsRdata (cds : AdditionalCds) : Text :=
  [' '].intercalate [showInt cds.keyTag, showInt cds.algorithm, showInt cds.digestType, cds.digest]

/-- The rdata of an additional CDNSKEY row. -/
def cdnskeyRdata (cdnskey : AdditionalCdnskey) : Text :=
  [' '].intercalate
    [showInt cdnskey.flags, showInt cdnskey.protocol, showInt cdnskey.algorithm, cdnskey.publicKey]

/-- The CDS and CDNSKEY records of a zone under an owner, in its zone file and in the signalling
zones. -/
def cdsText (st : Store) (zone : Zone) (zoneRoot : DnsLabel) (owner : Text) : Except PyErr Text :=
  if zone.cdsDisable then
    .ok (recordLine owner 86400 "CDS".toList "0 0 0 00".toList ++
      recordLine owner 86400 "CDNSKEY".toList "0 3 0 AA==".toList)
  else do
    let (digest, tag) ← makeZoneDigest h zoneRoot
    return recordLine owner 86400 "CDS".toList (showNat tag ++ " 13 2 ".toList ++ digest) ++
      ((st.additionalCds.rows.filter fun cds => cds.dnsZone = zone.id).flatMap fun cds =>
        line ["; Additional CDS ".toList, showNat cds.id] ++
          recordLine owner 86400 "CDS".toList (cdsRdata cds)) ++
      recordLine owner 86400 "CDNSKEY".toList ("257 3 13 ".toList ++ b64encode h.dnssecKey) ++
      ((st.additionalCdnskey.rows.filter fun cdnskey => cdnskey.dnsZone = zone.id).flatMap
        fun cdnskey =>
          line ["; Additional CDNSKEY ".toList, showNat cdnskey.id] ++
            recordLine owner 86400 "CDNSKEY".toList (cdnskeyRdata cdnskey))

/-- `f"@ 86400 IN SOA {primary_ns} noc.as207960.net. {int(time.time())} …\n"` -/
def soaLine (primaryNs : Text) (time : ℕ) (timers : Text) : Text :=
  recordLine ['@'] 86400 "SOA".toList
    ([' '].intercalate [primaryNs, "noc.as207960.net.".toList, showNat time, timers])

/-- `generate_zone_header` at the time `time` in seconds -/
def generateZoneHeader (st : Store) (time : ℕ) (zone : Zone) (zoneRoot : DnsLabel) :
    Except PyErr Text := do
  let customNs := st.customNs.rows.filter fun ns => ns.dnsZone = zone.id
  let primary ← primaryNs h customNs
  let ns ← headerNs h customNs
  let cds ← cdsText h st zone zoneRoot ['@']
  return line ["$ORIGIN ".toList, zoneRoot.toText] ++
    soaLine primary time "86400 3600 86400 3600".toList ++
    ns.flatMap (recordLine ['@'] 86400 "NS".toList) ++ cds

/-! ### The file -/

/-- The record classes in the order of `generate_fzone`. -/
def publishedModels : List Model :=
  [.address, .dynamicAddress, .aname, .githubPages, .cname, .redirect, .mx, .ns, .txt, .srv, .caa,
    .naptr, .sshfp, .ds, .dnskey, .loc, .hinfo, .rp, .https, .dhcid]

/-- `zone.…record_set.all()`, in the order of the names -/
def rowsOf (st : Store) (zone : Zone) (m : Model) : List Row :=
  (st.recordsOf m fun r => r.zone = zone.id).insertionSort fun r s => r.recordName ≤ s.recordName

/-- `generate_fzone` at the time `time` in seconds -/
def generateFzone (st : Store) (time : ℕ) (zone : Zone) : Except PyErr Text := do
  let zoneRoot ← DnsLabel.ofText h.py zone.zoneRoot
  let header ← generateZoneHeader h st time zone zoneRoot
  let texts ← (publishedModels.flatMap (rowsOf st zone)).mapM (rowText h st zone zoneRoot)
  return header ++ texts.flatten

end

/-- `re.compile("^[a-zA-Z0-9-.]+$").match(t)`; the dollar sign matches before a newline at the end. -/
def rootPattern (t : Text) : Bool :=
  let t := if t.getLast? = some '\n' then t.dropLast else t
  t ≠ [] && t.all fun c => c.isAlpha || c.isDigit || c = '-' || c = '.'

end HexDns.Tasks.ZoneFile
