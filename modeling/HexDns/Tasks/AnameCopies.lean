import HexDns.Grpc.Lookup
import HexDns.Tasks.ImportedOwners

/-! # ANAMEs whose target is in their zone

`generate_fzone` and `ANAMERecord.to_rrs` copy the addresses of the rows of `AddressRecord` whose record
name is the path of the target below the zone root, as `DNSLabel` has it. The rows that are published at
the target may be stored under another spelling: the apex is stored as `@` and its path is empty, an
internationalised name is stored as it is written and its path is the encoded one, and a path that is no
plain name is published elsewhere.

`copies_iff` says when the copy has the addresses that are published at the target. -/

namespace HexDns.Tasks.AnameCopies

open HexDns.Lib.Texts HexDns.Lib.Tables HexDns.Lib.Programs HexDns.Lib.MasterFile HexDns.Base.Py
  HexDns.Base.Label HexDns.Base.Message HexDns.Models.Db HexDns.Models.Env HexDns.Models.Convert
  HexDns.Models.Names HexDns.Grpc.Records HexDns.Grpc.Lookup HexDns.Tasks.ZoneFile
  HexDns.Tasks.Published HexDns.Tasks.ImportedOwners

section
variable (h : Host) (st : Store) (zone : Zone) (zoneRoot : DnsLabel)

/-- A row of `AddressRecord` of the zone. -/
def AddressRow (r : Row) : Prop := r ∈ st.records ∧ r.model = .address ∧ r.zone = zone.id

/-- The address is published at the owner by a row of `AddressRecord`. -/
def AddressAt (owner : DnsLabel) (a : IpAddr) : Prop :=
  ∃ r, AddressRow st zone r ∧ PublishedAt h zoneRoot r owner ∧ rowAddress r = some a

/-- An ANAME row is published, and answers, with the addresses of its target. -/
structure Copies (aname : Row) (target : DnsLabel) : Prop where
  zoneFile : ∀ owner, ownerText h aname = some owner → ∃ addresses : List IpAddr,
    rowText h st zone zoneRoot aname =
      .ok (line ["; ".toList, comment .aname, " record ".toList, showNat aname.id] ++
        addresses.flatMap fun a => publishedLine owner aname.ttl (addressRdata a)) ∧
    ∀ a, a ∈ addresses ↔ AddressAt h st zone zoneRoot target a
  answers : ∀ qtype ∈ [QType.a, .aaaa], ∀ queryName, ∃ rrs, anameRrs h st aname zone qtype queryName = .ok rrs ∧
    ∀ rr, rr ∈ rrs ↔ ∃ a, AddressAt h st zone zoneRoot target a ∧
      addressRr a qtype aname.ttl queryName = some rr

/-- The rows under the search name have the addresses of the rows that are published at the target. -/
structure Spelled (target : DnsLabel) (searchName : Text) : Prop where
  /-- The address of a row that is published at the target is in a row under the search name. -/
  others : ∀ r, AddressRow st zone r → PublishedAt h zoneRoot r target → r.recordName ≠ searchName →
    ∃ r', AddressRow st zone r' ∧ r'.recordName = searchName ∧ rowAddress r' = rowAddress r
  /-- If the target is no plain name, the address of a row under the search name is published at it. -/
  plain : ¬ PlainOwner zoneRoot target → ∀ r, AddressRow st zone r → r.recordName = searchName →
    ∃ r', AddressRow st zone r' ∧ PublishedAt h zoneRoot r' target ∧ rowAddress r' = rowAddress r

/-- What is copied has the addresses that are published at the target: the rows under the search name, or
the cache where `matchSuffix` fails, below the root of all names. -/
def Agrees (aname : Row) (target : DnsLabel) : Prop :=
  if target.matchSuffix zoneRoot then
    ∃ searchName, (target.stripSuffix zoneRoot).searchName = .ok searchName ∧
      Spelled h st zone zoneRoot target searchName
  else ∀ a, (∃ c ∈ st.anameCache, c.record = aname.id ∧ c.address = a) ↔ AddressAt h st zone zoneRoot target a

end

variable {h : Host} {st : Store} {zone : Zone} {zoneRoot target : DnsLabel} {aname : Row} {aliasName : Text}

/-! ### The name that is searched for -/

theorem mem_of_mem_stripSuffix {l s : DnsLabel} {b : Bytes} (hb : b ∈ (l.stripSuffix s).label) : b ∈ l.label := by
  unfold DnsLabel.stripSuffix butLastN at hb
  split_ifs at hb
  · cases hb
  · exact List.mem_of_mem_take hb
  · exact hb

/-- A row under the search name is published at the target if and only if that is a plain name. -/
theorem publishedAt_iff (hascii : IdnaAscii h) (hroot : DnsLabel.ofText h.py zone.zoneRoot = .ok zoneRoot)
    (htarget : ∀ b ∈ target.label, ∀ x ∈ b, x.toNat < 128) (hmatch : target.matchSuffix zoneRoot = true)
    {searchName : Text} (hsearch : (target.stripSuffix zoneRoot).searchName = .ok searchName) {r : Row}
    (hm : r.model ≠ .https) (hlower : h.py.lower r.recordName = r.recordName)
    (hname : r.recordName = searchName) : PublishedAt h zoneRoot r target ↔ PlainOwner zoneRoot target := by
  have hbelow : Below target zoneRoot := (matchSuffix_iff.mp hmatch).1
  have hkeeps : ∀ r' : Row, r'.model ≠ .https → dnsLabelToRecordName h target zone = .ok r'.recordName →
      (PublishedAt h zoneRoot r' target ↔ PlainOwner zoneRoot target) := fun r' hm' hname' =>
    (and_iff_right hbelow).symm.trans (keepsOwner_iff hascii hroot hname' rfl hm')
  obtain ⟨ts, hts, hjoined⟩ := searchName_eq_ok.mp hsearch
  by_cases hsame : zoneRoot.Eqv target
  · -- the apex: the row is written as one that is stored under `@`
    have hrecord : dnsLabelToRecordName h target zone = .ok ['@'] := by
      unfold dnsLabelToRecordName
      rw [hroot]
      change (if zoneRoot.Eqv target then _ else _) = _
      rw [if_pos hsame]
      rfl
    have hnil : r.recordName = [] := by
      have hlabel := (label_stripSuffix_eq_nil hmatch).mpr hsame
      unfold DnsLabel.texts at hts
      rw [hlabel] at hts
      obtain rfl := Except.ok.inj hts
      rw [hname, hjoined]
      rfl
    have howner : publishedOwner h zoneRoot r = publishedOwner h zoneRoot { r with recordName := ['@'] } := by
      unfold publishedOwner
      rw [ownerText_of_ne hm, hnil, ownerText_of_ne (show Row.model { r with recordName := ['@'] } ≠ .https from hm)]
      rfl
    have hiff := hkeeps { r with recordName := ['@'] } hm hrecord
    unfold PublishedAt at hiff ⊢
    rw [howner]
    exact hiff
  · -- below the apex: the path is ASCII and, as it is a stored name, in lower case
    refine hkeeps r hm ?_
    have htsAscii : ∀ t ∈ ts, IsAscii t := by
      obtain ⟨ts', hts', hascii'⟩ := exists_texts fun b hb => htarget b (mem_of_mem_stripSuffix hb)
      obtain rfl := Except.ok.inj (hts.symm.trans hts')
      exact hascii'
    have hjoinedAscii : IsAscii searchName := by
      intro c hc
      rw [hjoined] at hc
      rcases mem_of_mem_intercalate hc with hc | ⟨t, ht, hc⟩
      · rw [List.mem_singleton.mp hc]
        decide
      · exact htsAscii t ht c hc
    have hfixed : ∀ c ∈ searchName, lowerChar c = c := by
      rw [hname, lower_ascii hjoinedAscii] at hlower
      exact List.map_inj_left.mp (hlower.trans (List.map_id _).symm)
    have hlowers : ts.map h.py.lower = ts := by
      refine (List.map_congr_left fun t ht => ?_).trans (List.map_id ts)
      rw [lower_ascii (htsAscii t ht)]
      refine (List.map_congr_left fun c hc => ?_).trans (List.map_id t)
      refine hfixed c ?_
      rw [hjoined]
      exact mem_intercalate_of_mem ['.'] ht hc
    unfold dnsLabelToRecordName
    rw [hroot]
    change (if zoneRoot.Eqv target then _ else _) = _
    rw [if_neg hsame, hts]
    show Except.ok (['.'].intercalate (ts.map h.py.lower)) = Except.ok r.recordName
    rw [hlowers, hname, hjoined]

/-! ### The addresses that are copied -/

/-- The zone file and the answers are made from these addresses. -/
structure CopiedFrom (h : Host) (st : Store) (zone : Zone) (zoneRoot : DnsLabel) (aname : Row)
    (aliasName : Text) (addresses : List IpAddr) : Prop where
  data : aname.data = .aname aliasName
  zoneFile : anameAddresses h st zone zoneRoot aname aliasName = .ok addresses
  answers : ∀ qtype queryName, anameRrs h st aname zone qtype queryName =
    .ok (addresses.filterMap (addressRr · qtype aname.ttl queryName))

theorem address_of_addressRr {a b : IpAddr} {qtype : QType} {ttl : ℕ} {queryName : DnsLabel} {rr : Rr}
    (ha : addressRr a qtype ttl queryName = some rr) (hb : addressRr b qtype ttl queryName = some rr) :
    a = b := by
  unfold addressRr at ha hb
  rcases a with a | a <;> rcases b with b | b <;> cases qtype <;> simp only [reduceCtorEq] at ha hb
  · simpa using ha.trans hb.symm
  · simpa using ha.trans hb.symm

/-- The two copies are right if and only if the addresses are those of the target. -/
theorem CopiedFrom.iff_mem {addresses : List IpAddr}
    (hc : CopiedFrom h st zone zoneRoot aname aliasName addresses) :
    Copies h st zone zoneRoot aname target ↔ ∀ a, a ∈ addresses ↔ AddressAt h st zone zoneRoot target a := by
  constructor
  · intro hcopies a
    obtain ⟨qtype, hqtype, rr, hrr⟩ : ∃ qtype ∈ [QType.a, .aaaa], ∃ rr,
        addressRr a qtype aname.ttl .root = some rr := by
      rcases a with a | a
      · exact ⟨.a, by decide, _, rfl⟩
      · exact ⟨.aaaa, by decide, _, rfl⟩
    obtain ⟨rrs, hrrs, hmem⟩ := hcopies.answers qtype hqtype .root
    obtain rfl := Except.ok.inj (hrrs.symm.trans (hc.answers qtype .root))
    constructor
    · intro ha
      obtain ⟨b, hb, hbrr⟩ := (hmem rr).mp (List.mem_filterMap.mpr ⟨a, ha, hrr⟩)
      rwa [address_of_addressRr hrr hbrr]
    · intro ha
      obtain ⟨b, hb, hbrr⟩ := List.mem_filterMap.mp ((hmem rr).mpr ⟨a, ha, hrr⟩)
      rwa [address_of_addressRr hrr hbrr]
  · intro hall
    refine ⟨fun owner howner => ⟨addresses, ?_, hall⟩, fun qtype _ queryName => ⟨_, hc.answers qtype queryName, ?_⟩⟩
    · have hpublished : published h st zone zoneRoot aname = .ok (some (addresses.map addressRdata)) := by
        unfold published
        rw [hc.data]
        dsimp only
        rw [hc.zoneFile]
        rfl
      have hmodel : aname.model = .aname := by
        unfold Row.model
        rw [hc.data]
        rfl
      unfold rowText
      rw [howner, hpublished, hmodel]
      show Except.ok (_ ++ (addresses.map addressRdata).flatMap (publishedLine owner aname.ttl)) = _
      rw [List.flatMap_map]
    · intro rr
      rw [List.mem_filterMap]
      exact exists_congr fun a => and_congr_left fun _ => hall a

/-- The target is in the zone for the code: the rows under the search name are copied. -/
theorem copiedFrom_rows (hroot : DnsLabel.ofText h.py zone.zoneRoot = .ok zoneRoot)
    (haddress : ∀ r, AddressRow st zone r → rowAddress r ≠ none) (hdata : aname.data = .aname aliasName)
    (htarget : DnsLabel.ofText h.py aliasName = .ok target) (hmatch : target.matchSuffix zoneRoot = true)
    {searchName : Text} (hsearch : (target.stripSuffix zoneRoot).searchName = .ok searchName) :
    CopiedFrom h st zone zoneRoot aname aliasName
      ((named st .address searchName zone).filterMap rowAddress) := by
  have hmapM : ∀ {f : Row → Except PyErr IpAddr} {rows : List Row},
      (∀ r a auto, r.data = .address (some a) auto → f r = .ok a) → (∀ r ∈ rows, AddressRow st zone r) →
        rows.mapM f = .ok (rows.filterMap rowAddress) := by
    intro f rows hf hrows
    induction rows with
    | nil => rfl
    | cons r rows ih =>
      have hrest := ih fun r' hr' => hrows r' (List.mem_cons_of_mem r hr')
      obtain ⟨a, auto, hdata⟩ : ∃ a auto, r.data = .address (some a) auto := by
        have hr := hrows r List.mem_cons_self
        have hsome := haddress r hr
        have hmodel : r.data.model = .address := hr.2.1
        unfold rowAddress at hsome
        rcases hcase : r.data with a | _ | _ | _ | _ | _ | _ | _ | _ | _ | _ | _ | _ | _ | _ | _ | _ | _ | _ | _
        case address => 
          rename_i auto
          rw [hcase] at hsome
          rcases a with _ | a
          · exact absurd rfl hsome
          · exact ⟨a, auto, rfl⟩
        all_goals
          rw [hcase] at hmodel
          cases hmodel
      have hrow : rowAddress r = some a := by
        unfold rowAddress
        rw [hdata]
      rw [List.mapM_cons, hf r a auto hdata, hrest, List.filterMap_cons_some hrow]
      rfl
  have hrows : ∀ r ∈ named st .address searchName zone, AddressRow st zone r := by
    intro r hr
    obtain ⟨hmem, hmodel, -, hzone⟩ := mem_named.mp hr
    exact ⟨hmem, hmodel, hzone⟩
  refine ⟨hdata, ?_, fun qtype queryName => ?_⟩
  · unfold anameAddresses
    rw [htarget]
    show (if target.matchSuffix zoneRoot then _ else _) = _
    rw [if_pos hmatch, hsearch]
    refine hmapM (fun r a auto hr => ?_) hrows
    rw [hr]
  · unfold anameRrs
    rw [hdata]
    dsimp only
    rw [htarget, hroot]
    show (if target.matchSuffix zoneRoot then _ else _) = _
    rw [if_pos hmatch, hsearch]
    rfl

/-- The target is not in the zone for the code: the cache is copied. -/
theorem copiedFrom_cache (hroot : DnsLabel.ofText h.py zone.zoneRoot = .ok zoneRoot)
    (hdata : aname.data = .aname aliasName) (htarget : DnsLabel.ofText h.py aliasName = .ok target)
    (hmatch : ¬ target.matchSuffix zoneRoot = true) :
    CopiedFrom h st zone zoneRoot aname aliasName
      ((st.anameCache.rows.filter fun c => c.record = aname.id).map AnameCache.address) := by
  refine ⟨hdata, ?_, fun qtype queryName => ?_⟩
  · unfold anameAddresses
    rw [htarget]
    show (if target.matchSuffix zoneRoot then _ else _) = _
    rw [if_neg hmatch]
    rfl
  · unfold anameRrs
    rw [hdata]
    dsimp only
    rw [htarget, hroot]
    show (if target.matchSuffix zoneRoot then _ else _) = _
    rw [if_neg hmatch, List.filterMap_map]
    rfl

/-- **An ANAME whose target is in its zone copies it if and only if** the rows under the search name have
the addresses of the rows that are published at the target. -/
theorem copies_iff (hascii : IdnaAscii h) (hroot : DnsLabel.ofText h.py zone.zoneRoot = .ok zoneRoot)
    (hlower : ∀ r, AddressRow st zone r → h.py.lower r.recordName = r.recordName)
    (haddress : ∀ r, AddressRow st zone r → rowAddress r ≠ none) (hdata : aname.data = .aname aliasName)
    (htarget : DnsLabel.ofText h.py aliasName = .ok target) :
    Copies h st zone zoneRoot aname target ↔ Agrees h st zone zoneRoot aname target := by
  unfold Agrees
  split_ifs with hmatch
  · obtain ⟨searchName, hsearch⟩ : ∃ searchName, (target.stripSuffix zoneRoot).searchName = .ok searchName := by
      obtain ⟨ts, hts, -⟩ := @exists_texts (target.stripSuffix zoneRoot) fun b hb =>
        ascii_ofText htarget b (mem_of_mem_stripSuffix hb)
      exact ⟨_, searchName_eq_ok.mpr ⟨ts, hts, rfl⟩⟩
    have hmem : ∀ a, a ∈ (named st .address searchName zone).filterMap rowAddress ↔
        ∃ r, AddressRow st zone r ∧ r.recordName = searchName ∧ rowAddress r = some a := by
      intro a
      rw [List.mem_filterMap]
      refine exists_congr fun r => ?_
      rw [mem_named]
      exact ⟨fun ⟨⟨h1, h2, h3, h4⟩, h5⟩ => ⟨⟨h1, h2, h4⟩, h3, h5⟩,
        fun ⟨⟨h1, h2, h4⟩, h3, h5⟩ => ⟨⟨h1, h2, h3, h4⟩, h5⟩⟩
    have hpublished : ∀ r, AddressRow st zone r → r.recordName = searchName →
        (PublishedAt h zoneRoot r target ↔ PlainOwner zoneRoot target) := by
      intro r hr hname
      have hmodel : r.model ≠ .https := by
        rw [hr.2.1]
        decide
      exact publishedAt_iff hascii hroot (ascii_ofText htarget) hmatch hsearch hmodel (hlower r hr) hname
    rw [(copiedFrom_rows hroot haddress hdata htarget hmatch hsearch).iff_mem]
    constructor
    · intro hall
      refine ⟨searchName, hsearch, fun r hr hat _ => ?_, fun _ r hr hname => ?_⟩
      · obtain ⟨a, ha⟩ := Option.ne_none_iff_exists'.mp (haddress r hr)
        obtain ⟨r', hr', hname', ha'⟩ := (hmem a).mp ((hall a).mpr ⟨r, hr, hat, ha⟩)
        exact ⟨r', hr', hname', ha'.trans ha.symm⟩
      · obtain ⟨a, ha⟩ := Option.ne_none_iff_exists'.mp (haddress r hr)
        obtain ⟨r', hr', hat', ha'⟩ := (hall a).mp ((hmem a).mpr ⟨r, hr, hname, ha⟩)
        exact ⟨r', hr', hat', ha'.trans ha.symm⟩
    · rintro ⟨searchName', hsearch', hspelled⟩ a
      obtain rfl := Except.ok.inj (hsearch.symm.trans hsearch')
      rw [hmem]
      constructor
      · rintro ⟨r, hr, hname, ha⟩
        by_cases hplain : PlainOwner zoneRoot target
        · exact ⟨r, hr, (hpublished r hr hname).mpr hplain, ha⟩
        · obtain ⟨r', hr', hat', ha'⟩ := hspelled.plain hplain r hr hname
          exact ⟨r', hr', hat', ha'.trans ha⟩
      · rintro ⟨r, hr, hat, ha⟩
        by_cases hname : r.recordName = searchName
        · exact ⟨r, hr, hname, ha⟩
        · obtain ⟨r', hr', hname', ha'⟩ := hspelled.others r hr hat hname
          exact ⟨r', hr', hname', ha'.trans ha⟩
  · rw [(copiedFrom_cache hroot hdata htarget hmatch).iff_mem]
    refine forall_congr' fun a => iff_congr ?_ Iff.rfl
    rw [List.mem_map]
    exact exists_congr fun c => by
      rw [List.mem_filter, decide_eq_true_iff, and_assoc]
      rfl

/-- The zone with an address of the record name. -/
private def addressStore (recordName : Text) : Store :=
  { Store.empty with records := Table.empty.save ⟨1, 1, recordName, 300, .address (some (.v4 0xc0000201#32)) false⟩ }

/-- An ANAME of `www`. -/
private def wwwAname (aliasName : Text) : Row := ⟨2, 1, "www".toList, 300, .aname aliasName⟩

theorem eq_of_addressRow {recordName : Text} {r : Row} (hr : AddressRow (addressStore recordName) exampleZone r) :
    r = ⟨1, 1, recordName, 300, .address (some (.v4 0xc0000201#32)) false⟩ := by
  have hmem := mem_save.mp hr.1
  rcases hmem with heq | ⟨hmem, -⟩
  · exact heq
  · cases hmem

theorem copies_host : Copies .ascii (addressStore "host".toList) exampleZone exampleRoot
    (wwwAname "host.example.com".toList) ⟨encode "host".toList :: exampleRoot.label⟩ := by
  refine (copies_iff idnaAscii_ascii (by decide) (fun r hr => ?_) (fun r hr => ?_) rfl (by decide)).mpr ?_
  · rw [eq_of_addressRow hr]
    decide
  · rw [eq_of_addressRow hr]
    decide
  · unfold Agrees
    rw [if_pos (by decide)]
    refine ⟨"host".toList, by decide, fun r hr _ hname => ?_, fun _ r hr _ => ⟨r, hr, ?_, rfl⟩⟩
    · rw [eq_of_addressRow hr] at hname
      exact absurd rfl hname
    · rw [eq_of_addressRow hr]
      exact ⟨encode "host".toList :: exampleRoot.label, by decide, rfl⟩

/-- The address of the apex is not copied: it is stored under `@`. -/
theorem not_copies : ¬ ∀ (h : Host) (st : Store) (zone : Zone) (zoneRoot target : DnsLabel) (aname : Row)
    (aliasName : Text), IdnaAscii h → DnsLabel.ofText h.py zone.zoneRoot = .ok zoneRoot →
    (∀ r, AddressRow st zone r → h.py.lower r.recordName = r.recordName) →
    (∀ r, AddressRow st zone r → rowAddress r ≠ none) → aname.data = .aname aliasName →
    DnsLabel.ofText h.py aliasName = .ok target → Below target zoneRoot →
    Copies h st zone zoneRoot aname target := by
  intro hall
  have hcopied : CopiedFrom .ascii (addressStore ['@']) exampleZone exampleRoot (wwwAname "example.com".toList)
      "example.com".toList ((named (addressStore ['@']) .address [] exampleZone).filterMap rowAddress) := by
    refine @copiedFrom_rows .ascii _ exampleZone exampleRoot exampleRoot _ _ (by decide) (fun r hr => ?_) rfl
      (by decide) (by decide) [] (by decide)
    rw [eq_of_addressRow hr]
    decide
  have hcopies : Copies .ascii (addressStore ['@']) exampleZone exampleRoot (wwwAname "example.com".toList)
      exampleRoot := by
    refine hall .ascii _ exampleZone exampleRoot exampleRoot _ "example.com".toList idnaAscii_ascii (by decide)
      (fun r hr => ?_) (fun r hr => ?_) rfl (by decide) (by decide)
    · rw [eq_of_addressRow hr]
      decide
    · rw [eq_of_addressRow hr]
      decide
  have hat : AddressAt .ascii (addressStore ['@']) exampleZone exampleRoot exampleRoot (.v4 0xc0000201#32) :=
    ⟨⟨1, 1, ['@'], 300, .address (some (.v4 0xc0000201#32)) false⟩,
      ⟨mem_save.mpr (Or.inl rfl), rfl, rfl⟩, ⟨exampleRoot.label, by decide, rfl⟩, rfl⟩
  have hmem := (hcopied.iff_mem.mp hcopies (.v4 0xc0000201#32)).mpr hat
  exact absurd hmem (by decide)

end HexDns.Tasks.AnameCopies
