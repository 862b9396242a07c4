import HexDns.Models.Validators
import HexDns.Tasks.SignalZones

/-! # The tenants of the signalling zones

The file of a signalling zone is the sections of all zones. A section is its lines if each text of an
additional row ends the line that it stands on; then what one zone publishes does not depend on the
rows of another (`apart_of_contained`). The validators do not see to it: a public key may go on after
its padding with lines of its own (`not_apart_injected`). -/

namespace HexDns.Tasks.Tenants

open HexDns.Lib.Texts HexDns.Lib.MasterFile HexDns.Lib.Tables HexDns.Lib.Programs HexDns.Base.Py
  HexDns.Base.Codecs HexDns.Base.Label HexDns.Models.Db HexDns.Models.Env HexDns.Models.Names
  HexDns.Models.Validators HexDns.Tasks.ZoneFile HexDns.Tasks.Lines HexDns.Tasks.SignalZones

/-- The rows that the signalling zones are made of are the same, those of the zone `z` apart. -/
structure SameExcept (z : ℕ) (st st' : Store) : Prop where
  zones : (st.zones.rows.filter fun zone => zone.id ≠ z) =
    st'.zones.rows.filter fun zone => zone.id ≠ z
  additionalCds : (st.additionalCds.rows.filter fun cds => cds.dnsZone ≠ z) =
    st'.additionalCds.rows.filter fun cds => cds.dnsZone ≠ z
  additionalCdnskey : (st.additionalCdnskey.rows.filter fun cdnskey => cdnskey.dnsZone ≠ z) =
    st'.additionalCdnskey.rows.filter fun cdnskey => cdnskey.dnsZone ≠ z

/-- The rows of a zone pass their validators. -/
structure Valid (z : ℕ) (st : Store) : Prop where
  additionalCds : ∀ cds ∈ st.additionalCds, cds.dnsZone = z → cleanCds cds = .ok ()
  additionalCdnskey : ∀ cdnskey ∈ st.additionalCdnskey, cdnskey.dnsZone = z →
    cleanCdnskey cdnskey = .ok ()

/-- The owner in the signalling zone of a name server. -/
def ownerOf (ns : Text) (root : DnsLabel) : DnsLabel := ⟨dsbootLabels root ++ (signalRoot ns).label⟩

section
variable (h : Host)

/-- The records of a signalling zone. -/
def signalRecords (st : Store) (time : ℕ) (ns : Text) : Option (List Record) :=
  (signalZone h st time ns).toOption.bind (records [])

/-- The records at an owner. -/
def recordsAt (owner : DnsLabel) (rs : List Record) : List Record :=
  rs.filter fun r => owner.Eqv ⟨r.owner⟩

/-- Both files can be read, and the records at the owner of the root are the same in them. -/
def Apart (time : ℕ) (ns : Text) (root : DnsLabel) (st st' : Store) : Prop :=
  ∃ rs rs', signalRecords h st time ns = some rs ∧ signalRecords h st' time ns = some rs' ∧
    recordsAt (ownerOf ns root) rs = recordsAt (ownerOf ns root) rs'

/-- The texts of a zone are written. -/
def IsWritten (st : Store) (z : ℕ) : Prop :=
  ∃ zone ∈ st.zones, zone.id = z ∧ rootPattern zone.zoneRoot = true ∧ zone.cdsDisable = false

/-- A text ends the line that it stands on, and the records of further lines are none of the owner's
if the text is one of the zone `z`. -/
def Keeps (ns : Text) (root : DnsLabel) (z zone : ℕ) (t : Text) : Prop :=
  ∃ ks rs, Closes (signalRoot ns).label t ks rs ∧
    (zone = z → ∀ r ∈ rs, ¬ (ownerOf ns root).Eqv ⟨r.owner⟩)

/-- The roots that are published make owners, that of the zone `z` another than the owner of `root`,
and the texts that are written keep to their lines. -/
structure Contained (ns : Text) (root : DnsLabel) (z : ℕ) (st : Store) : Prop where
  zones : ∀ zone ∈ st.zones, rootPattern zone.zoneRoot = true → ∃ zoneRoot,
    DnsLabel.ofText h.py zone.zoneRoot = .ok zoneRoot ∧
    validLabels (ownerOf ns zoneRoot).label = true ∧
    (zone.cdsDisable = false → ∃ name, h.encodeName zoneRoot = .ok name) ∧
    (zone.id = z → ¬ (ownerOf ns root).Eqv (ownerOf ns zoneRoot))
  additionalCds : ∀ cds ∈ st.additionalCds, IsWritten st cds.dnsZone →
    Keeps ns root z cds.dnsZone cds.digest
  additionalCdnskey : ∀ cdnskey ∈ st.additionalCdnskey, IsWritten st cdnskey.dnsZone →
    Keeps ns root z cdnskey.dnsZone cdnskey.publicKey

end

/-! ### The sections -/

section
variable {h : Host} {st st' : Store} {ns : Text} {root : DnsLabel} {z : ℕ} {time : ℕ}

/-- The section of a zone is its lines, and those of the zone `z` are at other owners. -/
theorem gives_zoneSection (hc : Contained h ns root z st) {zone : Zone} (hz : zone ∈ st.zones) :
    ∃ t, zoneSection h st zone = .ok t ∧ GivesOnly (signalRoot ns).label
      (fun r => zone.id = z → ¬ (ownerOf ns root).Eqv ⟨r.owner⟩) t := by
  by_cases hpub : rootPattern zone.zoneRoot = true
  · obtain ⟨zoneRoot, hroot, hvalid, henc, hother⟩ := hc.zones zone hz hpub
    have hclean : ∀ b ∈ zoneRoot.label, ∀ x ∈ b, CleanByte x := fun b hb x hx =>
      (labels_of_root hpub hroot b hb x hx).1
    have hread : readName (signalRoot ns).label (labelsToken (dsbootLabels zoneRoot)) =
        some (ownerOf ns zoneRoot).label := by
      rw [readName_dsboot _ hclean, Option.filter_some]
      exact if_pos hvalid
    have hwritten : zone.cdsDisable = false → IsWritten st zone.id := fun hdis =>
      ⟨zone, hz, rfl, hpub, hdis⟩
    obtain ⟨cds, hcds, hgives⟩ := givesOnly_cdsText (h := h) (spells_dsbootText hclean)
      (noDirective_dsboot zoneRoot) hread
      (P := fun r => zone.id = z → ¬ (ownerOf ns root).Eqv ⟨r.owner⟩)
      (fun r hr _ hid => by rw [hr]; exact hother hid) henc
      (fun hdis cds hmem hzone => by
        obtain ⟨ks, rs, hclose, hrs⟩ := hc.additionalCds cds hmem (hzone ▸ hwritten hdis)
        exact ⟨ks, rs, hclose, fun r hr hid => hrs (hzone.trans hid) r hr⟩)
      (fun hdis cdnskey hmem hzone => by
        obtain ⟨ks, rs, hclose, hrs⟩ := hc.additionalCdnskey cdnskey hmem (hzone ▸ hwritten hdis)
        exact ⟨ks, rs, hclose, fun r hr hid => hrs (hzone.trans hid) r hr⟩)
    refine ⟨_, (zoneSection_eq_ok hpub).mpr ⟨zoneRoot, cds, hroot, hcds, rfl⟩, GivesOnly.append ?_ hgives⟩
    exact ⟨[], gives_commentLine (t := " Zone ".toList) (by decide) zone.id, fun r hr => by cases hr⟩
  · exact ⟨[], zoneSection_skip (by simpa using hpub), [], gives_nil, fun r hr => by cases hr⟩

/-- The records of the section of a zone. -/
def sectionRecords (h : Host) (ns : Text) (st : Store) (zone : Zone) : List Record :=
  ((zoneSection h st zone).toOption.bind (records (signalRoot ns).label)).getD []

theorem sectionRecords_eq {zone : Zone} {t : Text} {rs : List Record} (ht : zoneSection h st zone = .ok t)
    (hgives : Gives (signalRoot ns).label t rs) : sectionRecords h ns st zone = rs := by
  unfold sectionRecords
  rw [ht]
  show (records _ t).getD [] = rs
  rw [hgives.records]
  rfl

theorem gives_sections (hc : Contained h ns root z st) {zones : List Zone}
    (hz : ∀ zone ∈ zones, zone ∈ st.zones) : ∃ sections, zones.mapM (zoneSection h st) = .ok sections ∧
      Gives (signalRoot ns).label sections.flatten (zones.flatMap (sectionRecords h ns st)) := by
  refine gives_mapM fun zone hmem => ?_
  obtain ⟨t, ht, rs, hgives, -⟩ := gives_zoneSection hc (hz zone hmem)
  exact ⟨t, ht, by rwa [sectionRecords_eq ht hgives]⟩

/-- **The records of a signalling zone** are those of its header and of the sections one by one. -/
theorem signalRecords_eq (hns : ns ∈ nameservers) (hc : Contained h ns root z st) :
    signalRecords h st time ns = some (signalHeaderRecords (signalRoot ns).label time ++
      st.zones.rows.flatMap (sectionRecords h ns st)) := by
  have hvalid := valid_signalRoot hns
  obtain ⟨sections, hsections, hgives⟩ := gives_sections hc (fun _ hz => hz : ∀ zone ∈ st.zones.rows, _)
  have htext : signalZone h st time ns = .ok _ := (signalZone_eq_ok hns).mpr ⟨sections, hsections, rfl⟩
  unfold signalRecords
  rw [htext]
  exact records_of_gives (adds_originLine (hasHead_signalRoot ns) (clean_signalRoot hns))
    (readName_nameToken [] (hasHead_signalRoot ns) (clean_signalRoot hns) hvalid)
    ((gives_signalHeader hvalid time).append hgives)

/-- The section of the zone `z` has no record at the owner. -/
theorem recordsAt_section (hc : Contained h ns root z st) {zone : Zone} (hz : zone ∈ st.zones)
    (hid : zone.id = z) : recordsAt (ownerOf ns root) (sectionRecords h ns st zone) = [] := by
  obtain ⟨t, ht, rs, hgives, hrs⟩ := gives_zoneSection hc hz
  rw [sectionRecords_eq ht hgives]
  refine List.filter_eq_nil_iff.mpr fun r hr => ?_
  simpa using hrs r hr hid

theorem filter_eq_of_ne {R : Type} {key : R → ℕ} {l l' : List R}
    (hl : (l.filter fun r => key r ≠ z) = l'.filter fun r => key r ≠ z) {n : ℕ} (hn : n ≠ z) :
    (l.filter fun r => key r = n) = l'.filter fun r => key r = n := by
  have hfilter : ∀ l : List R, (l.filter fun r => key r = n) =
      (l.filter fun r => key r ≠ z).filter fun r => key r = n := by
    intro l
    rw [List.filter_filter]
    refine List.filter_congr fun r _ => ?_
    by_cases hr : key r = n
    · simp [hr, hn]
    · simp [hr]
  rw [hfilter l, hl, ← hfilter l']

/-- The rows of another zone are not looked at. -/
theorem zoneSection_congr (hs : SameExcept z st st') {zone : Zone} (hid : zone.id ≠ z) :
    zoneSection h st zone = zoneSection h st' zone := by
  have hcds := filter_eq_of_ne hs.additionalCds hid
  have hkey := filter_eq_of_ne hs.additionalCdnskey hid
  unfold zoneSection cdsText
  rw [hcds, hkey]

/-- At the owner are the records of the sections of the other zones. -/
theorem recordsAt_sections (hc : Contained h ns root z st) :
    recordsAt (ownerOf ns root) (st.zones.rows.flatMap (sectionRecords h ns st)) =
      recordsAt (ownerOf ns root)
        ((st.zones.rows.filter fun zone => zone.id ≠ z).flatMap (sectionRecords h ns st)) := by
  have hzones : ∀ zones : List Zone, (∀ zone ∈ zones, zone ∈ st.zones) →
      recordsAt (ownerOf ns root) (zones.flatMap (sectionRecords h ns st)) =
        recordsAt (ownerOf ns root)
          ((zones.filter fun zone => zone.id ≠ z).flatMap (sectionRecords h ns st)) := by
    intro zones hz
    induction zones with
    | nil => rfl
    | cons zone zones ih =>
      have hrest := ih fun y hy => hz y (List.mem_cons_of_mem zone hy)
      have happend : ∀ rs qs : List Record, recordsAt (ownerOf ns root) (rs ++ qs) =
          recordsAt (ownerOf ns root) rs ++ recordsAt (ownerOf ns root) qs := fun rs qs =>
        List.filter_append ..
      rw [List.flatMap_cons, happend, hrest]
      by_cases hid : zone.id = z
      · rw [recordsAt_section hc (hz zone List.mem_cons_self) hid, List.filter_cons_of_neg (by simpa using hid)]
        rfl
      · rw [List.filter_cons_of_pos (by simpa using hid), List.flatMap_cons, happend]
  exact hzones st.zones.rows fun _ hz => hz

/-- **Tenants are apart** if the texts that are written keep to their lines: both files can be read,
and what is at an owner does not depend on the rows of another zone. -/
theorem apart_of_contained (hns : ns ∈ nameservers) (hs : SameExcept z st st')
    (hc : Contained h ns root z st) (hc' : Contained h ns root z st') : Apart h time ns root st st' := by
  refine ⟨_, _, signalRecords_eq hns hc, signalRecords_eq hns hc', ?_⟩
  have happend : ∀ rs qs : List Record, recordsAt (ownerOf ns root) (rs ++ qs) =
      recordsAt (ownerOf ns root) rs ++ recordsAt (ownerOf ns root) qs := fun rs qs =>
    List.filter_append ..
  have hrecords : (st.zones.rows.filter fun zone => zone.id ≠ z).flatMap (sectionRecords h ns st) =
      (st.zones.rows.filter fun zone => zone.id ≠ z).flatMap (sectionRecords h ns st') := by
    refine List.flatMap_congr fun zone hzone => ?_
    have hid : zone.id ≠ z := by simpa using (List.mem_filter.mp hzone).2
    unfold sectionRecords
    rw [zoneSection_congr hs hid]
  rw [happend, happend, recordsAt_sections hc, recordsAt_sections hc', hrecords, hs.zones]

end

/-! ### Two tenants -/

/-- Two zones, the second with an additional CDNSKEY row. -/
def twoTenants (publicKey : Text) : Store :=
  { Store.empty with
    zones := (Table.empty.save ⟨1, "example.com".toList, false⟩).save ⟨2, "example.net".toList, false⟩
    additionalCdnskey := Table.empty.save ⟨1, 2, 257, 3, 13, publicKey⟩ }

/-- The root of the first. -/
def firstTenant : DnsLabel := ⟨["example", "com"].map fun l => encode l.toList⟩

/-- A public key that is one word keeps to its line. -/
theorem contained_twoTenants {publicKey : Text} (hkey : ∀ c ∈ publicKey, Lexer.isSpecial c = false) :
    Contained .ascii "ns1.as207960.net.".toList firstTenant 2 (twoTenants publicKey) := by
  refine ⟨?_, ?_, ?_⟩
  · intro zone hzone _
    have hrows : zone ∈ [(⟨1, "example.com".toList, false⟩ : Zone), ⟨2, "example.net".toList, false⟩] :=
      hzone
    simp only [List.mem_cons, List.not_mem_nil, or_false] at hrows
    rcases hrows with rfl | rfl
    · exact ⟨firstTenant, by decide, by decide, fun _ => ⟨_, rfl⟩,
        fun hid => absurd hid (by decide)⟩
    · exact ⟨⟨["example", "net"].map fun l => encode l.toList⟩, by decide, by decide,
        fun _ => ⟨_, rfl⟩, fun _ => by decide⟩
  · intro cds hcds
    cases hcds
  · intro cdnskey hcdnskey _
    obtain rfl := List.mem_singleton.mp hcdnskey
    obtain ⟨ks, hks⟩ := closes_plain (signalRoot "ns1.as207960.net.".toList).label hkey
    exact ⟨ks, [], hks, fun _ r hr => by cases hr⟩

theorem apart_twoTenants : Apart .ascii 0 "ns1.as207960.net.".toList firstTenant
    (twoTenants "AA==".toList) (twoTenants "AQID".toList) :=
  apart_of_contained (by decide) ⟨by decide, by decide, by decide⟩
    (contained_twoTenants (by decide)) (contained_twoTenants (by decide))

/-- A public key with a line after its padding. -/
def injectedKey : Text := "AA==\n_dsboot.example.com._signal 86400 IN CDS 0 0 0 00".toList

/-- The rows pass their validators and differ in a row of the second zone only, and a CDS record of the
first zone is added. -/
theorem not_apart_injected :
    SameExcept 2 (twoTenants "AA==".toList) (twoTenants injectedKey) ∧
      Valid 2 (twoTenants "AA==".toList) ∧ Valid 2 (twoTenants injectedKey) ∧
      ¬ Apart .ascii 0 "ns1.as207960.net.".toList firstTenant (twoTenants "AA==".toList)
        (twoTenants injectedKey) := by
  refine ⟨⟨by decide, by decide, by decide⟩, ⟨by decide, by decide⟩, ⟨by decide, by decide⟩, ?_⟩
  rintro ⟨rs, rs', hrs, hrs', heq⟩
  have hne : (signalRecords .ascii (twoTenants "AA==".toList) 0 "ns1.as207960.net.".toList).map
        (recordsAt (ownerOf "ns1.as207960.net.".toList firstTenant)) ≠
      (signalRecords .ascii (twoTenants injectedKey) 0 "ns1.as207960.net.".toList).map
        (recordsAt (ownerOf "ns1.as207960.net.".toList firstTenant)) := by
    decide +kernel
  rw [hrs, hrs', Option.map_some, Option.map_some, heq] at hne
  exact hne rfl

end HexDns.Tasks.Tenants
