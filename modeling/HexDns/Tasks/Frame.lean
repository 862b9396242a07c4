import HexDns.Tasks.ZoneFile

/-! # What a zone file depends on

`generate_fzone` reads the rows of its zone: a store in which they are the same gives the same file
(`generateFzone_congr`), and a write to rows of other zones leaves them the same (`sameZone_put`,
`sameZone_drop`). -/

namespace HexDns.Tasks.Frame

open HexDns.Lib.Texts HexDns.Lib.Tables HexDns.Lib.Programs HexDns.Base.Py HexDns.Base.Label
  HexDns.Models.Db HexDns.Models.Env HexDns.Models.Convert HexDns.Grpc.Records HexDns.Tasks.ZoneFile

/-- The rows that the file of a zone is made of are the same. -/
structure SameZone (z : ℕ) (st st' : Store) : Prop where
  records : (st.records.rows.filter fun r => r.zone = z) = st'.records.rows.filter fun r => r.zone = z
  customNs : (st.customNs.rows.filter fun ns => ns.dnsZone = z) =
    st'.customNs.rows.filter fun ns => ns.dnsZone = z
  additionalCds : (st.additionalCds.rows.filter fun cds => cds.dnsZone = z) =
    st'.additionalCds.rows.filter fun cds => cds.dnsZone = z
  additionalCdnskey : (st.additionalCdnskey.rows.filter fun cdnskey => cdnskey.dnsZone = z) =
    st'.additionalCdnskey.rows.filter fun cdnskey => cdnskey.dnsZone = z
  anameCache : ∀ r ∈ st.records, r.zone = z → (st.anameCache.rows.filter fun c => c.record = r.id) =
    st'.anameCache.rows.filter fun c => c.record = r.id

theorem SameZone.refl (z : ℕ) (st : Store) : SameZone z st st := ⟨rfl, rfl, rfl, rfl, fun _ _ _ => rfl⟩

section
variable {h : Host} {st st' : Store} {zone : Zone}

theorem mem_rowsOf {m : Model} {r : Row} :
    r ∈ rowsOf st zone m ↔ r ∈ st.records ∧ r.zone = zone.id ∧ r.model = m := by
  unfold rowsOf
  rw [List.mem_insertionSort, mem_recordsOf, decide_eq_true_iff]
  exact and_congr_right fun _ => and_comm

theorem mem_flatMap_rowsOf {ms : List Model} {r : Row} :
    r ∈ ms.flatMap (rowsOf st zone) ↔ r ∈ st.records ∧ r.zone = zone.id ∧ r.model ∈ ms := by
  rw [List.mem_flatMap]
  constructor
  · rintro ⟨m, hm, hr⟩
    obtain ⟨hmem, hz, hmodel⟩ := mem_rowsOf.mp hr
    exact ⟨hmem, hz, hmodel ▸ hm⟩
  · rintro ⟨hr, hz, hm⟩
    exact ⟨r.model, hm, mem_rowsOf.mpr ⟨hr, hz, rfl⟩⟩

theorem SameZone.recordsOf (hs : SameZone zone.id st st') (m : Model) (p : Row → Bool) :
    (st.recordsOf m fun r => p r ∧ r.zone = zone.id) = st'.recordsOf m fun r => p r ∧ r.zone = zone.id := by
  have hfilter : ∀ l : List Row, (l.filter fun r => r.model = m && decide (p r ∧ r.zone = zone.id)) =
      (l.filter fun r => r.zone = zone.id).filter fun r => r.model = m && p r := by
    intro l
    rw [List.filter_filter]
    refine List.filter_congr fun r _ => ?_
    by_cases hz : r.zone = zone.id <;> simp [hz]
  show st.records.rows.filter _ = st'.records.rows.filter _
  rw [hfilter, hfilter, hs.records]

theorem SameZone.rowsOf (hs : SameZone zone.id st st') (m : Model) :
    rowsOf st zone m = rowsOf st' zone m := by
  have hrows := hs.recordsOf m fun _ => true
  simp only [true_and] at hrows
  unfold ZoneFile.rowsOf
  rw [hrows]

theorem SameZone.rowText (hs : SameZone zone.id st st') (zoneRoot : DnsLabel) {self : Row}
    (hself : self ∈ st.records) (hz : self.zone = zone.id) :
    rowText h st zone zoneRoot self = rowText h st' zone zoneRoot self := by
  have hnamed : ∀ name, named st .address name zone = named st' .address name zone := by
    intro name
    have := hs.recordsOf .address fun r => r.recordName = name
    simpa only [named, decide_eq_true_eq] using this
  have hcache := hs.anameCache self hself hz
  have haname : ∀ aliasName, anameAddresses h st zone zoneRoot self aliasName =
      anameAddresses h st' zone zoneRoot self aliasName := by
    intro aliasName
    unfold anameAddresses
    rw [hcache]
    simp only [hnamed]
  unfold ZoneFile.rowText ZoneFile.published
  simp only [haname]

theorem generateFzone_eq_ok {time : ℕ} {t : Text} : generateFzone h st time zone = .ok t ↔
    ∃ zoneRoot header texts, DnsLabel.ofText h.py zone.zoneRoot = .ok zoneRoot ∧
      generateZoneHeader h st time zone zoneRoot = .ok header ∧
      (publishedModels.flatMap (ZoneFile.rowsOf st zone)).mapM (ZoneFile.rowText h st zone zoneRoot) =
        .ok texts ∧ t = header ++ texts.flatten := by
  unfold generateFzone
  constructor
  · intro ht
    obtain ⟨zoneRoot, hroot, ht⟩ := bind_eq_ok.mp ht
    obtain ⟨header, hheader, ht⟩ := bind_eq_ok.mp ht
    obtain ⟨texts, htexts, ht⟩ := bind_eq_ok.mp ht
    exact ⟨zoneRoot, header, texts, hroot, hheader, htexts, (Except.ok.inj ht).symm⟩
  · rintro ⟨zoneRoot, header, texts, hroot, hheader, htexts, rfl⟩
    exact bind_eq_ok.mpr ⟨zoneRoot, hroot, bind_eq_ok.mpr ⟨header, hheader,
      bind_eq_ok.mpr ⟨texts, htexts, rfl⟩⟩⟩

/-- **The rows of the zone make its file.** -/
theorem generateFzone_congr (hs : SameZone zone.id st st') (time : ℕ) :
    generateFzone h st time zone = generateFzone h st' time zone := by
  have hrows : publishedModels.flatMap (rowsOf st zone) = publishedModels.flatMap (rowsOf st' zone) :=
    List.flatMap_congr fun m _ => hs.rowsOf m
  have htexts : ∀ zoneRoot, (publishedModels.flatMap (rowsOf st zone)).mapM (rowText h st zone zoneRoot) =
      (publishedModels.flatMap (rowsOf st' zone)).mapM (rowText h st' zone zoneRoot) := by
    intro zoneRoot
    rw [← hrows]
    refine mapM_congr fun r hr => ?_
    obtain ⟨hr, hz, -⟩ := mem_flatMap_rowsOf.mp hr
    exact hs.rowText zoneRoot hr hz
  unfold generateFzone generateZoneHeader cdsText
  simp only [hs.customNs, hs.additionalCds, hs.additionalCdnskey, htexts]

end

/-! ### Writes -/

section
variable {st : Store} {z : ℕ} {row : Row}

theorem zone_ne_of_getRow (hold : ∀ old, getRow st.records row.id = some old → old.zone ≠ z) {r : Row}
    (hr : r ∈ st.records) (hid : r.id = row.id) : r.zone ≠ z :=
  hold r (getRow_eq_some.mpr ⟨hr, hid⟩)

/-- A row of another zone is saved. -/
theorem sameZone_put (hnew : row.zone ≠ z)
    (hold : ∀ old, getRow st.records row.id = some old → old.zone ≠ z) : SameZone z st (Store.put st row) := by
  refine ⟨?_, rfl, rfl, rfl, fun _ _ _ => rfl⟩
  refine (filter_save (by simpa using hnew) fun r hr hid => ?_).symm
  simpa using zone_ne_of_getRow hold hr hid

/-- A row of another zone is dropped. -/
theorem sameZone_drop (hold : ∀ old, getRow st.records row.id = some old → old.zone ≠ z) :
    SameZone z st (Store.drop st row) := by
  refine ⟨?_, rfl, rfl, rfl, fun r hr hz => ?_⟩
  · refine (filter_erasing fun r hr hz => ?_).symm
    have hid : r.id ≠ row.id := fun hid => zone_ne_of_getRow hold hr hid (by simpa using hz)
    simpa using hid
  · have hid : r.id ≠ row.id := fun hid => zone_ne_of_getRow hold hr hid hz
    refine (filter_erasing fun c _ hc => ?_).symm
    have hc' : c.record = r.id := by simpa using hc
    simpa [hc'] using hid

end

end HexDns.Tasks.Frame
