import HexDns.Lib.Runs
import HexDns.Grpc.Steps
import HexDns.Models.ImportZone
import HexDns.Tasks.Publication
import HexDns.Views.Dyndns

/-! # Changes of a zone

The operations that change the rows of forward zones, one after the other, with the queue drained after
each. Most put a task for the zone into the queue. `DHCIDRecord.delete`, `disable_zone_cds`,
`enable_zone_cds` and the deletions of an import that overwrites do not; `published_of_along` says that
the file of a zone is that of its rows in every run in which they change nothing that it is made of. -/

namespace HexDns.Tasks.Changes

open HexDns.Lib.Texts HexDns.Lib.Tables HexDns.Lib.Programs HexDns.Lib.Runs HexDns.Base.Py
  HexDns.Base.Label HexDns.Base.Message HexDns.Models HexDns.Models.Db HexDns.Models.Env
  HexDns.Models.Convert HexDns.Models.ImportZone HexDns.Grpc.Steps HexDns.Tasks.ZoneFile HexDns.Tasks.Frame
  HexDns.Tasks.Publication HexDns.Views.Dyndns

/-! ### Operations -/

inductive Operation
  | saveRecord (self : Row)
  | deleteRecord (self : Row)
  | saveCds (self : AdditionalCds)
  | deleteCds (self : AdditionalCds)
  | saveCdnskey (self : AdditionalCdnskey)
  | deleteCdnskey (self : AdditionalCdnskey)
  | saveCustomNs (self : CustomNs)
  | deleteCustomNs (self : CustomNs)
  /-- `disable_zone_cds` and `enable_zone_cds`, up to the permission -/
  | setCdsDisable (zone : ℕ) (disable : Bool)
  | importZoneFile (zone : ℕ) (zoneData : Text) (overwrite : Bool)
  | updateIp (request : Request)

section
variable (h : Host) (parser : ZoneParser) (w : Web)

/-- `user_zone.cds_disable = …` and `user_zone.save()` -/
def setCdsDisable (zone : ℕ) (disable : Bool) (st : Store) : Store :=
  match getRow st.zones zone with
  | none => st
  | some row => { st with
      zones := st.zones.save { row with zoneRoot := h.py.lower row.zoneRoot, cdsDisable := disable } }

/-- `update_ip`, which has at most four accesses to the database -/
def updateIp (request : Request) (st : Store) : Store :=
  ((fun x => advance h w request x.2 x.1)^[4] (.started, st)).2

/-- The rows and the queue after an operation. -/
def Operation.apply (op : Operation) (st : Store) : Store :=
  match op with
  | .saveRecord self => (run (saveRow h self) st).2
  | .deleteRecord self => (run (deleteRow self) st).2
  | .saveCds self =>
    { enqueued st self.dnsZone with additionalCds := st.additionalCds.save self }
  | .deleteCds self =>
    { enqueued st self.dnsZone with additionalCds := st.additionalCds.erase self.id }
  | .saveCdnskey self =>
    { enqueued st self.dnsZone with additionalCdnskey := st.additionalCdnskey.save self }
  | .deleteCdnskey self =>
    { enqueued st self.dnsZone with additionalCdnskey := st.additionalCdnskey.erase self.id }
  | .saveCustomNs self =>
    { enqueued st self.dnsZone with
      customNs := st.customNs.save { self with nameserver := h.py.lower self.nameserver } }
  | .deleteCustomNs self => { enqueued st self.dnsZone with customNs := st.customNs.erase self.id }
  | .setCdsDisable zone disable => Changes.setCdsDisable h zone disable st
  | .importZoneFile zone zoneData overwrite =>
    match getRow st.zones zone with
    | none => st
    | some self => (run (ImportZone.importZoneFile h parser self zoneData overwrite) st).2
  | .updateIp request => Changes.updateIp h w request st

structure State where
  db : Store
  /-- the zone files by their names -/
  files : Text → Option Text

/-- `update_fzone` -/
def updateFzone (db : Store) (time : ℕ) (files : Text → Option Text) (z : ℕ) :
    Except PyErr (Text → Option Text) :=
  (generate h db time z).map (stored files)

/-- An operation at a time, and the draining of the queue; there is no end of it if a task raises. -/
def step (s : State) (x : Operation × ℕ) : Option State :=
  let db := x.1.apply h parser w s.db
  (db.queue.foldlM (updateFzone h db x.2) s.files).toOption.map fun files =>
    ⟨{ db with queue := [] }, files⟩

/-- **The file of the zone is what `generate_fzone` gives** at some time. -/
def Published (z : ℕ) (s : State) : Prop :=
  ∀ zone, getRow s.db.zones z = some zone → ∃ zoneRoot time text,
    DnsLabel.ofText h.py zone.zoneRoot = .ok zoneRoot ∧ s.files zoneRoot.toText = some text ∧
    generateFzone h s.db time zone = .ok text

/-! ### The condition on an operation -/

/-- The row that the key has in the table, if any, is not of the zone. -/
def Elsewhere {R : Type} {key : R → ℕ} (t : Table R key) (k : ℕ) (zoneOf : R → ℕ) (z : ℕ) : Prop :=
  ∀ old, getRow t k = some old → zoneOf old ≠ z

/-- A record of a zone file that is saved. -/
def Imported (record : Rr) : Prop := record.rclass = .in ∧ (importColumns record.rtype).isSome = true

instance (record : Rr) : Decidable (Imported record) := inferInstanceAs (Decidable (_ ∧ _))

/-- The operation puts a task for the zone into the queue, or what it writes is not of the zone or there
already. -/
def Noticed (z : ℕ) (st : Store) : Operation → Prop
  | .saveRecord self => self.zone = z ∨ Elsewhere st.records self.id Row.zone z
  | .deleteRecord self =>
    (self.zone = z ∧ self.model ≠ .dhcid) ∨ Elsewhere st.records self.id Row.zone z
  | .saveCds self | .deleteCds self =>
    self.dnsZone = z ∨ Elsewhere st.additionalCds self.id AdditionalCds.dnsZone z
  | .saveCdnskey self | .deleteCdnskey self =>
    self.dnsZone = z ∨ Elsewhere st.additionalCdnskey self.id AdditionalCdnskey.dnsZone z
  | .saveCustomNs self | .deleteCustomNs self =>
    self.dnsZone = z ∨ Elsewhere st.customNs self.id CustomNs.dnsZone z
  | .setCdsDisable zone disable => zone = z → ∀ row, getRow st.zones z = some row →
      row.cdsDisable = disable ∧ h.py.lower row.zoneRoot = row.zoneRoot
  | .importZoneFile zone zoneData overwrite => zone = z → overwrite = true →
      (∃ r ∈ st.records, r.zone = z ∧ r.model ∈ overwrittenModels) → ∀ row, getRow st.zones z = some row →
      ∀ suffix, DnsLabel.ofText h.py row.zoneRoot = .ok suffix → ∀ records,
      parser zoneData suffix = .ok records → ∃ record ∈ records, Imported record
  | .updateIp _ => True

/-- **The condition on an operation**, where the zone has a root that `update_fzone` takes, and a file
of its own. -/
structure Ok (z : ℕ) (s : State) (x : Operation × ℕ) : Prop where
  noticed : Noticed h parser z s.db x.1
  root : ∀ zone, getRow (x.1.apply h parser w s.db).zones z = some zone → rootPattern zone.zoneRoot = true
  alone : ∀ zone : Zone, getRow (x.1.apply h parser w s.db).zones z = some zone →
    ∀ zone' : Zone, zone' ∈ (x.1.apply h parser w s.db).zones → zone'.id ≠ z → ∀ l l',
      DnsLabel.ofText h.py zone.zoneRoot = .ok l → DnsLabel.ofText h.py zone'.zoneRoot = .ok l' →
      l.toText ≠ l'.toText

end

/-! ### What an operation does -/

/-- The file of the zone is the same. -/
structure SameFile (z : ℕ) (st st' : Store) : Prop where
  rows : SameZone z st st'
  zone : getRow st'.zones z = getRow st.zones z

theorem SameFile.refl (z : ℕ) (st : Store) : SameFile z st st := ⟨SameZone.refl z st, rfl⟩

section
variable {z : ℕ} {st st' st'' : Store}

theorem SameFile.trans (h1 : SameFile z st st') (h2 : SameFile z st' st'') : SameFile z st st'' := by
  refine ⟨⟨h1.rows.records.trans h2.rows.records, h1.rows.customNs.trans h2.rows.customNs,
    h1.rows.additionalCds.trans h2.rows.additionalCds,
    h1.rows.additionalCdnskey.trans h2.rows.additionalCdnskey, fun r hr hz => ?_⟩, h2.zone.trans h1.zone⟩
  have hr' : r ∈ st'.records.rows.filter fun r => r.zone = z := by
    rw [← h1.rows.records]
    exact List.mem_filter.mpr ⟨hr, by simpa using hz⟩
  exact (h1.rows.anameCache r hr hz).trans (h2.rows.anameCache r (List.mem_filter.mp hr').1 hz)

theorem sameFile_enqueued (z' : ℕ) : SameFile z st (enqueued st z') :=
  ⟨⟨rfl, rfl, rfl, rfl, fun _ _ _ => rfl⟩, rfl⟩

section
variable {R : Type} {key zoneOf : R → ℕ} {t : Table R key}

theorem filter_save_elsewhere {r : R} (hr : zoneOf r ≠ z) (hold : Elsewhere t (key r) zoneOf z) :
    (t.rows.filter fun x => zoneOf x = z) = (t.save r).rows.filter fun x => zoneOf x = z := by
  refine (filter_save (by simpa using hr) fun x hx hkey => ?_).symm
  have hne : zoneOf x ≠ z := hold x (getRow_eq_some.mpr ⟨hx, hkey⟩)
  simpa using hne

theorem filter_erase_elsewhere {k : ℕ} (hold : Elsewhere t k zoneOf z) :
    (t.rows.filter fun x => zoneOf x = z) = (t.erase k).rows.filter fun x => zoneOf x = z := by
  refine (filter_erasing fun x hx hz => ?_).symm
  have hne : key x ≠ k := fun hkey => hold x (getRow_eq_some.mpr ⟨hx, hkey⟩) (by simpa using hz)
  simpa using hne

end

variable {h : Host} {row : Row}

theorem sameFile_saveStore (hz : row.zone ≠ z) (hold : Elsewhere st.records row.id Row.zone z) :
    SameFile z st (saveStore h st row) := by
  unfold saveStore
  split
  · rename_i row' hs
    obtain ⟨data, -, rfl, -⟩ := saved_eq_ok.mp hs
    exact (sameFile_enqueued row.zone).trans ⟨sameZone_put hz hold, rfl⟩
  · exact sameFile_enqueued row.zone

theorem queue_saveStore : (saveStore h st row).queue = st.queue ++ [row.zone] := by
  unfold saveStore
  split <;> rfl

theorem sameFile_deleteStore (hold : Elsewhere st.records row.id Row.zone z) :
    SameFile z st (deleteStore st row) := by
  unfold deleteStore
  split_ifs
  · exact ⟨sameZone_drop hold, rfl⟩
  · exact (sameFile_enqueued row.zone).trans ⟨sameZone_drop hold, rfl⟩

theorem queue_deleteStore (hm : row.model ≠ .dhcid) :
    (deleteStore st row).queue = st.queue ++ [row.zone] := by
  unfold deleteStore
  rw [if_neg hm]
  rfl

theorem sameFile_deleteSet {p : Row → Bool} (hp : ∀ r ∈ st.records, r.zone = z → p r = false) :
    SameFile z st (deleteSet p st) := by
  refine ⟨⟨?_, rfl, rfl, rfl, fun _ _ _ => rfl⟩, rfl⟩
  exact (filter_erasing fun r hr hz => hp r hr (by simpa using hz)).symm

end

/-! ### `update_ip` -/

section
variable {h : Host} {w : Web} {z : ℕ} {st₀ : Store}

/-- A request that has not put a task for the zone into the queue has left its file the same, and will
write to rows of other zones if it does not put one there. -/
def Going (z : ℕ) (st₀ : Store) (x : Stage × Store) : Prop :=
  z ∈ x.2.queue ∨ SameFile z st₀ x.2 ∧ match x.1 with
    | .loaded self _ => self ∈ x.2.records
    | .saving self _ _ zone => self ∈ x.2.records ∧ zone.id = self.zone
    | .saved _ zone => zone.id ≠ z
    | _ => True

theorem mem_of_load {request : Request} {st : Store} {self : Row} {current : Views.Dyndns.Current}
    (hload : load w request st = .ok (.inr (self, current))) : self ∈ st.records := by
  unfold load at hload
  obtain ⟨auth, -, hload⟩ := bind_eq_ok.mp hload
  split at hload
  · cases hload
  · split at hload
    · cases hload
    · split at hload
      · cases hload
      · rename_i hfind
        split_ifs at hload
        · cases hload
        · obtain ⟨rfl, rfl⟩ := Prod.mk.inj (Sum.inr.inj (Except.ok.inj hload))
          obtain ⟨row, hrow, hfind⟩ := Option.bind_eq_some_iff.mp hfind
          obtain ⟨c, -, heq⟩ := Option.map_eq_some_iff.mp hfind
          obtain ⟨rfl, -⟩ := Prod.mk.inj heq
          exact (getRow_eq_some.mp hrow).1

theorem going_advance {request : Request} {x : Stage × Store} (hx : Going z st₀ x) :
    Going z st₀ (advance h w request x.2 x.1) := by
  obtain ⟨stage, st⟩ := x
  rcases stage with _ | ⟨self, current⟩ | ⟨self, current, ip, zone⟩ | ⟨ip, zone⟩ | result
  · unfold advance
    rcases hload : load w request st with e | answer | ⟨self, current⟩
    · exact hx.imp_right fun hs => ⟨hs.1, trivial⟩
    · exact hx.imp_right fun hs => ⟨hs.1, trivial⟩
    · exact hx.imp_right fun hs => ⟨hs.1, mem_of_load hload⟩
  · unfold advance
    rcases hzone : getRow st.zones self.zone with _ | zone
    · simp only [hzone]
      exact hx.imp_right fun hs => ⟨hs.1, trivial⟩
    · simp only [hzone]
      rcases compare w request self current zone with e | answer | ip
      · exact hx.imp_right fun hs => ⟨hs.1, trivial⟩
      · exact hx.imp_right fun hs => ⟨hs.1, trivial⟩
      · exact hx.imp_right fun hs => ⟨hs.1, hs.2, (getRow_eq_some.mp hzone).2⟩
  · obtain ⟨stage, hstep, hstage⟩ : ∃ stage, advance h w request st (.saving self current ip zone) =
        (stage, saveStore h st (withCurrent self (current.set ip))) ∧
          (stage = .saved ip zone ∨ ∃ e, stage = .answered (.error e)) := by
      unfold advance
      dsimp only
      rw [run_saveRow]
      rcases saved h (withCurrent self (current.set ip)) with e | row
      · exact ⟨_, rfl, Or.inr ⟨e, rfl⟩⟩
      · exact ⟨_, rfl, Or.inl rfl⟩
    show Going z st₀ (advance h w request st (.saving self current ip zone))
    rw [hstep]
    by_cases hz : self.zone = z
    · left
      rw [queue_saveStore]
      exact List.mem_append_right _ (List.mem_singleton.mpr hz.symm)
    · refine hx.imp (fun hq => ?_) fun hs => ?_
      · rw [queue_saveStore]
        exact List.mem_append_left _ hq
      · obtain ⟨hsame, hself, hid⟩ := hs
        refine ⟨hsame.trans (sameFile_saveStore hz fun old hold => ?_), ?_⟩
        · obtain ⟨hmem, hkey⟩ := getRow_eq_some.mp hold
          rw [eq_of_key hmem hself hkey]
          exact hz
        · rcases hstage with rfl | ⟨e, rfl⟩
          · exact fun heq => hz (hid.symm.trans heq)
          · exact trivial
  · refine hx.imp_right fun hs => ⟨hs.1.trans ⟨⟨rfl, rfl, rfl, rfl, fun _ _ _ => rfl⟩, ?_⟩, trivial⟩
    show getRow (st.zones.save _) z = _
    rw [getRow_save, if_neg hs.2]
  · exact hx

/-- `update_ip` puts a task into the queue if it changes the row. -/
theorem updateIp_spec (request : Request) (st : Store) :
    z ∈ (updateIp h w request st).queue ∨ SameFile z st (updateIp h w request st) := by
  have hgoing : ∀ n, Going z st ((fun x => advance h w request x.2 x.1)^[n] (.started, st)) := by
    intro n
    induction n with
    | zero => exact Or.inr ⟨SameFile.refl z st, trivial⟩
    | succ n ih =>
      rw [Function.iterate_succ_apply']
      exact going_advance ih
  exact (hgoing 4).imp_right fun hsame => hsame.1

end

/-! ### The import -/

section
variable {h : Host} {self : Zone} {z : ℕ} {st : Store}

theorem importRr_of_not {record : Rr} (hr : ¬ Imported record) :
    run (importRr h self record) st = (.ok (), st) := by
  unfold importRr
  by_cases hclass : record.rclass = .in
  · rw [if_neg (not_not.mpr hclass)]
    rcases hcols : importColumns record.rtype with _ | columns
    · rfl
    · exact absurd ⟨hclass, by rw [hcols]; rfl⟩ hr
  · rw [if_pos hclass]
    rfl

/-- **What a record that is imported does.** -/
theorem run_importRr {record : Rr} (hclass : record.rclass = .in)
    {columns : Rr → Except PyErr RecordData} (hcols : importColumns record.rtype = some columns) :
    run (importRr h self record) st = match fromRr h columns record self st.records.next with
      | .error e => (.error e, st)
      | .ok r => run (saveRow h (if r.ttl ≤ 1 then { r with ttl := 3600 } else r))
          (if record.rtype = .cname then
            deleteSet (fun x => x.zone = self.id && x.model = .cname && x.recordName = r.recordName) st
          else st) := by
  unfold importRr
  rw [if_neg (not_not.mpr hclass), hcols]
  dsimp only
  rw [run_bind_ok (run_get st), run_bind, run_ofResult]
  rcases fromRr h columns record self st.records.next with e | r
  · rfl
  · dsimp only
    by_cases hcname : record.rtype = .cname
    · simp only [if_pos hcname]
      rfl
    · simp only [if_neg hcname]

/-- A record is not imported, or a row of the zone is saved with a new id, after rows of the zone are
deleted if it is a CNAME. -/
theorem importRr_cases (h : Host) (self : Zone) (st : Store) (record : Rr) :
    ((run (importRr h self record) st).2 = st ∧
      (Imported record → ∃ e, (run (importRr h self record) st).1 = .error e)) ∨
    ∃ st₁ row, (st₁ = st ∨ ∃ p, (∀ r : Row, p r = true → r.zone = self.id) ∧ st₁ = deleteSet p st) ∧
      row.zone = self.id ∧ row.id = st.records.next ∧
      (run (importRr h self record) st).2 = saveStore h st₁ row := by
  by_cases himp : Imported record
  · obtain ⟨hclass, hcols⟩ := himp
    obtain ⟨columns, hcols⟩ := Option.isSome_iff_exists.mp hcols
    rw [run_importRr hclass hcols]
    rcases hrow : fromRr h columns record self st.records.next with e | r
    · exact Or.inl ⟨rfl, fun _ => ⟨e, rfl⟩⟩
    · right
      have hr : r.zone = self.id ∧ r.id = st.records.next := by
        unfold fromRr at hrow
        obtain ⟨name, -, hrow⟩ := bind_eq_ok.mp hrow
        obtain ⟨data, -, hrow⟩ := bind_eq_ok.mp hrow
        obtain rfl := Except.ok.inj hrow
        exact ⟨rfl, rfl⟩
      refine ⟨_, if r.ttl ≤ 1 then { r with ttl := 3600 } else r, ?_, ?_, ?_, congrArg Prod.snd (run_saveRow _ _ _)⟩
      · split_ifs
        · right
          refine ⟨_, fun x hx => ?_, rfl⟩
          simp only [Bool.and_eq_true, decide_eq_true_eq] at hx
          exact hx.1.1
        · exact Or.inl rfl
      · split_ifs
        · exact hr.1
        · exact hr.1
      · split_ifs
        · exact hr.2
        · exact hr.2
  · left
    rw [importRr_of_not himp]
    exact ⟨rfl, fun himp' => absurd himp' himp⟩

theorem mem_queue_importRr (record : Rr) (hz : z ∈ st.queue) :
    z ∈ (run (importRr h self record) st).2.queue := by
  rcases importRr_cases h self st record with ⟨hst, -⟩ | ⟨st₁, row, hst₁, -, -, hst⟩
  · rwa [hst]
  · rw [hst, queue_saveStore]
    refine List.mem_append_left _ ?_
    rcases hst₁ with rfl | ⟨p, -, rfl⟩
    · exact hz
    · exact hz

theorem mem_queue_imported {record : Rr} (hr : Imported record) {st' : Store}
    (hrun : run (importRr h self record) st = (.ok (), st')) : self.id ∈ st'.queue := by
  have hst' : (run (importRr h self record) st).2 = st' := congrArg Prod.snd hrun
  rcases importRr_cases h self st record with ⟨-, herror⟩ |
    ⟨st₁, row, -, hzone, -, hst⟩
  · obtain ⟨e, he⟩ := herror hr
    rw [hrun] at he
    cases he
  · rw [← hst', hst, queue_saveStore, hzone]
    exact List.mem_append_right _ (List.mem_singleton.mpr rfl)

/-- Records of another zone are imported. -/
theorem sameFile_importRr (hz : self.id ≠ z) (record : Rr) :
    SameFile z st (run (importRr h self record) st).2 := by
  rcases importRr_cases h self st record with ⟨hst, -⟩ |
    ⟨st₁, row, hst₁, hzone, hid, hst⟩
  · rw [hst]
    exact SameFile.refl z st
  · have hsame : SameFile z st st₁ ∧ ∀ r ∈ st₁.records, r ∈ st.records := by
      rcases hst₁ with rfl | ⟨p, hp, rfl⟩
      · exact ⟨SameFile.refl z st₁, fun r hr => hr⟩
      · refine ⟨sameFile_deleteSet fun r _ hr => ?_, fun r hr => (mem_erasing.mp hr).1⟩
        rw [← Bool.not_eq_true]
        exact fun hpr => hz ((hp r hpr).symm.trans hr)
    rw [hst]
    refine hsame.1.trans (sameFile_saveStore (by rwa [hzone]) fun old hold => ?_)
    -- the id of the row is new
    obtain ⟨hmem, hkey⟩ := getRow_eq_some.mp hold
    have := key_lt_next (hsame.2 old hmem)
    omega

/-- A loop over records of which one is imported puts a task for the zone into the queue. -/
theorem mem_queue_runAll {records : List Rr} {st' : Store}
    (hrun : run (runAll (importRr h self) records) st = (.ok (), st'))
    (hr : self.id ∈ st.queue ∨ ∃ record ∈ records, Imported record) : self.id ∈ st'.queue := by
  induction records generalizing st with
  | nil =>
    obtain rfl : st = st' := congrArg Prod.snd hrun
    rcases hr with hq | ⟨record, hmem, -⟩
    · exact hq
    · exact absurd hmem List.not_mem_nil
  | cons record records ih =>
    change run (importRr h self record >>= fun _ => runAll (importRr h self) records) st = _ at hrun
    rw [run_bind] at hrun
    rcases hfirst : run (importRr h self record) st with ⟨e | u, st₁⟩
    · rw [hfirst] at hrun
      cases hrun
    · rw [hfirst] at hrun
      refine ih hrun ?_
      rcases hr with hq | ⟨record', hmem, himp⟩
      · left
        have hq' : self.id ∈ (run (importRr h self record) st).2.queue := mem_queue_importRr record hq
        rwa [hfirst] at hq'
      · rcases List.mem_cons.mp hmem with rfl | hmem
        · exact Or.inl (mem_queue_imported himp hfirst)
        · exact Or.inr ⟨record', hmem, himp⟩

theorem runAll_of_not {records : List Rr} (hr : ∀ record ∈ records, ¬ Imported record) :
    run (runAll (importRr h self) records) st = (.ok (), st) := by
  induction records with
  | nil => rfl
  | cons record records ih =>
    exact (run_bind_ok (importRr_of_not (hr record List.mem_cons_self))).trans
      (ih fun record' hmem => hr record' (List.mem_cons_of_mem record hmem))

theorem sameFile_runAll (hz : self.id ≠ z) (records : List Rr) :
    SameFile z st (run (runAll (importRr h self) records) st).2 := by
  induction records generalizing st with
  | nil => exact SameFile.refl z st
  | cons record records ih =>
    change SameFile z st (run (importRr h self record >>= fun _ => runAll (importRr h self) records) st).2
    have hfirst' : SameFile z st (run (importRr h self record) st).2 := sameFile_importRr hz record
    rw [run_bind]
    rcases hfirst : run (importRr h self record) st with ⟨e | u, st₁⟩
    · rw [hfirst] at hfirst'
      exact hfirst'
    · rw [hfirst] at hfirst'
      exact hfirst'.trans ih

/-- **What an import does** of a text that the parser accepts. -/
theorem run_importZoneFile {parser : ZoneParser} {zoneData : Text} (overwrite : Bool) (st : Store)
    {suffix : DnsLabel} (hsuffix : DnsLabel.ofText h.py self.zoneRoot = .ok suffix) {records : List Rr}
    (hrecords : parser zoneData suffix = .ok records) :
    run (importZoneFile h parser self zoneData overwrite) st =
      match run (runAll (importRr h self) records) (if overwrite then
        deleteSet (fun x => x.zone = self.id && overwrittenModels.contains x.model) st else st) with
      | (.ok (), st') => (.ok (), st')
      | (.error e, st') => (.error e, { st with queue := st'.queue }) := by
  have hatomic : ∀ m : Exec Store PyErr Unit, run (atomic m) st = match run m st with
      | (.ok (), st') => (.ok (), st')
      | (.error e, st') => (.error e, { st with queue := st'.queue }) := fun _ => rfl
  have hloop : ∀ k : Exec Store PyErr Unit, run (do
      if overwrite then
        modify (deleteSet fun x => x.zone = self.id && overwrittenModels.contains x.model)
      else pure ()
      k) st = run k (if overwrite then
        deleteSet (fun x => x.zone = self.id && overwrittenModels.contains x.model) st else st) := by
    intro k
    rcases overwrite with _ | _ <;> rfl
  unfold importZoneFile
  rw [run_bind, run_ofResult, hsuffix]
  dsimp only
  rw [run_bind, run_ofResult, hrecords]
  dsimp only [Except.mapError]
  rw [hatomic, hloop]

/-- The rows and the queue after an import are those of the loop, or those from before it with the tasks
of the loop, or nothing is done. -/
theorem import_cases (h : Host) (parser : ZoneParser) (self : Zone) (zoneData : Text) (overwrite : Bool)
    (st : Store) :
    (run (importZoneFile h parser self zoneData overwrite) st).2 = st ∨
    ∃ suffix records st₁, DnsLabel.ofText h.py self.zoneRoot = .ok suffix ∧
      parser zoneData suffix = .ok records ∧
      st₁ = (if overwrite then
        deleteSet (fun x => x.zone = self.id && overwrittenModels.contains x.model) st else st) ∧
      ((∃ e, (run (runAll (importRr h self) records) st₁).1 = .error e ∧
        (run (importZoneFile h parser self zoneData overwrite) st).2 =
          { st with queue := (run (runAll (importRr h self) records) st₁).2.queue }) ∨
      (run (runAll (importRr h self) records) st₁).1 = .ok () ∧
        (run (importZoneFile h parser self zoneData overwrite) st).2 =
          (run (runAll (importRr h self) records) st₁).2) := by
  rcases hsuffix : DnsLabel.ofText h.py self.zoneRoot with e | suffix
  · left
    unfold importZoneFile
    rw [run_bind, run_ofResult, hsuffix]
  rcases hrecords : parser zoneData suffix with e | records
  · left
    unfold importZoneFile
    rw [run_bind, run_ofResult, hsuffix]
    dsimp only
    rw [run_bind, run_ofResult, hrecords]
    rfl
  right
  refine ⟨suffix, records, _, rfl, hrecords, rfl, ?_⟩
  rw [run_importZoneFile overwrite st hsuffix hrecords]
  rcases run (runAll (importRr h self) records) _ with ⟨e | u, st'⟩
  · exact Or.inl ⟨e, rfl, rfl⟩
  · exact Or.inr ⟨rfl, rfl⟩

end

/-! ### What the file of a zone is after an operation -/

section
variable {h : Host} {parser : ZoneParser} {w : Web} {z : ℕ} {st : Store}

theorem import_spec {self : Zone} {zoneData : Text} {overwrite : Bool} (hself : getRow st.zones self.id = some self)
    (hn : Noticed h parser z st (.importZoneFile self.id zoneData overwrite)) :
    z ∈ (run (importZoneFile h parser self zoneData overwrite) st).2.queue ∨
      SameFile z st (run (importZoneFile h parser self zoneData overwrite) st).2 := by
  rcases import_cases h parser self zoneData overwrite st with hst |
    ⟨suffix, records, st₁, hsuffix, hrecords, hst₁, ⟨e, -, hst⟩ | ⟨hok, hst⟩⟩
  · rw [hst]
    exact Or.inr (SameFile.refl z st)
  · rw [hst]
    exact Or.inr ⟨⟨rfl, rfl, rfl, rfl, fun _ _ _ => rfl⟩, rfl⟩
  · rw [hst]
    by_cases hz : self.id = z
    · by_cases himp : ∃ record ∈ records, Imported record
      · left
        rw [← hz]
        exact mem_queue_runAll (Prod.ext hok rfl) (Or.inr himp)
      · right
        rw [runAll_of_not fun record hmem hr => himp ⟨record, hmem, hr⟩, hst₁]
        rcases overwrite with _ | _
        · exact SameFile.refl z st
        · refine sameFile_deleteSet fun r hr hrz => ?_
          by_contra hp
          simp only [Bool.not_eq_false, Bool.and_eq_true, List.contains_iff_mem] at hp
          exact himp (hn hz rfl ⟨r, hr, hrz, hp.2⟩ self (hz ▸ hself) suffix hsuffix records hrecords)
    · right
      refine SameFile.trans ?_ (sameFile_runAll hz records)
      rw [hst₁]
      rcases overwrite with _ | _
      · exact SameFile.refl z st
      · refine sameFile_deleteSet fun r hr hrz => ?_
        have hne : r.zone ≠ self.id := fun heq => hz (heq.symm.trans hrz)
        simp [hne]

/-- **An operation that is noticed** puts a task for the zone into the queue or leaves its file the
same. -/
theorem apply_spec {op : Operation} (hn : Noticed h parser z st op) :
    z ∈ (op.apply h parser w st).queue ∨ SameFile z st (op.apply h parser w st) := by
  have hmem : ∀ {k : ℕ}, k = z → z ∈ st.queue ++ [k] := fun hk =>
    List.mem_append_right _ (List.mem_singleton.mpr hk.symm)
  rcases op with self | self | self | self | self | self | self | self | ⟨zone, disable⟩ |
    ⟨zone, zoneData, overwrite⟩ | request
  · show z ∈ (run (saveRow h self) st).2.queue ∨ SameFile z st (run (saveRow h self) st).2
    rw [run_saveRow, queue_saveStore]
    by_cases hz : self.zone = z
    · exact Or.inl (hmem hz)
    · exact Or.inr (sameFile_saveStore hz (hn.resolve_left hz))
  · show z ∈ (run (deleteRow self) st).2.queue ∨ SameFile z st (run (deleteRow self) st).2
    rw [run_deleteRow]
    rcases hn with ⟨hz, hm⟩ | hold
    · left
      rw [queue_deleteStore hm]
      exact hmem hz
    · exact Or.inr (sameFile_deleteStore hold)
  · by_cases hz : self.dnsZone = z
    · exact Or.inl (hmem hz)
    · exact Or.inr ⟨⟨rfl, rfl, filter_save_elsewhere hz (hn.resolve_left hz), rfl, fun _ _ _ => rfl⟩, rfl⟩
  · by_cases hz : self.dnsZone = z
    · exact Or.inl (hmem hz)
    · exact Or.inr ⟨⟨rfl, rfl, filter_erase_elsewhere (hn.resolve_left hz), rfl, fun _ _ _ => rfl⟩, rfl⟩
  · by_cases hz : self.dnsZone = z
    · exact Or.inl (hmem hz)
    · exact Or.inr ⟨⟨rfl, rfl, rfl, filter_save_elsewhere hz (hn.resolve_left hz), fun _ _ _ => rfl⟩, rfl⟩
  · by_cases hz : self.dnsZone = z
    · exact Or.inl (hmem hz)
    · exact Or.inr ⟨⟨rfl, rfl, rfl, filter_erase_elsewhere (hn.resolve_left hz), fun _ _ _ => rfl⟩, rfl⟩
  · by_cases hz : self.dnsZone = z
    · exact Or.inl (hmem hz)
    · exact Or.inr ⟨⟨rfl, filter_save_elsewhere hz (hn.resolve_left hz), rfl, rfl, fun _ _ _ => rfl⟩, rfl⟩
  · by_cases hz : self.dnsZone = z
    · exact Or.inl (hmem hz)
    · exact Or.inr ⟨⟨rfl, filter_erase_elsewhere (hn.resolve_left hz), rfl, rfl, fun _ _ _ => rfl⟩, rfl⟩
  · right
    show SameFile z st (Changes.setCdsDisable h zone disable st)
    unfold Changes.setCdsDisable
    rcases hrow : getRow st.zones zone with _ | row
    · exact SameFile.refl z st
    · refine ⟨⟨rfl, rfl, rfl, rfl, fun _ _ _ => rfl⟩, ?_⟩
      show getRow (st.zones.save _) z = _
      have hid : row.id = zone := (getRow_eq_some.mp hrow).2
      rw [getRow_save]
      split_ifs with hz
      · have hz' : zone = z := hid.symm.trans hz
        obtain ⟨hdisable, hlower⟩ := hn hz' row (hz' ▸ hrow)
        rw [hlower, ← hdisable, ← hz', hrow]
      · rfl
  · show z ∈ (match getRow st.zones zone with
        | none => st
        | some self => (run (ImportZone.importZoneFile h parser self zoneData overwrite) st).2).queue ∨
      SameFile z st (match getRow st.zones zone with
        | none => st
        | some self => (run (ImportZone.importZoneFile h parser self zoneData overwrite) st).2)
    rcases hrow : getRow st.zones zone with _ | self
    · exact Or.inr (SameFile.refl z st)
    · obtain rfl : self.id = zone := (getRow_eq_some.mp hrow).2
      exact import_spec hrow hn
  · exact updateIp_spec request st

theorem published_step {s s' : State} {x : Operation × ℕ}
    (hI : Published h z s ∧ s.db.queue = []) (hok : Ok h parser w z s x)
    (hs : step h parser w s x = some s') : Published h z s' ∧ s'.db.queue = [] := by
  obtain ⟨hpub, -⟩ := hI
  unfold step at hs
  obtain ⟨files, hd, rfl⟩ := Option.map_eq_some_iff.mp hs
  replace hd := ok_of_toOption hd
  refine ⟨fun zone hzone => ?_, rfl⟩
  have hzone' : getRow (x.1.apply h parser w s.db).zones z = some zone := hzone
  have hmake : generate h (x.1.apply h parser w s.db) x.2 z = (do
      let zoneRoot ← DnsLabel.ofText h.py zone.zoneRoot
      let zoneFile ← generateFzone h (x.1.apply h parser w s.db) x.2 zone
      return some (zoneRoot.toText, zoneFile)) := by
    unfold generate
    rw [hzone']
    exact if_pos (hok.root zone hzone')
  have hf : ∀ files z, updateFzone h (x.1.apply h parser w s.db) x.2 files z =
      (generate h (x.1.apply h parser w s.db) x.2 z).map (stored files) := fun _ _ => rfl
  -- the file of the zone is that of its own task
  have hname : ∀ zoneRoot, DnsLabel.ofText h.py zone.zoneRoot = .ok zoneRoot →
      (z ∈ (x.1.apply h parser w s.db).queue → ∃ text,
        generate h (x.1.apply h parser w s.db) x.2 z = .ok (some (zoneRoot.toText, text)) ∧
        files zoneRoot.toText = some text) ∧
      (z ∉ (x.1.apply h parser w s.db).queue → files zoneRoot.toText = s.files zoneRoot.toText) := by
    intro zoneRoot hroot
    refine foldlM_stored hf (fun o ho => ?_) (fun z' _ hz' text hz => ?_) hd
    · rw [hmake] at ho
      obtain ⟨l, hl, ho⟩ := bind_eq_ok.mp ho
      obtain rfl : zoneRoot = l := Except.ok.inj (hroot.symm.trans hl)
      obtain ⟨text, -, ho⟩ := bind_eq_ok.mp ho
      exact ⟨text, (Except.ok.inj ho).symm⟩
    · unfold generate at hz
      rcases hrow : getRow (x.1.apply h parser w s.db).zones z' with _ | zone'
      · simp only [hrow] at hz
        cases hz
      · simp only [hrow] at hz
        split_ifs at hz
        · obtain ⟨zoneRoot', hroot', hz⟩ := bind_eq_ok.mp hz
          obtain ⟨text', -, hz⟩ := bind_eq_ok.mp hz
          have heq : zoneRoot'.toText = zoneRoot.toText :=
            (Prod.mk.inj (Option.some.inj (Except.ok.inj hz))).1
          obtain ⟨hmem, hid⟩ := getRow_eq_some.mp hrow
          exact hok.alone zone hzone' zone' hmem (by rwa [hid]) zoneRoot zoneRoot' hroot hroot' heq.symm
        · cases hz
  by_cases hq : z ∈ (x.1.apply h parser w s.db).queue
  · obtain ⟨o, ho⟩ := make_of_foldlM hf hd hq
    rw [hmake] at ho
    obtain ⟨zoneRoot, hroot, ho⟩ := bind_eq_ok.mp ho
    obtain ⟨zoneFile, hgen, -⟩ := bind_eq_ok.mp ho
    obtain ⟨text, htext, hfile⟩ := (hname zoneRoot hroot).1 hq
    rw [hmake] at htext
    obtain ⟨l, hl, htext⟩ := bind_eq_ok.mp htext
    obtain rfl : zoneRoot = l := Except.ok.inj (hroot.symm.trans hl)
    obtain ⟨zoneFile', hgen', htext⟩ := bind_eq_ok.mp htext
    obtain rfl : zoneFile' = text := (Prod.mk.inj (Option.some.inj (Except.ok.inj htext))).2
    exact ⟨zoneRoot, x.2, zoneFile', hroot, hfile, hgen'⟩
  · have hsame := (apply_spec (w := w) hok.noticed).resolve_left hq
    obtain ⟨zoneRoot, time, text, hroot, hfile, hgen⟩ := hpub zone (hsame.zone.symm.trans hzone')
    have hid : zone.id = z := (getRow_eq_some.mp hzone').2
    refine ⟨zoneRoot, time, text, hroot, ((hname zoneRoot hroot).2 hq).trans hfile, ?_⟩
    show generateFzone h (x.1.apply h parser w s.db) time zone = _
    rw [← generateFzone_congr (hid ▸ hsame.rows)]
    exact hgen

/-- **Every change is published in every run whose operations meet the condition.** -/
theorem published_of_along {s : State} (h0 : Published h z s) (hqueue : s.db.queue = [])
    {ops : List (Operation × ℕ)} (hok : Along (step h parser w) (Ok h parser w z) s ops) :
    Always (step h parser w) (Published h z) s ops :=
  (always_of_along (fun _ _ _ hI hok hs => published_step hI hok hs) ⟨h0, hqueue⟩ hok).mono
    fun _ hI => hI.1

end

/-! ### A change that is not published -/

/-- A zone whose file is that of its rows. -/
def published : State := ⟨beforeSave.db, beforeSave.files⟩

def noParser : ZoneParser := fun _ _ => .ok []

def noWeb : Web := ⟨fun _ => none, fun _ => none⟩

theorem published_published : Published .ascii 1 published := by
  intro zone hzone
  obtain rfl : exampleZone = zone := Option.some.inj hzone
  exact current_beforeSave

/-- A DHCID record is saved. -/
def saveDhcid : Operation := .saveRecord ⟨1, 1, "www".toList, 300, .dhcid [1, 2, 3]⟩

theorem published_saveDhcid :
    Always (step .ascii noParser noWeb) (Published .ascii 1) published [(saveDhcid, 5)] := by
  refine published_of_along published_published rfl fun s' _ => ⟨⟨Or.inl rfl, ?_, ?_⟩, trivial⟩
  · intro zone hzone
    obtain rfl : exampleZone = zone := Option.some.inj hzone
    decide
  · intro zone _ zone' hzone' hid
    have heq : zone' = exampleZone := List.mem_singleton.mp hzone'
    rw [heq] at hid
    exact absurd rfl hid

/-- The file keeps the CDS and CDNSKEY records after `disable_zone_cds`. -/
theorem not_published_disabled : Published .ascii 1 published ∧
    ¬ Always (step .ascii noParser noWeb) (Published .ascii 1) published
      [(.setCdsDisable 1 true, 5)] := by
  refine ⟨published_published, fun hall => ?_⟩
  let disabled : Store := { beforeSave.db with
    zones := beforeSave.db.zones.save { exampleZone with cdsDisable := true } }
  have hstep : after (step .ascii noParser noWeb) published [(.setCdsDisable 1 true, 5)] =
      some ⟨disabled, beforeSave.files⟩ := rfl
  obtain ⟨zoneRoot, time, text, hroot, hfile, hgen⟩ :=
    hall.after hstep { exampleZone with cdsDisable := true } (by decide)
  have hroot' : DnsLabel.ofText Host.ascii.py exampleZone.zoneRoot = .ok exampleRoot := by decide
  obtain rfl : exampleRoot = zoneRoot := Except.ok.inj (hroot'.symm.trans hroot)
  -- what is generated now ends with the records that delete a DS
  obtain ⟨_, header, texts, -, hheader, htexts, rfl⟩ := generateFzone_eq_ok.mp hgen
  unfold generateZoneHeader at hheader
  obtain ⟨primary, -, hheader⟩ := bind_eq_ok.mp hheader
  obtain ⟨ns, -, hheader⟩ := bind_eq_ok.mp hheader
  obtain ⟨cds, hcds, hheader⟩ := bind_eq_ok.mp hheader
  obtain rfl := Except.ok.inj hheader
  obtain rfl := Except.ok.inj hcds
  obtain rfl : [] = texts := Except.ok.inj htexts
  have hend : (beforeSave.files exampleRoot.toText).map (fun t => decide
      ("@ 86400 IN CDS 0 0 0 00\n@ 86400 IN CDNSKEY 0 3 0 AA==\n".toList <:+ t)) = some false := by
    decide
  have hfile' : beforeSave.files exampleRoot.toText = _ := hfile
  rw [hfile', Option.map_some] at hend
  refine of_decide_eq_false (Option.some.inj hend) ?_
  rw [List.flatten_nil, List.append_nil]
  exact List.suffix_append _ _

end HexDns.Tasks.Changes
