import HexDns.Grpc.Prerequisites
import HexDns.Grpc.Additions
import HexDns.Models.Validators
import HexDns.Tasks.Changes

/-! # CNAMEs that stand alone

A name with a CNAME has no other record, and the apex has no CNAME. Forms, update messages and imports
each have a check of their own, over classes of their own and by a notion of the name of their own: the
label of what was entered against stored names, the labels of a message against stored names, stored
names only. `exclusive_of_along` says that the names as published are exclusive in
every run in which each check sees the rows that matter. -/

namespace HexDns.Tasks.Cnames

open HexDns.Lib.Texts HexDns.Lib.Tables HexDns.Lib.Programs HexDns.Lib.Runs HexDns.Base.Py
  HexDns.Base.Label HexDns.Base.Message HexDns.Models.Db HexDns.Models.Env HexDns.Models.Names
  HexDns.Models.Convert HexDns.Models.Validators HexDns.Models.ImportZone HexDns.Grpc.Records
  HexDns.Grpc.Update HexDns.Grpc.Steps HexDns.Grpc.Deletions HexDns.Grpc.Prerequisites
  HexDns.Grpc.Additions HexDns.Tasks.ZoneFile
open HexDns.Tasks.Changes (Imported importRr_of_not run_importRr import_cases noParser)

/-! ### The forms -/

section
variable (h : Host)

/-- `record_set.filter(record_name=self.record_label)` of the zone -/
def labelled (st : Store) (self : Row) (m : Model) : List Row :=
  st.recordsOf m fun x => x.zone = self.zone && some x.recordName = recordLabel h self

/-- `DNSZoneRecord.validate_unique` -/
def validateUniqueRecord (st : Store) (self : Row) : Except PyErr Unit :=
  if labelled h st self .cname ≠ [] then .error .validationError else .ok ()

/-- `record_types` of `CNAMERecord.validate_unique` -/
def recordTypes : List Model :=
  [.address, .dynamicAddress, .aname, .githubPages, .redirect, .mx, .ns, .txt, .srv, .caa, .naptr,
    .sshfp, .ds, .loc, .hinfo, .rp, .dhcid]

/-- `CNAMERecord.validate_unique` -/
def validateUniqueCname (st : Store) (self : Row) : Except PyErr Unit :=
  let otherRecords := (labelled h st self .cname).filter (fun x => x.id ≠ self.id) ++
    recordTypes.flatMap (labelled h st self)
  let https := st.recordsOf .https fun x => x.zone = self.zone && recordLabel h x = recordLabel h self
  if otherRecords ++ https ≠ [] then .error .validationError else .ok ()

/-- `validate_unique` -/
def validateUnique (st : Store) (self : Row) : Except PyErr Unit :=
  if self.model = .cname then validateUniqueCname h st self else validateUniqueRecord h st self

/-- `clean_fields` of `CNAMERecord` and `DSRecord` -/
def cleanFields (self : Row) : Except PyErr Unit :=
  if self.recordName = ['@'] ∧ self.model ∈ [.cname, .ds] then .error .validationError else .ok ()

/-- What the form of a record says of its name; what the other columns have to be does not depend on
other rows. -/
def formClean (st : Store) (self : Row) : Except PyErr Unit := do
  notBlank self.recordName
  maxLength 255 self.recordName
  cleanFields self
  validateUnique h st self

/-- A form of a record: the row, new or there already, with the columns that were entered. The field of
the name strips white space. -/
def submit (self : Row) (st : Store) : Store :=
  let self := { self with recordName := strip self.recordName }
  match formClean h st self with
  | .error _ => st
  | .ok () => (run (saveRow h self) st).2

end

/-! ### Operations -/

inductive Operation
  | form (self : Row)
  | update (now : ℕ) (msg : Bytes)
  | importZoneFile (zone : ℕ) (zoneData : Text) (overwrite : Bool)

section
variable (h : Host) (parser : ZoneParser)

/-- The database after an operation. -/
def Operation.apply (op : Operation) (st : Store) : Store :=
  match op with
  | .form self => submit h self st
  | .update now msg => (updateQuery h now msg st).2
  | .importZoneFile zone zoneData overwrite =>
    match getRow st.zones zone with
    | none => st
    | some self => (run (Models.ImportZone.importZoneFile h parser self zoneData overwrite) st).2

def step (st : Store) (op : Operation) : Option Store := some (op.apply h parser st)

/-- **The names of the zone are exclusive**: a CNAME is not published at the apex, and nothing else is
published under its label. -/
def Exclusive (z : ℕ) (st : Store) : Prop :=
  ∀ r ∈ st.records, r.zone = z → r.model = .cname → ∀ l, ownerText h r = some l →
    l ≠ ['@'] ∧ ∀ s ∈ st.records, s.zone = z → ownerText h s = some l → s = r

/-! ### The condition on an operation -/

/-- The row under the name that `save` gives it. -/
def lowered (row : Row) : Row := { row with recordName := h.py.lower row.recordName }

/-- The rows are published under one label of their zone, and one of them is a CNAME. -/
def Conflict (row x : Row) : Prop :=
  x.zone = row.zone ∧ (row.model = .cname ∨ x.model = .cname) ∧ (ownerText h row).isSome = true ∧
    ownerText h x = ownerText h row

/-- A row in the place of those of `gone` is a CNAME at the apex, or in conflict with another row. -/
def Clashes (st : Store) (gone : Row → Prop) (row : Row) : Prop :=
  row.model = .cname ∧ ownerText h row = some ['@'] ∨ ∃ x ∈ st.records, ¬ gone x ∧ Conflict h row x

/-- `validate_unique` counts the row: its stored name is the label of what was entered, and it is of one
of the classes; an HTTPS row has to have the label itself. -/
def Seen (self x : Row) : Prop :=
  x.zone = self.zone ∧
    if self.model = .cname then
      (x.model = .cname ∧ x.id ≠ self.id ∨ x.model ∈ recordTypes) ∧
        some x.recordName = recordLabel h self ∨
      x.model = .https ∧ recordLabel h x = recordLabel h self
    else x.model = .cname ∧ some x.recordName = recordLabel h self

/-- The name is one that a form does not take, or a row is counted. -/
def Refused (st : Store) (self : Row) : Prop :=
  self.recordName = [] ∨ 255 < self.recordName.length ∨
    (self.recordName = ['@'] ∧ self.model ∈ [.cname, .ds]) ∨ ∃ x ∈ st.records, Seen h self x

instance (row x : Row) : Decidable (Conflict h row x) := by unfold Conflict; infer_instance

instance (st : Store) (gone : Row → Prop) [DecidablePred gone] (row : Row) :
    Decidable (Clashes h st gone row) :=
  inferInstanceAs (Decidable (_ ∨ ∃ x ∈ st.records.rows, ¬ gone x ∧ Conflict h row x))

instance (self x : Row) : Decidable (Seen h self x) := by unfold Seen; infer_instance

instance (st : Store) (self : Row) : Decidable (Refused h st self) :=
  inferInstanceAs (Decidable (_ ∨ _ ∨ _ ∨ ∃ x ∈ st.records.rows, Seen h self x))

/-- What clashes is refused. -/
def FormOk (st : Store) (self : Row) : Prop :=
  Clashes h st (fun x => x.id = self.id) (lowered h self) → Refused h st self

/-- The row stops an addition: `any_records` counts it for a CNAME, and else it is a CNAME stored under
the text of the name. -/
def Stops (zone : Zone) (recordName : DnsLabel) (rr : Rr) (x : Row) : Prop :=
  if rr.rtype = .cname then Counted h zone recordName x ∧ x.model ≠ .cname
  else x.model = .cname ∧ Stored zone recordName x

/-- The CNAME is found for the name and has the rdata of `rr`, so that it is updated. -/
def Renewed (st : Store) (zone : Zone) (recordName : DnsLabel) (rr : Rr) (x : Row) : Prop :=
  rr.rtype = .cname ∧ x ∈ foundRows st recordName zone .cname ∧
    ∃ recordRr, toRr h x rr.rname = .ok (some recordRr) ∧ rr.rdata.eq recordRr.rdata = true

/-- An addition that the key may make and that clashes is stopped. -/
def UpdateOk (tsigKey : UpdateSecret) (zone : Zone) (zoneName : DnsLabel) (st : Store) (rr : Rr) : Prop :=
  rr.rclass = .in → ∀ m columns made, modelOfType h rr.rtype = some (m, columns) →
    fromRr h columns rr zone st.records.next = .ok made →
    canManage h tsigKey rr.rtype (rr.rname.stripSuffix zoneName) = .ok true →
    Clashes h st (Renewed h st zone (rr.rname.stripSuffix zoneName) rr) (lowered h made) →
    ∃ x ∈ st.records, Stops h zone (rr.rname.stripSuffix zoneName) rr x

/-- The rows that an imported CNAME takes the place of. -/
def Replaced (record : Rr) (made x : Row) : Prop :=
  record.rtype = .cname ∧ x.model = .cname ∧ x.recordName = made.recordName

/-- A record that is imported does not clash. -/
def ImportOk (self : Zone) (st : Store) (record : Rr) : Prop :=
  record.rclass = .in → ∀ columns made, importColumns record.rtype = some columns →
    fromRr h columns record self st.records.next = .ok made →
    ¬ Clashes h st (Replaced record made) (lowered h made)

/-- **The condition on an operation**, before each record of an update section or of a zone file that it
comes to; an import that raises is taken back. -/
def Ok (z : ℕ) (st : Store) : Operation → Prop
  | .form self => self.zone = z → FormOk h st { self with recordName := strip self.recordName }
  | .update now msg => ∀ dnsReq adm, h.parse msg = .ok dnsReq → admission h now st dnsReq = .ok adm →
      adm.zone.id = z → BeforeEach (updateRr h adm.inc.tsigKey adm.zone adm.zoneName)
        (UpdateOk h adm.inc.tsigKey adm.zone adm.zoneName) dnsReq.auth st
  | .importZoneFile zone zoneData overwrite => zone = z → ∀ self suffix records,
      getRow st.zones zone = some self → DnsLabel.ofText h.py self.zoneRoot = .ok suffix →
      parser zoneData suffix = .ok records → ∀ st₁, st₁ = (if overwrite then
        deleteSet (fun x => x.zone = self.id && overwrittenModels.contains x.model) st else st) →
      (run (runAll (importRr h self) records) st₁).1 = .ok () →
        BeforeEach (importRr h self) (ImportOk h self) records st₁

end

/-! ### What keeps names exclusive -/

section
variable {h : Host} {z : ℕ} {st st' : Store} {row : Row}

theorem Exclusive.of_subset (hst : Exclusive h z st)
    (hsub : ∀ r ∈ st'.records, r.zone = z → r ∈ st.records) : Exclusive h z st' := by
  intro r hr hz hm l hl
  obtain ⟨hapex, hothers⟩ := hst r (hsub r hr hz) hz hm l hl
  exact ⟨hapex, fun s hs hsz hsl => hothers s (hsub s hs hsz) hsz hsl⟩

theorem Conflict.symm {r x : Row} (hc : Conflict h r x) : Conflict h x r := by
  obtain ⟨hz, hm, hsome, heq⟩ := hc
  exact ⟨hz.symm, hm.symm, heq ▸ hsome, heq.symm⟩

/-- A row that does not clash is saved. -/
theorem Exclusive.save (hst : Exclusive h z st)
    (hrow : row.zone = z → ¬ Clashes h st (fun x => x.id = row.id) row)
    (hrecords : st'.records = st.records.save row) : Exclusive h z st' := by
  intro r hr hz hm l hl
  rw [hrecords, mem_save] at hr
  -- another row under the label of a CNAME is not the one that is saved
  have hother : ∀ x ∈ st.records, x.id ≠ row.id → row.zone = z → ¬ Conflict h row x :=
    fun x hx hid hrz hc => hrow hrz (Or.inr ⟨x, hx, hid, hc⟩)
  rcases hr with rfl | ⟨hr, hid⟩
  · refine ⟨fun hapex => hrow hz (Or.inl ⟨hm, hapex ▸ hl⟩), fun s hs hsz hsl => ?_⟩
    rw [hrecords, mem_save] at hs
    rcases hs with rfl | ⟨hs, hsid⟩
    · rfl
    · refine absurd ⟨hsz.trans hz.symm, Or.inl hm, ?_, hsl.trans hl.symm⟩ (hother s hs hsid hz)
      rw [hl]
      rfl
  · obtain ⟨hapex, hothers⟩ := hst r hr hz hm l hl
    refine ⟨hapex, fun s hs hsz hsl => ?_⟩
    rw [hrecords, mem_save] at hs
    rcases hs with rfl | ⟨hs, -⟩
    · refine absurd ⟨hz.trans hsz.symm, Or.inr hm, ?_, hl.trans hsl.symm⟩ (hother r hr hid hsz)
      rw [hsl]
      rfl
    · exact hothers s hs hsz hsl

theorem ownerText_columns {data : RecordData} (hd : columnsOf h row.data = .ok data) (name : Text) :
    ownerText h { row with recordName := name, data := data } =
      ownerText h { row with recordName := name } := by
  obtain ⟨id, zone, recordName, ttl, d⟩ := row
  rcases d with _ | _ | _ | _ | _ | _ | _ | _ | _ | _ | _ | _ | _ | _ | _ | _ | _ | _ | _ | _ <;>
    simp only [columnsOf, bind_eq_ok, pure, Except.pure, Except.ok.injEq] at hd
  case naptr =>
    obtain ⟨_, -, _, -, rfl⟩ := hd
    rfl
  all_goals
    subst hd
    rfl

/-- Rows with the same zone, class and label clash with the same rows. -/
theorem Clashes.congr {gone gone' : Row → Prop} {row' : Row} (hc : Clashes h st gone row)
    (hz : row'.zone = row.zone) (hm : row'.model = row.model) (hl : ownerText h row' = ownerText h row)
    (hgone : ∀ x ∈ st.records, Conflict h row x → gone' x → gone x) : Clashes h st gone' row' := by
  rcases hc with ⟨hcname, hapex⟩ | ⟨x, hx, hne, hconf⟩
  · exact Or.inl ⟨hm.trans hcname, hl.trans hapex⟩
  · refine Or.inr ⟨x, hx, fun hg => hne (hgone x hx hconf hg), ?_⟩
    obtain ⟨hxz, hcname, hsome, hxl⟩ := hconf
    exact ⟨hxz.trans hz.symm, by rwa [hm], by rwa [hl], hxl.trans hl.symm⟩

theorem Exclusive.saveStore (hst : Exclusive h z st)
    (hrow : row.zone = z → ¬ Clashes h st (fun x => x.id = row.id) (lowered h row)) :
    Exclusive h z (saveStore h st row) := by
  unfold Grpc.Steps.saveStore
  rcases hs : saved h row with e | row'
  · exact hst.of_subset fun r hr _ => hr
  · dsimp only
    obtain ⟨data, hdata, hrow', -⟩ := saved_eq_ok.mp hs
    refine hst.save (fun hz hc => ?_) rfl
    rw [hrow'] at hz hc
    exact hrow hz (hc.congr rfl (model_columnsOf hdata).symm (ownerText_columns hdata _).symm
      fun x _ _ hid => hid)

/-! ### The forms -/

theorem refuse_eq_ok {rows : List Row} :
    (if rows ≠ [] then .error .validationError else .ok () : Except PyErr Unit) = .ok () ↔ rows = [] := by
  by_cases hrows : rows = []
  · rw [if_neg (not_not.mpr hrows)]
    exact iff_of_true rfl hrows
  · rw [if_pos hrows]
    exact iff_of_false (by simp) hrows

theorem validateUnique_eq_ok : validateUnique h st row = .ok () ↔ ∀ x ∈ st.records, ¬ Seen h row x := by
  have hcname : validateUnique h st row = .ok () ↔ if row.model = .cname then
      (labelled h st row .cname).filter (fun x => x.id ≠ row.id) ++
        recordTypes.flatMap (labelled h st row) ++
        (st.recordsOf .https fun x => x.zone = row.zone && recordLabel h x = recordLabel h row) = []
      else labelled h st row .cname = [] := by
    unfold validateUnique
    by_cases hm : row.model = .cname
    · rw [if_pos hm, if_pos hm]
      exact refuse_eq_ok
    · rw [if_neg hm, if_neg hm]
      exact refuse_eq_ok
  rw [hcname]
  unfold Seen
  split_ifs with hm
  · simp only [List.eq_nil_iff_forall_not_mem, List.mem_append, List.mem_filter, List.mem_flatMap,
      labelled, mem_recordsOf, Bool.and_eq_true, decide_eq_true_eq]
    constructor
    · rintro hnone x hx ⟨hz, ⟨⟨hc, hid⟩ | ht, hl⟩ | ⟨hh, hl⟩⟩
      · exact hnone x (Or.inl (Or.inl ⟨⟨hx, hc, hz, hl⟩, hid⟩))
      · exact hnone x (Or.inl (Or.inr ⟨x.model, ht, hx, rfl, hz, hl⟩))
      · exact hnone x (Or.inr ⟨hx, hh, hz, hl⟩)
    · rintro hnone x ((⟨⟨hx, hc, hz, hl⟩, hid⟩ | ⟨m, ht, hx, rfl, hz, hl⟩) | ⟨hx, hh, hz, hl⟩)
      · exact hnone x hx ⟨hz, Or.inl ⟨Or.inl ⟨hc, hid⟩, hl⟩⟩
      · exact hnone x hx ⟨hz, Or.inl ⟨Or.inr ht, hl⟩⟩
      · exact hnone x hx ⟨hz, Or.inr ⟨hh, hl⟩⟩
  · simp only [List.eq_nil_iff_forall_not_mem, labelled, mem_recordsOf, Bool.and_eq_true,
      decide_eq_true_eq]
    constructor
    · rintro hnone x hx ⟨hz, hc, hl⟩
      exact hnone x ⟨hx, hc, hz, hl⟩
    · rintro hnone x ⟨hx, hc, hz, hl⟩
      exact hnone x hx ⟨hz, hc, hl⟩

/-- **A form saves what is not refused.** -/
theorem formClean_eq_ok : formClean h st row = .ok () ↔ ¬ Refused h st row := by
  have hblank : notBlank row.recordName = .ok () ↔ row.recordName ≠ [] := by
    unfold notBlank
    split_ifs with hn
    · exact iff_of_false (by simp) (not_not.mpr hn)
    · exact iff_of_true rfl hn
  have hlength : maxLength 255 row.recordName = .ok () ↔ ¬ 255 < row.recordName.length := by
    unfold maxLength
    split_ifs with hn
    · exact iff_of_true rfl (by omega)
    · exact iff_of_false (by simp) (by omega)
  have hfields : cleanFields row = .ok () ↔ ¬ (row.recordName = ['@'] ∧ row.model ∈ [.cname, .ds]) := by
    unfold cleanFields
    split_ifs with hn
    · exact iff_of_false (by simp) (not_not.mpr hn)
    · exact iff_of_true rfl hn
  have hall : formClean h st row = .ok () ↔ notBlank row.recordName = .ok () ∧
      maxLength 255 row.recordName = .ok () ∧ cleanFields row = .ok () ∧
        validateUnique h st row = .ok () := by
    unfold formClean
    constructor
    · intro hok
      obtain ⟨⟨⟩, h1, hok⟩ := bind_eq_ok.mp hok
      obtain ⟨⟨⟩, h2, hok⟩ := bind_eq_ok.mp hok
      obtain ⟨⟨⟩, h3, h4⟩ := bind_eq_ok.mp hok
      exact ⟨h1, h2, h3, h4⟩
    · rintro ⟨h1, h2, h3, h4⟩
      rw [h1, h2, h3, h4]
      rfl
  rw [hall, hblank, hlength, hfields, validateUnique_eq_ok]
  unfold Refused
  simp only [not_or, not_exists, not_and, ne_eq]

theorem exclusive_submit (hst : Exclusive h z st)
    (hok : row.zone = z → FormOk h st { row with recordName := strip row.recordName }) :
    Exclusive h z (submit h row st) := by
  unfold submit
  dsimp only
  rcases hclean : formClean h st { row with recordName := strip row.recordName } with e | ⟨⟩
  · exact hst
  · dsimp only
    rw [run_saveRow]
    exact hst.saveStore fun hz hc => formClean_eq_ok.mp hclean (hok hz hc)

/-! ### Updates -/

variable {tsigKey : UpdateSecret} {zone : Zone} {zoneName recordName : DnsLabel} {rr : Rr}

/-- The rows that are found have one stored name. -/
theorem recordName_foundRows {m : Model} {r x : Row} (hr : r ∈ foundRows st recordName zone m)
    (hx : x ∈ foundRows st recordName zone m) :
    r.recordName = x.recordName ∧ r.zone = zone.id ∧ x.zone = zone.id := by
  rcases hs : recordName.searchName with e | s
  · unfold foundRows at hr
    rw [findRecords_error hs] at hr
    cases hr
  obtain ⟨w, hw⟩ := exists_searchName_wildcard hs
  rw [foundRows_eq hs hw] at hr hx
  split_ifs at hr hx with hn
  · obtain ⟨-, -, hrn, hrz⟩ := mem_named.mp hr
    obtain ⟨-, -, hxn, hxz⟩ := mem_named.mp hx
    exact ⟨hrn.trans hxn.symm, hrz, hxz⟩
  · obtain ⟨-, -, hrn, hrz⟩ := mem_named.mp hr
    obtain ⟨-, -, hxn, hxz⟩ := mem_named.mp hx
    exact ⟨hrn.trans hxn.symm, hrz, hxz⟩

theorem ownerText_of_model {r x : Row} (hm : r.model = x.model) (hne : r.model ≠ .https)
    (hname : r.recordName = x.recordName) : ownerText h r = ownerText h x := by
  have hown : ∀ y : Row, y.model ≠ .https →
      ownerText h y = (idnaLabel h y.recordName).filter (· ≠ []) := by
    rintro ⟨id, z, name, ttl, data⟩ hy
    rcases data with _ | _ | _ | _ | _ | _ | _ | _ | _ | _ | _ | _ | _ | _ | _ | _ | _ | _ | _ | _
    case https => exact absurd rfl hy
    all_goals rfl
  rw [hown r hne, hown x (hm ▸ hne), hname]

/-- No row stops an addition that is not blocked. -/
theorem not_stops_of_unblocked (hb : blocked h st zone recordName rr = .ok false) :
    ∀ x ∈ st.records, ¬ Stops h zone recordName rr x := by
  intro x hx hstop
  unfold blocked at hb
  unfold Stops at hstop
  split_ifs at hb hstop with hc
  · have hnone := (anyRecords_eq_ok_iff.mp hb).2
    simp only [Bool.false_eq_true, false_or, false_iff, not_exists, not_and] at hnone
    exact hnone x hx hstop.1 hstop.2
  · have hnone := (anyRecordType_eq_ok (show QType.cname ∈ supportedTypes by decide)).mp hb
    have hcounted : CountedOf st zone recordName .cname x := by
      show countedModel .cname = some x.model ∧ Stored zone recordName x
      exact ⟨congrArg some hstop.1.symm, hstop.2⟩
    simp only [Bool.false_eq_true, false_iff, not_exists, not_and] at hnone
    exact hnone.2 x hx hcounted

theorem matching_eq_none {records : List Row} (hm : matching h zone rr records = .ok none) {x : Row}
    (hx : x ∈ records) {recordRr : Rr} (hrr : toRr h x rr.rname = .ok (some recordRr)) :
    rr.rdata.eq recordRr.rdata = false := by
  induction records with
  | nil => cases hx
  | cons record records ih =>
    unfold matching at hm
    rcases hrec : toRr h record rr.rname with e | _ | rr'
    · rw [hrec] at hm
      cases hm
    · rw [hrec] at hm
      cases hm
    rw [hrec] at hm
    dsimp only at hm
    by_cases heq : rr.rdata.eq rr'.rdata = true
    · rw [if_pos heq] at hm
      rcases hu : updateFromRr h (updateColumns h record) record rr zone with e | new
      · rw [hu] at hm
        cases hm
      · rw [hu] at hm
        cases hm
    · rw [if_neg heq] at hm
      rcases List.mem_cons.mp hx with rfl | hx
      · obtain rfl : rr' = recordRr := Option.some.inj (Except.ok.inj (hrec.symm.trans hrr))
        simpa using heq
      · exact ih hm hx

/-- **An addition keeps the names exclusive.** -/
theorem exclusive_added (hst : Exclusive h z st)
    (hclass : rr.rclass = .in) (hok : zone.id = z → UpdateOk h tsigKey zone zoneName st rr) :
    Exclusive h z (added h st (addition h st tsigKey zone (rr.rname.stripSuffix zoneName) rr)).2 := by
  rcases ha : addition h st tsigKey zone (rr.rname.stripSuffix zoneName) rr with stop | a
  · exact hst
  unfold added
  dsimp only
  rcases hrow : a.row with _ | new
  · exact hst
  dsimp only
  have hne : a ≠ .nothing := by
    rintro rfl
    cases hrow
  obtain ⟨m, columns, made, records, found, hl, rfl⟩ := (addition_eq_ok hne).mp ha
  obtain ⟨name, data, hname, hdata, rfl⟩ := fromRr_eq_ok.mp hl.made
  have hmodel : data.model = m := makes_modelOfType hl.model rr data hdata
  have hhttps : m ≠ .https := by
    rintro rfl
    have hm := hl.model
    rcases ht : rr.rtype with _ | _ | _ | _ | _ | _ | _ | _ | _ | _ | _ | _ | _ | _ | _ | _ | _ | _ |
      _ | _ | _ | c <;> rw [ht] at hm <;> cases hm
  -- the row that is saved is that of `from_rr`, or a row of its class under its name
  have hnew : new.zone = zone.id ∧ new.model = m ∧ new.recordName = name := by
    rcases found with _ | ⟨old, upd⟩
    · obtain rfl := Option.some.inj hrow
      exact ⟨rfl, hmodel, rfl⟩
    · obtain rfl : upd = new := Option.some.inj hrow
      obtain ⟨-, -, hupd⟩ := matching_eq_some hl.matched
      obtain ⟨name', data', hname', hdata', rfl⟩ := updateFromRr_eq_ok.mp hupd
      obtain rfl := Except.ok.inj (hname.symm.trans hname')
      have hold := hl.mem
      exact ⟨(recordName_foundRows hold hold).2.1,
        (makes_updateColumns old rr data' hdata').trans (foundRows_model hold).2, rfl⟩
  obtain ⟨hzone, hnewm, hnewn⟩ := hnew
  refine hst.saveStore fun hz hc => ?_
  have hclash : Clashes h st (Renewed h st zone (rr.rname.stripSuffix zoneName) rr)
      (lowered h ⟨st.records.next, zone.id, name, rr.ttl, data⟩) := by
    have hlabel : ownerText h (lowered h ⟨st.records.next, zone.id, name, rr.ttl, data⟩) =
        ownerText h (lowered h new) :=
      ownerText_of_model (hmodel.trans hnewm.symm) (fun heq => hhttps (hmodel.symm.trans heq))
        (congrArg h.py.lower hnewn.symm)
    refine hc.congr hzone.symm (hmodel.trans hnewm.symm) hlabel fun x hx hconf hren => ?_
    obtain ⟨htype, hxfound, recordRr, hrr, heq⟩ := hren
    have hm : m = .cname := by
      have hm := hl.model
      rw [htype] at hm
      exact (Prod.mk.inj (Option.some.inj hm)).1.symm
    obtain rfl := hm
    have hxrecords : x ∈ records := by
      have hfound := hxfound
      unfold foundRows at hfound
      rwa [hl.listed] at hfound
    rcases found with _ | ⟨old, upd⟩
    · have := matching_eq_none hl.matched hxrecords hrr
      rw [heq] at this
      cases this
    · obtain rfl : upd = new := Option.some.inj hrow
      -- the row that is updated has the name of `x`, and so its label
      have hold := hl.mem
      obtain ⟨hoid, hoz, hxz⟩ := recordName_foundRows hold hxfound
      have hsame : ownerText h old = ownerText h x :=
        ownerText_of_model ((foundRows_model hold).2.trans (foundRows_model hxfound).2.symm)
          (by rw [(foundRows_model hold).2]; decide) hoid
      obtain ⟨-, -, hsome, hxl⟩ := hconf
      obtain ⟨l, hl'⟩ := Option.isSome_iff_exists.mp hsome
      have hxl' : ownerText h x = some l := hxl.trans hl'
      have hnz : zone.id = z := hzone.symm.trans hz
      have hunique := (hst x hx (hxz.trans hnz) (foundRows_model hxfound).2 l hxl').2 old
        (foundRows_model hold).1 (hoz.trans hnz) (hsame.trans hxl')
      obtain ⟨-, -, hupd⟩ := matching_eq_some hl.matched
      obtain ⟨name', data', -, -, rfl⟩ := updateFromRr_eq_ok.mp hupd
      rw [← hunique]
  obtain ⟨x, hx, hstop⟩ := hok (hzone.symm.trans hz) hclass m columns _ hl.model hl.made hl.managed hclash
  exact not_stops_of_unblocked hl.unblocked x hx hstop

/-- **One record of an update section keeps the names exclusive.** -/
theorem exclusive_updateRr (hst : Exclusive h z st) (hpre : prescanRr zoneName rr = none)
    (hok : zone.id = z → UpdateOk h tsigKey zone zoneName st rr) :
    Exclusive h z (run (updateRr h tsigKey zone zoneName rr) st).2 := by
  rw [run_updateRr h hpre]
  have hdeleted : ∀ rows : List Row, Exclusive h z (rows.foldl deleteStore st) := fun rows =>
    hst.of_subset fun r hr _ => (mem_foldl_deleteStore.mp hr).1
  unfold Grpc.Steps.step
  rcases hclass : rr.rclass with _ | _ | _ | c
  · exact exclusive_added hst hclass hok
  · exact hdeleted _
  · exact hdeleted _
  · exact hst

theorem exclusive_updateQuery (hst : Exclusive h z st) {now : ℕ} {msg : Bytes}
    (hok : ∀ dnsReq adm, h.parse msg = .ok dnsReq → admission h now st dnsReq = .ok adm →
      adm.zone.id = z → BeforeEach (updateRr h adm.inc.tsigKey adm.zone adm.zoneName)
        (UpdateOk h adm.inc.tsigKey adm.zone adm.zoneName) dnsReq.auth st) :
    Exclusive h z (updateQuery h now msg st).2 := by
  rw [store_updateQuery]
  rcases hparse : h.parse msg with e | dnsReq
  · exact hst
  dsimp only
  rcases hadm : admission h now st dnsReq with refusal | adm
  · exact hst
  dsimp only
  have hpre := (admission_eq_ok hadm).2.2
  show Exclusive h z (run (runAll (updateRr h adm.inc.tsigKey adm.zone adm.zoneName) dnsReq.auth) st).2
  refine run_runAll_of_beforeEach (fun rr hrr s hs hrrok => ?_) hst
    (beforeEach_imp (hok dnsReq adm hparse hadm))
  exact exclusive_updateRr hs (prescanRr_of_prescan hpre hrr) hrrok

/-! ### Imports -/

/-- **One record of a zone file keeps the names exclusive.** -/
theorem exclusive_importRr (hst : Exclusive h z st) {self : Zone} {record : Rr}
    (hok : self.id = z → ImportOk h self st record) :
    Exclusive h z (run (importRr h self record) st).2 := by
  by_cases himp : Imported record
  · obtain ⟨hclass, hcols⟩ := himp
    obtain ⟨columns, hcols⟩ := Option.isSome_iff_exists.mp hcols
    rw [run_importRr hclass hcols]
    rcases hmade : fromRr h columns record self st.records.next with e | made
    · exact hst
    obtain ⟨name, data, hname, hdata, hmadeq⟩ := fromRr_eq_ok.mp hmade
    have hmz : made.zone = self.id := by rw [hmadeq]
    let st₁ := if record.rtype = .cname then deleteSet
      (fun x => x.zone = self.id && x.model = .cname && x.recordName = made.recordName) st else st
    have hsub : ∀ x ∈ st₁.records, x ∈ st.records ∧
        (x.zone = self.id → ¬ Replaced record made x) := by
      intro x hx
      by_cases hc : record.rtype = .cname
      · have hx' : x ∈ st.records.erasing fun x =>
            x.zone = self.id && x.model = .cname && x.recordName = made.recordName := by
          simp only [st₁, if_pos hc] at hx
          exact hx
        obtain ⟨hmem, hkept⟩ := mem_erasing.mp hx'
        refine ⟨hmem, fun hz hrep => ?_⟩
        rw [← Bool.not_eq_true] at hkept
        exact hkept (by simp [hz, hrep.2.1, hrep.2.2])
      · have hx' : x ∈ st.records := by simpa only [st₁, if_neg hc] using hx
        exact ⟨hx', fun _ hrep => hc hrep.1⟩
    have hst₁ : Exclusive h z st₁ := hst.of_subset fun x hx _ => (hsub x hx).1
    -- the TTL does not matter
    have hclash : ∀ row : Row, row.zone = made.zone → row.model = made.model →
        ownerText h (lowered h row) = ownerText h (lowered h made) → row.zone = z →
        ¬ Clashes h st₁ (fun x => x.id = row.id) (lowered h row) := by
      intro row hz hm hl hrz hc
      refine hok (hmz.symm.trans (hz.symm.trans hrz)) hclass columns made hcols hmade ?_
      rcases hc with ⟨hcname, hapex⟩ | ⟨x, hx, -, hconf⟩
      · exact Or.inl ⟨hm.symm.trans hcname, hl.symm.trans hapex⟩
      · obtain ⟨hxz, hcname, hsome, hxl⟩ := hconf
        obtain ⟨hmem, hnot⟩ := hsub x hx
        have hxself : x.zone = self.id := hxz.trans (hz.trans hmz)
        refine Or.inr ⟨x, hmem, hnot hxself, hxz.trans hz, ?_, hl ▸ hsome, hxl.trans hl⟩
        exact hcname.imp_left fun hrow => hm.symm.trans hrow
    show Exclusive h z (run (saveRow h _) st₁).2
    rw [run_saveRow]
    split_ifs
    · exact hst₁.saveStore (hclash _ rfl rfl rfl)
    · exact hst₁.saveStore (hclash _ rfl rfl rfl)
  · rw [importRr_of_not himp]
    exact hst

theorem exclusive_import (hst : Exclusive h z st) {parser : ZoneParser} {self : Zone} {zoneData : Text}
    {overwrite : Bool} (hself : getRow st.zones self.id = some self)
    (hok : Ok h parser z st (.importZoneFile self.id zoneData overwrite)) :
    Exclusive h z (run (importZoneFile h parser self zoneData overwrite) st).2 := by
  rcases import_cases h parser self zoneData overwrite st with hsame |
    ⟨suffix, records, st₁, hsuffix, hrecords, hst₁, ⟨e, -, herror⟩ | ⟨hreturns, hloop⟩⟩
  · rw [hsame]
    exact hst
  · rw [herror]
    exact hst.of_subset fun r hr _ => hr
  · rw [hloop]
    have hst₁' : Exclusive h z st₁ := by
      rw [hst₁]
      rcases overwrite with _ | _
      · exact hst
      · exact hst.of_subset fun r hr _ => (mem_erasing.mp hr).1
    refine run_runAll_of_beforeEach (I := Exclusive h z) (fun record _ s hs hrok => exclusive_importRr hs hrok) hst₁'
      (beforeEach_imp fun hz => ?_)
    exact hok hz self suffix records hself hsuffix hrecords st₁ hst₁ hreturns

/-! ### Runs -/

/-- **An operation that meets the condition keeps the names exclusive.** -/
theorem exclusive_apply (hst : Exclusive h z st) {parser : ZoneParser} {op : Operation}
    (hok : Ok h parser z st op) : Exclusive h z (op.apply h parser st) := by
  rcases op with self | ⟨now, msg⟩ | ⟨zone, zoneData, overwrite⟩
  · exact exclusive_submit hst hok
  · exact exclusive_updateQuery hst hok
  · unfold Operation.apply
    dsimp only
    rcases hself : getRow st.zones zone with _ | self
    · exact hst
    · obtain rfl : self.id = zone := (getRow_eq_some.mp hself).2
      exact exclusive_import hst hself hok

/-- **The names are exclusive in every run from an empty zone** whose operations meet the condition. -/
theorem exclusive_of_along {parser : ZoneParser} (hempty : ∀ r ∈ st.records, r.zone ≠ z)
    {ops : List Operation} (hok : Along (step h parser) (Ok h parser z) st ops) :
    Always (step h parser) (Exclusive h z) st ops := by
  refine always_of_along (fun s op s' hs hop hstep => ?_) (fun r hr hz => absurd hz (hempty r hr)) hok
  obtain rfl := Option.some.inj hstep
  exact exclusive_apply hs hop

theorem along_cons {parser : ZoneParser} {ok : Store → Operation → Prop} {op : Operation}
    {ops : List Operation} (hop : ok st op) (hops : Along (step h parser) ok (op.apply h parser st) ops) :
    Along (step h parser) ok st (op :: ops) := by
  intro s' hs
  obtain rfl := Option.some.inj hs
  exact ⟨hop, hops⟩

end

/-! ### Two rows under one name -/

/-- A database with a zone that is empty. -/
def emptyZone : Store := { Store.empty with zones := Table.empty.save ⟨1, "example.com".toList, false⟩ }

/-- A CNAME is refused where an address is, and another is saved. -/
def forms : List Operation :=
  [.form ⟨1, 1, "www".toList, 300, .address (some (.v4 0x0a000001)) true⟩,
    .form ⟨2, 1, "www".toList, 300, .cname "example.net.".toList⟩,
    .form ⟨2, 1, "alias".toList, 300, .cname "www".toList⟩,
    .update 0 [],
    .importZoneFile 1 [] false]

theorem exclusive_forms : Always (step .ascii noParser) (Exclusive .ascii 1) emptyZone forms := by
  refine exclusive_of_along (fun r hr => absurd hr List.not_mem_nil) ?_
  refine along_cons (fun _ => show Clashes _ _ _ _ → Refused _ _ _ by decide) ?_
  refine along_cons (fun _ => show Clashes _ _ _ _ → Refused _ _ _ by decide) ?_
  refine along_cons (fun _ => show Clashes _ _ _ _ → Refused _ _ _ by decide) ?_
  refine along_cons (fun dnsReq _ hparse => ?_) ?_
  · have hnone : Host.ascii.parse [] = .error .dnsError := rfl
    rw [hnone] at hparse
    cases hparse
  refine along_cons (fun _ _ _ records _ _ hrecords st₁ _ _ => ?_) trivial
  obtain rfl : [] = records := Except.ok.inj hrecords
  exact trivial

/-- A DNSKEY record, and a CNAME under its name. -/
def keyAndCname : List Operation :=
  [.form ⟨1, 1, "www".toList, 300, .dnskey 257 3 13 (.str "AA==".toList)⟩,
    .form ⟨2, 1, "www".toList, 300, .cname "example.net.".toList⟩]

/-- The form of a CNAME does not look at DNSKEY records. -/
theorem not_exclusive_keyAndCname : (∀ r ∈ emptyZone.records, r.zone ≠ 1) ∧
    ¬ Always (step .ascii noParser) (Exclusive .ascii 1) emptyZone keyAndCname := by
  refine ⟨fun r hr => absurd hr List.not_mem_nil, fun hall => ?_⟩
  let key : Row := ⟨1, 1, "www".toList, 300, .dnskey 257 3 13 (.str "AA==".toList)⟩
  let cname : Row := ⟨2, 1, "www".toList, 300, .cname "example.net.".toList⟩
  have hend : ∀ st, after (step .ascii noParser) emptyZone keyAndCname = some st →
      key ∈ st.records ∧ cname ∈ st.records := by
    intro st hst
    obtain rfl := Option.some.inj hst
    decide
  obtain ⟨st, hst⟩ : ∃ st, after (step .ascii noParser) emptyZone keyAndCname = some st := ⟨_, rfl⟩
  obtain ⟨hkey, hcname⟩ := hend st hst
  have hlabel : ownerText .ascii key = some "www".toList ∧ ownerText .ascii cname = some "www".toList := by
    decide
  have hsame := (hall.after hst cname hcname rfl rfl "www".toList hlabel.2).2 key hkey rfl hlabel.1
  exact absurd (congrArg Row.id hsame) (by decide)

end HexDns.Tasks.Cnames
