import HexDns.Grpc.Update

/-! # What one record of an update section does

The update loop reads and writes the database in turn; here each of its branches is split into what
it finds out (`addition`, `deletions`: functions of the database before the record) and what it then
writes (`saved`, `sweepStore`). `run_updateRr` is the one place where the programs are taken
apart; everything about updates goes through it. -/

namespace HexDns.Grpc.Steps

open HexDns.Lib.Texts HexDns.Lib.Tables HexDns.Lib.Programs HexDns.Base.Py HexDns.Base.Label
  HexDns.Base.Message HexDns.Models.Db HexDns.Models.Env HexDns.Models.Convert
  HexDns.Grpc.FindZone HexDns.Grpc.Records HexDns.Grpc.Update

/-! ### Programs of the models -/

@[simp] theorem run_orRaise {σ α : Type} (x : Except PyErr α) (s : σ) :
    run (orRaise x : Exec σ Stop α) s = (x.mapError .raised, s) := run_ofResult _ _

theorem run_calling {σ α : Type} (m : Exec σ PyErr α) (s : σ) :
    run (calling m) s = ((run m s).1.mapError .raised, (run m s).2) := by
  show calling m s = _
  unfold calling
  rcases run m s with ⟨e | a, s'⟩ <;> rfl

section
variable (h : Host)

/-- The store with a task for the zone. -/
def enqueued (st : Store) (zone : ℕ) : Store := { st with queue := st.queue ++ [zone] }

/-- The row that `save` writes, if the database takes it. -/
def saved (row : Row) : Except PyErr Row := do
  let data ← columnsOf h row.data
  let row' := { row with recordName := h.py.lower row.recordName, data := data }
  if h.accepts row' then return row' else throw .databaseError

/-- The store after `save` of a row. -/
def saveStore (st : Store) (row : Row) : Store :=
  match saved h row with
  | .ok row' => Store.put (enqueued st row.zone) row'
  | .error _ => enqueued st row.zone

/-- The store after `delete` of a row. -/
def deleteStore (st : Store) (row : Row) : Store :=
  Store.drop (if row.model = .dhcid then st else enqueued st row.zone) row

theorem run_saveRow (row : Row) (st : Store) :
    run (saveRow h row) st = ((saved h row).map fun _ => (), saveStore h st row) := by
  unfold saveRow enqueue saveStore saved
  rw [run_bind_ok (run_modify _ _), run_bind, run_ofResult]
  rcases columnsOf h row.data with e | data
  · rfl
  change run (writeRow h _) _ = _
  unfold writeRow
  change run (if h.accepts { row with recordName := h.py.lower row.recordName, data := data } then _
    else _) _ = ((if h.accepts { row with recordName := h.py.lower row.recordName, data := data }
      then _ else _ : Except PyErr Row).map _, match (if h.accepts _ then _ else _ : Except PyErr Row)
        with | .ok row' => _ | .error _ => _)
  by_cases ha : h.accepts { row with recordName := h.py.lower row.recordName, data := data } = true
  · simp only [if_pos ha]; rfl
  · simp only [if_neg ha]; rfl

theorem run_deleteRow (row : Row) (st : Store) :
    run (deleteRow row) st = (.ok (), deleteStore st row) := by
  unfold deleteRow deleteStore enqueue
  split_ifs <;> rfl

/-! ### Deletions -/

/-- Go through rows with a decision for each: to delete it, to leave it, or to stop. The rows to delete
up to the stop, and how it ends. -/
def sweep (d : Row → Except Stop Bool) : List Row → List Row × Except Stop Unit
  | [] => ([], .ok ())
  | r :: rs =>
    match d r with
    | .error e => ([], .error e)
    | .ok true => (r :: (sweep d rs).1, (sweep d rs).2)
    | .ok false => sweep d rs

theorem run_sweep {d : Row → Except Stop Bool} {f : Row → Exec Store Stop Unit}
    (hf : ∀ r st, run (f r) st = match d r with
      | .error e => (.error e, st)
      | .ok true => (.ok (), deleteStore st r)
      | .ok false => (.ok (), st)) (rows : List Row) (st : Store) :
    run (runAll f rows) st = ((sweep d rows).2, (sweep d rows).1.foldl deleteStore st) := by
  induction rows generalizing st with
  | nil => rfl
  | cons r rs ih =>
    change run (f r >>= fun _ => runAll f rs) st = _
    have hr := hf r st
    unfold sweep
    rcases hd : d r with e | (_ | _)
    · rw [hd] at hr; exact run_bind_error hr
    · rw [hd] at hr; rw [run_bind_ok hr]; exact ih st
    · rw [hd] at hr; rw [run_bind_ok hr]; exact ih _

/-- The decision on a row by its resource record. -/
def decideRow (rname : DnsLabel) (p : Rr → Except Stop Bool) (r : Row) : Except Stop Bool :=
  match toRr h r rname with
  | .error e => .error (.raised e)
  | .ok none => .error (.raised .attributeError)
  | .ok (some recordRr) => p recordRr

/-- `checkManage` as a decision -/
def managed (tsigKey : UpdateSecret) (recordName : DnsLabel) (rrtype : QType) : Except Stop Bool :=
  match canManage h tsigKey rrtype recordName with
  | .error e => .error (.raised e)
  | .ok true => .ok true
  | .ok false => .error (.rcode .notauth)

theorem run_checkManage (tsigKey : UpdateSecret) (rrtype : QType) (recordName : DnsLabel)
    (st : Store) : run (checkManage h tsigKey rrtype recordName) st =
      ((managed h tsigKey recordName rrtype).map fun _ => (), st) := by
  unfold checkManage managed
  rw [run_bind, run_orRaise]
  rcases canManage h tsigKey rrtype recordName with e | (_ | _) <;> rfl

theorem run_deleteIf (rname : DnsLabel) (p : Rr → Bool) (r : Row) (st : Store) :
    run (deleteIf h rname p r) st = match decideRow h rname (fun rr => .ok (p rr)) r with
      | .error e => (.error e, st)
      | .ok true => (.ok (), deleteStore st r)
      | .ok false => (.ok (), st) := by
  unfold deleteIf decideRow
  rw [run_bind, run_orRaise]
  rcases toRr h r rname with e | _ | rr
  · rfl
  · rfl
  change run (if p rr = true then calling (deleteRow r) else pure ()) st = _
  dsimp only
  rcases hp : p rr with _ | _
  · rfl
  · rw [if_pos rfl, run_calling, run_deleteRow]; rfl

/-- The rows that a deletion goes through: those of the type's model, or of every model. -/
def candidates (st : Store) (zone : Zone) (recordName : DnsLabel) (rr : Rr) : List Row :=
  if rr.rclass = .any ∧ rr.rtype = .any then deletedModels.flatMap (foundRows st recordName zone)
  else
    match modelOfType h rr.rtype with
    | some (m, _) => foundRows st recordName zone m
    | none => []

/-- The decision of a deletion on a row, once the key may manage the type. -/
def decision (tsigKey : UpdateSecret) (recordName : DnsLabel) (rr : Rr) (r : Row) :
    Except Stop Bool :=
  decideRow h rr.rname (fun recordRr =>
    if rr.rclass = .any then
      if rr.rtype = .any then managed h tsigKey recordName recordRr.rtype
      else .ok (recordRr.rtype = rr.rtype)
    else .ok (rr.rdata.eq recordRr.rdata && recordRr.rtype = rr.rtype)) r

/-- **What a deletion does**: the rows it deletes, in order, and how it ends. -/
def deletions (st : Store) (tsigKey : UpdateSecret) (zone : Zone) (recordName : DnsLabel) (rr : Rr) :
    List Row × Except Stop Unit :=
  match recordName.searchName with
  | .error e => ([], .error (.raised e))
  | .ok _ =>
    if rr.rclass = .any ∧ rr.rtype = .any then
      sweep (decision h tsigKey recordName rr) (candidates h st zone recordName rr)
    else
      match managed h tsigKey recordName rr.rtype with
      | .error stop => ([], .error stop)
      | .ok _ => sweep (decision h tsigKey recordName rr) (candidates h st zone recordName rr)

/-! ### Additions -/

/-- What an addition comes to: nothing, a row that is changed, or a new row. -/
inductive Addition
  | nothing
  | change (old new : Row)
  | create (new : Row)
  deriving DecidableEq, Repr

/-- The first row with the rdata of `rr`, and what `update_from_rr` makes of it. -/
def matching (zone : Zone) (rr : Rr) : List Row → Except PyErr (Option (Row × Row))
  | [] => .ok none
  | record :: records =>
    match toRr h record rr.rname with
    | .error e => .error e
    | .ok none => .error .attributeError
    | .ok (some recordRr) =>
      if rr.rdata.eq recordRr.rdata then
        (updateFromRr h (updateColumns h record) record rr zone).map fun new => some (record, new)
      else matching zone rr records

/-- An addition is blocked by a CNAME, or that of a CNAME by another record. -/
def blocked (st : Store) (zone : Zone) (recordName : DnsLabel) (rr : Rr) : Except PyErr Bool :=
  if rr.rtype = .cname then anyRecords h st recordName zone false
  else anyRecordType h st recordName zone .cname

/-- **What an addition finds out.** -/
def addition (st : Store) (tsigKey : UpdateSecret) (zone : Zone) (recordName : DnsLabel) (rr : Rr) :
    Except Stop Addition :=
  match managed h tsigKey recordName rr.rtype, modelOfType h rr.rtype with
  | .error stop, _ => .error stop
  | .ok _, none => .ok .nothing
  | .ok _, some (m, columns) =>
    match fromRr h columns rr zone st.records.next, blocked h st zone recordName rr with
    | .error e, _ | .ok _, .error e => .error (.raised e)
    | .ok _, .ok true => .ok .nothing
    | .ok newRecord, .ok false =>
      match findRecords st m recordName zone with
      | .error e => .error (.raised e)
      | .ok records =>
        match matching h zone rr records with
        | .error e => .error (.raised e)
        | .ok (some (old, new)) => .ok (.change old new)
        | .ok none => .ok (.create newRecord)

/-- The row that an addition saves. -/
def Addition.row : Addition → Option Row
  | .nothing => none
  | .change _ new => some new
  | .create new => some new

/-! ### The programs of an addition -/

theorem run_tryUpdateIn (zone : Zone) (rr : Rr) (records : List Row) (st : Store) :
    run (tryUpdateIn h zone rr records) st = match matching h zone rr records with
      | .error e => (.error e, st)
      | .ok none => (.ok true, st)
      | .ok (some (_, new)) => ((saved h new).map fun _ => false, saveStore h st new) := by
  induction records with
  | nil => rfl
  | cons record records ih =>
    unfold tryUpdateIn matching
    rw [run_bind, run_ofResult]
    rcases toRr h record rr.rname with e | _ | recordRr
    · rfl
    · rfl
    dsimp only
    by_cases heq : rr.rdata.eq recordRr.rdata = true
    · rw [if_pos heq, if_pos heq, run_bind, run_ofResult]
      rcases updateFromRr h (updateColumns h record) record rr zone with e | new
      · rfl
      · change run (saveRow h new >>= fun _ => pure false) st = _
        rw [run_bind, run_saveRow]
        dsimp only [Except.map]
        rcases saved h new with e | row <;> rfl
    · rw [if_neg heq, if_neg heq]
      exact ih

theorem run_tryUpdate {rr : Rr} {m : Model} {columns : Rr → Except PyErr RecordData}
    (hm : modelOfType h rr.rtype = some (m, columns)) (zone : Zone) (recordName : DnsLabel)
    (st : Store) : run (tryUpdate h zone recordName rr) st =
      match blocked h st zone recordName rr with
      | .error e => (.error e, st)
      | .ok true => (.ok false, st)
      | .ok false => match findRecords st m recordName zone with
        | .error e => (.error e, st)
        | .ok records => run (tryUpdateIn h zone rr records) st := by
  unfold tryUpdate
  rw [run_bind_ok (run_get st)]
  change run (ofResult (blocked h st zone recordName rr) >>= _) st = _
  rw [run_bind, run_ofResult]
  rcases blocked h st zone recordName rr with e | (_ | _)
  · rfl
  · change run (ofResult (getRecordModels h st rr.rtype recordName zone) >>= _) st = _
    rw [run_bind, run_ofResult]
    unfold getRecordModels
    rw [hm]
    dsimp only
    rcases findRecords st m recordName zone with e | records <;> rfl
  · rfl

/-- The store after an addition and how the addition ends. -/
def added (st : Store) : Except Stop Addition → Except Stop Unit × Store
  | .error stop => (.error stop, st)
  | .ok a =>
    match a.row with
    | none => (.ok (), st)
    | some row => (((saved h row).map fun _ => ()).mapError .raised, saveStore h st row)

theorem run_addRr (tsigKey : UpdateSecret) (zone : Zone) (recordName : DnsLabel) (rr : Rr)
    (st : Store) : run (addRr h tsigKey zone recordName rr) st =
      added h st (addition h st tsigKey zone recordName rr) := by
  unfold addRr addition
  rw [run_bind, run_checkManage]
  rcases managed h tsigKey recordName rr.rtype with stop | b
  · rfl
  rcases hm : modelOfType h rr.rtype with _ | ⟨m, columns⟩
  · rfl
  change run (get >>= fun st => orRaise (fromRr h columns rr zone st.records.next) >>= _) st = _
  rw [run_bind_ok (run_get st), run_bind, run_orRaise]
  dsimp only
  rcases fromRr h columns rr zone st.records.next with e | newRecord
  · rfl
  change run (calling (tryUpdate h zone recordName rr) >>= _) st = _
  rw [run_bind, run_calling, run_tryUpdate h hm]
  rcases blocked h st zone recordName rr with e | (_ | _)
  · rfl
  · dsimp only
    rcases findRecords st m recordName zone with e | records
    · rfl
    dsimp only
    rw [run_tryUpdateIn]
    rcases matching h zone rr records with e | _ | ⟨old, new⟩
    · rfl
    · change run (calling (saveRow h newRecord)) st = _
      rw [run_calling, run_saveRow]
      rfl
    · change _ = (((saved h new).map fun _ => ()).mapError Stop.raised, saveStore h st new)
      dsimp only
      rcases saved h new with e | row <;> rfl
  · rfl

/-! ### The programs of a deletion -/

variable {h}

theorem sweep_cons (d : Row → Except Stop Bool) (r : Row) (rs : List Row) :
    sweep d (r :: rs) = match d r with
      | .error e => ([], .error e)
      | .ok true => (r :: (sweep d rs).1, (sweep d rs).2)
      | .ok false => sweep d rs := rfl

theorem sweep_append (d : Row → Except Stop Bool) (l l' : List Row) :
    sweep d (l ++ l') = match (sweep d l).2 with
      | .ok () => ((sweep d l).1 ++ (sweep d l').1, (sweep d l').2)
      | .error stop => ((sweep d l).1, .error stop) := by
  induction l with
  | nil => rfl
  | cons r l ih =>
    rw [List.cons_append, sweep_cons, sweep_cons]
    rcases d r with e | (_ | _)
    · rfl
    · exact ih
    · dsimp only
      rw [ih]
      rcases (sweep d l).2 with e | u <;> rfl

theorem sweep_subset {d : Row → Except Stop Bool} {l : List Row} {r : Row}
    (hr : r ∈ (sweep d l).1) : r ∈ l ∧ d r = .ok true := by
  induction l with
  | nil => cases hr
  | cons x l ih =>
    unfold sweep at hr
    rcases hd : d x with e | (_ | _)
    · rw [hd] at hr; cases hr
    · rw [hd] at hr
      exact ⟨List.mem_cons_of_mem _ (ih hr).1, (ih hr).2⟩
    · rw [hd] at hr
      rcases List.mem_cons.mp hr with rfl | hr
      · exact ⟨List.mem_cons_self, hd⟩
      · exact ⟨List.mem_cons_of_mem _ (ih hr).1, (ih hr).2⟩

/-- A sweep that returns has decided on every row. -/
theorem mem_sweep {d : Row → Except Stop Bool} {l : List Row} (h : (sweep d l).2 = .ok ()) {r : Row} :
    r ∈ (sweep d l).1 ↔ r ∈ l ∧ d r = .ok true := by
  refine ⟨sweep_subset, ?_⟩
  induction l with
  | nil => rintro ⟨h, -⟩; cases h
  | cons x l ih =>
    rintro ⟨hr, hd⟩
    unfold sweep at h ⊢
    rcases hx : d x with e | (_ | _)
    · rw [hx] at h; cases h
    · rw [hx] at h
      rcases List.mem_cons.mp hr with rfl | hr
      · rw [hx] at hd; cases hd
      · exact ih h ⟨hr, hd⟩
    · rw [hx] at h
      rcases List.mem_cons.mp hr with rfl | hr
      · exact List.mem_cons_self
      · exact List.mem_cons_of_mem _ (ih h ⟨hr, hd⟩)

@[simp] theorem records_deleteStore (st : Store) (r : Row) :
    (deleteStore st r).records = st.records.erase r.id := by
  unfold deleteStore Store.drop enqueued
  split_ifs <;> rfl

/-- Deletions leave the rows with other ids. -/
theorem mem_foldl_deleteStore {rows : List Row} {st : Store} {x : Row} :
    x ∈ (rows.foldl deleteStore st).records ↔ x ∈ st.records ∧ ∀ r ∈ rows, x.id ≠ r.id := by
  induction rows generalizing st with
  | nil => simp
  | cons r rows ih =>
    rw [List.foldl_cons, ih, records_deleteStore, mem_erase, List.forall_mem_cons]
    exact and_assoc

theorem named_deleteStore {st : Store} {r : Row} {m : Model}
    (hr : ∀ x ∈ st.records, x.id = r.id → x.model ≠ m) (name : Text) (zone : Zone) :
    named (deleteStore st r) m name zone = named st m name zone := by
  unfold named Store.recordsOf
  rw [records_deleteStore]
  change ((st.records.rows.filter fun x => !decide (x.id = r.id)).filter _) = _
  rw [List.filter_filter]
  refine List.filter_congr fun x hx => ?_
  rcases hid : decide (x.id = r.id) with _ | _
  · simp
  · have hm := hr x hx (of_decide_eq_true hid)
    simp [hm]

theorem named_foldl_deleteStore {rows : List Row} {st : Store} {m : Model}
    (hrows : ∀ r ∈ rows, ∀ x ∈ st.records, x.id = r.id → x.model ≠ m) (name : Text) (zone : Zone) :
    named (rows.foldl deleteStore st) m name zone = named st m name zone := by
  induction rows generalizing st with
  | nil => rfl
  | cons r rows ih =>
    rw [List.foldl_cons, ih, named_deleteStore (hrows r List.mem_cons_self)]
    intro y hy x hx hxy
    rw [records_deleteStore, mem_erase] at hx
    exact hrows y (List.mem_cons_of_mem _ hy) x hx.1 hxy

variable (h)

theorem run_deleteAllOf (tsigKey : UpdateSecret) (zone : Zone) {recordName : DnsLabel} {s : Text}
    (hs : recordName.searchName = .ok s) (rr : Rr) (m : Model) (st : Store) :
    run (deleteAllOf h tsigKey zone recordName rr m) st =
      let d := decideRow h rr.rname fun recordRr => managed h tsigKey recordName recordRr.rtype
      ((sweep d (foundRows st recordName zone m)).2,
        (sweep d (foundRows st recordName zone m)).1.foldl deleteStore st) := by
  unfold deleteAllOf
  rw [run_bind_ok (run_get st), findRecords_eq_foundRows hs]
  refine (run_bind_ok (run_orRaise _ _)).trans (run_sweep (fun r st => ?_) _ st)
  unfold decideRow
  rw [run_bind, run_orRaise]
  rcases toRr h r rr.rname with e | _ | recordRr
  · rfl
  · rfl
  change run (checkManage h tsigKey recordRr.rtype recordName >>= fun _ => calling (deleteRow r)) st =
    _
  rw [run_bind, run_checkManage]
  unfold managed
  dsimp only
  rcases canManage h tsigKey recordRr.rtype recordName with e | (_ | _)
  · rfl
  · rfl
  · change run (calling (deleteRow r)) st = _
    rw [run_calling, run_deleteRow]; rfl

/-- The models one after the other are one sweep, as the rows of a model are not deleted with those
of another. -/
theorem run_runAll_deleteAllOf (tsigKey : UpdateSecret) (zone : Zone) {recordName : DnsLabel}
    {s : Text} (hs : recordName.searchName = .ok s) (rr : Rr) {st : Store} {models : List Model}
    (hnodup : models.Nodup) {st' : Store}
    (hst' : ∀ m ∈ models, ∀ name, named st' m name zone = named st m name zone)
    (hsub : ∀ x ∈ st'.records, x ∈ st.records) :
    run (runAll (deleteAllOf h tsigKey zone recordName rr) models) st' =
      let d := decideRow h rr.rname fun recordRr => managed h tsigKey recordName recordRr.rtype
      let swept := sweep d (models.flatMap (foundRows st recordName zone))
      (swept.2, swept.1.foldl deleteStore st') := by
  induction models generalizing st' with
  | nil => rfl
  | cons m models ih =>
    obtain ⟨hm, hnodup⟩ := List.nodup_cons.mp hnodup
    change run (deleteAllOf h tsigKey zone recordName rr m >>= fun _ => _) st' = _
    have hrows : foundRows st' recordName zone m = foundRows st recordName zone m :=
      foundRows_congr (hst' m List.mem_cons_self) _
    rw [run_bind, run_deleteAllOf h tsigKey zone hs, List.flatMap_cons, hrows]
    dsimp only
    rw [sweep_append]
    have hof : ∀ r ∈ (sweep (decideRow h rr.rname fun recordRr =>
        managed h tsigKey recordName recordRr.rtype) (foundRows st recordName zone m)).1,
        r ∈ st.records ∧ r.model = m := fun r hr => foundRows_model (sweep_subset hr).1
    generalize hsw : sweep _ (foundRows st recordName zone m) = swept at hof
    obtain ⟨rows, stop | ⟨⟩⟩ := swept
    · rfl
    · dsimp only
      refine (ih hnodup (fun m' hm' name => ?_) fun x hx => ?_).trans ?_
      · rw [named_foldl_deleteStore, hst' m' (List.mem_cons_of_mem _ hm')]
        intro r hr x hx hid hxm
        obtain ⟨hrst, hrm⟩ := hof r hr
        have heq : x = r := eq_of_key (hsub x hx) hrst hid
        exact hm (hrm ▸ heq ▸ hxm ▸ hm')
      · exact hsub x (mem_foldl_deleteStore.mp hx).1
      · dsimp only
        rw [List.foldl_append]

theorem getRecordModels_ok {t : QType} {m : Model} {columns : Rr → Except PyErr RecordData}
    (hm : modelOfType h t = some (m, columns)) {recordName : DnsLabel} {s : Text}
    (hs : recordName.searchName = .ok s) (st : Store) (zone : Zone) :
    getRecordModels h st t recordName zone = .ok (some (foundRows st recordName zone m)) := by
  unfold getRecordModels
  rw [hm]
  dsimp only
  rw [findRecords_eq_foundRows hs]; rfl

theorem getRecordModels_error {t : QType} {m : Model} {columns : Rr → Except PyErr RecordData}
    (hm : modelOfType h t = some (m, columns)) {recordName : DnsLabel} {e : PyErr}
    (hs : recordName.searchName = .error e) (st : Store) (zone : Zone) :
    getRecordModels h st t recordName zone = .error e := by
  unfold getRecordModels
  rw [hm]
  dsimp only
  rw [findRecords_error hs]; rfl

theorem run_deleteRrSet {rr : Rr} {m : Model} {columns : Rr → Except PyErr RecordData}
    (hm : modelOfType h rr.rtype = some (m, columns)) (hclass : rr.rclass = .any)
    (htype : rr.rtype ≠ .any) (tsigKey : UpdateSecret) (zone : Zone) (recordName : DnsLabel)
    (st : Store) : run (deleteRrSet h tsigKey zone recordName rr) st =
      ((deletions h st tsigKey zone recordName rr).2,
        (deletions h st tsigKey zone recordName rr).1.foldl deleteStore st) := by
  unfold deleteRrSet deletions
  rw [run_bind_ok (run_get st)]
  rw [if_neg (fun hc => htype hc.2)]
  rcases hs : recordName.searchName with e | s
  · rw [getRecordModels_error h hm hs]; rfl
  rw [getRecordModels_ok h hm hs]
  refine (run_bind_ok (run_orRaise _ _)).trans ?_
  rw [run_bind, run_checkManage]
  dsimp only
  rcases managed h tsigKey recordName rr.rtype with stop | b
  · rfl
  have hc : candidates h st zone recordName rr = foundRows st recordName zone m := by
    unfold candidates; rw [hm, if_neg (fun hc => htype hc.2)]
  rw [hc]
  refine run_sweep (fun r st => ?_) _ st
  rw [run_deleteIf]
  unfold decision
  simp only [if_pos hclass, if_neg htype]

theorem run_deleteRr {rr : Rr} {m : Model} {columns : Rr → Except PyErr RecordData}
    (hm : modelOfType h rr.rtype = some (m, columns)) (hclass : rr.rclass = .none)
    (tsigKey : UpdateSecret) (zone : Zone) (recordName : DnsLabel) (st : Store) :
    run (deleteRr h tsigKey zone recordName rr) st =
      ((deletions h st tsigKey zone recordName rr).2,
        (deletions h st tsigKey zone recordName rr).1.foldl deleteStore st) := by
  have hany : rr.rclass ≠ .any := by rw [hclass]; decide
  unfold deleteRr deletions
  rw [run_bind_ok (run_get st)]
  rw [if_neg (fun hc => hany hc.1)]
  rcases hs : recordName.searchName with e | s
  · rw [getRecordModels_error h hm hs]; rfl
  rw [getRecordModels_ok h hm hs]
  refine (run_bind_ok (run_orRaise _ _)).trans ?_
  change run (checkManage h tsigKey rr.rtype recordName >>= fun _ => _) st = _
  rw [run_bind, run_checkManage]
  dsimp only
  rcases managed h tsigKey recordName rr.rtype with stop | b
  · rfl
  have hc : candidates h st zone recordName rr = foundRows st recordName zone m := by
    unfold candidates; rw [hm, if_neg (fun hc => hany hc.1)]
  rw [hc]
  refine run_sweep (fun r st => ?_) _ st
  rw [run_deleteIf]
  unfold decision
  simp only [if_neg hany]

/-! ### One record -/

/-- How a record of the update section ends, and the store after it. -/
def step (tsigKey : UpdateSecret) (zone : Zone) (zoneName : DnsLabel) (st : Store) (rr : Rr) :
    Except Stop Unit × Store :=
  let recordName := rr.rname.stripSuffix zoneName
  match rr.rclass with
  | .in => added h st (addition h st tsigKey zone recordName rr)
  | .other _ => (.ok (), st)
  | _ =>
    let deleted := deletions h st tsigKey zone recordName rr
    (deleted.2, deleted.1.foldl deleteStore st)

theorem exists_modelOfType {t : QType} (ht : t ∈ supportedTypes) :
    ∃ m columns, modelOfType h t = some (m, columns) ∧ t ≠ .any := by
  simp only [supportedTypes, List.mem_cons, List.not_mem_nil, or_false] at ht
  rcases ht with rfl | rfl | rfl | rfl | rfl | rfl | rfl | rfl | rfl | rfl | rfl | rfl | rfl | rfl <;>
    exact ⟨_, _, rfl, by decide⟩

/-- The prescan lets through names in the zone and supported types, type ANY for class ANY. -/
theorem prescanRr_eq_none {zoneName : DnsLabel} {rr : Rr} (hpre : prescanRr zoneName rr = none) :
    rr.rname.matchSuffix zoneName = true ∧
      (rr.rtype ∈ supportedTypes ∨ rr.rclass = .any ∧ rr.rtype = .any) := by
  unfold prescanRr at hpre
  rcases hclass : rr.rclass with _ | _ | _ | c
  · rw [hclass] at hpre
    dsimp only at hpre
    split_ifs at hpre with h1 h2
    exact ⟨by simpa using h1, Or.inl h2⟩
  · rw [hclass] at hpre
    dsimp only at hpre
    split_ifs at hpre with h1 h2
    exact ⟨by simpa using h1, Or.inl (not_not.mp fun h' => h2 (Or.inr h'))⟩
  · rw [hclass] at hpre
    dsimp only at hpre
    split_ifs at hpre with h1 h2
    refine ⟨by simpa using h1, ?_⟩
    have hmem := not_not.mp fun h' => h2 (Or.inr (Or.inl h'))
    rcases List.mem_append.mp hmem with h' | h'
    · exact Or.inl h'
    · exact Or.inr ⟨rfl, List.mem_singleton.mp h'⟩
  · rw [hclass] at hpre; cases hpre

/-- **What a record of the update section does**, if the prescan has let it through. -/
theorem run_updateRr {zoneName : DnsLabel} {rr : Rr} (hpre : prescanRr zoneName rr = none)
    (tsigKey : UpdateSecret) (zone : Zone) (st : Store) :
    run (updateRr h tsigKey zone zoneName rr) st = step h tsigKey zone zoneName st rr := by
  obtain ⟨-, htype⟩ := prescanRr_eq_none hpre
  unfold updateRr step
  rcases hclass : rr.rclass with _ | _ | _ | c
  · exact run_addRr h tsigKey zone _ rr st
  · rw [hclass] at htype
    obtain ⟨m, columns, hm, -⟩ := exists_modelOfType h (htype.resolve_right (by simp))
    exact run_deleteRr h hm hclass tsigKey zone _ st
  · dsimp only
    by_cases hany : rr.rtype = .any
    · rw [if_pos hany]
      unfold deletions
      rcases hs : (rr.rname.stripSuffix zoneName).searchName with e | s
      · unfold deletedModels deleteAllOf runAll
        refine run_bind_error ((run_bind_ok (run_get st)).trans ?_)
        rw [findRecords_error hs]
        exact run_bind_error (run_orRaise _ _)
      · dsimp only
        rw [if_pos ⟨hclass, hany⟩]
        have hc : candidates h st zone (rr.rname.stripSuffix zoneName) rr =
            deletedModels.flatMap (foundRows st (rr.rname.stripSuffix zoneName) zone) := by
          unfold candidates; rw [if_pos ⟨hclass, hany⟩]
        rw [hc, run_runAll_deleteAllOf h tsigKey zone hs rr (by decide) (fun _ _ _ => rfl)
          fun x hx => hx]
        unfold decision
        simp only [if_pos hclass, if_pos hany]
    · obtain ⟨m, columns, hm, -⟩ := exists_modelOfType h (htype.resolve_right fun h' => hany h'.2)
      rw [if_neg hany]
      exact run_deleteRrSet h hm hclass hany tsigKey zone _ st
  · rfl

/-! ### What an addition comes to -/

variable {h}

theorem managed_eq_ok {tsigKey : UpdateSecret} {recordName : DnsLabel} {t : QType} {b : Bool}
    (hm : managed h tsigKey recordName t = .ok b) : canManage h tsigKey t recordName = .ok true := by
  unfold managed at hm
  rcases hc : canManage h tsigKey t recordName with e | (_ | _)
  · rw [hc] at hm; cases hm
  · rw [hc] at hm; cases hm
  · rfl

theorem matching_eq_some {zone : Zone} {rr : Rr} {records : List Row} {old new : Row}
    (hm : matching h zone rr records = .ok (some (old, new))) :
    old ∈ records ∧ (∃ recordRr, toRr h old rr.rname = .ok (some recordRr) ∧
      rr.rdata.eq recordRr.rdata = true) ∧
        updateFromRr h (updateColumns h old) old rr zone = .ok new := by
  induction records with
  | nil => cases hm
  | cons record records ih =>
    unfold matching at hm
    rcases hrr : toRr h record rr.rname with e | _ | recordRr
    · rw [hrr] at hm; cases hm
    · rw [hrr] at hm; cases hm
    rw [hrr] at hm
    dsimp only at hm
    by_cases heq : rr.rdata.eq recordRr.rdata = true
    · rw [if_pos heq] at hm
      rcases hu : updateFromRr h (updateColumns h record) record rr zone with e | new'
      · rw [hu] at hm; cases hm
      · rw [hu] at hm
        cases hm
        exact ⟨List.mem_cons_self, ⟨recordRr, hrr, heq⟩, hu⟩
    · rw [if_neg heq] at hm
      obtain ⟨h1, h2, h3⟩ := ih hm
      exact ⟨List.mem_cons_of_mem _ h1, h2, h3⟩

/-- What has been found out when an addition writes: its model, the row it would make, the rows it
has looked at, and the row that it changes and what it becomes, if there is one. -/
structure Looked (h : Host) (st : Store) (tsigKey : UpdateSecret) (zone : Zone)
    (recordName : DnsLabel) (rr : Rr) (m : Model) (columns : Rr → Except PyErr RecordData) (made : Row)
    (records : List Row) (found : Option (Row × Row)) : Prop where
  managed : canManage h tsigKey rr.rtype recordName = .ok true
  model : modelOfType h rr.rtype = some (m, columns)
  made : fromRr h columns rr zone st.records.next = .ok made
  unblocked : blocked h st zone recordName rr = .ok false
  listed : findRecords st m recordName zone = .ok records
  matched : matching h zone rr records = .ok found

/-- The addition that writes, by what has been found. -/
def Addition.write (made : Row) : Option (Row × Row) → Addition
  | none => .create made
  | some (old, new) => .change old new

/-- What an addition comes to: the name is not managed, a lookup raises, there is nothing to do, or a row is written. -/
theorem addition_cases (st : Store) (tsigKey : UpdateSecret) (zone : Zone) (recordName : DnsLabel) (rr : Rr) :
    (∃ stop, managed h tsigKey recordName rr.rtype = .error stop ∧
      addition h st tsigKey zone recordName rr = .error stop) ∨
    (∃ e, addition h st tsigKey zone recordName rr = .error (.raised e)) ∨
    ((modelOfType h rr.rtype = none ∨ blocked h st zone recordName rr = .ok true) ∧
      addition h st tsigKey zone recordName rr = .ok .nothing) ∨
    ∃ m columns made records found, Looked h st tsigKey zone recordName rr m columns made records found ∧
      addition h st tsigKey zone recordName rr = .ok (.write made found) := by
  unfold addition
  rcases hman : managed h tsigKey recordName rr.rtype with stop | b
  · exact Or.inl ⟨stop, rfl, rfl⟩
  right
  rcases hm : modelOfType h rr.rtype with _ | ⟨m, columns⟩
  · exact Or.inr (Or.inl ⟨Or.inl rfl, rfl⟩)
  dsimp only
  rcases hf : fromRr h columns rr zone st.records.next with e | made
  · exact Or.inl ⟨e, rfl⟩
  rcases hb : blocked h st zone recordName rr with e | (_ | _)
  · exact Or.inl ⟨e, rfl⟩
  · dsimp only
    rcases hr : findRecords st m recordName zone with e | records
    · exact Or.inl ⟨e, rfl⟩
    dsimp only
    rcases hmt : matching h zone rr records with e | found
    · exact Or.inl ⟨e, rfl⟩
    refine Or.inr (Or.inr ⟨m, columns, made, records, found, ⟨managed_eq_ok hman, hm, hf, hb, hr, hmt⟩, ?_⟩)
    rcases found with _ | ⟨old, new⟩ <;> rfl
  · exact Or.inr (Or.inl ⟨Or.inr rfl, rfl⟩)

theorem addition_eq_ok {st : Store} {tsigKey : UpdateSecret} {zone : Zone} {recordName : DnsLabel}
    {rr : Rr} {a : Addition} (hne : a ≠ .nothing) :
    addition h st tsigKey zone recordName rr = .ok a ↔ ∃ m columns made records found,
      Looked h st tsigKey zone recordName rr m columns made records found ∧ a = .write made found := by
  constructor
  · intro ha
    rcases addition_cases (h := h) st tsigKey zone recordName rr with ⟨stop, -, hstop⟩ | ⟨e, hraised⟩ | ⟨-, hnothing⟩ |
      ⟨m, columns, made, records, found, hlooked, hwrite⟩
    · cases ha.symm.trans hstop
    · cases ha.symm.trans hraised
    · exact absurd (Except.ok.inj (ha.symm.trans hnothing)) hne
    · exact ⟨m, columns, made, records, found, hlooked, Except.ok.inj (ha.symm.trans hwrite)⟩
  · rintro ⟨m, columns, made, records, found, ⟨hman, hm, hf, hb, hr, hmt⟩, rfl⟩
    unfold addition managed
    rw [hman, hm]
    dsimp only
    rw [hf, hb]
    dsimp only
    rw [hr]
    dsimp only
    rw [hmt]
    rcases found with _ | ⟨old, new⟩ <;> rfl

theorem addition_eq_create {st : Store} {tsigKey : UpdateSecret} {zone : Zone} {recordName : DnsLabel}
    {rr : Rr} {new : Row} (ha : addition h st tsigKey zone recordName rr = .ok (.create new)) :
    ∃ m columns records, Looked h st tsigKey zone recordName rr m columns new records none := by
  obtain ⟨m, columns, made, records, found, hl, heq⟩ := (addition_eq_ok (by simp)).mp ha
  rcases found with _ | ⟨old, new'⟩ <;> cases heq
  exact ⟨m, columns, records, hl⟩

theorem addition_eq_change {st : Store} {tsigKey : UpdateSecret} {zone : Zone} {recordName : DnsLabel}
    {rr : Rr} {old new : Row} (ha : addition h st tsigKey zone recordName rr = .ok (.change old new)) :
    ∃ m columns made records,
      Looked h st tsigKey zone recordName rr m columns made records (some (old, new)) := by
  obtain ⟨m, columns, made, records, found, hl, heq⟩ := (addition_eq_ok (by simp)).mp ha
  rcases found with _ | ⟨old', new'⟩ <;> cases heq
  exact ⟨m, columns, made, records, hl⟩

theorem saved_eq_ok {row row' : Row} : saved h row = .ok row' ↔ ∃ data,
    columnsOf h row.data = .ok data ∧
      row' = { row with recordName := h.py.lower row.recordName, data := data } ∧
        h.accepts row' = true := by
  unfold saved
  rcases columnsOf h row.data with e | data
  · simp [bind, Except.bind]
  change (if h.accepts { row with recordName := h.py.lower row.recordName, data := data } then _
    else _) = _ ↔ _
  by_cases ha : h.accepts { row with recordName := h.py.lower row.recordName, data := data } = true
  · rw [if_pos ha]
    constructor
    · intro heq; cases heq; exact ⟨data, rfl, rfl, ha⟩
    · rintro ⟨_, hd, rfl, -⟩; cases hd; rfl
  · rw [if_neg ha]
    constructor
    · intro heq; cases heq
    · rintro ⟨_, hd, rfl, ha'⟩; cases hd; exact absurd ha' ha

/-! ### The writes of one record -/

theorem mem_of_candidates {st : Store} {zone : Zone} {recordName : DnsLabel} {rr : Rr} {r : Row}
    (hr : r ∈ candidates h st zone recordName rr) : r ∈ st.records := by
  unfold candidates at hr
  split_ifs at hr
  · obtain ⟨m, -, hr⟩ := List.mem_flatMap.mp hr
    exact (foundRows_model hr).1
  · rcases hm : modelOfType h rr.rtype with _ | ⟨m, columns⟩
    · rw [hm] at hr; cases hr
    · rw [hm] at hr; exact (foundRows_model hr).1

/-- What has been found out of a row when it is deleted. -/
structure Deletes (h : Host) (st : Store) (tsigKey : UpdateSecret) (zone : Zone)
    (recordName : DnsLabel) (rr : Rr) (r : Row) : Prop where
  named : ∃ s, recordName.searchName = .ok s
  candidate : r ∈ candidates h st zone recordName rr
  decided : decision h tsigKey recordName rr r = .ok true
  managed : ¬ (rr.rclass = .any ∧ rr.rtype = .any) →
    canManage h tsigKey rr.rtype recordName = .ok true

theorem deletes_of_mem {st : Store} {tsigKey : UpdateSecret} {zone : Zone} {recordName : DnsLabel}
    {rr : Rr} {r : Row} (hr : r ∈ (deletions h st tsigKey zone recordName rr).1) :
    Deletes h st tsigKey zone recordName rr r := by
  unfold deletions at hr
  rcases hs : recordName.searchName with e | s
  · rw [hs] at hr; cases hr
  rw [hs] at hr
  dsimp only at hr
  split_ifs at hr with hany
  · exact ⟨⟨s, hs⟩, (sweep_subset hr).1, (sweep_subset hr).2, fun hn => absurd hany hn⟩
  · rcases hm : managed h tsigKey recordName rr.rtype with stop | b
    · rw [hm] at hr; cases hr
    · rw [hm] at hr
      exact ⟨⟨s, hs⟩, (sweep_subset hr).1, (sweep_subset hr).2, fun _ => managed_eq_ok hm⟩

theorem Looked.mem {st : Store} {tsigKey : UpdateSecret} {zone : Zone} {recordName : DnsLabel}
    {rr : Rr} {m : Model} {columns : Rr → Except PyErr RecordData} {made : Row} {records : List Row}
    {old new : Row}
    (hl : Looked h st tsigKey zone recordName rr m columns made records (some (old, new))) :
    old ∈ foundRows st recordName zone m := by
  have hmem := (matching_eq_some hl.matched).1
  unfold foundRows
  rw [hl.listed]; exact hmem

/-- A deletion leaves the other rows. -/
theorem mem_after_deletions {st : Store} {tsigKey : UpdateSecret} {zone : Zone}
    {recordName : DnsLabel} {rr : Rr} {r : Row} :
    r ∈ ((deletions h st tsigKey zone recordName rr).1.foldl deleteStore st).records ↔
      r ∈ st.records ∧ r ∉ (deletions h st tsigKey zone recordName rr).1 := by
  rw [mem_foldl_deleteStore]
  refine and_congr_right fun hr => ⟨fun hids hmem => hids r hmem rfl, fun hn x hx hid => hn ?_⟩
  have hxst : x ∈ st.records := mem_of_candidates (deletes_of_mem hx).candidate
  rw [eq_of_key hr hxst hid]; exact hx

/-- `w` is a write of a record of the update section. -/
def Writes (h : Host) (st : Store) (tsigKey : UpdateSecret) (zone : Zone) (zoneName : DnsLabel)
    (rr : Rr) (w : Write) : Prop :=
  let recordName := rr.rname.stripSuffix zoneName
  match rr.rclass with
  | .in =>
    match addition h st tsigKey zone recordName rr with
    | .ok (.change old new) => ∃ row, saved h new = .ok row ∧ w = .change old row
    | .ok (.create new) => ∃ row, saved h new = .ok row ∧ w = .create row
    | _ => False
  | .other _ => False
  | _ => ∃ r ∈ (deletions h st tsigKey zone recordName rr).1, w = .delete r

theorem getRow_deleted {rows : List Row} {st : Store} (hrows : ∀ r ∈ rows, r ∈ st.records) {r : Row}
    (hr : r ∈ st.records) : getRow (rows.foldl deleteStore st).records r.id =
      if r ∈ rows then none else some r := by
  split_ifs with hmem
  · rcases hg : getRow (rows.foldl deleteStore st).records r.id with _ | x
    · rfl
    · obtain ⟨hx, hid⟩ := getRow_eq_some.mp hg
      exact absurd hid ((mem_foldl_deleteStore.mp hx).2 r hmem)
  · refine getRow_eq_some.mpr ⟨mem_foldl_deleteStore.mpr ⟨hr, fun x hx hid => hmem ?_⟩, rfl⟩
    rw [eq_of_key hr (hrows x hx) hid]; exact hx

/-- The deletion of rows of the database is in the journal, row by row. -/
theorem journal_foldl_deleteStore {rows : List Row} {st : Store}
    (hrows : ∀ r ∈ rows, r ∈ st.records) :
    ∃ ws, (rows.foldl deleteStore st).journal = st.journal ++ ws ∧
      ∀ w, w ∈ ws ↔ ∃ r ∈ rows, w = .delete r := by
  induction rows using List.reverseRecOn with
  | nil => exact ⟨[], by simp, by simp⟩
  | append_singleton rows r ih =>
    have hrows' : ∀ x ∈ rows, x ∈ st.records := fun x hx => hrows x (List.mem_append_left _ hx)
    obtain ⟨ws, hws, hmem⟩ := ih hrows'
    have hr : r ∈ st.records := hrows r (List.mem_append_right _ (List.mem_singleton.mpr rfl))
    refine ⟨ws ++ ((getRow (rows.foldl deleteStore st).records r.id).map Write.delete).toList, ?_, ?_⟩
    · rw [List.foldl_append, List.foldl_cons, List.foldl_nil]
      generalize rows.foldl deleteStore st = st' at hws ⊢
      rw [← List.append_assoc, ← hws]
      unfold deleteStore Store.drop enqueued
      split_ifs <;> rfl
    · intro w
      rw [getRow_deleted hrows' hr, List.mem_append, hmem]
      simp only [List.mem_append, List.mem_singleton]
      constructor
      · rintro (⟨x, hx, rfl⟩ | hw)
        · exact ⟨x, Or.inl hx, rfl⟩
        · split_ifs at hw
          · cases hw
          · exact ⟨r, Or.inr rfl, by simpa using hw⟩
      · rintro ⟨x, hx | rfl, rfl⟩
        · exact Or.inl ⟨x, hx, rfl⟩
        · by_cases hx : x ∈ rows
          · exact Or.inl ⟨x, hx, rfl⟩
          · rw [if_neg hx]; exact Or.inr (by simp)

theorem journal_saveStore {row row' : Row} (hs : saved h row = .ok row') (st : Store) :
    (saveStore h st row).journal = st.journal ++ [match getRow st.records row.id with
      | none => .create row'
      | some old => .change old row'] := by
  obtain ⟨data, -, rfl, -⟩ := saved_eq_ok.mp hs
  unfold saveStore
  rw [hs]; rfl

theorem getRow_next (st : Store) : getRow st.records st.records.next = none := by
  rcases hg : getRow st.records st.records.next with _ | x
  · rfl
  · obtain ⟨hx, hid⟩ := getRow_eq_some.mp hg
    exact absurd (key_lt_next hx) (by rw [hid]; omega)

/-- **The writes of one record of the update section** are those of `Writes`. -/
theorem journal_step (tsigKey : UpdateSecret) (zone : Zone) (zoneName : DnsLabel) (st : Store)
    (rr : Rr) : ∃ ws, (step h tsigKey zone zoneName st rr).2.journal = st.journal ++ ws ∧
      ∀ w, w ∈ ws ↔ Writes h st tsigKey zone zoneName rr w := by
  have hdel : ∀ recordName, ∃ ws,
      ((deletions h st tsigKey zone recordName rr).1.foldl deleteStore st).journal =
        st.journal ++ ws ∧ ∀ w, w ∈ ws ↔
          ∃ r ∈ (deletions h st tsigKey zone recordName rr).1, w = .delete r := fun recordName =>
    journal_foldl_deleteStore fun r hr => mem_of_candidates (deletes_of_mem hr).candidate
  unfold step Writes
  rcases rr.rclass with _ | _ | _ | c
  · dsimp only
    rcases ha : addition h st tsigKey zone (rr.rname.stripSuffix zoneName) rr with stop | _ |
      ⟨old, new⟩ | new
    · exact ⟨[], by simp [added], by simp⟩
    · exact ⟨[], by simp [added, Addition.row], by simp⟩
    · obtain ⟨m, columns, made, records, hl⟩ := addition_eq_change ha
      obtain ⟨hold, -⟩ := foundRows_model hl.mem
      obtain ⟨name, data, -, -, hnew⟩ := updateFromRr_eq_ok.mp (matching_eq_some hl.matched).2.2
      have hg : getRow st.records new.id = some old := by
        rw [hnew]; exact getRow_eq_some.mpr ⟨hold, rfl⟩
      change ∃ ws, (saveStore h st new).journal = _ ∧ _
      rcases hs : saved h new with e | row
      · exact ⟨[], by simp [saveStore, hs, enqueued], by simp [hs]⟩
      · exact ⟨[.change old row], by rw [journal_saveStore hs, hg], by simp [hs]⟩
    · obtain ⟨m, columns, records, hl⟩ := addition_eq_create ha
      obtain ⟨name, data, -, -, hnew⟩ := fromRr_eq_ok.mp hl.made
      have hg : getRow st.records new.id = none := by rw [hnew]; exact getRow_next st
      change ∃ ws, (saveStore h st new).journal = _ ∧ _
      rcases hs : saved h new with e | row
      · exact ⟨[], by simp [saveStore, hs, enqueued], by simp [hs]⟩
      · exact ⟨[.create row], by rw [journal_saveStore hs, hg], by simp [hs]⟩
  · exact hdel _
  · exact hdel _
  · exact ⟨[], by simp, by simp⟩

/-! ### The update section -/

theorem prescanRr_of_prescan {zoneName : DnsLabel} {upset : List Rr}
    (hpre : prescan zoneName upset = none) {rr : Rr} (hrr : rr ∈ upset) :
    prescanRr zoneName rr = none :=
  List.findSome?_eq_none_iff.mp hpre rr hrr

theorem run_updateLoop_cons {tsigKey : UpdateSecret} {zone : Zone} {zoneName : DnsLabel} {rr : Rr}
    {upset : List Rr} (hpre : prescan zoneName (rr :: upset) = none) (st : Store) :
    run (updateLoop h tsigKey zone zoneName (rr :: upset)) st =
      match step h tsigKey zone zoneName st rr with
      | (.ok (), st) => run (updateLoop h tsigKey zone zoneName upset) st
      | (.error stop, st) => (.error stop, st) := by
  change run (updateRr h tsigKey zone zoneName rr >>= fun _ => _) st = _
  rw [run_bind, run_updateRr h (prescanRr_of_prescan hpre List.mem_cons_self)]
  rcases step h tsigKey zone zoneName st rr with ⟨stop | ⟨⟩, st'⟩ <;> rfl

/-- A record of the update section that the loop comes to, in the database it finds. -/
def Reached (h : Host) (tsigKey : UpdateSecret) (zone : Zone) (zoneName : DnsLabel) (upset : List Rr)
    (st : Store) (rr : Rr) (st' : Store) : Prop :=
  ∃ pre post, upset = pre ++ rr :: post ∧
    run (updateLoop h tsigKey zone zoneName pre) st = (.ok (), st')

theorem reached_cons {tsigKey : UpdateSecret} {zone : Zone} {zoneName : DnsLabel} {rr : Rr}
    {upset : List Rr} (hpre : prescan zoneName (rr :: upset) = none) {st st' : Store} {rr' : Rr} :
    Reached h tsigKey zone zoneName (rr :: upset) st rr' st' ↔ (rr' = rr ∧ st' = st) ∨
      ∃ st₁, step h tsigKey zone zoneName st rr = (.ok (), st₁) ∧
        Reached h tsigKey zone zoneName upset st₁ rr' st' := by
  constructor
  · rintro ⟨pre, post, heq, hrun⟩
    rcases pre with _ | ⟨r, pre⟩
    · obtain ⟨rfl, -⟩ := List.cons.inj heq
      cases hrun
      exact Or.inl ⟨rfl, rfl⟩
    · obtain ⟨rfl, hup⟩ := List.cons.inj heq
      have hpre' : prescan zoneName (rr :: pre) = none := by
        refine List.findSome?_eq_none_iff.mpr fun x hx => prescanRr_of_prescan hpre ?_
        rw [hup]
        rcases List.mem_cons.mp hx with rfl | hx
        · exact List.mem_cons_self
        · exact List.mem_cons_of_mem _ (List.mem_append_left _ hx)
      rw [run_updateLoop_cons hpre'] at hrun
      rcases hst : step h tsigKey zone zoneName st rr with ⟨stop | ⟨⟩, st₁⟩
      · rw [hst] at hrun; cases hrun
      · rw [hst] at hrun
        exact Or.inr ⟨st₁, rfl, pre, post, hup, hrun⟩
  · rintro (⟨rfl, rfl⟩ | ⟨st₁, hst, pre, post, rfl, hrun⟩)
    · exact ⟨[], upset, rfl, rfl⟩
    · refine ⟨rr :: pre, post, rfl, ?_⟩
      have hpre' : prescan zoneName (rr :: pre) = none := by
        refine List.findSome?_eq_none_iff.mpr fun x hx => prescanRr_of_prescan hpre ?_
        rcases List.mem_cons.mp hx with rfl | hx
        · exact List.mem_cons_self
        · exact List.mem_cons_of_mem _ (List.mem_append_left _ hx)
      rw [run_updateLoop_cons hpre', hst]; exact hrun

/-- An update section that stops, stops at a record that the loop comes to. -/
theorem run_updateLoop_error {tsigKey : UpdateSecret} {zone : Zone} {zoneName : DnsLabel}
    {upset : List Rr} (hpre : prescan zoneName upset = none) {st st' : Store} {stop : Stop} :
    run (updateLoop h tsigKey zone zoneName upset) st = (.error stop, st') ↔
      ∃ rr st₁, Reached h tsigKey zone zoneName upset st rr st₁ ∧
        step h tsigKey zone zoneName st₁ rr = (.error stop, st') := by
  refine run_runAll_error.trans ⟨?_, ?_⟩
  · rintro ⟨pre, rr, post, st₁, rfl, hrun, hstep⟩
    rw [run_updateRr h (prescanRr_of_prescan hpre (by simp))] at hstep
    exact ⟨rr, st₁, ⟨pre, post, rfl, hrun⟩, hstep⟩
  · rintro ⟨rr, st₁, ⟨pre, post, rfl, hrun⟩, hstep⟩
    refine ⟨pre, rr, post, st₁, rfl, hrun, ?_⟩
    rw [run_updateRr h (prescanRr_of_prescan hpre (by simp))]
    exact hstep

/-- **The writes of an update section** are those of the records that the loop comes to. -/
theorem journal_updateLoop (tsigKey : UpdateSecret) (zone : Zone) {zoneName : DnsLabel}
    {upset : List Rr} (hpre : prescan zoneName upset = none) (st : Store) :
    ∃ ws, (run (updateLoop h tsigKey zone zoneName upset) st).2.journal = st.journal ++ ws ∧
      ∀ w, w ∈ ws ↔ ∃ rr st', Reached h tsigKey zone zoneName upset st rr st' ∧
        Writes h st' tsigKey zone zoneName rr w := by
  induction upset generalizing st with
  | nil =>
    refine ⟨[], by simp [updateLoop, runAll], fun w => iff_of_false (by simp) ?_⟩
    rintro ⟨rr, st', ⟨pre, post, heq, -⟩, -⟩
    simp at heq
  | cons rr upset ih =>
    rw [run_updateLoop_cons hpre]
    have hpre' : prescan zoneName upset = none := List.findSome?_eq_none_iff.mpr fun x hx =>
      prescanRr_of_prescan hpre (List.mem_cons_of_mem _ hx)
    obtain ⟨ws, hws, hmem⟩ := journal_step (h := h) tsigKey zone zoneName st rr
    simp only [reached_cons hpre]
    rcases hst : step h tsigKey zone zoneName st rr with ⟨stop | ⟨⟩, st₁⟩
    · rw [hst] at hws
      refine ⟨ws, hws, fun w => (hmem w).trans ⟨fun hw => ⟨rr, st, Or.inl ⟨rfl, rfl⟩, hw⟩, ?_⟩⟩
      rintro ⟨rr', st', ⟨rfl, rfl⟩ | ⟨st₂, hst', -⟩, hw⟩
      · exact hw
      · cases hst'
    · rw [hst] at hws
      obtain ⟨ws', hws', hmem'⟩ := ih hpre' st₁
      refine ⟨ws ++ ws', by rw [hws', hws, List.append_assoc], fun w => ?_⟩
      rw [List.mem_append, hmem, hmem']
      constructor
      · rintro (hw | ⟨rr', st', hr, hw⟩)
        · exact ⟨rr, st, Or.inl ⟨rfl, rfl⟩, hw⟩
        · exact ⟨rr', st', Or.inr ⟨st₁, rfl, hr⟩, hw⟩
      · rintro ⟨rr', st', ⟨rfl, rfl⟩ | ⟨st₂, hst', hr⟩, hw⟩
        · exact Or.inl hw
        · cases hst'
          exact Or.inr ⟨rr', st', hr, hw⟩

/-! ### The request -/

/-- What is known of an admitted request. -/
theorem admission_eq_ok {now : ℕ} {st : Store} {dnsReq : DnsRecord} {adm : Admitted}
    (ha : admission h now st dnsReq = .ok adm) :
    Tsig.authenticate h now st dnsReq = .ok (adm.inc, adm.zoneName) ∧
      targetZone h st adm.inc adm.zoneName = .ok adm.zone ∧
        prescan adm.zoneName dnsReq.auth = none := by
  unfold admission at ha
  rcases hau : Tsig.authenticate h now st dnsReq with r | ⟨inc, zoneName⟩
  · rw [hau] at ha; cases ha
  rw [hau] at ha
  dsimp only at ha
  rcases ht : targetZone h st inc zoneName with stop | zone
  · rw [ht] at ha; cases ha
  rw [ht] at ha
  dsimp only at ha
  rcases hp : run (prerequisites h st zone zoneName dnsReq.rr) [] with ⟨stop | ⟨⟩, answers⟩
  · rw [hp] at ha; cases ha
  rw [hp] at ha
  dsimp only at ha
  rcases hs : prescan zoneName dnsReq.auth with _ | rcode
  · rw [hs] at ha; cases ha
    exact ⟨rfl, ht, hs⟩
  · rw [hs] at ha; cases ha

theorem zoneNamedIn_eq_some {zoneName : DnsLabel} {zones : List Zone} {zone : Zone}
    (hz : zoneNamedIn h zoneName zones = .ok (some zone)) :
    zone ∈ zones ∧ ∃ root, DnsLabel.ofText h.py zone.zoneRoot = .ok root ∧ zoneName.Eqv root := by
  induction zones with
  | nil => cases hz
  | cons z zones ih =>
    obtain ⟨root, hroot, hz⟩ := bind_eq_ok.mp hz
    obtain ⟨later, hlater, hz⟩ := bind_eq_ok.mp hz
    rcases later with _ | z'
    · by_cases heq : zoneName.Eqv root
      · simp only [Option.isSome_none, Bool.false_eq_true, if_false, if_pos heq] at hz
        cases hz
        exact ⟨List.mem_cons_self, root, hroot, heq⟩
      · simp only [Option.isSome_none, Bool.false_eq_true, if_false, if_neg heq] at hz
        cases hz
    · cases hz
      obtain ⟨hmem, hrest⟩ := ih hlater
      exact ⟨List.mem_cons_of_mem _ hmem, hrest⟩

/-- The zone of an admitted request is that of its key, and its root is the name in the request. -/
theorem targetZone_eq_ok {st : Store} {inc : Tsig.Incoming} {zoneName : DnsLabel} {zone : Zone}
    (hz : targetZone h st inc zoneName = .ok zone) :
    zone ∈ st.zones ∧ inc.tsigKey.zone = zone.id ∧
      ∃ root, DnsLabel.ofText h.py zone.zoneRoot = .ok root ∧ zoneName.Eqv root := by
  unfold targetZone at hz
  rcases hn : zoneNamed h st zoneName with e | _ | z
  · rw [hn] at hz; cases hz
  · rw [hn] at hz; cases hz
  rw [hn] at hz
  dsimp only at hz
  split_ifs at hz with hid
  cases hz
  obtain ⟨hmem, hroot⟩ := zoneNamedIn_eq_some hn
  exact ⟨mem_zonesByLength.mp hmem, hid, hroot⟩

/-- The stored name of a resource record of the zone: `@` for the zone itself, else the texts of the
labels in lower case. -/
theorem dnsLabelToRecordName_eq_ok {zone : Zone} {zoneName root rname : DnsLabel} {name : Text}
    (hroot : DnsLabel.ofText h.py zone.zoneRoot = .ok root) (heq : zoneName.Eqv root)
    (hsuf : rname.matchSuffix zoneName = true) (hn : dnsLabelToRecordName h rname zone = .ok name) :
    (rname.stripSuffix zoneName).label = [] ∧ name = ['@'] ∨
      (rname.stripSuffix zoneName).label ≠ [] ∧ ∃ ts, (rname.stripSuffix zoneName).texts = .ok ts ∧
        name = ['.'].intercalate (ts.map h.py.lower) := by
  have hnil : (rname.stripSuffix zoneName).label = [] ↔ root.Eqv rname :=
    (label_stripSuffix_eq_nil hsuf).trans ⟨fun h' => heq.symm.trans h', fun h' => heq.trans h'⟩
  unfold dnsLabelToRecordName at hn
  obtain ⟨root', hroot', hn⟩ := bind_eq_ok.mp hn
  rw [hroot] at hroot'
  obtain rfl := Except.ok.inj hroot'
  by_cases hr : root.Eqv rname
  · rw [if_pos hr] at hn
    exact Or.inl ⟨hnil.mpr hr, (Except.ok.inj hn).symm⟩
  · rw [if_neg hr] at hn
    obtain ⟨ts, hts, hn⟩ := bind_eq_ok.mp hn
    refine Or.inr ⟨fun h' => hr (hnil.mp h'), ts, ?_, (Except.ok.inj hn).symm⟩
    rw [stripSuffix_congr heq]; exact hts

/-- The database after a request. -/
theorem store_updateQuery (now : ℕ) (msg : Bytes) (st : Store) :
    (updateQuery h now msg st).2 = match h.parse msg with
      | .error _ => st
      | .ok dnsReq => match admission h now st dnsReq with
        | .error _ => st
        | .ok adm =>
          (run (updateLoop h adm.inc.tsigKey adm.zone adm.zoneName dnsReq.auth) st).2 := by
  have hh : ∀ dnsReq, (handleUpdateQuery h now dnsReq st).2 = match admission h now st dnsReq with
      | .error _ => st
      | .ok adm =>
        (run (updateLoop h adm.inc.tsigKey adm.zone adm.zoneName dnsReq.auth) st).2 := by
    intro dnsReq
    unfold handleUpdateQuery
    rcases admission h now st dnsReq with r | adm
    · rfl
    dsimp only
    rcases run (updateLoop h adm.inc.tsigKey adm.zone adm.zoneName dnsReq.auth) st with
      ⟨stop | ⟨⟩, st'⟩ <;> rfl
  unfold updateQuery
  rcases h.parse msg with e | dnsReq
  · dsimp only
    split
    · rfl
    · rfl
    · rename_i heq; cases heq
  dsimp only
  rw [← hh]
  rcases handleUpdateQuery h now dnsReq st with ⟨e | res, st'⟩ <;> rfl

end

end HexDns.Grpc.Steps
