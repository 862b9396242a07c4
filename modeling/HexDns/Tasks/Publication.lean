import HexDns.Lib.Runs
import HexDns.Tasks.Frame

/-! # Publication

`TXTRecord.save` and `TXTRecord.delete` put a task for the zone into the queue and then write the row;
a worker of `update_fzone` takes a task, reads the rows and generates the file, and stores it. Any
number of operations and workers go on one access at a time in any order.

The file can stay behind the rows: the task may be done before the row is written, and a worker that
has read early may store late. `kept_of_along` says that neither happens in a run in which a row of the
zone is only written while a task for it is still to be read, and what a worker stores was read after
the last write unless another file is on its way. -/

namespace HexDns.Tasks.Publication

open HexDns.Lib.Texts HexDns.Lib.Tables HexDns.Lib.Programs HexDns.Lib.Runs HexDns.Base.Py
  HexDns.Base.Label HexDns.Models.Db HexDns.Models.Env HexDns.Models.Convert HexDns.Tasks.ZoneFile
  HexDns.Tasks.Frame

/-! ### Operations and workers -/

/-- `TXTRecord` -/
structure TxtRecord where
  id : ℕ
  zone : ℕ
  recordName : Text
  ttl : ℕ
  data : Text
  deriving DecidableEq, Repr

def TxtRecord.row (r : TxtRecord) : Row := ⟨r.id, r.zone, r.recordName, r.ttl, .txt r.data⟩

inductive Operation
  | save (self : TxtRecord)
  | delete (self : TxtRecord)
  deriving DecidableEq, Repr

def Operation.self : Operation → TxtRecord
  | .save self => self
  | .delete self => self

/-- How far an operation has got. -/
inductive Progress
  | idle
  /-- the task is in the queue, the row not written -/
  | enqueued
  | done
  deriving DecidableEq, Repr

/-- A worker of `update_fzone`. -/
inductive Worker
  /-- it has taken the task of a zone -/
  | taken (zone : ℕ)
  /-- it is about to store a text under a name; the text was read after so many writes -/
  | generated (zone : ℕ) (name text : Text) (writes : ℕ)
  deriving DecidableEq, Repr

structure State where
  db : Store
  operations : List (Operation × Progress)
  /-- the workers with a task -/
  workers : List Worker
  /-- the zone files by their names -/
  files : Text → Option Text

section
variable (h : Host)

/-- `super().save()` or `super().delete()`; a row that the database refuses is not written. -/
def Operation.write (op : Operation) (db : Store) : Store :=
  match op with
  | .save self => (run (writeRow h { self.row with recordName := h.py.lower self.recordName }) db).2
  | .delete self => Store.drop db self.row

/-- `update_fzone` up to `write_zone_file`: the name and the text of the file, if there is one. -/
def generate (db : Store) (time z : ℕ) : Except PyErr (Option (Text × Text)) :=
  match getRow db.zones z with
  | none => .ok none
  | some zone =>
    if rootPattern zone.zoneRoot then do
      let zoneRoot ← DnsLabel.ofText h.py zone.zoneRoot
      let zoneFile ← generateFzone h db time zone
      return some (zoneRoot.toText, zoneFile)
    else .ok none

/-- Who goes on. -/
inductive Choice
  | operation (i : ℕ)
  /-- a worker takes a task of the queue -/
  | take (i : ℕ)
  /-- a worker goes on at a time -/
  | worker (i time : ℕ)
  deriving DecidableEq, Repr

/-- One access; a task that raises is put into the queue again. -/
def step (s : State) : Choice → Option State
  | .operation i =>
    match s.operations[i]? with
    | some (op, .idle) => some { s with
        db := { s.db with queue := s.db.queue ++ [op.self.zone] }
        operations := s.operations.set i (op, .enqueued) }
    | some (op, .enqueued) => some { s with
        db := op.write h s.db
        operations := s.operations.set i (op, .done) }
    | _ => none
  | .take i =>
    (s.db.queue[i]?).map fun z => { s with
      db := { s.db with queue := s.db.queue.eraseIdx i }
      workers := s.workers ++ [.taken z] }
  | .worker i time =>
    match s.workers[i]? with
    | some (.taken z) =>
      match generate h s.db time z with
      | .ok none => some { s with workers := s.workers.eraseIdx i }
      | .ok (some (name, text)) => some { s with
          workers := s.workers.eraseIdx i ++ [.generated z name text s.db.journal.length] }
      | .error _ => some { s with
          db := { s.db with queue := s.db.queue ++ [z] }
          workers := s.workers.eraseIdx i }
    | some (.generated _ name text _) => some { s with
        workers := s.workers.eraseIdx i
        files := fun n => if n = name then some text else s.files n }
    | none => none

/-! ### What is to be kept -/

/-- The queue is empty, and no operation or worker is in progress. -/
def Quiet (s : State) : Prop :=
  s.db.queue = [] ∧ (∀ x ∈ s.operations, x.2 ≠ .enqueued) ∧ s.workers = []

/-- The file of a zone is what `generate_fzone` gives at some time. -/
def Current (zone : Zone) (s : State) : Prop :=
  ∃ zoneRoot time text, DnsLabel.ofText h.py zone.zoneRoot = .ok zoneRoot ∧
    s.files zoneRoot.toText = some text ∧ generateFzone h s.db time zone = .ok text

/-- **No publication is lost**: in a quiet state the file is that of the rows. -/
def Kept (zone : Zone) (s : State) : Prop := Quiet s → Current h zone s

/-- A task for the zone is still to be read. -/
def Pending (z : ℕ) (s : State) : Prop := z ∈ s.db.queue ∨ .taken z ∈ s.workers

/-- No row of the zone was written after so many writes. -/
def Unwritten (z writes : ℕ) (db : Store) : Prop :=
  ∀ w ∈ db.journal.drop writes, ∀ r ∈ w.rows, r.zone ≠ z

/-- The worker holds a text of the zone that was read after the last write. -/
def Fresh (z : ℕ) (db : Store) : Worker → Prop
  | .generated z' _ _ writes => z' = z ∧ Unwritten z writes db
  | .taken _ => False

/-- **The condition on a step**: a row of the zone is written while a task for it is still to be read,
and a text that was read before the last write is stored while such a task is there or another worker
holds a later text. -/
def Ok (zone : Zone) (s : State) : Choice → Prop
  | .operation i => ∀ op, s.operations[i]? = some (op, .enqueued) →
      Unwritten zone.id s.db.journal.length (op.write h s.db) ∨ Pending zone.id s
  | .take _ => True
  | .worker i _ => ∀ z name text writes, s.workers[i]? = some (.generated z name text writes) →
      (∃ zoneRoot, DnsLabel.ofText h.py zone.zoneRoot = .ok zoneRoot ∧ name = zoneRoot.toText) →
      Fresh zone.id s.db (.generated z name text writes) ∨ Pending zone.id s ∨
        ∃ w ∈ s.workers.eraseIdx i, Fresh zone.id s.db w

end

/-! ### What a write does -/

section
variable {h : Host} {z : ℕ}

/-- A write adds to the journal; if no row of a zone is in what it adds, the rows of the zone are the
same. -/
theorem write_spec (op : Operation) (db : Store) : ∃ ws,
    (op.write h db).journal = db.journal ++ ws ∧ (op.write h db).queue = db.queue ∧
      (op.write h db).zones = db.zones ∧
      ((∀ w ∈ ws, ∀ r ∈ w.rows, r.zone ≠ z) → SameZone z db (op.write h db)) := by
  rcases op with self | self
  · let row : Row := { self.row with recordName := h.py.lower self.recordName }
    by_cases hacc : h.accepts row = true
    · have hw : (Operation.save self).write h db = Store.put db row := by
        show (run (writeRow h row) db).2 = _
        rw [writeRow, if_pos hacc]
        rfl
      rw [hw]
      refine ⟨_, rfl, rfl, rfl, fun hws => sameZone_put ?_ ?_⟩
      · rcases hold : getRow db.records row.id with _ | old
        · exact hws (.create row) (by simp [hold]) row (by simp [Write.rows])
        · exact hws (.change old row) (by simp [hold]) row (by simp [Write.rows])
      · intro old hold
        exact hws (.change old row) (by simp [hold]) old (by simp [Write.rows])
    · have hw : (Operation.save self).write h db = db := by
        show (run (writeRow h row) db).2 = _
        rw [writeRow, if_neg hacc]
        rfl
      rw [hw]
      exact ⟨[], (List.append_nil _).symm, rfl, rfl, fun _ => SameZone.refl z db⟩
  · refine ⟨_, rfl, rfl, rfl, fun hws => sameZone_drop fun old hold => ?_⟩
    exact hws (.delete old) (by simp [hold]) old (by simp [Write.rows])

theorem unwritten_length (z : ℕ) (db : Store) : Unwritten z db.journal.length db := by
  intro w hw
  simp at hw

theorem Unwritten.of_append {db db' : Store} {ws : List Write} {writes : ℕ}
    (hj : db'.journal = db.journal ++ ws) (hle : writes ≤ db.journal.length)
    (hu : Unwritten z writes db') : Unwritten z writes db ∧ ∀ w ∈ ws, ∀ r ∈ w.rows, r.zone ≠ z := by
  have hdrop : db'.journal.drop writes = db.journal.drop writes ++ ws := by
    rw [hj, List.drop_append_of_le_length hle]
  unfold Unwritten at hu
  rw [hdrop] at hu
  exact ⟨fun w hw => hu w (List.mem_append_left ws hw), fun w hw => hu w (List.mem_append_right _ hw)⟩

theorem Unwritten.append {db db' : Store} {ws : List Write} {writes : ℕ}
    (hj : db'.journal = db.journal ++ ws) (hle : writes ≤ db.journal.length)
    (hu : Unwritten z writes db) (hws : ∀ w ∈ ws, ∀ r ∈ w.rows, r.zone ≠ z) :
    Unwritten z writes db' := by
  unfold Unwritten
  rw [hj, List.drop_append_of_le_length hle]
  intro w hw
  rcases List.mem_append.mp hw with hw | hw
  · exact hu w hw
  · exact hws w hw

end

/-! ### The invariant -/

section
variable {h : Host} {zone : Zone} {s s' : State}

/-- What a worker holds for the zone goes to its file, and is what the rows give if none was written
since. -/
def Held (h : Host) (zone : Zone) (db : Store) : Worker → Prop
  | .generated z name text writes => z = zone.id → writes ≤ db.journal.length ∧
      (∃ zoneRoot, DnsLabel.ofText h.py zone.zoneRoot = .ok zoneRoot ∧ name = zoneRoot.toText) ∧
      (Unwritten zone.id writes db → ∃ time, generateFzone h db time zone = .ok text)
  | .taken _ => True

/-- A task is still to be read, or a text read after the last write is still to be stored, or the file
is that of the rows. -/
structure Inv (h : Host) (zone : Zone) (s : State) : Prop where
  zone_mem : getRow s.db.zones zone.id = some zone
  held : ∀ w ∈ s.workers, Held h zone s.db w
  due : Pending zone.id s ∨ (∃ w ∈ s.workers, Fresh zone.id s.db w) ∨ Current h zone s

/-- In a quiet state nothing is still to come. -/
theorem Inv.kept (hi : Inv h zone s) : Kept h zone s := by
  rintro ⟨hqueue, -, hworkers⟩
  rcases hi.due with hp | ⟨w, hw, -⟩ | hc
  · rcases hp with hp | hp
    · rw [hqueue] at hp
      cases hp
    · rw [hworkers] at hp
      cases hp
  · rw [hworkers] at hw
    cases hw
  · exact hc

theorem Inv.enqueue (hi : Inv h zone s) (z : ℕ) (ops : List (Operation × Progress)) :
    Inv h zone { s with db := { s.db with queue := s.db.queue ++ [z] }, operations := ops } := by
  refine ⟨hi.zone_mem, hi.held, ?_⟩
  rcases hi.due with hp | hdue
  · left
    rcases hp with hp | hp
    · exact Or.inl (List.mem_append_left [z] hp)
    · exact Or.inr hp
  · exact Or.inr hdue

/-- The row is written. -/
theorem Inv.write (hi : Inv h zone s) (op : Operation) (ops : List (Operation × Progress))
    (hok : Unwritten zone.id s.db.journal.length (op.write h s.db) ∨ Pending zone.id s) :
    Inv h zone { s with db := op.write h s.db, operations := ops } := by
  obtain ⟨ws, hj, hqueue, hzones, hsame⟩ := write_spec (h := h) (z := zone.id) op s.db
  refine ⟨by rw [hzones]; exact hi.zone_mem, ?_, ?_⟩
  · intro w hw
    have hheld := hi.held w hw
    rcases w with z | ⟨z, name, text, writes⟩
    · trivial
    intro hz
    obtain ⟨hle, hname, hgen⟩ := hheld hz
    refine ⟨by rw [hj, List.length_append]; omega, hname, fun hu => ?_⟩
    obtain ⟨hu, hws⟩ := hu.of_append hj hle
    obtain ⟨time, hgen⟩ := hgen hu
    exact ⟨time, by rw [← generateFzone_congr (hsame hws)]; exact hgen⟩
  · by_cases hp : Pending zone.id s
    · left
      rcases hp with hp | hp
      · exact Or.inl (by rw [hqueue]; exact hp)
      · exact Or.inr hp
    have hu := hok.resolve_right hp
    have hws := (hu.of_append hj le_rfl).2
    rcases hi.due.resolve_left hp with ⟨w, hw, hfresh⟩ | ⟨zoneRoot, time, text, hroot, hfile, hgen⟩
    · right; left
      refine ⟨w, hw, ?_⟩
      rcases w with z | ⟨z, name, text, writes⟩
      · exact hfresh
      · exact ⟨hfresh.1, hfresh.2.append hj (hi.held _ hw hfresh.1).1 hws⟩
    · right; right
      exact ⟨zoneRoot, time, text, hroot, hfile, by rw [← generateFzone_congr (hsame hws)]; exact hgen⟩

/-- A task is taken. -/
theorem Inv.take (hi : Inv h zone s) {i z : ℕ} (hz : s.db.queue[i]? = some z) :
    Inv h zone { s with
      db := { s.db with queue := s.db.queue.eraseIdx i }
      workers := s.workers ++ [.taken z] } := by
  refine ⟨hi.zone_mem, ?_, ?_⟩
  · intro w hw
    rcases List.mem_append.mp hw with hw | hw
    · exact hi.held w hw
    · rw [List.mem_singleton.mp hw]
      trivial
  · rcases hi.due with hp | ⟨w, hw, hfresh⟩ | hc
    · left
      rcases hp with hp | hp
      · obtain ⟨k, hkz⟩ := List.mem_iff_getElem?.mp hp
        by_cases hki : k = i
        · have hzz : z = zone.id := by
            rw [hki, hz] at hkz
            exact Option.some.inj hkz
          exact Or.inr (List.mem_append_right _ (by rw [hzz]; exact List.mem_singleton_self _))
        · exact Or.inl (List.mem_eraseIdx_iff_getElem?.mpr ⟨k, hki, hkz⟩)
      · exact Or.inr (List.mem_append_left _ hp)
    · exact Or.inr (Or.inl ⟨w, List.mem_append_left _ hw, hfresh⟩)
    · exact Or.inr (Or.inr hc)

theorem mem_eraseIdx_of_ne {α : Type} {l : List α} {a : α} (ha : a ∈ l) {i : ℕ} (hne : l[i]? ≠ some a) :
    a ∈ l.eraseIdx i := by
  obtain ⟨k, hk⟩ := List.mem_iff_getElem?.mp ha
  refine List.mem_eraseIdx_iff_getElem?.mpr ⟨k, ?_, hk⟩
  rintro rfl
  exact hne hk

/-- What `update_fzone` comes to for a zone whose root is published. -/
theorem generate_zone {db : Store} (hz : getRow db.zones zone.id = some zone)
    (hpub : rootPattern zone.zoneRoot = true) (time : ℕ) :
    (∃ e, generate h db time zone.id = .error e) ∨ ∃ zoneRoot text,
      generate h db time zone.id = .ok (some (zoneRoot.toText, text)) ∧
      DnsLabel.ofText h.py zone.zoneRoot = .ok zoneRoot ∧ generateFzone h db time zone = .ok text := by
  unfold generate
  simp only [hz, hpub, if_true]
  rcases hroot : DnsLabel.ofText h.py zone.zoneRoot with e | zoneRoot
  · exact Or.inl ⟨e, rfl⟩
  rcases htext : generateFzone h db time zone with e | text
  · exact Or.inl ⟨e, rfl⟩
  · exact Or.inr ⟨zoneRoot, text, rfl, rfl, rfl⟩

/-- The task of another zone leaves what is due as it is. -/
theorem Inv.due_of_other (hi : Inv h zone s) {i z : ℕ} (hw : s.workers[i]? = some (.taken z))
    (hz : z ≠ zone.id) :
    (zone.id ∈ s.db.queue ∨ .taken zone.id ∈ s.workers.eraseIdx i) ∨
      (∃ w ∈ s.workers.eraseIdx i, Fresh zone.id s.db w) ∨ Current h zone s := by
  rcases hi.due with hp | ⟨w, hmem, hfresh⟩ | hc
  · rcases hp with hp | hp
    · exact Or.inl (Or.inl hp)
    · refine Or.inl (Or.inr (mem_eraseIdx_of_ne hp ?_))
      rw [hw]
      simpa using hz
  · refine Or.inr (Or.inl ⟨w, mem_eraseIdx_of_ne hmem ?_, hfresh⟩)
    rw [hw]
    rintro hweq
    rw [← Option.some.inj hweq] at hfresh
    exact hfresh
  · exact Or.inr (Or.inr hc)

/-- A worker that has taken a task goes on. -/
theorem Inv.read (hi : Inv h zone s) (hpub : rootPattern zone.zoneRoot = true) {i time z : ℕ}
    (hw : s.workers[i]? = some (.taken z)) (hs : step h s (.worker i time) = some s') :
    Inv h zone s' := by
  have hheld : ∀ w ∈ s.workers.eraseIdx i, Held h zone s.db w := fun w hmem =>
    hi.held w (List.mem_of_mem_eraseIdx hmem)
  by_cases hz : z = zone.id
  · rcases generate_zone (h := h) hi.zone_mem hpub time with ⟨e, hgen⟩ | ⟨zoneRoot, text, hgen, hroot, htext⟩
    · simp only [step, hw, hz, hgen] at hs
      obtain rfl := Option.some.inj hs
      exact ⟨hi.zone_mem, hheld, Or.inl (Or.inl (by simp))⟩
    · simp only [step, hw, hz, hgen] at hs
      obtain rfl := Option.some.inj hs
      have hunwritten := unwritten_length zone.id s.db
      refine ⟨hi.zone_mem, fun w hmem => ?_, Or.inr (Or.inl ⟨_, List.mem_append_right _
        (List.mem_singleton_self _), rfl, hunwritten⟩)⟩
      rcases List.mem_append.mp hmem with hmem | hmem
      · exact hheld w hmem
      · rw [List.mem_singleton.mp hmem]
        exact fun _ => ⟨le_rfl, ⟨zoneRoot, hroot, rfl⟩, fun _ => ⟨time, htext⟩⟩
  · have hdue := hi.due_of_other hw hz
    rcases hgen : generate h s.db time z with e | _ | ⟨name, text⟩
    · simp only [step, hw, hgen] at hs
      obtain rfl := Option.some.inj hs
      refine ⟨hi.zone_mem, hheld, ?_⟩
      rcases hdue with (hp | hp) | hdue
      · exact Or.inl (Or.inl (List.mem_append_left _ hp))
      · exact Or.inl (Or.inr hp)
      · exact Or.inr hdue
    · simp only [step, hw, hgen] at hs
      obtain rfl := Option.some.inj hs
      exact ⟨hi.zone_mem, hheld, hdue⟩
    · simp only [step, hw, hgen] at hs
      obtain rfl := Option.some.inj hs
      refine ⟨hi.zone_mem, fun w hmem => ?_, ?_⟩
      · rcases List.mem_append.mp hmem with hmem | hmem
        · exact hheld w hmem
        · rw [List.mem_singleton.mp hmem]
          exact fun heq => absurd heq hz
      · rcases hdue with (hp | hp) | ⟨w, hmem, hfresh⟩ | hc
        · exact Or.inl (Or.inl hp)
        · exact Or.inl (Or.inr (List.mem_append_left _ hp))
        · exact Or.inr (Or.inl ⟨w, List.mem_append_left _ hmem, hfresh⟩)
        · exact Or.inr (Or.inr hc)

/-- A worker stores its text. -/
theorem Inv.store (hi : Inv h zone s) {i z writes : ℕ} {name text : Text}
    (hw : s.workers[i]? = some (.generated z name text writes))
    (hok : (∃ zoneRoot, DnsLabel.ofText h.py zone.zoneRoot = .ok zoneRoot ∧ name = zoneRoot.toText) →
      Fresh zone.id s.db (.generated z name text writes) ∨ Pending zone.id s ∨
        ∃ w ∈ s.workers.eraseIdx i, Fresh zone.id s.db w) :
    Inv h zone { s with
      workers := s.workers.eraseIdx i
      files := fun n => if n = name then some text else s.files n } := by
  have hself := hi.held _ (List.mem_of_getElem? hw)
  refine ⟨hi.zone_mem, fun w hmem => hi.held w (List.mem_of_mem_eraseIdx hmem), ?_⟩
  have hpending : Pending zone.id s → zone.id ∈ s.db.queue ∨ .taken zone.id ∈ s.workers.eraseIdx i := by
    rintro (hp | hp)
    · exact Or.inl hp
    · refine Or.inr (mem_eraseIdx_of_ne hp ?_)
      rw [hw]
      simp
  by_cases hname : ∃ zoneRoot, DnsLabel.ofText h.py zone.zoneRoot = .ok zoneRoot ∧ name = zoneRoot.toText
  · obtain ⟨zoneRoot, hroot, rfl⟩ := hname
    rcases hok ⟨zoneRoot, hroot, rfl⟩ with hfresh | hp | hother
    · obtain ⟨-, -, hgen⟩ := hself hfresh.1
      obtain ⟨time, hgen⟩ := hgen hfresh.2
      exact Or.inr (Or.inr ⟨zoneRoot, time, text, hroot, if_pos rfl, hgen⟩)
    · exact Or.inl (hpending hp)
    · exact Or.inr (Or.inl hother)
  · rcases hi.due with hp | ⟨w, hmem, hfresh⟩ | ⟨zoneRoot, time, old, hroot, hfile, hgen⟩
    · exact Or.inl (hpending hp)
    · refine Or.inr (Or.inl ⟨w, mem_eraseIdx_of_ne hmem ?_, hfresh⟩)
      rw [hw]
      intro hweq
      rw [← Option.some.inj hweq] at hfresh
      exact hname (hself hfresh.1).2.1
    · refine Or.inr (Or.inr ⟨zoneRoot, time, old, hroot, ?_, hgen⟩)
      have hne : zoneRoot.toText ≠ name := fun heq => hname ⟨zoneRoot, hroot, heq.symm⟩
      exact (if_neg hne).trans hfile

/-- **What a step that meets the condition keeps.** -/
theorem Inv.step (hpub : rootPattern zone.zoneRoot = true) (s : State) (c : Choice) (s' : State)
    (hi : Inv h zone s) (hok : Ok h zone s c) (hs : step h s c = some s') : Inv h zone s' := by
  rcases c with i | i | ⟨i, time⟩
  · rcases hop : s.operations[i]? with _ | ⟨op, progress⟩
    · simp [Publication.step, hop] at hs
    rcases progress with _ | _ | _
    · simp only [Publication.step, hop] at hs
      obtain rfl := Option.some.inj hs
      exact hi.enqueue op.self.zone _
    · simp only [Publication.step, hop] at hs
      obtain rfl := Option.some.inj hs
      exact hi.write op _ (hok op hop)
    · simp [Publication.step, hop] at hs
  · obtain ⟨z, hz, rfl⟩ := Option.map_eq_some_iff.mp hs
    exact hi.take hz
  · rcases hw : s.workers[i]? with _ | (z | ⟨z, name, text, writes⟩)
    · simp [Publication.step, hw] at hs
    · exact hi.read hpub hw hs
    · have hok' := hok z name text writes hw
      simp only [Publication.step, hw] at hs
      obtain rfl := Option.some.inj hs
      exact hi.store hw hok'

/-- **No publication is lost** in a run whose steps meet the condition, from a state in which the file
of the zone is that of its rows. -/
theorem kept_of_along (hzone : getRow s.db.zones zone.id = some zone)
    (hpub : rootPattern zone.zoneRoot = true) (hworkers : s.workers = []) (hc : Current h zone s)
    {choices : List Choice} (hok : Along (step h) (Ok h zone) s choices) :
    Always (step h) (Kept h zone) s choices := by
  have hi : Inv h zone s := by
    refine ⟨hzone, fun w hw => ?_, Or.inr (Or.inr hc)⟩
    rw [hworkers] at hw
    cases hw
  exact (always_of_along (Inv.step hpub) hi hok).mono fun _ hi => hi.kept

end

/-! ### A lost publication -/

instance (s : State) : Decidable (Quiet s) := inferInstanceAs (Decidable (_ ∧ _))

def exampleZone : Zone := ⟨1, "example.com".toList, false⟩

def exampleRoot : DnsLabel := ⟨["example", "com"].map fun l => encode l.toList⟩

/-- A zone whose file is that of its rows, and a record that is about to be saved. -/
def beforeSave : State where
  db := { Store.empty with zones := Table.empty.save exampleZone }
  operations := [(.save ⟨1, 1, "www".toList, 300, "hello".toList⟩, .idle)]
  workers := []
  files name :=
    if name = exampleRoot.toText then
      (generateFzone .ascii { Store.empty with zones := Table.empty.save exampleZone } 0
        exampleZone).toOption
    else none

theorem current_beforeSave : Current .ascii exampleZone beforeSave := by
  have hok : (generateFzone .ascii beforeSave.db 0 exampleZone).toOption.isSome = true := by
    decide
  obtain ⟨text, htext⟩ := Option.isSome_iff_exists.mp hok
  have hfile : beforeSave.files exampleRoot.toText =
      (generateFzone .ascii beforeSave.db 0 exampleZone).toOption := by
    show (if exampleRoot.toText = exampleRoot.toText then _ else none) = _
    exact if_pos rfl
  refine ⟨exampleRoot, 0, text, by decide, hfile.trans htext, ?_⟩
  rcases hgen : generateFzone .ascii beforeSave.db 0 exampleZone with e | t
  · rw [hgen] at htext
    cases htext
  · rw [hgen] at htext
    rw [Option.some.inj htext]

/-- The one worker stores what it has just read. -/
theorem ok_after_read {h : Host} {zone : Zone} {s s' : State} {time time' : ℕ}
    (hworkers : s.workers = [.taken zone.id]) (hs : step h s (.worker 0 time) = some s') :
    Ok h zone s' (.worker 0 time') := by
  have hw : s.workers[0]? = some (.taken zone.id) := by rw [hworkers]; rfl
  have herase : s.workers.eraseIdx 0 = [] := by rw [hworkers]; rfl
  intro z name text writes hz _
  left
  rcases hgen : generate h s.db time zone.id with e | _ | ⟨name', text'⟩ <;>
    (simp only [step, hw, hgen, herase] at hs; obtain rfl := Option.some.inj hs)
  · cases hz
  · cases hz
  · cases hz
    exact ⟨rfl, unwritten_length zone.id s.db⟩

/-- The row is written before the task is done. -/
def inOrder : List Choice :=
  [.operation 0, .operation 0, .take 0, .worker 0 5, .worker 0 5]

theorem kept_inOrder : Always (step .ascii) (Kept .ascii exampleZone) beforeSave inOrder := by
  refine kept_of_along (by decide) (by decide) rfl current_beforeSave ?_
  intro s₁ h₁
  obtain rfl := Option.some.inj h₁
  refine ⟨fun op hop => by simp [beforeSave] at hop, fun s₂ h₂ => ?_⟩
  obtain rfl := Option.some.inj h₂
  refine ⟨fun op hop => Or.inr (Or.inl (by decide)), fun s₃ h₃ => ?_⟩
  obtain rfl := Option.some.inj h₃
  refine ⟨trivial, fun s₄ h₄ => ⟨fun z name text writes hw => (nomatch hw), fun s₅ h₅ => ⟨?_, trivial⟩⟩⟩
  exact ok_after_read rfl h₄

/-- The task is done before the row is written. -/
def outOfOrder : List Choice :=
  [.operation 0, .take 0, .worker 0 5, .worker 0 5, .operation 0]

/-- The record is never published. -/
theorem not_kept_outOfOrder : Current .ascii exampleZone beforeSave ∧
    ¬ Always (step .ascii) (Kept .ascii exampleZone) beforeSave outOfOrder := by
  refine ⟨current_beforeSave, fun hall => ?_⟩
  have hrun : (after (step .ascii) beforeSave outOfOrder).isSome = true := by decide
  obtain ⟨s, hs⟩ := Option.isSome_iff_exists.mp hrun
  have hquiet : (after (step .ascii) beforeSave outOfOrder).map (fun s => decide (Quiet s)) =
      some true := by decide
  have hrows : (after (step .ascii) beforeSave outOfOrder).map (fun s =>
      (publishedModels.flatMap (rowsOf s.db exampleZone)).mapM
        (rowText .ascii s.db exampleZone exampleRoot)) =
      some (.ok ["; TXT record 1\nwww 300 IN TXT \"hello\"\n".toList]) := by decide
  have hfile : ((after (step .ascii) beforeSave outOfOrder).bind fun s =>
      s.files exampleRoot.toText).map (fun t => decide
        ("; TXT record 1\nwww 300 IN TXT \"hello\"\n".toList <:+ t)) = some false := by
    decide
  rw [hs] at hquiet hrows hfile
  obtain ⟨zoneRoot, time, text, hroot, htext, hgen⟩ := hall.after hs (by simpa using hquiet)
  have hroot' : DnsLabel.ofText Host.ascii.py exampleZone.zoneRoot = .ok exampleRoot := by decide
  rw [hroot'] at hroot
  obtain rfl := Except.ok.inj hroot
  obtain ⟨root, header, texts, hroot, -, htexts, rfl⟩ := generateFzone_eq_ok.mp hgen
  rw [hroot'] at hroot
  obtain rfl := Except.ok.inj hroot
  have hrows' : Except.ok texts = _ := htexts.symm.trans (Option.some.inj hrows)
  obtain rfl := Except.ok.inj hrows'
  rw [Option.bind_some, htext, Option.map_some] at hfile
  have hsuffix := of_decide_eq_false (Option.some.inj hfile)
  exact hsuffix ⟨header, by simp⟩

end HexDns.Tasks.Publication
