import HexDns.Tasks.Publication

/-! # From the zone files to Knot

A worker that has stored a zone file sends a message with the name of the zone (`send_reload_message`); if that
fails, its task is put into the queue again. The exchange gives the message to the queue of each sidecar that
runs, and the sidecar has its Knot reload the zone: it acknowledges the message if Knot has, or knows no such
zone, and rejects it otherwise, so that it comes again. What a sidecar that dies had in its queue is lost.

`State` has the workers and files of `Tasks.Publication` and the servers with Knot and a sidecar. Knot knows some
zones and serves the files of theirs that it has loaded; it loads them when it starts, when it learns of a zone
from the catalog, and when it reloads. -/

namespace HexDns.Knot.Reloads

open HexDns.Lib.Texts HexDns.Lib.Programs HexDns.Lib.Runs HexDns.Base.Py HexDns.Base.Label HexDns.Models.Db HexDns.Models.Env
  HexDns.Tasks.ZoneFile
open HexDns.Tasks.Publication (Worker generate)

/-! ### Servers -/

structure Server where
  /-- the queue of the sidecar, if it runs -/
  queue : Option (List Text)
  /-- the zones that Knot knows -/
  known : Text → Bool
  served : Text → Option Text
  /-- the zones that Knot has loaded since the sidecar has its queue -/
  attended : Text → Bool

structure State where
  publication : Tasks.Publication.State
  /-- the zones, with their names, whose file is stored and whose message is to be sent -/
  publishers : List (ℕ × Text)
  servers : List Server

/-- What comes back from Knot. -/
inductive Answer
  | reloaded
  /-- `"no such zone found"` -/
  | noSuchZone
  /-- another `KnotCtlError` -/
  | failed
  deriving DecidableEq, Repr

/-- Who goes on. -/
inductive Choice
  | publication (c : Tasks.Publication.Choice)
  | publish (i : ℕ)
  /-- `send_reload_message` raises, maybe after the message was sent. -/
  | publishFails (i : ℕ) (sent : Bool)
  /-- A sidecar has a message of its queue, and Knot an answer. -/
  | callbackReload (j k : ℕ) (answer : Answer)
  | sidecarStarts (j : ℕ)
  | sidecarDies (j : ℕ)
  | knotStarts (j : ℕ)
  | knotLearns (j : ℕ) (name : Text)
  | knotForgets (j : ℕ) (name : Text)
  deriving DecidableEq

section
variable (h : Host) (loads : Text → Bool)

/-- Knot loads a zone; a file that is not there or not right leaves the zone as it is. -/
def load (files : Text → Option Text) (name : Text) (old : Option Text) : Option Text :=
  match files name with
  | some text => if loads text then some text else old
  | none => old

/-- A message goes to the queue of the sidecar. -/
def Server.deliver (name : Text) (v : Server) : Server := { v with queue := v.queue.map (· ++ [name]) }

/-- `callback_reload` -/
def Server.callbackReload (files : Text → Option Text) (v : Server) (k : ℕ) (answer : Answer) : Option Server :=
  v.queue.bind fun q => (q[k]?).bind fun name =>
    match answer with
    | .reloaded =>
      if v.known name then some { v with
        queue := some (q.eraseIdx k)
        served := fun n => if n = name then load loads files name (v.served name) else v.served n }
      else none
    | .noSuchZone => if v.known name then none else some { v with queue := some (q.eraseIdx k) }
    | .failed => some v

def Server.sidecarStarts (v : Server) : Option Server :=
  if v.queue.isSome then none else some { v with queue := some [] }

def Server.sidecarDies (v : Server) : Server := { v with queue := none, attended := fun _ => false }

def Server.knotStarts (files : Text → Option Text) (v : Server) : Server := { v with
  served := fun n => if v.known n then load loads files n none else none
  attended := fun _ => v.queue.isSome }

def Server.knotLearns (files : Text → Option Text) (name : Text) (v : Server) : Server := { v with
  known := fun n => n = name || v.known n
  served := fun n => if n = name then load loads files name none else v.served n
  attended := fun n => if n = name then v.queue.isSome else v.attended n }

def Server.knotForgets (name : Text) (v : Server) : Server := { v with
  known := fun n => n ≠ name && v.known n
  served := fun n => if n = name then none else v.served n }

/-! ### The system -/

/-- What the worker that goes on has stored: the zone and its name. -/
def stored (p : Tasks.Publication.State) : Tasks.Publication.Choice → List (ℕ × Text)
  | .worker i _ =>
    match p.workers[i]? with
    | some (.generated z name _ _) => [(z, name)]
    | _ => []
  | _ => []

def State.setServer (s : State) (j : ℕ) (v : Server) : State := { s with servers := s.servers.set j v }

def step (s : State) : Choice → Option State
  | .publication c => (Tasks.Publication.step h s.publication c).map fun p =>
      { s with publication := p, publishers := s.publishers ++ stored s.publication c }
  | .publish i => (s.publishers[i]?).map fun zn =>
      { s with publishers := s.publishers.eraseIdx i, servers := s.servers.map (·.deliver zn.2) }
  | .publishFails i sent => (s.publishers[i]?).map fun zn =>
      { publication := { s.publication with
          db := { s.publication.db with queue := s.publication.db.queue ++ [zn.1] } }
        publishers := s.publishers.eraseIdx i
        servers := if sent then s.servers.map (·.deliver zn.2) else s.servers }
  | .callbackReload j k answer => (s.servers[j]?).bind fun v =>
      (v.callbackReload loads s.publication.files k answer).map (s.setServer j)
  | .sidecarStarts j => (s.servers[j]?).bind fun v => v.sidecarStarts.map (s.setServer j)
  | .sidecarDies j => (s.servers[j]?).map fun v => s.setServer j v.sidecarDies
  | .knotStarts j => (s.servers[j]?).map fun v => s.setServer j (v.knotStarts loads s.publication.files)
  | .knotLearns j name => (s.servers[j]?).map fun v =>
      s.setServer j (v.knotLearns loads s.publication.files name)
  | .knotForgets j name => (s.servers[j]?).map fun v => s.setServer j (v.knotForgets name)

end

/-! ### What is to be kept -/

section
variable (h : Host) (loads : Text → Bool)

/-- The name of a zone whose file is published. -/
def Names (db : Store) (z : ℕ) (name : Text) : Prop :=
  ∃ zone zoneRoot, zone.id = z ∧ getRow db.zones zone.id = some zone ∧ rootPattern zone.zoneRoot = true ∧
    DnsLabel.ofText h.py zone.zoneRoot = .ok zoneRoot ∧ name = zoneRoot.toText

def zoneOf : Worker → ℕ
  | .taken z => z
  | .generated z _ _ _ => z

/-- The zones that have tasks. -/
def busy (p : Tasks.Publication.State) : List ℕ := p.db.queue ++ p.workers.map zoneOf

/-- A task for the zone of this name is on its way. -/
def Due (p : Tasks.Publication.State) (name : Text) : Prop := ∃ z, Names h p.db z name ∧ z ∈ busy p

/-- A message for this name is still to be sent. -/
def Awaits (s : State) (name : Text) : Prop := (∃ z, (z, name) ∈ s.publishers) ∨ Due h s.publication name

/-- What a server serves is what is stored, or a message is on its way. -/
def InStep (s : State) (v : Server) (name : Text) : Prop :=
  ∃ q, v.queue = some q ∧ (v.known name = true → ∀ text, s.publication.files name = some text → loads text = true →
    v.served name = some text ∨ name ∈ q ∨ Awaits h s name)

structure Inv (s : State) : Prop where
  workers : ∀ z name text writes, Worker.generated z name text writes ∈ s.publication.workers →
    Names h s.publication.db z name
  publishers : ∀ zn ∈ s.publishers, Names h s.publication.db zn.1 zn.2
  inStep : ∀ v ∈ s.servers, ∀ name, v.attended name = true → InStep h loads s v name

/-- No task, message or callback is on its way. -/
structure Quiet (s : State) : Prop where
  publication : Tasks.Publication.Quiet s.publication
  publishers : s.publishers = []
  queues : ∀ v ∈ s.servers, ∀ q, v.queue = some q → q = []

/-- A server that runs with its sidecar serves what is stored. -/
def CaughtUp (s : State) : Prop :=
  ∀ v ∈ s.servers, ∀ name, v.attended name = true → v.known name = true →
    ∀ text, s.publication.files name = some text → loads text = true → v.served name = some text

end

section
variable {h : Host} {loads : Text → Bool} {s s' : State} {name : Text}

theorem Inv.caughtUp (hi : Inv h loads s) (hquiet : Quiet s) : CaughtUp loads s := by
  intro v hv name hattended hknown text hfile hloads
  obtain ⟨q, hq, hserved⟩ := hi.inStep v hv name hattended
  rcases hserved hknown text hfile hloads with hserved | hmem | ⟨z, hmem⟩ | ⟨z, -, hmem⟩
  · exact hserved
  · rw [hquiet.queues v hv q hq] at hmem
    cases hmem
  · rw [hquiet.publishers] at hmem
    cases hmem
  · rw [busy, hquiet.publication.1, hquiet.publication.2.2] at hmem
    cases hmem

end

/-! ### What the workers do -/

section
variable {h : Host} {p p' : Tasks.Publication.State} {c : Tasks.Publication.Choice} {name : Text}

theorem Names.congr {db db' : Store} {z : ℕ} (hzones : db'.zones = db.zones) (hn : Names h db z name) :
    Names h db' z name := by
  unfold Names at hn ⊢
  rwa [hzones]

theorem Names.unique {db : Store} {z : ℕ} {name' : Text} (hn : Names h db z name) (hn' : Names h db z name') :
    name = name' := by
  obtain ⟨zone, zoneRoot, rfl, hz, -, hroot, rfl⟩ := hn
  obtain ⟨zone', zoneRoot', hid, hz', -, hroot', rfl⟩ := hn'
  rw [hid, hz] at hz'
  obtain rfl := Option.some.inj hz'
  rw [hroot] at hroot'
  rw [Except.ok.inj hroot']

theorem names_of_generate {db : Store} {time z : ℕ} {text : Text}
    (hgen : generate h db time z = .ok (some (name, text))) : Names h db z name := by
  unfold generate at hgen
  rcases hz : getRow db.zones z with _ | zone
  · simp [hz] at hgen
  simp only [hz] at hgen
  split at hgen
  · rename_i hpattern
    obtain ⟨zoneRoot, hroot, hgen⟩ := bind_eq_ok.mp hgen
    obtain ⟨zoneFile, -, hgen⟩ := bind_eq_ok.mp hgen
    obtain ⟨rfl, rfl⟩ : zoneRoot.toText = name ∧ zoneFile = text := by
      simpa [pure, Except.pure] using hgen
    obtain rfl := (getRow_eq_some.mp hz).2
    exact ⟨zone, zoneRoot, rfl, hz, hpattern, hroot, rfl⟩
  · cases hgen

/-- The task of a published zone does something. -/
theorem generate_ne_none {db : Store} {time z : ℕ} (hn : Names h db z name) : generate h db time z ≠ .ok none := by
  obtain ⟨zone, zoneRoot, rfl, hz, hpattern, -, -⟩ := hn
  rcases Tasks.Publication.generate_zone (h := h) hz hpattern time with ⟨e, hgen⟩ | ⟨_, _, hgen, -, -⟩
  · simp [hgen]
  · simp [hgen]

/-- What a step of the workers and operations leaves as it is, and what it stores. -/
structure Passes (h : Host) (p p' : Tasks.Publication.State) (new : List (ℕ × Text)) : Prop where
  zones : p'.db.zones = p.db.zones
  workers : ∀ z name text writes, Worker.generated z name text writes ∈ p'.workers →
    Worker.generated z name text writes ∈ p.workers ∨ Names h p.db z name
  busy : ∀ z name, Names h p.db z name → z ∈ busy p → z ∈ Reloads.busy p' ∨ ∃ name', (z, name') ∈ new
  files : ∀ name, p'.files name = p.files name ∨ ∃ z, (z, name) ∈ new
  new : ∀ zn ∈ new, ∃ text writes, Worker.generated zn.1 zn.2 text writes ∈ p.workers

/-- A worker gives up its place. -/
theorem mem_zoneOf_eraseIdx {ws : List Worker} {i z : ℕ} {w : Worker} (hw : ws[i]? = some w)
    (hz : z ∈ ws.map zoneOf) : z = zoneOf w ∨ z ∈ (ws.eraseIdx i).map zoneOf := by
  obtain ⟨u, hu, rfl⟩ := List.mem_map.mp hz
  by_cases heq : u = w
  · exact Or.inl (by rw [heq])
  · refine Or.inr (List.mem_map_of_mem (Tasks.Publication.mem_eraseIdx_of_ne hu ?_))
    rw [hw]
    exact fun h => heq (Option.some.inj h).symm

/-- A worker with the task of a zone goes on. -/
theorem passes_taken {i time z : ℕ} (hw : p.workers[i]? = some (.taken z))
    (hs : Tasks.Publication.step h p (.worker i time) = some p') : Passes h p p' [] := by
  rcases hgen : generate h p.db time z with e | _ | ⟨name, text⟩
  · simp only [Tasks.Publication.step, hw, hgen] at hs
    obtain rfl := Option.some.inj hs
    refine ⟨rfl, fun _ _ _ _ hmem => Or.inl (List.mem_of_mem_eraseIdx hmem), fun z' name hn hz' => Or.inl ?_,
      fun _ => Or.inl rfl, fun _ h => absurd h List.not_mem_nil⟩
    rcases List.mem_append.mp hz' with hz' | hz'
    · exact List.mem_append_left _ (List.mem_append_left _ hz')
    · rcases mem_zoneOf_eraseIdx hw hz' with rfl | hz'
      · exact List.mem_append_left _ (List.mem_append_right _ (List.mem_singleton_self _))
      · exact List.mem_append_right _ hz'
  · simp only [Tasks.Publication.step, hw, hgen] at hs
    obtain rfl := Option.some.inj hs
    refine ⟨rfl, fun _ _ _ _ hmem => Or.inl (List.mem_of_mem_eraseIdx hmem), fun z' name hn hz' => Or.inl ?_,
      fun _ => Or.inl rfl, fun _ h => absurd h List.not_mem_nil⟩
    rcases List.mem_append.mp hz' with hz' | hz'
    · exact List.mem_append_left _ hz'
    · rcases mem_zoneOf_eraseIdx hw hz' with rfl | hz'
      · exact absurd hgen (generate_ne_none hn)
      · exact List.mem_append_right _ hz'
  · simp only [Tasks.Publication.step, hw, hgen] at hs
    obtain rfl := Option.some.inj hs
    refine ⟨rfl, fun z' name' text' writes hmem => ?_, fun z' name hn hz' => Or.inl ?_, fun _ => Or.inl rfl,
      fun _ h => absurd h List.not_mem_nil⟩
    · rcases List.mem_append.mp hmem with hmem | hmem
      · exact Or.inl (List.mem_of_mem_eraseIdx hmem)
      · obtain ⟨rfl, rfl, -, -⟩ : z' = z ∧ name' = name ∧ text' = text ∧ writes = _ := by simpa using hmem
        exact Or.inr (names_of_generate hgen)
    · rcases List.mem_append.mp hz' with hz' | hz'
      · exact List.mem_append_left _ hz'
      · refine List.mem_append_right _ ?_
        rw [List.map_append]
        rcases mem_zoneOf_eraseIdx hw hz' with rfl | hz'
        · exact List.mem_append_right _ (List.mem_singleton_self _)
        · exact List.mem_append_left _ hz'

/-- **What a step of the workers and operations does.** -/
theorem passes_step (hs : Tasks.Publication.step h p c = some p') : Passes h p p' (stored p c) := by
  rcases c with i | i | ⟨i, time⟩
  · rcases hop : p.operations[i]? with _ | ⟨op, progress⟩
    · simp [Tasks.Publication.step, hop] at hs
    rcases progress with _ | _ | _
    · simp only [Tasks.Publication.step, hop] at hs
      obtain rfl := Option.some.inj hs
      refine ⟨rfl, fun _ _ _ _ hmem => Or.inl hmem, fun z name hn hz => Or.inl ?_, fun _ => Or.inl rfl,
        fun _ h => absurd h List.not_mem_nil⟩
      rcases List.mem_append.mp hz with hz | hz
      · exact List.mem_append_left _ (List.mem_append_left _ hz)
      · exact List.mem_append_right _ hz
    · simp only [Tasks.Publication.step, hop] at hs
      obtain rfl := Option.some.inj hs
      obtain ⟨-, -, hqueue, hzones, -⟩ := Tasks.Publication.write_spec (h := h) (z := 0) op p.db
      refine ⟨hzones, fun _ _ _ _ hmem => Or.inl hmem, fun z name hn hz => Or.inl ?_, fun _ => Or.inl rfl,
        fun _ h => absurd h List.not_mem_nil⟩
      show z ∈ (op.write h p.db).queue ++ p.workers.map zoneOf
      rwa [hqueue]
    · simp [Tasks.Publication.step, hop] at hs
  · obtain ⟨z, hz, rfl⟩ := Option.map_eq_some_iff.mp hs
    refine ⟨rfl, fun z' name text writes hmem => Or.inl ?_, fun z' name hn hz' => Or.inl ?_, fun _ => Or.inl rfl,
      fun _ h => absurd h List.not_mem_nil⟩
    · rcases List.mem_append.mp hmem with hmem | hmem
      · exact hmem
      · simp at hmem
    · unfold busy
      dsimp only
      rw [List.map_append]
      rcases List.mem_append.mp hz' with hz' | hz'
      · obtain ⟨k, hk⟩ := List.mem_iff_getElem?.mp hz'
        by_cases hki : k = i
        · rw [hki, hz] at hk
          obtain rfl := Option.some.inj hk
          exact List.mem_append_right _ (List.mem_append_right _ (List.mem_singleton_self _))
        · exact List.mem_append_left _ (List.mem_eraseIdx_iff_getElem?.mpr ⟨k, hki, hk⟩)
      · exact List.mem_append_right _ (List.mem_append_left _ hz')
  · rcases hw : p.workers[i]? with _ | (z | ⟨z, name, text, writes⟩)
    · simp [Tasks.Publication.step, hw] at hs
    · simpa [stored, hw] using passes_taken hw hs
    · simp only [Tasks.Publication.step, hw] at hs
      obtain rfl := Option.some.inj hs
      simp only [stored, hw]
      refine ⟨rfl, fun _ _ _ _ hmem => Or.inl (List.mem_of_mem_eraseIdx hmem), fun z' name' hn hz' => ?_,
        fun name' => ?_, fun zn hzn => ?_⟩
      · rcases List.mem_append.mp hz' with hz' | hz'
        · exact Or.inl (List.mem_append_left _ hz')
        · rcases mem_zoneOf_eraseIdx hw hz' with rfl | hz'
          · exact Or.inr ⟨name, List.mem_singleton_self _⟩
          · exact Or.inl (List.mem_append_right _ hz')
      · by_cases hname : name' = name
        · exact Or.inr ⟨z, by rw [hname]; exact List.mem_singleton_self _⟩
        · exact Or.inl (if_neg hname)
      · obtain rfl := List.mem_singleton.mp hzn
        exact ⟨text, writes, List.mem_of_getElem? hw⟩

end

/-! ### What the servers do -/

section
variable {h : Host} {loads : Text → Bool} {s s' : State} {v v' : Server} {name : Text}

theorem load_eq {files : Text → Option Text} {old : Option Text} {text : Text} (hfile : files name = some text)
    (hloads : loads text = true) : load loads files name old = some text := by
  unfold load
  rw [hfile]
  exact if_pos hloads

/-- A server in step, when only the server changes. -/
theorem InStep.congr (hin : InStep h loads s v name) (hqueue : v'.queue = v.queue)
    (hserved : v'.known name = true → v.known name = true ∧ v'.served name = v.served name) :
    InStep h loads s v' name := by
  obtain ⟨q, hq, hin⟩ := hin
  refine ⟨q, hqueue.trans hq, fun hknown text hfile hloads => ?_⟩
  obtain ⟨hknown', hserved⟩ := hserved hknown
  rw [hserved]
  exact hin hknown' text hfile hloads

/-- A server that has just loaded the zone is in step. -/
theorem inStep_of_load (old : Option Text) (hqueue : v.queue.isSome = true)
    (hserved : v.known name = true → v.served name = load loads s.publication.files name old) :
    InStep h loads s v name := by
  obtain ⟨q, hq⟩ := Option.isSome_iff_exists.mp hqueue
  refine ⟨q, hq, fun hknown text hfile hloads => Or.inl ?_⟩
  rw [hserved hknown, load_eq hfile hloads]

theorem Inv.setServer (hi : Inv h loads s) {j : ℕ}
    (hv' : ∀ name, v'.attended name = true → InStep h loads s v' name) : Inv h loads (s.setServer j v') where
  workers := hi.workers
  publishers := hi.publishers
  inStep w hw := by
    rcases List.mem_or_eq_of_mem_set hw with hw | rfl
    · exact hi.inStep w hw
    · exact hv'

theorem callbackReload_inStep {k : ℕ} {answer : Answer}
    (hs : v.callbackReload loads s.publication.files k answer = some v')
    (hin : InStep h loads s v name) : InStep h loads s v' name := by
  obtain ⟨q, hq, hs⟩ := Option.bind_eq_some_iff.mp hs
  obtain ⟨name', hname', hs⟩ := Option.bind_eq_some_iff.mp hs
  obtain ⟨q', hq', hserved⟩ := hin
  obtain rfl := Option.some.inj (hq.symm.trans hq')
  have herase : name ∈ q → name ≠ name' → name ∈ q.eraseIdx k := by
    intro hmem hne
    refine Tasks.Publication.mem_eraseIdx_of_ne hmem ?_
    rw [hname']
    exact fun heq => hne (Option.some.inj heq).symm
  cases answer with
  | reloaded =>
    simp only [Option.ite_none_right_eq_some, Option.some.injEq] at hs
    obtain ⟨-, rfl⟩ := hs
    refine ⟨_, rfl, fun hknown text hfile hloads => ?_⟩
    dsimp only
    by_cases hname : name = name'
    · left
      rw [if_pos hname, ← hname]
      exact load_eq hfile hloads
    · rw [if_neg hname]
      exact (hserved hknown text hfile hloads).imp_right fun hwaits => hwaits.imp_left fun hmem => herase hmem hname
  | noSuchZone =>
    simp only [Option.ite_none_left_eq_some, Option.some.injEq] at hs
    obtain ⟨hunknown, rfl⟩ := hs
    refine ⟨_, rfl, fun hknown text hfile hloads => ?_⟩
    have hname : name ≠ name' := fun heq => hunknown (heq ▸ hknown)
    exact (hserved hknown text hfile hloads).imp_right fun hwaits => hwaits.imp_left fun hmem => herase hmem hname
  | failed =>
    obtain rfl := Option.some.inj hs
    exact ⟨q, hq, hserved⟩

theorem callbackReload_attended {files : Text → Option Text} {k : ℕ} {answer : Answer}
    (hs : v.callbackReload loads files k answer = some v') : v'.attended = v.attended := by
  obtain ⟨q, -, hs⟩ := Option.bind_eq_some_iff.mp hs
  obtain ⟨name, -, hs⟩ := Option.bind_eq_some_iff.mp hs
  cases answer with
  | reloaded =>
    simp only [Option.ite_none_right_eq_some, Option.some.injEq] at hs
    obtain ⟨-, rfl⟩ := hs
    rfl
  | noSuchZone =>
    simp only [Option.ite_none_left_eq_some, Option.some.injEq] at hs
    obtain ⟨-, rfl⟩ := hs
    rfl
  | failed =>
    obtain rfl := Option.some.inj hs
    rfl

theorem mem_publishers_eraseIdx {i z : ℕ} {zn : ℕ × Text} (hzn : s.publishers[i]? = some zn)
    (hmem : (z, name) ∈ s.publishers) : (z, name) = zn ∨ (z, name) ∈ s.publishers.eraseIdx i := by
  by_cases heq : (z, name) = zn
  · exact Or.inl heq
  · refine Or.inr (Tasks.Publication.mem_eraseIdx_of_ne hmem ?_)
    rw [hzn]
    exact fun h => heq (Option.some.inj h).symm

/-- A message is in every queue. -/
theorem inStep_deliver {zn : ℕ × Text} (hin : InStep h loads s v name)
    (hwaits : Awaits h s name → name = zn.2 ∨ Awaits h s' name)
    (hfiles : s'.publication.files = s.publication.files) : InStep h loads s' (v.deliver zn.2) name := by
  obtain ⟨q, hq, hserved⟩ := hin
  refine ⟨q ++ [zn.2], by simp [Server.deliver, hq], fun hknown text hfile hloads => ?_⟩
  rw [hfiles] at hfile
  rcases hserved hknown text hfile hloads with hserved | hmem | hw
  · exact Or.inl hserved
  · exact Or.inr (Or.inl (List.mem_append_left _ hmem))
  · rcases hwaits hw with rfl | hw
    · exact Or.inr (Or.inl (List.mem_append_right _ (List.mem_singleton_self _)))
    · exact Or.inr (Or.inr hw)

theorem Inv.publication (hi : Inv h loads s) {c : Tasks.Publication.Choice} {p : Tasks.Publication.State}
    (hs : Tasks.Publication.step h s.publication c = some p) :
    Inv h loads { s with publication := p, publishers := s.publishers ++ stored s.publication c } := by
  have hp := passes_step hs
  have hnew : ∀ zn ∈ stored s.publication c, Names h s.publication.db zn.1 zn.2 := by
    intro zn hzn
    obtain ⟨text, writes, hmem⟩ := hp.new zn hzn
    exact hi.workers _ _ _ _ hmem
  refine ⟨fun z name text writes hmem => ?_, fun zn hzn => ?_, fun v hv name hattended => ?_⟩
  · rcases hp.workers z name text writes hmem with hmem | hn
    · exact (hi.workers z name text writes hmem).congr hp.zones
    · exact hn.congr hp.zones
  · rcases List.mem_append.mp hzn with hzn | hzn
    · exact (hi.publishers zn hzn).congr hp.zones
    · exact (hnew zn hzn).congr hp.zones
  · obtain ⟨q, hq, hserved⟩ := hi.inStep v hv name hattended
    refine ⟨q, hq, fun hknown text hfile hloads => ?_⟩
    rcases hp.files name with hsame | ⟨z, hz⟩
    · rw [hsame] at hfile
      rcases hserved hknown text hfile hloads with hserved | hmem | ⟨z, hz⟩ | ⟨z, hn, hz⟩
      · exact Or.inl hserved
      · exact Or.inr (Or.inl hmem)
      · exact Or.inr (Or.inr (Or.inl ⟨z, List.mem_append_left _ hz⟩))
      · right; right
        rcases hp.busy z name hn hz with hz | ⟨name', hz⟩
        · exact Or.inr ⟨z, hn.congr hp.zones, hz⟩
        · obtain rfl := hn.unique (hnew _ hz)
          exact Or.inl ⟨z, List.mem_append_right _ hz⟩
    · exact Or.inr (Or.inr (Or.inl ⟨z, List.mem_append_right _ hz⟩))

/-- The task of a message that could not be sent is done again. -/
theorem Inv.publishFails (hi : Inv h loads s) {i : ℕ} {zn : ℕ × Text} (hzn : s.publishers[i]? = some zn) {sent : Bool} :
    Inv h loads {
      publication := { s.publication with
        db := { s.publication.db with queue := s.publication.db.queue ++ [zn.1] } }
      publishers := s.publishers.eraseIdx i
      servers := if sent then s.servers.map (·.deliver zn.2) else s.servers } := by
  have hwaits : ∀ name servers, Awaits h s name → Awaits h ⟨{ s.publication with
      db := { s.publication.db with queue := s.publication.db.queue ++ [zn.1] } }, s.publishers.eraseIdx i, servers⟩
      name := by
    rintro name servers (⟨z, hmem⟩ | ⟨z, hn, hz⟩)
    · rcases mem_publishers_eraseIdx hzn hmem with rfl | hmem
      · refine Or.inr ⟨z, (hi.publishers _ (List.mem_of_getElem? hzn)).congr rfl, ?_⟩
        exact List.mem_append_left _ (List.mem_append_right _ (List.mem_singleton_self _))
      · exact Or.inl ⟨z, hmem⟩
    · refine Or.inr ⟨z, hn.congr rfl, ?_⟩
      rcases List.mem_append.mp hz with hz | hz
      · exact List.mem_append_left _ (List.mem_append_left _ hz)
      · exact List.mem_append_right _ hz
  refine ⟨fun z name text writes hw => (hi.workers z name text writes hw).congr rfl,
    fun x hx => (hi.publishers x (List.mem_of_mem_eraseIdx hx)).congr rfl, fun v hv name hattended => ?_⟩
  cases sent with
  | true =>
    obtain ⟨u, hu, rfl⟩ := List.mem_map.mp hv
    exact inStep_deliver (hi.inStep u hu name hattended) (fun hw => Or.inr (hwaits name _ hw)) rfl
  | false =>
    obtain ⟨q, hq, hserved⟩ := hi.inStep v hv name hattended
    refine ⟨q, hq, fun hknown text hfile hloads => ?_⟩
    exact (hserved hknown text hfile hloads).imp_right fun hor => hor.imp_right (hwaits name _)

/-- **One step** keeps the servers in step. -/
theorem inv_step {c : Choice} (hi : Inv h loads s) (hs : step h loads s c = some s') : Inv h loads s' := by
  cases c with
  | publication c =>
    obtain ⟨p, hp, rfl⟩ := Option.map_eq_some_iff.mp hs
    exact hi.publication hp
  | publish i =>
    obtain ⟨zn, hzn, rfl⟩ := Option.map_eq_some_iff.mp hs
    refine ⟨hi.workers, fun x hx => hi.publishers x (List.mem_of_mem_eraseIdx hx), fun v hv name hattended => ?_⟩
    obtain ⟨u, hu, rfl⟩ := List.mem_map.mp hv
    refine inStep_deliver (hi.inStep u hu name hattended) ?_ rfl
    rintro (⟨z, hmem⟩ | hdue)
    · rcases mem_publishers_eraseIdx hzn hmem with rfl | hmem
      · exact Or.inl rfl
      · exact Or.inr (Or.inl ⟨z, hmem⟩)
    · exact Or.inr (Or.inr hdue)
  | publishFails i sent =>
    obtain ⟨zn, hzn, rfl⟩ := Option.map_eq_some_iff.mp hs
    exact hi.publishFails hzn
  | callbackReload j k answer =>
    obtain ⟨v, hv, hs⟩ := Option.bind_eq_some_iff.mp hs
    obtain ⟨v', hv', rfl⟩ := Option.map_eq_some_iff.mp hs
    refine hi.setServer fun name hattended => ?_
    rw [callbackReload_attended hv'] at hattended
    exact callbackReload_inStep hv' (hi.inStep v (List.mem_of_getElem? hv) name hattended)
  | sidecarStarts j =>
    obtain ⟨v, hv, hs⟩ := Option.bind_eq_some_iff.mp hs
    obtain ⟨v', hv', rfl⟩ := Option.map_eq_some_iff.mp hs
    unfold Server.sidecarStarts at hv'
    simp only [Option.ite_none_left_eq_some, Option.some.injEq] at hv'
    obtain ⟨hnone, rfl⟩ := hv'
    refine hi.setServer fun name hattended => ?_
    obtain ⟨q, hq, -⟩ := hi.inStep v (List.mem_of_getElem? hv) name hattended
    simp [hq] at hnone
  | sidecarDies j =>
    obtain ⟨v, hv, rfl⟩ := Option.map_eq_some_iff.mp hs
    refine hi.setServer fun name hattended => ?_
    cases hattended
  | knotStarts j =>
    obtain ⟨v, hv, rfl⟩ := Option.map_eq_some_iff.mp hs
    exact hi.setServer fun name hattended => inStep_of_load none hattended fun hknown => if_pos hknown
  | knotLearns j name =>
    obtain ⟨v, hv, rfl⟩ := Option.map_eq_some_iff.mp hs
    refine hi.setServer fun name' hattended => ?_
    by_cases hname : name' = name
    · simp only [Server.knotLearns, if_pos hname] at hattended
      exact inStep_of_load none hattended fun _ => by rw [hname]; exact if_pos rfl
    · simp only [Server.knotLearns, if_neg hname] at hattended
      refine (hi.inStep v (List.mem_of_getElem? hv) name' hattended).congr rfl fun hknown => ⟨?_, if_neg hname⟩
      simpa [Server.knotLearns, hname] using hknown
  | knotForgets j name =>
    obtain ⟨v, hv, rfl⟩ := Option.map_eq_some_iff.mp hs
    refine hi.setServer fun name' hattended => ?_
    refine (hi.inStep v (List.mem_of_getElem? hv) name' hattended).congr rfl fun hknown => ?_
    simp only [Server.knotForgets, Bool.and_eq_true, decide_eq_true_eq] at hknown
    exact ⟨hknown.2, if_neg hknown.1⟩

end

/-! ### Runs -/

/-- The start, with the operations and workers as they are: no message is on its way, and no sidecar or Knot
runs. -/
def start (p : Tasks.Publication.State) (servers : ℕ) : State :=
  ⟨p, [], List.replicate servers ⟨none, fun _ => false, fun _ => none, fun _ => false⟩⟩

/-- The condition of `Tasks.Publication` on the steps of operations and workers -/
def Ok (h : Host) (zone : Zone) (s : State) : Choice → Prop
  | .publication c => Tasks.Publication.Ok h zone s.publication c
  | _ => True

/-- A server that runs with its sidecar and knows the zone serves the file of its rows, if Knot can load it. -/
def Shows (h : Host) (loads : Text → Bool) (zone : Zone) (s : State) : Prop :=
  ∃ zoneRoot time text, DnsLabel.ofText h.py zone.zoneRoot = .ok zoneRoot ∧
    generateFzone h s.publication.db time zone = .ok text ∧
    ∀ v ∈ s.servers, v.attended zoneRoot.toText = true → v.known zoneRoot.toText = true → loads text = true →
      v.served zoneRoot.toText = some text

section
variable {h : Host} {loads : Text → Bool} {zone : Zone} {s s' : State} {p : Tasks.Publication.State}

theorem inv_start (hworkers : p.workers = []) (servers : ℕ) : Inv h loads (start p servers) where
  workers z name text writes hw := by
    rw [start, hworkers] at hw
    cases hw
  publishers zn hzn := by cases hzn
  inStep v hv name hattended := by
    obtain rfl := List.eq_of_mem_replicate hv
    cases hattended

/-- The operations and workers go on, or a task is put into their queue. -/
theorem publication_inv_step (hpub : rootPattern zone.zoneRoot = true) {c : Choice}
    (hi : Tasks.Publication.Inv h zone s.publication) (hok : Ok h zone s c) (hs : step h loads s c = some s') :
    Tasks.Publication.Inv h zone s'.publication := by
  cases c with
  | publication c =>
    obtain ⟨p, hp, rfl⟩ := Option.map_eq_some_iff.mp hs
    exact hi.step hpub _ c _ hok hp
  | publishFails i sent =>
    obtain ⟨zn, -, rfl⟩ := Option.map_eq_some_iff.mp hs
    exact hi.enqueue zn.1 s.publication.operations
  | callbackReload j k answer =>
    obtain ⟨v, -, hs⟩ := Option.bind_eq_some_iff.mp hs
    obtain ⟨v', -, rfl⟩ := Option.map_eq_some_iff.mp hs
    exact hi
  | sidecarStarts j =>
    obtain ⟨v, -, hs⟩ := Option.bind_eq_some_iff.mp hs
    obtain ⟨v', -, rfl⟩ := Option.map_eq_some_iff.mp hs
    exact hi
  | _ =>
    obtain ⟨v, -, rfl⟩ := Option.map_eq_some_iff.mp hs
    exact hi

end

/-! ### A record that is saved -/

open HexDns.Tasks.Publication (exampleZone exampleRoot beforeSave inOrder)

/-- Knot learns of the zone; a record is saved, and the zone reloaded. -/
def savedAndReloaded : List Choice :=
  [.sidecarStarts 0, .knotLearns 0 exampleRoot.toText] ++
    (inOrder.map Choice.publication ++ [.publish 0, .callbackReload 0 0 .reloaded])

/-- The condition, for the steps of operations and workers one after another. -/
theorem along_publication {h : Host} {loads : Text → Bool} {zone : Zone} {cs : List Tasks.Publication.Choice}
    {s : State} (hok : Along (Tasks.Publication.step h) (Tasks.Publication.Ok h zone) s.publication cs) :
    Along (step h loads) (Ok h zone) s (cs.map .publication) := by
  induction cs generalizing s with
  | nil => exact trivial
  | cons c cs ih =>
    intro s' hs
    obtain ⟨p, hp, rfl⟩ := Option.map_eq_some_iff.mp hs
    obtain ⟨hok, hrest⟩ := hok p hp
    exact ⟨hok, ih hrest⟩

theorem along_inOrder :
    Along (Tasks.Publication.step .ascii) (Tasks.Publication.Ok .ascii exampleZone) beforeSave inOrder := by
  intro s₁ h₁
  obtain rfl := Option.some.inj h₁
  refine ⟨fun op hop => by simp [beforeSave] at hop, fun s₂ h₂ => ?_⟩
  obtain rfl := Option.some.inj h₂
  refine ⟨fun op hop => Or.inr (Or.inl (by decide)), fun s₃ h₃ => ?_⟩
  obtain rfl := Option.some.inj h₃
  refine ⟨trivial, fun s₄ h₄ => ⟨fun z name text writes hw => ?_, fun s₅ h₅ => ⟨?_, trivial⟩⟩⟩
  · cases hw
  exact Tasks.Publication.ok_after_read rfl h₄

end HexDns.Knot.Reloads
