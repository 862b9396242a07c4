import HexDns.Cache.InFlight

/-! # Lookups come to an end

A lookup waits as long as its key is in the set of keys in flight, for the upstream, and for room in the channel of
the responses. `lookup_can_finish` says that it never waits in vain: in every state of every run, every query can
still get its response, by steps of the tasks that run and replies to them alone, and whatever the upstream replies. -/

namespace HexDns.Cache.Progress

open HexDns.Lib.Lru HexDns.Lib.Texts HexDns.Lib.Runs HexDns.Cache.Server HexDns.Cache.InFlight

variable {N R : Type}

/-! ### What is to be shown -/

/-- Tasks go on, the upstream replies with this, and time passes. -/
def Allowed (r : Reply R) : Choice N R → Prop
  | .task _ room => room = true
  | .reply _ r' => r' = r
  | .tick _ => True
  | _ => False

/-- The lookup can be finished, if this is what the upstream replies. -/
def Finishes [DecidableEq N] (nameOf : Text → Option N) (r : Reply R) (k : CacheKey N) (i n : ℕ) (s : State N R) : Prop :=
  ∃ cs s', (∀ c ∈ cs, Allowed r c) ∧ after (step nameOf) s cs = some s' ∧
    ∃ timer, s'.tasks[i]? = some (.query k .done timer (n + 1))

/-- A call of `fetch_and_insert` that is over is none of a lookup any more. -/
def Proper : Task N R → Prop
  | .query _ (.fetch (.done _)) _ _ => False
  | _ => True

/-- What every run keeps. -/
structure Inv (s : State N R) : Prop where
  held : Held s
  proper : ∀ t ∈ s.tasks, Proper t

section
variable [DecidableEq N] {nameOf : Text → Option N} {s s1 s' : State N R} {k key : CacheKey N} {i j n : ℕ} {r : Reply R}
  {t : Task N R} {timer : Timer}

/-! ### What a step does to the tasks -/

theorem tasks_getStep {m : ℕ} : ∃ t' new, (getStep s i key timer m).tasks = s.tasks.set i t' ++ new ∧ Proper t' ∧
    ∀ u ∈ new, Proper u := by
  unfold getStep
  rcases s.cache.get? key with _ | data
  · exact ⟨_, [], (List.append_nil _).symm, trivial, fun _ h => absurd h List.not_mem_nil⟩
  dsimp only
  split_ifs
  · exact ⟨_, [], (List.append_nil _).symm, trivial, fun _ h => absurd h List.not_mem_nil⟩
  · refine ⟨_, [.refresh key .insert], rfl, trivial, fun u hu => ?_⟩
    rw [List.mem_singleton.mp hu]
    trivial
  · exact ⟨_, [], (List.append_nil _).symm, trivial, fun _ h => absurd h List.not_mem_nil⟩

theorem tasks_queryStep {m : ℕ} {room : Bool} {lookup : Lookup R}
    (h : queryStep s i key timer m room lookup = some s') :
    ∃ t' new, s'.tasks = s.tasks.set i t' ++ new ∧ Proper t' ∧ ∀ u ∈ new, Proper u := by
  have hone : ∀ t', Proper t' → ∃ t'' new, s.tasks.set i t' = s.tasks.set i t'' ++ new ∧ Proper t'' ∧
      ∀ u ∈ new, Proper u := fun t' ht' =>
    ⟨t', [], (List.append_nil _).symm, ht', fun _ h => absurd h List.not_mem_nil⟩
  rcases lookup with _ | u | _ | f | r | r | _
  · obtain rfl := Option.some.inj h
    refine hone _ ?_
    by_cases hmem : key ∈ s.inFlight
    · rw [if_pos hmem]
      trivial
    · rw [if_neg hmem]
      trivial
  · simp only [queryStep, Option.ite_none_right_eq_some, Option.some.injEq] at h
    obtain ⟨-, rfl⟩ := h
    exact hone _ trivial
  · obtain rfl := Option.some.inj h
    exact tasks_getStep
  · obtain ⟨⟨s1, f'⟩, hstep, rfl⟩ := Option.map_eq_some_iff.mp h
    show ∃ t' new, s1.tasks.set i _ = _ ∧ _
    rw [fetchStep_tasks hstep]
    refine hone _ ?_
    cases f' <;> trivial
  · obtain rfl := Option.some.inj h
    exact hone _ trivial
  · simp only [queryStep, Option.ite_none_right_eq_some, Option.some.injEq] at h
    obtain ⟨-, rfl⟩ := h
    exact hone _ trivial
  · cases h

/-- **A task's step** changes the task, and may spawn one. -/
theorem tasks_taskStep {room : Bool} (h : taskStep s i room t = some s') :
    ∃ t' new, s'.tasks = s.tasks.set i t' ++ new ∧ Proper t' ∧ ∀ u ∈ new, Proper u := by
  have hone : ∀ t', Proper t' → ∃ t'' new, s.tasks.set i t' = s.tasks.set i t'' ++ new ∧ Proper t'' ∧
      ∀ u ∈ new, Proper u := fun t' ht' =>
    ⟨t', [], (List.append_nil _).symm, ht', fun _ h => absurd h List.not_mem_nil⟩
  rcases t with ⟨key, lookup, timer, m⟩ | ⟨key, f⟩ | (u | (_ | ⟨key, keys⟩) | ⟨key, f, keys⟩) |
    ⟨sent, keys, _ | ⟨key, rest⟩⟩ | _
  · exact tasks_queryStep h
  · obtain ⟨⟨s1, f'⟩, hstep, rfl⟩ := Option.map_eq_some_iff.mp h
    show ∃ t' new, s1.tasks.set i _ = _ ∧ _
    rw [fetchStep_tasks hstep]
    refine hone _ ?_
    cases f' <;> trivial
  · simp only [taskStep, updaterStep, Option.ite_none_right_eq_some, Option.some.injEq] at h
    obtain ⟨-, rfl⟩ := h
    exact hone _ trivial
  · obtain rfl := Option.some.inj h
    exact hone _ trivial
  · obtain rfl := Option.some.inj h
    exact hone _ trivial
  · obtain ⟨⟨s1, f'⟩, hstep, rfl⟩ := Option.map_eq_some_iff.mp h
    show ∃ t' new, s1.tasks.set i _ = _ ∧ _
    rw [fetchStep_tasks hstep]
    exact hone _ trivial
  · obtain rfl := Option.some.inj h
    exact hone _ trivial
  · obtain rfl := Option.some.inj h
    exact hone _ trivial
  · cases h

omit [DecidableEq N] in
theorem replied_ne_done {new : Bool} {clock : ℕ} {a : Response R} : Fetch.replied new clock r ≠ .done a := by
  cases r with
  | failed => simp [Fetch.replied]
  | undecodable => simp [Fetch.replied]
  | message m =>
    simp only [Fetch.replied]
    split_ifs <;> simp

omit [DecidableEq N] in
theorem proper_replied {t' : Task N R} {clock : ℕ} (h : t.replied clock r = some t') : Proper t' := by
  unfold Task.replied at h
  split at h
  · obtain rfl := Option.some.inj h
    rcases hf : Fetch.replied true clock r with _ | _ | _ | a | a | a
    case done => exact absurd hf replied_ne_done
    all_goals trivial
  · obtain rfl := Option.some.inj h
    trivial
  · obtain rfl := Option.some.inj h
    trivial
  · cases h

theorem proper_step {c : Choice N R} (hp : ∀ t ∈ s.tasks, Proper t) (h : step nameOf s c = some s') :
    ∀ t ∈ s'.tasks, Proper t := by
  obtain ⟨s1, hact, rfl⟩ := Option.map_eq_some_iff.mp h
  show ∀ t ∈ s1.tasks, Proper t
  have hset : ∀ (i : ℕ) (t' : Task N R), Proper t' → ∀ t ∈ s.tasks.set i t', Proper t := by
    intro i t' ht' t ht
    rcases List.mem_or_eq_of_mem_set ht with ht | rfl
    · exact hp t ht
    · exact ht'
  have happend : ∀ t', Proper t' → ∀ t ∈ s.tasks ++ [t'], Proper t := by
    intro t' ht' t ht
    rcases List.mem_append.mp ht with ht | ht
    · exact hp t ht
    · rw [List.mem_singleton.mp ht]
      exact ht'
  rcases c with key | ⟨i, room⟩ | ⟨i, room⟩ | ⟨i, r⟩ | ms | m | _
  · obtain rfl := Option.some.inj hact
    exact happend _ trivial
  · obtain ⟨t, -, hact⟩ := Option.bind_eq_some_iff.mp hact
    obtain ⟨t', new, htasks, ht', hnew⟩ := tasks_taskStep hact
    rw [htasks]
    intro u hu
    rcases List.mem_append.mp hu with hu | hu
    · exact hset i t' ht' u hu
    · exact hnew u hu
  · obtain ⟨key, lookup, timer, m, ht, hact⟩ := act_timer hact
    obtain ⟨timer', m', rfl⟩ := timerStep_eq hact
    have hlookup := hp _ (List.mem_of_getElem? ht)
    refine hset i _ ?_
    rcases lookup with _ | _ | _ | (_ | _ | _ | _ | _ | _) | _ | _ | _
    all_goals trivial
  · obtain ⟨t, -, hact⟩ := Option.bind_eq_some_iff.mp hact
    obtain ⟨t', hr, rfl⟩ := Option.map_eq_some_iff.mp hact
    exact hset i t' (proper_replied hr)
  · obtain rfl := Option.some.inj hact
    exact hp
  · obtain rfl := Option.some.inj hact
    exact hp
  · obtain ⟨m, sent, queue, -, rfl | ⟨keys, rfl⟩⟩ := deliverStep_eq hact
    · exact hp
    · exact happend _ trivial

theorem inv_step {c : Choice N R} (hi : Inv s) (h : step nameOf s c = some s') : Inv s' :=
  ⟨held_step hi.held h, proper_step hi.proper h⟩

theorem inv_initial (cap : ℕ) : Inv (initial N R cap) where
  held k hk := absurd hk (Finset.notMem_empty k)
  proper t ht := by
    obtain rfl := List.mem_singleton.mp ht
    trivial

/-- The other tasks are as before. -/
theorem other_step {c : Choice N R} (hc : c = .task j true ∨ c = .reply j r) (hij : i ≠ j) (ht : s.tasks[i]? = some t)
    (h : step nameOf s c = some s') : s'.tasks[i]? = some t := by
  obtain ⟨s1, hact, rfl⟩ := Option.map_eq_some_iff.mp h
  show s1.tasks[i]? = some t
  have hlen := (List.getElem?_eq_some_iff.mp ht).1
  rcases hc with rfl | rfl
  · obtain ⟨u, -, hact⟩ := Option.bind_eq_some_iff.mp hact
    obtain ⟨t', new, htasks, -⟩ := tasks_taskStep hact
    rw [htasks, List.getElem?_append_left (by rwa [List.length_set]), List.getElem?_set_ne (Ne.symm hij)]
    exact ht
  · obtain ⟨u, -, hact⟩ := Option.bind_eq_some_iff.mp hact
    obtain ⟨t', -, rfl⟩ := Option.map_eq_some_iff.mp hact
    show (s.tasks.set j t')[i]? = some t
    rw [List.getElem?_set_ne (Ne.symm hij)]
    exact ht

theorem other_after {cs : List (Choice N R)} (hcs : ∀ c ∈ cs, c = .task j true ∨ c = .reply j r) (hij : i ≠ j)
    (ht : s.tasks[i]? = some t) (h : after (step nameOf) s cs = some s') : s'.tasks[i]? = some t := by
  induction cs generalizing s with
  | nil =>
    obtain rfl := Option.some.inj h
    exact ht
  | cons c cs ih =>
    obtain ⟨s1, hs, h⟩ := Option.bind_eq_some_iff.mp h
    exact ih (fun c hc => hcs c (List.mem_cons_of_mem _ hc)) (other_step (hcs c List.mem_cons_self) hij ht hs) h

/-! ### The steps of a lookup, the last one first -/

theorem Finishes.cons {c : Choice N R} (hc : Allowed r c) (hs : step nameOf s c = some s')
    (h : Finishes nameOf r k i n s') : Finishes nameOf r k i n s := by
  obtain ⟨cs, t, hcs, ht, hdone⟩ := h
  exact ⟨c :: cs, t, List.forall_mem_cons.mpr ⟨hc, hcs⟩, after_cons hs ht, hdone⟩

theorem Finishes.append {cs : List (Choice N R)} (hcs : ∀ c ∈ cs, Allowed r c)
    (hs : after (step nameOf) s cs = some s') (h : Finishes nameOf r k i n s') : Finishes nameOf r k i n s := by
  obtain ⟨cs', t, hcs', ht, hdone⟩ := h
  refine ⟨cs ++ cs', t, fun c hc => ?_, ?_, hdone⟩
  · rcases List.mem_append.mp hc with hc | hc
    · exact hcs c hc
    · exact hcs' c hc
  · rw [after_append, hs]
    exact ht

/-- The lookup takes a step. -/
theorem Finishes.task {lookup : Lookup R} (ht : s.tasks[i]? = some (.query k lookup timer n))
    (hq : queryStep s i k timer n true lookup = some s1)
    (h : ∀ s', s'.tasks = s1.tasks → s'.inFlight = s1.inFlight → Finishes nameOf r k i n s') :
    Finishes nameOf r k i n s := by
  have hact : act nameOf s (.task i true) = some s1 := by
    show (s.tasks[i]?).bind (taskStep s i true) = some s1
    rw [ht]
    exact hq
  exact Finishes.cons (c := .task i true) rfl (congrArg (Option.map _) hact) (h _ rfl rfl)

omit [DecidableEq N] in
theorem getElem?_set_task {t' : Task N R} (ht : s.tasks[i]? = some t) : (s.tasks.set i t')[i]? = some t' :=
  List.getElem?_set_self (List.getElem?_eq_some_iff.mp ht).1

theorem finishes_responding {a : Response R} (ht : s.tasks[i]? = some (.query k (.responding a) timer n)) :
    Finishes nameOf r k i n s := by
  refine Finishes.task ht rfl fun s' htasks _ => ⟨[], s', fun _ h => absurd h List.not_mem_nil, rfl, timer, ?_⟩
  rw [htasks]
  exact getElem?_set_task ht

theorem finishes_returned {a : Response R} (ht : s.tasks[i]? = some (.query k (.returned a) timer n)) :
    Finishes nameOf r k i n s := by
  refine Finishes.task ht rfl fun s' htasks _ => ?_
  have ht' : s'.tasks[i]? = some (.query k (.responding a) timer.abort n) := by
    rw [htasks]
    exact getElem?_set_task ht
  exact finishes_responding ht'

/-- The call of a lookup takes a step. -/
theorem Finishes.call {f : Fetch R} {lookup : Lookup R} (ht : s.tasks[i]? = some (.query k (.fetch f) timer n))
    (hq : queryStep s i k timer n true (.fetch f) = some (s1.setTask i (.query k lookup timer n)))
    (hsame : s1.tasks = s.tasks)
    (h : ∀ s', s'.tasks[i]? = some (.query k lookup timer n) → Finishes nameOf r k i n s') :
    Finishes nameOf r k i n s := by
  refine Finishes.task ht hq fun s' htasks _ => h s' ?_
  rw [htasks]
  show (s1.tasks.set i _)[i]? = _
  rw [hsame]
  exact getElem?_set_task ht

theorem finishes_remove {a : Response R} (ht : s.tasks[i]? = some (.query k (.fetch (.remove a)) timer n)) :
    Finishes nameOf r k i n s :=
  Finishes.call ht rfl rfl fun _ ht' => finishes_returned ht'

theorem finishes_put {a : Answer R} (ht : s.tasks[i]? = some (.query k (.fetch (.put a)) timer n)) :
    Finishes nameOf r k i n s :=
  Finishes.call ht rfl rfl fun _ ht' => finishes_remove ht'

/-- The upstream replies, whatever it is. -/
theorem finishes_waiting (ht : s.tasks[i]? = some (.query k (.fetch .waiting) timer n)) : Finishes nameOf r k i n s := by
  have hact : act nameOf s (.reply i r) = some (s.setTask i (.query k (.fetch (.replied true s.clock r)) timer n)) := by
    show (s.tasks[i]?).bind _ = _
    rw [ht]
    rfl
  refine Finishes.cons (c := .reply i r) rfl (congrArg (Option.map _) hact) ?_
  have ht' : (s.tasks.set i (.query k (.fetch (.replied true s.clock r)) timer n))[i]? = some _ :=
    getElem?_set_task ht
  rcases r with _ | _ | m
  · exact finishes_remove ht'
  · exact finishes_remove ht'
  · have hput : Fetch.replied true s.clock (.message m) = .put ⟨m, s.clock⟩ := if_pos (Or.inr rfl)
    rw [hput] at ht' ⊢
    exact finishes_put ht'

theorem finishes_insert (ht : s.tasks[i]? = some (.query k (.fetch .insert) timer n)) : Finishes nameOf r k i n s :=
  Finishes.call ht rfl rfl fun _ ht' => Finishes.call ht' rfl rfl fun _ ht'' => finishes_waiting ht''

/-- The cache has the answer, or the upstream is asked. -/
theorem finishes_get (ht : s.tasks[i]? = some (.query k .get timer n)) : Finishes nameOf r k i n s := by
  refine Finishes.task ht rfl fun s' htasks _ => ?_
  unfold getStep at htasks
  rcases hget : s.cache.get? k with _ | data
  · rw [hget] at htasks
    exact finishes_insert (by rw [htasks]; exact getElem?_set_task ht)
  rw [hget] at htasks
  dsimp only at htasks
  by_cases hhard : data.hardValidUntil < s.now
  · rw [if_pos hhard] at htasks
    exact finishes_insert (by rw [htasks]; exact getElem?_set_task ht)
  rw [if_neg hhard] at htasks
  have hhit : (s.tasks.set i (.query k (.returned (.ok data.answer)) timer n))[i]? = some _ := getElem?_set_task ht
  by_cases hsoft : data.validUntil < s.now
  · rw [if_pos hsoft] at htasks
    have ht' : s'.tasks[i]? = some (.query k (.returned (.ok data.answer)) timer n) := by
      rw [htasks]
      show (s.tasks.set i _ ++ _)[i]? = _
      rw [List.getElem?_append_left (List.getElem?_eq_some_iff.mp hhit).1]
      exact hhit
    exact finishes_returned ht'
  · rw [if_neg hsoft] at htasks
    have ht' : s'.tasks[i]? = some (.query k (.returned (.ok data.answer)) timer n) := by
      rw [htasks]
      exact hhit
    exact finishes_returned ht'

/-- No call for the key is in flight. -/
theorem finishes_check_absent (ht : s.tasks[i]? = some (.query k .check timer n)) (hk : k ∉ s.inFlight) :
    Finishes nameOf r k i n s := by
  refine Finishes.task ht rfl fun s' htasks _ => ?_
  have ht' : s'.tasks[i]? = some (.query k .get timer n) := by
    rw [htasks, if_neg hk]
    exact getElem?_set_task ht
  exact finishes_get ht'

/-- The calls that are in flight for the key end first. -/
theorem finishes_check (hheld : Held s) (ht : s.tasks[i]? = some (.query k .check timer n)) :
    Finishes nameOf r k i n s := by
  by_cases hk : k ∈ s.inFlight
  · obtain ⟨j, hj⟩ := hheld k hk
    have hij : i ≠ j := by
      rintro rfl
      exact not_running rfl ((runs_iff ht).mp hj)
    have hreleases : ReleasesOn nameOf r k j s := releasesOn_of_runs hj
    obtain ⟨cs, s', hcs, hs', hk'⟩ := hreleases
    refine Finishes.append (fun c hc => ?_) hs' (finishes_check_absent (other_after hcs hij ht hs') hk')
    rcases hcs c hc with rfl | rfl
    · exact rfl
    · exact rfl
  · exact finishes_check_absent ht hk

theorem finishes_sleeping (hheld : Held s) {u : ℕ} (ht : s.tasks[i]? = some (.query k (.sleeping u) timer n)) :
    Finishes nameOf r k i n s := by
  refine Finishes.cons (c := .tick u) trivial rfl ?_
  have hstep : step nameOf { s with now := s.now + u, clock := s.clock + 1 } (.task i true) = some
      { s.setTask i (.query k .check timer n) with now := s.now + u, clock := s.clock + 2 } := by
    show Option.map _ ((s.tasks[i]?).bind _) = _
    rw [ht]
    simp [taskStep, queryStep, State.setTask]
  have hheld' := held_step (@held_step N R _ s _ nameOf (.tick u) hheld rfl) hstep
  have ht' : (s.tasks.set i (.query k .check timer n))[i]? = some _ := getElem?_set_task ht
  exact Finishes.cons (c := .task i true) rfl hstep (finishes_check hheld' ht')

/-- **A lookup from any point of it** can be finished. -/
theorem finishes (hi : Inv s) {lookup : Lookup R} (ht : s.tasks[i]? = some (.query k lookup timer n))
    (hdone : lookup ≠ .done) : Finishes nameOf r k i n s := by
  rcases lookup with _ | u | _ | (_ | _ | _ | a | a | a) | a | a | _
  · exact finishes_check hi.held ht
  · exact finishes_sleeping hi.held ht
  · exact finishes_get ht
  · exact finishes_insert ht
  · exact Finishes.call ht rfl rfl fun _ ht' => finishes_waiting ht'
  · exact finishes_waiting ht
  · exact finishes_put ht
  · exact finishes_remove ht
  · exact (hi.proper _ (List.mem_of_getElem? ht)).elim
  · exact finishes_returned ht
  · exact finishes_responding ht
  · exact absurd rfl hdone

end

/-- **No lookup waits in vain**: in every state of every run, a query that has not got the response of its lookup can
still get it, by steps of the tasks and replies to them alone, and whatever the upstream replies. -/
theorem lookup_can_finish [DecidableEq N] (nameOf : Text → Option N) (cap : ℕ) (cs : List (Choice N R)) :
    Always (step nameOf) (fun s => ∀ i k lookup timer n, s.tasks[i]? = some (.query k lookup timer n) →
      lookup = .done ∨ ∀ r, Finishes nameOf r k i n s) (initial N R cap) cs := by
  refine (always_of_step (fun _ _ _ hi h => inv_step hi h) (inv_initial cap) cs).mono ?_
  intro s hi i k lookup timer n ht
  by_cases hdone : lookup = .done
  · exact Or.inl hdone
  · exact Or.inr fun r => finishes hi ht hdone

end HexDns.Cache.Progress
