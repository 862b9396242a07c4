import HexDns.Cache.Server
import HexDns.Lib.Runs

/-! # The keys in flight

A call of `fetch_and_insert` is in flight for its key from the step that puts the key in the set to the
one that takes it from it. A lookup tests the set before, but in a step of its own, and a refresh and
the updater do not test it. `exclusive_iff` says when there are no two calls in flight for one key, and
`singleFlight_of_along` takes it to the requests that the upstream has not replied to. -/

namespace HexDns.Cache.InFlight

open HexDns.Lib.Lru HexDns.Lib.Texts HexDns.Lib.Runs HexDns.Cache.Server

variable {N R : Type}

/-! ### The calls of `fetch_and_insert` -/

/-- The call of `fetch_and_insert` that a task is in, with its key. -/
def Task.fetch? : Task N R → Option (CacheKey N × Fetch R)
  | .query key (.fetch f) _ _ => some (key, f)
  | .refresh key f => some (key, f)
  | .updater (.fetching key f _) => some (key, f)
  | _ => none

/-- The key of the call is in the set. -/
def Fetch.Running : Fetch R → Prop
  | .insert => False
  | .done _ => False
  | _ => True

/-- The task is in a call for the key, and the key is in the set. -/
def Running (k : CacheKey N) (t : Task N R) : Prop := ∃ f, Task.fetch? t = some (k, f) ∧ Fetch.Running f

/-- A call for the key is in flight in the task with this number. -/
def Runs (s : State N R) (k : CacheKey N) (i : ℕ) : Prop := ∃ t, s.tasks[i]? = some t ∧ Running k t

/-- The upstream has not replied to a request for the key from the task with this number. -/
def Waits (s : State N R) (k : CacheKey N) (i : ℕ) : Prop :=
  ∃ t, s.tasks[i]? = some t ∧ Task.fetch? t = some (k, .waiting)

/-! ### The statements -/

/-- **Single flight**: at most one upstream fetch of a key is in progress. -/
def SingleFlight (s : State N R) : Prop := ∀ k i j, Waits s k i → Waits s k j → i = j

/-- At most one call for a key is in flight. -/
def Exclusive (s : State N R) : Prop := ∀ k i j, Runs s k i → Runs s k j → i = j

/-- The key that a step puts in the set. -/
def inserts (s : State N R) : Choice N R → Option (CacheKey N)
  | .task i _ =>
    match (s.tasks[i]?).bind Task.fetch? with
    | some (key, .insert) => some key
    | _ => none
  | _ => none

/-- The key that a step puts in the set is not in it. -/
def Absent (s : State N R) (c : Choice N R) : Prop := ∀ key ∈ inserts s c, key ∉ s.inFlight

instance [DecidableEq N] (s : State N R) (c : Choice N R) : Decidable (Absent s c) :=
  inferInstanceAs (Decidable (∀ key ∈ inserts s c, key ∉ s.inFlight))

/-- The set has the keys of the calls in flight. -/
def Tracked (s : State N R) : Prop := ∀ k, k ∈ s.inFlight ↔ ∃ i, Runs s k i

/-- A call is in flight for each key of the set. -/
def Held (s : State N R) : Prop := ∀ k ∈ s.inFlight, ∃ i, Runs s k i

/-- The task takes the key from the set by steps of its own, if this is what the upstream replies to it. -/
def ReleasesOn [DecidableEq N] (nameOf : Text → Option N) (r : Reply R) (k : CacheKey N) (i : ℕ) (s : State N R) : Prop :=
  ∃ cs s', (∀ c ∈ cs, c = .task i true ∨ c = .reply i r) ∧ after (step nameOf) s cs = some s' ∧ k ∉ s'.inFlight

/-! ### What a step does -/

/-- What a step does to the set and to the calls in flight. -/
inductive Effect [DecidableEq N] (s s' : State N R) (put : Option (CacheKey N)) : Prop
  | same (hput : put = none) (hset : s'.inFlight = s.inFlight) (hruns : ∀ k j, Runs s' k j ↔ Runs s k j)
  | insert (key : CacheKey N) (i : ℕ) (hput : put = some key) (hset : s'.inFlight = insert key s.inFlight)
    (hi : ∀ k, ¬ Runs s k i) (hruns : ∀ k j, Runs s' k j ↔ Runs s k j ∨ (k = key ∧ j = i))
  | remove (key : CacheKey N) (i : ℕ) (hput : put = none) (hset : s'.inFlight = s.inFlight.erase key)
    (hi : ∀ k, Runs s k i ↔ k = key) (hruns : ∀ k j, Runs s' k j ↔ Runs s k j ∧ j ≠ i)

section
variable {s s1 s' : State N R} {k key : CacheKey N} {i j : ℕ} {t t' : Task N R} {f : Fetch R}

theorem running_iff (h : Task.fetch? t = some (key, f)) : Running k t ↔ k = key ∧ Fetch.Running f := by
  constructor
  · rintro ⟨f', hf', hrun⟩
    obtain ⟨rfl, rfl⟩ := Prod.mk.inj (Option.some.inj (h.symm.trans hf'))
    exact ⟨rfl, hrun⟩
  · rintro ⟨rfl, hrun⟩
    exact ⟨f, h, hrun⟩

theorem not_running (h : Task.fetch? t = none) : ¬ Running k t := by
  rintro ⟨f, hf, -⟩
  rw [h] at hf
  cases hf

theorem not_running_insert (h : Task.fetch? t = some (key, .insert)) : ¬ Running k t :=
  fun hrun => ((running_iff h).mp hrun).2

theorem fetch?_eq_some (h : Task.fetch? t = some (k, f)) : (∃ timer n, t = .query k (.fetch f) timer n) ∨
    t = .refresh k f ∨ ∃ keys, t = .updater (.fetching k f keys) := by
  unfold Task.fetch? at h
  split at h
  · obtain ⟨rfl, rfl⟩ := Prod.mk.inj (Option.some.inj h)
    exact Or.inl ⟨_, _, rfl⟩
  · obtain ⟨rfl, rfl⟩ := Prod.mk.inj (Option.some.inj h)
    exact Or.inr (Or.inl rfl)
  · obtain ⟨rfl, rfl⟩ := Prod.mk.inj (Option.some.inj h)
    exact Or.inr (Or.inr ⟨_, rfl⟩)
  · cases h

/-- The task after a step of its call: in the call still, or out of it. -/
def GoesOn (key : CacheKey N) (f : Fetch R) (t : Task N R) : Prop :=
  ((∃ r, f = .done r) ∧ Task.fetch? t = none) ∨ Task.fetch? t = some (key, f)

theorem GoesOn.running_iff (h : GoesOn key f t) : Running k t ↔ k = key ∧ Fetch.Running f := by
  rcases h with ⟨⟨r, rfl⟩, hnone⟩ | hf
  · exact iff_of_false (not_running hnone) fun h => h.2
  · exact InFlight.running_iff hf

theorem runs_iff (ht : s.tasks[i]? = some t) : Runs s k i ↔ Running k t := by
  constructor
  · rintro ⟨t', ht', hrun⟩
    obtain rfl := Option.some.inj (ht.symm.trans ht')
    exact hrun
  · intro hrun
    exact ⟨t, ht, hrun⟩

theorem runs_setTask (htasks : s1.tasks = s.tasks) (ht : s.tasks[i]? = some t) :
    Runs (s1.setTask i t') k j ↔ (j = i ∧ Running k t') ∨ (j ≠ i ∧ Runs s k j) := by
  have hlen : i < s.tasks.length := (List.getElem?_eq_some_iff.mp ht).1
  by_cases hj : j = i
  · subst hj
    have hset : (s1.setTask j t').tasks[j]? = some t' := by
      show (s1.tasks.set j t')[j]? = some t'
      rw [htasks, List.getElem?_set_self hlen]
    rw [runs_iff hset]
    simp
  · have hset : (s1.setTask i t').tasks[j]? = s.tasks[j]? := by
      show (s1.tasks.set i t')[j]? = s.tasks[j]?
      rw [htasks, List.getElem?_set_ne (Ne.symm hj)]
    unfold Runs
    rw [hset]
    simp [hj]

theorem runs_spawn (ht : ∀ k, ¬ Running k t) : Runs (s.spawn t) k j ↔ Runs s k j := by
  constructor
  · rintro ⟨t', ht', hrun⟩
    have happend : (s.tasks ++ [t])[j]? = some t' := ht'
    by_cases hj : j < s.tasks.length
    · rw [List.getElem?_append_left hj] at happend
      exact ⟨t', happend, hrun⟩
    · rw [List.getElem?_append_right (not_lt.mp hj)] at happend
      obtain rfl : t' = t := List.mem_singleton.mp (List.mem_of_getElem? happend)
      exact absurd hrun (ht k)
  · rintro ⟨t', ht', hrun⟩
    refine ⟨t', ?_, hrun⟩
    show (s.tasks ++ [t])[j]? = some t'
    rw [List.getElem?_append_left (List.getElem?_eq_some_iff.mp ht').1]
    exact ht'

variable [DecidableEq N]

/-- A task goes on, and is in flight as before. -/
theorem effect_setTask (htasks : s1.tasks = s.tasks) (hset : s1.inFlight = s.inFlight)
    (ht : s.tasks[i]? = some t) (hrun : ∀ k, Running k t' ↔ Running k t) :
    Effect s (s1.setTask i t') none := by
  refine .same rfl hset fun k j => ?_
  rw [runs_setTask htasks ht, hrun]
  by_cases hj : j = i
  · subst hj
    rw [runs_iff ht]
    simp
  · simp [hj]

/-- A step of a task in a call is one of the call. -/
theorem taskStep_call (s : State N R) (i : ℕ) (room : Bool) (hf : Task.fetch? t = some (key, f)) :
    ∃ T : State N R × Fetch R → Task N R, (∀ p, GoesOn key p.2 (T p)) ∧
      taskStep s i room t = (fetchStep s key f).map fun p => p.1.setTask i (T p) := by
  rcases fetch?_eq_some hf with ⟨timer, n, rfl⟩ | rfl | ⟨keys, rfl⟩
  · refine ⟨_, ?_, rfl⟩
    rintro ⟨s1, f'⟩
    cases f' <;> simp [GoesOn, Task.fetch?]
  · refine ⟨_, ?_, rfl⟩
    rintro ⟨s1, f'⟩
    cases f' <;> simp [GoesOn, Task.fetch?]
  · refine ⟨_, ?_, rfl⟩
    rintro ⟨s1, f'⟩
    cases f' <;> simp [GoesOn, Task.fetch?]

/-- A call of `fetch_and_insert` goes on. -/
theorem effect_call {room : Bool} (ht : s.tasks[i]? = some t) (hf : Task.fetch? t = some (key, f))
    (h : taskStep s i room t = some s') : Effect s s' (inserts s (.task i room)) := by
  obtain ⟨T, hT, htask⟩ := taskStep_call s i room hf
  rw [htask] at h
  obtain ⟨⟨s1, f'⟩, hstep, rfl⟩ := Option.map_eq_some_iff.mp h
  have hrun : ∀ k, Running k (T (s1, f')) ↔ k = key ∧ Fetch.Running f' := fun k => (hT (s1, f')).running_iff
  simp only [inserts, ht, Option.bind_some, hf]
  rcases f with _ | _ | _ | b | r | r
  · -- the key is put in the set
    obtain ⟨rfl, rfl⟩ := Prod.mk.inj (Option.some.inj hstep)
    refine .insert key i rfl rfl (fun k => ?_) fun k j => ?_
    · rw [runs_iff ht, running_iff hf]
      exact fun h => h.2
    · refine (runs_setTask rfl ht).trans ?_
      rw [hrun]
      by_cases hj : j = i
      · subst hj
        rw [runs_iff ht, running_iff hf]
        simp [Fetch.Running]
      · simp [hj]
  · obtain ⟨rfl, rfl⟩ := Prod.mk.inj (Option.some.inj hstep)
    exact effect_setTask rfl rfl ht fun k => (hrun k).trans (running_iff hf).symm
  · cases hstep
  · obtain ⟨rfl, rfl⟩ := Prod.mk.inj (Option.some.inj hstep)
    exact effect_setTask rfl rfl ht fun k => (hrun k).trans (running_iff hf).symm
  · -- the key is taken from it
    obtain ⟨rfl, rfl⟩ := Prod.mk.inj (Option.some.inj hstep)
    refine .remove key i rfl rfl (fun k => ?_) fun k j => ?_
    · rw [runs_iff ht, running_iff hf]
      simp [Fetch.Running]
    · refine (runs_setTask rfl ht).trans ?_
      rw [hrun]
      simp [Fetch.Running, and_comm]
  · cases hstep

theorem effect_spawn {put : Option (CacheKey N)} (h : Effect s s1 put) (ht : ∀ k, ¬ Running k t) :
    Effect s (s1.spawn t) put := by
  rcases h with ⟨hput, hset, hruns⟩ | ⟨key, i, hput, hset, hi, hruns⟩ | ⟨key, i, hput, hset, hi, hruns⟩
  · exact .same hput hset fun k j => (runs_spawn ht).trans (hruns k j)
  · exact .insert key i hput hset hi fun k j => (runs_spawn ht).trans (hruns k j)
  · exact .remove key i hput hset hi fun k j => (runs_spawn ht).trans (hruns k j)

/-- A task that is not in flight goes on, and is not either. -/
theorem effect_idle (htasks : s1.tasks = s.tasks) (hset : s1.inFlight = s.inFlight)
    (ht : s.tasks[i]? = some t) (hidle : ∀ k, ¬ Running k t) (hidle' : ∀ k, ¬ Running k t') :
    Effect s (s1.setTask i t') none :=
  effect_setTask htasks hset ht fun k => iff_of_false (hidle' k) (hidle k)

/-! ### The effect of each step -/

theorem effect_getStep {timer : Timer} {n : ℕ} (ht : s.tasks[i]? = some (.query key .get timer n)) :
    Effect s (getStep s i key timer n) none := by
  have hidle : ∀ k, ¬ Running k (.query key (.get : Lookup R) timer n) := fun k => not_running rfl
  have hinsert : ∀ k, ¬ Running k (.query key (.fetch (.insert : Fetch R)) timer n) :=
    fun k => not_running_insert rfl
  unfold getStep
  rcases s.cache.get? key with _ | data
  · exact effect_idle rfl rfl ht hidle hinsert
  dsimp only
  by_cases hhard : data.hardValidUntil < s.now
  · rw [if_pos hhard]
    exact effect_idle rfl rfl ht hidle hinsert
  rw [if_neg hhard]
  have hhit : Effect s (State.setTask { s with cache := s.cache.touch key } i
      (.query key (.returned (.ok data.answer)) timer n)) none :=
    effect_idle rfl rfl ht hidle fun k => not_running rfl
  by_cases hsoft : data.validUntil < s.now
  · rw [if_pos hsoft]
    exact effect_spawn hhit fun k => not_running_insert rfl
  · rw [if_neg hsoft]
    exact hhit

theorem effect_queryStep {lookup : Lookup R} {timer : Timer} {n : ℕ} {room : Bool}
    (ht : s.tasks[i]? = some (.query key lookup timer n)) (h : queryStep s i key timer n room lookup = some s') :
    Effect s s' (inserts s (.task i room)) := by
  rcases lookup with _ | u | _ | f | r | r | _
  case fetch => exact effect_call ht rfl h
  all_goals simp only [inserts, ht, Option.bind_some]
  · obtain rfl := Option.some.inj h
    refine effect_idle rfl rfl ht (fun k => not_running rfl) fun k => ?_
    by_cases hk : key ∈ s.inFlight
    · rw [if_pos hk]
      exact not_running rfl
    · rw [if_neg hk]
      exact not_running rfl
  · simp only [queryStep, Option.ite_none_right_eq_some, Option.some.injEq] at h
    obtain ⟨-, rfl⟩ := h
    exact effect_idle rfl rfl ht (fun k => not_running rfl) fun k => not_running rfl
  · obtain rfl := Option.some.inj h
    exact effect_getStep ht
  · obtain rfl := Option.some.inj h
    exact effect_idle rfl rfl ht (fun k => not_running rfl) fun k => not_running rfl
  · simp only [queryStep, Option.ite_none_right_eq_some, Option.some.injEq] at h
    obtain ⟨-, rfl⟩ := h
    show Effect s (State.setTask { s with log := s.log ++ _ } i (.query key .done timer (n + 1))) none
    exact effect_idle rfl rfl ht (fun k => not_running rfl) fun k => not_running rfl
  · cases h

theorem effect_updaterStep {room : Bool} {u : Updater N R} (ht : s.tasks[i]? = some (.updater u))
    (h : updaterStep s i u = some s') : Effect s s' (inserts s (.task i room)) := by
  rcases u with u | (_ | ⟨key, keys⟩) | ⟨key, f, keys⟩
  case fetching => exact effect_call ht rfl h
  all_goals simp only [inserts, ht, Option.bind_some]
  · simp only [updaterStep, Option.ite_none_right_eq_some, Option.some.injEq] at h
    obtain ⟨-, rfl⟩ := h
    exact effect_idle rfl rfl ht (fun k => not_running rfl) fun k => not_running rfl
  · obtain rfl := Option.some.inj h
    exact effect_idle rfl rfl ht (fun k => not_running rfl) fun k => not_running rfl
  · obtain rfl := Option.some.inj h
    exact effect_idle rfl rfl ht (fun k => not_running rfl) fun k => not_running_insert rfl

theorem effect_timerStep {lookup : Lookup R} {timer : Timer} {n : ℕ} {room : Bool}
    (ht : s.tasks[i]? = some (.query key lookup timer n)) (h : timerStep s i key lookup n room timer = some s') :
    Effect s s' none := by
  obtain ⟨timer', n', rfl⟩ := timerStep_eq h
  have hfetch : Task.fetch? (.query key lookup timer' n') = Task.fetch? (.query key lookup timer n) := by
    rcases lookup with _ | u | _ | f | r | r | _ <;> rfl
  refine effect_setTask rfl rfl ht fun k => ?_
  unfold Running
  rw [hfetch]

theorem running_replied (new : Bool) (clock : ℕ) (r : Reply R) : Fetch.Running (Fetch.replied new clock r) := by
  rcases r with _ | _ | m
  · exact trivial
  · exact trivial
  · simp only [Fetch.replied]
    by_cases hput : m.responseCode ≠ servFail ∨ new
    · rw [if_pos hput]
      exact trivial
    · rw [if_neg hput]
      exact trivial

theorem effect_reply {clock : ℕ} {r : Reply R} (ht : s.tasks[i]? = some t) (hr : t.replied clock r = some t') :
    Effect s (s.setTask i t') none := by
  -- the call waits, and then has a reply to handle
  obtain ⟨key, f', hf, hf', hrun⟩ : ∃ key f', Task.fetch? t = some (key, .waiting) ∧
      Task.fetch? t' = some (key, f') ∧ Fetch.Running f' := by
    unfold Task.replied at hr
    split at hr
    · obtain rfl := Option.some.inj hr
      exact ⟨_, _, rfl, rfl, running_replied _ _ _⟩
    · obtain rfl := Option.some.inj hr
      exact ⟨_, _, rfl, rfl, running_replied _ _ _⟩
    · obtain rfl := Option.some.inj hr
      exact ⟨_, _, rfl, rfl, running_replied _ _ _⟩
    · cases hr
  refine effect_setTask rfl rfl ht fun k => ?_
  rw [running_iff hf, running_iff hf']
  exact and_congr_right fun _ => iff_of_true hrun trivial

theorem effect_deliverStep {nameOf : Text → Option N} (h : deliverStep nameOf s = some s') : Effect s s' none := by
  obtain ⟨m, sent, queue, -, rfl | ⟨keys, rfl⟩⟩ := deliverStep_eq h
  · exact .same rfl rfl fun k j => Iff.rfl
  · exact effect_spawn (.same rfl rfl fun k j => Iff.rfl) fun k => not_running rfl

theorem effect_act {nameOf : Text → Option N} {c : Choice N R} (h : act nameOf s c = some s') :
    Effect s s' (inserts s c) := by
  rcases c with key | ⟨i, room⟩ | ⟨i, room⟩ | ⟨i, r⟩ | ms | m | _
  · obtain rfl := Option.some.inj h
    exact effect_spawn (.same rfl rfl fun k j => Iff.rfl) fun k => not_running rfl
  · obtain ⟨t, ht, h⟩ := Option.bind_eq_some_iff.mp h
    rcases t with ⟨key, lookup, timer, n⟩ | ⟨key, f⟩ | u | ⟨sent, keys, rest⟩ | _
    · exact effect_queryStep ht h
    · exact effect_call ht rfl h
    · exact effect_updaterStep ht h
    · simp only [inserts, ht, Option.bind_some]
      obtain rfl := Option.some.inj h
      rcases rest with _ | ⟨key, rest⟩
      · show Effect s (State.setTask { s with log := s.log ++ _ } i .done) none
        exact effect_idle rfl rfl ht (fun k => not_running rfl) fun k => not_running rfl
      · show Effect s (State.setTask { s with
          cache := s.cache.pop key
          popped := s.popped ++ [(key, sent)] } i (.flush sent keys rest)) none
        exact effect_idle rfl rfl ht (fun k => not_running rfl) fun k => not_running rfl
    · cases h
  · obtain ⟨key, lookup, timer, n, ht, h⟩ := act_timer h
    exact effect_timerStep ht h
  · obtain ⟨t, ht, h⟩ := Option.bind_eq_some_iff.mp h
    obtain ⟨t', hr, rfl⟩ := Option.map_eq_some_iff.mp h
    exact effect_reply ht hr
  · obtain rfl := Option.some.inj h
    exact .same rfl rfl fun k j => Iff.rfl
  · obtain rfl := Option.some.inj h
    exact .same rfl rfl fun k j => Iff.rfl
  · exact effect_deliverStep h

theorem effect_step {nameOf : Text → Option N} {c : Choice N R} (h : step nameOf s c = some s') :
    Effect s s' (inserts s c) := by
  obtain ⟨s1, hact, rfl⟩ := Option.map_eq_some_iff.mp h
  rcases effect_act hact with ⟨hput, hset, hruns⟩ | ⟨key, i, hput, hset, hi, hruns⟩ | ⟨key, i, hput, hset, hi, hruns⟩
  · exact .same hput hset hruns
  · exact .insert key i hput hset hi hruns
  · exact .remove key i hput hset hi hruns

end

/-! ### Runs -/

theorem Exclusive.singleFlight {s : State N R} (h : Exclusive s) : SingleFlight s := by
  rintro k i j ⟨t, ht, hf⟩ ⟨t', ht', hf'⟩
  exact h k i j ⟨t, ht, .waiting, hf, trivial⟩ ⟨t', ht', .waiting, hf', trivial⟩

section
variable [DecidableEq N] {s s' : State N R} {nameOf : Text → Option N}

theorem held_step {c : Choice N R} (hH : Held s) (h : step nameOf s c = some s') : Held s' := by
  intro k hk
  rcases effect_step h with ⟨hput, hset, hruns⟩ | ⟨key, i, hput, hset, hi, hruns⟩ | ⟨key, i, hput, hset, hi, hruns⟩
  · rw [hset] at hk
    obtain ⟨j, hj⟩ := hH k hk
    exact ⟨j, (hruns k j).mpr hj⟩
  · rw [hset, Finset.mem_insert] at hk
    rcases hk with rfl | hk
    · exact ⟨i, (hruns k i).mpr (Or.inr ⟨rfl, rfl⟩)⟩
    · obtain ⟨j, hj⟩ := hH k hk
      exact ⟨j, (hruns k j).mpr (Or.inl hj)⟩
  · -- the call that ends is one for another key
    rw [hset, Finset.mem_erase] at hk
    obtain ⟨hne, hk⟩ := hk
    obtain ⟨j, hj⟩ := hH k hk
    refine ⟨j, (hruns k j).mpr ⟨hj, ?_⟩⟩
    rintro rfl
    exact hne ((hi k).mp hj)

theorem tracked_step {c : Choice N R} (hJ : Tracked s) (hP : Exclusive s) (h : step nameOf s c = some s') :
    Tracked s' := by
  intro k
  refine ⟨held_step (fun k hk => (hJ k).mp hk) h k, ?_⟩
  rcases effect_step h with ⟨hput, hset, hruns⟩ | ⟨key, i, hput, hset, hi, hruns⟩ | ⟨key, i, hput, hset, hi, hruns⟩
  · simp only [hset, hruns]
    exact (hJ k).mpr
  · rw [hset, Finset.mem_insert, hJ k]
    simp only [hruns]
    rintro ⟨j, hj | ⟨hk, -⟩⟩
    · exact Or.inr ⟨j, hj⟩
    · exact Or.inl hk
  · rw [hset, Finset.mem_erase, hJ k]
    simp only [hruns]
    rintro ⟨j, hj, hne⟩
    refine ⟨?_, j, hj⟩
    rintro rfl
    exact hne (hP k j i hj ((hi k).mpr rfl))

theorem exclusive_step {c : Choice N R} (hJ : Tracked s) (hP : Exclusive s) (h : step nameOf s c = some s') :
    Exclusive s' ↔ Absent s c := by
  unfold Absent
  rcases effect_step h with ⟨hput, hset, hruns⟩ | ⟨key, i, hput, hset, hi, hruns⟩ | ⟨key, i, hput, hset, hi, hruns⟩
  · refine iff_of_true (fun k i j hi hj => ?_) fun key hkey => ?_
    · exact hP k i j ((hruns k i).mp hi) ((hruns k j).mp hj)
    · cases hput.symm.trans hkey
  · rw [hput]
    constructor
    · intro hP' key' heq hmem
      obtain rfl : key = key' := Option.some.inj heq
      -- two calls are in flight: the one for which the key is in the set, and the new one
      obtain ⟨j, hj⟩ := (hJ key).mp hmem
      have hji : j = i := hP' key j i ((hruns key j).mpr (Or.inl hj)) ((hruns key i).mpr (Or.inr ⟨rfl, rfl⟩))
      rw [hji] at hj
      exact hi key hj
    · intro habsent k j₁ j₂ h₁ h₂
      have hnone : ∀ j, ¬ Runs s key j := fun j hj => habsent key rfl ((hJ key).mpr ⟨j, hj⟩)
      rcases (hruns k j₁).mp h₁ with h₁ | ⟨rfl, rfl⟩
      · rcases (hruns k j₂).mp h₂ with h₂ | ⟨rfl, rfl⟩
        · exact hP k j₁ j₂ h₁ h₂
        · exact absurd h₁ (hnone j₁)
      · rcases (hruns k j₂).mp h₂ with h₂ | ⟨-, rfl⟩
        · exact absurd h₂ (hnone j₂)
        · rfl
  · refine iff_of_true (fun k i j hi hj => ?_) fun key hkey => ?_
    · exact hP k i j ((hruns k i).mp hi).1 ((hruns k j).mp hj).1
    · cases hput.symm.trans hkey

theorem not_runs_initial (cap : ℕ) (k : CacheKey N) (i : ℕ) : ¬ Runs (initial N R cap) k i := by
  rintro ⟨t, ht, hrun⟩
  obtain rfl := List.mem_singleton.mp (List.mem_of_getElem? ht)
  exact not_running rfl hrun

/-- **There are never two calls for one key in flight**, in a run, if and only if every call finds that
its key is not in the set when it puts it there. -/
theorem exclusive_iff (cap : ℕ) (cs : List (Choice N R)) :
    Always (step nameOf) Exclusive (initial N R cap) cs ↔ Along (step nameOf) Absent (initial N R cap) cs := by
  refine always_iff_along (J := Tracked) (fun _ _ _ hJ hP _ h => tracked_step hJ hP h)
    (fun _ _ _ hJ hP h => exclusive_step hJ hP h) (fun k => ?_) (fun k i j hi => ?_) cs
  · refine iff_of_false (Finset.notMem_empty k) ?_
    rintro ⟨i, hi⟩
    exact not_runs_initial cap k i hi
  · exact absurd hi (not_runs_initial cap k i)

/-- **In every run** in which every call finds that its key is not in the set when it puts it there, at
most one upstream fetch of a key is in progress. -/
theorem singleFlight_of_along {cap : ℕ} {cs : List (Choice N R)}
    (h : Along (step nameOf) Absent (initial N R cap) cs) :
    Always (step nameOf) SingleFlight (initial N R cap) cs :=
  ((exclusive_iff cap cs).mpr h).mono fun _ hs => hs.singleFlight

end

/-! ### The end of a call -/

section
variable {s s1 : State N R} {k : CacheKey N} {i : ℕ} {t : Task N R} {f f' : Fetch R}

/-- The task is in a call for the key, there. -/
def CallAt (s : State N R) (k : CacheKey N) (i : ℕ) (f : Fetch R) : Prop :=
  ∃ t, s.tasks[i]? = some t ∧ Task.fetch? t = some (k, f)

variable [DecidableEq N] (nameOf : Text → Option N)

/-- A call that can go on does when its task takes a step. -/
theorem call_step (h : CallAt s k i f) (hstep : fetchStep s k f = some (s1, f')) :
    ∃ s', step nameOf s (.task i true) = some s' ∧ s'.inFlight = s1.inFlight ∧
      ((∃ r, f' = .done r) ∨ CallAt s' k i f') := by
  obtain ⟨t, ht, hf⟩ := h
  have hlen : i < s1.tasks.length := by
    rw [fetchStep_tasks hstep]
    exact (List.getElem?_eq_some_iff.mp ht).1
  obtain ⟨T, hT, htask⟩ := taskStep_call s i true hf
  have hact : act nameOf s (.task i true) = some (s1.setTask i (T (s1, f'))) := by
    show (s.tasks[i]?).bind (taskStep s i true) = _
    rw [ht, Option.bind_some, htask, hstep]
    rfl
  refine ⟨_, congrArg (Option.map _) hact, rfl, (hT (s1, f')).imp And.left fun hf' => ?_⟩
  exact ⟨T (s1, f'), List.getElem?_set_self hlen, hf'⟩

/-- A call that waits gets the reply. -/
theorem call_reply (h : CallAt s k i .waiting) (r : Reply R) :
    ∃ s' new, step nameOf s (.reply i r) = some s' ∧ CallAt s' k i (.replied new s.clock r) := by
  obtain ⟨t, ht, hf⟩ := h
  have hlen := (List.getElem?_eq_some_iff.mp ht).1
  obtain ⟨t', new, hact, ht'⟩ : ∃ t' new, t.replied s.clock r = some t' ∧
      Task.fetch? t' = some (k, .replied new s.clock r) := by
    rcases fetch?_eq_some hf with ⟨timer, n, rfl⟩ | rfl | ⟨keys, rfl⟩
    · exact ⟨_, true, rfl, rfl⟩
    · exact ⟨_, false, rfl, rfl⟩
    · exact ⟨_, false, rfl, rfl⟩
  have hstep : act nameOf s (.reply i r) = some (s.setTask i t') := by
    show (s.tasks[i]?).bind _ = _
    rw [ht, Option.bind_some, hact]
    rfl
  exact ⟨_, new, congrArg (Option.map _) hstep, t', List.getElem?_set_self hlen, ht'⟩

variable {nameOf} {r : Reply R}

theorem ReleasesOn.cons {s s' : State N R} {c : Choice N R} (hc : c = .task i true ∨ c = .reply i r)
    (hs : step nameOf s c = some s') (h : ReleasesOn nameOf r k i s') : ReleasesOn nameOf r k i s := by
  obtain ⟨cs, t, hcs, ht, hk⟩ := h
  exact ⟨c :: cs, t, List.forall_mem_cons.mpr ⟨hc, hcs⟩, after_cons hs ht, hk⟩

theorem releasesOn_remove {a : Response R} (h : CallAt s k i (.remove a)) : ReleasesOn nameOf r k i s := by
  obtain ⟨s', hs, hset, -⟩ := call_step nameOf h rfl
  refine .cons (Or.inl rfl) hs ⟨[], s', fun c hc => (nomatch hc), rfl, ?_⟩
  rw [hset]
  exact Finset.notMem_erase k s.inFlight

theorem releasesOn_put {a : Answer R} (h : CallAt s k i (.put a)) : ReleasesOn nameOf r k i s := by
  obtain ⟨s', hs, -, ⟨_, hdone⟩ | hcall⟩ := call_step nameOf h rfl
  · cases hdone
  · exact .cons (Or.inl rfl) hs (releasesOn_remove hcall)

/-- All three ways out of the call end with the removal. -/
theorem releasesOn_waiting (h : CallAt s k i .waiting) : ReleasesOn nameOf r k i s := by
  obtain ⟨s', new, hs, hcall⟩ := call_reply nameOf h r
  refine .cons (Or.inr rfl) hs ?_
  rcases r with _ | _ | m
  · exact releasesOn_remove hcall
  · exact releasesOn_remove hcall
  · simp only [Fetch.replied] at hcall
    by_cases hput : m.responseCode ≠ servFail ∨ new
    · rw [if_pos hput] at hcall
      exact releasesOn_put hcall
    · rw [if_neg hput] at hcall
      exact releasesOn_remove hcall

/-- **A call in flight** takes its key from the set. -/
theorem releasesOn_of_runs (h : Runs s k i) : ReleasesOn nameOf r k i s := by
  obtain ⟨t, ht, f, hf, hrun⟩ := h
  have hcall : CallAt s k i f := ⟨t, ht, hf⟩
  rcases f with _ | _ | _ | a | a | a
  case insert => cases hrun
  case done => cases hrun
  case remove => exact releasesOn_remove hcall
  case put => exact releasesOn_put hcall
  case waiting => exact releasesOn_waiting hcall
  case request =>
    obtain ⟨s', hs, -, ⟨_, hdone⟩ | hwait⟩ := call_step nameOf hcall rfl
    · cases hdone
    · exact .cons (Or.inl rfl) hs (releasesOn_waiting hwait)

end

/-- **No mark leaks**: in every state of every run a call is in flight for each key of the set, and its task takes the
key from the set whatever the upstream replies. -/
theorem marks_released [DecidableEq N] (nameOf : Text → Option N) (cap : ℕ) (cs : List (Choice N R)) :
    Always (step nameOf) (fun s => ∀ k ∈ s.inFlight, ∃ i, Runs s k i ∧ ∀ r, ReleasesOn nameOf r k i s)
      (initial N R cap) cs := by
  have hheld : Always (step nameOf) Held (initial N R cap) cs :=
    always_of_step (fun _ _ _ hH h => held_step hH h) (fun k hk => absurd hk (Finset.notMem_empty k)) cs
  refine hheld.mono fun s hH k hk => ?_
  obtain ⟨i, hi⟩ := hH k hk
  exact ⟨i, hi, fun r => releasesOn_of_runs hi⟩

/-! ### Two lookups of one key -/

private def aName : CacheKey Text := ⟨['a'], 1, 1, false⟩

/-- A lookup waits half a second because the other is in flight. -/
theorem singleFlight_of_along_example : Always (step some) SingleFlight (initial Text Unit 10)
    ([Choice.query aName, .query aName] ++ List.replicate 4 (Choice.task 1 true) ++ [Choice.task 2 true, .reply 1 .failed] ++
      List.replicate 3 (Choice.task 1 true) ++ [Choice.tick 500] ++ List.replicate 5 (Choice.task 2 true)) := by
  refine singleFlight_of_along ?_
  decide

/-- Both lookups test the set before one of them puts the key there. -/
theorem not_singleFlight : ¬ ∀ cs, Always (step some) SingleFlight (initial Text Unit 10) cs := by
  intro h
  have hrun := (h ([Choice.query aName, .query aName, .task 1 true, .task 2 true] ++
    List.replicate 3 (Choice.task 1 true) ++ List.replicate 3 (Choice.task 2 true))).after rfl
  have hsame : 1 = 2 := hrun aName 1 2 ⟨_, rfl, rfl⟩ ⟨_, rfl, rfl⟩
  exact absurd hsame (by decide)

end HexDns.Cache.InFlight
