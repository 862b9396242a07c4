import HexDns.Cache.Server
import HexDns.Lib.Runs

/-! # The timeout of a query

The timeout of a query answers on its own after five seconds, and is aborted when the lookup has
returned. The abort comes too late if the timeout has already sent its response, or is about to: then
the query gets two. `Early` says of a step that it aborts no such timeout. -/

namespace HexDns.Cache.Timeouts

open HexDns.Lib.Lru HexDns.Lib.Texts HexDns.Lib.Runs HexDns.Cache.Server

variable {N R : Type}

/-! ### The statement -/

/-- **One answer per query**: no query has got two responses. -/
def OneResponse (s : State N R) : Prop :=
  ∀ key lookup timer n, .query key lookup timer n ∈ s.tasks → n ≤ 1

/-- The timeout has sent its response, or runs to send it. -/
def Timer.Fired : Timer → Prop
  | .running _ => True
  | .done => True
  | _ => False

instance (timer : Timer) : Decidable (Timer.Fired timer) :=
  match timer with
  | .running _ => isTrue trivial
  | .done => isTrue trivial
  | .spawned => isFalse id
  | .sleeping _ => isFalse id
  | .blocked => isFalse id
  | .cancelled => isFalse id

/-- The timeout that a step aborts. -/
def aborts (s : State N R) : Choice N R → Option Timer
  | .task i _ =>
    match s.tasks[i]? with
    | some (.query _ (.returned _) timer _) => some timer
    | _ => none
  | _ => none

/-- The timeout that a step aborts, if it aborts one, has not fired. -/
def Early (s : State N R) (c : Choice N R) : Prop := ∀ timer ∈ aborts s c, ¬ Timer.Fired timer

instance (s : State N R) (c : Choice N R) : Decidable (Early s c) :=
  inferInstanceAs (Decidable (∀ timer ∈ aborts s c, ¬ Timer.Fired timer))

/-! ### The invariant of a query -/

/-- The timeout is still to be aborted. -/
def Lookup.Before : Lookup R → Prop
  | .responding _ => False
  | .done => False
  | _ => True

/-- How many responses there are, by how far the lookup and the timeout are. -/
def Counted : Task N R → Prop
  | .query _ (.responding _) timer n => timer = .cancelled ∧ n = 0
  | .query _ .done timer n => timer = .cancelled ∧ n = 1
  | .query _ _ timer n => n = if timer = .done then 1 else 0
  | _ => True

section
variable {s s1 s' : State N R} {key : CacheKey N} {lookup : Lookup R} {timer : Timer} {n i : ℕ}
  {t t' : Task N R}

theorem counted_before (h : Lookup.Before lookup) :
    Counted (.query key lookup timer n) ↔ n = if timer = .done then 1 else 0 := by
  rcases lookup with _ | u | _ | f | r | r | _
  · exact Iff.rfl
  · exact Iff.rfl
  · exact Iff.rfl
  · exact Iff.rfl
  · exact Iff.rfl
  · exact h.elim
  · exact h.elim

theorem le_one_of_counted (h : Counted (.query key lookup timer n)) : n ≤ 1 := by
  rcases lookup with _ | u | _ | f | r | r | _
  case responding => exact h.2.trans_le (by omega)
  case done => exact h.2.le
  all_goals
    rw [show n = if timer = .done then 1 else 0 from h]
    split <;> omega

theorem counted_setTask (htasks : s1.tasks = s.tasks) (h : ∀ t ∈ s.tasks, Counted t) (ht : Counted t') :
    ∀ t ∈ (s1.setTask i t').tasks, Counted t := by
  intro t hmem
  rcases List.mem_or_eq_of_mem_set hmem with hmem | rfl
  · rw [htasks] at hmem
    exact h t hmem
  · exact ht

theorem counted_spawn (h : ∀ t ∈ s.tasks, Counted t) (ht : Counted t') : ∀ t ∈ (s.spawn t').tasks, Counted t := by
  intro t hmem
  rcases List.mem_append.mp hmem with hmem | hmem
  · exact h t hmem
  · rw [List.mem_singleton.mp hmem]
    exact ht

/-- A step of a timeout. -/
theorem counted_timerStep {room : Bool} (h : ∀ t ∈ s.tasks, Counted t) (ht : .query key lookup timer n ∈ s.tasks)
    (hstep : timerStep s i key lookup n room timer = some s') : ∀ t ∈ s'.tasks, Counted t := by
  have hcount := h _ ht
  by_cases hbefore : Lookup.Before lookup
  · rw [counted_before hbefore] at hcount
    have hset : ∀ timer' n', (n' = if timer' = .done then 1 else 0) →
        ∀ t ∈ (s.setTask i (.query key lookup timer' n')).tasks, Counted t := fun timer' n' hn =>
      counted_setTask rfl h ((counted_before hbefore).mpr hn)
    rcases timer with _ | u | aborted | _ | _ | _
    · obtain rfl := Option.some.inj hstep
      exact hset _ _ hcount
    · simp only [timerStep, Option.ite_none_right_eq_some, Option.some.injEq] at hstep
      obtain ⟨-, rfl⟩ := hstep
      exact hset _ _ hcount
    · have hn : n = 0 := hcount
      rcases room with _ | _
      · obtain rfl := Option.some.inj hstep
        refine hset _ _ ?_
        rcases aborted with _ | _
        · exact hn
        · exact hn
      · obtain rfl := Option.some.inj hstep
        refine hset _ _ ?_
        rw [hn]
        rfl
    · simp only [timerStep, Option.ite_none_right_eq_some, Option.some.injEq] at hstep
      obtain ⟨-, rfl⟩ := hstep
      exact hset _ _ hcount
    · cases hstep
    · cases hstep
  · -- the timeout was cancelled
    have hcancelled : timer = .cancelled := by
      rcases lookup with _ | u | _ | f | r | r | _
      case responding => exact hcount.1
      case done => exact hcount.1
      all_goals exact absurd trivial hbefore
    rw [hcancelled] at hstep
    cases hstep

variable [DecidableEq N]

/-- A step of a query. -/
theorem counted_queryStep {room : Bool} (h : ∀ t ∈ s.tasks, Counted t) (ht : .query key lookup timer n ∈ s.tasks)
    (hearly : ∀ r, lookup = .returned r → ¬ Timer.Fired timer)
    (hstep : queryStep s i key timer n room lookup = some s') : ∀ t ∈ s'.tasks, Counted t := by
  have hcount := h _ ht
  have hbefore : ∀ {s1 : State N R} lookup', s1.tasks = s.tasks → Lookup.Before lookup → Lookup.Before lookup' →
      ∀ t ∈ (s1.setTask i (.query key lookup' timer n)).tasks, Counted t := by
    intro s1 lookup' htasks hold hnew
    rw [counted_before hold] at hcount
    exact counted_setTask htasks h ((counted_before hnew).mpr hcount)
  rcases lookup with _ | u | _ | f | r | r | _
  · obtain rfl := Option.some.inj hstep
    refine hbefore _ rfl trivial ?_
    by_cases hk : key ∈ s.inFlight
    · rw [if_pos hk]
      exact trivial
    · rw [if_neg hk]
      exact trivial
  · simp only [queryStep, Option.ite_none_right_eq_some, Option.some.injEq] at hstep
    obtain ⟨-, rfl⟩ := hstep
    exact hbefore _ rfl trivial trivial
  · obtain rfl := Option.some.inj hstep
    unfold getStep
    rcases s.cache.get? key with _ | data
    · exact hbefore _ rfl trivial trivial
    dsimp only
    by_cases hhard : data.hardValidUntil < s.now
    · rw [if_pos hhard]
      exact hbefore _ rfl trivial trivial
    rw [if_neg hhard]
    by_cases hsoft : data.validUntil < s.now
    · rw [if_pos hsoft]
      exact counted_spawn (hbefore _ rfl trivial trivial) trivial
    · rw [if_neg hsoft]
      exact hbefore _ rfl trivial trivial
  · obtain ⟨⟨s1, f'⟩, hfetch, rfl⟩ := Option.map_eq_some_iff.mp hstep
    refine hbefore _ (fetchStep_tasks hfetch) trivial ?_
    rcases f' with _ | _ | _ | b | r | r <;> exact trivial
  · -- the abort
    obtain rfl := Option.some.inj hstep
    have hfired := hearly r rfl
    refine counted_setTask rfl h ?_
    rcases timer with _ | u | aborted | _ | _ | _
    case running => exact absurd trivial hfired
    case done => exact absurd trivial hfired
    all_goals exact ⟨rfl, hcount⟩
  · simp only [queryStep, Option.ite_none_right_eq_some, Option.some.injEq] at hstep
    obtain ⟨-, rfl⟩ := hstep
    obtain ⟨htimer, hn⟩ : timer = .cancelled ∧ n = 0 := hcount
    have hdone : Counted (.query key (.done : Lookup R) timer (n + 1)) := ⟨htimer, by rw [hn]⟩
    exact counted_setTask rfl h hdone
  · cases hstep

theorem counted_step {nameOf : Text → Option N} (c : Choice N R) (h : ∀ t ∈ s.tasks, Counted t) (hearly : Early s c)
    (hstep : step nameOf s c = some s') : ∀ t ∈ s'.tasks, Counted t := by
  obtain ⟨s1, hact, rfl⟩ := Option.map_eq_some_iff.mp hstep
  show ∀ t ∈ s1.tasks, Counted t
  rcases c with key | ⟨i, room⟩ | ⟨i, room⟩ | ⟨i, r⟩ | ms | m | _
  · obtain rfl := Option.some.inj hact
    exact counted_spawn h rfl
  · obtain ⟨t, ht, hact⟩ := Option.bind_eq_some_iff.mp hact
    have hmem : t ∈ s.tasks := List.mem_of_getElem? ht
    rcases t with ⟨key, lookup, timer, n⟩ | ⟨key, f⟩ | u | ⟨sent, keys, rest⟩ | _
    · refine counted_queryStep h hmem (fun r hr => hearly timer ?_) hact
      simp [aborts, ht, hr]
    · obtain ⟨⟨s2, f'⟩, hfetch, rfl⟩ := Option.map_eq_some_iff.mp hact
      refine counted_setTask (fetchStep_tasks hfetch) h ?_
      rcases f' with _ | _ | _ | b | r | r <;> exact trivial
    · rcases u with u | (_ | ⟨key, keys⟩) | ⟨key, f, keys⟩
      · simp only [taskStep, updaterStep, Option.ite_none_right_eq_some, Option.some.injEq] at hact
        obtain ⟨-, rfl⟩ := hact
        exact counted_setTask rfl h trivial
      · obtain rfl := Option.some.inj hact
        exact counted_setTask rfl h trivial
      · obtain rfl := Option.some.inj hact
        exact counted_setTask rfl h trivial
      · obtain ⟨⟨s2, f'⟩, hfetch, rfl⟩ := Option.map_eq_some_iff.mp hact
        exact counted_setTask (fetchStep_tasks hfetch) h trivial
    · obtain rfl := Option.some.inj hact
      rcases rest with _ | ⟨key, rest⟩
      · have hset : ∀ t ∈ (s.setTask i .done).tasks, Counted t := counted_setTask rfl h trivial
        exact hset
      · have hset : ∀ t ∈ (s.setTask i (.flush sent keys rest)).tasks, Counted t := counted_setTask rfl h trivial
        exact hset
    · cases hact
  · obtain ⟨key, lookup, timer, n, ht, hact⟩ := act_timer hact
    exact counted_timerStep h (List.mem_of_getElem? ht) hact
  · obtain ⟨t, ht, hact⟩ := Option.bind_eq_some_iff.mp hact
    obtain ⟨t', hr, rfl⟩ := Option.map_eq_some_iff.mp hact
    have hcount := h t (List.mem_of_getElem? ht)
    refine counted_setTask rfl h ?_
    unfold Task.replied at hr
    split at hr
    · obtain rfl := Option.some.inj hr
      exact hcount
    · obtain rfl := Option.some.inj hr
      exact trivial
    · obtain rfl := Option.some.inj hr
      exact trivial
    · cases hr
  · obtain rfl := Option.some.inj hact
    exact h
  · obtain rfl := Option.some.inj hact
    exact h
  · obtain ⟨m, sent, queue, -, rfl | ⟨keys, rfl⟩⟩ := deliverStep_eq hact
    · exact h
    · exact counted_spawn h trivial

/-- **In every run** in which no lookup returns after its timeout has fired, every query gets at most
one response. -/
theorem oneResponse_of_along {nameOf : Text → Option N} {cap : ℕ} {cs : List (Choice N R)}
    (h : Along (step nameOf) Early (initial N R cap) cs) :
    Always (step nameOf) OneResponse (initial N R cap) cs := by
  refine (always_of_along (I := fun s => ∀ t ∈ s.tasks, Counted t)
    (fun s c s' hcount hearly hstep => counted_step c hcount hearly hstep) ?_ h).mono ?_
  · intro t ht
    rw [List.mem_singleton.mp ht]
    exact trivial
  · intro s hcount key lookup timer n ht
    exact le_one_of_counted (hcount _ ht)

end

/-! ### A query that misses -/

private def missed : CacheKey Text := ⟨['a'], 1, 1, false⟩

/-- The upstream replies within five seconds. -/
theorem oneResponse_of_along_example : Always (step some) OneResponse (initial Text Unit 10)
    ([Choice.query missed, .timer 1 true] ++ List.replicate 4 (Choice.task 1 true) ++
      [Choice.tick 4999, .reply 1 (.message ⟨0, ()⟩)] ++ List.replicate 4 (Choice.task 1 true)) := by
  refine oneResponse_of_along ?_
  decide

/-- The upstream replies after five seconds. -/
theorem not_oneResponse : ¬ ∀ cs, Always (step some) OneResponse (initial Text Unit 10) cs := by
  intro h
  have hrun := (h ([Choice.query missed, .timer 1 true] ++ List.replicate 4 (Choice.task 1 true) ++
    [Choice.tick 5000, .timer 1 true, .timer 1 true, .reply 1 (.message ⟨0, ()⟩)] ++
      List.replicate 4 (Choice.task 1 true))).after rfl
  have htwo : 2 ≤ 1 := hrun missed .done .done 2 (List.mem_of_getElem? (i := 1) rfl)
  omega

end HexDns.Cache.Timeouts
