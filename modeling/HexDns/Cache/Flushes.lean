import HexDns.Cache.Server
import HexDns.Lib.Runs

/-! # What is left after a flush

An answer that the upstream gave before a flush message was sent is still used after the removal loop if
a task has it when the loop takes the key out: the task puts it in the cache afterwards, or sends it.
`Clear` says of a step that it takes out no key of which a task has such an answer, and
`final_of_along` that flushes are final in every run with such steps. -/

namespace HexDns.Cache.Flushes

open HexDns.Lib.Lru HexDns.Lib.Texts HexDns.Lib.Runs HexDns.Cache.Server

variable {N R : Type}

/-! ### The answers that tasks have -/

/-- A call of `fetch_and_insert` has the answer, and it is still to be put in the cache or, if its
result is used, to be returned. -/
def FetchHas (used : Prop) (a : Answer R) : Fetch R → Prop
  | .put b => b = a
  | .remove r => used ∧ r = .ok a
  | .done r => used ∧ r = .ok a
  | _ => False

def LookupHas (a : Answer R) : Lookup R → Prop
  | .fetch f => FetchHas True a f
  | .returned r => r = .ok a
  | .responding r => r = .ok a
  | _ => False

/-- A task has an answer for the key, and is still to put it in the cache or to send it. -/
def TaskHas (k : CacheKey N) (a : Answer R) : Task N R → Prop
  | .query key lookup _ _ => key = k ∧ LookupHas a lookup
  | .refresh key f => key = k ∧ FetchHas False a f
  | .updater (.fetching key f _) => key = k ∧ FetchHas False a f
  | _ => False

/-- A task, or the cache, has an answer for the key. -/
def Has (s : State N R) (k : CacheKey N) (a : Answer R) : Prop :=
  (∃ t ∈ s.tasks, TaskHas k a t) ∨ ∃ d, (k, d) ∈ s.cache.entries ∧ d.answer = a

/-! ### The statement -/

/-- **Flushes are final**: a response after the end of the removal loop is not built from an answer that
the upstream gave before the message was sent, unless the key was dropped or a newer answer was put in
the cache in between. -/
def Final (s : State N R) : Prop :=
  ∀ pre mid post k sent a, s.log = pre ++ Event.flushed k sent :: mid ++ Event.response k a :: post →
    .evict k ∉ mid → (∀ b, .put k b ∈ mid → b.produced < sent) → sent ≤ a.produced

/-- The key that a step takes out, with the clock of the flush message. -/
def takesOut (s : State N R) : Choice N R → Option (CacheKey N × ℕ)
  | .task i _ =>
    match s.tasks[i]? with
    | some (.flush sent _ (key :: _)) => some (key, sent)
    | _ => none
  | _ => none

/-- No task has an older answer for the key that the step takes out. -/
def Clear (s : State N R) (c : Choice N R) : Prop :=
  ∀ k sent, takesOut s c = some (k, sent) → ∀ t ∈ s.tasks, ∀ a, TaskHas k a t → sent ≤ a.produced

/-! ### What a step does -/

/-- What a step does to the answers, the flushes and the log. -/
structure Effect (s s' : State N R) (taken : Option (CacheKey N × ℕ)) : Prop where
  has : ∀ k a, Has s' k a → Has s k a ∨ s.clock ≤ a.produced
  gone : ∀ k sent, taken = some (k, sent) → ∀ a, Has s' k a → ∃ t ∈ s.tasks, TaskHas k a t
  sent : ∀ k sent, taken = some (k, sent) → ∃ keys rest, .flush sent keys (k :: rest) ∈ s.tasks
  popped : s'.popped = s.popped ++ taken.toList
  flushes : ∀ sent keys rest, .flush sent keys rest ∈ s'.tasks →
    .flush sent keys rest ∈ s.tasks ∨
    (∃ k, .flush sent keys (k :: rest) ∈ s.tasks ∧ taken = some (k, sent)) ∨
    ((∃ m, (m, sent) ∈ s.queue) ∧ rest = keys)
  queue : ∀ m sent, (m, sent) ∈ s'.queue → (m, sent) ∈ s.queue ∨ sent = s.clock
  log : ∃ events, s'.log = s.log ++ events ∧
    (∀ k a, .response k a ∈ events → Has s k a) ∧
    ∀ k sent, .flushed k sent ∈ events → ∃ keys, .flush sent keys [] ∈ s.tasks ∧ k ∈ keys

section
variable {s s' : State N R} {k key : CacheKey N} {a : Answer R} {i : ℕ} {t t' : Task N R}

theorem has_of_task (ht : t ∈ s.tasks) (h : TaskHas k a t) : Has s k a := Or.inl ⟨t, ht, h⟩

/-- Nothing is logged. -/
theorem no_events {s1 : State N R} (h : s1.log = s.log) : ∃ events, s1.log = s.log ++ events ∧
    (∀ k a, .response k a ∈ events → Has s k a) ∧ ∀ k sent, .flushed k sent ∉ events :=
  ⟨[], by rw [h, List.append_nil], fun _ _ h => (nomatch h), fun _ _ h => (nomatch h)⟩

theorem mem_setTask (h : t ∈ (s.setTask i t').tasks) : t = t' ∨ t ∈ s.tasks :=
  (List.mem_or_eq_of_mem_set h).symm

theorem has_setTask (h : Has (s.setTask i t') k a) : Has s k a ∨ TaskHas k a t' := by
  rcases h with ⟨t, ht, hk⟩ | h
  · rcases mem_setTask ht with rfl | ht
    · exact Or.inr hk
    · exact Or.inl (has_of_task ht hk)
  · exact Or.inl (Or.inr h)

/-- One task goes on, and nothing is flushed. -/
theorem effect_setTask {s1 : State N R} (htasks : s1.tasks = s.tasks) (hpopped : s1.popped = s.popped)
    (hqueue : s1.queue = s.queue) (hcache : ∀ k a, (∃ d, (k, d) ∈ s1.cache.entries ∧ d.answer = a) → Has s k a)
    (hhas : ∀ k a, TaskHas k a t' → Has s k a ∨ s.clock ≤ a.produced)
    (hflush : ∀ sent keys rest, t' ≠ .flush sent keys rest)
    (hlog : ∃ events, s1.log = s.log ++ events ∧ (∀ k a, .response k a ∈ events → Has s k a) ∧
      ∀ k sent, .flushed k sent ∉ events) :
    Effect s (s1.setTask i t') none := by
  refine ⟨fun k a h => ?_, nofun, nofun, ?_, fun sent keys rest h => ?_, fun m sent h => ?_, ?_⟩
  · rcases has_setTask h with (⟨t, ht, hk⟩ | hd) | h
    · rw [htasks] at ht
      exact Or.inl (has_of_task ht hk)
    · exact Or.inl (hcache k a hd)
    · exact hhas k a h
  · show s1.popped = s.popped ++ []
    rw [hpopped, List.append_nil]
  · rcases mem_setTask h with h | h
    · exact absurd h.symm (hflush sent keys rest)
    · rw [htasks] at h
      exact Or.inl h
  · rw [← hqueue]
    exact Or.inl h
  · obtain ⟨events, hevents, hresponse, hflushed⟩ := hlog
    exact ⟨events, hevents, hresponse, fun k sent h => absurd h (hflushed k sent)⟩

/-- The task has only answers that it had. -/
theorem effect_continue (ht : t ∈ s.tasks) (hhas : ∀ k a, TaskHas k a t' → TaskHas k a t)
    (hflush : ∀ sent keys rest, t' ≠ .flush sent keys rest) : Effect s (s.setTask i t') none :=
  effect_setTask rfl rfl rfl (fun _ _ h => Or.inr h) (fun k a h => Or.inl (has_of_task ht (hhas k a h)))
    hflush (no_events rfl)

/-- A task without answers is spawned. -/
theorem Effect.spawn {s1 : State N R} (h : Effect s s1 none) (hhas : ∀ k a, ¬ TaskHas k a t')
    (hflush : ∀ sent keys rest, t' ≠ .flush sent keys rest) : Effect s (s1.spawn t') none := by
  refine ⟨fun k a hk => ?_, nofun, nofun, h.popped, fun sent keys rest hf => ?_, h.queue, h.log⟩
  · rcases hk with ⟨t, ht, hk⟩ | hk
    · rcases List.mem_append.mp ht with ht | ht
      · exact h.has k a (has_of_task ht hk)
      · rw [List.mem_singleton.mp ht] at hk
        exact absurd hk (hhas k a)
    · exact h.has k a (Or.inr hk)
  · rcases List.mem_append.mp hf with hf | hf
    · exact h.flushes sent keys rest hf
    · exact absurd (List.mem_singleton.mp hf).symm (hflush sent keys rest)

/-- The tasks, the cache and the log are as before. -/
theorem effect_outside {s1 : State N R} (htasks : s1.tasks = s.tasks) (hcache : s1.cache = s.cache)
    (hpopped : s1.popped = s.popped) (hlog : s1.log = s.log)
    (hqueue : ∀ m sent, (m, sent) ∈ s1.queue → (m, sent) ∈ s.queue ∨ sent = s.clock) : Effect s s1 none := by
  refine ⟨fun k a h => ?_, nofun, nofun, ?_, fun sent keys rest h => ?_, hqueue, [], ?_, ?_, ?_⟩
  · unfold Has at h
    rw [htasks, hcache] at h
    exact Or.inl h
  · show s1.popped = s.popped ++ []
    rw [hpopped, List.append_nil]
  · rw [htasks] at h
    exact Or.inl h
  · rw [hlog, List.append_nil]
  · exact fun k a h => (nomatch h)
  · exact fun k sent h => (nomatch h)

/-! ### The effect of each step -/

theorem effect_respondStep {r : Response R} {timer : Timer} {n : ℕ}
    (ht : .query key (.responding r) timer n ∈ s.tasks) :
    Effect s (respondStep s i key r timer n) none := by
  have heffect : Effect s (s.setTask i (.query key .done timer (n + 1))) none :=
    effect_continue ht (fun k a h => h.2.elim) nofun
  refine ⟨heffect.has, heffect.gone, heffect.sent, heffect.popped, heffect.flushes, heffect.queue, _, rfl, ?_, ?_⟩
  · intro k a h
    rcases r with e | b
    · cases h
    · obtain ⟨rfl, rfl⟩ := Event.response.inj (List.mem_singleton.mp h)
      exact has_of_task ht ⟨rfl, rfl⟩
  · intro k sent h
    rcases r with e | b
    · cases h
    · cases List.mem_singleton.mp h

theorem effect_timerStep {lookup : Lookup R} {timer : Timer} {n : ℕ} {room : Bool}
    (ht : .query key lookup timer n ∈ s.tasks) (h : timerStep s i key lookup n room timer = some s') :
    Effect s s' none := by
  obtain ⟨timer', n', rfl⟩ := timerStep_eq h
  exact effect_continue ht (fun k a h => h) nofun

/-- What the upstream replies is new. -/
theorem produced_of_replied {used : Prop} {new : Bool} {clock : ℕ} {r : Reply R}
    (h : FetchHas used a (Fetch.replied new clock r)) : a.produced = clock := by
  rcases r with _ | _ | m
  · cases h.2
  · cases h.2
  · simp only [Fetch.replied] at h
    by_cases hput : m.responseCode ≠ servFail ∨ new
    · rw [if_pos hput] at h
      obtain rfl : _ = a := h
      rfl
    · rw [if_neg hput] at h
      obtain rfl := Except.ok.inj h.2
      rfl

theorem effect_reply {r : Reply R} (hr : t.replied s.clock r = some t') :
    Effect s (s.setTask i t') none := by
  have hnew : (∀ k a, TaskHas k a t' → s.clock ≤ a.produced) ∧ ∀ sent keys rest, t' ≠ .flush sent keys rest := by
    unfold Task.replied at hr
    split at hr
    · obtain rfl := Option.some.inj hr
      exact ⟨fun k a h => (produced_of_replied h.2).ge, nofun⟩
    · obtain rfl := Option.some.inj hr
      exact ⟨fun k a h => (produced_of_replied h.2).ge, nofun⟩
    · obtain rfl := Option.some.inj hr
      exact ⟨fun k a h => (produced_of_replied h.2).ge, nofun⟩
    · cases hr
  exact effect_setTask rfl rfl rfl (fun k a h => Or.inr h) (fun k a h => Or.inr (hnew.1 k a h)) hnew.2
    (no_events rfl)

variable {nameOf : Text → Option N}

theorem effect_deliverStep (h : deliverStep nameOf s = some s') : Effect s s' none := by
  obtain ⟨m, sent, queue, hq, h⟩ := deliverStep_eq h
  have hmem : (m, sent) ∈ s.queue := by
    rw [hq]
    exact List.mem_cons_self
  have hdrop : Effect s { s with queue := queue } none := by
    refine effect_outside rfl rfl rfl rfl fun m' sent' h => Or.inl ?_
    rw [hq]
    exact List.mem_cons_of_mem _ h
  rcases h with rfl | ⟨keys, rfl⟩
  · exact hdrop
  refine ⟨fun k a hk => ?_, nofun, nofun, hdrop.popped, fun at' all left hf => ?_, hdrop.queue, hdrop.log⟩
  · rcases hk with ⟨t, ht, hk⟩ | hk
    · rcases List.mem_append.mp ht with ht | ht
      · exact Or.inl (has_of_task ht hk)
      · rw [List.mem_singleton.mp ht] at hk
        exact hk.elim
    · exact Or.inl (Or.inr hk)
  · rcases List.mem_append.mp hf with hf | hf
    · exact Or.inl hf
    · obtain ⟨rfl, rfl, rfl⟩ := Task.flush.inj (List.mem_singleton.mp hf)
      exact Or.inr (Or.inr ⟨⟨m, hmem⟩, rfl⟩)

variable [DecidableEq N]

/-- A step of `fetch_and_insert`. -/
theorem fetchStep_spec {f f' : Fetch R} {s1 : State N R} (h : fetchStep s key f = some (s1, f')) :
    s1.tasks = s.tasks ∧ s1.popped = s.popped ∧ s1.queue = s.queue ∧
    (∀ used a, FetchHas used a f' → FetchHas used a f) ∧
    (∀ e ∈ s1.cache.entries, e ∈ s.cache.entries ∨ (e.1 = key ∧ ∀ used, FetchHas used e.2.answer f)) ∧
    ∃ events, s1.log = s.log ++ events ∧ (∀ k a, .response k a ∉ events) ∧
      ∀ k sent, .flushed k sent ∉ events := by
  have hquiet : ∃ events, s.log = s.log ++ events ∧ (∀ k a, .response k a ∉ events) ∧
      ∀ k sent, .flushed k sent ∉ events :=
    ⟨[], by rw [List.append_nil], fun _ _ h => (nomatch h), fun _ _ h => (nomatch h)⟩
  rcases f with _ | _ | _ | b | r | r
  · obtain ⟨rfl, rfl⟩ := Prod.mk.inj (Option.some.inj h)
    exact ⟨rfl, rfl, rfl, fun _ _ h => h.elim, fun e he => Or.inl he, hquiet⟩
  · obtain ⟨rfl, rfl⟩ := Prod.mk.inj (Option.some.inj h)
    exact ⟨rfl, rfl, rfl, fun _ _ h => h.elim, fun e he => Or.inl he, hquiet⟩
  · cases h
  · obtain ⟨rfl, rfl⟩ := Prod.mk.inj (Option.some.inj h)
    refine ⟨rfl, rfl, rfl, fun used a h => (Except.ok.inj h.2), fun e he => ?_, _, List.append_assoc _ _ _, ?_, ?_⟩
    · rcases mem_put he with rfl | ⟨he, -⟩
      · exact Or.inr ⟨rfl, fun _ => rfl⟩
      · exact Or.inl he
    · intro k a h
      simp at h
    · intro k sent h
      simp at h
  · obtain ⟨rfl, rfl⟩ := Prod.mk.inj (Option.some.inj h)
    exact ⟨rfl, rfl, rfl, fun _ _ h => h, fun e he => Or.inl he, hquiet⟩
  · cases h

/-- A task that has the answers of its call of `fetch_and_insert` goes on. -/
theorem effect_fetch {used : Prop} {f f' : Fetch R} {s1 : State N R} (ht : t ∈ s.tasks)
    (h : fetchStep s key f = some (s1, f')) (hfrom : ∀ a, FetchHas used a f → TaskHas key a t)
    (hto : ∀ k a, TaskHas k a t' → k = key ∧ FetchHas used a f')
    (hflush : ∀ sent keys rest, t' ≠ .flush sent keys rest) : Effect s (s1.setTask i t') none := by
  obtain ⟨htasks, hpopped, hqueue, hkeeps, hcache, events, hlog, hresponse, hflushed⟩ := fetchStep_spec h
  refine effect_setTask htasks hpopped hqueue ?_ ?_ hflush
    ⟨events, hlog, fun k a h => absurd h (hresponse k a), hflushed⟩
  · rintro k a ⟨d, hd, rfl⟩
    rcases hcache _ hd with hd | ⟨hk, hd⟩
    · exact Or.inr ⟨d, hd, rfl⟩
    · obtain rfl : k = key := hk
      exact has_of_task ht (hfrom _ (hd used))
  · intro k a hk
    obtain ⟨rfl, ha⟩ := hto k a hk
    exact Or.inl (has_of_task ht (hfrom a (hkeeps used a ha)))

theorem effect_getStep {timer : Timer} {n : ℕ} (ht : .query key .get timer n ∈ s.tasks) :
    Effect s (getStep s i key timer n) none := by
  unfold getStep
  rcases hget : s.cache.get? key with _ | data
  · exact effect_continue ht (fun k a h => ⟨h.1, h.2.elim⟩) nofun
  have hdata : Has s key data.answer := Or.inr ⟨data, mem_of_get? hget, rfl⟩
  have hcache : ∀ k a, (∃ d, (k, d) ∈ (s.cache.touch key).entries ∧ d.answer = a) → Has s k a := by
    rintro k a ⟨d, hd, rfl⟩
    exact Or.inr ⟨d, mem_touch hd, rfl⟩
  have hreturned : ∀ k a, TaskHas k a (.query key (.returned (.ok data.answer)) timer n) →
      Has s k a ∨ s.clock ≤ a.produced := by
    rintro k a ⟨rfl, ha⟩
    obtain rfl := Except.ok.inj ha
    exact Or.inl hdata
  dsimp only
  by_cases hhard : data.hardValidUntil < s.now
  · rw [if_pos hhard]
    exact effect_setTask rfl rfl rfl hcache (fun k a h => h.2.elim) nofun (no_events rfl)
  rw [if_neg hhard]
  have heffect : Effect s (State.setTask { s with cache := s.cache.touch key } i
      (.query key (.returned (.ok data.answer)) timer n)) none :=
    effect_setTask rfl rfl rfl hcache hreturned nofun (no_events rfl)
  by_cases hsoft : data.validUntil < s.now
  · -- a refresh is spawned
    rw [if_pos hsoft]
    exact heffect.spawn (fun k a h => h.2.elim) nofun
  · rw [if_neg hsoft]
    exact heffect

theorem effect_queryStep {lookup : Lookup R} {timer : Timer} {n : ℕ} {room : Bool}
    (ht : .query key lookup timer n ∈ s.tasks) (h : queryStep s i key timer n room lookup = some s') :
    Effect s s' none := by
  rcases lookup with _ | u | _ | f | r | r | _
  · obtain rfl := Option.some.inj h
    refine effect_continue ht (fun k a h => ?_) nofun
    by_cases hk : key ∈ s.inFlight
    · rw [if_pos hk] at h
      exact h.2.elim
    · rw [if_neg hk] at h
      exact h.2.elim
  · simp only [queryStep, Option.ite_none_right_eq_some, Option.some.injEq] at h
    obtain ⟨-, rfl⟩ := h
    exact effect_continue ht (fun k a h => h.2.elim) nofun
  · obtain rfl := Option.some.inj h
    exact effect_getStep ht
  · obtain ⟨⟨s1, f'⟩, hstep, rfl⟩ := Option.map_eq_some_iff.mp h
    refine effect_fetch ht hstep (fun a ha => ⟨rfl, ha⟩) (fun k a hk => ?_) nofun
    rcases f' with _ | _ | _ | b | r | r
    · exact hk.2.elim
    · exact hk.2.elim
    · exact hk.2.elim
    · exact ⟨hk.1.symm, hk.2⟩
    · exact ⟨hk.1.symm, hk.2⟩
    · exact ⟨hk.1.symm, trivial, hk.2⟩
  · obtain rfl := Option.some.inj h
    exact effect_continue ht (fun k a h => h) nofun
  · simp only [queryStep, Option.ite_none_right_eq_some, Option.some.injEq] at h
    obtain ⟨-, rfl⟩ := h
    exact effect_respondStep ht
  · cases h

theorem effect_updaterStep {u : Updater N R} (ht : .updater u ∈ s.tasks) (h : updaterStep s i u = some s') :
    Effect s s' none := by
  rcases u with u | (_ | ⟨key, keys⟩) | ⟨key, f, keys⟩
  · simp only [updaterStep, Option.ite_none_right_eq_some, Option.some.injEq] at h
    obtain ⟨-, rfl⟩ := h
    exact effect_continue ht (fun k a h => h.elim) nofun
  · obtain rfl := Option.some.inj h
    exact effect_continue ht (fun k a h => h.elim) nofun
  · obtain rfl := Option.some.inj h
    exact effect_continue ht (fun k a h => h.2.elim) nofun
  · obtain ⟨⟨s1, f'⟩, hstep, rfl⟩ := Option.map_eq_some_iff.mp h
    refine effect_fetch ht hstep (fun a ha => ⟨rfl, ha⟩) (fun k a hk => ?_) nofun
    rcases f' with _ | _ | _ | b | r | r
    · exact ⟨hk.1.symm, hk.2⟩
    · exact ⟨hk.1.symm, hk.2⟩
    · exact ⟨hk.1.symm, hk.2⟩
    · exact ⟨hk.1.symm, hk.2⟩
    · exact ⟨hk.1.symm, hk.2⟩
    · exact hk.elim

theorem effect_refreshStep {f : Fetch R} (ht : .refresh key f ∈ s.tasks)
    (h : refreshStep s i key f = some s') : Effect s s' none := by
  obtain ⟨⟨s1, f'⟩, hstep, rfl⟩ := Option.map_eq_some_iff.mp h
  refine effect_fetch ht hstep (fun a ha => ⟨rfl, ha⟩) (fun k a hk => ?_) ?_
  · rcases f' with _ | _ | _ | b | r | r
    · exact ⟨hk.1.symm, hk.2⟩
    · exact ⟨hk.1.symm, hk.2⟩
    · exact ⟨hk.1.symm, hk.2⟩
    · exact ⟨hk.1.symm, hk.2⟩
    · exact ⟨hk.1.symm, hk.2⟩
    · exact hk.elim
  · intro sent keys rest heq
    rcases f' with _ | _ | _ | b | r | r <;> cases heq

/-- The next step of a removal loop. -/
theorem effect_flushStep {sent : ℕ} {keys : List (CacheKey N)} :
    ∀ rest, .flush sent keys rest ∈ s.tasks →
      Effect s (flushStep s i sent keys rest) (rest.head?.map fun k => (k, sent))
  | [], ht => by
    have hend : Effect s (s.setTask i .done) none := effect_continue ht (fun k a h => h.elim) nofun
    refine ⟨hend.has, nofun, nofun, hend.popped, hend.flushes, hend.queue, _, rfl, ?_, ?_⟩
    · intro k a h
      obtain ⟨key, -, hkey⟩ := List.mem_map.mp h
      cases hkey
    · intro k at' h
      obtain ⟨key, hkeys, hkey⟩ := List.mem_map.mp h
      obtain ⟨rfl, rfl⟩ := Event.flushed.inj hkey
      exact ⟨keys, ht, hkeys⟩
  | key :: rest, ht => by
    have hold : ∀ k a, Has (flushStep s i sent keys (key :: rest)) k a →
        (∃ t ∈ s.tasks, TaskHas k a t) ∨ (k ≠ key ∧ Has s k a) := by
      rintro k a (⟨t, ht, hk⟩ | ⟨d, hd, rfl⟩)
      · rcases mem_setTask ht with rfl | ht
        · exact hk.elim
        · exact Or.inl ⟨t, ht, hk⟩
      · obtain ⟨hd, hne⟩ := mem_pop.mp hd
        exact Or.inr ⟨hne, Or.inr ⟨d, hd, rfl⟩⟩
    refine ⟨fun k a h => ?_, fun k at' htaken a h => ?_, fun k at' htaken => ?_, rfl, fun at' all left h => ?_,
      fun m at' h => Or.inl h, [], (List.append_nil _).symm, fun k a h => (nomatch h), fun k at' h => (nomatch h)⟩
    · rcases hold k a h with h | ⟨-, h⟩
      · exact Or.inl (Or.inl h)
      · exact Or.inl h
    · obtain ⟨rfl, -⟩ := Prod.mk.inj (Option.some.inj htaken)
      rcases hold key a h with h | ⟨hne, -⟩
      · exact h
      · exact absurd rfl hne
    · obtain ⟨rfl, rfl⟩ := Prod.mk.inj (Option.some.inj htaken)
      exact ⟨keys, rest, ht⟩
    · rcases mem_setTask h with h | h
      · obtain ⟨rfl, rfl, rfl⟩ := Task.flush.inj h
        exact Or.inr (Or.inl ⟨key, ht, rfl⟩)
      · exact Or.inl h

theorem effect_act {c : Choice N R} (h : act nameOf s c = some s') : Effect s s' (takesOut s c) := by
  rcases c with key | ⟨i, room⟩ | ⟨i, room⟩ | ⟨i, r⟩ | ms | m | _
  · obtain rfl := Option.some.inj h
    exact (effect_outside rfl rfl rfl rfl fun m sent h => Or.inl h).spawn (fun k a h => h.2.elim) nofun
  · obtain ⟨t, ht, h⟩ := Option.bind_eq_some_iff.mp h
    have hmem : t ∈ s.tasks := List.mem_of_getElem? ht
    rcases t with ⟨key, lookup, timer, n⟩ | ⟨key, f⟩ | u | ⟨sent, keys, rest⟩ | _
    · rw [show takesOut s (.task i room) = none by simp [takesOut, ht]]
      exact effect_queryStep hmem h
    · rw [show takesOut s (.task i room) = none by simp [takesOut, ht]]
      exact effect_refreshStep hmem h
    · rw [show takesOut s (.task i room) = none by simp [takesOut, ht]]
      exact effect_updaterStep hmem h
    · have htaken : takesOut s (.task i room) = rest.head?.map fun k => (k, sent) := by
        rcases rest with _ | ⟨key, rest⟩
        · simp [takesOut, ht]
        · simp [takesOut, ht]
      rw [htaken]
      obtain rfl := Option.some.inj h
      exact effect_flushStep rest hmem
    · cases h
  · obtain ⟨key, lookup, timer, n, ht, h⟩ := act_timer h
    exact effect_timerStep (List.mem_of_getElem? ht) h
  · obtain ⟨t, ht, h⟩ := Option.bind_eq_some_iff.mp h
    obtain ⟨t', hr, rfl⟩ := Option.map_eq_some_iff.mp h
    exact effect_reply hr
  · obtain rfl := Option.some.inj h
    exact effect_outside rfl rfl rfl rfl fun m sent h => Or.inl h
  · obtain rfl := Option.some.inj h
    refine effect_outside rfl rfl rfl rfl fun m' sent h => ?_
    rcases List.mem_append.mp h with h | h
    · exact Or.inl h
    · exact Or.inr (Prod.mk.inj (List.mem_singleton.mp h)).2
  · exact effect_deliverStep h

end

/-! ### Runs -/

/-- What every step that is `Clear` keeps. -/
structure Inv (s : State N R) : Prop where
  queue : ∀ m sent, (m, sent) ∈ s.queue → sent ≤ s.clock
  flushes : ∀ sent keys rest, .flush sent keys rest ∈ s.tasks →
    sent ≤ s.clock ∧ ∀ k ∈ keys, k ∈ rest ∨ (k, sent) ∈ s.popped
  popped : ∀ k sent, (k, sent) ∈ s.popped → sent ≤ s.clock ∧ ∀ a, Has s k a → sent ≤ a.produced
  flushed : ∀ k sent, .flushed k sent ∈ s.log → (k, sent) ∈ s.popped
  final : ∀ k sent a, List.Sublist [.flushed k sent, .response k a] s.log → sent ≤ a.produced

/-- Two of a list and its continuation: both of the list, or the later of the continuation. -/
theorem pair_sublist_append {α : Type} {x y : α} {l l' : List α} (h : List.Sublist [x, y] (l ++ l')) :
    List.Sublist [x, y] l ∨ (x ∈ l ++ l' ∧ y ∈ l') := by
  obtain ⟨l₁, l₂, heq, h₁, h₂⟩ := List.sublist_append_iff.mp h
  rcases l₁ with _ | ⟨b, _ | ⟨c, l₁⟩⟩
  · rw [List.nil_append] at heq
    rw [← heq] at h₂
    exact Or.inr ⟨h.subset List.mem_cons_self, h₂.subset (List.mem_cons_of_mem _ List.mem_cons_self)⟩
  · have hy : [y] = l₂ := (List.cons.inj heq).2
    rw [← hy] at h₂
    exact Or.inr ⟨h.subset List.mem_cons_self, h₂.subset List.mem_cons_self⟩
  · obtain ⟨rfl, rfl, rfl, -⟩ : x = b ∧ y = c ∧ l₁ = [] ∧ l₂ = [] := by simpa using heq
    exact Or.inl h₁

theorem clear_of_none {s : State N R} {c : Choice N R} (h : takesOut s c = none) : Clear s c := by
  intro k sent htaken
  rw [h] at htaken
  cases htaken

theorem inv_step [DecidableEq N] {nameOf : Text → Option N} (s : State N R) (c : Choice N R) (s' : State N R)
    (hinv : Inv s) (hclear : Clear s c) (h : step nameOf s c = some s') : Inv s' := by
  obtain ⟨s1, hact, rfl⟩ := Option.map_eq_some_iff.mp h
  have heffect := effect_act hact
  have hpopped : ∀ k sent, (k, sent) ∈ s1.popped ↔ (k, sent) ∈ s.popped ∨ takesOut s c = some (k, sent) := by
    intro k sent
    rw [heffect.popped, List.mem_append, Option.mem_toList]
  obtain ⟨events, hlog, hresponse, hflushed⟩ := heffect.log
  have hends : ∀ k sent, .flushed k sent ∈ s1.log → (k, sent) ∈ s.popped := by
    intro k sent hf
    rw [hlog] at hf
    rcases List.mem_append.mp hf with hf | hf
    · exact hinv.flushed k sent hf
    · obtain ⟨keys, ht, hk⟩ := hflushed k sent hf
      exact ((hinv.flushes sent keys [] ht).2 k hk).resolve_left List.not_mem_nil
  refine ⟨fun m sent hm => ?_, fun sent keys rest hf => ?_, fun k sent hk => ?_, fun k sent hf => ?_,
    fun k sent a hsub => ?_⟩
  · rcases heffect.queue m sent hm with hm | rfl
    · exact Nat.le_succ_of_le (hinv.queue m sent hm)
    · exact Nat.le_succ _
  · rcases heffect.flushes sent keys rest hf with hf | ⟨key, hf, htaken⟩ | ⟨⟨m, hm⟩, rfl⟩
    · obtain ⟨hclock, hkeys⟩ := hinv.flushes sent keys rest hf
      refine ⟨Nat.le_succ_of_le hclock, fun k hk => ?_⟩
      exact (hkeys k hk).imp_right fun hk => (hpopped k sent).mpr (Or.inl hk)
    · obtain ⟨hclock, hkeys⟩ := hinv.flushes sent keys _ hf
      refine ⟨Nat.le_succ_of_le hclock, fun k hk => ?_⟩
      rcases hkeys k hk with hk | hk
      · rcases List.mem_cons.mp hk with rfl | hk
        · exact Or.inr ((hpopped k sent).mpr (Or.inr htaken))
        · exact Or.inl hk
      · exact Or.inr ((hpopped k sent).mpr (Or.inl hk))
    · exact ⟨Nat.le_succ_of_le (hinv.queue m sent hm), fun k hk => Or.inl hk⟩
  · rcases (hpopped k sent).mp hk with hk | htaken
    · -- what was taken out before comes back only as a newer answer
      obtain ⟨hclock, hhas⟩ := hinv.popped k sent hk
      refine ⟨Nat.le_succ_of_le hclock, fun a ha => ?_⟩
      rcases heffect.has k a ha with ha | ha
      · exact hhas a ha
      · exact hclock.trans ha
    · obtain ⟨keys, rest, hf⟩ := heffect.sent k sent htaken
      refine ⟨Nat.le_succ_of_le (hinv.flushes _ _ _ hf).1, fun a ha => ?_⟩
      obtain ⟨t, ht, hta⟩ := heffect.gone k sent htaken a ha
      exact hclear k sent htaken t ht a hta
  · exact (hpopped k sent).mpr (Or.inl (hends k sent hf))
  · have hsub : List.Sublist [.flushed k sent, .response k a] (s.log ++ events) := hlog ▸ hsub
    rcases pair_sublist_append hsub with hsub | ⟨hf, hr⟩
    · exact hinv.final k sent a hsub
    · exact (hinv.popped k sent (hends k sent (hlog ▸ hf))).2 a (hresponse k a hr)

theorem inv_initial [DecidableEq N] (cap : ℕ) : Inv (initial N R cap) := by
  refine ⟨fun m sent h => (nomatch h), fun sent keys rest h => ?_, fun k sent h => (nomatch h),
    fun k sent h => (nomatch h), fun k sent a h => (nomatch h)⟩
  cases List.mem_singleton.mp h

theorem Inv.statement {s : State N R} (hinv : Inv s) : Final s := by
  intro pre mid post k sent a hlog _ _
  refine hinv.final k sent a ?_
  have hflushed : List.Sublist [Event.flushed k sent] (pre ++ .flushed k sent :: mid) :=
    List.singleton_sublist.mpr (List.mem_append_right _ List.mem_cons_self)
  have hresponse : List.Sublist [Event.response k a] (.response k a :: post) :=
    List.singleton_sublist.mpr List.mem_cons_self
  rw [hlog]
  exact hflushed.append hresponse

/-- **In every run** in which no removal loop takes out a key while a lookup, a refresh or the updater
has an older answer for it, flushes are final. -/
theorem final_of_along [DecidableEq N] {nameOf : Text → Option N} {cap : ℕ} {cs : List (Choice N R)}
    (h : Along (step nameOf) Clear (initial N R cap) cs) :
    Always (step nameOf) Final (initial N R cap) cs :=
  (always_of_along inv_step (inv_initial cap) h).mono fun _ hinv => hinv.statement

/-! ### Runs of one key -/

private def aKey : CacheKey Text := ⟨['a'], 1, 1, false⟩

private def aFlush : ClearCache := ⟨['a'], 1, 1⟩

/-- A query that misses, up to the reply of the upstream. -/
private def miss (i : ℕ) : List (Choice Text Unit) :=
  [.query aKey, .task i true, .task i true, .task i true, .task i true, .reply i (.message ⟨0, ()⟩)]

/-- A query is answered from the upstream before a flush, and another after it. -/
theorem final_of_along_example : Always (step some) Final (initial Text Unit 10)
    (miss 1 ++ List.replicate 4 (Choice.task 1 true) ++ [Choice.sendFlush aFlush, .deliver] ++
      List.replicate 3 (Choice.task 2 true) ++ miss 3 ++ List.replicate 4 (Choice.task 3 true)) := by
  refine final_of_along ?_
  iterate 12 refine Along.cons rfl (clear_of_none rfl) ?_
  iterate 2
    refine Along.cons rfl (fun k sent hk t ht a ha => absurd ha ((?_ : ∀ t ∈ State.tasks _, ¬ TaskHas k a t) t ht)) ?_
    · refine List.forall_mem_cons.mpr ⟨fun h => h.elim, List.forall_mem_cons.mpr ⟨fun h => h.2.elim, ?_⟩⟩
      exact List.forall_mem_singleton.mpr fun h => h.elim
  iterate 11 refine Along.cons rfl (clear_of_none rfl) ?_
  exact trivial

/-- The answer of the upstream is put in the cache after the removal loop. -/
theorem not_final : ¬ ∀ cs, Always (step some) Final (initial Text Unit 10) cs := by
  intro h
  have hrun := (h (miss 1 ++ [Choice.sendFlush aFlush, .deliver] ++ List.replicate 3 (Choice.task 2 true) ++
    List.replicate 2 (Choice.task 1 true) ++ [Choice.query aKey] ++ List.replicate 4 (Choice.task 3 true))).after rfl
  have hproduced := hrun [] [.flushed ⟨['a'], 1, 1, true⟩ 6, .put aKey ⟨⟨0, ()⟩, 5⟩] [] aKey 6 ⟨⟨0, ()⟩, 5⟩ rfl
  refine absurd (hproduced ?_ ?_) (by decide)
  · decide
  · intro b hb
    obtain ⟨-, rfl⟩ : aKey = aKey ∧ b = ⟨⟨0, ()⟩, 5⟩ := by simpa using hb
    decide

end HexDns.Cache.Flushes
