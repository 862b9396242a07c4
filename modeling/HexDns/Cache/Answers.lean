import HexDns.Cache.Flushes
import HexDns.Cache.InFlight

/-! # Where answers come from

An answer that a task or the cache has for a key, or that a client has got, is one that the upstream gave to a call
of `fetch_and_insert` for this key (`answer_traced`); keys are never mixed up, nor queries with and without DNSSEC.

An entry that is not the answer SERVFAIL is served as long as it is valid, whatever the upstream does
(`stale_served`): refreshes and the updater leave it as it is when they get SERVFAIL, and the lookups do not fetch. -/

namespace HexDns.Cache.Answers

open HexDns.Lib.Lru HexDns.Lib.Texts HexDns.Lib.Runs HexDns.Cache.Server HexDns.Cache.Flushes

variable {N R : Type}

/-! ### New answers -/

/-- The answer came with the reply to a call for the key, in a run of these choices. -/
def Traced [DecidableEq N] (nameOf : Text → Option N) (cap : ℕ) (cs : List (Choice N R)) (k : CacheKey N)
    (a : Answer R) : Prop :=
  ∃ pre post i s, cs = pre ++ .reply i (.message a.toMessage) :: post ∧
    after (step nameOf) (initial N R cap) pre = some s ∧ a.produced = s.clock ∧ InFlight.Waits s k i

/-- No answer is new. -/
def NoneNew (s s' : State N R) : Prop := ∀ k a, Has s' k a → Has s k a

section
variable {s s1 s' : State N R} {key : CacheKey N} {i : ℕ} {t t' : Task N R}

theorem noneNew_setTask (htasks : s1.tasks = s.tasks)
    (hcache : ∀ k d, (k, d) ∈ s1.cache.entries → Has s k d.answer)
    (hhas : ∀ k a, TaskHas k a t' → Has s k a) : NoneNew s (s1.setTask i t') := by
  intro k a h
  rcases has_setTask h with (⟨t, ht, hk⟩ | ⟨d, hd, rfl⟩) | h
  · rw [htasks] at ht
    exact has_of_task ht hk
  · exact hcache k d hd
  · exact hhas k a h

/-- The task goes on with what it has. -/
theorem noneNew_continue (ht : s.tasks[i]? = some t) (hhas : ∀ k a, TaskHas k a t' → TaskHas k a t) :
    NoneNew s (s.setTask i t') :=
  noneNew_setTask rfl (fun _ d hd => Or.inr ⟨d, hd, rfl⟩) fun k a h =>
    has_of_task (List.mem_of_getElem? ht) (hhas k a h)

theorem NoneNew.spawn (h : NoneNew s s1) (hhas : ∀ k a, ¬ TaskHas k a t') : NoneNew s (s1.spawn t') := by
  rintro k a (⟨t, ht, hk⟩ | hd)
  · rcases List.mem_append.mp ht with ht | ht
    · exact h k a (has_of_task ht hk)
    · rw [List.mem_singleton.mp ht] at hk
      exact absurd hk (hhas k a)
  · exact h k a (Or.inr hd)

variable [DecidableEq N]

/-- A call of `fetch_and_insert` goes on. -/
theorem noneNew_call (used : Prop) {f f' : Fetch R} (ht : s.tasks[i]? = some t)
    (h : fetchStep s key f = some (s1, f')) (hfrom : ∀ a, FetchHas used a f → TaskHas key a t)
    (hto : ∀ k a, TaskHas k a t' → k = key ∧ FetchHas used a f') : NoneNew s (s1.setTask i t') := by
  obtain ⟨htasks, -, -, hkeeps, hcache, -⟩ := fetchStep_spec h
  refine noneNew_setTask htasks (fun k d hd => ?_) fun k a hk => ?_
  · rcases hcache _ hd with hd | ⟨hk, hd⟩
    · exact Or.inr ⟨d, hd, rfl⟩
    · obtain rfl : k = key := hk
      exact has_of_task (List.mem_of_getElem? ht) (hfrom _ (hd used))
  · obtain ⟨rfl, ha⟩ := hto k a hk
    exact has_of_task (List.mem_of_getElem? ht) (hfrom a (hkeeps used a ha))

theorem noneNew_getStep {timer : Timer} {n : ℕ} (ht : s.tasks[i]? = some (.query key .get timer n)) :
    NoneNew s (getStep s i key timer n) := by
  unfold getStep
  rcases hget : s.cache.get? key with _ | data
  · exact noneNew_continue ht fun k a h => ⟨h.1, h.2.elim⟩
  have hcache : ∀ k d, (k, d) ∈ (s.cache.touch key).entries → Has s k d.answer :=
    fun k d hd => Or.inr ⟨d, mem_touch hd, rfl⟩
  dsimp only
  by_cases hhard : data.hardValidUntil < s.now
  · rw [if_pos hhard]
    exact noneNew_setTask rfl hcache fun k a h => h.2.elim
  rw [if_neg hhard]
  have hhit : NoneNew s (State.setTask { s with cache := s.cache.touch key } i
      (.query key (.returned (.ok data.answer)) timer n)) := by
    refine noneNew_setTask rfl hcache ?_
    rintro k a ⟨rfl, ha⟩
    obtain rfl := Except.ok.inj ha
    exact Or.inr ⟨data, mem_of_get? hget, rfl⟩
  by_cases hsoft : data.validUntil < s.now
  · rw [if_pos hsoft]
    exact hhit.spawn fun k a h => h.2.elim
  · rw [if_neg hsoft]
    exact hhit

theorem noneNew_queryStep {lookup : Lookup R} {timer : Timer} {n : ℕ} {room : Bool}
    (ht : s.tasks[i]? = some (.query key lookup timer n)) (h : queryStep s i key timer n room lookup = some s') :
    NoneNew s s' := by
  rcases lookup with _ | u | _ | f | r | r | _
  · obtain rfl := Option.some.inj h
    refine noneNew_continue ht fun k a h => ?_
    by_cases hk : key ∈ s.inFlight
    · rw [if_pos hk] at h
      exact h.2.elim
    · rw [if_neg hk] at h
      exact h.2.elim
  · simp only [queryStep, Option.ite_none_right_eq_some, Option.some.injEq] at h
    obtain ⟨-, rfl⟩ := h
    exact noneNew_continue ht fun k a h => h.2.elim
  · obtain rfl := Option.some.inj h
    exact noneNew_getStep ht
  · obtain ⟨⟨s1, f'⟩, hstep, rfl⟩ := Option.map_eq_some_iff.mp h
    refine noneNew_call True ht hstep (fun a ha => ⟨rfl, ha⟩) fun k a ha => ⟨ha.1.symm, ?_⟩
    rcases f' with _ | _ | _ | b | r | r
    case done => exact ⟨trivial, ha.2⟩
    all_goals exact ha.2
  · obtain rfl := Option.some.inj h
    exact noneNew_continue ht fun k a h => h
  · simp only [queryStep, Option.ite_none_right_eq_some, Option.some.injEq] at h
    obtain ⟨-, rfl⟩ := h
    show NoneNew s (State.setTask { s with log := s.log ++ _ } i (.query key .done timer (n + 1)))
    exact noneNew_setTask rfl (fun _ d hd => Or.inr ⟨d, hd, rfl⟩) fun k a h => h.2.elim
  · cases h

theorem noneNew_taskStep {room : Bool} (ht : s.tasks[i]? = some t) (h : taskStep s i room t = some s') :
    NoneNew s s' := by
  rcases t with ⟨key, lookup, timer, n⟩ | ⟨key, f⟩ | (u | (_ | ⟨key, keys⟩) | ⟨key, f, keys⟩) |
    ⟨sent, keys, _ | ⟨key, rest⟩⟩ | _
  · exact noneNew_queryStep ht h
  · obtain ⟨⟨s1, f'⟩, hstep, rfl⟩ := Option.map_eq_some_iff.mp h
    refine noneNew_call False ht hstep (fun a ha => ⟨rfl, ha⟩) fun k a ha => ?_
    rcases f' with _ | _ | _ | b | r | r
    case done => exact ha.elim
    all_goals exact ⟨ha.1.symm, ha.2⟩
  · simp only [taskStep, updaterStep, Option.ite_none_right_eq_some, Option.some.injEq] at h
    obtain ⟨-, rfl⟩ := h
    exact noneNew_continue ht fun k a h => h.elim
  · obtain rfl := Option.some.inj h
    exact noneNew_continue ht fun k a h => h.elim
  · obtain rfl := Option.some.inj h
    exact noneNew_continue ht fun k a h => h.2.elim
  · obtain ⟨⟨s1, f'⟩, hstep, rfl⟩ := Option.map_eq_some_iff.mp h
    refine noneNew_call False ht hstep (fun a ha => ⟨rfl, ha⟩) fun k a ha => ?_
    rcases f' with _ | _ | _ | b | r | r
    case done => exact ha.elim
    all_goals exact ⟨ha.1.symm, ha.2⟩
  · obtain rfl := Option.some.inj h
    show NoneNew s (State.setTask { s with log := s.log ++ _ } i .done)
    exact noneNew_setTask rfl (fun _ d hd => Or.inr ⟨d, hd, rfl⟩) fun k a h => h.elim
  · obtain rfl := Option.some.inj h
    show NoneNew s (State.setTask { s with
      cache := s.cache.pop key
      popped := s.popped ++ [(key, sent)] } i (.flush sent keys rest))
    exact noneNew_setTask rfl (fun k d hd => Or.inr ⟨d, (mem_pop.mp hd).1, rfl⟩) fun k a h => h.elim
  · cases h

/-- A reply to a call has what the upstream said. -/
theorem fetchHas_replied (used : Prop) {new : Bool} {clock : ℕ} {r : Reply R} {a : Answer R}
    (h : FetchHas used a (Fetch.replied new clock r)) : r = .message a.toMessage ∧ a.produced = clock := by
  rcases r with _ | _ | m
  · cases h.2
  · cases h.2
  · simp only [Fetch.replied] at h
    by_cases hput : m.responseCode ≠ servFail ∨ new
    · rw [if_pos hput] at h
      obtain rfl : _ = a := h
      exact ⟨rfl, rfl⟩
    · rw [if_neg hput] at h
      obtain rfl := Except.ok.inj h.2
      exact ⟨rfl, rfl⟩

/-- **One step**: an answer is new only if it comes with the reply to a call for its key. -/
theorem has_step {nameOf : Text → Option N} {c : Choice N R} (h : step nameOf s c = some s') {k : CacheKey N}
    {a : Answer R} (hhas : Has s' k a) :
    Has s k a ∨ ∃ i, c = .reply i (.message a.toMessage) ∧ a.produced = s.clock ∧ InFlight.Waits s k i := by
  obtain ⟨s1, hact, rfl⟩ := Option.map_eq_some_iff.mp h
  have hhas : Has s1 k a := hhas
  rcases c with key | ⟨i, room⟩ | ⟨i, room⟩ | ⟨i, r⟩ | ms | m | _
  · obtain rfl := Option.some.inj hact
    have hnone : ∀ k a, ¬ TaskHas k a (.query key (.check : Lookup R) .spawned 0) := fun k a h => h.2.elim
    have hsame : NoneNew s s := fun _ _ h => h
    exact Or.inl (hsame.spawn hnone k a hhas)
  · obtain ⟨t, ht, hact⟩ := Option.bind_eq_some_iff.mp hact
    exact Or.inl (noneNew_taskStep ht hact k a hhas)
  · obtain ⟨key, lookup, timer, n, ht, hact⟩ := act_timer hact
    obtain ⟨timer', n', rfl⟩ := timerStep_eq hact
    have hsame : ∀ k a, TaskHas k a (.query key lookup timer' n') → TaskHas k a (.query key lookup timer n) :=
      fun k a h => h
    exact Or.inl (noneNew_continue ht hsame k a hhas)
  · obtain ⟨t, ht, hact⟩ := Option.bind_eq_some_iff.mp hact
    obtain ⟨t', hr, rfl⟩ := Option.map_eq_some_iff.mp hact
    rcases has_setTask hhas with hhas | hhas
    · exact Or.inl hhas
    right
    unfold Task.replied at hr
    split at hr
    · obtain rfl := Option.some.inj hr
      obtain ⟨rfl, hproduced⟩ := fetchHas_replied True hhas.2
      obtain ⟨rfl, -⟩ := hhas
      exact ⟨i, rfl, hproduced, _, ht, rfl⟩
    · obtain rfl := Option.some.inj hr
      obtain ⟨rfl, hproduced⟩ := fetchHas_replied False hhas.2
      obtain ⟨rfl, -⟩ := hhas
      exact ⟨i, rfl, hproduced, _, ht, rfl⟩
    · obtain rfl := Option.some.inj hr
      obtain ⟨rfl, hproduced⟩ := fetchHas_replied False hhas.2
      obtain ⟨rfl, -⟩ := hhas
      exact ⟨i, rfl, hproduced, _, ht, rfl⟩
    · cases hr
  · obtain rfl := Option.some.inj hact
    exact Or.inl hhas
  · obtain rfl := Option.some.inj hact
    exact Or.inl hhas
  · obtain ⟨m, sent, queue, -, rfl | ⟨keys, rfl⟩⟩ := deliverStep_eq hact
    · exact Or.inl hhas
    · have hnone : ∀ k a, ¬ TaskHas k a (.flush sent keys keys : Task N R) := fun k a h => h.elim
      have hdrop : NoneNew s { s with queue := queue } := fun _ _ h => h
      exact Or.inl (hdrop.spawn hnone k a hhas)

/-! ### Runs -/

variable {nameOf : Text → Option N} {cap : ℕ} {cs : List (Choice N R)}

theorem Traced.append {k : CacheKey N} {a : Answer R} (h : Traced nameOf cap cs k a) (cs' : List (Choice N R)) :
    Traced nameOf cap (cs ++ cs') k a := by
  obtain ⟨pre, post, i, s, rfl, hs, hproduced, hwaits⟩ := h
  exact ⟨pre, post ++ cs', i, s, by simp, hs, hproduced, hwaits⟩

theorem Traced.last {k : CacheKey N} {a : Answer R} {i : ℕ} (hs : after (step nameOf) (initial N R cap) cs = some s)
    (hproduced : a.produced = s.clock) (hwaits : InFlight.Waits s k i) :
    Traced nameOf cap (cs ++ [.reply i (.message a.toMessage)]) k a :=
  ⟨cs, [], i, s, rfl, hs, hproduced, hwaits⟩

/-- What the tasks and the cache have, and what was sent, is traced. -/
def AllTraced (nameOf : Text → Option N) (cap : ℕ) (cs : List (Choice N R)) (s : State N R) : Prop :=
  ∀ k a, Has s k a ∨ .response k a ∈ s.log → Traced nameOf cap cs k a

theorem allTraced_step {c : Choice N R} (hs : after (step nameOf) (initial N R cap) cs = some s)
    (htraced : AllTraced nameOf cap cs s) (h : step nameOf s c = some s') : AllTraced nameOf cap (cs ++ [c]) s' := by
  have hlog : ∃ events, s'.log = s.log ++ events ∧ ∀ k a, .response k a ∈ events → Has s k a := by
    obtain ⟨s1, hact, rfl⟩ := Option.map_eq_some_iff.mp h
    obtain ⟨events, hlog, hresponse, -⟩ := (effect_act hact).log
    exact ⟨events, hlog, hresponse⟩
  rintro k a (hhas | hsent)
  · rcases has_step h hhas with hhas | ⟨i, rfl, hproduced, hwaits⟩
    · exact (htraced k a (Or.inl hhas)).append [c]
    · exact Traced.last hs hproduced hwaits
  · obtain ⟨events, hevents, hresponse⟩ := hlog
    rw [hevents] at hsent
    rcases List.mem_append.mp hsent with hsent | hsent
    · exact (htraced k a (Or.inr hsent)).append [c]
    · exact (htraced k a (Or.inl (hresponse k a hsent))).append [c]

/-- **Answers are traced**: at the end of every run, an answer for a key that a task or the cache has, or that was
sent, came with the reply of the upstream to a call for this key. -/
theorem answer_traced {k : CacheKey N} {a : Answer R} (hs : after (step nameOf) (initial N R cap) cs = some s)
    (hhas : Has s k a ∨ .response k a ∈ s.log) : Traced nameOf cap cs k a := by
  suffices hall : AllTraced nameOf cap cs s from hall k a hhas
  clear hhas
  induction cs using List.reverseRecOn generalizing s with
  | nil =>
    obtain rfl := Option.some.inj hs
    rintro k a ((⟨t, ht, hk⟩ | ⟨d, hd, -⟩) | hlog)
    · obtain rfl := List.mem_singleton.mp ht
      exact hk.elim
    · cases hd
    · cases hlog
  | append_singleton cs c ih =>
    rw [after_append] at hs
    obtain ⟨s1, hs1, hs⟩ := Option.bind_eq_some_iff.mp hs
    obtain ⟨s2, hs2, hs⟩ := Option.bind_eq_some_iff.mp hs
    obtain rfl := Option.some.inj hs
    exact allTraced_step hs1 (ih hs1) hs2

end

/-! ### Serving what is there -/

/-- The key that a step drops because there is no room. -/
def drops [DecidableEq N] (s : State N R) : Choice N R → Option (CacheKey N)
  | .task i _ =>
    match (s.tasks[i]?).bind InFlight.Task.fetch? with
    | some (key, .put a) => s.cache.evicted key ⟨s.now + 300000, s.now + 43200000, a⟩
    | _ => none
  | _ => none

/-- The step leaves the key in the cache. -/
def Keeps [DecidableEq N] (k : CacheKey N) (s : State N R) (c : Choice N R) : Prop :=
  drops s c ≠ some k ∧ (takesOut s c).map Prod.fst ≠ some k

instance [DecidableEq N] (k : CacheKey N) (s : State N R) (c : Choice N R) : Decidable (Keeps k s c) :=
  inferInstanceAs (Decidable (_ ∧ _))

def Answer.Good (a : Answer R) : Prop := a.responseCode ≠ servFail

/-- What a refresh or the updater is about to put in the cache is not SERVFAIL. -/
def FetchGood : Fetch R → Prop
  | .put a => Answer.Good a
  | _ => True

/-- A lookup has no answer yet, or one that is not SERVFAIL, and does not ask the upstream. -/
def LookupGood : Lookup R → Prop
  | .fetch _ => False
  | .returned r => ∃ a, r = .ok a ∧ Answer.Good a
  | .responding r => ∃ a, r = .ok a ∧ Answer.Good a
  | _ => True

/-- A lookup of the key asks the upstream. -/
def Misses (k : CacheKey N) : Task N R → Prop
  | .query key (.fetch _) _ _ => key = k
  | _ => False

instance [DecidableEq N] (k : CacheKey N) : DecidablePred (Misses (R := R) k) := fun t =>
  match t with
  | .query key (.fetch _) _ _ => inferInstanceAs (Decidable (key = k))
  | .query _ .check _ _ | .query _ (.sleeping _) _ _ | .query _ .get _ _ | .query _ (.returned _) _ _
  | .query _ (.responding _) _ _ | .query _ .done _ _ | .refresh _ _ | .updater _ | .flush _ _ _ | .done =>
    inferInstanceAs (Decidable False)

/-- What runs in the background gets no SERVFAIL into the cache. -/
def BackgroundGood : Task N R → Prop
  | .refresh _ f => FetchGood f
  | .updater (.fetching _ f _) => FetchGood f
  | _ => True

/-- A lookup of the key does well. -/
def QueryGood (k : CacheKey N) : Task N R → Prop
  | .query key lookup _ _ => key = k → LookupGood lookup
  | _ => True

/-- What holds in every run: the entries are valid for twelve hours at most. -/
structure Sane (s : State N R) : Prop where
  background : ∀ t ∈ s.tasks, BackgroundGood t
  valid : ∀ e ∈ s.cache.entries, e.2.hardValidUntil ≤ s.now + 43200000

/-- The key is in the cache and valid until then, its lookups do not ask the upstream, and those after the first
`n` tasks do well. -/
structure Steady (k : CacheKey N) (until' n : ℕ) (s : State N R) : Prop where
  entry : ∃ data, (k, data) ∈ s.cache.entries ∧ until' ≤ data.hardValidUntil ∧ Answer.Good data.answer
  bound : until' ≤ s.now + 43200000
  hits : ∀ t ∈ s.tasks, ¬ Misses k t
  good : ∀ i t, n ≤ i → s.tasks[i]? = some t → QueryGood k t

section
variable {s s1 s' : State N R} {k key : CacheKey N} {i until' n : ℕ} {t t' : Task N R}

/-! ### What holds in every run -/

theorem Sane.set (hs : Sane s) (htasks : s1.tasks = s.tasks) (hnow : s1.now = s.now)
    (hcache : ∀ e ∈ s1.cache.entries, e ∈ s.cache.entries ∨ e.2.hardValidUntil = s.now + 43200000)
    (ht' : BackgroundGood t') : Sane (s1.setTask i t') where
  background u hu := by
    rcases List.mem_or_eq_of_mem_set hu with hu | rfl
    · rw [htasks] at hu
      exact hs.background u hu
    · exact ht'
  valid e he := by
    show e.2.hardValidUntil ≤ s1.now + 43200000
    rw [hnow]
    rcases hcache e he with he | he
    · exact hs.valid e he
    · exact he.le

theorem Sane.goOn (hs : Sane s) (ht' : BackgroundGood t') : Sane (s.setTask i t') :=
  hs.set rfl rfl (fun _ he => Or.inl he) ht'

theorem Sane.spawn (hs : Sane s) (ht' : BackgroundGood t') : Sane (s.spawn t') where
  background u hu := by
    rcases List.mem_append.mp hu with hu | hu
    · exact hs.background u hu
    · rw [List.mem_singleton.mp hu]
      exact ht'
  valid := hs.valid

theorem fetchGood_replied (clock : ℕ) (r : Reply R) : FetchGood (Fetch.replied false clock r) := by
  rcases r with _ | _ | m
  · trivial
  · trivial
  · simp only [Fetch.replied]
    by_cases hput : m.responseCode ≠ servFail ∨ false = true
    · rw [if_pos hput]
      exact hput.resolve_right Bool.false_ne_true
    · rw [if_neg hput]
      trivial

variable [DecidableEq N]

/-- What a step of `fetch_and_insert` leaves to do, and what it does to the cache. -/
theorem fetchStep_cache {f f' : Fetch R} (h : fetchStep s key f = some (s1, f')) :
    s1.tasks = s.tasks ∧ s1.now = s.now ∧ (∀ a, f' ≠ .put a) ∧
      (s1.cache = s.cache ∨ ∃ a, f = .put a ∧ s1.cache = s.cache.put key ⟨s.now + 300000, s.now + 43200000, a⟩) := by
  rcases f with _ | _ | _ | a | r | r
  · obtain ⟨rfl, rfl⟩ := Prod.mk.inj (Option.some.inj h)
    exact ⟨rfl, rfl, by simp, Or.inl rfl⟩
  · obtain ⟨rfl, rfl⟩ := Prod.mk.inj (Option.some.inj h)
    exact ⟨rfl, rfl, by simp, Or.inl rfl⟩
  · cases h
  · obtain ⟨rfl, rfl⟩ := Prod.mk.inj (Option.some.inj h)
    exact ⟨rfl, rfl, by simp, Or.inr ⟨a, rfl, rfl⟩⟩
  · obtain ⟨rfl, rfl⟩ := Prod.mk.inj (Option.some.inj h)
    exact ⟨rfl, rfl, by simp, Or.inl rfl⟩
  · cases h

theorem Sane.call (hs : Sane s) {f f' : Fetch R} (h : fetchStep s key f = some (s1, f'))
    (ht' : (∀ a, f' ≠ .put a) → BackgroundGood t') : Sane (s1.setTask i t') := by
  obtain ⟨htasks, hnow, hput, hcache⟩ := fetchStep_cache h
  refine hs.set htasks hnow (fun e he => ?_) (ht' hput)
  rcases hcache with hcache | ⟨a, -, hcache⟩
  · rw [hcache] at he
    exact Or.inl he
  · rw [hcache] at he
    rcases mem_put he with rfl | ⟨he, -⟩
    · exact Or.inr rfl
    · exact Or.inl he

theorem FetchGood.of_ne {f : Fetch R} (h : ∀ a, f ≠ .put a) : FetchGood f := by
  rcases f with _ | _ | _ | a | r | r
  case put => exact absurd rfl (h a)
  all_goals trivial

theorem Sane.queryStep (hs : Sane s) {lookup : Lookup R} {timer : Timer} {m : ℕ} {room : Bool}
    (h : queryStep s i key timer m room lookup = some s') : Sane s' := by
  rcases lookup with _ | u | _ | f | r | r | _
  · obtain rfl := Option.some.inj h
    exact hs.goOn trivial
  · simp only [Server.queryStep, Option.ite_none_right_eq_some, Option.some.injEq] at h
    obtain ⟨-, rfl⟩ := h
    exact hs.goOn trivial
  · obtain rfl := Option.some.inj h
    unfold getStep
    rcases s.cache.get? key with _ | data
    · exact hs.goOn trivial
    have hused : ∀ t', BackgroundGood t' → Sane (State.setTask { s with cache := s.cache.touch key } i t') :=
      fun t' ht' => hs.set rfl rfl (fun e he => Or.inl (mem_touch he)) ht'
    dsimp only
    split_ifs
    · exact hused (.query key (.fetch .insert) timer m) trivial
    · exact (hused (.query key (.returned (.ok data.answer)) timer m) trivial).spawn trivial
    · exact hused (.query key (.returned (.ok data.answer)) timer m) trivial
  · obtain ⟨⟨s1, f'⟩, hstep, rfl⟩ := Option.map_eq_some_iff.mp h
    exact hs.call hstep fun _ => trivial
  · obtain rfl := Option.some.inj h
    exact hs.goOn trivial
  · simp only [Server.queryStep, Option.ite_none_right_eq_some, Option.some.injEq] at h
    obtain ⟨-, rfl⟩ := h
    show Sane (State.setTask { s with log := s.log ++ _ } i (.query key .done timer (m + 1)))
    exact hs.set rfl rfl (fun _ he => Or.inl he) trivial
  · cases h

theorem Sane.taskStep (hs : Sane s) {room : Bool} (h : taskStep s i room t = some s') : Sane s' := by
  rcases t with ⟨key, lookup, timer, m⟩ | ⟨key, f⟩ | (u | (_ | ⟨key, keys⟩) | ⟨key, f, keys⟩) |
    ⟨sent, keys, _ | ⟨key, rest⟩⟩ | _
  · exact hs.queryStep h
  · obtain ⟨⟨s1, f'⟩, hstep, rfl⟩ := Option.map_eq_some_iff.mp h
    refine hs.call hstep fun hput => ?_
    cases f' with
    | done r => trivial
    | _ => exact FetchGood.of_ne hput
  · simp only [Server.taskStep, updaterStep, Option.ite_none_right_eq_some, Option.some.injEq] at h
    obtain ⟨-, rfl⟩ := h
    exact hs.goOn trivial
  · obtain rfl := Option.some.inj h
    exact hs.goOn trivial
  · obtain rfl := Option.some.inj h
    exact hs.goOn trivial
  · obtain ⟨⟨s1, f'⟩, hstep, rfl⟩ := Option.map_eq_some_iff.mp h
    refine hs.call hstep fun hput => ?_
    cases f' with
    | done r => trivial
    | _ => exact FetchGood.of_ne hput
  · obtain rfl := Option.some.inj h
    show Sane (State.setTask { s with log := s.log ++ _ } i .done)
    exact hs.set rfl rfl (fun _ he => Or.inl he) trivial
  · obtain rfl := Option.some.inj h
    show Sane (State.setTask { s with
      cache := s.cache.pop key
      popped := s.popped ++ [(key, sent)] } i (.flush sent keys rest))
    exact hs.set rfl rfl (fun e he => Or.inl (mem_pop.mp he).1) trivial
  · cases h

theorem sane_step {nameOf : Text → Option N} {c : Choice N R} (hs : Sane s) (h : step nameOf s c = some s') :
    Sane s' := by
  obtain ⟨s1, hact, rfl⟩ := Option.map_eq_some_iff.mp h
  suffices hs1 : Sane s1 from ⟨hs1.background, hs1.valid⟩
  rcases c with key | ⟨i, room⟩ | ⟨i, room⟩ | ⟨i, r⟩ | ms | m | _
  · obtain rfl := Option.some.inj hact
    exact hs.spawn trivial
  · obtain ⟨t, -, hact⟩ := Option.bind_eq_some_iff.mp hact
    exact hs.taskStep hact
  · obtain ⟨key, lookup, timer, m, -, hact⟩ := act_timer hact
    obtain ⟨timer', m', rfl⟩ := timerStep_eq hact
    exact hs.goOn trivial
  · obtain ⟨t, -, hact⟩ := Option.bind_eq_some_iff.mp hact
    obtain ⟨t', hr, rfl⟩ := Option.map_eq_some_iff.mp hact
    refine hs.goOn ?_
    unfold Task.replied at hr
    split at hr
    · obtain rfl := Option.some.inj hr
      trivial
    · obtain rfl := Option.some.inj hr
      exact fetchGood_replied _ _
    · obtain rfl := Option.some.inj hr
      exact fetchGood_replied _ _
    · cases hr
  · obtain rfl := Option.some.inj hact
    refine ⟨hs.background, fun e he => ?_⟩
    have hvalid := hs.valid e he
    dsimp only
    omega
  · obtain rfl := Option.some.inj hact
    exact ⟨hs.background, hs.valid⟩
  · obtain ⟨m, sent, queue, -, rfl | ⟨keys, rfl⟩⟩ := deliverStep_eq hact
    · exact ⟨hs.background, hs.valid⟩
    · exact Sane.spawn (s := { s with queue := queue }) ⟨hs.background, hs.valid⟩ trivial

theorem sane_initial (cap : ℕ) : Sane (initial N R cap) where
  background t ht := by
    obtain rfl := List.mem_singleton.mp ht
    trivial
  valid e he := by cases he

/-! ### Steady keys -/

omit [DecidableEq N] in
/-- A task goes on. -/
theorem Steady.set (hs : Steady k until' n s) (ht : s.tasks[i]? = some t) (htasks : s1.tasks = s.tasks)
    (hnow : s1.now = s.now)
    (hentry : ∃ data, (k, data) ∈ s1.cache.entries ∧ until' ≤ data.hardValidUntil ∧ Answer.Good data.answer)
    (hmiss : ¬ Misses k t') (hgood : QueryGood k t → QueryGood k t') : Steady k until' n (s1.setTask i t') where
  entry := hentry
  bound := by
    show until' ≤ s1.now + 43200000
    rw [hnow]
    exact hs.bound
  hits u hu := by
    rcases List.mem_or_eq_of_mem_set hu with hu | rfl
    · rw [htasks] at hu
      exact hs.hits u hu
    · exact hmiss
  good j u hj hu := by
    have hset : (s.tasks.set i t')[j]? = some u := by
      rw [← htasks]
      exact hu
    by_cases hij : j = i
    · subst hij
      rw [List.getElem?_set_self (List.getElem?_eq_some_iff.mp ht).1] at hset
      rw [← Option.some.inj hset]
      exact hgood (hs.good j t hj ht)
    · rw [List.getElem?_set_ne (Ne.symm hij)] at hset
      exact hs.good j u hj hset

omit [DecidableEq N] in
theorem Steady.goOn (hs : Steady k until' n s) (ht : s.tasks[i]? = some t) (hmiss : ¬ Misses k t')
    (hgood : QueryGood k t → QueryGood k t') : Steady k until' n (s.setTask i t') :=
  hs.set ht rfl rfl hs.entry hmiss hgood

omit [DecidableEq N] in
theorem Steady.spawn (hs : Steady k until' n s) (hmiss : ¬ Misses k t') (hgood : QueryGood k t') :
    Steady k until' n (s.spawn t') where
  entry := hs.entry
  bound := hs.bound
  hits u hu := by
    rcases List.mem_append.mp hu with hu | hu
    · exact hs.hits u hu
    · rw [List.mem_singleton.mp hu]
      exact hmiss
  good j u hj hu := by
    have happend : (s.tasks ++ [t'])[j]? = some u := hu
    by_cases hlt : j < s.tasks.length
    · rw [List.getElem?_append_left hlt] at happend
      exact hs.good j u hj happend
    · rw [List.getElem?_append_right (not_lt.mp hlt)] at happend
      rw [List.mem_singleton.mp (List.mem_of_getElem? happend)]
      exact hgood

/-- A call of `fetch_and_insert` that is not one of a lookup of the key goes on. -/
theorem Steady.call (hs : Steady k until' n s) {room : Bool} {f f' : Fetch R} (ht : s.tasks[i]? = some t)
    (hf : InFlight.Task.fetch? t = some (key, f)) (hbackground : key = k → FetchGood f)
    (h : fetchStep s key f = some (s1, f')) (hkeeps : Keeps k s (.task i room)) (hmiss : ¬ Misses k t')
    (hgood : QueryGood k t → QueryGood k t') : Steady k until' n (s1.setTask i t') := by
  obtain ⟨htasks, hnow, -, hcache⟩ := fetchStep_cache h
  refine hs.set ht htasks hnow ?_ hmiss hgood
  rcases hcache with hcache | ⟨a, rfl, hcache⟩
  · rw [hcache]
    exact hs.entry
  obtain ⟨data, hmem, hvalid, hanswer⟩ := hs.entry
  rw [hcache]
  by_cases hkey : key = k
  · -- a good answer replaces the entry
    subst hkey
    have hcap : 0 < s.cache.cap := lt_of_lt_of_le (List.length_pos_of_mem hmem) s.cache.bounded
    exact ⟨_, mem_put_self hcap, hs.bound, hbackground rfl⟩
  · have hkept := hkeeps.1
    simp only [drops, ht, Option.bind_some, hf] at hkept
    exact ⟨data, mem_put_of_mem hmem (Ne.symm hkey) hkept, hvalid, hanswer⟩

theorem Steady.getStep (hs : Steady k until' n s) {timer : Timer} {m : ℕ}
    (ht : s.tasks[i]? = some (.query key .get timer m)) (hnow : s.now ≤ until') :
    Steady k until' n (getStep s i key timer m) := by
  obtain ⟨data, hmem, hvalid, hanswer⟩ := hs.entry
  unfold Server.getStep
  by_cases hkey : key = k
  · subst hkey
    rw [get?_eq_some.mpr hmem]
    dsimp only
    rw [if_neg (by omega)]
    have hhit : Steady key until' n (State.setTask { s with cache := s.cache.touch key } i
        (.query key (.returned (.ok data.answer)) timer m)) := by
      refine hs.set ht rfl rfl ⟨data, mem_touch_iff.mpr hmem, hvalid, hanswer⟩ (fun h => h) fun _ _ => ?_
      exact ⟨data.answer, rfl, hanswer⟩
    split_ifs
    · exact hhit.spawn (fun h => h) trivial
    · exact hhit
  · -- a lookup of another key
    have hused : ∀ lookup, Steady k until' n (State.setTask { s with cache := s.cache.touch key } i
        (.query key lookup timer m)) := by
      intro lookup
      refine hs.set ht rfl rfl ⟨data, mem_touch_iff.mpr hmem, hvalid, hanswer⟩ ?_ fun _ h => absurd h hkey
      cases lookup with
      | fetch f => exact hkey
      | _ => exact fun h => h
    rcases s.cache.get? key with _ | other
    · exact hs.goOn ht hkey fun _ h => absurd h hkey
    dsimp only
    split_ifs
    · exact hused _
    · exact (hused _).spawn (fun h => h) trivial
    · exact hused _

theorem Steady.queryStep (hs : Steady k until' n s) {lookup : Lookup R} {timer : Timer} {m : ℕ} {room : Bool}
    (ht : s.tasks[i]? = some (.query key lookup timer m)) (hnow : s.now ≤ until')
    (hkeeps : Keeps k s (.task i room)) (h : queryStep s i key timer m room lookup = some s') :
    Steady k until' n s' := by
  rcases lookup with _ | u | _ | f | r | r | _
  · obtain rfl := Option.some.inj h
    by_cases hmem : key ∈ s.inFlight
    · rw [if_pos hmem]
      exact hs.goOn ht (fun h => h) fun _ _ => trivial
    · rw [if_neg hmem]
      exact hs.goOn ht (fun h => h) fun _ _ => trivial
  · simp only [Server.queryStep, Option.ite_none_right_eq_some, Option.some.injEq] at h
    obtain ⟨-, rfl⟩ := h
    exact hs.goOn ht (fun h => h) fun _ _ => trivial
  · obtain rfl := Option.some.inj h
    exact hs.getStep ht hnow
  · obtain ⟨⟨s1, f'⟩, hstep, rfl⟩ := Option.map_eq_some_iff.mp h
    -- a lookup of the key does not ask the upstream
    have hkey : key ≠ k := hs.hits _ (List.mem_of_getElem? ht)
    refine hs.call ht rfl (fun h => absurd h hkey) hstep hkeeps ?_ fun _ h => absurd h hkey
    cases f' with
    | done r => exact fun h => h
    | _ => exact hkey
  · obtain rfl := Option.some.inj h
    exact hs.goOn ht (fun h => h) fun hgood => hgood
  · simp only [Server.queryStep, Option.ite_none_right_eq_some, Option.some.injEq] at h
    obtain ⟨-, rfl⟩ := h
    show Steady k until' n (State.setTask { s with log := s.log ++ _ } i (.query key .done timer (m + 1)))
    exact hs.set ht rfl rfl hs.entry (fun h => h) fun _ _ => trivial
  · cases h

theorem Steady.taskStep (hs : Steady k until' n s) (hsane : Sane s) {room : Bool} (ht : s.tasks[i]? = some t)
    (hnow : s.now ≤ until') (hkeeps : Keeps k s (.task i room)) (h : taskStep s i room t = some s') :
    Steady k until' n s' := by
  have hbackground := hsane.background t (List.mem_of_getElem? ht)
  rcases t with ⟨key, lookup, timer, m⟩ | ⟨key, f⟩ | (u | (_ | ⟨key, keys⟩) | ⟨key, f, keys⟩) |
    ⟨sent, keys, _ | ⟨key, rest⟩⟩ | _
  · exact hs.queryStep ht hnow hkeeps h
  · obtain ⟨⟨s1, f'⟩, hstep, rfl⟩ := Option.map_eq_some_iff.mp h
    refine hs.call ht rfl (fun _ => hbackground) hstep hkeeps ?_ fun _ => ?_
    · cases f' <;> exact fun h => h
    · cases f' <;> trivial
  · simp only [Server.taskStep, updaterStep, Option.ite_none_right_eq_some, Option.some.injEq] at h
    obtain ⟨-, rfl⟩ := h
    exact hs.goOn ht (fun h => h) fun _ => trivial
  · obtain rfl := Option.some.inj h
    exact hs.goOn ht (fun h => h) fun _ => trivial
  · obtain rfl := Option.some.inj h
    exact hs.goOn ht (fun h => h) fun _ => trivial
  · obtain ⟨⟨s1, f'⟩, hstep, rfl⟩ := Option.map_eq_some_iff.mp h
    refine hs.call ht rfl (fun _ => hbackground) hstep hkeeps ?_ fun _ => ?_
    · cases f' <;> exact fun h => h
    · cases f' <;> trivial
  · obtain rfl := Option.some.inj h
    show Steady k until' n (State.setTask { s with log := s.log ++ _ } i .done)
    exact hs.set ht rfl rfl hs.entry (fun h => h) fun _ => trivial
  · obtain rfl := Option.some.inj h
    show Steady k until' n (State.setTask { s with
      cache := s.cache.pop key
      popped := s.popped ++ [(key, sent)] } i (.flush sent keys rest))
    have hkey : key ≠ k := by simpa [takesOut, ht] using hkeeps.2
    obtain ⟨data, hmem, hvalid, hanswer⟩ := hs.entry
    exact hs.set ht rfl rfl ⟨data, mem_pop.mpr ⟨hmem, Ne.symm hkey⟩, hvalid, hanswer⟩ (fun h => h) fun _ => trivial
  · cases h

/-- **One step** that leaves the key in the cache keeps it steady while it is valid. -/
theorem steady_step {nameOf : Text → Option N} {c : Choice N R} (hs : Steady k until' n s) (hsane : Sane s)
    (hnow : s.now ≤ until') (hkeeps : Keeps k s c) (h : step nameOf s c = some s') : Steady k until' n s' := by
  obtain ⟨s1, hact, rfl⟩ := Option.map_eq_some_iff.mp h
  suffices hs1 : Steady k until' n s1 from ⟨hs1.entry, hs1.bound, hs1.hits, hs1.good⟩
  rcases c with key | ⟨i, room⟩ | ⟨i, room⟩ | ⟨i, r⟩ | ms | m | _
  · obtain rfl := Option.some.inj hact
    exact hs.spawn (fun h => h) fun _ => trivial
  · obtain ⟨t, ht, hact⟩ := Option.bind_eq_some_iff.mp hact
    exact hs.taskStep hsane ht hnow hkeeps hact
  · obtain ⟨key, lookup, timer, m, ht, hact⟩ := act_timer hact
    obtain ⟨timer', m', rfl⟩ := timerStep_eq hact
    have hhits := hs.hits _ (List.mem_of_getElem? ht)
    exact hs.goOn ht (by cases lookup <;> exact hhits) fun hgood => hgood
  · obtain ⟨t, ht, hact⟩ := Option.bind_eq_some_iff.mp hact
    obtain ⟨t', hr, rfl⟩ := Option.map_eq_some_iff.mp hact
    have hhits := hs.hits t (List.mem_of_getElem? ht)
    unfold Task.replied at hr
    split at hr
    · obtain rfl := Option.some.inj hr
      exact hs.goOn ht hhits fun _ h => absurd h hhits
    · obtain rfl := Option.some.inj hr
      exact hs.goOn ht (fun h => h) fun _ => trivial
    · obtain rfl := Option.some.inj hr
      exact hs.goOn ht (fun h => h) fun _ => trivial
    · cases hr
  · obtain rfl := Option.some.inj hact
    refine ⟨hs.entry, ?_, hs.hits, hs.good⟩
    have hbound := hs.bound
    dsimp only
    omega
  · obtain rfl := Option.some.inj hact
    exact ⟨hs.entry, hs.bound, hs.hits, hs.good⟩
  · obtain ⟨m, sent, queue, -, rfl | ⟨keys, rfl⟩⟩ := deliverStep_eq hact
    · exact ⟨hs.entry, hs.bound, hs.hits, hs.good⟩
    · exact Steady.spawn (s := { s with queue := queue }) ⟨hs.entry, hs.bound, hs.hits, hs.good⟩ (fun h => h) trivial

end

section
variable [DecidableEq N] {nameOf : Text → Option N} {cap : ℕ} {s : State N R} {k : CacheKey N} {data : CacheData R}

theorem steady_start {n : ℕ} (hsane : Sane s) (hget : s.cache.get? k = some data) (hgood : Answer.Good data.answer)
    (hhits : ∀ t ∈ s.tasks, ¬ Misses k t) (hn : s.tasks.length ≤ n) : Steady k data.hardValidUntil n s where
  entry := ⟨data, mem_of_get? hget, le_rfl, hgood⟩
  bound := hsane.valid _ (mem_of_get? hget)
  hits := hhits
  good i t hi ht := by
    have hlt := (List.getElem?_eq_some_iff.mp ht).1
    omega

theorem now_queryStep {s' : State N R} {i : ℕ} {timer : Timer} {m : ℕ} {room : Bool} {lookup : Lookup R}
    (h : queryStep s i k timer m room lookup = some s') : s'.now = s.now := by
  rcases lookup with _ | u | _ | f | r | r | _
  · obtain rfl := Option.some.inj h
    rfl
  · simp only [queryStep, Option.ite_none_right_eq_some, Option.some.injEq] at h
    obtain ⟨-, rfl⟩ := h
    rfl
  · obtain rfl := Option.some.inj h
    unfold getStep
    rcases s.cache.get? k with _ | data
    · rfl
    dsimp only
    split_ifs <;> rfl
  · obtain ⟨⟨s1, f'⟩, hstep, rfl⟩ := Option.map_eq_some_iff.mp h
    exact (fetchStep_cache hstep).2.1
  · obtain rfl := Option.some.inj h
    rfl
  · simp only [queryStep, Option.ite_none_right_eq_some, Option.some.injEq] at h
    obtain ⟨-, rfl⟩ := h
    rfl
  · cases h

theorem now_taskStep {s' : State N R} {i : ℕ} {room : Bool} {t : Task N R} (h : taskStep s i room t = some s') :
    s'.now = s.now := by
  rcases t with ⟨key, lookup, timer, m⟩ | ⟨key, f⟩ | (u | (_ | ⟨key, keys⟩) | ⟨key, f, keys⟩) |
    ⟨sent, keys, _ | ⟨key, rest⟩⟩ | _
  · exact now_queryStep h
  · obtain ⟨⟨s1, f'⟩, hstep, rfl⟩ := Option.map_eq_some_iff.mp h
    exact (fetchStep_cache hstep).2.1
  · simp only [taskStep, updaterStep, Option.ite_none_right_eq_some, Option.some.injEq] at h
    obtain ⟨-, rfl⟩ := h
    rfl
  · obtain rfl := Option.some.inj h
    rfl
  · obtain rfl := Option.some.inj h
    rfl
  · obtain ⟨⟨s1, f'⟩, hstep, rfl⟩ := Option.map_eq_some_iff.mp h
    exact (fetchStep_cache hstep).2.1
  · obtain rfl := Option.some.inj h
    rfl
  · obtain rfl := Option.some.inj h
    rfl
  · cases h

/-- Time does not go back. -/
theorem now_le_of_step {s' : State N R} {c : Choice N R} (h : step nameOf s c = some s') : s.now ≤ s'.now := by
  obtain ⟨s1, hact, rfl⟩ := Option.map_eq_some_iff.mp h
  show s.now ≤ s1.now
  rcases c with key | ⟨i, room⟩ | ⟨i, room⟩ | ⟨i, r⟩ | ms | m | _
  · obtain rfl := Option.some.inj hact
    exact le_rfl
  · obtain ⟨t, -, hact⟩ := Option.bind_eq_some_iff.mp hact
    exact (now_taskStep hact).ge
  · obtain ⟨key, lookup, timer, m, -, hact⟩ := act_timer hact
    obtain ⟨timer', m', rfl⟩ := timerStep_eq hact
    exact le_rfl
  · obtain ⟨t, -, hact⟩ := Option.bind_eq_some_iff.mp hact
    obtain ⟨t', -, rfl⟩ := Option.map_eq_some_iff.mp hact
    exact le_rfl
  · obtain rfl := Option.some.inj hact
    exact Nat.le_add_right _ _
  · obtain rfl := Option.some.inj hact
    exact le_rfl
  · obtain ⟨m, sent, queue, -, rfl | ⟨keys, rfl⟩⟩ := deliverStep_eq hact
    · exact le_rfl
    · exact le_rfl

/-- **What is there is served**: from a state of a run in which the cache has an answer for a key that is not SERVFAIL,
and no lookup of the key asks the upstream, a query for the key that comes later gets no error and no SERVFAIL from its
lookup, whatever the upstream does, as long as the answer is valid and the key is not dropped or flushed. -/
theorem stale_served {pre cs : List (Choice N R)} (hs : after (step nameOf) (initial N R cap) pre = some s)
    (hget : s.cache.get? k = some data) (hgood : Answer.Good data.answer) (hhits : ∀ t ∈ s.tasks, ¬ Misses k t)
    (hkeeps : Along (step nameOf) (Keeps k) s cs) :
    Always (step nameOf) (fun s' => s'.now ≤ data.hardValidUntil → ∀ i lookup timer m, s.tasks.length ≤ i →
      s'.tasks[i]? = some (.query k lookup timer m) → LookupGood lookup) s cs := by
  have hsane : Sane s := by
    refine Always.after ?_ hs
    exact always_of_step (fun _ _ _ h hs => sane_step h hs) (sane_initial cap) pre
  refine (always_of_along (I := fun s' => Sane s' ∧ (s'.now ≤ data.hardValidUntil →
    Steady k data.hardValidUntil s.tasks.length s')) ?_ ⟨hsane, fun _ => steady_start hsane hget hgood hhits le_rfl⟩
    hkeeps).mono ?_
  · rintro s1 c s2 ⟨hsane1, hsteady⟩ hkeeps1 hs2
    refine ⟨sane_step hsane1 hs2, fun hnow => ?_⟩
    have hnow1 := (now_le_of_step hs2).trans hnow
    exact steady_step (hsteady hnow1) hsane1 hnow1 hkeeps1 hs2
  · rintro s' ⟨-, hsteady⟩ hnow i lookup timer m hi ht
    exact (hsteady hnow).good i _ hi ht rfl

end

/-! ### A query, and another one five minutes later -/

private def aName : CacheKey Text := ⟨['a'], 1, 1, false⟩

/-- The upstream gives an answer, which is put in the cache and sent. -/
def firstQuery : List (Choice Text Unit) :=
  [.query aName] ++ List.replicate 4 (.task 1 true) ++ [.reply 1 (.message ⟨0, ()⟩)] ++ List.replicate 4 (.task 1 true)

theorem answer_traced_firstQuery : Traced some 10 firstQuery aName ⟨⟨0, ()⟩, 5⟩ := by
  refine answer_traced rfl (Or.inr ?_)
  decide

/-- The answer is stale, and the refresh fails. -/
def secondQuery : List (Choice Text Unit) :=
  [.tick 400000, .query aName, .task 2 true, .task 2 true, .task 3 true, .task 3 true, .reply 3 .failed, .task 3 true,
    .task 2 true, .task 2 true]

/-- The state after the first query -/
def answered : State Text Unit := (after (step some) (initial Text Unit 10) firstQuery).getD (initial Text Unit 10)

theorem stale_served_secondQuery : Always (step some) (fun s' => s'.now ≤ 43200000 →
    ∀ i lookup timer m, answered.tasks.length ≤ i → s'.tasks[i]? = some (.query aName lookup timer m) →
      LookupGood lookup) answered secondQuery := by
  have hget : answered.cache.get? aName = some ⟨300000, 43200000, ⟨⟨0, ()⟩, 5⟩⟩ := by decide
  have hgood : Answer.Good (⟨⟨0, ()⟩, 5⟩ : Answer Unit) := by
    show (0 : ℕ) ≠ 2
    decide
  have hkeeps : Along (step some) (Keeps aName) answered secondQuery := by decide
  exact @stale_served _ _ _ some 10 answered aName _ firstQuery secondQuery rfl hget hgood (by decide) hkeeps

end HexDns.Cache.Answers
