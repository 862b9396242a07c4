import HexDns.Cache.Server
import HexDns.Lib.Runs

/-! # What a flush clears

A flush message names entries by their name, their class and their type, where ANY is every class and every
type. The removal loop takes out the keys of two fixed lists instead: three classes and eighteen types. So
it reaches the entries that the message names, and only these, as long as their classes and types are in the
lists (`reaches_iff`). -/

namespace HexDns.Cache.Coverage

open HexDns.Lib.Lru HexDns.Lib.Runs HexDns.Lib.Texts HexDns.Cache.Server

variable {N R : Type} [DecidableEq N]

/-- The message names the key. -/
def Named (name : N) (m : ClearCache) (key : CacheKey N) : Prop :=
  key.name = name ∧ (m.dnsClass % 2 ^ 16 = 255 ∨ key.qclass = m.dnsClass % 2 ^ 16) ∧
    (m.recordType % 2 ^ 16 = 255 ∨ key.qtype = m.recordType % 2 ^ 16)

/-- No entry that the message names is left, and all the other ones are. -/
def Exact (name : N) (m : ClearCache) (before after : Lru (CacheKey N) (CacheData R)) : Prop :=
  ∀ e, e ∈ after.entries ↔ e ∈ before.entries ∧ ¬ Named name m e.1

/-- The class is known, and the classes and types that ANY stands for are in the lists. -/
def Listed (m : ClearCache) (key : CacheKey N) : Prop :=
  m.dnsClass % 2 ^ 16 ∈ knownClasses ∧ (m.dnsClass % 2 ^ 16 = 255 → key.qclass ∈ [1, 3, 4]) ∧
    (m.recordType % 2 ^ 16 = 255 → key.qtype ∈ knownRecordTypes)

/-- The delivery of the next message, and its removal loop. -/
def flushRun (nameOf : Text → Option N) (s : State N R) (m : ClearCache) : List (Choice N R) :=
  .deliver :: match keysToClear nameOf m with
    | none => []
    | some keys => List.replicate (keys.length + 1) (.task s.tasks.length false)

/-! ### The keys -/

omit [DecidableEq N] in
theorem mem_addKey {name : N} {qtype qclass : ℕ} {key : CacheKey N} :
    key ∈ addKey name qtype qclass ↔ key.name = name ∧ key.qclass = qclass ∧
      if qtype = 255 then key.qtype ∈ knownRecordTypes else key.qtype = qtype := by
  obtain ⟨n, c, t, b⟩ := key
  have hpair : ∀ u, (⟨n, c, t, b⟩ : CacheKey N) ∈ [⟨name, qclass, u, false⟩, ⟨name, qclass, u, true⟩] ↔
      n = name ∧ c = qclass ∧ t = u := by
    intro u
    cases b <;> simp
  unfold addKey
  split_ifs with hany
  · rw [List.mem_flatMap]
    simp only [hpair]
    constructor
    · rintro ⟨u, hu, hn, hc, rfl⟩
      exact ⟨hn, hc, hu⟩
    · rintro ⟨hn, hc, ht⟩
      exact ⟨t, ht, hn, hc, rfl⟩
  · exact hpair qtype

omit [DecidableEq N] in
/-- The keys that are cleared are those that the message names, as far as they are listed. -/
theorem mem_keysToClear {nameOf : Text → Option N} {m : ClearCache} {name : N} (hname : nameOf m.label = some name)
    {key : CacheKey N} : (∃ keys, keysToClear nameOf m = some keys ∧ key ∈ keys) ↔ Named name m key ∧ Listed m key := by
  unfold keysToClear Named Listed
  rw [hname]
  dsimp only
  generalize m.dnsClass % 2 ^ 16 = qclass
  generalize m.recordType % 2 ^ 16 = qtype
  by_cases hknown : qclass ∈ knownClasses
  · rw [if_neg (not_not.mpr hknown)]
    have htype : (if qtype = 255 then key.qtype ∈ knownRecordTypes else key.qtype = qtype) ↔
        (qtype = 255 ∨ key.qtype = qtype) ∧ (qtype = 255 → key.qtype ∈ knownRecordTypes) := by
      split_ifs with hany
      · simp [hany]
      · simp [hany]
    by_cases hany : qclass = 255
    · rw [if_pos hany]
      simp only [Option.some.injEq, exists_eq_left', List.mem_flatMap, mem_addKey, htype]
      constructor
      · rintro ⟨c, hc, hn, rfl, ht, hlisted⟩
        exact ⟨⟨hn, Or.inl hany, ht⟩, hknown, fun _ => hc, hlisted⟩
      · rintro ⟨⟨hn, -, ht⟩, -, hc, hlisted⟩
        exact ⟨key.qclass, hc hany, hn, rfl, ht, hlisted⟩
    · rw [if_neg hany]
      simp only [Option.some.injEq, exists_eq_left', mem_addKey, htype]
      constructor
      · rintro ⟨hn, hc, ht, hlisted⟩
        exact ⟨⟨hn, Or.inr hc, ht⟩, hknown, fun h => absurd h hany, hlisted⟩
      · rintro ⟨⟨hn, hc, ht⟩, -, -, hlisted⟩
        exact ⟨hn, hc.resolve_left hany, ht, hlisted⟩
  · rw [if_pos hknown]
    refine iff_of_false ?_ fun h => hknown h.2.1
    rintro ⟨keys, hkeys, -⟩
    cases hkeys

/-! ### The removal loop -/

theorem step_flush {nameOf : Text → Option N} {s : State N R} {i sent : ℕ} {keys rest : List (CacheKey N)}
    (ht : s.tasks[i]? = some (.flush sent keys rest)) :
    step nameOf s (.task i false) = some { flushStep s i sent keys rest with clock := s.clock + 1 } := by
  show ((s.tasks[i]?).bind (taskStep s i false)).map _ = _
  rw [ht]
  rfl

omit [DecidableEq N] in
theorem getElem?_setTask {s : State N R} {i : ℕ} {t t' : Task N R} (ht : s.tasks[i]? = some t) :
    (s.setTask i t').tasks[i]? = some t' := by
  obtain ⟨hlt, -⟩ := List.getElem?_eq_some_iff.mp ht
  show (s.tasks.set i t')[i]? = _
  rw [List.getElem?_set_self hlt]

/-- The loop takes out its keys one after the other. -/
theorem after_loop (nameOf : Text → Option N) {s : State N R} {i sent : ℕ} {keys rest : List (CacheKey N)}
    (ht : s.tasks[i]? = some (.flush sent keys rest)) :
    ∃ s', after (step nameOf) s (List.replicate (rest.length + 1) (.task i false)) = some s' ∧
      s'.tasks[i]? = some .done ∧ ∀ e, e ∈ s'.cache.entries ↔ e ∈ s.cache.entries ∧ e.1 ∉ rest := by
  induction rest generalizing s with
  | nil =>
    refine ⟨{ flushStep s i sent keys [] with clock := s.clock + 1 }, ?_, getElem?_setTask ht,
      fun e => (and_iff_left List.not_mem_nil).symm⟩
    show (step nameOf s (.task i false)).bind _ = _
    rw [step_flush ht]
    rfl
  | cons key rest ih =>
    have ht' : ({ flushStep s i sent keys (key :: rest) with clock := s.clock + 1 } : State N R).tasks[i]? =
        some (.flush sent keys rest) := getElem?_setTask ht
    obtain ⟨s', hrun, hdone, hentries⟩ := ih ht'
    refine ⟨s', ?_, hdone, fun e => ?_⟩
    · show (step nameOf s (.task i false)).bind _ = _
      rw [step_flush ht]
      exact hrun
    · rw [hentries]
      show e ∈ (s.cache.pop key).entries ∧ e.1 ∉ rest ↔ _
      rw [mem_pop, List.mem_cons, not_or, and_assoc]

/-- **A flush reaches what it names, and nothing else,** if and only if the classes and types of the entries
that it names are in the lists. -/
theorem reaches_iff {nameOf : Text → Option N} {s : State N R} {m : ClearCache} {sent : ℕ}
    {queue : List (ClearCache × ℕ)} {name : N} (hq : s.queue = (m, sent) :: queue)
    (hname : nameOf m.label = some name) :
    ∃ s', after (step nameOf) s (flushRun nameOf s m) = some s' ∧
      (Exact name m s.cache s'.cache ↔ ∀ e ∈ s.cache.entries, Named name m e.1 → Listed m e.1) := by
  have hcleared : ∃ s', after (step nameOf) s (flushRun nameOf s m) = some s' ∧
      ∀ e, e ∈ s'.cache.entries ↔ e ∈ s.cache.entries ∧ ¬ (Named name m e.1 ∧ Listed m e.1) := by
    have hmem := fun key : CacheKey N => @mem_keysToClear N nameOf m name hname key
    unfold flushRun
    rcases hkeys : keysToClear nameOf m with _ | keys <;> simp only [hkeys] at hmem
    · have hdeliver : step nameOf s .deliver = some { s with queue := queue, clock := s.clock + 1 } := by
        show (deliverStep nameOf s).map _ = _
        unfold deliverStep
        rw [hq]
        dsimp only
        rw [hkeys]
        rfl
      refine ⟨{ s with queue := queue, clock := s.clock + 1 }, ?_, fun e => (and_iff_left ?_).symm⟩
      · show (step nameOf s .deliver).bind _ = _
        rw [hdeliver]
        rfl
      · intro hnamed
        obtain ⟨keys, hnone, -⟩ := (hmem e.1).mpr hnamed
        cases hnone
    · have hdeliver : step nameOf s .deliver =
          some { State.spawn { s with queue := queue } (.flush sent keys keys) with clock := s.clock + 1 } := by
        show (deliverStep nameOf s).map _ = _
        unfold deliverStep
        rw [hq]
        dsimp only
        rw [hkeys]
        rfl
      have ht : ({ State.spawn { s with queue := queue } (.flush sent keys keys) with clock := s.clock + 1 } :
          State N R).tasks[s.tasks.length]? = some (.flush sent keys keys) :=
        List.getElem?_concat_length
      obtain ⟨s', hrun, -, hentries⟩ := after_loop nameOf ht
      refine ⟨s', ?_, fun e => ?_⟩
      · show (step nameOf s .deliver).bind _ = _
        rw [hdeliver]
        exact hrun
      · have hkey : e.1 ∈ keys ↔ Named name m e.1 ∧ Listed m e.1 := by
          rw [← hmem]
          simp
        exact (hentries e).trans (and_congr_right fun _ => not_congr hkey)
  obtain ⟨s', hrun, hentries⟩ := hcleared
  refine ⟨s', hrun, ?_⟩
  unfold Exact
  constructor
  · intro hexact e he hnamed
    by_contra hlisted
    have hkept := (hentries e).mpr ⟨he, fun h => hlisted h.2⟩
    exact ((hexact e).mp hkept).2 hnamed
  · intro hall e
    rw [hentries]
    exact and_congr_right fun he => not_congr (and_iff_left_of_imp (hall e he))

/-! ### One entry -/

/-- A server with one entry and one flush message. -/
private def oneEntry (qtype : ℕ) (m : ClearCache) : State Text Unit :=
  { initial Text Unit 10 with
    cache := (Lru.empty _ _ 10).put ⟨['a'], 1, qtype, false⟩ ⟨0, 0, ⟨⟨0, ()⟩, 0⟩⟩
    queue := [(m, 0)] }

theorem exact_oneEntry : ∃ s', after (step some) (oneEntry 1 ⟨['a'], 1, 255⟩)
      (flushRun some (oneEntry 1 ⟨['a'], 1, 255⟩) ⟨['a'], 1, 255⟩) = some s' ∧
    (Exact ['a'] ⟨['a'], 1, 255⟩ (oneEntry 1 ⟨['a'], 1, 255⟩).cache s'.cache ↔
      ∀ e ∈ (oneEntry 1 ⟨['a'], 1, 255⟩).cache.entries, Named ['a'] ⟨['a'], 1, 255⟩ e.1 →
        Listed ⟨['a'], 1, 255⟩ e.1) :=
  reaches_iff rfl rfl

/-- A flush of every type leaves an entry of the type DS. -/
theorem not_exact_ds : ∃ s', after (step some) (oneEntry 43 ⟨['a'], 1, 255⟩)
      (flushRun some (oneEntry 43 ⟨['a'], 1, 255⟩) ⟨['a'], 1, 255⟩) = some s' ∧
    ¬ Exact ['a'] ⟨['a'], 1, 255⟩ (oneEntry 43 ⟨['a'], 1, 255⟩).cache s'.cache := by
  refine ⟨_, rfl, fun hexact => ?_⟩
  have hleft := (hexact (⟨['a'], 1, 43, false⟩, ⟨0, 0, ⟨⟨0, ()⟩, 0⟩⟩)).mp (by decide)
  exact hleft.2 ⟨rfl, Or.inr rfl, Or.inl rfl⟩

end HexDns.Cache.Coverage
