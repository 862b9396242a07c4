import HexDns.Lib.Lru
import HexDns.Lib.Texts
import Mathlib.Data.Finset.Basic

/-! # The cache server

The tasks of `dns-cache` that share the cache and the set of keys in flight: the lookups of the queries,
each with the task of its timeout, the refreshes of stale hits, the periodic updater and the flushes.
`step` lets one task take its next step, the upstream reply to one fetch, time pass, or a flush message
be sent or delivered; the operations on the cache and on the set, and the requests to and replies of the
upstream, are steps of their own.

The number of the steps so far is the clock: an answer has the clock at which the upstream gave it, and
a flush message the one at which it was sent. The log is what the statements are about. Names are
those of the library, as `LowerName`; `nameOf` is `Name::from_str`. -/

namespace HexDns.Cache.Server

open HexDns.Lib.Lru HexDns.Lib.Texts

/-! ### Keys and answers -/

/-- `CacheKey`; classes and types are their codes. -/
structure CacheKey (N : Type) where
  name : N
  qclass : ℕ
  qtype : ℕ
  isDnssec : Bool
  deriving DecidableEq, Repr

/-- What the cache keeps of a message of the upstream: the response code, and the records with the
EDNS options. -/
structure Message (R : Type) where
  responseCode : ℕ
  sections : R
  deriving DecidableEq, Repr

/-- A message, with the clock at which the upstream gave it. -/
structure Answer (R : Type) extends Message R where
  produced : ℕ
  deriving DecidableEq, Repr

/-- `CacheData`, in milliseconds -/
structure CacheData (R : Type) where
  validUntil : ℕ
  hardValidUntil : ℕ
  answer : Answer R
  deriving DecidableEq, Repr

/-- `ResponseCode::ServFail` -/
def servFail : ℕ := 2

/-- `Result<Message, ResponseCode>` -/
abbrev Response (R : Type) := Except ℕ (Answer R)

/-! ### Flush messages -/

/-- `ClearCache` -/
structure ClearCache where
  label : Text
  dnsClass : ℕ
  recordType : ℕ
  deriving DecidableEq, Repr

/-- `KNOWN_RECORD_TYPES` -/
def knownRecordTypes : List ℕ := [1, 28, 257, 5, 13, 65, 15, 35, 2, 61, 12, 6, 33, 44, 64, 52, 16, 49]

/-- The classes that `DNSClass::from_u16` knows. -/
def knownClasses : List ℕ := [1, 3, 4, 254, 255]

variable {N R : Type}

/-- `add_key` -/
def addKey (name : N) (qtype qclass : ℕ) : List (CacheKey N) :=
  if qtype = 255 then
    knownRecordTypes.flatMap fun qtype => [⟨name, qclass, qtype, false⟩, ⟨name, qclass, qtype, true⟩]
  else [⟨name, qclass, qtype, false⟩, ⟨name, qclass, qtype, true⟩]

/-- The keys that a flush message clears, unless it is passed over. -/
def keysToClear (nameOf : Text → Option N) (m : ClearCache) : Option (List (CacheKey N)) :=
  match nameOf m.label with
  | none => none
  | some name =>
    let qclass := m.dnsClass % 2 ^ 16
    let qtype := m.recordType % 2 ^ 16
    if qclass ∉ knownClasses then none
    else if qclass = 255 then some ([1, 3, 4].flatMap (addKey name qtype))
    else some (addKey name qtype qclass)

/-! ### Tasks -/

/-- Where a call of `fetch_and_insert` is. -/
inductive Fetch (R : Type)
  /-- before the key is put in the set of keys in flight -/
  | insert
  /-- before the request to the upstream -/
  | request
  /-- the upstream has not replied -/
  | waiting
  /-- before the answer is put in the cache -/
  | put (a : Answer R)
  /-- before the key is taken from the set -/
  | remove (r : Response R)
  | done (r : Response R)
  deriving DecidableEq

/-- Where a lookup is. -/
inductive Lookup (R : Type)
  /-- before the set of keys in flight is asked -/
  | check
  | sleeping (until' : ℕ)
  /-- before the cache is asked -/
  | get
  | fetch (f : Fetch R)
  /-- `lookup_cache_or_fetch` has returned, and the timeout is still to be aborted -/
  | returned (r : Response R)
  /-- before the response is sent -/
  | responding (r : Response R)
  | done
  deriving DecidableEq

/-- Where the timeout of a query is. -/
inductive Timer
  | spawned
  | sleeping (until' : ℕ)
  /-- The five seconds are over, and the task runs; an abort takes effect only where it would wait. -/
  | running (aborted : Bool)
  /-- There is no room in the channel of the responses. -/
  | blocked
  | done
  | cancelled
  deriving DecidableEq

/-- `handle.abort()` -/
def Timer.abort : Timer → Timer
  | .spawned => .cancelled
  | .sleeping _ => .cancelled
  | .running _ => .running true
  | .blocked => .cancelled
  | .done => .done
  | .cancelled => .cancelled

/-- Where the updater is. -/
inductive Updater (N R : Type)
  | sleeping (until' : ℕ)
  | updating (keys : List (CacheKey N))
  | fetching (key : CacheKey N) (f : Fetch R) (keys : List (CacheKey N))
  deriving DecidableEq

inductive Task (N R : Type)
  /-- a query: its lookup, its timeout, and how many responses were sent -/
  | query (key : CacheKey N) (lookup : Lookup R) (timer : Timer) (responses : ℕ)
  | refresh (key : CacheKey N) (f : Fetch R)
  | updater (u : Updater N R)
  /-- the removal loop of a flush message that was sent at this clock: all its keys, and the ones to come -/
  | flush (sent : ℕ) (keys rest : List (CacheKey N))
  | done
  deriving DecidableEq

/-- What the log has. -/
inductive Event (N R : Type)
  /-- A response was sent that is built from an answer of the upstream. -/
  | response (key : CacheKey N) (a : Answer R)
  | put (key : CacheKey N) (a : Answer R)
  | evict (key : CacheKey N)
  /-- The removal loop of a flush is over. -/
  | flushed (key : CacheKey N) (sent : ℕ)
  deriving DecidableEq

structure State (N R : Type) where
  clock : ℕ
  /-- the time in milliseconds -/
  now : ℕ
  cache : Lru (CacheKey N) (CacheData R)
  inFlight : Finset (CacheKey N)
  tasks : List (Task N R)
  /-- the flush messages that were sent and not delivered -/
  queue : List (ClearCache × ℕ)
  /-- the keys that removal loops have taken out, with the clock of the message -/
  popped : List (CacheKey N × ℕ)
  log : List (Event N R)

/-- What the upstream replies. -/
inductive Reply (R : Type)
  | failed
  | undecodable
  | message (m : Message R)
  deriving DecidableEq

/-- What happens next. -/
inductive Choice (N R : Type)
  | query (key : CacheKey N)
  /-- A task takes its next step; there may be room in the channel of the responses. -/
  | task (i : ℕ) (room : Bool)
  | timer (i : ℕ) (room : Bool)
  | reply (i : ℕ) (r : Reply R)
  | tick (ms : ℕ)
  | sendFlush (m : ClearCache)
  | deliver

/-! ### Steps -/

def State.setTask (s : State N R) (i : ℕ) (t : Task N R) : State N R := { s with tasks := s.tasks.set i t }

def State.spawn (s : State N R) (t : Task N R) : State N R := { s with tasks := s.tasks ++ [t] }

/-- The next step of a timeout. -/
def timerStep (s : State N R) (i : ℕ) (key : CacheKey N) (lookup : Lookup R) (n : ℕ) (room : Bool) :
    Timer → Option (State N R)
  | .spawned => some (s.setTask i (.query key lookup (.sleeping (s.now + 5000)) n))
  | .sleeping u => if u ≤ s.now then some (s.setTask i (.query key lookup (.running false) n)) else none
  | .running aborted =>
    if room then some (s.setTask i (.query key lookup .done (n + 1)))
    else some (s.setTask i (.query key lookup (if aborted then .cancelled else .blocked) n))
  | .blocked => if room then some (s.setTask i (.query key lookup (.running false) n)) else none
  | .done => none
  | .cancelled => none

/-- A timeout changes nothing but itself and the number of responses. -/
theorem timerStep_eq {s s' : State N R} {i : ℕ} {key : CacheKey N} {lookup : Lookup R} {n : ℕ} {room : Bool}
    {timer : Timer} (h : timerStep s i key lookup n room timer = some s') :
    ∃ timer' n', s' = s.setTask i (.query key lookup timer' n') := by
  rcases timer with _ | u | aborted | _ | _ | _
  · exact ⟨_, _, (Option.some.inj h).symm⟩
  · simp only [timerStep, Option.ite_none_right_eq_some, Option.some.injEq] at h
    exact ⟨_, _, h.2.symm⟩
  · rcases room with _ | _
    · exact ⟨_, _, (Option.some.inj h).symm⟩
    · exact ⟨_, _, (Option.some.inj h).symm⟩
  · simp only [timerStep, Option.ite_none_right_eq_some, Option.some.injEq] at h
    exact ⟨_, _, h.2.symm⟩
  · cases h
  · cases h

variable [DecidableEq N]

/-- The answer is put in the cache, and may drop another key. -/
def State.put (s : State N R) (key : CacheKey N) (a : Answer R) : State N R :=
  let data : CacheData R := ⟨s.now + 300000, s.now + 43200000, a⟩
  { s with
    cache := s.cache.put key data
    log := s.log ++ (s.cache.evicted key data).toList.map .evict ++ [.put key a] }

/-- The next step of `fetch_and_insert`. -/
def fetchStep (s : State N R) (key : CacheKey N) : Fetch R → Option (State N R × Fetch R)
  | .insert => some ({ s with inFlight := insert key s.inFlight }, .request)
  | .request => some (s, .waiting)
  | .waiting => none
  | .put a => some (s.put key a, .remove (.ok a))
  | .remove r => some ({ s with inFlight := s.inFlight.erase key }, .done r)
  | .done _ => none

/-- What a call of `fetch_and_insert` does with the reply; `new` is its argument. -/
def Fetch.replied (new : Bool) (clock : ℕ) : Reply R → Fetch R
  | .failed => .remove (.error servFail)
  | .undecodable => .remove (.error servFail)
  | .message m => if m.responseCode ≠ servFail ∨ new then .put ⟨m, clock⟩ else .remove (.ok ⟨m, clock⟩)

/-- The cache is asked. -/
def getStep (s : State N R) (i : ℕ) (key : CacheKey N) (timer : Timer) (n : ℕ) : State N R :=
  match s.cache.get? key with
  | none => s.setTask i (.query key (.fetch .insert) timer n)
  | some data =>
    let used := { s with cache := s.cache.touch key }
    if data.hardValidUntil < s.now then used.setTask i (.query key (.fetch .insert) timer n)
    else
      let hit := used.setTask i (.query key (.returned (.ok data.answer)) timer n)
      if data.validUntil < s.now then hit.spawn (.refresh key .insert) else hit

/-- The response is sent. -/
def respondStep (s : State N R) (i : ℕ) (key : CacheKey N) (r : Response R) (timer : Timer) (n : ℕ) :
    State N R :=
  { s.setTask i (.query key .done timer (n + 1)) with
    log := s.log ++ (r.toOption.map fun a => .response key a).toList }

/-- The next step of a lookup, and of the query when it has returned. -/
def queryStep (s : State N R) (i : ℕ) (key : CacheKey N) (timer : Timer) (n : ℕ) (room : Bool) :
    Lookup R → Option (State N R)
  | .check =>
    some (s.setTask i (.query key (if key ∈ s.inFlight then .sleeping (s.now + 500) else .get) timer n))
  | .sleeping u => if u ≤ s.now then some (s.setTask i (.query key .check timer n)) else none
  | .get => some (getStep s i key timer n)
  | .fetch f => (fetchStep s key f).map fun p =>
      p.1.setTask i (.query key (match p.2 with
        | .done r => .returned r
        | f => .fetch f) timer n)
  | .returned r => some (s.setTask i (.query key (.responding r) timer.abort n))
  | .responding r => if room then some (respondStep s i key r timer n) else none
  | .done => none

/-- The keys that the updater fetches again. -/
def expired (s : State N R) : List (CacheKey N) :=
  (s.cache.entries.filter fun e => e.2.validUntil < s.now).map Prod.fst

def updaterStep (s : State N R) (i : ℕ) : Updater N R → Option (State N R)
  | .sleeping u => if u ≤ s.now then some (s.setTask i (.updater (.updating (expired s)))) else none
  | .updating [] => some (s.setTask i (.updater (.sleeping (s.now + 60000))))
  | .updating (key :: keys) => some (s.setTask i (.updater (.fetching key .insert keys)))
  | .fetching key f keys => (fetchStep s key f).map fun p =>
      p.1.setTask i (.updater (match p.2 with
        | .done _ => .updating keys
        | f => .fetching key f keys))

def refreshStep (s : State N R) (i : ℕ) (key : CacheKey N) (f : Fetch R) : Option (State N R) :=
  (fetchStep s key f).map fun p =>
    p.1.setTask i (match p.2 with
      | .done _ => .done
      | f => .refresh key f)

/-- The next step of a removal loop. -/
def flushStep (s : State N R) (i sent : ℕ) (keys : List (CacheKey N)) : List (CacheKey N) → State N R
  | key :: rest =>
    { s.setTask i (.flush sent keys rest) with
      cache := s.cache.pop key
      popped := s.popped ++ [(key, sent)] }
  | [] => { s.setTask i .done with log := s.log ++ keys.map fun key => .flushed key sent }

def taskStep (s : State N R) (i : ℕ) (room : Bool) : Task N R → Option (State N R)
  | .query key lookup timer n => queryStep s i key timer n room lookup
  | .refresh key f => refreshStep s i key f
  | .updater u => updaterStep s i u
  | .flush sent keys rest => some (flushStep s i sent keys rest)
  | .done => none

/-- The upstream replies to the fetch of a task, if it waits for it. -/
def Task.replied (clock : ℕ) (r : Reply R) : Task N R → Option (Task N R)
  | .query key (.fetch .waiting) timer n => some (.query key (.fetch (.replied true clock r)) timer n)
  | .refresh key .waiting => some (.refresh key (.replied false clock r))
  | .updater (.fetching key .waiting keys) => some (.updater (.fetching key (.replied false clock r) keys))
  | _ => none

/-- A flush message is delivered. -/
def deliverStep (nameOf : Text → Option N) (s : State N R) : Option (State N R) :=
  match s.queue with
  | [] => none
  | (m, sent) :: queue =>
    match keysToClear nameOf m with
    | none => some { s with queue := queue }
    | some keys => some (State.spawn { s with queue := queue } (.flush sent keys keys))

def act (nameOf : Text → Option N) (s : State N R) : Choice N R → Option (State N R)
  | .query key => some (s.spawn (.query key .check .spawned 0))
  | .task i room => (s.tasks[i]?).bind (taskStep s i room)
  | .timer i room =>
    match s.tasks[i]? with
    | some (.query key lookup timer n) => timerStep s i key lookup n room timer
    | _ => none
  | .reply i r => (s.tasks[i]?).bind fun t => (t.replied s.clock r).map (s.setTask i)
  | .tick ms => some { s with now := s.now + ms }
  | .sendFlush m => some { s with queue := s.queue ++ [(m, s.clock)] }
  | .deliver => deliverStep nameOf s

/-- A step of the server. -/
def step (nameOf : Text → Option N) (s : State N R) (c : Choice N R) : Option (State N R) :=
  (act nameOf s c).map fun s' => { s' with clock := s.clock + 1 }

/-! ### What a step is -/

section
variable {s s' : State N R} {nameOf : Text → Option N}

omit [DecidableEq N] in
/-- The message is taken from the queue, and may spawn its removal loop. -/
theorem deliverStep_eq (h : deliverStep nameOf s = some s') : ∃ m sent queue, s.queue = (m, sent) :: queue ∧
    (s' = { s with queue := queue } ∨
      ∃ keys, s' = State.spawn { s with queue := queue } (.flush sent keys keys)) := by
  unfold deliverStep at h
  rcases hq : s.queue with _ | ⟨⟨m, sent⟩, queue⟩
  · rw [hq] at h
    cases h
  rw [hq] at h
  dsimp only at h
  refine ⟨m, sent, queue, rfl, ?_⟩
  rcases hkeys : keysToClear nameOf m with _ | keys
  · rw [hkeys] at h
    exact Or.inl (Option.some.inj h).symm
  · rw [hkeys] at h
    exact Or.inr ⟨keys, (Option.some.inj h).symm⟩

theorem act_timer {i : ℕ} {room : Bool} (h : act nameOf s (.timer i room) = some s') :
    ∃ key lookup timer n, s.tasks[i]? = some (.query key lookup timer n) ∧
      timerStep s i key lookup n room timer = some s' := by
  rcases ht : s.tasks[i]? with _ | t
  · simp only [act, ht] at h
    cases h
  · rcases t with ⟨key, lookup, timer, n⟩ | ⟨key, f⟩ | u | ⟨sent, keys, rest⟩ | _ <;>
      simp only [act, ht] at h
    · exact ⟨key, lookup, timer, n, rfl, h⟩
    all_goals cases h

theorem fetchStep_tasks {key : CacheKey N} {f f' : Fetch R} (h : fetchStep s key f = some (s', f')) :
    s'.tasks = s.tasks := by
  rcases f with _ | _ | _ | b | r | r
  case waiting => cases h
  case done => cases h
  all_goals
    obtain ⟨rfl, -⟩ := Prod.mk.inj (Option.some.inj h)
    rfl

end

/-- The server as it starts, with a cache of so many entries. -/
def initial (N R : Type) [DecidableEq N] (cap : ℕ) : State N R where
  clock := 0
  now := 0
  cache := .empty _ _ cap
  inFlight := ∅
  tasks := [.updater (.sleeping 60000)]
  queue := []
  popped := []
  log := []

end HexDns.Cache.Server
