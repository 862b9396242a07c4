import HexDns.Lib.Runs
import HexDns.Net.Tcp

/-! # The server of the cache

`Server` of `dns-cache/src/lib.rs`, on which `dns-cache` and the server for updates run: the tasks that read
the sockets and connections, `handle_requests`, which spawns a handler for every request, the handlers,
`handle_responses`, and the tasks that write. Between them are channels with room for so many messages; a
task that finds no room waits. `step` lets one of the tasks, a client or the time go on.

The handler is a parameter: a state, and what it does next when something comes that it waits for. The fields
that no step reads (`submitted`, `taken`, `dispatched`, `serialised`, and the task of a response) record what
went through the channels. -/

namespace HexDns.Net.Server

open HexDns.Lib.Texts HexDns.Lib.Runs HexDns.Lib.Frames HexDns.Net.Tcp

/-! ### What the server runs on -/

/-- What the server uses of the DNS library. -/
structure Codec (M : Type) where
  /-- `Message::from_bytes` -/
  decode : Bytes → Option M
  hasQuery : M → Bool
  /-- `to_bytes` -/
  encode : M → Option Bytes

/-- A handler of requests, given as bytes and as a message, that responds with a message at a time. -/
structure Handler (M S I : Type) where
  start : Bytes → M → S
  step : S → I → Option (S × Option M)

/-- The room in a channel -/
def capacity : ℕ := 1024

variable {A M S I : Type}

/-! ### Sockets and connections -/

/-- `IncomingMessage`; the context is the number of the socket or connection. -/
structure Incoming (A : Type) where
  msg : Bytes
  addr : A
  context : ℕ
  deriving DecidableEq

/-- `OutgoingMessage`, with the task that responds. -/
structure Outgoing (A M : Type) where
  msg : M
  addr : A
  context : ℕ
  task : ℕ
  deriving DecidableEq

inductive Transport (A : Type)
  /-- a socket, with the datagrams that were sent -/
  | udp (sent : List (A × Bytes))
  | tcp (addr : A) (stream : Stream)
  deriving DecidableEq

/-- A socket or a connection, with its channel of responses. -/
structure Port (A : Type) where
  transport : Transport A
  /-- the messages that were put in the channel of requests -/
  submitted : List (A × Bytes)
  /-- the message that is put there next -/
  blocked : Option (A × Bytes)
  queue : List (A × Bytes)
  /-- the responses that were taken from the channel -/
  taken : List (A × Bytes)
  deriving DecidableEq

/-- What happens at a socket or connection. -/
inductive PortChoice (A : Type)
  | receive (b : Bytes)
  | close
  | fail
  | read
  | readFails
  | timeout
  | write (cut : Option ℕ)
  | datagram (addr : A) (b : Bytes)
  | send (ok : Bool)

/-- The size of the buffer for datagrams -/
def datagramSize : ℕ := 4096

/-- The next response is taken from the channel. -/
def Port.take (p : Port A) (f : A × Bytes → Transport A) : Option (Port A) :=
  match p.queue with
  | [] => none
  | m :: rest => some { p with transport := f m, queue := rest, taken := p.taken ++ [m] }

def Port.tcpStep (now : ℕ) (p : Port A) (addr : A) (s : Stream) : PortChoice A → Option (Port A)
  | .receive b => (s.receive b).map fun s => { p with transport := .tcp addr s }
  | .close => some { p with transport := .tcp addr { s with peer := .closed } }
  | .fail => some { p with transport := .tcp addr { s with peer := .failed } }
  | .read =>
    if p.blocked.isSome then none
    else (s.read now).map fun r => { p with transport := .tcp addr r.1, blocked := r.2.map fun m => (addr, m) }
  | .readFails => if p.blocked.isSome then none else s.readFails.map fun s => { p with transport := .tcp addr s }
  | .timeout => if p.blocked.isSome then none else (s.timeout now).map fun s => { p with transport := .tcp addr s }
  | .write cut => p.take fun m => .tcp addr (s.write m.2 cut)
  | .datagram _ _ => none
  | .send _ => none

def Port.udpStep (p : Port A) (sent : List (A × Bytes)) : PortChoice A → Option (Port A)
  | .datagram addr b =>
    if p.blocked.isSome then none else some { p with blocked := some (addr, b.take datagramSize) }
  | .send ok => p.take fun m => .udp (if ok then sent ++ [m] else sent)
  | _ => none

def Port.step (now : ℕ) (p : Port A) (c : PortChoice A) : Option (Port A) :=
  match p.transport with
  | .tcp addr s => p.tcpStep now addr s c
  | .udp sent => p.udpStep sent c

/-- The message is in the channel of requests, and the loop goes on with the next one. -/
def Port.submit (now : ℕ) (p : Port A) (m : A × Bytes) : Port A :=
  { p with
    submitted := p.submitted ++ [m]
    blocked := none
    transport := match p.transport with
      | .tcp addr s => .tcp addr { s with reader := s.reader.map fun r => (r.1, now + readTimeout) }
      | .udp sent => .udp sent }

/-! ### The server -/

/-- A handler that runs. -/
structure Task (A S M : Type) where
  request : Incoming A
  state : S
  /-- the response that it sends -/
  sending : Option M

structure State (A S M : Type) where
  /-- the time in milliseconds -/
  now : ℕ
  ports : List (Port A)
  requests : List (Incoming A)
  /-- the requests that `handle_requests` has taken from its channel -/
  dispatched : List (Incoming A)
  tasks : List (Task A S M)
  responses : List (Outgoing A M)
  /-- the responses that `handle_responses` has taken from its channel -/
  serialised : List (Outgoing A M)
  /-- the one that it passes on -/
  delivering : Option (ℕ × A × Bytes)

/-- What happens next. -/
inductive Choice (A I : Type)
  | accept (addr : A)
  | port (i : ℕ) (c : PortChoice A)
  | submit (i : ℕ)
  | dispatch
  | task (k : ℕ) (input : I)
  | respond (k : ℕ)
  | serialise
  | route
  | tick (ms : ℕ)

section
variable (codec : Codec M) (handler : Handler M S I)

/-- A message that `handle_requests` spawns a handler for. -/
def isRequest (b : Bytes) : Bool :=
  match codec.decode b with
  | some m => codec.hasQuery m
  | none => false

/-- The handler that is spawned. -/
def started (r : Incoming A) : Option (Task A S M) :=
  match codec.decode r.msg with
  | some m => if codec.hasQuery m then some ⟨r, handler.start r.msg m, none⟩ else none
  | none => none

def step (s : State A S M) : Choice A I → Option (State A S M)
  | .accept addr => some { s with ports := s.ports ++ [⟨.tcp addr (.accepted s.now), [], none, [], []⟩] }
  | .port i c => (s.ports[i]?).bind fun p => (p.step s.now c).map fun p => { s with ports := s.ports.set i p }
  | .submit i => (s.ports[i]?).bind fun p => p.blocked.bind fun m =>
      if s.requests.length < capacity then
        some { s with ports := s.ports.set i (p.submit s.now m), requests := s.requests ++ [⟨m.2, m.1, i⟩] }
      else none
  | .dispatch =>
    match s.requests with
    | [] => none
    | r :: rest => some { s with
        requests := rest
        dispatched := s.dispatched ++ [r]
        tasks := s.tasks ++ (started codec handler r).toList }
  | .task k input => (s.tasks[k]?).bind fun t =>
      if t.sending.isSome then none
      else (handler.step t.state input).map fun r =>
        { s with tasks := s.tasks.set k { t with state := r.1, sending := r.2 } }
  | .respond k => (s.tasks[k]?).bind fun t => t.sending.bind fun m =>
      if s.responses.length < capacity then
        some { s with
          tasks := s.tasks.set k { t with sending := none }
          responses := s.responses ++ [⟨m, t.request.addr, t.request.context, k⟩] }
      else none
  | .serialise =>
    if s.delivering.isSome then none
    else
      match s.responses with
      | [] => none
      | o :: rest => some { s with
          responses := rest
          serialised := s.serialised ++ [o]
          delivering := (codec.encode o.msg).map fun b => (o.context, o.addr, b) }
  | .route => s.delivering.bind fun d => (s.ports[d.1]?).bind fun p =>
      if p.queue.length < capacity then
        some { s with delivering := none, ports := s.ports.set d.1 { p with queue := p.queue ++ [d.2] } }
      else none
  | .tick ms => some { s with now := s.now + ms }

end

/-- The server as it starts, with so many UDP sockets. -/
def initial (A S M : Type) (sockets : ℕ) : State A S M :=
  ⟨0, List.replicate sockets ⟨.udp [], [], none, [], []⟩, [], [], [], [], [], none⟩

/-! ### What went through the channels -/

/-- What was read at a socket or connection. -/
def Port.got (p : Port A) : List (A × Bytes) := p.submitted ++ p.blocked.toList

/-- What was put in its channel of responses. -/
def Port.given (p : Port A) : List (A × Bytes) := p.taken ++ p.queue

/-- What is read and written at a socket or connection is what its channels say. -/
def Port.Good (p : Port A) : Prop :=
  match p.transport with
  | .tcp addr s => s.Sound (p.got.map Prod.snd) (p.taken.map Prod.snd) ∧ ∀ m ∈ p.got, m.1 = addr
  | .udp sent => sent.Sublist p.taken

section
variable {p p' : Port A} {now : ℕ}

theorem Port.take_eq {f : A × Bytes → Transport A} (h : p.take f = some p') : ∃ m rest, p.queue = m :: rest ∧
    p' = { p with transport := f m, queue := rest, taken := p.taken ++ [m] } := by
  unfold Port.take at h
  split at h
  · cases h
  · rename_i m rest hqueue
    exact ⟨m, rest, hqueue, (Option.some.inj h).symm⟩

/-- A message comes in only where none waits. -/
theorem Port.got_blocked {m : Option (A × Bytes)} {t : Transport A} (h : ¬ p.blocked.isSome = true) :
    ({ p with transport := t, blocked := m } : Port A).got = p.got ++ m.toList := by
  have hnone : p.blocked = none := by simpa using h
  show p.submitted ++ m.toList = p.submitted ++ p.blocked.toList ++ m.toList
  rw [hnone, Option.toList_none, List.append_nil]

theorem Port.tcpStep_good {addr : A} {s : Stream} {c : PortChoice A} (ht : p.transport = .tcp addr s)
    (hgood : p.Good) (h : p.tcpStep now addr s c = some p') :
    p'.submitted = p.submitted ∧ p'.given = p.given ∧ p'.Good := by
  obtain ⟨hsound, haddr⟩ : s.Sound (p.got.map Prod.snd) (p.taken.map Prod.snd) ∧ ∀ m ∈ p.got, m.1 = addr := by
    simpa only [Port.Good, ht] using hgood
  cases c with
  | receive b =>
    obtain ⟨s', hs, rfl⟩ := Option.map_eq_some_iff.mp h
    exact ⟨rfl, rfl, hsound.receive hs, haddr⟩
  | close =>
    obtain rfl := Option.some.inj h
    exact ⟨rfl, rfl, ⟨hsound.hasRead, hsound.lengths, hsound.hasWritten⟩, haddr⟩
  | fail =>
    obtain rfl := Option.some.inj h
    exact ⟨rfl, rfl, ⟨hsound.hasRead, hsound.lengths, hsound.hasWritten⟩, haddr⟩
  | read =>
    simp only [Port.tcpStep, Option.ite_none_left_eq_some] at h
    obtain ⟨hblocked, h⟩ := h
    obtain ⟨⟨s', handed⟩, hs, rfl⟩ := Option.map_eq_some_iff.mp h
    refine ⟨rfl, rfl, ?_⟩
    unfold Port.Good
    dsimp only
    rw [Port.got_blocked hblocked]
    refine ⟨?_, fun m hm => ?_⟩
    · have hread := hsound.read hs
      rwa [List.map_append, show (handed.map fun m => (addr, m)).toList.map Prod.snd = handed.toList by
        cases handed <;> rfl]
    · rcases List.mem_append.mp hm with hm | hm
      · exact haddr m hm
      · obtain ⟨b, -, rfl⟩ := Option.map_eq_some_iff.mp (Option.mem_toList.mp hm)
        rfl
  | readFails =>
    simp only [Port.tcpStep, Option.ite_none_left_eq_some] at h
    obtain ⟨s', hs, rfl⟩ := Option.map_eq_some_iff.mp h.2
    obtain rfl := Stream.readFails_eq hs
    exact ⟨rfl, rfl, hsound.stop, haddr⟩
  | timeout =>
    simp only [Port.tcpStep, Option.ite_none_left_eq_some] at h
    obtain ⟨s', hs, rfl⟩ := Option.map_eq_some_iff.mp h.2
    obtain rfl := Stream.timeout_eq hs
    exact ⟨rfl, rfl, hsound.stop, haddr⟩
  | write cut =>
    obtain ⟨m, rest, hqueue, rfl⟩ := Port.take_eq h
    refine ⟨rfl, ?_, ?_, haddr⟩
    · simp [Port.given, hqueue]
    · show (s.write m.2 cut).Sound (p.got.map Prod.snd) ((p.taken ++ [m]).map Prod.snd)
      rw [List.map_append]
      exact hsound.write
  | datagram addr b => cases h
  | send ok => cases h

theorem Port.udpStep_good {sent : List (A × Bytes)} {c : PortChoice A} (ht : p.transport = .udp sent)
    (hgood : p.Good) (h : p.udpStep sent c = some p') :
    p'.submitted = p.submitted ∧ p'.given = p.given ∧ p'.Good := by
  have hsent : sent.Sublist p.taken := by simpa only [Port.Good, ht] using hgood
  cases c with
  | datagram addr b =>
    simp only [Port.udpStep, Option.ite_none_left_eq_some, Option.some.injEq] at h
    obtain ⟨-, rfl⟩ := h
    refine ⟨rfl, rfl, ?_⟩
    simpa only [Port.Good, ht] using hsent
  | send ok =>
    obtain ⟨m, rest, hqueue, rfl⟩ := Port.take_eq h
    refine ⟨rfl, ?_, ?_⟩
    · simp [Port.given, hqueue]
    · show (if ok then sent ++ [m] else sent).Sublist (p.taken ++ [m])
      cases ok with
      | true => exact hsent.append (List.Sublist.refl _)
      | false => exact hsent.trans (List.sublist_append_left _ _)
  | _ => cases h

/-- **What happens at a socket or connection** changes nothing in the channels of requests and responses. -/
theorem Port.step_good {c : PortChoice A} (hgood : p.Good) (h : p.step now c = some p') :
    p'.submitted = p.submitted ∧ p'.given = p.given ∧ p'.Good := by
  unfold Port.step at h
  rcases ht : p.transport with sent | ⟨addr, s⟩
  · rw [ht] at h
    exact Port.udpStep_good ht hgood h
  · rw [ht] at h
    exact Port.tcpStep_good ht hgood h

theorem Port.submit_good {m : A × Bytes} (hblocked : p.blocked = some m) (hgood : p.Good) :
    (p.submit now m).Good ∧ (p.submit now m).given = p.given := by
  have hgot : (p.submit now m).got = p.got := by simp [Port.submit, Port.got, hblocked]
  refine ⟨?_, rfl⟩
  unfold Port.Good at hgood ⊢
  rw [hgot]
  unfold Port.submit
  dsimp only
  rcases ht : p.transport with sent | ⟨addr, s⟩
  · rw [ht] at hgood
    exact hgood
  · rw [ht] at hgood
    exact ⟨hgood.1.again _, hgood.2⟩

end

/-! ### The invariant -/

/-- The requests that have handlers. -/
def State.handled (s : State A S M) : List (Incoming A) := s.tasks.map (·.request)

/-- All responses of the handlers of requests from a socket or connection. -/
def State.responsesTo (s : State A S M) (i : ℕ) : List (Outgoing A M) :=
  (s.serialised ++ s.responses).filter (·.context = i)

/-- What is passed on to it. -/
def State.passing (s : State A S M) (i : ℕ) : List (A × Bytes) :=
  ((s.delivering.filter (·.1 = i)).map Prod.snd).toList

/-- A response as it is passed on. -/
def packet (codec : Codec M) (o : Outgoing A M) : Option (A × Bytes) := (codec.encode o.msg).map fun b => (o.addr, b)

/-- Nothing is lost or mixed up on the way. -/
structure Inv (codec : Codec M) (s : State A S M) : Prop where
  good : ∀ p ∈ s.ports, p.Good
  submitted : ∀ i p, s.ports[i]? = some p →
    ((s.dispatched ++ s.requests).filter (·.context = i)).map (fun r => (r.addr, r.msg)) = p.submitted
  known : ∀ r ∈ s.dispatched ++ s.requests, r.context < s.ports.length
  tasks : s.handled = s.dispatched.filter fun r => isRequest codec r.msg
  own : ∀ o ∈ s.serialised ++ s.responses,
    ∃ r, s.handled[o.task]? = some r ∧ r.context = o.context ∧ r.addr = o.addr
  given : ∀ i p, s.ports[i]? = some p →
    p.given ++ s.passing i = (s.serialised.filter (·.context = i)).filterMap (packet codec)
  destination : ∀ d ∈ s.delivering, d.1 < s.ports.length

section
variable {codec : Codec M} {handler : Handler M S I} {s s' : State A S M} {i : ℕ} {p p' : Port A}

theorem getElem?_set_port {ports : List (Port A)} {j : ℕ} {q : Port A} (hp : ports[i]? = some p)
    (hq : (ports.set i p')[j]? = some q) : (j = i ∧ q = p') ∨ (j ≠ i ∧ ports[j]? = some q) := by
  have hlen := (List.getElem?_eq_some_iff.mp hp).1
  by_cases hj : j = i
  · subst hj
    rw [List.getElem?_set_self hlen] at hq
    exact Or.inl ⟨rfl, (Option.some.inj hq).symm⟩
  · rw [List.getElem?_set_ne (Ne.symm hj)] at hq
    exact Or.inr ⟨hj, hq⟩

theorem mem_set_port {ports : List (Port A)} (hgood : ∀ p ∈ ports, p.Good) (hp' : p'.Good) :
    ∀ p ∈ ports.set i p', p.Good := by
  intro q hq
  rcases List.mem_or_eq_of_mem_set hq with hq | rfl
  · exact hgood q hq
  · exact hp'

theorem map_request_set {tasks : List (Task A S M)} {k : ℕ} {t : Task A S M} (t' : Task A S M)
    (ht : tasks[k]? = some t) (hrequest : t'.request = t.request) : (tasks.set k t').map (·.request) = tasks.map (·.request) := by
  obtain ⟨hlen, rfl⟩ := List.getElem?_eq_some_iff.mp ht
  have hself := @List.set_getElem_self _ (tasks.map (·.request)) k (by simpa using hlen)
  rwa [List.getElem_map, ← hrequest, ← List.map_set] at hself

/-- A response is for a socket or connection that is there. -/
theorem Inv.context_lt (h : Inv codec s) {o : Outgoing A M} (ho : o ∈ s.serialised ++ s.responses) :
    o.context < s.ports.length := by
  obtain ⟨r, hr, hcontext, -⟩ := h.own o ho
  have hmem : r ∈ s.handled := List.mem_of_getElem? hr
  rw [h.tasks] at hmem
  rw [← hcontext]
  exact h.known r (List.mem_append_left _ (List.mem_filter.mp hmem).1)

/-- A socket or connection changes, and its channels do not. -/
theorem Inv.setPort (h : Inv codec s) (hp : s.ports[i]? = some p) (hgood : p'.Good)
    (hsubmitted : p'.submitted = p.submitted) (hgiven : p'.given = p.given) :
    Inv codec { s with ports := s.ports.set i p' } where
  good := mem_set_port h.good hgood
  submitted j q hq := by
    rcases getElem?_set_port hp hq with ⟨rfl, rfl⟩ | ⟨-, hq⟩
    · rw [hsubmitted]
      exact h.submitted _ p hp
    · exact h.submitted j q hq
  known := by rw [List.length_set]; exact h.known
  tasks := h.tasks
  own := h.own
  given j q hq := by
    rcases getElem?_set_port hp hq with ⟨rfl, rfl⟩ | ⟨-, hq⟩
    · rw [hgiven]
      exact h.given _ p hp
    · exact h.given j q hq
  destination := by rw [List.length_set]; exact h.destination

theorem Inv.accept (h : Inv codec s) {new : Port A} (hgood : new.Good) (hsubmitted : new.submitted = [])
    (hgiven : new.given = []) : Inv codec { s with ports := s.ports ++ [new] } := by
  have hcases : ∀ j q, (s.ports ++ [new])[j]? = some q → s.ports[j]? = some q ∨ (j = s.ports.length ∧ q = new) := by
    intro j q hq
    by_cases hj : j < s.ports.length
    · rw [List.getElem?_append_left hj] at hq
      exact Or.inl hq
    · rw [List.getElem?_append_right (not_lt.mp hj)] at hq
      have hlen := (List.getElem?_eq_some_iff.mp hq).1
      rw [List.length_singleton] at hlen
      obtain rfl : j = s.ports.length := by omega
      rw [Nat.sub_self] at hq
      exact Or.inr ⟨rfl, (Option.some.inj hq).symm⟩
  have hlen : (s.ports ++ [new]).length = s.ports.length + 1 := by simp
  constructor
  · intro q hq
    rcases List.mem_append.mp hq with hq | hq
    · exact h.good q hq
    · obtain rfl := List.mem_singleton.mp hq
      exact hgood
  · intro j q hq
    rcases hcases j q hq with hq | ⟨rfl, rfl⟩
    · exact h.submitted j q hq
    · rw [hsubmitted, List.map_eq_nil_iff, List.filter_eq_nil_iff]
      intro r hr hcontext
      exact absurd (of_decide_eq_true hcontext) (h.known r hr).ne
  · intro r hr
    dsimp only
    rw [hlen]
    exact Nat.lt_succ_of_lt (h.known r hr)
  · exact h.tasks
  · exact h.own
  · intro j q hq
    rcases hcases j q hq with hq | ⟨rfl, rfl⟩
    · exact h.given j q hq
    · have hpassing : s.passing s.ports.length = [] := by
        unfold State.passing
        rcases hd : s.delivering with _ | d
        · rfl
        · have hlt := h.destination d hd
          simp [Option.filter, hlt.ne]
      have hnone : s.serialised.filter (·.context = s.ports.length) = [] := by
        rw [List.filter_eq_nil_iff]
        intro o ho hcontext
        exact absurd (of_decide_eq_true hcontext) (h.context_lt (List.mem_append_left _ ho)).ne
      show q.given ++ s.passing s.ports.length = _
      rw [hgiven, hpassing, hnone]
      rfl
  · intro d hd
    dsimp only
    rw [hlen]
    exact Nat.lt_succ_of_lt (h.destination d hd)

theorem Inv.submit (h : Inv codec s) {m : A × Bytes} (hp : s.ports[i]? = some p) (hblocked : p.blocked = some m) :
    Inv codec { s with ports := s.ports.set i (p.submit s.now m), requests := s.requests ++ [⟨m.2, m.1, i⟩] } where
  good := mem_set_port h.good (Port.submit_good hblocked (h.good p (List.mem_of_getElem? hp))).1
  submitted j q hq := by
    dsimp only
    rw [← List.append_assoc, List.filter_append, List.map_append]
    rcases getElem?_set_port hp hq with ⟨rfl, rfl⟩ | ⟨hj, hq⟩
    · rw [h.submitted _ p hp]
      simp [Port.submit]
    · rw [h.submitted j q hq]
      simp [Ne.symm hj]
  known := by
    dsimp only
    rw [← List.append_assoc, List.length_set]
    intro r hr
    rcases List.mem_append.mp hr with hr | hr
    · exact h.known r hr
    · obtain rfl := List.mem_singleton.mp hr
      exact (List.getElem?_eq_some_iff.mp hp).1
  tasks := h.tasks
  own := h.own
  given j q hq := by
    rcases getElem?_set_port hp hq with ⟨rfl, rfl⟩ | ⟨-, hq⟩
    · exact h.given _ p hp
    · exact h.given j q hq
  destination := by rw [List.length_set]; exact h.destination

theorem map_request_started (r : Incoming A) :
    ((started codec handler r).toList).map (·.request) = [r].filter fun r => isRequest codec r.msg := by
  unfold started isRequest
  rcases hdecode : codec.decode r.msg with _ | m
  · simp [hdecode]
  · by_cases hquery : codec.hasQuery m = true
    · simp [hdecode, hquery]
    · simp [hdecode, hquery]

theorem Inv.dispatch (h : Inv codec s) {r : Incoming A} {rest : List (Incoming A)} (hr : s.requests = r :: rest) :
    Inv codec { s with
      requests := rest
      dispatched := s.dispatched ++ [r]
      tasks := s.tasks ++ (started codec handler r).toList } := by
  have hall : s.dispatched ++ [r] ++ rest = s.dispatched ++ s.requests := by rw [hr, List.append_assoc]; rfl
  constructor
  · exact h.good
  · dsimp only
    rw [hall]
    exact h.submitted
  · dsimp only
    rw [hall]
    exact h.known
  · show (s.tasks ++ _).map (·.request) = _
    rw [List.map_append, map_request_started, List.filter_append, ← h.tasks]
    rfl
  · intro o ho
    obtain ⟨r', hr', hown⟩ := h.own o ho
    have hlen : o.task < (s.tasks.map (·.request)).length := (List.getElem?_eq_some_iff.mp hr').1
    refine ⟨r', ?_, hown⟩
    show ((s.tasks ++ _).map (·.request))[o.task]? = some r'
    rw [List.map_append, List.getElem?_append_left hlen]
    exact hr'
  · exact h.given
  · exact h.destination

/-- A handler goes on. -/
theorem Inv.setTask (h : Inv codec s) {k : ℕ} {t t' : Task A S M} (ht : s.tasks[k]? = some t)
    (hrequest : t'.request = t.request) : Inv codec { s with tasks := s.tasks.set k t' } := by
  have hhandled : ({ s with tasks := s.tasks.set k t' } : State A S M).handled = s.handled :=
    map_request_set t' ht hrequest
  constructor
  · exact h.good
  · exact h.submitted
  · exact h.known
  · rw [hhandled]
    exact h.tasks
  · rw [hhandled]
    exact h.own
  · exact h.given
  · exact h.destination

/-- A response of a handler is put in the channel. -/
theorem Inv.respond (h : Inv codec s) {m : M} {k : ℕ} {r : Incoming A} (hr : s.handled[k]? = some r) :
    Inv codec { s with responses := s.responses ++ [⟨m, r.addr, r.context, k⟩] } where
  good := h.good
  submitted := h.submitted
  known := h.known
  tasks := h.tasks
  own := by
    dsimp only
    rw [← List.append_assoc]
    intro o ho
    rcases List.mem_append.mp ho with ho | ho
    · exact h.own o ho
    · obtain rfl := List.mem_singleton.mp ho
      exact ⟨r, hr, rfl, rfl⟩
  given := h.given
  destination := h.destination

theorem Inv.serialise (h : Inv codec s) {o : Outgoing A M} {rest : List (Outgoing A M)}
    (hdelivering : ¬ s.delivering.isSome = true) (hr : s.responses = o :: rest) :
    Inv codec { s with
      responses := rest
      serialised := s.serialised ++ [o]
      delivering := (codec.encode o.msg).map fun b => (o.context, o.addr, b) } := by
  have hall : s.serialised ++ [o] ++ rest = s.serialised ++ s.responses := by rw [hr, List.append_assoc]; rfl
  have hnone : s.delivering = none := by simpa using hdelivering
  constructor
  · exact h.good
  · exact h.submitted
  · exact h.known
  · exact h.tasks
  · dsimp only
    rw [hall]
    exact h.own
  · intro j q hq
    have hgiven := h.given j q hq
    rw [State.passing, hnone] at hgiven
    simp only [Option.filter_none, Option.map_none, Option.toList_none, List.append_nil] at hgiven
    rw [hgiven, List.filter_append, List.filterMap_append]
    congr 1
    unfold State.passing packet
    by_cases hj : o.context = j
    · rcases hencode : codec.encode o.msg with _ | b
      · simp [hj, hencode]
      · simp [hj, hencode, Option.filter]
    · rcases hencode : codec.encode o.msg with _ | b
      · simp [hj]
      · simp [hj, Option.filter]
  · intro d hd
    obtain ⟨b, -, rfl⟩ := Option.map_eq_some_iff.mp hd
    exact h.context_lt (by rw [hr]; simp)

theorem Inv.route (h : Inv codec s) {d : ℕ × A × Bytes} (hd : s.delivering = some d)
    (hp : s.ports[d.1]? = some p) :
    Inv codec { s with delivering := none, ports := s.ports.set d.1 { p with queue := p.queue ++ [d.2] } } where
  good := mem_set_port h.good (h.good p (List.mem_of_getElem? hp))
  submitted j q hq := by
    rcases getElem?_set_port hp hq with ⟨rfl, rfl⟩ | ⟨-, hq⟩
    · exact h.submitted _ p hp
    · exact h.submitted j q hq
  known := by rw [List.length_set]; exact h.known
  tasks := h.tasks
  own := h.own
  given j q hq := by
    show q.given ++ [] = _
    rw [List.append_nil]
    rcases getElem?_set_port hp hq with ⟨rfl, rfl⟩ | ⟨hj, hq⟩
    · rw [← h.given _ p hp]
      simp [Port.given, State.passing, hd, Option.filter]
    · rw [← h.given j q hq]
      simp [State.passing, hd, Option.filter, Ne.symm hj]
  destination := by simp

/-- **One step** keeps the invariant. -/
theorem inv_step {c : Choice A I} (h : Inv codec s) (hs : step codec handler s c = some s') : Inv codec s' := by
  cases c with
  | accept addr =>
    obtain rfl := Option.some.inj hs
    refine h.accept ⟨Stream.sound_accepted, ?_⟩ rfl rfl
    simp [Port.got]
  | port i c =>
    obtain ⟨p, hp, hs⟩ := Option.bind_eq_some_iff.mp hs
    obtain ⟨p', hstep, rfl⟩ := Option.map_eq_some_iff.mp hs
    obtain ⟨hsubmitted, hgiven, hgood⟩ := Port.step_good (h.good p (List.mem_of_getElem? hp)) hstep
    exact h.setPort hp hgood hsubmitted hgiven
  | submit i =>
    obtain ⟨p, hp, hs⟩ := Option.bind_eq_some_iff.mp hs
    obtain ⟨m, hm, hs⟩ := Option.bind_eq_some_iff.mp hs
    simp only [Option.ite_none_right_eq_some, Option.some.injEq] at hs
    obtain ⟨-, rfl⟩ := hs
    exact h.submit hp hm
  | dispatch =>
    simp only [step] at hs
    split at hs
    · cases hs
    · rename_i r rest hr
      obtain rfl := Option.some.inj hs
      exact h.dispatch hr
  | task k input =>
    obtain ⟨t, ht, hs⟩ := Option.bind_eq_some_iff.mp hs
    simp only [Option.ite_none_left_eq_some] at hs
    obtain ⟨-, hs⟩ := hs
    obtain ⟨r, -, rfl⟩ := Option.map_eq_some_iff.mp hs
    exact h.setTask ht rfl
  | respond k =>
    obtain ⟨t, ht, hs⟩ := Option.bind_eq_some_iff.mp hs
    obtain ⟨m, -, hs⟩ := Option.bind_eq_some_iff.mp hs
    simp only [Option.ite_none_right_eq_some, Option.some.injEq] at hs
    obtain ⟨-, rfl⟩ := hs
    have hset : Inv codec { s with tasks := s.tasks.set k { t with sending := none } } := h.setTask ht rfl
    have hr : (s.tasks.map (·.request))[k]? = some t.request := by rw [List.getElem?_map, ht]; rfl
    exact hset.respond ((congrArg (·[k]?) (map_request_set { t with sending := none } ht rfl)).trans hr)
  | serialise =>
    simp only [step, Option.ite_none_left_eq_some] at hs
    obtain ⟨hdelivering, hs⟩ := hs
    split at hs
    · cases hs
    · rename_i o rest hr
      obtain rfl := Option.some.inj hs
      exact h.serialise hdelivering hr
  | route =>
    obtain ⟨d, hd, hs⟩ := Option.bind_eq_some_iff.mp hs
    obtain ⟨p, hp, hs⟩ := Option.bind_eq_some_iff.mp hs
    simp only [Option.ite_none_right_eq_some, Option.some.injEq] at hs
    obtain ⟨-, rfl⟩ := hs
    exact h.route hd hp
  | tick ms =>
    obtain rfl := Option.some.inj hs
    exact ⟨h.good, h.submitted, h.known, h.tasks, h.own, h.given, h.destination⟩

theorem inv_initial (sockets : ℕ) : Inv codec (initial A S M sockets) where
  good p hp := by
    obtain rfl := List.eq_of_mem_replicate hp
    exact List.Sublist.refl _
  submitted i p hp := by
    obtain rfl := List.eq_of_mem_replicate (List.mem_of_getElem? hp)
    rfl
  known := by simp [initial]
  tasks := rfl
  own := by simp [initial]
  given i p hp := by
    obtain rfl := List.eq_of_mem_replicate (List.mem_of_getElem? hp)
    rfl
  destination := by simp [initial]

end

end HexDns.Net.Server
