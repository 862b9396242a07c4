import HexDns.Axfr.Server
import HexDns.Lib.Runs
import HexDns.Net.Tcp

/-! # Connections to the AXFR server

The tasks of `main` of `axfr/src/main.rs` for TCP connections. The task that reads a connection handles a
request before it reads the next one, and puts the responses in the channel of the connection, from which the
other task of the connection writes them; all connections share the database. `answered` says that a client
reads the responses to its requests in the order of the requests, one request after the other, and that none
is left out when nothing is on its way.

A request is handled with the directory and the database as they are when it was read. -/

namespace HexDns.Axfr.Connections

open HexDns.Lib.Texts HexDns.Lib.Runs HexDns.Lib.Frames HexDns.Base.Message HexDns.Models.Db HexDns.Models.Env
  HexDns.Net.Tcp HexDns.Axfr.Server

/-! ### The server -/

/-- The room in the channel of a connection -/
def capacity : ℕ := 1024

/-- A request that was read, with what it was handled with. -/
structure Handled where
  msg : Bytes
  addr : IpAddr
  dir : Text → Option Text
  st : Store
  now : ℕ
  clock : ℕ → ℕ

structure Connection where
  addr : IpAddr
  stream : Stream
  /-- the responses to the request that is handled that are still to be put in the channel -/
  sending : Option (List Bytes)
  queue : List Bytes
  /-- the responses that were taken from the channel -/
  taken : List Bytes
  /-- the requests that were read -/
  handled : List Handled

structure State where
  /-- the time in milliseconds -/
  now : ℕ
  dir : Text → Option Text
  st : Store
  connections : List Connection

/-- What happens at a connection. -/
inductive ConnectionChoice
  | receive (b : Bytes)
  | close
  | fail
  /-- A read takes place; a request is signed at these times. -/
  | read (now : ℕ) (clock : ℕ → ℕ)
  | readFails
  | timeout
  /-- A response is put in the channel. -/
  | push
  /-- The request is done. -/
  | finish
  | write (cut : Option ℕ)

/-- What happens next. -/
inductive Choice
  | accept (addr : IpAddr)
  | connection (i : ℕ) (c : ConnectionChoice)
  /-- The files or the database are changed by others. -/
  | environment (dir : Text → Option Text) (st : Store)
  | tick (ms : ℕ)

section
variable (s : Server) (h : Host)
  /- `Message::from_bytes` with the first query of the message, nothing if there is none -/
  (fromBytes : Bytes → Option Request)

/-- `process_request`: the responses, unless the task panics, and the database after it. -/
def processRequest (r : Handled) : Option (List Bytes) × Store :=
  match fromBytes r.msg with
  | none => (some [], r.st)
  | some request =>
    let (sent, st) := handleRequest s h r.dir r.now r.clock r.addr request r.st
    match request.wellFormed, readZoneFile s r.dir request with
    | true, .error .panic => (none, st)
    | _, _ => (some (sent.filterMap s.serialise), st)

/-- The responses to a request. -/
def Handled.responses (r : Handled) : List Bytes := (processRequest s h fromBytes r).1.getD []

/-- The request that was read is handled; a panic ends the task. -/
def Connection.process (c : Connection) (r : Handled) : Connection × Store :=
  let (responses, st) := processRequest s h fromBytes r
  ({ c with
      sending := responses
      handled := c.handled ++ [r]
      stream := if responses.isSome then c.stream else c.stream.stop }, st)

/-- The request is done, and the loop goes on with the next read. -/
def Connection.finish (now : ℕ) (c : Connection) : Connection :=
  { c with
    sending := none
    stream := { c.stream with reader := c.stream.reader.map fun r => (r.1, now + readTimeout) } }

/-- Something happens at a connection; the database is that after it. -/
def Connection.step (s0 : State) (c : Connection) : ConnectionChoice → Option (Connection × Store)
  | .receive b => (c.stream.receive b).map fun stream => ({ c with stream := stream }, s0.st)
  | .close => some ({ c with stream := { c.stream with peer := .closed } }, s0.st)
  | .fail => some ({ c with stream := { c.stream with peer := .failed } }, s0.st)
  | .read now clock =>
    if c.sending.isSome then none
    else (c.stream.read s0.now).map fun r =>
      match r.2 with
      | none => ({ c with stream := r.1 }, s0.st)
      | some msg => ({ c with stream := r.1 }).process s h fromBytes ⟨msg, c.addr, s0.dir, s0.st, now, clock⟩
  | .readFails =>
    if c.sending.isSome then none else c.stream.readFails.map fun stream => ({ c with stream := stream }, s0.st)
  | .timeout =>
    if c.sending.isSome then none
    else (c.stream.timeout s0.now).map fun stream => ({ c with stream := stream }, s0.st)
  | .push =>
    match c.sending with
    | some (m :: rest) =>
      if c.queue.length < capacity then some ({ c with sending := some rest, queue := c.queue ++ [m] }, s0.st)
      else none
    | _ => none
  | .finish => if c.sending = some [] then some (c.finish s0.now, s0.st) else none
  | .write cut =>
    match c.queue with
    | [] => none
    | m :: rest => some ({ c with stream := c.stream.write m cut, queue := rest, taken := c.taken ++ [m] }, s0.st)

def step (s0 : State) : Choice → Option State
  | .accept addr => some { s0 with
      connections := s0.connections ++ [⟨addr, .accepted s0.now, none, [], [], []⟩] }
  | .connection i choice => (s0.connections[i]?).bind fun c =>
      (c.step s h fromBytes s0 choice).map fun r =>
        { s0 with connections := s0.connections.set i r.1, st := r.2 }
  | .environment dir st => some { s0 with dir := dir, st := st }
  | .tick ms => some { s0 with now := s0.now + ms }

end

/-- The server as it starts. -/
def initial (dir : Text → Option Text) (st : Store) : State := ⟨0, dir, st, []⟩

/-! ### The statement -/

section
variable (s : Server) (h : Host) (fromBytes : Bytes → Option Request)

/-- The responses to the requests of a connection, in the order of the requests. -/
def Connection.responses (c : Connection) : List Bytes := c.handled.flatMap (·.responses s h fromBytes)

/-- Nothing is on its way in a connection. -/
def Connection.AtRest (c : Connection) : Prop := c.sending = none ∧ c.queue = []

/-- **The client is answered in order**: the requests that are handled are the first messages that it has
sent, and it has the beginning of the responses to them, and all of them when nothing is on its way. -/
structure Answered (c : Connection) : Prop where
  own : ∀ r ∈ c.handled, r.addr = c.addr
  requests : c.handled.map (·.msg) <+: (u16.split c.stream.came).1
  responses : c.stream.out <+: u16.frames (c.responses s h fromBytes)
  allRequests : c.AtRest → c.stream.Waits → c.handled.map (·.msg) = (u16.split c.stream.came).1
  allResponses : c.AtRest → c.stream.broken = false → (∀ m ∈ c.responses s h fromBytes, m.length < 65536) →
    u16.split c.stream.out = (c.responses s h fromBytes, [])

end

/-! ### The invariant -/

/-- What a connection keeps. -/
structure Connection.Good (s : Server) (h : Host) (fromBytes : Bytes → Option Request) (c : Connection) : Prop where
  sound : c.stream.Sound (c.handled.map (·.msg)) c.taken
  passed : c.taken ++ c.queue ++ c.sending.getD [] = c.responses s h fromBytes
  own : ∀ r ∈ c.handled, r.addr = c.addr

section
variable {s : Server} {h : Host} {fromBytes : Bytes → Option Request} {c c' : Connection} {s0 s1 : State} {st : Store}

theorem Connection.good_accepted (addr : IpAddr) (now : ℕ) :
    (⟨addr, .accepted now, none, [], [], []⟩ : Connection).Good s h fromBytes :=
  ⟨Stream.sound_accepted, rfl, by simp⟩

/-- Only the stream has changed. -/
theorem Connection.Good.stream {stream : Stream} (hgood : c.Good s h fromBytes)
    (hsound : stream.Sound (c.handled.map (·.msg)) c.taken) :
    ({ c with stream := stream } : Connection).Good s h fromBytes := ⟨hsound, hgood.passed, hgood.own⟩

/-- **A request that was read** is handled next, and its responses come after all others. -/
theorem Connection.Good.process {stream : Stream} {r : Handled} (hgood : c.Good s h fromBytes)
    (hsending : c.sending = none) (haddr : r.addr = c.addr)
    (hsound : stream.Sound (c.handled.map Handled.msg ++ [r.msg]) c.taken) :
    (({ c with stream := stream }).process s h fromBytes r).1.Good s h fromBytes := by
  have hpassed := hgood.passed
  rw [hsending, Option.getD_none, List.append_nil] at hpassed
  refine ⟨?_, ?_, fun r' hr' => ?_⟩
  · show (if _ then stream else stream.stop).Sound ((c.handled ++ [r]).map Handled.msg) c.taken
    rw [List.map_append]
    split_ifs
    · exact hsound
    · exact hsound.stop
  · show c.taken ++ c.queue ++ (processRequest s h fromBytes r).1.getD [] =
      (c.handled ++ [r]).flatMap (·.responses s h fromBytes)
    rw [List.flatMap_append, hpassed, List.flatMap_singleton]
    rfl
  · rcases List.mem_append.mp hr' with hr' | hr'
    · exact hgood.own r' hr'
    · rw [List.mem_singleton.mp hr']
      exact haddr

/-- **What happens at a connection** keeps what is known of it. -/
theorem Connection.Good.step {choice : ConnectionChoice} (hgood : c.Good s h fromBytes)
    (hs : c.step s h fromBytes s0 choice = some (c', st)) : c'.Good s h fromBytes := by
  cases choice with
  | receive b =>
    obtain ⟨stream, hstream, heq⟩ := Option.map_eq_some_iff.mp hs
    obtain ⟨rfl, -⟩ := Prod.mk.inj heq
    exact hgood.stream (hgood.sound.receive hstream)
  | close =>
    obtain ⟨rfl, -⟩ := Prod.mk.inj (Option.some.inj hs)
    exact hgood.stream ⟨hgood.sound.hasRead, hgood.sound.lengths, hgood.sound.hasWritten⟩
  | fail =>
    obtain ⟨rfl, -⟩ := Prod.mk.inj (Option.some.inj hs)
    exact hgood.stream ⟨hgood.sound.hasRead, hgood.sound.lengths, hgood.sound.hasWritten⟩
  | read now clock =>
    simp only [Connection.step, Option.ite_none_left_eq_some] at hs
    obtain ⟨hsending, hs⟩ := hs
    obtain ⟨⟨stream, handed⟩, hstream, heq⟩ := Option.map_eq_some_iff.mp hs
    have hsound := hgood.sound.read hstream
    rcases handed with _ | msg
    · obtain ⟨rfl, -⟩ := Prod.mk.inj heq
      rw [Option.toList_none, List.append_nil] at hsound
      exact hgood.stream hsound
    · have hc := congrArg Prod.fst heq
      dsimp only at hc
      rw [← hc]
      exact hgood.process (by simpa using hsending) rfl hsound
  | readFails =>
    simp only [Connection.step, Option.ite_none_left_eq_some] at hs
    obtain ⟨stream, hstream, heq⟩ := Option.map_eq_some_iff.mp hs.2
    obtain ⟨rfl, -⟩ := Prod.mk.inj heq
    obtain rfl := Stream.readFails_eq hstream
    exact hgood.stream hgood.sound.stop
  | timeout =>
    simp only [Connection.step, Option.ite_none_left_eq_some] at hs
    obtain ⟨stream, hstream, heq⟩ := Option.map_eq_some_iff.mp hs.2
    obtain ⟨rfl, -⟩ := Prod.mk.inj heq
    obtain rfl := Stream.timeout_eq hstream
    exact hgood.stream hgood.sound.stop
  | push =>
    rcases hsending : c.sending with _ | _ | ⟨m, rest⟩
    · simp only [Connection.step, hsending] at hs
      cases hs
    · simp only [Connection.step, hsending] at hs
      cases hs
    · simp only [Connection.step, hsending, Option.ite_none_right_eq_some, Option.some.injEq, Prod.mk.injEq] at hs
      obtain ⟨-, rfl, -⟩ := hs
      have hpassed := hgood.passed
      rw [hsending] at hpassed
      refine ⟨hgood.sound, ?_, hgood.own⟩
      show c.taken ++ (c.queue ++ [m]) ++ rest = c.responses s h fromBytes
      rw [← hpassed]
      simp
  | finish =>
    simp only [Connection.step, Option.ite_none_right_eq_some, Option.some.injEq, Prod.mk.injEq] at hs
    obtain ⟨hsending, rfl, -⟩ := hs
    have hpassed := hgood.passed
    rw [hsending] at hpassed
    exact ⟨hgood.sound.again _, hpassed, hgood.own⟩
  | write cut =>
    rcases hqueue : c.queue with _ | ⟨m, rest⟩
    · simp only [Connection.step, hqueue] at hs
      cases hs
    · simp only [Connection.step, hqueue, Option.some.injEq, Prod.mk.injEq] at hs
      obtain ⟨rfl, -⟩ := hs
      have hpassed := hgood.passed
      rw [hqueue] at hpassed
      refine ⟨hgood.sound.write, ?_, hgood.own⟩
      show c.taken ++ [m] ++ rest ++ c.sending.getD [] = c.responses s h fromBytes
      rw [← hpassed]
      simp

theorem good_step {choice : Choice} (hgood : ∀ c ∈ s0.connections, c.Good s h fromBytes)
    (hs : step s h fromBytes s0 choice = some s1) : ∀ c ∈ s1.connections, c.Good s h fromBytes := by
  cases choice with
  | accept addr =>
    obtain rfl := Option.some.inj hs
    intro c hc
    rcases List.mem_append.mp hc with hc | hc
    · exact hgood c hc
    · rw [List.mem_singleton.mp hc]
      exact Connection.good_accepted addr s0.now
  | connection i choice =>
    obtain ⟨c, hc, hs⟩ := Option.bind_eq_some_iff.mp hs
    obtain ⟨⟨c', st⟩, hc', rfl⟩ := Option.map_eq_some_iff.mp hs
    intro c1 hc1
    rcases List.mem_or_eq_of_mem_set hc1 with hc1 | rfl
    · exact hgood c1 hc1
    · exact (hgood c (List.mem_of_getElem? hc)).step hc'
  | environment dir st =>
    obtain rfl := Option.some.inj hs
    exact hgood
  | tick ms =>
    obtain rfl := Option.some.inj hs
    exact hgood

/-- What is known of a connection says that its client is answered in order. -/
theorem Connection.Good.isAnswered (hgood : c.Good s h fromBytes) : Answered s h fromBytes c where
  own := hgood.own
  requests := Format.prefix_split (fun m hm => fits_iff.mpr (hgood.sound.lengths m hm)) hgood.sound.hasRead.begins
  responses := by
    refine hgood.sound.hasWritten.begins.trans (Format.frames_prefix ?_)
    rw [← hgood.passed, List.append_assoc]
    exact List.prefix_append _ _
  allRequests _ hwaits := (hgood.sound.hasRead.split hgood.sound.lengths hwaits).symm
  allResponses hrest hbroken hlengths := by
    obtain ⟨hsending, hqueue⟩ := hrest
    have htaken := hgood.passed
    rw [hsending, hqueue, Option.getD_none, List.append_nil, List.append_nil] at htaken
    have hwritten := hgood.sound.hasWritten
    unfold Stream.HasWritten at hwritten
    rw [hbroken, if_neg Bool.false_ne_true, htaken] at hwritten
    rw [hwritten, Format.split_frames_iff]
    exact fun m hm => fits_iff.mpr (hlengths m hm)

end

/-- **Every client is answered in order**, in every state of every run. -/
theorem answered (s : Server) (h : Host) (fromBytes : Bytes → Option Request) (dir : Text → Option Text)
    (st : Store) (cs : List Choice) : Always (step s h fromBytes)
    (fun s0 => ∀ c ∈ s0.connections, Answered s h fromBytes c) (initial dir st) cs :=
  (always_of_step (fun _ _ _ hgood hs => good_step hgood hs) (by simp [initial]) cs).mono
    fun _ hgood c hc => (hgood c hc).isAnswered

end HexDns.Axfr.Connections
