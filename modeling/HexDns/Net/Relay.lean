import HexDns.Net.Updates

/-! # The handler of the cache

`handle_request` of `dns-cache/src/main.rs`, as a handler of the server of `dns-cache/src/lib.rs`. It refuses
what it does not know, passes an update to the upstream, passes the messages of a transfer on as they come from
there, and looks up everything else, with a timeout beside the lookup. What a lookup does is in `Cache.Server`;
here it comes back at some time.

`handled_by_kind` says what has been sent for a request at each time, whatever the upstream does: of a transfer
it is `relay` of what has come. `interleaved` says what the client of a connection reads: all responses to each of
its requests, those to one request in their order. -/

namespace HexDns.Net.Relay

open HexDns.Lib.Texts HexDns.Lib.Runs HexDns.Lib.Frames HexDns.Base.Message HexDns.Net.Tcp HexDns.Net.Server
open HexDns.Net.Updates (MessageType ResponseCode)

variable {A M E : Type}

/-! ### The handler -/

/-- What the handler uses of the DNS library. -/
structure Library (M E : Type) extends Codec M where
  id : M → ℕ
  messageType : M → MessageType
  opCode : M → Opcode
  /-- The type of the question is `AXFR`. -/
  isAxfr : M → Bool
  /-- `Message::error_msg` -/
  errorMsg : ℕ → Opcode → ResponseCode → M
  edns : M → Option E
  setEdns : M → E → M
  /-- `Edns::new` -/
  newEdns : E
  version : E → ℕ
  setVersion : E → ℕ → E
  /-- `option(EdnsCode::NSID).is_some()` -/
  hasNsid : E → Bool
  /-- `options_mut().insert`, of an NSID -/
  insertNsid : E → Bytes → E

/-- What a request asks for. -/
inductive Kind (M : Type)
  | refused (response : M)
  | query
  | transfer
  | update

/-- Where `handle_request` is. -/
inductive Place
  | spawned
  /-- `axfr_query` is on its way. -/
  | opening
  | streaming
  | lookingUp
  /-- `update_query` is on its way. -/
  | updating
  | done
  deriving DecidableEq, Repr

/-- Where the task of the timeout is. -/
inductive Timer
  | none
  | sleeping
  /-- It sends its response all the same if it was running. -/
  | aborted
  | done
  deriving DecidableEq, Repr

/-- What comes of a transfer. -/
inductive Event
  | message (b : Bytes)
  | failed
  | ended
  deriving DecidableEq

/-- A call of `handle_request`. The last four fields record what went to the upstream, and what came back from it
and from the lookup. -/
structure Handling (M : Type) where
  rawBytes : Bytes
  msg : M
  place : Place
  timer : Timer
  calls : List Bytes
  events : List Event
  looked : Option (Except ResponseCode M)
  reply : Option (Option Bytes)

/-- What a handler waits for: its turn, an answer to `axfr_query`, the next of a transfer, the end of the lookup,
the end of the five seconds, or the reply to `update_query`. -/
inductive Input (M : Type)
  | run
  | opened (ok : Bool)
  | next (e : Event)
  | lookedUp (r : Except ResponseCode M)
  | timeout
  | reply (r : Option Bytes)

section
variable (lib : Library M E) (serverName : Option Bytes)

/-- The name of the server, for those who ask for it -/
def addNsid (request : M) (edns : E) : E :=
  if (lib.edns request).any lib.hasNsid then
    match serverName with
    | some name => lib.insertNsid edns name
    | none => edns
  else edns

/-- A response of somebody else is passed on. -/
def withEdns (request response : M) : M :=
  lib.setEdns response (addNsid lib serverName request ((lib.edns response).getD lib.newEdns))

def plainError (request : M) (code : ResponseCode) : M := lib.errorMsg (lib.id request) (lib.opCode request) code

def ednsError (request : M) (code : ResponseCode) : M :=
  lib.setEdns (plainError lib request code) (addNsid lib serverName request lib.newEdns)

def kind (m : M) : Kind M :=
  if (lib.edns m).any (0 < lib.version ·) then
    .refused (lib.setEdns (plainError lib m .badVers) (lib.setVersion lib.newEdns 0))
  else
    match lib.messageType m with
    | .query =>
      match lib.opCode m with
      | .query => if lib.isAxfr m then .transfer else .query
      | .update => .update
      | .other _ => .refused (ednsError lib serverName m .notImp)
    | .response => .refused (ednsError lib serverName m .formErr)

/-- The response to a query that was looked up -/
def looked (m : M) : Except ResponseCode M → M
  | .ok response => withEdns lib serverName m response
  | .error code => ednsError lib serverName m code

/-- The response to an update -/
def updated (m : M) (r : Option Bytes) : M :=
  match r.bind lib.decode with
  | some response => response
  | none => ednsError lib serverName m .servFail

def Timer.abort : Timer → Timer
  | .sleeping => .aborted
  | timer => timer

/-- The transfer goes on, or ends. -/
def nextStep (h : Handling M) (e : Event) : Handling M × Option M :=
  match e with
  | .message b =>
    match lib.decode b with
    | some response => ({ h with events := h.events ++ [e] }, some (withEdns lib serverName h.msg response))
    | none => ({ h with place := .done, events := h.events ++ [e] }, some (plainError lib h.msg .servFail))
  | .failed => ({ h with place := .done, events := h.events ++ [e] }, some (plainError lib h.msg .servFail))
  | .ended => ({ h with place := .done, events := h.events ++ [e] }, none)

/-- The first step, up to where the handler waits for somebody -/
def firstStep (h : Handling M) : Handling M × Option M :=
  match kind lib serverName h.msg with
  | .refused response => ({ h with place := .done }, some response)
  | .query => ({ h with place := .lookingUp, timer := .sleeping }, none)
  | .transfer => ({ h with place := .opening, calls := h.calls ++ [h.rawBytes] }, none)
  | .update => ({ h with place := .updating, calls := h.calls ++ [h.rawBytes] }, none)

/-- `handle_request`, from one point where it waits to the next -/
def handleRequest (h : Handling M) : Input M → Option (Handling M × Option M)
  | .run => if h.place = .spawned then some (firstStep lib serverName h) else none
  | .opened ok =>
    if h.place = .opening then
      if ok then some ({ h with place := .streaming }, none)
      else some ({ h with place := .done, events := h.events ++ [.failed] }, some (plainError lib h.msg .servFail))
    else none
  | .next e => if h.place = .streaming then some (nextStep lib serverName h e) else none
  | .lookedUp r =>
    if h.place = .lookingUp then
      some ({ h with place := .done, timer := h.timer.abort, looked := some r }, some (looked lib serverName h.msg r))
    else none
  | .timeout =>
    if h.timer = .sleeping ∨ h.timer = .aborted then
      some ({ h with timer := .done }, some (ednsError lib serverName h.msg .servFail))
    else none
  | .reply r =>
    if h.place = .updating then
      some ({ h with place := .done, reply := some r }, some (updated lib serverName h.msg r))
    else none

def handler : Handler M (Handling M) (Input M) :=
  ⟨fun b m => ⟨b, m, .spawned, .none, [], [], none, none⟩, handleRequest lib serverName⟩

/-! ### What it does -/

/-- What the client gets of a transfer: each message of the upstream until something fails, which SERVFAIL tells. -/
def relay (m : M) : List Event → List M
  | [] => []
  | .message b :: events =>
    match lib.decode b with
    | some response => withEdns lib serverName m response :: relay m events
    | none => [plainError lib m .servFail]
  | .failed :: _ => [plainError lib m .servFail]
  | .ended :: _ => []

/-- Nothing more comes of a transfer. -/
def isOver : List Event → Bool
  | [] => false
  | .message b :: events => (lib.decode b).isNone || isOver events
  | .failed :: _ => true
  | .ended :: _ => true

/-- What the upstream got of a request that is done, and what its client gets; the response of the timeout comes
before that of the lookup, or beside it. -/
def Done (b : Bytes) (m : M) (h : Handling M) (sent : List M) : Prop :=
  match kind lib serverName m with
  | .refused response => h.timer = .none ∧ h.calls = [] ∧ sent = [response]
  | .query => h.calls = [] ∧ ∃ r, h.looked = some r ∧
    (h.timer = .aborted ∧ sent = [looked lib serverName m r] ∨
      h.timer = .done ∧ sent.Perm [looked lib serverName m r, ednsError lib serverName m .servFail])
  | .transfer => h.timer = .none ∧ h.calls = [b] ∧ isOver lib h.events = true ∧ sent = relay lib serverName m h.events
  | .update => h.timer = .none ∧ h.calls = [b] ∧ ∃ r, h.reply = some r ∧ sent = [updated lib serverName m r]

/-- What is known of a call of `handle_request`. -/
def Handled (b : Bytes) (m : M) (h : Handling M) (sent : List M) : Prop :=
  (h.rawBytes = b ∧ h.msg = m) ∧
  match h.place with
  | .spawned => h.timer = .none ∧ h.calls = [] ∧ h.events = [] ∧ sent = []
  | .opening => kind lib serverName m = .transfer ∧ h.timer = .none ∧ h.calls = [b] ∧ h.events = [] ∧ sent = []
  | .streaming => kind lib serverName m = .transfer ∧ h.timer = .none ∧ h.calls = [b] ∧
    isOver lib h.events = false ∧ sent = relay lib serverName m h.events
  | .lookingUp => kind lib serverName m = .query ∧ h.calls = [] ∧
    (h.timer = .sleeping ∧ sent = [] ∨ h.timer = .done ∧ sent = [ednsError lib serverName m .servFail])
  | .updating => kind lib serverName m = .update ∧ h.timer = .none ∧ h.calls = [b] ∧ sent = []
  | .done => Done lib serverName b m h sent

end

section
variable {lib : Library M E} {serverName : Option Bytes} {b : Bytes} {m : M} {h h' : Handling M} {sent : List M}
  {out : Option M}

variable (serverName m) in
theorem relay_append {events : List Event} (hover : isOver lib events = false) (e : Event) :
    relay lib serverName m (events ++ [e]) = relay lib serverName m events ++ relay lib serverName m [e] ∧
      isOver lib (events ++ [e]) = isOver lib [e] := by
  induction events with
  | nil => exact ⟨rfl, rfl⟩
  | cons e' events ih =>
    cases e' with
    | message b =>
      simp only [isOver, Bool.or_eq_false_iff] at hover
      obtain ⟨hdecode, hover⟩ := hover
      obtain ⟨response, hdecode⟩ := Option.isSome_iff_exists.mp (by simpa using hdecode)
      obtain ⟨hrelay, hisOver⟩ := ih hover
      simp only [List.cons_append, relay, isOver, hdecode, hrelay, hisOver, Option.isNone_some, Bool.false_or,
        and_self]
    | failed => cases hover
    | ended => cases hover

/-- The first step. -/
theorem handled_firstStep (hh : Handled lib serverName b m h sent) (hplace : h.place = .spawned)
    (hs : firstStep lib serverName h = (h', out)) : Handled lib serverName b m h' (sent ++ out.toList) := by
  obtain ⟨⟨rfl, rfl⟩, hknown⟩ := hh
  simp only [hplace] at hknown
  obtain ⟨htimer, hcalls, hevents, rfl⟩ := hknown
  rcases hkind : kind lib serverName h.msg with response | _ | _ | _
  all_goals
    simp only [firstStep, hkind, Prod.mk.injEq] at hs
    obtain ⟨rfl, rfl⟩ := hs
    refine ⟨⟨rfl, rfl⟩, ?_⟩
  · simp [Done, hkind, htimer, hcalls]
  · simp [hkind, hcalls]
  · simp [hkind, htimer, hcalls, hevents]
  · simp [hkind, htimer, hcalls]

/-- The transfer goes on. -/
theorem handled_nextStep {e : Event} (hh : Handled lib serverName b m h sent) (hplace : h.place = .streaming)
    (hs : nextStep lib serverName h e = (h', out)) : Handled lib serverName b m h' (sent ++ out.toList) := by
  obtain ⟨⟨rfl, rfl⟩, hknown⟩ := hh
  simp only [hplace] at hknown
  obtain ⟨hkind, htimer, hcalls, hover, rfl⟩ := hknown
  obtain ⟨hrelay, hisOver⟩ := relay_append serverName h.msg hover e
  cases e with
  | message b =>
    rcases hdecode : lib.decode b with _ | response
    · simp only [nextStep, hdecode, Prod.mk.injEq] at hs
      obtain ⟨rfl, rfl⟩ := hs
      refine ⟨⟨rfl, rfl⟩, ?_⟩
      simp [Done, hkind, htimer, hcalls, hrelay, hisOver, relay, isOver, hdecode]
    · simp only [nextStep, hdecode, Prod.mk.injEq] at hs
      obtain ⟨rfl, rfl⟩ := hs
      refine ⟨⟨rfl, rfl⟩, ?_⟩
      simp [hplace, hkind, htimer, hcalls, hrelay, hisOver, relay, isOver, hdecode]
  | failed =>
    simp only [nextStep, Prod.mk.injEq] at hs
    obtain ⟨rfl, rfl⟩ := hs
    refine ⟨⟨rfl, rfl⟩, ?_⟩
    simp [Done, hkind, htimer, hcalls, hrelay, hisOver, relay, isOver]
  | ended =>
    simp only [nextStep, Prod.mk.injEq] at hs
    obtain ⟨rfl, rfl⟩ := hs
    refine ⟨⟨rfl, rfl⟩, ?_⟩
    simp [Done, hkind, htimer, hcalls, hrelay, hisOver, relay, isOver]

/-- The five seconds are over. -/
theorem handled_timeout (hh : Handled lib serverName b m h sent) (htimer : h.timer = .sleeping ∨ h.timer = .aborted) :
    Handled lib serverName b m { h with timer := .done } (sent ++ [ednsError lib serverName h.msg .servFail]) := by
  obtain ⟨⟨rfl, rfl⟩, hknown⟩ := hh
  have hnone : h.timer ≠ .none := by
    rcases htimer with htimer | htimer
    all_goals simp [htimer]
  refine ⟨⟨rfl, rfl⟩, ?_⟩
  rcases hplace : h.place with _ | _ | _ | _ | _ | _
  all_goals simp only [hplace] at hknown ⊢
  · exact absurd hknown.1 hnone
  · exact absurd hknown.2.1 hnone
  · exact absurd hknown.2.1 hnone
  · obtain ⟨hkind, hcalls, ⟨-, rfl⟩ | ⟨hdone, -⟩⟩ := hknown
    · exact ⟨hkind, hcalls, Or.inr ⟨trivial, rfl⟩⟩
    · simp [hdone] at htimer
  · exact absurd hknown.2.1 hnone
  · unfold Done at hknown ⊢
    rcases hkind : kind lib serverName h.msg with response | _ | _ | _
    all_goals simp only [hkind] at hknown ⊢
    · exact absurd hknown.1 hnone
    · obtain ⟨hcalls, r, hlooked, ⟨-, rfl⟩ | ⟨hdone, -⟩⟩ := hknown
      · exact ⟨hcalls, r, hlooked, Or.inr ⟨trivial, List.Perm.refl _⟩⟩
      · simp [hdone] at htimer
    · exact absurd hknown.1 hnone
    · exact absurd hknown.1 hnone

theorem handled_lookedUp (r : Except ResponseCode M) (hh : Handled lib serverName b m h sent)
    (hplace : h.place = .lookingUp) :
    Handled lib serverName b m { h with place := .done, timer := h.timer.abort, looked := some r }
      (sent ++ [looked lib serverName h.msg r]) := by
  obtain ⟨⟨rfl, rfl⟩, hknown⟩ := hh
  simp only [hplace] at hknown
  obtain ⟨hkind, hcalls, htimer⟩ := hknown
  refine ⟨⟨rfl, rfl⟩, ?_⟩
  simp only [Done, hkind]
  refine ⟨hcalls, r, rfl, ?_⟩
  rcases htimer with ⟨htimer, rfl⟩ | ⟨htimer, rfl⟩
  · exact Or.inl ⟨by rw [htimer]; rfl, rfl⟩
  · exact Or.inr ⟨by rw [htimer]; rfl, List.Perm.swap _ _ _⟩

/-- **One step** of a handler. -/
theorem handled_step {i : Input M} (hh : Handled lib serverName b m h sent)
    (hs : handleRequest lib serverName h i = some (h', out)) : Handled lib serverName b m h' (sent ++ out.toList) := by
  cases i with
  | run =>
    simp only [handleRequest, Option.ite_none_right_eq_some, Option.some.injEq] at hs
    exact handled_firstStep hh hs.1 hs.2
  | opened ok =>
    simp only [handleRequest, Option.ite_none_right_eq_some] at hs
    obtain ⟨hplace, hs⟩ := hs
    obtain ⟨⟨rfl, rfl⟩, hknown⟩ := hh
    simp only [hplace] at hknown
    obtain ⟨hkind, htimer, hcalls, hevents, rfl⟩ := hknown
    cases ok with
    | true =>
      obtain ⟨rfl, rfl⟩ : _ = h' ∧ _ = out := by simpa using hs
      refine ⟨⟨rfl, rfl⟩, ?_⟩
      simp [hkind, htimer, hcalls, hevents, isOver, relay]
    | false =>
      obtain ⟨rfl, rfl⟩ : _ = h' ∧ _ = out := by simpa using hs
      refine ⟨⟨rfl, rfl⟩, ?_⟩
      simp [Done, hkind, htimer, hcalls, hevents, isOver, relay]
  | next e =>
    simp only [handleRequest, Option.ite_none_right_eq_some, Option.some.injEq] at hs
    exact handled_nextStep hh hs.1 hs.2
  | lookedUp r =>
    simp only [handleRequest, Option.ite_none_right_eq_some, Option.some.injEq, Prod.mk.injEq] at hs
    obtain ⟨hplace, rfl, rfl⟩ := hs
    exact handled_lookedUp r hh hplace
  | timeout =>
    simp only [handleRequest, Option.ite_none_right_eq_some, Option.some.injEq, Prod.mk.injEq] at hs
    obtain ⟨htimer, rfl, rfl⟩ := hs
    exact handled_timeout hh htimer
  | reply r =>
    simp only [handleRequest, Option.ite_none_right_eq_some, Option.some.injEq, Prod.mk.injEq] at hs
    obtain ⟨hplace, rfl, rfl⟩ := hs
    obtain ⟨⟨rfl, rfl⟩, hknown⟩ := hh
    simp only [hplace] at hknown
    obtain ⟨hkind, htimer, hcalls, rfl⟩ := hknown
    refine ⟨⟨rfl, rfl⟩, ?_⟩
    simp [Done, hkind, htimer, hcalls]

end

section
variable (lib : Library M E) (serverName : Option Bytes)

theorem handler_keeps : (handler lib serverName).Keeps (Handled lib serverName) where
  start _ _ := ⟨⟨rfl, rfl⟩, rfl, rfl, rfl, rfl⟩
  step _ _ _ _ _ _ _ hh hs := handled_step hh hs

/-! ### The server as a whole -/

variable (sockets : ℕ) (cs : List (Choice A (Input M)))

/-- The handlers have finished. -/
def AllDone (s : State A (Handling M) M) : Prop := ∀ t ∈ s.tasks, t.state.place = .done ∧ t.sending = none

/-- The client of a connection reads the responses to its requests, each with the number of its task: all that
is due for a request, in its order, and no others. -/
def Interleaved (s : State A (Handling M) M) (i : ℕ) (stream : Stream) : Prop :=
  ∃ (ks : List ℕ) (responses : List (ℕ × M)), ks.Nodup ∧
    List.Forall₂ (fun b k => ∃ t m, s.tasks[k]? = some t ∧ t.request.msg = b ∧ t.request.context = i ∧
        lib.decode b = some m ∧ Done lib serverName b m t.state ((responses.filter (·.1 = k)).map Prod.snd))
      ((u16.split stream.came).1.filter (isRequest lib.toCodec)) ks ∧
    (∀ r ∈ responses, r.1 ∈ ks) ∧ stream.out = u16.frames (responses.filterMap fun r => lib.encode r.2)

end

end HexDns.Net.Relay
