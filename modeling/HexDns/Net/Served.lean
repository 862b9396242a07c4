import HexDns.Net.Server

/-! # What the clients of the server get

Whatever the handlers do and whoever goes on next: a client gets responses of the handlers of its own
requests only, in the order in which they were sent, each with its length in front (`served`). And once the
server is at rest, every message that has come is handled and every response is written
(`nothing_lost`). -/

namespace HexDns.Net.Server

open HexDns.Lib.Texts HexDns.Lib.Runs HexDns.Lib.Frames HexDns.Net.Tcp

variable {A M S I : Type}

/-- The handled requests from a socket or connection. -/
def State.requestsFrom (s : State A S M) (i : ℕ) : List (Incoming A) := s.handled.filter (·.context = i)

/-- What is sent to the clients of a socket or connection are responses to their own requests. -/
def Served [DecidableEq A] (codec : Codec M) (s : State A S M) (i : ℕ) (p : Port A) : Prop :=
  (∀ o ∈ s.responsesTo i, ∃ r, s.handled[o.task]? = some r ∧ r.context = i ∧ r.addr = o.addr) ∧
  match p.transport with
  | .tcp _ stream =>
    (s.requestsFrom i).map (·.msg) <+: (u16.split stream.came).1.filter (isRequest codec) ∧
      stream.out <+: u16.frames ((s.responsesTo i).filterMap fun o => codec.encode o.msg)
  | .udp sent => ∀ addr, ((sent.filter (·.1 = addr)).map Prod.snd).Sublist
      (((s.responsesTo i).filter (·.addr = addr)).filterMap fun o => codec.encode o.msg)

/-- Nothing is on its way through the server. -/
structure AtRest (s : State A S M) : Prop where
  requests : s.requests = []
  responses : s.responses = []
  delivering : s.delivering = none
  ports : ∀ p ∈ s.ports, p.blocked = none ∧ p.queue = []

section
variable {codec : Codec M} {s : State A S M} {i : ℕ} {p : Port A} {addr : A} {stream : Stream}

theorem map_packet (l : List (Outgoing A M)) :
    (l.filterMap (packet codec)).map Prod.snd = l.filterMap fun o => codec.encode o.msg := by
  rw [List.map_filterMap]
  congr 1
  funext o
  unfold packet
  cases codec.encode o.msg <;> rfl

theorem filter_packet [DecidableEq A] (l : List (Outgoing A M)) (addr : A) :
    (l.filterMap (packet codec)).filter (·.1 = addr) = (l.filter (·.addr = addr)).filterMap (packet codec) := by
  induction l with
  | nil => rfl
  | cons o l ih =>
    unfold packet at ih ⊢
    rcases hencode : codec.encode o.msg with _ | b
    · by_cases haddr : o.addr = addr
      · simp [hencode, haddr, ih]
      · simp [hencode, haddr, ih]
    · by_cases haddr : o.addr = addr
      · simp [hencode, haddr, ih]
      · simp [hencode, haddr, ih]

/-- The handled requests of a socket or connection, among those that were taken from the channel. -/
theorem Inv.map_requestsFrom (h : Inv codec s) : (s.requestsFrom i).map (·.msg) =
    ((s.dispatched.filter (·.context = i)).map (·.msg)).filter (isRequest codec) := by
  unfold State.requestsFrom
  rw [h.tasks, List.filter_map, List.filter_filter, List.filter_filter]
  congr 1
  refine List.filter_congr fun r _ => ?_
  rw [Function.comp_apply, Bool.and_comm]

theorem Inv.map_dispatched (h : Inv codec s) (hp : s.ports[i]? = some p) :
    (s.dispatched.filter (·.context = i)).map (·.msg) ++ (s.requests.filter (·.context = i)).map (·.msg) =
      p.submitted.map Prod.snd := by
  rw [← h.submitted i p hp, List.filter_append, List.map_append, List.map_append, List.map_map, List.map_map]
  rfl

/-- What is known of a connection. -/
theorem Inv.sound (h : Inv codec s) (hp : s.ports[i]? = some p) (ht : p.transport = .tcp addr stream) :
    stream.Sound (p.got.map Prod.snd) (p.taken.map Prod.snd) := by
  have hgood := h.good p (List.mem_of_getElem? hp)
  simp only [Port.Good, ht] at hgood
  exact hgood.1

theorem Inv.prefix_split (h : Inv codec s) (hp : s.ports[i]? = some p) (ht : p.transport = .tcp addr stream) :
    (s.dispatched.filter (·.context = i)).map (·.msg) <+: (u16.split stream.came).1 := by
  have hsound := h.sound hp ht
  have hgot : (s.dispatched.filter (·.context = i)).map (·.msg) <+: p.got.map Prod.snd := by
    rw [Port.got, List.map_append, ← h.map_dispatched hp, List.append_assoc]
    exact List.prefix_append _ _
  refine hgot.trans (Format.prefix_split (fun m hm => ?_) hsound.hasRead.begins)
  exact fits_iff.mpr (hsound.lengths m hm)

/-- The responses that were taken from the channel of a socket or connection. -/
theorem Inv.taken_prefix (h : Inv codec s) (hp : s.ports[i]? = some p) :
    p.taken <+: (s.responsesTo i).filterMap (packet codec) := by
  have hgiven := h.given i p hp
  unfold State.responsesTo
  rw [List.filter_append, List.filterMap_append, ← hgiven, Port.given, List.append_assoc, List.append_assoc]
  exact List.prefix_append _ _

theorem Inv.serves [DecidableEq A] (h : Inv codec s) (hp : s.ports[i]? = some p) : Served codec s i p := by
  refine ⟨fun o ho => ?_, ?_⟩
  · obtain ⟨hmem, hcontext⟩ := List.mem_filter.mp ho
    obtain ⟨r, hr, hrc, hra⟩ := h.own o hmem
    exact ⟨r, hr, hrc.trans (of_decide_eq_true hcontext), hra⟩
  rcases ht : p.transport with sent | ⟨addr, stream⟩
  · intro addr
    have hsent : sent.Sublist p.taken := by
      have hgood := h.good p (List.mem_of_getElem? hp)
      simpa only [Port.Good, ht] using hgood
    have hall : sent.Sublist ((s.responsesTo i).filterMap (packet codec)) :=
      hsent.trans (h.taken_prefix hp).sublist
    have hfilter := (hall.filter (·.1 = addr)).map Prod.snd
    rwa [filter_packet, map_packet] at hfilter
  · refine ⟨?_, ?_⟩
    · rw [h.map_requestsFrom]
      exact (h.prefix_split hp ht).filter _
    · have htaken := (h.taken_prefix hp).map Prod.snd
      rw [map_packet] at htaken
      exact (h.sound hp ht).hasWritten.begins.trans (Format.frames_prefix htaken)

/-- At rest, everything that has come is handled, and everything is written. -/
theorem Inv.complete (h : Inv codec s) (hrest : AtRest s) (hp : s.ports[i]? = some p)
    (ht : p.transport = .tcp addr stream) :
    (stream.Waits → (s.requestsFrom i).map (·.msg) = (u16.split stream.came).1.filter (isRequest codec)) ∧
      (stream.broken = false → stream.out = u16.frames ((s.responsesTo i).filterMap fun o => codec.encode o.msg)) := by
  obtain ⟨hblocked, hqueue⟩ := hrest.ports p (List.mem_of_getElem? hp)
  have hsound := h.sound hp ht
  constructor
  · intro hwaits
    have hgot : p.got = p.submitted := by rw [Port.got, hblocked, Option.toList_none, List.append_nil]
    have hdispatched := h.map_dispatched hp
    rw [hrest.requests, List.filter_nil, List.map_nil, List.append_nil] at hdispatched
    rw [h.map_requestsFrom, hdispatched, ← hgot, hsound.hasRead.split hsound.lengths hwaits]
  · intro hbroken
    have hgiven := h.given i p hp
    rw [Port.given, hqueue, List.append_nil, State.passing, hrest.delivering] at hgiven
    simp only [Option.filter_none, Option.map_none, Option.toList_none, List.append_nil] at hgiven
    have hwritten := hsound.hasWritten
    unfold Stream.HasWritten at hwritten
    rw [hbroken, if_neg Bool.false_ne_true] at hwritten
    rw [hwritten, hgiven, map_packet, State.responsesTo, hrest.responses, List.append_nil]

end

section
variable (codec : Codec M) (handler : Handler M S I) (sockets : ℕ) (cs : List (Choice A I))

theorem always_inv : Always (step codec handler) (Inv codec) (initial A S M sockets) cs :=
  always_of_step (fun _ _ _ h hs => inv_step h hs) (inv_initial sockets) cs

/-- **Nobody gets a response to another one's request**: in every state of every run. -/
theorem served [DecidableEq A] : Always (step codec handler)
    (fun s => ∀ i p, s.ports[i]? = some p → Served codec s i p) (initial A S M sockets) cs :=
  (always_inv codec handler sockets cs).mono fun _ h _ _ hp => Inv.serves h hp

/-- **Nothing is lost**: when nothing is on its way, a connection whose client has not sent half a message has
handlers for all requests of the client, and the client has all their responses unless writing has failed. -/
theorem nothing_lost : Always (step codec handler)
    (fun s => AtRest s → ∀ i p addr stream, s.ports[i]? = some p → p.transport = .tcp addr stream →
      (stream.Waits → (s.requestsFrom i).map (·.msg) = (u16.split stream.came).1.filter (isRequest codec)) ∧
        (stream.broken = false →
          stream.out = u16.frames ((s.responsesTo i).filterMap fun o => codec.encode o.msg)))
    (initial A S M sockets) cs :=
  (always_inv codec handler sockets cs).mono fun _ h hrest _ _ _ _ hp ht => Inv.complete h hrest hp ht

end

end HexDns.Net.Server
