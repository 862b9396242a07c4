import HexDns.Commands.NotifyConn
import HexDns.Lib.Runs

/-! # The NOTIFY messages to other secondaries

Knot sends a NOTIFY to `run-axfr-notify`, which puts a message into the queue `hexdns_axfr_notify` for each target
of the zone. `axfr-notify` takes the messages one by one, resolves the server and sends a NOTIFY to the first of
its addresses that takes it; a message is acknowledged after that. If the name of the zone cannot be parsed or the
server not be resolved, the loop goes on without acknowledging, and the message stays with the consumer. When
`axfr-notify` dies, the queue gets back all that it has not acknowledged.

`accounted` says that no message is lost: each waits, is with the consumer, or was handled to its end. -/

namespace HexDns.Axfr.Notifications

open HexDns.Lib.Texts HexDns.Lib.Programs HexDns.Lib.Runs HexDns.Base.Py HexDns.Base.Label HexDns.Base.Message
  HexDns.Commands.NotifyConn

/-! ### The messages -/

/-- `Notify` -/
structure Notify where
  server : Text
  port : Fin (2 ^ 32)
  zone : Text
  deriving DecidableEq

/-- What the two programs use of their libraries. -/
structure Codec (N : Type) where
  /-- `SerializeToString` -/
  encode : Notify → Bytes
  /-- `Notify::decode` -/
  decode : Bytes → Option Notify
  decode_encode : ∀ n, decode (encode n) = some n
  /-- `Name::from_str_relaxed` -/
  name : Text → Option N

/-- The messages for some targets of a zone, up to one that is no `Notify`. -/
def made (zoneRoot : Text) : List (Text × ℕ) → List Notify
  | [] => []
  | target :: targets =>
    if hport : target.2 < 2 ^ 32 then ⟨target.1, ⟨target.2, hport⟩, zoneRoot⟩ :: made zoneRoot targets else []

/-- `DNSZone.objects.filter(zone_root=str(dns_name).rstrip(".")).first()` -/
def zoneNamed (zones : List NotifyZone) (dnsName : DnsLabel) : Option NotifyZone :=
  zones.find? fun z => z.zoneRoot = dnsName.toText.rdropWhile (· = '.')

/-- The messages for a name -/
def notifies (zones : List NotifyZone) (dnsName : DnsLabel) : List Notify :=
  match zoneNamed zones dnsName with
  | some zone => made zone.zoneRoot zone.targets
  | none => []

/-! ### The programs -/

/-- What becomes of an address. -/
inductive Tried
  | unreachable
  /-- `write_all` fails. -/
  | cut
  | sent
  deriving DecidableEq, Repr

/-- What `axfr-notify` does for a message: the addresses of the server, and what has become of the first ones. -/
structure Handling (A N : Type) where
  notify : Notify
  zone : N
  addrs : List A
  tried : List Tried

/-- The loop over the addresses is over. -/
def Handling.over {A N : Type} (h : Handling A N) : Bool := .sent ∈ h.tried || h.tried.length = h.addrs.length

/-- Where `axfr-notify` is; a message that cannot be decoded has nothing to do. -/
inductive Consumer (A N : Type)
  | dead
  | idle
  | handling (body : Bytes) (h : Option (Handling A N))

/-- The zones and names that were notified, and the messages that were published, are recorded, and what the
consumer has done. -/
structure State (A N : Type) where
  requests : List (List NotifyZone × DnsLabel)
  published : List Notify
  waiting : List Bytes
  /-- with the consumer, which has gone on without acknowledging them -/
  unacknowledged : List Bytes
  consumer : Consumer A N
  handled : List (Bytes × Option (Handling A N))
  /-- The consumer has died. -/
  abandoned : List (Handling A N)

/-- What happens next. -/
inductive Choice (A : Type)
  /-- A NOTIFY for a name comes in, and so many messages are published before something is raised. -/
  | notified (zones : List NotifyZone) (dnsName : DnsLabel) (upTo : ℕ)
  /-- The consumer takes a message; the server has these addresses, if it can be resolved. -/
  | receive (resolved : Option (List A))
  | attempt (r : Tried)
  | acknowledge
  | dies
  | starts

variable {A N : Type}

/-- The message that the consumer is at -/
def Consumer.body : Consumer A N → List Bytes
  | .handling body _ => [body]
  | _ => []

def Consumer.current : Consumer A N → List (Handling A N)
  | .handling _ h => h.toList
  | _ => []

section
variable (codec : Codec N)

/-- What the consumer makes of a message, up to the loop over the addresses, if it does not go on with the next. -/
def opened (body : Bytes) (resolved : Option (List A)) : Option (Option (Handling A N)) :=
  match codec.decode body with
  | none => some none
  | some notify => (codec.name notify.zone).bind fun zone => resolved.map fun addrs => some ⟨notify, zone, addrs, []⟩

def step (s : State A N) : Choice A → Option (State A N)
  | .notified zones dnsName upTo => some { s with
      requests := s.requests ++ [(zones, dnsName)]
      published := s.published ++ (notifies zones dnsName).take upTo
      waiting := s.waiting ++ ((notifies zones dnsName).take upTo).map codec.encode }
  | .receive resolved =>
    match s.consumer, s.waiting with
    | .idle, body :: rest =>
      match opened codec body resolved with
      | some h => some { s with waiting := rest, consumer := .handling body h }
      | none => some { s with waiting := rest, unacknowledged := s.unacknowledged ++ [body] }
    | _, _ => none
  | .attempt r =>
    match s.consumer with
    | .handling body (some h) =>
      if h.over then none
      else some { s with consumer := .handling body (some { h with tried := h.tried ++ [r] }) }
    | _ => none
  | .acknowledge =>
    match s.consumer with
    | .handling body h =>
      if h.all (·.over) then some { s with consumer := .idle, handled := s.handled ++ [(body, h)] } else none
    | _ => none
  | .dies =>
    match s.consumer with
    | .dead => none
    | consumer => some { s with
        consumer := .dead
        waiting := s.unacknowledged ++ consumer.body ++ s.waiting
        unacknowledged := []
        abandoned := s.abandoned ++ consumer.current }
  | .starts =>
    match s.consumer with
    | .dead => some { s with consumer := .idle }
    | _ => none

end

def initial (A N : Type) : State A N := ⟨[], [], [], [], .dead, [], []⟩

/-! ### The messages of a NOTIFY -/

theorem mem_made {zoneRoot : Text} {targets : List (Text × ℕ)} {n : Notify} (hn : n ∈ made zoneRoot targets) :
    (n.server, n.port.val) ∈ targets ∧ n.zone = zoneRoot := by
  induction targets with
  | nil => cases hn
  | cons target targets ih =>
    unfold made at hn
    split at hn
    · rcases List.mem_cons.mp hn with rfl | hn
      · exact ⟨List.mem_cons_self, rfl⟩
      · exact ⟨List.mem_cons_of_mem _ (ih hn).1, (ih hn).2⟩
    · cases hn

theorem map_encode_made {zoneRoot : Text} {targets : List (Text × ℕ)} {notify : Text → ℕ → Text → Bytes}
    {codec : Codec N} (hnotify : ∀ server port zone (hport : port < 2 ^ 32),
      notify server port zone = codec.encode ⟨server, ⟨port, hport⟩, zone⟩)
    (hports : ∀ t ∈ targets, t.2 < 2 ^ 32) :
    (made zoneRoot targets).map codec.encode = targets.map fun t => notify t.1 t.2 zoneRoot := by
  induction targets with
  | nil => rfl
  | cons target targets ih =>
    obtain ⟨hport, hports⟩ := List.forall_mem_cons.mp hports
    rw [made, dif_pos hport, List.map_cons, List.map_cons, ih hports, hnotify _ _ _ hport]

/-- **The messages are those that the handler of `run-axfr-notify` publishes**, if the ports are numbers of 32 bits. -/
theorem axfrNotifyMessage_eq {s : Services} {codec : Codec N}
    (hnotify : ∀ server port zone (hport : port < 2 ^ 32),
      s.notify server port zone = codec.encode ⟨server, ⟨port, hport⟩, zone⟩)
    {data : Bytes} {packet : DnsRecord} {question : Question} {rest : List Question}
    (hparse : s.parse data = .ok packet) (hquestions : packet.questions = question :: rest)
    (hopcode : packet.opcode = notifyOpcode)
    (hports : ∀ z ∈ s.zones, ∀ t ∈ z.targets, t.2 < 2 ^ 32) : axfrNotifyMessage s data =
      (s.respond packet.id question.qname >>= fun _ =>
        let bodies := (notifies s.zones question.qname).map codec.encode
        if bodies = [] then return true else s.publish bodies >>= fun _ => return false) := by
  unfold axfrNotifyMessage
  simp only [hparse, hquestions, hopcode, if_true]
  congr 1
  funext u
  rcases hzone : zoneNamed s.zones question.qname with _ | zone
  · have hnone : notifies s.zones question.qname = [] := by simp [notifies, hzone]
    rw [zoneNamed] at hzone
    simp [hzone, hnone]
  · have hmem := List.mem_of_find?_eq_some hzone
    have hbodies : (notifies s.zones question.qname).map codec.encode =
        zone.targets.map fun t => s.notify t.1 t.2 zone.zoneRoot := by
      simp only [notifies, hzone]
      exact map_encode_made hnotify (hports zone hmem)
    rw [zoneNamed] at hzone
    simp only [hzone, hbodies, List.map_eq_nil_iff]

/-! ### The statement -/

/-- The addresses are tried one by one, and none after one that takes the message. -/
structure Handling.InOrder (h : Handling A N) : Prop where
  length : h.tried.length ≤ h.addrs.length
  first : Tried.sent ∉ h.tried.dropLast

/-- All that the consumer has begun -/
def State.handlings (s : State A N) : List (Handling A N) :=
  s.handled.filterMap Prod.snd ++ s.abandoned ++ s.consumer.current

/-- **No message is lost, and none is made up.** -/
structure Accounted (codec : Codec N) (s : State A N) : Prop where
  /-- A message waits, is with the consumer, or was handled. -/
  all : (s.waiting ++ s.unacknowledged ++ s.consumer.body ++ s.handled.map Prod.fst).Perm
    (s.published.map codec.encode)
  /-- A message was handled to its end. -/
  handled : ∀ x ∈ s.handled, ∃ h, x = (codec.encode h.notify, some h) ∧ h.over = true
  /-- What is tried, for the first time or again, is what was published. -/
  handlings : ∀ h ∈ s.handlings, h.notify ∈ s.published ∧ codec.name h.notify.zone = some h.zone ∧ h.InOrder
  /-- What was published is for a target of a zone that was notified. -/
  published : ∀ n ∈ s.published, ∃ r ∈ s.requests, ∃ z ∈ r.1,
    z.zoneRoot = r.2.toText.rdropWhile (· = '.') ∧ (n.server, n.port.val) ∈ z.targets ∧ n.zone = z.zoneRoot

/-! ### Steps -/

section
variable {codec : Codec N} {s s' : State A N}

theorem Accounted.mem_published (hs : Accounted codec s) {body : Bytes} {n : Notify}
    (hbody : body ∈ s.waiting ++ s.unacknowledged ++ s.consumer.body ++ s.handled.map Prod.fst)
    (hn : codec.decode body = some n) : n ∈ s.published ∧ body = codec.encode n := by
  obtain ⟨m, hm, rfl⟩ := List.mem_map.mp (hs.all.subset hbody)
  rw [codec.decode_encode] at hn
  obtain rfl := Option.some.inj hn
  exact ⟨hm, rfl⟩

theorem exists_request {zones : List NotifyZone} {dnsName : DnsLabel} {n : Notify} (hn : n ∈ notifies zones dnsName) :
    ∃ z ∈ zones, z.zoneRoot = dnsName.toText.rdropWhile (· = '.') ∧ (n.server, n.port.val) ∈ z.targets ∧
      n.zone = z.zoneRoot := by
  unfold notifies at hn
  rcases hzone : zoneNamed zones dnsName with _ | zone
  · simp [hzone] at hn
  · simp only [hzone] at hn
    have hroot := List.find?_some hzone
    exact ⟨zone, List.mem_of_find?_eq_some hzone, of_decide_eq_true hroot, mem_made hn⟩

/-- The message that the consumer is at can be decoded. -/
structure Inv (codec : Codec N) (s : State A N) : Prop extends Accounted codec s where
  current : ∀ body h, s.consumer = .handling body h → ∃ h', h = some h' ∧ body = codec.encode h'.notify

theorem Inv.notified (hs : Inv codec s) (zones : List NotifyZone) (dnsName : DnsLabel) (upTo : ℕ) :
    Inv codec { s with
      requests := s.requests ++ [(zones, dnsName)]
      published := s.published ++ (notifies zones dnsName).take upTo
      waiting := s.waiting ++ ((notifies zones dnsName).take upTo).map codec.encode } where
  all := by
    rw [List.perm_iff_count]
    intro b
    have hcount := (List.perm_iff_count.mp hs.all) b
    simp only [List.count_append, List.map_append] at hcount ⊢
    omega
  handled := hs.handled
  handlings h hh := by
    obtain ⟨hmem, hrest⟩ := hs.handlings h hh
    exact ⟨List.mem_append_left _ hmem, hrest⟩
  published n hn := by
    rcases List.mem_append.mp hn with hn | hn
    · obtain ⟨r, hr, hz⟩ := hs.published n hn
      exact ⟨r, List.mem_append_left _ hr, hz⟩
    · exact ⟨_, List.mem_append_right _ (List.mem_singleton_self _), exists_request (List.mem_of_mem_take hn)⟩
  current := hs.current

/-- The consumer takes a message and resolves its server. -/
theorem Inv.receive (hs : Inv codec s) {body : Bytes} {rest : List Bytes} {h : Option (Handling A N)}
    {resolved : Option (List A)} (hidle : s.consumer = .idle) (hwaiting : s.waiting = body :: rest)
    (hopened : opened codec body resolved = some h) :
    Inv codec { s with waiting := rest, consumer := .handling body h } := by
  have hbody : body ∈ s.waiting ++ s.unacknowledged ++ s.consumer.body ++ s.handled.map Prod.fst := by
    simp [hwaiting]
  obtain ⟨n, hn, rfl⟩ := List.mem_map.mp (hs.all.subset hbody)
  simp only [opened, codec.decode_encode, Option.bind_eq_some_iff, Option.map_eq_some_iff] at hopened
  obtain ⟨zone, hname, addrs, -, rfl⟩ := hopened
  refine ⟨⟨?_, hs.handled, fun h hh => ?_, hs.published⟩, ?_⟩
  · rw [List.perm_iff_count]
    intro b
    have hcount := (List.perm_iff_count.mp hs.all) b
    simp only [hwaiting, hidle, Consumer.body, List.count_append, List.count_cons, List.count_nil] at hcount ⊢
    omega
  · rcases List.mem_append.mp hh with hh | hh
    · exact hs.handlings h (List.mem_append_left _ hh)
    · obtain rfl := List.mem_singleton.mp hh
      exact ⟨hn, hname, Nat.zero_le _, List.not_mem_nil⟩
  · rintro body h hb
    obtain ⟨rfl, rfl⟩ : codec.encode n = body ∧ some _ = h := by simpa using hb
    exact ⟨_, rfl, rfl⟩

/-- The consumer passes over a message. -/
theorem Inv.passOver (hs : Inv codec s) {body : Bytes} {rest : List Bytes} (hwaiting : s.waiting = body :: rest) :
    Inv codec { s with waiting := rest, unacknowledged := s.unacknowledged ++ [body] } := by
  refine ⟨⟨?_, hs.handled, hs.handlings, hs.published⟩, hs.current⟩
  rw [List.perm_iff_count]
  intro b
  have hcount := (List.perm_iff_count.mp hs.all) b
  simp only [hwaiting, List.count_append, List.count_cons, List.count_nil] at hcount ⊢
  omega

theorem Handling.InOrder.attempt {h : Handling A N} (hh : h.InOrder) (hover : h.over = false) (r : Tried) :
    Handling.InOrder { h with tried := h.tried ++ [r] } := by
  simp only [Handling.over, Bool.or_eq_false_iff, decide_eq_false_iff_not] at hover
  refine ⟨?_, ?_⟩
  · have hle := hh.length
    have hne := hover.2
    simp only [List.length_append, List.length_singleton]
    omega
  · rw [List.dropLast_concat]
    exact hover.1

theorem Inv.attempt (hs : Inv codec s) {body : Bytes} {h : Handling A N}
    (hhandling : s.consumer = .handling body (some h)) (hover : h.over = false) (r : Tried) :
    Inv codec { s with consumer := .handling body (some { h with tried := h.tried ++ [r] }) } := by
  have hcurrent : h ∈ s.handlings := by simp [State.handlings, hhandling, Consumer.current]
  refine ⟨⟨?_, hs.handled, fun h' hh => ?_, hs.published⟩, ?_⟩
  · have hall := hs.all
    rwa [hhandling] at hall
  · rcases List.mem_append.mp hh with hh | hh
    · exact hs.handlings h' (List.mem_append_left _ hh)
    · obtain rfl := List.mem_singleton.mp hh
      obtain ⟨hmem, hname, horder⟩ := hs.handlings h hcurrent
      exact ⟨hmem, hname, horder.attempt hover r⟩
  · rintro body' h' hb
    obtain ⟨rfl, rfl⟩ : body = body' ∧ some _ = h' := by simpa using hb
    obtain ⟨h'', heq, rfl⟩ := hs.current body (some h) hhandling
    obtain rfl := Option.some.inj heq
    exact ⟨_, rfl, rfl⟩

theorem Inv.acknowledge (hs : Inv codec s) {body : Bytes} {h : Option (Handling A N)}
    (hhandling : s.consumer = .handling body h) (hover : h.all (·.over) = true) :
    Inv codec { s with consumer := .idle, handled := s.handled ++ [(body, h)] } := by
  obtain ⟨h, rfl, rfl⟩ := hs.current body h hhandling
  refine ⟨⟨?_, fun x hx => ?_, fun h' hh => ?_, hs.published⟩, ?_⟩
  · rw [List.perm_iff_count]
    intro b
    have hcount := (List.perm_iff_count.mp hs.all) b
    simp only [hhandling, Consumer.body, List.map_append, List.map_cons, List.map_nil, List.count_append,
      List.count_cons, List.count_nil] at hcount ⊢
    omega
  · rcases List.mem_append.mp hx with hx | hx
    · exact hs.handled x hx
    · obtain rfl := List.mem_singleton.mp hx
      exact ⟨h, rfl, hover⟩
  · refine hs.handlings h' ?_
    simpa [State.handlings, Consumer.current, hhandling, or_comm, or_left_comm] using hh
  · rintro body h' hb
    cases hb

theorem Inv.dies (hs : Inv codec s) : Inv codec { s with
    consumer := .dead
    waiting := s.unacknowledged ++ s.consumer.body ++ s.waiting
    unacknowledged := []
    abandoned := s.abandoned ++ s.consumer.current } := by
  refine ⟨⟨?_, hs.handled, fun h hh => hs.handlings h ?_, hs.published⟩, ?_⟩
  · rw [List.perm_iff_count]
    intro b
    have hcount := (List.perm_iff_count.mp hs.all) b
    simp only [Consumer.body, List.count_append, List.count_nil] at hcount ⊢
    omega
  · simpa [State.handlings, Consumer.current] using hh
  · rintro body h hb
    cases hb

/-- **One step** keeps the account. -/
theorem inv_step {c : Choice A} (hs : Inv codec s) (h : step codec s c = some s') : Inv codec s' := by
  cases c with
  | notified zones dnsName upTo =>
    obtain rfl := Option.some.inj h
    exact hs.notified zones dnsName upTo
  | receive resolved =>
    rcases hconsumer : s.consumer with _ | _ | ⟨body, current⟩
    · simp [step, hconsumer] at h
    · rcases hwaiting : s.waiting with _ | ⟨body, rest⟩
      · simp [step, hconsumer, hwaiting] at h
      rcases hopened : opened codec body resolved with _ | current
      · simp only [step, hconsumer, hwaiting, hopened, Option.some.injEq] at h
        subst h
        rw [← hconsumer]
        exact hs.passOver hwaiting
      · simp only [step, hconsumer, hwaiting, hopened, Option.some.injEq] at h
        subst h
        exact hs.receive hconsumer hwaiting hopened
    · simp [step, hconsumer] at h
  | attempt r =>
    rcases hconsumer : s.consumer with _ | _ | ⟨body, _ | current⟩
    · simp [step, hconsumer] at h
    · simp [step, hconsumer] at h
    · simp [step, hconsumer] at h
    · simp only [step, hconsumer, Option.ite_none_left_eq_some, Option.some.injEq, Bool.not_eq_true] at h
      obtain ⟨hover, rfl⟩ := h
      exact hs.attempt hconsumer hover r
  | acknowledge =>
    rcases hconsumer : s.consumer with _ | _ | ⟨body, current⟩
    · simp [step, hconsumer] at h
    · simp [step, hconsumer] at h
    · simp only [step, hconsumer, Option.ite_none_right_eq_some, Option.some.injEq] at h
      obtain ⟨hover, rfl⟩ := h
      exact hs.acknowledge hconsumer hover
  | dies =>
    have hdies := hs.dies
    rcases hconsumer : s.consumer with _ | _ | ⟨body, current⟩
    · simp [step, hconsumer] at h
    · simp only [step, hconsumer, Option.some.injEq] at h
      rwa [hconsumer, h] at hdies
    · simp only [step, hconsumer, Option.some.injEq] at h
      rwa [hconsumer, h] at hdies
  | starts =>
    rcases hconsumer : s.consumer with _ | _ | ⟨body, current⟩
    · simp only [step, hconsumer, Option.some.injEq] at h
      subst h
      refine ⟨⟨?_, hs.handled, fun h hh => hs.handlings h ?_, hs.published⟩, ?_⟩
      · have hall := hs.all
        rwa [hconsumer] at hall
      · simpa [State.handlings, Consumer.current, hconsumer] using hh
      · rintro body h hb
        cases hb
    · simp [step, hconsumer] at h
    · simp [step, hconsumer] at h

end

theorem inv_initial (codec : Codec N) : Inv codec (initial A N) :=
  ⟨⟨List.Perm.refl _, fun _ h => absurd h List.not_mem_nil, fun _ h => absurd h List.not_mem_nil,
    fun _ h => absurd h List.not_mem_nil⟩, fun _ _ h => by cases h⟩

/-- **No NOTIFY is lost**, in any run, however often the consumer dies: each message that was published waits, is
with the consumer, or was handled until an address took it or none was left. -/
theorem accounted (codec : Codec N) (cs : List (Choice A)) :
    Always (step codec) (Accounted codec) (initial A N) cs :=
  (always_of_step (fun _ _ _ hs h => inv_step hs h) (inv_initial codec) cs).mono fun _ h => h.toAccounted

end HexDns.Axfr.Notifications
