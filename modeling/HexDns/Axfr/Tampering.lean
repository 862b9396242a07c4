import HexDns.Axfr.Connections
import HexDns.Axfr.Transfers
import HexDns.Lib.MacChains

/-! # Transfers cannot be tampered with

What a client of the AXFR server knows of the messages that it has accepted, whoever has sent them. The
messages that the server signs for a request are a chain of MACs that begins with the MAC of the request, and
a client verifies such a chain. `tamper_evident` says that what a client accepts is the beginning of what
the server has signed for one request with the same MAC, whatever else the server has signed with the secret;
or else the client has accepted a MAC over data that the server has never signed, or two data that the server
has signed have the same MAC. -/

namespace HexDns.Axfr.Tampering

open HexDns.Lib.Texts HexDns.Lib.Frames HexDns.Lib.MacChains HexDns.Base.Label HexDns.Base.Message
  HexDns.Models.Db HexDns.Models.Env HexDns.Models.Wire HexDns.Net.Tcp HexDns.Axfr.Server HexDns.Axfr.Authorised
  HexDns.Axfr.Transfers HexDns.Axfr.Connections

/-! ### What is signed and what is verified -/

section
variable (s : Server)

/-- What the MAC of a message is over after the MAC before: the message without its TSIG, and of the TSIG the
variables or the timers. -/
def wire (first : Bool) (m : Message) : Option (Bytes × Bytes) :=
  m.tsig.bind fun t => (s.emit { m with tsig := none }).bind fun body =>
    (if first then s.emitTsigForMac { t with mac := [] } t.name else some (timers t)).map fun tail => (body, tail)

def wires : Bool → List Message → Option (List (Bytes × Bytes))
  | _, [] => some []
  | first, m :: ms => (wire s first m).bind fun w => (wires false ms).map (w :: ·)

/-- The data of a MAC. -/
def dataOf (l : Link Bytes (Bytes × Bytes)) : Bytes :=
  emitUint 2 l.prior.length ++ l.prior ++ l.body.1 ++ l.body.2

def macOf (algorithm : TsigAlgorithm) (key : Bytes) (l : Link Bytes (Bytes × Bytes)) : Bytes :=
  s.hmac algorithm key (dataOf l)

/-- `tbs` of `sign_message` -/
def toBeSigned (now : ℕ) (message : Message) (ctx : TsigContext) : Option Bytes := do
  let body ← s.emit message
  let tail ← macTail s ⟨ctx.name, ctx.algorithm, now, 300, [], message.id⟩ ctx
  return emitUint 2 ctx.hash.length ++ ctx.hash ++ body ++ tail

/-- The messages as they are signed one after the other, up to the first that cannot be signed, with the data
of their MACs. -/
def signAll : (ℕ → ℕ) → TsigContext → List Message → List (Message × Bytes)
  | _, _, [] => []
  | clock, ctx, m :: ms =>
    match toBeSigned s (clock 0) m ctx with
    | none => []
    | some tbs =>
      let mac := s.hmac ctx.algorithm ctx.key tbs
      ({ m with tsig := some ⟨ctx.name, ctx.algorithm, clock 0, 300, mac, m.id⟩ }, tbs) ::
        signAll (fun i => clock (i + 1)) { ctx with first := false, hash := mac } ms

/-- The data of the MACs that a client computes while it accepts messages. -/
def verified : Client → List Message → List Bytes
  | _, [] => []
  | c, m :: ms =>
    (m.tsig.bind (c.macData s m)).toList ++ ((c.accept s m).map fun c' => verified c' ms).getD []

variable (h : Host) (fromBytes : Bytes → Option Request)

/-- The messages that are sent if the request is let through. -/
def messages (msg : Request) (soa : RecordSet) (zoneFile : ZoneFile) : List Message :=
  if msg.query.queryType = .soa then [response msg soa.recordsWithoutRrsigs] else transfer msg soa zoneFile

/-- What is signed for a request: the context that its signature gives, and the messages. -/
def signing (r : Handled) : Option (TsigContext × List Message) :=
  match fromBytes r.msg with
  | none => none
  | some msg =>
    if msg.wellFormed then
      match readZoneFile s r.dir msg, (verifySignature s h r.now msg r.st).1 with
      | .ok (soa, zoneFile), .ok (some ctx) => some (ctx, messages msg soa zoneFile)
      | _, _ => none
    else none

/-- The messages that are signed for a request, with the data of their MACs. -/
def signedFor (r : Handled) : List (Message × Bytes) :=
  match signing s h fromBytes r with
  | none => []
  | some (ctx, ms) => signAll s r.clock ctx ms

/-- All data that are signed with a key. -/
def signedData (algorithm : TsigAlgorithm) (key : Bytes) (handled : List Handled) : List Bytes :=
  handled.flatMap fun r =>
    match signing s h fromBytes r with
    | none => []
    | some (ctx, ms) =>
      if ctx.algorithm = algorithm ∧ ctx.key = key then (signAll s r.clock ctx ms).map Prod.snd else []

end

/-! ### The statement -/

/-- What the encoders are relied on for: a message says where it ends, the variables of a TSIG are longer than
its timers, and the length of a MAC fits into two bytes. -/
structure Encoders (s : Server) : Prop where
  emit : ∀ m m' b b' t t', s.emit m = some b → s.emit m' = some b' → b ++ t = b' ++ t' → b = b'
  tsigVariables : ∀ tsig name b, s.emitTsigForMac tsig name = some b → 8 < b.length
  hmac : ∀ algorithm key data, (s.hmac algorithm key data).length < 65536

section
variable (s : Server) (h : Host) (fromBytes : Bytes → Option Request) (handled : List Handled)

/-- **The messages are the first ones of those that were signed for one request** with the MAC that the client
has sent: message by message the same bytes, times included. -/
def Genuine (c : Client) (got : List Message) : Prop :=
  ∃ r ∈ handled, ∃ ctx ms, signing s h fromBytes r = some (ctx, ms) ∧ ctx.algorithm = c.algorithm ∧
    ctx.key = c.key ∧ ctx.hash = c.priorMac ∧
    ∃ ws ws', wires s true got = some ws ∧
      wires s true ((signAll s r.clock ctx ms).map Prod.fst) = some ws' ∧ ws <+: ws'

/-- The client has verified a MAC over data that were never signed with its key. -/
def Forged (c : Client) (got : List Message) : Prop :=
  ∃ d ∈ verified s c got, d ∉ signedData s h fromBytes c.algorithm c.key handled

/-- Two data that were signed with the key have the same MAC. -/
def Collision (c : Client) : Prop :=
  ∃ d ∈ signedData s h fromBytes c.algorithm c.key handled,
    ∃ d' ∈ signedData s h fromBytes c.algorithm c.key handled,
      d ≠ d' ∧ s.hmac c.algorithm c.key d = s.hmac c.algorithm c.key d'

end

/-! ### Data and links -/

section
variable {s : Server}

/-- A link that a message can have. -/
structure Proper (s : Server) (l : Link Bytes (Bytes × Bytes)) : Prop where
  prior : l.prior.length < 65536
  body : ∃ m, s.emit m = some l.body.1
  tail : if l.first then 8 < l.body.2.length else l.body.2.length = 8

theorem emitUint_two_injective {m n : ℕ} (hm : m < 65536) (hn : n < 65536) (h : emitUint 2 m = emitUint 2 n) :
    m = n := by
  have hread : ∀ k < 65536, readU16 (emitUint 2 k) = k := fun k hk => fits_iff.mpr hk
  rw [← hread m hm, ← hread n hn, h]

@[simp] theorem length_emitUint (bytes n : ℕ) : (emitUint bytes n).length = bytes := by simp [emitUint]

/-- **The data of a MAC say what it is over.** -/
theorem dataOf_injective (henc : Encoders s) {l l' : Link Bytes (Bytes × Bytes)} (hl : Proper s l)
    (hl' : Proper s l') (h : dataOf l = dataOf l') : l = l' := by
  obtain ⟨prior, first, body, tail⟩ := l
  obtain ⟨prior', first', body', tail'⟩ := l'
  obtain ⟨hprior, ⟨m, hm⟩, htail⟩ := hl
  obtain ⟨hprior', ⟨m', hm'⟩, htail'⟩ := hl'
  dsimp only at hprior hm htail hprior' hm' htail'
  unfold dataOf at h
  simp only [List.append_assoc] at h
  obtain ⟨hlen, hrest⟩ := List.append_inj h (by simp)
  obtain ⟨rfl, hmessage⟩ := List.append_inj hrest (emitUint_two_injective hprior hprior' hlen)
  obtain rfl := henc.emit m m' body body' tail tail' hm hm' hmessage
  obtain rfl := List.append_cancel_left hmessage
  have hfirst : first = first' := by
    rcases first with _ | _ <;> rcases first' with _ | _
    · rfl
    · simp only [Bool.false_eq_true, if_false, if_true] at htail htail'
      omega
    · simp only [Bool.false_eq_true, if_false, if_true] at htail htail'
      omega
    · rfl
  rw [hfirst]

@[simp] theorem length_timers (t : Tsig) : (timers t).length = 8 := by simp [timers]

/-- What a message with a TSIG is made of. -/
theorem wire_eq_some {first : Bool} {m : Message} {w : Bytes × Bytes} (hw : wire s first m = some w) :
    ∃ t, m.tsig = some t ∧ s.emit { m with tsig := none } = some w.1 ∧
      (if first then s.emitTsigForMac { t with mac := [] } t.name else some (timers t)) = some w.2 := by
  obtain ⟨t, ht, hw⟩ := Option.bind_eq_some_iff.mp hw
  obtain ⟨body, hbody, hw⟩ := Option.bind_eq_some_iff.mp hw
  obtain ⟨tail, htail, rfl⟩ := Option.map_eq_some_iff.mp hw
  exact ⟨t, ht, hbody, htail⟩

/-- The links of messages are proper. -/
theorem proper_links (henc : Encoders s) {algorithm : TsigAlgorithm} {key prior : Bytes} {first : Bool}
    {ms : List Message} {ws : List (Bytes × Bytes)} (hprior : prior.length < 65536)
    (hws : wires s first ms = some ws) : ∀ l ∈ links (macOf s algorithm key) prior first ws, Proper s l := by
  induction ms generalizing prior first ws with
  | nil =>
    obtain rfl := Option.some.inj hws
    simp [links]
  | cons m ms ih =>
    obtain ⟨w, hw, hws⟩ := Option.bind_eq_some_iff.mp hws
    obtain ⟨ws', hws', rfl⟩ := Option.map_eq_some_iff.mp hws
    obtain ⟨t, -, hbody, htail⟩ := wire_eq_some hw
    intro l hl
    rcases List.mem_cons.mp hl with rfl | hl
    · refine ⟨hprior, ⟨_, hbody⟩, ?_⟩
      dsimp only
      rcases first with _ | _
      · rw [if_neg Bool.false_ne_true] at htail ⊢
        rw [← Option.some.inj htail, length_timers]
      · exact henc.tsigVariables _ _ _ htail
    · exact ih (henc.hmac _ _ _) hws' l hl

/-! ### The client -/

theorem macData_eq {c : Client} {m : Message} {t : Tsig} (ht : m.tsig = some t) :
    c.macData s m t = (wire s c.first m).map fun w => dataOf ⟨c.priorMac, c.first, w⟩ := by
  unfold Client.macData wire dataOf
  rw [ht, Option.bind_some]
  rcases s.emit { m with tsig := none } with _ | body
  · rfl
  · rw [Option.bind_some, Option.bind_some, Option.map_map]
    rfl

/-- **What a client verifies is a chain.** -/
theorem verified_of_acceptsAll {c : Client} {got : List Message} (h : c.acceptsAll s got = true) :
    ∃ ws, wires s c.first got = some ws ∧
      verified s c got = (links (macOf s c.algorithm c.key) c.priorMac c.first ws).map dataOf := by
  induction got generalizing c with
  | nil => exact ⟨[], rfl, rfl⟩
  | cons m got ih =>
    unfold Client.acceptsAll at h
    rcases haccept : c.accept s m with _ | c'
    · rw [haccept] at h
      cases h
    rw [haccept] at h
    have hstep := haccept
    unfold Client.accept at hstep
    rcases ht : m.tsig with _ | t
    · rw [ht] at hstep
      cases hstep
    rw [ht] at hstep
    simp only [Option.ite_none_right_eq_some, Option.some.injEq] at hstep
    obtain ⟨⟨-, -, hmac⟩, rfl⟩ := hstep
    rw [macData_eq ht, Option.map_map] at hmac
    obtain ⟨w, hw, hmac⟩ := Option.map_eq_some_iff.mp hmac
    obtain ⟨ws, hws, hverified⟩ := ih h
    have hws : wires s false got = some ws := hws
    refine ⟨w :: ws, ?_, ?_⟩
    · show (wire s c.first m).bind _ = _
      rw [hw, Option.bind_some, hws]
      rfl
    · unfold verified
      rw [ht, Option.bind_some, macData_eq ht, hw, haccept]
      show [dataOf ⟨c.priorMac, c.first, w⟩] ++ verified s _ got = _
      rw [hverified, links, List.map_cons, ← hmac]
      rfl

/-! ### The server -/

theorem signMessage_eq {now : ℕ} {m : Message} {ctx : TsigContext} :
    signMessage s now m (some ctx) = (toBeSigned s now m ctx).map fun tbs =>
      ({ m with tsig := some ⟨ctx.name, ctx.algorithm, now, 300, s.hmac ctx.algorithm ctx.key tbs, m.id⟩ },
        some { ctx with first := false, hash := s.hmac ctx.algorithm ctx.key tbs }) := by
  unfold signMessage toBeSigned
  dsimp only
  rcases s.emit m with _ | body
  · rfl
  rcases macTail s ⟨ctx.name, ctx.algorithm, now, 300, [], m.id⟩ ctx with _ | tail
  · rfl
  · rfl

/-- The data of a MAC are those of the message with its TSIG. -/
theorem wire_of_toBeSigned {now : ℕ} {m : Message} {ctx : TsigContext} {tbs : Bytes} (hm : m.tsig = none)
    (h : toBeSigned s now m ctx = some tbs) : ∃ w, tbs = dataOf ⟨ctx.hash, ctx.first, w⟩ ∧
      ∀ mac, wire s ctx.first { m with tsig := some ⟨ctx.name, ctx.algorithm, now, 300, mac, m.id⟩ } = some w := by
  obtain ⟨body, hbody, h⟩ := Option.bind_eq_some_iff.mp h
  obtain ⟨tail, htail, h⟩ := Option.bind_eq_some_iff.mp h
  obtain rfl := Option.some.inj h
  refine ⟨(body, tail), rfl, fun mac => ?_⟩
  have hplain : ({ m with tsig := none } : Message) = m := by rw [← hm]
  have htail' : (if ctx.first then s.emitTsigForMac ⟨ctx.name, ctx.algorithm, now, 300, [], m.id⟩ ctx.name
      else some (timers ⟨ctx.name, ctx.algorithm, now, 300, mac, m.id⟩)) = some tail := by
    rw [← htail]
    unfold macTail timers
    rw [emitUint_time]
  show (s.emit { m with tsig := none }).bind _ = _
  rw [hplain, hbody, Option.bind_some]
  show Option.map _ (if ctx.first then s.emitTsigForMac _ ctx.name else some (timers _)) = _
  rw [htail']
  rfl

/-- **What the server signs is a chain.** -/
theorem wires_signAll (clock : ℕ → ℕ) (ctx : TsigContext) {ms : List Message} (hms : ∀ m ∈ ms, m.tsig = none) :
    ∃ ws, wires s ctx.first ((signAll s clock ctx ms).map Prod.fst) = some ws ∧
      (signAll s clock ctx ms).map Prod.snd =
        (links (macOf s ctx.algorithm ctx.key) ctx.hash ctx.first ws).map dataOf := by
  induction ms generalizing clock ctx with
  | nil => exact ⟨[], rfl, rfl⟩
  | cons m ms ih =>
    unfold signAll
    rcases htbs : toBeSigned s (clock 0) m ctx with _ | tbs
    · exact ⟨[], rfl, rfl⟩
    obtain ⟨hm, hms⟩ := List.forall_mem_cons.mp hms
    obtain ⟨w, rfl, hw⟩ := wire_of_toBeSigned hm htbs
    obtain ⟨ws, hws, hdata⟩ := ih (fun i => clock (i + 1))
      { ctx with first := false, hash := s.hmac ctx.algorithm ctx.key (dataOf ⟨ctx.hash, ctx.first, w⟩) } hms
    refine ⟨w :: ws, ?_, ?_⟩
    · show (wire s ctx.first { m with tsig := some _ }).bind _ = _
      rw [hw, Option.bind_some]
      show (wires s false _).map _ = _
      rw [show wires s false _ = some ws from hws]
      rfl
    · show dataOf _ :: (signAll s _ _ ms).map Prod.snd = _
      rw [hdata]
      rfl

/-! ### What is signed for a request -/

variable {h : Host} {fromBytes : Bytes → Option Request} {handled : List Handled}

theorem tsig_messages {msg : Request} {soa : RecordSet} {zoneFile : ZoneFile} :
    ∀ m ∈ messages msg soa zoneFile, m.tsig = none := by
  intro m hm
  unfold messages at hm
  split_ifs at hm
  · rw [List.mem_singleton.mp hm]
    rfl
  · simp only [transfer, List.mem_append, List.mem_cons, List.mem_flatMap, List.mem_map, List.not_mem_nil,
      or_false] at hm
    rcases hm with (rfl | ⟨e, -, r, -, rfl⟩) | rfl
    · rfl
    · rfl
    · rfl

/-- The context that a signature gives begins with its MAC. -/
theorem verifySignature_eq {now : ℕ} {msg : Request} {st : Store} {ctx : TsigContext}
    (hv : (verifySignature s h now msg st).1 = .ok (some ctx)) :
    ctx.first = true ∧ ∃ signedData, ctx.hash = s.hmac ctx.algorithm ctx.key signedData := by
  unfold verifySignature at hv
  rcases hsig : msg.signature with _ | _ | ⟨signedData, sig⟩
  · rw [hsig] at hv
    cases hv
  · rw [hsig] at hv
    cases hv
  rw [hsig] at hv
  dsimp only at hv
  by_cases htime : ((now : ℤ) - sig.time).natAbs > sig.fudge
  · rw [if_pos htime] at hv
    cases hv
  rw [if_neg htime] at hv
  rcases hrun : Lib.Programs.run (Access.getTsigSecret h now (s.display sig.name)) st with ⟨_ | key, st'⟩
  · rw [hrun] at hv
    cases hv
  rw [hrun] at hv
  dsimp only at hv
  by_cases hsupported : sig.algorithm.supported = true
  · rw [if_pos hsupported] at hv
    by_cases hmac : sig.mac = s.hmac sig.algorithm key signedData
    · rw [if_pos hmac] at hv
      obtain rfl := Option.some.inj (Except.ok.inj hv)
      exact ⟨rfl, signedData, hmac⟩
    · rw [if_neg hmac] at hv
      cases hv
  · rw [if_neg hsupported] at hv
    cases hv

theorem signing_eq_some {r : Handled} {ctx : TsigContext} {ms : List Message}
    (hr : signing s h fromBytes r = some (ctx, ms)) : (∀ m ∈ ms, m.tsig = none) ∧ ctx.first = true ∧
      ∃ signedData, ctx.hash = s.hmac ctx.algorithm ctx.key signedData := by
  unfold signing at hr
  rcases hmsg : fromBytes r.msg with _ | msg
  · rw [hmsg] at hr
    cases hr
  rw [hmsg] at hr
  simp only [Option.ite_none_right_eq_some] at hr
  obtain ⟨-, hr⟩ := hr
  rcases hread : readZoneFile s r.dir msg with e | ⟨soa, zoneFile⟩
  · rw [hread] at hr
    cases hr
  rw [hread] at hr
  rcases hverify : (verifySignature s h r.now msg r.st).1 with e | _ | ctx'
  · rw [hverify] at hr
    cases hr
  · rw [hverify] at hr
    cases hr
  · rw [hverify] at hr
    obtain ⟨rfl, rfl⟩ := Prod.mk.inj (Option.some.inj hr)
    exact ⟨tsig_messages, verifySignature_eq hverify⟩

theorem filter_sendResponse (m : Message) : (sendResponse s m).filter (·.tsig.isSome) =
    if m.tsig.isSome ∧ (s.serialise m).isSome then [m] else [] := by
  unfold sendResponse
  split_ifs <;> simp_all

theorem filter_errorMsg (msg : Request) (code : ResponseCode) :
    (sendResponse s (errorMsg msg code)).filter (·.tsig.isSome) = [] := by
  rw [filter_sendResponse, if_neg]
  simp [errorMsg]

/-- What is sent with a TSIG was signed. -/
theorem filter_signAndSend {clock : ℕ → ℕ} (msg : Request) {ctx : TsigContext} {ms : List Message} :
    (signAndSend s clock msg (some ctx) ms).filter (·.tsig.isSome) =
      ((signAll s clock ctx ms).map Prod.fst).filter fun m => (s.serialise m).isSome := by
  induction ms generalizing clock ctx with
  | nil => rfl
  | cons m ms ih =>
    unfold signAndSend signAll
    rw [signMessage_eq]
    rcases toBeSigned s (clock 0) m ctx with _ | tbs
    · exact filter_errorMsg msg .servFail
    · dsimp only [Option.map_some]
      rw [List.filter_append, ih, filter_sendResponse, List.map_cons, List.filter_cons]
      dsimp only
      split_ifs <;> simp_all

theorem filter_signAndSend_none {clock : ℕ → ℕ} {msg : Request} {ms : List Message} (hms : ∀ m ∈ ms, m.tsig = none) :
    (signAndSend s clock msg none ms).filter (·.tsig.isSome) = [] := by
  induction ms generalizing clock with
  | nil => rfl
  | cons m ms ih =>
    obtain ⟨hm, hms⟩ := List.forall_mem_cons.mp hms
    show (sendResponse s m ++ signAndSend s _ msg none ms).filter _ = []
    rw [List.filter_append, ih hms, filter_sendResponse, hm, if_neg (by simp)]
    rfl

/-- **What is sent with a TSIG** for a request is what was signed for it and can be encoded. -/
theorem filter_handleRequest {r : Handled} {msg : Request} (hmsg : fromBytes r.msg = some msg) :
    (handleRequest s h r.dir r.now r.clock r.addr msg r.st).1.filter (·.tsig.isSome) =
      ((signedFor s h fromBytes r).map Prod.fst).filter fun m => (s.serialise m).isSome := by
  by_cases hw : msg.wellFormed = true
  · rcases hread : readZoneFile s r.dir msg with e | ⟨soa, zoneFile⟩
    · have hsigned : signedFor s h fromBytes r = [] := by simp [signedFor, signing, hmsg, hw, hread]
      rw [hsigned]
      rcases e with _ | _
      · simp only [handleRequest, hw, if_true, hread]
        exact filter_errorMsg msg .servFail
      · simp only [handleRequest, hw, if_true, hread]
        rfl
    · rcases hverify : verifySignature s h r.now msg r.st with ⟨e | _ | ctx, st⟩
      · have hsigned : signedFor s h fromBytes r = [] := by simp [signedFor, signing, hmsg, hw, hread, hverify]
        rw [hsigned]
        simp only [handleRequest, hw, if_true, hread, hverify]
        exact filter_errorMsg msg e
      · have hsigned : signedFor s h fromBytes r = [] := by simp [signedFor, signing, hmsg, hw, hread, hverify]
        rw [hsigned]
        simp only [handleRequest, hw, if_true, hread, hverify, Option.isNone_none]
        by_cases hsoa : msg.query.queryType = .soa
        · rw [if_pos hsoa]
          exact filter_signAndSend_none (by simp [response])
        · rw [if_neg hsoa]
          rcases Lib.Programs.run (Access.checkIpAcl h r.now (s.display msg.query.name) (some (aclAddr r.addr))) st with
            ⟨_ | _ | _, st'⟩
          · exact filter_errorMsg msg .badSig
          · exact filter_errorMsg msg .refused
          · refine filter_signAndSend_none fun m hm => @tsig_messages msg soa zoneFile m ?_
            rw [messages, if_neg hsoa]
            exact hm
      · have hsigned : signedFor s h fromBytes r = signAll s r.clock ctx (messages msg soa zoneFile) := by
          simp [signedFor, signing, hmsg, hw, hread, hverify]
        rw [hsigned, ← filter_signAndSend msg]
        simp only [handleRequest, hw, if_true, hread, hverify, Option.isNone_some, Bool.false_eq_true, if_false]
        unfold messages
        split_ifs <;> rfl
  · have hsigned : signedFor s h fromBytes r = [] := by simp [signedFor, signing, hmsg, hw]
    rw [hsigned]
    simp only [handleRequest, hw]
    exact filter_errorMsg msg .refused

/-! ### Whatever is accepted was signed -/

theorem mem_signedData {algorithm : TsigAlgorithm} {key d : Bytes} :
    d ∈ signedData s h fromBytes algorithm key handled ↔ ∃ r ∈ handled, ∃ ctx ms,
      signing s h fromBytes r = some (ctx, ms) ∧ ctx.algorithm = algorithm ∧ ctx.key = key ∧
        d ∈ (signAll s r.clock ctx ms).map Prod.snd := by
  unfold signedData
  rw [List.mem_flatMap]
  refine exists_congr fun r => and_congr_right fun _ => ?_
  rcases signing s h fromBytes r with _ | ⟨ctx, ms⟩
  · simp
  · dsimp only
    split_ifs with hkey
    · simp [hkey]
    · simp only [List.not_mem_nil, Option.some.injEq, Prod.mk.injEq, false_iff]
      rintro ⟨ctx', ms', ⟨rfl, rfl⟩, halgorithm, hkey', -⟩
      exact hkey ⟨halgorithm, hkey'⟩

/-- What was signed for a request, as a session. -/
theorem session_of_signing {r : Handled} {ctx : TsigContext} {ms : List Message}
    (hr : signing s h fromBytes r = some (ctx, ms)) :
    ∃ ws, wires s true ((signAll s r.clock ctx ms).map Prod.fst) = some ws ∧
      (signAll s r.clock ctx ms).map Prod.snd =
        (Session.links (macOf s ctx.algorithm ctx.key) ⟨ctx.hash, ws⟩).map dataOf := by
  obtain ⟨hms, hfirst, -⟩ := signing_eq_some hr
  obtain ⟨ws, hws, hdata⟩ := wires_signAll (s := s) r.clock ctx hms
  rw [hfirst] at hws hdata
  exact ⟨ws, hws, hdata⟩

variable (s h fromBytes handled) in
/-- The sessions of the requests that are signed with a key. -/
def sessions (algorithm : TsigAlgorithm) (key : Bytes) : List (Session Bytes (Bytes × Bytes)) :=
  handled.filterMap fun r =>
    (signing s h fromBytes r).bind fun e =>
      if e.1.algorithm = algorithm ∧ e.1.key = key then
        (wires s true ((signAll s r.clock e.1 e.2).map Prod.fst)).map fun ws => ⟨e.1.hash, ws⟩
      else none

theorem mem_sessions {algorithm : TsigAlgorithm} {key : Bytes} {session : Session Bytes (Bytes × Bytes)} :
    session ∈ sessions s h fromBytes handled algorithm key ↔ ∃ r ∈ handled, ∃ ctx ms,
      signing s h fromBytes r = some (ctx, ms) ∧ ctx.algorithm = algorithm ∧ ctx.key = key ∧
        ctx.hash = session.start ∧
        wires s true ((signAll s r.clock ctx ms).map Prod.fst) = some session.bodies := by
  unfold sessions
  rw [List.mem_filterMap]
  refine exists_congr fun r => and_congr_right fun _ => ?_
  rcases signing s h fromBytes r with _ | ⟨ctx, ms⟩
  · simp
  · rw [Option.bind_some]
    dsimp only
    split_ifs with hkey
    · obtain ⟨start, bodies⟩ := session
      simp only [Option.map_eq_some_iff, Session.mk.injEq, Option.some.injEq, Prod.mk.injEq]
      constructor
      · rintro ⟨ws, hws, rfl, rfl⟩
        exact ⟨ctx, ms, ⟨rfl, rfl⟩, hkey.1, hkey.2, rfl, hws⟩
      · rintro ⟨ctx', ms', ⟨rfl, rfl⟩, -, -, rfl, hws⟩
        exact ⟨bodies, hws, rfl, rfl⟩
    · refine iff_of_false (by simp) ?_
      rintro ⟨ctx', ms', heq, halgorithm, hkey', -⟩
      obtain ⟨rfl, rfl⟩ := Prod.mk.inj (Option.some.inj heq)
      exact hkey ⟨halgorithm, hkey'⟩

/-- The data that are signed with a key are those of the links of its sessions, all of which are proper. -/
theorem mem_signedData_of_link (henc : Encoders s) {algorithm : TsigAlgorithm} {key : Bytes}
    {session : Session Bytes (Bytes × Bytes)} (hsession : session ∈ sessions s h fromBytes handled algorithm key)
    {l : Link Bytes (Bytes × Bytes)} (hl : l ∈ session.links (macOf s algorithm key)) :
    Proper s l ∧ dataOf l ∈ signedData s h fromBytes algorithm key handled := by
  obtain ⟨r, hr, ctx, ms, hsigning, rfl, rfl, hstart, hws⟩ := mem_sessions.mp hsession
  obtain ⟨start, bodies⟩ := session
  obtain rfl := hstart
  obtain ⟨-, -, signedData, hhash⟩ := signing_eq_some hsigning
  obtain ⟨ws, hws', hdata⟩ := session_of_signing hsigning
  obtain rfl : bodies = ws := Option.some.inj (hws.symm.trans hws')
  refine ⟨proper_links henc (hhash ▸ henc.hmac _ _ _) hws l hl, mem_signedData.mpr ?_⟩
  refine ⟨r, hr, ctx, ms, hsigning, rfl, rfl, ?_⟩
  rw [hdata]
  exact List.mem_map_of_mem hl

theorem exists_link_of_mem_signedData {algorithm : TsigAlgorithm} {key d : Bytes}
    (hd : d ∈ signedData s h fromBytes algorithm key handled) :
    ∃ session ∈ sessions s h fromBytes handled algorithm key, ∃ l ∈ session.links (macOf s algorithm key),
      dataOf l = d := by
  obtain ⟨r, hr, ctx, ms, hsigning, rfl, rfl, hmem⟩ := mem_signedData.mp hd
  obtain ⟨ws, hws, hdata⟩ := session_of_signing hsigning
  rw [hdata] at hmem
  obtain ⟨l, hl, rfl⟩ := List.mem_map.mp hmem
  exact ⟨⟨ctx.hash, ws⟩, mem_sessions.mpr ⟨r, hr, ctx, ms, hsigning, rfl, rfl, rfl, hws⟩, l, hl, rfl⟩

end

/-- **A transfer cannot be tampered with**: a client that has accepted messages has the first messages of what was
signed for one request with its MAC, or a MAC was forged, or two MACs of the server are the same. -/
theorem tamper_evident (s : Server) (h : Host) (fromBytes : Bytes → Option Request) (handled : List Handled)
    (henc : Encoders s) (c : Client) (got : List Message) (hfirst : c.first = true)
    (hprior : c.priorMac.length < 65536) (hne : got ≠ []) (haccepts : c.acceptsAll s got = true) :
    Genuine s h fromBytes handled c got ∨ Forged s h fromBytes handled c got ∨
      Collision s h fromBytes handled c := by
  by_cases hforged : Forged s h fromBytes handled c got
  · exact Or.inr (Or.inl hforged)
  by_cases hcollision : Collision s h fromBytes handled c
  · exact Or.inr (Or.inr hcollision)
  refine Or.inl ?_
  obtain ⟨ws, hws, hverified⟩ := verified_of_acceptsAll haccepts
  rw [hfirst] at hws hverified
  have hws' : ws ≠ [] := by
    rintro rfl
    rcases got with _ | ⟨m, got⟩
    · exact hne rfl
    · obtain ⟨w, -, hws⟩ := Option.bind_eq_some_iff.mp hws
      obtain ⟨ws', -, hcons⟩ := Option.map_eq_some_iff.mp hws
      cases hcons
  have hgenuine : ∀ l ∈ links (macOf s c.algorithm c.key) c.priorMac true ws,
      ∃ session ∈ sessions s h fromBytes handled c.algorithm c.key, l ∈ session.links (macOf s c.algorithm c.key) := by
    intro l hl
    have hsigned : dataOf l ∈ signedData s h fromBytes c.algorithm c.key handled := by
      by_contra hnot
      exact hforged ⟨dataOf l, hverified ▸ List.mem_map_of_mem hl, hnot⟩
    obtain ⟨session, hsession, l', hl', heq⟩ := exists_link_of_mem_signedData hsigned
    obtain rfl := dataOf_injective henc (mem_signedData_of_link henc hsession hl').1
      (proper_links henc hprior hws l hl) heq
    exact ⟨session, hsession, hl'⟩
  obtain ⟨session, hsession, hstart, hprefix⟩ := authentic hws' hgenuine fun s1 hs1 l1 hl1 s2 hs2 l2 hl2 hmac => by
    obtain ⟨hproper1, hsigned1⟩ := mem_signedData_of_link henc hs1 hl1
    obtain ⟨hproper2, hsigned2⟩ := mem_signedData_of_link henc hs2 hl2
    by_contra hdiff
    exact hcollision ⟨_, hsigned1, _, hsigned2, fun heq => hdiff (dataOf_injective henc hproper1 hproper2 heq), hmac⟩
  obtain ⟨r, hr, ctx, ms, hsigning, halgorithm, hkey, hhash, hsession⟩ := mem_sessions.mp hsession
  exact ⟨r, hr, ctx, ms, hsigning, halgorithm, hkey, hhash.trans hstart, ws, session.bodies, hws, hsession, hprefix⟩

/-! ### A signed transfer -/

/-- A message after its length, the variables of a TSIG without its algorithm, and a checksum as MAC. -/
def checkingServer : Server :=
  { serverOfB with
    hmac := fun _ key data => [(key ++ data).foldl (fun acc b => 31 * acc + b) 7]
    emit := fun m =>
      let body := m.answers.flatMap (·.rdata)
      if body.length < 65536 then some (u16.frame body) else none
    emitTsigForMac := fun t name =>
      some (nameWire name ++ emitUint 2 255 ++ emitUint 4 0 ++ timers t ++ emitUint 2 0 ++ emitUint 2 0) }

theorem encoders_checkingServer : Encoders checkingServer where
  emit m m' b b' t t' hb hb' heq := by
    have hframe : ∀ m b, checkingServer.emit m = some b → ∃ body : Bytes, body.length < 65536 ∧ u16.frame body = b := by
      intro m b hb
      simp only [checkingServer, Option.ite_none_right_eq_some, Option.some.injEq] at hb
      exact ⟨_, hb⟩
    obtain ⟨body, hbody, rfl⟩ := hframe m b hb
    obtain ⟨body', hbody', rfl⟩ := hframe m' b' hb'
    have hsplit := Format.split_frame_append (f := u16) (t := t) (fits_iff.mpr hbody)
    rw [heq, Format.split_frame_append (fits_iff.mpr hbody')] at hsplit
    rw [(List.cons.inj (congrArg Prod.fst hsplit)).1]
  tsigVariables tsig name b hb := by
    obtain rfl := Option.some.inj hb
    simp only [List.length_append, length_emitUint, length_timers]
    omega
  hmac _ _ _ := by
    show 1 < 65536
    decide

/-- An AXFR query for `b.example` with the secret of the zone. -/
def checkedForB : Request :=
  { signedForA with
    signature := .tsig [2] ⟨⟨encode "7".toList :: bExample.label⟩, .hmacSha256, 1000, 300,
      checkingServer.hmac .hmacSha256 [1] [2], 1⟩ }

def handledForB : Handled := ⟨[], .v4 0, fun _ => some [], zoneOfB, 1000, fun i => 1000 + i⟩

/-- What is sent for it. -/
def checkedSent : List Message :=
  (handleRequest checkingServer .ascii handledForB.dir handledForB.now handledForB.clock handledForB.addr checkedForB
    handledForB.st).1

def clientOfB : Client :=
  ⟨⟨encode "7".toList :: bExample.label⟩, .hmacSha256, [1], checkingServer.hmac .hmacSha256 [1] [2], true⟩

theorem tamper_evident_checked : checkedSent.length = 3 ∧
    (Genuine checkingServer .ascii (fun _ => some checkedForB) [handledForB] clientOfB checkedSent ∨
      Forged checkingServer .ascii (fun _ => some checkedForB) [handledForB] clientOfB checkedSent ∨
      Collision checkingServer .ascii (fun _ => some checkedForB) [handledForB] clientOfB) := by
  have hlength : checkedSent.length = 3 := by decide
  refine ⟨hlength, tamper_evident checkingServer .ascii (fun _ => some checkedForB) [handledForB]
    encoders_checkingServer clientOfB checkedSent rfl (by decide) ?_ (by decide +kernel)⟩
  rintro hnil
  rw [hnil] at hlength
  cases hlength

end HexDns.Axfr.Tampering
