import HexDns.Commands.Handle

/-! # Exceptions that escape from the command

What a primary can do, so that an exception ends the run of `transfer-secondary` before the other zones
are reached. The database raises for the texts that its columns do not take; `Survives` says for one
zone what has to be true of the answers and of `response_len`, and `handle_iff` that the run goes
through all zones if and only if it is true of each zone when the run comes to it. -/

namespace HexDns.Commands.Escapes

open HexDns.Lib.Texts HexDns.Lib.Programs HexDns.Base.Py HexDns.Base.Label HexDns.Base.Message
open HexDns.Commands.TransferSecondary HexDns.Commands.Handle

/-- What saving a text in a column raises. -/
structure Columns where
  errorMessage : Text → Option PyErr
  recordText : Text → Option PyErr

/-- The database that raises for the texts that a column does not take. -/
def Columns.database (cols : Columns) : Database
  | _, .saveZone (some message) => cols.errorMessage message
  | _, .saveRecord text => cols.recordText text
  | _, _ => none

/-- The column takes the error message, if there is one. -/
def Columns.Takes (cols : Columns) (message : Option Text) : Prop :=
  ∀ m, message = some m → cols.errorMessage m = none

variable {py : Python} (lib : Library) (cols : Columns) (zone : SecondaryZone py)

/-! ### What the primary answers -/

/-- The length of the answer; one that is not complete leaves `response_len` as it is, and an unbound
`response_len` is an `UnboundLocalError`. -/
def lengthOr (len : Option ℕ) (lengthBytes : Bytes) : Except PyErr ℕ :=
  match unpack lengthBytes with
  | .ok n => .ok n
  | .error _ => len.elim (.error .other) .ok

/-- The answer to the SOA query, for a `response_len`. -/
def answer (len : Option ℕ) (c : Connection) : Except PyErr (Response × Connection) := do
  let (lengthBytes, c) ← c.recv 2
  let n ← lengthOr len lengthBytes
  let (bytes, c) ← c.recv n
  let response ← lib.parse bytes
  return (response, c)

/-- The next message of the transfer. -/
def nextMessage (c : Connection) : Except PyErr (Response × Connection) := do
  let (lengthBytes, c) ← c.recv 2
  let n ← unpack lengthBytes
  let (bytes, c) ← c.recv n
  let response ← lib.parse bytes
  return (response, c)

/-- What comes on a connection, at most so many messages. -/
def received : ℕ → Connection → List Received
  | 0, _ => []
  | n + 1, c =>
    match nextMessage lib c with
    | .ok (response, c) => .message response :: received n c
    | .error e => [if isCaught e then .failed else .raises]

/-! ### The condition -/

/-- The loop comes to the message after these. -/
def Reached (root : DnsLabel) (ms : List Response) : Prop :=
  PassedOver lib.toDnslib ms ∧ countSoa root (stream ms) < 2 ∧
    ∃ texts, (kept root 0 (stream ms)).mapM lib.toZone = .ok texts

/-- Nothing escapes from what the loop does with a message after `ms`: its rcode has a text and the
database takes the error message, or its records can be written and, if they end the transfer, the
database takes them; or what is raised is caught. -/
def Harmless (root : DnsLabel) (ms : List Response) (m : Response) : Prop :=
  if m.rcode ≠ noerror then
    match lib.rcodeText m.rcode with
    | .error e => isCaught e
    | .ok text => cols.errorMessage (responseError zone.primary text) = none
  else
    match (kept root 0 (stream (ms ++ [m]))).mapM lib.toZone with
    | .error e => isCaught e
    | .ok texts =>
      (countSoa root (stream (ms ++ [m])) = 2 → ∀ text ∈ texts, cols.recordText text = none) ∧
      (2 < countSoa root (stream (ms ++ [m])) → cols.errorMessage (invalidNumber zone.primary) = none)

/-- Each message that the loop comes to is harmless, after the messages `ms`. -/
def HarmlessFrom (root : DnsLabel) (ms : List Response) (rs : List Received) : Prop :=
  ∀ ms' m rest, rs = (ms' ++ [m]).map .message ++ rest → Reached lib root (ms ++ ms') →
    Harmless lib cols zone root (ms ++ ms') m

/-- The SOA query can be sent. -/
def Sends (c : Connection) : Prop :=
  question py zone.zoneRoot = .ok () ∧ c.sendall 0 = .ok () ∧ c.sendall 1 = .ok ()

/-- Nothing escapes after the answer to the SOA query, with the connection as it is then. -/
structure Replied (response : Response) (c : Connection) : Prop where
  times : ∀ rr, response.rr = [rr] → lib.times rr ≠ none
  count : response.rr.length ≠ 1 → cols.errorMessage (invalidSoa zone.primary) = none
  transfer : ∀ rr serial, response.rr = [rr] → lib.times rr = some serial →
    some serial ≠ zone.serial → c.sendall 2 = .ok () → c.sendall 3 = .ok () →
    ∀ root, DnsLabel.ofText py zone.zoneRoot = .ok root →
      HarmlessFrom lib cols zone root [] (received lib (c.bytes.length + 1) c)

/-- Nothing escapes on a connection, if `response_len` is `len` before. -/
structure Served (len : Option ℕ) (c : Connection) : Prop where
  query : ∀ e, question py zone.zoneRoot = .error e → isCaughtSoa e
  /-- A length that is not complete is a problem where `response_len` is not bound. -/
  length : Sends zone c → ∀ lengthBytes c', c.recv 2 = .ok (lengthBytes, c') →
    lengthBytes.length ≠ 2 → len ≠ none
  reply : Sends zone c → ∀ response c', answer lib len c = .ok (response, c') →
    Replied lib cols zone response c'

/-- **Nothing escapes** from the body of the loop for a zone, if `response_len` is `len` before. -/
structure Survives (len : Option ℕ) (peer : Peer) : Prop where
  address : ∀ e, peer.addresses = .error e →
    e = .osError ∧ cols.errorMessage (cantResolve zone.primary) = none
  connection : ∀ addrs, peer.addresses = .ok addrs → addrs.findSome? id = none →
    cols.errorMessage (cantConnect zone.primary) = none
  served : ∀ addrs c, peer.addresses = .ok addrs → addrs.findSome? id = some c →
    Served lib cols zone len c

/-! ### Calls of the database -/

section
variable {lib} {cols} {zone} {s : State}

theorem run_saveZone_ok (zone : SecondaryZone py) (h : cols.Takes s.errorMessage) (serial : Option ℕ) (error : Bool) :
    ∃ rows calls, run (save cols.database zone serial error) s =
      (.ok (), { s with rows := rows, calls := calls }) := by
  have hcall : cols.database s.calls (.saveZone s.errorMessage) = none := by
    rcases hm : s.errorMessage with _ | m
    · rfl
    · exact h m hm
  exact ⟨_, _, (run_save serial error).trans (run_call_ok hcall)⟩

theorem run_saveZone_error (zone : SecondaryZone py) (h : ¬ cols.Takes s.errorMessage) (serial : Option ℕ) (error : Bool) :
    ∃ e calls, run (save cols.database zone serial error) s = (.error e, { s with calls := calls }) := by
  unfold Columns.Takes at h
  push Not at h
  obtain ⟨m, hm, hne⟩ := h
  obtain ⟨e, he⟩ := Option.ne_none_iff_exists'.mp hne
  have hcall : cols.database s.calls (.saveZone s.errorMessage) = some e := by
    rw [hm]
    exact he
  exact ⟨e, _, (run_save serial error).trans (run_call_error hcall)⟩

theorem save_result (serial : Option ℕ) (error : Bool) :
    (run (save cols.database zone serial error) s).1 = .ok () ↔ cols.Takes s.errorMessage := by
  by_cases h : cols.Takes s.errorMessage
  · obtain ⟨rows, calls, hrun⟩ := run_saveZone_ok zone h serial error
    exact iff_of_true (by rw [hrun]) h
  · obtain ⟨e, calls, hrun⟩ := run_saveZone_error zone h serial error
    exact iff_of_false (by rw [hrun]; exact nofun) h

theorem takes_some {m : Text} : cols.Takes (some m) ↔ cols.errorMessage m = none :=
  ⟨fun h => h m rfl, fun h _ hm' => Option.some.inj hm' ▸ h⟩

theorem takes_none : cols.Takes none := fun _ h => nomatch h

theorem run_fail_ok (zone : SecondaryZone py) (s : State) {message : Text} (h : cols.errorMessage message = none) :
    ∃ rows calls, run (fail cols.database zone message) s =
      (.ok (), { s with rows := rows, calls := calls, errorMessage := some message }) := by
  rw [run_fail]
  exact run_saveZone_ok zone (by exact takes_some.mpr h) _ _

theorem run_fail_error (zone : SecondaryZone py) (s : State) {message : Text} (h : cols.errorMessage message ≠ none) :
    ∃ e calls, run (fail cols.database zone message) s =
      (.error e, { s with calls := calls, errorMessage := some message }) := by
  rw [run_fail]
  exact run_saveZone_error zone (by exact fun h' => h (takes_some.mp h')) _ _

theorem fail_result (message : Text) :
    (run (fail cols.database zone message) s).1 = .ok () ↔ cols.errorMessage message = none := by
  rw [run_fail, save_result]
  exact takes_some

theorem replace_result (serial : ℕ) (rrs : List Text) :
    (run (replace cols.database zone serial rrs) s).1 = .ok () ↔
      ∀ text ∈ rrs, cols.recordText text = none := by
  obtain ⟨f, hf⟩ : ∃ f : Text → Handling Unit, f = fun text =>
    call cols.database zone.id (.saveRecord text) fun row =>
      { row with records := row.records ++ [text] } := ⟨_, rfl⟩
  have hone : ∀ text (s : State), (run (f text) s).1 =
      (cols.recordText text).elim (.ok ()) .error := by
    intro text s
    rw [hf]
    rcases ht : cols.recordText text with _ | e
    · have hcall : cols.database s.calls (.saveRecord text) = none := ht
      rw [run_call_ok hcall]
      rfl
    · have hcall : cols.database s.calls (.saveRecord text) = some e := ht
      rw [run_call_error hcall]
      rfl
  obtain ⟨s1, hs1⟩ : ∃ s1, run (call cols.database zone.id .deleteRecords fun row =>
      { row with records := [] }) s = (.ok (), s1) := ⟨_, run_call_ok rfl⟩
  have hloop : (∃ s', run (runAll f rrs) s1 = (.ok (), s')) ↔ ∀ text ∈ rrs, cols.recordText text = none := by
    rw [exists_run_runAll_ok fun text s s' => (hone text s).trans (hone text s').symm]
    refine forall₂_congr fun text _ => ?_
    rw [hone]
    rcases cols.recordText text with _ | e <;> simp
  have hrest : ∀ s', (run (do
      modify fun s : State => { s with errorMessage := none }
      save cols.database zone (some serial) false
      call cols.database zone.id .updateSzone id : Handling Unit) s').1 = .ok () := by
    intro s'
    have htakes : cols.Takes { s' with errorMessage := none }.errorMessage := takes_none
    obtain ⟨rows, calls, hsave⟩ := run_saveZone_ok zone htakes (some serial) false
    rw [run_bind_ok (run_modify _ s'), run_bind_ok hsave, run_call_ok rfl]
  unfold replace
  rw [run_bind_ok hs1, ← hf, ← hloop, run_bind]
  rcases run (runAll f rrs) s1 with ⟨e | u, s'⟩
  · simp
  · simpa using hrest s'

theorem finish_result (serial : ℕ) (n : ℕ) (rrs : List Text) :
    (run (finish cols.database zone serial (n, rrs)) s).1 = .ok () ↔
      if n = 2 then ∀ text ∈ rrs, cols.recordText text = none
      else cols.errorMessage (invalidNumber zone.primary) = none := by
  unfold finish
  by_cases hn : n = 2
  · rw [if_pos hn, if_pos hn]
    exact replace_result serial rrs
  · rw [if_neg hn, if_neg hn]
    exact fail_result _

/-- What a part of the body comes to after its exceptions are caught: a value, nothing, or an exception
that escapes. -/
theorem run_orNext {α : Type} {caught : PyErr → Bool} {m : Handling (Option α)}
    {k : Option α → Handling Unit} (hk : k none = pure ()) :
    (run (orNext cols.database zone caught m >>= k) s).1 = .ok () ↔
      match run m s with
      | (.ok a, s') => (run (k a) s').1 = .ok ()
      | (.error e, s') => caught e ∧ cols.Takes s'.errorMessage := by
  unfold orNext
  rw [run_bind, run_tryCatch]
  rcases run m s with ⟨e | a, s'⟩
  · by_cases hc : caught e = true
    · dsimp only
      rw [if_pos hc, run_bind]
      by_cases ht : cols.Takes s'.errorMessage
      · obtain ⟨rows, calls, hsave⟩ := run_saveZone_ok zone ht zone.serial true
        rw [hsave]
        simp [hk, hc, ht]
      · obtain ⟨e', calls, hsave⟩ := run_saveZone_error zone ht zone.serial true
        rw [hsave]
        simp [hc, ht]
    · dsimp only
      rw [if_neg hc]
      simp [hc]
  · rfl

/-! ### The loop -/

theorem reached_nil (root : DnsLabel) : Reached lib root [] :=
  ⟨fun _ hm => (nomatch hm), Nat.zero_lt_two, [], rfl⟩

theorem Reached.of_append {root : DnsLabel} {ms ms' : List Response} (h : Reached lib root (ms ++ ms')) :
    Reached lib root ms := by
  obtain ⟨hpass, hcount, texts, htexts⟩ := h
  have hle : countSoa root (stream ms) ≤ countSoa root (stream (ms ++ ms')) := countSoa_stream_le ms ms'
  exact ⟨fun m hm => hpass m (List.mem_append_left _ hm), by omega, kept_stream_of_append htexts⟩

theorem harmlessFrom_of_not_reached {root : DnsLabel} {ms : List Response} (h : ¬ Reached lib root ms)
    (rs : List Received) : HarmlessFrom lib cols zone root ms rs :=
  fun _ _ _ _ hreached => absurd hreached.of_append h

theorem harmlessFrom_stop {root : DnsLabel} {ms : List Response} {rs : List Received}
    (h : ∀ m rest, rs ≠ .message m :: rest) : HarmlessFrom lib cols zone root ms rs := by
  intro ms' m rest hrs
  rcases ms' with _ | ⟨m', ms'⟩
  · exact absurd hrs (h _ _)
  · exact absurd hrs (h _ _)

/-- One more message is looked at. -/
theorem harmlessFrom_cons {root : DnsLabel} {ms : List Response} (hms : Reached lib root ms)
    {m : Response} {rs : List Received} :
    HarmlessFrom lib cols zone root ms (.message m :: rs) ↔
      Harmless lib cols zone root ms m ∧ HarmlessFrom lib cols zone root (ms ++ [m]) rs := by
  constructor
  · intro h
    constructor
    · have := h [] m rs rfl (by rw [List.append_nil]; exact hms)
      rwa [List.append_nil] at this
    · intro ms' m' rest hrs hreached
      have := h (m :: ms') m' rest (by rw [hrs]; rfl) (by rwa [List.append_assoc] at hreached)
      rwa [List.append_assoc]
  · rintro ⟨hm, hrest⟩ ms' m' rest hrs hreached
    rcases ms' with _ | ⟨m₁, ms'⟩
    · obtain ⟨hmm, -⟩ := List.cons.inj hrs
      obtain rfl := Received.message.inj hmm
      rwa [List.append_nil]
    · obtain ⟨hmm, hrs'⟩ := List.cons.inj hrs
      obtain rfl := Received.message.inj hmm
      rw [show ms ++ m :: ms' = ms ++ [m] ++ ms' by simp] at hreached ⊢
      exact hrest ms' m' rest hrs' hreached

theorem run_receiveMessage (lib : Library) (s : State) (c : Connection) : ∃ len,
    run (receiveMessage lib c) s = (nextMessage lib c, { s with responseLen := len }) := by
  unfold receiveMessage nextMessage
  rw [run_bind, run_ofResult]
  rcases c.recv 2 with e | ⟨lengthBytes, c'⟩
  · exact ⟨_, rfl⟩
  dsimp only
  rw [run_bind, run_ofResult]
  rcases hn : unpack lengthBytes with e | n
  · refine ⟨s.responseLen, ?_⟩
    show (Except.error e, s) = ((unpack lengthBytes).bind _, s)
    rw [hn]
    rfl
  refine ⟨some n, ?_⟩
  dsimp only
  rw [run_bind_ok (run_modify _ s), run_bind, run_ofResult]
  show _ = ((unpack lengthBytes).bind _, _)
  rw [hn]
  show _ = ((c'.recv n).bind _, _)
  rcases c'.recv n with e | ⟨bytes, c''⟩
  · rfl
  dsimp only
  rw [run_bind, run_ofResult]
  show _ = ((lib.parse bytes).bind _, _)
  rcases lib.parse bytes with e | response <;> rfl

theorem recv_error {n : ℕ} {c : Connection} {e : PyErr} (h : c.recv n = .error e) : e = .osError := by
  unfold Connection.recv at h
  split_ifs at h
  exact (Except.error.inj h).symm

theorem unpack_error {b : Bytes} {e : PyErr} (h : unpack b = .error e) : e = .structError := by
  unfold unpack at h
  split at h
  · cases h
  · exact (Except.error.inj h).symm

/-- What goes wrong with a message is caught. -/
theorem isCaught_nextMessage (hparse : ∀ b e, lib.parse b = .error e → e = .dnsError) {c : Connection}
    {e : PyErr} (h : nextMessage lib c = .error e) : isCaught e := by
  unfold nextMessage at h
  rcases bind_eq_error.mp h with h | ⟨⟨lengthBytes, c1⟩, -, h⟩
  · rw [recv_error h]
    rfl
  rcases bind_eq_error.mp h with h | ⟨n, -, h⟩
  · rw [unpack_error h]
    rfl
  rcases bind_eq_error.mp h with h | ⟨⟨bytes, c2⟩, -, h⟩
  · rw [recv_error h]
    rfl
  rcases bind_eq_error.mp h with h | ⟨response, -, h⟩
  · rw [hparse _ _ h]
    rfl
  · cases h

section
variable {root : DnsLabel} {ms : List Response} {m : Response}

/-- The loop goes on after a message without an error. -/
theorem Reached.next (h : Reached lib root ms) (hm : m.rcode = noerror) {texts : List Text}
    (ht : (kept root 0 (stream (ms ++ [m]))).mapM lib.toZone = .ok texts)
    (hlt : countSoa root (stream (ms ++ [m])) < 2) : Reached lib root (ms ++ [m]) :=
  ⟨passedOver_append_singleton.mpr ⟨h.1, fun hne => absurd hm hne⟩, hlt, texts, ht⟩

/-- The loop goes on after a message with an error. -/
theorem Reached.error (h : Reached lib root ms) (hm : m.rcode ≠ noerror) {text : Text}
    (ht : lib.rcodeText m.rcode = .ok text) : Reached lib root (ms ++ [m]) := by
  have hstream := stream_append_of_error ms hm
  obtain ⟨hpass, hcount, htexts⟩ := h
  refine ⟨passedOver_append_singleton.mpr ⟨hpass, fun _ => ⟨text, ht⟩⟩, ?_⟩
  rw [hstream]
  exact ⟨hcount, htexts⟩

end

/-- What the loop comes to is dealt with. -/
def Ends (cols : Columns) (zone : SecondaryZone py) (serial : ℕ) :
    Except PyErr (ℕ × List Text) × State → Prop
  | (.ok received, s) => (run (finish cols.database zone serial received) s).1 = .ok ()
  | (.error e, s) => isCaught e ∧ cols.Takes s.errorMessage

/-- **Nothing escapes from the loop** and from what is done after it if and only if the messages that
it comes to are harmless. -/
theorem ends_axfrLoop (hparse : ∀ b e, lib.parse b = .error e → e = .dnsError) {root : DnsLabel}
    (hroot : DnsLabel.ofText py zone.zoneRoot = .ok root) (serial n : ℕ) {c : Connection} {p : Progress py}
    (hp : Reads lib.toDnslib root zone p) (hreached : Reached lib root p.messages)
    (hs : cols.Takes s.errorMessage) :
    Ends cols zone serial (run (axfrLoop lib cols.database zone n c p.seenSoa p.rrs) s) ↔
      HarmlessFrom lib cols zone root p.messages (received lib n c) := by
  induction n generalizing c p s with
  | zero => exact iff_of_true ⟨rfl, hs⟩ (harmlessFrom_stop nofun)
  | succ n ih =>
    unfold axfrLoop received
    obtain ⟨len, hmessage⟩ := run_receiveMessage lib s c
    rw [run_bind, hmessage]
    rcases hnext : nextMessage lib c with e | ⟨m, c'⟩
    · have hcaught : isCaught e = true := isCaught_nextMessage hparse hnext
      refine iff_of_true ⟨hcaught, hs⟩ (harmlessFrom_stop ?_)
      dsimp only
      rw [if_pos hcaught]
      exact nofun
    dsimp only
    rw [harmlessFrom_cons hreached]
    by_cases hm : m.rcode = noerror
    · -- the records of a message without an error
      have hno : ¬ m.rcode ≠ noerror := not_not_intro hm
      unfold Harmless
      rw [if_neg hno, if_neg hno, run_bind, run_ofResult, hroot, hp.nextRrs hm]
      rcases ht : (kept root 0 (stream (p.messages ++ [m]))).mapM lib.toZone with e | texts
      · have hstop : ¬ Reached lib root (p.messages ++ [m]) := by
          rintro ⟨-, -, texts, htexts⟩
          rw [ht] at htexts
          cases htexts
        have htakes : cols.Takes { s with responseLen := len }.errorMessage := hs
        show isCaught e ∧ _ ↔ isCaught e ∧ _
        exact and_congr_right fun _ => iff_of_true htakes (harmlessFrom_of_not_reached hstop _)
      · show Ends cols zone serial (run (if countSoa root (stream (p.messages ++ [m])) ≥ 2 then
          pure (countSoa root (stream (p.messages ++ [m])), texts)
          else axfrLoop lib cols.database zone n c' _ texts) _) ↔ _
        by_cases h2 : countSoa root (stream (p.messages ++ [m])) ≥ 2
        · have hstop : ¬ Reached lib root (p.messages ++ [m]) := by
            rintro ⟨-, hlt, -⟩
            omega
          rw [if_pos h2]
          show (run (finish cols.database zone serial (_, texts)) _).1 = .ok () ↔ _
          rw [finish_result]
          refine Iff.trans ?_ (and_iff_left (harmlessFrom_of_not_reached hstop _)).symm
          by_cases heq : countSoa root (stream (p.messages ++ [m])) = 2
          · rw [if_pos heq]
            exact ⟨fun h => ⟨fun _ => h, fun h => by omega⟩, fun h => h.1 heq⟩
          · rw [if_neg heq]
            exact ⟨fun h => ⟨fun h' => absurd h' heq, fun _ => h⟩, fun h => h.2 (by omega)⟩
        · rw [if_neg h2]
          have hlt : countSoa root (stream (p.messages ++ [m])) < 2 := by omega
          have htakes : cols.Takes { s with responseLen := len }.errorMessage := hs
          refine (ih (hp.next ht) (hreached.next hm ht hlt) htakes).trans ?_
          refine (and_iff_right ?_).symm
          exact ⟨fun h => by omega, fun h => by omega⟩
    · -- an error, over which the loop passes
      unfold Harmless
      rw [if_pos hm, if_pos hm, run_bind, run_ofResult]
      rcases htext : lib.rcodeText m.rcode with e | text
      · have hstop : ¬ Reached lib root (p.messages ++ [m]) := by
          rintro ⟨hpassed, -⟩
          obtain ⟨text, h⟩ := (passedOver_append_singleton.mp hpassed).2 hm
          rw [htext] at h
          cases h
        have htakes : cols.Takes { s with responseLen := len }.errorMessage := hs
        show isCaught e ∧ _ ↔ isCaught e ∧ _
        exact and_congr_right fun _ => iff_of_true htakes (harmlessFrom_of_not_reached hstop _)
      · dsimp only
        rw [run_bind]
        by_cases hfits : cols.errorMessage (responseError zone.primary text) = none
        · obtain ⟨rows, calls, hfail⟩ := run_fail_ok zone { s with responseLen := len } hfits
          rw [hfail, and_iff_right hfits]
          exact ih (hp.error hm text) (hreached.error hm htext) (takes_some.mpr hfits)
        · obtain ⟨e, calls, hfail⟩ := run_fail_error zone { s with responseLen := len } hfits
          rw [hfail]
          exact iff_of_false (fun h => hfits (takes_some.mp h.2)) fun h => hfits h.1

theorem sendall_error {c : Connection} {n : ℕ} {e : PyErr} (h : c.sendall n = .error e) : e = .osError := by
  unfold Connection.sendall at h
  split_ifs at h
  exact (Except.error.inj h).symm

/-- **The transfer**: nothing escapes if and only if its messages are harmless. -/
theorem transfer_result (hparse : ∀ b e, lib.parse b = .error e → e = .dnsError)
    (hquestion : question py zone.zoneRoot = .ok ()) (serial : ℕ) (c : Connection)
    (hs : cols.Takes s.errorMessage) :
    (run (transfer lib cols.database zone serial c) s).1 = .ok () ↔
      (c.sendall 2 = .ok () → c.sendall 3 = .ok () →
        ∀ root, DnsLabel.ofText py zone.zoneRoot = .ok root →
          HarmlessFrom lib cols zone root [] (received lib (c.bytes.length + 1) c)) := by
  obtain ⟨root, hroot, -⟩ := bind_eq_ok.mp hquestion
  unfold transfer
  rw [run_orNext rfl]
  unfold axfrQuery
  rw [hquestion, run_bind_ok (run_ofResult _ s), run_bind, run_ofResult]
  rcases h2 : c.sendall 2 with e | u
  · obtain rfl := sendall_error h2
    exact iff_of_true ⟨rfl, hs⟩ nofun
  dsimp only
  rw [run_bind, run_ofResult]
  rcases h3 : c.sendall 3 with e | u
  · obtain rfl := sendall_error h3
    exact iff_of_true ⟨rfl, hs⟩ fun _ => nofun
  dsimp only
  rw [run_bind]
  have hstart : Reads lib.toDnslib root zone ⟨[], 0, [], zone⟩ := ⟨rfl, rfl, rfl, rfl⟩
  have hends := ends_axfrLoop hparse hroot serial (c.bytes.length + 1) (c := c) hstart (reached_nil root) hs
  refine Iff.trans ?_ (hends.trans ?_)
  · rcases run (axfrLoop lib cols.database zone (c.bytes.length + 1) c 0 []) s with ⟨e | p, s'⟩ <;> exact Iff.rfl
  · constructor
    · intro h _ _ root' hroot'
      obtain rfl := Except.ok.inj (hroot.symm.trans hroot')
      exact h
    · exact fun h => h rfl rfl root hroot

/-! ### The SOA query -/

theorem unpack_eq_ok {b : Bytes} : (∃ n, unpack b = .ok n) ↔ b.length = 2 := by
  rcases b with _ | ⟨x, _ | ⟨y, _ | ⟨z, b⟩⟩⟩ <;> simp [unpack]

theorem answer_unbound {len : Option ℕ} {c c' : Connection} {lengthBytes : Bytes}
    (h : c.recv 2 = .ok (lengthBytes, c')) (hlen : lengthBytes.length ≠ 2) (hnone : len = none) :
    answer lib len c = .error .other := by
  have hlength : lengthOr len lengthBytes = .error .other := by
    unfold lengthOr
    rcases hu : unpack lengthBytes with e | n
    · rw [hnone]
      rfl
    · exact absurd (unpack_eq_ok.mp ⟨n, hu⟩) hlen
  unfold answer
  rw [h]
  show (lengthOr len lengthBytes).bind _ = _
  rw [hlength]
  rfl

theorem isCaught_answer (hparse : ∀ b e, lib.parse b = .error e → e = .dnsError) {len : Option ℕ}
    {c : Connection} (hlen : ∀ lengthBytes c', c.recv 2 = .ok (lengthBytes, c') →
      lengthBytes.length ≠ 2 → len ≠ none) {e : PyErr} (h : answer lib len c = .error e) :
    isCaughtSoa e := by
  unfold answer at h
  rcases bind_eq_error.mp h with h | ⟨⟨lengthBytes, c1⟩, h1, h⟩
  · rw [recv_error h]
    rfl
  rcases bind_eq_error.mp h with h | ⟨n, -, h⟩
  · exfalso
    unfold lengthOr at h
    rcases hu : unpack lengthBytes with e' | n
    · have hne : lengthBytes.length ≠ 2 := by
        intro h2
        obtain ⟨n, hn⟩ := unpack_eq_ok.mpr h2
        rw [hn] at hu
        cases hu
      obtain ⟨n, hn⟩ := Option.ne_none_iff_exists'.mp (hlen lengthBytes c1 h1 hne)
      rw [hu, hn] at h
      cases h
    · rw [hu] at h
      cases h
  rcases bind_eq_error.mp h with h | ⟨⟨bytes, c2⟩, -, h⟩
  · rw [recv_error h]
    rfl
  rcases bind_eq_error.mp h with h | ⟨response, -, h⟩
  · rw [hparse _ _ h]
    rfl
  · cases h

theorem run_setLength (b : Bytes) : ∃ len, run (setLength b) s = (.ok (), { s with responseLen := len }) ∧
    len.elim (.error .other) .ok = lengthOr s.responseLen b := by
  unfold setLength lengthOr
  rcases unpack b with e | n
  · exact ⟨s.responseLen, rfl, rfl⟩
  · exact ⟨some n, rfl, rfl⟩

theorem run_soaResponse (lib : Library) (s : State) (c : Connection) : ∃ len,
    run (soaResponse lib c) s = (answer lib s.responseLen c, { s with responseLen := len }) := by
  unfold soaResponse answer
  rw [run_bind, run_ofResult]
  rcases c.recv 2 with e | ⟨lengthBytes, c1⟩
  · exact ⟨s.responseLen, rfl⟩
  obtain ⟨len, hset, hlen⟩ := run_setLength (s := s) lengthBytes
  refine ⟨len, ?_⟩
  dsimp only
  rw [run_bind_ok hset, run_bind_ok (run_get _), run_bind, run_ofResult, hlen]
  show _ = ((lengthOr s.responseLen lengthBytes).bind _, _)
  rcases lengthOr s.responseLen lengthBytes with e | n
  · rfl
  dsimp only
  rw [run_bind, run_ofResult]
  show _ = ((c1.recv n).bind _, _)
  rcases c1.recv n with e | ⟨bytes, c2⟩
  · rfl
  dsimp only
  rw [run_bind, run_ofResult]
  show _ = ((lib.parse bytes).bind _, _)
  rcases lib.parse bytes with e | response <;> rfl

theorem checkSerial_of_one {db : Database} {response : Response} {rr : Rr} (h : response.rr = [rr]) :
    checkSerial lib db zone response = match lib.times rr with
      | none => throw .attributeError
      | some serial =>
        if some serial = zone.serial then do
          save db zone zone.serial false
          return none
        else return some serial := by
  obtain ⟨rcode, rrs⟩ := response
  obtain rfl : rrs = [rr] := h
  rfl

theorem checkSerial_of_not_one {db : Database} {response : Response} (h : ∀ rr, response.rr ≠ [rr]) :
    checkSerial lib db zone response = (do
      fail db zone (invalidSoa zone.primary)
      return none) := by
  unfold checkSerial
  split
  · rename_i rr hrr
    exact absurd hrr (h rr)
  · rfl

/-- What is left of the body after the answer to the SOA query. -/
theorem reply_result (hparse : ∀ b e, lib.parse b = .error e → e = .dnsError)
    (hquestion : question py zone.zoneRoot = .ok ()) (response : Response) (c : Connection)
    (hs : cols.Takes s.errorMessage) :
    (match run (checkSerial lib cols.database zone response >>= fun serial =>
        pure (serial.map fun n => (n, c))) s with
      | (.ok none, _) => True
      | (.ok (some (serial, c)), s') => (run (transfer lib cols.database zone serial c) s').1 = .ok ()
      | (.error e, s') => isCaughtSoa e ∧ cols.Takes s'.errorMessage) ↔
      Replied lib cols zone response c := by
  rw [run_bind]
  by_cases hone : ∃ rr, response.rr = [rr]
  · obtain ⟨rr, hrr⟩ := hone
    rw [checkSerial_of_one hrr]
    rcases htimes : lib.times rr with _ | serial
    · have hescapes : isCaughtSoa .attributeError ≠ true := by decide
      exact iff_of_false (fun h => hescapes h.1) fun h => h.times rr hrr htimes
    have htimes' : ∀ rr', response.rr = [rr'] → lib.times rr' = some serial := by
      intro rr' hrr'
      obtain ⟨rfl, -⟩ := List.cons.inj (hrr.symm.trans hrr')
      exact htimes
    have hone : ¬ response.rr.length ≠ 1 := by
      rw [hrr]
      exact not_not_intro rfl
    dsimp only
    by_cases hserial : some serial = zone.serial
    · obtain ⟨rows, calls, hsave⟩ := run_saveZone_ok zone hs zone.serial false
      rw [if_pos hserial, run_bind_ok hsave]
      refine iff_of_true trivial ⟨fun rr' hrr' => ?_, fun h => absurd h hone, ?_⟩
      · rw [htimes' rr' hrr']
        exact nofun
      · intro rr' serial' hrr' htimes'' hne
        rw [htimes' rr' hrr'] at htimes''
        exact absurd (htimes'' ▸ hserial) hne
    · rw [if_neg hserial]
      show (run (transfer lib cols.database zone serial c) s).1 = .ok () ↔ _
      rw [transfer_result hparse hquestion serial c hs]
      constructor
      · intro h
        refine ⟨fun rr' hrr' => ?_, fun h => absurd h hone, fun _ _ _ _ _ => h⟩
        rw [htimes' rr' hrr']
        exact nofun
      · exact fun h => h.transfer rr serial hrr htimes hserial
  · -- no record, or more than one
    have hcount : response.rr.length ≠ 1 := fun h => hone (List.length_eq_one_iff.mp h)
    have hnone : ∀ rr, response.rr ≠ [rr] := fun rr h => hone ⟨rr, h⟩
    rw [checkSerial_of_not_one hnone]
    by_cases hfits : cols.errorMessage (invalidSoa zone.primary) = none
    · obtain ⟨rows, calls, hfail⟩ := run_fail_ok zone s hfits
      rw [run_bind_ok hfail]
      exact iff_of_true trivial
        ⟨fun rr h => absurd h (hnone rr), fun _ => hfits, fun rr _ h => absurd h (hnone rr)⟩
    · obtain ⟨e, calls, hfail⟩ := run_fail_error zone s hfits
      rw [run_bind_error hfail]
      exact iff_of_false (fun h => hfits (takes_some.mp h.2)) fun h => hfits (h.count hcount)

/-- **Nothing escapes on a connection** if and only if it is served. -/
theorem sync_result (hparse : ∀ b e, lib.parse b = .error e → e = .dnsError) (c : Connection)
    (hs : cols.Takes s.errorMessage) :
    (run (sync lib cols.database zone c) s).1 = .ok () ↔ Served lib cols zone s.responseLen c := by
  unfold sync
  rw [run_orNext rfl]
  unfold soaQuery
  rw [run_bind, run_ofResult]
  rcases hquestion : question py zone.zoneRoot with e | u
  · have hno : ¬ Sends zone c := by
      rintro ⟨h, -⟩
      rw [hquestion] at h
      cases h
    show isCaughtSoa e ∧ cols.Takes s.errorMessage ↔ _
    rw [and_iff_left hs]
    constructor
    · intro he
      refine ⟨fun e' he' => ?_, fun h => absurd h hno, fun h => absurd h hno⟩
      rw [hquestion] at he'
      exact Except.error.inj he' ▸ he
    · exact fun h => h.query e hquestion
  have hquery : ∀ e, question py zone.zoneRoot = .error e → isCaughtSoa e := by
    intro e he
    rw [hquestion] at he
    cases he
  dsimp only
  rw [run_bind, run_ofResult]
  rcases h0 : c.sendall 0 with e | u0
  · obtain rfl := sendall_error h0
    have hno : ¬ Sends zone c := by
      rintro ⟨-, h, -⟩
      rw [h0] at h
      cases h
    exact iff_of_true ⟨rfl, hs⟩ ⟨hquery, fun h => absurd h hno, fun h => absurd h hno⟩
  dsimp only
  rw [run_bind, run_ofResult]
  rcases h1 : c.sendall 1 with e | u1
  · obtain rfl := sendall_error h1
    have hno : ¬ Sends zone c := by
      rintro ⟨-, -, h⟩
      rw [h1] at h
      cases h
    exact iff_of_true ⟨rfl, hs⟩ ⟨hquery, fun h => absurd h hno, fun h => absurd h hno⟩
  dsimp only
  have hsends : Sends zone c := ⟨hquestion, h0, h1⟩
  obtain ⟨len, hresponse⟩ := run_soaResponse lib s c
  rw [run_bind, hresponse]
  by_cases hlen : ∀ lengthBytes c', c.recv 2 = .ok (lengthBytes, c') →
      lengthBytes.length ≠ 2 → s.responseLen ≠ none
  · rcases hanswer : answer lib s.responseLen c with e | ⟨response, c'⟩
    · refine iff_of_true ⟨isCaught_answer hparse hlen hanswer, hs⟩ ⟨hquery, fun _ => hlen, ?_⟩
      intro _ response c' h
      rw [hanswer] at h
      cases h
    · have hs' : cols.Takes { s with responseLen := len }.errorMessage := hs
      have hreply := reply_result hparse hquestion response c' hs'
      refine Iff.trans ?_ (hreply.trans ?_)
      · dsimp only
        rcases run (checkSerial lib cols.database zone response >>= fun serial =>
          pure (serial.map fun n => (n, c'))) { s with responseLen := len } with ⟨e | _ | p, s'⟩
        · exact Iff.rfl
        · exact iff_of_true rfl trivial
        · exact Iff.rfl
      · constructor
        · intro h
          refine ⟨hquery, fun _ => hlen, fun _ response' c'' h' => ?_⟩
          obtain ⟨rfl, rfl⟩ := Prod.mk.inj (Except.ok.inj (hanswer.symm.trans h'))
          exact h
        · exact fun h => h.reply hsends response c' hanswer
  · have hanswer : answer lib s.responseLen c = .error .other := by
      push Not at hlen
      obtain ⟨lengthBytes, c', hrecv, hne, hnone⟩ := hlen
      exact answer_unbound hrecv hne hnone
    rw [hanswer]
    exact iff_of_false (fun h => nomatch h.1) fun h => hlen (h.length hsends)

/-- **Nothing escapes from the body of the loop** if and only if the zone survives. -/
theorem handleZone_result (hparse : ∀ b e, lib.parse b = .error e → e = .dnsError)
    (hstored : cols.Takes zone.errorMessage) (peer : Peer) :
    (run (handleZone lib cols.database zone peer) s).1 = .ok () ↔
      Survives lib cols zone s.responseLen peer := by
  unfold handleZone
  rw [run_bind_ok (run_modify _ s)]
  rcases haddresses : peer.addresses with e | addrs
  · have hno : ∀ addrs, peer.addresses ≠ .ok addrs := by
      intro addrs h
      rw [haddresses] at h
      cases h
    dsimp only
    by_cases he : e = .osError
    · rw [if_pos he, fail_result]
      constructor
      · intro h
        refine ⟨fun e' he' => ?_, fun addrs h' => absurd h' (hno addrs), fun addrs _ h' => absurd h' (hno addrs)⟩
        rw [haddresses] at he'
        exact ⟨Except.error.inj he' ▸ he, h⟩
      · exact fun h => (h.address e haddresses).2
    · rw [if_neg he]
      exact iff_of_false nofun fun h => he (h.address e haddresses).1
  have haddress : ∀ e, peer.addresses = .error e →
      e = .osError ∧ cols.errorMessage (cantResolve zone.primary) = none := by
    intro e he
    rw [haddresses] at he
    cases he
  have haddrs : ∀ addrs', peer.addresses = .ok addrs' → addrs' = addrs := fun addrs' h =>
    Except.ok.inj (h.symm.trans haddresses)
  dsimp only
  rcases hc : addrs.findSome? id with _ | c
  · dsimp only
    rw [fail_result]
    constructor
    · intro h
      refine ⟨haddress, fun _ _ _ => h, fun addrs' c' h' hc' => ?_⟩
      rw [haddrs addrs' h', hc] at hc'
      cases hc'
    · exact fun h => h.connection addrs haddresses hc
  · dsimp only
    have hs : cols.Takes { s with errorMessage := zone.errorMessage }.errorMessage := hstored
    rw [sync_result hparse c hs]
    constructor
    · intro h
      refine ⟨haddress, fun addrs' h' hc' => ?_, fun addrs' c' h' hc' => ?_⟩
      · rw [haddrs addrs' h', hc] at hc'
        cases hc'
      · rw [haddrs addrs' h', hc] at hc'
        exact Option.some.inj hc' ▸ h
    · exact fun h => h.served addrs c haddresses hc

end

/-! ### All zones -/

/-- **The command processes every zone** if and only if each zone survives when the run comes to it. The
parser raises only `dnslib.DNSError`, and the error messages that are stored are ones that the column
takes. -/
theorem handle_iff (hparse : ∀ b e, lib.parse b = .error e → e = .dnsError)
    (zones : List (SecondaryZone py × Peer)) (hstored : ∀ z ∈ zones, cols.Takes z.1.errorMessage)
    (s : State) :
    (run (handle lib cols.database zones) s).1 = .ok () ↔
      BeforeEach (fun z => handleZone lib cols.database z.1 z.2)
        (fun s z => Survives lib cols z.1 s.responseLen z.2) zones s := by
  unfold handle
  exact run_runAll_eq_ok fun z hz s => handleZone_result hparse (hstored z hz) z.2

/-- A column of 255 characters. -/
def exampleColumns : Columns where
  errorMessage m := if m.length ≤ 255 then none else some .databaseError
  recordText _ := none

/-- Nothing can be parsed. -/
def exampleLibrary : Library where
  toDnslib := exampleDnslib
  parse _ := .error .dnsError
  times _ := none

/-- A connection on which an empty message comes. -/
def emptyMessage : Connection := ⟨[0, 0], [], true, none⟩

/-- Without an address for the primary of the first zone, and with an empty message from that of the
second. -/
theorem handle_example : (run (handle exampleLibrary exampleColumns.database
    [(exampleZone, ⟨.error .osError⟩), (exampleZone, ⟨.ok [some emptyMessage]⟩)]) exampleState).1 = .ok () := by
  have hfirst : ∀ len, Survives exampleLibrary exampleColumns exampleZone len ⟨.error .osError⟩ :=
    fun len => ⟨fun e he => ⟨(Except.error.inj he).symm, by decide⟩, nofun, nofun⟩
  have hrecv : ∀ lengthBytes c', emptyMessage.recv 2 = .ok (lengthBytes, c') → lengthBytes.length = 2 := by
    intro lengthBytes c' h
    obtain ⟨rfl, -⟩ := Prod.mk.inj (Except.ok.inj h)
    rfl
  have hquestion : question .ascii exampleZone.zoneRoot = .ok () := by decide
  have hanswer : ∀ len, answer exampleLibrary len emptyMessage = .error .dnsError := by
    intro len
    simp [answer, emptyMessage, Connection.recv, lengthOr, unpack, exampleLibrary, bind, Except.bind]
  have hserved : ∀ len, Served exampleLibrary exampleColumns exampleZone len emptyMessage := by
    intro len
    refine ⟨fun e he => ?_, fun _ lengthBytes c' h hne => absurd (hrecv _ _ h) hne, fun _ response c' h => ?_⟩
    · rw [hquestion] at he
      cases he
    · rw [hanswer] at h
      cases h
  have hsecond : ∀ len, Survives exampleLibrary exampleColumns exampleZone len ⟨.ok [some emptyMessage]⟩ := by
    intro len
    refine ⟨nofun, fun addrs h hnone => ?_, fun addrs c h hc => ?_⟩
    · obtain rfl := Except.ok.inj h
      cases hnone
    · obtain rfl := Except.ok.inj h
      exact Option.some.inj hc ▸ hserved len
  refine (handle_iff exampleLibrary exampleColumns (fun b e h => (Except.error.inj h).symm) _ ?_ _).mpr ?_
  · intro z hz
    have hnone : z.1.errorMessage = none := by
      rcases List.mem_cons.mp hz with rfl | hz
      · rfl
      · rw [List.mem_singleton.mp hz]
        rfl
    rw [hnone]
    exact takes_none
  · refine ⟨hfirst _, ?_⟩
    split
    · refine ⟨hsecond _, ?_⟩
      split <;> trivial
    · trivial

/-- **The primary of the first zone closes the connection** at once. -/
theorem not_handle_closed : (run (handle exampleLibrary exampleColumns.database
    [(exampleZone, ⟨.ok [some ⟨[], [], true, none⟩]⟩)]) exampleState).1 ≠ .ok () := by
  decide

end HexDns.Commands.Escapes
