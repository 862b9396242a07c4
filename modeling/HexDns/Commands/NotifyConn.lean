import HexDns.Commands.Handle
import Mathlib.Logic.Function.Iterate

/-! # The NOTIFY handlers

`notify_conn` of the Knot sidecar and of the command `run-axfr-notify`: a loop that reads the length of a
message, and in it a loop that reads until the message is that long. `step` is one call of `recv` with what
is done before the next one. At the end of a connection `recv` gives no bytes, which ends the outer loop and
which the inner one does not look at: `ends_iff` says that a handler ends if and only if the peer never closes
the connection within a message that it comes to. -/

namespace HexDns.Commands.NotifyConn

open HexDns.Lib.Texts HexDns.Base.Py HexDns.Base.Label HexDns.Base.Message HexDns.Commands.Handle

/-! ### Messages -/

/-- `OPCODE.NOTIFY` -/
def notifyOpcode : Opcode := .other 4

/-- A row of `DNSZone`, with the server and the port of each of its `DNSZoneAXFRNotify`. -/
structure NotifyZone where
  zoneRoot : Text
  targets : List (Text × ℕ)

/-- What the handlers use. -/
structure Services where
  /-- `DNSRecord.parse` -/
  parse : Bytes → Except PyErr DnsRecord
  /-- the response with this id to this name is packed and sent -/
  respond : ℕ → DnsLabel → Except PyErr Unit
  /-- A connection to the broker is made, and these bodies are published. -/
  publish : List Bytes → Except PyErr Unit
  /-- `Notify(server, port, zone).SerializeToString()` -/
  notify : Text → ℕ → Text → Bytes
  zones : List NotifyZone

section
variable (s : Services)

/-- What the sidecar does with a message; it never goes on to the next one. -/
def sidecarMessage (data : Bytes) : Except PyErr Bool :=
  match s.parse data with
  | .error .dnsError => .ok false
  | .error e => .error e
  | .ok packet =>
    match packet.questions with
    | [] => .ok false
    | question :: _ =>
      if packet.opcode = notifyOpcode then do
        s.publish [encode question.qname.toText]
        s.respond packet.id question.qname
        return false
      else .ok false

/-- What `run-axfr-notify` does with a message; `continue` is true. -/
def axfrNotifyMessage (data : Bytes) : Except PyErr Bool :=
  match s.parse data with
  | .error .dnsError => .ok false
  | .error e => .error e
  | .ok packet =>
    match packet.questions with
    | [] => .ok false
    | question :: _ =>
      if packet.opcode = notifyOpcode then do
        s.respond packet.id question.qname
        match s.zones.find? fun z => z.zoneRoot = question.qname.toText.rdropWhile (· = '.') with
        | none => return true
        | some zone =>
          if zone.targets = [] then return true
          else do
            s.publish (zone.targets.map fun t => s.notify t.1 t.2 zone.zoneRoot)
            return false
      else .ok false

end

/-! ### The loops -/

/-- Where a handler is. -/
inductive Phase
  /-- before the length of a message -/
  | length
  /-- in a message of this length, with what has come -/
  | body (dataLen : ℕ) (data : Bytes)
  | ended (r : Except PyErr Unit)

structure State where
  conn : Connection
  phase : Phase

section
variable (message : Bytes → Except PyErr Bool)

/-- The condition of the inner loop, and what comes after it. -/
def received (conn : Connection) (dataLen : ℕ) (data : Bytes) : State :=
  if data.length < dataLen then ⟨conn, .body dataLen data⟩
  else
    match message data with
    | .ok true => ⟨conn, .length⟩
    | .ok false => ⟨conn, .ended (.ok ())⟩
    | .error e => ⟨conn, .ended (.error e)⟩

/-- A call of `recv`, and what is done before the next one. -/
def step (s : State) : State :=
  match s.phase with
  | .length =>
    match s.conn.recv 2 with
    | .error e => ⟨s.conn, .ended (.error e)⟩
    | .ok ([], conn) => ⟨conn, .ended (.ok ())⟩
    | .ok (b, conn) =>
      match unpack b with
      | .error e => ⟨conn, .ended (.error e)⟩
      | .ok dataLen => received message conn dataLen []
  | .body dataLen data =>
    match s.conn.recv (dataLen - data.length) with
    | .error e => ⟨s.conn, .ended (.error e)⟩
    | .ok (b, conn) => received message conn dataLen (data ++ b)
  | .ended _ => s

/-- The handler returns or raises. -/
def Ended (s : State) : Prop := ∃ r, s.phase = .ended r

/-- After finitely many calls of `recv` the handler returns or raises. -/
def Ends (s : State) : Prop := ∃ n, Ended ((step message)^[n] s)

/-- The connection after so many bytes, in as many calls as it takes. -/
def rest : ℕ → List ℕ → List ℕ
  | 0, segments => segments
  | _ + 1, [] => []
  | n + 1, k :: segments => rest (n + 1 - max 1 k) segments

/-- The connection after a message of this length. -/
def afterMessage (conn : Connection) (dataLen : ℕ) : Connection :=
  { conn with bytes := conn.bytes.drop dataLen, segments := rest dataLen conn.segments }

/-- The peer closes the connection between the messages that the handler comes to, or within a length. -/
inductive Complete : Connection → Prop
  | closed {conn : Connection} : conn.bytes = [] → Complete conn
  | cut {conn conn' : Connection} {a : UInt8} : conn.recv 2 = .ok ([a], conn') → Complete conn
  | message {conn conn' : Connection} {a b : UInt8} : conn.recv 2 = .ok ([a, b], conn') →
      a.toNat * 256 + b.toNat ≤ conn'.bytes.length →
      (message (conn'.bytes.take (a.toNat * 256 + b.toNat)) = .ok true →
        Complete (afterMessage conn' (a.toNat * 256 + b.toNat))) →
      Complete conn

variable {message} {conn conn' : Connection} {dataLen n : ℕ} {data : Bytes}

/-! ### Runs -/

theorem ends_of_phase {s : State} {r : Except PyErr Unit} (h : s.phase = .ended r) : Ends message s :=
  ⟨0, r, h⟩

theorem step_ended {s : State} (h : Ended s) : step message s = s := by
  obtain ⟨r, hr⟩ := h
  unfold step
  rw [hr]

/-- A handler ends just when it does from its next call on. -/
theorem ends_step {s : State} : Ends message (step message s) ↔ Ends message s := by
  constructor
  · rintro ⟨n, hn⟩
    exact ⟨n + 1, hn⟩
  · rintro ⟨n, hn⟩
    cases n with
    | zero =>
      have hended : Ended s := hn
      rw [step_ended hended]
      exact ⟨0, hn⟩
    | succ n => exact ⟨n, hn⟩

theorem recv_closed (hcloses : conn.closes = true) (hb : conn.bytes = []) (hn : n ≠ 0) :
    conn.recv n = .ok ([], conn) := by
  unfold Connection.recv
  rw [if_neg hn, if_pos hb, if_pos hcloses]

/-- While bytes are left, a call of `recv` takes some of them. -/
theorem recv_some (hb : conn.bytes ≠ []) (hn : n ≠ 0) : ∃ k, k = min n (max 1 (conn.segments.headD n)) ∧
    1 ≤ k ∧ k ≤ n ∧
    conn.recv n = .ok (conn.bytes.take k, { conn with bytes := conn.bytes.drop k, segments := conn.segments.tail }) := by
  refine ⟨_, rfl, by omega, by omega, ?_⟩
  unfold Connection.recv
  rw [if_neg hn, if_neg hb]

/-- In a message of which less is left than is announced the handler waits for ever. -/
def Stuck (s : State) : Prop :=
  ∃ dataLen data, s.phase = .body dataLen data ∧ data.length + s.conn.bytes.length < dataLen ∧
    s.conn.closes = true

theorem Stuck.step {s : State} (h : Stuck s) : Stuck (step message s) := by
  obtain ⟨dataLen, data, hphase, hlen, hcloses⟩ := h
  unfold NotifyConn.step
  rw [hphase]
  dsimp only
  by_cases hb : s.conn.bytes = []
  · rw [recv_closed hcloses hb (by omega)]
    dsimp only
    unfold received
    rw [List.append_nil, if_pos (by omega)]
    exact ⟨dataLen, data, rfl, hlen, hcloses⟩
  · obtain ⟨k, -, hk1, hk, hrecv⟩ := recv_some hb (show dataLen - data.length ≠ 0 by omega)
    rw [hrecv]
    dsimp only
    have hsum : (data ++ s.conn.bytes.take k).length + (s.conn.bytes.drop k).length < dataLen := by
      rw [List.length_append, List.length_take, List.length_drop]
      omega
    unfold received
    rw [if_pos (by omega)]
    exact ⟨dataLen, _, rfl, hsum, hcloses⟩

theorem Stuck.not_ends {s : State} (h : Stuck s) : ¬ Ends message s := by
  rintro ⟨n, hn⟩
  induction n generalizing s with
  | zero =>
    obtain ⟨dataLen, data, hphase, -⟩ := h
    obtain ⟨r, hr⟩ := hn
    exact absurd (hphase.symm.trans hr) (by simp)
  | succ n ih => exact ih h.step hn

/-- A call that takes less than is asked for. -/
theorem rest_of_lt {segments : List ℕ} {k : ℕ} (hk : k = min n (max 1 (segments.headD n))) (hlt : k < n) :
    rest n segments = rest (n - k) segments.tail := by
  obtain ⟨m, rfl⟩ : ∃ m, n = m + 1 := ⟨n - 1, by omega⟩
  rcases segments with _ | ⟨a, segments⟩
  · rw [List.headD_nil] at hk
    omega
  · rw [List.headD_cons] at hk
    obtain rfl : k = max 1 a := by omega
    rfl

/-- A call that takes all that is asked for. -/
theorem rest_of_eq {segments : List ℕ} (hn : n ≠ 0) (hk : n = min n (max 1 (segments.headD n))) :
    rest n segments = segments.tail := by
  obtain ⟨m, rfl⟩ : ∃ m, n = m + 1 := ⟨n - 1, by omega⟩
  rcases segments with _ | ⟨a, segments⟩
  · rfl
  · rw [List.headD_cons] at hk
    have hzero : m + 1 - max 1 a = 0 := by omega
    show rest (m + 1 - max 1 a) segments = segments
    rw [hzero]
    cases segments <;> rfl

/-- The inner loop reads a message that is there in full. -/
theorem ends_body (hdata : data.length < dataLen) (hlen : dataLen ≤ data.length + conn.bytes.length) :
    Ends message ⟨conn, .body dataLen data⟩ ↔
      Ends message (received message (afterMessage conn (dataLen - data.length)) dataLen
        (data ++ conn.bytes.take (dataLen - data.length))) := by
  -- by induction on what is still to come of the message
  generalize hleft : dataLen - data.length = left
  induction left using Nat.strong_induction_on generalizing conn data with
  | _ left ih =>
    have hb : conn.bytes ≠ [] := fun h => by rw [h, List.length_nil] at hlen; omega
    obtain ⟨k, hk, hk1, hkn, hrecv⟩ := recv_some hb (show left ≠ 0 by omega)
    have hstep : step message ⟨conn, .body dataLen data⟩ = received message
        { conn with bytes := conn.bytes.drop k, segments := conn.segments.tail } dataLen
          (data ++ conn.bytes.take k) := by
      unfold step
      dsimp only
      rw [hleft, hrecv]
    have htake : (data ++ conn.bytes.take k).length = data.length + k := by
      rw [List.length_append, List.length_take]
      omega
    rw [← ends_step, hstep]
    by_cases hall : k = left
    · rw [hall] at hk ⊢
      unfold afterMessage
      rw [rest_of_eq (by omega) hk]
    · have hlt : k < left := by omega
      have hbody : received message { conn with bytes := conn.bytes.drop k, segments := conn.segments.tail } dataLen
          (data ++ conn.bytes.take k) =
          ⟨{ conn with bytes := conn.bytes.drop k, segments := conn.segments.tail }, .body dataLen
            (data ++ conn.bytes.take k)⟩ := by
        unfold received
        rw [if_pos (by omega)]
      have hlen' : dataLen ≤ (data ++ conn.bytes.take k).length + (conn.bytes.drop k).length := by
        rw [htake, List.length_drop]
        omega
      rw [hbody, ih (left - k) (by omega) (by omega) hlen' (by omega)]
      have hbytes : data ++ conn.bytes.take k ++ (conn.bytes.drop k).take (left - k) = data ++ conn.bytes.take left := by
        rw [List.append_assoc, ← List.take_add, Nat.add_sub_cancel' (by omega)]
      have hconn : afterMessage { conn with bytes := conn.bytes.drop k, segments := conn.segments.tail } (left - k) =
          afterMessage conn left := by
        unfold afterMessage
        dsimp only
        rw [rest_of_lt hk hlt, List.drop_drop, Nat.add_sub_cancel' (by omega)]
      rw [hconn, hbytes]

theorem rest_zero (segments : List ℕ) : rest 0 segments = segments := by
  cases segments <;> rfl

/-- The message of a length that has come is read, and looked at. -/
theorem ends_received (hlen : dataLen ≤ conn.bytes.length) :
    Ends message (received message conn dataLen []) ↔
      Ends message (received message (afterMessage conn dataLen) dataLen (conn.bytes.take dataLen)) := by
  by_cases hzero : dataLen = 0
  · rw [hzero]
    unfold afterMessage
    rw [rest_zero]
    rfl
  · have hbody : received message conn dataLen [] = ⟨conn, .body dataLen []⟩ :=
      if_pos (show ([] : Bytes).length < dataLen by rw [List.length_nil]; omega)
    rw [hbody, ends_body (by rw [List.length_nil]; omega) (by rw [List.length_nil]; omega)]
    rfl

/-- How the loop goes on after a length. -/
theorem step_length {b : Bytes} (hb : b ≠ []) (hrecv : conn.recv 2 = .ok (b, conn')) :
    step message ⟨conn, .length⟩ = match unpack b with
      | .error e => ⟨conn', .ended (.error e)⟩
      | .ok dataLen => received message conn' dataLen [] := by
  unfold step
  dsimp only
  rw [hrecv]
  rcases b with _ | ⟨x, b⟩
  · exact absurd rfl hb
  · rfl

theorem ends_cut {a : UInt8} (hrecv : conn.recv 2 = .ok ([a], conn')) : Ends message ⟨conn, .length⟩ := by
  rw [← ends_step, step_length (by simp) hrecv]
  exact ends_of_phase rfl

/-- What is known of a message that is complete. -/
theorem Complete.message_inv {a b : UInt8} (h : Complete message conn) (hb : conn.bytes ≠ [])
    (hrecv : conn.recv 2 = .ok ([a, b], conn')) : a.toNat * 256 + b.toNat ≤ conn'.bytes.length ∧
      (message (conn'.bytes.take (a.toNat * 256 + b.toNat)) = .ok true →
        Complete message (afterMessage conn' (a.toNat * 256 + b.toNat))) := by
  cases h with
  | closed hnil => exact absurd hnil hb
  | cut hcut =>
    rw [hrecv] at hcut
    cases hcut
  | message hrecv' hlen hrest =>
    rw [hrecv] at hrecv'
    cases hrecv'
    exact ⟨hlen, hrest⟩

/-- **A handler ends** if and only if the peer does not close the connection within a message that it
comes to. -/
theorem ends_iff (hcloses : conn.closes = true) : Ends message ⟨conn, .length⟩ ↔ Complete message conn := by
  -- by induction on the bytes that are still to come
  generalize hsize : conn.bytes.length = size
  induction size using Nat.strong_induction_on generalizing conn with
  | _ size ih =>
    rcases hbytes : conn.bytes with _ | ⟨a, tail⟩
    · refine iff_of_true ?_ (.closed hbytes)
      have hstep : step message ⟨conn, .length⟩ = ⟨conn, .ended (.ok ())⟩ := by
        unfold step
        dsimp only
        rw [recv_closed hcloses hbytes (by decide)]
      rw [← ends_step, hstep]
      exact ends_of_phase rfl
    have hb : conn.bytes ≠ [] := by rw [hbytes]; simp
    obtain ⟨k, -, hk1, hk2, hrecv⟩ := recv_some hb (show 2 ≠ 0 by decide)
    rw [hbytes] at hrecv
    rcases tail with _ | ⟨b, tail⟩
    · rw [show [a].take k = [a] from List.take_of_length_le hk1] at hrecv
      exact iff_of_true (ends_cut hrecv) (.cut hrecv)
    by_cases hone : k = 1
    · rw [hone] at hrecv
      exact iff_of_true (ends_cut hrecv) (.cut hrecv)
    obtain rfl : k = 2 := by omega
    generalize hconn : ({ conn with bytes := (a :: b :: tail).drop 2, segments := conn.segments.tail } : Connection) =
      conn' at hrecv
    have htail : conn'.bytes = tail := by rw [← hconn]; rfl
    have hcloses' : conn'.closes = true := by rw [← hconn]; exact hcloses
    have hstep : step message ⟨conn, .length⟩ = received message conn' (a.toNat * 256 + b.toNat) [] :=
      step_length (by simp) hrecv
    rw [← ends_step, hstep]
    generalize hn : a.toNat * 256 + b.toNat = dataLen
    by_cases hlen : dataLen ≤ conn'.bytes.length
    · rw [ends_received hlen]
      have hfull : ¬ (conn'.bytes.take dataLen).length < dataLen := by
        rw [List.length_take]
        omega
      have hshort : (afterMessage conn' dataLen).bytes.length < size := by
        show (conn'.bytes.drop dataLen).length < size
        rw [List.length_drop, htail, ← hsize, hbytes, List.length_cons, List.length_cons]
        omega
      have hih := @ih _ hshort (afterMessage conn' dataLen) hcloses' rfl
      unfold received
      rw [if_neg hfull]
      rcases hmsg : message (conn'.bytes.take dataLen) with e | goesOn
      · refine iff_of_true (ends_of_phase rfl) (.message hrecv (hn ▸ hlen) fun h => ?_)
        rw [hn, hmsg] at h
        cases h
      · cases goesOn with
        | true =>
          show Ends message ⟨afterMessage conn' dataLen, .length⟩ ↔ _
          rw [hih]
          constructor
          · exact fun h => .message hrecv (hn ▸ hlen) fun _ => hn ▸ h
          · exact fun h => hn ▸ (h.message_inv hb hrecv).2 (hn ▸ hmsg)
        | false =>
          refine iff_of_true (ends_of_phase rfl) (.message hrecv (hn ▸ hlen) fun h => ?_)
          rw [hn, hmsg] at h
          cases h
    · refine iff_of_false (Stuck.not_ends ?_) ?_
      · unfold received
        rw [if_pos (by rw [List.length_nil]; omega)]
        exact ⟨dataLen, [], rfl, by rw [List.length_nil]; show 0 + conn'.bytes.length < dataLen; omega, hcloses'⟩
      · exact fun h => hlen (hn ▸ (h.message_inv hb hrecv).1)

/-- **Both handlers end** if and only if the peer does not close the connection within a message that they
come to. -/
theorem handlers_end_iff (s : Services) (hcloses : conn.closes = true) :
    (Ends (sidecarMessage s) ⟨conn, .length⟩ ↔ Complete (sidecarMessage s) conn) ∧
      (Ends (axfrNotifyMessage s) ⟨conn, .length⟩ ↔ Complete (axfrNotifyMessage s) conn) :=
  ⟨ends_iff hcloses, ends_iff hcloses⟩

end

/-! ### A close at once, and one within a message -/

/-- Services for which no message parses. -/
private def noServices : Services where
  parse _ := .error .dnsError
  respond _ _ := .ok ()
  publish _ := .ok ()
  notify _ _ _ := []
  zones := []

theorem handlers_end_silent :
    (Ends (sidecarMessage noServices) ⟨⟨[], [], true, none⟩, .length⟩ ↔
        Complete (sidecarMessage noServices) ⟨[], [], true, none⟩) ∧
      (Ends (axfrNotifyMessage noServices) ⟨⟨[], [], true, none⟩, .length⟩ ↔
        Complete (axfrNotifyMessage noServices) ⟨[], [], true, none⟩) :=
  handlers_end_iff noServices rfl

/-- A peer that announces five bytes and closes the connection. -/
theorem not_ends_announced : ¬ Ends (sidecarMessage noServices) ⟨⟨[0, 5], [], true, none⟩, .length⟩ ∧
    ¬ Ends (axfrNotifyMessage noServices) ⟨⟨[0, 5], [], true, none⟩, .length⟩ := by
  have hstuck : Stuck ⟨⟨[], [], true, none⟩, .body 5 []⟩ := ⟨5, [], rfl, by decide, rfl⟩
  have hstep : ∀ message, step message ⟨⟨[0, 5], [], true, none⟩, .length⟩ = ⟨⟨[], [], true, none⟩, .body 5 []⟩ := by
    intro message
    simp [step, Connection.recv, unpack, received]
  rw [← ends_step, hstep, ← @ends_step (axfrNotifyMessage noServices), hstep]
  exact ⟨hstuck.not_ends, hstuck.not_ends⟩

end HexDns.Commands.NotifyConn
