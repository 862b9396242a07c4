import HexDns.Commands.TransferSecondary
import Mathlib.Logic.Function.Basic

/-! # The command `transfer-secondary`

`handle` goes through the secondary zones: it connects to the primary, asks for the SOA, and, if the
serial is another one, for the zone. A primary is what the connection to it does: the bytes that it
sends, in how many pieces `recv` gives them, and whether it closes the connection after them. The
variable `response_len` is that of the whole command, so that a zone sees what was left of it by the
zone before.

The database is what each of its calls raises, by the number and the arguments of the call; what was
stored before a call that raises stays stored. `atomic_iff` says at which calls the replacement of the
records can stop without leaving a part of them. -/

namespace HexDns.Commands.Handle

open HexDns.Lib.Texts HexDns.Lib.Programs HexDns.Base.Py HexDns.Base.Label HexDns.Base.Message
open HexDns.Commands.TransferSecondary

/-! ### Connections -/

/-- A connection to a primary. -/
structure Connection where
  /-- the bytes that are still to come -/
  bytes : Bytes
  /-- how many bytes successive calls of `recv` give at most -/
  segments : List ℕ
  /-- The primary closes the connection after the bytes; otherwise `recv` raises an `OSError`. -/
  closes : Bool
  /-- the call of `sendall` that fails, if one does -/
  sendFails : Option ℕ

/-- `sock.recv(n)` -/
def Connection.recv (n : ℕ) (c : Connection) : Except PyErr (Bytes × Connection) :=
  if n = 0 then .ok ([], c)
  else if c.bytes = [] then
    if c.closes then .ok ([], c) else .error .osError
  else
    let k := min n (max 1 (c.segments.headD n))
    .ok (c.bytes.take k, { c with bytes := c.bytes.drop k, segments := c.segments.tail })

/-- `sock.sendall`, the call of that number -/
def Connection.sendall (c : Connection) (number : ℕ) : Except PyErr Unit :=
  if c.sendFails = some number then .error .osError else .ok ()

/-- `struct.unpack("!H", b)[0]` -/
def unpack : Bytes → Except PyErr ℕ
  | [a, b] => .ok (a.toNat * 256 + b.toNat)
  | _ => .error .structError

/-- What the command meets at the primary of a zone: the addresses that `getaddrinfo` gives, each with
the connection to it if there is one. -/
structure Peer where
  addresses : Except PyErr (List (Option Connection))

/-- What the command uses of `dnslib`. -/
structure Library extends Dnslib where
  /-- `DNSRecord.parse` -/
  parse : Bytes → Except PyErr Response
  /-- `rdata.times[0]`, where the rdata object has `times` -/
  times : Rr → Option ℕ

/-- `DNSRecord.question(name, …).pack()`: the library packs no name of more than 253 bytes and no label
of more than 63. -/
def question (py : Python) (name : Text) : Except PyErr Unit := do
  let l ← DnsLabel.ofText py name
  if (([46] : Bytes).intercalate l.label).length ≤ 253 ∧ ∀ b ∈ l.label, b.length ≤ 63 then .ok ()
  else .error .other

/-! ### The database -/

/-- The row of a secondary zone, and the texts of its records in the order of their creation. -/
structure Row where
  serial : Option ℕ
  error : Bool
  errorMessage : Option Text
  records : List Text
  deriving DecidableEq, Repr

/-- The calls, with what they store. -/
inductive Call
  | deleteRecords
  | saveRecord (recordText : Text)
  | saveZone (errorMessage : Option Text)
  /-- `tasks.update_szone.delay` -/
  | updateSzone
  deriving DecidableEq, Repr

/-- What a call raises, if anything; the calls are numbered. The end of the process is an exception that
nothing catches. -/
abbrev Database := ℕ → Call → Option PyErr

/-- The database, and the variables of `handle` that outlive an exception. -/
structure State where
  rows : ℕ → Row
  calls : ℕ
  /-- `zone.error_message` -/
  errorMessage : Option Text
  /-- `response_len`, as long as it is bound -/
  responseLen : Option ℕ

/-- The state after a call that changes the row of a zone. -/
def State.change (s : State) (id : ℕ) (f : Row → Row) : State :=
  { s with rows := Function.update s.rows id (f (s.rows id)), calls := s.calls + 1 }

abbrev Handling (α : Type) := Exec State PyErr α

variable {py : Python} (lib : Library) (db : Database) (zone : SecondaryZone py)

/-- A call that changes the row of a zone, unless it raises. -/
def call (id : ℕ) (c : Call) (f : Row → Row) : Handling Unit := do
  let s ← get
  match db s.calls c with
  | some e => do
    modify fun s => { s with calls := s.calls + 1 }
    throw e
  | none => modify fun s => s.change id f

/-- `zone.save()` -/
def save (serial : Option ℕ) (error : Bool) : Handling Unit := do
  let s ← get
  call db zone.id (.saveZone s.errorMessage) fun row =>
    { row with serial := serial, error := error, errorMessage := s.errorMessage }

/-- An error and its message are saved. -/
def fail (message : Text) : Handling Unit := do
  modify fun s => { s with errorMessage := some message }
  save db zone zone.serial true

/-! ### The messages -/

def cantResolve (primary : Text) : Text := "Can't get address of ".toList ++ primary

def cantConnect (primary : Text) : Text := "Can't connect to ".toList ++ primary

def invalidSoa (primary : Text) : Text := "Invalid SOA response from ".toList ++ primary

def invalidNumber (primary : Text) : Text := "Invalid number of SOAs received from ".toList ++ primary

/-! ### The SOA query -/

/-- The exceptions that are caught in the SOA query. -/
def isCaughtSoa (e : PyErr) : Bool := e ∈ [PyErr.osError, .valueError, .unicodeError, .dnsError]

/-- A `struct.error` is caught here, and `response_len` stays as it is. -/
def setLength (lengthBytes : Bytes) : Handling Unit :=
  match unpack lengthBytes with
  | .ok n => modify fun s => { s with responseLen := some n }
  | .error _ => pure ()

/-- The answer is received and parsed; an unbound `response_len` is an `UnboundLocalError`. -/
def soaResponse (c : Connection) : Handling (Response × Connection) := do
  let (lengthBytes, c) ← ofResult (c.recv 2)
  setLength lengthBytes
  let s ← get
  let n ← ofResult (s.responseLen.elim (.error .other) .ok)
  let (bytes, c) ← ofResult (c.recv n)
  let response ← ofResult (lib.parse bytes)
  return (response, c)

/-- What is done with the answer: the new serial, if there is one. -/
def checkSerial (response : Response) : Handling (Option ℕ) :=
  match response.rr with
  | [rr] =>
    match lib.times rr with
    | none => throw .attributeError
    | some serial =>
      if some serial = zone.serial then do
        save db zone zone.serial false
        return none
      else return some serial
  | _ => do
    fail db zone (invalidSoa zone.primary)
    return none

def soaQuery (c : Connection) : Handling (Option (ℕ × Connection)) := do
  ofResult (question py zone.zoneRoot)
  ofResult (c.sendall 0)
  ofResult (c.sendall 1)
  let (response, c) ← soaResponse lib c
  let serial ← checkSerial lib db zone response
  return serial.map fun n => (n, c)

/-! ### The transfer -/

def receiveMessage (c : Connection) : Handling (Response × Connection) := do
  let (lengthBytes, c) ← ofResult (c.recv 2)
  let n ← ofResult (unpack lengthBytes)
  modify fun s => { s with responseLen := some n }
  let (bytes, c) ← ofResult (c.recv n)
  let response ← ofResult (lib.parse bytes)
  return (response, c)

/-- The loop. Each message takes two bytes or more, so that a number above that of the bytes is never
used up. -/
def axfrLoop : ℕ → Connection → ℕ → List Text → Handling (ℕ × List Text)
  | 0, _, _, _ => throw .structError
  | n + 1, c, seenSoa, rrs => do
    let (response, c) ← receiveMessage lib c
    if response.rcode ≠ noerror then do
      let text ← ofResult (lib.rcodeText response.rcode)
      fail db zone (responseError zone.primary text)
      axfrLoop n c seenSoa rrs
    else do
      let (seenSoa, rrs) ← ofResult
        (readRrs lib.toDnslib (DnsLabel.ofText py zone.zoneRoot) seenSoa rrs response.rr)
      if seenSoa ≥ 2 then return (seenSoa, rrs) else axfrLoop n c seenSoa rrs

def axfrQuery (c : Connection) : Handling (Option (ℕ × List Text)) := do
  ofResult (question py zone.zoneRoot)
  ofResult (c.sendall 2)
  ofResult (c.sendall 3)
  let received ← axfrLoop lib db zone (c.bytes.length + 1) c 0 []
  return some received

/-- The stored records are replaced. -/
def replace (serial : ℕ) (rrs : List Text) : Handling Unit := do
  call db zone.id .deleteRecords fun row => { row with records := [] }
  runAll (fun text => call db zone.id (.saveRecord text) fun row =>
    { row with records := row.records ++ [text] }) rrs
  modify fun s => { s with errorMessage := none }
  save db zone (some serial) false
  call db zone.id .updateSzone id

/-! ### The command -/

/-- `except` with these exceptions: the error is saved, and the command goes on with the next zone. -/
def orNext {α : Type} (caught : PyErr → Bool) (m : Handling (Option α)) : Handling (Option α) :=
  tryCatch m fun e =>
    if caught e then do
      save db zone zone.serial true
      return none
    else throw e

/-- What is done when the transfer is over. -/
def finish (serial : ℕ) (received : ℕ × List Text) : Handling Unit :=
  if received.1 = 2 then replace db zone serial received.2
  else fail db zone (invalidNumber zone.primary)

def transfer (serial : ℕ) (c : Connection) : Handling Unit := do
  match ← orNext db zone isCaught (axfrQuery lib db zone c) with
  | none => pure ()
  | some received => finish db zone serial received

def sync (c : Connection) : Handling Unit := do
  match ← orNext db zone isCaughtSoa (soaQuery lib db zone c) with
  | none => pure ()
  | some (serial, c) => transfer lib db zone serial c

/-- The body of the loop over the zones. -/
def handleZone (peer : Peer) : Handling Unit := do
  modify fun s => { s with errorMessage := zone.errorMessage }
  match peer.addresses with
  | .error e => if e = .osError then fail db zone (cantResolve zone.primary) else throw e
  | .ok addrs =>
    match addrs.findSome? id with
    | none => fail db zone (cantConnect zone.primary)
    | some c => sync lib db zone c

def handle (zones : List (SecondaryZone py × Peer)) : Handling Unit :=
  runAll (fun z => handleZone lib db z.1 z.2) zones

/-! ### What the calls do -/

section
variable {lib} {db} {zone} {s : State}

@[simp] theorem change_calls (id : ℕ) (f : Row → Row) : (s.change id f).calls = s.calls + 1 := rfl

@[simp] theorem change_rows (id : ℕ) (f : Row → Row) : (s.change id f).rows id = f (s.rows id) := by
  simp [State.change]

@[simp] theorem change_errorMessage (id : ℕ) (f : Row → Row) :
    (s.change id f).errorMessage = s.errorMessage := rfl

@[simp] theorem change_responseLen (id : ℕ) (f : Row → Row) :
    (s.change id f).responseLen = s.responseLen := rfl

theorem run_call_ok {id : ℕ} {c : Call} {f : Row → Row} (h : db s.calls c = none) :
    run (call db id c f) s = (.ok (), s.change id f) := by
  unfold call
  rw [run_bind_ok (run_get s), h, run_modify]

theorem run_call_error {id : ℕ} {c : Call} {f : Row → Row} {e : PyErr} (h : db s.calls c = some e) :
    run (call db id c f) s = (.error e, { s with calls := s.calls + 1 }) := by
  unfold call
  rw [run_bind_ok (run_get s), h]
  exact run_bind_ok (run_modify _ _)

theorem run_save (serial : Option ℕ) (error : Bool) : run (save db zone serial error) s =
    run (call db zone.id (.saveZone s.errorMessage) fun row =>
      { row with serial := serial, error := error, errorMessage := s.errorMessage }) s := by
  unfold save
  rw [run_bind_ok (run_get s)]

theorem run_fail (message : Text) : run (fail db zone message) s =
    run (save db zone zone.serial true) { s with errorMessage := some message } := by
  unfold fail
  rw [run_bind_ok (run_modify _ s)]

/-- The records are saved one after the other. -/
theorem run_saveRecords (db : Database) (id : ℕ) (rrs : List Text) (s : State)
    (h : ∀ i < rrs.length, ∀ c, db (s.calls + i) c = none) :
    ∃ s', run (runAll (fun text => call db id (.saveRecord text) fun row =>
        { row with records := row.records ++ [text] }) rrs) s = (.ok (), s') ∧
      s'.calls = s.calls + rrs.length ∧
      s'.rows id = { s.rows id with records := (s.rows id).records ++ rrs } := by
  induction rrs generalizing s with
  | nil => exact ⟨s, rfl, rfl, by simp⟩
  | cons text rrs ih =>
    have hfirst : db s.calls (.saveRecord text) = none := h 0 (by simp) _
    obtain ⟨s', hrun, hcalls, hrow⟩ := ih (s.change id fun row =>
      { row with records := row.records ++ [text] }) (by
        intro i hi c
        have hlen : i + 1 < (text :: rrs).length := by simpa using hi
        rw [change_calls, Nat.add_assoc, Nat.add_comm 1 i]
        exact h (i + 1) hlen c)
    refine ⟨s', ?_, ?_, ?_⟩
    · show run (call db id _ _ >>= fun _ => runAll _ rrs) s = _
      rw [run_bind_ok (run_call_ok hfirst), hrun]
    · rw [hcalls, change_calls, List.length_cons]
      omega
    · rw [hrow, change_rows]
      simp

end

/-! ### The replacement -/

/-- The call of that number, counted from `first` on, raises. -/
def stopAt (first k : ℕ) (e : PyErr) : Database := fun n _ => if n = first + k then some e else none

/-- **The replacement is failure-atomic**: the records and the serial of the zone afterwards are those
from before, or the new ones. -/
def Atomic (serial : ℕ) (rrs : List Text) (s : State) : Prop :=
  let old := s.rows zone.id
  let new := (run (replace db zone serial rrs) s).2.rows zone.id
  (new.records.Perm old.records ∧ new.serial = old.serial) ∨
    (new.records.Perm rrs ∧ new.serial = some serial)

section
variable {db} {zone} {s : State} {k : ℕ} {e : PyErr}

theorem stopAt_eq_none {n : ℕ} (c : Call) (h : n ≠ s.calls + k) : stopAt s.calls k e n c = none := if_neg h

/-- What is stored if the delete raises. -/
theorem rows_replace_delete (serial : ℕ) (rrs : List Text) :
    (run (replace (stopAt s.calls 0 e) zone serial rrs) s).2.rows = s.rows := by
  have hdelete : stopAt s.calls 0 e s.calls .deleteRecords = some e := if_pos rfl
  unfold replace
  rw [run_bind_error (run_call_error hdelete)]

/-- What is stored if one of the new records is not saved. -/
theorem rows_replace_record (serial : ℕ) (saved rest : List Text) (text : Text)
    (hk : k = saved.length + 1) :
    (run (replace (stopAt s.calls k e) zone serial (saved ++ text :: rest)) s).2.rows zone.id =
      { s.rows zone.id with records := saved } := by
  have hdelete : stopAt s.calls k e s.calls .deleteRecords = none := stopAt_eq_none _ (by omega)
  obtain ⟨s', hrun, hcalls, hrow⟩ := run_saveRecords (stopAt s.calls k e) zone.id saved
    (s.change zone.id fun row => { row with records := [] }) (by
      intro i hi c
      rw [change_calls]
      exact stopAt_eq_none c (by omega))
  have hstop : stopAt s.calls k e s'.calls (.saveRecord text) = some e := by
    rw [hcalls, change_calls]
    exact if_pos (by omega)
  have hloop : run (runAll _ (saved ++ text :: rest)) _ = (.error e, _) :=
    (run_runAll_append_ok hrun).trans (run_bind_error (run_call_error hstop))
  unfold replace
  rw [run_bind_ok (run_call_ok hdelete), run_bind_error hloop]
  show s'.rows zone.id = _
  rw [hrow, change_rows]
  rfl

/-- What is stored if all the new records are. -/
theorem rows_replace_zone (serial : ℕ) (rrs : List Text) (hk : rrs.length < k) :
    (run (replace (stopAt s.calls k e) zone serial rrs) s).2.rows zone.id =
      if k = rrs.length + 1 then { s.rows zone.id with records := rrs }
      else ⟨some serial, false, none, rrs⟩ := by
  have hdelete : stopAt s.calls k e s.calls .deleteRecords = none := stopAt_eq_none _ (by omega)
  obtain ⟨s', hrun, hcalls, hrow⟩ := run_saveRecords (stopAt s.calls k e) zone.id rrs
    (s.change zone.id fun row => { row with records := [] }) (by
      intro i hi c
      rw [change_calls]
      exact stopAt_eq_none c (by omega))
  rw [change_calls] at hcalls
  rw [change_rows, List.nil_append] at hrow
  unfold replace
  rw [run_bind_ok (run_call_ok hdelete), run_bind_ok hrun, run_bind_ok (run_modify _ s'), run_bind, run_save]
  obtain ⟨t, ht⟩ : ∃ t : State, t = { s' with errorMessage := none } := ⟨_, rfl⟩
  have htcalls : t.calls = s.calls + 1 + rrs.length := by rw [ht]; exact hcalls
  have htrow : (t.rows zone.id).records = rrs := by rw [ht]; exact congrArg Row.records hrow
  have hmessage : t.errorMessage = none := by rw [ht]
  rw [← ht]
  by_cases hz : k = rrs.length + 1
  · have hsave : stopAt s.calls k e t.calls (.saveZone t.errorMessage) = some e := if_pos (by omega)
    rw [if_pos hz, run_call_error hsave, ht]
    exact hrow
  · have hsave : stopAt s.calls k e t.calls (.saveZone t.errorMessage) = none := stopAt_eq_none _ (by omega)
    rw [if_neg hz, run_call_ok hsave, hmessage]
    dsimp only
    by_cases hu : k = rrs.length + 2
    · have hdelay : stopAt s.calls k e (t.calls + 1) .updateSzone = some e := if_pos (by omega)
      rw [run_call_error (by exact hdelay)]
      dsimp only
      rw [change_rows, htrow]
    · have hdelay : stopAt s.calls k e (t.calls + 1) .updateSzone = none := stopAt_eq_none _ (by omega)
      rw [run_call_ok (by exact hdelay), change_rows, change_rows, htrow]
      rfl

end

/-- **The replacement is failure-atomic** if and only if it stops at its first call, or after the zone is
saved, or the new records that are stored by then are the old ones, or all of them are stored and the
serial is no other. -/
theorem atomic_iff (serial : ℕ) (rrs : List Text) (s : State) (k : ℕ) (e : PyErr) :
    Atomic (stopAt s.calls k e) zone serial rrs s ↔
      k = 0 ∨ rrs.length + 1 < k ∨ (rrs.take (k - 1)).Perm (s.rows zone.id).records ∨
        (k = rrs.length + 1 ∧ (s.rows zone.id).serial = some serial) := by
  unfold Atomic
  rcases Nat.eq_zero_or_pos k with rfl | hpos
  · rw [rows_replace_delete]
    exact iff_of_true (Or.inl ⟨.refl _, rfl⟩) (Or.inl rfl)
  have hk : k ≠ 0 := by omega
  simp only [hk, false_or]
  by_cases hrecord : k ≤ rrs.length
  · -- a record is not saved, so that fewer are stored than are new
    have hlt : k - 1 < rrs.length := by omega
    have hlen : (rrs.take (k - 1)).length = k - 1 := by
      rw [List.length_take]
      omega
    have hsplit : rrs = rrs.take (k - 1) ++ rrs[k - 1] :: rrs.drop k := by
      have hdrop : rrs.drop (k - 1) = rrs[k - 1] :: rrs.drop (k - 1 + 1) := List.drop_eq_getElem_cons hlt
      rw [show k - 1 + 1 = k by omega] at hdrop
      rw [← hdrop, List.take_append_drop]
    have hrow : (run (replace (stopAt s.calls k e) zone serial rrs) s).2.rows zone.id =
        { s.rows zone.id with records := rrs.take (k - 1) } := by
      conv_lhs => rw [hsplit]
      exact rows_replace_record serial _ _ _ (by omega)
    have hperm : ¬ (rrs.take (k - 1)).Perm rrs := by
      intro h
      have := h.length_eq
      omega
    have h1 : ¬ rrs.length + 1 < k := by omega
    have h2 : k ≠ rrs.length + 1 := by omega
    rw [hrow]
    simp only [hperm, h1, h2, false_and, or_false, false_or, and_true]
  · have htake : rrs.take (k - 1) = rrs := List.take_of_length_le (by omega)
    rw [rows_replace_zone serial rrs (by omega), htake]
    by_cases hz : k = rrs.length + 1
    · have h1 : ¬ rrs.length + 1 < rrs.length + 1 := by omega
      rw [if_pos hz]
      simp only [h1, hz, false_or, true_and, and_true, List.Perm.refl]
    · have h1 : rrs.length + 1 < k := by omega
      simp [hz, h1]

/-- The records of the only zone are deleted, and the process ends. -/
def exampleState : State where
  rows _ := ⟨some 1, false, none, ["old".toList]⟩
  calls := 0
  errorMessage := none
  responseLen := none

theorem not_atomic_delete :
    ¬ Atomic (stopAt 0 1 .other) exampleZone 2 ["new".toList] exampleState := by
  have hrow : (run (replace (stopAt 0 1 .other) exampleZone 2 ["new".toList]) exampleState).2.rows 1 =
      ⟨some 1, false, none, []⟩ := by decide
  intro h
  unfold Atomic at h
  have hid : exampleZone.id = 1 := rfl
  rw [hid, hrow] at h
  rcases h with ⟨h, -⟩ | ⟨h, -⟩
  · exact absurd h.length_eq (by decide)
  · exact absurd h.length_eq (by decide)

end HexDns.Commands.Handle
