import HexDns.Lib.Programs
import HexDns.Models.Db

/-! # Transfers of secondary zones

The AXFR loop of the command `transfer-secondary`, from the answer to the SOA query on: it reads
messages until it has counted two SOA records of the zone, and replaces the stored records if there are
then exactly two. A message with an error is passed over, records before the first and after the second
SOA are kept, and the class of the SOA records does not count: `sound_iff` says for which messages only
complete transfers are taken. -/

namespace HexDns.Commands.TransferSecondary

open HexDns.Lib.Texts HexDns.Lib.Programs HexDns.Base.Py HexDns.Base.Label HexDns.Base.Message

/-! ### The messages and the zone -/

/-- What the loop reads of a parsed message. -/
structure Response where
  rcode : ℕ
  rr : List Rr
  deriving DecidableEq, Repr

/-- `dnslib.RCODE.NOERROR` -/
def noerror : ℕ := 0

/-- What receiving and parsing the next message comes to. -/
inductive Received
  | message (m : Response)
  /-- an `OSError`, a `ValueError`, a `dnslib.DNSError` or a `struct.error` -/
  | failed
  /-- another exception -/
  | raises
  deriving DecidableEq, Repr

/-- What the loop uses of `dnslib`. -/
structure Dnslib where
  /-- `RR.toZone` -/
  toZone : Rr → Except PyErr Text
  /-- `RCODE.get` -/
  rcodeText : ℕ → Except PyErr Text

/-- `SecondaryDNSZone`, with the texts of its records in the order of their creation. `save` has put
the root in lower case. -/
structure SecondaryZone (py : Python) where
  id : ℕ
  zoneRoot : Text
  zoneRoot_lower : py.lower zoneRoot = zoneRoot
  serial : Option ℕ
  primary : Text
  error : Bool
  errorMessage : Option Text
  records : List Text

/-- The exceptions after which the command goes on with the next zone. -/
def isCaught (e : PyErr) : Bool :=
  e ∈ [PyErr.osError, .valueError, .unicodeError, .dnsError, .structError]

variable {py : Python} (d : Dnslib)

/-! ### The loop -/

/-- `rr.rtype == dnslib.QTYPE.SOA and rr.rname == zone.zone_root` -/
def isRootSoa (root : Except PyErr DnsLabel) (rr : Rr) : Except PyErr Bool :=
  if rr.rtype = .soa then root.map fun l => decide (rr.rname.Eqv l) else .ok false

/-- `seen_soa` and `rrs` after the records of a message. -/
def readRrs (root : Except PyErr DnsLabel) :
    ℕ → List Text → List Rr → Except PyErr (ℕ × List Text)
  | seenSoa, rrs, [] => .ok (seenSoa, rrs)
  | seenSoa, rrs, rr :: rest => do
    let seenSoa := seenSoa + if ← isRootSoa root rr then 1 else 0
    if rr.rclass = .in ∧ (rr.rtype ≠ .soa ∨ seenSoa ≤ 1) then
      readRrs root seenSoa (rrs ++ [← d.toZone rr]) rest
    else readRrs root seenSoa rrs rest

/-- Where the loop is; the messages that it has read are kept for the statements. -/
structure Progress (py : Python) where
  messages : List Response
  seenSoa : ℕ
  rrs : List Text
  zone : SecondaryZone py

/-- How the loop ends. -/
inductive Outcome (py : Python)
  /-- with two SOA records or more -/
  | complete (p : Progress py)
  /-- with an exception that is caught -/
  | failed (p : Progress py)
  /-- with another exception -/
  | raises (p : Progress py)

def Outcome.progress : Outcome py → Progress py
  | .complete p => p
  | .failed p => p
  | .raises p => p

/-- The message for a response with an error. -/
def responseError (primary rcode : Text) : Text :=
  "Failed to sync from ".toList ++ primary ++ ": got response ".toList ++ rcode

/-- The zone as it is saved after a message with an error. -/
def errorZone (zone : SecondaryZone py) (rcode : Text) : SecondaryZone py :=
  { zone with error := true, errorMessage := some (responseError zone.primary rcode) }

/-- The loop; when nothing more comes, `struct.unpack` raises a `struct.error`. -/
def receive (root : Except PyErr DnsLabel) (p : Progress py) : List Received → Outcome py
  | [] => .failed p
  | .failed :: _ => .failed p
  | .raises :: _ => .raises p
  | .message m :: rest =>
    if m.rcode ≠ noerror then
      match d.rcodeText m.rcode with
      | .error e =>
        if isCaught e then .failed { p with messages := p.messages ++ [m] }
        else .raises { p with messages := p.messages ++ [m] }
      | .ok text =>
        receive root { p with messages := p.messages ++ [m], zone := errorZone p.zone text } rest
    else
      match readRrs d root p.seenSoa p.rrs m.rr with
      | .error e =>
        if isCaught e then .failed { p with messages := p.messages ++ [m] }
        else .raises { p with messages := p.messages ++ [m] }
      | .ok (seenSoa, rrs) =>
        let p := { p with messages := p.messages ++ [m], seenSoa := seenSoa, rrs := rrs }
        if seenSoa ≥ 2 then .complete p else receive root p rest

/-- The loop from its start. -/
def axfr (zone : SecondaryZone py) (received : List Received) : Outcome py :=
  receive d (DnsLabel.ofText py zone.zoneRoot) ⟨[], 0, [], zone⟩ received

/-- The stored records are replaced. -/
def Outcome.replaces : Outcome py → Bool
  | .complete p => p.seenSoa = 2
  | _ => false

/-- The zone after the loop, with the serial of the answer to the SOA query. -/
def Outcome.store (serial : ℕ) : Outcome py → SecondaryZone py
  | .complete p =>
    if p.seenSoa = 2 then
      { p.zone with records := p.rrs, serial := some serial, error := false, errorMessage := none }
    else
      { p.zone with
        error := true
        errorMessage := some ("Invalid number of SOAs received from ".toList ++ p.zone.primary) }
  | .failed p => { p.zone with error := true }
  | .raises p => p.zone

/-! ### Complete transfers -/

/-- A record is the zone's SOA. -/
def IsSoa (root : DnsLabel) (rr : Rr) : Prop :=
  rr.rtype = .soa ∧ rr.rname.Eqv root ∧ rr.rclass = .in

/-- The messages are without errors, and their records are those of a zone between its SOA and the
closing SOA. -/
def Complete (root : DnsLabel) (ms : List Response) (records : List Rr) : Prop :=
  (∀ m ∈ ms, m.rcode = noerror) ∧ ∃ first inner last, IsSoa root first ∧ IsSoa root last ∧
    ms.flatMap Response.rr = first :: inner ++ [last] ∧ records = first :: inner

/-- The records are replaced only after a complete transfer, by its records of class IN without the
closing SOA; otherwise they and the serial stay as they are. -/
def Sound (zone : SecondaryZone py) (serial : ℕ) (received : List Received) : Prop :=
  let o := axfr d zone received
  if o.replaces then
    ∃ root records, DnsLabel.ofText py zone.zoneRoot = .ok root ∧
      Complete root o.progress.messages records ∧
      (records.filter fun rr => rr.rclass = .in).mapM d.toZone = .ok (o.store serial).records
  else (o.store serial).records = zone.records ∧ (o.store serial).serial = zone.serial

/-! ### The records that are counted and kept -/

/-- The SOA records that are counted. -/
def countSoa (root : DnsLabel) (rrs : List Rr) : ℕ :=
  rrs.countP fun rr => rr.rtype = .soa ∧ rr.rname.Eqv root

/-- The records that are kept after `seenSoa` SOA records. -/
def kept (root : DnsLabel) : ℕ → List Rr → List Rr
  | _, [] => []
  | seenSoa, rr :: rest =>
    (if rr.rclass = .in ∧ (rr.rtype ≠ .soa ∨ seenSoa + countSoa root [rr] ≤ 1) then [rr] else []) ++
      kept root (seenSoa + countSoa root [rr]) rest

/-- The errors of the messages have a text, so that the loop passes over them. -/
def PassedOver (ms : List Response) : Prop :=
  ∀ m ∈ ms, m.rcode ≠ noerror → ∃ text, d.rcodeText m.rcode = .ok text

/-- The records of the messages without errors. -/
def stream (ms : List Response) : List Rr :=
  (ms.filter fun m => m.rcode = noerror).flatMap Response.rr

section
variable {d} {root : DnsLabel}

theorem countSoa_cons (rr : Rr) (rrs : List Rr) :
    countSoa root (rr :: rrs) = countSoa root [rr] + countSoa root rrs := by
  unfold countSoa
  rw [← List.countP_append]
  rfl

theorem countSoa_append (a b : List Rr) : countSoa root (a ++ b) = countSoa root a + countSoa root b :=
  List.countP_append

theorem isRootSoa_ok (rr : Rr) :
    isRootSoa (.ok root) rr = .ok (decide (rr.rtype = .soa ∧ rr.rname.Eqv root)) := by
  unfold isRootSoa
  by_cases h : rr.rtype = .soa
  · rw [if_pos h]
    simp [h, Except.map]
  · rw [if_neg h]
    simp [h]

theorem add_countSoa_cons (n : ℕ) (rr : Rr) (rrs : List Rr) :
    n + countSoa root (rr :: rrs) = n + countSoa root [rr] + countSoa root rrs := by
  rw [countSoa_cons rr rrs, Nat.add_assoc]

theorem kept_cons (n : ℕ) (rr : Rr) (rest : List Rr) : kept root n (rr :: rest) =
    (if rr.rclass = .in ∧ (rr.rtype ≠ .soa ∨ n + countSoa root [rr] ≤ 1) then [rr] else []) ++
      kept root (n + countSoa root [rr]) rest := rfl

theorem kept_append (n : ℕ) (a b : List Rr) :
    kept root n (a ++ b) = kept root n a ++ kept root (n + countSoa root a) b := by
  induction a generalizing n with
  | nil => rfl
  | cons r a ih =>
    rw [List.cons_append, add_countSoa_cons]
    simp only [kept, ih, List.append_assoc]

/-- What is read of the records of a message. -/
theorem readRrs_eq (n : ℕ) (rrs : List Text) (l : List Rr) :
    readRrs d (.ok root) n rrs l =
      ((kept root n l).mapM d.toZone).map fun texts => (n + countSoa root l, rrs ++ texts) := by
  induction l generalizing n rrs with
  | nil => simp [readRrs, kept, countSoa, Except.map, pure, Except.pure]
  | cons r l ih =>
    have hone : (if decide (r.rtype = .soa ∧ r.rname.Eqv root) = true then 1 else 0) =
        countSoa root [r] := by
      unfold countSoa
      simp [List.countP_cons]
    unfold readRrs
    rw [isRootSoa_ok, add_countSoa_cons]
    show (if r.rclass = .in ∧ (r.rtype ≠ .soa ∨
      n + (if decide (r.rtype = .soa ∧ r.rname.Eqv root) = true then 1 else 0) ≤ 1) then _ else _) = _
    rw [hone]
    unfold kept
    split_ifs with hk
    · rw [List.singleton_append, List.mapM_cons]
      rcases d.toZone r with e | text
      · rfl
      · show readRrs d _ _ _ l = _
        rw [ih]
        rcases (kept root (n + countSoa root [r]) l).mapM d.toZone with e | texts
        · rfl
        · simp [Except.map, bind, Except.bind, pure, Except.pure]
    · exact ih _ _

/-! ### What the loop has read -/

theorem passedOver_append_singleton {ms : List Response} {m : Response} : PassedOver d (ms ++ [m]) ↔
    PassedOver d ms ∧ (m.rcode ≠ noerror → ∃ text, d.rcodeText m.rcode = .ok text) := by
  unfold PassedOver
  rw [List.forall_mem_append, List.forall_mem_singleton]

theorem stream_append (ms : List Response) {m : Response} (hm : m.rcode = noerror) :
    stream (ms ++ [m]) = stream ms ++ m.rr := by
  unfold stream
  rw [List.filter_append, List.flatMap_append]
  simp [hm]

theorem stream_append_of_error (ms : List Response) {m : Response} (hm : m.rcode ≠ noerror) :
    stream (ms ++ [m]) = stream ms := by
  unfold stream
  rw [List.filter_append]
  simp [hm]

/-- The counter and the texts are those of the messages that were read; the records and the serial of
the zone are as they were. -/
structure Reads (d : Dnslib) (root : DnsLabel) (zone : SecondaryZone py) (p : Progress py) : Prop where
  seenSoa : p.seenSoa = countSoa root (stream p.messages)
  rrs : (kept root 0 (stream p.messages)).mapM d.toZone = .ok p.rrs
  records : p.zone.records = zone.records
  serial : p.zone.serial = zone.serial

variable {zone : SecondaryZone py} {p p' : Progress py} {received : List Received}

/-- The records of the next message. -/
theorem Reads.nextRrs (hp : Reads d root zone p) {m : Response} (hm : m.rcode = noerror) :
    readRrs d (.ok root) p.seenSoa p.rrs m.rr =
      ((kept root 0 (stream (p.messages ++ [m]))).mapM d.toZone).map fun texts =>
        (countSoa root (stream (p.messages ++ [m])), texts) := by
  rw [readRrs_eq, stream_append _ hm, kept_append, countSoa_append, Nat.zero_add, ← hp.seenSoa,
    List.mapM_append, hp.rrs]
  show _ = Except.map _ (((kept root p.seenSoa m.rr).mapM d.toZone).bind _)
  rcases (kept root p.seenSoa m.rr).mapM d.toZone with e | texts <;> rfl

theorem Reads.next (hp : Reads d root zone p) {m : Response} {texts : List Text}
    (ht : (kept root 0 (stream (p.messages ++ [m]))).mapM d.toZone = .ok texts) :
    Reads d root zone ⟨p.messages ++ [m], countSoa root (stream (p.messages ++ [m])), texts, p.zone⟩ :=
  ⟨rfl, ht, hp.records, hp.serial⟩

theorem Reads.error (hp : Reads d root zone p) {m : Response} (hm : m.rcode ≠ noerror) (text : Text) :
    Reads d root zone ⟨p.messages ++ [m], p.seenSoa, p.rrs, errorZone p.zone text⟩ := by
  refine ⟨?_, ?_, hp.records, hp.serial⟩
  · show p.seenSoa = _
    rw [stream_append_of_error _ hm, hp.seenSoa]
  · show _ = Except.ok p.rrs
    rw [stream_append_of_error _ hm, hp.rrs]

/-- **A loop that is complete** has read the messages up to the first with which there are two SOA
records or more. -/
theorem receive_complete (hp : Reads d root zone p) (hlt : p.seenSoa < 2)
    (h : receive d (.ok root) p received = .complete p') :
    Reads d root zone p' ∧ 2 ≤ p'.seenSoa ∧ ∃ ms m rest,
      received = (ms ++ [m]).map .message ++ rest ∧ p'.messages = p.messages ++ (ms ++ [m]) ∧
        m.rcode = noerror ∧ countSoa root (stream (p.messages ++ ms)) < 2 ∧ PassedOver d ms := by
  induction received generalizing p with
  | nil => cases h
  | cons r received ih =>
    rcases r with m | _ | _
    swap; · cases h
    swap; · cases h
    have hcount : p.seenSoa = countSoa root (stream p.messages) := hp.seenSoa
    unfold receive at h
    by_cases hm : m.rcode = noerror
    · rw [if_neg (by simpa using hm), hp.nextRrs hm] at h
      rcases ht : (kept root 0 (stream (p.messages ++ [m]))).mapM d.toZone with e | texts
      · rw [ht] at h
        simp only [Except.map] at h
        split_ifs at h
      rw [ht] at h
      simp only [Except.map] at h
      have hnext := hp.next ht
      split_ifs at h with h2
      · obtain rfl := Outcome.complete.inj h
        refine ⟨hnext, h2, [], m, received, rfl, rfl, hm, ?_, fun _ hm' => (nomatch hm')⟩
        rw [List.append_nil]
        omega
      · obtain ⟨hp', h2', ms, m', rest, rfl, hms, hm', hlt', hpass⟩ := ih hnext (by simpa using h2) h
        refine ⟨hp', h2', m :: ms, m', rest, rfl, ?_, hm', ?_, ?_⟩
        · rw [hms]; simp
        · simpa using hlt'
        · exact List.forall_mem_cons.mpr ⟨fun hne => absurd hm hne, hpass⟩
    · rw [if_pos hm] at h
      rcases htext : d.rcodeText m.rcode with e | text
      · rw [htext] at h
        dsimp only at h
        split_ifs at h
      rw [htext] at h
      obtain ⟨hp', h2', ms, m', rest, rfl, hms, hm', hlt', hpass⟩ := ih (hp.error hm text) hlt h
      refine ⟨hp', h2', m :: ms, m', rest, rfl, ?_, hm', ?_, ?_⟩
      · rw [hms]; simp
      · simpa using hlt'
      · exact List.forall_mem_cons.mpr ⟨fun _ => ⟨text, htext⟩, hpass⟩

theorem countSoa_stream_le (ms ms' : List Response) :
    countSoa root (stream ms) ≤ countSoa root (stream (ms ++ ms')) := by
  unfold stream
  rw [List.filter_append, List.flatMap_append, countSoa_append]
  omega

theorem kept_stream_of_append {ms ms' : List Response} {texts : List Text}
    (ht : (kept root 0 (stream (ms ++ ms'))).mapM d.toZone = .ok texts) :
    ∃ texts', (kept root 0 (stream ms)).mapM d.toZone = .ok texts' := by
  unfold stream at ht
  rw [List.filter_append, List.flatMap_append, kept_append, List.mapM_append] at ht
  obtain ⟨texts', ht', -⟩ := bind_eq_ok.mp ht
  exact ⟨texts', ht'⟩

/-- If the messages up to one bring the count to two or more, and the records that are kept can be
written, the loop is complete there. -/
theorem complete_of_messages {ms : List Response} {m : Response} {r : List Received}
    {texts : List Text} (hp : Reads d root zone p) (hm : m.rcode = noerror) (hpass : PassedOver d ms)
    (hlt : countSoa root (stream (p.messages ++ ms)) < 2)
    (h2 : 2 ≤ countSoa root (stream (p.messages ++ (ms ++ [m]))))
    (ht : (kept root 0 (stream (p.messages ++ (ms ++ [m])))).mapM d.toZone = .ok texts) :
    ∃ p', receive d (.ok root) p ((ms ++ [m]).map .message ++ r) = .complete p' ∧
      p'.messages = p.messages ++ (ms ++ [m]) ∧
      p'.seenSoa = countSoa root (stream (p.messages ++ (ms ++ [m]))) := by
  induction ms generalizing p with
  | nil =>
    refine ⟨⟨p.messages ++ [m], countSoa root (stream (p.messages ++ [m])), texts, p.zone⟩, ?_, rfl, rfl⟩
    show receive d (.ok root) p (.message m :: r) = _
    unfold receive
    rw [if_neg (by simpa using hm), hp.nextRrs hm]
    rw [List.nil_append] at h2 ht
    simp only [ht, Except.map, if_pos h2]
  | cons m₁ ms ih =>
    have happ : p.messages ++ (m₁ :: ms ++ [m]) = (p.messages ++ [m₁]) ++ (ms ++ [m]) := by simp
    have happ' : p.messages ++ m₁ :: ms = (p.messages ++ [m₁]) ++ ms := by simp
    rw [happ] at h2 ht ⊢
    rw [happ'] at hlt
    show ∃ p', receive d (.ok root) p (.message m₁ :: ((ms ++ [m]).map .message ++ r)) = _ ∧ _
    unfold receive
    obtain ⟨hpass₁, hpass⟩ := List.forall_mem_cons.mp hpass
    by_cases hm₁ : m₁.rcode = noerror
    · obtain ⟨texts', ht'⟩ := kept_stream_of_append ht
      have hlt' : ¬ 2 ≤ countSoa root (stream (p.messages ++ [m₁])) := by
        have : countSoa root (stream (p.messages ++ [m₁])) ≤ _ := countSoa_stream_le _ ms
        omega
      rw [if_neg (by simpa using hm₁), hp.nextRrs hm₁]
      simp only [ht', Except.map, if_neg hlt']
      exact ih (hp.next ht') hpass hlt h2 ht
    · obtain ⟨text, htext⟩ := hpass₁ hm₁
      rw [if_pos hm₁, htext]
      exact ih (hp.error hm₁ text) hpass hlt h2 ht

/-! ### The records of a complete transfer -/

theorem kept_of_countSoa {l : List Rr} (hl : countSoa root l = 0) {n : ℕ} (hn : n ≤ 1) :
    kept root n l = l.filter fun rr => rr.rclass = .in := by
  induction l with
  | nil => rfl
  | cons r l ih =>
    rw [countSoa_cons] at hl
    have hr : countSoa root [r] = 0 := by omega
    unfold kept
    rw [hr, Nat.add_zero, ih (by omega)]
    by_cases hin : r.rclass = .in
    · rw [if_pos ⟨hin, Or.inr hn⟩, List.filter_cons_of_pos (by simpa using hin), List.singleton_append]
    · rw [if_neg fun h => hin h.1, List.filter_cons_of_neg (by simpa using hin), List.nil_append]

theorem countSoa_of_isSoa {rr : Rr} (h : IsSoa root rr) : countSoa root [rr] = 1 := by
  unfold countSoa
  simp [h.1, h.2.1]

/-- Between the two SOA records of a complete transfer the records of class IN are kept. -/
theorem kept_of_complete {ms : List Response} {records : List Rr} (hc : Complete root ms records)
    (h2 : countSoa root (stream ms) = 2) :
    kept root 0 (stream ms) = records.filter fun rr => rr.rclass = .in := by
  obtain ⟨hno, first, inner, last, hfirst, hlast, hrr, rfl⟩ := hc
  have hstream : stream ms = first :: inner ++ [last] := by
    unfold stream
    rw [List.filter_eq_self.mpr (by simpa using hno), hrr]
  rw [hstream, countSoa_append, countSoa_cons, countSoa_of_isSoa hfirst, countSoa_of_isSoa hlast] at h2
  have hinner : countSoa root inner = 0 := by omega
  rw [hstream, kept_append, countSoa_cons, countSoa_of_isSoa hfirst, hinner]
  have hlast' : kept root 1 [last] = [] := by
    rw [kept_cons, countSoa_of_isSoa hlast, if_neg (by simp [hlast.1])]
    rfl
  have hfirst' : kept root 0 (first :: inner) = [first] ++ kept root 1 inner := by
    rw [kept_cons, countSoa_of_isSoa hfirst, if_pos ⟨hfirst.2.2, Or.inr le_rfl⟩]
  show kept root 0 (first :: inner) ++ kept root (0 + (1 + 0)) [last] = _
  rw [hfirst', hlast', List.append_nil, kept_of_countSoa hinner le_rfl,
    List.filter_cons_of_pos (by simpa using hfirst.2.2), List.singleton_append]

/-! ### Without a name for the root -/

theorem readRrs_error {e : PyErr} {n n' : ℕ} {rrs rrs' : List Text} {l : List Rr}
    (h : readRrs d (.error e) n rrs l = .ok (n', rrs')) : n' = n := by
  induction l generalizing n rrs with
  | nil => exact (Prod.mk.inj (Except.ok.inj h)).1.symm
  | cons r l ih =>
    by_cases hr : r.rtype = .soa
    · unfold readRrs isRootSoa at h
      rw [if_pos hr] at h
      cases h
    · have hstep : readRrs d (.error e) n rrs (r :: l) =
          if r.rclass = .in ∧ (r.rtype ≠ .soa ∨ n ≤ 1) then
            (d.toZone r).bind fun text => readRrs d (.error e) n (rrs ++ [text]) l
          else readRrs d (.error e) n rrs l := by
        conv_lhs => unfold readRrs isRootSoa
        rw [if_neg hr]
        rfl
      rw [hstep] at h
      split_ifs at h
      · obtain ⟨text, -, h⟩ := bind_eq_ok.mp h
        exact ih h
      · exact ih h

theorem receive_error {e : PyErr} (hlt : p.seenSoa < 2) :
    (receive d (.error e) p received).replaces = false := by
  induction received generalizing p with
  | nil => rfl
  | cons r received ih =>
    rcases r with m | _ | _
    swap; · rfl
    swap; · rfl
    unfold receive
    split_ifs with hm
    · rcases d.rcodeText m.rcode with e' | text
      · dsimp only
        split_ifs <;> rfl
      · exact ih hlt
    · rcases hr : readRrs d (.error e) p.seenSoa p.rrs m.rr with e' | ⟨n, rrs⟩
      · dsimp only
        split_ifs <;> rfl
      · have hn : n = p.seenSoa := readRrs_error hr
        dsimp only
        rw [if_neg (by omega)]
        refine ih ?_
        show n < 2
        omega

/-- The loop changes neither the records nor the serial of the zone. -/
theorem receive_zone (root : Except PyErr DnsLabel) :
    (receive d root p received).progress.zone.records = p.zone.records ∧
      (receive d root p received).progress.zone.serial = p.zone.serial := by
  induction received generalizing p with
  | nil => exact ⟨rfl, rfl⟩
  | cons r received ih =>
    rcases r with m | _ | _
    swap; · exact ⟨rfl, rfl⟩
    swap; · exact ⟨rfl, rfl⟩
    unfold receive
    split_ifs with hm
    · rcases d.rcodeText m.rcode with e' | text
      · dsimp only
        split_ifs <;> exact ⟨rfl, rfl⟩
      · exact ih
    · rcases readRrs d root p.seenSoa p.rrs m.rr with e' | ⟨n, rrs⟩
      · dsimp only
        split_ifs <;> exact ⟨rfl, rfl⟩
      · dsimp only
        split_ifs
        · exact ⟨rfl, rfl⟩
        · exact ih

theorem store_of_not_replaces {o : Outcome py} (h : o.replaces = false) (serial : ℕ) :
    (o.store serial).records = o.progress.zone.records ∧
      (o.store serial).serial = o.progress.zone.serial := by
  rcases o with p | p | p
  · have hne : ¬ p.seenSoa = 2 := by simpa [Outcome.replaces] using h
    simp only [Outcome.store, if_neg hne]
    exact ⟨rfl, rfl⟩
  · exact ⟨rfl, rfl⟩
  · exact ⟨rfl, rfl⟩

end

/-! ### The condition -/

/-- Whenever the messages up to one bring the count of the SOA records of the zone from below two to
exactly two, the errors before it have a text and the records that are kept can be written, no message
among them has an error, no record is before the first or after the second SOA, and both are of class
IN. -/
def Clean (zone : SecondaryZone py) (received : List Received) : Prop :=
  ∀ root, DnsLabel.ofText py zone.zoneRoot = .ok root → ∀ ms m rest texts,
    received = (ms ++ [m]).map .message ++ rest → m.rcode = noerror → PassedOver d ms →
    countSoa root (stream ms) < 2 → countSoa root (stream (ms ++ [m])) = 2 →
    (kept root 0 (stream (ms ++ [m]))).mapM d.toZone = .ok texts →
    ∃ records, Complete root (ms ++ [m]) records

/-- **Only complete transfers are taken** if and only if the messages that bring the second SOA are
clean. -/
theorem sound_iff (zone : SecondaryZone py) (serial : ℕ) (received : List Received) :
    Sound d zone serial received ↔ Clean d zone received := by
  have hzone : (axfr d zone received).progress.zone.records = zone.records ∧
      (axfr d zone received).progress.zone.serial = zone.serial := receive_zone _
  rcases hroot : DnsLabel.ofText py zone.zoneRoot with e | root
  · refine iff_of_true ?_ fun root h => by rw [hroot] at h; cases h
    have hno : (axfr d zone received).replaces = false := by
      unfold axfr
      rw [hroot]
      exact receive_error Nat.zero_lt_two
    unfold Sound
    simp only [hno, Bool.false_eq_true, if_false]
    obtain ⟨h1, h2⟩ := store_of_not_replaces hno serial
    exact ⟨h1.trans hzone.1, h2.trans hzone.2⟩
  have h0 : Reads d root zone ⟨[], 0, [], zone⟩ := ⟨rfl, rfl, rfl, rfl⟩
  constructor
  · intro hS root' hroot' ms m rest texts hrec hm hpass hlt h2 ht
    obtain rfl := Except.ok.inj (hroot.symm.trans hroot')
    obtain ⟨p', hp', hms, hseen⟩ := complete_of_messages (r := rest) h0 hm hpass hlt h2.ge ht
    have hax : axfr d zone received = .complete p' := by
      unfold axfr
      rw [hroot, hrec]
      exact hp'
    have hrep : (axfr d zone received).replaces = true := by
      rw [hax]
      exact decide_eq_true (hseen.trans h2)
    unfold Sound at hS
    simp only [hrep, if_true] at hS
    obtain ⟨root', records, hroot', hc, -⟩ := hS
    obtain rfl := Except.ok.inj (hroot.symm.trans hroot')
    rw [hax] at hc
    exact ⟨records, by simpa [Outcome.progress, hms] using hc⟩
  · intro hC
    unfold Sound
    by_cases hrep : (axfr d zone received).replaces = true
    swap
    · have hno : (axfr d zone received).replaces = false := by simpa using hrep
      simp only [hno, Bool.false_eq_true, if_false]
      obtain ⟨h1, h2⟩ := store_of_not_replaces hno serial
      exact ⟨h1.trans hzone.1, h2.trans hzone.2⟩
    simp only [hrep, if_true]
    rcases hax : axfr d zone received with p' | p' | p'
    · rw [hax] at hrep
      have h2 : p'.seenSoa = 2 := of_decide_eq_true hrep
      have hax' : receive d (.ok root) ⟨[], 0, [], zone⟩ received = .complete p' := by
        rw [← hroot]
        exact hax
      obtain ⟨hp', -, ms, m, rest, hrec, hms, hm, hlt, hpass⟩ := receive_complete h0 Nat.zero_lt_two hax'
      rw [List.nil_append] at hms hlt
      have hcount : countSoa root (stream (ms ++ [m])) = 2 := by rw [← hms, ← hp'.seenSoa, h2]
      obtain ⟨records, hc⟩ := hC root hroot ms m rest p'.rrs hrec hm hpass hlt hcount (hms ▸ hp'.rrs)
      rw [← hms] at hc hcount
      refine ⟨root, records, hroot, hc, ?_⟩
      rw [← kept_of_complete hc hcount, hp'.rrs]
      simp only [Outcome.store, if_pos h2]
    · rw [hax] at hrep
      cases hrep
    · rw [hax] at hrep
      cases hrep

/-! ### A message with an error in between -/

/-- The SOA record of `example.com`. -/
def exampleSoa : Rr := ⟨⟨[encode "example".toList, encode "com".toList]⟩, .soa, .in, 3600, .lib 6 []⟩

def exampleZone : SecondaryZone .ascii where
  id := 1
  zoneRoot := "example.com".toList
  zoneRoot_lower := by decide
  serial := some 1
  primary := "192.0.2.1".toList
  error := false
  errorMessage := none
  records := []

/-- The owner of a record is all that is written. -/
def exampleDnslib : Dnslib := ⟨fun rr => .ok rr.rname.toText, fun _ => .ok "SERVFAIL".toList⟩

/-- The SOA, then an error, then the SOA again. -/
def exampleMessages : List Received :=
  [.message ⟨noerror, [exampleSoa]⟩, .message ⟨2, []⟩, .message ⟨noerror, [exampleSoa]⟩]

/-- **A transfer with an error** in the middle is taken. -/
theorem not_sound_error : ¬ Sound exampleDnslib exampleZone 2 exampleMessages := by
  have hrep : (axfr exampleDnslib exampleZone exampleMessages).replaces = true := by decide
  intro hS
  unfold Sound at hS
  simp only [hrep, if_true] at hS
  obtain ⟨root, records, -, ⟨hno, -⟩, -⟩ := hS
  have hmem : (⟨2, []⟩ : Response) ∈
      (axfr exampleDnslib exampleZone exampleMessages).progress.messages := by decide
  exact absurd (hno _ hmem) (by decide)

end HexDns.Commands.TransferSecondary
