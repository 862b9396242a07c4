import HexDns.Commands.Escapes

/-! # The segmentation of what a primary sends

`recv` gives at most what has arrived, and the command takes each piece for the whole. Two ways of
cutting one stream are looked at: `handle_recut` says that they leave the same state if no length and no
message that the command reads is cut in either. -/

namespace HexDns.Commands.Segments

open HexDns.Lib.Texts HexDns.Lib.Programs HexDns.Base.Py HexDns.Base.Label HexDns.Base.Message
open HexDns.Commands.TransferSecondary HexDns.Commands.Handle HexDns.Commands.Escapes

variable {py : Python} (lib : Library) (db : Database) (zone : SecondaryZone py)

/-! ### Ways of cutting -/

/-- The same stream, cut in another way. -/
structure SameStream (c c' : Connection) : Prop where
  bytes : c.bytes = c'.bytes
  closes : c.closes = c'.closes
  sendFails : c.sendFails = c'.sendFails

/-- The next `recv` gives what it is asked for, or all that is left. -/
def Gives (n : ℕ) (c : Connection) : Prop := min n c.bytes.length ≤ c.segments.headD n

/-- The next length, and the message after it, are not cut. -/
def Uncut (c : Connection) : Prop :=
  Gives 2 c ∧ ∀ lengthBytes c', c.recv 2 = .ok (lengthBytes, c') → ∀ n, unpack lengthBytes = .ok n →
    Gives n c'

/-- No message of the transfer that the loop comes to is cut, after the messages `ms`. -/
def UncutFrom (root : DnsLabel) : ℕ → List Response → Connection → Prop
  | 0, _, _ => True
  | n + 1, ms, c => Reached lib root ms →
    Uncut c ∧ ∀ m c', nextMessage lib c = .ok (m, c') → UncutFrom root n (ms ++ [m]) c'

/-- **No message that the command reads is cut.** -/
structure Whole (c : Connection) : Prop where
  reply : Uncut c
  transfer : ∀ response c' rr serial, nextMessage lib c = .ok (response, c') → response.rr = [rr] →
    lib.times rr = some serial → some serial ≠ zone.serial →
    ∀ root, DnsLabel.ofText py zone.zoneRoot = .ok root →
      UncutFrom lib root (c'.bytes.length + 1) [] c'

/-- The connection that the command uses. -/
def connection (peer : Peer) : Except PyErr (Option Connection) :=
  peer.addresses.map fun addrs => addrs.findSome? id

/-- The primaries send the same, cut in ways in which no message that the command reads is cut. -/
def Recut (peer peer' : Peer) : Prop :=
  match connection peer, connection peer' with
  | .ok (some c), .ok (some c') => SameStream c c' ∧ Whole lib zone c ∧ Whole lib zone c'
  | .ok none, .ok none => True
  | .error e, .error e' => e = e'
  | _, _ => False

/-! ### Single calls -/

section
variable {lib} {db} {zone} {s : State} {c c' : Connection}

theorem recv_of_gives {n : ℕ} (hn : n ≠ 0) (hg : Gives n c) (hb : c.bytes ≠ []) :
    c.recv n = .ok (c.bytes.take n, { c with bytes := c.bytes.drop n, segments := c.segments.tail }) := by
  have hpos : 0 < c.bytes.length := List.length_pos_of_ne_nil hb
  have hk : min n (max 1 (c.segments.headD n)) = n ∨
      (c.bytes.length ≤ min n (max 1 (c.segments.headD n)) ∧ c.bytes.length ≤ n) := by
    unfold Gives at hg
    omega
  unfold Connection.recv
  rw [if_neg hn, if_neg hb]
  rcases hk with hk | ⟨hk, hk'⟩
  · rw [hk]
  · have htake : c.bytes.take (min n (max 1 (c.segments.headD n))) = c.bytes.take n := by
      rw [List.take_of_length_le hk, List.take_of_length_le hk']
    have hdrop : c.bytes.drop (min n (max 1 (c.segments.headD n))) = c.bytes.drop n := by
      rw [List.drop_of_length_le hk, List.drop_of_length_le hk']
    dsimp only
    rw [htake, hdrop]

/-- What two calls of `recv` on one stream give. -/
def SameReceived : Bytes × Connection → Bytes × Connection → Prop :=
  fun p p' => p.1 = p'.1 ∧ SameStream p.2 p'.2

theorem agreeAt_recv {n : ℕ} (h : SameStream c c') (hg : Gives n c) (hg' : Gives n c') :
    AgreeAt SameReceived (ofResult (c.recv n)) (ofResult (c'.recv n) : Handling _) s := by
  refine agreeAt_ofResult ?_
  by_cases hn : n = 0
  · unfold Connection.recv
    rw [if_pos hn, if_pos hn]
    exact ⟨rfl, h⟩
  by_cases hb : c.bytes = []
  · have hb' : c'.bytes = [] := h.bytes ▸ hb
    unfold Connection.recv
    rw [if_neg hn, if_neg hn, if_pos hb, if_pos hb', h.closes]
    by_cases hc : c'.closes = true
    · rw [if_pos hc, if_pos hc]
      exact ⟨rfl, h⟩
    · rw [if_neg hc, if_neg hc]
  · have hb' : c'.bytes ≠ [] := h.bytes ▸ hb
    rw [recv_of_gives hn hg hb, recv_of_gives hn hg' hb', h.bytes]
    exact ⟨rfl, ⟨rfl, h.closes, h.sendFails⟩⟩

/-- After an incomplete length nothing is left. -/
theorem bytes_of_incomplete (hg : Gives 2 c) {b : Bytes} (h : c.recv 2 = .ok (b, c'))
    (hlen : b.length ≠ 2) : c'.bytes = [] := by
  by_cases hb : c.bytes = []
  · unfold Connection.recv at h
    rw [if_neg (by decide), if_pos hb] at h
    split_ifs at h
    obtain ⟨-, rfl⟩ := Prod.mk.inj (Except.ok.inj h)
    exact hb
  · rw [recv_of_gives (by decide) hg hb] at h
    obtain ⟨rfl, rfl⟩ := Prod.mk.inj (Except.ok.inj h)
    rw [List.length_take] at hlen
    exact List.drop_of_length_le (by omega)

theorem gives_nil {n : ℕ} (h : c.bytes = []) : Gives n c := by
  unfold Gives
  rw [h]
  simp

theorem sendall_same (h : SameStream c c') (n : ℕ) : c.sendall n = c'.sendall n := by
  unfold Connection.sendall
  rw [h.sendFails]

/-! ### Messages -/

theorem ok_of_run_ofResult {α : Type} {x : Except PyErr α} {a : α} {t : State}
    (h : run (ofResult x : Handling α) s = (.ok a, t)) : x = .ok a ∧ t = s := by
  rw [run_ofResult] at h
  obtain ⟨h1, h2⟩ := Prod.mk.inj h
  exact ⟨h1, h2.symm⟩

/-- What two receptions on one stream give. -/
def SameMessage : Response × Connection → Response × Connection → Prop :=
  fun p p' => p.1 = p'.1 ∧ SameStream p.2 p'.2

theorem agreeAt_parse (b : Bytes) {d d' : Connection} (h : SameStream d d') : AgreeAt SameMessage
    (ofResult (lib.parse b) >>= fun response => pure (response, d) : Handling (Response × Connection))
    (ofResult (lib.parse b) >>= fun response => pure (response, d') : Handling (Response × Connection)) s :=
  agreeAt_step fun _ _ _ => agreeAt_ok ⟨rfl, h⟩

theorem agreeAt_receiveMessage (h : SameStream c c') (hu : Uncut c) (hu' : Uncut c') :
    AgreeAt SameMessage (receiveMessage lib c) (receiveMessage lib c') s := by
  unfold receiveMessage
  refine (agreeAt_recv h hu.1 hu'.1).bind ?_
  rintro ⟨b, d⟩ ⟨b', d'⟩ t ht ht' ⟨hb, hd⟩
  obtain rfl : b = b' := hb
  refine agreeAt_step fun n t1 hn => agreeAt_step fun _ t2 _ => ?_
  have hn : unpack b = .ok n := (ok_of_run_ofResult hn).1
  have hg : Gives n d := hu.2 b d (ok_of_run_ofResult ht).1 n hn
  have hg' : Gives n d' := hu'.2 b d' (ok_of_run_ofResult ht').1 n hn
  refine (agreeAt_recv hd hg hg').bind ?_
  rintro ⟨body, d1⟩ ⟨body', d1'⟩ t3 _ _ ⟨hbody, hd1⟩
  obtain rfl : body = body' := hbody
  exact agreeAt_parse body hd1

theorem responseLen_setLength {b : Bytes} {n : ℕ} {t : State} (hn : unpack b = .ok n)
    (h : run (setLength b) s = (.ok (), t)) : t.responseLen = some n := by
  unfold setLength at h
  rw [hn] at h
  obtain ⟨-, rfl⟩ := Prod.mk.inj h
  rfl

theorem agreeAt_soaResponse (h : SameStream c c') (hu : Uncut c) (hu' : Uncut c') :
    AgreeAt SameMessage (soaResponse lib c) (soaResponse lib c') s := by
  unfold soaResponse
  refine (agreeAt_recv h hu.1 hu'.1).bind ?_
  rintro ⟨b, d⟩ ⟨b', d'⟩ t ht ht' ⟨hb, hd⟩
  obtain rfl : b = b' := hb
  have hrecv : c.recv 2 = .ok (b, d) := (ok_of_run_ofResult ht).1
  have hrecv' : c'.recv 2 = .ok (b, d') := (ok_of_run_ofResult ht').1
  refine agreeAt_step fun _ t1 hset => agreeAt_step fun s1 t2 hget => agreeAt_step fun n t3 hn => ?_
  have hs1 : s1 = t1 := (Except.ok.inj (Prod.mk.inj hget).1).symm
  have hn : s1.responseLen.elim (.error PyErr.other) .ok = Except.ok n := (ok_of_run_ofResult hn).1
  have hg : Gives n d ∧ Gives n d' := by
    rcases hu2 : unpack b with e | n'
    · -- nothing is left, whatever `response_len` is
      have hlen : b.length ≠ 2 := by
        intro h2
        obtain ⟨n', hn'⟩ := unpack_eq_ok.mpr h2
        rw [hn'] at hu2
        cases hu2
      exact ⟨gives_nil (bytes_of_incomplete hu.1 hrecv hlen), gives_nil (bytes_of_incomplete hu'.1 hrecv' hlen)⟩
    · rw [hs1, responseLen_setLength hu2 hset] at hn
      obtain rfl : n' = n := Except.ok.inj hn
      exact ⟨hu.2 b d hrecv n' hu2, hu'.2 b d' hrecv' n' hu2⟩
  refine (agreeAt_recv hd hg.1 hg.2).bind ?_
  rintro ⟨body, d1⟩ ⟨body', d1'⟩ t4 _ _ ⟨hbody, hd1⟩
  obtain rfl : body = body' := hbody
  exact agreeAt_parse body hd1

/-! ### The loop -/

theorem nextMessage_of_run {m : Response} {d : Connection} {t : State}
    (h : run (receiveMessage lib c) s = (.ok (m, d), t)) : nextMessage lib c = .ok (m, d) := by
  obtain ⟨len, hrun⟩ := run_receiveMessage lib s c
  rw [hrun] at h
  exact (Prod.mk.inj h).1

/-- **The loop** ends alike on one stream. -/
theorem run_axfrLoop_congr {root : DnsLabel} (hroot : DnsLabel.ofText py zone.zoneRoot = .ok root)
    (n : ℕ) {p : Progress py} (hp : Reads lib.toDnslib root zone p) (hreached : Reached lib root p.messages)
    (h : SameStream c c') (hu : UncutFrom lib root n p.messages c)
    (hu' : UncutFrom lib root n p.messages c') :
    run (axfrLoop lib db zone n c p.seenSoa p.rrs) s = run (axfrLoop lib db zone n c' p.seenSoa p.rrs) s := by
  induction n generalizing c c' p s with
  | zero => rfl
  | succ n ih =>
    obtain ⟨huncut, hnext⟩ := hu hreached
    obtain ⟨huncut', hnext'⟩ := hu' hreached
    unfold axfrLoop
    refine agreeAt_eq.mp ((agreeAt_receiveMessage h huncut huncut').bind ?_)
    rintro ⟨m, d⟩ ⟨m', d'⟩ t ht ht' ⟨hm, hd⟩
    obtain rfl : m = m' := hm
    have hu : UncutFrom lib root n (p.messages ++ [m]) d := hnext m d (nextMessage_of_run ht)
    have hu' : UncutFrom lib root n (p.messages ++ [m]) d' := hnext' m d' (nextMessage_of_run ht')
    dsimp only
    by_cases hno : m.rcode = noerror
    · have hno' : ¬ m.rcode ≠ noerror := not_not_intro hno
      rw [if_neg hno', if_neg hno', hroot, hp.nextRrs hno]
      refine agreeAt_step fun x t1 hx => ?_
      rcases htexts : (kept root 0 (stream (p.messages ++ [m]))).mapM lib.toZone with e | texts
      · rw [htexts] at hx
        cases (ok_of_run_ofResult hx).1
      rw [htexts] at hx
      obtain rfl := Except.ok.inj (ok_of_run_ofResult hx).1
      dsimp only
      by_cases h2 : countSoa root (stream (p.messages ++ [m])) ≥ 2
      · rw [if_pos h2, if_pos h2]
        exact agreeAt_eq.mpr rfl
      · have hlt : countSoa root (stream (p.messages ++ [m])) < 2 := by omega
        rw [if_neg h2, if_neg h2]
        exact agreeAt_eq.mpr (ih (hp.next htexts) (hreached.next hno htexts hlt) hd hu hu')
    · rw [if_pos hno, if_pos hno]
      refine agreeAt_step fun text t1 htext => agreeAt_step fun _ t2 _ => ?_
      have htext : lib.rcodeText m.rcode = .ok text := (ok_of_run_ofResult htext).1
      have hrest := ih (s := t2) (hp.error hno text) (hreached.error hno htext) hd hu hu'
      exact agreeAt_eq.mpr hrest

/-! ### The command -/

theorem run_orNext_congr {α β : Type} {R : Option α → Option β → Prop} {caught : PyErr → Bool}
    {m : Handling (Option α)} {m' : Handling (Option β)} (hnone : R none none) (h : AgreeAt R m m' s) :
    AgreeAt R (orNext db zone caught m) (orNext db zone caught m') s := by
  unfold orNext
  refine agreeAt_tryCatch h fun e t => ?_
  by_cases he : caught e = true
  · rw [if_pos he, if_pos he]
    exact agreeAt_step fun _ _ _ => agreeAt_ok hnone
  · rw [if_neg he, if_neg he]
    exact agreeAt_error e

theorem run_transfer_congr (serial : ℕ) (h : SameStream c c')
    (hu : ∀ root, DnsLabel.ofText py zone.zoneRoot = .ok root →
      UncutFrom lib root (c.bytes.length + 1) [] c)
    (hu' : ∀ root, DnsLabel.ofText py zone.zoneRoot = .ok root →
      UncutFrom lib root (c'.bytes.length + 1) [] c') :
    run (transfer lib db zone serial c) s = run (transfer lib db zone serial c') s := by
  have hquery : AgreeAt Eq (axfrQuery lib db zone c) (axfrQuery lib db zone c') s := by
    unfold axfrQuery
    refine agreeAt_step fun u t1 hquestion => ?_
    obtain ⟨root, hroot, -⟩ := bind_eq_ok.mp (ok_of_run_ofResult hquestion).1
    rw [← sendall_same h 2, ← sendall_same h 3]
    refine agreeAt_step fun _ t2 _ => agreeAt_step fun _ t3 _ => ?_
    have hstart : Reads lib.toDnslib root zone ⟨[], 0, [], zone⟩ := ⟨rfl, rfl, rfl, rfl⟩
    have hu' := hu' root hroot
    rw [← h.bytes] at hu' ⊢
    refine (agreeAt_eq.mpr (run_axfrLoop_congr hroot _ hstart (reached_nil root) h (hu root hroot) hu')).bind ?_
    rintro p _ t4 - - rfl
    exact agreeAt_eq.mpr rfl
  unfold transfer
  refine agreeAt_eq.mp ((run_orNext_congr rfl hquery).bind ?_)
  rintro p _ t - - rfl
  exact agreeAt_eq.mpr rfl

theorem nextMessage_of_answer {len : Option ℕ} {response : Response} {b : Bytes} {d : Connection}
    (hrecv : c.recv 2 = .ok (b, d)) (hlen : b.length = 2) {d' : Connection}
    (h : answer lib len c = .ok (response, d')) : nextMessage lib c = .ok (response, d') := by
  obtain ⟨n, hn⟩ := unpack_eq_ok.mpr hlen
  rw [← h]
  unfold nextMessage answer
  rw [hrecv]
  show (unpack b).bind _ = (lengthOr len b).bind _
  have hlength : lengthOr len b = .ok n := by
    unfold lengthOr
    rw [hn]
  rw [hlength, hn]

/-- Nothing is cut where nothing is left. -/
theorem uncutFrom_nil (root : DnsLabel) (n : ℕ) (ms : List Response) (h : c.bytes = []) :
    UncutFrom lib root n ms c := by
  rcases n with _ | n
  · exact trivial
  have hshort : ∀ b d, c.recv 2 = .ok (b, d) → b = [] := by
    intro b d hb
    unfold Connection.recv at hb
    rw [if_neg (by decide), if_pos h] at hb
    split_ifs at hb
    exact (Prod.mk.inj (Except.ok.inj hb)).1.symm
  refine fun _ => ⟨⟨gives_nil h, fun b d hb n hn => ?_⟩, fun m d hm => ?_⟩
  · rw [hshort b d hb] at hn
    cases hn
  · obtain ⟨⟨b, d'⟩, hb, hrest⟩ := bind_eq_ok.mp hm
    obtain ⟨n, hn, -⟩ := bind_eq_ok.mp hrest
    rw [hshort b d' hb] at hn
    cases hn

/-- What is left after the answer is not cut. -/
theorem Whole.after (hw : Whole lib zone c) {len : Option ℕ} {response : Response} {d : Connection}
    (h : answer lib len c = .ok (response, d)) {rr : Rr} {serial : ℕ} (hrr : response.rr = [rr])
    (htimes : lib.times rr = some serial) (hserial : some serial ≠ zone.serial) (root : DnsLabel)
    (hroot : DnsLabel.ofText py zone.zoneRoot = .ok root) :
    UncutFrom lib root (d.bytes.length + 1) [] d := by
  obtain ⟨⟨b, d1⟩, hrecv, hrest⟩ := bind_eq_ok.mp h
  by_cases hlen : b.length = 2
  · exact hw.transfer response d rr serial (nextMessage_of_answer hrecv hlen h) hrr htimes hserial root hroot
  · have hnil : d1.bytes = [] := bytes_of_incomplete hw.reply.1 hrecv hlen
    obtain ⟨n, -, hrest⟩ := bind_eq_ok.mp hrest
    obtain ⟨⟨body, d2⟩, hbody, hrest⟩ := bind_eq_ok.mp hrest
    obtain ⟨response', -, hd⟩ := bind_eq_ok.mp hrest
    obtain ⟨-, rfl⟩ := Prod.mk.inj (Except.ok.inj hd)
    refine uncutFrom_nil root _ _ ?_
    unfold Connection.recv at hbody
    rw [if_pos hnil] at hbody
    split_ifs at hbody
    · obtain ⟨-, rfl⟩ := Prod.mk.inj (Except.ok.inj hbody)
      exact hnil
    · obtain ⟨-, rfl⟩ := Prod.mk.inj (Except.ok.inj hbody)
      exact hnil

/-- What two SOA queries on one stream give: one serial, and connections on which the transfer ends
alike. -/
def SameAnswer (lib : Library) (zone : SecondaryZone py) :
    Option (ℕ × Connection) → Option (ℕ × Connection) → Prop
  | some (serial, c), some (serial', c') => serial = serial' ∧ SameStream c c' ∧
    (∀ root, DnsLabel.ofText py zone.zoneRoot = .ok root → UncutFrom lib root (c.bytes.length + 1) [] c) ∧
    ∀ root, DnsLabel.ofText py zone.zoneRoot = .ok root → UncutFrom lib root (c'.bytes.length + 1) [] c'
  | none, none => True
  | _, _ => False

theorem serial_of_checkSerial {response : Response} {serial : ℕ} {t : State}
    (h : run (checkSerial lib db zone response) s = (.ok (some serial), t)) :
    ∃ rr, response.rr = [rr] ∧ lib.times rr = some serial ∧ some serial ≠ zone.serial := by
  by_cases hone : ∃ rr, response.rr = [rr]
  · obtain ⟨rr, hrr⟩ := hone
    rw [checkSerial_of_one hrr] at h
    rcases htimes : lib.times rr with _ | serial'
    · rw [htimes] at h
      cases h
    rw [htimes] at h
    dsimp only at h
    by_cases hserial : some serial' = zone.serial
    · rw [if_pos hserial] at h
      obtain ⟨u, t', -, h⟩ := run_bind_eq_ok.mp h
      cases h
    · rw [if_neg hserial] at h
      obtain rfl := Option.some.inj (Except.ok.inj (Prod.mk.inj h).1)
      exact ⟨rr, hrr, htimes, hserial⟩
  · rw [checkSerial_of_not_one fun rr h => hone ⟨rr, h⟩] at h
    obtain ⟨u, t', -, h⟩ := run_bind_eq_ok.mp h
    cases h

theorem agreeAt_soaQuery (h : SameStream c c') (hw : Whole lib zone c) (hw' : Whole lib zone c') :
    AgreeAt (SameAnswer lib zone) (soaQuery lib db zone c) (soaQuery lib db zone c') s := by
  unfold soaQuery
  rw [← sendall_same h 0, ← sendall_same h 1]
  refine agreeAt_step fun _ t1 _ => agreeAt_step fun _ t2 _ => agreeAt_step fun _ t3 _ => ?_
  refine (agreeAt_soaResponse h hw.reply hw'.reply).bind ?_
  rintro ⟨response, d⟩ ⟨response', d'⟩ t ht ht' ⟨hresponse, hd⟩
  obtain rfl : response = response' := hresponse
  obtain ⟨len, hrun⟩ := run_soaResponse lib t3 c
  obtain ⟨len', hrun'⟩ := run_soaResponse lib t3 c'
  have hanswer : answer lib t3.responseLen c = .ok (response, d) :=
    (Prod.mk.inj (hrun.symm.trans ht)).1
  have hanswer' : answer lib t3.responseLen c' = .ok (response, d') :=
    (Prod.mk.inj (hrun'.symm.trans ht')).1
  refine agreeAt_step fun serial t4 hserial => ?_
  rcases serial with _ | serial
  · exact agreeAt_ok trivial
  obtain ⟨rr, hrr, htimes, hne⟩ := serial_of_checkSerial hserial
  exact agreeAt_ok ⟨rfl, hd, hw.after hanswer hrr htimes hne, hw'.after hanswer' hrr htimes hne⟩

theorem run_sync_congr (h : SameStream c c') (hw : Whole lib zone c) (hw' : Whole lib zone c') :
    run (sync lib db zone c) s = run (sync lib db zone c') s := by
  unfold sync
  refine agreeAt_eq.mp ((run_orNext_congr trivial (agreeAt_soaQuery h hw hw')).bind ?_)
  rintro (_ | ⟨serial, d⟩) (_ | ⟨serial', d'⟩) t - - hR
  · exact agreeAt_eq.mpr rfl
  · exact hR.elim
  · exact hR.elim
  · obtain ⟨hserial, hd, hu, hu'⟩ := hR
    obtain rfl : serial = serial' := hserial
    exact agreeAt_eq.mpr (run_transfer_congr serial hd hu hu')

theorem handleZone_eq (peer : Peer) : handleZone lib db zone peer = (do
    modify fun s => { s with errorMessage := zone.errorMessage }
    match connection peer with
    | .error e => if e = .osError then fail db zone (cantResolve zone.primary) else throw e
    | .ok none => fail db zone (cantConnect zone.primary)
    | .ok (some c) => sync lib db zone c) := by
  unfold handleZone connection
  rcases peer.addresses with e | addrs
  · rfl
  · simp only [Except.map]
    rcases addrs.findSome? id with _ | c <;> rfl

theorem run_handleZone_congr {peer peer' : Peer} (h : Recut lib zone peer peer') :
    run (handleZone lib db zone peer) s = run (handleZone lib db zone peer') s := by
  unfold Recut at h
  rw [handleZone_eq, handleZone_eq, run_bind_ok (run_modify _ s), run_bind_ok (run_modify _ s)]
  revert h
  rcases connection peer with e | _ | c <;> rcases connection peer' with e' | _ | c' <;> intro h
  case error.error =>
    obtain rfl : e = e' := h
    rfl
  case ok.none.ok.none => rfl
  case ok.some.ok.some =>
    obtain ⟨hsame, hw, hw'⟩ := h
    exact run_sync_congr hsame hw hw'
  all_goals exact h.elim

end

/-- **The segmentation does not matter** if no message that the command reads is cut: the runs leave the
same records, serials and error states, and raise the same exception if one does. -/
theorem handle_recut {zones zones' : List (SecondaryZone py × Peer)}
    (h : List.Forall₂ (fun z z' => z.1 = z'.1 ∧ Recut lib z.1 z.2 z'.2) zones zones') (s : State) :
    run (handle lib db zones) s = run (handle lib db zones') s := by
  unfold handle
  refine run_runAll_congr ?_ h s
  rintro ⟨zone, peer⟩ ⟨zone', peer'⟩ s ⟨hzone, hrecut⟩
  obtain rfl : zone = zone' := hzone
  exact run_handleZone_congr hrecut

/-- A primary that sends a message of one byte, in pieces of these lengths. -/
def oneByte (segments : List ℕ) : Peer := ⟨.ok [some ⟨[0, 1, 7], segments, true, none⟩]⟩

/-- The message comes as a whole, or the length comes first. -/
theorem handle_recut_oneByte :
    run (handle exampleLibrary (fun _ _ => none) [(exampleZone, oneByte [3])]) exampleState =
      run (handle exampleLibrary (fun _ _ => none) [(exampleZone, oneByte [2, 1])]) exampleState := by
  have hnext : ∀ segments, ∀ x, nextMessage exampleLibrary ⟨[0, 1, 7], segments, true, none⟩ ≠ .ok x := by
    intro segments x h
    obtain ⟨⟨b, d⟩, -, h⟩ := bind_eq_ok.mp h
    obtain ⟨n, -, h⟩ := bind_eq_ok.mp h
    obtain ⟨⟨b', d'⟩, -, h⟩ := bind_eq_ok.mp h
    obtain ⟨m, hm, -⟩ := bind_eq_ok.mp h
    cases hm
  have hwhole : ∀ segments, segments = [3] ∨ segments = [2, 1] →
      Whole exampleLibrary exampleZone ⟨[0, 1, 7], segments, true, none⟩ := by
    intro segments hsegments
    have hgives : Gives 2 ⟨[0, 1, 7], segments, true, none⟩ := by
      rcases hsegments with rfl | rfl <;> simp [Gives]
    refine ⟨⟨hgives, fun b d hb n hn => ?_⟩, fun response d _ _ h => absurd h (hnext segments _)⟩
    rw [recv_of_gives (by decide) hgives nofun] at hb
    obtain ⟨rfl, rfl⟩ := Prod.mk.inj (Except.ok.inj hb)
    have hlength : unpack (List.take 2 [0, 1, 7]) = .ok 1 := by decide
    dsimp only at hn
    rw [hlength] at hn
    obtain rfl := Except.ok.inj hn
    rcases hsegments with rfl | rfl <;> simp [Gives]
  have hrecut : Recut exampleLibrary exampleZone (oneByte [3]) (oneByte [2, 1]) :=
    ⟨⟨rfl, rfl, rfl⟩, hwhole _ (Or.inl rfl), hwhole _ (Or.inr rfl)⟩
  have hall : List.Forall₂ (fun z z' => z.1 = z'.1 ∧ Recut exampleLibrary z.1 z.2 z'.2)
      [(exampleZone, oneByte [3])] [(exampleZone, oneByte [2, 1])] :=
    List.Forall₂.cons ⟨Eq.refl exampleZone, hrecut⟩ List.Forall₂.nil
  exact handle_recut exampleLibrary (fun _ _ => none) hall exampleState

/-- **The length of an empty message comes in two pieces**: the `UnboundLocalError` leaves the zone as
it is, while the message that comes as a whole is an error of the zone. -/
theorem not_recut_length :
    (run (handle exampleLibrary (fun _ _ => none)
      [(exampleZone, ⟨.ok [some ⟨[0, 0], [1, 1], true, none⟩]⟩)]) exampleState).2.rows 1 ≠
    (run (handle exampleLibrary (fun _ _ => none)
      [(exampleZone, ⟨.ok [some ⟨[0, 0], [2], true, none⟩]⟩)]) exampleState).2.rows 1 := by
  decide

end HexDns.Commands.Segments
