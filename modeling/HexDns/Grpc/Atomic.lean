import HexDns.Grpc.Confined

/-! # Updates that fail half way

RFC 2136 has an update done as a whole or not at all, and the prescan is there so that an update
section that cannot be done is refused before the first write. The loop after it can still stop: the
secret may not manage a name, a row cannot be decoded, the database refuses a row. What it has
written by then stays. `allOrNothing_iff` says in which updates this leaves no trace. -/

namespace HexDns.Grpc.Atomic

open HexDns.Lib.Texts HexDns.Lib.Tables HexDns.Lib.Programs HexDns.Base.Py HexDns.Base.Label
  HexDns.Base.Message HexDns.Models.Db HexDns.Models.Env HexDns.Models.Convert
  HexDns.Grpc.FindZone HexDns.Grpc.Records HexDns.Grpc.Tsig HexDns.Grpc.Update HexDns.Grpc.Steps
  HexDns.Grpc.Confined

section
variable (h : Host) (st : Store) (tsigKey : UpdateSecret) (zone : Zone) (zoneName : DnsLabel)
  (rr : Rr)

/-- **An update that is answered with another code than `NOERROR` leaves the record rows as they
were.** -/
def AllOrNothing (now : ℕ) (msg : Bytes) : Prop :=
  ∀ res, (updateQuery h now msg st).1 = .ok res → res.rcode ≠ .noerror →
    ∀ r, r ∈ (updateQuery h now msg st).2.records ↔ r ∈ st.records

/-- The update loop stops at a record: the addition finds out something that it cannot handle or that
the secret may not do, or makes a row that the database refuses; or the deletion comes to such a
row. -/
def Stops : Prop :=
  let recordName := rr.rname.stripSuffix zoneName
  match rr.rclass with
  | .in =>
    match addition h st tsigKey zone recordName rr with
    | .error _ => True
    | .ok a => ∃ row e, a.row = some row ∧ saved h row = .error e
  | .other _ => False
  | _ => ∃ stop, (deletions h st tsigKey zone recordName rr).2 = .error stop

/-- The rows that a record deletes, up to the one where it stops. -/
def swept : List Row :=
  match rr.rclass with
  | .in | .other _ => []
  | _ => (deletions h st tsigKey zone (rr.rname.stripSuffix zoneName) rr).1

end

variable {h : Host} {st st' : Store} {tsigKey : UpdateSecret} {zone : Zone} {zoneName : DnsLabel}
  {rr : Rr}

/-! ### One record -/

theorem records_saveStore_error {row : Row} {e : PyErr} (hs : saved h row = .error e) :
    (saveStore h st row).records = st.records := by
  unfold saveStore
  rw [hs]; rfl

theorem added_none {a : Addition} (hrow : a.row = none) :
    added h st (.ok a) = (.ok (), st) := by
  simp only [added, hrow]

theorem added_error {a : Addition} {row : Row} {e : PyErr} (hrow : a.row = some row)
    (hs : saved h row = .error e) :
    added h st (.ok a) = (.error (.raised e), saveStore h st row) := by
  simp only [added, hrow, hs]
  rfl

theorem added_ok {a : Addition} {row row' : Row} (hrow : a.row = some row)
    (hs : saved h row = .ok row') : added h st (.ok a) = (.ok (), saveStore h st row) := by
  simp only [added, hrow, hs]
  rfl

theorem stops_iff : Stops h st tsigKey zone zoneName rr ↔
    ∃ stop st', step h tsigKey zone zoneName st rr = (.error stop, st') := by
  unfold Stops step
  rcases rr.rclass with _ | _ | _ | c
  · dsimp only
    rcases addition h st tsigKey zone (rr.rname.stripSuffix zoneName) rr with stop | a
    · exact iff_of_true trivial ⟨stop, st, rfl⟩
    dsimp only
    rcases hrow : a.row with _ | row
    · rw [added_none hrow]
      simp
    rcases hs : saved h row with e | row'
    · rw [added_error hrow hs]
      exact iff_of_true ⟨row, e, rfl, hs⟩ ⟨.raised e, saveStore h st row, rfl⟩
    · rw [added_ok hrow hs]
      refine iff_of_false ?_ ?_
      · rintro ⟨_, e, heq, he⟩
        cases heq
        rw [hs] at he; cases he
      · rintro ⟨stop, st', heq⟩
        cases heq
  · simp
  · simp
  · simp

/-- A record that stops leaves the rows that it has not deleted. -/
theorem mem_records_of_stop {stop : Stop} (hst : step h tsigKey zone zoneName st rr = (.error stop, st'))
    {r : Row} : r ∈ st'.records ↔ r ∈ st.records ∧ r ∉ swept h st tsigKey zone zoneName rr := by
  have hdel : ∀ recordName, (deletions h st tsigKey zone recordName rr).1.foldl deleteStore st = st' →
      (r ∈ st'.records ↔
        r ∈ st.records ∧ r ∉ (deletions h st tsigKey zone recordName rr).1) := by
    rintro recordName rfl
    exact mem_after_deletions
  unfold step at hst
  unfold swept
  rcases hclass : rr.rclass with _ | _ | _ | c
  · rw [hclass] at hst
    dsimp only at hst
    simp only [List.not_mem_nil, not_false_iff, and_true]
    rcases ha : addition h st tsigKey zone (rr.rname.stripSuffix zoneName) rr with stop' | a
    · rw [ha] at hst; cases hst; rfl
    rw [ha] at hst
    rcases hrow : a.row with _ | row
    · rw [added_none hrow] at hst; cases hst
    rcases hs : saved h row with e | row'
    · rw [added_error hrow hs] at hst
      obtain ⟨-, rfl⟩ := Prod.mk.inj hst
      rw [records_saveStore_error hs]
    · rw [added_ok hrow hs] at hst; cases hst
  · rw [hclass] at hst
    exact hdel _ (Prod.mk.inj hst).2
  · rw [hclass] at hst
    exact hdel _ (Prod.mk.inj hst).2
  · rw [hclass] at hst; cases hst

/-! ### The codes of a loop that stops -/

theorem managed_rcode {recordName : DnsLabel} {t : QType} {c : Rcode}
    (hm : managed h tsigKey recordName t = .error (.rcode c)) : c = .notauth := by
  unfold managed at hm
  rcases hc : canManage h tsigKey t recordName with e | (_ | _)
  · rw [hc] at hm; cases hm
  · rw [hc] at hm; cases hm; rfl
  · rw [hc] at hm; cases hm

theorem decision_rcode {recordName : DnsLabel} {r : Row} {c : Rcode}
    (hd : decision h tsigKey recordName rr r = .error (.rcode c)) : c = .notauth := by
  unfold decision decideRow at hd
  rcases hrr : toRr h r rr.rname with e | _ | recordRr
  · rw [hrr] at hd; cases hd
  · rw [hrr] at hd; cases hd
  rw [hrr] at hd
  dsimp only at hd
  split_ifs at hd
  exact managed_rcode hd

theorem sweep_error {d : Row → Except Stop Bool} {rows : List Row} {stop : Stop}
    (hs : (sweep d rows).2 = .error stop) : ∃ r ∈ rows, d r = .error stop := by
  induction rows with
  | nil => cases hs
  | cons r rows ih =>
    rw [sweep_cons] at hs
    rcases hd : d r with e | (_ | _)
    · rw [hd] at hs
      cases hs
      exact ⟨r, List.mem_cons_self, hd⟩
    · rw [hd] at hs
      obtain ⟨x, hx, hdx⟩ := ih hs
      exact ⟨x, List.mem_cons_of_mem _ hx, hdx⟩
    · rw [hd] at hs
      obtain ⟨x, hx, hdx⟩ := ih hs
      exact ⟨x, List.mem_cons_of_mem _ hx, hdx⟩

theorem deletions_rcode {recordName : DnsLabel} {c : Rcode}
    (hd : (deletions h st tsigKey zone recordName rr).2 = .error (.rcode c)) : c = .notauth := by
  unfold deletions at hd
  rcases hs : recordName.searchName with e | s
  · rw [hs] at hd; cases hd
  rw [hs] at hd
  dsimp only at hd
  split_ifs at hd
  · obtain ⟨r, -, hr⟩ := sweep_error hd
    exact decision_rcode hr
  · rcases hm : managed h tsigKey recordName rr.rtype with stop | b
    · rw [hm] at hd
      cases hd
      exact managed_rcode hm
    · rw [hm] at hd
      obtain ⟨r, -, hr⟩ := sweep_error hd
      exact decision_rcode hr

theorem addition_rcode {recordName : DnsLabel} {c : Rcode}
    (ha : addition h st tsigKey zone recordName rr = .error (.rcode c)) : c = .notauth := by
  rcases addition_cases (h := h) st tsigKey zone recordName rr with ⟨stop, hman, hstop⟩ | ⟨e, hraised⟩ | ⟨-, hnothing⟩ |
    ⟨m, columns, made, records, found, -, hwrite⟩
  · obtain rfl := Except.error.inj (ha.symm.trans hstop)
    exact managed_rcode hman
  · cases ha.symm.trans hraised
  · cases ha.symm.trans hnothing
  · cases ha.symm.trans hwrite

theorem step_rcode {c : Rcode} (hst : step h tsigKey zone zoneName st rr = (.error (.rcode c), st')) :
    c = .notauth := by
  unfold step at hst
  rcases hclass : rr.rclass with _ | _ | _ | c'
  · rw [hclass] at hst
    dsimp only at hst
    rcases ha : addition h st tsigKey zone (rr.rname.stripSuffix zoneName) rr with stop | a
    · rw [ha] at hst
      obtain ⟨hstop, -⟩ := Prod.mk.inj hst
      cases hstop
      exact addition_rcode ha
    rw [ha] at hst
    rcases hrow : a.row with _ | row
    · rw [added_none hrow] at hst; cases hst
    rcases hs : saved h row with e | row'
    · rw [added_error hrow hs] at hst; cases hst
    · rw [added_ok hrow hs] at hst; cases hst
  · rw [hclass] at hst
    exact deletions_rcode (Prod.mk.inj hst).1
  · rw [hclass] at hst
    exact deletions_rcode (Prod.mk.inj hst).1
  · rw [hclass] at hst; cases hst

/-! ### The message -/

theorem rcode_respond {now : ℕ} {dnsReq : DnsRecord} {inc : Incoming} {c : Rcode} {answers : List Rr}
    {res : Response} (hr : respond h now dnsReq inc c answers = .ok res) : res.rcode = c := by
  unfold respond signResp at hr
  obtain ⟨_, -, hr⟩ := bind_eq_ok.mp hr
  obtain ⟨_, -, hr⟩ := bind_eq_ok.mp hr
  obtain ⟨_, -, hr⟩ := bind_eq_ok.mp hr
  cases hr
  rfl

section
variable {now : ℕ} {msg : Bytes} {dnsReq : DnsRecord} {adm : Admitted}

/-- The response to an admitted request whose loop stops has another code than `NOERROR`. -/
theorem updateQuery_of_stop (hparse : h.parse msg = .ok dnsReq)
    (ha : admission h now st dnsReq = .ok adm) {stop : Stop}
    (hrun : run (updateLoop h adm.inc.tsigKey adm.zone adm.zoneName dnsReq.auth) st =
      (.error stop, st')) :
    ∃ res, (updateQuery h now msg st) = (.ok res, st') ∧ res.rcode ≠ .noerror := by
  have hne : ∀ c, stop = .rcode c → c ≠ .noerror := by
    rintro c rfl
    obtain ⟨rr, st₁, -, hstep⟩ := (run_updateLoop_error (admission_eq_ok ha).2.2).mp hrun
    rw [step_rcode hstep]; decide
  have hh : handleUpdateQuery h now dnsReq st =
      (respondStop h now dnsReq adm.inc adm.answers stop, st') := by
    unfold handleUpdateQuery
    rw [ha]
    dsimp only
    rw [hrun]
  unfold updateQuery
  rw [hparse]
  dsimp only
  rw [hh]
  rcases hr : respondStop h now dnsReq adm.inc adm.answers stop with e | res
  · exact ⟨_, rfl, show Rcode.servfail ≠ Rcode.noerror by decide⟩
  · refine ⟨res, rfl, ?_⟩
    rcases stop with c | e
    · rw [rcode_respond hr]; exact hne c rfl
    · cases hr

/-- The response to an admitted request whose loop comes to its end. -/
theorem updateQuery_of_ok (hparse : h.parse msg = .ok dnsReq)
    (ha : admission h now st dnsReq = .ok adm)
    (hrun : run (updateLoop h adm.inc.tsigKey adm.zone adm.zoneName dnsReq.auth) st = (.ok (), st')) :
    updateQuery h now msg st =
      (match respond h now dnsReq adm.inc .noerror adm.answers with
        | .ok res => .ok res
        | .error _ => .ok (reply dnsReq .servfail), st') := by
  have hh : handleUpdateQuery h now dnsReq st =
      (respond h now dnsReq adm.inc .noerror adm.answers, st') := by
    unfold handleUpdateQuery
    rw [ha]
    dsimp only
    rw [hrun]
  unfold updateQuery
  rw [hparse]
  dsimp only
  rw [hh]
  rcases respond h now dnsReq adm.inc .noerror adm.answers with e | res <;> rfl

end

/-- The message is an update of one record that is answered with `NOERROR`, and this is the database
after it. -/
structure Accepted (h : Host) (now : ℕ) (msg : Bytes) (st : Store) (adm : Admitted) (rr : Rr)
    (st' : Store) : Prop where
  request : ∃ dnsReq, h.parse msg = .ok dnsReq ∧ dnsReq.auth = [rr] ∧
    admission h now st dnsReq = .ok adm
  answer : ∃ res, updateQuery h now msg st = (.ok res, st') ∧ res.rcode = .noerror

/-- An accepted record has been gone through to the end. -/
theorem Accepted.step {h : Host} {now : ℕ} {msg : Bytes} {st st' : Store} {adm : Admitted} {rr : Rr}
    (ha : Accepted h now msg st adm rr st') :
    step h adm.inc.tsigKey adm.zone adm.zoneName st rr = (.ok (), st') ∧
      prescanRr adm.zoneName rr = none := by
  obtain ⟨dnsReq, hparse, hauth, hadm⟩ := ha.request
  obtain ⟨res, hres, hcode⟩ := ha.answer
  have hpre := (admission_eq_ok hadm).2.2
  rw [hauth] at hpre
  refine ⟨?_, prescanRr_of_prescan hpre List.mem_cons_self⟩
  have hloop : run (updateLoop h adm.inc.tsigKey adm.zone adm.zoneName [rr]) st = _ :=
    run_updateLoop_cons hpre st
  rcases hstep : Steps.step h adm.inc.tsigKey adm.zone adm.zoneName st rr with ⟨stop | ⟨⟩, st₁⟩
  · rw [hstep, ← hauth] at hloop
    obtain ⟨res', hres', hne⟩ := updateQuery_of_stop hparse hadm hloop
    rw [hres] at hres'
    obtain rfl := Except.ok.inj (Prod.mk.inj hres').1
    exact absurd hcode hne
  · rw [hstep, ← hauth] at hloop
    have hend := updateQuery_of_ok hparse hadm (show run _ st = (.ok (), st₁) from hloop)
    rw [hres] at hend
    rw [(Prod.mk.inj hend).2]

/-- A message is accepted if it is found to be. -/
theorem exists_accepted {h : Host} {now : ℕ} {msg : Bytes} {st : Store} {rr : Rr} {zone : Zone}
    {zoneName : DnsLabel} {tsigKey : UpdateSecret}
    (hadm : ((h.parse msg).map fun dnsReq => (dnsReq.auth, (admission h now st dnsReq).map fun adm =>
      (adm.zone, adm.zoneName, adm.inc.tsigKey))) = .ok ([rr], .ok (zone, zoneName, tsigKey)))
    (hcode : (updateQuery h now msg st).1.map (·.rcode) = .ok .noerror) :
    ∃ adm, Accepted h now msg st adm rr (updateQuery h now msg st).2 ∧ adm.zone = zone ∧
      adm.zoneName = zoneName ∧ adm.inc.tsigKey = tsigKey := by
  rcases hparse : h.parse msg with e | dnsReq
  · rw [hparse] at hadm; cases hadm
  rw [hparse] at hadm
  obtain ⟨hauth, hadm⟩ := Prod.mk.inj (Except.ok.inj hadm)
  rcases ha : admission h now st dnsReq with refusal | adm
  · rw [ha] at hadm; cases hadm
  rw [ha] at hadm
  obtain ⟨hzone, hadm⟩ := Prod.mk.inj (Except.ok.inj hadm)
  obtain ⟨hname, hkey⟩ := Prod.mk.inj hadm
  rcases hres : (updateQuery h now msg st).1 with e | res
  · rw [hres] at hcode; cases hcode
  rw [hres] at hcode
  exact ⟨adm, ⟨⟨dnsReq, hparse, hauth, ha⟩, res, Prod.ext hres rfl, Except.ok.inj hcode⟩, hzone,
    hname, hkey⟩

/-! ### A second record that is refused -/

def hostSecret : UpdateSecret := ⟨7, 1, .unlimited, "host".toList, [1, 2, 3]⟩

def emptyZone : Store :=
  { Store.empty with
    zones := Table.empty.save ⟨1, "example".toList, false⟩
    updateSecrets := Table.empty.save hostSecret }

/-- Add a TXT record at `host.example`, and one at `mail.example`. -/
def addTwo : DnsRecord :=
  ⟨1, .update, [⟨exampleRoot, .soa, .in⟩], [],
    ["host", "mail"].map fun name =>
      ⟨⟨encode name.toList :: exampleRoot.label⟩, .txt, .in, 60, .txt [[97]]⟩, []⟩

end HexDns.Grpc.Atomic
