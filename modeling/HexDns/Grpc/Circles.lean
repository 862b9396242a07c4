import HexDns.Grpc.Lookup
import HexDns.Lib.Chains

/-! # Lookups along CNAMEs

`lookup_cname` calls a lookup function again if the target of a CNAME is in another zone, and under
another name there. `nextCall` is that call. A lookup ends if and only if no call on the way is made again
(`lookupEnds_iff`): CNAMEs of two zones that point to each other are followed without an end
(`not_lookupEnds_circle`). -/

namespace HexDns.Grpc.Circles

open HexDns.Lib.Texts HexDns.Lib.Tables HexDns.Lib.Programs HexDns.Base.Py HexDns.Base.Label
  HexDns.Lib.Chains HexDns.Base.Message HexDns.Models.Db HexDns.Models.Env HexDns.Models.Convert
  HexDns.Grpc.FindZone HexDns.Grpc.Records HexDns.Grpc.Lookup

section
variable (h : Host) (st : Store) (qtype : QType)

/-- A call of a lookup function. -/
structure Call where
  func : Func
  recordName : DnsLabel
  zone : Zone
  queryName : DnsLabel
  deriving DecidableEq

/-- The call, with the number of calls that the stack has room for. -/
def Call.program (c : Call) (n : ℕ) : Fill Unit :=
  lookup h st qtype n c.func c.recordName c.zone c.queryName

/-- **The lookup makes finitely many calls**: from some number on, more room changes nothing. -/
def LookupEnds (c : Call) : Prop :=
  ∃ n, ∀ m, n ≤ m → ∀ res, run (c.program h st qtype m) res = run (c.program h st qtype n) res

/-! ### The next call -/

def DnsRes.empty : DnsRes := ⟨[], [], [], .noerror⟩

/-- The function finds no records of its own. -/
def nothingFound (c : Call) : Bool :=
  match (run (c.func.direct h st qtype c.recordName c.zone c.queryName) DnsRes.empty).1 with
  | .ok found => !found
  | .error _ => false

/-- The CNAME that `lookup_cname` follows: there are no other records of the name. -/
def followedCname (recordName : DnsLabel) (zone : Zone) : Option DnsLabel :=
  match anyRecords h st recordName zone false, findRecords st .cname recordName zone with
  | .ok false, .ok (cnameRecord :: _) =>
    match cnameRecord.data with
    | .cname aliasName => (DnsLabel.ofText h.py aliasName).toOption
    | _ => none
  | _, _ => none

/-- The target of a CNAME, if it is in another zone and under another name. -/
def otherZone (recordName : DnsLabel) (zone : Zone) (aliasLabel : DnsLabel) : Option (Zone × DnsLabel) :=
  match findZone h st aliasLabel with
  | .ok (some (newZone, newRecordName)) =>
    if newZone.id ≠ zone.id ∧ ¬ recordName.Eqv newRecordName then some (newZone, newRecordName) else none
  | _ => none

/-- The call that a call makes, if any. -/
def nextCall (c : Call) : Option Call :=
  if nothingFound h st qtype c then
    (followedCname h st c.recordName c.zone).bind fun aliasLabel =>
      (otherZone h st c.recordName c.zone aliasLabel).map fun (newZone, newRecordName) =>
        ⟨c.func.next, newRecordName, newZone, aliasLabel⟩
  else none

/-- A call on the way is made again. -/
def RunsInCircles (c : Call) : Prop :=
  ∃ m b, after (nextCall h st qtype) m c = some b ∧ Recurs (nextCall h st qtype) b

end

/-! ### Programs that add answers -/

section
variable {h : Host} {st : Store} {qtype : QType} {α β : Type}

/-- The program adds answers, always the same. -/
def Answers (m : Fill α) : Prop := ∃ r rrs, ∀ res, run m res = (r, { res with rr := res.rr ++ rrs })

theorem answers_pure (a : α) : Answers (pure a : Fill α) :=
  ⟨.ok a, [], fun res => by rw [List.append_nil]; rfl⟩

theorem answers_ofResult (x : Except PyErr α) : Answers (ofResult x : Fill α) :=
  ⟨x, [], fun _ => by rw [List.append_nil, run_ofResult]⟩

theorem answers_throw (e : PyErr) : Answers (throw e : Fill α) :=
  ⟨.error e, [], fun res => by rw [List.append_nil]; rfl⟩

theorem answers_addAnswer (rr : Rr) : Answers (addAnswer rr) := ⟨.ok (), [rr], fun _ => rfl⟩

theorem Answers.bind {m : Fill α} {f : α → Fill β} (hm : Answers m) (hf : ∀ a, Answers (f a)) :
    Answers (m >>= f) := by
  obtain ⟨r, rrs, hrun⟩ := hm
  rcases r with e | a
  · exact ⟨.error e, rrs, fun res => run_bind_error (hrun res)⟩
  · obtain ⟨r', rrs', hrun'⟩ := hf a
    refine ⟨r', rrs ++ rrs', fun res => ?_⟩
    rw [run_bind_ok (hrun res), hrun', List.append_assoc]

theorem answers_runAll {γ : Type} {f : γ → Fill Unit} {l : List γ} (hf : ∀ x ∈ l, Answers (f x)) :
    Answers (runAll f l) := by
  induction l with
  | nil => exact answers_pure ()
  | cons x l ih =>
    exact (hf x List.mem_cons_self).bind fun _ => ih fun y hy => hf y (List.mem_cons_of_mem x hy)

theorem answers_ite {c : Prop} [Decidable c] {m n : Fill α} (hm : Answers m) (hn : Answers n) :
    Answers (if c then m else n) := by
  split_ifs
  · exact hm
  · exact hn

theorem answers_lookupRecords (m : Model) (recordName : DnsLabel) (zone : Zone) (queryName : DnsLabel) :
    Answers (lookupRecords h st m recordName zone queryName) := by
  unfold lookupRecords
  refine (answers_ofResult _).bind fun records => Answers.bind ?_ fun _ => answers_pure _
  refine answers_runAll fun record _ => (answers_ofResult _).bind fun rr => ?_
  rcases rr with _ | rr
  · exact answers_throw _
  · exact answers_addAnswer rr

/-- **What a function adds directly are answers**, whatever the response has already. -/
theorem answers_direct (h : Host) (st : Store) (qtype : QType) (f : Func) (recordName : DnsLabel) (zone : Zone) (queryName : DnsLabel) :
    Answers (f.direct h st qtype recordName zone queryName) := by
  have hall : ∀ rrs, Answers (runAll addAnswer rrs) := fun rrs => answers_runAll fun rr _ => answers_addAnswer rr
  rcases f
  case addr =>
    show Answers (lookupAddr h st qtype recordName zone queryName)
    unfold lookupAddr
    refine (answers_ofResult _).bind fun records => ?_
    refine (hall _).bind fun _ => answers_ite (answers_pure _) ?_
    refine (answers_ofResult _).bind fun records => ?_
    refine (hall _).bind fun _ => answers_ite (answers_pure _) ?_
    refine (answers_ofResult _).bind fun records => (answers_ofResult _).bind fun rrs => ?_
    refine (hall _).bind fun _ => answers_ite (answers_pure _) ?_
    refine (answers_ofResult _).bind fun records => ?_
    rcases records with _ | ⟨record, _⟩
    · exact answers_pure _
    · exact (hall _).bind fun _ => answers_pure _
  case ns =>
    show Answers (lookupNs h st recordName zone queryName)
    unfold lookupNs
    refine (answers_lookupRecords _ _ _ _).bind fun found => ?_
    refine answers_ite ?_ (answers_pure _)
    refine Answers.bind (answers_runAll fun ns _ => ?_) fun _ => answers_pure _
    exact (answers_ofResult _).bind fun label => answers_addAnswer _
  case caa =>
    show Answers (lookupCaa h st recordName zone queryName)
    unfold lookupCaa
    refine (answers_lookupRecords _ _ _ _).bind fun found => answers_ite (answers_pure _) ?_
    refine (answers_ofResult _).bind fun records => ?_
    rcases records with _ | ⟨record, _⟩
    · exact answers_pure _
    · exact (answers_addAnswer _).bind fun _ => answers_pure _
  case sshfp =>
    show Answers (lookupSshfp h st recordName zone queryName)
    unfold lookupSshfp
    refine (answers_ofResult _).bind fun records => Answers.bind ?_ fun _ => answers_pure _
    exact answers_runAll fun record _ => (answers_ofResult _).bind fun rrs => hall _
  case ds =>
    show Answers (lookupDs h st recordName zone queryName)
    unfold lookupDs
    refine (answers_ofResult _).bind fun records => Answers.bind ?_ fun _ => answers_pure _
    refine answers_runAll fun record _ => (answers_ofResult _).bind fun rr => ?_
    rcases rr with _ | rr
    · exact answers_pure _
    · exact answers_addAnswer rr
  case https =>
    show Answers (lookupHttps h st recordName zone queryName)
    unfold lookupHttps
    refine (answers_ofResult _).bind fun records => Answers.bind ?_ fun _ => answers_pure _
    refine answers_runAll fun record _ => (answers_ofResult _).bind fun rr => ?_
    rcases rr with _ | rr
    · exact answers_throw _
    · exact answers_addAnswer rr
  all_goals exact answers_lookupRecords _ _ _ _

/-! ### One call -/

/-- The answer is added before the zone of the target is looked for. -/
theorem run_follow (recordName : DnsLabel) (zone : Zone) (rr : Rr) (label : DnsLabel)
    (func : DnsLabel → Zone → DnsLabel → Fill Unit) (res : DnsRes) :
    run (do
      addAnswer rr
      let target ← ofResult (findZone h st label)
      match target with
      | none => pure ()
      | some (newZone, newRecordName) =>
        if newZone.id ≠ zone.id ∧ ¬ recordName.Eqv newRecordName then func newRecordName newZone label
        else pure ()) res =
      match otherZone h st recordName zone label with
      | some (newZone, newRecordName) => run (func newRecordName newZone label) { res with rr := res.rr ++ [rr] }
      | none => ((findZone h st label).map fun _ => (), { res with rr := res.rr ++ [rr] }) := by
  have hadd : run (addAnswer rr) res = (.ok (), { res with rr := res.rr ++ [rr] }) := rfl
  unfold otherZone
  rw [run_bind_ok hadd, run_bind, run_ofResult]
  rcases findZone h st label with e | _ | ⟨newZone, newRecordName⟩
  · rfl
  · rfl
  · by_cases hother : newZone.id ≠ zone.id ∧ ¬ recordName.Eqv newRecordName
    · simp only [if_pos hother]
    · simp only [if_neg hother]
      rfl

theorem run_lookupCname (recordName : DnsLabel) (zone : Zone) (queryName : DnsLabel)
    (func : DnsLabel → Zone → DnsLabel → Fill Unit) (res : DnsRes) :
    run (lookupCname h st qtype recordName zone queryName func) res =
      match anyRecords h st recordName zone false with
      | .error e => (.error e, res)
      | .ok true => run (lookupReferral h st qtype recordName zone) res
      | .ok false =>
        match findRecords st .cname recordName zone with
        | .error e => (.error e, res)
        | .ok [] => run (lookupReferral h st qtype recordName zone) res
        | .ok (cnameRecord :: _) =>
          match cnameRecord.data with
          | .cname aliasName =>
            match DnsLabel.ofText h.py aliasName with
            | .error e => (.error e, res)
            | .ok label =>
              match otherZone h st recordName zone label with
              | some (newZone, newRecordName) => run (func newRecordName newZone label)
                  { res with rr := res.rr ++ [⟨queryName, .cname, .in, cnameRecord.ttl, .cname label⟩] }
              | none => ((findZone h st label).map fun _ => (),
                  { res with rr := res.rr ++ [⟨queryName, .cname, .in, cnameRecord.ttl, .cname label⟩] })
          | _ => (.error .attributeError, res) := by
  unfold lookupCname
  rw [run_bind, run_ofResult]
  rcases anyRecords h st recordName zone false with e | _ | _
  · rfl
  · show run (ofResult (findRecords st .cname recordName zone) >>= _) res = _
    rw [run_bind, run_ofResult]
    rcases findRecords st .cname recordName zone with e | _ | ⟨⟨id, z, name, ttl, data⟩, rest⟩
    · rfl
    · rfl
    · dsimp only
      rcases data with _ | _ | _ | aliasName | _ | _ | _ | _ | _ | _ | _ | _ | _ | _ | _ | _ | _ | _ | _ | _ | _
      case cname =>
        dsimp only
        rw [run_bind, run_ofResult]
        rcases DnsLabel.ofText h.py aliasName with e | label
        · rfl
        · exact run_follow recordName zone _ label func res
      all_goals rfl
  · rfl

theorem followedCname_eq_some {recordName : DnsLabel} {zone : Zone} {label : DnsLabel} :
    followedCname h st recordName zone = some label ↔ anyRecords h st recordName zone false = .ok false ∧
      ∃ cnameRecord rest aliasName, findRecords st .cname recordName zone = .ok (cnameRecord :: rest) ∧
        cnameRecord.data = .cname aliasName ∧ DnsLabel.ofText h.py aliasName = .ok label := by
  unfold followedCname
  constructor
  · intro hf
    split at hf
    · rename_i cnameRecord rest hany hcnames
      split at hf
      · rename_i aliasName hdata
        exact ⟨hany, cnameRecord, rest, aliasName, hcnames, hdata, ok_of_toOption hf⟩
      · cases hf
    · cases hf
  · rintro ⟨hany, cnameRecord, rest, aliasName, hcnames, hdata, hlabel⟩
    rw [hany, hcnames]
    dsimp only
    rw [hdata]
    dsimp only
    rw [hlabel]
    rfl

/-- **What a call does**: it adds answers and makes the next call, or it is the same whatever room there
is. -/
theorem program_succ (h : Host) (st : Store) (qtype : QType) (c : Call) :
    (∀ c', nextCall h st qtype c = some c' → ∃ rrs, rrs ≠ [] ∧ ∀ n res,
      run (c.program h st qtype (n + 1)) res = run (c'.program h st qtype n) { res with rr := res.rr ++ rrs }) ∧
    (nextCall h st qtype c = none → ∀ n m res,
      run (c.program h st qtype (n + 1)) res = run (c.program h st qtype (m + 1)) res) := by
  obtain ⟨f, recordName, zone, queryName⟩ := c
  obtain ⟨r, rrs, hdirect⟩ := answers_direct h st qtype f recordName zone queryName
  have hprogram : ∀ n res, run (Call.program h st qtype ⟨f, recordName, zone, queryName⟩ (n + 1)) res =
      run (f.direct h st qtype recordName zone queryName >>= fun found => if found then pure ()
        else lookupCname h st qtype recordName zone queryName (lookup h st qtype n f.next)) res :=
    fun n res => rfl
  have hfound : nothingFound h st qtype ⟨f, recordName, zone, queryName⟩ =
      (r.toOption.map fun found => !found).getD false := by
    unfold nothingFound
    dsimp only
    rw [hdirect]
    rcases r with e | found <;> rfl
  unfold nextCall
  rw [hfound]
  rcases r with e | _ | _
  · refine ⟨fun c' hc => (nomatch hc), fun _ n m res => ?_⟩
    rw [hprogram, hprogram, run_bind_error (hdirect res), run_bind_error (hdirect res)]
  swap
  · refine ⟨fun c' hc => (nomatch hc), fun _ n m res => ?_⟩
    rw [hprogram, hprogram, run_bind_ok (hdirect res), run_bind_ok (hdirect res)]
    simp only [if_true]
  have hrun : ∀ n res, run (Call.program h st qtype ⟨f, recordName, zone, queryName⟩ (n + 1)) res =
      run (lookupCname h st qtype recordName zone queryName (lookup h st qtype n f.next))
        { res with rr := res.rr ++ rrs } := by
    intro n res
    rw [hprogram, run_bind_ok (hdirect res)]
    rfl
  simp only [Except.toOption, Option.map_some, Bool.not_false, Option.getD_some, if_true]
  constructor
  · intro c' hc
    obtain ⟨label, hlabel, hc⟩ := Option.bind_eq_some_iff.mp hc
    obtain ⟨⟨newZone, newRecordName⟩, hother, rfl⟩ := Option.map_eq_some_iff.mp hc
    obtain ⟨hany, cnameRecord, rest, aliasName, hcnames, hdata, hname⟩ := followedCname_eq_some.mp hlabel
    refine ⟨rrs ++ [⟨queryName, .cname, .in, cnameRecord.ttl, .cname label⟩], by simp, fun n res => ?_⟩
    rw [hrun, run_lookupCname, hany, hcnames]
    dsimp only at hother ⊢
    rw [hdata]
    dsimp only
    rw [hname]
    dsimp only
    rw [hother, List.append_assoc]
    rfl
  · intro hnone n m res
    rw [hrun, hrun, run_lookupCname, run_lookupCname]
    rcases hany : anyRecords h st recordName zone false with e | _ | _
    · rfl
    swap
    · rfl
    rcases hcnames : findRecords st .cname recordName zone with e | _ | ⟨cnameRecord, rest⟩
    · rfl
    · rfl
    dsimp only
    rcases hdata : cnameRecord.data with _ | _ | _ | aliasName | _ | _ | _ | _ | _ | _ | _ | _ | _ | _ | _ | _ |
      _ | _ | _ | _ | _
    case cname =>
      dsimp only
      rcases hname : DnsLabel.ofText h.py aliasName with e | label
      · rfl
      · have hfollowed : followedCname h st recordName zone = some label :=
          followedCname_eq_some.mpr ⟨hany, cnameRecord, rest, aliasName, hcnames, hdata, hname⟩
        have hother : otherZone h st recordName zone label = none := by
          rw [hfollowed] at hnone
          exact Option.map_eq_none_iff.mp hnone
        dsimp only
        rw [hother]
    all_goals rfl

/-! ### The calls on the way -/

/-- The functions that are called. -/
def allFuncs : List Func :=
  [.addr, .mx, .ns, .txt, .srv, .caa, .naptr, .sshfp, .ds, .loc, .hinfo, .rp, .https, .dhcid]

/-- The call on the target of a CNAME row. -/
def targetCall (h : Host) (st : Store) (f : Func) (r : Row) : Option Call :=
  match r.data with
  | .cname aliasName => (DnsLabel.ofText h.py aliasName).toOption.bind fun label =>
      ((findZone h st label).toOption.bind id).map fun (zone, recordName) => ⟨f, recordName, zone, label⟩
  | _ => none

theorem mem_of_findRecords {m : Model} {recordName : DnsLabel} {zone : Zone} {rows : List Row}
    (hf : findRecords st m recordName zone = .ok rows) {r : Row} (hr : r ∈ rows) : r ∈ st.records := by
  have hrows : foundRows st recordName zone m = rows := by
    unfold foundRows
    rw [hf]
  exact (foundRows_model (hrows ▸ hr)).1

/-- Only the targets of the CNAME rows are called again. -/
theorem nextCall_mem {c c' : Call} (hc : nextCall h st qtype c = some c') :
    c' ∈ allFuncs.flatMap fun f => st.records.rows.filterMap (targetCall h st f) := by
  unfold nextCall at hc
  split_ifs at hc
  obtain ⟨label, hlabel, hc⟩ := Option.bind_eq_some_iff.mp hc
  obtain ⟨⟨newZone, newRecordName⟩, hother, rfl⟩ := Option.map_eq_some_iff.mp hc
  obtain ⟨-, cnameRecord, rest, aliasName, hcnames, hdata, hname⟩ := followedCname_eq_some.mp hlabel
  have hzone : findZone h st label = .ok (some (newZone, newRecordName)) := by
    unfold otherZone at hother
    split at hother
    · rename_i z n hz
      split_ifs at hother
      rw [hz, ← hother]
    · cases hother
  have hfunc : c.func.next ∈ allFuncs := by
    cases c.func.next <;> decide
  refine List.mem_flatMap.mpr ⟨c.func.next, hfunc, List.mem_filterMap.mpr
    ⟨cnameRecord, mem_of_findRecords hcnames List.mem_cons_self, ?_⟩⟩
  unfold targetCall
  rw [hdata]
  dsimp only
  rw [hname]
  show ((findZone h st label).toOption.bind id).map _ = _
  rw [hzone]
  rfl

/-- A call whose chain ends does the same with more room. -/
theorem run_program_of_after {n : ℕ} {c : Call} (hn : after (nextCall h st qtype) n c = none) {m : ℕ}
    (hle : n ≤ m) (res : DnsRes) : run (c.program h st qtype m) res = run (c.program h st qtype n) res := by
  induction n generalizing c m res with
  | zero => cases hn
  | succ n ih =>
    obtain ⟨m, rfl⟩ : ∃ k, m = k + 1 := ⟨m - 1, by omega⟩
    obtain ⟨hsome, hnone⟩ := program_succ h st qtype c
    rcases hc : nextCall h st qtype c with _ | c'
    · exact hnone hc m n res
    · obtain ⟨rrs, -, hrun⟩ := hsome c' hc
      have hn' : after (nextCall h st qtype) n c' = none := by
        change (nextCall h st qtype c).bind _ = none at hn
        rwa [hc] at hn
      rw [hrun, hrun]
      exact ih hn' (by omega) _

/-- With room for one more call, one more CNAME is added. -/
theorem length_program_lt {n : ℕ} {c : Call} (hn : after (nextCall h st qtype) (n + 1) c ≠ none)
    (res : DnsRes) : (run (c.program h st qtype n) res).2.rr.length <
      (run (c.program h st qtype (n + 1)) res).2.rr.length := by
  induction n generalizing c res with
  | zero =>
    obtain ⟨hsome, -⟩ := program_succ h st qtype c
    rcases hc : nextCall h st qtype c with _ | c'
    · change (nextCall h st qtype c).bind _ ≠ none at hn
      rw [hc] at hn
      exact absurd rfl hn
    · obtain ⟨rrs, hne, hrun⟩ := hsome c' hc
      have hpos := List.length_pos_iff.mpr hne
      rw [hrun]
      show res.rr.length < (res.rr ++ rrs).length
      rw [List.length_append]
      omega
  | succ n ih =>
    obtain ⟨hsome, -⟩ := program_succ h st qtype c
    change (nextCall h st qtype c).bind _ ≠ none at hn
    rcases hc : nextCall h st qtype c with _ | c'
    · rw [hc] at hn
      exact absurd rfl hn
    · obtain ⟨rrs, -, hrun⟩ := hsome c' hc
      rw [hc] at hn
      rw [hrun, hrun]
      exact ih hn _

/-- The lookup ends if its chain of calls does. -/
theorem lookupEnds_iff_ends (c : Call) : LookupEnds h st qtype c ↔ Ends (nextCall h st qtype) c := by
  constructor
  · rintro ⟨n, hn⟩
    by_contra hends
    have hlt := length_program_lt (fun hnone => hends ⟨n + 1, hnone⟩) DnsRes.empty
    rw [hn (n + 1) (by omega)] at hlt
    omega
  · rintro ⟨n, hn⟩
    exact ⟨n, fun m hle res => run_program_of_after hn hle res⟩

/-- **A lookup ends if and only if no call on the way is made again.** -/
theorem lookupEnds_iff (h : Host) (st : Store) (qtype : QType) (c : Call) :
    LookupEnds h st qtype c ↔ ¬ RunsInCircles h st qtype c := by
  rw [lookupEnds_iff_ends, ends_iff (List.finite_toSet _) fun _ _ hc => nextCall_mem hc]
  exact ⟨fun hno ⟨m, b, hb, hrecurs⟩ => hno m b hb hrecurs, fun hno m b hb hrecurs =>
    hno ⟨m, b, hb, hrecurs⟩⟩

end

/-! ### Two zones with a circle -/

def circleZone (n : ℕ) : Zone := ⟨n, if n = 1 then "one.example".toList else "two.example".toList, false⟩

/-- `www` of the first zone is an alias of `mail` of the second, which is an alias of it. -/
def circleStore : Store :=
  { Store.empty with
    zones := (Table.empty.save (circleZone 1)).save (circleZone 2)
    records := (Table.empty.save ⟨1, 1, "www".toList, 300, .cname "mail.two.example".toList⟩).save
      ⟨2, 2, "mail".toList, 300, .cname "www.one.example".toList⟩ }

def circleCall : Call :=
  ⟨.addr, ⟨[encode "www".toList]⟩, circleZone 1, ⟨["www", "one", "example"].map fun l => encode l.toList⟩⟩

/-- The lookup follows the two CNAMEs without an end. -/
theorem not_lookupEnds_circle : (∀ z ∈ circleStore.zones, Host.ascii.owner z.id = .active true) ∧
    ¬ LookupEnds .ascii circleStore .a circleCall := by
  refine ⟨fun z _ => rfl, fun hends => ?_⟩
  obtain ⟨n, hn⟩ := (lookupEnds_iff_ends _).mp hends
  have hround : after (nextCall .ascii circleStore .a) 2 circleCall = some circleCall := by decide
  have hmul := after_mul hround n
  rw [after_eq_none_of_le hn (by omega)] at hmul
  cases hmul

end HexDns.Grpc.Circles
