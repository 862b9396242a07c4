import HexDns.Tasks.Addresses
import HexDns.Tasks.AnameCopies

/-! # The addresses of ANAMEs

The command `update-aname-zones`: for every ANAME row whose target is outside its zone the resolver is
asked for addresses, and what it answers is stored in the row's cache, one transaction a row.

Every resource record of an answer is stored as an address, the CNAMEs before the addresses too, and what
the database then raises ends the run. `follows_iff` says when the caches follow the answers. -/

namespace HexDns.Commands.UpdateAname

open HexDns.Lib.Texts HexDns.Lib.Tables HexDns.Lib.Programs HexDns.Base.Py HexDns.Base.Label
  HexDns.Base.Message HexDns.Models.Db HexDns.Models.Env HexDns.Models.Names HexDns.Tasks.Addresses
  HexDns.Tasks.ZoneFile HexDns.Tasks.Frame HexDns.Tasks.AnameCopies

/-! ### The command -/

/-- The address of the rdata of A and AAAA. -/
def rdataAddress : Rdata → Option IpAddr
  | .a a => some (.v4 a)
  | .aaaa a => some (.v6 a)
  | _ => none

/-- How `DNSRecord.send` fails. -/
inductive SendError
  /-- `socket.timeout` -/
  | timeout
  /-- `struct.error` -/
  | struct
  | raised (e : PyErr)
  deriving DecidableEq, Repr

/-- The resolver, what `dnslib` does with its answers, and the column of the addresses. -/
structure Library where
  /-- `DNSRecord(q=DNSQuestion(name, qtype)).send(…)` -/
  send : Text → QType → Except SendError Bytes
  /-- `DNSRecord.parse(packet).rr` -/
  parse : Bytes → Except PyErr (List Rr)
  /-- `str(rdata)` -/
  rdataText : Rdata → Text
  /-- the column of type `inet`, nothing for what the database refuses -/
  inet : Text → Option IpAddr
  /-- The text of an address is that address for the database. -/
  inet_address : ∀ rdata a, rdataAddress rdata = some a → inet (rdataText rdata) = some a
  /-- The texts of other types are in no address syntax. -/
  inet_other : ∀ rdata, rdataAddress rdata = none → inet (rdataText rdata) = none

section
variable (h : Host) (lib : Library)

/-- Both answers, nothing if there is none in time. -/
def answers (aliasName : Text) : Except PyErr (Option (List Rr × List Rr)) :=
  match lib.send aliasName .a with
  | .error .timeout | .error .struct => .ok none
  | .error (.raised e) => .error e
  | .ok resPktA =>
    match lib.send aliasName .aaaa with
    | .error .timeout | .error .struct => .ok none
    | .error (.raised e) => .error e
    | .ok resPktAaaa => do
      let resA ← lib.parse resPktA
      let resAaaa ← lib.parse resPktAaaa
      return some (resA, resAaaa)

/-- `models.ANAMERecordCache(record=record, address=str(rr.rdata)).save()` -/
def saveCache (record : ℕ) (st : Store) (rr : Rr) : Except PyErr Store :=
  match lib.inet (lib.rdataText rr.rdata) with
  | none => .error .databaseError
  | some address =>
    .ok { st with anameCache := st.anameCache.save ⟨st.anameCache.next, record, address⟩ }

/-- The transaction; an exception leaves the database as it is. -/
def replaceCache (record : ℕ) (resA resAaaa : List Rr) (st : Store) : Except PyErr Store := do
  let st := { st with anameCache := st.anameCache.erasing fun c => c.record = record }
  let st ← resA.foldlM (saveCache lib record) st
  resAaaa.foldlM (saveCache lib record) st

structure State where
  db : Store
  /-- of the zone that the run is at -/
  updated : Bool
  /-- `update_catalog` is called. -/
  catalog : Bool
  /-- the records whose transaction was committed; the command does not read it -/
  refreshed : List ℕ

/-- What the loop does with a record. -/
def refresh (zoneRoot : DnsLabel) (record : Row) : Exec State PyErr Unit :=
  match record.data with
  | .aname aliasName => do
    let aliasLabel ← ofResult (DnsLabel.ofText h.py aliasName)
    if aliasLabel.matchSuffix zoneRoot then pure ()
    else
      match ← ofResult (answers lib aliasName) with
      | none => pure ()
      | some (resA, resAaaa) =>
        let s ← get
        let db ← ofResult (replaceCache lib record.id resA resAaaa s.db)
        modify fun s => { s with db := db, updated := true, refreshed := s.refreshed ++ [record.id] }
  | _ => pure ()

/-- `if updated: tasks.update_fzone.delay(zone.id)` -/
def publishZone (zone : Zone) : Exec State PyErr Unit :=
  modify fun s => if s.updated then { s with db.queue := s.db.queue ++ [zone.id] } else s

/-- What the loop does with a zone. -/
def refreshZone (zone : Zone) : Exec State PyErr Unit := do
  let zoneRoot ← ofResult (DnsLabel.ofText h.py zone.zoneRoot)
  modify fun s => { s with updated := false }
  let s ← get
  runAll (refresh h lib zoneRoot) (rowsOf s.db zone .aname)
  publishZone zone

/-- `Command.handle` -/
def handle : Exec State PyErr Unit := do
  let s ← get
  runAll (refreshZone h lib) s.db.zones.rows
  modify fun s => { s with catalog := true }

end

/-! ### What it is for -/

section
variable (h : Host) (lib : Library)

/-- The target of the row is not in its zone. -/
def outside (zone : Zone) (record : Row) : Bool :=
  match record.data with
  | .aname aliasName =>
    match DnsLabel.ofText h.py aliasName, DnsLabel.ofText h.py zone.zoneRoot with
    | .ok aliasLabel, .ok zoneRoot => !aliasLabel.matchSuffix zoneRoot
    | _, _ => false
  | _ => false

/-- The records of a zone with targets outside it. -/
def targetsOf (st : Store) (zone : Zone) : List Row := (rowsOf st zone .aname).filter (outside h zone)

/-- The records with targets outside their zone, in the order of the run. -/
def targets (st : Store) : List Row := st.zones.rows.flatMap (targetsOf h st)

/-- The resource records of both answers. -/
def answered (record : Row) : List Rr :=
  match record.data with
  | .aname aliasName =>
    match answers lib aliasName with
    | .ok (some (resA, resAaaa)) => resA ++ resAaaa
    | _ => []
  | _ => []

/-- Both answers come, and are well-formed. -/
def WellFormed (record : Row) : Prop :=
  ∃ aliasName resA resAaaa, record.data = .aname aliasName ∧ answers lib aliasName = .ok (some (resA, resAaaa))

/-- The address of an A or AAAA record of the answers. -/
def Answered (record : Row) (a : IpAddr) : Prop := ∃ rr ∈ answered lib record, rdataAddress rr.rdata = some a

/-- There is a record of another type in the answers, such as a CNAME. -/
def Foreign (record : Row) : Prop := ∃ rr ∈ answered lib record, rdataAddress rr.rdata = none

def Cached (st : Store) (record : ℕ) (a : IpAddr) : Prop :=
  ∃ c ∈ st.anameCache, c.record = record ∧ c.address = a

/-- The cache of a record has exactly the addresses of its answers. -/
def Exact (st : Store) (record : Row) : Prop := ∀ a, Cached st record.id a ↔ Answered lib record a

/-- The state after a run from the database `st`. -/
def after (st : Store) : State := (run (handle h lib) ⟨st, false, false, []⟩).2

/-- The caches follow the answers. -/
structure Follows (st : Store) : Prop where
  exact : ∀ r ∈ targets h st, Exact lib (after h lib st).db r
  /-- A record whose own answers are of addresses is updated, whatever the others' answers are. -/
  updated : ∀ r ∈ targets h st, ¬ Foreign lib r → r.id ∈ (after h lib st).refreshed
  /-- `generate_fzone` writes the record. -/
  generates : ∀ zone ∈ st.zones, ∀ zoneRoot, DnsLabel.ofText h.py zone.zoneRoot = .ok zoneRoot →
    ∀ r ∈ targetsOf h st zone, ∃ text, rowText h (after h lib st).db zone zoneRoot r = .ok text

/-- From the first record on whose answers have a record of another type, there are only such records, and
their caches have the addresses of their answers already. -/
def Served (st : Store) : Prop :=
  ∀ before r rest, targets h st = before ++ r :: rest → Foreign lib r →
    ∀ r' ∈ r :: rest, Foreign lib r' ∧ Exact lib st r'

end

/-! ### One record -/

section
variable {h : Host} {lib : Library} {i : ℕ} {st st' : Store} {rrs : List Rr}

/-- The other tables stay, and so do the caches of other records. -/
structure SameButCache (i : ℕ) (st st' : Store) : Prop where
  records : st'.records = st.records
  zones : st'.zones = st.zones
  others : ∀ j, j ≠ i → ∀ a, Cached st' j a ↔ Cached st j a

theorem saveCache_of_address {rr : Rr} {a : IpAddr} (ha : rdataAddress rr.rdata = some a) :
    ∃ st', saveCache lib i st rr = .ok st' ∧ SameButCache i st st' ∧
      ∀ b, Cached st' i b ↔ Cached st i b ∨ b = a := by
  have hmem : ∀ c, c ∈ st.anameCache.save ⟨st.anameCache.next, i, a⟩ ↔
      c = ⟨st.anameCache.next, i, a⟩ ∨ c ∈ st.anameCache := fun c => mem_save_fresh rfl
  refine ⟨{ st with anameCache := st.anameCache.save ⟨st.anameCache.next, i, a⟩ }, ?_, ⟨rfl, rfl, ?_⟩, ?_⟩
  · unfold saveCache
    rw [lib.inet_address _ _ ha]
  · intro j hj b
    constructor
    · rintro ⟨c, hc, hrecord, hb⟩
      rcases (hmem c).mp hc with rfl | hc
      · exact absurd hrecord.symm hj
      · exact ⟨c, hc, hrecord, hb⟩
    · rintro ⟨c, hc, hrest⟩
      exact ⟨c, (hmem c).mpr (Or.inr hc), hrest⟩
  · intro b
    constructor
    · rintro ⟨c, hc, hrecord, hb⟩
      rcases (hmem c).mp hc with rfl | hc
      · exact Or.inr hb.symm
      · exact Or.inl ⟨c, hc, hrecord, hb⟩
    · rintro (⟨c, hc, hrest⟩ | rfl)
      · exact ⟨c, (hmem c).mpr (Or.inr hc), hrest⟩
      · exact ⟨_, (hmem _).mpr (Or.inl rfl), rfl, rfl⟩

theorem SameButCache.trans {st'' : Store} (h1 : SameButCache i st st') (h2 : SameButCache i st' st'') :
    SameButCache i st st'' :=
  ⟨h2.records.trans h1.records, h2.zones.trans h1.zones, fun j hj a =>
    (h2.others j hj a).trans (h1.others j hj a)⟩

/-- A list of addresses is stored. -/
theorem foldlM_saveCache (hrrs : ∀ rr ∈ rrs, rdataAddress rr.rdata ≠ none) :
    ∃ st', rrs.foldlM (saveCache lib i) st = .ok st' ∧ SameButCache i st st' ∧
      ∀ b, Cached st' i b ↔ Cached st i b ∨ ∃ rr ∈ rrs, rdataAddress rr.rdata = some b := by
  induction rrs generalizing st with
  | nil => exact ⟨st, rfl, ⟨rfl, rfl, fun _ _ _ => Iff.rfl⟩, fun b => by simp⟩
  | cons rr rrs ih =>
    obtain ⟨a, ha⟩ := Option.ne_none_iff_exists'.mp (hrrs rr List.mem_cons_self)
    obtain ⟨st1, h1, hsame1, hcached1⟩ := @saveCache_of_address lib i st rr a ha
    obtain ⟨st2, h2, hsame2, hcached2⟩ := @ih st1 fun rr' hrr' => hrrs rr' (List.mem_cons_of_mem rr hrr')
    refine ⟨st2, ?_, hsame1.trans hsame2, fun b => ?_⟩
    · rw [List.foldlM_cons, h1]
      exact h2
    · rw [hcached2, hcached1, List.exists_mem_cons_iff, ha, Option.some_inj, or_assoc, eq_comm]

/-- A record of another type is refused. -/
theorem foldlM_saveCache_foreign (hrrs : ∃ rr ∈ rrs, rdataAddress rr.rdata = none) :
    rrs.foldlM (saveCache lib i) st = .error .databaseError := by
  induction rrs generalizing st with
  | nil =>
    obtain ⟨rr, hrr, -⟩ := hrrs
    cases hrr
  | cons rr rrs ih =>
    rw [List.foldlM_cons]
    rcases hrr : rdataAddress rr.rdata with _ | a
    · have herror : saveCache lib i st rr = .error .databaseError := by
        unfold saveCache
        rw [lib.inet_other _ hrr]
      rw [herror]
      rfl
    · obtain ⟨st1, h1, -, -⟩ := @saveCache_of_address lib i st rr a hrr
      rw [h1]
      refine ih ?_
      obtain ⟨rr', hrr', hnone⟩ := hrrs
      rcases List.mem_cons.mp hrr' with rfl | hrr'
      · rw [hrr] at hnone
        cases hnone
      · exact ⟨rr', hrr', hnone⟩

theorem replaceCache_eq (resA resAaaa : List Rr) : replaceCache lib i resA resAaaa st =
    (resA ++ resAaaa).foldlM (saveCache lib i)
      { st with anameCache := st.anameCache.erasing fun c => c.record = i } := by
  rw [List.foldlM_append]
  rfl

/-- **The transaction of a record** leaves its cache with exactly the addresses of the answers. -/
theorem replaceCache_of_addresses {resA resAaaa : List Rr}
    (hrrs : ∀ rr ∈ resA ++ resAaaa, rdataAddress rr.rdata ≠ none) :
    ∃ st', replaceCache lib i resA resAaaa st = .ok st' ∧ SameButCache i st st' ∧
      ∀ b, Cached st' i b ↔ ∃ rr ∈ resA ++ resAaaa, rdataAddress rr.rdata = some b := by
  obtain ⟨st', hst', hsame, hcached⟩ := @foldlM_saveCache lib i
    { st with anameCache := st.anameCache.erasing fun c => c.record = i } _ hrrs
  refine ⟨st', (replaceCache_eq resA resAaaa).trans hst', ⟨hsame.records, hsame.zones, ?_⟩, ?_⟩
  · intro j hj a
    rw [hsame.others j hj a]
    refine exists_congr fun c => and_congr_left fun hc => ?_
    show c ∈ st.anameCache.erasing _ ↔ _
    rw [mem_erasing]
    refine and_iff_left ?_
    have hne : c.record ≠ i := fun heq => hj (hc.1.symm.trans heq)
    simpa using hne
  · intro b
    rw [hcached]
    refine or_iff_right ?_
    rintro ⟨c, hc, hrecord, -⟩
    have hkept := (mem_erasing.mp hc).2
    rw [decide_eq_false_iff_not] at hkept
    exact hkept hrecord

end

/-! ### The run -/

section
variable {h : Host} {lib : Library} {st : Store} {zone : Zone} {zoneRoot : DnsLabel} {r : Row}

/-- The records that were done have their addresses, and the others the caches that they had. -/
structure Progress (lib : Library) (st : Store) (done : List Row) (s : State) : Prop where
  records : s.db.records = st.records
  zones : s.db.zones = st.zones
  rows : ∀ r ∈ done, r ∈ st.records
  exact : ∀ r ∈ done, Exact lib s.db r
  others : ∀ j, (∀ r ∈ done, r.id ≠ j) → ∀ a, Cached s.db j a ↔ Cached st j a
  refreshed : s.refreshed = done.map Row.id

/-- What the command writes beside the caches does not matter. -/
theorem Progress.congr {done : List Row} {s s' : State} (hs : Progress lib st done s)
    (hrecords : s'.db.records = s.db.records) (hzones : s'.db.zones = s.db.zones)
    (hcache : s'.db.anameCache = s.db.anameCache) (hrefreshed : s'.refreshed = s.refreshed) :
    Progress lib st done s' := by
  have hcached : ∀ j a, Cached s'.db j a ↔ Cached s.db j a := by
    intro j a
    unfold Cached
    rw [hcache]
  exact ⟨hrecords.trans hs.records, hzones.trans hs.zones, hs.rows,
    fun r hr a => (hcached r.id a).trans (hs.exact r hr a),
    fun j hj a => (hcached j a).trans (hs.others j hj a), hrefreshed.trans hs.refreshed⟩

/-- The transaction of one more record. -/
theorem Progress.refresh {done : List Row} {s : State} (hs : Progress lib st done s) (hr : r ∈ st.records)
    {db : Store} (hsame : SameButCache r.id s.db db) (hexact : Exact lib db r) (updated : Bool) :
    Progress lib st (done ++ [r])
      { s with db := db, updated := updated, refreshed := s.refreshed ++ [r.id] } := by
  refine ⟨hsame.records.trans hs.records, hsame.zones.trans hs.zones, ?_, ?_, ?_, ?_⟩
  · intro x hx
    rcases List.mem_append.mp hx with hx | hx
    · exact hs.rows x hx
    · rwa [List.mem_singleton.mp hx]
  · intro x hx
    by_cases hid : x.id = r.id
    · have hmem : x ∈ st.records := by
        rcases List.mem_append.mp hx with hx | hx
        · exact hs.rows x hx
        · rwa [List.mem_singleton.mp hx]
      rwa [eq_of_key hmem hr hid]
    · have hx : x ∈ done := by
        rcases List.mem_append.mp hx with hx | hx
        · exact hx
        · exact absurd (congrArg Row.id (List.mem_singleton.mp hx)) hid
      exact fun a => (hsame.others x.id hid a).trans (hs.exact x hx a)
  · intro j hj a
    have hne : j ≠ r.id := fun heq => hj r (List.mem_append_right done List.mem_cons_self) heq.symm
    exact (hsame.others j hne a).trans (hs.others j (fun x hx => hj x (List.mem_append_left [r] hx)) a)
  · show s.refreshed ++ [r.id] = (done ++ [r]).map Row.id
    rw [hs.refreshed, List.map_append]
    rfl

theorem answered_of_answers {aliasName : Text} {resA resAaaa : List Rr} (hdata : r.data = .aname aliasName)
    (hanswers : answers lib aliasName = .ok (some (resA, resAaaa))) : answered lib r = resA ++ resAaaa := by
  unfold answered
  rw [hdata]
  dsimp only
  rw [hanswers]

/-- **A record is worked off**: it is one of the items if its target is outside the zone, and a good one
if its answers are of addresses. -/
theorem worksOff_refresh (hroot : DnsLabel.ofText h.py zone.zoneRoot = .ok zoneRoot) (hr : r ∈ st.records)
    {aliasName : Text} (hdata : r.data = .aname aliasName) {aliasLabel : DnsLabel}
    (halias : DnsLabel.ofText h.py aliasName = .ok aliasLabel)
    (hwell : outside h zone r = true → WellFormed lib r) :
    WorksOff (Progress lib st) (fun r => ¬ Foreign lib r) (refresh h lib zoneRoot r)
      ([r].filter (outside h zone)) := by
  have houtside : outside h zone r = !aliasLabel.matchSuffix zoneRoot := by
    unfold outside
    rw [hdata]
    dsimp only
    rw [halias, hroot]
  by_cases hmatch : aliasLabel.matchSuffix zoneRoot = true
  · rw [List.filter_cons_of_neg (by rw [houtside, hmatch]; decide), List.filter_nil]
    refine worksOff_nil fun done s hs => ⟨(), s, ?_, hs⟩
    unfold refresh
    rw [hdata]
    dsimp only
    rw [run_bind_ok (by rw [run_ofResult, halias]), if_pos hmatch]
    rfl
  · have htrue : outside h zone r = true := by
      rw [houtside]
      simpa using hmatch
    rw [List.filter_cons_of_pos htrue, List.filter_nil]
    obtain ⟨aliasName', resA, resAaaa, hdata', hanswers⟩ := hwell htrue
    obtain rfl : aliasName = aliasName' := by
      rw [hdata] at hdata'
      exact RecordData.aname.inj hdata'
    have hanswered : answered lib r = resA ++ resAaaa := answered_of_answers hdata hanswers
    intro done s hs
    have hrun : run (refresh h lib zoneRoot r) s = run (do
        let db ← ofResult (replaceCache lib r.id resA resAaaa s.db)
        modify fun s => { s with db := db, updated := true, refreshed := s.refreshed ++ [r.id] }) s := by
      unfold refresh
      rw [hdata]
      dsimp only
      rw [run_bind_ok (by rw [run_ofResult, halias]), if_neg hmatch, run_bind_ok (by rw [run_ofResult, hanswers])]
      rfl
    by_cases hforeign : Foreign lib r
    · have hstop : replaceCache lib r.id resA resAaaa s.db = .error .databaseError := by
        rw [replaceCache_eq]
        refine foldlM_saveCache_foreign ?_
        unfold Foreign at hforeign
        rwa [hanswered] at hforeign
      rw [hrun, run_bind_error (by rw [run_ofResult, hstop])]
      exact ⟨[], [r], rfl, fun b hb => (nomatch hb), by rwa [List.append_nil], r, [], rfl, not_not.mpr hforeign⟩
    · obtain ⟨db, hdb, hsame, hcached⟩ := @replaceCache_of_addresses lib r.id s.db resA resAaaa fun rr hrr hnone =>
        hforeign ⟨rr, hanswered ▸ hrr, hnone⟩
      rw [hrun, run_bind_ok (by rw [run_ofResult, hdb])]
      have hexact : Exact lib db r := by
        intro a
        rw [hcached]
        unfold Answered
        rw [hanswered]
      refine ⟨[r], [], rfl, fun b hb => ?_, hs.refresh hr hsame hexact true, rfl⟩
      rwa [List.mem_singleton.mp hb]

/-- The roots and the targets are names, and the answers are well-formed. -/
structure Named (h : Host) (lib : Library) (st : Store) : Prop where
  roots : ∀ zone ∈ st.zones, ∃ zoneRoot, DnsLabel.ofText h.py zone.zoneRoot = .ok zoneRoot
  aliases : ∀ r ∈ st.records, ∀ aliasName, r.data = .aname aliasName →
    ∃ aliasLabel, DnsLabel.ofText h.py aliasName = .ok aliasLabel
  answers : ∀ r ∈ targets h st, WellFormed lib r

theorem rowsOf_congr {st' : Store} (hrecords : st'.records = st.records) (m : Model) :
    rowsOf st' zone m = rowsOf st zone m := by
  unfold rowsOf Store.recordsOf
  rw [hrecords]

theorem mem_targets : r ∈ targets h st ↔ ∃ zone ∈ st.zones, r ∈ targetsOf h st zone := List.mem_flatMap

theorem mem_records_of_target (hr : r ∈ targetsOf h st zone) : r ∈ st.records :=
  (mem_rowsOf.mp (List.mem_filter.mp hr).1).1

theorem data_of_mem_rowsOf (hr : r ∈ rowsOf st zone .aname) : ∃ aliasName, r.data = .aname aliasName := by
  have hmodel : r.data.model = .aname := (mem_rowsOf.mp hr).2.2
  rcases hdata : r.data with _ | _ | aliasName | _ | _ | _ | _ | _ | _ | _ | _ | _ | _ | _ | _ | _ | _ | _ | _ | _
  case aname => exact ⟨aliasName, rfl⟩
  all_goals
    rw [hdata] at hmodel
    cases hmodel

/-- The records of a zone are worked off. -/
theorem worksOff_refreshZone (hn : Named h lib st) (hzone : zone ∈ st.zones) :
    WorksOff (Progress lib st) (fun r => ¬ Foreign lib r) (refreshZone h lib zone) (targetsOf h st zone) := by
  obtain ⟨zoneRoot, hroot⟩ := hn.roots zone hzone
  have hitems : targetsOf h st zone =
      [] ++ ((rowsOf st zone .aname).flatMap (fun r => [r].filter (outside h zone)) ++ []) := by
    unfold targetsOf
    rw [List.append_nil, List.nil_append, ← List.filter_flatMap, List.flatMap_singleton']
  rw [hitems]
  have hrun : ∀ done s, Progress lib st done s → run (refreshZone h lib zone) s =
      run (modify (fun s => { s with updated := false }) >>= fun _ =>
        runAll (refresh h lib zoneRoot) (rowsOf st zone .aname) >>= fun _ => publishZone zone) s := by
    intro done s hs
    unfold refreshZone
    rw [run_bind_ok (by rw [run_ofResult, hroot]), run_bind_ok (run_modify _ s),
      run_bind_ok (run_modify _ s), run_bind_ok (run_get _)]
    have hrows : rowsOf { s with updated := false }.db zone .aname = rowsOf st zone .aname :=
      rowsOf_congr hs.records _
    rw [hrows]
  refine worksOff_congr hrun ?_
  refine WorksOff.bind (worksOff_nil fun done s hs => ⟨_, _, run_modify _ s, hs.congr rfl rfl rfl rfl⟩) fun _ => ?_
  refine WorksOff.bind (worksOff_runAll fun r hr => ?_) fun _ => worksOff_nil fun done s hs => ?_
  · obtain ⟨aliasName, hdata⟩ := data_of_mem_rowsOf hr
    have hrecord : r ∈ st.records := (mem_rowsOf.mp hr).1
    obtain ⟨aliasLabel, halias⟩ := hn.aliases r hrecord aliasName hdata
    refine worksOff_refresh hroot hrecord hdata halias fun houtside => ?_
    exact hn.answers r (mem_targets.mpr ⟨zone, hzone, List.mem_filter.mpr ⟨hr, houtside⟩⟩)
  · refine ⟨_, _, run_modify _ s, ?_⟩
    split_ifs
    · exact hs.congr rfl rfl rfl rfl
    · exact hs

/-- **The run** works off the records with targets outside their zone. -/
theorem worksOff_handle (hn : Named h lib st) :
    WorksOff (Progress lib st) (fun r => ¬ Foreign lib r) (handle h lib) (targets h st) := by
  rw [← List.append_nil (targets h st)]
  have hrun : ∀ done s, Progress lib st done s → run (handle h lib) s =
      run (runAll (refreshZone h lib) st.zones.rows >>= fun _ => modify fun s => { s with catalog := true }) s := by
    intro done s hs
    unfold handle
    rw [run_bind_ok (run_get s), hs.zones]
  refine worksOff_congr hrun ?_
  refine WorksOff.bind (worksOff_runAll fun zone hzone => worksOff_refreshZone hn hzone) fun _ => ?_
  exact worksOff_nil fun done s hs => ⟨_, _, run_modify _ s, hs.congr rfl rfl rfl rfl⟩

theorem nodup_targets (h : Host) (st : Store) : (targets h st).Nodup := by
  have hzones : st.zones.rows.Pairwise fun z z' => z.id ≠ z'.id :=
    List.pairwise_map.mp st.zones.nodup
  refine List.nodup_flatMap.mpr ⟨fun zone _ => ?_, hzones.imp fun hne r hr hr' => ?_⟩
  · have hrecords : st.records.rows.Nodup := List.Nodup.of_map _ st.records.nodup
    have hrows : (rowsOf st zone .aname).Nodup :=
      (List.perm_insertionSort _ _).nodup_iff.mpr (hrecords.filter _)
    exact hrows.filter _
  · have hid := (mem_rowsOf.mp (List.mem_filter.mp hr).1).2.1
    have hid' := (mem_rowsOf.mp (List.mem_filter.mp hr').1).2.1
    exact hne (hid.symm.trans hid')

/-- A target outside the zone is written with what is in the cache. -/
theorem rowText_of_target (hroot : DnsLabel.ofText h.py zone.zoneRoot = .ok zoneRoot)
    (hr : r ∈ targetsOf h st zone) (st' : Store) : ∃ text, rowText h st' zone zoneRoot r = .ok text := by
  obtain ⟨hmem, houtside⟩ := List.mem_filter.mp hr
  obtain ⟨aliasName, hdata⟩ := data_of_mem_rowsOf hmem
  unfold outside at houtside
  rw [hdata] at houtside
  dsimp only at houtside
  rw [hroot] at houtside
  rcases halias : DnsLabel.ofText h.py aliasName with e | aliasLabel
  · rw [halias] at houtside
    cases houtside
  rw [halias] at houtside
  have hmatch : ¬ aliasLabel.matchSuffix zoneRoot = true := by simpa using houtside
  have hcopied := @copiedFrom_cache h st' zone zoneRoot aliasLabel r aliasName hroot hdata halias hmatch
  unfold rowText
  rcases ownerText h r with _ | owner
  · exact ⟨[], rfl⟩
  · unfold published
    rw [hdata]
    dsimp only
    rw [hcopied.zoneFile]
    exact ⟨_, rfl⟩

/-- **The caches follow the answers if and only if**, from the first record on whose answers hold a record
of another type, there are only such records, and their caches have the addresses already. -/
theorem follows_iff (hn : Named h lib st) : Follows h lib st ↔ Served h lib st := by
  have hstart : Progress lib st [] ⟨st, false, false, []⟩ :=
    ⟨rfl, rfl, fun r hr => (nomatch hr), fun r hr => (nomatch hr), fun _ _ _ => Iff.rfl, rfl⟩
  obtain ⟨done, left, htargets, hgood, hs, hend⟩ := worksOff_handle hn [] _ hstart
  rw [List.nil_append] at hs
  have hnodup := nodup_targets h st
  rw [htargets] at hnodup
  have hapart : ∀ r ∈ left, r ∉ done := fun r hr hr' => (List.nodup_append.mp hnodup).2.2 r hr' r hr rfl
  have hrows : ∀ r ∈ targets h st, r ∈ st.records := by
    intro r hr
    obtain ⟨zone, -, hr⟩ := mem_targets.mp hr
    exact mem_records_of_target hr
  -- what was not done has the cache that it had, and is not updated
  have hkept : ∀ r ∈ left, (Exact lib (after h lib st).db r ↔ Exact lib st r) ∧
      r.id ∉ (after h lib st).refreshed := by
    intro r hr
    have hids : ∀ r' ∈ done, r'.id ≠ r.id := by
      intro r' hr' hid
      have hmem := hrows r (htargets ▸ List.mem_append_right done hr)
      rw [eq_of_key (hs.rows r' hr') hmem hid] at hr'
      exact hapart r hr hr'
    constructor
    · exact forall_congr' fun a => iff_congr (hs.others r.id hids a) Iff.rfl
    · intro hmem
      unfold after at hmem
      rw [hs.refreshed] at hmem
      obtain ⟨r', hr', hid⟩ := List.mem_map.mp hmem
      exact hids r' hr' hid
  constructor
  · intro hfollows before r rest hsplit hforeign r' hr'
    have hleft : r' ∈ left := by
      have hlong : done.length ≤ before.length := by
        by_contra hshort
        have hmem : r ∈ done := by
          have hget := congrArg (·[before.length]?) (htargets.symm.trans hsplit)
          rw [List.getElem?_append_left (by omega), List.getElem?_append_right (le_refl _), Nat.sub_self] at hget
          exact List.mem_of_getElem? hget
        exact hgood r hmem hforeign
      have hdrop := congrArg (List.drop done.length) (htargets.symm.trans hsplit)
      rw [List.drop_left, List.drop_append_of_le_length hlong] at hdrop
      rw [hdrop]
      exact List.mem_append_right _ hr'
    have htarget : r' ∈ targets h st := htargets ▸ List.mem_append_right done hleft
    refine ⟨?_, (hkept r' hleft).1.mp (hfollows.exact r' htarget)⟩
    by_contra hclean
    exact (hkept r' hleft).2 (hfollows.updated r' htarget hclean)
  · intro hserved
    have hleft : ∀ r ∈ left, Foreign lib r ∧ Exact lib st r := by
      intro r hr
      rcases hrun : (run (handle h lib) ⟨st, false, false, []⟩).1 with e | u
      · rw [hrun] at hend
        obtain ⟨b, rest, rfl, hb⟩ := hend
        exact hserved done b rest htargets (not_not.mp hb) r hr
      · rw [hrun] at hend
        rw [show left = [] from hend] at hr
        cases hr
    refine ⟨fun r hr => ?_, fun r hr hclean => ?_, fun zone hzone zoneRoot hroot r hr => ?_⟩
    · rw [htargets] at hr
      rcases List.mem_append.mp hr with hr | hr
      · exact hs.exact r hr
      · exact (hkept r hr).1.mpr (hleft r hr).2
    · rw [htargets] at hr
      rcases List.mem_append.mp hr with hr | hr
      · unfold after
        rw [hs.refreshed]
        exact List.mem_map_of_mem hr
      · exact absurd (hleft r hr).1 hclean
    · exact rowText_of_target hroot hr _

end

/-! ### A run -/

theorem colon_notMem_ipv4Text (a : BitVec 32) : ':' ∉ ipv4Text a := by
  intro hmem
  rcases mem_of_mem_intercalate hmem with hmem | ⟨t, ht, hmem⟩
  · exact absurd hmem (by decide)
  · obtain ⟨i, -, rfl⟩ := List.mem_map.mp ht
    exact absurd (isDigit_showNat hmem) (by decide)

theorem colon_mem_ipv6Text (a : BitVec 128) : ':' ∈ ipv6Text a := by
  by_contra hno
  have hread := readIpv6_ipv6Text a
  unfold readIpv6 at hread
  rw [List.splitOn_eq_singleton hno] at hread
  obtain ⟨ns, hns, hlen⟩ := Option.bind_eq_some_iff.mp hread
  have hone : ns.length = 1 := by
    unfold expandHextets at hns
    by_cases hnil : ipv6Text a = []
    · rw [hnil] at hns
      exact absurd hns (by simp)
    · rw [if_neg (by simpa using Ne.symm hnil), List.mapM_cons] at hns
      obtain ⟨n, -, hns⟩ := Option.bind_eq_some_iff.mp hns
      obtain rfl : [n] = ns := Option.some.inj hns
      rfl
  rw [hone] at hlen
  exact absurd hlen (by simp)

/-- A resolver that answers with an address, for `b.net` after a CNAME. -/
private def exampleLibrary : Library where
  send name qtype := .ok (if qtype = .a then encode name else [])
  parse packet :=
    let address : Rr := ⟨⟨[packet]⟩, .a, .in, 60, .a 0xc0000201#32⟩
    .ok (if packet = [] then []
      else if packet = encode "b.net".toList then [⟨⟨[packet]⟩, .cname, .in, 60, .cname ⟨[[97]]⟩⟩, address]
      else [address])
  rdataText
    | .a a => ipv4Text a
    | .aaaa a => ipv6Text a
    | _ => ['.']
  inet t := if ':' ∈ t then (readIpv6 t).map IpAddr.v6 else (readIpv4 t).map IpAddr.v4
  inet_address rdata a ha := by
    cases rdata with
    | a a' =>
      obtain rfl := Option.some.inj ha
      dsimp only
      rw [if_neg (colon_notMem_ipv4Text a'), readIpv4_ipv4Text]
      rfl
    | aaaa a' =>
      obtain rfl := Option.some.inj ha
      dsimp only
      rw [if_pos (colon_mem_ipv6Text a'), readIpv6_ipv6Text]
      rfl
    | _ => cases ha
  inet_other rdata hnone := by
    cases rdata with
    | a a' => cases hnone
    | aaaa a' => cases hnone
    | _ => rfl

/-- A zone with an ANAME. -/
private def anameStore (aliasName : Text) : Store :=
  { Store.empty with
    zones := Table.empty.save ⟨1, "example.com".toList, false⟩
    records := Table.empty.save ⟨1, 1, "www".toList, 300, .aname aliasName⟩ }

theorem eq_of_mem_singleton {R : Type} {key : R → ℕ} {r x : R} (hx : x ∈ (Table.empty : Table R key).save r) :
    x = r := by
  rcases mem_save.mp hx with heq | ⟨hmem, -⟩
  · exact heq
  · cases hmem

theorem named_anameStore {aliasName : Text} {aliasLabel : DnsLabel}
    (halias : DnsLabel.ofText Python.ascii aliasName = .ok aliasLabel) :
    Named .ascii exampleLibrary (anameStore aliasName) := by
  refine ⟨fun zone hzone => ?_, fun r hr aliasName' hdata => ?_, fun r hr => ?_⟩
  · rw [eq_of_mem_singleton hzone]
    exact ⟨⟨["example", "com"].map fun l => encode l.toList⟩, by decide⟩
  · rw [eq_of_mem_singleton hr] at hdata
    obtain rfl := RecordData.aname.inj hdata
    exact ⟨aliasLabel, halias⟩
  · obtain ⟨zone, -, hr⟩ := mem_targets.mp hr
    rw [eq_of_mem_singleton (mem_records_of_target hr)]
    exact ⟨aliasName, _, _, rfl, rfl⟩

theorem follows_address : Follows .ascii exampleLibrary (anameStore "a.net".toList) := by
  refine (follows_iff (@named_anameStore _ ⟨["a", "net"].map fun l => encode l.toList⟩ (by decide))).mpr ?_
  intro before r rest hsplit hforeign
  obtain ⟨zone, -, hr⟩ := mem_targets.mp (show r ∈ targets .ascii (anameStore "a.net".toList) by
    rw [hsplit]
    exact List.mem_append_right before List.mem_cons_self)
  rw [eq_of_mem_singleton (mem_records_of_target hr)] at hforeign
  obtain ⟨rr, hrr, hnone⟩ := hforeign
  have hall : ∀ rr ∈ answered exampleLibrary ⟨1, 1, "www".toList, 300, .aname "a.net".toList⟩,
      rdataAddress rr.rdata ≠ none := by decide
  exact absurd hnone (hall rr hrr)

/-- The record before the address is a CNAME, and nothing is stored. -/
theorem not_follows : ¬ ∀ (h : Host) (lib : Library) (st : Store), Named h lib st → Follows h lib st := by
  intro hall
  have hfollows := hall .ascii exampleLibrary (anameStore "b.net".toList)
    (@named_anameStore _ ⟨["b", "net"].map fun l => encode l.toList⟩ (by decide))
  have htarget : (⟨1, 1, "www".toList, 300, .aname "b.net".toList⟩ : Row) ∈
      targets .ascii (anameStore "b.net".toList) := by decide
  obtain ⟨c, hc, -⟩ := (hfollows.exact _ htarget (.v4 0xc0000201#32)).mpr
    ⟨⟨⟨[encode "b.net".toList]⟩, .a, .in, 60, .a 0xc0000201#32⟩, by decide, rfl⟩
  have hnone : (after .ascii exampleLibrary (anameStore "b.net".toList)).db.anameCache.rows = [] := rfl
  have hc' : c ∈ (after .ascii exampleLibrary (anameStore "b.net".toList)).db.anameCache.rows := hc
  rw [hnone] at hc'
  cases hc'

end HexDns.Commands.UpdateAname
