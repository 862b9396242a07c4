import HexDns.Commands.ValidateNs

/-! # Five strikes

The command `validate-ns` counts the checks that an active zone fails one after the other, and makes it
inactive at the fifth. A check that passes makes a zone active and sets the counter to zero. So does not
`create_domains_zone`, which makes a zone active that is there already, and leaves the counter at five if
the command made it inactive.

The `history` of a zone has the checks that it passed or failed, and when it became active.
`fiveStrikes_of_along`: in every run in which no zone with a counter above zero is made active by
`create_domains_zone`, a zone becomes inactive only after five failed checks in a row, all of them after it
became active. -/

namespace HexDns.Commands.FiveStrikes

open HexDns.Lib.Texts HexDns.Lib.Tables HexDns.Lib.Runs HexDns.Base.Py HexDns.Base.Label
  HexDns.Models.Db HexDns.Models.Env HexDns.Commands.ValidateNs

/-! ### Histories -/

inductive Event
  | pass
  | fail
  | becameActive
  deriving DecidableEq, Repr

/-- The failed checks after everything else, in a history with the last event first. -/
def strikes (history : List Event) : ℕ := (history.takeWhile (· = .fail)).length

@[simp] theorem strikes_fail (history : List Event) : strikes (.fail :: history) = strikes history + 1 :=
  rfl

theorem prefix_of_le_strikes {n : ℕ} {history : List Event} (hn : n ≤ strikes history) :
    List.replicate n Event.fail <+: history := by
  have hall : history.takeWhile (· = .fail) = List.replicate (strikes history) .fail := by
    refine List.eq_replicate_of_mem fun e he => ?_
    simpa using List.mem_takeWhile_imp he
  refine List.IsPrefix.trans ?_ (List.takeWhile_prefix (· = Event.fail))
  rw [hall]
  exact ⟨List.replicate (strikes history - n) .fail, by rw [List.replicate_append_replicate]; congr 1; omega⟩

/-! ### The system -/

section
variable (h : Host)

/-- What the check of a zone comes to, if the zone could be checked. -/
def outcome (customNs : Table CustomNs CustomNs.id) (lookup : Lookup) (zone : ZoneRow) : Option Event :=
  match lookup with
  | .failed | .raises => none
  | .answer none | .answer (some []) => some .fail
  | .answer (some ns) =>
    match wanted h customNs zone with
    | .error _ => none
    | .ok wanted => if wanted.any fun wns => ns.any fun l => l.Eqv wns then some .pass else some .fail

/-- The columns of a zone that `create_domains_zone` makes, apart from the root. -/
structure NewZone where
  lastModified : ℕ
  zskPrivate : Option Text
  resourceId : Option ℕ
  deriving DecidableEq, Repr

/-- `DNSZone.objects.filter(zone_root=domain).first()` -/
def existingZone (zones : Zones) (domain : Text) : Option ZoneRow :=
  ((zones.rows.filter fun z => z.isPrimary && z.zoneRoot = domain).insertionSort fun z w => z.id ≤ w.id).head?

/-- `create_domains_zone` after the token and the domains service have been asked; there is nothing to
create if `valid_zone` or `log_usage` refuses. -/
def createDomainsZone (zones : Zones) (domain : Text) (created : Option NewZone) : Zones :=
  match existingZone zones domain with
  | some zone => saveZone h zones { zone with active := true }
  | none =>
    match created with
    | none => zones
    | some new => saveZone h zones
      ⟨zones.next, domain, false, true, 0, new.resourceId, false, .primary new.lastModified new.zskPrivate⟩

/-- The command with the database, and the histories of the zones. -/
structure State where
  system : System
  history : ℕ → List Event

/-- What happens next. -/
inductive Act
  /-- `validate-ns` is run again -/
  | start
  | command (lookup : Lookup) (mail : Bool)
  | createDomainsZone (domain : Text) (created : Option NewZone)

def isActive (zones : Zones) (id : ℕ) : Bool := ((getRow zones id).map ZoneRow.active).getD false

/-- The zone becomes active. -/
def becomes (zones zones' : Zones) (id : ℕ) : List Event :=
  if isActive zones id = false ∧ isActive zones' id = true then [.becameActive] else []

/-- The zone is checked. -/
def checked (s : System) (lookup : Lookup) (id : ℕ) : List Event :=
  match s.phase with
  | .checking (zone :: _) => if zone.id = id then (outcome h s.customNs lookup zone).toList else []
  | _ => []

def step (s : State) : Act → Option State
  | .start =>
    match s.system.phase with
    | .checking [] | .stopped => some { s with system := { s.system with phase := .started } }
    | _ => none
  | .command lookup mail =>
    (command h lookup mail s.system).map fun system =>
      ⟨system, fun id => becomes s.system.zones system.zones id ++ checked h s.system lookup id ++ s.history id⟩
  | .createDomainsZone domain created =>
    let zones := createDomainsZone h s.system.zones domain created
    some ⟨{ s.system with zones := zones }, fun id => becomes s.system.zones zones id ++ s.history id⟩

/-- A zone that becomes inactive has failed its last five checks, all after it became active. -/
def InactiveAfterFive (s : State) (a : Act) : Prop :=
  ∀ s', step h s a = some s' → ∀ id, isActive s.system.zones id = true →
    isActive s'.system.zones id = false → List.replicate 5 Event.fail <+: s.history id

/-- The zone that `create_domains_zone` finds is active, or its counter is zero. -/
def Unstruck (s : State) : Act → Prop
  | .createDomainsZone domain _ => ∀ zone, existingZone s.system.zones domain = some zone →
      zone.active = false → zone.numCheckFails = 0
  | _ => True

instance (s : State) : DecidablePred (Unstruck s) := fun a =>
  match a with
  | .createDomainsZone domain _ => inferInstanceAs (Decidable (∀ zone ∈ existingZone s.system.zones domain,
      zone.active = false → zone.numCheckFails = 0))
  | .start | .command _ _ => inferInstanceAs (Decidable True)

/-! ### What holds in a run -/

variable {h}

/-- The copies that the command is still to check. -/
def copies : Phase → List ZoneRow
  | .loading zones => zones
  | .checking zones => zones
  | .saving _ rest => rest
  | _ => []

/-- The counters of the active zones and of the copies are at most the failed checks. -/
structure Inv (zones : Zones) (history : ℕ → List Event) (phase : Phase) : Prop where
  rows : ∀ row ∈ zones, row.active = true → (∃ zone rest, phase = .saving zone rest ∧ zone.id = row.id) ∨
    row.numCheckFails ≤ strikes (history row.id)
  nodup : ((copies phase).map ZoneRow.id).Nodup
  copies : ∀ zone ∈ copies phase, zone.active = true →
    isActive zones zone.id = true ∧ zone.numCheckFails ≤ strikes (history zone.id)
  loading : ∀ loaded, phase = .loading loaded → ∀ zone ∈ loaded,
    ∃ row ∈ zones, row.id = zone.id ∧ row.isPrimary = true
  saving : ∀ zone rest, phase = .saving zone rest → zone.id ∉ rest.map ZoneRow.id ∧
    (zone.active = true → zone.numCheckFails ≤ strikes (history zone.id) ∧
      (zone.numCheckFails = 0 ∨ isActive zones zone.id = true)) ∧
    (zone.active = false → isActive zones zone.id = true ∧ 5 ≤ strikes (history zone.id))

/-! ### Zones that are saved -/

section
variable {zones : Zones} {history history' : ℕ → List Event} {phase : Phase}

theorem isActive_iff {id : ℕ} :
    isActive zones id = true ↔ ∃ row ∈ zones, row.id = id ∧ row.active = true := by
  unfold isActive
  rcases hg : getRow zones id with _ | row
  · have hnone := getRow_eq_none.mp hg
    refine iff_of_false Bool.false_ne_true ?_
    rintro ⟨row, hrow, hid, -⟩
    exact hnone row hrow hid
  · obtain ⟨hrow, hid⟩ := getRow_eq_some.mp hg
    show row.active = true ↔ _
    constructor
    · intro hactive
      exact ⟨row, hrow, hid, hactive⟩
    · rintro ⟨row', hrow', hid', hactive⟩
      rwa [eq_of_key hrow hrow' (hid.trans hid'.symm)]

theorem isActive_saveZone (zone : ZoneRow) (id : ℕ) :
    isActive (saveZone h zones zone) id = if zone.id = id then zone.active else isActive zones id := by
  unfold isActive saveZone
  rw [getRow_save]
  show Option.getD (Option.map _ (if zone.id = id then _ else _)) _ = _
  split_ifs
  · rfl
  · rfl

theorem mem_saveZone {zone row : ZoneRow} : row ∈ saveZone h zones zone ↔
    row = { zone with zoneRoot := h.py.lower zone.zoneRoot } ∨ (row ∈ zones ∧ row.id ≠ zone.id) :=
  mem_save

theorem becomes_of_ne {zone : ZoneRow} {id : ℕ} (hid : zone.id ≠ id) :
    becomes zones (saveZone h zones zone) id = [] := by
  unfold becomes
  rw [isActive_saveZone, if_neg hid]
  exact if_neg fun hboth => Bool.false_ne_true (hboth.1.symm.trans hboth.2)

theorem becomes_of_isActive {zones' : Zones} {id : ℕ} (hactive : isActive zones id = true) :
    becomes zones zones' id = [] := by
  unfold becomes
  refine if_neg fun hboth => ?_
  rw [hactive] at hboth
  exact Bool.noConfusion hboth.1

theorem becomes_self (zones : Zones) (id : ℕ) : becomes zones zones id = [] := by
  unfold becomes
  exact if_neg fun hboth => Bool.false_ne_true (hboth.1.symm.trans hboth.2)

/-- **What the check of a zone does**, by its outcome. -/
theorem check_cases (customNs : Table CustomNs CustomNs.id) (lookup : Lookup) (mail : Bool) (zone : ZoneRow)
    (rest : List ZoneRow) :
    (outcome h customNs lookup zone = none ∧ (check h customNs lookup mail zone rest = .checking rest ∨
      check h customNs lookup mail zone rest = .stopped)) ∨
    (outcome h customNs lookup zone = some .pass ∧ check h customNs lookup mail zone rest =
      .saving { zone with active := true, numCheckFails := 0 } rest) ∨
    (outcome h customNs lookup zone = some .fail ∧
      check h customNs lookup mail zone rest = incrementZoneFail mail zone rest) := by
  rcases lookup with _ | _ | ns
  · exact Or.inl ⟨rfl, Or.inl rfl⟩
  · exact Or.inl ⟨rfl, Or.inr rfl⟩
  rcases ns with _ | _ | ⟨ns, more⟩
  · exact Or.inr (Or.inr ⟨rfl, rfl⟩)
  · exact Or.inr (Or.inr ⟨rfl, rfl⟩)
  · unfold outcome check
    dsimp only
    rcases wanted h customNs zone with e | wanted
    · exact Or.inl ⟨rfl, Or.inr rfl⟩
    · dsimp only
      split_ifs
      · exact Or.inr (Or.inl ⟨rfl, rfl⟩)
      · exact Or.inr (Or.inr ⟨rfl, rfl⟩)

/-- What a failed check does. -/
theorem incrementZoneFail_cases (mail : Bool) (zone : ZoneRow) (rest : List ZoneRow) :
    (zone.active = false ∧ incrementZoneFail mail zone rest = .checking rest) ∨
    incrementZoneFail mail zone rest = .stopped ∨
    (zone.active = true ∧ ∃ active, (active = false → 5 ≤ zone.numCheckFails + 1) ∧
      incrementZoneFail mail zone rest =
        .saving { zone with active := active, numCheckFails := zone.numCheckFails + 1 } rest) := by
  unfold incrementZoneFail
  by_cases hactive : zone.active = true
  · rw [if_pos hactive]
    dsimp only
    by_cases hfive : zone.numCheckFails + 1 ≥ 5
    · rw [if_pos hfive]
      rcases mail with _ | _
      · exact Or.inr (Or.inr ⟨hactive, false, fun _ => hfive, rfl⟩)
      · exact Or.inr (Or.inl rfl)
    · rw [if_neg hfive]
      refine Or.inr (Or.inr ⟨hactive, true, fun hfalse => Bool.noConfusion hfalse, ?_⟩)
      rw [← hactive]
  · rw [if_neg hactive]
    exact Or.inl ⟨by simpa using hactive, rfl⟩

end

/-! ### Steps -/

section
variable {zones : Zones} {history history' : ℕ → List Event} {phase : Phase}

/-- Every counter of an active zone is at most the failed checks. -/
def Counted (zones : Zones) (history : ℕ → List Event) : Prop :=
  ∀ row ∈ zones, row.active = true → row.numCheckFails ≤ strikes (history row.id)

theorem Inv.counted (hI : Inv zones history phase) (hphase : ∀ zone rest, phase ≠ .saving zone rest) :
    Counted zones history := by
  intro row hrow hactive
  rcases hI.rows row hrow hactive with ⟨zone, rest, hsaving, -⟩ | hle
  · exact absurd hsaving (hphase zone rest)
  · exact hle

/-- No copies are left. -/
theorem Counted.inv (hc : Counted zones history) (hcopies : copies phase = [])
    (hloading : ∀ loaded, phase ≠ .loading loaded) (hsaving : ∀ zone rest, phase ≠ .saving zone rest) :
    Inv zones history phase where
  rows row hrow hactive := Or.inr (hc row hrow hactive)
  nodup := by rw [hcopies]; exact List.nodup_nil
  copies zone hz := by rw [hcopies] at hz; cases hz
  loading loaded hphase := absurd hphase (hloading loaded)
  saving zone rest hphase := absurd hphase (hsaving zone rest)

/-- A copy of a row is one that can be checked. -/
theorem Counted.copy (hc : Counted zones history) {row : ZoneRow} (hrow : row ∈ zones)
    (hactive : row.active = true) :
    isActive zones row.id = true ∧ row.numCheckFails ≤ strikes (history row.id) :=
  ⟨isActive_iff.mpr ⟨row, hrow, rfl, hactive⟩, hc row hrow hactive⟩

theorem nodup_rows (zones : Zones) (p : ZoneRow → Bool) : ((zones.rows.filter p).map ZoneRow.id).Nodup :=
  zones.nodup.sublist (List.filter_sublist.map _)

/-- The rows of `DNSZone` are loaded. -/
theorem Inv.loadForward (hI : Inv zones history .started) :
    Inv zones history (.loading (zones.rows.filter (·.isPrimary))) := by
  have hc : Counted zones history := hI.counted fun _ _ => Phase.noConfusion
  refine ⟨fun row hrow hactive => Or.inr (hc row hrow hactive), nodup_rows zones _, fun zone hz hactive => ?_,
    fun loaded hloaded zone hz => ?_, fun zone rest hphase => nomatch hphase⟩
  · exact hc.copy (List.mem_filter.mp hz).1 hactive
  · obtain rfl := Phase.loading.inj hloaded
    obtain ⟨hmem, hprimary⟩ := List.mem_filter.mp hz
    exact ⟨zone, hmem, rfl, hprimary⟩

/-- The rows of `SecondaryDNSZone` are loaded. -/
theorem Inv.loadSecondary {loaded : List ZoneRow} (hI : Inv zones history (.loading loaded)) :
    Inv zones history (.checking (loaded ++ zones.rows.filter fun z => !z.isPrimary)) := by
  have hc : Counted zones history := hI.counted fun _ _ => Phase.noConfusion
  refine ⟨fun row hrow hactive => Or.inr (hc row hrow hactive), ?_, fun zone hz hactive => ?_,
    fun loaded hloaded => (nomatch hloaded), fun zone rest hphase => (nomatch hphase)⟩
  · show (List.map ZoneRow.id (_ ++ _)).Nodup
    rw [List.map_append]
    refine hI.nodup.append (nodup_rows zones _) ?_
    -- an id of a row of one of the models is not one of the other
    intro id hid hid'
    obtain ⟨zone, hz, rfl⟩ := List.mem_map.mp hid
    obtain ⟨row, hrow, hsame⟩ := List.mem_map.mp hid'
    obtain ⟨row', hrow', hsame', hprimary⟩ := hI.loading loaded rfl zone hz
    obtain ⟨hmem, hsecondary⟩ := List.mem_filter.mp hrow
    rw [eq_of_key hmem hrow' (hsame.trans hsame'.symm), hprimary] at hsecondary
    cases hsecondary
  · rcases List.mem_append.mp hz with hz | hz
    · exact hI.copies zone hz hactive
    · exact hc.copy (List.mem_filter.mp hz).1 hactive

/-- Copies are left to be checked. -/
theorem Counted.checking (hc : Counted zones history) {rest : List ZoneRow}
    (hnodup : (rest.map ZoneRow.id).Nodup) (hcopies : ∀ z ∈ rest, z.active = true →
      isActive zones z.id = true ∧ z.numCheckFails ≤ strikes (history z.id)) :
    Inv zones history (.checking rest) where
  rows row hrow hactive := Or.inr (hc row hrow hactive)
  nodup := hnodup
  copies := hcopies
  loading _ hphase := nomatch hphase
  saving _ _ hphase := nomatch hphase

/-- A zone is checked. -/
theorem Inv.check {zone : ZoneRow} {rest : List ZoneRow} (hI : Inv zones history (.checking (zone :: rest)))
    (customNs : Table CustomNs CustomNs.id) (lookup : Lookup) (mail : Bool)
    (hhistory : ∀ id, history' id =
      (if zone.id = id then (outcome h customNs lookup zone).toList else []) ++ history id) :
    Inv zones history' (check h customNs lookup mail zone rest) := by
  have hc : Counted zones history := hI.counted fun _ _ => Phase.noConfusion
  obtain ⟨hnot, hnodup⟩ := List.nodup_cons.mp hI.nodup
  have hcopies : ∀ z ∈ rest, z.active = true →
      isActive zones z.id = true ∧ z.numCheckFails ≤ strikes (history z.id) :=
    fun z hz => hI.copies z (List.mem_cons_of_mem zone hz)
  have hothers : ∀ id, zone.id ≠ id → history' id = history id := by
    intro id hid
    rw [hhistory, if_neg hid]
    rfl
  have hrest : ∀ z ∈ rest, history' z.id = history z.id := by
    intro z hz
    exact hothers z.id fun hid => hnot (hid ▸ List.mem_map_of_mem hz)
  have hcopies' : ∀ z ∈ rest, z.active = true →
      isActive zones z.id = true ∧ z.numCheckFails ≤ strikes (history' z.id) := by
    intro z hz
    rw [hrest z hz]
    exact hcopies z hz
  rcases check_cases (h := h) customNs lookup mail zone rest with ⟨hout, hphase⟩ | ⟨hout, hphase⟩ |
    ⟨hout, hphase⟩
  · -- nothing is known of the zone
    have hsame : history' = history := by
      funext id
      rw [hhistory, hout]
      split_ifs <;> rfl
    rw [hsame]
    rcases hphase with hphase | hphase
    · rw [hphase]
      exact hc.checking hnodup hcopies
    · rw [hphase]
      exact hc.inv rfl (fun _ => Phase.noConfusion) fun _ _ => Phase.noConfusion
  · -- its counter is about to be zero
    rw [hphase]
    refine ⟨fun row hrow hactive => ?_, hnodup, hcopies', fun loaded hloaded => (nomatch hloaded),
      fun saved rest' hsaving => ?_⟩
    · by_cases hid : zone.id = row.id
      · exact Or.inl ⟨_, _, rfl, hid⟩
      · rw [hothers row.id hid]
        exact Or.inr (hc row hrow hactive)
    · obtain ⟨rfl, rfl⟩ := Phase.saving.inj hsaving
      exact ⟨hnot, fun _ => ⟨Nat.zero_le _, Or.inl rfl⟩, fun hfalse => (nomatch hfalse)⟩
  · -- it has failed once more
    have hself : strikes (history' zone.id) = strikes (history zone.id) + 1 := by
      rw [hhistory, if_pos rfl, hout]
      rfl
    have hc' : Counted zones history' := by
      intro row hrow hactive
      have hle := hc row hrow hactive
      by_cases hid : zone.id = row.id
      · rw [← hid] at hle ⊢
        omega
      · rwa [hothers row.id hid]
    rw [hphase]
    rcases incrementZoneFail_cases mail zone rest with ⟨-, hphase⟩ | hphase | ⟨hactive, active, hfive, hphase⟩
    · rw [hphase]
      exact hc'.checking hnodup hcopies'
    · rw [hphase]
      exact hc'.inv rfl (fun _ => Phase.noConfusion) fun _ _ => Phase.noConfusion
    · rw [hphase]
      obtain ⟨hrow, hle⟩ := hI.copies zone List.mem_cons_self hactive
      refine ⟨fun row hrow hactive => Or.inr (hc' row hrow hactive), hnodup, hcopies',
        fun loaded hloaded => (nomatch hloaded), fun saved rest' hsaving => ?_⟩
      obtain ⟨rfl, rfl⟩ := Phase.saving.inj hsaving
      refine ⟨hnot, fun _ => ⟨?_, Or.inr hrow⟩, fun hfalse => ⟨hrow, ?_⟩⟩
      · show zone.numCheckFails + 1 ≤ strikes (history' zone.id)
        omega
      · have hcount := hfive hfalse
        show 5 ≤ strikes (history' zone.id)
        omega

/-- **The copy is saved**: the zone becomes inactive after five failed checks only. -/
theorem Inv.save {zone : ZoneRow} {rest : List ZoneRow} (hI : Inv zones history (.saving zone rest))
    (hhistory : ∀ id, history' id = becomes zones (saveZone h zones zone) id ++ history id) :
    Inv (saveZone h zones zone) history' (.checking rest) ∧ ∀ id, isActive zones id = true →
      isActive (saveZone h zones zone) id = false → 5 ≤ strikes (history id) := by
  obtain ⟨hnot, hactive, hinactive⟩ := hI.saving zone rest rfl
  have hothers : ∀ id, zone.id ≠ id → history' id = history id := by
    intro id hid
    rw [hhistory, becomes_of_ne hid]
    rfl
  refine ⟨Counted.checking (fun row hrow hrowActive => ?_) hI.nodup fun z hz hzActive => ?_,
    fun id hbefore hafter => ?_⟩
  · rcases mem_saveZone.mp hrow with rfl | ⟨hrow, hid⟩
    · show zone.numCheckFails ≤ strikes (history' zone.id)
      obtain ⟨hle, hzero | hbefore⟩ := hactive hrowActive
      · rw [hzero]
        exact Nat.zero_le _
      · rw [hhistory, becomes_of_isActive hbefore]
        exact hle
    · rw [hothers row.id (Ne.symm hid)]
      rcases hI.rows row hrow hrowActive with ⟨saved, rest', hsaving, hsame⟩ | hle
      · obtain ⟨rfl, rfl⟩ := Phase.saving.inj hsaving
        exact absurd hsame.symm hid
      · exact hle
  · have hid : zone.id ≠ z.id := fun hid => hnot (hid ▸ List.mem_map_of_mem hz)
    rw [hothers z.id hid, isActive_saveZone, if_neg hid]
    exact hI.copies z hz hzActive
  · rw [isActive_saveZone] at hafter
    by_cases hid : zone.id = id
    · rw [if_pos hid] at hafter
      rw [← hid]
      exact (hinactive hafter).2
    · rw [if_neg hid, hbefore] at hafter
      cases hafter

/-- **A zone is saved as active**, with the counter that it has, or with zero if it was not active. -/
theorem Inv.activate (hI : Inv zones history phase) {zone : ZoneRow} (hactive : zone.active = true)
    (hrow : (∃ row ∈ zones, row.id = zone.id ∧ row.active = true ∧ row.numCheckFails = zone.numCheckFails) ∨
      isActive zones zone.id = false ∧ zone.numCheckFails = 0)
    (hprimary : ∀ row ∈ zones, row.id = zone.id → row.isPrimary = true → zone.isPrimary = true)
    (hhistory : ∀ id, history' id = becomes zones (saveZone h zones zone) id ++ history id) :
    Inv (saveZone h zones zone) history' phase := by
  have hothers : ∀ id, zone.id ≠ id → history' id = history id := by
    intro id hid
    rw [hhistory, becomes_of_ne hid]
    rfl
  have hsame : ∀ id, isActive zones id = true → history' id = history id := by
    intro id hid
    rw [hhistory, becomes_of_isActive hid]
    rfl
  have hstays : ∀ id, isActive zones id = true → isActive (saveZone h zones zone) id = true := by
    intro id hid
    rw [isActive_saveZone]
    split_ifs
    · exact hactive
    · exact hid
  refine ⟨fun row hmem hrowActive => ?_, hI.nodup, fun z hz hzActive => ?_, fun loaded hloaded z hz => ?_,
    fun saved rest hsaving => ?_⟩
  · rcases mem_saveZone.mp hmem with rfl | ⟨hmem, hid⟩
    · rcases hrow with ⟨row, hrow, hid, hrowActive, hfails⟩ | ⟨-, hzero⟩
      · rcases hI.rows row hrow hrowActive with hsaving | hle
        · exact Or.inl (hid ▸ hsaving)
        · right
          show zone.numCheckFails ≤ strikes (history' zone.id)
          rwa [hsame zone.id (isActive_iff.mpr ⟨row, hrow, hid, hrowActive⟩), ← hfails, ← hid]
      · right
        show zone.numCheckFails ≤ strikes (history' zone.id)
        rw [hzero]
        exact Nat.zero_le _
    · rw [hothers row.id (Ne.symm hid)]
      exact hI.rows row hmem hrowActive
  · obtain ⟨hbefore, hle⟩ := hI.copies z hz hzActive
    rw [hsame z.id hbefore]
    exact ⟨hstays z.id hbefore, hle⟩
  · obtain ⟨row, hmem, hid, hprimaryRow⟩ := hI.loading loaded hloaded z hz
    by_cases hzone : row.id = zone.id
    · exact ⟨_, mem_saveZone.mpr (Or.inl rfl), hzone.symm.trans hid, hprimary row hmem hzone hprimaryRow⟩
    · exact ⟨row, mem_saveZone.mpr (Or.inr ⟨hmem, hzone⟩), hid, hprimaryRow⟩
  · obtain ⟨hnot, hsavedActive, hsavedInactive⟩ := hI.saving saved rest hsaving
    refine ⟨hnot, fun hsaved => ?_, fun hsaved => ?_⟩
    · obtain ⟨hle, hzero | hbefore⟩ := hsavedActive hsaved
      · rw [hzero]
        exact ⟨Nat.zero_le _, Or.inl rfl⟩
      · rw [hsame saved.id hbefore]
        exact ⟨hle, Or.inr (hstays saved.id hbefore)⟩
    · obtain ⟨hbefore, hfive⟩ := hsavedInactive hsaved
      rw [hsame saved.id hbefore]
      exact ⟨hstays saved.id hbefore, hfive⟩

theorem mem_of_existingZone {domain : Text} {zone : ZoneRow} (hz : existingZone zones domain = some zone) :
    zone ∈ zones := by
  have hmem := List.mem_of_head? hz
  exact (List.mem_filter.mp ((List.mem_insertionSort _).mp hmem)).1

/-- `create_domains_zone` makes a zone active, or creates one, or leaves the zones as they are. -/
theorem Inv.createDomainsZone (hI : Inv zones history phase) {domain : Text} {created : Option NewZone}
    (hok : ∀ zone, existingZone zones domain = some zone → zone.active = false → zone.numCheckFails = 0)
    (hhistory : ∀ id, history' id = becomes zones (createDomainsZone h zones domain created) id ++ history id) :
    Inv (createDomainsZone h zones domain created) history' phase ∧ ∀ id, isActive zones id = true →
      isActive (createDomainsZone h zones domain created) id = true := by
  unfold FiveStrikes.createDomainsZone at hhistory ⊢
  have hkeeps : ∀ {zone : ZoneRow}, zone.active = true → ∀ id, isActive zones id = true →
      isActive (saveZone h zones zone) id = true := by
    intro zone hactive id hid
    rw [isActive_saveZone]
    split_ifs
    · exact hactive
    · exact hid
  rcases hexisting : existingZone zones domain with _ | zone
  · rw [hexisting] at hhistory
    dsimp only at hhistory ⊢
    rcases created with _ | new
    · have hsame : history' = history := funext fun id => by
        rw [hhistory]
        dsimp only
        rw [becomes_self]
        rfl
      rw [hsame]
      exact ⟨hI, fun _ hid => hid⟩
    · have hfresh : ∀ row ∈ zones, row.id ≠ zones.next := fun row hrow => (key_lt_next hrow).ne
      refine ⟨hI.activate rfl (Or.inr ⟨?_, rfl⟩) (fun row hrow hid => absurd hid (hfresh row hrow)) hhistory,
        hkeeps rfl⟩
      rw [← Bool.not_eq_true, isActive_iff]
      rintro ⟨row, hrow, hid, -⟩
      exact hfresh row hrow hid
  · rw [hexisting] at hhistory
    dsimp only at hhistory ⊢
    have hmem := mem_of_existingZone hexisting
    have hself : ∀ row ∈ zones, row.id = zone.id → row = zone := fun row hrow => eq_of_key hrow hmem
    refine ⟨hI.activate rfl ?_ (fun row hrow hid hprimary => ?_) hhistory, hkeeps rfl⟩
    · by_cases hactive : zone.active = true
      · exact Or.inl ⟨zone, hmem, rfl, hactive, rfl⟩
      · refine Or.inr ⟨?_, hok zone hexisting (by simpa using hactive)⟩
        rw [← Bool.not_eq_true, isActive_iff]
        rintro ⟨row, hrow, hid, hrowActive⟩
        exact hactive (hself row hrow hid ▸ hrowActive)
    · obtain rfl := hself row hrow hid
      exact hprimary

/-- **A step that meets the condition** keeps what holds in a run, and makes a zone inactive after five
failed checks only. -/
theorem inv_step {s s' : State} {a : Act} (hI : Inv s.system.zones s.history s.system.phase)
    (hok : Unstruck s a) (hs : step h s a = some s') :
    Inv s'.system.zones s'.history s'.system.phase ∧ ∀ id, isActive s.system.zones id = true →
      isActive s'.system.zones id = false → 5 ≤ strikes (s.history id) := by
  obtain ⟨⟨zones, customNs, phase, others⟩, history⟩ := s
  have hkept : ∀ id, isActive zones id = true → isActive zones id = false → 5 ≤ strikes (history id) := by
    intro id hbefore hafter
    rw [hbefore] at hafter
    cases hafter
  rcases a with _ | ⟨lookup, mail⟩ | ⟨domain, created⟩
  · change (match phase with | .checking [] | .stopped => _ | _ => _) = _ at hs
    split at hs
    · obtain rfl := Option.some.inj hs
      exact ⟨(hI.counted fun _ _ => Phase.noConfusion).inv rfl (fun _ => Phase.noConfusion)
        fun _ _ => Phase.noConfusion, hkept⟩
    · obtain rfl := Option.some.inj hs
      exact ⟨(hI.counted fun _ _ => Phase.noConfusion).inv rfl (fun _ => Phase.noConfusion)
        fun _ _ => Phase.noConfusion, hkept⟩
    · cases hs
  · obtain ⟨system, hcommand, rfl⟩ := Option.map_eq_some_iff.mp hs
    have hquiet : ∀ id, becomes zones zones id ++ [] ++ history id = history id := by
      intro id
      rw [becomes_self]
      rfl
    rcases phase with _ | loaded | waiting | ⟨zone, rest⟩ | _
    · obtain rfl := Option.some.inj hcommand
      refine ⟨?_, hkept⟩
      show Inv zones (fun id => becomes zones zones id ++ [] ++ history id) _
      rw [funext hquiet]
      exact hI.loadForward
    · obtain rfl := Option.some.inj hcommand
      refine ⟨?_, hkept⟩
      show Inv zones (fun id => becomes zones zones id ++ [] ++ history id) _
      rw [funext hquiet]
      exact hI.loadSecondary
    · rcases waiting with _ | ⟨zone, rest⟩
      · cases hcommand
      · obtain rfl := Option.some.inj hcommand
        refine ⟨hI.check customNs lookup mail fun id => ?_, hkept⟩
        show becomes zones zones id ++ _ ++ history id = _
        rw [becomes_self]
        rfl
    · obtain rfl := Option.some.inj hcommand
      refine hI.save fun id => ?_
      show becomes zones (saveZone h zones zone) id ++ [] ++ history id = _
      rw [List.append_nil]
    · cases hcommand
  · obtain rfl := Option.some.inj hs
    obtain ⟨hinv, hkeeps⟩ := hI.createDomainsZone (h := h) hok fun id => rfl
    refine ⟨hinv, fun id hbefore hafter => ?_⟩
    rw [hkeeps id hbefore] at hafter
    cases hafter

/-- **Five strikes**: in a run whose steps meet the condition, a zone becomes inactive only after its last
five checks have failed, all after it became active. -/
theorem fiveStrikes_of_along {zones : Zones} (hzones : ∀ zone ∈ zones, zone.numCheckFails = 0)
    (customNs : Table CustomNs CustomNs.id) {acts : List Act}
    (hok : Along (step h) Unstruck ⟨⟨zones, customNs, .started, zones⟩, fun _ => []⟩ acts) :
    Along (step h) (InactiveAfterFive h) ⟨⟨zones, customNs, .started, zones⟩, fun _ => []⟩ acts := by
  refine along_of_inv (I := fun s => Inv s.system.zones s.history s.system.phase) (fun s a s' hI hs hunstruck => ?_)
    ?_ hok
  · obtain ⟨hI', hfive⟩ := inv_step hI hunstruck hs
    refine ⟨hI', fun t ht id hbefore hafter => ?_⟩
    obtain rfl : s' = t := Option.some.inj (hs.symm.trans ht)
    exact prefix_of_le_strikes (hfive id hbefore hafter)
  · have hc : Counted zones fun _ => [] := fun row hrow _ => by
      rw [hzones row hrow]
      exact Nat.zero_le _
    exact hc.inv rfl (fun _ => Phase.noConfusion) fun _ _ => Phase.noConfusion

end

end

/-! ### A zone that is made active again -/

/-- A database without zones. -/
def noZones : State := ⟨⟨.empty, .empty, .started, .empty⟩, fun _ => []⟩

/-- A run of the command that finds no name servers of its only zone. -/
def failedRun : List Act :=
  [.start, .command .failed false, .command .failed false, .command (.answer none) false,
    .command .failed false]

/-- The zone `example.com` is created, and fails five checks. -/
def fiveFails : List Act :=
  [.command .failed false, .command .failed false,
    .createDomainsZone "example.com".toList (some ⟨0, none, none⟩)] ++
    failedRun ++ failedRun ++ failedRun ++ failedRun ++ failedRun

theorem fiveStrikes_fiveFails : Along (step .ascii) (InactiveAfterFive .ascii) noZones fiveFails :=
  fiveStrikes_of_along (fun _ hz => absurd hz List.not_mem_nil) .empty (by decide)

/-- It is made active again, and fails one more check. -/
def oneMore : List Act :=
  fiveFails ++ [.createDomainsZone "example.com".toList none, .start, .command .failed false,
    .command .failed false, .command (.answer none) false]

theorem oneMore_run : (after (step .ascii) noZones oneMore).map (fun s =>
    (isActive s.system.zones 0, s.history 0, (step .ascii s (.command .failed false)).map fun s' =>
      isActive s'.system.zones 0)) = some (true, [.fail, .becameActive, .fail, .fail, .fail, .fail, .fail,
        .becameActive], some false) := by decide

/-- **One failed check is enough** for a zone that `create_domains_zone` has made active again. -/
theorem not_fiveStrikes_oneMore :
    ¬ Along (step .ascii) (InactiveAfterFive .ascii) noZones (oneMore ++ [.command .failed false]) := by
  intro hall
  obtain ⟨s, hs, hval⟩ := Option.map_eq_some_iff.mp oneMore_run
  obtain ⟨hactive, hval⟩ := Prod.mk.inj hval
  obtain ⟨hhistory, hval⟩ := Prod.mk.inj hval
  obtain ⟨s', hs', hinactive⟩ := Option.map_eq_some_iff.mp hval
  have hfive := hall.last hs hs' s' hs' 0 hactive hinactive
  rw [hhistory] at hfive
  exact absurd hfive (by decide)

end HexDns.Commands.FiveStrikes
