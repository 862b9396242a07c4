import HexDns.Lib.Runs
import HexDns.Models.Env

/-! # The creation of zones

`create_zone`, `create_domains_zone` and `create_szone`, cut at their accesses to the database: each
reads the forward zones and the secondary zones for `valid_zone`, asks other services, and saves the
zone. `separate_iff` says that no zone is created at or below the root of another one if and only if no
save comes after that of such a zone that was not there yet when the zones were read. -/

namespace HexDns.Views.CreateZone

open HexDns.Lib.Texts HexDns.Lib.Programs HexDns.Lib.Runs HexDns.Base.Py HexDns.Base.Label
  HexDns.Models.Env

/-! ### The check -/

/-- A row of `DNSZone` or of `SecondaryDNSZone`, by its root. -/
structure ZoneRoot where
  secondary : Bool
  root : Text
  deriving DecidableEq, Repr

section
variable (py : Python) (isPrivate : Text → Bool)

/-- The loop of `valid_zone` over the other zones. -/
def anyMoreGeneric (zoneRoot : DnsLabel) : List Text → Except PyErr Bool
  | [] => .ok false
  | zone :: rest => do
    let otherZoneRoot ← DnsLabel.ofText py (py.lower zone)
    if zoneRoot.matchSuffix otherZoneRoot then return true else anyMoreGeneric zoneRoot rest

/-- `valid_zone` with the roots of the other zones; `isPrivate` is `psl.is_private`. -/
def validZone (zoneRootTxt : Text) (otherZones : List Text) : Except PyErr (Option Text) := do
  let zoneRoot ← DnsLabel.ofText py zoneRootTxt
  if isPrivate zoneRootTxt then
    if ← anyMoreGeneric py zoneRoot otherZones then
      return some "Same or more generic zone already exists".toList
    else return none
  else return some "Zone not a publicly registrable domain".toList

/-! ### The requests -/

/-- A request that the services before the check have let through, with the name of the zone. -/
inductive Request
  /-- `create_zone` with the `zone_root` of the form -/
  | zone (zoneRoot : Text)
  /-- `create_domains_zone` with the `domain` of the token -/
  | domains (domain : Text)
  /-- `create_szone` with the `zone_root` of the form -/
  | szone (zoneRoot : Text)
  deriving DecidableEq, Repr

/-- The text that `valid_zone` gets. -/
def Request.checked : Request → Text
  | .zone zoneRoot => py.lower zoneRoot
  | .domains domain => py.lower domain
  | .szone zoneRoot => py.lower zoneRoot

/-- The zone that is saved, with the root as `save` writes it. -/
def Request.saved : Request → ZoneRoot
  | .zone zoneRoot => ⟨false, py.lower (py.lower zoneRoot)⟩
  | .domains domain => ⟨false, py.lower domain⟩
  | .szone zoneRoot => ⟨true, py.lower (py.lower zoneRoot)⟩

/-- How far a request has got. -/
inductive Stage
  | started
  /-- no zone has the name yet, if it comes from a token -/
  | fresh
  /-- with the roots of the forward zones -/
  | reading (forward : List Text)
  /-- the check has passed with these roots -/
  | passed (otherZones : List Text)
  | done
  deriving DecidableEq, Repr

/-- The zones in the order in which they were created, and the requests. -/
structure Server where
  zones : List ZoneRoot
  requests : List (Request × Stage)

/-- The roots of the forward or of the secondary zones. -/
def Server.roots (s : Server) (secondary : Bool) : List Text :=
  (s.zones.filter fun z => z.secondary = secondary).map ZoneRoot.root

/-- The next access of a request to the database, and the zone that it creates; `accepted` says whether
`utils.log_usage` lets it through. -/
def advance (s : Server) (request : Request) (accepted : Bool) : Stage → Stage × List ZoneRoot
  | .started =>
    match request with
    | .domains domain => (if domain ∈ s.roots false then .done else .fresh, [])
    | _ => (.fresh, [])
  | .fresh => (.reading (s.roots false), [])
  | .reading forward =>
    match validZone py isPrivate (request.checked py) (forward ++ s.roots true) with
    | .ok none => (.passed (forward ++ s.roots true), [])
    | _ => (.done, [])
  | .passed _ => (.done, if accepted then [request.saved py] else [])
  | .done => (.done, [])

/-- The request with this number goes on. -/
def step (s : Server) (a : ℕ × Bool) : Option Server :=
  (s.requests[a.1]?).map fun (request, stage) =>
    let (stage', created) := advance py isPrivate s request a.2 stage
    ⟨s.zones ++ created, s.requests.set a.1 (request, stage')⟩

/-! ### No zone inside another -/

/-- The first root is the second one or below it, whatever the case of the letters. -/
def Inside (root other : Text) : Prop :=
  ∃ l m, DnsLabel.ofText py root = .ok l ∧ DnsLabel.ofText py (py.lower other) = .ok m ∧
    m.lower <:+ l.lower

/-- No zone that came after the first `n` is at or below the root of one before it. -/
def Separate (n : ℕ) (s : Server) : Prop :=
  ∀ before z after, s.zones = before ++ z :: after → n ≤ before.length →
    ∀ y ∈ before, ¬ Inside py z.root y.root

/-- The request that goes on does not save a zone, or every zone at or above the new one was read for
its check, and none that was read is that of the root. -/
def Fresh (s : Server) (a : ℕ × Bool) : Prop :=
  ∀ request otherZones, s.requests[a.1]? = some (request, .passed otherZones) → a.2 = true →
    ∀ y ∈ s.zones,
      (y.root ∉ otherZones → ¬ Inside py (request.saved py).root y.root) ∧
        (y.root ∈ otherZones → DnsLabel.ofText py (py.lower y.root) ≠ .ok .root)

/-- The check has passed for the requests that are about to save. -/
def Checked (s : Server) : Prop :=
  ∀ request otherZones, (request, Stage.passed otherZones) ∈ s.requests →
    validZone py isPrivate (request.checked py) otherZones = .ok none

variable {py isPrivate}

theorem saved_root (request : Request) : (request.saved py).root = request.checked py := by
  rcases request with t | t | t
  · exact lower_lower t
  · rfl
  · exact lower_lower t

theorem matchSuffix_of_anyMoreGeneric {l : DnsLabel} {otherZones : List Text}
    (h : anyMoreGeneric py l otherZones = .ok false) {t : Text} (ht : t ∈ otherZones) :
    ∃ m, DnsLabel.ofText py (py.lower t) = .ok m ∧ l.matchSuffix m = false := by
  induction otherZones with
  | nil => cases ht
  | cons t' rest ih =>
    obtain ⟨m, hm, hrest⟩ := bind_eq_ok.mp h
    by_cases hmatch : l.matchSuffix m = true
    · rw [if_pos hmatch] at hrest
      cases hrest
    · rw [if_neg hmatch] at hrest
      rcases List.mem_cons.mp ht with rfl | ht
      · exact ⟨m, hm, by simpa using hmatch⟩
      · exact ih hrest ht

/-- After the check, a zone that was read is not above the new one, unless it is that of the root. -/
theorem inside_iff_of_validZone {t r : Text} {otherZones : List Text}
    (h : validZone py isPrivate t otherZones = .ok none) (hr : r ∈ otherZones) :
    Inside py t r ↔ DnsLabel.ofText py (py.lower r) = .ok .root := by
  obtain ⟨l, hl, h⟩ := bind_eq_ok.mp h
  by_cases hp : isPrivate t = true
  swap
  · rw [if_neg hp] at h
    cases h
  rw [if_pos hp] at h
  obtain ⟨found, hfound, h⟩ := bind_eq_ok.mp h
  rcases found with _ | _
  swap
  · cases h
  obtain ⟨m, hm, hno⟩ := matchSuffix_of_anyMoreGeneric hfound hr
  constructor
  · rintro ⟨l', m', hl', hm', hsuffix⟩
    obtain rfl := Except.ok.inj (hl.symm.trans hl')
    obtain rfl := Except.ok.inj (hm.symm.trans hm')
    have hroot : m.label = [] := by
      by_contra hne
      have := matchSuffix_iff.mpr ⟨hsuffix, fun h => absurd h hne⟩
      rw [hno] at this
      cases this
    obtain ⟨label⟩ := m
    obtain rfl : label = [] := hroot
    exact hm
  · intro hroot
    refine ⟨l, .root, hl, hroot, ?_⟩
    exact List.nil_suffix

/-- **What a step does**: it creates no zone and comes to a check that has passed or not, or it creates
the zone of a request whose check has passed. -/
theorem step_cases {s s' : Server} {a : ℕ × Bool} (hs : step py isPrivate s a = some s') :
    ∃ request stage stage', s.requests[a.1]? = some (request, stage) ∧
      s'.requests = s.requests.set a.1 (request, stage') ∧
      ((s'.zones = s.zones ∧ (∀ otherZones, stage = .passed otherZones → a.2 = false) ∧
          ∀ otherZones, stage' = .passed otherZones →
            validZone py isPrivate (request.checked py) otherZones = .ok none) ∨
        ∃ otherZones, stage = .passed otherZones ∧ stage' = .done ∧ a.2 = true ∧
          s'.zones = s.zones ++ [request.saved py]) := by
  unfold step at hs
  obtain ⟨⟨request, stage⟩, hi, hs⟩ := Option.map_eq_some_iff.mp hs
  rcases hadv : advance py isPrivate s request a.2 stage with ⟨stage', created⟩
  simp only [hadv] at hs
  subst hs
  refine ⟨request, stage, stage', hi, rfl, ?_⟩
  rcases stage with _ | _ | forward | otherZones | _
  · left
    unfold advance at hadv
    rcases request with t | t | t
    · obtain ⟨rfl, rfl⟩ := Prod.mk.inj hadv
      exact ⟨List.append_nil _, by simp, by simp⟩
    · obtain ⟨rfl, rfl⟩ := Prod.mk.inj hadv
      refine ⟨List.append_nil _, by simp, fun otherZones h => ?_⟩
      split_ifs at h
    · obtain ⟨rfl, rfl⟩ := Prod.mk.inj hadv
      exact ⟨List.append_nil _, by simp, by simp⟩
  · left
    obtain ⟨rfl, rfl⟩ := Prod.mk.inj hadv
    exact ⟨List.append_nil _, by simp, by simp⟩
  · left
    unfold advance at hadv
    rcases hv : validZone py isPrivate (request.checked py) (forward ++ s.roots true) with
      e | _ | error <;>
      (simp only [hv] at hadv; obtain ⟨rfl, rfl⟩ := Prod.mk.inj hadv)
    · exact ⟨List.append_nil _, by simp, by simp⟩
    · refine ⟨List.append_nil _, by simp, fun otherZones h => ?_⟩
      obtain rfl := Stage.passed.inj h
      exact hv
    · exact ⟨List.append_nil _, by simp, by simp⟩
  · obtain ⟨rfl, rfl⟩ := Prod.mk.inj hadv
    by_cases ha : a.2 = true
    · right
      refine ⟨otherZones, rfl, rfl, ha, ?_⟩
      rw [if_pos ha]
    · left
      refine ⟨?_, fun _ _ => by simpa using ha, by simp⟩
      rw [if_neg ha]
      exact List.append_nil _
  · left
    obtain ⟨rfl, rfl⟩ := Prod.mk.inj hadv
    exact ⟨List.append_nil _, by simp, by simp⟩

theorem checked_step {s s' : Server} {a : ℕ × Bool} (hC : Checked py isPrivate s)
    (hs : step py isPrivate s a = some s') : Checked py isPrivate s' := by
  obtain ⟨request, stage, stage', hi, hreq, hcase⟩ := step_cases hs
  intro request' otherZones hmem
  rw [hreq] at hmem
  rcases List.mem_or_eq_of_mem_set hmem with hmem | heq
  · exact hC request' otherZones hmem
  · obtain ⟨rfl, hst⟩ := Prod.mk.inj heq
    rcases hcase with ⟨-, -, hpass⟩ | ⟨-, -, rfl, -⟩
    · exact hpass otherZones hst.symm
    · cases hst

/-- One more zone: it has to be neither at nor below the root of one before it. -/
theorem separate_append {n : ℕ} {s s' : Server} {z : ZoneRoot} (hS : Separate py n s)
    (hn : n ≤ s.zones.length) (hz : s'.zones = s.zones ++ [z]) :
    Separate py n s' ↔ ∀ y ∈ s.zones, ¬ Inside py z.root y.root := by
  constructor
  · intro hS'
    exact hS' s.zones z [] hz hn
  · intro hout before z' after hsplit hbefore
    rw [hz] at hsplit
    rcases List.eq_nil_or_concat after with rfl | ⟨after', last, rfl⟩
    · obtain ⟨rfl, hlast⟩ := List.append_inj' hsplit rfl
      obtain rfl := (List.cons.inj hlast).1
      exact hout
    · rw [List.concat_eq_append, ← List.cons_append, ← List.append_assoc] at hsplit
      obtain ⟨hinit, -⟩ := List.append_inj' hsplit rfl
      exact hS before z' after' hinit hbefore

/-- **A step creates no zone inside another** if and only if it meets the condition. -/
theorem separate_step {n : ℕ} {s s' : Server} {a : ℕ × Bool} (hC : Checked py isPrivate s)
    (hn : n ≤ s.zones.length) (hS : Separate py n s) (hs : step py isPrivate s a = some s') :
    Separate py n s' ↔ Fresh py s a := by
  obtain ⟨request, stage, stage', hi, hreq, hcase⟩ := step_cases hs
  rcases hcase with ⟨hz, hno, -⟩ | ⟨otherZones, rfl, rfl, ha, hz⟩
  · refine iff_of_true ?_ ?_
    · unfold Separate
      rwa [hz]
    · intro request' otherZones hi' ha
      rw [hi] at hi'
      obtain ⟨-, hst⟩ := Prod.mk.inj (Option.some.inj hi')
      rw [hno otherZones hst] at ha
      cases ha
  · have hvalid := hC request otherZones (List.mem_of_getElem? hi)
    rw [separate_append hS hn hz]
    constructor
    · intro hout request' otherZones' hi' _ y hy
      rw [hi] at hi'
      obtain ⟨rfl, hst⟩ := Prod.mk.inj (Option.some.inj hi')
      obtain rfl := Stage.passed.inj hst
      refine ⟨fun _ => hout y hy, fun hread hroot => hout y hy ?_⟩
      rw [saved_root]
      exact (inside_iff_of_validZone hvalid hread).mpr hroot
    · intro hfresh y hy hin
      obtain ⟨hnew, hold⟩ := hfresh request otherZones hi ha y hy
      by_cases hread : y.root ∈ otherZones
      · rw [saved_root] at hin
        exact hold hread ((inside_iff_of_validZone hvalid hread).mp hin)
      · exact hnew hread hin

end

/-- **No zone is created inside another** in any state of a run, whatever zones there are at its start,
whatever requests come and in whatever order they go on, if and only if whenever a zone is saved, every
zone at or above it was read for its check. -/
theorem separate_iff (py : Python) (isPrivate : Text → Bool) (zones : List ZoneRoot)
    (requests : List Request) (order : List (ℕ × Bool)) :
    Always (step py isPrivate) (Separate py zones.length)
        ⟨zones, requests.map fun r => (r, .started)⟩ order ↔
      Along (step py isPrivate) (Fresh py) ⟨zones, requests.map fun r => (r, .started)⟩ order := by
  refine always_iff_along (J := fun s => Checked py isPrivate s ∧ zones.length ≤ s.zones.length)
    ?_ ?_ ⟨?_, le_rfl⟩ ?_ order
  · rintro s a s' ⟨hC, hn⟩ - - hs
    refine ⟨checked_step hC hs, ?_⟩
    obtain ⟨_, _, _, _, _, ⟨hz, _⟩ | ⟨_, _, _, _, hz⟩⟩ := step_cases hs
    · rwa [hz]
    · rw [hz, List.length_append]
      omega
  · rintro s a s' ⟨hC, hn⟩ hS hs
    exact separate_step hC hn hS hs
  · intro request otherZones hmem
    obtain ⟨r, -, hr⟩ := List.mem_map.mp hmem
    cases (Prod.mk.inj hr).2
  · intro before z after hsplit hn
    have hlen := congrArg List.length hsplit
    simp only [List.length_append, List.length_cons] at hlen
    omega

/-! ### Two requests for one name -/

/-- Both requests read the zones before either saves its own. -/
def twoOrder : List (ℕ × Bool) :=
  [(0, true), (1, true), (0, true), (1, true), (0, true), (1, true), (0, true), (1, true)]

theorem twoOrder_run : (after (step .ascii fun _ => true)
      ⟨[], [.zone "example.com".toList, .szone "example.com".toList].map fun r => (r, .started)⟩
      twoOrder).map Server.zones =
    some [⟨false, "example.com".toList⟩, ⟨true, "example.com".toList⟩] := by decide

/-- **Two zones can have one name.** -/
theorem not_separate_concurrent : ¬ ∀ (py : Python) (isPrivate : Text → Bool)
    (zones : List ZoneRoot) (requests : List Request) (order : List (ℕ × Bool)) (s : Server),
    after (step py isPrivate) ⟨zones, requests.map fun r => (r, .started)⟩ order = some s →
    Separate py zones.length s := by
  intro hall
  obtain ⟨s, hs, hz⟩ := Option.map_eq_some_iff.mp twoOrder_run
  have hS := hall .ascii (fun _ => true) [] _ twoOrder s hs
  refine hS [⟨false, "example.com".toList⟩] ⟨true, "example.com".toList⟩ [] hz (Nat.zero_le _) _
    List.mem_cons_self ?_
  exact ⟨_, _, rfl, rfl, List.suffix_rfl⟩

end HexDns.Views.CreateZone
