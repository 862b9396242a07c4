import HexDns.Lib.Runs
import HexDns.Models.Env

/-! # The name server checker

The command `validate-ns`: it loads every zone, and after looking up the name servers of each saves the
copy it has loaded with `active` and `num_check_fails` set. Meanwhile other operations change columns
of a zone or delete it. The zones as these operations alone make them are kept beside the table:
`untouched_iff` says that the table differs from them in the two columns of the command only, if and
only if every save finds the zone as it was loaded. -/

namespace HexDns.Commands.ValidateNs

open HexDns.Lib.Texts HexDns.Lib.Tables HexDns.Lib.Runs HexDns.Base.Py HexDns.Base.Label
  HexDns.Models.Db HexDns.Models.Env

/-! ### The zones -/

/-- The columns that only one of the two models has. -/
inductive OwnColumns
  /-- `DNSZone` -/
  | primary (lastModified : ℕ) (zskPrivate : Option Text)
  /-- `SecondaryDNSZone` -/
  | secondary (serial : Option ℕ) (primary : Text) (error : Bool) (errorMessage : Option Text)
  deriving DecidableEq, Repr

/-- A row of `DNSZone` or `SecondaryDNSZone`; their ids are typed. -/
structure ZoneRow where
  id : ℕ
  zoneRoot : Text
  charged : Bool
  active : Bool
  numCheckFails : ℕ
  resourceId : Option ℕ
  cdsDisable : Bool
  own : OwnColumns
  deriving DecidableEq, Repr

def ZoneRow.isPrimary (z : ZoneRow) : Bool :=
  match z.own with
  | .primary .. => true
  | .secondary .. => false

abbrev Zones := Table ZoneRow ZoneRow.id

/-! ### Other operations -/

/-- A column that another operation changes. -/
inductive Change
  | cdsDisable (b : Bool)
  | charged (b : Bool)
  | lastModified (t : ℕ)
  deriving DecidableEq, Repr

def Change.apply (c : Change) (z : ZoneRow) : ZoneRow :=
  match c with
  | .cdsDisable b => { z with cdsDisable := b }
  | .charged b => { z with charged := b }
  | .lastModified t =>
    match z.own with
    | .primary _ key => { z with own := .primary t key }
    | .secondary .. => z

/-- Change a column of the zone with this id, if there is one. -/
def changeZone (zones : Zones) (id : ℕ) (c : Change) : Zones :=
  match getRow zones id with
  | none => zones
  | some z => zones.save (c.apply z)

/-! ### The command -/

/-- `WANTED_NS` -/
def wantedNs : List DnsLabel :=
  ["ns1", "ns2", "ns3", "ns4"].map fun (n : String) =>
    ⟨[encode n.toList, encode "as207960".toList, encode "net".toList]⟩

/-- What `query_authoritative_ns` comes to. -/
inductive Lookup
  /-- a `dnslib.DNSError` or an `OSError` -/
  | failed
  /-- another exception -/
  | raises
  /-- the labels of the NS records, if there are any -/
  | answer (ns : Option (List DnsLabel))
  deriving DecidableEq, Repr

/-- Where the command is. -/
inductive Phase
  | started
  /-- with the rows of `DNSZone` -/
  | loading (zones : List ZoneRow)
  /-- before the check of the first of these copies -/
  | checking (zones : List ZoneRow)
  /-- before the save of a copy, with those after it -/
  | saving (zone : ZoneRow) (rest : List ZoneRow)
  /-- an exception has ended it -/
  | stopped
  deriving DecidableEq, Repr

/-- `increment_zone_fail`; `mail` says whether `mail_invalid` raises more than it may. -/
def incrementZoneFail (mail : Bool) (zone : ZoneRow) (rest : List ZoneRow) : Phase :=
  if zone.active then
    let zone := { zone with numCheckFails := zone.numCheckFails + 1 }
    if zone.numCheckFails ≥ 5 then
      if mail then .stopped else .saving { zone with active := false } rest
    else .saving zone rest
  else .checking rest

section
variable (h : Host)

/-- The labels of the custom name servers of a zone, or `WANTED_NS`. -/
def wanted (customNs : Table CustomNs CustomNs.id) (zone : ZoneRow) : Except PyErr (List DnsLabel) :=
  let rows := customNs.rows.filter fun ns => ns.dnsZone = zone.id
  if zone.isPrimary = true ∧ rows ≠ [] then rows.mapM fun ns => DnsLabel.ofText h.py ns.nameserver
  else .ok wantedNs

/-- The check of a zone, up to the save. -/
def check (customNs : Table CustomNs CustomNs.id) (lookup : Lookup) (mail : Bool) (zone : ZoneRow)
    (rest : List ZoneRow) : Phase :=
  match lookup with
  | .failed => .checking rest
  | .raises => .stopped
  | .answer none => incrementZoneFail mail zone rest
  | .answer (some []) => incrementZoneFail mail zone rest
  | .answer (some ns) =>
    match wanted h customNs zone with
    | .error _ => .stopped
    | .ok wanted =>
      if wanted.any fun wns => ns.any fun l => l.Eqv wns then
        .saving { zone with active := true, numCheckFails := 0 } rest
      else incrementZoneFail mail zone rest

/-- `zone.save()`: every column, in a new row if there is none with its id. -/
def saveZone (zones : Zones) (zone : ZoneRow) : Zones :=
  zones.save { zone with zoneRoot := h.py.lower zone.zoneRoot }

/-- The command, the database, and the zones as the other operations alone make them. -/
structure System where
  zones : Zones
  customNs : Table CustomNs CustomNs.id
  phase : Phase
  others : Zones

/-- Who goes on. -/
inductive Act
  | command (lookup : Lookup) (mail : Bool)
  | change (id : ℕ) (c : Change)
  /-- `zone.delete()`, with the rows that belong to the zone -/
  | delete (id : ℕ)

/-- The next access of the command to the database. -/
def command (lookup : Lookup) (mail : Bool) (s : System) : Option System :=
  match s.phase with
  | .started => some { s with phase := .loading (s.zones.rows.filter (·.isPrimary)) }
  | .loading zones =>
    some { s with phase := .checking (zones ++ s.zones.rows.filter fun z => !z.isPrimary) }
  | .checking [] => none
  | .checking (zone :: rest) => some { s with phase := check h s.customNs lookup mail zone rest }
  | .saving zone rest =>
    some { s with zones := saveZone h s.zones zone, phase := .checking rest }
  | .stopped => none

def step (s : System) : Act → Option System
  | .command lookup mail => command h lookup mail s
  | .change id c =>
    some { s with zones := changeZone s.zones id c, others := changeZone s.others id c }
  | .delete id =>
    some { s with
      zones := s.zones.erase id
      others := s.others.erase id
      customNs := s.customNs.erasing fun ns => ns.dnsZone = id }

/-! ### What the command leaves alone -/

/-- The columns of a zone apart from `active` and `num_check_fails`; the root as `save` writes it. -/
def frame (z : ZoneRow) : ZoneRow :=
  { z with active := false, numCheckFails := 0, zoneRoot := h.py.lower z.zoneRoot }

/-- There are the zones that the other operations have left, with the columns that they have given
them. -/
def Untouched (s : System) : Prop :=
  ∀ id, (getRow s.zones id).map (frame h) = (getRow s.others id).map (frame h)

/-- The command does not save a zone, or the zone is there and apart from its own columns as the
command has loaded it. -/
def Fresh (s : System) : Act → Prop
  | .command _ _ => ∀ zone rest, s.phase = .saving zone rest →
      (getRow s.zones zone.id).map (frame h) = some (frame h zone)
  | _ => True

variable {h}

theorem frame_apply (c : Change) (z : ZoneRow) : frame h (c.apply z) = c.apply (frame h z) := by
  rcases c with b | b | t
  · rfl
  · rfl
  · obtain ⟨id, root, charged, active, fails, res, cds, own⟩ := z
    cases own <;> rfl

@[simp] theorem id_apply (c : Change) (z : ZoneRow) : (c.apply z).id = z.id := by
  rcases c with b | b | t
  · rfl
  · rfl
  · obtain ⟨id, root, charged, active, fails, res, cds, own⟩ := z
    cases own <;> rfl

theorem getRow_changeZone (zones : Zones) (id : ℕ) (c : Change) (k : ℕ) :
    getRow (changeZone zones id c) k =
      if id = k then (getRow zones k).map c.apply else getRow zones k := by
  unfold changeZone
  rcases hg : getRow zones id with _ | z
  · split_ifs with hk
    · rw [← hk, hg]; rfl
    · rfl
  · have hz : z.id = id := (getRow_eq_some.mp hg).2
    simp only [getRow_save, id_apply, hz]
    split_ifs with hk
    · rw [← hk, hg]; rfl
    · rfl

theorem frame_saved (zone : ZoneRow) :
    frame h { zone with zoneRoot := h.py.lower zone.zoneRoot } = frame h zone := by
  unfold frame
  simp

/-- An access of the command leaves the zones as they are, or saves one. -/
theorem command_cases {s s' : System} {lookup : Lookup} {mail : Bool}
    (hs : command h lookup mail s = some s') :
    (s'.zones = s.zones ∧ s'.others = s.others ∧ ∀ zone rest, s.phase ≠ .saving zone rest) ∨
      ∃ zone rest, s.phase = .saving zone rest ∧ s'.zones = saveZone h s.zones zone ∧
        s'.others = s.others := by
  unfold command at hs
  rcases hp : s.phase with _ | zones | _ | ⟨zone, rest⟩ | _
  case saving =>
    rw [hp] at hs
    obtain rfl := Option.some.inj hs
    exact Or.inr ⟨_, _, rfl, rfl, rfl⟩
  case checking zones =>
    rw [hp] at hs
    rcases zones with _ | ⟨zone, rest⟩
    · cases hs
    · obtain rfl := Option.some.inj hs
      exact Or.inl ⟨rfl, rfl, by simp⟩
  all_goals rw [hp] at hs
  case stopped => cases hs
  all_goals
    obtain rfl := Option.some.inj hs
    exact Or.inl ⟨rfl, rfl, by simp⟩

theorem getRow_saveZone (zones : Zones) (zone : ZoneRow) (k : ℕ) :
    (getRow (saveZone h zones zone) k).map (frame h) =
      if zone.id = k then some (frame h zone) else (getRow zones k).map (frame h) := by
  unfold saveZone
  rw [getRow_save]
  show Option.map _ (if zone.id = k then _ else _) = _
  split_ifs
  · rw [Option.map_some, frame_saved]
  · rfl

/-- **A step leaves the zones alone** if and only if it meets the condition. -/
theorem untouched_step {s s' : System} {a : Act} (hU : Untouched h s) (hs : step h s a = some s') :
    Untouched h s' ↔ Fresh h s a := by
  rcases a with ⟨lookup, mail⟩ | ⟨id, c⟩ | id
  · rcases command_cases hs with ⟨hz, ho, hno⟩ | ⟨zone, rest, hphase, hz, ho⟩
    · refine iff_of_true (fun k => ?_) fun zone rest hphase => absurd hphase (hno zone rest)
      rw [hz, ho]
      exact hU k
    · constructor
      · intro hU' zone' rest' hphase'
        rw [hphase] at hphase'
        obtain ⟨rfl, rfl⟩ := Phase.saving.inj hphase'
        have hid := hU' zone.id
        rw [hz, ho, getRow_saveZone, if_pos rfl] at hid
        rw [hU zone.id, ← hid]
      · intro hfresh k
        rw [hz, ho, getRow_saveZone]
        split_ifs with hk
        · rw [← hk, ← hU zone.id, hfresh zone rest hphase]
        · exact hU k
  · obtain rfl := Option.some.inj hs
    refine iff_of_true (fun k => ?_) trivial
    have hk := hU k
    simp only [getRow_changeZone]
    split_ifs
    · rw [Option.map_map, Option.map_map]
      have hcomm : frame h ∘ c.apply = c.apply ∘ frame h := funext (frame_apply c)
      rw [hcomm, ← Option.map_map, ← Option.map_map, hk]
    · exact hk
  · obtain rfl := Option.some.inj hs
    refine iff_of_true (fun k => ?_) trivial
    simp only [getRow_erase]
    split_ifs
    · rfl
    · exact hU k

/-- **The checker only touches its own columns** in every state of a run, whatever the zones are, the
lookups come to, and other operations do in between, if and only if every save finds the zone as it was
loaded. -/
theorem untouched_iff (h : Host) (zones : Zones) (customNs : Table CustomNs CustomNs.id)
    (acts : List Act) :
    Always (step h) (Untouched h) ⟨zones, customNs, .started, zones⟩ acts ↔
      Along (step h) (Fresh h) ⟨zones, customNs, .started, zones⟩ acts :=
  always_iff_along (J := fun _ => True) (fun _ _ _ _ _ _ _ => trivial)
    (fun _ _ _ _ hU hs => untouched_step hU hs) trivial (fun _ => rfl) acts

end

/-! ### A change and a deletion during the check -/

/-- An active zone. -/
def activeZone (id : ℕ) (root : Text) : ZoneRow :=
  ⟨id, root, true, true, 0, none, false, .primary 0 none⟩

def twoZones : Zones :=
  (Table.empty.save (activeZone 1 "example.com".toList)).save (activeZone 2 "example.net".toList)

/-- Neither zone exists any more; the CDS records of the first are disabled and the second is deleted,
each between its check and its save. -/
def twoActs : List Act :=
  [.command .failed false, .command .failed false, .command (.answer none) false,
    .change 1 (.cdsDisable true), .command .failed false, .command (.answer none) false, .delete 2,
    .command .failed false]

/-- The change is reverted, and the deleted zone is there again. -/
theorem twoActs_run : (after (step .ascii) ⟨twoZones, .empty, .started, twoZones⟩ twoActs).map
    (fun s => ((getRow s.zones 1).map ZoneRow.cdsDisable, (getRow s.others 1).map ZoneRow.cdsDisable,
      (getRow s.zones 2).isSome, (getRow s.others 2).isSome)) =
    some (some false, some true, true, false) := by decide

/-- **The checker can revert a change** of another operation, and create a deleted zone again. -/
theorem not_untouched_concurrent : ¬ ∀ (h : Host) (zones : Zones)
    (customNs : Table CustomNs CustomNs.id) (acts : List Act) (s : System),
    after (step h) ⟨zones, customNs, .started, zones⟩ acts = some s → Untouched h s := by
  intro hall
  obtain ⟨s, hs, hval⟩ := Option.map_eq_some_iff.mp twoActs_run
  have h2 := congrArg Option.isSome (hall .ascii twoZones .empty twoActs s hs 2)
  rw [Option.isSome_map, Option.isSome_map, (Prod.mk.inj (Prod.mk.inj (Prod.mk.inj hval).2).2).1,
    (Prod.mk.inj (Prod.mk.inj (Prod.mk.inj hval).2).2).2] at h2
  cases h2

end HexDns.Commands.ValidateNs
