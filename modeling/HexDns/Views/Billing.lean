import HexDns.Lib.Runs
import HexDns.Models.Db
import HexDns.Views.CreateZone

/-! # Billing

`log_usage` reports to the billing service how many charged zones a user has, with an `extra` for the zone
that its caller is about to create or to delete. The views that do so and the command `validate-charged`
are run one at a time, and the billing service accepts every report.

`billed_iff`: the last report of every user is the number of the charged zones in every state of a run, if
and only if no administrator deletes a zone that is not charged, and `validate-charged` finds every zone
charged of a user that the domains service does not know. The administrators' views take a charged zone
off the report in any case, and the command reports nothing for a user that is not known, after it has set
the zones of the user to charged. -/

namespace HexDns.Views.Billing

open HexDns.Lib.Texts HexDns.Lib.Tables HexDns.Lib.Runs HexDns.Base.Py HexDns.Base.Label
  HexDns.Base.Message HexDns.Models.Db HexDns.Models.Env HexDns.Views.CreateZone

/-! ### Zones and reports -/

/-- The name of a row of `DNSZone`, `ReverseDNSZone` or `SecondaryDNSZone`. -/
inductive ZoneName
  | forward (zoneRoot : Text)
  | reverse (zoneRootAddress : IpAddr) (zoneRootPrefix : ℕ)
  | secondary (zoneRoot : Text)
  deriving DecidableEq, Repr

def ZoneName.isForward : ZoneName → Bool
  | .forward _ => true
  | _ => false

def ZoneName.isReverse : ZoneName → Bool
  | .reverse _ _ => true
  | _ => false

def ZoneName.isSecondary : ZoneName → Bool
  | .secondary _ => true
  | _ => false

/-- The root of a zone that is not a reverse zone. -/
def ZoneName.zoneRoot : ZoneName → Option Text
  | .forward zoneRoot | .secondary zoneRoot => some zoneRoot
  | .reverse _ _ => none

/-- A row of one of the models; their ids are typed. The owner is what `get_user` returns. -/
structure BilledZone where
  id : ℕ
  name : ZoneName
  owner : ℕ
  charged : Bool
  deriving DecidableEq, Repr

abbrev Zones := Table BilledZone BilledZone.id

/-- What the billing service answers to a report. -/
inductive Answer
  /-- status 200 -/
  | ok (id : Text)
  /-- status 302 -/
  | redirect (id redirectUri : Text)
  /-- another status -/
  | refused
  deriving DecidableEq, Repr

inductive Status
  | ok
  | redirect (redirectUri : Text)
  | error
  deriving DecidableEq, Repr

/-- The zones, `account.subscription_id` of the users, and what was last reported for them, zero before the
first report. -/
structure State where
  zones : Zones
  subscriptionId : ℕ → Option Text
  reported : ℕ → ℤ

/-- `filter(resource_id__in=resources, charged=True).count()` of a model -/
def countCharged (zones : Zones) (ofModel : ZoneName → Bool) (user : ℕ) : ℕ :=
  (zones.rows.filter fun z => ofModel z.name && (z.owner = user && z.charged)).length

/-- `log_usage` -/
def logUsage (user : ℕ) (extra : ℤ) (answer : Answer) (s : State) : Status × State :=
  let userZoneCount : ℤ := countCharged s.zones ZoneName.isForward user +
    countCharged s.zones ZoneName.isSecondary user + countCharged s.zones ZoneName.isReverse user + extra
  let report (id : Text) : State :=
    { s with
      subscriptionId := Function.update s.subscriptionId user (some ((s.subscriptionId user).getD id))
      reported := Function.update s.reported user userZoneCount }
  match answer with
  | .ok id => (.ok, report id)
  | .redirect id redirectUri => (.redirect redirectUri, report id)
  | .refused => (.error, s)

/-! ### Operations -/

section
variable (py : Python) (isPrivate : Text → Bool)

/-- The name as `save` writes it. -/
def ZoneName.saved : ZoneName → ZoneName
  | .forward zoneRoot => .forward (py.lower zoneRoot)
  | .secondary zoneRoot => .secondary (py.lower zoneRoot)
  | name => name

/-- A new zone is saved. -/
def create (name : ZoneName) (user : ℕ) (charged : Bool) (s : State) : State :=
  { s with zones := s.zones.save ⟨s.zones.next, name.saved py, user, charged⟩ }

/-- The roots that `valid_zone` looks at. -/
def otherZones (zones : Zones) : List Text :=
  ((zones.rows.filter (·.name.isForward) ++ zones.rows.filter (·.name.isSecondary)).map (·.name.zoneRoot)).reduceOption

/-- The check of a root and the report of `extra` zones, and the creation of the zone if both succeed. -/
def createReported (zoneRoot : Text) (name : ZoneName) (user : ℕ) (extra : ℤ) (charged : Bool) (answer : Answer)
    (s : State) : State :=
  match validZone py isPrivate zoneRoot (otherZones s.zones) with
  | .ok none =>
    match logUsage user extra answer s with
    | (.error, s) => s
    | (_, s) => create py name user charged s
  | _ => s

/-- `create_zone` with the `zone_root` of the form -/
def createZone (user : ℕ) (zoneRoot : Text) : Answer → State → State :=
  createReported py isPrivate (py.lower zoneRoot) (.forward (py.lower zoneRoot)) user 1 true

/-- `create_szone` with the `zone_root` of the form -/
def createSzone (user : ℕ) (zoneRoot : Text) : Answer → State → State :=
  createReported py isPrivate (py.lower zoneRoot) (.secondary (py.lower zoneRoot)) user 1 true

/-- `create_domains_zone` with the `domain` of the token; a zone that exists is made active. -/
def createDomainsZone (user : ℕ) (domain : Text) (answer : Answer) (s : State) : State :=
  if ∃ z ∈ s.zones.rows, z.name = .forward domain then s
  else createReported py isPrivate (py.lower domain) (.forward domain) user 0 false answer s

/-- `get_object_or_404` of a model -/
def getZone (zones : Zones) (ofModel : ZoneName → Bool) (id : ℕ) : Option BilledZone :=
  (getRow zones id).filter fun z => ofModel z.name

/-- `delete_zone` or `delete_szone` -/
def deleteReported (ofModel : ZoneName → Bool) (id : ℕ) (answer : Answer) (s : State) : State :=
  match getZone s.zones ofModel id with
  | none => s
  | some zone =>
    match logUsage zone.owner (if zone.charged then -1 else 0) answer s with
    | (.error, s) => s
    | (_, s) => { s with zones := s.zones.erase id }

/-- A create view of the administrators. -/
def adminCreate (name : ZoneName) (user : ℕ) (answer : Answer) (s : State) : State :=
  (logUsage user 0 answer (create py name user true s)).2

/-- A delete view of the administrators. -/
def adminDelete (ofModel : ZoneName → Bool) (id : ℕ) (answer : Answer) (s : State) : State :=
  match getZone s.zones ofModel id with
  | none => s
  | some zone =>
    let s := (logUsage zone.owner (-1) answer s).2
    { s with zones := s.zones.erase id }

/-- What the domains service answers about the zones of a user. -/
inductive DomainsAnswer
  /-- status 404 -/
  | notFound
  /-- the `domain` and the `access` of each domain -/
  | domains (access : List (Text × Bool))
  /-- anything that raises -/
  | raises
  deriving DecidableEq, Repr

/-- Set `charged`, and save the zone if that changes it. -/
def mark (charged : Bool) (zone : BilledZone) : BilledZone :=
  if zone.charged = charged then zone else { zone with name := zone.name.saved py, charged := charged }

/-- `domains[zone.zone_root]`, the last entry of the name -/
def accessOf (access : List (Text × Bool)) (zone : BilledZone) : Option Bool :=
  (zone.name.zoneRoot.bind fun zoneRoot => access.reverse.find? fun d => d.1 = zoneRoot).map Prod.snd

/-- What `validate-charged` makes of a forward zone. -/
def validated (answer : DomainsAnswer) (zone : BilledZone) : BilledZone :=
  match answer with
  | .notFound => mark py true zone
  | .domains access =>
    match accessOf access zone with
    | some access => mark py (!access) zone
    | none => zone
  | .raises => zone

theorem id_mark (charged : Bool) (zone : BilledZone) : (mark py charged zone).id = zone.id := by
  unfold mark
  split_ifs <;> rfl

theorem id_validated (answer : DomainsAnswer) (zone : BilledZone) :
    (validated py answer zone).id = zone.id := by
  unfold validated
  split
  · exact id_mark py _ zone
  · split
    · exact id_mark py _ zone
    · rfl
  · rfl

/-- The forward zones of a user after the answer. -/
def validateZones (answer : DomainsAnswer) (user : ℕ) (zones : Zones) : Zones :=
  zones.modify (fun z => if z.name.isForward ∧ z.owner = user then validated py answer z else z) fun z => by
    split_ifs
    · exact id_validated py answer z
    · rfl

/-- `validate-charged` from one of the users on. -/
def validateUsers (domains : ℕ → DomainsAnswer) (billing : ℕ → Answer) : List ℕ → State → State
  | [], s => s
  | user :: users, s =>
    match domains user with
    | .raises => s
    | .notFound =>
      validateUsers domains billing users { s with zones := validateZones py .notFound user s.zones }
    | .domains access =>
      validateUsers domains billing users (logUsage user 0 (billing user)
        { s with zones := validateZones py (.domains access) user s.zones }).2

/-- The users with forward zones, in the order of their first ones. -/
def forwardUsers (zones : Zones) : List ℕ :=
  (((zones.rows.filter (·.name.isForward)).map BilledZone.owner).reverse.dedup).reverse

/-- `validate-charged` -/
def validateCharged (domains : ℕ → DomainsAnswer) (billing : ℕ → Answer) (s : State) : State :=
  validateUsers py domains billing (forwardUsers s.zones) s

/-- An operation, with what the other services answer. -/
inductive Operation
  | createZone (user : ℕ) (zoneRoot : Text) (answer : Answer)
  | createDomainsZone (user : ℕ) (domain : Text) (answer : Answer)
  | deleteZone (id : ℕ) (answer : Answer)
  | createSzone (user : ℕ) (zoneRoot : Text) (answer : Answer)
  | deleteSzone (id : ℕ) (answer : Answer)
  | adminCreateZone (user : ℕ) (zoneRoot : Text) (answer : Answer)
  | adminDeleteZone (id : ℕ) (answer : Answer)
  | adminCreateRzone (user : ℕ) (address : IpAddr) (pre : ℕ) (answer : Answer)
  | adminDeleteRzone (id : ℕ) (answer : Answer)
  | adminCreateSzone (user : ℕ) (zoneRoot : Text) (answer : Answer)
  | adminDeleteSzone (id : ℕ) (answer : Answer)
  | validateCharged (domains : ℕ → DomainsAnswer) (billing : ℕ → Answer)

def Operation.apply : Operation → State → State
  | .createZone user zoneRoot answer => Billing.createZone py isPrivate user zoneRoot answer
  | .createDomainsZone user domain answer => Billing.createDomainsZone py isPrivate user domain answer
  | .deleteZone id answer => deleteReported ZoneName.isForward id answer
  | .createSzone user zoneRoot answer => Billing.createSzone py isPrivate user zoneRoot answer
  | .deleteSzone id answer => deleteReported ZoneName.isSecondary id answer
  | .adminCreateZone user zoneRoot answer => adminCreate py (.forward (py.lower zoneRoot)) user answer
  | .adminDeleteZone id answer => adminDelete ZoneName.isForward id answer
  | .adminCreateRzone user address pre answer => adminCreate py (.reverse address pre) user answer
  | .adminDeleteRzone id answer => adminDelete ZoneName.isReverse id answer
  | .adminCreateSzone user zoneRoot answer => adminCreate py (.secondary (py.lower zoneRoot)) user answer
  | .adminDeleteSzone id answer => adminDelete ZoneName.isSecondary id answer
  | .validateCharged domains billing => Billing.validateCharged py domains billing

end

/-- The billing service accepts the reports of the operation. -/
def Operation.Accepted : Operation → Prop
  | .createZone _ _ answer | .createDomainsZone _ _ answer | .deleteZone _ answer | .createSzone _ _ answer
  | .deleteSzone _ answer | .adminCreateZone _ _ answer | .adminDeleteZone _ answer
  | .adminCreateRzone _ _ _ answer | .adminDeleteRzone _ answer | .adminCreateSzone _ _ answer
  | .adminDeleteSzone _ answer => answer ≠ .refused
  | .validateCharged _ billing => ∀ user, billing user ≠ .refused

/-- An operation whose reports are accepted. -/
structure AcceptedOperation where
  operation : Operation
  accepted : operation.Accepted

def step (py : Python) (isPrivate : Text → Bool) (s : State) (op : AcceptedOperation) : Option State :=
  some (op.operation.apply py isPrivate s)

/-- The number of the charged zones of a user. -/
def chargedZones (zones : Zones) (user : ℕ) : ℕ := zones.rows.countP fun z => z.owner = user && z.charged

/-- The last report for the user is the number of the charged zones. -/
def Agrees (s : State) (user : ℕ) : Prop := s.reported user = chargedZones s.zones user

/-- **Billing follows the zones.** -/
def Billed (s : State) : Prop := ∀ user, Agrees s user

/-- The users that `validate-charged` comes to. -/
def reached (domains : ℕ → DomainsAnswer) (users : List ℕ) : List ℕ :=
  users.takeWhile fun user => domains user ≠ .raises

/-- The zone that an administrator deletes is charged, and so are the forward zones of the users that the
domains service does not know. -/
def Reported (s : State) (op : AcceptedOperation) : Prop :=
  match op.operation with
  | .adminDeleteZone id _ => ∀ zone, getZone s.zones ZoneName.isForward id = some zone → zone.charged = true
  | .adminDeleteRzone id _ => ∀ zone, getZone s.zones ZoneName.isReverse id = some zone → zone.charged = true
  | .adminDeleteSzone id _ => ∀ zone, getZone s.zones ZoneName.isSecondary id = some zone →
      zone.charged = true
  | .validateCharged domains _ => ∀ user ∈ reached domains (forwardUsers s.zones), domains user = .notFound →
      ∀ zone ∈ s.zones, zone.name.isForward = true → zone.owner = user → zone.charged = true
  | _ => True

/-! ### Reports -/

theorem countCharged_eq (zones : Zones) (user : ℕ) :
    countCharged zones ZoneName.isForward user + countCharged zones ZoneName.isSecondary user +
      countCharged zones ZoneName.isReverse user = chargedZones zones user := by
  unfold countCharged chargedZones
  induction zones.rows with
  | nil => rfl
  | cons z rows ih =>
    have hkinds : ∀ b : Bool, ((if (z.name.isForward && b) = true then 1 else 0) +
        (if (z.name.isSecondary && b) = true then 1 else 0) +
        if (z.name.isReverse && b) = true then 1 else 0) = if b = true then 1 else 0 := by
      intro b
      rcases z.name with _ | _ | _ <;> rcases b with _ | _ <;> rfl
    have hz := hkinds (z.owner = user && z.charged)
    rw [List.countP_cons, ← hz, ← ih]
    simp only [← List.countP_eq_length_filter, List.countP_cons]
    omega

section
variable {py : Python} {isPrivate : Text → Bool} {s : State}

/-- **What an accepted report does**: the number of the charged zones and the extra are reported. -/
theorem logUsage_accepted (user : ℕ) (extra : ℤ) {answer : Answer} (ha : answer ≠ .refused) (s : State) :
    ∃ subscriptionId, (logUsage user extra answer s).1 ≠ .error ∧ (logUsage user extra answer s).2 =
      ⟨s.zones, subscriptionId, Function.update s.reported user (chargedZones s.zones user + extra)⟩ := by
  have hcount : ((countCharged s.zones ZoneName.isForward user : ℤ) +
      countCharged s.zones ZoneName.isSecondary user + countCharged s.zones ZoneName.isReverse user + extra) =
        chargedZones s.zones user + extra := by
    rw [← countCharged_eq]
    push_cast
    rfl
  rcases answer with id | ⟨id, uri⟩ | _
  · exact ⟨_, Status.noConfusion, by rw [← hcount]; rfl⟩
  · exact ⟨_, Status.noConfusion, by rw [← hcount]; rfl⟩
  · exact absurd rfl ha

/-- A report of a user that is right afterwards, whatever else happens to the zones of the user. -/
theorem billed_update (hs : Billed s) {zones : Zones} {subscriptionId : ℕ → Option Text} {user : ℕ}
    {usage : ℤ} (hothers : ∀ v, v ≠ user → chargedZones zones v = chargedZones s.zones v) :
    Billed ⟨zones, subscriptionId, Function.update s.reported user usage⟩ ↔ usage = chargedZones zones user := by
  constructor
  · intro hall
    have huser : Function.update s.reported user usage user = chargedZones zones user := hall user
    rwa [Function.update_self] at huser
  · intro husage v
    show Function.update s.reported user usage v = chargedZones zones v
    by_cases hv : v = user
    · rw [hv, Function.update_self, husage]
    · rw [Function.update_of_ne hv, hothers v hv]
      exact hs v

theorem chargedZones_create (py : Python) (name : ZoneName) (user : ℕ) (charged : Bool) (s : State) (v : ℕ) :
    chargedZones (create py name user charged s).zones v =
      chargedZones s.zones v + if v = user ∧ charged = true then 1 else 0 := by
  unfold chargedZones create
  rw [countP_save_fresh rfl]
  congr 1
  by_cases hv : v = user
  · simp [hv]
  · have hne : user ≠ v := fun heq => hv heq.symm
    simp [hv, hne]

theorem chargedZones_erase {zones : Zones} {zone : BilledZone} (hz : zone ∈ zones) (v : ℕ) :
    chargedZones (zones.erase zone.id) v + (if v = zone.owner ∧ zone.charged = true then 1 else 0) =
      chargedZones zones v := by
  unfold chargedZones
  rw [← countP_erase hz]
  congr 1
  by_cases hv : v = zone.owner
  · simp [hv]
  · have hne : zone.owner ≠ v := fun heq => hv heq.symm
    simp [hv, hne]

/-! ### The views -/

/-- A zone that is reported and created is counted. -/
theorem billed_createReported (hs : Billed s) (zoneRoot : Text) (name : ZoneName) (user : ℕ) {extra : ℤ}
    {charged : Bool} (hextra : extra = if charged = true then 1 else 0) {answer : Answer}
    (ha : answer ≠ .refused) :
    Billed (createReported py isPrivate zoneRoot name user extra charged answer s) := by
  obtain ⟨subscriptionId, hstatus, hstate⟩ := logUsage_accepted user extra ha s
  have hcreated : Billed (create py name user charged (logUsage user extra answer s).2) := by
    have hcount := chargedZones_create py name user charged s
    rw [hstate]
    refine (billed_update hs fun v hv => ?_).mpr ?_
    · exact (hcount v).trans (by rw [if_neg fun hboth => hv hboth.1, Nat.add_zero])
    · show (chargedZones s.zones user : ℤ) + extra = chargedZones (create py name user charged s).zones user
      rw [hcount, hextra]
      rcases charged with _ | _
      · simp
      · simp
  unfold createReported
  split
  · rcases hlog : logUsage user extra answer s with ⟨status, s'⟩
    rw [hlog] at hstatus hcreated
    rcases status with _ | uri | _
    · exact hcreated
    · exact hcreated
    · exact absurd rfl hstatus
  · exact hs

theorem billed_createZone (hs : Billed s) (user : ℕ) (zoneRoot : Text) {answer : Answer}
    (ha : answer ≠ .refused) : Billed (createZone py isPrivate user zoneRoot answer s) := by
  refine billed_createReported hs _ _ user ?_ ha
  rfl

theorem billed_createSzone (hs : Billed s) (user : ℕ) (zoneRoot : Text) {answer : Answer}
    (ha : answer ≠ .refused) : Billed (createSzone py isPrivate user zoneRoot answer s) := by
  refine billed_createReported hs _ _ user ?_ ha
  rfl

theorem billed_createDomainsZone (hs : Billed s) (user : ℕ) (domain : Text) {answer : Answer}
    (ha : answer ≠ .refused) : Billed (createDomainsZone py isPrivate user domain answer s) := by
  unfold createDomainsZone
  split_ifs
  · exact hs
  · refine billed_createReported hs _ _ user ?_ ha
    rfl

theorem mem_of_getZone {zones : Zones} {ofModel : ZoneName → Bool} {id : ℕ} {zone : BilledZone}
    (hz : getZone zones ofModel id = some zone) : zone ∈ zones ∧ zone.id = id := by
  unfold getZone at hz
  exact getRow_eq_some.mp (Option.filter_eq_some_iff.mp hz).1

/-- The zones without one of them, after a report for its owner. -/
theorem billed_erase (hs : Billed s) {zone : BilledZone} (hz : zone ∈ s.zones)
    {subscriptionId : ℕ → Option Text} {extra : ℤ} :
    Billed ⟨s.zones.erase zone.id, subscriptionId, Function.update s.reported zone.owner
      (chargedZones s.zones zone.owner + extra)⟩ ↔ extra = if zone.charged = true then -1 else 0 := by
  have hcount := chargedZones_erase hz
  rw [billed_update hs fun v hv => ?_]
  · have howner := hcount zone.owner
    simp only [true_and] at howner
    rw [← howner]
    split_ifs
    · push_cast
      omega
    · push_cast
      omega
  · have hv' := hcount v
    rwa [if_neg fun hboth => hv hboth.1, Nat.add_zero] at hv'

theorem billed_deleteReported (hs : Billed s) (ofModel : ZoneName → Bool) (id : ℕ) {answer : Answer}
    (ha : answer ≠ .refused) : Billed (deleteReported ofModel id answer s) := by
  unfold deleteReported
  rcases hzone : getZone s.zones ofModel id with _ | zone
  · exact hs
  · obtain ⟨hz, rfl⟩ := mem_of_getZone hzone
    obtain ⟨subscriptionId, hstatus, hstate⟩ :=
      logUsage_accepted zone.owner (if zone.charged then -1 else 0) ha s
    have herased : Billed { (logUsage zone.owner (if zone.charged then -1 else 0) answer s).2 with
        zones := (logUsage zone.owner (if zone.charged then -1 else 0) answer s).2.zones.erase zone.id } := by
      rw [hstate]
      exact (billed_erase hs hz).mpr rfl
    dsimp only
    rcases hlog : logUsage zone.owner (if zone.charged then -1 else 0) answer s with ⟨status, s'⟩
    rw [hlog] at hstatus herased
    rcases status with _ | uri | _
    · exact herased
    · exact herased
    · exact absurd rfl hstatus

/-- A zone that an administrator creates is counted when it is reported. -/
theorem billed_adminCreate (hs : Billed s) (name : ZoneName) (user : ℕ) {answer : Answer}
    (ha : answer ≠ .refused) : Billed (adminCreate py name user answer s) := by
  obtain ⟨subscriptionId, -, hstate⟩ := logUsage_accepted user 0 ha (create py name user true s)
  unfold adminCreate
  rw [hstate]
  refine (billed_update hs fun v hv => ?_).mpr (add_zero _)
  rw [chargedZones_create py, if_neg fun hboth => hv hboth.1, Nat.add_zero]

/-- **A zone that an administrator deletes** is taken off the report as if it were charged. -/
theorem billed_adminDelete (hs : Billed s) (ofModel : ZoneName → Bool) (id : ℕ) {answer : Answer}
    (ha : answer ≠ .refused) : Billed (adminDelete ofModel id answer s) ↔
      ∀ zone, getZone s.zones ofModel id = some zone → zone.charged = true := by
  unfold adminDelete
  rcases hzone : getZone s.zones ofModel id with _ | zone
  · exact iff_of_true hs fun zone hz => nomatch hz
  · obtain ⟨hz, rfl⟩ := mem_of_getZone hzone
    obtain ⟨subscriptionId, -, hstate⟩ := logUsage_accepted zone.owner (-1) ha s
    dsimp only
    rw [hstate, billed_erase hs hz]
    rcases hcharged : zone.charged with _ | _
    · simp [hcharged]
    · simp [hcharged]

/-! ### The command -/

theorem owner_validated (answer : DomainsAnswer) (zone : BilledZone) :
    (validated py answer zone).owner = zone.owner := by
  unfold validated mark
  split
  · split_ifs <;> rfl
  · split
    · split_ifs <;> rfl
    · rfl
  · rfl

/-- The zones of the other users stay as they are. -/
theorem mem_validateZones {answer : DomainsAnswer} {user : ℕ} {zones : Zones} {zone : BilledZone}
    (howner : zone.owner ≠ user) : zone ∈ validateZones py answer user zones ↔ zone ∈ zones := by
  show zone ∈ zones.rows.map _ ↔ zone ∈ zones.rows
  rw [List.mem_map]
  constructor
  · rintro ⟨z, hz, rfl⟩
    by_cases hboth : z.name.isForward = true ∧ z.owner = user
    · rw [if_pos hboth, owner_validated] at howner
      exact absurd hboth.2 howner
    · rwa [if_neg hboth]
  · intro hz
    exact ⟨zone, hz, if_neg fun hboth => howner hboth.2⟩

theorem chargedZones_validateZones {answer : DomainsAnswer} {user : ℕ} {zones : Zones} {v : ℕ} (hv : v ≠ user) :
    chargedZones (validateZones py answer user zones) v = chargedZones zones v := by
  show (zones.rows.map _).countP _ = zones.rows.countP _
  rw [List.countP_map]
  refine List.countP_congr fun z _ => ?_
  by_cases hboth : z.name.isForward = true ∧ z.owner = user
  · have hne : z.owner ≠ v := fun heq => hv (heq.symm.trans hboth.2)
    simp only [Function.comp_apply, if_pos hboth, owner_validated]
    simp [hne]
  · simp only [Function.comp_apply, if_neg hboth]

/-- Setting the forward zones of a user to charged keeps their number if and only if they are charged. -/
theorem chargedZones_notFound (py : Python) (user : ℕ) (zones : Zones) :
    chargedZones (validateZones py .notFound user zones) user = chargedZones zones user ↔
      ∀ zone ∈ zones, zone.name.isForward = true → zone.owner = user → zone.charged = true := by
  have hmark : ∀ z : BilledZone, (mark py true z).charged = true := by
    intro z
    unfold mark
    split_ifs with hcharged
    · exact hcharged
    · rfl
  have hchanged : ∀ z : BilledZone, z.name.isForward = true ∧ z.owner = user →
      (decide ((validated py .notFound z).owner = user) && (validated py .notFound z).charged) = true := by
    intro z hboth
    have hcharged : (validated py .notFound z).charged = true := hmark z
    rw [owner_validated, hboth.2, hcharged]
    simp
  show (zones.rows.map _).countP _ = zones.rows.countP _ ↔ ∀ zone ∈ zones.rows, _
  rw [countP_map_eq_iff]
  · refine forall₂_congr fun z _ => ?_
    by_cases hboth : z.name.isForward = true ∧ z.owner = user
    · simp only [if_pos hboth, hchanged z hboth]
      simp [hboth]
    · simp only [if_neg hboth]
      refine iff_of_true id fun hforward howner => absurd ⟨hforward, howner⟩ hboth
  · intro z _ hz
    by_cases hboth : z.name.isForward = true ∧ z.owner = user
    · simp only [if_pos hboth]
      exact hchanged z hboth
    · simp only [if_neg hboth]
      exact hz

/-- The command with the users after the first, from what it has made of that one. -/
theorem validateUsers_cons (py : Python) (domains : ℕ → DomainsAnswer) {billing : ℕ → Answer}
    (hb : ∀ user, billing user ≠ .refused) {user : ℕ} (hu : domains user ≠ .raises) (users : List ℕ) (s : State) :
    ∃ s', validateUsers py domains billing (user :: users) s = validateUsers py domains billing users s' ∧
      (∀ v, v ≠ user → (Agrees s' v ↔ Agrees s v) ∧
        ∀ zone : BilledZone, zone.owner = v → (zone ∈ s'.zones ↔ zone ∈ s.zones)) ∧
      (Agrees s user → (Agrees s' user ↔ (domains user = .notFound →
        ∀ zone ∈ s.zones, zone.name.isForward = true → zone.owner = user → zone.charged = true))) := by
  rcases hanswer : domains user with _ | access | _
  · refine ⟨{ s with zones := validateZones py .notFound user s.zones }, ?_, fun v hv => ⟨?_, fun zone ho => ?_⟩,
      fun hagrees => ?_⟩
    · rw [validateUsers, hanswer]
    · show s.reported v = _ ↔ s.reported v = _
      rw [chargedZones_validateZones hv]
    · exact mem_validateZones (ho ▸ hv)
    · have hcount := chargedZones_notFound py user s.zones
      simp only [forall_const]
      rw [← hcount]
      show s.reported user = _ ↔ _
      rw [show s.reported user = chargedZones s.zones user from hagrees]
      constructor
      · intro heq
        exact (Nat.cast_injective heq).symm
      · intro heq
        rw [heq]
  · obtain ⟨subscriptionId, -, hstate⟩ := logUsage_accepted user 0 (hb user)
      { s with zones := validateZones py (.domains access) user s.zones }
    refine ⟨(logUsage user 0 (billing user)
      { s with zones := validateZones py (.domains access) user s.zones }).2, ?_,
      fun v hv => ⟨?_, fun zone ho => ?_⟩, fun hagrees => ?_⟩
    · rw [validateUsers, hanswer]
    · rw [hstate]
      show Function.update s.reported user _ v = _ ↔ s.reported v = _
      rw [Function.update_of_ne hv, chargedZones_validateZones hv]
    · rw [hstate]
      exact mem_validateZones (ho ▸ hv)
    · rw [hstate]
      refine iff_of_true ?_ fun hnot => nomatch hnot
      show Function.update s.reported user _ user = _
      rw [Function.update_self]
      exact add_zero _
  · exact absurd hanswer hu

/-- The report of a user whom the command does not come to is as right as before. -/
theorem agrees_of_notMem {domains : ℕ → DomainsAnswer} {billing : ℕ → Answer}
    (hb : ∀ user, billing user ≠ .refused) {users : List ℕ} {s : State} {v : ℕ}
    (hv : v ∉ reached domains users) :
    Agrees (validateUsers py domains billing users s) v ↔ Agrees s v := by
  induction users generalizing s with
  | nil => exact Iff.rfl
  | cons user users ih =>
    by_cases hu : domains user = .raises
    · have hstop : validateUsers py domains billing (user :: users) s = s := by
        rw [validateUsers, hu]
      rw [hstop]
    · obtain ⟨s', hrest, hothers, -⟩ := validateUsers_cons py domains hb hu users s
      have hreached : reached domains (user :: users) = user :: reached domains users :=
        List.takeWhile_cons_of_pos (by simpa using hu)
      rw [hreached, List.mem_cons, not_or] at hv
      rw [hrest, ih hv.2]
      exact (hothers v hv.1).1

/-- **A user that the command comes to** has a right report afterwards, if and only if the service knows the
user or the forward zones are charged. -/
theorem agrees_of_mem {domains : ℕ → DomainsAnswer} {billing : ℕ → Answer}
    (hb : ∀ user, billing user ≠ .refused) {users : List ℕ} (hnodup : users.Nodup) {s : State} {v : ℕ}
    (hv : v ∈ reached domains users) (hs : Agrees s v) :
    Agrees (validateUsers py domains billing users s) v ↔ (domains v = .notFound →
      ∀ zone ∈ s.zones, zone.name.isForward = true → zone.owner = v → zone.charged = true) := by
  induction users generalizing s with
  | nil => cases hv
  | cons user users ih =>
    obtain ⟨hnot, hnodup⟩ := List.nodup_cons.mp hnodup
    by_cases hu : domains user = .raises
    · have hreached : reached domains (user :: users) = [] :=
        List.takeWhile_cons_of_neg (by simpa using hu)
      rw [hreached] at hv
      cases hv
    · obtain ⟨s', hrest, hothers, hself⟩ := validateUsers_cons py domains hb hu users s
      have hreached : reached domains (user :: users) = user :: reached domains users :=
        List.takeWhile_cons_of_pos (by simpa using hu)
      rw [hreached] at hv
      rw [hrest]
      by_cases huser : v = user
      · rw [huser] at hs ⊢
        have hlater : user ∉ reached domains users := fun hmem => hnot ((List.takeWhile_sublist _).mem hmem)
        rw [agrees_of_notMem hb hlater]
        exact hself hs
      · obtain ⟨hagrees, hzones⟩ := hothers v huser
        rw [ih hnodup ((List.mem_cons.mp hv).resolve_left huser) (hagrees.mpr hs)]
        constructor
        · intro hall hnf zone hz hforward howner
          exact hall hnf zone ((hzones zone howner).mpr hz) hforward howner
        · intro hall hnf zone hz hforward howner
          exact hall hnf zone ((hzones zone howner).mp hz) hforward howner

theorem billed_validateCharged (hs : Billed s) {domains : ℕ → DomainsAnswer} {billing : ℕ → Answer}
    (hb : ∀ user, billing user ≠ .refused) : Billed (validateCharged py domains billing s) ↔
      ∀ user ∈ reached domains (forwardUsers s.zones), domains user = .notFound →
        ∀ zone ∈ s.zones, zone.name.isForward = true → zone.owner = user → zone.charged = true := by
  have hnodup : (forwardUsers s.zones).Nodup := List.nodup_reverse.mpr (List.nodup_dedup _)
  constructor
  · intro hall user hu
    exact (agrees_of_mem hb hnodup hu (hs user)).mp (hall user)
  · intro hall user
    by_cases hu : user ∈ reached domains (forwardUsers s.zones)
    · exact (agrees_of_mem hb hnodup hu (hs user)).mpr (hall user hu)
    · exact (agrees_of_notMem hb hu).mpr (hs user)

/-! ### Runs -/

/-- **An operation keeps the reports right** if and only if it meets the condition. -/
theorem billed_apply (hs : Billed s) (op : AcceptedOperation) :
    Billed (op.operation.apply py isPrivate s) ↔ Reported s op := by
  obtain ⟨op, ha⟩ := op
  rcases op with ⟨user, zoneRoot, answer⟩ | ⟨user, domain, answer⟩ | ⟨id, answer⟩ | ⟨user, zoneRoot, answer⟩ |
    ⟨id, answer⟩ | ⟨user, zoneRoot, answer⟩ | ⟨id, answer⟩ | ⟨user, address, pre, answer⟩ | ⟨id, answer⟩ |
    ⟨user, zoneRoot, answer⟩ | ⟨id, answer⟩ | ⟨domains, billing⟩
  · exact iff_of_true (billed_createZone hs user zoneRoot ha) trivial
  · exact iff_of_true (billed_createDomainsZone hs user domain ha) trivial
  · exact iff_of_true (billed_deleteReported hs _ id ha) trivial
  · exact iff_of_true (billed_createSzone hs user zoneRoot ha) trivial
  · exact iff_of_true (billed_deleteReported hs _ id ha) trivial
  · exact iff_of_true (billed_adminCreate hs _ user ha) trivial
  · exact billed_adminDelete hs _ id ha
  · exact iff_of_true (billed_adminCreate hs _ user ha) trivial
  · exact billed_adminDelete hs _ id ha
  · exact iff_of_true (billed_adminCreate hs _ user ha) trivial
  · exact billed_adminDelete hs _ id ha
  · exact billed_validateCharged hs ha

/-- **Billing follows the zones** in every state of a run from a state in which it does, if and only if the
operations meet the condition. -/
theorem billed_iff (py : Python) (isPrivate : Text → Bool) (hs : Billed s) (ops : List AcceptedOperation) :
    Always (step py isPrivate) Billed s ops ↔ Along (step py isPrivate) Reported s ops := by
  refine always_iff_along (J := fun _ => True) (fun _ _ _ _ _ _ _ => trivial) (fun s op s' _ hs hstep => ?_)
    trivial hs ops
  obtain rfl := Option.some.inj hstep
  exact billed_apply hs op

end

/-! ### Zones of the domains service -/

def noZones : State := ⟨.empty, fun _ => none, fun _ => 0⟩

theorem billed_noZones : Billed noZones := fun _ => rfl

/-- A user creates `example.com` with a token of the domains service, and so the zone is not charged. -/
def tokenZone : AcceptedOperation :=
  ⟨.createDomainsZone 1 "example.com".toList (.ok "s".toList), fun ha => nomatch ha⟩

/-- The user creates `example.net`, which is charged, and an administrator deletes it. -/
def chargedZone : List AcceptedOperation :=
  [tokenZone, ⟨.createZone 1 "example.net".toList (.ok "s".toList), fun ha => nomatch ha⟩,
    ⟨.adminDeleteZone 1 (.ok "s".toList), fun ha => nomatch ha⟩,
    ⟨.validateCharged (fun _ => .domains [("example.com".toList, false)]) (fun _ => .ok "s".toList),
      fun _ ha => nomatch ha⟩]

theorem billed_chargedZone : Always (step .ascii fun _ => true) Billed noZones chargedZone := by
  refine (billed_iff .ascii (fun _ => true) billed_noZones chargedZone).mpr ?_
  refine Along.cons rfl trivial (Along.cons rfl trivial (Along.cons rfl ?_ (Along.cons rfl ?_ trivial)))
  · show ∀ zone ∈ getZone _ ZoneName.isForward 1, zone.charged = true
    decide
  · intro user _ hanswer
    cases hanswer

/-- An administrator deletes the zone of the token. -/
def deletedZone : List AcceptedOperation :=
  [tokenZone, ⟨.adminDeleteZone 0 (.ok "s".toList), fun ha => nomatch ha⟩]

/-- The domains service does not know the user any more. -/
def unknownUser : List AcceptedOperation :=
  [tokenZone, ⟨.validateCharged (fun _ => .notFound) (fun _ => .ok "s".toList), fun _ ha => nomatch ha⟩]

/-- What is reported, and what is charged, for the user after the operations. -/
def usage (ops : List AcceptedOperation) : Option (ℤ × ℕ) :=
  (after (step .ascii fun _ => true) noZones ops).map fun s => (s.reported 1, chargedZones s.zones 1)

theorem usage_deletedZone : usage deletedZone = some (-1, 0) ∧ usage unknownUser = some (0, 1) := by
  decide

/-- **A zone that is not charged is taken off the report**, and a zone that comes to be charged is not
reported. -/
theorem not_billed_deletedZone : Billed noZones ∧
    ¬ Always (step .ascii fun _ => true) Billed noZones deletedZone ∧
    ¬ Always (step .ascii fun _ => true) Billed noZones unknownUser := by
  have hnot : ∀ {ops : List AcceptedOperation} {reported : ℤ} {charged : ℕ},
      usage ops = some (reported, charged) → reported ≠ charged →
        ¬ Always (step .ascii fun _ => true) Billed noZones ops := by
    intro ops reported charged husage hne hall
    obtain ⟨s, hs, hval⟩ := Option.map_eq_some_iff.mp husage
    obtain ⟨hreported, hcharged⟩ := Prod.mk.inj hval
    refine hne ?_
    rw [← hreported, ← hcharged]
    exact hall.after hs 1
  exact ⟨billed_noZones, hnot usage_deletedZone.1 (by decide), hnot usage_deletedZone.2 (by decide)⟩

end HexDns.Views.Billing
