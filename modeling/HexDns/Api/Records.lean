import HexDns.Lib.Runs
import HexDns.Models.Db

/-! # Records in the REST API

The record view sets of `api/views.py` with their permission class and the `zone` field of their
serializers. An update or a deletion goes through the rows in zones that the caller may view, and
`has_object_permission` asks whether the caller may edit the zone. The `zone` of a new row, and that of
an updated LOC row, is only checked by the validator of the field, with the field's own `auth_token`,
which is never set. -/

namespace HexDns.Api.Records

open HexDns.Lib.Tables HexDns.Lib.Runs HexDns.Models.Db

/-! ### The rows and the permission service -/

/-- The record classes with a writable view set. -/
inductive RecordModel
  | address | dynamicAddress | aname | cname | mx | ns | txt | srv | caa | naptr | sshfp | ds | loc
  | hinfo | rp | https | ptr | reverseNs
  deriving DecidableEq, Repr

/-- The zone is a `ReverseDNSZone`. -/
def RecordModel.isReverse : RecordModel → Bool
  | .ptr => true
  | .reverseNs => true
  | _ => false

/-- `'zone' in write_once_fields` of the serializer. `LOCRecordSerializer` has it in
`read_only_fields` instead, which are without effect on a field that is declared. -/
def RecordModel.zoneWriteOnce : RecordModel → Bool
  | .loc => false
  | _ => true

/-- A row, with the columns that its model adds. -/
structure RecordRow (γ : Type) where
  id : ℕ
  model : RecordModel
  zone : ℕ
  columns : γ
  deriving DecidableEq, Repr

/-- `action` of `has_scope` -/
inductive Action
  | view | edit
  deriving DecidableEq, Repr

/-- `has_scope` by token, zone and action; no token is `None`. -/
abbrev Scopes (τ : Type) := Option τ → ℕ → Action → Bool

/-- A change of a record row. -/
inductive Change (γ : Type)
  | create (row : RecordRow γ)
  | change (before after : RecordRow γ)
  | delete (row : RecordRow γ)
  deriving DecidableEq, Repr

/-- The rows that a change is about, before and after it. -/
def Change.rows {γ : Type} : Change γ → List (RecordRow γ)
  | .create r => [r]
  | .change r r' => [r, r']
  | .delete r => [r]

/-! ### The requests -/

/-- What a request asks for; `data` is the body without the zone. -/
inductive Verb (δ : Type)
  /-- `POST` -/
  | create (zone : Option ℕ) (data : δ)
  /-- `PUT`, or `PATCH` -/
  | update (isPartial : Bool) (pk : ℕ) (zone : Option ℕ) (data : δ)
  /-- `DELETE` -/
  | destroy (pk : ℕ)
  deriving DecidableEq, Repr

/-- A request to the view set of a model; `auth` is the token of an `OAuthToken`. -/
structure Request (τ δ : Type) where
  auth : Option τ
  model : RecordModel
  verb : Verb δ
  deriving DecidableEq, Repr

/-- The zones by id, with whether they are reverse zones, the records, and the changes that were made to
them with the tokens of the callers. -/
structure Server (τ γ : Type) where
  zones : List (ℕ × Bool)
  records : Table (RecordRow γ) RecordRow.id
  journal : List (τ × Change γ)

section
variable {τ γ δ : Type} (scope : Scopes τ)
  /- What the serializer of a model makes of the data and of the columns of the row that is updated,
  nothing if it refuses the data. -/
  (validate : RecordModel → Option γ → δ → Option γ)

/-- `PermissionPrimaryKeyRelatedField.auth_token`, as `__init__` leaves it -/
def fieldToken : Option τ := none

/-- The `zone` field: `get` of the queryset and the validator. -/
def zoneField (s : Server τ γ) (m : RecordModel) (zone : ℕ) : Option ℕ :=
  if (zone, m.isReverse) ∈ s.zones ∧ scope fieldToken zone .view = true then some zone else none

/-- `get_object`: a row in a zone that the caller may view, by its primary key, if
`has_object_permission` holds for it. -/
def getObject (s : Server τ γ) (token : τ) (m : RecordModel) (pk : ℕ) : Option (RecordRow γ) :=
  (getRow s.records pk).filter fun row =>
    row.model = m && scope (some token) row.zone .view && scope (some token) row.zone .edit

/-- The zone of an updated row: a field that is written once is read-only, and is left out of a `PATCH`
if it is not there. -/
def updatedZone (s : Server τ γ) (isPartial : Bool) (row : RecordRow γ) (zone : Option ℕ) :
    Option ℕ :=
  if row.model.zoneWriteOnce then some row.zone
  else
    match zone with
    | none => if isPartial then some row.zone else none
    | some zone => zoneField scope s row.model zone

/-- The change that a request of a caller comes to, nothing if it is refused. -/
def handle (s : Server τ γ) (token : τ) (m : RecordModel) : Verb δ → Option (Change γ)
  | .create none _ => none
  | .create (some zone) data => do
    let zone ← zoneField scope s m zone
    let columns ← validate m none data
    return .create ⟨s.records.next, m, zone, columns⟩
  | .update isPartial pk zone data => do
    let row ← getObject scope s token m pk
    let zone ← updatedZone scope s isPartial row zone
    let columns ← validate m (some row.columns) data
    return .change row { row with zone := zone, columns := columns }
  | .destroy pk => (getObject scope s token m pk).map .delete

/-- The records after a change. -/
def Change.apply (records : Table (RecordRow γ) RecordRow.id) :
    Change γ → Table (RecordRow γ) RecordRow.id
  | .create row => records.save row
  | .change _ row => records.save row
  | .delete row => records.erase row.id

/-- The server after a request; one without an `OAuthToken` is refused by `has_permission`. -/
def step (s : Server τ γ) (request : Request τ δ) : Option (Server τ γ) :=
  match request.auth with
  | none => some s
  | some token =>
    match handle scope validate s token request.model request.verb with
    | none => some s
    | some change => some ⟨s.zones, change.apply s.records, s.journal ++ [(token, change)]⟩

/-! ### Every change is in a zone that the caller may edit -/

/-- Every row that was changed was, before and after the request, in a zone that its caller may
edit. -/
def Editable (s : Server τ γ) : Prop :=
  ∀ token change, (token, change) ∈ s.journal → ∀ row ∈ change.rows,
    scope (some token) row.zone .edit = true

/-- A request that names the zone of a new row, or another zone for a LOC row that its caller may view
and edit, with data that the serializer takes, names one that the caller may edit if `None` may view
it. -/
def Guarded (s : Server τ γ) (request : Request τ δ) : Prop :=
  ∀ token, request.auth = some token → ∀ zone, (zone, request.model.isReverse) ∈ s.zones →
    scope none zone .view = true →
    (∀ data, request.verb = .create (some zone) data →
      (validate request.model none data).isSome = true → scope (some token) zone .edit = true) ∧
    ∀ isPartial pk data row, request.verb = .update isPartial pk (some zone) data →
      request.model = .loc → getRow s.records pk = some row → row.model = .loc →
      scope (some token) row.zone .view = true → scope (some token) row.zone .edit = true →
      (validate .loc (some row.columns) data).isSome = true → scope (some token) zone .edit = true

variable {scope validate}

theorem getObject_eq_some {s : Server τ γ} {token : τ} {m : RecordModel} {pk : ℕ}
    {row : RecordRow γ} : getObject scope s token m pk = some row ↔
      getRow s.records pk = some row ∧ row.model = m ∧ scope (some token) row.zone .view = true ∧
        scope (some token) row.zone .edit = true := by
  unfold getObject
  rw [Option.filter_eq_some_iff]
  simp [and_assoc]

theorem zoneField_eq_some {s : Server τ γ} {m : RecordModel} {zone z : ℕ} :
    zoneField scope s m zone = some z ↔
      (zone, m.isReverse) ∈ s.zones ∧ scope none zone .view = true ∧ zone = z := by
  unfold zoneField fieldToken
  split_ifs with h
  · simp [h]
  · refine iff_of_false (by simp) ?_
    rintro ⟨h1, h2, -⟩
    exact h ⟨h1, h2⟩

/-- The zone of an updated row is its own, unless it is that of a LOC row and the request names one. -/
theorem updatedZone_eq_some {s : Server τ γ} {isPartial : Bool} {row : RecordRow γ} {zone : Option ℕ}
    {z : ℕ} (h : updatedZone scope s isPartial row zone = some z) :
    (z = row.zone ∧ ¬ (row.model = .loc ∧ zone ≠ none)) ∨ row.model = .loc ∧ zone = some z := by
  unfold updatedZone at h
  by_cases hw : row.model.zoneWriteOnce = true
  · rw [if_pos hw] at h
    refine Or.inl ⟨(Option.some.inj h).symm, ?_⟩
    rintro ⟨hloc, -⟩
    rw [hloc] at hw
    cases hw
  · rw [if_neg hw] at h
    have hloc : row.model = .loc := by
      revert hw
      cases row.model <;> simp [RecordModel.zoneWriteOnce]
    rcases zone with _ | zone
    · dsimp only at h
      split_ifs at h with hp
      exact Or.inl ⟨(Option.some.inj h).symm, by simp⟩
    · obtain ⟨-, -, rfl⟩ := zoneField_eq_some.mp h
      exact Or.inr ⟨hloc, rfl⟩

/-- A change is in zones that the caller may edit if and only if the request is guarded. -/
theorem handle_editable {s : Server τ γ} {token : τ} {request : Request τ δ} {change : Change γ}
    (hauth : request.auth = some token)
    (hh : handle scope validate s token request.model request.verb = some change) :
    (∀ row ∈ change.rows, scope (some token) row.zone .edit = true) ↔
      Guarded scope validate s request := by
  rcases hverb : request.verb with ⟨_ | zone, data⟩ | ⟨isPartial, pk, zone, data⟩ | pk
  · rw [hverb] at hh
    cases hh
  · rw [hverb] at hh
    obtain ⟨z, hz, hh⟩ := Option.bind_eq_some_iff.mp hh
    obtain ⟨columns, hcolumns, hh⟩ := Option.bind_eq_some_iff.mp hh
    obtain rfl := Option.some.inj hh
    obtain ⟨hmem, hview, rfl⟩ := zoneField_eq_some.mp hz
    have hrows : (∀ row ∈ (Change.create ⟨s.records.next, request.model, zone, columns⟩).rows,
        scope (some token) row.zone .edit = true) ↔ scope (some token) zone .edit = true := by
      simp [Change.rows]
    rw [hrows]
    constructor
    · intro hedit token' hauth' zone' hmem' hview'
      obtain rfl := Option.some.inj (hauth.symm.trans hauth')
      refine ⟨fun data' hv _ => ?_, fun _ _ _ _ hv => ?_⟩
      · obtain ⟨hz', -⟩ := Verb.create.inj (hverb.symm.trans hv)
        rw [← Option.some.inj hz']
        exact hedit
      · rw [hverb] at hv
        cases hv
    · intro hguard
      exact (hguard token hauth zone hmem hview).1 data hverb (by rw [hcolumns]; rfl)
  · rw [hverb] at hh
    obtain ⟨row, hrow, hh⟩ := Option.bind_eq_some_iff.mp hh
    obtain ⟨z, hz, hh⟩ := Option.bind_eq_some_iff.mp hh
    obtain ⟨columns, hcolumns, hh⟩ := Option.bind_eq_some_iff.mp hh
    obtain rfl := Option.some.inj hh
    obtain ⟨hget, hmodel, hview, hedit⟩ := getObject_eq_some.mp hrow
    have hrows : (∀ r ∈ (Change.change row { row with zone := z, columns := columns }).rows,
        scope (some token) r.zone .edit = true) ↔ scope (some token) z .edit = true := by
      simp [Change.rows, hedit]
    rw [hrows]
    rcases updatedZone_eq_some hz with ⟨rfl, hno⟩ | ⟨hloc, rfl⟩
    · refine iff_of_true hedit fun token' _ zone' _ _ => ⟨fun data' hv _ => ?_, ?_⟩
      · rw [hverb] at hv
        cases hv
      · intro isPartial' pk' data' row' hv hloc'
        obtain ⟨-, -, rfl, -⟩ := Verb.update.inj (hverb.symm.trans hv)
        exact absurd ⟨hmodel.trans hloc', by simp⟩ hno
    · have hloc' : request.model = .loc := hmodel.symm.trans hloc
      have hz' : zoneField scope s row.model z = some z := by
        unfold updatedZone at hz
        rw [hloc] at hz ⊢
        exact hz
      obtain ⟨hmem, hnone, -⟩ := zoneField_eq_some.mp hz'
      rw [hmodel] at hmem
      constructor
      · intro hz'' token' hauth' zone' _ _
        obtain rfl := Option.some.inj (hauth.symm.trans hauth')
        refine ⟨fun data' hv _ => ?_, fun isPartial' pk' data' row' hv _ _ _ _ _ _ => ?_⟩
        · rw [hverb] at hv
          cases hv
        · obtain ⟨-, -, heq, -⟩ := Verb.update.inj (hverb.symm.trans hv)
          rw [← Option.some.inj heq]
          exact hz''
      · intro hguard
        refine (hguard token hauth z hmem hnone).2 isPartial pk data row hverb hloc' hget hloc hview
          hedit ?_
        rw [← hloc', hcolumns]
        rfl
  · rw [hverb] at hh
    obtain ⟨row, hrow, rfl⟩ := Option.map_eq_some_iff.mp hh
    obtain ⟨-, -, -, hedit⟩ := getObject_eq_some.mp hrow
    refine iff_of_true (by simpa [Change.rows] using hedit) fun token' _ zone' _ _ =>
      ⟨fun data' hv _ => ?_, fun _ _ _ _ hv => ?_⟩ <;>
    · rw [hverb] at hv
      cases hv

/-- A request that is refused is guarded: it names no zone, or none that it could get at. -/
theorem guarded_of_refused {s : Server τ γ} {token : τ} {request : Request τ δ}
    (hauth : request.auth = some token)
    (hh : handle scope validate s token request.model request.verb = none) :
    Guarded scope validate s request := by
  intro token' hauth' zone hmem hnone
  obtain rfl := Option.some.inj (hauth.symm.trans hauth')
  have hz : zoneField scope s request.model zone = some zone :=
    zoneField_eq_some.mpr ⟨hmem, hnone, rfl⟩
  constructor
  · intro data hv hvalid
    rw [hv] at hh
    obtain ⟨columns, hcolumns⟩ := Option.isSome_iff_exists.mp hvalid
    simp [handle, hz, hcolumns] at hh
  · intro isPartial pk data row hv hloc hget hrow hview hedit hvalid
    rw [hv] at hh
    obtain ⟨columns, hcolumns⟩ := Option.isSome_iff_exists.mp hvalid
    have hobj : getObject scope s token request.model pk = some row :=
      getObject_eq_some.mpr ⟨hget, hrow.trans hloc.symm, hview, hedit⟩
    have hzone : updatedZone scope s isPartial row (some zone) = some zone := by
      unfold updatedZone
      rw [hrow]
      rw [hloc] at hz
      exact hz
    rw [← hloc] at hcolumns
    simp [handle, hobj, hzone, hcolumns] at hh

/-- **A request keeps every change editable** if and only if it is guarded. -/
theorem editable_step {s s' : Server τ γ} {request : Request τ δ} (hE : Editable scope s)
    (hs : step scope validate s request = some s') :
    Editable scope s' ↔ Guarded scope validate s request := by
  unfold step at hs
  rcases hauth : request.auth with _ | token
  · rw [hauth] at hs
    obtain rfl := Option.some.inj hs
    exact iff_of_true hE fun token hauth' => by rw [hauth] at hauth'; cases hauth'
  rw [hauth] at hs
  rcases hh : handle scope validate s token request.model request.verb with _ | change
  · simp only [hh] at hs
    obtain rfl := Option.some.inj hs
    exact iff_of_true hE (guarded_of_refused hauth hh)
  · simp only [hh] at hs
    obtain rfl := Option.some.inj hs
    rw [← handle_editable hauth hh]
    constructor
    · intro hE'
      exact hE' token change (List.mem_append_right _ List.mem_cons_self)
    · intro hrows token' change' hmem
      rcases List.mem_append.mp hmem with hmem | hmem
      · exact hE token' change' hmem
      · obtain ⟨rfl, rfl⟩ := Prod.mk.inj (List.mem_singleton.mp hmem)
        exact hrows

end

/-- **Every row changed through the API** is in a zone that the caller may edit, before and after, in
every state of a run of requests, if and only if every request is guarded. -/
theorem editable_iff {τ γ δ : Type} (scope : Scopes τ)
    (validate : RecordModel → Option γ → δ → Option γ) (zones : List (ℕ × Bool))
    (records : Table (RecordRow γ) RecordRow.id) (requests : List (Request τ δ)) :
    Always (step scope validate) (Editable scope) ⟨zones, records, []⟩ requests ↔
      Along (step scope validate) (Guarded scope validate) ⟨zones, records, []⟩ requests := by
  refine always_iff_along (J := fun _ => True) (fun _ _ _ _ _ _ _ => trivial)
    (fun _ _ _ _ hE hs => editable_step hE hs) trivial ?_ requests
  intro token change hmem
  cases hmem

/-! ### A record in a zone of somebody else -/

/-- The first caller may view and edit the first zone, and `None` may view every zone. -/
def openScopes : Scopes ℕ
  | some 1, 1, _ => true
  | none, _, .view => true
  | _, _, _ => false

/-- The first caller creates a TXT record in the second zone. -/
def foreignRequest : Request ℕ Unit := ⟨some 1, .txt, .create (some 2) ()⟩

/-- **A caller can create a record** in a zone that it may neither edit nor view. -/
theorem not_editable_create : ¬ ∀ (τ γ δ : Type) (scope : Scopes τ)
    (validate : RecordModel → Option γ → δ → Option γ) (zones : List (ℕ × Bool))
    (records : Table (RecordRow γ) RecordRow.id) (requests : List (Request τ δ))
    (s : Server τ γ), after (step scope validate) ⟨zones, records, []⟩ requests = some s →
    Editable scope s := by
  intro hall
  have hE := hall ℕ Unit Unit openScopes (fun _ _ _ => some ()) [(1, false), (2, false)] .empty
    [foreignRequest] _ rfl
  have h2 := hE 1 (.create ⟨0, .txt, 2, ()⟩) (by decide) ⟨0, .txt, 2, ()⟩ (by decide)
  cases h2

end HexDns.Api.Records
