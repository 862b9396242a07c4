import HexDns.Lib.Logs
import HexDns.Lib.Threads
import HexDns.Models.Db

/-! # The database behind the web views

What the requests to the views of `dns_grpc/views` share: the zones, the rows that belong to them, and the
permission service. A view is a thread that accesses them one call at a time (the settings have no
`ATOMIC_REQUESTS`), so that other requests, and the other parts of the service, go on between any two of its
accesses. An object that a view has read is what it was when it was read; `save` writes all columns of it, and
brings the row back if it was deleted in the meantime.

`Lawful` says of the log of all accesses that whoever writes or sees something of a zone has been allowed to
while the request was handled. The calls have one specification each. -/

namespace HexDns.Views.Site

open HexDns.Lib HexDns.Lib.Texts HexDns.Lib.Tables HexDns.Lib.Threads HexDns.Models.Db

/-! ### Rows -/

/-- The models whose rows belong to a zone. -/
inductive RowModel
  /-- a model derived from `DNSZoneRecord` -/
  | record (m : Model)
  | additionalCds | additionalCdnskey | customNs | updateSecrets | axfrSecrets | axfrIpAcl | axfrNotify
  /-- `PTRRecord` and `ReverseNSRecord`, of reverse zones -/
  | ptr | reverseNs
  deriving DecidableEq, Repr

/-- `save` and `delete` start `update_fzone`, or `update_rzone`. -/
def RowModel.hasTask : RowModel → Bool
  | .updateSecrets => false
  | .axfrSecrets => false
  | .axfrIpAcl => false
  | .axfrNotify => false
  | _ => true

/-- The columns of a row; those of the models that are only ever filled in through a form are `γ`. -/
inductive Columns (γ : Type)
  | txt (recordName : Text) (ttl : ℕ) (data : Text)
  | mx (recordName : Text) (ttl : ℕ) (exchange : Text) (priority : ℕ)
  | cname (recordName : Text) (ttl : ℕ) (aliasName : Text)
  | githubPages (recordName : Text) (ttl : ℕ) (repoOwner repoName : Option Text)
  | other (m : RowModel) (columns : γ)
  deriving DecidableEq, Repr

variable {τ γ ζ : Type}

def Columns.model : Columns γ → RowModel
  | .txt .. => .record .txt
  | .mx .. => .record .mx
  | .cname .. => .record .cname
  | .githubPages .. => .record .githubPages
  | .other m _ => m

structure RecordRow (γ : Type) where
  id : ℕ
  zone : ℕ
  columns : Columns γ
  deriving DecidableEq, Repr

/-- What the key of a row is made for: the zone, and the model. -/
def RecordRow.home (row : RecordRow γ) : ℕ × RowModel := (row.zone, row.columns.model)

/-- A row of `DNSZone` or `ReverseDNSZone`; `ζ` are the columns that the views leave as they are. -/
structure ZoneRow (ζ : Type) where
  id : ℕ
  isReverse : Bool
  zoneRoot : Text
  lastModified : ℕ
  cdsDisable : Bool
  columns : ζ
  deriving DecidableEq, Repr

/-! ### What is shared -/

/-- `action` of `has_scope` -/
inductive Action
  | view | edit
  deriving DecidableEq, Repr

/-- `has_scope` by token, zone and action -/
abbrev Scopes (τ : Type) := τ → ℕ → Action → Bool

/-- A write to a row. -/
inductive Change (γ : Type)
  | save (before : Option (RecordRow γ)) (after : RecordRow γ)
  | delete (row : RecordRow γ)
  /-- The row is dropped with others by the `delete` of a query set. -/
  | purge (row : RecordRow γ)
  deriving DecidableEq, Repr

/-- The rows that a write is about, before and after it. -/
def Change.rows : Change γ → List (RecordRow γ)
  | .save before after => before.toList ++ [after]
  | .delete row => [row]
  | .purge row => [row]

/-- The rows are not dropped all at once. -/
def Change.single : Change γ → Bool
  | .purge _ => false
  | _ => true

/-- What happens, with the number of the request and its token. -/
inductive Event (τ γ ζ : Type)
  /-- The permission service says something else from now on. -/
  | permissions (scopes : Scopes τ)
  | began (n : ℕ) (token : τ)
  /-- A task to update a zone is started. -/
  | queued (n : ℕ) (zone : ℕ)
  | wrote (n : ℕ) (token : τ) (change : Change γ)
  | wroteZone (n : ℕ) (token : τ) (zone : ZoneRow ζ)
  /-- A page about a zone is sent. -/
  | showed (n : ℕ) (token : τ) (zone : ℕ)

structure Site (τ γ ζ : Type) where
  zones : Table (ZoneRow ζ) ZoneRow.id
  records : Table (RecordRow γ) RecordRow.id
  /-- what the keys of rows were made for -/
  home : ℕ → Option (ℕ × RowModel)
  log : List (Event τ γ ζ)

/-- What the permission service says after a log; at first it allows nothing. -/
def scopesAt (log : List (Event τ γ ζ)) : Scopes τ :=
  (log.reverse.findSome? fun e =>
    match e with
    | .permissions scopes => some scopes
    | _ => none).getD fun _ _ _ => false

/-! ### Calls -/

/-- What comes back from another service. -/
structure HttpReply where
  status : ℕ
  texts : List Text
  deriving DecidableEq, Repr

/-- The accesses of a view to what is outside of it. -/
inductive Call (τ γ ζ : Type)
  /-- `get_active_access_token(oidc_profile=request.user.oidc_profile)` -/
  | accessToken
  /-- `get_object_or_404` of a zone -/
  | getZone (isReverse : Bool) (id : ℕ)
  /-- `get_object_or_404` of a row -/
  | getRecord (m : RowModel) (id : ℕ)
  /-- `row.zone`, or `row.dns_zone` -/
  | zoneOf (row : RecordRow γ)
  | hasScope (token : τ) (zone : ℕ) (action : Action)
  /-- the key of a new object of the model, made for a zone -/
  | newId (zone : ℕ) (m : RowModel)
  /-- `timezone.now()` -/
  | now
  /-- `update_fzone.delay`, or `update_rzone.delay` -/
  | delay (zone : ℕ)
  /-- `super().save()` of a zone -/
  | saveZone (zone : ZoneRow ζ)
  /-- `super().save()` of a row -/
  | saveRow (row : RecordRow γ)
  /-- `super().delete()` of a row -/
  | deleteRow (row : RecordRow γ)
  /-- `zone_obj.…_set.filter(…).delete()` -/
  | deleteRows (zone : ℕ) (p : Columns γ → Bool)
  /-- `zone_obj.txtrecord_set.get(data=data)` -/
  | getTxt (zone : ℕ) (data : Text)
  /-- `secrets.token_hex(32)` -/
  | tokenHex
  /-- `GitHubInstallation.objects.filter(user=request.user.account).first()` -/
  | installation
  /-- A request to GitHub, Google or Kubernetes. -/
  | http (url : Text)
  /-- `render` of a page about a zone -/
  | render (zone : ℕ)

def Call.Reply : Call τ γ ζ → Type
  | .accessToken => τ
  | .getZone .. => ZoneRow ζ
  | .getRecord .. => RecordRow γ
  | .zoneOf .. => ZoneRow ζ
  | .hasScope .. => Bool
  | .newId .. => ℕ
  | .now => ℕ
  | .delay .. => Unit
  | .saveZone .. => Unit
  | .saveRow .. => Unit
  | .deleteRow .. => Unit
  | .deleteRows .. => Unit
  | .getTxt .. => Option (RecordRow γ)
  | .tokenHex => Text
  | .installation => Bool
  | .http .. => HttpReply
  | .render .. => Unit

/-- What a call leaves open. -/
structure Chance where
  newId : ℕ
  now : ℕ
  tokenHex : Text
  installed : Bool
  reply : HttpReply
  deriving DecidableEq, Repr

def Site.logged (s : Site τ γ ζ) (es : List (Event τ γ ζ)) : Site τ γ ζ := { s with log := s.log ++ es }

/-- A key is made. -/
def Site.given (s : Site τ γ ζ) (key : ℕ) (home : ℕ × RowModel) : Site τ γ ζ :=
  { s with home := fun id => if id = key then some home else s.home id }

/-- The rows of a zone that meet a condition. -/
def Site.rowsOf (s : Site τ γ ζ) (zone : ℕ) (p : Columns γ → Bool) : List (RecordRow γ) :=
  s.records.rows.filter fun r => r.zone = zone && p r.columns

/-- `data=data` -/
def isTxt (data : Text) : Columns γ → Bool
  | .txt _ _ d => d = data
  | _ => false

/-- A call of a request: its reply, nothing if it raises, and the site after it. -/
def handle (n : ℕ) (token : τ) (s : Site τ γ ζ) :
    (i : Call τ γ ζ) → Chance → Option (Option i.Reply × Site τ γ ζ)
  | .accessToken, _ => some (some token, s.logged [.began n token])
  | .getZone isReverse id, _ => some ((getRow s.zones id).filter (·.isReverse = isReverse), s)
  | .getRecord m id, _ => some ((getRow s.records id).filter (·.columns.model = m), s)
  | .zoneOf row, _ => some (getRow s.zones row.zone, s)
  | .hasScope token zone action, _ => some (some (scopesAt s.log token zone action), s)
  | .newId zone m, x =>
    -- no two keys are the same
    if s.home x.newId = none then
      some (some x.newId, s.given x.newId (zone, m))
    else none
  | .now, x => some (some x.now, s)
  | .delay zone, _ => some (some (), s.logged [.queued n zone])
  | .saveZone zone, _ => some (some (), { s with zones := s.zones.save zone }.logged [.wroteZone n token zone])
  | .saveRow row, _ =>
    -- the foreign key
    if (getRow s.zones row.zone).isSome then
      some (some (), { s with records := s.records.save row }.logged
        [.wrote n token (.save (getRow s.records row.id) row)])
    else some (none, s)
  | .deleteRow row, _ =>
    some (some (), { s with records := s.records.erase row.id }.logged
      ((getRow s.records row.id).toList.map fun r => .wrote n token (.delete r)))
  | .deleteRows zone p, _ =>
    some (some (), { s with records := s.records.erasing fun r => r.zone = zone && p r.columns }.logged
      ((s.rowsOf zone p).map fun r => .wrote n token (.purge r)))
  | .getTxt zone data, _ =>
    match s.rowsOf zone (isTxt data) with
    | [] => some (some none, s)
    | [row] => some (some (some row), s)
    -- `MultipleObjectsReturned`
    | _ => some (none, s)
  | .tokenHex, x => some (some x.tokenHex, s)
  | .installation, x => some (some x.installed, s)
  | .http _, x => some (some x.reply, s)
  | .render zone, _ => some (some (), s.logged [.showed n token zone])

/-! ### Everybody else -/

/-- What other parts of the service do. They leave every row in its zone and in its model. -/
inductive Other (τ γ ζ : Type)
  | permissions (scopes : Scopes τ)
  | saveZone (zone : ZoneRow ζ)
  | deleteZone (id : ℕ)
  | createRow (row : RecordRow γ)
  | saveRow (row : RecordRow γ)
  | deleteRow (id : ℕ)

def others (s : Site τ γ ζ) : Other τ γ ζ → Option (Site τ γ ζ)
  | .permissions scopes => some (s.logged [.permissions scopes])
  | .saveZone zone => some { s with zones := s.zones.save zone }
  | .deleteZone id => some { s with
      zones := s.zones.erase id
      records := s.records.erasing fun r => r.zone = id }
  | .createRow row =>
    if s.home row.id = none then
      some { s.given row.id row.home with records := s.records.save row }
    else none
  | .saveRow row => if s.home row.id = some row.home then some { s with records := s.records.save row } else none
  | .deleteRow id => some { s with records := s.records.erase id }

/-- The views on what they share. -/
def site : System (Site τ γ ζ) τ (Call τ γ ζ) Call.Reply Chance (Other τ γ ζ) := ⟨handle, others⟩

/-! ### The calls of a view -/

/-- A part of a view. -/
abbrev View (τ γ ζ α : Type) := Thread (Call τ γ ζ) Call.Reply α

def accessToken : View τ γ ζ τ := perform Call.accessToken
def getZone (isReverse : Bool) (id : ℕ) : View τ γ ζ (ZoneRow ζ) := perform (Call.getZone isReverse id)
def getRecord (m : RowModel) (id : ℕ) : View τ γ ζ (RecordRow γ) := perform (Call.getRecord m id)
def zoneOf (row : RecordRow γ) : View τ γ ζ (ZoneRow ζ) := perform (Call.zoneOf row)
def hasScope (token : τ) (zone : ℕ) (action : Action) : View τ γ ζ Bool := perform (Call.hasScope token zone action)
def newId (zone : ℕ) (m : RowModel) : View τ γ ζ ℕ := perform (Call.newId zone m)
def now : View τ γ ζ ℕ := perform Call.now
def delay (zone : ℕ) : View τ γ ζ Unit := perform (Call.delay zone)
def saveZone (zone : ZoneRow ζ) : View τ γ ζ Unit := perform (Call.saveZone zone)
def writeRow (row : RecordRow γ) : View τ γ ζ Unit := perform (Call.saveRow row)
def dropRow (row : RecordRow γ) : View τ γ ζ Unit := perform (Call.deleteRow row)
def deleteRows (zone : ℕ) (p : Columns γ → Bool) : View τ γ ζ Unit := perform (Call.deleteRows zone p)
def getTxt (zone : ℕ) (data : Text) : View τ γ ζ (Option (RecordRow γ)) := perform (Call.getTxt zone data)
def tokenHex : View τ γ ζ Text := perform Call.tokenHex
def installation : View τ γ ζ Bool := perform Call.installation
def http (url : Text) : View τ γ ζ HttpReply := perform (Call.http url)
def render (zone : ℕ) : View τ γ ζ Unit := perform (Call.render zone)

/-- A site with these rows, before the first request. -/
def initial (zones : Table (ZoneRow ζ) ZoneRow.id) (records : Table (RecordRow γ) RecordRow.id) : Site τ γ ζ :=
  ⟨zones, records, fun id => (getRow records id).map (·.home), []⟩

/-! ### What the log has to say -/

/-- **The request with the number was allowed the action on the zone** while it was handled. -/
def Granted (n : ℕ) (token : τ) (zone : ℕ) (action : Action) (log : List (Event τ γ ζ)) : Prop :=
  ∃ past, .began n token ∈ past ∧ past <+: log ∧ scopesAt past token zone action = true

/-- What has to be in the log before an event. A row is written by a request that was allowed to edit its zone,
and after a task for the zone was started, if the model has one; only rows that are dropped all at once are
dropped without one. -/
def Event.Allowed (log : List (Event τ γ ζ)) : Event τ γ ζ → Prop
  | .wrote n token change => ∀ row ∈ change.rows, Granted n token row.zone .edit log ∧
      (change.single = true → row.columns.model.hasTask = true → .queued n row.zone ∈ log)
  | .wroteZone n token zone => Granted n token zone.id .edit log
  | .showed n token zone => Granted n token zone .edit log ∨ Granted n token zone .view log
  | _ => True

/-- **Every event was allowed** by what was in the log before it. -/
def Lawful (log : List (Event τ γ ζ)) : Prop := ∀ front e back, log = front ++ e :: back → e.Allowed front

/-- The log is lawful, and every row is what its key was made for. -/
structure Inv (s : Site τ γ ζ) : Prop where
  home : ∀ row ∈ s.records, s.home row.id = some row.home
  lawful : Lawful s.log

/-- The log gets longer, and no key gets another zone. -/
instance : Preorder (Site τ γ ζ) where
  le s t := s.log <+: t.log ∧ ∀ id home, s.home id = some home → t.home id = some home
  le_refl s := ⟨List.prefix_refl _, fun _ _ h => h⟩
  le_trans _ _ _ hst htu := ⟨hst.1.trans htu.1, fun id home h => htu.2 id home (hst.2 id home h)⟩

section
variable {n : ℕ} {token : τ} {zone : ℕ} {action : Action} {log log' : List (Event τ γ ζ)} {e : Event τ γ ζ}
  {es : List (Event τ γ ζ)} {s t : Site τ γ ζ}

theorem Granted.mono (h : Granted n token zone action log) (hle : log <+: log') : Granted n token zone action log' := by
  obtain ⟨past, hbegan, hpast, hscope⟩ := h
  exact ⟨past, hbegan, hpast.trans hle, hscope⟩

theorem Event.Allowed.mono (h : e.Allowed log) (hle : log <+: log') : e.Allowed log' := by
  rcases e with scopes | ⟨n, token⟩ | ⟨n, zone⟩ | ⟨n, token, change⟩ | ⟨n, token, zone⟩ | ⟨n, token, zone⟩
  · trivial
  · trivial
  · trivial
  · intro row hrow
    obtain ⟨hgranted, hqueued⟩ := h row hrow
    exact ⟨hgranted.mono hle, fun hsingle htask => hle.subset (hqueued hsingle htask)⟩
  · exact Granted.mono h hle
  · exact h.imp (·.mono hle) (·.mono hle)

theorem Lawful.append (h : Lawful log) (hes : ∀ e ∈ es, e.Allowed log) : Lawful (log ++ es) :=
  Logs.Lawful.append (fun _ _ _ hle he => he.mono hle) h hes

theorem le_given {key : ℕ} {home : ℕ × RowModel} (hfresh : s.home key = none) : s ≤ s.given key home := by
  refine ⟨List.prefix_refl _, fun id old hold => ?_⟩
  show (if id = key then some home else s.home id) = some old
  rwa [if_neg fun heq => by rw [heq, hfresh] at hold; cases hold]

theorem le_logged : s ≤ s.logged es := ⟨List.prefix_append _ _, fun _ _ h => h⟩

end

/-! ### What the calls do -/

section
variable {n : ℕ} {token : τ} {α : Type} {s : Site τ γ ζ}

/-- The part of a view keeps the log lawful, and what it returns meets the postcondition. -/
abbrev Keeps (n : ℕ) (token : τ) (view : View τ γ ζ α) (post : α → Site τ γ ζ → Prop) (s : Site τ γ ζ) : Prop :=
  Safe site Inv n token view post s

/-- One part of a view after the other. -/
theorem keeps_bind {β : Type} {view : View τ γ ζ α} {f : α → View τ γ ζ β} {mid : α → Site τ γ ζ → Prop}
    {post : β → Site τ γ ζ → Prop} (hview : Keeps n token view mid s)
    (hf : ∀ a t, s ≤ t → mid a t → Keeps n token (f a) post t) : Keeps n token (view >>= f) post s := hview.andThen hf

theorem Inv.logged {t : Site τ γ ζ} {es : List (Event τ γ ζ)} (h : Inv t) (hes : ∀ e ∈ es, e.Allowed t.log) :
    Inv (t.logged es) := ⟨h.home, h.lawful.append hes⟩

theorem keeps_accessToken : Keeps n token accessToken (fun b u => b = token ∧ .began n token ∈ u.log) s := by
  refine safe_outcome fun t ht hI x => ⟨_, _, rfl, hI.logged (by simp [Event.Allowed]), le_logged, ?_⟩
  rintro b hb u hu
  exact ⟨(Option.some.inj hb).symm, hu.1.subset (by simp [Site.logged])⟩

theorem keeps_getZone {isReverse : Bool} {id : ℕ} : Keeps n token (getZone isReverse id) (fun _ _ => True) s :=
  safe_read fun _ _ _ _ => ⟨_, rfl, fun _ _ _ _ => trivial⟩

/-- A row that was read stays what it is. -/
theorem keeps_getRecord {m : RowModel} {id : ℕ} : Keeps n token (getRecord m id)
    (fun row u => u.home row.id = some row.home ∧ row.columns.model = m) s := by
  refine safe_read fun t ht hI x => ⟨_, rfl, fun row hrow u hu => ?_⟩
  obtain ⟨hget, hmodel⟩ := Option.filter_eq_some_iff.mp hrow
  exact ⟨hu.2 _ _ (hI.home row (getRow_eq_some.mp hget).1), by simpa using hmodel⟩

theorem keeps_zoneOf {row : RecordRow γ} : Keeps n token (zoneOf row) (fun zone _ => zone.id = row.zone) s :=
  safe_read fun _ _ _ _ => ⟨_, rfl, fun _ hzone _ _ => (getRow_eq_some.mp hzone).2⟩

theorem keeps_hasScope {zone : ℕ} {action : Action} (hbegan : .began n token ∈ s.log) :
    Keeps n token (hasScope token zone action) (fun b u => b = true → Granted n token zone action u.log) s := by
  refine safe_read fun t ht hI x => ⟨_, rfl, fun b hb u hu hscope => ?_⟩
  refine ⟨t.log, ht.1.subset hbegan, hu.1, ?_⟩
  rw [Option.some.inj hb, hscope]

theorem keeps_newId {zone : ℕ} {m : RowModel} :
    Keeps n token (newId zone m) (fun id u => u.home id = some (zone, m)) s := by
  refine safe_perform fun t ht hI x r t' hx => ?_
  have hx' : (if t.home x.newId = none then some (some x.newId, t.given x.newId (zone, m)) else none) =
    some (r, t') := hx
  split_ifs at hx' with hfresh
  obtain ⟨rfl, rfl⟩ := Prod.mk.inj (Option.some.inj hx')
  have hle : t ≤ t.given x.newId (zone, m) := le_given hfresh
  refine ⟨⟨fun row hrow => hle.2 _ _ (hI.home row hrow), hI.lawful⟩, hle, fun id hid u hu _ => ?_⟩
  obtain rfl := Option.some.inj hid
  exact hu.2 _ _ (if_pos rfl)

theorem keeps_now : Keeps n token now (fun _ _ => True) s :=
  safe_read fun _ _ _ _ => ⟨_, rfl, fun _ _ _ _ => trivial⟩

theorem keeps_tokenHex : Keeps n token tokenHex (fun _ _ => True) s :=
  safe_read fun _ _ _ _ => ⟨_, rfl, fun _ _ _ _ => trivial⟩

theorem keeps_installation : Keeps n token installation (fun _ _ => True) s :=
  safe_read fun _ _ _ _ => ⟨_, rfl, fun _ _ _ _ => trivial⟩

theorem keeps_http {url : Text} : Keeps n token (http url) (fun _ _ => True) s :=
  safe_read fun _ _ _ _ => ⟨_, rfl, fun _ _ _ _ => trivial⟩

theorem keeps_delay {zone : ℕ} : Keeps n token (delay zone) (fun _ u => .queued n zone ∈ u.log) s := by
  refine safe_outcome fun t ht hI x => ⟨_, _, rfl, hI.logged (by simp [Event.Allowed]), le_logged, ?_⟩
  intro b hb u hu
  exact hu.1.subset (by simp [Site.logged])

theorem keeps_render {zone : ℕ} (hgranted : Granted n token zone .edit s.log ∨ Granted n token zone .view s.log) :
    Keeps n token (render zone) (fun _ _ => True) s := by
  refine safe_outcome fun t ht hI x => ⟨_, _, rfl, hI.logged fun e he => ?_, le_logged, fun _ _ _ _ => trivial⟩
  rw [List.mem_singleton.mp he]
  exact hgranted.imp (·.mono ht.1) (·.mono ht.1)

theorem keeps_saveZone {zone : ZoneRow ζ} (hgranted : Granted n token zone.id .edit s.log) :
    Keeps n token (saveZone zone) (fun _ _ => True) s := by
  refine safe_outcome fun t ht hI x => ⟨_, _, rfl, ?_, le_logged, fun _ _ _ _ => trivial⟩
  refine Inv.logged (t := { t with zones := t.zones.save zone }) ⟨hI.home, hI.lawful⟩ fun e he => ?_
  rw [List.mem_singleton.mp he]
  exact hgranted.mono ht.1

/-- The row with the key of another one has the same zone and model. -/
theorem Inv.home_of_getRow {t : Site τ γ ζ} (hI : Inv t) {row old : RecordRow γ} (hhome : t.home row.id = some row.home)
    (hold : getRow t.records row.id = some old) : old.home = row.home := by
  obtain ⟨hmem, hid⟩ := getRow_eq_some.mp hold
  have hsame := hI.home old hmem
  rw [hid, hhome] at hsame
  exact (Option.some.inj hsame).symm

/-- A row is saved in the zone of the one that it takes the place of. -/
theorem keeps_writeRow {row : RecordRow γ} (hhome : s.home row.id = some row.home)
    (hgranted : Granted n token row.zone .edit s.log)
    (hqueued : row.columns.model.hasTask = true → .queued n row.zone ∈ s.log) :
    Keeps n token (writeRow row) (fun _ _ => True) s := by
  refine safe_outcome fun t ht hI x => ?_
  have hnow := ht.2 _ _ hhome
  by_cases hzone : (getRow t.zones row.zone).isSome
  · refine ⟨_, _, if_pos hzone, ?_, le_logged, fun _ _ _ _ => trivial⟩
    refine Inv.logged (t := { t with records := t.records.save row }) ⟨fun other hother => ?_, hI.lawful⟩
      fun e he => ?_
    · rcases mem_save.mp hother with rfl | ⟨hother, -⟩
      · exact hnow
      · exact hI.home other hother
    · rw [List.mem_singleton.mp he]
      intro other hother
      have hsame : other.home = row.home := by
        rcases List.mem_append.mp hother with hbefore | hafter
        · exact hI.home_of_getRow hnow (Option.mem_toList.mp hbefore)
        · rw [List.mem_singleton.mp hafter]
      obtain ⟨hz, hm⟩ := Prod.mk.inj hsame
      rw [hz, hm]
      exact ⟨hgranted.mono ht.1, fun _ htask => ht.1.subset (hqueued htask)⟩
  · exact ⟨_, _, if_neg hzone, hI, le_rfl, fun _ hb => by cases hb⟩

theorem keeps_dropRow {row : RecordRow γ} (hhome : s.home row.id = some row.home)
    (hgranted : Granted n token row.zone .edit s.log)
    (hqueued : row.columns.model.hasTask = true → .queued n row.zone ∈ s.log) :
    Keeps n token (dropRow row) (fun _ _ => True) s := by
  refine safe_outcome fun t ht hI x => ⟨_, _, rfl, ?_, le_logged, fun _ _ _ _ => trivial⟩
  refine Inv.logged (t := { t with records := t.records.erase row.id }) ⟨fun other hother => ?_, hI.lawful⟩
    fun e he => ?_
  · exact hI.home other (mem_erase.mp hother).1
  · obtain ⟨other, hother, rfl⟩ := List.mem_map.mp he
    intro r hr
    rw [List.mem_singleton.mp hr]
    obtain ⟨hz, hm⟩ := Prod.mk.inj (hI.home_of_getRow (ht.2 _ _ hhome) (Option.mem_toList.mp hother))
    rw [hz, hm]
    exact ⟨hgranted.mono ht.1, fun _ htask => ht.1.subset (hqueued htask)⟩

theorem keeps_deleteRows {zone : ℕ} {p : Columns γ → Bool} (hgranted : Granted n token zone .edit s.log) :
    Keeps n token (deleteRows zone p) (fun _ _ => True) s := by
  refine safe_outcome fun t ht hI x => ⟨_, _, rfl, ?_, le_logged, fun _ _ _ _ => trivial⟩
  refine Inv.logged (t := { t with records := t.records.erasing fun r => r.zone = zone && p r.columns })
    ⟨fun other hother => ?_, hI.lawful⟩ fun e he => ?_
  · exact hI.home other (mem_erasing.mp hother).1
  · obtain ⟨other, hother, rfl⟩ := List.mem_map.mp he
    intro r hr
    rw [List.mem_singleton.mp hr]
    obtain ⟨-, hp⟩ := List.mem_filter.mp hother
    have hz : other.zone = zone := by
      rw [Bool.and_eq_true, decide_eq_true_iff] at hp
      exact hp.1
    rw [hz]
    exact ⟨hgranted.mono ht.1, fun hsingle => by cases hsingle⟩

theorem keeps_getTxt {zone : ℕ} {data : Text} : Keeps n token (getTxt zone data)
    (fun row u => ∀ r, row = some r → u.home r.id = some r.home ∧ r.zone = zone) s := by
  refine safe_outcome fun t ht hI x => ?_
  have hrow : ∀ r, r ∈ t.rowsOf zone (isTxt data) → r ∈ t.records ∧ r.zone = zone := by
    intro r hr
    obtain ⟨hmem, hp⟩ := List.mem_filter.mp hr
    rw [Bool.and_eq_true, decide_eq_true_iff] at hp
    exact ⟨hmem, hp.1⟩
  rcases hrows : t.rowsOf zone (isTxt data) with - | ⟨row, _ | ⟨row', rows⟩⟩
  · exact ⟨some none, t, by simp only [site, handle, hrows], hI, le_rfl, fun b hb u hu r hr => by
      rw [← Option.some.inj hb] at hr; cases hr⟩
  · refine ⟨some (some row), t, by simp only [site, handle, hrows], hI, le_rfl, fun b hb u hu r hr => ?_⟩
    rw [← Option.some.inj hb] at hr
    obtain rfl := Option.some.inj hr
    obtain ⟨hmem, hz⟩ := hrow row (hrows ▸ List.mem_singleton_self row)
    exact ⟨hu.2 _ _ (hI.home row hmem), hz⟩
  · exact ⟨none, t, by simp only [site, handle, hrows], hI, le_rfl, fun b hb => by cases hb⟩

/-- What the other parts of the service do keeps the invariant. -/
theorem keeps_others {t : Site τ γ ζ} {e : Other τ γ ζ} (hI : Inv s) (hs : others s e = some t) :
    Inv t ∧ s ≤ t := by
  rcases e with scopes | zone | id | row | row | id
  · obtain rfl := Option.some.inj hs
    exact ⟨hI.logged (by simp [Event.Allowed]), le_logged⟩
  · obtain rfl := Option.some.inj hs
    exact ⟨⟨hI.home, hI.lawful⟩, le_refl s⟩
  · obtain rfl := Option.some.inj hs
    exact ⟨⟨fun row hrow => hI.home row (mem_erasing.mp hrow).1, hI.lawful⟩, le_refl s⟩
  · have hs' : (if s.home row.id = none then some { s.given row.id row.home with records := s.records.save row }
        else none) = some t := hs
    split_ifs at hs' with hfresh
    obtain rfl := Option.some.inj hs'
    have hle : s ≤ s.given row.id row.home := le_given hfresh
    refine ⟨⟨fun other hother => ?_, hI.lawful⟩, hle⟩
    rcases mem_save.mp hother with rfl | ⟨hother, -⟩
    · exact if_pos rfl
    · exact hle.2 _ _ (hI.home other hother)
  · have hs' : (if s.home row.id = some row.home then some { s with records := s.records.save row }
        else none) = some t := hs
    split_ifs at hs' with hhome
    obtain rfl := Option.some.inj hs'
    refine ⟨⟨fun other hother => ?_, hI.lawful⟩, le_refl s⟩
    rcases mem_save.mp hother with rfl | ⟨hother, -⟩
    · exact hhome
    · exact hI.home other hother
  · obtain rfl := Option.some.inj hs
    exact ⟨⟨fun row hrow => hI.home row (mem_erase.mp hrow).1, hI.lawful⟩, le_refl s⟩

theorem inv_initial (zones : Table (ZoneRow ζ) ZoneRow.id) (records : Table (RecordRow γ) RecordRow.id) :
    Inv (initial zones records : Site τ γ ζ) where
  home row hrow := by
    have hget : getRow records row.id = some row := getRow_eq_some.mpr ⟨hrow, rfl⟩
    show (getRow records row.id).map _ = _
    rw [hget]
    rfl
  lawful := Logs.lawful_nil

end

end HexDns.Views.Site
