import HexDns.Commands.TransferSecondary
import HexDns.Tasks.Rzone

/-! # The catalog zone and the registrations with Netnod

`update_catalog` looks up the owner of every zone with the identity service, writes the zones whose owner
has an active subscription into the catalog zone, and gives the names of these and of all others to
`sync_netnod_zones`, which registers the first and deregisters the others. `get_user` returns nothing
where the lookup fails, so that a zone is with the others then, while `find_zone` takes it as active.

`stays_iff`: a zone stays in the catalog zone and is not deregistered if and only if no lookup for a zone
of its name has failed, and no owner of such a zone is without an active subscription. -/

namespace HexDns.Tasks.Catalog

open HexDns.Lib.Texts HexDns.Lib.Programs HexDns.Base.Py HexDns.Base.Label HexDns.Base.Message
  HexDns.Models.Db HexDns.Models.Env HexDns.Models.Names HexDns.Tasks.ZoneFile HexDns.Tasks.Rzone
open HexDns.Commands.TransferSecondary (SecondaryZone)

/-! ### Owners -/

/-- A user, with `account.subscription_active`, nothing if there is no account. -/
structure User where
  username : Text
  subscriptionActive : Option Bool
  deriving DecidableEq, Repr

/-- What `zone.get_user()` comes to. -/
inductive Lookup
  | owner (user : Option User)
  | keycloakClientError
  | requestException
  /-- another exception -/
  | raises (e : PyErr)
  deriving DecidableEq, Repr

/-- `get_user` -/
def getUser : Lookup → Except PyErr (Option User)
  | .owner user => .ok user
  | .keycloakClientError | .requestException => .ok none
  | .raises e => .error e

/-- `is_active` -/
def isActive : Option User → Bool
  | none => false
  | some user => user.subscriptionActive.getD false

/-- The identity service gives no answer. -/
def Lookup.Fails : Lookup → Prop
  | .owner _ => False
  | .keycloakClientError | .requestException | .raises _ => True

instance : DecidablePred Lookup.Fails := fun l =>
  match l with
  | .owner _ => inferInstanceAs (Decidable False)
  | .keycloakClientError | .requestException | .raises _ => inferInstanceAs (Decidable True)

/-! ### The catalog zone -/

/-- A row of `DNSZone`, `ReverseDNSZone` or `SecondaryDNSZone` -/
inductive AnyZone (py : Python)
  | forward (zone : Zone)
  | reverse (zone : ReverseZone)
  | secondary (zone : SecondaryZone py)

/-- The text of the catalog zone, and the arguments of `sync_netnod_zones`. -/
structure CatalogUpdate where
  zoneFile : Text
  activeZones : List (Text × Text)
  inactiveZones : List Text
  deriving DecidableEq, Repr

/-- `"zone"`, in quotes -/
def quoted (t : Text) : Text := '"' :: t ++ ['"']

/-- The lines of a zone. -/
def memberLines (name group root : Text) : Text :=
  line [name, ".zones 0 IN PTR ".toList, root] ++
    line ["group.".toList, name, ".zones 0 IN TXT ".toList, quoted group]

/-- The lines before those of the zones. -/
def catalogHeader (time : ℕ) : Text :=
  line ["$ORIGIN catalog.dns.as207960.ltd.uk.".toList] ++
  line ["@ 0 IN SOA invalid. noc.as207960.net ".toList, showNat time, " 3600 600 2147483646 0".toList] ++
  line ["@ 0 IN NS invalid.".toList] ++
  line ["version 0 IN TXT \"2\"".toList] ++
  (nameservers.zipIdx.flatMap fun (ns, i) =>
    memberLines ("signal".toList ++ showNat i) "zone".toList ("_signal.".toList ++ ns)) ++
  line ["kube-cluster-fwd.zones 0 IN PTR kube-cluster.as207960.net.".toList] ++
  line ["group.kube-cluster-fwd1.zones 0 IN TXT \"zone\"".toList] ++
  memberLines "kube-cluster-rvs1".toList "zone".toList "0.0.0.8.c.f.0.8.7.6.0.1.0.0.2.ip6.arpa.".toList ++
  memberLines "kube-cluster-rvs2".toList "zone".toList "0.0.0.0.1.0.0.0.1.c.c.1.e.0.a.2.ip6.arpa.".toList

section
variable (h : Host)

def AnyZone.id : AnyZone h.py → ℕ
  | .forward zone => zone.id
  | .reverse zone => zone.id
  | .secondary zone => zone.id

/-- The root that the loop comes to, none if the pattern does not match. -/
def AnyZone.root : AnyZone h.py → Except PyErr (Option DnsLabel)
  | .forward zone =>
    if rootPattern zone.zoneRoot then (DnsLabel.ofText h.py zone.zoneRoot).map some else .ok none
  | .reverse zone =>
    match ipNetwork zone.zoneRootAddress zone.zoneRootPrefix with
    | some network => .ok (some (networkToApra network))
    | none => .error .valueError
  | .secondary zone =>
    if rootPattern zone.zoneRoot then (DnsLabel.ofText h.py zone.zoneRoot).map some else .ok none

def AnyZone.group : AnyZone h.py → Text
  | .forward zone => if zone.cdsDisable then "zone-cds-disable".toList else "zone".toList
  | .reverse zone => if zone.cdsDisable then "zone-cds-disable".toList else "zone".toList
  | .secondary _ => "zone-secondary".toList

/-- What a loop of `update_catalog` does with a zone. -/
def addZone (lookup : AnyZone h.py → Lookup) (c : CatalogUpdate) (zone : AnyZone h.py) :
    Except PyErr CatalogUpdate := do
  match ← zone.root h with
  | none => return c
  | some zoneRoot =>
    let owner ← getUser (lookup zone)
    if isActive owner then
      return { c with
        zoneFile := c.zoneFile ++ memberLines (showNat (zone.id h)) (zone.group h) zoneRoot.toText
        activeZones := c.activeZones ++ [(zoneRoot.toText, (owner.map User.username).getD [])] }
    else return { c with inactiveZones := c.inactiveZones ++ [zoneRoot.toText] }

/-- The zones of the three loops. -/
def allZones (forward : List Zone) (reverse : List ReverseZone) (secondary : List (SecondaryZone h.py)) :
    List (AnyZone h.py) :=
  forward.map AnyZone.forward ++ reverse.map AnyZone.reverse ++ secondary.map AnyZone.secondary

/-- `update_catalog`: what is written into the catalog zone and given to `sync_netnod_zones`. -/
def updateCatalog (forward : List Zone) (reverse : List ReverseZone) (secondary : List (SecondaryZone h.py))
    (lookup : AnyZone h.py → Lookup) (time : ℕ) : Except PyErr CatalogUpdate :=
  (allZones h forward reverse secondary).foldlM (addZone h lookup) ⟨catalogHeader time, [], []⟩

end

/-! ### Netnod -/

inductive Request
  | get (zoneName : Text)
  | post (zoneName endUser : Text)
  | delete (zoneName : Text)
  deriving DecidableEq, Repr

inductive Response
  | status (code : ℕ)
  | requestException
  deriving DecidableEq, Repr

/-- The service, with what it answers in its states. -/
structure Netnod (σ : Type) where
  respond : Request → σ → Response × σ

/-- The state of the service, and the requests that were sent to it. -/
structure Sent (σ : Type) where
  service : σ
  requests : List Request

section
variable {σ : Type} (n : Netnod σ)

/-- Send a request and return the status code; a `RequestException` is an `OSError`. -/
def send (r : Request) : Exec (Sent σ) PyErr ℕ := do
  let s ← get
  let answer := n.respond r s.service
  modify fun _ => ⟨answer.2, s.requests ++ [r]⟩
  match answer.1 with
  | .status code => pure code
  | .requestException => throw .osError

/-- `raise_for_status` -/
def raiseForStatus (code : ℕ) : Exec (Sent σ) PyErr Unit :=
  if 400 ≤ code ∧ code < 600 then throw .osError else pure ()

/-- `check_zone_registered` -/
def checkZoneRegistered (zoneName : Text) : Exec (Sent σ) PyErr Bool := do
  let code ← send n (.get zoneName)
  if code = 404 then return false
  else
    raiseForStatus code
    return true

/-- `register_zone` -/
def registerZone (zoneName endUser : Text) : Exec (Sent σ) PyErr Unit := do
  raiseForStatus (← send n (.post zoneName endUser))

/-- `deregister_zone` -/
def deregisterZone (zoneName : Text) : Exec (Sent σ) PyErr Unit := do
  raiseForStatus (← send n (.delete zoneName))

/-- A zone of the first loop of `sync_netnod_zones`. -/
def registerIfMissing (zone : Text × Text) : Exec (Sent σ) PyErr Unit := do
  if ← checkZoneRegistered n zone.1 then pure ()
  else tryCatch (registerZone n zone.1 zone.2) fun _ => pure ()

/-- A zone of the second loop. -/
def deregisterIfThere (zoneRoot : Text) : Exec (Sent σ) PyErr Unit := do
  if ← checkZoneRegistered n zoneRoot then tryCatch (deregisterZone n zoneRoot) fun _ => pure ()
  else pure ()

/-- `sync_netnod_zones` -/
def syncNetnodZones (activeZones : List (Text × Text)) (inactiveZones : List Text) :
    Exec (Sent σ) PyErr Unit := do
  runAll (registerIfMissing n) activeZones
  runAll (deregisterIfThere n) inactiveZones

end

/-! ### What is written and what is listed -/

/-- The lines of the zone are in the text. -/
def InCatalog (h : Host) (zoneFile : Text) (zone : AnyZone h.py) (zoneRoot : DnsLabel) : Prop :=
  ∃ before after, before.getLast? = some '\n' ∧
    zoneFile = before ++ memberLines (showNat (zone.id h)) (zone.group h) zoneRoot.toText ++ after

section
variable {h : Host} {lookup : AnyZone h.py → Lookup}

theorem getLast?_memberLines (before name group root : Text) :
    (before ++ memberLines name group root).getLast? = some '\n' := by
  unfold memberLines line
  rw [← List.append_assoc, ← List.append_assoc]
  exact List.getLast?_concat

/-- **What a loop does with a zone** that it comes to an end with. -/
theorem addZone_eq_ok {c c' : CatalogUpdate} {zone : AnyZone h.py} (hadd : addZone h lookup c zone = .ok c') :
    (zone.root h = .ok none ∧ c' = c) ∨ ∃ zoneRoot owner, zone.root h = .ok (some zoneRoot) ∧
      getUser (lookup zone) = .ok owner ∧
      ((isActive owner = true ∧
          c'.zoneFile = c.zoneFile ++ memberLines (showNat (zone.id h)) (zone.group h) zoneRoot.toText ∧
          c'.inactiveZones = c.inactiveZones) ∨
        (isActive owner = false ∧ c'.zoneFile = c.zoneFile ∧
          c'.inactiveZones = c.inactiveZones ++ [zoneRoot.toText])) := by
  unfold addZone at hadd
  obtain ⟨root, hroot, hadd⟩ := bind_eq_ok.mp hadd
  rcases root with _ | zoneRoot
  · exact Or.inl ⟨hroot, (Except.ok.inj hadd).symm⟩
  · obtain ⟨owner, howner, hadd⟩ := bind_eq_ok.mp hadd
    refine Or.inr ⟨zoneRoot, owner, hroot, howner, ?_⟩
    by_cases hactive : isActive owner = true
    · rw [if_pos hactive] at hadd
      obtain rfl := Except.ok.inj hadd
      exact Or.inl ⟨hactive, rfl, rfl⟩
    · rw [if_neg hactive] at hadd
      obtain rfl := Except.ok.inj hadd
      exact Or.inr ⟨by simpa using hactive, rfl, rfl⟩

/-- The lookup for a zone has come to an active owner. -/
def FoundActive (lookup : AnyZone h.py → Lookup) (zone : AnyZone h.py) : Prop :=
  ∃ user, lookup zone = .owner user ∧ isActive user = true

theorem foundActive_of_getUser {zone : AnyZone h.py} {owner : Option User}
    (howner : getUser (lookup zone) = .ok owner) : FoundActive lookup zone ↔ isActive owner = true := by
  unfold FoundActive
  rcases hl : lookup zone with user | _ | _ | e
  · rw [hl] at howner
    obtain rfl := Except.ok.inj howner
    simp
  · rw [hl] at howner
    obtain rfl := Except.ok.inj howner
    simp [isActive]
  · rw [hl] at howner
    obtain rfl := Except.ok.inj howner
    simp [isActive]
  · rw [hl] at howner
    cases howner

/-- **What the loops come to**: lines are added at the end, the zones with an active owner are in the text,
and the names of the others are listed. -/
theorem foldlM_addZone {zones : List (AnyZone h.py)} {c c' : CatalogUpdate}
    (hc : c.zoneFile.getLast? = some '\n') (hrun : zones.foldlM (addZone h lookup) c = .ok c') :
    (∃ more, c'.zoneFile = c.zoneFile ++ more) ∧
    (∀ zone ∈ zones, ∀ zoneRoot, zone.root h = .ok (some zoneRoot) → FoundActive lookup zone →
      InCatalog h c'.zoneFile zone zoneRoot) ∧
    ∀ name, name ∈ c'.inactiveZones ↔ name ∈ c.inactiveZones ∨ ∃ zone ∈ zones, ∃ zoneRoot,
      zone.root h = .ok (some zoneRoot) ∧ zoneRoot.toText = name ∧ ¬ FoundActive lookup zone := by
  induction zones generalizing c with
  | nil =>
    obtain rfl := Except.ok.inj hrun
    exact ⟨⟨[], (List.append_nil _).symm⟩, fun zone hz => (nomatch hz), fun name => by simp⟩
  | cons zone zones ih =>
    rw [List.foldlM_cons] at hrun
    obtain ⟨c₁, hadd, hrun⟩ := bind_eq_ok.mp hrun
    rcases addZone_eq_ok hadd with ⟨hnone, hsame⟩ | ⟨zoneRoot, owner, hroot, howner, hcase⟩
    · -- a zone that is passed over
      rw [hsame] at hrun
      obtain ⟨hmore, hin, hlisted⟩ := ih hc hrun
      refine ⟨hmore, fun zone' hz zoneRoot hroot hfound => ?_, fun name => ?_⟩
      · rcases List.mem_cons.mp hz with rfl | hz
        · rw [hnone] at hroot
          cases hroot
        · exact hin zone' hz zoneRoot hroot hfound
      · rw [hlisted]
        simp [hnone]
    · have hfound := foundActive_of_getUser howner
      rcases hcase with ⟨hactive, hfile, hlist⟩ | ⟨hactive, hfile, hlist⟩
      · -- a zone whose lines are added
        have hc₁ : c₁.zoneFile.getLast? = some '\n' := by
          rw [hfile]
          exact getLast?_memberLines _ _ _ _
        obtain ⟨⟨more, hmore⟩, hin, hlisted⟩ := ih hc₁ hrun
        refine ⟨⟨_, by rw [hmore, hfile, List.append_assoc]⟩, fun zone' hz zoneRoot' hroot' hfound' => ?_,
          fun name => ?_⟩
        · rcases List.mem_cons.mp hz with rfl | hz
          · rw [hroot] at hroot'
            obtain rfl := Option.some.inj (Except.ok.inj hroot')
            exact ⟨c.zoneFile, more, hc, by rw [hmore, hfile]⟩
          · exact hin zone' hz zoneRoot' hroot' hfound'
        · rw [hlisted, hlist]
          simp [hroot, hfound.mpr hactive]
      · -- a zone that is listed
        obtain ⟨⟨more, hmore⟩, hin, hlisted⟩ := ih (hfile ▸ hc) hrun
        have hnot : ¬ FoundActive lookup zone := by
          rw [hfound, hactive]
          exact Bool.false_ne_true
        refine ⟨⟨more, by rw [hmore, hfile]⟩, fun zone' hz zoneRoot' hroot' hfound' => ?_, fun name => ?_⟩
        · rcases List.mem_cons.mp hz with rfl | hz
          · exact absurd hfound' hnot
          · exact hin zone' hz zoneRoot' hroot' hfound'
        · rw [hlisted, hlist]
          simp only [List.mem_append, List.mem_singleton, List.exists_mem_cons_iff, hroot, hnot,
            Except.ok.injEq, Option.some.injEq, not_false_eq_true, and_true]
          constructor
          · rintro ((hmem | rfl) | hmem)
            · exact Or.inl hmem
            · exact Or.inr (Or.inl ⟨zoneRoot, rfl, rfl⟩)
            · exact Or.inr (Or.inr hmem)
          · rintro (hmem | ⟨_, rfl, rfl⟩ | hmem)
            · exact Or.inl (Or.inl hmem)
            · exact Or.inl (Or.inr rfl)
            · exact Or.inr hmem

/-! ### The requests -/

section
variable {σ : Type} {n : Netnod σ}

/-- The names of the zones that were to be deregistered are in the list. -/
def Deletes (names : List Text) (s : Sent σ) : Prop :=
  ∀ name, Request.delete name ∈ s.requests → name ∈ names

theorem triple_send {names : List Text} {r : Request} (hr : ∀ name, r = .delete name → name ∈ names) :
    Triple (Deletes names) (send n r) (fun _ => Deletes names) fun _ => Deletes names := by
  intro s hs
  have hsent : Deletes names (⟨(n.respond r s.service).2, s.requests ++ [r]⟩ : Sent σ) := by
    intro name hmem
    rcases List.mem_append.mp hmem with hmem | hmem
    · exact hs name hmem
    · exact hr name (List.mem_singleton.mp hmem).symm
  unfold send
  rw [run_bind_ok (run_get s), run_bind_ok (run_modify _ s)]
  rcases (n.respond r s.service).1 with code | _
  · exact hsent
  · exact hsent

theorem triple_raiseForStatus {names : List Text} (code : ℕ) :
    Triple (Deletes names) (raiseForStatus (σ := σ) code) (fun _ => Deletes names) fun _ => Deletes names := by
  refine triple_ite (fun _ => triple_throw _ fun s hs => hs) fun _ => triple_pure _ fun s hs => hs

theorem triple_checkZoneRegistered {names : List Text} (zoneName : Text) :
    Triple (Deletes names) (checkZoneRegistered n zoneName) (fun _ => Deletes names)
      fun _ => Deletes names := by
  refine triple_bind (triple_send fun name hr => (nomatch hr)) fun code => ?_
  refine triple_ite (fun _ => triple_pure _ fun s hs => hs) fun _ => ?_
  exact triple_bind (triple_raiseForStatus code) fun _ => triple_pure _ fun s hs => hs

theorem triple_tryCatch_pure {names : List Text} {m : Exec (Sent σ) PyErr Unit}
    (hm : Triple (Deletes names) m (fun _ => Deletes names) fun _ => Deletes names) :
    Triple (Deletes names) (tryCatch m fun _ => pure ()) (fun _ => Deletes names)
      fun _ => Deletes names := by
  intro s hs
  have hrun := hm s hs
  rw [run_tryCatch]
  rcases hr : run m s with ⟨e | u, s'⟩
  · rw [hr] at hrun
    exact hrun
  · rw [hr] at hrun
    exact hrun

/-- **Only zones of the second list are deregistered**, whatever Netnod answers. -/
theorem triple_syncNetnodZones (activeZones : List (Text × Text)) (inactiveZones : List Text) :
    Triple (Deletes inactiveZones) (syncNetnodZones n activeZones inactiveZones)
      (fun _ => Deletes inactiveZones) fun _ => Deletes inactiveZones := by
  refine triple_bind (triple_runAll fun zone _ => ?_) fun _ => triple_runAll fun zoneRoot hz => ?_
  · refine triple_bind (triple_checkZoneRegistered zone.1) fun registered => ?_
    refine triple_ite (fun _ => triple_pure _ fun s hs => hs) fun _ => triple_tryCatch_pure ?_
    exact triple_bind (triple_send fun name hr => (nomatch hr)) fun code => triple_raiseForStatus code
  · refine triple_bind (triple_checkZoneRegistered zoneRoot) fun registered => ?_
    refine triple_ite (fun _ => triple_tryCatch_pure ?_) fun _ => triple_pure _ fun s hs => hs
    refine triple_bind (triple_send fun name hr => ?_) fun code => triple_raiseForStatus code
    exact Request.delete.inj hr ▸ hz

end

end

/-- A service that has every zone registered and grants every request. -/
def grants : Netnod Unit := ⟨fun _ s => (.status 200, s)⟩

theorem run_registerIfMissing_grants (zone : Text × Text) (s : Sent Unit) :
    run (registerIfMissing grants zone) s = (.ok (), ⟨(), s.requests ++ [.get zone.1]⟩) := rfl

theorem run_deregisterIfThere_grants (zoneRoot : Text) (s : Sent Unit) :
    run (deregisterIfThere grants zoneRoot) s =
      (.ok (), ⟨(), s.requests ++ [.get zoneRoot] ++ [.delete zoneRoot]⟩) := rfl

theorem run_runAll_registerIfMissing (zones : List (Text × Text)) (s : Sent Unit) :
    ∃ s', run (runAll (registerIfMissing grants) zones) s = (.ok (), s') := by
  induction zones generalizing s with
  | nil => exact ⟨s, rfl⟩
  | cons zone zones ih =>
    show ∃ s', run (registerIfMissing grants zone >>= fun _ => runAll (registerIfMissing grants) zones) s = _
    rw [run_bind_ok (run_registerIfMissing_grants zone s)]
    exact ih _

theorem delete_mem_runAll {names : List Text} {s : Sent Unit} {name : Text}
    (hname : name ∈ names ∨ Request.delete name ∈ s.requests) :
    Request.delete name ∈ (run (runAll (deregisterIfThere grants) names) s).2.requests := by
  induction names generalizing s with
  | nil => exact hname.resolve_left List.not_mem_nil
  | cons zoneRoot names ih =>
    show Request.delete name ∈ (run (deregisterIfThere grants zoneRoot >>= fun _ =>
      runAll (deregisterIfThere grants) names) s).2.requests
    rw [run_bind_ok (run_deregisterIfThere_grants zoneRoot s)]
    refine ih ?_
    rcases hname with hname | hsent
    · rcases List.mem_cons.mp hname with rfl | hname
      · exact Or.inr (by simp)
      · exact Or.inl hname
    · exact Or.inr (by simp [hsent])

/-- With this service every zone of the second list is deregistered. -/
theorem delete_mem_syncNetnodZones (activeZones : List (Text × Text)) {inactiveZones : List Text}
    {name : Text} (hname : name ∈ inactiveZones) (s : Sent Unit) :
    Request.delete name ∈ (run (syncNetnodZones grants activeZones inactiveZones) s).2.requests := by
  obtain ⟨s', hs'⟩ := run_runAll_registerIfMissing activeZones s
  unfold syncNetnodZones
  rw [run_bind_ok hs']
  exact delete_mem_runAll (Or.inl hname)

/-! ### Zones that stay -/

section
variable (h : Host)

/-- The zone is in the catalog zone that is written, and Netnod is not asked to delete it, whatever it
answers to the requests before. -/
def Stays (c : CatalogUpdate) (zone : AnyZone h.py) (zoneRoot : DnsLabel) : Prop :=
  InCatalog h c.zoneFile zone zoneRoot ∧ ∀ (σ : Type) (n : Netnod σ) (service : σ),
    Request.delete zoneRoot.toText ∉
      (run (syncNetnodZones n c.activeZones c.inactiveZones) ⟨service, []⟩).2.requests

/-- The lookups come to the owners, or fail. -/
def Answers (owner : AnyZone h.py → Option User) (lookup : AnyZone h.py → Lookup) : Prop :=
  ∀ zone, lookup zone = .owner (owner zone) ∨ (lookup zone).Fails

end

section
variable {h : Host} {owner : AnyZone h.py → Option User} {lookup : AnyZone h.py → Lookup}

theorem foundActive_iff (hanswers : Answers h owner lookup) (zone : AnyZone h.py) :
    FoundActive lookup zone ↔ ¬ (lookup zone).Fails ∧ isActive (owner zone) = true := by
  unfold FoundActive
  rcases hanswers zone with hl | hfails
  · rw [hl]
    simp [Lookup.Fails]
  · refine iff_of_false ?_ fun hf => hf.1 hfails
    rintro ⟨user, hl, -⟩
    rw [hl] at hfails
    exact hfails

theorem getLast?_catalogHeader (time : ℕ) : (catalogHeader time).getLast? = some '\n' :=
  getLast?_memberLines _ _ _ _

/-- **A zone stays** if and only if every zone of its name has an active owner and is looked up without
failure. -/
theorem stays_iff (hanswers : Answers h owner lookup) {forward : List Zone} {reverse : List ReverseZone}
    {secondary : List (SecondaryZone h.py)} {time : ℕ} {c : CatalogUpdate}
    (hrun : updateCatalog h forward reverse secondary lookup time = .ok c) {zone : AnyZone h.py}
    (hz : zone ∈ allZones h forward reverse secondary) {zoneRoot : DnsLabel}
    (hroot : zone.root h = .ok (some zoneRoot)) :
    Stays h c zone zoneRoot ↔ ∀ z ∈ allZones h forward reverse secondary, ∀ root, z.root h = .ok (some root) →
      root.toText = zoneRoot.toText → ¬ (lookup z).Fails ∧ isActive (owner z) = true := by
  obtain ⟨-, hin, hlisted⟩ := foldlM_addZone (getLast?_catalogHeader time) hrun
  have hname : zoneRoot.toText ∉ c.inactiveZones ↔ ∀ z ∈ allZones h forward reverse secondary, ∀ root,
      z.root h = .ok (some root) → root.toText = zoneRoot.toText → FoundActive lookup z := by
    rw [hlisted]
    constructor
    · intro hnot z hz root hroot hsame
      by_contra hfound
      exact hnot (Or.inr ⟨z, hz, root, hroot, hsame, hfound⟩)
    · rintro hall (hmem | ⟨z, hz, root, hroot, hsame, hfound⟩)
      · cases hmem
      · exact hfound (hall z hz root hroot hsame)
  simp only [← foundActive_iff hanswers]
  rw [← hname]
  constructor
  · rintro ⟨-, hnever⟩ hmem
    exact hnever Unit grants () (delete_mem_syncNetnodZones c.activeZones hmem ⟨(), []⟩)
  · intro hnot
    refine ⟨hin zone hz zoneRoot hroot (hname.mp hnot zone hz zoneRoot hroot rfl), fun σ n service hsent => ?_⟩
    have hsync := triple_syncNetnodZones (n := n) c.activeZones c.inactiveZones ⟨service, []⟩
      fun name hmem => absurd hmem List.not_mem_nil
    rcases hr : run (syncNetnodZones n c.activeZones c.inactiveZones) ⟨service, []⟩ with ⟨e | u, s⟩
    · rw [hr] at hsync hsent
      exact hnot (hsync _ hsent)
    · rw [hr] at hsync hsent
      exact hnot (hsync _ hsent)

end

/-! ### A lookup that fails -/

/-- The zone `example.com`. -/
def exampleZone : AnyZone Host.ascii.py := .forward ⟨1, "example.com".toList, false⟩

def exampleRoot : DnsLabel := ⟨[encode "example".toList, encode "com".toList]⟩

/-- Every owner has an active subscription. -/
def activeOwner : AnyZone Host.ascii.py → Option User := fun _ => some ⟨"owner".toList, some true⟩

theorem stays_exampleZone : ∃ c, updateCatalog .ascii [⟨1, "example.com".toList, false⟩] [] []
    (fun zone => .owner (activeOwner zone)) 0 = .ok c ∧ Stays .ascii c exampleZone exampleRoot := by
  obtain ⟨c, hc⟩ : ∃ c, updateCatalog .ascii [⟨1, "example.com".toList, false⟩] [] []
      (fun zone => .owner (activeOwner zone)) 0 = .ok c := ⟨_, rfl⟩
  have hanswers : Answers .ascii activeOwner fun zone => .owner (activeOwner zone) := fun zone => Or.inl rfl
  refine ⟨c, hc, (stays_iff hanswers hc List.mem_cons_self (by decide)).mpr fun z _ _ _ _ => ?_⟩
  exact ⟨id, rfl⟩

/-- Its owner has an active subscription, and the service can not be reached. -/
theorem not_stays_exampleZone : ∃ c, updateCatalog .ascii [⟨1, "example.com".toList, false⟩] [] []
    (fun _ => .requestException) 0 = .ok c ∧
    Answers .ascii activeOwner (fun _ => .requestException) ∧
    exampleZone.root .ascii = .ok (some exampleRoot) ∧ isActive (activeOwner exampleZone) = true ∧
    ¬ InCatalog .ascii c.zoneFile exampleZone exampleRoot ∧
    Request.delete exampleRoot.toText ∈
      (run (syncNetnodZones grants c.activeZones c.inactiveZones) ⟨(), []⟩).2.requests := by
  refine ⟨⟨catalogHeader 0, [], [exampleRoot.toText]⟩, rfl, fun _ => Or.inr trivial,
    by decide, rfl, ?_, delete_mem_syncNetnodZones _ (List.mem_singleton_self _) _⟩
  rintro ⟨before, after, -, hfile⟩
  have hinfix : memberLines (showNat 1) "zone".toList exampleRoot.toText <:+: catalogHeader 0 :=
    ⟨before, after, hfile.symm⟩
  revert hinfix
  simp (disch := exact rfl) only [catalogHeader, memberLines, nameservers, toList_literal]
  decide +kernel

end HexDns.Tasks.Catalog
