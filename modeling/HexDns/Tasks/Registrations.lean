import HexDns.Tasks.Catalog
import Mathlib.Logic.Function.Iterate

/-! # The registrations follow the catalog zone

What `update_catalog` and the task `sync_netnod_zones` that it starts come to, for a service that keeps a set of
registered zones (`Registry`) and that may fail at any request, with or without an effect. The task is run again
until it returns. `registrations_follow` says that the lines of the catalog zone are those of the zones whose
owners were found active, and that after a run that returned the registered zones are the same ones, apart
from the requests of that run that failed; zones of nobody are left alone, and no zone of an active owner is
deregistered on the way. -/

namespace HexDns.Tasks.Registrations

open HexDns.Lib.Texts HexDns.Lib.Programs HexDns.Base.Py HexDns.Base.Label HexDns.Models.Db HexDns.Models.Env
  HexDns.Models.Names HexDns.Tasks.ZoneFile HexDns.Tasks.Rzone HexDns.Tasks.Catalog
open HexDns.Commands.TransferSecondary (SecondaryZone)

/-! ### The service -/

/-- There is no answer, or `raise_for_status` raises for it. -/
def Fails : Response → Prop
  | .status code => 400 ≤ code ∧ code < 600
  | .requestException => True

instance : DecidablePred Fails := fun r =>
  match r with
  | .status code => inferInstanceAs (Decidable (400 ≤ code ∧ code < 600))
  | .requestException => isTrue trivial

/-- A service that keeps a set of registered zones. -/
structure Registry {σ : Type} (n : Netnod σ) where
  registered : σ → Text → Prop
  /-- the requests to register or deregister zones that have failed so far -/
  failed : σ → List Request
  get_registered : ∀ s z x, registered (n.respond (.get z) s).2 x ↔ registered s x
  get_failed : ∀ s z, failed (n.respond (.get z) s).2 = failed s
  get_notFound : ∀ s z, (n.respond (.get z) s).1 = .status 404 → ¬ registered s z
  get_found : ∀ s z, ¬ Fails (n.respond (.get z) s).1 → registered s z
  post_ok : ∀ s z u, ¬ Fails (n.respond (.post z u) s).1 → registered (n.respond (.post z u) s).2 z
  post_keeps : ∀ s z u x, registered s x → registered (n.respond (.post z u) s).2 x
  post_only : ∀ s z u x, registered (n.respond (.post z u) s).2 x → x = z ∨ registered s x
  post_failed : ∀ s z u, failed (n.respond (.post z u) s).2 =
    failed s ++ if Fails (n.respond (.post z u) s).1 then [.post z u] else []
  delete_ok : ∀ s z, ¬ Fails (n.respond (.delete z) s).1 → ¬ registered (n.respond (.delete z) s).2 z
  delete_keeps : ∀ s z x, registered s x → x = z ∨ registered (n.respond (.delete z) s).2 x
  delete_only : ∀ s z x, registered (n.respond (.delete z) s).2 x → registered s x
  delete_failed : ∀ s z, failed (n.respond (.delete z) s).2 =
    failed s ++ if Fails (n.respond (.delete z) s).1 then [.delete z] else []

section
variable {σ : Type} {n : Netnod σ} (reg : Registry n)

/-- The requests that have failed between two states. -/
def Registry.failedSince (s s' : σ) : List Request := (reg.failed s').drop (reg.failed s).length

end

/-! ### Requests -/

section
variable {σ : Type} {n : Netnod σ}

theorem run_send (r : Request) (s : Sent σ) : run (send n r) s =
    (match (n.respond r s.service).1 with
      | .status code => .ok code
      | .requestException => .error .osError, ⟨(n.respond r s.service).2, s.requests ++ [r]⟩) := by
  unfold send
  rw [run_bind_ok (run_get s), run_bind_ok (run_modify _ s)]
  rcases (n.respond r s.service).1 with code | _
  · rfl
  · rfl

/-- A request whose failure is logged. -/
theorem run_logged (r : Request) (s : Sent σ) :
    run (tryCatch (send n r >>= raiseForStatus) fun _ => pure ()) s =
      (.ok (), ⟨(n.respond r s.service).2, s.requests ++ [r]⟩) := by
  rw [run_tryCatch, run_bind, run_send]
  rcases (n.respond r s.service).1 with code | _
  · dsimp only
    unfold raiseForStatus
    split_ifs
    · rfl
    · rfl
  · rfl

/-- `check_zone_registered` says whether the zone is registered, if it returns. -/
theorem run_checkZoneRegistered (reg : Registry n) (z : Text) (s : Sent σ) :
    (run (checkZoneRegistered n z) s).2.service = (n.respond (.get z) s.service).2 ∧
      ∀ b, (run (checkZoneRegistered n z) s).1 = .ok b → (b = true ↔ reg.registered s.service z) := by
  unfold checkZoneRegistered
  rw [run_bind, run_send]
  rcases hanswer : (n.respond (.get z) s.service).1 with code | _
  · dsimp only
    by_cases hcode : code = 404
    · rw [if_pos hcode]
      refine ⟨rfl, fun b hb => ?_⟩
      obtain rfl := Except.ok.inj hb
      exact iff_of_false Bool.false_ne_true (reg.get_notFound _ _ (by rw [hanswer, hcode]))
    · rw [if_neg hcode]
      unfold raiseForStatus
      by_cases hfails : 400 ≤ code ∧ code < 600
      · rw [if_pos hfails]
        exact ⟨rfl, fun b hb => by cases hb⟩
      · rw [if_neg hfails]
        refine ⟨rfl, fun b hb => ?_⟩
        obtain rfl := Except.ok.inj hb
        exact iff_of_true rfl (reg.get_found _ _ (by rw [hanswer]; exact hfails))
  · exact ⟨rfl, fun b hb => by cases hb⟩

end

/-! ### The loops -/

section
variable {σ : Type} {n : Netnod σ} (reg : Registry n)

/-- From one state to the other zones of these names are added, and no others. -/
structure Added (names : List Text) (s s' : σ) : Prop where
  keeps : ∀ x, reg.registered s x → reg.registered s' x
  only : ∀ x, reg.registered s' x → x ∈ names ∨ reg.registered s x
  failed : reg.failed s <+: reg.failed s'

/-- From one state to the other zones of these names are dropped, and no others. -/
structure Dropped (names : List Text) (s s' : σ) : Prop where
  keeps : ∀ x, reg.registered s x → x ∈ names ∨ reg.registered s' x
  only : ∀ x, reg.registered s' x → reg.registered s x
  failed : reg.failed s <+: reg.failed s'

end

section
variable {σ : Type} {n : Netnod σ} {reg : Registry n} {s t s' : σ} {names names' : List Text}

theorem mem_failedSince_right {r : Request} (hst : reg.failed s <+: reg.failed t)
    (h : r ∈ reg.failedSince t s') : r ∈ reg.failedSince s s' := by
  unfold Registry.failedSince at h ⊢
  exact (List.drop_subset_drop_left _ hst.length_le) h

theorem mem_failedSince_left {r : Request} (hst : reg.failed s <+: reg.failed t)
    (hts : reg.failed t <+: reg.failed s') (h : r ∈ reg.failedSince s t) : r ∈ reg.failedSince s s' := by
  obtain ⟨new, hnew⟩ := hts
  unfold Registry.failedSince at h ⊢
  rw [← hnew, List.drop_append_of_le_length hst.length_le]
  exact List.mem_append_left _ h

theorem Added.refl : Added reg names s s := ⟨fun _ h => h, fun _ h => Or.inr h, List.prefix_refl _⟩

theorem Dropped.refl : Dropped reg names s s := ⟨fun _ h => Or.inr h, fun _ h => h, List.prefix_refl _⟩

theorem Added.trans (h : Added reg names s t) (h' : Added reg names' t s') : Added reg (names ++ names') s s' where
  keeps x hx := h'.keeps x (h.keeps x hx)
  only x hx := by
    rcases h'.only x hx with hx | hx
    · exact Or.inl (List.mem_append_right _ hx)
    · exact (h.only x hx).imp_left (List.mem_append_left _)
  failed := h.failed.trans h'.failed

theorem Dropped.trans (h : Dropped reg names s t) (h' : Dropped reg names' t s') :
    Dropped reg (names ++ names') s s' where
  keeps x hx := by
    rcases h.keeps x hx with hx | hx
    · exact Or.inl (List.mem_append_left _ hx)
    · exact (h'.keeps x hx).imp_left (List.mem_append_right _)
  only x hx := h.only x (h'.only x hx)
  failed := h.failed.trans h'.failed

variable (reg) in
/-- Asking for a zone changes nothing. -/
theorem added_get (z : Text) : Added reg [] s (n.respond (.get z) s).2 where
  keeps x hx := (reg.get_registered s z x).mpr hx
  only x hx := Or.inr ((reg.get_registered s z x).mp hx)
  failed := by rw [reg.get_failed]

variable (reg) in
theorem dropped_get (z : Text) : Dropped reg [] s (n.respond (.get z) s).2 where
  keeps x hx := Or.inr ((reg.get_registered s z x).mpr hx)
  only x hx := (reg.get_registered s z x).mp hx
  failed := by rw [reg.get_failed]

variable (reg) in
/-- A zone is registered, or the request has failed. -/
theorem added_post (z u : Text) : Added reg [z] s (n.respond (.post z u) s).2 ∧
    (reg.registered (n.respond (.post z u) s).2 z ∨
      .post z u ∈ reg.failedSince s (n.respond (.post z u) s).2) := by
  refine ⟨⟨reg.post_keeps s z u, fun x hx => ?_, ?_⟩, ?_⟩
  · exact (reg.post_only s z u x hx).imp_left fun hxz => List.mem_singleton.mpr hxz
  · rw [reg.post_failed]
    exact List.prefix_append _ _
  · by_cases hfails : Fails (n.respond (.post z u) s).1
    · refine Or.inr ?_
      rw [Registry.failedSince, reg.post_failed, if_pos hfails, List.drop_left]
      exact List.mem_singleton_self _
    · exact Or.inl (reg.post_ok s z u hfails)

variable (reg) in
theorem dropped_delete (z : Text) : Dropped reg [z] s (n.respond (.delete z) s).2 ∧
    (reg.registered (n.respond (.delete z) s).2 z →
      .delete z ∈ reg.failedSince s (n.respond (.delete z) s).2) := by
  refine ⟨⟨fun x hx => ?_, reg.delete_only s z, ?_⟩, fun hthere => ?_⟩
  · exact (reg.delete_keeps s z x hx).imp_left fun hxz => List.mem_singleton.mpr hxz
  · rw [reg.delete_failed]
    exact List.prefix_append _ _
  · have hfails : Fails (n.respond (.delete z) s).1 := by
      by_contra hok
      exact reg.delete_ok s z hok hthere
    rw [Registry.failedSince, reg.delete_failed, if_pos hfails, List.drop_left]
    exact List.mem_singleton_self _

variable (reg) in
/-- **A zone of the first loop.** -/
theorem added_registerIfMissing (zone : Text × Text) (s : Sent σ) :
    Added reg [zone.1] s.service (run (registerIfMissing n zone) s).2.service ∧
      ((run (registerIfMissing n zone) s).1 = .ok () →
        reg.registered (run (registerIfMissing n zone) s).2.service zone.1 ∨
          .post zone.1 zone.2 ∈ reg.failedSince s.service (run (registerIfMissing n zone) s).2.service) := by
  obtain ⟨hservice, hanswer⟩ := run_checkZoneRegistered reg zone.1 s
  have hget := added_get reg (s := s.service) zone.1
  rw [← hservice] at hget
  unfold registerIfMissing
  rw [run_bind]
  rcases hcheck : run (checkZoneRegistered n zone.1) s with ⟨e | b, t⟩
  · rw [hcheck] at hget
    exact ⟨⟨hget.keeps, fun x hx => (hget.only x hx).imp_left fun h => absurd h List.not_mem_nil, hget.failed⟩,
      fun h => by cases h⟩
  · rw [hcheck] at hget hanswer
    dsimp only at hget ⊢
    by_cases hb : b = true
    · rw [if_pos hb]
      refine ⟨⟨hget.keeps, fun x hx => (hget.only x hx).imp_left fun h => absurd h List.not_mem_nil, hget.failed⟩,
        fun _ => Or.inl (hget.keeps _ ((hanswer b rfl).mp hb))⟩
    · rw [if_neg hb]
      show Added reg [zone.1] s.service (run (tryCatch (send n (.post zone.1 zone.2) >>= raiseForStatus)
        fun _ => pure ()) t).2.service ∧ _
      have hpost := added_post reg (s := t.service) zone.1 zone.2
      have hrun : run (tryCatch (registerZone n zone.1 zone.2) fun _ => pure ()) t =
          (.ok (), ⟨(n.respond (.post zone.1 zone.2) t.service).2, t.requests ++ [.post zone.1 zone.2]⟩) :=
        run_logged _ t
      rw [hrun, run_logged]
      exact ⟨hget.trans hpost.1, fun _ => hpost.2.imp_right (mem_failedSince_right hget.failed)⟩

variable (reg) in
/-- **A zone of the second loop.** -/
theorem dropped_deregisterIfThere (z : Text) (s : Sent σ) :
    Dropped reg [z] s.service (run (deregisterIfThere n z) s).2.service ∧
      ((run (deregisterIfThere n z) s).1 = .ok () →
        reg.registered (run (deregisterIfThere n z) s).2.service z →
          .delete z ∈ reg.failedSince s.service (run (deregisterIfThere n z) s).2.service) := by
  obtain ⟨hservice, hanswer⟩ := run_checkZoneRegistered reg z s
  have hget := dropped_get reg (s := s.service) z
  rw [← hservice] at hget
  unfold deregisterIfThere
  rw [run_bind]
  rcases hcheck : run (checkZoneRegistered n z) s with ⟨e | b, t⟩
  · rw [hcheck] at hget
    exact ⟨⟨fun x hx => (hget.keeps x hx).imp_left fun h => absurd h List.not_mem_nil, hget.only, hget.failed⟩,
      fun h => by cases h⟩
  · rw [hcheck] at hget hanswer
    dsimp only at hget ⊢
    by_cases hb : b = true
    · rw [if_pos hb]
      have hdelete := dropped_delete reg (s := t.service) z
      have hrun : run (tryCatch (deregisterZone n z) fun _ => pure ()) t =
          (.ok (), ⟨(n.respond (.delete z) t.service).2, t.requests ++ [.delete z]⟩) := run_logged _ t
      rw [hrun]
      exact ⟨hget.trans hdelete.1, fun _ hthere => mem_failedSince_right hget.failed (hdelete.2 hthere)⟩
    · rw [if_neg hb]
      exact ⟨⟨fun x hx => (hget.keeps x hx).imp_left fun h => absurd h List.not_mem_nil, hget.only, hget.failed⟩,
        fun _ hthere => absurd ((hanswer b rfl).mpr (hget.only _ hthere)) hb⟩

variable (reg) in
theorem added_runAll (zones : List (Text × Text)) (s : Sent σ) :
    Added reg (zones.map Prod.fst) s.service (run (runAll (registerIfMissing n) zones) s).2.service ∧
      ((run (runAll (registerIfMissing n) zones) s).1 = .ok () → ∀ zone ∈ zones,
        reg.registered (run (runAll (registerIfMissing n) zones) s).2.service zone.1 ∨
          .post zone.1 zone.2 ∈
            reg.failedSince s.service (run (runAll (registerIfMissing n) zones) s).2.service) := by
  induction zones generalizing s with
  | nil => exact ⟨Added.refl, fun _ zone hz => absurd hz List.not_mem_nil⟩
  | cons zone zones ih =>
    have hfirst := added_registerIfMissing reg zone s
    simp only [runAll]
    rw [run_bind]
    rcases hrun : run (registerIfMissing n zone) s with ⟨e | u, t⟩
    · rw [hrun] at hfirst
      obtain ⟨⟨hkeeps, honly, hfailed⟩, -⟩ := hfirst
      refine ⟨⟨hkeeps, fun x hx => (honly x hx).imp_left fun hx => ?_, hfailed⟩, fun h => by cases h⟩
      rw [List.mem_singleton.mp hx]
      exact List.mem_cons_self
    · rw [hrun] at hfirst
      obtain ⟨hadded, hdone⟩ := hfirst
      obtain ⟨hrest, hdones⟩ := ih t
      refine ⟨hadded.trans hrest, fun hok zone' hz => ?_⟩
      rcases List.mem_cons.mp hz with rfl | hz
      · exact (hdone rfl).imp (hrest.keeps _) (mem_failedSince_left hadded.failed hrest.failed)
      · exact (hdones hok zone' hz).imp_right (mem_failedSince_right hadded.failed)

variable (reg) in
theorem dropped_runAll (names : List Text) (s : Sent σ) :
    Dropped reg names s.service (run (runAll (deregisterIfThere n) names) s).2.service ∧
      ((run (runAll (deregisterIfThere n) names) s).1 = .ok () → ∀ z ∈ names,
        reg.registered (run (runAll (deregisterIfThere n) names) s).2.service z →
          .delete z ∈ reg.failedSince s.service (run (runAll (deregisterIfThere n) names) s).2.service) := by
  induction names generalizing s with
  | nil => exact ⟨Dropped.refl, fun _ z hz => absurd hz List.not_mem_nil⟩
  | cons z names ih =>
    have hfirst := dropped_deregisterIfThere reg z s
    simp only [runAll]
    rw [run_bind]
    rcases hrun : run (deregisterIfThere n z) s with ⟨e | u, t⟩
    · rw [hrun] at hfirst
      obtain ⟨⟨hkeeps, honly, hfailed⟩, -⟩ := hfirst
      refine ⟨⟨fun x hx => (hkeeps x hx).imp_left fun hx => ?_, honly, hfailed⟩, fun h => by cases h⟩
      rw [List.mem_singleton.mp hx]
      exact List.mem_cons_self
    · rw [hrun] at hfirst
      obtain ⟨hdropped, hdone⟩ := hfirst
      obtain ⟨hrest, hdones⟩ := ih t
      refine ⟨hdropped.trans hrest, fun hok z' hz hthere => ?_⟩
      rcases List.mem_cons.mp hz with rfl | hz
      · exact mem_failedSince_left hdropped.failed hrest.failed (hdone rfl (hrest.only _ hthere))
      · exact mem_failedSince_right hdropped.failed (hdones hok z' hz hthere)

/-! ### The task -/

variable (reg) in
/-- **What a run of `sync_netnod_zones` may do**, also if it raises. -/
structure Synced (active : List (Text × Text)) (inactive : List Text) (s s' : σ) : Prop where
  keeps : ∀ x, reg.registered s x → x ∈ inactive ∨ reg.registered s' x
  only : ∀ x, reg.registered s' x → x ∈ active.map Prod.fst ∨ reg.registered s x

theorem Synced.trans {active : List (Text × Text)} {inactive : List Text} (h : Synced reg active inactive s t)
    (h' : Synced reg active inactive t s') : Synced reg active inactive s s' where
  keeps x hx := (h.keeps x hx).elim Or.inl (h'.keeps x)
  only x hx := (h'.only x hx).elim Or.inl (h.only x)

variable (reg) in
theorem synced_syncNetnodZones (active : List (Text × Text)) (inactive : List Text) (s : Sent σ) :
    Synced reg active inactive s.service (run (syncNetnodZones n active inactive) s).2.service ∧
    ((run (syncNetnodZones n active inactive) s).1 = .ok () →
      (∀ zone ∈ active, zone.1 ∉ inactive →
        reg.registered (run (syncNetnodZones n active inactive) s).2.service zone.1 ∨
          .post zone.1 zone.2 ∈
            reg.failedSince s.service (run (syncNetnodZones n active inactive) s).2.service) ∧
      ∀ z ∈ inactive, reg.registered (run (syncNetnodZones n active inactive) s).2.service z →
        .delete z ∈ reg.failedSince s.service (run (syncNetnodZones n active inactive) s).2.service) := by
  obtain ⟨hadded, hposted⟩ := added_runAll reg active s
  unfold syncNetnodZones
  rw [run_bind]
  rcases hrun : run (runAll (registerIfMissing n) active) s with ⟨e | u, t⟩
  · rw [hrun] at hadded
    exact ⟨⟨fun x hx => Or.inr (hadded.keeps x hx), hadded.only⟩, fun h => by cases h⟩
  · rw [hrun] at hadded hposted
    obtain ⟨hdropped, hdeleted⟩ := dropped_runAll reg inactive t
    refine ⟨⟨fun x hx => hdropped.keeps x (hadded.keeps x hx), fun x hx => hadded.only x (hdropped.only x hx)⟩,
      fun hok => ⟨fun zone hz hnot => ?_, fun z hz hthere => ?_⟩⟩
    · rcases hposted rfl zone hz with hthere | hfailed
      · exact Or.inl ((hdropped.keeps _ hthere).resolve_left hnot)
      · exact Or.inr (mem_failedSince_left hadded.failed hdropped.failed hfailed)
    · exact mem_failedSince_right hadded.failed (hdeleted hok z hz hthere)

/-- The task is run so many times, each time from where it has come to. -/
def attempts (n : Netnod σ) (active : List (Text × Text)) (inactive : List Text) (k : ℕ) (s : Sent σ) : Sent σ :=
  (fun s => (run (syncNetnodZones n active inactive) s).2)^[k] s

variable (reg) in
theorem synced_attempts (active : List (Text × Text)) (inactive : List Text) (k : ℕ) (s : Sent σ) :
    Synced reg active inactive s.service (attempts n active inactive k s).service := by
  induction k with
  | zero => exact ⟨fun _ hx => Or.inr hx, fun _ hx => Or.inr hx⟩
  | succ k ih =>
    unfold attempts at ih ⊢
    rw [Function.iterate_succ_apply']
    exact ih.trans (synced_syncNetnodZones reg active inactive _).1

end

/-! ### What `update_catalog` has found -/

section
variable (h : Host) (lookup : AnyZone h.py → Lookup)

/-- The lookup for a zone has come to an active owner. -/
def found (zone : AnyZone h.py) : Bool :=
  match lookup zone with
  | .owner user => isActive user
  | _ => false

/-- The name of a zone that the pattern matches. -/
def nameOf (zone : AnyZone h.py) : Option Text :=
  match zone.root h with
  | .ok (some root) => some root.toText
  | _ => none

/-- The lines of a zone whose owner was found active. -/
def linesOf (zone : AnyZone h.py) : Text :=
  if found h lookup zone then
    ((nameOf h zone).map (memberLines (showNat (zone.id h)) (zone.group h))).getD []
  else []

/-- The names of the zones whose owners were found active, or of the others. -/
def namesFound (b : Bool) (zones : List (AnyZone h.py)) : List Text :=
  (zones.filter (found h lookup · = b)).filterMap (nameOf h)

end

section
variable {h : Host} {lookup : AnyZone h.py → Lookup} {zones : List (AnyZone h.py)} {c c' : CatalogUpdate}

theorem mem_namesFound {b : Bool} {name : Text} : name ∈ namesFound h lookup b zones ↔
    ∃ zone ∈ zones, found h lookup zone = b ∧ nameOf h zone = some name := by
  simp [namesFound, and_assoc]

theorem isActive_of_getUser {zone : AnyZone h.py} {owner : Option User} (howner : getUser (lookup zone) = .ok owner) :
    isActive owner = found h lookup zone := by
  unfold found
  rcases hl : lookup zone with user | _ | _ | e
  · rw [hl] at howner
    obtain rfl := Except.ok.inj howner
    rfl
  · rw [hl] at howner
    obtain rfl := Except.ok.inj howner
    rfl
  · rw [hl] at howner
    obtain rfl := Except.ok.inj howner
    rfl
  · rw [hl] at howner
    cases howner

/-- **What a loop of `update_catalog` adds for a zone.** -/
theorem addZone_adds {zone : AnyZone h.py} (hadd : addZone h lookup c zone = .ok c') :
    c'.zoneFile = c.zoneFile ++ linesOf h lookup zone ∧
      c'.activeZones.map Prod.fst = c.activeZones.map Prod.fst ++ namesFound h lookup true [zone] ∧
      c'.inactiveZones = c.inactiveZones ++ namesFound h lookup false [zone] := by
  unfold addZone at hadd
  obtain ⟨root, hroot, hadd⟩ := bind_eq_ok.mp hadd
  rcases root with _ | zoneRoot
  · have hname : nameOf h zone = none := by rw [nameOf, hroot]
    obtain rfl := Except.ok.inj hadd
    cases hfound : found h lookup zone <;> simp [linesOf, namesFound, hname, hfound]
  · obtain ⟨owner, howner, hadd⟩ := bind_eq_ok.mp hadd
    have hname : nameOf h zone = some zoneRoot.toText := by rw [nameOf, hroot]
    rw [isActive_of_getUser howner] at hadd
    cases hfound : found h lookup zone with
    | true =>
      rw [if_pos hfound] at hadd
      obtain rfl := Except.ok.inj hadd
      simp [linesOf, namesFound, hname, hfound]
    | false =>
      rw [hfound, if_neg Bool.false_ne_true] at hadd
      obtain rfl := Except.ok.inj hadd
      simp [linesOf, namesFound, hname, hfound]

theorem namesFound_cons {b : Bool} (zone : AnyZone h.py) :
    namesFound h lookup b (zone :: zones) = namesFound h lookup b [zone] ++ namesFound h lookup b zones := by
  unfold namesFound
  rw [← List.filterMap_append, ← List.filter_append]
  rfl

theorem foldlM_adds (hrun : zones.foldlM (addZone h lookup) c = .ok c') :
    c'.zoneFile = c.zoneFile ++ zones.flatMap (linesOf h lookup) ∧
      c'.activeZones.map Prod.fst = c.activeZones.map Prod.fst ++ namesFound h lookup true zones ∧
      c'.inactiveZones = c.inactiveZones ++ namesFound h lookup false zones := by
  induction zones generalizing c with
  | nil =>
    obtain rfl := Except.ok.inj hrun
    simp [namesFound]
  | cons zone zones ih =>
    rw [List.foldlM_cons] at hrun
    obtain ⟨c1, hadd, hrun⟩ := bind_eq_ok.mp hrun
    obtain ⟨hfile1, hactive1, hinactive1⟩ := addZone_adds hadd
    obtain ⟨hfile, hactive, hinactive⟩ := ih hrun
    rw [hfile, hactive, hinactive, hfile1, hactive1, hinactive1, List.flatMap_cons, List.append_assoc,
      List.append_assoc, List.append_assoc, ← namesFound_cons, ← namesFound_cons]
    exact ⟨rfl, rfl, rfl⟩

end

/-! ### The statement -/

section
variable {σ : Type} {n : Netnod σ} (reg : Registry n)

/-- **The registrations and the catalog zone are those of the zones with active owners**, from the state of the
service before to the one after, where the last run of the task has begun in the state between. -/
structure Follows (h : Host) (lookup : AnyZone h.py → Lookup) (zones : List (AnyZone h.py)) (time : ℕ)
    (c : CatalogUpdate) (before between after : σ) : Prop where
  catalog : c.zoneFile = catalogHeader time ++ zones.flatMap (linesOf h lookup)
  /-- A zone of an active owner is registered, unless a request for it has failed in the last run. -/
  active : ∀ zone ∈ zones, ∀ name, nameOf h zone = some name →
    (∀ z ∈ zones, nameOf h z = some name → found h lookup z = true) →
      reg.registered after name ∨ ∃ u, .post name u ∈ reg.failedSince between after
  /-- A zone of somebody else is not, with the same exception. -/
  inactive : ∀ zone ∈ zones, ∀ name, nameOf h zone = some name → found h lookup zone = false →
    reg.registered after name → .delete name ∈ reg.failedSince between after
  /-- What is registered and has no zone stays so. -/
  others : ∀ name, (∀ zone ∈ zones, nameOf h zone ≠ some name) →
    (reg.registered after name ↔ reg.registered before name)

end

/-- **The registrations follow the catalog zone**: `sync_netnod_zones` is run any number of times, each of which
may raise, until a run returns; and a zone all of whose owners are active is never deregistered on the way. -/
theorem registrations_follow {σ : Type} {n : Netnod σ} (reg : Registry n) (h : Host) (forward : List Zone)
    (reverse : List ReverseZone) (secondary : List (SecondaryZone h.py)) (lookup : AnyZone h.py → Lookup) (time : ℕ)
    (c : CatalogUpdate) (hc : updateCatalog h forward reverse secondary lookup time = .ok c) (k : ℕ) (s : Sent σ) :
    (∀ name, reg.registered s.service name → (∀ zone ∈ allZones h forward reverse secondary,
        nameOf h zone = some name → found h lookup zone = true) →
      reg.registered (attempts n c.activeZones c.inactiveZones k s).service name) ∧
    ∀ s', run (syncNetnodZones n c.activeZones c.inactiveZones) (attempts n c.activeZones c.inactiveZones k s) =
        (.ok (), s') →
      Follows reg h lookup (allZones h forward reverse secondary) time c s.service
        (attempts n c.activeZones c.inactiveZones k s).service s'.service := by
  obtain ⟨hfile, hactive, hinactive⟩ := foldlM_adds hc
  have hactive : c.activeZones.map Prod.fst = namesFound h lookup true (allZones h forward reverse secondary) := hactive
  have hinactive : c.inactiveZones = namesFound h lookup false (allZones h forward reverse secondary) := hinactive
  have hbefore := synced_attempts reg c.activeZones c.inactiveZones k s
  have hnot : ∀ name, (∀ zone ∈ allZones h forward reverse secondary, nameOf h zone = some name →
      found h lookup zone = true) → name ∉ c.inactiveZones := by
    intro name hall hmem
    rw [hinactive] at hmem
    obtain ⟨zone, hz, hfound, hname⟩ := mem_namesFound.mp hmem
    rw [hall zone hz hname] at hfound
    cases hfound
  refine ⟨fun name hthere hall => (hbefore.keeps name hthere).resolve_left (hnot name hall), fun s' hrun => ?_⟩
  obtain ⟨hlast, hdone⟩ := synced_syncNetnodZones reg c.activeZones c.inactiveZones
    (attempts n c.activeZones c.inactiveZones k s)
  rw [hrun] at hlast hdone
  obtain ⟨hposted, hdeleted⟩ := hdone rfl
  refine ⟨hfile, fun zone hz name hname hall => ?_, fun zone hz name hname hfound hthere => ?_,
    fun name hnone => ?_⟩
  · have hmem : name ∈ c.activeZones.map Prod.fst := by
      rw [hactive]
      exact mem_namesFound.mpr ⟨zone, hz, hall zone hz hname, hname⟩
    obtain ⟨entry, hentry, rfl⟩ := List.mem_map.mp hmem
    exact (hposted entry hentry (hnot _ hall)).imp_right fun hfailed => ⟨entry.2, hfailed⟩
  · refine hdeleted name ?_ hthere
    rw [hinactive]
    exact mem_namesFound.mpr ⟨zone, hz, hfound, hname⟩
  · have hall := hbefore.trans hlast
    have habsent : ∀ b, name ∉ namesFound h lookup b (allZones h forward reverse secondary) := by
      intro b hmem
      obtain ⟨zone, hz, -, hname⟩ := mem_namesFound.mp hmem
      exact hnone zone hz hname
    constructor
    · intro hthere
      exact (hall.only name hthere).resolve_left (by rw [hactive]; exact habsent true)
    · intro hthere
      exact (hall.keeps name hthere).resolve_left (by rw [hinactive]; exact habsent false)

/-! ### A zone that is registered -/

/-- A service that grants every request. -/
def listService : Netnod (List Text) where
  respond
    | .get z, s => (.status (if z ∈ s then 200 else 404), s)
    | .post z _, s => (.status 201, z :: s)
    | .delete z, s => (.status 204, s.filter (· ≠ z))

def listRegistry : Registry listService where
  registered s x := x ∈ s
  failed _ := []
  get_registered _ _ _ := Iff.rfl
  get_failed _ _ := rfl
  get_notFound s z h := by
    intro hz
    simp [listService, hz] at h
  get_found s z h := by
    by_contra hz
    simp [listService, hz, Fails] at h
  post_ok s z u _ := List.mem_cons_self
  post_keeps s z u x hx := List.mem_cons_of_mem z hx
  post_only s z u x hx := List.mem_cons.mp hx
  post_failed s z u := by
    rw [if_neg (by simp [listService, Fails])]
    rfl
  delete_ok s z _ := by simp [listService]
  delete_keeps s z x hx := by
    by_cases hxz : x = z
    · exact Or.inl hxz
    · exact Or.inr (List.mem_filter.mpr ⟨hx, by simpa using hxz⟩)
  delete_only s z x hx := (List.mem_filter.mp hx).1
  delete_failed s z := by
    rw [if_neg (by simp [listService, Fails])]
    rfl

theorem registrations_follow_exampleZone : ∃ c s', updateCatalog .ascii [⟨1, "example.com".toList, false⟩] [] []
    (fun zone => .owner (activeOwner zone)) 0 = .ok c ∧
    run (syncNetnodZones listService c.activeZones c.inactiveZones) ⟨[], []⟩ = (.ok (), s') ∧
    exampleRoot.toText ∈ s'.service := by
  obtain ⟨c, hc⟩ : ∃ c, updateCatalog .ascii [⟨1, "example.com".toList, false⟩] [] []
      (fun zone => .owner (activeOwner zone)) 0 = .ok c := ⟨_, rfl⟩
  obtain ⟨s', hs'⟩ : ∃ s', run (syncNetnodZones listService c.activeZones c.inactiveZones) ⟨[], []⟩ =
      (.ok (), s') := by
    obtain rfl := Except.ok.inj hc
    exact ⟨_, rfl⟩
  obtain ⟨-, hfollows⟩ := registrations_follow listRegistry .ascii [⟨1, "example.com".toList, false⟩] [] []
    (fun zone => .owner (activeOwner zone)) 0 c hc 0 ⟨[], []⟩
  refine ⟨c, s', hc, hs', ?_⟩
  rcases (hfollows s' hs').active exampleZone List.mem_cons_self exampleRoot.toText (by decide) fun _ _ _ => rfl with
    hthere | ⟨u, hfailed⟩
  · exact hthere
  · cases hfailed

end HexDns.Tasks.Registrations
