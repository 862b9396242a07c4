import HexDns.Base.Message
import Mathlib.Logic.Function.Iterate

/-! # The walk to the name servers of a zone

`query_authoritative_ns` of the command `validate-ns`: from the root on it asks a name server of the last
answer for those of a longer and longer end of the domain name. Nothing but the answers ends the loop, and
once it asks for the whole name it goes on doing so. `walk_stops_iff` says which answers end it in time. -/

namespace HexDns.Commands.DelegationWalk

open HexDns.Lib.Texts HexDns.Base.Py HexDns.Base.Label HexDns.Base.Message

/-! ### The lookups -/

/-- `lookup_ns`, from the response if there is one after the retries: the NS records of its authority
section, or of its answers if that is empty; `None` if there are none -/
def lookupNs (response : Except PyErr DnsRecord) : Except PyErr (Option (List Rr)) := do
  let res ← response
  let nameServers := (if 0 < res.auth.length then res.auth else res.rr).filter fun r =>
    r.rtype = .ns ∧ r.rclass = .in
  return if nameServers = [] then none else some nameServers

/-- `random.choice`, which picks one of them. -/
def choice (ns : List Rr) (pick : ℕ) : Option Rr := ns[pick % ns.length]?

/-- Where the walk is. -/
inductive Phase
  /-- before the lookup of the root -/
  | root
  /-- at the start of the loop -/
  | loop (depth : ℕ) (useNs : Rr)
  | ended (r : Except PyErr (Option (List Rr)))

/-- The walk, with the names that were looked up so far and the servers that were asked, `none` for the
resolver. -/
structure Walk where
  asked : List (DnsLabel × Option Text)
  phase : Phase

section
variable (answers : ℕ → Except PyErr DnsRecord) (picks : ℕ → ℕ) (dnsName : DnsLabel)

/-- The walk up to the next lookup and what is done with its answer. -/
def step (w : Walk) : Walk :=
  match w.phase with
  | .root =>
    ⟨w.asked ++ [(.root, none)],
      match lookupNs (answers w.asked.length) with
      | .error e => .ended (.error e)
      | .ok none => .ended (.error .typeError)
      | .ok (some ns) =>
        match choice ns (picks w.asked.length) with
        | none => .ended (.error .indexError)
        | some useNs => .loop 1 useNs⟩
  | .loop depth useNs =>
    match useNs.rdata with
    | .ns label =>
      ⟨w.asked ++ [(⟨lastN depth dnsName.label⟩, some label.toText)],
        match lookupNs (answers w.asked.length) with
        | .error e => .ended (.error e)
        | .ok none => .ended (.ok none)
        | .ok (some ns) =>
          match choice ns (picks w.asked.length) with
          | none => .ended (.error .indexError)
          | some useNs => if useNs.rname.Eqv dnsName then .ended (.ok (some ns)) else .loop (depth + 1) useNs⟩
    | _ => { w with phase := .ended (.error .attributeError) }
  | .ended _ => w

/-- The walk after so many steps. -/
def after (n : ℕ) : Walk := (step answers picks dnsName)^[n] ⟨[], .root⟩

/-- The walk ends after at most as many lookups as the domain name has labels plus one. -/
def Stops : Prop :=
  ∃ n r, (after answers picks dnsName n).phase = .ended r ∧
    (after answers picks dnsName n).asked.length ≤ dnsName.label.length + 1

/-- The record is one with the name of a server. -/
def HasServer (r : Rr) : Prop := ∃ label, r.rdata = .ns label

/-- The answer of this number, with what is picked of it, is the last one: there are no name servers in it,
or the one that was picked has no name, or is that of the domain. -/
def Last (i : ℕ) : Prop :=
  ∀ ns useNs, lookupNs (answers i) = .ok (some ns) → choice ns (picks i) = some useNs →
    ¬ HasServer useNs ∨ (0 < i ∧ useNs.rname.Eqv dnsName)

variable {answers} {picks} {dnsName} {n : ℕ}

/-! ### Runs -/

theorem after_succ (n : ℕ) :
    after answers picks dnsName (n + 1) = step answers picks dnsName (after answers picks dnsName n) :=
  Function.iterate_succ_apply' _ n _

/-- An answer that is not the last one. -/
theorem exists_of_not_last {i : ℕ} (h : ¬ Last answers picks dnsName i) :
    ∃ ns useNs label, lookupNs (answers i) = .ok (some ns) ∧ choice ns (picks i) = some useNs ∧
      useNs.rdata = .ns label ∧ (0 < i → ¬ useNs.rname.Eqv dnsName) := by
  unfold Last at h
  push Not at h
  obtain ⟨ns, useNs, hns, hchoice, ⟨label, hlabel⟩, hother⟩ := h
  exact ⟨ns, useNs, label, hns, hchoice, hlabel, hother⟩

/-- **The run**: while no answer is the last one, every step is a lookup. -/
theorem after_of_not_last (h : ∀ i < n, ¬ Last answers picks dnsName i) :
    (after answers picks dnsName n).asked.length = n ∧
      ((n = 0 ∧ (after answers picks dnsName n).phase = .root) ∨
        0 < n ∧ ∃ useNs label, (after answers picks dnsName n).phase = .loop n useNs ∧
          useNs.rdata = .ns label) := by
  induction n with
  | zero => exact ⟨rfl, Or.inl ⟨rfl, rfl⟩⟩
  | succ n ih =>
    obtain ⟨hasked, hphase⟩ := ih fun i hi => h i (by omega)
    obtain ⟨ns, useNs, label, hns, hchoice, hlabel, hother⟩ := exists_of_not_last (h n (by omega))
    rw [after_succ]
    rcases hphase with ⟨rfl, hroot⟩ | ⟨hpos, useNs', label', hloop, hlabel'⟩
    · have hstep : step answers picks dnsName (after answers picks dnsName 0) =
          ⟨(after answers picks dnsName 0).asked ++ [(.root, none)], .loop 1 useNs⟩ := by
        unfold step
        rw [hroot, hasked]
        dsimp only
        rw [hns]
        dsimp only
        rw [hchoice]
      rw [hstep]
      exact ⟨by rw [List.length_append, hasked]; rfl, Or.inr ⟨by omega, useNs, label, rfl, hlabel⟩⟩
    · have hstep : step answers picks dnsName (after answers picks dnsName n) =
          ⟨(after answers picks dnsName n).asked ++ [(⟨lastN n dnsName.label⟩, some label'.toText)],
            .loop (n + 1) useNs⟩ := by
        unfold step
        rw [hloop]
        dsimp only
        rw [hlabel', hasked]
        dsimp only
        rw [hns]
        dsimp only
        rw [hchoice]
        dsimp only
        rw [if_neg (hother hpos)]
      rw [hstep]
      exact ⟨by rw [List.length_append, hasked]; rfl, Or.inr ⟨by omega, useNs, label, rfl, hlabel⟩⟩

theorem step_no_server {w : Walk} {depth : ℕ} {useNs : Rr} (hphase : w.phase = .loop depth useNs)
    (hserver : ¬ HasServer useNs) :
    step answers picks dnsName w = { w with phase := .ended (.error .attributeError) } := by
  unfold step
  rw [hphase]
  dsimp only
  split
  case h_1 label hlabel => exact absurd ⟨label, hlabel⟩ hserver
  case h_2 => rfl

/-- After the last answer the walk ends without another lookup. -/
theorem ended_of_last (h : ∀ i < n, ¬ Last answers picks dnsName i) (hlast : Last answers picks dnsName n) :
    ∃ k r, (after answers picks dnsName k).phase = .ended r ∧ (after answers picks dnsName k).asked.length = n + 1 := by
  obtain ⟨hasked, hphase⟩ := after_of_not_last h
  -- a walk that has ended, or one that has nobody to ask next
  have hends : ∀ w, step answers picks dnsName (after answers picks dnsName n) = w → w.asked.length = n + 1 →
      ((∃ r, w.phase = .ended r) ∨ ∃ depth useNs, w.phase = .loop depth useNs ∧ ¬ HasServer useNs) →
      ∃ k r, (after answers picks dnsName k).phase = .ended r ∧
        (after answers picks dnsName k).asked.length = n + 1 := by
    rintro w hw hcount (⟨r, hr⟩ | ⟨depth, useNs, hloop, hserver⟩)
    · exact ⟨n + 1, r, by rw [after_succ, hw, hr], by rw [after_succ, hw, hcount]⟩
    · refine ⟨n + 2, .error .attributeError, ?_, ?_⟩
      · rw [after_succ, after_succ, hw, step_no_server hloop hserver]
      · rw [after_succ, after_succ, hw, step_no_server hloop hserver]
        exact hcount
  refine hends _ rfl ?_ ?_ <;> unfold step
  · rcases hphase with ⟨-, hroot⟩ | ⟨-, useNs', label', hloop, hlabel'⟩
    · rw [hroot]
      simp [hasked]
    · rw [hloop]
      dsimp only
      rw [hlabel']
      simp [hasked]
  · rcases hphase with ⟨rfl, hroot⟩ | ⟨hpos, useNs', label', hloop, hlabel'⟩
    · rw [hroot, hasked]
      dsimp only
      rcases hns : lookupNs (answers 0) with e | _ | ns
      · exact Or.inl ⟨_, rfl⟩
      · exact Or.inl ⟨_, rfl⟩
      · dsimp only
        rcases hchoice : choice ns (picks 0) with _ | useNs
        · exact Or.inl ⟨_, rfl⟩
        · refine Or.inr ⟨1, useNs, rfl, ?_⟩
          exact (hlast ns useNs hns hchoice).resolve_right fun h => absurd h.1 (lt_irrefl 0)
    · rw [hloop]
      dsimp only
      rw [hlabel', hasked]
      dsimp only
      rcases hns : lookupNs (answers n) with e | _ | ns
      · exact Or.inl ⟨_, rfl⟩
      · exact Or.inl ⟨_, rfl⟩
      · dsimp only
        rcases hchoice : choice ns (picks n) with _ | useNs
        · exact Or.inl ⟨_, rfl⟩
        · dsimp only
          split_ifs with heqv
          · exact Or.inl ⟨_, rfl⟩
          · exact Or.inr ⟨n + 1, useNs, rfl, (hlast ns useNs hns hchoice).resolve_right fun h => heqv h.2⟩

theorem asked_mono (k : ℕ) :
    (after answers picks dnsName n).asked.length ≤ (after answers picks dnsName (n + k)).asked.length := by
  induction k with
  | zero => exact Nat.le_refl _
  | succ k ih =>
    refine ih.trans ?_
    rw [← Nat.add_assoc, after_succ]
    unfold step
    split
    · simp
    · split
      · simp
      · exact Nat.le_refl _
    · exact Nat.le_refl _

/-- Without a last answer among the first ones the walk is too long. -/
theorem not_stops (hno : ∀ i ≤ dnsName.label.length, ¬ Last answers picks dnsName i) :
    ¬ Stops answers picks dnsName := by
  rintro ⟨k, r, hended, hcount⟩
  by_cases hk : k ≤ dnsName.label.length + 1
  · obtain ⟨-, ⟨-, hroot⟩ | ⟨-, useNs, label, hloop, -⟩⟩ := after_of_not_last (n := k) fun i hi => hno i (by omega)
    · rw [hroot] at hended
      cases hended
    · rw [hloop] at hended
      cases hended
  · obtain ⟨hasked, ⟨hzero, -⟩ | ⟨-, useNs, label, hloop, hlabel⟩⟩ :=
      after_of_not_last (n := dnsName.label.length + 1) fun i hi => hno i (by omega)
    · omega
    · have hnext : (after answers picks dnsName (dnsName.label.length + 1 + 1)).asked.length =
          dnsName.label.length + 1 + 1 := by
        rw [after_succ]
        unfold step
        rw [hloop]
        dsimp only
        rw [hlabel]
        simp [hasked]
      have hmono := @asked_mono answers picks dnsName (dnsName.label.length + 1 + 1)
        (k - (dnsName.label.length + 1 + 1))
      rw [Nat.add_sub_cancel' (by omega)] at hmono
      omega

/-- **The walk stops in time** if and only if one of its first answers, as many as the domain name has labels
and the one for the root, is the last one. -/
theorem walk_stops_iff : Stops answers picks dnsName ↔
    ∃ i ≤ dnsName.label.length, Last answers picks dnsName i := by
  constructor
  · intro h
    by_contra hno
    push Not at hno
    exact not_stops hno h
  · rintro ⟨i, hi, hlast⟩
    classical
    have hex : ∃ i, Last answers picks dnsName i := ⟨i, hlast⟩
    obtain ⟨k, r, hended, hcount⟩ := ended_of_last (fun j hj => Nat.find_min hex hj) (Nat.find_spec hex)
    have hle : Nat.find hex ≤ i := Nat.find_min' hex hlast
    exact ⟨k, r, hended, by omega⟩

end

/-! ### A server that always refers to the root -/

/-- An answer with one NS record of the root. -/
private def referral : DnsRecord :=
  ⟨0, .query, [], [], [⟨.root, .ns, .in, 0, .ns ⟨[encode ['b']]⟩⟩], []⟩

/-- The domain `a`, and nothing but referrals. -/
theorem not_stops_referrals : ¬ Stops (fun _ => .ok referral) (fun _ => 0) ⟨[encode ['a']]⟩ := by
  refine not_stops fun i _ hlast => ?_
  have hns : lookupNs (.ok referral) = .ok (some referral.auth) := by decide
  rcases hlast _ _ hns rfl with hserver | ⟨-, heqv⟩
  · exact hserver ⟨_, rfl⟩
  · exact absurd heqv (by decide)

end HexDns.Commands.DelegationWalk
