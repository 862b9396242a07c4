import HexDns.Lib.Programs
import Mathlib.Tactic.Common

/-! # Scanners

A scanner reads elements from the start of a list and leaves a rest. A `Step` is what one round of its
loop does: it fails, it stops in front of the list, or it takes something off the list and gives an
element. `scan` goes round until the step stops; the length of the list is fuel enough, as every round
takes something (`Consumes`). `scan_stop`, `scan_more` and `scan_error` are the rounds without the fuel,
`Scanned` is the same as a relation, and `scan_flatMap` reads back what was written element by element.
-/

namespace HexDns.Lib.Scanners

open HexDns.Lib.Programs

variable {α β γ ε : Type}

/-- What one round of a scanner does. -/
abbrev Step (α β ε : Type) := List α → Except ε (Option (β × List α))

/-- A round that gives an element takes something off the list. -/
def Consumes (step : Step α β ε) : Prop :=
  ∀ l b rest, step l = .ok (some (b, rest)) → ∃ taken, taken ≠ [] ∧ l = taken ++ rest

/-- The rounds up to the one that stops, at most so many. -/
def scanFrom (step : Step α β ε) : ℕ → List α → Except ε (List β × List α)
  | 0, l => .ok ([], l)
  | n + 1, l =>
    match step l with
    | .error e => .error e
    | .ok none => .ok ([], l)
    | .ok (some (b, rest)) => (scanFrom step n rest).map fun r => (b :: r.1, r.2)

/-- What a scanner reads, and the rest. -/
def scan (step : Step α β ε) (l : List α) : Except ε (List β × List α) := scanFrom step (l.length + 1) l

/-- `scan` as a relation. -/
inductive Scanned (step : Step α β ε) : List α → List β → List α → Prop
  | stop {l : List α} (h : step l = .ok none) : Scanned step l [] l
  | more {l rest rest' : List α} {b : β} {bs : List β} (h : step l = .ok (some (b, rest)))
      (hs : Scanned step rest bs rest') : Scanned step l (b :: bs) rest'

variable {step : Step α β ε} {l rest rest' : List α} {b : β} {bs : List β}

theorem Consumes.lt (hc : Consumes step) (h : step l = .ok (some (b, rest))) :
    rest.length < l.length := by
  obtain ⟨taken, htaken, rfl⟩ := hc l b rest h
  have hpos := List.length_pos_iff.mpr htaken
  rw [List.length_append]
  omega

/-- More fuel than the length changes nothing. -/
theorem scanFrom_eq (hc : Consumes step) {n m : ℕ} (hn : l.length < n) (hm : l.length < m) :
    scanFrom step n l = scanFrom step m l := by
  induction n generalizing l m with
  | zero => omega
  | succ n ih =>
    obtain ⟨m, rfl⟩ := Nat.exists_eq_succ_of_ne_zero (show m ≠ 0 by omega)
    unfold scanFrom
    rcases h : step l with e | o
    · rfl
    · rcases o with _ | x
      · rfl
      · obtain ⟨b, rest⟩ := x
        have hlt := hc.lt h
        dsimp only
        rw [ih (by omega) (by omega : rest.length < m)]

theorem scan_stop (h : step l = .ok none) : scan step l = .ok ([], l) := by
  unfold scan scanFrom
  rw [h]

theorem scan_error {e : ε} (h : step l = .error e) : scan step l = .error e := by
  unfold scan scanFrom
  rw [h]

theorem scan_more (hc : Consumes step) (h : step l = .ok (some (b, rest))) :
    scan step l = (scan step rest).map fun r => (b :: r.1, r.2) := by
  have hlt := hc.lt h
  unfold scan
  rw [scanFrom, h]
  dsimp only
  rw [scanFrom_eq hc hlt (Nat.lt_succ_self _)]

/-- **A scanner reads just what its rounds read.** -/
theorem scan_eq_ok (hc : Consumes step) :
    scan step l = .ok (bs, rest') ↔ Scanned step l bs rest' := by
  constructor
  · intro h
    induction bs generalizing l with
    | nil =>
      rcases hstep : step l with e | o
      · rw [scan_error hstep] at h
        cases h
      · rcases o with _ | ⟨b, rest⟩
        · rw [scan_stop hstep] at h
          cases h
          exact .stop hstep
        · rw [scan_more hc hstep] at h
          rcases hrest : scan step rest with e | r <;> rw [hrest] at h <;> cases h
    | cons b bs ih =>
      rcases hstep : step l with e | o
      · rw [scan_error hstep] at h
        cases h
      · rcases o with _ | ⟨b', rest⟩
        · rw [scan_stop hstep] at h
          cases h
        · rw [scan_more hc hstep] at h
          rcases hrest : scan step rest with e | r <;> rw [hrest] at h <;> cases h
          exact .more hstep (ih hrest)
  · intro h
    induction h with
    | stop h => exact scan_stop h
    | more h _ ih =>
      rw [scan_more hc h, ih]
      rfl

/-- What a scanner leaves is an end of the list. -/
theorem Scanned.suffix (hc : Consumes step) (h : Scanned step l bs rest') : rest' <:+ l := by
  induction h with
  | stop h => exact List.suffix_rfl
  | more h _ ih =>
    obtain ⟨taken, -, rfl⟩ := hc _ _ _ h
    exact ih.trans (List.suffix_append _ _)

/-- A scanner fails only with what its step fails with. -/
theorem exists_step_error (hc : Consumes step) {e : ε} (h : scan step l = .error e) :
    ∃ l', l' <:+ l ∧ step l' = .error e := by
  induction hn : l.length using Nat.strongRecOn generalizing l with
  | ind n ih =>
    rcases hstep : step l with e' | o
    · rw [scan_error hstep] at h
      cases h
      exact ⟨l, List.suffix_rfl, hstep⟩
    · rcases o with _ | ⟨b, rest⟩
      · rw [scan_stop hstep] at h
        cases h
      · rw [scan_more hc hstep] at h
        rcases hrest : scan step rest with e' | r <;> rw [hrest] at h <;> cases h
        obtain ⟨l', hl', herr⟩ := ih rest.length (hn ▸ hc.lt hstep) hrest rfl
        obtain ⟨taken, -, rfl⟩ := hc _ _ _ hstep
        exact ⟨l', hl'.trans (List.suffix_append _ _), herr⟩

theorem raisesOnly_scan (hc : Consumes step) {P : ε → Prop} (hs : ∀ l, RaisesOnly P (step l))
    (l : List α) : RaisesOnly P (scan step l) := by
  intro e h
  obtain ⟨l', -, herr⟩ := exists_step_error hc h
  exact hs l' e herr

/-- **Elements written one after the other are read back**, if each one is in front of any rest, and the
scanner goes on with what follows. -/
theorem scan_flatMap (hc : Consumes step) {write : β → List α} {bs : List β}
    (hw : ∀ b ∈ bs, ∀ rest, step (write b ++ rest) = .ok (some (b, rest))) (rest : List α) :
    scan step (bs.flatMap write ++ rest) = (scan step rest).map fun r => (bs ++ r.1, r.2) := by
  induction bs with
  | nil =>
    rw [List.flatMap_nil, List.nil_append]
    rcases scan step rest with e | r
    · rfl
    · rfl
  | cons b bs ih =>
    rw [List.flatMap_cons, List.append_assoc, scan_more hc (hw b List.mem_cons_self _),
      ih fun b hb => hw b (List.mem_cons_of_mem _ hb)]
    rcases scan step rest with e | r
    · rfl
    · rfl

end HexDns.Lib.Scanners
