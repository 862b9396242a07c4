import Mathlib.Data.List.Basic

/-! # Runs

A system is a partial function `step`: a state and a choice (who goes on, and how) to the next state.
`after` is the state at the end of a list of choices, `Always` says that a property holds in every
state on the way, and `Along` that a condition holds before every step. An invariant is proved for one
step; `always_of_along` and `always_iff_along` take it to runs. -/

namespace HexDns.Lib.Runs

variable {σ α : Type} {step : σ → α → Option σ}

/-- The state at the end of a run. -/
def after (step : σ → α → Option σ) : σ → List α → Option σ
  | s, [] => some s
  | s, a :: as => (step s a).bind (after step · as)

/-- The property holds in every state of a run. -/
def Always (step : σ → α → Option σ) (P : σ → Prop) : σ → List α → Prop
  | s, [] => P s
  | s, a :: as => P s ∧ ∀ s', step s a = some s' → Always step P s' as

/-- The condition holds before every step of a run. -/
def Along (step : σ → α → Option σ) (ok : σ → α → Prop) : σ → List α → Prop
  | _, [] => True
  | s, a :: as => ∀ s', step s a = some s' → ok s a ∧ Along step ok s' as

theorem after_append (s : σ) (as bs : List α) :
    after step s (as ++ bs) = (after step s as).bind (after step · bs) := by
  induction as generalizing s with
  | nil => rfl
  | cons a as ih =>
    simp only [List.cons_append, after]
    cases step s a with
    | none => rfl
    | some s' => exact ih s'

theorem Always.start {P : σ → Prop} {s : σ} {as : List α} (h : Always step P s as) : P s := by
  rcases as with _ | ⟨a, as⟩
  · exact h
  · exact h.1

theorem Always.after {P : σ → Prop} {s s' : σ} {as : List α} (h : Always step P s as)
    (hs : after step s as = some s') : P s' := by
  induction as generalizing s with
  | nil => obtain rfl := Option.some.inj hs; exact h
  | cons a as ih =>
    obtain ⟨t, ht, hs⟩ := Option.bind_eq_some_iff.mp hs
    exact ih (h.2 t ht) hs

theorem Always.mono {P Q : σ → Prop} (hPQ : ∀ s, P s → Q s) {s : σ} {as : List α}
    (h : Always step P s as) : Always step Q s as := by
  induction as generalizing s with
  | nil => exact hPQ s h
  | cons a as ih => exact ⟨hPQ s h.1, fun s' hs => ih (h.2 s' hs)⟩

theorem Along.cons {ok : σ → α → Prop} {s s' : σ} {a : α} {as : List α} (hs : step s a = some s')
    (hok : ok s a) (hrest : Along step ok s' as) : Along step ok s (a :: as) := by
  intro t ht
  obtain rfl : s' = t := Option.some.inj (hs.symm.trans ht)
  exact ⟨hok, hrest⟩

/-- What the last step of a run meets. -/
theorem Along.last {ok : σ → α → Prop} {s t u : σ} {a : α} {as : List α} (h : Along step ok s (as ++ [a]))
    (hs : after step s as = some t) (ha : step t a = some u) : ok t a := by
  induction as generalizing s with
  | nil =>
    obtain rfl := Option.some.inj hs
    exact (h u ha).1
  | cons b as ih =>
    obtain ⟨s', hb, hs⟩ := Option.bind_eq_some_iff.mp hs
    exact ih (h s' hb).2 hs

theorem Along.append {ok : σ → α → Prop} {s : σ} {as bs : List α} (h : Along step ok s as)
    (hbs : ∀ s', after step s as = some s' → Along step ok s' bs) : Along step ok s (as ++ bs) := by
  induction as generalizing s with
  | nil => exact hbs s rfl
  | cons a as ih =>
    intro s' hs
    obtain ⟨hok, hrest⟩ := h s' hs
    exact ⟨hok, ih hrest fun t ht => hbs t (Option.bind_eq_some_iff.mpr ⟨s', hs, ht⟩)⟩

/-- Choices for which the condition is no condition. -/
theorem Along.of_forall {ok : σ → α → Prop} {as : List α} (h : ∀ a ∈ as, ∀ s, ok s a) (s : σ) :
    Along step ok s as := by
  induction as generalizing s with
  | nil => exact trivial
  | cons a as ih =>
    intro s' _
    exact ⟨h a List.mem_cons_self s, ih (fun b hb => h b (List.mem_cons_of_mem a hb)) s'⟩

instance Along.decidable {ok : σ → α → Prop} [∀ s a, Decidable (ok s a)] :
    ∀ s as, Decidable (Along step ok s as)
  | _, [] => isTrue trivial
  | s, a :: as =>
    match hs : step s a with
    | none => isTrue fun s' h => by rw [hs] at h; cases h
    | some s' =>
      have : Decidable (Along step ok s' as) := Along.decidable s' as
      decidable_of_iff (ok s a ∧ Along step ok s' as)
        ⟨fun h => .cons hs h.1 h.2, fun h => h s' hs⟩

/-- **The rule of runs**: what a step that meets the condition keeps, holds in every state of a run
whose steps meet it. -/
theorem always_of_along {I : σ → Prop} {ok : σ → α → Prop}
    (hstep : ∀ s a s', I s → ok s a → step s a = some s' → I s') {s : σ} {as : List α} (h0 : I s)
    (h : Along step ok s as) : Always step I s as := by
  induction as generalizing s with
  | nil => exact h0
  | cons a as ih =>
    refine ⟨h0, fun s' hs => ?_⟩
    obtain ⟨hok, hrest⟩ := h s' hs
    exact ih (hstep s a s' h0 hok hs) hrest

/-- What every step keeps, holds in every state of every run. -/
theorem always_of_step {I : σ → Prop} (hstep : ∀ s a s', I s → step s a = some s' → I s') {s : σ} (h0 : I s)
    (as : List α) : Always step I s as := by
  induction as generalizing s with
  | nil => exact h0
  | cons a as ih => exact ⟨h0, fun s' hs => ih (hstep s a s' h0 hs)⟩

theorem after_cons {s t u : σ} {a : α} {as : List α} (ha : step s a = some t) (hs : after step t as = some u) :
    after step s (a :: as) = some u :=
  Option.bind_eq_some_iff.mpr ⟨t, ha, hs⟩

/-- **The rule of steps**: what every step from a state of the invariant meets, the steps of a run meet. -/
theorem along_of_inv {I : σ → Prop} {ok ok' : σ → α → Prop}
    (hstep : ∀ s a s', I s → step s a = some s' → ok s a → I s' ∧ ok' s a) {s : σ} {as : List α} (h0 : I s)
    (h : Along step ok s as) : Along step ok' s as := by
  induction as generalizing s with
  | nil => exact trivial
  | cons a as ih =>
    intro s' hs
    obtain ⟨hok, hrest⟩ := h s' hs
    obtain ⟨hI, hok'⟩ := hstep s a s' h0 hs hok
    exact ⟨hok', ih hI hrest⟩

/-- **A property is kept in a run if and only if** every step meets the condition that a single step
has to meet to keep it, where `J` is kept as long as they do. -/
theorem always_iff_along {J P : σ → Prop} {ok : σ → α → Prop}
    (hJ : ∀ s a s', J s → P s → ok s a → step s a = some s' → J s')
    (hstep : ∀ s a s', J s → P s → step s a = some s' → (P s' ↔ ok s a)) {s : σ} (hJ0 : J s)
    (hP0 : P s) (as : List α) : Always step P s as ↔ Along step ok s as := by
  constructor
  · intro h
    induction as generalizing s with
    | nil => exact trivial
    | cons a as ih =>
      intro s' hs
      have hP := (h.2 s' hs).start
      have hok := (hstep s a s' hJ0 hP0 hs).mp hP
      exact ⟨hok, ih (hJ s a s' hJ0 hP0 hok hs) hP (h.2 s' hs)⟩
  · intro h
    refine (always_of_along (I := fun s => J s ∧ P s) ?_ ⟨hJ0, hP0⟩ h).mono fun s hs => hs.2
    rintro s a s' ⟨hJs, hPs⟩ hok hs
    exact ⟨hJ s a s' hJs hPs hok hs, (hstep s a s' hJs hPs hs).mpr hok⟩

end HexDns.Lib.Runs
