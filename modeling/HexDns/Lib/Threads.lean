import HexDns.Lib.Runs
import Mathlib.Order.Basic

/-! # Programs that run side by side

A `Thread` is a program that makes calls one after the other, may raise, and returns a value. The threads of
a `Pool` share a state: a call and its reply are one step, in which nobody else does anything, and between two
calls of a thread the other threads go on, new threads start, and others change the state.

The states are ordered: nobody ever goes down. `Safe` is about one thread: whatever the others do between its
calls, as long as they keep the invariant `I` and only go up, the thread keeps `I` and only goes up itself, and
what it returns meets a postcondition. There is one rule for each way to build a thread, and the rule of pools
(`always_of_safe`) takes it to all runs of a pool of safe threads. -/

namespace HexDns.Lib.Threads

open HexDns.Lib.Runs

/-- A program whose calls are `ι`, with the replies `ο`. -/
inductive Thread (ι : Type) (ο : ι → Type) (α : Type)
  | done (a : α)
  | raise
  | call (i : ι) (k : ο i → Thread ι ο α)

variable {ι : Type} {ο : ι → Type} {α β : Type}

def Thread.bind : Thread ι ο α → (α → Thread ι ο β) → Thread ι ο β
  | .done a, f => f a
  | .raise, _ => .raise
  | .call i k, f => .call i fun b => (k b).bind f

instance : Monad (Thread ι ο) where
  pure := .done
  bind := Thread.bind

/-- One call. -/
def perform (i : ι) : Thread ι ο (ο i) := .call i .done

/-- A program on the elements of a list in order. -/
def forEach (f : α → Thread ι ο Unit) : List α → Thread ι ο Unit
  | [] => pure ()
  | a :: l => do
    f a
    forEach f l

/-! ### Pools -/

/-- What threads share: how a call of the thread with a number and an owner is handled, where the choice says
what is left open, and what others do. No reply ends the thread. -/
structure System (σ κ ι : Type) (ο : ι → Type) (χ ε : Type) where
  handle : ℕ → κ → σ → (i : ι) → χ → Option (Option (ο i) × σ)
  others : σ → ε → Option σ

/-- The state, and the threads with their owners in the order in which they were started. -/
structure Pool (σ κ ι : Type) (ο : ι → Type) where
  shared : σ
  threads : List (κ × Thread ι ο Unit)

inductive Choice (θ χ ε : Type)
  /-- A thread starts. -/
  | start (t : θ)
  /-- The thread with the number makes its next call. -/
  | next (n : ℕ) (x : χ)
  | others (e : ε)

variable {σ κ χ ε θ : Type} (sys : System σ κ ι ο χ ε)

/-- A thread after its next call, and the state. -/
def advance (n : ℕ) (c : κ) (s : σ) (x : χ) : Thread ι ο Unit → Option (Thread ι ο Unit × σ)
  | .call i k => (sys.handle n c s i x).map fun r => (r.1.elim .raise k, r.2)
  | _ => none

/-- `program` says what can be started, by whom. -/
def step (program : θ → κ × Thread ι ο Unit) (p : Pool σ κ ι ο) : Choice θ χ ε → Option (Pool σ κ ι ο)
  | .start t => some { p with threads := p.threads ++ [program t] }
  | .next n x => do
    let t ← p.threads[n]?
    let r ← advance sys n t.1 p.shared x t.2
    return ⟨r.2, p.threads.set n (t.1, r.1)⟩
  | .others e => (sys.others p.shared e).map fun s => { p with shared := s }

/-! ### Safety -/

section
variable [Preorder σ] (I : σ → Prop) (n : ℕ) (c : κ)

/-- **The thread keeps the invariant and only goes up**, and what it returns meets the postcondition, if the
others keep the invariant and only go up between its calls. -/
def Safe : Thread ι ο α → (α → σ → Prop) → σ → Prop
  | .done a, post, s => ∀ t, s ≤ t → I t → post a t
  | .raise, _, _ => True
  | .call i k, post, s => ∀ t, s ≤ t → I t → ∀ x r t', sys.handle n c t i x = some (r, t') →
      I t' ∧ t ≤ t' ∧ ∀ b, r = some b → Safe (k b) post t'

variable {sys I n c} {m : Thread ι ο α} {f : α → Thread ι ο β} {post post' : α → σ → Prop} {s t : σ}

theorem Safe.of_le (h : Safe sys I n c m post s) (hst : s ≤ t) : Safe sys I n c m post t := by
  rcases m with a | - | ⟨i, k⟩
  · exact fun u hu hI => h u (hst.trans hu) hI
  · trivial
  · exact fun u hu hI => h u (hst.trans hu) hI

theorem safe_pure {a : α} (h : ∀ t, s ≤ t → I t → post a t) : Safe sys I n c (pure a) post s := h

theorem safe_raise : Safe sys I n c (.raise : Thread ι ο α) post s := trivial

/-- One call: what it does to every state that is above, and what holds whenever its reply is used. -/
theorem safe_perform {i : ι} {post : ο i → σ → Prop}
    (h : ∀ t, s ≤ t → I t → ∀ x r t', sys.handle n c t i x = some (r, t') →
      I t' ∧ t ≤ t' ∧ ∀ b, r = some b → ∀ u, t' ≤ u → I u → post b u) :
    Safe sys I n c (perform i) post s := h

/-- One call that is answered in one way. -/
theorem safe_outcome {i : ι} {post : ο i → σ → Prop}
    (h : ∀ t, s ≤ t → I t → ∀ x, ∃ r t', sys.handle n c t i x = some (r, t') ∧ I t' ∧ t ≤ t' ∧
      ∀ b, r = some b → ∀ u, t' ≤ u → post b u) : Safe sys I n c (perform i) post s := by
  refine safe_perform fun t ht hI x r t' hx => ?_
  obtain ⟨r', u, hx', hI', hle, hpost⟩ := h t ht hI x
  obtain ⟨rfl, rfl⟩ := Prod.mk.inj (Option.some.inj (hx'.symm.trans hx))
  exact ⟨hI', hle, fun b hb u hu _ => hpost b hb u hu⟩

/-- One call that only reads. -/
theorem safe_read {i : ι} {post : ο i → σ → Prop}
    (h : ∀ t, s ≤ t → I t → ∀ x, ∃ r, sys.handle n c t i x = some (r, t) ∧
      ∀ b, r = some b → ∀ u, t ≤ u → post b u) : Safe sys I n c (perform i) post s := by
  refine safe_outcome fun t ht hI x => ?_
  obtain ⟨r, hx, hpost⟩ := h t ht hI x
  exact ⟨r, t, hx, hI, le_rfl, hpost⟩

theorem Safe.mono (h : Safe sys I n c m post s) (hpost : ∀ a t, s ≤ t → I t → post a t → post' a t) :
    Safe sys I n c m post' s := by
  induction m generalizing s with
  | done a => exact fun t ht hI => hpost a t ht hI (h t ht hI)
  | raise => trivial
  | call i k ih =>
    intro t ht hI x r t' hx
    obtain ⟨hI', hle, hk⟩ := h t ht hI x r t' hx
    exact ⟨hI', hle, fun b hb => ih b (hk b hb) fun a u hu => hpost a u (ht.trans (hle.trans hu))⟩

/-- One program after the other. -/
theorem safe_bind {post : β → σ → Prop} (h : Safe sys I n c m (fun a t => Safe sys I n c (f a) post t) s) :
    Safe sys I n c (m >>= f) post s := by
  show Safe sys I n c (m.bind f) post s
  induction m generalizing s with
  | done a =>
    have hf : ∀ t, s ≤ t → I t → Safe sys I n c (f a) post t := h
    show Safe sys I n c (f a) post s
    rcases hfa : f a with b | - | ⟨i, k⟩
    · intro t ht hI
      have hdone := hf t ht hI
      rw [hfa] at hdone
      exact hdone t le_rfl hI
    · trivial
    · intro t ht hI
      have hcall := hf t ht hI
      rw [hfa] at hcall
      exact hcall t le_rfl hI
  | raise => trivial
  | call i k ih =>
    intro t ht hI x r t' hx
    obtain ⟨hI', hle, hk⟩ := h t ht hI x r t' hx
    exact ⟨hI', hle, fun b hb => ih b (hk b hb)⟩

/-- One program after the other, with what is known in between. -/
theorem Safe.andThen {mid : α → σ → Prop} {post : β → σ → Prop} (h : Safe sys I n c m mid s)
    (hf : ∀ a t, s ≤ t → mid a t → Safe sys I n c (f a) post t) : Safe sys I n c (m >>= f) post s :=
  safe_bind (h.mono fun a t hst _ hmid => hf a t hst hmid)

/-- A program on the elements of a list, each of which is safe wherever what is known holds. -/
theorem safe_forEach (known : σ → Prop) {f : α → Thread ι ο Unit} {l : List α}
    (hknown : ∀ s t, s ≤ t → known s → known t)
    (hf : ∀ a ∈ l, ∀ s, known s → Safe sys I n c (f a) (fun _ _ => True) s) (hs : known s) :
    Safe sys I n c (forEach f l) (fun _ => known) s := by
  induction l generalizing s with
  | nil => exact fun t ht _ => hknown s t ht hs
  | cons a l ih =>
    refine safe_bind ((hf a List.mem_cons_self s hs).mono fun _ t ht _ _ => ?_)
    exact ih (fun b hb => hf b (List.mem_cons_of_mem a hb)) (hknown s t ht hs)

/-- A call of a safe thread. -/
theorem Safe.advance {m m' : Thread ι ο Unit} {post : Unit → σ → Prop} {s' : σ} {x : χ}
    (h : Safe sys I n c m post s) (hI : I s) (hx : advance sys n c s x m = some (m', s')) :
    I s' ∧ s ≤ s' ∧ Safe sys I n c m' post s' := by
  rcases m with a | - | ⟨i, k⟩
  · cases hx
  · cases hx
  obtain ⟨⟨r, t'⟩, hr, heq⟩ := Option.map_eq_some_iff.mp hx
  obtain ⟨rfl, rfl⟩ := Prod.mk.inj heq
  obtain ⟨hI', hle, hk⟩ := h s le_rfl hI x r t' hr
  refine ⟨hI', hle, ?_⟩
  rcases r with - | b
  · trivial
  · exact hk b rfl

end

/-! ### The rule of pools -/

section
variable [Preorder σ] (I : σ → Prop)

/-- The invariant holds, and every thread is safe. -/
def Pool.Safe (p : Pool σ κ ι ο) : Prop :=
  I p.shared ∧ ∀ n t, p.threads[n]? = some t → Threads.Safe sys I n t.1 t.2 (fun _ _ => True) p.shared

variable {sys I} {program : θ → κ × Thread ι ο Unit} {p p' : Pool σ κ ι ο} {choice : Choice θ χ ε}

theorem Pool.Safe.step (hprogram : ∀ t n s, Threads.Safe sys I n (program t).1 (program t).2 (fun _ _ => True) s)
    (hothers : ∀ s e s', I s → sys.others s e = some s' → I s' ∧ s ≤ s') (hp : p.Safe sys I)
    (hstep : step sys program p choice = some p') : p'.Safe sys I ∧ p.shared ≤ p'.shared := by
  obtain ⟨hI, hthreads⟩ := hp
  rcases choice with t | ⟨n, x⟩ | e
  · obtain rfl := Option.some.inj hstep
    refine ⟨⟨hI, fun n t' ht' => ?_⟩, le_rfl⟩
    rcases Nat.lt_or_ge n p.threads.length with hn | hn
    · exact hthreads n t' (by rwa [List.getElem?_append_left hn] at ht')
    · rw [List.getElem?_append_right hn] at ht'
      obtain rfl := List.mem_singleton.mp (List.mem_of_getElem? ht')
      exact hprogram t n p.shared
  · obtain ⟨⟨c, m⟩, hm, hstep⟩ := Option.bind_eq_some_iff.mp hstep
    obtain ⟨⟨m', s'⟩, hx, hstep⟩ := Option.bind_eq_some_iff.mp hstep
    obtain rfl := Option.some.inj hstep
    obtain ⟨hI', hle, hm'⟩ := (hthreads n (c, m) hm).advance hI hx
    refine ⟨⟨hI', fun j t hj => ?_⟩, hle⟩
    by_cases hjn : n = j
    · subst hjn
      rw [List.getElem?_set_self (List.getElem?_eq_some_iff.mp hm).1] at hj
      obtain rfl := Option.some.inj hj
      exact hm'
    · rw [List.getElem?_set_ne hjn] at hj
      exact (hthreads j t hj).of_le hle
  · obtain ⟨s', hs', rfl⟩ := Option.map_eq_some_iff.mp hstep
    obtain ⟨hI', hle⟩ := hothers p.shared e s' hI hs'
    exact ⟨⟨hI', fun n t ht => (hthreads n t ht).of_le hle⟩, hle⟩

/-- **The rule of pools**: in every run of safe threads the invariant holds in every state. -/
theorem always_of_safe (hprogram : ∀ t n s, Threads.Safe sys I n (program t).1 (program t).2 (fun _ _ => True) s)
    (hothers : ∀ s e s', I s → sys.others s e = some s' → I s' ∧ s ≤ s') {s : σ} (hs : I s)
    (cs : List (Choice θ χ ε)) : Always (Threads.step sys program) (fun p => I p.shared) ⟨s, []⟩ cs :=
  (always_of_step (I := Pool.Safe sys I) (fun _ _ _ hp hstep => (hp.step hprogram hothers hstep).1)
    ⟨hs, fun n t ht => by rw [List.getElem?_nil] at ht; cases ht⟩ cs).mono fun _ hp => hp.1

end

end HexDns.Lib.Threads
