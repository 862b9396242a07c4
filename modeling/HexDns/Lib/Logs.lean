import Mathlib.Data.List.Infix

/-! # Logs

A log is lawful if every event in it was allowed by what was in the log before. A rule under which what is
allowed once is allowed from then on is `Lasting`. -/

namespace HexDns.Lib.Logs

variable {ε : Type} {allowed : List ε → ε → Prop} {log : List ε} {e : ε} {es : List ε}

/-- **Every event was allowed** by what was in the log before it. -/
def Lawful (allowed : List ε → ε → Prop) (log : List ε) : Prop :=
  ∀ front e back, log = front ++ e :: back → allowed front e

/-- What is allowed stays allowed when the log gets longer. -/
def Lasting (allowed : List ε → ε → Prop) : Prop := ∀ log log' e, log <+: log' → allowed log e → allowed log' e

theorem lawful_nil : Lawful allowed [] := by
  intro front e back heq
  have hlen := congrArg List.length heq
  simp at hlen

theorem Lawful.concat (h : Lawful allowed log) (he : allowed log e) : Lawful allowed (log ++ [e]) := by
  intro front e' back heq
  rcases List.eq_nil_or_concat back with rfl | ⟨back, last, rfl⟩
  · obtain ⟨rfl, hlast⟩ := List.append_inj' heq rfl
    obtain rfl := List.singleton_inj.mp hlast
    exact he
  · have heq' : log ++ [e] = (front ++ e' :: back) ++ [last] := by simpa using heq
    exact h front e' back (List.append_inj' heq' rfl).1

theorem Lawful.append (hlasting : Lasting allowed) (h : Lawful allowed log) (hes : ∀ e ∈ es, allowed log e) :
    Lawful allowed (log ++ es) := by
  induction es using List.reverseRecOn with
  | nil => rwa [List.append_nil]
  | append_singleton es e ih =>
    rw [← List.append_assoc]
    refine (ih fun e' he' => hes e' (List.mem_append_left _ he')).concat ?_
    exact hlasting _ _ e (List.prefix_append _ _) (hes e (List.mem_append_right _ (List.mem_singleton_self e)))

end HexDns.Lib.Logs
