import Mathlib.Data.List.Sort

/-! # Sorting by a key

`List.insertionSort` leaves elements with the same key in their order, so that lists are sorted to the same list if and
only if they have the same elements with each key, in the same order (`insertionSort_eq_iff`). -/

namespace HexDns.Lib.StableSort

variable {α κ : Type*} [LinearOrder κ] {key : α → κ} {l l' : List α}

/-- **The sort is stable.** -/
theorem filter_insertionSort (k : κ) :
    (l.insertionSort fun a b => key a ≤ key b).filter (key · = k) = l.filter (key · = k) := by
  have hpair : (l.filter (key · = k)).Pairwise fun a b => key a ≤ key b := by
    refine List.pairwise_of_forall_mem_list fun a ha b hb => ?_
    have hka : key a = k := by simpa using (List.mem_filter.mp ha).2
    have hkb : key b = k := by simpa using (List.mem_filter.mp hb).2
    rw [hka, hkb]
  have hsub : (l.filter (key · = k)).Sublist ((l.insertionSort fun a b => key a ≤ key b).filter (key · = k)) := by
    have hsorted := (List.sublist_insertionSort hpair List.filter_sublist).filter (key · = k)
    simp only [List.filter_filter, Bool.and_self] at hsorted
    exact hsorted
  have hlen : ((l.insertionSort fun a b => key a ≤ key b).filter (key · = k)).length =
      (l.filter (key · = k)).length :=
    ((List.perm_insertionSort (fun a b => key a ≤ key b) l).filter _).length_eq
  exact (hsub.eq_of_length hlen.symm).symm

/-- Sorted lists with the same elements with each key are the same. -/
theorem eq_of_filter_eq (hl : l.Pairwise fun a b => key a ≤ key b) (hl' : l'.Pairwise fun a b => key a ≤ key b)
    (h : ∀ k, l.filter (key · = k) = l'.filter (key · = k)) : l = l' := by
  induction l generalizing l' with
  | nil =>
    rcases l' with _ | ⟨b, l'⟩
    · rfl
    · have hb := h (key b)
      simp at hb
  | cons a l ih =>
    obtain ⟨ha, hl⟩ := List.pairwise_cons.mp hl
    rcases l' with _ | ⟨b, l'⟩
    · have hnil := h (key a)
      simp at hnil
    obtain ⟨hb, htl⟩ := List.pairwise_cons.mp hl'
    have hmem : a ∈ b :: l' := by
      have hfilter : a ∈ (b :: l').filter (key · = key a) := by
        rw [← h]
        simp
      exact (List.mem_filter.mp hfilter).1
    have hmem' : b ∈ a :: l := by
      have hfilter : b ∈ (a :: l).filter (key · = key b) := by
        rw [h]
        simp
      exact (List.mem_filter.mp hfilter).1
    -- both are first, so that they have the same key
    have hle : key b ≤ key a := by
      rcases List.mem_cons.mp hmem with heq | hmem
      · rw [heq]
      · exact hb a hmem
    have hle' : key a ≤ key b := by
      rcases List.mem_cons.mp hmem' with heq | hmem'
      · rw [heq]
      · exact ha b hmem'
    have hkey : key a = key b := le_antisymm hle' hle
    obtain rfl : a = b := by
      have hhead := h (key a)
      rw [List.filter_cons_of_pos (by simp), List.filter_cons_of_pos (by simp [hkey])] at hhead
      exact (List.cons.inj hhead).1
    refine congrArg (a :: ·) (ih hl htl fun k => ?_)
    have htail := h k
    by_cases hk : key a = k
    · rw [List.filter_cons_of_pos (by simp [hk]), List.filter_cons_of_pos (by simp [hk])] at htail
      exact (List.cons.inj htail).2
    · rwa [List.filter_cons_of_neg (by simp [hk]), List.filter_cons_of_neg (by simp [hk])] at htail

/-- **Lists are sorted to the same list** if and only if they have the same elements with each key. -/
theorem insertionSort_eq_iff : (l.insertionSort fun a b => key a ≤ key b) =
    (l'.insertionSort fun a b => key a ≤ key b) ↔ ∀ k, l.filter (key · = k) = l'.filter (key · = k) := by
  have htotal : Std.Total (fun a b : α => key a ≤ key b) := ⟨fun a b => le_total (key a) (key b)⟩
  have htrans : IsTrans α (fun a b => key a ≤ key b) := ⟨fun _ _ _ => le_trans⟩
  constructor
  · intro h k
    rw [← filter_insertionSort, h, filter_insertionSort]
  · intro h
    refine eq_of_filter_eq (List.pairwise_insertionSort _ l) (List.pairwise_insertionSort _ l') fun k => ?_
    rw [filter_insertionSort, filter_insertionSort, h]

end HexDns.Lib.StableSort
