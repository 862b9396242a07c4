import Mathlib.Data.List.Nodup
import Mathlib.Order.Basic

/-! # Tables with a key column

A table is a list of rows with pairwise different keys and a bound above every key, so that a row
with a fresh key can always be made. A row is saved by its key (`save`: in place if the key is
there, at the end otherwise), and dropped by its key (`erase`) or by a condition (`erasing`). Up to
the order of the rows a table is the set of its rows, and the lemmas say which rows each operation
leaves. -/

namespace HexDns.Lib.Tables

/-- Rows with pairwise different keys, all below `next`. -/
structure Table (R : Type) (key : R → ℕ) where
  rows : List R
  next : ℕ
  nodup : (rows.map key).Nodup
  lt_next : ∀ r ∈ rows, key r < next

variable {R : Type} {key : R → ℕ}

instance : Membership R (Table R key) := ⟨fun t r => r ∈ t.rows⟩

instance [DecidableEq R] (r : R) (t : Table R key) : Decidable (r ∈ t) :=
  inferInstanceAs (Decidable (r ∈ t.rows))

/-- The table without rows. -/
def Table.empty : Table R key := ⟨[], 0, by simp, by simp⟩

/-- `r` in the place of the row with its key. -/
def replace (key : R → ℕ) (r : R) (l : List R) : List R :=
  l.map fun x => if key x = key r then r else x

theorem map_key_replace (r : R) (l : List R) : (replace key r l).map key = l.map key := by
  unfold replace
  rw [List.map_map]
  refine List.map_congr_left fun x _ => ?_
  simp only [Function.comp_apply]
  split_ifs with h
  · exact h.symm
  · rfl

theorem mem_replace {r x : R} {l : List R} :
    x ∈ replace key r l ↔ (x = r ∧ key r ∈ l.map key) ∨ (x ∈ l ∧ key x ≠ key r) := by
  simp only [replace, List.mem_map]
  constructor
  · rintro ⟨y, hy, rfl⟩
    split_ifs with h
    · exact Or.inl ⟨rfl, y, hy, h⟩
    · exact Or.inr ⟨hy, h⟩
  · rintro (⟨rfl, y, hy, h⟩ | ⟨hx, h⟩)
    · exact ⟨y, hy, if_pos h⟩
    · exact ⟨x, hx, if_neg h⟩

/-- Save a row: in place if its key is there, at the end otherwise. -/
def Table.save (t : Table R key) (r : R) : Table R key :=
  if h : key r ∈ t.rows.map key then
    { rows := replace key r t.rows
      next := t.next
      nodup := by rw [map_key_replace]; exact t.nodup
      lt_next := fun x hx => by
        have hk : key x ∈ (replace key r t.rows).map key := List.mem_map_of_mem hx
        rw [map_key_replace] at hk
        obtain ⟨y, hy, hxy⟩ := List.mem_map.mp hk
        rw [← hxy]; exact t.lt_next y hy }
  else
    { rows := t.rows ++ [r]
      next := max t.next (key r + 1)
      nodup := by
        rw [List.map_append, List.map_singleton]
        exact t.nodup.append (List.nodup_singleton _) (by simpa using h)
      lt_next := fun x hx => by
        rcases List.mem_append.mp hx with hx | hx
        · have := t.lt_next x hx; omega
        · rw [List.mem_singleton.mp hx]; omega }

/-- The rows that do not meet a condition. -/
def Table.erasing (t : Table R key) (p : R → Bool) : Table R key where
  rows := t.rows.filter fun r => !p r
  next := t.next
  nodup := t.nodup.sublist (List.filter_sublist.map key)
  lt_next := fun r hr => t.lt_next r (List.mem_filter.mp hr).1

/-- Drop the row with key `k`. -/
def Table.erase (t : Table R key) (k : ℕ) : Table R key := t.erasing fun r => key r = k

/-- The rows changed in place, with the keys that they have. -/
def Table.modify (t : Table R key) (f : R → R) (hf : ∀ r, key (f r) = key r) : Table R key where
  rows := t.rows.map f
  next := t.next
  nodup := by
    have hkeys : key ∘ f = key := funext hf
    rw [List.map_map, hkeys]
    exact t.nodup
  lt_next := fun r hr => by
    obtain ⟨x, hx, rfl⟩ := List.mem_map.mp hr
    rw [hf]
    exact t.lt_next x hx

/-- Two rows of a table with one key are the same row. -/
theorem eq_of_key {t : Table R key} {x y : R} (hx : x ∈ t) (hy : y ∈ t) (h : key x = key y) :
    x = y :=
  List.inj_on_of_nodup_map t.nodup hx hy h

theorem key_lt_next {t : Table R key} {r : R} (h : r ∈ t) : key r < t.next := t.lt_next r h

@[simp] theorem mem_save {t : Table R key} {r x : R} :
    x ∈ t.save r ↔ x = r ∨ (x ∈ t ∧ key x ≠ key r) := by
  unfold Table.save
  split_ifs with h
  · change x ∈ replace key r t.rows ↔ _
    rw [mem_replace]
    exact Iff.or (and_iff_left h) Iff.rfl
  · change x ∈ t.rows ++ [r] ↔ _
    rw [List.mem_append, List.mem_singleton, or_comm]
    refine Iff.or Iff.rfl ⟨fun hx => ⟨hx, fun hk => h ?_⟩, fun hx => hx.1⟩
    rw [← hk]; exact List.mem_map_of_mem hx

@[simp] theorem mem_erasing {t : Table R key} {p : R → Bool} {x : R} :
    x ∈ t.erasing p ↔ x ∈ t ∧ p x = false := by
  change x ∈ t.rows.filter _ ↔ _
  rw [List.mem_filter, Bool.not_eq_eq_eq_not, Bool.not_true]; exact Iff.rfl

@[simp] theorem mem_erase {t : Table R key} {k : ℕ} {x : R} :
    x ∈ t.erase k ↔ x ∈ t ∧ key x ≠ k := by
  unfold Table.erase; rw [mem_erasing]; simp

/-- A row is saved in the place of the row with its key. -/
theorem rows_save {t : Table R key} {r x : R} (hx : x ∈ t) (hk : key x = key r) :
    (t.save r).rows = replace key r t.rows := by
  have hmem : key r ∈ t.rows.map key := by rw [← hk]; exact List.mem_map_of_mem hx
  unfold Table.save
  rw [dif_pos hmem]

/-- To save a row that is there changes nothing. -/
theorem rows_save_of_mem {t : Table R key} {r : R} (hr : r ∈ t) : (t.save r).rows = t.rows := by
  rw [rows_save hr rfl]
  refine (List.map_congr_left fun x hx => ?_).trans (List.map_id _)
  by_cases hk : key x = key r
  · rw [if_pos hk]
    exact (eq_of_key hx hr hk).symm
  · rw [if_neg hk]; rfl

/-- Rows that a saved row is not one of, and does not take the place of one of, stay the same. -/
theorem filter_save {t : Table R key} {r : R} {p : R → Bool} (hr : p r = false)
    (hold : ∀ x ∈ t, key x = key r → p x = false) : (t.save r).rows.filter p = t.rows.filter p := by
  by_cases hk : key r ∈ t.rows.map key
  · obtain ⟨x, hx, hxr⟩ := List.mem_map.mp hk
    rw [rows_save hx hxr, replace]
    have hstep : ∀ l : List R, (∀ x ∈ l, x ∈ t) →
        (l.map fun x => if key x = key r then r else x).filter p = l.filter p := by
      intro l hl
      induction l with
      | nil => rfl
      | cons y l ih =>
        have hrest := ih fun x hx => hl x (List.mem_cons_of_mem y hx)
        by_cases hy : key y = key r
        · have hpy := hold y (hl y List.mem_cons_self) hy
          rw [List.map_cons, if_pos hy, List.filter_cons_of_neg (by simp [hr]),
            List.filter_cons_of_neg (by simp [hpy]), hrest]
        · rw [List.map_cons, if_neg hy, List.filter_cons, List.filter_cons, hrest]
    exact hstep t.rows fun x hx => hx
  · unfold Table.save
    rw [dif_neg hk]
    show (t.rows ++ [r]).filter p = _
    rw [List.filter_append, List.filter_cons_of_neg (by simp [hr]), List.filter_nil, List.append_nil]

/-- Rows that none is dropped of stay the same. -/
theorem filter_erasing {t : Table R key} {p q : R → Bool} (h : ∀ x ∈ t, p x = true → q x = false) :
    (t.erasing q).rows.filter p = t.rows.filter p := by
  show (t.rows.filter fun r => !q r).filter p = _
  rw [List.filter_filter]
  refine List.filter_congr fun x hx => ?_
  by_cases hp : p x = true
  · simp [hp, h x hx hp]
  · simp [hp]

/-- A row with a fresh key is saved at the end. -/
theorem rows_save_fresh {t : Table R key} {r : R} (hr : key r = t.next) : (t.save r).rows = t.rows ++ [r] := by
  have hfresh : key r ∉ t.rows.map key := by
    intro hmem
    obtain ⟨x, hx, hk⟩ := List.mem_map.mp hmem
    have := key_lt_next hx
    omega
  unfold Table.save
  rw [dif_neg hfresh]

/-- Saving a row under a fresh key only adds it. -/
theorem mem_save_fresh {t : Table R key} {r x : R} (hr : key r = t.next) :
    x ∈ t.save r ↔ x = r ∨ x ∈ t := by
  rw [mem_save]
  refine Iff.or Iff.rfl ⟨fun h => h.1, fun h => ⟨h, ?_⟩⟩
  have := key_lt_next h; omega

/-! ### Numbers of rows -/

theorem countP_save_fresh {t : Table R key} {r : R} (hr : key r = t.next) (p : R → Bool) :
    (t.save r).rows.countP p = t.rows.countP p + if p r = true then 1 else 0 := by
  rw [rows_save_fresh hr, List.countP_append, List.countP_singleton]

/-- The row that is dropped is counted once. -/
theorem countP_erase {t : Table R key} {r : R} (hr : r ∈ t) (p : R → Bool) :
    ((t.erase (key r)).rows.countP p + if p r = true then 1 else 0) = t.rows.countP p := by
  obtain ⟨before, after, hrows⟩ := List.append_of_mem (show r ∈ t.rows from hr)
  have hnodup : (before.map key ++ key r :: after.map key).Nodup := by
    have hkeys := t.nodup
    rwa [hrows, List.map_append, List.map_cons] at hkeys
  obtain ⟨-, hafter, hbefore⟩ := List.nodup_append.mp hnodup
  have hkeep : ∀ l : List R, key r ∉ l.map key → l.filter (fun x => !decide (key x = key r)) = l := by
    intro l hl
    refine List.filter_eq_self.mpr fun x hx => ?_
    have hne : key x ≠ key r := fun hk => hl (hk ▸ List.mem_map_of_mem hx)
    simpa using hne
  have hb : key r ∉ before.map key := fun hmem => hbefore _ hmem _ List.mem_cons_self rfl
  have ha : key r ∉ after.map key := (List.nodup_cons.mp hafter).1
  show (t.rows.filter fun x => !decide (key x = key r)).countP p + _ = _
  rw [hrows, List.filter_append, List.filter_cons_of_neg (by simp), hkeep before hb, hkeep after ha,
    List.countP_append, List.countP_append, List.countP_cons, Nat.add_assoc]

/-- A change that keeps what is counted keeps the number if and only if nothing else comes to be counted. -/
theorem countP_map_eq_iff {f : R → R} {p : R → Bool} {l : List R} (hf : ∀ x ∈ l, p x = true → p (f x) = true) :
    (l.map f).countP p = l.countP p ↔ ∀ x ∈ l, p (f x) = true → p x = true := by
  rw [List.countP_map]
  constructor
  · intro heq x hx hfx
    have hle : ∀ m ⊆ l, m.countP p ≤ m.countP (p ∘ f) := by
      intro m hm
      exact List.countP_mono_left fun y hy => hf y (hm hy)
    obtain ⟨before, after, rfl⟩ := List.append_of_mem hx
    have hbefore := hle before (List.subset_append_left _ _)
    have hafter := hle after fun y hy => List.mem_append_right _ (List.mem_cons_of_mem x hy)
    by_contra hpx
    have hpfx : (p ∘ f) x = true := hfx
    rw [List.countP_append, List.countP_append, List.countP_cons_of_pos hpfx, List.countP_cons_of_neg hpx] at heq
    omega
  · intro hall
    exact List.countP_congr fun x hx => ⟨hall x hx, hf x hx⟩

end HexDns.Lib.Tables
