import Mathlib.Data.List.Nodup

/-! # Caches that drop what was not used for longest

`Lru` has the entries of a cache, the one that was used last first. `put` makes room by dropping the
last entry, `get?` only looks, and `touch` is the use of a key. -/

namespace HexDns.Lib.Lru

/-- A cache of so many entries, each key in one of them. -/
structure Lru (K V : Type) where
  cap : ℕ
  entries : List (K × V)
  nodup : (entries.map Prod.fst).Nodup
  bounded : entries.length ≤ cap

variable {K V : Type} [DecidableEq K]

/-- A cache without entries. -/
def Lru.empty (K V : Type) (cap : ℕ) : Lru K V := ⟨cap, [], List.nodup_nil, Nat.zero_le cap⟩

/-- The value of a key. -/
def Lru.get? (c : Lru K V) (k : K) : Option V := (c.entries.find? fun e => e.1 = k).map Prod.snd

/-- The entries of the other keys. -/
def others (k : K) (entries : List (K × V)) : List (K × V) := entries.filter fun e => e.1 ≠ k

theorem nodup_others {entries : List (K × V)} (h : (entries.map Prod.fst).Nodup) (k : K) :
    ((others k entries).map Prod.fst).Nodup :=
  h.sublist (List.filter_sublist.map Prod.fst)

theorem not_mem_others (k : K) (entries : List (K × V)) : k ∉ (others k entries).map Prod.fst := by
  intro h
  obtain ⟨e, he, hk⟩ := List.mem_map.mp h
  have hne : e.1 ≠ k := by simpa using (List.mem_filter.mp he).2
  exact hne hk

/-- The cache without a key. -/
def Lru.pop (c : Lru K V) (k : K) : Lru K V where
  cap := c.cap
  entries := others k c.entries
  nodup := nodup_others c.nodup k
  bounded := Nat.le_trans (List.length_filter_le _ _) c.bounded

/-- The cache with a new value of a key; the last entry is dropped if there is no room. -/
def Lru.put (c : Lru K V) (k : K) (v : V) : Lru K V where
  cap := c.cap
  entries := ((k, v) :: others k c.entries).take c.cap
  nodup := by
    have hall : (((k, v) :: others k c.entries).map Prod.fst).Nodup :=
      List.nodup_cons.mpr ⟨not_mem_others k c.entries, nodup_others c.nodup k⟩
    exact hall.sublist ((List.take_sublist _ _).map Prod.fst)
  bounded := List.length_take_le _ _

/-- The key that `put` drops. -/
def Lru.evicted (c : Lru K V) (k : K) (v : V) : Option K :=
  ((((k, v) :: others k c.entries).drop c.cap).map Prod.fst).head?

/-- The cache after a key is used. -/
def Lru.touch (c : Lru K V) (k : K) : Lru K V :=
  match c.get? k with
  | some v => c.put k v
  | none => c

variable {c : Lru K V} {k : K} {v : V} {e : K × V}

theorem mem_of_get? (h : c.get? k = some v) : (k, v) ∈ c.entries := by
  obtain ⟨e, he, hv⟩ := Option.map_eq_some_iff.mp h
  have hk : e.1 = k := by simpa using List.find?_some he
  have hmem : e ∈ c.entries := List.mem_of_find?_eq_some he
  rw [← hk, ← hv]
  exact hmem

theorem mem_pop : e ∈ (c.pop k).entries ↔ e ∈ c.entries ∧ e.1 ≠ k := by
  show e ∈ others k c.entries ↔ _
  simp [others]

theorem mem_put (h : e ∈ (c.put k v).entries) : e = (k, v) ∨ (e ∈ c.entries ∧ e.1 ≠ k) := by
  rcases List.mem_cons.mp (List.mem_of_mem_take h) with h | h
  · exact Or.inl h
  · exact Or.inr (mem_pop.mp h)

theorem mem_touch (h : e ∈ (c.touch k).entries) : e ∈ c.entries := by
  unfold Lru.touch at h
  rcases hv : c.get? k with _ | v
  · rw [hv] at h
    exact h
  · rw [hv] at h
    rcases mem_put h with rfl | ⟨h, -⟩
    · exact mem_of_get? hv
    · exact h

omit [DecidableEq K] in
theorem eq_of_mem_entries {v' : V} (h : (k, v) ∈ c.entries) (h' : (k, v') ∈ c.entries) : v = v' := by
  have hpair := List.inj_on_of_nodup_map c.nodup h h' rfl
  exact (Prod.mk.inj hpair).2

theorem get?_eq_some : c.get? k = some v ↔ (k, v) ∈ c.entries := by
  refine ⟨mem_of_get?, fun h => ?_⟩
  rcases hget : c.get? k with _ | v'
  · have hnone := List.find?_eq_none.mp (Option.map_eq_none_iff.mp hget) _ h
    simp at hnone
  · rw [eq_of_mem_entries h (mem_of_get? hget)]

theorem length_others_add_one_le {entries : List (K × V)} (h : k ∈ entries.map Prod.fst) :
    (others k entries).length + 1 ≤ entries.length := by
  obtain ⟨e, he, rfl⟩ := List.mem_map.mp h
  have hlt : (others e.1 entries).length < entries.length := by
    unfold others
    rw [List.length_filter_lt_length_iff_exists]
    exact ⟨e, he, by simp⟩
  omega

/-- An entry of another key stays in the cache unless it is dropped. -/
theorem mem_put_of_mem (he : e ∈ c.entries) (hk : e.1 ≠ k) (hkept : c.evicted k v ≠ some e.1) :
    e ∈ (c.put k v).entries := by
  have hmem : e ∈ (k, v) :: others k c.entries := List.mem_cons_of_mem _ (mem_pop.mpr ⟨he, hk⟩)
  rw [← List.take_append_drop c.cap ((k, v) :: others k c.entries)] at hmem
  rcases List.mem_append.mp hmem with hmem | hmem
  · exact hmem
  · -- the entry is the only one for which there is no room
    have hlen : (((k, v) :: others k c.entries).drop c.cap).length ≤ 1 := by
      have hothers : (others k c.entries).length ≤ c.cap := (c.pop k).bounded
      rw [List.length_drop, List.length_cons]
      omega
    unfold Lru.evicted at hkept
    rcases hdrop : ((k, v) :: others k c.entries).drop c.cap with _ | ⟨x, rest⟩
    · rw [hdrop] at hmem
      cases hmem
    · rw [hdrop] at hmem hlen hkept
      obtain rfl : rest = [] := List.eq_nil_of_length_eq_zero (by rw [List.length_cons] at hlen; omega)
      obtain rfl := List.mem_singleton.mp hmem
      exact absurd rfl hkept

theorem mem_put_self (h : 0 < c.cap) : (k, v) ∈ (c.put k v).entries := by
  show (k, v) ∈ ((k, v) :: others k c.entries).take c.cap
  obtain ⟨n, hn⟩ := Nat.exists_eq_succ_of_ne_zero (Nat.ne_of_gt h)
  rw [hn, List.take_succ_cons]
  exact List.mem_cons_self

/-- The use of a key drops nothing. -/
theorem mem_touch_iff : e ∈ (c.touch k).entries ↔ e ∈ c.entries := by
  refine ⟨mem_touch, fun he => ?_⟩
  unfold Lru.touch
  rcases hget : c.get? k with _ | v
  · exact he
  have hmem := mem_of_get? hget
  have hlen : (others k c.entries).length + 1 ≤ c.entries.length :=
    length_others_add_one_le (List.mem_map.mpr ⟨_, hmem, rfl⟩)
  have hbounded := c.bounded
  by_cases hk : e.1 = k
  · obtain ⟨k', v'⟩ := e
    obtain rfl : k' = k := hk
    rw [eq_of_mem_entries he hmem]
    exact mem_put_self (by omega)
  · refine mem_put_of_mem he hk ?_
    have hnone : c.evicted k v = none := by
      unfold Lru.evicted
      rw [List.drop_eq_nil_of_le (by rw [List.length_cons]; omega)]
      rfl
    simp [hnone]

end HexDns.Lib.Lru
