import HexDns.Models.Wire
import HexDns.Svcb.Addresses
import Mathlib.Algebra.Order.BigOperators.Group.List

/-! # What a text that is an address looks like

An IPv4 address has at least seven characters. The eight groups that an IPv6 address stands for are packed one after
the other, and if none of these bytes is zero no group has been left out, so that the address is long; no address has
a character with code zero. -/

namespace HexDns.Svcb.AddressTexts

open HexDns.Lib.Texts HexDns.Base.Codecs HexDns.Models.Wire HexDns.Tasks.Addresses HexDns.Svcb.Addresses

/-! ### Numbers -/

section
variable {b n : ℕ} {t : Text}

/-- The characters of a number are hexadecimal digits, and it is smaller than the power of its length. -/
theorem readBase_spec (h : readBase b t = some n) : t ≠ [] ∧ (∀ c ∈ t, (hexValue c).isSome) ∧ n < b ^ t.length := by
  have hfold : ∀ (t : Text) (acc n : ℕ), t.foldlM (fun n c => (hexValue c).bind fun d =>
      if d < b then some (b * n + d) else none) acc = some n →
      (∀ c ∈ t, (hexValue c).isSome) ∧ n < (acc + 1) * b ^ t.length := by
    intro t
    induction t with
    | nil =>
      intro acc n h
      obtain rfl : acc = n := Option.some.inj h
      refine ⟨fun c hc => absurd hc List.not_mem_nil, ?_⟩
      simp
    | cons c t ih =>
      intro acc n h
      rw [List.foldlM_cons] at h
      obtain ⟨m, hm, h⟩ := Option.bind_eq_some_iff.mp h
      obtain ⟨d, hd, hm⟩ := Option.bind_eq_some_iff.mp hm
      split_ifs at hm with hlt
      obtain rfl := Option.some.inj hm
      obtain ⟨hchars, hbound⟩ := ih _ n h
      refine ⟨List.forall_mem_cons.mpr ⟨Option.isSome_iff_exists.mpr ⟨d, hd⟩, hchars⟩, hbound.trans_le ?_⟩
      calc (b * acc + d + 1) * b ^ t.length ≤ (b * acc + b) * b ^ t.length := Nat.mul_le_mul_right _ (by omega)
        _ = (acc + 1) * b ^ (c :: t).length := by rw [List.length_cons]; ring
  unfold readBase at h
  split_ifs at h with hnil
  obtain ⟨hchars, hbound⟩ := hfold t 0 n h
  refine ⟨hnil, hchars, ?_⟩
  simpa using hbound

/-- The results of a list, none of which fails. -/
theorem mem_mapM_some {α β : Type} {f : α → Option β} {l : List α} {ys : List β} (h : l.mapM f = some ys) :
    ys.length = l.length ∧ (∀ a ∈ l, ∃ y ∈ ys, f a = some y) ∧ ∀ y ∈ ys, ∃ a ∈ l, f a = some y := by
  induction l generalizing ys with
  | nil =>
    obtain rfl := Option.some.inj h
    simp
  | cons a l ih =>
    rw [List.mapM_cons] at h
    obtain ⟨y, hy, h⟩ := Option.bind_eq_some_iff.mp h
    obtain ⟨ys', hys, h⟩ := Option.bind_eq_some_iff.mp h
    obtain rfl := Option.some.inj h
    obtain ⟨hlen, hleft, hright⟩ := ih hys
    refine ⟨by simp [hlen], ?_, ?_⟩
    · refine List.forall_mem_cons.mpr ⟨⟨y, List.mem_cons_self, hy⟩, fun b hb => ?_⟩
      obtain ⟨z, hz, hbz⟩ := hleft b hb
      exact ⟨z, List.mem_cons_of_mem y hz, hbz⟩
    · refine List.forall_mem_cons.mpr ⟨⟨a, List.mem_cons_self, hy⟩, fun z hz => ?_⟩
      obtain ⟨b, hb, hbz⟩ := hright z hz
      exact ⟨b, List.mem_cons_of_mem a hb, hbz⟩

/-- The length of parts with a character between them. -/
theorem length_splitOn (c : Char) (t : Text) : ((t.splitOn c).map fun p : Text => p.length + 1).sum = t.length + 1 := by
  have hjoin : ∀ ls : List Text, ls ≠ [] →
      (ls.map fun p => p.length + 1).sum = ([c].intercalate ls).length + 1 := by
    intro ls
    induction ls with
    | nil => exact fun hne => absurd rfl hne
    | cons l ls ih =>
      intro _
      rcases ls with _ | ⟨l', ls⟩
      · simp
      · rw [List.map_cons, List.sum_cons, ih (List.cons_ne_nil _ _), List.intercalate_cons_cons]
        simp only [List.length_append, List.length_cons, List.length_nil]
        omega
  rw [hjoin _ (List.splitOn_ne_nil c t), List.intercalate_splitOn]

/-- Parts that have a length at least. -/
theorem le_sum_of_parts {ps : List Text} {k : ℕ} (h : ∀ p ∈ ps, k ≤ p.length) :
    ps.length * (k + 1) ≤ (ps.map fun p => p.length + 1).sum := by
  have hall : ∀ x ∈ ps.map fun p => p.length + 1, k + 1 ≤ x := by
    intro x hx
    obtain ⟨p, hp, rfl⟩ := List.mem_map.mp hx
    have hk := h p hp
    omega
  have hsum := List.card_nsmul_le_sum _ (k + 1) hall
  rwa [List.length_map, Nat.nsmul_eq_mul] at hsum

/-- The characters of a text are the one it is split at and those of its parts. -/
theorem mem_of_splitOn {c d : Char} (h : d ∈ t) : d = c ∨ ∃ p ∈ t.splitOn c, d ∈ p := by
  have hjoin : [c].intercalate (t.splitOn c) = t := List.intercalate_splitOn c
  rw [← hjoin] at h
  rcases mem_of_mem_intercalate h with h | h
  · exact Or.inl (List.mem_singleton.mp h)
  · exact Or.inr h

end

/-! ### IPv4 -/

section
variable {t : Text} {a : BitVec 32}

theorem parseOctet_spec {octet : Text} {n : ℕ} (h : parseOctet octet = some n) :
    octet ≠ [] ∧ ∀ c ∈ octet, (hexValue c).isSome := by
  unfold parseOctet at h
  split_ifs at h
  obtain ⟨hn, -⟩ := Option.filter_eq_some_iff.mp h
  obtain ⟨hnil, hchars, -⟩ := readBase_spec hn
  exact ⟨hnil, hchars⟩

theorem ipv4Address_spec (h : ipv4Address t = some a) :
    7 ≤ t.length ∧ ∀ c ∈ t, c = '.' ∨ (hexValue c).isSome := by
  unfold ipv4Address at h
  dsimp only at h
  split_ifs at h with hlen
  obtain ⟨ns, hns, -⟩ := Option.map_eq_some_iff.mp h
  have hparts : ∀ p ∈ t.splitOn '.', p ≠ [] ∧ ∀ c ∈ p, (hexValue c).isSome := by
    intro p hp
    obtain ⟨n, -, hn⟩ := (mem_mapM_some hns).2.1 p hp
    exact parseOctet_spec hn
  constructor
  · have hle := le_sum_of_parts (k := 1) fun p hp => List.length_pos_iff.mpr (hparts p hp).1
    rw [length_splitOn] at hle
    omega
  · intro c hc
    rcases mem_of_splitOn hc with hdot | ⟨p, hp, hc⟩
    · exact Or.inl hdot
    · exact Or.inr ((hparts p hp).2 c hc)

end

/-! ### IPv6 -/

section
variable {parts : List Text} {ns : List ℕ}

theorem parseHextet_spec {p : Text} {n : ℕ} (h : parseHextet p = some n) :
    n < 65536 ∧ n < 16 ^ p.length ∧ ∀ c ∈ p, (hexValue c).isSome := by
  unfold parseHextet at h
  split_ifs at h with hlen
  obtain ⟨-, hchars, hbound⟩ := readBase_spec h
  refine ⟨hbound.trans_le ?_, hbound, hchars⟩
  calc 16 ^ p.length ≤ 16 ^ 4 := Nat.pow_le_pow_right (by omega) (by omega)
    _ = 65536 := by norm_num

/-- **The groups of an address**: there are eight, the parts have no other characters than digits, and there is a group
of zeros or each of eight parts is a group. -/
theorem expandParts_spec (h : expandParts parts = some ns) : ns.length = 8 ∧ (∀ n ∈ ns, n < 65536) ∧
    (∀ p ∈ parts, ∀ c ∈ p, (hexValue c).isSome) ∧
      (0 ∈ ns ∨ parts.length = 8 ∧ ∀ p ∈ parts, ∃ n ∈ ns, parseHextet p = some n) := by
  have hlt : ∀ {ps : List Text} {ms : List ℕ}, ps.mapM parseHextet = some ms → ∀ m ∈ ms, m < 65536 := by
    intro ps ms hms m hm
    obtain ⟨p, -, hp⟩ := (mem_mapM_some hms).2.2 m hm
    exact (parseHextet_spec hp).1
  have hchars : ∀ {ps : List Text} {ms : List ℕ}, ps.mapM parseHextet = some ms →
      ∀ p ∈ ps, ∀ c ∈ p, (hexValue c).isSome := by
    intro ps ms hms p hp
    obtain ⟨m, -, hm⟩ := (mem_mapM_some hms).2.1 p hp
    exact (parseHextet_spec hm).2.2
  unfold expandParts at h
  by_cases hnine : 9 < parts.length
  · rw [if_pos hnine] at h
    cases h
  rw [if_neg hnine] at h
  split at h
  · by_cases hlen : parts.length = 8
    · rw [if_neg (not_not.mpr hlen)] at h
      obtain ⟨hcount, hleft, -⟩ := mem_mapM_some h
      exact ⟨hcount.trans hlen, hlt h, hchars h, Or.inr ⟨hlen, hleft⟩⟩
    · rw [if_pos hlen] at h
      cases h
  · rename_i skip hskip
    have hmem : skip ∈ skipIndices parts := hskip ▸ List.mem_singleton_self skip
    obtain ⟨hrange, hempty⟩ := List.mem_filter.mp hmem
    have hrange : skip < parts.length - 1 := List.mem_range.mp hrange
    obtain ⟨hpos, hempty⟩ : 0 < skip ∧ parts[skip]? = some [] := by simpa using hempty
    dsimp only at h
    obtain ⟨hi, hhi⟩ : ∃ hi, hi = if parts.headD [] = [] then skip - 1 else skip := ⟨_, rfl⟩
    obtain ⟨lo, hlo⟩ : ∃ lo, lo = if parts.getLastD [] = [] then parts.length - skip - 2
        else parts.length - skip - 1 := ⟨_, rfl⟩
    rw [← hhi, ← hlo] at h
    by_cases hbad : (parts.headD [] = [] ∧ hi ≠ 0) ∨ (parts.getLastD [] = [] ∧ lo ≠ 0) ∨ 8 ≤ hi + lo
    · rw [if_pos hbad] at h
      cases h
    rw [if_neg hbad] at h
    obtain ⟨his, hhis, h⟩ := Option.bind_eq_some_iff.mp h
    obtain ⟨los, hlos, h⟩ := Option.bind_eq_some_iff.mp h
    obtain rfl := Option.some.inj h
    have hhead : parts.headD [] = [] → skip = 1 := by
      intro hfirst
      rw [if_pos hfirst] at hhi
      by_contra hne
      exact hbad (Or.inl ⟨hfirst, by omega⟩)
    have hlast : parts.getLastD [] = [] → skip + 2 = parts.length := by
      intro hend
      rw [if_pos hend] at hlo
      by_contra hne
      exact hbad (Or.inr (Or.inl ⟨hend, by omega⟩))
    have hsum : hi + lo < 8 := by
      by_contra hge
      exact hbad (Or.inr (Or.inr (by omega)))
    have hhile : hi ≤ skip := by
      rw [hhi]
      split_ifs <;> omega
    have hlole : lo ≤ parts.length - skip - 1 := by
      rw [hlo]
      split_ifs <;> omega
    refine ⟨?_, ?_, ?_, Or.inl ?_⟩
    · have hcount := (mem_mapM_some hhis).1
      have hcount' := (mem_mapM_some hlos).1
      rw [List.length_take] at hcount
      rw [List.length_drop] at hcount'
      simp only [List.length_append, List.length_replicate]
      omega
    · intro n hn
      rcases List.mem_append.mp hn with hn | hn
      · rcases List.mem_append.mp hn with hn | hn
        · exact hlt hhis n hn
        · rw [List.eq_of_mem_replicate hn]
          omega
      · exact hlt hlos n hn
    · intro p hp
      obtain ⟨i, hi', rfl⟩ := List.mem_iff_getElem.mp hp
      by_cases hfront : i < hi
      · exact hchars hhis _ (List.mem_take_iff_getElem.mpr ⟨i, by omega, rfl⟩)
      by_cases hback : parts.length - lo ≤ i
      · exact hchars hlos _ (List.mem_drop_iff_getElem.mpr ⟨i - (parts.length - lo), by omega, by congr 1; omega⟩)
      -- what is left out has no characters
      have hnil : parts[i] = [] := by
        rcases lt_trichotomy i skip with hlt' | rfl | hgt
        · by_cases hfirst : parts.headD [] = []
          · have hzero : i = 0 := by
              have hone := hhead hfirst
              omega
            rw [List.headD_eq_head?_getD, List.head?_eq_getElem?, ← hzero, List.getElem?_eq_getElem hi',
              Option.getD_some] at hfirst
            exact hfirst
          · rw [if_neg hfirst] at hhi
            omega
        · rw [List.getElem?_eq_getElem hi'] at hempty
          exact Option.some.inj hempty
        · by_cases hend : parts.getLastD [] = []
          · have hpred : i = parts.length - 1 := by
              have htwo := hlast hend
              omega
            rw [List.getLastD_eq_getLast?, List.getLast?_eq_getElem?, ← hpred, List.getElem?_eq_getElem hi',
              Option.getD_some] at hend
            exact hend
          · rw [if_neg hend] at hlo
            omega
      rw [hnil]
      exact fun c hc => absurd hc List.not_mem_nil
    · refine List.mem_append_left _ (List.mem_append_right _ ?_)
      exact List.mem_replicate.mpr ⟨by omega, rfl⟩
  · cases h

/-- The groups are packed one after the other. -/
theorem packUint_joinDigits (hns : ∀ n ∈ ns, n < 65536) :
    packUint (2 * ns.length) (joinDigits 65536 ns) = ns.flatMap (packUint 2) := by
  induction ns using List.reverseRecOn with
  | nil => rfl
  | append_singleton ns n ih =>
    have hn : n < 256 ^ 2 := hns n (by simp)
    have hjoin : joinDigits 65536 (ns ++ [n]) = joinDigits 65536 ns * 256 ^ 2 + n := by
      unfold joinDigits
      rw [List.foldl_append, List.foldl_cons, List.foldl_nil]
      omega
    have hlen : 2 * (ns ++ [n]).length = 2 * ns.length + 2 := by
      rw [List.length_append, List.length_singleton]
      omega
    rw [hjoin, hlen, packUint_append hn, ih fun m hm => hns m (by simp [hm]), List.flatMap_append]
    simp

theorem joinDigits_lt (hns : ∀ n ∈ ns, n < 65536) : joinDigits 65536 ns < 65536 ^ ns.length := by
  induction ns using List.reverseRecOn with
  | nil => exact Nat.one_pos
  | append_singleton ns n ih =>
    have hn : n < 65536 := hns n (by simp)
    have hlt := ih fun m hm => hns m (by simp [hm])
    have hjoin : joinDigits 65536 (ns ++ [n]) = 65536 * joinDigits 65536 ns + n := by
      unfold joinDigits
      rw [List.foldl_append, List.foldl_cons, List.foldl_nil]
    rw [hjoin, List.length_append, List.length_singleton, pow_succ]
    omega

/-- An octet that is not zero is the higher one of a group of three digits at least. -/
theorem le_of_zero_notMem {n : ℕ} (hn : n < 65536) (h : 0 ∉ packUint 2 n) : 256 ≤ n := by
  by_contra hlt
  refine h ?_
  have hzero : n / 256 ^ (2 - 1 - 0) = 0 := by omega
  unfold packUint
  refine List.mem_map.mpr ⟨0, by simp, ?_⟩
  rw [hzero]
  rfl

variable {t : Text} {a : BitVec 128}

theorem splitParts_spec (h : splitParts t = some parts) :
    (parts = t.splitOn ':' ∨ ∃ last x y b, t.splitOn ':' = (t.splitOn ':').dropLast ++ [last] ∧
      parts = (t.splitOn ':').dropLast ++ [x, y] ∧ ipv4Address last = some b) := by
  unfold splitParts at h
  dsimp only at h
  split_ifs at h with hlen hdot
  · obtain ⟨b, hb, rfl⟩ := Option.map_eq_some_iff.mp h
    refine Or.inr ⟨_, _, _, b, ?_, rfl, hb⟩
    have hne := List.splitOn_ne_nil ':' t
    rw [List.getLastD_eq_getLast?, List.getLast?_eq_some_getLast hne, Option.getD_some]
    exact (List.dropLast_append_getLast hne).symm
  · exact Or.inl (Option.some.inj h).symm

/-- **An IPv6 address** has no character with code zero, and more than sixteen characters if none of the bytes it is
packed to is zero. -/
theorem ipv6Address_spec (h : ipv6Address t = some a) : (∀ c ∈ t, c ≠ Char.ofNat 0) ∧
    (0 ∉ packUint 16 a.toNat → 16 < t.length) := by
  unfold ipv6Address at h
  obtain ⟨ns, hns, rfl⟩ := Option.map_eq_some_iff.mp h
  obtain ⟨parts, hparts, hns⟩ := Option.bind_eq_some_iff.mp hns
  obtain ⟨hcount, hlt, hchars, hgroups⟩ := expandParts_spec hns
  have hhex : ∀ c : Char, (hexValue c).isSome → c ≠ Char.ofNat 0 := by
    rintro c hc rfl
    exact absurd hc (by decide)
  constructor
  · intro c hc
    rcases mem_of_splitOn (c := ':') hc with rfl | ⟨p, hp, hc⟩
    · decide
    rcases splitParts_spec hparts with rfl | ⟨last, x, y, b, hsplit, rfl, hb⟩
    · exact hhex c (hchars p hp c hc)
    · rw [hsplit] at hp
      rcases List.mem_append.mp hp with hp | hp
      · exact hhex c (hchars p (List.mem_append_left _ hp) c hc)
      · obtain rfl := List.mem_singleton.mp hp
        rcases (ipv4Address_spec hb).2 c hc with rfl | hc
        · decide
        · exact hhex c hc
  · intro hzero
    have hmod : joinDigits 65536 ns % 2 ^ 128 = joinDigits 65536 ns := by
      have hbound := joinDigits_lt hlt
      rw [hcount] at hbound
      exact Nat.mod_eq_of_lt (by omega)
    have hpacked : packUint 16 (BitVec.ofNat 128 (joinDigits 65536 ns)).toNat = ns.flatMap (packUint 2) := by
      rw [BitVec.toNat_ofNat, hmod, ← packUint_joinDigits hlt, hcount]
    rw [hpacked] at hzero
    have hlarge : ∀ n ∈ ns, 256 ≤ n := fun n hn =>
      le_of_zero_notMem (hlt n hn) fun hmem => hzero (List.mem_flatMap.mpr ⟨n, hn, hmem⟩)
    obtain ⟨height, hall⟩ := hgroups.resolve_left fun hmem => absurd (hlarge 0 hmem) (by omega)
    -- each group is written with two digits at least
    have htwo : ∀ p ∈ parts, 2 ≤ p.length := by
      intro p hp
      obtain ⟨n, hn, hpn⟩ := hall p hp
      have hbound := (parseHextet_spec hpn).2.1
      have hge := hlarge n hn
      by_contra hshort
      have hpow : 16 ^ p.length ≤ 16 ^ 1 := Nat.pow_le_pow_right (by omega) (by omega)
      omega
    rcases splitParts_spec hparts with rfl | ⟨last, x, y, b, hsplit, rfl, hb⟩
    · have hle := le_sum_of_parts htwo
      rw [length_splitOn] at hle
      omega
    · have hlast : 7 ≤ last.length := (ipv4Address_spec hb).1
      have hle := le_sum_of_parts fun p hp => htwo p (List.mem_append_left _ hp)
      have hlen := length_splitOn ':' t
      rw [hsplit, List.map_append, List.sum_append, List.map_singleton, List.sum_singleton] at hlen
      rw [List.length_append] at height
      simp only [List.length_cons, List.length_nil] at height
      omega

end

end HexDns.Svcb.AddressTexts
