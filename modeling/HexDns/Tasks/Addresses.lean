import HexDns.Base.Codecs
import HexDns.Models.Names

/-! # The texts of addresses

The lines of a zone file have `str` of addresses. `readIpv4` and `readIpv6` are what a server reads
there: the numbers between the dots or the colons, with zeros for the groups that the IPv6 text leaves
out. -/

namespace HexDns.Tasks.Addresses

open HexDns.Lib.Texts HexDns.Base.Codecs HexDns.Models.Names

/-! ### Numbers -/

/-- A number in digits of a base up to sixteen. -/
def readBase (b : ℕ) (t : Text) : Option ℕ :=
  if t = [] then none
  else t.foldlM (fun n c => (hexValue c).bind fun d => if d < b then some (b * n + d) else none) 0

/-- The number with these digits. -/
def joinDigits (b : ℕ) (ds : List ℕ) : ℕ := ds.foldl (fun n d => b * n + d) 0

theorem hexValue_digitChar : ∀ d < 16, hexValue (Nat.digitChar d) = some d := by decide

theorem readBase_toDigits {b : ℕ} (hb : 1 < b) (hb' : b ≤ 16) (n : ℕ) :
    readBase b (Nat.toDigits b n) = some n := by
  unfold readBase
  rw [if_neg Nat.toDigits_ne_nil]
  induction n using Nat.strongRecOn with
  | ind n ih =>
    have hlast : ∀ m d : ℕ, d < b → List.foldlM (fun n c => (hexValue c).bind fun d =>
        if d < b then some (b * n + d) else none) m [Nat.digitChar d] = some (b * m + d) := by
      intro m d hd
      simp [hexValue_digitChar d (by omega), hd]
    rw [Nat.toDigits_eq_if hb]
    split_ifs with hn
    · rw [hlast 0 n hn, Nat.mul_zero, Nat.zero_add]
    · have hlt : n / b < n := Nat.div_lt_self (by omega) hb
      rw [List.foldlM_append, ih (n / b) hlt]
      show List.foldlM _ (n / b) _ = _
      rw [hlast (n / b) (n % b) (Nat.mod_lt _ (by omega)), Nat.div_add_mod]

theorem joinDigits_range {b : ℕ} (k n : ℕ) :
    joinDigits b ((List.range k).map fun i => n / b ^ (k - 1 - i) % b) = n % b ^ k := by
  induction k generalizing n with
  | zero => simp [joinDigits, Nat.mod_one]
  | succ k ih =>
    have hinit : (List.range k).map (fun i => n / b ^ (k + 1 - 1 - i) % b) =
        (List.range k).map fun i => n / b / b ^ (k - 1 - i) % b := by
      refine List.map_congr_left fun i hi => ?_
      have hi : i < k := List.mem_range.mp hi
      have hexp : k + 1 - 1 - i = (k - 1 - i) + 1 := by omega
      rw [hexp, pow_succ', Nat.div_div_eq_div_mul]
    have hlast : n / b ^ (k + 1 - 1 - k) % b = n % b := by simp
    unfold joinDigits at ih ⊢
    rw [List.range_succ, List.map_append, List.foldl_append, hinit, ih (n / b), List.map_singleton,
      List.foldl_cons, List.foldl_nil, hlast, pow_succ', Nat.mod_mul]
    omega

/-! ### IPv4 -/

def readIpv4 (t : Text) : Option (BitVec 32) :=
  ((t.splitOn '.').mapM (readBase 10)).bind fun ns =>
    if ns.length = 4 ∧ ∀ n ∈ ns, n < 256 then some (BitVec.ofNat 32 (joinDigits 256 ns)) else none

theorem mapM_readBase {b : ℕ} (hb : 1 < b) (hb' : b ≤ 16) (ns : List ℕ) :
    (ns.map (Nat.toDigits b)).mapM (readBase b) = some ns := by
  induction ns with
  | nil => rfl
  | cons n ns ih =>
    rw [List.map_cons, List.mapM_cons, readBase_toDigits hb hb', ih]
    rfl

theorem hexValue_ne_none {b : ℕ} (hb : 1 < b) (hb' : b ≤ 16) (n : ℕ) :
    ∀ c ∈ Nat.toDigits b n, hexValue c ≠ none := by
  induction n using Nat.strongRecOn with
  | ind n ih =>
    rw [Nat.toDigits_eq_if hb]
    split_ifs with hn
    · intro c hc
      rw [List.mem_singleton.mp hc, hexValue_digitChar n (by omega)]
      exact Option.some_ne_none _
    · intro c hc
      have hmod : n % b < b := Nat.mod_lt _ (by omega)
      rcases List.mem_append.mp hc with hc | hc
      · exact ih (n / b) (Nat.div_lt_self (by omega) hb) c hc
      · rw [List.mem_singleton.mp hc, hexValue_digitChar (n % b) (by omega)]
        exact Option.some_ne_none _

/-- **The text of an IPv4 address** is read as the address. -/
theorem readIpv4_ipv4Text (a : BitVec 32) : readIpv4 (ipv4Text a) = some a := by
  let ns := (List.range 4).map fun i => a.toNat / 256 ^ (3 - i) % 256
  have htext : ipv4Text a = ['.'].intercalate (ns.map (Nat.toDigits 10)) := by
    unfold ipv4Text
    rw [List.map_map]
    rfl
  have hsplit : (ipv4Text a).splitOn '.' = ns.map (Nat.toDigits 10) := by
    rw [htext]
    refine List.splitOn_intercalate _ (fun t ht hdot => ?_) (by simp [ns])
    obtain ⟨n, -, rfl⟩ := List.mem_map.mp ht
    exact hexValue_ne_none (by decide) (by decide) n '.' hdot (by decide)
  have hlt : ∀ n ∈ ns, n < 256 := by
    intro n hn
    obtain ⟨i, -, rfl⟩ := List.mem_map.mp hn
    exact Nat.mod_lt _ (by decide)
  have hjoin : joinDigits 256 ns = a.toNat := by
    have hmod : joinDigits 256 ns = a.toNat % 256 ^ 4 := joinDigits_range 4 a.toNat
    have hlt : a.toNat < 2 ^ 32 := a.isLt
    omega
  unfold readIpv4
  rw [hsplit, mapM_readBase (by decide) (by decide), Option.bind_some, if_pos ⟨by simp [ns], hlt⟩, hjoin,
    BitVec.ofNat_toNat, BitVec.setWidth_eq]

/-! ### IPv6 -/

/-- The eight groups of a text; an empty one between others or two at an end are the zeros that are
left out. -/
def expandHextets (groups : List Text) : Option (List ℕ) :=
  if [] ∈ groups then
    let before := groups.takeWhile (· ≠ [])
    let after := (groups.reverse.takeWhile (· ≠ [])).reverse
    if groups = (if before = [] then [[]] else []) ++ before ++ [[]] ++ after ++
        (if after = [] then [[]] else []) then do
      let before ← before.mapM (readBase 16)
      let after ← after.mapM (readBase 16)
      return before ++ List.replicate (8 - before.length - after.length) 0 ++ after
    else none
  else groups.mapM (readBase 16)

def readIpv6 (t : Text) : Option (BitVec 128) :=
  (expandHextets (t.splitOn ':')).bind fun ns =>
    if ns.length = 8 ∧ ∀ n ∈ ns, n < 65536 then some (BitVec.ofNat 128 (joinDigits 65536 ns)) else none

/-- The longest run is one. -/
theorem longestZeros_run (hextets : List ℕ) : (longestZeros hextets).2 = 0 ∨
    (longestZeros hextets).2 =
      ((hextets.drop (longestZeros hextets).1).takeWhile (· = 0)).length := by
  unfold longestZeros
  generalize hruns : ((List.range hextets.length).map fun i =>
    (i, ((hextets.drop i).takeWhile (· = 0)).length)) = runs
  have hall : ∀ run ∈ runs, run.2 = ((hextets.drop run.1).takeWhile (· = 0)).length := by
    intro run hrun
    rw [← hruns] at hrun
    obtain ⟨i, -, rfl⟩ := List.mem_map.mp hrun
    rfl
  clear hruns
  have hbest : ∀ best : ℕ × ℕ, (best.2 = 0 ∨
      best.2 = ((hextets.drop best.1).takeWhile (· = 0)).length) →
      (runs.foldl (fun best run => if best.2 < run.2 then run else best) best).2 = 0 ∨
      (runs.foldl (fun best run => if best.2 < run.2 then run else best) best).2 =
        ((hextets.drop (runs.foldl (fun best run => if best.2 < run.2 then run else best) best).1).takeWhile
          (· = 0)).length := by
    induction runs with
    | nil => exact fun best hbest => hbest
    | cons run runs ih =>
      intro best hbest
      rw [List.foldl_cons]
      refine ih (fun run hrun => hall run (List.mem_cons_of_mem _ hrun)) _ ?_
      split_ifs
      · exact Or.inr (hall run List.mem_cons_self)
      · exact hbest
  exact hbest (0, 0) (Or.inl rfl)

/-- Zeros are left out of the groups, and nothing else. -/
theorem take_longestZeros (hextets : List ℕ) {start len : ℕ} (h : longestZeros hextets = (start, len))
    (hlen : 0 < len) : start + len ≤ hextets.length ∧
      hextets = hextets.take start ++ List.replicate len 0 ++ hextets.drop (start + len) := by
  have hrun : len = ((hextets.drop start).takeWhile (· = 0)).length := by
    have hor := longestZeros_run hextets
    rw [h] at hor
    exact hor.resolve_left (by show len ≠ 0; omega)
  have hprefix : (hextets.drop start).takeWhile (· = 0) <+: hextets.drop start :=
    List.takeWhile_prefix _
  have hzeros : (hextets.drop start).takeWhile (· = 0) = List.replicate len 0 := by
    refine List.eq_replicate_iff.mpr ⟨hrun.symm, fun n hn => ?_⟩
    simpa using List.mem_takeWhile_imp hn
  have hle : start + len ≤ hextets.length := by
    have hle := hprefix.length_le
    rw [← hrun, List.length_drop] at hle
    omega
  refine ⟨hle, ?_⟩
  have hdrop : hextets.drop start = List.replicate len 0 ++ hextets.drop (start + len) := by
    obtain ⟨rest, hrest⟩ := hprefix
    have htail : rest = (hextets.drop start).drop len := by
      rw [← hrest, hrun, List.drop_left]
    rw [← hrest, hzeros, htail, List.drop_drop]
  rw [List.append_assoc, ← hdrop, List.take_append_drop]

theorem mem_compressHextets {hextets : List ℕ} {t : Text} (ht : t ∈ compressHextets hextets) :
    t = [] ∨ ∃ n, t = Nat.toDigits 16 n := by
  have htexts : ∀ t ∈ hextets.map (Nat.toDigits 16), ∃ n, t = Nat.toDigits 16 n := by
    intro t ht
    obtain ⟨n, -, rfl⟩ := List.mem_map.mp ht
    exact ⟨n, rfl⟩
  unfold compressHextets at ht
  dsimp only at ht
  by_cases hlen : 1 < (longestZeros hextets).2
  · rw [if_pos hlen] at ht
    simp only [List.mem_append] at ht
    rcases ht with (((ht | ht) | ht) | ht) | ht
    · split_ifs at ht
      · exact Or.inl (List.mem_singleton.mp ht)
      · cases ht
    · exact Or.inr (htexts t (List.mem_of_mem_take ht))
    · exact Or.inl (List.mem_singleton.mp ht)
    · exact Or.inr (htexts t (List.mem_of_mem_drop ht))
    · split_ifs at ht
      · exact Or.inl (List.mem_singleton.mp ht)
      · cases ht
  · rw [if_neg hlen] at ht
    exact Or.inr (htexts t ht)

theorem compressHextets_ne_nil {hextets : List ℕ} (h : hextets ≠ []) : compressHextets hextets ≠ [] := by
  unfold compressHextets
  dsimp only
  split_ifs <;> simp [h]

theorem takeWhile_groups {before after : List Text} (h : ∀ t ∈ before, t ≠ []) :
    (before ++ [] :: after).takeWhile (· ≠ []) = before := by
  rw [List.takeWhile_append_of_pos fun t ht => by simpa using h t ht]
  simp

/-- The groups that are written before and after the zeros. -/
theorem expand_groups {ns ms : List ℕ} {l r : List Text} (hl : l = if ns = [] then [[]] else [])
    (hr : r = if ms = [] then [[]] else []) :
    expandHextets (l ++ ns.map (Nat.toDigits 16) ++ [[]] ++ ms.map (Nat.toDigits 16) ++ r) =
      some (ns ++ List.replicate (8 - ns.length - ms.length) 0 ++ ms) := by
  have hne : ∀ ns : List ℕ, ∀ t ∈ ns.map (Nat.toDigits 16), t ≠ [] := by
    intro ns t ht
    obtain ⟨n, -, rfl⟩ := List.mem_map.mp ht
    exact Nat.toDigits_ne_nil
  have hbefore : (l ++ ns.map (Nat.toDigits 16) ++ [[]] ++ ms.map (Nat.toDigits 16) ++ r).takeWhile
      (· ≠ []) = ns.map (Nat.toDigits 16) := by
    by_cases hns : ns = []
    · rw [hl, if_pos hns, hns]
      rfl
    · rw [hl, if_neg hns]
      simp only [List.nil_append, List.append_assoc, List.singleton_append]
      exact takeWhile_groups (hne ns)
  have hafter : ((l ++ ns.map (Nat.toDigits 16) ++ [[]] ++ ms.map (Nat.toDigits 16) ++ r).reverse.takeWhile
      (· ≠ [])).reverse = ms.map (Nat.toDigits 16) := by
    by_cases hms : ms = []
    · rw [hr, if_pos hms, hms]
      simp
    · rw [hr, if_neg hms]
      simp only [List.append_nil, List.reverse_append, List.reverse_singleton, List.singleton_append]
      rw [takeWhile_groups fun t ht => hne ms t (List.mem_reverse.mp ht), List.reverse_reverse]
  have hnil : ∀ ns : List ℕ, ns.map (Nat.toDigits 16) = [] ↔ ns = [] := fun ns => List.map_eq_nil_iff
  unfold expandHextets
  dsimp only
  rw [if_pos (by simp), hbefore, hafter, if_pos (by simp only [hnil, hl, hr]),
    mapM_readBase (by decide) (by decide), mapM_readBase (by decide) (by decide)]
  rfl

theorem expand_compress {hextets : List ℕ} (h8 : hextets.length = 8) :
    expandHextets (compressHextets hextets) = some hextets := by
  unfold compressHextets
  rcases hrun : longestZeros hextets with ⟨start, len⟩
  dsimp only
  by_cases hlen : 1 < len
  · rw [if_pos hlen]
    obtain ⟨hle, heq⟩ := take_longestZeros hextets hrun (by omega)
    have hl : (if start = 0 then [[]] else [] : List Text) =
        if hextets.take start = [] then [[]] else [] := by
      congr 1
      rw [List.take_eq_nil_iff]
      have : hextets ≠ [] := by
        rintro rfl
        cases h8
      simp [this]
    have hr : (if start + len = hextets.length then [[]] else [] : List Text) =
        if hextets.drop (start + len) = [] then [[]] else [] := by
      congr 1
      rw [List.drop_eq_nil_iff]
      exact propext ⟨fun h => by omega, fun h => by omega⟩
    rw [← List.map_take, ← List.map_drop, expand_groups hl hr]
    congr 1
    have hcount : 8 - (hextets.take start).length - (hextets.drop (start + len)).length = len := by
      rw [List.length_take, List.length_drop]
      omega
    rw [hcount]
    exact heq.symm
  · rw [if_neg hlen]
    unfold expandHextets
    rw [if_neg ?_, mapM_readBase (by decide) (by decide)]
    intro hmem
    obtain ⟨n, -, hn⟩ := List.mem_map.mp hmem
    exact Nat.toDigits_ne_nil hn

/-- **The text of an IPv6 address** is read as the address. -/
theorem readIpv6_ipv6Text (a : BitVec 128) : readIpv6 (ipv6Text a) = some a := by
  let ns := (List.range 8).map fun i => a.toNat / 65536 ^ (7 - i) % 65536
  have hlt : ∀ n ∈ ns, n < 65536 := by
    intro n hn
    obtain ⟨i, -, rfl⟩ := List.mem_map.mp hn
    exact Nat.mod_lt _ (by decide)
  have hjoin : joinDigits 65536 ns = a.toNat := by
    have hmod : joinDigits 65536 ns = a.toNat % 65536 ^ 8 := joinDigits_range 8 a.toNat
    have hlt : a.toNat < 2 ^ 128 := a.isLt
    omega
  have hsplit : (ipv6Text a).splitOn ':' = compressHextets ns := by
    refine List.splitOn_intercalate _ (fun t ht hcolon => ?_) (compressHextets_ne_nil (by simp))
    rcases mem_compressHextets ht with rfl | ⟨n, rfl⟩
    · cases hcolon
    · exact hexValue_ne_none (by decide) (by decide) n ':' hcolon (by decide)
  unfold readIpv6
  rw [hsplit, expand_compress (by simp [ns]), Option.bind_some, if_pos ⟨by simp [ns], hlt⟩, hjoin,
    BitVec.ofNat_toNat, BitVec.setWidth_eq]

end HexDns.Tasks.Addresses
