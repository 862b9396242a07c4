import HexDns.Svcb.Params
import HexDns.Models.Wire
import Mathlib.Algebra.BigOperators.Group.List.Basic
import Mathlib.Data.List.Sort

/-! # What is packed

A parameter is packed if its key, each number in it and the length of its data have 16 bits
(`SvcbParam.Fits`), and a list is if each parameter is (`packParams_iff`). The length of what is packed is
known before (`length_packParams`). -/

namespace HexDns.Svcb.Packing

open HexDns.Lib.Texts HexDns.Lib.Programs HexDns.Base.Py HexDns.Base.Codecs HexDns.Models.Wire
  HexDns.Svcb.Decode HexDns.Svcb.Params

/-! ### Data -/

/-- The number of octets of the data on the wire. -/
def size : ParamData → ℕ
  | .null => 0
  | .octet data => data.length
  | .integer _ => 2
  | .mandatory params => 2 * params.length
  | .alpn alpns => (alpns.map fun v => v.length + 1).sum
  | .ipv4 addrs => 4 * addrs.length
  | .ipv6 addrs => 16 * addrs.length

/-- The numbers of the data have their sixteen bits, and the names of a list their eight. -/
def InRange : ParamData → Prop
  | .integer data => data ≤ 65535
  | .mandatory params => ∀ k ∈ params, 0 ≤ k ∧ k ≤ 65535
  | .alpn alpns => ∀ v ∈ alpns, v.length ≤ 255
  | _ => True

/-- The parameter can be packed. -/
def Fits (p : SvcbParam) : Prop := InRange p.data ∧ size p.data ≤ 65535 ∧ 0 ≤ p.key ∧ p.key ≤ 65535

theorem packShort_iff {n : ℤ} : (∃ b, packShort n = .ok b) ↔ 0 ≤ n ∧ n ≤ 65535 := by
  unfold packShort
  split_ifs with h
  · exact iff_of_true ⟨_, rfl⟩ h
  · exact iff_of_false (fun ⟨b, hb⟩ => by cases hb) h

theorem length_packShort {n : ℤ} {b : Bytes} (h : packShort n = .ok b) : b.length = 2 := by
  unfold packShort at h
  split_ifs at h
  obtain rfl := Except.ok.inj h
  exact length_packUint 2 _

theorem packCounted_iff {p : Bytes} : (∃ b, packCounted p = .ok b) ↔ p.length ≤ 255 := by
  unfold packCounted
  split_ifs with h
  · exact iff_of_true ⟨_, rfl⟩ h
  · exact iff_of_false (fun ⟨b, hb⟩ => by cases hb) h

theorem length_packCounted {p b : Bytes} (h : packCounted p = .ok b) : b.length = p.length + 1 := by
  unfold packCounted at h
  split_ifs at h
  obtain rfl := Except.ok.inj h
  rfl

section
variable {α : Type} {pack : α → Except PyErr Bytes} {l : List α}

/-- Parts that are packed one after the other. -/
theorem packAll_iff : (∃ b, (l.mapM pack).map List.flatten = .ok b) ↔ ∀ a ∈ l, ∃ b, pack a = .ok b := by
  constructor
  · rintro ⟨b, hb⟩ a ha
    obtain ⟨parts, hparts, -⟩ := exists_of_map_ok hb
    obtain ⟨part, -, hpart⟩ := (mem_mapM hparts).2 a ha
    exact ⟨part, hpart⟩
  · intro h
    obtain ⟨parts, hparts, -⟩ := exists_mapM (P := fun _ => True) fun a ha => (h a ha).imp fun _ hb => ⟨hb, trivial⟩
    exact ⟨parts.flatten, by rw [hparts]; rfl⟩

theorem length_packAll {f : α → ℕ} (hlen : ∀ a ∈ l, ∀ b, pack a = .ok b → b.length = f a) {b : Bytes}
    (h : (l.mapM pack).map List.flatten = .ok b) : b.length = (l.map f).sum := by
  obtain ⟨parts, hparts, rfl⟩ := exists_of_map_ok h
  clear h
  induction l generalizing parts with
  | nil =>
    obtain rfl := Except.ok.inj hparts
    rfl
  | cons a l ih =>
    rw [List.mapM_cons] at hparts
    obtain ⟨part, hpart, hparts⟩ := bind_eq_ok.mp hparts
    obtain ⟨parts', hparts', hcons⟩ := bind_eq_ok.mp hparts
    obtain rfl := Except.ok.inj hcons
    rw [List.flatten_cons, List.length_append, List.map_cons, List.sum_cons,
      hlen a List.mem_cons_self part hpart, ih (fun a' ha' => hlen a' (List.mem_cons_of_mem a ha')) _ hparts']

end

theorem packData_iff {d : ParamData} : (∃ b, d.pack = .ok b) ↔ InRange d := by
  rcases d with _ | data | n | ks | vs | as | as
  · exact iff_of_true ⟨_, rfl⟩ trivial
  · exact iff_of_true ⟨_, rfl⟩ trivial
  · refine packShort_iff.trans ?_
    show _ ↔ n ≤ 65535
    omega
  · exact packAll_iff.trans (forall₂_congr fun _ _ => packShort_iff)
  · exact packAll_iff.trans (forall₂_congr fun _ _ => packCounted_iff)
  · exact iff_of_true ⟨_, rfl⟩ trivial
  · exact iff_of_true ⟨_, rfl⟩ trivial

theorem length_flatMap_packUint {n w : ℕ} (as : List (BitVec w)) :
    (as.flatMap fun a => packUint n a.toNat).length = n * as.length := by
  induction as with
  | nil => rfl
  | cons a as ih =>
    rw [List.flatMap_cons, List.length_append, ih, length_packUint, List.length_cons, Nat.mul_succ, Nat.add_comm]

theorem length_packData {d : ParamData} {b : Bytes} (h : d.pack = .ok b) : b.length = size d := by
  rcases d with _ | data | n | ks | vs | as | as
  · obtain rfl := Except.ok.inj h
    rfl
  · obtain rfl := Except.ok.inj h
    rfl
  · exact length_packShort h
  · rw [length_packAll (f := fun _ => 2) (fun _ _ _ hk => length_packShort hk) h, List.map_const',
      List.sum_replicate_nat, Nat.mul_comm]
    rfl
  · exact length_packAll (fun _ _ _ hv => length_packCounted hv) h
  · obtain rfl := Except.ok.inj h
    exact length_flatMap_packUint as
  · obtain rfl := Except.ok.inj h
    exact length_flatMap_packUint as

/-! ### Parameters -/

theorem packParam_eq_ok {p : SvcbParam} {b : Bytes} : p.pack = .ok b ↔
    ∃ data key length, p.data.pack = .ok data ∧ data.length ≤ 65535 ∧ packShort p.key = .ok key ∧
      packShort data.length = .ok length ∧ b = key ++ length ++ data := by
  unfold SvcbParam.pack
  rw [bind_eq_ok]
  constructor
  · rintro ⟨data, hdata, h⟩
    split_ifs at h with hlen
    obtain ⟨key, hkey, h⟩ := bind_eq_ok.mp h
    obtain ⟨length, hlength, h⟩ := bind_eq_ok.mp h
    exact ⟨data, key, length, hdata, not_lt.mp hlen, hkey, hlength, (Except.ok.inj h).symm⟩
  · rintro ⟨data, key, length, hdata, hlen, hkey, hlength, rfl⟩
    refine ⟨data, hdata, ?_⟩
    rw [if_neg (not_lt.mpr hlen), hkey, hlength]
    rfl

/-- **A parameter is packed** if it fits, and only then. -/
theorem packParam_iff {p : SvcbParam} : (∃ b, p.pack = .ok b) ↔ Fits p := by
  constructor
  · rintro ⟨b, hb⟩
    obtain ⟨data, key, length, hdata, hlen, hkey, -, -⟩ := packParam_eq_ok.mp hb
    exact ⟨packData_iff.mp ⟨data, hdata⟩, length_packData hdata ▸ hlen, packShort_iff.mp ⟨key, hkey⟩⟩
  · rintro ⟨hrange, hsize, hkey⟩
    obtain ⟨data, hdata⟩ := packData_iff.mpr hrange
    obtain ⟨key, hkey⟩ := packShort_iff.mpr hkey
    have hlen : data.length ≤ 65535 := (length_packData hdata).le.trans hsize
    obtain ⟨length, hlength⟩ := (packShort_iff (n := data.length)).mpr ⟨by omega, by omega⟩
    exact ⟨_, packParam_eq_ok.mpr ⟨data, key, length, hdata, hlen, hkey, hlength, rfl⟩⟩

theorem length_packParam {p : SvcbParam} {b : Bytes} (h : p.pack = .ok b) : b.length = 4 + size p.data := by
  obtain ⟨data, key, length, hdata, -, hkey, hlength, rfl⟩ := packParam_eq_ok.mp h
  rw [List.length_append, List.length_append, length_packShort hkey, length_packShort hlength,
    length_packData hdata]

/-- The parameters in the order in which they are packed. -/
def sorted (params : List SvcbParam) : List SvcbParam := params.insertionSort fun p q => p.key ≤ q.key

theorem sorted_perm (params : List SvcbParam) : (sorted params).Perm params := List.perm_insertionSort _ params

/-- **A list of parameters is packed** if each of them fits, and only then. -/
theorem packParams_iff {params : List SvcbParam} :
    (∃ b, packParams params = .ok b) ↔ ∀ p ∈ params, Fits p := by
  refine packAll_iff.trans ?_
  constructor
  · exact fun h p hp => packParam_iff.mp (h p ((sorted_perm params).mem_iff.mpr hp))
  · exact fun h p hp => packParam_iff.mpr (h p ((sorted_perm params).mem_iff.mp hp))

theorem length_packParams {params : List SvcbParam} {b : Bytes} (h : packParams params = .ok b) :
    b.length = (params.map fun p => 4 + size p.data).sum := by
  rw [length_packAll (fun _ _ _ hp => length_packParam hp) h]
  exact ((sorted_perm params).map _).sum_eq

end HexDns.Svcb.Packing
