import HexDns.Lib.Digits
import HexDns.Lib.Readers
import HexDns.Models.Env
import HexDns.Base.Codecs

/-! # The wire form of integers and of names

`struct.pack` and `struct.unpack` of unsigned integers are the digits to the base 256. The wire form of a
name without compression is `nameWire`; `NameCodec h` says that the encoding and the decoding of names
are those of this form for the names within the limits of the DNS. -/

namespace HexDns.Models.Wire

open HexDns.Lib.Texts HexDns.Lib.Digits HexDns.Lib.Readers HexDns.Base.Py HexDns.Base.Codecs
  HexDns.Base.Label HexDns.Models.Env

/-! ### Integers -/

theorem packUint_eq_digits (bytes n : ℕ) : packUint bytes n = (digits 256 bytes n).map UInt8.ofNat := by
  unfold packUint digits
  rw [List.map_map]
  refine List.map_congr_left fun i _ => ?_
  show _ = UInt8.ofNat (_ % 256)
  exact UInt8.toNat_inj.mp (by simp)

@[simp] theorem length_packUint (bytes n : ℕ) : (packUint bytes n).length = bytes := by
  rw [packUint_eq_digits, List.length_map, length_digits]

/-- An integer of two parts is packed as the parts one after the other. -/
theorem packUint_append {a b x y : ℕ} (hy : y < 256 ^ b) :
    packUint (a + b) (x * 256 ^ b + y) = packUint a x ++ packUint b y := by
  rw [packUint_eq_digits, packUint_eq_digits, packUint_eq_digits, digits_append (by decide) hy,
    List.map_append]

/-- The value of a packed integer. -/
theorem value_packUint {bytes n : ℕ} (hn : n < 256 ^ bytes) :
    (packUint bytes n).foldl (fun acc x => 256 * acc + x.toNat) 0 = n := by
  have hdigit : ∀ acc : ℕ, ∀ d ∈ digits 256 bytes n,
      256 * acc + (UInt8.ofNat d).toNat = 256 * acc + d := by
    intro acc d hd
    have hlt : d < 256 := lt_of_mem_digits (by decide) hd
    rw [UInt8.toNat_ofNat', Nat.mod_eq_of_lt hlt]
  rw [packUint_eq_digits, List.foldl_map, List.foldl_ext _ _ 0 hdigit]
  exact foldl_digits hn

/-! ### Names -/

/-- The wire form of a name: every label after its length, and the empty label. -/
def nameWire (l : DnsLabel) : Bytes :=
  l.label.flatMap (fun b => UInt8.ofNat b.length :: b) ++ [0]

/-- The limits of the DNS: labels of 1 to 63 bytes, and at most 255 bytes in the wire form. -/
def WithinLimits (l : DnsLabel) : Prop :=
  (∀ b ∈ l.label, 0 < b.length ∧ b.length < 64) ∧ (nameWire l).length ≤ 255

instance (l : DnsLabel) : Decidable (WithinLimits l) := by unfold WithinLimits; infer_instance

/-- Names within the limits are encoded to the wire form, and read from it. -/
structure NameCodec (h : Host) : Prop where
  encodes : ∀ l, WithinLimits l → h.encodeName l = .ok (nameWire l)
  decodes : ∀ l, WithinLimits l → Reads h.decodeName (nameWire l) l

theorem decodeNameAscii_labels {labels : List Bytes} (hlabels : ∀ b ∈ labels, 0 < b.length ∧ b.length < 64)
    (fuel offset : ℕ) (rest : Bytes) (before : List Bytes) (hfuel : labels.length < fuel) :
    decodeNameAscii fuel (labels.flatMap (fun b => UInt8.ofNat b.length :: b) ++ 0 :: rest) offset before =
      .ok (⟨before ++ labels⟩,
        offset + (labels.flatMap fun b => UInt8.ofNat b.length :: b).length + 1) := by
  induction labels generalizing fuel offset before with
  | nil =>
    obtain ⟨fuel, rfl⟩ : ∃ k, fuel = k + 1 := ⟨fuel - 1, by simp only [List.length_nil] at hfuel; omega⟩
    simp [decodeNameAscii]
  | cons b labels ih =>
    obtain ⟨fuel, rfl⟩ : ∃ k, fuel = k + 1 := ⟨fuel - 1, by omega⟩
    obtain ⟨hpos, hlt⟩ := hlabels b List.mem_cons_self
    have hnat : (UInt8.ofNat b.length).toNat = b.length := by
      rw [UInt8.toNat_ofNat', Nat.mod_eq_of_lt (by omega)]
    have hzero : UInt8.ofNat b.length ≠ 0 := by
      intro h0
      rw [h0] at hnat
      exact absurd hnat.symm hpos.ne'
    have htail := ih (fun c hc => hlabels c (List.mem_cons_of_mem _ hc)) fuel (offset + 1 + b.length)
      (before ++ [b]) (by simpa using hfuel)
    simp only [List.flatMap_cons, List.cons_append, List.append_assoc, decodeNameAscii]
    rw [if_neg hzero, hnat, if_neg (by simp), List.drop_left, List.take_left, htail]
    simp [Nat.add_assoc, Nat.add_comm, Nat.add_left_comm]

theorem length_le_labels (labels : List Bytes) :
    labels.length ≤ (labels.flatMap fun b => UInt8.ofNat b.length :: b).length := by
  induction labels with
  | nil => exact le_rfl
  | cons b labels ih =>
    simp only [List.flatMap_cons, List.length_append, List.length_cons]
    omega

theorem nameCodec_ascii : NameCodec Host.ascii := by
  refine ⟨fun l _ => rfl, fun l hl data rest offset hat => ?_⟩
  have hfuel : l.label.length < data.length + 1 := by
    have hlen : (nameWire l).length ≤ data.length := by
      have hdrop := congrArg List.length hat.drop
      rw [List.length_drop, List.length_append] at hdrop
      omega
    have hlabels : l.label.length ≤ (nameWire l).length := by
      unfold nameWire
      rw [List.length_append]
      have hle := length_le_labels l.label
      omega
    omega
  show decodeNameAscii (data.length + 1) (data.drop offset) offset [] = _
  rw [hat.drop]
  unfold nameWire
  rw [List.append_assoc]
  refine (decodeNameAscii_labels hl.1 _ offset rest [] hfuel).trans ?_
  simp [Nat.add_assoc]

end HexDns.Models.Wire
