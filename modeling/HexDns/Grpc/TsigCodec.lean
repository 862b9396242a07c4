import HexDns.Grpc.Tsig
import HexDns.Models.Wire

/-! # The codec of transaction signatures

`make_tsig` packs the time and the fudge into one word of 64 bits, which is the 48 bits of the time
followed by the 16 bits of the fudge in the wire form of a TSIG rdata, `rdataOf`. For a TSIG within the
limits of its fields `make_tsig` gives the wire form (`makeTsig_eq`) and `decode_tsig` reads the TSIG from
it (`decodeTsig_rdataOf`); `tsig_lossless` puts the two together. -/

namespace HexDns.Grpc.TsigCodec

open HexDns.Lib.Texts HexDns.Lib.Programs HexDns.Lib.Readers HexDns.Base.Py HexDns.Base.Codecs
  HexDns.Base.Label HexDns.Models.Env HexDns.Models.Wire HexDns.Grpc.Tsig

/-- The limits of the fields: a name within those of the DNS, a time up to the year 9999, numbers of 16
bits and lengths of 16 bits. -/
structure Fits (t : Tsig) : Prop where
  algName : WithinLimits t.algName
  timeSigned : t.timeSigned ≤ maxTime
  fudge : t.fudge < 2 ^ 16
  mac : t.mac.length < 65536
  originalId : t.originalId < 2 ^ 16
  error : t.error < 2 ^ 16
  otherData : t.otherData.length < 65536

/-- The wire form of a TSIG rdata without compression: 48 bits of time, 16 of fudge, the MAC after its
length, the original id, the error, and the other data after its length. -/
def rdataOf (t : Tsig) : Bytes :=
  nameWire t.algName ++ (packUint 6 t.timeSigned ++ packUint 2 t.fudge ++ (packUint 2 t.mac.length ++
    (t.mac ++ (packUint 2 t.originalId ++ (packUint 2 t.error ++ (packUint 2 t.otherData.length ++
      (t.otherData ++ [])))))))

/-- The byte string is the wire form of a TSIG within the limits. -/
def IsRdata (b : Bytes) : Prop := ∃ t, Fits t ∧ b = rdataOf t

theorem reads_getBytes (piece : Bytes) :
    Reads (fun data offset => getBytes data offset piece.length) piece piece := by
  intro data rest offset hat
  have hlen := congrArg List.length hat.drop
  rw [List.length_drop, List.length_append] at hlen
  have hle := hat.le
  show getBytes _ _ _ = _
  unfold getBytes
  rw [if_pos (by omega), hat.drop, List.take_left]

theorem reads_unpackUint {bytes n : ℕ} (hn : n < 256 ^ bytes) :
    Reads (unpackUint bytes) (packUint bytes n) n := by
  intro data rest offset hat
  have hget : getBytes data offset (packUint bytes n).length = _ :=
    reads_getBytes (packUint bytes n) data rest offset hat
  rw [length_packUint] at hget
  unfold unpackUint
  rw [hget, length_packUint]
  have hvalue := value_packUint hn
  show Except.ok (List.foldl _ 0 (packUint bytes n), offset + bytes) = _
  rw [hvalue]

/-- The word of time and fudge. -/
theorem packUint_word {time fudge : ℕ} (hf : fudge < 2 ^ 16) :
    packUint 8 (time * 2 ^ 16 + fudge % 2 ^ 16) = packUint 6 time ++ packUint 2 fudge := by
  have hf' : fudge < 256 ^ 2 := hf
  rw [Nat.mod_eq_of_lt hf]
  exact packUint_append (a := 6) (x := time) hf'

section
variable {h : Host} {t : Tsig}

theorem makeTsig_eq (hn : NameCodec h) (ht : Fits t) : t.makeTsig h = .ok (rdataOf t) := by
  unfold Tsig.makeTsig
  rw [hn.encodes t.algName ht.algName, packUint_word ht.fudge]
  unfold rdataOf
  simp only [List.append_assoc, List.append_nil]
  rfl

theorem decodeTsig_rdataOf (hn : NameCodec h) (ht : Fits t) : decodeTsig h (rdataOf t) = .ok t := by
  have hword : t.timeSigned * 2 ^ 16 + t.fudge % 2 ^ 16 < 256 ^ 8 := by
    have htime := ht.timeSigned
    have hfudge := ht.fudge
    unfold maxTime at htime
    omega
  have hat : At (rdataOf t) 0 (nameWire t.algName ++ (packUint 8 (t.timeSigned * 2 ^ 16 + t.fudge % 2 ^ 16) ++
      (packUint 2 t.mac.length ++ (t.mac ++ (packUint 2 t.originalId ++ (packUint 2 t.error ++
        (packUint 2 t.otherData.length ++ (t.otherData ++ [])))))))) := by
    rw [packUint_word ht.fudge]
    exact At.start (rdataOf t)
  generalize rdataOf t = data at hat ⊢
  obtain ⟨o₁, hname, hat⟩ := (hn.decodes t.algName ht.algName).next hat
  obtain ⟨o₂, hstamp, hat⟩ := (reads_unpackUint hword).next hat
  obtain ⟨o₃, hmacLen, hat⟩ := (reads_unpackUint ht.mac).next hat
  obtain ⟨o₄, hmac, hat⟩ := (reads_getBytes t.mac).next hat
  obtain ⟨o₅, hid, hat⟩ := (reads_unpackUint ht.originalId).next hat
  obtain ⟨o₆, herror, hat⟩ := (reads_unpackUint ht.error).next hat
  obtain ⟨o₇, hotherLen, hat⟩ := (reads_unpackUint ht.otherData).next hat
  obtain ⟨o₈, hother, -⟩ := (reads_getBytes t.otherData).next hat
  have hfudge := Nat.mod_eq_of_lt ht.fudge
  have htime : (t.timeSigned * 2 ^ 16 + t.fudge % 2 ^ 16) / 2 ^ 16 = t.timeSigned := by omega
  have hrest : (t.timeSigned * 2 ^ 16 + t.fudge % 2 ^ 16) % 2 ^ 16 = t.fudge := by omega
  unfold decodeTsig
  refine bind_eq_ok.mpr ⟨_, hname, bind_eq_ok.mpr ⟨_, hstamp, bind_eq_ok.mpr ⟨_, hmacLen,
    bind_eq_ok.mpr ⟨_, hmac, bind_eq_ok.mpr ⟨_, hid, bind_eq_ok.mpr ⟨_, herror,
      bind_eq_ok.mpr ⟨_, hotherLen, bind_eq_ok.mpr ⟨_, hother, ?_⟩⟩⟩⟩⟩⟩⟩⟩
  show (if (t.timeSigned * 2 ^ 16 + t.fudge % 2 ^ 16) / 2 ^ 16 ≤ maxTime then _ else _) = _
  rw [htime, hrest, if_pos ht.timeSigned]
  rfl

/-- **The TSIG codec is lossless.** A TSIG within the limits is decoded from what it is encoded to, and
every wire form of such a TSIG is encoded again from what it is decoded to. -/
theorem tsig_lossless (hn : NameCodec h) :
    (∀ t, Fits t → ∃ b, t.makeTsig h = .ok b ∧ decodeTsig h b = .ok t) ∧
      ∀ b, IsRdata b → ∃ t, decodeTsig h b = .ok t ∧ t.makeTsig h = .ok b := by
  constructor
  · intro t ht
    exact ⟨rdataOf t, makeTsig_eq hn ht, decodeTsig_rdataOf hn ht⟩
  · rintro b ⟨t, ht, rfl⟩
    exact ⟨t, decodeTsig_rdataOf hn ht, makeTsig_eq hn ht⟩

end

/-- A TSIG of the last second that fits. -/
def lastTsig : Tsig :=
  ⟨⟨[encode "hmac-sha256".toList]⟩, maxTime, 65535, [1, 2, 3], 258, 18, [0, 0, 1]⟩

theorem tsig_lossless_lastTsig :
    ∃ b, lastTsig.makeTsig .ascii = .ok b ∧ decodeTsig .ascii b = .ok lastTsig := by
  have hfits : Fits lastTsig := by constructor <;> decide
  exact (tsig_lossless nameCodec_ascii).1 lastTsig hfits

end HexDns.Grpc.TsigCodec
