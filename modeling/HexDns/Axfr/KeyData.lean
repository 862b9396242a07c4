import HexDns.Base.Codecs
import HexDns.Tasks.Denoted

/-! # The key material of the AXFR parser

`parse_ds` and `parse_dnskey` of `axfr/src/parser.rs`, with what they use of the standard library
(`str::parse`, `u8::from_str_radix`) and of `base64`. Nothing is returned for an `Err`. -/

namespace HexDns.Axfr.KeyData

open HexDns.Lib.Texts HexDns.Base.Py HexDns.Base.Codecs HexDns.Tasks.Addresses HexDns.Tasks.Denoted

/-! ### Numbers -/

/-- `str::parse` for an unsigned integer of so many bits: digits, with or without a plus sign -/
def parseUint (bits : ℕ) (t : Text) : Option ℕ :=
  let digits := if t.head? = some '+' then t.tail else t
  if digits ≠ [] ∧ digits.all Char.isDigit then
    let n := Nat.ofDigitChars 10 digits 0
    if n < 2 ^ bits then some n else none
  else none

/-- `u8::from_str_radix` of two characters, with base 16 -/
def hexByte (c d : Char) : Option UInt8 :=
  if c = '+' then (hexValue d).map UInt8.ofNat
  else (hexValue c).bind fun x => (hexValue d).map fun y => UInt8.ofNat (16 * x + y)

/-! ### Digests -/

/-- The loop over the digest: two bytes at a time, as long as there are two. A cut after two bytes has to
be between characters, and the two bytes of one character are no number. -/
def digestBytes : Text → Option Bytes
  | [] => some []
  | [c] => if c.utf8Size = 1 then some [] else none
  | c :: d :: t =>
    if c.utf8Size = 1 ∧ d.utf8Size = 1 then
      (hexByte c d).bind fun b => (digestBytes t).map (b :: ·)
    else none

/-- `DS` -/
structure Ds where
  keyTag : ℕ
  algorithm : ℕ
  digestType : ℕ
  digest : Bytes
  deriving DecidableEq, Repr

/-- The mnemonics of `parse_ds`, and `Algorithm::from_u8` of a number -/
def parseAlgorithm (t : Text) : Option ℕ :=
  if t = "RSAMD5".toList then some 1
  else if t = "DH".toList then some 2
  else if t = "DSA".toList then some 3
  else if t = "ECC".toList then some 4
  else if t = "RSASHA1".toList then some 5
  else if t = "INDIRECT".toList then some 252
  else if t = "PRIVATEDNS".toList then some 253
  else if t = "PRIVATEOID".toList then some 254
  else parseUint 8 t

/-- `parse_ds`; `defined` are the codes that `DigestType::from_u8` knows. -/
def parseDs (defined : ℕ → Bool) : List Text → Option Ds
  | tag :: algorithm :: digestType :: tokens => do
    let tag ← parseUint 16 tag
    let algorithm ← parseAlgorithm algorithm
    let digestType ← (parseUint 8 digestType).filter (defined ·)
    if tokens.flatten = [] then none
    else
      let digest ← digestBytes tokens.flatten
      return ⟨tag, algorithm, digestType, digest⟩
  | _ => none

/-! ### Keys -/

/-- `base64::…::STANDARD.decode`, which takes only what it encodes to. -/
def standardDecode (t : Text) : Option Bytes :=
  (b64decode t).toOption.filter fun b => b64encode b = t

/-- `DNSKEY` -/
structure Dnskey where
  zoneKey : Bool
  secureEntryPoint : Bool
  revoke : Bool
  algorithm : ℕ
  publicKey : Bytes
  deriving DecidableEq, Repr

/-- `DNSKEY::flags` -/
def Dnskey.flags (k : Dnskey) : ℕ :=
  256 * k.zoneKey.toNat + 128 * k.revoke.toNat + k.secureEntryPoint.toNat

/-- `parse_dnskey` -/
def parseDnskey : List Text → Option Dnskey
  | flags :: version :: algorithm :: pk :: _ => do
    let flags ← parseUint 16 flags
    let version ← parseUint 8 version
    let algorithm ← parseUint 8 algorithm
    if pk = [] ∨ version ≠ 3 then none
    else
      let pk ← standardDecode pk
      return ⟨flags / 256 % 2 = 1, flags % 2 = 1, flags / 128 % 2 = 1, algorithm, pk⟩
  | _ => none

/-! ### What the parsers read -/

theorem parseUint_toDigits {bits n : ℕ} (h : n < 2 ^ bits) : parseUint bits (Nat.toDigits 10 n) = some n := by
  have hdigit : ∀ c ∈ Nat.toDigits 10 n, c.isDigit = true := fun c hc =>
    Nat.isDigit_of_mem_toDigits (by decide) (by decide) hc
  have hhead : (Nat.toDigits 10 n).head? ≠ some '+' := by
    intro hplus
    have hd := hdigit '+' (List.mem_of_head? hplus)
    exact absurd hd (by decide)
  have hvalue : Nat.ofDigitChars 10 (Nat.toDigits 10 n) 0 = n := Nat.ofDigitChars_ten_toDigits
  unfold parseUint
  rw [if_neg hhead]
  show (if Nat.toDigits 10 n ≠ [] ∧ _ then _ else none) = _
  rw [if_pos ⟨Nat.toDigits_ne_nil, List.all_eq_true.mpr hdigit⟩, hvalue, if_pos h]

/-- A number of digits is no mnemonic. -/
theorem parseAlgorithm_toDigits {n : ℕ} (h : n < 256) : parseAlgorithm (Nat.toDigits 10 n) = some n := by
  have hne : ∀ {t : Text} {c : Char}, c ∈ t → c.isDigit = false → Nat.toDigits 10 n ≠ t := by
    rintro t c hc hd rfl
    rw [Nat.isDigit_of_mem_toDigits (by decide) (by decide) hc] at hd
    cases hd
  unfold parseAlgorithm
  have hD : ∀ {t : Text}, 'D' ∈ t → Nat.toDigits 10 n ≠ t := fun hc => hne hc (by decide)
  have hC : ∀ {t : Text}, 'C' ∈ t → Nat.toDigits 10 n ≠ t := fun hc => hne hc (by decide)
  have hA : ∀ {t : Text}, 'A' ∈ t → Nat.toDigits 10 n ≠ t := fun hc => hne hc (by decide)
  rw [if_neg (hD (by decide)), if_neg (hD (by decide)), if_neg (hD (by decide)), if_neg (hC (by decide)),
    if_neg (hA (by decide)), if_neg (hD (by decide)), if_neg (hD (by decide)), if_neg (hD (by decide)),
    parseUint_toDigits h]

theorem toNat_of_hexValue {c : Char} (h : (hexValue c).isSome) :
    48 ≤ c.toNat ∧ c.toNat ≤ 102 ∧ c.toNat ≠ 59 ∧ c.toNat ≠ 92 := by
  unfold hexValue at h
  split_ifs at h
  · omega
  · omega
  · omega
  · cases h

theorem hexByte_digits {c d : Char} {x y : ℕ} (hc : hexValue c = some x) (hd : hexValue d = some y) :
    hexByte c d = some (UInt8.ofNat (16 * x + y)) := by
  unfold hexByte
  have hne : c ≠ '+' := by
    rintro rfl
    cases hc
  rw [if_neg hne, hc, hd]
  rfl

theorem base64Value_base64Char : ∀ n < 64, base64Value (base64Char n) = some n := by decide

theorem base64Char_ne_pad : ∀ n < 64, base64Char n ≠ '=' := by decide

theorem base64Char_ascii : ∀ n < 64, (base64Char n).toNat < 128 := by decide

section
variable {n : ℕ} (hn : n < 64) (left pads : ℕ) (t : Text)
include hn

/-- The first character of a group. -/
theorem a2bBase64_zero : a2bBase64 0 left pads (base64Char n :: t) = a2bBase64 1 n 0 t := by
  rw [a2bBase64, if_neg (base64Char_ne_pad n hn), base64Value_base64Char n hn]
  rfl

/-- The second. -/
theorem a2bBase64_one : a2bBase64 1 left pads (base64Char n :: t) =
    (a2bBase64 2 (n % 16) 0 t).map (UInt8.ofNat (4 * left + n / 16) :: ·) := by
  rw [a2bBase64, if_neg (base64Char_ne_pad n hn), base64Value_base64Char n hn]
  rfl

/-- The third. -/
theorem a2bBase64_two : a2bBase64 2 left pads (base64Char n :: t) =
    (a2bBase64 3 (n % 4) 0 t).map (UInt8.ofNat (16 * left + n / 4) :: ·) := by
  rw [a2bBase64, if_neg (base64Char_ne_pad n hn), base64Value_base64Char n hn]
  rfl

/-- The fourth. -/
theorem a2bBase64_three : a2bBase64 3 left pads (base64Char n :: t) =
    (a2bBase64 0 0 0 t).map (UInt8.ofNat (64 * left + n) :: ·) := by
  rw [a2bBase64, if_neg (base64Char_ne_pad n hn), base64Value_base64Char n hn]
  rfl

end

theorem a2bBase64_b64encode (b : Bytes) : a2bBase64 0 0 0 (b64encode b) = .ok b := by
  fun_induction b64encode b with
  | case1 => rfl
  | case2 a =>
    have ha : a.toNat < 256 := a.toNat_lt
    have hbyte : 4 * (a.toNat / 4) + a.toNat % 4 * 16 / 16 = a.toNat := by omega
    rw [a2bBase64_zero (by omega), a2bBase64_one (by omega), hbyte, UInt8.ofNat_toNat]
    rfl
  | case3 a b =>
    have ha : a.toNat < 256 := a.toNat_lt
    have hb : b.toNat < 256 := b.toNat_lt
    have hbyte : 4 * (a.toNat / 4) + (a.toNat % 4 * 16 + b.toNat / 16) / 16 = a.toNat := by omega
    have hbyte' : 16 * ((a.toNat % 4 * 16 + b.toNat / 16) % 16) + b.toNat % 16 * 4 / 4 = b.toNat := by omega
    rw [a2bBase64_zero (by omega), a2bBase64_one (by omega), a2bBase64_two (by omega), hbyte, hbyte',
      UInt8.ofNat_toNat, UInt8.ofNat_toNat]
    rfl
  | case4 a b c t ih =>
    have ha : a.toNat < 256 := a.toNat_lt
    have hb : b.toNat < 256 := b.toNat_lt
    have hc : c.toNat < 256 := c.toNat_lt
    have hbyte : 4 * (a.toNat / 4) + (a.toNat % 4 * 16 + b.toNat / 16) / 16 = a.toNat := by omega
    have hbyte' : 16 * ((a.toNat % 4 * 16 + b.toNat / 16) % 16) + (b.toNat % 16 * 4 + c.toNat / 64) / 4 =
        b.toNat := by omega
    have hbyte'' : 64 * ((b.toNat % 16 * 4 + c.toNat / 64) % 4) + c.toNat % 64 = c.toNat := by omega
    rw [a2bBase64_zero (by omega), a2bBase64_one (by omega), a2bBase64_two (by omega),
      a2bBase64_three (by omega), ih, hbyte, hbyte', hbyte'', UInt8.ofNat_toNat, UInt8.ofNat_toNat,
      UInt8.ofNat_toNat]
    rfl

theorem isAscii_b64encode (b : Bytes) : IsAscii (b64encode b) := by
  have hpad : '='.toNat < 128 := by decide
  fun_induction b64encode b with
  | case1 => exact fun c hc => absurd hc List.not_mem_nil
  | case2 a =>
    have ha : a.toNat < 256 := a.toNat_lt
    simp [IsAscii, base64Char_ascii _ (show a.toNat / 4 < 64 by omega),
      base64Char_ascii _ (show a.toNat % 4 * 16 < 64 by omega)]
  | case3 a b =>
    have ha : a.toNat < 256 := a.toNat_lt
    have hb : b.toNat < 256 := b.toNat_lt
    simp [IsAscii, base64Char_ascii _ (show a.toNat / 4 < 64 by omega),
      base64Char_ascii _ (show a.toNat % 4 * 16 + b.toNat / 16 < 64 by omega),
      base64Char_ascii _ (show b.toNat % 16 * 4 < 64 by omega)]
  | case4 a b c t ih =>
    have ha : a.toNat < 256 := a.toNat_lt
    have hb : b.toNat < 256 := b.toNat_lt
    have hc : c.toNat < 256 := c.toNat_lt
    intro d hd
    simp only [List.mem_cons] at hd
    rcases hd with rfl | rfl | rfl | rfl | hd
    · exact base64Char_ascii _ (by omega)
    · exact base64Char_ascii _ (by omega)
    · exact base64Char_ascii _ (by omega)
    · exact base64Char_ascii _ (by omega)
    · exact ih d hd

theorem b64decode_b64encode (b : Bytes) : b64decode (b64encode b) = .ok b := by
  unfold b64decode
  rw [if_pos (isAscii_b64encode b), a2bBase64_b64encode]

theorem b64encode_ne_nil {b : Bytes} (h : b ≠ []) : b64encode b ≠ [] := by
  intro hnil
  have hdecode := b64decode_b64encode b
  rw [hnil] at hdecode
  exact h (Except.ok.inj hdecode).symm

theorem standardDecode_eq_some {t : Text} {b : Bytes} : standardDecode t = some b ↔ t = b64encode b := by
  unfold standardDecode
  rw [Option.filter_eq_some_iff]
  constructor
  · rintro ⟨-, h⟩
    exact (of_decide_eq_true h).symm
  · rintro rfl
    rw [b64decode_b64encode]
    exact ⟨rfl, decide_eq_true rfl⟩

end HexDns.Axfr.KeyData
