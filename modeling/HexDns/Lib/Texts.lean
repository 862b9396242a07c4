import Mathlib.Data.List.Infix
import Mathlib.Data.Nat.Digits.Defs
import Mathlib.Data.String.Basic
import Mathlib.Tactic.Common

/-! # Texts and byte strings

A text is a list of characters and a byte string a list of bytes. UTF-8 is the core library's:
`encode` is total, `decode` is defined exactly on the encodings of texts (`decode_eq_some`).
`lowerByte` and `lowerChar` change the letters A to Z only, and commute with the two codings. The
last part is about pieces joined by a separator. -/

namespace HexDns.Lib.Texts

abbrev Text := List Char

abbrev Bytes := List UInt8

/-! ### UTF-8 -/

/-- The UTF-8 encoding. -/
def encode (t : Text) : Bytes := t.flatMap String.utf8EncodeChar

/-- The text that a byte string encodes, if there is one. -/
def decode (b : Bytes) : Option Text := b.toByteArray.utf8Decode?.map Array.toList

theorem utf8Encode_eq (t : Text) : t.utf8Encode = (encode t).toByteArray := rfl

theorem toByteArray_inj {a b : Bytes} (h : a.toByteArray = b.toByteArray) : a = b := by
  have h' := congrArg (fun x => x.data.toList) h
  simpa using h'

theorem decode_encode (t : Text) : decode (encode t) = some t := by
  unfold decode
  rw [← utf8Encode_eq, List.utf8Decode?_utf8Encode]
  rfl

theorem decode_eq_some {b : Bytes} {t : Text} : decode b = some t ↔ encode t = b := by
  constructor
  · intro h
    obtain ⟨a, ha, rfl⟩ := Option.map_eq_some_iff.mp h
    have hs : b.toByteArray.utf8Decode?.isSome := by rw [ha]; rfl
    have h := ByteArray.utf8Encode_get_utf8Decode? (h := hs)
    simp only [ha, Option.get_some, utf8Encode_eq] at h
    exact toByteArray_inj h
  · rintro rfl
    exact decode_encode t

theorem encode_inj {t u : Text} (h : encode t = encode u) : t = u := by
  have := decode_encode t
  rw [h, decode_encode u] at this
  exact (Option.some.inj this).symm

@[simp] theorem encode_nil : encode [] = [] := rfl

@[simp] theorem encode_append (t u : Text) : encode (t ++ u) = encode t ++ encode u :=
  List.flatMap_append

theorem encode_cons (c : Char) (t : Text) : encode (c :: t) = String.utf8EncodeChar c ++ encode t :=
  rfl

/-- A literal is its characters; with it no literal has to be decoded. -/
theorem toList_literal {s : String} {t : Text} (h : s = String.ofList t) : s.toList = t := by
  rw [h, String.toList_ofList]

/-! ### The letters A to Z -/

/-- `a` for `A`, and so on; every other byte as it is. -/
def lowerByte (b : UInt8) : UInt8 := if 65 ≤ b.toNat ∧ b.toNat ≤ 90 then b + 32 else b

/-- `a` for `A`, and so on; every other character as it is. -/
def lowerChar (c : Char) : Char :=
  if 65 ≤ c.toNat ∧ c.toNat ≤ 90 then Char.ofNat (c.toNat + 32) else c

theorem isUpper_iff {c : Char} : c.isUpper = true ↔ 65 ≤ c.toNat ∧ c.toNat ≤ 90 := by
  show decide (65 ≤ c.val ∧ c.val ≤ 90) = true ↔ _
  rw [decide_eq_true_iff]
  exact Iff.and UInt32.le_iff_toNat_le UInt32.le_iff_toNat_le

theorem isLower_iff {c : Char} : c.isLower = true ↔ 97 ≤ c.toNat ∧ c.toNat ≤ 122 := by
  show (decide (97 ≤ c.val) && decide (c.val ≤ 122)) = true ↔ _
  rw [Bool.and_eq_true, decide_eq_true_iff, decide_eq_true_iff]
  exact Iff.and UInt32.le_iff_toNat_le UInt32.le_iff_toNat_le

theorem isDigit_iff {c : Char} : c.isDigit = true ↔ 48 ≤ c.toNat ∧ c.toNat ≤ 57 := by
  show (decide (48 ≤ c.val) && decide (c.val ≤ 57)) = true ↔ _
  rw [Bool.and_eq_true, decide_eq_true_iff, decide_eq_true_iff]
  exact Iff.and UInt32.le_iff_toNat_le UInt32.le_iff_toNat_le

theorem isAlpha_iff {c : Char} :
    c.isAlpha = true ↔ (65 ≤ c.toNat ∧ c.toNat ≤ 90) ∨ (97 ≤ c.toNat ∧ c.toNat ≤ 122) := by
  show (c.isUpper || c.isLower) = true ↔ _
  rw [Bool.or_eq_true, isUpper_iff, isLower_iff]

/-- The text has only characters below 128. -/
def IsAscii (t : Text) : Prop := ∀ c ∈ t, c.toNat < 128

-- checks of a list go through the list, not through all characters or all bytes there are
instance (priority := 2000) decidableForallMem {α : Type} (p : α → Prop) [DecidablePred p] (l : List α) :
    Decidable (∀ x ∈ l, p x) :=
  List.decidableBAll p l

instance (priority := 2000) decidableMem {α : Type} [DecidableEq α] (a : α) (l : List α) :
    Decidable (a ∈ l) :=
  List.instDecidableMemOfLawfulBEq a l

instance (t : Text) : Decidable (IsAscii t) := inferInstanceAs (Decidable (∀ c ∈ t, _))

theorem utf8EncodeChar_ascii {c : Char} (h : c.toNat < 128) :
    String.utf8EncodeChar c = [UInt8.ofNat c.toNat] := by
  have h' : c.val.toNat ≤ 0x7f := by have : c.toNat = c.val.toNat := rfl; omega
  unfold String.utf8EncodeChar
  exact if_pos h'

theorem toNat_byteOf {c : Char} (h : c.toNat < 128) : (UInt8.ofNat c.toNat).toNat = c.toNat := by
  rw [UInt8.toNat_ofNat', Nat.mod_eq_of_lt (by omega)]

/-- An ASCII text has one byte for each character. -/
theorem encode_ascii {t : Text} (h : IsAscii t) : encode t = t.map fun c => UInt8.ofNat c.toNat := by
  induction t with
  | nil => rfl
  | cons c t ih =>
    rw [encode_cons, utf8EncodeChar_ascii (h c List.mem_cons_self),
      ih fun d hd => h d (List.mem_cons_of_mem c hd)]
    rfl

theorem le_of_mem_utf8EncodeChar {c : Char} (h : ¬ c.toNat < 128) {b : UInt8}
    (hb : b ∈ String.utf8EncodeChar c) : 128 ≤ b.toNat := by
  have h' : ¬ c.val.toNat ≤ 0x7f := by have : c.toNat = c.val.toNat := rfl; omega
  unfold String.utf8EncodeChar at hb
  simp only [if_neg h'] at hb
  split at hb
  · simp only [List.mem_cons, List.not_mem_nil, or_false] at hb
    rcases hb with rfl | rfl <;> simp <;> omega
  split at hb
  · simp only [List.mem_cons, List.not_mem_nil, or_false] at hb
    rcases hb with rfl | rfl | rfl <;> simp <;> omega
  · simp only [List.mem_cons, List.not_mem_nil, or_false] at hb
    rcases hb with rfl | rfl | rfl | rfl <;> simp <;> omega

theorem toNat_ofNat_lt {n : ℕ} (h : n < 128) : (Char.ofNat n).toNat = n := by
  have hv : n.isValidChar := Or.inl (by omega)
  unfold Char.ofNat
  rw [dif_pos hv]
  rfl

theorem toNat_lowerChar_lt {c : Char} (h : c.toNat < 128) : (lowerChar c).toNat < 128 := by
  unfold lowerChar
  split_ifs with hc
  · rw [toNat_ofNat_lt (by omega)]; omega
  · exact h

theorem lowerChar_of_isDigit {c : Char} (hc : c.isDigit = true) : lowerChar c = c := by
  unfold lowerChar
  refine if_neg ?_
  simp only [Char.isDigit, Bool.and_eq_true, decide_eq_true_eq] at hc
  have hle : c.toNat ≤ 57 := UInt32.le_iff_toNat_le.mp hc.2
  omega

theorem lowerByte_ofNat {c : Char} (h : c.toNat < 128) :
    lowerByte (UInt8.ofNat c.toNat) = UInt8.ofNat (lowerChar c).toNat := by
  unfold lowerByte lowerChar
  rw [toNat_byteOf h]
  split_ifs with hc
  · rw [toNat_ofNat_lt (by omega)]
    simp
  · rfl

theorem encode_lower (t : Text) : encode (t.map lowerChar) = (encode t).map lowerByte := by
  induction t with
  | nil => rfl
  | cons c t ih =>
    rw [List.map_cons, encode_cons, encode_cons, List.map_append, ih]
    congr 1
    by_cases hc : c.toNat < 128
    · rw [utf8EncodeChar_ascii hc, utf8EncodeChar_ascii (toNat_lowerChar_lt hc), List.map_singleton,
        lowerByte_ofNat hc]
    · have h1 : lowerChar c = c := by unfold lowerChar; rw [if_neg (by omega)]
      rw [h1]
      refine (List.map_id _).symm.trans (List.map_congr_left fun b hb => ?_)
      have := le_of_mem_utf8EncodeChar hc hb
      unfold lowerByte
      rw [if_neg (by omega)]; rfl

theorem decode_lower {b : Bytes} {t : Text} (h : decode b = some t) :
    decode (b.map lowerByte) = some (t.map lowerChar) := by
  rw [decode_eq_some] at h ⊢
  rw [encode_lower, h]

theorem exists_decode {b : Bytes} (h : ∀ x ∈ b, x.toNat < 128) :
    ∃ t, decode b = some t ∧ IsAscii t := by
  induction b with
  | nil => exact ⟨[], rfl, fun _ hc => by cases hc⟩
  | cons x b ih =>
    obtain ⟨t, ht, hasc⟩ := ih fun y hy => h y (List.mem_cons_of_mem _ hy)
    have hx : (Char.ofNat x.toNat).toNat = x.toNat := toNat_ofNat_lt (h x List.mem_cons_self)
    have hlt : (Char.ofNat x.toNat).toNat < 128 := by rw [hx]; exact h x List.mem_cons_self
    refine ⟨Char.ofNat x.toNat :: t, decode_eq_some.mpr ?_, ?_⟩
    · rw [encode_cons, decode_eq_some.mp ht, utf8EncodeChar_ascii hlt, hx]
      simp
    · intro c hc
      rcases List.mem_cons.mp hc with rfl | hc
      · exact hlt
      · exact hasc c hc

theorem length_le_encode (t : Text) : t.length ≤ (encode t).length := by
  induction t with
  | nil => exact Nat.le_refl 0
  | cons c t ih =>
    have hc := c.utf8Size_pos
    rw [encode_cons, List.length_append, String.length_utf8EncodeChar, List.length_cons]
    omega

theorem utf8Size_eq_one_iff {c : Char} : c.utf8Size = 1 ↔ c.toNat < 128 := by
  constructor
  · intro hsize
    unfold Char.utf8Size at hsize
    dsimp only at hsize
    split_ifs at hsize with hle
    · have hnat : c.val.toNat ≤ 127 := UInt32.le_iff_toNat_le.mp hle
      have hval : c.toNat = c.val.toNat := rfl
      omega
    all_goals omega
  · intro hlt
    rw [← String.length_utf8EncodeChar, utf8EncodeChar_ascii hlt, List.length_singleton]

theorem length_encode_eq_iff {t : Text} : (encode t).length = t.length ↔ IsAscii t := by
  induction t with
  | nil => exact iff_of_true rfl fun c hc => (nomatch hc)
  | cons c t ih =>
    have hc := c.utf8Size_pos
    have ht := length_le_encode t
    rw [encode_cons, List.length_append, String.length_utf8EncodeChar, List.length_cons]
    unfold IsAscii
    rw [List.forall_mem_cons, ← utf8Size_eq_one_iff]
    constructor
    · intro hlen
      exact ⟨by omega, ih.mp (by omega)⟩
    · rintro ⟨h1, h2⟩
      have := ih.mpr h2
      omega

/-- The character that the encoding of a text starts with is known from the bytes. -/
theorem utf8EncodeChar_append_inj {c d : Char} {a b : Bytes}
    (h : String.utf8EncodeChar c ++ a = String.utf8EncodeChar d ++ b) : c = d := by
  have hc := ByteArray.utf8DecodeChar?_utf8EncodeChar_append (b := a.toByteArray) (c := c)
  have hd := ByteArray.utf8DecodeChar?_utf8EncodeChar_append (b := b.toByteArray) (c := d)
  rw [← List.toByteArray_append] at hc hd
  rw [h, hd] at hc
  exact (Option.some.inj hc).symm

/-! ### Joined pieces -/

section
variable {α β : Type} {sep : List α} {ls ps qs : List (List α)}

theorem intercalate_append (hp : ps ≠ []) (hq : qs ≠ []) :
    sep.intercalate (ps ++ qs) = sep.intercalate ps ++ sep ++ sep.intercalate qs := by
  induction ps with
  | nil => exact absurd rfl hp
  | cons p ps ih =>
    rcases ps with _ | ⟨p', ps⟩
    · rw [List.singleton_append, List.intercalate_cons_of_ne_nil hq, List.intercalate_singleton]
    · rw [List.cons_append, List.intercalate_cons_of_ne_nil (by simp), ih (by simp),
        List.intercalate_cons_cons]
      simp

theorem map_intercalate (f : α → β) (sep : List α) (ls : List (List α)) :
    (sep.intercalate ls).map f = (sep.map f).intercalate (ls.map (·.map f)) := by
  induction ls with
  | nil => rfl
  | cons l ls ih =>
    rcases ls with _ | ⟨l', ls⟩
    · simp
    · rw [List.intercalate_cons_cons, List.map_append, List.map_append, ih]
      simp

theorem flatMap_intercalate (f : α → List β) (sep : List α) (ls : List (List α)) :
    (sep.intercalate ls).flatMap f = (sep.flatMap f).intercalate (ls.map (·.flatMap f)) := by
  induction ls with
  | nil => rfl
  | cons l ls ih =>
    rcases ls with _ | ⟨l', ls⟩
    · simp
    · rw [List.intercalate_cons_cons, List.flatMap_append, List.flatMap_append, ih]
      simp

theorem mem_intercalate_of_mem (sep : List α) {l : List α} {a : α} (hl : l ∈ ls) (ha : a ∈ l) :
    a ∈ sep.intercalate ls := by
  obtain ⟨ps, qs, rfl⟩ := List.append_of_mem hl
  have hq : a ∈ sep.intercalate (l :: qs) := by
    rcases qs with _ | ⟨q, qs⟩
    · simpa using ha
    · simp [ha]
  by_cases hp : ps = []
  · rw [hp]; exact hq
  · rw [intercalate_append hp (by simp)]
    exact List.mem_append_right _ hq

theorem mem_of_mem_intercalate {a : α} (ha : a ∈ sep.intercalate ls) :
    a ∈ sep ∨ ∃ l ∈ ls, a ∈ l := by
  induction ls with
  | nil => cases ha
  | cons l ls ih =>
    rcases ls with _ | ⟨l', ls⟩
    · rw [List.intercalate_singleton] at ha
      exact Or.inr ⟨l, List.mem_cons_self, ha⟩
    · rw [List.intercalate_cons_cons, List.append_assoc, List.mem_append, List.mem_append] at ha
      rcases ha with ha | ha | ha
      · exact Or.inr ⟨l, List.mem_cons_self, ha⟩
      · exact Or.inl ha
      · rcases ih ha with ha | ⟨x, hx, ha⟩
        · exact Or.inl ha
        · exact Or.inr ⟨x, List.mem_cons_of_mem _ hx, ha⟩

/-- The pieces between separators have none. -/
theorem not_mem_of_mem_splitOn [DecidableEq α] {a : α} {l m : List α} (h : m ∈ l.splitOn a) : a ∉ m := by
  induction l generalizing m with
  | nil =>
    rw [List.splitOn_nil, List.mem_singleton] at h
    rw [h]
    exact List.not_mem_nil
  | cons b l ih =>
    rw [List.splitOn_cons_eq_if_modifyHead] at h
    by_cases hb : (b == a) = true
    · rw [if_pos hb] at h
      rcases List.mem_cons.mp h with rfl | h
      · exact List.not_mem_nil
      · exact ih h
    · rw [if_neg hb] at h
      rcases hs : l.splitOn a with _ | ⟨p, ps⟩
      · exact absurd hs (List.splitOn_ne_nil a l)
      · rw [hs, List.modifyHead_cons] at h
        rcases List.mem_cons.mp h with rfl | h
        · have hp : a ∉ p := ih (hs ▸ List.mem_cons_self)
          have hba : a ≠ b := fun hab => hb (by rw [hab]; simp)
          simp [hp, hba]
        · exact ih (hs ▸ List.mem_cons_of_mem p h)

/-- The last pieces joined are the whole, or its end after a separator. -/
theorem intercalate_suffix (sep : List α) (h : qs <:+ ls) (hq : qs ≠ []) :
    sep.intercalate ls = sep.intercalate qs ∨ sep ++ sep.intercalate qs <:+ sep.intercalate ls := by
  obtain ⟨ps, rfl⟩ := h
  by_cases hp : ps = []
  · left; rw [hp]; rfl
  · right
    rw [intercalate_append hp hq, List.append_assoc]
    exact List.suffix_append _ _

end

end HexDns.Lib.Texts
