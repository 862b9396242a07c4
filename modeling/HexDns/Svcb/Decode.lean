import HexDns.Base.Py
import HexDns.Lib.Scanners

/-! # The decoders of SVCB texts

The functions of `svcb.py` that take bytes off the start of a buffer. Each gives what it returns together
with what is left in the buffer. The loops that pop a byte, look at it and put it back when it is not for
them are scanners, and their bodies are the steps of these.

`data[0]` and `data.pop(0)` on an empty buffer are an `IndexError`. The loops catch it; `decodeCharStr` and
the blanks in `decodeSvcbParam` do not. -/

namespace HexDns.Svcb.Decode

open HexDns.Lib.Texts HexDns.Lib.Programs HexDns.Lib.Scanners HexDns.Base.Py

/-! ### Classes of bytes -/

/-- `is_item_allowed_char` -/
def isItemAllowedChar (char : UInt8) : Bool :=
  char.toNat ≤ 0x2b || (0x2d ≤ char.toNat && char.toNat ≤ 0x5b) || 0x5d ≤ char.toNat

/-- `is_non_special_char` -/
def isNonSpecialChar (char : UInt8) : Bool :=
  char.toNat = 0x21 || (0x23 ≤ char.toNat && char.toNat ≤ 0x27) ||
    (0x2a ≤ char.toNat && char.toNat ≤ 0x3a) || (0x3c ≤ char.toNat && char.toNat ≤ 0x5b) ||
    (0x5d ≤ char.toNat && char.toNat ≤ 0x7e)

/-- `is_non_digit_char` -/
def isNonDigitChar (char : UInt8) : Bool :=
  (0x21 ≤ char.toNat && char.toNat ≤ 0x2f) || (0x3a ≤ char.toNat && char.toNat ≤ 0x7e)

/-- `is_digit_char` -/
def isDigitChar (char : UInt8) : Bool := 0x30 ≤ char.toNat && char.toNat ≤ 0x39

/-- `is_wsp` -/
def isWsp (char : UInt8) : Bool := char = 32 || char = 9

/-- A byte of a key: a small letter, a digit or `-`. -/
def isKeyChar (char : UInt8) : Bool :=
  (0x61 ≤ char.toNat && char.toNat ≤ 0x7a) || isDigitChar char || char = 45

/-! ### Character strings -/

/-- `decode_escaped` -/
def decodeEscaped : Bytes → Except PyErr (UInt8 × Bytes)
  | [] => .error .validationError
  | f :: data =>
    if isNonDigitChar f then .ok (f, data)
    else
      match data with
      | d2 :: d3 :: data =>
        if isDigitChar f && isDigitChar d2 && isDigitChar d3 then
          let val := (f.toNat - 0x30) * 100 + (d2.toNat - 0x30) * 10 + (d3.toNat - 0x30)
          if 255 < val then .error .validationError else .ok (UInt8.ofNat val, data)
        else .error .validationError
      | _ => .error .validationError

/-- The body of the loop of `decode_contiguous_str`. -/
def contiguousStep (allowSpace : Bool) : Step UInt8 UInt8 PyErr
  | [] => .ok none
  | c :: data =>
    if c = 92 then (decodeEscaped data).map some
    else if isNonSpecialChar c || (c = 32 && allowSpace) then .ok (some (c, data))
    else .ok none

/-- `decode_contiguous_str` -/
def decodeContiguousStr (allowSpace : Bool) (data : Bytes) : Except PyErr (Bytes × Bytes) :=
  scan (contiguousStep allowSpace) data

/-- `decode_char_str` -/
def decodeCharStr : Bytes → Except PyErr (Bytes × Bytes)
  | [] => .error .indexError
  | c :: data =>
    if c = 34 then do
      let (out, data) ← decodeContiguousStr true data
      match data with
      | [] => throw .validationError
      | c :: data => if c ≠ 34 then throw .validationError else return (out, data)
    else decodeContiguousStr false (c :: data)

/-- `decode_svcb_param_key` -/
def decodeSvcbParamKey (data : Bytes) : Bytes × Bytes := (data.takeWhile isKeyChar, data.dropWhile isKeyChar)

/-! ### Lists of values -/

/-- The body of the loop of `decode_escaped_item`. -/
def itemStep : Step UInt8 UInt8 PyErr
  | [] => .ok none
  | c :: data =>
    if isItemAllowedChar c then .ok (some (c, data))
    else if c = 92 then
      match data with
      | [] => .error .validationError
      | c :: data => if c = 92 || c = 44 then .ok (some (c, data)) else .error .validationError
    else .ok none

/-- `decode_escaped_item` -/
def decodeEscapedItem (data : Bytes) : Except PyErr (Bytes × Bytes) := scan itemStep data

/-- The loop of `decode_svcb_comma_list`, with more fuel than there are bytes. -/
def commaListFrom : ℕ → Bytes → Except PyErr (List Bytes)
  | 0, _ => .error .other
  | n + 1, data => do
    let (item, data) ← decodeEscapedItem data
    match data with
    | [] => return [item]
    | c :: data => if c ≠ 44 then throw .validationError else return item :: (← commaListFrom n data)

/-- `decode_svcb_comma_list`, which leaves nothing over -/
def decodeSvcbCommaList (data : Bytes) : Except PyErr (List Bytes) :=
  commaListFrom (data.length + 1) data

/-! ### Parameters -/

/-- What follows a key: `=` and a value, a blank, or the end. -/
def decodeAfterKey (key : Bytes) : Bytes → Except PyErr ((Bytes × Bytes) × Bytes)
  | [] => .ok ((key, []), [])
  | c :: data =>
    if c = 61 then (decodeCharStr data).map fun r => ((key, r.1), r.2)
    else if isWsp c then .ok ((key, []), data)
    else .error .validationError

/-- The body of the loop of `decode_svcb_param_list`: a key and its value. -/
def decodeSvcbParam (data : Bytes) : Except PyErr ((Bytes × Bytes) × Bytes) :=
  let data := data.dropWhile isWsp
  if data = [] then .error .indexError
  else
    let (key, data) := decodeSvcbParamKey data
    decodeAfterKey key data

/-- The loop of `decode_svcb_param_list`, with more fuel than there are bytes: what it puts into `params`,
in the order in which it does. -/
def paramsFrom : ℕ → Bytes → Except PyErr (List (Bytes × Bytes))
  | 0, _ => .error .other
  | n + 1, data => do
    let (param, data) ← decodeSvcbParam data
    if data = [] then return [param] else return param :: (← paramsFrom n data)

/-- The pairs of key and value of a text. -/
def decodeParams (data : Bytes) : Except PyErr (List (Bytes × Bytes)) := paramsFrom (data.length + 1) data

/-! ### What the decoders take and what they raise -/

/-- An escape is one byte that is no digit, or three digits. -/
theorem decodeEscaped_eq_ok {data rest : Bytes} {b : UInt8} (h : decodeEscaped data = .ok (b, rest)) :
    (isNonDigitChar b = true ∧ data = b :: rest) ∨
      ∃ d1 d2 d3 : UInt8, isNonDigitChar d1 = false ∧ isDigitChar d1 = true ∧ isDigitChar d2 = true ∧
        isDigitChar d3 = true ∧ data = d1 :: d2 :: d3 :: rest ∧
        (d1.toNat - 0x30) * 100 + (d2.toNat - 0x30) * 10 + (d3.toNat - 0x30) = b.toNat := by
  unfold decodeEscaped at h
  rcases data with _ | ⟨f, data⟩
  · cases h
  · dsimp only at h
    by_cases hf : isNonDigitChar f = true
    · rw [if_pos hf] at h
      cases h
      exact Or.inl ⟨hf, rfl⟩
    · rw [if_neg hf] at h
      rcases data with _ | ⟨d2, _ | ⟨d3, data⟩⟩
      · cases h
      · cases h
      · dsimp only at h
        by_cases hd : (isDigitChar f && isDigitChar d2 && isDigitChar d3) = true
        · rw [if_pos hd] at h
          split_ifs at h with hval
          cases h
          simp only [Bool.and_eq_true] at hd
          refine Or.inr ⟨f, d2, d3, by simpa using hf, hd.1.1, hd.1.2, hd.2, rfl, ?_⟩
          rw [UInt8.toNat_ofNat', Nat.mod_eq_of_lt (by omega)]
        · rw [if_neg hd] at h
          cases h

theorem raisesOnly_decodeEscaped (data : Bytes) :
    RaisesOnly (· = .validationError) (decodeEscaped data) := by
  unfold decodeEscaped
  rcases data with _ | ⟨f, data⟩
  · exact raisesOnly_error rfl
  · dsimp only
    split_ifs
    · exact raisesOnly_ok _
    · rcases data with _ | ⟨d2, _ | ⟨d3, data⟩⟩
      · exact raisesOnly_error rfl
      · exact raisesOnly_error rfl
      · dsimp only
        split_ifs
        · exact raisesOnly_error rfl
        · exact raisesOnly_ok _
        · exact raisesOnly_error rfl

theorem consumes_contiguousStep (allowSpace : Bool) : Consumes (contiguousStep allowSpace) := by
  intro data b rest h
  rcases data with _ | ⟨c, data⟩
  · cases h
  · unfold contiguousStep at h
    dsimp only at h
    split_ifs at h with hc hplain
    · obtain ⟨r, hr, heq⟩ := exists_of_map_ok h
      cases heq
      rcases decodeEscaped_eq_ok hr with ⟨-, rfl⟩ | ⟨d1, d2, d3, -, -, -, -, rfl, -⟩
      · exact ⟨[c, b], by simp, rfl⟩
      · exact ⟨[c, d1, d2, d3], by simp, rfl⟩
    · cases h
      exact ⟨[b], by simp, rfl⟩
    · cases h

theorem raisesOnly_contiguousStep (allowSpace : Bool) (data : Bytes) :
    RaisesOnly (· = .validationError) (contiguousStep allowSpace data) := by
  unfold contiguousStep
  rcases data with _ | ⟨c, data⟩
  · exact raisesOnly_ok _
  · dsimp only
    split_ifs
    · exact (raisesOnly_decodeEscaped data).map some
    · exact raisesOnly_ok _
    · exact raisesOnly_ok _

theorem raisesOnly_decodeContiguousStr (allowSpace : Bool) (data : Bytes) :
    RaisesOnly (· = .validationError) (decodeContiguousStr allowSpace data) :=
  raisesOnly_scan (consumes_contiguousStep allowSpace) (raisesOnly_contiguousStep allowSpace) data

/-- What `decode_contiguous_str` leaves is an end of the buffer. -/
theorem suffix_decodeContiguousStr {allowSpace : Bool} {data out rest : Bytes}
    (h : decodeContiguousStr allowSpace data = .ok (out, rest)) : rest <:+ data :=
  ((scan_eq_ok (consumes_contiguousStep allowSpace)).mp h).suffix (consumes_contiguousStep allowSpace)

theorem decodeCharStr_eq_ok {c : UInt8} {data out rest : Bytes} :
    decodeCharStr (c :: data) = .ok (out, rest) ↔
      (c = 34 ∧ decodeContiguousStr true data = .ok (out, 34 :: rest)) ∨
        (c ≠ 34 ∧ decodeContiguousStr false (c :: data) = .ok (out, rest)) := by
  unfold decodeCharStr
  dsimp only
  by_cases hc : c = 34
  · rw [if_pos hc, bind_eq_ok]
    constructor
    · rintro ⟨⟨out', data'⟩, hdata, h⟩
      rcases data' with _ | ⟨c', data'⟩
      · cases h
      · dsimp only at h
        split_ifs at h with hne
        cases h
        exact Or.inl ⟨hc, by rw [hdata, not_not.mp hne]⟩
    · rintro (⟨-, h⟩ | ⟨hne, -⟩)
      · exact ⟨_, h, rfl⟩
      · exact absurd hc hne
  · rw [if_neg hc]
    constructor
    · exact fun h => Or.inr ⟨hc, h⟩
    · rintro (⟨heq, -⟩ | ⟨-, h⟩)
      · exact absurd heq hc
      · exact h

theorem suffix_decodeCharStr {data out rest : Bytes} (h : decodeCharStr data = .ok (out, rest)) :
    rest <:+ data := by
  rcases data with _ | ⟨c, data⟩
  · cases h
  · rcases decodeCharStr_eq_ok.mp h with ⟨-, h⟩ | ⟨-, h⟩
    · exact ((List.suffix_cons _ _).trans (suffix_decodeContiguousStr h)).trans (List.suffix_cons _ _)
    · exact suffix_decodeContiguousStr h

/-- **A character string is refused with a `ValidationError`, unless there is none.** -/
theorem raisesOnly_decodeCharStr {data : Bytes} (h : data ≠ []) :
    RaisesOnly (· = .validationError) (decodeCharStr data) := by
  obtain ⟨c, data, rfl⟩ := List.exists_cons_of_ne_nil h
  unfold decodeCharStr
  dsimp only
  split_ifs
  · refine (raisesOnly_decodeContiguousStr true data).bind fun r _ => ?_
    rcases r with ⟨out, _ | ⟨c', rest⟩⟩
    · exact raisesOnly_error rfl
    · dsimp only
      split_ifs
      · exact raisesOnly_error rfl
      · exact raisesOnly_ok _
  · exact raisesOnly_decodeContiguousStr false _

theorem consumes_itemStep : Consumes itemStep := by
  intro data b rest h
  rcases data with _ | ⟨c, data⟩
  · cases h
  · unfold itemStep at h
    dsimp only at h
    split_ifs at h with hplain hc
    · cases h
      exact ⟨[b], by simp, rfl⟩
    · rcases data with _ | ⟨c', data⟩
      · cases h
      · dsimp only at h
        split_ifs at h
        cases h
        exact ⟨[c, b], by simp, rfl⟩
    · cases h

theorem raisesOnly_itemStep (data : Bytes) : RaisesOnly (· = .validationError) (itemStep data) := by
  unfold itemStep
  rcases data with _ | ⟨c, data⟩
  · exact raisesOnly_ok _
  · dsimp only
    split_ifs
    · exact raisesOnly_ok _
    · rcases data with _ | ⟨c', data⟩
      · exact raisesOnly_error rfl
      · dsimp only
        split_ifs
        · exact raisesOnly_ok _
        · exact raisesOnly_error rfl
    · exact raisesOnly_ok _

theorem length_decodeEscapedItem {data item rest : Bytes}
    (h : decodeEscapedItem data = .ok (item, rest)) : rest.length ≤ data.length :=
  (((scan_eq_ok consumes_itemStep).mp h).suffix consumes_itemStep).length_le

/-- More fuel than there are bytes changes nothing. -/
theorem commaListFrom_eq {n m : ℕ} {data : Bytes} (hn : data.length < n) (hm : data.length < m) :
    commaListFrom n data = commaListFrom m data := by
  induction n generalizing data m with
  | zero => omega
  | succ n ih =>
    obtain ⟨m, rfl⟩ := Nat.exists_eq_succ_of_ne_zero (show m ≠ 0 by omega)
    unfold commaListFrom
    rcases hitem : decodeEscapedItem data with e | ⟨item, rest⟩
    · rfl
    · have hlen := length_decodeEscapedItem hitem
      rcases rest with _ | ⟨c, rest⟩
      · rfl
      · have hlt : rest.length < data.length := by
          rw [List.length_cons] at hlen
          omega
        show (if c ≠ 44 then _ else _) = if c ≠ 44 then _ else _
        rw [ih (by omega) (by omega : rest.length < m)]

/-- One round of `decode_svcb_comma_list`. -/
theorem decodeSvcbCommaList_eq (data : Bytes) : decodeSvcbCommaList data = (do
    let (item, data) ← decodeEscapedItem data
    match data with
    | [] => return [item]
    | c :: data => if c ≠ 44 then throw .validationError else return item :: (← decodeSvcbCommaList data)) := by
  unfold decodeSvcbCommaList
  rw [commaListFrom]
  rcases hitem : decodeEscapedItem data with e | ⟨item, rest⟩
  · rfl
  · have hlen := length_decodeEscapedItem hitem
    rcases rest with _ | ⟨c, rest⟩
    · rfl
    · have hlt : rest.length < data.length := by
        rw [List.length_cons] at hlen
        omega
      show (if c ≠ 44 then _ else _) = if c ≠ 44 then _ else _
      rw [commaListFrom_eq hlt (Nat.lt_succ_self _)]

theorem raisesOnly_decodeSvcbCommaList (data : Bytes) :
    RaisesOnly (· = .validationError) (decodeSvcbCommaList data) := by
  induction hn : data.length using Nat.strongRecOn generalizing data with
  | ind n ih =>
    rw [decodeSvcbCommaList_eq]
    refine (raisesOnly_scan consumes_itemStep raisesOnly_itemStep data).bind fun r hr => ?_
    obtain ⟨item, rest⟩ := r
    have hlen := length_decodeEscapedItem hr
    rcases rest with _ | ⟨c, rest⟩
    · exact raisesOnly_ok _
    · rw [List.length_cons] at hlen
      dsimp only
      split_ifs
      · exact raisesOnly_error rfl
      · exact (ih rest.length (by omega) rest rfl).bind fun items _ => raisesOnly_ok _

end HexDns.Svcb.Decode
