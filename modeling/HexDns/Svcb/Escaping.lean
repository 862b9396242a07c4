import HexDns.Svcb.Decode

/-! # The two layers of escapes of a list of values

A list of byte strings is written in two layers: `joinItems` puts a backslash in front of the commas and
backslashes of each item and joins the items with commas, `quoted` writes the result as a character string
between quotes. `decode_quoted`: `decode_char_str` takes the second layer off and `decode_svcb_comma_list`
the first. Both decoders are scanners, and `scan_flatMap` reduces each layer to one byte. -/

namespace HexDns.Svcb.Escaping

open HexDns.Lib.Texts HexDns.Lib.Programs HexDns.Lib.Scanners HexDns.Base.Py HexDns.Svcb.Decode

/-! ### Writing -/

/-- A byte of an item, with a backslash in front of a comma or a backslash. -/
def escapeItemByte (b : UInt8) : Bytes := if b = 44 ∨ b = 92 then [92, b] else [b]

/-- The items with their escapes, joined by commas. -/
def joinItems (items : List Bytes) : Bytes := [44].intercalate (items.map (·.flatMap escapeItemByte))

/-- A backslash and the three digits of a byte. -/
def decimalEscape (b : UInt8) : Bytes :=
  [92, UInt8.ofNat (48 + b.toNat / 100), UInt8.ofNat (48 + b.toNat / 10 % 10),
    UInt8.ofNat (48 + b.toNat % 10)]

/-- A byte of a quoted string: a quote or a backslash after a backslash, a byte that the quoted form
admits as it is, any other one in digits. -/
def quoteByte (b : UInt8) : Bytes :=
  if b = 34 ∨ b = 92 then [92, b]
  else if isNonSpecialChar b = true ∨ b = 32 then [b]
  else decimalEscape b

/-- A byte string as a quoted character string. -/
def quoted (value : Bytes) : Bytes := 34 :: value.flatMap quoteByte ++ [34]

/-! ### One byte -/

theorem ne_of_isNonSpecialChar {b : UInt8} (h : isNonSpecialChar b = true) : b ≠ 92 ∧ b ≠ 34 := by
  constructor
  · rintro rfl
    cases h
  · rintro rfl
    cases h

theorem toNat_digit {n : ℕ} (hn : n < 10) : (UInt8.ofNat (48 + n)).toNat = 48 + n := by
  rw [UInt8.toNat_ofNat', Nat.mod_eq_of_lt (by omega)]

theorem isDigitChar_digit {n : ℕ} (hn : n < 10) : isDigitChar (UInt8.ofNat (48 + n)) = true := by
  unfold isDigitChar
  rw [toNat_digit hn]
  simp only [Bool.and_eq_true, decide_eq_true_eq]
  omega

theorem not_isNonDigitChar {b : UInt8} (h : isDigitChar b = true) : isNonDigitChar b = false := by
  unfold isDigitChar at h
  unfold isNonDigitChar
  simp only [Bool.and_eq_true, decide_eq_true_eq] at h
  simp only [Bool.or_eq_false_iff, Bool.and_eq_false_iff, decide_eq_false_iff_not]
  omega

/-- Three digits are read as the byte. -/
theorem decodeEscaped_digits (b : UInt8) (rest : Bytes) :
    decodeEscaped ((decimalEscape b).tail ++ rest) = .ok (b, rest) := by
  have hb := b.toNat_lt
  have h1 : b.toNat / 100 < 10 := by omega
  have h2 : b.toNat / 10 % 10 < 10 := Nat.mod_lt _ (by decide)
  have h3 : b.toNat % 10 < 10 := Nat.mod_lt _ (by decide)
  have hval : (48 + b.toNat / 100 - 48) * 100 + (48 + b.toNat / 10 % 10 - 48) * 10 +
      (48 + b.toNat % 10 - 48) = b.toNat := by omega
  unfold decimalEscape decodeEscaped
  dsimp only [List.tail_cons, List.cons_append, List.nil_append]
  rw [not_isNonDigitChar (isDigitChar_digit h1), isDigitChar_digit h1, isDigitChar_digit h2,
    isDigitChar_digit h3, toNat_digit h1, toNat_digit h2, toNat_digit h3, hval, if_neg (by decide),
    if_pos (by decide), if_neg (by omega), UInt8.ofNat_toNat]

theorem contiguousStep_quoteByte (b : UInt8) (rest : Bytes) :
    contiguousStep true (quoteByte b ++ rest) = .ok (some (b, rest)) := by
  unfold quoteByte
  by_cases hslash : b = 34 ∨ b = 92
  · rw [if_pos hslash]
    rcases hslash with rfl | rfl
    · rfl
    · rfl
  · rw [if_neg hslash]
    obtain ⟨hquote, hslash⟩ := not_or.mp hslash
    by_cases hplain : isNonSpecialChar b = true ∨ b = 32
    · rw [if_pos hplain]
      have hcond : (isNonSpecialChar b || (b = 32 && true)) = true := by
        simpa using hplain
      show (if b = 92 then _ else if _ then _ else _) = _
      rw [if_neg hslash, if_pos hcond]
      rfl
    · rw [if_neg hplain]
      show (decodeEscaped ((decimalEscape b).tail ++ rest)).map some = _
      rw [decodeEscaped_digits]
      rfl

theorem itemStep_escapeItemByte (b : UInt8) (rest : Bytes) :
    itemStep (escapeItemByte b ++ rest) = .ok (some (b, rest)) := by
  unfold escapeItemByte
  by_cases hb : b = 44 ∨ b = 92
  · rw [if_pos hb]
    rcases hb with rfl | rfl
    · rfl
    · rfl
  · rw [if_neg hb]
    obtain ⟨hcomma, hslash⟩ := not_or.mp hb
    have hallowed : isItemAllowedChar b = true := by
      have hcomma : b.toNat ≠ 44 := fun h => hcomma (UInt8.toNat_inj.mp h)
      have hslash : b.toNat ≠ 92 := fun h => hslash (UInt8.toNat_inj.mp h)
      unfold isItemAllowedChar
      simp only [Bool.or_eq_true, Bool.and_eq_true, decide_eq_true_eq]
      omega
    show (if isItemAllowedChar b = true then _ else _) = _
    rw [if_pos hallowed]
    rfl

/-! ### The two layers -/

/-- **A quoted string is read back**, whatever follows it. -/
theorem decodeCharStr_quoted (value rest : Bytes) :
    decodeCharStr (quoted value ++ rest) = .ok (value, rest) := by
  have hscan : decodeContiguousStr true (value.flatMap quoteByte ++ 34 :: rest) =
      .ok (value, 34 :: rest) := by
    have hstop : scan (contiguousStep true) (34 :: rest) = .ok ([], 34 :: rest) := scan_stop rfl
    unfold decodeContiguousStr
    rw [scan_flatMap (consumes_contiguousStep true) fun b _ rest => contiguousStep_quoteByte b rest, hstop]
    show Except.ok (value ++ [], 34 :: rest) = _
    rw [List.append_nil]
  have heq : quoted value ++ rest = 34 :: (value.flatMap quoteByte ++ 34 :: rest) := by
    unfold quoted
    simp
  rw [heq]
  exact decodeCharStr_eq_ok.mpr (Or.inl ⟨rfl, hscan⟩)

theorem decodeEscapedItem_escaped {item rest : Bytes} (hstop : itemStep rest = .ok none) :
    decodeEscapedItem (item.flatMap escapeItemByte ++ rest) = .ok (item, rest) := by
  unfold decodeEscapedItem
  rw [scan_flatMap consumes_itemStep fun b _ rest => itemStep_escapeItemByte b rest, scan_stop hstop]
  show Except.ok (item ++ [], rest) = _
  rw [List.append_nil]

theorem joinItems_cons_cons (item item' : Bytes) (items : List Bytes) : joinItems (item :: item' :: items) =
    item.flatMap escapeItemByte ++ 44 :: joinItems (item' :: items) := by
  unfold joinItems
  rw [List.map_cons, List.map_cons, List.intercalate_cons_cons, List.append_assoc]
  rfl

/-- **The items are read back** from their escapes between commas. -/
theorem decodeSvcbCommaList_joinItems {items : List Bytes} (h : items ≠ []) :
    decodeSvcbCommaList (joinItems items) = .ok items := by
  induction items with
  | nil => exact absurd rfl h
  | cons item items ih =>
    rw [decodeSvcbCommaList_eq]
    rcases items with _ | ⟨item', items⟩
    · have hjoin : joinItems [item] = item.flatMap escapeItemByte ++ [] := by
        unfold joinItems
        rw [List.map_singleton, List.intercalate_singleton, List.append_nil]
      rw [hjoin, decodeEscapedItem_escaped rfl]
      rfl
    · rw [joinItems_cons_cons, decodeEscapedItem_escaped rfl]
      show (do return item :: (← decodeSvcbCommaList (joinItems (item' :: items)))) = _
      rw [ih (by simp)]
      rfl

/-- A round takes the escape of the byte it gives, and only an unescaped comma stops the loop. -/
theorem itemStep_inv (data : Bytes) : (∀ b rest, itemStep data = .ok (some (b, rest)) → data = escapeItemByte b ++ rest) ∧
    (itemStep data = .ok none → data = [] ∨ ∃ rest, data = 44 :: rest) := by
  rcases data with _ | ⟨c, data⟩
  · exact ⟨fun b rest h => (by cases h), fun _ => Or.inl rfl⟩
  have hspecial : isItemAllowedChar c = true ↔ ¬ (c = 44 ∨ c = 92) := by
    rw [← UInt8.toNat_inj, ← UInt8.toNat_inj (b := 92)]
    have hlt : c.toNat < 256 := c.toNat_lt
    unfold isItemAllowedChar
    simp only [Bool.or_eq_true, Bool.and_eq_true, decide_eq_true_eq]
    show _ ↔ ¬ (c.toNat = 44 ∨ c.toNat = 92)
    omega
  unfold itemStep
  dsimp only
  by_cases hallowed : isItemAllowedChar c = true
  · rw [if_pos hallowed]
    refine ⟨fun b rest h => ?_, fun h => (by cases h)⟩
    obtain ⟨rfl, rfl⟩ := Prod.mk.inj (Option.some.inj (Except.ok.inj h))
    unfold escapeItemByte
    rw [if_neg (hspecial.mp hallowed)]
    rfl
  rw [if_neg hallowed]
  by_cases hslash : c = 92
  · rw [if_pos hslash]
    rcases data with _ | ⟨d, data⟩
    · exact ⟨fun b rest h => (by cases h), fun h => (by cases h)⟩
    dsimp only
    by_cases hd : (d = 92 || d = 44) = true
    · rw [if_pos hd]
      refine ⟨fun b rest h => ?_, fun h => (by cases h)⟩
      obtain ⟨rfl, rfl⟩ := Prod.mk.inj (Option.some.inj (Except.ok.inj h))
      have hesc : d = 44 ∨ d = 92 := by simpa [or_comm] using hd
      unfold escapeItemByte
      rw [if_pos hesc, hslash]
      rfl
    · rw [if_neg hd]
      exact ⟨fun b rest h => (by cases h), fun h => (by cases h)⟩
  · rw [if_neg hslash]
    refine ⟨fun b rest h => (by cases h), fun _ => Or.inr ⟨data, ?_⟩⟩
    have hcomma : c = 44 := by
      by_contra hne
      exact hallowed (hspecial.mpr fun h => h.elim hne hslash)
    rw [hcomma]

/-- **An item is read** from its escapes only, up to a comma or the end. -/
theorem decodeEscapedItem_inv {data item rest : Bytes} (h : decodeEscapedItem data = .ok (item, rest)) :
    data = item.flatMap escapeItemByte ++ rest ∧ (rest = [] ∨ ∃ rest', rest = 44 :: rest') := by
  have hscanned := (scan_eq_ok consumes_itemStep).mp h
  clear h
  induction hscanned with
  | stop h => exact ⟨rfl, (itemStep_inv _).2 h⟩
  | more h _ ih =>
    obtain ⟨hdata, hrest⟩ := ih
    refine ⟨?_, hrest⟩
    rw [(itemStep_inv _).1 _ _ h, List.flatMap_cons, List.append_assoc, ← hdata]

theorem joinItems_cons (item : Bytes) (items : List Bytes) : joinItems (item :: items) =
    item.flatMap escapeItemByte ++ items.flatMap fun item => 44 :: item.flatMap escapeItemByte := by
  induction items generalizing item with
  | nil =>
    unfold joinItems
    simp
  | cons item' items ih =>
    rw [joinItems_cons_cons, ih, List.flatMap_cons]
    rfl

/-- **A list of items is read** from what they are joined to, and from nothing else. -/
theorem decodeSvcbCommaList_eq_ok {value : Bytes} {items : List Bytes} :
    decodeSvcbCommaList value = .ok items ↔ items ≠ [] ∧ value = joinItems items := by
  constructor
  · intro h
    induction items generalizing value with
    | nil =>
      rw [decodeSvcbCommaList_eq] at h
      obtain ⟨⟨item, rest⟩, -, h⟩ := bind_eq_ok.mp h
      rcases rest with _ | ⟨c, rest⟩
      · cases h
      · dsimp only at h
        split_ifs at h
        obtain ⟨items, -, h⟩ := bind_eq_ok.mp h
        cases h
    | cons item items ih =>
      refine ⟨List.cons_ne_nil _ _, ?_⟩
      rw [decodeSvcbCommaList_eq] at h
      obtain ⟨⟨item', rest⟩, hitem, h⟩ := bind_eq_ok.mp h
      obtain ⟨hvalue, -⟩ := decodeEscapedItem_inv hitem
      rcases rest with _ | ⟨c, rest⟩
      · obtain ⟨rfl, rfl⟩ := List.cons.inj (Except.ok.inj h)
        rw [hvalue, joinItems_cons]
        rfl
      · dsimp only at h
        split_ifs at h with hcomma
        obtain ⟨items', hitems, h⟩ := bind_eq_ok.mp h
        obtain ⟨rfl, rfl⟩ := List.cons.inj (Except.ok.inj h)
        obtain ⟨hne, hrest⟩ := ih hitems
        obtain ⟨item₂, items₂, rfl⟩ := List.exists_cons_of_ne_nil hne
        rw [hvalue, hrest, joinItems_cons, joinItems_cons, not_not.mp hcomma]
        rfl
  · rintro ⟨hne, rfl⟩
    exact decodeSvcbCommaList_joinItems hne

/-- **The two layers of escapes undo.** A list of byte strings that is not empty, with its commas and
backslashes escaped, joined by commas and written as a quoted character string, is read back by
`decode_char_str` and `decode_svcb_comma_list`, and what follows the string is left. -/
theorem decode_quoted {items : List Bytes} (h : items ≠ []) (rest : Bytes) :
    (do
      let (value, left) ← decodeCharStr (quoted (joinItems items) ++ rest)
      let items' ← decodeSvcbCommaList value
      return (items', left)) = Except.ok (items, rest) := by
  rw [decodeCharStr_quoted]
  show (do
    let items' ← decodeSvcbCommaList (joinItems items)
    return (items', rest)) = _
  rw [decodeSvcbCommaList_joinItems h]
  rfl

/-- The list of a string with a comma and a quote, an empty string, and a string with a backslash and a
zero byte. -/
theorem decode_quoted_three : (do
      let (value, left) ← decodeCharStr (quoted (joinItems [[97, 44, 34], [], [92, 0]]) ++ [])
      let items' ← decodeSvcbCommaList value
      return (items', left)) = Except.ok ([[97, 44, 34], [], [92, 0]], []) :=
  decode_quoted (by decide) []

end HexDns.Svcb.Escaping
