import HexDns.Svcb.Grammar

/-! # Printed parameters

`repr` of a parameter list, which the export of a zone writes, read by `decode_svcb_param_list`. The printer
writes the printable bytes of an octet value as they are, the blank, the quote, the backslash and the
brackets among them, and the others as a backslash and their decimal number without leading zeros; a value
with no bytes is nothing after `=`. -/

namespace HexDns.Svcb.Printed

open HexDns.Lib.Texts HexDns.Lib.Programs HexDns.Lib.Scanners HexDns.Base.Py HexDns.Models.Names
  HexDns.Svcb.Decode HexDns.Svcb.Escaping HexDns.Svcb.Addresses HexDns.Svcb.Params HexDns.Svcb.Grammar

/-! ### Names of keys -/

/-- A text of characters that a key is made of. -/
def KeyText (t : Text) : Prop := ∀ c ∈ t, c.toNat < 128 ∧ isKeyChar (UInt8.ofNat c.toNat) = true

/-- A text of characters that are not special. -/
def PlainText (t : Text) : Prop := ∀ c ∈ t, c.toNat < 128 ∧ isNonSpecialChar (UInt8.ofNat c.toNat) = true

theorem isNonSpecialChar_of_isKeyChar {b : UInt8} (h : isKeyChar b = true) : isNonSpecialChar b = true := by
  unfold isKeyChar isDigitChar at h
  unfold isNonSpecialChar
  simp only [Bool.or_eq_true, Bool.and_eq_true, decide_eq_true_eq, ← UInt8.toNat_inj] at h ⊢
  have h45 : (45 : UInt8).toNat = 45 := rfl
  omega

theorem KeyText.plain {t : Text} (h : KeyText t) : PlainText t := fun c hc =>
  ⟨(h c hc).1, isNonSpecialChar_of_isKeyChar (h c hc).2⟩

theorem KeyText.append {t u : Text} (ht : KeyText t) (hu : KeyText u) : KeyText (t ++ u) :=
  List.forall_mem_append.mpr ⟨ht, hu⟩

theorem isKeyChar_of_isDigit {c : Char} (h : c.isDigit = true) :
    c.toNat < 128 ∧ isKeyChar (UInt8.ofNat c.toNat) = true := by
  have hdigit := isDigit_iff.mp h
  have hlt : c.toNat < 128 := by omega
  refine ⟨hlt, ?_⟩
  unfold isKeyChar isDigitChar
  rw [toNat_byteOf hlt]
  simp only [Bool.or_eq_true, Bool.and_eq_true, decide_eq_true_eq]
  omega

theorem keyText_showNat (n : ℕ) : KeyText (showNat n) := fun c hc =>
  isKeyChar_of_isDigit (isDigit_showNat hc)

theorem keyText_showInt (n : ℤ) : KeyText (showInt n) := by
  unfold showInt
  split_ifs
  · exact List.forall_mem_cons.mpr ⟨by decide, keyText_showNat _⟩
  · exact keyText_showNat _

theorem paramMapping_spec : ∀ kv ∈ paramMapping, paramMapping.lookup kv.1 = some kv.2 ∧
    (∀ c ∈ kv.1, c.toNat < 128 ∧ isKeyChar (UInt8.ofNat c.toNat) = true) ∧ kv.1 ≠ [] ∧
    "key".toList.isPrefixOf kv.1 = false := by decide

/-- The name of a key is one of the mapping, or `key` and its number. -/
theorem paramIdToName_cases (k : ℤ) : (∃ kv ∈ paramMapping, (kv.2 : ℤ) = k ∧ paramIdToName k = kv.1) ∨
    paramIdToName k = "key".toList ++ showInt k := by
  rcases hfind : paramMapping.find? (fun kv => decide ((kv.2 : ℤ) = k)) with _ | kv
  · right
    unfold paramIdToName
    rw [hfind]
  · left
    refine ⟨kv, List.mem_of_find?_eq_some hfind, by simpa using List.find?_some hfind, ?_⟩
    unfold paramIdToName
    rw [hfind]

theorem keyText_paramIdToName (k : ℤ) : KeyText (paramIdToName k) ∧ paramIdToName k ≠ [] := by
  rcases paramIdToName_cases k with ⟨kv, hkv, -, hname⟩ | hname
  · obtain ⟨-, hkey, hne, -⟩ := paramMapping_spec kv hkv
    rw [hname]
    exact ⟨hkey, hne⟩
  · have hkey : KeyText "key".toList := by
      show ∀ c ∈ "key".toList, _
      decide
    rw [hname]
    exact ⟨hkey.append (keyText_showInt k), by simp⟩

theorem natOfKey_showNat (n : ℕ) : natOfKey (showNat n) = some n := by
  have hval : Nat.ofDigitChars 10 (showNat n) 0 = n := Nat.ofDigitChars_ten_toDigits
  have hne : showNat n ≠ [] := Nat.toDigits_ne_nil
  unfold natOfKey
  rw [if_pos ⟨hne, fun _ hc => isDigit_showNat hc⟩, hval]

theorem intOfKey_showInt (n : ℤ) : intOfKey (showInt n) = some n := by
  unfold showInt intOfKey
  by_cases hneg : n < 0
  · have hval : -((n.natAbs : ℕ) : ℤ) = n := by omega
    rw [if_pos hneg, List.head?_cons, if_pos rfl, List.tail_cons, natOfKey_showNat, Option.map_some, hval]
  · have hhead : ¬ (showNat n.natAbs).head? = some '-' := by
      intro hhead
      have hdigit := isDigit_showNat (List.mem_of_mem_head? hhead)
      cases hdigit
    have hval : ((n.natAbs : ℕ) : ℤ) = n := by omega
    rw [if_neg hneg, if_neg hhead, natOfKey_showNat, Option.map_some, hval]

/-- **The name of a key is read as the key.** -/
theorem keyId_paramIdToName (k : ℤ) : keyId (paramIdToName k) = .ok k := by
  rcases paramIdToName_cases k with ⟨kv, hkv, hk, hname⟩ | hname
  · obtain ⟨hlookup, -⟩ := paramMapping_spec kv hkv
    unfold keyId
    rw [hname, hlookup, ← hk]
  · have hpos : "key".toList.isPrefixOf ("key".toList ++ showInt k) = true := by
      rw [List.isPrefixOf_iff_prefix]
      exact List.prefix_append _ _
    have hnone : paramMapping.lookup ("key".toList ++ showInt k) = none := by
      refine List.lookup_eq_none_iff.mpr fun kv hkv => ?_
      obtain ⟨-, -, -, hprefix⟩ := paramMapping_spec kv hkv
      by_contra heq
      have heq : "key".toList ++ showInt k = kv.1 := by simpa using heq
      rw [← heq, hpos] at hprefix
      cases hprefix
    have hdrop : ("key".toList ++ showInt k).drop 3 = showInt k := rfl
    unfold keyId
    rw [hname, hnone]
    dsimp only
    rw [if_pos hpos, hdrop, intOfKey_showInt]

theorem paramIdToName_inj {k l : ℤ} (h : paramIdToName k = paramIdToName l) : k = l := by
  have hk := keyId_paramIdToName k
  rw [h, keyId_paramIdToName l] at hk
  exact (Except.ok.inj hk).symm

/-! ### The bytes that are printed -/

/-- The bytes of an octet value in `repr`. -/
def octetBytes (b : UInt8) : Bytes := encode (reprOctet b)

/-- The bytes of a value after `=`. -/
def textBytes : ParamData → Bytes
  | .null => []
  | .octet data => data.flatMap octetBytes
  | .integer data => encode (showNat data)
  | .mandatory params => encode ([','].intercalate (params.map paramIdToName))
  | .alpn alpns => [44].intercalate alpns
  | .ipv4 addrs => encode ([','].intercalate (addrs.map ipv4Text))
  | .ipv6 addrs => encode ([','].intercalate (addrs.map ipv6Text))

/-- A printed parameter: the bytes of its key and of its value, if it has one. -/
abbrev Item := Bytes × Option Bytes

/-- A parameter as it is printed. -/
def SvcbParam.item (p : SvcbParam) : Item :=
  (encode (paramIdToName p.key), if p.data = .null then none else some (textBytes p.data))

/-- The bytes of a printed parameter. -/
def Item.bytes (i : Item) : Bytes := i.1 ++ i.2.elim [] (61 :: ·)

/-- The protocol names of an ALPN value are UTF-8. -/
def Decodes (d : ParamData) : Prop := ∀ vs, d = .alpn vs → ∀ v ∈ vs, (decode v).isSome = true

theorem encode_intercalate (sep : Text) (ts : List Text) :
    encode (sep.intercalate ts) = (encode sep).intercalate (ts.map encode) :=
  flatMap_intercalate _ sep ts

theorem encode_flatMap {α : Type} (f : α → Text) (l : List α) :
    encode (l.flatMap f) = l.flatMap fun a => encode (f a) := by
  unfold encode
  rw [List.flatMap_assoc]

theorem mapM_decodeUtf8 {vs : List Bytes} {ts : List Text} (h : vs.mapM decodeUtf8 = .ok ts) :
    ts.map encode = vs ∧ ∀ v ∈ vs, (decode v).isSome = true := by
  have hone : ∀ {v : Bytes} {t : Text}, decodeUtf8 v = .ok t → decode v = some t := by
    intro v t hv
    unfold decodeUtf8 at hv
    rcases hdec : decode v with _ | u <;> rw [hdec] at hv <;> cases hv
    rfl
  induction vs generalizing ts with
  | nil =>
    cases h
    exact ⟨rfl, fun v hv => by cases hv⟩
  | cons v vs ih =>
    rw [List.mapM_cons] at h
    obtain ⟨t, ht, h⟩ := bind_eq_ok.mp h
    obtain ⟨us, hus, h⟩ := bind_eq_ok.mp h
    cases h
    obtain ⟨henc, hall⟩ := ih hus
    refine ⟨?_, List.forall_mem_cons.mpr ⟨by rw [hone ht]; rfl, hall⟩⟩
    rw [List.map_cons, henc, decode_eq_some.mp (hone ht)]

theorem exists_mapM_decodeUtf8 {vs : List Bytes} (h : ∀ v ∈ vs, (decode v).isSome = true) :
    ∃ ts, vs.mapM decodeUtf8 = .ok ts := by
  obtain ⟨ts, hts, -⟩ := exists_mapM (f := decodeUtf8) (P := fun _ => True) fun v hv => by
    obtain ⟨t, ht⟩ := Option.isSome_iff_exists.mp (h v hv)
    exact ⟨t, by unfold decodeUtf8; rw [ht], trivial⟩
  exact ⟨ts, hts⟩

theorem repr_data {d : ParamData} (hd : Decodes d) (hnull : d ≠ .null) :
    ∃ t, d.repr = .ok t ∧ encode t = textBytes d := by
  rcases d with _ | data | n | params | vs | addrs | addrs
  · exact absurd rfl hnull
  · exact ⟨_, rfl, encode_flatMap reprOctet data⟩
  · exact ⟨_, rfl, rfl⟩
  · exact ⟨_, rfl, rfl⟩
  · obtain ⟨ts, hts⟩ := exists_mapM_decodeUtf8 (hd vs rfl)
    refine ⟨[','].intercalate ts, ?_, ?_⟩
    · show (vs.mapM decodeUtf8).map _ = _
      rw [hts]
      rfl
    · rw [encode_intercalate, (mapM_decodeUtf8 hts).1]
      rfl
  · exact ⟨_, rfl, rfl⟩
  · exact ⟨_, rfl, rfl⟩

theorem decodes_of_repr {d : ParamData} {t : Text} (h : d.repr = .ok t) : Decodes d := by
  rintro vs rfl
  obtain ⟨ts, hts, -⟩ := exists_of_map_ok h
  exact (mapM_decodeUtf8 hts).2

theorem repr_null {p : SvcbParam} (h : p.data = .null) : p.repr = .ok (paramIdToName p.key) := by
  unfold SvcbParam.repr
  rw [h]

theorem repr_value {p : SvcbParam} (h : p.data ≠ .null) :
    p.repr = p.data.repr.map fun t => paramIdToName p.key ++ '=' :: t := by
  unfold SvcbParam.repr
  rcases hd : p.data with _ | d | d | d | d | d | d <;> first | exact absurd hd h | rfl

theorem repr_param {p : SvcbParam} (hd : Decodes p.data) :
    ∃ t, p.repr = .ok t ∧ encode t = Item.bytes (SvcbParam.item p) := by
  unfold SvcbParam.item Item.bytes
  by_cases hnull : p.data = .null
  · rw [repr_null hnull, if_pos hnull]
    exact ⟨_, rfl, (List.append_nil _).symm⟩
  · obtain ⟨t, ht, henc⟩ := repr_data hd hnull
    rw [repr_value hnull, if_neg hnull, ht]
    refine ⟨_, rfl, ?_⟩
    rw [encode_append, encode_cons, henc]
    rfl

theorem decodes_of_repr_param {p : SvcbParam} {t : Text} (h : p.repr = .ok t) : Decodes p.data := by
  by_cases hnull : p.data = .null
  · rw [hnull]
    exact fun vs hvs => by cases hvs
  · rw [repr_value hnull] at h
    obtain ⟨u, hu, -⟩ := exists_of_map_ok h
    exact decodes_of_repr hu

/-- The bytes of a printed parameter list. -/
def printedBytes (params : List SvcbParam) : Bytes :=
  [32].intercalate (params.map fun p => Item.bytes (SvcbParam.item p))

/-- **A parameter list is printed if its protocol names are UTF-8**, one parameter after the other. -/
theorem reprParams_eq (params : List SvcbParam) : ((∃ t, reprParams params = .ok t) ↔
    ∀ p ∈ params, Decodes p.data) ∧ ∀ t, reprParams params = .ok t → encode t = printedBytes params := by
  have hall : (∀ p ∈ params, Decodes p.data) → ∃ ts : List Text, params.mapM SvcbParam.repr = .ok ts ∧
      ts.map encode = params.map fun p => Item.bytes (SvcbParam.item p) := by
    intro hd
    induction params with
    | nil => exact ⟨[], rfl, rfl⟩
    | cons p params ih =>
      obtain ⟨t, ht, henc⟩ := repr_param (hd p List.mem_cons_self)
      obtain ⟨ts, hts, hencs⟩ := ih fun q hq => hd q (List.mem_cons_of_mem _ hq)
      refine ⟨t :: ts, ?_, by rw [List.map_cons, List.map_cons, henc, hencs]⟩
      rw [List.mapM_cons, ht, hts]
      rfl
  have hdecodes : ∀ t, reprParams params = .ok t → ∀ p ∈ params, Decodes p.data := by
    intro t ht p hp
    obtain ⟨ts, hts, -⟩ := exists_of_map_ok ht
    obtain ⟨u, -, hu⟩ := (mem_mapM hts).2 p hp
    exact decodes_of_repr_param hu
  refine ⟨⟨fun ⟨t, ht⟩ => hdecodes t ht, fun hd => ?_⟩, fun t ht => ?_⟩
  · obtain ⟨ts, hts, -⟩ := hall hd
    exact ⟨_, by unfold reprParams; rw [hts]; rfl⟩
  · obtain ⟨ts, hts, henc⟩ := hall (hdecodes t ht)
    unfold reprParams at ht
    rw [hts] at ht
    cases ht
    rw [encode_intercalate, henc]
    rfl

/-! ### Plain texts -/

theorem plainText_intercalate {ts : List Text} (h : ∀ t ∈ ts, PlainText t) :
    PlainText ([','].intercalate ts) := by
  intro c hc
  rcases mem_of_mem_intercalate hc with hc | ⟨t, ht, hc⟩
  · rw [List.mem_singleton.mp hc]
    decide
  · exact h t ht c hc

theorem plain_of_hexValue {c : Char} (h : HexDns.Base.Codecs.hexValue c ≠ none) :
    c.toNat < 128 ∧ isNonSpecialChar (UInt8.ofNat c.toNat) = true := by
  have hrange : (48 ≤ c.toNat ∧ c.toNat ≤ 57) ∨ (97 ≤ c.toNat ∧ c.toNat ≤ 102) ∨
      (65 ≤ c.toNat ∧ c.toNat ≤ 70) := by
    by_contra hno
    refine h ?_
    unfold HexDns.Base.Codecs.hexValue
    rw [if_neg (by omega), if_neg (by omega), if_neg (by omega)]
  have hlt : c.toNat < 128 := by omega
  refine ⟨hlt, ?_⟩
  unfold isNonSpecialChar
  rw [toNat_byteOf hlt]
  simp only [Bool.or_eq_true, Bool.and_eq_true, decide_eq_true_eq]
  omega

theorem plainText_showNat (n : ℕ) : PlainText (showNat n) := (keyText_showNat n).plain

theorem plainText_ipv4Text (a : BitVec 32) : PlainText (ipv4Text a) := by
  intro c hc
  rcases mem_of_mem_intercalate hc with hc | ⟨t, ht, hc⟩
  · rw [List.mem_singleton.mp hc]
    decide
  · obtain ⟨i, -, rfl⟩ := List.mem_map.mp ht
    exact plainText_showNat _ c hc

theorem plainText_ipv6Text (a : BitVec 128) : PlainText (ipv6Text a) := by
  intro c hc
  rcases mem_of_mem_intercalate hc with hc | ⟨t, ht, hc⟩
  · rw [List.mem_singleton.mp hc]
    decide
  · rcases HexDns.Tasks.Addresses.mem_compressHextets ht with rfl | ⟨n, rfl⟩
    · cases hc
    · exact plain_of_hexValue
        (HexDns.Tasks.Addresses.hexValue_ne_none (by decide) (by decide) n c hc)

theorem PlainText.bytes {t : Text} (h : PlainText t) : ∀ b ∈ encode t, isNonSpecialChar b = true := by
  rw [encode_ascii fun c hc => (h c hc).1]
  intro b hb
  obtain ⟨c, hc, rfl⟩ := List.mem_map.mp hb
  exact (h c hc).2

theorem KeyText.bytes {t : Text} (h : KeyText t) : ∀ b ∈ encode t, isKeyChar b = true := by
  rw [encode_ascii fun c hc => (h c hc).1]
  intro b hb
  obtain ⟨c, hc, rfl⟩ := List.mem_map.mp hb
  exact (h c hc).2

theorem asciiText_encode {t : Text} (h : IsAscii t) : asciiText (encode t) = t := by
  unfold asciiText
  rw [encode_ascii h, List.map_map]
  refine (List.map_congr_left fun c hc => ?_).trans (List.map_id' t)
  show Char.ofNat (UInt8.ofNat c.toNat).toNat = c
  rw [toNat_byteOf (h c hc), Char.ofNat_toNat]

/-- The values that are printed without special characters, whatever they are. -/
theorem plain_textBytes {d : ParamData} (hoctet : ∀ data, d ≠ .octet data) (halpn : ∀ vs, d ≠ .alpn vs) :
    ∀ b ∈ textBytes d, isNonSpecialChar b = true := by
  rcases d with _ | data | n | params | vs | addrs | addrs
  · exact fun b hb => by cases hb
  · exact absurd rfl (hoctet data)
  · exact (plainText_showNat n).bytes
  · refine (plainText_intercalate fun t ht => ?_).bytes
    obtain ⟨k, -, rfl⟩ := List.mem_map.mp ht
    exact (keyText_paramIdToName k).1.plain
  · exact absurd rfl (halpn vs)
  · refine (plainText_intercalate fun t ht => ?_).bytes
    obtain ⟨a, -, rfl⟩ := List.mem_map.mp ht
    exact plainText_ipv4Text a
  · refine (plainText_intercalate fun t ht => ?_).bytes
    obtain ⟨a, -, rfl⟩ := List.mem_map.mp ht
    exact plainText_ipv6Text a

/-! ### Printed parameters are read one after the other -/

/-- What a printed value is read as. -/
inductive ItemValue : Option Bytes → Bytes → Prop
  | bare : ItemValue none []
  | plain {v t : Bytes} (ht : Contiguous false v t) : ItemValue (some t) v
  | quoted {v t : Bytes} (ht : Contiguous true v t) : ItemValue (some (34 :: t ++ [34])) v

/-- A key is printed with letters, digits and `-`. -/
def Item.Keyed (i : Item) : Prop := (∀ b ∈ i.1, isKeyChar b = true) ∧ i.1 ≠ []

theorem decodeSvcbParam_blank_cons (data : Bytes) : decodeSvcbParam (32 :: data) = decodeSvcbParam data := rfl

theorem decodeParams_blank_cons (data : Bytes) : decodeParams (32 :: data) = decodeParams data := by
  rcases hparam : decodeSvcbParam data with e | ⟨param, rest⟩
  · rw [decodeParams_error hparam, decodeParams_error ((decodeSvcbParam_blank_cons data).trans hparam)]
  · have hcons := (decodeSvcbParam_blank_cons data).trans hparam
    by_cases hrest : rest = []
    · rw [hrest] at hparam hcons
      rw [decodeParams_last hparam, decodeParams_last hcons]
    · rw [decodeParams_more hparam hrest, decodeParams_more hcons hrest]

theorem decodeSvcbParam_key {key : Bytes} (hk : ∀ b ∈ key, isKeyChar b = true) (hne : key ≠ []) :
    decodeSvcbParam key = .ok ((key, []), []) := by
  have hnil : ∀ f : UInt8 → Bool, ∀ c ∈ ([] : Bytes).head?, f c = false := fun f c hc => by cases hc
  have hblank : ∀ c ∈ ([] : Bytes), isWsp c = true := fun c hc => by cases hc
  have hparam := decodeSvcbParam_split hblank hk (by simpa using hne) (hnil isKeyChar) fun _ => hnil isWsp
  rw [List.nil_append, List.append_nil] at hparam
  exact hparam

theorem decodeSvcbParam_keyValue {key : Bytes} (hk : ∀ b ∈ key, isKeyChar b = true) (data : Bytes) :
    decodeSvcbParam (key ++ 61 :: data) = (decodeCharStr data).map fun r => ((key, r.1), r.2) := by
  have hblank : ∀ c ∈ ([] : Bytes), isWsp c = true := fun c hc => by cases hc
  exact decodeSvcbParam_value hblank hk

section
variable {i : Item} {v : Bytes}

/-- A printed parameter is read in front of the next one. -/
theorem decodeParams_item (hk : i.Keyed) (hv : ItemValue i.2 v) {rest : Bytes} (hrest : rest ≠ []) :
    decodeParams (i.bytes ++ 32 :: rest) = (decodeParams rest).map ((i.1, v) :: ·) := by
  obtain ⟨key, value⟩ := i
  obtain ⟨hkey, hne⟩ := hk
  have hnil : ∀ c ∈ ([] : Bytes), isWsp c = true := fun c hc => by cases hc
  have hvalue : ∀ t : Bytes, decodeCharStr (t ++ 32 :: rest) = .ok (v, 32 :: rest) →
      decodeParams (key ++ 61 :: (t ++ 32 :: rest)) = (decodeParams rest).map ((key, v) :: ·) := by
    intro t ht
    have hparam := decodeSvcbParam_keyValue hkey (t ++ 32 :: rest)
    rw [ht] at hparam
    rw [← decodeParams_blank_cons rest]
    exact decodeParams_more hparam (by simp)
  cases hv with
  | bare =>
    show decodeParams ((key ++ []) ++ 32 :: rest) = _
    rw [List.append_nil]
    exact decodeParams_more (decodeSvcbParam_bare hnil hkey hne rfl) hrest
  | @plain v t ht =>
    show decodeParams ((key ++ 61 :: t) ++ 32 :: rest) = _
    rw [List.append_assoc, List.cons_append]
    refine hvalue t (decodeCharStr_plain ht (by simp) fun c hc => ?_)
    rw [List.head?_cons, Option.mem_some_iff] at hc
    rw [← hc]
    exact ⟨endsStr_of_isWsp rfl, by decide⟩
  | @quoted v t ht =>
    show decodeParams ((key ++ 61 :: (34 :: t ++ [34])) ++ 32 :: rest) = _
    rw [List.append_assoc, List.cons_append]
    refine hvalue (34 :: t ++ [34]) ?_
    rw [List.append_assoc, List.singleton_append]
    exact decodeCharStr_quote ht (32 :: rest)

/-- The last printed parameter is read to the end, if it does not end in `=`. -/
theorem decodeParams_lastItem (hk : i.Keyed) (hv : ItemValue i.2 v) (hlast : i.2 ≠ some []) :
    decodeParams i.bytes = .ok [(i.1, v)] := by
  obtain ⟨key, value⟩ := i
  obtain ⟨hkey, hne⟩ := hk
  have hvalue : ∀ t : Bytes, decodeCharStr t = .ok (v, []) →
      decodeParams (key ++ 61 :: t) = .ok [(key, v)] := by
    intro t ht
    have hparam := decodeSvcbParam_keyValue hkey t
    rw [ht] at hparam
    exact decodeParams_last hparam
  cases hv with
  | bare =>
    show decodeParams (key ++ []) = _
    rw [List.append_nil]
    exact decodeParams_last (decodeSvcbParam_key hkey hne)
  | @plain v t ht =>
    have ht0 : t ≠ [] := fun h => hlast (by rw [h])
    have hstr : decodeCharStr (t ++ []) = .ok (v, []) :=
      decodeCharStr_plain ht (by simpa using ht0) fun c hc => by cases hc
    rw [List.append_nil] at hstr
    exact hvalue t hstr
  | @quoted v t ht => exact hvalue _ (decodeCharStr_quote ht [])

end

theorem intercalate_bytes_ne_nil {i : Item} {items : List Item} (hk : i.Keyed) :
    [32].intercalate ((i :: items).map Item.bytes) ≠ [] := by
  intro hnil
  have hlen := congrArg List.length hnil
  rcases items with _ | ⟨i', items⟩
  · simp [Item.bytes] at hlen
    exact hk.2 hlen.1
  · simp [Item.bytes, List.intercalate_cons_cons] at hlen

/-- **Printed parameters are read** if each is one, and the last does not end in `=`. -/
theorem decodeParams_items {items : List Item} {params : List (Bytes × Bytes)} (hne : items ≠ [])
    (h : List.Forall₂ (fun i kv => i.Keyed ∧ kv.1 = i.1 ∧ ItemValue i.2 kv.2) items params)
    (hlast : ∀ i ∈ items.getLast?, i.2 ≠ some []) :
    decodeParams ([32].intercalate (items.map Item.bytes)) = .ok params := by
  induction h with
  | nil => exact absurd rfl hne
  | @cons i kv items params hi h ih =>
    obtain ⟨hk, hkey, hv⟩ := hi
    have hpair : (i.1, kv.2) = kv := by rw [← hkey]
    rcases h with _ | ⟨hi', h⟩
    · rw [List.map_singleton, List.intercalate_singleton, decodeParams_lastItem hk hv (hlast i rfl), hpair]
    · rename_i i' kv' items params
      have hrest : [32].intercalate ((i' :: items).map Item.bytes) ≠ [] := intercalate_bytes_ne_nil hi'.1
      rw [List.map_cons, List.map_cons, List.intercalate_cons_cons, List.append_assoc,
        List.singleton_append, ← List.map_cons, decodeParams_item hk hv hrest,
        ih (by simp) (by simpa using hlast), hpair]
      rfl

/-! ### Parameters that are printed without blanks and quotes -/

/-- The value is printed without blanks and quotes. -/
def Item.Unquoted (i : Item) : Prop := ∀ t, i.2 = some t → ∀ b ∈ t, isWsp b = false ∧ b ≠ 34

theorem blank_not_mem_contiguous {out t : Bytes} (h : Contiguous false out t) : (32 : UInt8) ∉ t := by
  induction h with
  | nil => exact List.not_mem_nil
  | @cons b p out t hp _ ih =>
    have hp32 : (32 : UInt8) ∉ p := by
      have hdigit : ∀ d, isDigitChar d = true → (32 : UInt8) ≠ d := by
        rintro d hd rfl
        cases hd
      rcases hp with h | h | ⟨h1, h2, h3, -⟩
      · rcases h with h | ⟨-, h⟩
        · intro hmem
          rw [← List.mem_singleton.mp hmem] at h
          cases h
        · cases h
      · intro hmem
        simp only [List.mem_cons, List.not_mem_nil, or_false] at hmem
        rcases hmem with hmem | rfl
        · cases hmem
        · cases h
      · simp only [List.mem_cons, List.not_mem_nil, or_false, not_or]
        exact ⟨by decide, hdigit _ h1, hdigit _ h2, hdigit _ h3⟩
    exact fun hmem => (List.mem_append.mp hmem).elim hp32 ih

/-- Where a printed parameter in front of the next one is read, its value is read to the end. -/
theorem item_of_decodeParams {i : Item} (hk : i.Keyed) (hu : i.Unquoted) {rest : Bytes}
    (hrest : rest ≠ []) {params : List (Bytes × Bytes)}
    (h : decodeParams (i.bytes ++ 32 :: rest) = .ok params) :
    ∃ v params', ItemValue i.2 v ∧ decodeParams rest = .ok params' ∧ params = (i.1, v) :: params' := by
  obtain ⟨key, value⟩ := i
  have hdone : ∀ v, ItemValue value v →
      ∃ v params', ItemValue value v ∧ decodeParams rest = .ok params' ∧ params = (key, v) :: params' := by
    intro v hv
    rw [decodeParams_item hk hv hrest] at h
    obtain ⟨params', hparams, rfl⟩ := exists_of_map_ok h
    exact ⟨v, params', hv, hparams, rfl⟩
  rcases value with _ | t
  · exact hdone [] .bare
  · have hparam := decodeSvcbParam_keyValue (show ∀ b ∈ key, _ from hk.1) (t ++ 32 :: rest)
    have hbytes : Item.bytes (key, some t) ++ 32 :: rest = key ++ 61 :: (t ++ 32 :: rest) := by
      show (key ++ 61 :: t) ++ 32 :: rest = _
      rw [List.append_assoc, List.cons_append]
    rcases hstr : decodeCharStr (t ++ 32 :: rest) with e | ⟨out, left⟩
    · rw [hstr] at hparam
      rw [hbytes, decodeParams_error hparam] at h
      cases h
    · rcases decodeCharStr_forms hstr with ⟨u, -, heq⟩ | ⟨u, hu', heq, hends⟩
      · have hhead : (34 : UInt8) ∈ t := by
          rcases t with _ | ⟨c, t⟩
          · cases heq
          · rw [List.cons_append, List.cons_append] at heq
            rw [(List.cons.inj heq).1]
            exact List.mem_cons_self
        exact absurd rfl (hu t rfl 34 hhead).2
      · -- what is left starts in the value or with the blank after it
        have hleft : ∃ c left', left = c :: left' := by
          rcases left with _ | ⟨c, left⟩
          · have hmem : (32 : UInt8) ∈ u := by
              rw [List.append_nil] at heq
              rw [← heq]
              simp
            exact absurd hmem (blank_not_mem_contiguous hu')
          · exact ⟨c, left, rfl⟩
        obtain ⟨c, left, rfl⟩ := hleft
        have hw : isWsp c = true := by
          by_contra hw
          rw [hstr] at hparam
          rw [hbytes, decodeParams_more hparam (by simp),
            decodeParams_endsStr (hends c rfl) (by simpa using hw)] at h
          cases h
        have hut : u = t := by
          rcases List.append_eq_append_iff.mp heq with ⟨m, rfl, hm⟩ | ⟨m, rfl, hm⟩
          · rcases m with _ | ⟨b, m⟩
            · exact List.append_nil _
            · have hb : b = 32 := (List.cons.inj hm).1.symm
              have hmem : (32 : UInt8) ∈ t ++ b :: m := by
                rw [hb]
                simp
              exact absurd hmem (blank_not_mem_contiguous hu')
          · rcases m with _ | ⟨b, m⟩
            · exact (List.append_nil _).symm
            · have hb : c = b := (List.cons.inj hm).1
              have hfalse := (hu _ rfl b (by simp)).1
              rw [← hb, hw] at hfalse
              cases hfalse
        rw [hut] at hu'
        exact hdone out (.plain hu')

/-- Where the last printed parameter is read, it does not end in `=`, and its value is read to the end. -/
theorem lastItem_of_decodeParams {i : Item} (hk : i.Keyed) (hu : i.Unquoted)
    {params : List (Bytes × Bytes)} (h : decodeParams i.bytes = .ok params) :
    ∃ v, ItemValue i.2 v ∧ i.2 ≠ some [] ∧ params = [(i.1, v)] := by
  obtain ⟨key, value⟩ := i
  have hdone : ∀ v, ItemValue value v → value ≠ some [] →
      ∃ v, ItemValue value v ∧ value ≠ some [] ∧ params = [(key, v)] := by
    intro v hv hne
    rw [decodeParams_lastItem hk hv hne] at h
    exact ⟨v, hv, hne, (Except.ok.inj h).symm⟩
  rcases value with _ | t
  · exact hdone [] .bare fun h => by cases h
  · have hparam := decodeSvcbParam_keyValue (show ∀ b ∈ key, _ from hk.1) t
    have hbytes : Item.bytes (key, some t) = key ++ 61 :: t := rfl
    rcases hstr : decodeCharStr t with e | ⟨out, left⟩
    · rw [hstr] at hparam
      rw [hbytes, decodeParams_error hparam] at h
      cases h
    · have hne : t ≠ [] := by
        rintro rfl
        cases hstr
      rcases decodeCharStr_forms hstr with ⟨u, -, heq⟩ | ⟨u, hu', heq, hends⟩
      · exact absurd rfl (hu t rfl 34 (by rw [heq]; simp)).2
      · rcases left with _ | ⟨c, left⟩
        · rw [List.append_nil] at heq
          rw [← heq] at hu'
          exact hdone out (.plain hu') fun h => hne (Option.some.inj h)
        · have hw := (hu t rfl c (by rw [heq]; simp)).1
          rw [hstr] at hparam
          rw [hbytes, decodeParams_more hparam (by simp), decodeParams_endsStr (hends c rfl) hw] at h
          cases h

/-- **Without blanks and quotes printed parameters are read so only.** -/
theorem items_of_decodeParams {items : List Item} (hk : ∀ i ∈ items, i.Keyed)
    (hu : ∀ i ∈ items, i.Unquoted) {params : List (Bytes × Bytes)} (hne : items ≠ [])
    (h : decodeParams ([32].intercalate (items.map Item.bytes)) = .ok params) :
    List.Forall₂ (fun i kv => kv.1 = i.1 ∧ ItemValue i.2 kv.2) items params ∧
      ∀ i ∈ items.getLast?, i.2 ≠ some [] := by
  induction items generalizing params with
  | nil => exact absurd rfl hne
  | cons i items ih =>
    have hki := hk i List.mem_cons_self
    have hui := hu i List.mem_cons_self
    rcases items with _ | ⟨i', items⟩
    · rw [List.map_singleton, List.intercalate_singleton] at h
      obtain ⟨v, hv, hlast, rfl⟩ := lastItem_of_decodeParams hki hui h
      refine ⟨.cons ⟨rfl, hv⟩ .nil, fun j hj => ?_⟩
      rw [List.getLast?_singleton, Option.mem_some_iff] at hj
      rw [← hj]
      exact hlast
    · have hrest : [32].intercalate ((i' :: items).map Item.bytes) ≠ [] :=
        intercalate_bytes_ne_nil (hk i' (by simp))
      rw [List.map_cons, List.map_cons, List.intercalate_cons_cons, List.append_assoc,
        List.singleton_append, ← List.map_cons] at h
      obtain ⟨v, params', hv, hparams, rfl⟩ := item_of_decodeParams hki hui hrest h
      obtain ⟨hall, hlast⟩ := ih (fun j hj => hk j (List.mem_cons_of_mem _ hj))
        (fun j hj => hu j (List.mem_cons_of_mem _ hj)) (by simp) hparams
      exact ⟨.cons ⟨rfl, hv⟩ hall, by simpa using hlast⟩

end HexDns.Svcb.Printed
