import HexDns.Svcb.Printed
import Mathlib.Algebra.BigOperators.Group.List.Basic
import Mathlib.Algebra.Order.BigOperators.Group.List

/-! # Which printed parameters are read back

`Printable`: every byte of an octet value is printed as the decoder reads it, every ALPN value is one
character string, and the last parameter does not end in `=`. `Printable` lists are read back
(`parsesBack_of_printable`). Conversely a list that is read back is `Printable`, if its protocol names have
no blanks, quotes and backslashes. That takes two counts. Every special byte of an octet value is the value
of an escape, and there are no more escapes than backslashes, so that the printer has written a backslash
for each special byte; hence no quote is printed, and, counted again without quoted strings, no blank. So
the text falls apart at its blanks, each value is read from its own piece, and a piece is as long as what it
is read as only if every byte was printed as it is read. -/

namespace HexDns.Svcb.RoundTrip

open HexDns.Lib.Texts HexDns.Lib.Programs HexDns.Lib.Scanners HexDns.Base.Py HexDns.Models.Names
  HexDns.Svcb.Decode HexDns.Svcb.Escaping HexDns.Svcb.Params HexDns.Svcb.Grammar HexDns.Svcb.Printed

/-! ### The condition -/

/-- A byte that is printed as it is read: one that is not special, or one with three digits. -/
def PlainOctet (b : UInt8) : Prop := isNonSpecialChar b = true ∨ 127 ≤ b.toNat

/-- The bytes of a text that is one character string. -/
def CharString (t : Bytes) : Prop :=
  (∃ v, Contiguous false v t) ∨ ∃ v u, Contiguous true v u ∧ t = 34 :: u ++ [34]

/-- Data that are printed as one character string, with the octets that are read there. -/
def PrintableData (d : ParamData) : Prop :=
  (∀ data, d = .octet data → ∀ b ∈ data, PlainOctet b) ∧
    ∀ vs, d = .alpn vs → (∀ v ∈ vs, (decode v).isSome = true) ∧ CharString ([44].intercalate vs)

/-- Something is printed after `=`, or no `=` is. -/
def NotEmpty (d : ParamData) : Prop := d = .null ∨ textBytes d ≠ []

/-- A parameter list that is not empty, with printable data, whose last parameter does not end in `=`. -/
def Printable (params : List SvcbParam) : Prop :=
  params ≠ [] ∧ (∀ p ∈ params, PrintableData p.data) ∧ ∀ p ∈ params.getLast?, NotEmpty p.data

/-- The protocol names have no blanks, quotes and backslashes. -/
def PlainAlpns (params : List SvcbParam) : Prop :=
  ∀ p ∈ params, ∀ vs, p.data = .alpn vs → ∀ v ∈ vs, ∀ b ∈ v, isWsp b = false ∧ b ≠ 34 ∧ b ≠ 92

/-- What comes back for a parameter: the key, and the bytes of an octet or an empty value. -/
def Same (p q : SvcbParam) : Prop :=
  q.key = p.key ∧ (∀ data, p.data = .octet data → q.data = .octet data) ∧
    (p.data = .null → q.data = .octet [])

/-- The list is printed, and what is printed is read as a list with the same keys, and the same bytes for
the octet and the empty values. -/
def ParsesBack (params : List SvcbParam) : Prop :=
  ∃ t out, reprParams params = .ok t ∧ decodeSvcbParamList t = .ok out ∧
    (∀ k, k ∈ out.map SvcbParam.key ↔ k ∈ params.map SvcbParam.key) ∧ ∀ p ∈ params, ∃ q ∈ out, Same p q

/-! ### Dictionaries -/

section
variable {κ β : Type} [DecidableEq κ]

theorem dictSet_of_not_mem {acc : List (κ × β)} {item : κ × β} (h : item.1 ∉ acc.map Prod.fst) :
    dictSet acc item = acc ++ [item] := by
  unfold dictSet
  rw [if_neg h]

/-- Distinct keys stay in their order. -/
theorem foldl_dictSet_of_nodup {acc params : List (κ × β)} (h : ((acc ++ params).map Prod.fst).Nodup) :
    params.foldl dictSet acc = acc ++ params := by
  induction params generalizing acc with
  | nil => exact (List.append_nil acc).symm
  | cons item params ih =>
    have hnot : item.1 ∉ acc.map Prod.fst := by
      rw [List.map_append, List.nodup_append] at h
      intro hmem
      exact h.2.2 item.1 hmem item.1 (by simp) rfl
    rw [List.foldl_cons, dictSet_of_not_mem hnot, ih (by simpa using h), List.append_assoc,
      List.singleton_append]

/-- The entry of a key that is set again is exchanged. -/
theorem dictSet_of_mem {acc : List (κ × β)} {item : κ × β} (hd : (acc.map Prod.fst).Nodup)
    (h : item.1 ∈ acc.map Prod.fst) : ∃ l v r, acc = l ++ (item.1, v) :: r ∧ dictSet acc item = l ++ item :: r := by
  obtain ⟨p, hp, hkey⟩ := List.mem_map.mp h
  obtain ⟨l, r, rfl⟩ := List.append_of_mem hp
  have hother : ∀ q ∈ l ++ r, ¬ q.1 = item.1 := by
    intro q hq heq
    rw [List.map_append, List.map_cons, List.nodup_append, List.nodup_cons] at hd
    rcases List.mem_append.mp hq with hq | hq
    · exact hd.2.2 q.1 (List.mem_map_of_mem hq) p.1 List.mem_cons_self (heq.trans hkey.symm)
    · exact hd.2.1.1 (by rw [hkey, ← heq]; exact List.mem_map_of_mem hq)
  have hsame : ∀ m : List (κ × β), (∀ q ∈ m, q ∈ l ++ r) →
      (m.map fun q => if q.1 = item.1 then item else q) = m := fun m hm =>
    (List.map_congr_left fun q hq => if_neg (hother q (hm q hq))).trans (List.map_id' m)
  refine ⟨l, p.2, r, by rw [← hkey], ?_⟩
  unfold dictSet
  rw [if_pos h, List.map_append, List.map_cons, if_pos hkey,
    hsame l fun q hq => List.mem_append_left _ hq, hsame r fun q hq => List.mem_append_right _ hq]

/-- What the values of a dictionary add up to is no more than what was put into it. -/
theorem sum_foldl_dictSet (f : β → ℕ) {acc params : List (κ × β)} (hd : (acc.map Prod.fst).Nodup) :
    ((params.foldl dictSet acc).map fun p => f p.2).sum ≤
      (acc.map fun p => f p.2).sum + (params.map fun p => f p.2).sum := by
  induction params generalizing acc with
  | nil => simp
  | cons item params ih =>
    rw [List.foldl_cons, List.map_cons, List.sum_cons]
    by_cases hmem : item.1 ∈ acc.map Prod.fst
    · obtain ⟨l, v, r, rfl, hset⟩ := dictSet_of_mem hd hmem
      rw [hset]
      refine (ih (by simpa using hd)).trans ?_
      simp only [List.map_append, List.map_cons, List.sum_append, List.sum_cons]
      omega
    · rw [dictSet_of_not_mem hmem]
      refine (ih ?_).trans ?_
      · rw [List.map_append, List.map_singleton]
        exact List.nodup_append.mpr ⟨hd, List.nodup_singleton _, fun a ha b hb hab =>
          hmem (by rw [← List.mem_singleton.mp hb, ← hab]; exact ha)⟩
      · simp only [List.map_append, List.map_cons, List.map_nil, List.sum_append, List.sum_cons, List.sum_nil]
        omega

end

/-! ### Reading back -/

/-- The name of a key is read as the key. -/
theorem keyId_name (k : ℤ) : keyId (asciiText (encode (paramIdToName k))) = .ok k := by
  have hascii : IsAscii (paramIdToName k) := fun c hc => ((keyText_paramIdToName k).1 c hc).1
  rw [asciiText_encode hascii, keyId_paramIdToName]

theorem octetParam_name (k : ℤ) (v : Bytes) :
    octetParam (encode (paramIdToName k), v) = .ok ⟨k, .octet v⟩ := by
  unfold octetParam svcbParam
  rw [keyId_name]
  rfl

theorem keyed_item (p : SvcbParam) : (SvcbParam.item p).Keyed := by
  obtain ⟨hkey, hne⟩ := keyText_paramIdToName p.key
  exact ⟨hkey.bytes, mt encode_eq_nil_iff.mp hne⟩

/-- Distinct keys with the values that are read for them. -/
theorem decode_keys {params : List SvcbParam} (hd : (params.map SvcbParam.key).Nodup) {t : Text}
    {value : SvcbParam → Bytes}
    (h : decodeParams (encode t) = .ok (params.map fun p => (encode (paramIdToName p.key), value p))) :
    decodeSvcbParamList t = .ok (params.map fun p => ⟨p.key, .octet (value p)⟩) := by
  have hnodup : ((params.map fun p => (encode (paramIdToName p.key), value p)).map Prod.fst).Nodup := by
    rw [List.map_map]
    have hcomp : (params.map (Prod.fst ∘ fun p => (encode (paramIdToName p.key), value p))) =
        (params.map SvcbParam.key).map fun k => encode (paramIdToName k) := by
      rw [List.map_map]
      rfl
    rw [hcomp]
    exact hd.map fun k l hkl => paramIdToName_inj (encode_inj hkl)
  unfold decodeSvcbParamList
  rw [h]
  show List.mapM octetParam (List.foldl dictSet [] _) = _
  rw [foldl_dictSet_of_nodup (by simpa using hnodup), List.nil_append]
  have hmap : ∀ kv ∈ params.map fun p => (encode (paramIdToName p.key), value p),
      octetParam kv = .ok ⟨((keyId (asciiText kv.1)).toOption.getD 0), .octet kv.2⟩ := by
    intro kv hkv
    obtain ⟨p, -, rfl⟩ := List.mem_map.mp hkv
    rw [octetParam_name, keyId_name]
    rfl
  rw [mapM_eq_map hmap, List.map_map]
  congr 1
  refine List.map_congr_left fun p _ => ?_
  show SvcbParam.mk ((keyId (asciiText (encode (paramIdToName p.key)))).toOption.getD 0) _ = _
  rw [keyId_name]
  rfl

theorem contiguous_plain {a : Bool} {t : Bytes} (h : ∀ b ∈ t, isNonSpecialChar b = true) :
    Contiguous a t t := by
  induction t with
  | nil => exact .nil
  | cons b t ih =>
    exact .cons (.plain (Or.inl (h b List.mem_cons_self))) (ih fun c hc => h c (List.mem_cons_of_mem b hc))

theorem showNat_three {n : ℕ} (hlo : 100 ≤ n) (hhi : n < 1000) : showNat n =
    [Nat.digitChar (n / 100), Nat.digitChar (n / 10 % 10), Nat.digitChar (n % 10)] := by
  have hdiv : n / 10 / 10 = n / 100 := by omega
  unfold showNat
  rw [Nat.toDigits_of_base_le (by decide) (show 10 ≤ n by omega),
    Nat.toDigits_of_base_le (by decide) (show 10 ≤ n / 10 by omega),
    Nat.toDigits_of_lt_base (show n / 10 / 10 < 10 by omega), hdiv]
  rfl

/-- A byte with three digits is printed as an escape. -/
theorem octetBytes_high {b : UInt8} (hb : 127 ≤ b.toNat) : octetBytes b = decimalEscape b := by
  have hlt := b.toNat_lt
  have hdigit : ∀ d < 10, String.utf8EncodeChar (Nat.digitChar d) = [UInt8.ofNat (48 + d)] := by decide
  unfold octetBytes reprOctet decimalEscape
  rw [if_neg (by omega), showNat_three (by omega) (by omega), encode_cons, encode_cons, encode_cons,
    encode_cons, hdigit _ (by omega), hdigit _ (by omega), hdigit _ (by omega)]
  rfl

theorem octetBytes_printable {b : UInt8} (hlo : 32 ≤ b.toNat) (hhi : b.toNat ≤ 126) : octetBytes b = [b] := by
  have hnat : (Char.ofNat b.toNat).toNat = b.toNat := toNat_ofNat_lt (by omega)
  unfold octetBytes reprOctet
  rw [if_pos ⟨hlo, hhi⟩, encode_cons, utf8EncodeChar_ascii (by omega), hnat, UInt8.ofNat_toNat]
  rfl

theorem printable_of_isNonSpecialChar {b : UInt8} (h : isNonSpecialChar b = true) :
    33 ≤ b.toNat ∧ b.toNat ≤ 126 := by
  unfold isNonSpecialChar at h
  simp only [Bool.or_eq_true, Bool.and_eq_true, decide_eq_true_eq] at h
  omega

theorem contiguous_octets {data : Bytes} (h : ∀ b ∈ data, PlainOctet b) :
    Contiguous false data (data.flatMap octetBytes) := by
  induction data with
  | nil => exact .nil
  | cons b data ih =>
    have hrest := ih fun c hc => h c (List.mem_cons_of_mem b hc)
    rw [List.flatMap_cons]
    refine .cons ?_ hrest
    rcases h b List.mem_cons_self with hb | hb
    · obtain ⟨hlo, hhi⟩ := printable_of_isNonSpecialChar hb
      rw [octetBytes_printable (by omega) hhi]
      exact .plain (Or.inl hb)
    · have hlt := b.toNat_lt
      rw [octetBytes_high hb]
      refine .digits (isDigitChar_digit (by omega)) (isDigitChar_digit (by omega))
        (isDigitChar_digit (by omega)) ?_
      rw [toNat_digit (by omega), toNat_digit (by omega), toNat_digit (by omega)]
      omega

/-- Printable data are read as one value, octets as themselves. -/
theorem exists_itemValue {p : SvcbParam} (h : PrintableData p.data) :
    ∃ v, ItemValue (SvcbParam.item p).2 v ∧ (∀ data, p.data = .octet data → v = data) ∧
      (p.data = .null → v = []) := by
  have hitem : p.data ≠ .null → (SvcbParam.item p).2 = some (textBytes p.data) := fun hnull => if_neg hnull
  by_cases hnull : p.data = .null
  · refine ⟨[], ?_, fun data hdata => ?_, fun _ => rfl⟩
    · have hnone : (SvcbParam.item p).2 = none := if_pos hnull
      rw [hnone]
      exact .bare
    · rw [hnull] at hdata
      cases hdata
  · rw [hitem hnull]
    by_cases hoctet : ∃ data, p.data = .octet data
    · obtain ⟨data, hdata⟩ := hoctet
      refine ⟨data, ?_, fun data' hdata' => ?_, fun h => absurd h hnull⟩
      · rw [hdata]
        exact .plain (contiguous_octets (h.1 data hdata))
      · rw [hdata] at hdata'
        exact ParamData.octet.inj hdata'
    · have hno : ∀ data, p.data ≠ .octet data := fun data hdata => hoctet ⟨data, hdata⟩
      by_cases halpn : ∃ vs, p.data = .alpn vs
      · obtain ⟨vs, hvs⟩ := halpn
        rcases (h.2 vs hvs).2 with ⟨v, hv⟩ | ⟨v, u, hv, heq⟩
        · exact ⟨v, by rw [hvs]; exact .plain hv, fun data hdata => absurd hdata (hno data),
            fun h => absurd h hnull⟩
        · refine ⟨v, ?_, fun data hdata => absurd hdata (hno data), fun h => absurd h hnull⟩
          rw [hvs]
          show ItemValue (some ([44].intercalate vs)) v
          rw [heq]
          exact .quoted hv
      · have hplain := plain_textBytes hno fun vs hvs => halpn ⟨vs, hvs⟩
        exact ⟨textBytes p.data, .plain (contiguous_plain hplain), fun data hdata => absurd hdata (hno data),
          fun h => absurd h hnull⟩

/-- **Printable parameters are read back.** -/
theorem parsesBack_of_printable {params : List SvcbParam} (hd : (params.map SvcbParam.key).Nodup)
    (h : Printable params) : ParsesBack params := by
  obtain ⟨hne, hdata, hlast⟩ := h
  have hdecodes : ∀ p ∈ params, Decodes p.data := fun p hp vs hvs => ((hdata p hp).2 vs hvs).1
  obtain ⟨t, ht⟩ := (reprParams_eq params).1.mpr hdecodes
  have henc := (reprParams_eq params).2 t ht
  have hvalue : ∀ p, ∃ v, p ∈ params → ItemValue (SvcbParam.item p).2 v ∧
      (∀ data, p.data = .octet data → v = data) ∧ (p.data = .null → v = []) := by
    intro p
    by_cases hp : p ∈ params
    · obtain ⟨v, hv⟩ := exists_itemValue (hdata p hp)
      exact ⟨v, fun _ => hv⟩
    · exact ⟨[], fun h => absurd h hp⟩
  choose value hvalue using hvalue
  have hread : decodeParams (encode t) =
      .ok (params.map fun p => (encode (paramIdToName p.key), value p)) := by
    rw [henc]
    unfold printedBytes
    have hall : List.Forall₂ (fun i kv => i.Keyed ∧ kv.1 = i.1 ∧ ItemValue i.2 kv.2)
        (params.map SvcbParam.item) (params.map fun p => (encode (paramIdToName p.key), value p)) := by
      refine List.forall₂_map_left_iff.mpr (List.forall₂_map_right_iff.mpr ?_)
      exact List.forall₂_same.mpr fun p hp => ⟨keyed_item p, rfl, (hvalue p hp).1⟩
    have hend : ∀ i ∈ (params.map SvcbParam.item).getLast?, i.2 ≠ some [] := by
      intro i hi
      rw [List.getLast?_map, Option.mem_map] at hi
      obtain ⟨p, hp, rfl⟩ := hi
      rcases hlast p hp with hnull | htext
      · have hnone : (SvcbParam.item p).2 = none := if_pos hnull
        rw [hnone]
        exact fun h => by cases h
      · show (if p.data = .null then none else some (textBytes p.data)) ≠ _
        split_ifs
        · exact fun h => by cases h
        · exact fun h => htext (Option.some.inj h)
    have hitems := decodeParams_items (by simpa using hne) hall hend
    rw [List.map_map] at hitems
    exact hitems
  refine ⟨t, _, ht, decode_keys hd hread, fun k => ?_, fun p hp => ?_⟩
  · rw [List.map_map]
    rfl
  · refine ⟨⟨p.key, .octet (value p)⟩, List.mem_map_of_mem hp, rfl, fun data hdata => ?_, fun hnull => ?_⟩
    · rw [(hvalue p hp).2.1 data hdata]
    · rw [(hvalue p hp).2.2 hnull]

/-! ### Escapes and backslashes -/

section
variable {s : UInt8 → Bool} {data rest : Bytes}

/-- There are no more bytes of a kind that takes an escape than backslashes. -/
theorem countP_contiguous {a : Bool} (hs : ∀ b p, Piece a b p → s b = true → (92 : UInt8) ∈ p)
    {out t : Bytes} (ht : Contiguous a out t) : out.countP s ≤ t.count 92 := by
  induction ht with
  | nil => exact Nat.le_refl 0
  | @cons b p out t hp _ ih =>
    rw [List.countP_cons, List.count_append]
    by_cases hb : s b = true
    · have hpos := List.count_pos_iff.mpr (hs b p hp hb)
      rw [if_pos hb]
      omega
    · rw [if_neg hb]
      omega

theorem countP_param (hplain : ∀ b p, Piece false b p → s b = true → (92 : UInt8) ∈ p)
    (hquoted : (34 : UInt8) ∈ data → ∀ b p, Piece true b p → s b = true → (92 : UInt8) ∈ p)
    {kv : Bytes × Bytes} (h : decodeSvcbParam data = .ok (kv, rest)) :
    kv.2.countP s + rest.count 92 ≤ data.count 92 ∧ rest <:+ data := by
  rcases decodeSvcbParam_cases data with ⟨-, herr⟩ | ⟨blanks, key, left, rfl, -, -, hcase⟩
  · rw [herr] at h
    cases h
  · rcases hcase with ⟨rfl, hok⟩ | ⟨data', rfl, hok⟩ | ⟨c, data', rfl, -, -, hok⟩ | herr
    · rw [hok] at h
      cases h
      exact ⟨Nat.zero_le _, List.nil_suffix⟩
    · rw [hok] at h
      obtain ⟨⟨out, rest'⟩, hr, heq⟩ := exists_of_map_ok h
      cases heq
      have hcount : out.countP s + rest'.count 92 ≤ data'.count 92 := by
        rcases decodeCharStr_forms hr with ⟨t, ht, rfl⟩ | ⟨t, ht, rfl, -⟩
        · have hout := countP_contiguous (hquoted (by simp)) ht
          simp only [List.count_cons, List.count_append]
          omega
        · have hout := countP_contiguous hplain ht
          simp only [List.count_append]
          omega
      refine ⟨?_, ?_⟩
      · simp only [List.count_append, List.count_cons]
        omega
      · exact (suffix_decodeCharStr hr).trans ⟨blanks ++ (key ++ [61]), by simp⟩
    · rw [hok] at h
      cases h
      refine ⟨?_, ⟨blanks ++ (key ++ [c]), by simp⟩⟩
      simp only [List.countP_nil, List.count_append, List.count_cons]
      omega
    · rw [herr] at h
      cases h

/-- The same for a whole list of parameters. -/
theorem countP_params (hplain : ∀ b p, Piece false b p → s b = true → (92 : UInt8) ∈ p)
    (hquoted : (34 : UInt8) ∈ data → ∀ b p, Piece true b p → s b = true → (92 : UInt8) ∈ p)
    {params : List (Bytes × Bytes)} (h : decodeParams data = .ok params) :
    (params.map fun kv => kv.2.countP s).sum ≤ data.count 92 := by
  induction hn : data.length using Nat.strongRecOn generalizing data params with
  | ind n ih =>
    rcases hparam : decodeSvcbParam data with e | ⟨kv, rest⟩
    · rw [decodeParams_error hparam] at h
      cases h
    · obtain ⟨hcount, hsuffix⟩ := countP_param hplain hquoted hparam
      by_cases hrest : rest = []
      · rw [hrest] at hparam
        rw [decodeParams_last hparam] at h
        cases h
        simp only [List.map_cons, List.map_nil, List.sum_cons, List.sum_nil]
        omega
      · have hlt := (length_decodeSvcbParam hparam).resolve_right hrest
        rw [decodeParams_more hparam hrest] at h
        obtain ⟨params', hparams, rfl⟩ := exists_of_map_ok h
        have hsum := ih rest.length (by omega) (fun hmem => hquoted (hsuffix.subset hmem)) hparams rfl
        simp only [List.map_cons, List.sum_cons]
        omega

end

/-- The bytes of an octet value. -/
def octets : ParamData → Bytes
  | .octet data => data
  | _ => []

theorem octets_of_octetParam {kv : Bytes × Bytes} {q : SvcbParam} (h : octetParam kv = .ok q) :
    q.data = .octet kv.2 := by
  unfold octetParam at h
  rcases hq : svcbParam (asciiText kv.1) (.octet kv.2) with e | q'
  · rw [hq] at h
    rcases e <;> cases h
  · rw [hq] at h
    cases h
    obtain ⟨id, -, rfl⟩ := exists_of_map_ok hq
    rfl

theorem sum_octets_mapM (s : UInt8 → Bool) {params : List (Bytes × Bytes)} {out : List SvcbParam}
    (h : params.mapM octetParam = .ok out) :
    (out.map fun q => (octets q.data).countP s).sum = (params.map fun kv => kv.2.countP s).sum := by
  induction params generalizing out with
  | nil =>
    cases h
    rfl
  | cons kv params ih =>
    rw [List.mapM_cons] at h
    obtain ⟨q, hq, h⟩ := bind_eq_ok.mp h
    obtain ⟨qs, hqs, h⟩ := bind_eq_ok.mp h
    cases h
    rw [List.map_cons, List.map_cons, List.sum_cons, List.sum_cons, ih hqs, octets_of_octetParam hq]
    rfl

/-- What the parsed octets need in escapes the text has in backslashes. -/
theorem sum_octets_le {s : UInt8 → Bool} {t : Text} {out : List SvcbParam}
    (hplain : ∀ b p, Piece false b p → s b = true → (92 : UInt8) ∈ p)
    (hquoted : (34 : UInt8) ∈ encode t → ∀ b p, Piece true b p → s b = true → (92 : UInt8) ∈ p)
    (h : decodeSvcbParamList t = .ok out) :
    (out.map fun q => (octets q.data).countP s).sum ≤ (encode t).count 92 := by
  unfold decodeSvcbParamList at h
  obtain ⟨params, hparams, h⟩ := bind_eq_ok.mp h
  rw [sum_octets_mapM s h]
  have hnil : (([] : List (Bytes × Bytes)).map Prod.fst).Nodup := List.nodup_nil
  have hdict : ((params.foldl dictSet []).map fun kv => kv.2.countP s).sum ≤ _ :=
    sum_foldl_dictSet (List.countP s) hnil
  simp only [List.map_nil, List.sum_nil, Nat.zero_add] at hdict
  exact hdict.trans (countP_params hplain hquoted hparams)

/-- Parameters that come back have their octets among those of the parsed list. -/
theorem sum_params_le (s : UInt8 → Bool) {params out : List SvcbParam}
    (hd : (params.map SvcbParam.key).Nodup) (h : ∀ p ∈ params, ∃ q ∈ out, Same p q) :
    (params.map fun p => (octets p.data).countP s).sum ≤
      (out.map fun q => (octets q.data).countP s).sum := by
  have hchoice : ∀ p, ∃ q, p ∈ params → q ∈ out ∧ Same p q := by
    intro p
    by_cases hp : p ∈ params
    · obtain ⟨q, hq⟩ := h p hp
      exact ⟨q, fun _ => hq⟩
    · exact ⟨p, fun hp' => absurd hp' hp⟩
  choose back hback using hchoice
  have hnodup : (params.map back).Nodup := by
    refine List.Nodup.of_map SvcbParam.key ?_
    have hkeys : params.map (SvcbParam.key ∘ back) = params.map SvcbParam.key :=
      List.map_congr_left fun p hp => (hback p hp).2.1
    rw [List.map_map, hkeys]
    exact hd
  have hsub : params.map back ⊆ out := by
    intro q hq
    obtain ⟨p, hp, rfl⟩ := List.mem_map.mp hq
    exact (hback p hp).1
  obtain ⟨l, hperm, hsublist⟩ := hnodup.subperm hsub
  have hle : ∀ p ∈ params, (octets p.data).countP s ≤ (octets (back p).data).countP s := by
    intro p hp
    rcases hdata : p.data with _ | data | _ | _ | _ | _ | _
    case octet => rw [(hback p hp).2.2.1 data hdata]
    all_goals exact Nat.zero_le _
  calc (params.map fun p => (octets p.data).countP s).sum
      ≤ (params.map fun p => (octets (back p).data).countP s).sum := List.sum_le_sum hle
    _ = ((params.map back).map fun q => (octets q.data).countP s).sum := by rw [List.map_map]; rfl
    _ = (l.map fun q => (octets q.data).countP s).sum := ((hperm.map _).sum_eq).symm
    _ ≤ (out.map fun q => (octets q.data).countP s).sum :=
        (hsublist.map _).sum_le_sum fun _ _ => Nat.zero_le _

/-! ### The backslashes that are printed -/

/-- A byte that is printed with a backslash. -/
def hasBackslash (b : UInt8) : Bool := b = 92 || b.toNat < 32 || 126 < b.toNat

theorem count_octetBytes (b : UInt8) : (octetBytes b).count 92 = if hasBackslash b = true then 1 else 0 := by
  have hdigits : ∀ n, (encode (showNat n)).count 92 = 0 := fun n =>
    List.count_eq_zero.mpr fun hmem =>
      absurd ((plainText_showNat n).bytes 92 hmem) (by decide)
  by_cases hrange : 32 ≤ b.toNat ∧ b.toNat ≤ 126
  · rw [octetBytes_printable hrange.1 hrange.2]
    unfold hasBackslash
    by_cases h92 : b = 92
    · rw [h92]
      rfl
    · rw [List.count_singleton]
      simp only [beq_iff_eq, h92, decide_false, Bool.false_or, Bool.or_eq_true, decide_eq_true_eq, if_false]
      rw [if_neg (by omega)]
  · have hbytes : octetBytes b = 92 :: encode (showNat b.toNat) := by
      unfold octetBytes reprOctet
      rw [if_neg hrange, encode_cons]
      rfl
    have htrue : hasBackslash b = true := by
      unfold hasBackslash
      simp only [Bool.or_eq_true, decide_eq_true_eq]
      omega
    rw [hbytes, if_pos htrue, List.count_cons_self, hdigits]

theorem count_flatMap_octetBytes (data : Bytes) :
    (data.flatMap octetBytes).count 92 = data.countP hasBackslash := by
  induction data with
  | nil => rfl
  | cons b data ih => rw [List.flatMap_cons, List.count_append, List.countP_cons, ih, count_octetBytes, Nat.add_comm]

theorem isWsp_of_isNonSpecialChar {b : UInt8} (h : isNonSpecialChar b = true) : isWsp b = false := by
  have hlo := (printable_of_isNonSpecialChar h).1
  by_contra hw
  have hw : isWsp b = true := by simpa using hw
  unfold isWsp at hw
  simp only [Bool.or_eq_true, decide_eq_true_eq] at hw
  rcases hw with rfl | rfl
  · exact absurd hlo (by decide)
  · exact absurd hlo (by decide)

theorem plain_textBytes_of_alpns {params : List SvcbParam} (h : PlainAlpns params) {p : SvcbParam}
    (hp : p ∈ params) (hoctet : ∀ data, p.data ≠ .octet data) :
    ∀ b ∈ textBytes p.data, isWsp b = false ∧ b ≠ 34 ∧ b ≠ 92 := by
  by_cases halpn : ∃ vs, p.data = .alpn vs
  · obtain ⟨vs, hvs⟩ := halpn
    rw [hvs]
    intro b hb
    rcases mem_of_mem_intercalate hb with hb | ⟨v, hv, hb⟩
    · rw [List.mem_singleton.mp hb]
      decide
    · exact h p hp vs hvs v hv b hb
  · intro b hb
    have hplain := plain_textBytes hoctet (fun vs hvs => halpn ⟨vs, hvs⟩) b hb
    have hne := ne_of_isNonSpecialChar hplain
    exact ⟨isWsp_of_isNonSpecialChar hplain, hne.2, hne.1⟩

theorem count_item {params : List SvcbParam} (h : PlainAlpns params) {p : SvcbParam} (hp : p ∈ params) :
    (SvcbParam.item p).bytes.count 92 = (octets p.data).countP hasBackslash := by
  have hkey : (encode (paramIdToName p.key)).count 92 = 0 := List.count_eq_zero.mpr fun hmem =>
    absurd ((keyText_paramIdToName p.key).1.bytes 92 hmem) (by decide)
  unfold Item.bytes SvcbParam.item
  rw [List.count_append, hkey, Nat.zero_add]
  by_cases hoctet : ∃ data, p.data = .octet data
  · obtain ⟨data, hdata⟩ := hoctet
    rw [hdata]
    show (61 :: data.flatMap octetBytes).count 92 = data.countP hasBackslash
    rw [List.count_cons_of_ne (by decide), count_flatMap_octetBytes]
  · have hno : ∀ data, p.data ≠ .octet data := fun data hdata => hoctet ⟨data, hdata⟩
    have hnil : octets p.data = [] := by
      rcases hdata : p.data with _ | data | _ | _ | _ | _ | _
      case octet => exact absurd hdata (hno data)
      all_goals rfl
    have htext : (textBytes p.data).count 92 = 0 := List.count_eq_zero.mpr fun hmem =>
      (plain_textBytes_of_alpns h hp hno 92 hmem).2.2 rfl
    rw [hnil]
    dsimp only
    split_ifs
    · rfl
    · show (61 :: textBytes p.data).count 92 = 0
      rw [List.count_cons_of_ne (by decide), htext]

theorem count_intercalate {a b : UInt8} (hab : b ≠ a) (ls : List Bytes) :
    ([b].intercalate ls).count a = (ls.map (List.count a)).sum := by
  induction ls with
  | nil => rfl
  | cons l ls ih =>
    rcases ls with _ | ⟨l', ls⟩
    · simp
    · rw [List.intercalate_cons_cons, List.count_append, List.count_append, ih, List.count_singleton,
        List.map_cons, List.sum_cons, if_neg (by simpa using hab), Nat.add_zero]
      rfl

theorem count_printedBytes {params : List SvcbParam} (h : PlainAlpns params) :
    (printedBytes params).count 92 = (params.map fun p => (octets p.data).countP hasBackslash).sum := by
  unfold printedBytes
  rw [count_intercalate (by decide), List.map_map]
  exact congrArg List.sum (List.map_congr_left fun p hp => count_item h hp)

/-! ### Two counts -/

theorem eq_of_sum_le {α : Type} {l : List α} {f g : α → ℕ} (hle : ∀ a ∈ l, g a ≤ f a)
    (hsum : (l.map f).sum ≤ (l.map g).sum) : ∀ a ∈ l, f a = g a := by
  induction l with
  | nil => exact fun a ha => by cases ha
  | cons b l ih =>
    have hb := hle b List.mem_cons_self
    have hl : (l.map g).sum ≤ (l.map f).sum :=
      List.sum_le_sum fun a ha => hle a (List.mem_cons_of_mem b ha)
    rw [List.map_cons, List.map_cons, List.sum_cons, List.sum_cons] at hsum
    refine List.forall_mem_cons.mpr ⟨by omega, ih (fun a ha => hle a (List.mem_cons_of_mem b ha)) (by omega)⟩

theorem of_countP_eq {s u : UInt8 → Bool} (hus : ∀ b, u b = true → s b = true) {data : Bytes}
    (h : data.countP s = data.countP u) : ∀ b ∈ data, s b = true → u b = true := by
  have hfilter : data.filter s = data.filter u := by
    have hsub : (data.filter u).Sublist (data.filter s) := List.monotone_filter_right data hus
    refine (hsub.eq_of_length ?_).symm
    rw [← List.countP_eq_length_filter, ← List.countP_eq_length_filter, h]
  intro b hb hs
  have hmem : b ∈ data.filter u := by
    rw [← hfilter]
    exact List.mem_filter.mpr ⟨hb, hs⟩
  exact (List.mem_filter.mp hmem).2

section
variable {params : List SvcbParam}

/-- **Every byte that takes an escape is printed with a backslash**, in parameters that come back. -/
theorem hasBackslash_of_parsesBack (hd : (params.map SvcbParam.key).Nodup) (halpns : PlainAlpns params)
    (hback : ParsesBack params) {s : UInt8 → Bool} (hs : ∀ b, hasBackslash b = true → s b = true)
    (hplain : ∀ b p, Piece false b p → s b = true → (92 : UInt8) ∈ p)
    (hquoted : (34 : UInt8) ∈ printedBytes params → ∀ b p, Piece true b p → s b = true → (92 : UInt8) ∈ p) :
    ∀ p ∈ params, ∀ b ∈ octets p.data, s b = true → hasBackslash b = true := by
  obtain ⟨t, out, ht, hout, -, hall⟩ := hback
  have henc := (reprParams_eq params).2 t ht
  have hsum : (params.map fun p => (octets p.data).countP s).sum ≤
      (params.map fun p => (octets p.data).countP hasBackslash).sum := by
    rw [← count_printedBytes halpns, ← henc]
    rw [← henc] at hquoted
    exact (sum_params_le s hd hall).trans (sum_octets_le hplain hquoted hout)
  have heq := eq_of_sum_le (fun p _ => List.countP_mono_left fun b _ => hs b) hsum
  exact fun p hp => of_countP_eq hs (heq p hp)

theorem backslash_of_piece {a : Bool} {b : UInt8} {p : Bytes} (hp : Piece a b p)
    (hno : ¬ (isNonSpecialChar b = true ∨ (b = 32 ∧ a = true))) : (92 : UInt8) ∈ p := by
  rcases hp with h | h | ⟨-, -, -, -⟩
  · exact absurd h hno
  · simp
  · simp

theorem not_isNonSpecialChar_of_hasBackslash {b : UInt8} (h : hasBackslash b = true) :
    isNonSpecialChar b = false ∧ b ≠ 32 := by
  unfold hasBackslash at h
  simp only [Bool.or_eq_true, decide_eq_true_eq] at h
  refine ⟨?_, ?_⟩
  · by_contra hplain
    have hplain : isNonSpecialChar b = true := by simpa using hplain
    have hrange := printable_of_isNonSpecialChar hplain
    rcases h with (rfl | h) | h
    · cases hplain
    · omega
    · omega
  · rintro rfl
    rcases h with (h | h) | h
    · cases h
    · exact absurd h (by decide)
    · exact absurd h (by decide)

/-- What the bytes of an octet are printed as, if only special bytes with a backslash are there. -/
theorem mem_octetBytes {b c : UInt8} (hb : isNonSpecialChar b = false → hasBackslash b = true)
    (hc : c ∈ octetBytes b) : isWsp c = false ∧ c ≠ 34 := by
  by_cases hrange : 32 ≤ b.toNat ∧ b.toNat ≤ 126
  · rw [octetBytes_printable hrange.1 hrange.2, List.mem_singleton] at hc
    rw [hc]
    have hcase : isNonSpecialChar b = true ∨ b = 92 := by
      by_cases hplain : isNonSpecialChar b = true
      · exact Or.inl hplain
      · have hback := hb (by simpa using hplain)
        unfold hasBackslash at hback
        simp only [Bool.or_eq_true, decide_eq_true_eq] at hback
        rcases hback with (hback | hback) | hback
        · exact Or.inr hback
        · omega
        · omega
    rcases hcase with hplain | rfl
    · exact ⟨isWsp_of_isNonSpecialChar hplain, (ne_of_isNonSpecialChar hplain).2⟩
    · exact ⟨by decide, by decide⟩
  · have hbytes : octetBytes b = 92 :: encode (showNat b.toNat) := by
      unfold octetBytes reprOctet
      rw [if_neg hrange, encode_cons]
      rfl
    rw [hbytes] at hc
    rcases List.mem_cons.mp hc with rfl | hc
    · exact ⟨by decide, by decide⟩
    · have hkey := (keyText_showNat b.toNat).bytes c hc
      refine ⟨?_, (ne_of_isNonSpecialChar (isNonSpecialChar_of_isKeyChar hkey)).2⟩
      by_contra hw
      rw [isKeyChar_of_isWsp (by simpa using hw)] at hkey
      cases hkey

/-- The special bytes are all printed with a backslash. -/
theorem special_of_parsesBack (hd : (params.map SvcbParam.key).Nodup) (halpns : PlainAlpns params)
    (hback : ParsesBack params) :
    ∀ p ∈ params, ∀ b ∈ octets p.data, isNonSpecialChar b = false → hasBackslash b = true := by
  -- first without the blank, which a quoted string may have
  have hfirst := hasBackslash_of_parsesBack hd halpns hback
    (s := fun b => !(isNonSpecialChar b || b = 32))
    (fun b hb => by simpa using not_isNonSpecialChar_of_hasBackslash hb)
    (fun b p hp hb => backslash_of_piece hp (by simp_all))
    (fun _ b p hp hb => backslash_of_piece hp (by simp_all))
  have hquote : (34 : UInt8) ∉ printedBytes params := by
    intro hmem
    rcases mem_of_mem_intercalate hmem with hmem | ⟨l, hl, hmem⟩
    · exact absurd hmem (by decide)
    · obtain ⟨p, hp, rfl⟩ := List.mem_map.mp hl
      rcases List.mem_append.mp hmem with hmem | hmem
      · exact absurd ((keyed_item p).1 34 hmem) (by decide)
      · unfold SvcbParam.item at hmem
        dsimp only at hmem
        split_ifs at hmem with hnull
        · cases hmem
        · rcases List.mem_cons.mp hmem with hmem | hmem
          · exact absurd hmem (by decide)
          · by_cases hoctet : ∃ data, p.data = .octet data
            · obtain ⟨data, hdata⟩ := hoctet
              rw [hdata] at hmem
              obtain ⟨b, hb, hmem⟩ := List.mem_flatMap.mp hmem
              have hbquote : b = 34 ∨ b ≠ 34 := em _
              rcases hbquote with rfl | hbquote
              · have hback := hfirst p hp 34 (by rw [hdata]; exact hb) (by decide)
                exact absurd hback (by decide)
              · by_cases hrange : 32 ≤ b.toNat ∧ b.toNat ≤ 126
                · rw [octetBytes_printable hrange.1 hrange.2, List.mem_singleton] at hmem
                  exact hbquote hmem.symm
                · refine (mem_octetBytes (fun _ => ?_) hmem).2 rfl
                  unfold hasBackslash
                  simp only [Bool.or_eq_true, decide_eq_true_eq]
                  omega
            · exact (plain_textBytes_of_alpns halpns hp (fun data hdata => hoctet ⟨data, hdata⟩) 34 hmem).2.1 rfl
  intro p hp b hb hspecial
  refine hasBackslash_of_parsesBack hd halpns hback (s := fun b => !isNonSpecialChar b)
    (fun b hb => by simpa using (not_isNonSpecialChar_of_hasBackslash hb).1)
    (fun b p hp hb => backslash_of_piece hp (by simp_all))
    (fun hmem => absurd hmem hquote) p hp b hb (by simpa using hspecial)

/-- So the values are printed without blanks and quotes. -/
theorem unquoted_of_parsesBack (hd : (params.map SvcbParam.key).Nodup) (halpns : PlainAlpns params)
    (hback : ParsesBack params) : ∀ p ∈ params, (SvcbParam.item p).Unquoted := by
  intro p hp t ht c hc
  unfold SvcbParam.item at ht
  dsimp only at ht
  split_ifs at ht with hnull
  cases ht
  by_cases hoctet : ∃ data, p.data = .octet data
  · obtain ⟨data, hdata⟩ := hoctet
    rw [hdata] at hc
    obtain ⟨b, hb, hc⟩ := List.mem_flatMap.mp hc
    exact mem_octetBytes (special_of_parsesBack hd halpns hback p hp b (by rw [hdata]; exact hb)) hc
  · have hall := plain_textBytes_of_alpns halpns hp (fun data hdata => hoctet ⟨data, hdata⟩) c hc
    exact ⟨hall.1, hall.2.1⟩

/-! ### The lengths of a value and of what it is printed as -/

theorem length_piece {b : UInt8} {p : Bytes} (hp : Piece false b p) :
    (octetBytes b).length ≤ p.length ∧ (p.length ≤ (octetBytes b).length → PlainOctet b) := by
  rcases hp with h | h | ⟨-, -, -, -⟩
  · have hplain : isNonSpecialChar b = true := h.resolve_right fun h => by cases h.2
    obtain ⟨hlo, hhi⟩ := printable_of_isNonSpecialChar hplain
    rw [octetBytes_printable (by omega) hhi]
    exact ⟨le_rfl, fun _ => Or.inl hplain⟩
  · have hrange : 32 ≤ b.toNat ∧ b.toNat ≤ 126 := by
      unfold isNonDigitChar at h
      simp only [Bool.or_eq_true, Bool.and_eq_true, decide_eq_true_eq] at h
      omega
    rw [octetBytes_printable hrange.1 hrange.2]
    exact ⟨by simp, fun h => absurd h (by simp)⟩
  · by_cases hhigh : 127 ≤ b.toNat
    · rw [octetBytes_high hhigh]
      exact ⟨le_rfl, fun _ => Or.inr hhigh⟩
    · by_cases hlow : 32 ≤ b.toNat
      · rw [octetBytes_printable hlow (by omega)]
        exact ⟨by simp, fun h => absurd h (by simp)⟩
      · have hall : ∀ n < 32, (encode (showNat n)).length ≤ 2 := by decide
        have hlen : (octetBytes b).length ≤ 3 := by
          have hshort := hall b.toNat (by omega)
          unfold octetBytes reprOctet
          rw [if_neg (by omega), encode_cons]
          show (92 :: encode (showNat b.toNat)).length ≤ 3
          rw [List.length_cons]
          omega
        exact ⟨hlen.trans (by simp), fun h => absurd (h.trans hlen) (by simp)⟩

theorem length_contiguous {data t : Bytes} (h : Contiguous false data t) :
    (data.flatMap octetBytes).length ≤ t.length ∧
      (t.length ≤ (data.flatMap octetBytes).length → ∀ b ∈ data, PlainOctet b) := by
  induction h with
  | nil => exact ⟨le_rfl, fun _ b hb => by cases hb⟩
  | @cons b p data t hp _ ih =>
    obtain ⟨hle, hplain⟩ := length_piece hp
    rw [List.flatMap_cons, List.length_append, List.length_append]
    refine ⟨by omega, fun hlen => List.forall_mem_cons.mpr ⟨hplain (by omega), ih.2 (by omega)⟩⟩

/-! ### Only printable parameters are read back -/

theorem exists_value {params : List SvcbParam} (hd : params.Nodup) {raw : List (Bytes × Bytes)}
    (h : List.Forall₂ (fun p kv => kv.1 = encode (paramIdToName p.key) ∧
      ItemValue (SvcbParam.item p).2 kv.2) params raw) :
    ∃ value : SvcbParam → Bytes, raw = params.map (fun p => (encode (paramIdToName p.key), value p)) ∧
      ∀ p ∈ params, ItemValue (SvcbParam.item p).2 (value p) := by
  induction h with
  | nil => exact ⟨fun _ => [], rfl, fun p hp => by cases hp⟩
  | @cons p kv params raw hp _ ih =>
    rw [List.nodup_cons] at hd
    obtain ⟨value, hraw, hvalue⟩ := ih hd.2
    refine ⟨Function.update value p kv.2, ?_, ?_⟩
    · have hsame : params.map (fun q => (encode (paramIdToName q.key), Function.update value p kv.2 q)) =
          params.map fun q => (encode (paramIdToName q.key), value q) := by
        refine List.map_congr_left fun q hq => ?_
        have hne : q ≠ p := fun heq => hd.1 (heq ▸ hq)
        rw [Function.update_of_ne hne]
      rw [List.map_cons, hsame, ← hraw, Function.update_self, ← hp.1]
    · refine List.forall_mem_cons.mpr ⟨by rw [Function.update_self]; exact hp.2, fun q hq => ?_⟩
      have hne : q ≠ p := fun heq => hd.1 (heq ▸ hq)
      rw [Function.update_of_ne hne]
      exact hvalue q hq

/-- **What is read back is printable.** -/
theorem printable_of_parsesBack (hd : (params.map SvcbParam.key).Nodup) (halpns : PlainAlpns params)
    (hback : ParsesBack params) : Printable params := by
  have hunquoted := unquoted_of_parsesBack hd halpns hback
  obtain ⟨t, out, ht, hout, -, hall⟩ := hback
  have henc := (reprParams_eq params).2 t ht
  have hdecodes := (reprParams_eq params).1.mp ⟨t, ht⟩
  obtain ⟨raw, hraw, -⟩ := bind_eq_ok.mp hout
  have hne : params ≠ [] := by
    rintro rfl
    have hnil : encode t = [] := henc
    rw [hnil] at hraw
    cases hraw
  have hread : decodeParams ([32].intercalate ((params.map SvcbParam.item).map Item.bytes)) = .ok raw := by
    rw [List.map_map, ← hraw, henc]
    rfl
  obtain ⟨hitems, hlast⟩ := items_of_decodeParams
    (fun i hi => by obtain ⟨p, -, rfl⟩ := List.mem_map.mp hi; exact keyed_item p)
    (fun i hi => by obtain ⟨p, hp, rfl⟩ := List.mem_map.mp hi; exact hunquoted p hp)
    (by simpa using hne) hread
  obtain ⟨value, hvalues, hvalue⟩ := exists_value hd.of_map (List.forall₂_map_left_iff.mp hitems)
  rw [hvalues] at hraw
  rw [decode_keys hd hraw] at hout
  obtain rfl := (Except.ok.inj hout).symm
  have hsame : ∀ p ∈ params, ∀ data, p.data = .octet data → value p = data := by
    intro p hp data hdata
    obtain ⟨q, hq, hkey, hoctet, -⟩ := hall p hp
    obtain ⟨p', hp', rfl⟩ := List.mem_map.mp hq
    have hpp' : p' = p := List.inj_on_of_nodup_map hd hp' hp hkey
    rw [hpp'] at hoctet
    exact ParamData.octet.inj (hoctet data hdata)
  refine ⟨hne, fun p hp => ⟨fun data hdata => ?_, fun vs hvs => ⟨hdecodes p hp vs hvs, ?_⟩⟩, fun p hp => ?_⟩
  · have hitem : (SvcbParam.item p).2 = some (data.flatMap octetBytes) := by
      unfold SvcbParam.item
      rw [hdata]
      rfl
    have hv := hvalue p hp
    rw [hitem, hsame p hp data hdata] at hv
    generalize hprint : data.flatMap octetBytes = t at hv hitem
    rcases hv with _ | hv | hv
    · rw [← hprint] at hv
      exact (length_contiguous hv).2 le_rfl
    · exact absurd rfl (hunquoted p hp _ hitem 34 (by simp)).2
  · have hitem : (SvcbParam.item p).2 = some ([44].intercalate vs) := by
      unfold SvcbParam.item
      rw [hvs]
      rfl
    have hv := hvalue p hp
    rw [hitem] at hv
    generalize [44].intercalate vs = t at hv
    rcases hv with _ | hv | hv
    · exact Or.inl ⟨_, hv⟩
    · exact Or.inr ⟨_, _, hv, rfl⟩
  · have hend := hlast (SvcbParam.item p) (by rw [List.getLast?_map, Option.mem_map]; exact ⟨p, hp, rfl⟩)
    by_cases hnull : p.data = .null
    · exact Or.inl hnull
    · refine Or.inr fun htext => hend ?_
      unfold SvcbParam.item
      dsimp only
      rw [if_neg hnull, htext]

end

/-- **Printed parameters parse back** just when they are printable: every byte of an octet value is not
special or has three digits, every ALPN value is UTF-8 and one character string, there is a parameter, and
the last one does not end in `=`. This is enough for every list of distinct keys, and needed where no
protocol name has a blank, a quote or a backslash. -/
theorem parsesBack_iff {params : List SvcbParam} (hd : (params.map SvcbParam.key).Nodup) :
    (Printable params → ParsesBack params) ∧
      (PlainAlpns params → (ParsesBack params ↔ Printable params)) :=
  ⟨parsesBack_of_printable hd, fun halpns =>
    ⟨printable_of_parsesBack hd halpns, parsesBack_of_printable hd⟩⟩

/-- A protocol name, an empty value in the middle, and octets with and without three digits. -/
def plainParams : List SvcbParam := [⟨1, .alpn [[104, 50]]⟩, ⟨7, .octet []⟩, ⟨5, .octet [200, 65]⟩]

theorem parsesBack_plainParams : ParsesBack plainParams := by
  refine (parsesBack_iff (by decide)).1 ⟨by decide, fun p hp => ?_, fun p hp => ?_⟩
  · simp only [plainParams, List.mem_cons, List.not_mem_nil, or_false] at hp
    rcases hp with rfl | rfl | rfl
    · refine ⟨fun data hdata => (by cases hdata), fun vs hvs => ?_⟩
      obtain rfl := ParamData.alpn.inj hvs
      exact ⟨by decide, Or.inl ⟨_, contiguous_plain (by decide)⟩⟩
    · refine ⟨fun data hdata => ?_, fun vs hvs => (by cases hvs)⟩
      obtain rfl := ParamData.octet.inj hdata
      exact fun b hb => by cases hb
    · refine ⟨fun data hdata => ?_, fun vs hvs => (by cases hvs)⟩
      obtain rfl := ParamData.octet.inj hdata
      unfold PlainOctet
      decide
  · simp only [plainParams, List.getLast?_cons_cons, List.getLast?_singleton, Option.mem_some_iff] at hp
    rw [← hp]
    exact Or.inr (by decide)

/-- A blank in an octet value, a zero byte, and a value with no bytes at the end do not come back. -/
theorem not_parsesBack : (¬ ∀ params : List SvcbParam, (params.map SvcbParam.key).Nodup →
      ParsesBack params) ∧
    ¬ ParsesBack [⟨7, .octet [97, 32, 98]⟩] ∧ ¬ ParsesBack [⟨7, .octet [0]⟩] ∧
    ¬ ParsesBack [⟨5, .octet []⟩] := by
  have hno : ∀ {params : List SvcbParam} {t : Text} {e : PyErr}, reprParams params = .ok t →
      decodeSvcbParamList t = .error e → ¬ ParsesBack params := by
    rintro params t e ht herr ⟨t', out, ht', hout, -⟩
    rw [ht] at ht'
    obtain rfl := Except.ok.inj ht'
    rw [herr] at hout
    cases hout
  have hblank : ¬ ParsesBack [⟨7, .octet [97, 32, 98]⟩] :=
    hno (t := "key7=a b".toList) (e := .validationError) (by decide) (by decide)
  refine ⟨fun hall => hblank (hall _ (by decide)), hblank, ?_, ?_⟩
  · exact hno (t := "key7=\\0".toList) (e := .validationError) (by decide) (by decide)
  · exact hno (t := "ech=".toList) (e := .indexError) (by decide) (by decide)

end HexDns.Svcb.RoundTrip
