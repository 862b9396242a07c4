import HexDns.Svcb.Params

/-! # The grammar of SVCB texts, and the texts that are cut off

`Contiguous` is the grammar of what `decode_contiguous_str` reads, with the bytes that it stands for:
`decodeContiguousStr_eq_ok`. `Cut` are the texts that end inside a parameter list: after some complete
parameters there are only blanks left, or a key and `=`. On these the index `data[0]` is out of range.

`decodeParams_indexError_iff`: the decoder of parameter lists raises an `IndexError` on the texts that are
cut off and on no others; every other exception is a `ValidationError`. The constructors of the value lists
raise an `IndexError` on the empty text only. -/

namespace HexDns.Svcb.Grammar

open HexDns.Lib.Texts HexDns.Lib.Programs HexDns.Lib.Scanners HexDns.Base.Py HexDns.Svcb.Decode
  HexDns.Svcb.Escaping HexDns.Svcb.Addresses HexDns.Svcb.Params

/-! ### Character strings -/

/-- The bytes that stand for one byte of a character string. -/
inductive Piece (allowSpace : Bool) : UInt8 → Bytes → Prop
  | plain {b : UInt8} (h : isNonSpecialChar b = true ∨ (b = 32 ∧ allowSpace = true)) : Piece allowSpace b [b]
  | escape {b : UInt8} (h : isNonDigitChar b = true) : Piece allowSpace b [92, b]
  | digits {b d1 d2 d3 : UInt8} (h1 : isDigitChar d1 = true) (h2 : isDigitChar d2 = true)
      (h3 : isDigitChar d3 = true)
      (hval : (d1.toNat - 0x30) * 100 + (d2.toNat - 0x30) * 10 + (d3.toNat - 0x30) = b.toNat) :
      Piece allowSpace b [92, d1, d2, d3]

/-- The bytes of a character string that stand for these bytes. -/
inductive Contiguous (allowSpace : Bool) : Bytes → Bytes → Prop
  | nil : Contiguous allowSpace [] []
  | cons {b : UInt8} {p out t : Bytes} (hp : Piece allowSpace b p) (ht : Contiguous allowSpace out t) :
      Contiguous allowSpace (b :: out) (p ++ t)

/-- A byte that ends a character string. -/
def EndsStr (allowSpace : Bool) (c : UInt8) : Prop :=
  c ≠ 92 ∧ isNonSpecialChar c = false ∧ ¬ (c = 32 ∧ allowSpace = true)

variable {allowSpace : Bool} {b : UInt8} {data out rest p t : Bytes}

theorem contiguousStep_piece (hp : Piece allowSpace b p) (rest : Bytes) :
    contiguousStep allowSpace (p ++ rest) = .ok (some (b, rest)) := by
  rcases hp with h | h | ⟨h1, h2, h3, hval⟩
  · have hslash : b ≠ 92 := by
      rcases h with h | ⟨rfl, -⟩
      · exact (ne_of_isNonSpecialChar h).1
      · decide
    have hcond : (isNonSpecialChar b || (b = 32 && allowSpace)) = true := by simpa using h
    show (if b = 92 then _ else if _ then _ else _) = _
    rw [if_neg hslash, if_pos hcond]
    rfl
  · show (decodeEscaped (b :: rest)).map some = _
    unfold decodeEscaped
    dsimp only
    rw [if_pos h]
    rfl
  · rename_i d1 d2 d3
    have hb := b.toNat_lt
    show (decodeEscaped (d1 :: d2 :: d3 :: rest)).map some = _
    unfold decodeEscaped
    dsimp only
    rw [not_isNonDigitChar h1, h1, h2, h3, hval, if_neg (by decide), if_pos (by decide),
      if_neg (by omega), UInt8.ofNat_toNat]
    rfl

theorem piece_of_contiguousStep (h : contiguousStep allowSpace data = .ok (some (b, rest))) :
    ∃ p, Piece allowSpace b p ∧ data = p ++ rest := by
  rcases data with _ | ⟨c, data⟩
  · cases h
  · unfold contiguousStep at h
    dsimp only at h
    split_ifs at h with hc hplain
    · obtain ⟨r, hr, heq⟩ := exists_of_map_ok h
      cases heq
      rcases decodeEscaped_eq_ok hr with ⟨hb, rfl⟩ | ⟨d1, d2, d3, -, h1, h2, h3, rfl, hval⟩
      · exact ⟨[92, b], .escape hb, by rw [hc]; rfl⟩
      · exact ⟨[92, d1, d2, d3], .digits h1 h2 h3 hval, by rw [hc]; rfl⟩
    · cases h
      exact ⟨[b], .plain (by simpa using hplain), rfl⟩
    · cases h

theorem contiguousStep_none_iff :
    contiguousStep allowSpace data = .ok none ↔ ∀ c ∈ data.head?, EndsStr allowSpace c := by
  rcases data with _ | ⟨c, data⟩
  · exact iff_of_true rfl fun c hc => by cases hc
  · have hhead : (∀ c' ∈ (c :: data).head?, EndsStr allowSpace c') ↔ EndsStr allowSpace c := by simp
    rw [hhead]
    unfold contiguousStep EndsStr
    dsimp only
    by_cases hc : c = 92
    · rw [if_pos hc]
      refine iff_of_false (fun h => ?_) fun h => h.1 hc
      obtain ⟨r, -, h⟩ := exists_of_map_ok h
      cases h
    · rw [if_neg hc]
      by_cases hplain : (isNonSpecialChar c || (c = 32 && allowSpace)) = true
      · rw [if_pos hplain]
        refine iff_of_false (fun h => by cases h) fun h => ?_
        simp only [Bool.or_eq_true, Bool.and_eq_true, decide_eq_true_eq] at hplain
        rcases hplain with hplain | hplain
        · rw [h.2.1] at hplain
          cases hplain
        · exact h.2.2 hplain
      · rw [if_neg hplain]
        refine iff_of_true rfl ⟨hc, ?_⟩
        simpa using hplain

/-- **A character string is read just by its grammar**, up to the first byte that ends it. -/
theorem decodeContiguousStr_eq_ok : decodeContiguousStr allowSpace data = .ok (out, rest) ↔
    ∃ t, Contiguous allowSpace out t ∧ data = t ++ rest ∧ ∀ c ∈ rest.head?, EndsStr allowSpace c := by
  unfold decodeContiguousStr
  rw [scan_eq_ok (consumes_contiguousStep allowSpace)]
  constructor
  · intro h
    induction h with
    | stop h => exact ⟨[], .nil, rfl, contiguousStep_none_iff.mp h⟩
    | more h _ ih =>
      obtain ⟨p, hp, rfl⟩ := piece_of_contiguousStep h
      obtain ⟨t, ht, rfl, hends⟩ := ih
      exact ⟨p ++ t, .cons hp ht, (List.append_assoc _ _ _).symm, hends⟩
  · rintro ⟨t, ht, rfl, hends⟩
    induction ht with
    | nil => exact .stop (contiguousStep_none_iff.mpr hends)
    | cons hp _ ih =>
      rw [List.append_assoc]
      exact .more (contiguousStep_piece hp _) ih

theorem endsStr_quote : EndsStr allowSpace 34 := by
  refine ⟨by decide, by decide, fun h => ?_⟩
  exact absurd h.1 (by decide)

theorem endsStr_of_isWsp {c : UInt8} (h : isWsp c = true) : EndsStr false c := by
  unfold isWsp at h
  simp only [Bool.or_eq_true, decide_eq_true_eq] at h
  rcases h with rfl | rfl
  · exact ⟨by decide, by decide, fun h => by cases h.2⟩
  · exact ⟨by decide, by decide, fun h => by cases h.2⟩

/-- A quoted string, with what follows it. -/
theorem decodeCharStr_quote (ht : Contiguous true out t) (rest : Bytes) :
    decodeCharStr (34 :: t ++ 34 :: rest) = .ok (out, rest) := by
  refine decodeCharStr_eq_ok.mpr (Or.inl ⟨rfl, decodeContiguousStr_eq_ok.mpr ⟨t, ht, rfl, fun c hc => ?_⟩⟩)
  rw [List.head?_cons, Option.mem_some_iff] at hc
  rw [← hc]
  exact endsStr_quote

theorem head_ne_quote (ht : Contiguous allowSpace out t) : ∀ c ∈ t.head?, c ≠ 34 := by
  intro c hc
  rcases ht with _ | ⟨hp, -⟩
  · cases hc
  · rcases hp with h | h | ⟨-, -, -, -⟩ <;> rw [List.cons_append, List.head?_cons,
      Option.mem_some_iff] at hc <;> rw [← hc]
    · rcases h with h | ⟨rfl, -⟩
      · exact (ne_of_isNonSpecialChar h).2
      · decide
    · decide
    · decide

/-- A string without quotes, with what follows it. -/
theorem decodeCharStr_plain (ht : Contiguous false out t) (hne : t ++ rest ≠ [])
    (hends : ∀ c ∈ rest.head?, EndsStr false c ∧ c ≠ 34) :
    decodeCharStr (t ++ rest) = .ok (out, rest) := by
  obtain ⟨c, data, hdata⟩ := List.exists_cons_of_ne_nil hne
  have hc : c ≠ 34 := by
    rcases t with _ | ⟨c', t⟩
    · obtain rfl : rest = c :: data := hdata
      exact (hends c (by simp)).2
    · rw [List.cons_append] at hdata
      exact head_ne_quote ht c (by rw [(List.cons.inj hdata).1]; simp)
  rw [hdata]
  refine decodeCharStr_eq_ok.mpr (Or.inr ⟨hc, ?_⟩)
  rw [← hdata]
  exact decodeContiguousStr_eq_ok.mpr ⟨t, ht, rfl, fun c hc => (hends c hc).1⟩

/-! ### Keys -/

variable {blanks key : Bytes} {c : UInt8}

theorem isKeyChar_of_isWsp (h : isWsp c = true) : isKeyChar c = false := by
  unfold isWsp at h
  simp only [Bool.or_eq_true, decide_eq_true_eq] at h
  rcases h with rfl | rfl
  · rfl
  · rfl

theorem dropWhile_append {α : Type} {f : α → Bool} {l r : List α} (hl : ∀ a ∈ l, f a = true)
    (hr : ∀ a ∈ r.head?, f a = false) : (l ++ r).takeWhile f = l ∧ (l ++ r).dropWhile f = r := by
  induction l with
  | nil =>
    rcases r with _ | ⟨a, r⟩
    · exact ⟨rfl, rfl⟩
    · have ha := hr a rfl
      simp [ha]
  | cons a l ih =>
    obtain ⟨htake, hdrop⟩ := ih fun b hb => hl b (List.mem_cons_of_mem _ hb)
    have ha := hl a List.mem_cons_self
    simp [ha, htake, hdrop]

/-- A text is blanks, a key and the rest. -/
theorem exists_split (data : Bytes) : ∃ blanks key rest, data = blanks ++ (key ++ rest) ∧
    (∀ c ∈ blanks, isWsp c = true) ∧ (∀ c ∈ key, isKeyChar c = true) ∧
    (∀ c ∈ rest.head?, isKeyChar c = false) ∧ (key = [] → ∀ c ∈ rest.head?, isWsp c = false) := by
  have hhead : ∀ (f : UInt8 → Bool) (l : Bytes), ∀ c ∈ (l.dropWhile f).head?, f c = false := by
    intro f l c hc
    have h := List.head?_dropWhile_not f l
    rw [hc] at h
    simpa using h
  refine ⟨data.takeWhile isWsp, (data.dropWhile isWsp).takeWhile isKeyChar,
    (data.dropWhile isWsp).dropWhile isKeyChar, ?_, fun c hc => List.mem_takeWhile_imp hc,
    fun c hc => List.mem_takeWhile_imp hc, hhead isKeyChar _, fun hkey => ?_⟩
  · rw [List.takeWhile_append_dropWhile, List.takeWhile_append_dropWhile]
  · have hsame : (data.dropWhile isWsp).dropWhile isKeyChar = data.dropWhile isWsp := by
      have happend := List.takeWhile_append_dropWhile (p := isKeyChar) (l := data.dropWhile isWsp)
      rw [hkey] at happend
      exact happend
    rw [hsame]
    exact hhead isWsp data

theorem decodeSvcbParam_blank (hb : ∀ c ∈ data, isWsp c = true) :
    decodeSvcbParam data = .error .indexError := by
  have hdrop : data.dropWhile isWsp = [] := List.dropWhile_eq_nil_iff.mpr hb
  unfold decodeSvcbParam
  dsimp only
  rw [hdrop, if_pos rfl]

/-- The first step of one round: the blanks and the key are off the buffer. -/
theorem decodeSvcbParam_split (hb : ∀ c ∈ blanks, isWsp c = true) (hk : ∀ c ∈ key, isKeyChar c = true)
    (hne : key ++ rest ≠ []) (hr : ∀ c ∈ rest.head?, isKeyChar c = false)
    (hfirst : key = [] → ∀ c ∈ rest.head?, isWsp c = false) :
    decodeSvcbParam (blanks ++ (key ++ rest)) = decodeAfterKey key rest := by
  have hhead : ∀ c ∈ (key ++ rest).head?, isWsp c = false := by
    intro c hc
    rcases key with _ | ⟨k, key⟩
    · exact hfirst rfl c hc
    · rw [List.cons_append, List.head?_cons, Option.mem_some_iff] at hc
      have hkc := hk k List.mem_cons_self
      by_contra hw
      rw [← hc] at hw
      rw [isKeyChar_of_isWsp (by simpa using hw)] at hkc
      cases hkc
  obtain ⟨-, hblanks⟩ := dropWhile_append hb hhead
  obtain ⟨htake, hdrop⟩ := dropWhile_append hk hr
  unfold decodeSvcbParam decodeSvcbParamKey
  dsimp only
  rw [hblanks, if_neg hne, htake, hdrop]

theorem decodeSvcbParam_value (hb : ∀ c ∈ blanks, isWsp c = true) (hk : ∀ c ∈ key, isKeyChar c = true) :
    decodeSvcbParam (blanks ++ (key ++ 61 :: data)) =
      (decodeCharStr data).map fun r => ((key, r.1), r.2) := by
  rw [decodeSvcbParam_split hb hk (by simp) (fun c hc => ?_) fun _ c hc => ?_]
  · rfl
  all_goals
    rw [List.head?_cons, Option.mem_some_iff] at hc
    rw [← hc]
    rfl

theorem decodeSvcbParam_bare (hb : ∀ c ∈ blanks, isWsp c = true) (hk : ∀ c ∈ key, isKeyChar c = true)
    (hne : key ≠ []) (hc : isWsp c = true) :
    decodeSvcbParam (blanks ++ (key ++ c :: data)) = .ok ((key, []), data) := by
  rw [decodeSvcbParam_split hb hk (by simp) (fun c' hc' => ?_) fun hnil => absurd hnil hne]
  · have h61 : c ≠ 61 := by
      rintro rfl
      cases hc
    unfold decodeAfterKey
    dsimp only
    rw [if_neg h61, if_pos hc]
  · rw [List.head?_cons, Option.mem_some_iff] at hc'
    rw [← hc']
    exact isKeyChar_of_isWsp hc

/-- What one round of `decode_svcb_param_list` does. -/
theorem decodeSvcbParam_cases (data : Bytes) :
    ((∀ c ∈ data, isWsp c = true) ∧ decodeSvcbParam data = .error .indexError) ∨
    ∃ blanks key rest, data = blanks ++ (key ++ rest) ∧ (∀ c ∈ blanks, isWsp c = true) ∧
      (∀ c ∈ key, isKeyChar c = true) ∧
      ((rest = [] ∧ decodeSvcbParam data = .ok ((key, []), [])) ∨
        (∃ data', rest = 61 :: data' ∧
          decodeSvcbParam data = (decodeCharStr data').map fun r => ((key, r.1), r.2)) ∨
        (∃ c data', rest = c :: data' ∧ isWsp c = true ∧ key ≠ [] ∧
          decodeSvcbParam data = .ok ((key, []), data')) ∨
        decodeSvcbParam data = .error .validationError) := by
  obtain ⟨blanks, key, rest, rfl, hb, hk, hr, hfirst⟩ := exists_split data
  by_cases hne : key ++ rest = []
  · left
    rw [hne, List.append_nil]
    exact ⟨hb, decodeSvcbParam_blank hb⟩
  · right
    refine ⟨blanks, key, rest, rfl, hb, hk, ?_⟩
    have hparam := decodeSvcbParam_split hb hk hne hr hfirst
    rcases rest with _ | ⟨c, rest⟩
    · exact Or.inl ⟨rfl, hparam⟩
    · right
      by_cases h61 : c = 61
      · obtain rfl := h61
        exact Or.inl ⟨rest, rfl, hparam⟩
      · right
        unfold decodeAfterKey at hparam
        dsimp only at hparam
        rw [if_neg h61] at hparam
        by_cases hw : isWsp c = true
        · left
          refine ⟨c, rest, rfl, hw, fun hnil => ?_, ?_⟩
          · have hnot := hfirst hnil c rfl
            rw [hw] at hnot
            cases hnot
          · rw [hparam, if_pos hw]
        · right
          rw [hparam, if_neg hw]

/-- A round takes something off the buffer. -/
theorem length_decodeSvcbParam {param : Bytes × Bytes} (h : decodeSvcbParam data = .ok (param, rest)) :
    rest.length < data.length ∨ rest = [] := by
  rcases decodeSvcbParam_cases data with ⟨-, herr⟩ | ⟨blanks, key, left, rfl, -, -, hcase⟩
  · rw [herr] at h
    cases h
  · rcases hcase with ⟨-, hok⟩ | ⟨data', rfl, hok⟩ | ⟨c, data', rfl, -, -, hok⟩ | herr
    · rw [hok] at h
      cases h
      exact Or.inr rfl
    · rw [hok] at h
      obtain ⟨r, hr, heq⟩ := exists_of_map_ok h
      cases heq
      have hlen := (suffix_decodeCharStr hr).length_le
      simp only [List.length_append, List.length_cons]
      omega
    · rw [hok] at h
      cases h
      simp only [List.length_append, List.length_cons]
      omega
    · rw [herr] at h
      cases h

/-! ### Parameter lists -/

theorem paramsFrom_eq {n m : ℕ} (hn : data.length < n) (hm : data.length < m) :
    paramsFrom n data = paramsFrom m data := by
  induction n generalizing data m with
  | zero => omega
  | succ n ih =>
    obtain ⟨m, rfl⟩ := Nat.exists_eq_succ_of_ne_zero (show m ≠ 0 by omega)
    unfold paramsFrom
    rcases hparam : decodeSvcbParam data with e | ⟨param, rest⟩
    · rfl
    · show (if rest = [] then _ else _) = if rest = [] then _ else _
      by_cases hrest : rest = []
      · rw [if_pos hrest, if_pos hrest]
      · have hlt := (length_decodeSvcbParam hparam).resolve_right hrest
        rw [if_neg hrest, if_neg hrest, ih (by omega) (by omega : rest.length < m)]

theorem decodeParams_error {e : PyErr} (h : decodeSvcbParam data = .error e) :
    decodeParams data = .error e := by
  unfold decodeParams paramsFrom
  rw [h]
  rfl

theorem decodeParams_last {param : Bytes × Bytes} (h : decodeSvcbParam data = .ok (param, [])) :
    decodeParams data = .ok [param] := by
  unfold decodeParams paramsFrom
  rw [h]
  rfl

theorem decodeParams_more {param : Bytes × Bytes} (h : decodeSvcbParam data = .ok (param, rest))
    (hrest : rest ≠ []) : decodeParams data = (decodeParams rest).map (param :: ·) := by
  have hlt := (length_decodeSvcbParam h).resolve_right hrest
  unfold decodeParams
  rw [paramsFrom, h]
  show (if rest = [] then _ else _) = _
  rw [if_neg hrest, paramsFrom_eq hlt (Nat.lt_succ_self _)]
  rcases paramsFrom (rest.length + 1) rest with e | params
  · rfl
  · rfl

/-! ### Texts that are cut off -/

/-- The texts with nothing but blanks, or with a key and `=`, after the last complete parameter. -/
inductive Cut : Bytes → Prop
  | blank {blanks : Bytes} (hb : ∀ c ∈ blanks, isWsp c = true) : Cut blanks
  | key {blanks key : Bytes} (hb : ∀ c ∈ blanks, isWsp c = true) (hk : ∀ c ∈ key, isKeyChar c = true) :
      Cut (blanks ++ (key ++ [61]))
  | bare {blanks key rest : Bytes} {c : UInt8} (hb : ∀ c ∈ blanks, isWsp c = true)
      (hk : ∀ c ∈ key, isKeyChar c = true) (hkey : key ≠ []) (hc : isWsp c = true) (hne : rest ≠ [])
      (hr : Cut rest) : Cut (blanks ++ (key ++ c :: rest))
  | quoted {blanks key out t rest : Bytes} (hb : ∀ c ∈ blanks, isWsp c = true)
      (hk : ∀ c ∈ key, isKeyChar c = true) (ht : Contiguous true out t) (hne : rest ≠ []) (hr : Cut rest) :
      Cut (blanks ++ (key ++ 61 :: (34 :: t ++ 34 :: rest)))
  | plain {blanks key out t rest : Bytes} {c : UInt8} (hb : ∀ c ∈ blanks, isWsp c = true)
      (hk : ∀ c ∈ key, isKeyChar c = true) (ht : Contiguous false out t) (hc : isWsp c = true)
      (hr : Cut (c :: rest)) : Cut (blanks ++ (key ++ 61 :: (t ++ c :: rest)))

/-- A parameter list goes on with a blank after a value without quotes, if it is not refused there. -/
theorem decodeParams_endsStr (hends : EndsStr false c) (hw : isWsp c = false) :
    decodeParams (c :: rest) = .error .validationError := by
  have hkey : isKeyChar c = false := by
    obtain ⟨hslash, hspecial, -⟩ := hends
    by_contra hk
    have hk : isKeyChar c = true := by simpa using hk
    unfold isKeyChar isDigitChar at hk
    unfold isNonSpecialChar at hspecial
    simp only [Bool.or_eq_true, Bool.and_eq_true, decide_eq_true_eq, ← UInt8.toNat_inj] at hk
    simp only [Bool.or_eq_false_iff, Bool.and_eq_false_iff, decide_eq_false_iff_not] at hspecial
    have h45 : (45 : UInt8).toNat = 45 := rfl
    omega
  have h61 : c ≠ 61 := by
    rintro rfl
    exact absurd hends.2.1 (by decide)
  have hhead : ∀ f : UInt8 → Bool, f c = false → ∀ c' ∈ (c :: rest).head?, f c' = false := by
    intro f hf c' hc'
    rw [List.head?_cons, Option.mem_some_iff] at hc'
    rw [← hc']
    exact hf
  have hnil : ∀ f : UInt8 → Bool, ∀ c' ∈ ([] : Bytes), f c' = true := fun f c' hc' => by cases hc'
  have hparam := decodeSvcbParam_split (hnil isWsp) (hnil isKeyChar) (by simp) (hhead isKeyChar hkey)
    fun _ => hhead isWsp hw
  refine decodeParams_error (hparam.trans ?_)
  unfold decodeAfterKey
  dsimp only
  rw [if_neg h61, if_neg (by simpa using hw)]

theorem decodeParams_of_cut (h : Cut data) : decodeParams data = .error .indexError := by
  induction h with
  | blank hb => exact decodeParams_error (decodeSvcbParam_blank hb)
  | key hb hk => exact decodeParams_error (decodeSvcbParam_value hb hk)
  | bare hb hk hkey hc hne _ ih =>
    rw [decodeParams_more (decodeSvcbParam_bare hb hk hkey hc) hne, ih]
    rfl
  | @quoted blanks key out t rest hb hk ht hne _ ih =>
    have hparam : decodeSvcbParam (blanks ++ (key ++ 61 :: (34 :: t ++ 34 :: rest))) =
        .ok ((key, out), rest) := by
      rw [decodeSvcbParam_value hb hk, decodeCharStr_quote ht]
      rfl
    rw [decodeParams_more hparam hne, ih]
    rfl
  | @plain blanks key out t rest c hb hk ht hc _ ih =>
    have hends : ∀ c' ∈ (c :: rest).head?, EndsStr false c' ∧ c' ≠ 34 := by
      intro c' hc'
      rw [List.head?_cons, Option.mem_some_iff] at hc'
      rw [← hc']
      refine ⟨endsStr_of_isWsp hc, ?_⟩
      rintro rfl
      cases hc
    have hparam : decodeSvcbParam (blanks ++ (key ++ 61 :: (t ++ c :: rest))) =
        .ok ((key, out), c :: rest) := by
      rw [decodeSvcbParam_value hb hk, decodeCharStr_plain ht (by simp) hends]
      rfl
    rw [decodeParams_more hparam (by simp), ih]
    rfl

theorem decodeCharStr_indexError (h : decodeCharStr data = .error .indexError) : data = [] := by
  by_contra hne
  cases raisesOnly_decodeCharStr hne _ h

/-- The forms of a value, with what follows it. -/
theorem decodeCharStr_forms (h : decodeCharStr data = .ok (out, rest)) :
    (∃ t, Contiguous true out t ∧ data = 34 :: t ++ 34 :: rest) ∨
      ∃ t, Contiguous false out t ∧ data = t ++ rest ∧ ∀ c ∈ rest.head?, EndsStr false c := by
  rcases data with _ | ⟨c, data⟩
  · cases h
  · rcases decodeCharStr_eq_ok.mp h with ⟨rfl, hstr⟩ | ⟨-, hstr⟩
    · obtain ⟨t, ht, rfl, -⟩ := decodeContiguousStr_eq_ok.mp hstr
      exact Or.inl ⟨t, ht, rfl⟩
    · exact Or.inr (decodeContiguousStr_eq_ok.mp hstr)

theorem cut_of_decodeParams (h : decodeParams data = .error .indexError) : Cut data := by
  induction hn : data.length using Nat.strongRecOn generalizing data with
  | ind n ih =>
    have hmore : ∀ {param : Bytes × Bytes} {rest : Bytes}, decodeSvcbParam data = .ok (param, rest) →
        rest ≠ [] ∧ Cut rest := by
      intro param rest hparam
      by_cases hrest : rest = []
      · rw [hrest] at hparam
        rw [decodeParams_last hparam] at h
        cases h
      · have hlt := (length_decodeSvcbParam hparam).resolve_right hrest
        rw [decodeParams_more hparam hrest] at h
        rcases hleft : decodeParams rest with e | params <;> rw [hleft] at h <;> cases h
        exact ⟨hrest, ih rest.length (by omega) hleft rfl⟩
    rcases decodeSvcbParam_cases data with ⟨hb, -⟩ | ⟨blanks, key, left, hdata, hb, hk, hcase⟩
    · exact .blank hb
    · rcases hcase with ⟨-, hok⟩ | ⟨data', rfl, hok⟩ | ⟨c, data', rfl, hc, hkey, hok⟩ | herr
      · exact absurd rfl (hmore hok).1
      · rcases hstr : decodeCharStr data' with e | ⟨out, rest⟩
        · have herr : decodeParams data = .error e := decodeParams_error (by rw [hok, hstr]; rfl)
          rw [herr] at h
          cases h
          rw [hdata, decodeCharStr_indexError hstr]
          exact .key hb hk
        · have hparam : decodeSvcbParam data = .ok ((key, out), rest) := by
            rw [hok, hstr]
            rfl
          obtain ⟨hrest, hcut⟩ := hmore hparam
          rcases decodeCharStr_forms hstr with ⟨t, ht, rfl⟩ | ⟨t, ht, rfl, hends⟩
          · rw [hdata]
            exact .quoted hb hk ht hrest hcut
          · obtain ⟨c, rest, rfl⟩ := List.exists_cons_of_ne_nil hrest
            by_cases hw : isWsp c = true
            · rw [hdata]
              exact .plain hb hk ht hw hcut
            · have herr := decodeParams_of_cut hcut
              rw [decodeParams_endsStr (hends c rfl) (by simpa using hw)] at herr
              cases herr
      · obtain ⟨hrest, hcut⟩ := hmore hok
        rw [hdata]
        exact .bare hb hk hkey hc hrest hcut
      · rw [decodeParams_error herr] at h
        cases h

/-- **A parameter list is an `IndexError` just when it is cut off.** -/
theorem decodeParams_indexError_iff : decodeParams data = .error .indexError ↔ Cut data :=
  ⟨cut_of_decodeParams, decodeParams_of_cut⟩

/-- Every other exception is a `ValidationError`. -/
theorem raisesOnly_decodeParams (data : Bytes) :
    RaisesOnly (fun e => e = .validationError ∨ e = .indexError) (decodeParams data) := by
  induction hn : data.length using Nat.strongRecOn generalizing data with
  | ind n ih =>
    rcases hparam : decodeSvcbParam data with e | ⟨param, rest⟩
    · rw [decodeParams_error hparam]
      refine raisesOnly_error ?_
      rcases decodeSvcbParam_cases data with ⟨-, herr⟩ | ⟨blanks, key, left, -, -, -, hcase⟩
      · rw [herr] at hparam
        exact Or.inr (Except.error.inj hparam).symm
      · rcases hcase with ⟨-, hok⟩ | ⟨data', -, hok⟩ | ⟨c, data', -, -, -, hok⟩ | herr
        · rw [hok] at hparam
          cases hparam
        · rw [hok] at hparam
          rcases hstr : decodeCharStr data' with e' | r <;> rw [hstr] at hparam <;> cases hparam
          by_cases hnil : data' = []
          · rw [hnil] at hstr
            exact Or.inr (Except.error.inj hstr).symm
          · exact Or.inl (raisesOnly_decodeCharStr hnil _ hstr)
        · rw [hok] at hparam
          cases hparam
        · rw [herr] at hparam
          exact Or.inl (Except.error.inj hparam).symm
    · by_cases hrest : rest = []
      · rw [hrest] at hparam
        rw [decodeParams_last hparam]
        exact raisesOnly_ok _
      · have hlt := (length_decodeSvcbParam hparam).resolve_right hrest
        rw [decodeParams_more hparam hrest]
        exact (ih rest.length (by omega) rest rfl).map _

/-! ### The decoders of texts -/

/-- A value, or a `ValidationError`. -/
def FailsCleanly {α : Type} (x : Except PyErr α) : Prop := (∃ a, x = .ok a) ∨ x = .error .validationError

theorem failsCleanly_of_raisesOnly {α : Type} {x : Except PyErr α} (h : RaisesOnly (· = .validationError) x) :
    FailsCleanly x :=
  h.ok_or

theorem not_failsCleanly_indexError {α : Type} : ¬ FailsCleanly (.error .indexError : Except PyErr α) := by
  rintro (⟨a, h⟩ | h)
  · cases h
  · cases h

theorem raisesOnly_octetParam (item : Bytes × Bytes) :
    RaisesOnly (· = .validationError) (octetParam item) := by
  have hkey : RaisesOnly (· = .valueError) (svcbParam (asciiText item.1) (.octet item.2)) := by
    refine RaisesOnly.map _ ?_
    unfold keyId
    rcases paramMapping.lookup (asciiText item.1) with _ | id
    · dsimp only
      split_ifs
      · rcases intOfKey ((asciiText item.1).drop 3) with _ | id
        · exact raisesOnly_error rfl
        · exact raisesOnly_ok _
      · exact raisesOnly_error rfl
    · exact raisesOnly_ok _
  unfold octetParam
  rcases hkey.ok_or with ⟨p, hp⟩ | herr
  · rw [hp]
    exact raisesOnly_ok _
  · rw [herr]
    exact raisesOnly_error rfl

theorem encode_eq_nil_iff {t : Text} : encode t = [] ↔ t = [] :=
  ⟨fun h => encode_inj (h.trans encode_nil.symm), fun h => by rw [h, encode_nil]⟩

theorem raisesOnly_decodeValue {t : Text} (h : t ≠ []) :
    RaisesOnly (· = .validationError) (decodeValue t) := by
  refine (raisesOnly_decodeCharStr (mt encode_eq_nil_iff.mp h)).bind fun r _ => ?_
  dsimp only
  split_ifs
  · exact raisesOnly_error rfl
  · exact raisesOnly_ok _

theorem raisesOnly_addressOf {α : Type} (parse : Text → Option α) (v : Bytes) :
    RaisesOnly (· = .validationError) (addressOf parse v) := by
  unfold addressOf
  rcases decode v with _ | t
  · exact raisesOnly_error rfl
  · dsimp only
    rcases parse t with _ | a
    · exact raisesOnly_error rfl
    · exact raisesOnly_ok _

theorem failsCleanly_alpnFromStr_iff (t : Text) : FailsCleanly (alpnFromStr t) ↔ t ≠ [] := by
  constructor
  · rintro h rfl
    exact not_failsCleanly_indexError h
  · intro hne
    refine failsCleanly_of_raisesOnly ((raisesOnly_decodeValue hne).bind fun value _ => ?_)
    refine (raisesOnly_decodeSvcbCommaList value).bind fun elms _ => ?_
    unfold alpnData
    split_ifs
    · exact raisesOnly_ok _
    · exact raisesOnly_error rfl

theorem failsCleanly_hintsFromStr_iff {α : Type} (parse : Text → Option α) (t : Text) :
    FailsCleanly (hintsFromStr parse t) ↔ t ≠ [] := by
  constructor
  · rintro h rfl
    exact not_failsCleanly_indexError h
  · intro hne
    refine failsCleanly_of_raisesOnly ((raisesOnly_decodeValue hne).bind fun value _ => ?_)
    refine (raisesOnly_decodeSvcbCommaList value).bind fun elms _ => ?_
    exact RaisesOnly.mapM fun v _ => raisesOnly_addressOf parse v

theorem failsCleanly_decodeSvcbParamList_iff (t : Text) :
    FailsCleanly (decodeSvcbParamList t) ↔ ¬ Cut (encode t) := by
  constructor
  · intro h hcut
    unfold decodeSvcbParamList at h
    rw [decodeParams_of_cut hcut] at h
    exact not_failsCleanly_indexError h
  · intro hcut
    refine failsCleanly_of_raisesOnly (RaisesOnly.bind (fun e he => ?_) fun params _ => ?_)
    · rcases raisesOnly_decodeParams _ e he with rfl | rfl
      · rfl
      · exact absurd (cut_of_decodeParams he) hcut
    · exact RaisesOnly.mapM fun item _ => raisesOnly_octetParam item

/-- **The decoders of SVCB texts fail cleanly** just so: `decode_svcb_param_list` on every text that is not
cut off after a blank or a `=`, the three constructors of value lists on every text but the empty one. On
the others they raise an `IndexError`. -/
theorem failsCleanly_iff (t : Text) :
    (FailsCleanly (decodeSvcbParamList t) ↔ ¬ Cut (encode t)) ∧
      (FailsCleanly (alpnFromStr t) ↔ t ≠ []) ∧ (FailsCleanly (ipv4FromStr t) ↔ t ≠ []) ∧
      (FailsCleanly (ipv6FromStr t) ↔ t ≠ []) :=
  ⟨failsCleanly_decodeSvcbParamList_iff t, failsCleanly_alpnFromStr_iff t,
    failsCleanly_hintsFromStr_iff ipv4Address t, failsCleanly_hintsFromStr_iff ipv6Address t⟩

/-- A key with nothing after `=`, a blank at the end of a value, and the empty text. -/
theorem indexError_texts : (¬ ∀ t, FailsCleanly (decodeSvcbParamList t)) ∧
    decodeSvcbParamList "port=".toList = .error .indexError ∧
    decodeSvcbParamList "port=8443 ".toList = .error .indexError ∧
    decodeSvcbParamList [] = .error .indexError ∧ alpnFromStr [] = .error .indexError ∧
    ipv4FromStr [] = .error .indexError ∧ ipv6FromStr [] = .error .indexError := by
  refine ⟨fun hall => not_failsCleanly_indexError (hall []), ?_, ?_, rfl, rfl, rfl, rfl⟩
  · decide
  · decide

end HexDns.Svcb.Grammar
