import HexDns.Models.Convert

/-! # TXT data on the wire and in zone files

`TXTRecord.to_rr` cuts the text after every 255 characters and encodes the pieces, `long_txt_from_zone`
encodes it and cuts the bytes. `from_rr` decodes each string on its own. `survives_iff` says which texts
come back. -/

namespace HexDns.Models.Txt

open HexDns.Lib.Texts HexDns.Lib.Programs HexDns.Base.Py HexDns.Base.Codecs HexDns.Base.Label
  HexDns.Base.Message HexDns.Models.Db HexDns.Models.Env HexDns.Models.Convert

/-! ### Slices -/

section
variable {α : Type} {n : ℕ} {l : List α}

/-- `[l[i:i+n] for i in range(0, len(l), n)]` -/
def slices (n : ℕ) (l : List α) : List (List α) :=
  (List.range ((l.length + (n - 1)) / n)).map fun i => (l.drop (n * i)).take n

theorem slices_nil (hn : 0 < n) : slices n ([] : List α) = [] := by
  have hcount : (0 + (n - 1)) / n = 0 := Nat.div_eq_of_lt (by omega)
  unfold slices
  rw [List.length_nil, hcount]
  rfl

theorem slices_of_ne_nil (hn : 0 < n) (hl : l ≠ []) : slices n l = l.take n :: slices n (l.drop n) := by
  have hpos : 0 < l.length := List.length_pos_iff.mpr hl
  have hcount : (l.length + (n - 1)) / n = ((l.drop n).length + (n - 1)) / n + 1 := by
    rw [List.length_drop]
    by_cases hle : l.length ≤ n
    · have h1 : (l.length - n + (n - 1)) / n = 0 := Nat.div_eq_of_lt (by omega)
      have h2 : l.length + (n - 1) = l.length - 1 + n := by omega
      have h3 : (l.length - 1) / n = 0 := Nat.div_eq_of_lt (by omega)
      rw [h1, h2, Nat.add_div_right _ hn, h3]
    · have h1 : l.length + (n - 1) = l.length - n + (n - 1) + n := by omega
      rw [h1, Nat.add_div_right _ hn]
  unfold slices
  rw [hcount, List.range_succ_eq_map, List.map_cons, List.map_map, Nat.mul_zero, List.drop_zero]
  congr 1
  refine List.map_congr_left fun i _ => ?_
  show (l.drop (n * (i + 1))).take n = ((l.drop n).drop (n * i)).take n
  rw [List.drop_drop, Nat.mul_succ, Nat.add_comm]

/-- A property of the slices of a list, from the empty list on. -/
theorem slices_induction (hn : 0 < n) {P : List α → Prop} (hnil : P [])
    (hstep : ∀ l : List α, l ≠ [] → P (l.drop n) → P l) (l : List α) : P l := by
  induction hk : l.length using Nat.strong_induction_on generalizing l with
  | _ k ih =>
    by_cases hl : l = []
    · rw [hl]
      exact hnil
    · have hpos : 0 < l.length := List.length_pos_iff.mpr hl
      refine hstep l hl (ih (l.drop n).length ?_ (l.drop n) rfl)
      rw [List.length_drop]
      omega

theorem flatten_slices (hn : 0 < n) (l : List α) : (slices n l).flatten = l := by
  induction l using slices_induction hn with
  | hnil => rw [slices_nil hn, List.flatten_nil]
  | hstep l hl ih => rw [slices_of_ne_nil hn hl, List.flatten_cons, ih, List.take_append_drop]

end

/-! ### The texts that come back -/

/-- `long_txt_from_zone` -/
def longTxtFromZone (rd : List Text) : Except PyErr Rdata :=
  txtRdata ((rd.map encode).flatMap (slices 255))

/-- **The text survives**: each string of `to_rr` has at most 255 bytes, together they are its encoding,
and `from_rr` gives it back from them and from those of `long_txt_from_zone`. -/
structure Survives (h : Host) (self : Row) (queryName : DnsLabel) (data : Text) : Prop where
  wire : ∃ rr strings, toRr h self queryName = .ok (some rr) ∧ rr.rdata = .txt strings ∧
    (∀ s ∈ strings, s.length ≤ 255) ∧ strings.flatten = encode data ∧ txtColumns rr = .ok (.txt data)
  zoneFile : ∃ rdata, longTxtFromZone [data] = .ok rdata ∧
    ∀ rr : Rr, txtColumns { rr with rdata := rdata } = .ok (.txt data)

/-- The characters are ASCII up to the last multiple of 255, and those after it have at most 255
bytes. -/
def Fits (data : Text) : Prop :=
  IsAscii (data.take (255 * (data.length / 255))) ∧
    (encode (data.drop (255 * (data.length / 255)))).length ≤ 255

instance (data : Text) : Decidable (Fits data) := by unfold Fits; infer_instance

/-! ### Decoding -/

/-- The first character of an encoded text is found. -/
theorem firstChar_append (c : Char) (b : Bytes) :
    firstChar (String.utf8EncodeChar c ++ b) = some (c, c.utf8Size) := by
  have hlen := String.length_utf8EncodeChar c
  have hle := c.utf8Size_le_four
  have hpos := c.utf8Size_pos
  -- a character that a shorter start encodes would be `c`
  have hshort : ∀ k < c.utf8Size, ∀ d,
      decode ((String.utf8EncodeChar c ++ b).take k) ≠ some [d] := by
    intro k hk d hd
    have hd' : String.utf8EncodeChar d = (String.utf8EncodeChar c ++ b).take k := by
      rw [← decode_eq_some.mp hd, encode_cons, encode_nil, List.append_nil]
    have hsplit : String.utf8EncodeChar d ++ (String.utf8EncodeChar c ++ b).drop k =
        String.utf8EncodeChar c ++ b := by
      rw [hd', List.take_append_drop]
    obtain rfl := utf8EncodeChar_append_inj hsplit
    have hlen' := congrArg List.length hd'
    rw [List.length_take, List.length_append] at hlen'
    omega
  have hhere : decode ((String.utf8EncodeChar c ++ b).take c.utf8Size) = some [c] := by
    rw [← hlen, List.take_left]
    refine decode_eq_some.mpr ?_
    rw [encode_cons, encode_nil, List.append_nil]
  obtain ⟨g, hg, hsome, hnone⟩ : ∃ g : ℕ → Option (Char × ℕ),
      firstChar (String.utf8EncodeChar c ++ b) = [1, 2, 3, 4].findSome? g ∧
        (∀ k d, decode ((String.utf8EncodeChar c ++ b).take k) = some [d] → g k = some (d, k)) ∧
          ∀ k, (∀ d, decode ((String.utf8EncodeChar c ++ b).take k) ≠ some [d]) → g k = none := by
    refine ⟨_, rfl, fun k d hd => ?_, fun k hk => ?_⟩
    · simp only [hd]
    · split
      · rename_i d hd
        exact absurd hd (hk d)
      · rfl
  have hfound := hsome _ _ hhere
  have hearlier : ∀ k < c.utf8Size, g k = none := fun k hk => hnone k (hshort k hk)
  have hcases : c.utf8Size = 1 ∨ c.utf8Size = 2 ∨ c.utf8Size = 3 ∨ c.utf8Size = 4 := by omega
  rw [hg]
  rcases hcases with hk | hk | hk | hk <;> rw [hk] at hearlier hfound ⊢
  · rw [List.findSome?_cons, hfound]
  · rw [List.findSome?_cons, hearlier 1 (by omega), List.findSome?_cons, hfound]
  · rw [List.findSome?_cons, hearlier 1 (by omega), List.findSome?_cons, hearlier 2 (by omega),
      List.findSome?_cons, hfound]
  · rw [List.findSome?_cons, hearlier 1 (by omega), List.findSome?_cons, hearlier 2 (by omega),
      List.findSome?_cons, hearlier 3 (by omega), List.findSome?_cons, hfound]

theorem decodeReplaceFrom_encode (t : Text) {n : ℕ} (hn : (encode t).length ≤ n) :
    decodeReplaceFrom n (encode t) = t := by
  induction t generalizing n with
  | nil => rcases n with _ | n <;> rfl
  | cons c t ih =>
    have hpos := c.utf8Size_pos
    have hlen := String.length_utf8EncodeChar c
    rw [encode_cons, List.length_append] at hn
    obtain ⟨n, rfl⟩ : ∃ m, n = m + 1 := ⟨n - 1, by omega⟩
    have hne : encode (c :: t) ≠ [] := by
      rw [encode_cons]
      exact List.append_ne_nil_of_left_ne_nil (List.ne_nil_of_length_pos (by omega)) _
    have hfirst : firstChar (encode (c :: t)) = some (c, c.utf8Size) := by
      rw [encode_cons, firstChar_append]
    have hstep : decodeReplaceFrom (n + 1) (encode (c :: t)) =
        c :: decodeReplaceFrom n ((encode (c :: t)).drop c.utf8Size) := by
      obtain ⟨x, xs, hx⟩ := List.exists_cons_of_ne_nil hne
      rw [hx] at hfirst ⊢
      rw [decodeReplaceFrom, hfirst]
      exact fun hnil => absurd hnil (List.cons_ne_nil _ _)
    rw [hstep, encode_cons, ← hlen, List.drop_left, ih (by omega)]

/-- What a text is encoded to is decoded to the text. -/
theorem decodeReplace_encode (t : Text) : decodeReplace (encode t) = t :=
  decodeReplaceFrom_encode t (le_refl _)

/-! ### Slices of characters and of bytes -/

theorem chunks_eq (data : Text) : chunks data = slices 255 data := rfl

/-- No slice of characters has more bytes than a string may have. -/
def Short (data : Text) : Prop := ∀ s ∈ slices 255 data, (encode s).length ≤ 255

theorem short_of_ne_nil {data : Text} (hne : data ≠ []) :
    Short data ↔ (encode (data.take 255)).length ≤ 255 ∧ Short (data.drop 255) := by
  unfold Short
  rw [slices_of_ne_nil (by omega) hne, List.forall_mem_cons]

theorem fits_iff_short (data : Text) : Fits data ↔ Short data := by
  induction data using slices_induction (n := 255) (by omega) with
  | hnil => exact iff_of_true (by decide) fun s hs => by rw [slices_nil (by omega)] at hs; cases hs
  | hstep data hne ih =>
    have hpos : 0 < data.length := List.length_pos_iff.mpr hne
    rw [short_of_ne_nil hne, ← ih]
    unfold Fits
    by_cases hlt : data.length < 255
    · have hzero : data.length / 255 = 0 := Nat.div_eq_of_lt hlt
      have hnil : data.drop 255 = [] := List.drop_eq_nil_of_le (by omega)
      rw [hzero, Nat.mul_zero, hnil, List.take_zero, List.drop_zero, List.take_of_length_le (by omega)]
      exact ⟨fun hfits => ⟨hfits.2, by decide⟩, fun hfits => ⟨by decide, hfits.1⟩⟩
    · -- the first slice is full
      have hcount : data.length / 255 = (data.length - 255) / 255 + 1 := by omega
      have htake : (data.take 255).length = 255 := by rw [List.length_take]; omega
      have hfull : (encode (data.take 255)).length ≤ 255 ↔ IsAscii (data.take 255) := by
        have hle := length_le_encode (data.take 255)
        rw [← length_encode_eq_iff, htake]
        omega
      have hsplit : ∀ q, data.take (255 * (q + 1)) =
          data.take 255 ++ (data.drop 255).take (255 * q) := by
        intro q
        rw [Nat.mul_succ, Nat.add_comm, List.take_add]
      have hdrop : ∀ q, data.drop (255 * (q + 1)) = (data.drop 255).drop (255 * q) := by
        intro q
        rw [List.drop_drop, Nat.mul_succ, Nat.add_comm]
      rw [hfull, List.length_drop, hcount, hsplit, hdrop]
      unfold IsAscii
      rw [List.forall_mem_append, and_assoc]

/-- Where the slices of characters are short, they are the slices of bytes. -/
theorem slices_encode {data : Text} (hshort : Short data) :
    slices 255 (encode data) = (slices 255 data).map encode := by
  induction data using slices_induction (n := 255) (by omega) with
  | hnil =>
    rw [encode_nil, slices_nil (by omega), slices_nil (by omega)]
    rfl
  | hstep data hne ih =>
    obtain ⟨hfirst, hrest⟩ := (short_of_ne_nil hne).mp hshort
    have hencode : encode data = encode (data.take 255) ++ encode (data.drop 255) := by
      rw [← encode_append, List.take_append_drop]
    have hbytes : encode data ≠ [] := by
      have hpos : 0 < data.length := List.length_pos_iff.mpr hne
      have hle := length_le_encode data
      exact List.ne_nil_of_length_pos (by omega)
    have hcut : (encode data).take 255 = encode (data.take 255) ∧
        (encode data).drop 255 = encode (data.drop 255) := by
      by_cases hlt : data.length ≤ 255
      · have hnil : data.drop 255 = [] := List.drop_eq_nil_of_le hlt
        have hall : data.take 255 = data := List.take_of_length_le hlt
        rw [hall] at hfirst
        rw [hall, hnil, encode_nil]
        exact ⟨List.take_of_length_le hfirst, List.drop_eq_nil_of_le hfirst⟩
      · have htake : (data.take 255).length = 255 := by rw [List.length_take]; omega
        have hle := length_le_encode (data.take 255)
        have hlen : (encode (data.take 255)).length = 255 := by omega
        rw [hencode]
        exact ⟨List.take_left' hlen, List.drop_left' hlen⟩
    rw [slices_of_ne_nil (by omega) hbytes, slices_of_ne_nil (by omega) hne, hcut.1, hcut.2, ih hrest]
    rfl

theorem flatten_map_encode (parts : List Text) : (parts.map encode).flatten = encode parts.flatten := by
  induction parts with
  | nil => rfl
  | cons t parts ih => rw [List.map_cons, List.flatten_cons, List.flatten_cons, ih, encode_append]

theorem flatMap_decodeReplace_map_encode (parts : List Text) :
    (parts.map encode).flatMap decodeReplace = parts.flatten := by
  induction parts with
  | nil => rfl
  | cons t parts ih => rw [List.map_cons, List.flatMap_cons, List.flatten_cons, ih, decodeReplace_encode]

/-! ### What survives -/

theorem toRr_txt (h : Host) (id zone : ℕ) (recordName : Text) (ttl : ℕ) (data : Text)
    (queryName : DnsLabel) : toRr h ⟨id, zone, recordName, ttl, .txt data⟩ queryName =
      (txtRdata ((slices 255 data).map encode)).map fun rdata =>
        some ⟨queryName, .txt, .in, ttl, rdata⟩ := by
  have hdata : toRdata h (.txt data) = (txtRdata ((slices 255 data).map encode)).map fun rdata =>
      some (.txt, rdata) := rfl
  unfold toRr
  rw [hdata]
  rcases txtRdata ((slices 255 data).map encode) with e | rdata <;> rfl

/-- **A text survives if and only if it fits.** -/
theorem survives_iff (h : Host) (id zone : ℕ) (recordName : Text) (ttl : ℕ) (data : Text)
    (queryName : DnsLabel) :
    Survives h ⟨id, zone, recordName, ttl, .txt data⟩ queryName data ↔ Fits data := by
  rw [fits_iff_short]
  constructor
  · rintro ⟨⟨rr, strings, hrr, hstrings, -⟩, -⟩ s hs
    rw [toRr_txt] at hrr
    unfold txtRdata at hrr
    split_ifs at hrr with hall
    · exact hall (encode s) (List.mem_map_of_mem hs)
    · cases hrr
  · intro hshort
    have hall : ∀ s ∈ (slices 255 data).map encode, s.length ≤ 255 := by
      intro s hs
      obtain ⟨t, ht, rfl⟩ := List.mem_map.mp hs
      exact hshort t ht
    have hrdata : txtRdata ((slices 255 data).map encode) = .ok (.txt ((slices 255 data).map encode)) :=
      if_pos hall
    have hback : ((slices 255 data).map encode).flatMap decodeReplace = data := by
      rw [flatMap_decodeReplace_map_encode, flatten_slices (by omega)]
    refine ⟨⟨⟨queryName, .txt, .in, ttl, .txt ((slices 255 data).map encode)⟩, _, ?_, rfl, hall, ?_, ?_⟩,
      .txt ((slices 255 data).map encode), ?_, fun rr => ?_⟩
    · rw [toRr_txt, hrdata]
      rfl
    · rw [flatten_map_encode, flatten_slices (by omega)]
    · show Except.ok (RecordData.txt _) = _
      rw [hback]
    · unfold longTxtFromZone
      rw [List.map_singleton, List.flatMap_singleton, slices_encode hshort, hrdata]
    · show Except.ok (RecordData.txt _) = _
      rw [hback]

/-- A text of 128 characters of two bytes does not survive. -/
theorem not_survives_accents :
    ¬ Survives .ascii ⟨1, 1, "www".toList, 300, .txt (List.replicate 128 'é')⟩ ⟨[]⟩
      (List.replicate 128 'é') := by
  rintro ⟨⟨rr, strings, hrr, -⟩, -⟩
  have hraises : toRr .ascii ⟨1, 1, "www".toList, 300, .txt (List.replicate 128 'é')⟩ ⟨[]⟩ =
      .error .dnsError := by decide +kernel
  rw [hraises] at hrr
  cases hrr

end HexDns.Models.Txt
