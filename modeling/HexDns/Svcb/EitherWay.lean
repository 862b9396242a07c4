import HexDns.Lib.StableSort
import HexDns.Svcb.AddressTexts
import HexDns.Svcb.Grammar
import HexDns.Svcb.Wire

/-! # Parameters that are given in a field or among the extra parameters

Five parameters of an HTTPS record have a field of their own, and can be given as `key=value` among the extra parameters
as well. The field is decoded to what the parameter is and packed as such, and the extra parameter is packed as the
characters of the value (`packedAlike_iff`). -/

namespace HexDns.Svcb.EitherWay

open HexDns.Lib.Texts HexDns.Lib.Programs HexDns.Lib.StableSort HexDns.Base.Py HexDns.Base.Codecs HexDns.Base.Label
  HexDns.Models.Db HexDns.Models.Env HexDns.Models.Names HexDns.Models.Wire HexDns.Svcb.Decode HexDns.Svcb.Escaping
  HexDns.Svcb.Grammar HexDns.Svcb.Addresses HexDns.Svcb.AddressTexts HexDns.Svcb.Params HexDns.Svcb.Packing HexDns.Svcb.Https
  HexDns.Svcb.Reads HexDns.Svcb.Wire

/-! ### The statement -/

/-- The parameters that have a field. -/
inductive Field
  | alpn
  | port
  | ipv4hint
  | ech
  | ipv6hint
  deriving DecidableEq

/-- The number of the parameter. -/
def Field.key : Field → ℕ
  | .alpn => 1
  | .port => 3
  | .ipv4hint => 4
  | .ech => 5
  | .ipv6hint => 6

/-- The field gives the value with these characters: a list is given as a character string, a port as a number that the
characters are the digits of, and an ECH configuration as these characters. -/
def Field.Gives (data : HttpsData) (value : Bytes) : Field → Prop
  | .alpn => decodeValue (text data.alpns) = .ok value
  | .port => ∃ t p, value = encode t ∧ natOfKey t = some p ∧ data.targetPort = some p
  | .ipv4hint => decodeValue data.ipv4Hints = .ok value
  | .ech => text data.ech ≠ [] ∧ value = encode (text data.ech)
  | .ipv6hint => decodeValue data.ipv6Hints = .ok value

/-- The record with the field not filled. -/
inductive Unfilled (data : HttpsData) : Field → HttpsData → Prop
  | alpn {alpns : Option Text} (h : text alpns = []) : Unfilled data .alpn { data with alpns := alpns }
  | port {targetPort : Option ℕ} (h : targetPort.getD 0 = 0) :
      Unfilled data .port { data with targetPort := targetPort }
  | ipv4hint : Unfilled data .ipv4hint { data with ipv4Hints := [] }
  | ech {ech : Option Text} (h : text ech = []) : Unfilled data .ech { data with ech := ech }
  | ipv6hint : Unfilled data .ipv6hint { data with ipv6Hints := [] }

/-- **A value is given in its field by one record**, and by the other as the value of its key between the extra
parameters `before` and `after`, which the records have in common with all their other fields. -/
structure Moved (f : Field) (value : Bytes) (before after : List SvcbParam) (data data' : HttpsData) : Prop where
  gives : f.Gives data value
  other : ∃ data₀, Unfilled data f data₀ ∧ data' = { data₀ with extraParams := data'.extraParams }
  extra : FieldIs decodeSvcbParamList data.extraParams (before ++ after)
  extra' : FieldIs decodeSvcbParamList data'.extraParams (before ++ ⟨f.key, .octet value⟩ :: after)

/-- `svcb_record` of a new object, packed -/
def packed (h : Host) (data : HttpsData) : Except PyErr Bytes := record data >>= SvcbRd.pack h

/-- Neither a comma nor a backslash is among the bytes. -/
def Unescaped (v : Bytes) : Prop := ∀ b ∈ v, b ≠ 44 ∧ b ≠ 92

/-- **Names whose list is packed to what it is written as**: the first one has 92 bytes and begins with a comma or a
backslash, which is written after a backslash, the code of which is 92. The other ones have 44 bytes, which is the code
of the comma in front of them. -/
def PackedAsWritten (names : List Bytes) : Prop :=
  ∃ c first rest, names = (c :: first) :: rest ∧ (c = 44 ∨ c = 92) ∧ first.length = 91 ∧ Unescaped first ∧
    ∀ v ∈ rest, v.length = 44 ∧ Unescaped v

/-- **The values that are packed alike**: ALPNs only, without the switches that need the field. -/
structure Alike (f : Field) (value : Bytes) (before : List SvcbParam) (data : HttpsData) : Prop where
  field : f = .alpn
  unset : data.alpnMandatory = false
  http2 : data.http2Support = false
  before : ∀ p ∈ before, p.key = 1 → p.data = .octet value
  names : ∃ names, alpnFromStr (text data.alpns) = .ok names ∧ PackedAsWritten names

/-! ### Lists that are packed alike -/

section
variable {l l' : List SvcbParam}

/-- What a parameter is packed of. -/
def packedPair (p : SvcbParam) : ℤ × Except PyErr Bytes := (p.key, p.data.pack)

/-- What is packed of the parameters with a key. -/
def ofKey (k : ℤ) (l : List SvcbParam) : List (Except PyErr Bytes) :=
  (l.filter (·.key = k)).map fun p => p.data.pack

theorem ofKey_append (k : ℤ) : ofKey k (l ++ l') = ofKey k l ++ ofKey k l' := by
  unfold ofKey
  rw [List.filter_append, List.map_append]

theorem ofKey_cons (k : ℤ) (p : SvcbParam) (l : List SvcbParam) :
    ofKey k (p :: l) = if p.key = k then p.data.pack :: ofKey k l else ofKey k l := by
  unfold ofKey
  rw [List.filter_cons]
  split_ifs <;> simp_all

theorem ofKey_nil (k : ℤ) : ofKey k [] = [] := rfl

/-- The pairs of sorted lists are the same if those of each key are. -/
theorem map_sorted_eq_iff : (sorted l).map packedPair = (sorted l').map packedPair ↔
    ∀ k, ofKey k l = ofKey k l' := by
  have hsort : ∀ l : List SvcbParam, (sorted l).map packedPair =
      (l.map packedPair).insertionSort fun a b => a.1 ≤ b.1 := fun l =>
    List.map_insertionSort _ _ packedPair l fun a _ b _ => Iff.rfl
  have hfilter : ∀ (k : ℤ) (l : List SvcbParam), (l.map packedPair).filter (·.1 = k) =
      (ofKey k l).map fun x => (k, x) := by
    intro k l
    induction l with
    | nil => rfl
    | cons p l ih =>
      rw [List.map_cons, List.filter_cons, ofKey_cons, ih]
      by_cases hk : p.key = k
      · have hpair : (packedPair p).1 = k := hk
        rw [if_pos hk, if_pos (decide_eq_true hpair), List.map_cons, ← hk]
        rfl
      · have hpair : ¬ (packedPair p).1 = k := hk
        rw [if_neg hk, if_neg fun h => hpair (of_decide_eq_true h)]
  have hinj : ∀ k : ℤ, Function.Injective fun x : Except PyErr Bytes => (k, x) := fun k _ _ h => (Prod.mk.inj h).2
  rw [hsort, hsort, insertionSort_eq_iff]
  refine forall_congr' fun k => ?_
  rw [hfilter, hfilter]
  exact (List.map_injective_iff.mpr (hinj k)).eq_iff

theorem packShort_inj {m n : ℤ} {b : Bytes} (hm : packShort m = .ok b) (hn : packShort n = .ok b) : m = n := by
  have hvalue : ∀ k : ℤ, packShort k = .ok b → k = (b.foldl (fun acc x => 256 * acc + x.toNat) 0 : ℕ) := by
    intro k hk
    unfold packShort at hk
    split_ifs at hk with hrange
    rw [← Except.ok.inj hk, value_packUint (by omega)]
    omega
  rw [hvalue m hm, ← hvalue n hn]

/-- The bytes of a parameter are those of its key, its length and its data. -/
theorem packedPair_inj {p p' : SvcbParam} {part part' rest rest' : Bytes} (h : p.pack = .ok part)
    (h' : p'.pack = .ok part') (heq : part ++ rest = part' ++ rest') : packedPair p = packedPair p' ∧ rest = rest' := by
  obtain ⟨data, key, length, hdata, -, hkey, hlength, rfl⟩ := packParam_eq_ok.mp h
  obtain ⟨data', key', length', hdata', -, hkey', hlength', rfl⟩ := packParam_eq_ok.mp h'
  simp only [List.append_assoc] at heq
  obtain ⟨hkeys, heq⟩ := List.append_inj heq (by rw [length_packShort hkey, length_packShort hkey'])
  obtain ⟨hlens, heq⟩ := List.append_inj heq (by rw [length_packShort hlength, length_packShort hlength'])
  have hlen : (data.length : ℤ) = data'.length := packShort_inj (hlens ▸ hlength) hlength'
  obtain ⟨hdatas, hrest⟩ := List.append_inj heq (by exact_mod_cast hlen)
  have hkey : p.key = p'.key := packShort_inj (hkeys ▸ hkey) hkey'
  refine ⟨?_, hrest⟩
  unfold packedPair
  rw [hkey, hdata, hdata', hdatas]

theorem packAll_cons {p : SvcbParam} {b : Bytes} : ((p :: l).mapM SvcbParam.pack).map List.flatten = .ok b ↔
    ∃ part rest, p.pack = .ok part ∧ (l.mapM SvcbParam.pack).map List.flatten = .ok rest ∧ b = part ++ rest := by
  rw [List.mapM_cons]
  constructor
  · intro h
    obtain ⟨parts, hparts, rfl⟩ := exists_of_map_ok h
    obtain ⟨part, hpart, hparts⟩ := bind_eq_ok.mp hparts
    obtain ⟨parts', hparts', hcons⟩ := bind_eq_ok.mp hparts
    obtain rfl := Except.ok.inj hcons
    exact ⟨part, parts'.flatten, hpart, by rw [hparts']; rfl, rfl⟩
  · rintro ⟨part, rest, hpart, hrest, rfl⟩
    obtain ⟨parts, hparts, rfl⟩ := exists_of_map_ok hrest
    rw [hpart, hparts]
    rfl

/-- **What is packed tells the pairs.** -/
theorem pairs_of_packAll {b : Bytes} (h : (l.mapM SvcbParam.pack).map List.flatten = .ok b)
    (h' : (l'.mapM SvcbParam.pack).map List.flatten = .ok b) : l.map packedPair = l'.map packedPair := by
  have hnil : ∀ {p : SvcbParam} {l : List SvcbParam},
      ((p :: l).mapM SvcbParam.pack).map List.flatten ≠ .ok [] := by
    intro p l hpacked
    obtain ⟨part, rest, hpart, -, hb⟩ := packAll_cons.mp hpacked
    have hlen := congrArg List.length hb
    rw [List.length_append, length_packParam hpart, List.length_nil] at hlen
    omega
  induction l generalizing l' b with
  | nil =>
    obtain rfl := Except.ok.inj h
    rcases l' with _ | ⟨p, l'⟩
    · rfl
    · exact absurd h' hnil
  | cons p l ih =>
    rcases l' with _ | ⟨p', l'⟩
    · obtain rfl := Except.ok.inj h'
      exact absurd h hnil
    · obtain ⟨part, rest, hpart, hrest, rfl⟩ := packAll_cons.mp h
      obtain ⟨part', rest', hpart', hrest', heq⟩ := packAll_cons.mp h'
      obtain ⟨hpair, rfl⟩ := packedPair_inj hpart hpart' heq
      rw [List.map_cons, List.map_cons, hpair, ih hrest hrest']

/-- **Lists of parameters are packed alike** if and only if the parameters of each key are. -/
theorem packParams_eq_iff {b : Bytes} (hb : packParams l = .ok b) :
    packParams l' = .ok b ↔ ∀ k, ofKey k l = ofKey k l' := by
  rw [← map_sorted_eq_iff]
  constructor
  · intro hb'
    exact pairs_of_packAll hb hb'
  · intro hpairs
    let packPair (x : ℤ × Except PyErr Bytes) : Except PyErr Bytes := do
      let data ← x.2
      if 65535 < data.length then throw .valueError
      else
        let key ← packShort x.1
        let length ← packShort data.length
        return key ++ length ++ data
    have hmap : ∀ l : List SvcbParam, (l.map packedPair).mapM packPair = l.mapM SvcbParam.pack := fun l => List.mapM_map
    rw [← hb]
    show ((sorted l').mapM SvcbParam.pack).map List.flatten = ((sorted l).mapM SvcbParam.pack).map List.flatten
    rw [← hmap, ← hmap, hpairs]

end

/-! ### Lists of names -/

section
variable {names : List Bytes} {v w : Bytes}

/-- How many bytes of a name are written after a backslash. -/
def escapes (v : Bytes) : ℕ := v.countP fun b => b = 44 ∨ b = 92

theorem escapes_eq_zero : escapes v = 0 ↔ Unescaped v := by
  unfold escapes Unescaped
  rw [List.countP_eq_zero]
  simp only [decide_eq_true_eq, not_or]

theorem flatMap_escapeItemByte (hv : Unescaped v) : v.flatMap escapeItemByte = v := by
  induction v with
  | nil => rfl
  | cons b v ih =>
    obtain ⟨hb, hv⟩ := List.forall_mem_cons.mp hv
    have hesc : escapeItemByte b = [b] := if_neg fun h => h.elim hb.1 hb.2
    rw [List.flatMap_cons, hesc, ih hv]
    rfl

theorem length_escaped (v : Bytes) : (v.flatMap escapeItemByte).length = v.length + escapes v := by
  induction v with
  | nil => rfl
  | cons b v ih =>
    unfold escapes at ih ⊢
    rw [List.flatMap_cons, List.length_append, ih, List.length_cons, List.countP_cons]
    unfold escapeItemByte
    split_ifs with hb hdec hdec
    · simp only [List.length_cons, List.length_nil]
      omega
    · exact absurd hb (by simpa using hdec)
    · exact absurd (by simpa using hdec) hb
    · simp only [List.length_cons, List.length_nil]
      omega

/-- A name as it is packed. -/
def counted (v : Bytes) : Bytes := UInt8.ofNat v.length :: v

/-- The only lists with a byte at one end that is at the other end as well. -/
theorem append_singleton_eq_cons {x y : UInt8} (h : v ++ [y] = x :: v) : v = [] ∧ x = y ∨ y ∈ v := by
  rcases List.eq_nil_or_concat' v with rfl | ⟨u, z, rfl⟩
  · exact Or.inl ⟨rfl, (List.cons.inj h).1.symm⟩
  · right
    have hsplit : (u ++ [z]) ++ [y] = (x :: u) ++ [z] := h
    obtain ⟨-, hlast⟩ := List.append_inj' hsplit rfl
    rw [(List.cons.inj hlast).1]
    simp

/-- Names in which nothing is escaped are packed to what they are written as if they have 44 bytes. -/
theorem flatMap_counted_eq_iff (hplain : ∀ v ∈ names, Unescaped v) (hshort : ∀ v ∈ names, v.length ≤ 255) :
    names.flatMap counted = names.flatMap (fun v => 44 :: v.flatMap escapeItemByte) ↔ ∀ v ∈ names, v.length = 44 := by
  induction names with
  | nil => simp
  | cons v names ih =>
    obtain ⟨hv, hplain⟩ := List.forall_mem_cons.mp hplain
    obtain ⟨hvlen, hshort⟩ := List.forall_mem_cons.mp hshort
    have hcode : UInt8.ofNat v.length = 44 ↔ v.length = 44 := by
      rw [← UInt8.toNat_inj, UInt8.toNat_ofNat', Nat.mod_eq_of_lt (by omega)]
      rfl
    rw [List.flatMap_cons, List.flatMap_cons, flatMap_escapeItemByte hv, List.forall_mem_cons, ← ih hplain hshort,
      ← hcode]
    unfold counted
    rw [List.cons_append, List.cons_append, List.cons_eq_cons, List.append_cancel_left_eq]

theorem sum_escapes_eq {ls : List Bytes} : (ls.flatMap fun v => 44 :: v.flatMap escapeItemByte).length =
    (ls.flatMap counted).length + (ls.map escapes).sum := by
  induction ls with
  | nil => rfl
  | cons v ls ih =>
    rw [List.flatMap_cons, List.flatMap_cons, List.length_append, List.length_append, ih, List.map_cons, List.sum_cons,
      List.length_cons, length_escaped]
    unfold counted
    rw [List.length_cons]
    omega

/-- **When a list of names is packed to what it is written as.** -/
theorem flatMap_counted_eq_joinItems (hne : names ≠ []) (hshort : ∀ v ∈ names, v.length ≤ 255) :
    names.flatMap counted = joinItems names ↔ PackedAsWritten names := by
  obtain ⟨v, rest, rfl⟩ := List.exists_cons_of_ne_nil hne
  obtain ⟨hvlen, hrestlen⟩ := List.forall_mem_cons.mp hshort
  rw [joinItems_cons, List.flatMap_cons]
  constructor
  · intro h
    have hlen := congrArg List.length h
    rw [List.length_append, List.length_append, length_escaped, sum_escapes_eq] at hlen
    have hone : escapes v + (rest.map escapes).sum = 1 := by
      unfold counted at hlen
      rw [List.length_cons] at hlen
      omega
    by_cases hplain : escapes v = 0
    · -- the comma after the first name would be in that name as well
      have hv := escapes_eq_zero.mp hplain
      rcases rest with _ | ⟨u, rest⟩
      · simp only [List.map_nil, List.sum_nil] at hone
        omega
      rw [flatMap_escapeItemByte hv] at h
      have hsplit : (UInt8.ofNat v.length :: v) ++ (u :: rest).flatMap counted = (v ++ [44]) ++
          (u.flatMap escapeItemByte ++ rest.flatMap fun v => 44 :: v.flatMap escapeItemByte) := by
        rw [List.append_assoc]
        exact h
      obtain ⟨hhead, -⟩ := List.append_inj hsplit (by simp)
      rcases append_singleton_eq_cons hhead.symm with ⟨rfl, hcode⟩ | hmem
      · exact absurd hcode (by decide)
      · exact absurd rfl (hv 44 hmem).1
    · have hzero : (rest.map escapes).sum = 0 := by omega
      have hrest : ∀ v ∈ rest, Unescaped v := fun v hv =>
        escapes_eq_zero.mp (List.sum_eq_zero_iff.mp hzero _ (List.mem_map_of_mem hv))
      -- the first name has one escape
      obtain ⟨c, hcv, hc⟩ : ∃ c ∈ v, c = 44 ∨ c = 92 := by
        by_contra hnone
        push Not at hnone
        exact hplain (escapes_eq_zero.mpr hnone)
      obtain ⟨u, w, rfl⟩ := List.append_of_mem hcv
      have hcount : escapes u + escapes w = 0 := by
        unfold escapes at hone ⊢
        rw [List.countP_append, List.countP_cons_of_pos (by simpa using hc)] at hone
        omega
      have hu : Unescaped u := escapes_eq_zero.mp (by omega)
      have hw : Unescaped w := escapes_eq_zero.mp (by omega)
      have hesc : escapeItemByte c = [92, c] := if_pos hc
      rw [List.flatMap_append, List.flatMap_cons, hesc, flatMap_escapeItemByte hu, flatMap_escapeItemByte hw] at h
      have hsplit : (UInt8.ofNat (u ++ c :: w).length :: u) ++ (c :: w ++ rest.flatMap counted) = (u ++ [92]) ++
          (c :: w ++ rest.flatMap fun v => 44 :: v.flatMap escapeItemByte) := by
        simpa [counted] using h
      obtain ⟨hhead, htail⟩ := List.append_inj hsplit (by simp)
      rcases append_singleton_eq_cons hhead.symm with ⟨rfl, hcode⟩ | hmem
      · have hlen92 : ([] ++ c :: w).length = 92 := by
          have hnat := congrArg UInt8.toNat hcode
          rw [UInt8.toNat_ofNat', Nat.mod_eq_of_lt (by omega)] at hnat
          exact hnat
        have hall := (flatMap_counted_eq_iff hrest hrestlen).mp (List.append_cancel_left htail)
        refine ⟨c, w, rest, rfl, hc, ?_, hw, fun v hv => ⟨hall v hv, hrest v hv⟩⟩
        simpa using hlen92
      · exact absurd rfl (hu 92 hmem).2
  · rintro ⟨c, first, rest', hnames, hc, hfirst, hplain, hrest⟩
    obtain ⟨rfl, rfl⟩ := List.cons.inj hnames
    have hcode : UInt8.ofNat (c :: first).length = 92 := by
      rw [List.length_cons, hfirst]
      rfl
    have hesc : escapeItemByte c = [92, c] := if_pos hc
    rw [(flatMap_counted_eq_iff (fun v hv => (hrest v hv).2) hrestlen).mpr fun v hv => (hrest v hv).1,
      List.flatMap_cons, hesc, flatMap_escapeItemByte hplain]
    unfold counted
    rw [hcode]
    rfl

/-- A name that begins with a comma. -/
example : PackedAsWritten [44 :: List.replicate 91 97] :=
  ⟨44, List.replicate 91 97, [], rfl, Or.inl rfl, rfl, fun b hb => by rw [List.eq_of_mem_replicate hb]; decide,
    fun v hv => nomatch hv⟩

end

/-! ### Values that are not packed to their characters -/

section
variable {data : HttpsData} {d : Decoded} {value : Bytes} {names : List Bytes}

theorem pack_alpn (hshort : ∀ v ∈ names, v.length ≤ 255) : ParamData.pack (.alpn names) = .ok (names.flatMap counted) := by
  have hall : ∀ v ∈ names, packCounted v = .ok (counted v) := fun v hv => if_pos (hshort v hv)
  show (names.mapM packCounted).map List.flatten = _
  rw [mapM_eq_map hall, List.flatMap_def]
  rfl

/-- Items that have a length at least are written to a text that has, too. -/
theorem le_length_joinItems {items : List Bytes} {k : ℕ} (hne : items ≠ []) (h : ∀ v ∈ items, k ≤ v.length) :
    k * items.length ≤ (joinItems items).length := by
  have hall : ∀ items : List Bytes, (∀ v ∈ items, k ≤ v.length) →
      k * items.length ≤ (items.flatMap fun v => 44 :: v.flatMap escapeItemByte).length := by
    intro items
    induction items with
    | nil => exact fun _ => Nat.zero_le _
    | cons v items ih =>
      intro h
      obtain ⟨hv, h⟩ := List.forall_mem_cons.mp h
      have hle := ih h
      rw [List.flatMap_cons, List.length_append, List.length_cons, List.length_cons, length_escaped, Nat.mul_succ]
      omega
  obtain ⟨v, items, rfl⟩ := List.exists_cons_of_ne_nil hne
  obtain ⟨hv, h⟩ := List.forall_mem_cons.mp h
  have hle := hall items h
  rw [joinItems_cons, List.length_append, length_escaped, List.length_cons, Nat.mul_succ]
  omega

/-- A zero byte of a list is one of an item. -/
theorem mem_of_mem_joinItems {items : List Bytes} (h : 0 ∈ joinItems items) : ∃ v ∈ items, 0 ∈ v := by
  have hitem : ∀ v : Bytes, 0 ∈ v.flatMap escapeItemByte → 0 ∈ v := by
    intro v hv
    obtain ⟨b, hb, hmem⟩ := List.mem_flatMap.mp hv
    unfold escapeItemByte at hmem
    split_ifs at hmem
    · obtain rfl : (0 : UInt8) = b := by simpa using hmem
      exact hb
    · obtain rfl : (0 : UInt8) = b := by simpa using hmem
      exact hb
  unfold joinItems at h
  rcases mem_of_mem_intercalate h with h | ⟨l, hl, h⟩
  · exact absurd (List.mem_singleton.mp h) (by decide)
  · obtain ⟨v, hv, rfl⟩ := List.mem_map.mp hl
    exact ⟨v, hv, hitem v h⟩

theorem zero_mem_encode {t : Text} (h : 0 ∈ encode t) : Char.ofNat 0 ∈ t := by
  obtain ⟨c, hc, hmem⟩ := List.mem_flatMap.mp h
  by_cases hlt : c.toNat < 128
  · rw [utf8EncodeChar_ascii hlt, List.mem_singleton] at hmem
    have hnat : c.toNat = 0 := by
      have hval := congrArg UInt8.toNat hmem
      rw [toNat_byteOf hlt] at hval
      exact hval.symm
    rwa [show Char.ofNat 0 = c from (Char.ofNat_toNat c ▸ hnat ▸ rfl)]
  · have hge := le_of_mem_utf8EncodeChar hlt hmem
    exact absurd hge (by decide)

/-- The hints of a field, and the items of the list that they are written as. -/
theorem hints_spec {α : Type} {parse : Text → Option α} {field : Text} {addrs : List α}
    (hvalue : decodeValue field = .ok value) (hd : FieldIs (hintsFromStr parse) field addrs) :
    ∃ items, items ≠ [] ∧ value = joinItems items ∧ addrs.length = items.length ∧
      (∀ v ∈ items, ∃ t, v = encode t ∧ ∃ a ∈ addrs, parse t = some a) := by
  have hfield : field ≠ [] := by
    rintro rfl
    cases hvalue
  have hok := hd.eq_ok hfield
  obtain ⟨value', hvalue', hok⟩ := bind_eq_ok.mp hok
  obtain rfl : value = value' := Except.ok.inj (hvalue.symm.trans hvalue')
  obtain ⟨items, hitems, haddrs⟩ := bind_eq_ok.mp hok
  obtain ⟨hne, hjoin⟩ := decodeSvcbCommaList_eq_ok.mp hitems
  refine ⟨items, hne, hjoin, length_mapM haddrs, fun v hv => ?_⟩
  obtain ⟨a, ha, hva⟩ := (mem_mapM haddrs).2 v hv
  unfold addressOf at hva
  rcases hdecode : decode v with _ | t
  · rw [hdecode] at hva
    cases hva
  rw [hdecode] at hva
  dsimp only at hva
  rcases hparse : parse t with _ | a'
  · rw [hparse] at hva
    cases hva
  rw [hparse] at hva
  obtain rfl := Except.ok.inj hva
  exact ⟨t, (decode_eq_some.mp hdecode).symm, a', ha, hparse⟩

theorem ipv4_ne (hvalue : decodeValue data.ipv4Hints = .ok value) (hd : Decodes data d) :
    ParamData.pack (.ipv4 d.ipv4Hints) ≠ .ok value := by
  obtain ⟨items, hne, rfl, hcount, hitems⟩ := hints_spec hvalue hd.ipv4Hints
  intro heq
  have hlong : ∀ v ∈ items, 7 ≤ v.length := by
    intro v hv
    obtain ⟨t, rfl, a, -, hparse⟩ := hitems v hv
    exact (ipv4Address_spec hparse).1.trans (length_le_encode t)
  have hle := le_length_joinItems hne hlong
  have hlen := congrArg List.length (Except.ok.inj heq)
  have hpos := List.length_pos_iff.mpr hne
  rw [length_flatMap_packUint, hcount] at hlen
  omega

theorem ipv6_ne (hvalue : decodeValue data.ipv6Hints = .ok value) (hd : Decodes data d) :
    ParamData.pack (.ipv6 d.ipv6Hints) ≠ .ok value := by
  obtain ⟨items, hne, rfl, hcount, hitems⟩ := hints_spec hvalue hd.ipv6Hints
  intro heq
  have hbytes : d.ipv6Hints.flatMap (fun a => packUint 16 a.toNat) = joinItems items := Except.ok.inj heq
  have hzero : 0 ∉ joinItems items := by
    intro hmem
    obtain ⟨v, hv, h0⟩ := mem_of_mem_joinItems hmem
    obtain ⟨t, rfl, a, -, hparse⟩ := hitems v hv
    exact (ipv6Address_spec hparse).1 _ (zero_mem_encode h0) rfl
  -- no address has a zero byte, so that none is short
  have hlong : ∀ v ∈ items, 17 ≤ v.length := by
    intro v hv
    obtain ⟨t, rfl, a, ha, hparse⟩ := hitems v hv
    have hlt := (ipv6Address_spec hparse).2 fun h0 =>
      hzero (hbytes ▸ List.mem_flatMap.mpr ⟨a, ha, h0⟩)
    have hle := length_le_encode t
    omega
  have hle := le_length_joinItems hne hlong
  have hlen := congrArg List.length hbytes
  have hpos := List.length_pos_iff.mpr hne
  rw [length_flatMap_packUint, hcount] at hlen
  omega

/-- Fewer bytes than characters are decoded. -/
theorem length_b64decode {t : Text} {b : Bytes} (h : b64decode t = .ok b) (ht : t ≠ []) : b.length < t.length := by
  have hloop : ∀ (t : Text) (quad left pads : ℕ) (b : Bytes), a2bBase64 quad left pads t = .ok b →
      b.length ≤ t.length ∧ (quad = 0 → t ≠ [] → b.length < t.length) := by
    intro t
    induction t with
    | nil =>
      intro quad left pads b h
      unfold a2bBase64 at h
      split_ifs at h
      obtain rfl := Except.ok.inj h
      exact ⟨le_rfl, fun _ hne => absurd rfl hne⟩
    | cons c t ih =>
      intro quad left pads b h
      have hskip : ∀ quad' left' pads', a2bBase64 quad' left' pads' t = .ok b →
          b.length ≤ (c :: t).length ∧ (quad = 0 → c :: t ≠ [] → b.length < (c :: t).length) := by
        intro quad' left' pads' hrest
        have hle := (ih quad' left' pads' b hrest).1
        rw [List.length_cons]
        exact ⟨by omega, fun _ _ => by omega⟩
      have hbyte : ∀ quad' left' pads' x, quad ≠ 0 → (a2bBase64 quad' left' pads' t).map (x :: ·) = .ok b →
          b.length ≤ (c :: t).length ∧ (quad = 0 → c :: t ≠ [] → b.length < (c :: t).length) := by
        intro quad' left' pads' x hquad hrest
        obtain ⟨b', hb', rfl⟩ := exists_of_map_ok hrest
        have hle := (ih quad' left' pads' b' hb').1
        rw [List.length_cons, List.length_cons]
        exact ⟨by omega, fun h0 => absurd h0 hquad⟩
      unfold a2bBase64 at h
      split_ifs at h with hpad htwo hfour
      · obtain rfl := Except.ok.inj h
        exact ⟨Nat.zero_le _, fun _ _ => Nat.succ_pos _⟩
      · exact hskip _ _ _ h
      · exact hskip _ _ _ h
      · split at h
        · exact hskip _ _ _ h
        · split at h
          · exact hskip _ _ _ h
          · exact hbyte _ _ _ _ (by omega) h
          · exact hbyte _ _ _ _ (by omega) h
          · rename_i hne _ _
            exact hbyte _ _ _ _ hne h
  unfold b64decode at h
  split_ifs at h
  exact (hloop t 0 0 0 b h).2 rfl ht

theorem ech_ne (hgiven : text data.ech ≠ []) (hd : Decodes data d) :
    ParamData.pack (.octet d.ech) ≠ .ok (encode (text data.ech)) := by
  intro heq
  have hlt := length_b64decode (hd.ech.eq_ok hgiven) hgiven
  have hle := length_le_encode (text data.ech)
  have hlen := congrArg List.length (Except.ok.inj heq)
  omega

theorem port_ne {t : Text} {p : ℕ} (ht : natOfKey t = some p) : ParamData.pack (.integer p) ≠ .ok (encode t) := by
  unfold natOfKey at ht
  split_ifs at ht with hdigits
  obtain ⟨-, hdigits⟩ := hdigits
  obtain rfl := Option.some.inj ht
  have hrange : ∀ c ∈ t, 48 ≤ c.toNat ∧ c.toNat ≤ 57 := fun c hc => isDigit_iff.mp (hdigits c hc)
  intro heq
  have hshort : packShort (Nat.ofDigitChars 10 t 0 : ℕ) = .ok (encode t) := heq
  have hlen : t.length = 2 := by
    rw [← length_packShort hshort]
    refine (length_encode_eq_iff.mpr fun c hc => ?_).symm
    have hc := hrange c hc
    omega
  unfold packShort at hshort
  split_ifs at hshort with hsmall
  rw [Int.toNat_natCast] at hshort
  have hzero : 0 ∉ packUint 2 (Nat.ofDigitChars 10 t 0) := by
    rw [Except.ok.inj hshort]
    intro hmem
    have hc := hrange _ (zero_mem_encode hmem)
    exact absurd hc (by decide)
  -- a number of two digits has a zero byte
  have hlarge := le_of_zero_notMem (by omega) hzero
  obtain ⟨c, e, rfl⟩ := List.length_eq_two.mp hlen
  have hc := hrange c (by simp)
  have he := hrange e (by simp)
  have hcode : '0'.toNat = 48 := rfl
  simp only [Nat.ofDigitChars_cons, Nat.ofDigitChars_nil, hcode] at hlarge
  omega

end

/-! ### The records -/

section
variable {h : Host} {data data' : HttpsData} {d d' : Decoded} {f : Field} {value b : Bytes}
  {before after : List SvcbParam}

/-- The parameters of a record. -/
def recordParams (data : HttpsData) (d : Decoded) : List SvcbParam := allParams data d 0 ++ mandatoryParam data

theorem ofKey_ite (k : ℤ) (q : Prop) [Decidable q] (p : SvcbParam) :
    ofKey k (if q then [p] else []) = if q ∧ p.key = k then [p.data.pack] else [] := by
  by_cases hq : q
  · rw [if_pos hq, ofKey_cons, ofKey_nil]
    simp [hq]
  · rw [if_neg hq, if_neg fun h => hq h.1]
    rfl

theorem ofKey_mandatoryParam {k : ℤ} (hk : k ≠ 0) : ofKey k (mandatoryParam data) = [] := by
  unfold mandatoryParam
  rw [ofKey_ite]
  exact if_neg fun h => hk h.2.symm

theorem ofKey_recordParams {k : ℤ} (hk : k ≠ 0) (hk' : k ≠ 1) : ofKey k (recordParams data d) =
    ofKey k (fieldParams data d (appended data)) ++ ofKey k d.extraParams := by
  unfold recordParams allParams
  rw [ofKey_append, ofKey_append, ofKey_append, ofKey_mandatoryParam hk, ofKey_ite, if_neg fun h => hk' h.2.symm,
    Nat.zero_add, List.append_nil, List.append_nil]

theorem pack_eq_ok_iff {priority : ℕ} {target : Text} {l l' : List SvcbParam}
    (hb : SvcbRd.pack h ⟨priority, target, l⟩ = .ok b) :
    SvcbRd.pack h ⟨priority, target, l'⟩ = .ok b ↔ ∀ k, ofKey k l = ofKey k l' := by
  unfold SvcbRd.pack at hb ⊢
  obtain ⟨pb, hpb, hb⟩ := bind_eq_ok.mp hb
  obtain ⟨label, hlabel, hb⟩ := bind_eq_ok.mp hb
  obtain ⟨tb, htb, hb⟩ := bind_eq_ok.mp hb
  obtain ⟨lb, hlb, hb⟩ := bind_eq_ok.mp hb
  obtain rfl := Except.ok.inj hb
  rw [← packParams_eq_iff hlb]
  dsimp only at hpb hlabel ⊢
  constructor
  · intro hb'
    obtain ⟨pb', hpb', hb'⟩ := bind_eq_ok.mp hb'
    obtain ⟨label', hlabel', hb'⟩ := bind_eq_ok.mp hb'
    obtain ⟨tb', htb', hb'⟩ := bind_eq_ok.mp hb'
    obtain ⟨lb', hlb', hb'⟩ := bind_eq_ok.mp hb'
    obtain rfl := Except.ok.inj (hpb.symm.trans hpb')
    obtain rfl := Except.ok.inj (hlabel.symm.trans hlabel')
    obtain rfl := Except.ok.inj (htb.symm.trans htb')
    rw [hlb', List.append_cancel_left (Except.ok.inj hb')]
  · intro hlb'
    exact bind_eq_ok.mpr ⟨pb, hpb, bind_eq_ok.mpr ⟨label, hlabel, bind_eq_ok.mpr ⟨tb, htb,
      bind_eq_ok.mpr ⟨lb, hlb', rfl⟩⟩⟩⟩

theorem packed_eq_ok (hd : Decodes data d) : packed h data = .ok b ↔
    ¬ Clash data d ∧ SvcbRd.pack h ⟨data.priority, data.target, recordParams data d⟩ = .ok b := by
  unfold packed
  rw [record_eq hd]
  unfold recordAfter
  by_cases hclash : Clash data d
  · rw [if_pos hclash]
    exact iff_of_false (fun h => nomatch h) fun h => h.1 hclash
  · rw [if_neg hclash]
    exact (and_iff_right hclash).symm

theorem Unfilled.priority {data₀ : HttpsData} (h : Unfilled data f data₀) :
    data₀.priority = data.priority ∧ data₀.target = data.target := by
  rcases h <;> exact ⟨rfl, rfl⟩

/-- **The same bytes** are those of the same parameters with each key. -/
theorem Moved.packs_iff_ofKey (hmoved : Moved f value before after data data') (hd : Decodes data d)
    (hd' : Decodes data' d') (hb : packed h data = .ok b) :
    packed h data' = .ok b ↔ ¬ Clash data' d' ∧ ∀ k, ofKey k (recordParams data d) = ofKey k (recordParams data' d') := by
  obtain ⟨data₀, hunfilled, hdata'⟩ := hmoved.other
  obtain ⟨hpriority, htarget⟩ := hunfilled.priority
  have hpriority' : data'.priority = data.priority := by
    rw [hdata']
    exact hpriority
  have htarget' : data'.target = data.target := by
    rw [hdata']
    exact htarget
  obtain ⟨-, hpack⟩ := (packed_eq_ok hd).mp hb
  rw [packed_eq_ok hd', hpriority', htarget', pack_eq_ok_iff hpack]

/-- An element that is in front of a list and one that is in the middle of it. -/
theorem cons_append_eq {α : Type} {x y : α} {l m : List α} : x :: (l ++ m) = l ++ y :: m ↔
    x = y ∧ ∀ z ∈ l, z = y := by
  induction l with
  | nil => simp
  | cons z l ih =>
    rw [List.cons_append, List.cons_append, List.cons_eq_cons]
    constructor
    · rintro ⟨rfl, h⟩
      obtain ⟨rfl, hl⟩ := ih.mp h
      exact ⟨rfl, List.forall_mem_cons.mpr ⟨rfl, hl⟩⟩
    · rintro ⟨rfl, hall⟩
      obtain ⟨rfl, hl⟩ := List.forall_mem_cons.mp hall
      exact ⟨rfl, ih.mpr ⟨rfl, hl⟩⟩

/-- The extra parameters of the two records. -/
theorem Moved.extraParams (hmoved : Moved f value before after data data') (hd : Decodes data d)
    (hd' : Decodes data' d') : d.extraParams = before ++ after ∧
      d'.extraParams = before ++ ⟨f.key, .octet value⟩ :: after :=
  ⟨hd.extraParams.unique hmoved.extra, hd'.extraParams.unique hmoved.extra'⟩

/-- What the field is packed to. -/
def Field.packs (data : HttpsData) (d : Decoded) : Field → List (Except PyErr Bytes)
  | .alpn => if text data.alpns ≠ [] then [ParamData.pack (.alpn (alpnsAfter d (appended data)))] else []
  | .port => if hasTargetPort data = true then [ParamData.pack (.integer (data.targetPort.getD 0))] else []
  | .ipv4hint => if data.ipv4Hints ≠ [] then [ParamData.pack (.ipv4 d.ipv4Hints)] else []
  | .ech => if text data.ech ≠ [] then [ParamData.pack (.octet d.ech)] else []
  | .ipv6hint => if data.ipv6Hints ≠ [] then [ParamData.pack (.ipv6 d.ipv6Hints)] else []

theorem ofKey_fieldParams (f : Field) : ofKey f.key (fieldParams data d (appended data)) = f.packs data d := by
  unfold fieldParams otherParams
  simp only [ofKey_append, ofKey_ite]
  cases f <;> simp [Field.key, Field.packs]

/-- The field of the second record is not filled. -/
theorem Moved.packs_nil (hmoved : Moved f value before after data data') : f.packs data' d' = [] := by
  obtain ⟨data₀, hunfilled, hdata'⟩ := hmoved.other
  rw [hdata']
  rcases hunfilled with h | h | _ | h | _
  · simp [Field.packs, h]
  · simp [Field.packs, hasTargetPort, h]
  · simp [Field.packs]
  · simp [Field.packs, h]
  · simp [Field.packs]

/-- **No other value than a list of ALPNs** is packed to its characters. -/
theorem Moved.packs_ne (hmoved : Moved f value before after data data') (hd : Decodes data d) (hf : f ≠ .alpn) :
    ∀ x ∈ f.packs data d, x ≠ .ok value := by
  have hgives := hmoved.gives
  have hsingle : ∀ {q : Prop} [Decidable q] {y : Except PyErr Bytes}, (q → y ≠ .ok value) →
      ∀ x ∈ (if q then [y] else []), x ≠ .ok value := by
    intro q _ y hy x hx
    rw [List.mem_ite_nil_right, List.mem_singleton] at hx
    rw [hx.2]
    exact hy hx.1
  rcases f with _ | _ | _ | _ | _
  · exact absurd rfl hf
  · obtain ⟨t, p, rfl, hp, hport⟩ := hgives
    refine hsingle fun _ => ?_
    rw [hport]
    exact port_ne hp
  · exact hsingle fun _ => ipv4_ne hgives hd
  · obtain ⟨hfilled, rfl⟩ := hgives
    exact hsingle fun _ => ech_ne hfilled hd
  · exact hsingle fun _ => ipv6_ne hgives hd

/-- **The other fields** are never packed to the same bytes. -/
theorem Moved.packed_ne (hmoved : Moved f value before after data data') (hd : Decodes data d)
    (hd' : Decodes data' d') (hb : packed h data = .ok b) (hf : f ≠ .alpn) : packed h data' ≠ .ok b := by
  intro hb'
  obtain ⟨-, hall⟩ := (hmoved.packs_iff_ofKey hd hd' hb).mp hb'
  obtain ⟨hextra, hextra'⟩ := hmoved.extraParams hd hd'
  have hkey : (f.key : ℤ) ≠ 0 ∧ (f.key : ℤ) ≠ 1 := by
    cases f <;> simp_all [Field.key]
  have heq := hall f.key
  rw [ofKey_recordParams hkey.1 hkey.2, ofKey_recordParams hkey.1 hkey.2, ofKey_fieldParams, ofKey_fieldParams,
    hmoved.packs_nil, hextra, hextra', ofKey_append, ofKey_append, ofKey_cons, if_pos rfl, List.nil_append] at heq
  have hne := hmoved.packs_ne hd hf
  have hlen := congrArg List.length heq
  rcases hpacks : f.packs data d with _ | ⟨x, _ | ⟨y, l⟩⟩
  · rw [hpacks] at hlen
    simp at hlen
  · rw [hpacks, List.singleton_append] at heq
    rw [hpacks] at hne
    exact hne x List.mem_cons_self (cons_append_eq.mp heq).1
  · rw [hpacks] at hlen
    simp at hlen
    omega

/-! ### ALPNs -/

/-- The list of a field with ALPNs. -/
theorem alpns_spec (hvalue : decodeValue (text data.alpns) = .ok value) (hd : Decodes data d) :
    text data.alpns ≠ [] ∧ alpnFromStr (text data.alpns) = .ok d.alpns ∧ d.alpns ≠ [] ∧ value = joinItems d.alpns := by
  have hfield : text data.alpns ≠ [] := by
    intro hnil
    rw [hnil] at hvalue
    cases hvalue
  have hok := hd.alpns.eq_ok hfield
  refine ⟨hfield, hok, ?_⟩
  unfold alpnFromStr at hok
  obtain ⟨value', hvalue', hok⟩ := bind_eq_ok.mp hok
  obtain rfl : value = value' := Except.ok.inj (hvalue.symm.trans hvalue')
  obtain ⟨items, hitems, hok⟩ := bind_eq_ok.mp hok
  unfold alpnData at hok
  split_ifs at hok
  obtain rfl := Except.ok.inj hok
  exact decodeSvcbCommaList_eq_ok.mp hitems

/-- The other fields of the records have the same parameters. -/
theorem Moved.otherParams (hmoved : Moved .alpn value before after data data') (hd : Decodes data d)
    (hd' : Decodes data' d') : otherParams data' d' = otherParams data d ∧ text data'.alpns = [] ∧
      data'.http2Support = data.http2Support ∧
        mandatoryKeys data =
          (if text data.alpns ≠ [] ∧ data.alpnMandatory = true then [1] else []) ++ mandatoryKeys data' := by
  obtain ⟨data₀, hunfilled, hdata'⟩ := hmoved.other
  generalize data'.extraParams = extra at hdata'
  subst hdata'
  cases hunfilled with | @alpn alpns h => ?_
  have hech : d'.ech = d.ech := hd'.ech.unique hd.ech
  have hipv4 : d'.ipv4Hints = d.ipv4Hints := hd'.ipv4Hints.unique hd.ipv4Hints
  have hipv6 : d'.ipv6Hints = d.ipv6Hints := hd'.ipv6Hints.unique hd.ipv6Hints
  refine ⟨?_, h, rfl, ?_⟩
  · unfold Reads.otherParams
    rw [hech, hipv4, hipv6]
    rfl
  · have hunset : ¬ (text alpns ≠ [] ∧ data.alpnMandatory = true) := fun hset => hset.1 h
    unfold mandatoryKeys
    dsimp only
    rw [if_neg hunset, List.nil_append]
    simp only [List.append_assoc]
    rfl

theorem ofKey_otherParams {k : ℤ} (hk : k = 0 ∨ k = 1) : ofKey k (Reads.otherParams data d) = [] := by
  unfold Reads.otherParams
  simp only [ofKey_append, ofKey_ite]
  rcases hk with rfl | rfl <;> simp

/-- The parameter of the switches tells how many are honoured. -/
theorem ofKey_mandatoryParam_inj {data' : HttpsData}
    (h : ofKey 0 (mandatoryParam data) = ofKey 0 (mandatoryParam data')) :
    (mandatoryKeys data).length = (mandatoryKeys data').length := by
  have hbytes : ∀ data : HttpsData, ((ofKey 0 (mandatoryParam data)).map fun x => (x.toOption.getD []).length).sum =
      2 * (mandatoryKeys data).length := by
    intro data
    unfold mandatoryParam
    rw [ofKey_ite]
    by_cases hkeys : mandatoryKeys data = []
    · rw [if_neg fun h => h.1 hkeys, hkeys]
      rfl
    · rw [if_pos ⟨hkeys, rfl⟩, List.map_singleton, List.sum_singleton]
      obtain ⟨b, hb⟩ : ∃ b, ParamData.pack (.mandatory (mandatoryKeys data)) = .ok b := ⟨_, pack_mandatoryKeys⟩
      rw [hb]
      exact length_packData hb
  have hdouble := hbytes data
  rw [h, hbytes data'] at hdouble
  omega

/-- **A list of ALPNs** is packed to the same bytes. -/
theorem Moved.packed_alpn (hmoved : Moved .alpn value before after data data') (hd : Decodes data d)
    (hd' : Decodes data' d') (hb : packed h data = .ok b) : packed h data' = .ok b ↔
      data.alpnMandatory = false ∧ data.http2Support = false ∧
        (∀ p ∈ before, p.key = 1 → p.data = .octet value) ∧ PackedAsWritten d.alpns := by
  obtain ⟨hextra, hextra'⟩ := hmoved.extraParams hd hd'
  obtain ⟨hother, hunfilled, hhttp2, hkeys⟩ := hmoved.otherParams hd hd'
  obtain ⟨hfilled, -, hne, hvalue⟩ := alpns_spec hmoved.gives hd
  have hclash : Clash data' d' ↔ data.http2Support = true := by
    unfold Clash
    rw [hhttp2, hextra']
    refine and_iff_left ⟨hunfilled, ?_⟩
    simp [Field.key]
  rw [hmoved.packs_iff_ofKey hd hd' hb, hclash]
  by_cases hon : data.http2Support = true
  · exact iff_of_false (fun h => h.1 hon) fun h => by simp [hon] at h
  have hoff : data.http2Support = false := by simpa using hon
  -- the parameters of the two records
  have hparams : recordParams data d = ⟨1, .alpn d.alpns⟩ :: Reads.otherParams data d ++ (before ++ after) ++
      mandatoryParam data := by
    unfold recordParams allParams fieldParams appended
    simp [hoff, hfilled, hextra, alpnsAfter_zero]
  have hparams' : recordParams data' d' = Reads.otherParams data d ++
      (before ++ ⟨1, .octet value⟩ :: after) ++ mandatoryParam data' := by
    unfold recordParams allParams fieldParams appended
    simp [hhttp2, hoff, hunfilled, hextra', hother, Field.key]
  have hpack : ParamData.pack (.alpn d.alpns) = .ok value ↔ PackedAsWritten d.alpns := by
    rw [pack_alpn (length_of_mem_alpns hd), hvalue, Except.ok.injEq]
    exact flatMap_counted_eq_joinItems hne (length_of_mem_alpns hd)
  have hbefore : (∀ z ∈ ofKey 1 before, z = .ok value) ↔ ∀ p ∈ before, p.key = 1 → p.data = .octet value := by
    have hpacked : ∀ p ∈ before, p.data.pack = .ok value ↔ p.data = .octet value := by
      intro p hp
      obtain ⟨c, hc⟩ := hd.octets p (hextra ▸ List.mem_append_left _ hp)
      rw [hc]
      show Except.ok c = _ ↔ _
      rw [Except.ok.injEq, ParamData.octet.injEq]
    unfold ofKey
    constructor
    · intro hall p hp hkey
      exact (hpacked p hp).mp (hall _ (List.mem_map_of_mem (List.mem_filter.mpr ⟨hp, decide_eq_true hkey⟩)))
    · intro hall z hz
      obtain ⟨p, hp, rfl⟩ := List.mem_map.mp hz
      obtain ⟨hp, hkey⟩ := List.mem_filter.mp hp
      exact (hpacked p hp).mpr (hall p hp (of_decide_eq_true hkey))
  rw [hparams, hparams']
  constructor
  · rintro ⟨-, hall⟩
    have hone : ParamData.pack (.alpn d.alpns) :: (ofKey 1 before ++ ofKey 1 after) =
        ofKey 1 before ++ .ok value :: ofKey 1 after := by
      have hall := hall 1
      simp only [List.cons_append, ofKey_append, ofKey_cons, if_pos, ofKey_otherParams (Or.inr rfl),
        ofKey_mandatoryParam one_ne_zero, List.nil_append, List.append_nil] at hall
      exact hall
    have hzero : ofKey 0 (mandatoryParam data) = ofKey 0 (mandatoryParam data') := by
      have hall := hall 0
      simp only [List.cons_append, ofKey_append, ofKey_cons, if_neg one_ne_zero, ofKey_otherParams (Or.inl rfl),
        List.nil_append] at hall
      exact List.append_cancel_left hall
    obtain ⟨hnames, hall⟩ := cons_append_eq.mp hone
    refine ⟨?_, hoff, hbefore.mp fun z hz => (hall z hz), hpack.mp hnames⟩
    have hlen := ofKey_mandatoryParam_inj hzero
    rw [hkeys, List.length_append] at hlen
    by_contra hset
    rw [if_pos ⟨hfilled, by simpa using hset⟩, List.length_singleton] at hlen
    omega
  · rintro ⟨hunset, -, hall, hnames⟩
    refine ⟨hon, fun k => ?_⟩
    have hsame : mandatoryKeys data = mandatoryKeys data' := by
      rw [hkeys, if_neg fun h => by simp [hunset] at h, List.nil_append]
    have hmandatory : mandatoryParam data = mandatoryParam data' := by
      unfold mandatoryParam
      rw [hsame]
    rw [hmandatory]
    simp only [List.cons_append, ofKey_append, ofKey_cons]
    by_cases hk : k = 1
    · subst hk
      have hone : ParamData.pack (.alpn d.alpns) :: (ofKey 1 before ++ ofKey 1 after) =
          ofKey 1 before ++ .ok value :: ofKey 1 after :=
        cons_append_eq.mpr ⟨hpack.mpr hnames, fun z hz => hbefore.mpr hall z hz⟩
      simp only [if_pos, ofKey_otherParams (Or.inr rfl), List.nil_append]
      rw [← List.cons_append, hone]
      rfl
    · rw [if_neg (Ne.symm hk), if_neg (Ne.symm hk)]

/-- **When both ways of giving a value are packed to the same bytes**: the value is one of the few lists of ALPNs that
are packed to what they are written as, and the record can be packed. A port, an address hint and an ECH configuration
never are. -/
theorem packedAlike_iff (h : Host) (hvalid : FieldsValid data) (hclean : PassesClean data)
    (hclean' : PassesClean data') (hmoved : Moved f value before after data data') :
    ∃ d, Decodes data d ∧ ((∃ b, packed h data = .ok b ∧ packed h data' = .ok b) ↔
      Alike f value before data ∧ FieldsFit data d 0 ∧ EncodesTarget h data) := by
  obtain ⟨d, hd, hpacks⟩ := packs_iff h hvalid hclean
  obtain ⟨d', hcleans'⟩ := passesClean_iff.mp hclean'
  have hd' := hcleans'.decodes
  refine ⟨d, hd, ?_⟩
  have hpacked : (∃ b, packed h data = .ok b) ↔
      ¬ Clash data d ∧ FieldsFit data d (appended data) ∧ EncodesTarget h data := by
    rw [← hpacks]
    constructor
    · rintro ⟨b, hb⟩
      obtain ⟨r, hr, hb⟩ := bind_eq_ok.mp hb
      exact ⟨r, b, hr, hb⟩
    · rintro ⟨r, b, hr, hb⟩
      exact ⟨b, bind_eq_ok.mpr ⟨r, hr, hb⟩⟩
  have halike : ∀ b, packed h data = .ok b → (packed h data' = .ok b ↔ Alike f value before data) := by
    intro b hb
    by_cases hf : f = .alpn
    · subst hf
      obtain ⟨-, hnames, -, -⟩ := alpns_spec hmoved.gives hd
      rw [hmoved.packed_alpn hd hd' hb]
      constructor
      · rintro ⟨hunset, hhttp2, hbefore, hwritten⟩
        exact ⟨rfl, hunset, hhttp2, hbefore, d.alpns, hnames, hwritten⟩
      · rintro ⟨-, hunset, hhttp2, hbefore, names, hnames', hwritten⟩
        obtain rfl := Except.ok.inj (hnames.symm.trans hnames')
        exact ⟨hunset, hhttp2, hbefore, hwritten⟩
    · exact iff_of_false (hmoved.packed_ne hd hd' hb hf) fun h => hf h.field
  have hnone : data.http2Support = false → appended data = 0 := by
    intro hoff
    unfold appended
    exact if_neg fun h => by simp [hoff] at h
  constructor
  · rintro ⟨b, hb, hb'⟩
    have hsame := (halike b hb).mp hb'
    obtain ⟨-, hfit, htarget⟩ := hpacked.mp ⟨b, hb⟩
    rw [hnone hsame.http2] at hfit
    exact ⟨hsame, hfit, htarget⟩
  · rintro ⟨hsame, hfit, htarget⟩
    have hclash : ¬ Clash data d := fun h => by
      have hon := h.1
      simp [hsame.http2] at hon
    rw [← hnone hsame.http2] at hfit
    obtain ⟨b, hb⟩ := hpacked.mpr ⟨hclash, hfit, htarget⟩
    exact ⟨b, hb, (halike b hb).mpr hsame⟩

end

/-! ### Texts -/

/-- The name of the parameter. -/
def Field.name : Field → Text
  | .alpn => "alpn".toList
  | .port => "port".toList
  | .ipv4hint => "ipv4hint".toList
  | .ech => "ech".toList
  | .ipv6hint => "ipv6hint".toList

/-- **The text `key=value`** is decoded to the value of the key. -/
theorem fieldIs_keyValue (f : Field) {v : Text} {value : Bytes} (hv : decodeValue v = .ok value) :
    FieldIs decodeSvcbParamList (f.name ++ '=' :: v) [⟨f.key, .octet value⟩] := by
  have hkey : ∀ b ∈ encode f.name, isKeyChar b = true := by
    cases f <;> decide
  have hid : keyId (asciiText (encode f.name)) = .ok f.key := by
    cases f <;> decide
  obtain ⟨⟨value', rest⟩, hstr, hrest⟩ := bind_eq_ok.mp hv
  dsimp only at hrest
  split_ifs at hrest with hnil
  obtain rfl := Except.ok.inj hrest
  obtain rfl : rest = [] := not_not.mp hnil
  have hparam : decodeSvcbParam ([] ++ (encode f.name ++ 61 :: encode v)) = _ :=
    decodeSvcbParam_value (fun c hc => (nomatch hc)) hkey
  rw [List.nil_append, hstr] at hparam
  have htext : encode (f.name ++ '=' :: v) = encode f.name ++ 61 :: encode v := by
    rw [encode_append, encode_cons]
    rfl
  unfold FieldIs
  rw [if_neg (by simp)]
  unfold decodeSvcbParamList
  rw [htext, decodeParams_last hparam]
  show List.mapM octetParam [(encode f.name, value')] = _
  have hitem : octetParam (encode f.name, value') = .ok ⟨f.key, .octet value'⟩ := by
    unfold octetParam svcbParam
    rw [hid]
    rfl
  rw [List.mapM_cons, hitem]
  rfl

/-- Without other extra parameters. -/
theorem Moved.of_text {f : Field} {v : Text} {value : Bytes} {data data₀ : HttpsData} (hgives : f.Gives data value)
    (hunfilled : Unfilled data f data₀) (hextra : data.extraParams = []) (hv : decodeValue v = .ok value) :
    Moved f value [] [] data { data₀ with extraParams := f.name ++ '=' :: v } where
  gives := hgives
  other := ⟨data₀, hunfilled, rfl⟩
  extra := by
    rw [hextra]
    rfl
  extra' := fieldIs_keyValue f hv

/-! ### One name -/

private theorem noAlpns : Unfilled { bareRecord with alpns := some "h2".toList } .alpn bareRecord :=
  .alpn rfl

/-- The field has the bytes of the list, with the length of the name, and the extra parameter has its characters. -/
theorem packedAlike_h2 : FieldsValid { bareRecord with alpns := some "h2".toList } ∧
    PassesClean { bareRecord with alpns := some "h2".toList } ∧
    PassesClean { bareRecord with extraParams := "alpn=h2".toList } ∧
    ∃ d, Decodes { bareRecord with alpns := some "h2".toList } d ∧
      ((∃ b, packed Host.ascii { bareRecord with alpns := some "h2".toList } = .ok b ∧
          packed Host.ascii { bareRecord with extraParams := "alpn=h2".toList } = .ok b) ↔
        Alike .alpn [104, 50] [] { bareRecord with alpns := some "h2".toList } ∧
          FieldsFit { bareRecord with alpns := some "h2".toList } d 0 ∧
          EncodesTarget Host.ascii { bareRecord with alpns := some "h2".toList }) :=
  ⟨⟨by decide, by decide, by decide, by decide, by decide⟩, by decide, by decide,
    packedAlike_iff Host.ascii ⟨by decide, by decide, by decide, by decide, by decide⟩ (by decide) (by decide)
      (Moved.of_text (f := .alpn) (v := "h2".toList) (show decodeValue _ = _ by decide) noAlpns rfl
        (by decide))⟩

theorem not_packedAlike_h2 : Moved .alpn [104, 50] [] [] { bareRecord with alpns := some "h2".toList }
      { bareRecord with extraParams := "alpn=h2".toList } ∧
    PassesClean { bareRecord with alpns := some "h2".toList } ∧
    PassesClean { bareRecord with extraParams := "alpn=h2".toList } ∧
    ∃ b b', packed Host.ascii { bareRecord with alpns := some "h2".toList } = .ok b ∧
      packed Host.ascii { bareRecord with extraParams := "alpn=h2".toList } = .ok b' ∧ b ≠ b' := by
  refine ⟨Moved.of_text (f := .alpn) (v := "h2".toList) (show decodeValue _ = _ by decide) noAlpns rfl
    (by decide), by decide, by decide, [0, 1, 0, 0, 1, 0, 3, 2, 104, 50], [0, 1, 0, 0, 1, 0, 2, 104, 50], ?_, ?_, ?_⟩
  · decide
  · decide
  · decide

end HexDns.Svcb.EitherWay
