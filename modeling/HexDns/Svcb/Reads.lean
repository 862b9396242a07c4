import HexDns.Svcb.Https
import HexDns.Svcb.Packing

/-! # Reading an HTTPS record

`Coherent` is what holds of the caches of a record after any readings: they hold what the fields decode to,
and the ALPN value has `h2` at its end as often as a reading has appended it. `run_svcbData` is what one
reading gives and leaves. A record with `http2_support` and ALPNs in its field grows with each reading, and
all the other ones stay as they are (`readsAlike_iff`). -/

namespace HexDns.Svcb.Reads

open HexDns.Lib.Texts HexDns.Lib.Programs HexDns.Base.Py HexDns.Base.Codecs HexDns.Base.Label
  HexDns.Models.Db HexDns.Models.Env HexDns.Svcb.Decode HexDns.Svcb.Params HexDns.Svcb.Packing HexDns.Svcb.Https

/-! ### The caches -/

/-- The ALPN value after `n` times `h2` was appended. -/
def alpnsAfter (d : Decoded) (n : ℕ) : List Bytes := d.alpns ++ List.replicate n h2

/-- The caches hold what the filled fields decode to, and `h2` was appended `n` times to the ALPN value. -/
structure Coherent (data : HttpsData) (d : Decoded) (n : ℕ) (c : Caches) : Prop where
  alpn : c.alpn = none ∧ n = 0 ∨ text data.alpns ≠ [] ∧ c.alpn = some (alpnsAfter d n)
  ech : c.ech = none ∨ c.ech = some d.ech
  ipv4Hints : c.ipv4Hints = none ∨ c.ipv4Hints = some d.ipv4Hints
  ipv6Hints : c.ipv6Hints = none ∨ c.ipv6Hints = some d.ipv6Hints
  extraParams : c.extraParams = none ∨ c.extraParams = some d.extraParams

section
variable {data : HttpsData} {d : Decoded} {n : ℕ} {c : Caches}

theorem coherent_empty : Coherent data d 0 Caches.empty :=
  ⟨Or.inl ⟨rfl, rfl⟩, Or.inl rfl, Or.inl rfl, Or.inl rfl, Or.inl rfl⟩

theorem alpnsAfter_zero : alpnsAfter d 0 = d.alpns := List.append_nil _

theorem alpnsAfter_succ : alpnsAfter d n ++ [h2] = alpnsAfter d (n + 1) := by
  unfold alpnsAfter
  rw [List.append_assoc, List.replicate_succ']

theorem refilled {α : Type} {p : Prop} [Decidable p] {cache : Option α} {v : α}
    (h : cache = none ∨ cache = some v) :
    (if p then cache else some v) = none ∨ (if p then cache else some v) = some v := by
  split_ifs
  · exact h
  · exact Or.inr rfl

/-- `clean` decodes the fields again. -/
theorem Coherent.clean (h : Coherent data d n c) : Coherent data d 0 (cleanCaches data d c) := by
  refine ⟨?_, refilled h.ech, refilled h.ipv4Hints, refilled h.ipv6Hints, refilled h.extraParams⟩
  show (if text data.alpns = [] then c.alpn else some d.alpns) = none ∧ 0 = 0 ∨
    text data.alpns ≠ [] ∧ (if text data.alpns = [] then c.alpn else some d.alpns) = some (alpnsAfter d 0)
  rw [alpnsAfter_zero]
  split_ifs with hfield
  · rcases h.alpn with ⟨hnone, -⟩ | ⟨hfilled, -⟩
    · exact Or.inl ⟨hnone, rfl⟩
    · exact absurd hfield hfilled
  · exact Or.inr ⟨hfield, rfl⟩

/-- A property of a filled field gives what the cache holds, or what the field decodes to. -/
theorem run_cachedProperty {α : Type} {cache : Caches → Option (List α)} {put : List α → Caches → Caches}
    {isFalse : Option (List α) → Bool} {decode : Text → Except PyErr (List α)} {field : Text} {v w : List α}
    (hfield : field ≠ []) (hv : FieldIs decode field v) (hnone : isFalse none = true)
    (hfalse : isFalse (some w) = true → w = v) (hput : cache c = some w → put w c = c)
    (hcache : cache c = none ∧ w = v ∨ cache c = some w) :
    run (cachedProperty cache put isFalse decode field) c = (.ok (some w), put w c) := by
  rcases hcache with ⟨hc, rfl⟩ | hc
  · exact run_cachedProperty_filled (by rw [hc, hnone]) hfield (hv.eq_ok hfield)
  · by_cases hw : isFalse (some w) = true
    · obtain rfl := hfalse hw
      exact run_cachedProperty_filled (by rw [hc, hw]) hfield (hv.eq_ok hfield)
    · rw [run_cachedProperty_kept fun h => absurd (hc ▸ h) hw, hput hc, hc]

/-! ### One reading -/

theorem run_alpnProperty (hd : Decodes data d) (hc : Coherent data d n c) (hfield : text data.alpns ≠ []) :
    run (alpnProperty data) c = (.ok (some (alpnsAfter d n)), c.putAlpn (alpnsAfter d n)) ∧
      Coherent data d n (c.putAlpn (alpnsAfter d n)) := by
  refine ⟨run_cachedProperty hfield hd.alpns rfl (fun h => by cases h) (fun h => ?_) ?_,
    ⟨Or.inr ⟨hfield, rfl⟩, hc.ech, hc.ipv4Hints, hc.ipv6Hints, hc.extraParams⟩⟩
  · unfold Caches.putAlpn
    rw [← h]
  · rcases hc.alpn with ⟨hnone, rfl⟩ | ⟨-, hsome⟩
    · exact Or.inl ⟨hnone, alpnsAfter_zero⟩
    · exact Or.inr hsome

theorem run_echProperty (hd : Decodes data d) (hc : Coherent data d n c) (hfield : text data.ech ≠ []) :
    run (echProperty data) c = (.ok (some d.ech), c.putEch d.ech) ∧ Coherent data d n (c.putEch d.ech) := by
  refine ⟨run_cachedProperty hfield hd.ech rfl (fun _ => rfl) (fun h => ?_)
    (hc.ech.imp (fun h => ⟨h, rfl⟩) id), ⟨hc.alpn, Or.inr rfl, hc.ipv4Hints, hc.ipv6Hints, hc.extraParams⟩⟩
  unfold Caches.putEch
  rw [← h]

theorem run_ipv4HintsProperty (hd : Decodes data d) (hc : Coherent data d n c)
    (hfield : data.ipv4Hints ≠ []) :
    run (ipv4HintsProperty data) c = (.ok (some d.ipv4Hints), c.putIpv4Hints d.ipv4Hints) ∧
      Coherent data d n (c.putIpv4Hints d.ipv4Hints) := by
  refine ⟨run_cachedProperty hfield hd.ipv4Hints rfl (fun _ => rfl) (fun h => ?_)
    (hc.ipv4Hints.imp (fun h => ⟨h, rfl⟩) id),
    ⟨hc.alpn, hc.ech, Or.inr rfl, hc.ipv6Hints, hc.extraParams⟩⟩
  unfold Caches.putIpv4Hints
  rw [← h]

theorem run_ipv6HintsProperty (hd : Decodes data d) (hc : Coherent data d n c)
    (hfield : data.ipv6Hints ≠ []) :
    run (ipv6HintsProperty data) c = (.ok (some d.ipv6Hints), c.putIpv6Hints d.ipv6Hints) ∧
      Coherent data d n (c.putIpv6Hints d.ipv6Hints) := by
  refine ⟨run_cachedProperty hfield hd.ipv6Hints rfl (fun _ => rfl) (fun h => ?_)
    (hc.ipv6Hints.imp (fun h => ⟨h, rfl⟩) id),
    ⟨hc.alpn, hc.ech, hc.ipv4Hints, Or.inr rfl, hc.extraParams⟩⟩
  unfold Caches.putIpv6Hints
  rw [← h]

theorem run_extraParamList (hd : Decodes data d) (hc : Coherent data d n c) :
    ∃ c', run (extraParamList data) c = (.ok d.extraParams, c') ∧ Coherent data d n c' ∧ c'.alpn = c.alpn := by
  unfold extraParamList
  by_cases hfield : data.extraParams = []
  · rw [hd.extraParams.eq_nil hfield, if_neg (not_not.mpr hfield)]
    exact ⟨c, rfl, hc, rfl⟩
  · have hrun : run (extraParamsProperty data) c =
        (.ok (some d.extraParams), c.putExtraParams d.extraParams) := by
      refine run_cachedProperty hfield hd.extraParams rfl (fun _ => rfl) (fun h => ?_)
        (hc.extraParams.imp (fun h => ⟨h, rfl⟩) id)
      unfold Caches.putExtraParams
      rw [← h]
    rw [if_pos hfield, run_bind_ok hrun]
    exact ⟨_, rfl, ⟨hc.alpn, hc.ech, hc.ipv4Hints, hc.ipv6Hints, Or.inr rfl⟩, rfl⟩

/-- A program that makes a parameter of a filled field. -/
theorem run_whenFilled {I : Caches → Prop} {q : Prop} [Decidable q] {m : Exec Caches PyErr SvcbParam}
    {p : SvcbParam} (hI : ¬ q → I c) (h : q → ∃ c', run m c = (.ok p, c') ∧ I c') :
    ∃ c', run (whenFilled q m) c = (.ok (if q then [p] else []), c') ∧ I c' := by
  unfold whenFilled
  by_cases hfilled : q
  · obtain ⟨c', hrun, hI'⟩ := h hfilled
    rw [if_pos (decide_eq_true hfilled), if_pos hfilled, run_bind_ok hrun]
    exact ⟨c', rfl, hI'⟩
  · rw [if_neg (by simpa using hfilled), if_neg hfilled]
    exact ⟨c, rfl, hI hfilled⟩

/-- The parameters of the fields but for the ALPNs. -/
def otherParams (data : HttpsData) (d : Decoded) : List SvcbParam :=
  (if data.noDefaultAlpn = true then [⟨2, .null⟩] else []) ++
  (if data.ipv4Hints ≠ [] then [⟨4, .ipv4 d.ipv4Hints⟩] else []) ++
  (if data.ipv6Hints ≠ [] then [⟨6, .ipv6 d.ipv6Hints⟩] else []) ++
  (if hasTargetPort data = true then [⟨3, .integer (data.targetPort.getD 0)⟩] else []) ++
  (if text data.ech ≠ [] then [⟨5, .octet d.ech⟩] else [])

/-- The parameters of the fields after `n` times `h2` was appended. -/
def fieldParams (data : HttpsData) (d : Decoded) (n : ℕ) : List SvcbParam :=
  (if text data.alpns ≠ [] then [⟨1, .alpn (alpnsAfter d n)⟩] else []) ++ otherParams data d

theorem run_svcbDataBase (hd : Decodes data d) (hc : Coherent data d n c) :
    ∃ c', run (svcbDataBase data) c = (.ok (fieldParams data d n ++ d.extraParams, mandatoryKeys data), c') ∧
      Coherent data d n c' ∧ (text data.alpns ≠ [] → c'.alpn = some (alpnsAfter d n)) := by
  let I (c' : Caches) : Prop :=
    Coherent data d n c' ∧ (text data.alpns ≠ [] → c'.alpn = some (alpnsAfter d n))
  obtain ⟨c1, h1, hI1⟩ := run_whenFilled (I := I) (c := c) (q := text data.alpns ≠ [])
    (m := do return ⟨1, .alpn ((← alpnProperty data).getD [])⟩) (p := ⟨1, .alpn (alpnsAfter d n)⟩)
    (fun hfield => ⟨hc, fun h => absurd h hfield⟩) fun hfield => by
      obtain ⟨hrun, hc'⟩ := run_alpnProperty hd hc hfield
      exact ⟨_, run_bind_ok hrun, hc', fun _ => rfl⟩
  obtain ⟨c2, h2, hI2⟩ := run_whenFilled (I := I) (c := c1) (q := data.ipv4Hints ≠ [])
    (m := do return ⟨4, .ipv4 ((← ipv4HintsProperty data).getD [])⟩) (p := ⟨4, .ipv4 d.ipv4Hints⟩)
    (fun _ => hI1) fun hfield => by
      obtain ⟨hrun, hc'⟩ := run_ipv4HintsProperty hd hI1.1 hfield
      exact ⟨_, run_bind_ok hrun, hc', hI1.2⟩
  obtain ⟨c3, h3, hI3⟩ := run_whenFilled (I := I) (c := c2) (q := data.ipv6Hints ≠ [])
    (m := do return ⟨6, .ipv6 ((← ipv6HintsProperty data).getD [])⟩) (p := ⟨6, .ipv6 d.ipv6Hints⟩)
    (fun _ => hI2) fun hfield => by
      obtain ⟨hrun, hc'⟩ := run_ipv6HintsProperty hd hI2.1 hfield
      exact ⟨_, run_bind_ok hrun, hc', hI2.2⟩
  obtain ⟨c4, h4, hI4⟩ := run_whenFilled (I := I) (c := c3) (q := text data.ech ≠ [])
    (m := do return ⟨5, .octet ((← echProperty data).getD [])⟩) (p := ⟨5, .octet d.ech⟩)
    (fun _ => hI3) fun hfield => by
      obtain ⟨hrun, hc'⟩ := run_echProperty hd hI3.1 hfield
      exact ⟨_, run_bind_ok hrun, hc', hI3.2⟩
  obtain ⟨c5, h5, hc5, halpn⟩ := run_extraParamList hd hI4.1
  refine ⟨c5, ?_, hc5, fun hfield => halpn.trans (hI4.2 hfield)⟩
  unfold svcbDataBase
  rw [run_bind_ok h1, run_bind_ok h2, run_bind_ok h3, run_bind_ok h4, run_bind_ok h5]
  unfold fieldParams otherParams
  simp only [List.append_assoc]
  rfl

/-- How often a reading appends `h2` to the ALPN value of the field. -/
def appended (data : HttpsData) : ℕ := if data.http2Support = true ∧ text data.alpns ≠ [] then 1 else 0

/-- The parameters of a reading after `n` times `h2` was appended. -/
def allParams (data : HttpsData) (d : Decoded) (n : ℕ) : List SvcbParam :=
  fieldParams data d (n + appended data) ++ d.extraParams ++
    if data.http2Support = true ∧ text data.alpns = [] then [⟨1, .alpn [h2]⟩] else []

/-- `h2` is to be appended to an extra parameter, which has no ALPN value. -/
def Clash (data : HttpsData) (d : Decoded) : Prop :=
  data.http2Support = true ∧ text data.alpns = [] ∧ 1 ∈ d.extraParams.map SvcbParam.key

instance decidableClash : Decidable (Clash data d) :=
  inferInstanceAs (Decidable (data.http2Support = true ∧ text data.alpns = [] ∧
    1 ∈ d.extraParams.map SvcbParam.key))

/-- The keys of the parameters of the fields. -/
def fieldKeys (data : HttpsData) : List ℤ :=
  (if text data.alpns ≠ [] then [1] else []) ++ (if data.noDefaultAlpn = true then [2] else []) ++
  (if data.ipv4Hints ≠ [] then [4] else []) ++ (if data.ipv6Hints ≠ [] then [6] else []) ++
  (if hasTargetPort data = true then [3] else []) ++ (if text data.ech ≠ [] then [5] else [])

theorem map_key_fieldParams : (fieldParams data d n).map SvcbParam.key = fieldKeys data := by
  unfold fieldParams otherParams fieldKeys
  simp only [List.append_assoc, List.map_append, apply_ite (List.map SvcbParam.key), List.map_cons, List.map_nil]

theorem mem_fieldKeys {k : ℤ} : k ∈ fieldKeys data ↔
    k = 1 ∧ text data.alpns ≠ [] ∨ k = 2 ∧ data.noDefaultAlpn = true ∨ k = 4 ∧ data.ipv4Hints ≠ [] ∨
      k = 6 ∧ data.ipv6Hints ≠ [] ∨ k = 3 ∧ hasTargetPort data = true ∨ k = 5 ∧ text data.ech ≠ [] := by
  unfold fieldKeys
  simp only [List.mem_append, List.mem_ite_nil_right, List.mem_singleton, or_assoc, and_comm]

theorem getParam_eq_none {params : List SvcbParam} {k : ℤ} :
    getParam params k = none ↔ k ∉ params.map SvcbParam.key := by
  unfold getParam
  rw [List.find?_eq_none, List.mem_map]
  simp only [decide_eq_true_eq, not_exists, not_and]

/-- The first parameter with the key of the ALPNs is none of the other fields. -/
theorem getParam_fieldParams (hfield : text data.alpns = []) (params : List SvcbParam) :
    getParam (fieldParams data d n ++ params) 1 = getParam params 1 := by
  have hnone : getParam (fieldParams data d n) 1 = none := by
    rw [getParam_eq_none, map_key_fieldParams, mem_fieldKeys]
    simp [hfield]
  unfold getParam at hnone ⊢
  rw [List.find?_append, hnone, Option.none_or]

/-- **One reading** of the parameters, and the caches after it. -/
theorem run_svcbData (hd : Decodes data d) (hc : Coherent data d n c) :
    ∃ c', run (svcbData data) c =
        (if Clash data d then .error .attributeError else .ok (allParams data d n, mandatoryKeys data), c') ∧
      Coherent data d (n + appended data) c' := by
  obtain ⟨c1, hbase, hc1, halpn⟩ := run_svcbDataBase hd hc
  unfold svcbData
  rw [run_bind_ok hbase]
  dsimp only
  by_cases hhttp2 : data.http2Support = true
  · rw [if_pos hhttp2]
    by_cases hfield : text data.alpns = []
    · have happ : appended data = 0 := if_neg fun h => h.2 hfield
      rw [getParam_fieldParams hfield]
      by_cases hkey : 1 ∈ d.extraParams.map SvcbParam.key
      · obtain ⟨p, hp⟩ := Option.ne_none_iff_exists'.mp (mt getParam_eq_none.mp (not_not.mpr hkey))
        have hmem : p ∈ d.extraParams := List.mem_of_find?_eq_some hp
        obtain ⟨b, hb⟩ := hd.octets p hmem
        have hclash : Clash data d := ⟨hhttp2, hfield, hkey⟩
        rw [hp, Option.map_some, hb, if_pos hclash]
        exact ⟨c1, rfl, by rw [happ]; exact hc1⟩
      · have hno : ¬ Clash data d := fun h => hkey h.2.2
        rw [getParam_eq_none.mpr hkey, Option.map_none, if_neg hno]
        refine ⟨c1, ?_, by rw [happ]; exact hc1⟩
        unfold allParams
        rw [happ, if_pos ⟨hhttp2, hfield⟩]
        rfl
    · have happ : appended data = 1 := if_pos ⟨hhttp2, hfield⟩
      have hno : ¬ Clash data d := fun h => hfield h.2.1
      have hparams : ∀ m, fieldParams data d m = ⟨1, .alpn (alpnsAfter d m)⟩ :: otherParams data d :=
        fun m => congrArg (· ++ _) (if_pos hfield)
      have hput : ({ c1 with alpn := c1.alpn.map (· ++ [h2]) } : Caches) = c1.putAlpn (alpnsAfter d (n + 1)) := by
        rw [halpn hfield, ← alpnsAfter_succ]
        rfl
      unfold allParams
      rw [hparams, hparams, if_neg hno, happ, if_neg fun h => hfield h.2, List.append_nil, ← alpnsAfter_succ]
      refine ⟨c1.putAlpn (alpnsAfter d (n + 1)), ?_, ⟨Or.inr ⟨hfield, rfl⟩, hc1.ech, hc1.ipv4Hints,
        hc1.ipv6Hints, hc1.extraParams⟩⟩
      rw [← hput]
      rfl
  · rw [if_neg hhttp2, if_neg fun h => hhttp2 h.1]
    have happ : appended data = 0 := if_neg fun h => hhttp2 h.1
    refine ⟨c1, ?_, by rw [happ]; exact hc1⟩
    unfold allParams
    rw [happ, if_neg fun h => hhttp2 h.1, List.append_nil]
    rfl

/-- The parameter of the honoured switches, if there is any. -/
def mandatoryParam (data : HttpsData) : List SvcbParam :=
  if mandatoryKeys data ≠ [] then [⟨0, .mandatory (mandatoryKeys data)⟩] else []

/-- What `svcb_record` gives after `n` times `h2` was appended. -/
def recordAfter (data : HttpsData) (d : Decoded) (n : ℕ) : Except PyErr SvcbRd :=
  if Clash data d then .error .attributeError
  else .ok ⟨data.priority, data.target, allParams data d n ++ mandatoryParam data⟩

theorem run_svcbRecord (hd : Decodes data d) (hc : Coherent data d n c) :
    ∃ c', run (svcbRecord data) c = (recordAfter data d n, c') ∧ Coherent data d (n + appended data) c' := by
  obtain ⟨c1, hrun, hc1⟩ := run_svcbData hd hc
  refine ⟨c1, ?_, hc1⟩
  unfold svcbRecord recordAfter
  by_cases hclash : Clash data d
  · rw [if_pos hclash] at hrun ⊢
    exact run_bind_error hrun
  · rw [if_neg hclash] at hrun ⊢
    rw [run_bind_ok hrun]
    unfold mandatoryParam
    by_cases hkeys : mandatoryKeys data = []
    · rw [if_neg (not_not.mpr hkeys), List.append_nil]
      dsimp only
      rw [if_neg (not_not.mpr hkeys)]
      rfl
    · rw [if_pos hkeys]
      dsimp only
      rw [if_pos hkeys]
      rfl

/-- The record of a new object. -/
theorem record_eq (hd : Decodes data d) : record data = recordAfter data d 0 := by
  obtain ⟨c', hrun, -⟩ := run_svcbRecord hd coherent_empty
  unfold record
  rw [hrun]

/-! ### What fits on the wire -/

/-- The parameters of the fields and the extra parameters fit on the wire, with `n` times `h2` more. -/
structure FieldsFit (data : HttpsData) (d : Decoded) (n : ℕ) : Prop where
  alpns : text data.alpns ≠ [] → (d.alpns.map fun v => v.length + 1).sum + 3 * n ≤ 65535
  ipv4Hints : 4 * d.ipv4Hints.length ≤ 65535
  ipv6Hints : 16 * d.ipv6Hints.length ≤ 65535
  targetPort : data.targetPort.getD 0 ≤ 65535
  ech : d.ech.length ≤ 65535
  extraParams : ∀ p ∈ d.extraParams, 0 ≤ p.key ∧ p.key ≤ 65535 ∧ size p.data ≤ 65535

theorem FieldsFit.mono {m : ℕ} (h : FieldsFit data d n) (hm : m ≤ n) : FieldsFit data d m :=
  ⟨fun hfield => by have := h.alpns hfield; omega, h.ipv4Hints, h.ipv6Hints, h.targetPort, h.ech, h.extraParams⟩

theorem size_alpnsAfter : size (.alpn (alpnsAfter d n)) = (d.alpns.map fun v => v.length + 1).sum + 3 * n := by
  show ((d.alpns ++ List.replicate n h2).map fun v => v.length + 1).sum = _
  rw [List.map_append, List.sum_append, List.map_replicate, List.sum_replicate_nat, Nat.mul_comm 3]
  rfl

theorem length_of_mem_alpns (hd : Decodes data d) : ∀ v ∈ d.alpns, v.length ≤ 255 := by
  by_cases hfield : text data.alpns = []
  · rw [hd.alpns.eq_nil hfield]
    exact fun v hv => absurd hv List.not_mem_nil
  · have h := hd.alpns.eq_ok hfield
    unfold alpnFromStr at h
    obtain ⟨value, -, h⟩ := bind_eq_ok.mp h
    obtain ⟨elms, -, h⟩ := bind_eq_ok.mp h
    unfold alpnData at h
    split_ifs at h with hall
    obtain rfl := Except.ok.inj h
    exact hall

theorem forall_mem_ite {α : Type} {q : Prop} [Decidable q] {a : α} {P : α → Prop} :
    (∀ b ∈ if q then [a] else [], P b) ↔ (q → P a) := by
  split_ifs with hq
  · simp [hq]
  · simp [hq]

theorem fits_mk {k : ℤ} {v : ParamData} (hk : 0 ≤ k ∧ k ≤ 65535) :
    Fits ⟨k, v⟩ ↔ InRange v ∧ size v ≤ 65535 :=
  ⟨fun h => ⟨h.1, h.2.1⟩, fun h => ⟨h.1, h.2, hk⟩⟩

theorem fits_alpnsAfter (hd : Decodes data d) : Fits ⟨1, .alpn (alpnsAfter d n)⟩ ↔
    (d.alpns.map fun v => v.length + 1).sum + 3 * n ≤ 65535 := by
  rw [fits_mk (by decide), size_alpnsAfter]
  refine and_iff_right fun v hv => ?_
  rcases List.mem_append.mp hv with hv | hv
  · exact length_of_mem_alpns hd v hv
  · rw [List.eq_of_mem_replicate hv]
    decide

/-- What is not given is not too long. -/
theorem imp_length_le {α : Type} {q : Prop} {l : List α} {k : ℕ} (h : ¬ q → l = []) :
    (q → k * l.length ≤ 65535) ↔ k * l.length ≤ 65535 := by
  refine ⟨fun hle => ?_, fun hle _ => hle⟩
  by_cases hq : q
  · exact hle hq
  · rw [h hq]
    exact Nat.zero_le _

theorem fits_otherParams (hd : Decodes data d) : (∀ p ∈ otherParams data d, Fits p) ↔
    4 * d.ipv4Hints.length ≤ 65535 ∧ 16 * d.ipv6Hints.length ≤ 65535 ∧
      data.targetPort.getD 0 ≤ 65535 ∧ d.ech.length ≤ 65535 := by
  have hipv4 := imp_length_le (k := 4) fun h => hd.ipv4Hints.eq_nil (not_not.mp h)
  have hipv6 := imp_length_le (k := 16) fun h => hd.ipv6Hints.eq_nil (not_not.mp h)
  have hech := imp_length_le (k := 1) fun h => hd.ech.eq_nil (not_not.mp h)
  have hport : (hasTargetPort data = true → data.targetPort.getD 0 ≤ 65535) ↔
      data.targetPort.getD 0 ≤ 65535 := by
    unfold hasTargetPort
    refine ⟨fun hle => ?_, fun hle _ => hle⟩
    by_cases hzero : data.targetPort.getD 0 = 0
    · omega
    · exact hle (by simpa using hzero)
  unfold otherParams
  simp only [List.forall_mem_append, forall_mem_ite]
  rw [fits_mk (by decide), fits_mk (by decide), fits_mk (by decide), fits_mk (by decide), fits_mk (by decide)]
  simp only [InRange, size, true_and, one_mul] at hech ⊢
  rw [hipv4, hipv6, hech]
  simp only [hport, show (2 : ℕ) ≤ 65535 by decide, and_true, Nat.zero_le, implies_true, true_and, and_assoc]

/-- Whether the list of a reading is packed. -/
theorem packs_allParams (hd : Decodes data d) :
    (∃ b, packParams (allParams data d n) = .ok b) ↔ FieldsFit data d (n + appended data) := by
  rw [packParams_iff]
  unfold allParams fieldParams
  simp only [List.forall_mem_append, forall_mem_ite, fits_alpnsAfter hd, fits_otherParams hd]
  constructor
  · rintro ⟨⟨⟨halpns, hipv4, hipv6, hport, hech⟩, hextra⟩, -⟩
    exact ⟨halpns, hipv4, hipv6, hport, hech, fun p hp => ⟨(hextra p hp).2.2.1, (hextra p hp).2.2.2, (hextra p hp).2.1⟩⟩
  · intro h
    refine ⟨⟨⟨h.alpns, h.ipv4Hints, h.ipv6Hints, h.targetPort, h.ech⟩, fun p hp => ?_⟩, fun _ => ?_⟩
    · obtain ⟨hlo, hhi, hsize⟩ := h.extraParams p hp
      obtain ⟨b, hb⟩ := hd.octets p hp
      exact ⟨by rw [hb]; trivial, hsize, hlo, hhi⟩
    · exact (fits_mk (by decide)).mpr ⟨by unfold InRange; decide, by decide⟩

/-! ### Any number of readings -/

/-- What is done with an object that is not written. -/
inductive Read
  | svcbData
  | svcbRecord
  | toRr
  | clean
  deriving DecidableEq, Repr

/-- What `to_rr` packs to after the owner, the type, the class and the TTL. -/
def packRdata (h : Host) (r : SvcbRd) : Except PyErr Bytes := do
  let data ← r.pack h
  let length ← packShort data.length
  return length ++ data

/-- A reading with the bytes to which its result packs; `clean` has a verdict only. -/
def reading (h : Host) (data : HttpsData) : Read → Exec Caches CleanErr Bytes
  | .svcbData => raising do ofResult (packParams (← Https.svcbData data).1)
  | .svcbRecord => raising do ofResult ((← Https.svcbRecord data).pack h)
  | .toRr => raising do ofResult (packRdata h (← Https.svcbRecord data))
  | .clean => do
    Https.clean data
    return []

/-- The object after the readings. -/
def after (h : Host) (data : HttpsData) (reads : List Read) : Caches :=
  reads.foldl (fun c r => (run (reading h data r) c).2) Caches.empty

/-- After any readings the next one packs to the same bytes as on a new object, or fails as it does there,
and `clean` has the same verdict. -/
def ReadsAlike (h : Host) (data : HttpsData) : Prop :=
  ∀ reads r, (run (reading h data r) (after h data reads)).1.toOption =
    (run (reading h data r) Caches.empty).1.toOption

/-- What is read is packed, and the packing changes nothing. -/
theorem run_packed {α : Type} {m : Exec Caches PyErr α} {x : Except PyErr α} {c' : Caches}
    (f : α → Except PyErr Bytes) (hrun : run m c = (x, c')) :
    (run (raising (m >>= fun a => ofResult (f a))) c).1.toOption = (x >>= f).toOption ∧
      (run (raising (m >>= fun a => ofResult (f a))) c).2 = c' := by
  rw [run_raising]
  rcases x with e | a
  · rw [run_bind_error hrun]
    exact ⟨rfl, rfl⟩
  · have hbind : (Except.ok a >>= f) = f a := rfl
    rw [run_bind_ok hrun, run_ofResult, hbind]
    rcases f a with e | b <;> exact ⟨rfl, rfl⟩

/-- What the next reading packs to. -/
def nextBytes (h : Host) (data : HttpsData) (d : Decoded) (n : ℕ) : Read → Option Bytes
  | .svcbData =>
    ((if Clash data d then .error .attributeError else .ok (allParams data d n)) >>= packParams).toOption
  | .svcbRecord => (recordAfter data d n >>= SvcbRd.pack h).toOption
  | .toRr => (recordAfter data d n >>= packRdata h).toOption
  | .clean => some []

/-- **The step**: what a reading gives, and what it leaves. -/
theorem run_reading (hclean : Cleans data d) (hc : Coherent data d n c) (h : Host) (r : Read) :
    (run (reading h data r) c).1.toOption = nextBytes h data d n r ∧
      Coherent data d (if r = .clean then 0 else n + appended data) (run (reading h data r) c).2 := by
  have hd := hclean.decodes
  cases r with
  | svcbData =>
    obtain ⟨c', hrun, hc'⟩ := run_svcbData hd hc
    obtain ⟨hbytes, hleft⟩ := run_packed (fun r => packParams r.1) hrun
    refine ⟨hbytes.trans ?_, by rw [← hleft] at hc'; exact hc'⟩
    show _ = ((if Clash data d then .error .attributeError else .ok (allParams data d n)) >>= packParams).toOption
    split_ifs <;> rfl
  | svcbRecord =>
    obtain ⟨c', hrun, hc'⟩ := run_svcbRecord hd hc
    obtain ⟨hbytes, hleft⟩ := run_packed (SvcbRd.pack h) hrun
    exact ⟨hbytes, by rw [← hleft] at hc'; exact hc'⟩
  | toRr =>
    obtain ⟨c', hrun, hc'⟩ := run_svcbRecord hd hc
    obtain ⟨hbytes, hleft⟩ := run_packed (packRdata h) hrun
    exact ⟨hbytes, by rw [← hleft] at hc'; exact hc'⟩
  | clean =>
    have halpn : text data.alpns = [] → c.alpn = none := by
      intro hfield
      rcases hc.alpn with ⟨hnone, -⟩ | ⟨hfilled, -⟩
      · exact hnone
      · exact absurd hfield hfilled
    have hrun := (run_clean (u := ()) halpn).mpr ⟨d, hclean, rfl⟩
    show (run (Https.clean data >>= fun _ => pure []) c).1.toOption = _ ∧
      Coherent data d 0 (run (Https.clean data >>= fun _ => pure []) c).2
    rw [run_bind_ok hrun]
    exact ⟨rfl, hc.clean⟩

/-- **The run**: the caches of a record that passes `clean` stay coherent, and where no reading appends
anything, nothing is ever appended. -/
theorem coherent_after (hclean : Cleans data d) (h : Host) (reads : List Read) :
    ∃ n, Coherent data d n (after h data reads) ∧ (appended data = 0 → n = 0) := by
  induction reads using List.reverseRecOn with
  | nil => exact ⟨0, coherent_empty, fun _ => rfl⟩
  | append_singleton reads r ih =>
    obtain ⟨n, hc, hn⟩ := ih
    have hc' := (run_reading hclean hc h r).2
    have hafter : after h data (reads ++ [r]) = (run (reading h data r) (after h data reads)).2 := by
      unfold after
      rw [List.foldl_append]
      rfl
    rw [hafter]
    refine ⟨_, hc', fun happ => ?_⟩
    rw [hn happ, happ]
    split_ifs <;> rfl

theorem toOption_eq_none {α : Type} {x : Except PyErr α} (h : ∀ a, x ≠ .ok a) : x.toOption = none := by
  rcases x with e | a
  · rfl
  · exact absurd rfl (h a)

theorem packParams_of_pack {h : Host} {rd : SvcbRd} {b : Bytes} (hb : rd.pack h = .ok b) :
    ∃ params, packParams rd.params = .ok params := by
  unfold SvcbRd.pack at hb
  obtain ⟨priority, -, hb⟩ := bind_eq_ok.mp hb
  obtain ⟨label, -, hb⟩ := bind_eq_ok.mp hb
  obtain ⟨target, -, hb⟩ := bind_eq_ok.mp hb
  obtain ⟨params, hparams, -⟩ := bind_eq_ok.mp hb
  exact ⟨params, hparams⟩

/-- What does not fit is never packed. -/
theorem nextBytes_eq_none (hd : Decodes data d) (h : Host) (hfit : ¬ FieldsFit data d (appended data)) {r : Read}
    (hr : r ≠ .clean) : nextBytes h data d n r = none := by
  have hlist : ∀ b, packParams (allParams data d n) ≠ .ok b := fun b hb =>
    hfit (((packs_allParams hd).mp ⟨b, hb⟩).mono (Nat.le_add_left _ _))
  have hrecord : ∀ rd, recordAfter data d n = .ok rd → ∀ b, rd.pack h ≠ .ok b := by
    intro rd hrd b hb
    unfold recordAfter at hrd
    split_ifs at hrd
    obtain rfl := Except.ok.inj hrd
    obtain ⟨params, hparams⟩ := packParams_of_pack hb
    have hall := packParams_iff.mp ⟨params, hparams⟩
    obtain ⟨b', hb'⟩ := packParams_iff.mpr fun p hp => hall p (List.mem_append_left _ hp)
    exact hlist b' hb'
  cases r with
  | svcbData =>
    show ((if Clash data d then .error .attributeError else .ok (allParams data d n)) >>= packParams).toOption = _
    split_ifs
    · rfl
    · exact toOption_eq_none hlist
  | svcbRecord =>
    refine toOption_eq_none fun b hb => ?_
    obtain ⟨rd, hrd, hpack⟩ := bind_eq_ok.mp hb
    exact hrecord rd hrd b hpack
  | toRr =>
    refine toOption_eq_none fun b hb => ?_
    obtain ⟨rd, hrd, hpack⟩ := bind_eq_ok.mp hb
    obtain ⟨b', hb', -⟩ := bind_eq_ok.mp hpack
    exact hrecord rd hrd b' hb'
  | clean => exact absurd rfl hr

/-- **Readings are alike** if and only if no reading appends `h2` to the ALPNs of the field, but for a record
that does not fit on the wire, which every reading refuses. -/
theorem readsAlike_iff (h : Host) (hclean : PassesClean data) :
    ∃ d, Decodes data d ∧ (ReadsAlike h data ↔
      ¬ (data.http2Support = true ∧ text data.alpns ≠ [] ∧ FieldsFit data d (appended data))) := by
  obtain ⟨d, hcleans⟩ := passesClean_iff.mp hclean
  have hd := hcleans.decodes
  refine ⟨d, hd, ?_⟩
  have hfresh : ∀ r, (run (reading h data r) Caches.empty).1.toOption = nextBytes h data d 0 r := fun r =>
    (run_reading hcleans coherent_empty h r).1
  constructor
  · rintro halike ⟨hhttp2, hfield, hfit⟩
    have happ : appended data = 1 := if_pos ⟨hhttp2, hfield⟩
    have hno : ¬ Clash data d := fun hclash => hfield hclash.2.1
    have hnext : ∀ n, nextBytes h data d n .svcbData = (packParams (allParams data d n)).toOption := by
      intro n
      show ((if Clash data d then .error .attributeError else .ok (allParams data d n)) >>= packParams).toOption = _
      rw [if_neg hno]
      rfl
    have hfirst := (run_reading hcleans coherent_empty h .svcbData).2
    rw [if_neg (by decide), happ] at hfirst
    have hsame := halike [.svcbData] .svcbData
    have hafter : after h data [.svcbData] = (run (reading h data .svcbData) Caches.empty).2 := rfl
    rw [hfresh, hafter, (run_reading hcleans hfirst h .svcbData).1, hnext, hnext] at hsame
    obtain ⟨b, hb⟩ := (packs_allParams (n := 0) hd).mpr (by rwa [Nat.zero_add])
    rw [hb] at hsame
    have hlen := length_packParams (ok_of_toOption hsame)
    rw [length_packParams hb] at hlen
    have hsize : ∀ n, ((allParams data d n).map fun p => 4 + size p.data).sum =
        ((allParams data d 0).map fun p => 4 + size p.data).sum + 3 * n := by
      intro n
      unfold allParams fieldParams
      simp only [if_pos hfield, List.map_append, List.map_cons, List.map_nil, List.sum_append, List.sum_cons,
        List.sum_nil, size_alpnsAfter]
      omega
    rw [hsize (0 + 1)] at hlen
    omega
  · intro hcond reads r
    obtain ⟨n, hc, hn⟩ := coherent_after hcleans h reads
    rw [hfresh, (run_reading hcleans hc h r).1]
    by_cases happ : appended data = 0
    · rw [hn happ]
    · have hboth : data.http2Support = true ∧ text data.alpns ≠ [] := by
        by_contra hno
        exact happ (if_neg hno)
      have hfit : ¬ FieldsFit data d (appended data) := fun hfit => hcond ⟨hboth.1, hboth.2, hfit⟩
      by_cases hr : r = .clean
      · rw [hr]
        rfl
      · rw [nextBytes_eq_none hd h hfit hr, nextBytes_eq_none hd h hfit hr]

theorem readsAlike_oneAlpn : PassesClean { bareRecord with alpns := some "h3".toList } ∧
    ∃ d, Decodes { bareRecord with alpns := some "h3".toList } d ∧
      (ReadsAlike Host.ascii { bareRecord with alpns := some "h3".toList } ↔
        ¬ (false = true ∧ "h3".toList ≠ [] ∧ FieldsFit { bareRecord with alpns := some "h3".toList } d 0)) :=
  ⟨by decide, readsAlike_iff Host.ascii (by decide)⟩

/-- The second reading has `h2` twice. -/
theorem not_readsAlike_http2 :
    PassesClean { bareRecord with alpns := some "h3".toList, http2Support := true } ∧
      ¬ ReadsAlike Host.ascii { bareRecord with alpns := some "h3".toList, http2Support := true } := by
  refine ⟨by decide, fun halike => ?_⟩
  have hsame := halike [.svcbData] .svcbData
  revert hsame
  decide

end

end HexDns.Svcb.Reads
