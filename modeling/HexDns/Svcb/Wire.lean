import HexDns.Svcb.Reads
import HexDns.Tasks.ZoneFile

/-! # HTTPS records on the wire

What a record that passes `clean` looks like when `svcb_record` is packed: when it is packed at all
(`packs_iff`), when its keys increase (`increasing_iff`), and when its mandatory parameter is one of
RFC 9460 (`mandatory_iff`). `clean` compares substrings of the extra parameters, where a key can be written
by its number as well, so that each of them has a condition on the keys of these. -/

namespace HexDns.Svcb.Wire

open HexDns.Lib.Texts HexDns.Lib.Programs HexDns.Base.Py HexDns.Base.Codecs HexDns.Base.Label
  HexDns.Models.Db HexDns.Models.Env HexDns.Models.Wire HexDns.Svcb.Decode HexDns.Svcb.Params HexDns.Svcb.Packing
  HexDns.Svcb.Https HexDns.Svcb.Reads HexDns.Tasks.ZoneFile

variable {data : HttpsData} {d : Decoded}

/-! ### The keys of a record -/

/-- The keys of the extra parameters. -/
def extraKeys (d : Decoded) : List ℤ := d.extraParams.map SvcbParam.key

/-- A switch that is set, and whose field is filled if it has one. -/
def Honoured (data : HttpsData) : Prop :=
  text data.alpns ≠ [] ∧ data.alpnMandatory = true ∨ data.noDefaultAlpnMandatory = true ∨
    data.ipv4Hints ≠ [] ∧ data.ipv4HintsMandatory = true ∨
    data.ipv6Hints ≠ [] ∧ data.ipv6HintsMandatory = true ∨
    hasTargetPort data = true ∧ data.targetPortMandatory = true ∨
    text data.ech ≠ [] ∧ data.echMandatory = true

theorem mem_mandatoryKeys {k : ℤ} : k ∈ mandatoryKeys data ↔
    k = 1 ∧ text data.alpns ≠ [] ∧ data.alpnMandatory = true ∨ k = 2 ∧ data.noDefaultAlpnMandatory = true ∨
    k = 4 ∧ data.ipv4Hints ≠ [] ∧ data.ipv4HintsMandatory = true ∨
    k = 6 ∧ data.ipv6Hints ≠ [] ∧ data.ipv6HintsMandatory = true ∨
    k = 3 ∧ hasTargetPort data = true ∧ data.targetPortMandatory = true ∨
    k = 5 ∧ text data.ech ≠ [] ∧ data.echMandatory = true := by
  unfold mandatoryKeys
  simp only [List.mem_append, List.mem_ite_nil_right, List.mem_singleton, or_assoc, and_comm]

theorem mandatoryKeys_ne_nil : mandatoryKeys data ≠ [] ↔ Honoured data := by
  unfold mandatoryKeys Honoured
  simp only [ne_eq, List.append_eq_nil_iff, ite_eq_right_iff, List.cons_ne_nil, imp_false]
  tauto

/-- The keys that a record has from elsewhere than the extra parameters. -/
def ownKeys (data : HttpsData) : List ℤ :=
  fieldKeys data ++ (if data.http2Support = true ∧ text data.alpns = [] then [1] else []) ++
    if mandatoryKeys data ≠ [] then [0] else []

/-- The keys of all the parameters of a record. -/
theorem map_key_record :
    ((allParams data d 0 ++ mandatoryParam data).map SvcbParam.key).Perm (extraKeys d ++ ownKeys data) := by
  have hmap : (allParams data d 0 ++ mandatoryParam data).map SvcbParam.key =
      (fieldKeys data ++ extraKeys d) ++ ((if data.http2Support = true ∧ text data.alpns = [] then [1] else []) ++
        if mandatoryKeys data ≠ [] then [0] else []) := by
    unfold allParams mandatoryParam extraKeys
    simp only [List.map_append, map_key_fieldParams, apply_ite (List.map SvcbParam.key), List.map_cons,
      List.map_nil, List.append_assoc]
  have hown : extraKeys d ++ ownKeys data = (extraKeys d ++ fieldKeys data) ++
      ((if data.http2Support = true ∧ text data.alpns = [] then [1] else []) ++
        if mandatoryKeys data ≠ [] then [0] else []) := by
    unfold ownKeys
    simp only [List.append_assoc]
  rw [hmap, hown]
  exact List.perm_append_comm.append_right _

theorem mem_ownKeys {k : ℤ} : k ∈ ownKeys data ↔
    k = 0 ∧ Honoured data ∨ k = 1 ∧ (text data.alpns ≠ [] ∨ data.http2Support = true) ∨
    k = 2 ∧ data.noDefaultAlpn = true ∨ k = 3 ∧ hasTargetPort data = true ∨ k = 4 ∧ data.ipv4Hints ≠ [] ∨
    k = 5 ∧ text data.ech ≠ [] ∨ k = 6 ∧ data.ipv6Hints ≠ [] := by
  unfold ownKeys
  simp only [List.mem_append, mem_fieldKeys, List.mem_ite_nil_right, List.mem_singleton, mandatoryKeys_ne_nil]
  grind

theorem nodup_ownKeys : (ownKeys data).Nodup := by
  have hfields : (fieldKeys data).Nodup := by
    unfold fieldKeys
    split_ifs <;> decide
  unfold ownKeys
  refine List.nodup_append.mpr ⟨List.nodup_append.mpr ⟨hfields, ?_, ?_⟩, ?_, ?_⟩
  · split_ifs <;> simp
  · intro a ha b hb hab
    rw [List.mem_ite_nil_right, List.mem_singleton] at hb
    rw [hab, hb.2, mem_fieldKeys] at ha
    simp [hb.1.2] at ha
  · split_ifs <;> simp
  · intro a ha b hb hab
    rw [List.mem_ite_nil_right, List.mem_singleton] at hb
    rw [hab, hb.2, List.mem_append, mem_fieldKeys, List.mem_ite_nil_right] at ha
    simp at ha

/-- The keys of the extra parameters are distinct, and none of them is that of a parameter that the record
has otherwise. -/
structure KeysDistinct (data : HttpsData) (d : Decoded) : Prop where
  extra : (extraKeys d).Nodup
  mandatory : 0 ∈ extraKeys d → ¬ Honoured data
  alpn : 1 ∈ extraKeys d → text data.alpns = [] ∧ data.http2Support = false
  noDefaultAlpn : 2 ∈ extraKeys d → data.noDefaultAlpn = false
  port : 3 ∈ extraKeys d → hasTargetPort data = false
  ipv4hint : 4 ∈ extraKeys d → data.ipv4Hints = []
  ech : 5 ∈ extraKeys d → text data.ech = []
  ipv6hint : 6 ∈ extraKeys d → data.ipv6Hints = []

theorem nodup_record :
    ((allParams data d 0 ++ mandatoryParam data).map SvcbParam.key).Nodup ↔ KeysDistinct data d := by
  rw [map_key_record.nodup_iff, List.nodup_append]
  have hdisjoint : (∀ a ∈ extraKeys d, ∀ b ∈ ownKeys data, a ≠ b) ↔ ∀ k ∈ extraKeys d, k ∉ ownKeys data :=
    ⟨fun h k hk hown => h k hk k hown rfl, fun h a ha b hb hab => h a ha (hab ▸ hb)⟩
  rw [hdisjoint]
  constructor
  · rintro ⟨hextra, -, hno⟩
    refine ⟨hextra, fun h => ?_, fun h => ?_, fun h => ?_, fun h => ?_, fun h => ?_, fun h => ?_, fun h => ?_⟩
    all_goals
      have hnot := hno _ h
      rw [mem_ownKeys] at hnot
      simpa using hnot
  · intro h
    refine ⟨h.extra, nodup_ownKeys, fun k hk hown => ?_⟩
    rcases mem_ownKeys.mp hown with ⟨rfl, hset⟩ | ⟨rfl, hset⟩ | ⟨rfl, hset⟩ | ⟨rfl, hset⟩ | ⟨rfl, hset⟩ |
      ⟨rfl, hset⟩ | ⟨rfl, hset⟩
    · exact h.mandatory hk hset
    · have hnone := h.alpn hk
      simp [hnone] at hset
    · simp [h.noDefaultAlpn hk] at hset
    · simp [h.port hk] at hset
    · exact hset (h.ipv4hint hk)
    · exact hset (h.ech hk)
    · exact hset (h.ipv6hint hk)

/-! ### Increasing keys -/

/-- The keys of the parameters increase in the order in which they are packed. -/
def Increasing (params : List SvcbParam) : Prop := ((sorted params).map SvcbParam.key).Pairwise (· < ·)

theorem increasing_iff_nodup {params : List SvcbParam} :
    Increasing params ↔ (params.map SvcbParam.key).Nodup := by
  have hle : ((sorted params).map SvcbParam.key).Pairwise (· ≤ ·) :=
    List.pairwise_map.mpr (List.pairwise_insertionSort (fun p q : SvcbParam => p.key ≤ q.key) params)
  rw [← ((sorted_perm params).map SvcbParam.key).nodup_iff]
  constructor
  · exact fun h => h.imp fun hlt => ne_of_lt hlt
  · exact fun h => (hle.and h).imp fun hboth => lt_of_le_of_ne hboth.1 hboth.2

/-- **The keys on the wire increase** if and only if the extra parameters have no key twice, and none that
the record has otherwise. -/
theorem increasing_iff (hclean : PassesClean data) :
    ∃ d, Decodes data d ∧
      ((∃ r, record data = .ok r ∧ Increasing r.params) ↔ KeysDistinct data d) := by
  obtain ⟨d, hcleans⟩ := passesClean_iff.mp hclean
  refine ⟨d, hcleans.decodes, ?_⟩
  rw [record_eq hcleans.decodes, ← nodup_record, ← increasing_iff_nodup]
  unfold recordAfter
  by_cases hclash : Clash data d
  · rw [if_pos hclash]
    refine iff_of_false (fun ⟨r, hr, _⟩ => by cases hr) fun hinc => ?_
    have honce := (nodup_record.mp (increasing_iff_nodup.mp hinc)).alpn hclash.2.2
    rw [hclash.1] at honce
    exact Bool.noConfusion honce.2
  · rw [if_neg hclash]
    constructor
    · rintro ⟨r, hr, hinc⟩
      obtain rfl := Except.ok.inj hr
      exact hinc
    · exact fun h => ⟨_, rfl, h⟩

theorem increasing_oneAlpn : PassesClean { bareRecord with alpns := some "h3".toList } ∧
    ∃ d, Decodes { bareRecord with alpns := some "h3".toList } d ∧
      ((∃ r, record { bareRecord with alpns := some "h3".toList } = .ok r ∧ Increasing r.params) ↔
        KeysDistinct { bareRecord with alpns := some "h3".toList } d) :=
  ⟨by decide, increasing_iff (by decide)⟩

/-- `key1` is another way to write `alpn`. -/
theorem not_increasing_key1 :
    PassesClean { bareRecord with alpns := some "h3".toList, extraParams := "key1=h2".toList } ∧
      ¬ ∃ r, record { bareRecord with alpns := some "h3".toList, extraParams := "key1=h2".toList } = .ok r ∧
        Increasing r.params := by
  refine ⟨by decide, ?_⟩
  rintro ⟨r, hr, hinc⟩
  have hrecord : record { bareRecord with alpns := some "h3".toList, extraParams := "key1=h2".toList } =
      .ok ⟨1, ".".toList, [⟨1, .alpn [[104, 51]]⟩, ⟨1, .octet [104, 50]⟩]⟩ := by decide
  obtain rfl := Except.ok.inj (hrecord.symm.trans hr)
  revert hinc
  unfold Increasing
  decide

/-! ### What is packed -/

/-- The limits that the fields of the model check. -/
structure FieldsValid (data : HttpsData) : Prop where
  port : data.port.getD 0 ≤ 65535
  scheme : (text data.scheme).length ≤ 255
  priority : data.priority ≤ 65535
  target : data.target ≠ [] ∧ data.target.length ≤ 255
  targetPort : data.targetPort.getD 0 ≤ 65535

/-- The target is a name that the library encodes. -/
def EncodesTarget (h : Host) (data : HttpsData) : Prop :=
  ∃ b, (DnsLabel.ofText h.py data.target >>= h.encodeName) = .ok b

theorem fits_mandatoryParam : ∀ p ∈ mandatoryParam data, Fits p := by
  unfold mandatoryParam
  split_ifs with hkeys
  · refine List.forall_mem_singleton.mpr ((fits_mk (by decide)).mpr ⟨fun k hk => ?_, ?_⟩)
    · rw [mem_mandatoryKeys] at hk
      omega
    · show 2 * (mandatoryKeys data).length ≤ 65535
      unfold mandatoryKeys
      split_ifs <;> decide
  · exact fun p hp => absurd hp List.not_mem_nil

theorem pack_eq_ok {h : Host} {r : SvcbRd} : (∃ b, r.pack h = .ok b) ↔ r.priority ≤ 65535 ∧
    (∃ b, (DnsLabel.ofText h.py r.target >>= h.encodeName) = .ok b) ∧ ∃ b, packParams r.params = .ok b := by
  have hshort : (∃ b, packShort r.priority = .ok b) ↔ r.priority ≤ 65535 := by
    rw [packShort_iff]
    omega
  rw [← hshort]
  unfold SvcbRd.pack
  constructor
  · rintro ⟨b, hb⟩
    obtain ⟨priority, hpriority, hb⟩ := bind_eq_ok.mp hb
    obtain ⟨label, hlabel, hb⟩ := bind_eq_ok.mp hb
    obtain ⟨target, htarget, hb⟩ := bind_eq_ok.mp hb
    obtain ⟨params, hparams, -⟩ := bind_eq_ok.mp hb
    exact ⟨⟨priority, hpriority⟩, ⟨target, bind_eq_ok.mpr ⟨label, hlabel, htarget⟩⟩, params, hparams⟩
  · rintro ⟨⟨priority, hpriority⟩, ⟨target, htarget⟩, params, hparams⟩
    obtain ⟨label, hlabel, htarget⟩ := bind_eq_ok.mp htarget
    rw [hpriority, hlabel, hparams]
    refine ⟨priority ++ target ++ params, ?_⟩
    show (h.encodeName label >>= fun target => .ok (priority ++ target ++ params)) = _
    rw [htarget]
    rfl

/-- **A record is published** if and only if its keys and the lengths of its values fit on the wire, its
target is a name, and `http2_support` has no extra parameter for ALPNs to change. -/
theorem packs_iff (h : Host) (hvalid : FieldsValid data) (hclean : PassesClean data) :
    ∃ d, Decodes data d ∧ ((∃ r b, record data = .ok r ∧ r.pack h = .ok b) ↔
      ¬ Clash data d ∧ FieldsFit data d (appended data) ∧ EncodesTarget h data) := by
  obtain ⟨d, hcleans⟩ := passesClean_iff.mp hclean
  have hd := hcleans.decodes
  refine ⟨d, hd, ?_⟩
  rw [record_eq hd]
  unfold recordAfter
  by_cases hclash : Clash data d
  · rw [if_pos hclash]
    exact iff_of_false (fun ⟨r, b, hr, _⟩ => by cases hr) fun hno => hno.1 hclash
  · rw [if_neg hclash]
    have hparams : (∃ b, packParams (allParams data d 0 ++ mandatoryParam data) = .ok b) ↔
        FieldsFit data d (appended data) := by
      have hall := packs_allParams (n := 0) hd
      rw [Nat.zero_add, packParams_iff] at hall
      rw [← hall, packParams_iff, List.forall_mem_append]
      exact and_iff_left fits_mandatoryParam
    rw [← hparams]
    constructor
    · rintro ⟨r, b, hr, hb⟩
      obtain rfl := Except.ok.inj hr
      obtain ⟨-, htarget, hpacked⟩ := pack_eq_ok.mp ⟨b, hb⟩
      exact ⟨hclash, hpacked, htarget⟩
    · rintro ⟨-, hpacked, htarget⟩
      have hrd : ∃ b, SvcbRd.pack h ⟨data.priority, data.target, allParams data d 0 ++ mandatoryParam data⟩ = .ok b :=
        pack_eq_ok.mpr ⟨hvalid.priority, htarget, hpacked⟩
      obtain ⟨b, hb⟩ := hrd
      exact ⟨_, b, rfl, hb⟩

theorem packs_oneAlpn : FieldsValid { bareRecord with alpns := some "h3".toList } ∧
    PassesClean { bareRecord with alpns := some "h3".toList } ∧
    ∃ d, Decodes { bareRecord with alpns := some "h3".toList } d ∧
      ((∃ r b, record { bareRecord with alpns := some "h3".toList } = .ok r ∧ r.pack Host.ascii = .ok b) ↔
        ¬ Clash { bareRecord with alpns := some "h3".toList } d ∧
          FieldsFit { bareRecord with alpns := some "h3".toList } d 0 ∧
          EncodesTarget Host.ascii { bareRecord with alpns := some "h3".toList }) :=
  ⟨⟨by decide, by decide, by decide, by decide, by decide⟩, by decide,
    packs_iff Host.ascii ⟨by decide, by decide, by decide, by decide, by decide⟩ (by decide)⟩

/-- A key that has more than sixteen bits. -/
theorem not_packs_key70000 : FieldsValid { bareRecord with extraParams := "key70000=x".toList } ∧
    PassesClean { bareRecord with extraParams := "key70000=x".toList } ∧
    ¬ ∃ r b, record { bareRecord with extraParams := "key70000=x".toList } = .ok r ∧
      r.pack Host.ascii = .ok b := by
  refine ⟨⟨by decide, by decide, by decide, by decide, by decide⟩, by decide, ?_⟩
  rintro ⟨r, b, hr, hb⟩
  have hrecord : record { bareRecord with extraParams := "key70000=x".toList } =
      .ok ⟨1, ".".toList, [⟨70000, .octet [120]⟩]⟩ := by decide
  obtain rfl := Except.ok.inj (hrecord.symm.trans hr)
  obtain ⟨-, -, hparams⟩ := pack_eq_ok.mp ⟨b, hb⟩
  have hkey := (packParams_iff.mp hparams _ List.mem_cons_self).2.2.2
  exact absurd hkey (by decide)

/-- The line of a zone file has what `pack` gives. -/
theorem published_https {h : Host} {st : Store} {zone : Zone} {zoneRoot : DnsLabel} {row : Row} {r : SvcbRd}
    (hrow : row.data = .https data) (hvalid : FieldsValid data) (hr : record data = .ok r)
    (hparams : h.svcbParams data = packParams r.params) :
    published h st zone zoneRoot row = (r.pack h).map fun b =>
      some [(.https, [.word "\\#".toList, .num b.length, .word (hexlify b)])] := by
  have hrd : r.priority = data.priority ∧ r.target = data.target := by
    unfold record svcbRecord at hr
    rw [run_bind] at hr
    rcases hread : run (svcbData data) Caches.empty with ⟨e | p, c⟩ <;> rw [hread] at hr
    · cases hr
    · obtain rfl := Except.ok.inj hr
      exact ⟨rfl, rfl⟩
  have hpriority : packShort r.priority = .ok (packUint 2 data.priority) := by
    have hle := hvalid.priority
    unfold packShort
    rw [hrd.1, if_pos (by omega), Int.toNat_natCast]
  unfold published SvcbRd.pack
  rw [hrow]
  dsimp only
  rw [hparams, hpriority, hrd.2]
  rcases DnsLabel.ofText h.py data.target with e | label
  · rfl
  · show (h.encodeName label >>= _) = Except.map _ (h.encodeName label >>= _)
    rcases h.encodeName label with e | target
    · rfl
    · show (packParams r.params >>= _) = Except.map _ (packParams r.params >>= _)
      rcases packParams r.params with e | params <;> rfl

/-! ### The mandatory parameter -/

/-- The keys of the switches that are set. -/
def switchKeys (data : HttpsData) : List ℕ :=
  (if data.alpnMandatory = true then [1] else []) ++ (if data.noDefaultAlpnMandatory = true then [2] else []) ++
  (if data.targetPortMandatory = true then [3] else []) ++ (if data.ipv4HintsMandatory = true then [4] else []) ++
  (if data.echMandatory = true then [5] else []) ++ (if data.ipv6HintsMandatory = true then [6] else [])

/-- A list of keys that may stand in the mandatory parameter of a record with these keys. -/
structure ValidKeys (data : HttpsData) (keys : List ℤ) (ks : List ℕ) : Prop where
  nonempty : ks ≠ []
  ascending : ks.Pairwise (· < ·)
  range : ∀ k ∈ ks, 0 < k ∧ k ≤ 65535
  present : ∀ k ∈ ks, (k : ℤ) ∈ keys
  complete : ∀ k ∈ switchKeys data, k ∈ ks

/-- There is a mandatory parameter, and its value on the wire is a valid list of keys. -/
def MandatoryValid (data : HttpsData) (params : List SvcbParam) : Prop :=
  ∃ p ∈ params, p.key = 0 ∧ ∃ ks, p.data.pack = .ok (ks.flatMap (packUint 2)) ∧
    ValidKeys data (params.map SvcbParam.key) ks

/-- The switches that are set have their fields filled, and their keys increase in the order of the
fields. -/
structure SwitchesValid (data : HttpsData) (d : Decoded) : Prop where
  alpn : data.alpnMandatory = true → text data.alpns ≠ []
  noDefaultAlpn : data.noDefaultAlpnMandatory = true → data.noDefaultAlpn = true ∨ 2 ∈ extraKeys d
  port : data.targetPortMandatory = true → hasTargetPort data = true
  ipv4hint : data.ipv4HintsMandatory = true → data.ipv4Hints ≠ []
  ech : data.echMandatory = true → text data.ech ≠ []
  ipv6hint : data.ipv6HintsMandatory = true → data.ipv6Hints ≠ []
  portBeforeHints : data.targetPortMandatory = true →
    data.ipv4HintsMandatory = false ∧ data.ipv6HintsMandatory = false
  echBeforeIpv6 : data.echMandatory = true → data.ipv6HintsMandatory = false

/-- An extra parameter with the key 0 is a valid list already. -/
def ExtraValid (data : HttpsData) (d : Decoded) : Prop :=
  ∃ p ∈ d.extraParams, p.key = 0 ∧ ∃ ks, p.data = .octet (ks.flatMap (packUint 2)) ∧
    ValidKeys data (extraKeys d ++ ownKeys data) ks

/-- Lists of keys that are packed alike are the same. -/
theorem flatMap_packUint_inj {ks ls : List ℕ} (hk : ∀ k ∈ ks, k ≤ 65535) (hl : ∀ l ∈ ls, l ≤ 65535)
    (h : ks.flatMap (packUint 2) = ls.flatMap (packUint 2)) : ks = ls := by
  have hvalue : ∀ k, k ≤ 65535 → (packUint 2 k).foldl (fun acc x => 256 * acc + x.toNat) 0 = k :=
    fun k hk => value_packUint (by omega)
  have hpos : ∀ k (ks : List ℕ), [] ≠ (k :: ks).flatMap (packUint 2) := by
    intro k ks hnil
    have hlen := congrArg List.length hnil
    rw [List.flatMap_cons, List.length_append, length_packUint, List.length_nil] at hlen
    omega
  induction ks generalizing ls with
  | nil =>
    cases ls with
    | nil => rfl
    | cons l ls => exact absurd h (hpos l ls)
  | cons k ks ih =>
    cases ls with
    | nil => exact absurd h.symm (hpos k ks)
    | cons l ls =>
      rw [List.flatMap_cons, List.flatMap_cons] at h
      obtain ⟨hhead, htail⟩ := List.append_inj h (by rw [length_packUint, length_packUint])
      have hkl : k = l := by
        rw [← hvalue k (hk k List.mem_cons_self), hhead, hvalue l (hl l List.mem_cons_self)]
      rw [hkl, ih (fun k' hk' => hk k' (List.mem_cons_of_mem k hk'))
        (fun l' hl' => hl l' (List.mem_cons_of_mem l hl')) htail]

/-- The list that `svcb_data` makes, as it is packed. -/
theorem pack_mandatoryKeys : ParamData.pack (.mandatory (mandatoryKeys data)) =
    .ok (((mandatoryKeys data).map Int.toNat).flatMap (packUint 2)) := by
  have hall : ∀ k ∈ mandatoryKeys data, packShort k = .ok (packUint 2 k.toNat) := by
    intro k hk
    rw [mem_mandatoryKeys] at hk
    unfold packShort
    exact if_pos (by omega)
  show ((mandatoryKeys data).mapM packShort).map List.flatten = _
  rw [mapM_eq_map hall, List.flatMap_def, List.map_map]
  rfl

theorem mem_switchKeys {k : ℕ} : k ∈ switchKeys data ↔
    k = 1 ∧ data.alpnMandatory = true ∨ k = 2 ∧ data.noDefaultAlpnMandatory = true ∨
    k = 3 ∧ data.targetPortMandatory = true ∨ k = 4 ∧ data.ipv4HintsMandatory = true ∨
    k = 5 ∧ data.echMandatory = true ∨ k = 6 ∧ data.ipv6HintsMandatory = true := by
  unfold switchKeys
  simp only [List.mem_append, List.mem_ite_nil_right, List.mem_singleton, or_assoc, and_comm]

/-- Keys in the order of the fields increase but for the port after the hints and the ECH after the IPv6
hints. -/
theorem pairwise_keys {p1 p2 p3 p4 p5 p6 : Prop} [Decidable p1] [Decidable p2] [Decidable p3] [Decidable p4]
    [Decidable p5] [Decidable p6] :
    ((((if p1 then [1] else []) ++ (if p2 then [2] else []) ++ (if p4 then [4] else []) ++
      (if p6 then [6] else []) ++ (if p3 then [3] else []) ++ (if p5 then [5] else []) : List ℤ)).map
        Int.toNat).Pairwise (· < ·) ↔ (p3 → ¬ p4 ∧ ¬ p6) ∧ (p5 → ¬ p6) := by
  split_ifs <;> simp [*]

/-- When the list that `svcb_data` makes is valid. -/
theorem validKeys_mandatoryKeys (hany : switchKeys data ≠ []) :
    ValidKeys data (extraKeys d ++ ownKeys data) ((mandatoryKeys data).map Int.toNat) ↔ SwitchesValid data d := by
  have hmem : ∀ k : ℕ, k ∈ (mandatoryKeys data).map Int.toNat ↔ (k : ℤ) ∈ mandatoryKeys data := by
    intro k
    rw [List.mem_map]
    constructor
    · rintro ⟨i, hi, rfl⟩
      have hpos := hi
      rw [mem_mandatoryKeys] at hpos
      rwa [Int.toNat_of_nonneg (by omega)]
    · exact fun hk => ⟨k, hk, Int.toNat_natCast k⟩
  constructor
  · intro h
    have hset : ∀ k, k ∈ switchKeys data → (k : ℤ) ∈ mandatoryKeys data := fun k hk => (hmem k).mp (h.complete k hk)
    obtain ⟨hport, hech⟩ := pairwise_keys.mp h.ascending
    have hnoDefault : data.noDefaultAlpnMandatory = true → data.noDefaultAlpn = true ∨ 2 ∈ extraKeys d := by
      intro hswitch
      have hpresent := h.present 2 ((hmem 2).mpr (mem_mandatoryKeys.mpr (by simp [hswitch])))
      rw [List.mem_append, mem_ownKeys] at hpresent
      simpa [or_comm] using hpresent
    have hfilled : ∀ k : ℕ, k ∈ switchKeys data → k = 1 ∧ text data.alpns ≠ [] ∨ k = 2 ∨
        k = 3 ∧ hasTargetPort data = true ∨ k = 4 ∧ data.ipv4Hints ≠ [] ∨ k = 5 ∧ text data.ech ≠ [] ∨
        k = 6 ∧ data.ipv6Hints ≠ [] := by
      intro k hk
      have hmand := mem_mandatoryKeys.mp (hset k hk)
      grind
    have halpn : data.alpnMandatory = true → text data.alpns ≠ [] := fun hswitch => by
      simpa using hfilled 1 (mem_switchKeys.mpr (by simp [hswitch]))
    have htarget : data.targetPortMandatory = true → hasTargetPort data = true := fun hswitch => by
      simpa using hfilled 3 (mem_switchKeys.mpr (by simp [hswitch]))
    have hipv4 : data.ipv4HintsMandatory = true → data.ipv4Hints ≠ [] := fun hswitch => by
      simpa using hfilled 4 (mem_switchKeys.mpr (by simp [hswitch]))
    have hechSet : data.echMandatory = true → text data.ech ≠ [] := fun hswitch => by
      simpa using hfilled 5 (mem_switchKeys.mpr (by simp [hswitch]))
    have hipv6 : data.ipv6HintsMandatory = true → data.ipv6Hints ≠ [] := fun hswitch => by
      simpa using hfilled 6 (mem_switchKeys.mpr (by simp [hswitch]))
    refine ⟨halpn, hnoDefault, htarget, hipv4, hechSet, hipv6, fun hswitch => ?_, fun hswitch => ?_⟩
    · obtain ⟨hno4, hno6⟩ := hport ⟨htarget hswitch, hswitch⟩
      exact ⟨Bool.eq_false_of_not_eq_true fun h4 => hno4 ⟨hipv4 h4, h4⟩,
        Bool.eq_false_of_not_eq_true fun h6 => hno6 ⟨hipv6 h6, h6⟩⟩
    · exact Bool.eq_false_of_not_eq_true fun h6 => hech ⟨hechSet hswitch, hswitch⟩ ⟨hipv6 h6, h6⟩
  · intro h
    have hcomplete : ∀ k ∈ switchKeys data, k ∈ (mandatoryKeys data).map Int.toNat := by
      intro k hk
      rw [hmem, mem_mandatoryKeys]
      rcases mem_switchKeys.mp hk with ⟨rfl, hs⟩ | ⟨rfl, hs⟩ | ⟨rfl, hs⟩ | ⟨rfl, hs⟩ | ⟨rfl, hs⟩ | ⟨rfl, hs⟩
      · simp [hs, h.alpn hs]
      · simp [hs]
      · simp [hs, h.port hs]
      · simp [hs, h.ipv4hint hs]
      · simp [hs, h.ech hs]
      · simp [hs, h.ipv6hint hs]
    refine ⟨fun hnil => ?_, pairwise_keys.mpr ⟨?_, ?_⟩, fun k hk => ?_, fun k hk => ?_, hcomplete⟩
    · obtain ⟨k, hk⟩ := List.exists_mem_of_ne_nil _ hany
      have hmem' := hcomplete k hk
      rw [hnil] at hmem'
      exact absurd hmem' List.not_mem_nil
    · rintro ⟨-, hs⟩
      simp [h.portBeforeHints hs]
    · rintro ⟨-, hs⟩
      simp [h.echBeforeIpv6 hs]
    · have hkey := mem_mandatoryKeys.mp ((hmem k).mp hk)
      omega
    · rw [List.mem_append, mem_ownKeys]
      rcases mem_mandatoryKeys.mp ((hmem k).mp hk) with ⟨hk, hs⟩ | ⟨hk, hs⟩ | ⟨hk, hs⟩ | ⟨hk, hs⟩ | ⟨hk, hs⟩ | ⟨hk, hs⟩ <;>
        rw [hk]
      · simp [hs.1]
      · rcases h.noDefaultAlpn hs with hdefault | hextra
        · simp [hdefault]
        · exact Or.inl hextra
      · simp [hs.1]
      · simp [hs.1]
      · simp [hs.1]
      · simp [hs.1]

/-- **The mandatory parameter is valid** if and only if the switches that are set have their fields filled
and ascending keys in the order of the fields, or an extra parameter is a valid list already. -/
theorem mandatory_iff (hclean : PassesClean data) (hany : switchKeys data ≠ []) :
    ∃ d, Decodes data d ∧ ((∃ r, record data = .ok r ∧ MandatoryValid data r.params) ↔
      ¬ Clash data d ∧ (SwitchesValid data d ∨ ExtraValid data d)) := by
  obtain ⟨d, hcleans⟩ := passesClean_iff.mp hclean
  have hd := hcleans.decodes
  refine ⟨d, hd, ?_⟩
  rw [record_eq hd]
  unfold recordAfter
  by_cases hclash : Clash data d
  · rw [if_pos hclash]
    exact iff_of_false (fun ⟨r, hr, _⟩ => by cases hr) fun hno => hno.1 hclash
  rw [if_neg hclash, and_iff_right hclash]
  have hkeys : ∀ ks, ValidKeys data ((allParams data d 0 ++ mandatoryParam data).map SvcbParam.key) ks ↔
      ValidKeys data (extraKeys d ++ ownKeys data) ks := by
    intro ks
    have hmem := fun k : ℤ => (@map_key_record data d).mem_iff (a := k)
    exact ⟨fun h => ⟨h.nonempty, h.ascending, h.range, fun k hk => (hmem k).mp (h.present k hk), h.complete⟩,
      fun h => ⟨h.nonempty, h.ascending, h.range, fun k hk => (hmem k).mpr (h.present k hk), h.complete⟩⟩
  constructor
  · rintro ⟨r, hr, p, hp, hkey, ks, hpack, hvalid⟩
    obtain rfl := Except.ok.inj hr
    rw [hkeys] at hvalid
    unfold allParams at hp
    simp only [List.mem_append] at hp
    rcases hp with ((hp | hp) | hp) | hp
    · have hfield := List.mem_map_of_mem (f := SvcbParam.key) hp
      rw [map_key_fieldParams, hkey, mem_fieldKeys] at hfield
      simp at hfield
    · obtain ⟨b, hb⟩ := hd.octets p hp
      rw [hb] at hpack
      obtain rfl := Except.ok.inj hpack
      exact Or.inr ⟨p, hp, hkey, ks, hb, hvalid⟩
    · rw [List.mem_ite_nil_right, List.mem_singleton] at hp
      rw [hp.2] at hkey
      cases hkey
    · unfold mandatoryParam at hp
      rw [List.mem_ite_nil_right, List.mem_singleton] at hp
      rw [hp.2, pack_mandatoryKeys] at hpack
      have hrange : ∀ k ∈ (mandatoryKeys data).map Int.toNat, k ≤ 65535 := by
        intro k hk
        obtain ⟨i, hi, rfl⟩ := List.mem_map.mp hk
        rw [mem_mandatoryKeys] at hi
        omega
      have heq := flatMap_packUint_inj hrange (fun k hk => (hvalid.range k hk).2) (Except.ok.inj hpack)
      rw [← heq] at hvalid
      exact Or.inl ((validKeys_mandatoryKeys hany).mp hvalid)
  · rintro (hswitches | ⟨p, hp, hkey, ks, hks, hvalid⟩)
    · have hvalid := (validKeys_mandatoryKeys hany).mpr hswitches
      have hne : mandatoryKeys data ≠ [] := fun hnil => hvalid.nonempty (by rw [hnil]; rfl)
      refine ⟨_, rfl, ⟨0, .mandatory (mandatoryKeys data)⟩, List.mem_append_right _ ?_, rfl, _,
        pack_mandatoryKeys, (hkeys _).mpr hvalid⟩
      unfold mandatoryParam
      rw [if_pos hne]
      exact List.mem_singleton_self _
    · refine ⟨_, rfl, p, List.mem_append_left _ ?_, hkey, ks, ?_, (hkeys ks).mpr hvalid⟩
      · unfold allParams
        exact List.mem_append_left _ (List.mem_append_right _ hp)
      · rw [hks]
        rfl

theorem mandatory_oneAlpn : PassesClean { bareRecord with alpns := some "h3".toList, alpnMandatory := true } ∧
    switchKeys { bareRecord with alpns := some "h3".toList, alpnMandatory := true } ≠ [] ∧
    ∃ d, Decodes { bareRecord with alpns := some "h3".toList, alpnMandatory := true } d ∧
      ((∃ r, record { bareRecord with alpns := some "h3".toList, alpnMandatory := true } = .ok r ∧
        MandatoryValid { bareRecord with alpns := some "h3".toList, alpnMandatory := true } r.params) ↔
        ¬ Clash { bareRecord with alpns := some "h3".toList, alpnMandatory := true } d ∧
          (SwitchesValid { bareRecord with alpns := some "h3".toList, alpnMandatory := true } d ∨
            ExtraValid { bareRecord with alpns := some "h3".toList, alpnMandatory := true } d)) :=
  ⟨by decide, by decide, mandatory_iff (by decide) (by decide)⟩

/-- A record with a port and IPv4 hints, both mandatory. -/
def portAndHints : HttpsData :=
  { bareRecord with
    targetPort := some 8443
    targetPortMandatory := true
    ipv4Hints := "1.2.3.4".toList
    ipv4HintsMandatory := true }

/-- The order of the fields is not that of the keys: the port, 3, comes after the IPv4 hints, 4. -/
theorem not_mandatory_portAndHints : PassesClean portAndHints ∧ switchKeys portAndHints ≠ [] ∧
    ¬ ∃ r, record portAndHints = .ok r ∧ MandatoryValid portAndHints r.params := by
  refine ⟨by decide, by decide, ?_⟩
  rintro ⟨r, hr, p, hp, hkey, ks, hpack, hvalid⟩
  have hrecord : record portAndHints =
      .ok ⟨1, ".".toList, [⟨4, .ipv4 [0x01020304#32]⟩, ⟨3, .integer 8443⟩, ⟨0, .mandatory [4, 3]⟩]⟩ := by decide
  obtain rfl := Except.ok.inj (hrecord.symm.trans hr)
  have hmandatory : p = ⟨0, .mandatory [4, 3]⟩ := by
    simp only [List.mem_cons, List.not_mem_nil, or_false] at hp
    rcases hp with rfl | rfl | rfl
    · cases hkey
    · cases hkey
    · rfl
  have hbytes : ParamData.pack (.mandatory [4, 3]) = .ok ([4, 3].flatMap (packUint 2)) := by decide
  rw [hmandatory, hbytes] at hpack
  have heq := flatMap_packUint_inj (by decide) (fun k hk => (hvalid.range k hk).2) (Except.ok.inj hpack)
  rw [← heq] at hvalid
  exact absurd hvalid.ascending (by decide)

end HexDns.Svcb.Wire
