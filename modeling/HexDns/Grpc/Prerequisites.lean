import HexDns.Grpc.Deletions

/-! # What prerequisites mean

RFC 2136, section 3.2, has a prerequisite about the RRsets published at exactly its owner name
(`Met`). The handler goes by the rows that its lookups count (`Counted`, `CountedOf`) or answer with
(`Answered`), and by the comparison of sorted lists of resource records. -/

namespace HexDns.Grpc.Prerequisites

open HexDns.Lib.Texts HexDns.Lib.Tables HexDns.Lib.Programs HexDns.Base.Py HexDns.Base.Label
  HexDns.Base.Message HexDns.Models.Db HexDns.Models.Env HexDns.Models.Convert
  HexDns.Grpc.FindZone HexDns.Grpc.Records HexDns.Grpc.Lookup HexDns.Grpc.Update HexDns.Grpc.Steps
  HexDns.Grpc.Confined HexDns.Grpc.Deletions HexDns.Tasks.ZoneFile HexDns.Tasks.Published

section
variable (h : Host) (st : Store) (zone : Zone)

/-! ### The rows that are counted -/

/-- The row is stored under the text of the name, or under that of the wildcard name. -/
def Under (recordName : DnsLabel) (r : Row) : Prop :=
  recordName.searchName = .ok r.recordName ∨ recordName.wildcard.searchName = .ok r.recordName

/-- The row is one that `any_records` counts. -/
def Counted (recordName : DnsLabel) (r : Row) : Prop :=
  r.zone = zone.id ∧ (r.model ∈ .cname :: countedModels ∧ Under recordName r ∨
    httpsMatches (parseHttpsRecordName h.py recordName).1 (parseHttpsRecordName h.py recordName).2.1 r =
      true ∧ Under (parseHttpsRecordName h.py recordName).2.2 r)

/-- The row is one that `any_record_type` counts for a type of the update stage. -/
def CountedOf (recordName : DnsLabel) (t : QType) (r : Row) : Prop :=
  if t = .a ∨ t = .aaaa then
    (Stored zone recordName r ∨ FallenBack st zone recordName r) ∧ r.model = .address ∧
      addressOfType t r = true
  else countedModel t = some r.model ∧ Stored zone recordName r

end

section
variable {h : Host} {st : Store} {zone : Zone} {recordName : DnsLabel}

theorem exists_searchName_https {s : Text} (hs : recordName.searchName = .ok s) :
    ∃ s', (parseHttpsRecordName h.py recordName).2.2.searchName = .ok s' := by
  unfold parseHttpsRecordName
  split
  · rename_i possPort possScheme rest hlabel
    split
    · by_cases hrest : rest = []
      · rw [if_pos hrest]; exact ⟨['@'], show DnsLabel.at.searchName = _ by decide⟩
      · rw [if_neg hrest]
        obtain ⟨ts, hts, -⟩ := searchName_eq_ok.mp hs
        obtain ⟨_, _, rfl, -, hts⟩ := (texts_eq_ok hlabel).mp hts
        obtain ⟨_, ts, rfl, -, hts⟩ := (texts_eq_ok rfl).mp hts
        exact ⟨_, searchName_eq_ok.mpr ⟨ts, hts, rfl⟩⟩
    · exact ⟨s, hs⟩
  · exact ⟨s, hs⟩

theorem named_ne_nil {m : Model} {s : Text} : named st m s zone ≠ [] ↔
    ∃ r ∈ st.records, r.model = m ∧ r.recordName = s ∧ r.zone = zone.id := by
  constructor
  · intro hne
    obtain ⟨r, hr⟩ := List.exists_mem_of_ne_nil _ hne
    exact ⟨r, mem_named.mp hr⟩
  · rintro ⟨r, hr⟩
    exact List.ne_nil_of_mem (mem_named.mpr hr)

theorem model_of_httpsMatches {port : ℤ} {scheme : Text} {r : Row}
    (hp : httpsMatches port scheme r = true) : r.model = .https := by
  unfold httpsMatches at hp
  unfold Row.model
  rcases hd : r.data with _ | _ | _ | _ | _ | _ | _ | _ | _ | _ | _ | _ | _ | _ | _ | _ | _ | _ | _ | _ <;>
    rw [hd] at hp <;> first | rfl | cases hp

/-- **What `any_records` says**, if it does not raise. -/
theorem anyRecords_eq_ok_iff {includeCname b : Bool} :
    anyRecords h st recordName zone includeCname = .ok b ↔ (∃ s, recordName.searchName = .ok s) ∧
      (b = true ↔ ∃ r ∈ st.records, Counted h zone recordName r ∧
        (includeCname = true ∨ r.model ≠ .cname)) := by
  rcases hs : recordName.searchName with e | s
  · unfold anyRecords
    rw [hs]
    simp [bind, Except.bind]
  obtain ⟨w, hw⟩ := exists_searchName_wildcard hs
  obtain ⟨s', hs'⟩ := exists_searchName_https (h := h) hs
  obtain ⟨w', hw'⟩ := exists_searchName_wildcard hs'
  have hunder : ∀ r, Under recordName r ↔ r.recordName = s ∨ r.recordName = w := by
    intro r
    unfold Under
    rw [hs, hw, Except.ok.injEq, Except.ok.injEq, eq_comm, eq_comm (a := w)]
  have hunder' : ∀ r, Under (parseHttpsRecordName h.py recordName).2.2 r ↔
      r.recordName = s' ∨ r.recordName = w' := by
    intro r
    unfold Under
    rw [hs', hw', Except.ok.injEq, Except.ok.injEq, eq_comm, eq_comm (a := w')]
  have hany : ∀ m : Model, (decide (named st m s zone ≠ []) || decide (named st m w zone ≠ [])) =
      true ↔ ∃ r ∈ st.records, r.zone = zone.id ∧ r.model = m ∧ Under recordName r := by
    intro m
    simp only [Bool.or_eq_true, decide_eq_true_iff, named_ne_nil, hunder]
    constructor
    · rintro (⟨r, hr, hm, hn, hz⟩ | ⟨r, hr, hm, hn, hz⟩)
      · exact ⟨r, hr, hz, hm, Or.inl hn⟩
      · exact ⟨r, hr, hz, hm, Or.inr hn⟩
    · rintro ⟨r, hr, hz, hm, hn | hn⟩
      · exact Or.inl ⟨r, hr, hm, hn, hz⟩
      · exact Or.inr ⟨r, hr, hm, hn, hz⟩
  have hhttps : ((named st .https s' zone ++ named st .https w' zone).any
      (httpsMatches (parseHttpsRecordName h.py recordName).1
        (parseHttpsRecordName h.py recordName).2.1) = true) ↔ ∃ r ∈ st.records, r.zone = zone.id ∧
          httpsMatches (parseHttpsRecordName h.py recordName).1
            (parseHttpsRecordName h.py recordName).2.1 r = true ∧
              Under (parseHttpsRecordName h.py recordName).2.2 r := by
    simp only [List.any_eq_true, List.mem_append, mem_named, hunder']
    constructor
    · rintro ⟨r, ⟨hr, -, hn, hz⟩ | ⟨hr, -, hn, hz⟩, hp⟩
      · exact ⟨r, hr, hz, hp, Or.inl hn⟩
      · exact ⟨r, hr, hz, hp, Or.inr hn⟩
    · rintro ⟨r, hr, hz, hp, hn⟩
      have hm : r.model = .https := model_of_httpsMatches hp
      rcases hn with hn | hn
      · exact ⟨r, Or.inl ⟨hr, hm, hn, hz⟩, hp⟩
      · exact ⟨r, Or.inr ⟨hr, hm, hn, hz⟩, hp⟩
  have hcount : (∃ r ∈ st.records, Counted h zone recordName r ∧
      (includeCname = true ∨ r.model ≠ .cname)) ↔
      ((∃ m ∈ countedModels, ∃ r ∈ st.records, r.zone = zone.id ∧ r.model = m ∧ Under recordName r) ∨
        includeCname = true ∧ ∃ r ∈ st.records, r.zone = zone.id ∧ r.model = .cname ∧
          Under recordName r) ∨ ∃ r ∈ st.records, r.zone = zone.id ∧
          httpsMatches (parseHttpsRecordName h.py recordName).1
            (parseHttpsRecordName h.py recordName).2.1 r = true ∧
              Under (parseHttpsRecordName h.py recordName).2.2 r := by
    unfold Counted
    constructor
    · rintro ⟨r, hr, ⟨hz, ⟨hm, hn⟩ | ⟨hp, hn⟩⟩, hinc⟩
      · rcases List.mem_cons.mp hm with hm | hm
        · exact Or.inl (Or.inr ⟨hinc.resolve_right fun hne => hne hm, r, hr, hz, hm, hn⟩)
        · exact Or.inl (Or.inl ⟨_, hm, r, hr, hz, rfl, hn⟩)
      · exact Or.inr ⟨r, hr, hz, hp, hn⟩
    · rintro ((⟨m, hm, r, hr, hz, rfl, hn⟩ | ⟨hinc, r, hr, hz, hm, hn⟩) | ⟨r, hr, hz, hp, hn⟩)
      · refine ⟨r, hr, ⟨hz, Or.inl ⟨List.mem_cons_of_mem _ hm, hn⟩⟩, Or.inr fun hcname => ?_⟩
        rw [hcname] at hm
        exact absurd hm (show Model.cname ∉ countedModels by decide)
      · exact ⟨r, hr, ⟨hz, Or.inl ⟨hm ▸ List.mem_cons_self, hn⟩⟩, Or.inl hinc⟩
      · refine ⟨r, hr, ⟨hz, Or.inr ⟨hp, hn⟩⟩, Or.inr fun hcname => ?_⟩
        rw [model_of_httpsMatches hp] at hcname
        cases hcname
  rw [hcount, ← hhttps]
  simp only [← hany]
  have hmodels : (∃ m ∈ countedModels,
      (decide (named st m s zone ≠ []) || decide (named st m w zone ≠ [])) = true) ∨
        includeCname = true ∧ (decide (named st .cname s zone ≠ []) ||
          decide (named st .cname w zone ≠ [])) = true ↔
        (countedModels.any (fun m => decide (named st m s zone ≠ []) ||
          decide (named st m w zone ≠ [])) || (includeCname && (decide (named st .cname s zone ≠ []) ||
            decide (named st .cname w zone ≠ [])))) = true := by
    simp only [Bool.or_eq_true, List.any_eq_true, Bool.and_eq_true]
  rw [hmodels]
  have hval : anyRecords h st recordName zone includeCname =
      if (countedModels.any (fun m => decide (named st m s zone ≠ []) ||
          decide (named st m w zone ≠ [])) || (includeCname && (decide (named st .cname s zone ≠ []) ||
            decide (named st .cname w zone ≠ [])))) = true then .ok true
      else .ok ((named st .https s' zone ++ named st .https w' zone).any
        (httpsMatches (parseHttpsRecordName h.py recordName).1
          (parseHttpsRecordName h.py recordName).2.1)) := by
    unfold anyRecords
    rw [hs, hw]
    simp only [bind, Except.bind, pure, Except.pure]
    rcases hp : parseHttpsRecordName h.py recordName with ⟨port, scheme, name⟩
    rw [hp] at hs' hw'
    dsimp only at hs' hw' ⊢
    rw [hs', hw']
  rw [hval]
  generalize (countedModels.any _ || _) = counted
  generalize (named st .https s' zone ++ named st .https w' zone).any _ = https
  cases counted <;> cases https <;> cases b <;> simp

theorem anyRecords_eq_ok {b : Bool} : anyRecords h st recordName zone true = .ok b ↔
    (∃ s, recordName.searchName = .ok s) ∧
      (b = true ↔ ∃ r ∈ st.records, Counted h zone recordName r) := by
  have hiff := @anyRecords_eq_ok_iff h st zone recordName true b
  simpa using hiff

/-- **What `any_record_type` says** of a type of the update stage, if it does not raise. -/
theorem anyRecordType_eq_ok {t : QType} (ht : t ∈ supportedTypes) {b : Bool} :
    anyRecordType h st recordName zone t = .ok b ↔ (∃ s, recordName.searchName = .ok s) ∧
      (b = true ↔ ∃ r ∈ st.records, CountedOf st zone recordName t r) := by
  rcases hs : recordName.searchName with e | s
  · unfold anyRecordType
    rw [hs]
    simp [bind, Except.bind]
  have hhttps : t ≠ .https := by rintro rfl; revert ht; decide
  unfold anyRecordType CountedOf
  rw [hs]
  dsimp only [bind, Except.bind, pure, Except.pure]
  by_cases ha : t = .a ∨ t = .aaaa
  · rw [if_pos ha, findRecords_eq_foundRows hs]
    simp only [if_pos ha]
    have hfound : (foundRows st recordName zone .address).any (addressOfType t) = true ↔
        ∃ r ∈ st.records, (Stored zone recordName r ∨ FallenBack st zone recordName r) ∧
          r.model = .address ∧ addressOfType t r = true := by
      simp only [List.any_eq_true, mem_foundRows_iff hs]
      constructor
      · rintro ⟨r, ⟨hr, hor, hm⟩, hp⟩; exact ⟨r, hr, hor, hm.symm, hp⟩
      · rintro ⟨r, hr, hor, hm, hp⟩; exact ⟨r, ⟨hr, hor, hm.symm⟩, hp⟩
    rw [← hfound]
    generalize (foundRows st recordName zone .address).any _ = found
    cases found <;> cases b <;> simp
  · rw [if_neg ha, if_neg hhttps]
    simp only [if_neg ha]
    rcases hc : countedModel t with _ | m
    · cases b <;> simp
    · have hnamed : named st m s zone ≠ [] ↔ ∃ r ∈ st.records, some m = some r.model ∧
          Stored zone recordName r := by
        rw [named_ne_nil]
        unfold Stored
        rw [hs]
        constructor
        · rintro ⟨r, hr, rfl, rfl, hz⟩; exact ⟨r, hr, rfl, hz, rfl⟩
        · rintro ⟨r, hr, hm, hz, hn⟩
          exact ⟨r, hr, (Option.some.inj hm).symm, (Except.ok.inj hn).symm, hz⟩
      dsimp only
      rw [← hnamed]
      by_cases hne : named st m s zone = []
      · cases b <;> simp [hne]
      · cases b <;> simp [hne]

end

/-! ### The RRsets that are listed -/

section
variable (h : Host)

/-- Two names and types are one key of the dictionary. -/
def SameKey (k k' : DnsLabel × QType) : Prop := h.nameKey k.1 = h.nameKey k'.1 ∧ k.2 = k'.2

instance (k k' : DnsLabel × QType) : Decidable (SameKey h k k') := by
  unfold SameKey; infer_instance

/-- `temp_prereq_rrset` after the first loop -/
def rrSetsOf (l : List Rr) : RrSets := l.foldl (fun sets rr => addToRrSets h rr sets) []

/-- The records of a list that belong to a key. -/
def listedFor (l : List Rr) (key : DnsLabel × QType) : List Rr :=
  l.filter fun x => SameKey h key (x.rname, x.rtype)

/-- The sets of a list of records: one for each name and type, with the records in order. -/
structure Grouped (l : List Rr) (sets : RrSets) : Prop where
  distinct : (sets.map Prod.fst).Pairwise fun k k' => ¬ SameKey h k k'
  values : ∀ e ∈ sets, e.2 = listedFor h l e.1
  head : ∀ e ∈ sets, ∃ v vs, e.2 = v :: vs ∧ e.1 = (v.rname, v.rtype)
  covers : ∀ x ∈ l, ∃ e ∈ sets, SameKey h e.1 (x.rname, x.rtype)

variable {h}

theorem addToRrSets_cons (x : Rr) (key : DnsLabel × QType) (values : List Rr) (sets : RrSets) :
    addToRrSets h x ((key, values) :: sets) =
      if SameKey h key (x.rname, x.rtype) then (key, values ++ [x]) :: sets
      else (key, values) :: addToRrSets h x sets := by
  by_cases hk : SameKey h key (x.rname, x.rtype)
  · rw [if_pos hk, addToRrSets]
    exact if_pos hk
  · rw [if_neg hk, addToRrSets]
    exact if_neg hk

/-- Adding a record keeps the keys, or adds that of the record at the end. -/
theorem keys_addToRrSets (x : Rr) (sets : RrSets) : (addToRrSets h x sets).map Prod.fst =
    sets.map Prod.fst ++
      if ∃ e ∈ sets, SameKey h e.1 (x.rname, x.rtype) then [] else [(x.rname, x.rtype)] := by
  induction sets with
  | nil => simp [addToRrSets]
  | cons s sets ih =>
    obtain ⟨key, values⟩ := s
    rw [addToRrSets_cons]
    by_cases hk : SameKey h key (x.rname, x.rtype)
    · rw [if_pos hk, if_pos ⟨_, List.mem_cons_self, hk⟩]
      simp
    · rw [if_neg hk, List.map_cons, ih]
      simp only [List.exists_mem_cons_iff, hk, false_or, List.map_cons, List.cons_append]

/-- Each set after adding a record is a set from before, with the record if it belongs there, or a
new set. -/
theorem mem_addToRrSets {x : Rr} {sets : RrSets}
    (hd : (sets.map Prod.fst).Pairwise fun k k' => ¬ SameKey h k k')
    {e : (DnsLabel × QType) × List Rr} (he : e ∈ addToRrSets h x sets) :
    (∃ e₀ ∈ sets, e = (e₀.1, e₀.2 ++ if SameKey h e₀.1 (x.rname, x.rtype) then [x] else [])) ∨
      (∀ e₀ ∈ sets, ¬ SameKey h e₀.1 (x.rname, x.rtype)) ∧ e = ((x.rname, x.rtype), [x]) := by
  induction sets with
  | nil => exact Or.inr ⟨by simp, List.mem_singleton.mp he⟩
  | cons s sets ih =>
    obtain ⟨key, values⟩ := s
    rw [List.map_cons] at hd
    obtain ⟨hs, hd⟩ := List.pairwise_cons.mp hd
    rw [addToRrSets_cons] at he
    by_cases hk : SameKey h key (x.rname, x.rtype)
    · rw [if_pos hk] at he
      rcases List.mem_cons.mp he with rfl | he
      · exact Or.inl ⟨_, List.mem_cons_self, by rw [if_pos hk]⟩
      · refine Or.inl ⟨e, List.mem_cons_of_mem _ he, ?_⟩
        have hne : ¬ SameKey h e.1 (x.rname, x.rtype) := fun hk' =>
          hs e.1 (List.mem_map_of_mem he) ⟨hk.1.trans hk'.1.symm, hk.2.trans hk'.2.symm⟩
        rw [if_neg hne, List.append_nil]
    · rw [if_neg hk] at he
      rcases List.mem_cons.mp he with rfl | he
      · exact Or.inl ⟨_, List.mem_cons_self, by rw [if_neg hk, List.append_nil]⟩
      · rcases ih hd he with ⟨e₀, he₀, heq⟩ | ⟨hno, heq⟩
        · exact Or.inl ⟨e₀, List.mem_cons_of_mem _ he₀, heq⟩
        · refine Or.inr ⟨fun e₀ he₀ => ?_, heq⟩
          rcases List.mem_cons.mp he₀ with rfl | he₀
          · exact hk
          · exact hno e₀ he₀

theorem listedFor_append (l : List Rr) (x : Rr) (key : DnsLabel × QType) :
    listedFor h (l ++ [x]) key =
      listedFor h l key ++ if SameKey h key (x.rname, x.rtype) then [x] else [] := by
  unfold listedFor
  rw [List.filter_append, List.filter_singleton]
  by_cases hk : SameKey h key (x.rname, x.rtype)
  · simp [hk]
  · simp [hk]

theorem Grouped.add {l : List Rr} {sets : RrSets} (hg : Grouped h l sets) (x : Rr) :
    Grouped h (l ++ [x]) (addToRrSets h x sets) := by
  have hself : SameKey h (x.rname, x.rtype) (x.rname, x.rtype) := ⟨rfl, rfl⟩
  have hnone : (∀ e ∈ sets, ¬ SameKey h e.1 (x.rname, x.rtype)) →
      listedFor h l (x.rname, x.rtype) = [] := by
    intro hno
    refine List.filter_eq_nil_iff.mpr fun y hy hk => ?_
    obtain ⟨e, he, hk'⟩ := hg.covers y hy
    have hk := of_decide_eq_true hk
    exact hno e he ⟨hk'.1.trans hk.1.symm, hk'.2.trans hk.2.symm⟩
  refine ⟨?_, fun e he => ?_, fun e he => ?_, fun y hy => ?_⟩
  · rw [keys_addToRrSets]
    split_ifs with hex
    · rw [List.append_nil]; exact hg.distinct
    · refine List.pairwise_append.mpr ⟨hg.distinct, List.pairwise_singleton _ _, ?_⟩
      intro k hk k' hk'
      obtain ⟨e, he, rfl⟩ := List.mem_map.mp hk
      rw [List.mem_singleton.mp hk']
      exact fun hsame => hex ⟨e, he, hsame⟩
  · rcases mem_addToRrSets hg.distinct he with ⟨e₀, he₀, rfl⟩ | ⟨hno, rfl⟩
    · rw [listedFor_append, ← hg.values e₀ he₀]
    · rw [listedFor_append, hnone hno, if_pos hself]; rfl
  · rcases mem_addToRrSets hg.distinct he with ⟨e₀, he₀, rfl⟩ | ⟨hno, rfl⟩
    · obtain ⟨v, vs, hv, hkey⟩ := hg.head e₀ he₀
      exact ⟨v, _, by rw [hv]; rfl, hkey⟩
    · exact ⟨x, [], rfl, rfl⟩
  · have hkeys : ∃ k ∈ (addToRrSets h x sets).map Prod.fst, SameKey h k (y.rname, y.rtype) := by
      rw [keys_addToRrSets]
      rcases List.mem_append.mp hy with hy | hy
      · obtain ⟨e, he, hk⟩ := hg.covers y hy
        exact ⟨e.1, List.mem_append_left _ (List.mem_map_of_mem he), hk⟩
      · rw [List.mem_singleton.mp hy]
        by_cases hex : ∃ e ∈ sets, SameKey h e.1 (x.rname, x.rtype)
        · obtain ⟨e, he, hk⟩ := hex
          exact ⟨e.1, List.mem_append_left _ (List.mem_map_of_mem he), hk⟩
        · rw [if_neg hex]
          exact ⟨_, List.mem_append_right _ List.mem_cons_self, hself⟩
    obtain ⟨k, hk, hsame⟩ := hkeys
    obtain ⟨e, he, rfl⟩ := List.mem_map.mp hk
    exact ⟨e, he, hsame⟩

/-- **The first loop groups the listed records by name and type.** -/
theorem grouped_rrSetsOf (l : List Rr) : Grouped h l (rrSetsOf h l) := by
  induction l using List.reverseRecOn with
  | nil => exact ⟨List.Pairwise.nil, by simp [rrSetsOf], by simp [rrSetsOf], by simp⟩
  | append_singleton l x ih =>
    unfold rrSetsOf
    rw [List.foldl_append]
    exact ih.add x

end

/-! ### The comparison of an RRset -/

/-- Records that all are the same, but for the letter case of names. -/
def Uniform (rrs : List Rr) : Prop :=
  rrs.IsChain fun r s => r.rname.Eqv s.rname ∧ r.rdata.eq s.rdata = true

/-- A list is sorted only if there is nothing to sort. -/
theorem sortRrs_eq_ok {rrs rrs' : List Rr} :
    sortRrs rrs = .ok rrs' ↔ Uniform rrs ∧ rrs' = rrs := by
  induction rrs generalizing rrs' with
  | nil => exact ⟨fun heq => ⟨.nil, (Except.ok.inj heq).symm⟩, fun hu => by rw [hu.2]; rfl⟩
  | cons r rrs ih =>
    rcases rrs with _ | ⟨s, rest⟩
    · exact ⟨fun heq => ⟨.singleton r, (Except.ok.inj heq).symm⟩, fun hu => by rw [hu.2]; rfl⟩
    · have hu : Uniform (r :: s :: rest) ↔
          (r.rname.Eqv s.rname ∧ r.rdata.eq s.rdata = true) ∧ Uniform (s :: rest) :=
        List.isChain_cons_cons
      unfold sortRrs
      by_cases hc : r.rname.Eqv s.rname ∧ r.rdata.eq s.rdata
      · rw [if_pos hc, hu]
        constructor
        · intro heq
          rcases hs : sortRrs (s :: rest) with e | l
          · rw [hs] at heq; cases heq
          · rw [hs] at heq
            obtain ⟨hun, rfl⟩ := ih.mp hs
            exact ⟨⟨hc, hun⟩, (Except.ok.inj heq).symm⟩
        · rintro ⟨⟨-, hun⟩, rfl⟩
          rw [ih.mpr ⟨hun, rfl⟩]; rfl
      · rw [if_neg hc, hu]
        refine iff_of_false (by simp) ?_
        rintro ⟨⟨hc', -⟩, -⟩
        exact hc hc'

section
variable (h : Host) (st : Store) (zone : Zone) (zoneName : DnsLabel)

/-- The lookup of a name and type answers with these records. -/
def Answered (key : DnsLabel × QType) (found : List Rr) : Prop :=
  (run (foundRrs h st zone (recordNameOrAt key.1 zoneName) key.1 key.2) []).1 = .ok found

/-- The listed records of a name and type are those that the lookup answers with, and there is only
one to list, as often as it is answered. -/
def SetHolds (key : DnsLabel × QType) (values : List Rr) : Prop :=
  ∃ found, Answered h st zone zoneName key found ∧ Uniform values ∧ Uniform found ∧
    sameRrs values found = true

variable {h st zone zoneName}

theorem foundRrs_result (h : Host) (st : Store) (zone : Zone) (recordName rname : DnsLabel) (t : QType) (s s' : List Rr) :
    (run (foundRrs h st zone recordName rname t) s).1 =
      (run (foundRrs h st zone recordName rname t) s').1 := by
  unfold foundRrs
  rcases lookupFunc t with _ | f
  · dsimp only
    by_cases ht : t = .cname
    · rw [if_pos ht, run_bind, run_bind, run_ofResult, run_ofResult]
      rcases findRecords st .cname recordName zone with e | records
      · rfl
      rcases records with _ | ⟨record, _⟩
      · rfl
      dsimp only
      rw [run_bind, run_bind, run_ofResult, run_ofResult]
      rcases toRr h record rname with e | rr <;> rfl
    · rw [if_neg ht]; rfl
  · dsimp only
    rcases run (lookup h st t h.recursionLimit f recordName zone rname) ⟨[], [], [], .noerror⟩ with
      ⟨e | u, res⟩ <;> rfl

theorem rrSetPrerequisite_state (key : DnsLabel × QType) (values : List Rr) (s s' : List Rr) :
    (run (rrSetPrerequisite h st zone zoneName (key, values)) s).1 =
      (run (rrSetPrerequisite h st zone zoneName (key, values)) s').1 := by
  unfold rrSetPrerequisite
  rw [run_bind, run_bind, run_calling, run_calling]
  have hsame := foundRrs_result h st zone (recordNameOrAt key.1 zoneName) key.1 key.2 s s'
  rcases hf : run (foundRrs h st zone (recordNameOrAt key.1 zoneName) key.1 key.2) s with ⟨r, t⟩
  rcases hf' : run (foundRrs h st zone (recordNameOrAt key.1 zoneName) key.1 key.2) s' with ⟨r', t'⟩
  obtain rfl : r = r' := by rw [hf, hf'] at hsame; exact hsame
  rcases r with e | found
  · rfl
  dsimp only [Except.mapError]
  rw [run_bind, run_bind, run_orRaise, run_orRaise]
  rcases sortRrs values with e | values'
  · rfl
  dsimp only [Except.mapError]
  rw [run_bind, run_bind, run_orRaise, run_orRaise]
  rcases sortRrs found with e | found'
  · rfl
  dsimp only [Except.mapError]
  split_ifs <;> rfl

theorem rrSetPrerequisite_result (key : DnsLabel × QType) (values : List Rr) (s : List Rr) :
    (run (rrSetPrerequisite h st zone zoneName (key, values)) s).1 = .ok () ↔
      SetHolds h st zone zoneName key values := by
  unfold rrSetPrerequisite SetHolds Answered
  rw [run_bind, run_calling, foundRrs_result _ _ _ _ _ _ [] s]
  rcases hf : run (foundRrs h st zone (recordNameOrAt key.1 zoneName) key.1 key.2) s with ⟨e | found, t⟩
  · simp [Except.mapError]
  dsimp only [Except.mapError]
  rw [run_bind, run_orRaise]
  rcases hv : sortRrs values with e | values'
  · have hnot : ¬ Uniform values := fun hu => by
      rw [sortRrs_eq_ok.mpr ⟨hu, rfl⟩] at hv; cases hv
    simp [Except.mapError, hnot]
  obtain ⟨hu, rfl⟩ := sortRrs_eq_ok.mp hv
  dsimp only [Except.mapError]
  rw [run_bind, run_orRaise]
  rcases hs : sortRrs found with e | found'
  · have hnot : ¬ Uniform found := fun hu => by
      rw [sortRrs_eq_ok.mpr ⟨hu, rfl⟩] at hs; cases hs
    simp [Except.mapError, hnot]
  obtain ⟨hu', rfl⟩ := sortRrs_eq_ok.mp hs
  dsimp only [Except.mapError]
  by_cases hsame : sameRrs values' found' = true
  · simp [hsame, hu, hu']
  · simp [hsame]

end

/-! ### The stage -/

section
variable (h : Host) (st : Store) (zone : Zone) (zoneName zoneRoot : DnsLabel)

/-- A prerequisite of RFC 2136, section 3.2, about a name of the zone and a type of the update
stage. -/
structure WellFormed (rr : Rr) : Prop where
  ttl : rr.ttl = 0
  inZone : rr.rname.matchSuffix zoneName = true
  form : (rr.rclass = .any ∨ rr.rclass = .none) ∧ rr.rdata = .empty ∧
      (rr.rtype = .any ∨ rr.rtype ∈ supportedTypes) ∨
    rr.rclass = .in ∧ rr.rtype ∈ supportedTypes ∧ ∃ wire, rrWire h rr = some wire

/-- The handler passes the prerequisite stage. -/
def Passes (prset : List Rr) : Prop :=
  ∃ answers, run (prerequisites h st zone zoneName prset) [] = (.ok (), answers)

/-- The name is in use: it is the zone's own, which has its SOA record, or a stored record is
published there. -/
def InUse (owner : DnsLabel) : Prop :=
  owner.Eqv zoneRoot ∨ ∃ r ∈ st.records, r.zone = zone.id ∧ PublishedAt h zoneRoot r owner ∧
    PublishedWith h st zone zoneRoot r fun _ => True

/-- The stored RRset of the name and type: the rdata that is published. -/
def rrSet (owner : DnsLabel) (t : QType) : Set Bytes :=
  { wire | ∃ r ∈ st.records, r.zone = zone.id ∧ PublishedAt h zoneRoot r owner ∧
    PublishedWith h st zone zoneRoot r fun record =>
      record.1 = t ∧ readRdata zoneRoot.label record = some wire }

/-- There is a stored record of the name and type. -/
def HasRrSet (owner : DnsLabel) (t : QType) : Prop :=
  ∃ r ∈ st.records, r.zone = zone.id ∧ PublishedAt h zoneRoot r owner ∧
    PublishedWith h st zone zoneRoot r fun record => record.1 = t

/-- The rdata that the section lists for the name and type of a record. -/
def listedRdata (prset : List Rr) (rr : Rr) : Set Bytes :=
  { wire | ∃ x ∈ prset, x.rclass = .in ∧ x.rname.Eqv rr.rname ∧ x.rtype = rr.rtype ∧
    rrWire h x = some wire }

/-- What a class ANY or NONE prerequisite asks about. -/
def Exists (rr : Rr) : Prop :=
  if rr.rtype = .any then InUse h st zone zoneRoot rr.rname
  else HasRrSet h st zone zoneRoot rr.rname rr.rtype

/-- **What a prerequisite means.** -/
def Met (prset : List Rr) (rr : Rr) : Prop :=
  match rr.rclass with
  | .any => Exists h st zone zoneRoot rr
  | .none => ¬ Exists h st zone zoneRoot rr
  | .in => rrSet h st zone zoneRoot rr.rname rr.rtype = listedRdata h prset rr
  | .other _ => False

/-- A row is counted for what a prerequisite asks about. -/
def Found (rr : Rr) : Prop :=
  ∃ r ∈ st.records,
    if rr.rtype = .any then Counted h zone (recordNameOrAt rr.rname zoneName) r
    else CountedOf st zone (recordNameOrAt rr.rname zoneName) rr.rtype r

/-- The records listed with the name and type of one of them. -/
def listedWith (prset : List Rr) (rr : Rr) : List Rr :=
  listedFor h (prset.filter fun x => x.rclass = .in) (rr.rname, rr.rtype)

/-- **What the handler takes a prerequisite for**: labels that are not UTF-8 raise. -/
def Judged (prset : List Rr) (rr : Rr) : Prop :=
  match rr.rclass with
  | .any => (∃ s, (recordNameOrAt rr.rname zoneName).searchName = .ok s) ∧
      Found h st zone zoneName rr
  | .none => (∃ s, (recordNameOrAt rr.rname zoneName).searchName = .ok s) ∧
      ¬ Found h st zone zoneName rr
  | .in => SetHolds h st zone zoneName (((listedWith h prset rr).headD rr).rname, rr.rtype)
      (listedWith h prset rr)
  | .other _ => False

variable {h st zone zoneName zoneRoot}

theorem anyOfType_eq_ok {rr : Rr} (ht : rr.rtype = .any ∨ rr.rtype ∈ supportedTypes) {b : Bool} :
    anyOfType h st (recordNameOrAt rr.rname zoneName) zone rr.rtype = .ok b ↔
      (∃ s, (recordNameOrAt rr.rname zoneName).searchName = .ok s) ∧
        (b = true ↔ Found h st zone zoneName rr) := by
  unfold anyOfType Found
  by_cases hany : rr.rtype = .any
  · rw [if_pos hany, anyRecords_eq_ok]
    simp only [if_pos hany]
  · rw [if_neg hany, anyRecordType_eq_ok (ht.resolve_left hany)]
    simp only [if_neg hany]

/-- The first loop on one prerequisite. -/
theorem prerequisite_eq_ok {rr : Rr} (hwf : WellFormed h zoneName rr) {sets sets' : RrSets}
    (prset : List Rr) : prerequisite h st zone zoneName sets rr = .ok sets' ↔
      (rr.rclass ≠ .in → Judged h st zone zoneName prset rr) ∧
        sets' = if rr.rclass = .in then addToRrSets h rr sets else sets := by
  unfold prerequisite Judged
  rw [if_neg (not_not.mpr hwf.ttl), hwf.inZone]
  rcases hwf.form with ⟨hclass, hempty, ht⟩ | ⟨hclass, -, -⟩
  · have hiff : ∀ b, anyOfType h st (recordNameOrAt rr.rname zoneName) zone rr.rtype = .ok b ↔
        (∃ s, (recordNameOrAt rr.rname zoneName).searchName = .ok s) ∧
          (b = true ↔ Found h st zone zoneName rr) := fun b => anyOfType_eq_ok ht
    rcases hany : anyOfType h st (recordNameOrAt rr.rname zoneName) zone rr.rtype with e | b
    · have hnot : ∀ b, ¬ ((∃ s, (recordNameOrAt rr.rname zoneName).searchName = .ok s) ∧
          (b = true ↔ Found h st zone zoneName rr)) := fun b hb => by
        rw [(hiff b).mpr hb] at hany; cases hany
      have h1 := hnot true
      have h2 := hnot false
      rcases hclass with hclass | hclass <;> rw [hclass] <;>
        simp only [hempty, Bool.not_true, Bool.false_eq_true, if_false, ne_eq, not_true_eq_false,
          reduceCtorEq, not_false_iff, true_implies, false_iff, not_and] <;>
        intro hj <;> exfalso
      · exact h1 ⟨hj.1, by simp [hj.2]⟩
      · exact h2 ⟨hj.1, by simp [hj.2]⟩
    · obtain ⟨hs, hb⟩ := (hiff b).mp hany
      rcases hclass with hclass | hclass <;> rw [hclass] <;>
        simp only [hempty, Bool.not_true, Bool.false_eq_true, if_false, ne_eq, not_true_eq_false,
          reduceCtorEq, not_false_iff, true_implies, hs, true_and, ← hb] <;>
        cases b <;> simp [eq_comm]
  · rw [hclass]
    simp [eq_comm]

/-- The first loop checks the prerequisites of class ANY and NONE and collects the others. -/
theorem foldlM_prerequisite (prset l : List Rr)
    (hwf : ∀ rr ∈ l, WellFormed h zoneName rr) {sets sets' : RrSets} :
    l.foldlM (prerequisite h st zone zoneName) sets = .ok sets' ↔
      (∀ rr ∈ l, rr.rclass ≠ .in → Judged h st zone zoneName prset rr) ∧
        sets' = (l.filter fun x => x.rclass = .in).foldl (fun sets rr => addToRrSets h rr sets) sets := by
  induction l generalizing sets with
  | nil => simp [pure, Except.pure, eq_comm]
  | cons rr l ih =>
    have hrest : ∀ sets, l.foldlM (prerequisite h st zone zoneName) sets = .ok sets' ↔ _ :=
      fun sets => ih fun x hx => hwf x (List.mem_cons_of_mem _ hx)
    rw [List.foldlM_cons, bind_eq_ok]
    simp only [prerequisite_eq_ok (hwf rr List.mem_cons_self) prset, hrest, List.forall_mem_cons]
    by_cases hclass : rr.rclass = .in
    · simp [hclass]
    · simp [hclass, and_assoc]

theorem listedFor_congr {l : List Rr} {k k' : DnsLabel × QType} (hk : SameKey h k k') :
    listedFor h l k = listedFor h l k' := by
  refine List.filter_congr fun x _ => decide_eq_decide.mpr ?_
  exact ⟨fun hx => ⟨hk.1.symm.trans hx.1, hk.2.symm.trans hx.2⟩,
    fun hx => ⟨hk.1.trans hx.1, hk.2.trans hx.2⟩⟩

/-- The sets are compared alike, one by one or record by record. -/
theorem sets_hold_iff (prset : List Rr) :
    (∀ e ∈ rrSetsOf h (prset.filter fun x => x.rclass = .in), SetHolds h st zone zoneName e.1 e.2) ↔
      ∀ rr ∈ prset, rr.rclass = .in → Judged h st zone zoneName prset rr := by
  have hg := grouped_rrSetsOf (h := h) (prset.filter fun x => x.rclass = .in)
  unfold Judged listedWith
  constructor
  · intro hall rr hrr hclass
    rw [hclass]
    obtain ⟨e, he, hk⟩ := hg.covers rr (List.mem_filter.mpr ⟨hrr, decide_eq_true hclass⟩)
    obtain ⟨v, vs, hv, hkey⟩ := hg.head e he
    have hvalues := hg.values e he
    rw [listedFor_congr hk] at hvalues
    have hholds := hall e he
    have htype : v.rtype = rr.rtype := by
      have hk2 := hk.2
      rwa [hkey] at hk2
    dsimp only
    rw [← hvalues, hv, List.headD_cons, ← htype, ← hkey, ← hv]
    exact hholds
  · intro hall e he
    obtain ⟨v, vs, hv, hkey⟩ := hg.head e he
    have hvalues := hg.values e he
    have hmem : v ∈ listedFor h (prset.filter fun x => x.rclass = .in) e.1 := by
      rw [← hvalues, hv]; exact List.mem_cons_self
    obtain ⟨hvp, hclass⟩ := List.mem_filter.mp (List.mem_filter.mp hmem).1
    have hclass : v.rclass = .in := of_decide_eq_true hclass
    have hholds := hall v hvp hclass
    rw [hclass] at hholds
    dsimp only at hholds
    rw [← hkey, ← hvalues, hv, List.headD_cons, ← hv, ← hkey] at hholds
    exact hholds

/-- **The handler passes the stage if it judges each prerequisite to hold.** -/
theorem passes_iff {prset : List Rr} (hwf : ∀ rr ∈ prset, WellFormed h zoneName rr) :
    Passes h st zone zoneName prset ↔ ∀ rr ∈ prset, Judged h st zone zoneName prset rr := by
  have hfold : ∀ sets, prset.foldlM (prerequisite h st zone zoneName) [] = .ok sets ↔ _ :=
    fun sets => foldlM_prerequisite prset prset hwf
  have hloop : ∀ sets : RrSets,
      (∃ answers, run (runAll (rrSetPrerequisite h st zone zoneName) sets) [] = (.ok (), answers)) ↔
        ∀ e ∈ sets, SetHolds h st zone zoneName e.1 e.2 := by
    intro sets
    rw [exists_run_runAll_ok]
    · exact forall₂_congr fun e _ => rrSetPrerequisite_result e.1 e.2 []
    · exact fun e s s' => rrSetPrerequisite_state e.1 e.2 s s'
  have hpasses : Passes h st zone zoneName prset ↔
      ∃ sets, prset.foldlM (prerequisite h st zone zoneName) [] = .ok sets ∧
        ∀ e ∈ sets, SetHolds h st zone zoneName e.1 e.2 := by
    unfold Passes prerequisites
    rw [run_bind, run_ofResult]
    rcases prset.foldlM (prerequisite h st zone zoneName) [] with stop | sets
    · simp
    · simp [hloop]
  rw [hpasses]
  constructor
  · rintro ⟨sets, hsets, hall⟩ rr hrr
    obtain ⟨hother, rfl⟩ := (hfold sets).mp hsets
    by_cases hclass : rr.rclass = .in
    · exact (sets_hold_iff prset).mp hall rr hrr hclass
    · exact hother rr hrr hclass
  · intro hall
    exact ⟨_, (hfold _).mpr ⟨fun rr hrr _ => hall rr hrr, rfl⟩,
      (sets_hold_iff prset).mpr fun rr hrr _ => hall rr hrr⟩

end

/-- **The stage means what RFC 2136 says** of these prerequisites, in whatever order they come. -/
def Faithful (h : Host) (st : Store) (zone : Zone) (prset : List Rr) : Prop :=
  ∀ zoneName zoneRoot, DnsLabel.ofText h.py zone.zoneRoot = .ok zoneRoot → zoneName.Eqv zoneRoot →
    (∀ rr ∈ prset, WellFormed h zoneName rr) → ∀ prset' : List Rr, prset'.Perm prset →
      (Passes h st zone zoneName prset' ↔ ∀ rr ∈ prset, Met h st zone zoneRoot prset rr)

/-- A name and type with two different records listed is always refused. -/
theorem not_judged_of_two {h : Host} {st : Store} {zone : Zone} {zoneName : DnsLabel} {prset : List Rr}
    {rr x y : Rr} (hclass : rr.rclass = .in) (hlist : listedWith h prset rr = [x, y])
    (hne : x.rdata.eq y.rdata = false) : ¬ Judged h st zone zoneName prset rr := by
  unfold Judged
  rw [hclass]
  rintro ⟨found, -, hu, -⟩
  rw [hlist] at hu
  have hxy := (List.isChain_cons_cons.mp hu).1.2
  rw [hne] at hxy
  cases hxy

/-! ### A name that is not there -/

/-- `mail.example` is not to be in use. -/
def mailUnused : Rr := ⟨⟨encode "mail".toList :: exampleRoot.label⟩, .any, .none, 0, .empty⟩

end HexDns.Grpc.Prerequisites
