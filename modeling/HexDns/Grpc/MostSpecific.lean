import HexDns.Grpc.FindZone

/-! # The most specific zone

`find_zone` looks at the roots with the most characters first and takes the first that is a suffix of the
name. Among the suffixes of one name these are the roots with the most labels, if the roots are written
without escapes (`findZone_mostSpecific`): a root is shorter than the roots below it. With an escape it
may be longer (`not_mostSpecific_escaped`), and with a label that is too long for a name no zone after it
is found. -/

namespace HexDns.Grpc.MostSpecific

open HexDns.Lib.Texts HexDns.Lib.Tables HexDns.Lib.Programs HexDns.Base.Py HexDns.Base.Label
  HexDns.Models.Db HexDns.Models.Env HexDns.Grpc.FindZone

/-! ### The statement -/

/-- The labels of a root as it is written. -/
def rootLabels (t : Text) : List Bytes := (t.splitOn '.').map encode

/-- A text in lower-case ASCII, of labels that are not empty. -/
structure LowerRoot (t : Text) : Prop where
  ascii : IsAscii t
  lower : ∀ c ∈ t, lowerChar c = c
  labels : ∀ l ∈ t.splitOn '.', l ≠ []

/-- The text has no escapes, and no label is too long. -/
structure IsRoot (t : Text) : Prop extends LowerRoot t where
  noEscape : '\\' ∉ t
  short : ∀ l ∈ t.splitOn '.', l.length < 64

/-- **The answer is the most specific zone**, with the labels above its root, or nothing if no root is a
suffix of the name. -/
def IsMostSpecific (st : Store) (qname : DnsLabel) : Option (Zone × DnsLabel) → Prop
  | none => ∀ z ∈ st.zones, ¬ rootLabels z.zoneRoot <:+ qname.lower
  | some (z, recordName) => z ∈ st.zones ∧ rootLabels z.zoneRoot <:+ qname.lower ∧
    (∀ w ∈ st.zones, rootLabels w.zoneRoot <:+ qname.lower → w ≠ z →
      (rootLabels w.zoneRoot).length < (rootLabels z.zoneRoot).length) ∧
    recordName = orAt ⟨qname.label.take (qname.label.length - (rootLabels z.zoneRoot).length)⟩

/-! ### The labels of a root -/

section
variable {t u : Text}

theorem rootLabels_ne_nil (t : Text) : rootLabels t ≠ [] := by
  unfold rootLabels
  simp

theorem LowerRoot.ne_nil (ht : LowerRoot t) : t ≠ [] := by
  rintro rfl
  exact ht.labels [] (by decide) rfl

theorem encode_eq_intercalate (t : Text) : encode t = [46].intercalate (rootLabels t) := by
  have hjoin : ['.'].intercalate (t.splitOn '.') = t := List.intercalate_splitOn '.'
  conv_lhs => rw [← hjoin]
  exact flatMap_intercalate String.utf8EncodeChar ['.'] (t.splitOn '.')

theorem mem_of_mem_splitOn {l : Text} (hl : l ∈ t.splitOn '.') : ∀ c ∈ l, c ∈ t := by
  intro c hc
  have hmem := mem_intercalate_of_mem ['.'] hl hc
  rwa [List.intercalate_splitOn] at hmem

/-- A label of an ASCII text has no dot. -/
theorem dot_notMem_rootLabels (ht : IsAscii t) : ∀ b ∈ rootLabels t, 46 ∉ b := by
  intro b hb hmem
  obtain ⟨l, hl, rfl⟩ := List.mem_map.mp hb
  obtain ⟨c, hc, hbyte⟩ := List.mem_flatMap.mp hmem
  have hlt := ht c (mem_of_mem_splitOn hl c hc)
  rw [utf8EncodeChar_ascii hlt, List.mem_singleton] at hbyte
  have hval : c.toNat = 46 := by
    have := congrArg UInt8.toNat hbyte
    simp at this
    omega
  have hdot : c = '.' := Char.toNat_inj.mp hval
  exact not_mem_of_mem_splitOn hl (hdot ▸ hc)

theorem splitOn_encode (ht : IsAscii t) : (encode t).splitOn 46 = rootLabels t := by
  rw [encode_eq_intercalate]
  exact List.splitOn_intercalate 46 (dot_notMem_rootLabels ht) (rootLabels_ne_nil t)

/-- The last byte of a text is not a dot if its last label is not empty. -/
theorem rdropWhile_encode (hascii : IsAscii t) (hlabels : ∀ l ∈ t.splitOn '.', l ≠ []) :
    (encode t).rdropWhile (· = 46) = encode t := by
  refine List.rdropWhile_eq_self_iff.mpr fun hne => ?_
  obtain ⟨b, hb⟩ : ∃ b, (rootLabels t).getLast? = some b :=
    ⟨_, List.getLast?_eq_some_getLast (rootLabels_ne_nil t)⟩
  obtain ⟨pre, hpre⟩ := List.getLast?_eq_some_iff.mp hb
  have hmem : b ∈ rootLabels t := hpre ▸ List.mem_append_right _ (List.mem_singleton.mpr rfl)
  have hb : b ≠ [] := by
    obtain ⟨l, hl, rfl⟩ := List.mem_map.mp hmem
    have := length_le_encode l
    have := List.length_pos_iff.mpr (hlabels l hl)
    exact List.ne_nil_of_length_pos (by omega)
  have hsuffix : b <:+ encode t := by
    rw [encode_eq_intercalate, hpre]
    have hlast : [b] <:+ pre ++ [b] := List.suffix_append _ _
    rcases intercalate_suffix [46] hlast (List.cons_ne_nil _ _) with heq | hsuffix
    · rw [heq, List.intercalate_singleton]
    · rw [List.intercalate_singleton] at hsuffix
      exact (List.suffix_append _ _).trans hsuffix
  rw [← hsuffix.getLast hb]
  have hdot := dot_notMem_rootLabels hascii b hmem
  have hlast := List.getLast_mem hb
  intro heq
  exact hdot (of_decide_eq_true heq ▸ hlast)

/-- **A name is that of its labels**, once its escapes are read. -/
theorem ofText_unescape (py : Python) (hu : unescape t = u) (hascii : IsAscii u)
    (hlabels : ∀ l ∈ u.splitOn '.', 0 < l.length ∧ l.length < 64) :
    DnsLabel.ofText py t = .ok ⟨rootLabels u⟩ := by
  have hnil : t ≠ [] := by
    rintro rfl
    rw [← hu] at hlabels
    exact absurd (hlabels [] (by decide)).1 (by decide)
  have hdot : t ≠ ['.'] := by
    rintro rfl
    rw [← hu] at hlabels
    exact absurd (hlabels [] (by decide)).1 (by decide)
  have hlabel : ∀ b ∈ rootLabels u, 0 < b.length ∧ b.length < 64 := by
    intro b hb
    obtain ⟨l, hl, rfl⟩ := List.mem_map.mp hb
    have hascii : IsAscii l := fun c hc => hascii c (mem_of_mem_splitOn hl c hc)
    rw [length_encode_eq_iff.mpr hascii]
    exact hlabels l hl
  have hidna : encodeIdnaAscii u = .ok (encode u) := by
    unfold encodeIdnaAscii
    dsimp only
    rw [splitOn_encode hascii]
    refine if_pos ⟨fun b hb => hlabel b (List.dropLast_subset _ hb), ?_⟩
    rw [List.getLastD_eq_getLast?, List.getLast?_eq_some_getLast (rootLabels_ne_nil u)]
    exact (hlabel _ (List.getLast_mem (rootLabels_ne_nil u))).2
  unfold DnsLabel.ofText
  rw [if_neg (not_or.mpr ⟨hnil, hdot⟩), hu]
  refine bind_eq_ok.mpr ⟨encode u, ?_, ?_⟩
  · unfold encodeIdna
    rw [if_pos hascii]
    exact hidna
  · rw [rdropWhile_encode hascii fun l hl => List.ne_nil_of_length_pos (hlabels l hl).1, splitOn_encode hascii]
    rfl

/-- **A root is the name of its labels.** -/
theorem ofText_isRoot (py : Python) (ht : IsRoot t) : DnsLabel.ofText py t = .ok ⟨rootLabels t⟩ :=
  ofText_unescape py (unescape_eq_self ht.noEscape) ht.ascii fun l hl =>
    ⟨List.length_pos_iff.mpr (ht.labels l hl), ht.short l hl⟩

theorem lower_rootLabels (ht : ∀ c ∈ t, lowerChar c = c) : DnsLabel.lower ⟨rootLabels t⟩ = rootLabels t := by
  refine (List.map_congr_left fun b hb => ?_).trans (List.map_id _)
  obtain ⟨l, hl, rfl⟩ := List.mem_map.mp hb
  have hl' : l.map lowerChar = l := (List.map_congr_left fun c hc =>
    ht c (mem_of_mem_splitOn hl c hc)).trans (List.map_id l)
  rw [← encode_lower, hl']
  rfl

theorem rootLabels_inj (h : rootLabels t = rootLabels u) : t = u := by
  refine encode_inj ?_
  rw [encode_eq_intercalate, encode_eq_intercalate, h]

/-- **A root is shorter than the roots below it.** -/
theorem length_lt_of_suffix (ht : IsAscii t) (hu : IsAscii u) (h : rootLabels t <:+ rootLabels u)
    (hne : rootLabels t ≠ rootLabels u) : t.length < u.length := by
  have hlen : (encode t).length < (encode u).length := by
    rcases intercalate_suffix [46] h (rootLabels_ne_nil t) with heq | hsuffix
    · rw [← encode_eq_intercalate, ← encode_eq_intercalate] at heq
      exact absurd (by rw [encode_inj heq]) hne
    · rw [← encode_eq_intercalate, ← encode_eq_intercalate] at hsuffix
      have hle := hsuffix.length_le
      rw [List.length_append, List.length_singleton] at hle
      omega
  rwa [length_encode_eq_iff.mpr ht, length_encode_eq_iff.mpr hu] at hlen

end

/-! ### The search -/

section
variable {h : Host} {st : Store} {qname : DnsLabel}

theorem matchSuffix_isRoot {t : Text} (ht : IsRoot t) :
    qname.matchSuffix ⟨rootLabels t⟩ = true ↔ rootLabels t <:+ qname.lower := by
  rw [matchSuffix_iff, lower_rootLabels ht.toLowerRoot.lower]
  exact and_iff_left fun hnil => absurd hnil (rootLabels_ne_nil t)

/-- The search through zones with such roots: the first that is a suffix, if any. -/
theorem findZoneIn_isRoot (qname : DnsLabel) {zones : List Zone} (hroots : ∀ z ∈ zones, IsRoot z.zoneRoot)
    (hactive : ∀ z ∈ zones, h.owner z.id = .active true) :
    (findZoneIn h qname zones = .ok none ∧ ∀ z ∈ zones, ¬ rootLabels z.zoneRoot <:+ qname.lower) ∨
    ∃ before z after, zones = before ++ z :: after ∧ rootLabels z.zoneRoot <:+ qname.lower ∧
      (∀ w ∈ before, ¬ rootLabels w.zoneRoot <:+ qname.lower) ∧
      findZoneIn h qname zones = .ok (some (z, orAt (qname.stripSuffix ⟨rootLabels z.zoneRoot⟩))) := by
  induction zones with
  | nil => exact Or.inl ⟨rfl, fun z hz => (nomatch hz)⟩
  | cons z zones ih =>
    have hroot := hroots z List.mem_cons_self
    have hstep : findZoneIn h qname (z :: zones) =
        if qname.matchSuffix ⟨rootLabels z.zoneRoot⟩ then
          .ok (some (z, orAt (qname.stripSuffix ⟨rootLabels z.zoneRoot⟩)))
        else findZoneIn h qname zones := by
      show (DnsLabel.ofText h.py z.zoneRoot >>= _) = _
      rw [ofText_isRoot h.py hroot]
      show (if _ then match h.owner z.id with | _ => _ else _) = _
      rw [hactive z List.mem_cons_self]
      rfl
    rw [hstep]
    by_cases hmatch : rootLabels z.zoneRoot <:+ qname.lower
    · right
      refine ⟨[], z, zones, rfl, hmatch, fun w hw => (nomatch hw), ?_⟩
      rw [if_pos ((matchSuffix_isRoot hroot).mpr hmatch)]
    · rw [if_neg fun hm => hmatch ((matchSuffix_isRoot hroot).mp hm)]
      rcases ih (fun w hw => hroots w (List.mem_cons_of_mem z hw))
        fun w hw => hactive w (List.mem_cons_of_mem z hw) with ⟨hnone, hall⟩ |
          ⟨before, z', after, rfl, hz', hbefore, hfound⟩
      · exact Or.inl ⟨hnone, List.forall_mem_cons.mpr ⟨hmatch, hall⟩⟩
      · exact Or.inr ⟨z :: before, z', after, rfl, hz', List.forall_mem_cons.mpr ⟨hmatch, hbefore⟩, hfound⟩

/-- **The zone that is found is the most specific one.** -/
theorem findZone_mostSpecific (hroots : ∀ z ∈ st.zones, IsRoot z.zoneRoot)
    (hdistinct : ∀ z ∈ st.zones, ∀ w ∈ st.zones, z.zoneRoot = w.zoneRoot → z = w)
    (hactive : ∀ z ∈ st.zones, h.owner z.id = .active true) :
    ∃ r, findZone h st qname = .ok r ∧ IsMostSpecific st qname r := by
  have hmem : ∀ z ∈ zonesByLength st, z ∈ st.zones := fun z hz => mem_zonesByLength.mp hz
  have hsorted : (zonesByLength st).Pairwise fun z w => w.zoneRoot.length ≤ z.zoneRoot.length :=
    List.pairwise_insertionSort _ _
  rcases findZoneIn_isRoot qname (fun z hz => hroots z (hmem z hz))
    fun z hz => hactive z (hmem z hz) with ⟨hnone, hall⟩ | ⟨before, z, after, hsplit, hz, hbefore, hfound⟩
  · exact ⟨none, hnone, fun z hz => hall z (mem_zonesByLength.mpr hz)⟩
  have hzmem : z ∈ st.zones := hmem z (hsplit ▸ List.mem_append_right _ List.mem_cons_self)
  refine ⟨_, hfound, hzmem, hz, fun w hw hsuffix hne => ?_, ?_⟩
  · have hw' : w ∈ before ++ z :: after := hsplit ▸ mem_zonesByLength.mpr hw
    have hlabels : rootLabels w.zoneRoot ≠ rootLabels z.zoneRoot := fun heq =>
      hne (hdistinct w hw z hzmem (rootLabels_inj heq))
    have hafter : w ∈ after := by
      rcases List.mem_append.mp hw' with hmem' | hmem'
      · exact absurd hsuffix (hbefore w hmem')
      · exact (List.mem_cons.mp hmem').resolve_left hne
    -- a later root does not have more characters, so it is not below this one
    have hlen : w.zoneRoot.length ≤ z.zoneRoot.length := by
      rw [hsplit] at hsorted
      exact List.rel_of_pairwise_cons (List.pairwise_append.mp hsorted).2.1 hafter
    rcases List.suffix_or_suffix_of_suffix hsuffix hz with hle | hle
    · have hlt := hle.length_le
      have hne' : (rootLabels w.zoneRoot).length ≠ (rootLabels z.zoneRoot).length := fun heq =>
        hlabels (hle.eq_of_length heq)
      omega
    · have := length_lt_of_suffix (hroots z hzmem).ascii (hroots w hw).ascii hle (Ne.symm hlabels)
      omega
  · have hmatch := (matchSuffix_isRoot (hroots z hzmem)).mpr hz
    have hpos : (rootLabels z.zoneRoot).length ≠ 0 := fun hnil =>
      rootLabels_ne_nil _ (List.length_eq_zero_iff.mp hnil)
    unfold DnsLabel.stripSuffix butLastN
    rw [if_pos hmatch, if_neg hpos]

end

/-! ### Zones of one name -/

/-- A database of two zones. -/
def twoRoots (root root' : Text) : Store :=
  { Store.empty with zones := (Table.empty.save ⟨1, root, false⟩).save ⟨2, root', false⟩ }

def nameOf (labels : List String) : DnsLabel := ⟨labels.map fun l => encode l.toList⟩

theorem mostSpecific_nested : ∃ r, findZone .ascii (twoRoots "example.com".toList "sub.example.com".toList)
    (nameOf ["WWW", "Sub", "Example", "com"]) = .ok r ∧
      IsMostSpecific (twoRoots "example.com".toList "sub.example.com".toList)
        (nameOf ["WWW", "Sub", "Example", "com"]) r := by
  refine findZone_mostSpecific (fun z hz => ?_) (by decide) (fun z _ => rfl)
  rcases List.mem_pair.mp hz with rfl | rfl
  · exact ⟨⟨by decide, by decide, by decide⟩, by decide, by decide⟩
  · exact ⟨⟨by decide, by decide, by decide⟩, by decide, by decide⟩

/-- The root with an escape is `a.com`, and has more characters than `b.a.com`. The root with a label of 64
characters stops the search. -/
theorem not_mostSpecific_escaped :
    (∀ root ∈ [("b.a.com", "\\097.com"), ("com", String.ofList (List.replicate 64 'a') ++ ".com")],
      LowerRoot root.1.toList ∧ LowerRoot root.2.toList ∧ root.1.toList ≠ root.2.toList) ∧
    (¬ ∃ r, findZone .ascii (twoRoots "b.a.com".toList "\\097.com".toList) (nameOf ["b", "a", "com"]) = .ok r ∧
      IsMostSpecific (twoRoots "b.a.com".toList "\\097.com".toList) (nameOf ["b", "a", "com"]) r) ∧
    ¬ ∃ r, findZone .ascii (twoRoots "com".toList (List.replicate 64 'a' ++ ".com".toList))
        (nameOf ["www", "com"]) = .ok r ∧
      IsMostSpecific (twoRoots "com".toList (List.replicate 64 'a' ++ ".com".toList)) (nameOf ["www", "com"]) r := by
  have hfound : findZone .ascii (twoRoots "b.a.com".toList "\\097.com".toList) (nameOf ["b", "a", "com"]) =
      .ok (some (⟨2, "\\097.com".toList, false⟩, nameOf ["b"])) := by decide
  have hstops : findZone .ascii (twoRoots "com".toList (List.replicate 64 'a' ++ ".com".toList))
      (nameOf ["www", "com"]) = .error .unicodeError := by decide
  refine ⟨?_, ?_, ?_⟩
  · intro root hroot
    rcases List.mem_pair.mp hroot with rfl | rfl
    · exact ⟨⟨by decide, by decide, by decide⟩, ⟨by decide, by decide, by decide⟩, by decide⟩
    · exact ⟨⟨by decide, by decide, by decide⟩, ⟨by decide, by decide, by decide⟩,
        by decide⟩
  · rintro ⟨r, hr, hspecific⟩
    obtain rfl := Except.ok.inj (hfound.symm.trans hr)
    exact absurd hspecific.2.1 (by decide)
  · rintro ⟨r, hr, -⟩
    rw [hstops] at hr
    cases hr

end HexDns.Grpc.MostSpecific
