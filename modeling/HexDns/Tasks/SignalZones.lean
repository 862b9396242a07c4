import HexDns.Tasks.Lines

/-! # The signalling zones

`update_signal_zones` writes for each name server a zone `_signal.<nameserver>` with the CDS and CDNSKEY
records of the forward zones. Their owner is written relative to that zone and ends with `_signal`
again, so that no record is where a resolver looks for it (`mirrors_iff`). -/

namespace HexDns.Tasks.SignalZones

open HexDns.Lib.Texts HexDns.Lib.MasterFile HexDns.Lib.Tables HexDns.Lib.Programs HexDns.Base.Py
  HexDns.Base.Codecs HexDns.Base.Label HexDns.Models.Db HexDns.Models.Env HexDns.Models.Names
  HexDns.Tasks.ZoneFile HexDns.Tasks.Lines

section
variable (h : Host)

/-- `f"_dsboot.{str(cds_zone_root)}_signal"` -/
def dsbootText (cdsZoneRoot : DnsLabel) : Text :=
  "_dsboot.".toList ++ cdsZoneRoot.toText ++ "_signal".toList

/-- What `update_signal_zones` writes for a zone. -/
def zoneSection (st : Store) (zone : Zone) : Except PyErr Text :=
  if rootPattern zone.zoneRoot then do
    let cdsZoneRoot ← DnsLabel.ofText h.py zone.zoneRoot
    let cds ← cdsText h st zone cdsZoneRoot (dsbootText cdsZoneRoot)
    return line ["; Zone ".toList, showNat zone.id] ++ cds
  else .ok []

/-- The SOA and NS lines of a signalling zone. -/
def signalHeader (time : ℕ) : Text :=
  soaLine (nameservers.headD []) time "86400 3600 3600000 3600".toList ++
    nameservers.flatMap (recordLine ['@'] 86400 "NS".toList)

/-- The file of `update_signal_zones` for a name server at the time `time` in seconds. -/
def signalZone (st : Store) (time : ℕ) (ns : Text) : Except PyErr Text := do
  let zoneRoot ← DnsLabel.ofText h.py ("_signal.".toList ++ ns)
  let sections ← st.zones.rows.mapM (zoneSection h st)
  return line ["$ORIGIN ".toList, zoneRoot.toText] ++ (signalHeader time ++ sections.flatten)

end

/-! ### Names of the zones -/

/-- A character of a root that is published, the newline at its end apart. -/
def isRootChar (c : Char) : Bool := c.isAlpha || c.isDigit || c = '-' || c = '.' || c = '\n'

theorem isRootChar_of_rootPattern {t : Text} (h : rootPattern t = true) : ∀ c ∈ t, isRootChar c := by
  unfold rootPattern at h
  intro c hc
  by_cases hlast : t.getLast? = some '\n'
  · simp only [hlast, if_true, Bool.and_eq_true, List.all_eq_true] at h
    obtain ⟨u, rfl⟩ := List.getLast?_eq_some_iff.mp hlast
    rcases List.mem_append.mp hc with hc | hc
    · have := h.2 c (by simpa using hc)
      simp only [isRootChar, this, Bool.true_or]
    · rw [List.mem_singleton.mp hc]
      rfl
  · simp only [hlast, if_false, Bool.and_eq_true, List.all_eq_true] at h
    have := h.2 c hc
    simp only [isRootChar, this, Bool.true_or]

theorem toNat_of_isRootChar {c : Char} (h : isRootChar c) :
    c.toNat < 128 ∧ c.toNat ∉ [34, 40, 41, 59, 92, 95] := by
  simp only [isRootChar, Bool.or_eq_true, decide_eq_true_eq, isAlpha_iff, isDigit_iff] at h
  rcases h with (((h | h) | rfl) | rfl) | rfl
  · simp only [List.mem_cons, List.not_mem_nil, or_false]
    omega
  · simp only [List.mem_cons, List.not_mem_nil, or_false]
    omega
  · decide
  · decide
  · decide

/-- The labels of a root that is published are clean, and have no underscore. -/
theorem labels_of_root {py : Python} {t : Text} {l : DnsLabel} (ht : rootPattern t = true)
    (h : DnsLabel.ofText py t = .ok l) : ∀ b ∈ l.label, ∀ x ∈ b, CleanByte x ∧ x ≠ 95 := by
  have hchar : ∀ c ∈ t, c.toNat < 128 ∧ c.toNat ∉ [34, 40, 41, 59, 92, 95] := fun c hc =>
    toNat_of_isRootChar (isRootChar_of_rootPattern ht c hc)
  have hslash : '\\' ∉ t := fun hc => (hchar _ hc).2 (by decide)
  intro b hb x hx
  obtain ⟨hdot, c, hc, rfl⟩ := mem_ofText (fun c hc => (hchar c hc).1) hslash h hb hx
  obtain ⟨hlt, hn⟩ := hchar c hc
  have hval : (UInt8.ofNat c.toNat).toNat = c.toNat := toNat_byteOf hlt
  have h46 : c.toNat ≠ 46 := fun h46 => hdot (by rw [h46]; rfl)
  refine ⟨?_, fun h95 => ?_⟩
  · unfold CleanByte
    rw [hval]
    simp at hn ⊢
    omega
  · rw [h95] at hval
    exact hn (by rw [← hval]; decide)

/-! ### The owner -/

/-- The labels between `_dsboot` and `_signal`. -/
def dsbootLabels (root : DnsLabel) : List Bytes :=
  encode "_dsboot".toList :: ((if root.label = [] then [[]] else root.label) ++
    [encode "_signal".toList])

theorem dsbootText_eq (root : DnsLabel) : dsbootText root = labelsText (dsbootLabels root) := by
  have hfirst : (encode "_dsboot".toList).flatMap showByte = "_dsboot".toList := by decide
  have hlast : (encode "_signal".toList).flatMap showByte = "_signal".toList := by decide
  have hroot : root.toText = labelsText (if root.label = [] then [[]] else root.label) ++ ['.'] := by
    unfold DnsLabel.toText labelsText
    split_ifs with hl
    · rw [hl]
      rfl
    · rfl
  have hne : (if root.label = [] then [[]] else root.label) ≠ [] := by
    split_ifs with hl
    · simp
    · exact hl
  unfold dsbootText dsbootLabels
  rw [hroot]
  generalize (if root.label = [] then [[]] else root.label) = ls at hne ⊢
  have hmap : ls.map (·.flatMap showByte) ≠ [] := by simpa using hne
  unfold labelsText
  rw [List.map_cons, List.map_append, List.intercalate_cons_of_ne_nil (by simp),
    intercalate_append hmap (by simp), List.map_singleton, List.intercalate_singleton, hfirst, hlast]
  simp

theorem clean_dsbootLabels {root : DnsLabel} (h : ∀ b ∈ root.label, ∀ x ∈ b, CleanByte x) :
    ∀ b ∈ dsbootLabels root, ∀ x ∈ b, CleanByte x := by
  intro b hb x hx
  rcases List.mem_cons.mp hb with rfl | hb
  · revert x
    decide
  rcases List.mem_append.mp hb with hb | hb
  · split_ifs at hb with hl
    · rw [List.mem_singleton.mp hb] at hx
      cases hx
    · exact h b hb x hx
  · rw [List.mem_singleton.mp hb] at hx
    revert x
    decide

theorem hasHead_dsbootLabels (root : DnsLabel) : HasHead (dsbootLabels root) := by
  have henc : encode "_dsboot".toList = 95 :: [100, 115, 98, 111, 111, 116] := by decide
  exact ⟨95, [100, 115, 98, 111, 111, 116], _, by rw [dsbootLabels, henc]⟩

/-- The owner is one word. -/
theorem spells_dsbootText {root : DnsLabel} (h : ∀ b ∈ root.label, ∀ x ∈ b, CleanByte x) :
    Spells (dsbootText root) (labelsToken (dsbootLabels root)) := by
  rw [dsbootText_eq]
  exact spells_labels (hasHead_dsbootLabels root) (clean_dsbootLabels h)

theorem noDirective_dsboot (root : DnsLabel) : NoDirective (labelsToken (dsbootLabels root)) := by
  have hhead : (labelsToken (dsbootLabels root)).bytes.head? = some 95 := by
    have henc : encode "_dsboot".toList = 95 :: [100, 115, 98, 111, 111, 116] := by decide
    rw [dsbootLabels, henc, labelsToken, joined, Token.bytes, List.map_cons,
      List.intercalate_cons_of_ne_nil (by simp)]
    rfl
  constructor <;> intro h <;> rw [h] at hhead <;> exact absurd hhead (by decide)

/-- **The owner is relative**: the labels of the signalling zone follow its own. -/
theorem readName_dsboot (origin : List Bytes) {root : DnsLabel}
    (h : ∀ b ∈ root.label, ∀ x ∈ b, CleanByte x) :
    readName origin (labelsToken (dsbootLabels root)) =
      (some (dsbootLabels root ++ origin)).filter validLabels := by
  have hlast : (dsbootLabels root).getLast? ≠ some [] := by
    unfold dsbootLabels
    rw [← List.cons_append, List.getLast?_append_of_ne_nil _ (List.cons_ne_nil _ _)]
    decide
  have hlen : (dsbootLabels root).length ≠ 1 := by simp [dsbootLabels]
  have hat : dsbootLabels root ≠ [[64]] := fun hat => hlen (by rw [hat]; rfl)
  have hread := readName_labels origin (hasHead_dsbootLabels root) (clean_dsbootLabels h) hat
  rw [if_neg hlast] at hread
  exact hread

/-! ### The origin and the header -/

/-- The name of a name server. -/
def nsRoot (ns : Text) : DnsLabel := DnsLabel.ofBytes (encode ns)

/-- The name of the signalling zone of a name server. -/
def signalRoot (ns : Text) : DnsLabel := ⟨encode "_signal".toList :: (nsRoot ns).label⟩

section
variable {ns : Text} (hns : ns ∈ nameservers)
include hns

theorem ofText_nameserver (py : Python) : DnsLabel.ofText py ns = .ok (nsRoot ns) := by
  have h : ∀ ns ∈ nameservers, IsAscii ns ∧ '\\' ∉ ns ∧ DnsLabel.ofText .ascii ns = .ok (nsRoot ns) := by
    decide
  obtain ⟨h1, h2, h3⟩ := h ns hns
  rw [ofText_ascii py h1 h2, h3]

theorem ofText_signal (py : Python) :
    DnsLabel.ofText py ("_signal.".toList ++ ns) = .ok (signalRoot ns) := by
  have h : ∀ ns ∈ nameservers, IsAscii ("_signal.".toList ++ ns) ∧ '\\' ∉ "_signal.".toList ++ ns ∧
      DnsLabel.ofText .ascii ("_signal.".toList ++ ns) = .ok (signalRoot ns) := by
    decide
  obtain ⟨h1, h2, h3⟩ := h ns hns
  rw [ofText_ascii py h1 h2, h3]

theorem clean_signalRoot : ∀ m ∈ (signalRoot ns).label, ∀ b ∈ m, CleanByte b := by
  have h : ∀ ns ∈ nameservers, ∀ m ∈ (signalRoot ns).label, ∀ b ∈ m, CleanByte b := by
    decide
  exact h ns hns

theorem valid_signalRoot : validLabels (signalRoot ns).label = true := by
  have h : ∀ ns ∈ nameservers, validLabels (signalRoot ns).label = true := by decide
  exact h ns hns

theorem isPlain_nameserver : IsPlain ns := by
  have h : ∀ ns ∈ nameservers, IsPlain ns := by decide
  exact h ns hns

end

theorem hasHead_signalRoot (ns : Text) : HasHead (signalRoot ns).label := by
  have henc : encode "_signal".toList = 95 :: [115, 105, 103, 110, 97, 108] := by decide
  exact ⟨95, [115, 105, 103, 110, 97, 108], _, by rw [signalRoot, henc]⟩

/-- The records of the SOA and NS lines. -/
def signalHeaderRecords (origin : List Bytes) (time : ℕ) : List Record :=
  soaRecord origin (plainToken (nameservers.headD [])) time
      [plainToken "86400".toList, plainToken "3600".toList, plainToken "3600000".toList,
        plainToken "3600".toList] ::
    nameservers.flatMap fun ns => [nsRecord origin (plainToken ns)]

theorem gives_signalHeader {origin : List Bytes} (horigin : validLabels origin = true) (time : ℕ) :
    Gives origin (signalHeader time) (signalHeaderRecords origin time) := by
  have htimers : List.Forall₂ Spells
      ["86400".toList, "3600".toList, "3600000".toList, "3600".toList]
      [plainToken "86400".toList, plainToken "3600".toList, plainToken "3600000".toList,
        plainToken "3600".toList] := spells_plains (by decide)
  have htext : "86400 3600 3600000 3600".toList =
      [' '].intercalate ["86400".toList, "3600".toList, "3600000".toList, "3600".toList] := by decide
  have hprimary : Spells (nameservers.headD []) (plainToken (nameservers.headD [])) :=
    spells_plain (by decide)
  unfold signalHeader
  rw [htext]
  refine Gives.append (gives_soaLine horigin hprimary time (closes_words htimers)) ?_
  exact gives_flatMap fun ns hns => gives_nsLine horigin (spells_plain (isPlain_nameserver hns))

/-! ### The records of a zone -/

section
variable {h : Host} {st : Store} {zone : Zone} {root : DnsLabel}

/-- With CDS disabled or not, the first line is a CDS line. -/
theorem cdsText_first (origin : List Bytes) {owner t : Text}
    (ht : cdsText h st zone root owner = .ok t) :
    ∃ rdata ks u, t = recordLine owner 86400 "CDS".toList rdata ++ u ∧ Closes origin rdata ks [] := by
  unfold cdsText at ht
  by_cases hdis : zone.cdsDisable = true
  · rw [if_pos hdis] at ht
    obtain rfl := Except.ok.inj ht
    have hwords : List.Forall₂ Spells [['0'], ['0'], ['0'], ['0', '0']]
        [plainToken ['0'], plainToken ['0'], plainToken ['0'], plainToken ['0', '0']] := spells_plains (by decide)
    exact ⟨_, _, _, rfl, closes_words hwords⟩
  · rw [if_neg hdis] at ht
    obtain ⟨⟨digest, tag⟩, hdig, ht⟩ := bind_eq_ok.mp ht
    obtain rfl := Except.ok.inj ht
    obtain ⟨name, -, hdig⟩ := bind_eq_ok.mp hdig
    obtain ⟨rfl, rfl⟩ := Prod.mk.inj (Except.ok.inj hdig)
    obtain ⟨ks, hks⟩ := closes_digest origin (makeKeyTag (dnskeyData h))
      (h.sha256 (name ++ dnskeyData h))
    exact ⟨_, ks, _, (List.append_assoc _ _ _).trans (List.append_assoc _ _ _), hks⟩

end

/-! ### Mirroring -/

/-- The rdata of a type at an owner. -/
def rdataAt (rs : List Record) (owner : DnsLabel) (rtype : Text) : List (List Token) :=
  (rs.filter fun r => r.rtype = encode rtype ∧ owner.Eqv ⟨r.owner⟩).map Record.rdata

def cdsTypes : List Text := ["CDS".toList, "CDNSKEY".toList]

/-- `_dsboot.<zone>._signal.<nameserver>` -/
def dsbootName (root ns : DnsLabel) : DnsLabel :=
  ⟨encode "_dsboot".toList :: (root.label ++ encode "_signal".toList :: ns.label)⟩

section
variable (h : Host)

/-- At `_dsboot.<zone>._signal.<nameserver>` the signalling zone has the rdata that the header of the
zone has at its apex, for each zone whose root is published, and nowhere else. -/
def Mirrors (st : Store) (time : ℕ) (ns : Text) : Prop :=
  ∃ server text rs, DnsLabel.ofText h.py ns = .ok server ∧ signalZone h st time ns = .ok text ∧
    records [] text = some rs ∧
    (∀ zone ∈ st.zones, rootPattern zone.zoneRoot = true → ∃ root header hs,
      DnsLabel.ofText h.py zone.zoneRoot = .ok root ∧
      generateZoneHeader h st time zone root = .ok header ∧ records [] header = some hs ∧
      ∀ rtype ∈ cdsTypes, ∀ x,
        x ∈ rdataAt rs (dsbootName root server) rtype ↔ x ∈ rdataAt hs root rtype) ∧
    ∀ r ∈ rs, ∀ rtype ∈ cdsTypes, r.rtype = encode rtype → ∃ zone ∈ st.zones,
      rootPattern zone.zoneRoot = true ∧ ∃ root, DnsLabel.ofText h.py zone.zoneRoot = .ok root ∧
      (dsbootName root server).Eqv ⟨r.owner⟩

end

section
variable {h : Host} {st : Store} {time : ℕ} {ns : Text}

theorem signalZone_eq_ok (hns : ns ∈ nameservers) {text : Text} :
    signalZone h st time ns = .ok text ↔ ∃ sections, st.zones.rows.mapM (zoneSection h st) = .ok sections ∧
      text = line ["$ORIGIN ".toList, (signalRoot ns).toText] ++ (signalHeader time ++ sections.flatten) := by
  have hroot := ofText_signal hns h.py
  unfold signalZone
  constructor
  · intro ht
    obtain ⟨root, hr, ht⟩ := bind_eq_ok.mp ht
    obtain ⟨sections, hsections, ht⟩ := bind_eq_ok.mp ht
    rw [hroot] at hr
    obtain rfl := Except.ok.inj hr
    exact ⟨sections, hsections, (Except.ok.inj ht).symm⟩
  · rintro ⟨sections, hsections, rfl⟩
    exact bind_eq_ok.mpr ⟨_, hroot, bind_eq_ok.mpr ⟨sections, hsections, rfl⟩⟩

theorem zoneSection_skip {zone : Zone} (hz : rootPattern zone.zoneRoot = false) :
    zoneSection h st zone = .ok [] := by
  unfold zoneSection
  rw [if_neg (by simp [hz])]

/-- **Without published roots** the file has its header only. -/
theorem mirrors_of_none (hns : ns ∈ nameservers)
    (hz : ∀ zone ∈ st.zones, rootPattern zone.zoneRoot = false) : Mirrors h st time ns := by
  have hsections : ∀ zones : List Zone, (∀ zone ∈ zones, rootPattern zone.zoneRoot = false) →
      zones.mapM (zoneSection h st) = .ok (zones.map fun _ => []) := by
    intro zones hzones
    induction zones with
    | nil => rfl
    | cons zone zones ih =>
      have hrest := ih fun z hz => hzones z (List.mem_cons_of_mem zone hz)
      rw [List.mapM_cons, zoneSection_skip (hzones zone List.mem_cons_self), hrest]
      rfl
  have hvalid := valid_signalRoot hns
  have hread : readName [] (nameToken (signalRoot ns)) = some (signalRoot ns).label :=
    readName_nameToken [] (hasHead_signalRoot ns) (clean_signalRoot hns) hvalid
  have hflat : (st.zones.rows.map fun _ => ([] : Text)).flatten = [] := by simp
  refine ⟨nsRoot ns, _, signalHeaderRecords (signalRoot ns).label time, ofText_nameserver hns h.py,
    (signalZone_eq_ok hns).mpr ⟨_, hsections _ hz, rfl⟩, ?_, ?_, ?_⟩
  · rw [hflat, List.append_nil]
    exact records_of_gives (adds_originLine (hasHead_signalRoot ns) (clean_signalRoot hns)) hread
      (gives_signalHeader hvalid time)
  · intro zone hzone hpub
    rw [hz zone hzone] at hpub
    cases hpub
  · intro r hr rtype hrtype htype
    exfalso
    have hrec : r.rtype = encode "SOA".toList ∨ r.rtype = encode "NS".toList := by
      rcases List.mem_cons.mp hr with rfl | hr
      · exact Or.inl rfl
      · obtain ⟨ns', -, hr⟩ := List.mem_flatMap.mp hr
        rw [List.mem_singleton.mp hr]
        exact Or.inr rfl
    have hne : ∀ rtype ∈ cdsTypes, encode rtype ≠ encode "SOA".toList ∧
        encode rtype ≠ encode "NS".toList := by decide
    rcases hrec with hrec | hrec
    · exact (hne rtype hrtype).1 (htype ▸ hrec)
    · exact (hne rtype hrtype).2 (htype ▸ hrec)

/-- The first published root has the first section. -/
theorem exists_section {zones : List Zone} {sections : List Text}
    (hsections : zones.mapM (zoneSection h st) = .ok sections)
    (hz : ∃ zone ∈ zones, rootPattern zone.zoneRoot = true) :
    ∃ zone ∈ zones, rootPattern zone.zoneRoot = true ∧ ∃ text u,
      zoneSection h st zone = .ok text ∧ sections.flatten = text ++ u := by
  induction zones generalizing sections with
  | nil =>
    obtain ⟨zone, hzone, -⟩ := hz
    cases hzone
  | cons zone zones ih =>
    rw [List.mapM_cons] at hsections
    obtain ⟨text, htext, hsections⟩ := bind_eq_ok.mp hsections
    obtain ⟨rest, hrest, hsections⟩ := bind_eq_ok.mp hsections
    obtain rfl := Except.ok.inj hsections
    by_cases hpub : rootPattern zone.zoneRoot = true
    · exact ⟨zone, List.mem_cons_self, hpub, text, rest.flatten, htext, List.flatten_cons⟩
    · have hskip : zoneSection h st zone = .ok [] := zoneSection_skip (by simpa using hpub)
      rw [hskip] at htext
      obtain rfl := Except.ok.inj htext
      obtain ⟨zone', hzone', hpub'⟩ := hz
      have hmem : zone' ∈ zones := by
        rcases List.mem_cons.mp hzone' with rfl | hmem
        · exact absurd hpub' hpub
        · exact hmem
      obtain ⟨z, hz, hzpub, text, u, htext, hflat⟩ := ih hrest ⟨zone', hmem, hpub'⟩
      exact ⟨z, List.mem_cons_of_mem zone hz, hzpub, text, u, htext, hflat⟩

theorem zoneSection_eq_ok {zone : Zone} (hz : rootPattern zone.zoneRoot = true) {text : Text} :
    zoneSection h st zone = .ok text ↔ ∃ root cds, DnsLabel.ofText h.py zone.zoneRoot = .ok root ∧
      cdsText h st zone root (dsbootText root) = .ok cds ∧
      text = line ["; Zone ".toList, showNat zone.id] ++ cds := by
  unfold zoneSection
  rw [if_pos hz]
  constructor
  · intro ht
    obtain ⟨root, hroot, ht⟩ := bind_eq_ok.mp ht
    obtain ⟨cds, hcds, ht⟩ := bind_eq_ok.mp ht
    exact ⟨root, cds, hroot, hcds, (Except.ok.inj ht).symm⟩
  · rintro ⟨root, cds, hroot, hcds, rfl⟩
    exact bind_eq_ok.mpr ⟨root, hroot, bind_eq_ok.mpr ⟨cds, hcds, rfl⟩⟩

/-- A name with one more `_signal` is at no `_dsboot` name of a published root. -/
theorem not_eqv_dsboot {root root' ns : DnsLabel} (hroot : root.label ≠ [])
    (h' : ∀ b ∈ root'.label, ∀ x ∈ b, x ≠ 95) :
    ¬ (dsbootName root' ns).Eqv ⟨dsbootLabels root ++ encode "_signal".toList :: ns.label⟩ := by
  intro heqv
  have hlower : (dsbootName root' ns).lower =
      DnsLabel.lower ⟨dsbootLabels root ++ encode "_signal".toList :: ns.label⟩ := heqv
  simp only [DnsLabel.lower, dsbootName, dsbootLabels, if_neg hroot, List.map_cons, List.map_append,
    List.map_nil, List.cons_append, List.append_assoc, List.cons.injEq, true_and] at hlower
  have hassoc : root'.label.map (·.map lowerByte) ++
        (encode "_signal".toList).map lowerByte :: ns.label.map (·.map lowerByte) =
      root.label.map (·.map lowerByte) ++ [(encode "_signal".toList).map lowerByte] ++
        (encode "_signal".toList).map lowerByte :: ns.label.map (·.map lowerByte) := by
    rw [hlower]
    simp
  have hcancel := List.append_cancel_right hassoc
  have hmem : (encode "_signal".toList).map lowerByte ∈ root'.label.map (·.map lowerByte) := by
    rw [hcancel]
    simp
  obtain ⟨b, hb, hlow⟩ := List.mem_map.mp hmem
  have henc : (encode "_signal".toList).map lowerByte = [95, 115, 105, 103, 110, 97, 108] := by decide
  rw [henc] at hlow
  rcases b with _ | ⟨x, b⟩
  · cases hlow
  · have hx : lowerByte x = 95 := (List.cons.inj hlow).1
    refine h' _ hb x List.mem_cons_self ?_
    unfold lowerByte at hx
    split_ifs at hx with hup
    · have := congrArg UInt8.toNat hx
      rw [UInt8.toNat_add] at this
      simp at this
      omega
    · exact hx

/-- **A published root is not mirrored**: its first CDS record is at an owner with `_signal` twice. -/
theorem not_mirrors_of_root (hns : ns ∈ nameservers)
    (hz : ∃ zone ∈ st.zones, rootPattern zone.zoneRoot = true) : ¬ Mirrors h st time ns := by
  rintro ⟨server, text, rs, hserver, htext, hrs, -, honly⟩
  rw [ofText_nameserver hns] at hserver
  obtain rfl := Except.ok.inj hserver
  obtain ⟨sections, hsections, rfl⟩ := (signalZone_eq_ok hns).mp htext
  obtain ⟨zone, -, hpub, body, u, hbody, hflat⟩ := exists_section hsections hz
  obtain ⟨root, cds, hroot, hcds, rfl⟩ := (zoneSection_eq_ok hpub).mp hbody
  obtain ⟨rdata, ks, v, rfl, es, hends, -⟩ := cdsText_first [] hcds
  have hclean : ∀ b ∈ root.label, ∀ x ∈ b, CleanByte x := fun b hb x hx =>
    (labels_of_root hpub hroot b hb x hx).1
  have hvalid := valid_signalRoot hns
  have horigin := adds_originLine (hasHead_signalRoot ns) (clean_signalRoot hns)
  have hname := readName_nameToken [] (hasHead_signalRoot ns) (clean_signalRoot hns) hvalid
  have hhead := (gives_signalHeader hvalid time).append (gives_commentLine (t := " Zone ".toList) (by decide) zone.id)
  have hline := adds_recordLine (spells_dsbootText hclean) 86400 (show IsPlain "CDS".toList by decide)
    hends
  have htext : line ["$ORIGIN ".toList, (signalRoot ns).toText] ++ (signalHeader time ++ sections.flatten) =
      line ["$ORIGIN ".toList, (signalRoot ns).toText] ++
        (signalHeader time ++ line ["; Zone ".toList, showNat zone.id] ++
          (recordLine (dsbootText root) 86400 "CDS".toList rdata ++ (v ++ u))) := by
    rw [hflat]
    simp only [List.append_assoc]
  rw [htext] at hrs
  obtain ⟨s, s', hs, hstep, hsub⟩ := step_of_records horigin hname hhead hline hrs
  rw [step_recordEntry s (noDirective_dsboot root), hs, readName_dsboot _ hclean] at hstep
  obtain ⟨owner, howner, rfl⟩ := Option.map_eq_some_iff.mp hstep
  obtain ⟨hsome, hvowner⟩ := Option.filter_eq_some_iff.mp howner
  obtain rfl := Option.some.inj hsome
  have hmem : lineRecord (dsbootLabels root ++ (signalRoot ns).label) 86400 "CDS".toList ks ∈ rs :=
    hsub.subset (by simp)
  obtain ⟨zone', -, hpub', root', hroot', heqv⟩ :=
    honly _ hmem "CDS".toList (by simp [cdsTypes]) rfl
  have hne : root.label ≠ [] := by
    intro hne
    have hall : ∀ l ∈ dsbootLabels root ++ (signalRoot ns).label, 0 < l.length := by
      unfold validLabels at hvowner
      simp only [Bool.and_eq_true, List.all_eq_true, decide_eq_true_eq] at hvowner
      exact fun l hl => (hvowner.1 l hl).1
    have hempty : ([] : Bytes) ∈ dsbootLabels root ++ (signalRoot ns).label := by
      simp [dsbootLabels, hne]
    exact absurd (hall [] hempty) (by simp)
  exact not_eqv_dsboot hne (fun b hb x hx => (labels_of_root hpub' hroot' b hb x hx).2) heqv

/-- **The signalling zones mirror the zones** if and only if there is no zone to mirror. -/
theorem mirrors_iff (hns : ns ∈ nameservers) :
    Mirrors h st time ns ↔ ∀ zone ∈ st.zones, rootPattern zone.zoneRoot = false := by
  constructor
  · intro hm zone hzone
    by_contra hpub
    exact not_mirrors_of_root hns ⟨zone, hzone, by simpa using hpub⟩ hm
  · exact mirrors_of_none hns

end

/-- A zone with the default records. -/
def oneZone : Store :=
  { Store.empty with zones := Table.empty.save ⟨1, "example.com".toList, false⟩ }

theorem mirrors_iff_oneZone : Mirrors .ascii oneZone 0 "ns1.as207960.net.".toList ↔
    ∀ zone ∈ oneZone.zones, rootPattern zone.zoneRoot = false :=
  mirrors_iff (by decide)

/-- The one zone is not mirrored. -/
theorem not_mirrors_oneZone : ¬ Mirrors .ascii oneZone 0 "ns1.as207960.net.".toList :=
  not_mirrors_of_root (by decide) ⟨⟨1, "example.com".toList, false⟩, by decide, by decide⟩

end HexDns.Tasks.SignalZones
