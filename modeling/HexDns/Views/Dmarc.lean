import HexDns.Models.Convert
import HexDns.Views.SpfCheck

/-! # The DMARC record of a zone

`generate_dmarc` of `views/fzone.py`, the records that a new zone gets (`setup_initial_records`) and
`check_dmarc` of `views/zone_checks.py`.

What the form says is joined by semicolons, and the check splits at them. The feedback addresses go into the
record as they are, so that a semicolon in them starts a further tag. `checkDmarc_generateDmarc` says what the
check makes of each form that was filled in, whatever the addresses are. -/

namespace HexDns.Views.Dmarc

open HexDns.Lib.Texts HexDns.Lib.Programs HexDns.Lib.Tables HexDns.Base.Py HexDns.Models.Db HexDns.Models.Env
  HexDns.Models.Names HexDns.Models.Convert HexDns.Views.SpfCheck

/-! ### The form -/

inductive Policy
  | none | quarantine | reject
  deriving DecidableEq, Repr

def Policy.text : Policy → Text
  | .none => "none".toList
  | .quarantine => "quarantine".toList
  | .reject => "reject".toList

inductive Alignment
  | relaxed | strict
  deriving DecidableEq, Repr

def Alignment.text : Alignment → Text
  | .relaxed => ['r']
  | .strict => ['s']

/-- `DMARCForm`: the data of a form that is valid. -/
structure DmarcForm where
  policy : Policy
  /-- nothing for the empty text; `None` is the text that the choice with the value `None` takes -/
  subdomainPolicy : Option (Option Policy)
  percentage : Option (Fin 101)
  dkimAlignment : Alignment
  spfAlignment : Alignment
  reportInterval : Option ℕ
  /-- as they were sent -/
  aggregateFeedback : Text
  failureFeedback : Text
  deriving DecidableEq, Repr

/-- `f"; {name}={value}"` if there is a value -/
def optionalTag (name : String) (value : Text) : Text :=
  if value = [] then [] else "; ".toList ++ name.toList ++ '=' :: value

/-- A number in the form; zero is as good as none. -/
def number : Option ℕ → Text
  | none => []
  | some 0 => []
  | some n => showNat n

def subdomainText : Option (Option Policy) → Text
  | none => []
  | some none => "None".toList
  | some (some p) => p.text

/-- `dmarc_data` -/
def dmarcData (form : DmarcForm) : Text :=
  "v=DMARC1; p=".toList ++ form.policy.text
    ++ optionalTag "sp" (subdomainText form.subdomainPolicy)
    ++ optionalTag "pct" (number (form.percentage.map (·.val)))
    ++ optionalTag "adkim" form.dkimAlignment.text
    ++ optionalTag "aspf" form.spfAlignment.text
    ++ optionalTag "ri" (number form.reportInterval)
    ++ optionalTag "rua" (strip form.aggregateFeedback)
    ++ optionalTag "ruf" (strip form.failureFeedback)

section
variable (h : Host)

/-- `TXTRecord(zone=zone, record_name=name, ttl=86400, data=data).save()` -/
def saveTxt (zone : ℕ) (name data : Text) : Exec Store PyErr Unit := do
  let st ← get
  saveRow h ⟨st.records.next, zone, name, 86400, .txt data⟩

/-- What `generate_dmarc` does with a valid form. -/
def generateDmarc (zone : ℕ) (form : DmarcForm) : Exec Store PyErr Unit :=
  saveTxt h zone "_dmarc".toList (dmarcData form)

/-- `DNSZone.create_blank_spf` -/
def createBlankSpf (zone : ℕ) : Exec Store PyErr Unit := saveTxt h zone ['@'] "v=spf1 -all".toList

/-- `DNSZone.create_blank_dmarc` -/
def createBlankDmarc (zone : ℕ) : Exec Store PyErr Unit :=
  saveTxt h zone "_dmarc".toList "v=DMARC1;p=reject;sp=reject;adkim=s;aspf=s".toList

/-- `DNSZone.setup_initial_records` -/
def setupInitialRecords (zone : ℕ) : Exec Store PyErr Unit := do
  createBlankSpf h zone
  createBlankDmarc h zone
  saveTxt h zone "*._domainkey".toList "v=DKIM1; p=".toList

end

/-! ### The check -/

inductive DmarcStatus
  | notPresent | multiplePresent | invalid | noneRequest | partialPercentage | ok
  deriving DecidableEq, Repr

/-- The parts of a record between semicolons that are not blank. -/
def recordParts (data : Text) : List Text := ((strip data).splitOn ';').filter (strip · ≠ [])

/-- A part as a tag and its value, nothing without an equals sign. -/
def tagOf (part : Text) : Option (Text × Text) :=
  if '=' ∈ part then some (strip (modifier part).1, strip (modifier part).2) else none

def tagsOf (data : Text) : Option (List (Text × Text)) := (recordParts data).mapM tagOf

/-- `pct_tag` and what is returned for it -/
def checkPct (tags : List (Text × Text)) : DmarcStatus :=
  match tags.find? (·.1 = "pct".toList) with
  | some t => if t.2 ≠ "100".toList then .partialPercentage else .ok
  | none => .ok

def checkTags : List (Text × Text) → DmarcStatus
  | [] => .invalid
  | v :: tags =>
    if v.1 ≠ ['v'] ∨ v.2 ≠ "DMARC1".toList then .invalid
    else
      match tags with
      | [] => .invalid
      | p :: tags =>
        if p.1 ≠ ['p'] then .invalid
        else if p.2 = "none".toList then .noneRequest
        else if ¬ (p.2 = "quarantine".toList ∨ p.2 = "reject".toList) then .invalid
        else checkPct tags

/-- The check of the one record. -/
def checkData (data : Text) : DmarcStatus :=
  match tagsOf data with
  | none => .invalid
  | some tags => checkTags tags

/-- The rows that the check reads. -/
def dmarcRecords (s : Store) (zone : ℕ) : List TxtRecord :=
  (txtrecordSet s zone).filter (·.recordName = "_dmarc".toList)

/-- `check_dmarc` -/
def checkDmarc (s : Store) (zone : ℕ) : DmarcStatus :=
  match dmarcRecords s zone with
  | [] => .notPresent
  | [r] => checkData r.data
  | _ => .multiplePresent

/-! ### What the form says -/

/-- The tags that the semicolons in an address start. -/
def addedParts (feedback : Text) : List Text := ((strip feedback).splitOn ';').drop 1

/-- The tags of both addresses, without the blank ones. -/
def DmarcForm.addedParts (form : DmarcForm) : List Text :=
  (Dmarc.addedParts form.aggregateFeedback ++ Dmarc.addedParts form.failureFeedback).filter (strip · ≠ [])

/-- **What the check says about the record of a form**: an address that starts something that is no tag spoils
the record; a form without a percentage, or with zero, leaves it to the addresses to name one. -/
def DmarcForm.status (form : DmarcForm) : DmarcStatus :=
  match form.addedParts.mapM tagOf with
  | none => .invalid
  | some added =>
    if form.policy = .none then .noneRequest
    else
      match number (form.percentage.map (·.val)) with
      | [] => checkPct added
      | p => if p = "100".toList then .ok else .partialPercentage

/-! ### Texts that end in a character -/

/-- The text ends in a character that is not blank. -/
def EndsBlack (t : Text) : Prop := ∃ a c, t = a ++ [c] ∧ isSpace c = false

theorem endsBlack_append {t u : Text} (h : EndsBlack u) : EndsBlack (t ++ u) := by
  obtain ⟨a, c, rfl, hc⟩ := h
  exact ⟨t ++ a, c, (List.append_assoc t a [c]).symm, hc⟩

theorem endsBlack_of_forall {t : Text} (hne : t ≠ []) (ht : ∀ c ∈ t, isSpace c = false) : EndsBlack t := by
  obtain ⟨a, c, rfl⟩ := (List.eq_nil_or_concat' t).resolve_left hne
  exact ⟨a, c, rfl, ht c (by simp)⟩

theorem endsBlack_strip {t : Text} (hne : strip t ≠ []) : EndsBlack (strip t) := by
  have hlast : ¬ isSpace ((strip t).getLast hne) := List.rdropWhile_last_not isSpace (t.dropWhile isSpace) hne
  obtain ⟨a, c, hac⟩ := (List.eq_nil_or_concat' (strip t)).resolve_left hne
  have hc : (strip t).getLast hne = c := by simp [hac]
  rw [hc, Bool.not_eq_true] at hlast
  exact ⟨a, c, hac, hlast⟩

theorem strip_of_endsBlack {t : Text} (hends : EndsBlack t) (hstarts : ∀ c ∈ t.head?, isSpace c = false) :
    strip t = t := by
  have hfront : t.dropWhile isSpace = t := by
    rcases t with _ | ⟨c, t⟩
    · rfl
    · exact List.dropWhile_cons_of_neg (by simp [hstarts c rfl])
  obtain ⟨a, c, rfl, hc⟩ := hends
  unfold strip stripBy
  rw [hfront]
  exact List.rdropWhile_concat_neg _ _ _ (by simp [hc])

theorem isSpace_of_isDigit {c : Char} (hc : c.isDigit = true) : isSpace c = false := by
  obtain ⟨hlo, hhi⟩ := isDigit_iff.mp hc
  unfold isSpace
  simp only [Bool.or_eq_false_iff, Bool.and_eq_false_iff, decide_eq_false_iff_not]
  omega

theorem mem_number {n : Option ℕ} {c : Char} (hc : c ∈ number n) : c.isDigit = true := by
  rcases n with _ | _ | n
  · cases hc
  · cases hc
  · exact isDigit_showNat hc

/-! ### What the check reads -/

theorem splitOn_append_left {a b : Text} (ha : ';' ∉ a) :
    (a ++ b).splitOn ';' = (b.splitOn ';').modifyHead (a ++ ·) := by
  induction a with
  | nil => exact (congrFun List.modifyHead_id _).symm
  | cons c a ih =>
    obtain ⟨hc, ha⟩ := not_or.mp fun h => ha (List.mem_cons.mpr h)
    rw [List.cons_append, List.splitOn_cons_eq_if_modifyHead, if_neg (by simpa using Ne.symm hc), ih ha,
      List.modifyHead_modifyHead]
    rfl

/-- The tags that are read of parts. -/
def readTags (parts : List Text) : Option (List (Text × Text)) := (parts.filter (strip · ≠ [])).mapM tagOf

theorem tagsOf_eq (data : Text) : tagsOf data = readTags ((strip data).splitOn ';') := rfl

theorem readTags_append (ps qs : List Text) :
    readTags (ps ++ qs) = (readTags ps).bind fun a => (readTags qs).map (a ++ ·) := by
  unfold readTags
  rw [List.filter_append, List.mapM_append]
  rcases (ps.filter (strip · ≠ [])).mapM tagOf with _ | a
  · rfl
  rcases (qs.filter (strip · ≠ [])).mapM tagOf with _ | b
  · rfl
  · rfl

/-- The parts that a field of the form comes to. -/
def fieldParts (name : String) (value : Text) : List Text :=
  if value = [] then [] else (value.splitOn ';').modifyHead ((' ' :: name.toList ++ ['=']) ++ ·)

/-- A name of a tag. -/
def Name (name : String) : Prop := name.toList ≠ [] ∧ ∀ c ∈ name.toList, c ≠ ';' ∧ c ≠ '=' ∧ isSpace c = false

theorem splitOn_optionalTag {name : String} (hname : Name name) (t value : Text) :
    (t ++ optionalTag name value).splitOn ';' = t.splitOn ';' ++ fieldParts name value := by
  unfold optionalTag fieldParts
  split_ifs with hvalue
  · simp
  · have hfront : ';' ∉ ' ' :: name.toList ++ ['='] := by
      simp only [List.cons_append, List.mem_cons, List.mem_append, List.not_mem_nil, or_false, not_or]
      exact ⟨by decide, fun hmem => (hname.2 _ hmem).1 rfl, by decide⟩
    rw [← splitOn_append_left hfront, ← List.splitOn_append_cons_self]
    simp

theorem modifier_field {name value : Text} (hname : '=' ∉ name) : modifier (name ++ '=' :: value) = (name, value) := by
  have hall : ∀ c ∈ name, decide (c ≠ '=') = true := by
    intro c hc
    exact decide_eq_true fun heq => hname (heq ▸ hc)
  unfold modifier
  rw [List.takeWhile_append_of_pos hall, List.dropWhile_append_of_pos hall]
  simp

theorem strip_ne_nil {t : Text} {c : Char} (hmem : c ∈ t) (hc : isSpace c = false) : strip t ≠ [] := by
  have hfront : c ∈ t.dropWhile isSpace := by
    induction t with
    | nil => cases hmem
    | cons d t ih =>
      by_cases hd : isSpace d = true
      · rw [List.dropWhile_cons_of_pos hd]
        rcases List.mem_cons.mp hmem with rfl | hmem
        · rw [hc] at hd
          cases hd
        · exact ih hmem
      · rwa [List.dropWhile_cons_of_neg hd]
  intro hnil
  have hblank := List.rdropWhile_eq_nil_iff.mp hnil c hfront
  rw [hc] at hblank
  cases hblank

/-- The first part of a field is its tag, and the others are what the semicolons in the value start. -/
theorem readTags_fieldParts {name : String} (hname : Name name) {value first : Text} {rest : List Text}
    (hvalue : value ≠ []) (hsplit : value.splitOn ';' = first :: rest) :
    readTags (fieldParts name value) = (readTags rest).map ((name.toList, strip first) :: ·) := by
  have hparts : fieldParts name value = (' ' :: (name.toList ++ '=' :: first)) :: rest := by
    rw [fieldParts, if_neg hvalue, hsplit]
    simp
  have hmem : '=' ∈ ' ' :: (name.toList ++ '=' :: first) := by simp
  have hnot : '=' ∉ ' ' :: name.toList := by
    rw [List.mem_cons, not_or]
    exact ⟨by decide, fun hmem => (hname.2 _ hmem).2.1 rfl⟩
  have hself : strip name.toList = name.toList :=
    strip_of_endsBlack (endsBlack_of_forall hname.1 fun c hc => (hname.2 c hc).2.2)
      fun c hc => (hname.2 c (List.mem_of_mem_head? hc)).2.2
  have hstrip : strip (' ' :: name.toList) = name.toList := by
    refine Eq.trans ?_ hself
    unfold strip stripBy
    rw [List.dropWhile_cons_of_pos (by decide)]
  have htag : tagOf (' ' :: (name.toList ++ '=' :: first)) = some (name.toList, strip first) := by
    rw [tagOf, if_pos hmem, ← List.cons_append, modifier_field hnot, hstrip]
  have hblank : strip (' ' :: (name.toList ++ '=' :: first)) ≠ [] := strip_ne_nil hmem (by decide)
  unfold readTags
  rw [hparts, List.filter_cons_of_pos (by simpa using hblank), List.mapM_cons, htag]
  rcases (rest.filter (strip · ≠ [])).mapM tagOf with _ | tags
  · rfl
  · rfl

/-- A field without semicolons is one tag. -/
theorem readTags_field {name : String} (hname : Name name) {value : Text} (hvalue : value ≠ []) (hsep : ';' ∉ value) :
    readTags (fieldParts name value) = some [(name.toList, strip value)] :=
  readTags_fieldParts hname hvalue (List.splitOn_eq_singleton hsep)

/-- An address is one tag and what its semicolons start. -/
theorem readTags_feedback {name : String} (hname : Name name) (feedback : Text) : ∃ front : List (Text × Text),
    (∀ t ∈ front, t.1 = name.toList) ∧
    readTags (fieldParts name (strip feedback)) = (readTags (addedParts feedback)).map (front ++ ·) := by
  by_cases hvalue : strip feedback = []
  · refine ⟨[], by simp, ?_⟩
    rw [fieldParts, if_pos hvalue, addedParts, hvalue]
    rfl
  · obtain ⟨first, rest, hsplit⟩ := List.exists_cons_of_ne_nil (List.splitOn_ne_nil ';' (strip feedback))
    refine ⟨[(name.toList, strip first)], by simp, ?_⟩
    rw [readTags_fieldParts hname hvalue hsplit, addedParts, hsplit]
    rfl

/-- A field of the form that has no semicolons, if it is filled in. -/
theorem readTags_optional {name : String} (hname : Name name) {value : Text} (hsep : ';' ∉ value) :
    readTags (fieldParts name value) = some (if value = [] then [] else [(name.toList, strip value)]) := by
  by_cases hvalue : value = []
  · rw [fieldParts, if_pos hvalue, if_pos hvalue]
    rfl
  · rw [readTags_field hname hvalue hsep, if_neg hvalue]

/-- Tags with other names do not matter, wherever they stand. -/
theorem checkPct_skip {before front after : List (Text × Text)} (hfront : ∀ t ∈ front, t.1 ≠ "pct".toList) :
    checkPct (before ++ (front ++ after)) = checkPct (before ++ after) := by
  have hnone : front.find? (·.1 = "pct".toList) = none := by
    refine List.find?_eq_none.mpr fun t ht => ?_
    simpa using hfront t ht
  unfold checkPct
  rw [List.find?_append, List.find?_append, List.find?_append, hnone, Option.none_or]

theorem checkPct_pct (value : Text) (tags : List (Text × Text)) :
    checkPct (("pct".toList, value) :: tags) = if value = "100".toList then .ok else .partialPercentage := by
  unfold checkPct
  rw [List.find?_cons_of_pos (by simp)]
  dsimp only
  rw [ite_not]

/-- The percentage of the form counts if there is one, and else the first one in an address. -/
theorem checkPct_fields {pct : Text} {front mid ruf a b : List (Text × Text)}
    (hfront : ∀ t ∈ front, t.1 ≠ "pct".toList) (hmid : ∀ t ∈ mid, t.1 ≠ "pct".toList)
    (hruf : ∀ t ∈ ruf, t.1 ≠ "pct".toList) :
    checkPct (front ++ ((if pct = [] then [] else [("pct".toList, pct)]) ++ (mid ++ (a ++ (ruf ++ b))))) =
      match pct with
      | [] => checkPct (a ++ b)
      | p => if p = "100".toList then .ok else .partialPercentage := by
  refine (@checkPct_skip [] front _ hfront).trans ?_
  rcases pct with - | ⟨c, p⟩
  · exact (@checkPct_skip [] mid _ hmid).trans (checkPct_skip hruf)
  · exact checkPct_pct (c :: p) _

theorem checkTags_policy (p : Policy) (tags : List (Text × Text)) :
    checkTags ((['v'], "DMARC1".toList) :: (['p'], p.text) :: tags) =
      if p = .none then .noneRequest else checkPct tags := by
  rcases p with - | - | - <;> rfl

/-! ### The check of a form -/

section
variable (form : DmarcForm)

/-- The beginning of the text, with the two tags that are always there. -/
theorem splitOn_policy (p : Policy) : readTags (("v=DMARC1; p=".toList ++ p.text).splitOn ';') =
    some [(['v'], "DMARC1".toList), (['p'], p.text)] := by
  rcases p with - | - | - <;> decide

theorem endsBlack_optionalTag {t : Text} {name : String} {value : Text} (ht : EndsBlack t)
    (hvalue : value ≠ [] → EndsBlack value) : EndsBlack (t ++ optionalTag name value) := by
  unfold optionalTag
  split_ifs with hnil
  · rwa [List.append_nil]
  · refine endsBlack_append (endsBlack_append ?_)
    obtain ⟨a, c, rfl, hc⟩ := hvalue hnil
    exact ⟨'=' :: a, c, rfl, hc⟩

theorem endsBlack_number {n : Option ℕ} (hne : number n ≠ []) : EndsBlack (number n) :=
  endsBlack_of_forall hne fun _ hc => isSpace_of_isDigit (mem_number hc)

theorem strip_dmarcData : strip (dmarcData form) = dmarcData form := by
  have hsp : subdomainText form.subdomainPolicy ≠ [] → EndsBlack (subdomainText form.subdomainPolicy) := by
    intro hne
    refine endsBlack_of_forall hne ?_
    rcases form.subdomainPolicy with - | - | (- | - | -) <;> decide
  have hpolicy : EndsBlack form.policy.text := by
    rcases form.policy with - | - | -
    · exact ⟨"non".toList, 'e', by decide, by decide⟩
    · exact ⟨"quarantin".toList, 'e', by decide, by decide⟩
    · exact ⟨"rejec".toList, 't', by decide, by decide⟩
  have halignment : ∀ a : Alignment, EndsBlack a.text := by
    rintro (- | -)
    · exact ⟨[], 'r', rfl, by decide⟩
    · exact ⟨[], 's', rfl, by decide⟩
  refine strip_of_endsBlack ?_ ?_
  · unfold dmarcData
    refine endsBlack_optionalTag (endsBlack_optionalTag (endsBlack_optionalTag (endsBlack_optionalTag
      (endsBlack_optionalTag (endsBlack_optionalTag (endsBlack_optionalTag (endsBlack_append hpolicy) hsp)
      endsBlack_number) fun _ => halignment _) fun _ => halignment _) endsBlack_number) endsBlack_strip)
      endsBlack_strip
  · intro c hc
    have hstart : (dmarcData form).head? = some 'v' := by
      unfold dmarcData
      simp only [List.append_assoc]
      rfl
    rw [hstart] at hc
    obtain rfl := Option.some.inj hc
    decide

theorem splitOn_dmarcData : (dmarcData form).splitOn ';' =
    ("v=DMARC1; p=".toList ++ form.policy.text).splitOn ';'
      ++ fieldParts "sp" (subdomainText form.subdomainPolicy)
      ++ fieldParts "pct" (number (form.percentage.map (·.val)))
      ++ fieldParts "adkim" form.dkimAlignment.text
      ++ fieldParts "aspf" form.spfAlignment.text
      ++ fieldParts "ri" (number form.reportInterval)
      ++ fieldParts "rua" (strip form.aggregateFeedback)
      ++ fieldParts "ruf" (strip form.failureFeedback) := by
  unfold dmarcData
  rw [splitOn_optionalTag, splitOn_optionalTag, splitOn_optionalTag, splitOn_optionalTag, splitOn_optionalTag,
    splitOn_optionalTag, splitOn_optionalTag] <;> exact ⟨by decide, by decide⟩

theorem strip_number (n : Option ℕ) : strip (number n) = number n := by
  by_cases hne : number n = []
  · rw [hne]
    rfl
  · exact strip_of_endsBlack (endsBlack_number hne) fun c hc =>
      isSpace_of_isDigit (mem_number (List.mem_of_mem_head? hc))

theorem not_mem_number (n : Option ℕ) : ';' ∉ number n := fun hmem => by
  have hdigit := mem_number hmem
  revert hdigit
  decide

/-- **The check of the record of a form**, whatever the addresses are. -/
theorem checkData_dmarcData : checkData (dmarcData form) = form.status := by
  have hname : ∀ name ∈ ["sp", "pct", "adkim", "aspf", "ri", "rua", "ruf"], Name name := by
    simp only [List.forall_mem_cons, List.not_mem_nil, false_imp_iff, implies_true, and_true]
    refine ⟨⟨?_, ?_⟩, ⟨?_, ?_⟩, ⟨?_, ?_⟩, ⟨?_, ?_⟩, ⟨?_, ?_⟩, ⟨?_, ?_⟩, ?_, ?_⟩ <;> decide
  have hsp : ';' ∉ subdomainText form.subdomainPolicy := by
    rcases form.subdomainPolicy with - | - | (- | - | -) <;> decide
  have halignment : ∀ a : Alignment, a.text ≠ [] ∧ ';' ∉ a.text := by
    rintro (- | -) <;> decide
  obtain ⟨rua, hrua, hreadRua⟩ := readTags_feedback (hname "rua" (by decide)) form.aggregateFeedback
  obtain ⟨ruf, hruf, hreadRuf⟩ := readTags_feedback (hname "ruf" (by decide)) form.failureFeedback
  have hadded : form.addedParts.mapM tagOf =
      readTags (addedParts form.aggregateFeedback ++ addedParts form.failureFeedback) := rfl
  unfold checkData DmarcForm.status
  rw [tagsOf_eq, strip_dmarcData, splitOn_dmarcData, hadded]
  simp only [readTags_append, splitOn_policy, readTags_optional (hname "sp" (by decide)) hsp,
    readTags_optional (hname "pct" (by decide)) (not_mem_number _),
    readTags_field (hname "adkim" (by decide)) (halignment _).1 (halignment _).2,
    readTags_field (hname "aspf" (by decide)) (halignment _).1 (halignment _).2,
    readTags_optional (hname "ri" (by decide)) (not_mem_number _), hreadRua, hreadRuf, strip_number,
    Option.bind_some, Option.map_some]
  rcases readTags (addedParts form.aggregateFeedback) with - | a
  · rfl
  rcases readTags (addedParts form.failureFeedback) with - | b
  · rfl
  simp only [Option.bind_some, Option.map_some, List.cons_append, List.nil_append, List.append_assoc, checkTags_policy]
  refine if_congr Iff.rfl rfl ?_
  have hfield : ∀ (name : String) (value shown : Text), name.toList ≠ "pct".toList →
      ∀ t ∈ (if value = [] then [] else [(name.toList, shown)] : List (Text × Text)), t.1 ≠ "pct".toList := by
    intro name value shown hne t ht
    split_ifs at ht
    · cases ht
    · rw [List.mem_singleton.mp ht]
      exact hne
  have hmid : ∀ t ∈ ("adkim".toList, strip form.dkimAlignment.text) :: ("aspf".toList, strip form.spfAlignment.text) ::
      ((if number form.reportInterval = [] then [] else [("ri".toList, number form.reportInterval)]) ++ rua),
      t.1 ≠ "pct".toList := by
    simp only [List.forall_mem_cons, List.forall_mem_append]
    refine ⟨by decide, by decide, hfield "ri" _ _ (by decide), fun t ht => ?_⟩
    rw [hrua t ht]
    decide
  have hlast : ∀ t ∈ ruf, t.1 ≠ "pct".toList := by
    intro t ht
    rw [hruf t ht]
    decide
  have hall := @checkPct_fields (number (form.percentage.map (·.val))) _ _ _ a b
    (hfield "sp" (subdomainText form.subdomainPolicy) (strip (subdomainText form.subdomainPolicy)) (by decide))
    hmid hlast
  simpa only [List.cons_append, List.append_assoc] using hall

end

/-! ### The zone -/

section
variable {h : Host} {zone : ℕ} {s s' : Store}

/-- A row that is saved comes after those that are there. -/
theorem txtrecordSet_saveTxt {name data : Text} (hname : h.py.lower name = name)
    (hrun : run (saveTxt h zone name data) s = (.ok (), s')) :
    txtrecordSet s' zone = txtrecordSet s zone ++ [⟨name, data⟩] := by
  have hrow : run (saveRow h ⟨s.records.next, zone, name, 86400, .txt data⟩) s = (.ok (), s') := hrun
  obtain ⟨_, t, hqueue, hrow⟩ := run_bind_eq_ok.mp hrow
  obtain rfl : { s with queue := s.queue ++ [zone] } = t := congrArg Prod.snd hqueue
  obtain ⟨columns, t, hcolumns, hwrite⟩ := run_bind_eq_ok.mp hrow
  obtain ⟨rfl, rfl⟩ : RecordData.txt data = columns ∧ { s with queue := s.queue ++ [zone] } = t := by
    constructor
    · exact Except.ok.inj (congrArg Prod.fst hcolumns)
    · exact congrArg Prod.snd hcolumns
  unfold writeRow at hwrite
  split_ifs at hwrite
  · obtain rfl := congrArg Prod.snd hwrite
    rw [hname]
    show (Table.save _ _).rows.filterMap _ = _
    rw [rows_save_fresh rfl, List.filterMap_append]
    simp [txtrecordSet]
  · cases congrArg Prod.fst hwrite

theorem checkDmarc_of_append {data : Text} {before : List TxtRecord}
    (hset : dmarcRecords s' zone = before ++ [⟨"_dmarc".toList, data⟩]) :
    checkDmarc s' zone = if before = [] then checkData data else .multiplePresent := by
  unfold checkDmarc
  rw [hset]
  rcases before with - | ⟨r, _ | ⟨r', before⟩⟩
  · rfl
  · rfl
  · rfl

/-- **The check of a generated record**, for every form, whatever the addresses in it are: it is the record of
the form if the zone had none, and one too many otherwise. -/
theorem checkDmarc_generateDmarc (h : Host) (zone : ℕ) (form : DmarcForm) (s s' : Store)
    (hrun : run (generateDmarc h zone form) s = (.ok (), s')) :
    checkDmarc s' zone = if dmarcRecords s zone = [] then form.status else .multiplePresent := by
  have hname : h.py.lower "_dmarc".toList = "_dmarc".toList := by
    rw [lower_ascii (by decide)]
    decide
  have hset : dmarcRecords s' zone = dmarcRecords s zone ++ [⟨"_dmarc".toList, dmarcData form⟩] := by
    unfold dmarcRecords
    rw [txtrecordSet_saveTxt hname hrun, List.filter_append]
    simp
  rw [checkDmarc_of_append hset, checkData_dmarcData]

/-- An address with a semicolon: nine of ten messages are let off. -/
def exampleForm : DmarcForm :=
  ⟨.reject, none, none, .strict, .strict, none, "mailto:dmarc@example.com; pct=10".toList, []⟩

theorem checkDmarc_generateDmarc_exampleForm :
    ∃ s', run (generateDmarc .ascii 1 exampleForm) Store.empty = (.ok (), s') ∧
      checkDmarc s' 1 = .partialPercentage := by
  obtain ⟨s', hrun⟩ : ∃ s', run (generateDmarc .ascii 1 exampleForm) Store.empty = (.ok (), s') := ⟨_, rfl⟩
  refine ⟨s', hrun, (checkDmarc_generateDmarc .ascii 1 exampleForm Store.empty s' hrun).trans ?_⟩
  decide

/-- The rows that `check_spf` reads. -/
def spfRecords (s : Store) (zone : ℕ) : List TxtRecord :=
  ((txtrecordSet s zone).filter (·.recordName = ['@'])).filter (isSpf ·.data)

/-- The records of a new zone pass both checks, unless the zone has others of their kind. -/
theorem checks_setupInitialRecords (hrun : run (setupInitialRecords h zone) s = (.ok (), s')) :
    checkDmarc s' zone = (if dmarcRecords s zone = [] then .ok else .multiplePresent) ∧
    checkSpf s' zone = if spfRecords s zone = [] then .ok else .multiplePresent := by
  have hlower : ∀ name ∈ [['@'], "_dmarc".toList, "*._domainkey".toList], h.py.lower name = name := by
    intro name hmem
    simp only [List.mem_cons, List.not_mem_nil, or_false] at hmem
    rcases hmem with rfl | rfl | rfl <;> rw [lower_ascii (by decide)] <;> decide
  obtain ⟨_, s1, h1, hrun⟩ := run_bind_eq_ok.mp hrun
  obtain ⟨_, s2, h2, h3⟩ := run_bind_eq_ok.mp hrun
  have hset : txtrecordSet s' zone = txtrecordSet s zone ++ [⟨['@'], "v=spf1 -all".toList⟩,
      ⟨"_dmarc".toList, "v=DMARC1;p=reject;sp=reject;adkim=s;aspf=s".toList⟩,
      ⟨"*._domainkey".toList, "v=DKIM1; p=".toList⟩] := by
    rw [txtrecordSet_saveTxt (hlower _ (by simp)) h3, txtrecordSet_saveTxt (hlower _ (by simp)) h2,
      txtrecordSet_saveTxt (hlower _ (by simp)) h1]
    simp
  constructor
  · have hdmarc : dmarcRecords s' zone =
        dmarcRecords s zone ++ [⟨"_dmarc".toList, "v=DMARC1;p=reject;sp=reject;adkim=s;aspf=s".toList⟩] := by
      unfold dmarcRecords
      rw [hset, List.filter_append]
      rfl
    rw [checkDmarc_of_append hdmarc]
    rfl
  · have hspf : spfRecords s' zone = spfRecords s zone ++ [⟨['@'], "v=spf1 -all".toList⟩] := by
      unfold spfRecords
      rw [hset, List.filter_append, List.filter_append]
      rfl
    show (match spfRecords s' zone with | [] => _ | [r] => _ | _ => _) = _
    rw [hspf]
    rcases spfRecords s zone with - | ⟨r, _ | ⟨r', before⟩⟩
    · decide
    · rfl
    · rfl

end

end HexDns.Views.Dmarc
