import HexDns.Grpc.Steps

/-! # What an update secret may write

An update secret is for a zone, for the names at or below its `restrict_to` label, and if it is of the
ACME type for TXT records whose first label is `_acme-challenge` (`Permitted`). `can_manage` says so
of the name in the message. The rows that an update deletes or changes come from `find_records`,
which falls back to the wildcard name: a row reached that way has another name than the one that
has been checked. `confined_iff` says when this makes a difference. -/

namespace HexDns.Grpc.Confined

open HexDns.Lib.Texts HexDns.Lib.Tables HexDns.Lib.Programs HexDns.Base.Py HexDns.Base.Label
  HexDns.Base.Message HexDns.Models.Db HexDns.Models.Env HexDns.Models.Convert
  HexDns.Grpc.FindZone HexDns.Grpc.Records HexDns.Grpc.Tsig HexDns.Grpc.Update HexDns.Grpc.Steps

/-! ### Permitted rows -/

/-- The name of a row is the label, or ends with it after a dot; the root is above every name. -/
def AtOrBelow (name : Text) (l : DnsLabel) : Prop :=
  l.label = [] ∨ ∃ t, l.searchName = .ok t ∧
    (name.map lowerChar = t.map lowerChar ∨ '.' :: t.map lowerChar <:+ name.map lowerChar)

/-- `_acme-challenge` as a text -/
def acmeText : Text := "_acme-challenge".toList

/-- The secret is for the row. -/
structure Permitted (h : Host) (key : UpdateSecret) (r : Row) : Prop where
  zone : r.zone = key.zone
  name : key.restrictTo = ['@'] ∨
    ∃ l, DnsLabel.ofText h.py key.restrictTo = .ok l ∧ AtOrBelow r.recordName l
  acme : key.type = .acmeDns01 → r.model = .txt ∧ r.recordName.takeWhile (· ≠ '.') = acmeText

/-- The message has a TSIG of the secret, which verifies and is of the time `now`. -/
structure SignedBy (h : Host) (now : ℕ) (st : Store) (msg : Bytes) (key : UpdateSecret) : Prop where
  isSecret : key ∈ st.updateSecrets
  signed : ∃ dnsReq inc zoneName rr data, h.parse msg = .ok dnsReq ∧
    lowerName h dnsReq.q.qname = .ok zoneName ∧ dnsReq.ar.getLast? = some rr ∧ rr.rtype = .tsig ∧
      tsigKeyOf h st rr.rname zoneName = some key ∧ inc.tsigKey = key ∧ inc.keyName = rr.rname ∧
        rr.rdata = .rd data ∧ decodeTsig h data = .ok inc.tsig ∧
          (∃ alg, inc.tsig.algName.texts = .ok alg ∧
            hmacNames.lookup (['.'].intercalate (alg.map h.py.lower)) = some inc.digest) ∧
          macVerifies h dnsReq inc = .ok true ∧ timely now inc.tsig = .ok true

/-- The writes to record rows of one message. -/
def writes (h : Host) (now : ℕ) (msg : Bytes) (st : Store) : List Write :=
  (updateQuery h now msg st).2.journal.drop st.journal.length

/-- **Every row that the message creates, changes or deletes, before and after it, is one that the
secret which signed it is for.** -/
def WritesWithin (h : Host) (now : ℕ) (msg : Bytes) (st : Store) : Prop :=
  ∀ w ∈ writes h now msg st, ∃ key, SignedBy h now st msg key ∧ ∀ r ∈ w.rows, Permitted h key r

/-! ### Rows reached through the wildcard -/

/-- The row that a write finds in the database. -/
def before : Write → Option Row
  | .create _ => none
  | .change r _ => some r
  | .delete r => some r

/-- The secret is an ACME secret, or restricted to a label with as many labels as the name. -/
def Tight (h : Host) (tsigKey : UpdateSecret) (recordName : DnsLabel) : Prop :=
  tsigKey.type = .acmeDns01 ∨ tsigKey.restrictTo ≠ ['@'] ∧
    ∃ l, DnsLabel.ofText h.py tsigKey.restrictTo = .ok l ∧
      l.label.length = recordName.label.length

/-- A record of the update section deletes or changes a row with another name than its own, which is
the wildcard name, and the secret is not for the wildcard name too. -/
def Strays (h : Host) (st : Store) (tsigKey : UpdateSecret) (zone : Zone) (zoneName : DnsLabel)
    (rr : Rr) : Prop :=
  (∃ w r, Writes h st tsigKey zone zoneName rr w ∧ before w = some r ∧
    (rr.rname.stripSuffix zoneName).searchName ≠ .ok r.recordName) ∧
      Tight h tsigKey (rr.rname.stripSuffix zoneName)

variable {h : Host}

/-! ### What `can_manage` has checked -/

theorem canManage_eq_true {tsigKey : UpdateSecret} {t : QType} {recordName : DnsLabel}
    (hc : canManage h tsigKey t recordName = .ok true) :
    (tsigKey.restrictTo = ['@'] ∨ ∃ l, DnsLabel.ofText h.py tsigKey.restrictTo = .ok l ∧
      recordName.matchSuffix l = true) ∧
    (tsigKey.type = .acmeDns01 → t = .txt ∧ ∃ bs, recordName.label = acmeChallenge :: bs) := by
  unfold canManage at hc
  obtain ⟨below, hbelow, hc⟩ := bind_eq_ok.mp hc
  rcases below with _ | _
  · cases hc
  refine ⟨?_, fun htype => ?_⟩
  · unfold inRestriction at hbelow
    by_cases hat : tsigKey.restrictTo = ['@']
    · exact Or.inl hat
    · rw [if_neg hat] at hbelow
      rcases hl : DnsLabel.ofText h.py tsigKey.restrictTo with e | l
      · rw [hl] at hbelow; cases hbelow
      · rw [hl] at hbelow
        exact Or.inr ⟨l, rfl, Except.ok.inj hbelow⟩
  · rw [if_pos rfl, htype] at hc
    dsimp only at hc
    rcases hlab : recordName.label with _ | ⟨b, bs⟩
    · rw [hlab] at hc; cases hc
    · rw [hlab] at hc
      have := of_decide_eq_true (Except.ok.inj hc)
      exact ⟨this.2, bs, by rw [this.1]⟩

/-! ### Names at or below a label -/

theorem lowerChar_dot : lowerChar '.' = '.' := by decide

theorem map_lower_joined (ts : List Text) :
    (['.'].intercalate ts).map lowerChar = ['.'].intercalate (ts.map (·.map lowerChar)) := by
  rw [map_intercalate, List.map_singleton, lowerChar_dot]

/-- The label ends the texts, but for the case of ASCII letters. -/
theorem atOrBelow_of_texts {l : DnsLabel} (ps : List Text) {vs us : List Text} (hl : l.texts = .ok us)
    (h : vs.map (·.map lowerChar) = us.map (·.map lowerChar)) :
    AtOrBelow (['.'].intercalate (ps ++ vs)) l := by
  by_cases hnil : l.label = []
  · exact Or.inl hnil
  right
  refine ⟨_, searchName_eq_ok.mpr ⟨us, hl, rfl⟩, ?_⟩
  have hvs : vs.map (·.map lowerChar) ≠ [] := by
    rw [h]
    intro h'
    have hu : us = [] := List.map_eq_nil_iff.mp h'
    have hlen := length_texts hl
    rw [hu] at hlen
    exact hnil (List.length_eq_zero_iff.mp hlen.symm)
  rw [map_lower_joined, map_lower_joined, ← h, List.map_append]
  exact intercalate_suffix ['.'] (List.suffix_append _ _) hvs

/-- A name as it is looked up, or as it is stored. -/
theorem atOrBelow_of_matchSuffix {py : Python} {recordName l : DnsLabel} {t : Text}
    (hl : DnsLabel.ofText py t = .ok l) (hm : recordName.matchSuffix l = true) {ts : List Text}
    (hts : recordName.texts = .ok ts) : AtOrBelow (['.'].intercalate ts) l ∧
      AtOrBelow (['.'].intercalate (ts.map py.lower)) l := by
  obtain ⟨us, hus, hasc⟩ := exists_texts (ascii_ofText hl)
  obtain ⟨ps, vs, rfl, heq⟩ := texts_of_matchSuffix hm hts hus
  refine ⟨atOrBelow_of_texts ps hus heq, ?_⟩
  rw [List.map_append]
  refine atOrBelow_of_texts _ hus ?_
  -- the texts of the label are ASCII, so that lower case is the same for both
  have hlow : vs.map py.lower = us.map (·.map lowerChar) := by
    have h1 : vs.map py.lower = (vs.map (·.map lowerChar)).map py.lower := by simp
    have h2 : us.map py.lower = (us.map (·.map lowerChar)).map py.lower := by simp
    rw [h1, heq, ← h2]
    exact List.map_congr_left fun u hu => lower_ascii (hasc u hu)
  rw [hlow, List.map_map]
  refine List.map_congr_left fun u _ => ?_
  simp [lowerChar_lowerChar]

theorem eq_star_of_joined {u : Text} {js : List Text}
    (h : ['.'].intercalate ((['*'] : Text).map lowerChar :: js) =
        ['.'].intercalate (u.map lowerChar :: js) ∨
      '.' :: ['.'].intercalate (u.map lowerChar :: js) <:+
        ['.'].intercalate ((['*'] : Text).map lowerChar :: js)) : u = ['*'] := by
  have hstar : (['*'] : Text).map lowerChar = ['*'] := by decide
  have hinj : u.map lowerChar = ['*'] → u = ['*'] := by
    intro hu
    obtain ⟨c, rfl, hc⟩ := List.map_eq_singleton_iff.mp hu
    have : c = '*' := by
      unfold lowerChar at hc
      split_ifs at hc with hr
      · have := congrArg Char.toNat hc
        rw [toNat_ofNat_lt (by omega)] at this
        simp at this; omega
      · exact hc
    rw [this]
  rw [hstar] at h
  -- what follows the first text is the same in both
  obtain ⟨rest, hstars, hus⟩ : ∃ rest : Text, ['.'].intercalate (['*'] :: js) = ['*'] ++ rest ∧
      ['.'].intercalate (u.map lowerChar :: js) = u.map lowerChar ++ rest := by
    rcases js with _ | ⟨j, js⟩
    · exact ⟨[], by simp, by simp⟩
    · exact ⟨'.' :: ['.'].intercalate (j :: js), by simp, by simp⟩
  rw [hstars, hus] at h
  rcases h with h | h
  · exact hinj (List.append_cancel_right h).symm
  · have hlen := h.length_le
    have heq := h.eq_of_length_le (by simp)
    exact absurd (List.cons.inj heq).1 (by decide)

/-- The wildcard name is below the label exactly if the label has fewer labels than the name, unless
the wildcard name is the name. -/
theorem atOrBelow_wildcard {py : Python} {recordName l : DnsLabel} {t : Text}
    (hl : DnsLabel.ofText py t = .ok l) (hm : recordName.matchSuffix l = true) {u : Text}
    {ts : List Text} (hts : recordName.texts = .ok (u :: ts)) (hu : u ≠ ['*']) :
    AtOrBelow (['.'].intercalate (['*'] :: ts)) l ↔ l.label.length ≠ recordName.label.length := by
  obtain ⟨us, hus, -⟩ := exists_texts (ascii_ofText hl)
  obtain ⟨ps, vs, hpv, heq⟩ := texts_of_matchSuffix hm hts hus
  have hlen : us.length = l.label.length := length_texts hus
  have hlen' : (u :: ts).length = recordName.label.length := length_texts hts
  have hvu : vs.length = us.length := by simpa using congrArg List.length heq
  rw [← hlen, ← hlen', ← hvu, hpv]
  rcases ps with _ | ⟨p, ps⟩
  · -- the label is the name
    refine iff_of_false ?_ (by simp)
    obtain rfl : u :: ts = vs := hpv
    rintro (hnil | ⟨t', ht', hor⟩)
    · rw [hnil] at hlen; rw [hlen] at hvu; simp at hvu
    obtain ⟨us', hus', rfl⟩ := searchName_eq_ok.mp ht'
    obtain rfl : us = us' := Except.ok.inj (hus.symm.trans hus')
    rw [map_lower_joined, map_lower_joined, ← heq, List.map_cons, List.map_cons] at hor
    exact absurd (eq_star_of_joined hor) hu
  · obtain ⟨rfl, rfl⟩ := List.cons.inj hpv
    refine iff_of_true ?_ (by simp; omega)
    exact atOrBelow_of_texts (['*'] :: ps) hus heq

/-! ### Rows that the secret is for -/

theorem takeWhile_joined {t : Text} (ht : ∀ c ∈ t, c ≠ '.') (ts : List Text) :
    (['.'].intercalate (t :: ts)).takeWhile (· ≠ '.') = t := by
  have htake : t.takeWhile (· ≠ '.') = t :=
    List.takeWhile_eq_self_iff.mpr fun c hc => decide_eq_true (ht c hc)
  rcases ts with _ | ⟨t', ts⟩
  · rw [List.intercalate_singleton]; exact htake
  · rw [List.intercalate_cons_cons, List.append_assoc, List.takeWhile_append_of_pos]
    · simp
    · exact fun c hc => decide_eq_true (ht c hc)

theorem decode_acmeChallenge : decode acmeChallenge = some acmeText := decode_encode _

theorem lower_acmeText (py : Python) : py.lower acmeText = acmeText := by
  rw [lower_ascii (by decide)]; decide

section
variable {tsigKey : UpdateSecret} {t : QType} {recordName : DnsLabel} {ts : List Text} {r : Row}

/-- A row with the name in the message, as it is looked up or as it is stored. -/
theorem permitted_of_texts (hc : canManage h tsigKey t recordName = .ok true)
    (hts : recordName.texts = .ok ts) (hzone : r.zone = tsigKey.zone)
    (hmodel : t = .txt → r.model = .txt) (hname : r.recordName = ['.'].intercalate ts ∨
      r.recordName = ['.'].intercalate (ts.map h.py.lower)) : Permitted h tsigKey r := by
  obtain ⟨hrestrict, hacme⟩ := canManage_eq_true hc
  refine ⟨hzone, ?_, fun htype => ?_⟩
  · rcases hrestrict with hat | ⟨l, hl, hm⟩
    · exact Or.inl hat
    · obtain ⟨h1, h2⟩ := atOrBelow_of_matchSuffix hl hm hts
      refine Or.inr ⟨l, hl, ?_⟩
      rcases hname with hname | hname
      · rw [hname]; exact h1
      · rw [hname]; exact h2
  · obtain ⟨ht, bs, hlab⟩ := hacme htype
    obtain ⟨u, us, rfl, hu, -⟩ := (texts_eq_ok hlab).mp hts
    obtain rfl : acmeText = u := Option.some.inj (decode_acmeChallenge.symm.trans hu)
    refine ⟨hmodel ht, ?_⟩
    rcases hname with hname | hname
    · rw [hname]; exact takeWhile_joined (by decide) us
    · rw [hname, List.map_cons, lower_acmeText]; exact takeWhile_joined (by decide) _

/-- A row at the apex, whatever its name is. -/
theorem permitted_of_apex (hc : canManage h tsigKey t recordName = .ok true)
    (hnil : recordName.label = []) (hzone : r.zone = tsigKey.zone) : Permitted h tsigKey r := by
  obtain ⟨hrestrict, hacme⟩ := canManage_eq_true hc
  refine ⟨hzone, ?_, fun htype => ?_⟩
  · rcases hrestrict with hat | ⟨l, hl, hm⟩
    · exact Or.inl hat
    · obtain ⟨hsuf, -⟩ := matchSuffix_iff.mp hm
      rw [lower_eq_nil.mpr hnil] at hsuf
      exact Or.inr ⟨l, hl, Or.inl (lower_eq_nil.mp (List.suffix_nil.mp hsuf))⟩
  · obtain ⟨-, bs, hlab⟩ := hacme htype
    rw [hnil] at hlab; cases hlab

/-- A row with the wildcard name, which is another one. -/
theorem permitted_wildcard_iff (hc : canManage h tsigKey t recordName = .ok true) {u : Text}
    (hts : recordName.texts = .ok (u :: ts)) (hu : u ≠ ['*']) (hzone : r.zone = tsigKey.zone)
    (hname : r.recordName = ['.'].intercalate (['*'] :: ts)) :
    Permitted h tsigKey r ↔ ¬ Tight h tsigKey recordName := by
  obtain ⟨hrestrict, -⟩ := canManage_eq_true hc
  have hfirst : r.recordName.takeWhile (· ≠ '.') ≠ acmeText := by
    rw [hname, takeWhile_joined (by decide)]; decide
  constructor
  · rintro hp (htype | ⟨hat, l, hl, hlen⟩)
    · exact hfirst (hp.acme htype).2
    · obtain ⟨l', hl', hm⟩ := hrestrict.resolve_left hat
      obtain rfl := Except.ok.inj (hl.symm.trans hl')
      obtain ⟨l'', hl'', hbelow⟩ := hp.name.resolve_left hat
      obtain rfl := Except.ok.inj (hl.symm.trans hl'')
      rw [hname] at hbelow
      exact (atOrBelow_wildcard hl hm hts hu).mp hbelow hlen
  · intro hn
    refine ⟨hzone, ?_, fun htype => absurd (Or.inl htype) hn⟩
    rcases hrestrict with hat | ⟨l, hl, hm⟩
    · exact Or.inl hat
    by_cases hat : tsigKey.restrictTo = ['@']
    · exact Or.inl hat
    refine Or.inr ⟨l, hl, ?_⟩
    rw [hname]
    exact (atOrBelow_wildcard hl hm hts hu).mpr fun hlen => hn (Or.inr ⟨hat, l, hl, hlen⟩)

/-- A row that has been found by the name in the message. -/
theorem permitted_found_iff (hc : canManage h tsigKey t recordName = .ok true) {st : Store}
    {zone : Zone} {m : Model} (hid : tsigKey.zone = zone.id) {s : Text}
    (hs : recordName.searchName = .ok s) (hr : r ∈ foundRows st recordName zone m)
    (hmodel : t = .txt → r.model = .txt) :
    Permitted h tsigKey r ↔
      ¬ (recordName.searchName ≠ .ok r.recordName ∧ Tight h tsigKey recordName) := by
  obtain ⟨w, hw⟩ := exists_searchName_wildcard hs
  obtain ⟨-, -, hzone, hname⟩ := (mem_foundRows hs hw).mp hr
  obtain ⟨ts, hts, rfl⟩ := searchName_eq_ok.mp hs
  have hz : r.zone = tsigKey.zone := hzone.trans hid.symm
  by_cases heq : r.recordName = ['.'].intercalate ts
  · refine iff_of_true (permitted_of_texts hc hts hz hmodel (Or.inl heq)) ?_
    rintro ⟨hne, -⟩
    exact hne (by rw [heq]; exact hs)
  have hwild : r.recordName = w := (hname.resolve_left heq).2
  rcases ts with _ | ⟨u, ts⟩
  · -- the name has no labels, and its wildcard name is itself
    have hnil : recordName.label = [] := by
      have := length_texts hts
      exact List.length_eq_zero_iff.mp this.symm
    have hself : recordName.wildcard = recordName := by unfold DnsLabel.wildcard; rw [hnil]
    rw [hself, hs] at hw
    exact absurd (hwild.trans (Except.ok.inj hw).symm) heq
  have hstar : w = ['.'].intercalate (['*'] :: ts) := by
    obtain ⟨ts', hts', rfl⟩ := searchName_eq_ok.mp hw
    rw [texts_wildcard hts] at hts'
    rw [Except.ok.inj hts']
  have hu : u ≠ ['*'] := by
    rintro rfl
    exact heq (hwild.trans hstar)
  rw [permitted_wildcard_iff hc hts hu hz (hwild.trans hstar)]
  refine not_congr (and_iff_right fun h' => heq ?_).symm
  rw [hs] at h'
  exact (Except.ok.inj h').symm

/-- A row as it is saved. -/
theorem permitted_saved (hc : canManage h tsigKey t recordName = .ok true) {zone : Zone}
    {zoneName root rname : DnsLabel} (hname : recordName = rname.stripSuffix zoneName)
    (hroot : DnsLabel.ofText h.py zone.zoneRoot = .ok root) (heq : zoneName.Eqv root)
    (hsuf : rname.matchSuffix zoneName = true) {name : Text}
    (hn : dnsLabelToRecordName h rname zone = .ok name) (hr : r.recordName = h.py.lower name)
    (hz : r.zone = tsigKey.zone) (hmodel : t = .txt → r.model = .txt) : Permitted h tsigKey r := by
  subst hname
  rcases dnsLabelToRecordName_eq_ok hroot heq hsuf hn with ⟨hnil, -⟩ | ⟨-, ts, hts, rfl⟩
  · exact permitted_of_apex hc hnil hz
  · exact permitted_of_texts hc hts hz hmodel (Or.inr (hr.trans (lower_joined ts)))

end

/-! ### The rows of a write -/

section
variable {st : Store} {tsigKey : UpdateSecret} {zone : Zone} {zoneName root : DnsLabel} {rr : Rr}

theorem permitted_deleted_iff (hid : tsigKey.zone = zone.id) {recordName : DnsLabel} {r : Row}
    (hr : r ∈ (deletions h st tsigKey zone recordName rr).1) : Permitted h tsigKey r ↔
      ¬ (recordName.searchName ≠ .ok r.recordName ∧ Tight h tsigKey recordName) := by
  obtain ⟨⟨s, hs⟩, hcand, hdec, hman⟩ := deletes_of_mem hr
  unfold candidates at hcand
  by_cases hany : rr.rclass = .any ∧ rr.rtype = .any
  · -- each row has been checked with its own type
    rw [if_pos hany] at hcand
    obtain ⟨m, -, hfound⟩ := List.mem_flatMap.mp hcand
    unfold decision decideRow at hdec
    rcases hrr : toRr h r rr.rname with e | _ | recordRr
    · rw [hrr] at hdec; cases hdec
    · rw [hrr] at hdec; cases hdec
    rw [hrr] at hdec
    simp only [if_pos hany.1, if_pos hany.2] at hdec
    obtain ⟨t, x, hx, rfl⟩ := toRr_eq_some.mp hrr
    refine permitted_found_iff (managed_eq_ok hdec) hid hs hfound fun ht => ?_
    exact model_of_rtypeOf_txt ((rtypeOf_toRdata hx).trans (congrArg some ht))
  · rw [if_neg hany] at hcand
    rcases hm : modelOfType h rr.rtype with _ | ⟨m, columns⟩
    · rw [hm] at hcand; cases hcand
    rw [hm] at hcand
    refine permitted_found_iff (hman hany) hid hs hcand fun ht => ?_
    rw [ht] at hm
    obtain rfl : Model.txt = m := (Prod.mk.inj (Option.some.inj hm)).1
    exact (foundRows_model hcand).2

/-- **The rows of a write are the secret's, but for a row reached through the wildcard.** -/
theorem permitted_rows_iff (hid : tsigKey.zone = zone.id)
    (hroot : DnsLabel.ofText h.py zone.zoneRoot = .ok root) (heq : zoneName.Eqv root)
    (hpre : prescanRr zoneName rr = none) {w : Write}
    (hw : Writes h st tsigKey zone zoneName rr w) :
    (∀ r ∈ w.rows, Permitted h tsigKey r) ↔
      ¬ ((∃ r, before w = some r ∧
        (rr.rname.stripSuffix zoneName).searchName ≠ .ok r.recordName) ∧
          Tight h tsigKey (rr.rname.stripSuffix zoneName)) := by
  obtain ⟨hsuf, -⟩ := prescanRr_eq_none hpre
  unfold Writes at hw
  rcases hclass : rr.rclass with _ | _ | _ | c
  · rw [hclass] at hw
    dsimp only at hw
    rcases ha : addition h st tsigKey zone (rr.rname.stripSuffix zoneName) rr with stop | _ |
      ⟨old, new⟩ | new
    · rw [ha] at hw; exact hw.elim
    · rw [ha] at hw; exact hw.elim
    · rw [ha] at hw
      obtain ⟨row, hsave, rfl⟩ := hw
      obtain ⟨m, columns, made, records, hl⟩ := addition_eq_change ha
      obtain ⟨s, hs⟩ : ∃ s, (rr.rname.stripSuffix zoneName).searchName = .ok s := by
        obtain ⟨s, hs, -⟩ := bind_eq_ok.mp hl.listed
        exact ⟨s, hs⟩
      obtain ⟨w, hw⟩ := exists_searchName_wildcard hs
      obtain ⟨-, hmodel, hzone, -⟩ := (mem_foundRows hs hw).mp hl.mem
      have htxt : rr.rtype = .txt → old.model = .txt := fun ht => by
        have hm := hl.model
        rw [ht] at hm
        exact hmodel.trans (Prod.mk.inj (Option.some.inj hm)).1.symm
      obtain ⟨name, data, hname, hdata, rfl⟩ := updateFromRr_eq_ok.mp (matching_eq_some hl.matched).2.2
      obtain ⟨data', hdata', rfl, -⟩ := saved_eq_ok.mp hsave
      have hnew : Permitted h tsigKey
          ⟨old.id, old.zone, h.py.lower name, rr.ttl, data'⟩ :=
        permitted_saved hl.managed rfl hroot heq hsuf hname rfl (hzone.trans hid.symm) fun ht =>
          (model_columnsOf hdata').trans ((makes_updateColumns old rr data hdata).trans (htxt ht))
      have hold := permitted_found_iff hl.managed hid hs hl.mem htxt
      simp only [Write.rows, before, List.forall_mem_cons, List.not_mem_nil, false_implies,
        implies_true, and_true, Option.some.injEq, exists_eq_left']
      exact (and_iff_left hnew).trans hold
    · rw [ha] at hw
      obtain ⟨row, hsave, rfl⟩ := hw
      obtain ⟨m, columns, records, hl⟩ := addition_eq_create ha
      obtain ⟨name, data, hname, hdata, rfl⟩ := fromRr_eq_ok.mp hl.made
      obtain ⟨data', hdata', rfl, -⟩ := saved_eq_ok.mp hsave
      have hnew : Permitted h tsigKey
          ⟨st.records.next, zone.id, h.py.lower name, rr.ttl, data'⟩ :=
        permitted_saved hl.managed rfl hroot heq hsuf hname rfl hid.symm fun ht => by
          have hm := hl.model
          rw [ht] at hm
          obtain rfl : Model.txt = m := (Prod.mk.inj (Option.some.inj hm)).1
          exact (model_columnsOf hdata').trans (makes_modelOfType hl.model rr data hdata)
      refine iff_of_true (fun r hr => ?_) ?_
      · rw [List.mem_singleton.mp hr]; exact hnew
      · rintro ⟨⟨r, hr, -⟩, -⟩; cases hr
  · rw [hclass] at hw
    obtain ⟨r, hr, rfl⟩ := hw
    simpa [Write.rows, before] using permitted_deleted_iff hid hr
  · rw [hclass] at hw
    obtain ⟨r, hr, rfl⟩ := hw
    simpa [Write.rows, before] using permitted_deleted_iff hid hr
  · rw [hclass] at hw; exact hw.elim

/-! ### The message -/

theorem SignedBy.eq {now : ℕ} {msg : Bytes} {key key' : UpdateSecret}
    (hk : SignedBy h now st msg key) (hk' : SignedBy h now st msg key') : key = key' := by
  obtain ⟨dnsReq, inc, zoneName, rr, data, hparse, hz, hrr, -, hkey, -⟩ := hk.signed
  obtain ⟨dnsReq', inc', zoneName', rr', data', hparse', hz', hrr', -, hkey', -⟩ := hk'.signed
  obtain rfl := Except.ok.inj (hparse.symm.trans hparse')
  obtain rfl := Except.ok.inj (hz.symm.trans hz')
  obtain rfl := Option.some.inj (hrr.symm.trans hrr')
  exact Option.some.inj (hkey.symm.trans hkey')

theorem signedBy_of_admission {now : ℕ} {msg : Bytes} {dnsReq : DnsRecord} {adm : Admitted}
    (hparse : h.parse msg = .ok dnsReq) (ha : admission h now st dnsReq = .ok adm) :
    SignedBy h now st msg adm.inc.tsigKey := by
  obtain ⟨hz, rr, data, hrr, htype, hkey, hname, hdata, htsig, halg, hmac, htime⟩ :=
    authenticate_eq_ok (admission_eq_ok ha).1
  exact ⟨mem_of_tsigKeyOf hkey, dnsReq, adm.inc, adm.zoneName, rr, data, hparse, hz, hrr, htype, hkey,
    rfl, hname, hdata, htsig, halg, hmac, htime⟩

theorem mem_writes {now : ℕ} {msg : Bytes} {w : Write} : w ∈ writes h now msg st ↔
    ∃ dnsReq adm, h.parse msg = .ok dnsReq ∧ admission h now st dnsReq = .ok adm ∧ ∃ rr st',
      Reached h adm.inc.tsigKey adm.zone adm.zoneName dnsReq.auth st rr st' ∧
        Writes h st' adm.inc.tsigKey adm.zone adm.zoneName rr w := by
  unfold writes
  rw [store_updateQuery]
  rcases hparse : h.parse msg with e | dnsReq
  · simp
  dsimp only
  rcases ha : admission h now st dnsReq with r | adm
  · simp [ha]
  obtain ⟨-, -, hpre⟩ := admission_eq_ok ha
  obtain ⟨ws, hws, hmem⟩ := journal_updateLoop (h := h) adm.inc.tsigKey adm.zone hpre st
  dsimp only
  rw [hws, List.drop_left, hmem]
  constructor
  · intro hw
    exact ⟨dnsReq, adm, rfl, ha, hw⟩
  · rintro ⟨dnsReq', adm', heq, ha', hw⟩
    obtain rfl := Except.ok.inj heq
    obtain rfl := Except.ok.inj (ha.symm.trans ha')
    exact hw

end

/-- **An update writes only what its secret is for, exactly if no record of the update section strays
to a wildcard row that the secret is not for.** -/
theorem writesWithin_iff (h : Host) (now : ℕ) (msg : Bytes) (st : Store) :
    WritesWithin h now msg st ↔ ∀ dnsReq adm, h.parse msg = .ok dnsReq →
      admission h now st dnsReq = .ok adm → ∀ rr st',
        Reached h adm.inc.tsigKey adm.zone adm.zoneName dnsReq.auth st rr st' →
          ¬ Strays h st' adm.inc.tsigKey adm.zone adm.zoneName rr := by
  have hrows : ∀ {dnsReq adm rr st' w}, admission h now st dnsReq = .ok adm →
      Reached h adm.inc.tsigKey adm.zone adm.zoneName dnsReq.auth st rr st' →
      Writes h st' adm.inc.tsigKey adm.zone adm.zoneName rr w →
      ((∀ r ∈ w.rows, Permitted h adm.inc.tsigKey r) ↔
        ¬ ((∃ r, before w = some r ∧
          (rr.rname.stripSuffix adm.zoneName).searchName ≠ .ok r.recordName) ∧
            Tight h adm.inc.tsigKey (rr.rname.stripSuffix adm.zoneName))) := by
    intro dnsReq adm rr st' w ha hr hw
    obtain ⟨-, hz, hpre⟩ := admission_eq_ok ha
    obtain ⟨-, hid, root, hroot, heq⟩ := targetZone_eq_ok hz
    obtain ⟨pre, post, hauth, -⟩ := hr
    have hrr : rr ∈ dnsReq.auth := by rw [hauth]; simp
    exact permitted_rows_iff hid hroot heq (prescanRr_of_prescan hpre hrr) hw
  constructor
  · rintro hwithin dnsReq adm hparse ha rr st' hr ⟨⟨w, r, hw, hb, hne⟩, htight⟩
    obtain ⟨key, hkey, hp⟩ := hwithin w (mem_writes.mpr ⟨dnsReq, adm, hparse, ha, rr, st', hr, hw⟩)
    obtain rfl := hkey.eq (signedBy_of_admission hparse ha)
    exact (hrows ha hr hw).mp hp ⟨⟨r, hb, hne⟩, htight⟩
  · intro hn w hw
    obtain ⟨dnsReq, adm, hparse, ha, rr, st', hr, hw⟩ := mem_writes.mp hw
    refine ⟨adm.inc.tsigKey, signedBy_of_admission hparse ha, (hrows ha hr hw).mpr ?_⟩
    rintro ⟨⟨r, hb, hne⟩, htight⟩
    exact hn dnsReq adm hparse ha rr st' hr ⟨⟨w, r, hw, hb, hne⟩, htight⟩

/-! ### An ACME secret and a wildcard row -/

def exampleRoot : DnsLabel := ⟨[encode "example".toList]⟩

def acmeSecret : UpdateSecret := ⟨7, 1, .acmeDns01, ['@'], [1, 2, 3]⟩

/-- `*.example TXT "x"` -/
def wildcardRow : Row := ⟨1, 1, ['*'], 60, .txt ['x']⟩

def wildcardStore : Store :=
  { Store.empty with
    zones := Table.empty.save ⟨1, "example".toList, false⟩
    records := Table.empty.save wildcardRow
    updateSecrets := Table.empty.save acmeSecret }

/-- Delete the TXT records of `_acme-challenge.example`. -/
def deleteChallenge : DnsRecord :=
  ⟨1, .update, [⟨exampleRoot, .soa, .in⟩], [],
    [⟨⟨acmeChallenge :: exampleRoot.label⟩, .txt, .any, 0, .empty⟩], []⟩

/-- A host for which every message is this request, signed with a secret at second 1000. -/
def hostOf (key : UpdateSecret) (dnsReq : DnsRecord) : Host :=
  { Host.ascii with
    parse := fun _ => signRequest .ascii key ⟨encode ['7'] :: exampleRoot.label⟩ .sha256 1000 dnsReq }

/-- The ACME secret deletes the wildcard row. -/
theorem not_writesWithin_wildcard :
    ¬ WritesWithin (hostOf acmeSecret deleteChallenge) 1000000000 [] wildcardStore := by
  intro hw
  have hdel : Write.delete wildcardRow ∈
      writes (hostOf acmeSecret deleteChallenge) 1000000000 [] wildcardStore := by decide
  obtain ⟨key, hkey, hp⟩ := hw _ hdel
  obtain rfl : key = acmeSecret := List.mem_singleton.mp hkey.isSecret
  exact absurd ((hp wildcardRow (List.mem_singleton.mpr rfl)).acme rfl).2 (by decide)

end HexDns.Grpc.Confined
