import HexDns.Models.Convert

/-! # Updating a row and creating one

For one resource record, `update_from_rr` of a row and `from_rr` of its class should give the same name,
TTL and rdata columns, or both raise; `Agree` says so. The columns that a resource record determines are
`determined`, the others of a model `kept`: `auto_reverse` of the address rows, which `from_rr` leaves at
its default.

`NAPTRRecord.update_from_rr` ends four of its assignments with a comma, so that `preference`, `flags`,
`service` and `regexp` become tuples. `agree_iff`: the two methods agree for all rows but the NAPTR rows,
and for these when both raise. -/

namespace HexDns.Models.UpdateFromRr

open HexDns.Lib.Texts HexDns.Lib.Programs HexDns.Base.Py HexDns.Base.Label HexDns.Base.Message
  HexDns.Models.Db HexDns.Models.Env HexDns.Models.Convert

section
variable (h : Host)

/-- The columns that `from_rr` of a class sets; the others have none. -/
def createColumns : Model → Rr → Except PyErr RecordData
  | .address => addressColumns true
  | .cname => cnameColumns
  | .mx => mxColumns
  | .ns => nsColumns
  | .txt => txtColumns
  | .srv => srvColumns
  | .caa => caaColumns
  | .naptr => naptrColumns
  | .ds => dsColumns
  | .dnskey => dnskeyColumns
  | .loc => locColumns
  | .hinfo => hinfoColumns
  | .rp => rpColumns h
  | .dhcid => dhcidColumns
  | _ => fun _ => .error .attributeError

/-- `cls.from_rr(rr, zone)`, for a row that is to have the key `id` -/
def created (m : Model) (rr : Rr) (zone : Zone) (id : ℕ) : Except PyErr Row :=
  fromRr h (createColumns h m) rr zone id

/-- The row after `row.update_from_rr(rr)` -/
def updated (row : Row) (rr : Rr) (zone : Zone) : Except PyErr Row :=
  updateFromRr h (updateColumns h row) row rr zone

end

/-! ### Agreement -/

/-- The columns that a resource record determines. -/
def determined : RecordData → RecordData
  | .address address _ => .address address true
  | data => data

/-- The columns that it does not. -/
def kept : RecordData → Option Bool
  | .address _ autoReverse => some autoReverse
  | _ => none

/-- The updated row has the fields of the created row that the resource record determines, and the other
ones of the old row. -/
structure SameFields (old made new : Row) : Prop where
  recordName : new.recordName = made.recordName
  ttl : new.ttl = made.ttl
  data : determined new.data = determined made.data
  id : new.id = old.id
  zone : new.zone = old.zone
  kept : kept new.data = kept old.data

/-- Both methods succeed with the same fields, or both raise. -/
def Agree (old : Row) (made new : Except PyErr Row) : Prop :=
  (∃ m n, made = .ok m ∧ new = .ok n ∧ SameFields old m n) ∨
    (∃ e, made = .error e) ∧ ∃ e, new = .error e

/-- The rdata is a NAPTR, and not the empty one. -/
def IsNaptr : Rdata → Prop
  | .naptr .. => True
  | _ => False

/-- The root of the zone is a name, and the owner is that name or has labels before it that are texts. -/
def HasRecordName (h : Host) (rname : DnsLabel) (zone : Zone) : Prop :=
  ∃ zoneName, DnsLabel.ofText h.py zone.zoneRoot = .ok zoneName ∧
    (zoneName.Eqv rname ∨ ∀ l ∈ (rname.stripSuffix zoneName).label, ∃ t, decode l = some t)

section
variable {h : Host}

theorem exists_texts_iff {l : DnsLabel} :
    (∃ ts, l.texts = .ok ts) ↔ ∀ b ∈ l.label, ∃ t, decode b = some t := by
  unfold DnsLabel.texts
  constructor
  · rintro ⟨ts, hts⟩ b hb
    obtain ⟨t, -, ht⟩ := (mem_mapM hts).2 b hb
    exact ⟨t, decodeText_eq_ok.mp ht⟩
  · intro hall
    have heach : ∀ b ∈ l.label, ∃ t, decodeText b = .ok t ∧ True := by
      intro b hb
      obtain ⟨t, ht⟩ := hall b hb
      exact ⟨t, decodeText_eq_ok.mpr ht, trivial⟩
    obtain ⟨ts, hts, -⟩ := exists_mapM heach
    exact ⟨ts, hts⟩

/-- When an owner has a record name. -/
theorem exists_recordName_iff {rname : DnsLabel} {zone : Zone} :
    (∃ name, dnsLabelToRecordName h rname zone = .ok name) ↔ HasRecordName h rname zone := by
  unfold HasRecordName dnsLabelToRecordName
  rcases DnsLabel.ofText h.py zone.zoneRoot with e | zoneName
  · simp [bind, Except.bind]
  by_cases heq : zoneName.Eqv rname
  · simp [bind, Except.bind, heq, pure, Except.pure]
  · have htexts := exists_texts_iff (l := rname.stripSuffix zoneName)
    rcases ht : (rname.stripSuffix zoneName).texts with e | ts
    · rw [ht] at htexts
      simp [bind, Except.bind, heq, ht] at htexts ⊢
      exact htexts
    · rw [ht] at htexts
      simp [bind, Except.bind, heq, ht, pure, Except.pure] at htexts ⊢
      exact htexts

/-! ### The two methods of a class -/

theorem kept_eq_none {d : RecordData} (hd : d.model ≠ .address) : kept d = none := by
  rcases d with _ | _ | _ | _ | _ | _ | _ | _ | _ | _ | _ | _ | _ | _ | _ | _ | _ | _ | _ | _
  case address => exact absurd rfl hd
  all_goals rfl

/-- The columns of the two methods: the same ones, but for the rows that keep a column and for the
NAPTR rows. -/
theorem createColumns_eq (row : Row) :
    (∃ address autoReverse, row.data = .address address autoReverse) ∨
      (row.model = .naptr ∧ updateColumns h row = naptrUpdateColumns) ∨
      row.model ≠ .address ∧ row.model ≠ .naptr ∧ createColumns h row.model = updateColumns h row := by
  unfold Row.model updateColumns
  rcases row.data with ⟨address, autoReverse⟩ | _ | _ | _ | _ | _ | _ | _ | _ | _ | _ | _ | _ | _ | _ | _ |
    _ | _ | _ | _
  case address => exact Or.inl ⟨address, autoReverse, rfl⟩
  case naptr => exact Or.inr (Or.inl ⟨rfl, rfl⟩)
  all_goals exact Or.inr (Or.inr ⟨(fun hm => nomatch hm), (fun hm => nomatch hm), rfl⟩)

/-- Columns that are the same for both methods give rows that agree. -/
theorem agree_of_columns {create update : Rr → Except PyErr RecordData} {row : Row} {rr : Rr} {zone : Zone}
    {id : ℕ} (herr : ∀ e, create rr = .error e → update rr = .error e)
    (hok : ∀ made, create rr = .ok made → ∃ new, update rr = .ok new ∧
      determined new = determined made ∧ kept new = kept row.data) :
    Agree row (fromRr h create rr zone id) (updateFromRr h update row rr zone) := by
  unfold fromRr updateFromRr
  rcases dnsLabelToRecordName h rr.rname zone with e | name
  · exact Or.inr ⟨⟨e, rfl⟩, e, rfl⟩
  rcases hc : create rr with e | made
  · rw [herr e hc]
    exact Or.inr ⟨⟨e, rfl⟩, e, rfl⟩
  · obtain ⟨new, hnew, hdetermined, hkept⟩ := hok made hc
    rw [hnew]
    exact Or.inl ⟨_, _, rfl, rfl, rfl, rfl, hdetermined, rfl, rfl, hkept⟩

/-- The rows of a class other than NAPTR. -/
theorem agree_of_ne_naptr {row : Row} (hrow : row.model ≠ .naptr) (rr : Rr) (zone : Zone) (id : ℕ) :
    Agree row (created h row.model rr zone id) (updated h row rr zone) := by
  rcases createColumns_eq (h := h) row with ⟨address, autoReverse, hdata⟩ | hnaptr | ⟨hne, -, heq⟩
  · have hmodel : row.model = .address := by
      unfold Row.model
      rw [hdata]
      rfl
    have hupdate : updateColumns h row = addressColumns autoReverse := by
      unfold updateColumns
      rw [hdata]
    unfold created updated
    rw [hmodel, hupdate]
    refine agree_of_columns (fun e he => nomatch he) fun made hmade => ?_
    obtain rfl := Except.ok.inj hmade
    exact ⟨_, rfl, rfl, by rw [hdata]; rfl⟩
  · exact absurd hnaptr.1 hrow
  · unfold created updated
    rw [heq]
    refine agree_of_columns (fun e he => he) fun made hmade => ⟨made, hmade, rfl, ?_⟩
    have hmodel : made.model = row.model := makes_updateColumns row rr made hmade
    have hmade : kept made = none := kept_eq_none (by rw [hmodel]; exact hne)
    have hold : kept row.data = none := kept_eq_none hne
    rw [hmade, hold]

/-- The tuples of an updated NAPTR row are not the values of a created one. -/
theorem determined_naptrUpdateColumns {rr : Rr} {made new : RecordData} (hmade : naptrColumns rr = .ok made)
    (hnew : naptrUpdateColumns rr = .ok new) : determined new ≠ determined made := by
  unfold naptrColumns at hmade
  unfold naptrUpdateColumns at hnew
  split at hmade
  · rename_i hrdata
    rw [hrdata] at hnew
    obtain rfl := Except.ok.inj hmade
    obtain rfl := Except.ok.inj hnew
    intro heq
    have hpreference := (RecordData.naptr.inj heq).2.1
    cases hpreference
  · cases hmade

theorem updateColumns_naptr {row : Row} (hmodel : row.model = .naptr) :
    updateColumns h row = naptrUpdateColumns := by
  rcases createColumns_eq (h := h) row with ⟨_, _, hdata⟩ | ⟨-, heq⟩ | ⟨-, hne, -⟩
  · unfold Row.model at hmodel
    rw [hdata] at hmodel
    cases hmodel
  · exact heq
  · exact absurd hmodel hne

/-- **An update leaves the fields of a created row, but for the tuples of a NAPTR row.** For every row
and every resource record, the updated row has the name, the TTL and the rdata columns of the row that
its class creates, and its other fields unchanged, or both methods raise, if and only if the row is no
NAPTR row, or the rdata is no NAPTR or the owner has no record name, so that both methods raise. -/
theorem agree_iff (row : Row) (rr : Rr) (zone : Zone) (id : ℕ) :
    Agree row (created h row.model rr zone id) (updated h row rr zone) ↔
      (row.model = .naptr → IsNaptr rr.rdata → ¬ HasRecordName h rr.rname zone) := by
  constructor
  · intro hagree hmodel hnaptr hname
    obtain ⟨name, hname⟩ := exists_recordName_iff.mpr hname
    have hmade : ∃ made, naptrColumns rr = .ok made := by
      unfold naptrColumns
      rcases hrdata : rr.rdata <;> rw [hrdata] at hnaptr
      case naptr => exact ⟨_, rfl⟩
      all_goals cases hnaptr
    obtain ⟨made, hmade⟩ := hmade
    have hcreated : created h row.model rr zone id = .ok ⟨id, zone.id, name, rr.ttl, made⟩ := by
      unfold created
      rw [hmodel]
      exact fromRr_eq_ok.mpr ⟨name, made, hname, hmade, rfl⟩
    rcases hagree with ⟨m, n, hm, hn, hsame⟩ | ⟨⟨e, he⟩, -⟩
    · rw [hcreated] at hm
      obtain rfl := Except.ok.inj hm
      unfold updated at hn
      rw [updateColumns_naptr hmodel] at hn
      obtain ⟨_, new, -, hnew, rfl⟩ := updateFromRr_eq_ok.mp hn
      exact determined_naptrUpdateColumns hmade hnew hsame.data
    · rw [hcreated] at he
      cases he
  · intro hcond
    by_cases hmodel : row.model = .naptr
    · unfold created updated
      rw [updateColumns_naptr hmodel, hmodel]
      unfold fromRr updateFromRr
      rcases hname : dnsLabelToRecordName h rr.rname zone with e | name
      · exact Or.inr ⟨⟨e, rfl⟩, e, rfl⟩
      · have hrdata : ¬ IsNaptr rr.rdata := fun hnaptr =>
          hcond hmodel hnaptr (exists_recordName_iff.mp ⟨name, hname⟩)
        show Agree row (naptrColumns rr >>= _) (naptrUpdateColumns rr >>= _)
        unfold naptrColumns naptrUpdateColumns
        rcases hr : rr.rdata <;> rw [hr] at hrdata <;>
          first | exact absurd trivial hrdata | exact Or.inr ⟨⟨_, rfl⟩, _, rfl⟩
    · exact agree_of_ne_naptr hmodel rr zone id

end

/-- `sip IN NAPTR 10 20 "S" "SIP+D2U" "" _sip._udp.example.com.` -/
def exampleNaptr : Rr :=
  ⟨⟨[encode "sip".toList, encode "example".toList, encode "com".toList]⟩, .naptr, .in, 300,
    .naptr 10 20 (.bytes (encode "S".toList)) (.bytes (encode "SIP+D2U".toList)) (.bytes [])
      ⟨[encode "_sip".toList, encode "_udp".toList, encode "example".toList, encode "com".toList]⟩⟩

def exampleRow : Row :=
  ⟨1, 1, "sip".toList, 300, .naptr (.int 1) (.int 1) (.str ['S']) (.str ['x']) (.str []) (.str ['.'])⟩

/-- A NAPTR row that is updated has a tuple for its preference, a created one the number. -/
theorem not_agree_naptr : ¬ ∀ (h : Host) (row : Row) (rr : Rr) (zone : Zone) (id : ℕ),
    row.zone = zone.id → Agree row (created h row.model rr zone id) (updated h row rr zone) := by
  intro hall
  have hagree := hall Host.ascii exampleRow exampleNaptr ⟨1, "example.com".toList, false⟩ 2 rfl
  rcases hagree with ⟨m, n, hm, hn, hsame⟩ | ⟨⟨e, he⟩, -⟩
  · obtain ⟨_, made, -, hmade, rfl⟩ := fromRr_eq_ok.mp hm
    obtain ⟨_, new, -, hnew, rfl⟩ := updateFromRr_eq_ok.mp hn
    have hmade : naptrColumns exampleNaptr = .ok made := hmade
    have hnew : naptrUpdateColumns exampleNaptr = .ok new := hnew
    exact determined_naptrUpdateColumns hmade hnew hsame.data
  · have hname : dnsLabelToRecordName Host.ascii exampleNaptr.rname ⟨1, "example.com".toList, false⟩ =
        .ok "sip".toList := by decide
    have hok : created Host.ascii exampleRow.model exampleNaptr ⟨1, "example.com".toList, false⟩ 2 = .ok _ :=
      fromRr_eq_ok.mpr ⟨_, _, hname, rfl, rfl⟩
    rw [hok] at he
    cases he

end HexDns.Models.UpdateFromRr
