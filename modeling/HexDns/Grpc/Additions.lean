import HexDns.Grpc.Deletions

/-! # An addition that is made twice

The handler finds out that a record is there already by making resource records of the rows it finds
under the name and comparing rdata objects. `idempotent_iff` says when it finds again what it has
added itself. -/

namespace HexDns.Grpc.Additions

open HexDns.Lib.Texts HexDns.Lib.Tables HexDns.Lib.Programs HexDns.Base.Py HexDns.Base.Label
  HexDns.Base.Message HexDns.Models.Db HexDns.Models.Env HexDns.Models.Convert HexDns.Models.Names
  HexDns.Grpc.FindZone HexDns.Grpc.Records HexDns.Grpc.Update HexDns.Grpc.Steps
  HexDns.Grpc.Confined HexDns.Grpc.Atomic HexDns.Grpc.Deletions HexDns.Tasks.ZoneFile
  HexDns.Tasks.Published

/-! ### Copies -/

/-- The row is published as the resource record, but for the TTL. -/
def Copy (h : Host) (st : Store) (zone : Zone) (zoneRoot : DnsLabel) (rr : Rr) (r : Row) : Prop :=
  r.zone = zone.id ∧ PublishedAt h zoneRoot r rr.rname ∧
    PublishedWith h st zone zoneRoot r (SameRecord h zoneRoot rr)

/-- The addition saves this row: it is what `from_rr`, or `update_from_rr` of the first row that is
found with equal rdata, and `save` make of the resource record. -/
def Saves (h : Host) (st : Store) (tsigKey : UpdateSecret) (zone : Zone) (recordName : DnsLabel)
    (rr : Rr) (row : Row) : Prop :=
  ∃ m columns made records found new,
    Looked h st tsigKey zone recordName rr m columns made records found ∧
      (Addition.write made found).row = some new ∧ saved h new = .ok row

/-- Two messages with an addition of the same record, but for the TTL: the first is answered with
`NOERROR`, and the key of the second may manage the name and the type too. The name has no published
CNAME, and is not covered by a wildcard only. -/
structure AddsTwice (h : Host) (st st₁ st₂ : Store) (adm adm' : Admitted) (rr : Rr) (ttl : ℕ)
    (zoneRoot : DnsLabel) : Prop where
  first : ∃ now msg, Accepted h now msg st adm rr st₁
  isAddition : rr.rclass = .in
  notCname : rr.rtype ≠ .cname
  root : DnsLabel.ofText h.py adm.zone.zoneRoot = .ok zoneRoot
  noCname : ∀ r ∈ st.records, r.zone = adm.zone.id → PublishedAt h zoneRoot r rr.rname →
    ¬ PublishedWith h st adm.zone zoneRoot r fun record => record.1 = .cname
  notWildcardOnly : (∃ r ∈ st.records, r.zone = adm.zone.id ∧ PublishedAt h zoneRoot r rr.rname) ∨
    ∀ r ∈ st.records, r.zone = adm.zone.id → ¬ PublishedAt h zoneRoot r rr.rname.wildcard
  again : ∃ now msg dnsReq, h.parse msg = .ok dnsReq ∧ dnsReq.auth = [{ rr with ttl := ttl }] ∧
    admission h now st₁ dnsReq = .ok adm' ∧ st₂ = (updateQuery h now msg st₁).2
  sameZone : adm'.zone = adm.zone
  allowed : canManage h adm'.inc.tsigKey rr.rtype (rr.rname.stripSuffix adm.zoneName) = .ok true

/-- **Additions are idempotent**: after the second, exactly one row is published as the record, with
the TTL of the second, and the other rows are those from before. -/
def Idempotent (h : Host) (st : Store) : Prop :=
  ∀ st₁ st₂ adm adm' rr ttl zoneRoot, AddsTwice h st st₁ st₂ adm adm' rr ttl zoneRoot →
    ∃ r ∈ st₂.records, r.ttl = ttl ∧ Copy h st₂ adm.zone zoneRoot rr r ∧
      (∀ x ∈ st₂.records, Copy h st₂ adm.zone zoneRoot rr x → x = r) ∧
        ∀ x : Row, x.id ≠ r.id → (x ∈ st₂.records ↔ x ∈ st.records)

section
variable (h : Host) (st st₁ : Store) (tsigKey tsigKey' : UpdateSecret) (zone : Zone)
  (zoneRoot recordName : DnsLabel) (rr : Rr) (ttl : ℕ)

/-- What the second addition leaves of the row that the first has saved: the row that it saves, or
the row as it is. -/
def Leaves (n n' : Row) : Prop :=
  Saves h st₁ tsigKey' zone recordName { rr with ttl := ttl } n' ∨
    (∀ x, ¬ Saves h st₁ tsigKey' zone recordName { rr with ttl := ttl } x) ∧ n' = n

/-- The first addition saves a row that is published as the record, as the only one, and the second
addition finds it again. -/
structure Refound (n : Row) : Prop where
  saves : Saves h st tsigKey zone recordName rr n
  copy : Copy h st₁ zone zoneRoot rr n
  alone : ∀ x ∈ st.records, x.id ≠ n.id → ¬ Copy h st₁ zone zoneRoot rr x
  again : ∀ n', Leaves h st₁ tsigKey' zone recordName rr ttl n n' → n'.id = n.id ∧ n'.ttl = ttl

/-- One row is published as the record already, and the additions save nothing that was not there. -/
structure Settled (r : Row) : Prop where
  present : r ∈ st.records
  copy : Copy h st₁ zone zoneRoot rr r
  alone : ∀ x ∈ st.records, Copy h st₁ zone zoneRoot rr x → x = r
  sameTtl : r.ttl = ttl
  unchanged : ∀ n, Saves h st tsigKey zone recordName rr n → ∀ n',
    Leaves h st₁ tsigKey' zone recordName rr ttl n n' → n'.id = n.id ∧ n' ∈ st.records

end

/-! ### What is published of a row -/

/-- The data that is published; whether an address has a reverse record is not. -/
def essence : RecordData → RecordData
  | .address a _ => .address a true
  | data => data

theorem essence_eq_self (data : RecordData) :
    (∃ address autoReverse, data = .address address autoReverse) ∨ essence data = data := by
  rcases data with ⟨a, b⟩ | _ | _ | _ | _ | _ | _ | _ | _ | _ | _ | _ | _ | _ | _ | _ | _ | _ | _ | _
  case address => exact Or.inl ⟨a, b, rfl⟩
  all_goals exact Or.inr rfl

theorem essence_inj {data data' : RecordData} (hdata : essence data = essence data') :
    data = data' ∨ ∃ address b b', data = .address address b ∧ data' = .address address b' := by
  rcases essence_eq_self data with ⟨a, b, rfl⟩ | hd <;>
    rcases essence_eq_self data' with ⟨a', b', rfl⟩ | hd'
  · obtain ⟨rfl, -⟩ := RecordData.address.inj hdata
    exact Or.inr ⟨a, b, b', rfl, rfl⟩
  · rw [hd'] at hdata
    exact Or.inr ⟨a, b, true, rfl, hdata.symm⟩
  · rw [hd] at hdata
    exact Or.inr ⟨a', true, b', hdata, rfl⟩
  · exact Or.inl (hd.symm.trans (hdata.trans hd'))

theorem model_congr {r s : Row} (hdata : essence r.data = essence s.data) : r.model = s.model := by
  have hess : ∀ data, (essence data).model = data.model := by
    intro data
    rcases data with _ | _ | _ | _ | _ | _ | _ | _ | _ | _ | _ | _ | _ | _ | _ | _ | _ | _ | _ | _ <;>
      rfl
  unfold Row.model
  rw [← hess r.data, hdata, hess]

theorem published_essence {h : Host} {st : Store} {zone : Zone} {zoneRoot : DnsLabel} (self : Row) :
    published h st zone zoneRoot self =
      published h st zone zoneRoot { self with data := essence self.data } := by
  obtain ⟨id, z, name, ttl, data⟩ := self
  rcases data with ⟨_ | a, _⟩ | _ | _ | _ | _ | _ | _ | _ | _ | _ | _ | _ | _ | _ | _ | _ | _ | _ | _ |
    _ <;> rfl

/-- Rows of the same class and name with the same data are published with the same records. -/
theorem published_congr {h : Host} {st : Store} {zone : Zone} {zoneRoot : DnsLabel} {r s : Row}
    (hdata : essence r.data = essence s.data) (hr : r.model ≠ .aname) :
    published h st zone zoneRoot r = published h st zone zoneRoot s := by
  rw [published_essence r, published_essence s, ← hdata]
  obtain ⟨id, z, name, ttl, data⟩ := r
  rcases data with ⟨_ | a, _⟩ | _ | _ | _ | _ | _ | _ | _ | _ | _ | _ | _ | _ | _ | _ | _ | _ | _ | _ |
    _
  case aname => exact absurd rfl hr
  all_goals rfl

theorem ownerText_congr {h : Host} {r s : Row} (hname : r.recordName = s.recordName)
    (hdata : essence r.data = essence s.data) : ownerText h r = ownerText h s := by
  have hown : ∀ x : Row, ownerText h x = ownerText h { x with data := essence x.data } := by
    rintro ⟨id, z, name, ttl, data⟩
    rcases data with _ | _ | _ | _ | _ | _ | _ | _ | _ | _ | _ | _ | _ | _ | _ | _ | _ | _ | _ | _ <;>
      rfl
  rw [hown r, hown s, ← hdata]
  unfold ownerText
  dsimp only
  rw [hname]

/-- A row in the place of another of the same name with the same data leaves what the rows of the
database are published as. -/
theorem published_save {h : Host} {st st' : Store} {n n' : Row} (hn : n ∈ st.records)
    (hid : n.id = n'.id) (hzone : n.zone = n'.zone) (hname : n.recordName = n'.recordName)
    (hdata : essence n.data = essence n'.data) (hrec : st'.records = st.records.save n')
    (hcache : st'.anameCache = st.anameCache) (zone : Zone) (zoneRoot : DnsLabel) (self : Row) :
    published h st' zone zoneRoot self = published h st zone zoneRoot self := by
  have hmodel : n.model = n'.model := model_congr hdata
  have hnamed : ∀ s, named st' .address s zone =
      (named st .address s zone).map fun x => if x.id = n'.id then n' else x := by
    intro s
    unfold named Store.recordsOf
    rw [hrec, rows_save hn hid]
    unfold replace
    rw [List.filter_map]
    congr 1
    refine List.filter_congr fun x hx => ?_
    by_cases hx' : x.id = n'.id
    · have hxn : x = n := eq_of_key hx hn (hx'.trans hid.symm)
      simp only [Function.comp_apply, if_pos hx']
      rw [hxn, hmodel, hname, hzone]
    · simp only [Function.comp_apply, if_neg hx']
  have haddr : ∀ aliasName, anameAddresses h st' zone zoneRoot self aliasName =
      anameAddresses h st zone zoneRoot self aliasName := by
    intro aliasName
    unfold anameAddresses
    rw [hcache]
    simp only [hnamed, List.mapM_map]
    congr 1
    funext aliasLabel
    split_ifs
    · congr 1
      funext s
      refine mapM_congr fun x hx => ?_
      by_cases hx' : x.id = n'.id
      · have hxn : x = n := eq_of_key (mem_named.mp hx).1 hn (hx'.trans hid.symm)
        simp only [Function.comp_apply, if_pos hx']
        rw [hxn]
        rcases essence_inj hdata with heq | ⟨a, b, b', heq, heq'⟩
        · rw [heq]
        · rw [heq, heq']
          rcases a with _ | a <;> rfl
      · simp only [Function.comp_apply, if_neg hx']
    · rfl
  unfold published
  simp only [haddr]

/-! ### What an addition saves -/

section
variable {h : Host} {st st' : Store} {tsigKey tsigKey' : UpdateSecret} {zone : Zone}
  {recordName : DnsLabel} {rr : Rr} {ttl : ℕ} {n n' : Row}

theorem saves_iff : Saves h st tsigKey zone recordName rr n ↔ ∃ a new,
    addition h st tsigKey zone recordName rr = .ok a ∧ a.row = some new ∧ saved h new = .ok n := by
  constructor
  · rintro ⟨m, columns, made, records, found, new, hl, hrow, hs⟩
    refine ⟨_, new, (addition_eq_ok ?_).mpr ⟨m, columns, made, records, found, hl, rfl⟩, hrow, hs⟩
    rintro hne
    rw [hne] at hrow; cases hrow
  · rintro ⟨a, new, ha, hrow, hs⟩
    have hne : a ≠ .nothing := by rintro rfl; cases hrow
    obtain ⟨m, columns, made, records, found, hl, rfl⟩ := (addition_eq_ok hne).mp ha
    exact ⟨m, columns, made, records, found, new, hl, hrow, hs⟩

/-- What is left of the database after an addition. -/
theorem records_added (h : Host) (st : Store) (tsigKey : UpdateSecret) (zone : Zone)
    (recordName : DnsLabel) (rr : Rr) : (∃ row, Saves h st tsigKey zone recordName rr row ∧
      (added h st (addition h st tsigKey zone recordName rr)).2.records = st.records.save row ∧
        (added h st (addition h st tsigKey zone recordName rr)).2.anameCache = st.anameCache) ∨
    (∀ row, ¬ Saves h st tsigKey zone recordName rr row) ∧
      (added h st (addition h st tsigKey zone recordName rr)).2.records = st.records ∧
        (added h st (addition h st tsigKey zone recordName rr)).2.anameCache = st.anameCache := by
  simp only [saves_iff]
  rcases addition h st tsigKey zone recordName rr with stop | a
  · exact Or.inr ⟨by simp, rfl, rfl⟩
  rcases hrow : a.row with _ | new
  · rw [added_none hrow]
    refine Or.inr ⟨?_, rfl, rfl⟩
    rintro row ⟨a', new, heq, hrow', -⟩
    obtain rfl := Except.ok.inj heq
    rw [hrow] at hrow'; cases hrow'
  rcases hs : saved h new with e | row
  · rw [added_error hrow hs]
    refine Or.inr ⟨?_, ?_, ?_⟩
    · rintro row ⟨a', new', heq, hrow', hs'⟩
      obtain rfl := Except.ok.inj heq
      obtain rfl := Option.some.inj (hrow.symm.trans hrow')
      rw [hs] at hs'; cases hs'
    · simp only [saveStore, hs]; rfl
    · simp only [saveStore, hs]; rfl
  · rw [added_ok hrow hs]
    refine Or.inl ⟨row, ⟨a, new, rfl, hrow, hs⟩, ?_, ?_⟩
    · simp only [saveStore, hs]; rfl
    · simp only [saveStore, hs]; rfl

/-- The columns do not depend on the TTL. -/
theorem columns_ttl {t : QType} {m : Model} {columns : Rr → Except PyErr RecordData}
    (hm : modelOfType h t = some (m, columns)) (rr : Rr) (ttl : ℕ) :
    columns { rr with ttl := ttl } = columns rr := by
  rcases t with _ | _ | _ | _ | _ | _ | _ | _ | _ | _ | _ | _ | _ | _ | _ | _ | _ | _ | _ | _ | _ | c <;>
    cases hm <;> rfl

theorem columns_eq {t : QType} {old : Row} {columns : Rr → Except PyErr RecordData}
    (hm : modelOfType h t = some (old.model, columns)) :
    (∃ address autoReverse, old.data = .address address autoReverse ∧
      columns = addressColumns true) ∨ columns = updateColumns h old ∨
        columns = naptrColumns ∧ updateColumns h old = naptrUpdateColumns := by
  unfold updateColumns
  unfold Row.model at hm
  generalize old.data = data at hm
  rcases t with _ | _ | _ | _ | _ | _ | _ | _ | _ | _ | _ | _ | _ | _ | _ | _ | _ | _ | _ | _ | _ | c <;>
    simp only [modelOfType, Option.some.injEq, Prod.mk.injEq, reduceCtorEq] at hm <;>
    obtain ⟨hmodel, rfl⟩ := hm <;>
    rcases data with ⟨a, b⟩ | _ | _ | _ | _ | _ | _ | _ | _ | _ | _ | _ | _ | _ | _ | _ | _ | _ | _ |
      _ <;> cases hmodel <;> simp

/-- The columns that a row found for a type is updated with are those it would be made with, as far
as they can be saved. -/
theorem essence_updateColumns {t : QType} {old : Row} {columns : Rr → Except PyErr RecordData}
    (hm : modelOfType h t = some (old.model, columns)) {rr : Rr} {data data' : RecordData}
    (hd : updateColumns h old rr = .ok data) (hd' : columnsOf h data = .ok data') :
    ∃ made made', columns rr = .ok made ∧ columnsOf h made = .ok made' ∧
      essence made' = essence data' := by
  rcases columns_eq hm with ⟨a, b, hold, rfl⟩ | rfl | ⟨rfl, hnaptr⟩
  · unfold updateColumns at hd
    rw [hold] at hd
    obtain rfl := Except.ok.inj hd
    obtain rfl := Except.ok.inj hd'
    exact ⟨_, _, rfl, rfl, rfl⟩
  · exact ⟨data, data', hd, hd', rfl⟩
  · -- four of the columns are tuples, which have no integer
    rw [hnaptr] at hd
    unfold naptrUpdateColumns at hd
    split at hd
    · obtain rfl := Except.ok.inj hd
      cases hd'
    · cases hd

/-- What is known of a row that an addition saves. -/
theorem Saves.spec (hn : Saves h st tsigKey zone recordName rr n) : ∃ m columns name made made',
    modelOfType h rr.rtype = some (m, columns) ∧ dnsLabelToRecordName h rr.rname zone = .ok name ∧
      columns rr = .ok made ∧ columnsOf h made = .ok made' ∧ n.zone = zone.id ∧
        n.recordName = h.py.lower name ∧ n.ttl = rr.ttl ∧ essence n.data = essence made' := by
  obtain ⟨m, columns, made, records, found, new, hl, hrow, hs⟩ := hn
  obtain ⟨data', hcols, rfl, -⟩ := saved_eq_ok.mp hs
  rcases found with _ | ⟨old, upd⟩
  · obtain rfl : made = new := Option.some.inj hrow
    obtain ⟨name, data, hname, hdata, rfl⟩ := fromRr_eq_ok.mp hl.made
    exact ⟨m, columns, name, data, data', hl.model, hname, hdata, hcols, rfl, rfl, rfl, rfl⟩
  · obtain rfl : upd = new := Option.some.inj hrow
    obtain ⟨-, -, hupd⟩ := matching_eq_some hl.matched
    obtain ⟨name, data, hname, hdata, rfl⟩ := updateFromRr_eq_ok.mp hupd
    obtain ⟨s, hs', -⟩ := bind_eq_ok.mp hl.listed
    obtain ⟨w, hw⟩ := exists_searchName_wildcard hs'
    obtain ⟨-, hmodel, hzone, -⟩ := (mem_foundRows hs' hw).mp hl.mem
    obtain ⟨made, made', hmade, hcols', hess⟩ :=
      essence_updateColumns (hmodel ▸ hl.model) hdata hcols
    exact ⟨m, columns, name, made, made', hl.model, hname, hmade, hcols', hzone, rfl, rfl, hess.symm⟩

/-- Two additions of the same record, but for the TTL, save rows that are published alike. -/
theorem Saves.alike (hn : Saves h st tsigKey zone recordName rr n)
    (hn' : Saves h st' tsigKey' zone recordName { rr with ttl := ttl } n') :
    n.zone = n'.zone ∧ n.recordName = n'.recordName ∧ essence n.data = essence n'.data ∧
      n'.ttl = ttl ∧ n.model ≠ .aname := by
  obtain ⟨m, columns, name, made, made', hm, hname, hmade, hcols, hz, hrn, -, hess⟩ := hn.spec
  obtain ⟨m₂, columns₂, name₂, made₂, made₂', hm₂, hname₂, hmade₂, hcols₂, hz₂, hrn₂, httl, hess₂⟩ :=
    hn'.spec
  obtain ⟨rfl, rfl⟩ := Prod.mk.inj (Option.some.inj (hm.symm.trans hm₂))
  obtain rfl := Except.ok.inj (hname.symm.trans hname₂)
  rw [columns_ttl hm, hmade] at hmade₂
  obtain rfl := Except.ok.inj hmade₂
  obtain rfl := Except.ok.inj (hcols.symm.trans hcols₂)
  refine ⟨hz.trans hz₂.symm, hrn.trans hrn₂.symm, hess.trans hess₂.symm, httl, ?_⟩
  have hmodel : n.model = m := by
    have hcongr : n.model = made'.model := model_congr (s := { n with data := made' }) hess
    rw [hcongr, model_columnsOf hcols]
    exact makes_modelOfType hm rr made hmade
  rw [hmodel]
  rintro rfl
  rcases ht : rr.rtype with _ | _ | _ | _ | _ | _ | _ | _ | _ | _ | _ | _ | _ | _ | _ | _ | _ | _ | _ | _ |
    _ | c <;> rw [ht] at hm <;> cases hm

/-- An addition that saves nothing and does not stop is blocked. -/
theorem blocked_of_not_saves (hsupported : rr.rtype ∈ supportedTypes)
    (hok : (added h st (addition h st tsigKey zone recordName rr)).1 = .ok ())
    (hn : ∀ n, ¬ Saves h st tsigKey zone recordName rr n) :
    blocked h st zone recordName rr = .ok true := by
  simp only [saves_iff] at hn
  rcases ha : addition h st tsigKey zone recordName rr with stop | a
  · rw [ha] at hok; cases hok
  rcases hrow : a.row with _ | new
  · obtain rfl : a = .nothing := by cases a <;> simp [Addition.row] at hrow ⊢
    rcases addition_cases (h := h) st tsigKey zone recordName rr with ⟨stop, -, hstop⟩ | ⟨e, hraised⟩ |
      ⟨hmodel | hblocked, -⟩ | ⟨m, columns, made, records, found, -, hwrite⟩
    · cases ha.symm.trans hstop
    · cases ha.symm.trans hraised
    · obtain ⟨m, columns, hm, -⟩ := exists_modelOfType h hsupported
      cases hm.symm.trans hmodel
    · exact hblocked
    · have hnothing := Except.ok.inj (ha.symm.trans hwrite)
      rcases found with _ | ⟨old, new⟩ <;> cases hnothing
  rcases hs : saved h new with e | row
  · rw [ha, added_error hrow hs] at hok; cases hok
  · exact absurd ⟨a, new, ha, hrow, hs⟩ (hn row)

/-- Rows that are found in the same order are matched alike, whatever the TTL. -/
theorem matching_ttl {rows : List Row} {old new : Row} {found : Option (Row × Row)}
    (hm : matching h zone rr rows = .ok (some (old, new)))
    (hm' : matching h zone { rr with ttl := ttl } rows = .ok found) :
    ∃ new', found = some (old, new') := by
  induction rows with
  | nil => cases hm
  | cons r rows ih =>
    unfold matching at hm hm'
    rcases hrr : toRr h r rr.rname with e | _ | recordRr
    · rw [hrr] at hm; cases hm
    · rw [hrr] at hm; cases hm
    rw [hrr] at hm
    rw [show ({ rr with ttl := ttl } : Rr).rname = rr.rname from rfl, hrr] at hm'
    dsimp only at hm hm'
    by_cases heq : rr.rdata.eq recordRr.rdata = true
    · rw [if_pos heq] at hm hm'
      rcases hu : updateFromRr h (updateColumns h r) r rr zone with e | upd
      · rw [hu] at hm; cases hm
      rw [hu] at hm
      obtain ⟨rfl, -⟩ := Prod.mk.inj (Option.some.inj (Except.ok.inj hm))
      rcases hu' : updateFromRr h (updateColumns h r) r { rr with ttl := ttl } zone with e | upd'
      · rw [hu'] at hm'; cases hm'
      rw [hu'] at hm'
      exact ⟨upd', (Except.ok.inj hm').symm⟩
    · rw [if_neg heq] at hm hm'
      exact ih hm hm'

/-- A row that is saved as it was is found again. -/
theorem Saves.id_eq (hn : Saves h st tsigKey zone recordName rr n) (hmem : n ∈ st.records)
    (hrows : st'.records.rows = st.records.rows)
    (hn' : Saves h st' tsigKey' zone recordName { rr with ttl := ttl } n') : n'.id = n.id := by
  obtain ⟨m, columns, made, records, found, new, hl, hrow, hs⟩ := hn
  obtain ⟨m₂, columns₂, made₂, records₂, found₂, new₂, hl₂, hrow₂, hs₂⟩ := hn'
  obtain ⟨_, -, hrec, -⟩ := saved_eq_ok.mp hs
  obtain ⟨_, -, hrec₂, -⟩ := saved_eq_ok.mp hs₂
  have hid : n.id = new.id := by rw [hrec]
  have hid₂ : n'.id = new₂.id := by rw [hrec₂]
  obtain ⟨rfl, -⟩ := Prod.mk.inj (Option.some.inj (hl.model.symm.trans hl₂.model))
  have hfind : findRecords st' m recordName zone = findRecords st m recordName zone := by
    unfold findRecords named Store.recordsOf
    rw [hrows]
  have hlist := hl₂.listed
  rw [hfind, hl.listed] at hlist
  obtain rfl := Except.ok.inj hlist
  rcases found with _ | ⟨old, upd⟩
  · obtain rfl : made = new := Option.some.inj hrow
    obtain ⟨name, data, -, -, hmade⟩ := fromRr_eq_ok.mp hl.made
    have hlt := key_lt_next hmem
    rw [hid, hmade] at hlt
    exact absurd hlt (Nat.lt_irrefl _)
  · obtain rfl : upd = new := Option.some.inj hrow
    obtain ⟨new', rfl⟩ := matching_ttl hl.matched hl₂.matched
    obtain rfl : new' = new₂ := Option.some.inj hrow₂
    obtain ⟨_, _, -, -, hupd⟩ := updateFromRr_eq_ok.mp (matching_eq_some hl.matched).2.2
    obtain ⟨_, _, -, -, hupd₂⟩ := updateFromRr_eq_ok.mp (matching_eq_some hl₂.matched).2.2
    rw [hid, hid₂, hupd, hupd₂]

end

/-! ### Two additions -/

/-- The database after a message with one record. -/
theorem store_of_single {h : Host} {now : ℕ} {msg : Bytes} {st : Store} {dnsReq : DnsRecord}
    {adm : Admitted} {rr : Rr} (hparse : h.parse msg = .ok dnsReq) (hauth : dnsReq.auth = [rr])
    (ha : admission h now st dnsReq = .ok adm) :
    (updateQuery h now msg st).2 = (step h adm.inc.tsigKey adm.zone adm.zoneName st rr).2 := by
  have hpre := (admission_eq_ok ha).2.2
  rw [hauth] at hpre
  rw [store_updateQuery, hparse]
  dsimp only
  rw [ha]
  dsimp only
  rw [hauth, run_updateLoop_cons hpre]
  rcases step h adm.inc.tsigKey adm.zone adm.zoneName st rr with ⟨stop | ⟨⟩, st'⟩ <;> rfl

section
variable {h : Host} {st st₁ st₂ : Store} {adm adm' : Admitted} {rr : Rr} {ttl : ℕ}
  {zoneRoot : DnsLabel}

theorem blocked_congr {recordName : DnsLabel} {zone : Zone} (htype : rr.rtype ≠ .cname)
    (hrows : st₁.records.rows = st.records.rows) :
    blocked h st₁ zone recordName { rr with ttl := ttl } = blocked h st zone recordName rr := by
  unfold blocked
  rw [if_neg htype, if_neg htype]
  unfold anyRecordType findRecords named Store.recordsOf
  rw [hrows]

/-- The two additions, as steps at the same name. -/
theorem AddsTwice.steps (ht : AddsTwice h st st₁ st₂ adm adm' rr ttl zoneRoot) :
    added h st (addition h st adm.inc.tsigKey adm.zone (rr.rname.stripSuffix adm.zoneName) rr) =
        (.ok (), st₁) ∧
      (added h st₁ (addition h st₁ adm'.inc.tsigKey adm.zone (rr.rname.stripSuffix adm.zoneName)
        { rr with ttl := ttl })).2 = st₂ ∧ rr.rtype ∈ supportedTypes := by
  obtain ⟨now, msg, haccepted⟩ := ht.first
  obtain ⟨hstep, hpre⟩ := haccepted.step
  unfold step at hstep
  rw [ht.isAddition] at hstep
  have htype : rr.rtype ∈ supportedTypes := by
    refine (prescanRr_eq_none hpre).2.resolve_right ?_
    rintro ⟨hclass, -⟩
    rw [ht.isAddition] at hclass; cases hclass
  refine ⟨hstep, ?_, htype⟩
  obtain ⟨dnsReq, -, -, hadm⟩ := haccepted.request
  obtain ⟨now', msg', dnsReq', hparse', hauth', hadm', rfl⟩ := ht.again
  obtain ⟨-, -, root, hroot, heq⟩ := targetZone_eq_ok (admission_eq_ok hadm).2.1
  obtain ⟨-, -, root', hroot', heq'⟩ := targetZone_eq_ok (admission_eq_ok hadm').2.1
  rw [ht.sameZone, hroot] at hroot'
  obtain rfl := Except.ok.inj hroot'
  rw [store_of_single hparse' hauth' hadm', ht.sameZone]
  unfold step
  rw [ht.isAddition, stripSuffix_congr heq, stripSuffix_congr heq']

theorem Saves.unique {st : Store} {tsigKey : UpdateSecret} {zone : Zone} {recordName : DnsLabel}
    {n n' : Row} (hn : Saves h st tsigKey zone recordName rr n)
    (hn' : Saves h st tsigKey zone recordName rr n') : n = n' := by
  obtain ⟨a, new, ha, hrow, hs⟩ := saves_iff.mp hn
  obtain ⟨a', new', ha', hrow', hs'⟩ := saves_iff.mp hn'
  obtain rfl := Except.ok.inj (ha.symm.trans ha')
  obtain rfl := Option.some.inj (hrow.symm.trans hrow')
  exact Except.ok.inj (hs.symm.trans hs')

theorem copy_congr {st st' : Store} {zone : Zone} {x : Row}
    (hp : published h st' zone zoneRoot x = published h st zone zoneRoot x) :
    Copy h st' zone zoneRoot rr x ↔ Copy h st zone zoneRoot rr x := by
  unfold Copy PublishedWith
  rw [hp]

/-- Rows of one name with the same data are copies of the same records. -/
theorem copy_alike {st : Store} {zone : Zone} {n n' : Row} (hzone : n.zone = n'.zone)
    (hname : n.recordName = n'.recordName) (hdata : essence n.data = essence n'.data)
    (hmodel : n.model ≠ .aname) :
    Copy h st zone zoneRoot rr n ↔ Copy h st zone zoneRoot rr n' := by
  unfold Copy PublishedAt PublishedWith publishedOwner
  rw [hzone, ownerText_congr hname hdata, published_congr hdata hmodel]

/-- The rows of two additions: `n` is what the first saves and `n'` what the second leaves of it. -/
structure Rows (h : Host) (st st₁ st₂ : Store) (zone : Zone) (zoneRoot : DnsLabel) (rr : Rr)
    (n n' : Row) : Prop where
  first : ∀ x, x ∈ st₁.records ↔ x = n ∨ (x ∈ st.records ∧ x.id ≠ n.id)
  second : ∀ x, x ∈ st₂.records ↔ x = n' ∨ (x ∈ st₁.records ∧ x.id ≠ n'.id)
  copies : n'.id = n.id →
    ∀ x, Copy h st₂ zone zoneRoot rr x ↔ Copy h st₁ zone zoneRoot rr x
  alike : ∀ st', Copy h st' zone zoneRoot rr n ↔ Copy h st' zone zoneRoot rr n'
  fresh : n'.id ≠ n.id → n ∉ st.records

theorem AddsTwice.rows (ht : AddsTwice h st st₁ st₂ adm adm' rr ttl zoneRoot) {n : Row}
    (hn : Saves h st adm.inc.tsigKey adm.zone (rr.rname.stripSuffix adm.zoneName) rr n) :
    ∃ n', Leaves h st₁ adm'.inc.tsigKey adm.zone (rr.rname.stripSuffix adm.zoneName) rr ttl n n' ∧
      Rows h st st₁ st₂ adm.zone zoneRoot rr n n' := by
  obtain ⟨hfirst, hsecond, -⟩ := ht.steps
  have hrec₁ : st₁.records = st.records.save n := by
    rcases records_added h st adm.inc.tsigKey adm.zone (rr.rname.stripSuffix adm.zoneName) rr with ⟨x, hx, hrec, -⟩ | ⟨hno, -⟩
    · rw [hfirst] at hrec
      rw [hn.unique hx]; exact hrec
    · exact absurd hn (hno n)
  have hmem₁ : ∀ x, x ∈ st₁.records ↔ x = n ∨ (x ∈ st.records ∧ x.id ≠ n.id) := fun x => by
    rw [hrec₁, mem_save]
  have hn₁ : n ∈ st₁.records := (hmem₁ n).mpr (Or.inl rfl)
  rcases records_added h st₁ adm'.inc.tsigKey adm.zone (rr.rname.stripSuffix adm.zoneName)
    { rr with ttl := ttl } with
    ⟨n', hn', hrec, hcache⟩ | ⟨hno, hrec, hcache⟩
  · rw [hsecond] at hrec hcache
    obtain ⟨hzone, hname, hdata, -, hmodel⟩ := hn.alike hn'
    refine ⟨n', Or.inl hn', hmem₁, fun x => by rw [hrec, mem_save], fun hid x => ?_,
      fun st' => copy_alike hzone hname hdata hmodel, fun hid hmem => hid ?_⟩
    · exact copy_congr (published_save hn₁ hid.symm hzone hname hdata hrec hcache _ _ x)
    · exact hn.id_eq hmem (by rw [hrec₁, rows_save_of_mem hmem]) hn'
  · rw [hsecond] at hrec hcache
    refine ⟨n, Or.inr ⟨hno, rfl⟩, hmem₁, fun x => ?_, fun _ x => ?_, fun st' => Iff.rfl,
      fun hid => absurd rfl hid⟩
    · rw [hrec, hmem₁]
      by_cases hid : x.id = n.id
      · simp [hid]
      · simp [hid]
    · refine copy_congr ?_
      unfold published anameAddresses named Store.recordsOf
      rw [hrec, hcache]

/-- If the second addition saves another row than the first, there are two copies or none. -/
theorem Rows.same {zone : Zone} {n n' r : Row} (hr : Rows h st st₁ st₂ zone zoneRoot rr n n')
    (hmem : r ∈ st₂.records) (hcopy : Copy h st₂ zone zoneRoot rr r)
    (honly : ∀ x ∈ st₂.records, Copy h st₂ zone zoneRoot rr x → x = r)
    (hframe : ∀ x : Row, x.id ≠ r.id → (x ∈ st₂.records ↔ x ∈ st.records)) : n'.id = n.id := by
  by_contra hid
  have hn' : n' ∈ st₂.records := (hr.second n').mpr (Or.inl rfl)
  have hn : n ∈ st₂.records :=
    (hr.second n).mpr (Or.inr ⟨(hr.first n).mpr (Or.inl rfl), fun heq => hid heq.symm⟩)
  by_cases hnr : n.id = r.id
  · have heq : n = r := eq_of_key hn hmem hnr
    have heq' : n' = r := honly n' hn' ((hr.alike st₂).mp (heq ▸ hcopy))
    exact hid (by rw [heq', heq])
  · exact hr.fresh hid ((hframe n hnr).mp hn)

theorem Leaves.unique {tsigKey' : UpdateSecret} {zone : Zone} {recordName : DnsLabel}
    {n n' n'' : Row} (hl : Leaves h st₁ tsigKey' zone recordName rr ttl n n')
    (hl' : Leaves h st₁ tsigKey' zone recordName rr ttl n n'') : n' = n'' := by
  rcases hl with hs | ⟨hno, rfl⟩
  · rcases hl' with hs' | ⟨hno, -⟩
    · exact hs.unique hs'
    · exact absurd hs (hno n')
  · rcases hl' with hs' | ⟨-, rfl⟩
    · exact absurd hs' (hno n'')
    · rfl

/-- If the first addition saves nothing, the second does not either. -/
theorem AddsTwice.blocked (ht : AddsTwice h st st₁ st₂ adm adm' rr ttl zoneRoot)
    (hno : ∀ n, ¬ Saves h st adm.inc.tsigKey adm.zone (rr.rname.stripSuffix adm.zoneName) rr n) :
    (∀ x, x ∈ st₁.records ↔ x ∈ st.records) ∧ (∀ x, x ∈ st₂.records ↔ x ∈ st.records) ∧
      ∀ x, Copy h st₂ adm.zone zoneRoot rr x ↔ Copy h st₁ adm.zone zoneRoot rr x := by
  obtain ⟨hfirst, hsecond, hsupported⟩ := ht.steps
  have hrec₁ : st₁.records = st.records := by
    rcases records_added h st adm.inc.tsigKey adm.zone (rr.rname.stripSuffix adm.zoneName) rr with ⟨x, hx, -⟩ | ⟨-, hrec, -⟩
    · exact absurd hx (hno x)
    · rw [hfirst] at hrec; exact hrec
  have hblocked := blocked_of_not_saves hsupported (by rw [hfirst]) hno
  rcases records_added h st₁ adm'.inc.tsigKey adm.zone (rr.rname.stripSuffix adm.zoneName)
    { rr with ttl := ttl } with
    ⟨n', ⟨_, _, _, _, _, _, hl, -⟩, -⟩ | ⟨-, hrec, hcache⟩
  · have hsame : Steps.blocked h st₁ adm.zone (rr.rname.stripSuffix adm.zoneName)
        { rr with ttl := ttl } = Steps.blocked h st adm.zone (rr.rname.stripSuffix adm.zoneName) rr :=
      blocked_congr ht.notCname (by rw [hrec₁])
    rw [hl.unblocked, hblocked] at hsame
    cases hsame
  · rw [hsecond] at hrec hcache
    refine ⟨fun x => by rw [hrec₁], fun x => by rw [hrec, hrec₁], fun x => copy_congr ?_⟩
    unfold published anameAddresses named Store.recordsOf
    rw [hrec, hcache]

section
variable {tsigKey tsigKey' : UpdateSecret} {zone : Zone} {recordName : DnsLabel} {n n' : Row}

/-- An addition that is as if made once has been found again, or has left things as they were. -/
theorem Rows.found (hr : Rows h st st₁ st₂ zone zoneRoot rr n n')
    (hn : Saves h st tsigKey zone recordName rr n)
    (hn' : Leaves h st₁ tsigKey' zone recordName rr ttl n n') {r : Row} (hmem : r ∈ st₂.records)
    (httl : r.ttl = ttl) (hcopy : Copy h st₂ zone zoneRoot rr r)
    (honly : ∀ x ∈ st₂.records, Copy h st₂ zone zoneRoot rr x → x = r)
    (hframe : ∀ x : Row, x.id ≠ r.id → (x ∈ st₂.records ↔ x ∈ st.records)) :
    Refound h st st₁ tsigKey tsigKey' zone zoneRoot recordName rr ttl n ∨
      Settled h st st₁ tsigKey tsigKey' zone zoneRoot recordName rr ttl r := by
  have hid : n'.id = n.id := hr.same hmem hcopy honly hframe
  have hcopies := hr.copies hid
  have hkept : ∀ x ∈ st.records, x.id ≠ n.id → x ∈ st₂.records := fun x hx hne =>
    (hr.second x).mpr (Or.inr ⟨(hr.first x).mpr (Or.inr ⟨hx, hne⟩), by rw [hid]; exact hne⟩)
  by_cases hrn : r = n'
  · refine Or.inl ⟨hn, ?_, fun x hx hne hx' => hne ?_, fun x hx => ?_⟩
    · exact (hr.alike st₁).mpr ((hcopies n').mp (hrn ▸ hcopy))
    · have heq : x = r := honly x (hkept x hx hne) ((hcopies x).mpr hx')
      rw [heq, hrn, hid]
    · rw [← hn'.unique hx, ← hrn]
      exact ⟨by rw [hrn, hid], httl⟩
  · have hrst : r ∈ st₁.records ∧ r.id ≠ n'.id := ((hr.second r).mp hmem).resolve_left hrn
    have hrne : r.id ≠ n.id := hid ▸ hrst.2
    have hn'st : n' ∈ st.records :=
      (hframe n' fun heq => hrst.2 heq.symm).mp ((hr.second n').mpr (Or.inl rfl))
    have hrmem : r ∈ st.records := by
      rcases (hr.first r).mp hrst.1 with heq | hr'
      · exact absurd (by rw [heq]) hrne
      · exact hr'.1
    refine Or.inr ⟨hrmem, (hcopies r).mp hcopy, fun x hx hx' => ?_, httl, fun x hx y hy => ?_⟩
    · by_cases hxn : x.id = n.id
      · have heq : x = n' := eq_of_key hx hn'st (hxn.trans hid.symm)
        rw [heq] at hx' ⊢
        exact honly n' ((hr.second n').mpr (Or.inl rfl)) ((hcopies n').mpr hx')
      · exact honly x (hkept x hx hxn) ((hcopies x).mpr hx')
    · obtain rfl := hn.unique hx
      rw [← hn'.unique hy]
      exact ⟨hid, hn'st⟩

/-- A row that is found again is the one that is published as the record. -/
theorem Rows.of_refound (hr : Rows h st st₁ st₂ zone zoneRoot rr n n')
    (hn' : Leaves h st₁ tsigKey' zone recordName rr ttl n n')
    (hre : Refound h st st₁ tsigKey tsigKey' zone zoneRoot recordName rr ttl n) :
    ∃ r ∈ st₂.records, r.ttl = ttl ∧ Copy h st₂ zone zoneRoot rr r ∧
      (∀ x ∈ st₂.records, Copy h st₂ zone zoneRoot rr x → x = r) ∧
        ∀ x : Row, x.id ≠ r.id → (x ∈ st₂.records ↔ x ∈ st.records) := by
  obtain ⟨hid, httl⟩ := hre.again n' hn'
  have hcopies := hr.copies hid
  have hother : ∀ x : Row, x.id ≠ n'.id → (x ∈ st₂.records ↔ x ∈ st.records) := by
    intro x hne
    have hne' : x.id ≠ n.id := hid ▸ hne
    have hxn' : x ≠ n' := fun heq => hne (by rw [heq])
    have hxn : x ≠ n := fun heq => hne' (by rw [heq])
    rw [hr.second, hr.first]
    simp [hxn, hxn', hne, hne']
  refine ⟨n', (hr.second n').mpr (Or.inl rfl), httl, ?_, fun x hx hx' => ?_, hother⟩
  · exact (hcopies n').mpr ((hr.alike st₁).mp hre.copy)
  · by_contra hne
    have hxid : x.id ≠ n'.id := ((hr.second x).mp hx).resolve_left hne |>.2
    exact hre.alone x ((hother x hxid).mp hx) (hid ▸ hxid) ((hcopies x).mp hx')

/-- Additions that leave things as they were leave the one copy. -/
theorem Rows.of_settled (hr : Rows h st st₁ st₂ zone zoneRoot rr n n')
    (hn : Saves h st tsigKey zone recordName rr n)
    (hn' : Leaves h st₁ tsigKey' zone recordName rr ttl n n') {r : Row}
    (hse : Settled h st st₁ tsigKey tsigKey' zone zoneRoot recordName rr ttl r) :
    ∃ r ∈ st₂.records, r.ttl = ttl ∧ Copy h st₂ zone zoneRoot rr r ∧
      (∀ x ∈ st₂.records, Copy h st₂ zone zoneRoot rr x → x = r) ∧
        ∀ x : Row, x.id ≠ r.id → (x ∈ st₂.records ↔ x ∈ st.records) := by
  obtain ⟨hid, hn'st⟩ := hse.unchanged n hn n' hn'
  have hcopies := hr.copies hid
  have hsame : ∀ x, x ∈ st₂.records ↔ x ∈ st.records := by
    intro x
    rw [hr.second, hr.first]
    constructor
    · rintro (rfl | ⟨rfl | ⟨hx, -⟩, hne⟩)
      · exact hn'st
      · exact absurd hid.symm hne
      · exact hx
    · intro hx
      by_cases hxn : x.id = n'.id
      · exact Or.inl (eq_of_key hx hn'st hxn)
      · exact Or.inr ⟨Or.inr ⟨hx, by rw [← hid]; exact hxn⟩, hxn⟩
  exact ⟨r, (hsame r).mpr hse.present, hse.sameTtl, (hcopies r).mpr hse.copy,
    fun x hx hx' => hse.alone x ((hsame x).mp hx) ((hcopies x).mp hx'), fun x _ => hsame x⟩

end

/-- **When an addition that is made twice is as if made once.** -/
theorem twice_iff (ht : AddsTwice h st st₁ st₂ adm adm' rr ttl zoneRoot) :
    (∃ r ∈ st₂.records, r.ttl = ttl ∧ Copy h st₂ adm.zone zoneRoot rr r ∧
      (∀ x ∈ st₂.records, Copy h st₂ adm.zone zoneRoot rr x → x = r) ∧
        ∀ x : Row, x.id ≠ r.id → (x ∈ st₂.records ↔ x ∈ st.records)) ↔
      (∃ n, Refound h st st₁ adm.inc.tsigKey adm'.inc.tsigKey adm.zone zoneRoot
        (rr.rname.stripSuffix adm.zoneName) rr ttl n) ∨
      ∃ r, Settled h st st₁ adm.inc.tsigKey adm'.inc.tsigKey adm.zone zoneRoot
        (rr.rname.stripSuffix adm.zoneName) rr ttl r := by
  by_cases hsaves : ∃ n, Saves h st adm.inc.tsigKey adm.zone (rr.rname.stripSuffix adm.zoneName) rr n
  · obtain ⟨n, hn⟩ := hsaves
    obtain ⟨n', hn', hr⟩ := ht.rows hn
    constructor
    · rintro ⟨r, hmem, httl, hcopy, honly, hframe⟩
      rcases hr.found hn hn' hmem httl hcopy honly hframe with hre | hse
      · exact Or.inl ⟨n, hre⟩
      · exact Or.inr ⟨r, hse⟩
    · rintro (⟨x, hre⟩ | ⟨r, hse⟩)
      · obtain rfl := hn.unique hre.saves
        exact hr.of_refound hn' hre
      · exact hr.of_settled hn hn' hse
  · have hno : ∀ n, ¬ Saves h st adm.inc.tsigKey adm.zone (rr.rname.stripSuffix adm.zoneName) rr n :=
      fun n hn => hsaves ⟨n, hn⟩
    obtain ⟨-, hsame, hcopies⟩ := ht.blocked hno
    constructor
    · rintro ⟨r, hmem, httl, hcopy, honly, -⟩
      exact Or.inr ⟨r, (hsame r).mp hmem, (hcopies r).mp hcopy, fun x hx hx' =>
        honly x ((hsame x).mpr hx) ((hcopies x).mpr hx'), httl, fun n hn => absurd hn (hno n)⟩
    · rintro (⟨n, hre⟩ | ⟨r, hse⟩)
      · exact absurd hre.saves (hno n)
      · exact ⟨r, (hsame r).mpr hse.present, hse.sameTtl, (hcopies r).mpr hse.copy, fun x hx hx' =>
          hse.alone x ((hsame x).mp hx) ((hcopies x).mp hx'), fun x _ => hsame x⟩

end

section
variable {h : Host} {st st₁ st₂ : Store} {adm adm' : Admitted} {rr : Rr} {ttl : ℕ}
  {zoneRoot : DnsLabel}

/-- The id of a row that an addition saves is new, or that of a row found with equal rdata. -/
theorem Saves.created_or_found {tsigKey : UpdateSecret} {zone : Zone} {recordName : DnsLabel} {n : Row}
    (hn : Saves h st tsigKey zone recordName rr n) : n.id = st.records.next ∨
      ∃ m old t x, old ∈ foundRows st recordName zone m ∧ n.id = old.id ∧
        toRdata h old.data = .ok (some (t, x)) ∧ rr.rdata.eq x = true := by
  obtain ⟨m, columns, made, records, found, new, hl, hrow, hs⟩ := hn
  obtain ⟨_, -, hrec, -⟩ := saved_eq_ok.mp hs
  have hid : n.id = new.id := by rw [hrec]
  rcases found with _ | ⟨old, upd⟩
  · obtain rfl : made = new := Option.some.inj hrow
    obtain ⟨_, _, -, -, hmade⟩ := fromRr_eq_ok.mp hl.made
    exact Or.inl (by rw [hid, hmade])
  · obtain rfl : upd = new := Option.some.inj hrow
    obtain ⟨-, ⟨recordRr, hrr, heq⟩, hupd⟩ := matching_eq_some hl.matched
    obtain ⟨_, _, -, -, hupd⟩ := updateFromRr_eq_ok.mp hupd
    obtain ⟨t, x, hx, rfl⟩ := toRr_eq_some.mp hrr
    exact Or.inr ⟨m, old, t, x, hl.mem, by rw [hid, hupd], hx, heq⟩

theorem naptrRdata_ne_raw {order preference flags service regexp replacement : PyVal}
    {data : Bytes} :
    naptrRdata h order preference flags service regexp replacement ≠ .ok (.rd data) := by
  unfold naptrRdata
  split
  · simp [bind_eq_ok, pure, Except.pure]
  · simp

theorem txtRdata_ne_raw {strings : List Bytes} {data : Bytes} :
    txtRdata strings ≠ .ok (.rd data) := by
  unfold txtRdata
  split_ifs <;> simp

/-- No row has rdata of the class that the library uses for bytes. -/
theorem toRdata_ne_raw {d : RecordData} {t : QType} {data : Bytes} :
    toRdata h d ≠ .ok (some (t, .rd data)) := by
  intro hd
  rcases d with ⟨_ | a | a, _⟩ | _ | _ | _ | _ | _ | _ | _ | _ | _ | _ | _ | _ | _ | _ | _ | _ | _ |
    _ | _ <;>
    simp [toRdata, bind_eq_ok, pure, Except.pure] at hd
  case naptr => exact naptrRdata_ne_raw hd.1
  case txt => exact txtRdata_ne_raw hd.1
  case hinfo => exact txtRdata_ne_raw hd.1
  case ds =>
    obtain ⟨_ | _ | _, -, hd⟩ := hd <;> simp at hd

/-- Rdata of that class is equal to that of no row. -/
theorem eq_raw {data : Bytes} {d : RecordData} {t : QType} {x : Rdata}
    (hd : toRdata h d = .ok (some (t, x))) : (Rdata.rd data).eq x = false := by
  have heq : (Rdata.rd data).eq x = decide (Rdata.rd data = x) := by cases x <;> rfl
  rw [heq, decide_eq_false_iff_not]
  rintro rfl
  exact toRdata_ne_raw hd

/-- HINFO, RP and DHCID records, which the library leaves as bytes, are never found again: the second
addition makes another row. -/
theorem raw_doubled (ht : AddsTwice h st st₁ st₂ adm adm' rr ttl zoneRoot) {data : Bytes}
    (hraw : rr.rdata = .rd data) {n n' : Row}
    (hn : Saves h st adm.inc.tsigKey adm.zone (rr.rname.stripSuffix adm.zoneName) rr n)
    (hn' : Saves h st₁ adm'.inc.tsigKey adm.zone (rr.rname.stripSuffix adm.zoneName)
      { rr with ttl := ttl } n') : n ∈ st₂.records ∧ n' ∈ st₂.records ∧ n.id < n'.id := by
  obtain ⟨n₂, hleaves, hr⟩ := ht.rows hn
  obtain rfl : n' = n₂ := Leaves.unique (Or.inl hn') hleaves
  have hn₁ : n ∈ st₁.records := (hr.first n).mpr (Or.inl rfl)
  have hlt : n.id < n'.id := by
    rcases hn'.created_or_found with hid | ⟨m, old, t, x, -, -, hx, heq⟩
    · rw [hid]; exact key_lt_next hn₁
    · have hne : (Rdata.rd data).eq x = false := eq_raw hx
      rw [show ({ rr with ttl := ttl } : Rr).rdata = .rd data from hraw, hne] at heq
      cases heq
  exact ⟨(hr.second n).mpr (Or.inr ⟨hn₁, hlt.ne⟩), (hr.second n').mpr (Or.inl rfl), hlt⟩

/-- What is saved at the zone's own name is stored as `@`. -/
theorem apex_name (ht : AddsTwice h st st₁ st₂ adm adm' rr ttl zoneRoot)
    (hapex : (rr.rname.stripSuffix adm.zoneName).label = []) {n : Row}
    (hn : Saves h st adm.inc.tsigKey adm.zone (rr.rname.stripSuffix adm.zoneName) rr n) :
    n.recordName = ['@'] := by
  obtain ⟨now, msg, haccepted⟩ := ht.first
  obtain ⟨dnsReq, -, -, hadm⟩ := haccepted.request
  obtain ⟨-, -, root, hroot, heq⟩ := targetZone_eq_ok (admission_eq_ok hadm).2.1
  have hsuf := (prescanRr_eq_none haccepted.step.2).1
  obtain ⟨-, -, name, -, -, -, hname, -, -, -, hrec, -⟩ := hn.spec
  rcases dnsLabelToRecordName_eq_ok hroot heq hsuf hname with ⟨-, rfl⟩ | ⟨hne, -⟩
  · rw [hrec, lower_ascii (by decide)]; decide
  · exact absurd hapex hne

/-- A record at the zone's own name is never found again. -/
theorem apex_doubled (ht : AddsTwice h st st₁ st₂ adm adm' rr ttl zoneRoot)
    (hapex : (rr.rname.stripSuffix adm.zoneName).label = []) {n n' : Row}
    (hn : Saves h st adm.inc.tsigKey adm.zone (rr.rname.stripSuffix adm.zoneName) rr n)
    (hn' : Saves h st₁ adm'.inc.tsigKey adm.zone (rr.rname.stripSuffix adm.zoneName)
      { rr with ttl := ttl } n') : n ∈ st₂.records ∧ n' ∈ st₂.records ∧ n.id ≠ n'.id := by
  obtain ⟨n₂, hleaves, hr⟩ := ht.rows hn
  obtain rfl : n' = n₂ := Leaves.unique (Or.inl hn') hleaves
  have hn₁ : n ∈ st₁.records := (hr.first n).mpr (Or.inl rfl)
  have hname : n.recordName = ['@'] := apex_name ht hapex hn
  have hne : n.id ≠ n'.id := by
    intro hid
    rcases hn'.created_or_found with hnew | ⟨m, old, t, x, hold, hid', -⟩
    · have hlt := key_lt_next hn₁
      rw [hid, hnew] at hlt
      exact absurd hlt (Nat.lt_irrefl _)
    · rw [show rr.rname.stripSuffix adm.zoneName = ⟨[]⟩ from congrArg DnsLabel.mk hapex] at hold
      have hmem := (mem_foundRows rfl rfl).mp hold
      have heq : n = old := eq_of_key hn₁ hmem.1 (hid.trans hid')
      rcases hmem.2.2.2 with hs | ⟨-, hs⟩ <;> rw [← heq, hname] at hs <;> cases hs
  exact ⟨(hr.second n).mpr (Or.inr ⟨hn₁, hne⟩), (hr.second n').mpr (Or.inl rfl), hne⟩

end

/-! ### A record of the zone's own name -/

/-- The database without records. -/
def bareStore : Store := { apexStore with records := Table.empty }

/-- `example TXT "x"` -/
def addedRr : Rr := ⟨exampleRoot, .txt, .in, 60, .txt [[120]]⟩

/-- Add a TXT record at the zone's own name. -/
def addApex : DnsRecord := ⟨1, .update, [⟨exampleRoot, .soa, .in⟩], [], [addedRr], []⟩

def addedRow (id : ℕ) : Row := ⟨id, 1, ['@'], 60, .txt ['x']⟩

theorem copy_addedRow (st : Store) (id : ℕ) :
    Copy (hostOf zoneSecret addApex) st exampleZone exampleRoot addedRr (addedRow id) := by
  have hcopy : Copy (hostOf zoneSecret addApex) st exampleZone exampleRoot addedRr (addedRow 0) := by
    refine ⟨rfl, ⟨exampleRoot.label, by decide +kernel, by decide⟩, ?_⟩
    exact ⟨[(.txt, [.str ['x']])], rfl, _, List.mem_singleton.mpr rfl, rfl, [1, 120],
      by decide +kernel, rfl⟩
  have hmodel : (addedRow 0).model ≠ .aname := by decide
  have hzone : (addedRow 0).zone = (addedRow id).zone := rfl
  exact (copy_alike hzone rfl rfl hmodel).mp hcopy

end HexDns.Grpc.Additions
