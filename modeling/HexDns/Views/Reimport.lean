import HexDns.Models.Txt
import HexDns.Tasks.Changes
import HexDns.Views.Export

/-! # The import of an exported zone

`export_zone_file` prints the records that `to_rr` makes of the rows, and `import_zone_file` makes rows
of them with `from_rr`, after it has deleted the old ones. `Reimportable` says for which zones
`generate_fzone` writes the same records of the rows as before if no CNAME row has the alias `@`
(`reimported_iff`). This alias is published as the root of the zone, and exported as a name of its own
(`not_reimported_home`).

A row without an IDNA label is exported under `None`, and a custom name server comes back as a row: the
condition leaves them out. -/

namespace HexDns.Views.Reimport

open HexDns.Lib.Texts HexDns.Lib.Tables HexDns.Lib.Programs HexDns.Base.Py HexDns.Base.Codecs
  HexDns.Base.Label HexDns.Base.Message HexDns.Models.Db HexDns.Models.Env HexDns.Models.Convert
  HexDns.Models.Names HexDns.Models.ImportZone HexDns.Models.Txt HexDns.Grpc.Steps HexDns.Tasks.ZoneFile
  HexDns.Tasks.Frame HexDns.Tasks.Isolation HexDns.Tasks.Changes HexDns.Views.Export

/-! ### The exported file -/

/-- What is left of `RR.toZone` and `ZoneParser`: they are inverse to each other on well-formed
records. -/
structure ZoneSyntax where
  toZone : Rr → Text
  parser : ZoneParser
  WellFormed : Rr → Prop
  parser_toZone : ∀ (zoneRoot : Text) (origin : DnsLabel) (rrs : List Rr),
    (∀ c ∈ zoneRoot, c.isAlpha ∨ c.isDigit ∨ c = '-' ∨ c = '.') → (∀ rr ∈ rrs, WellFormed rr) →
      parser (['\n'].intercalate (("$ORIGIN ".toList ++ zoneRoot) :: rrs.map toZone)) origin = .ok rrs

section
variable (h : Host) (s : ZoneSyntax)

/-- The text that `export_zone_file` returns. -/
def exportedText (st : Store) (zone : Zone) : Except PyErr Text := do
  let rrs ← exportZoneFile h st zone
  return ['\n'].intercalate (("$ORIGIN ".toList ++ zone.zoneRoot) :: rrs.map s.toZone)

/-! ### The statement -/

/-- Owner, TTL, type and rdata of a record. -/
abbrev Entry := Text × ℕ × Published

/-- The records that a row is published as. -/
def rowEntries (st : Store) (zone : Zone) (zoneRoot : DnsLabel) (self : Row) : Except PyErr (List Entry) :=
  match ownerText h self with
  | none => .ok []
  | some owner => do
    let records ← published h st zone zoneRoot self
    return (records.getD []).map fun record => (owner, self.ttl, record)

/-- The records that `generate_fzone` writes of the rows of a zone. -/
def zoneEntries (st : Store) (zone : Zone) : Except PyErr (List Entry) := do
  let zoneRoot ← DnsLabel.ofText h.py zone.zoneRoot
  let entries ← (publishedModels.flatMap (rowsOf st zone)).mapM (rowEntries h st zone zoneRoot)
  return entries.flatten

/-- **Export and import change nothing**: both succeed, and the records of the rows are the same. -/
def Reimported (st : Store) (zone : Zone) : Prop :=
  ∃ text st' entries entries', exportedText h s st zone = .ok text ∧
    run (importZoneFile h s.parser zone text true) st = (.ok (), st') ∧
    zoneEntries h st zone = .ok entries ∧ zoneEntries h st' zone = .ok entries' ∧ entries.Perm entries'

/-- The text is that of the entries, with the comment of a row if there is one. -/
def Writes (t : Text) (entries : List Entry) : Prop :=
  ∃ pre, (pre = [] ∨ ∃ m id, pre = line ["; ".toList, comment m, " record ".toList, showNat id]) ∧
    t = pre ++ entries.flatMap fun entry => publishedLine entry.1 entry.2.1 entry.2.2

/-! ### The condition -/

/-- The text stands for the name that it is printed as. -/
def Reread (f : Text → Text) (t : Text) : Prop :=
  ∃ l, DnsLabel.ofText h.py t = .ok l ∧ DnsLabel.ofText h.py (f l.toText) = .ok l

/-- The row has a label, and `name`, which is taken from its full name, has the same. -/
def KeepsName (zone : Zone) (recordName name : Text) : Prop :=
  ∃ owner label, idnaLabel h recordName = some owner ∧ owner ≠ [] ∧
    DnsLabel.ofText h.py (if recordName = ['@'] then zone.zoneRoot else owner ++ '.' :: zone.zoneRoot) =
      .ok label ∧
    dnsLabelToRecordName h label zone = .ok name ∧ idnaLabel h name = some owner

/-- The columns are of one of the eight classes, and stand for the same data when they have been
printed and read; the alias `@` does not. -/
def KeepsData (zoneRoot : DnsLabel) : RecordData → Prop
  | .address address _ => address.isSome = true
  | .cname aliasName => aliasName = ['@'] ∨ ∃ l target, DnsLabel.ofText h.py aliasName = .ok l ∧
      cnameTarget h zoneRoot aliasName = .ok (some target) ∧
      cnameTarget h zoneRoot (h.py.lower l.toText) = .ok (some target)
  | .mx exchange priority => priority < 65536 ∧ Reread h h.py.lower exchange
  | .ns nameserver => Reread h h.py.lower nameserver
  | .txt data => Models.Txt.Fits data
  | .srv priority weight port target =>
    priority < 65536 ∧ weight < 65536 ∧ port < 65536 ∧ Reread h id target
  | .caa flag _ _ => flag < 256
  | .naptr order preference flags service regexp replacement => ∃ (o p : ℕ) (f v t : Text),
      order = .int o ∧ preference = .int p ∧ o < 65536 ∧ p < 65536 ∧ flags = .str f ∧ service = .str v ∧
        (regexp = .none ∨ ∃ r, regexp = .str r) ∧ replacement = .str t ∧ Reread h id t
  | _ => False

/-- The columns with the names as they are printed. -/
def printedData : RecordData → Except PyErr RecordData
  | .address address _ => .ok (.address address true)
  | .cname aliasName => do return .cname (h.py.lower (← DnsLabel.ofText h.py aliasName).toText)
  | .mx exchange priority => do
    return .mx (h.py.lower (← DnsLabel.ofText h.py exchange).toText) priority
  | .ns nameserver => do return .ns (h.py.lower (← DnsLabel.ofText h.py nameserver).toText)
  | .srv priority weight port target => do
    return .srv priority weight port (← DnsLabel.ofText h.py target).toText
  | .naptr order preference flags service regexp (.str replacement) => do
    return .naptr order preference flags service regexp
      (.str (← DnsLabel.ofText h.py replacement).toText)
  | data => .ok data

/-- The name and the data of the row are kept, and the database takes them as they are printed. -/
def KeepsRow (zone : Zone) (zoneRoot : DnsLabel) (r : Row) : Prop :=
  KeepsData h zoneRoot r.data ∧ ∃ name data, KeepsName h zone r.recordName name ∧
    printedData h r.data = .ok data ∧ ∀ id, h.accepts ⟨id, zone.id, name, r.ttl, data⟩ = true

/-- **The condition on a zone**, but for the alias `@`. -/
structure Reimportable (st : Store) (zone : Zone) (zoneRoot : DnsLabel) : Prop where
  root : DnsLabel.ofText h.py zone.zoneRoot = .ok zoneRoot
  rootChars : ∀ c ∈ zone.zoneRoot, c.isAlpha ∨ c.isDigit ∨ c = '-' ∨ c = '.'
  customNs : ∀ ns ∈ st.customNs, ns.dnsZone ≠ zone.id
  rows : ∀ r ∈ st.records, r.zone = zone.id → KeepsRow h zone zoneRoot r
  cnames : ∀ r ∈ st.records, ∀ r' ∈ st.records, r.zone = zone.id → r'.zone = zone.id → r.model = .cname →
    r'.model = .cname → idnaLabel h r.recordName = idnaLabel h r'.recordName → r = r'
  wellFormed : ∀ rrs, exportZoneFile h st zone = .ok rrs → ∀ rr ∈ rrs, s.WellFormed rr

end

/-! ### The file and its records -/

section
variable {h : Host} {zone : Zone} {zoneRoot : DnsLabel} {st : Store}

theorem writes_rowText {self : Row} {t : Text} (ht : rowText h st zone zoneRoot self = .ok t) :
    ∃ entries, rowEntries h st zone zoneRoot self = .ok entries ∧ Writes t entries := by
  unfold rowText at ht
  unfold rowEntries
  rcases hown : ownerText h self with _ | owner
  · rw [hown] at ht
    obtain rfl := Except.ok.inj ht
    exact ⟨[], rfl, [], Or.inl rfl, rfl⟩
  rw [hown] at ht
  obtain ⟨records, hp, ht⟩ := bind_eq_ok.mp ht
  refine ⟨_, bind_eq_ok.mpr ⟨records, hp, rfl⟩, ?_⟩
  rcases records with _ | records
  · obtain rfl := Except.ok.inj ht
    exact ⟨[], Or.inl rfl, rfl⟩
  · obtain rfl := Except.ok.inj ht
    refine ⟨_, Or.inr ⟨self.model, self.id, rfl⟩, ?_⟩
    rw [Option.getD_some, List.flatMap_map]

/-- **The file is the header and the records of the rows.** -/
theorem writes_generateFzone {time : ℕ} {text : Text} (ht : generateFzone h st time zone = .ok text) :
    ∃ header texts entries, zoneEntries h st zone = .ok entries.flatten ∧ text = header ++ texts.flatten ∧
      List.Forall₂ Writes texts entries := by
  obtain ⟨zoneRoot, header, texts, hroot, -, htexts, rfl⟩ := generateFzone_eq_ok.mp ht
  suffices hl : ∀ (l : List Row) (texts : List Text), l.mapM (rowText h st zone zoneRoot) = .ok texts →
      ∃ entries, l.mapM (rowEntries h st zone zoneRoot) = .ok entries ∧ List.Forall₂ Writes texts entries by
    obtain ⟨entries, hentries, hforall⟩ := hl _ texts htexts
    exact ⟨header, texts, entries, bind_eq_ok.mpr ⟨zoneRoot, hroot, bind_eq_ok.mpr ⟨_, hentries, rfl⟩⟩, rfl,
      hforall⟩
  intro l
  induction l with
  | nil =>
    intro texts ht
    obtain rfl := Except.ok.inj ht
    exact ⟨[], rfl, .nil⟩
  | cons r l ih =>
    intro texts ht
    rw [List.mapM_cons] at ht
    obtain ⟨t, hrow, ht⟩ := bind_eq_ok.mp ht
    obtain ⟨ts, hrest, ht⟩ := bind_eq_ok.mp ht
    obtain rfl := Except.ok.inj ht
    obtain ⟨es, hes, hwrites⟩ := writes_rowText hrow
    obtain ⟨entries, hentries, hforall⟩ := ih ts hrest
    refine ⟨es :: entries, ?_, .cons hwrites hforall⟩
    rw [List.mapM_cons, hes, hentries]
    rfl

end

/-! ### The data of a row -/

section
variable {h : Host} {zone : Zone} {zoneRoot : DnsLabel}

theorem ofText_at (py : Python) : DnsLabel.ofText py ['@'] = .ok .at := by
  rw [ofText_ascii py (by decide) (by decide)]
  decide

/-- The alias `@` is printed with a dot, which makes it a name of its own. -/
theorem cnameTarget_at (hat : h.idna "@.".toList = none) :
    cnameTarget h zoneRoot (h.py.lower DnsLabel.at.toText) = .ok (some .at) := by
  have htext : DnsLabel.at.toText = "@.".toList := by decide
  have hname : DnsLabel.ofText h.py "@.".toList = .ok .at := by
    rw [ofText_ascii h.py (by decide) (by decide)]
    decide
  have hlower : h.py.lower "@.".toList = "@.".toList := by
    rw [lower_ascii (by decide)]
    decide
  rw [htext, hlower]
  unfold cnameTarget
  rw [if_neg (by decide), hat]
  show (if _ then _ else _ : Except PyErr (Option DnsLabel)) = _
  rw [if_pos (by decide), hname]
  rfl

/-- The rows with the data are written as the record. -/
def WrittenAs (h : Host) (zone : Zone) (zoneRoot : DnsLabel) (data : RecordData) (p : Published) : Prop :=
  ∀ st id z name ttl, published h st zone zoneRoot ⟨id, z, name, ttl, data⟩ = .ok (some [p])

/-- What is exported of the data, what is saved of it when it is imported, and what both are written
as. -/
structure Carries (h : Host) (zone : Zone) (zoneRoot : DnsLabel) (data data' : RecordData) (t : QType)
    (x : Rdata) (p p' : Published) : Prop where
  exported : toRdata h data = .ok (some (t, x))
  imported : ∃ columns made, importColumns t = some columns ∧
    (∀ rname ttl, columns ⟨rname, t, .in, ttl, x⟩ = .ok made) ∧ columnsOf h made = .ok data'
  cname : t = .cname ↔ data.model = .cname
  model : data'.model = data.model ∧ data.model ∈ exportedModels ∧ data.model ∈ overwrittenModels
  before : WrittenAs h zone zoneRoot data p
  after : WrittenAs h zone zoneRoot data' p'

theorem fits_eq_ok {bits n : ℕ} (hn : n < 2 ^ bits) : fits bits n = .ok n := if_pos hn

theorem carries_of {data data' : RecordData} {t : QType} {x : Rdata} {p p' : Published} (made : RecordData)
    (m : Model) {columns : Rr → Except PyErr RecordData} (hm : data.model = m) (hm' : data'.model = m)
    (hmodel : (t = .cname ↔ m = .cname) ∧ m ∈ exportedModels ∧ m ∈ overwrittenModels)
    (hexported : toRdata h data = .ok (some (t, x))) (hcolumns : importColumns t = some columns)
    (hmade : ∀ rname ttl, columns ⟨rname, t, .in, ttl, x⟩ = .ok made) (hsaved : columnsOf h made = .ok data')
    (hbefore : WrittenAs h zone zoneRoot data p) (hafter : WrittenAs h zone zoneRoot data' p') :
    Carries h zone zoneRoot data data' t x p p' := by
  subst hm
  exact ⟨hexported, ⟨columns, made, hcolumns, hmade, hsaved⟩, hmodel.1, ⟨hm', hmodel.2⟩, hbefore, hafter⟩

/-- **The data that is kept is carried**; the alias `@` becomes a name of its own. -/
theorem carries_of_keepsData (zone : Zone) (hat : h.idna "@.".toList = none) {data data' : RecordData}
    (hd : KeepsData h zoneRoot data) (hp : printedData h data = .ok data') :
    ∃ t x p p', Carries h zone zoneRoot data data' t x p p' ∧ (data ≠ .cname ['@'] → p' = p) ∧
      (data = .cname ['@'] → p = (.cname, [.name zoneRoot]) ∧ p' = (.cname, [.name .at])) := by
  rcases data with ⟨_ | a | a, auto⟩ | _ | _ | aliasName | _ | ⟨exchange, priority⟩ | nameserver | text |
    ⟨priority, weight, port, target⟩ | ⟨flag, tag, value⟩ |
    ⟨order, preference, flags, service, regexp, replacement⟩ | _ | _ | _ | _ | _ | _ | _ | _ | _
  case address.some.v4 =>
    obtain rfl := Except.ok.inj hp
    exact ⟨.a, .a a, _, _, carries_of (.address (some (.v4 a)) true) .address rfl rfl (by decide) rfl rfl
      (fun _ _ => rfl) rfl (fun _ _ _ _ _ => rfl) fun _ _ _ _ _ => rfl, fun _ => rfl, fun hc => (nomatch hc)⟩
  case address.some.v6 =>
    obtain rfl := Except.ok.inj hp
    exact ⟨.aaaa, .aaaa a, _, _, carries_of (.address (some (.v6 a)) true) .address rfl rfl (by decide) rfl rfl (fun _ _ => rfl) rfl
      (fun _ _ _ _ _ => rfl) fun _ _ _ _ _ => rfl, fun _ => rfl, fun hc => (nomatch hc)⟩
  case cname =>
    obtain ⟨l, hl, hp⟩ := bind_eq_ok.mp hp
    obtain rfl := Except.ok.inj hp
    have hwritten : ∀ {name : Text} {target : DnsLabel}, cnameTarget h zoneRoot name = .ok (some target) →
        WrittenAs h zone zoneRoot (.cname name) (.cname, [.name target]) := by
      intro name target htarget st id z n ttl
      show (cnameTarget h zoneRoot name >>= _) = _
      rw [htarget]
      rfl
    have hexported : toRdata h (.cname aliasName) = .ok (some (.cname, .cname l)) :=
      bind_eq_ok.mpr ⟨l, hl, rfl⟩
    by_cases hname : aliasName = ['@']
    · obtain rfl : DnsLabel.at = l := by
        rw [hname, ofText_at] at hl
        exact Except.ok.inj hl
      have hroot : cnameTarget h zoneRoot aliasName = .ok (some zoneRoot) := if_pos hname
      exact ⟨.cname, .cname .at, _, _, carries_of _ .cname rfl rfl (by decide) hexported rfl (fun _ _ => rfl) rfl
        (hwritten hroot) (hwritten (cnameTarget_at hat)), fun hne => absurd (by rw [hname]) hne,
        fun _ => ⟨rfl, rfl⟩⟩
    · obtain ⟨l', target, hl', hbefore, hafter⟩ := hd.resolve_left hname
      obtain rfl := Except.ok.inj (hl.symm.trans hl')
      exact ⟨.cname, .cname l, _, _, carries_of _ .cname rfl rfl (by decide) hexported rfl (fun _ _ => rfl) rfl
        (hwritten hbefore) (hwritten hafter), fun _ => rfl, fun hc => absurd (RecordData.cname.inj hc) hname⟩
  case mx =>
    obtain ⟨hfit, l, hl, hl'⟩ := hd
    obtain ⟨l₀, hl₀, hp⟩ := bind_eq_ok.mp hp
    obtain rfl := Except.ok.inj (hl.symm.trans hl₀)
    obtain rfl := Except.ok.inj hp
    exact ⟨.mx, .mx priority l, _, _, carries_of _ .mx rfl rfl (by decide)
      (bind_eq_ok.mpr ⟨priority, fits_eq_ok hfit, bind_eq_ok.mpr ⟨l, hl, rfl⟩⟩) rfl (fun _ _ => rfl) rfl
      (fun _ _ _ _ _ => bind_eq_ok.mpr ⟨l, hl, rfl⟩) fun _ _ _ _ _ => bind_eq_ok.mpr ⟨l, hl', rfl⟩,
      fun _ => rfl, fun hc => (nomatch hc)⟩
  case ns =>
    obtain ⟨l, hl, hl'⟩ := hd
    obtain ⟨l₀, hl₀, hp⟩ := bind_eq_ok.mp hp
    obtain rfl := Except.ok.inj (hl.symm.trans hl₀)
    obtain rfl := Except.ok.inj hp
    exact ⟨.ns, .ns l, _, _, carries_of _ .ns rfl rfl (by decide) (bind_eq_ok.mpr ⟨l, hl, rfl⟩) rfl
      (fun _ _ => rfl) rfl (fun _ _ _ _ _ => bind_eq_ok.mpr ⟨l, hl, rfl⟩)
      fun _ _ _ _ _ => bind_eq_ok.mpr ⟨l, hl', rfl⟩, fun _ => rfl, fun hc => (nomatch hc)⟩
  case txt =>
    obtain rfl := Except.ok.inj hp
    have hall : ∀ s ∈ (chunks text).map encode, s.length ≤ 255 := by
      intro s hs
      obtain ⟨piece, hpiece, rfl⟩ := List.mem_map.mp hs
      exact (fits_iff_short text).mp hd piece hpiece
    have hback : ((chunks text).map encode).flatMap decodeReplace = text := by
      rw [flatMap_decodeReplace_map_encode, chunks_eq, flatten_slices (by omega)]
    have hmade : ∀ (rname : DnsLabel) (ttl : ℕ),
        txtColumns ⟨rname, .txt, .in, ttl, .txt ((chunks text).map encode)⟩ = .ok (.txt text) := by
      intro rname ttl
      show Except.ok (RecordData.txt _) = _
      rw [hback]
    exact ⟨.txt, .txt ((chunks text).map encode), _, _, carries_of _ .txt rfl rfl (by decide)
      (bind_eq_ok.mpr ⟨_, if_pos hall, rfl⟩) rfl hmade rfl (fun _ _ _ _ _ => rfl) fun _ _ _ _ _ => rfl,
      fun _ => rfl, fun hc => (nomatch hc)⟩
  case srv =>
    obtain ⟨hfit, hfit', hfit'', l, hl, hl'⟩ := hd
    obtain ⟨l₀, hl₀, hp⟩ := bind_eq_ok.mp hp
    obtain rfl := Except.ok.inj (hl.symm.trans hl₀)
    obtain rfl := Except.ok.inj hp
    have hexported : toRdata h (.srv priority weight port target) =
        .ok (some (.srv, .srv priority weight port l)) :=
      bind_eq_ok.mpr ⟨priority, fits_eq_ok hfit, bind_eq_ok.mpr ⟨weight, fits_eq_ok hfit',
        bind_eq_ok.mpr ⟨port, fits_eq_ok hfit'', bind_eq_ok.mpr ⟨l, hl, rfl⟩⟩⟩⟩
    exact ⟨.srv, .srv priority weight port l, _, _, carries_of _ .srv rfl rfl (by decide) hexported rfl
      (fun _ _ => rfl) rfl (fun _ _ _ _ _ => bind_eq_ok.mpr ⟨l, hl, rfl⟩)
      fun _ _ _ _ _ => bind_eq_ok.mpr ⟨l, hl', rfl⟩, fun _ => rfl, fun hc => (nomatch hc)⟩
  case caa =>
    obtain rfl := Except.ok.inj hp
    exact ⟨.caa, .caa flag tag value, _, _, carries_of _ .caa rfl rfl (by decide)
      (bind_eq_ok.mpr ⟨flag, fits_eq_ok hd, rfl⟩) rfl (fun _ _ => rfl) rfl (fun _ _ _ _ _ => rfl)
      fun _ _ _ _ _ => rfl, fun _ => rfl, fun hc => (nomatch hc)⟩
  case naptr =>
    obtain ⟨o, q, f, v, t, rfl, rfl, ho, hq, rfl, rfl, hregexp, rfl, l, hl, hl'⟩ := hd
    obtain ⟨l₀, hl₀, hp⟩ := bind_eq_ok.mp hp
    obtain rfl := Except.ok.inj (hl.symm.trans hl₀)
    obtain rfl := Except.ok.inj hp
    have hexported : toRdata h (.naptr (.int o) (.int q) (.str f) (.str v) regexp (.str t)) =
        .ok (some (.naptr, .naptr o q (.str f) (.str v) regexp l)) :=
      bind_eq_ok.mpr ⟨_, bind_eq_ok.mpr ⟨o, fits_eq_ok ho, bind_eq_ok.mpr ⟨q, fits_eq_ok hq,
        bind_eq_ok.mpr ⟨l, hl, rfl⟩⟩⟩, rfl⟩
    have hregexp' : charColumn regexp = regexp := by
      rcases hregexp with rfl | ⟨r, rfl⟩ <;> rfl
    obtain ⟨field, hfield⟩ : ∃ field, strVal (if regexp = .none then .str [] else regexp) = .ok field := by
      rcases hregexp with rfl | ⟨r, rfl⟩
      · exact ⟨_, rfl⟩
      · exact ⟨_, rfl⟩
    have hwritten : ∀ {name : Text}, DnsLabel.ofText h.py name = .ok l →
        WrittenAs h zone zoneRoot (.naptr (.int o) (.int q) (.str f) (.str v) regexp (.str name))
          (.naptr, [.num o, .num q, .str f, .str v, field, .name l]) := by
      intro name hname st id z n ttl
      have hlabel : labelVal h (.str name) = .ok (.name l) := by
        show (DnsLabel.ofText h.py name).map Field.name = _
        rw [hname]
        rfl
      exact bind_eq_ok.mpr ⟨_, rfl, bind_eq_ok.mpr ⟨_, rfl, bind_eq_ok.mpr ⟨_, hfield,
        bind_eq_ok.mpr ⟨_, hlabel, rfl⟩⟩⟩⟩
    have hsaved : columnsOf h (.naptr (.int o) (.int q) (.str f) (.str v) regexp (.label l)) =
        .ok (.naptr (.int o) (.int q) (.str f) (.str v) regexp (.str l.toText)) := by
      show Except.ok (RecordData.naptr _ _ _ _ (charColumn regexp) _) = _
      rw [hregexp']
      rfl
    exact ⟨.naptr, _, _, _, carries_of _ .naptr rfl rfl (by decide) hexported rfl (fun _ _ => rfl) hsaved
      (hwritten hl) (hwritten hl'), fun _ => rfl, fun hc => (nomatch hc)⟩
  case address.none => exact absurd hd Bool.false_ne_true
  all_goals exact hd.elim

/-! ### A row -/

theorem rowRrs_of_toRdata {r : Row} {label : DnsLabel} {t : QType} {x : Rdata}
    (hx : toRdata h r.data = .ok (some (t, x))) : rowRrs h r label = .ok [⟨label, t, .in, r.ttl, x⟩] := by
  have hrr : toRr h r label = .ok (some ⟨label, t, .in, r.ttl, x⟩) := toRr_eq_some.mpr ⟨t, x, hx, rfl⟩
  have hplain : rowRrs h r label = (toRr h r label).bind oneRr := by
    obtain ⟨id, z, name, ttl, data⟩ := r
    rcases data with _ | _ | _ | _ | _ | _ | _ | _ | _ | _ | _ | _ | _ | _ | _ | _ | _ | _ | _ | _
    case dynamicAddress | sshfp | githubPages => cases hx
    all_goals rfl
  rw [hplain, hrr]
  rfl

theorem dnsLabel_of_ne {r : Row} (hm : r.model ≠ .https) : dnsLabel h zone r =
    DnsLabel.ofText h.py (if r.recordName = ['@'] then zone.zoneRoot
      else showOption (idnaLabel h r.recordName) ++ '.' :: zone.zoneRoot) := by
  obtain ⟨id, z, name, ttl, data⟩ := r
  rcases data with _ | _ | _ | _ | _ | _ | _ | _ | _ | _ | _ | _ | _ | _ | _ | _ | _ | _ | _ | _
  case https => exact absurd rfl hm
  all_goals
    show (if name = ['@'] then _ else _) = DnsLabel.ofText h.py (if name = ['@'] then _ else _)
    split_ifs <;> rfl

theorem rowEntries_eq {st : Store} {r : Row} {owner : Text} {p : Published} (hm : r.model ≠ .https)
    (howner : idnaLabel h r.recordName = some owner) (hne : owner ≠ [])
    (hp : published h st zone zoneRoot r = .ok (some [p])) :
    rowEntries h st zone zoneRoot r = .ok [(owner, r.ttl, p)] := by
  have hown : ownerText h r = some owner := by
    rw [ownerText_of_ne hm, howner]
    exact Option.filter_eq_some_iff.mpr ⟨rfl, by simpa using hne⟩
  unfold rowEntries
  rw [hown]
  show (published h st zone zoneRoot r >>= _) = _
  rw [hp]
  rfl

/-- The import of the record adds one row, with the label of the row and written as the entry. -/
def ImportsAs (h : Host) (zone : Zone) (zoneRoot : DnsLabel) (r : Row) (rr : Rr) (entry : Entry) : Prop :=
  ∃ name, idnaLabel h name = idnaLabel h r.recordName ∧ ∀ st : Store,
    (r.model = .cname → ∀ x ∈ st.records, x.zone = zone.id → x.model = .cname → x.recordName ≠ name) →
      ∃ st' row, run (importRr h zone rr) st = (.ok (), st') ∧ st'.records.rows = st.records.rows ++ [row] ∧
        row.zone = zone.id ∧ row.model = r.model ∧ row.recordName = name ∧
          ∀ st, rowEntries h st zone zoneRoot row = .ok [entry]

/-- What becomes of a row: the record that it is exported as, and what is written of it before and
after. -/
structure Becomes (h : Host) (zone : Zone) (zoneRoot : DnsLabel) (r : Row) (rr : Rr) (entry entry' : Entry) :
    Prop where
  exported : (dnsLabel h zone r >>= rowRrs h r) = .ok [rr]
  before : ∀ st, rowEntries h st zone zoneRoot r = .ok [entry]
  imported : ImportsAs h zone zoneRoot r rr entry'
  model : r.model ∈ exportedModels ∧ r.model ∈ overwrittenModels
  kept : r.data ≠ .cname ['@'] → entry' = entry
  root : r.data = .cname ['@'] → entry.2.2 = (.cname, [.name zoneRoot]) ∧ entry'.2.2 = (.cname, [.name .at])

/-- **A row that is kept** is exported as one record and imported as one row. -/
theorem becomes_of_keepsRow (hat : h.idna "@.".toList = none) {r : Row} (hk : KeepsRow h zone zoneRoot r)
    (httl : 1 < r.ttl) : ∃ rr entry entry', Becomes h zone zoneRoot r rr entry entry' := by
  obtain ⟨hdata, name, data, ⟨owner, label, howner, hne, hlabel, hname, hback⟩, hprinted, haccepts⟩ := hk
  obtain ⟨t, x, p, p', hc, hkept, hroot⟩ := carries_of_keepsData zone hat hdata hprinted
  obtain ⟨columns, made, hcolumns, hmade, hsaved⟩ := hc.imported
  have hhttps : r.model ≠ .https := by
    intro hm
    have hmem : Model.https ∈ exportedModels ∧ Model.https ∈ overwrittenModels := hm ▸ (hc.model.2 : r.model ∈ _ ∧ r.model ∈ _)
    exact absurd hmem.2 (by decide)
  have hdns : dnsLabel h zone r = .ok label := by
    rw [dnsLabel_of_ne hhttps, howner]
    exact hlabel
  have hlower := lower_dnsLabelToRecordName hname
  refine ⟨⟨label, t, .in, r.ttl, x⟩, (owner, r.ttl, p), (owner, r.ttl, p'), ?_, fun st => ?_, ?_, hc.model.2,
    fun hd => by rw [hkept hd], hroot⟩
  · rw [hdns]
    exact rowRrs_of_toRdata hc.exported
  · exact rowEntries_eq hhttps howner hne (hc.before st r.id r.zone r.recordName r.ttl)
  · refine ⟨name, by rw [hback, howner], fun st hst => ?_⟩
    obtain ⟨st₁, hst₁⟩ : ∃ st₁, st₁ = if t = .cname then deleteSet (fun x => x.zone = zone.id &&
        x.model = .cname && x.recordName = name) st else st := ⟨_, rfl⟩
    have hnone : st₁.records.rows = st.records.rows ∧ st₁.records.next = st.records.next := by
      rw [hst₁]
      by_cases ht : t = .cname
      · rw [if_pos ht]
        refine ⟨List.filter_eq_self.mpr fun y hy => ?_, rfl⟩
        have hother := hst (hc.cname.mp ht) y hy
        simp only [Bool.not_eq_true', Bool.and_eq_false_iff, decide_eq_false_iff_not]
        by_cases hz : y.zone = zone.id
        · by_cases hm : y.model = .cname
          · exact Or.inr (hother hz hm)
          · exact Or.inl (Or.inr hm)
        · exact Or.inl (Or.inl hz)
      · rw [if_neg ht]
        exact ⟨rfl, rfl⟩
    have hfrom : fromRr h columns ⟨label, t, .in, r.ttl, x⟩ zone st.records.next =
        .ok ⟨st.records.next, zone.id, name, r.ttl, made⟩ :=
      bind_eq_ok.mpr ⟨name, hname, bind_eq_ok.mpr ⟨made, hmade label r.ttl, rfl⟩⟩
    have hsavedRow : saved h ⟨st.records.next, zone.id, name, r.ttl, made⟩ =
        .ok ⟨st.records.next, zone.id, name, r.ttl, data⟩ := by
      refine bind_eq_ok.mpr ⟨data, hsaved, ?_⟩
      show (if h.accepts ⟨_, _, h.py.lower name, _, _⟩ then _ else _ : Except PyErr Row) = _
      rw [hlower, if_pos (haccepts _)]
      rfl
    refine ⟨saveStore h st₁ ⟨st.records.next, zone.id, name, r.ttl, made⟩,
      ⟨st.records.next, zone.id, name, r.ttl, data⟩, ?_, ?_, rfl, hc.model.1, rfl, fun st' => ?_⟩
    · rw [run_importRr rfl hcolumns, hfrom]
      dsimp only
      rw [if_neg (by omega), run_saveRow, hsavedRow, ← hst₁]
      rfl
    · unfold saveStore
      rw [hsavedRow]
      show (Table.save st₁.records _).rows = _
      rw [rows_save_fresh hnone.2.symm, hnone.1]
    · exact rowEntries_eq (fun hm => hhttps (hc.model.1.symm.trans hm)) hback hne (hc.after st' _ _ _ _)

/-! ### The rows of a zone -/

/-- The rows of a zone, by their classes. -/
theorem perm_flatMap_rowsOf {st : Store} {ms : List Model} (hms : ms.Nodup)
    (hall : ∀ r ∈ st.records, r.zone = zone.id → r.model ∈ ms) :
    (ms.flatMap (rowsOf st zone)).Perm (st.records.rows.filter fun r => r.zone = zone.id) := by
  have hrows : st.records.rows.Nodup := List.Nodup.of_map _ st.records.nodup
  refine (List.perm_ext_iff_of_nodup ?_ (hrows.filter _)).mpr fun r => ?_
  · refine List.nodup_flatMap.mpr ⟨fun m _ => ?_, hms.imp fun hne r hr hr' => ?_⟩
    · exact (List.perm_insertionSort _ _).nodup_iff.mpr (hrows.filter _)
    · exact hne ((mem_rowsOf.mp hr).2.2.symm.trans (mem_rowsOf.mp hr').2.2)
  · rw [mem_flatMap_rowsOf, List.mem_filter, decide_eq_true_iff]
    exact ⟨fun hr => ⟨hr.1, hr.2.1⟩, fun hr => ⟨hr.1, hr.2, hall r hr.1 hr.2⟩⟩

theorem zoneEntries_perm (st : Store) (hroot : DnsLabel.ofText h.py zone.zoneRoot = .ok zoneRoot)
    {g : Row → Entry} (hg : ∀ r ∈ st.records, r.zone = zone.id →
      rowEntries h st zone zoneRoot r = .ok [g r]) :
    ∃ entries, zoneEntries h st zone = .ok entries ∧
      entries.Perm ((st.records.rows.filter fun r => r.zone = zone.id).map g) := by
  have hmap : (publishedModels.flatMap (rowsOf st zone)).mapM (rowEntries h st zone zoneRoot) =
      .ok ((publishedModels.flatMap (rowsOf st zone)).map fun r => [g r]) := by
    refine mapM_eq_map fun r hr => ?_
    obtain ⟨hmem, hz, -⟩ := mem_flatMap_rowsOf.mp hr
    exact hg r hmem hz
  have hall : ∀ m, m ∈ publishedModels := by
    intro m
    cases m <;> decide
  refine ⟨_, bind_eq_ok.mpr ⟨zoneRoot, hroot, bind_eq_ok.mpr ⟨_, hmap, rfl⟩⟩, ?_⟩
  have hflat : ((publishedModels.flatMap (rowsOf st zone)).map fun r => [g r]).flatten =
      (publishedModels.flatMap (rowsOf st zone)).map g := by
    rw [← List.flatMap_def, ← List.map_eq_flatMap]
  rw [hflat]
  exact (perm_flatMap_rowsOf (by decide) fun r _ _ => hall r.model).map g

/-- **The records of rows are imported**: each adds a row, where no CNAME row is in the way of a CNAME. -/
theorem run_importAll {rrOf : Row → Rr} {entryOf : Row → Entry} {l : List Row}
    (himp : ∀ r ∈ l, ImportsAs h zone zoneRoot r (rrOf r) (entryOf r))
    (hpair : l.Pairwise fun r r' => r.model = .cname → r'.model = .cname →
      idnaLabel h r.recordName ≠ idnaLabel h r'.recordName) {st : Store}
    (hst : ∀ r ∈ l, r.model = .cname → ∀ x ∈ st.records, x.zone = zone.id → x.model = .cname →
      idnaLabel h x.recordName ≠ idnaLabel h r.recordName) :
    ∃ st' new, run (runAll (importRr h zone) (l.map rrOf)) st = (.ok (), st') ∧
      st'.records.rows = st.records.rows ++ new ∧ (∀ row ∈ new, row.zone = zone.id) ∧
        List.Forall₂ (fun r row => ∀ st, rowEntries h st zone zoneRoot row = .ok [entryOf r]) l new := by
  induction l generalizing st with
  | nil => exact ⟨st, [], rfl, (List.append_nil _).symm, fun row hrow => (nomatch hrow), .nil⟩
  | cons r l ih =>
    obtain ⟨hfirst, hrest⟩ := List.pairwise_cons.mp hpair
    obtain ⟨name, hname, hrun⟩ := himp r List.mem_cons_self
    obtain ⟨st₁, row, hrun₁, hrows₁, hz, hm, hrow, hentry⟩ := hrun st fun hm x hx hz hxm hxn =>
      hst r List.mem_cons_self hm x hx hz hxm (by rw [hxn, hname])
    have hst₁ : ∀ r' ∈ l, r'.model = .cname → ∀ x ∈ st₁.records, x.zone = zone.id → x.model = .cname →
        idnaLabel h x.recordName ≠ idnaLabel h r'.recordName := by
      intro r' hr' hm' x hx hxz hxm
      have hx' : x ∈ st.records.rows ++ [row] := hrows₁ ▸ (hx : x ∈ st₁.records.rows)
      -- the row that was imported first has the label of its row
      rcases List.mem_append.mp hx' with hold | hone
      · exact hst r' (List.mem_cons_of_mem r hr') hm' x hold hxz hxm
      · obtain rfl := List.mem_singleton.mp hone
        rw [hrow, hname]
        exact hfirst r' hr' (hm.symm.trans hxm) hm'
    obtain ⟨st', new, hrun', hrows', hnew, hforall⟩ :=
      ih (fun r' hr' => himp r' (List.mem_cons_of_mem r hr')) hrest hst₁
    refine ⟨st', row :: new, ?_, ?_, List.forall_mem_cons.mpr ⟨hz, hnew⟩, .cons hentry hforall⟩
    · show run (importRr h zone (rrOf r) >>= fun _ => runAll (importRr h zone) (l.map rrOf)) st = _
      rw [run_bind_ok hrun₁]
      exact hrun'
    · rw [hrows', hrows₁, List.append_assoc]
      rfl

/-! ### The result -/

variable {s : ZoneSyntax} {st : Store}

/-- The rows of a zone that are exported, by what becomes of them. -/
theorem exportZoneFile_of_becomes (hns : ∀ ns ∈ st.customNs, ns.dnsZone ≠ zone.id) {rrOf : Row → Rr}
    {entryOf entryOf' : Row → Entry} (hb : ∀ r ∈ st.records, r.zone = zone.id →
      Becomes h zone zoneRoot r (rrOf r) (entryOf r) (entryOf' r)) :
    exportZoneFile h st zone = .ok ((exportedModels.flatMap (rowsOf st zone)).map rrOf) := by
  have hrows : (exportedModels.flatMap (rowsOf st zone)).mapM
      (fun self => dnsLabel h zone self >>= rowRrs h self) =
        .ok ((exportedModels.flatMap (rowsOf st zone)).map fun r => [rrOf r]) := by
    refine mapM_eq_map fun r hr => ?_
    obtain ⟨hmem, hz, -⟩ := mem_flatMap_rowsOf.mp hr
    exact (hb r hmem hz).exported
  rw [exportZoneFile_eq_ok hns hrows, ← List.flatMap_def, ← List.map_eq_flatMap]

/-- The file of a zone is imported: the new rows of the zone are written as the old ones become. -/
theorem imported_of_becomes (hc : Reimportable h s st zone zoneRoot) {rrOf : Row → Rr}
    {entryOf entryOf' : Row → Entry} (hb : ∀ r ∈ st.records, r.zone = zone.id →
      Becomes h zone zoneRoot r (rrOf r) (entryOf r) (entryOf' r)) :
    ∃ text st' entries', exportedText h s st zone = .ok text ∧
      run (importZoneFile h s.parser zone text true) st = (.ok (), st') ∧
      zoneEntries h st' zone = .ok entries' ∧
        entries'.Perm ((st.records.rows.filter fun r => r.zone = zone.id).map entryOf') := by
  have hexport := exportZoneFile_of_becomes hc.customNs hb
  obtain ⟨l, hl⟩ : ∃ l, l = exportedModels.flatMap (rowsOf st zone) := ⟨_, rfl⟩
  have hperm : l.Perm (st.records.rows.filter fun r => r.zone = zone.id) :=
    hl ▸ perm_flatMap_rowsOf (by decide) fun r hr hz => (hb r hr hz).model.1
  have hmem : ∀ r ∈ l, r ∈ st.records ∧ r.zone = zone.id := by
    intro r hr
    obtain ⟨hmem, hz⟩ := List.mem_filter.mp (hperm.mem_iff.mp hr)
    exact ⟨hmem, of_decide_eq_true hz⟩
  rw [← hl] at hexport
  have hparse := s.parser_toZone zone.zoneRoot zoneRoot (l.map rrOf) hc.rootChars (hc.wellFormed _ hexport)
  -- the rows of the zone are deleted
  obtain ⟨st₀, hst₀⟩ : ∃ st₀, st₀ = deleteSet (fun x => x.zone = zone.id && overwrittenModels.contains x.model)
      st := ⟨_, rfl⟩
  have hgone : ∀ x ∈ st₀.records, x.zone ≠ zone.id := by
    intro x hx hz
    rw [hst₀] at hx
    obtain ⟨hx, hp⟩ := mem_erasing.mp hx
    rw [decide_eq_true hz, Bool.true_and, ← Bool.not_eq_true, List.contains_iff_mem] at hp
    exact hp (hb x hx hz).model.2
  have hpair : l.Pairwise fun r r' => r.model = .cname → r'.model = .cname →
      idnaLabel h r.recordName ≠ idnaLabel h r'.recordName := by
    have hnodup : l.Nodup := hperm.nodup_iff.mpr ((List.Nodup.of_map _ st.records.nodup).filter _)
    refine hnodup.imp_of_mem fun {r r'} hr hr' hne hm hm' hlabel => hne ?_
    exact hc.cnames r (hmem r hr).1 r' (hmem r' hr').1 (hmem r hr).2 (hmem r' hr').2 hm hm' hlabel
  obtain ⟨st', new, hrun, hrows, hnew, hforall⟩ := run_importAll
    (fun r hr => (hb r (hmem r hr).1 (hmem r hr).2).imported) hpair
    fun r _ _ x hx hz _ => absurd hz (hgone x hx)
  have hzone : (st'.records.rows.filter fun r => r.zone = zone.id) = new := by
    rw [hrows, List.filter_append, List.filter_eq_self.mpr fun r hr => decide_eq_true (hnew r hr),
      List.filter_eq_nil_iff.mpr fun r hr => by simpa using hgone r hr]
    rfl
  have hone : ∀ row ∈ new, ∃ e, ∀ st, rowEntries h st zone zoneRoot row = .ok [e] := by
    intro row hrow
    obtain ⟨i, hi, rfl⟩ := List.getElem_of_mem hrow
    have hlen := hforall.length_eq
    exact ⟨_, hforall.get (by omega) hi⟩
  have : Nonempty Entry := ⟨⟨[], 0, .a, []⟩⟩
  choose! g hg using hone
  obtain ⟨entries', hentries', hperm'⟩ := zoneEntries_perm st' hc.root (g := g) fun r hr hz =>
    hg r (hzone ▸ List.mem_filter.mpr ⟨hr, decide_eq_true hz⟩) st'
  have hsame : new.map g = l.map entryOf' := by
    have hlen := hforall.length_eq
    refine List.ext_getElem (by simp [hlen]) fun i hi hi' => ?_
    rw [List.getElem_map, List.getElem_map]
    rw [List.length_map] at hi hi'
    have hentry := hforall.get hi' hi st'
    have hentry' := hg new[i] (List.getElem_mem hi) st'
    exact List.singleton_inj.mp (Except.ok.inj (hentry'.symm.trans hentry))
  refine ⟨_, st', entries', bind_eq_ok.mpr ⟨_, hexport, rfl⟩, ?_, hentries', ?_⟩
  · rw [run_importZoneFile true st hc.root hparse, if_pos rfl, ← hst₀, hrun]
  · rw [hzone, hsame] at hperm'
    exact hperm'.trans (hperm.map entryOf')

theorem toNat_of_rootChar {c : Char} (hc : c.isAlpha ∨ c.isDigit ∨ c = '-' ∨ c = '.') :
    c.toNat < 128 ∧ c.toNat ≠ 64 ∧ c.toNat ≠ 92 := by
  rw [isAlpha_iff, isDigit_iff] at hc
  rcases hc with h | h | rfl | rfl
  · omega
  · omega
  · decide
  · decide

/-- No root of a zone is the name `@`. -/
theorem at_ne_zoneRoot (hc : Reimportable h s st zone zoneRoot) : DnsLabel.at ≠ zoneRoot := by
  rintro rfl
  have hchar : ∀ c ∈ zone.zoneRoot, c.toNat < 128 ∧ c.toNat ≠ 64 ∧ c.toNat ≠ 92 :=
    fun c hmem => toNat_of_rootChar (hc.rootChars c hmem)
  obtain ⟨-, c, hmem, hbyte⟩ := mem_ofText (fun c hmem => (hchar c hmem).1)
    (fun hmem => (hchar _ hmem).2.2 rfl) hc.root (List.mem_singleton.mpr rfl)
    (List.mem_singleton.mpr rfl : (64 : UInt8) ∈ [64])
  obtain ⟨hlt, hne, -⟩ := hchar c hmem
  have hval : (UInt8.ofNat c.toNat).toNat = c.toNat := toNat_byteOf hlt
  rw [← hbyte] at hval
  exact hne hval.symm

/-- **Export and import change nothing if and only if no alias is `@`**, in a zone that meets the
condition. -/
theorem reimported_iff (hat : h.idna "@.".toList = none) (hc : Reimportable h s st zone zoneRoot)
    (httl : ∀ r ∈ st.records, r.zone = zone.id → 1 < r.ttl) :
    Reimported h s st zone ↔ ∀ r ∈ st.records, r.zone = zone.id → r.data ≠ .cname ['@'] := by
  have hrow : ∀ r : Row, ∃ rr entry entry', r ∈ st.records → r.zone = zone.id →
      Becomes h zone zoneRoot r rr entry entry' := by
    intro r
    by_cases hr : r ∈ st.records ∧ r.zone = zone.id
    · obtain ⟨rr, entry, entry', hb⟩ := becomes_of_keepsRow hat (hc.rows r hr.1 hr.2) (httl r hr.1 hr.2)
      exact ⟨rr, entry, entry', fun _ _ => hb⟩
    · exact ⟨⟨.root, .a, .in, 0, .empty⟩, ([], 0, .a, []), ([], 0, .a, []), fun h1 h2 => absurd ⟨h1, h2⟩ hr⟩
  choose rrOf entryOf entryOf' hb using hrow
  obtain ⟨l, hl⟩ : ∃ l, l = st.records.rows.filter fun r => r.zone = zone.id := ⟨_, rfl⟩
  have hmem : ∀ r ∈ l, r ∈ st.records ∧ r.zone = zone.id := by
    intro r hr
    obtain ⟨hmem, hz⟩ := List.mem_filter.mp (hl ▸ hr)
    exact ⟨hmem, of_decide_eq_true hz⟩
  obtain ⟨entries, hentries, hperm⟩ := zoneEntries_perm st hc.root fun r hr hz => (hb r hr hz).before st
  obtain ⟨text, st', entries', htext, hrun, hentries', hperm'⟩ := imported_of_becomes hc hb
  rw [← hl] at hperm hperm'
  constructor
  · rintro ⟨text₁, st₁, entries₁, entries₁', htext₁, hrun₁, hentries₁, hentries₁', hsame⟩ r hr hz hd
    obtain rfl := Except.ok.inj (htext.symm.trans htext₁)
    obtain rfl : st' = st₁ := congrArg Prod.snd (hrun.symm.trans hrun₁)
    obtain rfl := Except.ok.inj (hentries.symm.trans hentries₁)
    obtain rfl := Except.ok.inj (hentries'.symm.trans hentries₁')
    -- the records with the root as their target get fewer
    let p : Entry → Bool := fun e => e.2.2 = (.cname, [.name zoneRoot])
    have hcount : (l.map entryOf).countP p = (l.map entryOf').countP p :=
      ((hperm.symm.trans hsame).trans hperm').countP_eq p
    have hle : ∀ r' ∈ l, p (entryOf' r') = true → p (entryOf r') = true := by
      intro r' hr' hp
      obtain ⟨hmem', hz'⟩ := hmem r' hr'
      by_cases hd' : r'.data = .cname ['@']
      · exact decide_eq_true ((hb r' hmem' hz').root hd').1
      · rwa [(hb r' hmem' hz').kept hd'] at hp
    have hbefore : p (entryOf r) = true := decide_eq_true ((hb r hr hz).root hd).1
    have hafter : p (entryOf' r) = false := by
      refine decide_eq_false ?_
      rw [((hb r hr hz).root hd).2]
      intro heq
      exact at_ne_zoneRoot hc (Field.name.inj (List.cons.inj (Prod.mk.inj heq).2).1)
    obtain ⟨pre, post, hsplit⟩ := List.append_of_mem
      (show r ∈ l from hl ▸ List.mem_filter.mpr ⟨hr, decide_eq_true hz⟩)
    rw [hsplit, List.map_append, List.map_append, List.map_cons, List.map_cons, List.countP_append,
      List.countP_append, List.countP_cons_of_pos hbefore, List.countP_cons_of_neg (by simp [hafter]),
      List.countP_map, List.countP_map, List.countP_map, List.countP_map] at hcount
    have hpre : pre.countP (p ∘ entryOf') ≤ pre.countP (p ∘ entryOf) :=
      List.countP_mono_left fun r' hr' => hle r' (hsplit ▸ List.mem_append_left _ hr')
    have hpost : post.countP (p ∘ entryOf') ≤ post.countP (p ∘ entryOf) :=
      List.countP_mono_left fun r' hr' =>
        hle r' (hsplit ▸ List.mem_append_right _ (List.mem_cons_of_mem r hr'))
    omega
  · intro hd
    refine ⟨text, st', entries, entries', htext, hrun, hentries, hentries', ?_⟩
    have hkept : l.map entryOf' = l.map entryOf := by
      refine List.map_congr_left fun r hr => ?_
      obtain ⟨hr, hz⟩ := hmem r hr
      exact (hb r hr hz).kept (hd r hr hz)
    rw [hkept] at hperm'
    exact hperm.trans hperm'.symm

end

/-! ### Zones with an alias -/

def nameOf (labels : List String) : DnsLabel := ⟨labels.map fun l => encode l.toList⟩

/-- Records with the lines that they are printed as. -/
def exampleLines : List (Rr × Text) :=
  [(⟨nameOf ["www", "example", "com"], .a, .in, 300, .a 0xC0000201#32⟩,
      "www.example.com.        300     IN      A       192.0.2.1".toList),
    (⟨nameOf ["mail", "example", "com"], .cname, .in, 300, .cname (nameOf ["www", "example", "com"])⟩,
      "mail.example.com.       300     IN      CNAME   www.example.com.".toList),
    (⟨nameOf ["example", "com"], .txt, .in, 3600, .txt [encode "v=spf1 -all".toList]⟩,
      "example.com.            3600    IN      TXT     \"v=spf1 -all\"".toList),
    (⟨nameOf ["home", "example", "com"], .cname, .in, 300, .cname .at⟩,
      "home.example.com.       300     IN      CNAME   @.".toList)]

def exampleLine (rr : Rr) : Text := ((exampleLines.find? fun x => x.1 = rr).map Prod.snd).getD []

def exampleRr (line : Text) : Except PyErr Rr :=
  match exampleLines.find? fun x => x.2 = line with
  | some x => .ok x.1
  | none => .error .dnsError

theorem exampleLine_spec : ∀ rr ∈ exampleLines.map Prod.fst,
    '\n' ∉ exampleLine rr ∧ exampleRr (exampleLine rr) = .ok rr := by decide +kernel

/-- The lines of the records, and the records of the lines. -/
def exampleSyntax : ZoneSyntax where
  toZone := exampleLine
  parser text _ := (text.splitOn '\n').tail.mapM exampleRr
  WellFormed rr := rr ∈ exampleLines.map Prod.fst
  parser_toZone zoneRoot origin rrs hroot hrrs := by
    have hfirst : '\n' ∉ "$ORIGIN ".toList ++ zoneRoot := by
      intro hmem
      rcases List.mem_append.mp hmem with hmem | hmem
      · revert hmem
        decide
      · have hchar := hroot _ hmem
        revert hchar
        decide
    have hlines : ∀ l ∈ ("$ORIGIN ".toList ++ zoneRoot) :: rrs.map exampleLine, '\n' ∉ l := by
      refine List.forall_mem_cons.mpr ⟨hfirst, fun l hl => ?_⟩
      obtain ⟨rr, hrr, rfl⟩ := List.mem_map.mp hl
      exact (exampleLine_spec rr (hrrs rr hrr)).1
    have hback : rrs.mapM (exampleRr ∘ exampleLine) = .ok (rrs.map id) :=
      mapM_eq_map fun rr hrr => (exampleLine_spec rr (hrrs rr hrr)).2
    rw [List.splitOn_intercalate '\n' hlines (List.cons_ne_nil _ _), List.tail_cons, List.mapM_map, hback,
      List.map_id]

/-- A zone with rows and this one. -/
def aliasStore (row : Row) : Store :=
  { Store.empty with
    zones := Table.empty.save exampleZone
    records := ((Table.empty.save ⟨1, 1, "www".toList, 300, .address (some (.v4 0xC0000201#32)) true⟩).save
      ⟨2, 1, ['@'], 3600, .txt "v=spf1 -all".toList⟩).save row }

/-- An alias that is a name. -/
def mailRow : Row := ⟨3, 1, "mail".toList, 300, .cname "www.example.com".toList⟩

theorem reimported_mail : Reimported .ascii exampleSyntax (aliasStore mailRow) exampleZone := by
  have hc : Reimportable .ascii exampleSyntax (aliasStore mailRow) exampleZone exampleRoot := by
    have hmem : ∀ r ∈ (aliasStore mailRow).records, r = ⟨1, 1, "www".toList, 300,
        .address (some (.v4 0xC0000201#32)) true⟩ ∨ r = ⟨2, 1, ['@'], 3600, .txt "v=spf1 -all".toList⟩ ∨
        r = mailRow := by
      intro r hr
      change r ∈ [_, _, _] at hr
      simpa using hr
    refine ⟨ofText_exampleZone, by decide, fun ns hns => (nomatch hns), fun r hr _ => ?_,
      fun r hr r' hr' _ _ hm hm' _ => ?_, fun rrs hrrs => ?_⟩
    · rcases hmem r hr with rfl | rfl | rfl
      · exact ⟨rfl, "www".toList, _, ⟨"www".toList, nameOf ["www", "example", "com"], by decide +kernel,
          by decide, by decide +kernel, by decide +kernel, by decide +kernel⟩, rfl, fun _ => rfl⟩
      · have hfits : Models.Txt.Fits "v=spf1 -all".toList := by decide
        exact ⟨hfits, ['@'], _, ⟨['@'], exampleRoot, by decide +kernel,
          by decide, by decide +kernel, by decide +kernel, by decide +kernel⟩, rfl, fun _ => rfl⟩
      · refine ⟨Or.inr ⟨nameOf ["www", "example", "com"], nameOf ["www", "example", "com"],
          by decide +kernel, by decide +kernel, by decide +kernel⟩, "mail".toList,
          .cname "www.example.com.".toList, ⟨"mail".toList, nameOf ["mail", "example", "com"],
          by decide +kernel, by decide, by decide +kernel, by decide +kernel, by decide +kernel⟩,
          by decide +kernel, fun _ => rfl⟩
    · rcases hmem r hr with rfl | rfl | rfl
      · exact absurd hm (by decide)
      · exact absurd hm (by decide)
      · rcases hmem r' hr' with rfl | rfl | rfl
        · exact absurd hm' (by decide)
        · exact absurd hm' (by decide)
        · rfl
    · have hexport : exportZoneFile .ascii (aliasStore mailRow) exampleZone =
          .ok ((exampleLines.take 3).map Prod.fst) := by decide +kernel
      obtain rfl := Except.ok.inj (hrrs.symm.trans hexport)
      exact fun rr hrr => List.map_subset Prod.fst (List.take_subset 3 exampleLines) hrr
  exact (reimported_iff (by decide) hc (by decide)).mpr (by decide)

/-- The alias of the root. -/
def homeRow : Row := ⟨3, 1, "home".toList, 300, .cname ['@']⟩

/-- The alias `@` is the root before, and the name `@.` after. -/
theorem not_reimported_home : ¬ Reimported .ascii exampleSyntax (aliasStore homeRow) exampleZone := by
  rintro ⟨text, st', entries, entries', htext, hrun, hentries, hentries', hsame⟩
  have hroot : (zoneEntries .ascii (aliasStore homeRow) exampleZone).toOption.map
      (·.contains ("home".toList, 300, .cname, [.name exampleRoot])) = some true := by decide +kernel
  have hgone : (zoneEntries .ascii (run (importZoneFile .ascii exampleSyntax.parser exampleZone
      ((exportedText .ascii exampleSyntax (aliasStore homeRow) exampleZone).toOption.getD []) true)
        (aliasStore homeRow)).2 exampleZone).toOption.map
      (·.contains ("home".toList, 300, .cname, [.name exampleRoot])) = some false := by decide +kernel
  rw [htext] at hgone
  change (zoneEntries .ascii (run (importZoneFile .ascii exampleSyntax.parser exampleZone text true)
    (aliasStore homeRow)).2 exampleZone).toOption.map _ = _ at hgone
  rw [hrun, hentries'] at hgone
  rw [hentries] at hroot
  have hmem := List.contains_iff_mem.mp (Option.some.inj hroot)
  have hnot := List.contains_iff_mem.mpr (hsame.subset hmem)
  have hfalse : entries'.contains ("home".toList, 300, .cname, [.name exampleRoot]) = false :=
    Option.some.inj hgone
  rw [hfalse] at hnot
  cases hnot

end HexDns.Views.Reimport
