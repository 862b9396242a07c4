import HexDns.Models.Env
import HexDns.Base.Codecs

/-! # Record rows and resource records

The conversions of the models derived from `DNSZoneRecord`: `from_rr` makes a row of a resource
record, `update_from_rr` changes a row to one, `to_rr` is the way back. The models' methods differ in
the columns only, so `fromRr` and `updateFromRr` are given the columns; each model has its own
`…Columns`, the columns that its `from_rr` sets. A row that has not been saved may hold values of
other types than its columns have (`PyVal`); `columnsOf` is what saving makes of them.

`saveRow` and `deleteRow` are `save` and `delete`: the task goes into the queue first, then the
database is written. -/

namespace HexDns.Models.Convert

open HexDns.Lib.Texts HexDns.Lib.Tables HexDns.Lib.Programs HexDns.Base.Py HexDns.Base.Codecs
  HexDns.Base.Label HexDns.Base.Message HexDns.Models.Db HexDns.Models.Env

section
variable (h : Host)

/-- `DNSZoneRecord.dns_label_to_record_name` -/
def dnsLabelToRecordName (rname : DnsLabel) (zone : Zone) : Except PyErr Text := do
  let zoneName ← DnsLabel.ofText h.py zone.zoneRoot
  if zoneName.Eqv rname then return ['@']
  else return ['.'].intercalate ((← (rname.stripSuffix zoneName).texts).map h.py.lower)

variable {h} in
theorem lower_dnsLabelToRecordName {zone : Zone} {label : DnsLabel} {name : Text}
    (hn : dnsLabelToRecordName h label zone = .ok name) : h.py.lower name = name := by
  unfold dnsLabelToRecordName at hn
  obtain ⟨zoneName, -, hn⟩ := bind_eq_ok.mp hn
  by_cases heqv : zoneName.Eqv label
  · rw [if_pos heqv] at hn
    obtain rfl := Except.ok.inj hn
    rw [lower_ascii (by decide)]
    decide
  · rw [if_neg heqv] at hn
    obtain ⟨texts, -, hn⟩ := bind_eq_ok.mp hn
    obtain rfl := Except.ok.inj hn
    exact lower_joined texts

/-! ### `from_rr` and `update_from_rr` -/

def fromRr (columns : Rr → Except PyErr RecordData) (rr : Rr) (zone : Zone) (id : ℕ) :
    Except PyErr Row := do
  let recordName ← dnsLabelToRecordName h rr.rname zone
  let data ← columns rr
  return ⟨id, zone.id, recordName, rr.ttl, data⟩

def updateFromRr (columns : Rr → Except PyErr RecordData) (self : Row) (rr : Rr) (zone : Zone) :
    Except PyErr Row := do
  let recordName ← dnsLabelToRecordName h rr.rname zone
  let data ← columns rr
  return { self with recordName := recordName, ttl := rr.ttl, data := data }

variable {h} in
theorem fromRr_eq_ok {columns : Rr → Except PyErr RecordData} {rr : Rr} {zone : Zone} {id : ℕ}
    {row : Row} : fromRr h columns rr zone id = .ok row ↔ ∃ name data,
      dnsLabelToRecordName h rr.rname zone = .ok name ∧ columns rr = .ok data ∧
        row = ⟨id, zone.id, name, rr.ttl, data⟩ := by
  unfold fromRr
  rcases dnsLabelToRecordName h rr.rname zone with e | name
  · simp [bind, Except.bind]
  rcases columns rr with e | data
  · simp [bind, Except.bind]
  · simp [bind, Except.bind, pure, Except.pure, eq_comm]

variable {h} in
theorem updateFromRr_eq_ok {columns : Rr → Except PyErr RecordData} {self : Row} {rr : Rr}
    {zone : Zone} {row : Row} : updateFromRr h columns self rr zone = .ok row ↔ ∃ name data,
      dnsLabelToRecordName h rr.rname zone = .ok name ∧ columns rr = .ok data ∧
        row = { self with recordName := name, ttl := rr.ttl, data := data } := by
  unfold updateFromRr
  rcases dnsLabelToRecordName h rr.rname zone with e | name
  · simp [bind, Except.bind]
  rcases columns rr with e | data
  · simp [bind, Except.bind]
  · simp [bind, Except.bind, pure, Except.pure, eq_comm]

/-- `str(rr.rdata)` as an address -/
def rdataAddress : Rdata → Option IpAddr
  | .a a => some (.v4 a)
  | .aaaa a => some (.v6 a)
  | _ => none

def addressColumns (autoReverse : Bool) (rr : Rr) : Except PyErr RecordData :=
  .ok (.address (rdataAddress rr.rdata) autoReverse)

def cnameColumns (rr : Rr) : Except PyErr RecordData :=
  match rr.rdata with
  | .cname label => .ok (.cname label.toText)
  | _ => .error .attributeError

def mxColumns (rr : Rr) : Except PyErr RecordData :=
  match rr.rdata with
  | .mx preference label => .ok (.mx label.toText preference)
  | _ => .error .attributeError

def nsColumns (rr : Rr) : Except PyErr RecordData :=
  match rr.rdata with
  | .ns label => .ok (.ns label.toText)
  | _ => .error .attributeError

def txtColumns (rr : Rr) : Except PyErr RecordData :=
  match rr.rdata with
  | .txt data => .ok (.txt (data.flatMap decodeReplace))
  | _ => .error .attributeError

def srvColumns (rr : Rr) : Except PyErr RecordData :=
  match rr.rdata with
  | .srv priority weight port target => .ok (.srv priority weight port target.toText)
  | _ => .error .attributeError

def caaColumns (rr : Rr) : Except PyErr RecordData :=
  match rr.rdata with
  | .caa flags tag value => .ok (.caa flags tag value)
  | _ => .error .attributeError

def naptrColumns (rr : Rr) : Except PyErr RecordData :=
  match rr.rdata with
  | .naptr order preference flags service regexp replacement =>
    .ok (.naptr (.int order) (.int preference) flags service regexp (.label replacement))
  | _ => .error .attributeError

/-- `NAPTRRecord.update_from_rr` sets four columns to tuples, by a comma after the value. -/
def naptrUpdateColumns (rr : Rr) : Except PyErr RecordData :=
  match rr.rdata with
  | .naptr order preference flags service regexp replacement =>
    .ok (.naptr (.int order) (.single (.int preference)) (.single flags) (.single service)
      (.single regexp) (.label replacement))
  | _ => .error .attributeError

/-- `struct.unpack("!HBB", data)` is for four bytes, the ones before the digest. -/
def dsColumns (rr : Rr) : Except PyErr RecordData :=
  match rr.rdata with
  | .rd [a, b, algorithm, digestType] =>
    .ok (.ds (256 * a.toNat + b.toNat) algorithm.toNat digestType.toNat [])
  | .rd _ => .error .structError
  | _ => .error .attributeError

def dnskeyColumns (rr : Rr) : Except PyErr RecordData :=
  match rr.rdata with
  | .dnskey flags protocol algorithm key =>
    .ok (.dnskey flags protocol algorithm (.bytes (encode (b64encode key))))
  | _ => .error .attributeError

/-- `_dec_size(rr.rdata.data)` is `&` of a byte string and an integer. -/
def locColumns (rr : Rr) : Except PyErr RecordData :=
  match rr.rdata with
  | .rd _ => .error .typeError
  | _ => .error .attributeError

/-- `dnslib.TXT.parse`: `now` bytes of strings have been read of an rdata of `length` bytes. The
first argument is fuel, the number of bytes. -/
def txtParse (length : ℕ) : ℕ → ℕ → Bytes → Except PyErr (List Bytes)
  | _, _, [] => .ok []
  | 0, _, _ => .error .dnsError
  | fuel + 1, now, n :: b =>
    if now + n.toNat < length ∧ n.toNat ≤ b.length then
      (txtParse length fuel (now + n.toNat) (b.drop n.toNat)).map (b.take n.toNat :: ·)
    else .error .dnsError

def hinfoColumns (rr : Rr) : Except PyErr RecordData :=
  match rr.rdata with
  | .rd data => do
    match ← txtParse data.length data.length 0 data with
    | cpu :: os :: _ => return .hinfo (decodeReplace cpu) (decodeReplace os)
    | _ => throw .indexError
  | _ => .error .attributeError

def rpColumns (rr : Rr) : Except PyErr RecordData :=
  match rr.rdata with
  | .rd data => do
    let (mailbox, offset) ← h.decodeName data 0
    let (txt, _) ← h.decodeName data offset
    return .rp mailbox.toText txt.toText
  | _ => .error .attributeError

def dhcidColumns (rr : Rr) : Except PyErr RecordData :=
  match rr.rdata with
  | .rd data => .ok (.dhcid data)
  | _ => .error .attributeError

/-- The columns that `update_from_rr` of a row's model sets; the address row keeps `auto_reverse`. -/
def updateColumns (self : Row) : Rr → Except PyErr RecordData :=
  match self.data with
  | .address _ autoReverse => addressColumns autoReverse
  | .cname _ => cnameColumns
  | .mx .. => mxColumns
  | .ns _ => nsColumns
  | .txt _ => txtColumns
  | .srv .. => srvColumns
  | .caa .. => caaColumns
  | .naptr .. => naptrUpdateColumns
  | .ds .. => dsColumns
  | .dnskey .. => dnskeyColumns
  | .loc .. => locColumns
  | .hinfo .. => hinfoColumns
  | .rp .. => rpColumns h
  | .dhcid _ => dhcidColumns
  | _ => fun _ => .error .attributeError

/-! ### `to_rr` -/

/-- The number of the algorithm of a host key, in the SSHFP records of the key. -/
def sshAlgoNum (keyType : Bytes) : Option ℕ :=
  if keyType = encode "ssh-rsa".toList then some 1
  else if keyType = encode "ssh-dsa".toList then some 2
  else if encode "ecdsa-sha".toList <+: keyType then some 3
  else if keyType = encode "ssh-ed25519".toList then some 4
  else none

/-- `dnslib` refuses numbers that do not fit into their field. -/
def fits (bits n : ℕ) : Except PyErr ℕ := if n < 2 ^ bits then .ok n else .error .valueError

/-- `[data[i: i + 255] for i in range(0, len(data), 255)]` -/
def chunks (data : Text) : List Text :=
  (List.range ((data.length + 254) / 255)).map fun i => (data.drop (255 * i)).take 255

/-- `dnslib.TXT(strings)` -/
def txtRdata (strings : List Bytes) : Except PyErr Rdata :=
  if ∀ s ∈ strings, s.length ≤ 255 then .ok (.txt strings) else .error .dnsError

/-- `DSRecord.digest_bin` -/
def digestBin (digest : Text) : Except PyErr (Option Bytes) :=
  match fromHex digest with
  | .ok b => .ok (some b)
  | .error _ =>
    match b64decode digest with
    | .ok b => .ok (some b)
    | .error .valueError => .ok none
    | .error e => .error e

/-- `dnslib.NAPTR(…)`: the numbers are those of the columns, `replacement` becomes a name. -/
def naptrRdata (order preference flags service regexp replacement : PyVal) : Except PyErr Rdata :=
  match order, preference, replacement with
  | .int o, .int p, .str r => do
    return .naptr (← fits 16 o.toNat) (← fits 16 p.toNat) flags service regexp
      (← DnsLabel.ofText h.py r)
  | _, _, _ => .error .typeError

/-- The type and rdata of `to_rr`, by the model of the row; `DSRecord.to_rr` returns nothing without
a digest. -/
def toRdata : RecordData → Except PyErr (Option (QType × Rdata))
  | .address (some (.v4 a)) _ => .ok (some (.a, .a a))
  | .address (some (.v6 a)) _ => .ok (some (.aaaa, .aaaa a))
  | .address none _ => .error .valueError
  | .cname aliasName => do return some (.cname, .cname (← DnsLabel.ofText h.py aliasName))
  | .mx exchange priority => do
    return some (.mx, .mx (← fits 16 priority) (← DnsLabel.ofText h.py exchange))
  | .ns nameserver => do return some (.ns, .ns (← DnsLabel.ofText h.py nameserver))
  | .txt data => do return some (.txt, ← txtRdata ((chunks data).map encode))
  | .srv priority weight port target => do
    return some (.srv, .srv (← fits 16 priority) (← fits 16 weight) (← fits 16 port)
      (← DnsLabel.ofText h.py target))
  | .caa flag tag value => do return some (.caa, .caa (← fits 8 flag) tag value)
  | .naptr order preference flags service regexp replacement => do
    return some (.naptr, ← naptrRdata h order preference flags service regexp replacement)
  | .ds keyTag algorithm digestType digest => do
    match ← digestBin digest with
    | none | some [] => return none
    | some digest => return some (.ds, .ds keyTag algorithm digestType digest)
  | .loc latitude longitude altitude size hp vp =>
    .ok (some (.loc, .loc latitude longitude altitude size hp vp))
  | .hinfo cpu os => do return some (.hinfo, ← txtRdata [encode cpu, encode os])
  | .rp mailbox txt => do
    return some (.rp, .rp (← DnsLabel.ofText h.py mailbox) (← DnsLabel.ofText h.py txt))
  | .https data => do return some (.https, .svcb data.priority data.target (← h.svcbParams data))
  | .dhcid data => .ok (some (.dhcid, .dhcid data))
  | _ => .error .attributeError

/-- `to_rr` -/
def toRr (self : Row) (queryName : DnsLabel) : Except PyErr (Option Rr) := do
  return (← toRdata h self.data).map fun (rtype, rdata) => ⟨queryName, rtype, .in, self.ttl, rdata⟩

/-- The type of the resource record of a row. -/
def rtypeOf : RecordData → Option QType
  | .address (some (.v4 _)) _ => some .a
  | .address (some (.v6 _)) _ => some .aaaa
  | .cname _ => some .cname
  | .mx .. => some .mx
  | .ns _ => some .ns
  | .txt _ => some .txt
  | .srv .. => some .srv
  | .caa .. => some .caa
  | .naptr .. => some .naptr
  | .ds .. => some .ds
  | .loc .. => some .loc
  | .hinfo .. => some .hinfo
  | .rp .. => some .rp
  | .https _ => some .https
  | .dhcid _ => some .dhcid
  | _ => none

variable {h} in
theorem rtypeOf_toRdata {d : RecordData} {t : QType} {x : Rdata}
    (hd : toRdata h d = .ok (some (t, x))) : rtypeOf d = some t := by
  rcases d with ⟨_ | a | a, _⟩ | _ | _ | _ | _ | _ | _ | _ | _ | _ | _ | _ | _ | _ | _ | _ | _ | _ |
    _ | _ <;>
    simp [toRdata, bind_eq_ok, rtypeOf, pure, Except.pure] at hd ⊢ <;> grind

theorem model_of_rtypeOf_txt {d : RecordData} (hd : rtypeOf d = some .txt) : d.model = .txt := by
  rcases d with ⟨_ | a | a, _⟩ | _ | _ | _ | _ | _ | _ | _ | _ | _ | _ | _ | _ | _ | _ | _ | _ | _ |
    _ | _ <;> cases hd
  rfl

variable {h} in
theorem toRr_eq_some {self : Row} {queryName : DnsLabel} {rr : Rr} :
    toRr h self queryName = .ok (some rr) ↔ ∃ t x, toRdata h self.data = .ok (some (t, x)) ∧
      rr = ⟨queryName, t, .in, self.ttl, x⟩ := by
  unfold toRr
  rcases toRdata h self.data with e | _ | ⟨t, x⟩
  · simp [bind, Except.bind]
  · simp [bind, Except.bind, pure, Except.pure]
  · simp [bind, Except.bind, pure, Except.pure, eq_comm]

/-! ### `save` and `delete` -/

/-- `IntegerField.get_prep_value` -/
def intColumn : PyVal → Except PyErr PyVal
  | .int n => .ok (.int n)
  | .none => .ok .none
  | .str t =>
    match h.py.int t with
    | some n => .ok (.int n)
    | none => .error .valueError
  | .bytes b =>
    match (decode b).bind h.py.int with
    | some n => .ok (.int n)
    | none => .error .valueError
  | _ => .error .typeError

/-- `repr` of a value of a column -/
def reprVal : PyVal → Text
  | .none => "None".toList
  | .int n => (toString n).toList
  | .str t => '\'' :: t ++ ['\'']
  | .bytes b => reprBytes b
  | .label l => "<DNSLabel: '".toList ++ l.toText ++ "'>".toList
  | .single v => '(' :: reprVal v ++ ",)".toList

/-- `CharField.to_python` -/
def charColumn : PyVal → PyVal
  | .none => .none
  | .str t => .str t
  | .label l => .str l.toText
  | v => .str (reprVal v)

/-- The columns of a row as they are saved. -/
def columnsOf : RecordData → Except PyErr RecordData
  | .aname aliasName => .ok (.aname (h.py.lower aliasName))
  | .cname aliasName => .ok (.cname (h.py.lower aliasName))
  | .mx exchange priority => .ok (.mx (h.py.lower exchange) priority)
  | .ns nameserver => .ok (.ns (h.py.lower nameserver))
  | .naptr order preference flags service regexp replacement => do
    return .naptr (← intColumn h order) (← intColumn h preference) (charColumn flags)
      (charColumn service) (charColumn regexp) (charColumn replacement)
  | .dnskey flags protocol algorithm publicKey =>
    .ok (.dnskey flags protocol algorithm (charColumn publicKey))
  | .rp mailbox txt => .ok (.rp (h.py.lower mailbox) (h.py.lower txt))
  | .https data => .ok (.https { data with target := h.py.lower data.target })
  | data => .ok data

/-- `tasks.update_fzone.delay(zone.id)` -/
def enqueue (zone : ℕ) : Exec Store PyErr Unit :=
  modify fun st => { st with queue := st.queue ++ [zone] }

/-- The store with a row saved, and the write in the journal. -/
def Store.put (st : Store) (row : Row) : Store :=
  { st with
    records := st.records.save row
    journal := st.journal ++ [match getRow st.records row.id with
      | none => .create row
      | some old => .change old row] }

/-- The store without a row, and the write in the journal. -/
def Store.drop (st : Store) (row : Row) : Store :=
  { st with
    records := st.records.erase row.id
    anameCache := st.anameCache.erasing fun c => c.record = row.id
    journal := st.journal ++ ((getRow st.records row.id).map .delete).toList }

/-- `super().save()` -/
def writeRow (row : Row) : Exec Store PyErr Unit :=
  if h.accepts row then modify fun st => Store.put st row else throw .databaseError

/-- `save` -/
def saveRow (row : Row) : Exec Store PyErr Unit := do
  enqueue row.zone
  let data ← ofResult (columnsOf h row.data)
  writeRow h { row with recordName := h.py.lower row.recordName, data := data }

/-- `delete`; `DHCIDRecord` has none of its own, and no task. -/
def deleteRow (row : Row) : Exec Store PyErr Unit := do
  if row.model = .dhcid then pure () else enqueue row.zone
  modify fun st => Store.drop st row

variable {h}

theorem model_columnsOf {data data' : RecordData} (hd : columnsOf h data = .ok data') :
    data'.model = data.model := by
  rcases data with _ | _ | _ | _ | _ | _ | _ | _ | _ | _ | _ | _ | _ | _ | _ | _ | _ | _ | _ | _ <;>
    simp [columnsOf, bind_eq_ok, pure, Except.pure] at hd
  case naptr =>
    obtain ⟨_, -, _, -, rfl⟩ := hd; rfl
  all_goals (subst hd; rfl)

/-- Columns of rows of one model. -/
def Makes (columns : Rr → Except PyErr RecordData) (m : Model) : Prop :=
  ∀ rr data, columns rr = .ok data → data.model = m

theorem makes_hinfoColumns : Makes hinfoColumns .hinfo := by
  intro rr data hd
  unfold hinfoColumns at hd
  split at hd
  · obtain ⟨strings, -, hd⟩ := bind_eq_ok.mp hd
    split at hd <;> cases hd
    rfl
  · cases hd

theorem makes_rpColumns : Makes (rpColumns h) .rp := by
  intro rr data hd
  unfold rpColumns at hd
  split at hd
  · obtain ⟨_, -, hd⟩ := bind_eq_ok.mp hd
    obtain ⟨_, -, hd⟩ := bind_eq_ok.mp hd
    cases hd
    rfl
  · cases hd

theorem makes_updateColumns (self : Row) : Makes (updateColumns h self) self.model := by
  intro rr data hd
  unfold updateColumns at hd
  change _ = self.data.model
  rcases hself : self.data with _ | _ | _ | _ | _ | _ | _ | _ | _ | _ | _ | _ | _ | _ | _ | _ | _ | _ |
    _ | _ <;> simp only [hself] at hd
  case hinfo => exact makes_hinfoColumns rr data hd
  case rp => exact makes_rpColumns rr data hd
  case address => cases hd; rfl
  all_goals
    simp only [cnameColumns, mxColumns, nsColumns, txtColumns, srvColumns, caaColumns,
      naptrUpdateColumns, dsColumns, dnskeyColumns, locColumns, dhcidColumns, reduceCtorEq] at hd
    try (split at hd <;> cases hd <;> rfl)

end

end HexDns.Models.Convert
