import Mathlib.Data.List.ReduceOption
import HexDns.Lib.Runs
import HexDns.Grpc.Steps
import HexDns.Tasks.Published
import HexDns.Tasks.Frame
import HexDns.Tasks.Rzone

/-! # Automatic reverse records

Address and PTR records are saved and deleted one after the other, and the queue is drained after each.
A task for a forward zone generates its file and puts tasks for the reverse zones of its address records
into the queue, which generate theirs.

Those are the reverse zones of the records that are there after the operation: the zone of an address
that a record has left is not among them, unless another record of the task's zone is in it.
`follows_of_along` says when the reverse zones follow the address records. -/

namespace HexDns.Tasks.Reverse

open HexDns.Lib.Texts HexDns.Lib.Tables HexDns.Lib.Programs HexDns.Lib.Runs HexDns.Base.Py
  HexDns.Base.Label HexDns.Base.Message HexDns.Models.Db HexDns.Models.Env HexDns.Models.Convert
  HexDns.Grpc.Steps HexDns.Axfr.Access HexDns.Tasks.ZoneFile HexDns.Tasks.Published HexDns.Tasks.Frame
  HexDns.Tasks.Rzone

/-! ### Operations -/

/-- `AddressRecord` -/
structure AddressRecord where
  id : ℕ
  zone : ℕ
  recordName : Text
  ttl : ℕ
  address : IpAddr
  autoReverse : Bool
  deriving DecidableEq, Repr

def AddressRecord.row (r : AddressRecord) : Row :=
  ⟨r.id, r.zone, r.recordName, r.ttl, .address (some r.address) r.autoReverse⟩

inductive Operation
  | saveAddress (self : AddressRecord)
  | deleteAddress (self : AddressRecord)
  | savePtr (self : PtrRecord)
  | deletePtr (self : PtrRecord)
  deriving DecidableEq, Repr

/-- A file of a zone. -/
inductive ZoneContents
  | forward (text : Text)
  | reverse (file : RzoneFile)
  deriving DecidableEq, Repr

structure State where
  db : Db
  /-- the zone files by their names -/
  files : Text → Option ZoneContents

section
variable (h : Host) (accounts : Accounts)

/-- `save` and `delete`, with the task for the forward zone in the queue. -/
def Operation.apply (op : Operation) (db : Db) : Db :=
  match op with
  | .saveAddress self => { db with forward := (run (saveRow h self.row) db.forward).2 }
  | .deleteAddress self => { db with forward := (run (deleteRow self.row) db.forward).2 }
  | .savePtr self =>
    { db with ptrRecords := db.ptrRecords.save { self with pointer := h.py.lower self.pointer } }
  | .deletePtr self => { db with ptrRecords := db.ptrRecords.erase self.id }

/-- The reverse zone that the operation itself puts a task into the queue for. -/
def Operation.rzones : Operation → List ℕ
  | .savePtr self | .deletePtr self => [self.zone]
  | _ => []

/-- `update_fzone`: the file and the reverse zones that there are tasks for after it. -/
def updateFzone (db : Db) (time : ℕ) (files : Text → Option ZoneContents) (z : ℕ) :
    Except PyErr ((Text → Option ZoneContents) × List ℕ) :=
  match getRow db.forward.zones z with
  | none => .ok (files, [])
  | some zone =>
    if rootPattern zone.zoneRoot then do
      let zoneRoot ← DnsLabel.ofText h.py zone.zoneRoot
      let rzones ← rzonesOf h db zone
      let zoneFile ← generateFzone h db.forward time zone
      return (fun n => if n = zoneRoot.toText then some (.forward zoneFile) else files n, rzones)
    else .ok (files, [])

/-- The name of the file of a reverse zone. -/
def rzoneName (zone : ReverseZone) : Option Text :=
  (ipNetwork zone.zoneRootAddress zone.zoneRootPrefix).map fun network => (networkToApra network).toText

/-- `update_rzone` -/
def updateRzone (db : Db) (time : ℕ) (files : Text → Option ZoneContents) (z : ℕ) :
    Except PyErr (Text → Option ZoneContents) :=
  match getRow db.reverseZones z with
  | none => .ok files
  | some zone => do
    let zoneFile ← generateRzone h accounts db time zone
    return fun n => if some n = rzoneName zone then some (.reverse zoneFile) else files n

/-- The tasks for forward zones, and then those for reverse zones. -/
def drain (db : Db) (time : ℕ) : List ℕ → List ℕ → (Text → Option ZoneContents) →
    Except PyErr (Text → Option ZoneContents)
  | [], rzones, files => rzones.foldlM (updateRzone h accounts db time) files
  | z :: fzones, rzones, files => do
    let (files, more) ← updateFzone h db time files z
    drain db time fzones (rzones ++ more) files

/-- An operation at a time, and the draining of the queue; there is no end of it if a task raises. -/
def step (s : State) (x : Operation × ℕ) : Option State :=
  let db := x.1.apply h s.db
  (drain h accounts db x.2 db.forward.queue x.1.rzones s.files).toOption.map fun files =>
    ⟨{ db with forward := { db.forward with queue := [] } }, files⟩

/-! ### What is to follow -/

/-- The address record is served by the reverse zone: `auto_reverse` is set, the accounts are the same
and the address is in the network. -/
def Belongs (zone : ReverseZone) (network : IpNetwork) (r : Row) (address : IpAddr) : Prop :=
  r.data = .address (some address) true ∧ network.contains address = true ∧
    ∃ account, accounts.forward r.zone = .ok account ∧ accounts.reverse zone.id = .ok account

/-- The name is the one that the row is published with. -/
def IsOwner (st : Store) (r : Row) (pointer : DnsLabel) : Prop :=
  ∃ zone zoneRoot ls, getRow st.zones r.zone = some zone ∧
    DnsLabel.ofText h.py zone.zoneRoot = .ok zoneRoot ∧ publishedOwner h zoneRoot r = some ls ∧
    pointer.Eqv ⟨ls⟩

/-- The line is that of the record, and points at its owner. -/
def IsFor (st : Store) (l : AutoLine) (r : Row) (address : IpAddr) : Prop :=
  l.id = r.id ∧ l.address = address ∧ l.ttl = r.ttl ∧ IsOwner h st r l.pointer

/-- The file of a reverse zone has the lines of the address records that belong to it. -/
def Matches (db : Db) (zone : ReverseZone) (network : IpNetwork) (file : RzoneFile) : Prop :=
  (∀ l ∈ file.auto, ∃ r ∈ db.forward.records, ∃ address, Belongs accounts zone network r address ∧
    IsFor h db.forward l r address) ∧
  ∀ r ∈ db.forward.records, ∀ address, Belongs accounts zone network r address →
    ∃ l ∈ file.auto, IsFor h db.forward l r address

/-- **The reverse zones follow the address records.** -/
def Follows (s : State) : Prop :=
  ∀ zone ∈ s.db.reverseZones, ∀ network,
    ipNetwork zone.zoneRootAddress zone.zoneRootPrefix = some network → ∃ file,
      s.files (networkToApra network).toText = some (.reverse file) ∧
      Matches h accounts s.db zone network file

/-! ### The condition on an operation -/

/-- The address record that an operation is about. -/
def Operation.address : Operation → Option AddressRecord
  | .saveAddress self | .deleteAddress self => some self
  | _ => none

/-- The file of the forward zone is generated, and one of its address records is in the network of the
reverse zone. -/
def Triggers (db : Db) (z : ℕ) (zone : ReverseZone) : Prop :=
  ∃ fzone, getRow db.forward.zones z = some fzone ∧ rootPattern fzone.zoneRoot = true ∧
    ∃ r ∈ db.forward.records, r.zone = fzone.id ∧ (ownerText h r).isSome = true ∧ ∃ address,
      r.data = .address (some address) true ∧
      strictlyInside address ⟨zone.zoneRootAddress, zone.zoneRootPrefix⟩ = true

/-- The file of the reverse zone is generated again after the operation. -/
def Regenerated (op : Operation) (db : Db) (zone : ReverseZone) : Prop :=
  zone.id ∈ op.rzones ∨ ∃ self, op.address = some self ∧ Triggers h db self.zone zone

/-- The address records that belong to the reverse zone are strictly inside its network, and the name
that `generate_rzone` makes for them is that of their owner. -/
def Sound (db : Db) (zone : ReverseZone) (network : IpNetwork) : Prop :=
  ∀ r ∈ db.forward.records, ∀ address, Belongs accounts zone network r address →
    strictlyInside address network = true ∧ ∀ fzone, getRow db.forward.zones r.zone = some fzone →
      ∀ pointer, zonePtr h fzone r.recordName = .ok pointer → IsOwner h db.forward r pointer

/-- **The condition on an operation**: files have names of their own; a reverse zone that is generated
again is sound; and to one that is not, neither the record as it was nor as it becomes belongs. -/
structure Ok (s : State) (x : Operation × ℕ) : Prop where
  names : ∀ zone ∈ s.db.reverseZones, ∀ zone' ∈ s.db.reverseZones, ∀ n, rzoneName zone = some n →
    rzoneName zone' = some n → zone = zone'
  forward : ∀ self, x.1.address = some self → ∀ fzone, getRow s.db.forward.zones self.zone = some fzone →
    ∀ zoneRoot, DnsLabel.ofText h.py fzone.zoneRoot = .ok zoneRoot → ∀ zone ∈ s.db.reverseZones,
      rzoneName zone ≠ some zoneRoot.toText
  sound : ∀ zone ∈ s.db.reverseZones, ∀ network,
    ipNetwork zone.zoneRootAddress zone.zoneRootPrefix = some network →
    Regenerated h x.1 (x.1.apply h s.db) zone → Sound h accounts (x.1.apply h s.db) zone network
  others : ∀ zone ∈ s.db.reverseZones, ∀ network,
    ipNetwork zone.zoneRootAddress zone.zoneRootPrefix = some network →
    ¬ Regenerated h x.1 (x.1.apply h s.db) zone → ∀ self, x.1.address = some self →
      ∀ r, r ∈ s.db.forward.records ∨ r ∈ (x.1.apply h s.db).forward.records → r.id = self.id →
        ∀ address, ¬ Belongs accounts zone network r address

end

/-! ### What the tasks do -/

section
variable {h : Host} {accounts : Accounts} {db : Db} {time : ℕ} {zone : ReverseZone} {network : IpNetwork}

theorem ipNetwork_eq_some {address : IpAddr} {pre : ℕ} (hn : ipNetwork address pre = some network) :
    network = ⟨address, pre⟩ := by
  rcases address with a | a <;>
  · simp only [ipNetwork] at hn
    split_ifs at hn
    exact (Option.some.inj hn).symm

theorem contains_of_strictlyInside {address : IpAddr} (ha : strictlyInside address network = true) :
    network.contains address = true := by
  unfold strictlyInside at ha
  exact (Bool.and_eq_true_iff.mp ha).1

theorem mem_autoRecords {st : Store} {r : Row} {address : IpAddr} : (r, address) ∈ autoRecords st network ↔
    r ∈ st.records ∧ r.data = .address (some address) true ∧ strictlyInside address network = true := by
  unfold autoRecords
  rw [List.mem_filterMap]
  constructor
  · rintro ⟨r', hr', hx⟩
    split at hx
    · split_ifs at hx with hin
      obtain ⟨rfl, rfl⟩ := Prod.mk.inj (Option.some.inj hx)
      exact ⟨hr', ‹_›, hin⟩
    · cases hx
  · rintro ⟨hr, hdata, hin⟩
    exact ⟨r, hr, by simp only [hdata, hin, if_true]⟩

/-- The line of a record of the account. -/
theorem autoLine_eq_some {account : ℕ} {r : Row} {address : IpAddr} {l : AutoLine} :
    autoLine h accounts db account r address = .ok (some l) ↔
      accounts.forward r.zone = .ok account ∧ ∃ fzone pointer,
        getRow db.forward.zones r.zone = some fzone ∧ zonePtr h fzone r.recordName = .ok pointer ∧
        l = ⟨r.id, address, r.ttl, pointer⟩ := by
  unfold autoLine
  constructor
  · intro hl
    obtain ⟨account2, hacc, hl⟩ := bind_eq_ok.mp hl
    by_cases heq : account2 = account
    · rw [if_pos heq] at hl
      rcases hz : getRow db.forward.zones r.zone with _ | fzone
      · simp only [hz] at hl
        cases hl
      · simp only [hz] at hl
        obtain ⟨pointer, hp, hl⟩ := bind_eq_ok.mp hl
        exact ⟨heq ▸ hacc, fzone, pointer, rfl, hp, (Option.some.inj (Except.ok.inj hl)).symm⟩
    · rw [if_neg heq] at hl
      cases hl
  · rintro ⟨hacc, fzone, pointer, hz, hp, rfl⟩
    refine bind_eq_ok.mpr ⟨account, hacc, ?_⟩
    rw [if_pos rfl]
    simp only [hz]
    exact bind_eq_ok.mpr ⟨pointer, hp, rfl⟩

theorem autoLine_ok_none {account : ℕ} {r : Row} {address : IpAddr}
    (hl : autoLine h accounts db account r address = .ok none) :
    accounts.forward r.zone ≠ .ok account := by
  unfold autoLine at hl
  obtain ⟨account2, hacc, hl⟩ := bind_eq_ok.mp hl
  intro hacc'
  rw [hacc] at hacc'
  rw [if_pos (Except.ok.inj hacc')] at hl
  rcases hz : getRow db.forward.zones r.zone with _ | fzone
  · simp only [hz] at hl
    cases hl
  · simp only [hz] at hl
    obtain ⟨pointer, -, hl⟩ := bind_eq_ok.mp hl
    cases hl

/-- **A file that is generated from sound rows matches them.** -/
theorem matches_of_generateRzone (hn : ipNetwork zone.zoneRootAddress zone.zoneRootPrefix = some network)
    (hsound : Sound h accounts db zone network) {file : RzoneFile}
    (hfile : generateRzone h accounts db time zone = .ok file) : Matches h accounts db zone network file := by
  unfold generateRzone at hfile
  rw [hn] at hfile
  obtain ⟨header, -, hfile⟩ := bind_eq_ok.mp hfile
  obtain ⟨account, hacc, hfile⟩ := bind_eq_ok.mp hfile
  obtain ⟨ptrs, -, hfile⟩ := bind_eq_ok.mp hfile
  obtain ⟨ns, -, hfile⟩ := bind_eq_ok.mp hfile
  obtain ⟨auto, hauto, hfile⟩ := bind_eq_ok.mp hfile
  obtain rfl := Except.ok.inj hfile
  obtain ⟨hof, hall⟩ := mem_mapM hauto
  constructor
  · intro l hl
    obtain ⟨⟨r, address⟩, hmem, hline⟩ := hof (some l) (List.reduceOption_mem_iff.mp hl)
    obtain ⟨hr, hdata, hin⟩ := mem_autoRecords.mp hmem
    obtain ⟨hacc', fzone, pointer, hz, hp, rfl⟩ := autoLine_eq_some.mp hline
    have hbelongs : Belongs accounts zone network r address :=
      ⟨hdata, contains_of_strictlyInside hin, account, hacc', hacc⟩
    exact ⟨r, hr, address, hbelongs, rfl, rfl, rfl, (hsound r hr address hbelongs).2 fzone hz pointer hp⟩
  · intro r hr address hbelongs
    obtain ⟨hin, howner⟩ := hsound r hr address hbelongs
    obtain ⟨hdata, -, account', hacc', hacc''⟩ := hbelongs
    rw [hacc] at hacc''
    obtain rfl := Except.ok.inj hacc''
    obtain ⟨o, ho, hline⟩ := hall (r, address) (mem_autoRecords.mpr ⟨hr, hdata, hin⟩)
    rcases o with _ | l
    · exact absurd hacc' (autoLine_ok_none hline)
    · obtain ⟨-, fzone, pointer, hz, hp, rfl⟩ := autoLine_eq_some.mp hline
      exact ⟨_, List.reduceOption_mem_iff.mpr ho, rfl, rfl, rfl, howner fzone hz pointer hp⟩

/-- The reverse zones that there are tasks for after the file of a forward zone is generated. -/
theorem mem_rzonesOf {fzone : Zone} {ids : List ℕ} (hids : rzonesOf h db fzone = .ok ids)
    (hzone : zone ∈ db.reverseZones) : zone.id ∈ ids ↔
      ∃ r ∈ db.forward.records, r.zone = fzone.id ∧ (ownerText h r).isSome = true ∧ ∃ address,
        r.data = .address (some address) true ∧
        strictlyInside address ⟨zone.zoneRootAddress, zone.zoneRootPrefix⟩ = true := by
  unfold rzonesOf at hids
  obtain ⟨zones, hzones, hids⟩ := bind_eq_ok.mp hids
  obtain rfl := Except.ok.inj hids
  obtain ⟨hof, hall⟩ := mem_mapM hzones
  rw [List.mem_dedup, List.mem_map]
  constructor
  · rintro ⟨zone', hmem, hid⟩
    obtain ⟨zs, hzs, hmem⟩ := List.mem_flatten.mp hmem
    obtain ⟨r, hr, heq⟩ := hof zs hzs
    obtain ⟨hr, hz, -⟩ := mem_rowsOf.mp hr
    split at heq
    · rename_i name address hname hdata
      unfold reverseZonesOf at heq
      split_ifs at heq
      obtain rfl := Except.ok.inj heq
      obtain ⟨hmem, hin⟩ := List.mem_filter.mp hmem
      obtain rfl := eq_of_key hmem hzone hid
      exact ⟨r, hr, hz, by rw [hname]; rfl, address, hdata, hin⟩
    · obtain rfl := Except.ok.inj heq
      exact absurd hmem List.not_mem_nil
  · rintro ⟨r, hr, hz, hname, address, hdata, hin⟩
    obtain ⟨name, hname⟩ := Option.isSome_iff_exists.mp hname
    have hmodel : r.model = .address := by
      unfold Row.model
      rw [hdata]
      rfl
    obtain ⟨zs, hzs, heq⟩ := hall r (mem_rowsOf.mpr ⟨hr, hz, hmodel⟩)
    simp only [hname, hdata] at heq
    unfold reverseZonesOf at heq
    split_ifs at heq
    obtain rfl := Except.ok.inj heq
    exact ⟨zone, List.mem_flatten.mpr ⟨_, hzs, List.mem_filter.mpr ⟨hzone, hin⟩⟩, rfl⟩

theorem updateFzone_spec {files files' : Text → Option ZoneContents} {z : ℕ} {more : List ℕ} {n : Text}
    (hu : updateFzone h db time files z = .ok (files', more)) (hzone : zone ∈ db.reverseZones)
    (hn : ∀ fzone, getRow db.forward.zones z = some fzone → ∀ zoneRoot,
      DnsLabel.ofText h.py fzone.zoneRoot = .ok zoneRoot → n ≠ zoneRoot.toText) :
    files' n = files n ∧ (zone.id ∈ more ↔ Triggers h db z zone) := by
  unfold updateFzone at hu
  rcases hz : getRow db.forward.zones z with _ | fzone
  · simp only [hz] at hu
    obtain ⟨rfl, rfl⟩ := Prod.mk.inj (Except.ok.inj hu)
    refine ⟨rfl, fun hmem => absurd hmem List.not_mem_nil, ?_⟩
    rintro ⟨fzone, hz', -⟩
    rw [hz] at hz'
    cases hz'
  · simp only [hz] at hu
    by_cases hroot : rootPattern fzone.zoneRoot = true
    · rw [if_pos hroot] at hu
      obtain ⟨zoneRoot, hzr, hu⟩ := bind_eq_ok.mp hu
      obtain ⟨rzones, hrz, hu⟩ := bind_eq_ok.mp hu
      obtain ⟨zoneFile, -, hu⟩ := bind_eq_ok.mp hu
      obtain ⟨rfl, rfl⟩ := Prod.mk.inj (Except.ok.inj hu)
      refine ⟨if_neg (hn fzone hz zoneRoot hzr), (mem_rzonesOf hrz hzone).trans ⟨?_, ?_⟩⟩
      · intro hr
        exact ⟨fzone, hz, hroot, hr⟩
      · rintro ⟨fzone', hz', -, hr⟩
        rw [hz] at hz'
        obtain rfl := Option.some.inj hz'
        exact hr
    · rw [if_neg hroot] at hu
      obtain ⟨rfl, rfl⟩ := Prod.mk.inj (Except.ok.inj hu)
      refine ⟨rfl, fun hmem => absurd hmem List.not_mem_nil, ?_⟩
      rintro ⟨fzone', hz', hroot', -⟩
      rw [hz] at hz'
      obtain rfl := Option.some.inj hz'
      exact absurd hroot' hroot

/-- The tasks for reverse zones: a zone that there is one for gets its file, and one that there is none
for keeps the one that it has. -/
theorem foldlM_updateRzone {n : Text} (hzone : zone ∈ db.reverseZones) (hn : rzoneName zone = some n)
    (hnames : ∀ zone' ∈ db.reverseZones, rzoneName zone' = some n → zone' = zone) {ids : List ℕ}
    {files files' : Text → Option ZoneContents}
    (hd : ids.foldlM (updateRzone h accounts db time) files = .ok files') :
    (zone.id ∈ ids → ∃ file, files' n = some (.reverse file) ∧
      generateRzone h accounts db time zone = .ok file) ∧
    (zone.id ∉ ids → files' n = files n) := by
  -- what `update_rzone` makes, and the name that it stores it under
  let make (z : ℕ) : Except PyErr (Option (Text × ZoneContents)) :=
    match getRow db.reverseZones z with
    | none => .ok none
    | some zone' => (generateRzone h accounts db time zone').map fun file =>
        (rzoneName zone').map fun name => (name, .reverse file)
  have hf : ∀ files z, updateRzone h accounts db time files z = (make z).map (stored files) := by
    intro files z
    unfold updateRzone
    rcases hz : getRow db.reverseZones z with _ | zone'
    · simp only [make, hz]
      rfl
    · simp only [make, hz]
      rcases generateRzone h accounts db time zone' with e | file
      · rfl
      · refine congrArg Except.ok (funext fun n => ?_)
        rcases rzoneName zone' with _ | name
        · rfl
        · show (if some n = some name then _ else _) = if n = name then _ else _
          simp only [Option.some.injEq]
  have hmake : make zone.id = (generateRzone h accounts db time zone).map fun file => some (n, .reverse file) := by
    simp only [make, getRow_eq_some.mpr ⟨hzone, rfl⟩, hn]
    rfl
  have hsome : ∀ o, make zone.id = .ok o → ∃ contents, o = some (n, contents) := by
    intro o ho
    rw [hmake] at ho
    rcases hgen : generateRzone h accounts db time zone with e | file
    · rw [hgen] at ho
      cases ho
    · rw [hgen] at ho
      exact ⟨.reverse file, (Except.ok.inj ho).symm⟩
  have hothers : ∀ z ∈ ids, z ≠ zone.id → ∀ contents, make z ≠ .ok (some (n, contents)) := by
    intro z _ hz contents hcontents
    rcases hz' : getRow db.reverseZones z with _ | zone'
    · simp only [make, hz'] at hcontents
      cases hcontents
    · simp only [make, hz'] at hcontents
      rcases hgen : generateRzone h accounts db time zone' with e | file
      · rw [hgen] at hcontents
        cases hcontents
      · rw [hgen] at hcontents
        obtain ⟨name, hname, heq⟩ := Option.map_eq_some_iff.mp (Except.ok.inj hcontents)
        obtain ⟨hmem', hid⟩ := getRow_eq_some.mp hz'
        obtain rfl : name = n := (Prod.mk.inj heq).1
        exact hz (hid.symm.trans (congrArg ReverseZone.id (hnames zone' hmem' hname)))
  obtain ⟨hin, hout⟩ := foldlM_stored hf hsome hothers hd
  refine ⟨fun hmem => ?_, hout⟩
  obtain ⟨contents, hcontents, hfile⟩ := hin hmem
  rcases hgen : generateRzone h accounts db time zone with e | file
  · rw [hmake, hgen] at hcontents
    cases hcontents
  · rw [hmake, hgen] at hcontents
    obtain rfl : ZoneContents.reverse file = contents :=
      (Prod.mk.inj (Option.some.inj (Except.ok.inj hcontents))).2
    exact ⟨file, hfile, rfl⟩

/-- Draining the queue, as far as one reverse zone goes. -/
theorem drain_spec {n : Text} (hzone : zone ∈ db.reverseZones) (hn : rzoneName zone = some n)
    (hnames : ∀ zone' ∈ db.reverseZones, rzoneName zone' = some n → zone' = zone) {fzones : List ℕ}
    (hforward : ∀ z ∈ fzones, ∀ fzone, getRow db.forward.zones z = some fzone → ∀ zoneRoot,
      DnsLabel.ofText h.py fzone.zoneRoot = .ok zoneRoot → n ≠ zoneRoot.toText) {rzones : List ℕ}
    {files files' : Text → Option ZoneContents}
    (hd : drain h accounts db time fzones rzones files = .ok files') :
    ((zone.id ∈ rzones ∨ ∃ z ∈ fzones, Triggers h db z zone) → ∃ file,
      files' n = some (.reverse file) ∧ generateRzone h accounts db time zone = .ok file) ∧
    (¬ (zone.id ∈ rzones ∨ ∃ z ∈ fzones, Triggers h db z zone) → files' n = files n) := by
  induction fzones generalizing rzones files with
  | nil =>
    obtain ⟨hin, hout⟩ := foldlM_updateRzone hzone hn hnames hd
    simpa using ⟨hin, hout⟩
  | cons z fzones ih =>
    unfold drain at hd
    obtain ⟨⟨files1, more⟩, h1, hd⟩ := bind_eq_ok.mp hd
    obtain ⟨hsame, hmore⟩ := updateFzone_spec h1 hzone (hforward z List.mem_cons_self)
    obtain ⟨hin, hout⟩ := ih (fun z' hz' => hforward z' (List.mem_cons_of_mem z hz')) hd
    rw [hsame] at hout
    have hiff : (zone.id ∈ rzones ++ more ∨ ∃ z ∈ fzones, Triggers h db z zone) ↔
        zone.id ∈ rzones ∨ ∃ z' ∈ z :: fzones, Triggers h db z' zone := by
      simp only [List.mem_append, hmore, List.mem_cons, exists_eq_or_imp, or_assoc]
    exact ⟨fun hz => hin (hiff.mpr hz), fun hz => hout fun hz' => hz (hiff.mp hz')⟩

end

/-! ### What an operation does -/

section
variable {h : Host} {accounts : Accounts} {op : Operation} {db : Db}

theorem zones_apply : (op.apply h db).forward.zones = db.forward.zones := by
  rcases op with self | self | self | self
  · change (run (saveRow h self.row) db.forward).2.zones = _
    rw [run_saveRow]
    unfold saveStore
    split <;> rfl
  · change (run (deleteRow self.row) db.forward).2.zones = _
    rw [run_deleteRow]
    rfl
  · rfl
  · rfl

theorem reverseZones_apply (h : Host) (op : Operation) (db : Db) :
    (op.apply h db).reverseZones = db.reverseZones := by
  rcases op with self | self | self | self <;> rfl

theorem queue_apply : (op.apply h db).forward.queue =
    db.forward.queue ++ (op.address.map AddressRecord.zone).toList := by
  rcases op with self | self | self | self
  · change (run (saveRow h self.row) db.forward).2.queue = _
    rw [run_saveRow]
    unfold saveStore
    split <;> rfl
  · change (run (deleteRow self.row) db.forward).2.queue = _
    rw [run_deleteRow]
    rfl
  · exact (List.append_nil _).symm
  · exact (List.append_nil _).symm

/-- The record rows but the one that the operation is about. -/
theorem mem_apply {r : Row} (hr : ∀ self, op.address = some self → r.id ≠ self.id) :
    r ∈ (op.apply h db).forward.records ↔ r ∈ db.forward.records := by
  rcases op with self | self | self | self
  · have hid : r.id ≠ self.id := hr self rfl
    change r ∈ (run (saveRow h self.row) db.forward).2.records ↔ _
    rw [run_saveRow]
    unfold saveStore
    split
    · rename_i row' hs
      have hid' : row'.id = self.id := by
        obtain ⟨data, -, rfl, -⟩ := saved_eq_ok.mp hs
        rfl
      change r ∈ db.forward.records.save row' ↔ _
      rw [mem_save]
      constructor
      · rintro (rfl | ⟨hmem, -⟩)
        · exact absurd hid' hid
        · exact hmem
      · intro hmem
        exact Or.inr ⟨hmem, hid'.symm ▸ hid⟩
    · exact Iff.rfl
  · have hid : r.id ≠ self.id := hr self rfl
    change r ∈ (run (deleteRow self.row) db.forward).2.records ↔ _
    rw [run_deleteRow]
    change r ∈ db.forward.records.erase self.id ↔ _
    rw [mem_erase]
    exact ⟨fun hmem => hmem.1, fun hmem => ⟨hmem, hid⟩⟩
  · exact Iff.rfl
  · exact Iff.rfl

end

/-! ### Runs -/

section
variable {h : Host} {accounts : Accounts}

/-- A record that the operation is not about belongs to what it did, and is published with the name that
it was. -/
theorem Matches.congr {db db' : Db} {zone : ReverseZone} {network : IpNetwork} {file : RzoneFile}
    (hzones : db'.forward.zones = db.forward.zones)
    (hrecords : ∀ r address, Belongs accounts zone network r address →
      (r ∈ db'.forward.records ↔ r ∈ db.forward.records))
    (hm : Matches h accounts db zone network file) : Matches h accounts db' zone network file := by
  have hfor : ∀ l r address, IsFor h db'.forward l r address ↔ IsFor h db.forward l r address := by
    intro l r address
    unfold IsFor IsOwner
    rw [hzones]
  constructor
  · intro l hl
    obtain ⟨r, hr, address, hbelongs, hfor'⟩ := hm.1 l hl
    exact ⟨r, (hrecords r address hbelongs).mpr hr, address, hbelongs, (hfor l r address).mpr hfor'⟩
  · intro r hr address hbelongs
    obtain ⟨l, hl, hfor'⟩ := hm.2 r ((hrecords r address hbelongs).mp hr) address hbelongs
    exact ⟨l, hl, (hfor l r address).mpr hfor'⟩

/-- An operation that meets the condition keeps the reverse zones as they are to be. -/
theorem follows_step {s s' : State} {x : Operation × ℕ} (hI : Follows h accounts s ∧ s.db.forward.queue = [])
    (hok : Ok h accounts s x) (hs : step h accounts s x = some s') :
    Follows h accounts s' ∧ s'.db.forward.queue = [] := by
  obtain ⟨hfollows, hqueue⟩ := hI
  unfold step at hs
  obtain ⟨files, hd, rfl⟩ := Option.map_eq_some_iff.mp hs
  replace hd := ok_of_toOption hd
  refine ⟨fun zone hzone network hnet => ?_, rfl⟩
  have hzone : zone ∈ s.db.reverseZones := reverseZones_apply h x.1 s.db ▸ hzone
  have hname : rzoneName zone = some (networkToApra network).toText := by
    unfold rzoneName
    rw [hnet]
    rfl
  have hregen : Regenerated h x.1 (x.1.apply h s.db) zone ↔ zone.id ∈ x.1.rzones ∨
      ∃ z ∈ (x.1.apply h s.db).forward.queue, Triggers h (x.1.apply h s.db) z zone := by
    unfold Regenerated
    rw [queue_apply, hqueue]
    rcases x.1.address with _ | self <;> simp
  obtain ⟨hin, hout⟩ := drain_spec (by rwa [reverseZones_apply]) hname
    (fun zone' hzone' hname' =>
      hok.names zone' (reverseZones_apply h x.1 s.db ▸ hzone') zone hzone _ hname' hname)
    (by
      intro z hz fzone hfzone zoneRoot hzr heq
      rw [queue_apply, hqueue, List.nil_append, Option.mem_toList,
        Option.map_eq_some_iff] at hz
      obtain ⟨self, hself, rfl⟩ := hz
      rw [zones_apply] at hfzone
      exact hok.forward self hself fzone hfzone zoneRoot hzr zone hzone (hname.trans (congrArg some heq)))
    hd
  by_cases hr : Regenerated h x.1 (x.1.apply h s.db) zone
  · obtain ⟨file, hfile, hgen⟩ := hin (hregen.mp hr)
    exact ⟨file, hfile, matches_of_generateRzone hnet (hok.sound zone hzone network hnet hr) hgen⟩
  · obtain ⟨file, hfile, hm⟩ := hfollows zone hzone network hnet
    refine ⟨file, (hout fun hr' => hr (hregen.mpr hr')).trans hfile, ?_⟩
    -- a record that belongs to the zone is not the one that the operation is about
    refine hm.congr zones_apply fun r address hbelongs => ⟨fun hmem => ?_, fun hmem => ?_⟩
    · exact (mem_apply fun self hself hid =>
        hok.others zone hzone network hnet hr self hself r (Or.inr hmem) hid address hbelongs).mp hmem
    · exact (mem_apply fun self hself hid =>
        hok.others zone hzone network hnet hr self hself r (Or.inl hmem) hid address hbelongs).mpr hmem

/-- **The reverse zones follow the address records in every run whose operations meet the condition.**
The zone of an address that a record leaves, by a deletion or by an edit, is generated again only if
another address record of the same forward zone is in it; the addresses of a network of one address are
not strictly inside it. -/
theorem follows_of_along {s : State} (h0 : Follows h accounts s) (hqueue : s.db.forward.queue = [])
    {ops : List (Operation × ℕ)} (hok : Along (step h accounts) (Ok h accounts) s ops) :
    Always (step h accounts) (Follows h accounts) s ops :=
  (always_of_along (fun _ _ _ hI hok hs => follows_step hI hok hs) ⟨h0, hqueue⟩ hok).mono fun _ hI => hI.1

end

/-! ### A stale line -/

def exampleZone : Zone := ⟨1, "example.com".toList, false⟩

def exampleNetwork : ReverseZone := ⟨1, .v4 0x0a000000#32, 8, false⟩

def exampleAccounts : Accounts := ⟨fun _ => .ok 1, fun _ => .ok 1⟩

/-- A forward zone and a reverse zone of one account, without records. -/
def noRecords : State where
  db := {
    forward := { Store.empty with zones := Table.empty.save exampleZone }
    reverseZones := Table.empty.save exampleNetwork
    ptrRecords := .empty
    reverseNs := .empty
    additionalCds := .empty
    additionalCdnskey := .empty }
  files n := if n = "10.in-addr.arpa.".toList then some (.reverse ⟨[], [], [], []⟩) else none

def www : AddressRecord := ⟨1, 1, "www".toList, 300, .v4 0x0a000001#32, true⟩

theorem eq_exampleNetwork {zone : ReverseZone} (hzone : zone ∈ noRecords.db.reverseZones) :
    zone = exampleNetwork := List.mem_singleton.mp hzone

theorem follows_noRecords : Follows .ascii exampleAccounts noRecords := by
  intro zone hzone network hnet
  obtain rfl := eq_exampleNetwork hzone
  obtain rfl := ipNetwork_eq_some hnet
  refine ⟨⟨[], [], [], []⟩, by decide, fun l hl => absurd hl List.not_mem_nil, fun r hr => ?_⟩
  exact absurd hr List.not_mem_nil

def exampleRoot : DnsLabel := ⟨["example", "com"].map fun l => encode l.toList⟩

def wwwName : DnsLabel := ⟨["www", "example", "com"].map fun l => encode l.toList⟩

theorem ofText_exampleZone : DnsLabel.ofText Host.ascii.py exampleZone.zoneRoot = .ok exampleRoot := by
  decide

theorem ok_saveAddress : Ok .ascii exampleAccounts noRecords (.saveAddress www, 5) := by
  have hregen : Regenerated .ascii (.saveAddress www)
      ((Operation.saveAddress www).apply .ascii noRecords.db) exampleNetwork :=
    Or.inr ⟨www, rfl, exampleZone, by decide, by decide, www.row, by decide, rfl, by decide,
      _, rfl, by decide⟩
  refine ⟨?_, ?_, ?_, ?_⟩
  · intro zone hz zone' hz' n hn hn'
    rw [eq_exampleNetwork hz, eq_exampleNetwork hz']
  · intro self hself fzone hfzone zoneRoot hroot zone hz
    obtain rfl := Option.some.inj hself
    obtain rfl : exampleZone = fzone := Option.some.inj hfzone
    rw [ofText_exampleZone] at hroot
    obtain rfl := Except.ok.inj hroot
    rw [eq_exampleNetwork hz]
    decide
  · intro zone hz network hnet hr r hmem address hbelongs
    obtain rfl := eq_exampleNetwork hz
    obtain rfl := ipNetwork_eq_some hnet
    obtain rfl : r = www.row := List.mem_singleton.mp hmem
    obtain rfl : www.address = address := Option.some.inj (RecordData.address.inj hbelongs.1).1
    refine ⟨by decide, fun fzone hfzone pointer hp => ?_⟩
    obtain rfl : exampleZone = fzone := Option.some.inj hfzone
    have hptr : zonePtr .ascii exampleZone www.recordName = .ok wwwName := by decide
    obtain rfl : wwwName = pointer := Except.ok.inj (hptr.symm.trans hp)
    have howner : publishedOwner .ascii exampleRoot www.row = some wwwName.label := by decide
    exact ⟨exampleZone, exampleRoot, wwwName.label, by decide, ofText_exampleZone, howner, rfl⟩
  · intro zone hz network hnet hr
    rw [eq_exampleNetwork hz] at hr
    exact absurd hregen hr

/-- The line of a new address record is published. -/
theorem follows_saved : Always (step .ascii exampleAccounts) (Follows .ascii exampleAccounts) noRecords
    [(.saveAddress www, 5)] :=
  follows_of_along follows_noRecords rfl fun _ _ => ⟨ok_saveAddress, trivial⟩

/-- A record is saved and then deleted. -/
def saveAndDelete : List (Operation × ℕ) := [(.saveAddress www, 5), (.deleteAddress www, 6)]

/-- The line stays. -/
theorem not_follows_deleted : Follows .ascii exampleAccounts noRecords ∧
    ¬ Always (step .ascii exampleAccounts) (Follows .ascii exampleAccounts) noRecords saveAndDelete := by
  refine ⟨follows_noRecords, fun hall => ?_⟩
  have hrun : (after (step .ascii exampleAccounts) noRecords saveAndDelete).isSome = true := by
    decide
  obtain ⟨s, hs⟩ := Option.isSome_iff_exists.mp hrun
  have hzones : (after (step .ascii exampleAccounts) noRecords saveAndDelete).map
      (fun s => s.db.reverseZones.rows) = some [exampleNetwork] := by decide
  have hrecords : (after (step .ascii exampleAccounts) noRecords saveAndDelete).map
      (fun s => s.db.forward.records.rows) = some [] := by decide
  have hauto : ((after (step .ascii exampleAccounts) noRecords saveAndDelete).bind fun s =>
      s.files "10.in-addr.arpa.".toList).map (fun
        | .reverse file => file.auto
        | .forward _ => []) = some [⟨1, www.address, 300, wwwName⟩] := by decide
  rw [hs] at hzones hrecords hauto
  have hzones' : s.db.reverseZones.rows = [exampleNetwork] := Option.some.inj hzones
  have hrecords' : s.db.forward.records.rows = [] := Option.some.inj hrecords
  have hzone : exampleNetwork ∈ s.db.reverseZones.rows := by
    rw [hzones']
    exact List.mem_singleton.mpr rfl
  obtain ⟨file, hfile, hm⟩ := hall.after hs exampleNetwork hzone ⟨exampleNetwork.zoneRootAddress, 8⟩ (by decide)
  have hname : (networkToApra ⟨exampleNetwork.zoneRootAddress, 8⟩).toText = "10.in-addr.arpa.".toList := by
    decide
  rw [Option.bind_some, ← hname, hfile] at hauto
  have hauto' : file.auto = [⟨1, www.address, 300, wwwName⟩] := Option.some.inj hauto
  have hline : ⟨1, www.address, 300, wwwName⟩ ∈ file.auto := by
    rw [hauto']
    exact List.mem_singleton.mpr rfl
  obtain ⟨r, hr, -⟩ := hm.1 _ hline
  have hr' : r ∈ s.db.forward.records.rows := hr
  rw [hrecords'] at hr'
  exact absurd hr' List.not_mem_nil

end HexDns.Tasks.Reverse
