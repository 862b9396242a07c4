import HexDns.Base.Message
import HexDns.Lib.Tables
import HexDns.Lib.Programs

/-! # The database

The rows of `models.py` that the modelled code reads or writes, one table a model; the twenty models
derived from `DNSZoneRecord` share one table of `Row`s, whose `data` says which model a row is of
(their ids are typed, so that ids of different models never meet). A column holds what the database
returns for it. `Table` keeps the primary keys different.

`Store` also has the queue of `update_fzone` tasks (`tasks.update_fzone.delay` appends to it) and,
for the statements about what a request changes, the `journal` of the writes to record rows. -/

namespace HexDns.Models.Db

open HexDns.Lib.Texts HexDns.Lib.Tables HexDns.Base.Py HexDns.Base.Label HexDns.Base.Message

/-- `DNSZone` -/
structure Zone where
  id : ℕ
  zoneRoot : Text
  cdsDisable : Bool
  deriving DecidableEq, Repr

/-- `DNSZoneUpdateSecrets.type` -/
inductive SecretType
  /-- `TYPE_UNLIMITED` -/
  | unlimited
  /-- `TYPE_ACME_DNS01` -/
  | acmeDns01
  | other (t : Text)
  deriving DecidableEq, Repr

/-- `DNSZoneUpdateSecrets` -/
structure UpdateSecret where
  id : ℕ
  zone : ℕ
  type : SecretType
  restrictTo : Text
  secret : Bytes
  deriving DecidableEq, Repr

/-- `DNSZoneAXFRSecrets` -/
structure AxfrSecret where
  id : ℕ
  zone : ℕ
  secret : Bytes
  lastUsed : Option ℕ
  deriving DecidableEq, Repr

/-- `DNSZoneAXFRIPACL` -/
structure AxfrIpAcl where
  id : ℕ
  zone : ℕ
  address : IpAddr
  pre : ℕ
  lastUsed : Option ℕ
  deriving DecidableEq, Repr

/-- `DNSZoneAdditionalCDS` -/
structure AdditionalCds where
  id : ℕ
  dnsZone : ℕ
  keyTag : ℤ
  algorithm : ℤ
  digestType : ℤ
  digest : Text
  deriving DecidableEq, Repr

/-- `DNSZoneAdditionalCDNSKEY` -/
structure AdditionalCdnskey where
  id : ℕ
  dnsZone : ℕ
  flags : ℤ
  protocol : ℤ
  algorithm : ℤ
  publicKey : Text
  deriving DecidableEq, Repr

/-- `DNSZoneCustomNS` -/
structure CustomNs where
  id : ℕ
  dnsZone : ℕ
  nameserver : Text
  deriving DecidableEq, Repr

/-- `ANAMERecordCache` -/
structure AnameCache where
  id : ℕ
  record : ℕ
  address : IpAddr
  deriving DecidableEq, Repr

/-- The models derived from `DNSZoneRecord`. -/
inductive Model
  | address | dynamicAddress | aname | cname | redirect | mx | ns | txt | srv | caa | naptr | sshfp
  | ds | dnskey | loc | hinfo | rp | https | dhcid | githubPages
  deriving DecidableEq, Repr

/-- The columns of `HTTPSRecord`, those of `SVCBBaseRecord` included. -/
structure HttpsData where
  port : Option ℕ
  scheme : Option Text
  priority : ℕ
  target : Text
  targetPort : Option ℕ
  targetPortMandatory : Bool
  alpns : Option Text
  alpnMandatory : Bool
  noDefaultAlpn : Bool
  noDefaultAlpnMandatory : Bool
  ech : Option Text
  echMandatory : Bool
  ipv4Hints : Text
  ipv4HintsMandatory : Bool
  ipv6Hints : Text
  ipv6HintsMandatory : Bool
  extraParams : Text
  http2Support : Bool
  deriving DecidableEq, Repr

/-- The columns of a record row that its model adds to those of `DNSZoneRecord`. -/
inductive RecordData
  /-- no address is the empty text, which the database refuses -/
  | address (address : Option IpAddr) (autoReverse : Bool)
  | dynamicAddress (currentIpv4 : Option (BitVec 32)) (currentIpv6 : Option (BitVec 128))
      (password : Text)
  | aname (aliasName : Text)
  | cname (aliasName : Text)
  | redirect
  | mx (exchange : Text) (priority : ℕ)
  | ns (nameserver : Text)
  | txt (data : Text)
  | srv (priority weight port : ℕ) (target : Text)
  | caa (flag : ℕ) (tag value : Text)
  | naptr (order preference flags service regexp replacement : PyVal)
  | sshfp (hostKey : Text)
  | ds (keyTag algorithm digestType : ℕ) (digest : Text)
  | dnskey (flags protocol algorithm : ℕ) (publicKey : PyVal)
  | loc (latitude longitude altitude size hp vp : ℚ)
  | hinfo (cpu os : Text)
  | rp (mailbox txt : Text)
  | https (data : HttpsData)
  | dhcid (data : Bytes)
  | githubPages
  deriving DecidableEq, Repr

def RecordData.model : RecordData → Model
  | .address .. => .address
  | .dynamicAddress .. => .dynamicAddress
  | .aname .. => .aname
  | .cname .. => .cname
  | .redirect => .redirect
  | .mx .. => .mx
  | .ns .. => .ns
  | .txt .. => .txt
  | .srv .. => .srv
  | .caa .. => .caa
  | .naptr .. => .naptr
  | .sshfp .. => .sshfp
  | .ds .. => .ds
  | .dnskey .. => .dnskey
  | .loc .. => .loc
  | .hinfo .. => .hinfo
  | .rp .. => .rp
  | .https .. => .https
  | .dhcid .. => .dhcid
  | .githubPages => .githubPages

/-- A row of a model derived from `DNSZoneRecord`. -/
structure Row where
  id : ℕ
  zone : ℕ
  recordName : Text
  ttl : ℕ
  data : RecordData
  deriving DecidableEq, Repr

def Row.model (r : Row) : Model := r.data.model

/-- A write to a record row. -/
inductive Write
  | create (row : Row)
  | change (before after : Row)
  | delete (row : Row)
  deriving DecidableEq, Repr

/-- The rows that a write is about, before and after it. -/
def Write.rows : Write → List Row
  | .create r => [r]
  | .change r r' => [r, r']
  | .delete r => [r]

structure Store where
  zones : Table Zone Zone.id
  records : Table Row Row.id
  updateSecrets : Table UpdateSecret UpdateSecret.id
  axfrSecrets : Table AxfrSecret AxfrSecret.id
  axfrIpAcl : Table AxfrIpAcl AxfrIpAcl.id
  additionalCds : Table AdditionalCds AdditionalCds.id
  additionalCdnskey : Table AdditionalCdnskey AdditionalCdnskey.id
  customNs : Table CustomNs CustomNs.id
  anameCache : Table AnameCache AnameCache.id
  /-- the `update_fzone` tasks, by zone id -/
  queue : List ℕ
  journal : List Write

/-- `DNSZone.objects.get(id=…)`, a row by its primary key -/
def getRow {R : Type} {key : R → ℕ} (t : Table R key) (k : ℕ) : Option R :=
  t.rows.find? fun r => key r = k

theorem getRow_eq_some {R : Type} {key : R → ℕ} {t : Table R key} {k : ℕ} {r : R} :
    getRow t k = some r ↔ r ∈ t ∧ key r = k := by
  unfold getRow
  constructor
  · intro h
    exact ⟨List.mem_of_find?_eq_some h, by simpa using List.find?_some h⟩
  · rintro ⟨hr, rfl⟩
    rcases hf : t.rows.find? fun x => decide (key x = key r) with _ | x
    · simpa using List.find?_eq_none.mp hf r hr
    · have hx : key x = key r := by simpa using List.find?_some hf
      rw [eq_of_key (List.mem_of_find?_eq_some hf) hr hx]

theorem getRow_eq_none {R : Type} {key : R → ℕ} {t : Table R key} {k : ℕ} :
    getRow t k = none ↔ ∀ r ∈ t, key r ≠ k := by
  unfold getRow
  rw [List.find?_eq_none]
  exact forall₂_congr fun r _ => by simp

/-- After a row is saved, its key gives it, and every other key what it gave. -/
theorem getRow_save {R : Type} {key : R → ℕ} (t : Table R key) (r : R) (k : ℕ) :
    getRow (t.save r) k = if key r = k then some r else getRow t k := by
  split_ifs with hk
  · exact getRow_eq_some.mpr ⟨mem_save.mpr (Or.inl rfl), hk⟩
  · rcases hg : getRow t k with _ | x
    · rw [getRow_eq_none] at hg ⊢
      intro x hx
      rcases mem_save.mp hx with rfl | ⟨hx, -⟩
      · exact hk
      · exact hg x hx
    · obtain ⟨hx, hxk⟩ := getRow_eq_some.mp hg
      refine getRow_eq_some.mpr ⟨mem_save.mpr (Or.inr ⟨hx, ?_⟩), hxk⟩
      rw [hxk]
      exact fun h => hk h.symm

theorem getRow_erase {R : Type} {key : R → ℕ} (t : Table R key) (j k : ℕ) :
    getRow (t.erase j) k = if j = k then none else getRow t k := by
  split_ifs with hk
  · exact getRow_eq_none.mpr fun x hx => hk ▸ (mem_erase.mp hx).2
  · rcases hg : getRow t k with _ | x
    · rw [getRow_eq_none] at hg ⊢
      exact fun x hx => hg x (mem_erase.mp hx).1
    · obtain ⟨hx, hxk⟩ := getRow_eq_some.mp hg
      refine getRow_eq_some.mpr ⟨mem_erase.mpr ⟨hx, ?_⟩, hxk⟩
      rw [hxk]
      exact fun h => hk h.symm

/-- `model.objects.filter(…)` on the record rows -/
def Store.recordsOf (st : Store) (m : Model) (p : Row → Bool) : List Row :=
  st.records.rows.filter fun r => r.model = m && p r

@[simp] theorem mem_recordsOf {st : Store} {m : Model} {p : Row → Bool} {r : Row} :
    r ∈ st.recordsOf m p ↔ r ∈ st.records ∧ r.model = m ∧ p r = true := by
  unfold Store.recordsOf
  rw [List.mem_filter, Bool.and_eq_true, decide_eq_true_iff]
  exact Iff.rfl

end HexDns.Models.Db
