import Mathlib.Data.List.Pairwise
import HexDns.Axfr.Parser

/-! # The AXFR parser keeps every record

A zone file as a list of items: records, `$ORIGIN` and `$TTL` lines, and empty lines. `Reads` is what RFC 1035,
section 5.1, and RFC 2308, section 4, make of it: each record with its owner, its class and its TTL, where a TTL that
is left out is that of the last `$TTL` line or, without one, the last TTL that was written.

The parser carries one variable for both. It keeps all records, each once, but its TTLs are those of the RFCs only
where `keeps_records_iff` says. -/

namespace HexDns.Axfr.RecordsKept

open HexDns.Lib.Texts HexDns.Lib.Programs HexDns.Base.Label HexDns.Base.Message HexDns.Axfr.Server
  HexDns.Axfr.Parser

/-! ### Zone files -/

/-- The owner of a record, as it is written. -/
inductive Owner
  | name (data : Text)
  | atSign
  | blank
  deriving DecidableEq, Repr

def Owner.token : Owner → Token
  | .name data => .charData data
  | .atSign => .atSign
  | .blank => .blank

/-- A word of the rdata, or the words in parentheses. -/
inductive Part
  | word (t : Text)
  | list (ts : List Text)
  deriving DecidableEq, Repr

def Part.token : Part → Token
  | .word t => .charData t
  | .list ts => .list ts

def Part.words : Part → List Text
  | .word t => [t]
  | .list ts => ts

/-- A record, as it is written. -/
structure Line where
  owner : Owner
  ttl : Option Text
  dnsClass : Option Text
  classFirst : Bool
  rtype : Text
  rdata : List Part
  deriving DecidableEq, Repr

def Line.tokens (l : Line) : List Token :=
  let ttl := l.ttl.toList.map Token.charData
  let dnsClass := l.dnsClass.toList.map Token.charData
  l.owner.token :: ((if l.classFirst then dnsClass ++ ttl else ttl ++ dnsClass) ++
    (.charData l.rtype :: l.rdata.map Part.token))

inductive Item
  | origin (data : Text)
  | ttl (data : Text)
  /-- with blanks or without -/
  | empty (blank : Bool)
  | record (line : Line)
  deriving DecidableEq, Repr

def Item.tokens : Item → List Token
  | .origin data => [.origin, .charData data, .eol]
  | .ttl data => [.ttl, .charData data, .eol]
  | .empty blank => if blank then [.blank, .eol] else [.eol]
  | .record line => line.tokens ++ [.eol]

/-- The tokens of the items; the last line may be without its end. -/
def IsTokenisation (items : List Item) (tokens : List Token) : Prop :=
  tokens = items.flatMap Item.tokens ∨ tokens ++ [.eol] = items.flatMap Item.tokens

/-! ### What they mean -/

/-- What is in force at a line. -/
structure Context where
  origin : DnsLabel
  dnsClass : QClass
  /-- the last owner -/
  owner : Option DnsLabel
  /-- of the last `$TTL` -/
  defaultTtl : Option ℕ
  /-- the last TTL of a record that was written -/
  lastTtl : Option ℕ
  /-- the last TTL that was written, of a record or in a `$TTL` line -/
  latestTtl : Option ℕ
  deriving DecidableEq, Repr

/-- A record, with the TTL that was written, and the one that it has. -/
structure Entry where
  name : DnsLabel
  rtype : RecordType
  dnsClass : QClass
  explicitTtl : Option ℕ
  ttl : ℕ
  rdata : RData
  deriving DecidableEq, Repr

def Entry.record (e : Entry) (ttl : ℕ) : Record := ⟨e.name, e.rtype.toTrust, e.dnsClass, ttl, e.rdata.wire⟩

/-- The key of a record: its owner and its type. -/
def keyOf (r : Record) : RrKey := ⟨⟨r.name.lower⟩, r.recordType⟩

def Entry.key (e : Entry) : RrKey := keyOf (e.record 0)

/-- After a record. -/
def Context.next (c : Context) (e : Entry) : Context :=
  { c with
    owner := some e.name
    dnsClass := e.dnsClass
    lastTtl := e.explicitTtl.or c.lastTtl
    latestTtl := e.explicitTtl.or c.latestTtl }

section
variable (lib : Library)

def Owner.read (c : Context) : Owner → Option DnsLabel
  | .name data => lib.name data (some c.origin)
  | .atSign => some c.origin
  | .blank => c.owner

/-- A class is a word of letters. -/
def readClass (t : Text) : Option QClass :=
  if (t.map Char.toUpper).all Char.isUpper then lib.dnsClass (t.map Char.toUpper) else none

/-- The record that a line is: **its TTL is the one that is written, else that of `$TTL`, else the last that
was written.** -/
structure Line.Reads (c : Context) (l : Line) (e : Entry) : Prop where
  name : l.owner.read lib c = some e.name
  explicitTtl : l.ttl.map lib.time = e.explicitTtl.map some
  dnsClass : match l.dnsClass with
    | some t => readClass lib t = some e.dnsClass
    | none => e.dnsClass = c.dnsClass
  rtype : RecordType.fromStr (l.rtype.map Char.toUpper) = some e.rtype
  rdata : lib.rdata e.rtype (l.rdata.flatMap Part.words) c.origin = .ok e.rdata
  ttl : e.explicitTtl.or (c.defaultTtl.or c.lastTtl) = some e.ttl

/-- **The records of a zone file**, each with what is in force at its line. -/
inductive Reads : Context → List Item → List (Context × Entry) → Prop
  | nil (c : Context) : Reads c [] []
  | origin {c : Context} {data : Text} {origin : DnsLabel} {items : List Item} {read : List (Context × Entry)} :
      lib.name data none = some origin → Reads { c with origin } items read → Reads c (.origin data :: items) read
  | ttl {c : Context} {data : Text} {ttl : ℕ} {items : List Item} {read : List (Context × Entry)} :
      lib.time data = some ttl → Reads { c with defaultTtl := some ttl, latestTtl := some ttl } items read →
        Reads c (.ttl data :: items) read
  | empty {c : Context} {blank : Bool} {items : List Item} {read : List (Context × Entry)} :
      Reads c items read → Reads c (.empty blank :: items) read
  | record {c : Context} {line : Line} {e : Entry} {items : List Item} {read : List (Context × Entry)} :
      line.Reads lib c e → Reads (c.next e) items read → Reads c (.record line :: items) ((c, e) :: read)

/-- What is in force at the start. -/
def startContext (origin : DnsLabel) : Context := ⟨origin, .in, none, none, none, none⟩

/-- One SOA, no record twice, and at most one CNAME for an owner. -/
structure WellFormed (read : List (Context × Entry)) : Prop where
  oneSoa : (read.filter fun p => p.2.rtype = .soa).length = 1
  distinct : read.Pairwise fun p q => p.2.key = q.2.key → p.2.rdata.wire ≠ q.2.rdata.wire
  oneCname : read.Pairwise fun p q => p.2.key = q.2.key → p.2.rtype ≠ .cname

/-- What the parser relies on: TTLs, classes and types are told apart by their words, an SOA has the rdata of an
SOA, there is no rdata for the type ANY, and a set of records keeps a record whose rdata it does not have (of CNAMEs
it keeps one). -/
structure LibraryFacts : Prop where
  time_rtype : ∀ t rtype, RecordType.fromStr (t.map Char.toUpper) = some rtype → lib.time t = none
  time_dnsClass : ∀ t dnsClass, readClass lib t = some dnsClass → lib.time t = none
  dnsClass_rtype : ∀ t dnsClass rtype, readClass lib t = some dnsClass →
    RecordType.fromStr (t.map Char.toUpper) = some rtype → rtype = .any
  any : ∀ parts origin rdata, lib.rdata .any parts origin ≠ .ok rdata
  soa : ∀ parts origin rdata, lib.rdata .soa parts origin = .ok rdata → rdata.soa.isSome
  insert : ∀ l r, (∀ x ∈ l, x.rdata ≠ r.rdata) → (r.recordType = .cname → l = []) →
    (lib.insert l r).Perm (l ++ [r])

end

/-- **The map holds exactly these records.** -/
def Holds (records : Records) (rs : List Record) : Prop :=
  ∀ key, (records[key]?.getD []).Perm (rs.filter (keyOf · = key))

/-- **The parser gives the record its TTL**: the TTL of an SOA is its expiry, and a record without a TTL has the one
that was written last. -/
def KeepsTtl (c : Context) (e : Entry) : Prop :=
  if e.rtype = .soa then e.rdata.soa.map (fun soa => (soa.1 % 2 ^ 32).toNat) = some e.ttl
  else e.explicitTtl = none → c.latestTtl = some e.ttl

/-! ### Sets of records -/

/-- The TTL that the parser gives. -/
def givenTtl (c : Context) (e : Entry) : ℕ :=
  if e.rtype = .soa then (e.rdata.soa.map fun soa => (soa.1 % 2 ^ 32).toNat).getD 0
  else (e.explicitTtl.or c.latestTtl).getD 0

/-- The record that the parser makes. -/
def given (p : Context × Entry) : Record := p.2.record (givenTtl p.1 p.2)

/-- The record that it is. -/
def meant (p : Context × Entry) : Record := p.2.record p.2.ttl

theorem keyOf_record (e : Entry) (ttl : ℕ) : keyOf (e.record ttl) = e.key := rfl

theorem toTrust_eq_cname {t : RecordType} : t.toTrust = .cname ↔ t = .cname := by
  constructor
  · intro h
    cases t <;> first | rfl | cases h
  · rintro rfl
    rfl

section
variable {lib : Library} {c : Context} {e : Entry} {v v' : Vars} {read done : List (Context × Entry)}
  {records records' : Records}

/-- A record with none before it that it could be taken for. -/
def Fresh (done : List (Context × Entry)) (e : Entry) : Prop :=
  ∀ q ∈ done, (q.2.key = e.key → q.2.rdata.wire ≠ e.rdata.wire ∧ e.rtype ≠ .cname) ∧
    (e.rtype = .soa → q.2.rtype ≠ .soa)

theorem fresh_of_wellFormed {rest : List (Context × Entry)} (h : WellFormed (done ++ (c, e) :: rest)) :
    Fresh done e := by
  intro q hq
  have hmem : (c, e) ∈ (c, e) :: rest := List.mem_cons_self
  have hdistinct := (List.pairwise_append.mp h.distinct).2.2 q hq (c, e) hmem
  have hcname := (List.pairwise_append.mp h.oneCname).2.2 q hq (c, e) hmem
  refine ⟨fun hkey => ⟨hdistinct hkey, ?_⟩, ?_⟩
  · intro he
    have htype : q.2.rtype.toTrust = e.rtype.toTrust := congrArg RrKey.recordType hkey
    rw [he, show RecordType.cname.toTrust = .cname from rfl, toTrust_eq_cname] at htype
    exact hcname hkey htype
  · intro he hsoa
    have hone := h.oneSoa
    rw [List.filter_append, List.length_append, List.filter_cons_of_pos (by simpa using he),
      List.length_cons] at hone
    have hmem : q ∈ done.filter fun p => p.2.rtype = .soa := List.mem_filter.mpr ⟨hq, by simpa using hsoa⟩
    have hpos := List.length_pos_of_mem hmem
    omega

theorem holds_empty : Holds ∅ [] := by
  intro key
  rw [Std.TreeMap.getElem?_emptyc]
  rfl

/-- A record of another rdata comes to the others of its key. -/
theorem holds_insert (hlib : LibraryFacts lib) {r : Record} {rs : List Record} (h : Holds records rs)
    (hwire : ∀ x ∈ rs, keyOf x = keyOf r → x.rdata ≠ r.rdata)
    (hcname : r.recordType = .cname → ∀ x ∈ rs, keyOf x ≠ keyOf r) :
    (lib.insert (records[keyOf r]?.getD []) r).Perm ((rs ++ [r]).filter (keyOf · = keyOf r)) := by
  have hset := h (keyOf r)
  have hmem : ∀ x, x ∈ records[keyOf r]?.getD [] ↔ x ∈ rs ∧ keyOf x = keyOf r := by
    intro x
    rw [hset.mem_iff, List.mem_filter, decide_eq_true_iff]
  have hinsert : (lib.insert (records[keyOf r]?.getD []) r).Perm (records[keyOf r]?.getD [] ++ [r]) := by
    refine hlib.insert _ _ ?_ ?_
    · intro x hx
      obtain ⟨hx, hkey⟩ := (hmem x).mp hx
      exact hwire x hx hkey
    · intro htype
      refine List.eq_nil_iff_forall_not_mem.mpr fun x hx => ?_
      obtain ⟨hx, hkey⟩ := (hmem x).mp hx
      exact hcname htype x hx hkey
  rw [List.filter_append, List.filter_singleton, decide_eq_true rfl]
  exact hinsert.trans (hset.append_right [r])

/-- No set is empty. -/
def Full (records : Records) : Prop := ∀ (key : RrKey) (l : List Record), records[key]? = some l → l ≠ []

theorem addRecord_eq (rtype : RecordType) (r : Record) : addRecord lib rtype r records =
    if rtype = .soa then
      if records[keyOf r]?.isSome then .error .error else .ok (records.insert (keyOf r) [r])
    else .ok (records.insert (keyOf r) (lib.insert (records[keyOf r]?.getD []) r)) := rfl

/-- **A record is added.** -/
theorem addRecord_fresh (hlib : LibraryFacts lib) (ttl : ℕ) {rs : List Record} (h : Holds records rs)
    (hfull : Full records) (hfresh : ∀ x ∈ rs, (keyOf x = e.key → x.rdata ≠ e.rdata.wire ∧ e.rtype ≠ .cname) ∧
      (e.rtype = .soa → x.recordType ≠ .soa)) :
    ∃ records', addRecord lib e.rtype (e.record ttl) records = .ok records' ∧
      Holds records' (rs ++ [e.record ttl]) ∧ Full records' := by
  -- the sets of the other keys stay
  have hset : ∀ l : List Record, l.Perm ((rs ++ [e.record ttl]).filter (keyOf · = e.key)) →
      Holds (records.insert e.key l) (rs ++ [e.record ttl]) ∧ Full (records.insert e.key l) := by
    intro l hl
    constructor
    · intro key
      rw [Std.TreeMap.getElem?_insert]
      split_ifs with heq
      · obtain rfl := Std.LawfulEqCmp.eq_of_compare heq
        exact hl
      · have hne : e.key ≠ key := by
          rintro rfl
          exact heq Std.ReflCmp.compare_self
        rw [List.filter_append, List.filter_singleton, keyOf_record, decide_eq_false hne]
        simpa using h key
    · intro key l' hl'
      rw [Std.TreeMap.getElem?_insert] at hl'
      split_ifs at hl' with heq
      · obtain rfl := Option.some.inj hl'
        rintro rfl
        have hnil := hl.symm.eq_nil
        rw [List.filter_append, List.filter_singleton, keyOf_record, decide_eq_true rfl] at hnil
        simp at hnil
      · exact hfull key l' hl'
  rw [addRecord_eq, keyOf_record]
  by_cases hsoa : e.rtype = .soa
  · -- there is no other SOA, and so no set of its key
    have hnone : rs.filter (keyOf · = e.key) = [] := by
      refine List.filter_eq_nil_iff.mpr fun x hx hkey => ?_
      have htype : x.recordType = e.rtype.toTrust := congrArg RrKey.recordType (of_decide_eq_true hkey)
      rw [hsoa] at htype
      exact (hfresh x hx).2 hsoa htype
    have hperm := h e.key
    rw [hnone] at hperm
    have hget : records[e.key]? = none := by
      rcases hl : records[e.key]? with _ | l
      · rfl
      · rw [hl] at hperm
        exact absurd hperm.eq_nil (hfull e.key l hl)
    rw [if_pos hsoa, hget, if_neg (by simp)]
    refine ⟨_, rfl, hset [e.record ttl] ?_⟩
    rw [List.filter_append, hnone, List.filter_singleton, keyOf_record, decide_eq_true rfl]
    rfl
  · rw [if_neg hsoa]
    refine ⟨_, rfl, hset _ (holds_insert (r := e.record ttl) hlib h ?_ ?_)⟩
    · intro x hx hkey
      exact ((hfresh x hx).1 hkey).1
    · intro htype x hx hkey
      exact ((hfresh x hx).1 hkey).2 (toTrust_eq_cname.mp htype)

/-! ### Lines -/

/-- **The variables of the parser are what is in force**, and the map holds what it has read. -/
structure Matches (c : Context) (done : List (Context × Entry)) (v : Vars) : Prop where
  origin : v.origin = c.origin
  dnsClass : v.dnsClass = c.dnsClass
  currentName : v.currentName = c.owner
  ttl : v.ttl = c.latestTtl
  latest : (c.defaultTtl.or c.lastTtl).isSome → c.latestTtl.isSome
  holds : Holds v.records (done.map given)
  full : Full v.records

/-- Tokens take the parser from one state to another. -/
def Runs (lib : Library) (s : Vars × State) (tokens : List Token) (s' : Vars × State) : Prop :=
  tokens.foldlM (step lib) s = .ok s'

theorem Runs.cons {s s1 s2 : Vars × State} {t : Token} {tokens : List Token} (h : step lib s t = .ok s1)
    (h' : Runs lib s1 tokens s2) : Runs lib s (t :: tokens) s2 := by
  unfold Runs
  rw [List.foldlM_cons, h]
  exact h'

theorem Runs.append {s s1 s2 : Vars × State} {tokens tokens' : List Token} (h : Runs lib s tokens s1)
    (h' : Runs lib s1 tokens' s2) : Runs lib s (tokens ++ tokens') s2 := by
  unfold Runs
  rw [List.foldlM_append, h]
  exact h'

theorem step_owner {owner : Owner} {name : DnsLabel} (horigin : v.origin = c.origin)
    (hname : v.currentName = c.owner) (h : owner.read lib c = some name) :
    step lib (v, .startLine) owner.token = .ok ({ v with rtype := none, currentName := some name }, .ttlClassType) := by
  rcases owner with data | _ | _
  · have hdata : lib.name data (some v.origin) = some name := horigin ▸ h
    show startLine lib { v with rtype := none } (.charData data) = _
    unfold startLine
    simp only [hdata]
  · obtain rfl : c.origin = name := Option.some.inj h
    show Except.ok _ = _
    rw [← horigin]
  · have hblank : c.owner = some name := h
    show Except.ok _ = _
    rw [← hblank, ← hname]

theorem runs_ttl {ttl : Option Text} {explicitTtl : Option ℕ} (h : ttl.map lib.time = explicitTtl.map some) :
    Runs lib (v, .ttlClassType) (ttl.toList.map Token.charData)
      ({ v with ttl := explicitTtl.or v.ttl }, .ttlClassType) := by
  rcases ttl with _ | t
  · rcases explicitTtl with _ | n
    · rfl
    · cases h
  · rcases explicitTtl with _ | n
    · cases h
    have htime : lib.time t = some n := Option.some.inj h
    refine Runs.cons ?_ rfl
    show ttlClassType lib v t = _
    unfold ttlClassType
    simp only [htime]
    rfl

/-- A word that is no TTL. -/
theorem ttlClassType_eq {t : Text} (htime : lib.time t = none) : ttlClassType lib v t =
    match readClass lib t with
    | some dnsClass => .ok ({ v with dnsClass }, .ttlClassType)
    | none =>
      match RecordType.fromStr (t.map Char.toUpper) with
      | some rtype => .ok ({ v with rtype := some rtype }, .record [])
      | none => .error .error := by
  have hany : (t.map Char.toUpper).any (fun c => !c.isUpper) = !(t.map Char.toUpper).all Char.isUpper :=
    List.not_all_eq_any_not.symm
  unfold ttlClassType readClass
  dsimp only
  rw [htime, hany]
  by_cases hall : (t.map Char.toUpper).all Char.isUpper = true
  · simp only [hall, if_true]
    rfl
  · simp only [hall]
    rfl

theorem runs_dnsClass (hlib : LibraryFacts lib) {dnsClass : Option Text} {q : QClass}
    (h : match dnsClass with
      | some t => readClass lib t = some q
      | none => q = v.dnsClass) :
    Runs lib (v, .ttlClassType) (dnsClass.toList.map Token.charData)
      ({ v with dnsClass := q }, .ttlClassType) := by
  rcases dnsClass with _ | t
  · obtain rfl : q = v.dnsClass := h
    rfl
  · have hclass : readClass lib t = some q := h
    refine Runs.cons ?_ rfl
    show ttlClassType lib v t = _
    rw [ttlClassType_eq (hlib.time_dnsClass t q hclass), hclass]

theorem step_rtype (hlib : LibraryFacts lib) {t : Text} {rtype : RecordType}
    (h : RecordType.fromStr (t.map Char.toUpper) = some rtype) (hany : rtype ≠ .any) :
    step lib (v, .ttlClassType) (.charData t) = .ok ({ v with rtype := some rtype }, .record []) := by
  have hclass : readClass lib t = none := by
    rcases hc : readClass lib t with _ | q
    · rfl
    · exact absurd (hlib.dnsClass_rtype t q rtype hc h) hany
  show ttlClassType lib v t = _
  rw [ttlClassType_eq (hlib.time_rtype t rtype h), hclass, h]

theorem runs_rdata (parts : List Part) (words : List Text) :
    Runs lib (v, .record words) (parts.map Part.token) (v, .record (words ++ parts.flatMap Part.words)) := by
  induction parts generalizing words with
  | nil =>
    rw [List.flatMap_nil, List.append_nil]
    rfl
  | cons part parts ih =>
    rw [List.flatMap_cons, ← List.append_assoc]
    refine Runs.cons ?_ (ih (words ++ part.words))
    rcases part with t | ts
    · rfl
    · rfl

/-- The words of a line up to its end. -/
theorem runs_line (hlib : LibraryFacts lib) {line : Line} (hread : line.Reads lib c e) (h : Matches c done v) :
    Runs lib (v, .startLine) line.tokens
      (⟨c.origin, e.dnsClass, some e.name, some e.rtype, e.explicitTtl.or c.latestTtl, v.records⟩,
        .record (line.rdata.flatMap Part.words)) := by
  have hany : e.rtype ≠ .any := by
    intro hany
    exact hlib.any _ _ _ (hany ▸ hread.rdata)
  have hclass : match line.dnsClass with
      | some t => readClass lib t = some e.dnsClass
      | none => e.dnsClass = v.dnsClass := by
    rw [h.dnsClass]
    exact hread.dnsClass
  have howner := step_owner h.origin h.currentName hread.name
  have hfront : Runs lib ({ v with rtype := none, currentName := some e.name }, .ttlClassType)
      (if line.classFirst then line.dnsClass.toList.map Token.charData ++ line.ttl.toList.map Token.charData
        else line.ttl.toList.map Token.charData ++ line.dnsClass.toList.map Token.charData)
      (⟨v.origin, e.dnsClass, some e.name, none, e.explicitTtl.or v.ttl, v.records⟩, .ttlClassType) := by
    split_ifs
    · exact (runs_dnsClass (v := { v with rtype := none, currentName := some e.name }) hlib hclass).append
        (runs_ttl hread.explicitTtl)
    · exact (runs_ttl hread.explicitTtl).append
        (runs_dnsClass (v := ⟨v.origin, v.dnsClass, some e.name, none, e.explicitTtl.or v.ttl, v.records⟩) hlib hclass)
  have hrtype := step_rtype (v := ⟨v.origin, e.dnsClass, some e.name, none, e.explicitTtl.or v.ttl, v.records⟩)
    hlib hread.rtype hany
  have hrdata : Runs lib
      (⟨v.origin, e.dnsClass, some e.name, some e.rtype, e.explicitTtl.or v.ttl, v.records⟩, .record []) _ _ :=
    runs_rdata line.rdata []
  rw [← h.origin, ← h.ttl]
  exact Runs.cons howner (hfront.append (Runs.cons hrtype hrdata))

/-- A TTL is there for every record that has one. -/
theorem latest_isSome {line : Line} (hread : line.Reads lib c e)
    (h : (c.defaultTtl.or c.lastTtl).isSome → c.latestTtl.isSome) : (e.explicitTtl.or c.latestTtl).isSome := by
  have httl := hread.ttl
  rcases hexplicit : e.explicitTtl with _ | n
  · rw [hexplicit, Option.none_or] at httl
    rw [Option.none_or]
    exact h (httl ▸ rfl)
  · rfl

theorem recordTtl_line (hlib : LibraryFacts lib) {line : Line} (hread : line.Reads lib c e)
    (h : Matches c done v) : recordTtl e.rtype e.rdata (e.explicitTtl.or c.latestTtl) =
      .ok (givenTtl c e, e.explicitTtl.or c.latestTtl) := by
  obtain ⟨n, hn⟩ := Option.isSome_iff_exists.mp (latest_isSome hread h.latest)
  unfold recordTtl givenTtl
  rw [hn]
  by_cases hsoa : e.rtype = .soa
  · obtain ⟨⟨expire, minimum⟩, hdata⟩ := Option.isSome_iff_exists.mp (hlib.soa _ _ _ (hsoa ▸ hread.rdata))
    rw [if_pos hsoa, if_pos hsoa, hdata]
    rfl
  · rw [if_neg hsoa, if_neg hsoa]
    rfl

/-- **A record** is read as it is meant, up to its TTL. -/
theorem flushRecord_line (hlib : LibraryFacts lib) {line : Line} (hread : line.Reads lib c e)
    (h : Matches c done v) (hfresh : Fresh done e) :
    ∃ v', flushRecord lib (line.rdata.flatMap Part.words)
        ⟨c.origin, e.dnsClass, some e.name, some e.rtype, e.explicitTtl.or c.latestTtl, v.records⟩ = .ok v' ∧
      Matches (c.next e) (done ++ [(c, e)]) v' := by
  have hfresh' : ∀ x ∈ done.map given, (keyOf x = e.key → x.rdata ≠ e.rdata.wire ∧ e.rtype ≠ .cname) ∧
      (e.rtype = .soa → x.recordType ≠ .soa) := by
    intro x hx
    obtain ⟨q, hq, rfl⟩ := List.mem_map.mp hx
    refine ⟨(hfresh q hq).1, fun hsoa htype => (hfresh q hq).2 hsoa ?_⟩
    exact toTrust_eq_soa.mp htype
  obtain ⟨records', hadd, hholds, hfull⟩ := addRecord_fresh hlib (givenTtl c e) h.holds h.full hfresh'
  refine ⟨⟨c.origin, e.dnsClass, some e.name, some e.rtype, e.explicitTtl.or c.latestTtl, records'⟩, ?_, ?_⟩
  · unfold flushRecord
    dsimp only
    rw [hread.rdata]
    show (recordTtl e.rtype e.rdata (e.explicitTtl.or c.latestTtl) >>= _) = _
    rw [recordTtl_line hlib hread h]
    show (addRecord lib e.rtype (e.record (givenTtl c e)) v.records >>= _) = _
    rw [hadd]
    rfl
  · refine ⟨rfl, rfl, rfl, rfl, fun _ => latest_isSome hread h.latest, ?_, hfull⟩
    rw [List.map_append]
    exact hholds

/-! ### Files -/

theorem runs_originLine {data : Text} {origin : DnsLabel} (h : lib.name data none = some origin) :
    Runs lib (v, .startLine) (Item.origin data).tokens ({ v with rtype := none, origin }, .startLine) := by
  have hdata : step lib ({ v with rtype := none }, .origin) (.charData data) =
      .ok ({ v with rtype := none, origin }, .startLine) := by
    simp only [step]
    rw [h]
  exact Runs.cons rfl (Runs.cons hdata rfl)

theorem runs_ttlLine {data : Text} {ttl : ℕ} (h : lib.time data = some ttl) :
    Runs lib (v, .startLine) (Item.ttl data).tokens ({ v with rtype := none, ttl := some ttl }, .startLine) := by
  have hdata : step lib ({ v with rtype := none }, .ttl) (.charData data) =
      .ok ({ v with rtype := none, ttl := some ttl }, .startLine) := by
    simp only [step]
    rw [h]
  exact Runs.cons rfl (Runs.cons hdata rfl)

theorem runs_emptyLine (blank : Bool) :
    Runs lib (v, .startLine) (Item.empty blank).tokens ({ v with rtype := none }, .startLine) := by
  rcases blank with _ | _
  · rfl
  · rfl

/-- **All items.** -/
theorem runs_items (hlib : LibraryFacts lib) {items : List Item} (hread : Reads lib c items read)
    (h : Matches c done v) (hwf : WellFormed (done ++ read)) :
    ∃ v' c', Runs lib (v, .startLine) (items.flatMap Item.tokens) (v', .startLine) ∧
      Matches c' (done ++ read) v' := by
  induction hread generalizing done v with
  | nil c =>
    refine ⟨v, c, rfl, ?_⟩
    rw [List.append_nil]
    exact h
  | @origin c data origin items read horigin hread ih =>
    have hmatches : Matches { c with origin } done { v with rtype := none, origin } :=
      ⟨rfl, h.dnsClass, h.currentName, h.ttl, h.latest, h.holds, h.full⟩
    obtain ⟨v', c', hruns, hmatches'⟩ := ih hmatches hwf
    exact ⟨v', c', (runs_originLine horigin).append hruns, hmatches'⟩
  | @ttl c data ttl items read httl hread ih =>
    have hmatches : Matches { c with defaultTtl := some ttl, latestTtl := some ttl } done
        { v with rtype := none, ttl := some ttl } :=
      ⟨h.origin, h.dnsClass, h.currentName, rfl, fun _ => rfl, h.holds, h.full⟩
    obtain ⟨v', c', hruns, hmatches'⟩ := ih hmatches hwf
    exact ⟨v', c', (runs_ttlLine httl).append hruns, hmatches'⟩
  | @empty c blank items read hread ih =>
    have hmatches : Matches c done { v with rtype := none } :=
      ⟨h.origin, h.dnsClass, h.currentName, h.ttl, h.latest, h.holds, h.full⟩
    obtain ⟨v', c', hruns, hmatches'⟩ := ih hmatches hwf
    exact ⟨v', c', (runs_emptyLine blank).append hruns, hmatches'⟩
  | @record c line e items read hline hread ih =>
    obtain ⟨v1, hflush, hmatches⟩ := flushRecord_line hlib hline h (fresh_of_wellFormed hwf)
    obtain ⟨v', c', hruns, hmatches'⟩ := ih hmatches (by simpa using hwf)
    have hend : Runs lib (v, .startLine) (Item.record line).tokens (v1, .startLine) :=
      (runs_line hlib hline h).append (Runs.cons (bind_eq_ok.mpr ⟨v1, hflush, rfl⟩) rfl)
    refine ⟨v', c', hend.append hruns, ?_⟩
    simpa using hmatches'

/-- The end of the last line may be left out. -/
theorem finish_of_eol {state : State} (h : step lib (v, state) .eol = .ok (v', .startLine)) :
    ∃ v1, finish lib v state = .ok v1 ∧ v1.origin = v'.origin ∧ v1.records = v'.records := by
  rcases state with _ | _ | _ | parts | _ | _
  case startLine =>
    obtain ⟨rfl, -⟩ := Prod.mk.inj (Except.ok.inj h)
    exact ⟨v, rfl, rfl, rfl⟩
  case ttlClassType =>
    obtain ⟨rfl, -⟩ := Prod.mk.inj (Except.ok.inj h)
    exact ⟨v, rfl, rfl, rfl⟩
  case record =>
    obtain ⟨v1, hflush, h⟩ := bind_eq_ok.mp h
    obtain ⟨rfl, -⟩ := Prod.mk.inj (Except.ok.inj h)
    exact ⟨v1, hflush, rfl, rfl⟩
  all_goals cases h

/-- **The map has every record**, with the TTL that the parser gives it. -/
theorem parse_holds (hlib : LibraryFacts lib) {contents : Text} {origin : DnsLabel} {items : List Item}
    {tokens : List Token} (hlexer : lib.lexer contents = (tokens, false)) (htokens : IsTokenisation items tokens)
    (hread : Reads lib (startContext origin) items read) (hwf : WellFormed read) :
    ∃ origin' records, parse lib contents origin = .ok (origin', records) ∧ Holds records (read.map given) := by
  have hstart : Matches (startContext origin) [] ⟨origin, .in, none, none, none, ∅⟩ := by
    refine ⟨rfl, rfl, rfl, rfl, fun h => ?_, holds_empty, ?_⟩
    · cases h
    · intro key l hl
      rw [Std.TreeMap.getElem?_emptyc] at hl
      cases hl
  obtain ⟨v', c', hruns, hmatches⟩ := runs_items hlib hread hstart hwf
  unfold parse
  rw [hlexer]
  dsimp only
  rcases htokens with rfl | htokens
  · refine ⟨v'.origin, v'.records, bind_eq_ok.mpr ⟨(v', .startLine), hruns, rfl⟩, hmatches.holds⟩
  · rw [← htokens] at hruns
    unfold Runs at hruns
    rw [List.foldlM_append] at hruns
    obtain ⟨⟨v1, state⟩, hfold, hend⟩ := bind_eq_ok.mp hruns
    rw [List.foldlM_cons] at hend
    obtain ⟨⟨v2, state'⟩, hstep, hnil⟩ := bind_eq_ok.mp hend
    obtain ⟨rfl, rfl⟩ := Prod.mk.inj (Except.ok.inj hnil)
    obtain ⟨v3, hfinish, horigin, hrecords⟩ := finish_of_eol hstep
    refine ⟨v3.origin, v3.records, bind_eq_ok.mpr ⟨(v1, state), hfold, ?_⟩, ?_⟩
    · exact bind_eq_ok.mpr ⟨v3, hfinish, rfl⟩
    · rw [hrecords]
      exact hmatches.holds

/-- A record is told by its key and its rdata. -/
theorem meant_of_given (hwf : WellFormed read) {records : Records} (hgiven : Holds records (read.map given))
    (hmeant : Holds records (read.map meant)) {p : Context × Entry} (hp : p ∈ read) :
    givenTtl p.1 p.2 = p.2.ttl := by
  have hmem : meant p ∈ (read.map meant).filter (keyOf · = p.2.key) :=
    List.mem_filter.mpr ⟨List.mem_map_of_mem hp, decide_eq_true rfl⟩
  have hmem' := ((hmeant p.2.key).symm.trans (hgiven p.2.key)).mem_iff.mp hmem
  obtain ⟨hq, -⟩ := List.mem_filter.mp hmem'
  obtain ⟨q, hq, heq⟩ := List.mem_map.mp hq
  have hkey : keyOf (given q) = keyOf (meant p) := congrArg keyOf heq
  have hwire : q.2.rdata.wire = p.2.rdata.wire := congrArg Record.rdata heq
  have hqp : q = p := by
    by_contra hne
    have hsymm : Std.Symm fun p q : Context × Entry => p.2.key = q.2.key → p.2.rdata.wire ≠ q.2.rdata.wire :=
      ⟨fun p q h hkey => (h hkey.symm).symm⟩
    exact hwf.distinct.forall hq hp hne hkey hwire
  rw [hqp] at heq
  exact congrArg Record.ttl heq

theorem givenTtl_eq_iff {line : Line} (hread : line.Reads lib c e) (hsoa : e.rtype = .soa → e.rdata.soa.isSome)
    (hlatest : (e.explicitTtl.or c.latestTtl).isSome) : givenTtl c e = e.ttl ↔ KeepsTtl c e := by
  unfold givenTtl KeepsTtl
  by_cases htype : e.rtype = .soa
  · obtain ⟨soa, hsoa⟩ := Option.isSome_iff_exists.mp (hsoa htype)
    rw [if_pos htype, if_pos htype, hsoa, Option.map_some, Option.getD_some, Option.some.injEq]
  · rw [if_neg htype, if_neg htype]
    have httl := hread.ttl
    rcases hexplicit : e.explicitTtl with _ | n
    · rw [hexplicit, Option.none_or] at hlatest
      obtain ⟨n, hn⟩ := Option.isSome_iff_exists.mp hlatest
      rw [Option.none_or, hn]
      simp
    · rw [hexplicit] at httl
      have hn : n = e.ttl := Option.some.inj httl
      simp [hn]

/-- Each record is a line, and the parser keeps its TTL exactly then. -/
theorem givenTtl_of_reads (hlib : LibraryFacts lib) {items : List Item} (hread : Reads lib c items read)
    (hlatest : (c.defaultTtl.or c.lastTtl).isSome → c.latestTtl.isSome) :
    ∀ p ∈ read, (givenTtl p.1 p.2 = p.2.ttl ↔ KeepsTtl p.1 p.2) := by
  induction hread with
  | nil c => exact fun p hp => absurd hp List.not_mem_nil
  | origin horigin hread ih => exact ih hlatest
  | ttl httl hread ih => exact ih fun _ => rfl
  | empty hread ih => exact ih hlatest
  | @record c line e items read hline hread ih =>
    have hsome := latest_isSome hline hlatest
    have hsoa : e.rtype = .soa → e.rdata.soa.isSome := fun hsoa => hlib.soa _ _ _ (hsoa ▸ hline.rdata)
    refine List.forall_mem_cons.mpr ⟨givenTtl_eq_iff hline hsoa hsome, ih fun _ => hsome⟩

/-- **The parser keeps every record of a zone file**, with its owner, its type, its class and its TTL, exactly when
the TTL of the SOA is its expiry, and each record that has no TTL of its own has the TTL that was written last. -/
theorem keeps_records_iff (hlib : LibraryFacts lib) {contents : Text} {origin : DnsLabel} {items : List Item}
    {tokens : List Token} (hlexer : lib.lexer contents = (tokens, false)) (htokens : IsTokenisation items tokens)
    (hread : Reads lib (startContext origin) items read) (hwf : WellFormed read) :
    (∃ origin' records, parse lib contents origin = .ok (origin', records) ∧ Holds records (read.map meant)) ↔
      ∀ p ∈ read, KeepsTtl p.1 p.2 := by
  obtain ⟨origin', records, hparse, hgiven⟩ := parse_holds hlib hlexer htokens hread hwf
  have hkeeps := givenTtl_of_reads hlib hread (fun h => by cases h)
  constructor
  · rintro ⟨origin'', records', hparse', hmeant⟩ p hp
    rw [hparse] at hparse'
    obtain ⟨-, rfl⟩ := Prod.mk.inj (Except.ok.inj hparse')
    exact (hkeeps p hp).mp (meant_of_given hwf hgiven hmeant hp)
  · intro h
    have heq : read.map given = read.map meant := by
      refine List.map_congr_left fun p hp => ?_
      unfold given meant
      rw [(hkeeps p hp).mpr (h p hp)]
    exact ⟨origin', records, hparse, heq ▸ hgiven⟩

end

/-! ### A zone -/

private def sampleOrigin : DnsLabel := ⟨[encode "test".toList]⟩

/-- The rdata of `ns. hm. 1 2 3 60 5`. -/
private def sampleSoa : RData :=
  ⟨some (60, 5), [2, 110, 115, 0, 2, 104, 109, 0, 0, 0, 0, 1, 0, 0, 0, 2, 0, 0, 0, 3, 0, 0, 0, 60, 0, 0, 0, 5]⟩

private def sampleAddress : RData := ⟨none, [192, 0, 2, 1]⟩

/-- An SOA with a TTL, and an address without. -/
private def sampleItems (ttl : Text) : List Item :=
  [.record ⟨.atSign, some ttl, some "in".toList, false, "SOA".toList,
      [.word "ns.".toList, .word "hm.".toList, .list (["1", "2", "3", "60", "5"].map String.toList)]⟩,
    .empty false,
    .record ⟨.name "a".toList, none, none, false, "A".toList, [.word "192.0.2.1".toList]⟩]

private def sampleLibrary (ttl : Text) : Library where
  lexer _ := ((sampleItems ttl).flatMap Item.tokens, false)
  name t origin := some ⟨encode t :: (origin.getD ⟨[]⟩).label⟩
  time t := if t = "60".toList then some 60 else if t = "300".toList then some 300 else none
  dnsClass t := if t = "IN".toList then some .in else none
  rdata rtype words _ :=
    if rtype = .soa ∧ words = ["ns.", "hm.", "1", "2", "3", "60", "5"].map String.toList then .ok sampleSoa
    else if rtype = .a ∧ words = ["192.0.2.1".toList] then .ok sampleAddress
    else .error .error
  insert l r := l ++ [r]

private def sampleRead (ttl : ℕ) : List (Context × Entry) :=
  let soa : Entry := ⟨sampleOrigin, .soa, .in, some ttl, ttl, sampleSoa⟩
  [(startContext sampleOrigin, soa),
    ((startContext sampleOrigin).next soa,
      ⟨⟨encode "a".toList :: sampleOrigin.label⟩, .a, .in, none, ttl, sampleAddress⟩)]

private theorem sampleLibrary_facts (ttl : Text) : LibraryFacts (sampleLibrary ttl) := by
  have htime : ∀ t, (sampleLibrary ttl).time t ≠ none → t = "60".toList ∨ t = "300".toList := by
    intro t h
    by_contra hne
    push Not at hne
    refine h ?_
    show (if t = "60".toList then some 60 else if t = "300".toList then some 300 else none) = none
    rw [if_neg hne.1, if_neg hne.2]
  have hclass : ∀ t q, readClass (sampleLibrary ttl) t = some q → t.map Char.toUpper = "IN".toList := by
    intro t q h
    unfold readClass at h
    by_contra hne
    have hnone : (sampleLibrary ttl).dnsClass (t.map Char.toUpper) = none := if_neg hne
    rw [hnone] at h
    simp at h
  refine ⟨?_, ?_, ?_, ?_, ?_, fun l r _ _ => List.Perm.refl _⟩
  · intro t rtype h
    by_contra hne
    have hnumber : ∀ t ∈ ["60".toList, "300".toList], RecordType.fromStr (t.map Char.toUpper) = none := by decide
    rw [hnumber t (by simpa using htime t hne)] at h
    cases h
  · intro t q h
    have hin := hclass t q h
    by_contra hne
    rcases htime t hne with rfl | rfl
    · exact absurd hin (by decide)
    · exact absurd hin (by decide)
  · intro t q rtype h hrtype
    have hin : RecordType.fromStr "IN".toList = none := by decide
    rw [hclass t q h, hin] at hrtype
    cases hrtype
  · intro parts origin rdata h
    cases h
  · intro parts origin rdata h
    have hsoa : (if RecordType.soa = .soa ∧ parts = ["ns.", "hm.", "1", "2", "3", "60", "5"].map String.toList then
        Except.ok sampleSoa
      else if RecordType.soa = .a ∧ parts = ["192.0.2.1".toList] then .ok sampleAddress
      else .error Failure.error) = .ok rdata := h
    split_ifs at hsoa with h1 h2
    · obtain rfl := Except.ok.inj hsoa
      rfl
    · exact absurd h2.1 (by decide)

private theorem sampleRead_reads {text : Text} {ttl : ℕ} (httl : (sampleLibrary text).time text = some ttl) :
    Reads (sampleLibrary text) (startContext sampleOrigin) (sampleItems text) (sampleRead ttl) := by
  refine .record ⟨rfl, ?_, rfl, rfl, rfl, rfl⟩ (.empty (.record ⟨rfl, rfl, rfl, rfl, rfl, rfl⟩ (.nil _)))
  show some _ = some _
  rw [httl]

private theorem sampleRead_wellFormed (ttl : ℕ) : WellFormed (sampleRead ttl) := by
  refine ⟨rfl, ?_, ?_⟩
  · simp [sampleRead, sampleSoa, sampleAddress]
  · simp [sampleRead]

/-- A zone whose SOA has the expiry as its TTL. -/
theorem keeps_records_sample : ∃ origin' records,
    parse (sampleLibrary "60".toList) [] sampleOrigin = .ok (origin', records) ∧
      Holds records ((sampleRead 60).map meant) := by
  refine (keeps_records_iff (sampleLibrary_facts _) rfl (Or.inl rfl) (sampleRead_reads rfl)
    (sampleRead_wellFormed 60)).mpr ?_
  have hsoa : KeepsTtl (startContext sampleOrigin) ⟨sampleOrigin, .soa, .in, some 60, 60, sampleSoa⟩ := rfl
  refine List.forall_mem_cons.mpr ⟨hsoa, List.forall_mem_singleton.mpr fun _ => rfl⟩

theorem not_keeps_records : ¬ ∀ (lib : Library) (contents : Text) (origin : DnsLabel) (items : List Item)
    (tokens : List Token) (read : List (Context × Entry)), LibraryFacts lib →
      lib.lexer contents = (tokens, false) → IsTokenisation items tokens →
      Reads lib (startContext origin) items read → WellFormed read →
      ∃ origin' records, parse lib contents origin = .ok (origin', records) ∧ Holds records (read.map meant) := by
  intro h
  have hfacts := sampleLibrary_facts "300".toList
  have hreads : Reads (sampleLibrary "300".toList) (startContext sampleOrigin) (sampleItems "300".toList)
      (sampleRead 300) := sampleRead_reads rfl
  have hwf := sampleRead_wellFormed 300
  obtain ⟨origin', records, hparse, hmeant⟩ := h _ [] sampleOrigin _ _ _ hfacts rfl (Or.inl rfl) hreads hwf
  have hlexer : (sampleLibrary "300".toList).lexer [] = ((sampleItems "300".toList).flatMap Item.tokens, false) := rfl
  obtain ⟨origin'', records', hparse', hgiven⟩ := parse_holds hfacts hlexer (Or.inl rfl) hreads hwf
  rw [hparse] at hparse'
  obtain ⟨-, rfl⟩ := Prod.mk.inj (Except.ok.inj hparse')
  have httl := meant_of_given hwf hgiven hmeant (p := _) List.mem_cons_self
  exact absurd httl (by decide)

end HexDns.Axfr.RecordsKept
