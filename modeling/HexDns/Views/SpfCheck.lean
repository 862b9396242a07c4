import HexDns.Models.Names
import HexDns.Svcb.Addresses

/-! # The check of a zone's SPF record

`check_spf` of `views/zone_checks.py`, with `IPv4Network` and `IPv6Network` of the library `ipaddress`.

The loop looks for what is wrong with a directive that it knows, and falls through to `OK` for the
others: a record that never comes to an `all` passes, and so do names in capitals and `ip4` without a
network. `trusted_iff` says when `OK` can be trusted. -/

namespace HexDns.Views.SpfCheck

open HexDns.Lib.Texts HexDns.Lib.Tables HexDns.Base.Py HexDns.Models.Db HexDns.Models.Env
  HexDns.Models.Names HexDns.Tasks.Addresses HexDns.Svcb.Addresses

/-! ### Networks -/

/-- A network: no bit of the address is set behind the prefix. -/
structure Network (w : ℕ) where
  networkAddress : BitVec w
  prefixlen : ℕ
  prefixlen_le : prefixlen ≤ w
  clear : networkAddress.toNat % 2 ^ (w - prefixlen) = 0
  deriving DecidableEq

/-- `_count_righthand_zero_bits` -/
def countRighthandZeroBits (number bits : ℕ) : ℕ :=
  if number = 0 then bits else ((List.range bits).takeWhile fun i => number % 2 ^ (i + 1) = 0).length

/-- `_prefix_from_ip_int` -/
def prefixFromIpInt (w ipInt : ℕ) : Option ℕ :=
  let trailingZeroes := countRighthandZeroBits ipInt w
  if ipInt / 2 ^ trailingZeroes = 2 ^ (w - trailingZeroes) - 1 then some (w - trailingZeroes) else none

/-- `_prefix_from_prefix_string` -/
def prefixFromPrefixString (w : ℕ) (mask : Text) : Option ℕ := (readBase 10 mask).filter (· ≤ w)

/-- `_prefix_from_ip_string`: a netmask, or else a hostmask -/
def prefixFromIpString (mask : Text) : Option ℕ :=
  (ipv4Address mask).bind fun a =>
    (prefixFromIpInt 32 a.toNat).orElse fun _ => prefixFromIpInt 32 (~~~a).toNat

/-- The network of an address and a mask, nothing for a `ValueError`. -/
def network {w : ℕ} (parse : Text → Option (BitVec w)) (makeNetmask : Text → Option ℕ) (t : Text) :
    Option (Network w) :=
  let ofParts (address : Text) (mask : Option ℕ) : Option (Network w) :=
    (parse address).bind fun a => mask.bind fun p =>
      if h : p ≤ w ∧ a.toNat % 2 ^ (w - p) = 0 then some ⟨a, p, h.1, h.2⟩ else none
  match t.splitOn '/' with
  | [address] => ofParts address (some w)
  | [address, mask] => ofParts address (makeNetmask mask)
  | _ => none

/-- `ipaddress.IPv4Network(t)` -/
def ipv4Network (t : Text) : Option (Network 32) :=
  network ipv4Address (fun m => (prefixFromPrefixString 32 m).orElse fun _ => prefixFromIpString m) t

/-- `ipaddress.IPv6Network(t)` -/
def ipv6Network (t : Text) : Option (Network 128) := network ipv6Address (prefixFromPrefixString 128) t

example : (ipv4Network "192.0.2.0/24".toList).map (·.prefixlen) = some 24 := by decide
example : (ipv4Network "10.0.0.0/0.255.255.255".toList).map (·.prefixlen) = some 8 := by decide
example : ipv4Network "192.0.2.1/24".toList = none := by decide
example : (ipv6Network "2001:db8::/32".toList).map (·.prefixlen) = some 32 := by decide

/-! ### The terms of a record -/

inductive SpfStatus
  | notPresent | multiplePresent | passAll | invalidNet | largeV4Net | largeV6Net | allNotLast | ok
  deriving DecidableEq, Repr

inductive Qualifier
  | pass | fail | neutral | softfail
  deriving DecidableEq, Repr

/-- A row of `TXTRecord`, with what the check reads of it. -/
structure TxtRecord where
  recordName : Text
  data : Text
  deriving DecidableEq, Repr

/-- `zone.txtrecord_set` -/
def txtrecordSet (s : Store) (zone : ℕ) : List TxtRecord :=
  s.records.rows.filterMap fun r =>
    match r.data with
    | .txt data => if r.zone = zone then some ⟨r.recordName, data⟩ else none
    | _ => none

/-- `r.data.startswith("v=spf1 ") or r.data == "v=spf1"` -/
def isSpf (data : Text) : Bool := "v=spf1 ".toList.isPrefixOf data || data = "v=spf1".toList

/-- The terms that are not empty. -/
def terms (data : Text) : List Text := ((strip (data.drop 6)).splitOn ' ').filter (· ≠ [])

/-- `t.split("=", 1)` -/
def modifier (t : Text) : Text × Text := (t.takeWhile (· ≠ '='), (t.dropWhile (· ≠ '=')).drop 1)

def modifiers (data : Text) : List (Text × Text) := ((terms data).filter ('=' ∈ ·)).map modifier

/-- A directive with its qualifier taken off. -/
def directive (t : Text) : Qualifier × Text :=
  match t with
  | '+' :: t => (.pass, t)
  | '-' :: t => (.fail, t)
  | '?' :: t => (.neutral, t)
  | '~' :: t => (.softfail, t)
  | t => (.pass, t)

def directives (data : Text) : List (Qualifier × Text) := ((terms data).filter ('=' ∉ ·)).map directive

/-! ### The check -/

/-- The check of a directive with a network: `none` is to go on. -/
def checkNet {w : ℕ} (tag : Text) (parse : Text → Option (Network w)) (least : ℕ) (large : SpfStatus)
    (d : Text) : Option SpfStatus :=
  if tag.isPrefixOf d then
    match parse (d.drop tag.length) with
    | none => some .invalidNet
    | some net => if net.prefixlen < least then some large else none
  else none

/-- One pass of the loop: what it returns, `none` is to go on. -/
def checkDirective (q : Qualifier) (d : Text) (last : Bool) : Option SpfStatus :=
  if d = "all".toList ∧ (q = .pass ∨ q = .neutral) then some .passAll
  else if d = "all".toList ∧ ¬ last then some .allNotLast
  else
    (checkNet "ip4:".toList ipv4Network 14 .largeV4Net d).orElse fun _ =>
      checkNet "ip6:".toList ipv6Network 32 .largeV6Net d

/-- `for i, (q, d) in enumerate(directives)` -/
def checkDirectives : List (Qualifier × Text) → SpfStatus
  | [] => .ok
  | (q, d) :: ds =>
    match checkDirective q d ds.isEmpty with
    | some status => status
    | none => checkDirectives ds

/-- `check_spf` -/
def checkSpf (s : Store) (zone : ℕ) : SpfStatus :=
  match ((txtrecordSet s zone).filter (·.recordName = ['@'])).filter (isSpf ·.data) with
  | [] => .notPresent
  | [r] =>
    if directives r.data = [] ∧ ¬ (modifiers r.data).any (·.1 = "redirect".toList) then .allNotLast
    else checkDirectives (directives r.data)
  | _ => .multiplePresent

/-! ### What is checked -/

section
variable {w : ℕ} {tag d : Text} {parse : Text → Option (Network w)} {least : ℕ} {large : SpfStatus}

theorem checkNet_eq_none :
    checkNet tag parse least large d = none ↔
      ∀ t, d = tag ++ t → ∃ net, parse t = some net ∧ least ≤ net.prefixlen := by
  unfold checkNet
  by_cases htag : tag.isPrefixOf d
  · obtain ⟨t, rfl⟩ := List.isPrefixOf_iff_prefix.mp htag
    rw [if_pos htag, List.drop_left]
    have hall : (∀ t', tag ++ t = tag ++ t' → ∃ net, parse t' = some net ∧ least ≤ net.prefixlen) ↔
        ∃ net, parse t = some net ∧ least ≤ net.prefixlen :=
      ⟨fun h => h t rfl, fun h t' ht => List.append_cancel_left ht ▸ h⟩
    rw [hall]
    rcases parse t with _ | net
    · simp
    · by_cases hlt : net.prefixlen < least
      · simp [hlt]
      · simp [hlt, Nat.le_of_not_lt hlt]
  · rw [if_neg htag]
    refine iff_of_true rfl fun t ht => absurd (List.isPrefixOf_iff_prefix.mpr ⟨t, ht.symm⟩) htag

theorem checkNet_ne_ok (hlarge : large ≠ .ok) : checkNet tag parse least large d ≠ some .ok := by
  unfold checkNet
  split_ifs
  · rcases parse (d.drop tag.length) with _ | net
    · simp
    · dsimp only
      split_ifs <;> simp [hlarge]
  · simp

end

/-- What the loop asks of a directive. -/
structure Passes (q : Qualifier) (d : Text) (last : Prop) : Prop where
  all : d = "all".toList → (q = .fail ∨ q = .softfail) ∧ last
  ip4 : ∀ t, d = "ip4:".toList ++ t → ∃ net, ipv4Network t = some net ∧ 14 ≤ net.prefixlen
  ip6 : ∀ t, d = "ip6:".toList ++ t → ∃ net, ipv6Network t = some net ∧ 32 ≤ net.prefixlen

theorem checkDirective_eq_none {q : Qualifier} {d : Text} {last : Bool} :
    checkDirective q d last = none ↔ Passes q d (last = true) := by
  have hnets : (checkNet "ip4:".toList ipv4Network 14 .largeV4Net d).orElse
        (fun _ => checkNet "ip6:".toList ipv6Network 32 .largeV6Net d) = none ↔
      checkNet "ip4:".toList ipv4Network 14 .largeV4Net d = none ∧
        checkNet "ip6:".toList ipv6Network 32 .largeV6Net d = none := by
    rcases checkNet "ip4:".toList ipv4Network 14 .largeV4Net d with _ | _ <;> simp
  unfold checkDirective
  by_cases hall : d = "all".toList
  · have hpasses : Passes q d (last = true) ↔
        ((q = .fail ∨ q = .softfail) ∧ last = true) ∧ checkNet "ip4:".toList ipv4Network 14 .largeV4Net d = none ∧
          checkNet "ip6:".toList ipv6Network 32 .largeV6Net d = none := by
      rw [checkNet_eq_none, checkNet_eq_none]
      exact ⟨fun h => ⟨h.all hall, h.ip4, h.ip6⟩, fun h => ⟨fun _ => h.1, h.2.1, h.2.2⟩⟩
    rw [hpasses]
    cases q <;> cases last <;> simp only [hall] <;> decide
  · have hpasses : Passes q d (last = true) ↔
        checkNet "ip4:".toList ipv4Network 14 .largeV4Net d = none ∧
          checkNet "ip6:".toList ipv6Network 32 .largeV6Net d = none := by
      rw [checkNet_eq_none, checkNet_eq_none]
      exact ⟨fun h => ⟨h.ip4, h.ip6⟩, fun h => ⟨fun h' => absurd h' hall, h.1, h.2⟩⟩
    rw [if_neg (fun h => hall h.1), if_neg (fun h => hall h.1), hnets, hpasses]

theorem checkDirective_ne_ok {q : Qualifier} {d : Text} {last : Bool} :
    checkDirective q d last ≠ some .ok := by
  have h4 : checkNet "ip4:".toList ipv4Network 14 .largeV4Net d ≠ some .ok :=
    checkNet_ne_ok (by decide)
  have h6 : checkNet "ip6:".toList ipv6Network 32 .largeV6Net d ≠ some .ok :=
    checkNet_ne_ok (by decide)
  unfold checkDirective
  split_ifs
  · decide
  · decide
  · rcases hc : checkNet "ip4:".toList ipv4Network 14 .largeV4Net d with _ | status
    · exact h6
    · rw [hc] at h4
      exact h4

theorem checkDirectives_eq_ok {ds : List (Qualifier × Text)} :
    checkDirectives ds = .ok ↔ ∀ a q d b, ds = a ++ (q, d) :: b → Passes q d (b = []) := by
  induction ds with
  | nil => simp [checkDirectives]
  | cons p ds ih =>
    obtain ⟨q, d⟩ := p
    have hstep : checkDirectives ((q, d) :: ds) = .ok ↔
        checkDirective q d ds.isEmpty = none ∧ checkDirectives ds = .ok := by
      rcases hc : checkDirective q d ds.isEmpty with _ | status
      · simp [checkDirectives, hc]
      · have hne : status ≠ .ok := by
          rintro rfl
          exact checkDirective_ne_ok hc
        simp [checkDirectives, hc, hne]
    rw [hstep, ih, checkDirective_eq_none, List.isEmpty_iff]
    constructor
    · rintro ⟨hfirst, hrest⟩ a q' d' b heq
      rcases a with _ | ⟨p, a⟩
      · obtain ⟨hp, rfl⟩ := List.cons.inj heq
        obtain ⟨rfl, rfl⟩ := Prod.mk.inj hp
        exact hfirst
      · exact hrest a q' d' b (List.cons.inj heq).2
    · intro h
      exact ⟨h [] q d ds rfl, fun a q' d' b heq => h ((q, d) :: a) q' d' b (by rw [heq]; rfl)⟩

/-- What the check asks of the records of a zone, where `r` is the one that it reads. -/
structure Accepted (s : Store) (zone : ℕ) (r : TxtRecord) : Prop where
  single : ((txtrecordSet s zone).filter (·.recordName = ['@'])).filter (isSpf ·.data) = [r]
  redirect : directives r.data = [] → ∃ m ∈ modifiers r.data, m.1 = "redirect".toList
  passes : ∀ a q d b, directives r.data = a ++ (q, d) :: b → Passes q d (b = [])

theorem checkSpf_eq_ok {s : Store} {zone : ℕ} : checkSpf s zone = .ok ↔ ∃ r, Accepted s zone r := by
  unfold checkSpf
  rcases hrows : ((txtrecordSet s zone).filter (·.recordName = ['@'])).filter (isSpf ·.data)
    with _ | ⟨r, _ | ⟨r', rs⟩⟩ <;> rw [hrows] <;> dsimp only
  · refine iff_of_false (by decide) ?_
    rintro ⟨r, hr⟩
    exact absurd (hrows.symm.trans hr.single) (List.cons_ne_nil r []).symm
  · have hone : (∃ r', Accepted s zone r') ↔ Accepted s zone r := by
      refine ⟨?_, fun h => ⟨r, h⟩⟩
      rintro ⟨r', hr'⟩
      obtain rfl : r' = r := List.singleton_inj.mp (hr'.single.symm.trans hrows)
      exact hr'
    rw [hone]
    split_ifs with hall
    · refine iff_of_false (by decide) fun h => hall.2 ?_
      obtain ⟨m, hm, hredirect⟩ := h.redirect hall.1
      exact List.any_eq_true.mpr ⟨m, hm, decide_eq_true hredirect⟩
    · rw [checkDirectives_eq_ok]
      refine ⟨fun h => ⟨hrows, fun hnil => ?_, h⟩, fun h => h.passes⟩
      have hany := Classical.not_not.mp fun hno => hall ⟨hnil, hno⟩
      obtain ⟨m, hm, hredirect⟩ := List.any_eq_true.mp hany
      exact ⟨m, hm, of_decide_eq_true hredirect⟩
  · refine iff_of_false (by decide) ?_
    rintro ⟨r, hr⟩
    exact absurd (List.cons.inj (hrows.symm.trans hr.single)).2 (List.cons_ne_nil _ _)

/-! ### What can be trusted -/

/-- A name as it is compared. -/
def caseFold (t : Text) : Text := t.map lowerChar

/-- The name of a directive's mechanism. -/
def mechanism (d : Text) : Text := caseFold (d.takeWhile (· ∉ [':', '/']))

/-- A directive `ip4` or `ip6` with a network that is not too large. -/
def NetOf {w : ℕ} (parse : Text → Option (Network w)) (least : ℕ) (d : Text) : Prop :=
  ∃ t net, d.drop 3 = ':' :: t ∧ parse t = some net ∧ least ≤ net.prefixlen

def IsAll (d : Text) : Prop := caseFold d = "all".toList

def Redirects (data : Text) : Prop := ∃ m ∈ modifiers data, caseFold m.1 = "redirect".toList

/-- A record that lets no stranger pass. -/
structure Strict (data : Text) : Prop where
  ends : (∃ ds q d, directives data = ds ++ [(q, d)] ∧ IsAll d ∧ (q = .fail ∨ q = .softfail)) ∨
    Redirects data
  all : ∀ p ∈ directives data, IsAll p.2 → p.1 ≠ .pass ∧ p.1 ≠ .neutral
  ip4 : ∀ p ∈ directives data, mechanism p.2 = "ip4".toList → NetOf ipv4Network 14 p.2
  ip6 : ∀ p ∈ directives data, mechanism p.2 = "ip6".toList → NetOf ipv6Network 32 p.2

/-- What an `OK` is to mean. -/
def Trusted (s : Store) (zone : ℕ) : Prop :=
  ∃ r, (txtrecordSet s zone).filter (fun r => isApex r.recordName && isSpf r.data) = [r] ∧
    Strict r.data

/-- What the check does not look at, where it reads `r`. -/
structure Unseen (s : Store) (zone : ℕ) (r : TxtRecord) : Prop where
  /-- No SPF record stands at the apex under another spelling of its name. -/
  apex : ∀ r' ∈ txtrecordSet s zone, isApex r'.recordName → isSpf r'.data → r'.recordName = ['@']
  /-- Where there are directives, the last is `all` in some spelling, or there is a redirect. -/
  ends : directives r.data ≠ [] →
    (∃ ds q d, directives r.data = ds ++ [(q, d)] ∧ IsAll d) ∨ Redirects r.data
  /-- An `all` with a capital letter lets nobody pass. -/
  all : ∀ p ∈ directives r.data, IsAll p.2 → p.2 ≠ "all".toList → p.1 = .fail ∨ p.1 = .softfail
  /-- An `ip4` with a capital letter or without a colon has a network. -/
  ip4 : ∀ p ∈ directives r.data, mechanism p.2 = "ip4".toList → ¬ "ip4:".toList <+: p.2 →
    NetOf ipv4Network 14 p.2
  ip6 : ∀ p ∈ directives r.data, mechanism p.2 = "ip6".toList → ¬ "ip6:".toList <+: p.2 →
    NetOf ipv6Network 32 p.2

theorem fail_or_softfail {q : Qualifier} : q = .fail ∨ q = .softfail ↔ q ≠ .pass ∧ q ≠ .neutral := by
  cases q <;> decide

variable {s : Store} {zone : ℕ} {r : TxtRecord}

theorem Accepted.passes_of_mem (h : Accepted s zone r) {p : Qualifier × Text}
    (hp : p ∈ directives r.data) : ∃ last, Passes p.1 p.2 last := by
  obtain ⟨a, b, hab⟩ := List.append_of_mem hp
  exact ⟨_, h.passes a p.1 p.2 b hab⟩

/-- The SPF record of the apex is the one that was read, or there are more under other spellings. -/
theorem Accepted.filter_iff (h : Accepted s zone r) (r' : TxtRecord) :
    (txtrecordSet s zone).filter (fun r => isApex r.recordName && isSpf r.data) = [r'] ↔
      r' = r ∧ ∀ r' ∈ txtrecordSet s zone, isApex r'.recordName → isSpf r'.data →
        r'.recordName = ['@'] := by
  have hr : r ∈ ((txtrecordSet s zone).filter (·.recordName = ['@'])).filter (isSpf ·.data) := by
    rw [h.single]
    exact List.mem_singleton_self r
  simp only [List.mem_filter, decide_eq_true_eq] at hr
  obtain ⟨⟨hmem, hname⟩, hspf⟩ := hr
  have hapex : isApex r.recordName = true := by
    rw [hname]
    decide
  constructor
  · intro heq
    have hin : ∀ x ∈ txtrecordSet s zone, isApex x.recordName → isSpf x.data → x = r' := by
      intro x hx hxapex hxspf
      have : x ∈ [r'] := heq ▸ List.mem_filter.mpr ⟨hx, by simp [hxapex, hxspf]⟩
      exact List.mem_singleton.mp this
    have hrr : r = r' := hin r hmem hapex hspf
    refine ⟨hrr.symm, fun x hx hxapex hxspf => ?_⟩
    rw [hin x hx hxapex hxspf, ← hrr, hname]
  · rintro ⟨rfl, hnames⟩
    rw [← h.single, List.filter_filter]
    refine List.filter_congr fun x hx => ?_
    rw [Bool.eq_iff_iff]
    simp only [Bool.and_eq_true, decide_eq_true_eq]
    constructor
    · rintro ⟨hxapex, hxspf⟩
      exact ⟨hxspf, hnames x hx hxapex hxspf⟩
    · rintro ⟨hxspf, hxname⟩
      refine ⟨?_, hxspf⟩
      rw [hxname]
      decide

/-- A directive that begins with the tag has the mechanism, and a network behind it. -/
theorem netOf_of_tag {w : ℕ} {parse : Text → Option (Network w)} {least : ℕ} {d name : Text}
    (hname : name.length = 3)
    (hnet : ∀ t, d = (name ++ [':']) ++ t → ∃ net, parse t = some net ∧ least ≤ net.prefixlen)
    (hd : name ++ [':'] <+: d) : NetOf parse least d := by
  obtain ⟨t, rfl⟩ := hd
  obtain ⟨net, hparse, hleast⟩ := hnet t rfl
  refine ⟨t, net, ?_, hparse, hleast⟩
  rw [List.append_assoc, List.drop_left' hname]
  rfl

theorem Accepted.strict_iff (h : Accepted s zone r)
    (hapex : ∀ r' ∈ txtrecordSet s zone, isApex r'.recordName → isSpf r'.data → r'.recordName = ['@']) :
    Strict r.data ↔ Unseen s zone r := by
  constructor
  · intro hstrict
    refine ⟨hapex, fun _ => ?_, fun p hp hall _ => ?_, fun p hp hm _ => hstrict.ip4 p hp hm,
      fun p hp hm _ => hstrict.ip6 p hp hm⟩
    · rcases hstrict.ends with ⟨ds, q, d, hds, hall, _⟩ | hredirects
      · exact Or.inl ⟨ds, q, d, hds, hall⟩
      · exact Or.inr hredirects
    · exact fail_or_softfail.mpr (hstrict.all p hp hall)
  · intro hunseen
    have hall : ∀ p ∈ directives r.data, IsAll p.2 → p.1 = .fail ∨ p.1 = .softfail := by
      intro p hp hisall
      by_cases hexact : p.2 = "all".toList
      · obtain ⟨last, hpasses⟩ := h.passes_of_mem hp
        exact (hpasses.all hexact).1
      · exact hunseen.all p hp hisall hexact
    refine ⟨?_, fun p hp hisall => fail_or_softfail.mp (hall p hp hisall), fun p hp hm => ?_,
      fun p hp hm => ?_⟩
    · by_cases hnil : directives r.data = []
      · obtain ⟨m, hm, hredirect⟩ := h.redirect hnil
        refine Or.inr ⟨m, hm, ?_⟩
        rw [hredirect]
        decide
      · rcases hunseen.ends hnil with ⟨ds, q, d, hds, hisall⟩ | hredirects
        · have hp : (q, d) ∈ directives r.data := by
            rw [hds]
            exact List.mem_append_right _ List.mem_cons_self
          exact Or.inl ⟨ds, q, d, hds, hisall, hall _ hp hisall⟩
        · exact Or.inr hredirects
    · by_cases htag : "ip4:".toList <+: p.2
      · obtain ⟨last, hpasses⟩ := h.passes_of_mem hp
        exact @netOf_of_tag _ _ _ p.2 "ip4".toList rfl hpasses.ip4 htag
      · exact hunseen.ip4 p hp hm htag
    · by_cases htag : "ip6:".toList <+: p.2
      · obtain ⟨last, hpasses⟩ := h.passes_of_mem hp
        exact @netOf_of_tag _ _ _ p.2 "ip6".toList rfl hpasses.ip6 htag
      · exact hunseen.ip6 p hp hm htag

/-- **An `OK` can be trusted if and only if**, where none of the checks objects, what they do not look
at is in order too. -/
theorem trusted_iff (s : Store) (zone : ℕ) :
    (checkSpf s zone = .ok → Trusted s zone) ↔ ∀ r, Accepted s zone r → Unseen s zone r := by
  rw [checkSpf_eq_ok]
  constructor
  · intro h r hr
    obtain ⟨r', hr', hstrict⟩ := h ⟨r, hr⟩
    obtain ⟨rfl, hapex⟩ := (hr.filter_iff r').mp hr'
    exact (hr.strict_iff hapex).mp hstrict
  · rintro h ⟨r, hr⟩
    have hunseen := h r hr
    exact ⟨r, (hr.filter_iff r).mpr ⟨rfl, hunseen.apex⟩, (hr.strict_iff hunseen.apex).mpr hunseen⟩

private def openSpfStore : Store :=
  { Store.empty with records := Table.empty.save ⟨1, 1, ['@'], 3600, .txt "v=spf1 a".toList⟩ }

theorem not_strict_open : ¬ Strict "v=spf1 a".toList := by
  intro h
  rcases h.ends with ⟨ds, q, d, hds, hall, _⟩ | ⟨m, hm, _⟩
  · have hlast := congrArg List.getLast? hds
    rw [List.getLast?_concat] at hlast
    have hdir : (directives "v=spf1 a".toList).getLast? = some (Qualifier.pass, ['a']) := by decide
    obtain ⟨rfl, rfl⟩ := Prod.mk.inj (Option.some.inj (hdir.symm.trans hlast))
    have hne : caseFold ['a'] ≠ "all".toList := by decide
    exact hne hall
  · have hnil : modifiers "v=spf1 a".toList = [] := by decide
    rw [hnil] at hm
    cases hm

/-- A record that leaves open what happens to strangers is `OK`. -/
theorem not_trusted :
    ¬ ∀ (s : Store) (zone : ℕ), checkSpf s zone = .ok → Trusted s zone := by
  intro h
  obtain ⟨r, hr, hstrict⟩ := h openSpfStore 1 (by decide)
  obtain rfl : r = ⟨['@'], "v=spf1 a".toList⟩ := by
    have hone : (txtrecordSet openSpfStore 1).filter (fun r => isApex r.recordName && isSpf r.data) =
        [⟨['@'], "v=spf1 a".toList⟩] := by decide
    exact (List.singleton_inj.mp (hone.symm.trans hr)).symm
  exact not_strict_open hstrict

end HexDns.Views.SpfCheck
