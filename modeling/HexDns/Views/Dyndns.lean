import HexDns.Lib.Runs
import HexDns.Models.Convert

/-! # Dynamic DNS

`update_ip` of `views/dyndns.py`, cut at the accesses to the database: a request loads the row, then
the zone, saves the whole row as it was loaded with one address changed, and saves the zone. The server
runs any number of requests, one access at a time in any order.

A save also writes back the address of the other family as it was loaded. `kept_iff` says that both
addresses are those written last if and only if no save finds that address changed. -/

namespace HexDns.Views.Dyndns

open HexDns.Lib.Texts HexDns.Lib.Tables HexDns.Lib.Programs HexDns.Lib.Runs HexDns.Base.Py
  HexDns.Base.Codecs HexDns.Base.Message HexDns.Models.Db HexDns.Models.Env HexDns.Models.Convert

/-! ### The request -/

/-- What a request brings. -/
structure Request where
  /-- `request.META.get('HTTP_AUTHORIZATION')` -/
  authorization : Option Text
  /-- `request.META['REMOTE_ADDR']` -/
  remoteAddr : Text
  hostname : Option Text
  myip : Option Text
  deriving DecidableEq, Repr

/-- What `update_ip` uses of other packages. -/
structure Web where
  /-- `TypedUUIDField("hexdns_zonedynamicaddressrecord")`, nothing for a `ValidationError` -/
  dynamicId : Text → Option ℕ
  /-- `ipaddress.ip_address`, nothing for a `ValueError` -/
  ipAddress : Text → Option IpAddr

/-- An answer, with the address that is part of its text. -/
inductive Answer
  | badRequest (body : Text)
  | forbidden (body : Text)
  | nochg (address : IpAddr)
  | good (address : IpAddr)
  deriving DecidableEq, Repr

/-- `addr.ipv4_mapped` -/
def ipv4Mapped (a : BitVec 128) : Option (BitVec 32) :=
  if a.toNat / 2 ^ 32 = 0xffff then some (BitVec.ofNat 32 a.toNat) else none

/-- `addr in ipaddress.IPv6Network("2a0d:1a40:7900:6::/80")` -/
def inNet64 (a : BitVec 128) : Bool := a.toNat / 2 ^ 48 = 0x2a0d1a40790000060000

/-- `get_ip` -/
def getIp (w : Web) (request : Request) : Except PyErr IpAddr :=
  match w.ipAddress request.remoteAddr with
  | none => .error .valueError
  | some (.v4 a) => .ok (.v4 a)
  | some (.v6 a) =>
    match ipv4Mapped a with
    | some b => .ok (.v4 b)
    | none => .ok (if inNet64 a then .v4 (BitVec.ofNat 32 a.toNat) else .v6 a)

/-- `t.split(c, 1)`, nothing if `c` is not in `t` -/
def splitOnce (c : Char) (t : Text) : Option (Text × Text) :=
  if c ∈ t then some (t.takeWhile (· ≠ c), (t.dropWhile (· ≠ c)).drop 1) else none

/-- `get_header_auth` -/
def getHeaderAuth (request : Request) : Except PyErr (Option (Text × Text)) :=
  match request.authorization with
  | none => .ok none
  | some header =>
    match splitOnce ' ' header with
    | none => .ok none
    | some (scheme, credentials) =>
      if scheme ≠ "Basic".toList then .ok none
      else do
        match decode (← b64decode credentials) with
        | none => throw .unicodeError
        | some decoded => return splitOnce ':' decoded

/-! ### The row -/

/-- The columns of a `DynamicAddressRecord`. -/
structure Current where
  ipv4 : Option (BitVec 32)
  ipv6 : Option (BitVec 128)
  password : Text
  deriving DecidableEq, Repr

def currentOf (self : Row) : Option Current :=
  match self.data with
  | .dynamicAddress ipv4 ipv6 password => some ⟨ipv4, ipv6, password⟩
  | _ => none

/-- `DynamicAddressRecord.objects.filter(id=…).first()` -/
def findDynamic (st : Store) (id : ℕ) : Option (Row × Current) :=
  (getRow st.records id).bind fun self => (currentOf self).map fun c => (self, c)

inductive Family
  | ipv4 | ipv6
  deriving DecidableEq, Repr

def Family.other : Family → Family
  | .ipv4 => .ipv6
  | .ipv6 => .ipv4

def family : IpAddr → Family
  | .v4 _ => .ipv4
  | .v6 _ => .ipv6

/-- The address of a family. -/
def Current.address (c : Current) : Family → Option IpAddr
  | .ipv4 => c.ipv4.map .v4
  | .ipv6 => c.ipv6.map .v6

/-- `dyn_obj.current_ipv4 = str(client_ip)`, or that of IPv6 -/
def Current.set (c : Current) : IpAddr → Current
  | .v4 a => { c with ipv4 := some a }
  | .v6 a => { c with ipv6 := some a }

/-- The row with these columns. -/
def withCurrent (self : Row) (c : Current) : Row :=
  { self with data := .dynamicAddress c.ipv4 c.ipv6 c.password }

/-! ### The stages of `update_ip` -/

/-- How far a request has got. -/
inductive Stage
  | started
  /-- `dyn_obj` is loaded and the password right -/
  | loaded (self : Row) (current : Current)
  /-- about to save `dyn_obj` with this address -/
  | saving (self : Row) (current : Current) (address : IpAddr) (zone : Zone)
  /-- about to save the zone -/
  | saved (address : IpAddr) (zone : Zone)
  | answered (result : Except PyErr Answer)

/-- Up to the password. -/
def load (w : Web) (request : Request) (st : Store) : Except PyErr (Answer ⊕ Row × Current) := do
  match ← getHeaderAuth request with
  | none => return .inl (.badRequest [])
  | some (username, password) =>
    match w.dynamicId username with
    | none => throw .validationError
    | some id =>
      match findDynamic st id with
      | none => return .inl (.badRequest "nohost".toList)
      | some (self, current) =>
        if current.password ≠ password then return .inl (.forbidden "badauth".toList)
        else return .inr (self, current)

/-- `client_ip`, or the answer if `myip` is no address -/
def clientIp (w : Web) (request : Request) : Except PyErr (Option IpAddr) := do
  let ip ← getIp w request
  match request.myip with
  | none => return some ip
  | some [] => return some ip
  | some t => return w.ipAddress t

/-- From the password to the save. -/
def compare (w : Web) (request : Request) (self : Row) (current : Current) (zone : Zone) :
    Except PyErr (Answer ⊕ IpAddr) := do
  if request.hostname ≠ some (self.recordName ++ '.' :: zone.zoneRoot) ∧
      ¬ (self.recordName = ['@'] ∧ request.hostname = some zone.zoneRoot) then
    return .inl (.badRequest "nohost".toList)
  else
    match ← clientIp w request with
    | none => return .inl (.badRequest [])
    | some ip =>
      if current.address (family ip) = some ip then return .inl (.nochg ip)
      else return .inr ip

section
variable (h : Host) (w : Web)

/-- The next access of a request to the database, and what it does up to the one after. -/
def advance (request : Request) (st : Store) : Stage → Stage × Store
  | .started =>
    match load w request st with
    | .error e => (.answered (.error e), st)
    | .ok (.inl answer) => (.answered (.ok answer), st)
    | .ok (.inr (self, current)) => (.loaded self current, st)
  | .loaded self current =>
    match getRow st.zones self.zone with
    | none => (.answered (.error .other), st)
    | some zone =>
      match compare w request self current zone with
      | .error e => (.answered (.error e), st)
      | .ok (.inl answer) => (.answered (.ok answer), st)
      | .ok (.inr ip) => (.saving self current ip zone, st)
  | .saving self current ip zone =>
    match run (saveRow h (withCurrent self (current.set ip))) st with
    | (.error e, st) => (.answered (.error e), st)
    | (.ok (), st) => (.saved ip zone, st)
  | .saved ip zone =>
    (.answered (.ok (.good ip)),
      { st with zones := st.zones.save { zone with zoneRoot := h.py.lower zone.zoneRoot } })
  | .answered result => (.answered result, st)

/-- The requests, the database and the addresses that were written, with the key of the row. -/
structure Server where
  store : Store
  requests : List (Request × Stage)
  written : List (ℕ × IpAddr)

/-- What the step writes. -/
def Stage.writes : Stage → Stage → List (ℕ × IpAddr)
  | .saving self _ ip _, .saved _ _ => [(self.id, ip)]
  | _, _ => []

/-- The request with this number goes on. -/
def step (s : Server) (i : ℕ) : Option Server :=
  (s.requests[i]?).map fun (request, stage) =>
    let (stage', store) := advance h w request s.store stage
    ⟨store, s.requests.set i (request, stage'), s.written ++ stage.writes stage'⟩

end

/-! ### What a step does -/

/-- The last address of a family that was written to a row. -/
def lastWritten (id : ℕ) (f : Family) (written : List (ℕ × IpAddr)) : Option IpAddr :=
  (written.filter fun x => x.1 = id && family x.2 = f).getLast?.map Prod.snd

theorem lastWritten_append (id k : ℕ) (f : Family) (written : List (ℕ × IpAddr)) (ip : IpAddr) :
    lastWritten id f (written ++ [(k, ip)]) =
      if k = id ∧ family ip = f then some ip else lastWritten id f written := by
  unfold lastWritten
  rw [List.filter_append]
  by_cases h : k = id ∧ family ip = f
  · simp [h]
  · have : ([(k, ip)] : List (ℕ × IpAddr)).filter (fun x => x.1 = id && family x.2 = f) = [] := by
      simpa using h
    rw [this, List.append_nil, if_neg h]

@[simp] theorem Current.address_set (c : Current) (ip : IpAddr) :
    (c.set ip).address (family ip) = some ip := by
  cases ip <;> rfl

theorem Current.address_set_ne (c : Current) {ip : IpAddr} {f : Family} (h : family ip ≠ f) :
    (c.set ip).address f = c.address f := by
  cases ip <;> cases f <;> first | rfl | exact absurd rfl h

theorem other_of_ne {ip : IpAddr} {f : Family} (h : family ip ≠ f) : f = (family ip).other := by
  cases ip <;> cases f <;> first | rfl | exact absurd rfl h

section
variable {h : Host} {w : Web} {s s' : Server} {i : ℕ}

/-- The row as `save` writes it. -/
def savedRow (h : Host) (self : Row) (c : Current) (ip : IpAddr) : Row :=
  { withCurrent self (c.set ip) with recordName := h.py.lower self.recordName }

theorem run_saveCurrent (self : Row) (c : Current) (ip : IpAddr) (st : Store) :
    run (saveRow h (withCurrent self (c.set ip))) st =
      if h.accepts (savedRow h self c ip) then
        (.ok (), Store.put { st with queue := st.queue ++ [self.zone] } (savedRow h self c ip))
      else (.error .databaseError, { st with queue := st.queue ++ [self.zone] }) := by
  show run (writeRow h (savedRow h self c ip)) _ = _
  unfold writeRow
  split_ifs <;> rfl

theorem findDynamic_eq_some {st : Store} {id : ℕ} {self : Row} {c : Current} :
    findDynamic st id = some (self, c) ↔ getRow st.records id = some self ∧ currentOf self = some c := by
  unfold findDynamic
  constructor
  · intro hf
    obtain ⟨self', hself, hc⟩ := Option.bind_eq_some_iff.mp hf
    obtain ⟨c', hc', heq⟩ := Option.map_eq_some_iff.mp hc
    obtain ⟨rfl, rfl⟩ := Prod.mk.inj heq
    exact ⟨hself, hc'⟩
  · rintro ⟨hself, hc⟩
    rw [hself, Option.bind_some, hc]; rfl

theorem findDynamic_of_load {request : Request} {st : Store} {self : Row} {c : Current}
    (hl : load w request st = .ok (.inr (self, c))) : findDynamic st self.id = some (self, c) := by
  obtain ⟨auth, -, hl⟩ := bind_eq_ok.mp hl
  rcases auth with _ | ⟨username, password⟩
  · cases hl
  rcases hid : w.dynamicId username with _ | id
  · simp [hid] at hl
  rcases hf : findDynamic st id with _ | ⟨self', c'⟩
  · simp [hid, hf] at hl
    cases hl
  by_cases hp : c'.password = password
  · simp [hid, hf, hp, pure, Except.pure] at hl
    obtain ⟨rfl, rfl⟩ := hl
    have hself := (findDynamic_eq_some.mp hf).1
    rw [(getRow_eq_some.mp hself).2, hf]
  · simp [hid, hf, hp, pure, Except.pure] at hl

/-- The copies of rows that a request holds. -/
def Stage.Holds : Stage → Row → Current → Prop
  | .loaded self c, self', c' => self = self' ∧ c = c'
  | .saving self c _ _, self', c' => self = self' ∧ c = c'
  | _, _, _ => False

/-- **What an access does**: it leaves the rows as they are, and a copy held after it is the row or was
held before, or it saves a copy with its address. -/
theorem advance_cases {request : Request} {st st' : Store} {stage stage' : Stage}
    (ha : advance h w request st stage = (stage', st')) :
    (st'.records = st.records ∧ stage.writes stage' = [] ∧
        (∀ self c ip zone, stage = .saving self c ip zone →
          h.accepts (savedRow h self c ip) = false) ∧
        ∀ self c, stage'.Holds self c →
          stage.Holds self c ∨ findDynamic st self.id = some (self, c)) ∨
      ∃ self c ip zone, stage = .saving self c ip zone ∧ stage' = .saved ip zone ∧
        h.accepts (savedRow h self c ip) = true ∧ stage.writes stage' = [(self.id, ip)] ∧
        st'.records = st.records.save (savedRow h self c ip) := by
  rcases stage with _ | ⟨self, c⟩ | ⟨self, c, ip, zone⟩ | ⟨ip, zone⟩ | result
  · left
    unfold advance at ha
    rcases hl : load w request st with e | answer | ⟨self, c⟩ <;>
      (rw [hl] at ha; obtain ⟨rfl, rfl⟩ := Prod.mk.inj ha)
    · exact ⟨rfl, rfl, by simp, fun _ _ hh => hh.elim⟩
    · exact ⟨rfl, rfl, by simp, fun _ _ hh => hh.elim⟩
    · refine ⟨rfl, rfl, by simp, ?_⟩
      rintro self' c' ⟨rfl, rfl⟩
      exact Or.inr (findDynamic_of_load hl)
  · left
    unfold advance at ha
    rcases hz : getRow st.zones self.zone with _ | zone
    · simp only [hz] at ha
      obtain ⟨rfl, rfl⟩ := Prod.mk.inj ha
      exact ⟨rfl, rfl, by simp, fun _ _ hh => hh.elim⟩
    rcases hc : compare w request self c zone with e | answer | ip <;>
      (simp only [hz, hc] at ha; obtain ⟨rfl, rfl⟩ := Prod.mk.inj ha)
    · exact ⟨rfl, rfl, by simp, fun _ _ hh => hh.elim⟩
    · exact ⟨rfl, rfl, by simp, fun _ _ hh => hh.elim⟩
    · exact ⟨rfl, rfl, by simp, fun _ _ hh => Or.inl hh⟩
  · unfold advance at ha
    by_cases hacc : h.accepts (savedRow h self c ip) = true
    · right
      simp only [run_saveCurrent, if_pos hacc] at ha
      obtain ⟨rfl, rfl⟩ := Prod.mk.inj ha
      exact ⟨self, c, ip, zone, rfl, rfl, hacc, rfl, rfl⟩
    · left
      simp only [run_saveCurrent, if_neg hacc] at ha
      obtain ⟨rfl, rfl⟩ := Prod.mk.inj ha
      refine ⟨rfl, rfl, ?_, fun _ _ hh => hh.elim⟩
      rintro _ _ _ _ ⟨⟩
      simpa using hacc
  · left
    obtain ⟨rfl, rfl⟩ := Prod.mk.inj ha
    exact ⟨rfl, rfl, by simp, fun _ _ hh => hh.elim⟩
  · left
    obtain ⟨rfl, rfl⟩ := Prod.mk.inj ha
    exact ⟨rfl, rfl, by simp, fun _ _ hh => hh.elim⟩

/-- **What a step does** to the server. -/
theorem step_cases (hs : step h w s i = some s') :
    ∃ request stage stage', s.requests[i]? = some (request, stage) ∧
      s'.requests = s.requests.set i (request, stage') ∧
      ((s'.store.records = s.store.records ∧ s'.written = s.written ∧
          (∀ self c ip zone, stage = .saving self c ip zone →
            h.accepts (savedRow h self c ip) = false) ∧
          ∀ self c, stage'.Holds self c →
            stage.Holds self c ∨ findDynamic s.store self.id = some (self, c)) ∨
        ∃ self c ip zone, stage = .saving self c ip zone ∧ stage' = .saved ip zone ∧
          h.accepts (savedRow h self c ip) = true ∧ s'.written = s.written ++ [(self.id, ip)] ∧
          s'.store.records = s.store.records.save (savedRow h self c ip)) := by
  unfold step at hs
  obtain ⟨⟨request, stage⟩, hi, hs⟩ := Option.map_eq_some_iff.mp hs
  rcases hadv : advance h w request s.store stage with ⟨stage', st'⟩
  simp only [hadv] at hs
  subst hs
  refine ⟨request, stage, stage', hi, rfl, ?_⟩
  rcases advance_cases hadv with
    ⟨hrec, hwr, hno, hholds⟩ | ⟨self, c, ip, zone, hst, hst', hacc, hwr, hrec⟩
  · exact Or.inl ⟨hrec, by simp [hwr], hno, hholds⟩
  · exact Or.inr ⟨self, c, ip, zone, hst, hst', hacc, by simp [hwr], hrec⟩

/-! ### Both addresses are kept -/

/-- The row has the addresses that were written last. -/
def Kept (id : ℕ) (s : Server) : Prop :=
  ∃ self c, findDynamic s.store id = some (self, c) ∧
    ∀ f a, lastWritten id f s.written = some a → c.address f = some a

/-- The request that goes on does not save the row, or the address of the other family is still as it
has loaded it. -/
def Fresh (h : Host) (id : ℕ) (s : Server) (i : ℕ) : Prop :=
  ∀ request self c ip zone, s.requests[i]? = some (request, .saving self c ip zone) → self.id = id →
    h.accepts (savedRow h self c ip) = true →
    ∀ self₀ c₀, findDynamic s.store id = some (self₀, c₀) →
      c₀.address (family ip).other = c.address (family ip).other

/-- As long as no address of a family is written, the row and its copies have the first one. -/
def Initial (id : ℕ) (init : Current) (s : Server) : Prop :=
  (∃ self c, findDynamic s.store id = some (self, c)) ∧
    (∀ self c, findDynamic s.store id = some (self, c) →
      ∀ f, lastWritten id f s.written = none → c.address f = init.address f) ∧
    ∀ request stage, (request, stage) ∈ s.requests → ∀ self c, stage.Holds self c → self.id = id →
      ∀ f, lastWritten id f s.written = none → c.address f = init.address f

theorem findDynamic_of_records {st st' : Store} (hr : st'.records = st.records) (id : ℕ) :
    findDynamic st' id = findDynamic st id := by
  unfold findDynamic
  rw [hr]

/-- After a save the row has the columns of the copy with its address. -/
theorem findDynamic_of_saved {st st' : Store} {self : Row} {c : Current} {ip : IpAddr}
    (hr : st'.records = st.records.save (savedRow h self c ip)) (id : ℕ) :
    findDynamic st' id =
      if self.id = id then some (savedRow h self c ip, c.set ip) else findDynamic st id := by
  unfold findDynamic
  rw [hr, getRow_save]
  show Option.bind (if self.id = id then _ else _) _ = _
  split_ifs <;> rfl

theorem initial_step {id : ℕ} {init : Current} (hI : Initial id init s)
    (hs : step h w s i = some s') : Initial id init s' := by
  obtain ⟨request, stage, stage', hi, hreq, hcase⟩ := step_cases hs
  obtain ⟨⟨self₀, c₀, hrow⟩, hstored, hcopies⟩ := hI
  have hmem : (request, stage) ∈ s.requests := List.mem_of_getElem? hi
  rcases hcase with ⟨hrec, hwr, -, hholds⟩ | ⟨self, c, ip, zone, rfl, rfl, -, hwr, hrec⟩
  · have hfind := findDynamic_of_records hrec
    refine ⟨⟨self₀, c₀, by rw [hfind, hrow]⟩, ?_, ?_⟩
    · intro self c hc f hf
      rw [hfind] at hc
      rw [hwr] at hf
      exact hstored self c hc f hf
    · intro request' stage'' hmem' self c hh hid f hf
      rw [hwr] at hf
      rw [hreq] at hmem'
      rcases List.mem_or_eq_of_mem_set hmem' with hmem' | heq
      · exact hcopies request' stage'' hmem' self c hh hid f hf
      · obtain ⟨rfl, rfl⟩ := Prod.mk.inj heq
        rcases hholds self c hh with hh | hc
        · exact hcopies _ _ hmem self c hh hid f hf
        · exact hstored self c (hid ▸ hc) f hf
  · have hfind := findDynamic_of_saved hrec
    have hlast : ∀ f, lastWritten id f s'.written = none →
        ¬ (self.id = id ∧ family ip = f) ∧ lastWritten id f s.written = none := by
      intro f hf
      rw [hwr, lastWritten_append] at hf
      split_ifs at hf with hc
      exact ⟨hc, hf⟩
    refine ⟨?_, ?_, ?_⟩
    · rw [hfind id]
      split_ifs
      · exact ⟨_, _, rfl⟩
      · exact ⟨_, _, hrow⟩
    · intro self' c' hc f hf
      obtain ⟨hne, hf⟩ := hlast f hf
      rw [hfind id] at hc
      split_ifs at hc with hid
      · obtain ⟨-, rfl⟩ := Prod.mk.inj (Option.some.inj hc)
        rw [c.address_set_ne fun h => hne ⟨hid, h⟩]
        exact hcopies _ _ hmem self c ⟨rfl, rfl⟩ hid f hf
      · exact hstored self' c' hc f hf
    · intro request' stage'' hmem' self' c' hh hid f hf
      rw [hreq] at hmem'
      rcases List.mem_or_eq_of_mem_set hmem' with hmem' | heq
      · exact hcopies request' stage'' hmem' self' c' hh hid f (hlast f hf).2
      · obtain ⟨-, rfl⟩ := Prod.mk.inj heq
        exact hh.elim

/-- **A step keeps the addresses written last** if and only if it meets the condition. -/
theorem kept_step {id : ℕ} {init : Current} (hI : Initial id init s) (hK : Kept id s)
    (hs : step h w s i = some s') : Kept id s' ↔ Fresh h id s i := by
  obtain ⟨request, stage, stage', hi, hreq, hcase⟩ := step_cases hs
  obtain ⟨-, hstored, hcopies⟩ := hI
  obtain ⟨self₀, c₀, hrow, hkept⟩ := hK
  rcases hcase with ⟨hrec, hwr, hno, -⟩ | ⟨self, c, ip, zone, rfl, rfl, hacc, hwr, hrec⟩
  · refine iff_of_true ⟨self₀, c₀, ?_, ?_⟩ ?_
    · rw [findDynamic_of_records hrec, hrow]
    · rwa [hwr]
    · intro request' self c ip zone hi' _ hacc
      rw [hi] at hi'
      obtain ⟨-, hst⟩ := Prod.mk.inj (Option.some.inj hi')
      rw [hno self c ip zone hst] at hacc
      cases hacc
  · have hfind := findDynamic_of_saved hrec id
    by_cases hid : self.id = id
    · rw [if_pos hid] at hfind
      have hcopy := hcopies _ _ (List.mem_of_getElem? hi) self c ⟨rfl, rfl⟩ hid
      have hlast : lastWritten id (family ip).other s'.written =
          lastWritten id (family ip).other s.written := by
        rw [hwr, lastWritten_append, if_neg]
        rintro ⟨-, hf⟩
        revert hf
        cases ip <;> simp [family, Family.other]
      have hother : (c.set ip).address (family ip).other = c.address (family ip).other :=
        c.address_set_ne (by cases ip <;> simp [family, Family.other])
      constructor
      · rintro ⟨self', c', hrow', hkept'⟩ request' self'' c'' ip' zone' hi' - - self₁ c₁ hc₁
        rw [hi] at hi'
        obtain ⟨-, hst⟩ := Prod.mk.inj (Option.some.inj hi')
        obtain ⟨rfl, rfl, rfl, rfl⟩ := Stage.saving.inj hst
        rw [hfind] at hrow'
        obtain ⟨-, rfl⟩ := Prod.mk.inj (Option.some.inj hrow')
        rcases hl : lastWritten id (family ip).other s.written with _ | a
        · rw [hstored self₁ c₁ hc₁ _ hl, hcopy _ hl]
        · rw [hrow] at hc₁
          obtain ⟨-, rfl⟩ := Prod.mk.inj (Option.some.inj hc₁)
          rw [hkept _ a hl, ← hother, hkept' _ a (hlast.trans hl)]
      · intro hfresh
        have hsame := hfresh request self c ip zone hi hid hacc self₀ c₀ hrow
        refine ⟨_, _, hfind, fun f a hf => ?_⟩
        by_cases hff : family ip = f
        · rw [hwr, lastWritten_append, if_pos ⟨hid, hff⟩] at hf
          rw [← hff, c.address_set, hf]
        · rw [other_of_ne hff] at hf ⊢
          rw [hother, ← hsame]
          exact hkept _ a (hlast.symm.trans hf)
    · rw [if_neg hid] at hfind
      refine iff_of_true ⟨self₀, c₀, hfind.trans hrow, fun f a hf => ?_⟩ ?_
      · rw [hwr, lastWritten_append, if_neg fun h => hid h.1] at hf
        exact hkept f a hf
      · intro request' self' c' ip' zone' hi' hid'
        rw [hi] at hi'
        obtain ⟨-, hst⟩ := Prod.mk.inj (Option.some.inj hi')
        obtain ⟨rfl, -, -, -⟩ := Stage.saving.inj hst
        exact absurd hid' hid

end

/-- **Both addresses are those written last** in every state of a run, whatever requests there are and
in whatever order they go on, if and only if no save finds the address of the other family changed
since the row was loaded. -/
theorem kept_iff (h : Host) (w : Web) (st : Store) (id : ℕ) (requests : List Request)
    (hrow : ∃ self c, findDynamic st id = some (self, c)) (order : List ℕ) :
    Always (step h w) (Kept id) ⟨st, requests.map fun r => (r, .started), []⟩ order ↔
      Along (step h w) (Fresh h id) ⟨st, requests.map fun r => (r, .started), []⟩ order := by
  obtain ⟨self, init, hinit⟩ := hrow
  refine always_iff_along (J := Initial id init) (fun _ _ _ hJ _ _ hs => initial_step hJ hs)
    (fun _ _ _ hJ hK hs => kept_step hJ hK hs) ?_ ?_ order
  · refine ⟨⟨self, init, hinit⟩, ?_, ?_⟩
    · intro self' c hc f _
      rw [hinit] at hc
      obtain ⟨-, rfl⟩ := Prod.mk.inj (Option.some.inj hc)
      rfl
    · intro request stage hmem self' c hh
      obtain ⟨r, -, hr⟩ := List.mem_map.mp hmem
      obtain ⟨-, rfl⟩ := Prod.mk.inj hr
      exact hh.elim
  · exact ⟨self, init, hinit, by simp [lastWritten]⟩

/-- A request was answered `good` or `nochg`. -/
def Stage.succeeded : Stage → Bool
  | .answered (.ok (.good _)) => true
  | .answered (.ok (.nochg _)) => true
  | _ => false

/-! ### An IPv4 and an IPv6 update at the same time -/

/-- A row for `home.example.com` without addresses. -/
def homeStore : Store :=
  { Store.empty with
    zones := Table.empty.save ⟨1, "example.com".toList, false⟩
    records := Table.empty.save
      ⟨1, 1, "home".toList, 3600, .dynamicAddress none none "pw".toList⟩ }

/-- Keys in decimal, and the two addresses of the requests. -/
def homeWeb : Web where
  dynamicId t := (Python.ascii.int t).map Int.toNat
  ipAddress t :=
    if t = "192.0.2.1".toList then some (.v4 0xc0000201#32)
    else if t = "2001:db8::1".toList then some (.v6 0x20010db8000000000000000000000001#128)
    else none

/-- A request from an address, for that address. -/
def homeRequest (address : Text) : Request :=
  ⟨some "Basic MTpwdw==".toList, address, some "home.example.com".toList, none⟩

def homeServer : Server :=
  ⟨homeStore, ["192.0.2.1".toList, "2001:db8::1".toList].map fun a => (homeRequest a, .started), []⟩

/-- The run in which one request after the other is as far, and its last state: both are answered
`good`, the IPv4 address is written before the IPv6 address, and is gone. -/
theorem home_run : (after (step .ascii homeWeb) homeServer [0, 1, 0, 1, 0, 1, 0, 1]).map (fun s =>
      (s.requests.all fun r => r.2.succeeded, lastWritten 1 .ipv4 s.written,
        (findDynamic s.store 1).map fun x => x.2.ipv4)) =
    some (true, some (.v4 0xc0000201#32), some none) := by decide

theorem home_row : ∃ self c, findDynamic homeStore 1 = some (self, c) := ⟨_, _, rfl⟩

/-- **An update can be lost** although every request was answered `good`. -/
theorem not_kept_concurrent : ¬ ∀ (h : Host) (w : Web) (st : Store) (id : ℕ)
    (requests : List Request) (order : List ℕ) (s : Server),
    (∃ self c, findDynamic st id = some (self, c)) →
    after (step h w) ⟨st, requests.map fun r => (r, .started), []⟩ order = some s →
    (∀ r ∈ s.requests, r.2.succeeded = true) → Kept id s := by
  intro hall
  have hrun := home_run
  obtain ⟨s, hs, hval⟩ := Option.map_eq_some_iff.mp hrun
  obtain ⟨hans, hlast, hnone⟩ : _ ∧ _ ∧ _ := by simpa using hval
  obtain ⟨self, c, hc, hkept⟩ := hall .ascii homeWeb homeStore 1
    (["192.0.2.1".toList, "2001:db8::1".toList].map homeRequest) _ s home_row
    (by rw [List.map_map]; exact hs) (fun r hr => hans _ _ hr)
  have h4 := hkept .ipv4 _ hlast
  obtain ⟨self', c', hc', h4'⟩ := hnone
  rw [hc] at hc'
  obtain ⟨-, rfl⟩ := Prod.mk.inj (Option.some.inj hc')
  unfold Current.address at h4
  rw [h4'] at h4
  cases h4

/-- One update after the other: both are there at the end. -/
theorem kept_iff_one_by_one :
    Always (step .ascii homeWeb) (Kept 1) homeServer [0, 0, 0, 0, 1, 1, 1, 1] ↔
      Along (step .ascii homeWeb) (Fresh .ascii 1) homeServer [0, 0, 0, 0, 1, 1, 1, 1] :=
  kept_iff .ascii homeWeb homeStore 1 (["192.0.2.1".toList, "2001:db8::1".toList].map homeRequest)
    home_row [0, 0, 0, 0, 1, 1, 1, 1]

end HexDns.Views.Dyndns
