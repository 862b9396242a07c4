import HexDns.Axfr.Server

/-! # Who gets a zone transfer

A transfer of zone `Z` is meant for the holder of an AXFR secret of the zone with root `Z`, or for an
address in one of that zone's networks (`Authorised`). The two lookups do not say so: `GetTSIGSecret`
takes a secret of any zone by its id, and `CheckIPACL` asks the zone that `find_zone` settles on,
whose root may be above `Z`, about an address in which `::a.b.c.d` has become `a.b.c.d`.

`guarded_iff` says for which requests this makes no difference. A message that answers with a record
other than the SOA is sent exactly if the file has such a record that can be signed and encoded
(`Reaches`) and the lookups let the request through (`LetThrough`). -/

namespace HexDns.Axfr.Authorised

open HexDns.Lib.Texts HexDns.Lib.Tables HexDns.Lib.Programs HexDns.Base.Py HexDns.Base.Label
  HexDns.Base.Message HexDns.Models.Db HexDns.Models.Env HexDns.Grpc.FindZone HexDns.Axfr.Access
  HexDns.Axfr.Server

section
variable (s : Server) (h : Host) (dir : Text → Option Text) (now : ℕ) (clock : ℕ → ℕ) (addr : IpAddr)
  (msg : Request) (st : Store)

/-! ### Authorised requests -/

/-- The zone with primary key `k` has root `z`. -/
def ZoneHasRoot (k : ℕ) (z : DnsLabel) : Prop :=
  ∃ zone ∈ st.zones, zone.id = k ∧ ∃ root, DnsLabel.ofText h.py zone.zoneRoot = .ok root ∧ root.Eqv z

/-- The time of the TSIG is within its fudge. -/
def Timely (sig : Tsig) : Prop := ((now : ℤ) - sig.time).natAbs ≤ sig.fudge

/-- The MAC of the TSIG verifies under the secret. -/
def Verifies (signedData : Bytes) (sig : Tsig) (secret : Bytes) : Prop :=
  sig.algorithm.supported = true ∧ s.hmac sig.algorithm secret signedData = sig.mac

/-- The source address, an IPv4 address for `::ffff:a.b.c.d`. -/
def sourceAddr : IpAddr → IpAddr
  | .v4 a => .v4 a
  | .v6 a => if a.toNat / 2 ^ 32 = 0xffff then .v4 (BitVec.ofNat 32 a.toNat) else .v6 a

/-- A secret of the zone verifies. -/
def SecretOfZone (signedData : Bytes) (sig : Tsig) : Prop :=
  ∃ key ∈ st.axfrSecrets, ZoneHasRoot h st key.zone msg.query.name ∧
    Verifies s signedData sig key.secret

/-- A network of the zone has the source address. -/
def NetworkOfZone : Prop :=
  ∃ acl ∈ st.axfrIpAcl, ZoneHasRoot h st acl.zone msg.query.name ∧
    ∃ network, AxfrIpAcl.network acl = some network ∧ network.contains (sourceAddr addr) = true

/-- **The request may have the zone.** -/
def Authorised : Prop :=
  match msg.signature with
  | .unsigned => NetworkOfZone h addr msg st
  | .unreadable => False
  | .tsig signedData sig => Timely now sig ∧ SecretOfZone s h msg st signedData sig

/-- The record is the SOA of the zone. -/
def IsSoa (z : DnsLabel) (r : Record) : Prop := r.recordType = .soa ∧ r.name.Eqv z

/-- **If an AXFR query is answered with more than the SOA, it is authorised.** -/
def Guarded : Prop :=
  msg.query.queryType = .axfr →
    (∃ m ∈ (handleRequest s h dir now clock addr msg st).1, ∃ r ∈ m.answers, ¬ IsSoa msg.query.name r) →
      Authorised s h now addr msg st

/-! ### What the server checks -/

/-- The TSIG context of a request whose MAC verifies. -/
def contextOf (sig : Tsig) (secret : Bytes) : TsigContext :=
  ⟨sig.name, sig.algorithm, secret, sig.mac, true⟩

/-- The messages can be signed one after the other, from the first context to the second. -/
inductive Signs : (ℕ → ℕ) → Option TsigContext → List Message → Option TsigContext → Prop
  | nil (clock ctx) : Signs clock ctx [] ctx
  | cons {clock ctx ctx' ctx'' m m' ms} : signMessage s (clock 0) m ctx = some (m', ctx') →
      Signs (fun i => clock (i + 1)) ctx' ms ctx'' → Signs clock ctx (m :: ms) ctx''

/-- A message of the list, with a record that satisfies `p`, is signed and encoded in its turn. -/
def Sends (ctx : Option TsigContext) (p : Record → Prop) (ms : List Message) : Prop :=
  ∃ pre m post, ms = pre ++ m :: post ∧ (∃ r ∈ m.answers, p r) ∧ ∃ ctx', Signs s clock ctx pre ctx' ∧
    ∃ m' ctx'', signMessage s (clock pre.length) m ctx' = some (m', ctx'') ∧ (s.serialise m').isSome

/-- The zone file has a record other than the SOA that can be sent with this TSIG context. -/
def Reaches (ctx : Option TsigContext) : Prop :=
  msg.wellFormed = true ∧ msg.query.queryType = .axfr ∧
    ∃ soa zoneFile, readZoneFile s dir msg = .ok (soa, zoneFile) ∧
      Sends s clock ctx (fun r => ¬ IsSoa msg.query.name r) (transfer msg soa zoneFile)

/-- The lookups let the request through, with this TSIG context. -/
def LetThrough (ctx : Option TsigContext) : Prop :=
  match msg.signature with
  | .unsigned => ctx = none ∧
      ∃ acl, findAcl h st (s.display msg.query.name) (some (aclAddr addr)) = .ok (some acl)
  | .unreadable => False
  | .tsig signedData sig => Timely now sig ∧
      ∃ key, findTsigKey h st (s.display sig.name) = .ok key ∧
        Verifies s signedData sig key.secret ∧ ctx = some (contextOf sig key.secret)

/-- **The lookups let the request through, with this TSIG context, for another zone**: the secret
found is of a zone with another root, and no secret of the zone verifies; or the network found is of
a zone with another root, or has the address only as `to_ipv4` gives it, and no network of the zone
has the source address. -/
def Misdirected (ctx : Option TsigContext) : Prop :=
  match msg.signature with
  | .unsigned => ctx = none ∧
      ∃ acl, findAcl h st (s.display msg.query.name) (some (aclAddr addr)) = .ok (some acl) ∧
        (¬ ZoneHasRoot h st acl.zone msg.query.name ∨ aclAddr addr ≠ sourceAddr addr) ∧
          ¬ NetworkOfZone h addr msg st
  | .unreadable => False
  | .tsig signedData sig => Timely now sig ∧
      ∃ key, findTsigKey h st (s.display sig.name) = .ok key ∧
        Verifies s signedData sig key.secret ∧ ctx = some (contextOf sig key.secret) ∧
          ¬ ZoneHasRoot h st key.zone msg.query.name ∧ ¬ SecretOfZone s h msg st signedData sig

end

/-! ### The messages that are sent -/

theorem answers_signMessage {s : Server} {now : ℕ} {m m' : Message}
    {ctx ctx' : Option TsigContext} (h : signMessage s now m ctx = some (m', ctx')) :
    m'.answers = m.answers := by
  rcases ctx with _ | ctx
  · cases h; rfl
  · simp only [signMessage, Option.bind_eq_bind, Option.bind_eq_some_iff] at h
    obtain ⟨_, -, _, -, h⟩ := h
    cases h; rfl

theorem mem_sendResponse {s : Server} {m x : Message} :
    x ∈ sendResponse s m ↔ x = m ∧ (s.serialise m).isSome := by
  unfold sendResponse
  split_ifs with h
  · simp [h]
  · simp [h]

theorem exists_signAndSend {s : Server} {clock : ℕ → ℕ} {msg : Request} {p : Record → Prop}
    {ctx : Option TsigContext} {ms : List Message} :
    (∃ m ∈ signAndSend s clock msg ctx ms, ∃ r ∈ m.answers, p r) ↔ Sends s clock ctx p ms := by
  induction ms generalizing clock ctx with
  | nil => simp [signAndSend, Sends]
  | cons m ms ih =>
    rcases hs : signMessage s (clock 0) m ctx with _ | ⟨m', ctx'⟩
    · simp only [signAndSend, hs]
      constructor
      · rintro ⟨x, hx, r, hr, -⟩
        obtain ⟨rfl, -⟩ := mem_sendResponse.mp hx
        cases hr
      · rintro ⟨pre, m₁, post, he, -, ctx₁, hpre, m₁', ctx₁', hm, -⟩
        rcases hpre with _ | ⟨h₁, h₂⟩
        · cases he
          rw [List.length_nil, hs] at hm
          cases hm
        · cases he; rw [hs] at h₁; cases h₁
    · simp only [signAndSend, hs, List.mem_append]
      constructor
      · rintro ⟨x, hx | hx, hr⟩
        · obtain ⟨rfl, hser⟩ := mem_sendResponse.mp hx
          rw [answers_signMessage hs] at hr
          exact ⟨[], m, ms, rfl, hr, ctx, .nil clock ctx, x, ctx', hs, hser⟩
        · obtain ⟨pre, m₁, post, rfl, hr, ctx₁, hpre, hm⟩ := ih.mp ⟨x, hx, hr⟩
          exact ⟨m :: pre, m₁, post, rfl, hr, ctx₁, .cons hs hpre, hm⟩
      · rintro ⟨pre, m₁, post, he, hr, ctx₁, hpre, m₁', ctx₁', hm, hser⟩
        rcases hpre with _ | ⟨h₁, h₂⟩
        · cases he
          rw [List.length_nil, hs] at hm
          cases hm
          rw [← answers_signMessage hs] at hr
          exact ⟨m', Or.inl (mem_sendResponse.mpr ⟨rfl, hser⟩), hr⟩
        · cases he
          rw [hs] at h₁
          cases h₁
          obtain ⟨x, hx, hr⟩ := ih.mpr ⟨_, m₁, post, rfl, hr, ctx₁, h₂, m₁', ctx₁', hm, hser⟩
          exact ⟨x, Or.inr hx, hr⟩

/-! ### The two lookups -/

theorem mem_of_findAclIn {ip : IpAddr} {acls : List AxfrIpAcl} {acl : AxfrIpAcl}
    (h : findAclIn ip acls = .ok (some acl)) :
    acl ∈ acls ∧ ∃ network, AxfrIpAcl.network acl = some network ∧ network.contains ip = true := by
  induction acls with
  | nil => cases h
  | cons a acls ih =>
    unfold findAclIn at h
    rcases hn : AxfrIpAcl.network a with _ | network
    · rw [hn] at h; cases h
    · rw [hn] at h
      change (if _ then _ else _) = _ at h
      split_ifs at h with hc
      · cases h
        exact ⟨List.mem_cons_self, network, hn, hc⟩
      · exact ⟨List.mem_cons_of_mem _ (ih h).1, (ih h).2⟩

theorem mem_of_findAcl {h : Host} {st : Store} {zoneName : Text} {ip : IpAddr} {acl : AxfrIpAcl}
    (hf : findAcl h st zoneName (some ip) = .ok (some acl)) :
    acl ∈ st.axfrIpAcl ∧
      ∃ network, AxfrIpAcl.network acl = some network ∧ network.contains ip = true := by
  unfold findAcl at hf
  rcases hl : DnsLabel.ofText h.py zoneName with e | l
  · rw [hl] at hf; cases hf
  rw [hl] at hf
  change (do let found ← (findZone h st l).mapError _; _) = _ at hf
  rcases hz : findZone h st l with e | _ | ⟨zone, label⟩
  · rw [hz] at hf; cases hf
  · rw [hz] at hf; cases hf
  · rw [hz] at hf
    obtain ⟨hm, hn⟩ := mem_of_findAclIn hf
    exact ⟨(List.mem_filter.mp hm).1, hn⟩

theorem mem_of_findTsigKey {h : Host} {st : Store} {keyName : Text} {key : AxfrSecret}
    (hf : findTsigKey h st keyName = .ok key) : key ∈ st.axfrSecrets := by
  unfold findTsigKey at hf
  obtain ⟨l, hl, hf⟩ := bind_eq_ok.mp hf
  obtain ⟨found, hfound, hf⟩ := bind_eq_ok.mp hf
  rcases found with _ | ⟨zone, label⟩
  · cases hf
  dsimp only at hf
  rcases hk : h.axfrKeyId (stripBy (· = '.') label.toText) with _ | id
  · rw [hk] at hf; cases hf
  rw [hk] at hf
  dsimp only at hf
  rcases hg : getRow st.axfrSecrets id with _ | k
  · rw [hg] at hf; cases hf
  rw [hg] at hf
  cases hf
  exact (getRow_eq_some.mp hg).1

/-! ### The handler -/

section
variable {s : Server} {h : Host} {dir : Text → Option Text} {now : ℕ} {clock : ℕ → ℕ} {addr : IpAddr}
  {msg : Request} {st : Store}

theorem verifySignature_tsig {signedData : Bytes} {sig : Tsig}
    (hs : msg.signature = .tsig signedData sig) {ctx : Option TsigContext} :
    (verifySignature s h now msg st).1 = .ok ctx ↔ Timely now sig ∧
      ∃ key, findTsigKey h st (s.display sig.name) = .ok key ∧
        Verifies s signedData sig key.secret ∧ ctx = some (contextOf sig key.secret) := by
  have hrun := run_getTsigSecret h now (s.display sig.name) st
  unfold verifySignature Timely Verifies
  rw [hs]
  dsimp only
  by_cases ht : ((now : ℤ) - sig.time).natAbs > sig.fudge
  · rw [if_pos ht]
    exact ⟨fun h' => (nomatch h'), fun h' => absurd h'.1 (by omega)⟩
  rw [if_neg ht]
  rcases hr : run (getTsigSecret h now (s.display sig.name)) st with ⟨e | secret, st'⟩
  · rw [hr] at hrun
    constructor
    · intro h'; cases h'
    · rintro ⟨-, key, hkey, -⟩
      rw [hkey] at hrun; cases hrun
  · rw [hr] at hrun
    obtain ⟨key, hkey, hsec⟩ : ∃ key, findTsigKey h st (s.display sig.name) = .ok key ∧
        key.secret = secret := by
      rcases hf : findTsigKey h st (s.display sig.name) with e | key
      · rw [hf] at hrun; cases hrun
      · rw [hf] at hrun; exact ⟨key, rfl, (Except.ok.inj hrun).symm⟩
    subst hsec
    dsimp only
    have hu : ∀ key', findTsigKey h st (s.display sig.name) = .ok key' → key' = key :=
      fun key' h' => Except.ok.inj (h'.symm.trans hkey)
    by_cases ha : sig.algorithm.supported = true
    swap
    · rw [if_neg ha]
      exact ⟨fun h' => (nomatch h'), fun ⟨_, _, _, hv, _⟩ => absurd hv.1 ha⟩
    rw [if_pos ha]
    by_cases hm : sig.mac = s.hmac sig.algorithm key.secret signedData
    · rw [if_pos hm]
      constructor
      · intro h'
        exact ⟨by omega, key, hkey, ⟨ha, hm.symm⟩, (Except.ok.inj h').symm⟩
      · rintro ⟨-, key', hkey', -, rfl⟩
        rw [hu key' hkey']; rfl
    · rw [if_neg hm]
      constructor
      · intro h'; cases h'
      · rintro ⟨-, key', hkey', ⟨-, hv⟩, -⟩
        rw [hu key' hkey'] at hv; exact absurd hv.symm hm

theorem answers_fail {code : ResponseCode} {p : Record → Prop} :
    ¬ ∃ m ∈ sendResponse s (errorMsg msg code), ∃ r ∈ m.answers, p r := by
  rintro ⟨m, hm, r, hr, -⟩
  obtain ⟨rfl, -⟩ := mem_sendResponse.mp hm
  cases hr

/-- The transfer of a request that is let through. -/
theorem handleRequest_of_letThrough {soa : RecordSet} {zoneFile : ZoneFile} {ctx : Option TsigContext}
    (hw : msg.wellFormed = true) (hq : msg.query.queryType = .axfr)
    (hz : readZoneFile s dir msg = .ok (soa, zoneFile)) (hl : LetThrough s h now addr msg st ctx) :
    (handleRequest s h dir now clock addr msg st).1 = signAndSend s clock msg ctx (transfer msg soa zoneFile) := by
  have hns : msg.query.queryType ≠ .soa := by rw [hq]; exact fun h => nomatch h
  unfold handleRequest
  dsimp only
  rw [if_pos hw, hz]
  dsimp only
  unfold LetThrough at hl
  rcases hsig : msg.signature with _ | _ | ⟨signedData, sig⟩
  · -- an unsigned request: the networks decide
    rw [hsig] at hl
    obtain ⟨rfl, acl, hacl⟩ := hl
    have hv : verifySignature s h now msg st = (.ok none, st) := by
      unfold verifySignature; rw [hsig]
    have hrun := run_checkIpAcl h now (s.display msg.query.name) (some (aclAddr addr)) st
    rw [hacl] at hrun
    rw [hv]
    dsimp only
    rw [if_neg hns, if_pos Option.isNone_none]
    rcases hr : run (checkIpAcl h now (s.display msg.query.name) (some (aclAddr addr))) st
      with ⟨e | ok, st'⟩
    · rw [hr] at hrun; cases hrun
    · rw [hr] at hrun
      obtain rfl : ok = true := Except.ok.inj hrun
      rfl
  · rw [hsig] at hl; exact hl.elim
  · -- a signed request: the secret decides
    rw [hsig] at hl
    have hv : (verifySignature s h now msg st).1 = .ok ctx := (verifySignature_tsig hsig).mpr hl
    have hsome : ctx.isNone = false := by
      obtain ⟨-, key, -, -, rfl⟩ := hl; rfl
    rcases hr : verifySignature s h now msg st with ⟨code | ctx', st'⟩
    · rw [hr] at hv; cases hv
    · rw [hr] at hv
      obtain rfl : ctx' = ctx := Except.ok.inj hv
      dsimp only
      rw [if_neg hns, if_neg (by rw [hsome]; exact Bool.false_ne_true)]

/-- A request that the lookups do not let through is answered with an error. -/
theorem letThrough_of_answers {p : Record → Prop} {soa : RecordSet} {zoneFile : ZoneFile}
    (hw : msg.wellFormed = true) (hq : msg.query.queryType = .axfr)
    (hz : readZoneFile s dir msg = .ok (soa, zoneFile))
    (hanswers : ∃ m ∈ (handleRequest s h dir now clock addr msg st).1, ∃ r ∈ m.answers, p r) :
    ∃ ctx, LetThrough s h now addr msg st ctx := by
  have hns : msg.query.queryType ≠ .soa := by rw [hq]; exact fun h => nomatch h
  unfold handleRequest at hanswers
  dsimp only at hanswers
  rw [if_pos hw, hz] at hanswers
  dsimp only at hanswers
  unfold LetThrough
  rcases hsig : msg.signature with _ | _ | ⟨signedData, sig⟩
  · have hv : verifySignature s h now msg st = (.ok none, st) := by
      unfold verifySignature; rw [hsig]
    have hrun := run_checkIpAcl h now (s.display msg.query.name) (some (aclAddr addr)) st
    rw [hv] at hanswers
    dsimp only at hanswers
    rw [if_neg hns, if_pos Option.isNone_none] at hanswers
    rcases hr : run (checkIpAcl h now (s.display msg.query.name) (some (aclAddr addr))) st
      with ⟨e | ok, st'⟩
    · rw [hr] at hanswers
      exact absurd hanswers answers_fail
    rw [hr] at hrun hanswers
    rcases hacl : findAcl h st (s.display msg.query.name) (some (aclAddr addr)) with e | _ | acl
    · rw [hacl] at hrun; cases hrun
    · rw [hacl] at hrun
      obtain rfl : ok = false := Except.ok.inj hrun
      exact absurd hanswers answers_fail
    · exact ⟨none, rfl, acl, rfl⟩
  · have hv : verifySignature s h now msg st = (.error .badSig, st) := by
      unfold verifySignature; rw [hsig]
    rw [hv] at hanswers
    exact absurd hanswers answers_fail
  · rcases hr : verifySignature s h now msg st with ⟨code | ctx, st'⟩
    · rw [hr] at hanswers
      exact absurd hanswers answers_fail
    · exact ⟨ctx, (verifySignature_tsig hsig).mp (by rw [hr])⟩

/-- **When an AXFR query is answered with more than the SOA**: it is let through, and the file has
such a record that can be sent. -/
theorem leaks_iff (hq : msg.query.queryType = .axfr) :
    (∃ m ∈ (handleRequest s h dir now clock addr msg st).1, ∃ r ∈ m.answers, ¬ IsSoa msg.query.name r) ↔
      ∃ ctx, LetThrough s h now addr msg st ctx ∧ Reaches s dir clock msg ctx := by
  constructor
  · intro hleak
    by_cases hw : msg.wellFormed = true
    swap
    · unfold handleRequest at hleak
      rw [if_neg hw] at hleak
      exact absurd hleak answers_fail
    rcases hz : readZoneFile s dir msg with (_ | _) | ⟨soa, zoneFile⟩
    · unfold handleRequest at hleak
      rw [if_pos hw, hz] at hleak
      exact absurd hleak answers_fail
    · unfold handleRequest at hleak
      rw [if_pos hw, hz] at hleak
      obtain ⟨_, hmem, -⟩ := hleak
      cases hmem
    obtain ⟨ctx, hl⟩ := letThrough_of_answers hw hq hz hleak
    rw [handleRequest_of_letThrough hw hq hz hl] at hleak
    exact ⟨ctx, hl, hw, hq, soa, zoneFile, hz, exists_signAndSend.mp hleak⟩
  · rintro ⟨ctx, hl, hw, -, soa, zoneFile, hz, hsends⟩
    rw [handleRequest_of_letThrough hw hq hz hl]
    exact exists_signAndSend.mpr hsends

/-- A request that is let through is authorised unless it is for another zone. -/
theorem authorised_iff {ctx : Option TsigContext} (hl : LetThrough s h now addr msg st ctx) :
    Authorised s h now addr msg st ↔ ¬ Misdirected s h now addr msg st ctx := by
  unfold LetThrough at hl
  unfold Authorised Misdirected
  rcases hsig : msg.signature with _ | _ | ⟨signedData, sig⟩
  · rw [hsig] at hl
    obtain ⟨rfl, acl, hacl⟩ := hl
    constructor
    · rintro hn ⟨-, acl', -, -, hn'⟩
      exact hn' hn
    · intro hm
      by_contra hn
      refine hm ⟨rfl, acl, hacl, ?_, hn⟩
      by_contra hc
      rw [not_or, not_not, not_not] at hc
      obtain ⟨hmem, network, hnet, hin⟩ := mem_of_findAcl hacl
      exact hn ⟨acl, hmem, hc.1, network, hnet, hc.2 ▸ hin⟩
  · rw [hsig] at hl; exact hl.elim
  · rw [hsig] at hl
    obtain ⟨ht, key, hkey, hver, rfl⟩ := hl
    constructor
    · rintro ⟨-, hs⟩ ⟨-, key', -, -, -, -, hs'⟩
      exact hs' hs
    · intro hm
      refine ⟨ht, ?_⟩
      by_contra hs
      exact hm ⟨ht, key, hkey, hver, rfl,
        fun hz => hs ⟨key, mem_of_findTsigKey hkey, hz, hver⟩, hs⟩

theorem letThrough_of_misdirected {ctx : Option TsigContext}
    (hm : Misdirected s h now addr msg st ctx) : LetThrough s h now addr msg st ctx := by
  unfold Misdirected at hm
  unfold LetThrough
  rcases hsig : msg.signature with _ | _ | ⟨signedData, sig⟩
  · rw [hsig] at hm
    exact ⟨hm.1, hm.2.choose, hm.2.choose_spec.1⟩
  · rw [hsig] at hm; exact hm
  · rw [hsig] at hm
    obtain ⟨ht, key, hkey, hver, hctx, -⟩ := hm
    exact ⟨ht, key, hkey, hver, hctx⟩

end

/-- **Transfers are guarded exactly for the requests that the lookups do not let through for another
zone**, as far as the zone file has a record to send. -/
theorem guarded_iff (s : Server) (h : Host) (dir : Text → Option Text) (now : ℕ) (clock : ℕ → ℕ)
    (addr : IpAddr) (msg : Request) (st : Store) :
    Guarded s h dir now clock addr msg st ↔
      ¬ ∃ ctx, Misdirected s h now addr msg st ctx ∧ Reaches s dir clock msg ctx := by
  constructor
  · rintro hg ⟨ctx, hm, hr⟩
    have hl := letThrough_of_misdirected hm
    exact (authorised_iff hl).mp (hg hr.2.1 ((leaks_iff hr.2.1).mpr ⟨ctx, hl, hr⟩)) hm
  · intro hn hq hleak
    obtain ⟨ctx, hl, hr⟩ := (leaks_iff hq).mp hleak
    exact (authorised_iff hl).mpr fun hm => hn ⟨ctx, hm, hr⟩

/-! ### A secret of another zone -/

def aExample : DnsLabel := ⟨[encode "a".toList, encode "example".toList]⟩

def bExample : DnsLabel := ⟨[encode "b".toList, encode "example".toList]⟩

/-- The zones `a.example` and `b.example`, and a secret of the first. -/
def twoZones : Store :=
  { Store.empty with
    zones := (Table.empty.save ⟨1, "a.example".toList, false⟩).save ⟨2, "b.example".toList, false⟩
    axfrSecrets := Table.empty.save ⟨7, 1, [1], none⟩ }

def soaOfB : Record := ⟨bExample, .soa, .in, 86400, []⟩

def addressOfB : Record := ⟨bExample, .a, .in, 86400, [192, 0, 2, 1]⟩

/-- A server that finds an SOA and an address in every zone file. -/
def serverOfB : Server where
  display l := l.toText
  parse _ name := .ok (name, [(⟨bExample, .soa⟩, ⟨[soaOfB], [soaOfB]⟩),
    (⟨bExample, .a⟩, ⟨[addressOfB], [addressOfB]⟩)])
  hmac _ key data := key ++ data
  emit _ := some []
  emitTsigForMac _ _ := some []
  serialise _ := some []

/-- An AXFR query for `b.example`, signed with the secret of `a.example`. -/
def signedForA : Request :=
  { id := 1, isQuery := true, opCode := .query, responseCode := .noError, queryCount := 1
    answerCount := 0, nameServerCount := 0, recursionDesired := false
    signature := .tsig [2] ⟨⟨encode "7".toList :: aExample.label⟩, .hmacSha256, 1000, 300, [1, 2], 1⟩
    query := ⟨bExample, .axfr, .in⟩ }

/-- The server gives `b.example` to the holder of a secret of `a.example`. -/
theorem not_guarded_twoZones :
    ¬ Guarded serverOfB .ascii (fun _ => some []) 1000 (fun _ => 1000) (.v4 0) signedForA twoZones := by
  intro hg
  have hsent : ∃ m ∈ (handleRequest serverOfB .ascii (fun _ => some []) 1000 (fun _ => 1000) (.v4 0) signedForA
      twoZones).1, addressOfB ∈ m.answers := by decide
  obtain ⟨m, hm, hr⟩ := hsent
  obtain ⟨-, key, hkey, ⟨zone, hzone, hid, root, hroot, heq⟩, -⟩ :=
    hg rfl ⟨m, hm, addressOfB, hr, fun h => nomatch h.1⟩
  obtain rfl : key = ⟨7, 1, [1], none⟩ := List.mem_singleton.mp hkey
  have hz : zone ∈ [⟨1, "a.example".toList, false⟩, ⟨2, "b.example".toList, false⟩] := hzone
  simp only [List.mem_cons, List.not_mem_nil, or_false] at hz
  rcases hz with rfl | rfl
  · obtain rfl : root = aExample := Except.ok.inj (hroot.symm.trans (by decide))
    exact absurd heq (by decide)
  · exact absurd hid (by decide)

end HexDns.Axfr.Authorised
