import HexDns.Axfr.Authorised
import HexDns.Axfr.Parser

/-! # Transfers are complete, and clients accept them

The messages of a transfer whose steps report no error: they begin and end with the SOA of the parsed
zone, and the answers between are its other records, each once (`Complete`). A client that follows
RFC 8945, section 5.3.1, keeps the MAC of the message before (`Client`), beginning with that of its
request, and it accepts each message in turn: `TsigContext` and `Client` are in step. -/

namespace HexDns.Axfr.Transfers

open HexDns.Lib.Texts HexDns.Lib.Tables HexDns.Lib.Programs HexDns.Base.Label HexDns.Base.Message HexDns.Models.Db
  HexDns.Models.Env HexDns.Axfr.Access HexDns.Axfr.Server HexDns.Axfr.Authorised HexDns.Axfr.Parser

/-! ### The statement -/

/-- The server with the zone file parser. -/
def reading (s : Server) (lib : Library) : Server :=
  { s with parse := fun contents origin =>
      (Parser.parse lib contents origin).map fun found => (found.1, zoneFile found.2) }

/-- The records of a parsed zone. -/
def zoneRecords (records : Records) : List Record := records.toList.flatMap (·.2)

/-- **The messages are a whole transfer of the records**: the SOA of the origin, the other records one by
one, and the SOA again. -/
def Complete (origin : DnsLabel) (records : List Record) (sent : List Message) : Prop :=
  ∃ soa first middle last, sent = first :: middle ++ [last] ∧ soa.recordType = .soa ∧
    soa.name.lower = origin.lower ∧ first.answers = [soa] ∧ last.answers = [soa] ∧
      (soa :: middle.flatMap (·.answers)).Perm records

/-- What a client verifies the messages of a TCP connection with: the key of its request, and the MAC of
the message before. -/
structure Client where
  name : DnsLabel
  algorithm : TsigAlgorithm
  key : Bytes
  priorMac : Bytes
  first : Bool
  deriving DecidableEq, Repr

section
variable (s : Server)

/-- The timers of a TSIG: the time in 48 bits and the fudge. -/
def timers (t : Tsig) : Bytes := emitUint 6 t.time ++ emitUint 2 t.fudge

/-- The data that the MAC of a message is over. -/
def Client.macData (c : Client) (m : Message) (t : Tsig) : Option Bytes :=
  (s.emit { m with tsig := none }).bind fun body =>
    (if c.first then s.emitTsigForMac { t with mac := [] } t.name else some (timers t)).map fun tail =>
      emitUint 2 c.priorMac.length ++ c.priorMac ++ body ++ tail

/-- The client accepts a message if its MAC verifies. -/
def Client.accept (c : Client) (m : Message) : Option Client :=
  match m.tsig with
  | none => none
  | some t =>
    if t.name = c.name ∧ t.algorithm = c.algorithm ∧
        (c.macData s m t).map (s.hmac c.algorithm c.key) = some t.mac then
      some { c with priorMac := t.mac, first := false }
    else none

/-- **The client accepts every message**, in this order. -/
def Client.acceptsAll (c : Client) : List Message → Bool
  | [] => true
  | m :: ms =>
    match c.accept s m with
    | none => false
    | some c' => c'.acceptsAll ms

/-- The messages that are sent if each of them is signed and encoded. -/
def sendAll : (ℕ → ℕ) → Option TsigContext → List Message → Option (List Message)
  | _, _, [] => some []
  | clock, ctx, m :: ms =>
    match signMessage s (clock 0) m ctx with
    | none => none
    | some (m', ctx') =>
      if (s.serialise m').isSome then (sendAll (fun i => clock (i + 1)) ctx' ms).map (m' :: ·) else none

/-- **No step of the transfer reports an error**: the request is one that the server answers, the lookups
let it through with this TSIG context, the SOA is found, and each message is signed and encoded. -/
structure NoError (h : Host) (dir : Text → Option Text) (now : ℕ) (clock : ℕ → ℕ) (addr : IpAddr)
    (msg : Request) (st : Store) (ctx : Option TsigContext) : Prop where
  wellFormed : msg.wellFormed = true
  letThrough : LetThrough s h now addr msg st ctx
  sends : ∃ soa zoneFile, readZoneFile s dir msg = .ok (soa, zoneFile) ∧
    (sendAll s clock ctx (transfer msg soa zoneFile)).isSome

end

/-! ### The messages that are sent -/

section
variable {s : Server} {clock : ℕ → ℕ} {ctx : Option TsigContext} {ms sent : List Message}

theorem signAndSend_of_sendAll {msg : Request} (h : sendAll s clock ctx ms = some sent) :
    signAndSend s clock msg ctx ms = sent := by
  induction ms generalizing clock ctx sent with
  | nil => exact Option.some.inj h
  | cons m ms ih =>
    unfold sendAll at h
    unfold signAndSend
    rcases hsign : signMessage s (clock 0) m ctx with _ | ⟨m', ctx'⟩
    · rw [hsign] at h
      cases h
    rw [hsign] at h
    dsimp only at h ⊢
    split_ifs at h with hser
    obtain ⟨sent', hsent', rfl⟩ := Option.map_eq_some_iff.mp h
    rw [ih hsent', sendResponse, if_pos hser]
    rfl

theorem map_answers_of_sendAll (h : sendAll s clock ctx ms = some sent) :
    sent.map (·.answers) = ms.map (·.answers) := by
  induction ms generalizing clock ctx sent with
  | nil =>
    obtain rfl := Option.some.inj h
    rfl
  | cons m ms ih =>
    unfold sendAll at h
    rcases hsign : signMessage s (clock 0) m ctx with _ | ⟨m', ctx'⟩
    · rw [hsign] at h
      cases h
    rw [hsign] at h
    dsimp only at h
    split_ifs at h with hser
    obtain ⟨sent', hsent', rfl⟩ := Option.map_eq_some_iff.mp h
    rw [List.map_cons, List.map_cons, ih hsent', answers_signMessage hsign]

end

/-! ### The client -/

/-- The time in two parts and in one. -/
theorem emitUint_time (t : ℕ) : emitUint 2 (t / 2 ^ 32) ++ emitUint 4 t = emitUint 6 t := by
  have hdiv : t / 4294967296 / 256 = t / 1099511627776 := Nat.div_div_eq_div_mul t _ _
  simp [emitUint, List.range_succ, hdiv]

section
variable {s : Server} {ctx ctx' : TsigContext}

/-- The client that has accepted what the server has signed so far. -/
def clientOf (ctx : TsigContext) : Client := ⟨ctx.name, ctx.algorithm, ctx.key, ctx.hash, ctx.first⟩

/-- **A message that is signed is accepted**, and the client stays in step. -/
theorem accept_signMessage {now : ℕ} {m m' : Message} {o : Option TsigContext} (hm : m.tsig = none)
    (h : signMessage s now m (some ctx) = some (m', o)) :
    ∃ ctx', o = some ctx' ∧ (clientOf ctx).accept s m' = some (clientOf ctx') := by
  unfold signMessage at h
  dsimp only at h
  obtain ⟨body, hbody, h⟩ := Option.bind_eq_some_iff.mp h
  obtain ⟨tail, htail, h⟩ := Option.bind_eq_some_iff.mp h
  obtain ⟨rfl, rfl⟩ := Prod.mk.inj (Option.some.inj h)
  refine ⟨_, rfl, ?_⟩
  have htail : (if ctx.first then s.emitTsigForMac ⟨ctx.name, ctx.algorithm, now, 300, [], m.id⟩ ctx.name
      else some (timers ⟨ctx.name, ctx.algorithm, now, 300, [], m.id⟩)) = some tail := by
    rw [← htail]
    unfold macTail timers
    rw [emitUint_time]
  have hdata : ∀ mac, (clientOf ctx).macData s { m with tsig := some ⟨ctx.name, ctx.algorithm, now, 300, mac, m.id⟩ }
      ⟨ctx.name, ctx.algorithm, now, 300, mac, m.id⟩ =
        some (emitUint 2 ctx.hash.length ++ ctx.hash ++ body ++ tail) := by
    intro mac
    have hplain : ({ m with tsig := none } : Message) = m := by rw [← hm]
    show (s.emit { m with tsig := none }).bind _ = _
    rw [hplain, hbody, Option.bind_some]
    show Option.map _ (if ctx.first then s.emitTsigForMac _ ctx.name else some (timers _)) = _
    rw [show timers ⟨ctx.name, ctx.algorithm, now, 300, mac, m.id⟩ =
      timers ⟨ctx.name, ctx.algorithm, now, 300, [], m.id⟩ from rfl, htail]
    rfl
  unfold Client.accept
  dsimp only
  rw [if_pos ⟨rfl, rfl, by rw [hdata]; rfl⟩]
  rfl

theorem acceptsAll_of_sendAll {clock : ℕ → ℕ} {ms sent : List Message} (hms : ∀ m ∈ ms, m.tsig = none)
    (h : sendAll s clock (some ctx) ms = some sent) : (clientOf ctx).acceptsAll s sent = true := by
  induction ms generalizing clock ctx sent with
  | nil =>
    obtain rfl := Option.some.inj h
    rfl
  | cons m ms ih =>
    unfold sendAll at h
    rcases hsign : signMessage s (clock 0) m (some ctx) with _ | ⟨m', o⟩
    · rw [hsign] at h
      cases h
    rw [hsign] at h
    dsimp only at h
    split_ifs at h with hser
    obtain ⟨sent', hsent', rfl⟩ := Option.map_eq_some_iff.mp h
    obtain ⟨ctx', rfl, haccept⟩ := accept_signMessage (hms m List.mem_cons_self) hsign
    unfold Client.acceptsAll
    rw [haccept]
    exact ih (fun x hx => hms x (List.mem_cons_of_mem m hx)) hsent'

end

/-! ### The records -/

theorem perm_removeKey {key : RrKey} {set : RecordSet} {zf rest : ZoneFile} (hnodup : (zf.map (·.1)).Nodup)
    (h : removeKey key zf = some (set, rest)) : ((key, set) :: rest).Perm zf := by
  induction zf generalizing set rest with
  | nil => cases h
  | cons e zf ih =>
    obtain ⟨hnot, hnodup⟩ := List.nodup_cons.mp hnodup
    unfold removeKey at h
    by_cases hkey : e.1 = key
    · rw [List.find?_cons_of_pos (by simpa using hkey)] at h
      obtain ⟨rfl, rfl⟩ := Prod.mk.inj (Option.some.inj h)
      have hrest : zf.filter (fun e => e.1 ≠ key) = zf := by
        rw [List.filter_eq_self]
        intro e' he'
        have hne : e'.1 ≠ key := by
          intro heq
          exact hnot (List.mem_map.mpr ⟨e', he', heq.trans hkey.symm⟩)
        simpa using hne
      rw [List.filter_cons_of_neg (by simpa using hkey), hrest, ← hkey]
    · rw [List.find?_cons_of_neg (by simpa using hkey)] at h
      rcases hfind : zf.find? (fun e => e.1 = key) with _ | found
      · rw [hfind] at h
        cases h
      rw [hfind] at h
      obtain ⟨rfl, rfl⟩ := Prod.mk.inj (Option.some.inj h)
      have hremove : removeKey key zf = some (found.2, zf.filter fun e => e.1 ≠ key) := by
        unfold removeKey
        rw [hfind]
      have hperm := ih hnodup hremove
      rw [List.filter_cons_of_pos (by simpa using hkey)]
      exact (List.Perm.swap e _ _).trans (hperm.cons e)

theorem nodup_zoneFile (records : Records) : ((zoneFile records).map (·.1)).Nodup := by
  unfold zoneFile
  rw [List.map_map, List.Nodup, List.pairwise_map]
  refine Std.TreeMap.distinct_keys_toList.imp fun {e e'} hne heq => hne ?_
  have heq : e.1 = e'.1 := heq
  rw [heq]
  exact Std.ReflCmp.compare_self

/-- The SOA that is taken out of the map, and the rest. -/
theorem removeKey_zoneFile {records : Records} {origin : DnsLabel} {set : RecordSet} {rest : ZoneFile}
    (hkept : Kept records) (h : removeKey ⟨⟨origin.lower⟩, .soa⟩ (zoneFile records) = some (set, rest)) :
    ∃ soa, set = ⟨[soa], [soa]⟩ ∧ soa.recordType = .soa ∧ soa.name.lower = origin.lower ∧
      (soa :: rest.flatMap (·.2.records)).Perm (zoneRecords records) := by
  have hperm := perm_removeKey (nodup_zoneFile records) h
  obtain ⟨⟨key, l⟩, hmem, he⟩ := List.mem_map.mp (hperm.mem_iff.mp List.mem_cons_self)
  obtain ⟨rfl, rfl⟩ := Prod.mk.inj he
  obtain ⟨soa, rfl, htype, hname⟩ :=
    hkept _ l (Std.TreeMap.mem_toList_iff_getElem?_eq_some.mp hmem) rfl
  refine ⟨soa, rfl, htype, hname, ?_⟩
  have hall := hperm.flatMap_right (·.2.records)
  have hzone : (zoneFile records).flatMap (·.2.records) = zoneRecords records := by
    unfold zoneFile zoneRecords
    rw [List.flatMap_map]
  rw [hzone, List.flatMap_cons] at hall
  exact hall

/-- The messages by their answers. -/
theorem complete_of_answers {origin : DnsLabel} {records sets : List Record} {soa : Record} {sent : List Message}
    (htype : soa.recordType = .soa) (hname : soa.name.lower = origin.lower) (hperm : (soa :: sets).Perm records)
    (hsent : sent.map (·.answers) = [soa] :: sets.map ([·]) ++ [[soa]]) : Complete origin records sent := by
  rw [List.cons_append, List.map_eq_cons_iff] at hsent
  obtain ⟨first, sent', rfl, hfirst, hsent⟩ := hsent
  obtain ⟨middle, ends, rfl, hmiddle, hends⟩ := List.map_eq_append_iff.mp hsent
  obtain ⟨last, rfl, hlast⟩ := List.map_eq_singleton_iff.mp hends
  refine ⟨soa, first, middle, last, rfl, htype, hname, hfirst, hlast, ?_⟩
  have hflat : middle.flatMap (·.answers) = sets := by
    rw [List.flatMap_def, hmiddle]
    exact List.flatMap_singleton' sets
  rw [hflat]
  exact hperm

section
variable {s : Server} {lib : Library} {h : Host} {dir : Text → Option Text} {now : ℕ} {clock : ℕ → ℕ}
  {addr : IpAddr} {msg : Request} {st : Store} {ctx : Option TsigContext} {contents : Text} {origin : DnsLabel}
  {records : Records}

/-- **A transfer without errors is complete, and a client accepts it.** -/
theorem complete_of_noError (hq : msg.query.queryType = .axfr)
    (hfile : dir (s.display msg.query.name ++ "zone".toList) = some contents)
    (hparse : Parser.parse lib contents msg.query.name = .ok (origin, records))
    (hno : NoError (reading s lib) h dir now clock addr msg st ctx) :
    Complete origin (zoneRecords records) (handleRequest (reading s lib) h dir now clock addr msg st).1 ∧
    ∀ signedData sig key, msg.signature = .tsig signedData sig →
      findTsigKey h st (s.display sig.name) = .ok key →
        Client.acceptsAll (reading s lib) ⟨sig.name, sig.algorithm, key.secret, sig.mac, true⟩
          (handleRequest (reading s lib) h dir now clock addr msg st).1 = true := by
  obtain ⟨hw, hl, set, rest, hz, hsome⟩ := hno
  obtain ⟨sent, hsent⟩ := Option.isSome_iff_exists.mp hsome
  rw [handleRequest_of_letThrough hw hq hz hl, signAndSend_of_sendAll hsent]
  constructor
  · have hremove : removeKey ⟨⟨origin.lower⟩, .soa⟩ (zoneFile records) = some (set, rest) := by
      unfold readZoneFile at hz
      rw [show dir ((reading s lib).display msg.query.name ++ "zone".toList) = some contents from hfile] at hz
      have hread : (reading s lib).parse contents msg.query.name = .ok (origin, zoneFile records) := by
        show (Parser.parse lib contents msg.query.name).map _ = _
        rw [hparse]
        rfl
      obtain ⟨found, hfound, hz⟩ := bind_eq_ok.mp hz
      obtain rfl := Except.ok.inj (hread.symm.trans hfound)
      rcases hremove : removeKey ⟨⟨origin.lower⟩, .soa⟩ (zoneFile records) with _ | found
      · simp only [hremove] at hz
        cases hz
      · simp only [hremove] at hz
        rw [Except.ok.inj hz]
    obtain ⟨soa, rfl, htype, hname, hperm⟩ := removeKey_zoneFile (kept_of_parse hparse) hremove
    refine complete_of_answers htype hname hperm ?_
    rw [map_answers_of_sendAll hsent]
    simp only [transfer, response, List.map_append, List.map_cons, List.map_nil, List.map_flatMap, List.map_map]
    rfl
  · intro signedData sig key hsig hkey
    unfold LetThrough at hl
    rw [hsig] at hl
    obtain ⟨-, key', hkey', -, rfl⟩ := hl
    obtain rfl : key' = key := Except.ok.inj (hkey'.symm.trans hkey)
    refine acceptsAll_of_sendAll (fun m hm => ?_) hsent
    simp only [transfer, List.mem_append, List.mem_cons, List.mem_flatMap, List.mem_map, List.not_mem_nil,
      or_false] at hm
    rcases hm with (rfl | ⟨e, -, r, -, rfl⟩) | rfl
    · rfl
    · rfl
    · rfl

end

/-! ### The transfer of a small zone -/

/-- The labels of a name without escapes. -/
def nameOf (t : Text) : DnsLabel := ⟨((t.splitOn '.').filter (· ≠ [])).map encode⟩

/-- A library that reads one file: an SOA and two addresses. -/
def libraryOfB : Library where
  lexer _ := ([.charData "b.example.".toList, .charData "86400".toList, .charData "SOA".toList,
    .charData "ns.example.".toList, .eol, .charData "b.example.".toList, .charData "300".toList,
    .charData "A".toList, .charData "192.0.2.1".toList, .eol, .blank, .charData "A".toList,
    .charData "192.0.2.2".toList, .eol], false)
  name t _ := some (nameOf t)
  time t := if t.all Char.isDigit then some (Nat.ofDigitChars 10 t 0) else none
  dnsClass t := if t = "IN".toList then some .in else none
  rdata t words _ := .ok ⟨if t = .soa then some (86400, 300) else none, encode words.flatten⟩
  insert l r := l ++ [r]

/-- A server whose encoders write the answers, and the time of a TSIG. -/
def plainServer : Server :=
  { serverOfB with
    emit := fun m => some (m.answers.flatMap (·.rdata))
    emitTsigForMac := fun t _ => some (emitUint 6 t.time) }

/-- The secret of `b.example`, and a query that it signs. -/
def zoneOfB : Store :=
  { Store.empty with
    zones := Table.empty.save ⟨1, "b.example".toList, false⟩
    axfrSecrets := Table.empty.save ⟨7, 1, [1], none⟩ }

def signedForB : Request :=
  { signedForA with
    signature := .tsig [2] ⟨⟨encode "7".toList :: bExample.label⟩, .hmacSha256, 1000, 300, [1, 2], 1⟩ }

/-- What is sent for it. -/
def sentForB : List Message :=
  (handleRequest (reading plainServer libraryOfB) .ascii (fun _ => some []) 1000 (fun i => 1000 + i) (.v4 0)
    signedForB zoneOfB).1

theorem complete_of_noError_example : (∃ records, Complete bExample records sentForB ∧ records.length = 3) ∧
    Client.acceptsAll (reading plainServer libraryOfB)
      ⟨⟨encode "7".toList :: bExample.label⟩, .hmacSha256, [1], [1, 2], true⟩ sentForB = true := by
  have hparsed : (Parser.parse libraryOfB [] bExample).map (fun found => (found.1, (zoneRecords found.2).length)) =
      .ok (bExample, 3) := by decide
  rcases hparse : Parser.parse libraryOfB [] bExample with e | ⟨origin, records⟩
  · rw [hparse] at hparsed
    cases hparsed
  rw [hparse] at hparsed
  obtain ⟨horigin, hlength⟩ := Prod.mk.inj (Except.ok.inj hparsed)
  obtain rfl : bExample = origin := horigin.symm
  have hkey : findTsigKey .ascii zoneOfB (plainServer.display ⟨encode "7".toList :: bExample.label⟩) =
      .ok ⟨7, 1, [1], none⟩ := by decide
  have hno : NoError (reading plainServer libraryOfB) .ascii (fun _ => some []) 1000 (fun i => 1000 + i) (.v4 0)
      signedForB zoneOfB (some (contextOf ⟨⟨encode "7".toList :: bExample.label⟩, .hmacSha256, 1000, 300, [1, 2], 1⟩
        [1])) := by
    have htimely : ((1000 : ℤ) - 1000).natAbs ≤ 300 := by decide
    exact ⟨by decide, ⟨htimely, _, hkey, ⟨rfl, by decide⟩, rfl⟩, _, _, rfl, by decide⟩
  have hfile : (fun _ => some [] : Text → Option Text) (plainServer.display signedForB.query.name ++ "zone".toList) =
      some [] := rfl
  obtain ⟨hcomplete, haccepts⟩ := complete_of_noError rfl hfile hparse hno
  exact ⟨⟨_, hcomplete, hlength⟩, haccepts _ _ _ rfl hkey⟩

end HexDns.Axfr.Transfers
