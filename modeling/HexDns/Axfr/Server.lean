import HexDns.Axfr.Access

/-! # The AXFR server

`handle_request` of `axfr/src/main.rs`. `Server` has what the server uses of its libraries: how a
name is displayed, what the zone file parser returns, HMAC, and the encoders (each may fail). A
response that cannot be encoded is not sent.

The calls to the Django side go through unchanged, so that the handler runs on the database. -/

namespace HexDns.Axfr.Server

open HexDns.Lib.Texts HexDns.Lib.Programs HexDns.Base.Label HexDns.Base.Message HexDns.Models.Db
  HexDns.Models.Env HexDns.Axfr.Access

inductive TsigAlgorithm
  | hmacSha224 | hmacSha256 | hmacSha384 | hmacSha512 | hmacSha512_256
  | other (name : Text)
  deriving DecidableEq, Repr

/-- The algorithms that the `match` on the algorithm has an HMAC for. -/
def TsigAlgorithm.supported : TsigAlgorithm → Bool
  | .other _ => false
  | _ => true

/-- A TSIG record: its owner and its data. -/
structure Tsig where
  name : DnsLabel
  algorithm : TsigAlgorithm
  time : ℕ
  fudge : ℕ
  mac : Bytes
  originalId : ℕ
  deriving DecidableEq, Repr

/-- A resource record of a zone file. -/
structure Record where
  name : DnsLabel
  recordType : QType
  dnsClass : QClass
  ttl : ℕ
  rdata : Bytes
  deriving DecidableEq, Repr

/-- A record set: what `records_without_rrsigs` and `records(true, …)` go through. -/
structure RecordSet where
  recordsWithoutRrsigs : List Record
  records : List Record
  deriving DecidableEq, Repr

structure RrKey where
  name : DnsLabel
  recordType : QType
  deriving DecidableEq, Repr

/-- The map that the zone file parser returns, in the order in which it is gone through. -/
abbrev ZoneFile := List (RrKey × RecordSet)

/-- How the parser fails: it returns an error, or the task panics. -/
inductive Failure
  | error
  | panic
  deriving DecidableEq, Repr

inductive ResponseCode
  | noError | refused | servFail | badSig | badTime | badAlg
  | other (code : ℕ)
  deriving DecidableEq, Repr

/-- A query, with its name in lower case as `LowerQuery` has it. -/
structure Query where
  name : DnsLabel
  queryType : QType
  queryClass : QClass
  deriving DecidableEq, Repr

/-- The signature section of a request: none, one that `signed_bitmessage_to_buf` refuses, or a TSIG
with the bytes that it signs. -/
inductive Signature
  | unsigned
  | unreadable
  | tsig (signedData : Bytes) (sig : Tsig)
  deriving DecidableEq, Repr

structure Request where
  id : ℕ
  isQuery : Bool
  opCode : Opcode
  responseCode : ResponseCode
  queryCount : ℕ
  answerCount : ℕ
  nameServerCount : ℕ
  recursionDesired : Bool
  signature : Signature
  query : Query
  deriving DecidableEq, Repr

structure Message where
  id : ℕ
  responseCode : ResponseCode
  authoritative : Bool
  recursionDesired : Bool
  query : Option Query
  answers : List Record
  tsig : Option Tsig
  deriving DecidableEq, Repr

structure Server where
  /-- `Name::to_string` -/
  display : DnsLabel → Text
  /-- `Parser::parse`, with the origin it returns -/
  parse : Text → DnsLabel → Except Failure (DnsLabel × ZoneFile)
  hmac : TsigAlgorithm → Bytes → Bytes → Bytes
  /-- `message.emit` in signing mode -/
  emit : Message → Option Bytes
  /-- `emit_tsig_for_mac` -/
  emitTsigForMac : Tsig → DnsLabel → Option Bytes
  /-- `message.emit` in normal mode -/
  serialise : Message → Option Bytes

structure TsigContext where
  name : DnsLabel
  algorithm : TsigAlgorithm
  key : Bytes
  hash : Bytes
  first : Bool
  deriving DecidableEq, Repr

/-- `emit_u16`, `emit_u32`: the low bytes, most significant first -/
def emitUint (bytes n : ℕ) : Bytes :=
  (List.range bytes).map fun i => UInt8.ofNat (n / 256 ^ (bytes - 1 - i))

/-- What the MAC covers after the message: the variables of the TSIG for the first message, the
timers for the later ones. -/
def macTail (s : Server) (tsig : Tsig) (ctx : TsigContext) : Option Bytes :=
  if ctx.first then s.emitTsigForMac tsig ctx.name
  else some (emitUint 2 (tsig.time / 2 ^ 32) ++ emitUint 4 tsig.time ++ emitUint 2 tsig.fudge)

/-- `sign_message` -/
def signMessage (s : Server) (now : ℕ) (message : Message) :
    Option TsigContext → Option (Message × Option TsigContext)
  | none => some (message, none)
  | some ctx => do
    let tsig : Tsig := ⟨ctx.name, ctx.algorithm, now, 300, [], message.id⟩
    let body ← s.emit message
    let tail ← macTail s tsig ctx
    let tbs := emitUint 2 ctx.hash.length ++ ctx.hash ++ body ++ tail
    let computedSig := s.hmac ctx.algorithm ctx.key tbs
    return ({ message with tsig := some { tsig with mac := computedSig } },
      some { ctx with first := false, hash := computedSig })

/-- `send_response` -/
def sendResponse (s : Server) (msg : Message) : List Message :=
  if (s.serialise msg).isSome then [msg] else []

/-- `Message::error_msg` -/
def errorMsg (msg : Request) (code : ResponseCode) : Message :=
  ⟨msg.id, code, false, false, none, [], none⟩

/-- Sign the messages and send them, up to the first that cannot be signed; `clock` is the time at each
message. -/
def signAndSend (s : Server) (clock : ℕ → ℕ) (msg : Request) (ctx : Option TsigContext) :
    List Message → List Message
  | [] => []
  | m :: ms =>
    match signMessage s (clock 0) m ctx with
    | none => sendResponse s (errorMsg msg .servFail)
    | some (m', ctx') => sendResponse s m' ++ signAndSend s (fun i => clock (i + 1)) msg ctx' ms

/-- `Ipv6Addr::to_ipv4`, for `::a.b.c.d` and `::ffff:a.b.c.d` -/
def toIpv4 (a : BitVec 128) : Option (BitVec 32) :=
  let high := a.toNat / 2 ^ 32
  if high = 0 ∨ high = 0xffff then some (BitVec.ofNat 32 a.toNat) else none

/-- The address that `CheckIPACL` is asked about. -/
def aclAddr : IpAddr → IpAddr
  | .v4 a => .v4 a
  | .v6 a =>
    match toIpv4 a with
    | some b => .v4 b
    | none => .v6 a

/-- The request is one that the server answers. -/
def Request.wellFormed (msg : Request) : Bool :=
  msg.isQuery && msg.opCode = .query && msg.responseCode = .noError && msg.queryCount = 1 &&
    msg.answerCount = 0 && msg.nameServerCount = 0 &&
    (msg.query.queryType = .axfr || msg.query.queryType = .soa) && msg.query.queryClass = .in

/-- The response header and the query, with the answers. -/
def response (msg : Request) (answers : List Record) : Message :=
  ⟨msg.id, .noError, true, msg.recursionDesired, some msg.query, answers, none⟩

/-- The part of `handle_request` on the signature: the TSIG context, or the code of an error. -/
def verifySignature (s : Server) (h : Host) (now : ℕ) (msg : Request) (st : Store) :
    Except ResponseCode (Option TsigContext) × Store :=
  match msg.signature with
  | .unsigned => (.ok none, st)
  | .unreadable => (.error .badSig, st)
  | .tsig signedData sig =>
    if ((now : ℤ) - sig.time).natAbs > sig.fudge then (.error .badTime, st)
    else
      match run (getTsigSecret h now (s.display sig.name)) st with
      | (.error _, st') => (.error .badSig, st')
      | (.ok key, st') =>
        if sig.algorithm.supported then
          if sig.mac = s.hmac sig.algorithm key signedData then
            (.ok (some ⟨sig.name, sig.algorithm, key, sig.mac, true⟩), st')
          else (.error .badSig, st')
        else (.error .badAlg, st')

/-- The messages of a zone transfer: the SOA, each other record, the SOA. -/
def transfer (msg : Request) (soa : RecordSet) (zoneFile : ZoneFile) : List Message :=
  response msg soa.recordsWithoutRrsigs ::
    (zoneFile.flatMap fun e => e.2.records.map fun r => response msg [r]) ++
      [response msg soa.recordsWithoutRrsigs]

/-- `zone_file.remove(key)` -/
def removeKey (key : RrKey) (zoneFile : ZoneFile) : Option (RecordSet × ZoneFile) :=
  match zoneFile.find? fun e => e.1 = key with
  | none => none
  | some e => some (e.2, zoneFile.filter fun e => e.1 ≠ key)

/-- The zone file of the query, parsed: its SOA and the rest. -/
def readZoneFile (s : Server) (dir : Text → Option Text) (msg : Request) :
    Except Failure (RecordSet × ZoneFile) :=
  match dir (s.display msg.query.name ++ "zone".toList) with
  | none => .error .error
  | some contents => do
    let (origin, zoneFile) ← s.parse contents msg.query.name
    match removeKey ⟨⟨origin.lower⟩, .soa⟩ zoneFile with
    | none => .error .error
    | some found => .ok found

/-- `handle_request`: the messages sent, and the database after it. `now` is the time at the check of
the signature, `clock` that at each message. -/
def handleRequest (s : Server) (h : Host) (dir : Text → Option Text) (now : ℕ) (clock : ℕ → ℕ)
    (addr : IpAddr) (msg : Request) (st : Store) : List Message × Store :=
  let fail code := sendResponse s (errorMsg msg code)
  if msg.wellFormed then
    match readZoneFile s dir msg with
    | .error .error => (fail .servFail, st)
    | .error .panic => ([], st)
    | .ok (soa, zoneFile) =>
      match verifySignature s h now msg st with
      | (.error code, st) => (fail code, st)
      | (.ok ctx, st) =>
        if msg.query.queryType = .soa then
          (signAndSend s clock msg ctx [response msg soa.recordsWithoutRrsigs], st)
        else if ctx.isNone then
          match run (checkIpAcl h now (s.display msg.query.name) (some (aclAddr addr))) st with
          | (.error _, st) => (fail .badSig, st)
          | (.ok false, st) => (fail .refused, st)
          | (.ok true, st) => (signAndSend s clock msg ctx (transfer msg soa zoneFile), st)
        else (signAndSend s clock msg ctx (transfer msg soa zoneFile), st)
  else (fail .refused, st)

end HexDns.Axfr.Server
