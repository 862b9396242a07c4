import HexDns.Grpc.FindZone
import HexDns.Base.Codecs

/-! # Transaction signatures

The dataclass `TSIG` of `grpc.py` with its two encoders and its decoder, and the authentication of an
update request: the key by the name of the TSIG record, the algorithm, the MAC over the request as it
was packed or as it is packed without compression, and the time. -/

namespace HexDns.Grpc.Tsig

open HexDns.Lib.Texts HexDns.Lib.Tables HexDns.Lib.Programs HexDns.Base.Py HexDns.Base.Codecs HexDns.Base.Label HexDns.Base.Message
  HexDns.Models.Db HexDns.Models.Env HexDns.Grpc.FindZone

/-- `TSIG`, with the time in seconds -/
structure Tsig where
  algName : DnsLabel
  timeSigned : ℕ
  fudge : ℕ
  mac : Bytes
  originalId : ℕ
  error : ℕ
  otherData : Bytes
  deriving DecidableEq, Repr

def tsigBadsig : ℕ := 16

def tsigBadkey : ℕ := 17

def tsigBadtime : ℕ := 18

/-- `HMAC_NAMES` -/
def hmacNames : List (Text × HmacName) :=
  [("hmac-md5.sig-alg.reg.int".toList, .md5), ("hmac-sha1".toList, .sha1),
    ("hmac-sha256".toList, .sha256), ("hmac-sha384".toList, .sha384), ("hmac-sha512".toList, .sha512)]

/-- `DNSBuffer.get` -/
def getBytes (data : Bytes) (offset n : ℕ) : Except PyErr (Bytes × ℕ) :=
  if offset + n ≤ data.length then .ok ((data.drop offset).take n, offset + n)
  else .error .bufferError

/-- `DNSBuffer.unpack` of one integer -/
def unpackUint (bytes : ℕ) (data : Bytes) (offset : ℕ) : Except PyErr (ℕ × ℕ) :=
  (getBytes data offset bytes).map fun (b, offset) =>
    (b.foldl (fun n x => 256 * n + x.toNat) 0, offset)

/-- The last second of the year 9999. -/
def maxTime : ℕ := 253402300799

section
variable (h : Host)

/-- `TSIG.make_tsig` -/
def Tsig.makeTsig (t : Tsig) : Except PyErr Bytes := do
  let name ← h.encodeName t.algName
  return name ++ packUint 8 (t.timeSigned * 2 ^ 16 + t.fudge % 2 ^ 16) ++ packUint 2 t.mac.length ++
    t.mac ++ packUint 2 t.originalId ++ packUint 2 t.error ++ packUint 2 t.otherData.length ++
    t.otherData

/-- `TSIG.make_variables` -/
def Tsig.makeVariables (t : Tsig) : Except PyErr Bytes := do
  let name ← h.encodeName t.algName
  return name ++ packUint 8 (t.timeSigned * 2 ^ 16 + t.fudge % 2 ^ 16) ++ packUint 2 t.error ++
    packUint 2 t.otherData.length ++ t.otherData

/-- `TSIG.decode_tsig` -/
def decodeTsig (data : Bytes) : Except PyErr Tsig := do
  let (algName, offset) ← h.decodeName data 0
  let (timestamp, offset) ← unpackUint 8 data offset
  let (macLen, offset) ← unpackUint 2 data offset
  let (mac, offset) ← getBytes data offset macLen
  let (originalId, offset) ← unpackUint 2 data offset
  let (error, offset) ← unpackUint 2 data offset
  let (otherLen, offset) ← unpackUint 2 data offset
  let (otherData, _) ← getBytes data offset otherLen
  if timestamp / 2 ^ 16 ≤ maxTime then
    return ⟨algName, timestamp / 2 ^ 16, timestamp % 2 ^ 16, mac, originalId, error, otherData⟩
  else throw .valueError

/-- A response, without its id: what `dns_res` holds, and the TSIG record added to it with the name of
its owner. -/
structure Response where
  rcode : Rcode
  questions : List Question
  answers : List Rr
  tsig : Option (DnsLabel × Tsig)
  deriving DecidableEq, Repr

/-- `dns_req.reply(ra=False)` -/
def reply (dnsReq : DnsRecord) (rcode : Rcode) : Response := ⟨rcode, [dnsReq.q], [], none⟩

/-- What is known of a request once its MAC has been verified. -/
structure Incoming where
  tsigKey : UpdateSecret
  keyName : DnsLabel
  tsig : Tsig
  digest : HmacName
  deriving DecidableEq, Repr

/-- `getattr(CLASS, "*")` and the TTL 0, as they follow the key name under the MAC -/
def anyClassTtl : Bytes := [0, 255, 0, 0, 0, 0]

/-- `tsig_unsigned_error`, at the time `now` in microseconds -/
def tsigUnsignedError (now : ℕ) (dnsReq : DnsRecord) (keyName : DnsLabel) (error : ℕ) : Response :=
  { reply dnsReq .notauth with
    tsig := some (keyName, ⟨.root, now / 10 ^ 6, 300, [], dnsReq.id, error, []⟩) }

/-- `sign_resp` with the error 0 -/
def signResp (now : ℕ) (dnsReq : DnsRecord) (inc : Incoming) (rcode : Rcode) (answers : List Rr)
    (error : ℕ) (otherData : Bytes) (time : ℕ) : Except PyErr Response := do
  let rcode := if error ≠ 0 then .notauth else rcode
  let outgoing : Tsig := ⟨inc.tsig.algName, time, 300, [], dnsReq.id, error, otherData⟩
  let packed ← h.packResponse dnsReq.id rcode dnsReq.q answers
  let name ← h.encodeName inc.keyName
  let variables' ← outgoing.makeVariables h
  let mac := h.hmac inc.digest inc.tsigKey.secret
    (packUint 2 inc.tsig.mac.length ++ inc.tsig.mac ++ packed ++ name ++ anyClassTtl ++ variables')
  return { reply dnsReq rcode with
    answers := answers, tsig := some (inc.keyName, { outgoing with mac := mac }) }

/-- `DNSLabel(list(map(lambda n: n.decode().lower().encode(), name.label)))` -/
def lowerName (name : DnsLabel) : Except PyErr DnsLabel := do
  return ⟨(← name.texts).map fun t => encode (h.py.lower t)⟩

/-- The secret that a key name stands for under a zone name, if there is one. -/
def tsigKeyOf (st : Store) (keyName zoneName : DnsLabel) : Option UpdateSecret :=
  if keyName.matchSuffix zoneName then
    (h.updateKeyId (stripBy (· = '.') (keyName.stripSuffix zoneName).toText)).bind
      (getRow st.updateSecrets)
  else none

/-- The request without its TSIG record and with the original id, as it was signed. -/
def signedRequest (dnsReq : DnsRecord) (tsig : Tsig) : DnsRecord :=
  { dnsReq with id := tsig.originalId, ar := dnsReq.ar.dropLast }

/-- The MAC of the TSIG is that of the request, packed in one of the two ways. -/
def macVerifies (dnsReq : DnsRecord) (inc : Incoming) : Except PyErr Bool := do
  let d ← h.pack (signedRequest dnsReq inc.tsig)
  let d2 ← h.packCanon (signedRequest dnsReq inc.tsig)
  let name ← h.encodeName inc.keyName
  let variables' ← inc.tsig.makeVariables h
  let tail := name ++ anyClassTtl ++ variables'
  return h.hmac inc.digest inc.tsigKey.secret (d ++ tail) = inc.tsig.mac ∨
    h.hmac inc.digest inc.tsigKey.secret (d2 ++ tail) = inc.tsig.mac

/-- The time is within the fudge of the TSIG's; a window that ends after the year 9999 raises. -/
def timely (now : ℕ) (tsig : Tsig) : Except PyErr Bool :=
  if tsig.timeSigned + tsig.fudge ≤ maxTime then
    .ok (tsig.timeSigned * 10 ^ 6 ≤ now + tsig.fudge * 10 ^ 6 ∧
      now ≤ (tsig.timeSigned + tsig.fudge) * 10 ^ 6)
  else .error .overflowError

/-- A request as the holder of a secret signs it, under the name of the key. -/
def signRequest (key : UpdateSecret) (keyName : DnsLabel) (digest : HmacName) (time : ℕ)
    (dnsReq : DnsRecord) : Except PyErr DnsRecord := do
  let algName : DnsLabel := ⟨((hmacNames.find? fun p => p.2 = digest).map (encode ·.1)).toList⟩
  let tsig : Tsig := ⟨algName, time, 300, [], dnsReq.id, 0, []⟩
  let d ← h.pack dnsReq
  let name ← h.encodeName keyName
  let variables' ← tsig.makeVariables h
  let mac := h.hmac digest key.secret (d ++ (name ++ anyClassTtl ++ variables'))
  let data ← { tsig with mac := mac }.makeTsig h
  return { dnsReq with ar := dnsReq.ar ++ [⟨keyName, .tsig, .any, 0, .rd data⟩] }

/-- How the handler ends before it has authenticated a request: by an exception or a response. -/
abbrev Refusal := Except PyErr Response

def raising {α : Type} (x : Except PyErr α) : Except Refusal α := x.mapError .error

/-- The part of `handle_update_query` up to the check of the time, at the time `now` in
microseconds. -/
def authenticate (now : ℕ) (st : Store) (dnsReq : DnsRecord) :
    Except Refusal (Incoming × DnsLabel) :=
  if dnsReq.opcode ≠ .update ∨ dnsReq.q.qclass ≠ .in ∨ dnsReq.q.qtype ≠ .soa then
    .error (.ok (reply dnsReq .refused))
  else
    match dnsReq.ar.getLast? with
    | none => .error (.ok (reply dnsReq .refused))
    | some reqTsig =>
      if reqTsig.rtype ≠ .tsig then .error (.ok (reply dnsReq .refused))
      else do
        let zoneName ← raising (lowerName h dnsReq.q.qname)
        match tsigKeyOf h st reqTsig.rname zoneName with
        | none => throw (.ok (tsigUnsignedError now dnsReq reqTsig.rname tsigBadkey))
        | some tsigKey =>
          match reqTsig.rdata with
          | .rd data =>
            let tsig ← raising (decodeTsig h data)
            let algLabel ← raising tsig.algName.texts
            match hmacNames.lookup (['.'].intercalate (algLabel.map h.py.lower)) with
            | none => throw (.ok (tsigUnsignedError now dnsReq reqTsig.rname tsigBadsig))
            | some digest =>
              let inc : Incoming := ⟨tsigKey, reqTsig.rname, tsig, digest⟩
              if ← raising (macVerifies h dnsReq inc) then
                if ← raising (timely now tsig) then return (inc, zoneName)
                else
                  throw (signResp h now dnsReq inc .noerror [] tsigBadtime
                    (packUint 2 (now / 10 ^ 6 / 2 ^ 32) ++ packUint 4 (now / 10 ^ 6)) tsig.timeSigned)
              else throw (.ok (tsigUnsignedError now dnsReq reqTsig.rname tsigBadsig))
          | _ => throw (.error .attributeError)

variable {h}

theorem raising_eq_ok {α : Type} {x : Except PyErr α} {a : α} : raising x = .ok a ↔ x = .ok a := by
  cases x <;> simp [raising, Except.mapError]

/-- **What an authenticated request has shown.** -/
theorem authenticate_eq_ok {now : ℕ} {st : Store} {dnsReq : DnsRecord} {inc : Incoming}
    {zoneName : DnsLabel} (ha : authenticate h now st dnsReq = .ok (inc, zoneName)) :
    lowerName h dnsReq.q.qname = .ok zoneName ∧
      ∃ rr data, dnsReq.ar.getLast? = some rr ∧ rr.rtype = .tsig ∧
        tsigKeyOf h st rr.rname zoneName = some inc.tsigKey ∧ inc.keyName = rr.rname ∧
          rr.rdata = .rd data ∧ decodeTsig h data = .ok inc.tsig ∧
            (∃ alg, inc.tsig.algName.texts = .ok alg ∧
              hmacNames.lookup (['.'].intercalate (alg.map h.py.lower)) = some inc.digest) ∧
            macVerifies h dnsReq inc = .ok true ∧ timely now inc.tsig = .ok true := by
  unfold authenticate at ha
  split_ifs at ha
  rcases hlast : dnsReq.ar.getLast? with _ | rr
  · rw [hlast] at ha; cases ha
  rw [hlast] at ha
  dsimp only at ha
  by_cases htype : rr.rtype = .tsig
  swap
  · rw [if_pos htype] at ha; cases ha
  rw [if_neg (not_not.mpr htype)] at ha
  obtain ⟨zoneName', hz, ha⟩ := bind_eq_ok.mp ha
  rcases hk : tsigKeyOf h st rr.rname zoneName' with _ | tsigKey
  · rw [hk] at ha; cases ha
  rw [hk] at ha
  dsimp only at ha
  split at ha
  swap
  · cases ha
  rename_i data hdata
  obtain ⟨tsig, htsig, ha⟩ := bind_eq_ok.mp ha
  obtain ⟨alg, halg, ha⟩ := bind_eq_ok.mp ha
  rcases hd : hmacNames.lookup (['.'].intercalate (alg.map h.py.lower)) with _ | digest
  · rw [hd] at ha; cases ha
  rw [hd] at ha
  obtain ⟨verifies, hv, ha⟩ := bind_eq_ok.mp ha
  rcases verifies with _ | _
  · cases ha
  rw [if_pos rfl] at ha
  obtain ⟨inTime, ht, ha⟩ := bind_eq_ok.mp ha
  rcases inTime with _ | _
  · cases ha
  cases ha
  exact ⟨raising_eq_ok.mp hz, rr, data, rfl, htype, hk, rfl, hdata, raising_eq_ok.mp htsig,
    ⟨alg, raising_eq_ok.mp halg, hd⟩, raising_eq_ok.mp hv, raising_eq_ok.mp ht⟩

theorem mem_of_tsigKeyOf {st : Store} {keyName zoneName : DnsLabel} {key : UpdateSecret}
    (hk : tsigKeyOf h st keyName zoneName = some key) : key ∈ st.updateSecrets := by
  unfold tsigKeyOf at hk
  split_ifs at hk
  obtain ⟨id, -, hg⟩ := Option.bind_eq_some_iff.mp hk
  exact (getRow_eq_some.mp hg).1

end

end HexDns.Grpc.Tsig
