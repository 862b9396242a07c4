import HexDns.Models.Db

/-! # What the service uses of other packages and services

`Host` has one field for each function of a package, or answer of a service, that is not in the
repository and that the code of `dns_grpc` calls, with the facts about it that the results need. -/

namespace HexDns.Models.Env

open HexDns.Lib.Texts HexDns.Lib.Tables HexDns.Base.Py HexDns.Base.Label HexDns.Base.Message HexDns.Models.Db

/-- What asking the accounts service for a zone's owner comes to: whether the owner's subscription
is active, a `requests.exceptions.RequestException`, or another exception. -/
inductive Owner
  | active (b : Bool)
  | requestException
  | raises (e : PyErr)
  deriving DecidableEq, Repr

/-- The hash functions of `HMAC_NAMES`. -/
inductive HmacName
  | md5 | sha1 | sha256 | sha384 | sha512
  deriving DecidableEq, Repr

/-- A character of a plain host name in lower case, or one that `idna_label` lets through. -/
def Plain (c : Char) : Prop :=
  (97 ≤ c.toNat ∧ c.toNat ≤ 122) ∨ (48 ≤ c.toNat ∧ c.toNat ≤ 57) ∨ c ∈ ['-', '_', '*', '.', ' ']

instance (c : Char) : Decidable (Plain c) := by unfold Plain; infer_instance

structure Host where
  py : Python
  /-- `idna.encode(t, uts46=True).decode()`, nothing for an `IDNAError` -/
  idna : Text → Option Text
  /-- A plain name in lower case is its own encoding, if it has one. -/
  idna_plain : ∀ t u, (∀ c ∈ t, Plain c) → idna t = some u → u = t
  /-- `TypedUUIDField("hexdns_zoneupdatesecret")`: the key that a text is, nothing for a
  `ValidationError` -/
  updateKeyId : Text → Option ℕ
  /-- `TypedUUIDField("hexdns_zoneaxfrsecret")` -/
  axfrKeyId : Text → Option ℕ
  /-- `zone.get_user().account.subscription_active` -/
  owner : ℕ → Owner
  /-- The database accepts the row. -/
  accepts : Row → Bool
  /-- what a name is as the key of a dictionary -/
  nameKey : DnsLabel → List Bytes
  nameKey_eqv : ∀ l m, nameKey l = nameKey m → l.Eqv m
  /-- `DNSBuffer(data).decode_name()` from an offset on, with the offset after the name -/
  decodeName : Bytes → ℕ → Except PyErr (DnsLabel × ℕ)
  /-- `DNSBuffer.encode_name_nocompress` -/
  encodeName : DnsLabel → Except PyErr Bytes
  /-- `DNSRecord.parse` -/
  parse : Bytes → Except PyErr DnsRecord
  /-- `DNSRecord.pack` of a request -/
  pack : DnsRecord → Except PyErr Bytes
  /-- the request packed again as `pack_rr_canon` packs it, without compressed names -/
  packCanon : DnsRecord → Except PyErr Bytes
  /-- `DNSRecord.pack` of a response with this id, response code and answers to this question -/
  packResponse : ℕ → Rcode → Question → List Rr → Except PyErr Bytes
  /-- `SSHKey(host_key).parse()`: `key_type` and `_decoded_key` -/
  sshKey : Text → Except PyErr (Bytes × Bytes)
  sha1 : Bytes → Bytes
  sha256 : Bytes → Bytes
  /-- what `svcb_record` packs to: the parameters after priority and target -/
  svcbParams : HttpsData → Except PyErr Bytes
  /-- the number of CNAMEs that can be followed before a `RecursionError` -/
  recursionLimit : ℕ
  /-- the public key of `settings.DNSSEC_PUBKEY`, both coordinates -/
  dnssecKey : Bytes
  /-- `str` of a float -/
  floatText : ℚ → Text
  /-- `dd_to_dms`, which calculates with floats, and the texts of its results -/
  ddToDms : ℚ → Text × Text × Text
  /-- `hmac.new(key, digestmod=name)`, updated with the data -/
  hmac : HmacName → Bytes → Bytes → Bytes

theorem lowerChar_of_plain {c : Char} (h : Plain c) : lowerChar c = c := by
  unfold lowerChar
  refine if_neg fun hc => ?_
  rcases h with h | h | h
  · omega
  · omega
  · simp only [List.mem_cons, List.not_mem_nil, or_false] at h
    rcases h with rfl | rfl | rfl | rfl | rfl <;> simp at hc

/-- The name at the start of a byte string without compression, for `Host.ascii`: the labels up to the
empty one, and the offset after it. -/
def decodeNameAscii : ℕ → Bytes → ℕ → List Bytes → Except PyErr (DnsLabel × ℕ)
  | 0, _, _, _ => .error .bufferError
  | _ + 1, [], _, _ => .error .bufferError
  | fuel + 1, k :: b, off, labels =>
    if k = 0 then .ok (⟨labels⟩, off + 1)
    else if b.length < k.toNat then .error .bufferError
    else decodeNameAscii fuel (b.drop k.toNat) (off + 1 + k.toNat) (labels ++ [b.take k.toNat])

/-- A host that is right on ASCII texts, with keys in decimal and every owner active. -/
def Host.ascii : Host where
  py := .ascii
  idna t :=
    let u := t.map lowerChar
    if u ≠ [] ∧ ∀ c ∈ u, c.isLower ∨ c.isDigit ∨ c = '-' ∨ c = '.' then some u else none
  idna_plain t u ht hu := by
    have hm : t.map lowerChar = t :=
      (List.map_congr_left fun c hc => lowerChar_of_plain (ht c hc)).trans (List.map_id t)
    simp only [hm] at hu
    split_ifs at hu
    exact (Option.some.inj hu).symm
  updateKeyId t := (Python.ascii.int t).map Int.toNat
  axfrKeyId t := (Python.ascii.int t).map Int.toNat
  owner _ := .active true
  accepts _ := true
  nameKey l := l.label
  nameKey_eqv l m h := by unfold DnsLabel.Eqv DnsLabel.lower; rw [h]
  decodeName b n := decodeNameAscii (b.length + 1) (b.drop n) n []
  encodeName l := .ok (l.label.flatMap (fun b => UInt8.ofNat b.length :: b) ++ [0])
  parse _ := .error .dnsError
  pack _ := .ok []
  packCanon _ := .ok []
  packResponse _ _ _ _ := .ok []
  sshKey t := .ok (encode t, encode t)
  sha1 b := b
  sha256 b := b
  svcbParams _ := .ok []
  recursionLimit := 100
  dnssecKey := []
  floatText q := Nat.toDigits 10 q.num.natAbs
  ddToDms q := (Nat.toDigits 10 q.num.natAbs, ['0'], ['0'])
  hmac _ key data := key ++ data

/-- The database without rows. -/
def Store.empty : Store :=
  ⟨.empty, .empty, .empty, .empty, .empty, .empty, .empty, .empty, .empty, [], []⟩

end HexDns.Models.Env
