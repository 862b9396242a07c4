import HexDns.Base.Label
import Mathlib.Data.BitVec
import Mathlib.Data.Rat.Defs

/-! # DNS messages as the library `dnslib` parses them

`Rdata` has a constructor for each Python class that an rdata object can have here: the classes that
the library parses into fields, its class `RD` for every type it does not know, the empty text that
`RR.parse` leaves for an empty rdata, and the classes that the repository defines itself (`ds` to
`svcb`). `Rdata.eq` is `RD.__eq__`: two objects are equal only if they are of one class. -/

namespace HexDns.Base.Message

open HexDns.Lib.Texts HexDns.Base.Py HexDns.Base.Label

/-- `ipaddress.IPv4Address` or `ipaddress.IPv6Address` -/
inductive IpAddr
  | v4 (a : BitVec 32)
  | v6 (a : BitVec 128)
  deriving DecidableEq, Repr

/-- `dnslib.QTYPE` -/
inductive QType
  | a | ns | cname | soa | mx | txt | rp | aaaa | loc | srv | naptr | ds | sshfp | dnskey | dhcid
  | https | caa | hinfo | tsig | axfr | any
  | other (code : ℕ)
  deriving DecidableEq, Repr

/-- `dnslib.CLASS` -/
inductive QClass
  | in
  /-- 254 -/
  | none
  /-- 255, `getattr(CLASS, "*")` -/
  | any
  | other (code : ℕ)
  deriving DecidableEq, Repr

/-- `dnslib.RCODE` -/
inductive Rcode
  | noerror | formerr | servfail | nxdomain | refused | yxdomain | yxrrset | nxrrset | notauth
  | notzone
  deriving DecidableEq, Repr

/-- A Python value where the code does not fix its type. -/
inductive PyVal
  | none
  | int (n : ℤ)
  | str (t : Text)
  | bytes (b : Bytes)
  | label (l : DnsLabel)
  /-- The tuple of one element, `(v,)`. -/
  | single (v : PyVal)
  deriving DecidableEq, Repr

/-- An rdata object, by its Python class. -/
inductive Rdata
  /-- `''`, for an rdata of no bytes -/
  | empty
  | a (data : BitVec 32)
  | aaaa (data : BitVec 128)
  | ns (label : DnsLabel)
  | cname (label : DnsLabel)
  | mx (preference : ℕ) (label : DnsLabel)
  | txt (data : List Bytes)
  | srv (priority weight port : ℕ) (target : DnsLabel)
  | caa (flags : ℕ) (tag value : Text)
  | naptr (order preference : ℕ) (flags service regexp : PyVal) (replacement : DnsLabel)
  | dnskey (flags protocol algorithm : ℕ) (key : Bytes)
  /-- `dnslib.RD` itself -/
  | rd (data : Bytes)
  /-- another class of the library, with the wire form -/
  | lib (code : ℕ) (data : Bytes)
  | sshfp (algorithm fingerprintType : ℕ) (fingerprint : Bytes)
  | ds (keyTag algorithm digestType : ℕ) (digest : Bytes)
  | loc (lat long altitude size hp vp : ℚ)
  | rp (mbox txt : DnsLabel)
  | dhcid (data : Bytes)
  | svcb (priority : ℕ) (target : Text) (params : Bytes)
  deriving DecidableEq, Repr

/-- `==` of two rdata objects -/
def Rdata.eq : Rdata → Rdata → Bool
  | .ns l, .ns m => l.Eqv m
  | .cname l, .cname m => l.Eqv m
  | .mx p l, .mx q m => p = q ∧ l.Eqv m
  | .srv p w o l, .srv p' w' o' m => (p, w, o) = (p', w', o') ∧ l.Eqv m
  | .naptr o p f s r l, .naptr o' p' f' s' r' m => (o, p, f, s, r) = (o', p', f', s', r') ∧ l.Eqv m
  | .rp l m, .rp l' m' => l.Eqv l' ∧ m.Eqv m'
  | x, y => x = y

/-- `dnslib.RR` -/
structure Rr where
  rname : DnsLabel
  rtype : QType
  rclass : QClass
  ttl : ℕ
  rdata : Rdata
  deriving DecidableEq, Repr

/-- `==` of two resource records; the TTL does not count. -/
def Rr.eq (r s : Rr) : Bool :=
  r.rname.Eqv s.rname ∧ r.rclass = s.rclass ∧ r.rtype = s.rtype ∧ r.rdata.eq s.rdata

/-- `dnslib.DNSQuestion` -/
structure Question where
  qname : DnsLabel
  qtype : QType
  qclass : QClass
  deriving DecidableEq, Repr

/-- `dnslib.OPCODE` -/
inductive Opcode
  | query | update
  | other (code : ℕ)
  deriving DecidableEq, Repr

/-- `dnslib.DNSRecord`, a request as it was parsed. -/
structure DnsRecord where
  id : ℕ
  opcode : Opcode
  questions : List Question
  rr : List Rr
  auth : List Rr
  ar : List Rr
  deriving DecidableEq, Repr

/-- `DNSRecord.q`; without a question the library makes one up. -/
def DnsRecord.q (r : DnsRecord) : Question := r.questions.headD ⟨.root, .a, .in⟩

end HexDns.Base.Message
