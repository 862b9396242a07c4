import HexDns.Grpc.FindZone

/-! # The two lookups behind the AXFR server

`GetTSIGSecret` and `CheckIPACL` of `axfr.py`. A call that sets a status, or that an exception
leaves, fails for the caller. Both write `last_used` on the row they answer from. -/

namespace HexDns.Axfr.Access

open HexDns.Lib.Texts HexDns.Lib.Tables HexDns.Lib.Programs HexDns.Base.Py HexDns.Base.Label
  HexDns.Base.Message HexDns.Models.Db HexDns.Models.Env HexDns.Grpc.FindZone

/-- How a call fails. -/
inductive GrpcErr
  | notFound
  | invalidArgument
  | raised (e : PyErr)
  deriving DecidableEq, Repr

/-- The secret that `GetTSIGSecret` looks up. -/
def findTsigKey (h : Host) (st : Store) (keyName : Text) : Except GrpcErr AxfrSecret := do
  let keyName ← (DnsLabel.ofText h.py keyName).mapError .raised
  let found ← (findZone h st keyName).mapError .raised
  match found with
  | none => throw .notFound
  | some (_, label) =>
    match h.axfrKeyId (stripBy (· = '.') label.toText) with
    | none => throw (.raised .validationError)
    | some id =>
      match getRow st.axfrSecrets id with
      | none => throw .notFound
      | some tsigKey => return tsigKey

/-- `AXFRServiceServicer.GetTSIGSecret` -/
def getTsigSecret (h : Host) (now : ℕ) (keyName : Text) : Exec Store GrpcErr Bytes := do
  let st ← get
  let tsigKey ← ofResult (findTsigKey h st keyName)
  modify fun st =>
    { st with axfrSecrets := st.axfrSecrets.save { tsigKey with lastUsed := some now } }
  return tsigKey.secret

/-- An IP network: an address and the length of its prefix. -/
structure IpNetwork where
  address : IpAddr
  prefixLen : ℕ
  deriving DecidableEq, Repr

/-- `DNSZoneAXFRIPACL.network`: no network if the prefix is too long or there are host bits. -/
def AxfrIpAcl.network (acl : AxfrIpAcl) : Option IpNetwork :=
  match acl.address with
  | .v4 a => if acl.pre ≤ 32 ∧ a.toNat % 2 ^ (32 - acl.pre) = 0 then some ⟨.v4 a, acl.pre⟩ else none
  | .v6 a =>
    if acl.pre ≤ 128 ∧ a.toNat % 2 ^ (128 - acl.pre) = 0 then some ⟨.v6 a, acl.pre⟩ else none

/-- `ip in network` -/
def IpNetwork.contains (n : IpNetwork) (ip : IpAddr) : Bool :=
  match n.address, ip with
  | .v4 a, .v4 b => a.toNat / 2 ^ (32 - n.prefixLen) = b.toNat / 2 ^ (32 - n.prefixLen)
  | .v6 a, .v6 b => a.toNat / 2 ^ (128 - n.prefixLen) = b.toNat / 2 ^ (128 - n.prefixLen)
  | _, _ => false

/-- The loop of `CheckIPACL`, up to the row it answers from; `ip in None` is a `TypeError`. -/
def findAclIn (ip : IpAddr) : List AxfrIpAcl → Except GrpcErr (Option AxfrIpAcl)
  | [] => .ok none
  | acl :: acls =>
    match AxfrIpAcl.network acl with
    | none => .error (.raised .typeError)
    | some network => if network.contains ip then .ok (some acl) else findAclIn ip acls

/-- The row that `CheckIPACL` answers from. -/
def findAcl (h : Host) (st : Store) (zoneName : Text) (ipAddr : Option IpAddr) :
    Except GrpcErr (Option AxfrIpAcl) := do
  let zoneName ← (DnsLabel.ofText h.py zoneName).mapError .raised
  let found ← (findZone h st zoneName).mapError .raised
  match found with
  | none => throw .notFound
  | some (zone, _) =>
    match ipAddr with
    | none => throw .invalidArgument
    | some ip => findAclIn ip (st.axfrIpAcl.rows.filter fun acl => acl.zone = zone.id)

/-- `AXFRServiceServicer.CheckIPACL` -/
def checkIpAcl (h : Host) (now : ℕ) (zoneName : Text) (ipAddr : Option IpAddr) :
    Exec Store GrpcErr Bool := do
  let st ← get
  match ← ofResult (findAcl h st zoneName ipAddr) with
  | none => return false
  | some acl => do
    modify fun st => { st with axfrIpAcl := st.axfrIpAcl.save { acl with lastUsed := some now } }
    return true

/-! ### What the calls return -/

theorem run_getTsigSecret (h : Host) (now : ℕ) (keyName : Text) (st : Store) :
    (run (getTsigSecret h now keyName) st).1 = (findTsigKey h st keyName).map (·.secret) := by
  unfold getTsigSecret
  rw [run_bind_ok (run_get st), run_bind, run_ofResult]
  rcases findTsigKey h st keyName with e | k <;> rfl

theorem run_checkIpAcl (h : Host) (now : ℕ) (zoneName : Text) (ipAddr : Option IpAddr)
    (st : Store) :
    (run (checkIpAcl h now zoneName ipAddr) st).1 =
      (findAcl h st zoneName ipAddr).map (·.isSome) := by
  unfold checkIpAcl
  rw [run_bind_ok (run_get st), run_bind, run_ofResult]
  rcases findAcl h st zoneName ipAddr with e | a
  · rfl
  · cases a <;> rfl

end HexDns.Axfr.Access
