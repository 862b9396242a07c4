import HexDns.Models.Db
import HexDns.Base.Codecs

/-! # Validators of fields

What a form refuses with a `ValidationError`. `bytes.fromhex` skips white space between the pairs of
digits, and `base64.b64decode` everything that is not of its alphabet and all that follows a complete
padding. -/

namespace HexDns.Models.Validators

open HexDns.Lib.Texts HexDns.Base.Py HexDns.Base.Codecs HexDns.Models.Db

/-- `MinValueValidator(lo)` and `MaxValueValidator(hi)` -/
def rangeValidator (lo hi value : ℤ) : Except PyErr Unit :=
  if lo ≤ value ∧ value ≤ hi then .ok () else .error .validationError

/-- What `Field.clean` says of an empty value where `blank` is not set. -/
def notBlank (value : Text) : Except PyErr Unit :=
  if value = [] then .error .validationError else .ok ()

/-- `hex_validator` -/
def hexValidator (value : Text) : Except PyErr Unit :=
  match fromHex value with
  | .ok _ => .ok ()
  | .error _ => .error .validationError

/-- `b64_validator`; a text that is not ASCII is no `binascii.Error`. -/
def b64Validator (value : Text) : Except PyErr Unit :=
  match b64decode value with
  | .ok _ => .ok ()
  | .error .valueError => .error .validationError
  | .error e => .error e

/-- `DNSZoneAdditionalCDS.clean_fields` -/
def cleanCds (cds : AdditionalCds) : Except PyErr Unit := do
  rangeValidator 0 65535 cds.keyTag
  rangeValidator 1 255 cds.algorithm
  rangeValidator 1 255 cds.digestType
  notBlank cds.digest
  hexValidator cds.digest

/-- `DNSZoneAdditionalCDNSKEY.clean_fields` -/
def cleanCdnskey (cdnskey : AdditionalCdnskey) : Except PyErr Unit := do
  rangeValidator 0 65535 cdnskey.flags
  rangeValidator 1 255 cdnskey.protocol
  rangeValidator 1 255 cdnskey.algorithm
  notBlank cdnskey.publicKey
  b64Validator cdnskey.publicKey

/-- `max_length` of a `CharField` -/
def maxLength (n : ℕ) (value : Text) : Except PyErr Unit :=
  if value.length ≤ n then .ok () else .error .validationError

/-- `DNSSEC_ALGORITHMS` -/
def dnssecAlgorithms : List ℕ := [5, 7, 8, 10, 13, 14, 15, 16]

/-- `DSRecord.DIGEST_TYPES` -/
def digestTypes : List ℕ := [1, 2, 3, 4]

/-- `DSRecord.clean_fields`, but for the name `@`, which it refuses -/
def cleanDsRecord (self : Row) : Except PyErr Unit := do
  notBlank self.recordName
  maxLength 255 self.recordName
  match self.data with
  | .ds keyTag algorithm digestType digest =>
    rangeValidator 0 65535 keyTag
    if algorithm ∈ dnssecAlgorithms then pure () else throw .validationError
    if digestType ∈ digestTypes then pure () else throw .validationError
    notBlank digest
    hexValidator digest
  | _ => throw .typeError

/-- `DNSKEYRecord.clean_fields` -/
def cleanDnskeyRecord (self : Row) : Except PyErr Unit := do
  notBlank self.recordName
  maxLength 255 self.recordName
  match self.data with
  | .dnskey flags protocol algorithm (.str publicKey) =>
    rangeValidator 0 65535 flags
    rangeValidator 1 255 protocol
    if algorithm ∈ dnssecAlgorithms then pure () else throw .validationError
    notBlank publicKey
    b64Validator publicKey
  | _ => throw .typeError

/-- `DynamicAddressRecord.clean_fields`; what an address is, its column sees to. -/
def cleanDynamicAddressRecord (self : Row) : Except PyErr Unit := do
  notBlank self.recordName
  maxLength 255 self.recordName
  match self.data with
  | .dynamicAddress _ _ password =>
    notBlank password
    maxLength 255 password
  | _ => throw .typeError

end HexDns.Models.Validators
