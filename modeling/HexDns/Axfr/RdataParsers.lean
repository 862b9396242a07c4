import HexDns.Axfr.Loc
import HexDns.Axfr.Parser
import HexDns.Lib.Slices

/-! # The rdata parsers of the AXFR parser

The `match` on the record type in `flush_record` of `axfr/src/parser.rs`, with all the parsers that its
branches call. A parser panics where the code does: at `unimplemented!`, where a slice ends inside of a
character, and where a sum is too large for its type. What it calls of the libraries returns.

`parse_ds` and `parse_loc` are those of the modules about keys and locations (`parseDs_eq`,
`parseLoc_rational`): here the first cuts its text, and the second is on any kind of floats, with infinities
or without. -/

namespace HexDns.Axfr.RdataParsers

open HexDns.Lib.Texts HexDns.Lib.Programs HexDns.Lib.Slices HexDns.Base.Label HexDns.Base.Message
  HexDns.Base.Codecs HexDns.Axfr.Server HexDns.Axfr.Parser HexDns.Axfr.KeyData

/-- A result of the library: nothing is an `Err`. -/
def orError {α : Type} : Option α → Except Failure α
  | some a => .ok a
  | none => .error .error

/-! ### What the parsers use of the libraries -/

/-- The floats, on which every operation and every cast returns. -/
structure Floats (F : Type) where
  parse : Text → Option F
  ofRat : ℚ → F
  eq : F → F → Bool
  lt : F → F → Bool
  le : F → F → Bool
  add : F → F → F
  mul : F → F → F
  div : F → F → F
  log10 : F → F
  floor : F → F
  powf : F → F → F
  toU8 : F → UInt8
  toU32 : F → ℕ

/-- `NSEC3PARAM` -/
structure Nsec3Param where
  algorithm : ℕ
  optOut : Bool
  iterations : ℕ
  salt : Bytes
  deriving DecidableEq, Repr

/-- `NSEC3` -/
structure Nsec3 extends Nsec3Param where
  nextHashedOwner : Bytes
  types : List QType
  deriving DecidableEq, Repr

/-- `SIG` -/
structure Sig where
  typeCovered : QType
  algorithm : ℕ
  numLabels : ℕ
  originalTtl : ℕ
  sigExpiration : ℕ
  sigInception : ℕ
  keyTag : ℕ
  signerName : DnsLabel
  sig : Bytes
  deriving DecidableEq, Repr

/-- `DNSSECRData` -/
inductive DnssecRData
  | dnskey (key : Dnskey)
  | cdnskey (key : Dnskey)
  | nsec3param (param : Nsec3Param)
  | nsec3 (data : Nsec3)
  | ds (data : Ds)
  | cds (data : Ds)
  | sig (data : Sig)
  deriving DecidableEq, Repr

structure Fields (F : Type) where
  floats : Floats F
  /-- `RData::parse` -/
  parse : QType → List Text → DnsLabel → Option RData
  /-- `Name::from_str` -/
  name : Text → Option DnsLabel
  /-- the codes that `DigestType::from_u8` knows -/
  digestType : ℕ → Bool
  /-- the codes that `Nsec3HashAlgorithm::from_u8` knows -/
  nsec3Hash : ℕ → Bool
  hexDecode : Text → Option Bytes
  /-- `BASE32HEX.decode` -/
  base32Decode : Text → Option Bytes
  /-- `NaiveDate::from_ymd_opt`, `and_hms_opt` and `timestamp` -/
  timestamp : ℕ → ℕ → ℕ → ℕ → ℕ → ℕ → Option ℤ
  /-- `emit_as_canonical` of the names, one after the other -/
  emit : List DnsLabel → Option Bytes
  /-- the wire form -/
  encode : DnssecRData → Bytes

section
variable {F : Type} (lib : Fields F)

/-! ### DNSSEC -/

/-- `parse_nsec3param` -/
def parseNsec3Param : List Text → Option Nsec3Param
  | algorithm :: flags :: iterations :: salt :: _ => do
    let algorithm ← parseUint 8 algorithm
    let flags ← parseUint 8 flags
    let iterations ← parseUint 16 iterations
    if salt = [] ∨ ¬ lib.nsec3Hash algorithm then none
    else
      let salt ← lib.hexDecode salt
      return ⟨algorithm, flags % 2 = 1, iterations, salt⟩
  | _ => none

/-- `parse_nsec3` -/
def parseNsec3 : List Text → Option Nsec3
  | algorithm :: flags :: iterations :: salt :: nextHashedOwner :: types => do
    let param ← parseNsec3Param lib [algorithm, flags, iterations, salt]
    let types ← types.mapM fun t => (RecordType.fromStr t).map RecordType.toTrust
    let nextHashedOwner ← lib.base32Decode (nextHashedOwner.map Char.toUpper)
    return ⟨param, nextHashedOwner, types⟩
  | _ => none

/-- `u8::from_str_radix` of two bytes, with base 16 -/
def byteOfRadix : Text → Option UInt8
  | [c, d] => hexByte c d
  | _ => none

/-- The loop over the digest. -/
def digestLoop (s : Text) : Except Failure Bytes :=
  if byteLength s < 2 then .ok []
  else if ¬ IsCharBoundary s 2 then .error .error
  else
    match _hsplit : splitAt 2 s with
    | none => .error .panic
    | some (byteStr, rest) => do
      let byte ← orError (byteOfRadix byteStr)
      let digest ← digestLoop rest
      return byte :: digest
termination_by s.length
decreasing_by
  obtain ⟨rfl, hlen⟩ := splitAt_eq_some.mp _hsplit
  have hne : byteStr ≠ [] := by
    rintro rfl
    cases hlen
  have hpos : 0 < byteStr.length := List.length_pos_of_ne_nil hne
  rw [List.length_append]
  omega

/-- `parse_ds` -/
def parseDs : List Text → Except Failure Ds
  | tag :: algorithm :: digestType :: tokens => do
    let tag ← orError (parseUint 16 tag)
    let algorithm ← orError (parseAlgorithm algorithm)
    let digestType ← orError ((parseUint 8 digestType).filter (lib.digestType ·))
    if tokens.flatten = [] then .error .error
    else
      let digest ← digestLoop tokens.flatten
      return ⟨tag, algorithm, digestType, digest⟩
  | _ => .error .error

/-- `dt[i..j].parse::<u32>()` -/
def timestampPart (dt : Text) (i j : ℕ) : Except Failure ℕ :=
  match slice i j dt with
  | none => .error .panic
  | some s => orError (parseUint 32 s)

/-- `parse_datetime` -/
def parseDatetime (dt : Text) : Except Failure ℕ :=
  if byteLength dt = 14 then do
    let year ← timestampPart dt 0 4
    let month ← timestampPart dt 4 6
    let day ← timestampPart dt 6 8
    let hour ← timestampPart dt 8 10
    let minute ← timestampPart dt 10 12
    let second ← timestampPart dt 12 14
    let timestamp ← orError (lib.timestamp year month day hour minute second)
    return (timestamp % 2 ^ 32).toNat
  else orError (parseUint 32 dt)

/-- `parse_sig` -/
def parseSig : List Text → Except Failure Sig
  | typeCovered :: algorithm :: numLabels :: originalTtl :: sigExpiration :: sigInception :: keyTag ::
      signerName :: sig :: _ => do
    let typeCovered ← orError (RecordType.fromStr typeCovered)
    let algorithm ← orError (parseUint 8 algorithm)
    let numLabels ← orError (parseUint 8 numLabels)
    let originalTtl ← orError (parseUint 32 originalTtl)
    let keyTag ← orError (parseUint 16 keyTag)
    let signerName ← orError (lib.name signerName)
    let sig ← orError (if sig = [] then none else standardDecode sig)
    let sigExpiration ← parseDatetime lib sigExpiration
    let sigInception ← parseDatetime lib sigInception
    return ⟨typeCovered.toTrust, algorithm, numLabels, originalTtl, sigExpiration, sigInception, keyTag, signerName,
      sig⟩
  | _ => .error .error

/-! ### Names and bytes -/

/-- `parse_dhcid` -/
def parseDhcid (tokens : List Text) : Option Bytes :=
  if tokens.flatten = [] then none else standardDecode tokens.flatten

/-- `parse_dname` -/
def parseDname : List Text → Option Bytes
  | target :: _ => do
    let target ← lib.name target
    lib.emit [target]
  | [] => none

/-- `parse_rp` -/
def parseRp : List Text → Option Bytes
  | mboxDname :: txtDname :: _ => do
    let mboxDname ← lib.name mboxDname
    let txtDname ← lib.name txtDname
    lib.emit [mboxDname, txtDname]
  | _ => none

/-! ### Locations -/

/-- Degrees, minutes, seconds, and the factor of the side. -/
structure Angle (F : Type) where
  d : ℕ
  m : ℕ
  s : F
  mul : F

/-- The tokens of a latitude or a longitude, where `plus` and `minus` are the words for its sides. -/
def parseAngle (plus minus : Text) : List Text → Option (Angle F × List Text)
  | d :: n :: tokens => do
    let d ← parseUint 32 d
    if n = plus then some (⟨d, 0, lib.floats.ofRat 0, lib.floats.ofRat 1⟩, tokens)
    else if n = minus then some (⟨d, 0, lib.floats.ofRat 0, lib.floats.ofRat (-1)⟩, tokens)
    else do
      let m ← parseUint 32 n
      match tokens with
      | n :: tokens =>
        if n = plus then some (⟨d, m, lib.floats.ofRat 0, lib.floats.ofRat 1⟩, tokens)
        else if n = minus then some (⟨d, m, lib.floats.ofRat 0, lib.floats.ofRat (-1)⟩, tokens)
        else do
          let s ← lib.floats.parse n
          match tokens with
          | n :: tokens =>
            if n = plus then some (⟨d, m, s, lib.floats.ofRat 1⟩, tokens)
            else if n = minus then some (⟨d, m, s, lib.floats.ofRat (-1)⟩, tokens)
            else none
          | [] => none
      | [] => none
  | _ => none

/-- A length in metres, with or without the unit. -/
def parseMetres (t : Text) : Option F := lib.floats.parse (t.rdropWhile (· = 'm'))

/-- The next length, if there is one. -/
def nextMetres (default : ℚ) : List Text → Option (F × List Text)
  | [] => some (lib.floats.ofRat default, [])
  | t :: tokens => (parseMetres lib t).map fun q => (q, tokens)

/-- The checks of an angle, whose degrees go up to `max`. -/
def Angle.valid (max : ℕ) (a : Angle F) : Bool :=
  a.d ≤ max ∧ a.m ≤ 59 ∧ ¬ (lib.floats.lt a.s (lib.floats.ofRat 0) ∨ lib.floats.le (lib.floats.ofRat 60) a.s)

/-- An angle in thousandths of a second, from the middle. -/
def Angle.encode (a : Angle F) : ℕ :=
  let fl := lib.floats
  let degrees := fl.mul (fl.mul (fl.ofRat a.d) (fl.ofRat 60)) (fl.ofRat 60)
  let seconds := fl.add (fl.add degrees (fl.mul (fl.ofRat a.m) (fl.ofRat 60))) a.s
  fl.toU32 (fl.add (fl.mul (fl.mul seconds (fl.ofRat 1000)) a.mul) (fl.ofRat (2 ^ 31)))

/-- The sum of two bytes. -/
def addBytes (a b : UInt8) : Except Failure UInt8 :=
  if a.toNat + b.toNat < 256 then .ok (a + b) else .error .panic

/-- `enc_size` -/
def encSize (size : F) : Except Failure UInt8 :=
  let fl := lib.floats
  let sizeExp := if !fl.eq size (fl.ofRat 0) then fl.floor (fl.log10 size) else fl.ofRat 0
  let sizeMan := fl.div size (fl.powf (fl.ofRat 10) sizeExp)
  addBytes ((fl.toU8 sizeMan <<< 4) &&& 0xF0) (fl.toU8 sizeExp &&& 0x0F)

/-- A size or a precision is in its bounds. -/
def validSize (q : F) : Bool :=
  ¬ (lib.floats.lt q (lib.floats.ofRat 0) ∨ lib.floats.lt (lib.floats.ofRat 90000000) q)

/-- `parse_loc` -/
def parseLoc (tokens : List Text) : Except Failure Bytes := do
  let fl := lib.floats
  let (lat, tokens) ← orError (parseAngle lib ['N'] ['S'] tokens)
  let (long, tokens) ← orError (parseAngle lib ['E'] ['W'] tokens)
  match tokens with
  | [] => .error .error
  | t :: tokens => do
    let alt ← orError (parseMetres lib t)
    let (size, tokens) ← orError (nextMetres lib 1 tokens)
    let (hp, tokens) ← orError (nextMetres lib 10000 tokens)
    let (vp, _) ← orError (nextMetres lib 10 tokens)
    if lat.valid lib 90 ∧ long.valid lib 180 ∧
        ¬ (fl.lt alt (fl.ofRat (-100000)) ∨ fl.lt (fl.ofRat 42849672.95) alt) ∧
        validSize lib size ∧ validSize lib hp ∧ validSize lib vp then do
      let size ← encSize lib (fl.mul size (fl.ofRat 100))
      let hp ← encSize lib (fl.mul hp (fl.ofRat 100))
      let vp ← encSize lib (fl.mul vp (fl.ofRat 100))
      let alt := fl.toU32 (fl.mul (fl.add alt (fl.ofRat 100000)) (fl.ofRat 100))
      return [0, size, hp, vp] ++ packUint 4 (lat.encode lib) ++ packUint 4 (long.encode lib) ++ packUint 4 alt
    else .error .error

/-! ### The match on the type -/

/-- An `RData::DNSSEC` -/
def dnssec (data : Except Failure DnssecRData) : Except Failure RData :=
  data.map fun data => ⟨none, lib.encode data⟩

/-- An `RData::Unknown` -/
def unknown (rdata : Except Failure Bytes) : Except Failure RData := rdata.map fun rdata => ⟨none, rdata⟩

/-- The rdata of a record. -/
def rdata (rtype : RecordType) (tokens : List Text) (origin : DnsLabel) : Except Failure RData :=
  match rtype with
  | .dnskey => dnssec lib ((orError (parseDnskey tokens)).map .dnskey)
  | .cdnskey => dnssec lib ((orError (parseDnskey tokens)).map .cdnskey)
  | .nsec3param => dnssec lib ((orError (parseNsec3Param lib tokens)).map .nsec3param)
  | .nsec3 => dnssec lib ((orError (parseNsec3 lib tokens)).map .nsec3)
  | .ds => dnssec lib ((parseDs lib tokens).map .ds)
  | .cds => dnssec lib ((parseDs lib tokens).map .cds)
  | .rrsig => dnssec lib ((parseSig lib tokens).map .sig)
  | .key => .error .panic
  | .nsec => .error .panic
  | .dhcid => unknown (orError (parseDhcid tokens))
  | .dname => unknown (orError (parseDname lib tokens))
  | .loc => unknown (parseLoc lib tokens)
  | .rp => unknown (orError (parseRp lib tokens))
  | rtype => orError (lib.parse rtype.toTrust tokens origin)

end

/-! ### The other models of digests and locations -/

section
variable {F : Type} {fields : Fields F}

theorem digestLoop_cut {a b : Text} (ha : byteLength a = 2) : digestLoop (a ++ b) =
    orError (byteOfRadix a) >>= fun byte => digestLoop b >>= fun digest => .ok (byte :: digest) := by
  have hsplit : splitAt 2 (a ++ b) = some (a, b) := splitAt_eq_some.mpr ⟨rfl, ha⟩
  have hlen : byteLength (a ++ b) = 2 + byteLength b := by rw [byteLength_append, ha]
  have hboundary : IsCharBoundary (a ++ b) 2 := isCharBoundary_iff.mpr ⟨a, b, rfl, ha⟩
  rw [digestLoop, if_neg (by omega), if_neg (not_not.mpr hboundary)]
  split
  · rename_i hnone
    rw [hsplit] at hnone
    cases hnone
  · rename_i a' b' hsome
    rw [hsplit] at hsome
    obtain ⟨rfl, rfl⟩ := Prod.mk.inj (Option.some.inj hsome)
    rfl

theorem digestLoop_inside {s : Text} (hlen : 2 ≤ byteLength s) (h : ¬ IsCharBoundary s 2) :
    digestLoop s = .error .error := by
  rw [digestLoop, if_neg (by omega), if_pos h]

/-- A first character of more than one byte is no number. -/
theorem digestLoop_wide {c : Char} (hc : c.utf8Size ≠ 1) (t : Text) : digestLoop (c :: t) = .error .error := by
  have hpos : 0 < c.utf8Size := c.utf8Size_pos
  by_cases htwo : c.utf8Size = 2
  · have ha : byteLength [c] = 2 := by simp [byteLength, htwo]
    have hcut := digestLoop_cut (b := t) ha
    rw [List.singleton_append] at hcut
    rw [hcut]
    rfl
  · have hlen : 2 ≤ byteLength (c :: t) := by
      rw [byteLength_cons]
      omega
    refine digestLoop_inside hlen fun hboundary => ?_
    rw [isCharBoundary_cons (by omega)] at hboundary
    omega

/-- **The loop over the digest** never cuts inside of a character. -/
theorem digestLoop_eq (s : Text) : digestLoop s = orError (digestBytes s) := by
  fun_induction digestBytes s with
  | case1 =>
    rw [digestLoop]
    rfl
  | case2 c hc =>
    have hlen : byteLength [c] = 1 := by simp [byteLength, hc]
    rw [digestLoop, if_pos (by omega)]
    rfl
  | case3 c hc => exact digestLoop_wide hc []
  | case4 c d t h ih =>
    have ha : byteLength [c, d] = 2 := by simp [byteLength, h.1, h.2]
    have hcut := digestLoop_cut (b := t) ha
    rw [List.cons_append, List.singleton_append] at hcut
    rw [hcut, ih]
    rcases hbyte : hexByte c d with _ | byte
    · simp [byteOfRadix, hbyte, orError]
      rfl
    · rcases digestBytes t with _ | digest
      · simp [byteOfRadix, hbyte, orError]
        rfl
      · simp [byteOfRadix, hbyte, orError]
        rfl
  | case5 c d t h =>
    by_cases hc : c.utf8Size = 1
    · have hpos : 0 < d.utf8Size := d.utf8Size_pos
      have hd : d.utf8Size ≠ 1 := fun hd => h ⟨hc, hd⟩
      refine digestLoop_inside ?_ fun hboundary => ?_
      · rw [byteLength_cons, byteLength_cons]
        omega
      · rw [isCharBoundary_cons (by omega), isCharBoundary_cons (by omega)] at hboundary
        omega
    · exact digestLoop_wide hc _

/-- **The digests** are those of the other module. -/
theorem parseDs_eq (tokens : List Text) :
    RdataParsers.parseDs fields tokens = orError (KeyData.parseDs fields.digestType tokens) := by
  rcases tokens with _ | ⟨tag, _ | ⟨algorithm, _ | ⟨digestType, tokens⟩⟩⟩
  · rfl
  · rfl
  · rfl
  unfold RdataParsers.parseDs KeyData.parseDs
  dsimp only
  rcases parseUint 16 tag with _ | tag
  · rfl
  rcases parseAlgorithm algorithm with _ | algorithm
  · rfl
  rcases (parseUint 8 digestType).filter (fields.digestType ·) with _ | digestType
  · rfl
  simp only [orError, Option.bind_eq_bind, Option.bind_some]
  by_cases hempty : tokens.flatten = []
  · show (if tokens.flatten = [] then _ else _) = _
    rw [if_pos hempty, if_pos hempty]
  · show (if tokens.flatten = [] then _ else _) = _
    rw [if_neg hempty, if_neg hempty, digestLoop_eq]
    rcases digestBytes tokens.flatten with _ | digest
    · rfl
    · rfl

end

/-- The floats as rationals, as in the module about locations. -/
def rational : Floats ℚ where
  parse := Loc.parseF64
  ofRat q := q
  eq x y := x = y
  lt x y := x < y
  le x y := x ≤ y
  add := (· + ·)
  mul := (· * ·)
  div := (· / ·)
  log10 x := Int.log 10 x
  floor x := ⌊x⌋
  powf x e := x ^ ⌊e⌋
  toU8 x := UInt8.ofNat (Loc.castUint 8 x)
  toU32 := Loc.castUint 32

/-- The same angle. -/
def Angle.toLoc (a : Angle ℚ) : Loc.Angle := ⟨a.d, a.m, a.s, a.mul⟩

section
variable {fields : Fields ℚ} (hfloats : fields.floats = rational)
include hfloats

theorem parseAngle_rational (plus minus : Text) (tokens : List Text) :
    (parseAngle fields plus minus tokens).map (fun p => (p.1.toLoc, p.2)) = Loc.parseAngle plus minus tokens := by
  rcases tokens with _ | ⟨d, _ | ⟨n, tokens⟩⟩
  · rfl
  · rfl
  unfold parseAngle Loc.parseAngle
  rw [hfloats]
  dsimp only
  rcases parseUint 32 d with _ | d
  · rfl
  simp only [Option.bind_eq_bind, Option.bind_some]
  by_cases hplus : n = plus
  · rw [if_pos hplus, if_pos hplus]
    rfl
  by_cases hminus : n = minus
  · rw [if_neg hplus, if_pos hminus, if_neg hplus, if_pos hminus]
    rfl
  rw [if_neg hplus, if_neg hminus, if_neg hplus, if_neg hminus]
  rcases parseUint 32 n with _ | m
  · rfl
  rcases tokens with _ | ⟨n, tokens⟩
  · rfl
  simp only [Option.bind_some]
  by_cases hplus : n = plus
  · rw [if_pos hplus, if_pos hplus]
    rfl
  by_cases hminus : n = minus
  · rw [if_neg hplus, if_pos hminus, if_neg hplus, if_pos hminus]
    rfl
  rw [if_neg hplus, if_neg hminus, if_neg hplus, if_neg hminus]
  show Option.map _ ((Loc.parseF64 n).bind _) = _
  rcases Loc.parseF64 n with _ | s
  · rfl
  rcases tokens with _ | ⟨n, tokens⟩
  · rfl
  simp only [Option.bind_some]
  split_ifs <;> rfl

theorem encSize_rational (size : ℚ) : encSize fields size = .ok (UInt8.ofNat (Loc.encSize size)) := by
  have hcast : ∀ x : ℚ, Loc.castUint 8 x < 256 := by
    intro x
    unfold Loc.castUint
    omega
  have hhigh : ∀ n < 256, ((UInt8.ofNat n <<< 4) &&& 0xF0).toNat = n % 16 * 16 := by decide +kernel
  have hlow : ∀ n < 256, (UInt8.ofNat n &&& 0x0F).toNat = n % 16 := by decide +kernel
  have hsum : ∀ x y : ℚ, addBytes ((rational.toU8 x <<< 4) &&& 0xF0) (rational.toU8 y &&& 0x0F) =
      .ok (UInt8.ofNat (Loc.castUint 8 x % 16 * 16 + Loc.castUint 8 y % 16)) := by
    intro x y
    show addBytes ((UInt8.ofNat (Loc.castUint 8 x) <<< 4) &&& 0xF0) (UInt8.ofNat (Loc.castUint 8 y) &&& 0x0F) = _
    have hx := hhigh _ (hcast x)
    have hy := hlow _ (hcast y)
    unfold addBytes
    rw [if_pos (by omega)]
    refine congrArg Except.ok (UInt8.toNat_inj.mp ?_)
    rw [UInt8.toNat_add, hx, hy, UInt8.toNat_ofNat']
  unfold encSize Loc.encSize
  rw [hfloats]
  by_cases hsize : size = 0
  · subst hsize
    exact hsum _ _
  · have hexp : (if !rational.eq size (rational.ofRat 0) then rational.floor (rational.log10 size)
        else rational.ofRat 0) = (Int.log 10 size : ℚ) := by
      simp [rational, hsize]
    dsimp only
    rw [hexp, if_pos hsize, hsum]
    simp [rational]

theorem parseMetres_rational (t : Text) : parseMetres fields t = Loc.parseMetres t := by
  unfold parseMetres Loc.parseMetres
  rw [hfloats]
  rfl

theorem nextMetres_rational (q : ℚ) (tokens : List Text) :
    nextMetres fields q tokens = Loc.nextMetres q tokens := by
  rcases tokens with _ | ⟨t, tokens⟩
  · unfold nextMetres
    rw [hfloats]
    rfl
  · unfold nextMetres Loc.nextMetres
    dsimp only
    rw [parseMetres_rational hfloats]

theorem valid_rational (max : ℕ) (a : Angle ℚ) : a.valid fields max = a.toLoc.valid max := by
  unfold Angle.valid Loc.Angle.valid
  rw [hfloats]
  simp [rational, Angle.toLoc]

theorem validSize_rational (q : ℚ) : validSize fields q ↔ ¬ (q < 0 ∨ 90000000 < q) := by
  unfold validSize
  rw [hfloats]
  simp [rational]

theorem encode_rational (a : Angle ℚ) : a.encode fields = a.toLoc.encode := by
  unfold Angle.encode Loc.Angle.encode
  rw [hfloats]
  rfl

/-- **On rationals, the locations** are those of the other module. -/
theorem parseLoc_rational (tokens : List Text) : parseLoc fields tokens = orError (Loc.parseLoc tokens) := by
  unfold parseLoc Loc.parseLoc Loc.parseFields
  rw [← parseAngle_rational hfloats ['N'] ['S'] tokens]
  rcases parseAngle fields ['N'] ['S'] tokens with _ | ⟨lat, tokens⟩
  · rfl
  simp only [Option.map_some, Option.bind_eq_bind, Option.bind_some]
  rw [← parseAngle_rational hfloats ['E'] ['W'] tokens]
  show orError (parseAngle fields ['E'] ['W'] tokens) >>= _ = _
  rcases parseAngle fields ['E'] ['W'] tokens with _ | ⟨long, tokens⟩
  · rfl
  rcases tokens with _ | ⟨t, tokens⟩
  · rfl
  simp only [Option.map_some, Option.bind_some]
  show orError (parseMetres fields t) >>= _ = _
  rw [parseMetres_rational hfloats]
  rcases Loc.parseMetres t with _ | alt
  · rfl
  show orError (nextMetres fields 1 tokens) >>= _ = _
  rw [nextMetres_rational hfloats, Option.bind_some]
  rcases Loc.nextMetres 1 tokens with _ | ⟨size, tokens⟩
  · rfl
  show orError (nextMetres fields 10000 tokens) >>= _ = _
  rw [nextMetres_rational hfloats, Option.bind_some]
  rcases Loc.nextMetres 10000 tokens with _ | ⟨hp, tokens⟩
  · rfl
  show orError (nextMetres fields 10 tokens) >>= _ = _
  rw [nextMetres_rational hfloats, Option.bind_some]
  rcases Loc.nextMetres 10 tokens with _ | ⟨vp, tokens⟩
  · rfl
  rw [Option.bind_some]
  have hsizes : (∀ q ∈ [size, hp, vp], ¬ (q < 0 ∨ 90000000 < q)) ↔
      validSize fields size ∧ validSize fields hp ∧ validSize fields vp := by
    rw [validSize_rational hfloats, validSize_rational hfloats, validSize_rational hfloats]
    simp only [List.forall_mem_cons, List.not_mem_nil, false_implies, implies_true, and_true]
  have halt : (fields.floats.lt alt (fields.floats.ofRat (-100000)) ∨
      fields.floats.lt (fields.floats.ofRat 42849672.95) alt) ↔ (alt < -100000 ∨ 42849672.95 < alt) := by
    rw [hfloats]
    simp [rational]
  have hvalid : (lat.valid fields 90 ∧ long.valid fields 180 ∧
      ¬ (fields.floats.lt alt (fields.floats.ofRat (-100000)) ∨ fields.floats.lt (fields.floats.ofRat 42849672.95) alt) ∧
      validSize fields size ∧ validSize fields hp ∧ validSize fields vp) ↔
      (lat.toLoc.valid 90 ∧ long.toLoc.valid 180 ∧ ¬ (alt < -100000 ∨ 42849672.95 < alt) ∧
        ∀ q ∈ [size, hp, vp], ¬ (q < 0 ∨ 90000000 < q)) := by
    rw [hsizes, halt, valid_rational hfloats, valid_rational hfloats]
  show (if _ then _ else _) = _
  by_cases h : lat.toLoc.valid 90 ∧ long.toLoc.valid 180 ∧ ¬ (alt < -100000 ∨ 42849672.95 < alt) ∧
      ∀ q ∈ [size, hp, vp], ¬ (q < 0 ∨ 90000000 < q)
  · rw [if_pos h, if_pos (hvalid.mpr h), encSize_rational hfloats, encSize_rational hfloats,
      encSize_rational hfloats, encode_rational hfloats, encode_rational hfloats, hfloats]
    rfl
  · rw [if_neg h, if_neg fun h' => h (hvalid.mp h')]
    rfl

end

end HexDns.Axfr.RdataParsers
