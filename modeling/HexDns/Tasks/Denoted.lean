import HexDns.Tasks.Addresses
import HexDns.Tasks.Lines
import HexDns.Tasks.Published
import HexDns.Tasks.Quoting

/-! # The records of a text

What a server takes the records of a zone file for: the owner in lower case, the TTL, the class, the
type, and the rdata in its wire form with names in lower case, read from the tokens of the line.
`Published` does the same for the fields of the rows that the lines are written from. -/

namespace HexDns.Tasks.Denoted

open HexDns.Lib.Texts HexDns.Lib.MasterFile HexDns.Base.Py HexDns.Base.Codecs HexDns.Base.Label
  HexDns.Base.Message HexDns.Models.Env HexDns.Models.Names HexDns.Tasks.ZoneFile HexDns.Tasks.Addresses
  HexDns.Tasks.Published HexDns.Tasks.Lines HexDns.Tasks.Quoting

/-- A record. -/
structure Denoted where
  owner : List Bytes
  ttl : ℕ
  rclass : QClass
  rtype : QType
  rdata : Bytes
  deriving DecidableEq, Repr

/-! ### Tokens -/

/-- The text of a word. -/
def wordText (t : Token) : Option Text := if t.quoted then none else decode t.bytes

/-- A number as an unsigned integer of so many bytes. -/
def tokenUint (bytes : ℕ) (t : Token) : Option Bytes := (readNat t).bind fun n => uint bytes n

def tokenName (origin : List Bytes) (t : Token) : Option Bytes := (readName origin t).map nameWire

/-- The text of words without the blanks between them. -/
def wordsText (ts : List Token) : Option Text := (ts.mapM wordText).map List.flatten

def tokensHex (ts : List Token) : Option Bytes :=
  (wordsText ts).bind fun t => (fromHex t).toOption

def tokensBase64 (ts : List Token) : Option Bytes :=
  (wordsText ts).bind fun t =>
    if t.all fun c => (base64Value c).isSome || c = '=' then readBase64 t else none

/-- The rdata of a type. -/
def tokensRdata (origin : List Bytes) : QType → List Token → Option Bytes
  | .a, [t] => ((wordText t).bind readIpv4).map fun a => packUint 4 a.toNat
  | .aaaa, [t] => ((wordText t).bind readIpv6).map fun a => packUint 16 a.toNat
  | .ns, [t] | .cname, [t] => tokenName origin t
  | .mx, [preference, t] => do return (← tokenUint 2 preference) ++ (← tokenName origin t)
  | .txt, ts => if ts = [] then none else (ts.mapM fun t => counted t.bytes).map List.flatten
  | .srv, [priority, weight, port, t] => do
    return (← tokenUint 2 priority) ++ (← tokenUint 2 weight) ++ (← tokenUint 2 port) ++
      (← tokenName origin t)
  | .caa, [flags, tag, value] => do
    return (← tokenUint 1 flags) ++ (← counted tag.bytes) ++ value.bytes
  | .naptr, [order, preference, flags, service, regexp, t] => do
    return (← tokenUint 2 order) ++ (← tokenUint 2 preference) ++ (← counted flags.bytes) ++
      (← counted service.bytes) ++ (← counted regexp.bytes) ++ (← tokenName origin t)
  | .sshfp, algorithm :: fingerprintType :: ts => do
    return (← tokenUint 1 algorithm) ++ (← tokenUint 1 fingerprintType) ++ (← tokensHex ts)
  | .ds, keyTag :: algorithm :: digestType :: ts => do
    return (← tokenUint 2 keyTag) ++ (← tokenUint 1 algorithm) ++ (← tokenUint 1 digestType) ++
      (← tokensHex ts)
  | .dnskey, flags :: protocol :: algorithm :: ts => do
    return (← tokenUint 2 flags) ++ (← tokenUint 1 protocol) ++ (← tokenUint 1 algorithm) ++
      (← tokensBase64 ts)
  | .hinfo, [cpu, os] => do return (← counted cpu.bytes) ++ (← counted os.bytes)
  | .rp, [mbox, txt] => do return (← tokenName origin mbox) ++ (← tokenName origin txt)
  | .dhcid, ts => tokensBase64 ts
  -- the form for types that the server does not know
  | .https, hash :: length :: ts => do
    let data ← tokensHex ts
    if hash.syms = [⟨35, true⟩] ∧ readNat length = some data.length then return data else none
  | .loc, ts => (ts.mapM wordText).bind fun words => readLoc (words.map .word)
  | _, _ => none

section
variable (origin : List Bytes) (t u v w x y : Token) (ts : List Token)

theorem tokensRdata_a : tokensRdata origin .a [t] =
    ((wordText t).bind readIpv4).map fun a => packUint 4 a.toNat := rfl

theorem tokensRdata_aaaa : tokensRdata origin .aaaa [t] =
    ((wordText t).bind readIpv6).map fun a => packUint 16 a.toNat := rfl

theorem tokensRdata_mx : tokensRdata origin .mx [t, u] =
    (do return (← tokenUint 2 t) ++ (← tokenName origin u)) := rfl

theorem tokensRdata_txt : tokensRdata origin .txt ts =
    if ts = [] then none else (ts.mapM fun t => counted t.bytes).map List.flatten := rfl

theorem tokensRdata_srv : tokensRdata origin .srv [t, u, v, w] =
    (do return (← tokenUint 2 t) ++ (← tokenUint 2 u) ++ (← tokenUint 2 v) ++ (← tokenName origin w)) := rfl

theorem tokensRdata_caa : tokensRdata origin .caa [t, u, v] =
    (do return (← tokenUint 1 t) ++ (← counted u.bytes) ++ v.bytes) := rfl

theorem tokensRdata_naptr : tokensRdata origin .naptr [t, u, v, w, x, y] =
    (do return (← tokenUint 2 t) ++ (← tokenUint 2 u) ++ (← counted v.bytes) ++ (← counted w.bytes) ++
      (← counted x.bytes) ++ (← tokenName origin y)) := rfl

theorem tokensRdata_ds : tokensRdata origin .ds (t :: u :: v :: ts) =
    (do return (← tokenUint 2 t) ++ (← tokenUint 1 u) ++ (← tokenUint 1 v) ++ (← tokensHex ts)) := rfl

theorem tokensRdata_sshfp : tokensRdata origin .sshfp (t :: u :: ts) =
    (do return (← tokenUint 1 t) ++ (← tokenUint 1 u) ++ (← tokensHex ts)) := rfl

theorem tokensRdata_hinfo : tokensRdata origin .hinfo [t, u] =
    (do return (← counted t.bytes) ++ (← counted u.bytes)) := rfl

theorem tokensRdata_rp : tokensRdata origin .rp [t, u] =
    (do return (← tokenName origin t) ++ (← tokenName origin u)) := rfl

theorem tokensRdata_loc : tokensRdata origin .loc ts =
    (ts.mapM wordText).bind fun words => readLoc (words.map .word) := rfl

end

/-- The types of the lines of rows. -/
def rowTypes : List QType :=
  [.a, .ns, .cname, .mx, .txt, .rp, .aaaa, .loc, .srv, .naptr, .ds, .sshfp, .dnskey, .dhcid, .https,
    .caa, .hinfo]

/-- The type with this name. -/
def readType (b : Bytes) : Option QType := rowTypes.find? fun t => encode (rtypeText t) = b

/-- The record that a record of a zone file is, with the origin of the file. -/
def denoted (origin : List Bytes) (r : Record) : Option Denoted := do
  let rtype ← readType r.rtype
  let rdata ← tokensRdata origin rtype r.rdata
  if r.rclass = encode "IN".toList then return ⟨DnsLabel.lower ⟨r.owner⟩, r.ttl, .in, rtype, rdata⟩
  else none

theorem denoted_lineRecord {origin labels : List Bytes} {ttl : ℕ} {rtype : QType} {ks : List Token}
    {wire : Bytes} (ht : rtype ∈ rowTypes) (hks : tokensRdata origin rtype ks = some wire) :
    denoted origin (lineRecord labels ttl (rtypeText rtype) ks) =
      some ⟨DnsLabel.lower ⟨labels⟩, ttl, .in, rtype, wire⟩ := by
  have htype : ∀ t ∈ rowTypes, readType (encode (rtypeText t)) = some t := by decide
  unfold denoted lineRecord
  rw [htype rtype ht, Option.bind_eq_bind, Option.bind_some, hks, Option.bind_eq_bind, Option.bind_some, if_pos rfl]
  rfl

/-! ### Words that are read back -/

theorem wordText_plainToken (t : Text) : wordText (plainToken t) = some t := by
  unfold wordText
  rw [bytes_plainToken]
  exact decode_encode t

theorem spells_num (n : ℕ) : Spells (Field.text (.num n)) (plainToken (showNat n)) := by
  have htext : Field.text (.num n) = showNat n := by
    show showInt n = showNat n
    unfold showInt
    rw [if_neg (by omega), Int.natAbs_natCast]
  rw [htext]
  exact spells_plain (isPlain_showNat n)

theorem tokenUint_showNat {bytes n : ℕ} (h : n < 256 ^ bytes) :
    tokenUint bytes (plainToken (showNat n)) = some (packUint bytes n) := by
  unfold tokenUint
  rw [showNat, readNat_digits, Option.bind_some, uint, if_pos ⟨by omega, by exact_mod_cast h⟩,
    Int.toNat_natCast]

/-- The name is printed as itself: it is the root, or its labels are clean. -/
def IsPrinted (l : DnsLabel) : Prop :=
  l.label = [] ∨
    (HasHead l.label ∧ (∀ m ∈ l.label, ∀ b ∈ m, CleanByte b) ∧ validLabels l.label = true)

theorem IsPrinted.spells {l : DnsLabel} (hl : IsPrinted l) (origin : List Bytes) :
    ∃ k, Spells (Field.text (.name l)) k ∧ tokenName origin k = some (nameWire l.label) := by
  rcases hl with hroot | ⟨hhead, hclean, hvalid⟩
  · obtain rfl : l = .root := by
      obtain ⟨ls⟩ := l
      exact congrArg DnsLabel.mk hroot
    exact ⟨plainToken ['.'], spells_plain (by decide), rfl⟩
  · refine ⟨nameToken l, spells_toText hhead hclean, ?_⟩
    unfold tokenName
    rw [readName_nameToken origin hhead hclean hvalid]
    rfl

theorem nameWire_congr {l m : DnsLabel} (h : l.Eqv m) : nameWire l.label = nameWire m.label := by
  have hwire : ∀ ls : List Bytes, nameWire ls =
      (ls.map (·.map lowerByte)).flatMap (fun l => UInt8.ofNat l.length :: l) ++ [0] := by
    intro ls
    unfold nameWire
    rw [List.flatMap_map]
    simp
  rw [hwire, hwire]
  exact congrArg (fun ls => List.flatMap (fun l => UInt8.ofNat l.length :: l) ls ++ [0]) h

theorem fromHex_hexlify (b : Bytes) : fromHex (hexlify b) = .ok b := by
  induction b with
  | nil => rfl
  | cons x b ih =>
    have hx : x.toNat < 256 := x.toNat_lt
    have hspace : ∀ d < 16, isAsciiSpace (Nat.digitChar d) = false := by decide
    have hcons : hexlify (x :: b) =
        Nat.digitChar (x.toNat / 16) :: Nat.digitChar (x.toNat % 16) :: hexlify b := rfl
    have hbyte : 16 * (x.toNat / 16) + x.toNat % 16 = x.toNat := Nat.div_add_mod _ _
    rw [hcons, fromHex, if_neg (by rw [hspace _ (by omega)]; exact Bool.false_ne_true),
      hexValue_digitChar _ (by omega), hexValue_digitChar _ (by omega), ih]
    show Except.ok (UInt8.ofNat _ :: b) = _
    rw [hbyte, UInt8.ofNat_toNat]

/-- Hexadecimal digits, of no bytes too. -/
theorem closes_hexlify (origin : List Bytes) (b : Bytes) :
    ∃ ks, Closes origin (hexlify b) ks [] ∧ tokensHex ks = some b := by
  by_cases hb : hexlify b = []
  · have hnil : b = [] := by
      have hdecode := fromHex_hexlify b
      rw [hb] at hdecode
      exact (Except.ok.inj hdecode).symm
    exact ⟨[], by rw [hb]; exact closes_words .nil, by rw [hnil]; rfl⟩
  · have hspells : List.Forall₂ Spells [hexlify b] [plainToken (hexlify b)] :=
      .cons (spells_plain ⟨hb, isSpecial_hexlify b⟩) .nil
    refine ⟨[plainToken (hexlify b)], ?_, ?_⟩
    · have hcloses : Closes origin ([' '].intercalate [hexlify b]) _ [] := closes_words hspells
      rwa [List.intercalate_singleton] at hcloses
    · have hwords : wordsText [plainToken (hexlify b)] = some (hexlify b) := by
        unfold wordsText
        rw [List.mapM_cons, wordText_plainToken]
        simp
      unfold tokensHex
      rw [hwords, Option.bind_some, fromHex_hexlify]
      rfl

theorem counted_eq_some {b : Bytes} (h : b.length < 256) :
    counted b = some (UInt8.ofNat b.length :: b) := if_pos h

/-- The fields of a record are read one by one. -/
theorem closes_fields (origin : List Bytes) {fs : List Field} {ks : List Token}
    (h : List.Forall₂ (fun f k => Spells f.text k) fs ks) :
    Closes origin ([' '].intercalate (fs.map Field.text)) ks [] :=
  closes_words (List.forall₂_map_left_iff.mpr h)

/-- The last field may be several words or none. -/
theorem closes_fields_after {origin : List Bytes} {fs : List Field} {ks ks' : List Token} {f : Field}
    (h : List.Forall₂ (fun f k => Spells f.text k) fs ks) (hne : fs ≠ [])
    (hf : Closes origin f.text ks' []) :
    Closes origin ([' '].intercalate ((fs ++ [f]).map Field.text)) (ks ++ ks') [] := by
  rw [List.map_append, intercalate_append (by simpa using hne) (by simp), List.map_singleton,
    List.intercalate_singleton]
  exact hf.after (List.forall₂_map_left_iff.mpr h) (by simpa using hne)

end HexDns.Tasks.Denoted
