import HexDns.Axfr.KeyData
import HexDns.Models.Validators
import HexDns.Tasks.Isolation

/-! # Key material between the zone file and the AXFR server

The lines of a zone file with DS, CDS, DNSKEY and CDNSKEY records, each with the key material that its
row has, and what `parse_ds` and `parse_dnskey` make of the words of a line. A word that is read from
the file goes to the parsers as it is.

The validators let more pass than the parsers take: other protocols and flags, other digest types, white
space that is not between words, and Base64 in another spelling. `accepted_iff` is the exact condition. -/

namespace HexDns.Axfr.KeyMaterial

open HexDns.Lib.Texts HexDns.Lib.MasterFile HexDns.Lib.Tables HexDns.Lib.Programs HexDns.Base.Py
  HexDns.Base.Codecs HexDns.Base.Label HexDns.Models.Db HexDns.Models.Env HexDns.Models.Names
  HexDns.Models.Validators HexDns.Tasks.ZoneFile HexDns.Tasks.Lines HexDns.Tasks.Addresses
  HexDns.Tasks.Denoted HexDns.Tasks.Isolation HexDns.Axfr.KeyData

/-! ### Lines -/

/-- The key material of a record. -/
inductive Key
  | ds (keyTag algorithm digestType : ℕ) (digest : Bytes)
  | dnskey (flags protocol algorithm : ℕ) (publicKey : Bytes)
  deriving DecidableEq, Repr

/-- The types of the records with key material. -/
inductive KeyType
  | ds | cds | dnskey | cdnskey
  deriving DecidableEq, Repr

def KeyType.text : KeyType → Text
  | .ds => "DS".toList
  | .cds => "CDS".toList
  | .dnskey => "DNSKEY".toList
  | .cdnskey => "CDNSKEY".toList

theorem KeyType.text_ds : KeyType.text .ds = rtypeText .ds := rfl

theorem KeyType.text_cds : KeyType.text .cds = "CDS".toList := rfl

theorem KeyType.text_dnskey : KeyType.text .dnskey = rtypeText .dnskey := rfl

theorem KeyType.text_cdnskey : KeyType.text .cdnskey = "CDNSKEY".toList := rfl

/-- What `flush_record` reads from the words of the rdata; the protocol of a `DNSKEY` is 3. -/
def KeyType.parse (defined : ℕ → Bool) (t : KeyType) (words : List Text) : Option Key :=
  match t with
  | .ds | .cds => (parseDs defined words).map fun d => .ds d.keyTag d.algorithm d.digestType d.digest
  | .dnskey | .cdnskey => (parseDnskey words).map fun k => .dnskey k.flags 3 k.algorithm k.publicKey

/-- A record line of a zone file, with the comment before it and the key material that it is written
from. -/
structure KeyLine where
  before : Text
  owner : Text
  ttl : ℕ
  type : KeyType
  rdata : Text
  key : Option Key
  deriving DecidableEq, Repr

def KeyLine.text (l : KeyLine) : Text := l.before ++ recordLine l.owner l.ttl l.type.text l.rdata

section
variable (h : Host)

/-- The two lines of a zone with CDS disabled. -/
def disabledLines (owner : Text) : List KeyLine :=
  [⟨[], owner, 86400, .cds, "0 0 0 00".toList, some (.ds 0 0 0 [0])⟩,
    ⟨[], owner, 86400, .cdnskey, "0 3 0 AA==".toList, some (.dnskey 0 3 0 [0])⟩]

/-- The CDS line of the key of the service. -/
def ownCdsLine (owner : Text) (zoneName : Bytes) : KeyLine :=
  let digest := h.sha256 (zoneName ++ dnskeyData h)
  let tag := makeKeyTag (dnskeyData h)
  ⟨[], owner, 86400, .cds, showNat tag ++ " 13 2 ".toList ++ hexlify digest, some (.ds tag 13 2 digest)⟩

/-- Its CDNSKEY line. -/
def ownCdnskeyLine (owner : Text) : KeyLine :=
  ⟨[], owner, 86400, .cdnskey, "257 3 13 ".toList ++ b64encode h.dnssecKey,
    some (.dnskey 257 3 13 h.dnssecKey)⟩

def cdsLine (owner : Text) (cds : AdditionalCds) : KeyLine :=
  ⟨line ["; Additional CDS ".toList, showNat cds.id], owner, 86400, .cds, cdsRdata cds,
    (fromHex cds.digest).toOption.map
      (.ds cds.keyTag.toNat cds.algorithm.toNat cds.digestType.toNat)⟩

def cdnskeyLine (owner : Text) (cdnskey : AdditionalCdnskey) : KeyLine :=
  ⟨line ["; Additional CDNSKEY ".toList, showNat cdnskey.id], owner, 86400, .cdnskey, cdnskeyRdata cdnskey,
    (b64decode cdnskey.publicKey).toOption.map
      (.dnskey cdnskey.flags.toNat cdnskey.protocol.toNat cdnskey.algorithm.toNat)⟩

/-- The lines of the additional CDS rows. -/
def cdsLines (st : Store) (zone : Zone) (owner : Text) : List KeyLine :=
  (st.additionalCds.rows.filter fun cds => cds.dnsZone = zone.id).map (cdsLine owner)

/-- The lines of the additional CDNSKEY rows. -/
def cdnskeyLines (st : Store) (zone : Zone) (owner : Text) : List KeyLine :=
  (st.additionalCdnskey.rows.filter fun cdnskey => cdnskey.dnsZone = zone.id).map (cdnskeyLine owner)

/-- The lines of `generate_zone_header`. -/
def headerLines (st : Store) (zone : Zone) (zoneRoot : DnsLabel) (owner : Text) :
    Except PyErr (List KeyLine) :=
  if zone.cdsDisable then .ok (disabledLines owner)
  else do
    let zoneName ← h.encodeName zoneRoot
    return ownCdsLine h owner zoneName :: cdsLines st zone owner ++
      ownCdnskeyLine h owner :: cdnskeyLines st zone owner

/-- The line of a DS or DNSKEY row. -/
def rowLine (self : Row) : Option KeyLine :=
  (ownerText h self).bind fun owner =>
    let before := line ["; ".toList, comment self.model, " record ".toList, showNat self.id]
    match self.data with
    | .ds keyTag algorithm digestType digest =>
      some ⟨before, owner, self.ttl, .ds,
        [' '].intercalate [showInt keyTag, showInt algorithm, showInt digestType, digest],
        (fromHex digest).toOption.map (.ds keyTag algorithm digestType)⟩
    | .dnskey flags protocol algorithm publicKey =>
      some ⟨before, owner, self.ttl, .dnskey,
        [' '].intercalate [showInt flags, showInt protocol, showInt algorithm, (showVal publicKey).text],
        match publicKey with
        | .str t => (b64decode t).toOption.map (.dnskey flags protocol algorithm)
        | _ => none⟩
    | _ => none

/-- The lines of the DS and DNSKEY rows of a zone. -/
def rowLines (st : Store) (zone : Zone) : List KeyLine :=
  (rowsOf st zone .ds ++ rowsOf st zone .dnskey).filterMap (rowLine h)

/-- The lines with key material of the file of a zone. -/
def keyLines (st : Store) (zone : Zone) (zoneRoot : DnsLabel) : Except PyErr (List KeyLine) := do
  return (← headerLines h st zone zoneRoot ['@']) ++ rowLines h st zone

end

/-! ### The statement -/

/-- The rdata is read as these words, and ends its line. -/
def Words (rdata : Text) (words : List Text) : Prop :=
  ∃ ks : List Token, Ends rdata ks [] ∧ ks.mapM (decode ·.bytes) = some words

/-- **The line is accepted**, and decodes to the key material that it is written from. -/
def KeyLine.Accepted (defined : ℕ → Bool) (l : KeyLine) : Prop :=
  ∃ words key, Words l.rdata words ∧ l.key = some key ∧ l.type.parse defined words = some key

/-- As far as there are pairs of characters, they are hexadecimal digits. -/
def HexPairs : Text → Prop
  | c :: d :: t => (hexValue c).isSome ∧ (hexValue d).isSome ∧ HexPairs t
  | _ => True

/-- The digest type is known, and the words after the three numbers, joined, are hexadecimal digits. -/
def FitsDigest (defined : ℕ → Bool) (digestType : ℕ) (rdata : Text) : Prop :=
  defined digestType = true ∧ ∃ words, Words rdata words ∧ (words.drop 3).flatten ≠ [] ∧
    HexPairs (words.drop 3).flatten

/-- The protocol is 3, there are no flags but those of zone keys, key-signing keys and revoked keys, and
the first word after the three numbers is what the key is encoded to. -/
def FitsKey (flags protocol : ℕ) (publicKey : Bytes) (rdata : Text) : Prop :=
  protocol = 3 ∧ flags ∈ [0, 1, 128, 129, 256, 257, 384, 385] ∧ publicKey ≠ [] ∧
    ∃ words, Words rdata words ∧ words[3]? = some (b64encode publicKey)

/-- The row of a line meets the conditions. -/
def KeyLine.Fits (defined : ℕ → Bool) (l : KeyLine) : Prop :=
  match l.key with
  | some (.ds _ _ digestType _) => FitsDigest defined digestType l.rdata
  | some (.dnskey flags protocol _ publicKey) => FitsKey flags protocol publicKey l.rdata
  | none => False

/-- The lines of the rows of a zone. -/
def storedLines (h : Host) (st : Store) (zone : Zone) : List KeyLine :=
  cdsLines st zone ['@'] ++ cdnskeyLines st zone ['@'] ++ rowLines h st zone

/-- The rows with key material of a zone pass their validators. -/
structure Valid (st : Store) (zone : Zone) : Prop where
  cds : ∀ cds ∈ st.additionalCds, cds.dnsZone = zone.id → cleanCds cds = .ok ()
  cdnskey : ∀ cdnskey ∈ st.additionalCdnskey, cdnskey.dnsZone = zone.id → cleanCdnskey cdnskey = .ok ()
  ds : ∀ r ∈ rowsOf st zone .ds, cleanDsRecord r = .ok ()
  dnskey : ∀ r ∈ rowsOf st zone .dnskey, cleanDnskeyRecord r = .ok ()

/-! ### Where the lines stand -/

section
variable {h : Host} {st : Store} {zone : Zone} {zoneRoot : DnsLabel}

/-- The text of the CDS and CDNSKEY records is that of the lines. -/
theorem cdsText_eq (owner : Text) : cdsText h st zone zoneRoot owner =
    (headerLines h st zone zoneRoot owner).map (·.flatMap KeyLine.text) := by
  unfold cdsText headerLines
  by_cases hd : zone.cdsDisable = true
  · rw [if_pos hd, if_pos hd]
    show Except.ok _ = Except.ok _
    simp only [disabledLines, List.flatMap_cons, List.flatMap_nil, KeyLine.text, KeyType.text_cds,
      KeyType.text_cdnskey, List.nil_append, List.append_nil]
  rw [if_neg hd, if_neg hd]
  unfold makeZoneDigest
  rcases h.encodeName zoneRoot with e | name
  · rfl
  · show Except.ok _ = Except.ok _
    simp only [cdsLines, cdnskeyLines, List.flatMap_map, List.cons_append, List.flatMap_cons, List.flatMap_append,
      KeyLine.text, ownCdsLine, ownCdnskeyLine, cdsLine, cdnskeyLine, KeyType.text_cds,
      KeyType.text_cdnskey, List.nil_append, List.append_assoc]

/-- The text of a row is that of its line. -/
theorem rowText_eq {self : Row} {l : KeyLine} (hl : rowLine h self = some l) :
    rowText h st zone zoneRoot self = .ok l.text := by
  obtain ⟨owner, howner, hl⟩ := Option.bind_eq_some_iff.mp hl
  unfold rowText
  rw [howner]
  unfold published
  rcases hdata : self.data with _ | _ | _ | _ | _ | _ | _ | _ | _ | _ | _ | _ | ⟨a, b, c, digest⟩ |
    ⟨a, b, c, key⟩ | _ | _ | _ | _ | _ | _ <;>
    simp only [hdata] at hl
  case ds =>
    obtain rfl := Option.some.inj hl
    show Except.ok _ = Except.ok _
    simp [KeyLine.text, publishedLine, KeyType.text_ds, Field.text]
  case dnskey =>
    obtain rfl := Option.some.inj hl
    show Except.ok _ = Except.ok _
    simp [KeyLine.text, publishedLine, KeyType.text_dnskey, Field.text]
  all_goals cases hl

end

/-! ### The words of a line -/

section
variable {a b c : ℕ} {t : Text} {words : List Text}

/-- The rdata of three numbers and a text. -/
def numbered (a b c : ℕ) (t : Text) : Text := [' '].intercalate [showNat a, showNat b, showNat c, t]

/-- The numbers are the first words; what follows are the characters of the text, but for the blanks
and newlines. -/
theorem words_numbered (h : Words (numbered a b c t) words) :
    ∃ rest, words = showNat a :: showNat b :: showNat c :: rest ∧
      ((∀ c ∈ t, Lexer.IsSimple c) → rest.flatten = t.filter fun c => !Lexer.isSpecial c) := by
  obtain ⟨ks, hends, hwords⟩ := h
  have htext : numbered a b c t = [' '].intercalate [showNat a, showNat b, showNat c] ++ [' '] ++ t := by
    simp [numbered, List.intercalate]
  have hspells : List.Forall₂ Spells [showNat a, showNat b, showNat c]
      [plainToken (showNat a), plainToken (showNat b), plainToken (showNat c)] :=
    .cons (spells_plain (isPlain_showNat a)) (.cons (spells_plain (isPlain_showNat b))
      (.cons (spells_plain (isPlain_showNat c)) .nil))
  rw [htext] at hends
  obtain ⟨ks', rfl, hbytes⟩ := Ends.words_before hspells (by simp) hends
  have hdecode : ∀ n, decode (plainToken (showNat n)).bytes = some (showNat n) := fun n => by
    rw [bytes_plainToken, decode_encode]
  simp only [List.cons_append, List.nil_append, List.mapM_cons, hdecode, Option.pure_def,
    Option.bind_eq_bind, Option.bind_some, Option.bind_eq_some_iff, Option.some.injEq] at hwords
  obtain ⟨_, ⟨_, ⟨rest, hrest, rfl⟩, rfl⟩, rfl⟩ := hwords
  refine ⟨rest, rfl, fun hsimple => encode_inj ?_⟩
  rw [← hbytes hsimple]
  clear hbytes hends
  induction ks' generalizing rest with
  | nil =>
    obtain rfl := Option.some.inj hrest
    rfl
  | cons k ks' ih =>
    simp only [List.mapM_cons, Option.pure_def, Option.bind_eq_bind, Option.bind_eq_some_iff,
      Option.some.injEq] at hrest
    obtain ⟨w, hw, ws, hws, rfl⟩ := hrest
    rw [List.flatten_cons, encode_append, ih ws hws, decode_eq_some.mp hw]
    rfl

/-- A text that is a word is the only one after the numbers. -/
theorem words_of_plain (ht : IsPlain t) :
    Words (numbered a b c t) [showNat a, showNat b, showNat c, t] := by
  have hspells : List.Forall₂ Spells [showNat a, showNat b, showNat c, t]
      [plainToken (showNat a), plainToken (showNat b), plainToken (showNat c), plainToken t] :=
    .cons (spells_plain (isPlain_showNat a)) (.cons (spells_plain (isPlain_showNat b))
      (.cons (spells_plain (isPlain_showNat c)) (.cons (spells_plain ht) .nil)))
  refine ⟨_, ends_words hspells, ?_⟩
  simp [decode_encode]

end

/-! ### Digests -/

/-- The characters that `bytes.fromhex` takes. -/
theorem char_of_fromHex {t : Text} {d : Bytes} (h : fromHex t = .ok d) :
    ∀ c ∈ t, (hexValue c).isSome ∨ isAsciiSpace c = true := by
  fun_induction fromHex t generalizing d with
  | case1 => exact fun c hc => (nomatch hc)
  | case2 c hc => simp [hc]
  | case3 => cases h
  | case4 c e t hc ih =>
    intro x hx
    rcases List.mem_cons.mp hx with rfl | hx
    · exact Or.inr hc
    · exact ih h x hx
  | case5 c e t hspace x y hy hx ih =>
    obtain ⟨d', hd', -⟩ := exists_of_map_ok h
    intro z hz
    simp only [List.mem_cons] at hz
    rcases hz with rfl | rfl | hz
    · exact Or.inl (by rw [hx]; rfl)
    · exact Or.inl (by rw [hy]; rfl)
    · exact ih hd' z hz
  | case6 => cases h

theorem toNat_of_isAsciiSpace {c : Char} (h : isAsciiSpace c = true) :
    (9 ≤ c.toNat ∧ c.toNat ≤ 13) ∨ c.toNat = 32 := by
  simpa [isAsciiSpace] using h

theorem not_special_of_hexValue {c : Char} (h : (hexValue c).isSome) : Lexer.isSpecial c = false := by
  have hc := toNat_of_hexValue h
  have hne : ∀ d : Char, (d.toNat < 48 ∨ d.toNat = 59 ∨ d.toNat = 92) → c ≠ d := by
    rintro d hd rfl
    omega
  simp [Lexer.isSpecial, Lexer.isBlank, hne ' ' (by decide), hne '\t' (by decide), hne '\r' (by decide),
    hne '\n' (by decide), hne ';' (by decide), hne '(' (by decide), hne ')' (by decide), hne '"' (by decide),
    hne '\\' (by decide)]

/-- The text of a digest is read in words as it stands. -/
theorem isSimple_of_fromHex {t : Text} {d : Bytes} (h : fromHex t = .ok d) : ∀ c ∈ t, Lexer.IsSimple c := by
  intro c hc
  rcases char_of_fromHex h c hc with hhex | hspace
  · exact Or.inl (not_special_of_hexValue hhex)
  · by_cases hsp : Lexer.isSpecial c = true
    · have hc := toNat_of_isAsciiSpace hspace
      have hne : ∀ d : Char, (33 ≤ d.toNat) → c ≠ d := by
        rintro d hd rfl
        omega
      have hblank : Lexer.isBlank c = true ∨ c = '\n' := by
        simpa [Lexer.isSpecial, hne ';' (by decide), hne '(' (by decide), hne ')' (by decide),
          hne '"' (by decide), hne '\\' (by decide)] using hsp
      exact Or.inr hblank
    · exact Or.inl (by simpa using hsp)

theorem hexPairs_of_digestBytes {t : Text} {d : Bytes} (hplus : '+' ∉ t) (h : digestBytes t = some d) :
    HexPairs t := by
  fun_induction digestBytes t generalizing d with
  | case1 => exact trivial
  | case2 => exact trivial
  | case3 => exact trivial
  | case4 c e t hsize ih =>
    obtain ⟨b, hb, h⟩ := Option.bind_eq_some_iff.mp h
    obtain ⟨d', hd', -⟩ := Option.map_eq_some_iff.mp h
    have hc : c ≠ '+' := fun hc => hplus (hc ▸ List.mem_cons_self)
    unfold hexByte at hb
    rw [if_neg hc] at hb
    obtain ⟨x, hx, hb⟩ := Option.bind_eq_some_iff.mp hb
    obtain ⟨y, hy, -⟩ := Option.map_eq_some_iff.mp hb
    refine ⟨by rw [hx]; rfl, by rw [hy]; rfl, ih (fun hmem => hplus ?_) hd'⟩
    exact List.mem_cons_of_mem _ (List.mem_cons_of_mem _ hmem)
  | case5 => cases h

/-- **The loop over the digest and `bytes.fromhex` agree**, where the loop comes to hexadecimal digits
only. -/
theorem digestBytes_of_fromHex {t : Text} {d : Bytes} (h : fromHex t = .ok d)
    (hpairs : HexPairs (t.filter fun c => !Lexer.isSpecial c)) :
    digestBytes (t.filter fun c => !Lexer.isSpecial c) = some d := by
  have hsize : ∀ c : Char, c.toNat < 128 → c.utf8Size = 1 := fun c hc => utf8Size_eq_one_iff.mpr hc
  fun_induction fromHex t generalizing d with
  | case1 =>
    obtain rfl := Except.ok.inj h
    rfl
  | case2 c hc =>
    obtain rfl := Except.ok.inj h
    have hascii := toNat_of_isAsciiSpace hc
    by_cases hsp : Lexer.isSpecial c = true
    · simp [hsp, digestBytes]
    · simp [hsp, digestBytes, hsize c (by omega)]
  | case3 => cases h
  | case4 c e t hc ih =>
    by_cases hsp : Lexer.isSpecial c = true
    · rw [List.filter_cons_of_neg (by simpa using hsp)] at hpairs ⊢
      exact ih h hpairs
    · -- a white space character that is part of a word: it can only be the last
      rw [List.filter_cons_of_pos (by simpa using hsp)] at hpairs ⊢
      have hascii := toNat_of_isAsciiSpace hc
      rcases hw : (e :: t).filter fun c => !Lexer.isSpecial c with _ | ⟨x, w⟩
      · rw [hw] at ih
        have hnil := ih h trivial
        rw [digestBytes, if_pos (hsize c (by omega))]
        exact hnil
      · rw [hw] at hpairs
        have hhex := toNat_of_hexValue hpairs.1
        omega
  | case5 c e t hspace x y hy hx ih =>
    obtain ⟨d', hd', rfl⟩ := exists_of_map_ok h
    have hc : (hexValue c).isSome := by rw [hx]; rfl
    have he : (hexValue e).isSome := by rw [hy]; rfl
    rw [List.filter_cons_of_pos (by rw [not_special_of_hexValue hc]; rfl),
      List.filter_cons_of_pos (by rw [not_special_of_hexValue he]; rfl)] at hpairs ⊢
    have hcn := toNat_of_hexValue hc
    have hen := toNat_of_hexValue he
    rw [digestBytes, if_pos ⟨hsize c (by omega), hsize e (by omega)⟩, hexByte_digits hx hy, ih hd' hpairs.2.2]
    rfl
  | case6 => cases h

/-! ### Lines with numbers that fit -/

/-- What the validators see to, and the lines of the service itself have: numbers that fit, and a digest
or a key that the Python side can decode. -/
inductive KeyLine.Checked (l : KeyLine) : Prop
  | digest {a b c : ℕ} {t : Text} {d : Bytes} (ha : a < 65536) (hb : b < 256) (hc : c < 256)
    (htype : l.type = .ds ∨ l.type = .cds) (hrdata : l.rdata = numbered a b c t) (ht : fromHex t = .ok d)
    (hkey : l.key = some (.ds a b c d))
  | publicKey {a b c : ℕ} {t : Text} {d : Bytes} (ha : a < 65536) (hb : b < 256) (hc : c < 256)
    (htype : l.type = .dnskey ∨ l.type = .cdnskey) (hrdata : l.rdata = numbered a b c t)
    (ht : b64decode t = .ok d) (hkey : l.key = some (.dnskey a b c d))

section
variable {defined : ℕ → Bool} {a b c : ℕ} {rest : List Text}

theorem parseDs_numbers (ha : a < 65536) (hb : b < 256) (hc : c < 256) :
    parseDs defined (showNat a :: showNat b :: showNat c :: rest) =
      if defined c = true ∧ rest.flatten ≠ [] then (digestBytes rest.flatten).map (⟨a, b, c, ·⟩) else none := by
  simp only [parseDs]
  rw [show parseUint 16 (showNat a) = some a from parseUint_toDigits ha,
    show parseAlgorithm (showNat b) = some b from parseAlgorithm_toDigits hb,
    show parseUint 8 (showNat c) = some c from parseUint_toDigits hc]
  by_cases hdef : defined c = true
  · by_cases hrest : rest.flatten = []
    · simp [hdef, hrest]
    · simp only [Option.bind_eq_bind, Option.bind_some, Option.filter_some, hdef, if_true, hrest, if_false,
        ne_eq, not_false_eq_true, and_self]
      rcases digestBytes rest.flatten with _ | d <;> rfl
  · simp [hdef]

theorem parseDnskey_numbers (ha : a < 65536) (hb : b < 256) (hc : c < 256) :
    parseDnskey (showNat a :: showNat b :: showNat c :: rest) =
      rest.head?.bind fun pk => if pk = [] ∨ b ≠ 3 then none else
        (standardDecode pk).map (⟨a / 256 % 2 = 1, a % 2 = 1, a / 128 % 2 = 1, c, ·⟩) := by
  rcases rest with _ | ⟨pk, rest⟩
  · rfl
  simp only [parseDnskey]
  rw [show parseUint 16 (showNat a) = some a from parseUint_toDigits ha,
    show parseUint 8 (showNat b) = some b from parseUint_toDigits hb,
    show parseUint 8 (showNat c) = some c from parseUint_toDigits hc]
  simp only [Option.bind_eq_bind, Option.bind_some, List.head?_cons]
  split_ifs
  · rfl
  · rcases standardDecode pk with _ | d <;> rfl

/-- The three flags that are kept are all of them. -/
theorem flags_eq_iff (d : Bytes) : Dnskey.flags ⟨a / 256 % 2 = 1, a % 2 = 1, a / 128 % 2 = 1, c, d⟩ = a ↔
    a ∈ [0, 1, 128, 129, 256, 257, 384, 385] := by
  have hbit : ∀ n : ℕ, (decide (n % 2 = 1)).toNat = n % 2 := by
    intro n
    rcases Nat.mod_two_eq_zero_or_one n with h | h
    · simp [h]
    · simp [h]
  unfold Dnskey.flags
  simp only [hbit, List.mem_cons, List.not_mem_nil, or_false]
  omega

/-- **A line is accepted if and only if its row meets the conditions.** -/
theorem accepted_iff_fits {l : KeyLine} (h : l.Checked) : l.Accepted defined ↔ l.Fits defined := by
  rcases h with ⟨ha, hb, hc, htype, hrdata, ht, hkey⟩ | ⟨ha, hb, hc, htype, hrdata, ht, hkey⟩
  · rename_i a b c t d
    have hsimple := isSimple_of_fromHex ht
    have hplus : '+' ∉ t.filter fun c => !Lexer.isSpecial c := by
      intro hmem
      rcases char_of_fromHex ht '+' (List.mem_filter.mp hmem).1 with h | h
      · exact absurd h (by decide)
      · exact absurd h (by decide)
    have hparse : ∀ words, l.type.parse defined words =
        (parseDs defined words).map fun d => .ds d.keyTag d.algorithm d.digestType d.digest := by
      intro words
      rcases htype with h | h <;> rw [h] <;> rfl
    unfold KeyLine.Accepted KeyLine.Fits FitsDigest
    rw [hkey, hrdata]
    dsimp only
    constructor
    · rintro ⟨words, key, hwords, hsome, hline⟩
      obtain rfl := Option.some.inj hsome
      obtain ⟨rest, rfl, hrest⟩ := words_numbered hwords
      rw [hparse, parseDs_numbers ha hb hc] at hline
      by_cases hcond : defined c = true ∧ rest.flatten ≠ []
      · rw [if_pos hcond, hrest hsimple] at hline
        obtain ⟨ds, hds, -⟩ := Option.map_eq_some_iff.mp hline
        obtain ⟨d', hd', -⟩ := Option.map_eq_some_iff.mp hds
        refine ⟨hcond.1, _, hwords, hcond.2, ?_⟩
        show HexPairs rest.flatten
        rw [hrest hsimple]
        exact hexPairs_of_digestBytes hplus hd'
      · rw [if_neg hcond] at hline
        cases hline
    · rintro ⟨hdef, words, hwords, hne, hpairs⟩
      obtain ⟨rest, rfl, hrest⟩ := words_numbered hwords
      have hpairs : HexPairs rest.flatten := hpairs
      refine ⟨_, _, hwords, rfl, ?_⟩
      rw [hparse, parseDs_numbers ha hb hc, if_pos ⟨hdef, hne⟩, hrest hsimple,
        digestBytes_of_fromHex ht (hrest hsimple ▸ hpairs)]
      rfl
  · rename_i a b c t d
    have hparse : ∀ words, l.type.parse defined words =
        (parseDnskey words).map fun k => .dnskey k.flags 3 k.algorithm k.publicKey := by
      intro words
      rcases htype with h | h <;> rw [h] <;> rfl
    unfold KeyLine.Accepted KeyLine.Fits FitsKey
    rw [hkey, hrdata]
    dsimp only
    constructor
    · rintro ⟨words, key, hwords, hsome, hline⟩
      obtain rfl := Option.some.inj hsome
      obtain ⟨rest, rfl, -⟩ := words_numbered hwords
      rw [hparse, parseDnskey_numbers ha hb hc] at hline
      obtain ⟨k, hk, hline⟩ := Option.map_eq_some_iff.mp hline
      obtain ⟨pk, hpk, hk⟩ := Option.bind_eq_some_iff.mp hk
      by_cases hcond : pk = [] ∨ b ≠ 3
      · rw [if_pos hcond] at hk
        cases hk
      rw [if_neg hcond] at hk
      obtain ⟨d', hd', rfl⟩ := Option.map_eq_some_iff.mp hk
      obtain ⟨hflags, hprotocol, -, rfl⟩ := Key.dnskey.inj hline
      have hword := standardDecode_eq_some.mp hd'
      refine ⟨hprotocol.symm, (flags_eq_iff _).mp hflags, ?_, _, hwords, ?_⟩
      · rintro rfl
        exact hcond (Or.inl hword)
      · rw [← hword, ← hpk]
        rcases rest with _ | ⟨pk, rest⟩ <;> rfl
    · rintro ⟨rfl, hflags, hne, words, hwords, hword⟩
      obtain ⟨rest, rfl, -⟩ := words_numbered hwords
      have hhead : rest.head? = some (b64encode d) := by
        rw [← hword]
        rcases rest with _ | ⟨pk, rest⟩ <;> rfl
      have hpk := b64encode_ne_nil hne
      refine ⟨_, _, hwords, rfl, ?_⟩
      rw [hparse, parseDnskey_numbers ha hb hc, hhead, Option.bind_some, if_neg (by simp [hpk]),
        standardDecode_eq_some.mpr rfl]
      show some (Key.dnskey (Dnskey.flags _) 3 c d) = _
      rw [(flags_eq_iff _).mpr hflags]

end

/-! ### The lines of a zone -/

theorem showInt_of_nonneg {n : ℤ} (h : 0 ≤ n) : showInt n = showNat n.toNat := by
  unfold showInt
  rw [if_neg (by omega), show n.natAbs = n.toNat by omega]

theorem rangeValidator_eq_ok {lo hi value : ℤ} (h : rangeValidator lo hi value = .ok ()) :
    lo ≤ value ∧ value ≤ hi := by
  unfold rangeValidator at h
  split_ifs at h with hrange
  exact hrange

theorem hexValidator_eq_ok {value : Text} (h : hexValidator value = .ok ()) : ∃ d, fromHex value = .ok d := by
  unfold hexValidator at h
  rcases hd : fromHex value with e | d
  · rw [hd] at h
    cases h
  · exact ⟨d, rfl⟩

theorem b64Validator_eq_ok {value : Text} (h : b64Validator value = .ok ()) :
    ∃ d, b64decode value = .ok d := by
  unfold b64Validator at h
  rcases hd : b64decode value with e | d
  · rw [hd] at h
    cases e <;> cases h
  · exact ⟨d, rfl⟩

theorem checked_cdsLine {owner : Text} {cds : AdditionalCds} (h : cleanCds cds = .ok ()) :
    (cdsLine owner cds).Checked := by
  unfold cleanCds at h
  obtain ⟨⟨⟩, htag, h⟩ := bind_eq_ok.mp h
  obtain ⟨⟨⟩, halg, h⟩ := bind_eq_ok.mp h
  obtain ⟨⟨⟩, htype, h⟩ := bind_eq_ok.mp h
  obtain ⟨⟨⟩, -, hdigest⟩ := bind_eq_ok.mp h
  have htag := rangeValidator_eq_ok htag
  have halg := rangeValidator_eq_ok halg
  have htype := rangeValidator_eq_ok htype
  obtain ⟨d, hd⟩ := hexValidator_eq_ok hdigest
  refine .digest (a := cds.keyTag.toNat) (b := cds.algorithm.toNat) (c := cds.digestType.toNat) (by omega)
    (by omega) (by omega) (Or.inr rfl) ?_ hd ?_
  · show cdsRdata cds = _
    unfold cdsRdata numbered
    rw [showInt_of_nonneg htag.1, showInt_of_nonneg (by omega), showInt_of_nonneg (by omega)]
  · show (fromHex cds.digest).toOption.map _ = _
    rw [hd]
    rfl

theorem checked_cdnskeyLine {owner : Text} {cdnskey : AdditionalCdnskey} (h : cleanCdnskey cdnskey = .ok ()) :
    (cdnskeyLine owner cdnskey).Checked := by
  unfold cleanCdnskey at h
  obtain ⟨⟨⟩, hflags, h⟩ := bind_eq_ok.mp h
  obtain ⟨⟨⟩, hprotocol, h⟩ := bind_eq_ok.mp h
  obtain ⟨⟨⟩, halg, h⟩ := bind_eq_ok.mp h
  obtain ⟨⟨⟩, -, hkey⟩ := bind_eq_ok.mp h
  have hflags := rangeValidator_eq_ok hflags
  have hprotocol := rangeValidator_eq_ok hprotocol
  have halg := rangeValidator_eq_ok halg
  obtain ⟨d, hd⟩ := b64Validator_eq_ok hkey
  refine .publicKey (a := cdnskey.flags.toNat) (b := cdnskey.protocol.toNat) (c := cdnskey.algorithm.toNat)
    (by omega) (by omega) (by omega) (Or.inr rfl) ?_ hd ?_
  · show cdnskeyRdata cdnskey = _
    unfold cdnskeyRdata numbered
    rw [showInt_of_nonneg hflags.1, showInt_of_nonneg (by omega), showInt_of_nonneg (by omega)]
  · show (b64decode cdnskey.publicKey).toOption.map _ = _
    rw [hd]
    rfl

theorem lt_of_mem_dnssecAlgorithms : ∀ n ∈ dnssecAlgorithms, n < 256 := by decide

theorem lt_of_mem_digestTypes : ∀ n ∈ digestTypes, n < 256 := by decide

theorem showInt_natCast (n : ℕ) : showInt n = showNat n := showInt_of_nonneg (Int.natCast_nonneg n)

section
variable {h : Host} {self : Row} {l : KeyLine}

theorem checked_dsRow (hclean : cleanDsRecord self = .ok ()) (hl : rowLine h self = some l) : l.Checked := by
  unfold cleanDsRecord at hclean
  obtain ⟨⟨⟩, -, hclean⟩ := bind_eq_ok.mp hclean
  obtain ⟨⟨⟩, -, hclean⟩ := bind_eq_ok.mp hclean
  obtain ⟨owner, -, hl⟩ := Option.bind_eq_some_iff.mp hl
  rcases hdata : self.data with _ | _ | _ | _ | _ | _ | _ | _ | _ | _ | _ | _ | ⟨a, b, c, digest⟩ |
    ⟨a, b, c, key⟩ | _ | _ | _ | _ | _ | _ <;>
    simp only [hdata] at hl hclean
  case ds =>
    obtain ⟨⟨⟩, htag, hclean⟩ := bind_eq_ok.mp hclean
    have htag := rangeValidator_eq_ok htag
    by_cases halg : b ∈ dnssecAlgorithms
    swap
    · rw [if_neg halg] at hclean
      split_ifs at hclean <;> cases hclean
    by_cases htype : c ∈ digestTypes
    swap
    · rw [if_pos halg, if_neg htype] at hclean
      cases hclean
    rw [if_pos halg, if_pos htype] at hclean
    obtain ⟨⟨⟩, -, hdigest⟩ := bind_eq_ok.mp hclean
    obtain ⟨d, hd⟩ := hexValidator_eq_ok hdigest
    have halg := lt_of_mem_dnssecAlgorithms b halg
    have htype := lt_of_mem_digestTypes c htype
    obtain rfl := Option.some.inj hl
    refine .digest (a := a) (b := b) (c := c) (by omega) halg htype (Or.inl rfl) ?_ hd ?_
    · show [' '].intercalate _ = _
      unfold numbered
      rw [showInt_natCast, showInt_natCast, showInt_natCast]
    · show (fromHex digest).toOption.map _ = _
      rw [hd]
      rfl
  all_goals cases hclean

theorem checked_dnskeyRow (hclean : cleanDnskeyRecord self = .ok ()) (hl : rowLine h self = some l) :
    l.Checked := by
  unfold cleanDnskeyRecord at hclean
  obtain ⟨⟨⟩, -, hclean⟩ := bind_eq_ok.mp hclean
  obtain ⟨⟨⟩, -, hclean⟩ := bind_eq_ok.mp hclean
  obtain ⟨owner, -, hl⟩ := Option.bind_eq_some_iff.mp hl
  rcases hdata : self.data with _ | _ | _ | _ | _ | _ | _ | _ | _ | _ | _ | _ | ⟨a, b, c, digest⟩ |
    ⟨a, b, c, key⟩ | _ | _ | _ | _ | _ | _ <;>
    simp only [hdata] at hl hclean
  case dnskey =>
    rcases key with _ | _ | key <;> simp only at hclean hl
    case str =>
      obtain ⟨⟨⟩, hflags, hclean⟩ := bind_eq_ok.mp hclean
      obtain ⟨⟨⟩, hprotocol, hclean⟩ := bind_eq_ok.mp hclean
      by_cases halg : c ∈ dnssecAlgorithms
      swap
      · rw [if_neg halg] at hclean
        cases hclean
      rw [if_pos halg] at hclean
      obtain ⟨⟨⟩, -, hkey⟩ := bind_eq_ok.mp hclean
      have hflags := rangeValidator_eq_ok hflags
      have hprotocol := rangeValidator_eq_ok hprotocol
      obtain ⟨d, hd⟩ := b64Validator_eq_ok hkey
      have halg := lt_of_mem_dnssecAlgorithms c halg
      obtain rfl := Option.some.inj hl
      refine .publicKey (a := a) (b := b) (c := c) (by omega) (by omega) halg (Or.inl rfl) ?_ hd ?_
      · show [' '].intercalate _ = _
        unfold numbered
        rw [showInt_natCast, showInt_natCast, showInt_natCast]
        rfl
      · show (b64decode key).toOption.map _ = _
        rw [hd]
        rfl
    all_goals cases hclean
  all_goals cases hclean

end

/-! ### The lines of the service -/

theorem hexPairs_hexlify (b : Bytes) : HexPairs (hexlify b) := by
  induction b with
  | nil => exact trivial
  | cons x b ih =>
    have hx : x.toNat < 256 := x.toNat_lt
    refine ⟨?_, ?_, ih⟩
    · rw [hexValue_digitChar _ (by omega)]
      rfl
    · rw [hexValue_digitChar _ (by omega)]
      rfl

theorem hexlify_ne_nil {b : Bytes} (h : b ≠ []) : hexlify b ≠ [] := by
  intro hnil
  have hdecode := fromHex_hexlify b
  rw [hnil] at hdecode
  exact h (Except.ok.inj hdecode).symm

theorem fitsDigest_hexlify {defined : ℕ → Bool} {a b c : ℕ} {d : Bytes} (hc : defined c = true)
    (hd : d ≠ []) : FitsDigest defined c (numbered a b c (hexlify d)) := by
  have hwords := words_of_plain (a := a) (b := b) (c := c) ⟨hexlify_ne_nil hd, isSpecial_hexlify d⟩
  have hrest : ([showNat a, showNat b, showNat c, hexlify d].drop 3).flatten = hexlify d :=
    List.append_nil (hexlify d)
  refine ⟨hc, _, hwords, ?_, ?_⟩
  · rw [hrest]
    exact hexlify_ne_nil hd
  · rw [hrest]
    exact hexPairs_hexlify d

theorem fitsKey_b64encode {a c : ℕ} {d : Bytes} (ha : a ∈ [0, 1, 128, 129, 256, 257, 384, 385])
    (hd : d ≠ []) : FitsKey a 3 d (numbered a 3 c (b64encode d)) :=
  ⟨rfl, ha, hd, _, words_of_plain ⟨b64encode_ne_nil hd, isSpecial_b64encode d⟩, rfl⟩

section
variable {h : Host} {defined : ℕ → Bool} {owner : Text} {zoneName : Bytes}

theorem ownCdsLine_rdata : (ownCdsLine h owner zoneName).rdata =
    numbered (makeKeyTag (dnskeyData h)) 13 2 (hexlify (h.sha256 (zoneName ++ dnskeyData h))) := by
  have htexts : " 13 2 ".toList = ' ' :: showNat 13 ++ ' ' :: showNat 2 ++ [' '] := by decide
  show showNat _ ++ " 13 2 ".toList ++ hexlify _ = _
  rw [htexts]
  simp [numbered, List.intercalate]

theorem ownCdnskeyLine_rdata :
    (ownCdnskeyLine h owner).rdata = numbered 257 3 13 (b64encode h.dnssecKey) := by
  have htexts : "257 3 13 ".toList = showNat 257 ++ ' ' :: showNat 3 ++ ' ' :: showNat 13 ++ [' '] := by decide
  show "257 3 13 ".toList ++ b64encode h.dnssecKey = _
  rw [htexts]
  simp [numbered, List.intercalate]

theorem accepted_ownCdsLine (hsha256 : defined 2 = true) (hsha : ∀ b, h.sha256 b ≠ []) :
    (ownCdsLine h owner zoneName).Accepted defined := by
  have htag : makeKeyTag (dnskeyData h) < 65536 := Nat.mod_lt _ (by decide)
  refine (accepted_iff_fits (.digest htag (by decide) (by decide) (Or.inr rfl) ownCdsLine_rdata
    (fromHex_hexlify _) rfl)).mpr ?_
  show FitsDigest defined 2 (ownCdsLine h owner zoneName).rdata
  rw [ownCdsLine_rdata]
  exact fitsDigest_hexlify hsha256 (hsha _)

theorem accepted_ownCdnskeyLine (hkey : h.dnssecKey ≠ []) : (ownCdnskeyLine h owner).Accepted defined := by
  refine (accepted_iff_fits (.publicKey (by decide) (by decide) (by decide) (Or.inr rfl) ownCdnskeyLine_rdata
    (b64decode_b64encode _) rfl)).mpr ?_
  show FitsKey 257 3 h.dnssecKey (ownCdnskeyLine h owner).rdata
  rw [ownCdnskeyLine_rdata]
  exact fitsKey_b64encode (by decide) hkey

/-- The CDS line of a zone with CDS disabled has a digest type that is not known. -/
theorem not_accepted_disabled (owner : Text) (hzero : defined 0 = false) :
    ∃ l ∈ disabledLines owner, ¬ l.Accepted defined := by
  refine ⟨_, List.mem_cons_self, fun haccepted => ?_⟩
  have htext : "0 0 0 00".toList = numbered 0 0 0 "00".toList := by decide
  have hchecked : KeyLine.Checked ⟨[], owner, 86400, .cds, "0 0 0 00".toList, some (.ds 0 0 0 [0])⟩ :=
    .digest (by decide) (by decide) (by decide) (Or.inr rfl) htext (by decide) rfl
  have hfits : FitsDigest defined 0 "0 0 0 00".toList := (accepted_iff_fits hchecked).mp haccepted
  rw [FitsDigest, hzero] at hfits
  exact Bool.false_ne_true hfits.1

end

/-! ### The file of a zone -/

section
variable {h : Host} {st : Store} {zone : Zone} {zoneRoot : DnsLabel} {lines : List KeyLine}

theorem checked_storedLines (hvalid : Valid st zone) : ∀ l ∈ storedLines h st zone, l.Checked := by
  intro l hl
  rcases List.mem_append.mp hl with hl | hl
  · rcases List.mem_append.mp hl with hl | hl
    · obtain ⟨cds, hcds, rfl⟩ := List.mem_map.mp hl
      obtain ⟨hmem, hzone⟩ := List.mem_filter.mp hcds
      exact checked_cdsLine (hvalid.cds cds hmem (of_decide_eq_true hzone))
    · obtain ⟨cdnskey, hcdnskey, rfl⟩ := List.mem_map.mp hl
      obtain ⟨hmem, hzone⟩ := List.mem_filter.mp hcdnskey
      exact checked_cdnskeyLine (hvalid.cdnskey cdnskey hmem (of_decide_eq_true hzone))
  · obtain ⟨r, hr, hline⟩ := List.mem_filterMap.mp hl
    rcases List.mem_append.mp hr with hr | hr
    · exact checked_dsRow (hvalid.ds r hr) hline
    · exact checked_dnskeyRow (hvalid.dnskey r hr) hline

/-- The lines of a zone are its stored lines and the two of the service. -/
theorem mem_keyLines (hdisable : zone.cdsDisable = false) (hlines : keyLines h st zone zoneRoot = .ok lines) :
    ∃ zoneName, ∀ l, l ∈ lines ↔
      l = ownCdsLine h ['@'] zoneName ∨ l = ownCdnskeyLine h ['@'] ∨ l ∈ storedLines h st zone := by
  unfold keyLines at hlines
  obtain ⟨header, hheader, hlines⟩ := bind_eq_ok.mp hlines
  obtain rfl := Except.ok.inj hlines
  unfold headerLines at hheader
  rw [if_neg (by rw [hdisable]; exact Bool.false_ne_true)] at hheader
  obtain ⟨zoneName, -, hheader⟩ := bind_eq_ok.mp hheader
  obtain rfl := Except.ok.inj hheader
  refine ⟨zoneName, fun l => ?_⟩
  simp only [storedLines, List.mem_append, List.mem_cons, List.cons_append]
  tauto

/-- **The parsers agree with the writer on key material** if and only if CDS is not disabled and each
row with key material meets its condition. -/
theorem accepted_iff {defined : ℕ → Bool} (hzero : defined 0 = false) (hsha256 : defined 2 = true)
    (hsha : ∀ b, h.sha256 b ≠ []) (hkey : h.dnssecKey ≠ []) (hvalid : Valid st zone)
    (hlines : keyLines h st zone zoneRoot = .ok lines) :
    (∀ l ∈ lines, l.Accepted defined) ↔
      zone.cdsDisable = false ∧ ∀ l ∈ storedLines h st zone, l.Fits defined := by
  have hchecked := checked_storedLines (h := h) hvalid
  by_cases hdisable : zone.cdsDisable = true
  · refine iff_of_false (fun hall => ?_) fun hd => by rw [hdisable] at hd; cases hd.1
    obtain ⟨l, hl, hnot⟩ := not_accepted_disabled ['@'] hzero
    unfold keyLines headerLines at hlines
    rw [if_pos hdisable] at hlines
    obtain rfl := Except.ok.inj hlines
    exact hnot (hall l (List.mem_append_left _ hl))
  have hdisable : zone.cdsDisable = false := by simpa using hdisable
  obtain ⟨zoneName, hmem⟩ := mem_keyLines hdisable hlines
  constructor
  · intro hall
    refine ⟨hdisable, fun l hl => (accepted_iff_fits (hchecked l hl)).mp (hall l ?_)⟩
    exact (hmem l).mpr (Or.inr (Or.inr hl))
  · rintro ⟨-, hfits⟩ l hl
    rcases (hmem l).mp hl with rfl | rfl | hl
    · exact accepted_ownCdsLine hsha256 hsha
    · exact accepted_ownCdnskeyLine hkey
    · exact (accepted_iff_fits (hchecked l hl)).mpr (hfits l hl)

/-- The lines stand in the file. -/
theorem infix_of_generateFzone {time : ℕ} {file : Text} (hroot : DnsLabel.ofText h.py zone.zoneRoot = .ok zoneRoot)
    (hfile : generateFzone h st time zone = .ok file) :
    ∃ lines, keyLines h st zone zoneRoot = .ok lines ∧ ∀ l ∈ lines, l.text <:+: file := by
  unfold generateFzone at hfile
  obtain ⟨root, hroot', hfile⟩ := bind_eq_ok.mp hfile
  obtain rfl : zoneRoot = root := Except.ok.inj (hroot.symm.trans hroot')
  obtain ⟨header, hheader, hfile⟩ := bind_eq_ok.mp hfile
  obtain ⟨texts, htexts, hfile⟩ := bind_eq_ok.mp hfile
  obtain rfl := Except.ok.inj hfile
  unfold generateZoneHeader at hheader
  obtain ⟨primary, -, hheader⟩ := bind_eq_ok.mp hheader
  obtain ⟨ns, -, hheader⟩ := bind_eq_ok.mp hheader
  obtain ⟨cds, hcds, hheader⟩ := bind_eq_ok.mp hheader
  obtain rfl := Except.ok.inj hheader
  rw [cdsText_eq] at hcds
  obtain ⟨lines, hlines, rfl⟩ := exists_of_map_ok hcds
  refine ⟨lines ++ rowLines h st zone, ?_, fun l hl => ?_⟩
  · unfold keyLines
    rw [hlines]
    rfl
  rcases List.mem_append.mp hl with hl | hl
  · -- a line of the header
    have hline : l.text <:+: lines.flatMap KeyLine.text :=
      List.infix_of_mem_flatten (List.mem_map_of_mem hl)
    exact (hline.trans (List.suffix_append _ _).isInfix).trans (List.prefix_append _ _).isInfix
  · -- the line of a row
    obtain ⟨r, hr, hline⟩ := List.mem_filterMap.mp hl
    have hmem : r ∈ publishedModels.flatMap (rowsOf st zone) := by
      rcases List.mem_append.mp hr with hr | hr
      · exact List.mem_flatMap.mpr ⟨.ds, by decide, hr⟩
      · exact List.mem_flatMap.mpr ⟨.dnskey, by decide, hr⟩
    obtain ⟨text, htext, hrow⟩ := (mem_mapM htexts).2 r hmem
    rw [rowText_eq hline] at hrow
    obtain rfl := Except.ok.inj hrow
    exact (List.infix_of_mem_flatten htext).trans (List.suffix_append _ _).isInfix

end

/-! ### Two zones -/

/-- A host with a key, and digests that are not empty. -/
def signingHost : Host := { Host.ascii with sha256 := fun b => 0 :: b, dnssecKey := [1, 2, 3] }

/-- The digest types with a code. -/
def digestTypeDefined (n : ℕ) : Bool := n ∈ [1, 2, 3, 4]

/-- A DS row with this digest. -/
def dsRow (digest : Text) : Row := ⟨1, 1, "www".toList, 300, .ds 12345 13 2 digest⟩

theorem accepted_iff_example : ∃ lines, keyLines signingHost (withRow (dsRow "0a0B".toList)) exampleZone exampleRoot =
    .ok lines ∧ ∀ l ∈ lines, l.Accepted digestTypeDefined := by
  have hvalid : Valid (withRow (dsRow "0a0B".toList)) exampleZone := by
    refine ⟨fun cds hcds => (nomatch hcds), fun cdnskey hcdnskey => (nomatch hcdnskey), fun r hr => ?_,
      fun r hr => ?_⟩
    · have hrows : rowsOf (withRow (dsRow "0a0B".toList)) exampleZone .ds = [dsRow "0a0B".toList] := by
        decide +kernel
      rw [hrows] at hr
      rw [List.mem_singleton.mp hr]
      decide +kernel
    · have hrows : rowsOf (withRow (dsRow "0a0B".toList)) exampleZone .dnskey = [] := by decide +kernel
      rw [hrows] at hr
      cases hr
  obtain ⟨lines, hkeyLines⟩ : ∃ lines,
      keyLines signingHost (withRow (dsRow "0a0B".toList)) exampleZone exampleRoot = .ok lines := ⟨_, rfl⟩
  have hzero : digestTypeDefined 0 = false := rfl
  have hsha256 : digestTypeDefined 2 = true := rfl
  have hsha : ∀ b, signingHost.sha256 b ≠ [] := fun b => List.cons_ne_nil 0 b
  have hkey : signingHost.dnssecKey ≠ [] := List.cons_ne_nil 1 [2, 3]
  refine ⟨lines, hkeyLines, (accepted_iff hzero hsha256 hsha hkey hvalid hkeyLines).mpr ⟨rfl, fun l hl => ?_⟩⟩
  have hlines : storedLines signingHost (withRow (dsRow "0a0B".toList)) exampleZone =
      [⟨"; DS record 1\n".toList, "www".toList, 300, .ds, numbered 12345 13 2 "0a0B".toList,
        some (.ds 12345 13 2 [10, 11])⟩] := by decide +kernel
  rw [hlines] at hl
  obtain rfl := List.mem_singleton.mp hl
  exact ⟨rfl, _, words_of_plain (by decide), by decide, by decide, by decide, by decide, by decide, trivial⟩

/-- The zone with CDS disabled. -/
def disabledZone : Zone := ⟨1, "example.com".toList, true⟩

theorem not_accepted : Valid Store.empty disabledZone ∧
    ∃ lines, keyLines signingHost Store.empty disabledZone exampleRoot = .ok lines ∧
      ¬ ∀ l ∈ lines, l.Accepted digestTypeDefined := by
  refine ⟨⟨fun cds hcds => (nomatch hcds), fun cdnskey hcdnskey => (nomatch hcdnskey), fun r hr => ?_,
    fun r hr => ?_⟩, disabledLines ['@'], by decide +kernel, fun hall => ?_⟩
  · have hrows : rowsOf Store.empty disabledZone .ds = [] := by decide +kernel
    rw [hrows] at hr
    cases hr
  · have hrows : rowsOf Store.empty disabledZone .dnskey = [] := by decide +kernel
    rw [hrows] at hr
    cases hr
  · have hzero : digestTypeDefined 0 = false := rfl
    obtain ⟨l, hl, hnot⟩ := not_accepted_disabled ['@'] hzero
    exact hnot (hall l hl)

end HexDns.Axfr.KeyMaterial
