import HexDns.Axfr.RdataParsers

/-! # When the AXFR parser panics

`flush_record` panics on a KEY and on an NSEC record, and on an RRSIG record with a timestamp of fourteen
bytes that is cut inside of a character. `parse_ne_panic_iff` says that there is nothing else: the parser
returns `Ok` or `Err` unless it comes to the end of such a record. -/

namespace HexDns.Axfr.Panics

open HexDns.Lib.Texts HexDns.Lib.Programs HexDns.Lib.Slices HexDns.Base.Label HexDns.Base.Message
  HexDns.Base.Codecs HexDns.Axfr.Server HexDns.Axfr.Parser HexDns.Axfr.KeyData HexDns.Axfr.RdataParsers

/-! ### Records that it panics on -/

/-- Where a timestamp is cut. -/
def cuts : List (ℕ × ℕ) := [(0, 4), (4, 6), (6, 8), (8, 10), (10, 12), (12, 14)]

/-- A part of a timestamp is a number. -/
def IsNumberAt (dt : Text) (cut : ℕ × ℕ) : Prop := ((slice cut.1 cut.2 dt).bind (parseUint 32)).isSome

/-- **A timestamp with a cut inside of a character**, after parts that are numbers. -/
def CutInside (dt : Text) : Prop :=
  byteLength dt = 14 ∧ ∃ front cut back, cuts = front ++ cut :: back ∧
    (∀ c ∈ front, IsNumberAt dt c) ∧ slice cut.1 cut.2 dt = none

section
variable {F : Type} (fields : Fields F)

/-- The text is a timestamp: a number, or a date. -/
def IsTimestamp (dt : Text) : Prop :=
  if byteLength dt = 14 then
    ∃ year month day hour minute second,
      (cuts.mapM fun c => (slice c.1 c.2 dt).bind (parseUint 32)) = some [year, month, day, hour, minute, second] ∧
        (fields.timestamp year month day hour minute second).isSome
  else (parseUint 32 dt).isSome

/-- **An RRSIG record that the parser panics on**: the other fields are read, and one of the timestamps has a
cut inside of a character. The expiration comes first. -/
def SigPanics (tokens : List Text) : Prop :=
  ∃ typeCovered algorithm numLabels originalTtl sigExpiration sigInception keyTag signerName sig rest,
    tokens = typeCovered :: algorithm :: numLabels :: originalTtl :: sigExpiration :: sigInception :: keyTag ::
      signerName :: sig :: rest ∧
    (RecordType.fromStr typeCovered).isSome ∧ (parseUint 8 algorithm).isSome ∧ (parseUint 8 numLabels).isSome ∧
    (parseUint 32 originalTtl).isSome ∧ (parseUint 16 keyTag).isSome ∧ (fields.name signerName).isSome ∧
    sig ≠ [] ∧ (standardDecode sig).isSome ∧
    (CutInside sigExpiration ∨ IsTimestamp fields sigExpiration ∧ CutInside sigInception)

/-- The records that the parser panics on. -/
def RecordPanics (rtype : RecordType) (tokens : List Text) : Prop :=
  rtype = .key ∨ rtype = .nsec ∨ rtype = .rrsig ∧ SigPanics fields tokens

end

/-! ### Timestamps -/

section
variable {α β F : Type} {fields : Fields F} {dt : Text}

theorem orError_ne_panic (o : Option α) : orError o ≠ .error .panic := by
  rcases o with _ | a
  · intro h
    cases h
  · intro h
    cases h

theorem orError_eq_ok {o : Option α} {a : α} : orError o = .ok a ↔ o = some a := by
  rcases o with _ | b <;> simp [orError]

theorem orError_bind_eq_panic {o : Option α} {f : α → Except Failure β} :
    orError o >>= f = .error .panic ↔ ∃ a, o = some a ∧ f a = .error .panic := by
  rw [bind_eq_error]
  constructor
  · rintro (h | ⟨a, ha, h⟩)
    · exact absurd h (orError_ne_panic o)
    · exact ⟨a, orError_eq_ok.mp ha, h⟩
  · rintro ⟨a, ha, h⟩
    exact Or.inr ⟨a, orError_eq_ok.mpr ha, h⟩

theorem timestampPart_eq_panic {i j : ℕ} : timestampPart dt i j = .error .panic ↔ slice i j dt = none := by
  unfold timestampPart
  rcases hs : slice i j dt with _ | s
  · simp
  · simp [orError_ne_panic]

theorem timestampPart_eq_ok {i j n : ℕ} :
    timestampPart dt i j = .ok n ↔ (slice i j dt).bind (parseUint 32) = some n := by
  unfold timestampPart
  rcases hs : slice i j dt with _ | s
  · simp
  · simp [orError_eq_ok]

/-- The parts in one go. -/
theorem parseDatetime_eq (hlen : byteLength dt = 14) : parseDatetime fields dt =
    (cuts.mapM fun c => timestampPart dt c.1 c.2) >>= fun parts =>
      match parts with
      | [year, month, day, hour, minute, second] =>
        orError (fields.timestamp year month day hour minute second) >>= fun timestamp =>
          .ok (timestamp % 2 ^ 32).toNat
      | _ => .error .error := by
  unfold parseDatetime
  rw [if_pos hlen]
  simp only [cuts, List.mapM_cons, List.mapM_nil, bind_assoc, pure_bind]
  rfl

theorem parseDatetime_eq_panic : parseDatetime fields dt = .error .panic ↔ CutInside dt := by
  by_cases hlen : byteLength dt = 14
  · rw [parseDatetime_eq hlen, bind_eq_error]
    have hrest : ∀ parts : List ℕ, (match parts with
        | [year, month, day, hour, minute, second] =>
          orError (fields.timestamp year month day hour minute second) >>= fun timestamp =>
            Except.ok (timestamp % 2 ^ 32).toNat
        | _ => .error .error) ≠ .error .panic := by
      intro parts
      split
      · intro h
        obtain ⟨timestamp, -, h⟩ := orError_bind_eq_panic.mp h
        cases h
      · intro h
        cases h
    constructor
    · rintro (h | ⟨parts, -, h⟩)
      · obtain ⟨front, cut, back, hcuts, hfront, hcut⟩ := mapM_eq_error.mp h
        refine ⟨hlen, front, cut, back, hcuts, ?_, timestampPart_eq_panic.mp hcut⟩
        intro c hc
        obtain ⟨n, hn⟩ := hfront c hc
        exact Option.isSome_iff_exists.mpr ⟨n, timestampPart_eq_ok.mp hn⟩
      · exact absurd h (hrest parts)
    · rintro ⟨-, front, cut, back, hcuts, hfront, hcut⟩
      refine Or.inl (mapM_eq_error.mpr ⟨front, cut, back, hcuts, ?_, timestampPart_eq_panic.mpr hcut⟩)
      intro c hc
      obtain ⟨n, hn⟩ := Option.isSome_iff_exists.mp (hfront c hc)
      exact ⟨n, timestampPart_eq_ok.mpr hn⟩
  · have hne : parseDatetime fields dt ≠ .error .panic := by
      unfold parseDatetime
      rw [if_neg hlen]
      exact orError_ne_panic _
    exact ⟨fun h => absurd h hne, fun h => absurd h.1 hlen⟩

theorem isTimestamp_iff : IsTimestamp fields dt ↔ ∃ n, parseDatetime fields dt = .ok n := by
  unfold IsTimestamp
  by_cases hlen : byteLength dt = 14
  · rw [if_pos hlen, parseDatetime_eq hlen]
    have hparts : ∀ parts, (cuts.mapM fun c => timestampPart dt c.1 c.2) = .ok parts ↔
        (cuts.mapM fun c => (slice c.1 c.2 dt).bind (parseUint 32)) = some parts :=
      fun parts => mapM_eq_ok_iff fun c n => timestampPart_eq_ok
    constructor
    · rintro ⟨year, month, day, hour, minute, second, h, hstamp⟩
      obtain ⟨timestamp, hstamp⟩ := Option.isSome_iff_exists.mp hstamp
      refine ⟨(timestamp % 2 ^ 32).toNat, bind_eq_ok.mpr ⟨_, (hparts _).mpr h, ?_⟩⟩
      exact bind_eq_ok.mpr ⟨timestamp, orError_eq_ok.mpr hstamp, rfl⟩
    · rintro ⟨n, h⟩
      obtain ⟨parts, h, hn⟩ := bind_eq_ok.mp h
      split at hn
      · obtain ⟨timestamp, hstamp, -⟩ := bind_eq_ok.mp hn
        refine ⟨_, _, _, _, _, _, (hparts _).mp h, ?_⟩
        rw [orError_eq_ok.mp hstamp]
        rfl
      · cases hn
  · unfold parseDatetime
    rw [if_neg hlen, if_neg hlen, Option.isSome_iff_exists]
    exact exists_congr fun n => orError_eq_ok.symm

/-- No timestamp of single bytes is cut inside of a character. -/
theorem not_cutInside_of_isAscii (hascii : IsAscii dt) : ¬ CutInside dt := by
  rintro ⟨hlen, front, cut, back, hcuts, -, hslice⟩
  have hcut : cut ∈ cuts := by
    rw [hcuts]
    exact List.mem_append_right front List.mem_cons_self
  have hle : ∀ c ∈ cuts, c.1 ≤ c.2 ∧ c.2 ≤ 14 := by decide
  obtain ⟨h1, h2⟩ := hle cut hcut
  have hsome : (slice cut.1 cut.2 dt).isSome := (slice_isSome h1).mpr
    ⟨isCharBoundary_of_isAscii hascii (by omega), isCharBoundary_of_isAscii hascii (by omega)⟩
  rw [hslice] at hsome
  cases hsome

/-! ### Records -/

/-- The two timestamps of a signature. -/
theorem timestamps_eq_panic {e i : Text} {f : ℕ → ℕ → α} :
    (parseDatetime fields e >>= fun x => parseDatetime fields i >>= fun y => .ok (f x y)) = .error .panic ↔
      CutInside e ∨ IsTimestamp fields e ∧ CutInside i := by
  rw [bind_eq_error, parseDatetime_eq_panic, isTimestamp_iff]
  refine or_congr Iff.rfl ?_
  constructor
  · rintro ⟨x, hx, h⟩
    rcases bind_eq_error.mp h with h | ⟨y, -, h⟩
    · exact ⟨⟨x, hx⟩, parseDatetime_eq_panic.mp h⟩
    · cases h
  · rintro ⟨⟨x, hx⟩, hi⟩
    exact ⟨x, hx, bind_eq_error.mpr (Or.inl (parseDatetime_eq_panic.mpr hi))⟩

theorem parseSig_eq_panic {tokens : List Text} : parseSig fields tokens = .error .panic ↔ SigPanics fields tokens := by
  constructor
  · intro h
    unfold parseSig at h
    split at h
    · rename_i typeCovered algorithm numLabels originalTtl sigExpiration sigInception keyTag signerName sig rest
      simp only [orError_bind_eq_panic] at h
      obtain ⟨t, ht, a, ha, n, hn, o, ho, k, hk, s, hs, b, hb, h⟩ := h
      split_ifs at hb with hsig
      refine ⟨typeCovered, algorithm, numLabels, originalTtl, sigExpiration, sigInception, keyTag, signerName, sig,
        rest, rfl, ?_⟩
      rw [ht, ha, hn, ho, hk, hs, hb]
      exact ⟨rfl, rfl, rfl, rfl, rfl, rfl, hsig, rfl, timestamps_eq_panic.mp h⟩
    · cases h
  · rintro ⟨typeCovered, algorithm, numLabels, originalTtl, sigExpiration, sigInception, keyTag, signerName, sig,
      rest, rfl, ht, ha, hn, ho, hk, hs, hsig, hb, h⟩
    rw [Option.isSome_iff_exists] at ht ha hn ho hk hs hb
    obtain ⟨t, ht⟩ := ht
    obtain ⟨a, ha⟩ := ha
    obtain ⟨n, hn⟩ := hn
    obtain ⟨o, ho⟩ := ho
    obtain ⟨k, hk⟩ := hk
    obtain ⟨s, hs⟩ := hs
    obtain ⟨b, hb⟩ := hb
    unfold parseSig
    simp only [orError_bind_eq_panic]
    refine ⟨t, ht, a, ha, n, hn, o, ho, k, hk, s, hs, b, ?_, timestamps_eq_panic.mpr h⟩
    rw [if_neg hsig, hb]

/-! ### Locations -/

/-- The sum of `enc_size` is one of two halves of a byte. -/
theorem encSize_ne_panic (size : F) : encSize fields size ≠ .error .panic := by
  have hhigh : ∀ a : UInt8, (a &&& 0xF0).toNat ≤ 240 := by
    intro a
    rw [UInt8.toNat_and]
    exact Nat.and_le_right
  have hlow : ∀ b : UInt8, (b &&& 0x0F).toNat ≤ 15 := by
    intro b
    rw [UInt8.toNat_and]
    exact Nat.and_le_right
  unfold encSize addBytes
  dsimp only
  rw [if_pos]
  · intro h
    cases h
  · refine lt_of_le_of_lt (Nat.add_le_add (hhigh _) (hlow _)) ?_
    decide

theorem encSize_bind_eq_panic {size : F} {f : UInt8 → Except Failure α} :
    encSize fields size >>= f = .error .panic ↔ ∃ b, encSize fields size = .ok b ∧ f b = .error .panic := by
  rw [bind_eq_error]
  exact or_iff_right (encSize_ne_panic size)

theorem parseLoc_ne_panic (tokens : List Text) : RdataParsers.parseLoc fields tokens ≠ .error .panic := by
  intro h
  unfold RdataParsers.parseLoc at h
  simp only [orError_bind_eq_panic] at h
  obtain ⟨lat, -, long, -, h⟩ := h
  split at h
  · cases h
  simp only [orError_bind_eq_panic] at h
  obtain ⟨alt, -, size, -, hp, -, vp, -, h⟩ := h
  split_ifs at h
  · simp only [encSize_bind_eq_panic] at h
    obtain ⟨a, -, b, -, c, -, h⟩ := h
    cases h
  · cases h

theorem map_eq_panic {x : Except Failure α} {f : α → β} : x.map f = .error .panic ↔ x = .error .panic := by
  rcases x with e | a <;> simp [Except.map]

/-- **The records that the parser panics on** are these. -/
theorem rdata_eq_panic {rtype : RecordType} {tokens : List Text} {origin : DnsLabel} :
    rdata fields rtype tokens origin = .error .panic ↔ RecordPanics fields rtype tokens := by
  unfold RecordPanics
  cases rtype <;>
    simp [rdata, dnssec, unknown, map_eq_panic, orError_ne_panic, parseDs_eq, parseSig_eq_panic, parseLoc_ne_panic]

end

/-! ### Runs -/

/-- The library, with the parsers of rdata. -/
def withFields {F : Type} (lib : Library) (fields : Fields F) : Library := { lib with rdata := rdata fields }

/-- The variables at the start. -/
def start (origin : DnsLabel) : Vars × State := (⟨origin, .in, none, none, none, ∅⟩, .startLine)

/-- **The parser comes to the end of a record**: at an end of a line, or at the end of the file. -/
def Flushes (lib : Library) (contents : Text) (origin : DnsLabel) (v : Vars) (parts : List Text) : Prop :=
  ∃ front back, (lib.lexer contents).1 = front ++ back ∧
    front.foldlM (step lib) (start origin) = .ok (v, .record parts) ∧
    (back.head? = some .eol ∨ back = [] ∧ (lib.lexer contents).2 = false)

section
variable {F : Type} {fields : Fields F} {lib : Library} {v : Vars}

theorem recordTtl_ne_panic (rtype : RecordType) (data : RData) (ttl : Option ℕ) :
    recordTtl rtype data ttl ≠ .error .panic := by
  unfold recordTtl
  split_ifs
  · rcases data.soa with _ | ⟨expire, minimum⟩ <;> simp
  · rcases ttl with _ | t <;> simp

theorem addRecord_ne_panic (rtype : RecordType) (record : Record) (records : Records) :
    addRecord lib rtype record records ≠ .error .panic := by
  unfold addRecord
  dsimp only
  split_ifs <;> simp

theorem flushRecord_eq_panic {parts : List Text} : flushRecord lib parts v = .error .panic ↔
    ∃ rtype, v.rtype = some rtype ∧ lib.rdata rtype parts v.origin = .error .panic := by
  unfold flushRecord
  rcases v.rtype with _ | rtype
  · simp
  dsimp only
  rw [bind_eq_error]
  constructor
  · rintro (h | ⟨data, -, h⟩)
    · exact ⟨rtype, rfl, h⟩
    split at h
    · cases h
    rcases bind_eq_error.mp h with h | ⟨ttl, -, h⟩
    · exact absurd h (recordTtl_ne_panic rtype data v.ttl)
    rcases bind_eq_error.mp h with h | ⟨records, -, h⟩
    · exact absurd h (addRecord_ne_panic rtype _ v.records)
    · cases h
  · rintro ⟨rtype', hrtype, h⟩
    obtain rfl := Option.some.inj hrtype
    exact Or.inl h

theorem startLine_ne_panic (t : Token) : startLine lib v t ≠ .error .panic := by
  unfold startLine
  split
  case h_3 data =>
    rcases lib.name data (some v.origin) with _ | name <;> simp
  all_goals simp

theorem ttlClassType_ne_panic (data : Text) : ttlClassType lib v data ≠ .error .panic := by
  unfold ttlClassType
  dsimp only
  rcases lib.time data with _ | ttl
  · dsimp only
    split_ifs
    · rcases RecordType.fromStr _ with _ | rtype <;> simp
    rcases lib.dnsClass (data.map Char.toUpper) with _ | dnsClass
    · dsimp only
      rcases RecordType.fromStr _ with _ | rtype <;> simp
    · simp
  · simp

/-- One token: only the end of a record panics. -/
theorem step_eq_panic {state : State} {t : Token} : step lib (v, state) t = .error .panic ↔
    ∃ parts, state = .record parts ∧ t = .eol ∧ flushRecord lib parts v = .error .panic := by
  constructor
  · intro h
    rcases state with _ | _ | _ | parts | _ | _
    case startLine => exact absurd h (startLine_ne_panic (v := { v with rtype := none }) t)
    all_goals rcases t with _ | list | data | _ | _ | _ | _ | _
    all_goals try cases h
    case ttlClassType.charData => exact absurd h (ttlClassType_ne_panic data)
    case ttl.charData =>
      simp only [step] at h
      rcases htime : lib.time data with _ | ttl <;> rw [htime] at h <;> cases h
    case origin.charData =>
      simp only [step] at h
      rcases hname : lib.name data none with _ | origin <;> rw [hname] at h <;> cases h
    case record.eol =>
      rcases bind_eq_error.mp h with h | ⟨v', -, h⟩
      · exact ⟨parts, rfl, rfl, h⟩
      · cases h
  · rintro ⟨parts, rfl, rfl, h⟩
    exact bind_eq_error.mpr (Or.inl h)

theorem finish_eq_panic {state : State} : finish lib v state = .error .panic ↔
    ∃ parts, state = .record parts ∧ flushRecord lib parts v = .error .panic := by
  constructor
  · intro h
    rcases state with _ | _ | _ | parts | _ | _
    case record => exact ⟨parts, rfl, h⟩
    all_goals cases h
  · rintro ⟨parts, rfl, h⟩
    exact h

/-- **A run**: it panics where it comes to the end of a record that panics. -/
theorem parse_eq_panic {contents : Text} {origin : DnsLabel} : parse lib contents origin = .error .panic ↔
    ∃ v parts, Flushes lib contents origin v parts ∧ flushRecord lib parts v = .error .panic := by
  unfold parse Flushes
  dsimp only
  rw [bind_eq_error, foldlM_eq_error]
  constructor
  · rintro (⟨front, t, back, ⟨v, state⟩, htokens, hfront, h⟩ | ⟨⟨v, state⟩, hall, h⟩)
    · obtain ⟨parts, rfl, rfl, hflush⟩ := step_eq_panic.mp h
      exact ⟨v, parts, ⟨front, .eol :: back, htokens, hfront, Or.inl rfl⟩, hflush⟩
    · split_ifs at h with hend
      · cases h
      rcases bind_eq_error.mp h with h | ⟨v', -, h⟩
      · obtain ⟨parts, rfl, h⟩ := finish_eq_panic.mp h
        refine ⟨v, parts, ⟨_, [], (List.append_nil _).symm, hall, Or.inr ⟨rfl, ?_⟩⟩, h⟩
        simpa using hend
      · cases h
  · rintro ⟨v, parts, ⟨front, back, htokens, hfront, hend⟩, h⟩
    rcases hend with hend | ⟨rfl, hend⟩
    · rcases back with _ | ⟨t, back⟩
      · cases hend
      obtain rfl := Option.some.inj hend
      exact Or.inl ⟨front, .eol, back, (v, .record parts), htokens, hfront, step_eq_panic.mpr ⟨parts, rfl, rfl, h⟩⟩
    · rw [List.append_nil] at htokens
      refine Or.inr ⟨(v, .record parts), htokens ▸ hfront, ?_⟩
      rw [hend]
      exact bind_eq_error.mpr (Or.inl h)

/-- **The parser returns `Ok` or `Err`, and does not panic, exactly when** no record that it comes to the end of
is a KEY, an NSEC, or an RRSIG with a timestamp that is cut inside of a character. -/
theorem parse_ne_panic_iff (lib : Library) (fields : Fields F) (contents : Text) (origin : DnsLabel) :
    parse (withFields lib fields) contents origin ≠ .error .panic ↔
      ∀ v parts, Flushes (withFields lib fields) contents origin v parts →
        ∀ rtype, v.rtype = some rtype → ¬ RecordPanics fields rtype parts := by
  rw [Ne, parse_eq_panic]
  push Not
  refine forall_congr' fun v => forall_congr' fun parts => forall_congr' fun _ => ?_
  rw [Ne, flushRecord_eq_panic]
  push Not
  refine forall_congr' fun rtype => forall_congr' fun _ => ?_
  exact not_congr rdata_eq_panic

end

/-! ### A zone that it panics on -/

private def sampleName (t : Text) (origin : Option DnsLabel) : Option DnsLabel :=
  some ⟨encode t :: (origin.getD ⟨[]⟩).label⟩

private def sampleTime (t : Text) : Option ℕ := parseUint 32 t

private def sampleLibrary (tokens : List Token) : Library where
  lexer _ := (tokens, false)
  name := sampleName
  time := sampleTime
  dnsClass t := if t = ['I', 'N'] then some .in else none
  rdata _ _ _ := .error .error
  insert l r := l ++ [r]

private def sampleFields : Fields ℚ where
  floats := rational
  parse _ _ _ := none
  name t := sampleName t none
  digestType _ := true
  nsec3Hash n := n = 1
  hexDecode _ := none
  base32Decode _ := none
  timestamp _ _ _ _ _ _ := none
  emit _ := none
  encode _ := []

private def words (l : List String) : List Token := l.map (fun s => .charData s.toList) ++ [.eol]

private def keyLine : List Token := words ["a", "60", "KEY", "256", "3", "8", "AQAB"]

private def rrsigLine : List Token :=
  words ["a", "60", "RRSIG", "A", "8", "2", "60", "202é010100000", "20240101000000", "1", "test.", "AQAB"]

example : parse (withFields (sampleLibrary keyLine) sampleFields) [] ⟨[[116]]⟩ = .error .panic := rfl

theorem not_parse_ne_panic : ¬ ∀ (lib : Library) (fields : Fields ℚ) (contents : Text) (origin : DnsLabel),
    parse (withFields lib fields) contents origin ≠ .error .panic := by
  intro h
  have hpanic : parse (withFields (sampleLibrary rrsigLine) sampleFields) [] ⟨[[116]]⟩ = .error .panic := rfl
  exact h _ _ _ _ hpanic

end HexDns.Axfr.Panics
