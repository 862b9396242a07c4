import HexDns.Models.Txt
import HexDns.Models.UpdateFromRr
import HexDns.Models.Validators
import HexDns.Models.Wire
import Mathlib.Data.Int.Log
import Mathlib.Data.Rat.Floor

/-! # Rdata that comes back as bytes

The library knows no classes for DS, LOC, HINFO, RP and DHCID, so that the rdata of such a record in an
UPDATE message is its bytes, `dnslib.RD`, and `from_rr` decodes them by hand. `RoundTrips` says that a row
comes back: `to_rr` packs, and `from_rr` makes a row with the same name, TTL and values of the bytes.

`roundTrips_iff`: of the rows that pass their validators, the HINFO and the DHCID rows come back, the RP
rows if the two labels have at most 63 characters, the DS rows never, as `struct.unpack("!HBB", data)` is
given the digest too, and the LOC rows never, as `from_rr` calls `_dec_size` in the place of
`_dec_rdata`. -/

namespace HexDns.Models.OpaqueRdata

open HexDns.Lib.Texts HexDns.Lib.Programs HexDns.Lib.Readers HexDns.Base.Py HexDns.Base.Codecs
  HexDns.Base.Label HexDns.Base.Message HexDns.Models.Db HexDns.Models.Env HexDns.Models.Txt
  HexDns.Models.Convert HexDns.Models.UpdateFromRr HexDns.Models.Validators
  HexDns.Models.Wire

/-! ### Validators -/

/-- `DNS_ALPHABET` -/
def dnsAlphabet : Text := "abcdefghijklmnopqrstuvwxyz0123456789-".toList

/-- The check of a label in `RPRecord.clean_fields` -/
def cleanLabel (value : Text) : Except PyErr Unit :=
  if ∀ c ∈ value, c ∈ dnsAlphabet then .ok () else .error .validationError

/-- `MinValueValidator(lo)` and `MaxValueValidator(hi)` of a float -/
def floatRange (lo hi value : ℚ) : Except PyErr Unit :=
  if lo ≤ value ∧ value ≤ hi then .ok () else .error .validationError

/-- The checks of the fields of `DNSZoneRecord` -/
def cleanRecordName (self : Row) : Except PyErr Unit := do
  notBlank self.recordName
  maxLength 255 self.recordName

/-- `clean_fields` of the five classes -/
def cleanFields (self : Row) : Except PyErr Unit :=
  match self.data with
  | .ds .. =>
    if self.recordName = ['@'] then .error .validationError else cleanDsRecord self
  | .loc latitude longitude altitude size hp vp => do
    cleanRecordName self
    floatRange (-90) 90 latitude
    floatRange (-180) 180 longitude
    floatRange (-100000) (4284967295 / 100) altitude
    floatRange 0 90000000 size
    floatRange 0 90000000 hp
    floatRange 0 90000000 vp
  | .hinfo cpu os => do
    cleanRecordName self
    notBlank cpu
    maxLength 255 cpu
    notBlank os
    maxLength 255 os
  | .rp mailbox txt => do
    cleanLabel mailbox
    cleanLabel txt
    cleanRecordName self
    notBlank mailbox
    maxLength 255 mailbox
    notBlank txt
    maxLength 255 txt
  | .dhcid data => do
    cleanRecordName self
    if data = [] then throw .validationError else pure ()
  | _ => .error .attributeError

theorem cleanLabel_eq_ok {value : Text} : cleanLabel value = .ok () ↔ ∀ c ∈ value, c ∈ dnsAlphabet := by
  unfold cleanLabel
  split_ifs with hvalue
  · exact ⟨fun _ => hvalue, fun _ => rfl⟩
  · exact ⟨(fun hok => nomatch hok), fun hall => absurd hall hvalue⟩

theorem notBlank_eq_ok {value : Text} : notBlank value = .ok () ↔ value ≠ [] := by
  unfold notBlank
  split_ifs with hvalue
  · simp [hvalue]
  · simp [hvalue]

theorem maxLength_eq_ok {n : ℕ} {value : Text} : maxLength n value = .ok () ↔ value.length ≤ n := by
  unfold maxLength
  split_ifs with hvalue
  · simp [hvalue]
  · simp [hvalue]

/-! ### Packing -/

/-- `int` of a number -/
def truncate (q : ℚ) : ℤ := q.num.tdiv q.den

/-- `enc_size` of `LOC.pack` -/
def encSize (value : ℚ) : Except PyErr ℕ :=
  if value < 0 then .error .valueError
  else
    let sizeExp : ℤ := if value = 0 then 0 else Int.log 10 value
    let sizeMan := truncate (value / 10 ^ sizeExp)
    .ok (sizeMan % 16 * 16 + sizeExp % 16).toNat

/-- An integer for the format `I` -/
def packWord (n : ℤ) : Except PyErr Bytes :=
  if 0 ≤ n ∧ n < 2 ^ 32 then .ok (packUint 4 n.toNat) else .error .structError

/-- `LOC.pack`, with numbers in the place of floats -/
def packLoc (lat long altitude size hp vp : ℚ) : Except PyErr Bytes := do
  let size ← encSize (size * 100)
  let hp ← encSize (hp * 100)
  let vp ← encSize (vp * 100)
  let lat ← packWord (truncate (lat * 3600 * 1000) + 2 ^ 31)
  let long ← packWord (truncate (long * 3600 * 1000) + 2 ^ 31)
  let alt ← packWord (truncate ((altitude + 100000) * 100))
  return packUint 1 0 ++ packUint 1 size ++ packUint 1 hp ++ packUint 1 vp ++ lat ++ long ++ alt

/-- `DS.pack` -/
def packDs (keyTag algorithm digestType : ℕ) (digest : Bytes) : Except PyErr Bytes :=
  if keyTag < 65536 ∧ algorithm < 256 ∧ digestType < 256 then
    .ok (packUint 2 keyTag ++ packUint 1 algorithm ++ packUint 1 digestType ++ digest)
  else .error .structError

/-- `dnslib.TXT.pack` -/
def packTxt (data : List Bytes) : Bytes := data.flatMap fun b => UInt8.ofNat b.length :: b

/-- The library's encoding of two names into an empty buffer, where the second may point into the
first. -/
abbrev NamesEncoder := DnsLabel → DnsLabel → Except PyErr Bytes

/-- `rdata.pack` into an empty buffer, for the classes of the five `to_rr` -/
def packRdata (encodeNames : NamesEncoder) : Rdata → Except PyErr Bytes
  | .ds keyTag algorithm digestType digest => packDs keyTag algorithm digestType digest
  | .loc lat long altitude size hp vp => packLoc lat long altitude size hp vp
  | .txt data => .ok (packTxt data)
  | .rp mbox txt => encodeNames mbox txt
  | .dhcid data => .ok data
  | _ => .error .attributeError

/-- The rdata of a record of an UPDATE message with these bytes: the empty text for no bytes. -/
def received (data : Bytes) : Rdata := if data = [] then .empty else .rd data

/-- Two names that are encoded one after the other are decoded one after the other. -/
def NamesCodec (h : Host) (encodeNames : NamesEncoder) : Prop :=
  ∀ l m : DnsLabel, WithinLimits l → WithinLimits m →
    (∀ b ∈ l.label ++ m.label, ∃ t, decode b = some t) →
    ∃ data offset offset', encodeNames l m = .ok data ∧ data ≠ [] ∧
      h.decodeName data 0 = .ok (l, offset) ∧ h.decodeName data offset = .ok (m, offset')

/-! ### The round trip -/

/-- Two texts are one domain name. -/
def SameName (py : Python) (t u : Text) : Prop :=
  ∃ l m, DnsLabel.ofText py t = .ok l ∧ DnsLabel.ofText py u = .ok m ∧ l.Eqv m

/-- The values of two rows of one class are the same, digests as bytes and names as names. -/
def SameValues (py : Python) : RecordData → RecordData → Prop
  | .ds keyTag algorithm digestType digest, .ds keyTag' algorithm' digestType' digest' =>
    keyTag = keyTag' ∧ algorithm = algorithm' ∧ digestType = digestType' ∧
      digestBin digest = digestBin digest'
  | .rp mailbox txt, .rp mailbox' txt' => SameName py mailbox mailbox' ∧ SameName py txt txt'
  | data, data' => data = data'

/-- `queryName` is a name of the row in the zone: a record of that name is stored under the name that
the row is saved with. -/
def Names (h : Host) (zone : Zone) (queryName : DnsLabel) (row : Row) : Prop :=
  dnsLabelToRecordName h queryName zone = .ok (h.py.lower row.recordName)

/-- The row comes back from the bytes of its rdata. -/
def RoundTrips (h : Host) (encodeNames : NamesEncoder) (zone : Zone) (queryName : DnsLabel) (id : ℕ)
    (row : Row) : Prop :=
  ∃ rr data made, toRr h row queryName = .ok (some rr) ∧ packRdata encodeNames rr.rdata = .ok data ∧
    created h row.model { rr with rdata := received data } zone id = .ok made ∧
      made.recordName = h.py.lower row.recordName ∧ made.ttl = row.ttl ∧
        SameValues h.py row.data made.data

/-- What comes back: the label texts of RP are labels. -/
def Kept : RecordData → Prop
  | .hinfo _ _ => True
  | .dhcid _ => True
  | .rp mailbox txt => mailbox.length < 64 ∧ txt.length < 64
  | _ => False

section
variable {h : Host} {encodeNames : NamesEncoder} {zone : Zone} {queryName : DnsLabel} {id : ℕ} {row : Row}

/-- The round trip, as far as the rdata goes. -/
theorem roundTrips_iff_columns (hname : Names h zone queryName row) :
    RoundTrips h encodeNames zone queryName id row ↔ ∃ t x data made,
      toRdata h row.data = .ok (some (t, x)) ∧ packRdata encodeNames x = .ok data ∧
        createColumns h row.model ⟨queryName, t, .in, row.ttl, received data⟩ = .ok made ∧
          SameValues h.py row.data made := by
  constructor
  · rintro ⟨rr, data, made, hrr, hpack, hmade, -, -, hvalues⟩
    obtain ⟨t, x, hx, rfl⟩ := toRr_eq_some.mp hrr
    obtain ⟨_, columns, -, hcolumns, rfl⟩ := fromRr_eq_ok.mp hmade
    exact ⟨t, x, data, columns, hx, hpack, hcolumns, hvalues⟩
  · rintro ⟨t, x, data, columns, hx, hpack, hcolumns, hvalues⟩
    exact ⟨_, data, _, toRr_eq_some.mpr ⟨t, x, hx, rfl⟩, hpack,
      fromRr_eq_ok.mpr ⟨_, columns, hname, hcolumns, rfl⟩, rfl, rfl, hvalues⟩

/-! ### DS and LOC -/

theorem dsColumns_eq_ok {rr : Rr} {made : RecordData} (hd : dsColumns rr = .ok made) :
    ∃ data, rr.rdata = .rd data ∧ data.length = 4 := by
  unfold dsColumns at hd
  split at hd
  · exact ⟨_, ‹_›, rfl⟩
  · cases hd
  · cases hd

/-- A DS row does not come back, whatever it has. -/
theorem not_roundTrips_ds (hname : Names h zone queryName row) {keyTag algorithm digestType : ℕ}
    {digest : Text} (hdata : row.data = .ds keyTag algorithm digestType digest) :
    ¬ RoundTrips h encodeNames zone queryName id row := by
  intro hround
  obtain ⟨t, x, data, made, hx, hpack, hcolumns, -⟩ := (roundTrips_iff_columns hname).mp hround
  have hmodel : row.model = .ds := congrArg RecordData.model hdata
  rw [hdata] at hx
  rw [hmodel] at hcolumns
  obtain ⟨bytes, hreceived, hlen⟩ := dsColumns_eq_ok hcolumns
  have hlong : 4 < data.length := by
    obtain ⟨o, -, hx⟩ := bind_eq_ok.mp hx
    rcases o with _ | _ | ⟨b, digest⟩
    · cases hx
    · cases hx
    · obtain ⟨rfl, rfl⟩ := Prod.mk.inj (Option.some.inj (Except.ok.inj hx))
      change packDs _ _ _ _ = _ at hpack
      unfold packDs at hpack
      split_ifs at hpack
      obtain rfl := Except.ok.inj hpack
      simp
      omega
  have hne : data ≠ [] := List.ne_nil_of_length_pos (by omega)
  unfold received at hreceived
  rw [if_neg hne] at hreceived
  obtain rfl := Rdata.rd.inj hreceived
  omega

/-- A LOC row does not come back, whatever it has. -/
theorem not_roundTrips_loc (hname : Names h zone queryName row)
    {latitude longitude altitude size hp vp : ℚ}
    (hdata : row.data = .loc latitude longitude altitude size hp vp) :
    ¬ RoundTrips h encodeNames zone queryName id row := by
  intro hround
  obtain ⟨t, x, data, made, -, -, hcolumns, -⟩ := (roundTrips_iff_columns hname).mp hround
  have hmodel : row.model = .loc := congrArg RecordData.model hdata
  rw [hmodel] at hcolumns
  change locColumns _ = _ at hcolumns
  unfold locColumns at hcolumns
  split at hcolumns <;> cases hcolumns

/-! ### HINFO and DHCID -/

/-- Two strings are read back from their packed form. -/
theorem txtParse_packTxt {a b : Bytes} (ha : a.length < 256) (hb : b.length < 256) :
    txtParse (packTxt [a, b]).length (packTxt [a, b]).length 0 (packTxt [a, b]) = .ok [a, b] := by
  have hna : (UInt8.ofNat a.length).toNat = a.length := by
    rw [UInt8.toNat_ofNat', Nat.mod_eq_of_lt ha]
  have hnb : (UInt8.ofNat b.length).toNat = b.length := by
    rw [UInt8.toNat_ofNat', Nat.mod_eq_of_lt hb]
  have hpack : packTxt [a, b] = UInt8.ofNat a.length :: (a ++ UInt8.ofNat b.length :: b) := by
    simp [packTxt]
  have hlen : (packTxt [a, b]).length = a.length + b.length + 2 := by
    rw [hpack]
    simp
    omega
  rw [hlen, hpack]
  unfold txtParse
  rw [hna, if_pos ⟨by omega, by simp⟩, List.drop_left, List.take_left]
  unfold txtParse
  rw [hnb, if_pos ⟨by omega, le_rfl⟩, List.drop_length, List.take_length]
  unfold txtParse
  rfl

/-- A HINFO row in ASCII comes back. -/
theorem roundTrips_hinfo (hname : Names h zone queryName row) {cpu os : Text}
    (hdata : row.data = .hinfo cpu os) (hcpu : IsAscii cpu) (hos : IsAscii os)
    (hcpu' : cpu.length ≤ 255) (hos' : os.length ≤ 255) :
    RoundTrips h encodeNames zone queryName id row := by
  have hmodel : row.model = .hinfo := congrArg RecordData.model hdata
  have hlc : (encode cpu).length ≤ 255 := (length_encode_eq_iff.mpr hcpu).symm ▸ hcpu'
  have hlo : (encode os).length ≤ 255 := (length_encode_eq_iff.mpr hos).symm ▸ hos'
  have htxt : toRdata h row.data = .ok (some (.hinfo, .txt [encode cpu, encode os])) := by
    rw [hdata]
    refine bind_eq_ok.mpr ⟨.txt [encode cpu, encode os], ?_, rfl⟩
    unfold txtRdata
    rw [if_pos (by simp [hlc, hlo])]
  have hne : packTxt [encode cpu, encode os] ≠ [] := by simp [packTxt]
  refine (roundTrips_iff_columns hname).mpr ⟨_, _, _, .hinfo cpu os, htxt, rfl, ?_, ?_⟩
  · rw [hmodel]
    have hcolumns : createColumns h .hinfo = hinfoColumns := rfl
    rw [hcolumns]
    unfold hinfoColumns received
    rw [if_neg hne]
    refine bind_eq_ok.mpr ⟨[encode cpu, encode os], txtParse_packTxt (by omega) (by omega), ?_⟩
    show Except.ok _ = _
    rw [decodeReplace_encode, decodeReplace_encode]
  · rw [hdata]
    exact rfl

/-- A DHCID row that is not empty comes back. -/
theorem roundTrips_dhcid (hname : Names h zone queryName row) {bytes : Bytes}
    (hdata : row.data = .dhcid bytes) (hne : bytes ≠ []) :
    RoundTrips h encodeNames zone queryName id row := by
  have hmodel : row.model = .dhcid := congrArg RecordData.model hdata
  refine (roundTrips_iff_columns hname).mpr ⟨.dhcid, .dhcid bytes, bytes, .dhcid bytes, ?_, rfl, ?_, ?_⟩
  · rw [hdata]
    rfl
  · rw [hmodel]
    show dhcidColumns _ = _
    unfold dhcidColumns received
    rw [if_neg hne]
  · rw [hdata]
    exact rfl

end

/-! ### RP -/

section
variable {py : Python} {t : Text}

/-- The text has only characters of the alphabet. -/
def InAlphabet (t : Text) : Prop := ∀ c ∈ t, c ∈ dnsAlphabet

theorem alphabet_spec : ∀ c ∈ dnsAlphabet, (33 ≤ c.toNat ∧ c.toNat ≤ 126) ∧ c ≠ '.' ∧ c ≠ '\\' := by
  decide

theorem ascii_of_inAlphabet (ht : InAlphabet t) : IsAscii t := by
  intro c hc
  have hle := (alphabet_spec c (ht c hc)).1.2
  omega

theorem noEscape_of_inAlphabet (ht : InAlphabet t) : '\\' ∉ t := fun hc =>
  (alphabet_spec _ (ht _ hc)).2.2 rfl

theorem dot_notMem_encode (ht : InAlphabet t) : 46 ∉ encode t := by
  intro hmem
  obtain ⟨c, hc, hbyte⟩ := List.mem_flatMap.mp hmem
  have hlt := ascii_of_inAlphabet ht c hc
  obtain ⟨-, hdot, -⟩ := alphabet_spec c (ht c hc)
  rw [utf8EncodeChar_ascii hlt, List.mem_singleton] at hbyte
  have hval : c.toNat = 46 := by
    have hnat := congrArg UInt8.toNat hbyte
    simp at hnat
    omega
  exact hdot (Char.toNat_inj.mp hval)

theorem splitOn_encode_label (ht : InAlphabet t) : (encode t).splitOn 46 = [encode t] := by
  have hdot : ∀ l ∈ [encode t], 46 ∉ l := by simpa using dot_notMem_encode ht
  have hsplit := List.splitOn_intercalate 46 hdot (List.cons_ne_nil _ _)
  rwa [List.intercalate_singleton] at hsplit

theorem rdropWhile_encode_label (ht : InAlphabet t) :
    (encode t).rdropWhile (· = 46) = encode t := by
  refine List.rdropWhile_eq_self_iff.mpr fun hne heq => ?_
  have hlast := List.getLast_mem hne
  exact dot_notMem_encode ht (of_decide_eq_true heq ▸ hlast)

theorem ne_dot_of_inAlphabet (ht : InAlphabet t) (hne : t ≠ []) : ¬ (t = [] ∨ t = ['.']) := by
  rintro (rfl | rfl)
  · exact hne rfl
  · exact (alphabet_spec '.' (ht '.' List.mem_cons_self)).2.1 rfl

/-- A text of the alphabet is the name of one label, if it is not too long for one. -/
theorem ofText_label (ht : InAlphabet t) (hne : t ≠ []) : DnsLabel.ofText py t =
    if t.length < 64 then .ok ⟨[encode t]⟩ else .error .unicodeError := by
  have hlen : (encode t).length = t.length := length_encode_eq_iff.mpr (ascii_of_inAlphabet ht)
  unfold DnsLabel.ofText encodeIdna
  rw [if_neg (ne_dot_of_inAlphabet ht hne), unescape_eq_self (noEscape_of_inAlphabet ht),
    if_pos (ascii_of_inAlphabet ht)]
  unfold encodeIdnaAscii
  rw [splitOn_encode_label ht]
  by_cases hlt : t.length < 64
  · rw [if_pos hlt, if_pos ⟨by simp, by simpa [hlen] using hlt⟩]
    show Except.ok _ = _
    rw [rdropWhile_encode_label ht, splitOn_encode_label ht]
  · rw [if_neg hlt, if_neg (by simpa [hlen] using hlt)]
    rfl

theorem toText_label (ht : InAlphabet t) : DnsLabel.toText ⟨[encode t]⟩ = t ++ ['.'] := by
  show ['.'].intercalate [(encode t).flatMap showByte] ++ ['.'] = _
  rw [List.intercalate_singleton, flatMap_showByte fun c hc => (alphabet_spec c (ht c hc)).1]

/-- The text of a label with a dot after it is the name of the label too. -/
theorem ofText_label_dot (ht : InAlphabet t) (hne : t ≠ []) (hlt : t.length < 64) :
    DnsLabel.ofText py (t ++ ['.']) = .ok ⟨[encode t]⟩ := by
  have hlen : (encode t).length = t.length := length_encode_eq_iff.mpr (ascii_of_inAlphabet ht)
  have hascii : IsAscii (t ++ ['.']) := by
    intro c hc
    rcases List.mem_append.mp hc with hc | hc
    · exact ascii_of_inAlphabet ht c hc
    · rw [List.mem_singleton.mp hc]
      decide
  have hescape : '\\' ∉ t ++ ['.'] := by
    simpa using noEscape_of_inAlphabet ht
  have hencode : encode (t ++ ['.']) = encode t ++ [46] := encode_append t ['.']
  have hdots : ∀ l ∈ [encode t, []], 46 ∉ l := by simpa using dot_notMem_encode ht
  have hsplit : (encode t ++ [46]).splitOn 46 = [encode t, []] := by
    have hjoin := List.splitOn_intercalate 46 hdots (List.cons_ne_nil _ _)
    simpa using hjoin
  have hlong : ¬ (t ++ ['.'] = [] ∨ t ++ ['.'] = ['.']) := by simpa using hne
  have hpos : 0 < t.length := List.length_pos_iff.mpr hne
  unfold DnsLabel.ofText encodeIdna
  rw [if_neg hlong, unescape_eq_self hescape, if_pos hascii]
  unfold encodeIdnaAscii
  rw [hencode, hsplit, if_pos ⟨by simpa [hlen] using ⟨hpos, hlt⟩, by simp⟩]
  show Except.ok _ = _
  rw [List.rdropWhile_concat_pos _ _ _ (by rfl), rdropWhile_encode_label ht, splitOn_encode_label ht]

/-- The label in the two texts is one name. -/
theorem sameName_label (ht : InAlphabet t) (hne : t ≠ []) (hlt : t.length < 64) :
    SameName py t (DnsLabel.toText ⟨[encode t]⟩) := by
  refine ⟨⟨[encode t]⟩, ⟨[encode t]⟩, ?_, ?_, rfl⟩
  · rw [ofText_label ht hne, if_pos hlt]
  · rw [toText_label ht, ofText_label_dot ht hne hlt]

theorem withinLimits_label (ht : InAlphabet t) (hne : t ≠ []) (hlt : t.length < 64) :
    WithinLimits ⟨[encode t]⟩ := by
  have hlen : (encode t).length = t.length := length_encode_eq_iff.mpr (ascii_of_inAlphabet ht)
  have hpos : 0 < t.length := List.length_pos_iff.mpr hne
  constructor
  · simpa [hlen] using ⟨hpos, hlt⟩
  · unfold nameWire
    simp [hlen]
    omega

end

section
variable {h : Host} {encodeNames : NamesEncoder} {zone : Zone} {queryName : DnsLabel} {id : ℕ} {row : Row}

/-- An RP row comes back if its texts are short enough for labels. -/
theorem roundTrips_rp_iff (hcodec : NamesCodec h encodeNames) (hname : Names h zone queryName row)
    {mailbox txt : Text} (hdata : row.data = .rp mailbox txt) (hm : InAlphabet mailbox) (ht : InAlphabet txt)
    (hm' : mailbox ≠ []) (ht' : txt ≠ []) :
    RoundTrips h encodeNames zone queryName id row ↔ mailbox.length < 64 ∧ txt.length < 64 := by
  have hmodel : row.model = .rp := congrArg RecordData.model hdata
  rw [roundTrips_iff_columns hname, hdata, hmodel]
  constructor
  · rintro ⟨t, x, -, -, hx, -⟩
    obtain ⟨l, hl, hx⟩ := bind_eq_ok.mp hx
    obtain ⟨m, hmt, -⟩ := bind_eq_ok.mp hx
    rw [ofText_label hm hm'] at hl
    rw [ofText_label ht ht'] at hmt
    split_ifs at hl hmt with h1 h2
    exact ⟨h1, h2⟩
  · rintro ⟨hlm, hlt⟩
    have htexts : ∀ b ∈ [encode mailbox] ++ [encode txt], ∃ t, decode b = some t := by
      simp [decode_encode]
    obtain ⟨data, offset, offset', hpack, hne, hfirst, hsecond⟩ := hcodec ⟨[encode mailbox]⟩ ⟨[encode txt]⟩
      (withinLimits_label hm hm' hlm) (withinLimits_label ht ht' hlt) htexts
    refine ⟨.rp, .rp ⟨[encode mailbox]⟩ ⟨[encode txt]⟩, data,
      .rp (DnsLabel.toText ⟨[encode mailbox]⟩) (DnsLabel.toText ⟨[encode txt]⟩), ?_, hpack, ?_, ?_⟩
    · refine bind_eq_ok.mpr ⟨⟨[encode mailbox]⟩, ?_, bind_eq_ok.mpr ⟨⟨[encode txt]⟩, ?_, rfl⟩⟩
      · rw [ofText_label hm hm', if_pos hlm]
      · rw [ofText_label ht ht', if_pos hlt]
    · have hcolumns : createColumns h .rp = rpColumns h := rfl
      rw [hcolumns]
      unfold rpColumns received
      rw [if_neg hne]
      exact bind_eq_ok.mpr ⟨_, hfirst, bind_eq_ok.mpr ⟨_, hsecond, rfl⟩⟩
    · exact ⟨sameName_label hm hm' hlm, sameName_label ht ht' hlt⟩

/-! ### The names of a row -/

theorem texts_map_encode (ts : List Text) : DnsLabel.texts ⟨ts.map encode⟩ = .ok ts := by
  induction ts with
  | nil => rfl
  | cons t ts ih => exact (texts_eq_ok rfl).mpr ⟨t, ts, rfl, decode_encode t, ih⟩

/-- Every row has a name in a zone whose root is a domain name. -/
theorem exists_names {zoneName : DnsLabel} (hroot : DnsLabel.ofText h.py zone.zoneRoot = .ok zoneName) :
    ∃ queryName, Names h zone queryName row := by
  unfold Names
  obtain ⟨name, hname⟩ : ∃ name, name = h.py.lower row.recordName := ⟨_, rfl⟩
  have hfixed : ∀ c ∈ name, h.py.Fixed c := fun c hc => fixed_of_mem_lower (hname ▸ hc)
  rw [← hname]
  by_cases hat : name = ['@']
  · refine ⟨zoneName, ?_⟩
    unfold dnsLabelToRecordName
    rw [hroot, hat]
    show (if zoneName.Eqv zoneName then _ else _) = _
    rw [if_pos (DnsLabel.Eqv.refl zoneName)]
    rfl
  · obtain ⟨pieces, hpieces⟩ : ∃ pieces, pieces = name.splitOn '.' := ⟨_, rfl⟩
    have hne : pieces.map encode ≠ [] := by rw [hpieces]; simp
    have hjoin : ['.'].intercalate pieces = name := by
      rw [hpieces]
      exact List.intercalate_splitOn '.'
    have hlower : pieces.map h.py.lower = pieces := by
      refine (List.map_congr_left fun l hl => ?_).trans (List.map_id' pieces)
      refine lower_eq_self fun c hc => hfixed c ?_
      rw [← hjoin]
      exact mem_intercalate_of_mem ['.'] hl hc
    refine ⟨⟨pieces.map encode ++ zoneName.label⟩, ?_⟩
    have hother : ¬ zoneName.Eqv ⟨pieces.map encode ++ zoneName.label⟩ := by
      intro heq
      have hlen := congrArg List.length heq
      rw [length_lower, length_lower, List.length_append] at hlen
      have hpos := List.length_pos_iff.mpr hne
      omega
    have htexts : (DnsLabel.stripSuffix ⟨pieces.map encode ++ zoneName.label⟩ zoneName).texts =
        .ok pieces := by
      unfold DnsLabel.texts
      rw [label_stripSuffix rfl (DnsLabel.Eqv.refl zoneName) hne]
      exact texts_map_encode pieces
    unfold dnsLabelToRecordName
    rw [hroot]
    show (if zoneName.Eqv _ then _ else _) = _
    rw [if_neg hother]
    refine bind_eq_ok.mpr ⟨pieces, htexts, ?_⟩
    rw [hlower, hjoin]
    rfl

/-! ### All rows -/

/-- **What comes back from its bytes.** A row that passes its validators (HINFO in ASCII) has a name in
the zone, and under each of its names it comes back, with the same name, TTL and values, if and only if it
is a HINFO or a DHCID row, or an RP row whose two texts have at most 63 characters; DS and LOC rows do
not. -/
theorem roundTrips_iff (hcodec : NamesCodec h encodeNames) {zoneName : DnsLabel}
    (hroot : DnsLabel.ofText h.py zone.zoneRoot = .ok zoneName) (hclean : cleanFields row = .ok ())
    (hascii : ∀ cpu os, row.data = .hinfo cpu os → IsAscii cpu ∧ IsAscii os) :
    (∃ queryName, Names h zone queryName row) ∧ ∀ queryName id, Names h zone queryName row →
      (RoundTrips h encodeNames zone queryName id row ↔ Kept row.data) := by
  refine ⟨exists_names hroot, fun queryName id hname => ?_⟩
  unfold cleanFields at hclean
  split at hclean
  · rename_i hdata
    rw [hdata]
    exact iff_of_false (not_roundTrips_ds hname hdata) not_false
  · rename_i hdata
    rw [hdata]
    exact iff_of_false (not_roundTrips_loc hname hdata) not_false
  · rename_i cpu os hdata
    obtain ⟨-, -, hclean⟩ := bind_eq_ok.mp hclean
    obtain ⟨-, -, hclean⟩ := bind_eq_ok.mp hclean
    obtain ⟨_, hcpu, hclean⟩ := bind_eq_ok.mp hclean
    obtain ⟨_, -, hos⟩ := bind_eq_ok.mp hclean
    obtain ⟨hac, hao⟩ := hascii cpu os hdata
    rw [hdata]
    exact iff_of_true (roundTrips_hinfo hname hdata hac hao (maxLength_eq_ok.mp hcpu)
      (maxLength_eq_ok.mp hos)) trivial
  · rename_i mailbox txt hdata
    obtain ⟨_, hm, hclean⟩ := bind_eq_ok.mp hclean
    obtain ⟨_, ht, hclean⟩ := bind_eq_ok.mp hclean
    obtain ⟨-, -, hclean⟩ := bind_eq_ok.mp hclean
    obtain ⟨_, hm', hclean⟩ := bind_eq_ok.mp hclean
    obtain ⟨-, -, hclean⟩ := bind_eq_ok.mp hclean
    obtain ⟨_, ht', -⟩ := bind_eq_ok.mp hclean
    rw [hdata]
    exact roundTrips_rp_iff hcodec hname hdata (cleanLabel_eq_ok.mp hm) (cleanLabel_eq_ok.mp ht)
      (notBlank_eq_ok.mp hm') (notBlank_eq_ok.mp ht')
  · rename_i data hdata
    obtain ⟨-, -, hclean⟩ := bind_eq_ok.mp hclean
    have hne : data ≠ [] := by
      intro hnil
      rw [if_pos hnil] at hclean
      cases hclean
    rw [hdata]
    exact iff_of_true (roundTrips_dhcid hname hdata hne) trivial
  · cases hclean

end

/-! ### Examples -/

/-- Two names one after the other, without pointers. -/
def encodeBoth : NamesEncoder := fun l m => .ok (nameWire l ++ nameWire m)

theorem namesCodec_encodeBoth : NamesCodec .ascii encodeBoth := by
  intro l m hl hm _
  have hat := At.start (nameWire l ++ (nameWire m ++ []))
  obtain ⟨offset, hfirst, hat⟩ := (nameCodec_ascii.decodes l hl).next hat
  obtain ⟨offset', hsecond, -⟩ := (nameCodec_ascii.decodes m hm).next hat
  rw [List.append_nil] at hfirst hsecond
  refine ⟨nameWire l ++ nameWire m, offset, offset', rfl, ?_, hfirst, hsecond⟩
  simp [nameWire]

def exampleZone : Zone := ⟨1, "example".toList, false⟩

/-- `www.example` -/
def exampleOwner : DnsLabel := ⟨[encode "www".toList, encode "example".toList]⟩

theorem ofText_exampleZone :
    DnsLabel.ofText Host.ascii.py exampleZone.zoneRoot = .ok ⟨[encode "example".toList]⟩ := by
  decide

def rpRow : Row := ⟨1, 1, "www".toList, 300, .rp "hostmaster".toList "contact".toList⟩

theorem names_rpRow : Names .ascii exampleZone exampleOwner rpRow := by
  unfold Names
  decide

theorem roundTrips_rpRow : RoundTrips .ascii encodeBoth exampleZone exampleOwner 2 rpRow := by
  have hclean : cleanFields rpRow = .ok () := by decide
  have hascii : ∀ cpu os, rpRow.data = .hinfo cpu os → IsAscii cpu ∧ IsAscii os := fun cpu os hdata =>
    nomatch hdata
  have hkept : Kept rpRow.data := by
    show "hostmaster".toList.length < 64 ∧ "contact".toList.length < 64
    decide
  exact ((roundTrips_iff namesCodec_encodeBoth ofText_exampleZone hclean hascii).2 exampleOwner 2
    names_rpRow).mpr hkept

/-- A DS row with a digest of one byte. -/
def dsRow : Row := ⟨1, 1, "www".toList, 300, .ds 1 8 2 "00".toList⟩

/-- The DS row passes its validators and does not come back. -/
theorem not_roundTrips_dsRow : ¬ ∀ (h : Host) (encodeNames : NamesEncoder) (zone : Zone)
    (queryName : DnsLabel) (id : ℕ) (row : Row), NamesCodec h encodeNames → cleanFields row = .ok () →
    (∀ cpu os, row.data = .hinfo cpu os → IsAscii cpu ∧ IsAscii os) → Names h zone queryName row →
    RoundTrips h encodeNames zone queryName id row := by
  intro hall
  have hname : Names .ascii exampleZone exampleOwner dsRow := names_rpRow
  have hclean : cleanFields dsRow = .ok () := by decide
  have hascii : ∀ cpu os, dsRow.data = .hinfo cpu os → IsAscii cpu ∧ IsAscii os := fun cpu os hdata =>
    nomatch hdata
  have hround := hall .ascii encodeBoth exampleZone exampleOwner 2 dsRow namesCodec_encodeBoth hclean hascii hname
  exact not_roundTrips_ds hname rfl hround

end HexDns.Models.OpaqueRdata
