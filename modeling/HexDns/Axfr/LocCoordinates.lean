import HexDns.Axfr.Loc
import HexDns.Models.Loc
import HexDns.Tasks.ZoneFile

/-! # Coordinates in locations

A coordinate is cut to degrees and minutes, and its seconds are rounded to thousandths, so that they may
come to sixty: `parse_loc` does not accept these. `coordinate_survives_iff` says that a coordinate comes through, with
an error of a thousandth of a second at most, if and only if it is not so close to the next minute. -/

namespace HexDns.Axfr.LocCoordinates

open HexDns.Lib.Texts HexDns.Lib.Rounding HexDns.Base.Codecs HexDns.Models.Env HexDns.Models.Names
  HexDns.Models.Loc HexDns.Axfr.KeyData HexDns.Axfr.Loc HexDns.Tasks.ZoneFile

/-! ### Degrees, minutes and seconds -/

/-- The degrees of a coordinate. -/
def degrees (dd : ℚ) : ℕ := ⌊|dd|⌋.toNat

/-- The minutes. -/
def minutes (dd : ℚ) : ℕ := ⌊Int.fract |dd| * 60⌋.toNat

/-- The thousandths of a second, rounded. -/
def thousandths (dd : ℚ) : ℕ := (roundEven (Int.fract (60 * |dd|) * 60000)).toNat

theorem ddToDms_neg (dd : ℚ) : ddToDms (-dd) = ddToDms dd := by
  have hm : (-dd - (-truncate dd : ℤ)) * 60 = -((dd - truncate dd) * 60) := by
    push_cast
    ring
  have hs : ∀ m : ℤ, (-dd - (-truncate dd : ℤ) - (-m : ℤ) / 60) * 3600 = -((dd - truncate dd - m / 60) * 3600) := by
    intro m
    push_cast
    ring
  unfold ddToDms
  dsimp only
  rw [truncate_neg, hm, truncate_neg, hs, abs_neg, abs_neg, abs_neg]

theorem fract_sixty (x : ℚ) : Int.fract (60 * x) = Int.fract (Int.fract x * 60) := by
  have hsplit : 60 * x = Int.fract x * 60 + ((60 * ⌊x⌋ : ℤ) : ℚ) := by
    push_cast
    linarith [Int.floor_add_fract x]
  rw [hsplit, Int.fract_add_intCast]

theorem ddToDms_of_nonneg {dd : ℚ} (h : 0 ≤ dd) : ddToDms dd =
    (⌊dd⌋, ⌊Int.fract dd * 60⌋, (roundEven (Int.fract (60 * dd) * 60000) : ℚ) / 1000) := by
  have hfract : 0 ≤ Int.fract dd := Int.fract_nonneg dd
  have hd : truncate dd = ⌊dd⌋ := truncate_of_nonneg h
  have hrest : dd - ⌊dd⌋ = Int.fract dd := Int.self_sub_floor dd
  have hm : truncate (Int.fract dd * 60) = ⌊Int.fract dd * 60⌋ := truncate_of_nonneg (by linarith)
  have hs : (Int.fract dd - ⌊Int.fract dd * 60⌋ / 60) * 3600 = Int.fract (60 * dd) * 60 := by
    rw [fract_sixty]
    linarith [Int.floor_add_fract (Int.fract dd * 60)]
  have hpos : 0 ≤ Int.fract (60 * dd) * 60 := by linarith [Int.fract_nonneg (60 * dd)]
  unfold ddToDms
  dsimp only
  rw [hd, hrest, hm, hs, abs_of_nonneg hpos, abs_of_nonneg (Int.floor_nonneg.mpr h),
    abs_of_nonneg (Int.floor_nonneg.mpr (by linarith : 0 ≤ Int.fract dd * 60)), mul_assoc]
  norm_num

theorem ddToDms_eq (dd : ℚ) : ddToDms dd = (↑(degrees dd), ↑(minutes dd), (thousandths dd : ℚ) / 1000) := by
  have habs : ddToDms dd = ddToDms |dd| := by
    rcases abs_choice dd with h | h
    · rw [h]
    · rw [h, ddToDms_neg]
  have hpos : 0 ≤ |dd| := abs_nonneg dd
  have hfract : 0 ≤ Int.fract (60 * |dd|) * 60000 := by linarith [Int.fract_nonneg (60 * |dd|)]
  have hminutes : 0 ≤ Int.fract |dd| * 60 := by linarith [Int.fract_nonneg |dd|]
  have hround : ((thousandths dd : ℕ) : ℤ) = roundEven (Int.fract (60 * |dd|) * 60000) :=
    Int.toNat_of_nonneg (roundEven_nonneg hfract)
  rw [habs, ddToDms_of_nonneg hpos]
  unfold degrees minutes
  rw [Int.toNat_of_nonneg (Int.floor_nonneg.mpr hpos), Int.toNat_of_nonneg (Int.floor_nonneg.mpr hminutes),
    ← hround]
  push_cast
  rfl

theorem dmsTexts_eq (dd : ℚ) : dmsTexts dd =
    (showNat (degrees dd), showNat (minutes dd), thousandthsText (thousandths dd)) := by
  have hnat : ∀ n : ℕ, showInt n = showNat n := by
    intro n
    unfold showInt
    rw [if_neg (by omega), Int.natAbs_natCast]
  have hfloor : ⌊(thousandths dd : ℚ) / 1000 * 1000⌋.toNat = thousandths dd := by
    rw [div_mul_cancel₀ _ (by norm_num), Int.floor_natCast, Int.toNat_natCast]
  unfold dmsTexts
  rw [ddToDms_eq]
  dsimp only
  rw [hnat, hnat, hfloor]

theorem minutes_le (dd : ℚ) : minutes dd ≤ 59 := by
  have hlt : ⌊Int.fract |dd| * 60⌋ < 60 := by
    rw [Int.floor_lt]
    push_cast
    linarith [Int.fract_lt_one |dd|]
  unfold minutes
  omega

theorem degrees_le {dd : ℚ} {max : ℕ} (h : |dd| ≤ max) : degrees dd ≤ max := by
  have hle : ⌊|dd|⌋ ≤ max := by
    rw [← Int.floor_natCast (R := ℚ)]
    exact Int.floor_le_floor h
  unfold degrees
  omega

/-- What is printed is off by half a thousandth of a second at most. -/
theorem abs_printed_sub_le (dd : ℚ) :
    abs (((degrees dd * 3600000 + minutes dd * 60000 + thousandths dd : ℕ) : ℚ) - 3600000 * abs dd) ≤ 1 / 2 := by
  have hpos : 0 ≤ |dd| := abs_nonneg dd
  have hd : ((degrees dd : ℕ) : ℚ) = ⌊|dd|⌋ := by
    have hnat := Int.toNat_of_nonneg (Int.floor_nonneg.mpr hpos)
    exact_mod_cast hnat
  have hm : ((minutes dd : ℕ) : ℚ) = ⌊Int.fract |dd| * 60⌋ := by
    have hnat := Int.toNat_of_nonneg (Int.floor_nonneg.mpr
      (by linarith [Int.fract_nonneg |dd|] : 0 ≤ Int.fract |dd| * 60))
    exact_mod_cast hnat
  have hs : ((thousandths dd : ℕ) : ℚ) = roundEven (Int.fract (60 * |dd|) * 60000) := by
    have hnat := Int.toNat_of_nonneg (roundEven_nonneg
      (by linarith [Int.fract_nonneg (60 * |dd|)] : 0 ≤ Int.fract (60 * |dd|) * 60000))
    exact_mod_cast hnat
  have hround := abs_roundEven_sub (Int.fract (60 * |dd|) * 60000)
  have hexact : 3600000 * |dd| = ⌊|dd|⌋ * 3600000 + ⌊Int.fract |dd| * 60⌋ * 60000 +
      Int.fract (60 * |dd|) * 60000 := by
    rw [fract_sixty]
    linarith [Int.floor_add_fract |dd|, Int.floor_add_fract (Int.fract |dd| * 60)]
  push_cast
  rw [hd, hm, hs, hexact, add_sub_add_left_eq_sub]
  exact hround

/-- The seconds are less than sixty if and only if the coordinate is not too close to the next minute. -/
theorem thousandths_lt_iff (dd : ℚ) : thousandths dd < 60000 ↔ Int.fract (60 * |dd|) < 119999 / 120000 := by
  have hpos := roundEven_nonneg (by linarith [Int.fract_nonneg (60 * |dd|)] : 0 ≤ Int.fract (60 * |dd|) * 60000)
  have hle : thousandths dd < 60000 ↔ roundEven (Int.fract (60 * |dd|) * 60000) ≤ 59999 := by
    unfold thousandths
    omega
  rw [hle, roundEven_le_iff (by decide)]
  push_cast
  constructor <;> intro h <;> linarith

/-! ### The texts are read back -/

/-- The digits after the point: they are digits, and stand for the thousandths below one. -/
theorem fractionText_spec (n : ℕ) : (∀ c ∈ fractionText n, c.isDigit = true) ∧
    ∀ w, (Nat.ofDigitChars 10 (fractionText n) w : ℚ) / 10 ^ (fractionText n).length =
      w + ((n % 1000 : ℕ) : ℚ) / 1000 := by
  have hdigit : ∀ d < 10, (Nat.digitChar d).isDigit = true := by decide
  have ha : n / 100 % 10 < 10 := Nat.mod_lt _ (by decide)
  have hb : n / 10 % 10 < 10 := Nat.mod_lt _ (by decide)
  have hc : n % 10 < 10 := Nat.mod_lt _ (by decide)
  have hsum : n % 1000 = n / 100 % 10 * 100 + n / 10 % 10 * 10 + n % 10 := by omega
  unfold fractionText
  split_ifs with h1 h2
  · refine ⟨?_, fun w => ?_⟩
    · simp [hdigit _ ha, hdigit _ hb, hdigit _ hc]
    · simp only [List.map_cons, List.map_nil, Nat.ofDigitChars_cons_digitChar_of_lt_ten ha,
        Nat.ofDigitChars_cons_digitChar_of_lt_ten hb, Nat.ofDigitChars_cons_digitChar_of_lt_ten hc,
        Nat.ofDigitChars_nil, List.length_cons, List.length_nil]
      rw [hsum]
      push_cast
      ring
  · have hzero : n % 10 = 0 := not_not.mp h1
    refine ⟨?_, fun w => ?_⟩
    · simp [hdigit _ ha, hdigit _ hb]
    · simp only [List.map_cons, List.map_nil, Nat.ofDigitChars_cons_digitChar_of_lt_ten ha,
        Nat.ofDigitChars_cons_digitChar_of_lt_ten hb, Nat.ofDigitChars_nil, List.length_cons, List.length_nil]
      rw [hsum, hzero]
      push_cast
      ring
  · have hzero : n % 10 = 0 := not_not.mp h1
    have hzero' : n / 10 % 10 = 0 := not_not.mp h2
    refine ⟨?_, fun w => ?_⟩
    · simp [hdigit _ ha]
    · simp only [Nat.ofDigitChars_cons_digitChar_of_lt_ten ha, Nat.ofDigitChars_nil, List.length_cons,
        List.length_nil]
      rw [hsum, hzero, hzero']
      push_cast
      ring

/-- Digits, a point and digits are read as the number. -/
theorem parseUnsigned_decimal {whole fraction : Text} (hwhole : ∀ c ∈ whole, c.isDigit = true)
    (hfraction : ∀ c ∈ fraction, c.isDigit = true) (hne : whole ≠ []) :
    parseUnsigned (whole ++ '.' :: fraction) =
      some ((Nat.ofDigitChars 10 (whole ++ fraction) 0 : ℚ) / 10 ^ fraction.length) := by
  have hletter : ∀ c : Char, c.isDigit = true → c ≠ 'e' ∧ c ≠ 'E' ∧ c ≠ '.' := by
    rintro c hc
    refine ⟨?_, ?_, ?_⟩ <;> rintro rfl <;> cases hc
  have hall : ∀ c ∈ whole ++ '.' :: fraction, (c ≠ 'e' && c ≠ 'E') = true := by
    intro c hc
    rcases List.mem_append.mp hc with hc | hc
    · have h := hletter c (hwhole c hc)
      simp [h.1, h.2.1]
    · rcases List.mem_cons.mp hc with rfl | hc
      · decide
      · have h := hletter c (hfraction c hc)
        simp [h.1, h.2.1]
  have hnumber : (whole ++ '.' :: fraction).takeWhile (fun c => c ≠ 'e' && c ≠ 'E') = whole ++ '.' :: fraction :=
    List.takeWhile_eq_self_iff.mpr hall
  have hexponent : (whole ++ '.' :: fraction).dropWhile (fun c => c ≠ 'e' && c ≠ 'E') = [] :=
    List.dropWhile_eq_nil_iff.mpr hall
  have hpoint : ∀ c ∈ whole, decide (c ≠ '.') = true := fun c hc => decide_eq_true (hletter c (hwhole c hc)).2.2
  have htake : (whole ++ '.' :: fraction).takeWhile (fun c => decide (c ≠ '.')) = whole := by
    rw [List.takeWhile_append_of_pos hpoint]
    simp
  have hdrop : ((whole ++ '.' :: fraction).dropWhile (fun c => decide (c ≠ '.'))).drop 1 = fraction := by
    rw [List.dropWhile_append_of_pos hpoint]
    simp
  have hdigits : (whole ++ fraction).all Char.isDigit = true := by
    rw [List.all_append, Bool.and_eq_true]
    exact ⟨List.all_eq_true.mpr hwhole, List.all_eq_true.mpr hfraction⟩
  unfold parseUnsigned
  dsimp only
  rw [hnumber, hexponent, htake, hdrop, if_pos ⟨by simp [hne], hdigits⟩]
  show some (_ * (10 : ℚ) ^ (0 : ℤ)) = _
  rw [zpow_zero, mul_one]

/-- Seconds are read back. -/
theorem parseF64_thousandthsText (n : ℕ) : parseF64 (thousandthsText n) = some ((n : ℚ) / 1000) := by
  obtain ⟨hdigits, hvalue⟩ := fractionText_spec n
  have hne : showNat (n / 1000) ≠ [] := Nat.toDigits_ne_nil
  have hwhole : Nat.ofDigitChars 10 (showNat (n / 1000)) 0 = n / 1000 := Nat.ofDigitChars_ten_toDigits
  have hunsigned : parseUnsigned (thousandthsText n) = some ((n : ℚ) / 1000) := by
    unfold thousandthsText
    rw [parseUnsigned_decimal (fun c hc => isDigit_showNat hc) hdigits hne, Nat.ofDigitChars_append, hwhole, hvalue]
    have hsplit : n = n / 1000 * 1000 + n % 1000 := by omega
    have hq : (n : ℚ) = ((n / 1000 : ℕ) : ℚ) * 1000 + ((n % 1000 : ℕ) : ℚ) := by exact_mod_cast hsplit
    rw [hq]
    congr 1
    ring
  obtain ⟨c, t, hct⟩ := List.exists_cons_of_ne_nil hne
  have hc : c.isDigit = true := isDigit_showNat (hct ▸ List.mem_cons_self : c ∈ showNat (n / 1000))
  have htext : thousandthsText n = c :: (t ++ '.' :: fractionText n) := by
    unfold thousandthsText
    rw [hct]
    rfl
  rw [htext] at hunsigned ⊢
  unfold parseF64
  split
  · rename_i heq
    obtain rfl := (List.cons.inj heq).1
    cases hc
  · rename_i heq
    obtain rfl := (List.cons.inj heq).1
    cases hc
  · exact hunsigned

/-- A text that begins with a digit is not a letter. -/
theorem ne_letter {t : Text} {p : Char} (ht : ∀ c ∈ t.head?, c.isDigit = true) (hp : p.isDigit = false) :
    t ≠ [p] := by
  rintro rfl
  rw [ht p rfl] at hp
  cases hp

theorem head_showNat (n : ℕ) (rest : Text) : ∀ c ∈ (showNat n ++ rest).head?, c.isDigit = true := by
  intro c hc
  have hne : showNat n ≠ [] := Nat.toDigits_ne_nil
  rw [List.head?_append_of_ne_nil _ hne] at hc
  exact isDigit_showNat (List.mem_of_head? hc)

/-- An angle as it is printed is read back. -/
theorem parseAngle_printed {plus minus : Char} (hplus : plus.isDigit = false) (hminus : minus.isDigit = false)
    (hne : plus ≠ minus) {d m : ℕ} (hd : d < 2 ^ 32) (hm : m < 2 ^ 32) (n : ℕ) (negative : Prop)
    [Decidable negative] (tokens : List Text) :
    parseAngle [plus] [minus] (showNat d :: showNat m :: thousandthsText n ::
      (if negative then [minus] else [plus]) :: tokens) =
      some (⟨d, m, (n : ℚ) / 1000, if negative then -1 else 1⟩, tokens) := by
  have hmhead : ∀ c ∈ (showNat m).head?, c.isDigit = true := by
    have h := head_showNat m []
    rwa [List.append_nil] at h
  have hshead : ∀ c ∈ (thousandthsText n).head?, c.isDigit = true := head_showNat _ _
  unfold parseAngle
  dsimp only
  rw [show parseUint 32 (showNat d) = some d from parseUint_toDigits hd, Option.bind_eq_bind, Option.bind_some,
    if_neg (ne_letter hmhead hplus), if_neg (ne_letter hmhead hminus),
    show parseUint 32 (showNat m) = some m from parseUint_toDigits hm, Option.bind_eq_bind, Option.bind_some,
    if_neg (ne_letter hshead hplus), if_neg (ne_letter hshead hminus), parseF64_thousandthsText,
    Option.bind_some]
  by_cases hneg : negative
  · rw [if_pos hneg, if_pos hneg, if_neg (by simpa using hne.symm), if_pos rfl]
  · rw [if_neg hneg, if_neg hneg, if_pos rfl]

/-! ### What comes through -/

/-- The angle that is read for a coordinate. -/
def readAngle (dd : ℚ) : Angle :=
  ⟨degrees dd, minutes dd, (thousandths dd : ℚ) / 1000, if dd < 0 then -1 else 1⟩

theorem castUint_intCast {n : ℤ} (h0 : 0 ≤ n) (h : n < 2 ^ 32) : (castUint 32 (n : ℚ) : ℤ) = n := by
  unfold castUint
  rw [Int.floor_intCast]
  omega

/-- The value is that of the coordinate. -/
theorem encode_readAngle {dd : ℚ} (h : |dd| ≤ 180) : (readAngle dd).encode < 2 ^ 32 ∧
    abs (((readAngle dd).encode : ℚ) - (2 ^ 31 + 3600000 * dd)) ≤ 1 := by
  have hd : degrees dd ≤ 180 := degrees_le (by exact_mod_cast h)
  have hm : minutes dd ≤ 59 := minutes_le dd
  have hs : thousandths dd ≤ 60000 := by
    have hround := abs_roundEven_sub (Int.fract (60 * |dd|) * 60000)
    have hfract := Int.fract_lt_one (60 * |dd|)
    have hlt : (roundEven (Int.fract (60 * |dd|) * 60000) : ℚ) < 60001 := by
      linarith [(abs_le.mp hround).2]
    have hlt' : roundEven (Int.fract (60 * |dd|) * 60000) < 60001 := by exact_mod_cast hlt
    unfold thousandths
    omega
  have hoff := abs_printed_sub_le dd
  obtain ⟨n, hn⟩ : ∃ n, n = degrees dd * 3600000 + minutes dd * 60000 + thousandths dd := ⟨_, rfl⟩
  rw [← hn] at hoff
  have hcast : ∀ k : ℤ, 0 ≤ k → k < 2 ^ 32 → ∀ q : ℚ, q = k → castUint 32 q < 2 ^ 32 ∧ (castUint 32 q : ℚ) = k := by
    rintro k hk0 hk q rfl
    have heq := castUint_intCast hk0 hk
    exact ⟨by omega, by exact_mod_cast heq⟩
  unfold Angle.encode readAngle
  dsimp only
  by_cases hneg : dd < 0
  · rw [if_pos hneg]
    rw [abs_of_neg hneg] at hoff
    obtain ⟨hlt, heq⟩ := hcast (2 ^ 31 - n) (by omega) (by omega)
      ((degrees dd * 60 * 60 + minutes dd * 60 + (thousandths dd : ℚ) / 1000) * 1000 * -1 + 2 ^ 31) (by
        rw [hn]
        push_cast
        ring)
    refine ⟨hlt, ?_⟩
    rw [heq]
    push_cast
    rw [abs_le] at hoff ⊢
    constructor <;> linarith
  · rw [if_neg hneg]
    rw [abs_of_nonneg (not_lt.mp hneg)] at hoff
    obtain ⟨hlt, heq⟩ := hcast (2 ^ 31 + n) (by omega) (by omega)
      ((degrees dd * 60 * 60 + minutes dd * 60 + (thousandths dd : ℚ) / 1000) * 1000 * 1 + 2 ^ 31) (by
        rw [hn]
        push_cast
        ring)
    refine ⟨hlt, ?_⟩
    rw [heq]
    push_cast
    rw [abs_le] at hoff ⊢
    constructor <;> linarith

theorem valid_readAngle {dd : ℚ} {max : ℕ} (h : |dd| ≤ max) :
    (readAngle dd).valid max = true ↔ Int.fract (60 * |dd|) < 119999 / 120000 := by
  have hs : ¬ ((thousandths dd : ℚ) / 1000 < 0 ∨ 60 ≤ (thousandths dd : ℚ) / 1000) ↔ thousandths dd < 60000 := by
    have hpos : (0 : ℚ) ≤ (thousandths dd : ℚ) / 1000 := by positivity
    have hcast : thousandths dd < 60000 ↔ (thousandths dd : ℚ) < 60000 := by exact_mod_cast Iff.rfl
    rw [not_or, not_lt, not_le, hcast, div_lt_iff₀ (by norm_num)]
    norm_num
    exact fun _ => hpos
  rw [← thousandths_lt_iff, ← hs]
  unfold Angle.valid readAngle
  dsimp only
  rw [decide_eq_true_iff]
  exact ⟨fun hvalid => hvalid.2.2, fun hvalid => ⟨degrees_le h, minutes_le dd, hvalid⟩⟩

/-- A coordinate comes through: what is printed for the record is accepted, and the two values are those
of its coordinates, up to a thousandth of a second. -/
def Survives (h : Host) (latitude longitude altitude size hp vp : ℚ) : Prop :=
  ∃ loc, parseFields (locWords h latitude longitude altitude size hp vp) = some loc ∧
    (loc.lat < 2 ^ 32 ∧ abs ((loc.lat : ℚ) - (2 ^ 31 + 3600000 * latitude)) ≤ 1) ∧
    loc.long < 2 ^ 32 ∧ abs ((loc.long : ℚ) - (2 ^ 31 + 3600000 * longitude)) ≤ 1

/-- **Coordinates survive publication if and only if** neither is within half a thousandth of a second
below a minute. -/
theorem coordinate_survives_iff {h : Host} {latitude longitude altitude size hp vp : ℚ} (hlat : |latitude| ≤ 90)
    (hlong : |longitude| ≤ 180) (haltitude : -100000 ≤ altitude ∧ altitude ≤ 42849672.95)
    (hsizes : ∀ q ∈ [size, hp, vp], 0 ≤ q ∧ q ≤ 90000000)
    (hdms : ∀ dd ∈ [latitude, longitude], h.ddToDms dd = dmsTexts dd)
    (hmetres : ∀ q ∈ [altitude, size, hp, vp], parseMetres (h.floatText q ++ ['m']) = some q) :
    Survives h latitude longitude altitude size hp vp ↔
      ∀ dd ∈ [latitude, longitude], Int.fract (60 * |dd|) < 119999 / 120000 := by
  have hlong90 : |longitude| ≤ ((180 : ℕ) : ℚ) := by exact_mod_cast hlong
  have hlat90 : |latitude| ≤ ((90 : ℕ) : ℚ) := by exact_mod_cast hlat
  have hsmall : ∀ dd : ℚ, degrees dd ≤ 180 → degrees dd < 2 ^ 32 ∧ minutes dd < 2 ^ 32 := fun dd hdd =>
    ⟨by omega, by have := minutes_le dd; omega⟩
  have hwords : locWords h latitude longitude altitude size hp vp =
      showNat (degrees latitude) :: showNat (minutes latitude) :: thousandthsText (thousandths latitude) ::
        (if latitude < 0 then ['S'] else ['N']) ::
      showNat (degrees longitude) :: showNat (minutes longitude) :: thousandthsText (thousandths longitude) ::
        (if longitude < 0 then ['W'] else ['E']) ::
      [h.floatText altitude ++ ['m'], h.floatText size ++ ['m'], h.floatText hp ++ ['m'],
        h.floatText vp ++ ['m']] := by
    unfold locWords
    rw [hdms latitude (by simp), hdms longitude (by simp), dmsTexts_eq, dmsTexts_eq]
  have hparse : parseFields (locWords h latitude longitude altitude size hp vp) =
      if (readAngle latitude).valid 90 ∧ (readAngle longitude).valid 180 ∧
          ¬ (altitude < -100000 ∨ 42849672.95 < altitude) ∧ ∀ q ∈ [size, hp, vp], ¬ (q < 0 ∨ 90000000 < q) then
        some ⟨Axfr.Loc.encSize (size * 100), Axfr.Loc.encSize (hp * 100), Axfr.Loc.encSize (vp * 100),
          (readAngle latitude).encode,
          (readAngle longitude).encode, castUint 32 ((altitude + 100000) * 100)⟩
      else none := by
    obtain ⟨hd1, hm1⟩ := hsmall latitude (by have := degrees_le hlat90; omega)
    obtain ⟨hd2, hm2⟩ := hsmall longitude (degrees_le hlong90)
    have halt := hmetres altitude (by simp)
    have hsize := hmetres size (by simp)
    have hhp := hmetres hp (by simp)
    have hvp := hmetres vp (by simp)
    rw [hwords]
    unfold parseFields
    rw [parseAngle_printed (by decide) (by decide) (by decide) hd1 hm1]
    dsimp only [Option.bind_eq_bind, Option.bind_some]
    rw [parseAngle_printed (by decide) (by decide) (by decide) hd2 hm2]
    dsimp only [Option.bind_eq_bind, Option.bind_some, nextMetres]
    rw [halt, hsize, Option.bind_some, Option.map_some, Option.bind_some]
    dsimp only
    rw [hhp, Option.map_some, Option.bind_some]
    dsimp only
    rw [hvp, Option.map_some, Option.bind_some]
    rfl
  have hrange : ¬ (altitude < -100000 ∨ 42849672.95 < altitude) ∧
      ∀ q ∈ [size, hp, vp], ¬ (q < 0 ∨ 90000000 < q) := by
    refine ⟨?_, fun q hq => ?_⟩
    · rw [not_or, not_lt, not_lt]
      exact haltitude
    · rw [not_or, not_lt, not_lt]
      exact hsizes q hq
  have hvalid : (∀ dd ∈ [latitude, longitude], Int.fract (60 * |dd|) < 119999 / 120000) ↔
      (readAngle latitude).valid 90 = true ∧ (readAngle longitude).valid 180 = true := by
    rw [valid_readAngle hlat90, valid_readAngle hlong90]
    simp
  rw [hvalid]
  unfold Survives
  rw [hparse]
  constructor
  · rintro ⟨loc, hloc, -⟩
    split_ifs at hloc with hall
    exact ⟨hall.1, hall.2.1⟩
  · rintro ⟨hvalid1, hvalid2⟩
    rw [if_pos ⟨hvalid1, hvalid2, hrange⟩]
    exact ⟨_, rfl, encode_readAngle (by linarith), encode_readAngle hlong⟩

/-- A host that calculates with rationals, and prints zero. -/
private def exactHost : Host := { Host.ascii with ddToDms := dmsTexts, floatText := fun _ => "0.0".toList }

theorem parseMetres_zero : parseMetres ("0.0".toList ++ ['m']) = some 0 := by decide +kernel

theorem survives_half : Survives exactHost (-1 / 2) 180 0 0 0 0 := by
  refine (coordinate_survives_iff (by norm_num [abs_le]) (by norm_num [abs_le]) (by norm_num) (by simp) (fun _ _ => rfl) ?_).mpr ?_
  · intro q hq
    obtain rfl : q = 0 := by simpa using hq
    exact parseMetres_zero
  · decide +kernel

/-- The seconds of a latitude just below one degree are printed as 60. -/
theorem not_survives : ¬ ∀ (h : Host) (latitude longitude altitude size hp vp : ℚ), |latitude| ≤ 90 →
    |longitude| ≤ 180 → (-100000 ≤ altitude ∧ altitude ≤ 42849672.95) →
    (∀ q ∈ [size, hp, vp], 0 ≤ q ∧ q ≤ 90000000) →
    (∀ dd ∈ [latitude, longitude], h.ddToDms dd = dmsTexts dd) →
    (∀ q ∈ [altitude, size, hp, vp], parseMetres (h.floatText q ++ ['m']) = some q) →
    Survives h latitude longitude altitude size hp vp := by
  intro hall
  obtain ⟨loc, hloc, -⟩ := hall exactHost (99999999 / 100000000) 0 0 0 0 0 (by norm_num [abs_le])
    (by norm_num) (by norm_num) (by simp) (fun _ _ => rfl) (fun q hq => by
      obtain rfl : q = 0 := by simpa using hq
      exact parseMetres_zero)
  have hnone : parseFields (locWords exactHost (99999999 / 100000000) 0 0 0 0 0) = none := by decide +kernel
  exact nomatch hnone.symm.trans hloc

end HexDns.Axfr.LocCoordinates
