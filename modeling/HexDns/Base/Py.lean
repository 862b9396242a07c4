import HexDns.Lib.Programs
import HexDns.Lib.Texts
import Mathlib.Data.List.DropRight

/-! # What the code uses of Python

The exceptions by their class, and the parts of the string type that depend on the Unicode tables.
`Python` has the tables as parameters: `lowerAt before c after` is what `str.lower` makes of `c`
between two texts, with the facts that every version of the tables has; `encodeIdna` is the codec
`idna` on texts that are not ASCII, `int` the integer that a text denotes. `Python.ascii` is an
instance that is right on ASCII texts. -/

namespace HexDns.Base.Py

open HexDns.Lib.Texts

/-- The classes of the exceptions that the code raises or lets through. -/
inductive PyErr
  | attributeError
  | typeError
  | indexError
  | unicodeError
  | valueError
  | overflowError
  | structError
  | recursionError
  | osError
  /-- `django.core.exceptions.ValidationError` -/
  | validationError
  /-- `django.db.Error` -/
  | databaseError
  /-- `dnslib.DNSError` -/
  | dnsError
  /-- `dnslib.buffer.BufferError` -/
  | bufferError
  | other
  deriving DecidableEq, Repr

structure Python where
  lowerAt : Text → Char → Text → Text
  lowerAt_ascii : ∀ a c b, c.toNat < 128 → lowerAt a c b = [lowerChar c]
  /-- The case of the ASCII letters around a character does not matter. -/
  lowerAt_lowerChar : ∀ a c b,
    lowerAt (a.map lowerChar) (lowerChar c) (b.map lowerChar) = lowerAt a c b
  /-- What is in lower case stays as it is. -/
  lowerAt_fixed : ∀ a c b, ∀ d ∈ lowerAt a c b, ∀ a' b', lowerAt a' d b' = [d]
  encodeIdna : Text → Except PyErr Bytes
  encodeIdna_ascii : ∀ t b, encodeIdna t = .ok b → ∀ x ∈ b, x.toNat < 128
  int : Text → Option ℤ
  int_digits : ∀ n : ℕ, int (Nat.toDigits 10 n) = some n

variable (py : Python)

/-- `str.lower` from the character after `before` on. -/
def Python.lowerFrom (before : Text) : Text → Text
  | [] => []
  | c :: after => py.lowerAt before c after ++ lowerFrom (before ++ [c]) after

/-- `str.lower` -/
def Python.lower (t : Text) : Text := py.lowerFrom [] t

/-- A character that `str.lower` leaves as it is, wherever it stands. -/
def Python.Fixed (c : Char) : Prop := ∀ a b, py.lowerAt a c b = [c]

variable {py}

theorem lowerFrom_eq_self {t : Text} (h : ∀ c ∈ t, py.Fixed c) (a : Text) :
    py.lowerFrom a t = t := by
  induction t generalizing a with
  | nil => rfl
  | cons c t ih =>
    unfold Python.lowerFrom
    rw [h c List.mem_cons_self, ih (fun d hd => h d (List.mem_cons_of_mem _ hd))]
    rfl

theorem lower_eq_self {t : Text} (h : ∀ c ∈ t, py.Fixed c) : py.lower t = t :=
  lowerFrom_eq_self h []

theorem fixed_of_mem_lowerFrom {a t : Text} {d : Char} (h : d ∈ py.lowerFrom a t) :
    py.Fixed d := by
  induction t generalizing a with
  | nil => cases h
  | cons c t ih =>
    unfold Python.lowerFrom at h
    rcases List.mem_append.mp h with h | h
    · exact fun a' b' => py.lowerAt_fixed _ _ _ d h a' b'
    · exact ih h

theorem fixed_of_mem_lower {t : Text} {d : Char} (h : d ∈ py.lower t) : py.Fixed d :=
  fixed_of_mem_lowerFrom h

@[simp] theorem lower_lower (t : Text) : py.lower (py.lower t) = py.lower t :=
  lower_eq_self fun _ => fixed_of_mem_lower

theorem lowerFrom_ascii {t : Text} (h : IsAscii t) (a : Text) :
    py.lowerFrom a t = t.map lowerChar := by
  induction t generalizing a with
  | nil => rfl
  | cons c t ih =>
    unfold Python.lowerFrom
    rw [py.lowerAt_ascii _ _ _ (h c List.mem_cons_self),
      ih (fun d hd => h d (List.mem_cons_of_mem _ hd))]
    rfl

theorem lower_ascii {t : Text} (h : IsAscii t) : py.lower t = t.map lowerChar :=
  lowerFrom_ascii h []

theorem lowerFrom_map_lowerChar (a t : Text) :
    py.lowerFrom (a.map lowerChar) (t.map lowerChar) = py.lowerFrom a t := by
  induction t generalizing a with
  | nil => rfl
  | cons c t ih =>
    rw [List.map_cons]
    unfold Python.lowerFrom
    have := ih (a ++ [c])
    rw [List.map_append, List.map_singleton] at this
    rw [py.lowerAt_lowerChar, this]

@[simp] theorem lower_map_lowerChar (t : Text) : py.lower (t.map lowerChar) = py.lower t :=
  lowerFrom_map_lowerChar [] t

theorem fixed_of_ascii {c : Char} (h : c.toNat < 128) (hc : lowerChar c = c) : py.Fixed c :=
  fun a b => by rw [py.lowerAt_ascii a c b h, hc]

/-- Texts in lower case joined by dots are in lower case. -/
theorem lower_joined (ts : List Text) : py.lower (['.'].intercalate (ts.map py.lower)) =
    ['.'].intercalate (ts.map py.lower) := by
  refine lower_eq_self fun c hc => ?_
  rcases mem_of_mem_intercalate hc with hc | ⟨l, hl, hc⟩
  · rw [List.mem_singleton.mp hc]
    exact fixed_of_ascii (by decide) (by decide)
  · obtain ⟨t, -, rfl⟩ := List.mem_map.mp hl
    exact fixed_of_mem_lower hc

/-- `str.isspace` of one character -/
def isSpace (c : Char) : Bool :=
  let n := c.toNat
  (9 ≤ n && n ≤ 13) || (28 ≤ n && n ≤ 32) || n = 0x85 || n = 0xa0 || n = 0x1680 ||
    (0x2000 ≤ n && n ≤ 0x200a) || n = 0x2028 || n = 0x2029 || n = 0x202f || n = 0x205f || n = 0x3000

/-- `str.strip(chars)`: without the characters that satisfy `p` at both ends -/
def stripBy (p : Char → Bool) (t : Text) : Text := (t.dropWhile p).rdropWhile p

/-- `str.strip()` -/
def strip (t : Text) : Text := stripBy isSpace t

theorem lowerChar_lowerChar (c : Char) : lowerChar (lowerChar c) = lowerChar c := by
  unfold lowerChar
  split_ifs with h h'
  · rw [toNat_ofNat_lt (by omega)] at h'; omega
  · rfl
  · rfl

/-- The tables of ASCII. -/
def Python.ascii : Python where
  lowerAt _ c _ := [lowerChar c]
  lowerAt_ascii _ _ _ _ := rfl
  lowerAt_lowerChar _ c _ := by rw [lowerChar_lowerChar]
  lowerAt_fixed _ c _ d hd _ _ := by
    rw [List.mem_singleton.mp hd, lowerChar_lowerChar]
  encodeIdna _ := .error .unicodeError
  encodeIdna_ascii _ _ h := by cases h
  int t := if t ≠ [] ∧ ∀ c ∈ t, c.isDigit then some (Nat.ofDigitChars 10 t 0) else none
  int_digits n := by
    have hd : ∀ c ∈ Nat.toDigits 10 n, c.isDigit := fun c hc =>
      Nat.isDigit_of_mem_toDigits (by decide) (by decide) hc
    rw [if_pos ⟨Nat.toDigits_ne_nil, hd⟩, Nat.ofDigitChars_ten_toDigits]
    rfl

end HexDns.Base.Py
