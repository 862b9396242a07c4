import HexDns.Tasks.Lines

/-! # Quoted strings

What `encode_str` writes between quotes is read back exactly if it has no backslash (`readBack_iff`):
quotes and bytes from 128 on are escaped, but a backslash is not, and takes the character or the three
digits after it.

For the way back, `weight` gives two to an ASCII byte, seven to the first byte of a longer character
and nothing to the others. A reader never gains more weight than was written, and loses some at each
backslash. -/

namespace HexDns.Tasks.Quoting

open HexDns.Lib.Texts HexDns.Lib.MasterFile HexDns.Models.Names HexDns.Tasks.ZoneFile
  HexDns.Tasks.Lines

/-! ### The characters as they are written -/

theorem encodeStr_cons (c : Char) (s : Text) : encodeStr (c :: s) = encodeStr [c] ++ encodeStr s := by
  unfold encodeStr
  rw [List.flatMap_cons, List.flatMap_cons, List.flatMap_nil, List.append_nil]

/-- Bytes by their numbers. -/
def escapedBytes (bs : Bytes) : Text := bs.flatMap fun b => '\\' :: showNat b.toNat

theorem encodeStr_quote : encodeStr ['"'] = ['\\', '"'] := rfl

theorem encodeStr_ascii {c : Char} (hq : c ≠ '"') (hc : c.toNat < 128) : encodeStr [c] = [c] := by
  unfold encodeStr
  rw [List.flatMap_cons, if_neg hq, if_pos hc]; rfl

theorem encodeStr_escaped {c : Char} (hc : ¬ c.toNat < 128) :
    encodeStr [c] = escapedBytes (encode [c]) := by
  have hq : c ≠ '"' := by rintro rfl; exact hc (by decide)
  unfold encodeStr escapedBytes
  rw [List.flatMap_cons, if_neg hq, if_neg hc, List.flatMap_nil, List.append_nil]

theorem toDigits_byte : ∀ n < 256, 100 ≤ n → Nat.toDigits 10 n =
    [Nat.digitChar (n / 100), Nat.digitChar (n / 10 % 10), Nat.digitChar (n % 10)] := by
  decide +kernel

/-- A byte from 128 on is written with three digits. -/
theorem showNat_byte {b : UInt8} (hb : 128 ≤ b.toNat) : ∃ d₁ < 10, ∃ d₂ < 10, ∃ d₃ < 10,
    showNat b.toNat = [Nat.digitChar d₁, Nat.digitChar d₂, Nat.digitChar d₃] ∧
      10 * (10 * d₁ + d₂) + d₃ = b.toNat := by
  have hlt : b.toNat < 256 := b.toNat_lt
  refine ⟨b.toNat / 100, by omega, b.toNat / 10 % 10, by omega, b.toNat % 10, by omega, ?_, by omega⟩
  exact toDigits_byte b.toNat hlt (by omega)

/-! ### Reading in a string -/

section
variable {s : Lexer}

theorem step_string (hs : s.mode = .string) {c : Char} (hq : c ≠ '"') (hb : c ≠ '\\') :
    s.step c = some (s.push false (encode [c])) := by
  unfold Lexer.step
  simp only [hs, if_neg hq, if_neg hb]

theorem step_string_backslash (hs : s.mode = .string) :
    s.step '\\' = some { s with mode := .escape true [] } := by
  unfold Lexer.step
  simp only [hs]
  rfl

theorem step_string_quote (hs : s.mode = .string) : s.step '"' = some (s.endToken true) := by
  unfold Lexer.step
  simp only [hs]
  rfl

theorem step_escape {i : Bool} {ds : List ℕ} (hs : s.mode = .escape i ds) (c : Char) :
    s.step c = s.stepEscape i ds c := by
  unfold Lexer.step
  simp only [hs]

/-- After a backslash a digit waits for two more. -/
theorem stepEscape_digit {ds : List ℕ} {c : Char} (hc : c.isDigit = true) (hds : ds.length < 2) :
    s.stepEscape true ds c = some { s with mode := .escape true (ds ++ [c.toNat - 48]) } := by
  unfold Lexer.stepEscape
  rw [if_pos hc]
  have h : (ds ++ [c.toNat - 48]).length < 3 := by simp; omega
  simp only [h, if_true]

/-- The third digit ends the number of a byte. -/
theorem stepEscape_last {d₁ d₂ : ℕ} {c : Char} (hc : c.isDigit = true) :
    s.stepEscape true [d₁, d₂] c =
      if 10 * (10 * d₁ + d₂) + (c.toNat - 48) < 256 then
        some { (s.push true [UInt8.ofNat (10 * (10 * d₁ + d₂) + (c.toNat - 48))]) with mode := .string }
      else none := by
  unfold Lexer.stepEscape
  rw [if_pos hc]
  simp [Lexer.inside]

/-- After a backslash any other character stands for itself. -/
theorem stepEscape_other {c : Char} (hc : c.isDigit = false) :
    s.stepEscape true [] c = some { (s.push true (encode [c])) with mode := .string } := by
  unfold Lexer.stepEscape
  rw [if_neg (by simp [hc])]
  rfl

/-- In a string, a byte given by its number is read as it was. -/
theorem lex_escapedByte (hs : s.mode = .string) {b : UInt8} (hb : 128 ≤ b.toNat) :
    s.lex ('\\' :: showNat b.toNat) = some (s.push true [b]) := by
  obtain ⟨d₁, h₁, d₂, h₂, d₃, h₃, htext, hval⟩ := showNat_byte hb
  obtain ⟨hd1, hv1⟩ := isDigit_digitChar d₁ h₁
  obtain ⟨hd2, hv2⟩ := isDigit_digitChar d₂ h₂
  obtain ⟨hd3, hv3⟩ := isDigit_digitChar d₃ h₃
  have hlt : b.toNat < 256 := b.toNat_lt
  rw [htext, Lexer.lex_cons, step_string_backslash hs, Option.bind_some, Lexer.lex_cons,
    step_escape rfl, stepEscape_digit hd1 (by decide), Option.bind_some, Lexer.lex_cons,
    step_escape rfl, stepEscape_digit hd2 (by simp), Option.bind_some, Lexer.lex_singleton,
    step_escape rfl]
  show Lexer.stepEscape _ true [_, _] _ = _
  rw [stepEscape_last hd3, hv1, hv2, hv3, if_pos (by omega), hval]
  simp [Lexer.push, hs]

theorem lex_escapedBytes (hs : s.mode = .string) {bs : Bytes} (h : ∀ b ∈ bs, 128 ≤ b.toNat) :
    s.lex (escapedBytes bs) = some (s.push true bs) := by
  induction bs generalizing s with
  | nil => simp [escapedBytes, Lexer.push]
  | cons b bs ih =>
    show s.lex ('\\' :: showNat b.toNat ++ escapedBytes bs) = _
    rw [Lexer.lex_append_of_lex (lex_escapedByte hs (h b List.mem_cons_self)),
      ih (by simpa using hs) fun b hb => h b (List.mem_cons_of_mem _ hb)]
    simp [Lexer.push]

/-- A character that `encode_str` writes with a backslash. -/
def isEscaped (c : Char) : Bool := c = '"' || !(c.toNat < 128)

/-- A character other than the backslash is read as it was. -/
theorem lex_encodeStr_char (hs : s.mode = .string) {c : Char} (hc : c ≠ '\\') :
    s.lex (encodeStr [c]) = some (s.push (isEscaped c) (encode [c])) := by
  by_cases hq : c = '"'
  · rw [hq, encodeStr_quote, Lexer.lex_cons, step_string_backslash hs, Option.bind_some,
      Lexer.lex_singleton, step_escape rfl, stepEscape_other (by decide)]
    simp [Lexer.push, hs, isEscaped]
  by_cases hlt : c.toNat < 128
  · have he : isEscaped c = false := by simp [isEscaped, hq, hlt]
    rw [encodeStr_ascii hq hlt, Lexer.lex_singleton, step_string hs hq hc, he]
  · have he : isEscaped c = true := by simp [isEscaped, hlt]
    rw [encodeStr_escaped hlt, he]
    refine lex_escapedBytes hs fun b hb => le_of_mem_utf8EncodeChar hlt ?_
    simpa [encode] using hb

end

/-- The string that a text is read as. -/
def stringToken (t : Text) : Token := ⟨true, t.flatMap fun c => (encode [c]).map (⟨·, isEscaped c⟩)⟩

theorem bytes_stringToken (t : Text) : (stringToken t).bytes = encode t := by
  unfold stringToken Token.bytes
  induction t with
  | nil => rfl
  | cons c t ih =>
    rw [List.flatMap_cons, List.map_append, ih, List.map_map]
    show List.map id _ ++ _ = encode ([c] ++ t)
    rw [List.map_id, encode_append]

/-- In a string, a text without backslashes is read as it was. -/
theorem lex_encodeStr {t : Text} (ht : '\\' ∉ t) {s : Lexer} (hs : s.mode = .string) :
    s.lex (encodeStr t) = some { s with syms := s.syms ++ (stringToken t).syms } := by
  induction t generalizing s with
  | nil => simp [encodeStr, stringToken]
  | cons c t ih =>
    have hc : c ≠ '\\' := fun h => ht (h ▸ List.mem_cons_self)
    rw [encodeStr_cons, Lexer.lex_append_of_lex (lex_encodeStr_char hs hc),
      ih (fun h => ht (List.mem_cons_of_mem _ h)) (by simpa using hs)]
    simp [Lexer.push, stringToken]

/-- **Without a backslash** what is written between quotes is read as one string with its bytes. -/
theorem reads_quoted {t : Text} (ht : '\\' ∉ t) : Reads (quoted t) (stringToken t) := by
  intro s hs
  show s.lex ('"' :: (encodeStr t ++ ['"'])) = _
  have hopen : s.step '"' = some { s with mode := .string } := hs.step _
  rw [Lexer.lex_cons, hopen, Option.bind_some, Lexer.lex_append_of_lex (lex_encodeStr ht rfl),
    Lexer.lex_singleton, step_string_quote rfl]
  simp [Lexer.endToken, Lexer.add, hs.2, stringToken]

/-! ### Weights -/

/-- What a byte weighs: a character of the source that is read weighs no more than its bytes. -/
def weight (b : UInt8) : ℕ := if b.toNat < 128 then 2 else if b.toNat < 192 then 0 else 7

def weigh (bs : Bytes) : ℕ := (bs.map weight).sum

theorem weight_le (b : UInt8) : weight b ≤ 7 := by
  unfold weight
  split_ifs <;> omega

theorem weigh_append (a b : Bytes) : weigh (a ++ b) = weigh a + weigh b := by
  simp [weigh]

theorem weigh_ascii {c : Char} (hc : c.toNat < 128) : weigh (encode [c]) = 2 := by
  have h : (UInt8.ofNat c.toNat).toNat = c.toNat := toNat_byteOf hc
  rw [encode_cons, utf8EncodeChar_ascii hc]
  simp [weigh, weight, h, hc]

theorem weigh_tail {bs : Bytes} (h : ∀ b ∈ bs, 128 ≤ b.toNat ∧ b.toNat < 192) : weigh bs = 0 := by
  induction bs with
  | nil => rfl
  | cons b bs ih =>
    have hb : weight b = 0 := by
      have := h b List.mem_cons_self
      unfold weight
      rw [if_neg (by omega), if_pos (by omega)]
    show weight b + weigh bs = 0
    rw [hb, ih fun b hb => h b (List.mem_cons_of_mem _ hb)]

/-- A longer character is a byte from 192 on and bytes from 128 to 191. -/
theorem encode_long {c : Char} (hc : ¬ c.toNat < 128) : ∃ b bs, encode [c] = b :: bs ∧
    192 ≤ b.toNat ∧ ∀ b ∈ bs, 128 ≤ b.toNat ∧ b.toNat < 192 := by
  have h1 : ¬ c.val.toNat ≤ 0x7f := by have : c.toNat = c.val.toNat := rfl; omega
  have hlow : ∀ n : ℕ, 128 ≤ (UInt8.ofNat (n % 64 + 128)).toNat ∧
      (UInt8.ofNat (n % 64 + 128)).toNat < 192 := by
    intro n
    rw [UInt8.toNat_ofNat']
    omega
  rw [encode_cons, encode_nil, List.append_nil]
  unfold String.utf8EncodeChar
  simp only [if_neg h1]
  by_cases h2 : c.val.toNat ≤ 0x7ff
  · rw [if_pos h2]
    refine ⟨_, _, rfl, by rw [UInt8.toNat_ofNat']; omega, ?_⟩
    simpa using hlow _
  rw [if_neg h2]
  by_cases h3 : c.val.toNat ≤ 0xffff
  · rw [if_pos h3]
    refine ⟨_, _, rfl, by rw [UInt8.toNat_ofNat']; omega, ?_⟩
    simpa using ⟨hlow _, hlow _⟩
  · rw [if_neg h3]
    refine ⟨_, _, rfl, by rw [UInt8.toNat_ofNat']; omega, ?_⟩
    simpa using ⟨hlow _, hlow _, hlow _⟩

/-- What a reader gains at most from a character as it is written. -/
def cost (c : Char) : ℕ := if c = '\\' then 1 else weigh (encode [c])

theorem cost_le (c : Char) : cost c ≤ weigh (encode [c]) := by
  unfold cost
  split_ifs with h
  · rw [h]; decide
  · exact le_rfl

theorem cost_ascii {c : Char} (hb : c ≠ '\\') (hc : c.toNat < 128) : cost c = 2 := by
  rw [cost, if_neg hb, weigh_ascii hc]

theorem cost_long {c : Char} {b : UInt8} {bs : Bytes} (he : encode [c] = b :: bs) (hb : 192 ≤ b.toNat)
    (hbs : ∀ b ∈ bs, 128 ≤ b.toNat ∧ b.toNat < 192) : cost c = 7 := by
  have hne : c ≠ '\\' := by
    rintro rfl
    have h : b = 92 := by
      have : encode ['\\'] = [92] := rfl
      rw [this] at he
      exact (List.cons.inj he).1.symm
    rw [h] at hb
    exact absurd hb (by decide)
  rw [cost, if_neg hne, he]
  show weight b + weigh bs = 7
  rw [weigh_tail hbs, weight, if_neg (by omega), if_neg (by omega)]

/-- A backslash costs less than it weighs. -/
theorem sum_cost_lt {t : Text} (h : '\\' ∈ t) : (t.map cost).sum < weigh (encode t) := by
  have hle : ∀ t : Text, (t.map cost).sum ≤ weigh (encode t) := by
    intro t
    induction t with
    | nil => exact le_rfl
    | cons c t ih =>
      have := cost_le c
      rw [show encode (c :: t) = encode [c] ++ encode t from encode_append [c] t, weigh_append,
        List.map_cons, List.sum_cons]
      omega
  obtain ⟨u, v, rfl⟩ := List.append_of_mem h
  have hu := hle u
  have hv := hle v
  have hb : cost '\\' = 1 := rfl
  have hw : weigh (encode ['\\']) = 2 := by decide
  rw [encode_append, show encode ('\\' :: v) = encode ['\\'] ++ encode v from encode_append ['\\'] v,
    weigh_append, weigh_append, List.map_append, List.map_cons, List.sum_append, List.sum_cons]
  omega

/-! ### The first token weighs no more than was written -/

/-- The first token weighs at most `n`, or will if it ends here: a backslash weighs one, and two more
with each digit. -/
inductive AtMost (n : ℕ) (s : Lexer) : Prop
  | string (hs : s.mode = .string) (h0 : s.all = []) (h : weigh (s.syms.map Sym.byte) ≤ n)
  | escape (ds : List ℕ) (hs : s.mode = .escape true ds) (h0 : s.all = []) (hds : ds.length < 3)
    (h : weigh (s.syms.map Sym.byte) + (1 + 2 * ds.length) ≤ n)
  | ended (k : Token) (hk : s.all.head? = some k) (h : weigh k.bytes ≤ n)

theorem head?_of_start {α : Type*} {l m : List α} (h : l <+: m) {a : α} (ha : l.head? = some a) :
    m.head? = some a := by
  obtain ⟨r, rfl⟩ := h
  simp [List.head?_append, ha]

theorem weigh_push (s : Lexer) (e : Bool) (b : Bytes) :
    weigh ((s.push e b).syms.map Sym.byte) = weigh (s.syms.map Sym.byte) + weigh b := by
  simp [Lexer.push, weigh_append, Function.comp_def]

section
variable {s s' : Lexer} {n : ℕ}

/-- The end of a string makes the first token of what was read in it. -/
theorem AtMost.endToken (h0 : s.all = []) (h : weigh (s.syms.map Sym.byte) ≤ n) :
    AtMost n (s.endToken true) := by
  refine .ended ⟨true, s.syms⟩ ?_ h
  have : (s.endToken true).all = s.all ++ [⟨true, s.syms⟩] := by simp [Lexer.all, Lexer.endToken]
  rw [this, h0]
  rfl

/-- In a string. -/
theorem AtMost.lex_string {c : Char} (hs : s.mode = .string) (h0 : s.all = [])
    (h : weigh (s.syms.map Sym.byte) ≤ n) (hl : s.lex (encodeStr [c]) = some s') :
    AtMost (n + cost c) s' := by
  by_cases hb : c = '\\'
  · rw [hb, encodeStr_ascii (by decide) (by decide), Lexer.lex_singleton, step_string_backslash hs] at hl
    obtain rfl := Option.some.inj hl
    rw [hb]
    exact .escape [] rfl h0 (by decide) (Nat.add_le_add_right h 1)
  · rw [lex_encodeStr_char hs hb] at hl
    obtain rfl := Option.some.inj hl
    refine .string hs h0 ?_
    rw [weigh_push, cost, if_neg hb]
    omega

/-- After a backslash and digits, the next character goes on with them or stands for itself. -/
theorem AtMost.step_escaped {ds : List ℕ} {c : Char} (hs : s.mode = .escape true ds) (h0 : s.all = [])
    (hds : ds.length < 3) (h : weigh (s.syms.map Sym.byte) + (1 + 2 * ds.length) ≤ n)
    (hc : c.toNat < 128) (hl : s.step c = some s') :
    (c.isDigit = true ∧ AtMost (n + 2) s') ∨
      (c.isDigit = false ∧ ds = [] ∧ s'.mode = .string ∧ s'.all = [] ∧
        weigh (s'.syms.map Sym.byte) ≤ n + 1) := by
  rw [step_escape hs] at hl
  by_cases hd : c.isDigit = true
  · refine Or.inl ⟨hd, ?_⟩
    by_cases hlen : ds.length < 2
    · rw [stepEscape_digit hd hlen] at hl
      obtain rfl := Option.some.inj hl
      refine .escape _ rfl h0 (by simp; omega) ?_
      simp only [List.length_append, List.length_singleton]
      omega
    · obtain ⟨d₁, d₂, rfl⟩ := List.length_eq_two.mp (show ds.length = 2 by omega)
      rw [stepEscape_last hd] at hl
      split_ifs at hl with hlt
      obtain rfl := Option.some.inj hl
      refine .string rfl h0 ?_
      have hw := weight_le (UInt8.ofNat (10 * (10 * d₁ + d₂) + (c.toNat - 48)))
      show weigh ((s.push true [_]).syms.map Sym.byte) ≤ n + 2
      rw [weigh_push]
      simp only [weigh, List.map_cons, List.map_nil, List.sum_cons, List.sum_nil] at *
      simp only [List.length_cons, List.length_nil] at h
      omega
  · have hd' : c.isDigit = false := by simpa using hd
    refine Or.inr ⟨hd', ?_⟩
    by_cases hnil : ds = []
    · subst hnil
      rw [stepEscape_other hd'] at hl
      obtain rfl := Option.some.inj hl
      refine ⟨rfl, rfl, h0, ?_⟩
      show weigh ((s.push true (encode [c])).syms.map Sym.byte) ≤ n + 1
      rw [weigh_push, weigh_ascii hc]
      simp only [List.length_nil] at h
      omega
    · unfold Lexer.stepEscape at hl
      rw [if_neg hd, if_neg hnil] at hl
      cases hl

theorem isDigit_lt {c : Char} (h : c.isDigit = true) : c.toNat < 128 := by
  have h' : c.val ≥ 48 ∧ c.val ≤ 57 := by simpa [Char.isDigit] using h
  have : c.val.toNat ≤ 57 := UInt32.le_iff_toNat_le.mp h'.2
  show c.val.toNat < 128
  omega

/-- In a string, the digits of a byte are read as three characters. -/
theorem lex_digits (hs : s.mode = .string) {u : Text} (hu : ∀ c ∈ u, c.isDigit = true) :
    s.lex u = some (s.push false (encode u)) ∧ weigh (encode u) = 2 * u.length := by
  induction u generalizing s with
  | nil => exact ⟨by simp [Lexer.push], rfl⟩
  | cons c u ih =>
    have hc := hu c List.mem_cons_self
    have hsp := Lexer.not_special (isSpecial_digit hc)
    obtain ⟨ih1, ih2⟩ := ih (s := s.push false (encode [c])) (by simpa using hs)
      fun d hd => hu d (List.mem_cons_of_mem _ hd)
    have he : encode (c :: u) = encode [c] ++ encode u := encode_append [c] u
    constructor
    · rw [Lexer.lex_cons, step_string hs hsp.2.2.2.2.2.1 hsp.2.2.2.2.2.2, Option.bind_some, ih1, he]
      simp [Lexer.push]
    · rw [he, weigh_append, weigh_ascii (isDigit_lt hc), ih2, List.length_cons]
      omega

/-- After a backslash that takes the one of a longer character, its first byte is read as three
digits. -/
theorem AtMost.lex_long {c : Char} (hc : ¬ c.toNat < 128) {ds : List ℕ} (hs : s.mode = .escape true ds)
    (h0 : s.all = []) (hds : ds.length < 3) (h : weigh (s.syms.map Sym.byte) + (1 + 2 * ds.length) ≤ n)
    (hl : s.lex (encodeStr [c]) = some s') : AtMost (n + cost c) s' := by
  obtain ⟨b, bs, he, hb, hbs⟩ := encode_long hc
  obtain ⟨d₁, h₁, d₂, h₂, d₃, h₃, htext, -⟩ := showNat_byte (b := b) (by omega)
  rw [encodeStr_escaped hc, he] at hl
  obtain ⟨s₁, hs₁, hl⟩ := Option.bind_eq_some_iff.mp
    (show (s.step '\\').bind (Lexer.lex · (showNat b.toNat ++ escapedBytes bs)) = some s' from hl)
  rcases AtMost.step_escaped hs h0 hds h (by decide) hs₁ with ⟨hd, -⟩ | ⟨-, -, hm, ha, hw⟩
  · exact absurd hd (by decide)
  have hu : ∀ c ∈ showNat b.toNat, c.isDigit = true := fun c hc => isDigit_showNat hc
  obtain ⟨hdig, hwdig⟩ := lex_digits hm hu
  rw [Lexer.lex_append_of_lex hdig, lex_escapedBytes (by simpa using hm) fun b hb => (hbs b hb).1] at hl
  obtain rfl := Option.some.inj hl
  refine .string hm ha ?_
  have hlen : (showNat b.toNat).length = 3 := by rw [htext]; rfl
  rw [weigh_push, weigh_push, weigh_tail hbs, hwdig, hlen, cost_long he hb hbs]
  omega

/-- **A character costs what it weighs at most**, and a backslash less. -/
theorem AtMost.lex_char {c : Char} (h : AtMost n s) (hl : s.lex (encodeStr [c]) = some s') :
    AtMost (n + cost c) s' := by
  rcases h with ⟨hs, h0, h⟩ | ⟨ds, hs, h0, hds, h⟩ | ⟨k, hk, h⟩
  · exact AtMost.lex_string hs h0 h hl
  · by_cases hc : c.toNat < 128
    swap
    · exact AtMost.lex_long hc hs h0 hds h hl
    have hpos : 1 ≤ cost c := by
      unfold cost
      split_ifs
      · exact le_rfl
      · rw [weigh_ascii hc]; omega
    by_cases hq : c = '"'
    · -- the backslash before the quote is taken, and the quote ends the string
      subst hq
      obtain ⟨s₁, hs₁, hl⟩ := Option.bind_eq_some_iff.mp
        (show (s.step '\\').bind (Lexer.lex · ['"']) = some s' from hl)
      rcases AtMost.step_escaped hs h0 hds h (by decide) hs₁ with ⟨hd, -⟩ | ⟨-, -, hm, ha, hw⟩
      · exact absurd hd (by decide)
      rw [Lexer.lex_singleton, step_string_quote hm] at hl
      obtain rfl := Option.some.inj hl
      exact AtMost.endToken ha (by omega)
    · rw [encodeStr_ascii hq hc, Lexer.lex_singleton] at hl
      rcases AtMost.step_escaped hs h0 hds h hc hl with ⟨hd, h⟩ | ⟨-, -, hm, ha, hw⟩
      · have hne : c ≠ '\\' := by rintro rfl; exact absurd hd (by decide)
        rwa [cost_ascii hne hc]
      · exact .string hm ha (by omega)
  · exact .ended k (head?_of_start (Lexer.all_lex hl) hk) (by omega)

theorem AtMost.lex_text {t : Text} (h : AtMost n s) (hl : s.lex (encodeStr t) = some s') :
    AtMost (n + (t.map cost).sum) s' := by
  induction t generalizing s n with
  | nil => obtain rfl := Option.some.inj hl; exact h
  | cons c t ih =>
    rw [encodeStr_cons, Lexer.lex_append] at hl
    obtain ⟨s₁, hs₁, hl⟩ := Option.bind_eq_some_iff.mp hl
    rw [List.map_cons, List.sum_cons, ← Nat.add_assoc]
    exact ih (h.lex_char hs₁) hl

/-- After the closing quote and the end of the line, the first token has at most that weight. -/
theorem AtMost.closed (h : AtMost n s) (hl : s.lex ['"', '\n'] = some s') (hend : s'.mode = .start) :
    ∃ k, s'.all.head? = some k ∧ weigh k.bytes ≤ n := by
  obtain ⟨s₁, hs₁, hl'⟩ := Option.bind_eq_some_iff.mp hl
  rcases h with ⟨hs, h0, h⟩ | ⟨ds, hs, h0, hds, h⟩ | ⟨k, hk, h⟩
  · rw [step_string_quote hs] at hs₁
    obtain rfl := Option.some.inj hs₁
    rcases AtMost.endToken h0 h with ⟨hm, -⟩ | ⟨ds, hm, -⟩ | ⟨k, hk, hw⟩
    · exact Mode.noConfusion hm
    · exact Mode.noConfusion hm
    · exact ⟨k, head?_of_start (Lexer.all_lex hl') hk, hw⟩
  · -- the quote is escaped, so that the string goes on
    rcases AtMost.step_escaped hs h0 hds h (by decide) hs₁ with ⟨hd, -⟩ | ⟨-, -, hm, -⟩
    · exact absurd hd (by decide)
    rw [Lexer.lex_singleton, step_string hm (by decide) (by decide)] at hl'
    obtain rfl := Option.some.inj hl'
    rw [Lexer.push_mode, hm] at hend
    exact Mode.noConfusion hend
  · exact ⟨k, head?_of_start (Lexer.all_lex hl) hk, h⟩

end

/-! ### The condition -/

/-- What is written for a text is one string with its bytes: read alone, with nothing left over, and
at every place in a file where a token can start. So the line of a record is one entry whatever the
text is, and the lines after it are read as without it. -/
structure ReadBack (t : Text) : Prop where
  alone : ∃ k, tokens (quoted t) = some [k] ∧ k.quoted = true ∧ k.bytes = encode t
  within : ∃ k, k.quoted = true ∧ k.bytes = encode t ∧
    ∀ s : Lexer, s.Between → s.lex (quoted t) = some (s.add k)
  lines : ∃ k, k.quoted = true ∧ k.bytes = encode t ∧
    ∀ owner o, Spells owner o → ∀ (ttl : ℕ) rtype, rtypeText rtype ≠ [] →
      ∀ before bs after as, List.Forall₂ (fun (f : Field) b => Spells f.text b) before bs →
        List.Forall₂ (fun (f : Field) a => Spells f.text a) after as →
          ∀ es rest, (Lexer.fresh es).lex
              (publishedLine owner ttl (rtype, before ++ .str t :: after) ++ rest) =
            (Lexer.fresh (es ++ [recordEntry o ttl (rtypeText rtype) (bs ++ k :: as)])).lex rest

theorem tokens_of_reads {t : Text} {k : Token} (h : Reads t k) : tokens t = some [k] := by
  have hlex : (Lexer.fresh []).lex (t ++ ['\n']) = some (.fresh [⟨false, [k]⟩]) := by
    have := Lexer.lex_line (.cons h.spells .nil) (List.cons_ne_nil t []) []
    rwa [List.intercalate_singleton] at this
  unfold tokens entries
  rw [hlex]
  rfl

theorem weigh_le_of_tokens {t : Text} {k : Token} (h : tokens (quoted t) = some [k]) :
    weigh k.bytes ≤ (t.map cost).sum := by
  unfold tokens entries at h
  rw [Option.bind_eq_some_iff] at h
  obtain ⟨es, hes, hk⟩ := h
  obtain ⟨s, hs, hend⟩ := Option.bind_eq_some_iff.mp hes
  split_ifs at hend with hmode
  obtain rfl := Option.some.inj hend
  have hquote : (Lexer.fresh []).step '"' = some { Lexer.fresh [] with mode := .string } := rfl
  have htext : quoted t ++ ['\n'] = '"' :: (encodeStr t ++ ['"', '\n']) := by simp [quoted]
  rw [htext, Lexer.lex_cons, hquote, Option.bind_some, Lexer.lex_append] at hs
  obtain ⟨s₁, hs₁, hs⟩ := Option.bind_eq_some_iff.mp hs
  have h0 : AtMost 0 { Lexer.fresh [] with mode := .string } := .string rfl rfl le_rfl
  obtain ⟨k', hk', hw⟩ := (h0.lex_text hs₁).closed hs hmode.1
  rw [Nat.zero_add] at hw
  suffices k = k' by rwa [this]
  rcases hs2 : s.entries with _ | ⟨e, _ | ⟨e', es⟩⟩
  · rw [hs2] at hk
    cases hk
  · rw [hs2] at hk
    have he : e.tokens = [k] := Option.some.inj hk
    rw [Lexer.all, hs2, List.flatMap_cons, he] at hk'
    simpa using hk'
  · rw [hs2] at hk
    cases hk

/-- **A quoted string is faithful and confined** if and only if the text has no backslash. -/
theorem readBack_iff (t : Text) : ReadBack t ↔ '\\' ∉ t := by
  constructor
  · rintro ⟨⟨k, hk, -, hbytes⟩, -, -⟩ hmem
    have hle := weigh_le_of_tokens hk
    have hlt := sum_cost_lt hmem
    rw [hbytes] at hle
    omega
  · intro ht
    have hreads := reads_quoted ht
    refine ⟨⟨_, tokens_of_reads hreads, rfl, bytes_stringToken t⟩,
      ⟨_, rfl, bytes_stringToken t, hreads⟩, ⟨_, rfl, bytes_stringToken t, ?_⟩⟩
    intro owner o ho ttl rtype hrtype before bs after as hb ha es rest
    refine Lexer.lex_append_of_lex (adds_publishedLine ho ttl hrtype ?_ es) rest
    exact List.rel_append hb (.cons hreads.spells ha)

/-- The text of a backslash is not read as one string: the closing quote is part of it. -/
theorem not_readBack_backslash : ¬ ReadBack ['\\'] := by
  rintro ⟨⟨k, hk, -⟩, -, -⟩
  have : tokens (quoted ['\\']) = none := by decide
  rw [this] at hk
  cases hk

end HexDns.Tasks.Quoting
