import HexDns.Lib.MasterFile
import Mathlib.Data.List.Forall2

/-! # Lines of a master file

A text spells a token if it is read as the token wherever one can start. Texts that spell tokens,
joined by blanks and ended by a newline, are an entry (`lex_words`), and leave the reader at the start
of a line as it was before. -/

namespace HexDns.Lib.MasterFile

open HexDns.Lib.Texts

namespace Lexer

/-- A token can start here. -/
def Between (s : Lexer) : Prop := (s.mode = .start ∨ s.mode = .gap) ∧ s.syms = []

/-- After one more token. -/
def add (s : Lexer) (k : Token) : Lexer :=
  { s with mode := .gap, syms := [], entry := { s.entry with tokens := s.entry.tokens ++ [k] } }

/-- After more tokens. -/
def addAll (s : Lexer) (ks : List Token) : Lexer := ks.foldl add s

theorem between_fresh (es : List Entry) : (fresh es).Between := ⟨Or.inl rfl, rfl⟩

theorem between_add (s : Lexer) (k : Token) : (s.add k).Between := ⟨Or.inr rfl, rfl⟩

theorem Between.step {s : Lexer} (hs : s.Between) (c : Char) : s.step c = s.stepGap c := by
  unfold Lexer.step
  rcases hs.1 with h | h <;> rw [h]

@[simp] theorem lex_nil (s : Lexer) : s.lex [] = some s := rfl

theorem lex_cons (s : Lexer) (c : Char) (t : Text) : s.lex (c :: t) = (s.step c).bind (lex · t) := rfl

theorem lex_singleton (s : Lexer) (c : Char) : s.lex [c] = s.step c := by
  show (s.step c).bind (lex · []) = s.step c
  rcases s.step c with _ | s' <;> rfl

@[simp] theorem push_mode (s : Lexer) (e : Bool) (b : Bytes) : (s.push e b).mode = s.mode := rfl

theorem addAll_cons (s : Lexer) (k : Token) (ks : List Token) :
    s.addAll (k :: ks) = (s.add k).addAll ks := rfl

@[simp] theorem add_depth (s : Lexer) (k : Token) : (s.add k).depth = s.depth := rfl

@[simp] theorem add_entries (s : Lexer) (k : Token) : (s.add k).entries = s.entries := rfl

theorem addAll_eq (s : Lexer) (k : Token) (ks : List Token) : s.addAll (k :: ks) =
    { s with
      mode := .gap
      syms := []
      entry := { s.entry with tokens := s.entry.tokens ++ k :: ks } } := by
  induction ks generalizing s k with
  | nil => rfl
  | cons k' ks ih =>
    rw [addAll_cons, ih (s.add k) k']
    show ({ s.add k with mode := _, syms := _, entry := _ } : Lexer) = _
    simp [add]

end Lexer

/-- Wherever a token can start, the text is read as this one. -/
def Reads (t : Text) (k : Token) : Prop := ∀ s : Lexer, s.Between → s.lex t = some (s.add k)

/-- Wherever a token can start, the text is read as this one if a blank or a newline follows. -/
def Spells (t : Text) (k : Token) : Prop :=
  ∀ s : Lexer, s.Between → ∀ c, Lexer.isBlank c = true ∨ c = '\n' →
    s.lex (t ++ [c]) = (s.add k).stepGap c

theorem Reads.spells {t : Text} {k : Token} (h : Reads t k) : Spells t k := by
  intro s hs c _
  rw [Lexer.lex_append_of_lex (h s hs), Lexer.lex_singleton, (Lexer.between_add s k).step]

/-! ### Words -/

/-- The token of a word in which nothing is escaped. -/
def plainToken (t : Text) : Token := ⟨false, (encode t).map (⟨·, false⟩)⟩

@[simp] theorem bytes_plainToken (t : Text) : (plainToken t).bytes = encode t := by
  simp [plainToken, Token.bytes, Function.comp_def]

/-- A word in which nothing ends it or has to be escaped. -/
def IsPlain (t : Text) : Prop := t ≠ [] ∧ ∀ c ∈ t, Lexer.isSpecial c = false

instance (t : Text) : Decidable (IsPlain t) := inferInstanceAs (Decidable (_ ∧ _))

namespace Lexer

variable {s : Lexer} {c : Char}

theorem not_special (h : isSpecial c = false) :
    isBlank c = false ∧ c ≠ '\n' ∧ c ≠ ';' ∧ c ≠ '(' ∧ c ≠ ')' ∧ c ≠ '"' ∧ c ≠ '\\' := by
  unfold isSpecial at h
  simpa [and_assoc] using h

theorem stepGap_plain (h : isSpecial c = false) :
    s.stepGap c = some { (s.push false (encode [c])) with mode := .word } := by
  obtain ⟨h1, h2, h3, h4, h5, h6, h7⟩ := not_special h
  unfold stepGap
  rw [if_neg h2, if_neg (by simp [h1]), if_neg h3, if_neg h4, if_neg h5, if_neg h6, if_neg h7]

theorem step_word_plain (hs : s.mode = .word) (h : isSpecial c = false) :
    s.step c = some (s.push false (encode [c])) := by
  unfold step
  rw [hs]
  simp only [h, (not_special h).2.2.2.2.2.2, if_false, Bool.false_eq_true]

/-- In a word, plain characters are added to it. -/
theorem lex_plain (hs : s.mode = .word) {t : Text} (h : ∀ c ∈ t, isSpecial c = false) :
    s.lex t = some (s.push false (encode t)) := by
  induction t generalizing s with
  | nil => simp [push]
  | cons c t ih =>
    rw [lex_cons, step_word_plain hs (h c List.mem_cons_self), Option.bind_some,
      ih (by simpa using hs) fun c hc => h c (List.mem_cons_of_mem _ hc)]
    show some (push (push s _ _) _ _) = _
    rw [show encode (c :: t) = encode [c] ++ encode t from encode_append [c] t]
    simp [push]

theorem step_word_end (hs : s.mode = .word) (h : isBlank c = true ∨ c = '\n') :
    s.step c = (s.endToken false).stepGap c := by
  have hsp : isSpecial c = true := by
    rcases h with h | rfl
    · simp [isSpecial, h]
    · rfl
  have hne : c ≠ '\\' := by
    rintro rfl
    rcases h with h | h <;> simp [isBlank] at h
  unfold step
  rw [hs]
  simp only [hsp, hne, if_false, if_true]

end Lexer

theorem spells_plain {t : Text} (ht : IsPlain t) : Spells t (plainToken t) := by
  obtain ⟨hne, hplain⟩ := ht
  rcases t with _ | ⟨c, t⟩
  · exact absurd rfl hne
  intro s hs d hd
  have hc := hplain c List.mem_cons_self
  let w : Lexer := { (s.push false (encode [c])) with mode := .word }
  have hw : w.lex t = some (w.push false (encode t)) :=
    Lexer.lex_plain rfl fun c hc => hplain c (List.mem_cons_of_mem _ hc)
  rw [List.cons_append, Lexer.lex_cons, hs.step, Lexer.stepGap_plain hc, Option.bind_some,
    Lexer.lex_append_of_lex hw, Lexer.lex_singleton, Lexer.step_word_end (by rfl) hd]
  congr 1
  rw [plainToken, show encode (c :: t) = encode [c] ++ encode t from encode_append [c] t]
  simp [w, Lexer.endToken, Lexer.push, Lexer.add, hs.2]

theorem spells_plains {ts : List Text} (h : ∀ t ∈ ts, IsPlain t) : List.Forall₂ Spells ts (ts.map plainToken) :=
  List.forall₂_map_right_iff.mpr (List.forall₂_same.mpr fun t ht => spells_plain (h t ht))

/-! ### Words with escapes -/

/-- A symbol of a word as a text: `\ddd` if it is escaped. -/
def Sym.text (x : Sym) : Text :=
  if x.escaped then
    '\\' :: [x.byte.toNat / 100, x.byte.toNat / 10 % 10, x.byte.toNat % 10].map Nat.digitChar
  else [Char.ofNat x.byte.toNat]

/-- It can stand in a word. -/
def Sym.IsPlain (x : Sym) : Prop :=
  x.escaped = false → x.byte.toNat < 128 ∧ Lexer.isSpecial (Char.ofNat x.byte.toNat) = false

theorem isDigit_digitChar : ∀ d < 10, (Nat.digitChar d).isDigit = true ∧
    (Nat.digitChar d).toNat - 48 = d := by decide

namespace Lexer

/-- A word can start or go on here. -/
def Open (s : Lexer) : Prop := s.Between ∨ s.mode = .word

theorem Open.step_plain {s : Lexer} (hs : s.Open) {c : Char} (h : isSpecial c = false) :
    s.step c = some { (s.push false (encode [c])) with mode := .word } := by
  rcases hs with hs | hs
  · rw [hs.step, stepGap_plain h]
  · rw [step_word_plain hs h]
    simp [push, hs]

theorem Open.step_backslash {s : Lexer} (hs : s.Open) :
    s.step '\\' = some { s with mode := .escape false [] } := by
  rcases hs with hs | hs
  · rw [hs.step]
    rfl
  · unfold step
    rw [hs]
    rfl

/-- A symbol of a word is read as it was. -/
theorem lex_sym {s : Lexer} (hs : s.Open) {x : Sym} (hx : x.IsPlain) :
    s.lex x.text = some { (s.push x.escaped [x.byte]) with mode := .word } := by
  obtain ⟨b, e⟩ := x
  rcases e with _ | _
  · obtain ⟨hlt, hsp⟩ := hx rfl
    have henc : encode [Char.ofNat b.toNat] = [b] := by
      rw [encode_cons, utf8EncodeChar_ascii (by rwa [toNat_ofNat_lt hlt]), toNat_ofNat_lt hlt]
      simp
    show s.lex [Char.ofNat b.toNat] = _
    rw [lex_singleton, hs.step_plain hsp, henc]
  · have hlt : b.toNat < 256 := b.toNat_lt
    obtain ⟨hd1, hv1⟩ := isDigit_digitChar (b.toNat / 100) (by omega)
    obtain ⟨hd2, hv2⟩ := isDigit_digitChar (b.toNat / 10 % 10) (by omega)
    obtain ⟨hd3, hv3⟩ := isDigit_digitChar (b.toNat % 10) (by omega)
    have hval : 10 * (10 * (b.toNat / 100) + b.toNat / 10 % 10) + b.toNat % 10 = b.toNat := by omega
    show s.lex ['\\', _, _, _] = _
    rw [lex_cons, hs.step_backslash, Option.bind_some, lex_cons]
    show (stepEscape _ false [] _).bind _ = _
    rw [stepEscape, if_pos hd1, hv1]
    show lex _ [_, _] = _
    rw [lex_cons]
    show (stepEscape _ false [_] _).bind _ = _
    rw [stepEscape, if_pos hd2, hv2]
    show lex _ [_] = _
    rw [lex_singleton]
    show stepEscape _ false [_, _] _ = _
    rw [stepEscape, if_pos hd3, hv3]
    show (if _ < 256 then _ else _) = _
    simp [hval, hlt, push, inside]

end Lexer

/-- The text of symbols. -/
def symsText (syms : List Sym) : Text := syms.flatMap Sym.text

theorem Lexer.lex_syms {s : Lexer} (hs : s.mode = .word) {syms : List Sym}
    (h : ∀ x ∈ syms, x.IsPlain) : s.lex (symsText syms) = some { s with syms := s.syms ++ syms } := by
  induction syms generalizing s with
  | nil => simp [symsText]
  | cons x syms ih =>
    show s.lex (x.text ++ symsText syms) = _
    rw [lex_append_of_lex (lex_sym (Or.inr hs) (h x List.mem_cons_self)),
      ih rfl fun y hy => h y (List.mem_cons_of_mem _ hy)]
    simp [push, hs]

/-- **Symbols written one by one** are read as the word of them. -/
theorem spells_syms {syms : List Sym} (hne : syms ≠ []) (h : ∀ x ∈ syms, x.IsPlain) :
    Spells (symsText syms) ⟨false, syms⟩ := by
  obtain ⟨x, syms, rfl⟩ := List.exists_cons_of_ne_nil hne
  intro s hs c hc
  have hx := Lexer.lex_sym (Or.inl hs) (h x List.mem_cons_self)
  show s.lex (x.text ++ symsText syms ++ [c]) = _
  rw [List.append_assoc, Lexer.lex_append_of_lex hx,
    Lexer.lex_append_of_lex (Lexer.lex_syms rfl fun y hy => h y (List.mem_cons_of_mem _ hy)),
    Lexer.lex_singleton, Lexer.step_word_end rfl hc]
  congr 1
  simp [Lexer.endToken, Lexer.push, Lexer.add, hs.2]

/-! ### Lines -/

theorem Lexer.stepGap_space {s : Lexer} (h : s.mode = .gap) (hs : s.syms = []) :
    s.stepGap ' ' = some s := by
  obtain ⟨mode, depth, syms, entry, es⟩ := s
  obtain rfl : mode = .gap := h
  rfl

theorem Lexer.stepGap_newline (s : Lexer) : s.stepGap '\n' = some s.endLine := rfl

/-- **Words joined by blanks** are read one by one, and what ends the last goes on from there. -/
theorem Lexer.lex_words {ts : List Text} {ks : List Token} (h : List.Forall₂ Spells ts ks)
    (hne : ts ≠ []) {s : Lexer} (hs : s.Between) {c : Char} (hc : isBlank c = true ∨ c = '\n') :
    s.lex ([' '].intercalate ts ++ [c]) = (s.addAll ks).stepGap c := by
  induction h generalizing s with
  | nil => exact absurd rfl hne
  | cons hk htail ih =>
    rename_i t k ts ks
    rw [addAll_cons]
    by_cases hts : ts = []
    · subst hts
      cases htail
      rw [List.intercalate_singleton, hk s hs c hc]
      rfl
    · have hgap : (s.add k).stepGap ' ' = some (s.add k) := stepGap_space rfl rfl
      have hword : s.lex (t ++ [' ']) = some (s.add k) := by
        rw [hk s hs ' ' (Or.inl rfl), hgap]
      rw [List.intercalate_cons_of_ne_nil hts, List.append_assoc, Lexer.lex_append_of_lex hword]
      exact ih hts (between_add s k)

/-- Where a line has tokens already, the text adds these to it, ends it, and goes on with these
entries up to the start of a line. -/
def Ends (t : Text) (ks : List Token) (es : List Entry) : Prop :=
  ∀ s : Lexer, s.mode = .gap → s.syms = [] → s.depth = 0 → s.entry.tokens ≠ [] →
    s.lex (t ++ ['\n']) =
      some (.fresh (s.entries ++ { s.entry with tokens := s.entry.tokens ++ ks } :: es))

/-- There is one way to read a text. -/
theorem Ends.inj {t : Text} {ks ks' : List Token} {es es' : List Entry} (h : Ends t ks es)
    (h' : Ends t ks' es') : ks = ks' ∧ es = es' := by
  let s : Lexer := ⟨.gap, 0, [], ⟨false, [⟨false, []⟩]⟩, []⟩
  have heq := (h s rfl rfl rfl (by simp [s])).symm.trans (h' s rfl rfl rfl (by simp [s]))
  simpa [s, Lexer.fresh] using heq

theorem ends_nil : Ends [] [] [] := by
  intro s _ _ hd ht
  show (s.step '\n').bind _ = _
  rw [Lexer.Between.step ⟨Or.inr ‹_›, ‹_›⟩, Lexer.stepGap_newline]
  show some s.endLine = _
  unfold Lexer.endLine
  rw [if_pos hd, if_neg ht, List.append_nil]

theorem ends_words {ts : List Text} {ks : List Token} (h : List.Forall₂ Spells ts ks) :
    Ends ([' '].intercalate ts) ks [] := by
  rcases h with _ | ⟨hk, htail⟩
  · exact ends_nil
  intro s hm hs hd ht
  rw [Lexer.lex_words (.cons hk htail) (by simp) ⟨Or.inr hm, hs⟩ (Or.inr rfl), Lexer.stepGap_newline,
    Lexer.addAll_eq]
  show some (Lexer.endLine _) = _
  unfold Lexer.endLine
  rw [if_pos hd, if_neg (by simp)]

/-- Words before the text that ends a line are tokens before its own. -/
theorem Ends.after {ts : List Text} {ks : List Token} (h : List.Forall₂ Spells ts ks) (hne : ts ≠ [])
    {t : Text} {ks' : List Token} {es : List Entry} (ht : Ends t ks' es) :
    Ends ([' '].intercalate ts ++ [' '] ++ t) (ks ++ ks') es := by
  intro s hm hs hd hs'
  have hks : ks ≠ [] := by
    rintro rfl
    cases h
    exact hne rfl
  obtain ⟨k, ks, rfl⟩ := List.exists_cons_of_ne_nil hks
  have hwords : s.lex ([' '].intercalate ts ++ [' ']) = some (s.addAll (k :: ks)) := by
    rw [Lexer.lex_words h hne ⟨Or.inr hm, hs⟩ (Or.inl rfl), Lexer.addAll_eq,
      Lexer.stepGap_space rfl rfl]
  have hrest := ht (s.addAll (k :: ks)) (by rw [Lexer.addAll_eq]) (by rw [Lexer.addAll_eq])
    (by rw [Lexer.addAll_eq]; exact hd) (by rw [Lexer.addAll_eq]; simp)
  rw [List.append_assoc _ t, Lexer.lex_append_of_lex hwords, hrest, Lexer.addAll_eq]
  simp

/-- **A line of words and the text that ends it.** -/
theorem Lexer.lex_line_ends {ts : List Text} {ks : List Token} (h : List.Forall₂ Spells ts ks)
    (hne : ts ≠ []) {t : Text} {ks' : List Token} {es' : List Entry} (ht : Ends t ks' es')
    (es : List Entry) : (fresh es).lex ([' '].intercalate ts ++ [' '] ++ t ++ ['\n']) =
      some (fresh (es ++ ⟨false, ks ++ ks'⟩ :: es')) := by
  have hks : ks ≠ [] := by
    rintro rfl
    cases h
    exact hne rfl
  obtain ⟨k, ks, rfl⟩ := List.exists_cons_of_ne_nil hks
  have hwords : (fresh es).lex ([' '].intercalate ts ++ [' ']) = some ((fresh es).addAll (k :: ks)) := by
    rw [lex_words h hne (between_fresh es) (Or.inl rfl), addAll_eq, stepGap_space rfl rfl]
  rw [List.append_assoc _ t, Lexer.lex_append_of_lex hwords, addAll_eq,
    ht _ rfl rfl rfl (by simp)]
  rfl

/-- **A line of words is an entry**, and after it the reader is at the start of a line. -/
theorem Lexer.lex_line {ts : List Text} {ks : List Token} (h : List.Forall₂ Spells ts ks)
    (hne : ts ≠ []) (es : List Entry) :
    (fresh es).lex ([' '].intercalate ts ++ ['\n']) = some (fresh (es ++ [⟨false, ks⟩])) := by
  rw [lex_words h hne (between_fresh es) (Or.inr rfl), stepGap_newline]
  have hks : ks ≠ [] := by
    rintro rfl
    cases h
    exact hne rfl
  obtain ⟨k, ks, rfl⟩ := List.exists_cons_of_ne_nil hks
  rw [addAll_eq]
  simp [fresh, endLine]

/-- A comment up to the newline is passed over. -/
theorem Lexer.lex_comment {t : Text} (h : '\n' ∉ t) (es : List Entry) :
    (fresh es).lex (';' :: t ++ ['\n']) = some (fresh es) := by
  have hrest : ∀ t : Text, '\n' ∉ t → ∀ s : Lexer, s.mode = .comment →
      s.lex (t ++ ['\n']) = some s.endLine := by
    intro t ht s hs
    induction t with
    | nil =>
      rw [List.nil_append, lex_singleton]
      unfold step
      rw [hs]
      rfl
    | cons c t ih =>
      have hc : c ≠ '\n' := fun hc => ht (hc ▸ List.mem_cons_self)
      have hstep : s.step c = some s := by
        unfold step
        rw [hs]
        simp only [hc, if_false]
      rw [List.cons_append, lex_cons, hstep, Option.bind_some]
      exact ih fun h => ht (List.mem_cons_of_mem _ h)
  rw [List.cons_append, lex_cons]
  show ((fresh es).stepGap ';').bind _ = _
  show lex { fresh es with mode := .comment } (t ++ ['\n']) = _
  rw [hrest t h _ rfl]
  rfl

/-! ### The tokens read so far -/

namespace Lexer

/-- The tokens of the entries and of the line that is being read. -/
def all (s : Lexer) : List Token := s.entries.flatMap Entry.tokens ++ s.entry.tokens

@[simp] theorem all_endLine (s : Lexer) : s.endLine.all = s.all := by
  unfold endLine
  split_ifs with hd ht
  · simp [fresh, all, ht]
  · simp [fresh, all]
  · rfl

theorem all_endToken (s : Lexer) (q : Bool) : s.all <+: (s.endToken q).all := by
  refine ⟨[⟨q, s.syms⟩], ?_⟩
  simp [all, endToken]

@[simp] theorem all_push (s : Lexer) (e : Bool) (b : Bytes) : (s.push e b).all = s.all := rfl

theorem all_stepGap {s s' : Lexer} {c : Char} (h : s.stepGap c = some s') : s'.all = s.all := by
  unfold stepGap at h
  split_ifs at h <;> obtain rfl := Option.some.inj h
  case pos => exact all_endLine s
  all_goals rfl

/-- An escape is part of the token that is being read. -/
theorem stepEscape_frame {s s' : Lexer} {i : Bool} {ds : List ℕ} {c : Char}
    (h : s.stepEscape i ds c = some s') : s'.entries = s.entries ∧ s'.entry = s.entry := by
  unfold stepEscape at h
  by_cases hc : c.isDigit = true
  · simp only [hc, if_true] at h
    split_ifs at h <;> obtain rfl := Option.some.inj h <;> exact ⟨rfl, rfl⟩
  · simp only [hc, if_false, Bool.false_eq_true] at h
    split_ifs at h
    obtain rfl := Option.some.inj h
    exact ⟨rfl, rfl⟩

theorem all_stepEscape {s s' : Lexer} {i : Bool} {ds : List ℕ} {c : Char}
    (h : s.stepEscape i ds c = some s') : s'.all = s.all := by
  obtain ⟨hentries, hentry⟩ := stepEscape_frame h
  unfold all
  rw [hentries, hentry]

/-- No character takes back a token that was read. -/
theorem all_step {s s' : Lexer} {c : Char} (h : s.step c = some s') : s.all <+: s'.all := by
  unfold step at h
  split at h
  · rw [all_stepGap h]
  · rw [all_stepGap h]
  · obtain rfl := Option.some.inj h
    split_ifs
    · rw [all_endLine]
    · exact List.prefix_rfl
  · split_ifs at h
    · obtain rfl := Option.some.inj h
      exact List.prefix_rfl
    · rw [all_stepGap h]
      exact all_endToken s false
    · obtain rfl := Option.some.inj h
      exact List.prefix_rfl
  · split_ifs at h <;> obtain rfl := Option.some.inj h
    · exact all_endToken s true
    · exact List.prefix_rfl
    · exact List.prefix_rfl
  · rw [all_stepEscape h]

theorem all_lex {s s' : Lexer} {t : Text} (h : s.lex t = some s') : s.all <+: s'.all := by
  induction t generalizing s with
  | nil => obtain rfl := Option.some.inj h; exact List.prefix_rfl
  | cons c t ih =>
    obtain ⟨s₁, h₁, h₂⟩ := Option.bind_eq_some_iff.mp h
    exact (all_step h₁).trans (ih h₂)

end Lexer

/-! ### The bytes read so far -/

namespace Lexer

/-- The bytes of the tokens, and of the one that is being read. -/
def read (s : Lexer) : Bytes := s.all.flatMap Token.bytes ++ s.syms.map Sym.byte

/-- A character that is read as itself, or that ends a word. -/
def IsSimple (c : Char) : Prop := isSpecial c = false ∨ isBlank c = true ∨ c = '\n'

theorem read_stepGap {s s' : Lexer} {c : Char} (hs : s.Between) (hc : isBlank c = true ∨ c = '\n')
    (h : s.stepGap c = some s') : s'.Between ∧ s'.read = s.read := by
  have hsyms : s'.syms = [] ∧ (s'.mode = .start ∨ s'.mode = .gap) := by
    unfold stepGap at h
    by_cases hn : c = '\n'
    · rw [if_pos hn] at h
      obtain rfl := Option.some.inj h
      unfold endLine
      split_ifs
      · exact ⟨rfl, Or.inl rfl⟩
      · exact ⟨rfl, Or.inl rfl⟩
      · exact ⟨hs.2, Or.inr rfl⟩
    · rw [if_neg hn, if_pos (hc.resolve_right hn)] at h
      obtain rfl := Option.some.inj h
      exact ⟨hs.2, Or.inr rfl⟩
  refine ⟨⟨hsyms.2, hsyms.1⟩, ?_⟩
  unfold read
  rw [all_stepGap h, hsyms.1, hs.2]

theorem read_step {s s' : Lexer} {c : Char} (hs : s.Open) (hc : IsSimple c) (h : s.step c = some s') :
    s'.Open ∧ s'.read = s.read ++ if isSpecial c then [] else encode [c] := by
  by_cases hsp : isSpecial c = true
  · have hend : isBlank c = true ∨ c = '\n' := by
      rcases hc with hc | hc
      · rw [hsp] at hc
        cases hc
      · exact hc
    rw [if_pos hsp, List.append_nil]
    rcases hs with hs | hs
    · rw [hs.step] at h
      obtain ⟨hb, hr⟩ := read_stepGap hs hend h
      exact ⟨Or.inl hb, hr⟩
    · -- the word is ended
      rw [step_word_end hs hend] at h
      obtain ⟨hb, hr⟩ := read_stepGap ⟨Or.inr rfl, rfl⟩ hend h
      refine ⟨Or.inl hb, hr.trans ?_⟩
      simp [read, all, endToken, Token.bytes]
  · have hplain : isSpecial c = false := by simpa using hsp
    rw [hs.step_plain hplain] at h
    obtain rfl := Option.some.inj h
    rw [hplain, if_neg Bool.false_ne_true]
    refine ⟨Or.inr rfl, ?_⟩
    simp [read, all, push, Function.comp_def]

theorem read_lex {s s' : Lexer} {t : Text} (hs : s.Open) (ht : ∀ c ∈ t, IsSimple c) (h : s.lex t = some s') :
    s'.read = s.read ++ encode (t.filter fun c => !isSpecial c) := by
  induction t generalizing s with
  | nil =>
    obtain rfl := Option.some.inj h
    simp
  | cons c t ih =>
    obtain ⟨s₁, h₁, h₂⟩ := Option.bind_eq_some_iff.mp h
    obtain ⟨hopen, hread⟩ := read_step hs (ht c List.mem_cons_self) h₁
    rw [ih hopen (fun d hd => ht d (List.mem_cons_of_mem _ hd)) h₂, hread, List.append_assoc]
    by_cases hsp : isSpecial c = true
    · simp [hsp]
    · rw [if_neg hsp, List.filter_cons_of_pos (by simpa using hsp), ← encode_append]
      rfl

end Lexer

/-- A line that starts with words has their tokens first, and then the bytes of what follows. -/
theorem Ends.words_before {ts : List Text} {ks₀ : List Token} (h : List.Forall₂ Spells ts ks₀) (hne : ts ≠ [])
    {t : Text} {ks : List Token} (ht : Ends ([' '].intercalate ts ++ [' '] ++ t) ks []) :
    ∃ ks', ks = ks₀ ++ ks' ∧ ((∀ c ∈ t, Lexer.IsSimple c) →
      ks'.flatMap Token.bytes = encode (t.filter fun c => !Lexer.isSpecial c)) := by
  let s : Lexer := ⟨.gap, 0, [], ⟨false, [⟨false, []⟩]⟩, []⟩
  have hks : ks₀ ≠ [] := by
    rintro rfl
    cases h
    exact hne rfl
  obtain ⟨k, ks₁, rfl⟩ := List.exists_cons_of_ne_nil hks
  have hwords : s.lex ([' '].intercalate ts ++ [' ']) = some (s.addAll (k :: ks₁)) := by
    rw [Lexer.lex_words h hne ⟨Or.inr rfl, rfl⟩ (Or.inl rfl), Lexer.addAll_eq, Lexer.stepGap_space rfl rfl]
  have hends := ht s rfl rfl rfl (by simp [s])
  rw [List.append_assoc _ t, Lexer.lex_append_of_lex hwords, Lexer.addAll_eq] at hends
  obtain ⟨ks', hks'⟩ : k :: ks₁ <+: ks := by
    have hall := Lexer.all_lex hends
    simpa [Lexer.all, Lexer.fresh, s] using hall
  refine ⟨ks', hks'.symm, fun hsimple => ?_⟩
  have hread := Lexer.read_lex (Or.inl ⟨Or.inr rfl, rfl⟩) (t := t ++ ['\n']) (fun c hc => ?_) hends
  · have hbytes : (Token.bytes ⟨false, []⟩ ++ ks.flatMap Token.bytes) =
        Token.bytes ⟨false, []⟩ ++ (k :: ks₁).flatMap Token.bytes ++
          encode (t.filter fun c => !Lexer.isSpecial c) := by
      simpa [Lexer.read, Lexer.all, Lexer.fresh, s, Lexer.isSpecial] using hread
    rw [← hks', List.flatMap_append, List.append_assoc] at hbytes
    simpa using hbytes
  · rcases List.mem_append.mp hc with hc | hc
    · exact hsimple c hc
    · exact Or.inr (Or.inr (List.mem_singleton.mp hc))

/-! ### What a plain word is read as -/

theorem splitDots_eq (syms : List Sym) : splitDots syms = syms.splitOn ⟨46, false⟩ := by
  induction syms with
  | nil => rfl
  | cons x syms ih =>
    rw [List.splitOn_cons_eq_if_modifyHead, ← ih]
    by_cases hx : x = ⟨46, false⟩
    · rw [if_pos (by simpa using hx)]
      show (if x = _ then _ else _) = _
      rw [if_pos hx]
    · rw [if_neg (by simpa using hx)]
      show (if x = _ then _ else _) = _
      rw [if_neg hx]
      rcases hs : splitDots syms with _ | ⟨l, ls⟩
      · rw [ih] at hs
        exact absurd hs (List.splitOn_ne_nil _ syms)
      · rfl

/-- The token of labels with dots between them. -/
def joined (ls : List (List Sym)) : Token := ⟨false, [⟨46, false⟩].intercalate ls⟩

theorem splitDots_joined {ls : List (List Sym)} (hne : ls ≠ []) (hdot : ∀ l ∈ ls, ⟨46, false⟩ ∉ l) :
    splitDots (joined ls).syms = ls := by
  rw [splitDots_eq]
  exact List.splitOn_intercalate _ hdot hne

/-- The name that labels with dots between them are: they are relative unless the last is empty. -/
theorem readName_joined (origin : List Bytes) {ls : List (List Sym)} (hdot : ∀ l ∈ ls, ⟨46, false⟩ ∉ l)
    (hhead : ∃ x l rest, ls = (x :: l) :: rest) (hat : ls ≠ [[⟨64, false⟩]]) :
    readName origin (joined ls) =
      (if ls.getLast? = some [] then some (ls.dropLast.map (·.map Sym.byte))
        else some (ls.map (·.map Sym.byte) ++ origin)).filter validLabels := by
  obtain ⟨x, l, rest, rfl⟩ := hhead
  have hsplit := splitDots_joined (List.cons_ne_nil (x :: l) rest) hdot
  have hx : x ≠ ⟨46, false⟩ := fun h => hdot _ List.mem_cons_self (h ▸ List.mem_cons_self)
  have h1 : ¬ ((joined ((x :: l) :: rest)).quoted = true ∨ (joined ((x :: l) :: rest)).syms = []) := by
    rintro (h | h)
    · cases h
    · rw [h] at hsplit
      cases hsplit
  have h2 : (joined ((x :: l) :: rest)).syms ≠ [⟨64, false⟩] := by
    intro h
    rw [h] at hsplit
    exact hat hsplit.symm
  have h3 : (joined ((x :: l) :: rest)).syms ≠ [⟨46, false⟩] := by
    intro h
    rw [h] at hsplit
    cases hsplit
  have hlast : ((((x :: l) :: rest).map (·.map Sym.byte)).getLast? = some []) =
      (((x :: l) :: rest).getLast? = some []) := by
    rw [List.getLast?_map, Option.map_eq_some_iff]
    simp
  unfold readName
  simp only [if_neg h1, if_neg h2, if_neg h3, hsplit, hlast, List.map_dropLast]

/-- The origin. -/
theorem readName_at (origin : List Bytes) :
    readName origin (plainToken ['@']) = (some origin).filter validLabels := rfl

/-- A number in digits. -/
theorem readNat_digits (n : ℕ) : readNat (plainToken (Nat.toDigits 10 n)) = some n := by
  have hdig : ∀ c ∈ Nat.toDigits 10 n, 48 ≤ c.toNat ∧ c.toNat ≤ 57 := by
    intro c hc
    have h : c.isDigit = true := Nat.isDigit_of_mem_toDigits (by decide) (by decide) hc
    have h' : c.val ≥ 48 ∧ c.val ≤ 57 := by simpa [Char.isDigit] using h
    exact ⟨UInt32.le_iff_toNat_le.mp h'.1, UInt32.le_iff_toNat_le.mp h'.2⟩
  have hbytes : ∀ t : Text, (∀ c ∈ t, 48 ≤ c.toNat ∧ c.toNat ≤ 57) →
      (encode t).map UInt8.toNat = t.map Char.toNat := by
    intro t ht
    induction t with
    | nil => rfl
    | cons c t ih =>
      obtain ⟨h1, h2⟩ := ht c List.mem_cons_self
      rw [encode_cons, utf8EncodeChar_ascii (by omega), List.singleton_append, List.map_cons,
        ih fun d hd => ht d (List.mem_cons_of_mem _ hd), List.map_cons, UInt8.toNat_ofNat']
      congr 1
      omega
  have hval : ((plainToken (Nat.toDigits 10 n)).bytes.map UInt8.toNat).foldl
      (fun n d => 10 * n + (d - 48)) 0 = n := by
    rw [bytes_plainToken, hbytes _ hdig, List.foldl_map]
    exact Nat.ofDigitChars_ten_toDigits
  unfold readNat
  rw [if_pos, hval]
  refine ⟨rfl, ?_, ?_, ?_⟩
  · rw [bytes_plainToken, hbytes _ hdig]
    simp
  · rw [bytes_plainToken, hbytes _ hdig]
    intro d hd
    obtain ⟨c, hc, rfl⟩ := List.mem_map.mp hd
    exact hdig c hc
  · simp [plainToken]

/-! ### Texts of whole lines -/

/-- At the start of a line the text is read as these entries, up to the start of a line. -/
def Adds (t : Text) (es : List Entry) : Prop :=
  ∀ es₀, (Lexer.fresh es₀).lex t = some (.fresh (es₀ ++ es))

theorem adds_nil : Adds [] [] := fun es₀ => by rw [List.append_nil]; rfl

theorem Adds.append {t u : Text} {es fs : List Entry} (ht : Adds t es) (hu : Adds u fs) :
    Adds (t ++ u) (es ++ fs) := by
  intro es₀
  rw [Lexer.lex_append_of_lex (ht es₀), hu, List.append_assoc]

theorem adds_line {ts : List Text} {ks : List Token} (h : List.Forall₂ Spells ts ks) (hne : ts ≠ []) :
    Adds ([' '].intercalate ts ++ ['\n']) [⟨false, ks⟩] :=
  Lexer.lex_line h hne

theorem adds_line_ends {ts : List Text} {ks : List Token} (h : List.Forall₂ Spells ts ks)
    (hne : ts ≠ []) {t : Text} {ks' : List Token} {es : List Entry} (ht : Ends t ks' es) :
    Adds ([' '].intercalate ts ++ [' '] ++ t ++ ['\n']) (⟨false, ks ++ ks'⟩ :: es) :=
  Lexer.lex_line_ends h hne ht

theorem adds_comment {t : Text} (h : '\n' ∉ t) : Adds (';' :: t ++ ['\n']) [] := by
  intro es₀
  rw [List.append_nil]
  exact Lexer.lex_comment h es₀

/-- A text of whole lines has its entries. -/
theorem entries_of_adds {t : Text} {es : List Entry} (h : Adds t es) : entries t = some es := by
  have hlex : (Lexer.fresh []).lex (t ++ ['\n']) = some (.fresh es) := by
    rw [Lexer.lex_append_of_lex (h [])]
    rfl
  unfold entries
  rw [hlex]
  rfl

/-! ### What is read is not taken back -/

namespace Lexer

theorem entries_endLine (s : Lexer) : s.entries <+: s.endLine.entries := by
  unfold endLine
  split_ifs
  · exact List.prefix_rfl
  · exact List.prefix_append _ _
  · exact List.prefix_rfl

theorem entries_stepGap {s s' : Lexer} {c : Char} (h : s.stepGap c = some s') :
    s.entries <+: s'.entries := by
  unfold stepGap at h
  split_ifs at h <;> obtain rfl := Option.some.inj h
  case pos => exact entries_endLine s
  all_goals exact List.prefix_rfl

theorem entries_step {s s' : Lexer} {c : Char} (h : s.step c = some s') :
    s.entries <+: s'.entries := by
  unfold step at h
  split at h
  · exact entries_stepGap h
  · exact entries_stepGap h
  · obtain rfl := Option.some.inj h
    split_ifs
    · exact entries_endLine s
    · exact List.prefix_rfl
  · split_ifs at h
    · obtain rfl := Option.some.inj h
      exact List.prefix_rfl
    · exact entries_stepGap (s := s.endToken false) h
    · obtain rfl := Option.some.inj h
      exact List.prefix_rfl
  · split_ifs at h <;> obtain rfl := Option.some.inj h <;> exact List.prefix_rfl
  · rw [(stepEscape_frame h).1]

theorem entries_lex {s s' : Lexer} {t : Text} (h : s.lex t = some s') : s.entries <+: s'.entries := by
  induction t generalizing s with
  | nil => obtain rfl := Option.some.inj h; exact List.prefix_rfl
  | cons c t ih =>
    obtain ⟨s₁, h₁, h₂⟩ := Option.bind_eq_some_iff.mp h
    exact (entries_step h₁).trans (ih h₂)

end Lexer

/-- The lines at the start of a text are its first entries. -/
theorem entries_append {t u : Text} {es fs : List Entry} (ht : Adds t es)
    (h : entries (t ++ u) = some fs) : es <+: fs := by
  unfold entries at h
  obtain ⟨s, hs, hend⟩ := Option.bind_eq_some_iff.mp h
  rw [List.append_assoc, Lexer.lex_append_of_lex (ht []), List.nil_append] at hs
  split_ifs at hend
  obtain rfl := Option.some.inj hend
  exact Lexer.entries_lex hs

theorem Reader.records_step {s s' : Reader} {e : Entry} (h : s.step e = some s') :
    s.records <+: s'.records := by
  have hrec : ∀ {owner : List Bytes} {fields : List Token},
      s.record owner fields = some s' → s.records <+: s'.records := by
    intro owner fields h
    obtain ⟨x, -, rfl⟩ := Option.map_eq_some_iff.mp h
    exact List.prefix_append _ _
  unfold Reader.step at h
  by_cases hb : e.blank = true
  · rw [if_pos hb] at h
    obtain ⟨owner, -, h⟩ := Option.bind_eq_some_iff.mp h
    exact hrec h
  rw [if_neg hb] at h
  rcases ht : e.tokens with _ | ⟨k, rest⟩
  · rw [ht] at h
    obtain rfl := Option.some.inj h
    exact List.prefix_rfl
  rw [ht] at h
  dsimp only at h
  split_ifs at h
  · rcases rest with _ | ⟨name, _ | ⟨_, _⟩⟩ <;> try cases h
    obtain ⟨origin, -, rfl⟩ := Option.map_eq_some_iff.mp h
    exact List.prefix_rfl
  · rcases rest with _ | ⟨name, _ | ⟨_, _⟩⟩ <;> try cases h
    obtain ⟨ttl, -, rfl⟩ := Option.map_eq_some_iff.mp h
    exact List.prefix_rfl
  · obtain ⟨owner, -, h⟩ := Option.bind_eq_some_iff.mp h
    exact hrec h

theorem Reader.records_run {s s' : Reader} {es : List Entry} (h : s.run es = some s') :
    s.records <+: s'.records := by
  induction es generalizing s with
  | nil => obtain rfl := Option.some.inj h; exact List.prefix_rfl
  | cons e es ih =>
    obtain ⟨s₁, h₁, h₂⟩ := Option.bind_eq_some_iff.mp h
    exact (Reader.records_step h₁).trans (ih h₂)

/-! ### What the entries say -/

/-- Read with this origin, the entries are these records, and change neither the origin nor the TTL. -/
def Says (origin : List Bytes) (es : List Entry) (rs : List Record) : Prop :=
  ∀ s : Reader, s.origin = origin →
    ∃ owner, s.run es = some ⟨origin, s.ttl, owner, s.records ++ rs⟩

theorem says_nil (origin : List Bytes) : Says origin [] [] := by
  rintro s rfl
  exact ⟨s.owner, by rw [List.append_nil]; rfl⟩

theorem Says.append {origin : List Bytes} {es fs : List Entry} {rs qs : List Record}
    (he : Says origin es rs) (hf : Says origin fs qs) : Says origin (es ++ fs) (rs ++ qs) := by
  intro s hs
  obtain ⟨o₁, h₁⟩ := he s hs
  obtain ⟨o₂, h₂⟩ := hf ⟨origin, s.ttl, o₁, s.records ++ rs⟩ rfl
  refine ⟨o₂, ?_⟩
  rw [Reader.run_append, h₁, Option.bind_some, h₂, List.append_assoc]

/-- The entry that sets the origin. -/
def originEntry (name : Token) : Entry := ⟨false, [plainToken "$ORIGIN".toList, name]⟩

theorem run_originEntry {s : Reader} {name : Token} {origin : List Bytes}
    (h : readName s.origin name = some origin) (es : List Entry) :
    s.run (originEntry name :: es) = Reader.run { s with origin := origin } es := by
  have hstep : s.step (originEntry name) = some { s with origin := origin } := by
    show Option.map _ (readName s.origin name) = _
    rw [h]
    rfl
  show (s.step _).bind _ = _
  rw [hstep]
  rfl

/-! ### What texts give -/

/-- Read at the start of a line with this origin, the text gives these records, and leaves the reader at
the start of a line as it was before. -/
def Gives (origin : List Bytes) (t : Text) (rs : List Record) : Prop :=
  ∃ es, Adds t es ∧ Says origin es rs

/-- Where a line has tokens already, the text adds these to it, ends it, and gives these records
after it. -/
def Closes (origin : List Bytes) (t : Text) (ks : List Token) (rs : List Record) : Prop :=
  ∃ es, Ends t ks es ∧ Says origin es rs

section
variable {origin : List Bytes}

theorem gives_nil : Gives origin [] [] := ⟨[], adds_nil, says_nil origin⟩

theorem Gives.append {t u : Text} {rs qs : List Record} (ht : Gives origin t rs)
    (hu : Gives origin u qs) : Gives origin (t ++ u) (rs ++ qs) := by
  obtain ⟨es, ht, hes⟩ := ht
  obtain ⟨fs, hu, hfs⟩ := hu
  exact ⟨es ++ fs, ht.append hu, hes.append hfs⟩

theorem gives_flatMap {α : Type*} {l : List α} {f : α → Text} {g : α → List Record}
    (h : ∀ x ∈ l, Gives origin (f x) (g x)) : Gives origin (l.flatMap f) (l.flatMap g) := by
  induction l with
  | nil => exact gives_nil
  | cons x l ih =>
    rw [List.flatMap_cons, List.flatMap_cons]
    exact (h x List.mem_cons_self).append (ih fun y hy => h y (List.mem_cons_of_mem x hy))

/-- Texts that are made one by one. -/
theorem gives_mapM {α ε : Type} {l : List α} {f : α → Except ε Text} {g : α → List Record}
    (h : ∀ x ∈ l, ∃ t, f x = .ok t ∧ Gives origin t (g x)) :
    ∃ ts, l.mapM f = .ok ts ∧ Gives origin ts.flatten (l.flatMap g) := by
  induction l with
  | nil => exact ⟨[], rfl, gives_nil⟩
  | cons x l ih =>
    obtain ⟨t, ht, hgives⟩ := h x List.mem_cons_self
    obtain ⟨ts, hts, hrest⟩ := ih fun y hy => h y (List.mem_cons_of_mem x hy)
    refine ⟨t :: ts, ?_, ?_⟩
    · rw [List.mapM_cons, ht, hts]
      rfl
    · rw [List.flatten_cons, List.flatMap_cons]
      exact hgives.append hrest

theorem gives_comment {t : Text} (h : '\n' ∉ t) : Gives origin (';' :: t ++ ['\n']) [] :=
  ⟨[], adds_comment h, says_nil origin⟩

theorem closes_words {ts : List Text} {ks : List Token} (h : List.Forall₂ Spells ts ks) :
    Closes origin ([' '].intercalate ts) ks [] :=
  ⟨[], ends_words h, says_nil origin⟩

theorem Closes.after {ts : List Text} {ks : List Token} (h : List.Forall₂ Spells ts ks)
    (hne : ts ≠ []) {t : Text} {ks' : List Token} {rs : List Record} (ht : Closes origin t ks' rs) :
    Closes origin ([' '].intercalate ts ++ [' '] ++ t) (ks ++ ks') rs := by
  obtain ⟨es, ht, hes⟩ := ht
  exact ⟨es, ht.after h hne, hes⟩

/-- The text gives records of which `P` holds. -/
def GivesOnly (origin : List Bytes) (P : Record → Prop) (t : Text) : Prop :=
  ∃ rs, Gives origin t rs ∧ ∀ r ∈ rs, P r

theorem GivesOnly.append {P : Record → Prop} {t u : Text} (ht : GivesOnly origin P t)
    (hu : GivesOnly origin P u) : GivesOnly origin P (t ++ u) := by
  obtain ⟨rs, ht, hrs⟩ := ht
  obtain ⟨qs, hu, hqs⟩ := hu
  refine ⟨rs ++ qs, ht.append hu, fun r hr => ?_⟩
  rcases List.mem_append.mp hr with hr | hr
  · exact hrs r hr
  · exact hqs r hr

theorem givesOnly_flatMap {α : Type*} {l : List α} {f : α → Text} {P : Record → Prop}
    (h : ∀ x ∈ l, GivesOnly origin P (f x)) : GivesOnly origin P (l.flatMap f) := by
  induction l with
  | nil => exact ⟨[], gives_nil, fun r hr => by cases hr⟩
  | cons x l ih =>
    rw [List.flatMap_cons]
    exact (h x List.mem_cons_self).append (ih fun y hy => h y (List.mem_cons_of_mem x hy))

/-- What a text gives are its records as a file. -/
theorem Gives.records {t : Text} {rs : List Record} (h : Gives origin t rs) :
    records origin t = some rs := by
  obtain ⟨es, ht, hes⟩ := h
  obtain ⟨o, h⟩ := hes ⟨origin, none, none, []⟩ rfl
  unfold MasterFile.records
  rw [entries_of_adds ht, Option.bind_some, h]
  rfl

/-- A file that sets its origin first has the records that the rest of it gives. -/
theorem records_of_gives {root : List Bytes} {t u : Text} {name : Token} {rs : List Record}
    (ht : Adds t [originEntry name]) (hname : readName origin name = some root)
    (hu : Gives root u rs) : MasterFile.records origin (t ++ u) = some rs := by
  obtain ⟨es, hu, hes⟩ := hu
  obtain ⟨o, h⟩ := hes ⟨root, none, none, []⟩ rfl
  unfold MasterFile.records
  rw [entries_of_adds (ht.append hu), Option.bind_some]
  show Option.map _ (Reader.run _ (originEntry name :: es)) = _
  rw [run_originEntry hname]
  show Option.map _ (Reader.run ⟨root, none, none, []⟩ es) = _
  rw [h]
  rfl

/-- In a file that has records, the entry after the origin and a text that gives records is read, and
what it makes is among the records of the file. -/
theorem step_of_records {root : List Bytes} {t u v w : Text} {name : Token} {rs qs : List Record}
    (ht : Adds t [originEntry name]) (hname : readName origin name = some root) (hu : Gives root u rs)
    {e : Entry} {es : List Entry} (hv : Adds v (e :: es))
    (h : MasterFile.records origin (t ++ (u ++ (v ++ w))) = some qs) :
    ∃ s s' : Reader, s.origin = root ∧ s.step e = some s' ∧ s'.records <+: qs := by
  obtain ⟨fs, hu, hfs⟩ := hu
  have htext : t ++ (u ++ (v ++ w)) = t ++ (u ++ v) ++ w := by simp
  rw [htext] at h
  unfold MasterFile.records at h
  obtain ⟨gs, hgs, h⟩ := Option.bind_eq_some_iff.mp h
  obtain ⟨r, hr, rfl⟩ := Option.map_eq_some_iff.mp h
  obtain ⟨ps, rfl⟩ := entries_append (ht.append (hu.append hv)) hgs
  obtain ⟨o, hrun⟩ := hfs ⟨root, none, none, []⟩ rfl
  have hsplit : [originEntry name] ++ (fs ++ e :: es) ++ ps = originEntry name :: (fs ++ e :: (es ++ ps)) := by
    simp
  rw [hsplit, run_originEntry hname, Reader.run_append] at hr
  obtain ⟨s, hs, hr⟩ := Option.bind_eq_some_iff.mp hr
  have hs' := hrun.symm.trans hs
  obtain rfl := Option.some.inj hs'
  obtain ⟨s', hs', hr⟩ := Option.bind_eq_some_iff.mp hr
  exact ⟨_, s', rfl, hs', Reader.records_run hr⟩

end

end HexDns.Lib.MasterFile
