import HexDns.Lib.Texts

/-! # Master files

The text form of DNS zones of RFC 1035, section 5.1. `Lexer` is the state of the reading of a file
character by character; `lex` runs it over a text, so that what a text comes to in the middle of a
file is the state after it (`lex_append`). At the end of a line outside of quotes and parentheses the
tokens read become an entry; `Reader` goes through the entries and makes records of them.

A token is a list of bytes that know whether they were escaped: an escaped dot does not separate
labels, and an escaped `@` is not the origin. -/

namespace HexDns.Lib.MasterFile

open HexDns.Lib.Texts

/-! ### Tokens -/

/-- A byte of a token, and whether it was escaped. -/
structure Sym where
  byte : UInt8
  escaped : Bool
  deriving DecidableEq, Repr

structure Token where
  quoted : Bool
  syms : List Sym
  deriving DecidableEq, Repr

def Token.bytes (t : Token) : Bytes := t.syms.map Sym.byte

/-- A logical line: whether it starts with a blank, and its tokens. -/
structure Entry where
  blank : Bool
  tokens : List Token
  deriving DecidableEq, Repr

/-- Where the lexer is. -/
inductive Mode
  /-- at the start of a line -/
  | start
  /-- between tokens -/
  | gap
  | word
  | string
  | comment
  /-- after a backslash, in a string or not, and the digits read after it -/
  | escape (inString : Bool) (digits : List ℕ)
  deriving DecidableEq, Repr

structure Lexer where
  mode : Mode
  /-- the open parentheses -/
  depth : ℕ
  /-- the token that is being read -/
  syms : List Sym
  /-- the entry that is being read -/
  entry : Entry
  entries : List Entry
  deriving DecidableEq, Repr

/-- At the start of a line after these entries. -/
def Lexer.fresh (entries : List Entry) : Lexer := ⟨.start, 0, [], ⟨false, []⟩, entries⟩

namespace Lexer

def push (s : Lexer) (escaped : Bool) (b : Bytes) : Lexer :=
  { s with syms := s.syms ++ b.map (⟨·, escaped⟩) }

/-- End the token that is being read. -/
def endToken (s : Lexer) (quoted : Bool) : Lexer :=
  { s with
    mode := .gap
    syms := []
    entry := { s.entry with tokens := s.entry.tokens ++ [⟨quoted, s.syms⟩] } }

/-- End the line, and with it the entry unless a parenthesis is open; an empty line is none. -/
def endLine (s : Lexer) : Lexer :=
  if s.depth = 0 then
    .fresh (if s.entry.tokens = [] then s.entries else s.entries ++ [s.entry])
  else { s with mode := .gap }

def isBlank (c : Char) : Bool := c = ' ' || c = '\t' || c = '\r'

/-- A character that ends a word, or starts something else between tokens. -/
def isSpecial (c : Char) : Bool :=
  isBlank c || c = '\n' || c = ';' || c = '(' || c = ')' || c = '"' || c = '\\'

/-- Read a character between tokens. -/
def stepGap (s : Lexer) (c : Char) : Option Lexer :=
  if c = '\n' then some s.endLine
  else if isBlank c then
    some { s with
      mode := .gap
      entry := if s.mode = .start then { s.entry with blank := true } else s.entry }
  else if c = ';' then some { s with mode := .comment }
  else if c = '(' then some { s with mode := .gap, depth := s.depth + 1 }
  else if c = ')' then
    if s.depth = 0 then none else some { s with mode := .gap, depth := s.depth - 1 }
  else if c = '"' then some { s with mode := .string }
  else if c = '\\' then some { s with mode := .escape false [] }
  else some { (s.push false (encode [c])) with mode := .word }

/-- The mode in the middle of a token. -/
def inside (inString : Bool) : Mode := if inString then .string else .word

/-- Read a character after a backslash. -/
def stepEscape (s : Lexer) (inString : Bool) (digits : List ℕ) (c : Char) : Option Lexer :=
  if c.isDigit then
    let digits := digits ++ [c.toNat - 48]
    if digits.length < 3 then some { s with mode := .escape inString digits }
    else
      let n := digits.foldl (fun n d => 10 * n + d) 0
      if n < 256 then some { (s.push true [UInt8.ofNat n]) with mode := inside inString } else none
  else if digits = [] then some { (s.push true (encode [c])) with mode := inside inString }
  else none

/-- Read a character. -/
def step (s : Lexer) (c : Char) : Option Lexer :=
  match s.mode with
  | .start | .gap => stepGap s c
  | .comment => some (if c = '\n' then s.endLine else s)
  | .word =>
    if c = '\\' then some { s with mode := .escape false [] }
    else if isSpecial c then stepGap (s.endToken false) c
    else some (s.push false (encode [c]))
  | .string =>
    if c = '"' then some (s.endToken true)
    else if c = '\\' then some { s with mode := .escape true [] }
    else some (s.push false (encode [c]))
  | .escape inString digits => stepEscape s inString digits c

/-- Read a text. -/
def lex (s : Lexer) : Text → Option Lexer
  | [] => some s
  | c :: t => (step s c).bind (lex · t)

theorem lex_append (s : Lexer) (t u : Text) : lex s (t ++ u) = (lex s t).bind (lex · u) := by
  induction t generalizing s with
  | nil => rfl
  | cons c t ih =>
    show (step s c).bind (lex · (t ++ u)) = ((step s c).bind (lex · t)).bind (lex · u)
    rcases step s c with _ | s'
    · rfl
    · exact ih s'

theorem lex_append_of_lex {s s' : Lexer} {t : Text} (h : lex s t = some s') (u : Text) :
    lex s (t ++ u) = lex s' u := by
  rw [lex_append, h]; rfl

end Lexer

/-- The entries of a file; the end of the file ends the last line. -/
def entries (t : Text) : Option (List Entry) :=
  (Lexer.lex (.fresh []) (t ++ ['\n'])).bind fun s =>
    if s.mode = .start ∧ s.depth = 0 then some s.entries else none

/-- The tokens of a text that is part of a line. -/
def tokens (t : Text) : Option (List Token) :=
  (entries t).bind fun es =>
    match es with
    | [] => some []
    | [e] => some e.tokens
    | _ => none

/-! ### Names -/

/-- Split at the dots that are not escaped. -/
def splitDots : List Sym → List (List Sym)
  | [] => [[]]
  | s :: rest =>
    if s = ⟨46, false⟩ then [] :: splitDots rest
    else
      match splitDots rest with
      | l :: ls => (s :: l) :: ls
      | [] => [[s]]

/-- The labels have their length, and the name has. -/
def validLabels (ls : List Bytes) : Bool :=
  ls.all (fun l => 0 < l.length && l.length < 64) && (ls.map (·.length + 1)).sum < 255

/-- The labels of a domain name that is relative to an origin unless it ends with a dot. -/
def readName (origin : List Bytes) (t : Token) : Option (List Bytes) :=
  let ls := (splitDots t.syms).map (·.map Sym.byte)
  let labels :=
    if t.quoted ∨ t.syms = [] then none
    else if t.syms = [⟨64, false⟩] then some origin
    else if t.syms = [⟨46, false⟩] then some []
    else if ls.getLast? = some [] then some ls.dropLast
    else some (ls ++ origin)
  labels.filter validLabels

/-! ### Records -/

structure Record where
  owner : List Bytes
  ttl : ℕ
  rclass : Bytes
  rtype : Bytes
  rdata : List Token
  deriving DecidableEq, Repr

/-- A decimal number. -/
def readNat (t : Token) : Option ℕ :=
  let digits := t.bytes.map UInt8.toNat
  if t.quoted = false ∧ digits ≠ [] ∧ (∀ d ∈ digits, 48 ≤ d ∧ d ≤ 57) ∧ t.syms.all (!·.escaped) then
    some (digits.foldl (fun n d => 10 * n + (d - 48)) 0)
  else none

/-- The state of the reading of the entries. -/
structure Reader where
  origin : List Bytes
  ttl : Option ℕ
  owner : Option (List Bytes)
  records : List Record
  deriving DecidableEq, Repr

def classes : List Bytes := ["IN", "CH", "HS", "CS"].map fun c => encode c.toList

/-- The TTL, the class, the type and the rdata after the owner; the TTL and the class may be left out
and may be the other way round. -/
def readFields (defaultTtl : Option ℕ) : List Token → Option (ℕ × Bytes × Bytes × List Token)
  | [] => none
  | t :: rest =>
    match readNat t, rest with
    | some ttl, c :: rtype :: rdata =>
      if c.bytes ∈ classes then some (ttl, c.bytes, rtype.bytes, rdata)
      else some (ttl, encode "IN".toList, c.bytes, rtype :: rdata)
    | some ttl, [c] => some (ttl, encode "IN".toList, c.bytes, [])
    | some _, [] => none
    | none, _ =>
      if t.bytes ∈ classes then
        match rest with
        | [] => none
        | u :: rdata =>
          match readNat u, rdata with
          | some ttl, rtype :: rdata => some (ttl, t.bytes, rtype.bytes, rdata)
          | some _, [] => none
          | none, _ => defaultTtl.map fun ttl => (ttl, t.bytes, u.bytes, rdata)
      else defaultTtl.map fun ttl => (ttl, encode "IN".toList, t.bytes, rest)

/-- A record with an owner. -/
def Reader.record (s : Reader) (owner : List Bytes) (fields : List Token) : Option Reader :=
  (readFields s.ttl fields).map fun (ttl, rclass, rtype, rdata) =>
    { s with owner := some owner, records := s.records ++ [⟨owner, ttl, rclass, rtype, rdata⟩] }

/-- Read an entry: a directive or a record. -/
def Reader.step (s : Reader) (e : Entry) : Option Reader :=
  if e.blank then s.owner.bind fun owner => s.record owner e.tokens
  else
    match e.tokens with
    | [] => some s
    | t :: rest =>
      if t.bytes = encode "$ORIGIN".toList then
        match rest with
        | [name] => (readName s.origin name).map fun origin => { s with origin := origin }
        | _ => none
      else if t.bytes = encode "$TTL".toList then
        match rest with
        | [ttl] => (readNat ttl).map fun ttl => { s with ttl := some ttl }
        | _ => none
      else (readName s.origin t).bind fun owner => s.record owner rest

/-- Read entries. -/
def Reader.run (s : Reader) : List Entry → Option Reader
  | [] => some s
  | e :: es => (s.step e).bind (Reader.run · es)

theorem Reader.run_append (s : Reader) (es es' : List Entry) :
    s.run (es ++ es') = (s.run es).bind (Reader.run · es') := by
  induction es generalizing s with
  | nil => rfl
  | cons e es ih =>
    show (s.step e).bind (Reader.run · (es ++ es')) =
      ((s.step e).bind (Reader.run · es)).bind (Reader.run · es')
    rcases s.step e with _ | s'
    · rfl
    · exact ih s'

/-- The records of a master file with an origin. -/
def records (origin : List Bytes) (t : Text) : Option (List Record) :=
  (entries t).bind fun es => (Reader.run ⟨origin, none, none, []⟩ es).map Reader.records

end HexDns.Lib.MasterFile
