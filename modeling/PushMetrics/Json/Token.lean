import PushMetrics.Text.Utf8
import PushMetrics.Number.Decimal

/-!
# JSON tokens

The text of a JSON document as a list of tokens. Characters are taken one by one; what stands between
blanks, punctuation and quotes is an atom and must be a number or one of the three words. The content of
a string is kept as written, so that its validity is asked only where the string is used.
-/

namespace PushMetrics.Json

open Number Text

/-- A part of a string: a character, a byte outside any character, or a code unit given by number. -/
inductive Piece where
  | char (c : Char)
  | stray (b : UInt8)
  | unit (code : Nat)
deriving DecidableEq, Repr

/-- A JSON number; `integral` tells that it has neither a point nor an exponent. -/
structure Numeral where
  decimal : Decimal
  integral : Bool
deriving DecidableEq, Repr

inductive Token where
  | openArray
  | closeArray
  | openObject
  | closeObject
  | comma
  | colon
  | null
  | bool (b : Bool)
  | number (n : Numeral)
  | text (pieces : List Piece)
deriving DecidableEq, Repr

/-! ## Numbers and words -/

/-- The fraction digits after a whole part: none without a point, at least one with it. -/
def fraction? : List Char → Option (List Char × List Char)
  | '.' :: rest =>
    let (digits, rest) := rest.span Char.isDigit
    if digits.isEmpty then none else some (digits, rest)
  | cs => some ([], cs)

/-- Reads a number: no plus sign, no leading zero, digits on both sides of a point. -/
def Numeral.read? (cs : List Char) : Option Numeral := do
  let (negative, body) := match cs with
    | '-' :: rest => (true, rest)
    | cs => (false, cs)
  let (whole, rest) := body.span Char.isDigit
  if whole.isEmpty || (whole.length != 1 && whole.head? == some '0') then none
  else
    let (fraction, tail) ← fraction? rest
    let exponent ← Decimal.exponent? tail
    some ⟨Decimal.ofDigits negative whole fraction exponent, rest.isEmpty⟩

def Token.ofAtom? (cs : List Char) : Option Token :=
  if cs = "null".toList then some .null
  else if cs = "true".toList then some (.bool true)
  else if cs = "false".toList then some (.bool false)
  else (Numeral.read? cs).map .number

/-! ## Strings -/

/-- What a character after a backslash stands for. -/
def escaped? : Char → Option Char
  | '"' => some '"'
  | '\\' => some '\\'
  | '/' => some '/'
  | 'b' => some '\x08'
  | 'f' => some '\x0c'
  | 'n' => some '\n'
  | 'r' => some '\r'
  | 't' => some '\t'
  | _ => none

def hexValue? (c : Char) : Option Nat :=
  if c.isDigit then some (c.toNat - '0'.toNat)
  else if 'a' ≤ c ∧ c ≤ 'f' then some (c.toNat - 'a'.toNat + 10)
  else if 'A' ≤ c ∧ c ≤ 'F' then some (c.toNat - 'A'.toNat + 10)
  else none

/-! ## The lexer -/

/-- Where the lexer stands; what is read of a token is held newest first. -/
inductive Mode where
  | between
  | atom (read : List Char)
  | text (read : List Piece)
  | escape (read : List Piece)
  | unit (read : List Piece) (code left : Nat)

/-- The tokens read, newest first, and the position inside the next one. -/
structure Lexer where
  tokens : List Token
  mode : Mode

namespace Lexer

def punctuation? : Char → Option Token
  | '[' => some .openArray
  | ']' => some .closeArray
  | '{' => some .openObject
  | '}' => some .closeObject
  | ',' => some .comma
  | ':' => some .colon
  | _ => none

def isSpace (c : Char) : Bool := c == ' ' || c == '\n' || c == '\t' || c == '\r'

/-- A character outside strings, after the tokens read so far. -/
def outside (tokens : List Token) (c : Char) : Lexer :=
  if isSpace c then ⟨tokens, .between⟩
  else if c = '"' then ⟨tokens, .text []⟩
  else match punctuation? c with
    | some t => ⟨t :: tokens, .between⟩
    | none => ⟨tokens, .atom [c]⟩

def endsAtom (c : Char) : Bool := isSpace c || c == '"' || (punctuation? c).isSome

def next (l : Lexer) (s : Symbol) : Option Lexer :=
  match l.mode, s with
  | .between, .char c => some (outside l.tokens c)
  | .atom read, .char c =>
    if endsAtom c then (Token.ofAtom? read.reverse).map fun t => outside (t :: l.tokens) c
    else some { l with mode := .atom (c :: read) }
  | .text read, .char c =>
    if c = '"' then some ⟨.text read.reverse :: l.tokens, .between⟩
    else if c = '\\' then some { l with mode := .escape read }
    else if c.toNat < 0x20 then none
    else some { l with mode := .text (.char c :: read) }
  | .text read, .stray b => some { l with mode := .text (.stray b :: read) }
  | .escape read, .char c =>
    if c = 'u' then some { l with mode := .unit read 0 4 }
    else (escaped? c).map fun d => { l with mode := .text (.char d :: read) }
  | .unit read code left, .char c => do
    let digit ← hexValue? c
    let code := code * 16 + digit
    some { l with mode := if left ≤ 1 then .text (.unit code :: read) else .unit read code (left - 1) }
  | _, .stray _ => none

def run (l : Lexer) : List Symbol → Option Lexer
  | [] => some l
  | s :: rest =>
    match l.next s with
    | none => none
    | some l => run l rest

def finish (l : Lexer) : Option (List Token) :=
  match l.mode with
  | .between => some l.tokens.reverse
  | .atom read => (Token.ofAtom? read.reverse).map fun t => (t :: l.tokens).reverse
  | _ => none

end Lexer

def tokens? (document : List Symbol) : Option (List Token) := (Lexer.run ⟨[], .between⟩ document).bind (·.finish)

end PushMetrics.Json
