import PushMetrics.Json.Token
import PushMetrics.Number.Binary64

/-!
# JSON values

A JSON document as a value, and what a reader of a known shape takes from it: texts, integers, numbers
and the fields of records. Open arrays and objects are kept on a stack, so a document may nest to any
depth.
-/

namespace PushMetrics.Json

open Number Text

/-- A JSON value. Strings are as written; fields stand in their order and may repeat. -/
inductive Value where
  | null
  | bool (b : Bool)
  | number (n : Numeral)
  | text (pieces : List Piece)
  | array (items : List Value)
  | object (fields : List (List Piece × Value))

/-! ## Building values from tokens -/

/-- An open array or object with what it holds so far, newest first. -/
inductive Frame where
  | array (items : List Value)
  | object (fields : List (List Piece × Value)) (key : List Piece)

inductive Phase where
  /-- A value; `mayClose` in an array that has just been opened. -/
  | value (mayClose : Bool)
  /-- A key of an object with these fields; `mayClose` in one that has just been opened. -/
  | key (fields : List (List Piece × Value)) (mayClose : Bool)
  /-- The colon after a key of an object with these fields. -/
  | colon (fields : List (List Piece × Value)) (key : List Piece)
  /-- A comma or the end of the innermost open container, after its newest member. -/
  | after (member : Value)

/-- The open containers, innermost first, and what may come next. -/
structure Builder where
  frames : List Frame
  phase : Phase

namespace Builder

def next (b : Builder) (t : Token) : Option Builder :=
  match b.phase, t with
  | .value _, .null => some { b with phase := .after .null }
  | .value _, .bool x => some { b with phase := .after (.bool x) }
  | .value _, .number n => some { b with phase := .after (.number n) }
  | .value _, .text s => some { b with phase := .after (.text s) }
  | .value _, .openArray => some ⟨.array [] :: b.frames, .value true⟩
  | .value _, .openObject => some { b with phase := .key [] true }
  | .value true, .closeArray => match b.frames with
    | .array items :: frames => some ⟨frames, .after (.array items.reverse)⟩
    | _ => none
  | .key fields true, .closeObject => some { b with phase := .after (.object fields.reverse) }
  | .key fields _, .text key => some { b with phase := .colon fields key }
  | .colon fields key, .colon => some ⟨.object fields key :: b.frames, .value false⟩
  | .after v, .comma => match b.frames with
    | .array items :: frames => some ⟨.array (v :: items) :: frames, .value false⟩
    | .object fields key :: frames => some ⟨frames, .key ((key, v) :: fields) false⟩
    | [] => none
  | .after v, .closeArray => match b.frames with
    | .array items :: frames => some ⟨frames, .after (.array (v :: items).reverse)⟩
    | _ => none
  | .after v, .closeObject => match b.frames with
    | .object fields key :: frames => some ⟨frames, .after (.object ((key, v) :: fields).reverse)⟩
    | _ => none
  | _, _ => none

def run (b : Builder) : List Token → Option Builder
  | [] => some b
  | t :: rest =>
    match b.next t with
    | none => none
    | some b => run b rest

def finish (b : Builder) : Option Value :=
  match b.frames, b.phase with
  | [], .after v => some v
  | _, _ => none

end Builder

def Value.ofTokens? (tokens : List Token) : Option Value :=
  (Builder.run ⟨[], .value false⟩ tokens).bind (·.finish)

def Value.ofSymbols? (document : List Symbol) : Option Value := (tokens? document).bind ofTokens?

def Value.ofBytes? (document : List UInt8) : Option Value := ofSymbols? (symbols document)

def Value.ofText? (document : String) : Option Value := ofSymbols? (document.toList.map .char)

/-! ## Reading known shapes -/

/-- The characters of a string: code units must pair up, and no byte may stand outside a character. -/
def chars? : List Piece → Option (List Char)
  | [] => some []
  | .char c :: rest => (chars? rest).map (c :: ·)
  | .stray _ :: _ => none
  | .unit code :: rest =>
    if 0xD800 ≤ code ∧ code < 0xDC00 then
      match rest with
      | .unit low :: rest =>
        if 0xDC00 ≤ low ∧ low < 0xE000 then
          (chars? rest).map (Char.ofNat (0x10000 + (code - 0xD800) * 0x400 + (low - 0xDC00)) :: ·)
        else none
      | _ => none
    else if 0xDC00 ≤ code ∧ code < 0xE000 then none
    else (chars? rest).map (Char.ofNat code :: ·)

def string? (pieces : List Piece) : Option String := (chars? pieces).map String.ofList

namespace Value

def text? : Value → Option String
  | text pieces => string? pieces
  | _ => none

/-- An integer written without point or exponent. A zero with a minus sign is none. -/
def integer? : Value → Option Int
  | number n =>
    if n.integral ∧ ¬(n.decimal.negative ∧ n.decimal.coefficient = 0) then
      some (if n.decimal.negative then -(n.decimal.coefficient : Int) else n.decimal.coefficient)
    else none
  | _ => none

/-- An integer that fits in 64 bits with its sign. -/
def int64? (v : Value) : Option Int64 := do
  let n ← v.integer?
  if Int64.minValue.toInt ≤ n ∧ n ≤ Int64.maxValue.toInt then some (Int64.ofInt n) else none

/-- An integer below `2 ^ 16`. -/
def code? (v : Value) : Option Nat := do
  let n ← v.integer?
  if 0 ≤ n ∧ n < twoPow 16 then some n.toNat else none

/-- The nearest double precision number, if it is finite. -/
def binary64? : Value → Option Binary64
  | number n => (some (Binary64.ofDecimal n.decimal)).filter (·.isFinite)
  | _ => none

def optional? {α : Type} (read : Value → Option α) : Option Value → Option (Option α)
  | none | some null => some none
  | some v => (read v).map some

/-- The members of an array, each read in the same way. -/
def list? {α : Type} (read : Value → Option α) : Value → Option (List α)
  | array items => items.mapM read
  | _ => none

/-- The fields of a record by name. It is an object in which none of them repeats, other fields not
minded, or an array of at least `least` of them in order. -/
def fields? (names : List String) (least : Nat) : Value → Option (List (Option Value))
  | array items =>
    if least ≤ items.length ∧ items.length ≤ names.length then
      some (items.map some ++ List.replicate (names.length - items.length) none)
    else none
  | object fields => do
    let named ← fields.mapM fun f => (string? f.1).map (·, f.2)
    names.mapM fun name => match named.filter (·.1 == name) with
      | [] => some none
      | [f] => some (some f.2)
      | _ => none
  | _ => none

end Value

end PushMetrics.Json
