/-!
# UTF-8

Texts as bytes and back. Bytes that are no part of a well-formed character are kept one by one, so
that a reader can decide where it minds them.
-/

namespace PushMetrics.Text

/-- A byte sequence's unit: a character, or a byte outside any well-formed character. -/
inductive Symbol where
  | char (c : Char)
  | stray (b : UInt8)
deriving DecidableEq, Repr

def utf8 (s : String) : List UInt8 := s.toList.flatMap String.utf8EncodeChar

def isContinuation (b : UInt8) : Bool := 0x80 ≤ b && b < 0xC0

/-- The character with a given number, if there is one and the number is at least `least`. -/
def charAbove? (least n : Nat) : Option Char :=
  if h : n.isValidChar then (if least ≤ n then some (Char.ofNatAux n h) else none) else none

/-- The number given by the low bits of a first byte and the continuation bytes after it. -/
def joinBits (first : Nat) (rest : List UInt8) : Nat := rest.foldl (fun n b => n * 64 + (b.toNat - 0x80)) first

/-- The character that starts with byte `b`, and how many of the following bytes belong to it. -/
def charAt? (b : UInt8) (rest : List UInt8) : Option (Char × Nat) :=
  let tail (count first least : Nat) : Option (Char × Nat) :=
    let taken := rest.take count
    if taken.length = count ∧ taken.all isContinuation then
      (charAbove? least (joinBits first taken)).map (·, count)
    else none
  if b < 0x80 then (charAbove? 0 b.toNat).map (·, 0)
  else if 0xC0 ≤ b ∧ b < 0xE0 then tail 1 (b.toNat - 0xC0) 0x80
  else if 0xE0 ≤ b ∧ b < 0xF0 then tail 2 (b.toNat - 0xE0) 0x800
  else if 0xF0 ≤ b ∧ b < 0xF8 then tail 3 (b.toNat - 0xF0) 0x10000
  else none

/-- The symbols of a byte sequence, in front of which stand those of `before`, newest first. -/
def symbolsAfter (before : List Symbol) : List UInt8 → List Symbol
  | [] => before.reverse
  | b :: rest =>
    match charAt? b rest with
    | some (c, count) => symbolsAfter (.char c :: before) (rest.drop count)
    | none => symbolsAfter (.stray b :: before) rest
termination_by bytes => bytes.length
decreasing_by all_goals (simp only [List.length_drop, List.length_cons]; omega)

def symbols (bytes : List UInt8) : List Symbol := symbolsAfter [] bytes

def Symbol.char? : Symbol → Option Char
  | char c => some c
  | stray _ => none

/-- The text whose bytes these are, unless some byte is no part of a character. -/
def ofUtf8? (bytes : List UInt8) : Option String :=
  ((symbols bytes).mapM Symbol.char?).map String.ofList

/-! ## Damaged texts -/

/-- The range of a byte after the first one of a character. Beyond the second byte, and after most first
bytes, every continuation is possible. -/
def followRange (first : UInt8) (place : Nat) : UInt8 × UInt8 :=
  if place ≠ 0 then (0x80, 0xBF)
  else if first = 0xE0 then (0xA0, 0xBF)
  else if first = 0xED then (0x80, 0x9F)
  else if first = 0xF0 then (0x90, 0xBF)
  else if first = 0xF4 then (0x80, 0x8F)
  else (0x80, 0xBF)

/-- How many bytes must follow a first byte of a character. -/
def followers (first : UInt8) : Nat :=
  if 0xC2 ≤ first ∧ first ≤ 0xDF then 1
  else if 0xE0 ≤ first ∧ first ≤ 0xEF then 2
  else if 0xF0 ≤ first ∧ first ≤ 0xF4 then 3
  else 0

/-- How many of the bytes after a stray one could have belonged to the same character. -/
def fragment (first : UInt8) (rest : List UInt8) : Nat :=
  ((rest.take (followers first)).zipIdx.takeWhile fun (b, place) =>
    let (low, high) := followRange first place
    low ≤ b && b ≤ high).length

/-- The characters of a byte sequence in which U+FFFD stands for every longest fragment of a character. -/
def patch : List UInt8 → List Char
  | [] => []
  | b :: rest =>
    match charAt? b rest with
    | some (c, count) => c :: patch (rest.drop count)
    | none => '\uFFFD' :: patch (rest.drop (fragment b rest))
termination_by bytes => bytes.length
decreasing_by all_goals (simp only [List.length_drop, List.length_cons]; omega)

/-- The text of a byte sequence, damaged or not. -/
def ofDamagedUtf8 (bytes : List UInt8) : String := String.ofList (patch bytes)

end PushMetrics.Text
