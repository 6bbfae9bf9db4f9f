import PushMetrics.Number.Layout

/-!
# Writing JSON

Texts, numbers, arrays and objects in JSON, without blanks. A double precision number has a point or an
exponent, so it is never taken for an integer; one that is not finite is written as null.
-/

namespace PushMetrics.Json

open Number

def encodeChar (c : Char) : List Char :=
  match c with
  | '"' => ['\\', '"']
  | '\\' => ['\\', '\\']
  | '\x08' => ['\\', 'b']
  | '\t' => ['\\', 't']
  | '\n' => ['\\', 'n']
  | '\x0c' => ['\\', 'f']
  | '\r' => ['\\', 'r']
  | c =>
    if c.toNat < 0x20 then ['\\', 'u', '0', '0', Nat.digitChar (c.toNat / 16), Nat.digitChar (c.toNat % 16)]
    else [c]

def encodeText (s : String) : String := String.ofList ('"' :: s.toList.flatMap encodeChar ++ ['"'])

/-- Numbers from 0.00001 to below 10¹⁶ have their point in place, with a fraction even if it is zero. -/
def numberLayout : Layout := ⟨fun e => -5 ≤ e && e ≤ 15, ['.', '0'], .even⟩

def encodeBinary64 : Binary64 → String
  | .finite negative rank => String.ofList (numberLayout.render negative rank.val)
  | _ => "null"

def encodeInt (n : Int) : String := Number.integerText n

def encodeArray (items : List String) : String := "[" ++ ",".intercalate items ++ "]"

/-- An object of encoded values under their names. -/
def encodeObject (fields : List (String × String)) : String :=
  "\x7b" ++ ",".intercalate (fields.map fun f => encodeText f.1 ++ ":" ++ f.2) ++ "\x7d"

end PushMetrics.Json
