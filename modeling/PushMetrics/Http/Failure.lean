import PushMetrics.Json.Value
import PushMetrics.Json.Writer

/-!
# Failures

The JSON body of an answer that refuses a request: status, a short message, and details.
-/

namespace PushMetrics.Http

open Json

structure Failure where
  code : Nat
  message : String
  details : List String
deriving DecidableEq, Repr

namespace Failure

/-- Texts in increasing order of their bytes, each once. -/
def sortedSet (texts : List String) : List String := (texts.mergeSort (· ≤ ·)).eraseReps

/-- A failure whose details do not depend on their order or repetition. -/
def ofDetails (code : Nat) (message : String) (details : List String) : Failure :=
  ⟨code, message, sortedSet details⟩

def encode (f : Failure) : String :=
  encodeObject [("code", encodeInt f.code), ("message", encodeText f.message),
    ("details", encodeArray (f.details.map encodeText))]

/-- The failure that a JSON value holds; details may be missing. -/
def decode? (v : Value) : Option Failure := do
  let [code, message, details] ← v.fields? ["code", "message", "details"] 2 | none
  let details ← match details with
    | none => some []
    | some v => Value.list? Value.text? v
  some ⟨← code.bind Value.code?, ← message.bind Value.text?, details⟩

end Failure

end PushMetrics.Http
