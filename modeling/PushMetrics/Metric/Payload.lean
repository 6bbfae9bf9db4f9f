import PushMetrics.Metric.Parse
import PushMetrics.Json.Value
import PushMetrics.Json.Writer

/-!
# Payloads

The form in which metrics travel: a JSON record of name, kind, and the count or the value. A payload need
not describe a metric; the checks are those of the textual form, with a missing part besides.
-/

namespace PushMetrics

open Number Json

/-- A metric on its way, not yet checked. -/
structure Payload where
  id : String
  tag : String
  delta : Option Int64
  value : Option Binary64
deriving DecidableEq, Repr

namespace Payload

def ofMetric (m : Metric) : Payload :=
  match m.sample with
  | .counter count => ⟨m.name, m.kind.tag, some count, none⟩
  | .gauge value => ⟨m.name, m.kind.tag, none, some value⟩

def toMetric (p : Payload) : Except ParseError Metric := do
  let kind ← Kind.parse p.tag
  if p.id = "" then throw .emptyName
  match kind with
  | .counter => match p.delta with
    | some count => pure ⟨p.id, .counter count⟩
    | none => throw (.missingField "delta" kind p.id)
  | .gauge => match p.value with
    | some value =>
      if value.isFinite then pure ⟨p.id, .gauge value⟩
      else throw (.invalidValue kind p.id (Sample.gaugeText value))
    | none => throw (.missingField "value" kind p.id)

/-- The payload in JSON; absent parts are left out. -/
def encode (p : Payload) : String :=
  encodeObject ([("id", encodeText p.id), ("type", encodeText p.tag)] ++
    (p.delta.map fun count => ("delta", encodeInt count.toInt)).toList ++
    (p.value.map fun value => ("value", encodeBinary64 value)).toList)

def encodeAll (ps : List Payload) : String := encodeArray (ps.map encode)

def decode? (v : Value) : Option Payload := do
  let [id, tag, delta, value] ← v.fields? ["id", "type", "delta", "value"] 2 | none
  some ⟨← id.bind Value.text?, ← tag.bind Value.text?, ← Value.optional? Value.int64? delta,
    ← Value.optional? Value.binary64? value⟩

end Payload

/-- A question for the stored metric of one kind and name. -/
structure Query where
  id : String
  tag : String
deriving DecidableEq, Repr

namespace Query

def encode (q : Query) : String := encodeObject [("id", encodeText q.id), ("type", encodeText q.tag)]

def decode? (v : Value) : Option Query := do
  let [id, tag] ← v.fields? ["id", "type"] 2 | none
  some ⟨← id.bind Value.text?, ← tag.bind Value.text?⟩

end Query

end PushMetrics
