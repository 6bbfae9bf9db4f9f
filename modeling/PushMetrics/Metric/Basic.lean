import PushMetrics.Number.Layout

/-!
# Metrics

A metric is a named sample. A gauge is a measured value that replaces the one before it; a counter is a
count of events, and counts of one name add up, modulo 2⁶⁴.
-/

namespace PushMetrics

open Number

inductive Kind where
  | gauge
  | counter
deriving DecidableEq, Repr

def Kind.tag : Kind → String
  | gauge => "gauge"
  | counter => "counter"

def Kind.ofTag? (s : String) : Option Kind :=
  if s = "gauge" then some .gauge else if s = "counter" then some .counter else none

inductive Sample where
  | gauge (value : Binary64)
  | counter (count : Int64)
deriving DecidableEq, Repr

structure Metric where
  name : String
  sample : Sample
deriving DecidableEq, Repr

namespace Sample

def kind : Sample → Kind
  | gauge _ => .gauge
  | counter _ => .counter

/-- Gauges are shown with the point in its place, however long that is, and whole ones without it. -/
def gaugeLayout : Layout := ⟨fun _ => true, [], .away⟩

def gaugeText : Binary64 → String
  | .nan => "NaN"
  | .infinite negative => if negative then "-inf" else "inf"
  | .finite negative rank => String.ofList (gaugeLayout.render negative rank.val)

def countText (count : Int64) : String := Number.integerText count.toInt

def text : Sample → String
  | gauge value => gaugeText value
  | counter count => countText count

/-- A new sample in view of the one stored before: counts add up, anything else replaces. -/
def merge : Option Sample → Sample → Sample
  | some (counter old), counter count => counter (old + count)
  | _, incoming => incoming

/-- Whether a store may hold the sample: a gauge has to be a finite number. -/
def isStorable : Sample → Bool
  | gauge value => value.isFinite
  | counter _ => true

end Sample

namespace Metric

def gauge (name : String) (value : Binary64) : Metric := ⟨name, .gauge value⟩

def counter (name : String) (count : Int64) : Metric := ⟨name, .counter count⟩

def kind (m : Metric) : Kind := m.sample.kind

def valueText (m : Metric) : String := m.sample.text

def display (m : Metric) : String := m.kind.tag ++ " " ++ m.name ++ " " ++ m.valueText

/-- A new metric in view of a prior one: counts of one name add up, anything else replaces. -/
def merge (prior : Option Metric) (incoming : Metric) : Metric :=
  match prior with
  | some p => if p.name = incoming.name then ⟨incoming.name, .merge (some p.sample) incoming.sample⟩ else incoming
  | none => incoming

def add? (m : Metric) (count : Int64) : Option Metric :=
  match m.sample with
  | .counter old => some ⟨m.name, .counter (old + count)⟩
  | .gauge _ => none

/-- Whether a metric may be stored: it has a name, and a gauge is finite. -/
def isWellFormed (m : Metric) : Bool := m.name != "" && m.sample.isStorable

end Metric

end PushMetrics
