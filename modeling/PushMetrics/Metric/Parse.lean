import PushMetrics.Metric.Basic
import PushMetrics.Text.Blank
import PushMetrics.Text.Quoted

/-!
# Metrics from text

A metric is read from three texts: kind, name and value. They are checked in this order, and the first
failing check names the error.
-/

namespace PushMetrics

open Number Text

inductive ParseError where
  | unknownKind (tag : String)
  | emptyName
  | invalidValue (kind : Kind) (name value : String)
  | missingField (field : String) (kind : Kind) (name : String)
deriving DecidableEq, Repr

def ParseError.message : ParseError → String
  | unknownKind tag => "unknown metric type: " ++ quote tag
  | emptyName => "metric name is empty"
  | invalidValue kind name value =>
    "invalid " ++ kind.tag ++ " value for metric " ++ quote name ++ ": " ++ quote value
  | missingField field kind name =>
    "missing " ++ field ++ " for " ++ kind.tag ++ " metric " ++ quote name

def Kind.parse (tag : String) : Except ParseError Kind :=
  match Kind.ofTag? tag with
  | some kind => .ok kind
  | none => .error (.unknownKind tag)

/-- A finite double precision number in decimal notation. -/
def Sample.finite? (s : String) : Option Binary64 :=
  ((Decimal.read? s.toList).map Binary64.ofDecimal).filter (·.isFinite)

def Sample.ofText? (kind : Kind) (s : String) : Option Sample :=
  match kind with
  | .gauge => (Sample.finite? s).map .gauge
  | .counter => (int64? s).map .counter

/-- The metric given by kind, name and value; white space around the value does not count. -/
def Metric.parse (tag name value : String) : Except ParseError Metric := do
  let kind ← Kind.parse tag
  if name = "" then throw .emptyName
  match Sample.ofText? kind (trim value) with
  | some sample => pure ⟨name, sample⟩
  | none => throw (.invalidValue kind name value)

/-! ## The checks one by one -/

theorem Kind.exists_tag_or (tag : String) : (∃ kind : Kind, tag = kind.tag) ∨ tag ≠ "gauge" ∧ tag ≠ "counter" := by
  by_cases hgauge : tag = "gauge"
  · exact .inl ⟨.gauge, hgauge⟩
  · by_cases hcounter : tag = "counter"
    · exact .inl ⟨.counter, hcounter⟩
    · exact .inr ⟨hgauge, hcounter⟩

theorem Kind.parse_tag (k : Kind) : Kind.parse k.tag = .ok k := by cases k <;> rfl

namespace Metric

theorem parse_of_ne {tag : String} (hgauge : tag ≠ "gauge") (hcounter : tag ≠ "counter") (name value : String) :
    parse tag name value = .error (.unknownKind tag) := by
  rw [parse, Kind.parse, Kind.ofTag?, if_neg hgauge, if_neg hcounter]
  rfl

/-- Under the tag of a kind the name is checked, and then the value. -/
theorem parse_tag (kind : Kind) (name value : String) : parse kind.tag name value =
    if name = "" then .error .emptyName
    else match Sample.ofText? kind (trim value) with
      | some sample => .ok ⟨name, sample⟩
      | none => .error (.invalidValue kind name value) := by
  rw [parse, Kind.parse_tag]
  by_cases hname : name = ""
  · rw [if_pos hname]
    simp only [bind, Except.bind, if_pos hname, throw, throwThe, MonadExceptOf.throw]
  · rw [if_neg hname]
    simp only [bind, Except.bind, if_neg hname]
    rfl

/-- What is read as a metric has the name, and a sample that is read from the value. -/
theorem exists_of_parse {tag name value : String} {m : Metric} (h : parse tag name value = .ok m) :
    ∃ kind sample, name ≠ "" ∧ Sample.ofText? kind (trim value) = some sample ∧ m = ⟨name, sample⟩ := by
  rcases Kind.exists_tag_or tag with ⟨kind, rfl⟩ | ⟨hgauge, hcounter⟩
  · rw [parse_tag] at h
    split at h
    · cases h
    · rename_i hname
      split at h
      · rename_i sample hsample
        exact ⟨kind, sample, hname, hsample, (Except.ok.inj h).symm⟩
      · cases h
  · rw [parse_of_ne hgauge hcounter] at h
    cases h

end Metric

end PushMetrics
