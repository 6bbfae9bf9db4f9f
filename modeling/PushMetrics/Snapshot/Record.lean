import PushMetrics.Store.Error
import PushMetrics.Json.Value
import PushMetrics.Json.Writer
import PushMetrics.Text.Lines

/-!
# Snapshot records

A snapshot is one line per metric, each a JSON record of kind, name and value in text. Reading skips blank
lines and names the first line that holds no metric.
-/

namespace PushMetrics.Snapshot

open Json Text

/-- The line of a metric, with its line feed. -/
def encodeMetric (m : Metric) : String :=
  encodeObject [("type", encodeText m.kind.tag), ("name", encodeText m.name), ("value", encodeText m.valueText)] ++
    "\n"

def encode (ms : List Metric) : String := String.join (ms.map encodeMetric)

/-- The metric of a line without blanks around it. -/
def decodeMetric (line : String) : Except RecordFault Metric :=
  let parts := do
    let v ← Value.ofText? line
    let [tag, name, value] ← v.fields? ["type", "name", "value"] 3 | none
    some (← tag.bind Value.text?, ← name.bind Value.text?, ← value.bind Value.text?)
  match parts with
  | none => .error .json
  | some (tag, name, value) => match Metric.parse tag name value with
    | .ok m => .ok m
    | .error e => .error (.metric e)

/-- The metrics of lines, the first of which has the given number. -/
def decodeLines (number : Nat) : List String → Except StorageError (List Metric)
  | [] => .ok []
  | line :: rest =>
    if trim line = "" then decodeLines (number + 1) rest
    else match decodeMetric (trim line) with
      | .error fault => .error (.restore number fault)
      | .ok m => (decodeLines (number + 1) rest).map (m :: ·)

def decode (s : String) : Except StorageError (List Metric) := decodeLines 1 (lines s)

end PushMetrics.Snapshot
