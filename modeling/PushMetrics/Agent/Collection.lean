import PushMetrics.Metric.Basic

/-!
# Rounds of collection

A round asks every collector at once. The metrics of those that succeed are joined in the order of
registration, whatever the order in which they finish; the failures are counted, and the first one in the
order of registration is reported.
-/

namespace PushMetrics.Agent

structure CollectError where
  collector : String
  reason : String
deriving DecidableEq, Repr

def CollectError.message (e : CollectError) : String := "collector " ++ e.collector ++ " failed: " ++ e.reason

/-- The metrics of one collector in a round, or why it has none. -/
abbrev Yield := Except CollectError (List Metric)

/-- What one collector answers in a round, and after how many milliseconds. -/
structure Answer where
  delay : Nat
  result : Yield

/-- A collector: its answers by the number of the round, counted from one. -/
structure Collector where
  name : String
  answer : Nat → Answer

structure Round where
  metrics : List Metric
  failed : Nat
  firstError : Option CollectError

namespace Round

/-- The round in which the collectors have given these answers, in the order of registration. -/
def ofResults (results : List Yield) : Round where
  metrics := results.flatMap fun r => r.toOption.getD []
  failed := results.countP fun r => !r.isOk
  firstError := results.findSome? fun
    | .error e => some e
    | .ok _ => none

/-- A round of collectors, and how long it takes: as long as the slowest of them. -/
def run (collectors : List Collector) (number : Nat) : Nat × Round :=
  let answers := collectors.map (·.answer number)
  ((answers.map (·.delay)).foldl max 0, ofResults (answers.map (·.result)))

end Round

/-! ## A round in progress -/

structure Gathering where
  answers : List (Option Yield)

namespace Gathering

def begin (collectors : Nat) : Gathering := ⟨List.replicate collectors none⟩

/-- The round after a collector that had not answered yet does so. -/
def record? (g : Gathering) (index : Nat) (result : Yield) : Option Gathering :=
  match g.answers[index]? with
  | some none => some ⟨g.answers.set index (some result)⟩
  | _ => none

def round? (g : Gathering) : Option Round := (g.answers.mapM id).map Round.ofResults

end Gathering

end PushMetrics.Agent
