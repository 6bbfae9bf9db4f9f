import PushMetrics.Agent.Config
import PushMetrics.Collector.Opening
import PushMetrics.Store.Backend

/-!
# Starting and stopping the programs

A program that is configured wrongly says so and ends with status one, and so does, without a word, a
collector whose store does not open. One that is asked to stop ends with status zero.
-/

namespace PushMetrics.CommandLine

open PushMetrics.Config

/-- How a program ends before it has begun: what it says, and its exit status. -/
structure Refusal where
  said : String
  status : Nat
deriving DecidableEq, Repr

def Refusal.ofConfig (program : String) (e : ConfigError) : Refusal :=
  ⟨"Invalid " ++ program ++ " configuration: " ++ e.message ++ "\n", 1⟩

/-- The agent's settings, or why it does not start. -/
def startAgent (vars : Variables) : Except Refusal Agent.Config :=
  (Agent.Config.ofVariables vars).mapError (.ofConfig "agent")

/-- The collector's settings and its store, or why it does not start. -/
def startCollector (vars : Variables) (w : World) : Except Refusal (Collector.Config × Storage) × World :=
  match Collector.Config.ofVariables vars with
  | .error e => (.error (.ofConfig "collector" e), w)
  | .ok config =>
    match Collector.openStorage config w with
    | (.error _, w) => (.error ⟨"", 1⟩, w)
    | (.ok storage, w) => (.ok (config, storage), w)

/-- The surroundings after a collector has stopped, which closes its store whether or not that succeeds. -/
def stopCollector (storage : Storage) (w : World) : World := (storage.close w).2.2

end PushMetrics.CommandLine
