import PushMetrics.Agent.Collection
import PushMetrics.Number.Integer
import PushMetrics.Text.Blank
import PushMetrics.Text.Utf8

/-!
# What an agent measures

The metrics of the process itself, a random number with the count of rounds, and those of the host. What
cannot be read is left out.
-/

namespace PushMetrics.Agent

open Number Text

def countGauge (name : String) (n : Nat) : Metric := ⟨name, .gauge (Binary64.ofInt n)⟩

/-- What the system tells about the process; nothing where it cannot be read. -/
structure ProcessInfo where
  /-- Sizes in pages, parted by blanks: all memory first, then what is resident. -/
  memory : Option (List UInt8)
  /-- The number of open file descriptors. -/
  descriptors : Option Nat
  threads : Option Nat

namespace ProcessInfo

/-- The first two sizes of a text, if both are words of 64 bits. -/
def pages? (text : String) : Option (Nat × Nat) := do
  let size :: resident :: _ := words text | none
  return (← word? 64 size, ← word? 64 resident)

def metrics (p : ProcessInfo) : List Metric :=
  (match (p.memory.bind ofUtf8?).bind pages? with
    | some (size, resident) => [countGauge "VirtualMemoryPages" size, countGauge "ResidentMemoryPages" resident]
    | none => [])
  ++ (p.descriptors.map (countGauge "OpenFileDescriptors")).toList
  ++ (p.threads.map (countGauge "Threads")).toList

end ProcessInfo

/-- What the agent finds when it measures. -/
structure HostInfo where
  process : ProcessInfo
  /-- A random number from zero to below one. -/
  random : Binary64
  totalMemory : Nat
  freeMemory : Nat
  /-- How busy each processor is, in percent. -/
  processors : List Binary64

namespace HostInfo

/-- A random number, and one round to be counted. -/
def randomMetrics (h : HostInfo) : List Metric := [⟨"RandomValue", .gauge h.random⟩, ⟨"PollCount", .counter 1⟩]

/-- The name of a processor's metric; processors are numbered from one. -/
def processorName (index : Nat) : String := "CPUutilization" ++ naturalText (index + 1)

def metrics (h : HostInfo) : List Metric :=
  [countGauge "TotalMemory" h.totalMemory, countGauge "FreeMemory" h.freeMemory]
  ++ h.processors.mapIdx fun index busy => ⟨processorName index, .gauge busy⟩

def collector (name : String) (found : Nat → List Metric) : Collector := ⟨name, fun round => ⟨0, .ok (found round)⟩⟩

/-- The collectors of an agent, given what it finds in each round. -/
def collectors (host : Nat → HostInfo) : List Collector :=
  [collector "runtime" fun round => (host round).process.metrics,
   collector "random" fun round => (host round).randomMetrics,
   collector "host" fun round => (host round).metrics]

end HostInfo

end PushMetrics.Agent
