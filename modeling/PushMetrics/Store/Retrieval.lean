import PushMetrics.Store.Scan

/-!
# Calls of an enumeration

An enumeration from its call on, while others write and close the store. The call finds the store open and then lists
the names, in no particular order. The consumer may stop at any time: the items that it has not taken are gone, and
the producer finds that out when it has the next item to hand over.
-/

namespace PushMetrics

inductive CallPhase where
  | called
  /-- The store has been found open. -/
  | admitted
  | refused
  | listed
  /-- The consumer has stopped. -/
  | dropped
deriving DecidableEq, Repr

/-- A call, and the enumeration that it leads to. -/
structure Retrieval extends Scan where
  phase : CallPhase

inductive RetrievalStep where
  | check
  /-- The names are listed, in this order. -/
  | list (names : List String)
  | drop
  /-- The enumeration goes on, or somebody writes or closes the store. -/
  | scan (step : ScanStep)
deriving DecidableEq, Repr

namespace Retrieval

/-- A call that has not looked at the store yet. -/
def begin (m : Memory) : Retrieval := ⟨⟨m, ⟨.finished, []⟩, []⟩, .called⟩

variable (s : Retrieval)

/-- What a scan does, while nobody is there to take items if the consumer has stopped. -/
def scanStep (a : ScanStep) : Option Retrieval :=
  match s.phase, a, s.source.producer with
  | .dropped, .produce, .send _ _ => some { s with source := ⟨.finished, []⟩ }
  | _, _, _ => (s.toScan.step a).map fun scan => { s with toScan := scan }

def step : RetrievalStep → Option Retrieval
  | .check =>
    if s.phase = .called then some { s with phase := if s.memory.isOpen then .admitted else .refused } else none
  | .list names =>
    if s.phase = .admitted ∧ names.isPerm s.memory.contents.keys then
      some { s with source := ⟨.check names, []⟩, phase := .listed }
    else none
  | .drop =>
    if s.phase = .listed then some { s with source := ⟨s.source.producer, []⟩, phase := .dropped } else none
  | .scan a => s.scanStep a

end Retrieval

end PushMetrics
