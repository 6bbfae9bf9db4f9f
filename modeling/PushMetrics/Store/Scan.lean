import PushMetrics.Store.Enumeration

/-!
# Enumerations beside writers

A store in memory with one enumeration of it, while others write and close it. A step of the producer, an item
taken by the consumer, and one access to the store are steps of their own.
-/

namespace PushMetrics

structure Scan where
  memory : Memory
  source : Enumeration
  /-- The items that the consumer has taken. -/
  taken : List Item

inductive ScanStep where
  | produce
  | take
  /-- The change of a writer that has found the store open. -/
  | write (change : Change)
  /-- Closing the store marks it as closed, and empties it with another step. -/
  | shut
  | clear
deriving DecidableEq, Repr

namespace Scan

/-- An enumeration of an open store when its names have been listed, in this order. -/
def begin (c : Contents) (names : List String) : Scan := ⟨⟨c, true⟩, ⟨.check names, []⟩, []⟩

def step (s : Scan) : ScanStep → Option Scan
  | .produce => (s.source.produce s.memory).map fun source => { s with source }
  | .take => s.source.take.map fun (item, source) => { s with source, taken := s.taken ++ [item] }
  | .write change => some { s with memory := { s.memory with contents := change.applyTo s.memory.contents } }
  | .shut => if s.memory.isOpen then some { s with memory := { s.memory with isOpen := false } } else none
  | .clear => if s.memory.isOpen then none else some { s with memory := { s.memory with contents := Dict.empty } }

/-- The producer has finished, and the consumer has taken all. -/
def hasEnded (s : Scan) : Bool := s.source.producer matches .finished && s.source.channel.isEmpty

end Scan

end PushMetrics
