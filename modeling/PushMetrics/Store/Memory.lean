import PushMetrics.Dict
import PushMetrics.Store.Error

/-!
# The store in memory

The current samples under their names, and whether the store is open. Closing a store empties it, and a
closed store refuses everything.
-/

namespace PushMetrics

/-- The samples of a store under their names. -/
abbrev Contents := Dict String Sample

namespace Contents

def metric? (c : Contents) (name : String) : Option Metric := (c.get? name).map (⟨name, ·⟩)

def metrics (c : Contents) : List Metric := c.entries.map fun e => ⟨e.1, e.2⟩

def save (c : Contents) (m : Metric) : Contents := c.put m.name m.sample

def saveAll (c : Contents) (ms : List Metric) : Contents := ms.foldl save c

/-- The contents made of metrics; of one name the last is kept. -/
def ofMetrics (ms : List Metric) : Contents := saveAll Dict.empty ms

end Contents

inductive Change where
  | save (m : Metric)
  | saveBatch (ms : List Metric)
  | reset
deriving DecidableEq, Repr

def Change.applyTo : Change → Contents → Contents
  | save m, c => c.save m
  | saveBatch ms, c => c.saveAll ms
  | reset, _ => Dict.empty

structure Memory where
  contents : Contents
  isOpen : Bool

namespace Memory

def fresh : Memory := ⟨Dict.empty, true⟩

def whenOpen {α : Type} (m : Memory) (answer : α) : Except StorageError α :=
  if m.isOpen then .ok answer else .error .closed

def get (m : Memory) (name : String) : Except StorageError (Option Metric) :=
  m.whenOpen (m.contents.metric? name)

def getAll (m : Memory) : Except StorageError (List Metric) := m.whenOpen m.contents.metrics

def apply (m : Memory) (change : Change) : Except StorageError Memory :=
  m.whenOpen { m with contents := change.applyTo m.contents }

/-- Closes the store; only the first time succeeds. -/
def close (m : Memory) : Except StorageError Memory := m.whenOpen ⟨Dict.empty, false⟩

end Memory

end PushMetrics
