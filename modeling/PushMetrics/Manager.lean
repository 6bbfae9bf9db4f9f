import PushMetrics.Store.Backend

/-!
# The manager

Resolves incoming metrics against the stored ones: a counter adds to the stored count of its name, a gauge
replaces. A batch is resolved item by item, later items seeing earlier ones, and written at once.
-/

namespace PushMetrics.Manager

variable {σ : Type}

/-- Samples that a batch has resolved and not yet written. -/
abbrev Pending := Dict String Sample

/-- The sample to store for a metric. Only a counter without a pending sample asks the store. -/
def resolve (b : Backend σ) (pending : Pending) (m : Metric) (s : σ) : Except StorageError Sample × σ :=
  match m.sample with
  | .gauge _ => (.ok m.sample, s)
  | .counter _ =>
    match pending.get? m.name with
    | some prior => (.ok (.merge (some prior) m.sample), s)
    | none => match b.get m.name s with
      | (.error e, s) => (.error e, s)
      | (.ok prior, s) => (.ok (.merge (prior.map (·.sample)) m.sample), s)

def get (b : Backend σ) (kind : Kind) (name : String) (s : σ) : Except StorageError (Option Metric) × σ :=
  match b.get name s with
  | (.error e, s) => (.error e, s)
  | (.ok m, s) => (.ok (m.filter (·.kind == kind)), s)

/-- Resolves a metric and stores the result, which is the answer. -/
def save (b : Backend σ) (m : Metric) (s : σ) : Except StorageError Metric × σ :=
  match resolve b Dict.empty m s with
  | (.error e, s) => (.error e, s)
  | (.ok sample, s) => match b.apply (.save ⟨m.name, sample⟩) s with
    | (.error e, s) => (.error e, s)
    | (.ok _, s) => (.ok ⟨m.name, sample⟩, s)

/-- Resolves metrics in order: the running result of each, and what is to be stored. -/
def resolveAll (b : Backend σ) : Pending → List Metric → σ → Except StorageError (List Metric × Pending) × σ
  | pending, [], s => (.ok ([], pending), s)
  | pending, m :: rest, s =>
    match resolve b pending m s with
    | (.error e, s) => (.error e, s)
    | (.ok sample, s) => match resolveAll b (pending.put m.name sample) rest s with
      | (.error e, s) => (.error e, s)
      | (.ok (results, pending), s) => (.ok (⟨m.name, sample⟩ :: results, pending), s)

/-- Resolves metrics and stores the results at once; the answer is the running result of each. -/
def saveBatch (b : Backend σ) (ms : List Metric) (s : σ) : Except StorageError (List Metric) × σ :=
  if ms.isEmpty then (.ok [], s)
  else match resolveAll b Dict.empty ms s with
    | (.error e, s) => (.error e, s)
    | (.ok (results, pending), s) => match b.apply (.saveBatch (Contents.metrics pending)) s with
      | (.error e, s) => (.error e, s)
      | (.ok _, s) => (.ok results, s)

end PushMetrics.Manager
