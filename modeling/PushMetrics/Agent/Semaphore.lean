import PushMetrics.Permits

/-!
# Cancellable permits

Tasks that acquire permits from a pool until a token is fired. A fired token wins over a permit, so a task
whose token has fired takes none, even one that has just been granted to it.
-/

namespace PushMetrics.Agent

inductive AcquirePhase where
  | waiting
  | held
  | released
  | cancelled
deriving DecidableEq, Repr

/-- A task that acquires a permit. Tokens have names in `τ`. -/
structure Acquirer (τ : Type) where
  token : τ
  phase : AcquirePhase
deriving DecidableEq, Repr

/-- A pool, the tasks that use it, and the tokens that have been fired. Tasks have names in `κ`. -/
structure Semaphore (κ τ : Type) where
  permits : Permits κ
  tasks : Dict κ (Acquirer τ)
  fired : List τ

inductive SemaphoreStep (κ τ : Type) where
  | acquire (task : κ) (token : τ)
  /-- A waiting task runs, after it has been granted a permit or its token has been fired. -/
  | turn (task : κ)
  | leave (task : κ)
  | release (task : κ)
  | fire (token : τ)
deriving DecidableEq, Repr

namespace Semaphore

variable {κ τ : Type} [DecidableEq κ] [DecidableEq τ]

def fresh (size : Nat) : Semaphore κ τ := ⟨.full size, Dict.empty, []⟩

def setPhase (s : Semaphore κ τ) (task : κ) (a : Acquirer τ) (phase : AcquirePhase) : Semaphore κ τ :=
  { s with tasks := s.tasks.put task { a with phase } }

def phase? (s : Semaphore κ τ) (task : κ) : Option AcquirePhase := (s.tasks.get? task).map (·.phase)

def step (s : Semaphore κ τ) : SemaphoreStep κ τ → Option (Semaphore κ τ)
  | .acquire task token =>
    if (s.tasks.get? task).isSome then none
    else if token ∈ s.fired then some (s.setPhase task ⟨token, .cancelled⟩ .cancelled)
    else
      let (now, permits) := s.permits.request task
      let phase := if now then .held else .waiting
      some ({ s with permits }.setPhase task ⟨token, phase⟩ phase)
  | .turn task =>
    match s.tasks.get? task with
    | some a =>
      if a.phase ≠ .waiting then none
      else if a.token ∈ s.fired then
        some ({ s with permits := s.permits.withdraw task }.setPhase task a .cancelled)
      else if s.permits.isGranted task then
        some ({ s with permits := s.permits.collect task }.setPhase task a .held)
      else none
    | none => none
  | .leave task =>
    match s.tasks.get? task with
    | some a =>
      if a.phase = .waiting then
        some ({ s with permits := s.permits.withdraw task }.setPhase task a .cancelled)
      else none
    | none => none
  | .release task =>
    match s.tasks.get? task with
    | some a =>
      if a.phase = .held then some ({ s with permits := s.permits.giveBack }.setPhase task a .released) else none
    | none => none
  | .fire token => some { s with fired := token :: s.fired }

/-- The first task, in the order of arrival, that can run. -/
def runnable? (s : Semaphore κ τ) : Option (Semaphore κ τ) := s.tasks.keys.findSome? fun task => s.step (.turn task)

/-- Lets tasks run until none can, at most `fuel` turns. -/
def settleWithin : Nat → Semaphore κ τ → Semaphore κ τ
  | 0, s => s
  | fuel + 1, s => match s.runnable? with
    | some s => settleWithin fuel s
    | none => s

/-- Lets tasks run until none can; each runs at most once. -/
def settle (s : Semaphore κ τ) : Semaphore κ τ := settleWithin s.tasks.size s

/-- Takes a step if it can be taken, after which all tasks run that can. -/
def perform (s : Semaphore κ τ) (label : SemaphoreStep κ τ) : Semaphore κ τ := ((s.step label).getD s).settle

end Semaphore

end PushMetrics.Agent
