import PushMetrics.Permits

/-!
# The registry of named locks

The locks behind the names, each with the number of those who refer to it: the registry, as long as it keeps an entry
with the lock, and every call from when it has found the lock until it has let go of it. A sweep knows nothing of the
calls but these numbers. A call goes on in small steps, and anything may happen between two of them.
-/

namespace PushMetrics.Lock

/-- A lock, which is a pool of one permit, and how many refer to it. -/
structure SharedLock (κ : Type) where
  permits : Permits κ
  references : Nat

/-- The entry of a name: the number of its lock, and when it was last called. -/
structure Registered where
  lock : Nat
  lastAsked : Nat

inductive CallStage where
  | arriving
  | waiting
  | holding
  /-- The lock has been given back, or waiting given up, but the reference is still there. -/
  | leaving
  | over
deriving DecidableEq, Repr

structure Call where
  name : String
  lock : Nat
  stage : CallStage
deriving DecidableEq, Repr

/-- The locks made so far, the entries that are kept, and the calls. Times are in milliseconds. -/
structure Registry (κ : Type) where
  locks : List (SharedLock κ)
  entries : Dict String Registered
  calls : Dict κ Call
  ttl : Nat
  now : Nat

inductive RegistryStep (κ : Type) where
  /-- Finds or makes the entry of a name, and shares its lock. -/
  | call (k : κ) (name : String)
  | ask (k : κ)
  | turn (k : κ)
  | unlock (k : κ)
  | giveUp (k : κ)
  | forget (k : κ)
  /-- A sweep that has read the clock some time before. -/
  | sweep (delay : Nat)
  | wait (millis : Nat)
deriving Repr

/-- One reference less to the lock of an entry. -/
def dropReference {κ : Type} (locks : List (SharedLock κ)) (e : Registered) : List (SharedLock κ) :=
  locks.modify e.lock fun l => { l with references := l.references - 1 }

namespace Registry

variable {κ : Type} [DecidableEq κ]

def fresh (ttl : Nat) : Registry κ := ⟨[], Dict.empty, Dict.empty, ttl, 0⟩

def lock (r : Registry κ) (i : Nat) : SharedLock κ := r.locks.getD i ⟨.full 1, 0⟩

/-- Makes the entry of a name with a new lock, if it is not there. -/
def make (r : Registry κ) (name : String) : Registry κ :=
  if (r.entries.get? name).isSome then r
  else { r with
    locks := r.locks ++ [⟨.full 1, 1⟩]
    entries := r.entries.put name ⟨r.locks.length, r.now⟩ }

/-- A new call that shares the lock of an entry. -/
def share (r : Registry κ) (k : κ) (name : String) (e : Registered) : Registry κ :=
  { r with
    locks := r.locks.set e.lock { r.lock e.lock with references := (r.lock e.lock).references + 1 }
    entries := r.entries.put name { e with lastAsked := r.now }
    calls := r.calls.put k ⟨name, e.lock, .arriving⟩ }

/-- A call goes on to another stage and leaves its lock as given. -/
def move (r : Registry κ) (k : κ) (c : Call) (stage : CallStage) (l : SharedLock κ) : Registry κ :=
  { r with locks := r.locks.set c.lock l, calls := r.calls.put k { c with stage } }

def keeps (r : Registry κ) (clock : Nat) (e : Registered) : Bool :=
  1 < (r.lock e.lock).references || clock - e.lastAsked < r.ttl

def sweep (r : Registry κ) (clock : Nat) : Registry κ :=
  { r with
    locks := (r.entries.values.filter (!r.keeps clock ·)).foldl dropReference r.locks
    entries := r.entries.filter fun _ e => r.keeps clock e }

def step (r : Registry κ) : RegistryStep κ → Option (Registry κ)
  | .call k name =>
    if (r.calls.get? k).isSome then none
    else ((r.make name).entries.get? name).map ((r.make name).share k name)
  | .ask k =>
    match r.calls.get? k with
    | some ⟨name, i, .arriving⟩ =>
      let (now, permits) := (r.lock i).permits.request k
      some (r.move k ⟨name, i, .arriving⟩ (if now then .holding else .waiting) { r.lock i with permits })
    | _ => none
  | .turn k =>
    match r.calls.get? k with
    | some ⟨name, i, .waiting⟩ =>
      if (r.lock i).permits.isGranted k then
        some (r.move k ⟨name, i, .waiting⟩ .holding { r.lock i with permits := (r.lock i).permits.collect k })
      else none
    | _ => none
  | .unlock k =>
    match r.calls.get? k with
    | some ⟨name, i, .holding⟩ =>
      some (r.move k ⟨name, i, .holding⟩ .leaving { r.lock i with permits := (r.lock i).permits.giveBack })
    | _ => none
  | .giveUp k =>
    match r.calls.get? k with
    | some c =>
      if c.stage = .arriving ∨ c.stage = .waiting then
        some (r.move k c .leaving { r.lock c.lock with permits := (r.lock c.lock).permits.withdraw k })
      else none
    | none => none
  | .forget k =>
    match r.calls.get? k with
    | some ⟨name, i, .leaving⟩ =>
      some (r.move k ⟨name, i, .leaving⟩ .over { r.lock i with references := (r.lock i).references - 1 })
    | _ => none
  | .sweep delay => some (r.sweep (r.now - delay))
  | .wait millis => some { r with now := r.now + millis }

end Registry

end PushMetrics.Lock
