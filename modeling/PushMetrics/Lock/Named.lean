import PushMetrics.Permits

/-!
# Named locks

One lock per name, made when the name is first asked for. A sweep takes those entries away that nobody
holds or waits for and that have not been asked for during a while; an entry in use is never taken away, so
all who ask for one name meet at the same lock.
-/

namespace PushMetrics.Lock

inductive UserPhase where
  | waiting
  | held
  | released
  | gone
deriving DecidableEq, Repr

structure User where
  name : String
  phase : UserPhase
deriving DecidableEq, Repr

/-- The lock of a name, which is a pool of one permit, and when it was last asked for. -/
structure Entry (κ : Type) where
  permits : Permits κ
  lastAsked : Nat

/-- The locks, and those who asked for them. Times are in milliseconds. -/
structure NamedLocks (κ : Type) where
  entries : Dict String (Entry κ)
  users : Dict κ User
  ttl : Nat
  now : Nat

inductive LockStep (κ : Type) where
  | ask (user : κ) (name : String)
  | turn (user : κ)
  | release (user : κ)
  | leave (user : κ)
  | sweep
  | wait (millis : Nat)
deriving Repr

namespace NamedLocks

variable {κ : Type} [DecidableEq κ]

def fresh (ttl : Nat) : NamedLocks κ := ⟨Dict.empty, Dict.empty, ttl, 0⟩

def isUsed (l : NamedLocks κ) (name : String) : Bool :=
  l.users.values.any fun u => u.name == name && (u.phase == .waiting || u.phase == .held)

def changeEntry (l : NamedLocks κ) (name : String) (f : Permits κ → Permits κ) : NamedLocks κ :=
  match l.entries.get? name with
  | some e => { l with entries := l.entries.put name { e with permits := f e.permits } }
  | none => l

def setPhase (l : NamedLocks κ) (user : κ) (name : String) (phase : UserPhase) : NamedLocks κ :=
  { l with users := l.users.put user ⟨name, phase⟩ }

/-- The entry of a name, made if it is not there. -/
def entry (l : NamedLocks κ) (name : String) : Entry κ := (l.entries.get? name).getD ⟨.full 1, l.now⟩

def step (l : NamedLocks κ) : LockStep κ → Option (NamedLocks κ)
  | .ask user name =>
    if (l.users.get? user).isSome then none
    else
      let (now, permits) := (l.entry name).permits.request user
      some ({ l with entries := l.entries.put name ⟨permits, l.now⟩ }.setPhase user name
        (if now then .held else .waiting))
  | .turn user =>
    match l.users.get? user with
    | some ⟨name, .waiting⟩ =>
      if (l.entry name).permits.isGranted user then
        some ((l.changeEntry name (·.collect user)).setPhase user name .held)
      else none
    | _ => none
  | .release user =>
    match l.users.get? user with
    | some ⟨name, .held⟩ => some ((l.changeEntry name (·.giveBack)).setPhase user name .released)
    | _ => none
  | .leave user =>
    match l.users.get? user with
    | some ⟨name, .waiting⟩ => some ((l.changeEntry name (·.withdraw user)).setPhase user name .gone)
    | _ => none
  | .sweep =>
    some { l with entries := l.entries.filter fun name e => l.isUsed name || l.now < e.lastAsked + l.ttl }
  | .wait millis => some { l with now := l.now + millis }

/-- The first user, in the order of arrival, that can run. -/
def runnable? (l : NamedLocks κ) : Option (NamedLocks κ) :=
  l.users.keys.findSome? fun user => l.step (.turn user)

/-- Lets users run until none can, at most `fuel` turns. -/
def settleWithin : Nat → NamedLocks κ → NamedLocks κ
  | 0, l => l
  | fuel + 1, l => match l.runnable? with
    | some l => settleWithin fuel l
    | none => l

/-- Takes a step if it can be taken, after which all users run that can. -/
def perform (l : NamedLocks κ) (label : LockStep κ) : NamedLocks κ :=
  let l := (l.step label).getD l
  settleWithin l.users.size l

/-- Lets time pass until `target` with a sweep at each multiple of the time to live, at most `fuel` of them. -/
def advanceWithin : Nat → Nat → NamedLocks κ → NamedLocks κ
  | 0, target, l => { l with now := target }
  | fuel + 1, target, l =>
    let due := (l.now / l.ttl + 1) * l.ttl
    if l.ttl = 0 ∨ target < due then { l with now := target }
    else advanceWithin fuel target ({ l with now := due }.perform .sweep)

/-- Lets time pass until `target`. Without a time to live nothing is swept. -/
def advance (l : NamedLocks κ) (target : Nat) : NamedLocks κ := advanceWithin (target / l.ttl + 1) target l

end NamedLocks

end PushMetrics.Lock
