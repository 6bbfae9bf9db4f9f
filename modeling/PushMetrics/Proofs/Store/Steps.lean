import PushMetrics.Proofs.Dict
import PushMetrics.Proofs.Permits
import PushMetrics.Store.Layered

/-!
# What a step of a layer is

A step of a layer begins an operation, moves one on, drops one, carries a snapshot on, or is one of the periodic task.
Each of them is told once, with what it needs and what it leads to.
-/

namespace PushMetrics

open Snapshot

def OperationStage.dump? : OperationStage → Option DumpStage
  | dumping stage => some stage
  | _ => none

def Flusher.dump? : Flusher → Option DumpStage
  | dumping stage => some stage
  | _ => none

namespace Layered

/-- How far the snapshot is that a dumper is making. -/
def dump? (s : Layered) : Dumper → Option DumpStage
  | .flusher => s.flusher.dump?
  | .operation id => (s.operations.get? id).bind (·.2.dump?)

def setDump (s : Layered) (k : Dumper) (stage : DumpStage) : Layered :=
  match k with
  | .flusher => { s with flusher := .dumping stage }
  | .operation id => match s.operations.get? id with
    | some (o, _) => s.setStage id o (.dumping stage)
    | none => s

variable {s t u : Layered} {j k : Dumper} {a b : DumpStage} {id : Nat} {o : Operation}
  {stage next : OperationStage} {label : LayeredStep}

theorem dump?_setStage (s : Layered) (id : Nat) (o : Operation) (stage : OperationStage) (k : Dumper) :
    (s.setStage id o stage).dump? k = if k = .operation id then stage.dump? else s.dump? k := by
  cases k with
  | flusher => rfl
  | operation n =>
      by_cases hn : id = n
      · simp [dump?, setStage, hn]
      · simp [dump?, setStage, hn, Ne.symm hn]

theorem dump?_setDump (hk : s.dump? k = some a) (b : DumpStage) (j : Dumper) :
    (s.setDump k b).dump? j = if j = k then some b else s.dump? j := by
  cases k with
  | flusher => cases j <;> rfl
  | operation id =>
      obtain ⟨e, he, -⟩ := Option.bind_eq_some_iff.1 hk
      simp only [setDump, he, dump?_setStage]
      rfl

/-- Noting how far a snapshot is touches nothing that snapshots work on. -/
theorem setDump_eq (s : Layered) (k : Dumper) (b : DumpStage) :
    ∃ flusher operations, s.setDump k b = { s with flusher, operations } := by
  cases k with
  | flusher => exact ⟨_, _, rfl⟩
  | operation id =>
      simp only [setDump]
      split
      · exact ⟨_, _, rfl⟩
      · exact ⟨_, _, rfl⟩

@[simp] theorem path_setDump : (s.setDump k b).path = s.path := by
  obtain ⟨_, _, h⟩ := s.setDump_eq k b
  rw [h]

@[simp] theorem memory_setDump : (s.setDump k b).memory = s.memory := by
  obtain ⟨_, _, h⟩ := s.setDump_eq k b
  rw [h]

@[simp] theorem applied_setDump : (s.setDump k b).applied = s.applied := by
  obtain ⟨_, _, h⟩ := s.setDump_eq k b
  rw [h]

@[simp] theorem disk_setDump : (s.setDump k b).disk = s.disk := by
  obtain ⟨_, _, h⟩ := s.setDump_eq k b
  rw [h]

@[simp] theorem outputs_setDump : (s.setDump k b).outputs = s.outputs := by
  obtain ⟨_, _, h⟩ := s.setDump_eq k b
  rw [h]

@[simp] theorem fileLock_setDump : (s.setDump k b).fileLock = s.fileLock := by
  obtain ⟨_, _, h⟩ := s.setDump_eq k b
  rw [h]

theorem dump?_operation (hid : s.operations.get? id = some (o, stage)) : s.dump? (.operation id) = stage.dump? := by
  rw [dump?, hid]
  rfl

/-! ## The steps of snapshots -/

/-- A step of a snapshot that `k` makes: from which stage, to what layer, and to which stage. -/
inductive DumpMoves (s : Layered) (k : Dumper) : DumpStage → Layered → DumpStage → Prop where
  | enter (hfree : 0 < s.fileLock.free) :
      DumpMoves s k .asking { s with fileLock := (s.fileLock.request k).2 } .checking
  | queue (hfree : s.fileLock.free = 0) :
      DumpMoves s k .asking { s with fileLock := (s.fileLock.request k).2 } .waiting
  | collect (hgranted : k ∈ s.fileLock.granted) :
      DumpMoves s k .waiting { s with fileLock := s.fileLock.collect k } .checking
  | proceed (hopen : s.memory.isOpen = true) : DumpMoves s k .checking s .listing
  | refuse (hopen : s.memory.isOpen = false) : DumpMoves s k .checking s (.unlocking (.error .closed))
  | list {names : List String} (hnames : names.Perm s.memory.contents.keys) :
      DumpMoves s k .listing s (.collecting ⟨.check names, []⟩ [])
  | produce {source next : Enumeration} {got : List Metric} (hproduce : source.produce s.memory = some next) :
      DumpMoves s k (.collecting source got) s (.collecting next got)
  | take {source next : Enumeration} {got : List Metric} {m : Metric} (htake : source.take = some (.ok m, next)) :
      DumpMoves s k (.collecting source got) s (.collecting next (got ++ [m]))
  | giveUp {source next : Enumeration} {got : List Metric} {e : StorageError}
      (htake : source.take = some (.error e, next)) :
      DumpMoves s k (.collecting source got) s (.unlocking (.error e))
  | outline {source : Enumeration} {got : List Metric} (htake : source.take = none)
      (hfinished : source.producer = .finished) :
      DumpMoves s k (.collecting source got) (s.outline got).1 (s.outline got).2
  | file {count : Nat} {step : FileStep} {rest : List FileStep} {disk : Disk} (hstep : step.apply s.disk = .ok disk) :
      DumpMoves s k (.filing count (step :: rest)) { s with disk } (.filing count rest)
  | part {count : Nat} {p : Path} {bytes : List UInt8} {rest : List FileStep} {disk : Disk} (n : Nat)
      (hstep : (FileStep.append p (bytes.take n)).apply s.disk = .ok disk) :
      DumpMoves s k (.filing count (.append p bytes :: rest)) { s with disk }
        (.filing count (.append p (bytes.drop n) :: rest))
  | fault {count : Nat} {step : FileStep} {rest : List FileStep} (fault : IoFault) :
      DumpMoves s k (.filing count (step :: rest)) s (.unlocking (.error (.io fault)))
  | finish {count : Nat} : DumpMoves s k (.filing count []) s (.unlocking (.ok count))
  | unlock {result : Except StorageError Nat} :
      DumpMoves s k (.unlocking result) { s with fileLock := s.fileLock.giveBack } (.ended result)

theorem dumpMoves_of_dumpStep {label : DumpStep} (h : s.dumpStep k a label = some (u, b)) : DumpMoves s k a u b := by
  unfold dumpStep at h
  split at h
  · by_cases hfree : 0 < s.fileLock.free
    · have hmove := DumpMoves.enter (k := k) hfree
      simp only [Permits.request, hfree, ↓reduceIte] at h hmove
      cases h
      exact hmove
    · have hmove := DumpMoves.queue (k := k) (Nat.eq_zero_of_not_pos hfree)
      simp only [Permits.request, hfree, Bool.false_eq_true, ↓reduceIte] at h hmove
      cases h
      exact hmove
  · split at h
    · rename_i hgranted
      cases h
      exact .collect (Permits.isGranted_iff.1 hgranted)
    · cases h
  · cases hopen : s.memory.isOpen with
    | true =>
        simp only [hopen, ↓reduceIte] at h
        cases h
        exact .proceed hopen
    | false =>
        simp only [hopen, Bool.false_eq_true, ↓reduceIte] at h
        cases h
        exact .refuse hopen
  · split at h
    · rename_i hnames
      cases h
      exact .list (List.isPerm_iff.1 hnames)
    · cases h
  · obtain ⟨next, hproduce, hnext⟩ := Option.map_eq_some_iff.1 h
    cases hnext
    exact .produce hproduce
  · unfold collect at h
    split at h
    · rename_i htake
      cases h
      exact .take htake
    · rename_i htake
      cases h
      exact .giveUp htake
    · rename_i htake
      split at h
      · rename_i hfinished
        cases h
        exact .outline htake hfinished
      · cases h
  · rename_i count steps
    cases steps with
    | nil =>
        cases h
        exact .finish
    | cons step rest =>
        simp only [file] at h
        split at h
        · rename_i hstep
          cases h
          exact .file hstep
        · cases h
          exact .fault _
  · simp only [file] at h
    split at h
    · rename_i hstep
      cases h
      exact .part _ hstep
    · cases h
      exact .fault _
  · cases h
    exact .fault _
  · cases h
    exact .unlock
  · cases h

theorem DumpMoves.eq (h : DumpMoves s k a u b) : ∃ fileLock disk outputs, u = { s with fileLock, disk, outputs } := by
  cases h <;> exact ⟨_, _, _, rfl⟩

theorem DumpMoves.operations (h : DumpMoves s k a u b) : u.operations = s.operations := by
  cases h <;> rfl

theorem DumpMoves.dump?_setDump (h : DumpMoves s k a u b) (hk : s.dump? k = some a) (j : Dumper) :
    (u.setDump k b).dump? j = if j = k then some b else s.dump? j := by
  have hu : u.dump? = s.dump? := by
    funext j
    cases h <;> rfl
  rw [← hu] at hk ⊢
  exact Layered.dump?_setDump hk b j

theorem dropDump_eq (s : Layered) (k : Dumper) (a : DumpStage) : ∃ fileLock, s.dropDump k a = { s with fileLock } := by
  cases a <;> exact ⟨_, rfl⟩

/-! ## The steps of operations -/

/-- What an operation does besides making its snapshot: from which stage, to what layer, and to which stage. -/
inductive OperationMoves (s : Layered) (id : Nat) : Operation → OperationStage → Layered → OperationStage → Prop where
  | win (hopen : s.isOpen = true) :
      OperationMoves s id .close .entering { s with isOpen := false, cancelled := true } .joining
  | enter {change : Change} (hopen : s.isOpen = true) : OperationMoves s id (.write change) .entering s .checking
  | ask (hopen : s.isOpen = true) : OperationMoves s id .dump .entering s (.dumping .asking)
  | turnAway {o : Operation} (hopen : s.isOpen = false) :
      OperationMoves s id o .entering s (.ended (.error .closed) none)
  | pass {o : Operation} (hopen : s.memory.isOpen = true) : OperationMoves s id o .checking s .changing
  | refuse {o : Operation} (hopen : s.memory.isOpen = false) :
      OperationMoves s id o .checking s (.ended (.error .closed) none)
  | change {change : Change} :
      OperationMoves s id (.write change) .changing
        { s with memory := { s.memory with contents := change.applyTo s.memory.contents },
                 applied := s.applied ++ [(id, change)] }
        (if s.writeThrough then .dumping .asking else .ended (.ok ()) none)
  | join {o : Operation} (hstopped : s.flusher = .stopped) : OperationMoves s id o .joining s (.dumping .asking)
  | finish {o : Operation} {r : Except StorageError Nat} :
      OperationMoves s id o (.dumping (.ended r)) s (afterDump o r)
  | shut {o : Operation} {r : Except StorageError Nat} (hopen : s.memory.isOpen = true) :
      OperationMoves s id o (.shutting r) { s with memory := { s.memory with isOpen := false } } (.clearing r)
  | shutTwice {o : Operation} {r : Except StorageError Nat} (hopen : s.memory.isOpen = false) :
      OperationMoves s id o (.shutting r) s (.ended (r.bind fun _ => .error .closed) (some r))
  | clear {o : Operation} {r : Except StorageError Nat} :
      OperationMoves s id o (.clearing r) { s with memory := { s.memory with contents := Dict.empty } }
        (.ended (r.map fun _ => ()) (some r))

theorem operationMoves_of_advance (h : s.advance id o stage = some t) :
    ∃ u next, OperationMoves s id o stage u next ∧ t = u.setStage id o next := by
  unfold advance at h
  dsimp only at h
  split at h
  · cases hopen : s.isOpen with
    | true =>
        simp only [hopen, ↓reduceIte] at h
        cases h
        exact ⟨_, _, .win hopen, rfl⟩
    | false =>
        simp only [hopen, Bool.false_eq_true, ↓reduceIte] at h
        cases h
        exact ⟨_, _, .turnAway hopen, rfl⟩
  · cases hopen : s.isOpen with
    | true =>
        simp only [hopen, ↓reduceIte] at h
        cases h
        exact ⟨_, _, .enter hopen, rfl⟩
    | false =>
        simp only [hopen, Bool.false_eq_true, ↓reduceIte] at h
        cases h
        exact ⟨_, _, .turnAway hopen, rfl⟩
  · cases hopen : s.isOpen with
    | true =>
        simp only [hopen, ↓reduceIte] at h
        cases h
        exact ⟨_, _, .ask hopen, rfl⟩
    | false =>
        simp only [hopen, Bool.false_eq_true, ↓reduceIte] at h
        cases h
        exact ⟨_, _, .turnAway hopen, rfl⟩
  · cases hopen : s.memory.isOpen with
    | true =>
        simp only [hopen, ↓reduceIte] at h
        cases h
        exact ⟨_, _, .pass hopen, rfl⟩
    | false =>
        simp only [hopen, Bool.false_eq_true, ↓reduceIte] at h
        cases h
        exact ⟨_, _, .refuse hopen, rfl⟩
  · cases h
    exact ⟨_, _, .change, rfl⟩
  · split at h
    · rename_i hstopped
      cases h
      exact ⟨_, _, .join hstopped, rfl⟩
    · cases h
  · cases h
    exact ⟨_, _, .finish, rfl⟩
  · cases hopen : s.memory.isOpen with
    | true =>
        simp only [hopen, ↓reduceIte] at h
        cases h
        exact ⟨_, _, .shut hopen, rfl⟩
    | false =>
        simp only [hopen, Bool.false_eq_true, ↓reduceIte] at h
        cases h
        exact ⟨_, _, .shutTwice hopen, rfl⟩
  · cases h
    exact ⟨_, _, .clear, rfl⟩
  · cases h

/-- Where the periodic task is between two snapshots. -/
inductive FlusherMoves (s : Layered) : Flusher → Prop where
  | flush (hidle : s.flusher = .idle) : FlusherMoves s (.dumping .asking)
  | flushed {r : Except StorageError Nat} (hended : s.flusher = .dumping (.ended r)) : FlusherMoves s .idle
  | stop (hidle : s.flusher = .idle) : FlusherMoves s .stopped

/-- What a step of a layer is. -/
inductive Happens (s : Layered) : LayeredStep → Layered → Prop where
  | begin {id : Nat} {o : Operation} (hnew : s.operations.get? id = none) :
      Happens s (.begin id o) (s.setStage id o .entering)
  | move {id : Nat} {o : Operation} {stage next : OperationStage} {u : Layered}
      (hid : s.operations.get? id = some (o, stage)) (hmove : OperationMoves s id o stage u next) :
      Happens s (.advance id) (u.setStage id o next)
  | dump {label : LayeredStep} {k : Dumper} {a b : DumpStage} {u : Layered} (hk : s.dump? k = some a)
      (hmove : DumpMoves s k a u b) : Happens s label (u.setDump k b)
  | dropDump {label : LayeredStep} {id : Nat} {o : Operation} {a : DumpStage}
      (hid : s.operations.get? id = some (o, .dumping a)) :
      Happens s label ((s.dropDump (.operation id) a).setStage id o .dropped)
  | drop {label : LayeredStep} {id : Nat} {o : Operation} {stage : OperationStage}
      (hid : s.operations.get? id = some (o, stage)) (hstage : stage.dump? = none) :
      Happens s label (s.setStage id o .dropped)
  | flusher {label : LayeredStep} {flusher : Flusher} (hmove : FlusherMoves s flusher) :
      Happens s label { s with flusher }

/-- What a step is that the layer takes by itself. -/
inductive Proceeds (s : Layered) : LayeredStep → Layered → Prop where
  | move {id : Nat} {o : Operation} {stage next : OperationStage} {u : Layered}
      (hid : s.operations.get? id = some (o, stage)) (hmove : OperationMoves s id o stage u next) :
      Proceeds s (.advance id) (u.setStage id o next)
  | dump {label : LayeredStep} {k : Dumper} {a b : DumpStage} {u : Layered} (hk : s.dump? k = some a)
      (hmove : DumpMoves s k a u b) : Proceeds s label (u.setDump k b)
  | flusher {label : LayeredStep} {flusher : Flusher} (hmove : FlusherMoves s flusher) :
      Proceeds s label { s with flusher }

theorem Proceeds.happens (h : Proceeds s label t) : Happens s label t := by
  cases h with
  | move hid hmove => exact .move hid hmove
  | dump hk hmove => exact .dump hk hmove
  | flusher hmove => exact .flusher hmove

theorem proceeds_of_step (hlabel : label.isOwn) (h : s.step label = some t) : Proceeds s label t := by
  unfold step at h
  split at h
  · cases hlabel
  · obtain ⟨⟨o, stage⟩, hid, hadvance⟩ := Option.bind_eq_some_iff.1 h
    obtain ⟨u, next, hmove, rfl⟩ := operationMoves_of_advance hadvance
    exact .move hid hmove
  · cases hlabel
  · rename_i id inner
    split at h
    · rename_i hid
      obtain ⟨⟨u, b⟩, hstep, rfl⟩ := Option.map_eq_some_iff.1 h
      have hmove := dumpMoves_of_dumpStep hstep
      have hproceeds : Proceeds s (.dump id inner) (u.setDump (.operation id) b) := .dump (dump?_operation hid) hmove
      simp only [setDump, hmove.operations, hid] at hproceeds
      exact hproceeds
    · cases h
  · split at h
    · rename_i hidle
      cases h
      exact .flusher (.flush hidle)
    · cases h
  · split at h
    · rename_i hdumping
      obtain ⟨⟨u, b⟩, hstep, rfl⟩ := Option.map_eq_some_iff.1 h
      exact .dump (k := .flusher) (congrArg Flusher.dump? hdumping) (dumpMoves_of_dumpStep hstep)
    · cases h
  · split at h
    · rename_i hended
      cases h
      exact .flusher (.flushed hended)
    · cases h
  · split at h
    · rename_i hidle
      split at h
      · cases h
        exact .flusher (.stop hidle)
      · cases h
    · cases h

theorem happens_of_step (h : s.step label = some t) : Happens s label t := by
  cases hlabel : label.isOwn with
  | true => exact (proceeds_of_step hlabel h).happens
  | false =>
      cases label with
      | begin id o =>
          simp only [step] at h
          split at h
          · cases h
          · rename_i hnew
            cases h
            exact .begin (Option.not_isSome_iff_eq_none.1 hnew)
      | drop id =>
          obtain ⟨⟨o, stage⟩, hid, hdrop⟩ := Option.bind_eq_some_iff.1 h
          cases stage with
          | dumping a =>
              cases hdrop
              exact .dropDump hid
          | ended answer dumped => cases hdrop
          | dropped => cases hdrop
          | _ =>
              cases hdrop
              exact .drop hid rfl
      | _ => cases hlabel

theorem new_of_begin (h : s.step (.begin id o) = some t) : s.operations.get? id = none := by
  simp only [step] at h
  split at h
  · cases h
  · rename_i hnew
    exact Option.not_isSome_iff_eq_none.1 hnew

theorem of_get?_setStage {j : Nat} {o' : Operation} {stage' : OperationStage}
    (h : (s.setStage id o stage).operations.get? j = some (o', stage')) :
    id = j ∧ o = o' ∧ stage = stage' ∨ id ≠ j ∧ s.operations.get? j = some (o', stage') := by
  refine (Dict.of_get?_put h).imp_left fun ⟨hid, he⟩ => ?_
  cases he
  exact ⟨hid, rfl, rfl⟩

theorem operation_of_dump? (h : s.dump? (.operation id) = some a) :
    ∃ o, s.operations.get? id = some (o, .dumping a) := by
  obtain ⟨⟨o, stage⟩, hid, hstage⟩ := Option.bind_eq_some_iff.1 h
  cases stage with
  | dumping b =>
      cases hstage
      exact ⟨o, hid⟩
  | _ => cases hstage

/-- After the step of a snapshot every operation is where it was, but for the one that makes the snapshot. -/
theorem of_get?_setDump (hk : s.dump? k = some a) (h : (s.setDump k b).operations.get? id = some (o, stage)) :
    s.operations.get? id = some (o, stage) ∨
      k = .operation id ∧ stage = .dumping b ∧ s.operations.get? id = some (o, .dumping a) := by
  cases k with
  | flusher => exact .inl h
  | operation j =>
      obtain ⟨o', hj⟩ := operation_of_dump? hk
      simp only [setDump, hj] at h
      obtain ⟨rfl, rfl, rfl⟩ | ⟨-, h⟩ := of_get?_setStage h
      · exact .inr ⟨rfl, rfl, hj⟩
      · exact .inl h

theorem OperationMoves.operations (h : OperationMoves s id o stage u next) : u.operations = s.operations := by
  cases h <;> rfl

/-- How an operation has come to a stage by a step of the layer. -/
inductive Comes (s : Layered) (label : LayeredStep) (id : Nat) (o : Operation) (t : Layered) :
    OperationStage → Prop where
  | stayed {stage : OperationStage} (hid : s.operations.get? id = some (o, stage)) : Comes s label id o t stage
  | begun (hlabel : label = .begin id o) : Comes s label id o t .entering
  | moved {stage next : OperationStage} {u : Layered} (hid : s.operations.get? id = some (o, stage))
      (hmove : OperationMoves s id o stage u next) (ht : t = u.setStage id o next) : Comes s label id o t next
  | dumped {a b : DumpStage} {u : Layered} (hid : s.operations.get? id = some (o, .dumping a))
      (hmove : DumpMoves s (.operation id) a u b) (ht : t = u.setDump (.operation id) b) :
      Comes s label id o t (.dumping b)
  | dropped {stage : OperationStage} (hid : s.operations.get? id = some (o, stage)) : Comes s label id o t .dropped

theorem Comes.before (h : Comes s label id o t stage) :
    label = .begin id o ∨ ∃ before, s.operations.get? id = some (o, before) := by
  cases h with
  | begun hlabel => exact .inl hlabel
  | stayed hid | moved hid | dumped hid | dropped hid => exact .inr ⟨_, hid⟩

theorem comes_of_happens (h : Happens s label t) (hid : t.operations.get? id = some (o, stage)) :
    Comes s label id o t stage := by
  cases h with
  | begin hnew =>
      obtain ⟨rfl, rfl, rfl⟩ | ⟨-, hid⟩ := of_get?_setStage hid
      · exact .begun rfl
      · exact .stayed hid
  | move hold hmove =>
      obtain ⟨rfl, rfl, rfl⟩ | ⟨-, hid⟩ := of_get?_setStage hid
      · exact .moved hold hmove rfl
      · exact .stayed (hmove.operations ▸ hid)
  | @dump _ k a b u hk hmove =>
      have hdump : u.dump? k = some a := by
        obtain ⟨_, _, _, rfl⟩ := hmove.eq
        exact hk
      rcases of_get?_setDump hdump hid with hsame | ⟨rfl, rfl, hbefore⟩
      · exact .stayed (hmove.operations ▸ hsame)
      · exact .dumped (hmove.operations ▸ hbefore) hmove rfl
  | @dropDump _ j o' a hj =>
      obtain ⟨_, heq⟩ := dropDump_eq s (.operation j) a
      rw [heq] at hid ⊢
      obtain ⟨rfl, rfl, rfl⟩ | ⟨-, hid⟩ := of_get?_setStage hid
      · exact .dropped hj
      · exact .stayed hid
  | drop hj hstage =>
      obtain ⟨rfl, rfl, rfl⟩ | ⟨-, hid⟩ := of_get?_setStage hid
      · exact .dropped hj
      · exact .stayed hid
  | flusher hmove => exact .stayed hid

end Layered

end PushMetrics
