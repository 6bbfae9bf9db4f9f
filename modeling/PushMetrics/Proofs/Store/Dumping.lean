import PushMetrics.Proofs.Store.Steps

/-!
# Who makes snapshots

The periodic task and the operations of a layer make snapshots; one of them at a time has the file lock. What a step
of a layer does to them is told once: it carries on one snapshot, drops one, or leaves all that have the lock alone.
-/

namespace PushMetrics

open Snapshot

/-- Whether a snapshot has the file lock. -/
def DumpStage.holds : DumpStage → Bool
  | asking | waiting | ended _ => false
  | checking | listing | collecting _ _ | filing _ _ | unlocking _ => true

namespace Layered

/-- Whether a snapshot is being made that has the file lock. -/
def Holding (stage : Option DumpStage) : Bool := stage.any (·.holds)

/-- How many snapshots have the file lock. -/
def holders (s : Layered) : Nat :=
  s.operations.count (fun o => Holding o.2.dump?) + (Holding s.flusher.dump?).toNat

variable {s t u : Layered} {j k : Dumper} {a b : DumpStage} {id : Nat} {o : Operation}
  {stage next : OperationStage} {label : LayeredStep}

theorem holding_iff {stage : Option DumpStage} : Holding stage ↔ ∃ a, stage = some a ∧ a.holds := by
  cases stage <;> simp [Holding]

theorem holders_setStage (s : Layered) (id : Nat) (o : Operation) (stage : OperationStage) :
    (s.setStage id o stage).holders + (Holding (s.dump? (.operation id))).toNat
      = s.holders + (Holding stage.dump?).toNat := by
  have hcount := Dict.count_put (fun o : Operation × OperationStage => Holding o.2.dump?) s.operations id (o, stage)
  have hbefore : (s.operations.get? id).toList.countP (fun o => Holding o.2.dump?)
      = (Holding (s.dump? (.operation id))).toNat := by
    cases h : s.operations.get? id with
    | none => simp [dump?, h, Holding]
    | some e =>
        simp only [dump?, h, Option.bind_some, Option.toList_some, List.countP_singleton]
        cases Holding e.2.dump? <;> rfl
  have hafter : [(o, stage)].countP (fun o => Holding o.2.dump?) = (Holding stage.dump?).toNat := by
    rw [List.countP_singleton]
    cases Holding stage.dump? <;> rfl
  simp only [holders, setStage] at hcount ⊢
  omega

theorem holders_setDump (hk : s.dump? k = some a) (b : DumpStage) :
    (s.setDump k b).holders + a.holds.toNat = s.holders + b.holds.toNat := by
  cases k with
  | flusher =>
      have hflusher : Holding s.flusher.dump? = a.holds := by
        rw [show s.flusher.dump? = some a from hk]
        rfl
      have hafter : Holding (Flusher.dump? (.dumping b)) = b.holds := rfl
      simp only [holders, setDump, hflusher, hafter]
      omega
  | operation id =>
      obtain ⟨e, he, -⟩ := Option.bind_eq_some_iff.1 hk
      have hset := s.holders_setStage id e.1 (.dumping b)
      rw [hk] at hset
      simp only [setDump, he]
      exact hset

/-! ## Exclusion -/

theorem holders_pos (hk : s.dump? k = some a) (ha : a.holds) : 0 < s.holders := by
  have hset := holders_setDump hk (.ended (.ok 0))
  rw [ha] at hset
  simp only [Bool.toNat_true, DumpStage.holds, Bool.toNat_false] at hset
  omega

/-- Where at most one snapshot has the lock, it is known whose it is. -/
theorem eq_of_holders_le_one (h : s.holders ≤ 1) (hj : Holding (s.dump? j)) (hk : Holding (s.dump? k)) : j = k := by
  obtain ⟨a, hja, ha⟩ := holding_iff.1 hj
  obtain ⟨b, hkb, hb⟩ := holding_iff.1 hk
  by_contra hne
  have hset := holders_setDump hja (.ended (.ok 0))
  have hkept : (s.setDump j (.ended (.ok 0))).dump? k = some b := by rw [dump?_setDump hja, if_neg (Ne.symm hne), hkb]
  have hpos := holders_pos hkept hb
  rw [ha] at hset
  simp only [Bool.toNat_true, DumpStage.holds, Bool.toNat_false] at hset
  omega

/-- `t` differs from `s` in nothing that the snapshots with the file lock work on. -/
structure Quiet (s t : Layered) : Prop where
  path : t.path = s.path
  outputs : t.outputs = s.outputs
  fileLock : t.fileLock = s.fileLock
  holders : t.holders = s.holders
  file : t.disk.item? s.path.named = s.disk.item? s.path.named
  temporary : t.disk.item? (temporary s.path) = s.disk.item? (Snapshot.temporary s.path)
  dumps : ∀ k a, a.holds → (t.dump? k = some a ↔ s.dump? k = some a)

theorem Quiet.refl (s : Layered) : Quiet s s := ⟨rfl, rfl, rfl, rfl, rfl, rfl, fun _ _ _ => Iff.rfl⟩

theorem Quiet.setStage (h : Quiet s t) (hid : Holding (t.dump? (.operation id)) = false)
    (hstage : Holding stage.dump? = false) (o : Operation) : Quiet s (t.setStage id o stage) := by
  refine ⟨h.path, h.outputs, h.fileLock, ?_, h.file, h.temporary, fun k a ha => ?_⟩
  · have hset := t.holders_setStage id o stage
    rw [hid, hstage, h.holders] at hset
    exact Nat.add_right_cancel hset
  · rw [dump?_setStage, ← h.dumps k a ha]
    split
    · rename_i hk
      constructor
      · intro hdump
        simp [Holding, hdump, ha] at hstage
      · intro hdump
        simp [Holding, ← hk, hdump, ha] at hid
    · rfl

theorem quiet_inner (s : Layered) (memory : Memory) (isOpen cancelled : Bool) (applied : List (Nat × Change)) :
    Quiet s { s with memory, isOpen, cancelled, applied } :=
  ⟨rfl, rfl, rfl, rfl, rfl, rfl, fun _ _ _ => Iff.rfl⟩

/-- Whatever an operation does besides making its snapshot, it begins and ends in stages without the file lock. -/
theorem quiet_move (hid : s.operations.get? id = some (o, stage)) (hmove : OperationMoves s id o stage u next) :
    Quiet s (u.setStage id o next) := by
  have hdump := dump?_operation hid
  have hinner : Holding stage.dump? = false → ∀ memory isOpen cancelled applied next, Holding next.dump? = false →
      Quiet s (setStage { s with memory, isOpen, cancelled, applied } id o next) := by
    intro hstage memory isOpen cancelled applied next hnext
    refine (quiet_inner s memory isOpen cancelled applied).setStage ?_ hnext o
    rw [← hstage, ← hdump]
    rfl
  cases hmove with
  | change =>
      refine hinner rfl _ _ _ _ _ ?_
      split <;> rfl
  | finish =>
      refine hinner rfl _ _ _ _ _ ?_
      cases o <;> rfl
  | _ => exact hinner rfl _ _ _ _ _ rfl

/-- The periodic task begins a snapshot, goes back to waiting, or stops. -/
theorem quiet_flusher (hbefore : Holding s.flusher.dump? = false) {flusher : Flusher}
    (hafter : Holding flusher.dump? = false) : Quiet s { s with flusher } := by
  refine ⟨rfl, rfl, rfl, ?_, rfl, rfl, fun k a ha => ?_⟩
  · simp only [holders, hbefore, hafter]
  · cases k with
    | operation id => exact Iff.rfl
    | flusher =>
        constructor
        · intro (hdump : flusher.dump? = some a)
          simp [Holding, hdump, ha] at hafter
        · intro (hdump : s.flusher.dump? = some a)
          simp [Holding, hdump, ha] at hbefore

/-- What a step does to those who make snapshots. -/
inductive Effect (s : Layered) : Layered → Prop where
  | dump {k : Dumper} {a b : DumpStage} {u : Layered} (hk : s.dump? k = some a) (hmove : DumpMoves s k a u b) :
      Effect s (u.setDump k b)
  | drop {id : Nat} {o : Operation} {a : DumpStage} (hid : s.operations.get? id = some (o, .dumping a)) :
      Effect s ((s.dropDump (.operation id) a).setStage id o .dropped)
  | quiet {t : Layered} (h : Quiet s t) : Effect s t

theorem effect_of_happens (h : Happens s label t) : Effect s t := by
  cases h with
  | begin hnew => exact .quiet ((Quiet.refl s).setStage (by simp [dump?, hnew, Holding]) rfl _)
  | move hid hmove => exact .quiet (quiet_move hid hmove)
  | dump hk hmove => exact .dump hk hmove
  | dropDump hid => exact .drop hid
  | drop hid hstage => exact .quiet ((Quiet.refl s).setStage (by rw [dump?_operation hid, hstage]; rfl) rfl _)
  | flusher hmove =>
      cases hmove with
      | flush hidle => exact .quiet (quiet_flusher (by simp [hidle, Flusher.dump?, Holding]) rfl)
      | flushed hended => exact .quiet (quiet_flusher (by simp [hended, Flusher.dump?, Holding, DumpStage.holds]) rfl)
      | stop hidle => exact .quiet (quiet_flusher (by simp [hidle, Flusher.dump?, Holding]) rfl)

theorem effect_of_step (h : s.step label = some t) : Effect s t := effect_of_happens (happens_of_step h)

/-! ## The lock -/

/-- The file lock is free, granted or held by one snapshot. -/
def Locked (s : Layered) : Prop := s.fileLock.Balanced 1 s.holders

theorem locked_fresh (path : Path) (writeThrough : Bool) (memory : Memory) (disk : Disk) :
    (fresh path writeThrough memory disk).Locked := by
  have hholders : (fresh path writeThrough memory disk).holders = 0 := by
    cases writeThrough <;> rfl
  rw [Locked, hholders]
  exact Permits.balanced_full 1

theorem Locked.exclusive (h : s.Locked) (hj : Holding (s.dump? j)) (hk : Holding (s.dump? k)) : j = k := by
  have htotal := h.total
  exact eq_of_holders_le_one (by omega) hj hk

theorem Locked.relock (hk : s.dump? k = some a) {fileLock : Permits Dumper} {disk : Disk}
    {outputs : List (List UInt8)}
    (hlock : ∀ held, held + a.holds.toNat = s.holders + b.holds.toNat → fileLock.Balanced 1 held) :
    (setDump { s with fileLock, disk, outputs } k b).Locked := by
  rw [Locked, fileLock_setDump]
  exact hlock _ (holders_setDump (s := { s with fileLock, disk, outputs }) hk b)

/-- A snapshot that has the lock and keeps it may write and move files. -/
theorem Locked.keep (h : s.Locked) (hk : s.dump? k = some a) (ha : a.holds) (hb : b.holds) {disk : Disk}
    {outputs : List (List UInt8)} : (setDump { s with disk, outputs } k b).Locked := by
  refine Locked.relock hk fun held heq => ?_
  rw [ha, hb] at heq
  exact Nat.add_right_cancel heq ▸ h

theorem Locked.move (h : s.Locked) (hk : s.dump? k = some a) (hmove : DumpMoves s k a u b) :
    (u.setDump k b).Locked := by
  cases hmove with
  | enter hfree =>
      refine Locked.relock hk fun held heq => ?_
      obtain rfl : held = s.holders + 1 := heq
      exact (Permits.Balanced.request_of_free h hfree k).2
  | queue hfree =>
      refine Locked.relock hk fun held heq => ?_
      obtain rfl : held = s.holders := heq
      exact (Permits.Balanced.request_of_full h hfree k).2
  | collect hgranted =>
      refine Locked.relock hk fun held heq => ?_
      obtain rfl : held = s.holders + 1 := heq
      exact Permits.Balanced.collect h hgranted
  | unlock =>
      refine Locked.relock hk fun held heq => ?_
      obtain heq : held + 1 = s.holders := heq
      rw [Locked, ← heq] at h
      exact h.giveBack
  | outline htake hfinished => exact h.keep (b := .filing _ _) hk rfl rfl
  | _ => exact h.keep hk rfl rfl

/-- A snapshot that is dropped gives back its place in the line or the lock. -/
theorem Locked.drop (h : s.Locked) (hid : s.operations.get? id = some (o, .dumping a)) :
    ((s.dropDump (.operation id) a).setStage id o .dropped).Locked := by
  have hdump := dump?_operation hid
  have hleave : ∀ fileLock, (∀ held, held + a.holds.toNat = s.holders → fileLock.Balanced 1 held) →
      (setStage { s with fileLock } id o .dropped).Locked := by
    intro fileLock hlock
    refine hlock _ ?_
    have hset := holders_setStage { s with fileLock } id o .dropped
    rw [show dump? { s with fileLock } (.operation id) = some a from hdump] at hset
    exact hset
  have hback : a.holds → ∀ held, held + a.holds.toNat = s.holders → s.fileLock.giveBack.Balanced 1 held := by
    intro ha held heq
    rw [ha] at heq
    rw [Locked, ← heq] at h
    exact h.giveBack
  cases a with
  | asking | ended =>
      refine hleave s.fileLock fun held heq => ?_
      obtain rfl : held = s.holders := heq
      exact h
  | waiting =>
      refine hleave _ fun held heq => ?_
      obtain rfl : held = s.holders := heq
      exact Permits.Balanced.withdraw h _
  | checking | listing | collecting | filing | unlocking => exact hleave _ (hback rfl)

theorem Locked.effect (h : s.Locked) (heffect : Effect s t) : t.Locked := by
  cases heffect with
  | dump hk hmove => exact h.move hk hmove
  | drop hid => exact h.drop hid
  | quiet hquiet =>
      rw [Locked, hquiet.fileLock, hquiet.holders]
      exact h

end Layered

end PushMetrics
