import PushMetrics.Proofs.Store.Exactness
import PushMetrics.Proofs.Store.Operations

/-!
# Closing a layer at rest

When all operations of a layer are over and one more closes it, nobody else makes a snapshot from the moment when the
periodic task has stopped. So the last snapshot is one of what the store held all the time, whatever the name of the
file is; and if the layer closes without an error, the file can be opened and has this content.
-/

namespace PushMetrics

open Snapshot

/-- A snapshot at this stage has put its file in place. -/
def DumpStage.isDone : DumpStage → Bool
  | .filing _ [] | .unlocking (.ok _) | .ended (.ok _) => true
  | _ => false

namespace Layered

variable {s t u : Layered} {c first : Contents} {k : Dumper} {a b : DumpStage} {id j : Nat} {o : Operation}
  {stage next : OperationStage} {label : LayeredStep}

/-- The file holds a snapshot of given contents, in a directory that exists. -/
def Published (s : Layered) (c : Contents) : Prop := s.Shows c ∧ s.disk.isDirectory s.path.parent

theorem DumpMoves.published (h : DumpMoves s k a u b) (ha : a.Exact s c) (hdone : a.isDone → s.Published c)
    (hb : b.isDone) : u.Published c := by
  cases h with
  | finish => exact hdone rfl
  | @unlock result => cases result <;> first | exact hdone rfl | cases hb
  | file hstep =>
      -- Of the steps of a publication only the last leaves none to carry out.
      obtain ⟨bytes, hbytes, hpublishing⟩ := ha
      cases hpublishing with
      | moving hfile =>
          obtain ⟨hnode, hparent⟩ := Disk.node?_rename hfile hstep
          exact ⟨⟨bytes, hbytes, hnode⟩, hparent⟩
      | _ => cases hb
  | _ => cases hb

/-- How far the operation is that closes the layer. The store has held the same all the time, and its snapshot is one of
that. -/
def Resting (c : Contents) (s : Layered) : OperationStage → Prop
  | .entering | .joining => s.memory = ⟨c, true⟩
  | .dumping a => s.flusher = .stopped ∧ s.memory = ⟨c, true⟩ ∧ a.Exact s c ∧ (a.isDone → s.Published c)
  | .shutting (.ok _) | .clearing (.ok _) | .ended (.ok _) _ => s.flusher = .stopped ∧ s.Published c
  | .shutting (.error _) | .clearing (.error _) | .ended (.error _) _ => True
  | .checking | .changing | .dropped => False

/-- What is known of the operation depends on the store, and on the disk once the periodic task has stopped. -/
theorem Resting.frame (h : s.Resting c stage) (hpath : t.path = s.path) (hmemory : t.memory = s.memory)
    (hstopped : s.flusher = .stopped → t.flusher = .stopped ∧ t.disk = s.disk) : t.Resting c stage := by
  have hpublished : t.disk = s.disk → s.Published c → t.Published c := fun hdisk hfile => by
    unfold Published Shows at hfile ⊢
    rwa [hdisk, hpath]
  unfold Resting at h ⊢
  split at h
  · exact hmemory.trans h
  · exact hmemory.trans h
  · obtain ⟨hflusher, hstore, hexact, hdone⟩ := h
    obtain ⟨hflusher, hdisk⟩ := hstopped hflusher
    exact ⟨hflusher, hmemory.trans hstore, hexact.congr hmemory hpath hdisk, fun ha => hpublished hdisk (hdone ha)⟩
  · exact ⟨(hstopped h.1).1, hpublished (hstopped h.1).2 h.2⟩
  · exact ⟨(hstopped h.1).1, hpublished (hstopped h.1).2 h.2⟩
  · exact ⟨(hstopped h.1).1, hpublished (hstopped h.1).2 h.2⟩
  all_goals trivial

/-- What the operation does besides making its snapshot. -/
theorem OperationMoves.resting (h : OperationMoves s id .close stage u next) (hrest : s.Resting c stage) :
    u.Resting c next := by
  cases h with
  | win hopen => exact hrest
  | turnAway | refuse | pass => trivial
  | join hstopped => exact ⟨hstopped, hrest, trivial, by rintro ⟨⟩⟩
  | @finish _ r =>
      cases r with
      | ok count => exact ⟨hrest.1, hrest.2.2.2 rfl⟩
      | error e => trivial
  | @shut _ r | @shutTwice _ r | @clear _ r => cases r <;> first | exact hrest | trivial

theorem DumpMoves.resting (h : DumpMoves s k a u b) (hrest : s.Resting c (.dumping a)) :
    u.Resting c (.dumping b) := by
  obtain ⟨hflusher, hstore, hexact, hdone⟩ := hrest
  have hb := h.exact hexact fun _ => congrArg Memory.contents hstore
  have hpublished := h.published hexact hdone
  obtain ⟨_, _, _, rfl⟩ := h.eq
  exact ⟨hflusher, hstore, hb, hpublished⟩

/-! ## Nobody else -/

/-- All operations are over but the one that closes the layer. -/
structure Concludes (c : Contents) (id : Nat) (s : Layered) : Prop where
  others : ∀ j o stage, s.operations.get? j = some (o, stage) → j ≠ id → stage.isOver
  last : ∃ stage, s.operations.get? id = some (.close, stage) ∧ s.Resting c stage

theorem OperationMoves.not_isOver (h : OperationMoves s id o stage u next) : stage.isOver = false := by
  cases h <;> rfl

/-- The operation that is not over is the one that closes the layer. -/
theorem Concludes.resting_of (h : s.Concludes c id) (hj : s.operations.get? j = some (o, stage))
    (hstage : stage.isOver = false) : j = id ∧ o = .close ∧ s.Resting c stage := by
  obtain ⟨last, hid, hrest⟩ := h.last
  have heq : j = id := by
    by_contra hne
    have hover := h.others j o stage hj hne
    rw [hstage] at hover
    cases hover
  subst heq
  cases hid.symm.trans hj
  exact ⟨rfl, rfl, hrest⟩

theorem Concludes.setStage (h : s.Concludes c id) (hu : u.operations = s.operations) (hrest : u.Resting c next) :
    (u.setStage id .close next).Concludes c id := by
  refine ⟨fun j o stage hj hne => ?_, next, Dict.get?_put_self _ _ _, hrest.frame rfl rfl fun h => ⟨h, rfl⟩⟩
  obtain ⟨rfl, -, -⟩ | ⟨-, hj⟩ := of_get?_setStage hj
  · exact absurd rfl hne
  · exact h.others j o stage (hu ▸ hj) hne

/-- The periodic task goes on, and may touch the disk as long as it has not stopped. -/
theorem Concludes.flusher (h : s.Concludes c id) (hstopped : s.flusher ≠ .stopped)
    (hoperations : t.operations = s.operations) (hpath : t.path = s.path) (hmemory : t.memory = s.memory) :
    t.Concludes c id := by
  obtain ⟨last, hid, hrest⟩ := h.last
  exact ⟨hoperations ▸ h.others, last, hoperations ▸ hid, hrest.frame hpath hmemory fun h => absurd h hstopped⟩

theorem Concludes.proceeds (h : s.Concludes c id) (hproceeds : Proceeds s label t) : t.Concludes c id := by
  cases hproceeds with
  | move hj hmove =>
      obtain ⟨rfl, rfl, hrest⟩ := h.resting_of hj hmove.not_isOver
      exact h.setStage hmove.operations (hmove.resting hrest)
  | @dump _ k a b u hk hmove =>
      cases k with
      | flusher =>
          have hstopped : s.flusher ≠ .stopped := fun hstopped => by
            rw [dump?, hstopped] at hk
            cases hk
          obtain ⟨_, _, _, rfl⟩ := hmove.eq
          exact h.flusher hstopped rfl rfl rfl
      | operation j =>
          obtain ⟨o, hj⟩ := operation_of_dump? hk
          obtain ⟨rfl, rfl, hrest⟩ := h.resting_of hj rfl
          simp only [setDump, hmove.operations, hj]
          exact h.setStage hmove.operations (hmove.resting hrest)
  | flusher hmove =>
      refine h.flusher (fun hstopped => ?_) rfl rfl rfl
      cases hmove with
      | flush hidle | stop hidle => cases hstopped.symm.trans hidle
      | flushed hended => cases hstopped.symm.trans hended

/-- The operation that closes the layer changes nothing that was saved. -/
theorem Concludes.applied_proceeds (h : s.Concludes c id) (hproceeds : Proceeds s label t) : t.applied = s.applied := by
  cases hproceeds with
  | move hj hmove =>
      obtain ⟨rfl, rfl, -⟩ := h.resting_of hj hmove.not_isOver
      cases hmove <;> rfl
  | dump hk hmove =>
      obtain ⟨_, _, _, rfl⟩ := hmove.eq
      exact applied_setDump
  | flusher hmove => rfl

/-- An operation that has been answered stays so. -/
theorem Proceeds.answered (h : Proceeds s label t) {answer : Except StorageError Unit}
    {dumped : Option (Except StorageError Nat)} (hid : s.operations.get? id = some (o, .ended answer dumped)) :
    t.operations.get? id = some (o, .ended answer dumped) := by
  have hother : ∀ {j o' stage'}, s.operations.get? j = some (o', stage') → stage'.isOver = false → j ≠ id := by
    rintro j o' stage' hj hstage rfl
    cases hid.symm.trans hj
    cases hstage
  cases h with
  | move hj hmove => exact (Dict.get?_put_of_ne _ _ (hother hj hmove.not_isOver)).trans (hmove.operations ▸ hid)
  | @dump _ k a b u hk hmove =>
      cases k with
      | flusher => exact hmove.operations ▸ hid
      | operation j =>
          obtain ⟨o', hj⟩ := operation_of_dump? hk
          simp only [setDump, hmove.operations, hj]
          exact (Dict.get?_put_of_ne _ _ (hother hj rfl)).trans (hmove.operations ▸ hid)
  | flusher hmove => exact hid

theorem Concludes.published (h : s.Concludes c id) {dumped : Option (Except StorageError Nat)}
    (hid : s.operations.get? id = some (.close, .ended (.ok ()) dumped)) : s.Published c := by
  obtain ⟨stage, hstage, hrest⟩ := h.last
  cases hid.symm.trans hstage
  exact hrest.2

/-- As soon as it begins, the operation that closes a layer at rest is the only one that is not over. -/
theorem concludes_begin (hsteady : Steady first s) (hopen : s.isOpen = true)
    (hover : ∀ j o stage, s.operations.get? j = some (o, stage) → stage.isOver) :
    (s.setStage id .close .entering).Concludes (first.applyAll (s.applied.map (·.2))) id := by
  refine ⟨fun j o stage hj hne => ?_, _, Dict.get?_put_self _ _ _, ?_⟩
  · obtain ⟨rfl, -, -⟩ | ⟨-, hj⟩ := of_get?_setStage hj
    · exact absurd rfl hne
    · exact hover j o stage hj
  · have hmemory := hsteady.opened hopen
    have hstore : s.memory = ⟨s.memory.contents, s.memory.isOpen⟩ := rfl
    rwa [hmemory, hsteady.contents hmemory] at hstore

end Layered

end PushMetrics
