import PushMetrics.Proofs.Run
import PushMetrics.Proofs.Store.Contents
import PushMetrics.Proofs.Store.Dumping

/-!
# What operations do

While a layer is open so is the store below, and nobody closes it; and as long as the store is open, it holds what the
changes so far have made of its first contents. Where an operation can be agrees with these flags and changes.
-/

namespace PushMetrics

/-- Whether an operation comes to a stage. -/
def OperationStage.suits : OperationStage → Operation → Bool
  | .checking, .write _ | .changing, .write _ => true
  | .joining, .close | .shutting _, .close | .clearing _, .close => true
  | .checking, _ | .changing, _ | .joining, _ | .shutting _, _ | .clearing _, _ => false
  | .entering, _ | .dumping _, _ | .ended _ _, _ | .dropped, _ => true

def OperationStage.isOver : OperationStage → Bool
  | .ended _ _ | .dropped => true
  | _ => false

/-- Whether an operation at this stage is closing the layer, besides making the last snapshot. -/
def OperationStage.isClosing : OperationStage → Bool
  | .joining | .shutting _ | .clearing _ => true
  | _ => false

/-- Whether a write at this stage has changed the store. -/
def OperationStage.hasChanged : OperationStage → Bool
  | .dumping _ | .ended (.ok _) _ => true
  | _ => false

namespace Layered

variable {s t u : Layered} {k : Dumper} {a b : DumpStage} {id : Nat} {o : Operation} {stage next : OperationStage}
  {label : LayeredStep}

/-! ## What only grows -/

/-- `t` may be reached from `s`: a flag that has been set stays set, and changes that have been made stay made. -/
structure Ages (s t : Layered) : Prop where
  path : t.path = s.path
  writeThrough : t.writeThrough = s.writeThrough
  closed : s.isOpen = false → t.isOpen = false
  shut : s.memory.isOpen = false → t.memory.isOpen = false
  applied : s.applied <+: t.applied

theorem Ages.refl (s : Layered) : Ages s s := ⟨rfl, rfl, id, id, List.prefix_refl _⟩

theorem Ages.trans (h : Ages s t) (h' : Ages t u) : Ages s u :=
  ⟨h'.path.trans h.path, h'.writeThrough.trans h.writeThrough, fun hs => h'.closed (h.closed hs),
    fun hs => h'.shut (h.shut hs), h.applied.trans h'.applied⟩

theorem ages_setStage (s : Layered) (id : Nat) (o : Operation) (stage : OperationStage) :
    Ages s (s.setStage id o stage) := ⟨rfl, rfl, fun hs => hs, fun hs => hs, List.prefix_refl _⟩

theorem OperationMoves.ages (h : OperationMoves s id o stage u next) : Ages s u := by
  cases h with
  | win hopen => exact ⟨rfl, rfl, fun _ => rfl, fun hs => hs, List.prefix_refl _⟩
  | change => exact ⟨rfl, rfl, fun hs => hs, fun hs => hs, List.prefix_append _ _⟩
  | shut hopen => exact ⟨rfl, rfl, fun hs => hs, fun _ => rfl, List.prefix_refl _⟩
  | clear => exact ⟨rfl, rfl, fun hs => hs, fun hs => hs, List.prefix_refl _⟩
  | _ => exact .refl s

theorem ages_of_happens (h : Happens s label t) : Ages s t := by
  cases h with
  | @move id o _ next u hid hmove => exact hmove.ages.trans (ages_setStage u id o next)
  | @dump _ k a b u hk hmove =>
      obtain ⟨_, _, _, rfl⟩ := hmove.eq
      obtain ⟨_, _, h⟩ := setDump_eq _ k b
      rw [h]
      exact ⟨rfl, rfl, fun hs => hs, fun hs => hs, List.prefix_refl _⟩
  | @dropDump _ id o a hid =>
      obtain ⟨_, h⟩ := dropDump_eq s (.operation id) a
      rw [h]
      exact ⟨rfl, rfl, fun hs => hs, fun hs => hs, List.prefix_refl _⟩
  | _ => exact ⟨rfl, rfl, fun hs => hs, fun hs => hs, List.prefix_refl _⟩

/-! ## Where operations can be -/

/-- Where an operation is agrees with the flags and the changes of the layer. -/
structure Fits (s : Layered) (id : Nat) (o : Operation) (stage : OperationStage) : Prop where
  suits : stage.suits o
  idle : s.isOpen = true → o = .close → stage = .entering ∨ stage.isOver
  shut : ∀ r, stage = .clearing r → s.memory.isOpen = false
  changed : ∀ change, o = .write change → stage.hasChanged → (id, change) ∈ s.applied
  answered : ∀ answer r, stage = .ended answer (some r) → (∃ change, o = .write change) → answer = .ok ()

theorem Fits.ages (h : Fits s id o stage) (hages : Ages s t) : Fits t id o stage where
  suits := h.suits
  idle hopen := h.idle (by
    by_contra hclosed
    exact absurd (hages.closed (Bool.not_eq_true _ ▸ hclosed)) (by simp [hopen]))
  shut r hr := hages.shut (h.shut r hr)
  changed change ho hstage := hages.applied.subset (h.changed change ho hstage)
  answered := h.answered

theorem Fits.closed (h : Fits s id o stage) (hstage : stage.isClosing) : s.isOpen = false := by
  by_contra hopen
  cases stage with
  | joining | shutting | clearing =>
      cases o with
      | close => rcases h.idle (by simpa using hopen) rfl with hfirst | hover <;> contradiction
      | write | dump => cases h.suits
  | _ => cases hstage

theorem fits_write {change : Change} (hsuits : stage.suits (.write change))
    (hchanged : stage.hasChanged → (id, change) ∈ s.applied)
    (hanswered : ∀ answer r, stage = .ended answer (some r) → answer = .ok ()) :
    Fits s id (.write change) stage where
  suits := hsuits
  idle _ ho := by cases ho
  shut r hr := by
    subst hr
    cases hsuits
  changed _ ho hstage := by
    cases ho
    exact hchanged hstage
  answered answer r hr _ := hanswered answer r hr

theorem fits_dump (hsuits : stage.suits .dump) : Fits s id .dump stage where
  suits := hsuits
  idle _ ho := by cases ho
  shut r hr := by
    subst hr
    cases hsuits
  changed _ ho := by cases ho
  answered _ _ _ hwrite := by
    obtain ⟨_, ho⟩ := hwrite
    cases ho

theorem fits_close (hsuits : stage.suits .close) (hidle : s.isOpen = true → stage = .entering ∨ stage.isOver)
    (hshut : ∀ r, stage = .clearing r → s.memory.isOpen = false) : Fits s id .close stage where
  suits := hsuits
  idle hopen _ := hidle hopen
  shut := hshut
  changed _ ho := by cases ho
  answered _ _ _ hwrite := by
    obtain ⟨_, ho⟩ := hwrite
    cases ho

theorem fits_outside (hstage : stage = .entering ∨ stage = .dropped ∨ ∃ e, stage = .ended (.error e) none) :
    Fits s id o stage := by
  rcases hstage with rfl | rfl | ⟨e, rfl⟩
  all_goals
    cases o with
    | write change => exact fits_write rfl (by rintro ⟨⟩) (by rintro _ _ ⟨⟩)
    | dump => exact fits_dump rfl
    | close => exact fits_close rfl (fun _ => by first | exact .inl rfl | exact .inr rfl) (by rintro _ ⟨⟩)

/-- An operation that closes the layer fits where it goes on, as long as the layer stays closed. -/
theorem Fits.close (h : Fits s id .close stage) (hstage : stage.isClosing ∨ ∃ a, stage = .dumping a)
    (hopen : u.isOpen = s.isOpen) (hsuits : next.suits .close)
    (hshut : ∀ r, next = .clearing r → u.memory.isOpen = false) : Fits u id .close next := by
  refine fits_close hsuits (fun hu => ?_) hshut
  have hidle := h.idle (hopen ▸ hu) rfl
  rcases hstage with hclosing | ⟨a, rfl⟩
  · cases h.closed hclosing ▸ hopen ▸ hu
  · rcases hidle with hfirst | hover
    · cases hfirst
    · cases hover

theorem Fits.dumping (h : Fits s id o (.dumping a)) (b : DumpStage) : Fits s id o (.dumping b) := by
  cases o with
  | write change => exact fits_write rfl (fun _ => h.changed change rfl rfl) (by rintro _ _ ⟨⟩)
  | dump => exact fits_dump rfl
  | close => exact h.close (.inr ⟨a, rfl⟩) rfl rfl (by rintro _ ⟨⟩)

theorem OperationMoves.fits (h : OperationMoves s id o stage u next) (hfits : Fits s id o stage) :
    Fits u id o next := by
  have hsuits := hfits.suits
  cases h with
  | win hopen => exact fits_close rfl (by rintro ⟨⟩) (by rintro _ ⟨⟩)
  | enter hopen => exact fits_write rfl (by rintro ⟨⟩) (by rintro _ _ ⟨⟩)
  | ask hopen => exact fits_dump rfl
  | turnAway hopen => exact fits_outside (.inr (.inr ⟨_, rfl⟩))
  | pass hopen =>
      cases o with
      | write change => exact fits_write rfl (by rintro ⟨⟩) (by rintro _ _ ⟨⟩)
      | dump | close => cases hsuits
  | refuse hopen => exact fits_outside (.inr (.inr ⟨_, rfl⟩))
  | @change change =>
      have hin : (id, change) ∈ s.applied ++ [(id, change)] := List.mem_append_right _ (List.mem_singleton_self _)
      cases s.writeThrough with
      | true => exact fits_write rfl (fun _ => hin) (by rintro _ _ ⟨⟩)
      | false => exact fits_write rfl (fun _ => hin) (by rintro _ _ ⟨⟩)
  | join hstopped =>
      cases o with
      | close => exact hfits.close (.inl rfl) rfl rfl (by rintro _ ⟨⟩)
      | write | dump => cases hsuits
  | finish =>
      cases o with
      | write change =>
          refine fits_write rfl (fun _ => hfits.changed change rfl rfl) fun answer r h => ?_
          cases h
          rfl
      | dump => exact fits_dump rfl
      | close => exact hfits.close (.inr ⟨_, rfl⟩) rfl rfl (by rintro _ ⟨⟩)
  | shut hopen =>
      cases o with
      | close => exact hfits.close (.inl rfl) rfl rfl fun _ _ => rfl
      | write | dump => cases hsuits
  | shutTwice hopen | clear =>
      cases o with
      | close => exact hfits.close (.inl rfl) rfl rfl (by rintro _ ⟨⟩)
      | write | dump => cases hsuits

/-- What holds of a layer over a store in memory that was open at first. -/
structure Steady (first : Contents) (s : Layered) : Prop where
  opened : s.isOpen = true → s.memory.isOpen = true
  contents : s.memory.isOpen = true → s.memory.contents = first.applyAll (s.applied.map (·.2))
  stopped : s.writeThrough = true → s.flusher = .stopped
  operations : ∀ id o stage, s.operations.get? id = some (o, stage) → Fits s id o stage

variable {first : Contents}

theorem steady_fresh (path : Path) (writeThrough : Bool) (first : Contents) (disk : Disk) :
    Steady first (fresh path writeThrough ⟨first, true⟩ disk) where
  opened _ := rfl
  contents _ := rfl
  stopped h := by
    obtain rfl : writeThrough = true := h
    rfl
  operations _ _ _ h := nomatch h

theorem Steady.opened_move (h : Steady first s) (hid : s.operations.get? id = some (o, stage))
    (hmove : OperationMoves s id o stage u next) : u.isOpen = true → u.memory.isOpen = true := by
  have hfits := h.operations id o stage hid
  cases hmove with
  | win hopen => rintro ⟨⟩
  | shut =>
      intro hopen
      cases hopen.symm.trans (hfits.closed rfl)
  | _ => exact h.opened

theorem Steady.contents_move (h : Steady first s) (hid : s.operations.get? id = some (o, stage))
    (hmove : OperationMoves s id o stage u next) :
    u.memory.isOpen = true → u.memory.contents = first.applyAll (u.applied.map (·.2)) := by
  cases hmove with
  | change =>
      intro hopen
      simp only [Contents.applyAll, List.map_append, List.foldl_append] at h ⊢
      rw [h.contents hopen]
      rfl
  | shut => rintro ⟨⟩
  | clear =>
      intro hopen
      cases hopen.symm.trans ((h.operations id o _ hid).shut _ rfl)
  | _ => exact h.contents

theorem Steady.operations_happens (h : Steady first s) (hhappens : Happens s label t) (id : Nat) (o : Operation)
    (stage : OperationStage) (hid : t.operations.get? id = some (o, stage)) : Fits t id o stage := by
  have hages := ages_of_happens hhappens
  cases comes_of_happens hhappens hid with
  | stayed hbefore => exact (h.operations id o stage hbefore).ages hages
  | begun => exact fits_outside (.inl rfl)
  | moved hbefore hmove ht =>
      subst ht
      exact (hmove.fits (h.operations id o _ hbefore)).ages (ages_setStage _ id o stage)
  | dumped hbefore => exact ((h.operations id o _ hbefore).ages hages).dumping _
  | dropped => exact fits_outside (.inr (.inl rfl))

/-- Where every write is followed by a snapshot, the periodic task makes none. -/
theorem Steady.stopped_dump (h : Steady first s) (hk : s.dump? k = some a) (hmove : DumpMoves s k a u b)
    (hwrite : s.writeThrough = true) : (u.setDump k b).flusher = .stopped := by
  have hflusher := h.stopped hwrite
  cases k with
  | flusher =>
      rw [dump?, hflusher] at hk
      cases hk
  | operation id =>
      obtain ⟨o, hid⟩ := operation_of_dump? hk
      obtain ⟨_, _, _, rfl⟩ := hmove.eq
      simp only [setDump, hid]
      exact hflusher

theorem Steady.happens (h : Steady first s) (hhappens : Happens s label t) : Steady first t := by
  have hages := ages_of_happens hhappens
  have hoperations := h.operations_happens hhappens
  cases hhappens with
  | begin | drop => exact ⟨h.opened, h.contents, h.stopped, hoperations⟩
  | move hid hmove =>
      have hopened := h.opened_move hid hmove
      have hcontents := h.contents_move hid hmove
      refine ⟨hopened, hcontents, ?_, hoperations⟩
      cases hmove <;> exact h.stopped
  | @dump _ k a b u hk hmove =>
      have hstopped := fun hwrite => h.stopped_dump hk hmove (hages.writeThrough ▸ hwrite)
      obtain ⟨_, _, _, rfl⟩ := hmove.eq
      obtain ⟨_, _, heq⟩ := setDump_eq _ k b
      rw [heq] at hoperations hstopped ⊢
      exact ⟨h.opened, h.contents, hstopped, hoperations⟩
  | @dropDump _ id o a hid =>
      obtain ⟨fileLock, heq⟩ := dropDump_eq s (.operation id) a
      rw [heq] at hoperations ⊢
      exact ⟨h.opened, h.contents, h.stopped, hoperations⟩
  | flusher hmove =>
      refine ⟨h.opened, h.contents, fun hwrite => ?_, hoperations⟩
      have hstopped := h.stopped hwrite
      cases hmove with
      | stop hidle => rfl
      | flush hidle => cases hstopped.symm.trans hidle
      | flushed hended => cases hstopped.symm.trans hended

theorem steady_of_stepwise {path : Path} {writeThrough : Bool} {disk : Disk} {labels : List LayeredStep}
    (h : stepwise step (fresh path writeThrough ⟨first, true⟩ disk) labels = some s) : Steady first s :=
  stepwise_keeps h (steady_fresh path writeThrough first disk) fun _ _ _ _ hsteady hstep =>
    hsteady.happens (happens_of_step hstep)

end Layered

end PushMetrics
