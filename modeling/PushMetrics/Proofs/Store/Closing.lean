import PushMetrics.Proofs.Store.WriteThrough

/-!
# What closing keeps

Closing a layer makes a last snapshot, then closes the store below, and then empties it. Another snapshot may wait for
the lock behind the last one. If it sees the flag of the store before the store is closed, and the contents after they
have been emptied, it puts an empty file in the place of the last snapshot, and both are answered without an error. In
a run in which the store is never emptied between such a look at the flag and the access to the contents, the file has
all that was saved before.
-/

namespace PushMetrics

open Snapshot

/-- A snapshot has seen the store below open, and is about to access the contents because of that. -/
def DumpStage.isBetween : DumpStage → Bool
  | .listing => true
  | .collecting source _ => (source.producer matches .look _)
  | _ => false

/-- A write has begun and has not changed the store yet. -/
def OperationStage.isWriting : OperationStage → Operation → Bool
  | .entering, .write _ | .checking, .write _ | .changing, .write _ => true
  | _, _ => false

def LayeredStep.beginsWrite : LayeredStep → Bool
  | .begin _ (.write _) => true
  | _ => false

/-- The last snapshot of an operation that closes the layer has got the file lock. -/
def OperationStage.hasLocked : OperationStage → Bool
  | .dumping .asking | .dumping .waiting => false
  | .dumping _ | .shutting _ | .clearing _ | .ended (.ok _) _ => true
  | _ => false

/-- The last snapshot of an operation that closes the layer has succeeded. -/
def OperationStage.hasDumped : OperationStage → Bool
  | .dumping (.unlocking (.ok _)) | .dumping (.ended (.ok _)) => true
  | .shutting (.ok _) | .clearing (.ok _) | .ended (.ok _) _ => true
  | _ => false

theorem OperationStage.hasLocked_of_hasDumped {stage : OperationStage} (h : stage.hasDumped) : stage.hasLocked := by
  unfold hasDumped at h
  split at h <;> first | rfl | cases h

namespace Layered

variable {first c : Contents} {s t u : Layered} {k : Dumper} {a b : DumpStage} {id : Nat} {o : Operation}
  {stage next : OperationStage} {label : LayeredStep} {old : Option Node}

/-! ## Looking at the flag first, and at the contents later -/

/-- Some snapshot stands between its look at the flag and its access to the contents. -/
def isExposed (s : Layered) : Bool :=
  s.flusher.dump?.any (·.isBetween) || s.operations.values.any (·.2.dump?.any (·.isBetween))

def isEmptying (s : Layered) : LayeredStep → Bool
  | .advance id => (s.operations.get? id).any (·.2 matches .clearing _)
  | _ => false

/-- The step empties the store below under the hands of a snapshot. -/
def EmptiesUnder (s : Layered) (label : LayeredStep) : Prop := s.isEmptying label ∧ s.isExposed

instance : Decidable (s.EmptiesUnder label) := inferInstanceAs (Decidable (_ ∧ _))

theorem isBetween_of_not_isExposed (h : s.isExposed = false) (hk : s.dump? k = some a) : a.isBetween = false := by
  simp only [isExposed, Bool.or_eq_false_iff, List.any_eq_false] at h
  cases k with
  | flusher => simpa [show s.flusher.dump? = some a from hk] using h.1
  | operation id =>
      obtain ⟨o, hid⟩ := operation_of_dump? hk
      simpa [OperationStage.dump?] using h.2 _ (Dict.mem_values_iff.2 ⟨id, hid⟩)

/-! ## Snapshots beside closing -/

theorem Exact.shut (h : s.Exact c) : Exact { s with memory := { s.memory with isOpen := false } } c := by
  intro k a hk
  have ha := h k a hk
  cases a with
  | collecting source got => exact Enumeration.Faithful.shut ha
  | unlocking result => cases result <;> exact ha
  | _ => exact ha

theorem Exact.clear (h : s.Exact c) (hclosed : s.memory.isOpen = false) (hcalm : s.isExposed = false) :
    Exact { s with memory := { s.memory with contents := Dict.empty } } c := by
  intro k a hk
  have ha := h k a hk
  have hbetween : a.isBetween = false := isBetween_of_not_isExposed hcalm hk
  cases a with
  | listing => cases hbetween
  | collecting source got =>
      refine Enumeration.Faithful.clear ha (fun names hlook => ?_) hclosed
      simp [DumpStage.isBetween, hlook] at hbetween
  | unlocking result => cases result <;> exact ha
  | _ => exact ha

/-- Where nobody writes, snapshots on the way stay snapshots of the same contents. -/
theorem Exact.happens (h : s.Exact c) (hsteady : Steady first s) (hlock : s.Locked)
    (hstore : s.memory.isOpen = true → s.memory.contents = c) (hquiet : ¬s.Somewhere OperationStage.isWriting)
    (hcalm : ¬s.EmptiesUnder label) (hhappens : Happens s label t) : t.Exact c := by
  cases hhappens with
  | begin | drop => exact h.idle rfl rfl rfl rfl rfl
  | @move id o stage next u hid hmove =>
      cases hmove with
      | change => exact absurd ⟨id, _, _, hid, rfl⟩ hquiet
      | shut => exact h.shut.idle rfl rfl rfl rfl rfl
      | clear =>
          have hclosed := (hsteady.operations id o _ hid).shut _ rfl
          have hunexposed : s.isExposed = false := by
            by_contra hexposed
            exact hcalm ⟨by simp [isEmptying, hid], by simpa using hexposed⟩
          exact (h.clear hclosed hunexposed).idle rfl rfl rfl rfl rfl
      | ask | join =>
          refine h.setStage rfl rfl rfl rfl fun a ha => ?_
          obtain rfl := Option.some.inj ha
          trivial
      | finish => exact h.idle rfl rfl rfl rfl (by cases o <;> rfl)
      | _ => exact h.idle rfl rfl rfl rfl rfl
  | dump hk hmove => exact h.dump hlock hk hmove hstore
  | @dropDump _ id o a hid =>
      obtain ⟨_, heq⟩ := dropDump_eq s (.operation id) a
      rw [heq]
      exact h.idle rfl rfl rfl rfl rfl
  | flusher hmove =>
      intro k a hk
      cases k with
      | operation id => exact h (.operation id) a hk
      | flusher =>
          cases hmove with
          | flush =>
              obtain rfl := Option.some.inj hk
              trivial
          | flushed | stop => cases hk

theorem applied_happens (hquiet : ¬s.Somewhere OperationStage.isWriting) (h : Happens s label t) :
    t.applied = s.applied := by
  cases h with
  | @move id o stage next u hid hmove =>
      cases hmove with
      | change => exact absurd ⟨id, _, _, hid, rfl⟩ hquiet
      | _ => rfl
  | dump hk hmove =>
      obtain ⟨_, _, _, rfl⟩ := hmove.eq
      exact applied_setDump
  | @dropDump _ id o a hid =>
      obtain ⟨_, heq⟩ := dropDump_eq s (.operation id) a
      rw [heq]
      rfl
  | _ => rfl

theorem OperationMoves.isWriting (h : OperationMoves s id o stage u next) (hnext : next.isWriting o) :
    stage.isWriting o := by
  cases h with
  | enter | change => rfl
  | win | ask => cases hnext
  | @pass o | @turnAway o | @refuse o | @join o | @finish o | @shut o | @shutTwice o | @clear o =>
      cases o <;> first | rfl | cases hnext

/-- As long as no write begins, nobody writes. -/
theorem quiet_happens (hquiet : ¬s.Somewhere OperationStage.isWriting) (hlabel : label.beginsWrite = false)
    (h : Happens s label t) : ¬t.Somewhere OperationStage.isWriting := by
  rintro ⟨id, o, stage, hid, hwriting⟩
  cases comes_of_happens h hid with
  | stayed hbefore => exact hquiet ⟨id, o, stage, hbefore, hwriting⟩
  | begun hbegin =>
      subst hbegin
      cases o with
      | write change => cases hlabel
      | dump | close => cases hwriting
  | moved hbefore hmove => exact hquiet ⟨id, o, _, hbefore, hmove.isWriting hwriting⟩
  | dumped => cases o <;> cases hwriting
  | dropped => cases o <;> cases hwriting

/-! ## The file -/

theorem shows_iff :
    s.Shows c ↔ s.path.isDotted = false ∧ ∃ bytes, c.IsEncoded bytes ∧ s.content = some (.file bytes) := by
  have hnode : ∀ bytes, s.disk.node? s.path = some (.file bytes) ↔
      s.path.isDotted = false ∧ s.content = some (.file bytes) := fun bytes => by
    rw [Disk.node?_eq_file, content]
    exact and_congr_right fun hplain => by rw [Path.named_eq_self hplain]
  simp only [Shows, hnode]
  constructor
  · rintro ⟨bytes, hbytes, hplain, hfile⟩
    exact ⟨hplain, bytes, hbytes, hfile⟩
  · rintro ⟨hplain, bytes, hbytes, hfile⟩
    exact ⟨bytes, hbytes, hplain, hfile⟩

/-- A file that holds a snapshot of some contents goes on to do so, as long as snapshots are of these contents. -/
theorem Shows.step (h : s.Shows c) (hsound : s.Sound old) (hexact : t.Exact c) (hstep : s.step label = some t) :
    t.Shows c := by
  rcases hsound.changes (.step hstep) with hsame | ⟨k, count, -, hdone, -⟩
  · rw [shows_iff] at h ⊢
    rwa [hsame, (ages_of_happens (happens_of_step hstep)).path]
  · exact (hexact k _ hdone).shows

/-! ## The last snapshot -/

theorem OperationMoves.hasLocked (h : OperationMoves s id .close stage u next) (hnext : next.hasLocked) :
    stage.hasLocked := by
  cases h with
  | finish | shut | shutTwice | clear => rfl
  | _ => cases hnext

theorem OperationMoves.hasDumped (h : OperationMoves s id .close stage u next) (hnext : next.hasDumped) :
    stage.hasDumped := by
  cases h with
  | @finish _ r | @shut _ r | @shutTwice _ r | @clear _ r => cases r <;> first | rfl | cases hnext
  | _ => cases hnext

theorem DumpMoves.hasLocked (h : DumpMoves s k a u b) (hb : OperationStage.hasLocked (.dumping b)) :
    OperationStage.hasLocked (.dumping a) ∨ b = .checking := by
  cases h with
  | enter | collect => exact .inr rfl
  | queue => cases hb
  | _ => exact .inl rfl

theorem DumpMoves.hasDumped (h : DumpMoves s k a u b) (hb : OperationStage.hasDumped (.dumping b)) :
    OperationStage.hasDumped (.dumping a) ∨ ∃ count, b = .unlocking (.ok count) := by
  cases h with
  | finish => exact .inr ⟨_, rfl⟩
  | @unlock r => cases r <;> first | exact .inl rfl | cases hb
  | _ => cases hb

/-- While an operation closes the layer and nobody writes: when its snapshot has the lock, all snapshots are of given
contents, and when that has succeeded, the file holds one. -/
structure Closes (c : Contents) (id : Nat) (s : Layered) : Prop where
  quiet : ¬s.Somewhere OperationStage.isWriting
  exact : ∀ stage, s.operations.get? id = some (.close, stage) → stage.hasLocked → s.Exact c
  shown : ∀ stage, s.operations.get? id = some (.close, stage) → stage.hasDumped → s.Shows c

/-- How the closing operation itself comes to a stage where its snapshot has the lock, or keeps it. -/
theorem Closes.exact_happens (h : Closes c id s) (hsteady : Steady first s) (hlock : s.Locked)
    (hstore : s.memory.isOpen = true → s.memory.contents = c) (hcalm : ¬s.EmptiesUnder label)
    (hhappens : Happens s label t) (hid : t.operations.get? id = some (.close, stage)) (hstage : stage.hasLocked) :
    t.Exact c := by
  have hkept : ∀ before, s.operations.get? id = some (.close, before) → before.hasLocked → t.Exact c :=
    fun before hbefore hlocked =>
      (h.exact before hbefore hlocked).happens hsteady hlock hstore h.quiet hcalm hhappens
  cases comes_of_happens hhappens hid with
  | stayed hbefore => exact hkept stage hbefore hstage
  | begun => cases hstage
  | moved hbefore hmove => exact hkept _ hbefore (hmove.hasLocked hstage)
  | dropped => cases hstage
  | @dumped a b u hbefore hmove ht =>
      rcases hmove.hasLocked hstage with hlocked | rfl
      · exact hkept _ hbefore hlocked
      · -- It has just got the lock, so that no other snapshot is under way.
        exact (hlock.effect (effect_of_happens hhappens)).exact (dump?_operation hid) c

theorem Closes.step (h : Closes c id s) (hsteady : Steady first s) (hsound : s.Sound old)
    (hstore : s.memory.isOpen = true → s.memory.contents = c) (hlabel : label.beginsWrite = false)
    (hcalm : ¬s.EmptiesUnder label) (hstep : s.step label = some t) : Closes c id t := by
  have hhappens := happens_of_step hstep
  have hexact : ∀ stage, t.operations.get? id = some (.close, stage) → stage.hasLocked → t.Exact c :=
    fun _ => h.exact_happens hsteady hsound.lock hstore hcalm hhappens
  refine ⟨quiet_happens h.quiet hlabel hhappens, hexact, fun stage hid hstage => ?_⟩
  have hkept : ∀ before, s.operations.get? id = some (.close, before) → before.hasDumped → t.Shows c :=
    fun before hbefore hdumped => (h.shown before hbefore hdumped).step hsound
      (hexact stage hid (OperationStage.hasLocked_of_hasDumped hstage)) hstep
  cases comes_of_happens hhappens hid with
  | stayed hbefore => exact hkept stage hbefore hstage
  | begun => cases hstage
  | moved hbefore hmove => exact hkept _ hbefore (hmove.hasDumped hstage)
  | dropped => cases hstage
  | @dumped a b u hbefore hmove ht =>
      rcases hmove.hasDumped hstage with hdumped | ⟨count, rfl⟩
      · exact hkept _ hbefore hdumped
      · exact hexact _ hid rfl _ _ (dump?_operation hid)

theorem closes_of_stepwise {labels : List LayeredStep} (hsteady : Steady first s) (hsound : s.Sound old)
    (hquiet : ¬s.Somewhere OperationStage.isWriting) (hlabels : ∀ label ∈ labels, label.beginsWrite = false)
    (ht : stepwise step s (.begin id .close :: labels) = some t)
    (hcalm : ¬Meets step EmptiesUnder s (.begin id .close :: labels)) :
    Closes (first.applyAll (s.applied.map (·.2))) id t := by
  have hall : Steady first t ∧ t.Sound old ∧ t.applied = s.applied ∧
      Closes (first.applyAll (s.applied.map (·.2))) id t := by
    refine stepwise_avoids (Q := fun u => Steady first u ∧ u.Sound old ∧ u.applied = s.applied ∧
      Closes (first.applyAll (s.applied.map (·.2))) id u) ht hcalm ?_
      fun u label v hlabel hcalm ⟨hsteady, hsound, happlied, hcloses⟩ hstep => ?_
    · have hnew : s.operations.get? id = none := by
        obtain ⟨_, hbegin, -⟩ := Option.bind_eq_some_iff.1 ht
        exact new_of_begin hbegin
      refine ⟨hsteady, hsound, rfl, hquiet, fun stage hid => ?_, fun stage hid => ?_⟩
      all_goals cases hnew.symm.trans hid
    · have hhappens := happens_of_step hstep
      have hstore := happlied ▸ hsteady.contents
      have hbegin : label.beginsWrite = false := by
        rcases List.mem_cons.1 hlabel with rfl | hin
        · rfl
        · exact hlabels label hin
      exact ⟨hsteady.happens hhappens, hsound.goes (.step hstep),
        (applied_happens hcloses.quiet hhappens).trans happlied,
        hcloses.step hsteady hsound hstore hbegin hcalm hstep⟩
  exact hall.2.2.2

/-! ## What closing keeps -/

def Answered (s : Layered) (id : Nat) (o : Operation) : Prop :=
  ∃ dumped, s.operations.get? id = some (o, .ended (.ok ()) dumped)

theorem answered_iff :
    s.Answered id o ↔ (s.operations.get? id).any fun e => e.1 = o && (e.2 matches .ended (.ok _) _) := by
  constructor
  · rintro ⟨dumped, hid⟩
    simp [hid]
  · intro h
    obtain ⟨⟨o', stage⟩, hid, he⟩ := (Option.any_eq_true _ _).1 h
    simp only [Bool.and_eq_true, decide_eq_true_eq] at he
    obtain ⟨rfl, hstage⟩ := he
    split at hstage
    · exact ⟨_, hid⟩
    · cases hstage

instance : Decidable (s.Answered id o) := decidable_of_iff _ answered_iff.symm

/-- What a layer keeps when it is closed. The store below has been open with its first contents; some changes have been
made, and no write is on its way when the operation `id` begins to close the layer, nor begins later. Others may make
snapshots, close the layer too, or be dropped, in any order. If the layer closes without an error, then the file holds
a snapshot of the store as all changes so far have made it, in which every metric that was saved last is; and every
write that has been answered without an error is one of these changes. This is so in a run that nowhere empties the
store below while a snapshot has seen it open and is about to access its contents; and the file must not have the
ending of temporary files. -/
theorem close_keeps_saved {text : String} (hname : ¬(Path.ofFileText text).EndsIn "tmp") {writeThrough : Bool}
    {disk : Disk} {before after : List LayeredStep}
    (hs : stepwise step (fresh (.ofFileText text) writeThrough ⟨first, true⟩ disk) before = some s)
    (hquiet : ¬s.Somewhere OperationStage.isWriting) (hafter : ∀ label ∈ after, label.beginsWrite = false)
    (ht : stepwise step s (.begin id .close :: after) = some t)
    (hcalm : ¬Meets step EmptiesUnder s (.begin id .close :: after)) (hclosed : t.Answered id .close) :
    t.Shows (first.applyAll (s.applied.map (·.2))) ∧
    (∀ m, LastSaved (s.applied.map (·.2)) m → m ∈ (first.applyAll (s.applied.map (·.2))).metrics) ∧
    ∀ j change, s.Answered j (.write change) → (j, change) ∈ s.applied := by
  have hsteady := steady_of_stepwise hs
  have hsound := (sound_fresh (apart_ofFileText hname) writeThrough ⟨first, true⟩ disk).run (goes_of_stepwise hs)
  obtain ⟨_, hid⟩ := hclosed
  exact ⟨(closes_of_stepwise hsteady hsound hquiet hafter ht hcalm).shown _ hid rfl,
    fun m hm => Contents.mem_metrics_applyAll hm first,
    fun j change ⟨_, hj⟩ => (hsteady.operations j _ _ hj).changed change rfl rfl⟩

/-- The first steps of a save, up to where its snapshot is to ask for the lock. -/
def saving : List LayeredStep := [.begin 0 (.write (.save (.counter "hits" 1))), .advance 0, .advance 0, .advance 0]

/-- A snapshot that has the lock sees the store open and lists one name. -/
def oneName (id : Nat) : List LayeredStep := [.dump id .advance, .dump id (.list ["hits"])]

/-- A snapshot of one metric, from where it has the lock to its end. -/
def oneMetric (id : Nat) : List LayeredStep :=
  List.flatten [oneName id, List.replicate 4 (.dump id .produce), List.replicate 8 (.dump id .advance)]

/-- A snapshot of nothing, from where it is to list the names to its end. -/
def noMetrics (id : Nat) : List LayeredStep :=
  .dump id (.list []) :: .dump id .produce :: List.replicate 7 (.dump id .advance)

/-- A save is making its snapshot, and another snapshot is to be made. -/
def busy : List LayeredStep := saving ++ [.begin 2 .dump, .advance 2]

/-- The layer is closed behind the snapshot of the save and before the other one, which is cut short. -/
def closedAmong : List LayeredStep :=
  List.flatten [[.advance 1, .dump 0 .advance, .advance 1, .dump 1 .advance, .dump 2 .advance], oneMetric 0,
    [.advance 0, .dump 1 .advance], oneMetric 1, [.advance 1, .dump 2 .advance], oneName 2,
    [.advance 1, .advance 1, .dump 2 .produce, .dump 2 .produce, .dump 2 .advance, .dump 2 .advance, .advance 2]]

theorem close_keeps_saved_among : ∃ s t, stepwise step emptyLayer busy = some s ∧
    stepwise step s (.begin 1 .close :: closedAmong) = some t ∧ ¬s.Answered 0 (.write (.save (.counter "hits" 1))) ∧
    t.Answered 1 .close ∧ t.Shows (.ofMetrics [.counter "hits" 1]) := by
  have hfirst : (stepwise step emptyLayer busy).map (fun s => (s.applied, decide (s.Somewhere OperationStage.isWriting),
      decide (s.Answered 0 (.write (.save (.counter "hits" 1)))),
      decide (Meets step EmptiesUnder s (.begin 1 .close :: closedAmong)))) =
        some ([(0, .save (.counter "hits" 1))], false, false, false) := by decide +kernel
  have hboth : ((stepwise step emptyLayer busy).bind (stepwise step · (.begin 1 .close :: closedAmong))).map
      (fun t => decide (t.Answered 1 .close)) = some true := by decide +kernel
  obtain ⟨s, hs, hfacts⟩ := Option.map_eq_some_iff.1 hfirst
  simp only [Prod.mk.injEq, decide_eq_false_iff_not] at hfacts
  obtain ⟨happlied, hquiet, hbusy, hcalm⟩ := hfacts
  rw [hs, Option.bind_some] at hboth
  obtain ⟨t, ht, hclosed⟩ := Option.map_eq_some_iff.1 hboth
  have hclosed := of_decide_eq_true hclosed
  obtain ⟨hshows, -, -⟩ := close_keeps_saved not_endsIn_json hs hquiet (by decide) ht hcalm hclosed
  have hcontents : Contents.applyAll (s.applied.map (·.2)) Dict.empty = .ofMetrics [.counter "hits" 1] := by
    rw [happlied]
    rfl
  exact ⟨s, t, hs, ht, hbusy, hclosed, hcontents ▸ hshows⟩

/-- A save has been answered, and then the layer is closed, with no write on its way. In the end everybody is done, the
closing and given others have been answered without an error, and the file is empty. -/
def Loses (start : Layered) (before after : List LayeredStep) (answered : List (Nat × Operation)) : Prop :=
  ∃ s ∈ stepwise step start before, s.Answered 0 (.write (.save (.counter "hits" 1))) ∧
    ¬s.Somewhere OperationStage.isWriting ∧ (∀ label ∈ after, label.beginsWrite = false) ∧
    ∃ t ∈ stepwise step s (.begin 1 .close :: after), t.Answered 1 .close ∧ (∀ e ∈ answered, t.Answered e.1 e.2) ∧
      (∀ e ∈ t.operations.values, e.2.isOver) ∧ t.content = some (.file [])

instance (start : Layered) (before after : List LayeredStep) (answered : List (Nat × Operation)) :
    Decidable (Loses start before after answered) := by
  unfold Loses
  infer_instance

/-- A save is done, and a snapshot is to be made. -/
def saved : List LayeredStep :=
  List.flatten [saving, [.dump 0 .advance], oneMetric 0, [.advance 0, .begin 2 .dump, .advance 2]]

/-- The layer makes its last snapshot, for which another one waits. -/
def closedBefore : List LayeredStep :=
  List.flatten [[.advance 1, .advance 1, .dump 1 .advance, .dump 2 .advance], oneMetric 1,
    [.advance 1, .dump 2 .advance]]

/-- The other snapshot has seen the store open, and lists its names when it has been emptied. -/
def listedLate : List LayeredStep :=
  List.flatten [closedBefore, [.dump 2 .advance, .advance 1, .advance 1], noMetrics 2, [.advance 2]]

/-- The other snapshot has created its temporary file, and then fails. -/
def failedLate : List LayeredStep :=
  List.flatten [closedBefore, oneName 2, List.replicate 4 (.dump 2 .produce), List.replicate 3 (.dump 2 .advance),
    [.dump 2 (.fail .notFound), .dump 2 .advance, .advance 2, .advance 1, .advance 1]]

/-- The store is emptied again by a reset before the layer is closed. -/
def resetBefore : List LayeredStep :=
  List.flatten [saving, [.dump 0 .advance], oneMetric 0, [.advance 0, .begin 3 (.write .reset), .advance 3,
    .advance 3, .advance 3, .dump 3 .advance, .dump 3 .advance], noMetrics 3, [.advance 3]]

/-- A layer over an empty store is closed. -/
def closedAlone : List LayeredStep :=
  List.flatten [[.advance 1, .advance 1, .dump 1 .advance, .dump 1 .advance], noMetrics 1,
    [.advance 1, .advance 1, .advance 1]]

/-- A metric whose save has been answered is not always in the file of a closed layer. The snapshot that waits behind
the last one sees the store open, finds it empty and is in the file in the end, and nobody is told of an error. A file
with the ending of temporary files is written in place. And a reset may have removed the metric. -/
theorem close_empty_file :
    Loses emptyLayer saved listedLate [(2, .dump)] ∧
    Loses (fresh (.ofFileText "m.tmp") true ⟨Dict.empty, true⟩ ⟨Dict.empty⟩) saved failedLate [] ∧
    Loses emptyLayer resetBefore closedAlone [(3, .write .reset)] := by
  decide +kernel

end Layered

end PushMetrics
