import PushMetrics.Proofs.Store.Exactness
import PushMetrics.Proofs.Store.Operations
import PushMetrics.Proofs.Store.Publishing

/-!
# Writing through

When every write is followed by a snapshot, the file is equal to the store as soon as nobody is at work and no snapshot
has failed. One enumeration may be torn by writes that fall into it; but each of these writes makes a snapshot of its
own afterwards, and the lock keeps that from beginning before the torn one has ended.
-/

namespace PushMetrics

/-- A write has changed the store, and its snapshot has not got the lock yet, or never will. -/
def OperationStage.isUnsettled : OperationStage → Operation → Bool
  | .dumping .asking, .write _ | .dumping .waiting, .write _ | .dropped, .write _ => true
  | _, _ => false

/-- An operation may be why the file differs from the store: it is about to make a snapshot, or is making one, or its
snapshot has failed, or it has been dropped. -/
def OperationStage.owes : OperationStage → Operation → Bool
  | .dumping .asking, .write _ | .dumping .waiting, .write _ => true
  | .dumping .checking, _ | .dumping .listing, _ | .dumping (.collecting _ _), _ | .dumping (.filing _ _), _ => true
  | .dumping (.unlocking (.error _)), _ | .dumping (.ended (.error _)), _ => true
  | .shutting (.error _), _ | .clearing (.error _), _ | .ended _ (some (.error _)), _ => true
  | .dropped, _ => true
  | _, _ => false

/-- An operation has returned, and no snapshot that it made has failed. -/
def OperationStage.hasSucceeded : OperationStage → Bool
  | .ended _ none | .ended _ (some (.ok _)) => true
  | _ => false

/-- An operation has returned, and the snapshot that it made has failed. -/
def OperationStage.hasFailed : OperationStage → Bool
  | .ended _ (some (.error _)) => true
  | _ => false

def OperationStage.hasReturned : OperationStage → Bool
  | .ended _ _ => true
  | _ => false

/-- The success of a snapshot has been noted, and the lock is about to be given back. -/
def DumpStage.hasSucceeded : DumpStage → Bool
  | .unlocking (.ok _) => true
  | _ => false

theorem OperationStage.exists_of_hasFailed {stage : OperationStage} (h : stage.hasFailed) :
    ∃ answer e, stage = .ended answer (some (.error e)) := by
  unfold hasFailed at h
  split at h
  · exact ⟨_, _, rfl⟩
  · cases h

theorem OperationStage.exists_of_hasReturned {stage : OperationStage} (h : stage.hasReturned) :
    ∃ answer dumped, stage = .ended answer dumped := by
  unfold hasReturned at h
  split at h
  · exact ⟨_, _, rfl⟩
  · cases h

theorem DumpStage.exists_of_hasSucceeded {a : DumpStage} (h : a.hasSucceeded) :
    ∃ count, a = .unlocking (.ok count) := by
  unfold hasSucceeded at h
  split at h
  · exact ⟨_, rfl⟩
  · cases h

theorem OperationStage.owes_of_hasSucceeded {stage : OperationStage} (h : stage.hasSucceeded) (o : Operation) :
    stage.owes o = false := by
  unfold hasSucceeded at h
  split at h
  · rfl
  · rfl
  · cases h

theorem OperationStage.owes_of_isUnsettled {stage : OperationStage} {o : Operation} (h : stage.isUnsettled o) :
    stage.owes o := by
  unfold isUnsettled at h
  split at h <;> first | rfl | cases h

theorem OperationStage.write_of_isUnsettled {stage : OperationStage} {o : Operation} (h : stage.isUnsettled o) :
    ∃ change, o = .write change := by
  unfold isUnsettled at h
  split at h
  · exact ⟨_, rfl⟩
  · exact ⟨_, rfl⟩
  · exact ⟨_, rfl⟩
  · cases h

namespace Layered

variable {first : Contents} {s t u : Layered} {k : Dumper} {a b : DumpStage} {id : Nat} {o : Operation}
  {stage next : OperationStage} {label : LayeredStep} {p : OperationStage → Operation → Bool}

/-! ## Operations with a property -/

def Somewhere (s : Layered) (p : OperationStage → Operation → Bool) : Prop :=
  ∃ id o stage, s.operations.get? id = some (o, stage) ∧ p stage o

theorem somewhere_iff : s.Somewhere p ↔ s.operations.values.any fun e => p e.2 e.1 := by
  rw [List.any_eq_true]
  constructor
  · rintro ⟨id, o, stage, hid, hp⟩
    exact ⟨(o, stage), Dict.mem_values_iff.2 ⟨id, hid⟩, hp⟩
  · rintro ⟨⟨o, stage⟩, he, hp⟩
    obtain ⟨id, hid⟩ := Dict.mem_values_iff.1 he
    exact ⟨id, o, stage, hid, hp⟩

instance : Decidable (s.Somewhere p) := decidable_of_iff _ somewhere_iff.symm

theorem somewhere_setStage (hp : p next o) : (s.setStage id o next).Somewhere p :=
  ⟨id, o, next, Dict.get?_put_self _ _ _, hp⟩

theorem Somewhere.begin (h : s.Somewhere p) (hnew : s.operations.get? id = none) :
    (s.setStage id o next).Somewhere p := by
  obtain ⟨j, o', stage, hj, hp⟩ := h
  have hne : id ≠ j := by
    rintro rfl
    cases hnew.symm.trans hj
  exact ⟨j, o', stage, (Dict.get?_put_of_ne _ _ hne).trans hj, hp⟩

theorem Somewhere.setStage (h : s.Somewhere p) (hu : u.operations = s.operations)
    (hid : s.operations.get? id = some (o, stage)) (hp : p stage o → p next o) :
    (u.setStage id o next).Somewhere p := by
  obtain ⟨j, o', stage', hj, hp'⟩ := h
  by_cases hne : id = j
  · subst hne
    cases hid.symm.trans hj
    exact somewhere_setStage (hp hp')
  · exact ⟨j, o', stage', (Dict.get?_put_of_ne _ _ hne).trans (hu ▸ hj), hp'⟩

theorem Somewhere.setDump (h : s.Somewhere p) (hu : u.operations = s.operations) (hk : s.dump? k = some a)
    (hp : ∀ o, p (.dumping a) o → p (.dumping b) o) : (u.setDump k b).Somewhere p := by
  cases k with
  | flusher =>
      obtain ⟨j, o', stage', hj, hp'⟩ := h
      exact ⟨j, o', stage', hu ▸ hj, hp'⟩
  | operation id =>
      obtain ⟨o, hid⟩ := operation_of_dump? hk
      simp only [Layered.setDump, hu, hid]
      exact h.setStage hu hid (hp o)

/-! ## What makes up for every change -/

/-- As long as a layer is open, snapshots on the way are snapshots of what the store holds, and the file holds one, but
for changes whose snapshots are still to come. -/
structure Tracks (s : Layered) : Prop where
  exact : s.Somewhere OperationStage.isUnsettled ∨ s.Exact s.memory.contents
  shows : s.applied = [] ∨ s.Somewhere OperationStage.owes ∨ s.Shows s.memory.contents

theorem Somewhere.owes (h : s.Somewhere OperationStage.isUnsettled) : s.Somewhere OperationStage.owes := by
  obtain ⟨id, o, stage, hid, hp⟩ := h
  exact ⟨id, o, stage, hid, OperationStage.owes_of_isUnsettled hp⟩

theorem tracks_fresh (path : Path) (memory : Memory) (disk : Disk) : Tracks (fresh path true memory disk) where
  exact := by
    refine .inr fun k a hk => ?_
    cases k <;> cases hk
  shows := .inl rfl

theorem Tracks.setStage (h : Tracks s) (hid : s.operations.get? id = some (o, stage))
    (hunsettled : stage.isUnsettled o → next.isUnsettled o) (howes : stage.owes o → next.owes o)
    (hnext : ∀ a, next.dump? = some a → a.holds = false) : Tracks (s.setStage id o next) where
  exact := h.exact.imp (·.setStage rfl hid hunsettled)
    (·.setStage rfl rfl rfl rfl fun a ha => .of_not_holds (hnext a ha))
  shows := h.shows.imp_right (Or.imp_left (·.setStage rfl hid howes))

theorem Tracks.move (h : Tracks s) (hsteady : Steady first s) (hwrite : s.writeThrough = true)
    (hopen : u.isOpen = true) (hid : s.operations.get? id = some (o, stage))
    (hmove : OperationMoves s id o stage u next) : Tracks (u.setStage id o next) := by
  have hfits := hsteady.operations id o stage hid
  cases hmove with
  | win => cases hopen
  | change =>
      simp only [hwrite, ↓reduceIte]
      exact ⟨.inl (somewhere_setStage rfl), .inr (.inl (somewhere_setStage rfl))⟩
  | shut | clear =>
      -- Nobody closes the store below while the layer is open.
      exact absurd (hopen.symm.trans (hfits.closed rfl)) nofun
  | @finish o r =>
      refine h.setStage hid nofun (fun howes => ?_) fun a ha => ?_
      · cases r with
        | ok n => cases howes
        | error e => cases o <;> rfl
      · cases o <;> cases ha
  | @shutTwice o r =>
      refine h.setStage hid nofun (fun howes => ?_) fun _ ha => nomatch ha
      cases r with
      | ok n => cases howes
      | error e => rfl
  | ask | join => exact h.setStage hid nofun nofun (by rintro a ⟨⟩; rfl)
  | _ => exact h.setStage hid nofun nofun fun _ ha => nomatch ha

/-- While a snapshot goes on, its operation keeps owing it, until the snapshot has come to its end. -/
theorem DumpMoves.owes (hmove : DumpMoves s k a u b) (hend : ∀ count, a ≠ .filing count [])
    (h : OperationStage.owes (.dumping a) o) : OperationStage.owes (.dumping b) o := by
  cases hmove with
  | queue => cases o <;> first | rfl | cases h
  | @unlock r =>
      cases r with
      | ok n => cases h
      | error e => rfl
  | finish => exact absurd rfl (hend _)
  | _ => rfl

theorem DumpMoves.unsettled (hmove : DumpMoves s k a u b) (hb : b ≠ .checking)
    (h : OperationStage.isUnsettled (.dumping a) o) : OperationStage.isUnsettled (.dumping b) o := by
  cases hmove with
  | queue => cases o <;> first | rfl | cases h
  | enter | collect => exact absurd rfl hb
  | _ => cases o <;> cases h

theorem DumpMoves.disk_eq_or_filing (hmove : DumpMoves s k a u b) :
    u.disk = s.disk ∨ ∃ count steps, b = .filing count steps := by
  cases hmove with
  | file | part => exact .inr ⟨_, _, rfl⟩
  | _ => exact .inl rfl

theorem Tracks.dump (h : Tracks s) (hlock : s.Locked) (hk : s.dump? k = some a) (hmove : DumpMoves s k a u b)
    (hoperation : k ≠ .flusher) : Tracks (u.setDump k b) := by
  have hdump : (u.setDump k b).dump? k = some b := by rw [hmove.dump?_setDump hk, if_pos rfl]
  obtain ⟨hmemory, hpath, happlied⟩ : (u.setDump k b).memory = s.memory ∧ (u.setDump k b).path = s.path ∧
      (u.setDump k b).applied = s.applied := by
    obtain ⟨_, _, _, rfl⟩ := hmove.eq
    exact ⟨memory_setDump, path_setDump, applied_setDump⟩
  constructor
  · rw [hmemory]
    by_cases hb : b = .checking
    · exact .inr ((hlock.move hk hmove).exact (hdump.trans (congrArg some hb)) _)
    · exact h.exact.imp (·.setDump hmove.operations hk fun o => hmove.unsettled hb)
        (·.dump hlock hk hmove fun _ => rfl)
  · rw [hmemory, happlied]
    refine h.shows.imp_right fun hcurrent => ?_
    by_cases hend : ∃ count, a = .filing count []
    · obtain ⟨count, rfl⟩ := hend
      cases hmove with
      | finish =>
          rcases h.exact with hunsettled | hexact
          · exact .inl (hunsettled.setDump rfl hk nofun).owes
          · refine .inr ?_
            rw [Shows, disk_setDump, hpath]
            exact (hexact k _ hk).shows
    · rcases hcurrent with howes | hshows
      · exact .inl (howes.setDump hmove.operations hk fun o => hmove.owes fun count ha => hend ⟨count, ha⟩)
      · rcases hmove.disk_eq_or_filing with hdisk | ⟨count, steps, rfl⟩
        · exact .inr (by rwa [Shows, disk_setDump, hpath, hdisk])
        · -- A snapshot that touches the disk owes itself to be finished.
          cases k with
          | flusher => exact absurd rfl hoperation
          | operation id =>
              obtain ⟨o, hid⟩ := operation_of_dump? hdump
              exact .inl ⟨id, o, _, hid, rfl⟩

theorem Tracks.drop (h : Tracks s) {fileLock : Permits Dumper} (hid : s.operations.get? id = some (o, stage)) :
    Tracks (Layered.setStage { s with fileLock } id o .dropped) where
  exact := by
    cases o with
    | write change => exact .inl (somewhere_setStage rfl)
    | dump | close =>
        refine h.exact.imp (·.setStage rfl hid fun hp => ?_) (·.idle rfl rfl rfl rfl rfl)
        obtain ⟨_, ho⟩ := OperationStage.write_of_isUnsettled hp
        cases ho
  shows := .inr (.inl (somewhere_setStage rfl))

theorem Tracks.happens (h : Tracks s) (hsteady : Steady first s) (hlock : s.Locked) (hwrite : s.writeThrough = true)
    (hopen : t.isOpen = true) (hhappens : Happens s label t) : Tracks t := by
  have hstopped := hsteady.stopped hwrite
  cases hhappens with
  | begin hnew =>
      exact ⟨h.exact.imp (·.begin hnew) (·.idle rfl rfl rfl rfl rfl),
        h.shows.imp_right (Or.imp_left (·.begin hnew))⟩
  | move hid hmove => exact h.move hsteady hwrite hopen hid hmove
  | dump hk hmove =>
      refine h.dump hlock hk hmove ?_
      rintro rfl
      rw [dump?, hstopped] at hk
      cases hk
  | @dropDump _ id o a hid =>
      obtain ⟨fileLock, heq⟩ := dropDump_eq s (.operation id) a
      rw [heq]
      exact h.drop hid
  | drop hid hstage => exact h.drop hid
  | flusher hmove =>
      cases hmove with
      | flush hidle | stop hidle => cases hstopped.symm.trans hidle
      | flushed hended => cases hstopped.symm.trans hended

/-! ## Changes that may be stored -/

/-- All changes, made or still to be made, have a property. -/
structure Writes (p : Change → Prop) (s : Layered) : Prop where
  made : ∀ e ∈ s.applied, p e.2
  coming : ∀ id change stage, s.operations.get? id = some (.write change, stage) → p change

theorem Writes.happens {p : Change → Prop} (h : Writes p s)
    (hbegin : ∀ id change, label = .begin id (.write change) → p change) (hhappens : Happens s label t) :
    Writes p t := by
  refine ⟨?_, fun id change stage hid => ?_⟩
  · cases hhappens with
    | @move id o stage next u hid hmove =>
        cases hmove with
        | change =>
            intro e he
            rcases List.mem_append.1 he with he | he
            · exact h.made e he
            · obtain rfl := List.mem_singleton.1 he
              exact h.coming id _ _ hid
        | _ => exact h.made
    | dump hk hmove =>
        obtain ⟨_, _, _, rfl⟩ := hmove.eq
        rw [applied_setDump]
        exact h.made
    | @dropDump _ id o a hid =>
        obtain ⟨_, heq⟩ := dropDump_eq s (.operation id) a
        rw [heq]
        exact h.made
    | _ => exact h.made
  · rcases (comes_of_happens hhappens hid).before with hlabel | ⟨before, hbefore⟩
    · exact hbegin id change hlabel
    · exact h.coming id change before hbefore

theorem writes_of_stepwise {p : Change → Prop} {path : Path} {writeThrough : Bool} {memory : Memory} {disk : Disk}
    {labels : List LayeredStep} (hbegin : ∀ id change, .begin id (.write change) ∈ labels → p change)
    (h : stepwise step (fresh path writeThrough memory disk) labels = some s) : Writes p s := by
  refine stepwise_keeps h ⟨nofun, fun _ _ _ h => nomatch h⟩ fun u a v ha hu hstep => ?_
  exact hu.happens (fun id change heq => hbegin id change (heq ▸ ha)) (happens_of_step hstep)

theorem Steady.isWellFormed (h : Steady first s) (hfirst : first.IsWellFormed)
    (hwrites : Writes (fun change => ∀ m ∈ change.metrics, m.isWellFormed) s) (hopen : s.memory.isOpen = true) :
    s.memory.contents.IsWellFormed := by
  rw [h.contents hopen]
  refine hfirst.applyAll fun change hchange => ?_
  obtain ⟨e, he, rfl⟩ := List.mem_map.1 hchange
  exact hwrites.made e he

/-! ## The file and the store -/

theorem tracks_of_stepwise {path : Path} {disk : Disk} {labels : List LayeredStep}
    (h : stepwise step (fresh path true ⟨first, true⟩ disk) labels = some s) (hopen : s.isOpen = true) :
    Tracks s := by
  have hall : Steady first s ∧ s.Locked ∧ s.writeThrough = true ∧ (s.isOpen = true → Tracks s) := by
    refine stepwise_keeps (P := fun s => Steady first s ∧ s.Locked ∧ s.writeThrough = true ∧
      (s.isOpen = true → Tracks s)) h ?_ fun u label v _ ⟨hsteady, hlock, hwrite, htracks⟩ hstep => ?_
    · exact ⟨steady_fresh path true first disk, locked_fresh path true _ disk, rfl, fun _ => tracks_fresh path _ disk⟩
    · have hhappens := happens_of_step hstep
      have hages := ages_of_happens hhappens
      refine ⟨hsteady.happens hhappens, hlock.effect (effect_of_happens hhappens), hages.writeThrough.trans hwrite,
        fun hopen => ?_⟩
      have hbefore : u.isOpen = true := by
        by_contra hclosed
        exact absurd ((hages.closed (by simpa using hclosed)).symm.trans hopen) nofun
      exact (htracks hbefore).happens hsteady hlock hwrite hopen hhappens
  exact hall.2.2.2 hopen

/-- When every write is followed by a snapshot and the layer has not been closed: if there has been a write, all
operations have returned and no snapshot has failed, then the text in the file is read as exactly the metrics in the
store. A write whose snapshot has failed has been answered like any other and is in the store. And at the end of any
snapshot that succeeds, the file is equal to the store if all writes, but for the one that makes it, have returned. -/
theorem file_follows_store {path : Path} {disk : Disk} {labels : List LayeredStep} (hfirst : first.IsWellFormed)
    (hwrites : ∀ id change, .begin id (.write change) ∈ labels → ∀ m ∈ change.metrics, m.isWellFormed)
    (h : stepwise step (fresh path true ⟨first, true⟩ disk) labels = some s) (hopen : s.isOpen = true) :
    (s.applied ≠ [] → (∀ id o stage, s.operations.get? id = some (o, stage) → stage.hasSucceeded) → s.Matches) ∧
    (∀ id change answer r, s.operations.get? id = some (.write change, .ended answer (some r)) →
      answer = .ok () ∧ (id, change) ∈ s.applied) ∧
    ∀ k, Complete (s.dump? k) →
      (∀ id change stage, s.operations.get? id = some (.write change, stage) → k ≠ .operation id →
        stage.hasReturned) → s.Matches := by
  have htracks := tracks_of_stepwise h hopen
  have hsteady := steady_of_stepwise h
  have hmatches : s.Shows s.memory.contents → s.Matches := fun hshows =>
    hshows.matches (hsteady.isWellFormed hfirst (writes_of_stepwise hwrites h) (hsteady.opened hopen))
  refine ⟨fun hmade hall => ?_, fun id change answer r hid => ?_, fun k hk hothers => ?_⟩
  · rcases htracks.shows with hnone | ⟨id, o, stage, hid, howes⟩ | hshows
    · exact absurd hnone hmade
    · rw [OperationStage.owes_of_hasSucceeded (hall id o stage hid)] at howes
      cases howes
    · exact hmatches hshows
  · have hfits := hsteady.operations id _ _ hid
    obtain rfl := hfits.answered answer r rfl ⟨change, rfl⟩
    exact ⟨rfl, hfits.changed change rfl rfl⟩
  · rcases htracks.exact with ⟨id, o, stage, hid, hunsettled⟩ | hexact
    · -- A write that waits for its snapshot has not returned, and is not the one whose snapshot has succeeded.
      exfalso
      obtain ⟨change, rfl⟩ := OperationStage.write_of_isUnsettled hunsettled
      by_cases hself : k = .operation id
      · subst hself
        obtain ⟨count, hend⟩ := hk
        rw [dump?_operation hid] at hend
        cases stage with
        | dumping a => rcases hend with hend | hend <;> cases hend <;> cases hunsettled
        | _ => rcases hend with hend | hend <;> cases hend
      · obtain ⟨answer, dumped, rfl⟩ := OperationStage.exists_of_hasReturned (hothers id change stage hid hself)
        cases hunsettled
    · obtain ⟨count, hend | hend⟩ := hk
      · exact hmatches (hexact k _ hend).shows
      · exact hmatches (hexact k _ hend)

def secondWrite : Change := .saveBatch [.counter "a" 2, .counter "b" 2]

/-- A write changes the store while another one's snapshot has looked one name up. -/
def tornWrite : List LayeredStep :=
  [.begin 0 (.write (.save (.counter "a" 1))), .advance 0, .advance 0, .advance 0, .dump 0 .advance, .dump 0 .advance,
    .dump 0 (.list ["a"]), .dump 0 .produce, .dump 0 .produce, .begin 1 (.write secondWrite), .advance 1, .advance 1,
    .advance 1, .dump 1 .advance, .dump 0 .produce, .dump 0 .produce, .dump 0 .advance, .dump 0 .advance,
    .dump 0 .advance, .dump 0 .advance, .dump 0 .advance, .dump 0 .advance, .dump 0 .advance, .dump 0 .advance,
    .advance 0]

/-- A snapshot of two metrics begins, and is about to be written. -/
def collected (id : Nat) : List LayeredStep :=
  List.flatten [List.replicate 2 (.dump id .advance), [.dump id (.list ["b", "a"])],
    List.replicate 7 (.dump id .produce), List.replicate 3 (.dump id .advance)]

/-- It is written, and its success is noted. -/
def written (id : Nat) : List LayeredStep := List.replicate 5 (.dump id .advance)

def emptyLayer : Layered := fresh (.ofFileText "m.json") true ⟨Dict.empty, true⟩ ⟨Dict.empty⟩

/-- The second write's snapshot succeeds. -/
def mended : List LayeredStep := List.flatten [tornWrite, collected 1, written 1, [.dump 1 .advance, .advance 1]]

/-- The second write's snapshot fails, and an operation makes one that succeeds. -/
def mendedLater : List LayeredStep :=
  List.flatten [tornWrite, collected 1, [.dump 1 (.fail .notFound), .dump 1 .advance, .advance 1, .begin 2 .dump,
    .advance 2], collected 2, written 2]

def storable : LayeredStep → Bool
  | .begin _ (.write change) => change.metrics.all (·.isWellFormed)
  | _ => true

theorem storable_all {labels : List LayeredStep} (h : labels.all storable) (id : Nat) (change : Change)
    (hin : .begin id (.write change) ∈ labels) : ∀ m ∈ change.metrics, m.isWellFormed :=
  List.all_eq_true.1 (List.all_eq_true.1 h _ hin)

theorem file_follows_store_torn :
    (∃ s, stepwise step emptyLayer mended = some s ∧ s.applied.length = 2 ∧ s.Matches) ∧
    ∃ s e, stepwise step emptyLayer mendedLater = some s ∧
      s.operations.get? 1 = some (.write secondWrite, .ended (.ok ()) (some (.error e))) ∧ s.Matches := by
  constructor
  · have hrun : (stepwise step emptyLayer mended).map (fun s =>
        (s.isOpen, s.applied.length, s.operations.values.all fun e => e.2.hasSucceeded)) = some (true, 2, true) := by
      decide +kernel
    obtain ⟨s, hs, hfacts⟩ := Option.map_eq_some_iff.1 hrun
    simp only [Prod.mk.injEq] at hfacts
    obtain ⟨hopen, hmade, hall⟩ := hfacts
    obtain ⟨hquiet, -⟩ := file_follows_store Contents.isWellFormed_empty (storable_all (by decide +kernel)) hs hopen
    refine ⟨s, hs, hmade, hquiet (fun hnone => by simp [hnone] at hmade) fun id o stage hid => ?_⟩
    exact List.all_eq_true.1 hall (o, stage) (Dict.mem_values_iff.2 ⟨id, hid⟩)
  · have hrun : (stepwise step emptyLayer mendedLater).map (fun s => (s.isOpen,
        (s.operations.get? 1).any fun e => e.1 = .write secondWrite && e.2.hasFailed,
        (s.dump? (.operation 2)).any (·.hasSucceeded),
        s.operations.values.all fun e => e.1 = .dump || e.2.hasReturned)) = some (true, true, true, true) := by
      decide +kernel
    obtain ⟨s, hs, hfacts⟩ := Option.map_eq_some_iff.1 hrun
    simp only [Prod.mk.injEq] at hfacts
    obtain ⟨hopen, hfailed, hcomplete, hothers⟩ := hfacts
    obtain ⟨-, hanswers, hends⟩ :=
      file_follows_store Contents.isWellFormed_empty (storable_all (by decide +kernel)) hs hopen
    obtain ⟨⟨o, stage⟩, hid, hstage⟩ := (Option.any_eq_true _ _).1 hfailed
    simp only [Bool.and_eq_true, decide_eq_true_eq] at hstage
    obtain ⟨rfl, hstage⟩ := hstage
    obtain ⟨answer, e, rfl⟩ := OperationStage.exists_of_hasFailed hstage
    obtain ⟨rfl, -⟩ := hanswers 1 secondWrite answer _ hid
    obtain ⟨a, ha, hsucceeded⟩ := (Option.any_eq_true _ _).1 hcomplete
    obtain ⟨count, rfl⟩ := DumpStage.exists_of_hasSucceeded hsucceeded
    refine ⟨s, e, hs, hid, hends _ ⟨count, .inr ha⟩ fun j change stage hj _ => ?_⟩
    have hended := List.all_eq_true.1 hothers _ (Dict.mem_values_iff.2 ⟨j, hj⟩)
    simpa using hended

end Layered

end PushMetrics
