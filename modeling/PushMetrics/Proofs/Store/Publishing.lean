import PushMetrics.Proofs.Run
import PushMetrics.Proofs.Snapshot.Publication
import PushMetrics.Proofs.Store.Dumping
import PushMetrics.Store.Storage
import Mathlib.Logic.Relation

/-!
# The file is whole at every moment

Under the name of a layer's file stands what stood there at first, or all that one snapshot was to write. The lock lets
one snapshot after another work under the temporary name, and only the last step of a snapshot touches the file.
-/

namespace PushMetrics.Layered

open Snapshot

/-- What stands under the name of the layer's file. -/
def content (s : Layered) : Option Node := s.disk.item? s.path.named

/-- What may happen to a layer over any store. Its steps are those over a store in memory; but another store may change
by itself, list other metrics, refuse to list any, and answer differently. The rest of the disk may change too. -/
inductive Goes (s : Layered) : Layered → Prop where
  | step {label : LayeredStep} {t : Layered} (h : s.step label = some t) : Goes s t
  | around (memory : Memory) (disk : Disk) (hfile : disk.item? s.path.named = s.disk.item? s.path.named)
      (htemporary : disk.item? (temporary s.path) = s.disk.item? (temporary s.path)) : Goes s { s with memory, disk }
  | list {k : Dumper} {source : Enumeration} {got : List Metric} (hk : s.dump? k = some (.collecting source got))
      (ms : List Metric) : Goes s ((s.outline ms).1.setDump k (s.outline ms).2)
  | refuse {k : Dumper} {a : DumpStage} (hk : s.dump? k = some a) (ha : a.holds)
      (hfiling : ∀ count steps, a ≠ .filing count steps) (hunlocking : ∀ result, a ≠ .unlocking result)
      (e : StorageError) : Goes s (s.setDump k (.unlocking (.error e)))
  | answer {id : Nat} {o : Operation} {stage : OperationStage} (hid : s.operations.get? id = some (o, stage))
      (hstage : stage.dump? = none) (answer : Except StorageError Unit) (dumped : Option (Except StorageError Nat)) :
      Goes s (s.setStage id o (.ended answer dumped))

/-- What holds of a layer at every moment, where `before` is what stood under the name of its file at first. -/
structure Sound (before : Option Node) (s : Layered) : Prop where
  apart : Apart s.path
  lock : s.fileLock.Balanced 1 s.holders
  underway : ∀ k count steps, s.dump? k = some (.filing count steps) →
    ∃ bytes ∈ s.outputs, Underway s.path bytes s.disk steps
  whole : s.content = before ∨ ∃ bytes ∈ s.outputs, s.content = some (.file bytes)
  encoded : ∀ bytes ∈ s.outputs, ∃ ms, bytes = Text.utf8 (encode ms)

theorem sound_fresh {p : Path} (hp : Apart p) (writeThrough : Bool) (memory : Memory) (disk : Disk) :
    (fresh p writeThrough memory disk).Sound (disk.item? p.named) where
  apart := hp
  lock := locked_fresh p writeThrough memory disk
  underway k count steps hk := by
    cases k with
    | flusher => cases writeThrough <;> cases hk
    | operation id => cases hk
  whole := .inl rfl
  encoded _ h := absurd h List.not_mem_nil

variable {before : Option Node} {s t u : Layered} {j k : Dumper} {a b : DumpStage} {id count : Nat} {o : Operation}
  {stage : OperationStage}

theorem Sound.exclusive (h : s.Sound before) (hj : Holding (s.dump? j)) (hk : Holding (s.dump? k)) : j = k :=
  Locked.exclusive h.lock hj hk

/-! ## Kept by every step -/

theorem Sound.quiet (h : s.Sound before) (hquiet : Quiet s t) : t.Sound before where
  apart := hquiet.path ▸ h.apart
  lock := by
    rw [hquiet.fileLock, hquiet.holders]
    exact h.lock
  underway k count steps hk := by
    obtain ⟨bytes, hbytes, hunderway⟩ := h.underway k count steps ((hquiet.dumps k _ rfl).1 hk)
    rw [hquiet.outputs, hquiet.path]
    exact ⟨bytes, hbytes, hunderway.of_entry? hquiet.temporary⟩
  whole := by
    rw [content, hquiet.path, hquiet.file, hquiet.outputs]
    exact h.whole
  encoded := hquiet.outputs ▸ h.encoded

/-- A snapshot that has the lock and keeps it may write and move files. -/
theorem Sound.work (h : s.Sound before) (hk : s.dump? k = some a) (ha : a.holds) (hb : b.holds) (disk : Disk)
    (outputs : List (List UInt8)) (houtputs : s.outputs ⊆ outputs)
    (hencoded : ∀ bytes ∈ outputs, ∃ ms, bytes = Text.utf8 (encode ms))
    (hunderway : ∀ count steps, b = .filing count steps → ∃ bytes ∈ outputs, Underway s.path bytes disk steps)
    (hcontent : disk.item? s.path.named = s.content ∨
      ∃ bytes ∈ outputs, disk.item? s.path.named = some (.file bytes)) :
    (setDump { s with disk, outputs } k b).Sound before := by
  have hdump : dump? { s with disk, outputs } k = some a := hk
  constructor
  · rw [path_setDump]
    exact h.apart
  · exact Locked.keep h.lock hk ha hb
  · intro j count steps hj
    rw [path_setDump, disk_setDump, outputs_setDump]
    rw [dump?_setDump hdump] at hj
    split at hj
    · exact hunderway count steps (Option.some.inj hj)
    · -- Whoever else had steps to take on the disk would have the lock too.
      rename_i hne
      exact absurd (h.exclusive (holding_iff.2 ⟨_, hj, rfl⟩) (holding_iff.2 ⟨a, hk, ha⟩)) hne
  · rw [content, path_setDump, disk_setDump, outputs_setDump]
    rcases hcontent with hsame | hfile
    · rw [hsame]
      exact h.whole.imp_right fun ⟨bytes, hbytes, hold⟩ => ⟨bytes, houtputs hbytes, hold⟩
    · exact .inr hfile
  · rw [outputs_setDump]
    exact hencoded

theorem Sound.stay (h : s.Sound before) (hk : s.dump? k = some a) (ha : a.holds) (hb : b.holds)
    (hfiling : ∀ count steps, b ≠ .filing count steps) : (s.setDump k b).Sound before :=
  h.work hk ha hb s.disk s.outputs (List.Subset.refl _) h.encoded
    (fun count steps heq => absurd heq (hfiling count steps)) (.inl rfl)

theorem Sound.outline (h : s.Sound before) (hk : s.dump? k = some a) (ha : a.holds) (ms : List Metric) :
    ((s.outline ms).1.setDump k (s.outline ms).2).Sound before := by
  refine h.work hk ha rfl s.disk _ (List.subset_append_left _ _) (fun bytes hbytes => ?_)
    (fun count steps heq => ?_) (.inl rfl)
  · rcases List.mem_append.1 hbytes with hbytes | hbytes
    · exact h.encoded bytes hbytes
    · exact ⟨ms, List.mem_singleton.1 hbytes⟩
  · cases heq
    exact ⟨_, List.mem_append_right _ (List.mem_singleton_self _), .creating⟩

theorem Sound.relock (h : s.Sound before) (hk : s.dump? k = some a) {fileLock : Permits Dumper}
    (hlock : (setDump { s with fileLock } k b).Locked) (hfiling : ∀ count steps, b ≠ .filing count steps) :
    (setDump { s with fileLock } k b).Sound before := by
  have hdump : dump? { s with fileLock } k = some a := hk
  constructor
  · rw [path_setDump]
    exact h.apart
  · exact hlock
  · intro j count steps hj
    rw [path_setDump, disk_setDump, outputs_setDump]
    rw [dump?_setDump hdump] at hj
    split at hj
    · exact absurd (Option.some.inj hj) (hfiling count steps)
    · exact h.underway j count steps hj
  · rw [content, path_setDump, disk_setDump, outputs_setDump]
    exact h.whole
  · rw [outputs_setDump]
    exact h.encoded

theorem Sound.move (h : s.Sound before) (hk : s.dump? k = some a) (hmove : DumpMoves s k a u b) :
    (u.setDump k b).Sound before := by
  cases hmove with
  | enter hfree => exact h.relock hk (Locked.move h.lock hk (.enter hfree)) nofun
  | queue hfree => exact h.relock hk (Locked.move h.lock hk (.queue hfree)) nofun
  | collect hgranted => exact h.relock hk (Locked.move h.lock hk (.collect hgranted)) nofun
  | proceed hopen => exact h.stay hk rfl rfl nofun
  | refuse hopen => exact h.stay hk rfl rfl nofun
  | list => exact h.stay hk rfl rfl nofun
  | produce hproduce => exact h.stay hk rfl rfl nofun
  | take htake => exact h.stay hk rfl rfl nofun
  | giveUp htake => exact h.stay hk rfl rfl nofun
  | outline htake hfinished => exact h.outline hk rfl _
  | file hstep =>
      obtain ⟨bytes, hbytes, hunderway⟩ := h.underway k _ _ hk
      obtain ⟨hrest, hcontent⟩ := hunderway.apply h.apart hstep
      refine h.work hk rfl rfl _ _ (List.Subset.refl _) h.encoded (fun count steps heq => ?_)
        (hcontent.imp_right fun ⟨_, hfile⟩ => ⟨bytes, hbytes, hfile⟩)
      cases heq
      exact ⟨bytes, hbytes, hrest⟩
  | part n hstep =>
      obtain ⟨bytes, hbytes, hunderway⟩ := h.underway k _ _ hk
      obtain ⟨hrest, hcontent⟩ := hunderway.part n hstep
      refine h.work hk rfl rfl _ _ (List.Subset.refl _) h.encoded (fun count steps heq => ?_) (.inl hcontent)
      cases heq
      exact ⟨bytes, hbytes, hrest⟩
  | fault fault => exact h.stay hk rfl rfl nofun
  | finish => exact h.stay hk rfl rfl nofun
  | unlock => exact h.relock hk (Locked.move h.lock hk .unlock) nofun

theorem Sound.drop (h : s.Sound before) (hid : s.operations.get? id = some (o, .dumping a)) :
    ((s.dropDump (.operation id) a).setStage id o .dropped).Sound before := by
  have hlock := Locked.drop h.lock hid
  obtain ⟨fileLock, heq⟩ := dropDump_eq s (.operation id) a
  rw [heq] at hlock ⊢
  refine ⟨h.apart, hlock, fun k count steps hk => ?_, h.whole, h.encoded⟩
  rw [dump?_setStage] at hk
  split at hk
  · cases hk
  · exact h.underway k count steps hk

theorem Sound.effect (h : s.Sound before) (heffect : Effect s t) : t.Sound before := by
  cases heffect with
  | dump hk hmove => exact h.move hk hmove
  | drop hid => exact h.drop hid
  | quiet hquiet => exact h.quiet hquiet

theorem quiet_around {memory : Memory} {disk : Disk}
    (hfile : disk.item? s.path.named = s.disk.item? s.path.named)
    (htemporary : disk.item? (temporary s.path) = s.disk.item? (temporary s.path)) :
    Quiet s { s with memory, disk } := ⟨rfl, rfl, rfl, rfl, hfile, htemporary, fun _ _ _ => Iff.rfl⟩

theorem quiet_answer (hid : s.operations.get? id = some (o, stage)) (hstage : stage.dump? = none)
    (answer : Except StorageError Unit) (dumped : Option (Except StorageError Nat)) :
    Quiet s (s.setStage id o (.ended answer dumped)) := by
  refine (Quiet.refl s).setStage ?_ rfl o
  rw [dump?_operation hid, hstage]
  rfl

theorem Sound.goes (h : s.Sound before) (hgoes : s.Goes t) : t.Sound before := by
  cases hgoes with
  | step hstep => exact h.effect (effect_of_step hstep)
  | around memory disk hfile htemporary => exact h.quiet (quiet_around hfile htemporary)
  | list hk ms => exact h.outline hk rfl ms
  | refuse hk ha hfiling hunlocking e => exact h.stay hk ha rfl nofun
  | answer hid hstage answer dumped => exact h.quiet (quiet_answer hid hstage answer dumped)

theorem Sound.run (h : s.Sound before) (hrun : Relation.ReflTransGen Goes s t) : t.Sound before := by
  induction hrun with
  | refl => exact h
  | tail _ hgoes ih => exact ih.goes hgoes

/-! ## What changes the file -/

/-- The file changes only when a snapshot that has the lock takes its last step, and then it is what that was to
write. -/
theorem Sound.changes (h : s.Sound before) (hgoes : s.Goes t) : t.content = s.content ∨
    ∃ k count, Holding (s.dump? k) ∧ t.dump? k = some (.filing count []) ∧
      ∃ bytes ∈ s.outputs, t.content = some (.file bytes) := by
  have hquiet : Quiet s t → t.content = s.content := fun hquiet => by rw [content, hquiet.path, hquiet.file, content]
  cases hgoes with
  | around memory disk hfile htemporary => exact .inl (hquiet (quiet_around hfile htemporary))
  | list hk ms => exact .inl (by simp [content, Layered.outline])
  | refuse hk => exact .inl (by simp [content])
  | answer hid hstage answer dumped => exact .inl (hquiet (quiet_answer hid hstage answer dumped))
  | step hstep =>
      cases effect_of_step hstep with
      | quiet h => exact .inl (hquiet h)
      | drop hid =>
          refine .inl ?_
          rename_i a
          cases a <;> rfl
      | @dump k _ _ _ hk hmove =>
          cases hmove with
          | @file count _ _ _ hfile =>
              obtain ⟨bytes, hbytes, hunderway⟩ := h.underway k _ _ hk
              obtain ⟨-, hsame | ⟨rfl, hdone⟩⟩ := hunderway.apply h.apart hfile
              · left
                simpa only [content, path_setDump, disk_setDump] using hsame
              · right
                refine ⟨k, count, holding_iff.2 ⟨_, hk, rfl⟩, ?_, bytes, hbytes, ?_⟩
                · rw [(DumpMoves.file hfile).dump?_setDump hk, if_pos rfl]
                · simpa only [content, path_setDump, disk_setDump] using hdone
          | part n hpart =>
              obtain ⟨bytes, -, hunderway⟩ := h.underway k _ _ hk
              left
              simpa only [content, path_setDump, disk_setDump] using (hunderway.part n hpart).2
          | _ =>
              left
              simp only [content, path_setDump, disk_setDump, Layered.outline]

/-- A snapshot has taken its last step, and its success may have been noted. -/
def Complete (stage : Option DumpStage) : Prop :=
  ∃ count, stage = some (.filing count []) ∨ stage = some (.unlocking (.ok count))

/-- A snapshot that is complete stays so for as long as it has the lock. -/
theorem Goes.complete (hgoes : s.Goes t) (hk : Complete (s.dump? k)) (hholding : Holding (t.dump? k)) :
    Complete (t.dump? k) := by
  have hsame : t.dump? k = s.dump? k → Complete (t.dump? k) := fun heq => heq ▸ hk
  obtain ⟨count, hk⟩ := hk
  have hquiet : Quiet s t → Complete (t.dump? k) := fun hquiet =>
    ⟨count, hk.imp (hquiet.dumps k _ rfl).2 (hquiet.dumps k _ rfl).2⟩
  cases hgoes with
  | around memory disk hfile htemporary => exact hsame rfl
  | @list j source got hj ms =>
      refine hsame ?_
      rw [dump?_setDump (show (s.outline ms).1.dump? j = _ from hj), if_neg]
      · rfl
      · rintro rfl
        rcases hk with hk | hk <;> rw [hk] at hj <;> cases hj
  | @refuse j a hj ha hfiling hunlocking e =>
      refine hsame ?_
      rw [dump?_setDump hj, if_neg]
      rintro rfl
      rcases hk with hk | hk <;> rw [hk] at hj <;> cases hj
      · exact hfiling _ _ rfl
      · exact hunlocking _ rfl
  | answer hid hstage answer dumped => exact hquiet (quiet_answer hid hstage answer dumped)
  | step hstep =>
      cases effect_of_step hstep with
      | quiet h => exact hquiet h
      | @drop id o a hid =>
          rw [dump?_setStage] at hholding hsame ⊢
          split at hholding
          · cases hholding
          · rename_i hne
            rw [if_neg hne] at hsame ⊢
            cases a <;> exact hsame rfl
      | @dump j a b u hj hmove =>
          rw [hmove.dump?_setDump hj] at hholding hsame ⊢
          split
          · rename_i heq
            obtain rfl := heq
            rw [if_pos rfl] at hholding
            rcases hk with hk | hk
            · obtain rfl := Option.some.inj (hj.symm.trans hk)
              cases hmove
              exact ⟨count, .inr rfl⟩
            · obtain rfl := Option.some.inj (hj.symm.trans hk)
              cases hmove
              cases hholding
          · rename_i hne
            rw [if_neg hne] at hsame
            exact hsame rfl

/-- A snapshot that fails has left the file as it was when it got the lock. -/
theorem Sound.unchanged (h : s.Sound before) (hs : Holding (s.dump? k)) {e : StorageError}
    (hrun : Relation.ReflTransGen (fun u v => u.Goes v ∧ Holding (v.dump? k)) s t)
    (ht : t.dump? k = some (.unlocking (.error e))) : t.content = s.content := by
  have hkept : t.Sound before ∧ Holding (t.dump? k) ∧ (t.content = s.content ∨ Complete (t.dump? k)) := by
    clear ht
    induction hrun with
    | refl => exact ⟨h, hs, .inl rfl⟩
    | tail _ hnext ih =>
        obtain ⟨hgoes, hholding⟩ := hnext
        obtain ⟨hsound, hheld, hsame | hcomplete⟩ := ih
        · refine ⟨hsound.goes hgoes, hholding, ?_⟩
          rcases hsound.changes hgoes with hnone | ⟨j, count, hj, hdone, -⟩
          · exact .inl (hnone.trans hsame)
          · -- Nobody else can have taken a step on the disk.
            obtain rfl := hsound.exclusive hj hheld
            exact .inr ⟨count, .inl hdone⟩
        · exact ⟨hsound.goes hgoes, hholding, .inr (hgoes.complete hcomplete hholding)⟩
  obtain ⟨-, -, hsame | ⟨count, hcomplete⟩⟩ := hkept
  · exact hsame
  · rw [ht] at hcomplete
    rcases hcomplete with hcomplete | hcomplete <;> cases hcomplete

theorem goes_of_stepwise {labels : List LayeredStep} (h : stepwise step s labels = some t) :
    Relation.ReflTransGen Goes s t :=
  stepwise_relates (fun _ => .refl) .trans (fun _ _ _ hstep => .single (.step hstep)) h

/-- At every moment of a layer over any store, with snapshots by anybody in any order and faults wherever the disk is
used, the name of the file leads to what it led to at first, or to the whole of what one snapshot was to write. It
changes only when a snapshot that has the lock takes its last step; and a snapshot that fails leaves it as it was when
it got the lock. The file must not have the ending of temporary files itself. -/
theorem file_stays_whole {text : String} (hname : ¬(Path.ofFileText text).EndsIn "tmp") {writeThrough : Bool}
    {memory : Memory} {disk : Disk}
    (hrun : Relation.ReflTransGen Goes (fresh (.ofFileText text) writeThrough memory disk) s) :
    (s.content = disk.item? (Path.ofFileText text).named ∨
      ∃ ms, Text.utf8 (encode ms) ∈ s.outputs ∧ s.content = some (.file (Text.utf8 (encode ms)))) ∧
    (∀ t, s.Goes t → t.content = s.content ∨
      ∃ k count, Holding (s.dump? k) ∧ t.dump? k = some (.filing count []) ∧
        ∃ ms, Text.utf8 (encode ms) ∈ s.outputs ∧ t.content = some (.file (Text.utf8 (encode ms)))) ∧
    ∀ k t e, Holding (s.dump? k) → Relation.ReflTransGen (fun u v => u.Goes v ∧ Holding (v.dump? k)) s t →
      t.dump? k = some (.unlocking (.error e)) → t.content = s.content := by
  have hsound := (sound_fresh (apart_ofFileText hname) writeThrough memory disk).run hrun
  have hwhole : ∀ {content : Option Node}, (∃ bytes ∈ s.outputs, content = some (.file bytes)) →
      ∃ ms, Text.utf8 (encode ms) ∈ s.outputs ∧ content = some (.file (Text.utf8 (encode ms))) := by
    rintro content ⟨bytes, hbytes, hfile⟩
    obtain ⟨ms, rfl⟩ := hsound.encoded bytes hbytes
    exact ⟨ms, hbytes, hfile⟩
  refine ⟨hsound.whole.imp_right hwhole, fun t hgoes => ?_, fun k t e hk hheld => hsound.unchanged hk hheld⟩
  refine (hsound.changes hgoes).imp_right ?_
  rintro ⟨k, count, hk, hdone, hfile⟩
  exact ⟨k, count, hk, hdone, hwhole hfile⟩

def stepsLeft (stage : Option DumpStage) : List FileStep :=
  match stage with
  | some (.filing _ steps) => steps
  | _ => []

/-- Any step on the disk may fail, which ends the snapshot and touches nothing. -/
theorem step_fault (h : stepsLeft (s.dump? (.operation id)) ≠ []) (fault : IoFault) :
    ∃ t, s.step (.dump id (.fail fault)) = some t ∧ t.content = s.content ∧
      t.dump? (.operation id) = some (.unlocking (.error (.io fault))) := by
  unfold stepsLeft at h
  split at h
  · rename_i count steps hk
    obtain ⟨step, rest, rfl⟩ := List.exists_cons_of_ne_nil h
    obtain ⟨⟨o, stage⟩, hid, hstage⟩ := Option.bind_eq_some_iff.1 hk
    cases stage with
    | dumping a =>
        obtain rfl : a = .filing count (step :: rest) := Option.some.inj hstage
        refine ⟨s.setStage id o (.dumping (.unlocking (.error (.io fault)))), ?_, rfl, ?_⟩
        · simp only [Layered.step, hid, dumpStep, Option.map_some]
        · rw [dump?_setStage, if_pos rfl]
          rfl
    | _ => cases hstage
  · exact absurd rfl h

/-- A layer over one counted hit, whose file has been there before. -/
def oneHit (name : String) : Layered :=
  fresh (.ofFileText name) false ⟨.ofMetrics [.counter "hits" 1], true⟩
    ⟨Dict.empty.put [name] (.file (Text.utf8 "old"))⟩

/-- An operation makes a snapshot of one metric, up to some bytes of it under the temporary name. -/
def cutOff : List LayeredStep :=
  [.begin 0 .dump, .advance 0, .dump 0 .advance, .dump 0 .advance, .dump 0 (.list ["hits"]), .dump 0 .produce,
    .dump 0 .produce, .dump 0 .produce, .dump 0 .produce, .dump 0 .advance, .dump 0 .advance, .dump 0 .advance,
    .dump 0 (.writePart 5)]

theorem not_endsIn_json : ¬(Path.ofFileText "m.json").EndsIn "tmp" := by
  rintro ⟨stem, -, hstem⟩
  have hlast : (Path.ofFileText "m.json").named.getLast? = some "m.json" := by decide +kernel
  rw [hlast] at hstem
  have hend := congrArg (fun name : String => name.toList.getLast?) (Option.some.inj hstem)
  simp at hend

/-- What is cut off stays beside the file, which a fault then leaves alone. -/
theorem file_stays_whole_cutOff : ∃ s t, stepwise step (oneHit "m.json") cutOff = some s ∧
    s.step (.dump 0 (.fail .notFound)) = some t ∧ s.content = some (.file (Text.utf8 "old")) ∧
    t.content = s.content := by
  have hrun : (stepwise step (oneHit "m.json") cutOff).map (fun s =>
      (Holding (s.dump? (.operation 0)), (stepsLeft (s.dump? (.operation 0))).isEmpty, s.content))
      = some (true, false, some (.file (Text.utf8 "old"))) := by decide +kernel
  obtain ⟨s, hs, hfacts⟩ := Option.map_eq_some_iff.1 hrun
  simp only [Prod.mk.injEq, List.isEmpty_eq_false_iff] at hfacts
  obtain ⟨hholding, hleft, hcontent⟩ := hfacts
  obtain ⟨t, ht, -, hfailed⟩ := step_fault hleft .notFound
  have hheld : Holding (t.dump? (.operation 0)) := holding_iff.2 ⟨_, hfailed, rfl⟩
  obtain ⟨-, -, hunchanged⟩ := file_stays_whole not_endsIn_json (goes_of_stepwise hs)
  exact ⟨s, t, hs, ht, hcontent, hunchanged _ t _ hholding (.single ⟨.step ht, hheld⟩) hfailed⟩

/-- A file with the ending of temporary files is written in place: a layer may be opened on it, and then it leads to a
part of a snapshot, also after that has failed. -/
theorem file_cutOff_inPlace :
    Storage.LayerSettings.fault? ⟨"m.tmp", ⟨1⟩, false⟩ ⟨(oneHit "m.tmp").disk, [], 0, []⟩ = none ∧
    ∃ s t, stepwise step (oneHit "m.tmp") cutOff = some s ∧ s.step (.dump 0 (.fail .notFound)) = some t ∧
      (oneHit "m.tmp").content = some (.file (Text.utf8 "old")) ∧
      s.content = some (.file (Text.utf8 "\x7b\"typ")) ∧ (∀ bytes ∈ s.outputs, s.content ≠ some (.file bytes)) ∧
      t.dump? (.operation 0) = some (.unlocking (.error (.io .notFound))) ∧
      t.content ≠ (oneHit "m.tmp").content := by
  have hrun : (stepwise step (oneHit "m.tmp") cutOff).map (fun s =>
      ((stepsLeft (s.dump? (.operation 0))).isEmpty, s.content, s.outputs))
      = some (false, some (.file (Text.utf8 "\x7b\"typ")), [Text.utf8 (encode [.counter "hits" 1])]) := by
    decide +kernel
  obtain ⟨s, hs, hfacts⟩ := Option.map_eq_some_iff.1 hrun
  simp only [Prod.mk.injEq, List.isEmpty_eq_false_iff] at hfacts
  obtain ⟨hleft, hcontent, houtputs⟩ := hfacts
  obtain ⟨t, ht, hsame, hfailed⟩ := step_fault hleft .notFound
  refine ⟨by decide +kernel, s, t, hs, ht, by decide +kernel, hcontent, ?_, hfailed, ?_⟩
  · rw [houtputs, hcontent]
    decide +kernel
  · rw [hsame, hcontent]
    decide +kernel

end PushMetrics.Layered
