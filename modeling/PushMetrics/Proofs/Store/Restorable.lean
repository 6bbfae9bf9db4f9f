import PushMetrics.Proofs.Snapshot.Publication
import PushMetrics.Proofs.Store.Realization
import PushMetrics.Proofs.Store.WellFormed

/-!
# Snapshots that can be restored

A store in memory, with a snapshot layer on it or without one, as long as it is open. If what it holds may be stored,
whatever it does leaves the snapshot file alone or replaces it by one that a new layer restores.
-/

namespace PushMetrics

open Snapshot

/-! ## Files -/

namespace Disk

/-- A file stands at a path, and metrics can be read from it. -/
def HasSnapshot (d : Disk) (path : String) : Prop :=
  ∃ bytes content ms, d.node? (.ofFileText path) = some (.file bytes) ∧ Text.ofUtf8? bytes = some content ∧
    decode content = .ok ms ∧ d.isDirectory (Path.ofFileText path).parent

/-- The file at a path has been left where it is, or replaced by one from which metrics can be read. -/
def Replaces (d d' : Disk) (path : String) : Prop :=
  (d'.node? (.ofFileText path) = d.node? (.ofFileText path) ∧
    (d.isDirectory (Path.ofFileText path).parent → d'.isDirectory (Path.ofFileText path).parent)) ∨
  d'.HasSnapshot path

variable {d d' : Disk} {path : String}

theorem Replaces.refl (d : Disk) (path : String) : d.Replaces d path := .inl ⟨rfl, id⟩

theorem Replaces.hasSnapshot (h : d.Replaces d' path) (hd : d.HasSnapshot path) : d'.HasSnapshot path := by
  rcases h with ⟨hnode, hparent⟩ | h
  · obtain ⟨bytes, content, ms, hfile, htext, hdecode, hdirectory⟩ := hd
    exact ⟨bytes, content, ms, hnode.trans hfile, htext, hdecode, hparent hdirectory⟩
  · exact h

end Disk

namespace Storage

/-- A file stands at a path, and a new snapshot layer restores from it without an error. -/
def Restorable (path : String) (w : World) : Prop :=
  (∃ bytes, w.disk.node? (.ofFileText path) = some (.file bytes)) ∧
    ∀ interval, ∃ restored, openSnapshot ⟨path, interval, true⟩ (.memory .fresh) w = (.ok (), restored, w)

variable {s s' : Storage} {layer : Layer} {path : String} {c d : Contents} {w w' : World}

theorem restorable_iff : Restorable path w ↔ w.disk.HasSnapshot path := by
  constructor
  · rintro ⟨⟨bytes, hfile⟩, hopened⟩
    obtain ⟨restored, hopened⟩ := hopened ⟨0⟩
    obtain ⟨hplain, -⟩ := Disk.node?_eq_file.1 hfile
    simp only [openSnapshot, LayerSettings.fault?, Path.named_eq_self hplain] at hopened
    split at hopened
    · cases hopened
    · rename_i hfault
      have hparent : w.disk.isDirectory (Path.ofFileText path).parent := by
        split at hfault
        · cases hfault
        · split at hfault
          · assumption
          · cases hfault
      simp only [↓reduceIte, restore_fresh_eq, Disk.readText, hfile] at hopened
      cases htext : Text.ofUtf8? bytes with
      | none =>
          rw [htext] at hopened
          cases hopened
      | some content =>
          rw [htext] at hopened
          cases hdecode : decode content with
          | error e =>
              simp only [hdecode] at hopened
              cases hopened
          | ok ms => exact ⟨bytes, content, ms, hfile, htext, hdecode, hparent⟩
  · rintro ⟨bytes, content, ms, hfile, htext, hdecode, hparent⟩
    exact ⟨⟨bytes, hfile⟩, fun interval => ⟨_, openSnapshot_of_text hfile htext hdecode hparent interval⟩⟩

theorem writeSnapshot_memory (layer : Layer) (c : Contents) (w : World) :
    writeSnapshot layer (memory ⟨c, true⟩) w = layer.write c.metrics w := rfl

/-- A snapshot of what may be stored stands at its path if it has been written, which is left alone if not. -/
theorem write_replaces {ms : List Metric} (hms : ∀ m ∈ ms, m.isWellFormed) {result : Except StorageError Nat}
    (h : layer.write ms w = (result, w')) :
    w.disk.Replaces w'.disk layer.path ∧ ∀ n, result = .ok n → w'.disk.HasSnapshot layer.path := by
  cases hsteps : runSteps (publication (.ofFileText layer.path) (Text.utf8 (encode ms))) w.disk with
  | mk fault disk =>
      simp only [Layer.write, hsteps] at h
      cases h
      cases fault with
      | some fault =>
          obtain ⟨hnode, hdirectories⟩ := publication_fails_keeps hsteps
          exact ⟨.inl ⟨hnode, hdirectories _⟩, fun n hn => by cases hn⟩
      | none =>
          obtain ⟨hfile, hparent⟩ := publication_succeeds hsteps
          have hsnapshot : Disk.HasSnapshot disk layer.path :=
            ⟨_, _, ms, hfile, Text.ofUtf8?_utf8 _, decode_encode hms, hparent⟩
          exact ⟨.inr hsnapshot, fun _ _ => hsnapshot⟩

theorem keepSnapshot_replaces (hc : c.IsWellFormed) (activity : String) (layer : Layer) (w : World) :
    w.disk.Replaces (keepSnapshot activity layer (memory ⟨c, true⟩) w).disk layer.path := by
  rw [keepSnapshot, writeSnapshot_memory]
  split
  · rename_i hwritten
    exact (write_replaces hc hwritten).1
  · rename_i hwritten
    exact (write_replaces hc hwritten).1

/-! ## Stores -/

/-- An open store in memory, under an open snapshot layer or under none, has these contents. -/
inductive InMemory : Storage → Contents → Prop where
  | alone (c : Contents) : InMemory (memory ⟨c, true⟩) c
  | underLayer {layer : Layer} (hopen : layer.isOpen = true) (c : Contents) : InMemory (layered layer c) c

/-- The path of the snapshot file, if there is a snapshot layer. -/
def path? : Storage → Option String
  | snapshot layer _ => some layer.path
  | _ => none

namespace InMemory

theorem get (h : s.InMemory c) (name : String) (w : World) : s.get name w = .ok (c.metric? name) := by
  cases h with
  | alone => rfl
  | underLayer hopen => simp [layered, Storage.get, hopen, Memory.get, Memory.whenOpen]

theorem getAll (h : s.InMemory c) (w : World) : s.getAll w = .ok c.metrics := by
  cases h with
  | alone => rfl
  | underLayer hopen =>
      simp only [layered, Storage.getAll, enumerate, hopen, ↓reduceIte]
      rfl

theorem holds (h : s.InMemory c) (w : World) : s.Holds w c := by
  cases h with
  | alone => exact ⟨rfl, .refl c⟩
  | underLayer hopen => exact ⟨hopen, rfl, .refl c⟩

theorem takes (h : s.InMemory c) (m : Metric) : s.Takes m := by
  cases h <;> trivial

theorem same (h : s.InMemory c) (hd : s.Holds w d) : c.Same d := by
  cases h with
  | alone => exact hd.2
  | underLayer => exact hd.2.2

/-- A change is applied, and if the store then holds what may be stored, so does the snapshot that follows. -/
theorem apply (h : s.InMemory c) (change : Change) (w : World) :
    ∃ s' w', s.apply change w = (.ok (), s', w') ∧ s'.InMemory (change.applyTo c) ∧
      ((change.applyTo c).IsWellFormed → ∀ path ∈ s.path?, w.disk.Replaces w'.disk path) := by
  cases h with
  | alone => exact ⟨_, _, rfl, .alone _, fun _ path hpath => by cases hpath⟩
  | @underLayer layer hopen =>
      let after := memory ⟨change.applyTo c, true⟩
      refine ⟨snapshot layer after, if layer.isWriteThrough then keepSnapshot "Write-through" layer after w else w, ?_,
        .underLayer hopen _, fun hc path hpath => ?_⟩
      · simp only [layered, Storage.apply, hopen, ↓reduceIte, Memory.apply, Memory.whenOpen]
        rfl
      · obtain rfl : layer.path = path := Option.some.inj hpath
        split
        · exact keepSnapshot_replaces hc _ _ _
        · exact .refl _ _

theorem tick (h : s.InMemory c) (w : World) :
    (s.tick w).1.InMemory c ∧ (c.IsWellFormed → ∀ path ∈ s.path?, w.disk.Replaces (s.tick w).2.disk path) := by
  cases h with
  | alone => exact ⟨.alone c, fun _ path hpath => by cases hpath⟩
  | @underLayer layer hopen =>
      simp only [layered, Storage.tick]
      cases layer.due with
      | none => exact ⟨.underLayer hopen c, fun _ path _ => .refl _ _⟩
      | some due =>
          by_cases hdue : due ≤ w.now
          · simp only [hdue, ↓reduceIte]
            have hnext : ({ layer with due := some (due + layer.interval.ceilMillis) } : Layer).isOpen = true := hopen
            refine ⟨.underLayer hnext c, fun hc path hpath => ?_⟩
            obtain rfl : layer.path = path := Option.some.inj hpath
            exact keepSnapshot_replaces hc _ _ _
          · simp only [hdue, ↓reduceIte]
            exact ⟨.underLayer hopen c, fun _ path _ => .refl _ _⟩

theorem dump (h : s.InMemory c) (hc : c.IsWellFormed) {result : Except StorageError Nat}
    (hdump : s.dump? w = some (result, w')) :
    ∀ path ∈ s.path?, w.disk.Replaces w'.disk path ∧ ∀ n, result = .ok n → w'.disk.HasSnapshot path := by
  intro path hpath
  cases h with
  | alone => cases hpath
  | @underLayer layer hopen =>
      obtain rfl : layer.path = path := Option.some.inj hpath
      have hwrite : layer.write c.metrics w = (result, w') := by
        simpa only [layered, dump?, hopen, ↓reduceIte, Option.some.injEq, writeSnapshot_memory] using hdump
      exact write_replaces hc hwrite

theorem close (h : s.InMemory c) (hc : c.IsWellFormed) {result : Except StorageError Unit}
    (hclose : s.close w = (result, s', w')) :
    ∀ path ∈ s.path?, w.disk.Replaces w'.disk path ∧ (result = .ok () → w'.disk.HasSnapshot path) := by
  intro path hpath
  cases h with
  | alone => cases hpath
  | @underLayer layer hopen =>
      obtain rfl : layer.path = path := Option.some.inj hpath
      simp only [layered, Storage.close, hopen, ↓reduceIte, writeSnapshot_memory, Memory.close, Memory.whenOpen]
        at hclose
      generalize hdumped : Layer.write _ c.metrics w = dumped at hclose
      obtain ⟨written, after⟩ := dumped
      obtain ⟨hreplaces, hsnapshot⟩ := write_replaces hc hdumped
      cases written with
      | ok n =>
          cases hclose
          exact ⟨hreplaces, fun _ => hsnapshot n rfl⟩
      | error e =>
          cases hclose
          exact ⟨hreplaces, fun hok => by cases hok⟩

end InMemory

/-! ## Opening -/

theorem restore_fresh (path : Path) (w : World) :
    ∃ result c, restore path (.memory .fresh) w = (result, .memory ⟨c, true⟩, w) := by
  rw [restore_fresh_eq]
  split
  · exact ⟨_, _, rfl⟩
  · exact ⟨_, _, rfl⟩
  · split <;> exact ⟨_, _, rfl⟩

/-- A new store in memory under a snapshot layer holds what the layer has restored, which may be stored. -/
theorem inMemory_of_openSnapshot {settings : LayerSettings}
    (h : openSnapshot settings (.memory .fresh) w = (.ok (), s, w')) : w' = w ∧ ∃ c, s.InMemory c ∧ c.IsWellFormed := by
  obtain ⟨layer, c, hopen, rfl, rfl⟩ : ∃ layer c, layer.isOpen = true ∧ s = layered layer c ∧ w' = w := by
    obtain ⟨result, c, hrestored⟩ := restore_fresh (.ofFileText settings.path) w
    simp only [openSnapshot, hrestored] at h
    split at h
    · cases h
    · by_cases hrestore : settings.restore
      · simp only [hrestore, ↓reduceIte] at h
        cases result with
        | error e => cases h
        | ok _ =>
            cases h
            exact ⟨_, c, rfl, rfl, rfl⟩
      · simp only [hrestore, Bool.false_eq_true, ↓reduceIte] at h
        cases h
        exact ⟨_, Dict.empty, rfl, rfl, rfl⟩
  exact ⟨rfl, c, .underLayer hopen c, isWellFormed_of_openSnapshot h⟩

end Storage

end PushMetrics
