import PushMetrics.Metric.Payload
import PushMetrics.Store.Backend
import PushMetrics.Proofs.Sql.Table

/-!
# Backends that behave as contents

A backend realizes contents if it finds under every name what the contents have there, but for the sign of a zero,
accepts every change whose metrics it takes, and then behaves as the changed contents. Every open store does, and so
does one below any number of open snapshot layers, whether or not a snapshot can be written.
-/

namespace PushMetrics

/-- A backend that answers as contents do and takes certain metrics; `holds` says which contents a state stands for. -/
structure Backend.Realizes {σ : Type} (b : Backend σ) (takes : Metric → Prop) (holds : σ → Contents → Prop) :
    Prop where
  counter : ∀ name count, takes (.counter name count)
  get : ∀ {s c}, holds s c → ∀ name, holds (b.get name s).2 c ∧ ∃ found, (b.get name s).1 = .ok found ∧
    (found.map (·.sample)).map (·.unsigned) = (c.get? name).map (·.unsigned)
  apply : ∀ {s c}, holds s c → ∀ {change : Change}, (∀ m ∈ change.metrics, takes m) →
    (b.apply change s).1 = .ok () ∧ holds (b.apply change s).2 (change.applyTo c)
  same : ∀ {s c d}, holds s c → c.Same d → holds s d

def Memory.Holds (m : Memory) (c : Contents) : Prop := m.isOpen = true ∧ m.contents.Same c

theorem Contents.map_sample_metric? (c : Contents) (name : String) :
    (c.metric? name).map (·.sample) = c.get? name := by
  simp [metric?, Option.map_map, Function.comp_def]

theorem Memory.backend_realizes : Memory.backend.Realizes (fun _ => True) Memory.Holds where
  counter _ _ := trivial
  get := by
    rintro m c ⟨ho, hs⟩ name
    refine ⟨⟨ho, hs⟩, c.metric? name, ?_, by rw [Contents.map_sample_metric?]⟩
    simp [backend, Memory.get, whenOpen, ho, hs.metric? name]
  apply := by
    rintro m c ⟨ho, hs⟩ change -
    simp only [backend, Memory.apply, whenOpen, ho, ↓reduceIte]
    exact ⟨trivial, rfl, hs.applyTo change⟩
  same := fun ⟨ho, hs⟩ hd => ⟨ho, hs.trans hd⟩

namespace Storage

/-- An open store, below open snapshot layers if any, holds contents. -/
def Holds : Storage → World → Contents → Prop
  | memory m, _, c => m.Holds c
  | table connection, w, c => connection.isOpen = true ∧ connection.readOnly = false ∧
    connection.database < w.databases.length ∧ (w.database connection.database).Holds c
  | snapshot layer inner, w, c => layer.isOpen = true ∧ inner.Holds w c

/-- A table takes no gauge that is not a number; other stores take everything. -/
def Takes : Storage → Metric → Prop
  | memory _, _ => True
  | table _, m => m.sample ≠ .gauge .nan
  | snapshot _ inner, m => inner.Takes m

variable {store : Storage} {w w' : World} {c d : Contents}

theorem takes_of_ne_nan {m : Metric} (h : m.sample ≠ .gauge .nan) : store.Takes m := by
  induction store with
  | memory memory => trivial
  | table connection => exact h
  | snapshot layer inner ih => exact ih

/-- Every store takes what a payload stands for. -/
theorem takes_of_toMetric {p : Payload} {m : Metric} (h : p.toMetric = .ok m) : store.Takes m := by
  simp only [Payload.toMetric, bind, Except.bind, pure, Except.pure, throw, throwThe, MonadExceptOf.throw] at h
  refine takes_of_ne_nan fun hnan => ?_
  repeat' split at h
  all_goals cases h
  · cases hnan
  · rename_i hfinite
    cases hnan
    cases hfinite

theorem Holds.of_databases (h : store.Holds w c) (hw : w'.databases = w.databases) : store.Holds w' c := by
  induction store with
  | memory m => exact h
  | table connection =>
      simp only [Holds, World.database, hw] at h ⊢
      exact h
  | snapshot layer inner ih => exact ⟨h.1, ih h.2⟩

theorem Holds.same (h : store.Holds w c) (hd : c.Same d) : store.Holds w d := by
  induction store with
  | memory m => exact Memory.backend_realizes.same h hd
  | table connection =>
      obtain ⟨ho, hwritable, hdatabase, hholds⟩ := h
      exact ⟨ho, hwritable, hdatabase, hholds.same hd⟩
  | snapshot layer inner ih => exact ⟨h.1, ih h.2⟩

theorem Holds.get (h : store.Holds w c) (name : String) :
    ∃ found, store.get name w = .ok found ∧
      (found.map (·.sample)).map (·.unsigned) = (c.get? name).map (·.unsigned) := by
  induction store with
  | memory m => exact (Memory.backend_realizes.get h name).2
  | table connection =>
      obtain ⟨ho, -, -, hholds⟩ := h
      refine ⟨(c.metric? name).map fun m => ⟨m.name, m.sample.unsigned⟩, ?_, ?_⟩
      · simp only [Storage.get, Connection.ask, ho, ↓reduceIte, hholds.select name]
      · cases hc : c.get? name with
        | none => simp [Contents.metric?, hc]
        | some sample => simp [Contents.metric?, hc, Sample.unsigned_unsigned]
  | snapshot layer inner ih =>
      rw [Storage.get, if_pos h.1]
      exact ih h.2

theorem databases_keepSnapshot (activity : String) (layer : Layer) (inner : Storage) (w : World) :
    (keepSnapshot activity layer inner w).databases = w.databases := by
  have hwrite : (writeSnapshot layer inner w).2.databases = w.databases := by
    unfold writeSnapshot
    split <;> rfl
  unfold keepSnapshot
  split
  · rename_i after hafter
    rw [hafter] at hwrite
    exact hwrite
  · rename_i after hafter
    rw [hafter] at hwrite
    exact hwrite

theorem Holds.apply_table {connection : Connection} (h : (table connection).Holds w c) {change : Change}
    (hms : ∀ m ∈ change.metrics, m.sample ≠ .gauge .nan) :
    ∃ after, connection.change w change = (.ok (), after) ∧ (table connection).Holds after (change.applyTo c) := by
  obtain ⟨ho, hwritable, hdatabase, hholds⟩ := h
  obtain ⟨database, hchange, hafter⟩ := hholds.apply hms
  refine ⟨w.setDatabase connection.database database, ?_, ho, hwritable, ?_, ?_⟩
  · simp only [Connection.change, ho, hwritable, Bool.false_eq_true, ↓reduceIte, hchange]
  · simpa [World.setDatabase] using hdatabase
  · simpa [World.database, World.setDatabase, hdatabase] using hafter

theorem Holds.apply (h : store.Holds w c) {change : Change} (hms : ∀ m ∈ change.metrics, store.Takes m) :
    ∃ store' w', store.apply change w = (.ok (), store', w') ∧ store'.Holds w' (change.applyTo c) ∧
      store'.Takes = store.Takes := by
  induction store with
  | memory m =>
      obtain ⟨ho, hs⟩ := h
      refine ⟨memory ⟨change.applyTo m.contents, m.isOpen⟩, w, ?_, ⟨ho, hs.applyTo change⟩, rfl⟩
      simp only [Storage.apply, Memory.apply, Memory.whenOpen, ho, ↓reduceIte]
  | table connection =>
      obtain ⟨after, hchange, hafter⟩ := h.apply_table hms
      exact ⟨table connection, after, by simp only [Storage.apply, hchange], hafter, rfl⟩
  | snapshot layer inner ih =>
      obtain ⟨ho, hi⟩ := h
      obtain ⟨inner', w', happly, hin, htakes⟩ := ih hi hms
      refine ⟨snapshot layer inner', if layer.isWriteThrough then keepSnapshot "Write-through" layer inner' w' else w',
        by simp only [Storage.apply, ho, ↓reduceIte, happly], ⟨ho, ?_⟩, ?_⟩
      · split
        · exact hin.of_databases (databases_keepSnapshot _ _ _ _)
        · exact hin
      · exact funext fun m => congrFun htakes m

/-- Stores in the place of a given one realize contents; what they take stays the same. -/
theorem backend_realizes (store : Storage) :
    backend.Realizes store.Takes fun s c => s.1.Holds s.2 c ∧ s.1.Takes = store.Takes where
  counter _ _ := takes_of_ne_nan (by simp [Metric.counter])
  get h name := ⟨h, h.1.get name⟩
  apply := by
    rintro ⟨s, w⟩ c ⟨hholds, htakes⟩ change hms
    obtain ⟨s', w', happly, hafter, hsame⟩ := hholds.apply fun m hm => htakes ▸ hms m hm
    simp only [backend, happly]
    exact ⟨trivial, hafter, hsame.trans htakes⟩
  same h hd := ⟨h.1.same hd, h.2⟩

end Storage

end PushMetrics
