import PushMetrics.Metric.Payload
import PushMetrics.Proofs.Snapshot.Codec
import PushMetrics.Proofs.Store.Contents
import PushMetrics.Proofs.Store.Restart

/-!
# What may be stored

Metrics that are read from text, from a payload or from a snapshot may be stored, and so may what they are merged to.
So a store in memory that a layer has been put on, and everything that is saved there later, may be written and read
again.
-/

namespace PushMetrics

theorem Metric.isWellFormed_iff {m : Metric} :
    m.isWellFormed ↔ m.name ≠ "" ∧ ∀ x, m.sample = .gauge x → x.isFinite = true := by
  obtain ⟨name, sample⟩ := m
  cases sample <;> simp [isWellFormed, Sample.isStorable]

theorem Metric.isWellFormed_of_parse {tag name value : String} {m : Metric} (h : parse tag name value = .ok m) :
    m.isWellFormed := by
  obtain ⟨kind, sample, hname, hsample, rfl⟩ := exists_of_parse h
  cases kind with
  | gauge =>
      rw [Sample.ofText?] at hsample
      obtain ⟨value, hvalue, rfl⟩ := Option.map_eq_some_iff.1 hsample
      simp [isWellFormed, hname, Sample.isStorable, (Option.filter_eq_some_iff.1 hvalue).2]
  | counter =>
      rw [Sample.ofText?] at hsample
      obtain ⟨count, -, rfl⟩ := Option.map_eq_some_iff.1 hsample
      simp [isWellFormed, hname, Sample.isStorable]

theorem Payload.isWellFormed_of_toMetric {p : Payload} {m : Metric} (h : p.toMetric = .ok m) : m.isWellFormed := by
  simp only [toMetric, bind, Except.bind, pure, Except.pure, throw, throwThe, MonadExceptOf.throw] at h
  repeat' split at h
  all_goals cases h
  all_goals simp_all [Metric.isWellFormed, Sample.isStorable]

/-! ## Merging -/

namespace Contents

variable {c d : Contents} {m : Metric} {ms : List Metric}

theorem isWellFormed_merged (c : Contents) (hm : m.isWellFormed) : (c.merged m).isWellFormed := by
  obtain ⟨name, sample⟩ := m
  rw [merged_eq]
  cases sample with
  | gauge value => rwa [Sample.merge_gauge]
  | counter count =>
      obtain ⟨hname, -⟩ := Bool.and_eq_true_iff.1 hm
      refine Bool.and_eq_true_iff.2 ⟨hname, ?_⟩
      cases c.get? name with
      | none => rfl
      | some prior => cases prior <;> rfl

theorem IsWellFormed.mergeAll (h : c.IsWellFormed) (hms : ∀ m ∈ ms, m.isWellFormed) :
    (c.mergeAll ms).2.IsWellFormed := by
  induction ms generalizing c with
  | nil => exact h
  | cons m ms ih =>
      exact ih (h.save (isWellFormed_merged c (hms m List.mem_cons_self)))
        fun n hn => hms n (List.mem_cons_of_mem m hn)

theorem isWellFormed_of_mem_mergeAll (hms : ∀ m ∈ ms, m.isWellFormed) (c : Contents) :
    ∀ m ∈ (c.mergeAll ms).1, m.isWellFormed := by
  induction ms generalizing c with
  | nil => simp [mergeAll]
  | cons m ms ih =>
      simp only [mergeAll, List.mem_cons, forall_eq_or_imp]
      exact ⟨isWellFormed_merged c (hms m List.mem_cons_self), ih (fun n hn => hms n (List.mem_cons_of_mem m hn)) _⟩

theorem IsWellFormed.same (h : d.IsWellFormed) (hsame : c.Same d) : c.IsWellFormed := by
  intro m hm
  rw [mem_metrics_iff, hsame m.name, ← mem_metrics_iff] at hm
  exact h m hm

end Contents

/-! ## Snapshots -/

theorem Snapshot.isWellFormed_of_decodeMetric {line : String} {m : Metric} (h : decodeMetric line = .ok m) :
    m.isWellFormed := by
  unfold decodeMetric at h
  dsimp only at h
  split at h
  · cases h
  · split at h
    · rename_i hparse
      cases h
      exact Metric.isWellFormed_of_parse hparse
    · cases h

theorem Snapshot.isWellFormed_of_decodeLines {lines : List String} {number : Nat} {ms : List Metric}
    (h : decodeLines number lines = .ok ms) : ∀ m ∈ ms, m.isWellFormed := by
  induction lines generalizing number ms with
  | nil =>
      cases h
      simp
  | cons line rest ih =>
      rw [decodeLines] at h
      split at h
      · exact ih h
      · split at h
        · cases h
        · rename_i m hm
          cases hrest : decodeLines (number + 1) rest with
          | error e =>
              rw [hrest] at h
              cases h
          | ok more =>
              rw [hrest] at h
              cases h
              simp only [List.mem_cons, forall_eq_or_imp]
              exact ⟨isWellFormed_of_decodeMetric hm, ih hrest⟩

namespace Storage

variable {settings : LayerSettings} {layer : Layer} {path : Path} {c : Contents} {w w' : World}
  {result : Except StorageError Unit}

theorem isWellFormed_of_restore (h : restore path (.memory .fresh) w = (result, .memory ⟨c, true⟩, w')) :
    c.IsWellFormed := by
  rw [restore_fresh_eq] at h
  split at h
  · cases h
    exact Contents.isWellFormed_empty
  · cases h
    exact Contents.isWellFormed_empty
  · split at h
    · cases h
      exact Contents.isWellFormed_empty
    · rename_i ms hms
      cases h
      exact Contents.isWellFormed_empty.saveAll (Snapshot.isWellFormed_of_decodeLines hms)

/-- A new store in memory under a snapshot layer holds what the layer has restored. -/
theorem isWellFormed_of_openSnapshot
    (h : openSnapshot settings (.memory .fresh) w = (.ok (), layered layer c, w')) : c.IsWellFormed := by
  simp only [openSnapshot] at h
  split at h
  · cases h
  · by_cases hrestore : settings.restore
    · simp only [hrestore, ↓reduceIte] at h
      generalize hrestored : restore (Path.ofFileText settings.path) (.memory .fresh) w = outcome at h
      obtain ⟨result, inner, after⟩ := outcome
      cases result with
      | error e => cases h
      | ok _ =>
          cases h
          exact isWellFormed_of_restore hrestored
    · simp only [hrestore, Bool.false_eq_true, ↓reduceIte] at h
      cases h
      exact Contents.isWellFormed_empty

end Storage

end PushMetrics
