import PushMetrics.Manager
import PushMetrics.Proofs.Store.Writing

/-!
# Running merges over any store

Whatever state a store is in, a call of the manager that fails changes nothing, and a batch that succeeds answers and
writes what its metrics give when they are saved one by one.
-/

namespace PushMetrics.Manager

open Storage

/-- The sample that a store gives for a name, if it gives one. -/
def heldBy (s : Storage × World) (name : String) : Option Sample :=
  match s.1.get name s.2 with
  | .ok (some m) => some m.sample
  | _ => none

/-- Metrics merged one after another, each into what its name holds by then. -/
def runningMerges (held : String → Option Sample) : List Metric → List Metric
  | [] => []
  | m :: rest =>
    let sample := Sample.merge (held m.name) m.sample
    ⟨m.name, sample⟩ :: runningMerges (fun name => if m.name = name then some sample else held name) rest

variable {p : Pending} {m : Metric} {ms : List Metric} {s t : Storage × World}

/-! ## Reading changes nothing -/

theorem resolve_state (p : Pending) (m : Metric) (s : Storage × World) : (resolve Storage.backend p m s).2 = s := by
  simp only [resolve, Storage.backend]
  repeat' split
  all_goals simp_all

theorem resolveAll_state (p : Pending) (ms : List Metric) (s : Storage × World) :
    (resolveAll Storage.backend p ms s).2 = s := by
  induction ms generalizing p with
  | nil => rfl
  | cons m ms ih =>
      have hm := resolve_state p m s
      rw [resolveAll]
      split
      · rename_i hresolve
        rw [hresolve] at hm
        exact hm
      · rename_i sample s' hresolve
        rw [hresolve] at hm
        obtain rfl : s' = s := hm
        have hrest := ih (p.put m.name sample)
        split
        · rename_i hall
          rw [hall] at hrest
          exact hrest
        · rename_i hall
          rw [hall] at hrest
          exact hrest

theorem get_state (kind : Kind) (name : String) (s : Storage × World) : (get Storage.backend kind name s).2 = s := by
  simp only [get, Storage.backend]
  split <;> simp_all

/-! ## Failing -/

theorem backend_apply_error {change : Change} {e : StorageError} (h : Storage.backend.apply change s = (.error e, t)) :
    t = s := by
  obtain ⟨hstore, hworld⟩ := Storage.apply_error h
  exact Prod.ext hstore hworld

theorem save_error {e : StorageError} (h : save Storage.backend m s = (.error e, t)) : t = s := by
  have hm := resolve_state Dict.empty m s
  unfold save at h
  split at h <;> rename_i hresolve <;> rw [hresolve] at hm
  · cases h
    exact hm
  · obtain rfl : _ = s := hm
    split at h
    · rename_i happly
      cases h
      exact backend_apply_error happly
    · cases h

theorem saveBatch_error {e : StorageError} (h : saveBatch Storage.backend ms s = (.error e, t)) : t = s := by
  have hms := resolveAll_state Dict.empty ms s
  unfold saveBatch at h
  split at h
  · cases h
  · split at h <;> rename_i hresolve <;> rw [hresolve] at hms
    · cases h
      exact hms
    · obtain rfl : _ = s := hms
      split at h
      · rename_i happly
        cases h
        exact backend_apply_error happly
      · cases h

/-! ## Succeeding -/

/-- The sample that is pending for a name, or else what the store gives. -/
def pendingOver (p : Pending) (s : Storage × World) (name : String) : Option Sample := (p.get? name).or (heldBy s name)

theorem resolve_ok {sample : Sample} (h : resolve Storage.backend p m s = (.ok sample, t)) :
    sample = .merge (pendingOver p s m.name) m.sample := by
  simp only [resolve, Storage.backend] at h
  split at h
  · rename_i hgauge
    cases h
    rw [hgauge, Sample.merge_gauge]
  · split at h
    · rename_i hpending
      cases h
      simp [pendingOver, hpending]
    · rename_i hpending
      split at h
      · cases h
      · rename_i found after hfound
        cases h
        have hget := congrArg Prod.fst hfound
        simp only at hget
        rw [pendingOver, hpending, Option.none_or, heldBy, hget]
        cases found <;> rfl

/-- What is resolved by what is pending is resolved in the same way once that has been written. -/
theorem resolve_laid {sample : Sample} {s' : Storage × World} (h : resolve Storage.backend p m s = (.ok sample, s'))
    (hlaid : Laid p s.1 s.2 t.1 t.2) : resolve Storage.backend Dict.empty m t = (.ok sample, t) := by
  have hget := hlaid.get m.name
  simp only [resolve, Storage.backend] at h ⊢
  cases hm : m.sample with
  | gauge value =>
      simp only [hm] at h ⊢
      cases h
      rfl
  | counter count =>
      simp only [hm, Dict.get?_empty] at h ⊢
      cases hpending : p.get? m.name with
      | some prior =>
          simp only [hpending] at h
          cases h
          simp only [hget, Contents.laidOver, hpending, Option.map_some]
          -- A table may have dropped the sign of a zero, which a count that replaces it does not show.
          rw [Sample.merge_counter_congr (a := some (s.1.keeps prior)) (b := some prior)]
          simp [unsigned_keeps]
      | none =>
          simp only [hpending] at h
          simp only [hget, Contents.laidOver, hpending]
          cases hfound : s.1.get m.name s.2 with
          | error e =>
              rw [hfound] at h
              cases h
          | ok found =>
              rw [hfound] at h
              cases h
              rfl

theorem resolveAll_ok {results : List Metric} {after : Pending}
    (h : resolveAll Storage.backend p ms s = (.ok (results, after), t)) :
    after = Contents.saveAll p results ∧ results = runningMerges (pendingOver p s) ms := by
  induction ms generalizing p results with
  | nil =>
      cases h
      exact ⟨rfl, rfl⟩
  | cons m ms ih =>
      rw [resolveAll] at h
      split at h
      · cases h
      · rename_i sample s' hresolve
        obtain rfl : s' = s := by simpa [hresolve] using resolve_state p m s
        split at h
        · cases h
        · rename_i hall
          cases h
          obtain ⟨hafter, hresults⟩ := ih hall
          have hsample := resolve_ok hresolve
          refine ⟨hafter, ?_⟩
          have hover : pendingOver (p.put m.name sample) s'
              = fun name => if m.name = name then some sample else pendingOver p s' name := by
            funext name
            simp only [pendingOver, Dict.get?_put]
            split <;> simp
          rw [runningMerges, ← hsample, ← hover, ← hresults]

theorem map_name_runningMerges (held : String → Option Sample) (ms : List Metric) :
    (runningMerges held ms).map (·.name) = ms.map (·.name) := by
  induction ms generalizing held with
  | nil => rfl
  | cons m ms ih => rw [runningMerges, List.map_cons, List.map_cons, ih]

/-- A batch that succeeds has resolved its metrics and written what was pending in the end. -/
theorem saveBatch_ok {results : List Metric} (h : saveBatch Storage.backend ms s = (.ok results, t)) :
    ∃ after, resolveAll Storage.backend Dict.empty ms s = (.ok (results, after), s) ∧
      (∀ m ∈ ms, s.1.Accepts s.2 m.name) ∧ Laid after s.1 s.2 t.1 t.2 := by
  unfold saveBatch at h
  split at h
  · rename_i hempty
    obtain rfl := List.isEmpty_iff.1 hempty
    cases h
    exact ⟨Dict.empty, rfl, by simp, Laid.refl _ _⟩
  · split at h
    · cases h
    · rename_i after s' hresolve
      obtain rfl : s' = s := by simpa [hresolve] using resolveAll_state Dict.empty ms s
      split at h
      · cases h
      · rename_i written t' happly
        cases h
        obtain ⟨hafter, hresults⟩ := resolveAll_ok hresolve
        obtain ⟨hallowed, hlaid⟩ := laid_of_apply (by simp) (show s'.1.apply _ s'.2 = (.ok (), t.1, t.2) from happly)
        refine ⟨after, hresolve, fun m hm => ?_, hlaid.same fun name => ?_⟩
        · have hname : m.name ∈ results.map (·.name) := by
            rw [hresults, map_name_runningMerges]
            exact List.mem_map.2 ⟨m, hm, rfl⟩
          obtain ⟨sample, hsample⟩ := Option.isSome_iff_exists.1 (Contents.isSome_get?_saveAll Dict.empty hname)
          rw [← hafter] at hsample
          exact (hallowed ⟨m.name, sample⟩ (Contents.mem_metrics_iff.2 hsample)).1
        · rw [Contents.ofMetrics, Change.metrics, Contents.get?_saveAll_metrics (List.Perm.refl _), Dict.get?_empty,
            Option.or_none]

/-- A metric whose sample has been resolved by what is pending is saved in the same way by a store to which that has
been written. -/
theorem save_laid {sample : Sample} {s' : Storage × World} (h : resolve Storage.backend p m s = (.ok sample, s'))
    (hlaid : Laid p s.1 s.2 t.1 t.2) (hname : s.1.Accepts s.2 m.name) (hm : t.1.Takes m) :
    ∃ t', save Storage.backend m t = (.ok ⟨m.name, sample⟩, t') ∧ Laid (p.put m.name sample) s.1 s.2 t'.1 t'.2 := by
  have htakes : t.1.Takes ⟨m.name, sample⟩ := by
    rw [resolve_ok h]
    exact hm.merge _
  obtain ⟨store, w, happly⟩ := Accepts.save (m := ⟨m.name, sample⟩) ((hlaid.accepts m.name).2 hname) htakes
  refine ⟨(store, w), ?_, hlaid.save happly⟩
  have hbackend : Storage.backend.apply (.save ⟨m.name, sample⟩) t = (.ok (), store, w) := happly
  simp only [save, resolve_laid h hlaid, hbackend]

end PushMetrics.Manager
