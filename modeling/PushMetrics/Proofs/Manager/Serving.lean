import PushMetrics.Manager.Traffic

/-!
# Requests served alone

What a request to save answers and leaves behind when nobody else is at work.
-/

namespace PushMetrics.Manager

variable {σ : Type}

def Request.serve (b : Backend σ) : Request → σ → Except StorageError (List Metric) × σ
  | .save m, s => ((Manager.save b m s).1.map fun result => [result], (Manager.save b m s).2)
  | .saveBatch ms, s => Manager.saveBatch b ms s

/-! ## Requests in pieces -/

theorem resolveAll_snoc {b : Backend σ} {p pending : Pending} {ms results : List Metric} {s left final : σ} {m : Metric}
    {sample : Sample} (hms : resolveAll b p ms s = (.ok (results, pending), left))
    (hm : resolve b pending m left = (.ok sample, final)) :
    resolveAll b p (ms ++ [m]) s = (.ok (results ++ [⟨m.name, sample⟩], pending.put m.name sample), final) := by
  induction ms generalizing p s results with
  | nil =>
      cases hms
      simp only [List.nil_append, resolveAll, hm]
  | cons n rest ih =>
      simp only [List.cons_append, resolveAll] at hms ⊢
      cases hn : resolve b p n s with
      | mk result after =>
          rw [hn] at hms
          cases result with
          | error e => cases hms
          | ok first =>
              simp only at hms ⊢
              split at hms
              · cases hms
              · rename_i hrest
                cases hms
                rw [ih hrest]
                rfl

/-- A request whose metrics are resolved answers with the results once they are written. -/
theorem Request.serve_of_resolved {b : Backend σ} {r : Request} {results : List Metric} {pending : Pending} {s : σ}
    (hr : resolveAll b Dict.empty r.metrics s = (.ok (results, pending), s)) (hne : r.metrics ≠ []) :
    r.serve b s = match b.apply (r.change results pending) s with
      | (.error e, s) => (.error e, s)
      | (.ok _, s) => (.ok results, s) := by
  cases r with
  | save m =>
      simp only [metrics, resolveAll] at hr
      split at hr
      · cases hr
      · rename_i sample after hm
        cases hr
        cases hwrite : b.apply (.save ⟨m.name, sample⟩) s with
        | mk result final => cases result <;> simp only [serve, Manager.save, hm, change, hwrite, Except.map]
  | saveBatch ms =>
      simp only [metrics] at hr hne
      cases hwrite : b.apply (.saveBatch (Contents.metrics pending)) s with
      | mk result final =>
          cases result <;>
            simp only [serve, Manager.saveBatch, hr, List.isEmpty_iff, hne, ↓reduceIte, change, hwrite]

theorem Request.serve_of_unresolved {b : Backend σ} {r : Request} {e : StorageError} {s left : σ}
    (hr : resolveAll b Dict.empty r.metrics s = (.error e, left)) : r.serve b s = (.error e, left) := by
  cases r with
  | save m =>
      simp only [metrics, resolveAll] at hr
      cases hm : resolve b Dict.empty m s with
      | mk result after =>
          rw [hm] at hr
          cases result with
          | ok sample => cases hr
          | error fault =>
              cases hr
              simp only [serve, Manager.save, hm]
              rfl
  | saveBatch ms =>
      cases ms with
      | nil => cases hr
      | cons m rest =>
          simp only [metrics] at hr
          simp only [serve, Manager.saveBatch, List.isEmpty_cons, Bool.false_eq_true, ↓reduceIte, hr]

theorem Request.serve_of_empty {b : Backend σ} {r : Request} (hr : r.metrics = []) (s : σ) :
    r.serve b s = (.ok [], s) := by
  cases r with
  | save m => cases hr
  | saveBatch ms =>
      obtain rfl : ms = [] := hr
      rfl

/-- Requests served one after another: the answer to each, and what they leave behind. -/
def serveAll (b : Backend σ) : List Request → σ → List (Except StorageError (List Metric)) × σ
  | [], s => ([], s)
  | r :: rest, s => ((r.serve b s).1 :: (serveAll b rest (r.serve b s).2).1, (serveAll b rest (r.serve b s).2).2)

theorem serveAll_append (b : Backend σ) (rs rest : List Request) (s : σ) :
    serveAll b (rs ++ rest) s
      = ((serveAll b rs s).1 ++ (serveAll b rest (serveAll b rs s).2).1, (serveAll b rest (serveAll b rs s).2).2) := by
  induction rs generalizing s with
  | nil => rfl
  | cons r rs ih =>
      rw [List.cons_append, serveAll, ih, serveAll]
      rfl

theorem serveAll_of_idle {b : Backend σ} {rs : List Request} {s : σ} (h : ∀ r ∈ rs, (r.serve b s).2 = s) :
    serveAll b rs s = (rs.map fun r => (r.serve b s).1, s) := by
  induction rs with
  | nil => rfl
  | cons r rs ih =>
      rw [serveAll, h r List.mem_cons_self, ih fun r hr => h r (List.mem_cons_of_mem _ hr)]
      rfl

/-! ## Requests to a store in memory -/

section Memory

variable {m : Metric} {p : Pending} {s s' : PushMetrics.Memory}

theorem resolve_memory_left (p : Pending) (m : Metric) (s : PushMetrics.Memory) :
    (resolve Memory.backend p m s).2 = s := by
  unfold resolve
  split
  · rfl
  · split
    · rfl
    · simp only [Memory.backend]
      cases s.get m.name <;> rfl

theorem resolve_memory_error {e : StorageError} (h : (resolve Memory.backend p m s).1 = .error e) :
    e = .closed ∧ s.isOpen = false := by
  unfold resolve at h
  split at h
  · cases h
  · split at h
    · cases h
    · simp only [Memory.backend, Memory.get, Memory.whenOpen] at h
      cases hopen : s.isOpen with
      | false =>
          simp only [hopen, Bool.false_eq_true, ↓reduceIte] at h
          cases h
          exact ⟨rfl, rfl⟩
      | true =>
          simp only [hopen, ↓reduceIte] at h
          cases h

theorem resolve_memory_congr (hopen : s.isOpen = s'.isOpen) (hname : s.contents.get? m.name = s'.contents.get? m.name) :
    (resolve Memory.backend p m s).1 = (resolve Memory.backend p m s').1 := by
  have hget : s.get m.name = s'.get m.name := by
    simp only [Memory.get, Memory.whenOpen, Contents.metric?, hopen, hname]
  unfold resolve
  split
  · rfl
  · split
    · rfl
    · simp only [Memory.backend, hget]
      cases s'.get m.name <;> rfl

theorem resolveAll_memory_congr {ms : List Metric} (hopen : s.isOpen = s'.isOpen)
    (hnames : ∀ m ∈ ms, s.contents.get? m.name = s'.contents.get? m.name) {results : List Metric} {pending : Pending}
    (h : resolveAll Memory.backend p ms s = (.ok (results, pending), s)) :
    resolveAll Memory.backend p ms s' = (.ok (results, pending), s') := by
  induction ms generalizing p results with
  | nil =>
      cases h
      rfl
  | cons m rest ih =>
      have hfirst := resolve_memory_congr (p := p) hopen (hnames m List.mem_cons_self)
      have hleft := resolve_memory_left p m s
      have hleft' := resolve_memory_left p m s'
      simp only [resolveAll] at h ⊢
      cases hm : resolve Memory.backend p m s with
      | mk result left =>
          cases hm' : resolve Memory.backend p m s' with
          | mk result' left' =>
              rw [hm] at hfirst hleft h
              rw [hm'] at hfirst hleft'
              simp only at hfirst hleft hleft'
              subst hfirst hleft hleft'
              cases result with
              | error e => cases h
              | ok sample =>
                  simp only at h ⊢
                  split at h
                  · cases h
                  · rename_i more hrest
                    cases h
                    rw [ih (fun m hm => hnames m (List.mem_cons_of_mem _ hm)) hrest]

/-- Resolving leaves a store in memory as it is, and fails only if that is closed. -/
theorem resolveAll_memory (p : Pending) (ms : List Metric) (s : PushMetrics.Memory) :
    (resolveAll Memory.backend p ms s).2 = s ∧
      ∀ e, (resolveAll Memory.backend p ms s).1 = .error e → e = .closed ∧ s.isOpen = false := by
  induction ms generalizing p with
  | nil => exact ⟨rfl, fun _ h => by cases h⟩
  | cons m rest ih =>
      have hleft := resolve_memory_left p m s
      simp only [resolveAll]
      cases hm : resolve Memory.backend p m s with
      | mk result left =>
          rw [hm] at hleft
          obtain rfl : left = s := hleft
          cases result with
          | error e =>
              refine ⟨rfl, fun e' he => ?_⟩
              cases he
              exact resolve_memory_error (congrArg Prod.fst hm)
          | ok sample =>
              obtain ⟨hrest, herror⟩ := ih (p.put m.name sample)
              simp only
              split
              · rename_i hr
                rw [hr] at hrest herror
                exact ⟨hrest, fun e' he => herror e' (by cases he; rfl)⟩
              · rename_i hr
                rw [hr] at hrest
                exact ⟨hrest, fun e' he => by cases he⟩

theorem Request.serve_of_closed {r : Request} (hs : s.isOpen = false) (hr : r.metrics ≠ []) :
    r.serve Memory.backend s = (.error .closed, s) := by
  have happly : ∀ change, Memory.backend.apply change s = (.error .closed, s) := by
    intro change
    simp [Memory.backend, Memory.apply, Memory.whenOpen, hs]
  obtain ⟨hleft, herror⟩ := resolveAll_memory Dict.empty r.metrics s
  cases hres : resolveAll Memory.backend Dict.empty r.metrics s with
  | mk result left =>
      rw [hres] at hleft herror
      obtain rfl : left = s := hleft
      cases result with
      | ok found =>
          rw [serve_of_resolved hres hr, happly]
      | error e =>
          obtain ⟨rfl, -⟩ := herror e rfl
          exact serve_of_unresolved hres

end Memory

end PushMetrics.Manager
