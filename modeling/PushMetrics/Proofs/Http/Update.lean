import PushMetrics.Http.Update
import PushMetrics.Proofs.Http.Service
import PushMetrics.Proofs.Manager.Serving
import PushMetrics.Proofs.Store.WellFormed

/-!
# Requests that save

Handling a request that saves is to have the manager carry it out and to tell the result; no other request changes
anything. What such a request saves may be stored.
-/

namespace PushMetrics.Http

open Json

variable {σ : Type} {r : Request} {request : Manager.Request}

/-- The two kinds of requests that save, with what is read from their bodies. -/
theorem cases_of_update? (h : r.update? = some request) :
    (r.method = "POST" ∧ r.path = "/update/" ∧ ∃ p m, readJson Payload.decode? r = .ok p ∧ p.toMetric = .ok m ∧
      request = .save m) ∨
    (r.method = "POST" ∧ r.path = "/updates/" ∧ ∃ ps, readJson (Value.list? Payload.decode?) r = .ok ps ∧
      invalidMessages ps = [] ∧ request = .saveBatch (validMetrics ps)) := by
  unfold Request.update? at h
  split at h
  · rename_i hmethod hpath
    split at h
    · cases h
    · rename_i p hread
      cases hp : p.toMetric with
      | error e =>
          rw [hp] at h
          cases h
      | ok m =>
          rw [hp] at h
          cases h
          exact .inl ⟨hmethod, hpath, p, m, hread, hp, rfl⟩
  · rename_i hmethod hpath
    split at h
    · cases h
    · rename_i ps hread
      split at h
      · cases h
      · rename_i hvalid
        cases h
        exact .inr ⟨hmethod, hpath, ps, hread, by simpa using hvalid, rfl⟩
  · cases h

theorem handle_of_update? (h : r.update? = some request) (b : Backend σ) (s : σ) :
    handle b r s = (respond request (request.serve b s).1, (request.serve b s).2) := by
  rcases cases_of_update? h with ⟨hmethod, hpath, p, m, hread, hp, rfl⟩ | ⟨hmethod, hpath, ps, hread, hvalid, rfl⟩
  · simp only [handle, hmethod, hpath, update, hread, hp, Manager.Request.serve]
    cases hsave : Manager.save b m s with
    | mk result after => cases result <;> rfl
  · simp only [handle, hmethod, hpath, updates, hread, hvalid, ne_eq, not_true_eq_false, ↓reduceIte,
      Manager.Request.serve]
    cases hsave : Manager.saveBatch b (validMetrics ps) s with
    | mk result after => cases result <;> rfl

/-- A request that does not save leaves the store as it is. -/
theorem handle_of_update?_none (h : r.update? = none) (s : Storage × World) : (handle Storage.backend r s).2 = s := by
  unfold Request.update? at h
  unfold handle
  split
  · rename_i hmethod hpath
    simp only [hmethod, hpath] at h
    unfold update
    split
    · rfl
    · rename_i p hread
      simp only [hread] at h
      cases hp : p.toMetric with
      | error e => rfl
      | ok m =>
          rw [hp] at h
          cases h
  · rename_i hmethod hpath
    simp only [hmethod, hpath] at h
    unfold updates
    split
    · rfl
    · rename_i ps hread
      simp only [hread] at h
      split at h
      · rename_i hinvalid
        rw [if_pos hinvalid]
      · cases h
  · exact value_state r s
  · exact ping_state s
  · exact index_state s
  · rfl

theorem isWellFormed_of_update? (h : r.update? = some request) : ∀ m ∈ request.metrics, m.isWellFormed := by
  rcases cases_of_update? h with ⟨-, -, p, m, -, hp, rfl⟩ | ⟨-, -, ps, -, -, rfl⟩
  · simpa [Manager.Request.metrics] using Payload.isWellFormed_of_toMetric hp
  · intro m hm
    obtain ⟨p, -, hp⟩ := List.mem_filterMap.1 hm
    cases hmetric : p.toMetric with
    | error e =>
        rw [hmetric] at hp
        cases hp
    | ok n =>
        rw [hmetric] at hp
        cases hp
        exact Payload.isWellFormed_of_toMetric hmetric

theorem ok_of_respond {result : Except StorageError (List Metric)} (h : (respond request result).status = 200) :
    ∃ saved, result = .ok saved := by
  cases result with
  | error e => cases request <;> cases h
  | ok saved => exact ⟨saved, rfl⟩

end PushMetrics.Http
