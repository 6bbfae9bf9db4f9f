import PushMetrics.Proofs.Http.Update
import PushMetrics.Proofs.Http.Wire

/-!
# What an answer shows

An answer in JSON with 200 shows metrics: the results of a request that saves, or the one that has been asked for. They
are read from it as they are, provided that they may be stored.
-/

namespace PushMetrics.Http

open Json Payload Text

/-- The payloads in the body of an answer: an array of them to a batch, one to any other request. -/
def payloads? (r : Request) (body : String) : Option (List Payload) :=
  if r.path = "/updates/" then (Value.ofBytes? (utf8 body)).bind (Value.list? decode?)
  else ((Value.ofBytes? (utf8 body)).bind decode?).map ([·])

variable {r : Request} {request : Manager.Request} {s : Storage × World} {m : Metric} {ms : List Metric} {body : String}

theorem payloads?_single (hpath : r.path ≠ "/updates/") (hm : m.isWellFormed) :
    payloads? r (ofMetric m).encode = some [ofMetric m] := by
  rw [payloads?, if_neg hpath, ofBytes?_encode (isFinite_ofMetric hm), Option.map_some]

theorem payloads?_batch (hpath : r.path = "/updates/") (hms : ∀ m ∈ ms, m.isWellFormed) :
    payloads? r (encodeAll (ms.map ofMetric)) = some (ms.map ofMetric) := by
  rw [payloads?, if_pos hpath]
  refine ofBytes?_encodeAll fun p hp => ?_
  obtain ⟨m, hm, rfl⟩ := List.mem_map.1 hp
  exact isFinite_ofMetric (hms m hm)

/-! ## Answers to requests that save -/

/-- The answer to a request that saves shows the results, one for each metric. -/
theorem payloads?_respond (h : r.update? = some request) (hlength : ms.length = request.metrics.length)
    (hms : ∀ m ∈ ms, m.isWellFormed) (hanswer : respond request (.ok ms) = .json 200 body) :
    payloads? r body = some (ms.map ofMetric) := by
  rcases cases_of_update? h with ⟨-, hpath, p, m, -, -, rfl⟩ | ⟨-, hpath, ps, -, -, rfl⟩
  · obtain ⟨result, rfl⟩ := List.length_eq_one_iff.1 hlength
    cases hanswer
    exact payloads?_single (by simp [hpath]) (hms result List.mem_cons_self)
  · cases hanswer
    exact payloads?_batch hpath hms

/-! ## Other answers -/

theorem failure_of_refuseLength? {limit : Nat} {refusal : Response} (h : refuseLength? r limit = some refusal) :
    ∃ f, refusal = .failure f := by
  unfold refuseLength? at h
  split at h
  · cases h
  · split at h
    · cases h
      exact ⟨_, rfl⟩
    · split at h
      · cases h
        exact ⟨_, rfl⟩
      · cases h

theorem failure_of_readJson {α : Type} {decode : Value → Option α} {refusal : Response}
    (h : readJson decode r = .error refusal) : ∃ f, refusal = .failure f := by
  unfold readJson at h
  split at h
  · rename_i hlength
    cases h
    exact failure_of_refuseLength? hlength
  · split at h
    · cases h
      exact ⟨_, rfl⟩
    · split at h
      · cases h
      · cases h
        exact ⟨_, rfl⟩

theorem stored_of_value (hanswer : (value Storage.backend r s).1 = .json 200 body) :
    ∃ name m, s.1.get name s.2 = .ok (some m) ∧ body = (ofMetric m).encode := by
  unfold value at hanswer
  split at hanswer
  · rename_i hread
    obtain ⟨f, rfl⟩ := failure_of_readJson hread
    cases hanswer
  · rename_i q hread
    cases hkind : Kind.parse q.tag with
    | error e =>
        rw [hkind] at hanswer
        cases hanswer
    | ok kind =>
        simp only [hkind, Manager.get, Storage.backend] at hanswer
        cases hget : s.1.get q.id s.2 with
        | error e =>
            rw [hget] at hanswer
            cases hanswer
        | ok found =>
            simp only [hget] at hanswer
            cases hfound : found.filter fun m => m.kind == kind with
            | none =>
                rw [hfound] at hanswer
                cases hanswer
            | some m =>
                rw [hfound] at hanswer
                cases hanswer
                obtain ⟨rfl, -⟩ := Option.filter_eq_some_iff.1 hfound
                exact ⟨q.id, m, hget, rfl⟩

/-- A request that does not save is answered in JSON with 200 only if it asks for a value, which is the one in the
store. -/
theorem stored_of_update?_none (h : r.update? = none) (hanswer : (handle Storage.backend r s).1 = .json 200 body) :
    r.path = "/value/" ∧ ∃ name m, s.1.get name s.2 = .ok (some m) ∧ body = (ofMetric m).encode := by
  unfold Request.update? at h
  unfold handle at hanswer
  split at hanswer
  · rename_i hmethod hpath
    simp only [hmethod, hpath] at h
    unfold update at hanswer
    split at hanswer
    · rename_i hread
      obtain ⟨f, rfl⟩ := failure_of_readJson hread
      cases hanswer
    · rename_i p hread
      cases hp : p.toMetric with
      | error e =>
          rw [hp] at hanswer
          cases hanswer
      | ok m => simp [hread, hp, Except.toOption] at h
  · rename_i hmethod hpath
    simp only [hmethod, hpath] at h
    unfold updates at hanswer
    split at hanswer
    · rename_i hread
      obtain ⟨f, rfl⟩ := failure_of_readJson hread
      cases hanswer
    · rename_i ps hread
      by_cases hinvalid : invalidMessages ps = []
      · simp [hread, hinvalid] at h
      · rw [if_pos hinvalid] at hanswer
        cases hanswer
  · rename_i hpath
    exact ⟨hpath, stored_of_value hanswer⟩
  · unfold ping at hanswer
    split at hanswer <;> cases hanswer
  · unfold index at hanswer
    split at hanswer <;> cases hanswer
  · cases hanswer

end PushMetrics.Http
