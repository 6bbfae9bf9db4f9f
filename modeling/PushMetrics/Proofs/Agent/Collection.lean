import PushMetrics.Proofs.Agent.Stages

/-!
# What a round collects

A round ends when every collector has answered, in whatever order they do so. It has the samples of those that have
succeeded and the number of those that have failed, and of the failures the first in the order of registration.
-/

namespace PushMetrics.Agent

def Yield.error? : Yield → Option CollectError
  | .error e => some e
  | .ok _ => none

/-- The samples of the collectors that have succeeded, in the order of registration. -/
def samples (results : List Yield) : List Metric := (results.filterMap Except.toOption).flatten

def failures (results : List Yield) : List CollectError := results.filterMap Yield.error?

theorem samples_eq_flatMap (results : List Yield) :
    samples results = results.flatMap fun result => result.toOption.getD [] := by
  induction results with
  | nil => rfl
  | cons result results ih =>
      rw [List.flatMap_cons, ← ih, samples, samples, List.filterMap_cons]
      cases result <;> rfl

theorem Round.ofResults_eq (results : List Yield) :
    Round.ofResults results = ⟨samples results, (failures results).length, (failures results).head?⟩ := by
  have hfailures : ∀ question : Yield → Option CollectError, (∀ result, question result = result.error?) →
      results.findSome? question = (failures results).head? := by
    intro question hquestion
    rw [failures, List.head?_filterMap, funext hquestion]
  have hfailed : (fun result : Yield => !result.isOk) = fun result => result.error?.isSome := by
    funext result
    cases result <;> rfl
  simp only [ofResults, Round.mk.injEq]
  refine ⟨(samples_eq_flatMap results).symm, ?_, hfailures _ fun result => by cases result <;> rfl⟩
  rw [failures, List.length_filterMap_eq_countP, hfailed]

namespace Gathering

variable {g g' : Gathering} {index : Nat} {result : Yield} {results : List Yield} {round : Round}

/-- A collector answers once. -/
theorem record?_spec (h : g.record? index result = some g') :
    g.answers[index]? = some none ∧ g'.answers = g.answers.set index (some result) := by
  unfold record? at h
  split at h
  · rename_i hnone
    cases h
    exact ⟨hnone, rfl⟩
  · cases h

theorem isSome_record? (h : g.answers[index]? = some none) (result : Yield) : (g.record? index result).isSome := by
  rw [record?, h]
  rfl

theorem mapM_id_eq_some {α : Type} {answers : List (Option α)} {results : List α} :
    answers.mapM id = some results ↔ answers = results.map some := by
  induction answers generalizing results with
  | nil => cases results <;> simp
  | cons answer answers ih =>
      cases results with
      | nil => simp [Option.bind_eq_some_iff]
      | cons result results => simp [Option.bind_eq_some_iff, ih]

/-- When every collector has answered, there are results. -/
theorem exists_results {answers : List (Option Yield)} (h : none ∉ answers) :
    ∃ results : List Yield, answers = results.map some := by
  induction answers with
  | nil => exact ⟨[], rfl⟩
  | cons answer answers ih =>
      rw [List.mem_cons, not_or] at h
      obtain ⟨results, rfl⟩ := ih h.2
      obtain ⟨result, rfl⟩ := Option.ne_none_iff_exists'.1 (Ne.symm h.1)
      exact ⟨result :: results, rfl⟩

theorem round?_eq (h : g.answers = results.map some) :
    g.round? = some ⟨samples results, (failures results).length, (failures results).head?⟩ := by
  rw [round?, mapM_id_eq_some.2 h, Option.map_some, Round.ofResults_eq]

theorem answers_of_round? (h : g.round? = some round) : ∃ results : List Yield, g.answers = results.map some := by
  obtain ⟨results, hresults, -⟩ := Option.map_eq_some_iff.1 h
  exact ⟨results, mapM_id_eq_some.1 hresults⟩

end Gathering

namespace State

variable {s t : State} {collectors number : Nat} {sooner : List Step} {label : Step}

/-- A round is asking its collectors, and those that have answered have done so by some of the steps so far. -/
def Gathers (collectors number : Nat) (sooner : List Step) (s : State) : Prop :=
  s.rounds = number ∧ ∃ g since d, s.stage = .running (.gathering g since) d ∧ g.answers.length = collectors ∧
    ∀ index result, g.answers[index]? = some (some result) ↔ .collected index result ∈ sooner

/-- What the collecting loop can do, the agent can do. -/
theorem isSome_of_collecting {c : CollectingLoop} {d : DeliveringLoop} (hs : s.stage = .running c d)
    (hc : c ≠ .stopped) (h : (s.collectingStep d c label).isSome) : (s.stageStep label).isSome := by
  unfold stageStep
  rw [hs]
  split
  · rename_i heq
    cases heq
    exact absurd rfl hc
  · rename_i heq
    cases heq
    rw [Option.isSome_or, h, Bool.true_or]
  · rename_i heq
    cases heq
  · rename_i heq
    cases heq
  · rename_i heq
    cases heq

/-- Whatever the other parties do is none of a round's business. -/
theorem Gathers.beside (h : s.Gathers collectors number sooner) (hrounds : t.rounds = s.rounds)
    (hstage : ∀ c d, s.stage = .running c d → ∃ d', t.stage = .running c d')
    (hl : ∀ index result, label ≠ .collected index result) : t.Gathers collectors number (sooner ++ [label]) := by
  obtain ⟨hnumber, g, since, d, hs, hlength, hanswers⟩ := h
  obtain ⟨d', ht⟩ := hstage _ _ hs
  refine ⟨hrounds.trans hnumber, g, since, d', ht, hlength, fun index result => ?_⟩
  rw [hanswers, List.mem_append, List.mem_singleton]
  exact ⟨.inl, Or.rec id fun he => absurd he.symm (hl index result)⟩

theorem Gathers.answered {g g' : Gathering} {since index : Nat} {d : DeliveringLoop} {result : Yield}
    (h : s.Gathers collectors number sooner) (hs : s.stage = .running (.gathering g since) d)
    (hg : g.record? index result = some g') :
    Gathers collectors number (sooner ++ [.collected index result])
      { s with stage := .running (.gathering g' since) d } := by
  obtain ⟨hnumber, g₀, since₀, d₀, hs₀, hlength, hanswers⟩ := h
  cases hs.symm.trans hs₀
  obtain ⟨hnone, hset⟩ := Gathering.record?_spec hg
  refine ⟨hnumber, g', since, d, rfl, by rw [hset, List.length_set, hlength], fun other result' => ?_⟩
  rw [hset, List.getElem?_set, List.mem_append, List.mem_singleton, ← hanswers]
  by_cases hother : index = other
  · subst hother
    have hlt : index < g.answers.length := (List.getElem?_eq_some_iff.1 hnone).1
    rw [if_pos rfl, if_pos hlt, hnone]
    simp [eq_comm]
  · simp [hother, Ne.symm hother]

theorem Gathers.moves (h : s.Gathers collectors number sooner) (hm : Moves s label t) (hl : label ≠ .endRound) :
    t.Gathers collectors number (sooner ++ [label]) := by
  have hsame : ∀ c d, s.stage = .running c d → ∃ d', s.stage = .running c d' := fun c d hs => ⟨d, hs⟩
  have hdelivering : ∀ {c : CollectingLoop} {d d' : DeliveringLoop},
      s.stage = .running c d → t.stage = .running c d' →
      ∀ c d, s.stage = .running c d → ∃ d', t.stage = .running c d' := by
    intro c d d' hs ht c' e hs'
    cases hs.symm.trans hs'
    exact ⟨d', ht⟩
  obtain ⟨-, g, since, d, hgathering, -⟩ := id h
  cases hm with
  | wait millis => exact h.beside rfl hsame nofun
  | shutDown => exact h.beside rfl hsame nofun
  | pushOutside hp => exact h.beside rfl hsame nofun
  | turnOutside hp => exact h.beside rfl hsame nofun
  | delivery hallowed hd hmoved hp => exact h.beside rfl hsame nofun
  | beginRound hs => cases hs.symm.trans hgathering
  | stopCollecting hs hf => cases hs.symm.trans hgathering
  | collected hs hg => exact h.answered hs hg
  | endEmptyRound hs hr hempty => exact absurd rfl hl
  | endRound hs hr hne hp => exact absurd rfl hl
  | turnRound hs hp => cases hs.symm.trans hgathering
  | leaveRound hs hp => cases hs.symm.trans hgathering
  | beginDispatch hs => exact h.beside rfl (hdelivering hs rfl) nofun
  | dispatch hs hd => exact h.beside hd.rounds_eq.1 (hdelivering hs rfl) nofun
  | join hs hd => exact h.beside rfl hsame nofun
  | stopDelivering hs hf => exact h.beside rfl (hdelivering hs rfl) nofun
  | drain hs => cases hs.symm.trans hgathering
  | dispatchLeft hs hd => cases hs.symm.trans hgathering
  | drained hs hall => cases hs.symm.trans hgathering
  | overrunWaiting hs hdue hp => cases hs.symm.trans hgathering
  | overrun hs hdue hleft => cases hs.symm.trans hgathering
  | terminate hs hall => cases hs.symm.trans hgathering

/-- A collector that has not answered may do so at any time. -/
theorem Gathers.awaits (h : s.Gathers collectors number sooner) {index : Nat} (hindex : index < collectors) :
    (∃ result, .collected index result ∈ sooner) ∨ ∀ result, (s.step (.collected index result)).isSome := by
  obtain ⟨-, g, since, d, hs, rfl, hanswers⟩ := h
  cases hanswer : g.answers[index] with
  | some result =>
      have hgot : g.answers[index]? = some (some result) := by rw [List.getElem?_eq_getElem hindex, hanswer]
      exact .inl ⟨result, (hanswers index result).1 hgot⟩
  | none =>
      have hnone : g.answers[index]? = some none := by rw [List.getElem?_eq_getElem hindex, hanswer]
      refine .inr fun result => ?_
      have hcollects : (s.stageStep (.collected index result)).isSome := isSome_of_collecting hs nofun (by
        rw [collectingStep, Option.isSome_map]
        exact Gathering.isSome_record? hnone result)
      exact hcollects

/-- What a round that has begun knows of its collectors as long as it has not ended. -/
theorem gathers_of_stepwise {u : State} {during : List Step} (hu : Moves s .beginRound u)
    (h : stepwise State.step u during = some t) (hduring : .endRound ∉ during) :
    t.Gathers s.collectors u.rounds during := by
  refine stepwise_induction h ?_ fun sooner v label w hpart _ hgathers hstep =>
    hgathers.moves (moves_of_step hstep) fun hl => ?_
  · cases hu with
    | beginRound hs =>
        refine ⟨rfl, _, _, _, rfl, List.length_replicate, fun index result => ?_⟩
        simp [Gathering.begin, List.getElem?_replicate]
  · exact hduring (hpart.subset (hl ▸ List.mem_append_right _ (List.mem_singleton_self _)))

theorem Moves.collectors_eq (hm : Moves s label t) : t.collectors = s.collectors := by
  cases hm with
  | dispatch hs hd => cases hd <;> rfl
  | dispatchLeft hs hd => cases hd <;> rfl
  | _ => rfl

theorem collectors_of_stepwise {config : Config} {first : State} {labels : List Step}
    (hfirst : start? config collectors = some first) (h : stepwise State.step first labels = some s) :
    s.collectors = collectors := by
  refine stepwise_keeps (P := fun s => s.collectors = collectors) h ?_
    fun s a t _ hsame hstep => (moves_of_step hstep).collectors_eq.trans hsame
  obtain ⟨pushing, -, hstart⟩ := Option.bind_eq_some_iff.1 hfirst
  split at hstart
  · cases hstart
    rfl
  · cases hstart

end State

end PushMetrics.Agent
