import PushMetrics.Proofs.Agent.Bounds

/-!
# What is said to be abandoned

When the time for draining is over, the agent says how many metrics are left in the queue and how many deliveries it
abandons. The first number is right if nobody else pushes. The second counts the deliveries whose end has not been
noticed: those that run, and those that have ended while the agent handed out batches or waited for a permit, for only
an agent that waits for deliveries notices their ends.
-/

namespace PushMetrics.Agent

/-- What a warning says is abandoned: the metrics in the queue, and the deliveries. -/
def Event.abandoned? : Event → Option (Nat × Nat)
  | .abandoned _ queued deliveries => some (queued, deliveries)
  | _ => none

namespace State

variable {s t : State}

/-- Deliveries that have ended without the agent having noticed it. -/
def unnoticed (s : State) : Nat := s.deliveries.count fun d => d.isEnded && !d.joined

theorem Noticed.length_unjoined (h : s.Noticed) : s.unjoined.length = s.running + s.unnoticed := by
  have hrunning : ∀ e ∈ s.deliveries.entries, (!e.2.isEnded && !e.2.joined) = !e.2.isEnded := by
    intro e he
    cases hjoined : e.2.joined with
    | false => simp
    | true => simp [h.ended e.1 e.2 (Dict.get?_eq_some_iff.2 he) hjoined]
  rw [unjoined, List.length_eq_countP_add_countP fun e => !e.2.isEnded]
  simp only [List.countP_filter, Bool.not_eq_true, Bool.not_eq_false', Bool.decide_eq_true, running, unnoticed,
    Dict.count, Dict.values, List.countP_map, Function.comp_def]
  rw [List.countP_congr fun e he => by rw [hrunning e he]]

/-- An end that has not been noticed can be noticed by an agent that waits for deliveries. -/
theorem exists_join_of_unnoticed {deadline : Nat} (hs : s.stage = .draining none deadline) (h : 0 < s.unnoticed) :
    ∃ number, (s.step (.join number)).isSome := by
  obtain ⟨⟨batch, phase, joined⟩, hd, hunnoticed⟩ := List.countP_pos_iff.1 h
  obtain ⟨number, hnumber⟩ := Dict.mem_values_iff.1 hd
  refine ⟨number, ?_⟩
  cases phase with
  | ended ending =>
      cases joined with
      | true => cases hunnoticed
      | false => cases ending <;> simp [step, stageStep, hs, drainingStep, State.joined, hnumber]
  | _ => cases hunnoticed

theorem Moves.abandons (hm : Moves s .overrun t) (h : s.Noticed) :
    t.history = s.history ++
      [(s.now, .abandoned s.config.shutdownTimeout s.pushing.queue.count (s.running + s.unnoticed))] := by
  rw [← h.length_unjoined]
  cases hm with
  | overrunWaiting hs hdue hp => rfl
  | overrun hs hdue hleft => rfl

theorem Moves.isDraining (hm : Moves s .overrun t) :
    ∃ d deadline, s.stage = .draining d deadline ∧ deadline ≤ s.now := by
  cases hm with
  | overrunWaiting hs hdue hp => exact ⟨_, _, hs, hdue⟩
  | overrun hs hdue hleft => exact ⟨_, _, hs, hdue⟩

end State

open State in
/-- The warning of a drain that takes too long tells the number of metrics in the queue, if nobody else pushes. It
tells of no fewer deliveries than have not finished; what it tells of more are deliveries that have met an end of their
own which the agent has not noticed, and there are none of these if it waits for deliveries and has noticed all it
could. -/
theorem overrun_report {config : Config} {collectors : Nat} {first s t : State} {labels : List Step}
    (hfirst : start? config collectors = some first) (h : stepwise State.step first labels = some s)
    (hoverrun : s.step .overrun = some t) :
    t.history = s.history ++
      [(s.now, .abandoned config.shutdownTimeout s.pushing.queue.count (s.running + s.unnoticed))] ∧
    s.deliveries.entries.map (fun e => (e.1, e.2.batch)) = s.dispatched ∧
    ((∀ number p, s.pushing.pushers.get? (.outside number) = some p → p.isPending = false) →
      s.pushing.queue.count = s.pushing.queue.buffer.length) ∧
    (∀ number d, s.deliveries.get? number = some d → d.isEnded = true →
      d.Settled config.backoff (s.eventsOf number)) ∧
    ((∃ deadline, s.stage = .draining none deadline) → (∀ number, s.step (.join number) = none) →
      s.unnoticed = 0) := by
  have horderly := (orderly_start hfirst).run h
  obtain ⟨-, rfl⟩ := conserved_of_stepwise hfirst h
  have hm := moves_of_step hoverrun
  obtain ⟨d, deadline, hs, -⟩ := hm.isDraining
  refine ⟨hm.abandons horderly.noticed, horderly.conserved.handed, fun houtside => ?_, fun number d hd hended => ?_,
    fun ⟨deadline, hs⟩ hall => ?_⟩
  · refine horderly.conserved.queue.count_eq fun k p hp => ?_
    cases k with
    | round n => exact Pusher.isPending_of_isEnded (horderly.roundsOver.over (by simp [hs]) hp)
    | outside number => exact houtside number p hp
  · rcases horderly.ends number d hd hended with hsettled | ⟨hfired, -⟩
    · exact hsettled
    · rcases horderly.signalled.late hfired with hlate | hlate <;> rw [hs] at hlate <;> cases hlate
  · by_contra hunnoticed
    obtain ⟨number, hjoin⟩ := exists_join_of_unnoticed hs (Nat.pos_of_ne_zero hunnoticed)
    rw [hall number] at hjoin
    cases hjoin

/-- Settings with which one metric is delivered at a time, and draining takes no longer than a second and a half. -/
def oneByOne : Config := { Config.default with batchSize := 1, rateLimit := 1, shutdownTimeout := .ofMillis 1500 }

/-- Somebody pushes these, shutdown is requested, and the agent drains. -/
def drainWith (items : List Metric) : List Step :=
  .pushOutside 1 items :: List.replicate (items.length + 1) (.turnOutside 1)
    ++ [.shutDown, .stopCollecting, .stopDelivering, .drain]

/-- The only metric is handed out, and its delivery takes too long. -/
def slow : List Step := [.dispatch, .dispatch, .dispatch, .delivery 0 .begin, .wait 1500]

theorem overrun_report_slow : ∃ first s t, State.start? oneByOne 0 = some first ∧
    stepwise State.step first (drainWith [.counter "a" 1] ++ slow) = some s ∧ s.step .overrun = some t ∧
    t.saw Event.abandoned? = [(0, 1)] ∧ s.pushing.queue.buffer = [] ∧ s.running = 1 := by
  have hrun : ((State.start? oneByOne 0).bind fun first =>
      (stepwise State.step first (drainWith [.counter "a" 1] ++ slow)).bind fun s => (s.step .overrun).map fun _ =>
        (s.saw Event.abandoned?, s.pushing.pushers.values.all (!·.isPending), s.pushing.queue.buffer, s.running,
          s.unnoticed))
      = some ([], true, [], 1, 0) := by decide +kernel
  obtain ⟨first, hfirst, hrun⟩ := Option.bind_eq_some_iff.1 hrun
  obtain ⟨s, hs, hrun⟩ := Option.bind_eq_some_iff.1 hrun
  obtain ⟨t, ht, hseen⟩ := Option.map_eq_some_iff.1 hrun
  simp only [Prod.mk.injEq, List.all_eq_true, Bool.not_eq_true'] at hseen
  obtain ⟨hbefore, hidle, hbuffer, hrunning, hunnoticed⟩ := hseen
  obtain ⟨hhistory, -, hcount, -⟩ := overrun_report hfirst hs ht
  replace hcount := hcount fun _ p hp => hidle p (Dict.mem_values_iff.2 ⟨_, hp⟩)
  refine ⟨first, s, t, hfirst, hs, ht, ?_, hbuffer, hrunning⟩
  rw [State.saw, hhistory, List.filterMap_append, ← State.saw, hbefore, hcount, hbuffer, hrunning, hunnoticed]
  rfl

/-- Three metrics. The first is delivered while the agent waits for the only permit, and the second is being delivered
when the time for draining is over. -/
def slowTwice : List Step :=
  [.dispatch, .dispatch, .delivery 0 .begin, .dispatch, .wait 1000, .delivery 0 (.answer (.ok ())), .dispatch,
    .dispatch, .delivery 1 .begin, .dispatch, .wait 500]

/-- The agent says that it abandons two deliveries, one of which has succeeded. -/
theorem overrun_report_counts_delivered : ∃ first s t, State.start? oneByOne 0 = some first ∧
    stepwise State.step first (drainWith [.counter "a" 1, .counter "b" 2, .counter "c" 3] ++ slowTwice) = some s ∧
    s.step .overrun = some t ∧ t.saw Event.abandoned? = [(1, 2)] ∧ s.pushing.queue.buffer.length = 1 ∧
    (∀ number p, s.pushing.pushers.get? (.outside number) = some p → p.isPending = false) ∧ s.running = 1 := by
  have hrun : ((State.start? oneByOne 0).bind fun first =>
      (stepwise State.step first
        (drainWith [.counter "a" 1, .counter "b" 2, .counter "c" 3] ++ slowTwice)).bind fun s =>
      (s.step .overrun).map fun t =>
        (t.saw Event.abandoned?, s.pushing.queue.buffer.length, s.pushing.pushers.values.all (!·.isPending),
          s.running))
      = some ([(1, 2)], 1, true, 1) := by decide +kernel
  obtain ⟨first, hfirst, hrun⟩ := Option.bind_eq_some_iff.1 hrun
  obtain ⟨s, hs, hrun⟩ := Option.bind_eq_some_iff.1 hrun
  obtain ⟨t, ht, hseen⟩ := Option.map_eq_some_iff.1 hrun
  simp only [Prod.mk.injEq, List.all_eq_true, Bool.not_eq_true'] at hseen
  obtain ⟨htold, hlength, hidle, hrunning⟩ := hseen
  exact ⟨first, s, t, hfirst, hs, ht, htold, hlength, fun _ p hp => hidle p (Dict.mem_values_iff.2 ⟨_, hp⟩), hrunning⟩

end PushMetrics.Agent
