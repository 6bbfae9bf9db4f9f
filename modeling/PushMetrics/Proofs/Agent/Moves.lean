import PushMetrics.Agent.State
import PushMetrics.Proofs.Agent.Delivery
import PushMetrics.Proofs.Agent.Queue

/-!
# The moves of an agent

Each step of an agent with the stage in which it can be taken and the state to which it leads.
-/

namespace PushMetrics.Agent.State

/-! ## Small changes of the state -/

variable {s t : State}

/-- What a question finds in the history, in order. -/
def saw {α : Type} (s : State) (question : Event → Option α) : List α := s.history.filterMap fun e => question e.2

@[simp] theorem saw_record {α : Type} (s : State) (events : List Event) (question : Event → Option α) :
    (s.record events).saw question = s.saw question ++ events.filterMap question := by
  simp [saw, record, List.filterMap_map]

theorem saw_of_history {α : Type} {events : List Event} (h : t.history = (s.record events).history)
    (question : Event → Option α) : t.saw question = s.saw question ++ events.filterMap question := by
  rw [← saw_record, saw, saw, h]

theorem enter_of_same {stage : Stage} (h : stage.lifecycle = s.stage.lifecycle) : s.enter stage = { s with stage } :=
  if_pos h

theorem enter_of_ne {stage : Stage} (h : stage.lifecycle ≠ s.stage.lifecycle) :
    s.enter stage = { s with stage }.record [.entered stage.lifecycle] :=
  if_neg h

/-! ## Handing out -/

/-- One step of handing out, and where that leads. -/
inductive Dispatches (s : State) (token : Token) : Dispatching → State → Option Dispatching → Prop where
  | nothing (hq : s.pushing.queue.count = 0) : Dispatches s token .looking s none
  | ask {permits : Semaphore Nat Token} {d : Dispatching} (hq : s.pushing.queue.count ≠ 0)
      (hp : s.permits.step (.acquire s.next token) = some permits)
      (hd : permits.phase? s.next = some .held ∧ d = .holding ∨ permits.phase? s.next = some .waiting ∧ d = .waiting) :
      Dispatches s token .looking { s with permits } (some d)
  | turn {permits : Semaphore Nat Token} {d : Dispatching} (hp : s.permits.step (.turn s.next) = some permits)
      (hd : permits.phase? s.next = some .held ∧ d = .holding ∨ permits.phase? s.next = some .waiting ∧ d = .waiting) :
      Dispatches s token .waiting { s with permits } (some d)
  | refused {permits : Semaphore Nat Token} {d : Dispatching}
      (hp : d = .looking ∧ s.permits.step (.acquire s.next token) = some permits ∨
        d = .waiting ∧ s.permits.step (.turn s.next) = some permits)
      (hheld : permits.phase? s.next ≠ some .held) (hwaiting : permits.phase? s.next ≠ some .waiting) :
      Dispatches s token d { s with permits, next := s.next + 1 } none
  | empty {permits : Semaphore Nat Token} (hb : (s.pushing.queue.pop s.config.batchSize).1 = [])
      (hp : s.permits.step (.release s.next) = some permits) :
      Dispatches s token .holding
        { s with pushing := s.pushing.popped s.config.batchSize, permits, next := s.next + 1 } none
  | take {batch : List Metric} (hb : (s.pushing.queue.pop s.config.batchSize).1 = batch) (hne : batch ≠ []) :
      Dispatches s token .holding
        ({ s with
          pushing := s.pushing.popped s.config.batchSize
          next := s.next + 1
          deliveries := s.deliveries.put s.next (.fresh batch) }.record [.dispatched s.next batch])
        (some .looking)

theorem afterAcquire_eq {d : Option Dispatching} (h : s.afterAcquire = (t, d)) :
    (t = s ∧ s.permits.phase? s.next = some .held ∧ d = some .holding) ∨
    (t = s ∧ s.permits.phase? s.next = some .waiting ∧ d = some .waiting) ∨
    (t = { s with next := s.next + 1 } ∧ s.permits.phase? s.next ≠ some .held ∧
      s.permits.phase? s.next ≠ some .waiting ∧ d = none) := by
  unfold afterAcquire at h
  split at h
  · rename_i hp
    cases h
    exact .inl ⟨rfl, hp, rfl⟩
  · rename_i hp
    cases h
    exact .inr (.inl ⟨rfl, hp, rfl⟩)
  · rename_i hheld hwaiting
    cases h
    exact .inr (.inr ⟨rfl, hheld, hwaiting, rfl⟩)

theorem dispatches_of_dispatch {token : Token} {d : Dispatching} {d' : Option Dispatching}
    (h : s.dispatch token d = some (t, d')) : Dispatches s token d t d' := by
  cases d with
  | looking =>
      simp only [dispatch, permit] at h
      split at h
      · rename_i hq
        cases h
        exact .nothing hq
      · rename_i hq
        obtain ⟨s', hs', hafter⟩ := Option.map_eq_some_iff.1 h
        obtain ⟨permits, hp, rfl⟩ := Option.map_eq_some_iff.1 hs'
        rcases afterAcquire_eq hafter with ⟨rfl, hphase, rfl⟩ | ⟨rfl, hphase, rfl⟩ | ⟨rfl, hheld, hwaiting, rfl⟩
        · exact .ask hq hp (.inl ⟨hphase, rfl⟩)
        · exact .ask hq hp (.inr ⟨hphase, rfl⟩)
        · exact .refused (.inl ⟨rfl, hp⟩) hheld hwaiting
  | waiting =>
      simp only [dispatch, permit] at h
      obtain ⟨s', hs', hafter⟩ := Option.map_eq_some_iff.1 h
      obtain ⟨permits, hp, rfl⟩ := Option.map_eq_some_iff.1 hs'
      rcases afterAcquire_eq hafter with ⟨rfl, hphase, rfl⟩ | ⟨rfl, hphase, rfl⟩ | ⟨rfl, hheld, hwaiting, rfl⟩
      · exact .turn hp (.inl ⟨hphase, rfl⟩)
      · exact .turn hp (.inr ⟨hphase, rfl⟩)
      · exact .refused (.inr ⟨rfl, hp⟩) hheld hwaiting
  | holding =>
      simp only [dispatch, take, push, permit] at h
      obtain ⟨s', hs', h⟩ := Option.bind_eq_some_iff.1 h
      cases hs'
      simp only [List.isEmpty_iff] at h
      split at h
      · rename_i hb
        obtain ⟨s', hs', hafter⟩ := Option.map_eq_some_iff.1 h
        obtain ⟨permits, hp, rfl⟩ := Option.map_eq_some_iff.1 hs'
        cases hafter
        exact .empty hb hp
      · rename_i hne
        cases h
        exact .take rfl hne

/-! ## Steps -/

def reported (round : Round) : List Event := (round.firstError.map (.roundFailed round.failed)).toList

def refusal : Except QueueError Unit → List Event
  | .error e => [.notEnqueued e]
  | .ok _ => []

def crash : Ending → Bool → List Event
  | .panicked reason, true => [.crashed reason]
  | _, _ => []

/-- Whether the agent waits for deliveries to end, and if so, whether it tells of their panics. -/
def joins? : Stage → Option Bool
  | .running _ .idle | .draining none _ => some true
  | .abandoning => some false
  | _ => none

inductive Moves (s : State) : Step → State → Prop where
  | wait (millis : Nat) : Moves s (.wait millis) { s with pushing := { s.pushing with now := s.pushing.now + millis } }
  | shutDown : Moves s .shutDown (s.fire .shutdown)
  | pushOutside {number : Nat} {items : List Metric} {pushing : Pushing Source Token Metric}
      (hp : s.pushing.step (.start (.outside number) .never items) = some pushing) :
      Moves s (.pushOutside number items) { s with pushing }
  | turnOutside {number : Nat} {pushing : Pushing Source Token Metric}
      (hp : s.pushing.step (.turn (.outside number)) = some pushing) : Moves s (.turnOutside number) { s with pushing }
  | delivery {number : Nat} {label : DeliveryStep} {d d' : Delivery} {seen : List DeliveryEvent}
      {permits : Semaphore Nat Token} (hallowed : s.allows label = true) (hd : s.deliveries.get? number = some d)
      (hm : d.Moves s.config.backoff s.now (s.isFired .abandon) label d' seen)
      (hp : if d'.isEnded then s.permits.step (.release number) = some permits else permits = s.permits) :
      Moves s (.delivery number label)
        ({ s with deliveries := s.deliveries.put number d', permits }.record (seen.map (.delivery number)))
  | beginRound {d : DeliveringLoop} (hs : s.stage = .running .idle d) :
      Moves s .beginRound ({ s with
        rounds := s.rounds + 1
        pollDue := s.pollDue + s.config.pollInterval.ceilMillis
        stage := .running (.gathering (.begin s.collectors) s.now) d }.record [.roundBegan (s.rounds + 1)])
  | stopCollecting {d : DeliveringLoop} (hs : s.stage = .running .idle d) (hf : s.isFired .shutdown = true) :
      Moves s .stopCollecting { s with stage := .running .stopped d }
  | collected {g g' : Gathering} {since index : Nat} {result : Yield} {d : DeliveringLoop}
      (hs : s.stage = .running (.gathering g since) d) (hg : g.record? index result = some g') :
      Moves s (.collected index result) { s with stage := .running (.gathering g' since) d }
  | endEmptyRound {g : Gathering} {since : Nat} {round : Round} {d : DeliveringLoop}
      (hs : s.stage = .running (.gathering g since) d) (hr : g.round? = some round) (hempty : round.metrics = []) :
      Moves s .endRound { s.record (reported round) with stage := .running .idle d }
  | endRound {g : Gathering} {since : Nat} {round : Round} {d : DeliveringLoop}
      {pushing : Pushing Source Token Metric} (hs : s.stage = .running (.gathering g since) d)
      (hr : g.round? = some round) (hne : round.metrics ≠ [])
      (hp : s.pushing.step (.start (.round s.rounds) .shutdown round.metrics) = some pushing) :
      Moves s .endRound { s.record (reported round) with pushing, stage := .running .pushing d }
  | turnRound {pushing : Pushing Source Token Metric} {d : DeliveringLoop} (hs : s.stage = .running .pushing d)
      (hp : s.pushing.step (.turn (.round s.rounds)) = some pushing) : Moves s .turnRound { s with pushing }
  | leaveRound {token : Token} {items : List Metric} {result : Except QueueError Unit} {d : DeliveringLoop}
      (hs : s.stage = .running .pushing d)
      (hp : s.pushing.pushers.get? (.round s.rounds) = some ⟨token, items, .ended result⟩) :
      Moves s .leaveRound { s.record (refusal result) with stage := .running .idle d }
  | beginDispatch {c : CollectingLoop} (hs : s.stage = .running c .idle) :
      Moves s .beginDispatch { s with
        reportDue := s.reportDue + s.config.reportInterval.ceilMillis
        stage := .running c (.dispatching .looking) }
  | dispatch {c : CollectingLoop} {d : Dispatching} {d' : Option Dispatching} {u : State}
      (hs : s.stage = .running c (.dispatching d)) (hd : Dispatches s .shutdown d u d') :
      Moves s .dispatch { u with stage := .running c (d'.elim .idle .dispatching) }
  | join {number : Nat} {listens : Bool} {batch : List Metric} {ending : Ending} (hs : joins? s.stage = some listens)
      (hd : s.deliveries.get? number = some ⟨batch, .ended ending, false⟩) :
      Moves s (.join number)
        ({ s with deliveries := s.deliveries.put number ⟨batch, .ended ending, true⟩ }.record (crash ending listens))
  | stopDelivering {c : CollectingLoop} (hs : s.stage = .running c .idle) (hf : s.isFired .shutdown = true) :
      Moves s .stopDelivering { s with stage := .running c .stopped }
  | drain (hs : s.stage = .running .stopped .stopped) :
      Moves s .drain ({ s with
        stage := .draining (some .looking) (s.now + s.config.shutdownTimeout.ceilMillis) }.record [.entered .draining])
  | dispatchLeft {d : Dispatching} {d' : Option Dispatching} {deadline : Nat} {u : State}
      (hs : s.stage = .draining (some d) deadline) (hd : Dispatches s .abandon d u d') :
      Moves s .dispatch { u with stage := .draining d' deadline }
  | drained {deadline : Nat} (hs : s.stage = .draining none deadline) (hall : s.unjoined = []) :
      Moves s .drained ({ s with stage := .terminated }.record [.entered .terminated])
  | overrunWaiting {deadline : Nat} {permits : Semaphore Nat Token} (hs : s.stage = .draining (some .waiting) deadline)
      (hdue : deadline ≤ s.now) (hp : s.permits.step (.leave s.next) = some permits) :
      Moves s .overrun { ({ s with permits, next := s.next + 1 }.record [.abandoned s.config.shutdownTimeout
        s.pushing.queue.count s.unjoined.length]).fire .abandon with stage := .abandoning }
  | overrun {deadline : Nat} (hs : s.stage = .draining none deadline) (hdue : deadline ≤ s.now)
      (hleft : s.unjoined ≠ []) :
      Moves s .overrun { (s.record [.abandoned s.config.shutdownTimeout
        s.pushing.queue.count s.unjoined.length]).fire .abandon with stage := .abandoning }
  | terminate (hs : s.stage = .abandoning) (hall : s.unjoined = []) :
      Moves s .terminate ({ s with stage := .terminated }.record [.entered .terminated])

theorem Dispatches.stage_eq {token : Token} {d : Dispatching} {d' : Option Dispatching}
    (h : Dispatches s token d t d') :
    t.stage = s.stage := by
  cases h <;> rfl

theorem moves_of_deliver {number : Nat} {label : DeliveryStep} (hallowed : s.allows label = true)
    (h : s.deliver number label = some t) : Moves s (.delivery number label) t := by
  simp only [deliver] at h
  obtain ⟨d, hd, h⟩ := Option.bind_eq_some_iff.1 h
  obtain ⟨⟨d', seen⟩, hstep, h⟩ := Option.bind_eq_some_iff.1 h
  have hm := Delivery.moves_of_step hstep
  simp only at h
  split at h
  · rename_i hended
    obtain ⟨permits, hp, rfl⟩ := Option.map_eq_some_iff.1 h
    exact .delivery hallowed hd hm (by rw [if_pos hended]; exact hp)
  · rename_i hended
    cases h
    exact .delivery hallowed hd hm (if_neg hended ▸ rfl)

theorem moves_of_joined {number : Nat} {listens : Bool} (hs : joins? s.stage = some listens)
    (h : s.joined number listens = some t) : Moves s (.join number) t := by
  simp only [joined] at h
  obtain ⟨⟨batch, phase, known⟩, hd, h⟩ := Option.bind_eq_some_iff.1 h
  split at h
  · rename_i ending hphase hjoined
    obtain rfl : phase = .ended ending := hphase
    obtain rfl : known = false := hjoined
    have hmove := Moves.join hs hd
    split at h
    · cases h
      exact hmove
    · rename_i hcrash
      cases h
      have hsilent : crash ending listens = [] := by
        unfold crash
        split
        · exact (hcrash _ rfl rfl).elim
        · rfl
      rw [hsilent] at hmove
      simpa [record] using hmove
  · cases h

theorem deliverRound_eq (s : State) (round : Round) (d : DeliveringLoop) :
    s.deliverRound round d = if round.metrics.isEmpty then some ((s.record (reported round)).enter (.running .idle d))
      else ((s.record (reported round)).push (.start (.round s.rounds) .shutdown round.metrics)).map
        (·.enter (.running .pushing d)) := by
  unfold deliverRound reported
  cases round.firstError <;> simp [record, roundSource]

theorem moves_of_deliverRound {g : Gathering} {since : Nat} {round : Round} {d : DeliveringLoop}
    (hs : s.stage = .running (.gathering g since) d) (hr : g.round? = some round)
    (h : s.deliverRound round d = some t) : Moves s .endRound t := by
  rw [deliverRound_eq] at h
  split at h
  · rename_i hempty
    cases h
    rw [enter_of_same (by simp [record, hs, Stage.lifecycle])]
    exact .endEmptyRound hs hr (List.isEmpty_iff.1 hempty)
  · rename_i hne
    obtain ⟨s', hs', rfl⟩ := Option.map_eq_some_iff.1 h
    obtain ⟨pushing, hp, rfl⟩ := Option.map_eq_some_iff.1 hs'
    rw [enter_of_same (by simp [record, hs, Stage.lifecycle])]
    exact .endRound hs hr (fun hempty => hne (List.isEmpty_iff.2 hempty)) hp

theorem moves_of_leaveRound {d : DeliveringLoop} (hs : s.stage = .running .pushing d)
    (h : s.leaveRound d = some t) : Moves s .leaveRound t := by
  simp only [leaveRound] at h
  split at h
  · rename_i token items result hp
    have hmove : Moves s .leaveRound ((s.record (refusal result)).enter (.running .idle d)) := by
      rw [enter_of_same (by simp [record, hs, Stage.lifecycle])]
      exact .leaveRound hs hp
    cases result with
    | error e =>
        cases h
        exact hmove
    | ok u =>
        cases h
        simpa [refusal, record] using hmove
  · cases h

theorem moves_of_collectingStep {c : CollectingLoop} {d : DeliveringLoop} {label : Step}
    (hs : s.stage = .running c d) (h : s.collectingStep d c label = some t) : Moves s label t := by
  unfold collectingStep at h
  split at h
  · split at h
    · cases h
    · cases h
      simp only [enter, hs, Stage.lifecycle, ↓reduceIte]
      exact .beginRound hs
  · split at h
    · rename_i hf
      cases h
      rw [enter_of_same (by simp [hs, Stage.lifecycle])]
      exact .stopCollecting hs hf
    · cases h
  · obtain ⟨g', hg, rfl⟩ := Option.map_eq_some_iff.1 h
    rw [enter_of_same (by simp [hs, Stage.lifecycle])]
    exact .collected hs hg
  · obtain ⟨round, hr, h⟩ := Option.bind_eq_some_iff.1 h
    exact moves_of_deliverRound hs hr h
  · obtain ⟨pushing, hp, rfl⟩ := Option.map_eq_some_iff.1 h
    exact .turnRound hs hp
  · exact moves_of_leaveRound hs h
  · cases h

theorem moves_of_deliveringStep {c : CollectingLoop} {d : DeliveringLoop} {label : Step}
    (hs : s.stage = .running c d) (h : s.deliveringStep c d label = some t) : Moves s label t := by
  unfold deliveringStep at h
  split at h
  · split at h
    · cases h
    · cases h
      simp only [enter, hs, Stage.lifecycle, ↓reduceIte]
      exact .beginDispatch hs
  · exact moves_of_joined (by rw [hs]; rfl) h
  · split at h
    · rename_i hf
      cases h
      rw [enter_of_same (by simp [hs, Stage.lifecycle])]
      exact .stopDelivering hs hf
    · cases h
  · obtain ⟨⟨u, d'⟩, hd, rfl⟩ := Option.map_eq_some_iff.1 h
    have hmoved := dispatches_of_dispatch hd
    simp only [enter, hmoved.stage_eq, hs, Stage.lifecycle, ↓reduceIte]
    exact .dispatch hs hmoved
  · cases h

theorem moves_of_overrun {d : Option Dispatching} {deadline : Nat} (hs : s.stage = .draining d deadline)
    (h : s.drainingStep deadline d .overrun = some t) : Moves s .overrun t := by
  have hdue : deadline ≤ s.now := by
    by_contra hearly
    rcases d with _ | (_ | _ | _) <;> simp [drainingStep, Nat.not_le.1 hearly] at h
  rcases d with _ | (_ | _ | _)
  · by_cases hall : s.unjoined = []
    · simp [drainingStep, Nat.not_lt.2 hdue, hall] at h
    · simp only [drainingStep, Nat.not_lt.2 hdue, List.isEmpty_iff, hall, ↓reduceIte] at h
      cases h
      rw [enter_of_same (by simp [fire, record, hs, Stage.lifecycle])]
      exact .overrun hs hdue hall
  · simp [drainingStep, Nat.not_lt.2 hdue] at h
  · simp only [drainingStep, Nat.not_lt.2 hdue, ↓reduceIte] at h
    obtain ⟨left, hleft, h⟩ := Option.bind_eq_some_iff.1 h
    obtain ⟨u, hu, rfl⟩ := Option.map_eq_some_iff.1 hleft
    obtain ⟨permits, hp, rfl⟩ := Option.map_eq_some_iff.1 hu
    cases h
    rw [enter_of_same (by simp [fire, record, hs, Stage.lifecycle])]
    exact .overrunWaiting hs hdue hp
  · simp [drainingStep, Nat.not_lt.2 hdue] at h

theorem moves_of_drainingStep {d : Option Dispatching} {deadline : Nat} {label : Step}
    (hs : s.stage = .draining d deadline) (h : s.drainingStep deadline d label = some t) : Moves s label t := by
  cases label with
  | dispatch =>
      cases d with
      | none => cases h
      | some d =>
          obtain ⟨⟨u, d'⟩, hd, rfl⟩ := Option.map_eq_some_iff.1 h
          have hmoved := dispatches_of_dispatch hd
          simp only [enter, hmoved.stage_eq, hs, Stage.lifecycle, ↓reduceIte]
          exact .dispatchLeft hs hmoved
  | join number =>
      cases d with
      | none => exact moves_of_joined (by rw [hs]; rfl) h
      | some d => cases h
  | drained =>
      cases d with
      | none =>
          simp only [drainingStep] at h
          split at h
          · rename_i hall
            cases h
            rw [enter_of_ne (by simp [hs, Stage.lifecycle])]
            exact .drained hs (List.isEmpty_iff.1 hall)
          · cases h
      | some d => cases h
  | overrun => exact moves_of_overrun hs h
  | _ => cases d <;> cases h

theorem moves_of_stageStep {label : Step} (h : s.stageStep label = some t) : Moves s label t := by
  unfold stageStep at h
  split at h
  · rename_i hs
    split at h
    · cases h
      rw [enter_of_ne (by simp [hs, Stage.lifecycle])]
      exact .drain hs
    · cases h
  · rename_i hs
    rcases Option.or_eq_some_iff.1 h with h | ⟨-, h⟩
    · exact moves_of_collectingStep hs h
    · exact moves_of_deliveringStep hs h
  · rename_i hs
    exact moves_of_drainingStep hs h
  · rename_i hs
    split at h
    · exact moves_of_joined (by rw [hs]; rfl) h
    · split at h
      · rename_i hall
        cases h
        rw [enter_of_ne (by simp [hs, Stage.lifecycle])]
        exact .terminate hs (List.isEmpty_iff.1 hall)
      · cases h
    · cases h
  · cases h

/-- Every step of an agent is one of its moves. -/
theorem moves_of_step {label : Step} (h : s.step label = some t) : Moves s label t := by
  cases label with
  | wait millis =>
      cases h
      exact .wait millis
  | shutDown =>
      cases h
      exact .shutDown
  | pushOutside number items =>
      simp only [step, push] at h
      obtain ⟨pushing, hp, rfl⟩ := Option.map_eq_some_iff.1 h
      exact .pushOutside hp
  | turnOutside number =>
      simp only [step, push] at h
      obtain ⟨pushing, hp, rfl⟩ := Option.map_eq_some_iff.1 h
      exact .turnOutside hp
  | delivery number label =>
      simp only [step] at h
      split at h
      · rename_i hallowed
        exact moves_of_deliver hallowed h
      · cases h
  | _ => exact moves_of_stageStep h

end PushMetrics.Agent.State
