import PushMetrics.Proofs.Agent.Conservation
import PushMetrics.Proofs.Agent.Semaphore

/-!
# What the stages of an agent promise

Invariants that tie the stage of an agent to the rest of its state: what it has published, which tokens have been
fired, whose pushes are over, which deliveries have ended, and what it holds of the permits.
-/

namespace PushMetrics.Agent

def Event.entered? : Event → Option Lifecycle
  | .entered state => some state
  | _ => none

def Lifecycle.path : Lifecycle → List Lifecycle
  | running => [running]
  | draining => [running, draining]
  | terminated => [running, draining, terminated]

def Step.fires? : Step → Option Token
  | .shutDown => some .shutdown
  | .overrun => some .abandon
  | _ => none

theorem Step.eq_shutDown {label : Step} (h : label.fires? = some .shutdown) : label = .shutDown := by
  cases label <;> first | rfl | cases h

theorem Step.eq_overrun {label : Step} (h : label.fires? = some .abandon) : label = .overrun := by
  cases label <;> first | rfl | cases h

/-- Whether one of the loops has stopped. -/
def Stage.hasStopped : Stage → Prop
  | .running c d => c = .stopped ∨ d = .stopped
  | _ => True

/-- How the next delivery stands with its permit. -/
def Dispatching.acquirer? (token : Token) : Dispatching → Option (Acquirer Token)
  | .looking => none
  | .waiting => some ⟨token, .waiting⟩
  | .holding => some ⟨token, .held⟩

/-- How the next delivery stands with its permit while the agent is in a stage. -/
def Stage.acquirer? : Stage → Option (Acquirer Token)
  | .running _ (.dispatching d) => d.acquirer? .shutdown
  | .draining (some d) _ => d.acquirer? .abandon
  | _ => none

namespace State

def published (s : State) : List Lifecycle := s.saw Event.entered?

/-- The states up to the present one have been published, each once. -/
def InOrder (s : State) : Prop := s.published = s.stage.lifecycle.path

/-- The loops stop when shutdown has been requested, and deliveries are abandoned after the deadline only. -/
structure Signalled (s : State) : Prop where
  requested : s.stage.hasStopped → s.isFired .shutdown = true
  late : s.isFired .abandon = true → s.stage = .abandoning ∨ s.stage = .terminated
  abandoned : s.stage = .abandoning → s.isFired .abandon = true

/-- Every round has pushed all it could, but for the one that is pushing. -/
def RoundsOver (s : State) : Prop :=
  ∀ n p, s.pushing.pushers.get? (.round n) = some p →
    p.phase.isEnded = true ∨ n = s.rounds ∧ ∃ d, s.stage = .running .pushing d

/-- Only ends are noticed, and after termination all are. -/
structure Noticed (s : State) : Prop where
  ended : ∀ n d, s.deliveries.get? n = some d → d.joined = true → d.isEnded = true
  all : s.stage = .terminated → s.unjoined = []

/-- The next delivery stands with its permit as the stage says, and no later one has asked for any. -/
structure Handing (s : State) : Prop where
  current : s.permits.tasks.get? s.next = s.stage.acquirer?
  later : ∀ n, s.next < n → s.permits.tasks.get? n = none

/-- A delivery that has ended did so by itself, or was cut off after the deadline. -/
def Ends (s : State) : Prop :=
  ∀ n d, s.deliveries.get? n = some d → d.isEnded = true →
    d.Settled s.config.backoff (s.eventsOf n) ∨ s.isFired .abandon = true ∧ d.IsCut

variable {s t : State}

/-! ## What handing out leaves alone -/

theorem Dispatches.fired_eq {token : Token} {d : Dispatching} {d' : Option Dispatching}
    (h : Dispatches s token d t d') : t.permits.fired = s.permits.fired := by
  cases h with
  | nothing hq => rfl
  | ask hq hp hd => exact (Semaphore.acquire_spec hp).1.fired
  | turn hp hd => exact (Semaphore.turn_spec hp).1.fired
  | refused hp hheld hwaiting =>
      rcases hp with ⟨-, hp⟩ | ⟨-, hp⟩
      · exact (Semaphore.acquire_spec hp).1.fired
      · exact (Semaphore.turn_spec hp).1.fired
  | empty hb hp => exact (Semaphore.release_spec hp).fired
  | take hb hne => rfl

theorem Dispatches.rounds_eq {token : Token} {d : Dispatching} {d' : Option Dispatching}
    (h : Dispatches s token d t d') : t.rounds = s.rounds ∧ t.pushing.pushers = s.pushing.pushers ∧
      t.pushing.accepted = s.pushing.accepted := by
  cases h <;> exact ⟨rfl, rfl, rfl⟩

theorem Dispatches.saw_eq {α : Type} {token : Token} {d : Dispatching} {d' : Option Dispatching}
    (h : Dispatches s token d t d') {question : Event → Option α}
    (hquestion : ∀ number batch, question (.dispatched number batch) = none) : t.saw question = s.saw question := by
  cases h with
  | take hb hne => simp [hquestion, saw, List.filterMap_append, record]
  | _ => rfl

theorem Moves.fired_eq {label : Step} (hm : Moves s label t) :
    t.permits.fired = label.fires?.toList ++ s.permits.fired := by
  cases hm with
  | delivery hallowed hd hmoved hp =>
      split at hp
      · exact (Semaphore.release_spec hp).fired
      · exact congrArg Semaphore.fired hp
  | dispatch hs hd => exact hd.fired_eq
  | dispatchLeft hs hd => exact hd.fired_eq
  | overrunWaiting hs hdue hp => exact congrArg (Token.abandon :: ·) (Semaphore.leave_spec hp).fired
  | _ => rfl

theorem Moves.isFired_iff {label : Step} (hm : Moves s label t) {token : Token} :
    t.isFired token = true ↔ label.fires? = some token ∨ s.isFired token = true := by
  simp [isFired, hm.fired_eq, List.mem_append]

/-! ## Published states -/

theorem InOrder.of_same (h : s.InOrder) (hhistory : t.history = s.history)
    (hstage : t.stage.lifecycle = s.stage.lifecycle) : t.InOrder := by
  rw [InOrder, published, saw, hhistory, hstage]
  exact h

theorem InOrder.of_record (h : s.InOrder) {events : List Event} (hhistory : t.history = (s.record events).history)
    (hsilent : events.filterMap Event.entered? = []) (hstage : t.stage.lifecycle = s.stage.lifecycle) : t.InOrder := by
  rw [InOrder, published, saw_of_history hhistory, hsilent, List.append_nil, hstage]
  exact h

theorem InOrder.of_enter (h : s.InOrder) (hhistory : t.history = (s.record [.entered t.stage.lifecycle]).history)
    (hstage : s.stage.lifecycle.path ++ [t.stage.lifecycle] = t.stage.lifecycle.path) : t.InOrder := by
  rw [InOrder, published, saw_of_history hhistory, ← hstage]
  exact congrArg (· ++ [t.stage.lifecycle]) h

theorem InOrder.moves (h : s.InOrder) {label : Step} (hm : Moves s label t) : t.InOrder := by
  cases hm with
  | wait millis => exact h
  | shutDown => exact h
  | pushOutside hp => exact h
  | turnOutside hp => exact h
  | delivery hallowed hd hmoved hp =>
      exact h.of_record rfl (List.filterMap_eq_nil_iff.2 (by simp [Event.entered?])) rfl
  | beginRound hs => exact h.of_record rfl rfl (by rw [hs]; rfl)
  | stopCollecting hs hf => exact h.of_same rfl (by rw [hs]; rfl)
  | collected hs hg => exact h.of_same rfl (by rw [hs]; rfl)
  | @endEmptyRound g since round d hs hr hempty =>
      refine h.of_record rfl ?_ (by rw [hs]; rfl)
      unfold reported
      cases round.firstError <;> rfl
  | @endRound g since round d pushing hs hr hne hp =>
      refine h.of_record rfl ?_ (by rw [hs]; rfl)
      unfold reported
      cases round.firstError <;> rfl
  | turnRound hs hp => exact h
  | @leaveRound token items result d hs hp =>
      refine h.of_record rfl ?_ (by rw [hs]; rfl)
      cases result <;> rfl
  | beginDispatch hs => exact h.of_same rfl (by rw [hs]; rfl)
  | dispatch hs hd =>
      have hpath : s.stage.lifecycle.path = [.running] := by rw [hs]; rfl
      exact (hd.saw_eq fun _ _ => rfl).trans (h.trans hpath)
  | @join number listens batch ending hs hd =>
      refine h.of_record rfl ?_ rfl
      cases ending <;> cases listens <;> rfl
  | stopDelivering hs hf => exact h.of_same rfl (by rw [hs]; rfl)
  | drain hs => exact h.of_enter rfl (by rw [hs]; rfl)
  | dispatchLeft hs hd =>
      have hpath : s.stage.lifecycle.path = [.running, .draining] := by rw [hs]; rfl
      exact (hd.saw_eq fun _ _ => rfl).trans (h.trans hpath)
  | drained hs hall => exact h.of_enter rfl (by rw [hs]; rfl)
  | overrunWaiting hs hdue hp => exact h.of_record rfl rfl (by rw [hs]; rfl)
  | overrun hs hdue hleft => exact h.of_record rfl rfl (by rw [hs]; rfl)
  | terminate hs hall => exact h.of_enter rfl (by rw [hs]; rfl)

/-! ## From stage to stage -/

inductive Goes (s : State) : Step → Stage → Stage → Prop where
  | collecting {label : Step} {c c' : CollectingLoop} {d : DeliveringLoop} (hc : c ≠ .stopped)
      (hf : c' = .stopped → s.isFired .shutdown = true) : Goes s label (.running c d) (.running c' d)
  | delivering {label : Step} {c : CollectingLoop} {d d' : DeliveringLoop} (hd : d ≠ .stopped)
      (hf : d' = .stopped → s.isFired .shutdown = true) : Goes s label (.running c d) (.running c d')
  | drain : Goes s .drain (.running .stopped .stopped)
      (.draining (some .looking) (s.now + s.config.shutdownTimeout.ceilMillis))
  | dispatch {d : Dispatching} {d' : Option Dispatching} {deadline : Nat} :
      Goes s .dispatch (.draining (some d) deadline) (.draining d' deadline)
  | drained {deadline : Nat} (hall : s.unjoined = []) : Goes s .drained (.draining none deadline) .terminated
  | overrun {d : Option Dispatching} {deadline : Nat} (hdue : deadline ≤ s.now) :
      Goes s .overrun (.draining d deadline) .abandoning
  | terminate (hall : s.unjoined = []) : Goes s .terminate .abandoning .terminated

theorem Moves.goes {label : Step} (hm : Moves s label t) : t.stage = s.stage ∨ Goes s label s.stage t.stage := by
  cases hm with
  | wait millis => exact .inl rfl
  | shutDown => exact .inl rfl
  | pushOutside hp => exact .inl rfl
  | turnOutside hp => exact .inl rfl
  | delivery hallowed hd hmoved hp => exact .inl rfl
  | beginRound hs =>
      rw [hs]
      exact .inr (.collecting (by simp) (by simp))
  | stopCollecting hs hf =>
      rw [hs]
      exact .inr (.collecting (by simp) fun _ => hf)
  | collected hs hg =>
      rw [hs]
      exact .inr (.collecting (by simp) (by simp))
  | endEmptyRound hs hr hempty =>
      rw [hs]
      exact .inr (.collecting (by simp) (by simp))
  | endRound hs hr hne hp =>
      rw [hs]
      exact .inr (.collecting (by simp) (by simp))
  | turnRound hs hp => exact .inl rfl
  | leaveRound hs hp =>
      rw [hs]
      exact .inr (.collecting (by simp) (by simp))
  | beginDispatch hs =>
      rw [hs]
      exact .inr (.delivering (by simp) (by simp))
  | @dispatch c d d' u hs hd =>
      rw [hs]
      exact .inr (.delivering (by simp) (by cases d' <;> simp))
  | join hs hd => exact .inl rfl
  | stopDelivering hs hf =>
      rw [hs]
      exact .inr (.delivering (by simp) fun _ => hf)
  | drain hs =>
      rw [hs]
      exact .inr .drain
  | dispatchLeft hs hd =>
      rw [hs]
      exact .inr .dispatch
  | drained hs hall =>
      rw [hs]
      exact .inr (.drained hall)
  | overrunWaiting hs hdue hp =>
      rw [hs]
      exact .inr (.overrun hdue)
  | overrun hs hdue hleft =>
      rw [hs]
      exact .inr (.overrun hdue)
  | terminate hs hall =>
      rw [hs]
      exact .inr (.terminate hall)

theorem Signalled.moves (h : s.Signalled) {label : Step} (hm : Moves s label t) : t.Signalled := by
  have hgoes := hm.goes
  constructor
  · intro hstopped
    refine hm.isFired_iff.2 (.inr ?_)
    rcases hgoes with hsame | hgoes
    · exact h.requested (hsame ▸ hstopped)
    · generalize hold : s.stage = old at hgoes
      generalize hnew : t.stage = new at hgoes
      rw [hnew] at hstopped
      cases hgoes with
      | collecting hc hf =>
          rcases hstopped with hstop | hstop
          · exact hf hstop
          · exact h.requested (hold ▸ .inr hstop)
      | delivering hd hf =>
          rcases hstopped with hstop | hstop
          · exact h.requested (hold ▸ .inl hstop)
          · exact hf hstop
      | drain => exact h.requested (hold ▸ .inl rfl)
      | dispatch => exact h.requested (hold ▸ trivial)
      | drained hall => exact h.requested (hold ▸ trivial)
      | overrun hdue => exact h.requested (hold ▸ trivial)
      | terminate hall => exact h.requested (hold ▸ trivial)
  · intro hfired
    rcases hm.isFired_iff.1 hfired with hl | hbefore
    · obtain rfl := Step.eq_overrun hl
      cases hm <;> exact .inl rfl
    · have hlate := h.late hbefore
      rcases hgoes with hsame | hgoes
      · rw [hsame]
        exact hlate
      · generalize s.stage = old at hgoes hlate
        generalize t.stage = new at hgoes
        rcases hlate with rfl | rfl
        · cases hgoes
          exact .inr rfl
        · cases hgoes
  · intro habandoning
    rcases hgoes with hsame | hgoes
    · exact hm.isFired_iff.2 (.inr (h.abandoned (hsame ▸ habandoning)))
    · generalize s.stage = old at hgoes
      rw [habandoning] at hgoes
      cases hgoes
      exact hm.isFired_iff.2 (.inl rfl)

theorem Signalled.abandoned_of_isAbandoning (h : s.Signalled) (hs : s.isAbandoning = true) :
    s.isFired .abandon = true := by
  refine h.abandoned ?_
  unfold isAbandoning at hs
  split at hs
  · assumption
  · cases hs

/-! ## Rounds -/

theorem RoundsOver.over (h : s.RoundsOver) (hs : ∀ d, s.stage ≠ .running .pushing d) {n : Nat}
    {p : Pusher Token Metric} (hp : s.pushing.pushers.get? (.round n) = some p) : p.phase.isEnded = true := by
  rcases h n p hp with hended | ⟨-, d, hd⟩
  · exact hended
  · exact absurd hd (hs d)

/-- While no round is pushing, the agent may do anything that leaves the pushes of rounds alone. -/
theorem RoundsOver.idle (h : s.RoundsOver) (hs : ∀ d, s.stage ≠ .running .pushing d)
    (hpushers : t.pushing.pushers = s.pushing.pushers) : t.RoundsOver :=
  fun _ _ hp => .inl (h.over hs (hpushers ▸ hp))

theorem RoundsOver.delivering (h : s.RoundsOver) {c : CollectingLoop} {d d' : DeliveringLoop}
    (hs : s.stage = .running c d) (ht : t.stage = .running c d') (hrounds : t.rounds = s.rounds)
    (hpushers : t.pushing.pushers = s.pushing.pushers) : t.RoundsOver := by
  intro n p hp
  rcases h n p (hpushers ▸ hp) with hended | ⟨hn, e, he⟩
  · exact .inl hended
  · rw [hs] at he
    cases he
    exact .inr ⟨hn.trans hrounds.symm, d', ht⟩

theorem RoundsOver.outside (h : s.RoundsOver) {number : Nat} {pushing : Pushing Source Token Metric}
    (ht : s.pushing.Touches pushing (.outside number)) : RoundsOver { s with pushing } := by
  intro n p hp
  have hother : Source.outside number ≠ .round n := by simp
  exact h n p ((ht.others _ hother).symm.trans hp)

theorem RoundsOver.moves (h : s.RoundsOver) {label : Step} (hm : Moves s label t) : t.RoundsOver := by
  cases hm with
  | wait millis => exact h
  | shutDown => exact h
  | pushOutside hp => exact h.outside (Pushing.start_spec hp).1
  | turnOutside hp => exact h.outside (Pushing.turn_spec hp).1
  | delivery hallowed hd hmoved hp => exact h
  | beginRound hs => exact h.idle (by simp [hs]) rfl
  | stopCollecting hs hf => exact h.idle (by simp [hs]) rfl
  | collected hs hg => exact h.idle (by simp [hs]) rfl
  | endEmptyRound hs hr hempty => exact h.idle (by simp [hs]) rfl
  | @endRound g since round d pushing hs hr hne hp =>
      intro n p hn
      by_cases hround : s.rounds = n
      · exact .inr ⟨hround.symm, d, rfl⟩
      · have hother : Source.round s.rounds ≠ .round n := fun he => hround (Source.round.inj he)
        have hold := ((Pushing.start_spec hp).1.others _ hother).symm.trans hn
        exact .inl (h.over (by simp [hs]) hold)
  | @turnRound pushing d hs hp =>
      intro n p hn
      by_cases hround : s.rounds = n
      · exact .inr ⟨hround.symm, d, hs⟩
      · have hother : Source.round s.rounds ≠ .round n := fun he => hround (Source.round.inj he)
        exact h n p (((Pushing.turn_spec hp).1.others _ hother).symm.trans hn)
  | leaveRound hs hp =>
      intro n p hn
      have hn : s.pushing.pushers.get? (.round n) = some p := hn
      rcases h n p hn with hended | ⟨rfl, -⟩
      · exact .inl hended
      · cases hp.symm.trans hn
        exact .inl rfl
  | beginDispatch hs => exact h.delivering hs rfl rfl rfl
  | dispatch hs hd =>
      obtain ⟨hrounds, hpushers, -⟩ := hd.rounds_eq
      exact h.delivering hs rfl hrounds hpushers
  | join hs hd => exact h
  | stopDelivering hs hf => exact h.delivering hs rfl rfl rfl
  | drain hs => exact h.idle (by simp [hs]) rfl
  | dispatchLeft hs hd => exact h.idle (by simp [hs]) hd.rounds_eq.2.1
  | drained hs hall => exact h.idle (by simp [hs]) rfl
  | overrunWaiting hs hdue hp => exact h.idle (by simp [hs]) rfl
  | overrun hs hdue hleft => exact h.idle (by simp [hs]) rfl
  | terminate hs hall => exact h.idle (by simp [hs]) rfl

/-! ## Deliveries -/

/-- What a step changes of the deliveries. -/
inductive Changes (s : State) (label : Step) (t : State) : Prop where
  | nothing (ht : t.deliveries = s.deliveries) (he : ∀ n, t.eventsOf n = s.eventsOf n)
  | moved {number : Nat} {step : DeliveryStep} {d d' : Delivery} {seen : List DeliveryEvent}
      (hl : label = .delivery number step) (ha : s.allows step = true) (hd : s.deliveries.get? number = some d)
      (hm : d.Moves s.config.backoff s.now (s.isFired .abandon) step d' seen)
      (ht : t.deliveries = s.deliveries.put number d')
      (he : ∀ n, t.eventsOf n = s.eventsOf n ++ if number = n then seen else [])
  | noticed {number : Nat} {batch : List Metric} {ending : Ending} (hl : label = .join number)
      (hd : s.deliveries.get? number = some ⟨batch, .ended ending, false⟩)
      (ht : t.deliveries = s.deliveries.put number ⟨batch, .ended ending, true⟩)
      (he : ∀ n, t.eventsOf n = s.eventsOf n)
  | taken {batch : List Metric} (hl : label = .dispatch) (hs : s.stage ≠ .abandoning ∧ s.stage ≠ .terminated)
      (ht : t.deliveries = s.deliveries.put s.next (.fresh batch)) (he : ∀ n, t.eventsOf n = s.eventsOf n)

theorem eventsOf_of_quiet {events : List Event} (hhistory : t.history = (s.record events).history)
    (hquiet : ∀ e ∈ events, quiet e = true) (n : Nat) : t.eventsOf n = s.eventsOf n := by
  rw [eventsOf, saw_of_history hhistory, filterMap_ofDelivery_of_quiet hquiet, List.append_nil]
  rfl

theorem Dispatches.changes {u : State} {token : Token} {d : Dispatching} {d' : Option Dispatching}
    (h : Dispatches s token d u d') (hs : s.stage ≠ .abandoning ∧ s.stage ≠ .terminated)
    (hdeliveries : t.deliveries = u.deliveries) (hhistory : t.history = u.history) : Changes s .dispatch t := by
  have hevents : ∀ n, t.eventsOf n = u.eventsOf n := fun n => by rw [eventsOf, saw, hhistory]; rfl
  cases h with
  | take hb hne =>
      exact .taken rfl hs hdeliveries fun n => (hevents n).trans ((saw_record _ _ _).trans (List.append_nil _))
  | _ => exact .nothing hdeliveries hevents

theorem Moves.changes {label : Step} (hm : Moves s label t) : Changes s label t := by
  cases hm with
  | @delivery number label d d' seen permits hallowed hd hmoved hp =>
      refine .moved rfl hallowed hd hmoved rfl fun n => ?_
      rw [← filterMap_ofDelivery number n seen]
      exact saw_record _ _ _
  | beginRound hs => exact .nothing rfl (eventsOf_of_quiet rfl (by simp [quiet]))
  | @endEmptyRound g since round d hs hr hempty => exact .nothing rfl (eventsOf_of_quiet rfl (quiet_reported round))
  | @endRound g since round d pushing hs hr hne hp =>
      exact .nothing rfl (eventsOf_of_quiet rfl (quiet_reported round))
  | @leaveRound token items result d hs hp => exact .nothing rfl (eventsOf_of_quiet rfl (quiet_refusal result))
  | dispatch hs hd => exact hd.changes (by simp [hs]) rfl rfl
  | @join number listens batch ending hs hd =>
      exact .noticed rfl hd rfl (eventsOf_of_quiet rfl (quiet_crash ending listens))
  | drain hs => exact .nothing rfl (eventsOf_of_quiet rfl (by simp [quiet]))
  | dispatchLeft hs hd => exact hd.changes (by simp [hs]) rfl rfl
  | drained hs hall => exact .nothing rfl (eventsOf_of_quiet rfl (by simp [quiet]))
  | overrunWaiting hs hdue hp => exact .nothing rfl (eventsOf_of_quiet rfl (by simp [quiet]))
  | overrun hs hdue hleft => exact .nothing rfl (eventsOf_of_quiet rfl (by simp [quiet]))
  | terminate hs hall => exact .nothing rfl (eventsOf_of_quiet rfl (by simp [quiet]))
  | _ => exact .nothing rfl fun _ => rfl

theorem unjoined_eq_nil_iff : s.unjoined = [] ↔ ∀ n d, s.deliveries.get? n = some d → d.joined = true := by
  simp only [unjoined, List.filter_eq_nil_iff, Dict.get?_eq_some_iff, Prod.forall]
  simp

theorem Noticed.moves (h : s.Noticed) {label : Step} (hm : Moves s label t) : t.Noticed := by
  have hchanges := hm.changes
  constructor
  · intro n d hd hjoined
    cases hchanges with
    | nothing ht he => exact h.ended n d (ht ▸ hd) hjoined
    | moved hl ha hold hmoved ht he =>
        rcases Dict.of_get?_put (ht ▸ hd) with ⟨rfl, rfl⟩ | ⟨-, hd⟩
        · obtain ⟨-, hsame, hrunning⟩ := hmoved.frame
          rw [h.ended _ _ hold (hsame ▸ hjoined)] at hrunning
          cases hrunning
        · exact h.ended n d hd hjoined
    | noticed hl hold ht he =>
        rcases Dict.of_get?_put (ht ▸ hd) with ⟨rfl, rfl⟩ | ⟨-, hd⟩
        · rfl
        · exact h.ended n d hd hjoined
    | taken hl hs ht he =>
        rcases Dict.of_get?_put (ht ▸ hd) with ⟨rfl, rfl⟩ | ⟨-, hd⟩
        · cases hjoined
        · exact h.ended n d hd hjoined
  · intro hterminated
    have hall : s.unjoined = [] ∧ (label = .dispatch → s.stage = .terminated) := by
      rcases hm.goes with hsame | hgoes
      · have hs : s.stage = .terminated := hsame ▸ hterminated
        exact ⟨h.all hs, fun _ => hs⟩
      · generalize s.stage = old at hgoes
        rw [hterminated] at hgoes
        cases hgoes with
        | drained hall => exact ⟨hall, by simp⟩
        | terminate hall => exact ⟨hall, by simp⟩
    have hjoined := unjoined_eq_nil_iff.1 hall.1
    cases hchanges with
    | nothing ht he =>
        rw [unjoined, ht]
        exact hall.1
    | moved hl ha hold hmoved ht he =>
        have hrunning := hmoved.frame.2.2
        rw [h.ended _ _ hold (hjoined _ _ hold)] at hrunning
        cases hrunning
    | noticed hl hold ht he => cases hjoined _ _ hold
    | taken hl hs ht he => exact absurd (hall.2 hl) hs.2

theorem Ends.moves (h : s.Ends) (hconserved : s.Conserved) (hsignalled : s.Signalled) {label : Step}
    (hm : Moves s label t) : t.Ends := by
  intro n d hd hended
  rw [hm.config_eq]
  have hkeeps : ∀ {events : List DeliveryEvent},
      d.Settled s.config.backoff events ∨ s.isFired .abandon = true ∧ d.IsCut →
      d.Settled s.config.backoff events ∨ t.isFired .abandon = true ∧ d.IsCut :=
    fun h => h.imp_right fun ⟨hfired, hcut⟩ => ⟨hm.isFired_iff.2 (.inr hfired), hcut⟩
  cases hm.changes with
  | nothing ht he =>
      rw [he]
      exact hkeeps (h n d (ht ▸ hd) hended)
  | moved hl ha hold hmoved ht he =>
      rw [he]
      rcases Dict.of_get?_put (ht ▸ hd) with ⟨rfl, rfl⟩ | ⟨hn, hd⟩
      · rw [if_pos rfl]
        refine hkeeps (((hconserved.sound _ _ hold).settled_or_cut hmoved hended).imp_right ?_)
        rintro ⟨hcut, rfl | ⟨rfl, hfired⟩⟩
        · exact ⟨hsignalled.abandoned_of_isAbandoning ha, hcut⟩
        · exact ⟨hfired, hcut⟩
      · rw [if_neg hn, List.append_nil]
        exact hkeeps (h n d hd hended)
  | noticed hl hold ht he =>
      rw [he]
      rcases Dict.of_get?_put (ht ▸ hd) with ⟨rfl, rfl⟩ | ⟨-, hd⟩
      · have hbefore := h _ _ hold rfl
        exact hkeeps hbefore
      · exact hkeeps (h n d hd hended)
  | taken hl hs ht he =>
      rw [he]
      rcases Dict.of_get?_put (ht ▸ hd) with ⟨rfl, rfl⟩ | ⟨-, hd⟩
      · cases hended
      · exact hkeeps (h n d hd hended)

/-! ## Permits -/

theorem Stage.acquirer?_running (c c' : CollectingLoop) (d : DeliveringLoop) :
    (Stage.running c d).acquirer? = (Stage.running c' d).acquirer? := by
  cases d <;> rfl

/-- What a step of handing out leaves of the permits of the next delivery. -/
theorem Dispatches.handing {token : Token} {d : Dispatching} {d' : Option Dispatching}
    (h : Dispatches s token d t d') (hcurrent : s.permits.tasks.get? s.next = d.acquirer? token)
    (hlater : ∀ n, s.next < n → s.permits.tasks.get? n = none) :
    t.permits.tasks.get? t.next = d'.bind (·.acquirer? token) ∧
      ∀ n, t.next < n → t.permits.tasks.get? n = none := by
  have hother : ∀ {permits : Semaphore Nat Token}, s.permits.Touches permits s.next →
      ∀ n, s.next < n → permits.tasks.get? n = none :=
    fun ht n hn => (ht.others n (Nat.ne_of_lt hn)).trans (hlater n hn)
  cases h with
  | nothing hq => exact ⟨hcurrent, hlater⟩
  | @ask permits d hq hp hd =>
      obtain ⟨htouches, -, hnext⟩ := Semaphore.acquire_spec hp
      refine ⟨?_, hother htouches⟩
      rcases hnext with ⟨-, hnext⟩ | ⟨-, hnext | hnext⟩ <;> rcases hd with ⟨hphase, rfl⟩ | ⟨hphase, rfl⟩ <;>
        simp_all [Semaphore.phase?, Dispatching.acquirer?]
  | @turn permits d hp hd =>
      obtain ⟨htouches, token', hwaiting, hnext⟩ := Semaphore.turn_spec hp
      cases hwaiting.symm.trans hcurrent
      refine ⟨?_, hother htouches⟩
      rcases hnext with ⟨-, hnext⟩ | ⟨-, hnext⟩ <;> rcases hd with ⟨hphase, rfl⟩ | ⟨hphase, rfl⟩ <;>
        simp_all [Semaphore.phase?, Dispatching.acquirer?]
  | @refused permits d hp hheld hwaiting =>
      have htouches : s.permits.Touches permits s.next := by
        rcases hp with ⟨-, hp⟩ | ⟨-, hp⟩
        · exact (Semaphore.acquire_spec hp).1
        · exact (Semaphore.turn_spec hp).1
      exact ⟨hother htouches _ (Nat.lt_succ_self _), fun n hn => hother htouches n (Nat.lt_of_succ_lt hn)⟩
  | empty hb hp =>
      have htouches := Semaphore.release_spec hp
      exact ⟨hother htouches _ (Nat.lt_succ_self _), fun n hn => hother htouches n (Nat.lt_of_succ_lt hn)⟩
  | take hb hne =>
      exact ⟨hlater _ (Nat.lt_succ_self _), fun n hn => hlater n (Nat.lt_of_succ_lt hn)⟩

theorem Handing.of_same (h : s.Handing) (htasks : t.permits.tasks = s.permits.tasks) (hnext : t.next = s.next)
    (hstage : t.stage.acquirer? = s.stage.acquirer?) : t.Handing where
  current := by rw [htasks, hnext, hstage, h.current]
  later n hn := by
    rw [htasks]
    exact h.later n (hnext ▸ hn)

theorem Handing.moves (h : s.Handing) (hconserved : s.Conserved) {label : Step} (hm : Moves s label t) :
    t.Handing := by
  cases hm with
  | wait millis => exact h.of_same rfl rfl rfl
  | shutDown => exact h.of_same rfl rfl rfl
  | pushOutside hp => exact h.of_same rfl rfl rfl
  | turnOutside hp => exact h.of_same rfl rfl rfl
  | @delivery number label d d' seen permits hallowed hd hmoved hp =>
      have hold : number < s.next := hconserved.fresh number d hd
      have hothers : ∀ n, s.next ≤ n → permits.tasks.get? n = s.permits.tasks.get? n := by
        intro n hn
        split at hp
        · exact (Semaphore.release_spec hp).others n (by omega)
        · rw [hp]
      exact ⟨(hothers _ (Nat.le_refl _)).trans h.current,
        fun n hn => (hothers n (Nat.le_of_lt hn)).trans (h.later n hn)⟩
  | beginRound hs => exact h.of_same rfl rfl (hs ▸ Stage.acquirer?_running _ _ _)
  | stopCollecting hs hf => exact h.of_same rfl rfl (hs ▸ Stage.acquirer?_running _ _ _)
  | collected hs hg => exact h.of_same rfl rfl (hs ▸ Stage.acquirer?_running _ _ _)
  | endEmptyRound hs hr hempty => exact h.of_same rfl rfl (hs ▸ Stage.acquirer?_running _ _ _)
  | endRound hs hr hne hp => exact h.of_same rfl rfl (hs ▸ Stage.acquirer?_running _ _ _)
  | turnRound hs hp => exact h.of_same rfl rfl rfl
  | leaveRound hs hp => exact h.of_same rfl rfl (hs ▸ Stage.acquirer?_running _ _ _)
  | beginDispatch hs => exact h.of_same rfl rfl (hs ▸ rfl)
  | @dispatch c d d' u hs hd =>
      obtain ⟨hcurrent, hlater⟩ := hd.handing (h.current.trans (hs ▸ rfl)) h.later
      refine ⟨hcurrent.trans ?_, hlater⟩
      cases d' <;> rfl
  | join hs hd => exact h.of_same rfl rfl rfl
  | stopDelivering hs hf => exact h.of_same rfl rfl (hs ▸ rfl)
  | drain hs => exact h.of_same rfl rfl (hs ▸ rfl)
  | @dispatchLeft d d' deadline u hs hd =>
      obtain ⟨hcurrent, hlater⟩ := hd.handing (h.current.trans (hs ▸ rfl)) h.later
      refine ⟨hcurrent.trans ?_, hlater⟩
      cases d' <;> rfl
  | drained hs hall => exact h.of_same rfl rfl (hs ▸ rfl)
  | overrunWaiting hs hdue hp =>
      have hothers := (Semaphore.leave_spec hp).others
      exact ⟨(hothers _ (Nat.ne_of_lt (Nat.lt_succ_self _))).trans (h.later _ (Nat.lt_succ_self _)),
        fun n hn => (hothers n (Nat.ne_of_lt (Nat.lt_of_succ_lt hn))).trans (h.later n (Nat.lt_of_succ_lt hn))⟩
  | overrun hs hdue hleft => exact h.of_same rfl rfl (hs ▸ rfl)
  | terminate hs hall => exact h.of_same rfl rfl (hs ▸ rfl)

/-! ## Every run -/

/-- All that holds at every moment of a run. -/
structure Orderly (s : State) : Prop where
  conserved : s.Conserved
  inOrder : s.InOrder
  signalled : s.Signalled
  roundsOver : s.RoundsOver
  noticed : s.Noticed
  ends : s.Ends
  handing : s.Handing

theorem orderly_start {config : Config} {collectors : Nat} (h : start? config collectors = some s) : s.Orderly := by
  have hconserved := conserved_start h
  obtain ⟨pushing, hp, h⟩ := Option.bind_eq_some_iff.1 h
  simp only [Pushing.fresh?, Option.map_eq_some_iff] at hp
  obtain ⟨q, -, rfl⟩ := hp
  split at h
  · cases h
    exact {
      conserved := hconserved
      inOrder := rfl
      signalled := ⟨by simp [Stage.hasStopped], by simp [isFired, Semaphore.fresh], by simp⟩
      roundsOver := by simp [RoundsOver]
      noticed := ⟨by simp, by simp⟩
      ends := by simp [Ends]
      handing := ⟨rfl, fun _ _ => rfl⟩ }
  · cases h

theorem Orderly.moves (h : s.Orderly) {label : Step} (hm : Moves s label t) : t.Orderly where
  conserved := h.conserved.moves hm
  inOrder := h.inOrder.moves hm
  signalled := h.signalled.moves hm
  roundsOver := h.roundsOver.moves hm
  noticed := h.noticed.moves hm
  ends := h.ends.moves h.conserved h.signalled hm
  handing := h.handing.moves h.conserved hm

theorem Orderly.run (h : s.Orderly) {labels : List Step} (hs : stepwise State.step s labels = some t) :
    t.Orderly :=
  stepwise_keeps hs h fun _ _ _ _ h hstep => h.moves (moves_of_step hstep)

end State

end PushMetrics.Agent
