import PushMetrics.Proofs.Agent.Stages

/-!
# From running to terminated

An agent runs, drains and terminates, in this order. Once it drains it collects and pushes nothing more, and once it
has terminated nothing more is seen of it. A drain that ends in time leaves nothing behind; one that does not cuts off
what still runs.
-/

namespace PushMetrics.Agent

def Event.began? : Event → Option Nat
  | .roundBegan number => some number
  | _ => none

/-- While a drain goes on in time, what may be in the queue. -/
def Stage.Leaves (buffer : List Metric) : Stage → Prop
  | .draining (some .looking) _ => True
  | .draining (some _) _ => buffer ≠ []
  | .draining none _ | .terminated => buffer = []
  | .running _ _ | .abandoning => False

/-- The agent drains until this deadline, or is past draining. -/
def Stage.IsDue (deadline : Nat) : Stage → Prop
  | .running _ _ => False
  | .draining _ due => due = deadline
  | .abandoning | .terminated => True

theorem Stage.eq_terminated {stage : Stage} (h : stage.lifecycle = .terminated) : stage = .terminated := by
  cases stage with
  | terminated => rfl
  | _ => cases h

namespace State

variable {s t : State}

/-! ## Forwards -/

theorem Moves.path_grows {label : Step} (hm : Moves s label t) :
    s.stage.lifecycle.path <+: t.stage.lifecycle.path := by
  rcases hm.goes with hsame | hgoes
  · exact hsame ▸ List.prefix_refl _
  · generalize s.stage = old at hgoes
    generalize t.stage = new at hgoes
    cases hgoes with
    | drain => exact ⟨[.draining], rfl⟩
    | drained hall => exact ⟨[.terminated], rfl⟩
    | terminate hall => exact ⟨[.terminated], rfl⟩
    | _ => exact List.prefix_refl _

theorem path_grows_of_stepwise {more : List Step} (h : stepwise State.step s more = some t) :
    s.stage.lifecycle.path <+: t.stage.lifecycle.path :=
  stepwise_relates (R := fun s t => s.stage.lifecycle.path <+: t.stage.lifecycle.path) (fun _ => List.prefix_refl _)
    List.IsPrefix.trans (fun _ _ _ hstep => (moves_of_step hstep).path_grows) h

/-- Only an agent whose loops have both stopped stops running, and it then drains. -/
theorem Moves.stops {label : Step} (hm : Moves s label t) (hs : s.stage.lifecycle = .running)
    (ht : t.stage.lifecycle ≠ .running) : s.stage = .running .stopped .stopped ∧ label = .drain := by
  rcases hm.goes with hsame | hgoes
  · rw [hsame] at ht
    exact absurd hs ht
  · generalize s.stage = old at hgoes hs
    generalize t.stage = new at hgoes ht
    cases hgoes with
    | drain => exact ⟨rfl, rfl⟩
    | collecting hc hf => exact absurd rfl ht
    | delivering hd hf => exact absurd rfl ht
    | _ => cases hs

theorem unfired_start {config : Config} {collectors : Nat} (h : start? config collectors = some s) :
    s.isFired .shutdown = false := by
  obtain ⟨pushing, -, h⟩ := Option.bind_eq_some_iff.1 h
  split at h
  · cases h
    rfl
  · cases h

theorem requested_of_stepwise {first : State} {labels : List Step} (h : stepwise State.step first labels = some s)
    (hfirst : first.isFired .shutdown = false) (hs : s.isFired .shutdown = true) : Step.shutDown ∈ labels := by
  by_contra hnever
  have hfalse : s.isFired .shutdown = false := by
    refine stepwise_keeps (P := fun s => s.isFired .shutdown = false) h hfirst fun s label t hin hs hstep => ?_
    rw [Bool.eq_false_iff]
    intro hfired
    rcases (moves_of_step hstep).isFired_iff.1 hfired with hl | hbefore
    · exact hnever (Step.eq_shutDown hl ▸ hin)
    · rw [hs] at hbefore
      cases hbefore
  rw [hs] at hfalse
  cases hfalse

/-! ## After running -/

def began (s : State) : List Nat := s.saw Event.began?

theorem lifecycle_running {c : CollectingLoop} {d : DeliveringLoop} (h : s.stage = .running c d) :
    s.stage.lifecycle = .running := by
  rw [h]
  rfl

/-- From one state to a later one no round begins or pushes, and what is accepted comes from outside. -/
structure Rests (s t : State) : Prop where
  rounds : t.rounds = s.rounds
  began : t.began = s.began
  pushers : ∀ n, t.pushing.pushers.get? (.round n) = s.pushing.pushers.get? (.round n)
  accepted : ∃ more, t.pushing.accepted = s.pushing.accepted ++ more ∧ ∀ e ∈ more, ∃ n, e.1 = .outside n

theorem Rests.refl (s : State) : s.Rests s := ⟨rfl, rfl, fun _ => rfl, [], (List.append_nil _).symm, by simp⟩

theorem Rests.trans {u : State} (h : s.Rests t) (k : t.Rests u) : s.Rests u := by
  obtain ⟨more, hmore, houtside⟩ := h.accepted
  obtain ⟨more', hmore', houtside'⟩ := k.accepted
  refine ⟨k.rounds.trans h.rounds, k.began.trans h.began, fun n => (k.pushers n).trans (h.pushers n),
    more ++ more', ?_, ?_⟩
  · rw [hmore', hmore, List.append_assoc]
  · exact fun e he => (List.mem_append.1 he).elim (houtside e) (houtside' e)

theorem rests_of_record {events : List Event} (hhistory : t.history = (s.record events).history)
    (hsilent : events.filterMap Event.began? = []) (hrounds : t.rounds = s.rounds)
    (hpushers : t.pushing.pushers = s.pushing.pushers) (haccepted : t.pushing.accepted = s.pushing.accepted) :
    s.Rests t := by
  refine ⟨hrounds, ?_, fun _ => by rw [hpushers], [], by rw [haccepted, List.append_nil], by simp⟩
  rw [State.began, saw_of_history hhistory, hsilent, List.append_nil]
  rfl

theorem rests_of_touches {number : Nat} {pushing : Pushing Source Token Metric}
    (h : s.pushing.Touches pushing (.outside number)) : s.Rests { s with pushing } := by
  obtain ⟨items, haccepted⟩ := h.accepted
  refine ⟨rfl, rfl, fun n => h.others _ (by simp), _, haccepted, fun e he => ?_⟩
  obtain ⟨item, -, rfl⟩ := List.mem_map.1 he
  exact ⟨number, rfl⟩

theorem Moves.rests {label : Step} (hm : Moves s label t) (hs : s.stage.lifecycle ≠ .running) : s.Rests t := by
  cases hm with
  | wait millis => exact ⟨rfl, rfl, fun _ => rfl, [], (List.append_nil _).symm, by simp⟩
  | shutDown => exact ⟨rfl, rfl, fun _ => rfl, [], (List.append_nil _).symm, by simp⟩
  | pushOutside hp => exact rests_of_touches (Pushing.start_spec hp).1
  | turnOutside hp => exact rests_of_touches (Pushing.turn_spec hp).1
  | delivery hallowed hd hmoved hp =>
      exact rests_of_record rfl (List.filterMap_eq_nil_iff.2 (by simp [Event.began?])) rfl rfl rfl
  | @join number listens batch ending hstage hd =>
      refine rests_of_record rfl ?_ rfl rfl rfl
      cases ending <;> cases listens <;> rfl
  | dispatchLeft hstage hd =>
      obtain ⟨hrounds, hpushers, haccepted⟩ := hd.rounds_eq
      exact ⟨hrounds, hd.saw_eq fun _ _ => rfl, fun _ => congrArg (Dict.get? · _) hpushers, [],
        haccepted.trans (List.append_nil _).symm, by simp⟩
  | drained hstage hall => exact rests_of_record rfl rfl rfl rfl rfl
  | overrunWaiting hstage hdue hp => exact rests_of_record rfl rfl rfl rfl rfl
  | overrun hstage hdue hleft => exact rests_of_record rfl rfl rfl rfl rfl
  | terminate hstage hall => exact rests_of_record rfl rfl rfl rfl rfl
  | beginRound hstage => exact absurd (lifecycle_running hstage) hs
  | stopCollecting hstage hf => exact absurd (lifecycle_running hstage) hs
  | collected hstage hg => exact absurd (lifecycle_running hstage) hs
  | endEmptyRound hstage hr hempty => exact absurd (lifecycle_running hstage) hs
  | endRound hstage hr hne hp => exact absurd (lifecycle_running hstage) hs
  | turnRound hstage hp => exact absurd (lifecycle_running hstage) hs
  | leaveRound hstage hp => exact absurd (lifecycle_running hstage) hs
  | beginDispatch hstage => exact absurd (lifecycle_running hstage) hs
  | dispatch hstage hd => exact absurd (lifecycle_running hstage) hs
  | stopDelivering hstage hf => exact absurd (lifecycle_running hstage) hs
  | drain hstage => exact absurd (lifecycle_running hstage) hs

theorem rests_of_stepwise {more : List Step} (h : stepwise State.step s more = some t)
    (hs : s.stage.lifecycle ≠ .running) : s.Rests t := by
  have hboth : s.Rests t ∧ t.stage.lifecycle ≠ .running := by
    refine stepwise_keeps (P := fun t => s.Rests t ∧ t.stage.lifecycle ≠ .running) h ⟨.refl s, hs⟩
      fun t label u _ ⟨hrests, ht⟩ hstep => ?_
    have hm := moves_of_step hstep
    refine ⟨hrests.trans (hm.rests ht), fun hu => ?_⟩
    have hgrows := hm.path_grows
    rw [hu] at hgrows
    cases hlifecycle : t.stage.lifecycle with
    | running => exact ht hlifecycle
    | _ =>
        rw [hlifecycle] at hgrows
        exact absurd hgrows.length_le (by decide)
  exact hboth.1

/-! ## After termination -/

theorem Moves.silent {label : Step} (hm : Moves s label t) (h : s.Noticed) (hs : s.stage = .terminated) :
    t.stage = .terminated ∧ t.history = s.history := by
  cases hm with
  | wait millis => exact ⟨hs, rfl⟩
  | shutDown => exact ⟨hs, rfl⟩
  | pushOutside hp => exact ⟨hs, rfl⟩
  | turnOutside hp => exact ⟨hs, rfl⟩
  | delivery hallowed hd hmoved hp =>
      have hjoined := unjoined_eq_nil_iff.1 (h.all hs) _ _ hd
      have hrunning := hmoved.frame.2.2
      rw [h.ended _ _ hd hjoined] at hrunning
      cases hrunning
  | join hstage hd =>
      rw [hs] at hstage
      cases hstage
  | _ => simp_all

theorem silent_of_stepwise {more : List Step} (horderly : s.Orderly) (h : stepwise State.step s more = some t)
    (hs : s.stage = .terminated) : t.history = s.history := by
  have hall : t.Orderly ∧ t.stage = .terminated ∧ t.history = s.history := by
    refine stepwise_keeps (P := fun t => t.Orderly ∧ t.stage = .terminated ∧ t.history = s.history) h
      ⟨horderly, hs, rfl⟩ fun t label u _ ⟨horderly, ht, hhistory⟩ hstep => ?_
    have hm := moves_of_step hstep
    obtain ⟨hu, hsilent⟩ := hm.silent horderly.noticed ht
    exact ⟨horderly.moves hm, hu, hsilent.trans hhistory⟩
  exact hall.2.2

/-! ## A drain in time -/

/-- The agent drains, its deadline has not passed, and nobody pushes. -/
structure Clearing (s : State) : Prop where
  idle : ∀ k p, s.pushing.pushers.get? k = some p → p.isPending = false
  unfired : s.isFired .abandon = false
  left : s.stage.Leaves s.pushing.queue.buffer

/-- Handing out goes on until the queue is empty. -/
theorem Dispatches.leaves {d : Dispatching} {d' : Option Dispatching} {deadline : Nat}
    (h : Dispatches s .abandon d t d') (hs : s.stage = .draining (some d) deadline) (hclearing : s.Clearing)
    (horderly : s.Orderly) (hbatch : 0 < s.config.batchSize) :
    (Stage.draining d' deadline).Leaves t.pushing.queue.buffer := by
  have hleft := hclearing.left
  rw [hs] at hleft
  have hcount := horderly.conserved.queue.count_eq hclearing.idle
  cases h with
  | nothing hq => exact List.length_eq_zero_iff.1 (hcount.symm.trans hq)
  | ask hq hp hd =>
      have hne : s.pushing.queue.buffer ≠ [] := fun hnil => hq (by rw [hcount, hnil]; rfl)
      rcases hd with ⟨-, rfl⟩ | ⟨-, rfl⟩
      · exact hne
      · exact hne
  | turn hp hd =>
      rcases hd with ⟨-, rfl⟩ | ⟨-, rfl⟩
      · exact hleft
      · exact hleft
  | @refused permits d hp hheld hwaiting =>
      have hunfired : Token.abandon ∉ s.permits.fired := by simpa [isFired] using hclearing.unfired
      have hcurrent := horderly.handing.current
      rw [hs] at hcurrent
      rcases hp with ⟨-, hp⟩ | ⟨rfl, hp⟩
      · obtain ⟨-, -, hnext⟩ := Semaphore.acquire_spec hp
        rcases hnext with ⟨hfired, -⟩ | ⟨-, hnext | hnext⟩
        · exact absurd hfired hunfired
        · exact absurd (by simp [Semaphore.phase?, hnext]) hheld
        · exact absurd (by simp [Semaphore.phase?, hnext]) hwaiting
      · obtain ⟨-, token, htask, hnext⟩ := Semaphore.turn_spec hp
        cases htask.symm.trans hcurrent
        rcases hnext with ⟨hfired, -⟩ | ⟨-, hnext⟩
        · exact absurd hfired hunfired
        · exact absurd (by simp [Semaphore.phase?, hnext]) hheld
  | empty hb hp =>
      rcases List.take_eq_nil_iff.1 ((s.pushing.queue.pop_spec _).1.symm.trans hb) with hzero | hnil
      · exact absurd hzero (Nat.ne_of_gt hbatch)
      · exact absurd hnil hleft
  | take hb hne => trivial

theorem Clearing.moves (h : s.Clearing) (horderly : s.Orderly) (hbatch : 0 < s.config.batchSize) {label : Step}
    (hpush : ∀ number items, label ≠ .pushOutside number items) (htime : label ≠ .overrun) (hm : Moves s label t) :
    t.Clearing := by
  have hunfired : t.isFired .abandon = false := by
    rw [Bool.eq_false_iff]
    intro hfired
    rcases hm.isFired_iff.1 hfired with hl | hbefore
    · exact htime (Step.eq_overrun hl)
    · cases h.unfired.symm.trans hbefore
  have hleft := h.left
  cases hm with
  | wait millis => exact ⟨h.idle, hunfired, hleft⟩
  | shutDown => exact ⟨h.idle, hunfired, hleft⟩
  | pushOutside hp => exact absurd rfl (hpush _ _)
  | turnOutside hp =>
      obtain ⟨-, p, hp, hturn⟩ := Pushing.turn_spec hp
      obtain rfl := hturn.idle (h.idle _ p hp)
      refine ⟨fun k q hk => ?_, hunfired, hleft⟩
      rcases Dict.of_get?_put hk with ⟨-, rfl⟩ | ⟨-, hk⟩
      · rfl
      · exact h.idle k q hk
  | delivery hallowed hd hmoved hp => exact ⟨h.idle, hunfired, hleft⟩
  | join hs hd => exact ⟨h.idle, hunfired, hleft⟩
  | @dispatchLeft d d' deadline u hs hd =>
      have hpushers := hd.rounds_eq.2.1
      exact ⟨hpushers ▸ h.idle, hunfired, hd.leaves hs h horderly hbatch⟩
  | drained hs hall =>
      rw [hs] at hleft
      exact ⟨h.idle, hunfired, hleft⟩
  | overrunWaiting hs hdue hp => exact absurd rfl htime
  | overrun hs hdue hleft => exact absurd rfl htime
  | _ => simp_all [Stage.Leaves]

theorem clearing_of_stepwise {more : List Step} (h : s.Clearing) (horderly : s.Orderly)
    (hbatch : 0 < s.config.batchSize) (hmore : stepwise State.step s more = some t)
    (hpush : ∀ number items, .pushOutside number items ∉ more) (htime : .overrun ∉ more) : t.Clearing := by
  have hall : t.Clearing ∧ t.Orderly ∧ 0 < t.config.batchSize := by
    refine stepwise_keeps (P := fun t => t.Clearing ∧ t.Orderly ∧ 0 < t.config.batchSize) hmore
      ⟨h, horderly, hbatch⟩ fun t label u hin ⟨h, horderly, hbatch⟩ hstep => ?_
    have hm := moves_of_step hstep
    have hpush : ∀ number items, label ≠ .pushOutside number items :=
      fun number items he => hpush number items (he ▸ hin)
    have htime : label ≠ .overrun := fun he => htime (he ▸ hin)
    exact ⟨h.moves horderly hbatch hpush htime hm, horderly.moves hm, hm.config_eq ▸ hbatch⟩
  exact hall.1

/-! ## A drain that takes too long -/

theorem Moves.isDue {label : Step} (hm : Moves s label t) {deadline : Nat} (h : s.stage.IsDue deadline) :
    t.stage.IsDue deadline := by
  rcases hm.goes with hsame | hgoes
  · exact hsame ▸ h
  · generalize s.stage = old at hgoes h
    generalize t.stage = new at hgoes
    cases hgoes with
    | collecting hc hf => exact h.elim
    | delivering hd hf => exact h.elim
    | drain => exact h.elim
    | dispatch => exact h
    | drained hall => trivial
    | overrun hdue => trivial
    | terminate hall => trivial

theorem Moves.overrun_spec (hm : Moves s .overrun t) {deadline : Nat} (h : s.stage.IsDue deadline) :
    deadline ≤ s.now ∧ t.stage = .abandoning ∧ t.deliveries = s.deliveries := by
  cases hm with
  | overrunWaiting hs hdue hp =>
      rw [hs] at h
      exact ⟨h ▸ hdue, rfl, rfl⟩
  | overrun hs hdue hleft =>
      rw [hs] at h
      exact ⟨h ▸ hdue, rfl, rfl⟩

/-- A delivery that ran when the deadline passed runs still or has been cut off. -/
structure Cutting (s : State) (number : Nat) : Prop where
  late : s.stage = .abandoning ∨ s.stage = .terminated
  cut : ∃ d, s.deliveries.get? number = some d ∧ (d.isEnded = false ∨ d.IsCut)

theorem allows_abandoning {step : DeliveryStep} (hs : s.stage = .abandoning) (h : s.allows step = true) :
    step = .abort ∨ step = .cancel := by
  cases step <;> simp_all [allows, isAbandoning]

theorem Cutting.moves {number : Nat} (h : s.Cutting number) (hnoticed : s.Noticed) {label : Step}
    (hm : Moves s label t) :
    t.Cutting number := by
  constructor
  · rcases hm.goes with hsame | hgoes
    · exact hsame ▸ h.late
    · have hlate := h.late
      generalize s.stage = old at hgoes hlate
      generalize t.stage = new at hgoes
      rcases hlate with rfl | rfl
      · cases hgoes
        exact .inr rfl
      · cases hgoes
  · obtain ⟨d, hd, hcut⟩ := h.cut
    cases hm.changes with
    | nothing ht he => exact ⟨d, ht ▸ hd, hcut⟩
    | @moved n step e e' seen hl ha hold hmoved ht he =>
        rw [ht]
        by_cases hn : n = number
        · subst hn
          refine ⟨e', Dict.get?_put_self _ _ _, .inr ?_⟩
          rcases h.late with hs | hs
          · exact hmoved.isCut (allows_abandoning hs ha)
          · have hjoined := unjoined_eq_nil_iff.1 (hnoticed.all hs) _ _ hold
            have hrunning := hmoved.frame.2.2
            rw [hnoticed.ended _ _ hold hjoined] at hrunning
            cases hrunning
        · exact ⟨d, (Dict.get?_put_of_ne _ _ hn).trans hd, hcut⟩
    | @noticed n batch ending hl hold ht he =>
        rw [ht]
        by_cases hn : n = number
        · subst hn
          cases hold.symm.trans hd
          rcases hcut with hrunning | hcut
          · cases hrunning
          · exact ⟨_, Dict.get?_put_self _ _ _, .inr hcut⟩
        · exact ⟨d, (Dict.get?_put_of_ne _ _ hn).trans hd, hcut⟩
    | taken hl hs ht he =>
        rcases h.late with hs' | hs'
        · exact absurd hs' hs.1
        · exact absurd hs' hs.2

/-- What ran when the deadline passed has been cut off when the agent has terminated. -/
theorem Orderly.cut_of_overrun {u v : State} (h : u.Orderly) (hm : Moves u .overrun v) {deadline : Nat}
    (hdue : u.stage.IsDue deadline) {after : List Step} (hafter : stepwise State.step v after = some t)
    (ht : t.stage = .terminated) {number : Nat} {d : Delivery} (hd : u.deliveries.get? number = some d)
    (hrunning : d.isEnded = false) : ∃ d', t.deliveries.get? number = some d' ∧ d'.IsCut := by
  obtain ⟨-, hstage, hdeliveries⟩ := hm.overrun_spec hdue
  have hfirst : v.Cutting number := ⟨.inl hstage, d, hdeliveries ▸ hd, .inl hrunning⟩
  have hlast : t.Cutting number ∧ t.Orderly := by
    refine stepwise_keeps (P := fun t => t.Cutting number ∧ t.Orderly) hafter ⟨hfirst, h.moves hm⟩
      fun t label u _ ⟨hcutting, horderly⟩ hstep => ?_
    have hm := moves_of_step hstep
    exact ⟨hcutting.moves horderly.noticed hm, horderly.moves hm⟩
  obtain ⟨hcutting, horderly⟩ := hlast
  obtain ⟨d', hd', hrunning' | hcut⟩ := hcutting.cut
  · have hjoined := unjoined_eq_nil_iff.1 (horderly.noticed.all ht) _ _ hd'
    cases hrunning'.symm.trans (horderly.noticed.ended _ _ hd' hjoined)
  · exact ⟨d', hd', hcut⟩

/-! ## Every run -/

/-- Nothing is left in the queue, and every batch that was taken from it has met an end of its own. -/
structure Cleared (s : State) : Prop where
  count : s.pushing.queue.count = 0
  buffer : s.pushing.queue.buffer = []
  settled : ∀ number batch, (number, batch) ∈ s.dispatched →
    ∃ d, s.deliveries.get? number = some d ∧ d.batch = batch ∧ d.Settled s.config.backoff (s.eventsOf number)

theorem Orderly.ended (h : s.Orderly) (hs : s.stage = .terminated) {number : Nat} {d : Delivery}
    (hd : s.deliveries.get? number = some d) : d.isEnded = true :=
  h.noticed.ended number d hd (unjoined_eq_nil_iff.1 (h.noticed.all hs) number d hd)

theorem Clearing.cleared (h : s.Clearing) (horderly : s.Orderly) (hs : s.stage = .terminated) : s.Cleared := by
  have hbuffer : s.pushing.queue.buffer = [] := by
    have hleft := h.left
    rw [hs] at hleft
    exact hleft
  refine ⟨?_, hbuffer, fun number batch hin => ?_⟩
  · rw [horderly.conserved.queue.count_eq h.idle, hbuffer]
    rfl
  · rw [← horderly.conserved.handed] at hin
    obtain ⟨⟨n, d⟩, hd, he⟩ := List.mem_map.1 hin
    cases he
    have hget := Dict.get?_eq_some_iff.2 hd
    rcases horderly.ends n d hget (horderly.ended hs hget) with hsettled | ⟨hfired, -⟩
    · exact ⟨d, hget, rfl, hsettled⟩
    · cases h.unfired.symm.trans hfired

theorem Orderly.clearing (h : s.Orderly) (hm : Moves s .drain t)
    (hidle : ∀ number p, s.pushing.pushers.get? (.outside number) = some p → p.isPending = false) : t.Clearing := by
  cases hm with
  | drain hs =>
      refine ⟨fun k p hp => ?_, ?_, trivial⟩
      · cases k with
        | round n => exact Pusher.isPending_of_isEnded (h.roundsOver.over (by simp [hs]) hp)
        | outside number => exact hidle number p hp
      · rw [Bool.eq_false_iff]
        intro hfired
        rcases h.signalled.late hfired with hlate | hlate <;> rw [hs] at hlate <;> cases hlate

end State

open State in
/-- An agent runs, drains and terminates, each once and in this order. It begins to drain only after the request to shut
down, with both loops stopped; from then on no round begins or pushes; after termination nothing more is seen of it.
If nobody else pushes while it drains and the deadline does not pass, the queue ends empty and every batch has met an
end of its own; if the deadline passes, all deliveries that still run are cut off. Either way all have ended. -/
theorem run_lifecycle {config : Config} {collectors : Nat} {first s : State} {labels : List Step}
    (hcheck : config.check = .ok ()) (hfirst : start? config collectors = some first)
    (h : stepwise State.step first labels = some s) :
    s.published = s.stage.lifecycle.path ∧
    (∀ more t, stepwise State.step s more = some t → s.stage.lifecycle.path <+: t.stage.lifecycle.path) ∧
    (∀ label t, s.step label = some t → s.stage.lifecycle = .running → t.stage.lifecycle ≠ .running →
      s.stage = .running .stopped .stopped ∧ label = .drain ∧ .shutDown ∈ labels) ∧
    (s.stage.lifecycle ≠ .running → ∀ more t, stepwise State.step s more = some t → s.Rests t) ∧
    (s.stage = .terminated → ∀ more t, stepwise State.step s more = some t → t.history = s.history) ∧
    ∀ start more t, s.step .drain = some start → stepwise State.step start more = some t → t.stage = .terminated →
      (∀ number d, t.deliveries.get? number = some d → d.isEnded = true) ∧
      ((∀ number p, s.pushing.pushers.get? (.outside number) = some p → p.isPending = false) →
        (∀ number items, .pushOutside number items ∉ more) → .overrun ∉ more → t.Cleared) ∧
      ∀ before after u, more = before ++ .overrun :: after → stepwise State.step start before = some u →
        s.now + config.shutdownTimeout.ceilMillis ≤ u.now ∧
        ∀ number d, u.deliveries.get? number = some d → d.isEnded = false →
          ∃ d', t.deliveries.get? number = some d' ∧ d'.IsCut := by
  have hbegun := orderly_start hfirst
  have horderly := hbegun.run h
  obtain ⟨-, rfl⟩ := conserved_of_stepwise hfirst h
  refine ⟨horderly.inOrder, fun more t hmore => path_grows_of_stepwise hmore, fun label t hstep hs ht => ?_,
    fun hs more t hmore => rests_of_stepwise hmore hs, fun hs more t hmore => silent_of_stepwise horderly hmore hs,
    fun start more t hdrain hmore ht => ?_⟩
  · obtain ⟨hstopped, hlabel⟩ := (moves_of_step hstep).stops hs ht
    have hrequested := horderly.signalled.requested (hstopped ▸ .inl rfl)
    exact ⟨hstopped, hlabel, requested_of_stepwise h (unfired_start hfirst) hrequested⟩
  · have hm := moves_of_step hdrain
    have hstart := horderly.moves hm
    have hend := hstart.run hmore
    refine ⟨fun number d hd => hend.ended ht hd, fun hidle hpush htime => ?_, fun before after u hsplit hbefore => ?_⟩
    · have hbatch : 0 < start.config.batchSize := hm.config_eq ▸ (Config.positive_of_check hcheck).1
      exact (clearing_of_stepwise (horderly.clearing hm hidle) hstart hbatch hmore hpush htime).cleared hend ht
    · have hdue : u.stage.IsDue (s.now + s.config.shutdownTimeout.ceilMillis) := by
        refine stepwise_keeps (P := fun u => u.stage.IsDue (s.now + s.config.shutdownTimeout.ceilMillis)) hbefore ?_
          fun _ _ _ _ hdue hstep => (moves_of_step hstep).isDue hdue
        cases hm with
        | drain hs => rfl
      rw [hsplit, stepwise_append, hbefore, Option.bind_some, stepwise_cons] at hmore
      obtain ⟨v, hv, hafter⟩ := Option.bind_eq_some_iff.1 hmore
      have hover := moves_of_step hv
      exact ⟨(hover.overrun_spec hdue).1, fun number d hd hrunning =>
        (hstart.run hbefore).cut_of_overrun hover hdue hafter ht hd hrunning⟩

def stopping : List Step :=
  [.pushOutside 1 [.counter "a" 1, .counter "b" 2], .turnOutside 1, .turnOutside 1, .turnOutside 1, .shutDown,
    .stopCollecting, .stopDelivering]

/-- Their batch is handed out, and its delivery sends it. -/
def handedOut : List Step := [.dispatch, .dispatch, .dispatch, .delivery 0 .begin]

theorem run_lifecycle_stopping : ∃ first s start t u v, narrow.check = .ok () ∧ State.start? narrow 3 = some first ∧
    stepwise State.step first stopping = some s ∧ s.step .drain = some start ∧
    stepwise State.step start (handedOut ++ [.delivery 0 (.answer (.ok ())), .join 0, .drained]) = some t ∧
    t.stage = .terminated ∧ t.Cleared ∧ stepwise State.step start (handedOut ++ [.wait 10000]) = some u ∧
    stepwise State.step u [.overrun, .delivery 0 .abort, .join 0, .terminate] = some v ∧ v.stage = .terminated ∧
    10000 ≤ u.now ∧ ∃ d, v.deliveries.get? 0 = some d ∧ d.IsCut := by
  have hcheck : narrow.check = .ok () := by decide +kernel
  have hrun : ((State.start? narrow 3).bind fun first => (stepwise State.step first stopping).bind fun s =>
      (s.step .drain).bind fun start =>
      (stepwise State.step start (handedOut ++ [.delivery 0 (.answer (.ok ())), .join 0, .drained])).bind fun t =>
      (stepwise State.step start (handedOut ++ [.wait 10000])).bind fun u =>
      (stepwise State.step u [.overrun, .delivery 0 .abort, .join 0, .terminate]).map fun v =>
        (s.now, s.pushing.pushers.values.all (!·.isPending), t.stage.lifecycle, v.stage.lifecycle,
          (u.deliveries.get? 0).map (·.isEnded)))
      = some (0, true, .terminated, .terminated, some false) := by decide +kernel
  obtain ⟨first, hfirst, hrun⟩ := Option.bind_eq_some_iff.1 hrun
  obtain ⟨s, hs, hrun⟩ := Option.bind_eq_some_iff.1 hrun
  obtain ⟨start, hstart, hrun⟩ := Option.bind_eq_some_iff.1 hrun
  obtain ⟨t, ht, hrun⟩ := Option.bind_eq_some_iff.1 hrun
  obtain ⟨u, hu, hrun⟩ := Option.bind_eq_some_iff.1 hrun
  obtain ⟨v, hv, hseen⟩ := Option.map_eq_some_iff.1 hrun
  simp only [Prod.mk.injEq, List.all_eq_true, Bool.not_eq_true', Option.map_eq_some_iff] at hseen
  obtain ⟨hnow, hidle, htstage, hvstage, d, hd, hrunning⟩ := hseen
  replace htstage := Stage.eq_terminated htstage
  replace hvstage := Stage.eq_terminated hvstage
  obtain ⟨-, -, -, -, -, hdrain⟩ := run_lifecycle hcheck hfirst hs
  have hlate : stepwise State.step start (handedOut ++ [.wait 10000] ++
      .overrun :: [.delivery 0 .abort, .join 0, .terminate]) = some v := stepwise_trans hu hv
  have hcleared := (hdrain start _ t hstart ht htstage).2.1 (fun _ p hp => hidle p (Dict.mem_values_iff.2 ⟨_, hp⟩))
    (by simp [handedOut]) (by simp [handedOut])
  obtain ⟨hdue, hcut⟩ := (hdrain start _ v hstart hlate hvstage).2.2 _ _ u rfl hu
  rw [hnow] at hdue
  exact ⟨first, s, start, t, u, v, hcheck, hfirst, hs, hstart, ht, htstage, hcleared, hu, hv, hvstage, hdue,
    hcut 0 d hd hrunning⟩

end PushMetrics.Agent
