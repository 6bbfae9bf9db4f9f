import PushMetrics.Proofs.Agent.Admission
import PushMetrics.Proofs.Agent.Stages

/-!
# Who pushes to the queue of an agent

A step of the agent does at most one thing to its queue, and if this is a step in the push of a round, it leaves the
pushes of all other rounds alone. A round pushes after it has asked its collectors, and no other round has its number.
-/

namespace PushMetrics.Agent

/-- The task that a step belongs to. -/
def PushStep.pusher? {κ τ α : Type} : PushStep κ τ α → Option κ
  | .start k _ _ | .turn k => some k
  | .take | .pop _ | .fire _ | .wait _ => none

namespace Pushing

variable {κ τ α : Type} [DecidableEq κ] [DecidableEq τ] {s t : Pushing κ τ α} {label : PushStep κ τ α} {k : κ}

/-! ## What a step of one task is to the others -/

theorem frame_step (h : s.step label = some t) (hk : label.pusher? ≠ some k) :
    t.pushers.get? k = s.pushers.get? k ∧ t.acceptedBy k = s.acceptedBy k := by
  have htouch : ∀ {j : κ}, Touches s t j → label.pusher? = some j →
      t.pushers.get? k = s.pushers.get? k ∧ t.acceptedBy k = s.acceptedBy k := by
    intro j ht hj
    have hne : j ≠ k := fun he => hk (he ▸ hj)
    exact ⟨ht.others k hne, ht.acceptedBy_eq hne⟩
  cases label with
  | start j token items => exact htouch (start_spec h).1 rfl
  | turn j => exact htouch (turn_spec h).1 rfl
  | take =>
      obtain ⟨_, _, -, rfl⟩ := take_spec h
      exact ⟨rfl, rfl⟩
  | pop | fire | wait =>
      cases h
      exact ⟨rfl, rfl⟩

theorem limit_step (h : s.step label = some t) : t.limit = s.limit := by
  cases label with
  | start j token items =>
      simp only [Pushing.step] at h
      split at h <;> cases h
      rfl
  | turn j =>
      obtain ⟨-, p, -, hturn⟩ := turn_spec h
      cases hturn <;> rfl
  | take =>
      obtain ⟨_, _, -, rfl⟩ := take_spec h
      rfl
  | pop | fire | wait =>
      cases h
      rfl

theorem known_of_own (h : s.step label = some t) (hk : label.pusher? = some k) : (t.pushers.get? k).isSome := by
  cases label with
  | start j token items =>
      cases hk
      simp [(start_spec h).2]
  | turn j =>
      cases hk
      obtain ⟨-, p, -, hturn⟩ := turn_spec h
      obtain ⟨p', hnext⟩ := hturn.continues
      simp [hnext.after]
  | take | pop | fire | wait => cases hk

/-- A task that has been started stays known. -/
theorem known_step (h : s.step label = some t) (hk : (s.pushers.get? k).isSome) : (t.pushers.get? k).isSome := by
  by_cases hown : label.pusher? = some k
  · exact known_of_own h hown
  · rw [(frame_step h hown).1]
    exact hk

/-- Of a task that has not been started nothing has been accepted. -/
def SilentUnknown (s : Pushing κ τ α) : Prop := ∀ k, s.pushers.get? k = none → s.acceptedBy k = []

theorem SilentUnknown.step (h : s.SilentUnknown) (hs : s.step label = some t) : t.SilentUnknown := by
  intro k hk
  by_cases hown : label.pusher? = some k
  · have hknown := known_of_own hs hown
    simp [hk] at hknown
  · obtain ⟨hsame, haccepted⟩ := frame_step hs hown
    rw [haccepted]
    exact h k (hsame ▸ hk)

/-! ## Tasks that may wait for ever -/

variable {p p' : Pusher τ α} {deadline : Option Nat} {e : QueueError}

theorem accepted_start {token : τ} {items : List α} (h : s.step (.start k token items) = some t) :
    s.pushers.get? k = none ∧ t.accepted = s.accepted := by
  simp only [Pushing.step] at h
  split at h
  · cases h
  · rename_i hnew
    cases h
    exact ⟨Option.not_isSome_iff_eq_none.1 hnew, rfl⟩

omit [DecidableEq τ] in
theorem Turns.waits (h : Turns s k p t) (hlimit : s.limit = none) (hafter : t.pushers.get? k = some p')
    (hw : p'.phase = .waiting deadline) : deadline = none := by
  cases h with
  | done hp hi =>
      cases (Dict.get?_put_self _ _ _).symm.trans hafter
      cases hw
  | enter hp hi hf =>
      cases (Dict.get?_put_self _ _ _).symm.trans hafter
      cases hp.symm.trans hw
  | queue hp hi hf =>
      cases (Dict.get?_put_self _ _ _).symm.trans hafter
      cases hw
      rw [deadline?, hlimit, Option.map_none]
  | settle hp hi hg =>
      cases (Dict.get?_put_self _ _ _).symm.trans hafter
      cases hw
  | giveUp hp hi hg hr =>
      cases (Dict.get?_put_self _ _ _).symm.trans hafter
      cases hw

omit [DecidableEq τ] in
/-- A queue in which a task waits for a slot that it has not been granted has none to give. -/
theorem Sound.count_of_waiting (h : s.Sound) (hk : s.pushers.get? k = some p) (hw : p.phase.isWaiting = true)
    (hg : k ∉ s.queue.slots.granted) : s.queue.count = s.queue.capacity := by
  have hwaiting : k ∈ s.queue.slots.waiting :=
    (List.mem_append.1 ((h.mem_line_iff hk).2 hw)).resolve_left hg
  have hfree : s.queue.slots.free = 0 := h.slots.idle.resolve_left (List.ne_nil_of_mem hwaiting)
  rw [Queue.count, hfree, Nat.sub_zero]

omit [DecidableEq τ] in
/-- A task that may wait for ever gives up only when its token has been fired, and only if the queue is full. -/
theorem Turns.fails (h : Turns s k p t) (hs : s.Sound) (hk : s.pushers.get? k = some p)
    (hwaits : ∀ deadline, p.phase = .waiting deadline → deadline = none) (hafter : t.pushers.get? k = some p')
    (he : p'.phase = .ended (.error e)) :
    p.token ∈ s.fired ∧ s.queue.count = s.queue.capacity ∧ t.accepted = s.accepted := by
  cases h with
  | done hp hi =>
      cases (Dict.get?_put_self _ _ _).symm.trans hafter
      cases he
  | enter hp hi hf =>
      cases (Dict.get?_put_self _ _ _).symm.trans hafter
      cases hp.symm.trans he
  | queue hp hi hf =>
      cases (Dict.get?_put_self _ _ _).symm.trans hafter
      cases he
  | settle hp hi hg =>
      cases (Dict.get?_put_self _ _ _).symm.trans hafter
      cases he
  | giveUp hp hi hg hr =>
      refine ⟨?_, hs.count_of_waiting hk (by rw [hp]; rfl) hg, rfl⟩
      cases hr with
      | late hd hl => cases hd.symm.trans (hwaits _ hp)
      | cancelled hf => exact hf

/-- A task that has not ended can go on, unless it waits for a slot and its token has not been fired. -/
theorem goesOn (hk : s.pushers.get? k = some p) (hp : p.Consistent) (he : p.phase.isEnded = false) :
    (s.step (.turn k)).isSome ∨ p.phase.isWaiting = true ∧ k ∉ s.queue.slots.granted ∧ p.token ∉ s.fired := by
  cases hphase : p.phase with
  | ready =>
      left
      cases hi : p.items <;> simp [Pushing.step, hk, turn, hphase, hi]
  | waiting deadline =>
      obtain ⟨a, rest, hi⟩ := List.exists_cons_of_ne_nil (hp.waiting (by rw [hphase]; rfl))
      by_cases hg : k ∈ s.queue.slots.granted
      · left
        simp [Pushing.step, hk, turn, hphase, hi, Permits.isGranted_iff.2 hg]
      · by_cases hf : p.token ∈ s.fired
        · left
          simp only [Pushing.step, hk, Option.bind_some, turn, hphase, hi, hf, if_true]
          split
          · rfl
          · split <;> rfl
        · exact .inr ⟨rfl, hg, hf⟩
  | ended result =>
      rw [hphase] at he
      cases he

end Pushing

def Stage.isGathering : Stage → Bool
  | .running (.gathering _ _) _ => true
  | _ => false

namespace State

variable {s t u : State} {label : Step} {number : Nat}

/-! ## What a step does to the queue -/

inductive Pushes (s : State) : Step → State → Prop where
  | nothing {label : Step} {t : State} (ht : t.pushing = s.pushing) : Pushes s label t
  | beside {label : Step} {t : State} {step : PushStep Source Token Metric}
      (hp : s.pushing.step step = some t.pushing) (hround : ∀ n, step.pusher? ≠ some (.round n)) : Pushes s label t
  | begin {t : State} {items : List Metric} (hs : s.stage.isGathering = true)
      (hp : s.pushing.step (.start (.round s.rounds) .shutdown items) = some t.pushing) : Pushes s .endRound t
  | turn {t : State} {d : DeliveringLoop} (hs : s.stage = .running .pushing d)
      (hp : s.pushing.step (.turn (.round s.rounds)) = some t.pushing) : Pushes s .turnRound t

theorem Pushes.fires (token : Token) (ht : t.pushing = (s.fire token).pushing) : Pushes s label t := by
  have hfire : s.pushing.step (.fire token) = some t.pushing := congrArg some ht.symm
  exact .beside hfire nofun

theorem Dispatches.pushes {token : Token} {d : Dispatching} {d' : Option Dispatching} (h : Dispatches s token d u d')
    (ht : t.pushing = u.pushing) : Pushes s label t := by
  cases h with
  | empty | take =>
      have hpop : s.pushing.step (.pop s.config.batchSize) = some t.pushing := congrArg some ht.symm
      exact .beside hpop nofun
  | _ => exact .nothing ht

theorem Moves.pushes (hm : Moves s label t) : Pushes s label t := by
  cases hm with
  | wait millis =>
      have hwait : s.pushing.step (.wait millis) = some _ := rfl
      exact .beside hwait nofun
  | shutDown => exact .fires .shutdown rfl
  | pushOutside hp => exact .beside hp nofun
  | turnOutside hp => exact .beside hp nofun
  | endRound hs hr hne hp => exact .begin (by rw [hs]; rfl) hp
  | turnRound hs hp => exact .turn hs hp
  | dispatch hs hd => exact hd.pushes rfl
  | dispatchLeft hs hd => exact hd.pushes rfl
  | overrunWaiting hs hdue hp => exact .fires .abandon rfl
  | overrun hs hdue hleft => exact .fires .abandon rfl
  | _ => exact .nothing rfl

/-- What a step of the agent does to the queue is a step of the queue, if it does anything. -/
theorem Pushes.step (h : Pushes s label t) :
    t.pushing = s.pushing ∨ ∃ step, s.pushing.step step = some t.pushing := by
  cases h with
  | nothing ht => exact .inl ht
  | beside hp hround => exact .inr ⟨_, hp⟩
  | begin hs hp => exact .inr ⟨_, hp⟩
  | turn hs hp => exact .inr ⟨_, hp⟩

theorem Pushes.known (h : Pushes s label t) {source : Source} (hk : (s.pushing.pushers.get? source).isSome) :
    (t.pushing.pushers.get? source).isSome := by
  rcases h.step with hsame | ⟨step, hstep⟩
  · rw [hsame]
    exact hk
  · exact Pushing.known_step hstep hk

/-- What becomes of the push of a round in one step. -/
theorem Pushes.own (h : Pushes s label t) (number : Nat) :
    (t.pushing.pushers.get? (.round number) = s.pushing.pushers.get? (.round number) ∧
      t.pushing.acceptedBy (.round number) = s.pushing.acceptedBy (.round number)) ∨
    (label = .endRound ∧ s.rounds = number ∧ s.stage.isGathering = true) ∨
    label = .turnRound ∧ s.rounds = number ∧ ∃ p, s.pushing.pushers.get? (.round number) = some p ∧
      s.pushing.Turns (.round number) p t.pushing := by
  cases h with
  | nothing ht => exact .inl (by rw [ht]; exact ⟨rfl, rfl⟩)
  | beside hp hround => exact .inl (Pushing.frame_step hp (hround number))
  | begin hs hp =>
      by_cases hown : s.rounds = number
      · exact .inr (.inl ⟨rfl, hown, hs⟩)
      · exact .inl (Pushing.frame_step hp fun h => hown (Source.round.inj (Option.some.inj h)))
  | turn hs hp =>
      by_cases hown : s.rounds = number
      · subst hown
        exact .inr (.inr ⟨rfl, rfl, (Pushing.turn_spec hp).2⟩)
      · exact .inl (Pushing.frame_step hp fun h => hown (Source.round.inj (Option.some.inj h)))

/-- Only the end of a round makes the round known to the queue. -/
theorem Pushes.begins (h : Pushes s label t) (hs : ¬ (s.pushing.pushers.get? (.round number)).isSome)
    (ht : (t.pushing.pushers.get? (.round number)).isSome) : label = .endRound ∧ s.rounds = number := by
  rcases h.own number with ⟨hsame, -⟩ | ⟨hl, hown, -⟩ | ⟨-, -, p, hk, -⟩
  · exact absurd (hsame ▸ ht) hs
  · exact ⟨hl, hown⟩
  · simp [hk] at hs

/-! ## Rounds that have begun -/

/-- A round has asked its collectors, and this is over. -/
def Past (number : Nat) (s : State) : Prop := number ≤ s.rounds ∧ (s.stage.isGathering = true → number < s.rounds)

theorem Moves.rounds_spec (hm : Moves s label t) :
    t.rounds = s.rounds ∧ (t.stage.isGathering = true → s.stage.isGathering = true) ∨ t.rounds = s.rounds + 1 := by
  cases hm with
  | beginRound hs => exact .inr rfl
  | stopCollecting hs hf => exact .inl ⟨rfl, nofun⟩
  | collected hs hg => exact .inl ⟨rfl, fun _ => by rw [hs]; rfl⟩
  | endEmptyRound hs hr hempty => exact .inl ⟨rfl, nofun⟩
  | endRound hs hr hne hp => exact .inl ⟨rfl, nofun⟩
  | leaveRound hs hp => exact .inl ⟨rfl, nofun⟩
  | @beginDispatch c hs => exact .inl ⟨rfl, fun h => by rw [hs]; cases c <;> first | rfl | cases h⟩
  | @dispatch c d d' u hs hd => exact .inl ⟨hd.rounds_eq.1, fun h => by rw [hs]; cases c <;> first | rfl | cases h⟩
  | @stopDelivering c hs hf => exact .inl ⟨rfl, fun h => by rw [hs]; cases c <;> first | rfl | cases h⟩
  | drain hs => exact .inl ⟨rfl, nofun⟩
  | dispatchLeft hs hd => exact .inl ⟨hd.rounds_eq.1, nofun⟩
  | drained hs hall => exact .inl ⟨rfl, nofun⟩
  | overrunWaiting hs hdue hp => exact .inl ⟨rfl, nofun⟩
  | overrun hs hdue hleft => exact .inl ⟨rfl, nofun⟩
  | terminate hs hall => exact .inl ⟨rfl, nofun⟩
  | _ => exact .inl ⟨rfl, id⟩

theorem Past.moves (h : s.Past number) (hm : Moves s label t) : t.Past number := by
  obtain ⟨hle, hlt⟩ := h
  rcases hm.rounds_spec with ⟨hrounds, hgathering⟩ | hrounds
  · exact ⟨hrounds ▸ hle, fun h => hrounds ▸ hlt (hgathering h)⟩
  · exact ⟨by omega, fun _ => by omega⟩

theorem Moves.past_of_endRound (hm : Moves s .endRound t) : t.Past s.rounds := by
  cases hm with
  | endEmptyRound hs hr hempty => exact ⟨Nat.le_refl _, nofun⟩
  | endRound hs hr hne hp => exact ⟨Nat.le_refl _, nofun⟩

/-- A round whose push is in progress. -/
def IsPushing (number : Nat) (s : State) : Prop := s.rounds = number ∧ ∃ d, s.stage = .running .pushing d

theorem Moves.pushing_spec (hm : Moves s label t) {d : DeliveringLoop} (ht : t.stage = .running .pushing d) :
    t.rounds = s.rounds ∧
      ((∃ d', s.stage = .running .pushing d') ∨ (t.pushing.pushers.get? (.round s.rounds)).isSome) := by
  cases hm with
  | wait | shutDown | pushOutside | turnOutside | delivery | join => exact ⟨rfl, .inl ⟨d, ht⟩⟩
  | endRound hs hr hne hp => exact ⟨rfl, .inr (Pushing.known_of_own hp rfl)⟩
  | turnRound hs hp => exact ⟨rfl, .inl ⟨_, hs⟩⟩
  | beginDispatch hs | stopDelivering hs =>
      cases ht
      exact ⟨rfl, .inl ⟨_, hs⟩⟩
  | dispatch hs hd =>
      cases ht
      exact ⟨hd.rounds_eq.1, .inl ⟨_, hs⟩⟩
  | _ => cases ht

theorem fired_of_own {step : PushStep Source Token Metric} {pushing : Pushing Source Token Metric}
    (hp : s.pushing.step step = some pushing) (hown : step.pusher?.isSome) : pushing.fired = s.pushing.fired := by
  cases step with
  | start k token items =>
      simp only [Pushing.step] at hp
      split at hp <;> cases hp
      rfl
  | turn k => exact (Pushing.turn_helps_none hp).2.1
  | take | pop | fire | wait => cases hown

/-- The queue hears of the same requests as those who wait for permits. -/
theorem Moves.heard (hm : Moves s label t) : t.pushing.fired = label.fires?.toList ++ s.pushing.fired := by
  cases hm with
  | pushOutside hp => exact fired_of_own hp rfl
  | turnOutside hp => exact fired_of_own hp rfl
  | endRound hs hr hne hp => exact fired_of_own hp rfl
  | turnRound hs hp => exact fired_of_own hp rfl
  | dispatch hs hd => cases hd <;> rfl
  | dispatchLeft hs hd => cases hd <;> rfl
  | _ => rfl

/-- What holds of the queue's tasks at every moment. -/
structure Roster (s : State) : Prop where
  capacity : s.pushing.queue.capacity = s.config.queueCapacity
  limit : s.pushing.limit = none
  fired : s.pushing.fired = s.permits.fired
  silent : s.pushing.SilentUnknown
  begun : ∀ n, (s.pushing.pushers.get? (.round n)).isSome → s.Past n
  pushing : ∀ d, s.stage = .running .pushing d → (s.pushing.pushers.get? (.round s.rounds)).isSome

theorem Roster.moves (h : s.Roster) (hm : Moves s label t) : t.Roster where
  capacity := by
    rw [hm.config_eq, ← h.capacity]
    rcases hm.pushes.step with hsame | ⟨step, hstep⟩
    · rw [hsame]
    · exact Pushing.capacity_step hstep
  limit := by
    rw [← h.limit]
    rcases hm.pushes.step with hsame | ⟨step, hstep⟩
    · rw [hsame]
    · exact Pushing.limit_step hstep
  fired := by rw [hm.heard, hm.fired_eq, h.fired]
  silent := by
    rcases hm.pushes.step with hsame | ⟨step, hstep⟩
    · rw [hsame]
      exact h.silent
    · exact h.silent.step hstep
  begun n hn := by
    by_cases hknown : (s.pushing.pushers.get? (.round n)).isSome
    · exact (h.begun n hknown).moves hm
    · obtain ⟨rfl, rfl⟩ := hm.pushes.begins hknown hn
      exact hm.past_of_endRound
  pushing d hd := by
    obtain ⟨hrounds, hpushing | hstarted⟩ := hm.pushing_spec hd
    · rw [hrounds]
      obtain ⟨d', hs⟩ := hpushing
      exact hm.pushes.known (h.pushing d' hs)
    · rw [hrounds]
      exact hstarted

theorem roster_start {config : Config} {collectors : Nat} (h : start? config collectors = some s) : s.Roster := by
  obtain ⟨pushing, hp, h⟩ := Option.bind_eq_some_iff.1 h
  obtain ⟨q, hq, rfl⟩ := Option.map_eq_some_iff.1 hp
  unfold Queue.fresh? at hq
  split at hq
  · cases hq
    split at h
    · cases h
      exact ⟨rfl, rfl, rfl, fun _ _ => rfl, fun n hn => by simp at hn, fun d hd => by simp at hd⟩
    · cases h
  · cases hq

theorem Roster.run (h : s.Roster) {labels : List Step} (hs : stepwise State.step s labels = some t) : t.Roster :=
  stepwise_keeps hs h fun _ _ _ _ h hstep => h.moves (moves_of_step hstep)

end State

end PushMetrics.Agent
