import PushMetrics.Proofs.Agent.Collection
import PushMetrics.Proofs.Agent.Pushing

/-!
# What a round brings to the queue

A round pushes its samples one after another, each when there is room for it. Others push and take items meanwhile,
which changes nothing in the order of the samples. Only a request to shut down ends a push early, and only where it
waits for room in a full queue.
-/

namespace PushMetrics.Agent

def Step.isTurnRound : Step → Bool
  | .turnRound => true
  | _ => false

namespace State

variable {s t u v : State} {label : Step} {number : Nat} {items : List Metric} {after : List Step}

/-! ## The push of a round -/

/-- What a round has still to push. -/
def unpushed (number : Nat) (s : State) : List Metric :=
  ((s.pushing.pushers.get? (.round number)).map (·.items)).getD []

/-- What a round has got accepted and what it has still to push make up its samples. -/
structure Carries (number : Nat) (items : List Metric) (s : State) : Prop where
  past : s.Past number
  batch : s.pushing.acceptedBy (.round number) ++ s.unpushed number = items
  pusher : ∀ p, s.pushing.pushers.get? (.round number) = some p →
    p.token = .shutdown ∧ p.Consistent ∧ ∀ deadline, p.phase = .waiting deadline → deadline = none

/-- The push of a round is about to be given up: there is no room in the queue, and shutdown has been requested. -/
structure Cancels (number : Nat) (s : State) (label : Step) : Prop where
  turn : label = .turnRound
  round : s.rounds = number
  requested : s.isFired .shutdown = true
  full : s.pushing.queue.count = s.config.queueCapacity

/-- The end of a push that has failed is found as it was, or it comes about now. -/
theorem Carries.moves (h : s.Carries number items) (hroster : s.Roster) (hsound : s.pushing.Sound)
    (hm : Moves s label t) : t.Carries number items ∧
      ∀ p e, t.pushing.pushers.get? (.round number) = some p → p.phase = .ended (.error e) →
        t.pushing.acceptedBy (.round number) = s.pushing.acceptedBy (.round number) ∧
          (s.pushing.pushers.get? (.round number) = some p ∨ s.Cancels number label) := by
  have hpast := h.past.moves hm
  rcases hm.pushes.own number with ⟨hsame, haccepted⟩ | ⟨-, hown, hgathering⟩ | ⟨hl, hown, p, hk, hturn⟩
  · refine ⟨⟨hpast, ?_, fun p hp => h.pusher p (hsame ▸ hp)⟩, fun p e hp _ => ⟨haccepted, .inl (hsame ▸ hp)⟩⟩
    rw [haccepted, unpushed, hsame]
    exact h.batch
  · exact absurd (h.past.2 hgathering) (by omega)
  · obtain ⟨htoken, -, hwaits⟩ := h.pusher p hk
    obtain ⟨p', hnext⟩ := hturn.continues
    have hbatch : s.pushing.acceptedBy (.round number) ++ p.items = items := by
      have hbatch := h.batch
      rwa [unpushed, hk] at hbatch
    refine ⟨⟨hpast, ?_, fun q hq => ?_⟩, fun q e hq he => ?_⟩
    · rw [unpushed, hnext.after]
      exact hnext.batch.trans hbatch
    · cases hnext.after.symm.trans hq
      exact ⟨hnext.token.trans htoken, hnext.consistent, fun deadline hw => hturn.waits hroster.limit hnext.after hw⟩
    · obtain ⟨hfired, hfull, haccepted⟩ := hturn.fails hsound hk hwaits hq he
      refine ⟨by rw [Pushing.acceptedBy, haccepted]; rfl, .inr ⟨hl, hown, ?_, hfull.trans hroster.capacity⟩⟩
      rw [htoken, hroster.fired] at hfired
      exact decide_eq_true hfired

/-- At every moment after a round has ended, its push goes on, has been completed or has been given up. -/
theorem carries_of_stepwise (hu : u.Carries number items)
    (hready : ∀ p, u.pushing.pushers.get? (.round number) = some p → p.phase = .ready) (hroster : u.Roster)
    (horderly : u.Orderly) (h : stepwise State.step u after = some v) :
    v.Carries number items ∧
      ∀ p e, v.pushing.pushers.get? (.round number) = some p → p.phase = .ended (.error e) →
        Meets State.step (fun w label => w.Cancels number label ∧
          w.pushing.acceptedBy (.round number) = v.pushing.acceptedBy (.round number)) u after := by
  refine stepwise_induction (P := fun sooner v => v.Carries number items ∧
    ∀ p e, v.pushing.pushers.get? (.round number) = some p → p.phase = .ended (.error e) →
      Meets State.step (fun w label => w.Cancels number label ∧
        w.pushing.acceptedBy (.round number) = v.pushing.acceptedBy (.round number)) u sooner) h ⟨hu, ?_⟩ ?_
  · intro p e hp he
    cases (hready p hp).symm.trans he
  · intro sooner w label x _ hw ⟨hcarries, hfailed⟩ hstep
    obtain ⟨hnext, hends⟩ := hcarries.moves (hroster.run hw) (horderly.run hw).conserved.queue (moves_of_step hstep)
    refine ⟨hnext, fun p e hp he => ?_⟩
    obtain ⟨haccepted, hbefore | hcancels⟩ := hends p e hp he
    · rw [haccepted]
      exact (hfailed p e hbefore he).append [label]
    · exact .last hw ⟨hcancels, haccepted.symm⟩

theorem Carries.turnsLeft_le (h : s.Carries number items) :
    s.pushing.turnsLeft (.round number) ≤ 2 * items.length + 1 := by
  have hlength := congrArg List.length h.batch
  rw [List.length_append, unpushed] at hlength
  unfold Pushing.turnsLeft
  cases hk : s.pushing.pushers.get? (.round number) with
  | none => exact Nat.zero_le _
  | some p =>
      rw [hk] at hlength
      simp only [Option.map_some, Option.getD_some, Pusher.turnsLeft] at hlength ⊢
      split <;> omega

theorem Moves.turnsLeft_turnRound (hm : Moves s .turnRound t) :
    t.pushing.turnsLeft (.round s.rounds) < s.pushing.turnsLeft (.round s.rounds) := by
  cases hm with
  | turnRound hs hp => exact Pushing.turnsLeft_of_turn hp

/-- A push takes no more turns than two for each sample, and one to end. -/
theorem turns_of_stepwise (hu : u.Carries number items) (hroster : u.Roster) (horderly : u.Orderly)
    (h : stepwise State.step u after = some v) (hv : v.rounds = number) :
    after.countP (·.isTurnRound) + v.pushing.turnsLeft (.round number) ≤ u.pushing.turnsLeft (.round number) := by
  refine (stepwise_induction (P := fun sooner v => v.Carries number items ∧ (v.rounds = number →
    sooner.countP (·.isTurnRound) + v.pushing.turnsLeft (.round number) ≤ u.pushing.turnsLeft (.round number))) h
    ⟨hu, fun _ => Nat.le_of_eq (Nat.zero_add _)⟩ ?_).2 hv
  intro sooner w label x _ hw ⟨hcarries, hbound⟩ hstep
  have hm := moves_of_step hstep
  have hnext := (hcarries.moves (hroster.run hw) (horderly.run hw).conserved.queue hm).1
  refine ⟨hnext, fun hx => ?_⟩
  have hrounds : w.rounds = number := by
    have hle := hcarries.past.1
    rcases hm.rounds_spec with ⟨hsame, -⟩ | hmore <;> omega
  have hsooner := hbound hrounds
  rw [List.countP_append, List.countP_singleton]
  by_cases hturn : label = .turnRound
  · subst hturn
    have hfewer := hm.turnsLeft_turnRound
    rw [hrounds] at hfewer
    have hone : (Step.turnRound).isTurnRound = true := rfl
    rw [hone, if_pos rfl]
    omega
  · have hother : label.isTurnRound = false := by
      cases label <;> first | rfl | exact absurd rfl hturn
    have hsame : x.pushing.turnsLeft (.round number) = w.pushing.turnsLeft (.round number) := by
      rcases hm.pushes.own number with ⟨hsame, -⟩ | ⟨-, -, hgathering⟩ | ⟨hl, -⟩
      · rw [Pushing.turnsLeft, Pushing.turnsLeft, hsame]
      · exact absurd (hcarries.past.2 hgathering) (by omega)
      · exact absurd hl hturn
    rw [hother, if_neg Bool.false_ne_true]
    omega

/-- When a round's push is over, all has been accepted, unless the push has failed. -/
theorem Carries.over (h : s.Carries number items) (hover : s.RoundsOver) (hdone : ¬ s.IsPushing number) :
    s.pushing.acceptedBy (.round number) = items ∨
    ∃ p e metric rest, s.pushing.pushers.get? (.round number) = some p ∧ p.phase = .ended (.error e) ∧
      s.pushing.acceptedBy (.round number) ++ metric :: rest = items := by
  have hbatch := h.batch
  rw [unpushed] at hbatch
  cases hk : s.pushing.pushers.get? (.round number) with
  | none =>
      rw [hk] at hbatch
      exact .inl ((List.append_nil _).symm.trans hbatch)
  | some p =>
      rw [hk] at hbatch
      obtain ⟨-, hconsistent, -⟩ := h.pusher p hk
      rcases hover number p hk with hended | ⟨hn, hpushing⟩
      · cases hphase : p.phase with
        | ended result =>
            cases result with
            | ok =>
                rw [Option.map_some, Option.getD_some, hconsistent.done hphase, List.append_nil] at hbatch
                exact .inl hbatch
            | error e =>
                obtain ⟨metric, rest, hitems⟩ := List.exists_cons_of_ne_nil (hconsistent.failed e hphase)
                rw [Option.map_some, Option.getD_some, hitems] at hbatch
                exact .inr ⟨p, e, metric, rest, rfl, hphase, hbatch⟩
        | ready | waiting =>
            rw [hphase] at hended
            cases hended
      · exact absurd ⟨hn.symm, hpushing⟩ hdone

/-- A push in progress goes on, unless it has to wait for room in a full queue. -/
theorem Carries.goesOn (h : s.Carries number items) (hroster : s.Roster) (hsound : s.pushing.Sound)
    (hpushing : s.IsPushing number) : (s.step .turnRound).isSome ∨ (s.step .leaveRound).isSome ∨
      s.isFired .shutdown = false ∧ s.pushing.queue.count = s.config.queueCapacity := by
  obtain ⟨rfl, d, hs⟩ := hpushing
  obtain ⟨p, hk⟩ := Option.isSome_iff_exists.1 (hroster.pushing d hs)
  obtain ⟨htoken, hconsistent, -⟩ := h.pusher p hk
  by_cases hended : p.phase.isEnded = true
  · obtain ⟨token, items, phase⟩ := p
    cases phase with
    | ended result =>
        have hleave : (s.stageStep .leaveRound).isSome := isSome_of_collecting hs nofun (by
          simp only [collectingStep, leaveRound, roundSource, hk, Option.isSome_some])
        exact .inr (.inl hleave)
    | ready | waiting => cases hended
  · rcases Pushing.goesOn hk hconsistent (Bool.not_eq_true _ ▸ hended) with hturn | ⟨hwaits, hout, hquiet⟩
    · have hgoes : (s.stageStep .turnRound).isSome := isSome_of_collecting hs nofun (by
        rwa [collectingStep, push, Option.isSome_map])
      exact .inl hgoes
    · refine .inr (.inr ⟨?_, (hsound.count_of_waiting hk hwaits hout).trans hroster.capacity⟩)
      rw [htoken, hroster.fired] at hquiet
      exact decide_eq_false hquiet

/-! ## The end of a round -/

/-- A round that is asking its collectors has not begun to push. -/
theorem Roster.unknown (h : s.Roster) (hs : s.stage.isGathering = true) :
    s.pushing.pushers.get? (.round s.rounds) = none := by
  rw [← Option.not_isSome_iff_eq_none]
  intro hknown
  exact absurd ((h.begun _ hknown).2 hs) (Nat.lt_irrefl _)

variable {g : Gathering} {since : Nat} {d : DeliveringLoop} {results : List Yield}

/-- A round whose collectors have all answered can end. -/
theorem isSome_endRound (hroster : s.Roster) (hs : s.stage = .running (.gathering g since) d)
    (hg : g.answers = results.map some) : (s.step .endRound).isSome := by
  have hunknown := hroster.unknown (by rw [hs]; rfl)
  have hends : (s.stageStep .endRound).isSome := isSome_of_collecting hs nofun (by
    rw [collectingStep, Gathering.round?_eq hg, Option.bind_some, deliverRound_eq]
    split
    · rfl
    · simp [push, record, Pushing.step, hunknown])
  exact hends

theorem Moves.answers_of_endRound (hm : Moves s .endRound t) (hs : s.stage = .running (.gathering g since) d) :
    ∃ results : List Yield, g.answers = results.map some := by
  cases hm with
  | endEmptyRound hs' hr hempty =>
      cases hs.symm.trans hs'
      exact Gathering.answers_of_round? hr
  | endRound hs' hr hne hp =>
      cases hs.symm.trans hs'
      exact Gathering.answers_of_round? hr

/-- The end of a round tells of its failures and begins to push its samples. -/
theorem Moves.endRound_spec (hm : Moves s .endRound t) (hroster : s.Roster)
    (hs : s.stage = .running (.gathering g since) d) (hg : g.answers = results.map some) :
    t.rounds = s.rounds ∧
    t.history = s.history ++
      ((failures results).head?.map fun e => (s.now, .roundFailed (failures results).length e)).toList ∧
    t.Carries s.rounds (samples results) ∧
    ∀ p, t.pushing.pushers.get? (.round s.rounds) = some p → p.phase = .ready := by
  have hunknown := hroster.unknown (by rw [hs]; rfl)
  have hsilent := hroster.silent _ hunknown
  have hpast := hm.past_of_endRound
  have hround := Gathering.round?_eq hg
  have htold : ∀ round, g.round? = some round → (s.record (reported round)).history = s.history ++
      ((failures results).head?.map fun e => (s.now, .roundFailed (failures results).length e)).toList := by
    intro round hr
    cases hround.symm.trans hr
    cases (failures results).head? <;> simp [record, reported]
  cases hm with
  | endEmptyRound hs' hr hempty =>
      cases hs.symm.trans hs'
      cases hround.symm.trans hr
      refine ⟨rfl, htold _ hr, ⟨hpast, ?_, fun p hp => ?_⟩, fun p hp => ?_⟩
      · have hnothing : samples results = [] := hempty
        have hall : s.pushing.acceptedBy (.round s.rounds) ++ s.unpushed s.rounds = samples results := by
          rw [hsilent, unpushed, hunknown, hnothing]
          rfl
        exact hall
      · cases hunknown.symm.trans hp
      · cases hunknown.symm.trans hp
  | @endRound g' since' round d' pushing hs' hr hne hp =>
      cases hs.symm.trans hs'
      cases hround.symm.trans hr
      have hknown := (Pushing.start_spec hp).2
      have haccepted : pushing.acceptedBy (.round s.rounds) = [] := by
        rw [← hsilent, Pushing.acceptedBy, (Pushing.accepted_start hp).2]
        rfl
      refine ⟨rfl, htold _ hr, ⟨hpast, ?_, fun p hk => ?_⟩, fun p hk => ?_⟩
      · have hall : pushing.acceptedBy (.round s.rounds) ++
            ((pushing.pushers.get? (.round s.rounds)).map (·.items)).getD [] = samples results := by
          rw [haccepted, hknown]
          rfl
        exact hall
      · cases hknown.symm.trans hk
        refine ⟨rfl, Pusher.consistent_of_ready rfl, fun deadline hwaiting => ?_⟩
        cases hwaiting
      · cases hknown.symm.trans hk
        rfl

variable {collectors : Nat} {sooner : List Step}

/-- A round can end as soon as all its collectors have answered. -/
theorem Gathers.ready (h : s.Gathers collectors number sooner) (hroster : s.Roster)
    (hall : ∀ index, index < collectors → ∃ result, .collected index result ∈ sooner) : (s.step .endRound).isSome := by
  obtain ⟨-, g, since, d, hs, hlength, hanswers⟩ := h
  have hnone : none ∉ g.answers := by
    intro hnone
    obtain ⟨index, hindex⟩ := List.mem_iff_getElem?.1 hnone
    obtain ⟨result, hresult⟩ := hall index (hlength ▸ (List.getElem?_eq_some_iff.1 hindex).1)
    cases hindex.symm.trans ((hanswers index result).2 hresult)
  obtain ⟨results, hresults⟩ := Gathering.exists_results hnone
  exact isSome_endRound hroster hs hresults

/-- A round that ends has the answers of all its collectors, and goes on to push the samples among them. -/
theorem Gathers.ends (h : s.Gathers collectors number sooner) (hroster : s.Roster) (hm : Moves s .endRound t) :
    ∃ results : List Yield, results.length = collectors ∧
      (∀ index result, results[index]? = some result ↔ .collected index result ∈ sooner) ∧
      t.rounds = s.rounds ∧
      t.history = s.history ++
        ((failures results).head?.map fun e => (s.now, .roundFailed (failures results).length e)).toList ∧
      t.Carries s.rounds (samples results) ∧
      ∀ p, t.pushing.pushers.get? (.round s.rounds) = some p → p.phase = .ready := by
  obtain ⟨-, g, since, d, hs, hlength, hanswers⟩ := h
  obtain ⟨results, hresults⟩ := hm.answers_of_endRound hs
  refine ⟨results, ?_, fun index result => ?_, hm.endRound_spec hroster hs hresults⟩
  · rw [← hlength, hresults, List.length_map]
  · rw [← hanswers, hresults, List.getElem?_map]
    simp

end State

open State in
/-- A round ends when its collectors have answered, in any order. It tells how many of them have failed, with the
first failure in the order of registration, and pushes the samples of the others in the order of registration. Among
all that goes through the queue, which leaves it as it has come in, its samples are in this order, and none of them
twice. A push goes on unless it has to wait for room in a full queue. When it is over all samples have been accepted,
or those before one that found no room in the queue when shutdown had been requested. -/
theorem round_reaches_queue {config : Config} {collectors : Nat} {first s t : State} {before during : List Step}
    (hfirst : start? config collectors = some first) (hs : stepwise State.step first before = some s)
    (ht : stepwise State.step s (.beginRound :: during) = some t) (hduring : .endRound ∉ during) :
    (∀ index, index < collectors → (∃ result, .collected index result ∈ during) ∨
      ∀ result, (t.step (.collected index result)).isSome) ∧
    ((∀ index, index < collectors → ∃ result, .collected index result ∈ during) → (t.step .endRound).isSome) ∧
    ∀ u, t.step .endRound = some u → ∃ results : List Yield, results.length = collectors ∧
      (∀ index result, results[index]? = some result ↔ .collected index result ∈ during) ∧
      u.history = t.history ++
        ((failures results).head?.map fun e => (t.now, .roundFailed (failures results).length e)).toList ∧
      ∀ after v, stepwise State.step u after = some v →
        (∃ rest, v.pushing.acceptedBy (.round u.rounds) ++ rest = samples results) ∧
        v.pushing.accepted.map (·.2) = v.pushing.taken ++ v.pushing.queue.buffer ∧
        (v.IsPushing u.rounds → after.countP (·.isTurnRound) ≤ 2 * (samples results).length + 1 ∧
          ((v.step .turnRound).isSome ∨ (v.step .leaveRound).isSome ∨
            v.isFired .shutdown = false ∧ v.pushing.queue.count = config.queueCapacity)) ∧
        (¬ v.IsPushing u.rounds → v.pushing.acceptedBy (.round u.rounds) = samples results ∨
          ∃ metric rest, v.pushing.acceptedBy (.round u.rounds) ++ metric :: rest = samples results ∧
            Meets State.step (fun w label => w.Cancels u.rounds label ∧
              w.pushing.acceptedBy (.round u.rounds) = v.pushing.acceptedBy (.round u.rounds)) u after) := by
  obtain ⟨w, hw, hrun⟩ := Option.bind_eq_some_iff.1 ht
  have hbegin := moves_of_step hw
  have hrunAll : stepwise State.step first (before ++ .beginRound :: during) = some t := stepwise_trans hs ht
  have hroster : t.Roster := (roster_start hfirst).run hrunAll
  have horderly : t.Orderly := (orderly_start hfirst).run hrunAll
  have hgathers : t.Gathers collectors w.rounds during :=
    collectors_of_stepwise hfirst hs ▸ gathers_of_stepwise hbegin hrun hduring
  refine ⟨fun index hindex => hgathers.awaits hindex, hgathers.ready hroster, fun u hu => ?_⟩
  have hm := moves_of_step hu
  obtain ⟨results, hlength, hanswers, hrounds, hhistory, hcarries, hready⟩ := hgathers.ends hroster hm
  rw [hrounds]
  refine ⟨results, hlength, hanswers, hhistory, fun after v hv => ?_⟩
  have hrosterNext := hroster.moves hm
  have horderlyNext := horderly.moves hm
  obtain ⟨hlater, hfailed⟩ := carries_of_stepwise hcarries hready hrosterNext horderlyNext hv
  have horderlyLater := horderlyNext.run hv
  have hconfig : v.config = config := by
    have hend : stepwise State.step t (.endRound :: after) = some v := by
      rw [stepwise_cons, hu]
      exact hv
    exact (conserved_of_stepwise hfirst (stepwise_trans hrunAll hend)).2
  refine ⟨⟨_, hlater.batch⟩, horderlyLater.conserved.queue.conserved, fun hpushing => ⟨?_, ?_⟩, fun hdone => ?_⟩
  · have hturns := turns_of_stepwise hcarries hrosterNext horderlyNext hv hpushing.1
    have hbound := hcarries.turnsLeft_le
    omega
  · rw [← hconfig]
    exact hlater.goesOn (hrosterNext.run hv) horderlyLater.conserved.queue hpushing
  · rcases hlater.over horderlyLater.roundsOver hdone with hall | ⟨p, e, metric, rest, hp, he, hbatch⟩
    · exact .inl hall
    · exact .inr ⟨metric, rest, hbatch, hfailed p e hp he⟩

/-- Somebody else has taken one of the two slots of the queue when a round begins. -/
def crowded : List Step := [.pushOutside 1 [.counter "x" 1], .turnOutside 1, .wait 2000]

def threeResults : List Yield :=
  [.error ⟨"host", "unavailable"⟩, .ok [.counter "a" 1, .counter "b" 2], .ok [.counter "c" 3]]

/-- The last collector answers first. -/
def answeredBackwards : List Step := (threeResults.mapIdx .collected).reverse

/-- The first sample finds room. There is none for the second when shutdown is requested. -/
def cutOff : List Step := [.turnRound, .turnRound, .shutDown, .turnRound] ++ [.leaveRound]

theorem round_reaches_queue_cutOff : ∃ first s t u v, State.start? narrow 3 = some first ∧
    stepwise State.step first crowded = some s ∧
    stepwise State.step s (.beginRound :: answeredBackwards) = some t ∧ t.step .endRound = some u ∧
    stepwise State.step u cutOff = some v ∧ v.pushing.accepted.map (·.2) = [.counter "x" 1, .counter "a" 1] ∧
    u.history = t.history ++ [(2000, .roundFailed 1 ⟨"host", "unavailable"⟩)] ∧
    Meets State.step (fun w label => w.Cancels 1 label ∧ w.pushing.acceptedBy (.round 1) = [.counter "a" 1])
      u cutOff := by
  have hrun : ((State.start? narrow 3).bind fun first => (stepwise State.step first crowded).bind fun s =>
      (stepwise State.step s (.beginRound :: answeredBackwards)).bind fun t => (t.step .endRound).bind fun u =>
      (stepwise State.step u cutOff).map fun v =>
        (t.now, u.rounds, v.pushing.accepted.map (·.2), v.pushing.acceptedBy (.round 1)))
      = some (2000, 1, [.counter "x" 1, .counter "a" 1], [.counter "a" 1]) := by decide +kernel
  obtain ⟨first, hfirst, hrun⟩ := Option.bind_eq_some_iff.1 hrun
  obtain ⟨s, hs, hrun⟩ := Option.bind_eq_some_iff.1 hrun
  obtain ⟨t, ht, hrun⟩ := Option.bind_eq_some_iff.1 hrun
  obtain ⟨u, hu, hrun⟩ := Option.bind_eq_some_iff.1 hrun
  obtain ⟨v, hv, hseen⟩ := Option.map_eq_some_iff.1 hrun
  simp only [Prod.mk.injEq] at hseen
  obtain ⟨hnow, hrounds, haccepted, hown⟩ := hseen
  obtain ⟨-, -, hends⟩ := round_reaches_queue hfirst hs ht (by simp [answeredBackwards, threeResults])
  obtain ⟨results, hlength, hanswers, hhistory, hlater⟩ := hends u hu
  obtain rfl : results = threeResults := by
    refine List.ext_getElem hlength fun index hresults hthree => ?_
    have hanswered : .collected index threeResults[index] ∈ answeredBackwards :=
      List.mem_reverse.2 (List.mem_mapIdx.2 ⟨index, hthree, rfl⟩)
    exact (List.getElem?_eq_some_iff.1 ((hanswers index _).2 hanswered)).2
  obtain ⟨-, -, -, hover⟩ := hlater cutOff v hv
  rw [hrounds, hown] at hover
  rw [hnow] at hhistory
  have hdone : ¬ v.IsPushing 1 := by
    rintro ⟨-, d, hstage⟩
    obtain ⟨w, -, hleave⟩ := stepwise_snoc.1 hv
    cases State.moves_of_step hleave with
    | leaveRound hs hp => cases hstage
  rcases hover hdone with hall | ⟨metric, rest, -, hmeets⟩
  · exact absurd hall (by decide)
  · exact ⟨first, s, t, u, v, hfirst, hs, ht, hu, hv, haccepted, hhistory, hmeets⟩

end PushMetrics.Agent
