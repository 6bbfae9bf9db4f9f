import PushMetrics.Proofs.Agent.Lifecycle

/-!
# No more deliveries than permits

A delivery holds a permit from the moment at which its batch is taken to its end, whatever the end, and gives it back
with the step that ends it. Who finds no batch to deliver gives its permit back at once. So no more deliveries are
under way than there are permits, and when the agent has terminated all permits are free.
-/

namespace PushMetrics.Agent

def Delivery.isSending (d : Delivery) : Bool :=
  match d.phase with
  | .working (.attempting _) _ => true
  | _ => false

theorem Delivery.not_isEnded_of_isSending {d : Delivery} (h : d.isSending = true) : d.isEnded = false := by
  obtain ⟨batch, phase, joined⟩ := d
  cases phase with
  | ended ending => cases h
  | _ => rfl

/-- Whether a permit has been acquired for a delivery that has no batch yet. -/
def Stage.isHolding : Stage → Bool
  | .running _ (.dispatching .holding) | .draining (some .holding) _ => true
  | _ => false

theorem Stage.isHolding_iff {stage : Stage} : stage.isHolding = true ↔ stage.acquirer?.map (·.phase) = some .held := by
  have hdispatching : ∀ (d : Dispatching) (token : Token),
      (d.acquirer? token).map (·.phase) = some .held ↔ d = .holding := by
    intro d token
    cases d <;> simp [Dispatching.acquirer?]
  cases stage with
  | running c d =>
      cases d with
      | dispatching d => cases d <;> simp [isHolding, acquirer?, hdispatching]
      | _ => simp [isHolding, acquirer?]
  | draining d deadline =>
      cases d with
      | some d => cases d <;> simp [isHolding, acquirer?, hdispatching]
      | none => simp [isHolding, acquirer?]
  | _ => simp [isHolding, acquirer?]

namespace State

/-- Deliveries that send at this moment. -/
def sending (s : State) : Nat := s.deliveries.count (·.isSending)

/-- Deliveries that have not ended. -/
def running (s : State) : Nat := s.deliveries.count (!·.isEnded)

/-- Why a step gives back the permit of a delivery: it ends the delivery, or it finds no batch for it. -/
inductive GivesBack (s t : State) (n : Nat) : Step → Prop where
  | ended {step : DeliveryStep} {d d' : Delivery} (hd : s.deliveries.get? n = some d) (hrunning : d.isEnded = false)
      (hd' : t.deliveries.get? n = some d') (hended : d'.isEnded = true) : GivesBack s t n (.delivery n step)
  | empty (hn : n = s.next) (hs : s.stage.isHolding = true) (hb : (s.pushing.queue.pop s.config.batchSize).1 = [])
      (hnext : t.next = n + 1) (hnone : t.deliveries.get? n = none) : GivesBack s t n .dispatch

/-- A permit goes back to the pool from one state to the next. -/
structure Returned (s t : State) (n : Nat) : Prop where
  before : s.permits.phase? n = some .held
  after : t.permits.phase? n = some .released
  pool : t.permits.permits = s.permits.permits.giveBack

/-- All permits are accounted for. A delivery holds one until it has ended, and a number that was passed over without a
delivery holds none. -/
structure Accounted (s : State) : Prop where
  sound : s.permits.Sound s.config.rateLimit
  held : ∀ n d, s.deliveries.get? n = some d →
    s.permits.phase? n = some (if d.isEnded then .released else .held)
  others : ∀ n, n < s.next → s.deliveries.get? n = none →
    s.permits.phase? n = some .released ∨ s.permits.phase? n = some .cancelled

variable {s t : State}

theorem accounted_start {config : Config} {collectors : Nat} (h : start? config collectors = some s) :
    s.Accounted := by
  obtain ⟨pushing, -, h⟩ := Option.bind_eq_some_iff.1 h
  split at h
  · cases h
    exact ⟨Semaphore.sound_fresh _, by simp, by simp⟩
  · cases h

/-! ## What a step asks of the permits -/

/-- What a step does to the permits: it leaves them alone or is one step of a task that uses them. -/
inductive Uses (s t : State) (label : Step) : Prop where
  | nothing (htasks : t.permits.tasks = s.permits.tasks) (hpermits : t.permits.permits = s.permits.permits)
  | one {use : SemaphoreStep Nat Token} {permits : Semaphore Nat Token} (hp : s.permits.step use = some permits)
      (htasks : t.permits.tasks = permits.tasks) (hpermits : t.permits.permits = permits.permits)
      (hcause : ∀ n, use = .release n → GivesBack s t n label)

theorem Dispatches.uses {token : Token} {d : Dispatching} {d' : Option Dispatching} {u : State}
    (h : Dispatches s token d u d') (hconserved : s.Conserved) (hs : s.stage.isHolding = true ∨ d ≠ .holding)
    (hpermits : t.permits = u.permits) (hnext : t.next = u.next) (hdeliveries : t.deliveries = u.deliveries) :
    Uses s t .dispatch := by
  cases h with
  | nothing hq => exact .nothing (hpermits ▸ rfl) (hpermits ▸ rfl)
  | ask hq hp hd => exact .one hp (hpermits ▸ rfl) (hpermits ▸ rfl) (by simp)
  | turn hp hd => exact .one hp (hpermits ▸ rfl) (hpermits ▸ rfl) (by simp)
  | refused hp hheld hwaiting =>
      rcases hp with ⟨-, hp⟩ | ⟨-, hp⟩
      · exact .one hp (hpermits ▸ rfl) (hpermits ▸ rfl) (by simp)
      · exact .one hp (hpermits ▸ rfl) (hpermits ▸ rfl) (by simp)
  | empty hb hp =>
      refine .one hp (hpermits ▸ rfl) (hpermits ▸ rfl) fun n hn => ?_
      obtain rfl : s.next = n := SemaphoreStep.release.inj hn
      refine .empty rfl (hs.resolve_right (by simp)) hb hnext ?_
      rw [hdeliveries]
      exact Option.eq_none_iff_forall_ne_some.2 fun d hd => Nat.lt_irrefl _ (hconserved.fresh _ d hd)
  | take hb hne => exact .nothing (hpermits ▸ rfl) (hpermits ▸ rfl)

theorem Moves.uses (hconserved : s.Conserved) {label : Step} (hm : Moves s label t) : Uses s t label := by
  cases hm with
  | @delivery number step d d' seen permits hallowed hd hmoved hp =>
      split at hp
      · rename_i hended
        refine .one hp rfl rfl fun n hn => ?_
        obtain rfl : number = n := SemaphoreStep.release.inj hn
        exact .ended hd hmoved.frame.2.2 (Dict.get?_put_self _ _ _) hended
      · subst hp
        exact .nothing rfl rfl
  | @dispatch c d d' u hs hd =>
      refine hd.uses hconserved ?_ rfl rfl rfl
      cases d <;> simp [hs, Stage.isHolding]
  | @dispatchLeft d d' deadline u hs hd =>
      refine hd.uses hconserved ?_ rfl rfl rfl
      cases d <;> simp [hs, Stage.isHolding]
  | overrunWaiting hs hdue hp => exact .one hp rfl rfl (by simp)
  | _ => exact .nothing rfl rfl

theorem Uses.sound {label : Step} (h : Uses s t label) {size : Nat} (hsound : s.permits.Sound size) :
    t.permits.Sound size := by
  cases h with
  | nothing htasks hpermits =>
      exact ⟨by rw [Semaphore.holders, htasks, hpermits]; exact hsound.balanced, hpermits ▸ hsound.nodup,
        by rw [htasks, hpermits]; exact hsound.queued⟩
  | one hp htasks hpermits hcause =>
      have hnew := hsound.step hp
      exact ⟨by rw [Semaphore.holders, htasks, hpermits]; exact hnew.balanced, hpermits ▸ hnew.nodup,
        by rw [htasks, hpermits]; exact hnew.queued⟩

/-- A held permit is held on, or goes back to the pool for a cause. -/
theorem Uses.held {label : Step} (h : Uses s t label) {n : Nat} (hn : s.permits.phase? n = some .held) :
    t.permits.phase? n = some .held ∨ Returned s t n ∧ GivesBack s t n label := by
  cases h with
  | nothing htasks hpermits =>
      refine .inl ?_
      rw [Semaphore.phase?, htasks]
      exact hn
  | one hp htasks hpermits hcause =>
      rw [Semaphore.phase?, htasks, ← Semaphore.phase?]
      rcases Semaphore.held_or_released hp hn with hheld | ⟨hrelease, hreleased, hpool⟩
      · exact .inl hheld
      · refine .inr ⟨⟨hn, ?_, hpermits.trans hpool⟩, hcause n hrelease⟩
        rw [Semaphore.phase?, htasks]
        exact hreleased

theorem Uses.final {label : Step} (h : Uses s t label) {n : Nat} {phase : AcquirePhase}
    (hn : s.permits.phase? n = some phase) (hfinal : phase = .released ∨ phase = .cancelled) :
    t.permits.phase? n = some phase := by
  cases h with
  | nothing htasks hpermits =>
      rw [Semaphore.phase?, htasks]
      exact hn
  | one hp htasks hpermits hcause =>
      rw [Semaphore.phase?, htasks]
      exact Semaphore.final_stays hp hn hfinal

/-! ## Every move -/

/-- It is enough to look at the deliveries that begin or end and at the numbers that are used up. -/
theorem Accounted.of_uses (h : s.Accounted) {label : Step} (huses : Uses s t label) (hconfig : t.config = s.config)
    (hdeliveries : ∀ n d, t.deliveries.get? n = some d →
      (∃ d', s.deliveries.get? n = some d' ∧ d'.isEnded = d.isEnded) ∨
        t.permits.phase? n = some (if d.isEnded then .released else .held))
    (hnext : ∀ n, n < t.next → t.deliveries.get? n = none → (n < s.next ∧ s.deliveries.get? n = none) ∨
      t.permits.phase? n = some .released ∨ t.permits.phase? n = some .cancelled) : t.Accounted where
  sound := hconfig ▸ huses.sound h.sound
  held n d hd := by
    rcases hdeliveries n d hd with ⟨d', hd', hsame⟩ | hphase
    · have hbefore := h.held n d' hd'
      rw [hsame] at hbefore
      cases hended : d.isEnded with
      | true =>
          rw [hended] at hbefore
          exact huses.final hbefore (.inl rfl)
      | false =>
          rw [hended] at hbefore
          refine (huses.held hbefore).resolve_right fun ⟨_, hcause⟩ => ?_
          cases hcause with
          | ended _ _ hd'' hended' =>
              cases hd.symm.trans hd''
              cases hended.symm.trans hended'
          | empty _ _ _ _ hnone => cases hd.symm.trans hnone
    · exact hphase
  others n hn hnone := by
    rcases hnext n hn hnone with ⟨hn, hnone⟩ | hphase
    · exact (h.others n hn hnone).imp (huses.final · (.inl rfl)) (huses.final · (.inr rfl))
    · exact hphase

theorem Dispatches.accounted {token : Token} {d : Dispatching} {d' : Option Dispatching} {u : State} (h : s.Accounted)
    (hd : Dispatches s token d u d') (huses : Uses s t .dispatch)
    (hcurrent : s.permits.tasks.get? s.next = d.acquirer? token) (hconfig : t.config = u.config)
    (hpermits : t.permits = u.permits) (hnext : t.next = u.next) (hdeliveries : t.deliveries = u.deliveries) :
    t.Accounted := by
  have hlast : ∀ n, n < s.next + 1 → s.next ≠ n → n < s.next := fun n hn hne => by omega
  refine h.of_uses huses (hconfig.trans hd.config_eq) ?_ ?_
  · intro n e he
    rw [hdeliveries] at he
    cases hd with
    | take hb hne =>
        rcases Dict.of_get?_put he with ⟨rfl, rfl⟩ | ⟨-, he⟩
        · have hphase : s.permits.phase? s.next = some .held := by
            rw [Semaphore.phase?, hcurrent]
            rfl
          rw [hpermits]
          exact .inr hphase
        · exact .inl ⟨e, he, rfl⟩
    | _ => exact .inl ⟨e, he, rfl⟩
  · intro n hn hnone
    rw [hnext] at hn
    rw [hdeliveries] at hnone
    rw [hpermits]
    cases hd with
    | @refused permits d hp hheld hwaiting =>
        by_cases hne : s.next = n
        · subst hne
          refine .inr (.inr ?_)
          rcases hp with ⟨-, hp⟩ | ⟨-, hp⟩
          · obtain ⟨-, -, ⟨-, hafter⟩ | ⟨-, hafter | hafter⟩⟩ := Semaphore.acquire_spec hp
            · simp [Semaphore.phase?, hafter]
            · exact absurd (by simp [Semaphore.phase?, hafter]) hheld
            · exact absurd (by simp [Semaphore.phase?, hafter]) hwaiting
          · obtain ⟨-, token', -, ⟨-, hafter⟩ | ⟨-, hafter⟩⟩ := Semaphore.turn_spec hp
            · simp [Semaphore.phase?, hafter]
            · exact absurd (by simp [Semaphore.phase?, hafter]) hheld
        · exact .inl ⟨hlast n hn hne, hnone⟩
    | empty hb hp =>
        by_cases hne : s.next = n
        · exact .inr (.inl (hne ▸ Semaphore.phase?_release hp))
        · exact .inl ⟨hlast n hn hne, hnone⟩
    | take hb hne =>
        by_cases hn' : s.next = n
        · subst hn'
          cases hnone.symm.trans (Dict.get?_put_self _ _ _)
        · exact .inl ⟨hlast n hn hn', (Dict.get?_put_of_ne _ _ hn').symm.trans hnone⟩
    | _ => exact .inl ⟨hn, hnone⟩

theorem Accounted.moves (h : s.Accounted) (horderly : s.Orderly) {label : Step} (hm : Moves s label t) :
    t.Accounted := by
  have huses := hm.uses horderly.conserved
  have hcurrent := horderly.handing.current
  cases hm with
  | @delivery number step d d' seen permits hallowed hd hmoved hp =>
      refine h.of_uses huses rfl (fun n e he => ?_) fun n hn hnone => ?_
      · rcases Dict.of_get?_put he with ⟨rfl, rfl⟩ | ⟨-, he⟩
        · cases hended : d'.isEnded with
          | true =>
              rw [if_pos hended] at hp
              exact .inr (Semaphore.phase?_release hp)
          | false => exact .inl ⟨d, hd, hmoved.frame.2.2⟩
        · exact .inl ⟨e, he, rfl⟩
      · refine .inl ⟨hn, ?_⟩
        by_cases hne : number = n
        · subst hne
          cases hnone.symm.trans (Dict.get?_put_self _ _ _)
        · exact (Dict.get?_put_of_ne _ _ hne).symm.trans hnone
  | @dispatch c d d' u hs hd =>
      exact hd.accounted h huses (hcurrent.trans (hs ▸ rfl)) rfl rfl rfl rfl
  | @dispatchLeft d d' deadline u hs hd =>
      exact hd.accounted h huses (hcurrent.trans (hs ▸ rfl)) rfl rfl rfl rfl
  | @join number listens batch ending hs hd =>
      refine h.of_uses huses rfl (fun n e he => ?_) fun n hn hnone => ?_
      · rcases Dict.of_get?_put he with ⟨rfl, rfl⟩ | ⟨-, he⟩
        · exact .inl ⟨_, hd, rfl⟩
        · exact .inl ⟨e, he, rfl⟩
      · refine .inl ⟨hn, ?_⟩
        by_cases hne : number = n
        · subst hne
          cases hnone.symm.trans (Dict.get?_put_self _ _ _)
        · exact (Dict.get?_put_of_ne _ _ hne).symm.trans hnone
  | overrunWaiting hs hdue hp =>
      have hphase := Semaphore.phase?_leave hp
      refine h.of_uses huses rfl (fun n e he => .inl ⟨e, he, rfl⟩) fun n hn hnone => ?_
      by_cases hne : s.next = n
      · subst hne
        exact .inr (.inr hphase)
      · have hn : n < s.next + 1 := hn
        exact .inl ⟨by omega, hnone⟩
  | _ => exact h.of_uses huses rfl (fun n e he => .inl ⟨e, he, rfl⟩) fun n hn hnone => .inl ⟨hn, hnone⟩

theorem accounted_of_stepwise {config : Config} {collectors : Nat} {first : State} {labels : List Step}
    (hfirst : start? config collectors = some first) (h : stepwise State.step first labels = some s) :
    s.Accounted ∧ s.Orderly := by
  refine stepwise_keeps (P := fun s => s.Accounted ∧ s.Orderly) h ⟨accounted_start hfirst, orderly_start hfirst⟩
    fun s label t _ ⟨haccounted, horderly⟩ hstep => ?_
  have hm := moves_of_step hstep
  exact ⟨haccounted.moves horderly hm, horderly.moves hm⟩

theorem released_of_stepwise (h : s.Orderly) {n : Nat} (hn : s.permits.phase? n = some .released) {more : List Step}
    (hmore : stepwise State.step s more = some t) : t.permits.phase? n = some .released ∧ t.Orderly := by
  refine stepwise_keeps (P := fun t => t.permits.phase? n = some .released ∧ t.Orderly) hmore ⟨hn, h⟩ ?_
  rintro t label u - ⟨hreleased, horderly⟩ hstep
  have hm := moves_of_step hstep
  exact ⟨(hm.uses horderly.conserved).final hreleased (.inl rfl), horderly.moves hm⟩

/-! ## What follows -/

theorem Accounted.held_iff (h : s.Accounted) (horderly : s.Orderly) {n : Nat} : s.permits.phase? n = some .held ↔
    (∃ d, s.deliveries.get? n = some d ∧ d.isEnded = false) ∨ n = s.next ∧ s.stage.isHolding = true := by
  have hcurrent : s.permits.phase? s.next = s.stage.acquirer?.map (·.phase) := by
    rw [Semaphore.phase?, horderly.handing.current]
  constructor
  · intro hn
    cases hd : s.deliveries.get? n with
    | some d =>
        refine .inl ⟨d, rfl, ?_⟩
        cases hended : d.isEnded with
        | false => rfl
        | true =>
            have hphase := hn.symm.trans (h.held n d hd)
            simp [hended] at hphase
    | none =>
        right
        rcases Nat.lt_trichotomy n s.next with hlt | rfl | hgt
        · rcases h.others n hlt hd with hphase | hphase <;> cases hn.symm.trans hphase
        · exact ⟨rfl, Stage.isHolding_iff.2 (hcurrent ▸ hn)⟩
        · rw [Semaphore.phase?, horderly.handing.later n hgt] at hn
          cases hn
  · rintro (⟨d, hd, hrunning⟩ | ⟨rfl, hholding⟩)
    · simpa [hrunning] using h.held n d hd
    · exact hcurrent.trans (Stage.isHolding_iff.1 hholding)

theorem Accounted.returned_iff (h : s.Accounted) (horderly : s.Orderly) (ht : t.Accounted) {label : Step}
    (hm : Moves s label t) {n : Nat} : s.Returned t n ↔ s.GivesBack t n label := by
  have huses := hm.uses horderly.conserved
  constructor
  · intro hreturned
    rcases huses.held hreturned.before with hheld | ⟨-, hcause⟩
    · cases hheld.symm.trans hreturned.after
    · exact hcause
  · intro hcause
    have hbefore : s.permits.phase? n = some .held := by
      refine (h.held_iff horderly).2 ?_
      cases hcause with
      | ended hd hrunning _ _ => exact .inl ⟨_, hd, hrunning⟩
      | empty hn hs _ _ _ => exact .inr ⟨hn, hs⟩
    have hafter : t.permits.phase? n ≠ some .held := by
      cases hcause with
      | ended _ _ hd' hended =>
          rw [ht.held n _ hd', if_pos hended]
          simp
      | empty hn _ _ hnext hnone => rcases ht.others n (by omega) hnone with hphase | hphase <;> simp [hphase]
    exact ((huses.held hbefore).resolve_left hafter).1

theorem Accounted.running_le (h : s.Accounted) : s.running ≤ s.permits.holders := by
  refine Dict.count_le_count fun n d hd hrunning => ?_
  rw [Bool.not_eq_true'] at hrunning
  obtain ⟨a, ha, hphase⟩ := Option.map_eq_some_iff.1 (h.held n d hd)
  rw [hrunning] at hphase
  exact ⟨a, ha, by simp [hphase]⟩

theorem sending_le (s : State) : s.sending ≤ s.running :=
  Dict.count_le_count fun _ d hd hsending => ⟨d, hd, by simp [Delivery.not_isEnded_of_isSending hsending]⟩

/-- After termination nobody has a permit and nobody waits for one. -/
theorem Accounted.full_of_terminated (h : s.Accounted) (horderly : s.Orderly) (hs : s.stage = .terminated) :
    s.permits.permits = .full s.config.rateLimit ∧ s.permits.holders = 0 := by
  have hnobody : ∀ n, s.permits.phase? n ≠ some .held ∧ s.permits.phase? n ≠ some .waiting := by
    intro n
    cases hd : s.deliveries.get? n with
    | some d => simp [h.held n d hd, horderly.ended hs hd]
    | none =>
        rcases Nat.lt_trichotomy n s.next with hlt | rfl | hgt
        · rcases h.others n hlt hd with hphase | hphase <;> simp [hphase]
        · simp [Semaphore.phase?, horderly.handing.current, hs, Stage.acquirer?]
        · simp [Semaphore.phase?, horderly.handing.later n hgt]
  have hline : s.permits.permits.line = [] := by
    refine List.eq_nil_iff_forall_not_mem.2 fun n hn => ?_
    obtain ⟨token, hwaiting⟩ := (h.sound.queued n).1 hn
    exact (hnobody n).2 (by simp [Semaphore.phase?, hwaiting])
  have hholders : s.permits.holders = 0 := by
    refine Nat.eq_zero_of_not_pos fun hpos => ?_
    obtain ⟨n, a, ha, hheld⟩ := Dict.count_pos_iff.1 hpos
    exact (hnobody n).1 (by simpa [Semaphore.phase?, ha] using hheld)
  obtain ⟨hgranted, hwaiting⟩ := List.append_eq_nil_iff.1 hline
  have hbalanced := h.sound.balanced
  rw [hholders] at hbalanced
  have hfree := hbalanced.free_eq hgranted
  refine ⟨?_, hholders⟩
  generalize s.permits.permits = p at hgranted hwaiting hfree
  obtain ⟨free, waiting, granted⟩ := p
  simp_all [Permits.full]

end State

open State in
/-- At every moment of every run no more deliveries send, and no more are under way, than hold a permit, and these are no
more than the rate limit: the permits that are free, just granted and held make it up, and nobody waits while one is
free. A permit is held by each delivery that has not ended, and by who is about to take a batch. It goes back to the
pool with the very step that ends the delivery, whatever the end, or that finds no batch, and by no other; what has gone
back is never held again. When the agent has terminated, all permits are free. -/
theorem deliveries_bounded {config : Config} {collectors : Nat} {first s : State} {labels : List Step}
    (hfirst : start? config collectors = some first) (h : stepwise State.step first labels = some s) :
    s.sending ≤ s.running ∧ s.running ≤ s.permits.holders ∧ s.permits.holders ≤ config.rateLimit ∧
    s.permits.permits.Balanced config.rateLimit s.permits.holders ∧
    (∀ n, s.permits.phase? n = some .held ↔
      (∃ d, s.deliveries.get? n = some d ∧ d.isEnded = false) ∨ n = s.next ∧ s.stage.isHolding = true) ∧
    (∀ n d, s.deliveries.get? n = some d → d.isEnded = true → s.permits.phase? n = some .released) ∧
    (∀ label t, s.step label = some t → ∀ n, (s.Returned t n ↔ s.GivesBack t n label) ∧
      (s.permits.phase? n = some .held → t.permits.phase? n = some .held ∨ s.Returned t n)) ∧
    (∀ more t, stepwise State.step s more = some t → ∀ n, s.permits.phase? n = some .released →
      t.permits.phase? n = some .released) ∧
    (s.stage = .terminated → s.permits.permits = .full config.rateLimit ∧ s.permits.holders = 0) := by
  obtain ⟨haccounted, horderly⟩ := accounted_of_stepwise hfirst h
  obtain ⟨hconserved, rfl⟩ := conserved_of_stepwise hfirst h
  have hbalanced := haccounted.sound.balanced
  have htotal := hbalanced.total
  refine ⟨sending_le s, haccounted.running_le, by omega, hbalanced, fun n => haccounted.held_iff horderly,
    fun n d hd hended => ?_, fun label t hstep n => ?_, fun more t hmore n hn => ?_,
    haccounted.full_of_terminated horderly⟩
  · simpa [hended] using haccounted.held n d hd
  · have hm := moves_of_step hstep
    refine ⟨haccounted.returned_iff horderly (haccounted.moves horderly hm) hm, fun hheld => ?_⟩
    exact ((hm.uses hconserved).held hheld).imp_right (·.1)
  · exact (released_of_stepwise horderly hn hmore).1

/-- Settings with one permit, and with room for two batches in the queue. -/
def single : Config := { Config.default with batchSize := 2, queueCapacity := 4, rateLimit := 1 }

/-- The second batch waits for the delivery of the first, which sends. -/
def crowding : List Step :=
  [.pushOutside 1 [.counter "a" 1, .counter "b" 2, .counter "c" 3], .turnOutside 1, .turnOutside 1, .turnOutside 1,
    .wait 10000, .beginDispatch, .dispatch, .dispatch, .dispatch, .delivery 0 .begin]

/-- The first delivery fails for good when shutdown has been requested. The permit goes to who waits, who has given up,
and the second batch is handed out by the drain, where its delivery panics. -/
def crashing : List Step :=
  [.shutDown, .delivery 0 (.answer (.error (.status 400 ""))), .dispatch, .join 0, .stopDelivering, .stopCollecting,
    .drain, .dispatch, .dispatch, .dispatch, .delivery 2 .begin, .delivery 2 (.panic "lost"), .join 2, .drained]

theorem deliveries_bounded_crowding : ∃ first s t, single.check = .ok () ∧ State.start? single 3 = some first ∧
    stepwise State.step first crowding = some s ∧ s.sending = 1 ∧ s.permits.permits.waiting = [1] ∧
    s.permits.holders ≤ 1 ∧ stepwise State.step first (crowding ++ crashing) = some t ∧
    t.stage.lifecycle = .terminated ∧ t.permits.permits = .full 1 := by
  have hcheck : single.check = .ok () := by decide +kernel
  have hrun : ((State.start? single 3).bind fun first => (stepwise State.step first crowding).bind fun s =>
      (stepwise State.step s crashing).map fun t =>
        (s.sending, s.permits.permits.waiting, t.stage.lifecycle)) = some (1, [1], .terminated) := by decide +kernel
  obtain ⟨first, hfirst, hrun⟩ := Option.bind_eq_some_iff.1 hrun
  obtain ⟨s, hs, hrun⟩ := Option.bind_eq_some_iff.1 hrun
  obtain ⟨t, ht, hseen⟩ := Option.map_eq_some_iff.1 hrun
  simp only [Prod.mk.injEq] at hseen
  obtain ⟨hsending, hwaiting, hstage⟩ := hseen
  have hall := stepwise_trans hs ht
  obtain ⟨-, -, hbound, -⟩ := deliveries_bounded hfirst hs
  obtain ⟨-, -, -, -, -, -, -, -, hend⟩ := deliveries_bounded hfirst hall
  exact ⟨first, s, t, hcheck, hfirst, hs, hsending, hwaiting, hbound, hall, hstage,
    (hend (Stage.eq_terminated hstage)).1⟩

end PushMetrics.Agent
