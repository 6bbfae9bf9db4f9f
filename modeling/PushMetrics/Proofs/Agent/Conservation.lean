import PushMetrics.Proofs.Agent.Moves

/-!
# No queued metric is lost

What the queue has accepted is what has been handed to deliveries, batch after batch, followed by what is still in
the queue. Every batch has one delivery, and all that this sends is the batch.
-/

namespace PushMetrics.Agent

/-- The batch that an event hands to a delivery, with the number of the delivery. -/
def Event.dispatched? : Event → Option (Nat × List Metric)
  | .dispatched number batch => some (number, batch)
  | _ => none

def Event.ofDelivery? (number : Nat) : Event → Option DeliveryEvent
  | .delivery n e => if n = number then some e else none
  | _ => none

namespace State

/-- The batches that were handed to deliveries, in order. -/
def dispatched (s : State) : List (Nat × List Metric) := s.saw Event.dispatched?

def eventsOf (s : State) (number : Nat) : List DeliveryEvent := s.saw (Event.ofDelivery? number)

/-- Every item taken from the queue is with the one delivery of its batch, and every delivery is sound. -/
structure Conserved (s : State) : Prop where
  queue : s.pushing.Sound
  taken : s.pushing.taken = (s.dispatched.map (·.2)).flatten
  handed : s.deliveries.entries.map (fun e => (e.1, e.2.batch)) = s.dispatched
  fresh : ∀ number d, s.deliveries.get? number = some d → number < s.next
  sized : ∀ e ∈ s.dispatched, e.2 ≠ [] ∧ e.2.length ≤ s.config.batchSize
  sound : ∀ number d, s.deliveries.get? number = some d → d.Sound s.config.backoff (s.eventsOf number)
  silent : ∀ number, s.deliveries.get? number = none → s.eventsOf number = []

theorem conserved_start {config : Config} {collectors : Nat} {s : State} (h : start? config collectors = some s) :
    s.Conserved := by
  obtain ⟨pushing, hp, h⟩ := Option.bind_eq_some_iff.1 h
  split at h
  · cases h
    have htaken : pushing.taken = [] := by
      simp only [Pushing.fresh?, Option.map_eq_some_iff] at hp
      obtain ⟨q, -, rfl⟩ := hp
      rfl
    refine ⟨Pushing.sound_fresh hp, htaken, rfl, fun _ _ hd => ?_, fun _ he => ?_, fun _ _ hd => ?_, fun _ _ => rfl⟩
    · cases hd
    · cases he
    · cases hd
  · cases h

variable {s t : State}

/-! ## Moves that leave batches alone -/

theorem Conserved.of_quiet (h : s.Conserved) (hconfig : t.config = s.config) (hqueue : t.pushing.Sound)
    (htaken : t.pushing.taken = s.pushing.taken) (hdeliveries : t.deliveries = s.deliveries)
    (hnext : s.next ≤ t.next) (hdispatched : t.dispatched = s.dispatched)
    (hevents : ∀ number, t.eventsOf number = s.eventsOf number) : t.Conserved where
  queue := hqueue
  taken := by rw [htaken, hdispatched, h.taken]
  handed := by rw [hdeliveries, hdispatched, h.handed]
  fresh number d hd := Nat.lt_of_lt_of_le (h.fresh number d (hdeliveries ▸ hd)) hnext
  sized := by
    rw [hdispatched, hconfig]
    exact h.sized
  sound number d hd := by
    rw [hconfig, hevents]
    exact h.sound number d (hdeliveries ▸ hd)
  silent number hn := by
    rw [hevents]
    exact h.silent number (hdeliveries ▸ hn)

/-- Whether an event says nothing of batches and deliveries. -/
def quiet : Event → Bool
  | .dispatched _ _ | .delivery _ _ => false
  | _ => true

theorem quiet_reported (round : Round) : ∀ e ∈ reported round, quiet e = true := by
  unfold reported
  cases round.firstError <;> simp [quiet]

theorem quiet_refusal (result : Except QueueError Unit) : ∀ e ∈ refusal result, quiet e = true := by
  cases result <;> simp [refusal, quiet]

theorem quiet_crash (ending : Ending) (listens : Bool) : ∀ e ∈ crash ending listens, quiet e = true := by
  cases ending <;> cases listens <;> simp [crash, quiet]

theorem filterMap_dispatched_of_quiet {events : List Event} (h : ∀ e ∈ events, quiet e = true) :
    events.filterMap Event.dispatched? = [] := by
  refine List.filterMap_eq_nil_iff.2 fun e he => ?_
  have hq := h e he
  cases e <;> first | rfl | cases hq

theorem filterMap_ofDelivery_of_quiet {events : List Event} (h : ∀ e ∈ events, quiet e = true) (number : Nat) :
    events.filterMap (Event.ofDelivery? number) = [] := by
  refine List.filterMap_eq_nil_iff.2 fun e he => ?_
  have hq := h e he
  cases e <;> first | rfl | cases hq

theorem Conserved.of_record (h : s.Conserved) {events : List Event} (hevents : ∀ e ∈ events, quiet e = true)
    (hhistory : t.history = (s.record events).history) (hconfig : t.config = s.config) (hqueue : t.pushing.Sound)
    (htaken : t.pushing.taken = s.pushing.taken) (hdeliveries : t.deliveries = s.deliveries)
    (hnext : s.next ≤ t.next) : t.Conserved := by
  refine h.of_quiet hconfig hqueue htaken hdeliveries hnext ?_ fun number => ?_
  · rw [dispatched, saw_of_history hhistory, filterMap_dispatched_of_quiet hevents, List.append_nil]
    rfl
  · rw [eventsOf, saw_of_history hhistory, filterMap_ofDelivery_of_quiet hevents, List.append_nil]
    rfl

/-! ## Deliveries -/

theorem filterMap_ofDelivery (number n : Nat) (seen : List DeliveryEvent) :
    (seen.map (Event.delivery number)).filterMap (Event.ofDelivery? n) = if number = n then seen else [] := by
  rw [List.filterMap_map]
  split
  · rename_i hn
    simp [Event.ofDelivery?, hn]
  · rename_i hn
    simp [Function.comp_def, Event.ofDelivery?, hn]

theorem Conserved.put (h : s.Conserved) {number : Nat} {d d' : Delivery} {seen : List DeliveryEvent}
    {events : List Event} (hd : s.deliveries.get? number = some d)
    (hsound : d'.Sound s.config.backoff (s.eventsOf number ++ seen)) (hbatch : d'.batch = d.batch)
    (hconfig : t.config = s.config)
    (hpushing : t.pushing = s.pushing) (hdeliveries : t.deliveries = s.deliveries.put number d')
    (hnext : t.next = s.next) (hhistory : t.history = (s.record events).history)
    (hnone : events.filterMap Event.dispatched? = [])
    (hseen : ∀ n, events.filterMap (Event.ofDelivery? n) = if number = n then seen else []) : t.Conserved := by
  have hdispatched : t.dispatched = s.dispatched := by
    rw [dispatched, saw_of_history hhistory, hnone, List.append_nil]
    rfl
  have hevents : ∀ n, t.eventsOf n = s.eventsOf n ++ if number = n then seen else [] := by
    intro n
    rw [eventsOf, saw_of_history hhistory, hseen n]
    rfl
  refine ⟨hpushing ▸ h.queue, ?_, ?_, ?_, ?_, ?_, ?_⟩
  · rw [hpushing, hdispatched, h.taken]
  · rw [hdeliveries, hdispatched, ← h.handed]
    exact Dict.map_entries_put _ hd (by rw [hbatch])
  · intro n d hn
    rw [hnext]
    rw [hdeliveries] at hn
    by_cases hne : number = n
    · subst hne
      exact h.fresh number _ ‹_›
    · rw [Dict.get?_put_of_ne _ _ hne] at hn
      exact h.fresh n d hn
  · rw [hdispatched, hconfig]
    exact h.sized
  · intro n d hn
    rw [hconfig, hevents n]
    rw [hdeliveries] at hn
    by_cases hne : number = n
    · subst hne
      rw [Dict.get?_put_self] at hn
      cases hn
      rw [if_pos rfl]
      exact hsound
    · rw [Dict.get?_put_of_ne _ _ hne] at hn
      rw [if_neg hne, List.append_nil]
      exact h.sound n d hn
  · intro n hn
    rw [hdeliveries] at hn
    by_cases hne : number = n
    · subst hne
      rw [Dict.get?_put_self] at hn
      cases hn
    · rw [Dict.get?_put_of_ne _ _ hne] at hn
      rw [hevents n, if_neg hne, List.append_nil]
      exact h.silent n hn

/-- A batch is taken and handed to a delivery of its own. -/
theorem Conserved.take (h : s.Conserved) {batch : List Metric}
    (hb : (s.pushing.queue.pop s.config.batchSize).1 = batch) (hne : batch ≠ []) (hconfig : t.config = s.config)
    (hpushing : t.pushing = s.pushing.popped s.config.batchSize)
    (hdeliveries : t.deliveries = s.deliveries.put s.next (.fresh batch)) (hnext : t.next = s.next + 1)
    (hhistory : t.history = (s.record [.dispatched s.next batch]).history) : t.Conserved := by
  have hnew : s.deliveries.get? s.next = none := by
    cases hget : s.deliveries.get? s.next with
    | none => rfl
    | some d => exact absurd (h.fresh _ d hget) (Nat.lt_irrefl _)
  have hlength : batch.length ≤ s.config.batchSize := by
    rw [← hb, (s.pushing.queue.pop_spec _).1, List.length_take]
    exact Nat.min_le_left _ _
  have hdispatched : t.dispatched = s.dispatched ++ [(s.next, batch)] := saw_of_history hhistory _
  have hevents : ∀ n, t.eventsOf n = s.eventsOf n := by
    intro n
    rw [eventsOf, saw_of_history hhistory]
    exact List.append_nil _
  refine ⟨hpushing ▸ h.queue.pop _, ?_, ?_, ?_, ?_, ?_, ?_⟩
  · rw [hdispatched, hpushing, List.map_append, List.flatten_append, ← h.taken, ← hb]
    simp [Pushing.popped]
  · rw [hdispatched, ← h.handed, hdeliveries, Dict.entries_put_of_new hnew, List.map_append]
    rfl
  · intro n d hn
    rw [hnext]
    rw [hdeliveries] at hn
    by_cases hne : s.next = n
    · exact hne ▸ Nat.lt_succ_self _
    · exact Nat.lt_succ_of_lt (h.fresh n d ((Dict.get?_put_of_ne _ _ hne).symm.trans hn))
  · intro e he
    rw [hconfig]
    rw [hdispatched] at he
    rcases List.mem_append.1 he with he | he
    · exact h.sized e he
    · rw [List.mem_singleton.1 he]
      exact ⟨hne, hlength⟩
  · intro n d hn
    rw [hconfig, hevents n]
    rw [hdeliveries] at hn
    by_cases hne : s.next = n
    · subst hne
      cases (Dict.get?_put_self _ _ _).symm.trans hn
      rw [h.silent _ hnew]
      exact Delivery.sound_fresh batch _
    · exact h.sound n d ((Dict.get?_put_of_ne _ _ hne).symm.trans hn)
  · intro n hn
    rw [hevents n]
    rw [hdeliveries] at hn
    by_cases hne : s.next = n
    · subst hne
      cases (Dict.get?_put_self _ _ _).symm.trans hn
    · exact h.silent n ((Dict.get?_put_of_ne _ _ hne).symm.trans hn)

/-! ## Every move -/

theorem Conserved.dispatches (h : s.Conserved) {token : Token} {d : Dispatching} {d' : Option Dispatching}
    (hd : Dispatches s token d t d') : t.Conserved := by
  cases hd with
  | nothing hq => exact h
  | ask hq hp hd => exact h.of_quiet rfl h.queue rfl rfl (Nat.le_refl _) rfl fun _ => rfl
  | turn hp hd => exact h.of_quiet rfl h.queue rfl rfl (Nat.le_refl _) rfl fun _ => rfl
  | refused hp hheld hwaiting => exact h.of_quiet rfl h.queue rfl rfl (Nat.le_succ _) rfl fun _ => rfl
  | empty hb hp =>
      have htaken : (s.pushing.popped s.config.batchSize).taken = s.pushing.taken := by
        rw [Pushing.popped, hb, List.append_nil]
      exact h.of_quiet rfl (h.queue.pop _) htaken rfl (Nat.le_succ _) rfl fun _ => rfl
  | take hb hne => exact h.take hb hne rfl rfl rfl rfl rfl

theorem Conserved.moves (h : s.Conserved) {label : Step} (hm : Moves s label t) : t.Conserved := by
  cases hm with
  | wait millis =>
      have hwait : s.pushing.step (.wait millis) = some { s.pushing with now := s.pushing.now + millis } := rfl
      exact h.of_quiet rfl (h.queue.step hwait) rfl rfl (Nat.le_refl _) rfl fun _ => rfl
  | shutDown =>
      have hfire : s.pushing.step (.fire .shutdown) = some (s.fire .shutdown).pushing := rfl
      exact h.of_quiet rfl (h.queue.step hfire) rfl rfl (Nat.le_refl _) rfl fun _ => rfl
  | pushOutside hp =>
      exact h.of_quiet rfl (h.queue.step hp) (Pushing.start_spec hp).1.taken rfl (Nat.le_refl _) rfl fun _ => rfl
  | turnOutside hp =>
      exact h.of_quiet rfl (h.queue.step hp) (Pushing.turn_spec hp).1.taken rfl (Nat.le_refl _) rfl fun _ => rfl
  | @delivery number label d d' seen permits hallowed hd hmoved hp =>
      refine h.put hd ((h.sound number d hd).step hmoved) hmoved.frame.1 rfl rfl rfl rfl rfl ?_ ?_
      · exact List.filterMap_eq_nil_iff.2 (by simp [Event.dispatched?])
      · exact fun n => filterMap_ofDelivery number n seen
  | beginRound hs =>
      exact h.of_record (by simp [quiet]) rfl rfl h.queue rfl rfl (Nat.le_refl _)
  | stopCollecting hs hf => exact h.of_quiet rfl h.queue rfl rfl (Nat.le_refl _) rfl fun _ => rfl
  | collected hs hg => exact h.of_quiet rfl h.queue rfl rfl (Nat.le_refl _) rfl fun _ => rfl
  | @endEmptyRound g since round d hs hr hempty =>
      exact h.of_record (quiet_reported round) rfl rfl h.queue rfl rfl (Nat.le_refl _)
  | @endRound g since round d pushing hs hr hne hp =>
      exact h.of_record (quiet_reported round) rfl rfl (h.queue.step hp) (Pushing.start_spec hp).1.taken rfl
        (Nat.le_refl _)
  | turnRound hs hp =>
      exact h.of_quiet rfl (h.queue.step hp) (Pushing.turn_spec hp).1.taken rfl (Nat.le_refl _) rfl fun _ => rfl
  | @leaveRound token items result d hs hp =>
      exact h.of_record (quiet_refusal result) rfl rfl h.queue rfl rfl (Nat.le_refl _)
  | beginDispatch hs => exact h.of_quiet rfl h.queue rfl rfl (Nat.le_refl _) rfl fun _ => rfl
  | dispatch hs hd =>
      have hdispatched := h.dispatches hd
      exact hdispatched.of_quiet rfl hdispatched.queue rfl rfl (Nat.le_refl _) rfl fun _ => rfl
  | @join number listens batch ending hs hd =>
      have hquiet := quiet_crash ending listens
      have hsound : (⟨batch, .ended ending, true⟩ : Delivery).Sound s.config.backoff (s.eventsOf number ++ []) := by
        rw [List.append_nil]
        exact ⟨(h.sound number _ hd).payloads, (h.sound number _ hd).progress⟩
      refine h.put hd hsound rfl rfl rfl rfl rfl rfl ?_ fun n => ?_
      · exact filterMap_dispatched_of_quiet hquiet
      · exact (filterMap_ofDelivery_of_quiet hquiet n).trans (ite_self _).symm
  | stopDelivering hs hf => exact h.of_quiet rfl h.queue rfl rfl (Nat.le_refl _) rfl fun _ => rfl
  | drain hs => exact h.of_record (by simp [quiet]) rfl rfl h.queue rfl rfl (Nat.le_refl _)
  | dispatchLeft hs hd =>
      have hdispatched := h.dispatches hd
      exact hdispatched.of_quiet rfl hdispatched.queue rfl rfl (Nat.le_refl _) rfl fun _ => rfl
  | drained hs hall => exact h.of_record (by simp [quiet]) rfl rfl h.queue rfl rfl (Nat.le_refl _)
  | overrunWaiting hs hdue hp =>
      have hfire : s.pushing.step (.fire .abandon) = some (s.fire .abandon).pushing := rfl
      exact h.of_record (by simp [quiet]) rfl rfl (h.queue.step hfire) rfl rfl (Nat.le_succ _)
  | overrun hs hdue hleft =>
      have hfire : s.pushing.step (.fire .abandon) = some (s.fire .abandon).pushing := rfl
      exact h.of_record (by simp [quiet]) rfl rfl (h.queue.step hfire) rfl rfl (Nat.le_refl _)
  | terminate hs hall => exact h.of_record (by simp [quiet]) rfl rfl h.queue rfl rfl (Nat.le_refl _)

theorem Dispatches.config_eq {token : Token} {d : Dispatching} {d' : Option Dispatching}
    (h : Dispatches s token d t d') : t.config = s.config := by
  cases h <;> rfl

theorem Moves.config_eq {label : Step} (h : Moves s label t) : t.config = s.config := by
  cases h with
  | dispatch hs hd => exact hd.config_eq
  | dispatchLeft hs hd => exact hd.config_eq
  | _ => rfl

theorem conserved_of_stepwise {config : Config} {collectors : Nat} {first : State} {labels : List Step}
    (hfirst : start? config collectors = some first) (h : stepwise State.step first labels = some s) :
    s.Conserved ∧ s.config = config := by
  refine stepwise_keeps (P := fun s => s.Conserved ∧ s.config = config) h ⟨conserved_start hfirst, ?_⟩
    fun s a t _ ⟨hconserved, hconfig⟩ hs => ?_
  · obtain ⟨pushing, -, hstart⟩ := Option.bind_eq_some_iff.1 hfirst
    split at hstart
    · cases hstart
      rfl
    · cases hstart
  · have hm := moves_of_step hs
    exact ⟨hconserved.moves hm, hm.config_eq.trans hconfig⟩

end State

theorem Config.positive_of_check {config : Config} (h : config.check = .ok ()) :
    0 < config.batchSize ∧ 0 < config.retryAttempts := by
  unfold check at h
  repeat' split at h
  all_goals first | omega | cases h

theorem Config.attempts_of_check {config : Config} (h : config.check = .ok ()) :
    (deliveryRule config.backoff).attempts = config.retryAttempts :=
  Nat.max_eq_right (positive_of_check h).2

/-- At every moment of every run, the items that the queue has accepted are those taken from it, which are the batches
that were handed to deliveries, one after another, followed by those in its buffer. Every batch has one delivery
and every delivery a batch; a batch is neither empty nor too long, all sends of its delivery carry it and nothing
else, and these are no more than the attempts and end with the first success. -/
theorem run_conserves {config : Config} {collectors : Nat} {first s : State} {labels : List Step}
    (hcheck : config.check = .ok ()) (hfirst : State.start? config collectors = some first)
    (h : stepwise State.step first labels = some s) :
    s.pushing.accepted.map (·.2) = (s.dispatched.map (·.2)).flatten ++ s.pushing.queue.buffer ∧
    s.pushing.taken = (s.dispatched.map (·.2)).flatten ∧
    (s.dispatched.map (·.1)).Nodup ∧
    s.deliveries.entries.map (fun e => (e.1, e.2.batch)) = s.dispatched ∧
    (∀ number, number ∉ s.dispatched.map (·.1) → s.eventsOf number = []) ∧
    ∀ number batch, (number, batch) ∈ s.dispatched →
      batch ≠ [] ∧ batch.length ≤ config.batchSize ∧
      (∀ payloads ∈ sends (s.eventsOf number), payloads = batch.map Payload.ofMetric) ∧
      (sends (s.eventsOf number)).length ≤ config.retryAttempts ∧ QuietAfterSuccess (s.eventsOf number) := by
  obtain ⟨hc, rfl⟩ := State.conserved_of_stepwise hfirst h
  have hids : s.dispatched.map (·.1) = s.deliveries.keys := by
    rw [← hc.handed, List.map_map]
    rfl
  refine ⟨?_, hc.taken, hids ▸ s.deliveries.nodup, hc.handed, fun number hout => ?_, fun number batch hin => ?_⟩
  · rw [hc.queue.conserved, hc.taken]
  · rw [hids, Dict.mem_keys_iff, Option.not_isSome_iff_eq_none] at hout
    exact hc.silent number hout
  · obtain ⟨hne, hlength⟩ := hc.sized _ hin
    rw [← hc.handed] at hin
    obtain ⟨⟨n, d⟩, hd, he⟩ := List.mem_map.1 hin
    cases he
    have hsound := hc.sound n d (Dict.get?_eq_some_iff.2 hd)
    obtain ⟨hbound, hquiet⟩ := hsound.bounded
    exact ⟨hne, hlength, hsound.payloads, Config.attempts_of_check hcheck ▸ hbound, hquiet⟩

/-- Settings with room for two metrics in the queue and in a batch. -/
def narrow : Config := { Config.default with batchSize := 2, queueCapacity := 2 }

/-- Three metrics are pushed, of which the third has to wait. The first batch fails once and is sent again while the
agent drains. -/
def resending : List Step :=
  [.pushOutside 1 [.counter "a" 1, .counter "b" 2, .counter "c" 3], .turnOutside 1, .turnOutside 1, .turnOutside 1,
    .wait 10000, .beginDispatch, .dispatch, .dispatch, .turnOutside 1, .delivery 0 .begin,
    .delivery 0 (.answer (.error (.status 503 ""))), .shutDown, .dispatch, .stopCollecting, .stopDelivering, .drain,
    .wait 1000, .delivery 0 .wake, .dispatch, .delivery 0 (.answer (.ok ())), .dispatch]

theorem run_conserves_resending : ∃ first s, narrow.check = .ok () ∧ State.start? narrow 3 = some first ∧
    stepwise State.step first resending = some s ∧
    s.dispatched = [(0, [.counter "a" 1, .counter "b" 2]), (2, [.counter "c" 3])] ∧
    s.pushing.accepted.map (·.2) = [.counter "a" 1, .counter "b" 2, .counter "c" 3] ++ s.pushing.queue.buffer ∧
    ∀ payloads ∈ sends (s.eventsOf 0), payloads = [.ofMetric (.counter "a" 1), .ofMetric (.counter "b" 2)] := by
  have hcheck : narrow.check = .ok () := by decide +kernel
  have hrun : ((State.start? narrow 3).bind (stepwise State.step · resending)).map State.dispatched
      = some [(0, [.counter "a" 1, .counter "b" 2]), (2, [.counter "c" 3])] := by decide +kernel
  obtain ⟨s, hs, hdispatched⟩ := Option.map_eq_some_iff.1 hrun
  obtain ⟨first, hfirst, hsteps⟩ := Option.bind_eq_some_iff.1 hs
  obtain ⟨haccepted, -, -, -, -, hbatches⟩ := run_conserves hcheck hfirst hsteps
  rw [hdispatched] at haccepted hbatches
  obtain ⟨-, -, hsent, -⟩ := hbatches 0 _ List.mem_cons_self
  exact ⟨first, s, hcheck, hfirst, hsteps, hdispatched, haccepted, hsent⟩

end PushMetrics.Agent
