import PushMetrics.Proofs.Agent.Queue

/-!
# Admission to the queue

What a task pushes is accepted item by item in the order of its batch, and a batch that fails has been accepted up to
the item that failed. Slots are granted in the order in which tasks have come to wait for them. When no task can go
on, none waits while a slot is free.
-/

namespace PushMetrics.Agent

/-- A task that waits or has failed has an item that was not accepted; one that has succeeded has none. -/
structure Pusher.Consistent {τ α : Type} (p : Pusher τ α) : Prop where
  waiting : p.phase.isWaiting = true → p.items ≠ []
  done : p.phase = .ended (.ok ()) → p.items = []
  failed : ∀ e, p.phase = .ended (.error e) → p.items ≠ []

theorem Pusher.consistent_of_ready {τ α : Type} {p : Pusher τ α} (h : p.phase = .ready) : p.Consistent := by
  constructor <;> simp [h, PushPhase.isWaiting]

/-- How many turns a task can still take. -/
def Pusher.turnsLeft {τ α : Type} (p : Pusher τ α) : Nat :=
  match p.phase with
  | .ready => 2 * p.items.length + 1
  | .waiting _ => 2 * p.items.length
  | .ended _ => 0

namespace Pushing

variable {κ τ α : Type} [DecidableEq κ]
variable {s s' t : Pushing κ τ α} {j k : κ} {p : Pusher τ α} {capacity : Nat} {limit : Option Span}

/-! ## Batches -/

/-- The items of a task that were accepted, in order. -/
def acceptedBy (s : Pushing κ τ α) (k : κ) : List α := (s.accepted.filter (·.1 = k)).map (·.2)

theorem Touches.acceptedBy_eq (h : Touches s s' k) (hj : k ≠ j) : s'.acceptedBy j = s.acceptedBy j := by
  obtain ⟨items, haccepted⟩ := h.accepted
  have hown : (items.map (k, ·)).filter (·.1 = j) = [] := by simp [hj]
  rw [acceptedBy, haccepted, List.filter_append, hown, List.append_nil]
  rfl

/-- What a task has got accepted and what it has still to push stay together its batch. -/
structure Continues (s : Pushing κ τ α) (k : κ) (p : Pusher τ α) (s' : Pushing κ τ α) (p' : Pusher τ α) : Prop where
  after : s'.pushers.get? k = some p'
  token : p'.token = p.token
  batch : s'.acceptedBy k ++ p'.items = s.acceptedBy k ++ p.items
  consistent : p'.Consistent
  fewer : p'.turnsLeft < p.turnsLeft

theorem Turns.continues (h : Turns s k p s') : ∃ p', Continues s k p s' p' := by
  cases h with
  | done hp hi =>
      refine ⟨{ p with phase := .ended (.ok ()) }, Dict.get?_put_self _ _ _, rfl, rfl, ?_, ?_⟩
      · constructor <;> simp [hi, PushPhase.isWaiting]
      · simp [Pusher.turnsLeft, hp]
  | @enter a rest hp hi hf =>
      refine ⟨{ p with items := rest }, Dict.get?_put_self _ _ _, rfl, ?_, Pusher.consistent_of_ready hp, ?_⟩
      · simp [acceptedBy, setPusher, accept, hi]
      · simp [Pusher.turnsLeft, hp, hi]
  | @queue a rest hp hi hf =>
      refine ⟨{ p with phase := .waiting s.deadline? }, Dict.get?_put_self _ _ _, rfl, rfl, ?_, ?_⟩
      · constructor <;> simp [hi]
      · simp [Pusher.turnsLeft, hp]
  | @settle a rest deadline hp hi hg =>
      refine ⟨{ p with items := rest, phase := .ready }, Dict.get?_put_self _ _ _, rfl, ?_,
        Pusher.consistent_of_ready rfl, ?_⟩
      · simp [acceptedBy, setPusher, accept, hi]
      · simp only [Pusher.turnsLeft, hp, hi, List.length_cons]
        omega
  | @giveUp a rest deadline e hp hi hg hr =>
      refine ⟨{ p with phase := .ended (.error e) }, Dict.get?_put_self _ _ _, rfl, rfl, ?_, ?_⟩
      · constructor <;> simp [hi, PushPhase.isWaiting]
      · simp [Pusher.turnsLeft, hp, hi]

/-- Each task has been started with what it has got accepted followed by what it has still to push. -/
structure Batched (s : Pushing κ τ α) (labels : List (PushStep κ τ α)) : Prop where
  unknown : ∀ k, s.pushers.get? k = none → s.acceptedBy k = []
  known : ∀ k p, s.pushers.get? k = some p → .start k p.token (s.acceptedBy k ++ p.items) ∈ labels ∧ p.Consistent

variable [DecidableEq τ] {label : PushStep κ τ α} {labels more : List (PushStep κ τ α)}

omit [DecidableEq τ] in
theorem Batched.touch (h : s.Batched labels) (ht : Touches s s' k) (hk : s'.pushers.get? k = some p)
    (hbatch : .start k p.token (s'.acceptedBy k ++ p.items) ∈ labels) (hp : p.Consistent) : s'.Batched labels where
  unknown j hj := by
    have hne : k ≠ j := by
      rintro rfl
      cases hk.symm.trans hj
    rw [ht.acceptedBy_eq hne]
    exact h.unknown j (ht.others j hne ▸ hj)
  known j q hj := by
    by_cases hkj : k = j
    · subst hkj
      cases hk.symm.trans hj
      exact ⟨hbatch, hp⟩
    · rw [ht.acceptedBy_eq hkj]
      exact h.known j q (ht.others j hkj ▸ hj)

theorem Batched.step (h : s.Batched labels) (hl : label ∈ labels) (hs : s.step label = some s') :
    s'.Batched labels := by
  cases label with
  | start k token items =>
      obtain ⟨ht, hk⟩ := start_spec hs
      refine h.touch ht hk ?_ (Pusher.consistent_of_ready rfl)
      simp only [Pushing.step] at hs
      split at hs
      · cases hs
      · rename_i hnew
        cases hs
        have hnone := h.unknown k (Option.not_isSome_iff_eq_none.1 hnew)
        simp only [acceptedBy, setPusher] at hnone ⊢
        rw [hnone]
        exact hl
  | turn k =>
      obtain ⟨ht, p, hk, hturn⟩ := turn_spec hs
      obtain ⟨p', hnext⟩ := hturn.continues
      refine h.touch ht hnext.after ?_ hnext.consistent
      rw [hnext.token, hnext.batch]
      exact (h.known k p hk).1
  | take =>
      obtain ⟨_, _, -, rfl⟩ := take_spec hs
      exact ⟨h.unknown, h.known⟩
  | pop max =>
      cases hs
      exact ⟨h.unknown, h.known⟩
  | fire token =>
      cases hs
      exact ⟨h.unknown, h.known⟩
  | wait millis =>
      cases hs
      exact ⟨h.unknown, h.known⟩

/-! ## Giving up -/

/-- A task that has been granted no slot gives up: it leaves the line, and nothing of its item goes in. -/
structure Fails (s : Pushing κ τ α) (k : κ) (e : QueueError) (s' : Pushing κ τ α) : Prop where
  accepted : s'.accepted = s.accepted
  taken : s'.taken = s.taken
  queue : s'.queue = { s.queue with slots := { s.queue.slots with waiting := s.queue.slots.waiting.erase k } }
  reason : ∃ p deadline, s.pushers.get? k = some p ∧ p.phase = .waiting deadline ∧ s.GivesUp p deadline e

theorem turn_failed {e : QueueError} (h : s.step (.turn k) = some t) (hp : t.pushers.get? k = some p)
    (he : p.phase = .ended (.error e)) : Fails s k e t := by
  obtain ⟨-, q, hq, hturn⟩ := turn_spec h
  cases hturn with
  | done hphase hi =>
      cases (Dict.get?_put_self _ _ _).symm.trans hp
      cases he
  | enter hphase hi hf =>
      cases (Dict.get?_put_self _ _ _).symm.trans hp
      cases hphase.symm.trans he
  | queue hphase hi hf =>
      cases (Dict.get?_put_self _ _ _).symm.trans hp
      cases he
  | settle hphase hi hg =>
      cases (Dict.get?_put_self _ _ _).symm.trans hp
      cases he
  | giveUp hphase hi hg hr =>
      cases (Dict.get?_put_self _ _ _).symm.trans hp
      cases he
      refine ⟨rfl, rfl, ?_, q, _, hq, hphase, hr⟩
      simp [Pushing.giveUp, setPusher, Queue.leave, Permits.withdraw, hg]

theorem turn_of_ended (h : p.phase.isEnded = true) : s.turn k p = none := by
  unfold PushPhase.isEnded at h
  split at h
  · rename_i r hp
    simp [turn, hp]
  · cases h

theorem ended_step (hk : s.pushers.get? k = some p) (hp : p.phase.isEnded = true) (h : s.step label = some t) :
    t.pushers.get? k = some p ∧ t.acceptedBy k = s.acceptedBy k := by
  have htouch : ∀ {i : κ}, Touches s t i → i ≠ k → t.pushers.get? k = some p ∧ t.acceptedBy k = s.acceptedBy k :=
    fun ht hne => ⟨(ht.others k hne).trans hk, ht.acceptedBy_eq hne⟩
  cases label with
  | start i token items =>
      refine htouch (start_spec h).1 ?_
      rintro rfl
      simp [Pushing.step, hk] at h
  | turn i =>
      refine htouch (turn_spec h).1 ?_
      rintro rfl
      simp [Pushing.step, hk, turn_of_ended hp] at h
  | take =>
      obtain ⟨_, _, -, rfl⟩ := take_spec h
      exact ⟨hk, rfl⟩
  | pop max =>
      cases h
      exact ⟨hk, rfl⟩
  | fire token =>
      cases h
      exact ⟨hk, rfl⟩
  | wait millis =>
      cases h
      exact ⟨hk, rfl⟩

theorem ended_stays (hk : s.pushers.get? k = some p) (hp : p.phase.isEnded = true)
    (h : stepwise step s more = some t) : t.pushers.get? k = some p ∧ t.acceptedBy k = s.acceptedBy k :=
  stepwise_keeps (P := fun t => t.pushers.get? k = some p ∧ t.acceptedBy k = s.acceptedBy k) h ⟨hk, rfl⟩
    fun _ _ _ _ ⟨hbefore, haccepted⟩ hstep =>
      let ⟨hafter, hsame⟩ := ended_step hbefore hp hstep
      ⟨hafter, hsame.trans haccepted⟩

/-! ## The order of admission -/

/-- As long as `j`, which has come before, waits for a slot, `k` gets none. -/
structure Precedes (s : Pushing κ τ α) (j k : κ) (items : List α) : Prop where
  behind : s.queue.slots.Behind j k
  unserved : s.acceptedBy k = items

omit [DecidableEq τ] in
theorem Precedes.turn {i : κ} {items : List α} (h : s.Precedes j k items) (hs : s.Sound)
    (hp : s.pushers.get? i = some p) (ht : Turns s i p t) (hj : j ∈ s.queue.slots.waiting) :
    t.Precedes j k items := by
  have hready : p.phase = .ready → i ≠ j := by
    rintro hphase rfl
    have hwaits := (hs.mem_line_iff hp).1 (List.mem_append_right _ hj)
    simp [hphase, PushPhase.isWaiting] at hwaits
  have hother : i ≠ k → t.acceptedBy k = items := fun hne => (ht.touches.acceptedBy_eq hne).trans h.unserved
  cases ht with
  | done hphase hi => exact ⟨h.behind, h.unserved⟩
  | enter hphase hi hf =>
      have hidle := hs.slots.idle.resolve_right (by omega)
      simp [hidle] at hj
  | queue hphase hi hf => exact ⟨h.behind.request (hready hphase), h.unserved⟩
  | settle hphase hi hg =>
      refine ⟨h.behind.collect hg, hother ?_⟩
      rintro rfl
      exact h.behind.notMem_waiting hs.nodup hg hj
  | giveUp hphase hi hg hr => exact ⟨h.behind.withdraw hs.nodup i, h.unserved⟩

theorem Precedes.take {items : List α} (h : s.Precedes j k items) (hs : s.Sound) (hstep : s.step .take = some t) :
    t.Precedes j k items := by
  obtain ⟨_, _, -, rfl⟩ := take_spec hstep
  exact ⟨h.behind.giveBack hs.nodup, h.unserved⟩

theorem Precedes.step {items : List α} (h : s.Precedes j k items) (hs : s.Sound) (hj : j ∈ s.queue.slots.waiting)
    (hstep : s.step label = some t) : t.Precedes j k items := by
  cases label with
  | start i token batch =>
      simp only [Pushing.step] at hstep
      split at hstep
      · cases hstep
      · cases hstep
        exact ⟨h.behind, h.unserved⟩
  | turn i =>
      obtain ⟨-, p, hp, ht⟩ := turn_spec hstep
      exact h.turn hs hp ht hj
  | take => exact h.take hs hstep
  | pop max =>
      cases hstep
      refine (popped_keeps (P := fun u => u.Sound ∧ u.Precedes j k items) ⟨hs, h⟩ (fun u v hu htake => ?_) max).2
      obtain ⟨hsound, hprecedes⟩ := hu
      exact ⟨hsound.take htake, hprecedes.take hsound htake⟩
  | fire token =>
      cases hstep
      exact ⟨h.behind, h.unserved⟩
  | wait millis =>
      cases hstep
      exact ⟨h.behind, h.unserved⟩

/-- Who comes to wait later is granted no slot while an earlier one still waits. -/
theorem not_overtaken (hs : s.Sound) (hk : k ∉ s.queue.slots.line)
    (hj : Throughout step (fun t => j ∈ t.queue.slots.waiting) s more) (ht : stepwise step s more = some t) :
    t.acceptedBy k = s.acceptedBy k ∧ k ∉ t.queue.slots.granted := by
  have hfirst : s.Precedes j k (s.acceptedBy k) := ⟨Permits.behind_of_notMem hk, rfl⟩
  obtain ⟨⟨hsound, hprecedes⟩, hwaits⟩ := hj.keeps (P := fun t => t.Sound ∧ t.Precedes j k (s.acceptedBy k)) ht
    ⟨hs, hfirst⟩ fun _ _ _ hbefore _ ⟨hsound, hprecedes⟩ hstep =>
      ⟨hsound.step hstep, hprecedes.step hsound hbefore hstep⟩
  exact ⟨hprecedes.unserved, fun hg => hprecedes.behind.notMem_waiting hsound.nodup hg hwaits⟩

/-! ## When all have run -/

/-- No task can go on. -/
def IsResting (s : Pushing κ τ α) : Prop := ∀ k, s.step (.turn k) = none

/-- Who has been granted a slot puts its item into it, even if its token has been fired or its deadline has passed. -/
theorem turn_of_granted (hs : s.Sound) (hb : s.Batched labels) (hk : k ∈ s.queue.slots.granted) :
    ∃ t a, s.step (.turn k) = some t ∧ t.accepted = s.accepted ++ [(k, a)] := by
  obtain ⟨p, hp, hwaits⟩ := (hs.queued k).1 (List.mem_append_left _ hk)
  have hitems := (hb.known k p hp).2.waiting hwaits
  obtain ⟨a, rest, hi⟩ := List.exists_cons_of_ne_nil hitems
  unfold PushPhase.isWaiting at hwaits
  split at hwaits
  · rename_i deadline hphase
    refine ⟨(s.accept k a (s.queue.settle k a)).setPusher k { p with items := rest, phase := .ready }, a, ?_, rfl⟩
    simp [Pushing.step, hp, turn, hphase, hi, Permits.isGranted_iff.2 hk]
  · cases hwaits

theorem IsResting.granted_eq_nil (h : s.IsResting) (hs : s.Sound) (hb : s.Batched labels) :
    s.queue.slots.granted = [] := by
  rw [List.eq_nil_iff_forall_not_mem]
  intro k hk
  obtain ⟨t, a, hstep, -⟩ := turn_of_granted hs hb hk
  cases (h k).symm.trans hstep

/-- When no task can go on, a task waits only if every slot is taken up by an item. -/
theorem IsResting.not_waiting (h : s.IsResting) (hs : s.Sound) (hb : s.Batched labels)
    (hroom : s.queue.buffer.length < s.queue.capacity) (hk : s.pushers.get? k = some p) :
    p.phase.isWaiting = false := by
  have hgranted := h.granted_eq_nil hs hb
  have htotal := hs.slots.total
  rw [hgranted, List.length_nil] at htotal
  have hidle : s.queue.slots.waiting = [] := hs.slots.idle.resolve_right (by omega)
  have hline := hs.mem_line_iff hk
  simpa [Permits.line, hgranted, hidle] using hline

/-! ## Letting tasks run -/

/-- How many turns the task under a key can still take. -/
def turnsLeft (s : Pushing κ τ α) (k : κ) : Nat := ((s.pushers.get? k).map (·.turnsLeft)).getD 0

theorem turnsLeft_of_turn (h : s.step (.turn k) = some t) : t.turnsLeft k < s.turnsLeft k := by
  obtain ⟨-, p, hp, hturn⟩ := turn_spec h
  obtain ⟨p', hnext⟩ := hturn.continues
  simpa [turnsLeft, hp, hnext.after] using hnext.fewer

omit [DecidableEq τ] in
theorem turnsLeft_le_turnsOf (s : Pushing κ τ α) (k : κ) : s.turnsLeft k ≤ s.turnsOf k := by
  unfold turnsLeft turnsOf
  cases s.pushers.get? k with
  | none => simp
  | some p =>
      simp only [Option.map_some, Option.getD_some, Pusher.turnsLeft]
      split <;> omega

/-- A task runs until it cannot go on. -/
theorem runTask_spec {fuel : Nat} (hfuel : s.turnsLeft k ≤ fuel) :
    (runTask k fuel s).step (.turn k) = none ∧
      ∃ n, stepwise step s (List.replicate n (.turn k)) = some (runTask k fuel s) := by
  induction fuel generalizing s with
  | zero =>
      refine ⟨?_, 0, rfl⟩
      cases hstep : s.step (.turn k) with
      | none => exact hstep
      | some t =>
          have := turnsLeft_of_turn hstep
          omega
  | succ fuel ih =>
      unfold runTask
      cases hstep : s.step (.turn k) with
      | none => exact ⟨hstep, 0, rfl⟩
      | some t =>
          have hfewer := turnsLeft_of_turn hstep
          obtain ⟨hstuck, n, hn⟩ := ih (s := t) (by omega)
          refine ⟨hstuck, n + 1, ?_⟩
          rw [List.replicate_succ, stepwise_cons, hstep]
          exact hn

/-- A turn hands no slot to another task, fires no token and lets no time pass. -/
theorem turn_helps_none (h : s.step (.turn k) = some t) :
    t.queue.slots.granted ⊆ s.queue.slots.granted ∧ t.fired = s.fired ∧ t.now = s.now := by
  obtain ⟨-, p, -, hturn⟩ := turn_spec h
  cases hturn with
  | done hp hi => exact ⟨List.Subset.refl _, rfl, rfl⟩
  | enter hp hi hf =>
      refine ⟨?_, rfl, rfl⟩
      simp [setPusher, accept, Permits.request, hf]
  | queue hp hi hf =>
      refine ⟨?_, rfl, rfl⟩
      simp [setPusher, Permits.request, hf]
  | settle hp hi hg => exact ⟨List.erase_subset, rfl, rfl⟩
  | giveUp hp hi hg hr =>
      refine ⟨?_, rfl, rfl⟩
      simp [Pushing.giveUp, setPusher, Queue.leave, Permits.withdraw, hg]

theorem turn_stays_none (h : s.turn j p = none) (hg : t.queue.slots.granted ⊆ s.queue.slots.granted)
    (hf : t.fired = s.fired) (hn : t.now = s.now) : t.turn j p = none := by
  cases hphase : p.phase with
  | ready => cases hi : p.items <;> simp [turn, hphase, hi] at h
  | ended r => simp [turn, hphase]
  | waiting deadline =>
      cases hi : p.items with
      | nil => simp [turn, hphase, hi]
      | cons a rest =>
          simp only [turn, hphase, hi, Permits.isGranted_iff] at h ⊢
          split at h
          · cases h
          · rename_i hout
            rw [if_neg fun hin => hout (hg hin), hf, hn]
            split at h
            · cases h
            · rename_i hlate
              rw [if_neg hlate]
              split at h
              · cases h
              · rename_i hlive
                rw [if_neg hlive]

/-- A task that cannot go on cannot go on after others have had their turns either. -/
theorem stuck_stays {ks : List κ} (h : s.step (.turn j) = none) (ht : stepwise step s (ks.map .turn) = some t) :
    t.step (.turn j) = none := by
  refine stepwise_keeps (P := fun t => t.step (.turn j) = none) ht h fun s a t ha hstuck hstep => ?_
  obtain ⟨k, -, rfl⟩ := List.mem_map.1 ha
  obtain ⟨hgranted, hfired, hnow⟩ := turn_helps_none hstep
  have hne : k ≠ j := by
    rintro rfl
    cases hstuck.symm.trans hstep
  simp only [Pushing.step, (turn_spec hstep).1.others j hne] at hstuck ⊢
  cases hp : s.pushers.get? j with
  | none => rfl
  | some p =>
      rw [hp] at hstuck
      exact turn_stays_none hstuck hgranted hfired hnow

/-- Tasks that run one after another until they cannot go on. -/
theorem runTasks_spec (order : List κ) (s : Pushing κ τ α) :
    (∀ k ∈ order, (order.foldl (fun s k => runTask k (s.turnsOf k) s) s).step (.turn k) = none) ∧
      ∃ ks : List κ, stepwise step s (ks.map .turn) = some (order.foldl (fun s k => runTask k (s.turnsOf k) s) s) := by
  induction order generalizing s with
  | nil => exact ⟨by simp, [], rfl⟩
  | cons k order ih =>
      obtain ⟨hstuck, n, hn⟩ := runTask_spec (s.turnsLeft_le_turnsOf k)
      obtain ⟨hrest, ks, hks⟩ := ih (runTask k (s.turnsOf k) s)
      refine ⟨?_, List.replicate n k ++ ks, ?_⟩
      · intro j hj
        rcases List.mem_cons.1 hj with rfl | hj
        · exact stuck_stays hstuck hks
        · exact hrest j hj
      · rw [List.map_append, List.map_replicate]
        exact stepwise_trans hn hks

omit [DecidableEq τ] in
theorem mem_runOrder (h : k ∈ s.pushers.keys) : k ∈ s.runOrder := by
  by_cases hg : k ∈ s.queue.slots.granted
  · exact List.mem_append_left _ hg
  · exact List.mem_append_right _ (List.mem_filter.2 ⟨h, by simpa using hg⟩)

theorem settle_spec (s : Pushing κ τ α) :
    s.settle.IsResting ∧ ∃ ks : List κ, stepwise step s (ks.map .turn) = some s.settle := by
  obtain ⟨hstuck, ks, hks⟩ := runTasks_spec s.runOrder s
  refine ⟨fun k => ?_, ks, hks⟩
  by_cases hk : k ∈ s.pushers.keys
  · exact hstuck k (mem_runOrder hk)
  · have hnone : s.pushers.get? k = none := by simpa [Dict.mem_keys_iff] using hk
    exact stuck_stays (by simp [Pushing.step, hnone]) hks

/-! ## All of it -/

theorem capacity_step (h : s.step label = some t) : t.queue.capacity = s.queue.capacity := by
  cases label with
  | start k token items =>
      simp only [Pushing.step] at h
      split at h
      · cases h
      · cases h
        rfl
  | turn k =>
      obtain ⟨-, p, -, hturn⟩ := turn_spec h
      cases hturn <;> rfl
  | take =>
      obtain ⟨_, _, -, rfl⟩ := take_spec h
      rfl
  | pop max =>
      cases h
      exact (s.queue.pop_spec max).2.2
  | fire token =>
      cases h
      rfl
  | wait millis =>
      cases h
      rfl

omit [DecidableEq τ] in
theorem batched_fresh (labels : List (PushStep κ τ α)) (h : fresh? capacity limit = some s) : s.Batched labels := by
  obtain ⟨q, hq, rfl⟩ := Option.map_eq_some_iff.1 h
  exact ⟨fun k _ => rfl, fun k p hk => by cases hk⟩

theorem admission_invariants (hfirst : fresh? capacity limit = some s) (h : stepwise step s labels = some t) :
    t.Sound ∧ t.Batched labels ∧ t.queue.capacity = s.queue.capacity :=
  stepwise_keeps (P := fun t => t.Sound ∧ t.Batched labels ∧ t.queue.capacity = s.queue.capacity) h
    ⟨sound_fresh hfirst, batched_fresh labels hfirst, rfl⟩
    fun _ _ _ hl ⟨hsound, hbatched, hcapacity⟩ hstep =>
      ⟨hsound.step hstep, hbatched.step hl hstep, (capacity_step hstep).trans hcapacity⟩

theorem stays_failed {e : QueueError} (hs : s.Sound) (hp : s.pushers.get? k = some p)
    (he : p.phase = .ended (.error e)) (h : stepwise step s more = some t) :
    t.acceptedBy k = s.acceptedBy k ∧ k ∉ t.queue.slots.line := by
  have hsound : t.Sound := stepwise_keeps (P := Sound) h hs fun _ _ _ _ hsound hstep => hsound.step hstep
  obtain ⟨hafter, haccepted⟩ := ended_stays hp (by simp [he, PushPhase.isEnded]) h
  refine ⟨haccepted, fun hin => ?_⟩
  have hwaits := (hsound.mem_line_iff hafter).1 hin
  simp [he, PushPhase.isWaiting] at hwaits

/-- However tasks push and take items, tokens are fired and time passes, the accepted items are those that were taken
and then those in the buffer, which is never longer than the capacity; of every batch a prefix has been accepted, and
all of it if the task has succeeded; who fails leaves nothing behind; slots are granted in the order of arrival, and
nobody is left waiting while one is free; and items can always be taken from the front, many of them as well as one
after another. -/
theorem admission_in_order (hpos : 0 < capacity) (hmax : capacity ≤ Queue.greatestCapacity) (limit : Option Span) :
    ∃ first : Pushing κ τ α, fresh? capacity limit = some first ∧
      ∀ labels s, stepwise step first labels = some s →
        (s.accepted.map (·.2) = s.taken ++ s.queue.buffer ∧ s.queue.buffer.length ≤ capacity) ∧
        (∀ k, s.pushers.get? k = none → s.acceptedBy k = []) ∧
        (∀ k p, s.pushers.get? k = some p →
          .start k p.token (s.acceptedBy k ++ p.items) ∈ labels ∧
          (p.phase = .ended (.ok ()) → p.items = []) ∧ ∀ e, p.phase = .ended (.error e) → p.items ≠ []) ∧
        (∀ k t p e, s.step (.turn k) = some t → t.pushers.get? k = some p → p.phase = .ended (.error e) →
          Fails s k e t ∧ ∀ more u, stepwise step t more = some u →
            u.acceptedBy k = s.acceptedBy k ∧ k ∉ u.queue.slots.line) ∧
        (∀ j k, k ∉ s.queue.slots.line → ∀ more t, stepwise step s more = some t →
          Throughout step (fun u => j ∈ u.queue.slots.waiting) s more →
          t.acceptedBy k = s.acceptedBy k ∧ k ∉ t.queue.slots.granted) ∧
        (s.IsResting → s.queue.buffer.length < capacity →
          ∀ k p, s.pushers.get? k = some p → p.phase.isWaiting = false) ∧
        (s.settle.IsResting ∧ ∃ ks : List κ, stepwise step s (ks.map .turn) = some s.settle) ∧
        ∀ max, ∃ items t, s.step (.pop max) = some t ∧ items.length = min max s.queue.buffer.length ∧
          items ++ t.queue.buffer = s.queue.buffer ∧ t.taken = s.taken ++ items ∧ t.accepted = s.accepted ∧
          stepwise step s (List.replicate items.length .take) = some t := by
  have hfirst : fresh? capacity limit = some (⟨⟨capacity, .full capacity, []⟩, limit, Dict.empty, [], 0, [], []⟩ :
      Pushing κ τ α) := by
    simp [fresh?, Queue.fresh?, hpos, hmax]
  refine ⟨_, hfirst, fun labels s hrun => ?_⟩
  obtain ⟨hs, hb, hcapacity⟩ := admission_invariants hfirst hrun
  have htotal := hs.slots.total
  simp only at hcapacity
  refine ⟨⟨hs.conserved, by omega⟩, hb.unknown, ?_, ?_, ?_, ?_, s.settle_spec, ?_⟩
  · intro k p hp
    obtain ⟨hstart, hconsistent⟩ := hb.known k p hp
    exact ⟨hstart, hconsistent.done, hconsistent.failed⟩
  · intro k t p e hstep hp he
    have hfails := turn_failed hstep hp he
    refine ⟨hfails, fun more u hu => ?_⟩
    obtain ⟨haccepted, hout⟩ := stays_failed (hs.step hstep) hp he hu
    refine ⟨haccepted.trans ?_, hout⟩
    rw [acceptedBy, hfails.accepted]
    rfl
  · intro j k hk more t ht hj
    exact not_overtaken hs hk hj ht
  · intro hrest hroom k p hp
    exact hrest.not_waiting hs hb (hcapacity ▸ hroom) hp
  · intro max
    obtain ⟨hitems, hstays, -⟩ := s.queue.pop_spec max
    refine ⟨(s.queue.pop max).1, s.popped max, rfl, ?_, ?_, rfl, rfl, s.stepwise_take max⟩
    · rw [hitems, List.length_take]
    · rw [hitems, popped, hstays, List.take_append_drop]

/-- One slot for which two tasks wait; the first gives up before the slot comes back. -/
def withdrawal : List (PushStep Nat Nat String) :=
  [.start 0 0 ["a", "b"], .turn 0, .turn 0, .start 1 1 ["c"], .turn 1, .fire 0, .turn 0, .pop 1, .turn 1]

theorem admission_in_order_withdrawal :
    (0 < 1 ∧ 1 ≤ Queue.greatestCapacity) ∧
    ∃ first s : Pushing Nat Nat String, fresh? 1 none = some first ∧ stepwise step first withdrawal = some s ∧
      s.accepted.map (·.2) = s.taken ++ s.queue.buffer ∧ s.taken = ["a"] ∧ s.acceptedBy 0 = ["a"] ∧
      s.acceptedBy 1 = ["c"] := by
  have hsize : 0 < 1 ∧ 1 ≤ Queue.greatestCapacity := by decide
  have hrun : ∃ s : Pushing Nat Nat String, (fresh? 1 none).bind (stepwise step · withdrawal) = some s ∧
      s.taken = ["a"] ∧ s.acceptedBy 0 = ["a"] ∧ s.acceptedBy 1 = ["c"] :=
    ⟨_, rfl, by decide⟩
  obtain ⟨s, hs, htaken, hzero, hone⟩ := hrun
  obtain ⟨first, hfirst, hruns⟩ := admission_in_order (κ := Nat) (τ := Nat) (α := String) hsize.1 hsize.2 none
  rw [hfirst, Option.bind_some] at hs
  exact ⟨hsize, first, s, hfirst, hs, (hruns _ s hs).1.1, htaken, hzero, hone⟩

end Pushing

end PushMetrics.Agent
