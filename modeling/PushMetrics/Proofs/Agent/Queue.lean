import PushMetrics.Agent.Queue
import PushMetrics.Proofs.Dict
import PushMetrics.Proofs.Permits
import PushMetrics.Proofs.Run

/-!
# What goes in and out of the queue

What was accepted is what was taken followed by what is in the buffer. A slot is free, granted or taken up by an
item, and the line for slots consists of the tasks that wait.
-/

namespace PushMetrics.Agent

def PushPhase.isWaiting : PushPhase → Bool
  | .waiting _ => true
  | _ => false

def PushPhase.isEnded : PushPhase → Bool
  | .ended _ => true
  | _ => false

/-- Whether a task has still something to push. -/
def Pusher.isPending {τ α : Type} (p : Pusher τ α) : Bool :=
  match p.phase with
  | .ready => !p.items.isEmpty
  | .waiting _ => true
  | .ended _ => false

theorem Pusher.isPending_of_isWaiting {τ α : Type} {p : Pusher τ α} (h : p.phase.isWaiting = true) :
    p.isPending = true := by
  unfold PushPhase.isWaiting at h
  unfold isPending
  split at h
  · rename_i hp
    rw [hp]
  · cases h

theorem Pusher.isPending_of_isEnded {τ α : Type} {p : Pusher τ α} (h : p.phase.isEnded = true) :
    p.isPending = false := by
  unfold PushPhase.isEnded at h
  unfold isPending
  split at h
  · rename_i hp
    rw [hp]
  · cases h

namespace Queue

variable {κ α : Type} {q q' : Queue κ α} {a : α}

theorem take?_eq_some (h : q.take? = some (a, q')) :
    ∃ rest, q.buffer = a :: rest ∧ q' = { q with slots := q.slots.giveBack, buffer := rest } := by
  unfold take? at h
  split at h
  · cases h
  · rename_i rest hbuffer
    cases h
    exact ⟨rest, hbuffer, rfl⟩

theorem take?_eq_none (h : q.take? = none) : q.buffer = [] := by
  unfold take? at h
  split at h
  · assumption
  · cases h

/-- The items that are taken are those in front, and the others stay. -/
theorem pop_spec (q : Queue κ α) (max : Nat) : (q.pop max).1 = q.buffer.take max ∧
    (q.pop max).2.buffer = q.buffer.drop max ∧ (q.pop max).2.capacity = q.capacity := by
  induction max generalizing q with
  | zero => exact ⟨rfl, rfl, rfl⟩
  | succ max ih =>
      cases hq : q.take? with
      | none => simp [pop, hq, take?_eq_none hq]
      | some e =>
          obtain ⟨a, q'⟩ := e
          obtain ⟨rest, hbuffer, rfl⟩ := take?_eq_some hq
          obtain ⟨hitems, hstays, hcapacity⟩ := ih { q with slots := q.slots.giveBack, buffer := rest }
          simp only [pop, hq, hbuffer, hitems, hstays, hcapacity, List.take_succ_cons, List.drop_succ_cons, and_self]

end Queue

namespace Pushing

variable {κ τ α : Type} [DecidableEq κ]

/-- The accounts of a queue are in order. -/
structure Sound (s : Pushing κ τ α) : Prop where
  conserved : s.accepted.map (·.2) = s.taken ++ s.queue.buffer
  slots : s.queue.slots.Balanced s.queue.capacity s.queue.buffer.length
  nodup : s.queue.slots.line.Nodup
  queued : ∀ k, k ∈ s.queue.slots.line ↔ ∃ p, s.pushers.get? k = some p ∧ p.phase.isWaiting = true

theorem sound_fresh {capacity : Nat} {limit : Option Span} {s : Pushing κ τ α}
    (h : fresh? capacity limit = some s) : s.Sound := by
  simp only [fresh?, Queue.fresh?, Option.map_eq_some_iff] at h
  obtain ⟨q, hq, rfl⟩ := h
  split at hq
  · cases hq
    exact ⟨rfl, Permits.balanced_full capacity, List.nodup_nil, fun k => by simp⟩
  · cases hq

variable {s s' : Pushing κ τ α} {k : κ} {p : Pusher τ α}

/-! ## What a turn does -/

/-- Why a task that waits for a slot gives up. -/
inductive GivesUp (s : Pushing κ τ α) (p : Pusher τ α) (deadline : Option Nat) : QueueError → Prop where
  | late {due : Nat} (hd : deadline = some due) (hl : due ≤ s.now) :
      GivesUp s p deadline (.timeout (s.limit.getD ⟨0⟩))
  | cancelled (hf : p.token ∈ s.fired) : GivesUp s p deadline .cancelled

inductive Turns (s : Pushing κ τ α) (k : κ) (p : Pusher τ α) : Pushing κ τ α → Prop where
  | done (hp : p.phase = .ready) (hi : p.items = []) : Turns s k p (s.setPusher k { p with phase := .ended (.ok ()) })
  | enter {a : α} {rest : List α} (hp : p.phase = .ready) (hi : p.items = a :: rest) (hf : 0 < s.queue.slots.free) :
      Turns s k p ((s.accept k a { s.queue with
        slots := (s.queue.slots.request k).2, buffer := s.queue.buffer ++ [a] }).setPusher k { p with items := rest })
  | queue {a : α} {rest : List α} (hp : p.phase = .ready) (hi : p.items = a :: rest) (hf : s.queue.slots.free = 0) :
      Turns s k p ({ s with queue := { s.queue with slots := (s.queue.slots.request k).2 } }.setPusher k
        { p with phase := .waiting s.deadline? })
  | settle {a : α} {rest : List α} {deadline : Option Nat} (hp : p.phase = .waiting deadline)
      (hi : p.items = a :: rest) (hg : k ∈ s.queue.slots.granted) :
      Turns s k p ((s.accept k a (s.queue.settle k a)).setPusher k { p with items := rest, phase := .ready })
  | giveUp {a : α} {rest : List α} {deadline : Option Nat} {e : QueueError} (hp : p.phase = .waiting deadline)
      (hi : p.items = a :: rest) (hg : k ∉ s.queue.slots.granted) (hr : GivesUp s p deadline e) :
      Turns s k p (s.giveUp k p e)

theorem turns_of_turn [DecidableEq τ] (h : s.turn k p = some s') : Turns s k p s' := by
  unfold turn at h
  split at h
  · rename_i hp hi
    cases h
    exact .done hp hi
  · rename_i a rest hp hi
    by_cases hf : 0 < s.queue.slots.free
    · simp only [Queue.enter, Permits.request, hf, ↓reduceIte, Option.some.injEq] at h
      subst h
      have hmove : Turns s k p _ := .enter hp hi hf
      simp only [Permits.request, hf, ↓reduceIte] at hmove
      exact hmove
    · simp only [Queue.enter, Permits.request, hf, Bool.false_eq_true, ↓reduceIte, Option.some.injEq] at h
      subst h
      have hmove : Turns s k p _ := .queue hp hi (Nat.eq_zero_of_not_pos hf)
      simp only [Permits.request, hf, ↓reduceIte] at hmove
      exact hmove
  · rename_i deadline a rest hp hi
    split at h
    · rename_i hg
      cases h
      exact .settle hp hi (Permits.isGranted_iff.1 hg)
    · rename_i hg
      have hout : k ∉ s.queue.slots.granted := fun hin => hg (Permits.isGranted_iff.2 hin)
      split at h
      · rename_i hlate
        cases h
        obtain ⟨due, hdue, hl⟩ := (Option.any_eq_true _ _).1 hlate
        exact .giveUp hp hi hout (.late hdue (of_decide_eq_true hl))
      · split at h
        · rename_i hf
          cases h
          exact .giveUp hp hi hout (.cancelled hf)
        · cases h
  · cases h

/-- What one task does leaves what was taken and the other tasks alone, and accepts items of its own only. -/
structure Touches (s s' : Pushing κ τ α) (k : κ) : Prop where
  taken : s'.taken = s.taken
  others : ∀ j, k ≠ j → s'.pushers.get? j = s.pushers.get? j
  accepted : ∃ items : List α, s'.accepted = s.accepted ++ items.map (k, ·)

theorem Turns.touches (h : Turns s k p s') : Touches s s' k := by
  cases h with
  | done hp hi => exact ⟨rfl, fun _ hj => Dict.get?_put_of_ne _ _ hj, [], (List.append_nil _).symm⟩
  | enter hp hi hf => exact ⟨rfl, fun _ hj => Dict.get?_put_of_ne _ _ hj, [_], rfl⟩
  | queue hp hi hf => exact ⟨rfl, fun _ hj => Dict.get?_put_of_ne _ _ hj, [], (List.append_nil _).symm⟩
  | settle hp hi hg => exact ⟨rfl, fun _ hj => Dict.get?_put_of_ne _ _ hj, [_], rfl⟩
  | giveUp hp hi hg hr => exact ⟨rfl, fun _ hj => Dict.get?_put_of_ne _ _ hj, [], (List.append_nil _).symm⟩

theorem Turns.idle (h : Turns s k p s') (hp : p.isPending = false) :
    s' = s.setPusher k { p with phase := .ended (.ok ()) } := by
  unfold Pusher.isPending at hp
  cases h with
  | done hphase hi => rfl
  | enter hphase hi hf => simp [hphase, hi] at hp
  | queue hphase hi hf => simp [hphase, hi] at hp
  | settle hphase hi hg => simp [hphase] at hp
  | giveUp hphase hi hg hr => simp [hphase] at hp

theorem start_spec [DecidableEq τ] {token : τ} {items : List α} (h : s.step (.start k token items) = some s') :
    Touches s s' k ∧ s'.pushers.get? k = some ⟨token, items, .ready⟩ := by
  simp only [Pushing.step] at h
  split at h
  · cases h
  · cases h
    exact ⟨⟨rfl, fun _ hj => Dict.get?_put_of_ne _ _ hj, [], (List.append_nil _).symm⟩, Dict.get?_put_self _ _ _⟩

theorem turn_spec [DecidableEq τ] (h : s.step (.turn k) = some s') :
    Touches s s' k ∧ ∃ p, s.pushers.get? k = some p ∧ Turns s k p s' := by
  obtain ⟨p, hk, hturn⟩ := Option.bind_eq_some_iff.1 h
  have ht := turns_of_turn hturn
  exact ⟨ht.touches, p, hk, ht⟩

/-! ## The accounts stay in order -/

/-- A task changes its phase, and with it its place in the line. -/
theorem Sound.queued_put (h : s.Sound) (hpushers : s'.pushers = s.pushers.put k p)
    (hothers : ∀ j, j ≠ k → (j ∈ s'.queue.slots.line ↔ j ∈ s.queue.slots.line))
    (hself : k ∈ s'.queue.slots.line ↔ p.phase.isWaiting = true) (j : κ) :
    j ∈ s'.queue.slots.line ↔ ∃ p, s'.pushers.get? j = some p ∧ p.phase.isWaiting = true := by
  rw [hpushers]
  by_cases hj : k = j
  · subst hj
    rw [Dict.get?_put_self, hself]
    simp
  · rw [Dict.get?_put_of_ne _ _ hj, hothers j (Ne.symm hj)]
    exact h.queued j

theorem Sound.mem_line_iff (h : s.Sound) (hk : s.pushers.get? k = some p) :
    k ∈ s.queue.slots.line ↔ p.phase.isWaiting = true := by
  rw [h.queued k, hk]
  simp

theorem Sound.turn (h : s.Sound) (hk : s.pushers.get? k = some p) (ht : Turns s k p s') : s'.Sound := by
  have hline := h.mem_line_iff hk
  cases ht with
  | done hp hi =>
      rw [hp] at hline
      exact ⟨h.conserved, h.slots, h.nodup, h.queued_put rfl (fun _ _ => .rfl) hline⟩
  | enter hp hi hf =>
      obtain ⟨hnow, hslots⟩ := h.slots.request_of_free hf k
      have hsame : (s.queue.slots.request k).2.line = s.queue.slots.line := by rw [Permits.line_request, if_pos hnow]
      refine ⟨?_, ?_, hsame ▸ h.nodup, h.queued_put rfl (fun j _ => ?_) ?_⟩
      · simp only [setPusher, accept, List.map_append, h.conserved, List.append_assoc]
        rfl
      · simp only [setPusher, accept, List.length_append, List.length_singleton]
        exact hslots
      · simp only [setPusher, accept, hsame]
      · simp only [setPusher, accept, hsame, hline]
  | queue hp hi hf =>
      obtain ⟨hnow, hslots⟩ := h.slots.request_of_full hf k
      have hjoined : (s.queue.slots.request k).2.line = s.queue.slots.line ++ [k] := by
        rw [Permits.line_request, hnow]
        rfl
      have hout : k ∉ s.queue.slots.line := by simp [hline, hp, PushPhase.isWaiting]
      refine ⟨h.conserved, hslots, ?_, h.queued_put rfl (fun j hj => ?_) ?_⟩
      · simp only [setPusher, hjoined]
        exact List.nodup_append.2 ⟨h.nodup, by simp, fun a ha b hb e => hout (by simp_all)⟩
      · simp [setPusher, hjoined, hj]
      · simp [setPusher, hjoined, PushPhase.isWaiting]
  | settle hp hi hg =>
      have hleft := Permits.line_collect hg
      refine ⟨?_, ?_, ?_, h.queued_put rfl (fun j hj => ?_) ?_⟩
      · simp only [setPusher, accept, Queue.settle, List.map_append, h.conserved, List.append_assoc]
        rfl
      · simp only [setPusher, accept, Queue.settle, List.length_append, List.length_singleton]
        exact h.slots.collect hg
      · simp only [setPusher, accept, Queue.settle, hleft]
        exact h.nodup.erase k
      · simp [setPusher, accept, Queue.settle, hleft, h.nodup.mem_erase_iff, hj]
      · simp [setPusher, accept, Queue.settle, hleft, h.nodup.mem_erase_iff, PushPhase.isWaiting]
  | giveUp hp hi hg hr =>
      have hleft := Permits.line_withdraw s.queue.slots k
      refine ⟨h.conserved, h.slots.withdraw k, ?_, h.queued_put rfl (fun j hj => ?_) ?_⟩
      · simp only [Pushing.giveUp, setPusher, Queue.leave, hleft]
        exact h.nodup.erase k
      · simp [Pushing.giveUp, setPusher, Queue.leave, hleft, h.nodup.mem_erase_iff, hj]
      · simp [Pushing.giveUp, setPusher, Queue.leave, hleft, h.nodup.mem_erase_iff, PushPhase.isWaiting]

/-- The state after items have been taken. -/
def popped (s : Pushing κ τ α) (max : Nat) : Pushing κ τ α :=
  { s with queue := (s.queue.pop max).2, taken := s.taken ++ (s.queue.pop max).1 }

section Taking

variable [DecidableEq τ]

theorem take_spec (h : s.step .take = some s') : ∃ a rest, s.queue.buffer = a :: rest ∧
    s' = { s with queue := { s.queue with slots := s.queue.slots.giveBack, buffer := rest }, taken := s.taken ++ [a] } := by
  obtain ⟨⟨a, queue⟩, ha, rfl⟩ := Option.map_eq_some_iff.1 h
  obtain ⟨rest, hbuffer, rfl⟩ := Queue.take?_eq_some ha
  exact ⟨a, rest, hbuffer, rfl⟩

/-- Taking many items is taking one after another. -/
theorem stepwise_take (s : Pushing κ τ α) (max : Nat) :
    stepwise step s (List.replicate (s.queue.pop max).1.length .take) = some (s.popped max) := by
  induction max generalizing s with
  | zero => simp [popped, Queue.pop, stepwise]
  | succ max ih =>
      cases hq : s.queue.take? with
      | none => simp [popped, Queue.pop, hq, stepwise]
      | some e =>
          obtain ⟨a, queue⟩ := e
          have hlater := ih { s with queue, taken := s.taken ++ [a] }
          rw [popped, List.append_assoc] at hlater
          rw [popped, Queue.pop, hq]
          simp only [List.length_cons, List.replicate_succ, stepwise_cons, Pushing.step, hq, Option.map_some,
            Option.bind_some]
          exact hlater

/-- What is kept when one item is taken is kept when many are. -/
theorem popped_keeps {P : Pushing κ τ α → Prop} (first : P s) (keep : ∀ u v, P u → u.step .take = some v → P v)
    (max : Nat) : P (s.popped max) :=
  stepwise_keeps (stepwise_take s max) first fun u _ v hlabel hu hstep =>
    keep u v hu (List.eq_of_mem_replicate hlabel ▸ hstep)

theorem Sound.take (h : s.Sound) (hs : s.step .take = some s') : s'.Sound := by
  obtain ⟨a, rest, hbuffer, rfl⟩ := take_spec hs
  have hslots := h.slots
  rw [hbuffer, List.length_cons] at hslots
  refine ⟨?_, hslots.giveBack, ?_, fun k => ?_⟩
  · simp only [h.conserved, hbuffer, List.append_assoc, List.singleton_append]
  · simp only [Permits.line_giveBack]
    exact h.nodup
  · simp only [Permits.line_giveBack]
    exact h.queued k

theorem Sound.pop (h : s.Sound) (max : Nat) : (s.popped max).Sound :=
  popped_keeps h (fun _ _ hu hstep => hu.take hstep) max

end Taking

theorem Sound.step [DecidableEq τ] {label : PushStep κ τ α} (h : s.Sound) (hs : s.step label = some s') : s'.Sound := by
  cases label with
  | start k token items =>
      simp only [Pushing.step] at hs
      split at hs
      · cases hs
      · rename_i hnew
        cases hs
        have hout : k ∉ s.queue.slots.line := by
          rw [h.queued k]
          rintro ⟨p, hp, -⟩
          simp [hp] at hnew
        exact ⟨h.conserved, h.slots, h.nodup,
          h.queued_put rfl (fun _ _ => .rfl) (by simp [setPusher, hout, PushPhase.isWaiting])⟩
  | turn k =>
      obtain ⟨p, hk, hturn⟩ := Option.bind_eq_some_iff.1 hs
      exact h.turn hk (turns_of_turn hturn)
  | take => exact h.take hs
  | pop max =>
      cases hs
      exact h.pop max
  | fire token =>
      cases hs
      exact ⟨h.conserved, h.slots, h.nodup, h.queued⟩
  | wait millis =>
      cases hs
      exact ⟨h.conserved, h.slots, h.nodup, h.queued⟩

/-- While nobody pushes, the slots in use are those of the items in the buffer. -/
theorem Sound.count_eq (h : s.Sound) (hidle : ∀ k p, s.pushers.get? k = some p → p.isPending = false) :
    s.queue.count = s.queue.buffer.length := by
  have hline : s.queue.slots.line = [] := by
    refine List.eq_nil_iff_forall_not_mem.2 fun k hk => ?_
    obtain ⟨p, hp, hwaits⟩ := (h.queued k).1 hk
    cases (hidle k p hp).symm.trans (Pusher.isPending_of_isWaiting hwaits)
  have hgranted : s.queue.slots.granted = [] := (List.append_eq_nil_iff.1 hline).1
  have htotal := h.slots.total
  rw [hgranted, List.length_nil] at htotal
  rw [Queue.count]
  omega

end Pushing

end PushMetrics.Agent
