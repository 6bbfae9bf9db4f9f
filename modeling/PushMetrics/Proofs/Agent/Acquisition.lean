import PushMetrics.Proofs.Agent.Semaphore
import PushMetrics.Proofs.Run

/-!
# Permits in the order of arrival

Nobody is granted a permit before those who have waited longer. A task whose token has been fired gets none: a permit
that has just been granted to it goes to the next in line or back to the pool. When no task can run any more, nobody
waits while a permit is free.
-/

namespace PushMetrics.Agent.Semaphore

variable {κ τ : Type} [DecidableEq κ] [DecidableEq τ]
variable {s s' t : Semaphore κ τ} {label : SemaphoreStep κ τ} {size : Nat} {j k : κ} {token : τ}

theorem sound_of_stepwise {labels : List (SemaphoreStep κ τ)} (h : stepwise step (fresh size) labels = some s) :
    s.Sound size :=
  stepwise_keeps (P := fun s => s.Sound size) h (sound_fresh size) fun _ _ _ _ hsound hs => hsound.step hs

omit [DecidableEq τ] in
@[simp] theorem phase?_setPhase (s : Semaphore κ τ) (permits : Permits κ) (i : κ) (a : Acquirer τ)
    (phase : AcquirePhase) (k : κ) :
    ({ s with permits }.setPhase i a phase).phase? k = if i = k then some phase else s.phase? k := by
  simp only [phase?, setPhase, Dict.get?_put]
  split <;> rfl

omit [DecidableEq τ] in
theorem phase?_eq_none : s.phase? k = none ↔ s.tasks.get? k = none := by simp [phase?]

/-! ## The order of arrival -/

/-- A task has been granted a permit, whether or not it has collected it or given it back. -/
def HasBeenGranted (s : Semaphore κ τ) (k : κ) : Prop :=
  k ∈ s.permits.granted ∨ s.phase? k = some .held ∨ s.phase? k = some .released

/-- As long as `j`, which has come before, waits for a permit, `k` has not been granted one. -/
structure Precedes (s : Semaphore κ τ) (j k : κ) : Prop where
  arrived : s.phase? j ≠ none
  behind : s.permits.Behind j k
  unserved : j ∈ s.permits.waiting → s.phase? k ≠ some .held ∧ s.phase? k ≠ some .released

omit [DecidableEq τ] in
theorem Sound.precedes (h : s.Sound size) (hj : s.phase? j ≠ none) (hk : s.phase? k = none) : s.Precedes j k where
  arrived := hj
  behind := Permits.behind_of_notMem (h.not_mem_line (by simp [hk]))
  unserved := by simp [hk]

omit [DecidableEq τ] in
theorem Precedes.notMem_waiting (h : s.Precedes j k) (hs : s.Sound size) (hk : s.HasBeenGranted k) :
    j ∉ s.permits.waiting := by
  rcases hk with hgranted | hheld | hreleased
  · exact h.behind.notMem_waiting hs.nodup hgranted
  · exact fun hj => (h.unserved hj).1 hheld
  · exact fun hj => (h.unserved hj).2 hreleased

omit [DecidableEq τ] in
/-- A task other than those that have been granted a permit changes its phase, and the pool goes on. -/
theorem Precedes.setPhase (h : s.Precedes j k) {permits : Permits κ} {i : κ} {a : Acquirer τ} {phase : AcquirePhase}
    (hbehind : permits.Behind j k) (hwaiting : j ∈ permits.waiting → j ∈ s.permits.waiting)
    (hserved : i = k → (phase = .held ∨ phase = .released) → j ∉ permits.waiting) :
    ({ s with permits }.setPhase i a phase).Precedes j k where
  arrived := by
    rw [phase?_setPhase]
    split
    · simp
    · exact h.arrived
  behind := hbehind
  unserved := by
    intro hj
    rw [phase?_setPhase]
    split
    · rename_i hik
      constructor
      · intro hheld
        exact hserved hik (.inl (Option.some.inj hheld)) hj
      · intro hreleased
        exact hserved hik (.inr (Option.some.inj hreleased)) hj
    · exact h.unserved (hwaiting hj)

omit [DecidableEq τ] in
theorem Precedes.moves (h : s.Precedes j k) (hs : s.Sound size) (hm : Moves s label s') : s'.Precedes j k := by
  have hnew : ∀ {i : κ}, s.tasks.get? i = none → i ≠ j := by
    rintro i hi rfl
    exact h.arrived (phase?_eq_none.2 hi)
  cases hm with
  | refuse hi hf => exact h.setPhase h.behind (fun hj => hj) (by simp)
  | @acquire i token hi hf hp =>
      have hnone := hs.balanced.waiting_request hp i
      refine h.setPhase (h.behind.request (hnew hi)) ?_ ?_ <;> simp [hnone]
  | @queue i token hi hf hp =>
      have hij := hnew hi
      refine h.setPhase (h.behind.request hij) (fun hj => ?_) (by simp)
      rw [Permits.request, if_neg (by omega)] at hj
      simpa [Ne.symm hij] using hj
  | @cancel i token hi hf =>
      exact h.setPhase (h.behind.withdraw hs.nodup i) (fun hj => (s.permits.waiting_withdraw_sublist i).subset hj)
        (by simp)
  | @collect i token hi hf hg =>
      refine h.setPhase (h.behind.collect hg) id fun hik _ => ?_
      subst hik
      exact h.behind.notMem_waiting hs.nodup hg
  | @leave i token hi =>
      exact h.setPhase (h.behind.withdraw hs.nodup i) (fun hj => (s.permits.waiting_withdraw_sublist i).subset hj)
        (by simp)
  | @release i token hi =>
      have hsub := s.permits.waiting_giveBack_sublist.subset
      refine h.setPhase (h.behind.giveBack hs.nodup) (fun hj => hsub hj) fun hik _ hj => ?_
      subst hik
      exact (h.unserved (hsub hj)).1 (by simp [phase?, hi])
  | fire token => exact ⟨h.arrived, h.behind, h.unserved⟩

theorem precedes_of_stepwise {more : List (SemaphoreStep κ τ)} (hs : s.Sound size) (h : s.Precedes j k)
    (ht : stepwise step s more = some t) : t.Sound size ∧ t.Precedes j k :=
  stepwise_keeps (P := fun s => s.Sound size ∧ s.Precedes j k) ht ⟨hs, h⟩ fun _ _ _ _ ⟨hsound, hprecedes⟩ hstep =>
    ⟨hsound.step hstep, hprecedes.moves hsound (moves_of_step hstep)⟩

/-! ## When all have run -/

/-- No task can run. -/
def IsSettled (s : Semaphore κ τ) : Prop := ∀ k, s.step (.turn k) = none

theorem step_turn_of_fired (hk : s.tasks.get? k = some ⟨token, .waiting⟩) (hf : token ∈ s.fired) :
    s.step (.turn k)
      = some ({ s with permits := s.permits.withdraw k }.setPhase k ⟨token, .waiting⟩ .cancelled) := by
  simp [step, hk, hf]

theorem step_turn_of_granted (hk : s.tasks.get? k = some ⟨token, .waiting⟩) (hf : token ∉ s.fired)
    (hg : k ∈ s.permits.granted) :
    s.step (.turn k) = some ({ s with permits := s.permits.collect k }.setPhase k ⟨token, .waiting⟩ .held) := by
  simp [step, hk, hf, Permits.isGranted, hg]

theorem IsSettled.not_fired (h : s.IsSettled) (hk : s.tasks.get? k = some ⟨token, .waiting⟩) : token ∉ s.fired := by
  intro hf
  have hnone := h k
  rw [step_turn_of_fired hk hf] at hnone
  cases hnone

theorem IsSettled.granted_eq_nil (h : s.IsSettled) (hs : s.Sound size) : s.permits.granted = [] := by
  rw [List.eq_nil_iff_forall_not_mem]
  intro k hg
  obtain ⟨token, hk⟩ := (hs.queued k).1 (List.mem_append_left _ hg)
  have hnone := h k
  rw [step_turn_of_granted hk (h.not_fired hk) hg] at hnone
  cases hnone

theorem IsSettled.not_waiting (h : s.IsSettled) (hs : s.Sound size) (hf : 0 < s.permits.free) (k : κ) :
    s.phase? k ≠ some .waiting := by
  intro hk
  obtain ⟨⟨token, phase⟩, ha, rfl⟩ := Option.map_eq_some_iff.1 hk
  have hin := (hs.queued k).2 ⟨token, ha⟩
  have hidle : s.permits.waiting = [] := hs.balanced.idle.resolve_right (by omega)
  simp [Permits.line, h.granted_eq_nil hs, hidle] at hin

def waiters (s : Semaphore κ τ) : Nat := s.tasks.count (·.phase == .waiting)

theorem waiters_of_turn (h : s.step (.turn k) = some t) : t.waiters + 1 = s.waiters := by
  have hput : ∀ {token : τ} (phase : AcquirePhase), phase ≠ .waiting →
      s.tasks.get? k = some ⟨token, .waiting⟩ →
      (s.tasks.put k ⟨token, phase⟩).count (·.phase == .waiting) + 1 = s.waiters := by
    intro token phase hphase hk
    have hcount := Dict.count_put (·.phase == .waiting) s.tasks k (⟨token, phase⟩ : Acquirer τ)
    simpa [hk, hphase, waiters] using hcount
  cases moves_of_step h with
  | cancel hk hf => exact hput .cancelled (by simp) hk
  | collect hk hf hg => exact hput .held (by simp) hk

theorem isSettled_of_runnable? (h : s.runnable? = none) : s.IsSettled := by
  intro k
  cases hk : s.tasks.get? k with
  | none => simp [step, hk]
  | some a =>
      have hin : k ∈ s.tasks.keys := Dict.mem_keys_iff.2 (by simp [hk])
      exact List.findSome?_eq_none_iff.1 h k hin

/-- As many turns as there are waiting tasks are enough. -/
theorem settleWithin_spec {fuel : Nat} (hfuel : s.waiters ≤ fuel) :
    (settleWithin fuel s).IsSettled ∧
      ∃ ks : List κ, stepwise step s (ks.map .turn) = some (settleWithin fuel s) := by
  induction fuel generalizing s with
  | zero =>
      refine ⟨fun k => ?_, [], rfl⟩
      cases hstep : s.step (.turn k) with
      | none => exact hstep
      | some t =>
          have := waiters_of_turn hstep
          omega
  | succ fuel ih =>
      unfold settleWithin
      cases hrun : s.runnable? with
      | none => exact ⟨isSettled_of_runnable? hrun, [], rfl⟩
      | some t =>
          obtain ⟨k, -, hstep⟩ := List.exists_of_findSome?_eq_some hrun
          have hfewer := waiters_of_turn hstep
          obtain ⟨hsettled, ks, hks⟩ := ih (s := t) (by omega)
          refine ⟨hsettled, k :: ks, ?_⟩
          rw [List.map_cons, stepwise_cons, hstep]
          exact hks

theorem settle_spec (s : Semaphore κ τ) :
    s.settle.IsSettled ∧ ∃ ks : List κ, stepwise step s (ks.map .turn) = some s.settle := by
  refine settleWithin_spec ?_
  have hle := List.countP_le_length (p := fun a : Acquirer τ => a.phase == .waiting) (l := s.tasks.values)
  simpa [waiters, Dict.count, Dict.size, Dict.values] using hle

/-! ## Fired tokens -/

/-- The token of a task has been fired before the task has taken a permit. -/
structure Refuses (s : Semaphore κ τ) (k : κ) (token : τ) : Prop where
  fired : token ∈ s.fired
  phase : s.tasks.get? k = some ⟨token, .waiting⟩ ∨ s.tasks.get? k = some ⟨token, .cancelled⟩

omit [DecidableEq τ] in
theorem Refuses.moves (h : s.Refuses k token) (hm : Moves s label s') : s'.Refuses k token := by
  have hkeep : ∀ {i : κ} {b : Option (Acquirer τ)}, s.tasks.get? i = b → Touches s s' i →
      b ≠ some ⟨token, .waiting⟩ → b ≠ some ⟨token, .cancelled⟩ → s'.Refuses k token := by
    intro i b hi ht hwaiting hcancelled
    have hne : i ≠ k := by
      rintro rfl
      rcases h.phase with hk | hk
      · exact hwaiting (hi.symm.trans hk)
      · exact hcancelled (hi.symm.trans hk)
    refine ⟨ht.fired ▸ h.fired, ?_⟩
    rw [ht.others k hne]
    exact h.phase
  have hcancel : ∀ {i : κ} {other : τ}, s.tasks.get? i = some ⟨other, .waiting⟩ → Touches s s' i →
      s'.tasks.get? i = some ⟨other, .cancelled⟩ → s'.Refuses k token := by
    intro i other hi ht hafter
    by_cases hik : i = k
    · subst hik
      obtain rfl : other = token := by
        rcases h.phase with hk | hk
        · cases hi.symm.trans hk
          rfl
        · cases hi.symm.trans hk
      exact ⟨ht.fired ▸ h.fired, .inr hafter⟩
    · refine ⟨ht.fired ▸ h.fired, ?_⟩
      rw [ht.others k hik]
      exact h.phase
  cases hm with
  | refuse hi hf => exact hkeep hi (touches_setPhase s.permits _ _ _) (by simp) (by simp)
  | acquire hi hf hp => exact hkeep hi (touches_setPhase _ _ _ _) (by simp) (by simp)
  | queue hi hf hp => exact hkeep hi (touches_setPhase _ _ _ _) (by simp) (by simp)
  | cancel hi hf => exact hcancel hi (touches_setPhase _ _ _ _) (Dict.get?_put_self _ _ _)
  | collect hi hf hg =>
      refine hkeep hi (touches_setPhase _ _ _ _) (fun heq => hf ?_) (by simp)
      cases heq
      exact h.fired
  | leave hi => exact hcancel hi (touches_setPhase _ _ _ _) (Dict.get?_put_self _ _ _)
  | release hi => exact hkeep hi (touches_setPhase _ _ _ _) (by simp) (by simp)
  | fire other => exact ⟨List.mem_cons_of_mem other h.fired, h.phase⟩

theorem refuses_of_stepwise {more : List (SemaphoreStep κ τ)} (h : s.Refuses k token)
    (ht : stepwise step s more = some t) : t.Refuses k token :=
  stepwise_keeps (P := fun s => s.Refuses k token) ht h fun _ _ _ _ hrefuses hstep =>
    hrefuses.moves (moves_of_step hstep)

omit [DecidableEq τ] in
theorem holders_of_fired (hk : s.tasks.get? k = some ⟨token, .waiting⟩) (permits : Permits κ) (a : Acquirer τ) :
    ({ s with permits }.setPhase k a .cancelled).holders = s.holders := by
  simpa [phase?, hk] using holders_setPhase s permits k a .cancelled

omit [DecidableEq τ] in
theorem phase?_of_get? {phase : AcquirePhase} (hk : s.tasks.get? k = some ⟨token, phase⟩) :
    s.phase? k = some phase := by
  simp [phase?, hk]

theorem acquire_of_fired (hk : s.phase? k = none) (hf : token ∈ s.fired) :
    ∃ t, s.step (.acquire k token) = some t ∧ t.phase? k = some .cancelled ∧ t.permits = s.permits := by
  refine ⟨s.setPhase k ⟨token, .cancelled⟩ .cancelled, ?_, ?_, rfl⟩
  · simp [step, phase?_eq_none.1 hk, hf]
  · simp [phase?, setPhase]

theorem turn_of_fired (hk : s.tasks.get? k = some ⟨token, .waiting⟩) (hf : token ∈ s.fired) :
    ∃ t, s.step (.turn k) = some t ∧ t.phase? k = some .cancelled ∧ t.holders = s.holders ∧
      s.permits.PassedOn k t.permits := by
  refine ⟨_, step_turn_of_fired hk hf, ?_, holders_of_fired hk _ _, Permits.passedOn_withdraw s.permits k⟩
  simp

theorem Refuses.phase?_eq (h : s.Refuses k token) :
    (s.phase? k = some .waiting ∨ s.phase? k = some .cancelled) ∧ (s.IsSettled → s.phase? k = some .cancelled) := by
  rcases h.phase with hwaiting | hcancelled
  · exact ⟨.inl (phase?_of_get? hwaiting), fun hsettled => absurd h.fired (hsettled.not_fired hwaiting)⟩
  · exact ⟨.inr (phase?_of_get? hcancelled), fun _ => phase?_of_get? hcancelled⟩

/-- However tasks acquire and release permits and tokens are fired, no more than `size` permits are held and none is
lost; who has waited longer is granted one first; nobody is left waiting while one is free; and who acquires one with
a fired token is refused and leaves what has been granted to it to the next. -/
theorem permits_in_order {labels : List (SemaphoreStep κ τ)} (h : stepwise step (fresh size) labels = some s) :
    (s.holders ≤ size ∧ s.permits.free + s.holders + s.permits.granted.length = size) ∧
    (∀ j k, s.phase? j = some .waiting → s.phase? k = none →
      ∀ more t, stepwise step s more = some t → t.HasBeenGranted k → j ∉ t.permits.waiting) ∧
    (s.IsSettled → 0 < s.permits.free → ∀ k, s.phase? k ≠ some .waiting) ∧
    (s.settle.IsSettled ∧ ∃ ks : List κ, stepwise step s (ks.map .turn) = some s.settle) ∧
    (∀ k token, token ∈ s.fired → s.phase? k = none →
      ∃ t, s.step (.acquire k token) = some t ∧ t.phase? k = some .cancelled ∧ t.permits = s.permits) ∧
    (∀ k token, token ∈ s.fired → s.tasks.get? k = some ⟨token, .waiting⟩ →
      (∃ t, s.step (.turn k) = some t ∧ t.phase? k = some .cancelled ∧ t.holders = s.holders ∧
        s.permits.PassedOn k t.permits) ∧
      ∀ more t, stepwise step s more = some t →
        (t.phase? k = some .waiting ∨ t.phase? k = some .cancelled) ∧
        (t.IsSettled → t.phase? k = some .cancelled)) := by
  have hs := sound_of_stepwise h
  have htotal := hs.balanced.total
  refine ⟨⟨by omega, by omega⟩, ?_, fun hsettled hfree => hsettled.not_waiting hs hfree, s.settle_spec, ?_, ?_⟩
  · intro j k hj hk more t ht hgranted
    have harrived : s.phase? j ≠ none := by simp [hj]
    obtain ⟨hsound, hprecedes⟩ := precedes_of_stepwise hs (hs.precedes harrived hk) ht
    exact hprecedes.notMem_waiting hsound hgranted
  · intro k token hf hk
    exact acquire_of_fired hk hf
  · intro k token hf hk
    refine ⟨turn_of_fired hk hf, fun more t ht => ?_⟩
    have hrefuses : s.Refuses k token := ⟨hf, .inl hk⟩
    exact (refuses_of_stepwise hrefuses ht).phase?_eq

/-- One permit, which passes to the second in line after the first has been granted it and its token has fired. -/
def passing : List (SemaphoreStep Nat Nat) :=
  [.acquire 0 0, .acquire 1 1, .acquire 2 2, .release 0, .fire 1]

theorem permits_in_order_passing :
    ∃ s, stepwise step (fresh 1) passing = some s ∧ 1 ∈ s.permits.granted ∧ s.phase? 3 = none ∧
      (s.permits.free + s.holders + s.permits.granted.length = 1) ∧
      (∀ more t, stepwise step s more = some t → t.HasBeenGranted 3 → 2 ∉ t.permits.waiting) ∧
      ∃ t, s.step (.turn 1) = some t ∧ t.phase? 1 = some .cancelled ∧ t.holders = s.holders ∧
        s.permits.PassedOn 1 t.permits := by
  have hrun : ∃ s, stepwise step (fresh 1) passing = some s ∧ 1 ∈ s.permits.granted ∧ s.phase? 3 = none ∧
      s.phase? 2 = some .waiting ∧ 1 ∈ s.fired ∧ s.tasks.get? 1 = some ⟨1, .waiting⟩ :=
    ⟨_, rfl, by decide⟩
  obtain ⟨s, hs, hgranted, hlast, hwaits, hfired, hfirst⟩ := hrun
  obtain ⟨⟨-, htotal⟩, horder, -, -, -, hpassed⟩ := permits_in_order hs
  exact ⟨s, hs, hgranted, hlast, htotal, horder 2 3 hwaits hlast, (hpassed 1 1 hfired hfirst).1⟩

end PushMetrics.Agent.Semaphore
