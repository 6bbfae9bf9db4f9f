import PushMetrics.Agent.Semaphore
import PushMetrics.Proofs.Dict
import PushMetrics.Proofs.Permits

/-!
# The moves of a semaphore

Each step of a semaphore with the phase in which a task can take it, and the state to which it leads.
-/

namespace PushMetrics.Agent.Semaphore

variable {κ τ : Type} [DecidableEq κ] [DecidableEq τ]

inductive Moves (s : Semaphore κ τ) : SemaphoreStep κ τ → Semaphore κ τ → Prop where
  | refuse {k : κ} {token : τ} (hk : s.tasks.get? k = none) (hf : token ∈ s.fired) :
      Moves s (.acquire k token) (s.setPhase k ⟨token, .cancelled⟩ .cancelled)
  | acquire {k : κ} {token : τ} (hk : s.tasks.get? k = none) (hf : token ∉ s.fired) (hp : 0 < s.permits.free) :
      Moves s (.acquire k token)
        ({ s with permits := (s.permits.request k).2 }.setPhase k ⟨token, .held⟩ .held)
  | queue {k : κ} {token : τ} (hk : s.tasks.get? k = none) (hf : token ∉ s.fired) (hp : s.permits.free = 0) :
      Moves s (.acquire k token)
        ({ s with permits := (s.permits.request k).2 }.setPhase k ⟨token, .waiting⟩ .waiting)
  | cancel {k : κ} {token : τ} (hk : s.tasks.get? k = some ⟨token, .waiting⟩) (hf : token ∈ s.fired) :
      Moves s (.turn k) ({ s with permits := s.permits.withdraw k }.setPhase k ⟨token, .waiting⟩ .cancelled)
  | collect {k : κ} {token : τ} (hk : s.tasks.get? k = some ⟨token, .waiting⟩) (hf : token ∉ s.fired)
      (hg : k ∈ s.permits.granted) :
      Moves s (.turn k) ({ s with permits := s.permits.collect k }.setPhase k ⟨token, .waiting⟩ .held)
  | leave {k : κ} {token : τ} (hk : s.tasks.get? k = some ⟨token, .waiting⟩) :
      Moves s (.leave k) ({ s with permits := s.permits.withdraw k }.setPhase k ⟨token, .waiting⟩ .cancelled)
  | release {k : κ} {token : τ} (hk : s.tasks.get? k = some ⟨token, .held⟩) :
      Moves s (.release k) ({ s with permits := s.permits.giveBack }.setPhase k ⟨token, .held⟩ .released)
  | fire (token : τ) : Moves s (.fire token) { s with fired := token :: s.fired }

variable {s s' : Semaphore κ τ} {label : SemaphoreStep κ τ}

theorem moves_of_step (h : s.step label = some s') : Moves s label s' := by
  cases label with
  | acquire k token =>
      simp only [step] at h
      split at h
      · cases h
      · rename_i hk
        rw [Option.not_isSome_iff_eq_none] at hk
        split at h
        · rename_i hf
          cases h
          exact .refuse hk hf
        · rename_i hf
          by_cases hp : 0 < s.permits.free
          · have hmove := Moves.acquire hk hf hp
            simp only [Permits.request, hp, ↓reduceIte] at h hmove
            cases h
            exact hmove
          · have hmove := Moves.queue hk hf (Nat.eq_zero_of_not_pos hp)
            simp only [Permits.request, hp, Bool.false_eq_true, ↓reduceIte] at h hmove
            cases h
            exact hmove
  | turn k =>
      simp only [step] at h
      split at h
      · rename_i a hk
        obtain ⟨token, phase⟩ := a
        split at h
        · cases h
        · rename_i hphase
          obtain rfl : phase = .waiting := by simpa using hphase
          split at h
          · rename_i hf
            cases h
            exact .cancel hk hf
          · rename_i hf
            split at h
            · rename_i hg
              cases h
              exact .collect hk hf (Permits.isGranted_iff.1 hg)
            · cases h
      · cases h
  | leave k =>
      simp only [step] at h
      split at h
      · rename_i a hk
        obtain ⟨token, phase⟩ := a
        split at h
        · rename_i hphase
          obtain rfl : phase = .waiting := hphase
          cases h
          exact .leave hk
        · cases h
      · cases h
  | release k =>
      simp only [step] at h
      split at h
      · rename_i a hk
        obtain ⟨token, phase⟩ := a
        split at h
        · rename_i hphase
          obtain rfl : phase = .held := hphase
          cases h
          exact .release hk
        · cases h
      · cases h
  | fire token =>
      cases h
      exact .fire token

/-- A step of one task leaves the tokens and the other tasks alone. -/
structure Touches (s s' : Semaphore κ τ) (k : κ) : Prop where
  fired : s'.fired = s.fired
  others : ∀ j, k ≠ j → s'.tasks.get? j = s.tasks.get? j

omit [DecidableEq τ] in
theorem touches_setPhase (permits : Permits κ) (k : κ) (a : Acquirer τ) (phase : AcquirePhase) :
    Touches s ({ s with permits }.setPhase k a phase) k :=
  ⟨rfl, fun _ hj => Dict.get?_put_of_ne _ _ hj⟩

theorem acquire_spec {k : κ} {token : τ} (h : s.step (.acquire k token) = some s') :
    Touches s s' k ∧ s.tasks.get? k = none ∧
      (token ∈ s.fired ∧ s'.tasks.get? k = some ⟨token, .cancelled⟩ ∨
        token ∉ s.fired ∧ (s'.tasks.get? k = some ⟨token, .held⟩ ∨ s'.tasks.get? k = some ⟨token, .waiting⟩)) := by
  cases moves_of_step h with
  | refuse hk hf => exact ⟨touches_setPhase _ _ _ _, hk, .inl ⟨hf, Dict.get?_put_self _ _ _⟩⟩
  | acquire hk hf hp => exact ⟨touches_setPhase _ _ _ _, hk, .inr ⟨hf, .inl (Dict.get?_put_self _ _ _)⟩⟩
  | queue hk hf hp => exact ⟨touches_setPhase _ _ _ _, hk, .inr ⟨hf, .inr (Dict.get?_put_self _ _ _)⟩⟩

theorem turn_spec {k : κ} (h : s.step (.turn k) = some s') :
    Touches s s' k ∧ ∃ token, s.tasks.get? k = some ⟨token, .waiting⟩ ∧
      (token ∈ s.fired ∧ s'.tasks.get? k = some ⟨token, .cancelled⟩ ∨
        token ∉ s.fired ∧ s'.tasks.get? k = some ⟨token, .held⟩) := by
  cases moves_of_step h with
  | cancel hk hf => exact ⟨touches_setPhase _ _ _ _, _, hk, .inl ⟨hf, Dict.get?_put_self _ _ _⟩⟩
  | collect hk hf hg => exact ⟨touches_setPhase _ _ _ _, _, hk, .inr ⟨hf, Dict.get?_put_self _ _ _⟩⟩

theorem leave_spec {k : κ} (h : s.step (.leave k) = some s') : Touches s s' k := by
  cases moves_of_step h with
  | leave hk => exact touches_setPhase _ _ _ _

theorem release_spec {k : κ} (h : s.step (.release k) = some s') : Touches s s' k := by
  cases moves_of_step h with
  | release hk => exact touches_setPhase _ _ _ _

/-! ## Balance -/

/-- How many tasks hold a permit. -/
def holders (s : Semaphore κ τ) : Nat := s.tasks.count (·.phase == .held)

/-- Each of the permits is free, granted or held, and those in line are the tasks that wait. -/
structure Sound (s : Semaphore κ τ) (size : Nat) : Prop where
  balanced : s.permits.Balanced size s.holders
  nodup : s.permits.line.Nodup
  queued : ∀ k, k ∈ s.permits.line ↔ ∃ token, s.tasks.get? k = some ⟨token, .waiting⟩

omit [DecidableEq τ] in
theorem sound_fresh (size : Nat) : (fresh size : Semaphore κ τ).Sound size where
  balanced := Permits.balanced_full size
  nodup := List.nodup_nil
  queued k := by simp [fresh]

variable {permits : Permits κ} {k : κ} {a : Acquirer τ} {phase : AcquirePhase} {size : Nat}

omit [DecidableEq τ] in
theorem holders_setPhase (s : Semaphore κ τ) (permits : Permits κ) (k : κ) (a : Acquirer τ) (phase : AcquirePhase) :
    ({ s with permits }.setPhase k a phase).holders + (if s.phase? k = some .held then 1 else 0)
      = s.holders + if phase = .held then 1 else 0 := by
  have hput := Dict.count_put (·.phase == .held) s.tasks k ({ a with phase } : Acquirer τ)
  have hbefore : (s.tasks.get? k).toList.countP (·.phase == .held) = if s.phase? k = some .held then 1 else 0 := by
    unfold phase?
    cases s.tasks.get? k <;> simp
  rw [hbefore] at hput
  simpa [holders, setPhase] using hput

omit [DecidableEq τ] in
/-- A task changes its phase, and its place in line with it. -/
theorem Sound.setPhase (h : s.Sound size) (hnodup : permits.line.Nodup)
    (hbalanced : permits.Balanced size ({ s with permits }.setPhase k a phase).holders)
    (hself : k ∈ permits.line ↔ phase = .waiting) (hothers : ∀ j, k ≠ j → (j ∈ permits.line ↔ j ∈ s.permits.line)) :
    ({ s with permits }.setPhase k a phase).Sound size where
  balanced := hbalanced
  nodup := hnodup
  queued j := by
    by_cases hj : k = j
    · subst hj
      simp only [Semaphore.setPhase, Dict.get?_put_self]
      simpa using hself
    · rw [(touches_setPhase permits k a phase).others j hj]
      exact (hothers j hj).trans (h.queued j)

omit [DecidableEq τ] in
theorem Sound.not_mem_line (h : s.Sound size) (hk : s.phase? k ≠ some .waiting) : k ∉ s.permits.line := by
  intro hin
  obtain ⟨token, hwaiting⟩ := (h.queued k).1 hin
  exact hk (by simp [phase?, hwaiting])

omit [DecidableEq τ] in
theorem Sound.withdraw (h : s.Sound size) {token : τ} (hk : s.tasks.get? k = some ⟨token, .waiting⟩) :
    ({ s with permits := s.permits.withdraw k }.setPhase k a .cancelled).Sound size := by
  have hline := Permits.line_withdraw s.permits k
  have hcount : ({ s with permits := s.permits.withdraw k }.setPhase k a .cancelled).holders = s.holders := by
    simpa [phase?, hk] using holders_setPhase s (s.permits.withdraw k) k a .cancelled
  refine h.setPhase (hline ▸ h.nodup.erase k) (hcount ▸ h.balanced.withdraw k) ?_ fun j hj => ?_
  · simp [hline, h.nodup.mem_erase_iff]
  · rw [hline, List.mem_erase_of_ne (Ne.symm hj)]

omit [DecidableEq τ] in
theorem Sound.moves (h : s.Sound size) (hm : Moves s label s') : s'.Sound size := by
  cases hm with
  | @refuse k token hk hf =>
      have hcount := holders_setPhase s s.permits k ⟨token, .cancelled⟩ .cancelled
      have hout := h.not_mem_line (k := k) (by simp [phase?, hk])
      refine h.setPhase h.nodup ?_ (by simp [hout]) fun _ _ => Iff.rfl
      simp only [phase?, hk, Option.map_none, reduceCtorEq, ↓reduceIte, Nat.add_zero] at hcount
      exact hcount ▸ h.balanced
  | @acquire k token hk hf hp =>
      obtain ⟨hflag, hbalanced⟩ := h.balanced.request_of_free hp k
      have hcount := holders_setPhase s (s.permits.request k).2 k ⟨token, .held⟩ .held
      have hline : (s.permits.request k).2.line = s.permits.line := by rw [Permits.line_request, if_pos hflag]
      have hout := h.not_mem_line (k := k) (by simp [phase?, hk])
      refine h.setPhase (hline ▸ h.nodup) ?_ (by simp [hline, hout]) fun _ _ => by rw [hline]
      simp only [phase?, hk, Option.map_none, reduceCtorEq, ↓reduceIte, Nat.add_zero] at hcount
      exact hcount ▸ hbalanced
  | @queue k token hk hf hp =>
      obtain ⟨hflag, hbalanced⟩ := h.balanced.request_of_full hp k
      have hcount := holders_setPhase s (s.permits.request k).2 k ⟨token, .waiting⟩ .waiting
      have hline : (s.permits.request k).2.line = s.permits.line ++ [k] := by simp [Permits.line_request, hflag]
      have hout := h.not_mem_line (k := k) (by simp [phase?, hk])
      refine h.setPhase ?_ ?_ (by simp [hline]) fun j hj => by simp [hline, Ne.symm hj]
      · rw [hline]
        exact List.nodup_append.2 ⟨h.nodup, by simp, fun i hi j hj he => hout (List.mem_singleton.1 hj ▸ he ▸ hi)⟩
      · simp only [phase?, hk, Option.map_none, reduceCtorEq, ↓reduceIte, Nat.add_zero] at hcount
        exact hcount ▸ hbalanced
  | cancel hk hf => exact h.withdraw hk
  | @collect k token hk hf hg =>
      have hcount := holders_setPhase s (s.permits.collect k) k ⟨token, .waiting⟩ .held
      have hline := Permits.line_collect hg
      refine h.setPhase (hline ▸ h.nodup.erase k) ?_ ?_ fun j hj => ?_
      · simp only [phase?, hk, Option.map_some, Option.some.injEq, reduceCtorEq, ↓reduceIte, Nat.add_zero] at hcount
        exact hcount ▸ h.balanced.collect hg
      · simp [hline, h.nodup.mem_erase_iff]
      · rw [hline, List.mem_erase_of_ne (Ne.symm hj)]
  | leave hk => exact h.withdraw hk
  | @release k token hk =>
      have hcount := holders_setPhase s s.permits.giveBack k ⟨token, .held⟩ .released
      have hout := h.not_mem_line (k := k) (by simp [phase?, hk])
      refine h.setPhase (by simpa using h.nodup) ?_ (by simpa using hout) fun _ _ => by simp
      simp only [phase?, hk, Option.map_some, reduceCtorEq, ↓reduceIte, Nat.add_zero] at hcount
      exact Permits.Balanced.giveBack (hcount ▸ h.balanced)
  | fire token => exact ⟨h.balanced, h.nodup, h.queued⟩

theorem Sound.step (h : s.Sound size) (hs : s.step label = some s') : s'.Sound size := h.moves (moves_of_step hs)

/-! ## Giving back -/

theorem phase?_release (h : s.step (.release k) = some s') : s'.phase? k = some .released := by
  cases moves_of_step h with
  | release hk => simp [phase?, Semaphore.setPhase]

theorem phase?_leave (h : s.step (.leave k) = some s') : s'.phase? k = some .cancelled := by
  cases moves_of_step h with
  | leave hk => simp [phase?, Semaphore.setPhase]

/-- A held permit is held on or given back to the pool by its holder. -/
theorem held_or_released (h : s.step label = some s') {j : κ} (hj : s.phase? j = some .held) :
    s'.phase? j = some .held ∨
      label = .release j ∧ s'.phase? j = some .released ∧ s'.permits = s.permits.giveBack := by
  have hkeep : ∀ {k : κ} {a : Option (Acquirer τ)}, s.tasks.get? k = a → Touches s s' k →
      a.map (·.phase) ≠ some .held → s'.phase? j = some .held := by
    intro k a hk ht hfree
    have hne : k ≠ j := by
      rintro rfl
      exact hfree (hk ▸ hj)
    rw [phase?, ht.others j hne, ← phase?, hj]
  cases moves_of_step h with
  | refuse hk hf => exact .inl (hkeep hk (touches_setPhase _ _ _ _) (by simp))
  | acquire hk hf hp => exact .inl (hkeep hk (touches_setPhase _ _ _ _) (by simp))
  | queue hk hf hp => exact .inl (hkeep hk (touches_setPhase _ _ _ _) (by simp))
  | cancel hk hf => exact .inl (hkeep hk (touches_setPhase _ _ _ _) (by simp))
  | collect hk hf hg => exact .inl (hkeep hk (touches_setPhase _ _ _ _) (by simp))
  | leave hk => exact .inl (hkeep hk (touches_setPhase _ _ _ _) (by simp))
  | @release k token hk =>
      by_cases hkj : k = j
      · subst hkj
        exact .inr ⟨rfl, by simp [phase?, setPhase], rfl⟩
      · left
        rw [phase?, (touches_setPhase _ _ _ _).others j hkj, ← phase?, hj]
  | fire token => exact .inl hj

/-- Who has given a permit back, or has got none, asks for none again. -/
theorem final_stays (h : s.step label = some s') {j : κ} {phase : AcquirePhase} (hj : s.phase? j = some phase)
    (hfinal : phase = .released ∨ phase = .cancelled) : s'.phase? j = some phase := by
  have hkeep : ∀ {k : κ} {a : Option (Acquirer τ)}, s.tasks.get? k = a → Touches s s' k →
      a.map (·.phase) ≠ some .released ∧ a.map (·.phase) ≠ some .cancelled → s'.phase? j = some phase := by
    rintro k a hk ht ⟨hreleased, hcancelled⟩
    have hne : k ≠ j := by
      rintro rfl
      rw [phase?, hk] at hj
      rcases hfinal with rfl | rfl
      · exact hreleased hj
      · exact hcancelled hj
    rw [phase?, ht.others j hne, ← phase?, hj]
  cases moves_of_step h with
  | refuse hk hf => exact hkeep hk (touches_setPhase _ _ _ _) (by simp)
  | acquire hk hf hp => exact hkeep hk (touches_setPhase _ _ _ _) (by simp)
  | queue hk hf hp => exact hkeep hk (touches_setPhase _ _ _ _) (by simp)
  | cancel hk hf => exact hkeep hk (touches_setPhase _ _ _ _) (by simp)
  | collect hk hf hg => exact hkeep hk (touches_setPhase _ _ _ _) (by simp)
  | leave hk => exact hkeep hk (touches_setPhase _ _ _ _) (by simp)
  | release hk => exact hkeep hk (touches_setPhase _ _ _ _) (by simp)
  | fire token => exact hj

end PushMetrics.Agent.Semaphore
