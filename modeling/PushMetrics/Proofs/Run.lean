import Mathlib.Data.List.Basic
import Mathlib.Data.List.Induction

/-!
# Runs

A machine is a function from a state and a label to the next state, if there is one. A run takes one step for
each label. What every step keeps holds after every run.
-/

namespace PushMetrics

variable {σ α : Type}

/-- The state after steps taken one after another, if each can be taken. -/
def stepwise (step : σ → α → Option σ) : σ → List α → Option σ
  | s, [] => some s
  | s, a :: rest => (step s a).bind (stepwise step · rest)

variable {step : σ → α → Option σ} {s t u : σ} {a : α} {labels more : List α}

theorem stepwise_cons : stepwise step s (a :: labels) = (step s a).bind (stepwise step · labels) := rfl

theorem stepwise_append :
    stepwise step s (labels ++ more) = (stepwise step s labels).bind (stepwise step · more) := by
  induction labels generalizing s with
  | nil => rfl
  | cons a labels ih =>
      rw [List.cons_append, stepwise_cons, stepwise_cons, Option.bind_assoc]
      exact congrArg _ (funext fun s => ih)

theorem stepwise_trans (h : stepwise step s labels = some t) (k : stepwise step t more = some u) :
    stepwise step s (labels ++ more) = some u := by
  rw [stepwise_append, h]
  exact k

/-- What holds at first and is kept by every step with a label of the run holds after the run. -/
theorem stepwise_keeps {P : σ → Prop} (h : stepwise step s labels = some t) (first : P s)
    (keep : ∀ s a t, a ∈ labels → P s → step s a = some t → P t) : P t := by
  induction labels generalizing s with
  | nil =>
      cases h
      exact first
  | cons a labels ih =>
      obtain ⟨r, hr, hrest⟩ := Option.bind_eq_some_iff.1 h
      exact ih hrest (keep s a r List.mem_cons_self first hr)
        fun s b t hb => keep s b t (List.mem_cons_of_mem a hb)

theorem stepwise_snoc :
    stepwise step s (labels ++ [a]) = some u ↔ ∃ t, stepwise step s labels = some t ∧ step t a = some u := by
  simp [stepwise_append, Option.bind_eq_some_iff, stepwise]

/-- What holds at first and passes from one moment of a run to the next, with the labels so far, holds at its end. -/
theorem stepwise_induction {P : List α → σ → Prop} (h : stepwise step s labels = some t) (first : P [] s)
    (next : ∀ sooner u a v, sooner ++ [a] <+: labels → stepwise step s sooner = some u → P sooner u →
      step u a = some v → P (sooner ++ [a]) v) : P labels t := by
  induction labels using List.reverseRecOn generalizing t with
  | nil =>
      cases h
      exact first
  | append_singleton sooner a ih =>
      obtain ⟨u, hu, hstep⟩ := stepwise_snoc.1 h
      have hsooner := ih hu fun earlier v b w hpart => next earlier v b w (hpart.trans (List.prefix_append _ _))
      exact next sooner u a t (List.prefix_refl _) hu hsooner hstep

/-- At some moment of a run the state and the step that is taken are as a property says. -/
def Meets (step : σ → α → Option σ) (P : σ → α → Prop) (s : σ) (labels : List α) : Prop :=
  ∃ sooner a later t, labels = sooner ++ a :: later ∧ stepwise step s sooner = some t ∧ P t a

theorem not_meets_nil {P : σ → α → Prop} : ¬Meets step P s [] := by
  rintro ⟨sooner, a, later, t, hlabels, -⟩
  exact List.append_ne_nil_of_right_ne_nil sooner (List.cons_ne_nil a later) hlabels.symm

theorem meets_cons {P : σ → α → Prop} :
    Meets step P s (a :: labels) ↔ P s a ∨ ∃ t ∈ step s a, Meets step P t labels := by
  constructor
  · rintro ⟨sooner, b, later, u, hlabels, hu, hp⟩
    cases sooner with
    | nil =>
        cases hlabels
        cases hu
        exact .inl hp
    | cons a' sooner =>
        obtain ⟨rfl, rfl⟩ := List.cons.inj hlabels
        obtain ⟨t, ht, hrest⟩ := Option.bind_eq_some_iff.1 hu
        exact .inr ⟨t, ht, sooner, b, later, u, rfl, hrest, hp⟩
  · rintro (hp | ⟨t, ht, sooner, b, later, u, rfl, hu, hp⟩)
    · exact ⟨[], a, labels, s, rfl, rfl, hp⟩
    · refine ⟨a :: sooner, b, later, u, rfl, ?_, hp⟩
      rw [stepwise_cons, ht]
      exact hu

theorem Meets.cons {P : σ → α → Prop} (hstep : step s a = some t) (h : Meets step P t labels) :
    Meets step P s (a :: labels) :=
  meets_cons.2 (.inr ⟨t, hstep, h⟩)

instance decidableMeets {P : σ → α → Prop} [∀ s a, Decidable (P s a)] :
    ∀ s labels, Decidable (Meets step P s labels)
  | _, [] => .isFalse not_meets_nil
  | _, _ :: labels =>
      have (t : σ) : Decidable (Meets step P t labels) := decidableMeets t labels
      decidable_of_iff _ meets_cons.symm

theorem Meets.last {P : σ → α → Prop} (h : stepwise step s labels = some t) (hp : P t a) :
    Meets step P s (labels ++ [a]) :=
  ⟨labels, a, [], t, rfl, h, hp⟩

theorem Meets.append {P : σ → α → Prop} (h : Meets step P s labels) (more : List α) :
    Meets step P s (labels ++ more) := by
  obtain ⟨sooner, a, later, t, rfl, ht, hp⟩ := h
  exact ⟨sooner, a, later ++ more, t, by simp, ht, hp⟩

/-- What holds at first and is kept by every step of the run that is not as a property says holds after a run that meets
no such step. -/
theorem stepwise_avoids {P : σ → α → Prop} {Q : σ → Prop} (h : stepwise step s labels = some t)
    (havoids : ¬Meets step P s labels) (first : Q s)
    (keep : ∀ s a t, a ∈ labels → ¬P s a → Q s → step s a = some t → Q t) : Q t := by
  induction labels generalizing s with
  | nil =>
      cases h
      exact first
  | cons a labels ih =>
      obtain ⟨r, hr, hrest⟩ := Option.bind_eq_some_iff.1 h
      obtain ⟨hhead, htail⟩ := not_or.1 (mt meets_cons.2 havoids)
      exact ih hrest (fun hmeets => htail ⟨r, hr, hmeets⟩) (keep s a r List.mem_cons_self hhead first hr)
        fun s b t hb => keep s b t (List.mem_cons_of_mem a hb)

/-- A property holds at every moment of a run. -/
def Throughout (step : σ → α → Option σ) (P : σ → Prop) : σ → List α → Prop
  | s, [] => P s
  | s, a :: rest => P s ∧ ∀ t, step s a = some t → Throughout step P t rest

theorem Throughout.first {P : σ → Prop} (h : Throughout step P s labels) : P s := by
  cases labels with
  | nil => exact h
  | cons a labels => exact h.1

/-- What holds at first and is kept by every step between moments with a property holds after a run of such moments. -/
theorem Throughout.keeps {P Q : σ → Prop} (hq : Throughout step Q s labels) (h : stepwise step s labels = some t)
    (first : P s) (keep : ∀ s a t, Q s → Q t → P s → step s a = some t → P t) : P t ∧ Q t := by
  induction labels generalizing s with
  | nil =>
      cases h
      exact ⟨first, hq⟩
  | cons a labels ih =>
      obtain ⟨r, hr, hrest⟩ := Option.bind_eq_some_iff.1 h
      have hlater := hq.2 r hr
      exact ih hlater hrest (keep s a r hq.1 hlater.first first hr)

/-- What a step relates to its outcome, a run relates to its outcome. -/
theorem stepwise_relates {R : σ → σ → Prop} (refl : ∀ s, R s s) (trans : ∀ {s t u}, R s t → R t u → R s u)
    (one : ∀ s a t, step s a = some t → R s t) (h : stepwise step s labels = some t) : R s t :=
  stepwise_keeps h (refl s) fun _ _ _ _ kept next => trans kept (one _ _ _ next)

end PushMetrics
