import PushMetrics.Agent.Delivery
import Mathlib.Data.List.Basic

/-!
# What a delivery sends

Every send carries the whole batch, there are no more sends than attempts, and none after a success. A delivery that
ends by itself has succeeded, was refused, has used up its attempts or has panicked; else it was cut off.
-/

namespace PushMetrics.Agent

def DeliveryEvent.sent? : DeliveryEvent → Option (List Payload)
  | .sent _ payloads => some payloads
  | _ => none

def DeliveryEvent.isSuccess : DeliveryEvent → Bool
  | .answered _ (.ok _) => true
  | _ => false

def sends (seen : List DeliveryEvent) : List (List Payload) := seen.filterMap DeliveryEvent.sent?

@[simp] theorem sends_append (seen more : List DeliveryEvent) : sends (seen ++ more) = sends seen ++ sends more :=
  List.filterMap_append

/-- No send has succeeded. -/
def Unanswered (seen : List DeliveryEvent) : Prop := ∀ e ∈ seen, e.isSuccess = false

theorem Unanswered.append {seen more : List DeliveryEvent} (h : Unanswered seen) (k : Unanswered more) :
    Unanswered (seen ++ more) := fun e he => (List.mem_append.1 he).elim (h e) (k e)

/-- After a success nothing is sent. -/
def QuietAfterSuccess (seen : List DeliveryEvent) : Prop :=
  ∀ before e after, seen = before ++ e :: after → e.isSuccess = true → sends after = []

theorem Unanswered.quiet {seen : List DeliveryEvent} (h : Unanswered seen) : QuietAfterSuccess seen := by
  rintro before e after rfl hsuccess
  rw [h e (by simp)] at hsuccess
  cases hsuccess

theorem Unanswered.quiet_snoc {seen : List DeliveryEvent} (h : Unanswered seen) (last : DeliveryEvent) :
    QuietAfterSuccess (seen ++ [last]) := by
  intro before e after hsplit hsuccess
  rcases List.eq_nil_or_concat after with rfl | ⟨front, final, rfl⟩
  · rfl
  · rw [List.concat_eq_append, ← List.cons_append, ← List.append_assoc] at hsplit
    have hseen := (List.append_inj' hsplit rfl).1
    rw [h e (by simp [hseen])] at hsuccess
    cases hsuccess

theorem RetryRule.enter_cases {ε α : Type} (r : RetryRule ε) (k now : Nat) :
    (r.enter k now : RetryPhase ε α) = .attempting k ∨ ∃ wake, (r.enter k now : RetryPhase ε α) = .waiting k wake := by
  simp only [enter]
  split
  · exact .inl rfl
  · exact .inr ⟨_, rfl⟩

namespace Delivery

/-- How far a delivery has come with its sends, of which these events have been seen. -/
def Progress (d : Delivery) (b : Backoff) (seen : List DeliveryEvent) : Prop :=
  match d.phase with
  | .fresh => seen = []
  | .working (.attempting k) _ => (sends seen).length = k + 1 ∧ k < (deliveryRule b).attempts ∧ Unanswered seen
  | .working (.waiting k _) _ => (sends seen).length = k ∧ k < (deliveryRule b).attempts ∧ Unanswered seen
  | .working (.ended _) _ => False
  | .ended _ => (sends seen).length ≤ (deliveryRule b).attempts ∧ QuietAfterSuccess seen

/-- A delivery whose sends all carry its batch, and are as many as its stage says. -/
structure Sound (d : Delivery) (b : Backoff) (seen : List DeliveryEvent) : Prop where
  payloads : ∀ ps ∈ sends seen, ps = d.payloads
  progress : d.Progress b seen

/-- A delivery has ended by itself: with a success, with an error not worth another send, with the attempts used
up, or with a panic. -/
def Settled (d : Delivery) (b : Backoff) (seen : List DeliveryEvent) : Prop :=
  match d.phase with
  | .ended (.finished (.ok _)) => ∃ k, .answered k (.ok ()) ∈ seen
  | .ended (.finished (.error e)) =>
    if e.isRetryable then (sends seen).length = (deliveryRule b).attempts else ∃ k, .answered k (.error e) ∈ seen
  | .ended (.panicked _) => True
  | _ => False

/-- A delivery has been aborted, or has found its token fired. -/
def IsCut (d : Delivery) : Prop :=
  d.phase = .ended .aborted ∨ d.phase = .ended (.finished (.error .cancelled))

theorem sound_fresh (batch : List Metric) (b : Backoff) : (fresh batch).Sound b [] :=
  ⟨fun _ h => absurd h List.not_mem_nil, rfl⟩

variable {d d' : Delivery} {b : Backoff} {limit : Span} {now : Nat} {fired : Bool} {label : DeliveryStep}
  {seen new : List DeliveryEvent}

theorem Sound.bounded (h : d.Sound b seen) :
    (sends seen).length ≤ (deliveryRule b).attempts ∧ QuietAfterSuccess seen := by
  have hp := h.progress
  unfold Progress at hp
  split at hp
  · subst hp
    exact ⟨Nat.zero_le _, Unanswered.quiet fun _ h => by cases h⟩
  · exact ⟨by omega, hp.2.2.quiet⟩
  · exact ⟨by omega, hp.2.2.quiet⟩
  · exact hp.elim
  · exact hp

/-! ## Steps -/

/-- The steps of a delivery, with what is seen of each. -/
inductive Moves (d : Delivery) (b : Backoff) (now : Nat) (fired : Bool) :
    DeliveryStep → Delivery → List DeliveryEvent → Prop where
  | begin (hp : d.phase = .fresh) :
      Moves d b now fired .begin (d.enter now ((deliveryRule b).enter 0 now)).1
        (d.enter now ((deliveryRule b).enter 0 now)).2
  | wake {k wake since : Nat} (hp : d.phase = .working (.waiting k wake) since) :
      Moves d b now fired .wake { d with phase := .working (.attempting k) now } [.sent k d.payloads]
  | succeed {k since : Nat} (hp : d.phase = .working (.attempting k) since) :
      Moves d b now fired (.answer (.ok ())) { d with phase := .ended (.finished (.ok ())) } [.answered k (.ok ())]
  | retry {k since : Nat} {e : DeliveryError} {label : DeliveryStep} {told : List DeliveryEvent}
      (hp : d.phase = .working (.attempting k) since)
      (ht : label = .answer (.error e) ∧ told = [.answered k (.error e)] ∨ label = .expire ∧ told = [])
      (hk : k + 1 < (deliveryRule b).attempts) :
      Moves d b now fired label (d.enter now ((deliveryRule b).enter (k + 1) now)).1
        (told ++ (d.enter now ((deliveryRule b).enter (k + 1) now)).2)
  | fail {k since : Nat} {e : DeliveryError} {label : DeliveryStep} {told : List DeliveryEvent}
      (hp : d.phase = .working (.attempting k) since)
      (ht : label = .answer (.error e) ∧ told = [.answered k (.error e)] ∨
        label = .expire ∧ told = [] ∧ e.isRetryable = true)
      (hk : e.isRetryable = true → (deliveryRule b).attempts ≤ k + 1) :
      Moves d b now fired label { d with phase := .ended (.finished (.error e)) }
        (told ++ lastFailure (deliveryRule b) k (.error e) ++ [.dropped d.batch.length e])
  | cancel {k wake since : Nat} (hp : d.phase = .working (.waiting k wake) since) (hf : fired = true) :
      Moves d b now fired .cancel { d with phase := .ended (.finished (.error .cancelled)) }
        [.dropped d.batch.length .cancelled]
  | panic {stage : RetryPhase DeliveryError Unit} {since : Nat} {reason : String}
      (hp : d.phase = .working stage since) :
      Moves d b now fired (.panic reason) { d with phase := .ended (.panicked reason) } []
  | abort (hp : d.isEnded = false) : Moves d b now fired .abort { d with phase := .ended .aborted } []

theorem moves_of_failure {k since : Nat} {e : DeliveryError} {told : List DeliveryEvent}
    (hp : d.phase = .working (.attempting k) since)
    (ht : label = .answer (.error e) ∧ told = [.answered k (.error e)] ∨
      label = .expire ∧ told = [] ∧ e.isRetryable = true) :
    Moves d b now fired label (d.enter now ((deliveryRule b).afterFailure k now e)).1
      (told ++ lastFailure (deliveryRule b) k (.error e) ++
        (d.enter now ((deliveryRule b).afterFailure k now e)).2) := by
  by_cases hretry : e.isRetryable = true ∧ k + 1 < (deliveryRule b).attempts
  · have hnext : ((deliveryRule b).afterFailure k now e : RetryPhase DeliveryError Unit)
        = (deliveryRule b).enter (k + 1) now := by
      exact if_pos hretry
    have hsilent : lastFailure (deliveryRule b) k (.error e) = [] := by
      have hlater : ¬ (deliveryRule b).attempts ≤ k + 1 := by omega
      simp [lastFailure, RetryRule.gaveUp, hlater]
    rw [hnext, hsilent, List.append_nil]
    exact .retry hp (ht.imp_right fun ht => ⟨ht.1, ht.2.1⟩) hretry.2
  · have hlast : ((deliveryRule b).afterFailure k now e : RetryPhase DeliveryError Unit) = .ended (.error e) := by
      exact if_neg hretry
    rw [hlast]
    exact .fail hp ht fun hagain => Nat.not_lt.1 fun hk => hretry ⟨hagain, hk⟩

theorem moves_of_step (h : d.step (deliveryRule b) limit now fired label = some (d', new)) :
    Moves d b now fired label d' new := by
  cases label with
  | begin =>
      simp only [step] at h
      split at h
      · rename_i hp
        cases h
        exact .begin hp
      · cases h
  | wake =>
      simp only [step, advance] at h
      split at h
      · rename_i stage since hp
        obtain ⟨stage', hstage, hd⟩ := Option.map_eq_some_iff.1 h
        cases stage with
        | waiting k wake =>
            simp only [RetryPhase.step] at hstage
            split at hstage
            · cases hstage
              cases hd
              exact .wake hp
            · cases hstage
        | attempting k => cases hstage
        | ended result => cases hstage
      · cases h
  | answer result =>
      simp only [step, advance] at h
      split at h
      · rename_i k since hp
        cases result with
        | ok u =>
            cases h
            exact .succeed hp
        | error e =>
            cases h
            exact moves_of_failure hp (.inl ⟨rfl, rfl⟩)
      · cases h
  | expire =>
      simp only [step, advance] at h
      split at h
      · rename_i k since hp
        split at h
        · cases h
        · cases h
          exact moves_of_failure hp (.inr ⟨rfl, rfl, rfl⟩)
      · cases h
  | cancel =>
      simp only [step, advance] at h
      split at h
      · rename_i stage since hp
        split at h
        · rename_i hf
          cases stage with
          | waiting k wake =>
              cases h
              exact .cancel hp hf
          | attempting k => cases h
          | ended result => cases h
        · cases h
      · cases h
  | panic reason =>
      simp only [step] at h
      split at h
      · rename_i hp
        cases h
        exact .panic hp
      · cases h
  | abort =>
      simp only [step] at h
      split at h
      · cases h
      · rename_i hp
        cases h
        exact .abort (by simpa using hp)

theorem enter_batch (d : Delivery) (now : Nat) (stage : RetryPhase DeliveryError Unit) :
    (d.enter now stage).1.batch = d.batch ∧ (d.enter now stage).1.joined = d.joined := by
  cases stage <;> exact ⟨rfl, rfl⟩

/-- A delivery keeps its batch, and one that has ended takes no step. -/
theorem Moves.frame (h : Moves d b now fired label d' new) :
    d'.batch = d.batch ∧ d'.joined = d.joined ∧ d.isEnded = false := by
  cases h with
  | begin hp => exact ⟨(enter_batch ..).1, (enter_batch ..).2, by simp [isEnded, hp]⟩
  | wake hp => exact ⟨rfl, rfl, by simp [isEnded, hp]⟩
  | succeed hp => exact ⟨rfl, rfl, by simp [isEnded, hp]⟩
  | retry hp => exact ⟨(enter_batch ..).1, (enter_batch ..).2, by simp [isEnded, hp]⟩
  | fail hp => exact ⟨rfl, rfl, by simp [isEnded, hp]⟩
  | cancel hp => exact ⟨rfl, rfl, by simp [isEnded, hp]⟩
  | panic hp => exact ⟨rfl, rfl, by simp [isEnded, hp]⟩
  | abort hp => exact ⟨rfl, rfl, hp⟩

/-! ## What the steps keep -/

theorem sound_enter {k : Nat} (hps : ∀ ps ∈ sends seen, ps = d.payloads) (hlen : (sends seen).length = k)
    (hk : k < (deliveryRule b).attempts) (hun : Unanswered seen) :
    (d.enter now ((deliveryRule b).enter k now)).1.Sound b
      (seen ++ (d.enter now ((deliveryRule b).enter k now)).2) := by
  rcases (deliveryRule b).enter_cases k now with hnext | ⟨wake, hnext⟩ <;> rw [hnext]
  · refine ⟨fun ps hin => ?_, ?_, hk, hun.append (by simp [enter, Unanswered, DeliveryEvent.isSuccess])⟩
    · simp only [enter, sends_append, List.mem_append] at hin
      rcases hin with hin | hin
      · exact hps ps hin
      · exact List.mem_singleton.1 hin
    · simp [enter, sends, DeliveryEvent.sent?, ← hlen]
  · simp only [enter, List.append_nil]
    exact ⟨hps, hlen, hk, hun⟩

theorem isEnded_enter (d : Delivery) (b : Backoff) (k now : Nat) :
    (d.enter now ((deliveryRule b).enter k now)).1.isEnded = false := by
  rcases (deliveryRule b).enter_cases k now with hnext | ⟨wake, hnext⟩ <;> rw [hnext] <;> rfl

theorem sends_told {k : Nat} {e : DeliveryError} {told : List DeliveryEvent}
    (ht : told = [.answered k (.error e)] ∨ told = []) : sends told = [] ∧ Unanswered told := by
  rcases ht with rfl | rfl
  · exact ⟨rfl, by simp [Unanswered, DeliveryEvent.isSuccess]⟩
  · exact ⟨rfl, fun _ h => by cases h⟩

theorem sends_lastFailure (rule : RetryRule DeliveryError) (k : Nat) (e : DeliveryError) :
    sends (lastFailure rule k (.error e)) = [] ∧ Unanswered (lastFailure rule k (.error e)) := by
  simp only [lastFailure]
  split
  · exact ⟨rfl, by simp [Unanswered, DeliveryEvent.isSuccess]⟩
  · exact ⟨rfl, fun _ h => by cases h⟩

theorem Sound.step (h : d.Sound b seen) (hm : Moves d b now fired label d' new) : d'.Sound b (seen ++ new) := by
  have hp := h.progress
  have hps := h.payloads
  unfold Progress at hp
  cases hm with
  | begin hphase =>
      simp only [hphase] at hp
      subst hp
      exact sound_enter hps rfl (Nat.le_max_left 1 b.attempts) (fun _ h => by cases h)
  | wake hphase =>
      simp only [hphase] at hp
      obtain ⟨hlen, hk, hun⟩ := hp
      refine ⟨fun ps hin => ?_, ?_, hk, hun.append (by simp [Unanswered, DeliveryEvent.isSuccess])⟩
      · simp only [sends_append, List.mem_append] at hin
        rcases hin with hin | hin
        · exact hps ps hin
        · exact List.mem_singleton.1 hin
      · simp [sends, DeliveryEvent.sent?, ← hlen]
  | @succeed k since hphase =>
      simp only [hphase] at hp
      obtain ⟨hlen, hk, hun⟩ := hp
      have hsame : sends (seen ++ [.answered k (.ok ())]) = sends seen := by simp [sends, DeliveryEvent.sent?]
      exact ⟨hsame ▸ hps, by rw [hsame]; omega, hun.quiet_snoc _⟩
  | @retry k since e _ told hphase ht hk =>
      simp only [hphase] at hp
      obtain ⟨hlen, -, hun⟩ := hp
      obtain ⟨hnone, hquiet⟩ := sends_told (ht.imp (·.2) (·.2))
      have hsame : sends (seen ++ told) = sends seen := by rw [sends_append, hnone, List.append_nil]
      rw [← List.append_assoc]
      exact sound_enter (hsame ▸ hps) (hsame ▸ hlen) hk (hun.append hquiet)
  | @fail k since e _ told hphase ht hk =>
      simp only [hphase] at hp
      obtain ⟨hlen, hlt, hun⟩ := hp
      obtain ⟨hnone, hquiet⟩ := sends_told (ht.imp (·.2) (·.2.1))
      obtain ⟨hnone', hquiet'⟩ := sends_lastFailure (deliveryRule b) k e
      have hdropped : sends [.dropped d.batch.length e] = [] := rfl
      have hsame : sends (seen ++ (told ++ lastFailure (deliveryRule b) k (.error e) ++ [.dropped d.batch.length e]))
          = sends seen := by
        simp only [sends_append, hnone, hnone', hdropped, List.append_nil]
      refine ⟨hsame ▸ hps, by rw [hsame]; omega, (hun.append ((hquiet.append hquiet').append ?_)).quiet⟩
      simp [Unanswered, DeliveryEvent.isSuccess]
  | cancel hphase hf =>
      simp only [hphase] at hp
      obtain ⟨hlen, hlt, hun⟩ := hp
      have hsame : sends (seen ++ [.dropped d.batch.length .cancelled]) = sends seen := by
        simp [sends, DeliveryEvent.sent?]
      exact ⟨hsame ▸ hps, by rw [hsame]; omega, (hun.append (by simp [Unanswered, DeliveryEvent.isSuccess])).quiet⟩
  | panic hphase =>
      rw [List.append_nil]
      exact ⟨hps, h.bounded⟩
  | abort hphase =>
      rw [List.append_nil]
      exact ⟨hps, h.bounded⟩

/-- A delivery that a step ends has settled, or the step was to cut it off. -/
theorem Sound.settled_or_cut (h : d.Sound b seen) (hm : Moves d b now fired label d' new) (hended : d'.isEnded = true) :
    d'.Settled b (seen ++ new) ∨ d'.IsCut ∧ (label = .abort ∨ label = .cancel ∧ fired = true) := by
  have hp := h.progress
  unfold Progress at hp
  cases hm with
  | begin hphase =>
      rw [isEnded_enter] at hended
      cases hended
  | wake hphase => cases hended
  | succeed hphase => exact .inl ⟨_, List.mem_append_right _ List.mem_cons_self⟩
  | retry hphase =>
      rw [isEnded_enter] at hended
      cases hended
  | @fail k since e _ told hphase ht hk =>
      simp only [hphase] at hp
      obtain ⟨hlen, hlt, hun⟩ := hp
      refine .inl ?_
      simp only [Settled]
      split
      · rename_i hagain
        obtain ⟨hnone, -⟩ := sends_told (ht.imp (·.2) (·.2.1))
        obtain ⟨hnone', -⟩ := sends_lastFailure (deliveryRule b) k e
        have hlast := hk hagain
        have hdropped : sends [.dropped d.batch.length e] = [] := rfl
        simp only [sends_append, hnone, hnone', hdropped, List.append_nil]
        omega
      · rename_i hagain
        rcases ht with ⟨-, rfl⟩ | ⟨-, rfl, hretry⟩
        · exact ⟨k, by simp⟩
        · exact absurd hretry hagain
  | cancel hphase hf => exact .inr ⟨.inr rfl, .inr ⟨rfl, hf⟩⟩
  | panic hphase => exact .inl trivial
  | abort hphase => exact .inr ⟨.inl rfl, .inl rfl⟩

theorem Moves.isCut (h : Moves d b now fired label d' new) (hl : label = .abort ∨ label = .cancel) : d'.IsCut := by
  cases h with
  | retry hp ht hk =>
      rcases ht with ⟨rfl, -⟩ | ⟨rfl, -⟩
      · simp at hl
      · simp at hl
  | fail hp ht hk =>
      rcases ht with ⟨rfl, -⟩ | ⟨rfl, -⟩
      · simp at hl
      · simp at hl
  | cancel hp hf => exact .inr rfl
  | abort hp => exact .inl rfl
  | _ => simp at hl

end Delivery

end PushMetrics.Agent
