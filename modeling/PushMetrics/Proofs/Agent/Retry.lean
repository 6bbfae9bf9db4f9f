import PushMetrics.Agent.Retry
import Mathlib.Data.Nat.Find
import Mathlib.Order.Bounds.Basic

/-!
# Runs follow their schedule

The attempts of a run begin where a schedule puts them that is fixed by the delays and durations alone. The run ends
with the first attempt that decides it, unless a wait is met by the token; then it ends with that wait.
-/

namespace PushMetrics.Agent

open Number

variable {ε α : Type}

/-! ## The schedule -/

theorem timerTick_isLeast (nanos : Nat) : IsLeast {t | tenPow 6 ∣ t ∧ nanos ≤ t} (timerTick nanos) := by
  have hmilli : 0 < tenPow 6 := by decide
  refine ⟨⟨Nat.dvd_mul_left _ _, ?_⟩, ?_⟩
  · have hrest := Nat.lt_mul_div_succ (nanos + (tenPow 6 - 1)) hmilli
    simp only [timerTick, Span.ceilMillis]
    rw [Nat.mul_add, Nat.mul_comm] at hrest
    omega
  · rintro t ⟨⟨n, rfl⟩, hle⟩
    rw [timerTick, Span.ceilMillis, Nat.mul_comm]
    refine Nat.mul_le_mul_left _ (Nat.le_of_lt_succ ?_)
    have hlt : nanos + (tenPow 6 - 1) < tenPow 6 * n + tenPow 6 := by omega
    rw [Nat.div_lt_iff_lt_mul hmilli, Nat.succ_mul, Nat.mul_comm n]
    exact hlt

/-- When the attempts begin if nothing cuts a wait short: the first at the start; each later one as soon as the one
before has ended if its delay is zero, and else at the first whole millisecond at or after the end of the delay. -/
structure RetryRule.Schedules (r : RetryRule ε) (s : RetrySetting ε α) (begins : Nat → Nat) : Prop where
  first : begins 0 = s.start
  atOnce : ∀ k, (r.backoff.delayBefore (k + 1)).nanos = 0 → begins (k + 1) = begins k + s.duration k
  delayed : ∀ k, (r.backoff.delayBefore (k + 1)).nanos ≠ 0 →
    IsLeast {t | tenPow 6 ∣ t ∧ begins k + s.duration k + (r.backoff.delayBefore (k + 1)).nanos ≤ t} (begins (k + 1))

namespace RetryRule

variable (r : RetryRule ε) (s : RetrySetting ε α)

/-- When an attempt begins, from the end of the one before. -/
def nextBegin (k finish : Nat) : Nat :=
  let delay := (r.backoff.delayBefore k).nanos
  if delay = 0 then finish else timerTick (finish + delay)

def schedule : Nat → Nat
  | 0 => s.start
  | k + 1 => r.nextBegin (k + 1) (schedule k + s.duration k)

theorem schedules_schedule : r.Schedules s (r.schedule s) where
  first := rfl
  atOnce k h := by simp only [schedule, nextBegin, h, ↓reduceIte]
  delayed k h := by
    simp only [schedule, nextBegin, h, ↓reduceIte]
    exact timerTick_isLeast _

/-- An attempt that ends the run: it succeeds, its error is not worth another one, or it is the last one allowed. -/
def Decides (k : Nat) : Prop :=
  ∀ e, s.outcome k = .error e → r.again e = false ∨ max 1 r.backoff.attempts ≤ k + 1

/-- The attempt that ends the run if nothing else does. -/
def IsLast (last : Nat) : Prop := r.Decides s last ∧ ∀ k < last, ¬ r.Decides s k

theorem exists_isLast : ∃ last, r.IsLast s last := by
  classical
  have hsome : ∃ k, r.Decides s k := ⟨max 1 r.backoff.attempts, fun _ _ => .inr (Nat.le_succ _)⟩
  exact ⟨Nat.find hsome, Nat.find_spec hsome, fun k hk => Nat.find_min hsome hk⟩

/-- There is something to wait for before an attempt. -/
def Waits (k : Nat) : Prop := (r.backoff.delayBefore k).nanos ≠ 0

/-- The token is not fired before the wait for an attempt ends. -/
def Passes (begins : Nat → Nat) (k : Nat) : Prop := r.Waits k → ∀ c, s.firedAt = some c → begins k ≤ c

/-- The run ends with the outcome of an attempt. -/
structure Completes (begins : Nat → Nat) (last : Nat) (run : RetryRun ε α) : Prop where
  result : run.result = s.outcome last
  ended : run.ended = begins last + s.duration last
  gaveUp : run.gaveUp = true ↔ ∃ e, s.outcome last = .error e ∧ r.again e = true

/-- The token ends the wait after an attempt. -/
structure IsCutShort (begins : Nat → Nat) (n : Nat) (run : RetryRun ε α) : Prop where
  waits : r.Waits (n + 1)
  result : run.result = .error r.cancelled
  fired : ∃ c, s.firedAt = some c ∧ c ≤ begins (n + 1) ∧ run.ended = max c (begins n + s.duration n)
  gaveUp : run.gaveUp = false

/-- What there is of a run from an attempt on: it begins attempts up to one of number `n`. -/
structure Follows (begins : Nat → Nat) (last k n : Nat) (run : RetryRun ε α) : Prop where
  reached : k ≤ n
  limit : n ≤ last
  started : run.started = (List.range' k (n + 1 - k)).map begins
  passed : ∀ j, k < j → j ≤ n → r.Passes s begins j
  ending : n = last ∧ r.Completes s begins last run ∨ n < last ∧ r.IsCutShort s begins n run

variable {r s} {begins : Nat → Nat}

/-! ## Stages -/

theorem perform_of_decides {k : Nat} (h : r.Decides s k) (now : Nat) :
    ∃ gaveUp, r.perform s k now = .ended (s.outcome k) (now + s.duration k) gaveUp ∧
      (gaveUp = true ↔ ∃ e, s.outcome k = .error e ∧ r.again e = true) := by
  simp only [perform]
  cases hk : s.outcome k with
  | ok a => exact ⟨false, rfl, by simp⟩
  | error e =>
      cases hagain : r.again e with
      | false => exact ⟨false, by simp [hagain], by simp [hagain]⟩
      | true =>
          have hattempts : r.attempts ≤ k + 1 := (h e hk).resolve_left (by simp [hagain])
          exact ⟨true, by simp [hagain, hattempts], by simp [hagain]⟩

theorem perform_of_not_decides {k : Nat} (h : ¬ r.Decides s k) (now : Nat) :
    r.perform s k now = .before (k + 1) (now + s.duration k) := by
  simp only [Decides, not_forall, not_or] at h
  obtain ⟨e, hk, hagain, hattempts⟩ := h
  have hmore : ¬ r.attempts ≤ k + 1 := hattempts
  simp [perform, hk, hagain, hmore]

/-- A wait ends in its time, or it is cut short by a token that is fired no later. -/
theorem await_cases (h : r.Schedules s begins) (k : Nat) :
    (r.await s (k + 1) (begins k + s.duration k) = .running (k + 1) (begins (k + 1)) ∧ r.Passes s begins (k + 1)) ∨
      (r.Waits (k + 1) ∧ ∃ c, s.firedAt = some c ∧ c ≤ begins (k + 1) ∧
        r.await s (k + 1) (begins k + s.duration k) =
          .ended (.error r.cancelled) (max c (begins k + s.duration k)) false) := by
  by_cases hdelay : (r.backoff.delayBefore (k + 1)).nanos = 0
  · refine .inl ⟨?_, fun hwaits => absurd hdelay hwaits⟩
    simp [await, Span.isZero, hdelay, h.atOnce k hdelay]
  · have hwake : timerTick (begins k + s.duration k + (r.backoff.delayBefore (k + 1)).nanos) = begins (k + 1) :=
      (timerTick_isLeast _).unique (h.delayed k hdelay)
    have hzero : (r.backoff.delayBefore (k + 1)).isZero = false := by simp [Span.isZero, hdelay]
    simp only [await, hzero, Bool.false_eq_true, ↓reduceIte, hwake]
    cases hfired : s.firedAt with
    | none => exact .inl ⟨rfl, fun _ c hc => by rw [hfired] at hc; cases hc⟩
    | some c =>
        by_cases hcut : c < begins (k + 1) ∨ (c = begins (k + 1) ∧ s.wakesFirst (k + 1) = false)
        · exact .inr ⟨hdelay, c, rfl, by omega, if_pos hcut⟩
        · refine .inl ⟨if_neg hcut, fun _ c' hc' => ?_⟩
          obtain rfl : c = c' := Option.some.inj (hfired.symm.trans hc')
          exact Nat.le_of_not_lt fun hlt => hcut (.inl hlt)

/-! ## Runs -/

theorem Follows.cons {last k n : Nat} {run : RetryRun ε α} (h : r.Follows s begins last (k + 1) n run)
    (hpasses : r.Passes s begins (k + 1)) :
    r.Follows s begins last k n { run with started := begins k :: run.started } where
  reached := Nat.le_of_succ_le h.reached
  limit := h.limit
  started := by
    have hlength : n + 1 - k = n + 1 - (k + 1) + 1 := by
      have hreached := h.reached
      omega
    rw [hlength, List.range'_succ, List.map_cons, ← h.started]
  passed j hj hle := by
    obtain rfl | hlater := Nat.eq_or_lt_of_le hj
    · exact hpasses
    · exact h.passed j hlater hle
  ending := by
    obtain ⟨hn, hcompletes⟩ | ⟨hn, hcut⟩ := h.ending
    · exact .inl ⟨hn, hcompletes.result, hcompletes.ended, hcompletes.gaveUp⟩
    · exact .inr ⟨hn, hcut.waits, hcut.result, hcut.fired, hcut.gaveUp⟩

/-- From the beginning of an attempt on, after which `rest` more may follow. -/
theorem runFrom_running (h : r.Schedules s begins) {last : Nat} (hlast : r.IsLast s last) (rest : Nat) {k : Nat}
    (hk : k + rest = last) : ∃ n, r.Follows s begins last k n (r.runFrom s (.running k (begins k))) := by
  induction rest generalizing k with
  | zero =>
      obtain rfl : k = last := hk
      obtain ⟨gaveUp, hperform, hgaveUp⟩ := perform_of_decides hlast.1 (begins k)
      have hrun : r.runFrom s (.running k (begins k)) =
          ⟨s.outcome k, [begins k], begins k + s.duration k, gaveUp⟩ := by
        rw [runFrom, hperform, runFrom]
      rw [hrun]
      exact ⟨k, le_refl k, le_refl k, by simp, fun j hj hle => absurd hj (Nat.not_lt.2 hle),
        .inl ⟨rfl, rfl, rfl, hgaveUp⟩⟩
  | succ rest ih =>
      have hperform := perform_of_not_decides (hlast.2 k (by omega)) (begins k)
      obtain ⟨hawait, hpasses⟩ | ⟨hwaits, c, hfired, hle, hawait⟩ := await_cases h k
      · obtain ⟨n, hfollows⟩ := ih (k := k + 1) (by omega)
        rw [runFrom, hperform, runFrom, hawait]
        exact ⟨n, hfollows.cons hpasses⟩
      · have hrun : r.runFrom s (.running k (begins k)) =
            ⟨.error r.cancelled, [begins k], max c (begins k + s.duration k), false⟩ := by
          rw [runFrom, hperform, runFrom, hawait, runFrom]
        rw [hrun]
        exact ⟨k, le_refl k, by omega, by simp, fun j hj hle => absurd hj (Nat.not_lt.2 hle),
          .inr ⟨by omega, hwaits, rfl, ⟨c, hfired, hle, rfl⟩, rfl⟩⟩

theorem runIn_eq (h : r.Schedules s begins) : r.runIn s = r.runFrom s (.running 0 (begins 0)) := by
  have hnone : (r.backoff.delayBefore 0).isZero = true := rfl
  rw [runIn, runFrom]
  simp only [await, hnone, ↓reduceIte, h.first]

/-- A run follows its schedule. It begins attempts up to some one of number `n`, each when the schedule says, and
none after the first that decides it. If that one is reached the run ends with its outcome; else the token has ended
the wait before the next attempt. The first is certain if the token is not fired before any wait has ended, and the
second if it is fired before some wait ends. -/
theorem run_follows_schedule (r : RetryRule ε) (s : RetrySetting ε α) :
    ∃ begins last, r.Schedules s begins ∧ r.IsLast s last ∧
      ∃ n ≤ last, (r.runIn s).started = (List.range (n + 1)).map begins ∧
        (n = last ∧ r.Completes s begins last (r.runIn s) ∨ n < last ∧ r.IsCutShort s begins n (r.runIn s)) ∧
        ((∀ k ≤ last, r.Waits k → ∀ c, s.firedAt = some c → begins k < c) → n = last) ∧
        ∀ k ≤ last, r.Waits k → ∀ c, s.firedAt = some c → c < begins k → n < k := by
  obtain ⟨last, hlast⟩ := r.exists_isLast s
  have hschedules := r.schedules_schedule s
  obtain ⟨n, hfollows⟩ := runFrom_running hschedules hlast last (Nat.zero_add last)
  rw [← runIn_eq hschedules] at hfollows
  refine ⟨r.schedule s, last, hschedules, hlast, n, hfollows.limit, ?_, hfollows.ending, fun hlater => ?_,
    fun k _ hwaits c hfired hbefore => ?_⟩
  · rw [hfollows.started, List.range_eq_range', Nat.sub_zero]
  · obtain ⟨hall, -⟩ | ⟨hlt, hcut⟩ := hfollows.ending
    · exact hall
    · obtain ⟨c, hfired, hle, -⟩ := hcut.fired
      exact absurd hle (Nat.not_le_of_lt (hlater (n + 1) hlt hcut.waits c hfired))
  · have hpos : 0 < k := by
      rcases Nat.eq_zero_or_pos k with rfl | hpos
      · exact absurd rfl hwaits
      · exact hpos
    by_contra hreached
    exact Nat.not_lt.2 (hfollows.passed k hpos (Nat.not_lt.1 hreached) hwaits c hfired) hbefore

/-! ## Whole milliseconds -/

theorem timerTick_millis (now : Nat) (delay : Span) :
    timerTick (now * tenPow 6 + delay.nanos) = (now + delay.ceilMillis) * tenPow 6 := by
  have hmilli : 0 < tenPow 6 := by decide
  simp only [timerTick, Span.ceilMillis]
  rw [Nat.add_assoc, Nat.mul_comm now, Nat.mul_add_div hmilli]

/-- In whole milliseconds the wait of a run is the phase in which a delivery waits. -/
theorem await_of_enter (hfired : s.firedAt = none) (attempt now : Nat) :
    match (r.enter attempt now : RetryPhase ε α) with
    | .waiting k wake => r.await s attempt (now * tenPow 6) = .running k (wake * tenPow 6)
    | .attempting k => r.await s attempt (now * tenPow 6) = .running k (now * tenPow 6)
    | .ended _ => False := by
  simp only [enter, await, hfired]
  cases hzero : (r.backoff.delayBefore attempt).isZero with
  | true => simp
  | false => simp [timerTick_millis]

end RetryRule

end PushMetrics.Agent
