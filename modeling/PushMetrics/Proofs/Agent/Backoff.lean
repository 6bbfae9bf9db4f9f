import PushMetrics.Agent.Backoff
import PushMetrics.Proofs.Time.Seconds

/-!
# Doubling waits

A backoff that doubles waits exactly twice as long each time, up to its cap: what is computed in seconds of double
precision is less than half a nanosecond away from the whole number it stands for, as far as the cap allows. A first
wait of zero stays zero only as long as the power of two is finite.
-/

namespace PushMetrics.Agent.Backoff

open Number Binary64

/-! ## The error of a wait -/

/-- What a third rounding does to a rounded number of seconds that has been multiplied. -/
theorem third_rounding {seconds rounded factor product : ℚ} (hseconds : 0 ≤ seconds) (hfactor : 0 ≤ factor)
    (hrounded : |rounded - seconds| ≤ seconds * (9 / 4) / 2 ^ 53)
    (hproduct : |product - rounded * factor| ≤ rounded * factor / 2 ^ 53) :
    |product - seconds * factor| ≤ seconds * factor * (7 / 2) / 2 ^ 53 := by
  have hscaled := mul_le_mul_of_nonneg_right hrounded hfactor
  rw [← abs_of_nonneg hfactor, ← abs_mul, abs_of_nonneg hfactor, sub_mul] at hscaled
  have hnonneg : 0 ≤ seconds * factor := mul_nonneg hseconds hfactor
  obtain ⟨hlow, hhigh⟩ := abs_le.1 hscaled
  obtain ⟨hproductLow, hproductHigh⟩ := abs_le.1 hproduct
  rw [abs_le]
  constructor <;> linarith

/-- A wait that has been doubled `k` times is computed with the error of three roundings. -/
theorem doubled_close {s : Span} (hpos : 0 < s.nanos) (hlimit : s.nanos ≤ twoPow 51) {k : Nat} (hk : k < 1024) :
    ∃ rank, s.toSeconds.mul (powerOfTwo k) = ofRank false rank ∧
      |magnitude rank * 10 ^ 9 - (s.nanos : ℚ) * twoPow k| ≤ (s.nanos : ℚ) * twoPow k * (7 / 2) / 2 ^ 53 := by
  have hseconds : (1 : ℚ) / 10 ^ 9 ≤ s.nanos / 10 ^ 9 :=
    div_le_div_of_nonneg_right (by exact_mod_cast hpos) (by norm_num)
  have hnonneg : (0 : ℚ) ≤ s.nanos / 10 ^ 9 := le_trans (by norm_num) hseconds
  obtain ⟨r, hr, hclose⟩ := Span.toSeconds_close hpos hlimit
  obtain ⟨hlow, hhigh⟩ := abs_le.1 hclose
  refine ⟨_, by rw [hr, mul_powerOfTwo r hk], ?_⟩
  have hratio : ((units r.val * twoPow k : Nat) : ℚ) / twoPow 1074 = magnitude r.val * twoPow k := by
    rw [Nat.cast_mul, mul_div_right_comm]
    rfl
  have hpower : (1 : ℚ) ≤ twoPow k := by exact_mod_cast twoPow_pos k
  have hnormal : leastNormal ≤ ((units r.val * twoPow k : Nat) : ℚ) / twoPow 1074 := by
    rw [hratio]
    calc leastNormal ≤ 1 / 10 ^ 10 := leastNormal_le
      _ ≤ magnitude r.val := by linarith
      _ ≤ magnitude r.val * twoPow k := le_mul_of_one_le_right (magnitude_nonneg _) hpower
  have hproduct := nearestRank_close (twoPow_pos 1074) hnormal
  rw [hratio] at hproduct
  have herror := third_rounding hnonneg (zero_le_one.trans hpower) hclose hproduct
  have hscaled := mul_le_mul_of_nonneg_right herror (by norm_num : (0 : ℚ) ≤ 10 ^ 9)
  rw [← abs_of_nonneg (by norm_num : (0 : ℚ) ≤ 10 ^ 9), ← abs_mul, abs_of_nonneg (by norm_num : (0 : ℚ) ≤ 10 ^ 9),
    sub_mul] at hscaled
  have hnanos : (s.nanos : ℚ) / 10 ^ 9 * twoPow k * 10 ^ 9 = s.nanos * twoPow k := by
    field_simp
  rw [hnanos] at hscaled
  refine hscaled.trans (le_of_eq ?_)
  rw [← hnanos]
  ring

/-- Below the cap a number that is close enough to a whole one is rounded to it, and above the cap to none below. -/
theorem min_round {target cap n : Nat} {computed : ℚ} (hcap : cap ≤ twoPow 50)
    (hcomputed : |computed - target| ≤ (target : ℚ) * (7 / 2) / 2 ^ 53) (hn : |(n : ℚ) - computed| ≤ 1 / 2) :
    min n cap = min cap target := by
  have hlimit : (cap : ℚ) ≤ 2 ^ 50 := by
    rw [← cast_twoPow]
    exact_mod_cast hcap
  obtain ⟨hlow, hhigh⟩ := abs_le.1 hcomputed
  obtain ⟨hnLow, hnHigh⟩ := abs_le.1 hn
  rcases Nat.lt_or_ge cap target with hover | hwithin
  · have htarget : (cap : ℚ) + 1 ≤ target := by exact_mod_cast hover
    have hcapped : (cap : ℚ) < n := by linarith
    have hcapped' : cap < n := by exact_mod_cast hcapped
    omega
  · have htarget : (target : ℚ) ≤ 2 ^ 50 := le_trans (by exact_mod_cast hwithin) hlimit
    have habove : (n : ℚ) < target + 1 := by linarith
    have hbelow : (target : ℚ) < n + 1 := by linarith
    have hexact : n < target + 1 ∧ target < n + 1 := by
      constructor
      · exact_mod_cast habove
      · exact_mod_cast hbelow
    omega

variable {b : Backoff}

/-- The wait before an attempt that is not the first, by the power of the factor. -/
theorem delayBefore_succ (hfactor : b.multiplier = ofInt 2) (k : Nat) :
    b.delayBefore (k + 1) = ⟨min ((Span.ofSeconds64? (b.base.toSeconds.mul (powerOfTwo (min k greatestExponent)))).getD
      b.cap).nanos b.cap.nanos⟩ := by
  simp only [delayBefore, hfactor, ofInt_two_pow, Nat.add_sub_cancel, Nat.succ_ne_zero, ↓reduceIte]

theorem powerOfTwo_min_of_le {k : Nat} (hk : 1024 ≤ k) : powerOfTwo (min k greatestExponent) = infinite false := by
  have hgreatest : 1024 ≤ greatestExponent := by decide
  exact powerOfTwo_of_le (by omega)

theorem min_greatestExponent {k : Nat} (hk : k < 1024) : min k greatestExponent = k := by
  have hgreatest : 1024 ≤ greatestExponent := by decide
  omega

/-- A first wait that is not zero is doubled each time. -/
theorem delayBefore_of_pos (hfactor : b.multiplier = ofInt 2) (hpos : 0 < b.base.nanos)
    (hbase : b.base.nanos ≤ b.cap.nanos) (hcap : b.cap.nanos ≤ twoPow 50) (k : Nat) :
    (b.delayBefore (k + 1)).nanos = min b.cap.nanos (b.base.nanos * twoPow k) := by
  have hlimit : b.base.nanos ≤ twoPow 51 := hbase.trans (hcap.trans (by decide))
  rw [delayBefore_succ hfactor]
  rcases Nat.lt_or_ge k 1024 with hk | hk
  · rw [min_greatestExponent hk]
    obtain ⟨rank, hproduct, hclose⟩ := doubled_close hpos hlimit hk
    rw [← Nat.cast_mul] at hclose
    rcases Span.ofSeconds64?_ofRank rank with ⟨n, hspan, hn⟩ | ⟨hnone, hlarge⟩
    · simp only [hproduct, hspan, Option.getD_some]
      exact min_round hcap hclose hn
    · -- the number of seconds is far beyond the cap
      have hover : b.cap.nanos < b.base.nanos * twoPow k := by
        have hcap' : (b.cap.nanos : ℚ) ≤ 2 ^ 50 := by
          rw [← cast_twoPow]
          exact_mod_cast hcap
        obtain ⟨hlow, hhigh⟩ := abs_le.1 hclose
        have : (b.cap.nanos : ℚ) < (b.base.nanos * twoPow k : Nat) := by linarith
        exact_mod_cast this
      simp only [hproduct, hnone, Option.getD_none]
      omega
  · obtain ⟨r, hr, hclose⟩ := Span.toSeconds_close hpos hlimit
    have hzero : r.val ≠ 0 := by
      intro hzero
      have hseconds : (0 : ℚ) < b.base.nanos / 10 ^ 9 := div_pos (by exact_mod_cast hpos) (by norm_num)
      rw [hzero, magnitude_zero] at hclose
      obtain ⟨hlow, -⟩ := abs_le.1 hclose
      linarith
    have hproduct : b.base.toSeconds.mul (infinite false) = infinite false := by
      rw [hr]
      simp [mul, hzero]
    have hover : b.cap.nanos ≤ b.base.nanos * twoPow k := by
      calc b.cap.nanos ≤ twoPow 50 := hcap
        _ ≤ twoPow k := twoPow_le_twoPow (by omega)
        _ ≤ b.base.nanos * twoPow k := Nat.le_mul_of_pos_left _ hpos
    rw [powerOfTwo_min_of_le hk, hproduct]
    simp only [Span.ofSeconds64?, Option.getD_none]
    omega

/-! ## A first wait of zero -/

theorem toSeconds_zero : (⟨0⟩ : Span).toSeconds = ofRank false 0 := by decide +kernel

/-- A first wait of zero stays zero as long as the power of two is finite. -/
theorem delayBefore_of_zero (hfactor : b.multiplier = ofInt 2) (hzero : b.base = ⟨0⟩) {k : Nat} (hk : k < 1024) :
    b.delayBefore (k + 1) = ⟨0⟩ := by
  have hproduct : (ofRank false 0).mul (powerOfTwo k) = ofRank false 0 := by
    have hunits : units 0 = 0 := if_pos (twoPow_pos 52)
    have hrank : (0 : Nat) < infinityRank := by decide
    rw [ofRank_of_lt false hrank, mul_powerOfTwo _ hk, hunits, Nat.zero_mul, nearestRank_zero (twoPow_pos 1074),
      ofRank_of_lt false hrank]
  have hspan : Span.ofSeconds64? (ofRank false 0) = some ⟨0⟩ := by decide +kernel
  rw [delayBefore_succ hfactor, min_greatestExponent hk, hzero, toSeconds_zero, hproduct, hspan, Option.getD_some,
    Nat.zero_min]

/-- Zero times an infinite power is no number, and the cap stands in for what is no number. -/
theorem delayBefore_of_zero_beyond (hfactor : b.multiplier = ofInt 2) (hzero : b.base = ⟨0⟩) {k : Nat}
    (hk : 1024 ≤ k) : b.delayBefore (k + 1) = b.cap := by
  have hproduct : (ofRank false 0).mul (infinite false) = nan := by decide +kernel
  rw [delayBefore_succ hfactor, powerOfTwo_min_of_le hk, hzero, toSeconds_zero, hproduct]
  simp [Span.ofSeconds64?]

/-! ## The schedule -/

theorem delayBefore_le_cap (b : Backoff) (k : Nat) : (b.delayBefore k).nanos ≤ b.cap.nanos := by
  unfold delayBefore
  split
  · exact Nat.zero_le _
  · exact Nat.min_le_right _ _

theorem delayBefore_mono (hfactor : b.multiplier = ofInt 2) (hbase : b.base.nanos ≤ b.cap.nanos)
    (hcap : b.cap.nanos ≤ twoPow 50) {j k : Nat} (hjk : j ≤ k) :
    (b.delayBefore j).nanos ≤ (b.delayBefore k).nanos := by
  cases j with
  | zero => exact Nat.zero_le _
  | succ j =>
      obtain ⟨k, rfl⟩ : ∃ i, k = i + 1 := ⟨k - 1, by omega⟩
      rcases Nat.eq_zero_or_pos b.base.nanos with hzero | hpos
      · have hbase' : b.base = ⟨0⟩ := congrArg Span.mk hzero
        rcases Nat.lt_or_ge j 1024 with hj | hj
        · rw [delayBefore_of_zero hfactor hbase' hj]
          exact Nat.zero_le _
        · rw [delayBefore_of_zero_beyond hfactor hbase' hj, delayBefore_of_zero_beyond hfactor hbase' (by omega)]
      · rw [delayBefore_of_pos hfactor hpos hbase hcap, delayBefore_of_pos hfactor hpos hbase hcap]
        exact min_le_min_left _ (Nat.mul_le_mul_left _ (twoPow_le_twoPow (by omega)))

/-- A backoff that doubles waits for the least of the cap and the first wait times the power of two. Only where the
first wait is zero and the power is infinite, it waits for the cap. -/
theorem delayBefore_doubles (b : Backoff) (hfactor : b.multiplier = ofInt 2) (hbase : b.base.nanos ≤ b.cap.nanos)
    (hcap : b.cap.nanos ≤ twoPow 50) :
    b.delayBefore 0 = ⟨0⟩ ∧
      (∀ k, 0 < b.base.nanos ∨ k < 1024 → b.delayBefore (k + 1) = ⟨min b.cap.nanos (b.base.nanos * twoPow k)⟩) ∧
      (b.base.nanos = 0 → ∀ k, 1024 ≤ k → b.delayBefore (k + 1) = b.cap) ∧
      (∀ j k, j ≤ k → (b.delayBefore j).nanos ≤ (b.delayBefore k).nanos) ∧
      ∀ k, (b.delayBefore k).nanos ≤ b.cap.nanos := by
  refine ⟨rfl, fun k hk => ?_, fun hzero k hk => ?_, fun j k => delayBefore_mono hfactor hbase hcap,
    b.delayBefore_le_cap⟩
  · rcases Nat.eq_zero_or_pos b.base.nanos with hzero | hpos
    · have hbase' : b.base = ⟨0⟩ := congrArg Span.mk hzero
      rw [delayBefore_of_zero hfactor hbase' (by omega), hzero, Nat.zero_mul, Nat.min_zero]
    · exact congrArg Span.mk (delayBefore_of_pos hfactor hpos hbase hcap k)
  · exact delayBefore_of_zero_beyond hfactor (congrArg Span.mk hzero) hk

/-- The greatest cap that is a whole number of milliseconds, and what an agent waits for below it. -/
theorem delayBefore_doubles_greatest :
    let b : Backoff := ⟨.ofMillis 1, .ofMillis 1125899906, 4000, ofInt 2⟩
    b.base.nanos ≤ b.cap.nanos ∧ b.cap.nanos ≤ twoPow 50 ∧ b.delayBefore 0 = ⟨0⟩ ∧
      b.delayBefore 31 = .ofMillis 1073741824 ∧ b.delayBefore 32 = b.cap ∧ b.delayBefore 1100 = b.cap := by
  intro b
  have hbase : b.base.nanos ≤ b.cap.nanos := by decide
  have hcap : b.cap.nanos ≤ twoPow 50 := by decide
  have hfactor : b.multiplier = ofInt 2 := by simp only [b]
  obtain ⟨hfirst, hdoubled, -⟩ := delayBefore_doubles b hfactor hbase hcap
  have hpos : 0 < b.base.nanos := by decide
  have hwaits := fun k => hdoubled k (.inl hpos)
  refine ⟨hbase, hcap, hfirst, (hwaits 30).trans ?_, (hwaits 31).trans ?_, (hwaits 1099).trans ?_⟩
  all_goals decide +kernel

/-- Doubling a wait of zero often enough gives the cap, though no doubling makes it longer. -/
theorem delayBefore_zero_jumps :
    let b : Backoff := ⟨.ofMillis 0, .ofMillis 5000, 2000, ofInt 2⟩
    b.delayBefore 1024 = ⟨0⟩ ∧ b.delayBefore 1025 = .ofMillis 5000 ∧
      b.delayBefore 1025 ≠ ⟨min b.cap.nanos (b.base.nanos * twoPow 1024)⟩ := by
  intro b
  have hfactor : b.multiplier = ofInt 2 := by simp only [b]
  have hlast : b.delayBefore 1024 = ⟨0⟩ := delayBefore_of_zero hfactor rfl (by decide)
  have hbeyond : b.delayBefore 1025 = .ofMillis 5000 := delayBefore_of_zero_beyond hfactor rfl (Nat.le_refl _)
  refine ⟨hlast, hbeyond, ?_⟩
  rw [hbeyond]
  decide +kernel

end PushMetrics.Agent.Backoff
