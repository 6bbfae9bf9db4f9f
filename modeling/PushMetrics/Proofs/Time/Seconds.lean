import PushMetrics.Time.Span
import PushMetrics.Proofs.Number.Accuracy

/-!
# Seconds

A span in seconds of double precision carries the errors of two roundings, one of the fraction of a second and one of
the sum. The way back rounds to the nearest nanosecond.
-/

namespace PushMetrics.Span

open Number Binary64

theorem cast_billion : (tenPow 9 : ℚ) = 10 ^ 9 := cast_tenPow 9

/-- The fraction of a second is rounded once. -/
theorem fraction_close (m : Nat) :
    |magnitude (nearestRank m (tenPow 9)) - (m : ℚ) / 10 ^ 9| ≤ (m : ℚ) / 10 ^ 9 / 2 ^ 53 := by
  obtain rfl | hpos := Nat.eq_zero_or_pos m
  · simp [nearestRank_zero (tenPow_pos 9)]
  · have hone : (1 : ℚ) ≤ m := by exact_mod_cast hpos
    have hnormal : leastNormal ≤ m / (tenPow 9 : ℚ) := by
      rw [cast_billion]
      calc leastNormal ≤ 1 / 10 ^ 10 := leastNormal_le
        _ ≤ 1 / 10 ^ 9 := by norm_num
        _ ≤ m / 10 ^ 9 := div_le_div_of_nonneg_right hone (by norm_num)
    simpa only [cast_billion] using nearestRank_close (tenPow_pos 9) hnormal

theorem seconds_split (n : Nat) :
    (n : ℚ) / 10 ^ 9 = (n / tenPow 9 : Nat) + (n % tenPow 9 : Nat) / (10 : ℚ) ^ 9 := by
  simpa only [cast_billion] using cast_div_cast n (tenPow_pos 9)

/-- What the two roundings of a number of seconds do to it. -/
theorem two_roundings {whole part rounded sum : ℚ} (hwhole : 0 ≤ whole) (hpart : 0 ≤ part)
    (hrounded : |rounded - part| ≤ part / 2 ^ 53) (hsum : |sum - (whole + rounded)| ≤ (whole + rounded) / 2 ^ 53) :
    |sum - (whole + part)| ≤ (whole + part) * (9 / 4) / 2 ^ 53 := by
  obtain ⟨hlow, hhigh⟩ := abs_le.1 hrounded
  obtain ⟨hsumLow, hsumHigh⟩ := abs_le.1 hsum
  rw [abs_le]
  constructor <;> linarith

/-- The seconds of a span, with the error of two roundings. -/
theorem toSeconds_close {s : Span} (hpos : 0 < s.nanos) (hlimit : s.nanos ≤ twoPow 51) :
    ∃ rank : Fin infinityRank, s.toSeconds = finite false rank ∧
      |magnitude rank.val - (s.nanos : ℚ) / 10 ^ 9| ≤ (s.nanos : ℚ) / 10 ^ 9 * (9 / 4) / 2 ^ 53 := by
  obtain ⟨n⟩ := s
  simp only at hpos hlimit ⊢
  have hleast : (1 : ℚ) / 10 ^ 9 ≤ n / 10 ^ 9 :=
    div_le_div_of_nonneg_right (by exact_mod_cast hpos) (by norm_num)
  have hgreatest : (n : ℚ) / 10 ^ 9 ≤ 2 ^ 51 := by
    rw [div_le_iff₀ (by norm_num), ← cast_twoPow]
    calc (n : ℚ) ≤ twoPow 51 := by exact_mod_cast hlimit
      _ ≤ twoPow 51 * 10 ^ 9 := le_mul_of_one_le_right (cast_twoPow_pos 51).le (by norm_num)
  have hrange : ∀ rank, magnitude rank ≤ 2 ^ 60 → rank < infinityRank := fun rank h =>
    lt_infinityRank (h.trans_lt (pow_lt_pow_right₀ (by norm_num) (by norm_num)))
  have hsplit := seconds_split n
  have hfraction := fraction_close (n % tenPow 9)
  have hwholeNonneg : (0 : ℚ) ≤ (n / tenPow 9 : Nat) := Nat.cast_nonneg _
  have hpartNonneg : (0 : ℚ) ≤ (n % tenPow 9 : Nat) / (10 : ℚ) ^ 9 := div_nonneg (Nat.cast_nonneg _) (by norm_num)
  obtain ⟨hlow, hhigh⟩ := abs_le.1 hfraction
  have hfractionRank : nearestRank (n % tenPow 9) (tenPow 9) < infinityRank := hrange _ (by linarith)
  generalize hf : nearestRank (n % tenPow 9) (tenPow 9) = f at *
  have hbounds : (n : ℚ) / 10 ^ 9 / 2 ≤ (n / tenPow 9 : Nat) + magnitude f ∧
      (n / tenPow 9 : Nat) + magnitude f ≤ 2 ^ 52 := by
    rw [hsplit] at hgreatest ⊢
    constructor <;> linarith
  have hsmall : tenPow 9 < twoPow 53 := by decide
  have hbelow : n < twoPow 53 := Nat.lt_of_le_of_lt hlimit (by decide)
  obtain ⟨w, hw, hwunits⟩ := ofInt_natCast (Nat.lt_of_le_of_lt (Nat.div_le_self n (tenPow 9)) hbelow)
  obtain ⟨a, ha, haunits⟩ := ofInt_natCast (Nat.lt_of_le_of_lt (Nat.mod_le n (tenPow 9)) hbelow)
  obtain ⟨b, hb, hbunits⟩ := ofInt_natCast hsmall
  have hdiv := div_naturals haunits hbunits (tenPow_pos 9)
  rw [hf, ofRank_of_lt false hfractionRank] at hdiv
  have hratio : ((units w.val + units f : Nat) : ℚ) / twoPow 1074 = (n / tenPow 9 : Nat) + magnitude f := by
    rw [← magnitude_of_units hwunits, Nat.cast_add, add_div]
    rfl
  have hnormal : leastNormal ≤ ((units w.val + units f : Nat) : ℚ) / twoPow 1074 := by
    rw [hratio]
    calc leastNormal ≤ 1 / 10 ^ 10 := leastNormal_le
      _ ≤ 1 / 10 ^ 9 / 2 := by norm_num
      _ ≤ n / 10 ^ 9 / 2 := by linarith
      _ ≤ _ := hbounds.1
  have hsum := nearestRank_close (twoPow_pos 1074) hnormal
  rw [hratio] at hsum
  generalize ht : nearestRank (units w.val + units f) (twoPow 1074) = t at hsum
  have hsumRank : t < infinityRank := by
    obtain ⟨-, hsumHigh⟩ := abs_le.1 hsum
    exact hrange _ (by linarith)
  refine ⟨⟨t, hsumRank⟩, ?_, ?_⟩
  · simp only [toSeconds, ← Int.natCast_ediv, ← Int.natCast_emod, hw, ha, hb, hdiv, add_finite, ht,
      ofRank_of_lt false hsumRank]
  · rw [hsplit]
    exact two_roundings hwholeNonneg hpartNonneg hfraction hsum

/-- The span of a number of seconds is rounded once more; only a number of `2 ^ 64` or more has none. -/
theorem ofSeconds64?_ofRank (rank : Nat) :
    (∃ n : Nat, ofSeconds64? (ofRank false rank) = some ⟨n⟩ ∧ |(n : ℚ) - magnitude rank * 10 ^ 9| ≤ 1 / 2) ∨
      (ofSeconds64? (ofRank false rank) = none ∧ 2 ^ 64 ≤ magnitude rank) := by
  by_cases hfinite : rank < infinityRank
  · rw [ofRank_of_lt false hfinite]
    by_cases hlarge : twoPow 64 * twoPow 1074 ≤ units rank
    · right
      refine ⟨by simp [ofSeconds64?, hlarge], ?_⟩
      rw [magnitude, le_div_iff₀ (cast_twoPow_pos 1074), ← cast_twoPow]
      exact_mod_cast hlarge
    · left
      refine ⟨roundHalfEven (units rank * tenPow 9) (twoPow 1074), by simp [ofSeconds64?, hlarge], ?_⟩
      have hclose := roundHalfEven_close (units rank * tenPow 9) (twoPow_pos 1074)
      rwa [Nat.cast_mul, cast_billion, mul_div_right_comm] at hclose
  · right
    rw [ofRank_of_le false (by omega)]
    refine ⟨rfl, (pow_le_pow_right₀ (by norm_num) (by norm_num)).trans (not_lt.1 fun h => hfinite (lt_infinityRank h))⟩

end PushMetrics.Span
