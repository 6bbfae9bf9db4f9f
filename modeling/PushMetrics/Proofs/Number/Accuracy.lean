import PushMetrics.Proofs.Number.Rounding
import Mathlib.Algebra.Order.Field.Rat
import Mathlib.Algebra.Order.AbsoluteValue.Basic
import Mathlib.Tactic.FieldSimp
import Mathlib.Tactic.Linarith
import Mathlib.Tactic.NormNum
import Mathlib.Tactic.Positivity

/-!
# Accuracy

A quotient that is not below the normal magnitudes differs from the magnitude it is rounded to by at most its
2⁵³rd part. Natural numbers below 2⁵³ and powers of two are magnitudes themselves.
-/

namespace PushMetrics.Number

theorem twoPow_le_twoPow {m n : Nat} (h : m ≤ n) : twoPow m ≤ twoPow n := Nat.pow_le_pow_right (by decide) h

theorem cast_twoPow (n : Nat) : (twoPow n : ℚ) = 2 ^ n := Nat.cast_pow 2 n

theorem cast_tenPow (n : Nat) : (tenPow n : ℚ) = 10 ^ n := Nat.cast_pow 10 n

theorem cast_twoPow_pos (n : Nat) : (0 : ℚ) < twoPow n := by exact_mod_cast twoPow_pos n

/-- A quotient is its whole part and what is left over. -/
theorem cast_div_cast (num : Nat) {den : Nat} (h : 0 < den) :
    (num : ℚ) / den = (num / den : Nat) + (num % den : Nat) / den := by
  have hden : (0 : ℚ) < den := by exact_mod_cast h
  have hdivision : (num : ℚ) = den * (num / den : Nat) + (num % den : Nat) := by
    exact_mod_cast (Nat.div_add_mod num den).symm
  rw [hdivision]
  field_simp

/-- A rounded quotient is at most a half away from the quotient. -/
theorem roundHalfEven_close (num : Nat) {den : Nat} (h : 0 < den) :
    |(roundHalfEven num den : ℚ) - num / den| ≤ 1 / 2 := by
  have hden : (0 : ℚ) < den := by exact_mod_cast h
  have hrest : (num % den : Nat) < (den : ℚ) := by exact_mod_cast Nat.mod_lt num h
  have hquotient := cast_div_cast num h
  simp only [roundHalfEven]
  generalize num / den = q at hquotient
  generalize num % den = r at hrest hquotient
  rw [hquotient, abs_le]
  split
  · rename_i hup
    have hhalf : (den : ℚ) ≤ 2 * r := by exact_mod_cast (by omega : den ≤ 2 * r)
    have hlow : 1 / 2 ≤ (r : ℚ) / den := by
      rw [le_div_iff₀ hden]
      linarith
    have hhigh : (r : ℚ) / den ≤ 1 := (div_le_one hden).2 hrest.le
    push_cast
    constructor <;> linarith
  · rename_i hdown
    have hhalf : 2 * (r : ℚ) ≤ den := by exact_mod_cast (by omega : 2 * r ≤ den)
    have hlow : 0 ≤ (r : ℚ) / den := by positivity
    have hhigh : (r : ℚ) / den ≤ 1 / 2 := by
      rw [div_le_iff₀ hden]
      linarith
    constructor <;> linarith

namespace Binary64

/-! ## Magnitudes -/

/-- The magnitude of a rank as a rational number. -/
def magnitude (rank : Nat) : ℚ := units rank / twoPow 1074

/-- The least magnitude with a mantissa of 53 bits. -/
def leastNormal : ℚ := twoPow 52 / twoPow 1074

theorem leastNormal_le : leastNormal ≤ 1 / 10 ^ 10 := by
  rw [leastNormal, div_le_div_iff₀ (cast_twoPow_pos 1074) (by positivity), cast_twoPow, cast_twoPow]
  calc (2 : ℚ) ^ 52 * 10 ^ 10 ≤ 2 ^ 86 := by norm_num
    _ ≤ 1 * 2 ^ 1074 := by rw [one_mul]; exact pow_le_pow_right₀ (by norm_num) (by norm_num)

theorem magnitude_nonneg (rank : Nat) : 0 ≤ magnitude rank :=
  div_nonneg (Nat.cast_nonneg _) (cast_twoPow_pos 1074).le

@[simp] theorem magnitude_zero : magnitude 0 = 0 := by
  have hunits : units 0 = 0 := if_pos (twoPow_pos 52)
  rw [magnitude, hunits, Nat.cast_zero, zero_div]

theorem magnitude_of_units {rank n : Nat} (h : units rank = n * twoPow 1074) : magnitude rank = n := by
  have hscale := (cast_twoPow_pos 1074).ne'
  rw [magnitude, h, Nat.cast_mul]
  generalize (twoPow 1074 : ℚ) = scale at hscale
  exact mul_div_cancel_right₀ _ hscale

/-- Ranks beyond the finite ones would be magnitudes of `2 ^ 1024` and more. -/
theorem lt_infinityRank {rank : Nat} (h : magnitude rank < 2 ^ 1024) : rank < infinityRank := by
  by_contra hle
  have hfield : infinityRank = 2047 * twoPow 52 := by decide
  have hexponent : 2047 ≤ rank / twoPow 52 := (Nat.le_div_iff_mul_le (twoPow_pos 52)).2 (by omega)
  have hunits : twoPow (1024 + 1074) ≤ units rank := by
    have hnormal : ¬rank < twoPow 52 := by omega
    calc twoPow (1024 + 1074) = twoPow 52 * twoPow 2046 := twoPow_add 52 2046
      _ ≤ (twoPow 52 + rank % twoPow 52) * twoPow (rank / twoPow 52 - 1) :=
          Nat.mul_le_mul (Nat.le_add_right _ _) (twoPow_le_twoPow (by omega))
      _ = units rank := by rw [units, if_neg hnormal]
  rw [magnitude, div_lt_iff₀ (cast_twoPow_pos 1074), ← cast_twoPow, ← Nat.cast_mul, ← twoPow_add] at h
  exact absurd (Nat.cast_lt.1 h) (Nat.not_lt.2 hunits)

/-- What a mantissa of 53 bits, or the one that follows the greatest of them, stands for. -/
theorem units_of_mantissa (shift : Nat) {m : Nat} (hlow : twoPow 52 ≤ m) (hhigh : m ≤ twoPow 53) :
    units (shift * twoPow 52 + m) = m * twoPow shift := by
  have htop : twoPow 53 = twoPow 52 + twoPow 52 := by decide
  have hpos : 0 < twoPow 52 := twoPow_pos 52
  have hnormal : ¬shift * twoPow 52 + m < twoPow 52 := by
    have := Nat.le_add_left m (shift * twoPow 52)
    omega
  rw [units, if_neg hnormal]
  obtain rfl | hbelow := Nat.eq_or_lt_of_le hhigh
  · -- the fraction is zero, and the exponent field is greater by one
    have hsum : shift * twoPow 52 + twoPow 53 = (shift + 2) * twoPow 52 := by
      rw [htop]
      ring
    rw [hsum, Nat.mul_mod_left, Nat.mul_div_cancel _ hpos, Nat.add_zero, ← twoPow_add, ← twoPow_add]
    congr 1
    omega
  · obtain ⟨fraction, rfl⟩ : ∃ fraction, m = twoPow 52 + fraction := ⟨m - twoPow 52, by omega⟩
    have hfraction : fraction < twoPow 52 := by omega
    have hsum : shift * twoPow 52 + (twoPow 52 + fraction) = fraction + twoPow 52 * (shift + 1) := by ring
    rw [hsum, Nat.add_mul_mod_self_left, Nat.add_mul_div_left _ _ hpos, Nat.mod_eq_of_lt hfraction,
      Nat.div_eq_of_lt hfraction, Nat.zero_add, Nat.add_sub_cancel]

/-! ## Rounding to the nearest magnitude -/

/-- Cut to a multiple of a power of two, a number leaves a mantissa. -/
theorem cut_mantissa (n : Nat) :
    (Nat.log2 n - 52 = 0 ∨ twoPow 52 ≤ n / twoPow (Nat.log2 n - 52)) ∧ n / twoPow (Nat.log2 n - 52) < twoPow 53 := by
  rcases Nat.eq_zero_or_pos n with rfl | hn
  · exact ⟨.inl rfl, by decide⟩
  · have hlow : twoPow (Nat.log2 n) ≤ n := Nat.log2_self_le hn.ne'
    have hhigh : n < twoPow (Nat.log2 n + 1) := Nat.lt_log2_self
    generalize Nat.log2 n = place at hlow hhigh
    rw [Nat.div_lt_iff_lt_mul (twoPow_pos _), ← twoPow_add]
    refine ⟨?_, hhigh.trans_le (twoPow_le_twoPow (by omega))⟩
    rcases Nat.le_total place 52 with hsmall | hlarge
    · exact .inl (by omega)
    · have hplace : 52 + (place - 52) = place := by omega
      rw [Nat.le_div_iff_mul_le (twoPow_pos _), ← twoPow_add, hplace]
      exact .inr hlow

/-- A quotient that is not below the normal magnitudes is rounded to a mantissa of 53 bits. -/
theorem nearestRank_mantissa {num den : Nat} (hden : 0 < den) (hnormal : twoPow 52 * den ≤ num * twoPow 1074) :
    ∃ shift m, nearestRank num den = shift * twoPow 52 + m ∧ twoPow 52 ≤ m ∧ m ≤ twoPow 53 ∧
      m = roundHalfEven (num * twoPow 1074) (den * twoPow shift) ∧
      twoPow (52 + shift) * den ≤ num * twoPow 1074 := by
  generalize hscaled : num * twoPow 1074 = scaled at hnormal
  obtain ⟨hlow, hhigh⟩ := cut_mantissa (scaled / den)
  generalize hshift : Nat.log2 (scaled / den) - 52 = shift at hlow hhigh
  have hquotient : scaled / (den * twoPow shift) = scaled / den / twoPow shift := (Nat.div_div_eq_div_mul _ _ _).symm
  have hdown : twoPow 52 ≤ scaled / (den * twoPow shift) := by
    rw [hquotient]
    rcases hlow with rfl | hlow
    · rw [twoPow_zero, Nat.div_one]
      exact (Nat.le_div_iff_mul_le hden).2 hnormal
    · exact hlow
  have hup : scaled / (den * twoPow shift) < twoPow 53 := by rwa [hquotient]
  refine ⟨shift, roundHalfEven scaled (den * twoPow shift), ?_, ?_, ?_, rfl, ?_⟩
  · simp only [nearestRank, hscaled, hshift]
  · simp only [roundHalfEven]
    split <;> omega
  · simp only [roundHalfEven]
    split <;> omega
  · rwa [hquotient, Nat.le_div_iff_mul_le (twoPow_pos shift), ← twoPow_add, Nat.le_div_iff_mul_le hden] at hdown

theorem nearestRank_close {num den : Nat} (hden : 0 < den) (hnormal : leastNormal ≤ num / den) :
    |magnitude (nearestRank num den) - num / den| ≤ num / den / 2 ^ 53 := by
  have hden' : (0 : ℚ) < den := by exact_mod_cast hden
  have htwo := cast_twoPow_pos 1074
  have hmantissa : twoPow 52 * den ≤ num * twoPow 1074 := by
    rw [leastNormal, div_le_div_iff₀ htwo hden'] at hnormal
    exact_mod_cast hnormal
  obtain ⟨shift, m, hrank, hlow, hhigh, hm, hvalue⟩ := nearestRank_mantissa hden hmantissa
  have hplace := cast_twoPow_pos shift
  have hunit : (0 : ℚ) < twoPow shift / twoPow 1074 := div_pos hplace htwo
  have hclose := roundHalfEven_close (num * twoPow 1074) (Nat.mul_pos hden (twoPow_pos shift))
  rw [← hm] at hclose
  have herror : magnitude (nearestRank num den) - num / den
      = (m - (num * twoPow 1074 : Nat) / (den * twoPow shift : Nat)) * (twoPow shift / twoPow 1074) := by
    rw [hrank, magnitude, units_of_mantissa shift hlow hhigh]
    push_cast
    generalize (twoPow 1074 : ℚ) = one at htwo
    field_simp
  have hlast : (2 : ℚ) ^ 52 * (twoPow shift / twoPow 1074) ≤ num / den := by
    rw [← mul_div_assoc, div_le_div_iff₀ htwo hden', ← cast_twoPow, ← Nat.cast_mul, ← twoPow_add]
    exact_mod_cast hvalue
  rw [herror, abs_mul, abs_of_pos hunit]
  have hhalf := mul_le_mul_of_nonneg_right hclose hunit.le
  linarith

theorem nearestRank_zero {den : Nat} (hden : 0 < den) : nearestRank 0 den = 0 :=
  nearestRank_eq_zero (by rwa [Nat.zero_mul, Nat.mul_zero])

/-! ## Exact numbers -/

theorem nearestRank_of_units {num den rank : Nat} {k : Nat} (hk : 0 < k) (hnum : num * k = units rank)
    (hden : den * k = twoPow 1074) : nearestRank num den = rank := by
  rw [← nearestRank_scale num den hk, hnum, hden, nearestRank_units]

/-- A natural number below 2⁵³ is a magnitude. -/
theorem ofInt_natCast {n : Nat} (h : n < twoPow 53) :
    ∃ rank : Fin infinityRank, ofInt n = finite false rank ∧ units rank.val = n * twoPow 1074 := by
  obtain ⟨rank, hunits⟩ : ∃ rank, units rank = n * twoPow 1074 := by
    obtain rfl | hn := Nat.eq_zero_or_pos n
    · exact ⟨0, by rw [Nat.zero_mul]; rfl⟩
    · have hlog : Nat.log2 n < 53 := (Nat.log2_lt hn.ne').2 h
      have hlow : twoPow (Nat.log2 n) ≤ n := Nat.log2_self_le hn.ne'
      have hhigh : n < twoPow (Nat.log2 n + 1) := Nat.lt_log2_self
      generalize Nat.log2 n = place at hlog hlow hhigh
      refine ⟨(place + 1022) * twoPow 52 + n * twoPow (52 - place), ?_⟩
      have hmantissa : twoPow 52 ≤ n * twoPow (52 - place) := by
        calc twoPow 52 = twoPow place * twoPow (52 - place) := by rw [← twoPow_add]; congr 1; omega
          _ ≤ n * twoPow (52 - place) := Nat.mul_le_mul_right _ hlow
      have htop : n * twoPow (52 - place) ≤ twoPow 53 := by
        calc n * twoPow (52 - place) ≤ twoPow (place + 1) * twoPow (52 - place) := Nat.mul_le_mul_right _ hhigh.le
          _ = twoPow 53 := by rw [← twoPow_add]; congr 1; omega
      have hsum : 52 - place + (place + 1022) = 1074 := by omega
      rw [units_of_mantissa _ hmantissa htop, Nat.mul_assoc, ← twoPow_add, hsum]
  have hrank : rank < infinityRank := by
    refine lt_infinityRank ?_
    rw [magnitude_of_units hunits]
    calc (n : ℚ) < twoPow 53 := by exact_mod_cast h
      _ = 2 ^ 53 := cast_twoPow 53
      _ ≤ 2 ^ 1024 := pow_le_pow_right₀ (by norm_num) (by norm_num)
  refine ⟨⟨rank, hrank⟩, ?_, hunits⟩
  have hsign : decide ((n : Int) < 0) = false := by simp
  rw [ofInt, ofRatio, hsign, Int.natAbs_natCast, nearestRank_of_units (twoPow_pos 1074) hunits.symm (Nat.one_mul _),
    ofRank_of_lt false hrank]

/-! ## Arithmetic -/

theorem div_naturals {a b : Fin infinityRank} {m n : Nat} (ha : units a.val = m * twoPow 1074)
    (hb : units b.val = n * twoPow 1074) (hn : 0 < n) :
    (finite false a).div (finite false b) = ofRank false (nearestRank m n) := by
  have hzero : b.val ≠ 0 := fun h => by
    have hunits : units 0 = 0 := if_pos (twoPow_pos 52)
    rw [h, hunits] at hb
    exact absurd hb (Nat.mul_pos hn (twoPow_pos 1074)).ne
  simp only [Binary64.div, hzero, ↓reduceIte, bne_self_eq_false, ofRatio]
  rw [ha, hb, nearestRank_scale _ _ (twoPow_pos 1074)]

theorem add_finite (a b : Fin infinityRank) :
    (finite false a).add (finite false b) = ofRank false (nearestRank (units a.val + units b.val) (twoPow 1074)) := by
  have hsum : signedUnits false a.val + signedUnits false b.val = ((units a.val + units b.val : Nat) : Int) := by
    simp [signedUnits]
  have hsign : decide (((units a.val + units b.val : Nat) : Int) < 0) = false :=
    decide_eq_false (Int.not_lt.2 (Int.natCast_nonneg _))
  simp only [Binary64.add, hsum, hsign, Bool.and_false, Bool.or_false, ofRatio, Int.natAbs_natCast]

/-! ## Powers of two -/

/-- The power of two with an exponent, infinite where it is beyond the finite numbers. -/
def powerOfTwo (n : Nat) : Binary64 := ofRank false ((1023 + n) * twoPow 52)

theorem units_powerOfTwo (n : Nat) : units ((1023 + n) * twoPow 52) = twoPow (1074 + n) := by
  have hsum : (1023 + n) * twoPow 52 = (1022 + n) * twoPow 52 + twoPow 52 := by ring
  rw [hsum, units_of_mantissa _ le_rfl (by decide), ← twoPow_add]
  congr 1
  omega

theorem powerOfTwo_of_lt {n : Nat} (h : n < 1024) :
    ∃ rank : Fin infinityRank, powerOfTwo n = finite false rank ∧ units rank.val = twoPow (1074 + n) := by
  have hrank : (1023 + n) * twoPow 52 < infinityRank := by
    calc (1023 + n) * twoPow 52 < 2047 * twoPow 52 := Nat.mul_lt_mul_of_pos_right (by omega) (twoPow_pos 52)
      _ = infinityRank := by decide
  exact ⟨⟨_, hrank⟩, ofRank_of_lt false hrank, units_powerOfTwo n⟩

theorem powerOfTwo_of_le {n : Nat} (h : 1024 ≤ n) : powerOfTwo n = infinite false := by
  refine ofRank_of_le false ?_
  calc infinityRank = 2047 * twoPow 52 := by decide
    _ ≤ (1023 + n) * twoPow 52 := Nat.mul_le_mul_right _ (by omega)

theorem powerOfTwo_mul (m n : Nat) : (powerOfTwo m).mul (powerOfTwo n) = powerOfTwo (m + n) := by
  by_cases hm : m < 1024
  · obtain ⟨r, hr, hrunits⟩ := powerOfTwo_of_lt hm
    have hrzero : r.val ≠ 0 := fun h => by
      rw [h] at hrunits
      exact absurd hrunits (twoPow_pos _).ne
    by_cases hn : n < 1024
    · obtain ⟨s, hs, hsunits⟩ := powerOfTwo_of_lt hn
      have hproduct : units r.val * units s.val = twoPow (1074 + (m + n)) * twoPow 1074 := by
        rw [hrunits, hsunits, ← twoPow_add, ← twoPow_add]
        congr 1
        omega
      have hscale : twoPow 2148 = twoPow 1074 * twoPow 1074 := by rw [← twoPow_add]
      rw [hr, hs, powerOfTwo]
      simp only [mul, ofRatio, bne_self_eq_false]
      rw [hproduct, hscale, nearestRank_scale _ _ (twoPow_pos 1074), ← units_powerOfTwo, nearestRank_units]
    · rw [hr, powerOfTwo_of_le (by omega), powerOfTwo_of_le (by omega)]
      simp [mul, hrzero]
  · rw [powerOfTwo_of_le (by omega : 1024 ≤ m), powerOfTwo_of_le (by omega : 1024 ≤ m + n)]
    by_cases hn : n < 1024
    · obtain ⟨s, hs, hsunits⟩ := powerOfTwo_of_lt hn
      have hszero : s.val ≠ 0 := fun h => by
        rw [h] at hsunits
        exact absurd hsunits (twoPow_pos _).ne
      rw [hs]
      simp [mul, hszero]
    · rw [powerOfTwo_of_le (by omega : 1024 ≤ n)]
      simp [mul, signOf]

theorem powFrom_powerOfTwo (m n exponent : Nat) :
    powFrom (powerOfTwo m) (powerOfTwo n) exponent = powerOfTwo (m + n * exponent) := by
  induction exponent using Nat.strongRecOn generalizing m n with
  | _ exponent ih =>
      have hbit : (if exponent % 2 = 1 then (powerOfTwo m).mul (powerOfTwo n) else powerOfTwo m)
          = powerOfTwo (m + n * (exponent % 2)) := by
        split
        · rename_i hodd
          rw [powerOfTwo_mul, hodd, Nat.mul_one]
        · rename_i heven
          rw [Nat.mod_two_ne_one.1 heven, Nat.mul_zero, Nat.add_zero]
      rw [powFrom, hbit, powerOfTwo_mul]
      split
      · rename_i hlast
        rw [Nat.mod_eq_of_lt (by omega)]
      · rename_i hmore
        rw [ih (exponent / 2) (by omega)]
        have hsplit := Nat.div_add_mod exponent 2
        congr 1
        calc m + n * (exponent % 2) + (n + n) * (exponent / 2) = m + n * (2 * (exponent / 2) + exponent % 2) := by ring
          _ = m + n * exponent := by rw [hsplit]

theorem ofInt_two_pow (exponent : Nat) : (ofInt 2).pow exponent = powerOfTwo exponent := by
  have hone : ofInt 1 = powerOfTwo 0 := by decide +kernel
  have htwo : ofInt 2 = powerOfTwo 1 := by decide +kernel
  rw [pow, hone, htwo, powFrom_powerOfTwo, Nat.zero_add, Nat.one_mul]

theorem mul_powerOfTwo (r : Fin infinityRank) {k : Nat} (hk : k < 1024) :
    (finite false r).mul (powerOfTwo k) = ofRank false (nearestRank (units r.val * twoPow k) (twoPow 1074)) := by
  obtain ⟨p, hp, hunits⟩ := powerOfTwo_of_lt hk
  have hnum : units r.val * units p.val = units r.val * twoPow k * twoPow 1074 := by
    rw [hunits, twoPow_add 1074 k]
    ring
  have hden : twoPow 2148 = twoPow 1074 * twoPow 1074 := twoPow_add 1074 1074
  rw [hp]
  simp only [mul, bne_self_eq_false, ofRatio]
  rw [hnum, hden, nearestRank_scale _ _ (twoPow_pos 1074)]

end Binary64

end PushMetrics.Number
