import PushMetrics.Number.Binary64
import Mathlib.Data.Nat.Log
import Mathlib.Tactic.Ring

/-!
# Rounding

Every finite magnitude is the number nearest to itself, and the number nearest to a decimal depends on the value of
the decimal alone, however it is split into a coefficient and a power of ten.
-/

namespace PushMetrics.Number

/-! ## Powers -/

theorem twoPow_pos (n : Nat) : 0 < twoPow n := Nat.pow_pos (by decide)

theorem tenPow_pos (n : Nat) : 0 < tenPow n := Nat.pow_pos (by decide)

theorem twoPow_add (m n : Nat) : twoPow (m + n) = twoPow m * twoPow n := Nat.pow_add 2 m n

theorem tenPow_add (m n : Nat) : tenPow (m + n) = tenPow m * tenPow n := Nat.pow_add 10 m n

@[simp] theorem twoPow_zero : twoPow 0 = 1 := rfl

@[simp] theorem tenPow_zero : tenPow 0 = 1 := rfl

theorem twoPow_succ (n : Nat) : twoPow (n + 1) = 2 * twoPow n := by
  rw [twoPow_add, Nat.mul_comm]
  rfl

theorem tenPow_eq (n : Nat) : tenPow n = twoPow n * Nat.pow 5 n := Nat.mul_pow 2 5 n

theorem twoPow_le_tenPow {m n : Nat} (h : m ≤ 3 * n) : twoPow m ≤ tenPow n := by
  calc twoPow m ≤ twoPow (3 * n) := Nat.pow_le_pow_right (by decide) h
    _ = 8 ^ n := Nat.pow_mul 2 3 n
    _ ≤ tenPow n := Nat.pow_le_pow_left (by decide) n

theorem le_log2_of_twoPow_le {m n : Nat} (h : twoPow m ≤ n) : m ≤ Nat.log2 n :=
  (Nat.le_log2 (Nat.ne_of_gt (Nat.lt_of_lt_of_le (twoPow_pos m) h))).2 h

/-! ## Quotients -/

theorem roundHalfEven_mul (n : Nat) {den : Nat} (h : 0 < den) : roundHalfEven (n * den) den = n := by
  simp only [roundHalfEven, Nat.mul_div_cancel n h, Nat.mul_mod_left]
  rw [if_neg (by omega)]

/-- A fraction may be expanded before it is rounded. -/
theorem roundHalfEven_scale (num den : Nat) {k : Nat} (h : 0 < k) :
    roundHalfEven (num * k) (den * k) = roundHalfEven num den := by
  have hlt : den * k < 2 * (num % den * k) ↔ den < 2 * (num % den) := by
    rw [← Nat.mul_assoc, Nat.mul_lt_mul_right h]
  have heq : den * k = 2 * (num % den * k) ↔ den = 2 * (num % den) := by
    rw [← Nat.mul_assoc, Nat.mul_left_inj (Nat.ne_of_gt h)]
  simp only [roundHalfEven, Nat.mul_div_mul_right num den h, Nat.mul_mod_mul_right, hlt, heq]

theorem roundHalfEven_eq_zero {num den : Nat} (h : 2 * num < den) : roundHalfEven num den = 0 := by
  have hlt : num < den := by omega
  simp only [roundHalfEven, Nat.div_eq_of_lt hlt, Nat.mod_eq_of_lt hlt]
  rw [if_neg (by omega)]

namespace Binary64

/-! ## Ranks -/

theorem nearestRank_scale (num den : Nat) {k : Nat} (h : 0 < k) :
    nearestRank (num * k) (den * k) = nearestRank num den := by
  have hnum : num * k * twoPow 1074 = num * twoPow 1074 * k := by ring
  have hden : ∀ shift, den * k * shift = den * shift * k := fun shift => by ring
  simp only [nearestRank, hnum, hden, Nat.mul_div_mul_right _ den h, roundHalfEven_scale _ _ h]

theorem nearestRank_eq_zero {num den : Nat} (h : 2 * (num * twoPow 1074) < den) : nearestRank num den = 0 := by
  have hdiv : num * twoPow 1074 / den = 0 := Nat.div_eq_of_lt (by omega)
  simp only [nearestRank, hdiv, Nat.log2_zero, Nat.zero_sub, Nat.zero_mul, Nat.zero_add]
  exact roundHalfEven_eq_zero (by rwa [twoPow_zero, Nat.mul_one])

/-- A number of `2 ^ 1203` or more has no finite rank. -/
theorem infinityRank_le_nearestRank {num : Nat} (h : twoPow 1203 ≤ num) : infinityRank ≤ nearestRank num 1 := by
  have hscaled : twoPow (1203 + 1074) ≤ num * twoPow 1074 / 1 := by
    rw [Nat.div_one, twoPow_add]
    exact Nat.mul_le_mul_right _ h
  have hlog := le_log2_of_twoPow_le hscaled
  have hshift : 2225 * twoPow 52 ≤ (Nat.log2 (num * twoPow 1074 / 1) - 52) * twoPow 52 :=
    Nat.mul_le_mul_right _ (by omega)
  have hrank : infinityRank ≤ 2225 * twoPow 52 := by decide
  exact hrank.trans (hshift.trans (Nat.le_add_right _ _))

/-- A finite magnitude rounds to itself. -/
theorem nearestRank_units (rank : Nat) : nearestRank (units rank) (twoPow 1074) = rank := by
  have hpos : 0 < twoPow 1074 := twoPow_pos 1074
  have hdiv : units rank * twoPow 1074 / twoPow 1074 = units rank := Nat.mul_div_cancel _ hpos
  simp only [nearestRank, hdiv]
  by_cases h : rank < twoPow 52
  · have hunits : units rank = rank := if_pos h
    have hlog : Nat.log2 rank - 52 = 0 := by
      rcases Nat.eq_zero_or_pos rank with rfl | hr
      · rfl
      · have : Nat.log2 rank < 52 := (Nat.log2_lt (by omega)).2 h
        omega
    rw [hunits, hlog, Nat.zero_mul, Nat.zero_add, twoPow_zero, Nat.mul_one]
    exact roundHalfEven_mul rank hpos
  · -- the mantissa has 53 bits, so that the shift is the exponent field less one
    have hrank : 1 ≤ rank / twoPow 52 := (Nat.one_le_div_iff (by decide)).2 (by omega)
    have hmod : rank % twoPow 52 < twoPow 52 := Nat.mod_lt _ (by decide)
    obtain ⟨e, he⟩ : ∃ e, rank / twoPow 52 = e + 1 := ⟨rank / twoPow 52 - 1, by omega⟩
    have hunits : units rank = (twoPow 52 + rank % twoPow 52) * twoPow e := by
      rw [units, if_neg h, he, Nat.add_sub_cancel]
    have hlow : twoPow (52 + e) ≤ units rank := by
      rw [hunits, twoPow_add]
      exact Nat.mul_le_mul_right _ (Nat.le_add_right _ _)
    have hhigh : units rank < twoPow (53 + e) := by
      have htwo : twoPow 52 + rank % twoPow 52 < twoPow 53 := by
        have : twoPow 52 + twoPow 52 = twoPow 53 := by decide
        omega
      rw [hunits, twoPow_add]
      exact Nat.mul_lt_mul_of_pos_right htwo (twoPow_pos e)
    have hne : units rank ≠ 0 := Nat.ne_of_gt (Nat.lt_of_lt_of_le (twoPow_pos _) hlow)
    have hlog : Nat.log2 (units rank) = e + 52 := by
      have hge := le_log2_of_twoPow_le hlow
      have hlt : Nat.log2 (units rank) < 53 + e := (Nat.log2_lt hne).2 hhigh
      omega
    have hsplit : units rank * twoPow 1074 = (twoPow 52 + rank % twoPow 52) * (twoPow 1074 * twoPow e) := by
      rw [hunits]
      ring
    rw [hlog, Nat.add_sub_cancel, hsplit, roundHalfEven_mul _ (Nat.mul_pos hpos (twoPow_pos e))]
    have hrebuilt : twoPow 52 * (rank / twoPow 52) + rank % twoPow 52 = rank := Nat.div_add_mod rank (twoPow 52)
    rw [he] at hrebuilt
    have hring : twoPow 52 * (e + 1) = e * twoPow 52 + twoPow 52 := by ring
    omega

theorem ofRank_of_lt (negative : Bool) {rank : Nat} (h : rank < infinityRank) :
    ofRank negative rank = finite negative ⟨rank, h⟩ := dif_pos h

theorem ofRank_of_le (negative : Bool) {rank : Nat} (h : infinityRank ≤ rank) :
    ofRank negative rank = infinite negative := dif_neg (by omega)

theorem eq_of_ofRank {negative : Bool} {r s : Nat} (hs : s < infinityRank)
    (h : ofRank negative r = ofRank negative s) : r = s := by
  rw [ofRank_of_lt negative hs] at h
  rcases Nat.lt_or_ge r infinityRank with hr | hr
  · rw [ofRank_of_lt negative hr] at h
    injection h with _ hval
    exact congrArg Fin.val hval
  · rw [ofRank_of_le negative hr] at h
    cases h

/-! ## Decimals -/

/-- The rank nearest to the magnitude of a decimal. -/
def rankOf (d : Decimal) : Nat := nearestRank (d.coefficient * tenPow d.exponent.toNat) (tenPow (-d.exponent).toNat)

/-- The shortcuts for decimals far out of range agree with rounding. -/
theorem ofDecimal_eq (d : Decimal) : ofDecimal d = ofRank d.negative (rankOf d) := by
  unfold ofDecimal rankOf
  split
  · rename_i h
    rw [h, Nat.zero_mul, nearestRank_eq_zero]
    simpa using tenPow_pos _
  · rename_i hc
    split
    · rename_i he
      have hexp : (-d.exponent).toNat = 0 := by omega
      have hpow : twoPow 1203 ≤ d.coefficient * tenPow d.exponent.toNat := by
        calc twoPow 1203 ≤ tenPow d.exponent.toNat := twoPow_le_tenPow (by omega)
          _ ≤ d.coefficient * tenPow d.exponent.toNat := Nat.le_mul_of_pos_left _ (Nat.pos_of_ne_zero hc)
      rw [hexp]
      exact (ofRank_of_le _ (infinityRank_le_nearestRank hpow)).symm
    · split
      · rename_i he
        have hexp : d.exponent.toNat = 0 := by omega
        obtain ⟨spare, hspare⟩ : ∃ spare, (-d.exponent).toNat = Nat.log2 d.coefficient + 1 + (401 + spare) :=
          ⟨(-d.exponent).toNat - (Nat.log2 d.coefficient + 1) - 401, by omega⟩
        have hcoefficient : d.coefficient < tenPow (Nat.log2 d.coefficient + 1) :=
          Nat.lt_of_lt_of_le Nat.lt_log2_self (Nat.pow_le_pow_left (by decide) _)
        have hsmall : 2 * (d.coefficient * tenPow 0 * twoPow 1074) < tenPow (-d.exponent).toNat := by
          calc 2 * (d.coefficient * tenPow 0 * twoPow 1074) = d.coefficient * twoPow (1074 + 1) := by
                rw [tenPow_zero, twoPow_succ 1074]
                ring
            _ ≤ d.coefficient * tenPow (401 + spare) := Nat.mul_le_mul_left _ (twoPow_le_tenPow (by omega))
            _ < tenPow (Nat.log2 d.coefficient + 1) * tenPow (401 + spare) :=
                Nat.mul_lt_mul_of_pos_right hcoefficient (tenPow_pos _)
            _ = tenPow (-d.exponent).toNat := by rw [hspare, tenPow_add _ (401 + spare)]
        rw [hexp, nearestRank_eq_zero hsmall]
      · split
        · rename_i hpos
          have hexp : (-d.exponent).toNat = 0 := by omega
          rw [hexp]
          rfl
        · rename_i hneg
          have hexp : d.exponent.toNat = 0 := by omega
          rw [hexp, tenPow_zero, Nat.mul_one]
          rfl

/-- Zeros of the coefficient may be moved into the exponent. -/
theorem rankOf_scale (negative : Bool) (coefficient : Nat) (exponent : Int) (k : Nat) :
    rankOf ⟨negative, coefficient * tenPow k, exponent - k⟩ = rankOf ⟨negative, coefficient, exponent⟩ := by
  -- both fractions, expanded by the part of the power that only the other one has
  have hboth : ∀ a b : Nat, (exponent - k).toNat + a + k = exponent.toNat + b →
      (-(exponent - k)).toNat + a = (-exponent).toNat + b →
      rankOf ⟨negative, coefficient * tenPow k, exponent - k⟩ = rankOf ⟨negative, coefficient, exponent⟩ := by
    intro a b hnum hden
    simp only [rankOf]
    rw [← nearestRank_scale _ _ (tenPow_pos a),
      ← nearestRank_scale (coefficient * tenPow exponent.toNat) _ (tenPow_pos b)]
    congr 1
    · calc coefficient * tenPow k * tenPow (exponent - k).toNat * tenPow a
          = coefficient * tenPow ((exponent - k).toNat + a + k) := by rw [tenPow_add, tenPow_add]; ring
        _ = coefficient * tenPow exponent.toNat * tenPow b := by rw [hnum, tenPow_add, Nat.mul_assoc]
    · rw [← tenPow_add, ← tenPow_add, hden]
  by_cases he : exponent < 0
  · exact hboth 0 k (by omega) (by omega)
  · by_cases hk : (k : Int) ≤ exponent
    · exact hboth 0 0 (by omega) (by omega)
    · exact hboth 0 (k - exponent.toNat) (by omega) (by omega)

/-- A fraction of a power of two in decimal. -/
theorem rankOf_fives (num : Nat) {exponent : Int} {places : Nat} (h : exponent = -(places : Int)) :
    rankOf ⟨false, num * Nat.pow 5 places, exponent⟩ = nearestRank num (twoPow places) := by
  have hnum : exponent.toNat = 0 := by omega
  have hden : (-exponent).toNat = places := by omega
  simp only [rankOf, hnum, hden, tenPow_zero, Nat.mul_one]
  rw [tenPow_eq]
  exact nearestRank_scale _ _ (Nat.pow_pos (by decide))

end Binary64

end PushMetrics.Number
