import PushMetrics.Proofs.Number.Accuracy

/-!
# Correct rounding

Which double precision number stands for a quotient, said without the way it is found: up to half way between the
greatest finite number and the next power of two the nearest finite one, of two equally near ones the one whose last
bit is zero, and infinity from there on. There is exactly one such number, and it is the one that is computed.
-/

namespace PushMetrics.Number

namespace Binary64

/-! ## Ranks and mantissas -/

/-- A mantissa has 53 bits, or fewer with the least exponent. -/
theorem units_mantissa {shift m : Nat} (hlow : shift = 0 ∨ twoPow 52 ≤ m) (hhigh : m ≤ twoPow 53) :
    units (shift * twoPow 52 + m) = m * twoPow shift := by
  by_cases hnormal : twoPow 52 ≤ m
  · exact units_of_mantissa shift hnormal hhigh
  · obtain rfl : shift = 0 := hlow.resolve_right hnormal
    rw [Nat.zero_mul, Nat.zero_add, units, if_pos (Nat.lt_of_not_le hnormal), twoPow_zero, Nat.mul_one]

theorem magnitude_mantissa {shift m : Nat} (hlow : shift = 0 ∨ twoPow 52 ≤ m) (hhigh : m ≤ twoPow 53) :
    magnitude (shift * twoPow 52 + m) = m * (twoPow shift / twoPow 1074) := by
  rw [magnitude, units_mantissa hlow hhigh, Nat.cast_mul, mul_div_assoc]

theorem exists_mantissa (rank : Nat) :
    ∃ shift m, rank = shift * twoPow 52 + m ∧ (shift = 0 ∨ twoPow 52 ≤ m) ∧ m < twoPow 53 := by
  have htop : twoPow 53 = twoPow 52 + twoPow 52 := by decide
  by_cases hnormal : rank < twoPow 52
  · exact ⟨0, rank, by omega, .inl rfl, by omega⟩
  · have hfield : 1 ≤ rank / twoPow 52 := (Nat.one_le_div_iff (twoPow_pos 52)).2 (by omega)
    obtain ⟨shift, hshift⟩ : ∃ shift, rank / twoPow 52 = shift + 1 := ⟨rank / twoPow 52 - 1, by omega⟩
    have hrank : twoPow 52 * (shift + 1) + rank % twoPow 52 = rank := hshift ▸ Nat.div_add_mod rank (twoPow 52)
    have hfraction : rank % twoPow 52 < twoPow 52 := Nat.mod_lt _ (twoPow_pos 52)
    have hring : twoPow 52 * (shift + 1) = shift * twoPow 52 + twoPow 52 := by ring
    exact ⟨shift, twoPow 52 + rank % twoPow 52, by omega, .inr (by omega), by omega⟩

theorem units_lt_succ (rank : Nat) : units rank < units (rank + 1) := by
  obtain ⟨shift, m, rfl, hlow, hhigh⟩ := exists_mantissa rank
  rw [Nat.add_assoc, units_mantissa hlow hhigh.le, units_mantissa (by omega) hhigh]
  exact Nat.mul_lt_mul_of_pos_right m.lt_succ_self (twoPow_pos shift)

theorem magnitude_strictMono : StrictMono magnitude :=
  strictMono_nat_of_lt_succ fun rank =>
    div_lt_div_of_pos_right (by exact_mod_cast units_lt_succ rank) (cast_twoPow_pos 1074)

/-! ## The nearer of two magnitudes -/

/-- A magnitude is nearer to a number than another, or as near and its last bit is zero. -/
def Preferred (x : ℚ) (rank other : Nat) : Prop :=
  |magnitude rank - x| < |magnitude other - x| ∨ |magnitude rank - x| = |magnitude other - x| ∧ rank % 2 = 0

theorem sub_sq_sub_sq (a b x : ℚ) : (b - x) ^ 2 - (a - x) ^ 2 = (b - a) * (a + b - 2 * x) := by ring

/-- The lesser of two numbers is the nearer one below the middle between them. -/
theorem abs_sub_lt_abs_sub_iff {a b : ℚ} (h : a < b) (x : ℚ) : |a - x| < |b - x| ↔ 2 * x < a + b := by
  rw [← sq_lt_sq, ← sub_pos, sub_sq_sub_sq, mul_pos_iff_of_pos_left (sub_pos.2 h), sub_pos]

theorem abs_sub_eq_abs_sub_iff {a b : ℚ} (h : a < b) (x : ℚ) : |a - x| = |b - x| ↔ 2 * x = a + b := by
  rw [eq_comm, ← sq_eq_sq_iff_abs_eq_abs, ← sub_eq_zero, sub_sq_sub_sq, mul_eq_zero,
    or_iff_right (sub_pos.2 h).ne', sub_eq_zero, eq_comm]

theorem abs_sub_gt_abs_sub_iff {a b : ℚ} (h : a < b) (x : ℚ) : |b - x| < |a - x| ↔ a + b < 2 * x := by
  rw [← not_le, le_iff_lt_or_eq, abs_sub_lt_abs_sub_iff h, abs_sub_eq_abs_sub_iff h, ← le_iff_lt_or_eq, not_le]

theorem preferred_below_iff {x : ℚ} {rank other : Nat} (h : rank < other) :
    Preferred x rank other ↔ 2 * x < magnitude rank + magnitude other ∨
      2 * x = magnitude rank + magnitude other ∧ rank % 2 = 0 := by
  have hlt := magnitude_strictMono h
  rw [Preferred, abs_sub_lt_abs_sub_iff hlt, abs_sub_eq_abs_sub_iff hlt]

theorem preferred_above_iff {x : ℚ} {rank other : Nat} (h : other < rank) :
    Preferred x rank other ↔ magnitude other + magnitude rank < 2 * x ∨
      2 * x = magnitude other + magnitude rank ∧ rank % 2 = 0 := by
  have hlt := magnitude_strictMono h
  rw [Preferred, abs_sub_gt_abs_sub_iff hlt, eq_comm, abs_sub_eq_abs_sub_iff hlt]

/-- What is preferred to its neighbours is preferred to all others. -/
theorem preferred_of_neighbours {x : ℚ} {rank : Nat} (habove : Preferred x rank (rank + 1))
    (hbelow : ∀ below, below + 1 = rank → Preferred x rank below) {other : Nat} (h : other ≠ rank) :
    Preferred x rank other := by
  rcases Nat.lt_or_gt_of_ne h with hless | hmore
  · obtain ⟨below, rfl⟩ : ∃ below, below + 1 = rank := ⟨rank - 1, by omega⟩
    rcases Nat.lt_succ_iff_lt_or_eq.1 hless with hfar | rfl
    · have hfarther := magnitude_strictMono hfar
      have hnear := (preferred_above_iff below.lt_succ_self).1 (hbelow below rfl)
      refine (preferred_above_iff hless).2 (.inl ?_)
      rcases hnear with hnear | ⟨hnear, -⟩ <;> linarith
    · exact hbelow other rfl
  · rcases Nat.eq_or_lt_of_le (Nat.succ_le_of_lt hmore) with rfl | hfar
    · exact habove
    · have hfarther := magnitude_strictMono hfar
      have hnear := (preferred_below_iff rank.lt_succ_self).1 habove
      refine (preferred_below_iff hmore).2 (.inl ?_)
      rcases hnear with hnear | ⟨hnear, -⟩ <;> linarith

/-- Of two magnitudes that are each preferred to the other, another one lies between them, and it is nearer. -/
theorem Preferred.exists_between {x : ℚ} {r s : Nat} (hlt : r < s) (hr : Preferred x r s) (hs : Preferred x s r) :
    r + 1 < s ∧ ¬ Preferred x r (r + 1) := by
  rw [preferred_below_iff hlt] at hr
  rw [preferred_above_iff hlt] at hs
  have htie : 2 * x = magnitude r + magnitude s ∧ r % 2 = 0 ∧ s % 2 = 0 := by
    rcases hr with hr | ⟨htie, hreven⟩
    · rcases hs with hs | ⟨hs, -⟩ <;> linarith
    · rcases hs with hs | ⟨-, hseven⟩
      · linarith
      · exact ⟨htie, hreven, hseven⟩
  obtain ⟨hmiddle, hreven, hseven⟩ := htie
  -- neighbours are not both even
  have hbetween : r + 1 < s := by omega
  have hnearer := magnitude_strictMono hbetween
  refine ⟨hbetween, fun h => ?_⟩
  rcases (preferred_below_iff r.lt_succ_self).1 h with h | ⟨h, -⟩ <;> linarith

/-- No two magnitudes in range are preferred to all others. -/
theorem eq_of_preferred {x : ℚ} {bound r s : Nat} (hr : r < bound) (hs : s < bound)
    (hrbest : ∀ other < bound, other ≠ r → Preferred x r other)
    (hsbest : ∀ other < bound, other ≠ s → Preferred x s other) : r = s := by
  rcases Nat.lt_trichotomy r s with hlt | heq | hgt
  · obtain ⟨hbetween, hnearer⟩ := Preferred.exists_between hlt (hrbest s hs hlt.ne') (hsbest r hr hlt.ne)
    exact absurd (hrbest (r + 1) (hbetween.trans hs) r.succ_ne_self) hnearer
  · exact heq
  · obtain ⟨hbetween, hnearer⟩ := Preferred.exists_between hgt (hsbest r hr hgt.ne') (hrbest s hs hgt.ne)
    exact absurd (hsbest (s + 1) (hbetween.trans hr) s.succ_ne_self) hnearer

/-! ## The rank that is computed -/

/-- A quotient lies between two neighbouring magnitudes; the one to which it is rounded is chosen by what is left over
from the lower one. -/
theorem nearestRank_between (num : Nat) {den : Nat} (hden : 0 < den) :
    ∃ low left whole : Nat, ∃ step : ℚ, 0 < step ∧ left < whole ∧
      (num : ℚ) / den = magnitude low + left / whole * step ∧ magnitude (low + 1) = magnitude low + step ∧
      nearestRank num den = if whole < 2 * left ∨ whole = 2 * left ∧ low % 2 = 1 then low + 1 else low := by
  generalize hscaled : num * twoPow 1074 = scaled
  generalize hshift : Nat.log2 (scaled / den) - 52 = shift
  generalize hwhole : den * twoPow shift = whole
  have hplace := cast_twoPow_pos shift
  have htwo := cast_twoPow_pos 1074
  have hwholePos : 0 < whole := hwhole ▸ Nat.mul_pos hden (twoPow_pos shift)
  have hmantissa : (shift = 0 ∨ twoPow 52 ≤ scaled / whole) ∧ scaled / whole < twoPow 53 := by
    have hcut := cut_mantissa (scaled / den)
    rwa [hshift, Nat.div_div_eq_div_mul, hwhole] at hcut
  obtain ⟨hlow, hhigh⟩ := hmantissa
  refine ⟨shift * twoPow 52 + scaled / whole, scaled % whole, whole, twoPow shift / twoPow 1074, div_pos hplace htwo,
    Nat.mod_lt _ hwholePos, ?_, ?_, ?_⟩
  · have hexpanded : (num : ℚ) / den = scaled / whole * (twoPow shift / twoPow 1074) := by
      rw [← hscaled, ← hwhole, Nat.cast_mul, Nat.cast_mul]
      generalize (twoPow 1074 : ℚ) = one at htwo
      field_simp
    rw [hexpanded, magnitude_mantissa hlow hhigh.le, cast_div_cast scaled hwholePos, add_mul]
  · rw [Nat.add_assoc, magnitude_mantissa (by omega) hhigh, magnitude_mantissa hlow hhigh.le, Nat.cast_succ, add_mul,
      one_mul]
  · -- the rank is even or odd as its mantissa is
    have heven : shift * twoPow 52 = 2 * (shift * twoPow 51) := by rw [twoPow_succ 51, Nat.mul_left_comm]
    have hparity : (shift * twoPow 52 + scaled / whole) % 2 = scaled / whole % 2 := by
      rw [heven, Nat.mul_add_mod]
    have hrank : nearestRank num den = shift * twoPow 52 + roundHalfEven scaled whole := by
      rw [nearestRank, hscaled, hshift, hwhole]
    rw [hrank, roundHalfEven, hparity, Nat.add_assoc]
    exact apply_ite (shift * twoPow 52 + ·) _ _ _

section Between

variable {x part step : ℚ} {low other : Nat}

/-- Of two neighbours with a number between them, the upper one is preferred to all others if more than half the step is
left over from the lower one, or half the step and the lower one is odd. -/
theorem preferred_upper (hnext : magnitude (low + 1) = magnitude low + step) (hvalue : x = magnitude low + part * step)
    (hstep : 0 < step) (hpart : part < 1) (hup : 1 < 2 * part ∨ 1 = 2 * part ∧ low % 2 = 1) (h : other ≠ low + 1) :
    Preferred x (low + 1) other := by
  refine preferred_of_neighbours ?_ (fun below hbelow => ?_) h
  · have hless : part * step < step := mul_lt_of_lt_one_left hstep hpart
    have hbeyond := magnitude_strictMono (low + 1).lt_succ_self
    refine (preferred_below_iff (Nat.lt_succ_self _)).2 (.inl ?_)
    linarith
  · obtain rfl : below = low := Nat.succ.inj hbelow
    refine (preferred_above_iff below.lt_succ_self).2 (hup.imp (fun hmore => ?_) fun ⟨htie, hodd⟩ => ?_)
    · have hhalf := mul_lt_mul_of_pos_right hmore hstep
      linarith
    · have hhalf : step = 2 * part * step := by rw [← htie, one_mul]
      exact ⟨by linarith, by omega⟩

/-- The lower one is preferred to all others if less than half the step is left over from it, or half the step and it is
even. -/
theorem preferred_lower (hnext : magnitude (low + 1) = magnitude low + step) (hvalue : x = magnitude low + part * step)
    (hstep : 0 < step) (hpart : 0 ≤ part) (hdown : 2 * part < 1 ∨ 2 * part = 1 ∧ low % 2 = 0) (h : other ≠ low) :
    Preferred x low other := by
  refine preferred_of_neighbours ?_ (fun below hbelow => ?_) h
  · refine (preferred_below_iff low.lt_succ_self).2 (hdown.imp (fun hless => ?_) fun ⟨htie, heven⟩ => ?_)
    · have hhalf := mul_lt_mul_of_pos_right hless hstep
      linarith
    · have hhalf : 2 * part * step = step := by rw [htie, one_mul]
      exact ⟨by linarith, heven⟩
  · have hmore : 0 ≤ part * step := mul_nonneg hpart hstep.le
    have hlt : below < low := Nat.lt_of_succ_le hbelow.le
    have hbeyond := magnitude_strictMono hlt
    refine (preferred_above_iff hlt).2 (.inl ?_)
    linarith

end Between

/-- The computed rank is preferred to all others. -/
theorem nearestRank_preferred (num : Nat) {den : Nat} (hden : 0 < den) {other : Nat}
    (h : other ≠ nearestRank num den) : Preferred (num / den) (nearestRank num den) other := by
  obtain ⟨low, left, whole, step, hstep, hleft, hvalue, hnext, hrank⟩ := nearestRank_between num hden
  generalize nearestRank num den = rank at hrank h
  have hwhole : (0 : ℚ) < whole := by exact_mod_cast left.zero_le.trans_lt hleft
  have hpart : (left : ℚ) / whole < 1 := (div_lt_one hwhole).2 (by exact_mod_cast hleft)
  have hnonneg : 0 ≤ (left : ℚ) / whole := div_nonneg (Nat.cast_nonneg _) hwhole.le
  have hmore : 1 < 2 * ((left : ℚ) / whole) ↔ whole < 2 * left := by
    rw [← mul_div_assoc, one_lt_div hwhole]
    norm_cast
  have htie : 1 = 2 * ((left : ℚ) / whole) ↔ whole = 2 * left := by
    rw [← mul_div_assoc, eq_comm, div_eq_one_iff_eq hwhole.ne', eq_comm]
    norm_cast
  split at hrank
  · rename_i hchoice
    subst hrank
    exact preferred_upper hnext hvalue hstep hpart (by rwa [hmore, htie]) h
  · rename_i hchoice
    subst hrank
    refine preferred_lower hnext hvalue hstep hnonneg ?_ h
    rcases lt_trichotomy (2 * ((left : ℚ) / whole)) 1 with hless | heq | hgreater
    · exact .inl hless
    · have heq' := htie.1 heq.symm
      exact .inr ⟨heq, by omega⟩
    · have hgreater' := hmore.1 hgreater
      omega

/-! ## Correct rounding -/

/-- Half way from the greatest finite magnitude to `2 ^ 1024`. -/
def overflowBound : ℚ := 2 ^ 1024 - 2 ^ 970

/-- Correct rounding of a magnitude with a sign: to the finite number nearest to it, of two equally near ones to that
whose last bit is zero, and to infinity from the overflow bound on. Zeros and infinities have the sign too. -/
inductive RoundsTo (negative : Bool) (x : ℚ) : Binary64 → Prop where
  | finite {rank : Fin infinityRank} (hbound : x < overflowBound)
      (hbest : ∀ other : Fin infinityRank, other ≠ rank → Preferred x rank.val other.val) :
      RoundsTo negative x (.finite negative rank)
  | infinite (hbound : overflowBound ≤ x) : RoundsTo negative x (.infinite negative)

theorem magnitude_overflow : magnitude (infinityRank - 1) + magnitude infinityRank = 2 * overflowBound := by
  have hgreatest : infinityRank - 1 = 2045 * twoPow 52 + (twoPow 53 - 1) := by decide
  have hinfinity : infinityRank = 2045 * twoPow 52 + twoPow 53 := by decide
  have hstep : (twoPow 2045 / twoPow 1074 : ℚ) = 2 ^ 971 := by
    have hsplit : twoPow 2045 = twoPow 971 * twoPow 1074 := twoPow_add 971 1074
    rw [hsplit, Nat.cast_mul, mul_div_cancel_right₀ _ (cast_twoPow_pos 1074).ne', cast_twoPow]
  rw [hgreatest, magnitude_mantissa (.inr (by decide)) (by decide), hinfinity,
    magnitude_mantissa (.inr (by decide)) le_rfl, hstep, overflowBound]
  have hless : ((twoPow 53 - 1 : Nat) : ℚ) = 2 ^ 53 - 1 := by
    rw [Nat.cast_sub (twoPow_pos 53), cast_twoPow, Nat.cast_one]
  have hnext : (2 : ℚ) ^ 971 = 2 * 2 ^ 970 := pow_succ' 2 970
  have htop : (2 : ℚ) ^ 1024 = 2 ^ 54 * 2 ^ 970 := pow_add 2 54 970
  rw [hless, cast_twoPow, hnext, htop]
  generalize (2 : ℚ) ^ 970 = half
  ring

/-- A magnitude is rounded to a finite rank exactly if it is below the overflow bound. -/
theorem nearestRank_lt_iff (num : Nat) {den : Nat} (hden : 0 < den) :
    nearestRank num den < infinityRank ↔ (num : ℚ) / den < overflowBound := by
  have hbest (other : Nat) (h : other ≠ nearestRank num den) := nearestRank_preferred num hden h
  generalize nearestRank num den = rank at hbest
  generalize (num : ℚ) / den = x at hbest
  have hmiddle := magnitude_overflow
  constructor
  · intro hfinite
    have hle : magnitude rank ≤ magnitude (infinityRank - 1) :=
      magnitude_strictMono.monotone (Nat.le_sub_one_of_lt hfinite)
    rcases (preferred_below_iff hfinite).1 (hbest infinityRank hfinite.ne') with hless | ⟨htie, heven⟩
    · linarith
    · -- the greatest finite rank is odd
      have hne : rank ≠ infinityRank - 1 := by
        rintro rfl
        exact absurd heven (by decide)
      have hlt := magnitude_strictMono (lt_of_le_of_ne (Nat.le_sub_one_of_lt hfinite) hne)
      linarith
  · intro hless
    by_contra hinfinite
    have hle : infinityRank ≤ rank := Nat.le_of_not_lt hinfinite
    have hgreatest : infinityRank - 1 < rank := Nat.lt_of_lt_of_le (by decide) hle
    have hge : magnitude infinityRank ≤ magnitude rank := magnitude_strictMono.monotone hle
    rcases (preferred_above_iff hgreatest).1 (hbest (infinityRank - 1) hgreatest.ne) with hmore | ⟨htie, -⟩ <;> linarith

theorem roundsTo_ofRatio (negative : Bool) (num : Nat) {den : Nat} (hden : 0 < den) :
    RoundsTo negative (num / den) (ofRatio negative num den) := by
  rw [ofRatio]
  by_cases h : nearestRank num den < infinityRank
  · rw [ofRank_of_lt negative h]
    exact .finite ((nearestRank_lt_iff num hden).1 h) fun other hother =>
      nearestRank_preferred num hden fun heq => hother (Fin.ext heq)
  · rw [ofRank_of_le negative (Nat.le_of_not_lt h)]
    exact .infinite (not_lt.1 (mt (nearestRank_lt_iff num hden).2 h))

/-- There is one number to which a magnitude with a sign is rounded. -/
theorem RoundsTo.unique {negative : Bool} {x : ℚ} {v w : Binary64} (hv : RoundsTo negative x v)
    (hw : RoundsTo negative x w) : v = w := by
  cases hv with
  | @finite rank hbound hrank =>
      cases hw with
      | @finite best _ hbest =>
          have heq := eq_of_preferred rank.isLt best.isLt
            (fun other hother hne => hrank ⟨other, hother⟩ (Fin.ne_of_val_ne hne))
            fun other hother hne => hbest ⟨other, hother⟩ (Fin.ne_of_val_ne hne)
          rw [Fin.ext heq]
      | infinite hover => exact absurd hover (not_le.2 hbound)
  | infinite hover =>
      cases hw with
      | finite hbound _ => exact absurd hover (not_le.2 hbound)
      | infinite _ => rfl

end Binary64

/-! ## Decimals -/

namespace Decimal

/-- The magnitude of a decimal. -/
def value (d : Decimal) : ℚ := d.coefficient * 10 ^ d.exponent

theorem value_eq (d : Decimal) :
    d.value = (d.coefficient * tenPow d.exponent.toNat : Nat) / (tenPow (-d.exponent).toNat : Nat) := by
  rw [value, Nat.cast_mul, cast_tenPow, cast_tenPow, mul_div_assoc]
  congr 1
  rcases Int.le_total 0 d.exponent with hpos | hneg
  · have hnone : (-d.exponent).toNat = 0 := by omega
    rw [hnone, pow_zero, div_one, ← zpow_natCast, Int.toNat_of_nonneg hpos]
  · have hnone : d.exponent.toNat = 0 := by omega
    rw [hnone, pow_zero, one_div, ← zpow_natCast, Int.toNat_of_nonneg (by omega), zpow_neg, inv_inv]

end Decimal

/-- A decimal is rounded correctly. -/
theorem Binary64.roundsTo_iff {d : Decimal} {v : Binary64} : RoundsTo d.negative d.value v ↔ v = ofDecimal d := by
  have hround : RoundsTo d.negative d.value (ofDecimal d) := by
    rw [ofDecimal_eq, d.value_eq]
    exact roundsTo_ofRatio d.negative _ (tenPow_pos _)
  exact ⟨fun h => h.unique hround, fun h => h ▸ hround⟩

end PushMetrics.Number
