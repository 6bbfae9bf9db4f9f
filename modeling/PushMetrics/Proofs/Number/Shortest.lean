import PushMetrics.Metric.Basic
import PushMetrics.Proofs.Number.Reading

/-!
# Shortest decimals read back

The decimal that is shown for a magnitude reads back as it: a short one was tried before it was taken, and the exact
expansion, which is taken otherwise, has the very value.
-/

namespace PushMetrics.Number

open Binary64

namespace Decimal

theorem rankOf_strip (fuel : Nat) (d : Decimal) : rankOf (d.strip fuel) = rankOf d := by
  induction fuel generalizing d with
  | zero => rfl
  | succ fuel ih =>
      rw [strip]
      split
      · rename_i h
        have hten : d.coefficient / 10 * tenPow 1 = d.coefficient := Nat.div_mul_cancel (Nat.dvd_of_mod_eq_zero h.2)
        have hscale := rankOf_scale d.negative (d.coefficient / 10) (d.exponent + 1) 1
        rw [hten, Int.natCast_one, Int.add_sub_cancel] at hscale
        exact (ih _).trans hscale.symm
      · rfl

end Decimal

namespace Shortest

theorem rankOf_exact (rank : Nat) : rankOf (exact rank) = rank := by
  unfold exact
  generalize hplaces : (1074 : Nat) = places
  have hexponent : (-1074 : Int) = -(places : Int) := by omega
  rw [rankOf_fives _ hexponent, ← hplaces, nearestRank_units]

theorem rankOf_of_readsBack {rank : Nat} (h : rank < infinityRank) {d : Decimal} (hd : d.negative = false)
    (hback : readsBack rank d = true) : rankOf d = rank := by
  rw [readsBack, beq_iff_eq, ofDecimal_eq, hd] at hback
  exact eq_of_ofRank h hback

theorem of_nearer? {lowNearer : Bool} {low high d : Decimal} {lowReads highReads : Bool}
    (h : nearer? lowNearer low high lowReads highReads = some d) :
    d = low ∧ lowReads = true ∨ d = high ∧ highReads = true := by
  cases lowReads <;> cases highReads <;> cases lowNearer <;> simp_all [nearer?]

theorem rankOf_candidate? {tie : Tie} {rank count : Nat} (h : rank < infinityRank) {d : Decimal}
    (hd : candidate? tie rank count = some d) : rankOf d = rank := by
  obtain ⟨rfl, hlow⟩ | ⟨rfl, hhigh⟩ := of_nearer? hd
  · exact rankOf_of_readsBack h rfl hlow
  · exact rankOf_of_readsBack h rfl hhigh

theorem rankOf_decimal (tie : Tie) {rank : Nat} (h : rank < infinityRank) : rankOf (decimal tie rank) = rank := by
  unfold decimal
  split
  · rename_i hzero
    rw [hzero, rankOf, Nat.zero_mul]
    exact nearestRank_eq_zero (by rw [Nat.zero_mul, Nat.mul_zero]; exact tenPow_pos _)
  · rw [Decimal.rankOf_strip]
    cases hfound : (List.range 17).findSome? fun n => candidate? tie rank (n + 1) with
    | none => exact rankOf_exact rank
    | some d =>
        obtain ⟨n, -, hn⟩ := List.exists_of_findSome?_eq_some hfound
        exact rankOf_candidate? h hn

end Shortest

/-- A finite number shown with its point in place, and nothing behind whole numbers, reads back as itself. -/
theorem Layout.ofDecimal_read?_render {l : Layout} (hplaced : ∀ exponent, l.positional exponent = true)
    (hend : l.wholeEnd = []) (negative : Bool) (rank : Fin infinityRank) :
    (Decimal.read? (l.render negative rank.val)).map ofDecimal = some (finite negative rank) := by
  obtain ⟨d, hread, hsign, hrank⟩ := read?_place hend negative (Shortest.decimal l.tie rank.val).coefficient
    (Shortest.decimal l.tie rank.val).exponent
  have hrender : l.render negative rank.val = minus negative ++
      l.place (Nat.toDigits 10 (Shortest.decimal l.tie rank.val).coefficient)
        ((Shortest.decimal l.tie rank.val).exponent
          + (Nat.toDigits 10 (Shortest.decimal l.tie rank.val).coefficient).length - 1) := by
    simp only [render, magnitude, Decimal.digits, hplaced, ↓reduceIte, minus]
  have hback : rankOf d = rank.val := hrank.trans (Shortest.rankOf_decimal l.tie rank.isLt)
  rw [hrender, hread, Option.map_some, ofDecimal_eq, hsign, hback, ofRank_of_lt negative rank.isLt]

end PushMetrics.Number
