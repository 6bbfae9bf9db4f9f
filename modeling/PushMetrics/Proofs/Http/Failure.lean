import PushMetrics.Http.Failure
import Mathlib.Data.List.Basic

/-!
# The details of a failure

Details stand in strictly increasing order, so they are determined by which texts they are.
-/

namespace PushMetrics.Http.Failure

theorem eraseReps_cons_cons (a b : String) (rest : List String) :
    (a :: b :: rest).eraseReps = if a = b then (b :: rest).eraseReps else a :: (b :: rest).eraseReps := by
  have hloop : ∀ (as acc : List String) (c : String), List.eraseRepsBy.loop (· == ·) c as acc
      = acc.reverse ++ List.eraseRepsBy.loop (· == ·) c as [] := by
    intro as
    induction as with
    | nil =>
        intro acc c
        simp [List.eraseRepsBy.loop]
    | cons d as ih =>
        intro acc c
        simp only [List.eraseRepsBy.loop]
        split
        · exact ih acc c
        · rw [ih (c :: acc), ih [c]]
          simp
  simp only [List.eraseReps, List.eraseRepsBy, List.eraseRepsBy.loop]
  by_cases hab : a = b
  · simp [hab]
  · simp only [beq_eq_false_iff_ne.2 hab, if_neg hab]
    exact hloop rest [a] b

theorem mem_eraseReps {texts : List String} {text : String} : text ∈ texts.eraseReps ↔ text ∈ texts := by
  induction texts with
  | nil => rfl
  | cons a texts ih =>
      cases texts with
      | nil => rfl
      | cons b rest =>
          rw [eraseReps_cons_cons]
          split
          · rename_i hab
            rw [ih, hab]
            simp
          · rw [List.mem_cons, ih, ← List.mem_cons]

theorem pairwise_eraseReps {texts : List String} (h : texts.Pairwise (· ≤ ·)) : texts.eraseReps.Pairwise (· < ·) := by
  induction texts with
  | nil => exact .nil
  | cons a texts ih =>
      obtain ⟨ha, hrest⟩ := List.pairwise_cons.1 h
      cases texts with
      | nil => exact List.pairwise_singleton _ _
      | cons b rest =>
          rw [eraseReps_cons_cons]
          split
          · exact ih hrest
          · rename_i hab
            have hlt : a < b := String.not_le.1 fun hba => hab (String.le_antisymm (ha b List.mem_cons_self) hba)
            refine List.pairwise_cons.2 ⟨fun c hc => ?_, ih hrest⟩
            rcases List.mem_cons.1 (mem_eraseReps.1 hc) with rfl | hc
            · exact hlt
            · have hbc : b ≤ c := (List.pairwise_cons.1 hrest).1 c hc
              exact String.not_le.1 fun hca => hab (String.le_antisymm (ha b List.mem_cons_self)
                (String.le_trans hbc hca))

theorem mem_sortedSet {texts : List String} {text : String} : text ∈ sortedSet texts ↔ text ∈ texts := by
  rw [sortedSet, mem_eraseReps, List.mem_mergeSort]

theorem pairwise_sortedSet (texts : List String) : (sortedSet texts).Pairwise (· < ·) := by
  refine pairwise_eraseReps ?_
  have hsorted := @List.pairwise_mergeSort String (fun a b => decide (a ≤ b))
    (fun a b c hab hbc => by simpa using String.le_trans (by simpa using hab) (by simpa using hbc))
    (fun a b => by simpa using String.le_total a b) texts
  simpa using hsorted

/-- Which texts there are determines the details. -/
theorem sortedSet_congr {texts others : List String} (h : ∀ text, text ∈ texts ↔ text ∈ others) :
    sortedSet texts = sortedSet others := by
  have hperm : (sortedSet texts).Perm (sortedSet others) := by
    refine (List.perm_ext_iff_of_nodup ?_ ?_).2 fun text => ?_
    · exact (pairwise_sortedSet texts).imp String.ne_of_lt
    · exact (pairwise_sortedSet others).imp String.ne_of_lt
    · rw [mem_sortedSet, mem_sortedSet, h]
  exact hperm.eq_of_pairwise (fun a b _ _ hab hba => absurd hba (String.lt_asymm hab)) (pairwise_sortedSet texts)
    (pairwise_sortedSet others)

end PushMetrics.Http.Failure
