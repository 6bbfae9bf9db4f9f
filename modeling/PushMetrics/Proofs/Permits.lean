import PushMetrics.Permits
import Mathlib.Data.List.Basic

/-!
# The balance of a pool and its line

Every permit of a pool is free, granted or held, and nobody waits while a permit is free. Those who have been
granted a permit and those who wait form one line in the order of arrival: a permit that comes back changes
nothing in it, and who collects or gives up leaves it.
-/

namespace PushMetrics.Permits

variable {κ : Type}

/-- A pool of `size` permits of which `held` are held. -/
structure Balanced (p : Permits κ) (size held : Nat) : Prop where
  total : p.free + p.granted.length + held = size
  idle : p.waiting = [] ∨ p.free = 0

/-- Those who have asked for a permit and do not hold it yet, in the order of arrival. -/
def line (p : Permits κ) : List κ := p.granted ++ p.waiting

variable {p : Permits κ} {size held : Nat} {k : κ}

/-! ## Balance -/

theorem balanced_full (size : Nat) : (full size : Permits κ).Balanced size 0 :=
  ⟨by simp [full], .inl rfl⟩

theorem Balanced.request_of_free (h : p.Balanced size held) (hf : 0 < p.free) (k : κ) :
    (p.request k).1 = true ∧ (p.request k).2.Balanced size (held + 1) := by
  have ht := h.total
  have hw : p.waiting = [] := h.idle.resolve_right (by omega)
  rw [request, if_pos hf]
  exact ⟨rfl, by simp only; omega, .inl hw⟩

theorem Balanced.request_of_full (h : p.Balanced size held) (hf : p.free = 0) (k : κ) :
    (p.request k).1 = false ∧ (p.request k).2.Balanced size held := by
  rw [request, if_neg (by omega)]
  exact ⟨rfl, h.total, .inr hf⟩

theorem Balanced.giveBack (h : p.Balanced size (held + 1)) : p.giveBack.Balanced size held := by
  have ht := h.total
  unfold Permits.giveBack
  cases hw : p.waiting with
  | nil => exact ⟨by simp only; omega, .inl rfl⟩
  | cons k rest =>
      have hf : p.free = 0 := h.idle.resolve_left (by simp [hw])
      exact ⟨by simp only [List.length_append, List.length_singleton]; omega, .inr hf⟩

theorem Balanced.collect [DecidableEq κ] (h : p.Balanced size held) (hk : k ∈ p.granted) :
    (p.collect k).Balanced size (held + 1) := by
  have ht := h.total
  have hl := List.length_pos_of_mem hk
  refine ⟨?_, h.idle⟩
  simp only [Permits.collect, List.length_erase_of_mem hk]
  omega

theorem Balanced.withdraw [DecidableEq κ] (h : p.Balanced size held) (k : κ) : (p.withdraw k).Balanced size held := by
  unfold Permits.withdraw
  split
  · rename_i hk
    exact (h.collect hk).giveBack
  · refine ⟨h.total, h.idle.imp_left fun hw => ?_⟩
    simp [hw]

theorem Balanced.free_eq (h : p.Balanced size 0) (hg : p.granted = []) : p.free = size := by
  have ht := h.total
  simpa [hg] using ht

/-! ## The line -/

@[simp] theorem line_full (size : Nat) : (full size : Permits κ).line = [] := rfl

theorem line_request (p : Permits κ) (k : κ) :
    (p.request k).2.line = if (p.request k).1 then p.line else p.line ++ [k] := by
  unfold request
  split
  · rfl
  · simp [line]

theorem line_request_of_free (h : 0 < p.free) (k : κ) : (p.request k).2.line = p.line := by
  rw [line_request]
  simp [request, h]

theorem line_request_of_full (h : p.free = 0) (k : κ) : (p.request k).2.line = p.line ++ [k] := by
  rw [line_request]
  simp [request, h]

@[simp] theorem line_giveBack (p : Permits κ) : p.giveBack.line = p.line := by
  unfold giveBack
  cases hw : p.waiting <;> simp [line, hw]

theorem line_collect [DecidableEq κ] (h : k ∈ p.granted) : (p.collect k).line = p.line.erase k := by
  rw [line, line, collect, List.erase_append_left _ h]

theorem line_withdraw [DecidableEq κ] (p : Permits κ) (k : κ) : (p.withdraw k).line = p.line.erase k := by
  unfold withdraw
  split
  · rename_i hk
    rw [line_giveBack, line_collect hk]
  · rename_i hk
    rw [line, line, List.erase_append_right _ hk]

theorem isGranted_iff [DecidableEq κ] : p.isGranted k ↔ k ∈ p.granted := by simp [isGranted]

/-! ## Who came first -/

/-- As long as `j` waits for a permit, `k` waits behind it or is not in line. -/
def Behind (p : Permits κ) (j k : κ) : Prop := j ∈ p.waiting → k ∉ p.line ∨ [j, k].Sublist p.waiting

variable {j : κ}

theorem behind_of_notMem (h : k ∉ p.line) : p.Behind j k := fun _ => .inl h

/-- Who has been granted a permit was not behind anybody who still waits. -/
theorem Behind.notMem_waiting (h : p.Behind j k) (hn : p.line.Nodup) (hk : k ∈ p.granted) : j ∉ p.waiting := by
  intro hj
  rcases h hj with hout | hbehind
  · exact hout (List.mem_append_left _ hk)
  · exact (List.nodup_append.1 hn).2.2 k hk k (hbehind.subset (by simp)) rfl

theorem Balanced.waiting_request (h : p.Balanced size held) (hf : 0 < p.free) (k : κ) :
    (p.request k).2.waiting = [] := by
  rw [request, if_pos hf]
  exact h.idle.resolve_right (by omega)

theorem Behind.request (h : p.Behind j k) {i : κ} (hi : i ≠ j) : (p.request i).2.Behind j k := by
  intro hj
  have hline := line_request p i
  unfold Permits.request at hj hline ⊢
  split at hj
  · rename_i hfree
    rw [if_pos hfree] at hline ⊢
    rw [hline]
    exact h hj
  · rename_i hfree
    rw [if_neg hfree] at hline ⊢
    simp only [Bool.false_eq_true, ↓reduceIte] at hline
    have hwaits : j ∈ p.waiting := by simpa [Ne.symm hi] using hj
    by_cases hik : i = k
    · subst hik
      exact .inr ((List.singleton_sublist.2 hwaits).append (List.Sublist.refl [i]))
    · rcases h hwaits with hout | hbehind
      · left
        rw [hline]
        simp [hout, Ne.symm hik]
      · exact .inr (hbehind.trans (List.sublist_append_left _ _))

theorem Behind.giveBack (h : p.Behind j k) (hn : p.line.Nodup) : p.giveBack.Behind j k := by
  intro hj
  rw [line_giveBack]
  unfold Permits.giveBack at hj ⊢
  cases hw : p.waiting with
  | nil => simp [hw] at hj
  | cons first rest =>
      simp only [hw] at hj ⊢
      have hfirst : first ≠ j := by
        have hwaiting := (List.nodup_append.1 hn).2.1
        rw [hw] at hwaiting
        exact (ne_of_mem_of_not_mem hj (List.nodup_cons.1 hwaiting).1).symm
      refine (h (by simp [hw, hj])).imp_right fun hbehind => ?_
      rw [hw] at hbehind
      cases hbehind with
      | cons _ hrest => exact hrest
      | cons_cons _ _ => exact absurd rfl hfirst

theorem Behind.collect [DecidableEq κ] (h : p.Behind j k) {i : κ} (hi : i ∈ p.granted) : (p.collect i).Behind j k := by
  intro hj
  refine (h hj).imp_left fun hout hin => hout ?_
  rw [line_collect hi] at hin
  exact List.mem_of_mem_erase hin

theorem Behind.withdraw [DecidableEq κ] (h : p.Behind j k) (hn : p.line.Nodup) (i : κ) :
    (p.withdraw i).Behind j k := by
  have hline := line_withdraw p i
  intro hj
  have hij : i ≠ j := by
    rintro rfl
    have hin : i ∈ (p.withdraw i).line := List.mem_append_right _ hj
    rw [hline] at hin
    exact hn.not_mem_erase hin
  by_cases hik : i = k
  · subst hik
    left
    rw [hline]
    exact hn.not_mem_erase
  · unfold Permits.withdraw at hj hline ⊢
    split at hj
    · rename_i hi
      rw [if_pos hi]
      have hafter : (p.collect i).line.Nodup := line_collect hi ▸ hn.erase i
      exact (h.collect hi).giveBack hafter hj
    · rename_i hi
      rw [if_neg hi] at hline ⊢
      refine (h (List.mem_of_mem_erase hj)).imp (fun hout => ?_) fun hbehind => ?_
      · rw [hline]
        exact fun hin => hout (List.mem_of_mem_erase hin)
      · have herase := hbehind.erase i
        rwa [List.erase_of_not_mem (by simp [hij, hik])] at herase

theorem waiting_giveBack_sublist (p : Permits κ) : p.giveBack.waiting.Sublist p.waiting := by
  unfold giveBack
  cases hw : p.waiting with
  | nil => simp
  | cons first rest => exact List.sublist_cons_self first rest

theorem waiting_withdraw_sublist [DecidableEq κ] (p : Permits κ) (k : κ) :
    (p.withdraw k).waiting.Sublist p.waiting := by
  unfold withdraw
  split
  · exact waiting_giveBack_sublist (p.collect k)
  · exact List.erase_sublist

/-- `k` has left the line. A permit that had been granted to it goes to the next who waits, or back to the pool. -/
inductive PassedOn [DecidableEq κ] (p : Permits κ) (k : κ) : Permits κ → Prop where
  | waiting (h : k ∉ p.granted) : PassedOn p k { p with waiting := p.waiting.erase k }
  | next {j : κ} {rest : List κ} (h : k ∈ p.granted) (hw : p.waiting = j :: rest) :
      PassedOn p k { p with waiting := rest, granted := p.granted.erase k ++ [j] }
  | pool (h : k ∈ p.granted) (hw : p.waiting = []) :
      PassedOn p k { free := p.free + 1, waiting := [], granted := p.granted.erase k }

theorem passedOn_withdraw [DecidableEq κ] (p : Permits κ) (k : κ) : p.PassedOn k (p.withdraw k) := by
  unfold withdraw
  split
  · rename_i hk
    unfold giveBack
    cases hw : p.waiting with
    | nil =>
        simp only [collect, hw]
        exact .pool hk hw
    | cons j rest =>
        simp only [collect, hw]
        exact .next hk hw
  · rename_i hk
    exact .waiting hk

end PushMetrics.Permits
