import PushMetrics.Dict
import Mathlib.Data.List.Perm.Subperm

/-!
# Dictionaries as functions

What the operations do to the value under a key, and how many values have a property.
-/

namespace PushMetrics.Dict

variable {κ α : Type}

def count (p : α → Bool) (d : Dict κ α) : Nat := d.values.countP p

variable [DecidableEq κ]

theorem find_eq_some_iff {es : List (κ × α)} (h : (es.map (·.1)).Nodup) {k : κ} {a : α} :
    find k es = some a ↔ (k, a) ∈ es := by
  induction es with
  | nil => simp [find]
  | cons e rest ih =>
      obtain ⟨j, b⟩ := e
      obtain ⟨hj, hrest⟩ := List.nodup_cons.1 h
      by_cases hk : j = k
      · subst hk
        have : (j, a) ∉ rest := fun hm => hj (List.mem_map.2 ⟨_, hm, rfl⟩)
        simp [find, this, eq_comm]
      · have : k ≠ j := fun e => hk e.symm
        simp [find, hk, this, ih hrest]

theorem get?_eq_some_iff {d : Dict κ α} {k : κ} {a : α} : d.get? k = some a ↔ (k, a) ∈ d.entries :=
  find_eq_some_iff d.nodup

theorem mem_values_iff {d : Dict κ α} {a : α} : a ∈ d.values ↔ ∃ k, d.get? k = some a := by
  simp [values, get?_eq_some_iff]

theorem mem_keys_iff {d : Dict κ α} {k : κ} : k ∈ d.keys ↔ (d.get? k).isSome := by
  simp [keys, Option.isSome_iff_exists, get?_eq_some_iff]

theorem get?_put_self (d : Dict κ α) (k : κ) (a : α) : (d.put k a).get? k = some a := by simp

theorem get?_put_of_ne (d : Dict κ α) {k j : κ} (a : α) (h : k ≠ j) : (d.put k a).get? j = d.get? j := by
  simp [h]

theorem of_get?_put {d : Dict κ α} {k j : κ} {a b : α} (h : (d.put k a).get? j = some b) :
    k = j ∧ a = b ∨ k ≠ j ∧ d.get? j = some b := by
  rw [get?_put] at h
  split at h
  · rename_i hk
    cases h
    exact .inl ⟨hk, rfl⟩
  · rename_i hk
    exact .inr ⟨hk, h⟩

@[simp] theorem get?_filter (d : Dict κ α) (p : κ → α → Bool) (k : κ) :
    (d.filter p).get? k = (d.get? k).filter (p k) := by
  ext a
  rw [get?_eq_some_iff, Option.filter_eq_some_iff, get?_eq_some_iff]
  simp [filter]

theorem get?_erase (d : Dict κ α) (k j : κ) : (d.erase k).get? j = if k = j then none else d.get? j := by
  ext a
  rw [get?_eq_some_iff]
  split
  · rename_i hk
    simp [erase, hk]
  · rename_i hk
    have hj : j ≠ k := fun e => hk e.symm
    rw [get?_eq_some_iff]
    simp [erase, hj]

theorem entries_put_of_new {d : Dict κ α} {k : κ} (h : d.get? k = none) (a : α) :
    (d.put k a).entries = d.entries ++ [(k, a)] := by
  have hplace : ∀ es : List (κ × α), find k es = none → place k a es = es ++ [(k, a)] := by
    intro es hes
    induction es with
    | nil => rfl
    | cons e rest ih =>
        obtain ⟨j, b⟩ := e
        by_cases hj : j = k
        · simp [find, hj] at hes
        · simp only [find, hj, ↓reduceIte] at hes
          simp [place, hj, ih hes]
  exact hplace d.entries h

/-- Replacing a value changes nothing that does not depend on the difference. -/
theorem map_entries_put {β : Type} {d : Dict κ α} {k : κ} {a b : α} (f : κ × α → β) (h : d.get? k = some b)
    (hf : f (k, a) = f (k, b)) : (d.put k a).entries.map f = d.entries.map f := by
  have hplace : ∀ es : List (κ × α), find k es = some b → (place k a es).map f = es.map f := by
    intro es hes
    induction es with
    | nil => cases hes
    | cons e rest ih =>
        obtain ⟨j, c⟩ := e
        by_cases hj : j = k
        · subst hj
          simp only [find, ↓reduceIte, Option.some.injEq] at hes
          simp [place, hes, hf]
        · simp only [find, hj, ↓reduceIte] at hes
          simp [place, hj, ih hes]
  exact hplace d.entries h

/-! ## Counting values -/

theorem countP_place (p : α → Bool) (k : κ) (b : α) (es : List (κ × α)) :
    ((place k b es).map (·.2)).countP p + ((find k es).toList.countP p)
      = (es.map (·.2)).countP p + [b].countP p := by
  induction es with
  | nil => simp [place, find]
  | cons e rest ih =>
      obtain ⟨j, a⟩ := e
      by_cases h : j = k
      · simp only [place, find, h, ↓reduceIte, List.map_cons, List.countP_cons, Option.toList_some, List.countP_nil]
        omega
      · simp only [place, find, h, ↓reduceIte, List.map_cons, List.countP_cons] at ih ⊢
        omega

theorem count_put (p : α → Bool) (d : Dict κ α) (k : κ) (b : α) :
    (d.put k b).count p + (d.get? k).toList.countP p = d.count p + [b].countP p :=
  countP_place p k b d.entries

theorem count_pos_iff {p : α → Bool} {d : Dict κ α} : 0 < d.count p ↔ ∃ k a, d.get? k = some a ∧ p a := by
  rw [count, List.countP_pos_iff]
  simp only [mem_values_iff]
  constructor
  · rintro ⟨a, ⟨k, h⟩, ha⟩
    exact ⟨k, a, h, ha⟩
  · rintro ⟨k, a, h, ha⟩
    exact ⟨a, ⟨k, h⟩, ha⟩

/-- Where the values of one dictionary have a property, so do the values of another. -/
theorem count_le_count {β : Type} {p : α → Bool} {q : β → Bool} {d : Dict κ α} {e : Dict κ β}
    (h : ∀ k a, d.get? k = some a → p a → ∃ b, e.get? k = some b ∧ q b) : d.count p ≤ e.count q := by
  have hkeys : ∀ {γ : Type} (r : γ → Bool) (c : Dict κ γ),
      c.count r = ((c.entries.filter (r ·.2)).map (·.1)).length := fun r c => by
    rw [count, values, List.countP_map, List.countP_eq_length_filter, List.length_map]
    rfl
  rw [hkeys, hkeys]
  refine (List.subperm_of_subset (d.nodup.sublist (List.filter_sublist.map _)) fun k hk => ?_).length_le
  obtain ⟨⟨j, a⟩, hin, rfl⟩ := List.mem_map.1 hk
  obtain ⟨hin, ha⟩ := List.mem_filter.1 hin
  obtain ⟨b, hb, hq⟩ := h j a (get?_eq_some_iff.2 hin) ha
  exact List.mem_map.2 ⟨(j, b), List.mem_filter.2 ⟨get?_eq_some_iff.1 hb, hq⟩, rfl⟩

/-- Of a property that at most one value has, there is at most one key. -/
theorem eq_of_count_le_one {p : α → Bool} {d : Dict κ α} (h : d.count p ≤ 1) {j k : κ} {a b : α}
    (hj : d.get? j = some a) (ha : p a) (hk : d.get? k = some b) (hb : p b) : j = k := by
  by_contra hne
  have hs : [(j, a), (k, b)].Subperm d.entries := by
    refine List.subperm_of_subset (by simp [hne]) ?_
    intro e he
    rcases List.mem_cons.1 he with rfl | he
    · exact get?_eq_some_iff.1 hj
    · obtain rfl := List.mem_singleton.1 he
      exact get?_eq_some_iff.1 hk
  have htwo := hs.countP_le (p ·.2)
  rw [count, values, List.countP_map] at h
  simp only [List.countP_cons, ha, hb, ↓reduceIte, List.countP_nil] at htwo
  exact absurd (Nat.le_trans htwo h) (by omega)

end PushMetrics.Dict
