/-!
# Dictionaries

Values under keys, each key once, in the order in which the keys first came. Writing under a known key
keeps its place.
-/

namespace PushMetrics

structure Dict (κ α : Type) where
  entries : List (κ × α)
  nodup : (entries.map (·.1)).Nodup

namespace Dict

variable {κ α : Type} [DecidableEq κ]

def empty : Dict κ α := ⟨[], List.nodup_nil⟩

instance : Inhabited (Dict κ α) := ⟨empty⟩

def keys (d : Dict κ α) : List κ := d.entries.map (·.1)

def values (d : Dict κ α) : List α := d.entries.map (·.2)

def size (d : Dict κ α) : Nat := d.entries.length

/-! ## Entries -/

def find (k : κ) : List (κ × α) → Option α
  | [] => none
  | (j, a) :: rest => if j = k then some a else find k rest

/-- The entries with the value beside a key replaced, or a new entry at the end. -/
def place (k : κ) (a : α) : List (κ × α) → List (κ × α)
  | [] => [(k, a)]
  | (j, b) :: rest => if j = k then (k, a) :: rest else (j, b) :: place k a rest

theorem map_fst_place (k : κ) (a : α) (es : List (κ × α)) :
    (place k a es).map (·.1) = if k ∈ es.map (·.1) then es.map (·.1) else es.map (·.1) ++ [k] := by
  induction es with
  | nil => simp [place]
  | cons e rest ih =>
    obtain ⟨j, b⟩ := e
    by_cases h : j = k
    · simp [place, h]
    · have : k ≠ j := fun e => h e.symm
      simp only [place, h, ↓reduceIte, List.map_cons, ih, List.mem_cons, this, false_or]
      split <;> simp

theorem find_place (k j : κ) (a : α) (es : List (κ × α)) :
    find j (place k a es) = if k = j then some a else find j es := by
  induction es with
  | nil => simp [place, find]
  | cons e rest ih =>
    obtain ⟨i, b⟩ := e
    by_cases h : i = k
    · subst h
      by_cases hj : i = j <;> simp [place, find, hj]
    · by_cases hj : i = j
      · have hkj : k ≠ j := fun e => h (hj.trans e.symm)
        simp only [place, if_neg h, find, if_pos hj, if_neg hkj]
      · simp [place, find, h, hj, ih]

/-! ## Operations -/

def get? (d : Dict κ α) (k : κ) : Option α := find k d.entries

def put (d : Dict κ α) (k : κ) (a : α) : Dict κ α where
  entries := place k a d.entries
  nodup := by
    rw [map_fst_place]
    split
    · exact d.nodup
    · rename_i h
      exact List.nodup_append.2 ⟨d.nodup, List.nodup_cons.2 ⟨by simp, List.nodup_nil⟩, by
        intro x hx y hy e
        obtain rfl := List.mem_singleton.1 hy
        exact h (e ▸ hx)⟩

def erase (d : Dict κ α) (k : κ) : Dict κ α where
  entries := d.entries.filter fun e => e.1 ≠ k
  nodup := d.nodup.sublist (List.Sublist.map _ List.filter_sublist)

def mapValues (f : κ → α → α) (d : Dict κ α) : Dict κ α where
  entries := d.entries.map fun e => (e.1, f e.1 e.2)
  nodup := by
    have : (d.entries.map fun e => (e.1, f e.1 e.2)).map (·.1) = d.entries.map (·.1) := by simp
    exact this ▸ d.nodup

def filter (p : κ → α → Bool) (d : Dict κ α) : Dict κ α where
  entries := d.entries.filter fun e => p e.1 e.2
  nodup := d.nodup.sublist (List.Sublist.map _ List.filter_sublist)

@[simp] theorem get?_empty (k : κ) : (empty : Dict κ α).get? k = none := rfl

@[simp] theorem get?_put (d : Dict κ α) (k j : κ) (a : α) :
    (d.put k a).get? j = if k = j then some a else d.get? j := find_place k j a d.entries

end Dict

end PushMetrics
