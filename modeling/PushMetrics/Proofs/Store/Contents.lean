import PushMetrics.Store.Memory
import PushMetrics.Proofs.Dict
import Mathlib.Algebra.Ring.Int.Defs

/-!
# Contents of a store

Two contents are the same if they hold the same samples under the same names, in whatever order. Saving
metrics of different names gives the same contents in every order. Merging metrics one after another, each
into what its name holds at that moment, is the meaning of everything that a manager does.
-/

namespace PushMetrics

/-! ## Samples -/

/-- The number, but a zero without its sign. -/
def Number.Binary64.unsigned : Number.Binary64 → Number.Binary64
  | finite negative rank => finite (negative && rank.val != 0) rank
  | x => x

namespace Sample

theorem merge_gauge (prior : Option Sample) (value : Number.Binary64) : merge prior (.gauge value) = .gauge value := by
  rcases prior with _ | (_ | _) <;> rfl

def unsigned : Sample → Sample
  | gauge value => gauge value.unsigned
  | counter count => counter count

theorem unsigned_unsigned (s : Sample) : s.unsigned.unsigned = s.unsigned := by
  rcases s with (_ | _ | _) | count <;> simp [unsigned, Number.Binary64.unsigned]

theorem merge_counter_congr {a b : Option Sample} (h : a.map unsigned = b.map unsigned) (count : Int64) :
    merge a (.counter count) = merge b (.counter count) := by
  rcases a with _ | (_ | _) <;> rcases b with _ | (_ | _) <;> simp_all [unsigned, merge]

end Sample

def Change.metrics : Change → List Metric
  | save m => [m]
  | saveBatch ms => ms
  | reset => []

namespace Contents

/-- Contents with the same sample under every name. -/
def Same (c d : Contents) : Prop := ∀ name, c.get? name = d.get? name

theorem Same.refl (c : Contents) : c.Same c := fun _ => rfl

theorem Same.trans {c d e : Contents} (h : c.Same d) (k : d.Same e) : c.Same e :=
  fun name => (h name).trans (k name)

theorem Same.metric? {c d : Contents} (h : c.Same d) (name : String) : c.metric? name = d.metric? name := by
  rw [Contents.metric?, Contents.metric?, h name]

@[simp] theorem get?_save (c : Contents) (m : Metric) (name : String) :
    (c.save m).get? name = if m.name = name then some m.sample else c.get? name := Dict.get?_put c m.name name m.sample

theorem Same.save {c d : Contents} (h : c.Same d) (m : Metric) : (c.save m).Same (d.save m) := by
  intro name
  rw [get?_save, get?_save, h name]

theorem Same.saveAll {c d : Contents} (h : c.Same d) (ms : List Metric) : (c.saveAll ms).Same (d.saveAll ms) := by
  induction ms generalizing c d with
  | nil => exact h
  | cons m ms ih => exact ih (h.save m)

theorem Same.applyTo {c d : Contents} (h : c.Same d) (change : Change) :
    (change.applyTo c).Same (change.applyTo d) := by
  cases change with
  | save m => exact h.save m
  | saveBatch ms => exact h.saveAll ms
  | reset => exact Same.refl _

theorem mem_keys_save {c : Contents} {name : String} (h : name ∈ c.keys) (m : Metric) : name ∈ (c.save m).keys := by
  rw [Dict.mem_keys_iff] at h ⊢
  rw [get?_save]
  split
  · rfl
  · exact h

/-- A name that is stored stays so, unless the store is emptied. -/
theorem mem_keys_applyTo {c : Contents} {name : String} (h : name ∈ c.keys) {change : Change}
    (hchange : change ≠ .reset) : name ∈ (change.applyTo c).keys := by
  cases change with
  | save m => exact mem_keys_save h m
  | saveBatch ms =>
      induction ms generalizing c with
      | nil => exact h
      | cons m ms ih => exact ih (mem_keys_save h m) nofun
  | reset => exact absurd rfl hchange

/-! ## Saving many metrics -/

theorem get?_saveAll_of_notMem {ms : List Metric} {name : String} (h : name ∉ ms.map (·.name)) (c : Contents) :
    (c.saveAll ms).get? name = c.get? name := by
  induction ms generalizing c with
  | nil => rfl
  | cons m ms ih =>
      simp only [List.map_cons, List.mem_cons, not_or] at h
      have hm : m.name ≠ name := fun e => h.1 e.symm
      exact (ih h.2 (c.save m)).trans (by rw [get?_save, if_neg hm])

theorem get?_saveAll_of_mem {ms : List Metric} (hd : (ms.map (·.name)).Nodup) {m : Metric} (h : m ∈ ms)
    (c : Contents) : (c.saveAll ms).get? m.name = some m.sample := by
  induction ms generalizing c with
  | nil => cases h
  | cons n ms ih =>
      obtain ⟨hn, hrest⟩ := List.nodup_cons.1 hd
      rcases List.mem_cons.1 h with rfl | h
      · exact (get?_saveAll_of_notMem hn (c.save m)).trans (by rw [get?_save, if_pos rfl])
      · exact ih hrest h (c.save n)

theorem map_name_metrics (c : Contents) : c.metrics.map (·.name) = c.keys := by
  simp [metrics, Dict.keys]

theorem mem_metrics_iff {c : Contents} {m : Metric} : m ∈ c.metrics ↔ c.get? m.name = some m.sample := by
  rw [Dict.get?_eq_some_iff, metrics, List.mem_map]
  constructor
  · rintro ⟨e, he, rfl⟩
    exact he
  · intro h
    exact ⟨_, h, rfl⟩

theorem mem_metrics_of_metric? {c : Contents} {name : String} {m : Metric} (h : c.metric? name = some m) :
    m ∈ c.metrics := by
  obtain ⟨sample, hsample, rfl⟩ := Option.map_eq_some_iff.1 h
  exact mem_metrics_iff.2 hsample

theorem name_of_metric? {c : Contents} {name : String} {m : Metric} (h : c.metric? name = some m) :
    m.name = name := by
  obtain ⟨sample, -, rfl⟩ := Option.map_eq_some_iff.1 h
  rfl

theorem filterMap_metric?_keys (c : Contents) : c.keys.filterMap c.metric? = c.metrics := by
  have hlooked : ∀ e ∈ c.entries, (c.metric? ∘ (·.1)) e = some ⟨e.1, e.2⟩ := by
    intro e he
    rw [Function.comp_apply, metric?, Dict.get?_eq_some_iff.2 he, Option.map_some]
  rw [Dict.keys, List.filterMap_map, List.filterMap_congr hlooked, List.filterMap_eq_map', metrics]

/-- Looking up all names, in any order, gives all metrics. -/
theorem perm_filterMap_metric? {c : Contents} {names : List String} (h : names.Perm c.keys) :
    (names.filterMap c.metric?).Perm c.metrics := filterMap_metric?_keys c ▸ h.filterMap c.metric?

theorem of_mem_metrics_save {c : Contents} {m n : Metric} (h : n ∈ (c.save m).metrics) : n = m ∨ n ∈ c.metrics := by
  obtain ⟨name, sample⟩ := n
  rcases Dict.of_get?_put (mem_metrics_iff.1 h) with ⟨rfl, rfl⟩ | ⟨-, hold⟩
  · exact .inl rfl
  · exact .inr (mem_metrics_iff.2 hold)

/-- The metrics of one contents saved over another, in any order: what the first holds wins. -/
theorem get?_saveAll_metrics {p c : Contents} {ms : List Metric} (h : ms.Perm p.metrics) (name : String) :
    (c.saveAll ms).get? name = (p.get? name).or (c.get? name) := by
  have hnames : (ms.map (·.name)).Perm p.keys := map_name_metrics p ▸ h.map _
  cases hp : p.get? name with
  | none =>
      have hname : name ∉ ms.map (·.name) := by
        rw [hnames.mem_iff, Dict.mem_keys_iff, hp]
        simp
      exact get?_saveAll_of_notMem hname c
  | some sample =>
      have hmem : (⟨name, sample⟩ : Metric) ∈ ms := h.mem_iff.2 (mem_metrics_iff.2 hp)
      exact get?_saveAll_of_mem (hnames.nodup_iff.2 p.nodup) hmem c

/-- Metrics list contents, each name once, but for the signs of zeros. -/
structure Lists (c : Contents) (ms : List Metric) : Prop where
  nodup : (ms.map (·.name)).Nodup
  names : ∀ name, name ∈ ms.map (·.name) ↔ (c.get? name).isSome
  samples : ∀ m ∈ ms, (c.get? m.name).map (·.unsigned) = some m.sample.unsigned

theorem lists_metrics {c d : Contents} (h : c.Same d) : d.Lists c.metrics where
  nodup := map_name_metrics c ▸ c.nodup
  names name := by rw [map_name_metrics, Dict.mem_keys_iff, h name]
  samples m hm := by rw [← h m.name, mem_metrics_iff.1 hm, Option.map_some]

/-! ## Contents that may be stored -/

/-- Every metric is one that may be stored. -/
def IsWellFormed (c : Contents) : Prop := ∀ m ∈ c.metrics, m.isWellFormed

theorem isWellFormed_empty : IsWellFormed Dict.empty := fun _ h => nomatch h

theorem IsWellFormed.save {c : Contents} (h : c.IsWellFormed) {m : Metric} (hm : m.isWellFormed) :
    (c.save m).IsWellFormed := by
  intro n hn
  rcases of_mem_metrics_save hn with rfl | hn
  · exact hm
  · exact h n hn

theorem IsWellFormed.saveAll {c : Contents} (h : c.IsWellFormed) {ms : List Metric} (hms : ∀ m ∈ ms, m.isWellFormed) :
    (c.saveAll ms).IsWellFormed := by
  induction ms generalizing c with
  | nil => exact h
  | cons m ms ih => exact ih (h.save (hms m List.mem_cons_self)) fun n hn => hms n (List.mem_cons_of_mem m hn)

theorem IsWellFormed.applyTo {c : Contents} (h : c.IsWellFormed) {change : Change}
    (hms : ∀ m ∈ change.metrics, m.isWellFormed) : (change.applyTo c).IsWellFormed := by
  cases change with
  | save m => exact h.save (hms m List.mem_cons_self)
  | saveBatch ms => exact h.saveAll hms
  | reset => exact isWellFormed_empty

/-- The contents after changes one after another. -/
def applyAll (changes : List Change) (c : Contents) : Contents := changes.foldl (fun c change => change.applyTo c) c

theorem IsWellFormed.applyAll {c : Contents} (h : c.IsWellFormed) {changes : List Change}
    (hms : ∀ change ∈ changes, ∀ m ∈ change.metrics, m.isWellFormed) : (c.applyAll changes).IsWellFormed := by
  induction changes generalizing c with
  | nil => exact h
  | cons change rest ih =>
      exact ih (h.applyTo (hms change List.mem_cons_self)) fun other ho => hms other (List.mem_cons_of_mem change ho)

/-! ## The last change of a name -/

end Contents

/-- A change decides what stands under a name. -/
def Change.touches (name : String) : Change → Bool
  | save m => m.name = name
  | saveBatch ms => ms.any (·.name = name)
  | reset => true

/-- A change saves a metric, and none of the same name after it. -/
def Change.Leaves (change : Change) (m : Metric) : Prop :=
  ∃ earlier later, change.metrics = earlier ++ m :: later ∧ ∀ n ∈ later, n.name ≠ m.name

/-- The last of some changes that decides what stands under the name of a metric has saved this metric. -/
def LastSaved (changes : List Change) (m : Metric) : Prop :=
  ∃ earlier change later, changes = earlier ++ change :: later ∧ change.Leaves m ∧
    ∀ other ∈ later, other.touches m.name = false

namespace Contents

theorem get?_applyTo_of_not_touches {change : Change} {name : String} (h : change.touches name = false)
    (c : Contents) : (change.applyTo c).get? name = c.get? name := by
  cases change with
  | save m => exact (get?_save c m name).trans (if_neg (of_decide_eq_false h))
  | saveBatch ms => exact get?_saveAll_of_notMem (by simpa [Change.touches] using h) c
  | reset => cases h

theorem mem_metrics_applyTo {change : Change} {m : Metric} (h : change.Leaves m) (c : Contents) :
    m ∈ (change.applyTo c).metrics := by
  obtain ⟨earlier, later, hmetrics, hlater⟩ := h
  have hall : change.applyTo c = c.saveAll change.metrics := by
    cases change with
    | save | saveBatch => rfl
    | reset => simp [Change.metrics] at hmetrics
  have hnames : m.name ∉ later.map (·.name) := by
    intro hin
    obtain ⟨n, hn, hname⟩ := List.mem_map.1 hin
    exact hlater n hn hname
  rw [hall, hmetrics, mem_metrics_iff, saveAll, List.foldl_append, List.foldl_cons]
  exact (get?_saveAll_of_notMem hnames _).trans (by rw [get?_save, if_pos rfl])

theorem get?_applyAll_of_not_touches {changes : List Change} {name : String}
    (h : ∀ change ∈ changes, change.touches name = false) (c : Contents) :
    (c.applyAll changes).get? name = c.get? name := by
  induction changes generalizing c with
  | nil => rfl
  | cons change rest ih =>
      exact (ih (fun other ho => h other (List.mem_cons_of_mem change ho)) _).trans
        (get?_applyTo_of_not_touches (h change List.mem_cons_self) c)

/-- After changes a store holds whatever was saved last. -/
theorem mem_metrics_applyAll {changes : List Change} {m : Metric} (h : LastSaved changes m) (c : Contents) :
    m ∈ (c.applyAll changes).metrics := by
  obtain ⟨earlier, change, later, rfl, hleaves, hlater⟩ := h
  rw [mem_metrics_iff, applyAll, List.foldl_append, List.foldl_cons]
  exact (get?_applyAll_of_not_touches hlater _).trans (mem_metrics_iff.1 (mem_metrics_applyTo hleaves _))

/-! ## Merging metrics one after another -/

def merged (c : Contents) (m : Metric) : Metric := .merge (c.metric? m.name) m

/-- Metrics merged one after another, each into what its name holds by then: the results, and what is held
after all. -/
def mergeAll : Contents → List Metric → List Metric × Contents
  | c, [] => ([], c)
  | c, m :: rest => ((c.merged m) :: ((c.save (c.merged m)).mergeAll rest).1, ((c.save (c.merged m)).mergeAll rest).2)

theorem mergeAll_append (c : Contents) (ms ns : List Metric) :
    c.mergeAll (ms ++ ns)
      = ((c.mergeAll ms).1 ++ ((c.mergeAll ms).2.mergeAll ns).1, ((c.mergeAll ms).2.mergeAll ns).2) := by
  induction ms generalizing c with
  | nil => rfl
  | cons m ms ih =>
      rw [List.cons_append, mergeAll, ih, mergeAll]
      rfl

theorem length_mergeAll (c : Contents) (ms : List Metric) : (c.mergeAll ms).1.length = ms.length := by
  induction ms generalizing c with
  | nil => rfl
  | cons m ms ih => simp only [mergeAll, List.length_cons, ih]

theorem merged_eq (c : Contents) (m : Metric) : c.merged m = ⟨m.name, .merge (c.get? m.name) m.sample⟩ := by
  cases h : c.get? m.name with
  | none => cases hm : m.sample <;> simp [merged, metric?, h, Metric.merge, Sample.merge, ← hm]
  | some prior => simp [merged, metric?, h, Metric.merge]

theorem name_merged (c : Contents) (m : Metric) : (c.merged m).name = m.name := by rw [merged_eq]

theorem get?_mergeAll_of_notMem {ms : List Metric} {name : String} (h : name ∉ ms.map (·.name)) (c : Contents) :
    (c.mergeAll ms).2.get? name = c.get? name := by
  induction ms generalizing c with
  | nil => rfl
  | cons m ms ih =>
      simp only [List.map_cons, List.mem_cons, not_or] at h
      have hm : (c.merged m).name ≠ name := fun e => h.1 (e.symm.trans (name_merged c m))
      exact (ih h.2 _).trans (by rw [get?_save, if_neg hm])

/-! ## Counts of one name -/

def countsOf (name : String) (ms : List Metric) : List Int64 :=
  ms.filterMap fun m => match m.sample with
    | .counter count => if m.name = name then some count else none
    | .gauge _ => none

theorem countsOf_cons_self {m : Metric} {count : Int64} (hm : m.sample = .counter count) (ms : List Metric) :
    countsOf m.name (m :: ms) = count :: countsOf m.name ms := by
  simp [countsOf, hm]

theorem countsOf_cons_of_ne {m : Metric} {name : String} (hm : m.name ≠ name) (ms : List Metric) :
    countsOf name (m :: ms) = countsOf name ms := by
  cases hs : m.sample <;> simp [countsOf, hs, hm]

/-- A count, or none, and further counts added to it. -/
def total (prior : Option Int64) (counts : List Int64) : Option Int64 :=
  counts.foldl (fun sum count => some (sum.elim count (· + count))) prior

theorem total_some (old : Int64) (counts : List Int64) :
    total (some old) counts = some (.ofInt (old.toInt + (counts.map (·.toInt)).sum)) := by
  induction counts generalizing old with
  | nil => simp [total]
  | cons count counts ih =>
      have hstep : total (some old) (count :: counts) = total (some (old + count)) counts := rfl
      rw [hstep, ih, List.map_cons, List.sum_cons, ← Int.add_assoc, Int64.ofInt_add, Int64.ofInt_add (old.toInt + _),
        Int64.ofInt_add old.toInt, Int64.ofInt_toInt, Int64.ofInt_toInt, Int64.ofInt_toInt]

/-- Counts add up modulo 2⁶⁴, beginning with what is there. -/
theorem total_eq (prior : Option Int64) (counts : List Int64) :
    total prior counts = if counts = [] then prior
      else some (.ofInt (prior.elim 0 (·.toInt) + (counts.map (·.toInt)).sum)) := by
  cases counts with
  | nil => rfl
  | cons count counts =>
      cases prior with
      | some old => exact total_some old (count :: counts)
      | none =>
          have hstep : total none (count :: counts) = total (some count) counts := rfl
          rw [hstep, total_some]
          simp

theorem get?_mergeAll_counters {ms : List Metric} {name : String} {c : Contents} {prior : Option Int64}
    (hprior : c.get? name = prior.map .counter) (hms : ∀ m ∈ ms, m.name = name → m.kind = .counter) :
    (c.mergeAll ms).2.get? name = (total prior (countsOf name ms)).map .counter := by
  induction ms generalizing c prior with
  | nil => exact hprior
  | cons m ms ih =>
      have hrest := fun n hn => hms n (List.mem_cons_of_mem m hn)
      rw [mergeAll]
      by_cases hname : m.name = name
      · subst hname
        cases hs : m.sample with
        | gauge value =>
            have hkind := hms m List.mem_cons_self rfl
            simp [Metric.kind, hs, Sample.kind] at hkind
        | counter count =>
            rw [countsOf_cons_self hs]
            have hsaved : (c.save (c.merged m)).get? m.name = (some (prior.elim count (· + count))).map .counter := by
              rw [get?_save, if_pos (name_merged c m), merged_eq, hprior, hs]
              cases prior <;> rfl
            exact ih hsaved hrest
      · rw [countsOf_cons_of_ne hname]
        refine ih ?_ hrest
        rw [get?_save, if_neg (name_merged c m ▸ hname), hprior]

end Contents

end PushMetrics
