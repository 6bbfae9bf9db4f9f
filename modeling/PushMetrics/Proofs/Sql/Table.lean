import PushMetrics.Sql.Statement
import PushMetrics.Proofs.Store.Contents

/-!
# A table as contents

The rows of a table stand for contents, but that a column keeps no sign of a zero. Whatever is not a gauge without a
number can be written.
-/

namespace PushMetrics.Sql

open Number

theorem Database.column?_eq {x : Binary64} (h : x ≠ .nan) : column? x = some x.unsigned := by
  cases x with
  | nan => exact absurd rfl h
  | infinite negative => rfl
  | finite negative rank => rfl

theorem ofInt_ne_nan (n : Int) : Binary64.ofInt n ≠ .nan := by
  unfold Binary64.ofInt Binary64.ofRatio Binary64.ofRank
  split <;> simp

/-- A sample can be read back from its row, but for the sign of a zero. -/
theorem Row.keeps {s : Sample} (h : s ≠ .gauge .nan) :
    ∃ value, Database.column? (ofSample s).value = some value ∧
      toSample { ofSample s with value } = .ok s.unsigned := by
  cases s with
  | gauge value =>
      have hvalue : value ≠ .nan := fun he => h (he ▸ rfl)
      exact ⟨_, Database.column?_eq hvalue, rfl⟩
  | counter count =>
      have hvalue : (ofSample (.counter count)).value ≠ .nan := by
        simp only [ofSample]
        exact ofInt_ne_nan count.toInt
      refine ⟨_, Database.column?_eq hvalue, ?_⟩
      simp [toSample, ofSample, Kind.parse, Kind.ofTag?, Kind.tag, Sample.unsigned]

namespace Database

/-- The table of a database has the rows of contents, and rejects none. -/
structure Holds (d : Database) (c : Contents) : Prop where
  accepts : d.rejected = []
  rows : ∃ rows : Dict String Row, d.table = some ⟨true, rows⟩ ∧
    ∀ name, (rows.get? name).map (·.toSample) = (c.get? name).map fun s => .ok s.unsigned

variable {d : Database} {c : Contents}

theorem Holds.same {c' : Contents} (h : d.Holds c) (hc : c.Same c') : d.Holds c' := by
  obtain ⟨rows, htable, hrows⟩ := h.rows
  exact ⟨h.accepts, rows, htable, fun name => hc name ▸ hrows name⟩

theorem Holds.select (h : d.Holds c) (name : String) :
    d.select name = .ok ((c.metric? name).map fun m => ⟨m.name, m.sample.unsigned⟩) := by
  obtain ⟨rows, htable, hrows⟩ := h.rows
  have hrow := hrows name
  simp only [Database.select, table?, htable, Contents.metric?, bind, Except.bind]
  cases hr : rows.get? name with
  | none =>
      rw [hr] at hrow
      cases hc : c.get? name with
      | none => rfl
      | some s =>
          rw [hc] at hrow
          cases hrow
  | some r =>
      rw [hr] at hrow
      cases hc : c.get? name with
      | none =>
          rw [hc] at hrow
          cases hrow
      | some s =>
          rw [hc] at hrow
          have hsample : r.toSample = .ok s.unsigned := Option.some.inj hrow
          simp only [decodeRow, hsample]
          rfl

/-- All rows can be read, and list the contents but for the signs of zeros. -/
theorem Holds.selectAll (h : d.Holds c) :
    ∃ ms : List Metric, d.selectAll = .ok (ms.map .ok) ∧ c.Lists ms := by
  obtain ⟨rows, htable, hrows⟩ := h.rows
  have hread : ∀ es : List (String × Row), (∀ e ∈ es, rows.get? e.1 = some e.2) →
      ∃ ms : List Metric, es.map (fun e => decodeRow e.1 e.2) = ms.map .ok ∧ ms.map (·.name) = es.map (·.1) ∧
        ∀ m ∈ ms, (c.get? m.name).map (·.unsigned) = some m.sample.unsigned := by
    intro es hes
    induction es with
    | nil => exact ⟨[], rfl, rfl, fun m hm => nomatch hm⟩
    | cons e es ih =>
        obtain ⟨ms, hms, hnames, hsamples⟩ := ih fun e he => hes e (List.mem_cons_of_mem _ he)
        have hrow := hrows e.1
        rw [hes e List.mem_cons_self] at hrow
        cases hc : c.get? e.1 with
        | none =>
            rw [hc] at hrow
            cases hrow
        | some s =>
            rw [hc] at hrow
            have hsample : e.2.toSample = .ok s.unsigned := Option.some.inj hrow
            refine ⟨⟨e.1, s.unsigned⟩ :: ms, ?_, by simp [hnames], fun m hm => ?_⟩
            · rw [List.map_cons, List.map_cons, hms, decodeRow, hsample]
              rfl
            · rcases List.mem_cons.1 hm with rfl | hm
              · rw [hc, Option.map_some, Sample.unsigned_unsigned]
              · exact hsamples m hm
  obtain ⟨ms, hms, hnames, hsamples⟩ := hread rows.entries fun e he => Dict.get?_eq_some_iff.2 he
  refine ⟨ms, ?_, hnames ▸ rows.nodup, fun name => ?_, hsamples⟩
  · simp only [Database.selectAll, table?, htable, bind, Except.bind, hms]
    rfl
  · rw [hnames]
    have hsome := congrArg Option.isSome (hrows name)
    rw [Option.isSome_map, Option.isSome_map] at hsome
    rw [← hsome]
    exact Dict.mem_keys_iff

theorem Holds.upsert (h : d.Holds c) {m : Metric} (hm : m.sample ≠ .gauge .nan) :
    ∃ after, d.upsert m = .ok after ∧ after.Holds (c.save m) := by
  obtain ⟨rows, htable, hrows⟩ := h.rows
  obtain ⟨value, hvalue, hback⟩ := Row.keeps hm
  have hnew : m.name ∉ d.rejected := by simp [h.accepts]
  refine ⟨{ d with table := some ⟨true, rows.put m.name { Row.ofSample m.sample with value }⟩ }, ?_, h.accepts,
    _, rfl, fun name => ?_⟩
  · simp only [Database.upsert, table?, htable, bind, Except.bind, hvalue, hnew, ↓reduceIte]
    rfl
  · rw [Dict.get?_put, Contents.get?_save]
    split
    · exact congrArg some hback
    · exact hrows name

theorem Holds.upsertAll (h : d.Holds c) {ms : List Metric} (hms : ∀ m ∈ ms, m.sample ≠ .gauge .nan) :
    ∃ after, ms.foldlM Database.upsert d = .ok after ∧ after.Holds (c.saveAll ms) := by
  induction ms generalizing d c with
  | nil => exact ⟨d, rfl, h⟩
  | cons m ms ih =>
      obtain ⟨next, hnext, hsaved⟩ := h.upsert (hms m List.mem_cons_self)
      obtain ⟨after, hafter, hfinal⟩ := ih hsaved fun n hn => hms n (List.mem_cons_of_mem m hn)
      refine ⟨after, ?_, hfinal⟩
      rw [List.foldlM_cons, hnext]
      exact hafter

theorem Holds.deleteAll (h : d.Holds c) : ∃ after, d.deleteAll = .ok after ∧ after.Holds Dict.empty := by
  obtain ⟨rows, htable, -⟩ := h.rows
  refine ⟨{ d with table := some ⟨true, Dict.empty⟩ }, ?_, h.accepts, _, rfl, fun _ => rfl⟩
  simp only [Database.deleteAll, table?, htable, bind, Except.bind]
  rfl

theorem Holds.apply (h : d.Holds c) {change : Change} (hms : ∀ m ∈ change.metrics, m.sample ≠ .gauge .nan) :
    ∃ after, d.apply change = .ok after ∧ after.Holds (change.applyTo c) := by
  cases change with
  | save m => exact h.upsert (hms m List.mem_cons_self)
  | saveBatch ms => exact h.upsertAll hms
  | reset => exact h.deleteAll

end Database

end PushMetrics.Sql
