import PushMetrics.Sql.Migration
import PushMetrics.Proofs.Number.Truncation

/-!
# Migrations keep every metric

A migration carries each row over with its name, type and value, and gives a counter the count that reading it without
one would have given. The steps of a transaction cannot be repeated, but a migration that stops leaves a database from
which the same transactions are still to come, so that however often it stops, the next one that does not ends in the
same database.
-/

namespace PushMetrics.Sql

open Number Binary64

/-! ## Rows -/

/-- Both conversions to an integer agree, of which one cuts off first and the other looks at the bounds first. -/
theorem Database.castInteger_eq (x : Binary64) : castInteger x = x.toInt64 := by
  cases x with
  | nan => rfl
  | infinite negative => rfl
  | finite negative rank =>
      have hone : (0 : Int) < twoPow 1074 := by exact_mod_cast twoPow_pos 1074
      have hbounds : Int64.minValue.toInt ≤ Int64.maxValue.toInt := by decide
      have hcut : truncate? (finite negative rank) = some ((signedUnits negative rank).tdiv (twoPow 1074)) := by
        cases negative with
        | false => rfl
        | true =>
            rw [truncate?, signedUnits, if_pos rfl, if_pos rfl, Int.neg_tdiv]
            rfl
      simp only [castInteger, toInt64, hcut, Option.getD_some]
      generalize signedUnits negative rank = units
      generalize (twoPow 1074 : Int) = one at hone
      have hbelow {n : Int} (h : n * one ≤ units) : n ≤ units.tdiv one :=
        Int.mul_tdiv_cancel n hone.ne' ▸ Int.tdiv_le_tdiv hone h
      have habove {n : Int} (h : units ≤ n * one) : units.tdiv one ≤ n :=
        Int.mul_tdiv_cancel n hone.ne' ▸ Int.tdiv_le_tdiv hone h
      split
      · rename_i hhigh
        rw [min_eq_left (hbelow hhigh.le), max_eq_right hbounds, Int64.ofInt_toInt]
      · rename_i hhigh
        have hmax := habove (not_lt.1 hhigh)
        split
        · rename_i hlow
          rw [min_eq_right hmax, max_eq_left (habove hlow.le), Int64.ofInt_toInt]
        · rename_i hlow
          rw [min_eq_right hmax, max_eq_right (hbelow (not_lt.1 hlow))]

/-- A row as it is carried over: a counter has a count, and it reads as it did without. -/
structure Row.Carries (r r' : Row) : Prop where
  tag : r'.tag = r.tag
  value : r'.value = r.value
  count : r.tag = "counter" → ∃ n, r'.delta = some n ∧ r.value.CutsTo n
  noCount : r.tag ≠ "counter" → r'.delta = none
  reads : ∀ name, Database.decodeRow name r' = Database.decodeRow name { r with delta := none }

theorem Row.carries_filled (r : Row) : r.Carries (filled { r with delta := none }) := by
  by_cases h : r.tag = "counter"
  · have hfilled : filled { r with delta := none } = { r with delta := some r.value.toInt64 } := by
      simp [filled, h, Database.castInteger_eq]
    rw [hfilled]
    refine ⟨rfl, rfl, fun _ => ⟨_, rfl, toInt64_cuts r.value⟩, fun hother => absurd h hother, fun name => ?_⟩
    simp only [Database.decodeRow, toSample, h]
    rfl
  · have hsame : filled { r with delta := none } = { r with delta := none } := by simp [filled, h]
    rw [hsame]
    exact ⟨rfl, rfl, fun hcounter => absurd hcounter h, fun _ => rfl, fun _ => rfl⟩

/-! ## Transactions -/

def SchemaStatement.executeAll (statements : List SchemaStatement) (d : Database) : Except DatabaseFault Database :=
  statements.foldlM (fun d statement => statement.execute d) d

section Following

variable {statements : List SchemaStatement} {d d' committed : Database} {rest : List MigrationStep}

theorem Session.follow_executes (h : SchemaStatement.executeAll statements d = .ok d') :
    follow (statements.map .execute ++ rest) ⟨false, committed, some d⟩ = follow rest ⟨false, committed, some d'⟩ := by
  induction statements generalizing d with
  | nil =>
      cases h
      rfl
  | cons statement statements ih =>
      simp only [SchemaStatement.executeAll, List.foldlM_cons, bind, Except.bind] at h
      split at h
      · cases h
      · rename_i next hnext
        simp only [List.map_cons, List.cons_append, follow, migrateBy, write, Bool.false_eq_true, ↓reduceIte, hnext,
          Except.map]
        exact ih h

/-- Until its commit a transaction changes nothing, whether its statements succeed or not. -/
theorem Session.committed_follow_executes (statements : List SchemaStatement) (d : Database) :
    (follow (statements.map .execute) ⟨false, committed, some d⟩).2.committed = committed := by
  induction statements generalizing d with
  | nil => rfl
  | cons statement statements ih =>
      simp only [List.map_cons, follow, migrateBy, write, Bool.false_eq_true, ↓reduceIte]
      cases statement.execute d with
      | error fault => rfl
      | ok next => exact ih next

theorem Session.follow_transaction (h : SchemaStatement.executeAll statements d = .ok d') :
    follow (Database.transaction statements ++ rest) ⟨false, d, none⟩ = follow rest ⟨false, d', none⟩ := by
  have hcommit : follow (.commit :: rest) ⟨false, d, some d'⟩ = follow rest ⟨false, d', none⟩ := rfl
  rw [Database.transaction, List.append_assoc, List.cons_append, ← hcommit]
  exact follow_executes h

theorem Session.committed_follow_take {steps : Nat} (h : steps ≤ statements.length + 1) :
    (follow ((Database.transaction statements).take steps) ⟨false, d, none⟩).2.committed = d := by
  cases steps with
  | zero => rfl
  | succ steps =>
      have hlength : steps ≤ (statements.map MigrationStep.execute).length := by
        rw [List.length_map]
        omega
      have htake : (statements.map MigrationStep.execute ++ [MigrationStep.commit]).take steps =
          (statements.take steps).map .execute := by
        rw [List.take_append_of_le_length hlength, List.map_take]
      rw [Database.transaction, List.cons_append, List.take_succ_cons, htake]
      exact committed_follow_executes (statements.take steps) d

end Following

namespace Database

variable {d d' : Database}

theorem length_transaction (statements : List SchemaStatement) :
    (transaction statements).length = statements.length + 2 := by
  simp [transaction]

/-! ## Databases that can be migrated -/

/-- A database as a version of the schema has it. -/
inductive IsMigratable (d : Database) : Prop
  | new (version : d.version = 0) (table : d.table = none)
  | withoutCounts (version : d.version = 1) (rows : Dict String Row) (table : d.table = some ⟨false, rows⟩)
  | current (version : currentVersion ≤ d.version)

theorem pending_of_current (h : currentVersion ≤ d.version) : d.pending = [] := if_pos h

theorem pending_of_new (h : d.version = 0) : d.pending = [toVersion1, toVersion2] := by
  simp [pending, currentVersion, h]

theorem pending_of_withoutCounts (h : d.version = 1) : d.pending = [toVersion2] := by
  simp [pending, currentVersion, h]

theorem toVersion1_of_new (hversion : d.version = 0) (htable : d.table = none) :
    SchemaStatement.executeAll toVersion1 d = .ok { d with version := 1, table := some ⟨false, Dict.empty⟩ } := by
  simp [SchemaStatement.executeAll, toVersion1, SchemaStatement.execute, hversion, htable, bind, Except.bind, pure,
    Except.pure]

/-- The rows after the column for counts has been added and filled in. -/
def withCounts (rows : Dict String Row) : Dict String Row :=
  (rows.mapValues fun _ r => { r with delta := none }).mapValues fun _ r => r.filled

theorem toVersion2_of_withoutCounts {rows : Dict String Row} (hversion : d.version = 1)
    (htable : d.table = some ⟨false, rows⟩) :
    SchemaStatement.executeAll toVersion2 d = .ok { d with version := 2, table := some ⟨true, withCounts rows⟩ } := by
  simp [SchemaStatement.executeAll, toVersion2, SchemaStatement.execute, hversion, htable, bind, Except.bind, pure,
    Except.pure, withCounts]

/-- The next transaction succeeds and leaves a database that needs the transactions after it. -/
theorem IsMigratable.next (h : d.IsMigratable) {statements : List SchemaStatement}
    {rest : List (List SchemaStatement)} (hpending : d.pending = statements :: rest) :
    ∃ d', SchemaStatement.executeAll statements d = .ok d' ∧ d'.IsMigratable ∧ d'.pending = rest := by
  cases h with
  | new hversion htable =>
      obtain ⟨rfl, rfl⟩ := List.cons.inj ((pending_of_new hversion).symm.trans hpending)
      exact ⟨_, toVersion1_of_new hversion htable, .withoutCounts rfl _ rfl, rfl⟩
  | withoutCounts hversion rows htable =>
      obtain ⟨rfl, rfl⟩ := List.cons.inj ((pending_of_withoutCounts hversion).symm.trans hpending)
      exact ⟨_, toVersion2_of_withoutCounts hversion htable, .current (Nat.le_refl 2), rfl⟩
  | current hversion =>
      rw [pending_of_current hversion] at hpending
      cases hpending

/-! ## Runs -/

theorem migrate_of_pending_nil (readOnly : Bool) (h : d.pending = []) : d.migrate readOnly = (none, d) := by
  simp only [migrate, migration, h]
  rfl

theorem migrate_of_next {statements : List SchemaStatement} {rest : List (List SchemaStatement)}
    (hpending : d.pending = statements :: rest) (hnext : SchemaStatement.executeAll statements d = .ok d')
    (hrest : d'.pending = rest) : d.migrate false = d'.migrate false := by
  simp only [migrate, migration, hpending, hrest, List.flatMap_cons]
  rw [Session.follow_transaction hnext]

/-- A run either stops before the first commit, or is a run from the database after it. -/
theorem interrupted_of_next {statements : List SchemaStatement} {rest : List (List SchemaStatement)}
    (hpending : d.pending = statements :: rest) (hnext : SchemaStatement.executeAll statements d = .ok d')
    (hrest : d'.pending = rest) (steps : Nat) :
    d.interrupted steps = d ∨ ∃ further, d.interrupted steps = d'.interrupted further := by
  simp only [interrupted, migration, hpending, hrest, List.flatMap_cons]
  by_cases hsteps : steps ≤ statements.length + 1
  · left
    have hlength : steps ≤ (transaction statements).length := by
      rw [length_transaction]
      omega
    rw [List.take_append_of_le_length hlength]
    exact Session.committed_follow_take hsteps
  · right
    have hlength : (transaction statements).length ≤ steps := by
      rw [length_transaction]
      omega
    refine ⟨steps - (transaction statements).length, ?_⟩
    rw [List.take_append, List.take_of_length_le hlength, Session.follow_transaction hnext]

/-- Stopping on the way changes nothing about where the next migration ends. -/
theorem IsMigratable.resumes (h : d.IsMigratable) (steps : Nat) :
    (d.interrupted steps).IsMigratable ∧ (d.interrupted steps).migrate false = d.migrate false := by
  generalize hpending : d.pending = transactions
  induction transactions generalizing d steps with
  | nil =>
      have hsame : d.interrupted steps = d := by
        simp only [interrupted, migration, hpending, List.flatMap_nil, List.take_nil]
        rfl
      rw [hsame]
      exact ⟨h, rfl⟩
  | cons statements rest ih =>
      obtain ⟨next, hnext, hmigratable, hrest⟩ := h.next hpending
      obtain hsame | ⟨further, hfurther⟩ := interrupted_of_next hpending hnext hrest steps
      · rw [hsame]
        exact ⟨h, rfl⟩
      · rw [hfurther, migrate_of_next hpending hnext hrest]
        exact ih hmigratable further hrest

theorem IsMigratable.resumes_all (h : d.IsMigratable) (stops : List Nat) :
    (stops.foldl interrupted d).migrate false = d.migrate false := by
  induction stops generalizing d with
  | nil => rfl
  | cons steps stops ih =>
      obtain ⟨hmigratable, hsame⟩ := h.resumes steps
      exact (ih hmigratable).trans hsame

/-! ## What a migration does -/

/-- What becomes of a database: every row is carried over, each in its place. -/
structure Upgrades (d d' : Database) : Prop where
  version : currentVersion ≤ d'.version
  rejected : d'.rejected = d.rejected
  new : d.version = 0 → d'.table = some ⟨true, Dict.empty⟩
  rows : ∀ rows, d.version = 1 → d.table = some ⟨false, rows⟩ → ∃ rows', d'.table = some ⟨true, rows'⟩ ∧
    List.Forall₂ (fun e e' => e'.1 = e.1 ∧ e.2.Carries e'.2) rows.entries rows'.entries
  current : currentVersion ≤ d.version → d' = d

theorem withCounts_carries (rows : Dict String Row) :
    List.Forall₂ (fun e e' => e'.1 = e.1 ∧ e.2.Carries e'.2) rows.entries (withCounts rows).entries := by
  simp only [withCounts, Dict.mapValues, List.map_map, List.forall₂_map_right_iff, List.forall₂_same]
  exact fun e _ => ⟨rfl, e.2.carries_filled⟩

theorem migrate_withoutCounts {rows : Dict String Row} (hversion : d.version = 1)
    (htable : d.table = some ⟨false, rows⟩) :
    d.migrate false = (none, { d with version := 2, table := some ⟨true, withCounts rows⟩ }) := by
  rw [migrate_of_next (pending_of_withoutCounts hversion) (toVersion2_of_withoutCounts hversion htable) rfl]
  exact migrate_of_pending_nil false rfl

theorem migrate_new (hversion : d.version = 0) (htable : d.table = none) :
    d.migrate false = (none, { d with version := 2, table := some ⟨true, Dict.empty⟩ }) := by
  have hsame : withCounts Dict.empty = Dict.empty := rfl
  rw [migrate_of_next (pending_of_new hversion) (toVersion1_of_new hversion htable) rfl,
    migrate_withoutCounts rfl rfl, hsame]

theorem IsMigratable.upgrades (h : d.IsMigratable) : ∃ d', d.migrate false = (none, d') ∧ d.Upgrades d' := by
  cases h with
  | new hversion htable =>
      refine ⟨_, migrate_new hversion htable, Nat.le_refl 2, rfl, fun _ => rfl, fun rows hone _ => ?_,
        fun hcurrent => ?_⟩
      · exact absurd (hversion.symm.trans hone) (by decide)
      · exact absurd hcurrent (by simp [currentVersion, hversion])
  | withoutCounts hversion rows htable =>
      refine ⟨_, migrate_withoutCounts hversion htable, Nat.le_refl 2, rfl, fun hzero => ?_, fun old _ hold => ?_,
        fun hcurrent => ?_⟩
      · exact absurd (hversion.symm.trans hzero) (by decide)
      · obtain rfl : rows = old := (Table.mk.inj (Option.some.inj (htable.symm.trans hold))).2
        exact ⟨_, rfl, withCounts_carries rows⟩
      · exact absurd hcurrent (by simp [currentVersion, hversion])
  | current hversion =>
      refine ⟨d, migrate_of_pending_nil false (pending_of_current hversion), hversion, rfl, fun hzero => ?_,
        fun rows hone _ => ?_, fun _ => rfl⟩
      · exact absurd hversion (by simp [currentVersion, hzero])
      · exact absurd hversion (by simp [currentVersion, hone])

/-- A migration carries every row over and ends at the schema of this library. Another changes nothing after it, and
one that follows any number of migrations that stopped on their way ends in the same database. -/
theorem migrate_keeps_metrics (h : d.IsMigratable) :
    ∃ d', d.migrate false = (none, d') ∧ d.Upgrades d' ∧ d'.migrate false = (none, d') ∧
      ∀ stops : List Nat, (stops.foldl interrupted d).migrate false = (none, d') := by
  obtain ⟨d', hmigrate, hupgrades⟩ := h.upgrades
  refine ⟨d', hmigrate, hupgrades, ?_, fun stops => (h.resumes_all stops).trans hmigrate⟩
  exact migrate_of_pending_nil false (pending_of_current hupgrades.version)

/-- Counters with a fraction, below zero and beyond 64 bits, a gauge, and a row of no kind. -/
def mixedRows : Dict String Row where
  entries := [("hits", ⟨"counter", .ofRatio false 429 10, none⟩), ("debt", ⟨"counter", .ofRatio true 19 2, none⟩),
    ("flood", ⟨"counter", .ofRatio false (tenPow 300) 1, none⟩), ("load", ⟨"gauge", .ofRatio false 3 2, none⟩),
    ("odd", ⟨"Counter", .ofRatio false 7 1, none⟩)]
  nodup := by decide

def mixed : Database := ⟨1, some ⟨false, mixedRows⟩, []⟩

theorem migrate_keeps_metrics_mixed :
    mixed.IsMigratable ∧
      ∃ d', mixed.migrate false = (none, d') ∧ mixed.Upgrades d' ∧ d'.migrate false = (none, d') ∧
        (∀ stops : List Nat, (stops.foldl interrupted mixed).migrate false = (none, d')) ∧
        d'.table.map (fun t => t.rows.entries.map (·.2.delta)) =
          some [some 42, some (-9), some Int64.maxValue, none, none] := by
  have hmigratable : mixed.IsMigratable := .withoutCounts rfl mixedRows rfl
  obtain ⟨d', hmigrate, hupgrades, hagain, hstops⟩ := migrate_keeps_metrics hmigratable
  refine ⟨hmigratable, d', hmigrate, hupgrades, hagain, hstops, ?_⟩
  obtain rfl : _ = d' := congrArg Prod.snd hmigrate
  decide +kernel

end Database

end PushMetrics.Sql
