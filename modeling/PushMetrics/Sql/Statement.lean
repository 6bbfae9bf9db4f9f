import PushMetrics.Sql.Schema
import PushMetrics.Store.Memory

/-!
# Statements

What is asked of the metric table: one row, all rows, inserting or replacing rows, deleting all rows. A
batch is one transaction: if one of its rows is refused, none is written.
-/

namespace PushMetrics.Sql

open Number

namespace Database

/-- The table, which has the column for counts. -/
def table? (d : Database) : Except DatabaseFault Table :=
  match d.table with
  | some ⟨true, rows⟩ => .ok ⟨true, rows⟩
  | _ => .error .schema

def decodeRow (name : String) (r : Row) : Except DatabaseFault Metric := r.toSample.map (⟨name, ·⟩)

def select (d : Database) (name : String) : Except DatabaseFault (Option Metric) := do
  let t ← d.table?
  match t.rows.get? name with
  | none => return none
  | some r => return some (← decodeRow name r)

/-- The metrics of all rows in order, with the error of a row that is none in its place. -/
def selectAll (d : Database) : Except DatabaseFault (List (Except DatabaseFault Metric)) := do
  let t ← d.table?
  return t.rows.entries.map fun e => decodeRow e.1 e.2

/-- Inserts the row of a metric or replaces the row of its name. -/
def upsert (d : Database) (m : Metric) : Except DatabaseFault Database := do
  let t ← d.table?
  let r := Row.ofSample m.sample
  match column? r.value with
  | none => .error .missingValue
  | some value =>
    if m.name ∈ d.rejected then .error .rejected
    else return { d with table := some { t with rows := t.rows.put m.name { r with value } } }

def deleteAll (d : Database) : Except DatabaseFault Database := do
  let t ← d.table?
  return { d with table := some { t with rows := Dict.empty } }

/-- Carries out a change; on an error nothing has changed. -/
def apply (d : Database) : Change → Except DatabaseFault Database
  | .save m => d.upsert m
  | .saveBatch ms => ms.foldlM upsert d
  | .reset => d.deleteAll

end Database

end PushMetrics.Sql
