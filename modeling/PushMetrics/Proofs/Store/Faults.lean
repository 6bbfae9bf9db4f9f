import PushMetrics.Proofs.Store.Writing
import PushMetrics.Store.Faults

/-!
# Failing stores leave things as they were

Wherever the statements of a change fail, what is committed is what was committed before, and so is all that the store
shows. Without a failure on the way, a store does what it always does.
-/

namespace PushMetrics

open Sql (Faults)

namespace Sql.Session

variable {faults : Faults} {n k : Nat} {statement : Statement} {s s' : Session} {d : Database} {m : Metric}
  {ms : List Metric} {e : StorageError}

theorem send_ok {u : Unit} (h : s.send faults n statement = (.ok u, s')) :
    faults n = none ∧ s.execute statement = .ok s' := by
  unfold send at h
  split at h
  · cases h
  · rename_i hnone
    split at h
    · rename_i hexecute
      cases h
      exact ⟨hnone, hexecute⟩
    · cases h

theorem send_error (h : s.send faults n statement = (.error e, s')) : s' = s := by
  unfold send at h
  split at h
  · cases h
    rfl
  · split at h <;> cases h
    rfl

theorem send_fault (s : Session) (statement : Statement) (hn : (faults n).isSome) :
    ∃ e, s.send faults n statement = (.error e, s) := by
  obtain ⟨e, he⟩ := Option.isSome_iff_exists.1 hn
  exact ⟨e, by simp [send, he]⟩

/-- Rows written within a transaction have no effect yet. -/
theorem execute_upsert (hs : s.working = some d) (h : s.execute (.upsert m) = .ok s') :
    ∃ d', d.upsert m = .ok d' ∧ s' = { s with working := some d' } := by
  simp only [execute, write, hs] at h
  split at h
  · cases h
  · cases hd : d.upsert m with
    | error fault =>
        rw [hd] at h
        cases h
    | ok d' =>
        rw [hd] at h
        cases h
        exact ⟨d', rfl, rfl⟩

/-! ## Failing -/

theorem sendRows_error (hs : s.working = some d) (h : s.sendRows faults n ms = (.error e, s')) :
    s'.committed = s.committed := by
  induction ms generalizing n d s with
  | nil => rw [send_error h]
  | cons m ms ih =>
      rw [sendRows] at h
      split at h
      · rename_i next hsent
        obtain ⟨d', -, rfl⟩ := execute_upsert hs (send_ok hsent).2
        exact ih (s := { s with working := some d' }) rfl h
      · rename_i failed hsent
        obtain rfl := send_error hsent
        split at h
        · rename_i hback
          cases h
          cases (send_ok hback).2
          rfl
        · rename_i hback
          cases h
          rw [send_error hback]

theorem change_error {change : Change} (h : s.change faults change = (.error e, s')) :
    s'.committed = s.committed := by
  cases change with
  | save m => rw [send_error h]
  | reset => rw [send_error h]
  | saveBatch ms =>
      simp only [Session.change] at h
      split at h
      · rename_i hsent
        cases h
        rw [send_error hsent]
      · rename_i hsent
        cases (send_ok hsent).2
        exact sendRows_error (s := { s with working := some s.committed }) rfl h

theorem sendRows_fault (s : Session) (hk : k ≤ ms.length) (hf : (faults (n + k)).isSome) :
    ∃ e s', s.sendRows faults n ms = (.error e, s') := by
  induction ms generalizing n k s with
  | nil =>
      obtain rfl : k = 0 := by simpa using hk
      obtain ⟨e, he⟩ := send_fault s .commit hf
      exact ⟨e, s, he⟩
  | cons m ms ih =>
      rw [sendRows]
      split
      · rename_i next hsent
        cases k with
        | zero => simp [(send_ok hsent).1] at hf
        | succ k =>
            have hnext : (faults (n + 1 + k)).isSome := by rwa [Nat.add_right_comm, Nat.add_assoc]
            exact ih next (by simpa using hk) hnext
      · split <;> exact ⟨_, _, rfl⟩

end Sql.Session

/-- The number of statements that a change needs: a batch is started and committed. -/
def Change.statements : Change → Nat
  | save _ | reset => 1
  | saveBatch ms => ms.length + 2

theorem Sql.Session.change_fault {faults : Faults} {change : Change} {k : Nat} (s : Session)
    (hk : k < change.statements) (hf : (faults k).isSome) : ∃ e s', s.change faults change = (.error e, s') := by
  cases change with
  | saveBatch ms =>
      simp only [Session.change]
      split
      · exact ⟨_, _, rfl⟩
      · rename_i hsent
        cases k with
        | zero => simp [(send_ok hsent).1] at hf
        | succ k =>
            have hk : k + 1 < ms.length + 2 := hk
            exact sendRows_fault _ (k := k) (by omega) (by rwa [Nat.add_comm 1 k])
  | _ =>
      obtain rfl : k = 0 := by
        simp only [Change.statements] at hk
        omega
      obtain ⟨e, he⟩ := send_fault s _ hf
      exact ⟨e, s, he⟩

theorem World.setDatabase_self (w : World) (id : Nat) : w.setDatabase id (w.database id) = w := by
  have hset : w.databases.set id (w.databases.getD id .empty) = w.databases := by
    refine List.ext_getElem (by simp) fun i hi _ => ?_
    rw [List.getElem_set]
    split
    · rename_i hid
      subst hid
      rw [List.length_set] at hi
      simp [List.getD_eq_getElem?_getD, hi]
    · rfl
  simp only [World.setDatabase, World.database, hset]

namespace Storage

variable {faults : Faults} {change : Change} {name : String} {k : Nat} {store store' : Storage} {w w' : World}
  {e : StorageError}

/-- A change that fails leaves the store and its surroundings as they were, wherever it fails. -/
theorem tryApply_error (h : store.tryApply faults change w = (.error e, store', w')) : store' = store ∧ w' = w := by
  induction store generalizing store' w' with
  | memory m =>
      simp only [tryApply] at h
      split at h <;> cases h
      exact ⟨rfl, rfl⟩
  | table c =>
      simp only [tryApply, Connection.tryChange] at h
      split at h
      · cases hchange : (⟨c.readOnly, w.database c.database, none⟩ : Sql.Session).change faults change with
        | mk answer session =>
            rw [hchange] at h
            cases h
            rw [Sql.Session.change_error hchange, World.setDatabase_self]
            exact ⟨rfl, rfl⟩
      · cases h
        exact ⟨rfl, rfl⟩
  | snapshot layer inner ih =>
      simp only [tryApply] at h
      split at h
      · split at h
        · rename_i hinner
          cases h
          obtain ⟨rfl, rfl⟩ := ih hinner
          exact ⟨rfl, rfl⟩
        · cases h
      · cases h
        exact ⟨rfl, rfl⟩

/-! ## What fails -/

theorem tryApply_closed (hstore : store.isOpen = false) : ∃ e, (store.tryApply faults change w).1 = .error e := by
  induction store with
  | memory m =>
      have hm : m.isOpen = false := hstore
      exact ⟨.closed, by simp [tryApply, Memory.apply, Memory.whenOpen, hm]⟩
  | table c =>
      have hc : c.isOpen = false := hstore
      exact ⟨.closed, by simp [tryApply, Connection.tryChange, hc]⟩
  | snapshot layer inner ih =>
      simp only [tryApply]
      split
      · rename_i hlayer
        obtain ⟨e, he⟩ := ih (by simpa [isOpen, hlayer] using hstore)
        split
        · exact ⟨_, rfl⟩
        · rename_i hinner
          rw [hinner] at he
          cases he
      · exact ⟨_, rfl⟩

theorem tryApply_fault (htable : store.isTable) (hk : k < change.statements) (hf : (faults k).isSome) :
    ∃ e, (store.tryApply faults change w).1 = .error e := by
  induction store with
  | memory m => cases htable
  | table c =>
      obtain ⟨e, s', hchange⟩ :=
        Sql.Session.change_fault ⟨c.readOnly, w.database c.database, none⟩ hk hf
      simp only [tryApply, Connection.tryChange, hchange]
      split <;> exact ⟨_, rfl⟩
  | snapshot layer inner ih =>
      obtain ⟨e, he⟩ := ih htable
      simp only [tryApply]
      split
      · split
        · exact ⟨_, rfl⟩
        · rename_i hinner
          rw [hinner] at he
          cases he
      · exact ⟨_, rfl⟩

theorem tryGet_closed (hstore : store.isOpen = false) : ∃ e, store.tryGet faults name w = .error e := by
  induction store with
  | memory m =>
      have hm : m.isOpen = false := hstore
      exact ⟨.closed, by simp [tryGet, Memory.get, Memory.whenOpen, hm]⟩
  | table c =>
      have hc : c.isOpen = false := hstore
      exact ⟨.closed, by simp [tryGet, Connection.tryAsk, hc]⟩
  | snapshot layer inner ih =>
      simp only [tryGet]
      split
      · rename_i hlayer
        exact ih (by simpa [isOpen, hlayer] using hstore)
      · exact ⟨_, rfl⟩

theorem tryGet_fault (htable : store.isTable) (hf : (faults 0).isSome) :
    ∃ e, store.tryGet faults name w = .error e := by
  induction store with
  | memory m => cases htable
  | table c =>
      obtain ⟨e, he⟩ := Option.isSome_iff_exists.1 hf
      simp only [tryGet, Connection.tryAsk, he]
      split <;> exact ⟨_, rfl⟩
  | snapshot layer inner ih =>
      simp only [tryGet]
      split
      · exact ih htable
      · exact ⟨_, rfl⟩

end Storage

/-! ## Without failures -/

namespace Sql.Session

variable {s : Session} {d : Database}

theorem send_none (n : Nat) (statement : Statement) (s : Session) :
    s.send .none n statement = match s.execute statement with
      | .ok s => (.ok (), s)
      | .error fault => (.error (.database fault), s) := rfl

theorem sendRows_none (hs : s.working = some d) (hw : s.readOnly = false) (n : Nat) (ms : List Metric) :
    match ms.foldlM Database.upsert d with
    | .ok d' => s.sendRows .none n ms = (.ok (), { s with committed := d', working := none })
    | .error fault => ∃ s', s.sendRows .none n ms = (.error (.database fault), s') := by
  induction ms generalizing n s d with
  | nil => simp [sendRows, send_none, execute, hs, pure, Except.pure]
  | cons m ms ih =>
      rw [List.foldlM_cons]
      cases hm : d.upsert m with
      | error fault => simp [sendRows, send_none, execute, write, hs, hw, hm, bind, Except.bind, Except.map]
      | ok d' =>
          have hrest := ih (s := { s with working := some d' }) rfl hw (n + 1)
          simpa [sendRows, send_none, execute, write, hs, hw, hm, bind, Except.bind, Except.map] using hrest

/-- A session that can write carries out a change as one. -/
theorem change_none (d : Database) (change : Change) :
    match d.apply change with
    | .ok d' => (⟨false, d, none⟩ : Session).change .none change = (.ok (), ⟨false, d', none⟩)
    | .error fault => ∃ s', (⟨false, d, none⟩ : Session).change .none change = (.error (.database fault), s') := by
  cases change with
  | saveBatch ms => exact sendRows_none (s := ⟨false, d, some d⟩) rfl rfl 1 ms
  | save m =>
      simp only [Session.change, send_none, execute, write, Database.apply]
      cases d.upsert m <;> simp [Except.map]
  | reset =>
      simp only [Session.change, send_none, execute, write, Database.apply]
      cases d.deleteAll <;> simp [Except.map]

theorem change_readOnly {change : Change} (hchange : change ≠ .saveBatch []) (d : Database) :
    ∃ s', (⟨true, d, none⟩ : Session).change .none change = (.error (.database .readOnly), s') := by
  cases change with
  | saveBatch ms =>
      cases ms with
      | nil => exact absurd rfl hchange
      | cons m ms => simp [Session.change, sendRows, send_none, execute, write]
  | _ => simp [Session.change, send_none, execute, write]

end Sql.Session

theorem Connection.tryChange_none {c : Connection} {w : World} {change : Change} (hchange : change ≠ .saveBatch []) :
    c.tryChange .none w change = c.change w change := by
  simp only [tryChange, Connection.change]
  split
  · cases hw : c.readOnly with
    | true =>
        obtain ⟨s', hs'⟩ := Sql.Session.change_readOnly hchange (w.database c.database)
        simp [hs', Sql.Session.change_error hs', World.setDatabase_self]
    | false =>
        have hchanged := Sql.Session.change_none (w.database c.database) change
        cases hd : (w.database c.database).apply change with
        | ok d =>
            rw [hd] at hchanged
            simp [hchanged]
        | error fault =>
            rw [hd] at hchanged
            obtain ⟨s', hs'⟩ := hchanged
            simp [hs', Sql.Session.change_error hs', World.setDatabase_self]
  · rfl

namespace Storage

variable {store : Storage} {w : World}

theorem tryApply_none {change : Change} (hchange : change ≠ .saveBatch []) :
    store.tryApply .none change w = store.apply change w := by
  induction store with
  | memory m => rfl
  | table c => simp only [tryApply, Storage.apply, Connection.tryChange_none hchange]
  | snapshot layer inner ih =>
      simp only [tryApply, ih]
      rfl

theorem tryGet_none (name : String) : store.tryGet .none name w = store.get name w := by
  induction store with
  | memory m => rfl
  | table c =>
      simp only [tryGet, Storage.get, Connection.tryAsk, Faults.none]
      split
      · rfl
      · rename_i hc
        simp [Connection.ask, hc]
  | snapshot layer inner ih => simp only [tryGet, Storage.get, ih]

end Storage

end PushMetrics
