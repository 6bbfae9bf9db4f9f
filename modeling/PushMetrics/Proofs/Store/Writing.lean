import PushMetrics.Proofs.Store.Realization

/-!
# What a change has done

This is about every store there can be, open or not, with rows that cannot be read, or names that are rejected. A change
that fails leaves everything as it was. One that succeeds is read back, but for the sign of a zero in a table, and tells
which names can be written.
-/

namespace PushMetrics

theorem Sample.merge_ne_nan {prior : Option Sample} {s : Sample} (h : s ≠ .gauge .nan) :
    merge prior s ≠ .gauge .nan := by
  cases s with
  | gauge value => rwa [merge_gauge]
  | counter count => rcases prior with _ | (_ | _) <;> simp [merge]

/-! ## Contents laid over others -/

/-- What is found where contents are laid over what was found before; `keep` is what becomes of a written sample. -/
def Contents.laidOver {ε : Type} (c : Contents) (keep : Sample → Sample) (below : String → Except ε (Option Metric))
    (name : String) : Except ε (Option Metric) :=
  match c.get? name with
  | some s => .ok (some ⟨name, keep s⟩)
  | none => below name

section
variable {ε : Type} {c d : Contents} {keep : Sample → Sample} {below : String → Except ε (Option Metric)}

theorem Contents.laidOver_empty (name : String) : Contents.laidOver Dict.empty keep below name = below name := rfl

theorem Contents.laidOver_save (m : Metric) (name : String) :
    (c.save m).laidOver keep below name = if m.name = name then .ok (some ⟨name, keep m.sample⟩)
      else c.laidOver keep below name := by
  by_cases hname : m.name = name <;> simp only [laidOver, get?_save, hname, ↓reduceIte]

theorem Contents.isSome_get?_saveAll {ms : List Metric} {name : String} (c : Contents) (h : name ∈ ms.map (·.name)) :
    ((c.saveAll ms).get? name).isSome := by
  induction ms generalizing c with
  | nil => cases h
  | cons m ms ih =>
      by_cases hrest : name ∈ ms.map (·.name)
      · exact ih (c.save m) hrest
      · obtain rfl : name = m.name := by simpa [hrest] using h
        have hlast := get?_saveAll_of_notMem hrest (c.save m)
        rw [get?_save, if_pos rfl] at hlast
        exact Option.isSome_iff_exists.2 ⟨_, hlast⟩

theorem Contents.metric?_save (c : Contents) (m : Metric) (name : String) :
    (c.save m).metric? name = if m.name = name then some ⟨name, m.sample⟩ else c.metric? name := by
  by_cases hname : m.name = name <;> simp only [metric?, get?_save, hname, ↓reduceIte, Option.map_some]

theorem Contents.ok_metric?_saveAll (h : ∀ name, .ok (c.metric? name) = d.laidOver id below name) (ms : List Metric)
    (name : String) : .ok ((c.saveAll ms).metric? name) = (d.saveAll ms).laidOver id below name := by
  induction ms generalizing c d with
  | nil => exact h name
  | cons m ms ih =>
      refine ih fun name => ?_
      rw [metric?_save, laidOver_save, ← h name]
      split <;> rfl

theorem Contents.Same.laidOver (h : c.Same d) (name : String) :
    c.laidOver keep below name = d.laidOver keep below name := by
  rw [Contents.laidOver, Contents.laidOver, h name]

end

namespace Sql.Database

variable {d d' : Database} {m : Metric}

theorem upsert_eq_ok : d.upsert m = .ok d' ↔ ∃ rows value, d.table = some ⟨true, rows⟩ ∧
    column? (Row.ofSample m.sample).value = some value ∧ m.name ∉ d.rejected ∧
    { d with table := some ⟨true, rows.put m.name { Row.ofSample m.sample with value }⟩ } = d' := by
  simp only [upsert, table?, bind, Except.bind, pure, Except.pure]
  split
  · rename_i fault hfault
    split at hfault
    · cases hfault
    · rename_i hother
      simp only [reduceCtorEq, false_iff, not_exists, not_and]
      exact fun rows _ htable => absurd htable (hother rows)
  · rename_i table htable
    split at htable
    · rename_i rows hrows
      cases htable
      split
      · rename_i hnone
        simp [hnone]
      · rename_i value hvalue
        split
        · rename_i hrejected
          simp [hrejected]
        · rename_i hrejected
          simp [hrows, hvalue, hrejected]
    · cases htable

/-- Rows of a name can be written. -/
def Accepts (d : Database) (name : String) : Prop := (∃ rows, d.table = some ⟨true, rows⟩) ∧ name ∉ d.rejected

theorem upsert_of_accepts (h : d.Accepts m.name) (hm : m.sample ≠ .gauge .nan) : ∃ d', d.upsert m = .ok d' := by
  obtain ⟨⟨rows, hrows⟩, hname⟩ := h
  obtain ⟨value, hvalue, -⟩ := Row.keeps hm
  exact ⟨_, upsert_eq_ok.2 ⟨rows, value, hrows, hvalue, hname, rfl⟩⟩

theorem accepts_of_upsert (h : d.upsert m = .ok d') :
    d.Accepts m.name ∧ m.sample ≠ .gauge .nan ∧ ∀ name, d'.Accepts name ↔ d.Accepts name := by
  obtain ⟨rows, value, hrows, hvalue, hname, rfl⟩ := upsert_eq_ok.1 h
  refine ⟨⟨⟨rows, hrows⟩, hname⟩, fun hnan => ?_, fun name => by simp [Accepts, hrows]⟩
  rw [hnan] at hvalue
  cases hvalue

theorem select_upsert (h : d.upsert m = .ok d') (name : String) :
    d'.select name = if m.name = name then .ok (some ⟨name, m.sample.unsigned⟩) else d.select name := by
  have hnumber := (accepts_of_upsert h).2.1
  obtain ⟨rows, value, hrows, hvalue, -, rfl⟩ := upsert_eq_ok.1 h
  obtain ⟨column, hcolumn, hsample⟩ := Row.keeps hnumber
  obtain rfl : value = column := Option.some.inj (hvalue.symm.trans hcolumn)
  simp only [Database.select, table?, hrows, bind, Except.bind, Dict.get?_put]
  by_cases hname : m.name = name
  · simp only [hname, ↓reduceIte, decodeRow, hsample]
    rfl
  · simp only [hname, ↓reduceIte]

/-- Rows written one after another are found, the last one of each name, over the rows there were. -/
theorem select_upsertAll {ms : List Metric} (h : ms.foldlM upsert d = .ok d') :
    (∀ m ∈ ms, d.Accepts m.name ∧ m.sample ≠ .gauge .nan) ∧ (∀ name, d'.Accepts name ↔ d.Accepts name) ∧
      ∀ (c : Contents) below, (∀ name, d.select name = c.laidOver Sample.unsigned below name) →
        ∀ name, d'.select name = (c.saveAll ms).laidOver Sample.unsigned below name := by
  induction ms generalizing d with
  | nil =>
      cases h
      exact ⟨by simp, fun name => Iff.rfl, fun c below hover => hover⟩
  | cons m ms ih =>
      rw [List.foldlM_cons] at h
      cases hnext : d.upsert m with
      | error fault =>
          rw [hnext] at h
          cases h
      | ok next =>
          rw [hnext] at h
          obtain ⟨haccepts, hnumber, hsame⟩ := accepts_of_upsert hnext
          obtain ⟨hrest, hlast, hover⟩ := ih h
          refine ⟨fun n hn => ?_, fun name => (hlast name).trans (hsame name), fun c below hbelow => ?_⟩
          · rcases List.mem_cons.1 hn with rfl | hn
            · exact ⟨haccepts, hnumber⟩
            · exact ⟨(hsame n.name).1 (hrest n hn).1, (hrest n hn).2⟩
          · refine hover (c.save m) below fun name => ?_
            rw [select_upsert hnext, hbelow name, Contents.laidOver_save]

end Sql.Database

namespace Storage

/-! ## Failing -/

/-- A change that fails leaves the store and its surroundings as they were. -/
theorem apply_error {change : Change} {store store' : Storage} {w w' : World} {e : StorageError}
    (h : store.apply change w = (.error e, store', w')) : store' = store ∧ w' = w := by
  induction store generalizing store' w' with
  | memory m =>
      simp only [Storage.apply] at h
      split at h <;> cases h
      exact ⟨rfl, rfl⟩
  | table connection =>
      simp only [Storage.apply, Connection.change] at h
      split at h
      · split at h
        · cases h
          exact ⟨rfl, rfl⟩
        · split at h <;> cases h
          exact ⟨rfl, rfl⟩
      · cases h
        exact ⟨rfl, rfl⟩
  | snapshot layer inner ih =>
      simp only [Storage.apply] at h
      split at h
      · split at h
        · rename_i hinner
          cases h
          obtain ⟨rfl, rfl⟩ := ih hinner
          exact ⟨rfl, rfl⟩
        · cases h
      · cases h
        exact ⟨rfl, rfl⟩

/-! ## Succeeding -/

/-- What becomes of a sample that is written. -/
def keeps : Storage → Sample → Sample
  | memory _ => id
  | table _ => Sample.unsigned
  | snapshot _ inner => inner.keeps

/-- Metrics of a name can be saved. -/
def Accepts : Storage → World → String → Prop
  | memory m, _, _ => m.isOpen = true
  | table connection, w, name => connection.isOpen = true ∧ connection.readOnly = false ∧
    (w.database connection.database).Accepts name
  | snapshot layer inner, w, name => layer.isOpen = true ∧ inner.Accepts w name

variable {store store' : Storage} {w w' : World}

theorem Takes.merge {m : Metric} (h : store.Takes m) (prior : Option Sample) :
    store.Takes ⟨m.name, .merge prior m.sample⟩ := by
  induction store with
  | memory memory => trivial
  | table connection => exact Sample.merge_ne_nan h
  | snapshot layer inner ih => exact ih h

theorem get_of_databases (hw : w'.databases = w.databases) (name : String) : store.get name w' = store.get name w := by
  induction store with
  | memory m => rfl
  | table connection => simp only [Storage.get, Connection.ask, World.database, hw]
  | snapshot layer inner ih => simp only [Storage.get, ih]

theorem accepts_of_databases (hw : w'.databases = w.databases) (name : String) :
    store.Accepts w' name ↔ store.Accepts w name := by
  induction store with
  | memory m => rfl
  | table connection => simp only [Accepts, World.database, hw]
  | snapshot layer inner ih => simp only [Accepts, ih]

/-- Contents have been written over what a store held, and nothing else about it has changed. -/
structure Laid (c : Contents) (store : Storage) (w : World) (store' : Storage) (w' : World) : Prop where
  get : ∀ name, store'.get name w' = c.laidOver store.keeps (store.get · w) name
  accepts : ∀ name, store'.Accepts w' name ↔ store.Accepts w name
  keeps : store'.keeps = store.keeps
  takes : store'.Takes = store.Takes

theorem Laid.refl (store : Storage) (w : World) : Laid Dict.empty store w store w :=
  ⟨fun _ => rfl, fun _ => Iff.rfl, rfl, rfl⟩

theorem Laid.same {c d : Contents} (h : Laid c store w store' w') (hd : c.Same d) : Laid d store w store' w' :=
  ⟨fun name => (h.get name).trans (hd.laidOver name), h.accepts, h.keeps, h.takes⟩

theorem unsigned_keeps (store : Storage) (s : Sample) : (store.keeps s).unsigned = s.unsigned := by
  induction store with
  | memory m => rfl
  | table connection => exact s.unsigned_unsigned
  | snapshot layer inner ih => exact ih

theorem database_setDatabase {id : Nat} (hw : id < w.databases.length) (d : Sql.Database) :
    (w.setDatabase id d).database id = d := by
  simp [World.database, World.setDatabase, hw]

theorem lt_of_accepts {id : Nat} {name : String} (h : (w.database id).Accepts name) : id < w.databases.length := by
  obtain ⟨⟨rows, hrows⟩, -⟩ := h
  by_contra hlt
  rw [World.database, List.getD_eq_getElem?_getD, List.getElem?_eq_none (by omega)] at hrows
  cases hrows

theorem database_setDatabase_self (w : World) (id : Nat) :
    (w.setDatabase id (w.database id)).database id = w.database id := by
  by_cases hw : id < w.databases.length
  · exact database_setDatabase hw _
  · simp [World.database, World.setDatabase, hw]

theorem applyTo_eq_saveAll {change : Change} (h : change ≠ .reset) (c : Contents) :
    change.applyTo c = c.saveAll change.metrics := by
  cases change with
  | save m => rfl
  | saveBatch ms => rfl
  | reset => exact absurd rfl h

theorem apply_eq_upsertAll {change : Change} (h : change ≠ .reset) (d : Sql.Database) :
    d.apply change = change.metrics.foldlM Sql.Database.upsert d := by
  cases change with
  | save m => simp [Sql.Database.apply, Change.metrics]
  | saveBatch ms => rfl
  | reset => exact absurd rfl h

/-- A change that writes and succeeds has been allowed to write every metric, and has laid them over what there was. -/
theorem laid_of_apply {change : Change} (hreset : change ≠ .reset)
    (h : store.apply change w = (.ok (), store', w')) :
    (∀ m ∈ change.metrics, store.Accepts w m.name ∧ store.Takes m) ∧
      Laid (Contents.ofMetrics change.metrics) store w store' w' := by
  induction store generalizing store' w' with
  | memory m =>
      simp only [Storage.apply, Memory.apply, Memory.whenOpen] at h
      split at h
      · rename_i hok
        split at hok
        · rename_i ho
          cases h
          cases hok
          refine ⟨fun n _ => ⟨ho, trivial⟩, fun name => ?_, fun name => Iff.rfl, rfl, rfl⟩
          simp only [Storage.get, Memory.get, Memory.whenOpen, ho, ↓reduceIte, applyTo_eq_saveAll hreset]
          exact Contents.ok_metric?_saveAll (fun _ => rfl) change.metrics name
        · cases hok
      · cases h
  | table connection =>
      simp only [Storage.apply, Connection.change] at h
      split at h
      · rename_i ho
        split at h
        · cases h
        · rename_i hwritable
          split at h
          · rename_i d hd
            cases h
            rw [apply_eq_upsertAll hreset] at hd
            obtain ⟨haccepts, hsame, hover⟩ := Sql.Database.select_upsertAll hd
            have hafter : (w.setDatabase connection.database d).database connection.database = d := by
              cases hms : change.metrics with
              | nil =>
                  rw [hms] at hd
                  cases hd
                  exact database_setDatabase_self w _
              | cons m ms =>
                  have hm := (haccepts m (by simp [hms])).1
                  exact database_setDatabase (lt_of_accepts hm) d
            have hwritable : connection.readOnly = false := by simpa using hwritable
            refine ⟨fun m hm => ⟨⟨ho, hwritable, (haccepts m hm).1⟩, (haccepts m hm).2⟩, fun name => ?_, fun name => ?_,
              rfl, rfl⟩
            · have hselect := hover Dict.empty (w.database connection.database).select (fun _ => rfl) name
              simp only [Storage.get, Connection.ask, ho, ↓reduceIte, hafter, hselect, Contents.laidOver,
                Contents.ofMetrics]
              cases (Contents.saveAll Dict.empty change.metrics).get? name <;> rfl
            · simp only [Accepts, hafter, hsame name]
          · cases h
      · cases h
  | snapshot layer inner ih =>
      simp only [Storage.apply] at h
      split at h
      · rename_i ho
        split at h
        · cases h
        · rename_i inner' after hinner
          obtain ⟨haccepts, hget, hsame, hkeeps, htakes⟩ := ih hinner
          have hdatabases : w'.databases = after.databases := by
            cases h
            split
            · exact databases_keepSnapshot _ _ _ _
            · rfl
          cases h
          refine ⟨fun m hm => ⟨⟨ho, (haccepts m hm).1⟩, (haccepts m hm).2⟩, fun name => ?_, fun name => ?_, hkeeps, ?_⟩
          · simp only [Storage.get, ho, ↓reduceIte, get_of_databases hdatabases, hget name]
            rfl
          · simp only [Accepts, accepts_of_databases hdatabases, hsame name]
          · exact funext fun m => congrFun htakes m
      · cases h

/-- A name that can be written is written. -/
theorem Accepts.save {m : Metric} (h : store.Accepts w m.name) (hm : store.Takes m) :
    ∃ store' w', store.apply (.save m) w = (.ok (), store', w') := by
  induction store with
  | memory memory =>
      have ho : memory.isOpen = true := h
      refine ⟨.memory ⟨memory.contents.save m, true⟩, w, ?_⟩
      simp only [Storage.apply, Memory.apply, Memory.whenOpen, ho, ↓reduceIte, Change.applyTo]
  | table connection =>
      obtain ⟨ho, hwritable, hname⟩ := h
      obtain ⟨d, hd⟩ := Sql.Database.upsert_of_accepts hname hm
      refine ⟨table connection, w.setDatabase connection.database d, ?_⟩
      simp only [Storage.apply, Connection.change, ho, hwritable, Bool.false_eq_true, ↓reduceIte, Sql.Database.apply,
        hd]
  | snapshot layer inner ih =>
      obtain ⟨inner', after, hinner⟩ := ih h.2 hm
      refine ⟨snapshot layer inner',
        if layer.isWriteThrough then keepSnapshot "Write-through" layer inner' after else after, ?_⟩
      simp only [Storage.apply, h.1, ↓reduceIte, hinner]

theorem Laid.save {c : Contents} {m : Metric} {last : Storage} {w'' : World} (h : Laid c store w store' w')
    (hm : store'.apply (.save m) w' = (.ok (), last, w'')) : Laid (c.save m) store w last w'' := by
  obtain ⟨-, hlaid⟩ := laid_of_apply (by simp) hm
  refine ⟨fun name => ?_, fun name => (hlaid.accepts name).trans (h.accepts name), hlaid.keeps.trans h.keeps,
    hlaid.takes.trans h.takes⟩
  have hone : Contents.ofMetrics (Change.metrics (.save m)) = Contents.save Dict.empty m := rfl
  rw [hlaid.get, hone, Contents.laidOver_save, Contents.laidOver_empty, h.get, h.keeps, Contents.laidOver_save]

end Storage

end PushMetrics
