import PushMetrics.Proofs.Number.Rounding
import PushMetrics.Proofs.Store.Realization
import PushMetrics.Proofs.Store.Session

/-!
# One abstract store

Every store answers as a map from names to the last samples stored under them, together with a flag that tells whether
it has been closed: the store in memory, a table, and snapshot layers over them, whatever becomes of the snapshots.
-/

namespace PushMetrics

open Number

/-! ## Values -/

/-- Equality of numbers: the two zeros are equal, and what is not a number equals nothing. -/
def Number.Binary64.Equals : Binary64 → Binary64 → Prop
  | .finite n r, .finite m s => Binary64.signedUnits n r = Binary64.signedUnits m s
  | .infinite n, .infinite m => n = m
  | _, _ => False

theorem Number.Binary64.equals_of_unsigned {x y : Binary64} (hy : y.isFinite) (h : x.unsigned = y.unsigned) :
    x.Equals y := by
  cases y with
  | nan => cases hy
  | infinite m => cases hy
  | finite m s =>
      cases x with
      | nan => cases h
      | infinite n => cases h
      | finite n r =>
          simp only [unsigned, finite.injEq] at h
          obtain ⟨hsign, rfl⟩ := h
          simp only [Equals, signedUnits]
          by_cases hr : r.val = 0
          · have hzero : units 0 = 0 := if_pos (twoPow_pos 52)
            simp [hr, hzero]
          · simp only [bne_iff_ne.2 hr, Bool.and_true] at hsign
            rw [hsign]

def Sample.Equals : Sample → Sample → Prop
  | gauge x, gauge y => x.Equals y
  | counter m, counter n => m = n
  | _, _ => False

theorem Sample.equals_of_unsigned {s t : Sample} (ht : t.isStorable) (h : s.unsigned = t.unsigned) : s.Equals t := by
  cases s <;> cases t <;> simp only [unsigned, gauge.injEq, counter.injEq, reduceCtorEq] at h
  · exact Binary64.equals_of_unsigned ht h
  · exact h

/-! ## The reference -/

/-- The last sample stored under each name, and whether the store is open. -/
structure Reference where
  samples : String → Option Sample
  isOpen : Bool

namespace Reference

open Storage

def save (samples : String → Option Sample) (m : Metric) : String → Option Sample := fun name =>
  if m.name = name then some m.sample else samples name

def applyTo : Change → (String → Option Sample) → String → Option Sample
  | .save m, samples => save samples m
  | .saveBatch ms, samples => ms.foldl save samples
  | .reset, _ => fun _ => none

/-- The reference after a call. -/
def next (r : Reference) (call : Call) : Reference :=
  if r.isOpen then
    match call with
    | .get _ | .getAll | .ping => r
    | .apply change => { r with samples := applyTo change r.samples }
    | .close => { r with isOpen := false }
  else r

/-- The reference after calls, whatever happens between them. -/
def after (r : Reference) (events : List Event) : Reference :=
  events.foldl (fun r e => match e with
    | .call call => r.next call
    | .pass _ _ => r) r

/-- What is found under a name is what was last stored there. -/
def Finds (r : Reference) (name : String) : Option Metric → Prop
  | none => r.samples name = none
  | some m => m.name = name ∧ ∃ s, r.samples name = some s ∧ m.sample.Equals s

/-- Metrics are all that is stored, each name once. -/
structure Lists (r : Reference) (ms : List Metric) : Prop where
  nodup : (ms.map (·.name)).Nodup
  finds : ∀ name, r.Finds name (ms.find? (·.name = name))

/-- Whether an answer of an open store is right; `mayFail` tells that a snapshot may fail when it is closed. -/
def Allows (r : Reference) (mayFail : Bool) : Call → Except StorageError Answer → Prop
  | .get name, .ok (.found m) => r.Finds name m
  | .getAll, .ok (.listed ms) => r.Lists ms
  | .apply _, .ok .done | .ping, .ok .done | .close, .ok .done => True
  | .close, .error (.io _) => mayFail = true
  | _, _ => False

def Expects (r : Reference) (mayFail : Bool) (call : Call) (reply : Except StorageError Answer) : Prop :=
  if r.isOpen then r.Allows mayFail call reply else reply = .error .closed

/-- Answers to calls in turn are right, each for what was stored before it. -/
inductive Conforms (mayFail : Bool) : Reference → List Event → List (Except StorageError Answer) → Prop
  | nil {r} : Conforms mayFail r [] []
  | pass {r disk now events replies} : Conforms mayFail r events replies →
      Conforms mayFail r (.pass disk now :: events) replies
  | call {r call events reply replies} : r.Expects mayFail call reply →
      Conforms mayFail (r.next call) events replies → Conforms mayFail r (.call call :: events) (reply :: replies)

theorem isOpen_after_of_closed {r : Reference} (h : r.isOpen = false) (events : List Event) :
    (r.after events).isOpen = false := by
  induction events generalizing r with
  | nil => exact h
  | cons e events ih =>
      cases e with
      | pass disk now => exact ih h
      | call call =>
          have hsame : r.next call = r := by
            unfold next
            exact if_neg (by simp [h])
          have hstep : (r.next call).isOpen = false := by rw [hsame, h]
          exact ih hstep

theorem isOpen_after {events : List Event} (h : .call .close ∈ events) (r : Reference) :
    (r.after events).isOpen = false := by
  induction events generalizing r with
  | nil => cases h
  | cons e events ih =>
      rcases List.mem_cons.1 h with rfl | h
      · refine isOpen_after_of_closed ?_ events
        cases hr : r.isOpen <;> simp [next, hr]
      · exact ih h _

theorem foldl_save (c : Contents) (ms : List Metric) : ms.foldl save c.get? = (c.saveAll ms).get? := by
  induction ms generalizing c with
  | nil => rfl
  | cons m ms ih =>
      have hm : save c.get? m = (c.save m).get? := funext fun name => (Contents.get?_save c m name).symm
      rw [List.foldl_cons, hm, ih]
      rfl

theorem applyTo_get? (c : Contents) (change : Change) : applyTo change c.get? = (change.applyTo c).get? := by
  cases change with
  | save m => exact foldl_save c [m]
  | saveBatch ms => exact foldl_save c ms
  | reset => rfl

end Reference

/-! ## Reading -/

namespace Storage

variable {store : Storage} {w : World} {c : Contents}

theorem untilError_ok {ε α : Type} (as : List α) : untilError (as.map (Except.ok : α → Except ε α)) = (as, none) := by
  induction as with
  | nil => rfl
  | cons a as ih => rw [List.map_cons, untilError, ih]

theorem Holds.enumerate (h : store.Holds w c) : ∃ ms, store.enumerate w = .ok (ms, none) ∧ c.Lists ms := by
  induction store with
  | memory m =>
      obtain ⟨ho, hs⟩ := h
      refine ⟨_, ?_, Contents.lists_metrics hs⟩
      simp only [Storage.enumerate, Memory.getAll, Memory.whenOpen, ho, ↓reduceIte]
      rfl
  | table connection =>
      obtain ⟨ho, -, -, hholds⟩ := h
      obtain ⟨ms, hms, hlists⟩ := hholds.selectAll
      refine ⟨ms, ?_, hlists⟩
      simp only [Storage.enumerate, Connection.ask, ho, ↓reduceIte, hms]
      rw [Except.map, untilError_ok]
      rfl
  | snapshot layer inner ih =>
      obtain ⟨ms, hms, hlists⟩ := ih h.2
      exact ⟨ms, by rw [Storage.enumerate, if_pos h.1, hms], hlists⟩

theorem Holds.getAll (h : store.Holds w c) : ∃ ms, store.getAll w = .ok ms ∧ c.Lists ms := by
  obtain ⟨ms, hms, hlists⟩ := h.enumerate
  exact ⟨ms, by simp only [Storage.getAll, hms, bind, Except.bind], hlists⟩

theorem Holds.ping (h : store.Holds w c) : store.ping w = .ok () := by
  induction store with
  | memory m => exact if_pos h.1
  | table connection => simp only [Storage.ping, Connection.ask, h.1, ↓reduceIte]
  | snapshot layer inner ih => rw [Storage.ping, if_pos h.1, ih h.2]

theorem Holds.name_of_get (h : store.Holds w c) {name : String} {m : Metric} (hm : store.get name w = .ok (some m)) :
    m.name = name := by
  induction store with
  | memory memory =>
      simp only [Storage.get, Memory.get, Memory.whenOpen, h.1, ↓reduceIte, Except.ok.injEq, Contents.metric?,
        Option.map_eq_some_iff] at hm
      obtain ⟨s, -, rfl⟩ := hm
      rfl
  | table connection =>
      obtain ⟨ho, -, -, hholds⟩ := h
      simp only [Storage.get, Connection.ask, ho, ↓reduceIte, hholds.select name, Except.ok.injEq, Contents.metric?,
        Option.map_map, Option.map_eq_some_iff] at hm
      obtain ⟨s, -, rfl⟩ := hm
      rfl
  | snapshot layer inner ih =>
      rw [Storage.get, if_pos h.1] at hm
      exact ih h.2 hm

/-! ## Closing -/

def isLayer : Storage → Bool
  | snapshot _ _ => true
  | _ => false

/-- Every layer is closed. -/
def IsClosed : Storage → Prop
  | memory m => m.isOpen = false
  | table connection => connection.isOpen = false
  | snapshot layer inner => layer.isOpen = false ∧ inner.IsClosed

/-- A snapshot of an open store is written, or the disk is why not. -/
theorem Holds.writeSnapshot (h : store.Holds w c) (layer : Layer) :
    ∃ r w', Storage.writeSnapshot layer store w = (r, w') ∧ store.Holds w' c ∧
      ((∃ n, r = .ok n) ∨ ∃ fault, r = .error (.io fault)) := by
  obtain ⟨ms, hms, -⟩ := h.getAll
  simp only [Storage.writeSnapshot, hms, Layer.write]
  refine ⟨_, _, rfl, h.of_databases rfl, ?_⟩
  split
  · exact .inl ⟨_, rfl⟩
  · exact .inr ⟨_, rfl⟩

/-- Closing closes every layer, also if a last snapshot fails. -/
theorem Holds.close (h : store.Holds w c) : ∃ r closed w', store.close w = (r, closed, w') ∧ closed.IsClosed ∧
    closed.isLayer = store.isLayer ∧ (r = .ok () ∨ store.isLayer = true ∧ ∃ fault, r = .error (.io fault)) := by
  induction store generalizing w with
  | memory m =>
      refine ⟨.ok (), memory ⟨Dict.empty, false⟩, w, ?_, rfl, rfl, .inl rfl⟩
      simp only [Storage.close, Memory.close, Memory.whenOpen, h.1, ↓reduceIte]
  | table connection =>
      refine ⟨.ok (), table { connection with isOpen := false }, w, ?_, rfl, rfl, .inl rfl⟩
      rw [Storage.close, if_pos h.1]
  | snapshot layer inner ih =>
      obtain ⟨ho, hi⟩ := h
      obtain ⟨dumped, w₁, hdump, hw₁, hdumped⟩ := hi.writeSnapshot { layer with isOpen := false, due := none }
      obtain ⟨r, closed, w₂, hclose, hclosed, -, hr⟩ := ih hw₁
      simp only [Storage.close, ho, ↓reduceIte, hdump, hclose]
      obtain ⟨n, rfl⟩ | ⟨fault, rfl⟩ := hdumped
      · exact ⟨_, _, _, rfl, ⟨rfl, hclosed⟩, rfl, hr.imp_right fun hfault => ⟨rfl, hfault.2⟩⟩
      · exact ⟨_, _, _, rfl, ⟨rfl, hclosed⟩, rfl, .inr ⟨rfl, fault, rfl⟩⟩

theorem IsClosed.respond (h : store.IsClosed) (call : Call) (w : World) :
    store.respond call w = (.error .closed, store, w) := by
  cases store with
  | memory m =>
      have ho : m.isOpen = false := h
      cases call <;>
        simp [Storage.respond, Storage.get, Storage.getAll, Storage.enumerate, Storage.apply, Storage.ping,
          Storage.close,
          Memory.get, Memory.getAll, Memory.apply, Memory.close, Memory.whenOpen, ho, Except.map, bind, Except.bind]
  | table connection =>
      have ho : connection.isOpen = false := h
      cases call <;>
        simp [Storage.respond, Storage.get, Storage.getAll, Storage.enumerate, Storage.apply, Storage.ping,
          Storage.close, Connection.ask, Connection.change, ho, Except.map, bind, Except.bind]
  | snapshot layer inner =>
      have ho : layer.isOpen = false := h.1
      cases call <;>
        simp [Storage.respond, Storage.get, Storage.getAll, Storage.enumerate, Storage.apply, Storage.ping,
          Storage.close, ho, Except.map, bind, Except.bind]

/-! ## Time passing -/

theorem IsClosed.tick (h : store.IsClosed) (w : World) : (store.tick w).1.IsClosed := by
  induction store with
  | memory m => exact h
  | table connection => exact h
  | snapshot layer inner ih =>
      simp only [Storage.tick]
      split
      · split
        · exact ⟨h.1, ih h.2⟩
        · exact ⟨h.1, ih h.2⟩
      · exact ⟨h.1, ih h.2⟩

theorem Holds.tick (h : store.Holds w c) : (store.tick w).1.Holds (store.tick w).2 c := by
  induction store with
  | memory m => exact h
  | table connection => exact h
  | snapshot layer inner ih =>
      simp only [Storage.tick]
      split
      · split
        · exact ⟨h.1, (ih h.2).of_databases (databases_keepSnapshot _ _ _ _)⟩
        · exact ⟨h.1, ih h.2⟩
      · exact ⟨h.1, ih h.2⟩

theorem isLayer_tick (store : Storage) (w : World) : (store.tick w).1.isLayer = store.isLayer := by
  cases store with
  | memory m => rfl
  | table connection => rfl
  | snapshot layer inner =>
      simp only [Storage.tick]
      split
      · split <;> rfl
      · rfl

theorem isLayer_apply (change : Change) (store : Storage) (w : World) :
    (store.apply change w).2.1.isLayer = store.isLayer := by
  cases store with
  | memory m =>
      simp only [Storage.apply]
      split <;> rfl
  | table connection => rfl
  | snapshot layer inner =>
      simp only [Storage.apply]
      split
      · split <;> rfl
      · rfl

/-! ## Opening -/

theorem openSnapshot_holds (h : store.Holds w c) {settings : LayerSettings} (hfault : settings.fault? w = none)
    (hrestore : settings.restore = false) :
    ∃ layer, openSnapshot settings store w = (.ok (), snapshot layer store, w) ∧ (snapshot layer store).Holds w c := by
  simp only [openSnapshot, hfault, hrestore, Bool.false_eq_true, ↓reduceIte]
  exact ⟨_, rfl, rfl, h⟩

theorem openTable_holds {dsn : String} (h : Sql.Source.ofName dsn = .ok ⟨.inMemory, false⟩) (w : World) :
    ∃ connection w', openTable dsn w = (.ok (table connection), w') ∧ (table connection).Holds w' Dict.empty := by
  have hnew : (w.addDatabase .empty).2.database w.databases.length = .empty := by
    simp [World.addDatabase, World.database]
  simp only [openTable, h, World.addDatabase] at hnew ⊢
  rw [hnew]
  refine ⟨_, _, rfl, rfl, rfl, by simp [World.setDatabase], ?_⟩
  simp only [World.database, World.setDatabase, List.getD_eq_getElem?_getD, List.length_append, List.length_singleton,
    Nat.lt_add_one, List.getElem?_set_self, Option.getD_some]
  exact ⟨rfl, _, rfl, fun _ => rfl⟩

/-! ## Stores and the reference -/

/-- A store stands for the reference: it holds the same samples, all of which may be stored, or is closed. -/
def Represents (store : Storage) (w : World) (r : Reference) : Prop :=
  if r.isOpen then ∃ c, store.Holds w c ∧ c.IsWellFormed ∧ r.samples = c.get? else store.IsClosed

theorem Represents.pass {r : Reference} (h : store.Represents w r) (disk : Disk) (now : Nat) :
    (store.tick { w with disk, now }).1.Represents (store.tick { w with disk, now }).2 r := by
  unfold Represents at h ⊢
  split at h
  · rename_i ho
    obtain ⟨c, hholds, hc, hsamples⟩ := h
    have hpassed : store.Holds { w with disk, now } c := hholds.of_databases rfl
    rw [if_pos ho]
    exact ⟨c, hpassed.tick, hc, hsamples⟩
  · rename_i ho
    rw [if_neg ho]
    exact h.tick _

theorem finds_of_unsigned {r : Reference} (hc : c.IsWellFormed) (hsamples : r.samples = c.get?) {name : String}
    {found : Option Metric} (hname : ∀ m ∈ found, m.name = name)
    (h : (found.map (·.sample)).map (·.unsigned) = (c.get? name).map (·.unsigned)) : r.Finds name found := by
  cases hget : c.get? name with
  | none =>
      rw [hget] at h
      cases found with
      | none => exact (congrFun hsamples name).trans hget
      | some m => cases h
  | some s =>
      rw [hget] at h
      cases found with
      | none => cases h
      | some m =>
          have hstorable : (⟨name, s⟩ : Metric).isWellFormed := hc ⟨name, s⟩ (Contents.mem_metrics_iff.2 hget)
          simp only [Metric.isWellFormed, Bool.and_eq_true] at hstorable
          refine ⟨hname m rfl, s, (congrFun hsamples name).trans hget, Sample.equals_of_unsigned hstorable.2 ?_⟩
          simpa using h

theorem lists_of_lists {r : Reference} (hc : c.IsWellFormed) (hsamples : r.samples = c.get?) {ms : List Metric}
    (h : c.Lists ms) : r.Lists ms where
  nodup := h.nodup
  finds name := by
    have hname : ∀ m ∈ ms.find? (·.name = name), m.name = name := fun m hm => by simpa using List.find?_some hm
    refine finds_of_unsigned hc hsamples hname ?_
    cases hfind : ms.find? (·.name = name) with
    | none =>
        have hnone : c.get? name = none := by
          rw [← Option.not_isSome_iff_eq_none, ← h.names name]
          simpa using hfind
        rw [hnone]
        rfl
    | some m =>
        have hm := h.samples m (List.mem_of_find?_eq_some hfind)
        rw [hname m hfind] at hm
        rw [hm]
        rfl

/-- One call is answered as the reference says, and leaves a store that stands for what the reference has become. -/
theorem Represents.respond {r : Reference} (h : store.Represents w r) {call : Call}
    (hms : ∀ change ∈ Event.change? (.call call), ∀ m ∈ change.metrics, m.isWellFormed) :
    ∃ reply store' w', store.respond call w = (reply, store', w') ∧ r.Expects store.isLayer call reply ∧
      store'.Represents w' (r.next call) ∧ store'.isLayer = store.isLayer := by
  unfold Represents at h
  split at h
  · rename_i ho
    obtain ⟨c, hholds, hc, hsamples⟩ := h
    have hkept : store.Represents w r := by
      rw [Represents, if_pos ho]
      exact ⟨c, hholds, hc, hsamples⟩
    cases call with
    | get name =>
        obtain ⟨found, hfound, hsame⟩ := hholds.get name
        refine ⟨.ok (.found found), store, w, by rw [Storage.respond, hfound]; rfl, ?_, ?_, rfl⟩
        · rw [Reference.Expects, if_pos ho]
          exact finds_of_unsigned hc hsamples (fun m hm => hholds.name_of_get (by rw [hfound, hm])) hsame
        · rw [Reference.next, if_pos ho]
          exact hkept
    | getAll =>
        obtain ⟨ms, hgot, hlists⟩ := hholds.getAll
        refine ⟨.ok (.listed ms), store, w, by rw [Storage.respond, hgot]; rfl, ?_, ?_, rfl⟩
        · rw [Reference.Expects, if_pos ho]
          exact lists_of_lists hc hsamples hlists
        · rw [Reference.next, if_pos ho]
          exact hkept
    | apply change =>
        have hwell := hms change rfl
        have htakes : ∀ m ∈ change.metrics, store.Takes m := by
          intro m hm
          refine takes_of_ne_nan fun hnan => ?_
          have hstorable := hwell m hm
          simp [Metric.isWellFormed, hnan, Sample.isStorable, Binary64.isFinite] at hstorable
        obtain ⟨store', w', happly, hafter, -⟩ := hholds.apply htakes
        have hlayer := isLayer_apply change store w
        rw [happly] at hlayer
        refine ⟨.ok .done, store', w', by rw [Storage.respond, happly]; rfl, ?_, ?_, hlayer⟩
        · rw [Reference.Expects, if_pos ho]
          trivial
        · rw [Reference.next, if_pos ho, Represents, if_pos (by exact ho)]
          exact ⟨change.applyTo c, hafter, hc.applyTo hwell, by rw [hsamples, Reference.applyTo_get?]⟩
    | ping =>
        refine ⟨.ok .done, store, w, by rw [Storage.respond, hholds.ping]; rfl, ?_, ?_, rfl⟩
        · rw [Reference.Expects, if_pos ho]
          trivial
        · rw [Reference.next, if_pos ho]
          exact hkept
    | close =>
        obtain ⟨result, closed, w', hclose, hclosed, hlayer, hresult⟩ := hholds.close
        refine ⟨_, closed, w', by rw [Storage.respond, hclose], ?_, ?_, hlayer⟩
        · obtain rfl | ⟨hlayered, fault, rfl⟩ := hresult
          · rw [Reference.Expects, if_pos ho]
            trivial
          · rw [Reference.Expects, if_pos ho]
            exact hlayered
        · rw [Reference.next, if_pos ho]
          exact hclosed
  · rename_i ho
    have hsame : r.next call = r := by
      unfold Reference.next
      exact if_neg ho
    refine ⟨_, _, _, h.respond call w, ?_, ?_, rfl⟩
    · rw [Reference.Expects, if_neg ho]
    · rw [hsame, Represents, if_neg ho]
      exact h

theorem Represents.use {r : Reference} (h : store.Represents w r) {events : List Event}
    (hms : ∀ change ∈ events.filterMap Event.change?, ∀ m ∈ change.metrics, m.isWellFormed) :
    Reference.Conforms store.isLayer r events (store.use events w).1 ∧
      (store.use events w).2.1.Represents (store.use events w).2.2 (r.after events) := by
  induction events generalizing store w r with
  | nil => exact ⟨.nil, h⟩
  | cons e events ih =>
      have hrest : ∀ change ∈ events.filterMap Event.change?, ∀ m ∈ change.metrics, m.isWellFormed := by
        intro change hchange
        obtain ⟨e', he', hsome⟩ := List.mem_filterMap.1 hchange
        exact hms change (List.mem_filterMap.2 ⟨e', List.mem_cons_of_mem e he', hsome⟩)
      cases e with
      | pass disk now =>
          obtain ⟨hconforms, hafter⟩ := ih (h.pass disk now) hrest
          rw [isLayer_tick] at hconforms
          exact ⟨.pass hconforms, hafter⟩
      | call call =>
          have hcall : ∀ change ∈ Event.change? (.call call), ∀ m ∈ change.metrics, m.isWellFormed :=
            fun change hchange => hms change (List.mem_filterMap.2 ⟨_, List.mem_cons_self, hchange⟩)
          obtain ⟨reply, store', w', hrespond, hexpects, hnext, hlayer⟩ := h.respond hcall
          obtain ⟨hconforms, hafter⟩ := ih hnext hrest
          rw [hlayer] at hconforms
          simp only [Storage.use, hrespond]
          exact ⟨.call hexpects hconforms, hafter⟩

/-- Every open store answers all calls as the one map does that begins with what the store holds, and is closed in all
its layers as soon as it was asked to close. Only a store with a snapshot layer may report that the disk has failed,
and only when it is closed for the first time. -/
theorem use_conforms (h : store.Holds w c) (hc : c.IsWellFormed) {events : List Event}
    (hms : ∀ change ∈ events.filterMap Event.change?, ∀ m ∈ change.metrics, m.isWellFormed) :
    Reference.Conforms store.isLayer ⟨c.get?, true⟩ events (store.use events w).1 ∧
      (.call .close ∈ events → (store.use events w).2.1.IsClosed) := by
  have hstore : store.Represents w ⟨c.get?, true⟩ := ⟨c, h, hc, rfl⟩
  obtain ⟨hconforms, hafter⟩ := hstore.use hms
  refine ⟨hconforms, fun hclose => ?_⟩
  rw [Represents, if_neg (by simp [Reference.isOpen_after hclose])] at hafter
  exact hafter

/-- Nothing can be written beside the snapshot. -/
def occupied : World := ⟨⟨Dict.empty.put ["m.tmp"] .directory⟩, [], 0, []⟩

def zeroBelow : Binary64 := .ofRank true 0

/-- A gauge becomes a count and a count a gauge; snapshots fail, the last one too; the store is closed twice. -/
def switchAndClose : List Event :=
  [.call (.apply (.saveBatch [.gauge "load" zeroBelow, .counter "load" Int64.maxValue,
      .counter "hits" Int64.minValue])),
    .pass occupied.disk 5000, .call (.apply (.save (.gauge "hits" zeroBelow))), .call (.get "load"), .call .getAll,
    .call .close, .call .close, .call (.get "load")]

/-- A layer over memory whose close fails, and a table, with the same calls. -/
theorem use_conforms_switchAndClose :
    (∃ layer, openSnapshot ⟨"m.json", ⟨0⟩, false⟩ (memory .fresh) occupied
        = (.ok (), snapshot layer (memory .fresh), occupied) ∧
      ((snapshot layer (memory .fresh)).use switchAndClose occupied).1
        = [.ok .done, .ok .done, .ok (.found (some (.counter "load" Int64.maxValue))),
            .ok (.listed [.counter "load" Int64.maxValue, .gauge "hits" zeroBelow]),
            .error (.io .isADirectory), .error .closed, .error .closed] ∧
      Reference.Conforms true ⟨fun _ => none, true⟩ switchAndClose
        ((snapshot layer (memory .fresh)).use switchAndClose occupied).1 ∧
      ((snapshot layer (memory .fresh)).use switchAndClose occupied).2.1.IsClosed) ∧
    ∃ connection w', openTable "sqlite::memory:" occupied = (.ok (table connection), w') ∧
      Reference.Conforms false ⟨fun _ => none, true⟩ switchAndClose ((table connection).use switchAndClose w').1 := by
  have hmemory : (memory .fresh).Holds occupied Dict.empty := ⟨rfl, Contents.Same.refl _⟩
  have hms : ∀ change ∈ switchAndClose.filterMap Event.change?, ∀ m ∈ change.metrics, m.isWellFormed := by decide
  constructor
  · have hfault : LayerSettings.fault? ⟨"m.json", ⟨0⟩, false⟩ occupied = none := by decide
    obtain ⟨layer, hopen, hlayer⟩ := openSnapshot_holds hmemory hfault rfl
    obtain ⟨hconforms, hclosed⟩ := use_conforms hlayer Contents.isWellFormed_empty hms
    cases hopen
    exact ⟨_, rfl, by decide +kernel, hconforms, hclosed (by simp [switchAndClose])⟩
  · have hsource : Sql.Source.ofName "sqlite::memory:" = .ok ⟨.inMemory, false⟩ := by decide +kernel
    obtain ⟨connection, w', hopen, htable⟩ := openTable_holds hsource occupied
    exact ⟨connection, w', hopen, (use_conforms htable Contents.isWellFormed_empty hms).1⟩

end Storage

end PushMetrics
