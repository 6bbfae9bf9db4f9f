import PushMetrics.Manager.Layering
import PushMetrics.Proofs.Manager.Failure
import PushMetrics.Proofs.Manager.Concurrency
import PushMetrics.Proofs.Store.Operations

/-!
# A layer as a store in memory

Requests on a layer that is open are requests on the store in memory below it. A request whose operation has changed
the store counts as one that has written, though it still waits for the answer; every other step of the layer is none
of the requests.
-/

namespace PushMetrics

namespace Layered

/-- Whether an operation of the layer has changed the store and has not been dropped. -/
def hasChanged (s : Layered) (id : Nat) : Bool := (s.operations.get? id).any (·.2.hasChanged)

variable {s : Layered} {id : Nat} {o : Operation} {stage next : OperationStage}

theorem hasChanged_of_get? (h : s.operations.get? id = some (o, stage)) : s.hasChanged id = stage.hasChanged := by
  rw [hasChanged, h]
  rfl

theorem hasChanged_of_new (h : s.operations.get? id = none) : s.hasChanged id = false := by
  rw [hasChanged, h]
  rfl

theorem hasChanged_setStage (s : Layered) (id : Nat) (o : Operation) (stage : OperationStage) (j : Nat) :
    (s.setStage id o stage).hasChanged j = if id = j then stage.hasChanged else s.hasChanged j := by
  unfold hasChanged setStage
  rw [Dict.get?_put]
  split <;> rfl

/-- An operation that moves on without changing the store is seen as before. -/
theorem hasChanged_setStage_of_same (h : s.hasChanged id = stage.hasChanged) (o : Operation) (j : Nat) :
    (s.setStage id o stage).hasChanged j = s.hasChanged j := by
  rw [hasChanged_setStage]
  split
  · rename_i hj
    rw [← hj, h]
  · rfl

end Layered

namespace Manager

/-- A request as the store in memory sees it. -/
def Work.shown (changed : Bool) (w : Work) : Work :=
  match w.stage with
  | .resolving results _ [] => if changed then ⟨w.request, .releasing w.request.names (some (.ok results))⟩ else w
  | _ => w

/-- Requests on a layer, and the same requests on the store in memory below it. -/
structure Shadows (s : Traffic Layered) (t : Traffic Memory) : Prop where
  store : t.store = s.store.memory
  locks : t.locks = s.locks
  written : t.written = s.store.applied.map (·.1)
  works : ∀ id, t.works.get? id = (s.works.get? id).map (Work.shown (s.store.hasChanged id))

/-- An operation is the write that the request is about to make, and has not failed; or it is over, and so is the
request but for giving back its locks. -/
def Work.Carries (w : Work) (o : Operation) (stage : OperationStage) : Prop :=
  (∃ change, w.change? = some change ∧ o = .write change) ∧ (stage.isOver → stage.hasChanged) ∨
    stage.isOver ∧ w.stage.answer?.isSome

/-- Requests on a layer that is open, and has no operations but theirs. -/
structure Backed (first : Contents) (s : Traffic Layered) : Prop where
  opened : s.store.isOpen = true
  steady : s.store.Steady first
  operations : ∀ id o stage, s.store.operations.get? id = some (o, stage) →
    ∃ w, s.works.get? id = some w ∧ w.Carries o stage

variable {first : Contents} {s s' : Traffic Layered} {t : Traffic Memory} {id : Nat} {w : Work} {r : Request}
  {stage : RequestStage} {change : Change} {answer : Except StorageError Unit}

theorem Work.shown_false (w : Work) : w.shown false = w := by
  unfold shown
  split <;> rfl

theorem Work.request_shown (w : Work) (changed : Bool) : (w.shown changed).request = w.request := by
  unfold shown
  split
  · split <;> rfl
  · rfl

theorem Work.shown_of_answered (h : w.stage.answer?.isSome) (changed : Bool) : w.shown changed = w := by
  unfold shown
  split
  · rename_i hstage
    rw [hstage] at h
    cases h
  · rfl

theorem Work.writing_of_change? (h : w.change? = some change) : ∃ results pending,
    w = ⟨w.request, .resolving results pending []⟩ ∧ w.request.metrics.isEmpty = false ∧
      change = w.request.change results pending := by
  obtain ⟨r, stage⟩ := w
  unfold change? at h
  split at h
  · rename_i results pending hstage
    obtain rfl : stage = .resolving results pending [] := hstage
    split at h
    · cases h
    · rename_i hsome
      cases h
      exact ⟨results, pending, rfl, by simpa using hsome, rfl⟩
  · cases h

/-! ## Steps of the requests -/

theorem resolve_layerBackend {store : Layered} (hopen : store.isOpen = true) (pending : Pending) (m : Metric) :
    resolve (layerBackend answer) pending m store = ((resolve Memory.backend pending m store.memory).1, store) := by
  unfold resolve
  split
  · rfl
  · split
    · rfl
    · simp only [layerBackend, Memory.backend, hopen, ↓reduceIte]
      cases store.memory.get m.name <;> rfl

/-- A request that does not write takes the same step on the layer and on the store in memory. -/
theorem Shadows.advance_eq (h : Shadows s t) (hopen : s.store.isOpen = true) (hchange : w.change? = none)
    (hs : s.advance (layerBackend answer) id w = some s') : ∃ locks stage,
      s' = { s with locks }.setStage id w.request stage ∧
      t.advance Memory.backend id w = some ({ t with locks }.setStage id w.request stage) ∧
      (w.stage.answer?.isSome → stage.answer?.isSome) := by
  obtain ⟨store, locks, works, written⟩ := t
  obtain rfl : locks = s.locks := h.locks
  obtain rfl : store = s.store.memory := h.store
  obtain ⟨r, stage⟩ := w
  cases stage with
  | locking names =>
      cases names with
      | nil =>
          cases hs
          exact ⟨_, _, rfl, rfl, by rintro ⟨⟩⟩
      | cons name rest =>
          obtain ⟨s₁, hlock, rfl⟩ := Option.map_eq_some_iff.1 hs
          obtain ⟨locks, hask, rfl⟩ := Option.map_eq_some_iff.1 hlock
          refine ⟨locks, _, rfl, ?_, by rintro ⟨⟩⟩
          simp only [Traffic.advance, Traffic.lock, hask, Option.map_some]
  | waiting name rest =>
      obtain ⟨s₁, hlock, rfl⟩ := Option.map_eq_some_iff.1 hs
      obtain ⟨locks, hturn, rfl⟩ := Option.map_eq_some_iff.1 hlock
      refine ⟨locks, _, rfl, ?_, by rintro ⟨⟩⟩
      simp only [Traffic.advance, Traffic.lock, hturn, Option.map_some]
  | resolving results pending left =>
      cases left with
      | nil =>
          simp only [Work.change?] at hchange
          split at hchange
          · rename_i hempty
            simp only [Traffic.advance, hempty, ↓reduceIte] at hs ⊢
            cases hs
            exact ⟨_, _, rfl, rfl, fun _ => rfl⟩
          · cases hchange
      | cons m left =>
          simp only [Traffic.advance, Traffic.resolveNext, resolve_layerBackend hopen] at hs ⊢
          have hleft := resolve_memory_left pending m s.store.memory
          cases hresolve : resolve Memory.backend pending m s.store.memory with
          | mk result after =>
              rw [hresolve] at hs hleft
              obtain rfl : after = s.store.memory := hleft
              cases result <;> cases hs <;> exact ⟨_, _, rfl, rfl, by rintro ⟨⟩⟩
  | releasing names answer =>
      cases names with
      | nil =>
          cases hs
          exact ⟨_, _, rfl, rfl, fun _ => rfl⟩
      | cons name rest =>
          obtain ⟨s₁, hlock, rfl⟩ := Option.map_eq_some_iff.1 hs
          obtain ⟨locks, hrelease, rfl⟩ := Option.map_eq_some_iff.1 hlock
          refine ⟨locks, _, rfl, ?_, fun _ => rfl⟩
          simp only [Traffic.advance, Traffic.lock, hrelease, Option.map_some]
  | ended answer => cases hs

/-- A request that is dropped gives back the same locks on the layer and on the store in memory. -/
theorem Shadows.drop_eq (hlocks : t.locks = s.locks) (changed : Bool) (hs : s.drop id w = some s') : ∃ locks names,
    s' = { s with locks }.setStage id w.request (.releasing names none) ∧
      t.drop id (w.shown changed) = some ({ t with locks }.setStage id w.request (.releasing names none)) := by
  obtain ⟨store, locks, works, written⟩ := t
  obtain rfl : locks = s.locks := hlocks
  obtain ⟨r, stage⟩ := w
  cases stage with
  | waiting name rest =>
      obtain ⟨s₁, hlock, rfl⟩ := Option.map_eq_some_iff.1 hs
      obtain ⟨locks, hleave, rfl⟩ := Option.map_eq_some_iff.1 hlock
      refine ⟨locks, _, rfl, ?_⟩
      simp only [Work.shown, Traffic.drop, Traffic.lock, hleave, Option.map_some]
  | resolving results pending left =>
      cases hs
      refine ⟨_, _, rfl, ?_⟩
      cases left with
      | nil => cases changed <;> rfl
      | cons m left => rfl
  | ended answer => cases hs
  | _ =>
      cases hs
      exact ⟨_, _, rfl, rfl⟩

/-! ## Both sides of a step -/

theorem Backed.answered_or_unchanged (h : Backed first s) (hid : s.works.get? id = some w)
    (hchange : w.change? = none) : s.store.hasChanged id = false ∨ w.stage.answer?.isSome := by
  cases hoperation : s.store.operations.get? id with
  | none => exact .inl (Layered.hasChanged_of_new hoperation)
  | some e =>
      obtain ⟨v, hv, hcarries⟩ := h.operations id e.1 e.2 hoperation
      obtain rfl := Option.some.inj (hid.symm.trans hv)
      rcases hcarries with ⟨⟨change, hsome, -⟩, -⟩ | ⟨-, hanswered⟩
      · cases hchange.symm.trans hsome
      · exact .inr hanswered

theorem Shadows.work (h : Shadows s t) (hid : s.works.get? id = some w)
    (hplain : s.store.hasChanged id = false ∨ w.stage.answer?.isSome) : t.works.get? id = some w := by
  rw [h.works, hid, Option.map_some]
  rcases hplain with hfalse | hanswered
  · rw [hfalse, Work.shown_false]
  · rw [Work.shown_of_answered hanswered]

/-- A request moves on in the same way on both sides. -/
theorem Shadows.setStage (h : Shadows s t) (locks : Lock.NamedLocks (Nat × String)) (r : Request)
    (hplain : s.store.hasChanged id = false ∨ stage.answer?.isSome) :
    Shadows ({ s with locks }.setStage id r stage) ({ t with locks }.setStage id r stage) := by
  refine ⟨h.store, rfl, h.written, fun j => ?_⟩
  simp only [Traffic.setStage, Dict.get?_put]
  split
  · rename_i hj
    subst hj
    rcases hplain with hfalse | hanswered
    · rw [hfalse, Option.map_some, Work.shown_false]
    · rw [Option.map_some, Work.shown_of_answered hanswered]
  · exact h.works j

/-- The layer takes a step that the store in memory does not see. -/
theorem Shadows.ofStore (h : Shadows s t) {store : Layered} (hmemory : store.memory = s.store.memory)
    (happlied : store.applied = s.store.applied) (hchanged : ∀ id, store.hasChanged id = s.store.hasChanged id) :
    Shadows { s with store } t where
  store := h.store.trans hmemory.symm
  locks := h.locks
  written := by rw [h.written, happlied]
  works j := by rw [h.works, hchanged]

theorem Backed.setStage (h : Backed first s) (locks : Lock.NamedLocks (Nat × String)) (written : List Nat)
    (hcarries : ∀ o operation, s.store.operations.get? id = some (o, operation) →
      (⟨r, stage⟩ : Work).Carries o operation) : Backed first ({ s with locks, written }.setStage id r stage) := by
  refine ⟨h.opened, h.steady, fun j o operation hj => ?_⟩
  by_cases hne : id = j
  · subst hne
    exact ⟨_, Dict.get?_put_self _ _ _, hcarries o operation hj⟩
  · obtain ⟨w, hw, hold⟩ := h.operations j o operation hj
    exact ⟨w, (Dict.get?_put_of_ne _ _ hne).trans hw, hold⟩

/-- An operation of a request moves on, and the layer stays open. -/
theorem Backed.ofStore (h : Backed first s) {store : Layered} (hopen : store.isOpen = true)
    (hsteady : store.Steady first) {o : Operation} {operation : OperationStage} {w : Work}
    (hid : s.works.get? id = some w) (hcarries : w.Carries o operation)
    (hoperations : store.operations = s.store.operations.put id (o, operation)) : Backed first { s with store } := by
  refine ⟨hopen, hsteady, fun j o' stage hj => ?_⟩
  rw [hoperations] at hj
  rcases Dict.of_get?_put hj with ⟨rfl, he⟩ | ⟨-, hj⟩
  · cases he
    exact ⟨w, hid, hcarries⟩
  · exact h.operations j o' stage hj

theorem Backed.carries (h : Backed first s) (hid : s.works.get? id = some w) {o : Operation}
    {operation : OperationStage} (hoperation : s.store.operations.get? id = some (o, operation)) :
    w.Carries o operation := by
  obtain ⟨v, hv, hcarries⟩ := h.operations id o operation hoperation
  obtain rfl := Option.some.inj (hid.symm.trans hv)
  exact hcarries

/-- What follows from a step of requests on a layer: they are on an open layer still, and the store in memory has seen
one step or none. -/
def Simulated (first : Contents) (t : Traffic Memory) (s' : Traffic Layered) : Prop :=
  Backed first s' ∧ ∃ t', (t' = t ∨ ∃ label, t.step Memory.backend label = some t') ∧ Shadows s' t'

theorem Backed.arrive (h : Backed first s) (hshadows : Shadows s t) (hnew : s.works.get? id = none) (r : Request) :
    Simulated first t (s.setStage id r (.locking r.names)) := by
  have hnone : s.store.operations.get? id = none := by
    cases hoperation : s.store.operations.get? id with
    | none => rfl
    | some e =>
        obtain ⟨w, hw, -⟩ := h.operations id e.1 e.2 hoperation
        cases hnew.symm.trans hw
  refine ⟨h.setStage s.locks s.written fun o operation hid => ?_, _, .inr ⟨.arrive id r, ?_⟩,
    hshadows.setStage s.locks r (.inl (Layered.hasChanged_of_new hnone))⟩
  · cases hnone.symm.trans hid
  · have hfree : t.works.get? id = none := by rw [hshadows.works, hnew, Option.map_none]
    simp only [Traffic.step, hfree, Option.isSome_none, Bool.false_eq_true, ↓reduceIte, ← hshadows.locks]

theorem Backed.advance (h : Backed first s) (hshadows : Shadows s t) (hid : s.works.get? id = some w)
    (hchange : w.change? = none) (hs : s.advance (layerBackend answer) id w = some s') : Simulated first t s' := by
  obtain ⟨locks, stage, rfl, ht, hanswer⟩ := hshadows.advance_eq h.opened hchange hs
  have hplain := h.answered_or_unchanged hid hchange
  refine ⟨h.setStage locks s.written fun o operation hoperation => ?_, _, .inr ⟨.advance id, ?_⟩,
    hshadows.setStage locks w.request (hplain.imp_right hanswer)⟩
  · rcases h.carries hid hoperation with ⟨⟨change, hsome, -⟩, -⟩ | ⟨hover, hanswered⟩
    · cases hchange.symm.trans hsome
    · exact .inr ⟨hover, hanswer hanswered⟩
  · simp only [Traffic.step, hshadows.work hid hplain, Option.bind_some, ht]

/-- A request begins its write. -/
theorem Backed.begin (h : Backed first s) (hshadows : Shadows s t) (hid : s.works.get? id = some w)
    (hchange : w.change? = some change) (hs : s.onLayer (.begin id (.write change)) = some s') :
    Simulated first t s' := by
  obtain ⟨store, hstep, rfl⟩ := Option.map_eq_some_iff.1 hs
  have hnew := Layered.new_of_begin hstep
  have hsteady := h.steady.happens (Layered.happens_of_step hstep)
  simp only [Layered.step, hnew, Option.isSome_none, Bool.false_eq_true, ↓reduceIte, Option.some.injEq] at hstep
  subst hstep
  exact ⟨h.ofStore h.opened hsteady hid (.inl ⟨⟨change, hchange, rfl⟩, by rintro ⟨⟩⟩) rfl, t, .inl rfl,
    hshadows.ofStore rfl rfl (Layered.hasChanged_setStage_of_same (Layered.hasChanged_of_new hnew) _)⟩

/-- A request whose write has been answered goes on with the answer, which is no error. -/
theorem Backed.report (h : Backed first s) (hshadows : Shadows s t) (hid : s.works.get? id = some w)
    (hchange : w.change? = some change) {o : Operation} {dumped : Option (Except StorageError Nat)}
    (hoperation : s.store.operations.get? id = some (o, .ended answer dumped))
    (hs : s.advance (layerBackend answer) id w = some s') : Simulated first t s' := by
  obtain ⟨results, pending, hw, hsome, rfl⟩ := Work.writing_of_change? hchange
  rcases h.carries hid hoperation with ⟨-, hgood⟩ | ⟨-, hanswered⟩
  · cases answer with
    | error e => cases hgood rfl
    | ok _ =>
        rw [hw] at hid hs
        simp only [Traffic.advance, hsome, Bool.false_eq_true, ↓reduceIte, Traffic.write, layerBackend,
          Option.some.injEq] at hs
        subst hs
        have hchanged : s.store.hasChanged id = true := Layered.hasChanged_of_get? hoperation
        refine ⟨h.setStage s.locks (s.written ++ [id]) fun o' stage hj => ?_, t, .inl rfl, hshadows.store,
          hshadows.locks, hshadows.written, fun j => ?_⟩
        · cases hoperation.symm.trans hj
          exact .inr ⟨rfl, rfl⟩
        · by_cases hne : id = j
          · subst hne
            rw [hshadows.works, hid, hchanged]
            simp [Traffic.setStage, Work.shown]
          · simp only [hshadows.works, Traffic.setStage, Dict.get?_put_of_ne _ _ hne]
  · rw [hw] at hanswered
    cases hanswered

/-- Dropping an operation leaves the store below and the other operations alone; afterwards it is over. -/
theorem Traffic.onLayer_drop (s : Traffic Layered) (id : Nat) : ∃ store,
    (s.onLayer (.drop id)).getD s = { s with store } ∧ store.isOpen = s.store.isOpen ∧
    store.memory = s.store.memory ∧ store.applied = s.store.applied ∧
    (∀ first, s.store.Steady first → store.Steady first) ∧
    (∀ o stage, store.operations.get? id = some (o, stage) → stage.isOver) ∧
    ∀ j, j ≠ id → store.operations.get? j = s.store.operations.get? j := by
  cases hdrop : s.store.step (.drop id) with
  | none =>
      refine ⟨s.store, by rw [onLayer, hdrop]; rfl, rfl, rfl, rfl, fun _ h => h, fun o stage hid => ?_, fun _ _ => rfl⟩
      simp only [Layered.step, hid, Option.bind_some, Layered.drop] at hdrop
      split at hdrop <;> first | rfl | cases hdrop
  | some store =>
      refine ⟨store, by rw [onLayer, hdrop]; rfl, ?_⟩
      have hsteady := fun first (h : s.store.Steady first) => h.happens (Layered.happens_of_step hdrop)
      obtain ⟨⟨o, stage⟩, hid, hdrop⟩ := Option.bind_eq_some_iff.1 hdrop
      obtain ⟨fileLock, rfl⟩ : ∃ fileLock, store = Layered.setStage { s.store with fileLock } id o .dropped := by
        cases stage with
        | dumping a =>
            obtain ⟨fileLock, heq⟩ := Layered.dropDump_eq s.store (.operation id) a
            cases hdrop
            exact ⟨fileLock, by rw [heq]⟩
        | ended answer dumped => cases hdrop
        | dropped => cases hdrop
        | _ =>
            cases hdrop
            exact ⟨_, rfl⟩
      refine ⟨rfl, rfl, rfl, hsteady, fun o' stage' hid' => ?_, fun j hne => Dict.get?_put_of_ne _ _ hne.symm⟩
      obtain ⟨-, -, rfl⟩ | ⟨hne, -⟩ := Layered.of_get?_setStage hid'
      · rfl
      · exact absurd rfl hne

/-- A request is dropped, and its operation with it. -/
theorem Backed.drop (h : Backed first s) (hshadows : Shadows s t) (hid : s.works.get? id = some w)
    (hs : ((s.onLayer (.drop id)).getD s).drop id w = some s') : Simulated first t s' := by
  obtain ⟨store, hdropped, hopen, hmemory, happlied, hsteady, hover, hothers⟩ := s.onLayer_drop id
  rw [hdropped] at hs
  obtain ⟨locks, names, rfl, ht⟩ := Shadows.drop_eq (s := { s with store }) hshadows.locks (s.store.hasChanged id) hs
  refine ⟨⟨hopen.trans h.opened, hsteady _ h.steady, fun j o stage hj => ?_⟩,
    { t with locks }.setStage id w.request (.releasing names none), .inr ⟨.drop id, ?_⟩,
    hshadows.store.trans hmemory.symm, rfl, hshadows.written.trans (congrArg _ happlied.symm), fun j => ?_⟩
  · by_cases hne : id = j
    · subst hne
      exact ⟨_, Dict.get?_put_self _ _ _, .inr ⟨hover o stage hj, rfl⟩⟩
    · obtain ⟨v, hv, hcarries⟩ := h.operations j o stage ((hothers j (Ne.symm hne)).symm.trans hj)
      exact ⟨v, (Dict.get?_put_of_ne _ _ hne).trans hv, hcarries⟩
  · simp only [Traffic.step, hshadows.works, hid, Option.map_some, Option.bind_some, ht]
  · by_cases hne : id = j
    · subst hne
      simp [Traffic.setStage, Work.shown]
    · have hsame : store.hasChanged j = s.store.hasChanged j := by
        rw [Layered.hasChanged, hothers j (Ne.symm hne), Layered.hasChanged]
      simp only [Traffic.setStage, Dict.get?_put_of_ne _ _ hne, hshadows.works, hsame]

theorem Backed.ofLocks (h : Backed first s) (hshadows : Shadows s t) {label : Lock.LockStep (Nat × String)}
    (hs : s.lock label = some s') (hstep : ∀ t : Traffic Memory, ∃ work, t.step Memory.backend work = t.lock label) :
    Simulated first t s' := by
  obtain ⟨locks, hlocks, rfl⟩ := Option.map_eq_some_iff.1 hs
  obtain ⟨work, hwork⟩ := hstep t
  refine ⟨⟨h.opened, h.steady, h.operations⟩, { t with locks }, .inr ⟨work, ?_⟩, hshadows.store, rfl, hshadows.written,
    hshadows.works⟩
  rw [hwork, Traffic.lock, hshadows.locks, hlocks, Option.map_some]

/-! ## Steps of the layer -/

/-- The operation of a request writes, and the store in memory sees the request write. -/
theorem Backed.write (h : Backed first s) (hshadows : Shadows s t) (hid : s.works.get? id = some w)
    (hchange : w.change? = some change)
    (hoperation : s.store.operations.get? id = some (.write change, .changing)) {next : OperationStage}
    (hnext : next.hasChanged) :
    ∃ t', t.step Memory.backend (.advance id) = some t' ∧
      Shadows { s with store := Layered.setStage { s.store with
        memory := { s.store.memory with contents := change.applyTo s.store.memory.contents }
        applied := s.store.applied ++ [(id, change)] } id (.write change) next } t' := by
  obtain ⟨results, pending, hw, hsome, rfl⟩ := Work.writing_of_change? hchange
  have hunchanged : s.store.hasChanged id = false := Layered.hasChanged_of_get? hoperation
  have hwork := hshadows.work hid (.inl hunchanged)
  have hopen := h.steady.opened h.opened
  have happly : Memory.backend.apply (w.request.change results pending) t.store
      = (.ok (), { s.store.memory with
          contents := (w.request.change results pending).applyTo s.store.memory.contents }) := by
    simp [Memory.backend, Memory.apply, Memory.whenOpen, hshadows.store, hopen]
  refine ⟨t.write Memory.backend id w.request results pending, ?_, ?_⟩
  · rw [hw] at hwork
    simp only [Traffic.step, hwork, Option.bind_some, Traffic.advance, hsome, Bool.false_eq_true, ↓reduceIte]
  · rw [Traffic.write, happly]
    refine ⟨rfl, hshadows.locks, ?_, fun j => ?_⟩
    · simp [Traffic.setStage, Layered.setStage, hshadows.written]
    · rw [Layered.hasChanged_setStage]
      by_cases hne : id = j
      · subst hne
        rw [hw] at hid
        simp [Traffic.setStage, hid, hnext, Work.shown]
      · simp only [Traffic.setStage, Dict.get?_put_of_ne _ _ hne, if_neg hne]
        exact hshadows.works j

/-- Where an operation goes that is the write of a request. -/
theorem Backed.move (h : Backed first s) (hshadows : Shadows s t) {o : Operation} {operation next : OperationStage}
    {u : Layered} (hoperation : s.store.operations.get? id = some (o, operation))
    (hmove : Layered.OperationMoves s.store id o operation u next) (hsteady : (u.setStage id o next).Steady first) :
    Simulated first t { s with store := u.setStage id o next } := by
  obtain ⟨w, hid, hcarries⟩ := h.operations id o operation hoperation
  have hsuits := (h.steady.operations id o operation hoperation).suits
  have hopen := h.steady.opened h.opened
  obtain ⟨⟨change, hchange, rfl⟩, -⟩ | ⟨hover, -⟩ := hcarries
  · have hstill : ∀ {store : Layered}, store.operations = s.store.operations → store.isOpen = s.store.isOpen →
        (next.isOver → next.hasChanged) → (store.setStage id (.write change) next).Steady first →
        Backed first { s with store := store.setStage id (.write change) next } :=
      fun hoperations hsame hgood hsteady => h.ofStore (hsame.trans h.opened) hsteady hid
        (.inl ⟨⟨change, hchange, rfl⟩, hgood⟩) (by rw [← hoperations]; rfl)
    have hunseen : next.hasChanged = operation.hasChanged →
        Shadows { s with store := s.store.setStage id (.write change) next } t := fun hsame =>
      hshadows.ofStore rfl rfl
        (Layered.hasChanged_setStage_of_same ((Layered.hasChanged_of_get? hoperation).trans hsame.symm) _)
    cases hmove with
    | enter => exact ⟨hstill rfl rfl (by rintro ⟨⟩) hsteady, t, .inl rfl, hunseen rfl⟩
    | pass => exact ⟨hstill rfl rfl (by rintro ⟨⟩) hsteady, t, .inl rfl, hunseen rfl⟩
    | finish => exact ⟨hstill rfl rfl (fun _ => rfl) hsteady, t, .inl rfl, hunseen rfl⟩
    | change =>
        have hnext : OperationStage.hasChanged
            (if s.store.writeThrough then .dumping .asking else .ended (.ok ()) none) := by
          split <;> rfl
        obtain ⟨t', ht, hafter⟩ := h.write hshadows hid hchange hoperation hnext
        exact ⟨hstill rfl rfl (fun _ => hnext) hsteady, t', .inr ⟨_, ht⟩, hafter⟩
    | turnAway hclosed => cases h.opened.symm.trans hclosed
    | refuse hclosed => cases hopen.symm.trans hclosed
    | join | shut | shutTwice | clear => cases hsuits
  · cases hmove <;> cases hover

/-- The layer takes a step by itself. -/
theorem Backed.proceed (h : Backed first s) (hshadows : Shadows s t) {label : LayeredStep} (hlabel : label.isOwn)
    (hs : s.onLayer label = some s') : Simulated first t s' := by
  obtain ⟨store, hstep, rfl⟩ := Option.map_eq_some_iff.1 hs
  have hsteady := h.steady.happens (Layered.happens_of_step hstep)
  cases Layered.proceeds_of_step hlabel hstep with
  | move hoperation hmove => exact h.move hshadows hoperation hmove hsteady
  | @dump _ k a b u hk hmove =>
      obtain ⟨_, _, _, hu⟩ := hmove.eq
      cases k with
      | flusher =>
          subst hu
          exact ⟨⟨h.opened, hsteady, h.operations⟩, t, .inl rfl, hshadows.ofStore rfl rfl fun _ => rfl⟩
      | operation id =>
          obtain ⟨o, hoperation⟩ := Layered.operation_of_dump? hk
          obtain ⟨w, hid, hcarries⟩ := h.operations id o _ hoperation
          have heq : u.setDump (.operation id) b = u.setStage id o (.dumping b) := by
            simp only [Layered.setDump, hmove.operations, hoperation]
          rw [heq] at hsteady ⊢
          subst hu
          have hnext : w.Carries o (.dumping b) := by
            obtain ⟨hwrite, -⟩ | ⟨hover, -⟩ := hcarries
            · exact .inl ⟨hwrite, by rintro ⟨⟩⟩
            · cases hover
          have hsame : s.store.hasChanged id = OperationStage.hasChanged (.dumping b) :=
            (Layered.hasChanged_of_get? hoperation).trans rfl
          exact ⟨h.ofStore h.opened hsteady hid hnext rfl, t, .inl rfl,
            hshadows.ofStore rfl rfl (Layered.hasChanged_setStage_of_same hsame o)⟩
  | flusher hmove =>
      exact ⟨⟨h.opened, hsteady, h.operations⟩, t, .inl rfl, hshadows.ofStore rfl rfl fun _ => rfl⟩

/-- Every step of requests on an open layer is one of the same requests on the store in memory, or nothing that this
sees. -/
theorem Backed.step (h : Backed first s) (hshadows : Shadows s t) {label : LayeredTrafficStep}
    (hs : s.layered label = some s') : Simulated first t s' := by
  cases label with
  | layer label =>
      simp only [Traffic.layered] at hs
      split at hs
      · rename_i hlabel
        exact h.proceed hshadows hlabel hs
      · cases hs
  | work label =>
      cases label with
      | arrive id r =>
          simp only [Traffic.layered, Traffic.step] at hs
          split at hs
          · cases hs
          · rename_i hnew
            cases hs
            exact h.arrive hshadows (by simpa using hnew) r
      | advance id =>
          obtain ⟨w, hid, hs⟩ := Option.bind_eq_some_iff.1 hs
          unfold Traffic.advanceOnLayer at hs
          split at hs
          · rename_i hchange
            exact h.advance hshadows hid hchange hs
          · rename_i hchange _
            exact h.begin hshadows hid hchange hs
          · rename_i hchange hoperation
            exact h.report hshadows hid hchange hoperation hs
          · cases hs
      | drop id =>
          obtain ⟨w, hid, hs⟩ := Option.bind_eq_some_iff.1 hs
          exact h.drop hshadows hid hs
      | sweep =>
          have hlock : s.lock .sweep = some s' := hs
          exact h.ofLocks hshadows hlock fun _ => ⟨.sweep, rfl⟩
      | wait millis =>
          have hlock : s.lock (.wait millis) = some s' := hs
          exact h.ofLocks hshadows hlock fun _ => ⟨.wait millis, rfl⟩

/-! ## Runs -/

/-- Requests on an open layer, and a log of those that the store in memory has seen write. -/
def Logged (first : Contents) (s : Traffic Layered) : Prop :=
  Backed first s ∧ ∃ t log, Shadows s t ∧ Serial ⟨first, true⟩ t log

theorem logged_fresh (path : Path) (writeThrough : Bool) (first : Contents) (disk : Disk) (ttl : Nat) :
    Logged first (.fresh (.fresh path writeThrough ⟨first, true⟩ disk) ttl) :=
  ⟨⟨rfl, Layered.steady_fresh path writeThrough first disk, fun _ _ _ h => nomatch h⟩, .fresh ⟨first, true⟩ ttl, [],
    ⟨rfl, rfl, rfl, fun _ => rfl⟩, serial_fresh ⟨first, true⟩ ttl⟩

theorem Logged.step (h : Logged first s) {label : LayeredTrafficStep} (hs : s.layered label = some s') :
    Logged first s' := by
  obtain ⟨hbacked, t, log, hshadows, hserial⟩ := h
  obtain ⟨hafter, t', hstep, hshadows'⟩ := hbacked.step hshadows hs
  rcases hstep with rfl | ⟨label', hstep⟩
  · exact ⟨hafter, t', log, hshadows', hserial⟩
  · obtain ⟨log', hserial'⟩ := hserial.step hstep
    exact ⟨hafter, t', log', hshadows', hserial'⟩

/-- The store holds what merging the metrics of the requests gives that have changed it, in the order of the changes;
and a request that has been answered without an error is one of them, if it had metrics. -/
theorem Logged.accounts (h : Logged first s) : ∃ log : List (Nat × Request),
    log.map (·.1) = s.store.applied.map (·.1) ∧
    s.store.memory.contents.Same (first.mergeAll (log.flatMap (·.2.metrics))).2 ∧
    (∀ e ∈ log, ∃ stage, s.works.get? e.1 = some ⟨e.2, stage⟩) ∧
    ∀ id r results, s.works.get? id = some ⟨r, .ended (some (.ok results))⟩ → (id, r) ∈ log ∨ r.metrics = [] := by
  obtain ⟨hbacked, t, log, hshadows, hserial⟩ := h
  refine ⟨log.map fun e => (e.id, e.request), ?_, ?_, fun e he => ?_, fun id r results hid => ?_⟩
  · rw [← hshadows.written, hserial.written, List.map_map]
    rfl
  · have hsame := serveAll_memory_contents (s := ⟨first, true⟩) (log.map (·.request)) rfl
    rw [hserial.served, hshadows.store, List.flatMap_map] at hsame
    rwa [List.flatMap_map]
  · obtain ⟨written, hin, rfl⟩ := List.mem_map.1 he
    obtain ⟨stage, hstage⟩ := hserial.known written hin
    rw [hshadows.works] at hstage
    obtain ⟨w, hw, hshown⟩ := Option.map_eq_some_iff.1 hstage
    have hrequest : w.request = written.request := (w.request_shown _).symm.trans (congrArg Work.request hshown)
    exact ⟨w.stage, by rw [hw, ← hrequest]⟩
  · have hwork := hshadows.work hid (.inr rfl)
    rcases (hserial.works id _ hwork).progress with hin | ⟨-, hempty, -⟩
    · exact .inl (List.mem_map.2 ⟨_, hin, rfl⟩)
    · exact .inr hempty

/-! ## What becomes of the requests -/

theorem isSafe_layerBackend (answer : Except StorageError Unit) : IsSafe (layerBackend answer) where
  get _ _ := rfl
  failed happly := (congrArg Prod.snd happly).symm

/-- On a layer a request leaves the store to its operation. -/
theorem Traffic.store_of_advance (hs : s.advance (layerBackend answer) id w = some s') : s'.store = s.store := by
  obtain ⟨-, -, -, -, ⟨hstore, -⟩ | ⟨⟨_, hstore⟩, -⟩⟩ := advance_frame (isSafe_layerBackend answer) hs <;> exact hstore

/-- What a step does to the requests: one arrives, or one that is not over moves on, or none does. -/
inductive Traffic.Reworks (s s' : Traffic Layered) (label : LayeredTrafficStep) : Prop
  | nobody (works : s'.works = s.works)
  | arrived (id : Nat) (r : Request) (arrival : label = .work (.arrive id r)) (new : s.works.get? id = none)
      (works : s'.works = s.works.put id ⟨r, .locking r.names⟩)
  | moved (id : Nat) (w : Work) (stage : RequestStage) (known : s.works.get? id = some w)
      (unended : ∀ answer, w.stage ≠ .ended answer) (works : s'.works = s.works.put id ⟨w.request, stage⟩)

theorem Traffic.onLayer_keeps {label : LayeredStep} (hs : s.onLayer label = some s') :
    s'.works = s.works ∧ Layered.Ages s.store s'.store := by
  obtain ⟨store, hstep, rfl⟩ := Option.map_eq_some_iff.1 hs
  exact ⟨rfl, Layered.ages_of_happens (Layered.happens_of_step hstep)⟩

theorem Traffic.reworks {label : LayeredTrafficStep} (hs : s.layered label = some s') :
    s.Reworks s' label ∧ Layered.Ages s.store s'.store := by
  have hlayer : ∀ {label label'}, s.onLayer label' = some s' → s.Reworks s' label ∧ Layered.Ages s.store s'.store :=
    fun h => ⟨.nobody (onLayer_keeps h).1, (onLayer_keeps h).2⟩
  cases label with
  | layer label =>
      simp only [layered] at hs
      split at hs
      · exact hlayer hs
      · cases hs
  | work label =>
      cases label with
      | arrive id r =>
          simp only [layered, Traffic.step] at hs
          split at hs
          · cases hs
          · rename_i hnew
            cases hs
            exact ⟨.arrived id r rfl (by simpa using hnew) rfl, .refl _⟩
      | advance id =>
          obtain ⟨w, hid, hs⟩ := Option.bind_eq_some_iff.1 hs
          have hadvance : ∀ answer, s.advance (layerBackend answer) id w = some s' →
              s.Reworks s' (.work (.advance id)) ∧ Layered.Ages s.store s'.store := by
            intro answer h
            obtain ⟨hunended, stage, hworks, -⟩ := advance_frame (isSafe_layerBackend answer) h
            exact ⟨.moved id w stage hid hunended hworks, store_of_advance h ▸ .refl _⟩
          unfold advanceOnLayer at hs
          split at hs
          · exact hadvance _ hs
          · exact hlayer hs
          · exact hadvance _ hs
          · cases hs
      | drop id =>
          obtain ⟨w, hid, hs⟩ := Option.bind_eq_some_iff.1 hs
          obtain ⟨hunended, names, hworks, hstore, -⟩ := drop_frame hs
          rw [hstore]
          cases hdrop : s.onLayer (.drop id) with
          | none =>
              rw [hdrop] at hworks
              exact ⟨.moved id w _ hid hunended hworks, .refl _⟩
          | some after =>
              obtain ⟨hsame, hages⟩ := onLayer_keeps hdrop
              rw [hdrop, Option.getD_some, hsame] at hworks
              exact ⟨.moved id w _ hid hunended hworks, hages⟩
      | sweep | wait =>
          simp only [layered, Traffic.step, Traffic.lock] at hs
          obtain ⟨locks, -, rfl⟩ := Option.map_eq_some_iff.1 hs
          exact ⟨.nobody rfl, .refl _⟩

variable {label : LayeredTrafficStep}

/-- A request that is over stays as it is. -/
theorem Traffic.Reworks.ended (h : s.Reworks s' label) {answer : Answer}
    (hid : s.works.get? id = some ⟨r, .ended answer⟩) : s'.works.get? id = some ⟨r, .ended answer⟩ := by
  cases h with
  | nobody works => rw [works, hid]
  | arrived j _ _ new works =>
      have hne : j ≠ id := by
        rintro rfl
        cases new.symm.trans hid
      rw [works, Dict.get?_put_of_ne _ _ hne, hid]
  | moved j w _ known unended works =>
      have hne : j ≠ id := by
        rintro rfl
        obtain rfl := Option.some.inj (known.symm.trans hid)
        exact unended answer rfl
      rw [works, Dict.get?_put_of_ne _ _ hne, hid]

/-- Where a request comes from that is at work after a step. -/
theorem Traffic.Reworks.before (h : s.Reworks s' label) (hid : s'.works.get? id = some w) :
    (∃ v, s.works.get? id = some v ∧ v.request = w.request ∧ ∀ answer, v.stage = .ended answer → v = w) ∨
      label = .work (.arrive id w.request) := by
  cases h with
  | nobody works => exact .inl ⟨w, works ▸ hid, rfl, fun _ _ => rfl⟩
  | arrived j r arrival new works =>
      rw [works] at hid
      rcases Dict.of_get?_put hid with ⟨rfl, rfl⟩ | ⟨-, hid⟩
      · exact .inr arrival
      · exact .inl ⟨w, hid, rfl, fun _ _ => rfl⟩
  | moved j v stage known unended works =>
      rw [works] at hid
      rcases Dict.of_get?_put hid with ⟨rfl, rfl⟩ | ⟨-, hid⟩
      · exact .inl ⟨v, known, rfl, fun answer hanswer => absurd hanswer (unended answer)⟩
      · exact .inl ⟨w, hid, rfl, fun _ _ => rfl⟩

/-- Where all requests are over, only the layer itself goes on. -/
theorem Traffic.layered_rest (hended : ∀ id w, s.works.get? id = some w → ∃ answer, w.stage = .ended answer)
    (hlabel : label.isOwn) (hs : s.layered label = some s') :
    s'.works = s.works ∧
      (s'.store = s.store ∨ ∃ inner : LayeredStep, inner.isOwn ∧ s.store.step inner = some s'.store) := by
  have hworks : s'.works = s.works := by
    cases (reworks hs).1 with
    | nobody works => exact works
    | arrived _ _ arrival =>
        subst arrival
        cases hlabel
    | moved id w _ known unended =>
        obtain ⟨answer, hanswer⟩ := hended id w known
        exact absurd hanswer (unended answer)
  refine ⟨hworks, ?_⟩
  cases label with
  | layer inner =>
      have hinner : inner.isOwn = true := hlabel
      simp only [layered, hinner, ↓reduceIte] at hs
      obtain ⟨store, hstep, rfl⟩ := Option.map_eq_some_iff.1 hs
      exact .inr ⟨inner, hinner, hstep⟩
  | work label =>
      cases label with
      | arrive | drop => cases hlabel
      | advance id =>
          obtain ⟨⟨r, stage⟩, hid, hs⟩ := Option.bind_eq_some_iff.1 hs
          obtain ⟨answer, rfl⟩ := hended id _ hid
          cases hs
      | sweep | wait =>
          simp only [layered, Traffic.step, Traffic.lock] at hs
          obtain ⟨locks, -, rfl⟩ := Option.map_eq_some_iff.1 hs
          exact .inl rfl

end Manager

end PushMetrics
