import PushMetrics.Manager.Layering
import PushMetrics.Proofs.Manager.Progress
import PushMetrics.Proofs.Store.Faults

/-!
# A failed request changes nothing

Whichever operation of a request fails, the request is answered by that failure, no step of it has changed the store,
and it gives its locks back without anybody who could keep it from that. Who asks for the same names later gets them.
-/

namespace PushMetrics.Manager

open Lock
open Sql (Faults)

/-! ## What a request asks of a store -/

inductive Demand where
  | read (name : String)
  | write (change : Change)
deriving DecidableEq, Repr

/-- What a request asks of the store with its next step. It reads the stored sample of a counter that has no pending
one, and writes if there is something to write. -/
def Work.demand? (w : Work) : Option Demand :=
  match w.stage with
  | .resolving _ pending (⟨name, .counter _⟩ :: _) => if (pending.get? name).isNone then some (.read name) else none
  | .resolving results pending [] =>
    if w.request.metrics.isEmpty then none else some (.write (w.request.change results pending))
  | _ => none

namespace Demand

def statements : Demand → Nat
  | read _ => 1
  | write change => change.statements

/-- Why a store does not do what is asked of it. -/
def error? (d : Demand) (faults : Faults) (s : Storage × World) : Option StorageError :=
  match d with
  | read name => match s.1.tryGet faults name s.2 with
    | .error e => some e
    | .ok _ => none
  | write change => match (s.1.tryApply faults change s.2).1 with
    | .error e => some e
    | .ok _ => none

/-- A closed store refuses everything, and one failure among the statements of an operation is enough. -/
theorem error?_isSome {d : Demand} {faults : Faults} {s : Storage × World}
    (h : s.1.isOpen = false ∨ s.1.isTable ∧ ∃ k < d.statements, (faults k).isSome) : (d.error? faults s).isSome := by
  cases d with
  | read name =>
      obtain ⟨e, he⟩ : ∃ e, s.1.tryGet faults name s.2 = .error e := by
        rcases h with hclosed | ⟨htable, k, hk, hf⟩
        · exact Storage.tryGet_closed hclosed
        · obtain rfl : k = 0 := by simpa [statements] using hk
          exact Storage.tryGet_fault htable hf
      simp [error?, he]
  | write change =>
      obtain ⟨e, he⟩ : ∃ e, (s.1.tryApply faults change s.2).1 = .error e := by
        rcases h with hclosed | ⟨htable, k, hk, hf⟩
        · exact Storage.tryApply_closed hclosed
        · exact Storage.tryApply_fault htable hk hf
      simp [error?, he]

end Demand

variable {t t' : Traffic (Storage × World)} {id : Nat} {w : Work} {r : Request} {d : Demand} {faults : Faults}
  {e : StorageError} {label : DisturbedStep} {labels : List DisturbedStep}

/-- The failure of what a request asks for is its answer, and nothing else has changed. -/
theorem Traffic.disturbed_of_error (hid : t.works.get? id = some w) (hd : w.demand? = some d)
    (he : d.error? faults t.store = some e) :
    t.disturbed (.work (.advance id) faults)
      = some (t.setStage id w.request (.releasing w.request.names (some (.error e)))) := by
  obtain ⟨r, stage⟩ := w
  simp only [disturbed, Traffic.step, hid, Option.bind_some]
  cases stage with
  | resolving results pending left =>
      cases left with
      | nil =>
          simp only [Work.demand?] at hd
          split at hd
          · cases hd
          · rename_i hsome
            cases hd
            simp only [Demand.error?] at he
            split at he
            · rename_i failed hfailed
              cases he
              cases happly : t.store.1.tryApply faults (r.change results pending) t.store.2 with
              | mk answer after =>
                  rw [happly] at hfailed
                  obtain rfl : answer = .error e := hfailed
                  obtain ⟨hstore, hworld⟩ := Storage.tryApply_error happly
                  have hafter : after = t.store := Prod.ext hstore hworld
                  simp [Traffic.advance, hsome, Traffic.write, Storage.tryBackend, happly, hafter]
            · cases he
      | cons m left =>
          obtain ⟨name, sample⟩ := m
          cases sample with
          | gauge value => cases hd
          | counter count =>
              simp only [Work.demand?] at hd
              split at hd
              · rename_i hnone
                cases hd
                simp only [Demand.error?] at he
                split at he
                · rename_i failed hfailed
                  cases he
                  have hpending : pending.get? name = none := by simpa using hnone
                  simp [Traffic.advance, Traffic.resolveNext, resolve, hpending, Storage.tryBackend, hfailed]
                · cases he
              · cases hd
  | _ => cases hd

/-! ## What a failed request has done -/

/-- The answer to a request, once it is known. -/
def RequestStage.answer? : RequestStage → Option Answer
  | .releasing _ answer | .ended answer => some answer
  | _ => none

/-- The request can have written: its answer is known, and is not an error. -/
def RequestStage.isSettled (stage : RequestStage) : Bool :=
  match stage.answer? with
  | none | some (some (.error _)) => false
  | _ => true

theorem RequestStage.answered_of_isSettled {stage : RequestStage} (h : stage.isSettled) : stage.answer?.isSome := by
  cases hanswer : stage.answer? with
  | none => simp [isSettled, hanswer] at h
  | some answer => rfl

/-! ## Steps of one request -/

section Frame

variable {σ : Type} {b : Backend σ} {t t' : Traffic σ}

/-- Reading leaves the store as it is, and so does a write that fails. -/
structure IsSafe (b : Backend σ) : Prop where
  get : ∀ name s, (b.get name s).2 = s
  failed : ∀ {change s e after}, b.apply change s = (.error e, after) → after = s

theorem IsSafe.resolve (hb : IsSafe b) (pending : Pending) (m : Metric) (s : σ) : (resolve b pending m s).2 = s := by
  unfold Manager.resolve
  split
  · rfl
  · split
    · rfl
    · have hget := hb.get m.name s
      split <;> rename_i hresult <;> rw [hresult] at hget <;> exact hget

/-- A step of a request leaves the store as it was, unless it is the one with which the request writes. -/
theorem Traffic.advance_frame (hb : IsSafe b) (hs : t.advance b id w = some t') :
    (∀ answer, w.stage ≠ .ended answer) ∧ ∃ stage, t'.works = t.works.put id ⟨w.request, stage⟩ ∧
      (w.stage.answer?.isSome → stage.answer? = w.stage.answer?) ∧
      (t'.store = t.store ∧ t'.written = t.written ∨
        (∃ change, t'.store = (b.apply change t.store).2) ∧ t'.written = t.written ++ [id] ∧ stage.isSettled) := by
  obtain ⟨r, stage⟩ := w
  cases stage with
  | locking names =>
      refine ⟨by rintro _ ⟨⟩, ?_⟩
      cases names with
      | nil =>
          cases hs
          exact ⟨_, rfl, by rintro ⟨⟩, .inl ⟨rfl, rfl⟩⟩
      | cons name rest =>
          obtain ⟨t₁, hlock, rfl⟩ := Option.map_eq_some_iff.1 hs
          obtain ⟨locks, -, rfl⟩ := Option.map_eq_some_iff.1 hlock
          exact ⟨_, rfl, by rintro ⟨⟩, .inl ⟨rfl, rfl⟩⟩
  | waiting name rest =>
      refine ⟨by rintro _ ⟨⟩, ?_⟩
      obtain ⟨t₁, hlock, rfl⟩ := Option.map_eq_some_iff.1 hs
      obtain ⟨locks, -, rfl⟩ := Option.map_eq_some_iff.1 hlock
      exact ⟨_, rfl, by rintro ⟨⟩, .inl ⟨rfl, rfl⟩⟩
  | resolving results pending left =>
      refine ⟨by rintro _ ⟨⟩, ?_⟩
      cases left with
      | nil =>
          simp only [Traffic.advance, Option.some.injEq] at hs
          subst hs
          split
          · exact ⟨_, rfl, by rintro ⟨⟩, .inl ⟨rfl, rfl⟩⟩
          · unfold Traffic.write
            split <;> rename_i happly
            · exact ⟨_, rfl, by rintro ⟨⟩, .inl ⟨hb.failed happly, rfl⟩⟩
            · exact ⟨_, rfl, by rintro ⟨⟩, .inr ⟨⟨_, (congrArg Prod.snd happly).symm⟩, rfl, rfl⟩⟩
      | cons m left =>
          cases hs
          have hstore := hb.resolve pending m t.store
          unfold Traffic.resolveNext
          split <;> rename_i hresolve <;> rw [hresolve] at hstore <;>
            exact ⟨_, rfl, by rintro ⟨⟩, .inl ⟨hstore, rfl⟩⟩
  | releasing names answer =>
      refine ⟨by rintro _ ⟨⟩, ?_⟩
      cases names with
      | nil =>
          cases hs
          exact ⟨_, rfl, fun _ => rfl, .inl ⟨rfl, rfl⟩⟩
      | cons name rest =>
          obtain ⟨t₁, hlock, rfl⟩ := Option.map_eq_some_iff.1 hs
          obtain ⟨locks, -, rfl⟩ := Option.map_eq_some_iff.1 hlock
          exact ⟨_, rfl, fun _ => rfl, .inl ⟨rfl, rfl⟩⟩
  | ended answer => cases hs

theorem Traffic.drop_frame (hs : t.drop id w = some t') :
    (∀ answer, w.stage ≠ .ended answer) ∧ ∃ names, t'.works = t.works.put id ⟨w.request, .releasing names none⟩ ∧
      t'.store = t.store ∧ t'.written = t.written := by
  obtain ⟨r, stage⟩ := w
  cases stage with
  | waiting name rest =>
      obtain ⟨t₁, hlock, rfl⟩ := Option.map_eq_some_iff.1 hs
      obtain ⟨locks, -, rfl⟩ := Option.map_eq_some_iff.1 hlock
      exact ⟨by rintro _ ⟨⟩, _, rfl, rfl, rfl⟩
  | ended answer => cases hs
  | _ =>
      cases hs
      exact ⟨by rintro _ ⟨⟩, _, rfl, rfl, rfl⟩

end Frame

theorem isSafe_tryBackend (faults : Faults) : IsSafe (Storage.tryBackend faults) where
  get _ _ := rfl
  failed happly := by
    obtain ⟨hstore, hworld⟩ := Storage.tryApply_error happly
    exact Prod.ext hstore hworld

/-! ## Steps of all requests -/

/-- The request whose step it is, if it is one's. -/
def DisturbedStep.owner? : DisturbedStep → Option Nat
  | .work (.arrive id _) _ | .work (.advance id) _ | .work (.drop id) _ => some id
  | _ => none

/-- What a step does to the requests, and what those do to the store. -/
inductive Traffic.Disturbs (t t' : Traffic (Storage × World)) (label : DisturbedStep) : Prop
  | nobody (owner : label.owner? = none) (works : t'.works = t.works) (written : t'.written = t.written)
  | arrived (id : Nat) (r : Request) (owner : label.owner? = some id) (new : t.works.get? id = none)
      (works : t'.works = t.works.put id ⟨r, .locking r.names⟩) (store : t'.store = t.store)
      (written : t'.written = t.written)
  | moved (id : Nat) (r : Request) (old stage : RequestStage) (owner : label.owner? = some id)
      (known : t.works.get? id = some ⟨r, old⟩) (works : t'.works = t.works.put id ⟨r, stage⟩)
      (answer : old.answer?.isSome → stage.answer? = old.answer? ∨
        stage.answer? = some none ∧ ∃ faults, label = .work (.drop id) faults)
      (wrote : t'.store = t.store ∧ t'.written = t.written ∨ t'.written = t.written ++ [id] ∧ stage.isSettled)

theorem Traffic.disturbs (h : t.disturbed label = some t') : t.Disturbs t' label := by
  cases label with
  | elsewhere store =>
      cases h
      exact .nobody rfl rfl rfl
  | work label faults =>
      have hs : t.step (Storage.tryBackend faults) label = some t' := h
      cases label with
      | arrive id r =>
          simp only [Traffic.step] at hs
          split at hs
          · cases hs
          · rename_i hnew
            cases hs
            exact .arrived id r rfl (by simpa using hnew) rfl rfl rfl
      | advance id =>
          obtain ⟨w, hid, hs⟩ := Option.bind_eq_some_iff.1 hs
          obtain ⟨-, stage, hworks, hanswer, hwrote⟩ := advance_frame (isSafe_tryBackend faults) hs
          exact .moved id w.request w.stage stage rfl hid hworks (fun hold => .inl (hanswer hold))
            (hwrote.imp_right And.right)
      | drop id =>
          obtain ⟨w, hid, hs⟩ := Option.bind_eq_some_iff.1 hs
          obtain ⟨-, names, hworks, hstore, hwritten⟩ := drop_frame hs
          exact .moved id w.request w.stage _ rfl hid hworks (fun _ => .inr ⟨rfl, faults, rfl⟩)
            (.inl ⟨hstore, hwritten⟩)
      | _ =>
          simp only [Traffic.step, Traffic.lock] at hs
          obtain ⟨locks, -, rfl⟩ := Option.map_eq_some_iff.1 hs
          exact .nobody rfl rfl rfl

theorem Traffic.disturbed_written (h : t.disturbed label = some t') : t.written <+: t'.written := by
  cases disturbs h with
  | nobody _ _ written => rw [written]
  | arrived _ _ _ _ _ _ written => rw [written]
  | moved id _ _ _ _ _ _ _ wrote =>
      rcases wrote with ⟨-, hwritten⟩ | ⟨hwritten, -⟩ <;> rw [hwritten]
      exact List.prefix_append _ _

theorem Traffic.written_of_stepwise (h : stepwise Traffic.disturbed t labels = some t') : t.written <+: t'.written :=
  stepwise_relates (R := fun t t' => t.written <+: t'.written) (fun _ => List.prefix_refl _) List.IsPrefix.trans
    (fun _ _ _ => disturbed_written) h

/-- A request that has not written has left the store as it was with every step. -/
theorem Traffic.store_of_disturbed (h : t.disturbed label = some t') (howner : label.owner? = some id)
    (hid : id ∉ t'.written) : t'.store = t.store := by
  cases disturbs h with
  | nobody owner =>
      rw [owner] at howner
      cases howner
  | arrived _ _ _ _ _ store => exact store
  | moved j _ _ _ owner _ _ _ wrote =>
      rcases wrote with ⟨hstore, -⟩ | ⟨hwritten, -⟩
      · exact hstore
      · obtain rfl : j = id := Option.some.inj (owner.symm.trans howner)
        exact absurd (hwritten ▸ List.mem_append_right _ List.mem_cons_self) hid

/-- Only requests that can have written have. -/
def Traffic.Told (t : Traffic (Storage × World)) : Prop :=
  ∀ id ∈ t.written, ∃ w, t.works.get? id = some w ∧ w.stage.isSettled

theorem Traffic.Told.step (h : t.Told) (hs : t.disturbed label = some t') : t'.Told := by
  intro id hid
  cases disturbs hs with
  | nobody _ works written =>
      rw [works]
      exact h id (written ▸ hid)
  | arrived j r _ new works _ written =>
      obtain ⟨w, hw, hsettled⟩ := h id (written ▸ hid)
      have hne : j ≠ id := by
        rintro rfl
        rw [new] at hw
        cases hw
      exact ⟨w, by rw [works, Dict.get?_put_of_ne _ _ hne, hw], hsettled⟩
  | moved j r old stage _ known works answer wrote =>
      by_cases hj : j = id
      · subst hj
        refine ⟨_, works ▸ Dict.get?_put_self _ _ _, ?_⟩
        rcases wrote with ⟨-, hwritten⟩ | ⟨-, hsettled⟩
        · obtain ⟨w, hw, hsettled⟩ := h j (hwritten ▸ hid)
          obtain rfl := Option.some.inj (known.symm.trans hw)
          rcases answer (RequestStage.answered_of_isSettled hsettled) with hsame | ⟨hnone, -⟩
          · rwa [RequestStage.isSettled, hsame]
          · rw [RequestStage.isSettled, hnone]
        · exact hsettled
      · have hin : id ∈ t.written := by
          rcases wrote with ⟨-, hwritten⟩ | ⟨hwritten, -⟩
          · exact hwritten ▸ hid
          · simpa [hwritten, Ne.symm hj] using hid
        obtain ⟨w, hw, hsettled⟩ := h id hin
        exact ⟨w, by rw [works, Dict.get?_put_of_ne _ _ hj, hw], hsettled⟩

theorem Traffic.Told.notMem (h : t.Told) (hid : t.works.get? id = some w)
    (hanswer : w.stage.answer? = some (some (.error e))) : id ∉ t.written := by
  intro hin
  obtain ⟨v, hv, hsettled⟩ := h id hin
  obtain rfl := Option.some.inj (hid.symm.trans hv)
  simp [RequestStage.isSettled, hanswer] at hsettled

theorem Traffic.told_of_stepwise {store : Storage × World} {ttl : Nat}
    (h : stepwise Traffic.disturbed (.fresh store ttl) labels = some t) : t.Told :=
  stepwise_keeps (P := Traffic.Told) h (by simp [Told, fresh]) fun _ _ _ _ htold hs => htold.step hs

/-- An answer stays, unless the request is dropped. -/
theorem Traffic.answer_of_disturbed (h : t.disturbed label = some t')
    (hdrop : ∀ faults, label ≠ .work (.drop id) faults) {stage : RequestStage} {answer : Answer}
    (hid : t.works.get? id = some ⟨r, stage⟩) (hanswer : stage.answer? = some answer) :
    ∃ stage, t'.works.get? id = some ⟨r, stage⟩ ∧ stage.answer? = some answer := by
  cases disturbs h with
  | nobody _ works => exact ⟨stage, works ▸ hid, hanswer⟩
  | arrived j _ _ new works =>
      have hne : j ≠ id := by
        rintro rfl
        rw [new] at hid
        cases hid
      exact ⟨stage, by rw [works, Dict.get?_put_of_ne _ _ hne, hid], hanswer⟩
  | moved j _ old next owner known works answer =>
      by_cases hj : j = id
      · subst hj
        obtain ⟨rfl, rfl⟩ : _ = r ∧ old = stage := by simpa using known.symm.trans hid
        rcases answer (by simp [hanswer]) with hsame | ⟨-, faults, rfl⟩
        · exact ⟨next, works ▸ Dict.get?_put_self _ _ _, hsame.trans hanswer⟩
        · exact absurd rfl (hdrop faults)
      · exact ⟨stage, by rw [works, Dict.get?_put_of_ne _ _ hj, hid], hanswer⟩

theorem Traffic.answer_of_stepwise (h : stepwise Traffic.disturbed t labels = some t')
    (hdrop : ∀ faults, .work (.drop id) faults ∉ labels) {stage : RequestStage} {answer : Answer}
    (hid : t.works.get? id = some ⟨r, stage⟩) (hanswer : stage.answer? = some answer) :
    ∃ stage, t'.works.get? id = some ⟨r, stage⟩ ∧ stage.answer? = some answer :=
  stepwise_keeps (P := fun t => ∃ stage, t.works.get? id = some ⟨r, stage⟩ ∧ stage.answer? = some answer) h
    ⟨stage, hid, hanswer⟩ fun _ _ _ hin ⟨_, hid, hanswer⟩ hs =>
      answer_of_disturbed hs (fun faults heq => hdrop faults (heq ▸ hin)) hid hanswer

/-! ## The locks -/

theorem orderly_of_disturbed {store : Storage × World} {ttl : Nat}
    (h : stepwise Traffic.disturbed (.fresh store ttl) labels = some t) : Orderly t.locks t.works := by
  refine stepwise_keeps (P := fun t => Orderly t.locks t.works) h (orderly_fresh ttl) fun s label _ _ horder hs => ?_
  cases label with
  | work label faults => exact horder.step hs
  | elsewhere store =>
      cases hs
      exact horder

theorem Work.Placed.locked_subset (h : w.Placed) : w.locked ⊆ w.request.names := by
  obtain ⟨r, stage⟩ := w
  cases stage with
  | locking names => exact (List.take_sublist _ _).subset
  | waiting name names => exact (List.take_sublist _ _).subset
  | resolving results pending left => exact fun _ h => h
  | releasing names answer => exact List.Sublist.subset h
  | ended answer => exact List.nil_subset _

theorem Work.Placed.awaited_mem {name : String} (h : w.Placed) (hname : w.awaited = some name) :
    name ∈ w.request.names := by
  obtain ⟨r, stage⟩ := w
  cases stage with
  | waiting n names =>
      obtain rfl : n = name := Option.some.inj hname
      exact List.IsSuffix.subset h List.mem_cons_self
  | _ => cases hname

/-- A lock is used only if an unfinished request has asked for it. -/
theorem Orderly.asked_of_isUsed {locks : NamedLocks (Nat × String)} {works : Dict Nat Work} {name : String}
    (h : Orderly locks works) (hu : locks.isUsed name) :
    ∃ id w, works.get? id = some w ∧ w.stage.isEnded = false ∧ name ∈ w.request.names := by
  obtain ⟨⟨id, x⟩, phase, hk, hphase⟩ := NamedLocks.isUsed_iff.1 hu
  obtain rfl : name = x := h.named id x _ hk
  obtain ⟨w, hid⟩ := Option.isSome_iff_exists.1 (h.known id name (by simp [hk]))
  have hw := h.reflected id w hid
  rcases hphase with rfl | rfl
  · have hname := (hw.waiting name).1 hk
    exact ⟨id, w, hid, Work.unfinished_of_awaited hname, hw.placed.awaited_mem hname⟩
  · have hname := (hw.held name).1 hk
    exact ⟨id, w, hid, Work.unfinished_of_locked hname, hw.placed.locked_subset hname⟩

/-- Who asks for a lock that nobody uses has it at once. -/
theorem Orderly.gets_lock {σ : Type} {t : Traffic σ} {name : String} {rest : List String}
    (h : Orderly t.locks t.works) (b : Backend σ) (hid : t.works.get? id = some ⟨r, .locking (name :: rest)⟩)
    (hu : ¬t.locks.isUsed name) :
    ∃ t', t.step b (.advance id) = some t' ∧ t'.works.get? id = some ⟨r, .locking rest⟩ ∧
      ∀ other, other ≠ name → (t'.locks.isUsed other ↔ t.locks.isUsed other) := by
  have hnone := (h.reflected id _ hid).unasked name List.mem_cons_self
  have hpool := h.sound.pool_of_unused hu
  obtain ⟨locks, hask⟩ : ∃ locks, t.locks.step (.ask (id, name) name) = some locks := by
    simp [NamedLocks.step, hnone]
  obtain ⟨-, m⟩ := NamedLocks.step_ask hask
  have hheld : ((t.locks.pool name).request (id, name)).1 = true := by simp [hpool, Permits.request, Permits.full]
  simp only [hheld, ↓reduceIte] at m
  refine ⟨{ t with locks }.setStage id r (.locking rest), ?_, Dict.get?_put_self _ _ _, fun other hother => ?_⟩
  · simp [Traffic.step, hid, Traffic.advance, Traffic.lock, hask, m.users_self]
  · simp only [Traffic.setStage, NamedLocks.isUsed_iff]
    refine exists_congr fun k => ?_
    by_cases hk : (id, name) = k
    · subst hk
      simp [m.users_self, hnone, hother.symm]
    · rw [m.users_of_ne hk]

/-! ## How a request ends -/

/-- By its own steps alone, however its statements fail, the request ends with an answer of which `P` holds. -/
inductive Traffic.Finishes (id : Nat) (r : Request) (P : Answer → Prop) : Traffic (Storage × World) → Prop
  | ended {t : Traffic (Storage × World)} (answer : Answer) (stage : t.works.get? id = some ⟨r, .ended answer⟩)
      (holds : P answer) : Finishes id r P t
  | step {t : Traffic (Storage × World)} (next : Faults → Traffic (Storage × World))
      (steps : ∀ faults, t.disturbed (.work (.advance id) faults) = some (next faults))
      (rest : ∀ faults, Finishes id r P (next faults)) : Finishes id r P t

theorem Traffic.Finishes.of_steps {P : Answer → Prop} (h : ∀ faults, ∃ t',
    t.step (Storage.tryBackend faults) (.advance id) = some t' ∧ Finishes id r P t') : Finishes id r P t := by
  choose next steps rest using h
  exact .step next steps rest

theorem Orderly.finishes_of_releasing {P : Answer → Prop} {names : List String} {answer : Answer}
    (h : Orderly t.locks t.works) (hid : t.works.get? id = some ⟨r, .releasing names answer⟩) (hP : P answer) :
    Traffic.Finishes id r P t := by
  induction names generalizing t with
  | nil =>
      refine .of_steps fun faults => ⟨t.setStage id r (.ended answer), ?_, ?_⟩
      · simp [Traffic.step, hid, Traffic.advance]
      · exact .ended answer (Dict.get?_put_self _ _ _) hP
  | cons name rest ih =>
      refine .of_steps fun faults => ?_
      obtain ⟨t', ht', hid'⟩ := h.gives_back_one (Storage.tryBackend faults) hid
      exact ⟨t', ht', ih (h.step ht') hid'⟩

theorem Traffic.stage_write {σ : Type} (b : Backend σ) (t : Traffic σ) (id : Nat) (r : Request) (results : List Metric)
    (pending : Pending) : ∃ answer,
      (t.write b id r results pending).works.get? id = some ⟨r, .releasing r.names (some answer)⟩ := by
  unfold Traffic.write
  split <;> exact ⟨_, Dict.get?_put_self _ _ _⟩

theorem Traffic.stage_resolveNext {σ : Type} (b : Backend σ) (t : Traffic σ) (id : Nat) (r : Request)
    (results : List Metric) (pending : Pending) (m : Metric) (left : List Metric) :
    (∃ answer, (t.resolveNext b id r results pending m left).works.get? id
      = some ⟨r, .releasing r.names (some answer)⟩) ∨
    ∃ results' pending', (t.resolveNext b id r results pending m left).works.get? id
      = some ⟨r, .resolving results' pending' left⟩ := by
  unfold Traffic.resolveNext
  split
  · exact .inl ⟨_, Dict.get?_put_self _ _ _⟩
  · exact .inr ⟨_, _, Dict.get?_put_self _ _ _⟩

theorem Orderly.finishes_of_resolving {results : List Metric} {pending : Pending} {left : List Metric}
    (h : Orderly t.locks t.works) (hid : t.works.get? id = some ⟨r, .resolving results pending left⟩) :
    Traffic.Finishes id r (·.isSome) t := by
  induction left generalizing t results pending with
  | nil =>
      refine .of_steps fun faults => ?_
      have hs : t.step (Storage.tryBackend faults) (.advance id)
          = some (if r.metrics.isEmpty then t.setStage id r (.ended (some (.ok [])))
              else t.write (Storage.tryBackend faults) id r results pending) := by
        simp [Traffic.step, hid, Traffic.advance]
      refine ⟨_, hs, ?_⟩
      have horder := h.step hs
      split
      · exact .ended _ (Dict.get?_put_self _ _ _) rfl
      · rename_i hsome
        rw [if_neg hsome] at horder
        obtain ⟨answer, hreleasing⟩ := t.stage_write (Storage.tryBackend faults) id r results pending
        exact horder.finishes_of_releasing hreleasing rfl
  | cons m left ih =>
      refine .of_steps fun faults => ?_
      have hs : t.step (Storage.tryBackend faults) (.advance id)
          = some (t.resolveNext (Storage.tryBackend faults) id r results pending m left) := by
        simp [Traffic.step, hid, Traffic.advance]
      refine ⟨_, hs, ?_⟩
      have horder := h.step hs
      rcases t.stage_resolveNext (Storage.tryBackend faults) id r results pending m left with
        ⟨answer, hreleasing⟩ | ⟨results', pending', hresolving⟩
      · exact horder.finishes_of_releasing hreleasing rfl
      · exact ih horder hresolving

/-- Who asks for locks that nobody uses has them all at once, and goes on to its end. -/
theorem Orderly.finishes_of_locking {names : List String} (h : Orderly t.locks t.works)
    (hid : t.works.get? id = some ⟨r, .locking names⟩) (hu : ∀ name ∈ names, ¬t.locks.isUsed name) :
    Traffic.Finishes id r (·.isSome) t := by
  induction names generalizing t with
  | nil =>
      refine .of_steps fun faults => ?_
      have hs : t.step (Storage.tryBackend faults) (.advance id)
          = some (t.setStage id r (.resolving [] Dict.empty r.metrics)) := by simp [Traffic.step, hid, Traffic.advance]
      exact ⟨_, hs, (h.step hs).finishes_of_resolving (Dict.get?_put_self _ _ _)⟩
  | cons name rest ih =>
      have hplaced : (name :: rest) <:+ r.names := (h.reflected id _ hid).placed
      have hrest : name ∉ rest := (List.nodup_cons.1 (r.nodup_names.sublist hplaced.sublist)).1
      refine .of_steps fun faults => ?_
      obtain ⟨t', ht', hid', husers⟩ := h.gets_lock (Storage.tryBackend faults) hid (hu name List.mem_cons_self)
      refine ⟨t', ht', ih (h.step ht') hid' fun other ho => ?_⟩
      rw [husers other (ne_of_mem_of_not_mem ho hrest)]
      exact hu other (List.mem_cons_of_mem _ ho)

/-- A request that asks for names which no unfinished request has finds all their locks free. -/
theorem Orderly.proceeds (h : Orderly t.locks t.works) (hnew : t.works.get? id = none)
    (hnames : ∀ j w, t.works.get? j = some w → w.stage.isEnded = false → ∀ name ∈ r.names, name ∉ w.request.names)
    (faults : Faults) :
    ∃ t', t.disturbed (.work (.arrive id r) faults) = some t' ∧ Traffic.Finishes id r (·.isSome) t' := by
  have harrive : t.step (Storage.tryBackend faults) (.arrive id r) = some (t.setStage id r (.locking r.names)) := by
    simp [Traffic.step, hnew]
  refine ⟨_, harrive, (h.step harrive).finishes_of_locking (Dict.get?_put_self _ _ _) fun name hname hused => ?_⟩
  obtain ⟨j, w, hj, hw, hin⟩ := h.asked_of_isUsed hused
  exact hnames j w hj hw name hname hin

theorem Orderly.finishes_of_answered {answer : Answer} (h : Orderly t.locks t.works) (hid : t.works.get? id = some w)
    (hanswer : w.stage.answer? = some answer) : Traffic.Finishes id w.request (· = answer) t := by
  obtain ⟨r, stage⟩ := w
  cases stage with
  | releasing names given => exact h.finishes_of_releasing hid (Option.some.inj hanswer)
  | ended given => exact .ended given hid (Option.some.inj hanswer)
  | _ => cases hanswer

/-- Whichever operation of a request fails, the request is answered by that failure and nothing else has changed. A
request that is answered by an error has not written, no step of it has changed the store, and it ends with that
answer. When it has ended it has no lock left, and a later request that finds no other one at its names is answered
without waiting. -/
theorem failed_request_changes_nothing {store : Storage × World} {ttl : Nat}
    (h : stepwise Traffic.disturbed (.fresh store ttl) labels = some t) :
    (∀ id w d faults, t.works.get? id = some w → w.demand? = some d →
      ((t.store.1.isOpen = false ∨ t.store.1.isTable ∧ ∃ k < d.statements, (faults k).isSome) →
        (d.error? faults t.store).isSome) ∧
      ∀ e, d.error? faults t.store = some e → t.disturbed (.work (.advance id) faults)
        = some (t.setStage id w.request (.releasing w.request.names (some (.error e))))) ∧
    (∀ id w e, t.works.get? id = some w → w.stage.answer? = some (some (.error e)) →
      id ∉ t.written ∧
      (∀ before label after s s', labels = before ++ label :: after →
        stepwise Traffic.disturbed (.fresh store ttl) before = some s → s.disturbed label = some s' →
        label.owner? = some id → s'.store = s.store) ∧
      (∀ more t', stepwise Traffic.disturbed t more = some t' → (∀ faults, .work (.drop id) faults ∉ more) →
        ∃ stage, t'.works.get? id = some ⟨w.request, stage⟩ ∧ stage.answer? = some (some (.error e))) ∧
      Traffic.Finishes id w.request (· = some (.error e)) t) ∧
    (∀ id r answer, t.works.get? id = some ⟨r, .ended answer⟩ → ¬t.IsQueued id ∧ ∀ name, ¬t.HasLock id name) ∧
    (∀ id r faults, t.works.get? id = none →
      (∀ j w, t.works.get? j = some w → w.stage.isEnded = false → ∀ name ∈ r.names, name ∉ w.request.names) →
      ∃ t', t.disturbed (.work (.arrive id r) faults) = some t' ∧ Traffic.Finishes id r (·.isSome) t') := by
  have horder := orderly_of_disturbed h
  refine ⟨fun id w d faults hid hd => ⟨Demand.error?_isSome, fun e he => Traffic.disturbed_of_error hid hd he⟩,
    fun id w e hid hanswer => ?_, fun id r answer hid => ?_,
    fun id r faults hnew hnames => horder.proceeds hnew hnames faults⟩
  · have hunwritten := (Traffic.told_of_stepwise h).notMem hid hanswer
    refine ⟨hunwritten, fun before label after s s' hlabels hs hs' howner => ?_,
      fun more t' hmore hdrop => Traffic.answer_of_stepwise hmore hdrop hid hanswer,
      horder.finishes_of_answered hid hanswer⟩
    have hafter : stepwise Traffic.disturbed s' after = some t := by
      rw [hlabels, stepwise_append, hs, Option.bind_some, stepwise_cons, hs'] at h
      exact h
    exact Traffic.store_of_disturbed hs' howner fun hin =>
      hunwritten ((Traffic.written_of_stepwise hafter).subset hin)
  · refine ⟨horder.not_isQueued hid rfl, fun name hname => ?_⟩
    simpa [Work.locked] using ((horder.reflected id _ hid).held name).1 hname

def emptyTable : Storage × World := (.table ⟨0, false, true⟩, ⟨⟨Dict.empty⟩, [⟨2, some ⟨true, Dict.empty⟩, []⟩], 0, []⟩)

/-- A batch that is about to write two rows. -/
def resolvedBatch : List DisturbedStep :=
  [.work (.arrive 0 (.saveBatch [.gauge "b" (.finite false 0), .counter "a" 2])) .none, .work (.advance 0) .none,
    .work (.advance 0) .none, .work (.advance 0) .none, .work (.advance 0) .none, .work (.advance 0) .none]

/-- The statement of number `k` does not reach the database. -/
def failingAt (k : Nat) : Faults := fun n => if n = k then some (.database .cannotOpen) else none

/-- The second row of the batch fails; the batch gives its locks back and ends. -/
def interruptedBatch : List DisturbedStep :=
  resolvedBatch ++ .work (.advance 0) (failingAt 2) :: List.replicate 3 (.work (.advance 0) .none)

theorem failed_request_changes_nothing_interrupted : ∃ s s' t,
    stepwise Traffic.disturbed (.fresh emptyTable 50) resolvedBatch = some s ∧
    s.disturbed (.work (.advance 0) (failingAt 2)) = some s' ∧ s'.store = s.store ∧
    stepwise Traffic.disturbed (.fresh emptyTable 50) interruptedBatch = some t ∧ 0 ∉ t.written ∧
    (∀ name, ¬t.HasLock 0 name) ∧
    ∃ t', t.disturbed (.work (.arrive 1 (.save (.counter "a" 5))) .none) = some t' ∧
      Traffic.Finishes 1 (.save (.counter "a" 5)) (·.isSome) t' := by
  have hresolved : (stepwise Traffic.disturbed (.fresh emptyTable 50) resolvedBatch).map
      (fun t => ((t.works.get? 0).map Work.demand?, t.store.1.isTable))
      = some (some (some (.write (.saveBatch [.gauge "b" (.finite false 0), .counter "a" 2]))), true) := by cbv
  have hinterrupted : (stepwise Traffic.disturbed (.fresh emptyTable 50) interruptedBatch).map
      (fun t => ((t.works.get? 0).map (·.stage), t.works.values.all (·.stage.isEnded),
        (t.works.get? 1).map (·.request)))
      = some (some (.ended (some (.error (.database .cannotOpen)))), true, none) := by cbv
  obtain ⟨s, hs, hfacts⟩ := Option.map_eq_some_iff.1 hresolved
  obtain ⟨hdemand, htable⟩ := Prod.mk.inj hfacts
  obtain ⟨w, hw, hdemand⟩ := Option.map_eq_some_iff.1 hdemand
  obtain ⟨t, ht, hfacts⟩ := Option.map_eq_some_iff.1 hinterrupted
  simp only [Prod.mk.injEq] at hfacts
  obtain ⟨hstage, hended, hnew⟩ := hfacts
  obtain ⟨⟨r, stage⟩, hv, rfl⟩ := Option.map_eq_some_iff.1 hstage
  obtain ⟨hfails, -, -, -⟩ := failed_request_changes_nothing hs
  obtain ⟨-, hfailed, hfree, hproceeds⟩ := failed_request_changes_nothing ht
  obtain ⟨hrefused, hkept⟩ := hfails 0 w _ (failingAt 2) hw hdemand
  obtain ⟨e, he⟩ := Option.isSome_iff_exists.1 (hrefused (.inr ⟨htable, 2, by decide, by decide⟩))
  refine ⟨s, _, t, hs, hkept e he, rfl, ht, (hfailed 0 _ _ hv rfl).1, (hfree 0 r _ hv).2,
    hproceeds 1 _ .none (Option.map_eq_none_iff.1 hnew) fun j v hj hunfinished => ?_⟩
  have hover := List.all_eq_true.1 hended v (Dict.mem_values_iff.2 ⟨j, hj⟩)
  rw [hunfinished] at hover
  cases hover

end PushMetrics.Manager
