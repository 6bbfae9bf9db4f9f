import PushMetrics.Proofs.Lock.Ownership
import PushMetrics.Proofs.Manager.Merging

/-!
# No update is lost

However requests interleave, the store ends as if those that have written had been served one at a time in the
order of their writing, and every answer is the one that the request would then have got. What a request has
resolved stays right until it writes, since nobody else holds a lock of one of its names.
-/

namespace PushMetrics.Manager

open Lock

/-! ## Names and locks of a request -/

theorem nodup_eraseDups (names : List String) : names.eraseDups.Nodup := by
  induction hn : names.length using Nat.strongRecOn generalizing names with
  | ind n ih =>
      cases names with
      | nil => simp
      | cons name rest =>
          have hshorter := List.length_filter_le (fun other => !other == name) rest
          rw [List.length_cons] at hn
          rw [List.eraseDups_cons, List.nodup_cons]
          exact ⟨by simp [List.mem_eraseDups], ih _ (by omega) _ rfl⟩

theorem Request.nodup_names (r : Request) : r.names.Nodup := nodup_eraseDups _

theorem Request.mem_names {r : Request} {name : String} : name ∈ r.names ↔ name ∈ r.metrics.map (·.name) := by
  simp [names]

namespace Traffic

theorem taken_all (r : Request) : taken r [] = r.names := by simp [taken]

theorem taken_none (r : Request) : taken r r.names = [] := by simp [taken]

theorem taken_append {r : Request} {names : List String} (h : names <:+ r.names) :
    taken r names ++ names = r.names := by
  obtain ⟨before, h⟩ := h
  have hlen : r.names.length - names.length = before.length := by
    have := congrArg List.length h
    simp only [List.length_append] at this
    omega
  rw [taken, hlen, ← h, List.take_left]

theorem taken_cons {r : Request} {name : String} {rest : List String} (h : (name :: rest) <:+ r.names) :
    taken r rest = taken r (name :: rest) ++ [name] := by
  have hrest := taken_append ((List.suffix_cons name rest).trans h)
  rw [← taken_append h, List.append_cons] at hrest
  exact List.append_cancel_right hrest

theorem notMem_taken {r : Request} {name : String} {rest : List String} (h : (name :: rest) <:+ r.names) :
    name ∉ taken r (name :: rest) := by
  have hd := r.nodup_names
  rw [← taken_append h] at hd
  exact fun hin => (List.nodup_append.1 hd).2.2 name hin name List.mem_cons_self rfl

end Traffic

/-- The names whose locks a request has. -/
def Work.locked (w : Work) : List String :=
  match w.stage with
  | .locking names => Traffic.taken w.request names
  | .waiting name names => Traffic.taken w.request (name :: names)
  | .resolving _ _ _ => w.request.names
  | .releasing names _ => names
  | .ended _ => []

/-- What a request still asks for are the last of its names, and what it gives back are some of them. -/
def Work.Placed (w : Work) : Prop :=
  match w.stage with
  | .locking names => names <:+ w.request.names
  | .waiting name names => (name :: names) <:+ w.request.names
  | .releasing names _ => names.Sublist w.request.names
  | .resolving _ _ _ | .ended _ => True

/-- A request that has written, and the results it has written. -/
structure Writing where
  id : Nat
  request : Request
  results : List Metric

/-- Where an answer comes from: the request has written it, or had nothing to write, or found the store closed. -/
def Accounted (store : Memory) (log : List Writing) (id : Nat) (r : Request) : Answer → Prop
  | none => True
  | some (.ok results) => ⟨id, r, results⟩ ∈ log ∨ id ∉ log.map (·.id) ∧ r.metrics = [] ∧ results = []
  | some (.error e) => id ∉ log.map (·.id) ∧ r.metrics ≠ [] ∧ e = .closed ∧ store.isOpen = false

/-- How far a request has come: what it has resolved is what it would resolve now. -/
def Work.Progress (w : Work) (store : Memory) (log : List Writing) (id : Nat) : Prop :=
  match w.stage with
  | .locking _ | .waiting _ _ => id ∉ log.map (·.id)
  | .resolving results pending left => id ∉ log.map (·.id) ∧ ∃ done, w.request.metrics = done ++ left ∧
      resolveAll Memory.backend Dict.empty done store = (.ok (results, pending), store)
  | .releasing _ answer | .ended answer => Accounted store log id w.request answer

/-- A request holds the locks that its stage says, and has come as far as that says. -/
structure Consistent (t : Traffic Memory) (log : List Writing) (id : Nat) (w : Work) : Prop where
  placed : w.Placed
  held : ∀ name ∈ w.locked, t.locks.users.get? (id, name) = some ⟨name, .held⟩
  progress : w.Progress t.store log id

/-- The state of requests at work after those of a log have written, in this order, to what was a given store. -/
structure Serial (first : Memory) (t : Traffic Memory) (log : List Writing) : Prop where
  locks : t.locks.Sound
  named : ∀ id name u, t.locks.users.get? (id, name) = some u → u.name = name
  opened : t.store.isOpen = first.isOpen
  written : t.written = log.map (·.id)
  distinct : (log.map (·.id)).Nodup
  known : ∀ e ∈ log, ∃ stage, t.works.get? e.id = some ⟨e.request, stage⟩
  served : serveAll Memory.backend (log.map (·.request)) first = (log.map fun e => .ok e.results, t.store)
  works : ∀ id w, t.works.get? id = some w → Consistent t log id w

variable {first : Memory} {t t' : Traffic Memory} {log log' : List Writing} {id : Nat} {w : Work}

/-! ## What the steps of one request leave to the others -/

/-- A request keeps what it has as long as its locks stay, no name that it holds is written, and no writing is
forgotten. -/
theorem Consistent.frame (h : Consistent t log id w)
    (husers : ∀ name, t'.locks.users.get? (id, name) = t.locks.users.get? (id, name))
    (hopen : t'.store.isOpen = t.store.isOpen)
    (hstore : ∀ name ∈ w.locked, t.store.contents.get? name = t'.store.contents.get? name)
    (hlog : ∀ e ∈ log, e ∈ log') (hwritten : id ∈ log'.map (·.id) → id ∈ log.map (·.id)) :
    Consistent t' log' id w := by
  refine ⟨h.placed, fun name hname => (husers name).trans (h.held name hname), ?_⟩
  have hp := h.progress
  have haccounted : ∀ answer, Accounted t.store log id w.request answer →
      Accounted t'.store log' id w.request answer := by
    intro answer ha
    match answer, ha with
    | none, _ => trivial
    | some (.ok results), .inl hin => exact .inl (hlog _ hin)
    | some (.ok results), .inr ⟨hout, hempty⟩ => exact .inr ⟨fun hin => hout (hwritten hin), hempty⟩
    | some (.error e), ⟨hout, hne, he, hclosed⟩ =>
        exact ⟨fun hin => hout (hwritten hin), hne, he, hopen.trans hclosed⟩
  unfold Work.Progress at hp ⊢
  cases hs : w.stage with
  | locking names =>
      simp only [hs] at hp
      exact fun hin => hp (hwritten hin)
  | waiting name names =>
      simp only [hs] at hp
      exact fun hin => hp (hwritten hin)
  | resolving results pending left =>
      simp only [hs] at hp
      obtain ⟨hout, done, hdone, hresolved⟩ := hp
      refine ⟨fun hin => hout (hwritten hin), done, hdone, ?_⟩
      refine resolveAll_memory_congr hopen.symm (fun m hm => hstore m.name ?_) hresolved
      rw [Work.locked, hs]
      refine Request.mem_names.2 (List.mem_map_of_mem ?_)
      rw [hdone]
      exact List.mem_append_left left hm
  | releasing names answer =>
      simp only [hs] at hp
      exact haccounted answer hp
  | ended answer =>
      simp only [hs] at hp
      exact haccounted answer hp

theorem Serial.disjoint (h : Serial first t log) {j : Nat} {v : Work} (hid : t.works.get? id = some w)
    (hj : t.works.get? j = some v) (hne : id ≠ j) {name : String} (hw : name ∈ w.locked) : name ∉ v.locked := by
  intro hv
  have hsame := h.locks.exclusive ((h.works id w hid).held name hw) ((h.works j v hj).held name hv)
  exact hne (congrArg Prod.fst hsame)

theorem Serial.move (h : Serial first t log) {stage : RequestStage} (hid : t.works.get? id = some w)
    (hworks : t'.works = t.works.put id ⟨w.request, stage⟩) (hstore : t'.store = t.store)
    (hwritten : t'.written = t.written) (hlocks : t'.locks.Sound)
    (hnamed : ∀ id name u, t'.locks.users.get? (id, name) = some u → u.name = name)
    (husers : ∀ j name, id ≠ j → t'.locks.users.get? (j, name) = t.locks.users.get? (j, name))
    (hnew : Consistent t' log id ⟨w.request, stage⟩) : Serial first t' log where
  locks := hlocks
  named := hnamed
  opened := by rw [hstore, h.opened]
  written := by rw [hwritten, h.written]
  distinct := h.distinct
  known := by
    intro e he
    obtain ⟨old, hold⟩ := h.known e he
    by_cases hne : id = e.id
    · subst hne
      obtain rfl := Option.some.inj (hid.symm.trans hold)
      exact ⟨stage, by rw [hworks, Dict.get?_put_self]⟩
    · exact ⟨old, by rw [hworks, Dict.get?_put_of_ne _ _ hne, hold]⟩
  served := by rw [hstore, h.served]
  works := by
    intro j v hj
    rw [hworks] at hj
    by_cases hne : id = j
    · subst hne
      rw [Dict.get?_put_self] at hj
      obtain rfl := Option.some.inj hj
      exact hnew
    · rw [Dict.get?_put_of_ne _ _ hne] at hj
      exact (h.works j v hj).frame (fun name => husers j name hne) (by rw [hstore]) (by simp [hstore])
        (fun e he => he) (fun hin => hin)

/-- A request moves on by itself, with locks that it has. -/
theorem Serial.setStage (h : Serial first t log) {stage : RequestStage} (hid : t.works.get? id = some w)
    (hplaced : (⟨w.request, stage⟩ : Work).Placed)
    (hheld : ∀ name ∈ (⟨w.request, stage⟩ : Work).locked, name ∈ w.locked)
    (hprogress : (⟨w.request, stage⟩ : Work).Progress t.store log id) :
    Serial first (t.setStage id w.request stage) log :=
  h.move hid rfl rfl rfl h.locks h.named (fun _ _ _ => rfl)
    ⟨hplaced, fun name hname => (h.works id w hid).held name (hheld name hname), hprogress⟩

/-- A request moves on with a step of one of its locks. -/
theorem Serial.moveLock (h : Serial first t log) {stage : RequestStage} (hid : t.works.get? id = some w)
    {locks : NamedLocks (Nat × String)} (hsound : locks.Sound) {name : String} {phase : UserPhase}
    {p : Permits (Nat × String)} (m : t.locks.Moves locks (id, name) name phase p)
    (hplaced : (⟨w.request, stage⟩ : Work).Placed)
    (hheld : ∀ x ∈ (⟨w.request, stage⟩ : Work).locked, x = name ∧ phase = .held ∨ x ≠ name ∧ x ∈ w.locked)
    (hprogress : (⟨w.request, stage⟩ : Work).Progress t.store log id) :
    Serial first ({ t with locks }.setStage id w.request stage) log := by
  have hnamed : ∀ j x u, locks.users.get? (j, x) = some u → u.name = x := by
    intro j x u hu
    by_cases hk : (id, name) = (j, x)
    · cases hk
      rw [m.users_self] at hu
      cases hu
      rfl
    · rw [m.users_of_ne hk] at hu
      exact h.named j x u hu
  have hothers : ∀ j x, id ≠ j → locks.users.get? (j, x) = t.locks.users.get? (j, x) :=
    fun j x hj => m.users_of_ne fun hk => hj (congrArg Prod.fst hk)
  refine h.move hid rfl rfl rfl hsound hnamed hothers ⟨hplaced, fun x hx => ?_, hprogress⟩
  rcases hheld x hx with ⟨rfl, rfl⟩ | ⟨hne, hin⟩
  · exact m.users_self
  · have hk : (id, name) ≠ (id, x) := fun hk => hne (congrArg Prod.snd hk).symm
    exact (m.users_of_ne hk).trans ((h.works id w hid).held x hin)

/-! ## Writing -/

/-- A store that accepts a change is open, and keeps what has other names. -/
theorem Request.serve_memory_frame {r : Request} {s : Memory} (hs : s.isOpen = true) :
    (r.serve Memory.backend s).2.isOpen = true ∧
      ∀ name, name ∉ r.names → (r.serve Memory.backend s).2.contents.get? name = s.contents.get? name := by
  have hholds : s.Holds s.contents := ⟨hs, .refl _⟩
  obtain ⟨-, hopen, hsame⟩ := r.serve_memory_eq_mergeAll hholds
  refine ⟨hopen, fun name hname => ?_⟩
  rw [hsame name]
  exact Contents.get?_mergeAll_of_notMem (fun hin => hname (Request.mem_names.2 hin)) _

/-- A request that has resolved all its metrics writes the results, and that is as good as serving it now. -/
theorem Serial.write (h : Serial first t log) {results : List Metric} {pending : Pending} {r : Request}
    (hid : t.works.get? id = some ⟨r, .resolving results pending []⟩) (hne : r.metrics ≠ []) :
    ∃ log', Serial first (t.write Memory.backend id r results pending) log' := by
  have hc := h.works id _ hid
  obtain ⟨hout, done, hdone, hresolved⟩ := hc.progress
  obtain rfl : r.metrics = done := by simpa using hdone
  have hserve := Request.serve_of_resolved hresolved hne
  unfold Traffic.write
  cases hopen : t.store.isOpen with
  | false =>
      refine ⟨log, ?_⟩
      have happly : Memory.backend.apply (r.change results pending) t.store = (.error .closed, t.store) := by
        simp [Memory.backend, Memory.apply, Memory.whenOpen, hopen]
      rw [happly]
      exact h.setStage hid (List.Sublist.refl _) (fun _ hname => hname) ⟨hout, hne, rfl, hopen⟩
  | true =>
      refine ⟨log ++ [⟨id, r, results⟩], ?_⟩
      obtain ⟨hstill, hframe⟩ := Request.serve_memory_frame (r := r) hopen
      obtain ⟨after, happly⟩ : ∃ after, Memory.backend.apply (r.change results pending) t.store = (.ok (), after) := by
        simp [Memory.backend, Memory.apply, Memory.whenOpen, hopen]
      rw [happly] at hserve ⊢
      rw [hserve] at hstill hframe
      have hfresh : ∀ j, j ≠ id → j ∈ (log ++ [(⟨id, r, results⟩ : Writing)]).map (·.id) → j ∈ log.map (·.id) := by
        intro j hj hin
        simpa [hj] using hin
      refine ⟨h.locks, h.named, hstill.trans (hopen.symm.trans h.opened), ?_, ?_, ?_, ?_, ?_⟩
      · simp [Traffic.setStage, h.written]
      · rw [List.map_append, List.nodup_append]
        refine ⟨h.distinct, by simp, fun j hj k hk e => ?_⟩
        obtain rfl : k = id := by simpa using hk
        exact hout (e ▸ hj)
      · intro e he
        by_cases heid : id = e.id
        · rcases List.mem_append.1 he with he | he
          · exact absurd (heid ▸ List.mem_map_of_mem he) hout
          · obtain rfl := List.mem_singleton.1 he
            exact ⟨_, Dict.get?_put_self _ _ _⟩
        · have he : e ∈ log := by
            rcases List.mem_append.1 he with he | he
            · exact he
            · obtain rfl := List.mem_singleton.1 he
              exact absurd rfl heid
          obtain ⟨stage, hstage⟩ := h.known e he
          exact ⟨stage, (Dict.get?_put_of_ne _ _ heid).trans hstage⟩
      · rw [List.map_append, serveAll_append, h.served]
        simp [serveAll, hserve, Traffic.setStage]
      · intro j v hj
        by_cases hne : id = j
        · subst hne
          obtain rfl := Option.some.inj ((Dict.get?_put_self _ _ _).symm.trans hj)
          exact ⟨List.Sublist.refl _, hc.held, .inl (List.mem_append_right _ List.mem_cons_self)⟩
        · have hj : t.works.get? j = some v := (Dict.get?_put_of_ne _ _ hne).symm.trans hj
          refine (h.works j v hj).frame (fun _ => rfl) (hstill.trans hopen.symm) (fun name hname => ?_)
            (fun e he => List.mem_append_left _ he) (hfresh j (Ne.symm hne))
          exact (hframe name fun hin => h.disjoint hid hj hne hin hname).symm

/-! ## Every step -/

theorem Serial.arrive (h : Serial first t log) {r : Request} (hnew : t.works.get? id = none) :
    Serial first (t.setStage id r (.locking r.names)) log := by
  have hout : id ∉ log.map (·.id) := by
    intro hin
    obtain ⟨e, he, rfl⟩ := List.mem_map.1 hin
    obtain ⟨stage, hstage⟩ := h.known e he
    rw [hnew] at hstage
    cases hstage
  refine ⟨h.locks, h.named, h.opened, h.written, h.distinct, ?_, h.served, ?_⟩
  · intro e he
    have hne : id ≠ e.id := fun hid => hout (hid ▸ List.mem_map_of_mem he)
    obtain ⟨stage, hstage⟩ := h.known e he
    exact ⟨stage, (Dict.get?_put_of_ne _ _ hne).trans hstage⟩
  · intro j v hj
    by_cases hne : id = j
    · subst hne
      obtain rfl := Option.some.inj ((Dict.get?_put_self _ _ _).symm.trans hj)
      refine ⟨List.suffix_refl _, fun name hname => ?_, hout⟩
      simp only [Work.locked, Traffic.taken_none] at hname
      cases hname
    · have hj : t.works.get? j = some v := (Dict.get?_put_of_ne _ _ hne).symm.trans hj
      exact (h.works j v hj).frame (fun _ => rfl) rfl (fun _ _ => rfl) (fun _ he => he) (fun hin => hin)

theorem Serial.acquired (h : Serial first t log) {r : Request} {stage : RequestStage} {name : String}
    {rest : List String} (hid : t.works.get? id = some ⟨r, stage⟩) (hplaced : (name :: rest) <:+ r.names)
    (hlocked : (⟨r, stage⟩ : Work).locked = Traffic.taken r (name :: rest)) (hout : id ∉ log.map (·.id))
    {locks : NamedLocks (Nat × String)} (hsound : locks.Sound) {p : Permits (Nat × String)}
    (m : t.locks.Moves locks (id, name) name .held p) :
    Serial first ({ t with locks }.setStage id r (.locking rest)) log := by
  refine h.moveLock hid hsound m ((List.suffix_cons name rest).trans hplaced) (fun x hx => ?_) hout
  simp only [Work.locked, Traffic.taken_cons hplaced, List.mem_append, List.mem_singleton] at hx
  rcases hx with hx | rfl
  · exact .inr ⟨ne_of_mem_of_not_mem hx (Traffic.notMem_taken hplaced), hlocked ▸ hx⟩
  · exact .inl ⟨rfl, rfl⟩

theorem Serial.resolveNext (h : Serial first t log) {r : Request} {results : List Metric} {pending : Pending}
    {m : Metric} {left : List Metric} (hid : t.works.get? id = some ⟨r, .resolving results pending (m :: left)⟩) :
    Serial first (t.resolveNext Memory.backend id r results pending m left) log := by
  obtain ⟨hout, done, hdone, hresolved⟩ := (h.works id _ hid).progress
  have hstore := resolve_memory_left pending m t.store
  unfold Traffic.resolveNext
  cases hr : resolve Memory.backend pending m t.store with
  | mk result after =>
      rw [hr] at hstore
      obtain rfl : after = t.store := hstore
      cases result with
      | error e =>
          obtain ⟨rfl, hclosed⟩ := resolve_memory_error (congrArg Prod.fst hr)
          have hne : r.metrics ≠ [] := by simp [hdone]
          exact h.setStage hid (List.Sublist.refl _) (fun _ hname => hname) ⟨hout, hne, rfl, hclosed⟩
      | ok sample =>
          refine h.setStage hid trivial (fun _ hname => hname) ⟨hout, done ++ [m], ?_, resolveAll_snoc hresolved hr⟩
          rw [hdone, List.append_assoc]
          rfl

theorem Serial.advance (h : Serial first t log) (hid : t.works.get? id = some w)
    (hs : t.advance Memory.backend id w = some t') : ∃ log', Serial first t' log' := by
  have hc := h.works id w hid
  obtain ⟨r, stage⟩ := w
  cases stage with
  | locking names =>
      cases names with
      | nil =>
          cases hs
          refine ⟨log, h.setStage hid trivial (fun name hname => ?_) ⟨hc.progress, [], rfl, rfl⟩⟩
          simpa only [Work.locked, Traffic.taken_all] using hname
      | cons name rest =>
          obtain ⟨t₁, hlock, rfl⟩ := Option.map_eq_some_iff.1 hs
          obtain ⟨locks, hask, rfl⟩ := Option.map_eq_some_iff.1 hlock
          obtain ⟨-, m⟩ := NamedLocks.step_ask hask
          have hsound := h.locks.step hask
          refine ⟨log, ?_⟩
          cases hheld : ((t.locks.pool name).request (id, name)).1 with
          | true =>
              simp only [hheld, ↓reduceIte] at m
              simp only [m.users_self, Option.any_some, beq_self_eq_true, ↓reduceIte]
              exact h.acquired hid hc.placed rfl hc.progress hsound m
          | false =>
              simp only [hheld, Bool.false_eq_true, ↓reduceIte] at m
              simp only [m.users_self, Option.any_some, reduceCtorEq, beq_iff_eq, ↓reduceIte]
              refine h.moveLock hid hsound m hc.placed (fun x hx => .inr ⟨?_, hx⟩) hc.progress
              exact ne_of_mem_of_not_mem hx (Traffic.notMem_taken hc.placed)
  | waiting name rest =>
      obtain ⟨t₁, hlock, rfl⟩ := Option.map_eq_some_iff.1 hs
      obtain ⟨locks, hturn, rfl⟩ := Option.map_eq_some_iff.1 hlock
      obtain ⟨n, hk, -, m⟩ := NamedLocks.step_turn h.locks hturn
      obtain rfl : n = name := h.named id name _ hk
      exact ⟨log, h.acquired hid hc.placed rfl hc.progress (h.locks.step hturn) m⟩
  | resolving results pending left =>
      cases left with
      | nil =>
          simp only [Traffic.advance, Option.some.injEq] at hs
          subst hs
          split
          · rename_i hempty
            have hnil := List.isEmpty_iff.1 hempty
            obtain ⟨hout, done, hdone, hresolved⟩ := hc.progress
            exact ⟨log, h.setStage hid trivial (by simp [Work.locked]) (.inr ⟨hout, hnil, rfl⟩)⟩
          · rename_i hne
            exact h.write hid fun hnil => hne (List.isEmpty_iff.2 hnil)
      | cons m left =>
          cases hs
          exact ⟨log, h.resolveNext hid⟩
  | releasing names answer =>
      cases names with
      | nil =>
          cases hs
          exact ⟨log, h.setStage hid trivial (by simp [Work.locked]) hc.progress⟩
      | cons name rest =>
          obtain ⟨t₁, hlock, rfl⟩ := Option.map_eq_some_iff.1 hs
          obtain ⟨locks, hrelease, rfl⟩ := Option.map_eq_some_iff.1 hlock
          obtain ⟨n, hk, m⟩ := NamedLocks.step_release h.locks hrelease
          obtain rfl : n = name := h.named id name _ hk
          have hplaced : (n :: rest).Sublist r.names := hc.placed
          have hnodup := r.nodup_names.sublist hplaced
          refine ⟨log, h.moveLock hid (h.locks.step hrelease) m ((List.sublist_cons_self n rest).trans hplaced)
            (fun x hx => .inr ⟨?_, List.mem_cons_of_mem n hx⟩) hc.progress⟩
          exact ne_of_mem_of_not_mem hx (List.nodup_cons.1 hnodup).1
  | ended answer => cases hs

/-- A request that is dropped keeps its writing, if it has written, and nothing else. -/
theorem Serial.drop (h : Serial first t log) (hid : t.works.get? id = some w) (hs : t.drop id w = some t') :
    Serial first t' log := by
  have hc := h.works id w hid
  obtain ⟨r, stage⟩ := w
  cases stage with
  | locking names =>
      cases hs
      exact h.setStage hid (List.take_sublist _ _) (fun _ hname => hname) trivial
  | waiting name rest =>
      obtain ⟨t₁, hlock, rfl⟩ := Option.map_eq_some_iff.1 hs
      obtain ⟨locks, hleave, rfl⟩ := Option.map_eq_some_iff.1 hlock
      obtain ⟨n, hk, m⟩ := NamedLocks.step_leave h.locks hleave
      obtain rfl : n = name := h.named id name _ hk
      refine h.moveLock hid (h.locks.step hleave) m (List.take_sublist _ _) (fun x hx => .inr ⟨?_, hx⟩) trivial
      exact ne_of_mem_of_not_mem hx (Traffic.notMem_taken hc.placed)
  | resolving results pending left =>
      cases hs
      exact h.setStage hid (List.Sublist.refl _) (fun _ hname => hname) trivial
  | releasing names answer =>
      cases hs
      exact h.setStage hid hc.placed (fun _ hname => hname) trivial
  | ended answer => cases hs

theorem Serial.ofLocks (h : Serial first t log) {locks : NamedLocks (Nat × String)} (hsound : locks.Sound)
    (husers : locks.users = t.locks.users) : Serial first { t with locks } log where
  locks := hsound
  named := husers ▸ h.named
  opened := h.opened
  written := h.written
  distinct := h.distinct
  known := h.known
  served := h.served
  works j v hj := (h.works j v hj).frame (fun name => by rw [husers]) rfl (fun _ _ => rfl) (fun _ he => he)
    (fun hin => hin)

theorem Serial.step {label : TrafficStep} (h : Serial first t log) (hs : t.step Memory.backend label = some t') :
    ∃ log', Serial first t' log' := by
  cases label with
  | arrive id r =>
      simp only [Traffic.step] at hs
      split at hs
      · cases hs
      · rename_i hnew
        cases hs
        exact ⟨log, h.arrive (by simpa using hnew)⟩
  | advance id =>
      obtain ⟨w, hid, hs⟩ := Option.bind_eq_some_iff.1 hs
      exact h.advance hid hs
  | drop id =>
      obtain ⟨w, hid, hs⟩ := Option.bind_eq_some_iff.1 hs
      exact ⟨log, h.drop hid hs⟩
  | sweep =>
      simp only [Traffic.step, Traffic.lock] at hs
      obtain ⟨locks, hsweep, rfl⟩ := Option.map_eq_some_iff.1 hs
      exact ⟨log, h.ofLocks (h.locks.step hsweep) (NamedLocks.step_sweep h.locks hsweep).1⟩
  | wait millis =>
      simp only [Traffic.step, Traffic.lock] at hs
      obtain ⟨locks, hwait, rfl⟩ := Option.map_eq_some_iff.1 hs
      exact ⟨log, h.ofLocks (h.locks.step hwait) (NamedLocks.step_wait hwait).1⟩

theorem serial_fresh (store : Memory) (ttl : Nat) : Serial store (.fresh store ttl) [] where
  locks := NamedLocks.sound_fresh ttl
  named _ _ _ h := by cases h
  opened := rfl
  written := rfl
  distinct := List.nodup_nil
  known _ h := by cases h
  served := rfl
  works _ _ h := by cases h

/-- After every run there is a log of those that have written. -/
theorem serial_of_stepwise {store : Memory} {ttl : Nat} {labels : List TrafficStep}
    (h : stepwise (Traffic.step Memory.backend) (.fresh store ttl) labels = some t) : ∃ log, Serial store t log :=
  stepwise_keeps (P := fun t => ∃ log, Serial store t log) h ⟨[], serial_fresh store ttl⟩
    fun _ _ _ _ ⟨_, hserial⟩ hs => hserial.step hs

end PushMetrics.Manager
