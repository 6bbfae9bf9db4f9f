import Mathlib.Data.Finset.Max
import Mathlib.Data.List.Permutation
import Mathlib.Data.String.Basic
import PushMetrics.Proofs.Manager.Serializability

/-!
# Requests never wait in a circle

A request that waits for the lock of a name holds only locks of lesser names, since it asks for them in order.
So of the requests that wait, the one that waits for the greatest name waits for nobody who waits: that lock
has been granted to it, or is held by a request that can go on. A request that has been dropped waits for
nothing, and gives back what it holds without a stop.
-/

namespace PushMetrics.Manager

open Lock

/-! ## The order of the names -/

theorem eraseDups_sublist (names : List String) : names.eraseDups.Sublist names := by
  induction hn : names.length using Nat.strongRecOn generalizing names with
  | ind n ih =>
      cases names with
      | nil => simp
      | cons name rest =>
          have hshorter := List.length_filter_le (fun other => !other == name) rest
          rw [List.length_cons] at hn
          rw [List.eraseDups_cons]
          exact ((ih _ (by omega) _ rfl).trans List.filter_sublist).cons_cons name

theorem Request.sorted_names (r : Request) : r.names.Pairwise (· < ·) := by
  have hsorted : ((r.metrics.map (·.name)).mergeSort (fun a b => a ≤ b)).Pairwise (fun a b => decide (a ≤ b)) :=
    List.pairwise_mergeSort (by simpa using fun _ _ _ => le_trans) (by simpa using le_total) _
  have hle : r.names.Pairwise (· ≤ ·) := List.Pairwise.sublist (eraseDups_sublist _) (by simpa using hsorted)
  exact (hle.and r.nodup_names).imp fun ⟨hab, hne⟩ => lt_of_le_of_ne hab hne

theorem Traffic.lt_of_mem_taken {r : Request} {name other : String} {rest : List String}
    (h : (name :: rest) <:+ r.names) (ho : other ∈ taken r (name :: rest)) : other < name := by
  have hs := r.sorted_names
  rw [← taken_append h] at hs
  exact (List.pairwise_append.1 hs).2.2 other ho name List.mem_cons_self

/-! ## What a request has asked for -/

/-- The name for whose lock a request waits. -/
def Work.awaited (w : Work) : Option String :=
  match w.stage with
  | .waiting name _ => some name
  | _ => none

/-- The names whose locks a request is still to ask for. -/
def Work.unasked (w : Work) : List String :=
  match w.stage with
  | .locking names => names
  | .waiting _ names => names
  | _ => []

/-- What a request has asked of each lock is what its stage says. -/
structure Work.Reflects (w : Work) (asked : String → Option User) : Prop where
  placed : w.Placed
  held : ∀ name, asked name = some ⟨name, .held⟩ ↔ name ∈ w.locked
  waiting : ∀ name, asked name = some ⟨name, .waiting⟩ ↔ w.awaited = some name
  unasked : ∀ name ∈ w.unasked, asked name = none

/-- The locks and the requests agree on who has asked for what. -/
structure Orderly (locks : NamedLocks (Nat × String)) (works : Dict Nat Work) : Prop where
  sound : locks.Sound
  named : ∀ id name u, locks.users.get? (id, name) = some u → u.name = name
  known : ∀ id name, (locks.users.get? (id, name)).isSome → (works.get? id).isSome
  reflected : ∀ id w, works.get? id = some w → w.Reflects fun name => locks.users.get? (id, name)

theorem orderly_fresh (ttl : Nat) : Orderly (.fresh ttl) Dict.empty where
  sound := NamedLocks.sound_fresh ttl
  named _ _ _ h := by cases h
  known _ _ h := by cases h
  reflected _ _ h := by cases h

variable {locks locks' : NamedLocks (Nat × String)} {works : Dict Nat Work} {id : Nat} {w : Work}
  {r : Request} {stage : RequestStage} {name : String} {rest : List String} {phase : UserPhase}
  {p : Permits (Nat × String)}

theorem Orderly.setStage (h : Orderly locks works) (hid : works.get? id = some w)
    (hplaced : (⟨w.request, stage⟩ : Work).Placed) (hlocked : (⟨w.request, stage⟩ : Work).locked = w.locked)
    (hawaited : (⟨w.request, stage⟩ : Work).awaited = w.awaited)
    (hunasked : (⟨w.request, stage⟩ : Work).unasked = []) :
    Orderly locks (works.put id ⟨w.request, stage⟩) := by
  refine ⟨h.sound, h.named, fun j x hj => ?_, fun j v hj => ?_⟩
  · rw [Dict.get?_put]
    split
    · rfl
    · exact h.known j x hj
  · obtain ⟨rfl, rfl⟩ | ⟨-, hj⟩ := Dict.of_get?_put hj
    · have old := h.reflected id w hid
      refine ⟨hplaced, fun x => ?_, fun x => ?_, by simp [hunasked]⟩
      · rw [old.held x, hlocked]
      · rw [old.waiting x, hawaited]
    · exact h.reflected j v hj

/-- A request moves on with a step of the lock of one of its names. -/
theorem Orderly.moveLock (h : Orderly locks works) (hid : works.get? id = some w) (hsound : locks'.Sound)
    (m : locks.Moves locks' (id, name) name phase p) (hplaced : (⟨w.request, stage⟩ : Work).Placed)
    (hlocked : ∀ x, x ∈ (⟨w.request, stage⟩ : Work).locked ↔ if name = x then phase = .held else x ∈ w.locked)
    (hawaited : ∀ x, (⟨w.request, stage⟩ : Work).awaited = some x ↔
      if name = x then phase = .waiting else w.awaited = some x)
    (hunasked : ∀ x ∈ (⟨w.request, stage⟩ : Work).unasked, name ≠ x ∧ x ∈ w.unasked) :
    Orderly locks' (works.put id ⟨w.request, stage⟩) := by
  have hother : ∀ j x, (id, name) ≠ (j, x) → locks'.users.get? (j, x) = locks.users.get? (j, x) :=
    fun j x hne => m.users_of_ne hne
  refine ⟨hsound, fun j x u hu => ?_, fun j x hj => ?_, fun j v hj => ?_⟩
  · by_cases hk : (id, name) = (j, x)
    · cases hk
      rw [m.users_self] at hu
      cases hu
      rfl
    · exact h.named j x u (hother j x hk ▸ hu)
  · rw [Dict.get?_put]
    split
    · rfl
    · rename_i hne
      exact h.known j x (hother j x (fun hk => hne (congrArg Prod.fst hk)) ▸ hj)
  · obtain ⟨rfl, rfl⟩ | ⟨hne, hj⟩ := Dict.of_get?_put hj
    · have old := h.reflected id w hid
      have hself : ∀ x, name ≠ x → locks'.users.get? (id, x) = locks.users.get? (id, x) :=
        fun x hne => hother id x fun hk => hne (congrArg Prod.snd hk)
      refine ⟨hplaced, fun x => ?_, fun x => ?_, fun x hx => ?_⟩
      · rw [hlocked x]
        by_cases hx : name = x
        · subst hx
          simp [m.users_self]
        · rw [hself x hx, if_neg hx]
          exact old.held x
      · rw [hawaited x]
        by_cases hx : name = x
        · subst hx
          simp [m.users_self]
        · rw [hself x hx, if_neg hx]
          exact old.waiting x
      · obtain ⟨hne, hin⟩ := hunasked x hx
        exact (hself x hne).trans (old.unasked x hin)
    · have old := h.reflected j v hj
      have hsame : (fun x => locks'.users.get? (j, x)) = fun x => locks.users.get? (j, x) :=
        funext fun x => hother j x fun hk => hne (congrArg Prod.fst hk)
      rwa [hsame]

theorem Orderly.ofLocks (h : Orderly locks works) (hsound : locks'.Sound) (husers : locks'.users = locks.users) :
    Orderly locks' works where
  sound := hsound
  named := husers ▸ h.named
  known := husers ▸ h.known
  reflected := husers ▸ h.reflected

theorem Orderly.arrive (h : Orderly locks works) (hnew : works.get? id = none) (r : Request) :
    Orderly locks (works.put id ⟨r, .locking r.names⟩) := by
  have hnone : ∀ x, locks.users.get? (id, x) = none := by
    intro x
    by_contra hsome
    simpa [hnew] using h.known id x (Option.isSome_iff_ne_none.2 hsome)
  refine ⟨h.sound, h.named, fun j x hj => ?_, fun j v hj => ?_⟩
  · rw [Dict.get?_put]
    split
    · rfl
    · exact h.known j x hj
  · obtain ⟨rfl, rfl⟩ | ⟨-, hj⟩ := Dict.of_get?_put hj
    · exact ⟨List.suffix_refl _, by simp [hnone, Work.locked, Traffic.taken_none], by simp [hnone, Work.awaited],
        fun x _ => hnone x⟩
    · exact h.reflected j v hj

/-! ## Every step keeps the order -/

/-- A request gets the lock of the next of its names. -/
theorem Orderly.acquired (h : Orderly locks works) (hid : works.get? id = some ⟨r, stage⟩)
    (hplaced : (name :: rest) <:+ r.names) (hlocked : (⟨r, stage⟩ : Work).locked = Traffic.taken r (name :: rest))
    (hawaited : ∀ x, (⟨r, stage⟩ : Work).awaited = some x → name = x)
    (hunasked : ∀ x ∈ rest, x ∈ (⟨r, stage⟩ : Work).unasked) (hsound : locks'.Sound)
    (m : locks.Moves locks' (id, name) name .held p) : Orderly locks' (works.put id ⟨r, .locking rest⟩) := by
  have hrest : name ∉ rest := (List.nodup_cons.1 (r.nodup_names.sublist hplaced.sublist)).1
  refine h.moveLock hid hsound m ((List.suffix_cons name rest).trans hplaced) (fun x => ?_) (fun x => ?_)
    fun x hx => ⟨(ne_of_mem_of_not_mem hx hrest).symm, hunasked x hx⟩
  · rw [hlocked]
    simp only [Work.locked, Traffic.taken_cons hplaced, List.mem_append, List.mem_singleton]
    split
    · simp [*]
    · rename_i hne
      simp [Ne.symm hne]
  · simp only [Work.awaited, reduceCtorEq, false_iff]
    split
    · simp
    · rename_i hne
      exact fun hx => hne (hawaited x hx)

variable {σ : Type} {b : Backend σ} {t t' : Traffic σ}

theorem Orderly.advance (h : Orderly t.locks t.works) (hid : t.works.get? id = some w)
    (hs : t.advance b id w = some t') : Orderly t'.locks t'.works := by
  have hw := h.reflected id w hid
  obtain ⟨r, stage⟩ := w
  cases stage with
  | locking names =>
      cases names with
      | nil =>
          cases hs
          exact h.setStage hid trivial (Traffic.taken_all r).symm rfl rfl
      | cons name rest =>
          obtain ⟨t₁, hlock, rfl⟩ := Option.map_eq_some_iff.1 hs
          obtain ⟨locks, hask, rfl⟩ := Option.map_eq_some_iff.1 hlock
          obtain ⟨-, m⟩ := NamedLocks.step_ask hask
          have hsound := h.sound.step hask
          cases hheld : ((t.locks.pool name).request (id, name)).1 with
          | true =>
              simp only [hheld, ↓reduceIte] at m
              simp only [m.users_self, Option.any_some, beq_self_eq_true, ↓reduceIte]
              exact h.acquired hid hw.placed rfl (by simp [Work.awaited])
                (fun x hx => List.mem_cons_of_mem name hx) hsound m
          | false =>
              have hrest : name ∉ rest := (List.nodup_cons.1 (r.nodup_names.sublist hw.placed.sublist)).1
              simp only [hheld, Bool.false_eq_true, ↓reduceIte] at m
              simp only [m.users_self, Option.any_some, reduceCtorEq, beq_iff_eq, ↓reduceIte]
              refine h.moveLock hid hsound m hw.placed (fun x => ?_) (fun x => ?_) fun x hx => ?_
              · split
                · rename_i hx
                  simpa [Work.locked, ← hx] using Traffic.notMem_taken hw.placed
                · rfl
              · by_cases hx : name = x <;> simp [Work.awaited, hx]
              · exact ⟨(ne_of_mem_of_not_mem hx hrest).symm, List.mem_cons_of_mem name hx⟩
  | waiting name rest =>
      obtain ⟨t₁, hlock, rfl⟩ := Option.map_eq_some_iff.1 hs
      obtain ⟨locks, hturn, rfl⟩ := Option.map_eq_some_iff.1 hlock
      obtain ⟨n, hk, -, m⟩ := NamedLocks.step_turn h.sound hturn
      obtain rfl : n = name := h.named id name _ hk
      exact h.acquired hid hw.placed rfl (by simp [Work.awaited]) (fun x hx => hx) (h.sound.step hturn) m
  | resolving results pending left =>
      cases left with
      | nil =>
          simp only [Traffic.advance, Option.some.injEq] at hs
          subst hs
          split
          · rename_i hempty
            have hnames : r.names = [] := by simp [Request.names, List.isEmpty_iff.1 hempty]
            exact h.setStage hid trivial hnames.symm rfl rfl
          · unfold Traffic.write
            split <;> exact h.setStage hid (List.Sublist.refl _) rfl rfl rfl
      | cons m left =>
          cases hs
          unfold Traffic.resolveNext
          split
          · exact h.setStage hid (List.Sublist.refl _) rfl rfl rfl
          · exact h.setStage hid trivial rfl rfl rfl
  | releasing names answer =>
      cases names with
      | nil =>
          cases hs
          exact h.setStage hid trivial rfl rfl rfl
      | cons name rest =>
          obtain ⟨t₁, hlock, rfl⟩ := Option.map_eq_some_iff.1 hs
          obtain ⟨locks, hrelease, rfl⟩ := Option.map_eq_some_iff.1 hlock
          obtain ⟨n, hk, m⟩ := NamedLocks.step_release h.sound hrelease
          obtain rfl : n = name := h.named id name _ hk
          have hrest : n ∉ rest := (List.nodup_cons.1 (r.nodup_names.sublist hw.placed)).1
          refine h.moveLock hid (h.sound.step hrelease) m ((List.sublist_cons_self n rest).trans hw.placed)
            (fun x => ?_) (fun x => by simp [Work.awaited]) (by simp [Work.unasked])
          split
          · rename_i hx
            simpa [Work.locked, ← hx] using hrest
          · rename_i hne
            simp [Work.locked, Ne.symm hne]
  | ended answer => cases hs

theorem Orderly.drop (h : Orderly t.locks t.works) (hid : t.works.get? id = some w) (hs : t.drop id w = some t') :
    Orderly t'.locks t'.works := by
  have hw := h.reflected id w hid
  obtain ⟨r, stage⟩ := w
  cases stage with
  | locking names =>
      cases hs
      exact h.setStage hid (List.take_sublist _ _) rfl rfl rfl
  | waiting name rest =>
      obtain ⟨t₁, hlock, rfl⟩ := Option.map_eq_some_iff.1 hs
      obtain ⟨locks, hleave, rfl⟩ := Option.map_eq_some_iff.1 hlock
      obtain ⟨n, hk, m⟩ := NamedLocks.step_leave h.sound hleave
      obtain rfl : n = name := h.named id name _ hk
      refine h.moveLock hid (h.sound.step hleave) m (List.take_sublist _ _) (fun x => ?_) (fun x => ?_)
        (by simp [Work.unasked])
      · split
        · rename_i hx
          simpa [Work.locked, ← hx] using Traffic.notMem_taken hw.placed
        · rfl
      · by_cases hx : n = x <;> simp [Work.awaited, hx]
  | resolving results pending left =>
      cases hs
      exact h.setStage hid (List.Sublist.refl _) rfl rfl rfl
  | releasing names answer =>
      cases hs
      exact h.setStage hid hw.placed rfl rfl rfl
  | ended answer => cases hs

theorem Orderly.step {label : TrafficStep} (h : Orderly t.locks t.works) (hs : t.step b label = some t') :
    Orderly t'.locks t'.works := by
  cases label with
  | arrive id r =>
      simp only [Traffic.step] at hs
      split at hs
      · cases hs
      · rename_i hnew
        cases hs
        exact h.arrive (by simpa using hnew) r
  | advance id =>
      obtain ⟨w, hid, hs⟩ := Option.bind_eq_some_iff.1 hs
      exact h.advance hid hs
  | drop id =>
      obtain ⟨w, hid, hs⟩ := Option.bind_eq_some_iff.1 hs
      exact h.drop hid hs
  | sweep =>
      simp only [Traffic.step, Traffic.lock] at hs
      obtain ⟨locks, hsweep, rfl⟩ := Option.map_eq_some_iff.1 hs
      exact h.ofLocks (h.sound.step hsweep) (NamedLocks.step_sweep h.sound hsweep).1
  | wait millis =>
      simp only [Traffic.step, Traffic.lock] at hs
      obtain ⟨locks, hwait, rfl⟩ := Option.map_eq_some_iff.1 hs
      exact h.ofLocks (h.sound.step hwait) (NamedLocks.step_wait hwait).1

theorem orderly_of_stepwise {store : σ} {ttl : Nat} {labels : List TrafficStep}
    (h : stepwise (Traffic.step b) (.fresh store ttl) labels = some t) : Orderly t.locks t.works :=
  stepwise_keeps (P := fun t => Orderly t.locks t.works) h (orderly_fresh ttl) fun _ _ _ _ horder hs => horder.step hs

/-! ## Who can go on -/

def RequestStage.isEnded : RequestStage → Bool
  | .ended _ => true
  | _ => false

namespace Traffic

/-- A request waits for a lock that another request holds or has been granted. -/
def IsBlocked (t : Traffic σ) (id : Nat) : Prop :=
  ∃ w name, t.works.get? id = some w ∧ w.awaited = some name ∧ ∃ j, j ≠ id ∧
    (t.locks.users.get? (j, name) = some ⟨name, .held⟩ ∨ (j, name) ∈ (t.locks.pool name).granted)

def IsQueued (t : Traffic σ) (id : Nat) : Prop := ∃ name, (id, name) ∈ (t.locks.pool name).line

def HasLock (t : Traffic σ) (id : Nat) (name : String) : Prop :=
  t.locks.users.get? (id, name) = some ⟨name, .held⟩

end Traffic

/-- A request that waits for a lock holds those of lesser names only. -/
theorem Orderly.lt_of_awaited (h : Orderly locks works) (hid : works.get? id = some w)
    (hawaited : w.awaited = some name) {other : String} (ho : other ∈ w.locked) : other < name := by
  have hplaced := (h.reflected id w hid).placed
  obtain ⟨r, stage⟩ := w
  cases stage with
  | waiting n rest =>
      obtain rfl : n = name := Option.some.inj hawaited
      exact Traffic.lt_of_mem_taken hplaced ho
  | _ => cases hawaited

theorem Work.unfinished_of_awaited (h : w.awaited = some name) : w.stage.isEnded = false := by
  obtain ⟨r, stage⟩ := w
  cases stage <;> first | rfl | cases h

theorem Work.unfinished_of_locked (h : name ∈ w.locked) : w.stage.isEnded = false := by
  obtain ⟨r, stage⟩ := w
  cases stage <;> first | rfl | cases h

/-- A lock that a request waits for has been granted to a request that waits for it, or is held by a request. -/
theorem Orderly.granted_or_locked (h : Orderly locks works) (hid : works.get? id = some w)
    (hawaited : w.awaited = some name) : ∃ j v, works.get? j = some v ∧
      (v.awaited = some name ∧ (j, name) ∈ (locks.pool name).granted ∨ name ∈ v.locked) := by
  have hline : (id, name) ∈ (locks.pool name).line :=
    (h.sound.queued name _).2 (((h.reflected id w hid).waiting name).2 hawaited)
  rcases List.mem_append.1 hline with hgranted | hwaiting
  · exact ⟨id, w, hid, .inl ⟨hawaited, hgranted⟩⟩
  · have hbalanced := h.sound.balanced name
    have htotal := hbalanced.total
    have hfull := hbalanced.idle.resolve_left (List.ne_nil_of_mem hwaiting)
    cases hg : (locks.pool name).granted with
    | nil =>
        obtain ⟨⟨j, x⟩, u, hu, hheld⟩ : ∃ k u, locks.users.get? k = some u ∧ u == ⟨name, .held⟩ := by
          refine Dict.count_pos_iff.1 ?_
          simp only [hg, hfull, List.length_nil, NamedLocks.holders] at htotal
          omega
        obtain rfl : u = ⟨name, .held⟩ := by simpa using hheld
        obtain rfl : name = x := h.named j x _ hu
        obtain ⟨v, hv⟩ := Option.isSome_iff_exists.1 (h.known j name (by simp [hu]))
        exact ⟨j, v, hv, .inr (((h.reflected j v hv).held name).1 hu)⟩
    | cons k others =>
        obtain ⟨j, x⟩ := k
        have hu : locks.users.get? (j, x) = some ⟨name, .waiting⟩ := by
          refine (h.sound.queued name _).1 (List.mem_append_left _ ?_)
          rw [hg]
          exact List.mem_cons_self
        obtain rfl : name = x := h.named j x _ hu
        obtain ⟨v, hv⟩ := Option.isSome_iff_exists.1 (h.known j name (by simp [hu]))
        exact ⟨j, v, hv, .inl ⟨((h.reflected j v hv).waiting name).1 hu, List.mem_cons_self⟩⟩

/-- Of unfinished requests, one waits for no lock, or for a lock that has been granted to it. -/
theorem Orderly.exists_unhindered (h : Orderly locks works) (hid : works.get? id = some w)
    (hw : w.stage.isEnded = false) : ∃ j v, works.get? j = some v ∧ v.stage.isEnded = false ∧
      ∀ name, v.awaited = some name → (j, name) ∈ (locks.pool name).granted := by
  cases hawaited : w.awaited with
  | none => exact ⟨id, w, hid, hw, by simp [hawaited]⟩
  | some name =>
      -- the greatest name for whose lock a request waits
      have hmem : ∀ {j v n}, works.get? j = some v → v.awaited = some n →
          n ∈ (works.values.filterMap Work.awaited).toFinset := fun hj hn =>
        List.mem_toFinset.2 (List.mem_filterMap.2 ⟨_, Dict.mem_values_iff.2 ⟨_, hj⟩, hn⟩)
      obtain ⟨greatest, hin, hgreatest⟩ := Finset.exists_max_image _ (fun n => n) ⟨name, hmem hid hawaited⟩
      obtain ⟨v, hv, hn⟩ := List.mem_filterMap.1 (List.mem_toFinset.1 hin)
      obtain ⟨i, hi⟩ := Dict.mem_values_iff.1 hv
      obtain ⟨j, u, hj, hu⟩ := h.granted_or_locked hi hn
      rcases hu with ⟨hu, hgranted⟩ | hlocked
      · refine ⟨j, u, hj, Work.unfinished_of_awaited hu, fun other hother => ?_⟩
        obtain rfl : greatest = other := Option.some.inj (hu.symm.trans hother)
        exact hgranted
      · refine ⟨j, u, hj, Work.unfinished_of_locked hlocked, fun other hother => ?_⟩
        exact absurd (h.lt_of_awaited hj hother hlocked) (not_lt.2 (hgreatest other (hmem hj hother)))

theorem Orderly.not_isBlocked (h : Orderly t.locks t.works) (hid : t.works.get? id = some w)
    (hgranted : ∀ name, w.awaited = some name → (id, name) ∈ (t.locks.pool name).granted) : ¬t.IsBlocked id := by
  rintro ⟨v, name, hv, hawaited, j, hne, hj⟩
  obtain rfl := Option.some.inj (hid.symm.trans hv)
  have hin := hgranted name hawaited
  have htotal := (h.sound.balanced name).total
  have hone := List.length_pos_of_mem hin
  rcases hj with hheld | hother
  · have := NamedLocks.Sound.holders_pos hheld
    omega
  · have hlen : (t.locks.pool name).granted.length = 1 := by omega
    obtain ⟨k, hk⟩ := List.length_eq_one_iff.1 hlen
    rw [hk, List.mem_singleton] at hin hother
    exact hne (congrArg Prod.fst (hother.trans hin.symm))

theorem Orderly.advance_isSome (h : Orderly t.locks t.works) (b : Backend σ) (hid : t.works.get? id = some w)
    (hw : w.stage.isEnded = false)
    (hgranted : ∀ name, w.awaited = some name → (id, name) ∈ (t.locks.pool name).granted) :
    ∃ t', t.step b (.advance id) = some t' := by
  have hr := h.reflected id w hid
  obtain ⟨r, stage⟩ := w
  have hstep : t.step b (.advance id) = t.advance b id ⟨r, stage⟩ := by simp [Traffic.step, hid]
  rw [hstep]
  cases stage with
  | locking names =>
      cases names with
      | nil => exact ⟨_, rfl⟩
      | cons name rest =>
          have hnone := hr.unasked name List.mem_cons_self
          simp [Traffic.advance, Traffic.lock, NamedLocks.step, hnone]
  | waiting name rest =>
      have hwaits := (hr.waiting name).2 rfl
      have hturn : (t.locks.entry name).permits.isGranted (id, name) := Permits.isGranted_iff.2 (hgranted name rfl)
      simp [Traffic.advance, Traffic.lock, NamedLocks.step, hwaits, hturn]
  | resolving results pending left => cases left <;> exact ⟨_, rfl⟩
  | releasing names answer =>
      cases names with
      | nil => exact ⟨_, rfl⟩
      | cons name rest =>
          have hheld := (hr.held name).2 List.mem_cons_self
          simp [Traffic.advance, Traffic.lock, NamedLocks.step, hheld]
  | ended answer => cases hw

/-! ## What a dropped request keeps -/

theorem Orderly.not_isQueued (h : Orderly t.locks t.works) (hid : t.works.get? id = some w)
    (hawaited : w.awaited = none) : ¬t.IsQueued id := by
  rintro ⟨name, hin⟩
  have hw := ((h.reflected id w hid).waiting name).1 ((h.sound.queued name _).1 hin)
  rw [hawaited] at hw
  cases hw

theorem Orderly.gives_back_one (h : Orderly t.locks t.works) (b : Backend σ) {answer : Answer}
    (hid : t.works.get? id = some ⟨r, .releasing (name :: rest) answer⟩) :
    ∃ t', t.step b (.advance id) = some t' ∧ t'.works.get? id = some ⟨r, .releasing rest answer⟩ := by
  obtain ⟨t', ht'⟩ := h.advance_isSome b hid rfl (by simp [Work.awaited])
  refine ⟨t', ht', ?_⟩
  obtain ⟨w, hw, hs⟩ := Option.bind_eq_some_iff.1 ht'
  obtain rfl := Option.some.inj (hid.symm.trans hw)
  obtain ⟨t₁, -, rfl⟩ := Option.map_eq_some_iff.1 hs
  exact Dict.get?_put_self _ _ _

/-- A request that gives back what it holds does so in as many steps, and is over with one more. -/
theorem Orderly.gives_back (h : Orderly t.locks t.works) (b : Backend σ) {names : List String} {answer : Answer}
    (hid : t.works.get? id = some ⟨r, .releasing names answer⟩) :
    ∃ t', stepwise (Traffic.step b) t (List.replicate (names.length + 1) (.advance id)) = some t' ∧
      t'.works.get? id = some ⟨r, .ended answer⟩ := by
  induction names generalizing t with
  | nil =>
      refine ⟨t.setStage id r (.ended answer), ?_, Dict.get?_put_self _ _ _⟩
      simp [stepwise, Traffic.step, hid, Traffic.advance]
  | cons name rest ih =>
      obtain ⟨t₁, ht₁, hrest⟩ := h.gives_back_one b hid
      obtain ⟨t', hrun, hended⟩ := ih (h.step ht₁) hrest
      refine ⟨t', ?_, hended⟩
      rw [List.length_cons, List.replicate_succ, stepwise_cons, ht₁]
      exact hrun

theorem Traffic.releasing_of_drop (h : t.step b (.drop id) = some t') :
    ∃ r names, t'.works.get? id = some ⟨r, .releasing names none⟩ := by
  obtain ⟨⟨r, stage⟩, hid, hs⟩ := Option.bind_eq_some_iff.1 h
  cases stage with
  | waiting name rest =>
      obtain ⟨t₁, -, rfl⟩ := Option.map_eq_some_iff.1 hs
      exact ⟨r, _, Dict.get?_put_self _ _ _⟩
  | ended answer => cases hs
  | _ =>
      cases hs
      exact ⟨r, _, Dict.get?_put_self _ _ _⟩

/-- Some unfinished request can always take its next step, and waits for no lock that another holds or has been
granted. A request that is dropped is in no queue from then on; it holds nothing but what it then gives back in as
many steps, none of which can be kept from it, and when it is over it holds nothing. -/
theorem never_deadlocks {store : σ} {ttl : Nat} {labels : List TrafficStep}
    (h : stepwise (Traffic.step b) (.fresh store ttl) labels = some t) :
    (∀ id w, t.works.get? id = some w → w.stage.isEnded = false →
      ∃ id w t', t.works.get? id = some w ∧ w.stage.isEnded = false ∧ ¬t.IsBlocked id ∧
        t.step b (.advance id) = some t') ∧
    (∀ id t', t.step b (.drop id) = some t' → ∃ r names, t'.works.get? id = some ⟨r, .releasing names none⟩) ∧
    (∀ id r names, t.works.get? id = some ⟨r, .releasing names none⟩ →
      ¬t.IsQueued id ∧ (∀ name, t.HasLock id name ↔ name ∈ names) ∧
      ∃ t', stepwise (Traffic.step b) t (List.replicate (names.length + 1) (.advance id)) = some t' ∧
        t'.works.get? id = some ⟨r, .ended none⟩) ∧
    (∀ id r, t.works.get? id = some ⟨r, .ended none⟩ → ¬t.IsQueued id ∧ ∀ name, ¬t.HasLock id name) := by
  have horder := orderly_of_stepwise h
  refine ⟨fun id w hid hw => ?_, fun id t' ht' => Traffic.releasing_of_drop ht', fun id r names hid => ?_,
    fun id r hid => ?_⟩
  · obtain ⟨j, v, hj, hv, hgranted⟩ := horder.exists_unhindered hid hw
    obtain ⟨t', ht'⟩ := horder.advance_isSome b hj hv hgranted
    exact ⟨j, v, t', hj, hv, horder.not_isBlocked hj hgranted, ht'⟩
  · exact ⟨horder.not_isQueued hid rfl, (horder.reflected id _ hid).held, horder.gives_back b hid⟩
  · refine ⟨horder.not_isQueued hid rfl, fun name hname => ?_⟩
    simpa [Work.locked] using ((horder.reflected id _ hid).held name).1 hname

/-- Two batches and a single metric that meet at one name. The first batch has all its locks when the others come to
wait for it; the metric is dropped in the queue. -/
def meeting : List TrafficStep :=
  [.arrive 0 (.saveBatch [.counter "b" 1, .counter "a" 2]), .arrive 1 (.saveBatch [.counter "c" 7, .counter "b" 10]),
    .arrive 2 (.save (.counter "b" 100)), .advance 0, .advance 0, .advance 1, .advance 2, .sweep, .drop 2]

theorem never_deadlocks_meeting : ∃ t,
    stepwise (Traffic.step Memory.backend) (.fresh ⟨Contents.ofMetrics [], true⟩ 50) meeting = some t ∧
    t.IsBlocked 1 ∧ (∃ id w t', t.works.get? id = some w ∧ w.stage.isEnded = false ∧ ¬t.IsBlocked id ∧
      t.step Memory.backend (.advance id) = some t') ∧ ¬t.IsQueued 2 ∧ ∀ name, ¬t.HasLock 2 name := by
  have hrun : (stepwise (Traffic.step Memory.backend) (.fresh ⟨Contents.ofMetrics [], true⟩ 50) meeting).map
      (fun t => ((t.works.get? 1).map fun w => (w.awaited, w.stage.isEnded), t.locks.users.get? (0, "b"),
        (t.works.get? 2).map (·.stage)))
      = some (some (some "b", false), some ⟨"b", .held⟩, some (.releasing [] none)) := by cbv
  obtain ⟨t, ht, hfacts⟩ := Option.map_eq_some_iff.1 hrun
  simp only [Prod.mk.injEq] at hfacts
  obtain ⟨hone, hzero, htwo⟩ := hfacts
  obtain ⟨w, hw, hwaits⟩ := Option.map_eq_some_iff.1 hone
  obtain ⟨hawaited, hunfinished⟩ := Prod.mk.inj hwaits
  obtain ⟨⟨r, stage⟩, hv, rfl⟩ := Option.map_eq_some_iff.1 htwo
  obtain ⟨hruns, -, hdrops, -⟩ := never_deadlocks ht
  obtain ⟨hqueue, hlocks, -⟩ := hdrops 2 r [] hv
  refine ⟨t, ht, ⟨w, "b", hw, hawaited, 0, by decide, .inl hzero⟩, hruns 1 w hw hunfinished, hqueue,
    fun name hname => ?_⟩
  exact List.not_mem_nil ((hlocks name).1 hname)

end PushMetrics.Manager
