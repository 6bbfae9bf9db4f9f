import PushMetrics.Proofs.Lock.Eviction
import PushMetrics.Proofs.Lock.Ownership

/-!
# Whole steps and small steps

What users of the named locks do in one step, the calls to the registry do in one or two, with nothing in between. So
every run of the named locks is a run of the registry, and what holds of the calls holds of the users.
-/

namespace PushMetrics.Lock

def UserPhase.stage : UserPhase → CallStage
  | .waiting => .waiting
  | .held => .holding
  | .released | .gone => .over

/-- The small steps of a step. -/
def LockStep.inSteps {κ : Type} : LockStep κ → List (RegistryStep κ)
  | .ask k name => [.call k name, .ask k]
  | .turn k => [.turn k]
  | .release k => [.unlock k, .forget k]
  | .leave k => [.giveUp k, .forget k]
  | .sweep => [.sweep 0]
  | .wait millis => [.wait millis]

variable {κ : Type} [DecidableEq κ]

/-- The registry has the entries of the named locks and calls as far as their users. -/
structure Agrees (l : NamedLocks κ) (r : Registry κ) : Prop where
  ttl : l.ttl = r.ttl
  now : l.now = r.now
  users : ∀ k, (l.users.get? k).map (fun u => (u.name, u.phase.stage))
    = (r.calls.get? k).map fun c => (c.name, c.stage)
  entries : ∀ name, l.entries.get? name
    = (r.entries.get? name).map fun e => ⟨(r.lock e.lock).permits, e.lastAsked⟩

theorem agrees_fresh (ttl : Nat) : Agrees (NamedLocks.fresh ttl : NamedLocks κ) (.fresh ttl) :=
  ⟨rfl, rfl, fun _ => rfl, fun _ => rfl⟩

namespace Agrees

variable {l l' : NamedLocks κ} {r r' : Registry κ} {k : κ} {c : Call} {name : String} {e : Registered}
variable {phase : UserPhase} {labels : List (LockStep κ)}

theorem call_of_user (h : Agrees l r) (hk : l.users.get? k = some ⟨name, phase⟩) :
    ∃ i, r.calls.get? k = some ⟨name, i, phase.stage⟩ := by
  have husers := h.users k
  rw [hk] at husers
  obtain ⟨⟨n, i, stage⟩, hc, heq⟩ := Option.map_eq_some_iff.1 husers.symm
  cases heq
  exact ⟨i, hc⟩

theorem no_call (h : Agrees l r) (hk : l.users.get? k = none) : r.calls.get? k = none := by
  have husers := h.users k
  rw [hk] at husers
  exact Option.map_eq_none_iff.1 husers.symm

theorem inUse_iff (h : Agrees l r) : r.InUse name ↔ l.isUsed name := by
  rw [NamedLocks.isUsed_iff]
  constructor
  · rintro ⟨k, c, hk, rfl, hc⟩
    have husers := h.users k
    rw [hk] at husers
    obtain ⟨⟨n, phase⟩, hu, heq⟩ := Option.map_eq_some_iff.1 husers
    obtain ⟨rfl, hstage⟩ := Prod.mk.inj heq
    refine ⟨k, phase, hu, ?_⟩
    rw [← hstage] at hc
    cases phase <;> simp [UserPhase.stage] at hc ⊢
  · rintro ⟨k, phase, hk, hphase⟩
    obtain ⟨i, hc⟩ := h.call_of_user hk
    refine ⟨k, _, hc, rfl, ?_⟩
    rcases hphase with rfl | rfl <;> simp [UserPhase.stage]

/-- A user of a name in a new phase, and the entry of that name as the registry has it. -/
theorem put (h : Agrees l r) (htime : l'.ttl = r'.ttl ∧ l'.now = r'.now)
    (husers : l'.users = l.users.put k ⟨name, phase⟩)
    (hentry : ∀ n, l'.entries.get? n =
      if name = n then some ⟨(r'.lock e.lock).permits, e.lastAsked⟩ else l.entries.get? n)
    (hcalls : ∀ j, r'.calls.get? j = if k = j then some ⟨name, e.lock, phase.stage⟩ else r.calls.get? j)
    (hentries : ∀ n, r'.entries.get? n = if name = n then some e else r.entries.get? n)
    (hothers : ∀ n d, name ≠ n → r.entries.get? n = some d → (r'.lock d.lock).permits = (r.lock d.lock).permits) :
    Agrees l' r' where
  ttl := htime.1
  now := htime.2
  users j := by
    rw [husers, Dict.get?_put, hcalls]
    split
    · rfl
    · exact h.users j
  entries n := by
    rw [hentry, hentries]
    split
    · rfl
    · rename_i hn
      rw [h.entries n]
      cases hd : r.entries.get? n with
      | none => rfl
      | some d => simp [hothers n d hn hd]

theorem changed (h : Agrees l r) (hr : r.Sound) (hk : r.calls.get? k = some c) (hc : c.stage ≠ .over)
    (f : Permits κ → Permits κ) (htime : r'.ttl = r.ttl ∧ r'.now = r.now) (hentries : r'.entries = r.entries)
    (hcalls : ∀ j, r'.calls.get? j = if k = j then some { c with stage := phase.stage } else r.calls.get? j)
    (hpermits : ∀ i, (r'.lock i).permits = if c.lock = i then f (r.lock i).permits else (r.lock i).permits) :
    Agrees ((l.changeEntry c.name f).setPhase k c.name phase) r' := by
  obtain ⟨e, he, hlock⟩ := hr.met k c hk hc
  have hentry : l.entries.get? c.name = some ⟨(r.lock e.lock).permits, e.lastAsked⟩ := by simp [h.entries, he]
  have hchange : l.changeEntry c.name f =
      { l with entries := l.entries.put c.name ⟨f (r.lock e.lock).permits, e.lastAsked⟩ } := by
    simp [NamedLocks.changeEntry, hentry]
  rw [hchange]
  refine h.put (e := e) ⟨h.ttl.trans htime.1.symm, h.now.trans htime.2.symm⟩ rfl (fun n => ?_) (fun j => ?_)
    (fun n => ?_) fun n d hn hd => ?_
  · simp [NamedLocks.setPhase, hpermits, hlock]
  · rw [hcalls, hlock]
  · rw [hentries]
    split
    · rename_i hn
      exact hn ▸ he
    · rfl
  · have hne : c.lock ≠ d.lock := fun hsame => hn ((hr.lock_eq_iff hk hc hd).1 hsame)
    rw [hpermits, if_neg hne]

theorem permits_eq (h : Agrees l r) (hr : r.Sound) (hk : r.calls.get? k = some c) (hc : c.stage ≠ .over) :
    (l.entry c.name).permits = (r.lock c.lock).permits := by
  obtain ⟨e, he, hlock⟩ := hr.met k c hk hc
  simp [NamedLocks.entry, h.entries, he, hlock]

/-! ## Step by step -/

/-- The entry that a call finds or makes has the permits of the named lock. -/
theorem exists_made (h : Agrees l r) (name : String) : ∃ e, (r.make name).entries.get? name = some e ∧
    (r.lock e.lock).permits = (l.entry name).permits := by
  cases hentry : r.entries.get? name with
  | some e =>
      rw [Registry.make_of_some hentry]
      exact ⟨e, hentry, by simp [NamedLocks.entry, h.entries, hentry]⟩
  | none =>
      rw [Registry.make_of_none hentry]
      refine ⟨_, Dict.get?_put_self _ _ _, ?_⟩
      rw [Registry.lock_of_length_le (Nat.le_refl _)]
      simp [NamedLocks.entry, h.entries, hentry]

theorem ask (h : Agrees l r) (hr : r.Sound) (hs : l.step (.ask k name) = some l') :
    ∃ r', stepwise Registry.step r [.call k name, .ask k] = some r' ∧ Agrees l' r' := by
  simp only [NamedLocks.step] at hs
  split at hs
  · cases hs
  · rename_i hnew
    have hnone := h.no_call (Option.not_isSome_iff_eq_none.1 hnew)
    obtain ⟨e, he, hpool⟩ := h.exists_made name
    obtain ⟨-, httl, hnow⟩ := Registry.make_same r name
    have hcall : r.step (.call k name) = some ((r.make name).share k name e) := by
      simp [Registry.step, hnone, he]
    have hpermits := Registry.lock_call hr he k
    have hcalls := Registry.get?_calls_call r k name e
    have hentries := Registry.get?_entries_call r k name e
    have htime : l.ttl = ((r.make name).share k name e).ttl ∧ l.now = ((r.make name).share k name e).now :=
      ⟨h.ttl.trans httl.symm, h.now.trans hnow.symm⟩
    have hsound := hr.step hcall
    generalize (r.make name).share k name e = s at hcall hpermits hcalls hentries htime hsound
    have harriving : s.calls.get? k = some ⟨name, e.lock, .arriving⟩ := by rw [hcalls, if_pos rfl]
    have hlt := hsound.lt_of_call harriving (by simp)
    refine ⟨_, by rw [stepwise_cons, hcall, Option.bind_some, stepwise_cons, Registry.step_ask harriving]; rfl, ?_⟩
    rw [hpermits, hpool]
    cases hs
    refine h.put (e := { e with lastAsked := r.now }) htime rfl (fun n => ?_) (fun j => ?_) hentries fun n d hn hd => ?_
    · rw [Registry.lock_move hlt, if_pos rfl, ← h.now]
      exact Dict.get?_put _ _ _ _
    · have hphase : ((if ((l.entry name).permits.request k).1 then UserPhase.held else .waiting).stage)
          = if ((l.entry name).permits.request k).1 then CallStage.holding else .waiting := by
        split <;> rfl
      rw [hphase, Registry.move, Dict.get?_put, hcalls]
      split <;> rfl
    · have hd' : s.entries.get? n = some d := by rw [hentries, if_neg hn, hd]
      have hne : e.lock ≠ d.lock := fun hsame => hn ((hsound.lock_eq_iff harriving (by simp) hd').1 hsame)
      rw [Registry.lock_move hlt, if_neg hne, hpermits]

theorem turn (h : Agrees l r) (hr : r.Sound) (hs : l.step (.turn k) = some l') :
    ∃ r', stepwise Registry.step r [.turn k] = some r' ∧ Agrees l' r' := by
  simp only [NamedLocks.step] at hs
  split at hs
  · rename_i name hk
    obtain ⟨i, hc⟩ : ∃ i, r.calls.get? k = some ⟨name, i, .waiting⟩ := h.call_of_user hk
    split at hs
    · rename_i hg
      rw [h.permits_eq hr hc (by simp)] at hg
      have hturn : r.step (.turn k) = some (r.move k ⟨name, i, .waiting⟩ .holding
          { r.lock i with permits := (r.lock i).permits.collect k }) := by
        simp [Registry.step, hc, hg]
      cases hs
      refine ⟨_, by rw [stepwise_cons, hturn]; rfl, ?_⟩
      refine h.changed hr hc (by simp) (·.collect k) ⟨rfl, rfl⟩ rfl (fun j => Dict.get?_put _ _ _ _) fun j => ?_
      rw [Registry.lock_move (hr.lt_of_call hc (by simp))]
      split
      · rename_i hj
        rw [← hj]
      · rfl
    · cases hs
  · cases hs

/-- A call leaves its lock and then lets go of it. -/
theorem lets_go (h : Agrees l r) (hr : r.Sound) (hk : r.calls.get? k = some c) (hc : c.stage ≠ .over)
    {label : RegistryStep κ} (f : Permits κ → Permits κ) (hphase : phase.stage = .over)
    (hs : r.step label = some (r.move k c .leaving { r.lock c.lock with permits := f (r.lock c.lock).permits })) :
    ∃ r', stepwise Registry.step r [label, .forget k] = some r' ∧
      Agrees ((l.changeEntry c.name f).setPhase k c.name phase) r' := by
  obtain ⟨s, hmove⟩ : ∃ s, s = r.move k c .leaving { r.lock c.lock with permits := f (r.lock c.lock).permits } :=
    ⟨_, rfl⟩
  have hlock := Registry.lock_move (hr.lt_of_call hk hc) k .leaving
    { r.lock c.lock with permits := f (r.lock c.lock).permits }
  have hleft : s.calls.get? k = some ⟨c.name, c.lock, .leaving⟩ := by
    rw [hmove]
    exact Dict.get?_put_self _ _ _
  have hlt := (hr.step hs).lt_of_call (hmove ▸ hleft) (by simp)
  rw [← hmove] at hs hlock hlt
  have hforget : s.step (.forget k) = some (s.move k ⟨c.name, c.lock, .leaving⟩ .over
      { s.lock c.lock with references := (s.lock c.lock).references - 1 }) := by
    simp [Registry.step, hleft]
  refine ⟨_, by rw [stepwise_cons, hs, Option.bind_some, stepwise_cons, hforget]; rfl, ?_⟩
  refine h.changed hr hk hc f ?_ ?_ (fun j => ?_) fun i => ?_
  · rw [hmove]
    exact ⟨rfl, rfl⟩
  · rw [hmove]
    rfl
  · rw [Registry.move, Dict.get?_put, hphase]
    split
    · rfl
    · rename_i hj
      rw [hmove]
      exact Dict.get?_put_of_ne _ _ hj
  · rw [Registry.lock_move hlt]
    split
    · rename_i hi
      subst hi
      rw [hlock, if_pos rfl]
    · rename_i hi
      rw [hlock, if_neg hi]

theorem release (h : Agrees l r) (hr : r.Sound) (hs : l.step (.release k) = some l') :
    ∃ r', stepwise Registry.step r [.unlock k, .forget k] = some r' ∧ Agrees l' r' := by
  simp only [NamedLocks.step] at hs
  split at hs
  · rename_i name hk
    obtain ⟨i, hc⟩ : ∃ i, r.calls.get? k = some ⟨name, i, .holding⟩ := h.call_of_user hk
    cases hs
    refine h.lets_go hr hc (by simp) (·.giveBack) rfl ?_
    simp [Registry.step, hc]
  · cases hs

theorem leave (h : Agrees l r) (hr : r.Sound) (hs : l.step (.leave k) = some l') :
    ∃ r', stepwise Registry.step r [.giveUp k, .forget k] = some r' ∧ Agrees l' r' := by
  simp only [NamedLocks.step] at hs
  split at hs
  · rename_i name hk
    obtain ⟨i, hc⟩ : ∃ i, r.calls.get? k = some ⟨name, i, .waiting⟩ := h.call_of_user hk
    cases hs
    refine h.lets_go hr hc (by simp) (·.withdraw k) rfl ?_
    simp [Registry.step, hc]
  · cases hs

theorem sweep (h : Agrees l r) (hr : r.Sound) (hpos : 0 < r.ttl) (hs : l.step .sweep = some l') :
    Agrees l' (r.sweep r.now) := by
  cases hs
  refine ⟨h.ttl, h.now, h.users, fun name => ?_⟩
  simp only [Dict.get?_filter, h.entries]
  cases he : r.entries.get? name with
  | none => simp [Registry.sweep, he]
  | some e =>
      have hkeeps := hr.keeps_iff hpos he r.now
      rw [h.inUse_iff, ← h.ttl, ← h.now] at hkeeps
      rw [Registry.get?_sweep he, ← h.now]
      by_cases hkept : r.keeps l.now e = true
      · have hcondition := hkeeps.1 hkept
        rw [if_pos hkept]
        simp [Option.filter, hcondition, Registry.lock_sweep]
      · have hcondition := hkept
        rw [hkeeps] at hcondition
        rw [if_neg hkept]
        simp [Option.filter, hcondition]

theorem step (h : Agrees l r) (hr : r.Sound) (hpos : 0 < r.ttl) {label : LockStep κ} (hs : l.step label = some l') :
    ∃ r', stepwise Registry.step r label.inSteps = some r' ∧ Agrees l' r' := by
  cases label with
  | ask k name => exact h.ask hr hs
  | turn k => exact h.turn hr hs
  | release k => exact h.release hr hs
  | leave k => exact h.leave hr hs
  | sweep => exact ⟨_, rfl, h.sweep hr hpos hs⟩
  | wait millis =>
      cases hs
      exact ⟨_, rfl, h.ttl, congrArg (· + millis) h.now, h.users, h.entries⟩

theorem run (h : Agrees l r) (hr : r.Sound) (hpos : 0 < r.ttl) (hrun : stepwise NamedLocks.step l labels = some l') :
    ∃ r', stepwise Registry.step r (labels.flatMap LockStep.inSteps) = some r' ∧ Agrees l' r' := by
  induction labels generalizing l r with
  | nil =>
      cases hrun
      exact ⟨r, rfl, h⟩
  | cons label labels ih =>
      obtain ⟨m, hm, hrest⟩ := Option.bind_eq_some_iff.1 hrun
      obtain ⟨s, hs, hagrees⟩ := h.step hr hpos hm
      obtain ⟨hsound, httl⟩ := stepwise_keeps (P := fun s => s.Sound ∧ s.ttl = r.ttl) hs ⟨hr, rfl⟩
        fun _ _ _ _ ⟨hsound, httl⟩ hstep => ⟨hsound.step hstep, (Registry.ttl_step hstep).trans httl⟩
      obtain ⟨r', hr', hafter⟩ := ih hagrees hsound (httl ▸ hpos) hrest
      exact ⟨r', stepwise_trans hs hr', hafter⟩

end Agrees

/-- Every run of the named locks is a run of the registry. -/
theorem NamedLocks.run_of_registry {ttl : Nat} (hpos : 0 < ttl) {labels : List (LockStep κ)} {l : NamedLocks κ}
    (h : stepwise NamedLocks.step (.fresh ttl) labels = some l) :
    ∃ r, stepwise Registry.step (.fresh ttl) (labels.flatMap LockStep.inSteps) = some r ∧ Agrees l r :=
  (agrees_fresh ttl).run (Registry.sound_fresh ttl) hpos h

end PushMetrics.Lock
