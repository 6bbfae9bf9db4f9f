import PushMetrics.Lock.Named
import PushMetrics.Proofs.Dict
import PushMetrics.Proofs.Permits
import PushMetrics.Proofs.Run

/-!
# Who owns a named lock

The lock of a name has at most one owner at any time, also while sweeps take entries away and users make them
anew: an entry that is taken away has no owner and no line, so a new one is as good as the old one.
-/

namespace PushMetrics.Lock.NamedLocks

variable {κ : Type} [DecidableEq κ]

/-- The pool of a name; a name without an entry has an unused one. -/
def pool (l : NamedLocks κ) (name : String) : Permits κ := (l.entry name).permits

/-- The number of users who hold the lock of a name. -/
def holders (l : NamedLocks κ) (name : String) : Nat := l.users.count (· == ⟨name, .held⟩)

/-- The lock of every name is in balance with its users: its one permit is free, granted or held, and its line
consists of those who wait. -/
structure Sound (l : NamedLocks κ) : Prop where
  balanced : ∀ name, (l.pool name).Balanced 1 (l.holders name)
  nodup : ∀ name, (l.pool name).line.Nodup
  queued : ∀ name k, k ∈ (l.pool name).line ↔ l.users.get? k = some ⟨name, .waiting⟩

theorem sound_fresh (ttl : Nat) : (fresh ttl : NamedLocks κ).Sound where
  balanced _ := Permits.balanced_full 1
  nodup _ := List.nodup_nil
  queued name k := by
    have hpool : (fresh ttl : NamedLocks κ).pool name = .full 1 := rfl
    rw [hpool]
    simp [fresh]

variable {l l' : NamedLocks κ} {k : κ} {name : String}

theorem Sound.exclusive (h : l.Sound) {j : κ} (hj : l.users.get? j = some ⟨name, .held⟩)
    (hk : l.users.get? k = some ⟨name, .held⟩) : j = k := by
  have hone : l.holders name ≤ 1 := by
    have := (h.balanced name).total
    omega
  exact Dict.eq_of_count_le_one hone hj (by simp) hk (by simp)

theorem Sound.holders_pos (hk : l.users.get? k = some ⟨name, .held⟩) : 0 < l.holders name :=
  Dict.count_pos_iff.2 ⟨k, _, hk, by simp⟩

theorem Sound.present (h : l.Sound) {phase : UserPhase} (hk : l.users.get? k = some ⟨name, phase⟩)
    (hp : phase = .waiting ∨ phase = .held) : ∃ e, l.entries.get? name = some e := by
  cases he : l.entries.get? name with
  | some e => exact ⟨e, rfl⟩
  | none =>
      exfalso
      have hpool : l.pool name = .full 1 := by simp [pool, entry, he]
      rcases hp with rfl | rfl
      · have := (h.queued name k).2 hk
        simp [hpool] at this
      · have hb := (h.balanced name).total
        have := Sound.holders_pos hk
        simp only [hpool, Permits.full, List.length_nil] at hb
        omega

/-! ## What a step does -/

/-- `l'` is `l` with a user of a name in a phase, and with the pool of that name as given. -/
structure Moves (l l' : NamedLocks κ) (k : κ) (name : String) (phase : UserPhase) (p : Permits κ) : Prop where
  users : l'.users = l.users.put k ⟨name, phase⟩
  pool : ∀ n, l'.pool n = if name = n then p else l.pool n

theorem moves_changeEntry (he : ∃ e, l.entries.get? name = some e) (f : Permits κ → Permits κ) (k : κ)
    (phase : UserPhase) :
    Moves l ((l.changeEntry name f).setPhase k name phase) k name phase (f (l.pool name)) := by
  obtain ⟨e, he⟩ := he
  constructor
  · simp [setPhase, changeEntry, he]
  · intro n
    by_cases hn : name = n
    · subst hn
      simp [pool, entry, setPhase, changeEntry, he]
    · simp [pool, entry, setPhase, changeEntry, he, hn]

theorem step_ask (h : l.step (.ask k name) = some l') :
    l.users.get? k = none ∧
      Moves l l' k name (if ((l.pool name).request k).1 then .held else .waiting) ((l.pool name).request k).2 := by
  simp only [step] at h
  split at h
  · cases h
  · rename_i hnew
    cases h
    refine ⟨by simpa using hnew, rfl, fun n => ?_⟩
    by_cases hn : name = n
    · subst hn
      simp [pool, entry, setPhase]
    · simp [pool, entry, setPhase, hn]

theorem step_turn (hl : l.Sound) (h : l.step (.turn k) = some l') :
    ∃ name, l.users.get? k = some ⟨name, .waiting⟩ ∧ k ∈ (l.pool name).granted ∧
      Moves l l' k name .held ((l.pool name).collect k) := by
  simp only [step] at h
  split at h
  · rename_i name hk
    split at h
    · rename_i hg
      cases h
      exact ⟨name, hk, Permits.isGranted_iff.1 hg, moves_changeEntry (hl.present hk (.inl rfl)) _ k .held⟩
    · cases h
  · cases h

theorem step_release (hl : l.Sound) (h : l.step (.release k) = some l') :
    ∃ name, l.users.get? k = some ⟨name, .held⟩ ∧ Moves l l' k name .released (l.pool name).giveBack := by
  simp only [step] at h
  split at h
  · rename_i name hk
    cases h
    exact ⟨name, hk, moves_changeEntry (hl.present hk (.inr rfl)) _ k .released⟩
  · cases h

theorem step_leave (hl : l.Sound) (h : l.step (.leave k) = some l') :
    ∃ name, l.users.get? k = some ⟨name, .waiting⟩ ∧ Moves l l' k name .gone ((l.pool name).withdraw k) := by
  simp only [step] at h
  split at h
  · rename_i name hk
    cases h
    exact ⟨name, hk, moves_changeEntry (hl.present hk (.inl rfl)) _ k .gone⟩
  · cases h

theorem isUsed_iff : l.isUsed name ↔
    ∃ k phase, l.users.get? k = some ⟨name, phase⟩ ∧ (phase = .waiting ∨ phase = .held) := by
  simp only [isUsed, List.any_eq_true, Dict.mem_values_iff]
  constructor
  · rintro ⟨⟨n, phase⟩, ⟨k, hk⟩, hu⟩
    obtain ⟨rfl, hphase⟩ : n = name ∧ (phase = .waiting ∨ phase = .held) := by simpa using hu
    exact ⟨k, phase, hk, hphase⟩
  · rintro ⟨k, phase, hk, hu⟩
    exact ⟨_, ⟨k, hk⟩, by simpa using hu⟩

/-- The pool of a name that nobody uses is as good as new. -/
theorem Sound.pool_of_unused (h : l.Sound) (hu : ¬ l.isUsed name) : l.pool name = .full 1 := by
  have hunused : ∀ k phase, l.users.get? k = some ⟨name, phase⟩ → ¬ (phase = .waiting ∨ phase = .held) :=
    fun k phase hk hp => hu (isUsed_iff.2 ⟨k, phase, hk, hp⟩)
  have hline : (l.pool name).line = [] := by
    rw [List.eq_nil_iff_forall_not_mem]
    exact fun k hk => hunused k .waiting ((h.queued name k).1 hk) (.inl rfl)
  have hholders : l.holders name = 0 := by
    by_contra hne
    obtain ⟨k, u, hk, hheld⟩ := Dict.count_pos_iff.1 (Nat.pos_of_ne_zero hne)
    obtain rfl : u = ⟨name, .held⟩ := by simpa using hheld
    exact hunused k .held hk (.inr rfl)
  obtain ⟨hg, hw⟩ := List.append_eq_nil_iff.1 hline
  have hfree := (hholders ▸ h.balanced name).free_eq hg
  cases hp : l.pool name with
  | mk free waiting granted =>
      rw [hp] at hg hw hfree
      simp only at hg hw hfree
      rw [hg, hw, hfree]
      rfl

theorem step_sweep (hl : l.Sound) (h : l.step .sweep = some l') :
    l'.users = l.users ∧ ∀ n, l'.pool n = l.pool n := by
  cases h
  refine ⟨rfl, fun n => ?_⟩
  cases he : l.entries.get? n with
  | none => simp [pool, entry, he]
  | some e =>
      by_cases hkept : l.isUsed n || l.now < e.lastAsked + l.ttl
      · simp [pool, entry, he, Option.filter, hkept]
      · have hu : ¬ l.isUsed n := by
          simp only [Bool.or_eq_true, not_or] at hkept
          exact hkept.1
        rw [hl.pool_of_unused hu]
        simp [pool, entry, he, Option.filter, hkept]

theorem step_wait {millis : Nat} (h : l.step (.wait millis) = some l') :
    l'.users = l.users ∧ ∀ n, l'.pool n = l.pool n := by
  cases h
  refine ⟨rfl, fun n => ?_⟩
  cases he : l.entries.get? n <;> simp [pool, entry, he]

/-! ## Every step keeps the balance -/

theorem Moves.users_self {phase : UserPhase} {p : Permits κ} (m : Moves l l' k name phase p) :
    l'.users.get? k = some ⟨name, phase⟩ := by
  rw [m.users, Dict.get?_put_self]

theorem Moves.users_of_ne {phase : UserPhase} {p : Permits κ} (m : Moves l l' k name phase p) {j : κ}
    (hj : k ≠ j) : l'.users.get? j = l.users.get? j := by
  rw [m.users, Dict.get?_put_of_ne _ _ hj]

theorem Moves.holders {phase : UserPhase} {p : Permits κ} (m : Moves l l' k name phase p)
    (hk : ∀ u, l.users.get? k = some u → u.name = name) (n : String) :
    l'.holders n + (if name = n ∧ l.users.get? k = some ⟨name, .held⟩ then 1 else 0)
      = l.holders n + (if name = n ∧ phase = .held then 1 else 0) := by
  have hc := Dict.count_put (· == ⟨n, .held⟩) l.users k ⟨name, phase⟩
  rw [NamedLocks.holders, NamedLocks.holders, m.users]
  cases hold : l.users.get? k with
  | none =>
      simp only [hold, Option.toList_none, List.countP_nil] at hc
      simpa [List.countP_cons] using hc
  | some u =>
      obtain ⟨uname, uphase⟩ := u
      obtain rfl : uname = name := hk _ hold
      simp only [hold, Option.toList_some, List.countP_cons, List.countP_nil] at hc
      simpa using hc

/-- A move within the balance of its lock keeps the balance of all. -/
theorem Moves.sound {phase : UserPhase} {p : Permits κ} (m : Moves l l' k name phase p) (h : l.Sound)
    (hk : ∀ u, l.users.get? k = some u → u.name = name) (hp : p.Balanced 1 (l'.holders name)) (hn : p.line.Nodup)
    (hq : ∀ j, j ∈ p.line ↔ l'.users.get? j = some ⟨name, .waiting⟩) : l'.Sound := by
  refine ⟨fun n => ?_, fun n => ?_, fun n j => ?_⟩ <;> rw [m.pool n] <;> by_cases hname : name = n
  · subst hname
    rwa [if_pos rfl]
  · have hcount := m.holders hk n
    simp only [hname, false_and, ↓reduceIte, Nat.add_zero] at hcount
    rw [if_neg hname, hcount]
    exact h.balanced n
  · rwa [if_pos hname]
  · rw [if_neg hname]
    exact h.nodup n
  · subst hname
    rw [if_pos rfl]
    exact hq j
  · rw [if_neg hname, h.queued n j]
    by_cases hj : k = j
    · subst hj
      rw [m.users_self]
      have hother : l.users.get? k ≠ some ⟨n, .waiting⟩ := fun e => hname (hk _ e).symm
      simp [hother, hname]
    · rw [m.users_of_ne hj]

theorem Sound.ask (h : l.Sound) (hs : l.step (.ask k name) = some l') : l'.Sound := by
  obtain ⟨hnew, m⟩ := step_ask hs
  have hline := Permits.line_request (l.pool name) k
  have hcount := m.holders (by simp [hnew]) name
  have hfresh : k ∉ (l.pool name).line := fun hk => by simp [(h.queued name k).1 hk] at hnew
  have hb := h.balanced name
  rcases Nat.eq_zero_or_pos (l.pool name).free with hf | hf
  · obtain ⟨hwait, hbal⟩ := hb.request_of_full hf k
    simp only [hwait, Bool.false_eq_true, ↓reduceIte] at m hline hcount
    simp only [hnew, reduceCtorEq, and_false, ↓reduceIte, Nat.add_zero] at hcount
    refine m.sound h (by simp [hnew]) (hcount ▸ hbal) ?_ fun j => ?_
    · rw [hline]
      exact List.nodup_append.2 ⟨h.nodup name, by simp, by simpa using fun j hj => ne_of_mem_of_not_mem hj hfresh⟩
    · rw [hline, List.mem_append, h.queued name j, List.mem_singleton]
      by_cases hj : k = j
      · subst hj
        simp [m.users_self]
      · rw [m.users_of_ne hj]
        simp [Ne.symm hj]
  · obtain ⟨hheld, hbal⟩ := hb.request_of_free hf k
    simp only [hheld, ↓reduceIte] at m hline hcount
    simp only [hnew, reduceCtorEq, and_false, and_self, ↓reduceIte, Nat.add_zero] at hcount
    refine m.sound h (by simp [hnew]) (hcount ▸ hbal) (hline ▸ h.nodup name) fun j => ?_
    rw [hline, h.queued name j]
    by_cases hj : k = j
    · subst hj
      simp [m.users_self, hnew]
    · rw [m.users_of_ne hj]

theorem Moves.queued_of_erase {phase : UserPhase} {p : Permits κ} (m : Moves l l' k name phase p) (h : l.Sound)
    (hphase : phase ≠ .waiting) (hline : p.line = (l.pool name).line.erase k) (j : κ) :
    j ∈ p.line ↔ l'.users.get? j = some ⟨name, .waiting⟩ := by
  rw [hline, (h.nodup name).mem_erase_iff, h.queued name j]
  by_cases hj : k = j
  · subst hj
    simp [m.users_self, hphase]
  · rw [m.users_of_ne hj]
    simp [Ne.symm hj]

theorem Sound.turn (h : l.Sound) (hs : l.step (.turn k) = some l') : l'.Sound := by
  obtain ⟨name, hk, hg, m⟩ := step_turn h hs
  have hname : ∀ u, l.users.get? k = some u → u.name = name := by simp [hk]
  have hcount := m.holders hname name
  simp only [hk, Option.some.injEq, User.mk.injEq, reduceCtorEq, and_false, and_self, ↓reduceIte,
    Nat.add_zero] at hcount
  have hline := Permits.line_collect hg
  refine m.sound h hname (hcount ▸ (h.balanced name).collect hg) ?_ (m.queued_of_erase h (by simp) hline)
  exact hline ▸ (h.nodup name).erase k

theorem Sound.release (h : l.Sound) (hs : l.step (.release k) = some l') : l'.Sound := by
  obtain ⟨name, hk, m⟩ := step_release h hs
  have hname : ∀ u, l.users.get? k = some u → u.name = name := by simp [hk]
  have hcount := m.holders hname name
  simp only [hk, reduceCtorEq, and_false, and_self, ↓reduceIte, Nat.add_zero] at hcount
  have hb := h.balanced name
  rw [← hcount] at hb
  refine m.sound h hname hb.giveBack (by simpa using h.nodup name) fun j => ?_
  rw [Permits.line_giveBack, h.queued name j]
  by_cases hj : k = j
  · subst hj
    simp [m.users_self, hk]
  · rw [m.users_of_ne hj]

theorem Sound.leave (h : l.Sound) (hs : l.step (.leave k) = some l') : l'.Sound := by
  obtain ⟨name, hk, m⟩ := step_leave h hs
  have hname : ∀ u, l.users.get? k = some u → u.name = name := by simp [hk]
  have hcount := m.holders hname name
  simp only [hk, Option.some.injEq, User.mk.injEq, reduceCtorEq, and_false, ↓reduceIte, Nat.add_zero] at hcount
  have hline := Permits.line_withdraw (l.pool name) k
  refine m.sound h hname (hcount ▸ (h.balanced name).withdraw k) ?_ (m.queued_of_erase h (by simp) hline)
  exact hline ▸ (h.nodup name).erase k

/-- A step that changes neither users nor pools keeps the balance. -/
theorem Sound.of_same (h : l.Sound) (hs : l'.users = l.users ∧ ∀ n, l'.pool n = l.pool n) : l'.Sound := by
  obtain ⟨husers, hpool⟩ := hs
  refine ⟨fun n => ?_, fun n => ?_, fun n k => ?_⟩
  · rw [hpool, holders, husers]
    exact h.balanced n
  · rw [hpool]
    exact h.nodup n
  · rw [hpool, husers]
    exact h.queued n k

theorem Sound.step {label : LockStep κ} (h : l.Sound) (hs : l.step label = some l') : l'.Sound := by
  cases label with
  | ask k name => exact h.ask hs
  | turn k => exact h.turn hs
  | release k => exact h.release hs
  | leave k => exact h.leave hs
  | sweep => exact h.of_same (step_sweep h hs)
  | wait millis => exact h.of_same (step_wait hs)

end PushMetrics.Lock.NamedLocks
