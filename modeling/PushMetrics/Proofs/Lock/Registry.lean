import PushMetrics.Lock.Registry
import PushMetrics.Proofs.Dict
import PushMetrics.Proofs.Permits
import PushMetrics.Proofs.Run

/-!
# The references to a named lock

The number of references to a lock is the number of entries and calls that refer to it. So whoever calls a name while
others use it meets them at the lock that is kept under the name.
-/

namespace PushMetrics.Lock

/-! ## What a call does to its lock -/

/-- A step that takes a call from one stage to another, and its lock `l` with it. -/
inductive Moves {κ : Type} [DecidableEq κ] (l : SharedLock κ) (k : κ) :
    RegistryStep κ → CallStage → CallStage → SharedLock κ → Prop where
  | take (hf : 0 < l.permits.free) :
      Moves l k (.ask k) .arriving .holding { l with permits := (l.permits.request k).2 }
  | queue (hf : l.permits.free = 0) :
      Moves l k (.ask k) .arriving .waiting { l with permits := (l.permits.request k).2 }
  | collect (hg : k ∈ l.permits.granted) :
      Moves l k (.turn k) .waiting .holding { l with permits := l.permits.collect k }
  | unlock : Moves l k (.unlock k) .holding .leaving { l with permits := l.permits.giveBack }
  | giveUp {stage : CallStage} (hs : stage = .arriving ∨ stage = .waiting) :
      Moves l k (.giveUp k) stage .leaving { l with permits := l.permits.withdraw k }
  | forget : Moves l k (.forget k) .leaving .over { l with references := l.references - 1 }

variable {κ : Type} [DecidableEq κ]

namespace Moves

variable {l l' : SharedLock κ} {k : κ} {label : RegistryStep κ} {a b : CallStage}

theorem ne_over (m : Moves l k label a b l') : a ≠ .over := by
  cases m with
  | take hf => simp
  | queue hf => simp
  | collect hg => simp
  | unlock => simp
  | giveUp hs => rcases hs with rfl | rfl <;> simp
  | forget => simp

theorem ne_arriving (m : Moves l k label a b l') : b ≠ .arriving := by
  cases m <;> simp

theorem references_eq (m : Moves l k label a b l') (h : 0 < l.references) :
    l'.references + (if b = .over then 1 else 0) = l.references := by
  cases m with
  | forget => simp only [↓reduceIte]; omega
  | _ => rfl

theorem balanced {n n' : Nat} (m : Moves l k label a b l') (h : l.permits.Balanced 1 n)
    (hn : n' + (if a = .holding then 1 else 0) = n + if b = .holding then 1 else 0) : l'.permits.Balanced 1 n' := by
  cases m with
  | take hf =>
      obtain rfl : n' = n + 1 := by simpa using hn
      exact (h.request_of_free hf k).2
  | queue hf =>
      obtain rfl : n' = n := by simpa using hn
      exact (h.request_of_full hf k).2
  | collect hg =>
      obtain rfl : n' = n + 1 := by simpa using hn
      exact h.collect hg
  | unlock =>
      obtain rfl : n = n' + 1 := by simpa using hn.symm
      exact h.giveBack
  | giveUp hs =>
      obtain rfl : n' = n := by rcases hs with rfl | rfl <;> simpa using hn
      exact h.withdraw k
  | forget =>
      obtain rfl : n' = n := by simpa using hn
      exact h

/-- A call is in line for its lock while it waits, and nobody else comes or goes. -/
theorem line (m : Moves l k label a b l') (hn : l.permits.line.Nodup) (hk : k ∈ l.permits.line ↔ a = .waiting) :
    l'.permits.line.Nodup ∧ (k ∈ l'.permits.line ↔ b = .waiting) ∧
      ∀ j, k ≠ j → (j ∈ l'.permits.line ↔ j ∈ l.permits.line) := by
  have herase : (l.permits.line.erase k).Nodup ∧ k ∉ l.permits.line.erase k ∧
      ∀ j, k ≠ j → (j ∈ l.permits.line.erase k ↔ j ∈ l.permits.line) :=
    ⟨hn.erase k, hn.not_mem_erase, fun j hj => List.mem_erase_of_ne (Ne.symm hj)⟩
  cases m with
  | take hf =>
      rw [Permits.line_request_of_free hf k]
      exact ⟨hn, by simpa using hk, fun _ _ => .rfl⟩
  | queue hf =>
      have hout : k ∉ l.permits.line := by simp [hk]
      rw [Permits.line_request_of_full hf k]
      refine ⟨?_, by simp, fun j hj => by simp [Ne.symm hj]⟩
      exact List.nodup_append.2 ⟨hn, by simp, fun i hi j hj he => hout (List.mem_singleton.1 hj ▸ he ▸ hi)⟩
  | collect hg =>
      rw [Permits.line_collect hg]
      simpa using herase
  | unlock =>
      rw [Permits.line_giveBack]
      exact ⟨hn, by simpa using hk, fun _ _ => .rfl⟩
  | giveUp hs =>
      rw [Permits.line_withdraw]
      simpa using herase
  | forget => exact ⟨hn, by simpa using hk, fun _ _ => .rfl⟩

end Moves

namespace Registry

variable {r r' : Registry κ} {label : RegistryStep κ} {k : κ} {c : Call} {name : String} {e : Registered} {i : Nat}

inductive Steps (r : Registry κ) : RegistryStep κ → Registry κ → Prop where
  | call {k : κ} {name : String} {e : Registered} (hk : r.calls.get? k = none)
      (he : (r.make name).entries.get? name = some e) : Steps r (.call k name) ((r.make name).share k name e)
  | move {label : RegistryStep κ} {k : κ} {c : Call} {stage : CallStage} {l : SharedLock κ}
      (hk : r.calls.get? k = some c) (hm : Moves (r.lock c.lock) k label c.stage stage l) :
      Steps r label (r.move k c stage l)
  | sweep (delay : Nat) : Steps r (.sweep delay) (r.sweep (r.now - delay))
  | wait (millis : Nat) : Steps r (.wait millis) { r with now := r.now + millis }

theorem steps_of_step (h : r.step label = some r') : Steps r label r' := by
  cases label with
  | call k name =>
      simp only [step] at h
      split at h
      · cases h
      · rename_i hk
        obtain ⟨e, he, rfl⟩ := Option.map_eq_some_iff.1 h
        exact .call (Option.not_isSome_iff_eq_none.1 hk) he
  | ask k =>
      simp only [step] at h
      split at h
      · rename_i name i hk
        by_cases hf : 0 < (r.lock i).permits.free
        · have hmove := Steps.move hk (.take hf)
          simp only [Permits.request, hf, ↓reduceIte] at h hmove
          cases h
          exact hmove
        · have hmove := Steps.move hk (.queue (Nat.eq_zero_of_not_pos hf))
          simp only [Permits.request, hf, Bool.false_eq_true, ↓reduceIte] at h hmove
          cases h
          exact hmove
      · cases h
  | turn k =>
      simp only [step] at h
      split at h
      · rename_i name i hk
        split at h
        · rename_i hg
          cases h
          exact .move hk (.collect (Permits.isGranted_iff.1 hg))
        · cases h
      · cases h
  | unlock k =>
      simp only [step] at h
      split at h
      · rename_i name i hk
        cases h
        exact .move hk .unlock
      · cases h
  | giveUp k =>
      simp only [step] at h
      split at h
      · rename_i c hk
        split at h
        · rename_i hs
          cases h
          exact .move hk (.giveUp hs)
        · cases h
      · cases h
  | forget k =>
      simp only [step] at h
      split at h
      · rename_i name i hk
        cases h
        exact .move hk .forget
      · cases h
  | sweep delay =>
      cases h
      exact .sweep delay
  | wait millis =>
      cases h
      exact .wait millis

theorem step_ask (hk : r.calls.get? k = some ⟨name, i, .arriving⟩) :
    r.step (.ask k) = some (r.move k ⟨name, i, .arriving⟩
      (if ((r.lock i).permits.request k).1 then .holding else .waiting)
      { r.lock i with permits := ((r.lock i).permits.request k).2 }) := by
  simp [step, hk]

/-! ## References -/

def entriesOn (r : Registry κ) (i : Nat) : Nat := r.entries.count (·.lock == i)

/-- How many calls refer to a lock. -/
def callsOn (r : Registry κ) (i : Nat) : Nat := r.calls.count fun c => c.lock == i && c.stage != .over

def holdersOn (r : Registry κ) (i : Nat) : Nat := r.calls.count fun c => c.lock == i && c.stage == .holding

/-- The references to each lock are counted, its one permit is free, granted or held, and its line consists of the
calls that wait. Calls of one name that are not over refer to the lock that is kept under the name. -/
structure Sound (r : Registry κ) : Prop where
  counted : ∀ i, (r.lock i).references = r.entriesOn i + r.callsOn i
  balanced : ∀ i, (r.lock i).permits.Balanced 1 (r.holdersOn i)
  nodup : ∀ i, (r.lock i).permits.line.Nodup
  queued : ∀ i k, k ∈ (r.lock i).permits.line ↔
    ∃ c, r.calls.get? k = some c ∧ c.lock = i ∧ c.stage = .waiting
  distinct : ∀ i, r.entriesOn i ≤ 1
  met : ∀ k c, r.calls.get? k = some c → c.stage ≠ .over →
    ∃ e, r.entries.get? c.name = some e ∧ e.lock = c.lock

omit [DecidableEq κ] in
theorem lock_fresh (ttl i : Nat) : (fresh ttl : Registry κ).lock i = ⟨.full 1, 0⟩ := rfl

theorem sound_fresh (ttl : Nat) : (fresh ttl : Registry κ).Sound where
  counted i := rfl
  balanced i := Permits.balanced_full 1
  nodup i := List.nodup_nil
  queued i k := by
    rw [lock_fresh]
    simp [fresh]
  distinct i := Nat.zero_le 1
  met k c hk := by cases hk

omit [DecidableEq κ] in
theorem lock_of_length_le (h : r.locks.length ≤ i) : r.lock i = ⟨.full 1, 0⟩ := by
  simp [lock, List.getD, List.getElem?_eq_none h]

omit [DecidableEq κ] in
theorem entriesOn_pos (he : r.entries.get? name = some e) : 0 < r.entriesOn e.lock :=
  Dict.count_pos_iff.2 ⟨name, e, he, by simp⟩

theorem callsOn_pos (hk : r.calls.get? k = some c) (hc : c.stage ≠ .over) : 0 < r.callsOn c.lock :=
  Dict.count_pos_iff.2 ⟨k, c, hk, by simpa using hc⟩

theorem Sound.lt_length (h : r.Sound) (hpos : 0 < r.entriesOn i + r.callsOn i) : i < r.locks.length := by
  by_contra hge
  have hcounted := h.counted i
  rw [lock_of_length_le (Nat.le_of_not_lt hge)] at hcounted
  simp only at hcounted
  omega

theorem Sound.lt_of_call (h : r.Sound) (hk : r.calls.get? k = some c) (hc : c.stage ≠ .over) :
    c.lock < r.locks.length := by
  have hused := callsOn_pos hk hc
  exact h.lt_length (by omega)

theorem Sound.references_of_entry (h : r.Sound) (he : r.entries.get? name = some e) :
    (r.lock e.lock).references = 1 + r.callsOn e.lock := by
  have hcounted := h.counted e.lock
  have hdistinct := h.distinct e.lock
  have hpos := entriesOn_pos he
  omega

theorem Sound.lock_eq_iff (h : r.Sound) (hk : r.calls.get? k = some c) (hc : c.stage ≠ .over)
    (he : r.entries.get? name = some e) : c.lock = e.lock ↔ c.name = name := by
  obtain ⟨d, hd, hlock⟩ := h.met k c hk hc
  constructor
  · intro hsame
    exact Dict.eq_of_count_le_one (h.distinct e.lock) hd (by simp [hlock, hsame]) he (by simp)
  · rintro rfl
    rw [hd] at he
    cases he
    exact hlock.symm

/-! ## A call goes on -/

omit [DecidableEq κ] in
theorem getD_set {locks : List (SharedLock κ)} {l d : SharedLock κ} {j : Nat} (h : i < locks.length) :
    (locks.set i l).getD j d = if i = j then l else locks.getD j d := by
  simp only [List.getD, List.getElem?_set, h, ↓reduceIte]
  split <;> rfl

theorem lock_move (h : c.lock < r.locks.length) (k : κ) (stage : CallStage) (l : SharedLock κ) (i : Nat) :
    (r.move k c stage l).lock i = if c.lock = i then l else r.lock i := getD_set h

theorem count_move (hk : r.calls.get? k = some c) (stage : CallStage) (l : SharedLock κ) (p : Call → Bool) :
    (r.move k c stage l).calls.count p + (if p c then 1 else 0) = r.calls.count p + if p { c with stage } then 1 else 0 := by
  have hput := Dict.count_put p r.calls k { c with stage }
  rw [hk] at hput
  simpa [move, List.countP_cons] using hput

theorem count_move_of_ne (hk : r.calls.get? k = some c) (hi : c.lock ≠ i) (stage : CallStage) (l : SharedLock κ)
    (q : Call → Bool) :
    (r.move k c stage l).calls.count (fun c => c.lock == i && q c) = r.calls.count fun c => c.lock == i && q c := by
  have hcount := count_move hk stage l fun c => c.lock == i && q c
  simpa [beq_eq_false_iff_ne.2 hi] using hcount

section Move

variable {stage : CallStage} {l : SharedLock κ}

theorem Sound.counted_move (h : r.Sound) (hk : r.calls.get? k = some c)
    (m : Moves (r.lock c.lock) k label c.stage stage l) (i : Nat) :
    ((r.move k c stage l).lock i).references = (r.move k c stage l).entriesOn i + (r.move k c stage l).callsOn i := by
  have hentries : (r.move k c stage l).entriesOn i = r.entriesOn i := rfl
  rw [lock_move (h.lt_of_call hk m.ne_over), hentries]
  by_cases hi : c.lock = i
  · subst hi
    have hcounted := h.counted c.lock
    have hused := callsOn_pos hk m.ne_over
    have hreferences := m.references_eq (by omega)
    have hcalls := count_move hk stage l fun d => d.lock == c.lock && d.stage != .over
    rw [if_pos rfl, callsOn]
    rw [callsOn] at hcounted
    have hbefore := m.ne_over
    by_cases hover : stage = .over
    · subst hover
      simp only [↓reduceIte] at hreferences
      simp [hbefore] at hcalls
      omega
    · simp only [hover, ↓reduceIte] at hreferences
      simp [hbefore, hover] at hcalls
      omega
  · rw [if_neg hi, callsOn, count_move_of_ne hk hi]
    exact h.counted i

theorem Sound.balanced_move (h : r.Sound) (hk : r.calls.get? k = some c)
    (m : Moves (r.lock c.lock) k label c.stage stage l) (i : Nat) :
    ((r.move k c stage l).lock i).permits.Balanced 1 ((r.move k c stage l).holdersOn i) := by
  rw [lock_move (h.lt_of_call hk m.ne_over)]
  by_cases hi : c.lock = i
  · subst hi
    rw [if_pos rfl]
    refine m.balanced (h.balanced c.lock) ?_
    simpa [holdersOn] using count_move hk stage l fun d => d.lock == c.lock && d.stage == .holding
  · rw [if_neg hi, holdersOn, count_move_of_ne hk hi]
    exact h.balanced i

theorem Sound.queued_move (h : r.Sound) (hk : r.calls.get? k = some c)
    (m : Moves (r.lock c.lock) k label c.stage stage l) (i : Nat) :
    ((r.move k c stage l).lock i).permits.line.Nodup ∧ ∀ j, j ∈ ((r.move k c stage l).lock i).permits.line ↔
      ∃ d, (r.move k c stage l).calls.get? j = some d ∧ d.lock = i ∧ d.stage = .waiting := by
  have hwaits : k ∈ (r.lock c.lock).permits.line ↔ c.stage = .waiting := by
    rw [h.queued c.lock k, hk]
    simp
  obtain ⟨hnodup, hself, hothers⟩ := m.line (h.nodup c.lock) hwaits
  rw [lock_move (h.lt_of_call hk m.ne_over)]
  by_cases hi : c.lock = i
  · subst hi
    rw [if_pos rfl]
    refine ⟨hnodup, fun j => ?_⟩
    by_cases hj : k = j
    · subst hj
      rw [Registry.move, Dict.get?_put_self]
      simpa using hself
    · rw [Registry.move, Dict.get?_put_of_ne _ _ hj, ← h.queued c.lock j]
      exact hothers j hj
  · rw [if_neg hi]
    refine ⟨h.nodup i, fun j => ?_⟩
    by_cases hj : k = j
    · subst hj
      rw [Registry.move, Dict.get?_put_self, h.queued i k, hk]
      simp [hi]
    · rw [Registry.move, Dict.get?_put_of_ne _ _ hj]
      exact h.queued i j

theorem Sound.move (h : r.Sound) (hk : r.calls.get? k = some c) (m : Moves (r.lock c.lock) k label c.stage stage l) :
    (r.move k c stage l).Sound where
  counted := h.counted_move hk m
  balanced := h.balanced_move hk m
  nodup i := (h.queued_move hk m i).1
  queued i := (h.queued_move hk m i).2
  distinct := h.distinct
  met j d hj hd := by
    rcases Dict.of_get?_put hj with ⟨rfl, rfl⟩ | ⟨-, hj⟩
    · exact h.met k c hk m.ne_over
    · exact h.met j d hj hd

end Move

/-! ## A new call -/

omit [DecidableEq κ] in
theorem make_of_some (he : r.entries.get? name = some e) : r.make name = r := by
  rw [make, if_pos (by simp [he])]

omit [DecidableEq κ] in
theorem make_of_none (hnone : r.entries.get? name = none) :
    r.make name = { r with
      locks := r.locks ++ [⟨.full 1, 1⟩]
      entries := r.entries.put name ⟨r.locks.length, r.now⟩ } := by
  rw [make, if_neg (by simp [hnone])]

omit [DecidableEq κ] in
/-- A new entry changes nothing but the locks and the entries. -/
theorem make_same (r : Registry κ) (name : String) :
    (r.make name).calls = r.calls ∧ (r.make name).ttl = r.ttl ∧ (r.make name).now = r.now := by
  unfold make
  split <;> exact ⟨rfl, rfl, rfl⟩

omit [DecidableEq κ] in
theorem get?_make_of_ne {n : String} (h : name ≠ n) : (r.make name).entries.get? n = r.entries.get? n := by
  unfold make
  split
  · rfl
  · exact Dict.get?_put_of_ne _ _ h

omit [DecidableEq κ] in
theorem lock_make (r : Registry κ) (name : String) (i : Nat) :
    (r.make name).lock i =
      { r.lock i with references :=
          (r.lock i).references + if r.entries.get? name = none ∧ r.locks.length = i then 1 else 0 } := by
  cases hentry : r.entries.get? name with
  | some e => simp [make_of_some hentry]
  | none =>
      rw [make_of_none hentry]
      rcases Nat.lt_trichotomy i r.locks.length with hlt | rfl | hgt
      · simp [lock, List.getD, List.getElem?_append_left hlt, Nat.ne_of_gt hlt]
      · rw [lock_of_length_le (Nat.le_refl _)]
        simp [lock, List.getD]
      · rw [lock_of_length_le (Nat.le_of_lt hgt), lock_of_length_le (by simp; omega)]
        simp [Nat.ne_of_lt hgt]

omit [DecidableEq κ] in
theorem entriesOn_make (hnone : r.entries.get? name = none) (i : Nat) :
    (r.make name).entriesOn i = r.entriesOn i + if r.locks.length = i then 1 else 0 := by
  have hput := Dict.count_put (·.lock == i) r.entries name ⟨r.locks.length, r.now⟩
  rw [hnone] at hput
  simpa [make_of_none hnone, entriesOn, List.countP_cons] using hput

theorem Sound.make (h : r.Sound) (name : String) : (r.make name).Sound := by
  cases hentry : r.entries.get? name with
  | some e =>
      rw [make_of_some hentry]
      exact h
  | none =>
      obtain ⟨hcalls, -⟩ := make_same r name
      have hpermits : ∀ i, ((r.make name).lock i).permits = (r.lock i).permits := fun i => by rw [lock_make]
      refine ⟨fun i => ?_, fun i => ?_, fun i => ?_, fun i k => ?_, fun i => ?_, fun k c hk hc => ?_⟩
      · rw [lock_make, entriesOn_make hentry, callsOn, hcalls, ← callsOn, h.counted i]
        simp only [hentry, true_and]
        omega
      · rw [hpermits, holdersOn, hcalls]
        exact h.balanced i
      · rw [hpermits]
        exact h.nodup i
      · rw [hpermits, hcalls]
        exact h.queued i k
      · rw [entriesOn_make hentry]
        split
        · rename_i hi
          have hnew : ¬ 0 < r.entriesOn i + r.callsOn i := fun hpos => by
            have := h.lt_length hpos
            omega
          omega
        · exact h.distinct i
      · rw [hcalls] at hk
        obtain ⟨e, he, hlock⟩ := h.met k c hk hc
        have hne : name ≠ c.name := by
          rintro rfl
          cases hentry.symm.trans he
        exact ⟨e, (get?_make_of_ne hne).trans he, hlock⟩

theorem lock_share (h : e.lock < r.locks.length) (k : κ) (name : String) (i : Nat) :
    (r.share k name e).lock i =
      if e.lock = i then { r.lock e.lock with references := (r.lock e.lock).references + 1 } else r.lock i :=
  getD_set h

theorem permits_share (h : e.lock < r.locks.length) (k : κ) (name : String) (i : Nat) :
    ((r.share k name e).lock i).permits = (r.lock i).permits := by
  rw [lock_share h]
  split
  · rename_i hi
    rw [hi]
  · rfl

theorem entriesOn_share (he : r.entries.get? name = some e) (k : κ) (i : Nat) :
    (r.share k name e).entriesOn i = r.entriesOn i := by
  have hput := Dict.count_put (·.lock == i) r.entries name { e with lastAsked := r.now }
  rw [he] at hput
  simpa [entriesOn, Registry.share, List.countP_cons] using hput

theorem count_share (hk : r.calls.get? k = none) (name : String) (e : Registered) (p : Call → Bool) :
    (r.share k name e).calls.count p = r.calls.count p + if p ⟨name, e.lock, .arriving⟩ then 1 else 0 := by
  have hput := Dict.count_put p r.calls k ⟨name, e.lock, .arriving⟩
  rw [hk] at hput
  simpa [Registry.share, List.countP_cons] using hput

theorem get?_entries_call (r : Registry κ) (k : κ) (name : String) (e : Registered) (n : String) :
    ((r.make name).share k name e).entries.get? n
      = if name = n then some { e with lastAsked := r.now } else r.entries.get? n := by
  rw [Registry.share, Dict.get?_put, (make_same r name).2.2]
  split
  · rfl
  · rename_i hn
    exact get?_make_of_ne hn

theorem get?_calls_call (r : Registry κ) (k : κ) (name : String) (e : Registered) (j : κ) :
    ((r.make name).share k name e).calls.get? j
      = if k = j then some ⟨name, e.lock, .arriving⟩ else r.calls.get? j := by
  rw [Registry.share, Dict.get?_put, (make_same r name).1]

theorem Sound.met_share (h : r.Sound) (he : r.entries.get? name = some e) {j : κ}
    (hj : (r.share k name e).calls.get? j = some c) (hc : c.stage ≠ .over) :
    ∃ d, (r.share k name e).entries.get? c.name = some d ∧ d.lock = c.lock := by
  have hput : (r.share k name e).entries.get? name = some { e with lastAsked := r.now } := Dict.get?_put_self _ _ _
  rcases Dict.of_get?_put hj with ⟨rfl, rfl⟩ | ⟨-, hj⟩
  · exact ⟨_, hput, rfl⟩
  · obtain ⟨d, hd, hsame⟩ := h.met j c hj hc
    by_cases hname : name = c.name
    · subst hname
      cases he.symm.trans hd
      exact ⟨_, hput, hsame⟩
    · exact ⟨d, (Dict.get?_put_of_ne _ _ hname).trans hd, hsame⟩

theorem Sound.share (h : r.Sound) (hk : r.calls.get? k = none) (he : r.entries.get? name = some e) :
    (r.share k name e).Sound := by
  have hkept := entriesOn_pos he
  have hlock : e.lock < r.locks.length := h.lt_length (by omega)
  refine ⟨fun i => ?_, fun i => ?_, fun i => ?_, fun i j => ?_, fun i => ?_, fun j c => h.met_share he⟩
  · have hcounted := h.counted i
    rw [entriesOn_share he, lock_share hlock, callsOn, count_share hk]
    rw [callsOn] at hcounted
    by_cases hi : e.lock = i
    · subst hi
      simp
      omega
    · simp [hi]
      omega
  · rw [permits_share hlock, holdersOn, count_share hk]
    simpa [holdersOn] using h.balanced i
  · rw [permits_share hlock]
    exact h.nodup i
  · rw [permits_share hlock, h.queued i j]
    by_cases hj : k = j
    · subst hj
      simp [Registry.share, hk]
    · simp [Registry.share, hj]
  · rw [entriesOn_share he]
    exact h.distinct i

/-! ## A sweep -/

omit [DecidableEq κ] in
theorem lock_dropReferences (es : List Registered) (locks : List (SharedLock κ)) (i : Nat) :
    (es.foldl dropReference locks).getD i ⟨.full 1, 0⟩ =
      { locks.getD i ⟨.full 1, 0⟩ with
        references := (locks.getD i ⟨.full 1, 0⟩).references - es.countP (·.lock == i) } := by
  induction es generalizing locks with
  | nil => rfl
  | cons e es ih =>
      rw [List.foldl_cons, ih]
      simp only [dropReference, List.getD, List.getElem?_modify, List.countP_cons]
      cases hi : locks[i]? with
      | none => simp
      | some l =>
          by_cases he : e.lock = i
          · simp [he]
            omega
          · simp [he]

/-- The entries that a sweep takes away. -/
def swept (r : Registry κ) (clock : Nat) : List Registered := r.entries.values.filter (!r.keeps clock ·)

omit [DecidableEq κ] in
theorem lock_sweep (r : Registry κ) (clock i : Nat) :
    (r.sweep clock).lock i =
      { r.lock i with references := (r.lock i).references - (r.swept clock).countP (·.lock == i) } :=
  lock_dropReferences _ _ _

omit [DecidableEq κ] in
theorem entriesOn_sweep (r : Registry κ) (clock i : Nat) :
    (r.sweep clock).entriesOn i + (r.swept clock).countP (·.lock == i) = r.entriesOn i := by
  have hvalues : (r.sweep clock).entries.values = r.entries.values.filter (r.keeps clock) := by
    simp only [sweep, Dict.filter, Dict.values, List.filter_map]
    rfl
  rw [entriesOn, entriesOn, Dict.count, Dict.count, hvalues, swept]
  exact (List.countP_eq_countP_filter_add _ _ _).symm

theorem keeps_of_call (h : r.Sound) (hk : r.calls.get? k = some c) (hc : c.stage ≠ .over)
    (he : r.entries.get? c.name = some e) (hlock : e.lock = c.lock) (clock : Nat) : r.keeps clock e = true := by
  have hreferences := h.references_of_entry he
  have hused := callsOn_pos hk hc
  have htwo : 1 < (r.lock e.lock).references := by
    rw [hlock] at hreferences ⊢
    omega
  simp [keeps, htwo]

theorem Sound.sweep (h : r.Sound) (clock : Nat) : (r.sweep clock).Sound := by
  have hpermits : ∀ i, ((r.sweep clock).lock i).permits = (r.lock i).permits := fun i => by rw [lock_sweep]
  refine ⟨fun i => ?_, fun i => ?_, fun i => ?_, fun i k => ?_, fun i => ?_, fun k c hk hc => ?_⟩
  · have hcounted := h.counted i
    have hentries := entriesOn_sweep r clock i
    have hcalls : (r.sweep clock).callsOn i = r.callsOn i := rfl
    rw [lock_sweep, hcalls]
    simp only
    omega
  · rw [hpermits]
    exact h.balanced i
  · rw [hpermits]
    exact h.nodup i
  · rw [hpermits]
    exact h.queued i k
  · have hdistinct := h.distinct i
    have hentries := entriesOn_sweep r clock i
    omega
  · obtain ⟨e, he, hlock⟩ := h.met k c hk hc
    refine ⟨e, ?_, hlock⟩
    have hkept := keeps_of_call h hk hc he hlock clock
    simp only [Registry.sweep, Dict.get?_filter, he]
    simp [Option.filter, hkept]

/-! ## Every step keeps the references -/

theorem Sound.steps (h : r.Sound) (hs : Steps r label r') : r'.Sound := by
  cases hs with
  | call hk he =>
      refine (h.make _).share ?_ he
      rw [(make_same r _).1]
      exact hk
  | move hk hm => exact h.move hk hm
  | sweep delay => exact h.sweep _
  | wait millis => exact ⟨h.counted, h.balanced, h.nodup, h.queued, h.distinct, h.met⟩

theorem Sound.step (h : r.Sound) (hs : r.step label = some r') : r'.Sound := h.steps (steps_of_step hs)

theorem sound_of_stepwise {ttl : Nat} {labels : List (RegistryStep κ)}
    (h : stepwise step (fresh ttl) labels = some r) : r.Sound :=
  stepwise_keeps (P := Sound) h (sound_fresh ttl) fun _ _ _ _ hr hs => hr.step hs

end Registry

end PushMetrics.Lock
