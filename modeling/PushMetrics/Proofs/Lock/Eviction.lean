import PushMetrics.Proofs.Lock.Registry

/-!
# Exclusion and eviction

Sweeps take away entries while calls come and go. A name in use keeps its lock through any of them, so at most one
call holds it and those who wait get it in the order in which they came. A sweep takes away the entries that are not
in use and were last called long enough ago, and no others.
-/

namespace PushMetrics.Lock

variable {κ : Type} [DecidableEq κ]

namespace Moves

variable {l l' : SharedLock κ} {label : RegistryStep κ} {a b : CallStage} {i j k : κ}

theorem behind (m : Moves l i label a b l') (h : l.permits.Behind j k) (hn : l.permits.line.Nodup)
    (hi : a = .arriving → i ≠ j) : l'.permits.Behind j k := by
  cases m with
  | take hf => exact h.request (hi rfl)
  | queue hf => exact h.request (hi rfl)
  | collect hg => exact h.collect hg
  | unlock => exact h.giveBack hn
  | giveUp hs => exact h.withdraw hn i
  | forget => exact h

theorem of_waiting (m : Moves l i label a b l') (hi : a = .arriving → i ≠ j) (hj : j ∈ l'.permits.waiting) :
    j ∈ l.permits.waiting := by
  cases m with
  | take hf => simpa [Permits.request, hf] using hj
  | queue hf => simpa [Permits.request, hf, Ne.symm (hi rfl)] using hj
  | collect hg => exact hj
  | unlock => exact (Permits.waiting_giveBack_sublist _).subset hj
  | giveUp hs => exact (Permits.waiting_withdraw_sublist _ _).subset hj
  | forget => exact hj

/-- Whoever obtains a lock was not behind anybody who still waits. -/
theorem notMem_waiting {n : Nat} (m : Moves l k label a .holding l') (h : l.permits.Behind j k)
    (hn : l.permits.line.Nodup) (hb : l.permits.Balanced 1 n) : j ∉ l'.permits.waiting := by
  cases m with
  | take hf => simp [hb.waiting_request hf k]
  | collect hg => exact h.notMem_waiting hn hg

end Moves

namespace Registry

variable {r t : Registry κ} {label : RegistryStep κ} {j k : κ} {c d : Call} {name : String} {e : Registered} {i : Nat}
variable {labels more : List (RegistryStep κ)}

/-! ## One lock for all -/

theorem Sound.same_lock (h : r.Sound) (hj : r.calls.get? j = some c) (hk : r.calls.get? k = some d)
    (hc : c.stage ≠ .over) (hd : d.stage ≠ .over) (hname : c.name = d.name) : c.lock = d.lock := by
  obtain ⟨e, he, hlock⟩ := h.met k d hk hd
  rw [← hlock]
  exact (h.lock_eq_iff hj hc he).2 hname

theorem Sound.one_holder (h : r.Sound) (hj : r.calls.get? j = some c) (hk : r.calls.get? k = some d)
    (hc : c.stage = .holding) (hd : d.stage = .holding) (hname : c.name = d.name) : j = k := by
  have hlock := h.same_lock hj hk (by simp [hc]) (by simp [hd]) hname
  have htotal := (h.balanced d.lock).total
  have hone : r.holdersOn d.lock ≤ 1 := by omega
  exact Dict.eq_of_count_le_one hone hj (by simp [hlock, hc]) hk (by simp [hd])

/-! ## The order of calls -/

/-- As long as `j`, which has come before, waits for lock `i`, `k` does not hold it. -/
structure Precedes (r : Registry κ) (i : Nat) (j k : κ) : Prop where
  arrived : ∃ c, r.calls.get? j = some c ∧ c.stage ≠ .arriving
  behind : (r.lock i).permits.Behind j k
  unserved : j ∈ (r.lock i).permits.waiting → ∀ d, r.calls.get? k = some d → d.lock = i → d.stage ≠ .holding

theorem Sound.precedes (h : r.Sound) (hj : r.calls.get? j = some c) (hc : c.stage = .waiting)
    (hk : ∀ d, r.calls.get? k = some d → d.stage = .arriving) (i : Nat) : r.Precedes i j k where
  arrived := ⟨c, hj, by simp [hc]⟩
  behind := by
    refine Permits.behind_of_notMem fun hin => ?_
    obtain ⟨d, hd, -, hwaits⟩ := (h.queued i k).1 hin
    cases (hk d hd).symm.trans hwaits
  unserved _ d hd _ := by simp [hk d hd]

theorem Precedes.move {m : κ} {stage : CallStage} {l : SharedLock κ} (h : r.Precedes i j k) (hr : r.Sound)
    (hm : r.calls.get? m = some c) (hmove : Moves (r.lock c.lock) m label c.stage stage l) :
    (r.move m c stage l).Precedes i j k := by
  have hlock := lock_move (hr.lt_of_call hm hmove.ne_over) m stage l i
  obtain ⟨b, hb, hstage⟩ := h.arrived
  have hother : c.stage = .arriving → m ≠ j := by
    rintro harriving rfl
    cases hm.symm.trans hb
    exact hstage harriving
  refine ⟨?_, ?_, ?_⟩
  · by_cases hmj : m = j
    · subst hmj
      exact ⟨{ c with stage }, Dict.get?_put_self _ _ _, hmove.ne_arriving⟩
    · exact ⟨b, (Dict.get?_put_of_ne _ _ hmj).trans hb, hstage⟩
  · rw [hlock]
    split
    · rename_i hi
      subst hi
      exact hmove.behind h.behind (hr.nodup _) hother
    · exact h.behind
  · intro hj d hd hdi hholds
    rw [hlock] at hj
    rcases Dict.of_get?_put hd with ⟨rfl, rfl⟩ | ⟨-, hd⟩
    · rw [if_pos hdi] at hj
      subst hdi hholds
      exact hmove.notMem_waiting h.behind (hr.nodup _) (hr.balanced _) hj
    · refine h.unserved ?_ d hd hdi hholds
      split at hj
      · rename_i hi
        subst hi
        exact hmove.of_waiting hother hj
      · exact hj

/-- What changes neither the line of a lock nor the calls that have come to it keeps their order. -/
theorem Precedes.of_same (h : r.Precedes i j k) (hpermits : (t.lock i).permits = (r.lock i).permits)
    (hcalls : ∀ m d, t.calls.get? m = some d → r.calls.get? m = some d ∨ r.calls.get? m = none ∧ d.stage = .arriving)
    (hkept : ∀ m d, r.calls.get? m = some d → t.calls.get? m = some d) : t.Precedes i j k where
  arrived := by
    obtain ⟨b, hb, hstage⟩ := h.arrived
    exact ⟨b, hkept j b hb, hstage⟩
  behind := hpermits ▸ h.behind
  unserved hj d hd hdi := by
    rw [hpermits] at hj
    rcases hcalls k d hd with hbefore | ⟨-, harriving⟩
    · exact h.unserved hj d hbefore hdi
    · simp [harriving]

theorem lock_call (hr : r.Sound) (he : (r.make name).entries.get? name = some e) (k : κ) (i : Nat) :
    (((r.make name).share k name e).lock i).permits = (r.lock i).permits := by
  have hkept := entriesOn_pos he
  rw [permits_share ((hr.make name).lt_length (by omega)), lock_make]

theorem Precedes.step (h : r.Precedes i j k) (hr : r.Sound) (hs : r.step label = some t) : t.Precedes i j k := by
  cases steps_of_step hs with
  | @call m name e hm he =>
      refine h.of_same (lock_call hr he m i) (fun n d hn => ?_) fun n d hn => ?_
      · rcases Dict.of_get?_put hn with ⟨rfl, rfl⟩ | ⟨-, hn⟩
        · exact .inr ⟨hm, rfl⟩
        · exact .inl ((make_same r name).1 ▸ hn)
      · have hne : m ≠ n := by
          rintro rfl
          cases hm.symm.trans hn
        exact (Dict.get?_put_of_ne _ _ hne).trans ((make_same r name).1 ▸ hn)
  | move hm hmove => exact h.move hr hm hmove
  | sweep delay =>
      refine h.of_same ?_ (fun _ _ hn => .inl hn) fun _ _ hn => hn
      rw [lock_sweep]
  | wait millis => exact ⟨h.arrived, h.behind, h.unserved⟩

/-- Who comes to a name later does not hold its lock while an earlier one still waits. -/
theorem Precedes.not_held (h : r.Precedes c.lock j k) (hr : r.Sound) (hj : r.calls.get? j = some c)
    (hc : c.stage = .waiting) (hk : r.calls.get? k = some d) (hd : d.lock = c.lock) : d.stage ≠ .holding := by
  intro hholds
  rcases List.mem_append.1 ((hr.queued c.lock j).2 ⟨c, hj, rfl, hc⟩) with hgranted | hwaits
  · have htotal := (hr.balanced c.lock).total
    have hone := List.length_pos_of_mem hgranted
    have hholder : 0 < r.holdersOn c.lock := Dict.count_pos_iff.2 ⟨k, d, hk, by simp [hd, hholds]⟩
    omega
  · exact h.unserved hwaits d hk hd hholds

theorem obtained_in_order (hr : r.Sound) (hj : r.calls.get? j = some c) (hc : c.stage = .waiting)
    (hk : ∀ d, r.calls.get? k = some d → d.stage = .arriving) (ht : stepwise step r more = some t)
    (hd : t.calls.get? k = some d) (hholds : d.stage = .holding) (hname : d.name = c.name) :
    t.calls.get? j ≠ some c := by
  intro hstill
  obtain ⟨hsound, hprecedes⟩ := stepwise_keeps (P := fun t => t.Sound ∧ t.Precedes c.lock j k) ht
    ⟨hr, hr.precedes hj hc hk c.lock⟩ fun _ _ _ _ ⟨hsound, hprecedes⟩ hs =>
      ⟨hsound.step hs, hprecedes.step hsound hs⟩
  have hlock := hsound.same_lock hd hstill (by simp [hholds]) (by simp [hc]) hname
  exact hprecedes.not_held hsound hstill hc hd hlock hholds

/-! ## Entries in use -/

/-- A name is in use from when it is called until the lock, or the place in line for it, has been let go of. -/
def InUse (r : Registry κ) (name : String) : Prop :=
  ∃ k c, r.calls.get? k = some c ∧ c.name = name ∧ c.stage ≠ .over

omit [DecidableEq κ] in
theorem get?_sweep (he : r.entries.get? name = some e) (clock : Nat) :
    (r.sweep clock).entries.get? name = if r.keeps clock e then some e else none := by
  simp only [Registry.sweep, Dict.get?_filter, he]
  simp [Option.filter]

/-- No step takes the entry of a name in use away or gives it another lock. -/
theorem Sound.entry_stays (h : r.Sound) (hk : r.calls.get? k = some c) (hc : c.stage ≠ .over)
    (hs : r.step label = some t) : ∃ e, t.entries.get? c.name = some e ∧ e.lock = c.lock := by
  obtain ⟨e, he, hlock⟩ := h.met k c hk hc
  cases steps_of_step hs with
  | @call m name d hm hd =>
      by_cases hname : name = c.name
      · subst hname
        rw [make_of_some he] at hd ⊢
        cases he.symm.trans hd
        exact ⟨_, Dict.get?_put_self _ _ _, hlock⟩
      · exact ⟨e, (Dict.get?_put_of_ne _ _ hname).trans ((get?_make_of_ne hname).trans he), hlock⟩
  | move hm hmove => exact ⟨e, he, hlock⟩
  | sweep delay =>
      refine ⟨e, ?_, hlock⟩
      have hkept := keeps_of_call h hk hc he hlock (r.now - delay)
      rw [get?_sweep he, hkept]
      rfl
  | wait millis => exact ⟨e, he, hlock⟩

/-! ## What a sweep takes away -/

/-- When a name was last called in a run that begins at `now`; `last` is the last time before it. -/
def lastCall (name : String) : Nat → Option Nat → List (RegistryStep κ) → Option Nat
  | _, last, [] => last
  | now, last, .call _ n :: rest => lastCall name now (if n = name then some now else last) rest
  | now, last, .wait millis :: rest => lastCall name (now + millis) last rest
  | now, last, _ :: rest => lastCall name now last rest

theorem lastCall_move {l l' : SharedLock κ} {a b : CallStage} (m : Moves l k label a b l') (now : Nat)
    (last : Option Nat) : lastCall name now last (label :: labels) = lastCall name now last labels := by
  cases m <;> rfl

theorem lastCall_eq {last : Option Nat} (h : stepwise step r labels = some t)
    (hlast : ∀ e, r.entries.get? name = some e → last = some e.lastAsked) (he : t.entries.get? name = some e) :
    lastCall name r.now last labels = some e.lastAsked := by
  induction labels generalizing r last with
  | nil =>
      cases h
      exact hlast e he
  | cons label labels ih =>
      obtain ⟨s, hs, hrest⟩ := Option.bind_eq_some_iff.1 h
      cases steps_of_step hs with
      | @call k n d hk hd =>
          have hnow : ((r.make n).share k n d).now = r.now := (make_same r n).2.2
          rw [lastCall, ← hnow]
          refine ih hrest fun b hb => ?_
          rcases Dict.of_get?_put hb with ⟨rfl, rfl⟩ | ⟨hne, hb⟩
          · rw [if_pos rfl]
            rfl
          · rw [if_neg hne]
            exact hlast b ((get?_make_of_ne hne).symm.trans hb)
      | move hk hm =>
          have hnext := ih hrest hlast
          rw [lastCall_move hm]
          exact hnext
      | sweep delay =>
          have hkept : ∀ e, (r.sweep (r.now - delay)).entries.get? name = some e → last = some e.lastAsked := by
            intro b hb
            simp only [Registry.sweep, Dict.get?_filter] at hb
            exact hlast b (Option.filter_eq_some_iff.1 hb).1
          have hnext := ih hrest hkept
          exact hnext
      | wait millis =>
          have hnext := ih hrest hlast
          exact hnext

theorem Sound.callsOn_pos_iff (h : r.Sound) (he : r.entries.get? name = some e) :
    0 < r.callsOn e.lock ↔ r.InUse name := by
  rw [callsOn, Dict.count_pos_iff]
  constructor
  · rintro ⟨k, c, hk, hc⟩
    simp only [Bool.and_eq_true, beq_iff_eq, bne_iff_ne] at hc
    exact ⟨k, c, hk, (h.lock_eq_iff hk hc.2 he).1 hc.1, hc.2⟩
  · rintro ⟨k, c, hk, hname, hc⟩
    refine ⟨k, c, hk, ?_⟩
    simpa [hc] using (h.lock_eq_iff hk hc he).2 hname

/-- The references to a lock are enough to see whether its name is in use. -/
theorem Sound.keeps_iff (h : r.Sound) (hpos : 0 < r.ttl) (he : r.entries.get? name = some e) (clock : Nat) :
    r.keeps clock e = true ↔ r.InUse name ∨ clock < e.lastAsked + r.ttl := by
  have hreferences := h.references_of_entry he
  rw [← h.callsOn_pos_iff he]
  simp only [keeps, Bool.or_eq_true, decide_eq_true_eq]
  omega

theorem ttl_step (hs : r.step label = some t) : t.ttl = r.ttl := by
  cases steps_of_step hs with
  | call hk he => exact (make_same r _).2.1
  | move hk hm => rfl
  | sweep delay => rfl
  | wait millis => rfl

theorem ttl_of_stepwise {ttl : Nat} (h : stepwise step (fresh ttl) labels = some r) : r.ttl = ttl :=
  stepwise_keeps (P := fun r => r.ttl = ttl) h rfl fun _ _ _ _ hr hs => (ttl_step hs).trans hr

/-- However calls, sweeps and time take turns, a lock has at most one holder; calls of one name that are not over
share the lock that is kept under the name, which no step takes away; who waits obtains it before all who come later;
and a sweep takes away just the entries that are not in use and were last called a time to live ago or before. -/
theorem eviction_keeps_exclusion {ttl : Nat} (hpos : 0 < ttl) (h : stepwise step (fresh ttl) labels = some r) :
    (∀ j k c d, r.calls.get? j = some c → r.calls.get? k = some d →
      c.stage = .holding → d.stage = .holding → c.name = d.name → j = k) ∧
    (∀ j k c d, r.calls.get? j = some c → r.calls.get? k = some d →
      c.stage ≠ .over → d.stage ≠ .over → c.name = d.name → c.lock = d.lock) ∧
    (∀ k c, r.calls.get? k = some c → c.stage ≠ .over →
      (∃ e, r.entries.get? c.name = some e ∧ e.lock = c.lock) ∧
      ∀ label t, r.step label = some t → ∃ e, t.entries.get? c.name = some e ∧ e.lock = c.lock) ∧
    (∀ j k c, r.calls.get? j = some c → c.stage = .waiting →
      (∀ d, r.calls.get? k = some d → d.stage = .arriving) →
      ∀ more t d, stepwise step r more = some t → t.calls.get? k = some d → d.stage = .holding → d.name = c.name →
        t.calls.get? j ≠ some c) ∧
    ∀ delay, ∃ t, r.step (.sweep delay) = some t ∧
      (∀ name, r.entries.get? name = none → t.entries.get? name = none) ∧
      ∀ name e, r.entries.get? name = some e → ∃ asked, lastCall name 0 none labels = some asked ∧
        (¬ r.InUse name ∧ asked + ttl ≤ r.now - delay → t.entries.get? name = none) ∧
        (r.InUse name ∨ r.now - delay < asked + ttl → t.entries.get? name = some e) := by
  have hr := sound_of_stepwise h
  have httl := ttl_of_stepwise h
  refine ⟨?_, ?_, ?_, ?_, fun delay => ⟨r.sweep (r.now - delay), rfl, ?_, ?_⟩⟩
  · intro j k c d hj hk hc hd hname
    exact hr.one_holder hj hk hc hd hname
  · intro j k c d hj hk hc hd hname
    exact hr.same_lock hj hk hc hd hname
  · intro k c hk hc
    exact ⟨hr.met k c hk hc, fun label t hs => hr.entry_stays hk hc hs⟩
  · intro j k c hj hc hk more t d ht hd hholds hname
    exact obtained_in_order hr hj hc hk ht hd hholds hname
  · intro name hnone
    simp [Registry.sweep, hnone]
  · intro name e he
    have hkeeps := hr.keeps_iff (httl.symm ▸ hpos) he (r.now - delay)
    rw [httl] at hkeeps
    refine ⟨e.lastAsked, lastCall_eq h (fun e he => by cases he) he, ?_, ?_⟩
    · rintro ⟨hidle, hold⟩
      have hgone : ¬ r.keeps (r.now - delay) e = true := by
        rw [hkeeps]
        rintro (hused | hrecent)
        · exact hidle hused
        · omega
      rw [get?_sweep he, if_neg hgone]
    · intro hkept
      rw [get?_sweep he, if_pos (hkeeps.2 hkept)]

/-- A lock that is held, waited for and given up, passed on, swept and made anew. -/
def reuse : List (RegistryStep Nat) :=
  [.call 0 "a", .ask 0, .call 1 "a", .ask 1, .call 2 "a", .ask 2, .giveUp 1, .wait 60, .sweep 0, .unlock 0, .turn 2,
    .forget 0, .forget 1, .unlock 2, .forget 2, .sweep 5, .call 3 "a", .ask 3, .call 4 "a", .ask 4]

theorem eviction_keeps_exclusion_reuse :
    0 < 50 ∧ ∃ r, stepwise step (fresh 50) reuse = some r ∧ r.calls.get? 3 = some ⟨"a", 1, .holding⟩ ∧
      r.calls.get? 4 = some ⟨"a", 1, .waiting⟩ ∧
      (∀ more t d, stepwise step r more = some t → t.calls.get? 5 = some d → d.stage = .holding → d.name = "a" →
        t.calls.get? 4 ≠ some ⟨"a", 1, .waiting⟩) ∧
      ∃ e, r.entries.get? "a" = some e ∧ e.lock = 1 := by
  have hpos : 0 < 50 := by decide
  have hrun : ∃ r, stepwise step (fresh 50) reuse = some r ∧ r.calls.get? 3 = some ⟨"a", 1, .holding⟩ ∧
      r.calls.get? 4 = some ⟨"a", 1, .waiting⟩ ∧ r.calls.get? 5 = none :=
    ⟨_, rfl, by decide⟩
  obtain ⟨r, hr, hholds, hwaits, hnew⟩ := hrun
  obtain ⟨-, -, hkept, horder, -⟩ := eviction_keeps_exclusion hpos hr
  exact ⟨hpos, r, hr, hholds, hwaits, horder 4 5 _ hwaits rfl (by simp [hnew]), (hkept 3 _ hholds (by simp)).1⟩

end Registry

end PushMetrics.Lock
