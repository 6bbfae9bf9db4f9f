import PushMetrics.Proofs.Manager.Serving
import PushMetrics.Proofs.Store.Realization

/-!
# Requests merge

Resolving goes by what is pending, laid over the store as it was; that is the same as going by a store to which
every result has been written at once. So a request answers with its metrics merged one after another.
-/

namespace PushMetrics.Manager

variable {σ : Type} {b : Backend σ} {takes : Metric → Prop} {holds : σ → Contents → Prop}

/-- `p` over `base` has under every name what `c` has. -/
def Overlays (p : Pending) (base c : Contents) : Prop := ∀ name, c.get? name = (p.get? name).or (base.get? name)

theorem overlays_empty (c : Contents) : Overlays Dict.empty c c := fun _ => rfl

theorem Overlays.save {p : Pending} {base c : Contents} (h : Overlays p base c) (m : Metric) :
    Overlays (p.put m.name m.sample) base (c.save m) := by
  intro name
  rw [Contents.get?_save, Dict.get?_put]
  split
  · rfl
  · exact h name

theorem Overlays.same_saveAll {p : Pending} {base c : Contents} (h : Overlays p base c) {ms : List Metric}
    (hms : ms.Perm (Contents.metrics p)) : (base.saveAll ms).Same c :=
  fun name => (Contents.get?_saveAll_metrics hms name).trans (h name).symm

/-! ## Resolving -/

theorem resolve_eq_merged (hb : b.Realizes takes holds) {s : σ} {base c : Contents} (hs : holds s base) {p : Pending}
    (hp : Overlays p base c) (m : Metric) :
    (resolve b p m s).1 = .ok (c.merged m).sample ∧ holds (resolve b p m s).2 base := by
  have hm := Contents.merged_eq c m
  unfold resolve
  cases hk : m.sample with
  | gauge value =>
      refine ⟨?_, hs⟩
      rw [hm, hk, Sample.merge_gauge]
  | counter count =>
      rw [hm, hp m.name, hk]
      cases hpend : p.get? m.name with
      | some prior => exact ⟨rfl, hs⟩
      | none =>
          obtain ⟨hafter, found, hget, hfound⟩ := hb.get hs m.name
          cases hg : b.get m.name s with
          | mk result after =>
              rw [hg] at hget hafter
              obtain rfl : result = .ok found := hget
              exact ⟨congrArg Except.ok (Sample.merge_counter_congr hfound count), hafter⟩

theorem takes_merged (hb : b.Realizes takes holds) (c : Contents) {m : Metric} (hm : takes m) : takes (c.merged m) := by
  rw [Contents.merged_eq]
  obtain ⟨name, sample⟩ := m
  cases sample with
  | gauge value =>
      rw [Sample.merge_gauge]
      exact hm
  | counter count => cases c.get? name with
    | none => exact hm
    | some prior => cases prior <;> exact hb.counter name _

/-- Resolving metrics against what is pending over a store gives the results of merging them one after another, and
what is pending over the store is then what merging leaves. -/
theorem resolveAll_eq_mergeAll (hb : b.Realizes takes holds) {s : σ} {base c : Contents} (hs : holds s base)
    {p : Pending} (hp : Overlays p base c) (hpending : ∀ m ∈ Contents.metrics p, takes m) {ms : List Metric}
    (hms : ∀ m ∈ ms, takes m) :
    ∃ after final, resolveAll b p ms s = (.ok ((c.mergeAll ms).1, after), final) ∧ holds final base ∧
      Overlays after base (c.mergeAll ms).2 ∧ ∀ m ∈ Contents.metrics after, takes m := by
  induction ms generalizing s c p with
  | nil => exact ⟨p, s, rfl, hs, hp, hpending⟩
  | cons m rest ih =>
      obtain ⟨hresolved, hleft⟩ := resolve_eq_merged hb hs hp m
      have hname := Contents.name_merged c m
      have hsaved := hname ▸ hp.save (c.merged m)
      have htakes : ∀ n ∈ Contents.metrics (p.put m.name (c.merged m).sample), takes n := by
        intro n hn
        rw [← hname] at hn
        rcases Contents.of_mem_metrics_save hn with rfl | hold
        · exact takes_merged hb c (hms m List.mem_cons_self)
        · exact hpending n hold
      obtain ⟨after, final, hrest, hfinal, hover⟩ := ih hleft hsaved htakes
        fun n hn => hms n (List.mem_cons_of_mem m hn)
      refine ⟨after, final, ?_, hfinal, hover⟩
      rw [resolveAll]
      cases hr : resolve b p m s with
      | mk result left =>
          rw [hr] at hresolved hrest
          obtain rfl : result = .ok (c.merged m).sample := hresolved
          have hmetric : (⟨m.name, (c.merged m).sample⟩ : Metric) = c.merged m := by rw [← hname]
          simp only [hrest, hmetric, Contents.mergeAll]

/-! ## Requests -/

/-- An order in which what is pending is handed to the store. -/
structure Emptying where
  order : List Metric → List Metric
  perm : ∀ ms, (order ms).Perm ms

/-- A backend to which batches are handed over in a given order. -/
def emptiedBy (e : Emptying) (b : Backend σ) : Backend σ :=
  { b with apply := fun
      | .saveBatch ms => b.apply (.saveBatch (e.order ms))
      | change => b.apply change }

def Emptying.asItStands : Emptying := ⟨id, fun _ => .refl _⟩

theorem emptiedBy_asItStands (b : Backend σ) : emptiedBy .asItStands b = b := by
  have happly : (emptiedBy .asItStands b).apply = b.apply := by
    funext change
    cases change <;> rfl
  rw [emptiedBy] at happly ⊢
  exact congrArg (fun apply => { b with apply }) happly

theorem resolveAll_emptiedBy (e : Emptying) (p : Pending) (ms : List Metric) (s : σ) :
    resolveAll (emptiedBy e b) p ms s = resolveAll b p ms s := by
  induction ms generalizing p s with
  | nil => rfl
  | cons m rest ih =>
      have hresolve : resolve (emptiedBy e b) p m s = resolve b p m s := rfl
      simp only [resolveAll, hresolve, ih]

variable (e : Emptying)

theorem save_eq_merged (hb : b.Realizes takes holds) {s : σ} {c : Contents} (hs : holds s c) {m : Metric}
    (hm : takes m) :
    (save (emptiedBy e b) m s).1 = .ok (c.merged m) ∧ holds (save (emptiedBy e b) m s).2 (c.save (c.merged m)) := by
  obtain ⟨hresolved, hleft⟩ := resolve_eq_merged hb hs (overlays_empty c) m
  have hresolve : resolve (emptiedBy e b) Dict.empty m s = resolve b Dict.empty m s := rfl
  have hmetric : (⟨m.name, (c.merged m).sample⟩ : Metric) = c.merged m := by rw [← Contents.name_merged c m]
  have htakes : ∀ n ∈ Change.metrics (.save (c.merged m)), takes n :=
    fun n hn => List.mem_singleton.1 hn ▸ takes_merged hb c hm
  obtain ⟨hok, hafter⟩ := hb.apply hleft htakes
  unfold save
  rw [hresolve]
  cases hr : resolve b Dict.empty m s with
  | mk result left =>
      rw [hr] at hresolved hok hafter
      obtain rfl : result = .ok (c.merged m).sample := hresolved
      simp only [hmetric, emptiedBy]
      cases ha : b.apply (.save (c.merged m)) left with
      | mk result after =>
          rw [ha] at hok hafter
          obtain rfl : result = .ok () := hok
          exact ⟨rfl, hafter⟩

theorem saveBatch_eq_mergeAll (hb : b.Realizes takes holds) {s : σ} {c : Contents} (hs : holds s c) {ms : List Metric}
    (hms : ∀ m ∈ ms, takes m) :
    (saveBatch (emptiedBy e b) ms s).1 = .ok (c.mergeAll ms).1 ∧
      holds (saveBatch (emptiedBy e b) ms s).2 (c.mergeAll ms).2 := by
  unfold saveBatch
  split
  · rename_i hempty
    obtain rfl := List.isEmpty_iff.1 hempty
    exact ⟨rfl, hs⟩
  · obtain ⟨pending, left, hresolved, hleft, hover, htakes⟩ := resolveAll_eq_mergeAll hb hs (overlays_empty c) nofun hms
    have horder : ∀ m ∈ Change.metrics (.saveBatch (e.order (Contents.metrics pending))), takes m :=
      fun m hm => htakes m ((e.perm _).mem_iff.1 hm)
    obtain ⟨hok, hafter⟩ := hb.apply hleft horder
    have hfinal := hb.same hafter (hover.same_saveAll (e.perm _))
    rw [resolveAll_emptiedBy, hresolved]
    simp only [emptiedBy]
    cases ha : b.apply (.saveBatch (e.order (Contents.metrics pending))) left with
    | mk result after =>
        rw [ha] at hok hfinal
        obtain rfl : result = .ok () := hok
        exact ⟨rfl, hfinal⟩

/-- A request answers with its metrics merged one after another, and leaves what that leaves. -/
theorem Request.serve_eq_mergeAll (hb : b.Realizes takes holds) {s : σ} {c : Contents} (hs : holds s c) (r : Request)
    (hr : ∀ m ∈ r.metrics, takes m) :
    (r.serve (emptiedBy e b) s).1 = .ok (c.mergeAll r.metrics).1 ∧
      holds (r.serve (emptiedBy e b) s).2 (c.mergeAll r.metrics).2 := by
  cases r with
  | save m =>
      obtain ⟨hok, hafter⟩ := save_eq_merged e hb hs (hr m List.mem_cons_self)
      refine ⟨?_, hafter⟩
      rw [serve, hok]
      rfl
  | saveBatch ms => exact saveBatch_eq_mergeAll e hb hs hr

theorem Request.serve_memory_eq_mergeAll {s : Memory} {c : Contents} (hs : s.Holds c) (r : Request) :
    (r.serve Memory.backend s).1 = .ok (c.mergeAll r.metrics).1 ∧
      (r.serve Memory.backend s).2.Holds (c.mergeAll r.metrics).2 :=
  emptiedBy_asItStands Memory.backend ▸ r.serve_eq_mergeAll .asItStands Memory.backend_realizes hs fun _ _ => trivial

end PushMetrics.Manager
