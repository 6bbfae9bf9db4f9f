import Mathlib.Data.List.Permutation
import PushMetrics.Proofs.Manager.Serializability

/-!
# Requests side by side

A state that requests have reached side by side is explained by an order of some of them: served one at a time in
this order, they give the same answers and leave the same store. Those are the requests that have written or that
were answered. A request that was dropped before it wrote is not among them, so it has no effect.
-/

namespace PushMetrics.Manager

open Lock

def RequestStage.isAnswered : RequestStage → Bool
  | .ended (some _) => true
  | _ => false

theorem RequestStage.isAnswered_iff {stage : RequestStage} :
    stage.isAnswered = true ↔ ∃ answer, stage = .ended (some answer) := by
  cases stage with
  | ended answer => cases answer <;> simp [isAnswered]
  | _ => simp [isAnswered]

/-- An order of requests that explains a state, reached from a given store. -/
structure Explains (first : Memory) (t : Traffic Memory) (line : List (Nat × Request)) : Prop where
  distinct : (line.map (·.1)).Nodup
  members : ∀ id r, (id, r) ∈ line ↔
    ∃ stage, t.works.get? id = some ⟨r, stage⟩ ∧ (id ∈ t.written ∨ ∃ answer, stage = .ended (some answer))
  answers : ∀ id r answer, t.works.get? id = some ⟨r, .ended (some answer)⟩ →
    ((id, r), answer) ∈ line.zip (serveAll Memory.backend (line.map (·.2)) first).1
  store : (serveAll Memory.backend (line.map (·.2)) first).2 = t.store

namespace Traffic

/-- The requests that were answered although they have not written. -/
def idle (t : Traffic Memory) : List (Nat × Request) :=
  (t.works.entries.filter fun e => e.2.stage.isAnswered && e.1 ∉ t.written).map fun e => (e.1, e.2.request)

/-- The metrics of the requests that have written, in the order of writing. -/
def applied (t : Traffic Memory) : List Metric :=
  t.written.flatMap fun id => (t.works.get? id).elim [] (·.request.metrics)

theorem mem_idle_iff {t : Traffic Memory} {id : Nat} {r : Request} :
    (id, r) ∈ t.idle ↔ id ∉ t.written ∧ ∃ answer, t.works.get? id = some ⟨r, .ended (some answer)⟩ := by
  simp only [idle, List.mem_map, List.mem_filter, Bool.and_eq_true, RequestStage.isAnswered_iff, decide_eq_true_eq]
  constructor
  · rintro ⟨⟨j, r', stage⟩, ⟨hin, ⟨answer, hstage⟩, hout⟩, he⟩
    cases he
    obtain rfl : stage = .ended (some answer) := hstage
    exact ⟨hout, answer, Dict.get?_eq_some_iff.2 hin⟩
  · rintro ⟨hout, answer, hid⟩
    exact ⟨_, ⟨Dict.get?_eq_some_iff.1 hid, ⟨answer, rfl⟩, hout⟩, rfl⟩

theorem nodup_idle (t : Traffic Memory) : (t.idle.map (·.1)).Nodup := by
  rw [idle, List.map_map]
  exact t.works.nodup.sublist (List.filter_sublist.map _)

end Traffic

variable {first : Memory} {t : Traffic Memory} {log : List Writing} {id : Nat} {r : Request}
  {answer : Except StorageError (List Metric)}

/-! ## Answers -/

/-- A request that was answered without writing would get the same answer now. -/
theorem Serial.serve_idle (h : Serial first t log) (hid : t.works.get? id = some ⟨r, .ended (some answer)⟩)
    (hout : id ∉ t.written) : r.serve Memory.backend t.store = (answer, t.store) := by
  have haccounted : Accounted t.store log id r (some answer) := (h.works id _ hid).progress
  rw [h.written] at hout
  cases answer with
  | error e =>
      obtain ⟨-, hne, rfl, hclosed⟩ := haccounted
      exact Request.serve_of_closed hclosed hne
  | ok results =>
      rcases haccounted with hin | ⟨-, hempty, rfl⟩
      · exact absurd (List.mem_map_of_mem hin) hout
      · exact Request.serve_of_empty hempty _

/-- A request that has written and was answered was answered with what it has written. -/
theorem Serial.logged (h : Serial first t log) (hid : t.works.get? id = some ⟨r, .ended (some answer)⟩)
    (hin : id ∈ t.written) : ∃ results, answer = .ok results ∧ ⟨id, r, results⟩ ∈ log := by
  have haccounted : Accounted t.store log id r (some answer) := (h.works id _ hid).progress
  rw [h.written] at hin
  cases answer with
  | error e => exact absurd hin haccounted.1
  | ok results =>
      rcases haccounted with hlog | ⟨hout, -⟩
      · exact ⟨results, rfl, hlog⟩
      · exact absurd hin hout

/-- Those that have written, in the order of their writing, and then those that had nothing to write. -/
theorem Serial.explains (h : Serial first t log) :
    Explains first t (log.map (fun e => (e.id, e.request)) ++ t.idle) := by
  have hids : (log.map fun e => (e.id, e.request)).map (·.1) = t.written := by
    rw [List.map_map, h.written]
    rfl
  have hidle : serveAll Memory.backend (t.idle.map (·.2)) t.store
      = ((t.idle.map (·.2)).map fun r => (r.serve Memory.backend t.store).1, t.store) := by
    refine serveAll_of_idle fun r hr => ?_
    obtain ⟨⟨id, r⟩, hmem, rfl⟩ := List.mem_map.1 hr
    obtain ⟨hout, answer, hid⟩ := Traffic.mem_idle_iff.1 hmem
    rw [h.serve_idle hid hout]
  have hserved : serveAll Memory.backend ((log.map (fun e => (e.id, e.request)) ++ t.idle).map (·.2)) first
      = (log.map (fun e => .ok e.results) ++ (t.idle.map (·.2)).map fun r => (r.serve Memory.backend t.store).1,
        t.store) := by
    have hrequests : (log.map fun e => (e.id, e.request)).map (·.2) = log.map (·.request) := by
      rw [List.map_map]
      rfl
    rw [List.map_append, hrequests, serveAll_append, h.served, hidle]
  refine ⟨?_, ?_, ?_, congrArg Prod.snd hserved⟩
  · rw [List.map_append, hids, List.nodup_append]
    refine ⟨h.written ▸ h.distinct, t.nodup_idle, fun a ha b hb hab => ?_⟩
    obtain ⟨⟨id, r⟩, hmem, rfl⟩ := List.mem_map.1 hb
    obtain rfl : a = id := hab
    exact (Traffic.mem_idle_iff.1 hmem).1 ha
  · intro id r
    rw [List.mem_append, Traffic.mem_idle_iff]
    constructor
    · rintro (hin | ⟨-, answer, hid⟩)
      · obtain ⟨e, he, heq⟩ := List.mem_map.1 hin
        cases heq
        obtain ⟨stage, hstage⟩ := h.known e he
        exact ⟨stage, hstage, .inl (h.written ▸ List.mem_map_of_mem he)⟩
      · exact ⟨_, hid, .inr ⟨answer, rfl⟩⟩
    · rintro ⟨stage, hid, hcounts⟩
      by_cases hin : id ∈ t.written
      · rw [h.written] at hin
        obtain ⟨e, he, rfl⟩ := List.mem_map.1 hin
        obtain ⟨stage', hstage⟩ := h.known e he
        obtain rfl : r = e.request := congrArg Work.request (Option.some.inj (hid.symm.trans hstage))
        exact .inl (List.mem_map.2 ⟨e, he, rfl⟩)
      · obtain ⟨answer, rfl⟩ := hcounts.resolve_left hin
        exact .inr ⟨hin, answer, hid⟩
  · intro id r answer hid
    rw [hserved, List.zip_append (by simp), List.mem_append]
    by_cases hin : id ∈ t.written
    · obtain ⟨results, rfl, hlog⟩ := h.logged hid hin
      refine .inl ?_
      rw [List.zip_map']
      exact List.mem_map.2 ⟨_, hlog, rfl⟩
    · refine .inr ?_
      have hmem : (id, r) ∈ t.idle := Traffic.mem_idle_iff.2 ⟨hin, answer, hid⟩
      have hserve := congrArg Prod.fst (h.serve_idle hid hin)
      rw [List.map_map]
      refine List.mem_iff_getElem.2 ?_
      obtain ⟨i, hi, hget⟩ := List.mem_iff_getElem.1 hmem
      exact ⟨i, by simpa using hi, by simp [hget, hserve]⟩

/-! ## Counts -/

theorem serveAll_memory_contents (rs : List Request) {s : Memory} (hopen : s.isOpen = true) :
    (serveAll Memory.backend rs s).2.contents.Same (s.contents.mergeAll (rs.flatMap (·.metrics))).2 := by
  suffices hholds : ∀ s c, s.Holds c →
      (serveAll Memory.backend rs s).2.Holds (c.mergeAll (rs.flatMap (·.metrics))).2 from
    (hholds s s.contents ⟨hopen, .refl _⟩).2
  induction rs with
  | nil => exact fun s c hs => hs
  | cons r rs ih =>
      intro s c hs
      obtain ⟨-, hafter⟩ := r.serve_memory_eq_mergeAll hs
      rw [List.flatMap_cons, Contents.mergeAll_append]
      exact ih _ _ hafter

theorem Serial.applied_eq (h : Serial first t log) : t.applied = (log.map (·.request)).flatMap (·.metrics) := by
  rw [Traffic.applied, h.written, List.flatMap_map, List.flatMap_map]
  refine List.flatMap_congr fun e he => ?_
  obtain ⟨stage, hstage⟩ := h.known e he
  rw [hstage]
  rfl

theorem Serial.unchanged_of_closed (h : Serial first t log) (hclosed : first.isOpen = false) :
    t.store = first ∧ t.applied = [] := by
  have hserve : ∀ r ∈ log.map (·.request), (r.serve Memory.backend first).2 = first := by
    intro r _
    by_cases hempty : r.metrics = []
    · rw [Request.serve_of_empty hempty]
    · rw [Request.serve_of_closed hclosed hempty]
  have hserved := h.served
  rw [serveAll_of_idle hserve, Prod.mk.injEq, List.map_map, List.map_inj_left] at hserved
  refine ⟨hserved.2.symm, ?_⟩
  rw [h.applied_eq, List.flatMap_map, List.flatMap_eq_nil_iff]
  intro e he
  by_contra hne
  have hok := hserved.1 e he
  rw [Function.comp_apply, Request.serve_of_closed hclosed hne] at hok
  cases hok

/-- The counts of those that have written are added to what a name held, if it held a count or nothing and was
given counts only. -/
theorem Serial.get?_counters (h : Serial first t log) {name : String} {prior : Option Int64}
    (hprior : first.contents.get? name = prior.map .counter)
    (happlied : ∀ m ∈ t.applied, m.name = name → m.kind = .counter) :
    t.store.contents.get? name = (Contents.total prior (Contents.countsOf name t.applied)).map .counter := by
  cases hopen : first.isOpen with
  | false =>
      obtain ⟨hstore, hnone⟩ := h.unchanged_of_closed hopen
      rw [hstore, hnone]
      exact hprior
  | true =>
      have hsame := serveAll_memory_contents (log.map (·.request)) hopen
      rw [h.served, ← h.applied_eq] at hsame
      rw [hsame name]
      exact Contents.get?_mergeAll_counters hprior happlied

/-- However requests interleave with each other and with sweeps, and wherever they are dropped, there is an order in
which those that have written or were answered give the same answers and leave the same store when they are served
one at a time. A name that held a count or nothing, and was given counts only, holds the sum modulo 2⁶⁴. -/
theorem updates_serializable {store : Memory} {ttl : Nat} {labels : List TrafficStep}
    (h : stepwise (Traffic.step Memory.backend) (.fresh store ttl) labels = some t) :
    (∃ line, Explains store t line) ∧
    ∀ (name : String) (prior : Option Int64), store.contents.get? name = prior.map .counter →
      (∀ m ∈ t.applied, m.name = name → m.kind = .counter) →
      t.store.contents.get? name = (if Contents.countsOf name t.applied = [] then prior.map .counter
        else some (.counter (.ofInt (prior.elim 0 (·.toInt) +
          ((Contents.countsOf name t.applied).map (·.toInt)).sum)))) := by
  obtain ⟨log, hserial⟩ := serial_of_stepwise h
  refine ⟨⟨_, hserial.explains⟩, fun name prior hprior happlied => ?_⟩
  rw [hserial.get?_counters hprior happlied, Contents.total_eq]
  split <;> rfl

/-- Two batches that share a name with a single metric. The first batch is dropped once it has written, the metric
while it waits; the second batch is served to its end. -/
def interleaving : List TrafficStep :=
  [.arrive 0 (.saveBatch [.counter "b" 1, .counter "a" 2, .counter "b" 3]),
    .arrive 1 (.saveBatch [.counter "c" 7, .counter "a" 10]), .arrive 2 (.save (.counter "a" 100)),
    .advance 0, .advance 1, .advance 2, .sweep, .advance 0, .advance 0, .advance 0, .advance 0, .advance 0,
    .advance 0, .drop 2, .drop 0, .advance 0, .advance 0, .advance 0, .advance 1, .wait 60, .sweep, .advance 1,
    .advance 1, .advance 1, .advance 1, .advance 1, .advance 1, .advance 1, .advance 1]

theorem updates_serializable_dropped : ∃ t,
    stepwise (Traffic.step Memory.backend) (.fresh ⟨Contents.ofMetrics [.counter "a" 5], true⟩ 50) interleaving
      = some t ∧
    t.written = [0, 1] ∧ (∃ line, Explains ⟨Contents.ofMetrics [.counter "a" 5], true⟩ t line) ∧
    t.store.contents.get? "a" = some (.counter 17) := by
  have hrun : (stepwise (Traffic.step Memory.backend) (.fresh ⟨Contents.ofMetrics [.counter "a" 5], true⟩ 50)
      interleaving).map (fun t => (t.written, t.applied)) = some ([0, 1],
        [.counter "b" 1, .counter "a" 2, .counter "b" 3, .counter "c" 7, .counter "a" 10]) := by cbv
  obtain ⟨t, ht, hout⟩ := Option.map_eq_some_iff.1 hrun
  obtain ⟨hwritten, happlied⟩ := Prod.mk.inj hout
  obtain ⟨hline, hcounts⟩ := updates_serializable ht
  refine ⟨t, ht, hwritten, hline, ?_⟩
  have hsum := hcounts "a" (some 5) rfl (by rw [happlied]; decide)
  rw [happlied] at hsum
  exact hsum

end PushMetrics.Manager
