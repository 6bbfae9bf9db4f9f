import PushMetrics.Proofs.Manager.Merging

/-!
# Grouping does not matter

However a list of metrics is cut into calls, single ones and batches, the results are those of merging the
metrics one after another, and so is what the store holds in the end.
-/

namespace PushMetrics.Manager

variable {σ : Type}

/-- A call of the manager, and the order in which a batch is handed to the store. -/
structure Call where
  request : Request
  emptying : Emptying

/-- Calls served one after another; their results are joined, and an error ends the whole. -/
def serveCalls (b : Backend σ) : List Call → σ → Except StorageError (List Metric) × σ
  | [], s => (.ok [], s)
  | call :: rest, s =>
    match call.request.serve (emptiedBy call.emptying b) s with
    | (.error e, s) => (.error e, s)
    | (.ok results, s) =>
      match serveCalls b rest s with
      | (.error e, s) => (.error e, s)
      | (.ok more, s) => (.ok (results ++ more), s)

theorem serveCalls_eq_mergeAll {b : Backend σ} {takes : Metric → Prop} {holds : σ → Contents → Prop}
    (hb : b.Realizes takes holds) {s : σ} {c : Contents} (hs : holds s c) {calls : List Call}
    (hcalls : ∀ m ∈ calls.flatMap (·.request.metrics), takes m) :
    ∃ final, serveCalls b calls s = (.ok (c.mergeAll (calls.flatMap (·.request.metrics))).1, final) ∧
      holds final (c.mergeAll (calls.flatMap (·.request.metrics))).2 := by
  induction calls generalizing s c with
  | nil => exact ⟨s, rfl, hs⟩
  | cons call rest ih =>
      rw [List.flatMap_cons] at hcalls
      obtain ⟨hok, hafter⟩ := call.request.serve_eq_mergeAll call.emptying hb hs
        fun m hm => hcalls m (List.mem_append_left _ hm)
      obtain ⟨final, hrest, hfinal⟩ := ih hafter fun m hm => hcalls m (List.mem_append_right _ hm)
      refine ⟨final, ?_, ?_⟩
      · rw [serveCalls]
        cases hc : call.request.serve (emptiedBy call.emptying b) s with
        | mk result after =>
            rw [hc] at hok hrest
            obtain rfl : result = .ok (c.mergeAll call.request.metrics).1 := hok
            simp only [hrest, List.flatMap_cons, Contents.mergeAll_append]
      · rw [List.flatMap_cons, Contents.mergeAll_append]
        exact hfinal

theorem merge_counter_counter (name : String) (old count : Int64) :
    Metric.merge (some (.counter name old)) (.counter name count)
      = .counter name (.ofInt (old.toInt + count.toInt)) := by
  simp [Metric.merge, Metric.counter, Sample.merge, Int64.ofInt_add]

/-- However metrics are cut into calls, and in whatever order batches are handed over, an open store answers with
the metrics merged one after another and holds in the end what that leaves. Other names keep what they had,
and counts add up modulo 2⁶⁴. A table has to be given gauges that are numbers, as all that is read from outside is. -/
theorem grouping_irrelevant {store : Storage} {w : World} {c : Contents} (h : store.Holds w c) (calls : List Call)
    {ms : List Metric} (hcut : calls.flatMap (·.request.metrics) = ms) (hms : ∀ m ∈ ms, store.Takes m) :
    (∃ store' w', serveCalls Storage.backend calls (store, w) = (.ok (c.mergeAll ms).1, store', w') ∧
      store'.Holds w' (c.mergeAll ms).2) ∧
    (∀ name, name ∉ ms.map (·.name) → (c.mergeAll ms).2.get? name = c.get? name) ∧
    (∀ name old count, Metric.merge (some (.counter name old)) (.counter name count)
      = .counter name (.ofInt (old.toInt + count.toInt))) := by
  subst hcut
  have hserved := serveCalls_eq_mergeAll store.backend_realizes (s := (store, w)) ⟨h, rfl⟩ hms
  obtain ⟨⟨store', w'⟩, hcalls, hfinal, -⟩ := hserved
  exact ⟨⟨store', w', hcalls, hfinal⟩, fun name hname => Contents.get?_mergeAll_of_notMem hname c,
    merge_counter_counter⟩

def least : Number.Binary64 := .finite false ⟨1, by decide⟩

def minusZero : Number.Binary64 := .finite true ⟨0, by decide⟩

/-- A single count and a batch in which counts turn into gauges and back, written in reverse order. -/
def kindSwitch : List Call :=
  [⟨.save (.counter "hits" 1), .asItStands⟩,
    ⟨.saveBatch [.counter "hits" 2, .gauge "load" minusZero, .gauge "hits" least,
      .counter "load" 3, .counter "hits" 4, .counter "hits" (-5)], ⟨List.reverse, List.reverse_perm⟩⟩]

def hitsAndLoad : Sql.Database where
  version := 2
  table := some ⟨true, (Dict.empty.put "hits" ⟨"counter", .ofInt 10, some 10⟩).put "load" ⟨"gauge", least, none⟩⟩
  rejected := []

def hitsAndLoadContents : Contents := Contents.ofMetrics [.counter "hits" 10, .gauge "load" least]

theorem hitsAndLoad_holds : hitsAndLoad.Holds hitsAndLoadContents := by
  refine ⟨rfl, _, rfl, fun name => ?_⟩
  simp only [hitsAndLoadContents, Contents.ofMetrics, Contents.saveAll, List.foldl_cons, List.foldl_nil,
    Contents.get?_save, Dict.get?_put, Dict.get?_empty, Metric.counter, Metric.gauge]
  by_cases hload : "load" = name
  · rw [if_pos hload, if_pos hload]
    rfl
  · rw [if_neg hload, if_neg hload]
    by_cases hhits : "hits" = name
    · rw [if_pos hhits, if_pos hhits]
      rfl
    · rw [if_neg hhits, if_neg hhits]
      rfl

def oneTable : World := ⟨⟨Dict.empty⟩, [hitsAndLoad], 0, []⟩

def tableStore : Storage := .table ⟨0, false, true⟩

theorem tableStore_holds : tableStore.Holds oneTable hitsAndLoadContents := ⟨rfl, rfl, by decide, hitsAndLoad_holds⟩

/-- The calls are served by a table below a layer that writes a snapshot after every change. -/
theorem grouping_irrelevant_kindSwitch : ∃ store' w',
    serveCalls Storage.backend kindSwitch (.snapshot ⟨"metrics", ⟨0⟩, none, true⟩ tableStore, oneTable)
      = (.ok [.counter "hits" 11, .counter "hits" 13, .gauge "load" minusZero, .gauge "hits" least,
          .counter "load" 3, .counter "hits" 4, .counter "hits" (-1)], store', w') ∧
    ∃ c, store'.Holds w' c ∧ c.metrics = [.counter "hits" (-1), .counter "load" 3] := by
  have hstore : Storage.Holds (.snapshot ⟨"metrics", ⟨0⟩, none, true⟩ tableStore) oneTable hitsAndLoadContents :=
    ⟨rfl, tableStore_holds⟩
  have htakes : ∀ m ∈ kindSwitch.flatMap (·.request.metrics),
      Storage.Takes (.snapshot ⟨"metrics", ⟨0⟩, none, true⟩ tableStore) m := by
    simp [kindSwitch, tableStore, Request.metrics, Storage.Takes, Metric.counter, Metric.gauge, least, minusZero]
  obtain ⟨⟨store', w', hcalls, hfinal⟩, -⟩ := grouping_irrelevant hstore kindSwitch rfl htakes
  exact ⟨store', w', hcalls, _, hfinal, rfl⟩

/-- A table refuses a gauge that is not a number, which merging would let pass. -/
theorem grouping_refused_nan : tableStore.Holds oneTable hitsAndLoadContents ∧
    (serveCalls Storage.backend [⟨.save (.gauge "load" .nan), .asItStands⟩] (tableStore, oneTable)).1
      = .error (.database .missingValue) ∧
    (hitsAndLoadContents.mergeAll [.gauge "load" .nan]).1 = [.gauge "load" .nan] :=
  ⟨tableStore_holds, rfl, rfl⟩

end PushMetrics.Manager
