import PushMetrics.Proofs.Run
import PushMetrics.Proofs.Snapshot.Codec
import PushMetrics.Proofs.Store.Enumeration
import PushMetrics.Store.Scan

/-!
# A batch beside an enumeration

What the consumer of an enumeration has taken and what the enumeration still yields make up its outcome, which only
writers change. A batch cuts an enumeration once: names that have been looked up by then are shown as they were before
it, and the names that are left as they are after it.
-/

namespace PushMetrics

def ScanStep.reads : ScanStep → Bool
  | produce | take => true
  | write _ | shut | clear => false

namespace Scan

variable {s t u : Scan} {a : ScanStep} {labels before after : List ScanStep} {c : Contents} {names : List String}
  {ms : List Metric}

/-- All that an enumeration yields if nothing is written from now on. -/
def outcome (s : Scan) : List Item := s.taken ++ s.source.rest s.memory.contents

theorem outcome_begin (c : Contents) (names : List String) :
    (begin c names).outcome = (names.filterMap c.metric?).map .ok := Enumeration.rest_listed c names

theorem outcome_of_hasEnded (h : s.hasEnded) : s.outcome = s.taken := by
  simp only [hasEnded, Bool.and_eq_true, List.isEmpty_iff] at h
  obtain ⟨hproducer, hchannel⟩ := h
  have hfinished : s.source.producer = .finished := by
    split at hproducer
    · assumption
    · cases hproducer
  have htake : s.source.take = none := by rw [Enumeration.take, hchannel]
  rw [outcome, Enumeration.rest_ended htake hfinished, List.append_nil]

/-- `t` is reached from `s` by an enumeration that goes on in a store that stays open and as it is. -/
structure Reads (s t : Scan) : Prop where
  memory : t.memory = s.memory
  outcome : s.memory.isOpen = true → t.outcome = s.outcome
  left : t.source.left <:+ s.source.left

theorem reads_of_step (h : s.step a = some t) (ha : a.reads) : Reads s t := by
  cases a with
  | produce =>
      obtain ⟨source, hproduce, rfl⟩ := Option.map_eq_some_iff.1 h
      refine ⟨rfl, fun hopen => congrArg (s.taken ++ ·) ?_, Enumeration.left_produce hproduce⟩
      exact (Enumeration.rest_produce hproduce).resolve_right fun ⟨hclosed, _⟩ =>
        absurd (hclosed.symm.trans hopen) nofun
  | take =>
      obtain ⟨⟨item, source⟩, htake, rfl⟩ := Option.map_eq_some_iff.1 h
      refine ⟨rfl, fun _ => ?_, (Enumeration.items_take htake).2.1 ▸ List.suffix_refl _⟩
      simp [Scan.outcome, Enumeration.rest_take htake]
  | write | shut | clear => cases ha

theorem reads_of_stepwise (h : stepwise step s labels = some t) (hreads : ∀ a ∈ labels, a.reads) : Reads s t := by
  refine stepwise_keeps h ⟨rfl, fun _ => rfl, List.suffix_refl _⟩ fun u a v ha hu hstep => ?_
  have hnext := reads_of_step hstep (hreads a ha)
  exact ⟨hnext.memory.trans hu.memory, fun hopen => (hnext.outcome (hu.memory ▸ hopen)).trans (hu.outcome hopen),
    hnext.left.trans hu.left⟩

/-- Whoever only writes or closes the store leaves the enumeration and its consumer alone. -/
theorem unread_of_step (h : s.step a = some t) (ha : a.reads = false) : t.source = s.source ∧ t.taken = s.taken := by
  cases a with
  | write change =>
      cases h
      exact ⟨rfl, rfl⟩
  | shut | clear =>
      simp only [step] at h
      split at h <;> cases h
      exact ⟨rfl, rfl⟩
  | produce | take => cases ha

theorem hasEnded_iff : s.hasEnded ↔ s.source = ⟨.finished, []⟩ := by
  obtain ⟨memory, ⟨producer, channel⟩, taken⟩ := s
  simp only [hasEnded, Bool.and_eq_true, List.isEmpty_iff, Enumeration.mk.injEq]
  refine and_congr_left fun _ => ?_
  cases producer <;> simp

/-- An enumeration at its end stays there, and has nothing more to take. -/
theorem still_of_step (h : s.step a = some t) (hs : s.source = ⟨.finished, []⟩) :
    t.source = s.source ∧ t.taken = s.taken := by
  cases a with
  | produce | take =>
      simp only [step, hs] at h
      cases h
  | write | shut | clear => exact unread_of_step h rfl

theorem filterMap_metric?_saveAll (h : ∀ m ∈ ms, m.name ∉ names) (c : Contents) :
    names.filterMap (c.saveAll ms).metric? = names.filterMap c.metric? := by
  refine List.filterMap_congr fun name hname => ?_
  have hout : name ∉ ms.map (·.name) := by
    intro hin
    obtain ⟨m, hm, rfl⟩ := List.mem_map.1 hin
    exact h m hm hname
  rw [Contents.metric?, Contents.get?_saveAll_of_notMem hout, Contents.metric?]

/-- What an enumeration yields while one batch is written and nothing else is, whatever the order in which the names of
the store have been listed: the names that have been looked up by then as they were before the batch, and those that
are left as they are after it. So it shows a batch as a whole whenever it has by then looked up all of its names, or
none; and so does a snapshot written of what it yields. -/
theorem batch_cuts_once (hnames : names.Perm c.keys) (hbefore : ∀ a ∈ before, a.reads) (hafter : ∀ a ∈ after, a.reads)
    (hu : stepwise step (begin c names) before = some u)
    (hs : stepwise step u (.write (.saveBatch ms) :: after) = some s) (hended : s.hasEnded) :
    ∃ looked got, looked ++ u.source.left = names ∧ s.taken = got.map .ok ∧
      got = looked.filterMap c.metric? ++ u.source.left.filterMap (c.saveAll ms).metric? ∧
      ((∀ m ∈ ms, m.name ∉ u.source.left) → got.Perm c.metrics) ∧
      ((∀ m ∈ ms, m.name ∉ looked) → got = names.filterMap (c.saveAll ms).metric?) ∧
      (c.IsWellFormed → (∀ m ∈ ms, m.isWellFormed) → Snapshot.decode (Snapshot.encode got) = .ok got) := by
  have hfirst := reads_of_stepwise hu hbefore
  obtain ⟨v, hv, hrest⟩ := Option.bind_eq_some_iff.1 hs
  have hsecond := reads_of_stepwise hrest hafter
  obtain ⟨looked, hlooked⟩ : ∃ looked, looked ++ u.source.left = names := hfirst.left
  obtain ⟨memory, source, taken⟩ := u
  obtain rfl : memory = ⟨c, true⟩ := hfirst.memory
  cases hv
  -- The batch leaves alone what has been made of the names looked up before it.
  have hmade : taken ++ source.items = (looked.filterMap c.metric?).map .ok := by
    have hwhole := hfirst.outcome rfl
    rw [outcome_begin, ← hlooked, List.filterMap_append, List.map_append] at hwhole
    simp only [outcome, Enumeration.rest, ← List.append_assoc] at hwhole
    exact List.append_cancel_right hwhole
  have hyield : s.taken = (looked.filterMap c.metric? ++ source.left.filterMap (c.saveAll ms).metric?).map .ok := by
    rw [← outcome_of_hasEnded hended, hsecond.outcome rfl, List.map_append, ← hmade, List.append_assoc]
    rfl
  refine ⟨looked, _, hlooked, hyield, rfl, fun hnone => ?_, fun hnone => ?_, fun hc hms => ?_⟩
  · rw [filterMap_metric?_saveAll hnone, ← List.filterMap_append, hlooked]
    exact Contents.perm_filterMap_metric? hnames
  · rw [← filterMap_metric?_saveAll hnone, ← List.filterMap_append, hlooked]
  · refine Snapshot.decode_encode fun m hm => ?_
    rcases List.mem_append.1 hm with hm | hm
    · obtain ⟨name, -, hname⟩ := List.mem_filterMap.1 hm
      exact hc m (Contents.mem_metrics_of_metric? hname)
    · obtain ⟨name, -, hname⟩ := List.mem_filterMap.1 hm
      exact hc.saveAll hms m (Contents.mem_metrics_of_metric? hname)

/-- Two names are listed, and one of them is looked up. -/
def oneLooked : List ScanStep := [.produce, .produce, .produce]

/-- The other one is looked up, and all is taken. -/
def otherLooked : List ScanStep := [.produce, .produce, .produce, .produce, .take, .take]

def stored : Contents := Contents.ofMetrics [.counter "a" 1, .counter "b" 1]

def batch : List Metric := [.counter "a" 2, .counter "b" 2]

theorem batch_cuts_once_between : ∃ u s, stepwise step (begin stored ["b", "a"]) oneLooked = some u ∧
    stepwise step u (.write (.saveBatch batch) :: otherLooked) = some s ∧ s.hasEnded ∧
    u.source.left = ["a"] ∧ ∃ looked got, looked ++ u.source.left = ["b", "a"] ∧ s.taken = got.map .ok ∧
      got = looked.filterMap stored.metric? ++ u.source.left.filterMap (stored.saveAll batch).metric? := by
  have hfirst : (stepwise step (begin stored ["b", "a"]) oneLooked).map (·.source.left) = some ["a"] := by
    decide +kernel
  obtain ⟨u, hu, hleft⟩ := Option.map_eq_some_iff.1 hfirst
  have hboth : (stepwise step (begin stored ["b", "a"]) (oneLooked ++ .write (.saveBatch batch) :: otherLooked)).map
      hasEnded = some true := by decide +kernel
  rw [stepwise_append, hu] at hboth
  obtain ⟨s, hs, hended⟩ := Option.map_eq_some_iff.1 hboth
  obtain ⟨looked, got, hlooked, htaken, hgot, -⟩ :=
    batch_cuts_once (by decide +kernel) (by decide) (by decide) hu hs hended
  exact ⟨u, s, hu, hs, hended, hleft, looked, got, hlooked, htaken, hgot⟩

/-- A batch written between two of its names is shown in part, and so is one whose enumeration is cut short by the
closing of the store. -/
theorem batch_torn :
    (∃ s, stepwise step (begin stored stored.keys) (oneLooked ++ .write (.saveBatch batch) :: otherLooked) = some s ∧
      s.hasEnded ∧ s.taken = [.ok (.counter "a" 1), .ok (.counter "b" 2)] ∧
      stored.metrics = [.counter "a" 1, .counter "b" 1] ∧
      (stored.saveAll batch).metrics = [.counter "a" 2, .counter "b" 2]) ∧
    ∃ s, stepwise step (begin (stored.saveAll batch) stored.keys)
        (oneLooked ++ [.take, .shut, .clear, .produce, .produce, .take]) = some s ∧
      s.hasEnded ∧ s.taken = [.ok (.counter "a" 2), .error .closed] := by
  have htorn : (stepwise step (begin stored stored.keys) (oneLooked ++ .write (.saveBatch batch) :: otherLooked)).map
      (fun s => (s.hasEnded, s.taken)) = some (true, [.ok (.counter "a" 1), .ok (.counter "b" 2)]) := by
    decide +kernel
  have hcut : (stepwise step (begin (stored.saveAll batch) stored.keys)
      (oneLooked ++ [.take, .shut, .clear, .produce, .produce, .take])).map (fun s => (s.hasEnded, s.taken))
      = some (true, [.ok (.counter "a" 2), .error .closed]) := by decide +kernel
  obtain ⟨s, hs, hfacts⟩ := Option.map_eq_some_iff.1 htorn
  obtain ⟨hended, htaken⟩ := Prod.mk.inj hfacts
  obtain ⟨v, hv, hfacts⟩ := Option.map_eq_some_iff.1 hcut
  exact ⟨⟨s, hs, hended, htaken, by decide +kernel, by decide +kernel⟩, v, hv, Prod.mk.inj hfacts⟩

end Scan

end PushMetrics
