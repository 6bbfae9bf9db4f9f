import PushMetrics.Proofs.Run
import PushMetrics.Proofs.Store.Enumeration
import PushMetrics.Proofs.Store.Scan
import PushMetrics.Store.Retrieval

/-!
# What a call of an enumeration yields

Whatever others do meanwhile, the items that an enumeration makes are metrics of the names that were listed, in the
order of the list and each as its lookup has found it, and perhaps an error after them. While the store is neither
emptied nor closed and the consumer does not stop, no name is passed over, and the enumeration comes to its end.
-/

namespace PushMetrics

/-- Emptying or closing the store. -/
def ScanStep.empties : ScanStep → Bool
  | write .reset | shut | clear => true
  | write _ | produce | take => false

/-- What keeps an enumeration from being complete. -/
def RetrievalStep.disturbs : RetrievalStep → Bool
  | drop => true
  | scan a => a.empties
  | check | list _ => false

def RetrievalStep.reads : RetrievalStep → Bool
  | scan a => a.reads
  | check | list _ | drop => false

namespace Retrieval

variable {s t u : Retrieval} {a : RetrievalStep} {labels before after : List RetrievalStep} {names left : List String}
  {items taken : List Item} {found found' : Metric → Prop}

/-- An enumeration of an open store that nobody disturbs. -/
theorem call_undisturbed {m : Memory} {e : Enumeration} (h : Enumeration.start m = .ok e) :
    stepwise step (begin m) [.check, .list m.contents.keys] = some ⟨⟨m, e, []⟩, .listed⟩ := by
  obtain ⟨contents, isOpen⟩ := m
  cases isOpen with
  | true =>
      cases h
      simp [stepwise, step, begin, List.isPerm_iff]
  | false => cases h

/-! ## Steps -/

inductive Moves (s : Retrieval) : RetrievalStep → Retrieval → Prop where
  | check (hp : s.phase = .called) :
      Moves s .check { s with phase := if s.memory.isOpen then .admitted else .refused }
  | list {names : List String} (hp : s.phase = .admitted) (hnames : names.Perm s.memory.contents.keys) :
      Moves s (.list names) { s with source := ⟨.check names, []⟩, phase := .listed }
  | drop (hp : s.phase = .listed) :
      Moves s .drop { s with source := ⟨s.source.producer, []⟩, phase := .dropped }
  | lose {item : Item} {names : List String} (hp : s.phase = .dropped)
      (hsend : s.source.producer = .send item names) :
      Moves s (.scan .produce) { s with source := ⟨.finished, []⟩ }
  | scan {a : ScanStep} {scan : Scan} (hscan : s.toScan.step a = some scan)
      (hsend : ∀ item names, s.phase = .dropped → a = .produce → s.source.producer ≠ .send item names) :
      Moves s (.scan a) { s with toScan := scan }

theorem moves_of_step (h : s.step a = some t) : Moves s a t := by
  cases a with
  | check =>
      simp only [step] at h
      split at h
      · rename_i hp
        cases h
        exact .check hp
      · cases h
  | list names =>
      simp only [step] at h
      split at h
      · rename_i hp
        cases h
        exact .list hp.1 (List.isPerm_iff.1 hp.2)
      · cases h
  | drop =>
      simp only [step] at h
      split at h
      · rename_i hp
        cases h
        exact .drop hp
      · cases h
  | scan a =>
      simp only [step, scanStep] at h
      split at h
      · rename_i hp hsend
        cases h
        exact .lose hp hsend
      · rename_i hother
        obtain ⟨scan, hscan, rfl⟩ := Option.map_eq_some_iff.1 h
        exact .scan hscan hother

/-- The names have been listed. -/
def HasBegun (s : Retrieval) : Prop := s.phase = .listed ∨ s.phase = .dropped

theorem HasBegun.ne_called (h : s.HasBegun) : s.phase ≠ .called := by
  rcases h with h | h <;> simp [h]

theorem HasBegun.ne_admitted (h : s.HasBegun) : s.phase ≠ .admitted := by
  rcases h with h | h <;> simp [h]

theorem HasBegun.moves (h : s.HasBegun) (hm : Moves s a t) : t.HasBegun := by
  cases hm with
  | check hp => exact absurd hp h.ne_called
  | list hp hnames => exact .inl rfl
  | drop hp => exact .inr rfl
  | lose hp hsend => exact .inr hp
  | scan hscan hsend => exact h

/-! ## Items and lookups -/

/-- The store is looked up for the name of a metric, and the metric is what is found there. -/
def Finds (metric : Metric) (s : Retrieval) (a : RetrievalStep) : Prop :=
  a = .scan .produce ∧ (∃ rest, s.source.producer = .look (metric.name :: rest)) ∧
    s.memory.contents.metric? metric.name = some metric

/-- Items that are metrics of some names, in their order and each of them found, and perhaps the error that the store
is closed; the names that are left come after those of the metrics. -/
def Yields (names : List String) (found : Metric → Prop) (items : List Item) (left : List String) : Prop :=
  ∃ got : List Metric, (items = got.map .ok ∨ items = got.map .ok ++ [.error .closed] ∧ left = []) ∧
    (got.map (·.name) ++ left).Sublist names ∧ ∀ metric ∈ got, found metric

theorem Yields.mono (h : Yields names found items left) (himp : ∀ metric, found metric → found' metric) :
    Yields names found' items left := by
  obtain ⟨got, hitems, hnames, hfound⟩ := h
  exact ⟨got, hitems, hnames, fun metric hmetric => himp metric (hfound metric hmetric)⟩

/-- Whoever stops early has had a part of what would have come. -/
theorem Yields.of_append (h : Yields names found (taken ++ items) left) : Yields names found taken [] := by
  obtain ⟨got, hitems, hnames, hfound⟩ := h
  have hpart : ∀ {more : List Item}, taken ++ more = got.map .ok → Yields names found taken [] := by
    intro more hmore
    obtain ⟨part, others, rfl, rfl, -⟩ := List.append_eq_map_iff.1 hmore
    rw [List.map_append, List.append_assoc] at hnames
    refine ⟨part, .inl rfl, ?_, fun metric hmetric => hfound metric (List.mem_append_left _ hmetric)⟩
    rw [List.append_nil]
    exact (List.sublist_append_left _ _).trans hnames
  rcases hitems with hwhole | ⟨hcut, rfl⟩
  · exact hpart hwhole
  · rcases List.eq_nil_or_concat items with rfl | ⟨before, last, rfl⟩
    · exact ⟨got, .inr ⟨by simpa using hcut, rfl⟩, hnames, hfound⟩
    · rw [List.concat_eq_append, ← List.append_assoc] at hcut
      exact hpart (List.append_inj_left' hcut rfl)

/-- The names that a producer passes over are missed. -/
theorem Yields.produce {m : Memory} {e f : Enumeration} (h : Yields names found (taken ++ e.items) e.left)
    (hproduce : e.produce m = some f) (hkept : ∀ metric, found metric → found' metric)
    (hlook : ∀ name rest metric, e.producer = .look (name :: rest) → m.contents.metric? name = some metric →
      found' metric) : Yields names found' (taken ++ f.items) f.left := by
  cases Enumeration.produces hproduce with
  | goOn hitems hleft _ => exact hitems ▸ hleft ▸ h.mono hkept
  | @look name rest hproducer hitems hleft =>
      obtain ⟨got, hgot | ⟨-, hnone⟩, hnames, hfound⟩ := h
      · cases hmetric : m.contents.metric? name with
        | none =>
            rw [hmetric, Option.toList_none, List.map_nil, List.append_nil] at hitems
            rw [hleft] at hnames
            refine ⟨got, .inl (hitems ▸ hgot), ?_, fun metric hm => hkept metric (hfound metric hm)⟩
            exact (List.Sublist.append_left (List.sublist_cons_self _ _) _).trans hnames
        | some metric =>
            have hname : metric.name = name := Contents.name_of_metric? hmetric
            refine ⟨got ++ [metric], .inl ?_, ?_, ?_⟩
            · rw [hitems, hmetric, ← List.append_assoc, hgot]
              simp
            · simpa [hname, hleft] using hnames
            · intro other hother
              rcases List.mem_append.1 hother with hother | hother
              · exact hkept other (hfound other hother)
              · cases List.mem_singleton.1 hother
                exact hlook name rest metric hproducer hmetric
      · exact absurd (hnone.symm.trans hleft) nofun
  | close hclosed hitems hleft =>
      obtain ⟨got, hgot | ⟨-, hnone⟩, hnames, hfound⟩ := h
      · refine ⟨got, .inr ⟨by rw [hitems, ← List.append_assoc, hgot], hleft⟩, ?_,
          fun metric hm => hkept metric (hfound metric hm)⟩
        rw [hleft, List.append_nil]
        exact (List.sublist_append_left _ _).trans hnames
      · exact absurd hnone (Enumeration.left_ne_nil_of_items hproduce (by simp [hitems]))

theorem yields_names (hnodup : names.Nodup) (h : Yields names found taken []) :
    ∃ got : List Metric, (taken = got.map .ok ∨ taken = got.map .ok ++ [.error .closed]) ∧
      (got.map (·.name)).Nodup ∧ (∀ metric ∈ got, metric.name ∈ names) ∧ ∀ metric ∈ got, found metric := by
  obtain ⟨got, hgot, hnames, hfound⟩ := h
  rw [List.append_nil] at hnames
  exact ⟨got, hgot.imp_right And.left, hnames.nodup hnodup,
    fun metric hmetric => hnames.subset (List.mem_map_of_mem hmetric), hfound⟩

/-! ## From the list of the names on -/

/-- What a consumer has taken from an enumeration of some names, and what it still gets, is as it should be. -/
structure Follows (names : List String) (found : Metric → Prop) (s : Retrieval) : Prop where
  phase : s.phase = .listed ∨ s.phase = .dropped ∧ s.source.channel = []
  listed : s.phase = .listed → Yields names found (s.taken ++ s.source.items) s.source.left
  taken : Yields names found s.taken []

theorem Follows.of_listed (hp : s.phase = .listed)
    (h : Yields names found (s.taken ++ s.source.items) s.source.left) : s.Follows names found :=
  ⟨.inl hp, fun _ => h, h.of_append⟩

theorem Follows.hasBegun (h : s.Follows names found) : s.HasBegun := h.phase.imp_right And.left

theorem Follows.moves (h : s.Follows names found) (hm : Moves s a t) (hkept : ∀ metric, found metric → found' metric)
    (hfinds : ∀ metric, Finds metric s a → found' metric) : t.Follows names found' := by
  cases hm with
  | check hp => exact absurd hp h.hasBegun.ne_called
  | list hp hnames => exact absurd hp h.hasBegun.ne_admitted
  | drop hp => exact ⟨.inr ⟨rfl, rfl⟩, nofun, h.taken.mono hkept⟩
  | lose hp hsend => exact ⟨.inr ⟨hp, rfl⟩, fun hlisted => absurd (hp.symm.trans hlisted) nofun, h.taken.mono hkept⟩
  | @scan a scan hscan hsend =>
      cases a with
      | produce =>
          obtain ⟨source, hproduce, rfl⟩ := Option.map_eq_some_iff.1 hscan
          rcases h.phase with hlisted | ⟨hdropped, hchannel⟩
          · have hyields := h.listed hlisted
            refine .of_listed hlisted (hyields.produce hproduce hkept fun name rest metric hlook hmetric => ?_)
            have hname : metric.name = name := Contents.name_of_metric? hmetric
            exact hfinds metric ⟨rfl, ⟨rest, hname ▸ hlook⟩, hname ▸ hmetric⟩
          · have hsame := Enumeration.channel_produce_of_not_send hproduce
              fun item names => hsend item names hdropped rfl
            exact ⟨.inr ⟨hdropped, hsame.trans hchannel⟩, fun hlisted => absurd (hdropped.symm.trans hlisted) nofun,
              h.taken.mono hkept⟩
      | take =>
          obtain ⟨⟨item, source⟩, htake, rfl⟩ := Option.map_eq_some_iff.1 hscan
          rcases h.phase with hlisted | ⟨-, hchannel⟩
          · obtain ⟨hitems, hleft, -⟩ := Enumeration.items_take htake
            have hyields := (h.listed hlisted).mono hkept
            refine .of_listed hlisted ?_
            simpa [hitems, hleft] using hyields
          · rw [Enumeration.take, hchannel] at htake
            cases htake
      | write | clear | shut =>
          obtain ⟨hsource, htaken⟩ := Scan.unread_of_step hscan rfl
          refine ⟨?_, ?_, ?_⟩
          · rw [hsource]
            exact h.phase
          · rw [hsource, htaken]
            exact fun hlisted => (h.listed hlisted).mono hkept
          · rw [htaken]
            exact h.taken.mono hkept

/-- What an enumeration of some names has made by any moment after the names were listed. -/
theorem follows_of_stepwise {w : Retrieval} (hw : Moves u (.list names) w) (huntouched : u.taken = [])
    (h : stepwise step w after = some s) :
    s.Follows names fun metric => Meets step (Finds metric) w after := by
  refine stepwise_induction (P := fun sooner s => s.Follows names fun metric => Meets step (Finds metric) w sooner) h
    ?_ ?_
  · cases hw with
    | list hp hnames =>
        refine .of_listed rfl ⟨[], .inl ?_, ?_, nofun⟩
        · exact congrArg (· ++ []) huntouched
        · exact List.Sublist.refl names
  · intro sooner v a t _ hv hfollows hstep
    exact hfollows.moves (moves_of_step hstep) (fun metric hfound => hfound.append [a])
      fun metric hfinds => .last hv hfinds

/-! ## In peace -/

/-- An enumeration that has passed over none of its names, and will not either. -/
structure Steady (names : List String) (s : Retrieval) : Prop where
  phase : s.phase = .listed
  isOpen : s.memory.isOpen = true
  stored : ∀ name ∈ s.source.left, name ∈ s.memory.contents.keys
  whole : ∃ got : List Metric, s.taken ++ s.source.items = got.map .ok ∧ got.map (·.name) ++ s.source.left = names

theorem Steady.moves (h : s.Steady names) (hm : Moves s a t) (ha : a.disturbs = false) : t.Steady names := by
  obtain ⟨got, hgot, hnames⟩ := h.whole
  cases hm with
  | check hp => cases h.phase.symm.trans hp
  | list hp hnames => cases h.phase.symm.trans hp
  | drop hp => cases ha
  | lose hp hsend => cases h.phase.symm.trans hp
  | @scan a scan hscan hsend =>
      cases a with
      | produce =>
          obtain ⟨source, hproduce, rfl⟩ := Option.map_eq_some_iff.1 hscan
          cases Enumeration.produces hproduce with
          | goOn hitems hleft _ =>
              exact ⟨h.phase, h.isOpen, hleft ▸ h.stored, got, hitems ▸ hgot, hleft ▸ hnames⟩
          | @look name rest hlook hitems hleft =>
              rw [hleft] at hnames
              have hstored : name ∈ s.memory.contents.keys := h.stored name (hleft ▸ List.mem_cons_self)
              obtain ⟨sample, hsample⟩ := Option.isSome_iff_exists.1 (Dict.mem_keys_iff.1 hstored)
              have hmetric : s.memory.contents.metric? name = some ⟨name, sample⟩ := by
                rw [Contents.metric?, hsample, Option.map_some]
              refine ⟨h.phase, h.isOpen, fun other hother => h.stored other (hleft ▸ List.mem_cons_of_mem _ hother),
                got ++ [⟨name, sample⟩], ?_, ?_⟩
              · simp only [hitems, hmetric, ← List.append_assoc, hgot]
                simp
              · simpa using hnames
          | close hclosed => cases hclosed.symm.trans h.isOpen
      | take =>
          obtain ⟨⟨item, source⟩, htake, rfl⟩ := Option.map_eq_some_iff.1 hscan
          obtain ⟨hitems, hleft, -⟩ := Enumeration.items_take htake
          refine ⟨h.phase, h.isOpen, hleft ▸ h.stored, got, ?_, ?_⟩
          · simpa [hitems] using hgot
          · simpa [hleft] using hnames
      | write change =>
          cases hscan
          refine ⟨h.phase, h.isOpen, fun name hname => ?_, got, hgot, hnames⟩
          refine Contents.mem_keys_applyTo (h.stored name hname) ?_
          rintro rfl
          cases ha
      | shut | clear => cases ha

theorem steady_of_stepwise {w : Retrieval} (hw : Moves u (.list names) w) (huntouched : u.taken = [])
    (hopen : u.memory.isOpen = true) (h : stepwise step w after = some s) (hafter : ∀ a ∈ after, a.disturbs = false) :
    s.Steady names := by
  refine stepwise_keeps h ?_ fun v a t ha hsteady hstep => hsteady.moves (moves_of_step hstep) (hafter a ha)
  cases hw with
  | list hp hnames =>
      exact ⟨rfl, hopen, fun name hname => hnames.subset hname, [], congrArg (· ++ []) huntouched, rfl⟩

/-- Names that are stored stay so while the store is neither emptied nor closed. -/
theorem keys_subset_of_stepwise (h : stepwise step s labels = some t) (hlabels : ∀ a ∈ labels, a.disturbs = false) :
    s.memory.contents.keys ⊆ t.memory.contents.keys := by
  refine stepwise_keeps (P := fun t => s.memory.contents.keys ⊆ t.memory.contents.keys) h (List.Subset.refl _) ?_
  intro u a v ha hsubset hstep
  have hcalm := hlabels a ha
  cases moves_of_step hstep with
  | check hp => exact hsubset
  | list hp hnames => exact hsubset
  | drop hp => cases hcalm
  | lose hp hsend => exact hsubset
  | @scan a scan hscan hsend =>
      cases a with
      | produce | take =>
          obtain ⟨next, -, rfl⟩ := Option.map_eq_some_iff.1 hscan
          exact hsubset
      | write change =>
          cases hscan
          refine fun name hname => Contents.mem_keys_applyTo (hsubset hname) ?_
          rintro rfl
          cases hcalm
      | shut | clear => cases hcalm

/-- What is stored at a call is still there when the names are listed, if nobody has emptied or closed the store. -/
theorem keys_subset_of_call (h : stepwise step s (.check :: labels) = some t)
    (hlabels : ∀ a ∈ labels, a.disturbs = false) : s.memory.contents.keys ⊆ t.memory.contents.keys := by
  obtain ⟨u, hcheck, hbetween⟩ := Option.bind_eq_some_iff.1 h
  have hsame : u.memory = s.memory := by
    cases moves_of_step hcheck with
    | check hp => rfl
  rw [← hsame]
  exact keys_subset_of_stepwise hbetween hlabels

/-- An enumeration that has ended in peace has yielded a metric of each name, and no error. -/
theorem Steady.complete (h : s.Steady names) (hended : s.hasEnded) {got : List Metric}
    (htaken : s.taken = got.map .ok ∨ s.taken = got.map .ok ++ [.error .closed]) :
    s.taken = got.map .ok ∧ got.map (·.name) = names := by
  obtain ⟨all, hall, hallNames⟩ := h.whole
  replace hall : s.taken = all.map .ok := by simpa [Scan.hasEnded_iff.1 hended, Enumeration.items] using hall
  replace hallNames : all.map (·.name) = names := by
    simpa [Scan.hasEnded_iff.1 hended, Enumeration.left] using hallNames
  rcases htaken with hwhole | hcut
  · have hsame : got = all := List.map_injective_iff.2 (fun _ _ h => Except.ok.inj h) (hwhole.symm.trans hall)
    exact ⟨hwhole, hsame ▸ hallNames⟩
  · have hin : (.error .closed : Item) ∈ all.map .ok := by
      rw [← hall, hcut]
      exact List.mem_append_right _ (List.mem_singleton_self _)
    simp at hin

/-! ## The end -/

/-- Until the names have been listed there is nothing to take. -/
def IsFresh (s : Retrieval) : Prop := s.HasBegun ∨ s.source = ⟨.finished, []⟩ ∧ s.taken = []

theorem IsFresh.moves (h : s.IsFresh) (hm : Moves s a t) : t.IsFresh := by
  rcases h with hbegun | ⟨hsource, htaken⟩
  · exact .inl (hbegun.moves hm)
  · cases hm with
    | check hp => exact .inr ⟨hsource, htaken⟩
    | list hp hnames => exact .inl (.inl rfl)
    | drop hp => exact .inl (.inr rfl)
    | lose hp hsend => exact .inl (.inr hp)
    | scan hscan hsend =>
        obtain ⟨hsame, hsameTaken⟩ := Scan.still_of_step hscan hsource
        exact .inr ⟨hsame.trans hsource, hsameTaken.trans htaken⟩

theorem untouched_of_stepwise {m : Memory} (h : stepwise step (begin m) before = some u) (hp : u.phase = .admitted) :
    u.taken = [] := by
  have hfresh : u.IsFresh := stepwise_keeps h (.inr ⟨rfl, rfl⟩) fun _ _ _ _ hfresh hstep =>
    hfresh.moves (moves_of_step hstep)
  rcases hfresh with hbegun | ⟨-, huntouched⟩
  · exact absurd hp hbegun.ne_admitted
  · exact huntouched

theorem stepsLeft_moves (h : s.HasBegun) (hm : Moves s a t) :
    t.source.stepsLeft + a.reads.toNat ≤ s.source.stepsLeft := by
  cases hm with
  | check hp => exact Nat.le_refl _
  | list hp hnames => exact absurd hp h.ne_admitted
  | drop hp => exact Nat.le_add_right _ _
  | lose hp hsend =>
      unfold Enumeration.stepsLeft
      rw [hsend]
      simp only [Enumeration.Producer.work, RetrievalStep.reads, ScanStep.reads, List.length_nil, Bool.toNat_true]
      omega
  | @scan a scan hscan hsend =>
      cases a with
      | produce =>
          obtain ⟨source, hproduce, rfl⟩ := Option.map_eq_some_iff.1 hscan
          exact Enumeration.stepsLeft_produce hproduce
      | take =>
          obtain ⟨⟨item, source⟩, htake, rfl⟩ := Option.map_eq_some_iff.1 hscan
          exact Enumeration.stepsLeft_take htake
      | write | shut | clear => exact Nat.le_of_eq (by rw [(Scan.unread_of_step hscan rfl).1]; rfl)

/-- However long others are at work, producer and consumer take only so many steps. -/
theorem reads_le_of_stepwise (h : stepwise step s labels = some t) (hbegun : s.HasBegun) :
    t.source.stepsLeft + labels.countP (·.reads) ≤ s.source.stepsLeft ∧ t.HasBegun := by
  refine stepwise_induction (P := fun sooner t => t.source.stepsLeft + sooner.countP (·.reads) ≤ s.source.stepsLeft ∧
    t.HasBegun) h ⟨Nat.le_refl _, hbegun⟩ fun sooner u a v _ _ ⟨hbound, hbegun⟩ hstep => ?_
  have hm := moves_of_step hstep
  have hless := stepsLeft_moves hbegun hm
  refine ⟨?_, hbegun.moves hm⟩
  rw [List.countP_append, List.countP_singleton]
  cases hreads : a.reads <;> simp [hreads] at hless ⊢ <;> omega

theorem ended_moves (h : s.HasBegun) (hended : s.source = ⟨.finished, []⟩) (hm : Moves s a t) :
    t.source = ⟨.finished, []⟩ ∧ t.taken = s.taken := by
  cases hm with
  | check hp => exact ⟨hended, rfl⟩
  | list hp hnames => exact absurd hp h.ne_admitted
  | drop hp => exact ⟨by rw [hended], rfl⟩
  | lose hp hsend => exact ⟨rfl, rfl⟩
  | scan hscan hsend =>
      obtain ⟨hsource, htaken⟩ := Scan.still_of_step hscan hended
      exact ⟨hsource.trans hended, htaken⟩

theorem taken_of_ended (h : stepwise step s labels = some t) (hbegun : s.HasBegun)
    (hended : s.source = ⟨.finished, []⟩) : t.taken = s.taken := by
  refine (stepwise_keeps (P := fun t => t.HasBegun ∧ t.source = ⟨.finished, []⟩ ∧ t.taken = s.taken) h
    ⟨hbegun, hended, rfl⟩ fun u a v _ ⟨hbegun, hended, hsame⟩ hstep => ?_).2.2
  have hm := moves_of_step hstep
  obtain ⟨hstill, htaken⟩ := ended_moves hbegun hended hm
  exact ⟨hbegun.moves hm, hstill, htaken.trans hsame⟩

/-- Until an enumeration has come to its end, its producer can go on or its consumer can take an item. -/
theorem exists_read (hp : s.phase = .listed) (h : s.source ≠ ⟨.finished, []⟩) :
    (s.step (.scan .produce)).isSome ∨ (s.step (.scan .take)).isSome := by
  have hscan : ∀ a, s.step (.scan a) = (s.toScan.step a).map fun scan => { s with toScan := scan } := by
    intro a
    simp only [step, scanStep, hp]
  rw [hscan, hscan, Option.isSome_map, Option.isSome_map]
  simp only [Scan.step, Option.isSome_map]
  exact Enumeration.produce_or_take s.memory h

/-! ## All of it -/

/-- Whatever else happens, an enumeration yields metrics of different names that were stored when it listed them, each
as it stood in the store when it was looked up, and after them at most one error. In a store that is neither emptied
nor closed before the end a consumer that does not stop gets all that was stored. Nothing follows the end; and it
comes, since producer and consumer can go on until then, and take only so many steps. -/
theorem enumeration_faithful {m : Memory} (hu : stepwise step (begin m) before = some u)
    (hs : stepwise step u (.list names :: after) = some s) :
    (names.Perm u.memory.contents.keys ∧ ∀ earlier between v, before = earlier ++ .check :: between →
      stepwise step (begin m) earlier = some v → (∀ a ∈ between, a.disturbs = false) →
      v.memory.contents.keys ⊆ names) ∧
    (∃ got : List Metric, (s.taken = got.map .ok ∨ s.taken = got.map .ok ++ [.error .closed]) ∧
      (got.map (·.name)).Nodup ∧ (∀ metric ∈ got, metric.name ∈ names) ∧
      (∀ metric ∈ got, Meets step (Finds metric) u (.list names :: after)) ∧
      (u.memory.isOpen = true → (∀ a ∈ after, a.disturbs = false) → s.hasEnded →
        s.taken = got.map .ok ∧ got.map (·.name) = names)) ∧
    (s.hasEnded → ∀ more t, stepwise step s more = some t → t.taken = s.taken) ∧
    (s.phase = .listed → s.hasEnded ∨ (s.step (.scan .produce)).isSome ∨ (s.step (.scan .take)).isSome) ∧
    after.countP (·.reads) ≤ 6 * names.length + 6 := by
  obtain ⟨w, hw, hafter⟩ := Option.bind_eq_some_iff.1 hs
  have hm := moves_of_step hw
  obtain ⟨hphase, hnames⟩ : u.phase = .admitted ∧ names.Perm u.memory.contents.keys := by
    cases hm with
    | list hp hnames => exact ⟨hp, hnames⟩
  have hbegun : w.HasBegun := by
    cases hm with
    | list hp hnames => exact .inl rfl
  have huntouched := untouched_of_stepwise hu hphase
  obtain ⟨hbound, hstill⟩ := reads_le_of_stepwise hafter hbegun
  refine ⟨⟨hnames, fun earlier between v hbefore hv hcalm => ?_⟩, ?_, fun hended more t ht => ?_,
    fun hlisted => ?_, ?_⟩
  · rw [hbefore, stepwise_append, hv, Option.bind_some] at hu
    exact fun name hname => hnames.symm.subset (keys_subset_of_call hu hcalm hname)
  · have hnodup : names.Nodup := hnames.nodup_iff.2 u.memory.contents.nodup
    obtain ⟨got, htaken, hgotNodup, hgotNames, hfound⟩ :=
      yields_names hnodup (follows_of_stepwise hm huntouched hafter).taken
    refine ⟨got, htaken, hgotNodup, hgotNames, fun metric hmetric => (hfound metric hmetric).cons hw,
      fun hopen hcalm hended => ?_⟩
    exact (steady_of_stepwise hm huntouched hopen hafter hcalm).complete hended htaken
  · exact taken_of_ended ht hstill (Scan.hasEnded_iff.1 hended)
  · by_cases hended : s.source = ⟨.finished, []⟩
    · exact .inl (Scan.hasEnded_iff.2 hended)
    · exact .inr (exists_read hlisted hended)
  · have hfirst : w.source.stepsLeft = 6 * names.length + 6 := by
      cases hm with
      | list hp hnames =>
          simp only [Enumeration.stepsLeft, Enumeration.Producer.work, List.length_nil]
          omega
    omega

def threeNames : Contents := Contents.ofMetrics [.counter "a" 0, .counter "b" 0, .counter "c" 0]

/-- Looking a name up takes three steps: is the store open, what is stored, and handing it over. -/
def lookedUp : List RetrievalStep := List.replicate 3 (.scan .produce)

def tookAll : List RetrievalStep := .scan .produce :: List.replicate 3 (.scan .take)

/-- A name is written before it is listed, and two at once when one of them has been looked up. -/
def writtenFirst : List RetrievalStep := [.check, .scan (.write (.save (.counter "b" 1)))]

def writtenBetween : List RetrievalStep :=
  lookedUp ++ .scan (.write (.saveBatch [.counter "c" 2, .counter "a" 2])) :: (lookedUp ++ lookedUp ++ tookAll)

theorem enumeration_faithful_written : ∃ u s,
    stepwise step (begin ⟨threeNames, true⟩) writtenFirst = some u ∧
    stepwise step u (.list ["c", "b", "a"] :: writtenBetween) = some s ∧
    s.taken = [.ok (.counter "c" 0), .ok (.counter "b" 1), .ok (.counter "a" 2)] ∧ s.hasEnded ∧
    ∃ got : List Metric, s.taken = got.map .ok ∧ got.map (·.name) = ["c", "b", "a"] := by
  have hrun : ((stepwise step (begin ⟨threeNames, true⟩) writtenFirst).bind fun u =>
      (stepwise step u (.list ["c", "b", "a"] :: writtenBetween)).map fun s => (u.memory.isOpen, s.taken, s.hasEnded))
      = some (true, [.ok (.counter "c" 0), .ok (.counter "b" 1), .ok (.counter "a" 2)], true) := by decide +kernel
  obtain ⟨u, hu, hrun⟩ := Option.bind_eq_some_iff.1 hrun
  obtain ⟨s, hs, hseen⟩ := Option.map_eq_some_iff.1 hrun
  simp only [Prod.mk.injEq] at hseen
  obtain ⟨hopen, htaken, hended⟩ := hseen
  obtain ⟨-, ⟨got, -, -, -, -, hall⟩, -⟩ := enumeration_faithful hu hs
  exact ⟨u, s, hu, hs, htaken, hended, got, hall hopen (by decide) hended⟩

/-- The store is emptied after one name has been looked up, and closed after the next has not been found. -/
example : (stepwise step (begin ⟨threeNames, true⟩) ([.check, .list ["a", "b", "c"]] ++ lookedUp ++
    [.scan (.write .reset), .scan .produce, .scan .produce, .scan (.write (.save (.counter "c" 3))), .scan .shut,
      .scan .produce, .scan .produce, .scan .take, .scan .take, .scan .clear])).map (fun s => (s.taken, s.hasEnded))
    = some ([.ok (.counter "a" 0), .error .closed], true) := by
  decide +kernel

end Retrieval

end PushMetrics
