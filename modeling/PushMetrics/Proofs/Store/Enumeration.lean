import PushMetrics.Proofs.Store.Contents
import PushMetrics.Store.Enumeration

/-!
# What an enumeration still yields

An enumeration has made some items that have not been taken, and has names left to look up. What it still yields if
the store stays as it is does not change while it goes on; so all that a write changes are the names that are left.
When the store is closed, an enumeration with names left ends with an error, unless it is just looking one up.
-/

namespace PushMetrics.Enumeration

variable {m : Memory} {c : Contents} {e f : Enumeration} {item : Item} {got : List Metric}

/-- The items that have been made and not taken, oldest first. -/
def items (e : Enumeration) : List Item :=
  match e.producer with
  | .send item _ => e.channel ++ [item]
  | _ => e.channel

/-- The names that are still to be looked up. -/
def left (e : Enumeration) : List String :=
  match e.producer with
  | .check names => names
  | .look names => names
  | .send (.ok _) names => names
  | .send (.error _) _ => []
  | .finished => []

/-! ## The steps of the producer and the consumer -/

/-- What a step of the producer makes. -/
inductive Produces (m : Memory) (e f : Enumeration) : Prop where
  | goOn (hitems : f.items = e.items) (hleft : f.left = e.left)
      (hlook : ∀ names, f.producer = .look names → m.isOpen = true)
  | look {name : String} {names : List String} (hlook : e.producer = .look (name :: names))
      (hitems : f.items = e.items ++ (m.contents.metric? name).toList.map .ok) (hleft : e.left = name :: f.left)
  | close (hclosed : m.isOpen = false) (hitems : f.items = e.items ++ [.error .closed]) (hleft : f.left = [])

theorem produces (h : e.produce m = some f) : Produces m e f := by
  obtain ⟨producer, channel⟩ := e
  cases producer with
  | check names =>
      cases names with
      | nil =>
          cases h
          exact .goOn rfl rfl (by rintro _ ⟨⟩)
      | cons name names =>
          cases hopen : m.isOpen with
          | true =>
              simp only [produce, hopen, ↓reduceIte] at h
              cases h
              exact .goOn rfl rfl fun _ _ => hopen
          | false =>
              simp only [produce, hopen, Bool.false_eq_true, ↓reduceIte] at h
              cases h
              exact .close hopen rfl rfl
  | look names =>
      cases names with
      | nil =>
          cases h
          exact .goOn rfl rfl (by rintro _ ⟨⟩)
      | cons name names =>
          cases h
          refine .look rfl ?_ ?_ <;> cases m.contents.metric? name <;> simp [items, left]
  | send item names =>
      simp only [produce] at h
      split at h
      · cases h
        cases item <;> exact .goOn rfl rfl (by rintro _ ⟨⟩)
      · cases h
  | finished => cases h

theorem left_produce (h : e.produce m = some f) : f.left <:+ e.left := by
  cases produces h with
  | goOn hitems hleft hlook => exact hleft ▸ List.suffix_refl _
  | look hlook hitems hleft => exact hleft ▸ List.suffix_cons _ _
  | close hclosed hitems hleft => exact hleft ▸ List.nil_suffix

/-- Only an enumeration with names left makes an item. -/
theorem left_ne_nil_of_items (h : e.produce m = some f) (hmore : f.items ≠ e.items) : e.left ≠ [] := by
  obtain ⟨producer, channel⟩ := e
  cases producer with
  | check names =>
      cases names with
      | nil =>
          cases h
          exact absurd rfl hmore
      | cons name names => exact List.cons_ne_nil _ _
  | look names =>
      cases names with
      | nil =>
          cases h
          exact absurd rfl hmore
      | cons name names => exact List.cons_ne_nil _ _
  | send item names =>
      simp only [produce] at h
      split at h
      · cases h
        cases item <;> exact absurd rfl hmore
      · cases h
  | finished => cases h

theorem channel_produce (h : e.produce m = some f) : f.channel.length ≤ e.channel.length + 1 := by
  obtain ⟨producer, channel⟩ := e
  cases producer with
  | check names => cases names <;> cases h <;> exact Nat.le_succ _
  | look names => cases names <;> cases h <;> exact Nat.le_succ _
  | send item names =>
      simp only [produce] at h
      split at h
      · cases h
        simp
      · cases h
  | finished => cases h

theorem channel_produce_of_not_send (h : e.produce m = some f)
    (hsend : ∀ item names, e.producer ≠ .send item names) : f.channel = e.channel := by
  obtain ⟨producer, channel⟩ := e
  cases producer with
  | check names => cases names <;> cases h <;> rfl
  | look names => cases names <;> cases h <;> rfl
  | send item names => exact absurd rfl (hsend item names)
  | finished => cases h

theorem items_take (h : e.take = some (item, f)) :
    e.items = item :: f.items ∧ f.left = e.left ∧ f.producer = e.producer := by
  obtain ⟨producer, channel⟩ := e
  cases channel with
  | nil => cases h
  | cons first others =>
      cases h
      refine ⟨?_, rfl, rfl⟩
      cases producer <;> rfl

theorem items_ended (htake : e.take = none) (hfinished : e.producer = .finished) : e.items = [] ∧ e.left = [] := by
  obtain ⟨producer, channel⟩ := e
  obtain rfl : producer = .finished := hfinished
  cases channel with
  | nil => exact ⟨rfl, rfl⟩
  | cons first others => cases htake

/-! ## How far it can go -/

/-- A bound on the steps that the producer and the consumer can still take. -/
def stepsLeft (e : Enumeration) : Nat := 2 * Producer.work e.producer + e.channel.length

theorem stepsLeft_produce (h : e.produce m = some f) : f.stepsLeft < e.stepsLeft := by
  have hwork := work_produce h
  have hchannel := channel_produce h
  unfold stepsLeft
  omega

theorem stepsLeft_take (h : e.take = some (item, f)) : f.stepsLeft < e.stepsLeft := by
  obtain ⟨producer, channel⟩ := e
  cases channel with
  | nil => cases h
  | cons first others =>
      cases h
      exact Nat.lt_succ_self _

/-- Unless all is done, the producer can go on, or the consumer can take an item. -/
theorem produce_or_take (m : Memory) (h : e ≠ ⟨.finished, []⟩) : (e.produce m).isSome ∨ e.take.isSome := by
  obtain ⟨producer, channel⟩ := e
  cases channel with
  | cons first others => exact .inr rfl
  | nil =>
      left
      cases producer with
      | check names => cases names <;> rfl
      | look names => cases names <;> rfl
      | send item names => rfl
      | finished => exact absurd rfl h

/-! ## In a store that stays open -/

/-- What an enumeration still yields if the store stays open with these contents. -/
def rest (c : Contents) (e : Enumeration) : List Item := e.items ++ (e.left.filterMap c.metric?).map .ok

theorem rest_listed (c : Contents) (names : List String) :
    rest c ⟨.check names, []⟩ = (names.filterMap c.metric?).map .ok := rfl

/-- A producer changes nothing in what its enumeration still yields, unless it finds the store closed. -/
theorem rest_produce (h : e.produce m = some f) :
    f.rest m.contents = e.rest m.contents ∨ m.isOpen = false ∧ .error .closed ∈ f.items := by
  cases produces h with
  | goOn hitems hleft hlook => exact .inl (by rw [rest, rest, hitems, hleft])
  | @look name names hlook hitems hleft =>
      left
      rw [rest, rest, hitems, hleft, List.filterMap_cons]
      cases m.contents.metric? name <;> simp
  | close hclosed hitems => exact .inr ⟨hclosed, hitems ▸ List.mem_append_right _ (List.mem_singleton_self _)⟩

theorem rest_take (h : e.take = some (item, f)) (c : Contents) : e.rest c = item :: f.rest c := by
  obtain ⟨hitems, hleft, -⟩ := items_take h
  rw [rest, rest, hitems, hleft, List.cons_append]

theorem rest_ended (htake : e.take = none) (hfinished : e.producer = .finished) (c : Contents) : e.rest c = [] := by
  obtain ⟨hitems, hleft⟩ := items_ended htake hfinished
  rw [rest, hitems, hleft]
  rfl

/-! ## Beside the closing of the store -/

/-- The items are the metrics of some contents, in some order. -/
def Covers (c : Contents) (items : List Item) : Prop := ∃ ms : List Metric, ms.Perm c.metrics ∧ items = ms.map .ok

/-- An enumeration of a closed store has made an error, or is about to, or has made all that it was to yield. -/
def Sealed (c : Contents) (got : List Metric) (e : Enumeration) : Prop :=
  (∃ fault, .error fault ∈ e.items) ∨ (e.left ≠ [] ∧ ∀ names, e.producer ≠ .look names) ∨
    e.left = [] ∧ Covers c (got.map .ok ++ e.items)

theorem Sealed.produce (h : e.Sealed c got) (hproduce : e.produce m = some f) (hclosed : m.isOpen = false) :
    f.Sealed c got := by
  cases produces hproduce with
  | goOn hitems hleft hlook =>
      rw [Sealed, hitems, hleft]
      refine h.imp_right (Or.imp_left fun ⟨hnames, _⟩ => ⟨hnames, fun names heq => ?_⟩)
      exact absurd (hclosed.symm.trans (hlook names heq)) nofun
  | look hlook hitems hleft =>
      rcases h with ⟨fault, hfault⟩ | ⟨-, hnever⟩ | ⟨hnone, -⟩
      · exact .inl ⟨fault, hitems ▸ List.mem_append_left _ hfault⟩
      · exact absurd hlook (hnever _)
      · exact absurd (hnone.symm.trans hleft) nofun
  | close hclosed hitems hleft => exact .inl ⟨.closed, hitems ▸ List.mem_append_right _ (List.mem_singleton_self _)⟩

/-- What an enumeration of a store has yielded and still yields are the metrics of contents that the store has, or had
until it was closed and emptied. -/
def Faithful (m : Memory) (c : Contents) (got : List Metric) (e : Enumeration) : Prop :=
  m.contents = c ∧ Covers c (got.map .ok ++ e.rest c) ∨ m.isOpen = false ∧ e.Sealed c got

theorem faithful_listed {names : List String} (h : names.Perm m.contents.keys) :
    Faithful m m.contents [] ⟨.check names, []⟩ :=
  .inl ⟨rfl, _, Contents.perm_filterMap_metric? h, rest_listed m.contents names⟩

theorem Faithful.produce (h : e.Faithful m c got) (hproduce : e.produce m = some f) : f.Faithful m c got := by
  rcases h with ⟨rfl, hall⟩ | ⟨hclosed, hsealed⟩
  · rcases rest_produce hproduce with hrest | ⟨hclosed, herror⟩
    · exact .inl ⟨rfl, hrest ▸ hall⟩
    · exact .inr ⟨hclosed, .inl ⟨_, herror⟩⟩
  · exact .inr ⟨hclosed, hsealed.produce hproduce hclosed⟩

theorem Faithful.take {metric : Metric} (h : e.Faithful m c got) (htake : e.take = some (.ok metric, f)) :
    f.Faithful m c (got ++ [metric]) := by
  refine h.imp (And.imp_right fun hall => ?_) (And.imp_right fun hsealed => ?_)
  · simpa [rest_take htake] using hall
  · obtain ⟨hitems, hleft, hproducer⟩ := items_take htake
    rw [Sealed, hitems, ← hleft, ← hproducer] at hsealed
    rcases hsealed with ⟨fault, hfault⟩ | hnames | ⟨hnone, hall⟩
    · exact .inl ⟨fault, by simpa using hfault⟩
    · exact .inr (.inl hnames)
    · exact .inr (.inr ⟨hnone, by simpa using hall⟩)

/-- An enumeration that comes to its end without an error has yielded everything. -/
theorem Faithful.complete (h : e.Faithful m c got) (htake : e.take = none) (hfinished : e.producer = .finished) :
    got.Perm c.metrics := by
  obtain ⟨hitems, hleft⟩ := items_ended htake hfinished
  have hall : Covers c (got.map .ok) := by
    rcases h with ⟨-, hall⟩ | ⟨-, ⟨fault, hfault⟩ | ⟨hnames, -⟩ | ⟨-, hall⟩⟩
    · simpa [rest_ended htake hfinished] using hall
    · simp [hitems] at hfault
    · exact absurd hleft hnames
    · simpa [hitems] using hall
  obtain ⟨ms, hms, heq⟩ := hall
  obtain rfl : got = ms := List.map_injective_iff.2 (fun _ _ h => Except.ok.inj h) heq
  exact hms

/-- Emptying a closed store does no harm to an enumeration that is not just looking a name up. -/
theorem Faithful.clear (h : e.Faithful m c got) (hlook : ∀ names, e.producer ≠ .look names)
    (hclosed : m.isOpen = false) : e.Faithful { m with contents := Dict.empty } c got := by
  refine .inr ⟨hclosed, ?_⟩
  rcases h with ⟨-, hall⟩ | ⟨-, hsealed⟩
  · by_cases hleft : e.left = []
    · exact .inr (.inr ⟨hleft, by simpa [rest, hleft] using hall⟩)
    · exact .inr (.inl ⟨hleft, hlook⟩)
  · exact hsealed

/-- Closing a store does no harm to any enumeration, as long as the store is not emptied. -/
theorem Faithful.shut (h : e.Faithful m c got) : e.Faithful { m with isOpen := false } c got :=
  h.imp id fun ⟨_, hsealed⟩ => ⟨rfl, hsealed⟩

end PushMetrics.Enumeration
