import PushMetrics.Agent.State

/-!
# Settings with which an agent can start

A number among the settings is the default or has been read from its variable, and fits into its word. Settings that
have been accepted leave neither the queue nor the intervals empty, and their rate of deliveries is far below the
greatest number of permits. So an agent starts with all of them, unless its queue is to have more slots than one pool
has permits: the capacity is read as a word of 64 bits, and nothing bounds it but that.
-/

namespace PushMetrics

open Number Text

namespace Config

variable {vars : Variables} {name : String} {bits default n : Nat}

theorem lt_of_word? {s : String} (h : word? bits s = some n) : n < twoPow bits := by
  obtain ⟨-, hlt⟩ := Option.filter_eq_some_iff.1 h
  exact of_decide_eq_true hlt

/-- A number is the default of its setting, or stands in its variable. -/
theorem word_cases (h : word vars name bits default = .ok n) :
    vars name = none ∧ n = default ∨ ∃ value, vars name = some value ∧ word? bits (trim value) = some n := by
  unfold word at h
  split at h
  · rename_i hunset
    cases h
    exact .inl ⟨hunset, rfl⟩
  · rename_i value hset
    split at h
    · rename_i hword
      cases h
      exact .inr ⟨value, hset, hword⟩
    · cases h

theorem word_lt (h : word vars name bits default = .ok n) (hdefault : default < twoPow bits) : n < twoPow bits := by
  rcases word_cases h with ⟨-, rfl⟩ | ⟨value, -, hword⟩
  · exact hdefault
  · exact lt_of_word? hword

theorem ok_of_bind {α β : Type} {first : Except ConfigError α} {next : α → Except ConfigError β} {b : β}
    (h : first >>= next = .ok b) : ∃ a, first = .ok a ∧ next a = .ok b := by
  cases first with
  | error e => cases h
  | ok a => exact ⟨a, rfl, h⟩

theorem ok_of_toOption {α : Type} {result : Except ConfigError α} {a : α} (h : result.toOption = some a) :
    result = .ok a := by
  cases result with
  | error e => cases h
  | ok b => exact congrArg _ (Option.some.inj h)

end Config

namespace Agent

open PushMetrics.Config

variable {vars : Variables} {config : Config}

/-- What the checks promise. -/
theorem Config.check_spec (h : config.check = .ok ()) :
    config.pollInterval.isZero = false ∧ config.reportInterval.isZero = false ∧ 0 < config.queueCapacity := by
  unfold check at h
  split at h
  · cases h
  · split at h
    · cases h
    · rename_i hintervals
      simp only [Bool.or_eq_true, not_or, Bool.not_eq_true] at hintervals
      split at h
      · cases h
      · rename_i hlimits
        simp only [not_or] at hlimits
        exact ⟨hintervals.1, hintervals.2, Nat.pos_of_ne_zero hlimits.2.1⟩

/-- Settings that are accepted have been read from their variables and have passed the checks. -/
theorem Config.ofVariables_spec (h : ofVariables vars = .ok config) :
    word vars "QUEUE_CAPACITY" 64 default.queueCapacity = .ok config.queueCapacity ∧
      word vars "RATE_LIMIT" 32 default.rateLimit = .ok config.rateLimit ∧ config.check = .ok () := by
  obtain ⟨c, hread, h⟩ := ok_of_bind h
  obtain ⟨_, hcheck, h⟩ := ok_of_bind h
  cases h
  obtain ⟨poll, -, hread⟩ := ok_of_bind hread
  obtain ⟨report, -, hread⟩ := ok_of_bind hread
  obtain ⟨batchSize, -, hread⟩ := ok_of_bind hread
  obtain ⟨queueCapacity, hcapacity, hread⟩ := ok_of_bind hread
  obtain ⟨rateLimit, hrate, hread⟩ := ok_of_bind hread
  obtain ⟨retryAttempts, -, hread⟩ := ok_of_bind hread
  obtain ⟨retryBase, -, hread⟩ := ok_of_bind hread
  obtain ⟨retryCap, -, hread⟩ := ok_of_bind hread
  obtain ⟨sendTimeout, -, hread⟩ := ok_of_bind hread
  obtain ⟨shutdownTimeout, -, hread⟩ := ok_of_bind hread
  cases hread
  exact ⟨hcapacity, hrate, hcheck⟩

/-- What an agent needs of its settings to be made and to begin. -/
theorem State.start?_isSome_iff {collectors : Nat} : (State.start? config collectors).isSome ↔
    (0 < config.queueCapacity ∧ config.queueCapacity ≤ Queue.greatestCapacity) ∧
      config.rateLimit ≤ Queue.greatestCapacity ∧
      config.pollInterval.isZero = false ∧ config.reportInterval.isZero = false := by
  rw [Option.isSome_iff_exists]
  constructor
  · rintro ⟨s, h⟩
    obtain ⟨pushing, hpushing, h⟩ := Option.bind_eq_some_iff.1 h
    obtain ⟨queue, hqueue, rfl⟩ := Option.map_eq_some_iff.1 hpushing
    unfold Queue.fresh? at hqueue
    split at hqueue
    · rename_i hcapacity
      split at h
      · rename_i hrest
        simp only [Bool.not_eq_true'] at hrest
        exact ⟨hcapacity, hrest⟩
      · cases h
    · cases hqueue
  · rintro ⟨hcapacity, hrate, hpoll, hreport⟩
    simp [State.start?, Pushing.fresh?, Queue.fresh?, hcapacity, hrate, hpoll, hreport]

/-- Accepted settings meet all that an agent needs to start, but for the size of its queue: an agent starts with them
unless the variable of the capacity asks for more slots than there can be permits. -/
theorem accepted_settings_start (h : Config.ofVariables vars = .ok config) (collectors : Nat) :
    0 < config.queueCapacity ∧ config.rateLimit ≤ Queue.greatestCapacity ∧
      config.pollInterval.isZero = false ∧ config.reportInterval.isZero = false ∧
      ((State.start? config collectors).isSome ↔ config.queueCapacity ≤ Queue.greatestCapacity) ∧
      (config.queueCapacity ≤ Queue.greatestCapacity ↔ ∀ value n, vars "QUEUE_CAPACITY" = some value →
        word? 64 (trim value) = some n → n ≤ Queue.greatestCapacity) := by
  obtain ⟨hcapacity, hrate, hcheck⟩ := Config.ofVariables_spec h
  obtain ⟨hpoll, hreport, hpositive⟩ := Config.check_spec hcheck
  have hrateSmall : config.rateLimit ≤ Queue.greatestCapacity := by
    have hlt := word_lt hrate (by decide)
    exact Nat.le_trans (Nat.le_of_lt hlt) (by decide)
  refine ⟨hpositive, hrateSmall, hpoll, hreport, ?_, ?_⟩
  · simp [State.start?_isSome_iff, hpositive, hrateSmall, hpoll, hreport]
  · rcases word_cases hcapacity with ⟨hunset, hdefault⟩ | ⟨value, hset, hword⟩
    · have hsmall : config.queueCapacity ≤ Queue.greatestCapacity := hdefault ▸ by decide
      simp [hunset, hsmall]
    · constructor
      · intro hsmall other n hother hn
        cases hset.symm.trans hother
        cases hword.symm.trans hn
        exact hsmall
      · intro hall
        exact hall value _ hset hword

/-- Variables of which one is set to this text, and no other. -/
def only (name value : String) : Variables := fun asked => if asked = name then some value else none

/-- The greatest queue with which an agent starts, its capacity written with a sign, zeros and blanks. -/
theorem accepted_settings_start_greatest : ∃ config,
    Config.ofVariables (only "QUEUE_CAPACITY" " +002305843009213693951\n") = .ok config ∧
      config.queueCapacity = Queue.greatestCapacity ∧ (State.start? config 3).isSome := by
  have hread : (Config.ofVariables (only "QUEUE_CAPACITY" " +002305843009213693951\n")).toOption.map (·.queueCapacity)
      = some Queue.greatestCapacity := by decide +kernel
  obtain ⟨config, hconfig, hgreatest⟩ := Option.map_eq_some_iff.1 hread
  have haccepted := ok_of_toOption hconfig
  obtain ⟨-, -, -, -, hstarts, -⟩ := accepted_settings_start haccepted 3
  exact ⟨config, haccepted, hgreatest, hstarts.2 (Nat.le_of_eq hgreatest)⟩

/-- One slot more is accepted as well, and no agent starts with it. -/
theorem accepted_settings_overfull : ∃ config,
    Config.ofVariables (only "QUEUE_CAPACITY" "2305843009213693952") = .ok config ∧
      config.queueCapacity = Queue.greatestCapacity + 1 ∧
      ∀ collectors, State.start? config collectors = none := by
  have hread : (Config.ofVariables (only "QUEUE_CAPACITY" "2305843009213693952")).toOption.map (·.queueCapacity)
      = some (Queue.greatestCapacity + 1) := by decide +kernel
  obtain ⟨config, hconfig, hover⟩ := Option.map_eq_some_iff.1 hread
  refine ⟨config, ok_of_toOption hconfig, hover, fun collectors => ?_⟩
  rw [← Option.not_isSome_iff_eq_none, State.start?_isSome_iff, hover]
  rintro ⟨⟨-, hsmall⟩, -⟩
  exact absurd hsmall (Nat.not_succ_le_self _)

end Agent

end PushMetrics
