import PushMetrics.Proofs.Metric.Text
import PushMetrics.Proofs.Number.Grammar

/-!
# The grammar of metrics

Which texts of a kind, a name and a value make a metric, which one, and which check refuses all others, said by the
grammar of numbers and by correct rounding. Reading accepts exactly what the grammar has, with the integer or the
double precision number that the text stands for.
-/

namespace PushMetrics

open Number Text Binary64

/-! ## Values -/

/-- The texts of a sample under the tag of its kind: for a counter those of an integer of 64 bits, and for a gauge those
of a decimal whose correct rounding is finite. -/
inductive Sample.IsWritten : String → List Char → Sample → Prop where
  | counter {text : List Char} {n : Int} (h : IsInteger text n) (hlow : -2 ^ 63 ≤ n) (hhigh : n < 2 ^ 63) :
      IsWritten "counter" text (.counter (Int64.ofInt n))
  | gauge {text : List Char} {negative : Bool} {x : ℚ} {v : Binary64} (h : IsDecimal text negative x)
      (hround : RoundsTo negative x v) (hfinite : v.isFinite) : IsWritten "gauge" text (.gauge v)

theorem Number.int64?_iff {s : String} {count : Int64} :
    int64? s = some count ↔ ∃ n, IsInteger s.toList n ∧ -2 ^ 63 ≤ n ∧ n < 2 ^ 63 ∧ Int64.ofInt n = count := by
  have hmin : Int64.minValue.toInt = -2 ^ 63 := rfl
  have hmax : Int64.maxValue.toInt = 2 ^ 63 - 1 := rfl
  simp only [int64?, bind, Option.bind_eq_some_iff, integer?_iff, Option.ite_none_right_eq_some, Option.some.injEq, hmin,
    hmax, Int.le_sub_one_iff, and_assoc]

namespace Sample

theorem finite?_iff {s : String} {v : Binary64} :
    finite? s = some v ↔ ∃ negative x, IsDecimal s.toList negative x ∧ RoundsTo negative x v ∧ v.isFinite := by
  rw [finite?, Option.filter_eq_some_iff, Option.map_eq_some_iff]
  constructor
  · rintro ⟨⟨d, hread, rfl⟩, hfinite⟩
    exact ⟨d.negative, d.value, Decimal.isDecimal_iff.2 ⟨d, hread, rfl, rfl⟩, roundsTo_iff.2 rfl, hfinite⟩
  · rintro ⟨negative, x, hdecimal, hround, hfinite⟩
    obtain ⟨d, hread, rfl, rfl⟩ := Decimal.isDecimal_iff.1 hdecimal
    exact ⟨⟨d, hread, (roundsTo_iff.1 hround).symm⟩, hfinite⟩

/-- A sample is read from exactly its texts. -/
theorem ofText?_iff {kind : Kind} {s : String} {sample : Sample} :
    ofText? kind s = some sample ↔ IsWritten kind.tag s.toList sample := by
  cases kind with
  | gauge =>
      rw [ofText?, Option.map_eq_some_iff, Kind.tag]
      constructor
      · rintro ⟨v, hv, rfl⟩
        obtain ⟨negative, x, hdecimal, hround, hfinite⟩ := finite?_iff.1 hv
        exact .gauge hdecimal hround hfinite
      · intro h
        generalize htag : "gauge" = tag at h
        cases h with
        | gauge hdecimal hround hfinite => exact ⟨_, finite?_iff.2 ⟨_, _, hdecimal, hround, hfinite⟩, rfl⟩
        | counter => exact absurd htag (by decide)
  | counter =>
      rw [ofText?, Option.map_eq_some_iff, Kind.tag]
      constructor
      · rintro ⟨count, hcount, rfl⟩
        obtain ⟨n, hinteger, hlow, hhigh, rfl⟩ := int64?_iff.1 hcount
        exact .counter hinteger hlow hhigh
      · intro h
        generalize htag : "counter" = tag at h
        cases h with
        | gauge => exact absurd htag (by decide)
        | counter hinteger hlow hhigh => exact ⟨_, int64?_iff.2 ⟨_, hinteger, hlow, hhigh, rfl⟩, rfl⟩

theorem IsWritten.exists_kind {tag : String} {text : List Char} {sample : Sample} (h : IsWritten tag text sample) :
    ∃ kind : Kind, tag = kind.tag := by
  cases h with
  | counter => exact ⟨.counter, rfl⟩
  | gauge => exact ⟨.gauge, rfl⟩

end Sample

/-! ## Metrics -/

namespace Metric

/-- The metric of three texts: it has the name, which is not empty, and the sample whose text the value is without the
white space at its ends. -/
inductive Described (tag name value : String) : Metric → Prop where
  | intro {text : List Char} {sample : Sample} (hname : name ≠ "") (htext : Trimmed value.toList text)
      (hsample : Sample.IsWritten tag text sample) : Described tag name value ⟨name, sample⟩

/-- The first of the checks of kind, name and value that fails for three texts. -/
inductive Refused (tag name value : String) : ParseError → Prop where
  | kind (hgauge : tag ≠ "gauge") (hcounter : tag ≠ "counter") : Refused tag name value (.unknownKind tag)
  | name {kind : Kind} (htag : tag = kind.tag) (hname : name = "") : Refused tag name value .emptyName
  | value {kind : Kind} (htag : tag = kind.tag) (hname : name ≠ "")
      (hvalue : ∀ text sample, Trimmed value.toList text → ¬ Sample.IsWritten tag text sample) :
      Refused tag name value (.invalidValue kind name value)

variable {tag name value : String}

theorem parse_of_described {m : Metric} (h : Described tag name value m) : Metric.parse tag name value = .ok m := by
  obtain ⟨hname, htext, hsample⟩ := h
  obtain ⟨kind, rfl⟩ := hsample.exists_kind
  rw [trimmed_iff.1 htext] at hsample
  rw [parse_tag, if_neg hname, Sample.ofText?_iff.2 hsample]

theorem parse_of_refused {e : ParseError} (h : Refused tag name value e) : Metric.parse tag name value = .error e := by
  cases h with
  | kind hgauge hcounter => exact parse_of_ne hgauge hcounter name value
  | name htag hname =>
      subst htag
      rw [parse_tag, if_pos hname]
  | @value kind htag hname hvalue =>
      subst htag
      have hnone : Sample.ofText? kind (trim value) = none :=
        Option.eq_none_iff_forall_not_mem.2 fun sample hsample =>
          hvalue _ sample (trimmed_trim value) (Sample.ofText?_iff.1 hsample)
      rw [parse_tag, if_neg hname, hnone]

theorem described_or_refused (tag name value : String) :
    (∃ m, Described tag name value m) ∨ ∃ e, Refused tag name value e := by
  rcases Kind.exists_tag_or tag with ⟨kind, htag⟩ | ⟨hgauge, hcounter⟩
  · by_cases hname : name = ""
    · exact .inr ⟨_, .name htag hname⟩
    · by_cases hvalue : ∃ text sample, Trimmed value.toList text ∧ Sample.IsWritten tag text sample
      · obtain ⟨text, sample, htext, hsample⟩ := hvalue
        exact .inl ⟨_, .intro hname htext hsample⟩
      · exact .inr ⟨_, .value htag hname fun text sample htext hsample => hvalue ⟨text, sample, htext, hsample⟩⟩
  · exact .inr ⟨_, .kind hgauge hcounter⟩

/-- Three texts are read as a metric exactly if they describe it, and refused by a check exactly if it is the first that
fails. -/
theorem parse_follows_grammar (tag name value : String) :
    (∀ m, Metric.parse tag name value = .ok m ↔ Described tag name value m) ∧
      ∀ e, Metric.parse tag name value = .error e ↔ Refused tag name value e := by
  rcases described_or_refused tag name value with ⟨found, hfound⟩ | ⟨fault, hfault⟩
  · have hread := parse_of_described hfound
    refine ⟨fun m => ⟨fun h => ?_, parse_of_described⟩, fun e => ⟨fun h => ?_, parse_of_refused⟩⟩
    · obtain rfl : found = m := Except.ok.inj (hread.symm.trans h)
      exact hfound
    · cases hread.symm.trans h
  · have hread := parse_of_refused hfault
    refine ⟨fun m => ⟨fun h => ?_, parse_of_described⟩, fun e => ⟨fun h => ?_, parse_of_refused⟩⟩
    · cases hread.symm.trans h
    · obtain rfl : fault = e := Except.error.inj (hread.symm.trans h)
      exact hfault

/-- Below half way to the next power of two a text is one of the greatest finite number, and above it of none. -/
example :
    Metric.parse "gauge" "load" "1.7976931348623158e308"
        = .ok (.gauge "load" (.finite false ⟨infinityRank - 1, by decide⟩)) ∧
      Metric.parse "gauge" "load" "\u2003+1.7976931348623159E308\n"
        = .error (.invalidValue .gauge "load" "\u2003+1.7976931348623159E308\n") := by
  decide +kernel

end Metric

end PushMetrics
