import PushMetrics.Metric.Parse
import PushMetrics.Proofs.Number.Shortest
import PushMetrics.Proofs.Text.Lines

/-!
# Metrics in text

The text of a metric's value has no blanks, and kind, name and value of a metric that may be stored read back as it.
-/

namespace PushMetrics

open Number Text

namespace Sample

/-- What stands in the text of a stored value. -/
def isNumeral (c : Char) : Bool := c.isDigit || c == '-' || c == '.'

theorem isBlank_of_isNumeral {c : Char} (h : isNumeral c) : isBlank c = false := by
  simp only [isNumeral, Bool.or_eq_true, beq_iff_eq] at h
  obtain (h | rfl) | rfl := h
  · exact isBlank_eq_false_of_isDigit h
  · decide
  · decide

theorem isNumeral_minus {negative : Bool} {c : Char} (h : c ∈ minus negative) : isNumeral c := by
  cases negative with
  | true =>
      obtain rfl := List.mem_singleton.1 h
      decide
  | false => cases h

theorem isNumeral_place {l : Layout} (hl : l.wholeEnd = []) {ds : List Char} (hds : ∀ c ∈ ds, c.isDigit) (exponent :
    Int) {c : Char} (h : c ∈ l.place ds exponent) : isNumeral c := by
  have hdigit : ∀ c ∈ ds, isNumeral c := fun c hc => by simp [isNumeral, hds c hc]
  have hzero : isNumeral '0' := by decide
  have hpoint : isNumeral '.' := by decide
  unfold Layout.place at h
  split at h
  · simp only [List.mem_append, List.mem_cons, List.not_mem_nil, or_false, List.mem_replicate] at h
    obtain ((rfl | rfl) | ⟨-, rfl⟩) | h := h
    · exact hzero
    · exact hpoint
    · exact hzero
    · exact hdigit c h
  · split at h
    · simp only [hl, List.append_nil, List.mem_append, List.mem_replicate] at h
      obtain h | ⟨-, rfl⟩ := h
      · exact hdigit c h
      · exact hzero
    · simp only [List.mem_append, List.mem_cons] at h
      obtain h | rfl | h := h
      · exact hdigit c (List.mem_of_mem_take h)
      · exact hpoint
      · exact hdigit c (List.mem_of_mem_drop h)

theorem isNumeral_text {s : Sample} (hs : s.isStorable) {c : Char} (h : c ∈ s.text.toList) : isNumeral c := by
  cases s with
  | gauge value =>
      cases value with
      | finite negative rank =>
          simp only [text, gaugeText, String.toList_ofList, Layout.render, Layout.magnitude, Decimal.digits,
            gaugeLayout, ↓reduceIte, List.mem_append] at h
          obtain h | h := h
          · exact isNumeral_minus h
          · exact isNumeral_place rfl (fun c => isDigit_toDigits) _ h
      | nan => cases hs
      | infinite negative => cases hs
  | counter count =>
      simp only [text, countText, integerText, String.toList_ofList, List.mem_append] at h
      obtain h | h := h
      · split at h
        · exact isNumeral_minus (show c ∈ minus true from h)
        · cases h
      · simp [isNumeral, isDigit_toDigits h]

/-- A storable sample's text reads back as it. -/
theorem ofText?_text {s : Sample} (hs : s.isStorable) : ofText? s.kind (trim s.text) = some s := by
  rw [trim_of_all fun c hc => isBlank_of_isNumeral (isNumeral_text hs hc)]
  cases s with
  | gauge value =>
      cases value with
      | finite negative rank =>
          have hread := Layout.ofDecimal_read?_render (l := gaugeLayout) (fun _ => rfl) rfl negative rank
          simp only [ofText?, kind, text, gaugeText, finite?, String.toList_ofList, hread]
          rfl
      | nan => cases hs
      | infinite negative => cases hs
  | counter count => simp only [ofText?, kind, text, countText, int64?_integerText, Option.map_some]

end Sample

/-- Kind, name and value of a metric that may be stored read back as it. -/
theorem Metric.parse_valueText {m : Metric} (hm : m.isWellFormed) :
    Metric.parse m.kind.tag m.name m.valueText = .ok m := by
  simp only [isWellFormed, Bool.and_eq_true, bne_iff_ne] at hm
  obtain ⟨hname, hsample⟩ := hm
  rw [kind, valueText, parse_tag, if_neg hname, Sample.ofText?_text hsample]

end PushMetrics
