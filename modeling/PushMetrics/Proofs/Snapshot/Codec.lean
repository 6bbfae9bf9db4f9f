import PushMetrics.Snapshot.Record
import PushMetrics.Proofs.Json.Reading
import PushMetrics.Proofs.Metric.Text
import PushMetrics.Proofs.Text.Utf8

/-!
# Snapshots and back

A snapshot of metrics that may be stored is read as these metrics, whatever their names and values are.
-/

namespace PushMetrics.Snapshot

open Json Text

/-- What stands in the line of a metric, and what it is read as. -/
def fields (m : Metric) : List (String × String × Value) :=
  [("type", m.kind.tag), ("name", m.name), ("value", m.valueText)].map fun f =>
    (f.1, encodeText f.2, .text (f.2.toList.map pieceOf))

def line (m : Metric) : String := encodeObject ((fields m).map fun f => (f.1, f.2.1))

theorem ofText?_line (m : Metric) : Value.ofText? (line m) = some (.ofFields (fields m)) := by
  refine ofText?_encodeObject (by simp [fields]) fun f hf => ?_
  obtain ⟨g, -, rfl⟩ := List.mem_map.1 hf
  exact (encloses_encodeText g.2).writes

theorem decodeMetric_line {m : Metric} (hm : m.isWellFormed) : decodeMetric (line m) = .ok m := by
  have hfields : (Value.ofFields (fields m)).fields? ["type", "name", "value"] 3
      = some ((fields m).map fun f => some f.2.2) := by
    rw [fields?_ofFields]
    rfl
  simp only [decodeMetric, ofText?_line, bind, Option.bind, hfields]
  simp only [fields, List.map_cons, List.map_nil, Value.text?, string?_pieces, Metric.parse_valueText hm]

/-! ## Lines -/

theorem toNat_of_mem_line {m : Metric} {c : Char} (h : c ∈ (line m).toList) : 0x20 ≤ c.toNat := by
  refine toNat_of_mem_encodeObject (fun f hf => ?_) h
  obtain ⟨g, hg, rfl⟩ := List.mem_map.1 hf
  obtain ⟨e, -, rfl⟩ := List.mem_map.1 hg
  exact fun d hd => toNat_of_mem_encodeText hd

theorem line_ends (m : Metric) : ∃ cs, (line m).toList = '\x7b' :: cs ++ ['\x7d'] := by
  rw [line, encodeObject, String.toList_append, String.toList_append]
  exact ⟨_, rfl⟩

theorem trim_line (m : Metric) : trim (line m) = line m := by
  obtain ⟨cs, hcs⟩ := line_ends m
  refine trim_of_ends (fun c hc => ?_) fun c hc => ?_
  · rw [hcs] at hc
    obtain rfl := Option.some.inj hc
    decide
  · rw [hcs, List.getLast?_concat] at hc
    obtain rfl := Option.some.inj hc
    decide

theorem lines_encode (ms : List Metric) : lines (encode ms) = ms.map line := by
  have hlines : ms.map encodeMetric = (ms.map line).map (· ++ "\n") := by
    rw [List.map_map]
    rfl
  rw [encode, hlines]
  refine lines_ended (fun part hpart hfeed => ?_) fun part hpart hreturn => ?_
  · obtain ⟨m, -, rfl⟩ := List.mem_map.1 hpart
    exact absurd (toNat_of_mem_line hfeed) (by decide)
  · obtain ⟨m, -, rfl⟩ := List.mem_map.1 hpart
    exact absurd (toNat_of_mem_line (List.mem_of_getLast? hreturn)) (by decide)

theorem decodeLines_lines {ms : List Metric} (hms : ∀ m ∈ ms, m.isWellFormed) (number : Nat) :
    decodeLines number (ms.map line) = .ok ms := by
  induction ms generalizing number with
  | nil => rfl
  | cons m ms ih =>
      obtain ⟨cs, hcs⟩ := line_ends m
      have hne : line m ≠ "" := fun h => by simp [h] at hcs
      rw [List.map_cons, decodeLines, trim_line, if_neg hne, decodeMetric_line (hms m List.mem_cons_self),
        ih fun n hn => hms n (List.mem_cons_of_mem m hn)]
      rfl

/-- A snapshot of metrics that may be stored is read as these metrics in their order. -/
theorem decode_encode {ms : List Metric} (hms : ∀ m ∈ ms, m.isWellFormed) : decode (encode ms) = .ok ms := by
  rw [decode, lines_encode, decodeLines_lines hms]

end PushMetrics.Snapshot
