import PushMetrics.Agent.Endpoint
import PushMetrics.Proofs.Http.Service
import PushMetrics.Proofs.Json.Numbers
import PushMetrics.Proofs.Metric.Text

/-!
# The wire and back

A payload is read from its JSON form as it was, bit for bit, and so is an array of payloads. So what the agent posts for
a batch is the batch that the collector merges.
-/

namespace PushMetrics

open Json Number Text

namespace Payload

/-! ## Payloads -/

/-- An optional part of a record is written as a field that is read as the part, or left out. -/
theorem exists_part {α : Type} {encode : α → String} (read : Value → Option α) (o : Option α)
    (hnull : read .null = none) (h : ∀ a ∈ o, ∃ v, Writes (encode a) v ∧ read v = some a) :
    ∃ part : Option (String × Value), o.map encode = part.map (·.1) ∧ (∀ f ∈ part, Writes f.1 f.2) ∧
      Value.optional? read (part.map (·.2)) = some o := by
  cases o with
  | none => exact ⟨none, rfl, by simp, rfl⟩
  | some a =>
      obtain ⟨v, hwrites, hread⟩ := h a rfl
      refine ⟨some (encode a, v), rfl, by simpa using hwrites, ?_⟩
      cases v with
      | null => cases hnull.symm.trans hread
      | _ => simp only [Option.map_some, Value.optional?, hread]

theorem encloses_encode {p : Payload} (hp : ∀ x ∈ p.value, x.isFinite = true) :
    ∃ v, Encloses p.encode v ∧ decode? v = some p := by
  obtain ⟨id, tag, delta, value⟩ := p
  obtain ⟨count, hcount, hcountWrites, hcountRead⟩ := exists_part Value.int64? delta rfl
    fun n _ => writes_encodeInt n
  obtain ⟨number, hnumber, hnumberWrites, hnumberRead⟩ := exists_part Value.binary64? value rfl
    fun x hx => writes_encodeBinary64 (hp x hx)
  let fields : List (String × String × Value) :=
    [("id", encodeText id, .text (id.toList.map pieceOf)), ("type", encodeText tag, .text (tag.toList.map pieceOf))] ++
      (count.map ("delta", ·)).toList ++ (number.map ("value", ·)).toList
  have hencode : encode ⟨id, tag, delta, value⟩ = encodeObject (fields.map fun f => (f.1, f.2.1)) := by
    have hdelta : (delta.map fun n => ("delta", encodeInt n.toInt)) = count.map fun f => ("delta", f.1) := by
      have hpair := congrArg (Option.map ("delta", ·)) hcount
      simpa [Function.comp_def] using hpair
    have hvalue : (value.map fun x => ("value", encodeBinary64 x)) = number.map fun f => ("value", f.1) := by
      have hpair := congrArg (Option.map ("value", ·)) hnumber
      simpa [Function.comp_def] using hpair
    simp only [encode, hdelta, hvalue, fields]
    cases count <;> cases number <;> rfl
  refine ⟨.ofFields fields, ?_, ?_⟩
  · rw [hencode]
    refine encloses_encodeObject (by simp [fields]) fun f hf => ?_
    simp only [fields, List.mem_append, List.mem_cons, List.not_mem_nil, or_false, Option.mem_toList,
      Option.map_eq_some_iff] at hf
    rcases hf with ((rfl | rfl) | ⟨f, hf, rfl⟩) | ⟨f, hf, rfl⟩
    · exact (encloses_encodeText id).writes
    · exact (encloses_encodeText tag).writes
    · exact hcountWrites f hf
    · exact hnumberWrites f hf
  · have hfields : (Value.ofFields fields).fields? ["id", "type", "delta", "value"] 2
        = some [some (.text (id.toList.map pieceOf)), some (.text (tag.toList.map pieceOf)), count.map (·.2),
            number.map (·.2)] := by
      rw [fields?_ofFields]
      cases count <;> cases number <;> rfl
    simp only [decode?, hfields, bind, Option.bind, Value.text?, string?_pieces, hcountRead, hnumberRead]

theorem encloses_encodeAll {ps : List Payload} (hps : ∀ p ∈ ps, ∀ x ∈ p.value, x.isFinite = true) :
    ∃ v, Encloses (encodeAll ps) v ∧ v.list? decode? = some ps := by
  have hitems : ∃ items : List (String × Value), ps.map encode = items.map (·.1) ∧ (∀ i ∈ items, Writes i.1 i.2) ∧
      (items.map (·.2)).mapM decode? = some ps := by
    induction ps with
    | nil => exact ⟨[], rfl, by simp, rfl⟩
    | cons p ps ih =>
        obtain ⟨v, hencloses, hdecode⟩ := encloses_encode (hps p List.mem_cons_self)
        obtain ⟨items, hwritten, hwrites, hread⟩ := ih fun q hq => hps q (List.mem_cons_of_mem p hq)
        refine ⟨(p.encode, v) :: items, by simp [hwritten], ?_, by simp [hdecode, hread]⟩
        exact List.forall_mem_cons.2 ⟨hencloses.writes, hwrites⟩
  obtain ⟨items, hwritten, hwrites, hread⟩ := hitems
  have hencloses := encloses_encodeArray hwrites
  rw [← hwritten] at hencloses
  exact ⟨_, hencloses, hread⟩

theorem ofBytes?_encode {p : Payload} (hp : ∀ x ∈ p.value, x.isFinite = true) :
    (Value.ofBytes? (utf8 p.encode)).bind decode? = some p := by
  obtain ⟨v, hencloses, hdecode⟩ := encloses_encode hp
  rw [ofBytes?_utf8, hencloses.ofText?, Option.bind_some, hdecode]

theorem ofBytes?_encodeAll {ps : List Payload} (hps : ∀ p ∈ ps, ∀ x ∈ p.value, x.isFinite = true) :
    (Value.ofBytes? (utf8 (encodeAll ps))).bind (Value.list? decode?) = some ps := by
  obtain ⟨v, hencloses, hdecode⟩ := encloses_encodeAll hps
  rw [ofBytes?_utf8, hencloses.ofText?, Option.bind_some, hdecode]

/-! ## Metrics -/

theorem isFinite_ofMetric {m : Metric} (hm : m.isWellFormed = true) : ∀ x ∈ (ofMetric m).value, x.isFinite = true := by
  obtain ⟨name, sample⟩ := m
  cases sample with
  | gauge value => simp_all [ofMetric, Metric.isWellFormed, Sample.isStorable]
  | counter count => simp [ofMetric]

theorem toMetric_ofMetric {m : Metric} (hm : m.isWellFormed = true) : (ofMetric m).toMetric = .ok m := by
  obtain ⟨name, sample⟩ := m
  have hname : name ≠ "" := by
    rintro rfl
    cases hm
  cases sample with
  | gauge value =>
      have hfinite := isFinite_ofMetric hm value rfl
      simp [ofMetric, toMetric, Metric.kind, Sample.kind, Kind.parse_tag, bind, Except.bind, hname, hfinite, pure,
        Except.pure]
  | counter count =>
      simp [ofMetric, toMetric, Metric.kind, Sample.kind, Kind.parse_tag, bind, Except.bind, hname, pure, Except.pure]

end Payload

open Http Payload in
/-- A payload whose value, if it has one, is a finite number is read from its JSON form as it was, and so is an array of
them, of any length. A metric that may be stored is found again in the payload that is read, and when the agent posts a
batch of such metrics, these are what the collector merges. -/
theorem wire_round_trip :
    (∀ p : Payload, (∀ x ∈ p.value, x.isFinite = true) → (Value.ofBytes? (utf8 p.encode)).bind decode? = some p) ∧
    (∀ ps : List Payload, (∀ p ∈ ps, ∀ x ∈ p.value, x.isFinite = true) →
      (Value.ofBytes? (utf8 (encodeAll ps))).bind (Value.list? decode?) = some ps) ∧
    (∀ m : Metric, m.isWellFormed = true →
      ((Value.ofBytes? (utf8 (ofMetric m).encode)).bind decode?).map toMetric = some (.ok m)) ∧
    ∀ {σ : Type} (b : Backend σ) (s : σ) (address : String) (ms : List Metric) (r : Request),
      (∀ m ∈ ms, m.isWellFormed = true) → r.body = utf8 (Agent.Post.ofBatch address (ms.map ofMetric)).body →
      refuseLength? r bodyLimit = none → r.body.length ≤ bodyLimit →
      (∀ saved t, Manager.saveBatch b ms s = (.ok saved, t) →
        updates b r s = (.json 200 (encodeAll (saved.map ofMetric)), t)) ∧
      ∀ e t, Manager.saveBatch b ms s = (.error e, t) → updates b r s = (storageFailure e, t) := by
  refine ⟨fun p => ofBytes?_encode, fun ps => ofBytes?_encodeAll, fun m hm => ?_,
    fun b s address ms r hms hbody hdeclared hlength => ?_⟩
  · rw [ofBytes?_encode (isFinite_ofMetric hm), Option.map_some, toMetric_ofMetric hm]
  · have hread : (Value.ofBytes? r.body).bind (Value.list? decode?) = some (ms.map ofMetric) := by
      rw [hbody]
      refine ofBytes?_encodeAll fun p hp => ?_
      obtain ⟨m, hm, rfl⟩ := List.mem_map.1 hp
      exact isFinite_ofMetric (hms m hm)
    have hvalid : (ms.map ofMetric).map toMetric = ms.map .ok := by
      rw [List.map_map]
      exact List.map_congr_left fun m hm => toMetric_ofMetric (hms m hm)
    simp only [updates, readJson, hdeclared, Nat.not_lt.2 hlength, ↓reduceIte, hread, invalidMessages_of_valid hvalid,
      validMetrics_of_valid hvalid, ne_eq, not_true_eq_false]
    constructor
    · intro saved t hsave
      rw [hsave]
    · intro e t hsave
      rw [hsave]

/-- A zero below zero, under a name with a quote, a control character and a clef, and the least count. -/
def awkward : Payload := ⟨"\"\x01𝄞", "", some Int64.minValue, some (.ofRank true 0)⟩

/-- A gauge at the least number above zero, one at a hundred trillion squared, and a count. -/
def extremes : List Metric :=
  [.gauge "least" (.ofRank false 1), .gauge "huge" (.ofDecimal ⟨false, 1, 28⟩), .counter "count" (-7)]

open Http Payload in
theorem wire_round_trip_extremes :
    (Value.ofBytes? (utf8 awkward.encode)).bind decode? = some awkward ∧
    (Value.ofBytes? (utf8 (encodeAll (awkward :: extremes.map ofMetric)))).bind (Value.list? decode?)
      = some (awkward :: extremes.map ofMetric) ∧
    ((Value.ofBytes? (utf8 (ofMetric (.gauge "least" (.ofRank false 1))).encode)).bind decode?).map toMetric
      = some (.ok (.gauge "least" (.ofRank false 1))) ∧
    ∃ t, updates Memory.backend (post "/updates/" (Agent.Post.ofBatch "localhost" (extremes.map ofMetric)).body)
      ⟨.ofMetrics [], true⟩ = (.json 200 (encodeAll (extremes.map ofMetric)), t) := by
  have hawkward : ∀ x ∈ awkward.value, x.isFinite = true := by decide
  have hextremes : ∀ m ∈ extremes, m.isWellFormed = true := by decide +kernel
  obtain ⟨hone, hall, hmetric, hpost⟩ := wire_round_trip
  refine ⟨hone awkward hawkward, hall _ ?_, hmetric _ (by decide), ?_⟩
  · decide +kernel
  · have hsaved : (Manager.saveBatch Memory.backend extremes ⟨.ofMetrics [], true⟩).1 = .ok extremes := by
      decide +kernel
    obtain ⟨t, hsave⟩ : ∃ t, Manager.saveBatch Memory.backend extremes ⟨.ofMetrics [], true⟩ = (.ok extremes, t) :=
      ⟨_, by rw [← hsaved]⟩
    have hlength : (post "/updates/" (Agent.Post.ofBatch "localhost" (extremes.map ofMetric)).body).body.length
        ≤ bodyLimit := by
      decide +kernel
    have hbody : ∀ body, (post "/updates/" body).body = utf8 body := fun _ => rfl
    have hdeclared : ∀ body, refuseLength? (post "/updates/" body) bodyLimit = none := fun _ => rfl
    have hposted := hpost Memory.backend ⟨.ofMetrics [], true⟩ "localhost" extremes _ hextremes (hbody _) (hdeclared _)
      hlength
    exact ⟨t, hposted.1 extremes t hsave⟩

end PushMetrics
