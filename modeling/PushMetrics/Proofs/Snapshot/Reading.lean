import PushMetrics.Proofs.Json.Grammar
import PushMetrics.Proofs.Store.Contents
import PushMetrics.Proofs.Text.Lines
import PushMetrics.Snapshot.Record

/-!
# Reading a snapshot line by line

Which lines hold a metric, said by the grammar of JSON and the shape of a record. The lines of a snapshot are read if
each that is not blank holds one, and else the first that holds none is named with its place and its fault.
-/

namespace PushMetrics

open Json Text

/-! ## Records -/

namespace Json

/-- The fields of an object with their names. -/
def Named (fields : List (List Piece × Value)) (named : List (String × Value)) : Prop :=
  List.Forall₂ (fun f g => string? f.1 = some g.1 ∧ f.2 = g.2) fields named

/-- One field has a name, and its value is this. -/
def Only (named : List (String × Value)) (name : String) (v : Value) : Prop :=
  ∃ before after, named = before ++ (name, v) :: after ∧ (∀ f ∈ before, f.1 ≠ name) ∧ ∀ f ∈ after, f.1 ≠ name

/-- The three strings of a record: it is an array of them, or an object that has them as fields of their names, each
once, beside any others. -/
inductive Value.Record (kind name value : List Piece) : Value → Prop where
  | array : Record kind name value (.array [.text kind, .text name, .text value])
  | object {fields : List (List Piece × Value)} {named : List (String × Value)} (hnamed : Named fields named)
      (hkind : Only named "type" (.text kind)) (hname : Only named "name" (.text name))
      (hvalue : Only named "value" (.text value)) : Record kind name value (.object fields)

theorem mapM_eq_some {α β : Type} {f : α → Option β} {xs : List α} {ys : List β} :
    xs.mapM f = some ys ↔ List.Forall₂ (fun x y => f x = some y) xs ys := by
  induction xs generalizing ys with
  | nil =>
      rw [List.forall₂_nil_left_iff]
      exact ⟨fun h => (Option.some.inj h).symm, fun h => h ▸ rfl⟩
  | cons x xs ih =>
      rw [List.forall₂_cons_left_iff, List.mapM_cons]
      simp only [bind, Option.bind_eq_some_iff, pure, Option.some.injEq, ih]
      constructor
      · rintro ⟨y, hy, rest, hrest, rfl⟩
        exact ⟨y, rest, hy, hrest, rfl⟩
      · rintro ⟨y, rest, hy, hrest, rfl⟩
        exact ⟨y, hy, rest, hrest, rfl⟩

theorem named_iff {fields : List (List Piece × Value)} {named : List (String × Value)} :
    fields.mapM (fun f => (string? f.1).map (·, f.2)) = some named ↔ Named fields named := by
  have hfield (f : List Piece × Value) (g : String × Value) :
      (string? f.1).map (·, f.2) = some g ↔ string? f.1 = some g.1 ∧ f.2 = g.2 := by
    rw [Option.map_eq_some_iff]
    constructor
    · rintro ⟨key, hkey, rfl⟩
      exact ⟨hkey, rfl⟩
    · rintro ⟨hkey, hvalue⟩
      exact ⟨g.1, hkey, Prod.ext rfl hvalue⟩
  rw [mapM_eq_some, Named]
  simp only [hfield]

theorem only_iff {named : List (String × Value)} {name : String} {v : Value} :
    (match named.filter (·.1 == name) with
      | [] => some none
      | [f] => some (some f.2)
      | _ => none) = some (some v) ↔ Only named name v := by
  constructor
  · intro h
    split at h
    · cases h
    · rename_i f hfilter
      obtain rfl : f.2 = v := Option.some.inj (Option.some.inj h)
      obtain ⟨before, after, rfl, hbefore, hf, hafter⟩ := List.filter_eq_cons_iff.1 hfilter
      obtain rfl : f.1 = name := by simpa using hf
      refine ⟨before, after, rfl, fun g hg => by simpa using hbefore g hg, fun g hg => ?_⟩
      simpa using List.filter_eq_nil_iff.1 hafter g hg
    · cases h
  · rintro ⟨before, after, rfl, hbefore, hafter⟩
    have hnone {fs : List (String × Value)} (h : ∀ f ∈ fs, f.1 ≠ name) : fs.filter (·.1 == name) = [] :=
      List.filter_eq_nil_iff.2 fun f hf => by simpa using h f hf
    rw [List.filter_append, hnone hbefore, List.nil_append, List.filter_cons_of_pos (by simp), hnone hafter]

/-- What is read as the fields of a record are its three strings. -/
theorem fields?_iff {v : Value} {kind name value : List Piece} :
    v.fields? ["type", "name", "value"] 3 = some [some (.text kind), some (.text name), some (.text value)] ↔
      v.Record kind name value := by
  constructor
  · intro h
    cases v with
    | array items =>
        simp only [Value.fields?, List.length_cons, List.length_nil] at h
        split at h
        · rename_i hlength
          obtain ⟨x, y, z, rfl⟩ := List.length_eq_three.1 (Nat.le_antisymm hlength.2 hlength.1)
          have hitems : [some x, some y, some z] = [some (.text kind), some (.text name), some (.text value)] := by
            simpa using h
          simp only [List.cons.injEq, Option.some.injEq, and_true] at hitems
          obtain ⟨rfl, rfl, rfl⟩ := hitems
          exact .array
        · cases h
    | object fields =>
        obtain ⟨named, hnamed, hpicked⟩ := Option.bind_eq_some_iff.1 h
        rw [mapM_eq_some] at hpicked
        simp only [List.forall₂_cons, List.Forall₂.nil, and_true] at hpicked
        obtain ⟨hkind, hname, hvalue⟩ := hpicked
        exact .object (named_iff.1 hnamed) (only_iff.1 hkind) (only_iff.1 hname) (only_iff.1 hvalue)
    | _ => cases h
  · intro h
    cases h with
    | array => rfl
    | object hnamed hkind hname hvalue =>
        refine Option.bind_eq_some_iff.2 ⟨_, named_iff.2 hnamed, ?_⟩
        rw [mapM_eq_some]
        simp only [List.forall₂_cons, List.Forall₂.nil, and_true]
        exact ⟨only_iff.2 hkind, only_iff.2 hname, only_iff.2 hvalue⟩

end Json

namespace Snapshot

/-- A line is a record of three texts: without the white space at its ends it is a document of their strings. -/
def IsRecord (line : List Char) (kind name value : String) : Prop :=
  ∃ v kinds names values, Denotes (trim (.ofList line)).toList v ∧ v.Record kinds names values ∧
    string? kinds = some kind ∧ string? names = some name ∧ string? values = some value

/-- A line is a record that is accepted as a metric. -/
def Gives (line : List Char) (m : Metric) : Prop :=
  ∃ kind name value, IsRecord line kind name value ∧ Metric.parse kind name value = .ok m

/-- What is wrong with a line that gives no metric. -/
inductive Lacks (line : List Char) : RecordFault → Prop where
  | record (h : ∀ kind name value, ¬ IsRecord line kind name value) : Lacks line .json
  | metric {kind name value : String} {e : ParseError} (h : IsRecord line kind name value)
      (he : Metric.parse kind name value = .error e) : Lacks line (.metric e)

def IsBlankLine (line : List Char) : Prop := ∀ c ∈ line, isBlank c = true

/-- Of a record nothing but its three texts decides. -/
theorem decodeMetric_record {line : List Char} {kind name value : String} (h : IsRecord line kind name value) :
    decodeMetric (trim (.ofList line)) = (Metric.parse kind name value).mapError .metric := by
  obtain ⟨v, kinds, names, values, hdocument, hrecord, hkind, hname, hvalue⟩ := h
  simp only [decodeMetric, ofText?_iff.2 hdocument, bind, Option.bind_some, fields?_iff.2 hrecord, Value.text?, hkind,
    hname, hvalue]
  cases Metric.parse kind name value <;> rfl

/-- A string with a text has been found. -/
theorem bind_text?_eq_some {found : Option Value} {s : String} :
    found.bind Value.text? = some s ↔ ∃ pieces, found = some (.text pieces) ∧ string? pieces = some s := by
  rw [Option.bind_eq_some_iff]
  constructor
  · rintro ⟨v, rfl, hv⟩
    cases v with
    | text pieces => exact ⟨pieces, rfl, hv⟩
    | _ => cases hv
  · rintro ⟨pieces, rfl, hs⟩
    exact ⟨.text pieces, rfl, hs⟩

theorem decodeMetric_no_record {line : List Char} (h : ∀ kind name value, ¬ IsRecord line kind name value) :
    decodeMetric (trim (.ofList line)) = .error .json := by
  unfold decodeMetric
  extract_lets parts
  cases hparts : parts with
  | none => rfl
  | some found =>
      obtain ⟨v, hv, hfields⟩ := Option.bind_eq_some_iff.1 hparts
      obtain ⟨fields, hpicked, htexts⟩ := Option.bind_eq_some_iff.1 hfields
      split at htexts
      · obtain ⟨kind, hkind, htexts⟩ := Option.bind_eq_some_iff.1 htexts
        obtain ⟨name, hname, htexts⟩ := Option.bind_eq_some_iff.1 htexts
        obtain ⟨value, hvalue, -⟩ := Option.bind_eq_some_iff.1 htexts
        obtain ⟨kinds, rfl, hkinds⟩ := bind_text?_eq_some.1 hkind
        obtain ⟨names, rfl, hnames⟩ := bind_text?_eq_some.1 hname
        obtain ⟨values, rfl, hvalues⟩ := bind_text?_eq_some.1 hvalue
        have hrecord : IsRecord line kind name value :=
          ⟨v, kinds, names, values, ofText?_iff.1 hv, fields?_iff.1 hpicked, hkinds, hnames, hvalues⟩
        exact absurd hrecord (h kind name value)
      · cases htexts

theorem decodeMetric_of_gives {line : List Char} {m : Metric} (h : Gives line m) :
    decodeMetric (trim (.ofList line)) = .ok m := by
  obtain ⟨kind, name, value, hrecord, hparse⟩ := h
  rw [decodeMetric_record hrecord, hparse]
  rfl

theorem decodeMetric_of_lacks {line : List Char} {fault : RecordFault} (h : Lacks line fault) :
    decodeMetric (trim (.ofList line)) = .error fault := by
  cases h with
  | record hrecord => exact decodeMetric_no_record hrecord
  | metric hrecord hparse =>
      rw [decodeMetric_record hrecord, hparse]
      rfl

theorem gives_or_lacks (line : List Char) : (∃ m, Gives line m) ∨ ∃ fault, Lacks line fault := by
  by_cases hrecord : ∃ kind name value, IsRecord line kind name value
  · obtain ⟨kind, name, value, hrecord⟩ := hrecord
    cases hparse : Metric.parse kind name value with
    | ok m => exact .inl ⟨m, kind, name, value, hrecord, hparse⟩
    | error e => exact .inr ⟨_, .metric hrecord hparse⟩
  · simp only [not_exists] at hrecord
    exact .inr ⟨_, .record hrecord⟩

/-- A line gives a metric exactly if one is read from it. -/
theorem decodeMetric_iff {line : List Char} {m : Metric} :
    decodeMetric (trim (.ofList line)) = .ok m ↔ Gives line m := by
  refine ⟨fun h => ?_, decodeMetric_of_gives⟩
  rcases gives_or_lacks line with ⟨n, hn⟩ | ⟨fault, hfault⟩
  · obtain rfl : m = n := Except.ok.inj (h.symm.trans (decodeMetric_of_gives hn))
    exact hn
  · cases h.symm.trans (decodeMetric_of_lacks hfault)

/-! ## Lines -/

/-- A line is blank or gives a metric. -/
def IsSound (line : List Char) : Prop := IsBlankLine line ∨ ∃ m, Gives line m

/-- Lines and the metrics they give, in order. -/
inductive Listing : List (List Char) → List Metric → Prop where
  | nil : Listing [] []
  | blank {line : List Char} {ls : List (List Char)} {ms : List Metric} (hline : IsBlankLine line)
      (h : Listing ls ms) : Listing (line :: ls) ms
  | metric {line : List Char} {m : Metric} {ls : List (List Char)} {ms : List Metric} (hline : Gives line m)
      (h : Listing ls ms) : Listing (line :: ls) (m :: ms)

theorem Gives.eq {line : List Char} {m n : Metric} (hm : Gives line m) (hn : Gives line n) : m = n :=
  Except.ok.inj ((decodeMetric_of_gives hm).symm.trans (decodeMetric_of_gives hn))

theorem IsBlankLine.not_gives {line : List Char} (h : IsBlankLine line) (m : Metric) : ¬ Gives line m := by
  rw [← decodeMetric_iff, trim_eq_empty.2 h]
  exact fun hread => nomatch hread

theorem Gives.trim_ne {line : List Char} {m : Metric} (h : Gives line m) : trim (.ofList line) ≠ "" :=
  fun hempty => IsBlankLine.not_gives (trim_eq_empty.1 hempty) m h

/-- Reading a line decides whether it is sound. -/
theorem isSound_iff {line : List Char} :
    IsSound line ↔ trim (.ofList line) = "" ∨ (decodeMetric (trim (.ofList line))).toOption.isSome := by
  refine or_congr trim_eq_empty.symm ?_
  constructor
  · rintro ⟨m, hm⟩
    rw [decodeMetric_of_gives hm]
    rfl
  · intro hread
    cases h : decodeMetric (trim (.ofList line)) with
    | ok m => exact ⟨m, decodeMetric_iff.1 h⟩
    | error fault =>
        rw [h] at hread
        cases hread

instance : DecidablePred IsSound := fun _ => decidable_of_iff _ isSound_iff.symm

theorem isSound_or_lacks (line : List Char) : IsSound line ∨ ¬ IsBlankLine line ∧ ∃ fault, Lacks line fault := by
  by_cases hblank : IsBlankLine line
  · exact .inl (.inl hblank)
  · exact (gives_or_lacks line).imp .inr fun hlacks => ⟨hblank, hlacks⟩

theorem decodeLines_listing {ls : List (List Char)} {ms : List Metric} (h : Listing ls ms) (number : Nat) :
    decodeLines number (ls.map .ofList) = .ok ms := by
  induction h generalizing number with
  | nil => rfl
  | blank hline _ ih => rw [List.map_cons, decodeLines, if_pos (trim_eq_empty.2 hline), ih]
  | metric hline _ ih =>
      rw [List.map_cons, decodeLines, if_neg hline.trim_ne, decodeMetric_of_gives hline, ih]
      rfl

theorem Listing.sound {ls : List (List Char)} {ms : List Metric} (h : Listing ls ms) : ∀ line ∈ ls, IsSound line := by
  induction h with
  | nil => exact fun _ hmem => nomatch hmem
  | blank hline _ ih => exact List.forall_mem_cons.2 ⟨.inl hline, ih⟩
  | metric hline _ ih => exact List.forall_mem_cons.2 ⟨.inr ⟨_, hline⟩, ih⟩

theorem exists_listing {ls : List (List Char)} (h : ∀ line ∈ ls, IsSound line) : ∃ ms, Listing ls ms := by
  induction ls with
  | nil => exact ⟨[], .nil⟩
  | cons line ls ih =>
      obtain ⟨ms, hms⟩ := ih fun other hother => h other (List.mem_cons_of_mem line hother)
      rcases h line List.mem_cons_self with hblank | ⟨m, hm⟩
      · exact ⟨ms, .blank hblank hms⟩
      · exact ⟨m :: ms, .metric hm hms⟩

/-- The first line that is not blank and gives no metric is named with its number and its fault. -/
theorem decodeLines_lacks {before after : List (List Char)} {line : List Char} {fault : RecordFault}
    (hbefore : ∀ other ∈ before, IsSound other) (hblank : ¬ IsBlankLine line) (hline : Lacks line fault)
    (number : Nat) :
    decodeLines number ((before ++ line :: after).map .ofList) = .error (.restore (number + before.length) fault) := by
  induction before generalizing number with
  | nil =>
      rw [List.nil_append, List.map_cons, decodeLines, if_neg (mt trim_eq_empty.1 hblank),
        decodeMetric_of_lacks hline]
      rfl
  | cons first before ih =>
      have hrest := ih (fun other hother => hbefore other (List.mem_cons_of_mem first hother)) (number + 1)
      have hplace : number + 1 + before.length = number + (first :: before).length := by
        rw [List.length_cons]
        omega
      rw [List.cons_append, List.map_cons, decodeLines, hrest, hplace]
      rcases hbefore first List.mem_cons_self with hempty | ⟨m, hm⟩
      · rw [if_pos (trim_eq_empty.2 hempty)]
      · rw [if_neg hm.trim_ne, decodeMetric_of_gives hm]
        rfl

/-- All lines are sound, or one is the first that is not. -/
theorem sound_or_first (ls : List (List Char)) :
    (∀ line ∈ ls, IsSound line) ∨ ∃ before line after, ls = before ++ line :: after ∧
      (∀ other ∈ before, IsSound other) ∧ ¬ IsSound line := by
  induction ls with
  | nil => exact .inl fun _ hmem => nomatch hmem
  | cons line ls ih =>
      by_cases hline : IsSound line
      · rcases ih with hall | ⟨before, bad, after, rfl, hbefore, hbad⟩
        · exact .inl (List.forall_mem_cons.2 ⟨hline, hall⟩)
        · exact .inr ⟨line :: before, bad, after, rfl, List.forall_mem_cons.2 ⟨hline, hbefore⟩, hbad⟩
      · exact .inr ⟨[], line, ls, rfl, fun _ hmem => (nomatch hmem), hline⟩

/-! ## The last record of a name -/

/-- No line gives a metric of this name. -/
def NoneNamed (ls : List (List Char)) (name : String) : Prop := ∀ line ∈ ls, ∀ m, Gives line m → m.name ≠ name

/-- A line gives this metric, and no later one gives another of its name. -/
def LastGiven (ls : List (List Char)) (m : Metric) : Prop :=
  ∃ before line after, ls = before ++ line :: after ∧ Gives line m ∧ NoneNamed after m.name

theorem lastGiven_cons {line : List Char} {ls : List (List Char)} {m : Metric} :
    LastGiven (line :: ls) m ↔ LastGiven ls m ∨ Gives line m ∧ NoneNamed ls m.name := by
  constructor
  · rintro ⟨before, given, after, hsplit, hgiven, hafter⟩
    rcases List.cons_eq_append_iff.1 hsplit with ⟨rfl, hcons⟩ | ⟨before, rfl, rfl⟩
    · cases hcons
      exact .inr ⟨hgiven, hafter⟩
    · exact .inl ⟨before, given, after, rfl, hgiven, hafter⟩
  · rintro (⟨before, given, after, rfl, hgiven, hafter⟩ | ⟨hline, hrest⟩)
    · exact ⟨line :: before, given, after, rfl, hgiven, hafter⟩
    · exact ⟨[], line, ls, rfl, hline, hrest⟩

/-- Sound lines saved over any contents: a name keeps what it had only if no line gives a metric of it. -/
theorem Listing.get?_saveAll {ls : List (List Char)} {ms : List Metric} (h : Listing ls ms) (c : Contents)
    (m : Metric) :
    (c.saveAll ms).get? m.name = some m.sample ↔
      LastGiven ls m ∨ NoneNamed ls m.name ∧ c.get? m.name = some m.sample := by
  -- over any contents, since every metric is saved over those of the lines before it
  induction h generalizing c with
  | nil =>
      have hnever : ¬ LastGiven [] m := fun ⟨before, line, after, hsplit, _⟩ => by simp at hsplit
      have hnone : NoneNamed [] m.name := fun _ hmem => nomatch hmem
      rw [Contents.saveAll, List.foldl_nil]
      exact ⟨fun hget => .inr ⟨hnone, hget⟩, fun hor => hor.elim (absurd · hnever) And.right⟩
  | @blank line ls ms hline _ ih =>
      have hnamed : NoneNamed (line :: ls) m.name ↔ NoneNamed ls m.name :=
        List.forall_mem_cons.trans (and_iff_right fun n hn => absurd hn (hline.not_gives n))
      rw [ih, lastGiven_cons, hnamed]
      simp only [hline.not_gives m, false_and, or_false]
  | @metric line n ls ms hline _ ih =>
      have hnamed : NoneNamed (line :: ls) m.name ↔ n.name ≠ m.name ∧ NoneNamed ls m.name :=
        List.forall_mem_cons.trans (and_congr_left' ⟨fun hall => hall n hline, fun hne k hk => hk.eq hline ▸ hne⟩)
      have hgives : Gives line m ↔ n.name = m.name ∧ n.sample = m.sample := by
        constructor
        · intro hm
          rw [hline.eq hm]
          exact ⟨rfl, rfl⟩
        · rintro ⟨hname, hsample⟩
          obtain rfl : n = m := by
            cases n
            cases m
            congr
          exact hline
      rw [Contents.saveAll, List.foldl_cons, ← Contents.saveAll, ih, lastGiven_cons, hnamed, Contents.get?_save, hgives]
      by_cases hname : n.name = m.name <;> simp [hname, and_comm]

/-- What sound lines leave in a store is the last metric of each name. -/
theorem Listing.get?_ofMetrics {ls : List (List Char)} {ms : List Metric} (h : Listing ls ms) (name : String)
    (sample : Sample) : (Contents.ofMetrics ms).get? name = some sample ↔ LastGiven ls ⟨name, sample⟩ := by
  have hempty : ¬ (NoneNamed ls name ∧ (Dict.empty : Contents).get? name = some sample) := by simp
  exact (h.get?_saveAll Dict.empty ⟨name, sample⟩).trans (or_iff_left hempty)

end Snapshot

end PushMetrics
