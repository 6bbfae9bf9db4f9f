import PushMetrics.Proofs.Snapshot.Reading
import PushMetrics.Proofs.Store.Restart

/-!
# Restoring

Opening a snapshot layer that restores, over any open store in memory and from whatever stands at its path: either all
lines of the file are read, and the store then holds the last record of each name, or none is kept.
-/

namespace PushMetrics

open Snapshot Text

/-! ## The file -/

/-- A path is not empty, and the directory in which it names something is there. -/
def Disk.HasDirectory (d : Disk) (path : String) : Prop :=
  path ≠ "" ∧ d.isDirectory (Path.ofFileText path).named.parent

/-- What a reader finds at a path: the content of a file, or nothing, and then not because another file is in the way. -/
def Disk.Offers (d : Disk) (p : Path) : Option (List UInt8) → Prop
  | none => d.node? p = none ∧ ∀ n, d.node? p.parent = some n → n = .directory
  | some bytes => d.node? p = some (.file bytes)

/-- A file is there and is a text of these lines. -/
def HasLines (file : Option (List UInt8)) (ls : List (List Char)) : Prop :=
  ∃ text, file = some (utf8 text) ∧ CutInto text.toList ls

theorem HasLines.unique {file : Option (List UInt8)} {ls rs : List (List Char)} (h : HasLines file ls)
    (k : HasLines file rs) : ls = rs := by
  obtain ⟨text, rfl, hls⟩ := h
  obtain ⟨same, hsame, hrs⟩ := k
  obtain rfl : same = text := by
    rw [← Option.some_inj, ← ofUtf8?_utf8, ← Option.some.inj hsame, ofUtf8?_utf8]
  exact hls.unique hrs

theorem HasLines.ne_none {file : Option (List UInt8)} {ls : List (List Char)} (h : HasLines file ls) : file ≠ none := by
  obtain ⟨text, rfl, -⟩ := h
  exact Option.some_ne_none _

namespace Storage

variable {path : String} {p : Path} {m : Memory} {w : World} {file : Option (List UInt8)} {ls : List (List Char)}

/-! ## What restoring does -/

/-- What an open store in memory held before is forgotten. -/
theorem restore_memory (hm : m.isOpen = true) (p : Path) (w : World) :
    restore p (.memory m) w = restore p (.memory .fresh) w := by
  simp only [restore, Storage.apply, Memory.apply, Memory.whenOpen, hm, Memory.fresh]
  rfl

theorem restore_absent (h : w.disk.Offers p none) : restore p (.memory .fresh) w = (.ok (), .memory .fresh, w) := by
  obtain ⟨habsent, hparent⟩ := h
  have hread : w.disk.readText p = .error .notFound := by
    simp only [Disk.readText, habsent]
    cases habove : w.disk.node? p.parent with
    | none => rfl
    | some n => rw [hparent n habove]
  rw [restore_fresh_eq, hread]

theorem restore_not_text (h : w.disk.Offers p file) (hfile : file ≠ none) (htext : ∀ ls, ¬ HasLines file ls) :
    restore p (.memory .fresh) w = (.error (.io .notText), .memory .fresh, w) := by
  obtain ⟨bytes, rfl⟩ := Option.ne_none_iff_exists'.1 hfile
  have hnone : ofUtf8? bytes = none := by
    refine Option.eq_none_iff_forall_ne_some.2 fun text htaken => ?_
    obtain ⟨ls, hls⟩ := exists_cutInto text.toList
    exact htext ls ⟨text, congrArg some (ofUtf8?_iff.1 htaken), hls⟩
  have hread : w.disk.readText p = .error .notText := by
    simp only [Disk.readText, show w.disk.node? p = some (.file bytes) from h, hnone]
  rw [restore_fresh_eq, hread]

/-- From a text of lines the store takes what they give, or nothing. -/
theorem restore_lines (h : w.disk.Offers p file) (hls : HasLines file ls) :
    restore p (.memory .fresh) w = match decodeLines 1 (ls.map .ofList) with
      | .error e => (.error e, .memory .fresh, w)
      | .ok ms => (.ok (), .memory ⟨.ofMetrics ms, true⟩, w) := by
  obtain ⟨text, rfl, hcut⟩ := hls
  have hread : w.disk.readText p = .ok text := by
    simp only [Disk.readText, show w.disk.node? p = some (.file (utf8 text)) from h, ofUtf8?_utf8]
  rw [restore_fresh_eq, hread, ← cutInto_iff.1 hcut]
  rfl

theorem restore_listing {ms : List Metric} (h : w.disk.Offers p file) (hls : HasLines file ls) (hms : Listing ls ms) :
    restore p (.memory .fresh) w = (.ok (), .memory ⟨.ofMetrics ms, true⟩, w) := by
  rw [restore_lines h hls, decodeLines_listing hms]

theorem restore_lacks {before after : List (List Char)} {line : List Char} (h : w.disk.Offers p file)
    (hls : HasLines file (before ++ line :: after)) (hbefore : ∀ other ∈ before, IsSound other)
    (hline : ¬ IsSound line) :
    ∃ fault, Lacks line fault ∧
      restore p (.memory .fresh) w = (.error (.restore (before.length + 1) fault), .memory .fresh, w) := by
  obtain ⟨hblank, fault, hfault⟩ := (isSound_or_lacks line).resolve_left hline
  refine ⟨fault, hfault, ?_⟩
  rw [restore_lines h hls, decodeLines_lacks hbefore hblank hfault, Nat.add_comm]

/-- A layer opens over an open store in memory exactly if restoring succeeds, and has what was restored below it. -/
theorem openSnapshot_eq_restore (hm : m.isOpen = true) (hdirectory : w.disk.HasDirectory path) (interval : Span) :
    openSnapshot ⟨path, interval, true⟩ (.memory m) w = match restore (.ofFileText path) (.memory .fresh) w with
      | (.ok _, inner, w) => (.ok (), .snapshot ⟨path, interval,
          if interval.isZero then none else some (w.now + interval.ceilMillis), true⟩ inner, w)
      | (.error e, inner, w) => (.error e, inner, w) := by
  obtain ⟨hpath, hparent⟩ := hdirectory
  have hfault : LayerSettings.fault? ⟨path, interval, true⟩ w = none := by
    simp only [LayerSettings.fault?, hpath, ↓reduceIte, hparent]
  simp only [openSnapshot, hfault, ↓reduceIte, restore_memory hm]
  generalize restore (.ofFileText path) (.memory .fresh) w = restored
  obtain ⟨_ | _, inner, after⟩ := restored <;> rfl

/-! ## All or nothing -/

/-- A file and what is restored from it: nothing without a file, the metrics of its lines if all of them are sound. -/
inductive Yields (file : Option (List UInt8)) : Contents → Prop where
  | absent (hfile : file = none) : Yields file Dict.empty
  | lines {ls : List (List Char)} {ms : List Metric} (hls : HasLines file ls) (hms : Listing ls ms) :
      Yields file (.ofMetrics ms)

theorem exists_yields_iff :
    (∃ held, Yields file held) ↔ file = none ∨ ∃ ls, HasLines file ls ∧ ∀ line ∈ ls, IsSound line := by
  constructor
  · rintro ⟨_, hfile | ⟨hls, hms⟩⟩
    · exact .inl hfile
    · exact .inr ⟨_, hls, hms.sound⟩
  · rintro (hfile | ⟨ls, hls, hsound⟩)
    · exact ⟨_, .absent hfile⟩
    · obtain ⟨ms, hms⟩ := exists_listing hsound
      exact ⟨_, .lines hls hms⟩

theorem Yields.get? {held : Contents} (h : Yields file held) (name : String) (sample : Sample) :
    held.get? name = some sample ↔ ∃ ls, HasLines file ls ∧ LastGiven ls ⟨name, sample⟩ := by
  cases h with
  | absent hfile =>
      have hnever : ¬ ∃ ls, HasLines file ls ∧ LastGiven ls ⟨name, sample⟩ := fun ⟨ls, hls, _⟩ => hls.ne_none hfile
      rw [Dict.get?_empty]
      exact iff_of_false (fun h => nomatch h) hnever
  | lines hls hms =>
      rw [hms.get?_ofMetrics]
      exact ⟨fun hlast => ⟨_, hls, hlast⟩, fun ⟨rs, hrs, hlast⟩ => hls.unique hrs ▸ hlast⟩

/-- Restoring takes all that a file yields; if it yields nothing, restoring fails and takes nothing. -/
theorem restore_all_or_nothing (h : w.disk.Offers p file) :
    (∃ held, Yields file held ∧ restore p (.memory .fresh) w = (.ok (), .memory ⟨held, true⟩, w)) ∨
      (¬ ∃ held, Yields file held) ∧ ∃ e, restore p (.memory .fresh) w = (.error e, .memory .fresh, w) := by
  by_cases hyields : ∃ held, Yields file held
  · obtain ⟨_, rfl | ⟨hls, hms⟩⟩ := hyields
    · exact .inl ⟨_, .absent rfl, restore_absent h⟩
    · exact .inl ⟨_, .lines hls hms, restore_listing h hls hms⟩
  · refine .inr ⟨hyields, ?_⟩
    rw [exists_yields_iff, not_or] at hyields
    obtain ⟨hfile, hunsound⟩ := hyields
    by_cases hls : ∃ ls, HasLines file ls
    · obtain ⟨ls, hls⟩ := hls
      rcases sound_or_first ls with hsound | ⟨before, line, after, rfl, hbefore, hline⟩
      · exact absurd ⟨ls, hls, hsound⟩ hunsound
      · obtain ⟨fault, -, hrestored⟩ := restore_lacks h hls hbefore hline
        exact ⟨_, hrestored⟩
    · exact ⟨_, restore_not_text h hfile (not_exists.1 hls)⟩

/-- A snapshot layer that restores opens over an open store in memory exactly if no file is there or every line of the
file is blank or a record that is accepted as a metric. What the store held before is gone then; it holds the last
record of each name. Otherwise nothing is left in the store, and the error names the first line that is neither. -/
theorem openSnapshot_restores (hm : m.isOpen = true) (hdirectory : w.disk.HasDirectory path)
    (hfile : w.disk.Offers (.ofFileText path) file) (interval : Span) :
    ∃ answer store, openSnapshot ⟨path, interval, true⟩ (.memory m) w = (answer, store, w) ∧
      (answer = .ok () ↔ file = none ∨ ∃ ls, HasLines file ls ∧ ∀ line ∈ ls, IsSound line) ∧
      (answer = .ok () → ∃ due held, store = layered ⟨path, interval, due, true⟩ held ∧
        ∀ name sample, held.get? name = some sample ↔ ∃ ls, HasLines file ls ∧ LastGiven ls ⟨name, sample⟩) ∧
      (answer ≠ .ok () → store = .memory .fresh) ∧
      (∀ before line after, HasLines file (before ++ line :: after) → (∀ other ∈ before, IsSound other) →
        ¬ IsSound line → ∃ fault, Lacks line fault ∧ answer = .error (.restore (before.length + 1) fault)) ∧
      (file ≠ none → (∀ ls, ¬ HasLines file ls) → answer = .error (.io .notText)) := by
  rw [openSnapshot_eq_restore hm hdirectory, ← exists_yields_iff]
  rcases restore_all_or_nothing hfile with ⟨held, hyields, hrestored⟩ | ⟨hyields, e, hrestored⟩
  · rw [hrestored]
    refine ⟨.ok (), _, rfl, iff_of_true rfl ⟨held, hyields⟩, fun _ => ⟨_, held, rfl, hyields.get?⟩, absurd rfl, ?_, ?_⟩
    -- no line can be unsound, and the bytes have to be a text: both would have made the restoring fail
    · intro before line after hls hbefore hline
      obtain ⟨fault, -, hfailed⟩ := restore_lacks hfile hls hbefore hline
      cases hrestored.symm.trans hfailed
    · intro hthere htext
      cases hrestored.symm.trans (restore_not_text hfile hthere htext)
  · rw [hrestored]
    refine ⟨.error e, _, rfl, iff_of_false (fun h => nomatch h) hyields, fun h => (nomatch h), fun _ => rfl, ?_, ?_⟩
    · intro before line after hls hbefore hline
      obtain ⟨fault, hfault, hfailed⟩ := restore_lacks hfile hls hbefore hline
      cases hrestored.symm.trans hfailed
      exact ⟨fault, hfault, rfl⟩
    · intro hthere htext
      cases hrestored.symm.trans (restore_not_text hfile hthere htext)
      rfl

/-- Lines that end in both ways, two of them blank, and two records of one name. -/
def soundText : String := "\u2003\r\n[\"counter\",\"hits\",\"1\"]\n\r\n[\"counter\",\"hits\",\"-7\"]\n"

/-- A record after a mark of the byte order, which is not white space. -/
def markedLine : String := "\ufeff[\"counter\",\"hits\",\"2\"]"

def soundLines : List (List Char) := (Text.lines soundText).map (·.toList)

def holding (text : String) : World := ⟨⟨Dict.empty.put ["m.json"] (.file (utf8 text))⟩, [], 0, []⟩

def filled : Memory := ⟨.ofMetrics [.counter "old" 1], true⟩

theorem openSnapshot_restores_marked :
    (∃ due held, openSnapshot ⟨"m.json", ⟨0⟩, true⟩ (.memory filled) (holding soundText)
        = (.ok (), layered ⟨"m.json", ⟨0⟩, due, true⟩ held, holding soundText) ∧
      held.get? "hits" = some (.counter (-7))) ∧
    ∃ fault, openSnapshot ⟨"m.json", ⟨0⟩, true⟩ (.memory filled) (holding (soundText ++ markedLine))
      = (.error (.restore 5 fault), .memory .fresh, holding (soundText ++ markedLine)) := by
  have hopen : filled.isOpen = true := rfl
  have hdirectory (text : String) : (holding text).disk.HasDirectory "m.json" := by
    have hparent : (Path.ofFileText "m.json").named.parent = [] := by decide +kernel
    refine ⟨by decide, ?_⟩
    rw [hparent]
    rfl
  have hoffers (text : String) : (holding text).disk.Offers (.ofFileText "m.json") (some (utf8 text)) := rfl
  have hsound : ∀ line ∈ soundLines, IsSound line := by decide +kernel
  constructor
  · have hlines : HasLines (some (utf8 soundText)) soundLines := ⟨_, rfl, cutInto_iff.2 (by decide +kernel)⟩
    obtain ⟨answer, store, hopened, hok, hheld, -⟩ :=
      openSnapshot_restores hopen (hdirectory soundText) (hoffers soundText) ⟨0⟩
    obtain rfl := hok.2 (.inr ⟨_, hlines, hsound⟩)
    obtain ⟨due, held, rfl, hget⟩ := hheld rfl
    have hlast : LastGiven soundLines ⟨"hits", .counter (-7)⟩ :=
      ⟨soundLines.take 3, "[\"counter\",\"hits\",\"-7\"]".toList, [], by decide +kernel,
        decodeMetric_iff.1 (by decide +kernel), fun _ hmem => nomatch hmem⟩
    exact ⟨due, held, hopened, (hget "hits" _).2 ⟨_, hlines, hlast⟩⟩
  · obtain ⟨answer, store, hopened, -, -, hfresh, hbad, -⟩ :=
      openSnapshot_restores hopen (hdirectory (soundText ++ markedLine)) (hoffers (soundText ++ markedLine)) ⟨0⟩
    have hlines : HasLines (some (utf8 (soundText ++ markedLine))) (soundLines ++ markedLine.toList :: []) :=
      ⟨_, rfl, cutInto_iff.2 (by decide +kernel)⟩
    have hmarked : ¬ IsSound markedLine.toList := by decide +kernel
    obtain ⟨fault, -, rfl⟩ := hbad _ _ _ hlines hsound hmarked
    obtain rfl := hfresh fun h => nomatch h
    exact ⟨fault, hopened⟩

end Storage

end PushMetrics
