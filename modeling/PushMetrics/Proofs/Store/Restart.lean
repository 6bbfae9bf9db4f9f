import PushMetrics.Proofs.Snapshot.Codec
import PushMetrics.Proofs.Store.Contents
import PushMetrics.Proofs.Store.Disk
import PushMetrics.Proofs.Store.Session

/-!
# Closing and opening again

What a snapshot layer over a store in memory holds when it is closed is what a new one on the same file holds, to the
last bit of every sample, whatever became of the snapshots before the last one.
-/

namespace PushMetrics

open Snapshot

namespace Storage

/-- A snapshot layer over a store in memory that is open. -/
def layered (layer : Layer) (c : Contents) : Storage := snapshot layer (memory ⟨c, true⟩)

variable {layer : Layer} {c : Contents} {w : World}

/-! ## Until it is closed -/

theorem tick_layered (ho : layer.isOpen = true) (c : Contents) (w : World) :
    ∃ layer' w', (layered layer c).tick w = (layered layer' c, w') ∧ layer'.path = layer.path ∧
      layer'.isOpen = true := by
  simp only [layered, tick]
  cases layer.due with
  | none => exact ⟨layer, w, rfl, rfl, ho⟩
  | some t =>
      by_cases ht : t ≤ w.now
      · simp only [ht, ↓reduceIte]
        exact ⟨_, _, rfl, rfl, ho⟩
      · simp only [ht, ↓reduceIte]
        exact ⟨layer, w, rfl, rfl, ho⟩

theorem respond_layered (ho : layer.isOpen = true) {call : Call} (hc : call ≠ .close) (c : Contents) (w : World) :
    ∃ r w', (layered layer c).respond call w
      = (r, layered layer (c.applyAll (Event.change? (.call call)).toList), w') := by
  cases call with
  | get name => exact ⟨_, _, rfl⟩
  | getAll => exact ⟨_, _, rfl⟩
  | apply change =>
      simp only [respond, layered, Storage.apply, ho, ↓reduceIte, Memory.apply, Memory.whenOpen]
      exact ⟨_, _, rfl⟩
  | ping => exact ⟨_, _, rfl⟩
  | close => exact absurd rfl hc

theorem use_layered (ho : layer.isOpen = true) {events : List Event} (hclose : .call .close ∉ events) (c : Contents)
    (w : World) :
    ∃ layer' w', ((layered layer c).use events w).2 = (layered layer' (c.applyAll (events.filterMap Event.change?)),
      w') ∧
      layer'.path = layer.path ∧ layer'.isOpen = true := by
  induction events generalizing layer c w with
  | nil => exact ⟨layer, w, rfl, rfl, ho⟩
  | cons e events ih =>
      simp only [List.mem_cons, not_or] at hclose
      cases e with
      | pass disk now =>
          obtain ⟨next, w', htick, hpath, hnext⟩ := tick_layered ho c { w with disk, now }
          obtain ⟨last, w'', hrest, hsame, hlast⟩ := ih hnext hclose.2 c w'
          refine ⟨last, w'', ?_, hsame.trans hpath, hlast⟩
          simp only [use, htick, hrest]
          rfl
      | call call =>
          obtain ⟨r, w', hrespond⟩ := respond_layered ho (fun h => hclose.1 (h ▸ rfl)) c w
          obtain ⟨last, w'', hrest, hsame, hlast⟩ := ih ho hclose.2 (c.applyAll (Event.change? (.call call)).toList) w'
          refine ⟨last, w'', ?_, hsame, hlast⟩
          simp only [use, hrespond, hrest]
          rw [Contents.applyAll, Contents.applyAll, ← List.foldl_append]
          cases hchange : Event.change? (.call call) <;> simp [hchange, Contents.applyAll]

/-! ## Closing and opening -/

/-- A layer that closes without an error has written what it holds. -/
theorem close_layered (ho : layer.isOpen = true) {closed : Storage} {w' : World}
    (h : (layered layer c).close w = (.ok (), closed, w')) :
    runSteps (publication (Path.ofFileText layer.path) (Text.utf8 (encode c.metrics))) w.disk = (none, w'.disk) := by
  simp only [layered, Storage.close, ho, ↓reduceIte, writeSnapshot, getAll, enumerate, Memory.getAll, Memory.whenOpen,
    Except.map, bind, Except.bind, Layer.write, Memory.close] at h
  split at h <;> rename_i hdumped
  · cases h
    split at hdumped
    · rename_i hsteps
      exact Prod.ext hsteps rfl
    · cases hdumped
  · cases h

/-- What a new store in memory takes from a file. -/
theorem restore_fresh_eq (p : Path) (w : World) :
    restore p (.memory .fresh) w = match w.disk.readText p with
      | .error .notFound => (.ok (), .memory .fresh, w)
      | .error fault => (.error (.io fault), .memory .fresh, w)
      | .ok content => match decode content with
        | .error e => (.error e, .memory .fresh, w)
        | .ok ms => (.ok (), .memory ⟨.ofMetrics ms, true⟩, w) := by
  simp only [restore, Storage.apply, Memory.apply, Memory.fresh, Memory.whenOpen, ↓reduceIte]
  rfl

/-- A layer restores from a file that can be read and decoded. -/
theorem openSnapshot_of_text {path content : String} {bytes : List UInt8} {ms : List Metric}
    (hfile : w.disk.node? (Path.ofFileText path) = some (.file bytes)) (htext : Text.ofUtf8? bytes = some content)
    (hdecode : decode content = .ok ms) (hparent : w.disk.isDirectory (Path.ofFileText path).parent) (interval : Span) :
    openSnapshot ⟨path, interval, true⟩ (.memory .fresh) w
      = (.ok (), layered ⟨path, interval, if interval.isZero then none else some (w.now + interval.ceilMillis), true⟩
          (.ofMetrics ms), w) := by
  obtain ⟨hplain, hentry⟩ := Disk.node?_eq_file.1 hfile
  have hnamed : (Path.ofFileText path).named = Path.ofFileText path := by
    rw [Path.named, if_neg]
    intro hdot
    simp [Path.isDotted, hdot] at hplain
  have hpath : path ≠ "" := by
    rintro rfl
    cases hentry
  have hfault : LayerSettings.fault? ⟨path, interval, true⟩ w = none := by
    simp only [LayerSettings.fault?, hpath, ↓reduceIte, hnamed, hparent]
  have hread : w.disk.readText (Path.ofFileText path) = .ok content := by
    simp only [Disk.readText, hfile, htext]
  simp only [openSnapshot, hfault, ↓reduceIte, restore_fresh_eq, hread, hdecode, layered]

/-- A layer that restores from a written snapshot holds the metrics of it. -/
theorem openSnapshot_of_file {path : String} {ms : List Metric} (hms : ∀ m ∈ ms, m.isWellFormed)
    (hfile : w.disk.node? (Path.ofFileText path) = some (.file (Text.utf8 (encode ms))))
    (hparent : w.disk.isDirectory (Path.ofFileText path).parent) (interval : Span) :
    ∃ due, openSnapshot ⟨path, interval, true⟩ (.memory .fresh) w
      = (.ok (), layered ⟨path, interval, due, true⟩ (.ofMetrics ms), w) :=
  ⟨_, openSnapshot_of_text hfile (Text.ofUtf8?_utf8 _) (decode_encode hms) hparent interval⟩

/-- Closing a snapshot layer without an error and opening a new one on the same file preserves what is held, whatever
happened before: reads and changes, time passing, a disk that others write to, and snapshots that failed. -/
theorem restart_preserves (ho : layer.isOpen = true) (hc : c.IsWellFormed) {events : List Event}
    (hclose : .call .close ∉ events)
    (hms : ∀ change ∈ events.filterMap Event.change?, ∀ m ∈ change.metrics, m.isWellFormed)
    {rs : List (Except StorageError Answer)} {s closed : Storage} {w₁ w₂ w₃ : World}
    (huse : (layered layer c).use events w = (rs, s, w₁)) (hclosed : s.close w₁ = (.ok (), closed, w₂))
    (hdisk : w₃.disk = w₂.disk) (interval : Span) :
    (∃ last, s = layered last (c.applyAll (events.filterMap Event.change?))) ∧
      ∃ due restored, openSnapshot ⟨layer.path, interval, true⟩ (.memory .fresh) w₃
          = (.ok (), layered ⟨layer.path, interval, due, true⟩ restored, w₃) ∧
        restored.Same (c.applyAll (events.filterMap Event.change?)) := by
  obtain ⟨last, w', hlast, hpath, hopen⟩ := use_layered ho hclose c w
  rw [huse] at hlast
  cases hlast
  have hwritten := close_layered hopen hclosed
  rw [hpath] at hwritten
  obtain ⟨hfile, hparent⟩ := publication_succeeds hwritten
  obtain ⟨due, hrestored⟩ := openSnapshot_of_file (hc.applyAll hms) (hdisk ▸ hfile) (hdisk ▸ hparent) interval
  refine ⟨⟨last, rfl⟩, due, _, hrestored, fun name => ?_⟩
  rw [Contents.ofMetrics, Contents.get?_saveAll_metrics (List.Perm.refl _), Dict.get?_empty, Option.or_none]

/-- A name with line ends, quotes, a control character and blanks beyond ASCII. -/
def hostileName : String := "\n\r\"\\\x01\u2028\u3000😀"

def hostileMetrics : List Metric :=
  [.gauge hostileName (.ofRank true 0), .gauge " " (.ofRank false 1),
    .counter "hits" Int64.minValue]

/-- A directory in the way of the temporary file. -/
def barred : Disk := ⟨Dict.empty.put ["m.tmp"] .directory⟩

/-- A periodic snapshot fails, and later another writer has cut off the file. -/
def hostileEvents : List Event :=
  [.call (.apply (.save (.counter "hits" 1))), .pass barred 1000, .call (.apply .reset),
    .call (.apply (.saveBatch hostileMetrics)), .call .getAll,
    .pass ⟨Dict.empty.put ["m.json"] (.file [0x7B])⟩ 2000]

def minutely : Layer := ⟨"m.json", ⟨1000000⟩, some 1000, true⟩

def hostileUse : List (Except StorageError Answer) × Storage × World :=
  (layered minutely Dict.empty).use hostileEvents ⟨⟨Dict.empty⟩, [], 0, []⟩

def hostileEnd : Except StorageError Unit × Storage × World := hostileUse.2.1.close hostileUse.2.2

theorem restart_preserves_hostile : hostileEnd.1 = .ok () ∧
    ∃ due restored, openSnapshot ⟨"m.json", ⟨0⟩, true⟩ (.memory .fresh) hostileEnd.2.2
        = (.ok (), layered ⟨"m.json", ⟨0⟩, due, true⟩ restored, hostileEnd.2.2) ∧
      restored.Same (Contents.ofMetrics hostileMetrics) := by
  have hclosed : hostileEnd.1 = .ok () := by decide +kernel
  have hnever : .call .close ∉ hostileEvents := by simp [hostileEvents]
  have huse : (layered minutely Dict.empty).use hostileEvents ⟨⟨Dict.empty⟩, [], 0, []⟩
      = (hostileUse.1, hostileUse.2.1, hostileUse.2.2) := rfl
  have hend : hostileUse.2.1.close hostileUse.2.2 = (.ok (), hostileEnd.2.1, hostileEnd.2.2) := Prod.ext hclosed rfl
  exact ⟨hclosed, (restart_preserves rfl Contents.isWellFormed_empty hnever (by decide) huse hend rfl ⟨0⟩).2⟩

end Storage

end PushMetrics
