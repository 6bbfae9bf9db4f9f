import PushMetrics.Proofs.Store.Disk
import PushMetrics.Proofs.Text.Lines
import Mathlib.Data.List.Induction

/-!
# Beside the file, not in it

A publication works on a temporary name until its last step puts the whole new content in the place of the old one. The
temporary name differs from the file's own name, unless that has the ending `tmp` itself.
-/

namespace PushMetrics

namespace Path

/-! ## Written paths -/

theorem slash_notMem_parts (s : String) : "/" ∉ parts s := by
  have hcut : ∀ cs : List Char, ∀ part ∈ Text.cutAt '/' cs, '/' ∉ part := by
    intro cs
    induction cs with
    | nil => simp [Text.cutAt]
    | cons c cs ih =>
        intro part hpart
        rw [Text.cutAt_cons] at hpart
        split at hpart
        · rename_i hnone
          exact absurd hnone (Text.cutAt_ne_nil '/' cs)
        · rename_i first rest hfirst
          rw [hfirst] at ih
          have hplain := ih first List.mem_cons_self
          have hrest : ∀ part ∈ rest, '/' ∉ part := fun part h => ih part (List.mem_cons_of_mem _ h)
          by_cases hc : c = '/'
          · simp only [hc, ↓reduceIte, List.mem_cons] at hpart
            rcases hpart with rfl | rfl | hpart
            · exact List.not_mem_nil
            · exact hplain
            · exact hrest part hpart
          · simp only [hc, ↓reduceIte, List.mem_cons] at hpart
            rcases hpart with rfl | hpart
            · simp [Ne.symm hc, hplain]
            · exact hrest part hpart
  intro h
  obtain ⟨part, hpart, htext⟩ := List.mem_map.1 h
  refine hcut s.toList part hpart ?_
  obtain rfl : part = ['/'] := String.ofList_injective htext
  exact List.mem_singleton_self _

theorem mem_of_mem_collapse {ps : List String} {name : String} (h : name ∈ collapse ps) : name ∈ ps ∧ name ≠ "." := by
  induction ps using List.reverseRecOn with
  | nil => cases h
  | append_singleton ps part ih =>
      have hrest : name ∈ collapse ps → name ∈ ps ++ [part] ∧ name ≠ "." := fun h =>
        ⟨List.mem_append_left _ (ih h).1, (ih h).2⟩
      simp only [collapse, List.foldl_append, List.foldl_cons, List.foldl_nil] at h
      split at h
      · exact hrest h
      · split at h
        · exact hrest (List.dropLast_subset _ h)
        · rename_i hplain _
          rcases List.mem_append.1 h with h | h
          · exact hrest h
          · obtain rfl := List.mem_singleton.1 h
            exact ⟨List.mem_append_right _ h, fun hdot => hplain (.inr hdot)⟩

theorem root_eq (s : String) : root s = [] ∨ root s = ["/"] := by
  unfold root
  split <;> simp

/-- The file's own path is the root with names below it, unless it ends in two dots. -/
theorem named_ofFileText (s : String) : (ofFileText s).named.getLast? = some ".." ∨
    ∃ names, (ofFileText s).named = root s ++ names ∧ "/" ∉ names := by
  have hkept : ∀ name ∈ ((parts s).reverse.dropWhile fun part => part = "" ∨ part = ".").reverse, name ≠ "/" := by
    intro name hname hslash
    have hpart := (List.dropWhile_sublist _).subset (List.mem_reverse.1 hname)
    exact slash_notMem_parts s (hslash ▸ List.mem_reverse.1 hpart)
  unfold ofFileText
  generalize ((parts s).reverse.dropWhile fun part => part = "" ∨ part = ".").reverse = kept at hkept
  have hcollapse : ∀ name ∈ collapse kept, name ≠ "/" ∧ name ≠ "." := fun name h =>
    ⟨hkept name (mem_of_mem_collapse h).1, (mem_of_mem_collapse h).2⟩
  have hlast : (root s ++ collapse kept).getLast? ≠ some "." := by
    intro hdot
    rcases List.mem_append.1 (List.mem_of_mem_getLast? hdot) with hroot | hname
    · rcases root_eq s with hs | hs <;> simp [hs] at hroot
    · exact (hcollapse _ hname).2 rfl
  have hslash : "/" ∉ collapse kept := fun h => (hcollapse _ h).1 rfl
  dsimp only
  split
  · refine .inl ?_
    simp [named]
  · right
    refine ⟨collapse kept, ?_, hslash⟩
    split
    · exact if_neg hlast
    · simp [named]

theorem named_eq_self {p : Path} (hplain : p.isDotted = false) : p.named = p := by
  simp only [isDotted, Bool.or_eq_false_iff, decide_eq_false_iff_not] at hplain
  exact if_neg hplain.1

theorem named_eq_root {s : String} (h : (ofFileText s).named.getLast? = some "/") : (ofFileText s).named = ["/"] := by
  rcases named_ofFileText s with hdots | ⟨names, hnames, hslash⟩
  · rw [hdots] at h
    simp at h
  · rw [hnames] at h ⊢
    cases names with
    | nil =>
        rcases root_eq s with hs | hs <;> simp [hs] at h ⊢
    | cons name rest =>
        rw [List.getLast?_append_cons] at h
        exact absurd (List.mem_of_mem_getLast? h) hslash

/-! ## Endings -/

/-- A name stands at the end of the path that consists of something, a point and the ending. -/
def EndsIn (p : Path) (ending : String) : Prop := ∃ stem, stem ≠ "" ∧ p.named.getLast? = some (stem ++ "." ++ ending)

theorem renameEnd_eq_self {name ending : String} (h : renameEnd name ending = name) :
    ∃ stem, stem ≠ "" ∧ name = stem ++ "." ++ ending := by
  unfold renameEnd at h
  dsimp only at h
  split at h
  · have hlength := congrArg String.length h
    simp only [String.length_append] at hlength
    have hpoint : ".".length = 1 := rfl
    omega
  · rename_i hstem
    refine ⟨_, fun hempty => hstem ?_, h.symm⟩
    have hlist := congrArg String.toList hempty
    rw [String.toList_ofList] at hlist
    simp [hlist]

end Path

namespace Snapshot

/-- What is created for a publication of the file is not the file itself. -/
def Apart (p : Path) : Prop := ∀ d d' : Disk, d.create (temporary p) = .ok d' → temporary p ≠ p.named

theorem apart_ofFileText {s : String} (hname : ¬(Path.ofFileText s).EndsIn "tmp") : Apart (.ofFileText s) := by
  intro d d' h heq
  obtain ⟨hblocked, -⟩ := Disk.create_eq_ok.1 h
  obtain ⟨hplain, hfree, -⟩ := Disk.blocked?_eq_none.1 hblocked
  rw [heq] at hplain hfree
  cases hlast : (Path.ofFileText s).named.getLast? with
  | none =>
      rw [List.getLast?_eq_none_iff.1 hlast] at hfree
      exact hfree rfl
  | some name =>
      by_cases hroot : name = "/"
      · rw [Path.named_eq_root (hroot ▸ hlast)] at hfree
        exact hfree rfl
      · by_cases hdots : name = ".."
        · simp [Path.isDotted, hlast, hdots] at hplain
        · have htemporary : temporary (.ofFileText s)
              = (Path.ofFileText s).named.dropLast ++ [Path.renameEnd name "tmp"] := by
            unfold temporary Path.withEnding
            split <;> simp_all
          have hsame := congrArg List.getLast? (htemporary.symm.trans heq)
          rw [List.getLast?_concat, hlast] at hsame
          obtain ⟨stem, hstem, hrename⟩ := Path.renameEnd_eq_self (Option.some.inj hsame)
          exact hname ⟨stem, hstem, hrename ▸ hlast⟩

/-! ## Publications under way -/

/-- How far a publication is: which steps remain, and what stands under the temporary name by then. -/
inductive Underway (p : Path) (bytes : List UInt8) (d : Disk) : List FileStep → Prop where
  | creating : Underway p bytes d (publication p bytes)
  | appending {written missing : List UInt8} (hne : temporary p ≠ p.named)
      (hfile : d.node? (temporary p) = some (.file written)) (hbytes : written ++ missing = bytes) :
      Underway p bytes d [.append (temporary p) missing, .sync (temporary p), .rename (temporary p) p]
  | syncing (hne : temporary p ≠ p.named) (hfile : d.node? (temporary p) = some (.file bytes)) :
      Underway p bytes d [.sync (temporary p), .rename (temporary p) p]
  | moving (hne : temporary p ≠ p.named) (hfile : d.node? (temporary p) = some (.file bytes)) :
      Underway p bytes d [.rename (temporary p) p]
  | published : Underway p bytes d []

variable {p q : Path} {bytes chunk : List UInt8} {d d' : Disk} {step : FileStep} {steps rest : List FileStep}

theorem Underway.of_entry? (h : Underway p bytes d steps)
    (htemporary : d'.item? (temporary p) = d.item? (temporary p)) : Underway p bytes d' steps := by
  have hnode : ∀ {written}, d.node? (temporary p) = some (.file written) →
      d'.node? (temporary p) = some (.file written) := fun hfile => by
    rwa [Disk.node?_eq_file, htemporary, ← Disk.node?_eq_file]
  cases h with
  | creating => exact .creating
  | appending hne hfile hbytes => exact .appending hne (hnode hfile) hbytes
  | syncing hne hfile => exact .syncing hne (hnode hfile)
  | moving hne hfile => exact .moving hne (hnode hfile)
  | published => exact .published

/-- A chunk that is written leaves the rest to be written, and the file alone. -/
theorem Underway.part (h : Underway p bytes d (.append q chunk :: rest)) (n : Nat)
    (hstep : (FileStep.append q (chunk.take n)).apply d = .ok d') :
    Underway p bytes d' (.append q (chunk.drop n) :: rest) ∧ d'.item? p.named = d.item? p.named := by
  cases h with
  | appending hne hfile hbytes =>
      have hwritten := Disk.node?_append hfile hstep
      obtain ⟨old, -, rfl⟩ := Disk.append_eq_ok.1 hstep
      refine ⟨.appending hne hwritten ?_, Disk.item?_put_of_ne hne⟩
      rw [List.append_assoc, List.take_append_drop, hbytes]

/-- A step of a publication leaves the file alone, but for the last one, after which the whole content stands there. -/
theorem Underway.apply (hapart : Apart p) (h : Underway p bytes d (step :: rest)) (hstep : step.apply d = .ok d') :
    Underway p bytes d' rest ∧
      (d'.item? p.named = d.item? p.named ∨ rest = [] ∧ d'.item? p.named = some (.file bytes)) := by
  cases h with
  | creating =>
      have hne := hapart d d' hstep
      have hcreated := Disk.node?_create hstep
      obtain ⟨-, rfl⟩ := Disk.create_eq_ok.1 hstep
      exact ⟨.appending hne hcreated rfl, .inl (Disk.item?_put_of_ne hne)⟩
  | appending hne hfile hbytes =>
      have hwritten := Disk.node?_append hfile hstep
      obtain ⟨old, -, rfl⟩ := Disk.append_eq_ok.1 hstep
      exact ⟨.syncing hne (hbytes ▸ hwritten), .inl (Disk.item?_put_of_ne hne)⟩
  | syncing hne hfile =>
      cases hstep
      exact ⟨.moving hne hfile, .inl rfl⟩
  | moving hne hfile =>
      obtain ⟨node, hnode, hblocked, rfl⟩ := Disk.rename_eq_ok.1 hstep
      obtain rfl : _ = node := by simpa [hfile] using hnode
      obtain ⟨hplain, hfree, -⟩ := Disk.blocked?_eq_none.1 hblocked
      -- A file can only be moved to a path without a dot at its end, which is then the name itself.
      rw [Path.named_eq_self hplain] at hne ⊢
      refine ⟨.published, .inr ⟨rfl, ?_⟩⟩
      rw [if_neg hne]
      exact Disk.item?_put_self (by rwa [Disk.item?_remove_of_ne hne])

/-! ## What a publication leads to -/

/-- How far the publication of any file is, also of one that is its own temporary name: when it has come to its end,
the whole content stands there. -/
inductive Publishing (p : Path) (bytes : List UInt8) (d : Disk) : List FileStep → Prop where
  | creating : Publishing p bytes d (publication p bytes)
  | appending {written missing : List UInt8} (hfile : d.node? (temporary p) = some (.file written))
      (hbytes : written ++ missing = bytes) :
      Publishing p bytes d [.append (temporary p) missing, .sync (temporary p), .rename (temporary p) p]
  | syncing (hfile : d.node? (temporary p) = some (.file bytes)) :
      Publishing p bytes d [.sync (temporary p), .rename (temporary p) p]
  | moving (hfile : d.node? (temporary p) = some (.file bytes)) : Publishing p bytes d [.rename (temporary p) p]
  | published (hfile : d.node? p = some (.file bytes)) : Publishing p bytes d []

theorem Publishing.apply (h : Publishing p bytes d (step :: rest)) (hstep : step.apply d = .ok d') :
    Publishing p bytes d' rest := by
  cases h with
  | creating => exact .appending (Disk.node?_create hstep) rfl
  | appending hfile hbytes => exact .syncing (hbytes ▸ Disk.node?_append hfile hstep)
  | syncing hfile =>
      cases hstep
      exact .moving hfile
  | moving hfile => exact .published (Disk.node?_rename hfile hstep).1

theorem Publishing.part (h : Publishing p bytes d (.append q chunk :: rest)) (n : Nat)
    (hstep : (FileStep.append q (chunk.take n)).apply d = .ok d') :
    Publishing p bytes d' (.append q (chunk.drop n) :: rest) := by
  cases h with
  | appending hfile hbytes =>
      refine .appending (Disk.node?_append hfile hstep) ?_
      rw [List.append_assoc, List.take_append_drop, hbytes]

end Snapshot

end PushMetrics
