import PushMetrics.Text.Blank
import PushMetrics.Text.Lines
import Mathlib.Data.List.Basic
import Mathlib.Data.List.TakeWhile

/-!
# Blanks and lines

A text without blanks at its ends is not changed by trimming, and lines that were ended one by one are found again.
Every text is cut into lines in one way, whatever ends them.
-/

namespace PushMetrics.Text

theorem isBlank_eq_false_of_isDigit {c : Char} (h : c.isDigit) : isBlank c = false := by
  have hrange : 48 ≤ c.toNat ∧ c.toNat ≤ 57 := by
    simpa [Char.isDigit, Char.le_def, UInt32.le_iff_toNat_le] using h
  simp only [isBlank, whiteSpace, Ranges.has, List.any_cons, List.any_nil, Bool.or_false, Bool.or_eq_false_iff,
    Bool.and_eq_false_iff, decide_eq_false_iff_not]
  omega

theorem dropEndWhile_of_getLast {p : Char → Bool} {cs : List Char} (h : ∀ c ∈ cs.getLast?, p c = false) :
    dropEndWhile p cs = cs := by
  rw [dropEndWhile, ← List.head?_reverse] at *
  cases hcs : cs.reverse with
  | nil => simpa using hcs
  | cons c rest =>
      have hc : p c = false := h c (by rw [hcs]; rfl)
      rw [List.dropWhile_cons_of_neg (by simp [hc]), ← hcs, List.reverse_reverse]

theorem trim_of_ends {s : String} (hfirst : ∀ c ∈ s.toList.head?, isBlank c = false)
    (hlast : ∀ c ∈ s.toList.getLast?, isBlank c = false) : trim s = s := by
  have hstart : s.toList.dropWhile isBlank = s.toList := by
    cases hs : s.toList with
    | nil => rfl
    | cons c rest =>
        have hc : isBlank c = false := hfirst c (by rw [hs]; rfl)
        exact List.dropWhile_cons_of_neg (by simp [hc])
  rw [trim, hstart, dropEndWhile_of_getLast hlast, String.ofList_toList]

theorem trim_of_all {s : String} (h : ∀ c ∈ s.toList, isBlank c = false) : trim s = s :=
  trim_of_ends (fun c hc => h c (List.mem_of_mem_head? hc)) fun c hc => h c (List.mem_of_mem_getLast? hc)

/-! ## Lines -/

theorem cutAt_cons (mark c : Char) (cs : List Char) :
    cutAt mark (c :: cs) = match cutAt mark cs with
      | [] => [[c]]
      | part :: rest => if c = mark then [] :: part :: rest else (c :: part) :: rest := rfl

theorem cutAt_ne_nil (mark : Char) (cs : List Char) : cutAt mark cs ≠ [] := by
  cases cs with
  | nil => simp [cutAt]
  | cons c cs =>
      rw [cutAt_cons]
      split
      · simp
      · split <;> simp

theorem cutAt_append {mark : Char} {line : List Char} (h : mark ∉ line) (cs : List Char) :
    cutAt mark (line ++ mark :: cs) = line :: cutAt mark cs := by
  induction line with
  | nil =>
      rw [List.nil_append, cutAt_cons]
      split
      · rename_i heq
        exact absurd heq (cutAt_ne_nil mark cs)
      · rename_i heq
        rw [if_pos rfl, heq]
  | cons c line ih =>
      simp only [List.mem_cons, not_or] at h
      rw [List.cons_append, cutAt_cons, ih h.2]
      exact if_neg (Ne.symm h.1)

/-- Lines that are each ended by a line feed and have none inside, nor a carriage return at their end. -/
theorem lines_ended {parts : List String} (hfeed : ∀ part ∈ parts, '\n' ∉ part.toList)
    (hreturn : ∀ part ∈ parts, part.toList.getLast? ≠ some '\r') :
    lines (String.join (parts.map (· ++ "\n"))) = parts := by
  have hcut : cutAt '\n' (String.join (parts.map (· ++ "\n"))).toList = parts.map (·.toList) ++ [[]] := by
    induction parts with
    | nil => rfl
    | cons part parts ih =>
        have hjoin : (String.join ((part :: parts).map (· ++ "\n"))).toList
            = part.toList ++ '\n' :: (String.join (parts.map (· ++ "\n"))).toList := by
          simp [String.join_cons]
        rw [hjoin, cutAt_append (hfeed part List.mem_cons_self),
          ih (fun p hp => hfeed p (List.mem_cons_of_mem _ hp)) fun p hp => hreturn p (List.mem_cons_of_mem _ hp)]
        rfl
  have hkept : (parts.map (·.toList)).map dropReturn = parts.map (·.toList) := by
    rw [List.map_map]
    exact List.map_congr_left fun part hpart => if_neg (hreturn part hpart)
  simp only [lines, hcut, List.dropLast_concat, List.getLast?_concat, Option.getD_some, List.isEmpty_nil, ↓reduceIte,
    hkept, List.map_map]
  simp

/-! ## Every text -/

theorem cutAt_of_notMem {mark : Char} {line : List Char} (h : mark ∉ line) : cutAt mark line = [line] := by
  induction line with
  | nil => rfl
  | cons c line ih =>
      simp only [List.mem_cons, not_or] at h
      rw [cutAt_cons, ih h.2]
      exact if_neg (Ne.symm h.1)

theorem dropReturn_of_getLast? {line : List Char} (h : line.getLast? ≠ some '\r') : dropReturn line = line := if_neg h

theorem dropReturn_concat (line : List Char) : dropReturn (line ++ ['\r']) = line := by
  simp [dropReturn]

/-- How a text is cut into lines. Each ends with a line feed, before which a carriage return may stand; what follows the
last line feed is a line of its own if there is anything. -/
inductive CutInto : List Char → List (List Char) → Prop where
  | done : CutInto [] []
  | feed {line cs : List Char} {ls : List (List Char)} (hfeed : '\n' ∉ line) (hreturn : line.getLast? ≠ some '\r')
      (h : CutInto cs ls) : CutInto (line ++ '\n' :: cs) (line :: ls)
  | returnFeed {line cs : List Char} {ls : List (List Char)} (hfeed : '\n' ∉ line) (h : CutInto cs ls) :
      CutInto (line ++ '\r' :: '\n' :: cs) (line :: ls)
  | last {line : List Char} (hne : line ≠ []) (hfeed : '\n' ∉ line) : CutInto line [line]

theorem lines_append {line : List Char} (h : '\n' ∉ line) (cs : List Char) :
    lines (.ofList (line ++ '\n' :: cs)) = .ofList (dropReturn line) :: lines (.ofList cs) := by
  simp only [lines, String.toList_ofList, cutAt_append h]
  cases hparts : cutAt '\n' cs with
  | nil => exact absurd hparts (cutAt_ne_nil '\n' cs)
  | cons part parts =>
      simp only [List.dropLast_cons_cons, List.getLast?_cons_cons, List.map_cons]
      split <;> rfl

theorem lines_of_cutInto {cs : List Char} {ls : List (List Char)} (h : CutInto cs ls) :
    lines (.ofList cs) = ls.map .ofList := by
  induction h with
  | done => rfl
  | feed hfeed hreturn _ ih => rw [lines_append hfeed, dropReturn_of_getLast? hreturn, ih, List.map_cons]
  | @returnFeed line cs ls hfeed _ ih =>
      have hsplit : line ++ '\r' :: '\n' :: cs = (line ++ ['\r']) ++ '\n' :: cs := by simp
      rw [hsplit, lines_append (by simp [hfeed]), dropReturn_concat, ih, List.map_cons]
  | last hne hfeed => simp [lines, cutAt_of_notMem hfeed, hne]

theorem exists_cutInto (cs : List Char) : ∃ ls, CutInto cs ls := by
  generalize hlength : cs.length = length
  induction length using Nat.strongRecOn generalizing cs with
  | _ length ih =>
    subst hlength
    by_cases hfeed : '\n' ∈ cs
    · obtain ⟨line, rest, rfl, hline⟩ := List.eq_append_cons_of_mem hfeed
      obtain ⟨ls, hls⟩ := ih rest.length (by simp; omega) rest rfl
      by_cases hreturn : line.getLast? = some '\r'
      · obtain ⟨front, rfl⟩ := List.getLast?_eq_some_iff.1 hreturn
        refine ⟨front :: ls, ?_⟩
        rw [List.append_assoc]
        exact .returnFeed (fun hmem => hline (List.mem_append_left _ hmem)) hls
      · exact ⟨line :: ls, .feed hline hreturn hls⟩
    · cases cs with
      | nil => exact ⟨[], .done⟩
      | cons c cs => exact ⟨[c :: cs], .last (List.cons_ne_nil c cs) hfeed⟩

/-- A text is cut into its lines, and in no other way. -/
theorem cutInto_iff {s : String} {ls : List (List Char)} : CutInto s.toList ls ↔ lines s = ls.map .ofList := by
  constructor
  · intro h
    rw [← lines_of_cutInto h, String.ofList_toList]
  · intro h
    obtain ⟨found, hfound⟩ := exists_cutInto s.toList
    have hsame := lines_of_cutInto hfound
    rw [String.ofList_toList, h] at hsame
    have hinjective : Function.Injective String.ofList := fun a b hab => String.ofList_injective hab
    rwa [List.map_injective_iff.2 hinjective hsame]

theorem CutInto.unique {cs : List Char} {ls rs : List (List Char)} (h : CutInto cs ls) (k : CutInto cs rs) :
    ls = rs :=
  List.map_injective_iff.2 (fun _ _ => String.ofList_injective) ((lines_of_cutInto h).symm.trans (lines_of_cutInto k))

/-! ## Blank lines -/

theorem dropEndWhile_eq_nil {p : Char → Bool} {cs : List Char} : dropEndWhile p cs = [] ↔ ∀ c ∈ cs, p c = true := by
  rw [dropEndWhile, List.reverse_eq_nil_iff, List.dropWhile_eq_nil_iff]
  simp

/-- Nothing is left of a line by trimming exactly if all of it is white space. -/
theorem trim_eq_empty {cs : List Char} : trim (.ofList cs) = "" ↔ ∀ c ∈ cs, isBlank c = true := by
  have hempty (ds : List Char) : String.ofList ds = "" ↔ ds = [] :=
    ⟨fun h => String.ofList_injective h, fun h => h ▸ rfl⟩
  rw [trim, String.toList_ofList, hempty, dropEndWhile_eq_nil]
  constructor
  · intro h c hc
    rw [← List.takeWhile_append_dropWhile (p := isBlank) (l := cs), List.mem_append] at hc
    exact hc.elim List.mem_takeWhile_imp (h c)
  · exact fun h c hc => h c ((List.dropWhile_sublist isBlank).subset hc)

/-! ## White space at the ends -/

/-- A text without the white space at its ends. -/
structure Trimmed (cs core : List Char) : Prop where
  around : ∃ before after, cs = before ++ (core ++ after) ∧ (∀ c ∈ before, isBlank c) ∧ ∀ c ∈ after, isBlank c
  first : ∀ c ∈ core.head?, isBlank c = false
  last : ∀ c ∈ core.getLast?, isBlank c = false

theorem not_of_mem_head?_dropWhile {p : Char → Bool} {cs : List Char} {c : Char} (h : c ∈ (cs.dropWhile p).head?) :
    p c = false := by
  have hfirst := List.head?_dropWhile_not p cs
  rw [h] at hfirst
  exact hfirst

theorem dropEndWhile_append {p : Char → Bool} {after : List Char} (h : ∀ c ∈ after, p c) (cs : List Char) :
    dropEndWhile p (cs ++ after) = dropEndWhile p cs := by
  rw [dropEndWhile, List.reverse_append, List.dropWhile_append_of_pos fun c hc => h c (List.mem_reverse.1 hc),
    dropEndWhile]

theorem trimmed_trim (s : String) : Trimmed s.toList (trim s).toList := by
  rw [trim, String.toList_ofList]
  generalize hmiddle : s.toList.dropWhile isBlank = middle
  have hsplit : dropEndWhile isBlank middle ++ (middle.reverse.takeWhile isBlank).reverse = middle := by
    rw [dropEndWhile, ← List.reverse_append, List.takeWhile_append_dropWhile, List.reverse_reverse]
  have hbefore : ∀ c ∈ s.toList.takeWhile isBlank, isBlank c = true := fun c hc => List.mem_takeWhile_imp hc
  have hafter : ∀ c ∈ (middle.reverse.takeWhile isBlank).reverse, isBlank c = true := fun c hc =>
    List.mem_takeWhile_imp (List.mem_reverse.1 hc)
  refine ⟨⟨_, _, ?_, hbefore, hafter⟩, fun c hc => ?_, fun c hc => ?_⟩
  · rw [hsplit, ← hmiddle, List.takeWhile_append_dropWhile]
  · have hfirst : c ∈ (s.toList.dropWhile isBlank).head? := by
      rw [hmiddle, ← hsplit, List.head?_append, Option.mem_def.1 hc]
      rfl
    exact not_of_mem_head?_dropWhile hfirst
  · rw [dropEndWhile, List.getLast?_reverse] at hc
    exact not_of_mem_head?_dropWhile hc

/-- A text has one core, which is what trimming leaves of it. -/
theorem trimmed_iff {s : String} {core : List Char} : Trimmed s.toList core ↔ core = (trim s).toList := by
  constructor
  · rintro ⟨⟨before, after, hsplit, hbefore, hafter⟩, hfirst, hlast⟩
    rw [trim, String.toList_ofList, hsplit, List.dropWhile_append_of_pos hbefore]
    cases core with
    | nil =>
        rw [List.nil_append, List.dropWhile_eq_nil_iff.2 hafter]
        rfl
    | cons c core =>
        have hc : isBlank c = false := hfirst c rfl
        rw [List.cons_append, List.dropWhile_cons_of_neg (by simp [hc]), ← List.cons_append, dropEndWhile_append hafter,
          dropEndWhile_of_getLast hlast]
  · intro h
    rw [h]
    exact trimmed_trim s

end PushMetrics.Text
