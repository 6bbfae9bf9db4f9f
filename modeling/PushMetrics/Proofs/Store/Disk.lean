import PushMetrics.Snapshot.Publication
import PushMetrics.Proofs.Dict

/-!
# Files on the disk

What the operations of the disk need and what they change. Directories stay where they are, and a publication that
succeeds leaves the whole new content at the path.
-/

namespace PushMetrics

namespace Disk

variable {d d' : Disk} {p q : Path} {n : Node} {bytes : List UInt8}

/-! ## Entries -/

theorem item?_put (d : Disk) (p q : Path) (n : Node) :
    (d.put p n).item? q = if q = [] ∨ q = ["/"] then some .directory else if p = q then some n else d.item? q := by
  unfold item? put
  split
  · rfl
  · exact Dict.get?_put d.nodes p q n

theorem item?_remove (d : Disk) (p q : Path) :
    (d.remove p).item? q = if q = [] ∨ q = ["/"] then some .directory else if p = q then none else d.item? q := by
  unfold item? remove
  split
  · rfl
  · exact Dict.get?_erase d.nodes p q

theorem item?_put_self (h : d.item? p ≠ some .directory) : (d.put p n).item? p = some n := by
  have hplain : ¬(p = [] ∨ p = ["/"]) := fun hp => h (if_pos hp)
  rw [item?_put, if_neg hplain, if_pos rfl]

theorem item?_put_of_ne (h : p ≠ q) : (d.put p n).item? q = d.item? q := by
  rw [item?_put, if_neg h]
  split
  · rename_i hq
    rw [item?, if_pos hq]
  · rfl

theorem item?_remove_of_ne (h : p ≠ q) : (d.remove p).item? q = d.item? q := by
  rw [item?_remove, if_neg h]
  split
  · rename_i hq
    rw [item?, if_pos hq]
  · rfl

/-! ## Directories and files -/

theorem isDirectory_iff : d.isDirectory q ↔ d.item? (if q.isDotted then q.dropLast else q) = some .directory := by
  unfold isDirectory node?
  split <;> simp

theorem isDirectory_put (h : d.isDirectory q) (hp : d.item? p ≠ some .directory) : (d.put p n).isDirectory q := by
  rw [isDirectory_iff] at h ⊢
  generalize (if q.isDotted then q.dropLast else q) = name at h ⊢
  have hne : p ≠ name := fun e => hp (e ▸ h)
  rw [item?_put_of_ne hne, h]

theorem isDirectory_remove (h : d.isDirectory q) (hp : d.item? p ≠ some .directory) : (d.remove p).isDirectory q := by
  rw [isDirectory_iff] at h ⊢
  generalize (if q.isDotted then q.dropLast else q) = name at h ⊢
  have hne : p ≠ name := fun e => hp (e ▸ h)
  rw [item?_remove_of_ne hne, h]

theorem node?_eq_file : d.node? p = some (.file bytes) ↔ p.isDotted = false ∧ d.item? p = some (.file bytes) := by
  unfold node?
  cases hp : p.isDotted <;> simp [Option.filter_eq_some_iff]

theorem blocked?_eq_none :
    d.blocked? p = none ↔ p.isDotted = false ∧ d.item? p ≠ some .directory ∧ d.isDirectory p.parent := by
  have hparent : ∀ node, d.node? p.parent = node → (d.isDirectory p.parent ↔ node = some .directory) := by
    rintro node rfl
    simp [isDirectory]
  unfold blocked?
  cases hp : p.isDotted with
  | false =>
      have hself : d.isDirectory p ↔ d.item? p = some .directory := by simp [isDirectory_iff, hp]
      split
      · rename_i hdirectory
        simp [hself.1 hdirectory]
      · rename_i hdirectory
        rw [hself] at hdirectory
        split <;> rename_i hnode <;> simp [hparent _ hnode, hdirectory]
        rename_i hother
        exact fun e => hother (by rw [e])
  | true =>
      split
      · simp
      · split <;> simp

/-- A file that is written under another name is not seen at a path. -/
theorem node?_put_of_ne (hne : q ≠ p) (hfree : d.item? q ≠ some .directory) :
    (d.put q (.file bytes)).node? p = d.node? p := by
  unfold node?
  cases p.isDotted with
  | false => exact item?_put_of_ne hne
  | true =>
      simp only [↓reduceIte]
      by_cases hname : q = p.dropLast
      · -- A dot at the end asks for a directory, which neither the file nor what stood there before is.
        have hother : (d.item? q).filter (· = .directory) = none := by
          refine Option.filter_eq_none_iff.2 fun n hn hdirectory => hfree ?_
          rw [hn, of_decide_eq_true hdirectory]
        rw [← hname, item?_put_self hfree, hother]
        rfl
      · rw [item?_put_of_ne hname]

/-! ## The operations -/

theorem create_eq_ok : d.create p = .ok d' ↔ d.blocked? p = none ∧ d.put p (.file []) = d' := by
  unfold create
  split <;> simp_all

theorem append_eq_ok :
    d.append p bytes = .ok d' ↔ ∃ old, d.node? p = some (.file old) ∧ d.put p (.file (old ++ bytes)) = d' := by
  unfold append
  split
  · simp_all
  · rename_i hother
    simp only [reduceCtorEq, false_iff, not_exists, not_and]
    exact fun old hold => absurd hold (hother old)

theorem rename_eq_ok : d.rename q p = .ok d' ↔
    ∃ n, d.node? q = some n ∧ d.blocked? p = none ∧ (if q = p then d else (d.remove q).put p n) = d' := by
  unfold rename
  split
  · simp_all
  · split
    · simp_all
    · split <;> simp_all

theorem blocked?_put (h : d.blocked? p = none) (bytes : List UInt8) : (d.put p (.file bytes)).blocked? p = none := by
  obtain ⟨hplain, hfree, hparent⟩ := blocked?_eq_none.1 h
  refine blocked?_eq_none.2 ⟨hplain, ?_, isDirectory_put hparent hfree⟩
  rw [item?_put_self hfree]
  simp

/-! ## Where a file stands after an operation -/

theorem node?_create (h : d.create p = .ok d') : d'.node? p = some (.file []) := by
  obtain ⟨hblocked, rfl⟩ := create_eq_ok.1 h
  obtain ⟨hplain, hfree, -⟩ := blocked?_eq_none.1 hblocked
  exact node?_eq_file.2 ⟨hplain, item?_put_self hfree⟩

theorem node?_append {old : List UInt8} (hfile : d.node? p = some (.file old)) (h : d.append p bytes = .ok d') :
    d'.node? p = some (.file (old ++ bytes)) := by
  obtain ⟨hplain, hitem⟩ := node?_eq_file.1 hfile
  obtain ⟨found, hfound, rfl⟩ := append_eq_ok.1 h
  obtain rfl : old = found := by simpa [hfile] using hfound
  exact node?_eq_file.2 ⟨hplain, item?_put_self (by simp [hitem])⟩

theorem node?_rename (hfile : d.node? q = some (.file bytes)) (h : d.rename q p = .ok d') :
    d'.node? p = some (.file bytes) ∧ d'.isDirectory p.parent := by
  obtain ⟨node, hnode, hblocked, rfl⟩ := rename_eq_ok.1 h
  obtain ⟨hplain, htarget, hparent⟩ := blocked?_eq_none.1 hblocked
  obtain rfl : node = .file bytes := by simpa [hfile] using hnode.symm
  split
  · rename_i hsame
    exact ⟨hsame ▸ hfile, hparent⟩
  · rename_i hne
    have hitem := (node?_eq_file.1 hfile).2
    have hclear : (d.remove q).item? p ≠ some .directory := by rwa [item?_remove_of_ne hne]
    refine ⟨node?_eq_file.2 ⟨hplain, item?_put_self hclear⟩, ?_⟩
    exact isDirectory_put (isDirectory_remove hparent (by rw [hitem]; simp)) hclear

end Disk

/-! ## Publication -/

namespace Snapshot

variable {d d' : Disk} {p : Path} {bytes : List UInt8}

theorem runSteps_cons_eq {step : FileStep} {rest : List FileStep} :
    runSteps (step :: rest) d = (none, d') ↔ ∃ e, step.apply d = .ok e ∧ runSteps rest e = (none, d') := by
  rw [runSteps]
  split <;> simp_all

/-- A publication that succeeds has put the whole content at the path, where a file may stand. -/
theorem publication_succeeds (h : runSteps (publication p bytes) d = (none, d')) :
    d'.node? p = some (.file bytes) ∧ d'.isDirectory p.parent := by
  obtain ⟨created, hcreate, h⟩ := runSteps_cons_eq.1 h
  obtain ⟨written, happend, h⟩ := runSteps_cons_eq.1 h
  obtain ⟨synced, hsync, h⟩ := runSteps_cons_eq.1 h
  obtain ⟨renamed, hrename, h⟩ := runSteps_cons_eq.1 h
  cases h
  cases hsync
  exact Disk.node?_rename (Disk.node?_append (Disk.node?_create hcreate) happend) hrename

/-- Of a publication that fails nothing is left, or a file under another name where no directory stood. -/
theorem publication_fails {fault : IoFault} (h : runSteps (publication p bytes) d = (some fault, d')) :
    d' = d ∨ temporary p ≠ p ∧ d.item? (temporary p) ≠ some .directory ∧
      d' = (d.put (temporary p) (.file [])).put (temporary p) (.file bytes) := by
  simp only [publication, runSteps, FileStep.apply] at h
  cases hcreate : d.create (temporary p) with
  | error e =>
      rw [hcreate] at h
      cases h
      exact .inl rfl
  | ok created =>
      have hempty := Disk.node?_create hcreate
      obtain ⟨hblocked, rfl⟩ := Disk.create_eq_ok.1 hcreate
      have happend := Disk.append_eq_ok.2 ⟨[], hempty, congrArg (Disk.put _ _ <| .file ·) (List.nil_append bytes)⟩
      have hfull := Disk.node?_append hempty happend
      simp only [hcreate, happend] at h
      cases hmove : Disk.rename _ (temporary p) p with
      | ok moved =>
          rw [hmove] at h
          cases h
      | error e =>
          rw [hmove] at h
          cases h
          refine .inr ⟨fun hsame => ?_, (Disk.blocked?_eq_none.1 hblocked).2.1, rfl⟩
          -- A file that has been created under its own name can be moved there.
          have hclear := Disk.blocked?_put (Disk.blocked?_put hblocked []) bytes
          have hmoved := Disk.rename_eq_ok.2 ⟨_, hfull, hclear, if_pos rfl⟩
          rw [congrArg (Disk.rename _ (temporary p)) hsame, hmove] at hmoved
          cases hmoved

/-- A publication that fails has left the path and all directories alone. -/
theorem publication_fails_keeps {fault : IoFault} (h : runSteps (publication p bytes) d = (some fault, d')) :
    d'.node? p = d.node? p ∧ ∀ q, d.isDirectory q → d'.isDirectory q := by
  obtain rfl | ⟨hne, hfree, rfl⟩ := publication_fails h
  · exact ⟨rfl, fun q hq => hq⟩
  · have hwritten : (d.put (temporary p) (.file [])).item? (temporary p) ≠ some .directory := by
      rw [Disk.item?_put_self hfree]
      simp
    constructor
    · rw [Disk.node?_put_of_ne hne hwritten, Disk.node?_put_of_ne hne hfree]
    · intro q hq
      exact Disk.isDirectory_put (Disk.isDirectory_put hq hfree) hwritten

end Snapshot

end PushMetrics
