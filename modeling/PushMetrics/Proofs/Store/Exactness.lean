import PushMetrics.Proofs.Snapshot.Codec
import PushMetrics.Proofs.Snapshot.Publication
import PushMetrics.Proofs.Store.Dumping
import PushMetrics.Proofs.Store.Enumeration

/-!
# Snapshots of the contents that the store has

A snapshot that gets the lock when the store has some contents, and during which the store keeps them, is at every stage
a snapshot of these contents. When it succeeds, it leaves them in the file.
-/

namespace PushMetrics

open Snapshot

/-- The bytes are those of a snapshot of some contents, with the metrics in some order. -/
def Contents.IsEncoded (c : Contents) (bytes : List UInt8) : Prop :=
  ∃ ms : List Metric, ms.Perm c.metrics ∧ bytes = Text.utf8 (encode ms)

/-- The file holds a snapshot of given contents. -/
def Layered.Shows (s : Layered) (c : Contents) : Prop :=
  ∃ bytes, c.IsEncoded bytes ∧ s.disk.node? s.path = some (.file bytes)

/-- A snapshot at this stage is one of given contents, as far as it has come. -/
def DumpStage.Exact (s : Layered) (c : Contents) : DumpStage → Prop
  | .listing => s.memory.contents = c
  | .collecting source got => source.Faithful s.memory c got
  | .filing _ steps => ∃ bytes, c.IsEncoded bytes ∧ Publishing s.path bytes s.disk steps
  | .unlocking (.ok _) => s.Shows c
  | .asking | .waiting | .checking | .unlocking (.error _) | .ended _ => True

namespace DumpStage

variable {s t : Layered} {a : DumpStage} {c : Contents}

theorem Exact.of_not_holds (ha : a.holds = false) : a.Exact s c := by
  cases a <;> trivial

/-- What a snapshot is depends on the store and the disk only. -/
theorem Exact.congr (h : a.Exact s c) (hmemory : t.memory = s.memory) (hpath : t.path = s.path)
    (hdisk : t.disk = s.disk) : a.Exact t c := by
  unfold Exact Layered.Shows at h ⊢
  rwa [hmemory, hpath, hdisk]

/-- A snapshot of given contents that has taken its last step is in the file. -/
theorem Exact.shows {count : Nat} (h : (DumpStage.filing count []).Exact s c) : s.Shows c := by
  obtain ⟨bytes, hbytes, hpublishing⟩ := h
  cases hpublishing with
  | published hfile => exact ⟨bytes, hbytes, hfile⟩

end DumpStage

namespace Layered

variable {s t u : Layered} {j k : Dumper} {a b : DumpStage} {id : Nat} {o : Operation} {next : OperationStage}
  {c : Contents}

/-! ## The file -/

/-- The text in the file is read as the metrics in the store, in some order. -/
def Matches (s : Layered) : Prop :=
  ∃ text ms, s.disk.readText s.path = .ok text ∧ decode text = .ok ms ∧ ms.Perm s.memory.contents.metrics

theorem Shows.matches (h : s.Shows s.memory.contents) (hc : s.memory.contents.IsWellFormed) : s.Matches := by
  obtain ⟨_, ⟨ms, hms, rfl⟩, hfile⟩ := h
  refine ⟨encode ms, ms, ?_, decode_encode fun m hm => hc m (hms.subset hm), hms⟩
  rw [Disk.readText, hfile]
  simp only [Text.ofUtf8?_utf8]

/-! ## Snapshots on the way -/

theorem DumpMoves.exact (hmove : DumpMoves s k a u b) (h : a.Exact s c)
    (hstore : s.memory.isOpen = true → s.memory.contents = c) : b.Exact u c := by
  cases hmove with
  | enter | queue | collect | refuse | giveUp | fault | unlock => trivial
  | proceed hopen => exact hstore hopen
  | list hnames =>
      obtain rfl : s.memory.contents = c := h
      exact Enumeration.faithful_listed hnames
  | produce hproduce => exact Enumeration.Faithful.produce h hproduce
  | take htake => exact Enumeration.Faithful.take h htake
  | outline htake hfinished =>
      exact ⟨_, ⟨_, Enumeration.Faithful.complete h htake hfinished, rfl⟩, .creating⟩
  | file hstep =>
      obtain ⟨bytes, hbytes, hpublishing⟩ := h
      exact ⟨bytes, hbytes, hpublishing.apply hstep⟩
  | part n hstep =>
      obtain ⟨bytes, hbytes, hpublishing⟩ := h
      exact ⟨bytes, hbytes, hpublishing.part n hstep⟩
  | finish => exact h.shows

theorem DumpMoves.disk_eq (hmove : DumpMoves s k a u b) (ha : a.holds = false) : u.disk = s.disk := by
  cases hmove with
  | file | part => cases ha
  | _ => rfl

/-- Every snapshot that is being made is one of given contents. -/
def Exact (s : Layered) (c : Contents) : Prop := ∀ k a, s.dump? k = some a → a.Exact s c

theorem Exact.dump (h : s.Exact c) (hlock : s.Locked) (hk : s.dump? k = some a) (hmove : DumpMoves s k a u b)
    (hstore : s.memory.isOpen = true → s.memory.contents = c) : (u.setDump k b).Exact c := by
  intro j a' hj
  have hb := hmove.exact (h k a hk) hstore
  rw [hmove.dump?_setDump hk] at hj
  split at hj
  · obtain rfl := Option.some.inj hj
    exact hb.congr memory_setDump path_setDump disk_setDump
  · rename_i hne
    cases ha' : a'.holds with
    | false => exact .of_not_holds ha'
    | true =>
        -- Whoever else has the lock sees no step on the disk.
        have hidle : a.holds = false := by
          by_contra ha
          exact hne (hlock.exclusive (holding_iff.2 ⟨a', hj, ha'⟩) (holding_iff.2 ⟨a, hk, by simpa using ha⟩))
        have hdisk := hmove.disk_eq hidle
        obtain ⟨fileLock, disk, outputs, rfl⟩ := hmove.eq
        exact (h j a' hj).congr memory_setDump path_setDump (disk_setDump.trans hdisk)

theorem Exact.setStage (h : s.Exact c) (hdumps : u.dump? = s.dump?) (hmemory : u.memory = s.memory)
    (hpath : u.path = s.path) (hdisk : u.disk = s.disk) (hnext : ∀ a, next.dump? = some a → a.Exact s c) :
    (u.setStage id o next).Exact c := by
  intro k a hk
  rw [dump?_setStage, hdumps] at hk
  have ha : a.Exact s c := by
    split at hk
    · exact hnext a hk
    · exact h k a hk
  exact ha.congr hmemory hpath hdisk

theorem Exact.idle (h : s.Exact c) (hdumps : u.dump? = s.dump?) (hmemory : u.memory = s.memory)
    (hpath : u.path = s.path) (hdisk : u.disk = s.disk) (hnext : next.dump? = none) : (u.setStage id o next).Exact c :=
  h.setStage hdumps hmemory hpath hdisk fun a ha => absurd (hnext.symm.trans ha) (Option.some_ne_none a).symm

/-- Where a snapshot has just got the lock, no other has come far enough to be one of other contents. -/
theorem Locked.exact (h : s.Locked) (hk : s.dump? k = some .checking) (c : Contents) : s.Exact c := by
  intro j a hj
  by_cases hne : j = k
  · subst hne
    obtain rfl := Option.some.inj (hk.symm.trans hj)
    trivial
  · cases ha : a.holds with
    | false => exact .of_not_holds ha
    | true => exact absurd (h.exclusive (holding_iff.2 ⟨a, hj, ha⟩) (holding_iff.2 ⟨_, hk, rfl⟩)) hne

end Layered

end PushMetrics
