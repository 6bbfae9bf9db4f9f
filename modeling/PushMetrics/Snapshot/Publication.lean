import PushMetrics.Store.Disk

/-!
# Publishing a file

A file is replaced as a whole: the new content is written beside it under a temporary name, forced to the
disk, and moved over the old file. Every step is one operation of the disk and may fail, after which the
rest is left undone.
-/

namespace PushMetrics.Snapshot

inductive FileStep where
  | create (p : Path)
  | append (p : Path) (bytes : List UInt8)
  | sync (p : Path)
  | rename (source target : Path)
deriving DecidableEq, Repr

def FileStep.apply : FileStep → Disk → Except IoFault Disk
  | create p, d => d.create p
  | append p bytes, d => d.append p bytes
  | sync _, d => .ok d
  | rename source target, d => d.rename source target

def runSteps : List FileStep → Disk → Option IoFault × Disk
  | [], d => (none, d)
  | s :: rest, d =>
    match s.apply d with
    | .error fault => (some fault, d)
    | .ok d => runSteps rest d

/-- The temporary name of a file: the same name with the ending `tmp`. -/
def temporary (p : Path) : Path := p.withEnding "tmp"

def publication (p : Path) (bytes : List UInt8) : List FileStep :=
  [.create (temporary p), .append (temporary p) bytes, .sync (temporary p), .rename (temporary p) p]

end PushMetrics.Snapshot
