import PushMetrics.Dict
import PushMetrics.Store.Error
import PushMetrics.Text.Utf8
import PushMetrics.Text.Lines

/-!
# The disk

Directories, files and databases under paths. A path is the list of its components; one step changes one
file or fails and changes nothing.
-/

namespace PushMetrics

/-- The components of a path; the root is the component `/`. -/
abbrev Path := List String

namespace Path

/-- What stands between the slashes of a written path. -/
def parts (s : String) : List String := (Text.cutAt '/' s.toList).map String.ofList

/-- The components that parts below a directory lead to. Empty parts and single dots do not count, and two dots take
the component before them away. -/
def collapse (parts : List String) : Path :=
  parts.foldl (fun (path : Path) part =>
    if part = "" ∨ part = "." then path else if part = ".." then path.dropLast else path ++ [part]) []

def root (s : String) : Path := if s.toList.head? = some '/' then ["/"] else []

/-- The components of a written path. -/
def ofText (s : String) : Path := root s ++ collapse (parts s)

/-- The components of the written path of a file. A path that only a directory can have is told from others by its
last component: a dot for a slash or a dot at the end, or two dots. -/
def ofFileText (s : String) : Path :=
  let kept := ((parts s).reverse.dropWhile fun part => part = "" ∨ part = ".").reverse
  let path := root s ++ collapse kept
  if kept.getLast? = some ".." then root s ++ collapse kept.dropLast ++ [".."]
  else if kept = parts s ∨ path = [] ∨ path = ["/"] then path
  else path ++ ["."]

def parent (p : Path) : Path := p.dropLast

/-- Whether only a directory can have the path. -/
def isDotted (p : Path) : Bool := p.getLast? = some "." || p.getLast? = some ".."

/-- The path without a dot at its end. -/
def named (p : Path) : Path := if p.getLast? = some "." then p.dropLast else p

def text (p : Path) : String :=
  match p with
  | "/" :: rest => "/" ++ "/".intercalate rest
  | p => "/".intercalate p

/-- A file name with the part after its last point, unless that is the first character, replaced. -/
def renameEnd (name ending : String) : String :=
  let cs := name.toList
  let stem := (cs.reverse.dropWhile (· != '.')).tail.reverse
  (if stem.isEmpty then name else String.ofList stem) ++ "." ++ ending

/-- The path of the file beside this one with another ending; the same path if no name stands at its end. -/
def withEnding (p : Path) (ending : String) : Path :=
  match p.named.getLast? with
  | none | some "/" | some ".." => p.named
  | some name => p.named.dropLast ++ [renameEnd name ending]

end Path

/-- What a path leads to. A database is known by its number. -/
inductive Node where
  | directory
  | file (bytes : List UInt8)
  | database (id : Nat)
deriving DecidableEq, Repr

structure Disk where
  nodes : Dict Path Node

namespace Disk

/-- What has a name. The working directory and the root are always there. -/
def item? (d : Disk) (p : Path) : Option Node :=
  if p = [] ∨ p = ["/"] then some .directory else d.nodes.get? p

/-- What a path leads to. -/
def node? (d : Disk) (p : Path) : Option Node :=
  if p.isDotted then (d.item? p.dropLast).filter (· = .directory) else d.item? p

def isDirectory (d : Disk) (p : Path) : Bool := d.node? p = some .directory

/-- Why no file can stand at a path, if so. -/
def blocked? (d : Disk) (p : Path) : Option IoFault :=
  if d.isDirectory p then some .isADirectory
  else match d.node? p.parent with
    | some .directory => if p.isDotted then some .notADirectory else none
    | some _ => some .notADirectory
    | none => some .notFound

def put (d : Disk) (p : Path) (n : Node) : Disk := ⟨d.nodes.put p n⟩

def remove (d : Disk) (p : Path) : Disk := ⟨d.nodes.erase p⟩

def create (d : Disk) (p : Path) : Except IoFault Disk :=
  match d.blocked? p with
  | some fault => .error fault
  | none => .ok (d.put p (.file []))

def append (d : Disk) (p : Path) (bytes : List UInt8) : Except IoFault Disk :=
  match d.node? p with
  | some (.file old) => .ok (d.put p (.file (old ++ bytes)))
  | _ => .error .notFound

def rename (d : Disk) (source target : Path) : Except IoFault Disk :=
  match d.node? source with
  | none => .error .notFound
  | some n =>
    match d.blocked? target with
    | some fault => .error fault
    | none => if source = target then .ok d else .ok ((d.remove source).put target n)

def readText (d : Disk) (p : Path) : Except IoFault String :=
  match d.node? p with
  | none => .error (match d.node? p.parent with
    | some (.file _) | some (.database _) => .notADirectory
    | _ => .notFound)
  | some .directory => .error .isADirectory
  | some (.database _) => .error .notText
  | some (.file bytes) => match Text.ofUtf8? bytes with
    | some s => .ok s
    | none => .error .notText

def makeDirectory? (d : Disk) (p : Path) : Option Disk :=
  if (d.node? p).isSome ∨ (d.blocked? p).isSome then none else some (d.put p .directory)

def removeFile? (d : Disk) (p : Path) : Option Disk :=
  match d.node? p with
  | none | some .directory => none
  | some _ => some (d.remove p)

def names (d : Disk) (p : Path) : List String :=
  d.nodes.keys.filterMap fun q => if Path.parent q = p ∧ q ≠ [] then q.getLast? else none

/-- The disk without a directory, which has to be empty. -/
def removeDirectory? (d : Disk) (p : Path) : Option Disk :=
  if d.isDirectory p ∧ d.names p = [] then some (d.remove p) else none

end Disk

end PushMetrics
