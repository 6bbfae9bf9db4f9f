import PushMetrics.Store.Error
import PushMetrics.Text.Blank
import PushMetrics.Text.Lines
import PushMetrics.Text.Utf8
import PushMetrics.Json.Token

/-!
# Data source names

Which database a name means: one in memory, or a file. A name has the scheme `sqlite:`, a file name in
which any byte may be given as a percent sign and two hexadecimal digits, and parameters after a question
mark.
-/

namespace PushMetrics.Sql

open Text

/-- Where a database lives; a private one is gone when it is closed. -/
inductive Place where
  | inMemory
  | file (path : String)
deriving DecidableEq, Repr

structure Source where
  place : Place
  readOnly : Bool
deriving DecidableEq, Repr

namespace Source

/-- Replaces percent signs and the two digits after them by the byte they give. -/
def percentDecode : List UInt8 → List UInt8
  | 0x25 :: a :: b :: rest =>
    match Json.hexValue? (Char.ofNat a.toNat), Json.hexValue? (Char.ofNat b.toNat) with
    | some x, some y => UInt8.ofNat (x * 16 + y) :: percentDecode rest
    | _, _ => 0x25 :: percentDecode (a :: b :: rest)
  | b :: rest => b :: percentDecode rest
  | [] => []

def decoded? (s : List Char) : Option String := ofUtf8? (percentDecode (utf8 (String.ofList s)))

def parameter (s : List Char) : List Char × List Char :=
  (s.takeWhile (· != '='), (s.dropWhile (· != '=')).tail)

def withParameter (source : Source) (key value : String) : Option Source :=
  match key, value with
  | "mode", "ro" => some { source with readOnly := true }
  | "mode", "rw" | "mode", "rwc" => some source
  | "mode", "memory" => some { source with place := .inMemory }
  | "cache", "private" | "cache", "shared" => some source
  | "immutable", "true" | "immutable", "1" => some { source with readOnly := true }
  | "immutable", "false" | "immutable", "0" => some source
  | "vfs", value => if value ∈ ["unix", "unix-excl", "unix-dotfile", "unix-none"] then some source else none
  | _, _ => none

def withParameters (source : Source) (parameters : List (List Char)) : Option Source :=
  parameters.foldlM (fun source p => do
    if p.isEmpty then some source
    else
      let (key, value) := parameter (p.map fun c => if c = '+' then ' ' else c)
      source.withParameter (← decoded? key) (← decoded? value)) source

def afterPrefix? (start : String) (cs : List Char) : Option (List Char) :=
  if start.toList.isPrefixOf cs then some (cs.drop start.length) else none

def ofName (name : String) : Except StorageError Source :=
  if trim name = "" then .error (.setup .emptyDsn)
  else
    let source := do
      let rest ← afterPrefix? "sqlite:" name.toList
      let rest := (afterPrefix? "//" rest).getD rest
      let file := rest.takeWhile (· != '?')
      let place ← if file = ":memory:".toList ∨ file = [] then some .inMemory else (decoded? file).map Place.file
      withParameters ⟨place, false⟩ (cutAt '&' (rest.dropWhile (· != '?')).tail)
    match source with
    | some source => .ok source
    | none => .error (.database .badSource)

end Source

end PushMetrics.Sql
