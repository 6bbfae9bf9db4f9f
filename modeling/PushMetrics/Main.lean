import PushMetrics.Agent.Host
import PushMetrics.Agent.Schedule
import PushMetrics.Agent.Transport
import PushMetrics.CommandLine
import PushMetrics.Http.Service
import PushMetrics.Store.Clock

/-!
# The command line

`collector` answers requests read from standard input, one per line: method, path and body, parted by blanks.
`agent` writes the requests that carry its batches to standard output. Both take their settings from the
environment, log to standard error, and stop at the end of the input. A database lives as long as the
program; a snapshot file is that of the disk.
-/

namespace PushMetrics.Main

def variableNames : List String :=
  ["ADDRESS", "LOG_LEVEL", "STORE_INTERVAL", "LOCK_TTL", "FILE_STORAGE_PATH", "RESTORE", "DATABASE_DSN",
   "POLL_INTERVAL", "REPORT_INTERVAL", "BATCH_SIZE", "QUEUE_CAPACITY", "RATE_LIMIT", "RETRY_ATTEMPTS",
   "RETRY_BASE_DELAY_MS", "RETRY_MAX_DELAY_MS", "SEND_TIMEOUT_MS", "SHUTDOWN_TIMEOUT"]

def environment : IO Config.Variables := do
  let mut found : List (String × String) := []
  for name in variableNames do
    if let some value ← IO.getEnv name then found := (name, value) :: found
  let known := found
  return fun name => known.lookup name

def refuse (r : CommandLine.Refusal) : IO UInt32 := do
  IO.eprint r.said
  return r.status.toUInt32

/-- A task that ends with the standard input. -/
def inputEnd : IO (Task (Except IO.Error Unit)) := do
  let stdin ← IO.getStdin
  IO.asTask do
    repeat
      if (← stdin.getLine).isEmpty then break

def tell (lines : List LogLine) : IO Unit := do
  for l in lines do
    IO.eprintln ((match l.severity with | .warning => "WARN " | .error => "ERROR ") ++ l.text)

/-! ## The collector -/

/-- The surroundings in which only the snapshot file and its directory are known. -/
def surroundings (file : Option String) : IO World := do
  let empty : Disk := ⟨Dict.empty⟩
  let disk ← match file with
    | none => pure empty
    | some name =>
      let path := Path.ofText name
      let here ← IO.currentDir
      let directory := if ← (here / Path.text path.parent).isDir then empty.put path.parent .directory else empty
      if ← (here / name).pathExists then pure (directory.put path (.file (← IO.FS.readBinFile (here / name)).toList))
      else pure directory
  return ⟨disk, [], 0, []⟩

def publish (file : Option String) (before after : World) : IO Unit := do
  let some name := file | return
  let path := Path.ofText name
  match after.disk.node? path with
  | some (.file bytes) =>
    if before.disk.node? path ≠ some (.file bytes) then
      IO.FS.writeBinFile ((← IO.currentDir) / name) ⟨bytes.toArray⟩
  | _ => return

def requestOf (line : String) : Http.Request :=
  let (method, rest) := line.toList.span (· != ' ')
  let (path, body) := (rest.drop 1).span (· != ' ')
  let bytes := Text.utf8 (String.ofList (body.drop 1))
  let length := Number.naturalText bytes.length
  ⟨String.ofList method, String.ofList path, [("content-length", length)], bytes⟩

partial def serve (file : Option String) (start : Nat) (storage : Storage) (w : World) : IO (Storage × World) := do
  let line ← (← IO.getStdin).getLine
  let now := (← IO.monoMsNow) - start
  let (stores, passed) := Storage.advance now [storage] { w with log := [] }
  if line.isEmpty then return (stores.headD storage, passed)
  let (response, storage, answered) :=
    Http.handle Storage.backend (requestOf line.trimAscii.toString) (stores.headD storage, passed)
  publish file w answered
  tell answered.log.reverse
  tell (response.logged?.map fun l => ⟨now, l.1, l.2⟩).toList
  IO.println (Number.naturalText response.status ++ " " ++ response.body)
  serve file start storage answered

def collector : IO UInt32 := do
  let vars ← environment
  let file := Config.nonBlank vars "FILE_STORAGE_PATH"
  match CommandLine.startCollector vars (← surroundings file) with
  | (.error r, _) => refuse r
  | (.ok (_, storage), w) =>
    let (storage, w) ← serve file (← IO.monoMsNow) storage w
    publish file w (CommandLine.stopCollector storage w)
    return 0

/-! ## The agent -/

def entries (directory : String) : IO (Option Nat) := do
  try return some (← ((← IO.currentDir) / directory).readDir).size
  catch _ => return none

/-- The size in bytes that stands under a name in a listing of kilobytes. -/
def sizeOf (listing name : String) : Nat :=
  let sizes := (Text.lines listing).filterMap fun line => match Text.words line with
    | label :: size :: _ => if label = name ++ ":" then Number.natural? size else none
    | _ => none
  1024 * sizes.headD 0

def measure : IO Agent.HostInfo := do
  let memory ← try pure (some (← IO.FS.readBinFile "/proc/self/statm").toList) catch _ => pure none
  let listing ← try IO.FS.readFile "/proc/meminfo" catch _ => pure ""
  let random ← IO.rand 0 (Number.twoPow 53 - 1)
  return {
    process := ⟨memory, ← entries "/proc/self/fd", ← entries "/proc/self/task"⟩
    random := Number.Binary64.ofRatio false random (Number.twoPow 53)
    totalMemory := sizeOf listing "MemTotal"
    freeMemory := sizeOf listing "MemFree"
    processors := [] }

def report (address : String) (events : List (Nat × Agent.Event)) : IO Unit := do
  for (t, e) in events do
    tell (e.logged?.map fun l => ⟨t, l.1, l.2⟩).toList
    match e with
    | .delivery _ (.sent _ payloads) =>
      let post := Agent.Post.ofBatch address payloads
      IO.println ("POST " ++ post.url ++ " " ++ post.body)
    | _ => pure ()

/-- Lets an agent work until it has ended; the end of the input requests it to. -/
partial def work (address : String) (input : Task (Except IO.Error Unit)) (start : Nat) (s : Agent.Schedule) :
    IO Unit := do
  IO.sleep 50
  let host ← measure
  let ready := { s with surroundings := { s.surroundings with collectors := Agent.HostInfo.collectors fun _ => host } }
  let asked := if ← IO.hasFinished input then [Agent.Action.shutDown] else []
  let now := (← IO.monoMsNow) - start
  let next := ready.run ((asked ++ [Agent.Action.inspect]).map (now, ·))
  report address (next.state.history.drop s.state.history.length)
  if !next.hasEnded then work address input start next

def agent : IO UInt32 := do
  match CommandLine.startAgent (← environment) with
  | .error r => refuse r
  | .ok config =>
    let host ← measure
    let collectors := Agent.HostInfo.collectors fun _ => host
    match Agent.State.start? config collectors.length with
    | none => return 101
    | some state =>
      let asleep := Agent.Schedule.asleep ⟨collectors, fun _ _ => (0, .ok ())⟩ state
      work config.address (← inputEnd) (← IO.monoMsNow) (asleep.wake .agent)
      return 0

end PushMetrics.Main

def main (args : List String) : IO UInt32 :=
  match args with
  | ["collector"] => PushMetrics.Main.collector
  | ["agent"] => PushMetrics.Main.agent
  | _ => do
    IO.eprintln "name a program: collector or agent"
    return 2
