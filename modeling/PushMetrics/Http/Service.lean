import PushMetrics.Http.Message
import PushMetrics.Manager
import PushMetrics.Metric.Payload

/-!
# The collector's service

The routes of the collector over a manager's store: posting one metric or a batch, asking for a value,
listing everything, and asking whether the store answers.
-/

namespace PushMetrics.Http

open Json

variable {σ : Type}

def bodyLimit : Nat := 1048576

/-- The JSON value of a request's body, or the refusal. -/
def readJson {α : Type} (decode : Value → Option α) (r : Request) : Except Response α :=
  match refuseLength? r bodyLimit with
  | some refusal => .error refusal
  | none =>
    if bodyLimit < r.body.length then .error (tooLarge bodyLimit)
    else match (Value.ofBytes? r.body).bind decode with
      | some a => .ok a
      | none => .error (.refuse 400 "Malformed JSON body" [RecordFault.json.message])

def storageFailure (e : StorageError) : Response := .refuse 500 "Storage failure" [e.message]

def update (b : Backend σ) (r : Request) (s : σ) : Response × σ :=
  match readJson Payload.decode? r with
  | .error refusal => (refusal, s)
  | .ok p => match p.toMetric with
    | .error e => (.refuse 400 "Invalid metric" [e.message], s)
    | .ok m => match Manager.save b m s with
      | (.ok saved, s) => (.json 200 (Payload.ofMetric saved).encode, s)
      | (.error e, s) => (storageFailure e, s)

/-- The messages of those payloads that are no metric. -/
def invalidMessages (ps : List Payload) : List String :=
  ps.filterMap fun p => match p.toMetric with
    | .ok _ => none
    | .error e => some e.message

def validMetrics (ps : List Payload) : List Metric := ps.filterMap fun p => p.toMetric.toOption

/-- Stores a batch, if all of its items are metrics. -/
def updates (b : Backend σ) (r : Request) (s : σ) : Response × σ :=
  match readJson (Value.list? Payload.decode?) r with
  | .error refusal => (refusal, s)
  | .ok ps =>
    if invalidMessages ps ≠ [] then (.refuse 400 "Invalid metrics" (invalidMessages ps), s)
    else match Manager.saveBatch b (validMetrics ps) s with
      | (.ok saved, s) => (.json 200 (Payload.encodeAll (saved.map Payload.ofMetric)), s)
      | (.error e, s) => (storageFailure e, s)

def value (b : Backend σ) (r : Request) (s : σ) : Response × σ :=
  match readJson Query.decode? r with
  | .error refusal => (refusal, s)
  | .ok q => match Kind.parse q.tag with
    | .error e => (.refuse 400 "Invalid metric query" [e.message], s)
    | .ok kind => match Manager.get b kind q.id s with
      | (.ok (some m), s) => (.json 200 (Payload.ofMetric m).encode, s)
      | (.ok none, s) => (.refuse 404 "Metric not found" ["no " ++ kind.tag ++ " named " ++ q.id], s)
      | (.error e, s) => (storageFailure e, s)

def ping (b : Backend σ) (s : σ) : Response × σ :=
  match b.ping s with
  | (.ok _, s) => (.text 200 "OK", s)
  | (.error e, s) => (storageFailure e, s)

def listingLine (m : Metric) : String := m.name ++ " " ++ m.valueText ++ "\n"

def sortByName (ms : List Metric) : List Metric := ms.mergeSort fun a b => a.name ≤ b.name

def index (b : Backend σ) (s : σ) : Response × σ :=
  match b.getAll s with
  | (.ok ms, s) => (.text 200 (String.join ((sortByName ms).map listingLine)), s)
  | (.error e, s) => (storageFailure e, s)

def handle (b : Backend σ) (r : Request) (s : σ) : Response × σ :=
  match r.method, r.path with
  | "POST", "/update/" => update b r s
  | "POST", "/updates/" => updates b r s
  | "POST", "/value/" => value b r s
  | "GET", "/ping" => ping b s
  | "GET", "/" => index b s
  | method, path => (.refuse 404 "Not found" ["no route for " ++ method ++ " " ++ path], s)

end PushMetrics.Http
