import PushMetrics.Http.Service
import PushMetrics.Manager.Traffic

/-!
# Requests that save

What a request over HTTP asks the manager to save, and how it is answered once that has been done.
-/

namespace PushMetrics.Http

open Json

/-- What is to be saved, if the request is one to save and nothing in it is refused. -/
def Request.update? (r : Request) : Option Manager.Request :=
  match r.method, r.path with
  | "POST", "/update/" =>
    match readJson Payload.decode? r with
    | .error _ => none
    | .ok p => p.toMetric.toOption.map .save
  | "POST", "/updates/" =>
    match readJson (Value.list? Payload.decode?) r with
    | .error _ => none
    | .ok ps => if invalidMessages ps ≠ [] then none else some (.saveBatch (validMetrics ps))
  | _, _ => none

/-- The answer to a request that has been carried out with this result. -/
def respond (request : Manager.Request) : Except StorageError (List Metric) → Response
  | .error e => storageFailure e
  | .ok saved => match request, saved with
    | .save _, [m] => .json 200 (Payload.ofMetric m).encode
    | _, _ => .json 200 (Payload.encodeAll (saved.map Payload.ofMetric))

end PushMetrics.Http
