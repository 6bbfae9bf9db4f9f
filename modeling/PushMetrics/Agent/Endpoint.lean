import PushMetrics.Metric.Payload
import PushMetrics.Text.Blank

/-!
# Requests to the collector

Where batches are sent, made of the configured address, and the request that carries a batch.
-/

namespace PushMetrics.Agent

open Text

/-- The URL for batches: the address without blanks around it and slashes at its end, with a scheme. -/
def endpoint (address : String) : String :=
  let host := dropEndWhile (· == '/') (trim address).toList
  let schemed := "http://".toList.isPrefixOf host || "https://".toList.isPrefixOf host
  String.ofList ((if schemed then [] else "http://".toList) ++ host ++ "/updates/".toList)

structure Post where
  url : String
  contentType : String
  body : String
deriving DecidableEq, Repr

/-- The request for a batch: its payloads as one JSON array. -/
def Post.ofBatch (address : String) (payloads : List Payload) : Post :=
  ⟨endpoint address, "application/json", Payload.encodeAll payloads⟩

end PushMetrics.Agent
