import PushMetrics.Http.Failure
import PushMetrics.Number.Integer
import PushMetrics.Store.World
import PushMetrics.Text.Quoted

/-!
# Requests and responses

The parts of an HTTP request that the service looks at, and the three forms of its answers. A refused
request leaves a line in the log.
-/

namespace PushMetrics.Http

open Number Text

/-- A request. The characters of a header's value stand for bytes. -/
structure Request where
  method : String
  target : String
  headers : List (String × String)
  body : List UInt8

namespace Request

/-- The path of a target: without scheme and host, and without what follows a question mark. -/
def pathOf (target : List Char) : List Char :=
  let ended := target.takeWhile fun c => c != '?' && c != '#'
  if ended.head? = some '/' ∨ ended = ['*'] then ended
  else
    let afterScheme := (ended.dropWhile (· != ':')).drop 1
    if "//".toList.isPrefixOf afterScheme then
      let path := (afterScheme.drop 2).dropWhile (· != '/')
      if path.isEmpty then ['/'] else path
    else ended

def path (r : Request) : String := String.ofList (pathOf r.target.toList)

/-- The first value of a header, whose name is compared without regard to case. -/
def header? (r : Request) (name : String) : Option String :=
  (r.headers.find? fun h => h.1.map Char.toLower == name).map (·.2)

end Request

inductive Response where
  | text (status : Nat) (body : String)
  | json (status : Nat) (body : String)
  | failure (f : Failure)
deriving DecidableEq, Repr

namespace Response

def refuse (status : Nat) (message : String) (details : List String) : Response :=
  .failure (.ofDetails status message details)

def status : Response → Nat
  | text status _ | json status _ => status
  | failure f => f.code

def contentType : Response → String
  | text _ _ => "text/plain; charset=utf-8"
  | json _ _ | failure _ => "application/json"

def body : Response → String
  | text _ body | json _ body => body
  | failure f => f.encode

/-- The content that is sent: none to a request for the head alone. -/
def sentBody (r : Response) (method : String) : String := if method = "HEAD" then "" else r.body

/-- What is logged of an answer: a warning where the client is at fault, an error otherwise. -/
def logged? : Response → Option (Severity × String)
  | failure f =>
    some (if 400 ≤ f.code ∧ f.code < 500 then .warning else .error, f.message ++ ": " ++ quoteList f.details)
  | _ => none

end Response

/-! ## The length of a body -/

def tooLarge (limit : Nat) : Response :=
  .refuse 413 "Payload too large" ["body exceeds " ++ Number.naturalText limit ++ " bytes"]

def refuseLength? (r : Request) (limit : Nat) : Option Response :=
  match r.header? "content-length" with
  | none => none
  | some value => match word? 64 value with
    | none => some (.refuse 400 "Invalid Content-Length header" [])
    | some length => if limit < length then some (tooLarge limit) else none

end PushMetrics.Http
