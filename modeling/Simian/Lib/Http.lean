import Simian.Lib.Python

/-! # Requests and their outcomes

What a client sees of a request: no reply, a status that it is asked to raise for, or a reply with a
body, which may not be JSON. Between a server and its client there is the whole `Response`. -/

universe u

namespace Http
open Json

inductive Outcome (α : Type u)
  | transport_error (message : String)
  | status_error (message : String)
  /-- A status of success; without a document, the message of the decoder. -/
  | reply (body : Except String (Obj α))

/-- An error of the request, or one of the interpreter. -/
inductive Error
  | http (message : String)
  | python (e : Python.Error)
  deriving DecidableEq, Repr

variable {α : Type u}

/-- The request, `raise_for_status()` and `json()`. -/
def Outcome.json : Outcome α → Except Error (Obj α)
  | .transport_error message | .status_error message => .error (.http message)
  | .reply (.ok data) => .ok data
  | .reply (.error message) => .error (.python (.valueError message))

/-- What is sent: the URL and the JSON body. -/
structure Request (α : Type u) where
  url : String
  body : Obj α

/-- A response, with its `content-type` header and its body as a text. -/
structure Response where
  status : Nat
  reason : String
  content_type : String
  text : String

end Http
