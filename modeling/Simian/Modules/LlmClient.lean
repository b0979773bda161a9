import Simian.Lib.Http
import Simian.Lib.Json.Load

/-! # The client of the chat route

`LLMClient` of `modules/llm_client.py`. A request ends with a response, or with the text of the
exception that `requests` raises. -/

namespace Simian
open Json Python

/-- What `requests` does with a response. `raise_for_status()` raises for the statuses of errors,
with a text that is made of the status, its reason and the URL, and `json()` reads a JSON string. -/
structure Requests (α : Type) [Scalar α] where
  status_error : Nat → String → String → String
  raise_for_status : String → Http.Response → Option String
  json : Http.Response → Except String (Obj α)
  raise_for_status_eq : ∀ url r, raise_for_status url r =
    if 400 ≤ r.status ∧ r.status < 600 then some (status_error r.status r.reason url) else none
  json_str : ∀ r s, load r.text.toList = some (.str s : Obj α) → json r = .ok (.str s)

structure LLMClient where
  api_base : String

namespace LLMClient

/-- `LLMClient(api_base)`, which does `api_base.rstrip("/")`. -/
def init (api_base : String) : LLMClient :=
  ⟨String.ofList (api_base.toList.reverse.dropWhile (· = '/')).reverse⟩

variable {α : Type}

/-- A value, or `None`. -/
def orNone [Interpreter α] : Option (Obj α) → Obj α
  | some o => o
  | none => .scalar Interpreter.none

def url (client : LLMClient) : String := client.api_base ++ "/api/chat"

/-- What `chat` posts. -/
def request [Interpreter α] (client : LLMClient) (messages : Option (List (Obj α)))
    (prompt model : Option String) : Http.Request α where
  url := client.url
  body := .dict [(.str "messages", orNone (messages.map .list)),
    (.str "prompt", orNone (prompt.map .str)), (.str "model", orNone (model.map .str))]

section Receive
variable [Scalar α] (requests : Requests α)

/-- `r.json()` or `r.text` -/
def read (r : Http.Response) : Except String (Obj α) :=
  if "application/json".toList.isPrefixOf r.content_type.toList then requests.json r
  else .ok (.str r.text)

/-- What `chat` returns for a response, or the text of what it raises. -/
def receive (client : LLMClient) : Except String Http.Response → Except String (Obj α)
  | .error message => .error message
  | .ok r => match requests.raise_for_status client.url r with
    | some message => .error message
    | none => read requests r

end Receive

end LLMClient

end Simian
