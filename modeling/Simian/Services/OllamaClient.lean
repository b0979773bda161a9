import Simian.Lib.Http

/-! # The client of Ollama

`chat` of `services/ollama_client.py`. The content of the message is returned only if it is truthy,
so for an empty one the text of the whole document comes back. -/

namespace Simian.OllamaClient
open Json Python

structure Config where
  OLLAMA_HOST : String
  DEFAULT_MODEL : String

variable {α : Type} [Interpreter α]

/-- `model`, or the default for none and for a blank one. -/
def modelOf (config : Config) (model : Option String) : String :=
  match model with
  | some model => if strip model = "" then config.DEFAULT_MODEL else model
  | none => config.DEFAULT_MODEL

/-- The entry for the options, unless they are absent or empty. -/
def optionsOf (options : Option (List (Key × Obj α))) : List (Key × Obj α) :=
  match options with
  | some (option :: options) => [(.str "options", .dict (option :: options))]
  | some [] | none => []

def payload (config : Config) (messages : List (Obj α)) (model : Option String)
    (options : Option (List (Key × Obj α))) : Obj α :=
  .dict ([(.str "model", .str (modelOf config model)), (.str "messages", .list messages),
    (.str "stream", .scalar (Interpreter.ofBool false))] ++ optionsOf options)

/-- From "Fallback" on. -/
def fallback (data : Obj α) : Obj α :=
  match data with
  | .list xs =>
    match xs.getLast? with
    | some (.dict last) => (last.lookup (.str "content")).getD (.str (str data))
    | _ => .str (str data)
  | _ => .str (str data)

def parse (data : Obj α) : Except Error (Obj α) :=
  match data with
  | .dict kvs => do
    let msg ← get "message" (.scalar Interpreter.none) (.dict kvs)
    let msg := if truthy msg then msg else .dict []
    let content ← get "content" (.scalar Interpreter.none) msg
    if truthy content then return content else return fallback data
  | _ => return fallback data

/-- What is sent, and what is returned or raised on the outcome. -/
def chat (config : Config) (messages : List (Obj α)) (model : Option String)
    (options : Option (List (Key × Obj α))) (outcome : Http.Outcome α) :
    Http.Request α × Except Http.Error (Obj α) :=
  (⟨config.OLLAMA_HOST ++ "/api/chat", payload config messages model options⟩,
    outcome.json.bind fun data => (parse data).mapError .python)

/-! ## The content of a message -/

variable {kvs m : List (Key × Obj α)} {c : String}

theorem truthy_message (h : m.lookup (.str "content") = some (.str c)) :
    truthy (.dict m) = true := by
  cases m with
  | nil => cases h
  | cons kv m => rfl

/-- For an empty content the text of the document comes back. -/
theorem parse_message (hmessage : kvs.lookup (.str "message") = some (.dict m))
    (hcontent : m.lookup (.str "content") = some (.str c)) :
    parse (.dict kvs) = .ok (if c = "" then .str (str (.dict kvs)) else .str c) := by
  simp only [parse, get_of_lookup hmessage, get_of_lookup hcontent, truthy_message hcontent,
    if_true, Except.bind, bind, pure, Except.pure, fallback]
  by_cases hc : c = ""
  · rw [if_pos hc, hc]
    rfl
  · have htruthy : truthy (.str c : Obj α) = true := decide_eq_true hc
    rw [if_neg hc, if_pos htruthy]

theorem chat_message {config : Config} {messages : List (Obj α)} {model : Option String}
    {options : Option (List (Key × Obj α))}
    (hmessage : kvs.lookup (.str "message") = some (.dict m))
    (hcontent : m.lookup (.str "content") = some (.str c)) :
    (chat config messages model options (.reply (.ok (.dict kvs)))).2 = .ok (.str c) ↔ c ≠ "" := by
  simp only [chat, Http.Outcome.json, Except.bind, parse_message hmessage hcontent, Except.mapError]
  by_cases hc : c = ""
  · simp [hc, str_dict_ne_empty]
  · simp [hc]

end Simian.OllamaClient
