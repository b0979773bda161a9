import Simian.Modules.LlmClient
import Simian.Routes.Chat

/-! # The chat route behind its server

The application validates the body of a request, calls `chat_api` and makes a response of what it
returns or raises (`Server`). `delivered` says what `LLMClient` makes of the response
(`receive_serve`): it returns the text that was read from Ollama's reply, and the text of an
exception is that of the status, so no detail of an error gets through. -/

namespace Simian.Chat
open Json Python

variable {α : Type} [Scalar α] [Interpreter α]

/-- What FastAPI and pydantic 2 add to the route. Messages with a model and no prompt are valid; a
string is sent as JSON, an `HTTPException` with its status, and all else that is returned or raised
is an internal error. -/
structure Server (α : Type) [Scalar α] [Interpreter α] where
  /-- The reason phrase of a status. -/
  phrase : Nat → String
  /-- The body as a `ChatRequest`, if it is one. -/
  validate : Obj α → Option (ChatRequest α)
  /-- The response to a body that is none. -/
  unprocessable : Obj α → Http.Response
  /-- The response to what the route returns or raises. -/
  response : Except Error (Obj α) → Http.Response
  validate_messages : ∀ (messages : List ChatMessage) (model : String),
    validate (.dict [(.str "messages", .list (messages.map messageOf)),
      (.str "prompt", .scalar Interpreter.none), (.str "model", .str model)]) =
        some ⟨none, some messages, some model, none⟩
  reason : ∀ r, (response r).reason = phrase (response r).status
  status_str : ∀ s, (response (.ok (.str s))).status = 200
  content_type_str : ∀ s, (response (.ok (.str s))).content_type = "application/json"
  load_str : ∀ s, load (response (.ok (.str s))).text.toList = some (.str s : Obj α)
  status_exception : ∀ status_code detail,
    (response (.error (.HTTPException status_code detail))).status = status_code
  status_python : ∀ e, (response (.error (.python e))).status = 500
  status_other : ∀ o, ¬ IsStr o → (response (.ok o)).status = 500

/-- What is sent to Ollama, if anything, and the response. -/
def serve (config : Config) (server : Server α) (body : Obj α) (outcome : Http.Outcome α) :
    Option (Http.Request α) × Http.Response :=
  match server.validate body with
  | none => (none, server.unprocessable body)
  | some payload =>
    let r := chat_api config payload outcome
    (r.1, server.response r.2)

/-! ## What the client is told -/

/-- The text of the exception for a status. -/
def statusText (requests : Requests α) (server : Server α) (url : String) (status : Nat) : String :=
  requests.status_error status (server.phrase status) url

/-- The text that was read from the reply, or a status and nothing else. -/
def delivered (requests : Requests α) (server : Server α) (url : String) :
    Http.Outcome α → Except String String
  | .transport_error _ | .status_error _ => .error (statusText requests server url 502)
  | .reply (.error _) => .error (statusText requests server url 500)
  | .reply (.ok data) => match parse data with
    | .ok (.str s) => .ok s
    | _ => .error (statusText requests server url 500)

variable {requests : Requests α} {server : Server α} {client : LLMClient} {config : Config}
  {outcome : Http.Outcome α} {u m url text message : String}

theorem delivered_eq_ok : delivered requests server url outcome = .ok text ↔
    ∃ data, outcome = .reply (.ok data) ∧ parse data = .ok (.str text) := by
  constructor
  · intro h
    unfold delivered at h
    split at h
    · cases h
    · cases h
    · cases h
    · rename_i data
      split at h
      · rename_i hparse
        cases h
        exact ⟨data, rfl, hparse⟩
      · cases h
  · intro h
    obtain ⟨data, rfl, hparse⟩ := h
    rw [delivered, hparse]

theorem delivered_eq_error (h : delivered requests server url outcome = .error message) :
    message = statusText requests server url 500 ∨
      message = statusText requests server url 502 := by
  unfold delivered at h
  split at h
  · exact .inr (Except.error.inj h).symm
  · exact .inr (Except.error.inj h).symm
  · exact .inl (Except.error.inj h).symm
  · split at h
    · cases h
    · exact .inl (Except.error.inj h).symm

theorem receive_text (s : String) :
    client.receive requests (.ok (server.response (.ok (.str s)))) = .ok (.str s) := by
  have hjson : "application/json".toList.isPrefixOf
      (server.response (.ok (.str s))).content_type.toList = true := by
    rw [server.content_type_str]
    exact List.isPrefixOf_iff_prefix.2 (List.prefix_refl _)
  have hok : requests.raise_for_status client.url (server.response (.ok (.str s))) = none := by
    rw [requests.raise_for_status_eq, server.status_str, if_neg (by omega)]
  rw [LLMClient.receive, hok]
  dsimp only
  rw [LLMClient.read, if_pos hjson, requests.json_str _ _ (server.load_str s)]

/-- Of a response with an error, only the status is read. -/
theorem receive_error {r : Except Error (Obj α)} {status : Nat}
    (hstatus : (server.response r).status = status) (h : 400 ≤ status) (h' : status < 600) :
    client.receive requests (.ok (server.response r)) =
      .error (statusText requests server client.url status) := by
  have herror : requests.raise_for_status client.url (server.response r) =
      some (statusText requests server client.url status) := by
    rw [requests.raise_for_status_eq, server.reason, hstatus, if_pos ⟨h, h'⟩, statusText]
  rw [LLMClient.receive, herror]

/-- A request of the client with one message of the user. -/
theorem validate_request (client : LLMClient) (u m : String) :
    server.validate (client.request (some [messageOf ⟨"user", u⟩]) none (some m)).body =
      some ⟨none, some [⟨"user", u⟩], some m, none⟩ := server.validate_messages [⟨"user", u⟩] m

/-- What the client makes of the response is the text that was read from Ollama's reply, or the text
of a status. -/
theorem receive_serve (u m : String) :
    client.receive requests (.ok (serve config server
      (client.request (some [messageOf ⟨"user", u⟩]) none (some m)).body outcome).2) =
        (delivered requests server client.url outcome).map .str := by
  rw [serve, validate_request]
  dsimp only
  cases outcome with
  | transport_error message | status_error message =>
    exact receive_error (server.status_exception _ _) (by omega) (by omega)
  | reply body =>
    cases body with
    | error message => exact receive_error (server.status_python _) (by omega) (by omega)
    | ok data =>
      have haccepted : (⟨none, some [⟨"user", u⟩], some m, none⟩ : ChatRequest α).Accepted :=
        .inl ⟨_, rfl, List.cons_ne_nil _ _⟩
      rw [chat_api_reply haccepted, delivered]
      cases parse data with
      | error e => exact receive_error (server.status_python e) (by omega) (by omega)
      | ok o =>
        by_cases ho : IsStr o
        · obtain ⟨s, rfl⟩ := ho
          exact receive_text s
        · have hstatus := @receive_error _ _ _ requests server client _ 500
            (server.status_other o ho) (by omega) (by omega)
          cases o with
          | str s => exact absurd ⟨s, rfl⟩ ho
          | scalar a | list xs | tuple xs | dict kvs | foreign => exact hstatus

/-- The one request to Ollama that it leads to. -/
theorem asked_serve (client : LLMClient) (u m : String) :
    (serve config server (client.request (some [messageOf ⟨"user", u⟩]) none (some m)).body
      outcome).1 = some ⟨config.OLLAMA_BASE ++ "/api/chat", .dict [
        (.str "model", .str (if m = "" then config.MODEL_NAME else m)),
        (.str "messages", .list [messageOf ⟨"user", u⟩])]⟩ := by
  rw [serve, validate_request]
  rfl

end Simian.Chat
