import Simian.Services.OllamaClient

/-! # The chat route

`chat_api` of `routes/chat.py`. Only errors of the request become status 502. A body that is no
document, or one in which the texts are not where they are looked for, raises something else or
returns no string (`contract_iff`). -/

namespace Simian.Chat
open Json Python

structure Config where
  OLLAMA_BASE : String
  MODEL_NAME : String

structure ChatMessage where
  role : String
  content : String

structure ChatRequest (α : Type) where
  prompt : Option String
  messages : Option (List ChatMessage)
  model : Option String
  options : Option (List (Key × Obj α))

/-- What `chat_api` raises. -/
inductive Error
  | HTTPException (status_code : Nat) (detail : String)
  | python (e : Python.Error)
  deriving DecidableEq, Repr

variable {α : Type}

def messageOf (m : ChatMessage) : Obj α :=
  .dict [(.str "role", .str m.role), (.str "content", .str m.content)]

/-- `msgs`; without messages and without a prompt there are none. -/
def msgsOf (payload : ChatRequest α) : Option (List (Obj α)) :=
  match payload.messages, payload.prompt with
  | some (m :: ms), _ => some ((m :: ms).map messageOf)
  | _, some prompt => if prompt = "" then none else some [messageOf ⟨"user", prompt⟩]
  | _, none => none

def modelOf (config : Config) (payload : ChatRequest α) : String :=
  match payload.model with
  | some model => if model = "" then config.MODEL_NAME else model
  | none => config.MODEL_NAME

def optionsOf (payload : ChatRequest α) : List (Key × Obj α) :=
  match payload.options with
  | some (option :: options) => [(.str "options", .dict (option :: options))]
  | some [] | none => []

def body (config : Config) (payload : ChatRequest α) (msgs : List (Obj α)) : Obj α :=
  .dict ([(.str "model", .str (modelOf config payload)), (.str "messages", .list msgs)] ++
    optionsOf payload)

/-- `"message" in data and "content" in data["message"]` -/
def hasContent (data : Obj α) : Except Python.Error Bool := do
  if ← contains "message" data then contains "content" (← item "message" data)
  else return false

/-- From `if "response" in data` on. -/
def respond [Interpreter α] (data : Obj α) : Except Python.Error (Obj α) := do
  if ← contains "response" data then item "response" data
  else return .str (str data)

def parse [Interpreter α] (data : Obj α) : Except Python.Error (Obj α) := do
  if ← hasContent data then item "content" (← item "message" data)
  else respond data

/-- `except httpx.HTTPError` -/
def handle : Http.Error → Error
  | .http message => .HTTPException 502 ("Ollama error: " ++ message)
  | .python e => .python e

/-- What is sent, if anything, and what is returned or raised on the outcome. -/
def chat_api [Interpreter α] (config : Config) (payload : ChatRequest α)
    (outcome : Http.Outcome α) : Option (Http.Request α) × Except Error (Obj α) :=
  match msgsOf payload with
  | none => (none, .error (.HTTPException 422 "Provide 'prompt' or 'messages'."))
  | some msgs =>
    (some ⟨config.OLLAMA_BASE ++ "/api/chat", body config payload msgs⟩,
      (outcome.json.bind fun data => (parse data).mapError .python).mapError handle)

/-! ## The texts of a reply -/

/-- An object without a text to be read has none under "response", or a string. -/
def ResponseReadable (kvs : List (Key × Obj α)) : Prop :=
  ∀ o, kvs.lookup (.str "response") = some o → IsStr o

/-- What stands under "message" can be searched for "content", and what is found is a string. -/
def MessageReadable (kvs : List (Key × Obj α)) : Obj α → Prop
  | .dict m => match m.lookup (.str "content") with
    | some o => IsStr o
    | none => ResponseReadable kvs
  | .list xs | .tuple xs => xs.any (equals "content") = false ∧ ResponseReadable kvs
  | .str s => ¬ Substring "content" s ∧ ResponseReadable kvs
  | .scalar _ | .foreign => False

/-- The documents in which the texts are where they are looked for, or nothing is. -/
def Readable : Obj α → Prop
  | .dict kvs => match kvs.lookup (.str "message") with
    | some o => MessageReadable kvs o
    | none => ResponseReadable kvs
  | .list xs | .tuple xs =>
    xs.any (equals "message") = false ∧ xs.any (equals "response") = false
  | .str s => ¬ Substring "message" s ∧ ¬ Substring "response" s
  | .scalar _ | .foreign => False

/-- The request has failed, or the body is a readable document. -/
def Answers : Http.Outcome α → Prop
  | .transport_error _ | .status_error _ => True
  | .reply (.ok data) => Readable data
  | .reply (.error _) => False

/-- A string is returned, or status 502 is raised. -/
def Contract (r : Except Error (Obj α)) : Prop :=
  (∃ o, r = .ok o ∧ IsStr o) ∨ ∃ detail, r = .error (.HTTPException 502 detail)

/-- The result is a string. -/
def GivesStr (r : Except Python.Error (Obj α)) : Prop := ∃ o, r = .ok o ∧ IsStr o

variable {kvs : List (Key × Obj α)} {data o : Obj α} {e : Python.Error}

theorem givesStr_ok : GivesStr (.ok o) ↔ IsStr o := by
  refine ⟨fun h => ?_, fun h => ⟨o, rfl, h⟩⟩
  obtain ⟨o', heq, h⟩ := h
  cases heq
  exact h

theorem not_givesStr_error : ¬ GivesStr (.error e : Except Python.Error (Obj α)) := by
  intro h
  obtain ⟨o, heq, -⟩ := h
  cases heq

theorem hasContent_of_contains {b : Bool} (h : contains "message" data = .ok b) :
    hasContent data = if b then (item "message" data).bind (contains "content") else .ok false := by
  rw [hasContent, h]
  cases b <;> rfl

theorem hasContent_dict (h : kvs.lookup (.str "message") = some o) :
    hasContent (.dict kvs) = contains "content" o := by
  rw [hasContent_of_contains rfl, h, item_of_lookup h]
  rfl

theorem contract_parse {r : Except Python.Error (Obj α)} :
    Contract ((r.mapError Http.Error.python).mapError handle) ↔ GivesStr r := by
  cases r with
  | error e =>
    refine iff_of_false (fun h => ?_) not_givesStr_error
    rcases h with ⟨o, heq, -⟩ | ⟨detail, heq⟩ <;> cases heq
  | ok o =>
    rw [givesStr_ok]
    refine ⟨fun h => ?_, fun h => .inl ⟨o, rfl, h⟩⟩
    rcases h with ⟨o', heq, h⟩ | ⟨detail, heq⟩
    · cases heq
      exact h
    · cases heq

/-- The request has messages, or a prompt. -/
def ChatRequest.Accepted (payload : ChatRequest α) : Prop :=
  (∃ ms, payload.messages = some ms ∧ ms ≠ []) ∨
    ∃ prompt, payload.prompt = some prompt ∧ prompt ≠ ""

theorem msgsOf_of_accepted {payload : ChatRequest α} (h : payload.Accepted) :
    ∃ msgs, msgsOf payload = some msgs := by
  obtain ⟨prompt, messages, model, options⟩ := payload
  rcases h with ⟨ms, rfl, hne⟩ | ⟨p, rfl, hp⟩
  · obtain ⟨m, ms, rfl⟩ := List.exists_cons_of_ne_nil hne
    exact ⟨_, rfl⟩
  · rcases messages with _ | _ | ⟨m, ms⟩
    · exact ⟨_, if_neg hp⟩
    · exact ⟨_, if_neg hp⟩
    · exact ⟨_, rfl⟩

variable [Interpreter α]

theorem parse_of_hasContent (h : hasContent data = .ok true) :
    parse data = (item "message" data).bind (item "content") := by
  rw [parse, h]
  rfl

theorem parse_of_not_hasContent (h : hasContent data = .ok false) : parse data = respond data := by
  rw [parse, h]
  rfl

theorem parse_of_error (h : hasContent data = .error e) : parse data = .error e := by
  rw [parse, h]
  rfl

theorem respond_of_contains {b : Bool} (h : contains "response" data = .ok b) :
    respond data = if b then item "response" data else .ok (.str (str data)) := by
  rw [respond, h]
  cases b <;> rfl

theorem respond_dict : GivesStr (respond (.dict kvs)) ↔ ResponseReadable kvs := by
  rw [respond_of_contains rfl, item, ResponseReadable]
  cases kvs.lookup (.str "response") with
  | none => simp [givesStr_ok, IsStr]
  | some o => simp [givesStr_ok]

/-- A document that can be searched for a key, but has nothing under it. -/
theorem parse_sequence {inMessage inResponse : Bool}
    (hmessage : contains "message" data = .ok inMessage)
    (hresponse : contains "response" data = .ok inResponse)
    (hitem : ∀ key, item key data = .error .typeError) :
    GivesStr (parse data) ↔ inMessage = false ∧ inResponse = false := by
  have hcontent := hasContent_of_contains hmessage
  have hrespond := respond_of_contains hresponse
  rw [hitem] at hcontent hrespond
  cases inMessage with
  | true =>
    rw [parse_of_error hcontent]
    simp [not_givesStr_error]
  | false =>
    rw [parse_of_not_hasContent hcontent, hrespond]
    cases inResponse with
    | true => simp [not_givesStr_error]
    | false => simp [givesStr_ok, IsStr]

theorem parse_dict_none (h : kvs.lookup (.str "message") = none) :
    GivesStr (parse (.dict kvs)) ↔ ResponseReadable kvs := by
  have hcontent : hasContent (.dict kvs) = .ok false := by
    rw [hasContent_of_contains rfl, h]
    rfl
  rw [parse_of_not_hasContent hcontent, respond_dict]

theorem parse_dict_sequence {inMessage : Bool} (h : kvs.lookup (.str "message") = some o)
    (hmessage : contains "content" o = .ok inMessage)
    (hitem : item "content" o = .error .typeError) :
    GivesStr (parse (.dict kvs)) ↔ inMessage = false ∧ ResponseReadable kvs := by
  have hcontent := hasContent_dict h
  rw [hmessage] at hcontent
  cases inMessage with
  | true =>
    rw [parse_of_hasContent hcontent, item_of_lookup h, Except.bind, hitem]
    simp [not_givesStr_error]
  | false =>
    rw [parse_of_not_hasContent hcontent, respond_dict]
    simp

theorem parse_dict_some (h : kvs.lookup (.str "message") = some o) :
    GivesStr (parse (.dict kvs)) ↔ MessageReadable kvs o := by
  cases o with
  | scalar a | foreign =>
    rw [parse_of_error (hasContent_dict h)]
    exact iff_of_false not_givesStr_error id
  | str s =>
    rw [parse_dict_sequence h rfl rfl, MessageReadable, decide_eq_false_iff_not]
  | list xs | tuple xs => exact parse_dict_sequence h rfl rfl
  | dict m =>
    have hcontent := hasContent_dict h
    rw [contains] at hcontent
    rw [MessageReadable]
    cases hm : m.lookup (.str "content") with
    | none =>
      rw [hm] at hcontent
      rw [parse_of_not_hasContent hcontent, respond_dict]
    | some c =>
      rw [hm] at hcontent
      rw [parse_of_hasContent hcontent, item_of_lookup h, Except.bind, item_of_lookup hm,
        givesStr_ok]

theorem parse_iff : GivesStr (parse data) ↔ Readable data := by
  cases data with
  | scalar a =>
    rw [parse_of_error (e := .typeError) rfl]
    exact iff_of_false not_givesStr_error id
  | foreign =>
    rw [parse_of_error (e := .typeError) rfl]
    exact iff_of_false not_givesStr_error id
  | str s =>
    rw [parse_sequence rfl rfl fun _ => rfl, Readable, decide_eq_false_iff_not,
      decide_eq_false_iff_not]
  | list xs | tuple xs => exact parse_sequence rfl rfl fun _ => rfl
  | dict kvs =>
    rw [Readable]
    cases hmessage : kvs.lookup (.str "message") with
    | none => exact parse_dict_none hmessage
    | some o => exact parse_dict_some hmessage

variable {config : Config} {payload : ChatRequest α} {outcome : Http.Outcome α}

theorem chat_api_reply (h : payload.Accepted) {data : Obj α} :
    (chat_api config payload (.reply (.ok data))).2 =
      ((parse data).mapError .python).mapError handle := by
  obtain ⟨msgs, hmsgs⟩ := msgsOf_of_accepted h
  rw [chat_api, hmsgs]
  rfl

/-- Every other outcome of a request raises something else, or gives no string. -/
theorem contract_iff (config : Config) (outcome : Http.Outcome α) (h : payload.Accepted) :
    Contract (chat_api config payload outcome).2 ↔ Answers outcome := by
  cases outcome with
  | transport_error message | status_error message =>
    obtain ⟨msgs, hmsgs⟩ := msgsOf_of_accepted h
    rw [chat_api, hmsgs]
    exact iff_of_true (.inr ⟨_, rfl⟩) trivial
  | reply body =>
    cases body with
    | error message =>
      obtain ⟨msgs, hmsgs⟩ := msgsOf_of_accepted h
      rw [chat_api, hmsgs]
      refine iff_of_false (fun hcontract => ?_) id
      rcases hcontract with ⟨o, heq, -⟩ | ⟨detail, heq⟩ <;> cases heq
    | ok data =>
      rw [chat_api_reply h]
      exact contract_parse.trans parse_iff

/-- A request with the prompt alone. -/
def prompted (prompt : String) : ChatRequest α := ⟨some prompt, none, none, none⟩

def localhost : Config := ⟨"http://127.0.0.1:11434", "simian"⟩

theorem contract_prompted : Contract (chat_api localhost (prompted "hi")
    (.reply (.ok (.dict [(.str "response", .str "hello")] : Obj Constant)))).2 := by
  have haccepted : (prompted "hi" : ChatRequest Constant).Accepted :=
    .inr ⟨"hi", rfl, by decide⟩
  apply (contract_iff localhost _ haccepted).mpr
  intro o ho
  cases ho
  exact ⟨"hello", rfl⟩

/-- A reply with status 200 and the document `null`. -/
theorem contract_fails_on_null :
    (chat_api localhost (prompted "hi") (.reply (.ok (.scalar Constant.null)))).2 =
      .error (.python .typeError) ∧
    ¬ Contract (chat_api localhost (prompted "hi") (.reply (.ok (.scalar Constant.null)))).2 := by
  refine ⟨rfl, fun h => ?_⟩
  rcases h with ⟨o, heq, -⟩ | ⟨detail, heq⟩ <;> cases heq

/-! ## Both readers of a reply -/

variable {m : List (Key × Obj α)} {c : String}

theorem parse_message (hmessage : kvs.lookup (.str "message") = some (.dict m))
    (hcontent : m.lookup (.str "content") = some (.str c)) :
    parse (.dict kvs) = .ok (.str c) := by
  have hfound : hasContent (.dict kvs) = .ok true := by
    rw [hasContent_dict hmessage, contains, hcontent]
    rfl
  rw [parse_of_hasContent hfound, item_of_lookup hmessage, Except.bind, item_of_lookup hcontent]

/-- The content of the message is returned by both, unless it is empty. -/
theorem readers_agree_iff (config : Config) (client : OllamaClient.Config)
    (messages : List (Obj α)) (model : Option String) (options : Option (List (Key × Obj α)))
    (h : payload.Accepted) (hmessage : kvs.lookup (.str "message") = some (.dict m))
    (hcontent : m.lookup (.str "content") = some (.str c)) :
    ((OllamaClient.chat client messages model options (.reply (.ok (.dict kvs)))).2 =
        .ok (.str c) ∧
      (chat_api config payload (.reply (.ok (.dict kvs)))).2 = .ok (.str c)) ↔ c ≠ "" := by
  rw [OllamaClient.chat_message hmessage hcontent, chat_api_reply h,
    parse_message hmessage hcontent]
  exact and_iff_left rfl

/-- A reply of Ollama with the content `c`. -/
def replyOf (c : String) : Obj Constant :=
  .dict [(.str "message", .dict [(.str "role", .str "assistant"), (.str "content", .str c)])]

def client : OllamaClient.Config := ⟨"http://127.0.0.1:11434", "llama3.1"⟩

theorem readers_agree_hello :
    (OllamaClient.chat client [] none none (.reply (.ok (replyOf "hello")))).2 =
      .ok (.str "hello") ∧
    (chat_api localhost (prompted "hi") (.reply (.ok (replyOf "hello")))).2 =
      .ok (.str "hello") := by
  have haccepted : (prompted "hi" : ChatRequest Constant).Accepted :=
    .inr ⟨"hi", rfl, by decide⟩
  exact (readers_agree_iff localhost client [] none none haccepted rfl rfl).2 (by decide)

/-- A reply with the empty content. -/
theorem readers_differ_on_empty :
    (OllamaClient.chat client [] none none (.reply (.ok (replyOf "")))).2 =
      .ok (.str "\x7b'message': \x7b'role': 'assistant', 'content': ''\x7d\x7d") ∧
    (chat_api localhost (prompted "hi") (.reply (.ok (replyOf "")))).2 = .ok (.str "") ∧
    ¬ ((OllamaClient.chat client [] none none (.reply (.ok (replyOf "")))).2 = .ok (.str "") ∧
      (chat_api localhost (prompted "hi") (.reply (.ok (replyOf "")))).2 = .ok (.str "")) := by
  have hclient : (OllamaClient.chat client [] none none (.reply (.ok (replyOf "")))).2 =
      .ok (.str "\x7b'message': \x7b'role': 'assistant', 'content': ''\x7d\x7d") := rfl
  refine ⟨hclient, rfl, fun h => ?_⟩
  have heq := Obj.str.inj (Except.ok.inj (hclient.symm.trans h.1))
  exact absurd heq (by decide)

end Simian.Chat
