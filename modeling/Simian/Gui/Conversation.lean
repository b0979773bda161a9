import Simian.Lib.Json.Raw
import Simian.Lib.Machine
import Simian.Routes.Chat.Server

/-! # The conversation in the window

The "Chat" tab of `gui/simian_gui.py`, with the client, the route and its server behind it. A press
of Send posts the one text that is in the entry to the route whose address was in the settings at
launch. `conversation_of_run` says of a whole session what stands in the window and what has been
asked of Ollama; `send_iff` says when a press is answered. The literal of lines 99 and 100 is read
as one line, and the package `gui` as if it could be imported. -/

namespace Simian.Conversation
open Json Python Chat

variable {α : Type}

/-- `get_wakeup_message(name)` of `utils/greetings.py`, at an hour of the day. -/
def get_wakeup_message (hour : Nat) (name : Option String) : String :=
  let base :=
    if hour < 6 then "Working late?"
    else if hour < 12 then "Good morning."
    else if hour < 18 then "Good afternoon."
    else "Good evening."
  match name with
  | some name => if name = "" then base else base ++ " " ++ name
  | none => base

/-- What becomes of a request to the route: it does not arrive, its response does not, or both do.
What is given is the exception's text, and how Ollama answers the route. -/
inductive Link (α : Type)
  | refused (message : String)
  | lost (message : String) (outcome : Http.Outcome α)
  | answered (outcome : Http.Outcome α)

/-- What the conversation runs on. -/
structure World (α : Type) [Scalar α] [Interpreter α] where
  config : Config
  server : Server α
  requests : Requests α

structure Window (α : Type) where
  client : LLMClient
  api_var : String
  model_var : String
  entry : String := ""
  /-- What has been written to the text, line by line. -/
  txt : List String
  /-- The texts of the boxes "Chat error". -/
  boxes : List String := []
  /-- What has been posted to Ollama. -/
  asked : List (Http.Request α) := []

/-- The window as `run(api_base)` opens it. -/
def launch (api_base model : String) (hour : Nat) : Window α where
  client := LLMClient.init api_base
  api_var := api_base
  model_var := model
  txt := ["[Simian] " ++ get_wakeup_message hour none ++ "\n"]

section Send
variable [Scalar α] [Interpreter α]

/-- `client.chat` with the route at the other end: what is posted to Ollama, and the result. -/
def chat (world : World α) (client : LLMClient) (request : Http.Request α) :
    Link α → Option (Http.Request α) × Except String (Obj α)
  | .refused message => (none, client.receive world.requests (.error message))
  | .lost message outcome => ((serve world.config world.server request.body outcome).1,
      client.receive world.requests (.error message))
  | .answered outcome =>
    let r := serve world.config world.server request.body outcome
    (r.1, client.receive world.requests (.ok r.2))

def on_send (world : World α) (s : Window α) (link : Link α) : Window α :=
  let user := strip s.entry
  if user = "" then s
  else
    let r := chat world s.client
      (s.client.request (some [messageOf ⟨"user", user⟩]) none (some s.model_var)) link
    let s := { s with
      txt := s.txt ++ ["[You] " ++ user ++ "\n"]
      entry := ""
      asked := s.asked ++ r.1.toList }
    match r.2 with
    | .error message => { s with boxes := s.boxes ++ [message] }
    | .ok reply => { s with txt := s.txt ++ ["[Simian] " ++ str reply ++ "\n"] }

/-- The user edits one of the fields, or presses Send. -/
inductive Event (α : Type)
  | type (text : String)
  | set_model (text : String)
  | set_api (text : String)
  | send (link : Link α)

def Window.step (world : World α) (s : Window α) : Event α → Option (Window α)
  | .type text => some { s with entry := text }
  | .set_model text => some { s with model_var := text }
  | .set_api text => some { s with api_var := text }
  | .send link => some (on_send world s link)

def mainloop (world : World α) (api_base model : String) (hour : Nat) :
    Machine (Window α) (Event α) where
  init := launch api_base model hour
  step := Window.step world

end Send

/-! ## Exchanges -/

/-- A text that has been sent, with the model that was asked for. -/
structure Exchange (α : Type) where
  user : String
  model : String
  link : Link α

/-- The exchanges of a session that begins with the given text in the entry. The address in the
settings plays no part. -/
def exchanges : String → String → List (Event α) → List (Exchange α)
  | _, _, [] => []
  | _, model, .type text :: es => exchanges text model es
  | entry, _, .set_model text :: es => exchanges entry text es
  | entry, model, .set_api _ :: es => exchanges entry model es
  | entry, model, .send link :: es =>
    if strip entry = "" then exchanges entry model es
    else ⟨strip entry, model, link⟩ :: exchanges "" model es

namespace Exchange
variable [Scalar α] [Interpreter α]

/-- What the window is told, as a text of Ollama's or as that of an exception. -/
def reply (world : World α) (url : String) (x : Exchange α) :
    Except String String :=
  match x.link with
  | .refused message | .lost message _ => .error message
  | .answered outcome => delivered world.requests world.server url outcome

/-- What it adds to the window's text. -/
def lines (world : World α) (url : String) (x : Exchange α) : List String :=
  ("[You] " ++ x.user ++ "\n") :: match x.reply world url with
    | .ok text => ["[Simian] " ++ text ++ "\n"]
    | .error _ => []

def box (world : World α) (url : String) (x : Exchange α) : List String :=
  match x.reply world url with
  | .ok _ => []
  | .error message => [message]

omit [Scalar α] [Interpreter α] in
/-- What it asks of Ollama, if it gets to the route: the one message, and nothing of those
before. -/
def asked (config : Config) (x : Exchange α) : List (Http.Request α) :=
  match x.link with
  | .refused _ => []
  | .lost _ _ | .answered _ => [⟨config.OLLAMA_BASE ++ "/api/chat", .dict [
      (.str "model", .str (if x.model = "" then config.MODEL_NAME else x.model)),
      (.str "messages", .list [messageOf ⟨"user", x.user⟩])]⟩]

variable {world : World α} {x : Exchange α} {url text message : String}

omit [Scalar α] [Interpreter α] in
theorem toList_head?_asked (config : Config) (x : Exchange α) :
    (x.asked config).head?.toList = x.asked config := by
  obtain ⟨user, model, link⟩ := x
  cases link <;> rfl

theorem reply_eq_ok : x.reply world url = .ok text ↔
    ∃ data, x.link = .answered (.reply (.ok data)) ∧ parse data = .ok (.str text) := by
  unfold reply
  cases x.link with
  | refused message | lost message outcome => simp
  | answered outcome => simp [delivered_eq_ok]

theorem lines_eq_iff :
    x.lines world url = ["[You] " ++ x.user ++ "\n", "[Simian] " ++ text ++ "\n"] ↔
      x.reply world url = .ok text := by
  unfold lines
  cases x.reply world url with
  | error message => simp
  | ok reply => simp

/-- No box is shown for the documents in which the texts are where they are looked for. -/
theorem box_eq_nil : x.box world url = [] ↔
    ∃ data, x.link = .answered (.reply (.ok data)) ∧ Readable data := by
  have hbox : x.box world url = [] ↔ ∃ text, x.reply world url = .ok text := by
    unfold box
    cases x.reply world url with
    | error message => simp
    | ok text => simp
  rw [hbox]
  constructor
  · intro hex
    obtain ⟨text, h⟩ := hex
    obtain ⟨data, hlink, hparse⟩ := reply_eq_ok.1 h
    exact ⟨data, hlink, parse_iff.1 ⟨_, hparse, text, rfl⟩⟩
  · intro hex
    obtain ⟨data, hlink, h⟩ := hex
    obtain ⟨o, hparse, text, rfl⟩ := parse_iff.2 h
    exact ⟨text, reply_eq_ok.2 ⟨data, hlink, hparse⟩⟩

theorem box_of_answered {outcome : Http.Outcome α} (h : x.link = .answered outcome) :
    x.box world url = [] ∨ ∃ status, (status = 500 ∨ status = 502) ∧
      x.box world url = [statusText world.requests world.server url status] := by
  have hreply : x.reply world url = delivered world.requests world.server url outcome := by
    rw [reply, h]
  rw [box, hreply]
  cases hdelivered : delivered world.requests world.server url outcome with
  | ok text => exact .inl rfl
  | error message =>
    rcases delivered_eq_error hdelivered with rfl | rfl
    · exact .inr ⟨500, .inl rfl, rfl⟩
    · exact .inr ⟨502, .inr rfl, rfl⟩

end Exchange

/-! ## Sessions -/

section Sessions
variable [Scalar α] [Interpreter α] {world : World α} {s t u : Window α} {xs ys : List (Exchange α)}

/-- `t` is `s` after the exchanges `xs`. -/
structure Extends (world : World α) (s : Window α) (xs : List (Exchange α)) (t : Window α) :
    Prop where
  client : t.client = s.client
  txt : t.txt = s.txt ++ xs.flatMap (·.lines world s.client.url)
  boxes : t.boxes = s.boxes ++ xs.flatMap (·.box world s.client.url)
  asked : t.asked = s.asked ++ xs.flatMap (·.asked world.config)

theorem Extends.edit (entry model api : String) :
    Extends world s [] { s with entry := entry, model_var := model, api_var := api } where
  client := rfl
  txt := (List.append_nil _).symm
  boxes := (List.append_nil _).symm
  asked := (List.append_nil _).symm

theorem Extends.trans (h : Extends world s xs t) (h' : Extends world t ys u) :
    Extends world s (xs ++ ys) u where
  client := h'.client.trans h.client
  txt := by rw [h'.txt, h.txt, h.client, List.flatMap_append, List.append_assoc]
  boxes := by rw [h'.boxes, h.boxes, h.client, List.flatMap_append, List.append_assoc]
  asked := by rw [h'.asked, h.asked, List.flatMap_append, List.append_assoc]

end Sessions

variable [Scalar α] [Interpreter α]
variable {world : World α} {s t : Window α} {link : Link α} {es : List (Event α)}

/-- The call of the client and the exchange. -/
theorem chat_request (client : LLMClient) (x : Exchange α) :
    chat world client (client.request (some [messageOf ⟨"user", x.user⟩]) none (some x.model))
      x.link = ((x.asked world.config).head?, (x.reply world client.url).map .str) := by
  obtain ⟨user, model, link⟩ := x
  cases link with
  | refused message => rfl
  | lost message outcome =>
    rw [chat, asked_serve]
    rfl
  | answered outcome =>
    dsimp only [chat]
    rw [asked_serve, receive_serve]
    rfl

theorem on_send_of_blank (h : strip s.entry = "") : on_send world s link = s := if_pos h

/-- A press of Send is one exchange. -/
theorem on_send_of_text (h : strip s.entry ≠ "") : on_send world s link =
    let x : Exchange α := ⟨strip s.entry, s.model_var, link⟩
    { s with
      entry := ""
      txt := s.txt ++ x.lines world s.client.url
      boxes := s.boxes ++ x.box world s.client.url
      asked := s.asked ++ x.asked world.config } := by
  have hchat := @chat_request _ _ _ world s.client ⟨strip s.entry, s.model_var, link⟩
  dsimp only at hchat ⊢
  rw [on_send]
  dsimp only
  rw [if_neg h, hchat, Exchange.toList_head?_asked, Exchange.lines, Exchange.box]
  cases Exchange.reply world s.client.url ⟨strip s.entry, s.model_var, link⟩ with
  | error message => simp [Except.map]
  | ok text => simp [Except.map, str]

theorem Extends.send (h : strip s.entry ≠ "") :
    Extends world s [⟨strip s.entry, s.model_var, link⟩] (on_send world s link) := by
  rw [on_send_of_text h]
  refine ⟨rfl, ?_, ?_, ?_⟩
  · rw [List.flatMap_singleton]
  · rw [List.flatMap_singleton]
  · rw [List.flatMap_singleton]

/-- What an event adds, and what is left to the events that follow. -/
theorem step_extends (world : World α) (s : Window α) (e : Event α) :
    ∃ t xs, s.step world e = some t ∧ Extends world s xs t ∧ ∀ es,
      exchanges s.entry s.model_var (e :: es) = xs ++ exchanges t.entry t.model_var es := by
  cases e with
  | type text => exact ⟨_, [], rfl, .edit text s.model_var s.api_var, fun es => rfl⟩
  | set_model text => exact ⟨_, [], rfl, .edit s.entry text s.api_var, fun es => rfl⟩
  | set_api text => exact ⟨_, [], rfl, .edit s.entry s.model_var text, fun es => rfl⟩
  | send link =>
    by_cases h : strip s.entry = ""
    · refine ⟨s, [], congrArg some (on_send_of_blank h), .edit s.entry s.model_var s.api_var, ?_⟩
      intro es
      rw [exchanges, if_pos h, List.nil_append]
    · refine ⟨_, _, rfl, .send h, ?_⟩
      intro es
      rw [exchanges, if_neg h, on_send_of_text h]
      rfl

variable {api_base model : String} {hour : Nat}

theorem run_extends (s : Window α) (es : List (Event α)) :
    ∃ t, (mainloop world api_base model hour).run s es = some t ∧
      Extends world s (exchanges s.entry s.model_var es) t := by
  induction es generalizing s with
  | nil => exact ⟨s, rfl, .edit s.entry s.model_var s.api_var⟩
  | cons e es ih =>
    obtain ⟨s', xs, hstep, hs, hrest⟩ := step_extends world s e
    obtain ⟨t, hrun, ht⟩ := ih s'
    refine ⟨t, Machine.run_cons_some.2 ⟨s', hstep, hrun⟩, ?_⟩
    rw [hrest]
    exact hs.trans ht

/-- In every session each exchange leaves its own lines, in order, and asks Ollama once or not at
all; the boxes are those of the exchanges that failed. -/
theorem conversation_of_run (world : World α) (api_base model : String) (hour : Nat)
    (es : List (Event α)) : ∃ t,
    (mainloop world api_base model hour).run (launch api_base model hour) es = some t ∧
    t.txt = ["[Simian] " ++ get_wakeup_message hour none ++ "\n"] ++
      (exchanges "" model es).flatMap (·.lines world (LLMClient.init api_base).url) ∧
    t.boxes = (exchanges "" model es).flatMap (·.box world (LLMClient.init api_base).url) ∧
    t.asked = (exchanges "" model es).flatMap (·.asked world.config) := by
  obtain ⟨t, hrun, ht⟩ := @run_extends _ _ _ world api_base model hour
    (launch api_base model hour) es
  exact ⟨t, hrun, ht.txt, ht.boxes, ht.asked⟩

/-! ## Replies -/

/-- The reply shown is the text that is found in Ollama's, and where none is found there is a box,
with no more in it than a status where the route has answered. -/
theorem send_iff (world : World α) (link : Link α) (text : String) (h : strip s.entry ≠ "") :
    ((on_send world s link).txt =
        s.txt ++ ["[You] " ++ strip s.entry ++ "\n", "[Simian] " ++ text ++ "\n"] ↔
      ∃ data, link = .answered (.reply (.ok data)) ∧ parse data = .ok (.str text)) ∧
    ((on_send world s link).boxes = s.boxes ↔
      ∃ data, link = .answered (.reply (.ok data)) ∧ Readable data) ∧
    ∀ outcome, link = .answered outcome → (on_send world s link).boxes = s.boxes ∨
      ∃ status, (status = 500 ∨ status = 502) ∧ (on_send world s link).boxes =
        s.boxes ++ [statusText world.requests world.server s.client.url status] := by
  rw [on_send_of_text h]
  dsimp only
  refine ⟨?_, ?_, fun outcome hlink => ?_⟩
  · rw [List.append_cancel_left_eq]
    exact Exchange.lines_eq_iff.trans Exchange.reply_eq_ok
  · rw [List.append_right_eq_self]
    exact Exchange.box_eq_nil
  · obtain hbox | ⟨status, hstatus, hbox⟩ := @Exchange.box_of_answered _ _ _ world
      ⟨strip s.entry, s.model_var, link⟩ s.client.url outcome hlink
    · exact .inl (by rw [hbox, List.append_nil])
    · exact .inr ⟨status, hstatus, by rw [hbox]⟩

def readMessage : Obj Constant → Option ChatMessage
  | .dict [(.str "role", .str role), (.str "content", .str content)] => some ⟨role, content⟩
  | _ => none

theorem readMessages_messageOf (messages : List ChatMessage) :
    (messages.map messageOf).mapM readMessage = some messages := by
  induction messages with
  | nil => rfl
  | cons m messages ih =>
    rw [List.map_cons, List.mapM_cons, ih]
    rfl

def phrase : Nat → String
  | 200 => "OK"
  | 502 => "Bad Gateway"
  | _ => "Internal Server Error"

/-- A server for requests with messages. -/
def local_server : Server Constant where
  phrase := phrase
  validate
    | .dict [(.str "messages", .list xs), (.str "prompt", .scalar .null),
        (.str "model", .str model)] =>
      (xs.mapM readMessage).map fun messages => ⟨none, some messages, some model, none⟩
    | _ => none
  unprocessable _ := ⟨422, "Unprocessable Entity", "application/json", ""⟩
  response
    | .ok (.str s) => ⟨200, phrase 200, "application/json", String.ofList (quoteRaw s)⟩
    | .error (.HTTPException status_code detail) => ⟨status_code, phrase status_code,
      "application/json",
      String.ofList ("\x7b\"detail\":".toList ++ quoteRaw detail ++ "\x7d".toList)⟩
    | _ => ⟨500, phrase 500, "text/plain; charset=utf-8", "Internal Server Error"⟩
  validate_messages messages model := by
    show ((messages.map messageOf).mapM readMessage).map _ = _
    rw [readMessages_messageOf]
    rfl
  reason r := by
    rcases r with (_ | _) | (_ | _) <;> rfl
  status_str _ := rfl
  content_type_str _ := rfl
  load_str s := by
    rw [String.toList_ofList, load_quoteRaw]
  status_exception _ _ := rfl
  status_python _ := rfl
  status_other o ho := by
    cases o with
    | str s => exact absurd ⟨s, rfl⟩ ho
    | scalar | list | tuple | dict | foreign => rfl

def local_requests : Requests Constant where
  status_error status reason url :=
    toString status ++ " Server Error: " ++ reason ++ " for url: " ++ url
  raise_for_status url r := if 400 ≤ r.status ∧ r.status < 600
    then some (toString r.status ++ " Server Error: " ++ r.reason ++ " for url: " ++ url) else none
  json r := match load r.text.toList with
    | some o => .ok o
    | none => .error "Expecting value: line 1 column 1 (char 0)"
  raise_for_status_eq _ _ := rfl
  json_str r s h := by rw [h]

def local_world : World Constant := ⟨localhost, local_server, local_requests⟩

/-- The window at launch, after something has been typed. -/
def typed : Window Constant := { launch "http://127.0.0.1:8000/" "simian" 9 with entry := " hi " }

theorem send_hi : (on_send local_world typed (.answered (.reply (.ok (replyOf "hello"))))).txt =
    ["[Simian] Good morning.\n", "[You] hi\n", "[Simian] hello\n"] := by
  have hstrip : strip typed.entry = "hi" := by decide +kernel
  have hne : strip typed.entry ≠ "" := by
    rw [hstrip]
    decide
  have hreplied :=
    (send_iff local_world (.answered (.reply (.ok (replyOf "hello")))) "hello" hne).1.2
    ⟨replyOf "hello", rfl, rfl⟩
  rw [hreplied, hstrip]
  rfl

end Simian.Conversation
