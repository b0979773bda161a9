import Simian.Lib.Failing
import Simian.Lib.Http

/-! # The chat endpoint of `main.py`

`chat` asks one back end and, if that raises anything, the other one. The readers of the replies
raise on every document without the text they look for, but for an object without a "response" from
Ollama, of which the text is empty (`asks_iff`). So a text is returned whatever the back ends answer
(`chat_falls_back`), though not always from the one that has a text (`not_falls_back_for_blank`). -/

namespace Simian.Main
open Json Python

/-- What is read from the environment. -/
structure Config where
  LLAMA_MODE : String
  OLLAMA_URL : String
  LLAMA_MODEL : String
  OPENAI_BASE : String
  OPENAI_API_KEY : String

def Config.ofEnviron (lower : String → String) (environ : String → Option String) : Config where
  LLAMA_MODE := lower ((environ "LLAMA_MODE").getD "ollama")
  OLLAMA_URL := (environ "OLLAMA_URL").getD "http://127.0.0.1:11434"
  LLAMA_MODEL := (environ "LLAMA_MODEL").getD "llama3.1"
  OPENAI_BASE := (environ "OPENAI_BASE").getD "http://127.0.0.1:8001/v1"
  OPENAI_API_KEY := (environ "OPENAI_API_KEY").getD ""

inductive Backend
  | ollama
  | openai
  deriving DecidableEq, Repr

/-- A call of a back end, with what is sent. -/
structure Call (α : Type) where
  backend : Backend
  request : Http.Request α
  headers : List (String × String)

inductive Error
  | request (e : Http.Error)
  | indexError
  deriving DecidableEq, Repr

/-- What has been called is kept when an exception is raised. -/
abbrev Endpoint (α : Type) := ExceptT Error (StateM (List (Call α)))

variable {α : Type}

/-- `requests.post`, `raise_for_status()`, `json()`, and what is read from the document. -/
def post (call : Call α) (outcome : Http.Outcome α) (read : Obj α → Except Error String) :
    Endpoint α String :=
  fun calls => ((outcome.json.mapError .request).bind read, calls ++ [call])

def python (r : Except Python.Error α) : Except Error α := r.mapError fun e => .request (.python e)

/-- `s.rstrip('/')` -/
def rstripSlash (s : String) : String :=
  String.ofList (s.toList.reverse.dropWhile (· = '/')).reverse

/-- `o.strip()` -/
def stripped : Obj α → Except Python.Error String
  | .str s => .ok (strip s)
  | .scalar _ | .list _ | .tuple _ | .dict _ | .foreign => .error .attributeError

/-- `o[0]` -/
def first : Obj α → Except Error (Obj α)
  | .list (x :: _) | .tuple (x :: _) => .ok x
  | .list [] | .tuple [] => .error .indexError
  | .str s => match s.toList with
    | c :: _ => .ok (.str (String.singleton c))
    | [] => .error .indexError
  | .dict _ => .error (.request (.python (.keyError "0")))
  | .scalar _ | .foreign => .error (.request (.python .typeError))

/-- `js.get("response", "").strip()` -/
def readOllama (js : Obj α) : Except Error String :=
  python ((get "response" (.str "") js).bind stripped)

/-- `js["choices"][0]["message"]["content"].strip()` -/
def readOpenai (js : Obj α) : Except Error String :=
  (python (item "choices" js)).bind fun choices =>
    (first choices).bind fun choice =>
      python ((item "message" choice).bind fun message => (item "content" message).bind stripped)

/-! ## What a document holds -/

/-- The document holds the stripped text `s` where the back end puts it. -/
def Holds : Backend → Obj α → String → Prop
  | .ollama, js, s => ∃ kvs t, js = .dict kvs ∧ kvs.lookup (.str "response") = some (.str t) ∧
    s = strip t
  | .openai, js, s => ∃ kvs xs choice m t, js = .dict kvs ∧
    (kvs.lookup (.str "choices") = some (.list xs) ∨
      kvs.lookup (.str "choices") = some (.tuple xs)) ∧
    xs.head? = some (.dict choice) ∧ choice.lookup (.str "message") = some (.dict m) ∧
    m.lookup (.str "content") = some (.str t) ∧ s = strip t

/-- The document is an object without a "response", from Ollama. -/
def Blank : Backend → Obj α → Prop
  | .ollama, js => ∃ kvs, js = .dict kvs ∧ kvs.lookup (.str "response") = none
  | .openai, _ => False

/-- The text of the document, which is empty if it has none by default. -/
def HoldsOrBlank (b : Backend) (js : Obj α) (s : String) : Prop :=
  Holds b js s ∨ (Blank b js ∧ s = "")

variable {js o o' : Obj α} {s : String} {b : Backend} {calls : List (Call α)}

theorem python_eq_ok {β : Type} {r : Except Python.Error β} {b : β} :
    python r = .ok b ↔ r = .ok b := by
  cases r <;> simp [python, Except.mapError]

theorem stripped_eq_ok : stripped o = .ok s ↔ ∃ t, o = .str t ∧ s = strip t := by
  cases o <;> simp [stripped, eq_comm]

/-- Of a text, the first element is a text. -/
theorem first_eq_ok (h : first o = .ok o') :
    (∃ xs, (o = .list xs ∨ o = .tuple xs) ∧ xs.head? = some o') ∨ ∃ t, o' = .str t := by
  cases o with
  | list xs =>
    cases xs with
    | nil => cases h
    | cons x xs =>
      cases h
      exact .inl ⟨_, .inl rfl, rfl⟩
  | tuple xs =>
    cases xs with
    | nil => cases h
    | cons x xs =>
      cases h
      exact .inl ⟨_, .inr rfl, rfl⟩
  | str t =>
    rw [first] at h
    split at h
    · cases h
      exact .inr ⟨_, rfl⟩
    · cases h
  | scalar a | dict kvs | foreign => cases h

theorem first_of_head? {xs : List (Obj α)} (h : o = .list xs ∨ o = .tuple xs)
    (hx : xs.head? = some o') : first o = .ok o' := by
  cases xs with
  | nil => cases hx
  | cons x xs =>
    cases hx
    rcases h with rfl | rfl <;> rfl

theorem readOllama_eq_ok : readOllama js = .ok s ↔ HoldsOrBlank .ollama js s := by
  rw [readOllama, python_eq_ok, Except.bind_eq_ok, HoldsOrBlank, Holds, Blank]
  cases js with
  | dict kvs =>
    rw [Python.get]
    cases hlookup : kvs.lookup (.str "response") with
    | none =>
      have hempty : strip "" = "" := by decide
      simp [stripped, hlookup, hempty, eq_comm]
    | some o => simp [stripped_eq_ok, hlookup, -List.lookup_eq_none_iff]
  | _ => simp [Python.get]

theorem readOpenai_eq_ok : readOpenai js = .ok s ↔ HoldsOrBlank .openai js s := by
  rw [readOpenai, HoldsOrBlank, Blank, false_and, or_false, Holds]
  simp only [Except.bind_eq_ok, python_eq_ok, item_eq_ok, stripped_eq_ok]
  constructor
  · intro h
    obtain ⟨choices, ⟨kvs, hjs, hchoices⟩, choice, hfirst, message, ⟨c, hc, hmessage⟩, content,
      ⟨m, hm, hcontent⟩, t, ht, hs⟩ := h
    subst hc hm ht
    rcases first_eq_ok hfirst with ⟨xs, hxs, hhead⟩ | ⟨t, ht⟩
    · refine ⟨kvs, xs, c, m, t, hjs, ?_, hhead, hmessage, hcontent, hs⟩
      rcases hxs with rfl | rfl
      · exact .inl hchoices
      · exact .inr hchoices
    · cases ht
  · intro h
    obtain ⟨kvs, xs, c, m, t, hjs, hchoices, hhead, hmessage, hcontent, hs⟩ := h
    obtain ⟨choices, hlookup, hxs⟩ : ∃ choices, kvs.lookup (.str "choices") = some choices ∧
        (choices = .list xs ∨ choices = .tuple xs) := by
      rcases hchoices with h | h
      · exact ⟨_, h, .inl rfl⟩
      · exact ⟨_, h, .inr rfl⟩
    exact ⟨choices, ⟨kvs, hjs, hlookup⟩, .dict c, first_of_head? hxs hhead, .dict m,
      ⟨c, rfl, hmessage⟩, .str t, ⟨m, rfl, hcontent⟩, t, rfl, hs⟩

def read : Backend → Obj α → Except Error String
  | .ollama => readOllama
  | .openai => readOpenai

theorem read_eq_ok {js : Obj α} : read b js = .ok s ↔ HoldsOrBlank b js s := by
  cases b with
  | ollama => exact readOllama_eq_ok
  | openai => exact readOpenai_eq_ok

/-- The back end answers with a document that holds the text `s`. -/
def Yields (b : Backend) (o : Http.Outcome α) (s : String) : Prop :=
  ∃ js, o = .reply (.ok js) ∧ Holds b js s

/-- The same where a missing "response" is an empty text. -/
def YieldsOrBlank (b : Backend) (o : Http.Outcome α) (s : String) : Prop :=
  ∃ js, o = .reply (.ok js) ∧ HoldsOrBlank b js s

/-- The exception is that of the request, or of the decoder, or that of a reader. -/
def Explains : Http.Outcome α → Error → Prop
  | .transport_error message, e | .status_error message, e => e = .request (.http message)
  | .reply (.error message), e => e = .request (.python (.valueError message))
  | .reply (.ok _), _ => True

/-! ## The endpoint -/

/-- `{"response": s}` -/
def response (s : String) : Obj α := .dict [(.str "response", .str s)]

/-- An exception is handled after the calls that were made before it. -/
theorem tryCatch_apply {β : Type} {x : Endpoint α β} {handler : Error → Endpoint α β} :
    (tryCatch x handler : Endpoint α β) calls =
      match x calls with
      | (.ok b, calls) => (.ok b, calls)
      | (.error e, calls) => handler e calls := by
  simp only [tryCatch, tryCatchThe, MonadExceptOf.tryCatch, ExceptT.tryCatch, ExceptT.mk, bind,
    StateT.bind]
  rcases x calls with ⟨e | b, calls'⟩
  · rfl
  · rfl

theorem map_apply {β γ : Type} {f : β → γ} {x : Endpoint α β} :
    (f <$> x : Endpoint α γ) calls = ((x calls).1.map f, (x calls).2) := by
  show (f <$> x : Endpoint α γ).run.run calls = _
  rw [ExceptT.run_map]
  rfl

variable [Interpreter α]

def ollamaCall (config : Config) (prompt : String) : Call α where
  backend := .ollama
  request := ⟨rstripSlash config.OLLAMA_URL ++ "/api/generate",
    .dict [(.str "model", .str config.LLAMA_MODEL), (.str "prompt", .str prompt),
      (.str "stream", .scalar (Interpreter.ofBool false))]⟩
  headers := []

/-- `temperature` is the scalar `0.7`. -/
def openaiCall (config : Config) (temperature : α) (prompt : String) : Call α where
  backend := .openai
  request := ⟨rstripSlash config.OPENAI_BASE ++ "/chat/completions",
    .dict [(.str "model", .str config.LLAMA_MODEL),
      (.str "messages", .list [.dict [(.str "role", .str "user"), (.str "content", .str prompt)]]),
      (.str "temperature", .scalar temperature)]⟩
  headers := if config.OPENAI_API_KEY = "" then []
    else [("Authorization", "Bearer " ++ config.OPENAI_API_KEY)]

variable (config : Config) (temperature : α) (outcome : Backend → Http.Outcome α) (prompt : String)

def ask_ollama : Endpoint α String :=
  post (ollamaCall config prompt) (outcome .ollama) readOllama

def ask_openai_compatible : Endpoint α String :=
  post (openaiCall config temperature prompt) (outcome .openai) readOpenai

/-- `text` is the text of an exception. -/
def chat (text : Error → String) : Endpoint α (Obj α) :=
  tryCatch
    (response <$> if config.LLAMA_MODE = "openai"
      then ask_openai_compatible config temperature outcome prompt
      else ask_ollama config outcome prompt)
    fun _ => tryCatch
      (response <$> if config.LLAMA_MODE = "openai"
        then ask_ollama config outcome prompt
        else ask_openai_compatible config temperature outcome prompt)
      fun e2 => pure (response ("(error) LLM unavailable: " ++ text e2))

/-! ## What the back ends yield -/

/-- The back end that is asked first. -/
def primary : Backend := if config.LLAMA_MODE = "openai" then .openai else .ollama

def secondary : Backend := if config.LLAMA_MODE = "openai" then .ollama else .openai

def call : Backend → Call α
  | .ollama => ollamaCall config prompt
  | .openai => openaiCall config temperature prompt

def ask (b : Backend) : Endpoint α String :=
  post (call config temperature prompt b) (outcome b) (read b)

variable {config temperature outcome prompt}

theorem chat_ask (text : Error → String) : chat config temperature outcome prompt text =
    tryCatch (response <$> ask config temperature outcome prompt (primary config)) fun _ =>
      tryCatch (response <$> ask config temperature outcome prompt (secondary config)) fun e2 =>
        pure (response ("(error) LLM unavailable: " ++ text e2)) := by
  rw [chat, primary, secondary]
  split <;> rfl

/-- A call of a back end returns what the back end yields, and raises otherwise. -/
theorem asks_iff : (ask config temperature outcome prompt b calls).1 = .ok s ↔
    YieldsOrBlank b (outcome b) s := by
  show ((outcome b).json.mapError .request).bind (read b) = .ok s ↔ _
  rw [YieldsOrBlank]
  cases outcome b with
  | transport_error message | status_error message =>
    simp [Http.Outcome.json, Except.mapError, Except.bind]
  | reply body =>
    cases body with
    | error message => simp [Http.Outcome.json, Except.mapError, Except.bind]
    | ok js => simp [Http.Outcome.json, Except.mapError, Except.bind, read_eq_ok]

theorem ask_of_yields (h : YieldsOrBlank b (outcome b) s) :
    ask config temperature outcome prompt b calls =
      (.ok s, calls ++ [call config temperature prompt b]) :=
  Prod.ext (asks_iff.2 h) rfl

theorem explains_of_error {e : Error}
    (h : (ask config temperature outcome prompt b calls).1 = .error e) :
    Explains (outcome b) e := by
  have herror : ((outcome b).json.mapError .request).bind (read b) = .error e := h
  cases hb : outcome b with
  | transport_error message | status_error message =>
    rw [hb] at herror
    cases herror
    rfl
  | reply body =>
    cases body with
    | error message =>
      rw [hb] at herror
      cases herror
      rfl
    | ok js => trivial

theorem ask_of_not_yields (h : ∀ s, ¬ YieldsOrBlank b (outcome b) s) :
    ∃ e, Explains (outcome b) e ∧ ∀ calls, ask config temperature outcome prompt b calls =
      (.error e, calls ++ [call config temperature prompt b]) := by
  cases hask : (ask config temperature outcome prompt b []).1 with
  | ok s => exact absurd (asks_iff.1 hask) (h s)
  | error e => exact ⟨e, explains_of_error hask, fun calls => Prod.ext hask rfl⟩

/-- What the endpoint does, if the back ends yield texts as in `Y`: the calls that it makes, and
what it returns. -/
structure FallsBack (Y : Backend → Http.Outcome α → String → Prop) (config : Config)
    (temperature : α) (outcome : Backend → Http.Outcome α) (prompt : String)
    (text : Error → String) (r : Except Error (Obj α) × List (Call α)) : Prop where
  first : ∀ s, Y (primary config) (outcome (primary config)) s →
    r = (.ok (.dict [(.str "response", .str s)]), [call config temperature prompt (primary config)])
  second : (∀ s, ¬ Y (primary config) (outcome (primary config)) s) →
    ∀ s, Y (secondary config) (outcome (secondary config)) s →
      r = (.ok (.dict [(.str "response", .str s)]),
        [call config temperature prompt (primary config),
          call config temperature prompt (secondary config)])
  neither : (∀ s, ¬ Y (primary config) (outcome (primary config)) s) →
    (∀ s, ¬ Y (secondary config) (outcome (secondary config)) s) →
      ∃ e2, Explains (outcome (secondary config)) e2 ∧
        r = (.ok (.dict [(.str "response", .str ("(error) LLM unavailable: " ++ text e2))]),
          [call config temperature prompt (primary config),
            call config temperature prompt (secondary config)])

/-- A text comes back for every mode and all answers of the back ends. -/
theorem chat_falls_back (config : Config) (temperature : α) (outcome : Backend → Http.Outcome α)
    (prompt : String) (text : Error → String) :
    FallsBack YieldsOrBlank config temperature outcome prompt text
      (chat config temperature outcome prompt text []) := by
  constructor
  case first =>
    intro s hs
    rw [chat_ask, tryCatch_apply, map_apply, ask_of_yields hs]
    rfl
  case second =>
    intro hfirst s hs
    obtain ⟨e, -, he⟩ := ask_of_not_yields hfirst
    rw [chat_ask, tryCatch_apply, map_apply, he]
    simp only [Except.map]
    rw [tryCatch_apply, map_apply, ask_of_yields hs]
    rfl
  case neither =>
    intro hfirst hsecond
    obtain ⟨e, -, he⟩ := ask_of_not_yields hfirst
    obtain ⟨e2, hexplains, he2⟩ := ask_of_not_yields hsecond
    refine ⟨e2, hexplains, ?_⟩
    rw [chat_ask, tryCatch_apply, map_apply, he]
    simp only [Except.map]
    rw [tryCatch_apply, map_apply, he2]
    rfl

/-- Ollama answers with an empty object and the other back end with a text. -/
def blank : Backend → Http.Outcome Constant
  | .ollama => .reply (.ok (.dict []))
  | .openai => .reply (.ok (.dict [(.str "choices", .list [.dict [(.str "message",
      .dict [(.str "content", .str " hi ")])]])]))

/-- The other back end is not asked, and the text that is returned is empty. -/
theorem not_falls_back_for_blank :
    let config := Config.ofEnviron asciiLower fun _ => none
    (chat config Constant.null blank "hello" (fun _ => "") []).1 =
      .ok (.dict [(.str "response", .str "")]) ∧
    Yields .openai (blank .openai) "hi" ∧
    ¬ FallsBack Yields config Constant.null blank "hello" (fun _ => "")
      (chat config Constant.null blank "hello" (fun _ => "") []) := by
  intro config
  have hblank : (chat config Constant.null blank "hello" (fun _ => "") []).1 =
      .ok (.dict [(.str "response", .str "")]) := rfl
  have hyields : Yields .openai (blank .openai) "hi" := by
    refine ⟨_, rfl, _, _, _, _, _, rfl, .inl rfl, rfl, rfl, rfl, ?_⟩
    decide +kernel
  refine ⟨hblank, hyields, fun h => ?_⟩
  have hsecond := h.second ?_ "hi" hyields
  · rw [hsecond] at hblank
    simp at hblank
  · intro s hs
    obtain ⟨js, hjs, kvs, t, rfl, hlookup, -⟩ := hs
    cases hjs
    cases hlookup

-- A `null` text sends the prompt to the other back end.
example : (chat (.ofEnviron asciiLower fun _ => none) Constant.null (fun
      | .ollama => .reply (.ok (.dict [(.str "response", .scalar .null)]))
      | .openai => .reply (.ok (.dict [(.str "choices", .list [.dict [(.str "message",
          .dict [(.str "content", .str " hi ")])]])])))
    "hello" (fun _ => "") []).1 = .ok (response "hi") := by
  rfl

end Simian.Main
