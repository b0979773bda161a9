import Simian.Lib.Json.Value
import Simian.Lib.Routing
import Simian.Lib.Subprocess

/-! # Routes that are registered twice

`routes/screen.py` registers routes that `routes/context.py`, `routes/ml.py` and `routes/cli.py`
register too. The handlers are the same but for `/cli/run`: one leaves out what a command writes to
standard error and answers a failure with its status, the other one with all that was written.
`duplicates_iff` says for which commands the two answer the same. -/

namespace Simian.Routes
open Json Routing
open Subprocess (Process CalledProcessError)

/-- The same in each of the files. -/
structure TextInput where
  text : String

/-- What is outside: the validation of a request's body, the console, the shell, and the names of
signals. Errors are given by their text. -/
structure World (β : Type) where
  validate : β → Except String TextInput
  print : String → Except String Unit
  Popen : String → Except String Process
  signals : Nat → Option String

inductive Error
  | RequestValidationError (detail : String)
  | CalledProcessError (e : CalledProcessError)
  | UnicodeDecodeError
  /-- An error of the console or of the shell. -/
  | raised (message : String)

variable {α β : Type}

/-- What is returned or raised, and `_context_store` afterwards. -/
abbrev Result (α : Type) := Except Error (Obj α) × List String

/-- `{key: o}` -/
def single (key : String) (o : Obj α) : Obj α := .dict [(.str key, o)]

def World.check_output (W : World β) (cmd : String) (STDOUT : Bool) : Except Error (List UInt8) :=
  ((W.Popen cmd).mapError .raised).bind fun p =>
    (Subprocess.check_output cmd STDOUT p).mapError .CalledProcessError

def decode (bs : List UInt8) : Except Error String :=
  match Subprocess.decode bs with
  | some text => .ok text
  | none => .error .UnicodeDecodeError

/-! ## modules/context_memory.py and modules/ml_model.py -/

namespace ContextMemory

/-- The text is stored also when its printing fails. -/
def save_context (W : World β) (text : String) (_context_store : List String) :
    Except Error Unit × List String :=
  ((W.print ("[Context] Saved: " ++ text)).mapError .raised, _context_store ++ [text])

def load_context (_context_store : List String) : List String := _context_store

end ContextMemory

def MlModel.classify (W : World β) (text : String) : Except Error String :=
  ((W.print ("[ML] Classifying: " ++ text)).mapError .raised).map fun _ => "mock_label"

/-! ## The handlers -/

/-- A handler with a parameter `input_data: TextInput`, which is called for a valid body only. -/
def withInput (W : World β) (handler : TextInput → List String → Result α) (body : β)
    (_context_store : List String) : Result α :=
  match W.validate body with
  | .ok input_data => handler input_data _context_store
  | .error detail => (.error (.RequestValidationError detail), _context_store)

abbrev Endpoint (α β : Type) := β → List String → Result α

namespace Screen
variable (W : World β)

def save_context (input_data : TextInput) (_context_store : List String) : Result α :=
  let (saved, _context_store) := ContextMemory.save_context W input_data.text _context_store
  (saved.map fun _ => single "status" (.str "context saved"), _context_store)

def load_context (_context_store : List String) : Result α :=
  (.ok (single "context" (.list ((ContextMemory.load_context _context_store).map .str))),
    _context_store)

def classify_input (input_data : TextInput) (_context_store : List String) : Result α :=
  ((MlModel.classify W input_data.text).map fun result => single "classification" (.str result),
    _context_store)

def run_cli_command (input_data : TextInput) : Except Error (Obj α) :=
  tryCatch (do
    let output ← W.check_output input_data.text false
    return single "output" (.str (← decode output)))
  fun
    | .CalledProcessError e => .ok (single "error" (.str (e.str W.signals)))
    | e => .error e

def cli_run : Endpoint α β :=
  withInput W fun input_data _context_store => (run_cli_command W input_data, _context_store)

/-- The routes that are registered elsewhere too. -/
def router : Router (String × String) (Endpoint α β) :=
  [(("POST", "/context/save"), withInput W (save_context W)),
    (("GET", "/context/load"), fun _ => load_context),
    (("POST", "/ml/classify"), withInput W (classify_input W)),
    (("POST", "/cli/run"), cli_run W)]

end Screen

namespace Context
variable (W : World β)

def save_context (input_data : TextInput) (_context_store : List String) : Result α :=
  let (saved, _context_store) := ContextMemory.save_context W input_data.text _context_store
  (saved.map fun _ => single "status" (.str "context saved"), _context_store)

def load_context (_context_store : List String) : Result α :=
  (.ok (single "context" (.list ((ContextMemory.load_context _context_store).map .str))),
    _context_store)

def router : Router (String × String) (Endpoint α β) :=
  [(("POST", "/context/save"), withInput W (save_context W)),
    (("GET", "/context/load"), fun _ => load_context)]

end Context

namespace Ml
variable (W : World β)

def classify_text (input_data : TextInput) (_context_store : List String) : Result α :=
  ((MlModel.classify W input_data.text).map fun result => single "classification" (.str result),
    _context_store)

def router : Router (String × String) (Endpoint α β) :=
  [(("POST", "/ml/classify"), withInput W (classify_text W))]

end Ml

namespace Cli
variable (W : World β)

def run_cli_command (input_data : TextInput) : Except Error (Obj α) :=
  tryCatch (do
    let output ← W.check_output input_data.text true
    return single "output" (.str (← decode output)))
  fun
    | .CalledProcessError e => return single "error" (.str (← decode e.output))
    | e => .error e

def cli_run : Endpoint α β :=
  withInput W fun input_data _context_store => (run_cli_command W input_data, _context_store)

def router : Router (String × String) (Endpoint α β) := [(("POST", "/cli/run"), cli_run W)]

end Cli

/-- The routers in the order of their names in the file list; they can be mounted in any other. -/
def routers (W : World β) : List (Router (String × String) (Endpoint α β)) :=
  [Cli.router W, Context.router W, Ml.router W, Screen.router W]

/-! ## When the two answer the same -/

/-- What both handlers of `/cli/run` make the same of: a command that ends well and writes nothing
to standard error, or nothing that is a text, and one that fails having written the very message of
the failure. -/
def Alike (signals : Nat → Option String) (cmd : String) (p : Process) : Prop :=
  if p.returncode = 0 then
    p.written .stderr = [] ∨
      Subprocess.decode (p.written .stdout) = none ∧ Subprocess.decode p.merged = none
  else Subprocess.decode p.merged =
    some (CalledProcessError.str signals ⟨cmd, p.returncode, p.merged⟩)

variable {W : World β} {input : TextInput} {key : String × String} {body : β} {p : Process}
  {store : List String} {r : Router (String × String) (Endpoint α β)} {h : Endpoint α β}

theorem check_output_of_raise {message : String} {STDOUT : Bool} {cmd : String}
    (hp : W.Popen cmd = .error message) :
    W.check_output cmd STDOUT = .error (.raised message) := by
  rw [World.check_output, hp]
  rfl

theorem check_output_of_zero {STDOUT : Bool} {cmd : String} (hp : W.Popen cmd = .ok p)
    (hzero : p.returncode = 0) :
    W.check_output cmd STDOUT = .ok (if STDOUT then p.merged else p.written .stdout) := by
  rw [World.check_output, hp]
  simp [Except.mapError, Except.bind, Subprocess.check_output, hzero]

theorem check_output_of_ne {STDOUT : Bool} {cmd : String} (hp : W.Popen cmd = .ok p)
    (hne : p.returncode ≠ 0) :
    W.check_output cmd STDOUT = .error (.CalledProcessError
      ⟨cmd, p.returncode, if STDOUT then p.merged else p.written .stdout⟩) := by
  rw [World.check_output, hp]
  simp [Except.mapError, Except.bind, Subprocess.check_output, hne]

theorem decode_eq_iff {bs cs : List UInt8} :
    (decode bs).map (fun text => single (α := α) "output" (.str text)) =
        (decode cs).map (fun text => single "output" (.str text)) ↔
      bs = cs ∨ Subprocess.decode bs = none ∧ Subprocess.decode cs = none := by
  rw [← Subprocess.decode_eq_iff, decode, decode]
  cases Subprocess.decode bs <;> cases Subprocess.decode cs <;> simp [Except.map, single]

/-- An error of the decoding is none of those that are handled. -/
theorem output_eq {handle : Error → Except Error (Obj α)} {bs : List UInt8}
    (h : handle .UnicodeDecodeError = .error .UnicodeDecodeError) :
    tryCatch (do
      let output ← (.ok bs : Except Error (List UInt8))
      return single "output" (.str (← decode output))) handle =
        (decode bs).map fun text => single "output" (.str text) := by
  change tryCatch ((decode bs).bind fun text => .ok (single "output" (.str text))) handle = _
  rw [decode]
  cases Subprocess.decode bs with
  | none => exact h
  | some text => rfl

/-- The message of a failure says nothing of the output. -/
theorem error_eq_iff {e : CalledProcessError} {message : String} :
    (.ok (single (α := α) "error" (.str message)) : Except Error (Obj α)) =
        (decode e.output).map (fun text => single "error" (.str text)) ↔
      Subprocess.decode e.output = some message := by
  rw [decode]
  cases Subprocess.decode e.output with
  | none => simp [Except.map]
  | some text => simp [Except.map, single, eq_comm]

theorem run_cli_command_iff (hp : W.Popen input.text = .ok p) :
    Screen.run_cli_command (α := α) W input = Cli.run_cli_command W input ↔
      Alike W.signals input.text p := by
  rw [Screen.run_cli_command, Cli.run_cli_command, Alike]
  split
  · rename_i hzero
    rw [check_output_of_zero hp hzero, check_output_of_zero hp hzero, output_eq, output_eq,
      decode_eq_iff, ← Process.stdout_eq_merged_iff]
    · exact Iff.rfl
    · rfl
    · rfl
  · rename_i hne
    rw [check_output_of_ne hp hne, check_output_of_ne hp hne]
    exact error_eq_iff (e := ⟨input.text, p.returncode, p.merged⟩)

theorem run_cli_command_of_raise {message : String} (hp : W.Popen input.text = .error message) :
    Screen.run_cli_command (α := α) W input = Cli.run_cli_command W input := by
  rw [Screen.run_cli_command, Cli.run_cli_command, check_output_of_raise hp,
    check_output_of_raise hp]
  rfl

/-- Every route is one of `routes/screen.py`, except for one. -/
theorem lookup_cases (hr : r ∈ routers W) (hk : r.lookup key = some h) :
    (Screen.router W).lookup key = some h ∨ key = ("POST", "/cli/run") ∧ h = Cli.cli_run W := by
  obtain ⟨before, after, heq, -⟩ := List.lookup_eq_some_iff.1 hk
  have hmem : (key, h) ∈ r := by
    rw [heq]
    exact List.mem_append_right before List.mem_cons_self
  simp only [routers, List.mem_cons, List.not_mem_nil, or_false] at hr
  rcases hr with rfl | rfl | rfl | rfl
  · rw [Cli.router, List.mem_singleton] at hmem
    cases hmem
    exact .inr ⟨rfl, rfl⟩
  · simp only [Context.router, List.mem_cons, List.not_mem_nil, or_false] at hmem
    rcases hmem with hmem | hmem
    · cases hmem
      exact .inl rfl
    · cases hmem
      exact .inl rfl
  · rw [Ml.router, List.mem_singleton] at hmem
    cases hmem
    exact .inl rfl
  · exact .inl hk

theorem cli_run_eq_iff : Screen.cli_run (α := α) W body store = Cli.cli_run W body store ↔
    ∀ input, W.validate body = .ok input →
      Screen.run_cli_command (α := α) W input = Cli.run_cli_command W input := by
  rw [Screen.cli_run, Cli.cli_run, withInput, withInput]
  cases W.validate body with
  | error detail => simp
  | ok input => simp

/-- Only requests for a command can be answered in two ways. -/
theorem agree_routers_iff : Agree (routers (α := α) W) key (fun h => h body store) ↔
    (key = ("POST", "/cli/run") →
      Screen.cli_run (α := α) W body store = Cli.cli_run W body store) := by
  constructor
  · intro hagree hkey
    subst hkey
    exact hagree (Screen.router W) (by simp [routers]) (Cli.router W) (by simp [routers])
      (Screen.cli_run W) (Cli.cli_run W) rfl rfl
  · intro hcli
    have hscreen : ∀ r ∈ routers (α := α) W, ∀ h, r.lookup key = some h →
        ∃ h', (Screen.router W).lookup key = some h' ∧ h body store = h' body store := by
      intro r hr h hk
      rcases lookup_cases hr hk with hk | ⟨hkey, rfl⟩
      · exact ⟨h, hk, rfl⟩
      · have heq := hcli hkey
        subst hkey
        exact ⟨Screen.cli_run W, rfl, heq.symm⟩
    intro r hr r' hr' h h' hk hk'
    obtain ⟨g, hg, heq⟩ := hscreen r hr h hk
    obtain ⟨g', hg', heq'⟩ := hscreen r' hr' h' hk'
    cases hg.symm.trans hg'
    exact heq.trans heq'.symm

/-- The two handlers of a request answer the same, and so the order of the routers does not count,
exactly if it is not for a command or for one that makes both answer the same. -/
theorem duplicates_iff :
    Agree (routers (α := α) W) key (fun h => h body store) ∧
        (∀ rs rs', rs.Perm (routers W) → rs'.Perm (routers W) →
          (handler rs key).map (fun h : Endpoint α β => h body store) =
            (handler rs' key).map fun h => h body store) ↔
      ∀ input p, key = ("POST", "/cli/run") → W.validate body = .ok input →
        W.Popen input.text = .ok p → Alike W.signals input.text p := by
  rw [← agree_iff, and_self, agree_routers_iff, cli_run_eq_iff]
  constructor
  · intro hcli input p hkey hbody hp
    exact (run_cli_command_iff hp).1 (hcli hkey input hbody)
  · intro halike hkey input hbody
    cases hp : W.Popen input.text with
    | error message => exact run_cli_command_of_raise hp
    | ok p => exact (run_cli_command_iff hp).2 (halike input p hkey hbody hp)

/-- A command that writes two bytes to standard error and ends well. -/
def warning : World String where
  validate body := .ok ⟨body⟩
  print _ := .ok ()
  Popen _ := .ok ⟨[(.stderr, [0x6e, 0x6f])], 0⟩
  signals _ := none

theorem duplicates_warning : ¬ Agree (routers (α := Constant) warning) ("POST", "/cli/run")
    (fun h => h "cargo build" []) := by
  rw [agree_routers_iff, cli_run_eq_iff]
  intro hagree
  have hrun := hagree rfl ⟨"cargo build"⟩ rfl
  rw [run_cli_command_iff rfl, Alike, if_pos rfl] at hrun
  rcases hrun with hstderr | ⟨hstdout, -⟩
  · cases hstderr
  · have hempty : Subprocess.decode [] = some "" := Subprocess.decode_eq_some.2 rfl
    cases hempty.symm.trans hstdout

end Simian.Routes
