import Simian.Lib.Python

/-! # The launcher

The main block of `simian_launcher.py`. Its mode is read from the environment, and the command line
is not looked at. A component that cannot run is not started, and the process ends with a window
that cannot be imported (`started_iff`). `lower` is `str.lower`, and `int` reads an integer or gives
the message of the error. -/

namespace Simian.SimianLauncher
open Python

/-- What is started. -/
inductive Component
  | api (host : String) (port : Int)
  | gui (api_base : String)
  deriving DecidableEq, Repr

inductive Kind
  | api
  | gui
  deriving DecidableEq, Repr

def Component.kind : Component → Kind
  | .api _ _ => .api
  | .gui _ => .gui

/-- What the launcher finds: the exceptions of its two imports, if any, and whether the thread of
the API gets to its server before an exception in the main thread ends the process. -/
structure Host where
  api_import : Option Error
  gui_import : Option Error
  api_first : Bool

/-- `os.getenv(key, default)` -/
def getenv (environ : String → Option String) (key default : String) : String :=
  (environ key).getD default

variable (host : Host) (lower : String → String) (int : String → Except String Int)
  (environ : String → Option String)

def run_api : Except Error Component :=
  match host.api_import with
  | some e => .error e
  | none =>
    match int (getenv environ "APP_PORT" "8000") with
    | .ok port => .ok (.api (getenv environ "APP_HOST" "127.0.0.1") port)
    | .error message => .error (.valueError message)

def run_gui : Except Error Component :=
  match host.gui_import with
  | some e => .error e
  | none => .ok (.gui ("http://" ++ getenv environ "APP_HOST" "127.0.0.1" ++ ":" ++
      getenv environ "APP_PORT" "8000"))

/-- What is started, and what is raised in the main thread. An exception in the thread of the API
ends that thread. -/
def main (_argv : List String) : List Component × Option Error :=
  let mode := lower (getenv environ "SIMIAN_MODE" "full")
  if mode = "api" then
    match run_api host int environ with
    | .ok api => ([api], none)
    | .error e => ([], some e)
  else if mode = "gui" then
    match run_gui host environ with
    | .ok gui => ([gui], none)
    | .error e => ([], some e)
  else
    let t := (run_api host int environ).toOption.toList
    match run_gui host environ with
    | .ok gui => (t ++ [gui], none)
    -- The thread is a daemon, so it ends with the main thread.
    | .error e => (if host.api_first then t else [], some e)

def started (argv : List String) : List Kind :=
  (main host lower int environ argv).1.map Component.kind

/-- What a mode names. -/
def named (mode : String) : List Kind :=
  if lower mode = "api" then [.api]
  else if lower mode = "gui" then [.gui]
  else [.api, .gui]

/-- The component can run: it is imported, and the port of the API is an integer. -/
def Runs : Kind → Prop
  | .api => host.api_import = none ∧ ∃ port, int (getenv environ "APP_PORT" "8000") = .ok port
  | .gui => host.gui_import = none

variable {host lower int environ} {argv : List String}

theorem named_cases (lower : String → String) (mode : String) :
    named lower mode = [.api] ∨ named lower mode = [.gui] ∨ named lower mode = [.api, .gui] := by
  rw [named]
  split
  · exact .inl rfl
  · split
    · exact .inr (.inl rfl)
    · exact .inr (.inr rfl)

/-- The components of a result. -/
def kinds (r : Except Error Component) : List Kind := r.toOption.toList.map Component.kind

theorem kinds_run_api : (Runs host int environ .api ∧ kinds (run_api host int environ) = [.api]) ∨
    (¬ Runs host int environ .api ∧ kinds (run_api host int environ) = []) := by
  rw [run_api, Runs]
  cases host.api_import with
  | some e => exact .inr ⟨fun h => Option.some_ne_none e h.1, rfl⟩
  | none =>
    cases hport : int (getenv environ "APP_PORT" "8000") with
    | ok port => exact .inl ⟨⟨rfl, port, rfl⟩, rfl⟩
    | error message =>
      refine .inr ⟨fun h => ?_, rfl⟩
      obtain ⟨-, port, h⟩ := h
      cases h

theorem kinds_run_gui : (Runs host int environ .gui ∧ kinds (run_gui host environ) = [.gui]) ∨
    (¬ Runs host int environ .gui ∧ kinds (run_gui host environ) = []) := by
  rw [run_gui, Runs]
  cases host.gui_import with
  | some e => exact .inr ⟨Option.some_ne_none e, rfl⟩
  | none => exact .inl ⟨rfl, rfl⟩

section
variable {mode : String}

theorem lower_eq_api : named lower mode = [.api] ↔ lower mode = "api" := by
  rw [named]
  split_ifs with hapi hgui
  · exact iff_of_true rfl hapi
  · exact iff_of_false (by decide) hapi
  · exact iff_of_false (by decide) hapi

theorem lower_eq_gui : named lower mode = [.gui] ↔ lower mode = "gui" := by
  rw [named]
  split_ifs with hapi hgui
  · exact iff_of_false (by decide) (fun hgui => absurd (hapi.symm.trans hgui) (by decide))
  · exact iff_of_true rfl hgui
  · exact iff_of_false (by decide) hgui

theorem lower_ne (h : named lower mode = [.api, .gui]) : lower mode ≠ "api" ∧ lower mode ≠ "gui" :=
  ⟨fun hapi => absurd ((lower_eq_api.2 hapi).symm.trans h) (by decide),
    fun hgui => absurd ((lower_eq_gui.2 hgui).symm.trans h) (by decide)⟩

end

theorem started_of_api (h : named lower (getenv environ "SIMIAN_MODE" "full") = [.api]) :
    started host lower int environ argv = kinds (run_api host int environ) := by
  rw [started, main, if_pos (lower_eq_api.1 h)]
  cases run_api host int environ <;> rfl

theorem started_of_gui (h : named lower (getenv environ "SIMIAN_MODE" "full") = [.gui]) :
    started host lower int environ argv = kinds (run_gui host environ) := by
  have hgui := lower_eq_gui.1 h
  rw [started, main, if_neg (by rw [hgui]; decide), if_pos hgui]
  cases run_gui host environ <;> rfl

theorem started_of_both (h : named lower (getenv environ "SIMIAN_MODE" "full") = [.api, .gui]) :
    started host lower int environ argv =
      if kinds (run_gui host environ) = [] ∧ host.api_first = false then []
      else kinds (run_api host int environ) ++ kinds (run_gui host environ) := by
  obtain ⟨hapi, hgui⟩ := lower_ne h
  rw [started, main, if_neg hapi, if_neg hgui]
  cases run_gui host environ with
  | ok gui => simp [kinds, Except.toOption]
  | error e => cases host.api_first <;> simp [kinds, Except.toOption]

/-- The environment names the components of `mode` and they can run; or it names both and `mode` the
only one that can run, which for the API is in time. -/
def EnvironmentNames (host : Host) (lower : String → String) (int : String → Except String Int)
    (environ : String → Option String) (mode : String) : Prop :=
  (named lower (getenv environ "SIMIAN_MODE" "full") = named lower mode ∧
    ∀ k ∈ named lower mode, Runs host int environ k) ∨
  (named lower (getenv environ "SIMIAN_MODE" "full") = [.api, .gui] ∧
    ((named lower mode = [.api] ∧ Runs host int environ .api ∧ ¬ Runs host int environ .gui ∧
        host.api_first = true) ∨
      (named lower mode = [.gui] ∧ Runs host int environ .gui ∧ ¬ Runs host int environ .api)))

theorem started_iff {mode : String} : started host lower int environ argv = named lower mode ↔
    EnvironmentNames host lower int environ mode := by
  have hmode := named_cases lower mode
  rw [EnvironmentNames]
  rcases named_cases lower (getenv environ "SIMIAN_MODE" "full") with henv | henv | henv
  · rw [started_of_api henv, henv]
    obtain ⟨hapi, hkinds⟩ | ⟨hapi, hkinds⟩ := @kinds_run_api host int environ
    all_goals
      rw [hkinds]
      rcases hmode with hmode | hmode | hmode <;> simp [hmode, hapi]
  · rw [started_of_gui henv, henv]
    obtain ⟨hgui, hkinds⟩ | ⟨hgui, hkinds⟩ := @kinds_run_gui host int environ
    all_goals
      rw [hkinds]
      rcases hmode with hmode | hmode | hmode <;> simp [hmode, hgui]
  · rw [started_of_both henv, henv]
    obtain ⟨hapi, hkinds⟩ | ⟨hapi, hkinds⟩ := @kinds_run_api host int environ
    all_goals
      obtain ⟨hgui, hkinds'⟩ | ⟨hgui, hkinds'⟩ := @kinds_run_gui host int environ
      all_goals
        rw [hkinds, hkinds']
        cases host.api_first
        all_goals rcases hmode with hmode | hmode | hmode <;> simp [hmode, hapi, hgui]

end Simian.SimianLauncher
