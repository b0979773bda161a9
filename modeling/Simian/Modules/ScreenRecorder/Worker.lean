import Simian.Lib.Machine
import Simian.Modules.ScreenRecorder.ClipName
import Simian.Modules.ScreenRecorder.Frames

/-! # The worker of `modules/screen_recorder.py`

`Worker.step` is `_run` one statement at a time, together with `_writer` (its naming, its `mkdir`
and its opening of the file are separate steps). A worker shares with its recorder the stop event
and `last_clip_path`; it reads the event in its loop test, assigns the path when it names its
clip, and reads the path back when it opens the file. The environment's answers (a capture, a
clock reading, an exception) are the `Move`.

`Worker.Local` ties the program counter to what the worker has done: from the opening of the file
on there is an unreleased writer, and only the normal end releases it. -/

namespace Simian.ScreenRecorder

/-- One recorder with the libraries and the time zone it runs with; clock readings are whole
seconds. -/
structure Config where
  clips_dir : String
  fps : Int
  monitor_indexes : Option (List Int)
  HAS_DXCAM : Bool
  HAS_MSS : Bool
  localtime : Int → LocalTime

/-- A `cv2.VideoWriter`, with the arguments of its `write`, in order: what it makes of those that
have not its size is not in the model. -/
structure VideoWriter where
  path : ClipPath
  fps : Int
  size : Nat × Nat
  written : List Frame
  released : Bool
  deriving DecidableEq

def VideoWriter.write (vw : VideoWriter) (composite : Frame) : VideoWriter :=
  { vw with written := vw.written ++ [composite] }

def VideoWriter.release (vw : VideoWriter) : VideoWriter := { vw with released := true }

/-- How `_run` ended: by one of its two early returns, by an exception, or past the release. -/
inductive Ending
  | noBackend
  | noFrame
  | raised
  | finished
  deriving DecidableEq, Repr

/-- The next statement of `_run`. In `exiting` the function is over and the thread is not. -/
inductive Pc
  | entry
  | firstCapture
  | nameClip
  | makeDir
  | openWriter
  | interval
  | loopTest
  | capture
  | write (composite : Frame)
  | pace
  | release
  | exiting (e : Ending)
  | dead (e : Ending)
  deriving DecidableEq

/-- The locals of `_run`, and `clock`, the reading from which `_writer` took its name. -/
structure Worker where
  pc : Pc := .entry
  idxs : List Int := []
  size : Nat × Nat := (0, 0)
  clock : Option Int := none
  writer : Option VideoWriter := none
  deriving DecidableEq

/-- The attributes of the recorder that its worker uses. -/
structure Shared where
  _stop : Bool
  last_clip_path : Option ClipPath
  deriving DecidableEq

/-- What the environment answers to the next statement: nothing was asked, a capture, a clock
reading, or an exception that no other answer accounts for. -/
inductive Move
  | go
  | capture (scr : Screen)
  | clock (t : Int)
  | raises

/-- A capture and its stacking, by the back end in use. -/
def composite (cfg : Config) (idxs : List Int) (scr : Screen) : Option (Option Frame) :=
  (if cfg.HAS_DXCAM then _frame_from_dxcam scr idxs
    else _frame_from_mss cfg.monitor_indexes scr).bind _stack_frames

/-- The local `idxs`: dxcam fixes it once, before the first capture; mss has none. -/
def firstIdxs (cfg : Config) (scr : Screen) : Option (List Int) :=
  if cfg.HAS_DXCAM then _get_monitors_dxcam cfg.monitor_indexes scr else some []

namespace Worker

def ended (w : Worker) : Bool :=
  match w.pc with
  | .exiting _ | .dead _ => true
  | _ => false

def alive (w : Worker) : Bool :=
  match w.pc with
  | .dead _ => false
  | _ => true

def goto (w : Worker) (pc : Pc) : Worker := { w with pc := pc }

def stepCapture (cfg : Config) (w : Worker) (scr : Screen) : Option Worker :=
  match w.pc with
  | .firstCapture =>
    match firstIdxs cfg scr with
    | none => some (w.goto (.exiting .raised))
    | some idxs =>
      match composite cfg idxs scr with
      | none => some (w.goto (.exiting .raised))
      | some none => some (w.goto (.exiting .noFrame))
      | some (some c) => some { w with pc := .nameClip, idxs := idxs, size := (c.width, c.height) }
  | .capture =>
    match composite cfg w.idxs scr with
    | none => some (w.goto (.exiting .raised))
    | some none => some (w.goto .pace)
    | some (some c) => some (w.goto (.write c))
  | _ => none

def stepGo (cfg : Config) (sh : Shared) (w : Worker) : Option Worker :=
  match w.pc with
  | .entry =>
    some (w.goto (if !cfg.HAS_DXCAM && !cfg.HAS_MSS then .exiting .noBackend else .firstCapture))
  | .makeDir => some (w.goto .openWriter)
  | .openWriter => sh.last_clip_path.map fun p =>
      { w with pc := .interval, writer := some ⟨p, cfg.fps, w.size, [], false⟩ }
  -- `frame_interval = 1.0 / self.fps`
  | .interval => some (w.goto (if cfg.fps = 0 then .exiting .raised else .loopTest))
  | .loopTest => some (w.goto (if sh._stop then .release else .capture))
  | .write c => some { w with pc := .pace, writer := w.writer.map (·.write c) }
  | .pace => some (w.goto .loopTest)
  | .release => some { w with pc := .exiting .finished, writer := w.writer.map (·.release) }
  | .exiting e => some (w.goto (.dead e))
  | _ => none

def stepClock (w : Worker) (t : Int) : Option Worker :=
  match w.pc with
  | .nameClip => some { w with pc := .makeDir, clock := some t }
  | _ => none

def stepRaises (w : Worker) : Option Worker :=
  if w.ended then none else some (w.goto (.exiting .raised))

/-- One statement of `_run`. -/
def step (cfg : Config) (sh : Shared) (w : Worker) : Move → Option Worker
  | .go => w.stepGo cfg sh
  | .capture scr => w.stepCapture cfg scr
  | .clock t => w.stepClock t
  | .raises => w.stepRaises

/-- What a step assigns to `last_clip_path`, if it does. -/
def assigns (cfg : Config) (w : Worker) : Move → Option ClipPath
  | .clock t => if w.pc = .nameClip then some (clipPath cfg.clips_dir (cfg.localtime t)) else none
  | _ => none

/-! ## What a step can do -/

/-- The transitions of `step`, with what enables each of them. -/
inductive Trans (cfg : Config) (sh : Shared) (w : Worker) : Move → Worker → Prop
  | raises (hw : w.ended = false) : Trans cfg sh w .raises (w.goto (.exiting .raised))
  | noBackend (hpc : w.pc = .entry) (hb : (!cfg.HAS_DXCAM && !cfg.HAS_MSS) = true) :
      Trans cfg sh w .go (w.goto (.exiting .noBackend))
  | entry (hpc : w.pc = .entry) (hb : (!cfg.HAS_DXCAM && !cfg.HAS_MSS) = false) :
      Trans cfg sh w .go (w.goto .firstCapture)
  | firstRaises (hpc : w.pc = .firstCapture)
      (hc : (firstIdxs cfg scr).bind (composite cfg · scr) = none) :
      Trans cfg sh w (.capture scr) (w.goto (.exiting .raised))
  | firstNone (hpc : w.pc = .firstCapture) (hi : firstIdxs cfg scr = some is)
      (hc : composite cfg is scr = some none) :
      Trans cfg sh w (.capture scr) (w.goto (.exiting .noFrame))
  | firstFrame (hpc : w.pc = .firstCapture) (hi : firstIdxs cfg scr = some is)
      (hc : composite cfg is scr = some (some c)) :
      Trans cfg sh w (.capture scr)
        { w with pc := .nameClip, idxs := is, size := (c.width, c.height) }
  | nameClip (hpc : w.pc = .nameClip) :
      Trans cfg sh w (.clock t) { w with pc := .makeDir, clock := some t }
  | makeDir (hpc : w.pc = .makeDir) : Trans cfg sh w .go (w.goto .openWriter)
  | openWriter (hpc : w.pc = .openWriter) (hp : sh.last_clip_path = some p) :
      Trans cfg sh w .go
        { w with pc := .interval, writer := some ⟨p, cfg.fps, w.size, [], false⟩ }
  | zeroFps (hpc : w.pc = .interval) (hf : cfg.fps = 0) :
      Trans cfg sh w .go (w.goto (.exiting .raised))
  | interval (hpc : w.pc = .interval) (hf : cfg.fps ≠ 0) : Trans cfg sh w .go (w.goto .loopTest)
  | leave (hpc : w.pc = .loopTest) (hst : sh._stop = true) : Trans cfg sh w .go (w.goto .release)
  | loop (hpc : w.pc = .loopTest) (hst : sh._stop = false) : Trans cfg sh w .go (w.goto .capture)
  | captureRaises (hpc : w.pc = .capture) (hc : composite cfg w.idxs scr = none) :
      Trans cfg sh w (.capture scr) (w.goto (.exiting .raised))
  | captureNone (hpc : w.pc = .capture) (hc : composite cfg w.idxs scr = some none) :
      Trans cfg sh w (.capture scr) (w.goto .pace)
  | captureFrame (hpc : w.pc = .capture) (hc : composite cfg w.idxs scr = some (some c)) :
      Trans cfg sh w (.capture scr) (w.goto (.write c))
  | write (hpc : w.pc = .write c) :
      Trans cfg sh w .go { w with pc := .pace, writer := w.writer.map (·.write c) }
  | pace (hpc : w.pc = .pace) : Trans cfg sh w .go (w.goto .loopTest)
  | release (hpc : w.pc = .release) :
      Trans cfg sh w .go { w with pc := .exiting .finished, writer := w.writer.map (·.release) }
  | exits (hpc : w.pc = .exiting e) : Trans cfg sh w .go (w.goto (.dead e))

variable {cfg : Config} {sh : Shared} {w w' : Worker} {m : Move}

theorem stepGo_trans (hs : w.stepGo cfg sh = some w') : Trans cfg sh w .go w' := by
  unfold stepGo at hs
  split at hs <;> rename_i hpc
  · cases hs
    split
    · exact .noBackend hpc ‹_›
    · exact .entry hpc (eq_false_of_ne_true ‹_›)
  · cases hs; exact .makeDir hpc
  · obtain ⟨p, hp, rfl⟩ := Option.map_eq_some_iff.1 hs
    exact .openWriter hpc hp
  · cases hs
    split
    · exact .zeroFps hpc ‹_›
    · exact .interval hpc ‹_›
  · cases hs
    split
    · exact .leave hpc ‹_›
    · exact .loop hpc (eq_false_of_ne_true ‹_›)
  · cases hs; exact .write hpc
  · cases hs; exact .pace hpc
  · cases hs; exact .release hpc
  · cases hs; exact .exits hpc
  · cases hs

theorem stepCapture_trans {scr : Screen} (hs : w.stepCapture cfg scr = some w') :
    Trans cfg sh w (.capture scr) w' := by
  unfold stepCapture at hs
  split at hs <;> rename_i hpc
  · split at hs
    · rename_i hi
      cases hs
      exact .firstRaises hpc (by rw [hi]; rfl)
    · rename_i idxs hi
      split at hs <;> rename_i hc <;> cases hs
      · exact .firstRaises hpc (by rw [hi]; exact hc)
      · exact .firstNone hpc hi hc
      · exact .firstFrame hpc hi hc
  · split at hs <;> rename_i hc <;> cases hs
    · exact .captureRaises hpc hc
    · exact .captureNone hpc hc
    · exact .captureFrame hpc hc
  · cases hs

theorem step_trans (hs : w.step cfg sh m = some w') : Trans cfg sh w m w' := by
  cases m with
  | go => exact stepGo_trans hs
  | capture scr => exact stepCapture_trans hs
  | clock t =>
    simp only [step, stepClock] at hs
    split at hs
    · cases hs; exact .nameClip ‹_›
    · cases hs
  | raises =>
    simp only [step, stepRaises] at hs
    split at hs
    · cases hs
    · cases hs; exact .raises (eq_false_of_ne_true ‹_›)

/-- A dead worker takes no step. -/
theorem Trans.alive (h : Trans cfg sh w m w') : w.alive = true := by
  cases h with
  | raises hw => revert hw; unfold ended Worker.alive; split <;> simp_all
  | _ => simp only [Worker.alive, *]

/-! ## How many frames it has written -/

def frames (w : Worker) : Nat := (w.writer.map fun vw => vw.written.length).getD 0

/-- The frames written when the loop test is next reached, if nothing raises until then. -/
def due (w : Worker) : Nat :=
  match w.pc with
  | .capture | .write _ => w.frames + 1
  | _ => w.frames

theorem frames_le_due : w.frames ≤ w.due := by
  unfold due
  split <;> omega

theorem due_le : w.due ≤ w.frames + 1 := by
  unfold due
  split <;> omega

/-- Once the event is set no step makes another frame due. -/
theorem Trans.due_le (ht : Trans cfg sh w m w') (hst : sh._stop = true) : w'.due ≤ w.due := by
  cases ht with
  | loop hpc hst' => cases hst.symm.trans hst'
  | openWriter => exact Nat.zero_le _
  | captureFrame hpc => simp only [due, hpc, goto]; exact Nat.le_refl _
  | write hpc =>
    simp only [due, hpc, frames]
    cases w.writer with
    | none => exact Nat.zero_le _
    | some vw => simp [VideoWriter.write]
  | release hpc =>
    simp only [due, hpc, frames]
    cases w.writer <;> simp [VideoWriter.release]
  | _ => exact frames_le_due (w := w)

/-! ## What a worker has done at each statement -/

/-- The writer and the clock reading after each kind of end. -/
def EndsAs (w : Worker) : Ending → Prop
  | .noBackend | .noFrame => w.clock = none ∧ w.writer = none
  | .raised => (w.writer ≠ none → w.clock ≠ none) ∧ ∀ vw, w.writer = some vw → vw.released = false
  | .finished => w.clock ≠ none ∧ ∃ vw, w.writer = some vw ∧ vw.released = true

/-- The writer and the clock reading at each statement. -/
def Local (w : Worker) : Prop :=
  match w.pc with
  | .entry | .firstCapture | .nameClip => w.clock = none ∧ w.writer = none
  | .makeDir | .openWriter => w.clock ≠ none ∧ w.writer = none
  | .interval | .loopTest | .capture | .write _ | .pace | .release =>
    w.clock ≠ none ∧ ∃ vw, w.writer = some vw ∧ vw.released = false
  | .exiting e | .dead e => w.EndsAs e

theorem Local.init : Local {} := ⟨rfl, rfl⟩

/-- A worker that has ended has an ending, and has done what belongs to it. -/
theorem Local.of_ended (h : w.Local) (hw : w.ended = true) :
    ∃ e, (w.pc = .exiting e ∨ w.pc = .dead e) ∧ w.EndsAs e := by
  unfold ended at hw
  split at hw
  · rename_i e hpc
    rw [Local, hpc] at h
    exact ⟨e, .inl hpc, h⟩
  · rename_i e hpc
    rw [Local, hpc] at h
    exact ⟨e, .inr hpc, h⟩
  · cases hw

/-- Before its end a worker has not released its writer. -/
theorem Local.of_not_ended (h : w.Local) (hw : w.ended = false) :
    (w.writer ≠ none → w.clock ≠ none) ∧ ∀ vw, w.writer = some vw → vw.released = false := by
  unfold ended at hw
  unfold Local at h
  split at h
  case h_12 | h_13 => simp_all
  case h_1 | h_2 | h_3 => simp [h.2]
  case h_4 | h_5 => exact ⟨fun _ => h.1, by simp [h.2]⟩
  all_goals
    obtain ⟨hc, vw, hvw, hrel⟩ := h
    refine ⟨fun _ => hc, ?_⟩
    rintro vw' hvw'
    cases hvw.symm.trans hvw'
    exact hrel

theorem Local.step (h : w.Local) (ht : Trans cfg sh w m w') : w'.Local := by
  have hraised := h.of_not_ended
  cases ht with
  | raises hw => exact hraised hw
  | firstRaises hpc | captureRaises hpc | zeroFps hpc => exact hraised (by rw [ended, hpc])
  | nameClip hpc =>
    rw [Local, hpc] at h
    exact ⟨nofun, h.2⟩
  | openWriter hpc =>
    rw [Local, hpc] at h
    exact ⟨h.1, _, rfl, rfl⟩
  | write hpc =>
    rw [Local, hpc] at h
    obtain ⟨hc, vw, hvw, hrel⟩ := h
    exact ⟨hc, vw.write _, by rw [hvw]; rfl, hrel⟩
  | release hpc =>
    rw [Local, hpc] at h
    obtain ⟨hc, vw, hvw, -⟩ := h
    exact ⟨hc, vw.release, by rw [hvw]; rfl, rfl⟩
  | noBackend hpc | entry hpc | firstNone hpc | firstFrame hpc | makeDir hpc | interval hpc
  | leave hpc | loop hpc | captureNone hpc | captureFrame hpc | pace hpc | exits hpc =>
    rw [Local, hpc] at h
    exact h

end Worker

/-- A worker on its own: the environment also supplies what it reads of the shared attributes. -/
def workerMachine (cfg : Config) : Machine Worker (Shared × Move) where
  init := {}
  step w a := w.step cfg a.1 a.2

theorem local_inductive {cfg : Config} : (workerMachine cfg).Inductive Worker.Local :=
  ⟨Worker.Local.init, fun hl hs => hl.step (Worker.step_trans hs)⟩

end Simian.ScreenRecorder
