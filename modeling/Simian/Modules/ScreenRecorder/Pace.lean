import Mathlib.Algebra.Order.BigOperators.Group.List
import Mathlib.Algebra.Order.Field.Rat
import Mathlib.Tactic.FieldSimp
import Mathlib.Tactic.Linarith
import Mathlib.Tactic.Ring
import Simian.Modules.ScreenRecorder.Control

/-! # The pace of the loop in `_run`

The worker with an exact clock. Only capturing, writing and sleeping take time. An iteration is
filled up to the frame interval by `time.sleep`, but one that takes longer still writes one frame,
and nothing makes up for it: the clip falls behind by the sum of the overruns
(`Iteration.run_statements`, `inTime_iff`). -/

namespace Simian.ScreenRecorder

def frame_interval (cfg : Config) : ℚ := 1 / cfg.fps

/-- A worker, the time, and its local `start`. -/
structure Timed where
  worker : Worker
  now : ℚ
  start : ℚ

/-- One statement of `_run`, a capture or a `write` in the time `took`. The loop test is followed by
`start = time.time()`. -/
def Timed.step (cfg : Config) (s : Timed) (sh : Shared) (m : Move) (took : ℚ) : Option Timed :=
  (s.worker.step cfg sh m).map fun w =>
    match s.worker.pc with
    | .loopTest => ⟨w, s.now, s.now⟩
    | .pace =>
      let dt := s.now - s.start
      if dt < frame_interval cfg then ⟨w, s.now + (frame_interval cfg - dt), s.start⟩
      else ⟨w, s.now, s.start⟩
    | _ => ⟨w, s.now + took, s.start⟩

def timedMachine (cfg : Config) (s : Timed) : Machine Timed (Shared × Move × ℚ) where
  init := s
  step t a := t.step cfg a.1 a.2.1 a.2.2

/-- What happens outside during one iteration: the event is not set at its start. -/
structure Iteration where
  shared : Shared
  scr : Screen
  capturing : ℚ
  writing : ℚ
  running : shared._stop = false
  capturing_nonneg : 0 ≤ capturing
  writing_nonneg : 0 ≤ writing

namespace Iteration

/-- The loop test, the capture, the `write` and the rest of the iteration. -/
def statements (it : Iteration) : List (Shared × Move × ℚ) :=
  [(it.shared, .go, 0), (it.shared, .capture it.scr, it.capturing), (it.shared, .go, it.writing),
    (it.shared, .go, 0)]

/-- The value of `dt`. -/
def took (it : Iteration) : ℚ := it.capturing + it.writing

/-- By how much the iteration is longer than a frame. -/
def overrun (cfg : Config) (it : Iteration) : ℚ := max 0 (it.took - frame_interval cfg)

/-- The capture gives a composite of the size of the writer. -/
def Yields (cfg : Config) (w : Worker) (it : Iteration) : Prop :=
  ∃ c, composite cfg w.idxs it.scr = some (some c) ∧
    ∀ vw, w.writer = some vw → vw.size = (c.width, c.height)

end Iteration

/-- How long the clip plays. -/
def playLength (w : Worker) : ℚ := (w.writer.map fun vw => (vw.written.length : ℚ) / vw.fps).getD 0

/-- The clip is as long as the time since `s`, up to one frame. -/
def InTime (cfg : Config) (s t : Timed) : Prop :=
  |playLength t.worker - (t.now - s.now)| ≤ frame_interval cfg

/-- A worker that has come to its loop and written nothing. -/
structure Begins (cfg : Config) (w : Worker) : Prop where
  reachable : (workerMachine cfg).Reachable w
  pc : w.pc = .loopTest
  frames : w.frames = 0

variable {cfg : Config} {s t : Timed} {it : Iteration} {its : List Iteration} {vw : VideoWriter}

/-! ## One iteration -/

/-- The writer has the frame rate of the recorder. -/
theorem writer_fps_inductive :
    (workerMachine cfg).Inductive fun w => ∀ vw, w.writer = some vw → vw.fps = cfg.fps := by
  constructor
  case init => exact nofun
  case step =>
    intro w a w' h hs
    have ht := Worker.step_trans hs
    generalize a.2 = m at ht
    cases ht with
    | openWriter =>
      intro vw hvw
      cases hvw
      rfl
    | write | release =>
      intro vw hvw
      obtain ⟨vw', hvw', rfl⟩ := Option.map_eq_some_iff.1 hvw
      exact h vw' hvw'
    | _ => exact h

theorem Begins.writer {w : Worker} (h : Begins cfg w) :
    ∃ vw, w.writer = some vw ∧ vw.fps = cfg.fps ∧ vw.written.length = 0 := by
  have hlocal := h.reachable.invariant local_inductive
  rw [Worker.Local, h.pc] at hlocal
  obtain ⟨-, vw, hvw, -⟩ := hlocal
  have hframes := h.frames
  rw [Worker.frames, hvw] at hframes
  exact ⟨vw, hvw, h.reachable.invariant writer_fps_inductive vw hvw, hframes⟩

theorem VideoWriter.length_write {c : Frame} :
    (vw.write c).written.length = vw.written.length + 1 := by
  rw [write, List.length_append, List.length_singleton]

/-- The rest of the interval is slept away. -/
theorem Timed.step_pace {sh : Shared} (hpc : s.worker.pc = .pace) :
    s.step cfg sh .go 0 = some ⟨s.worker.goto .loopTest,
      s.now + max 0 (frame_interval cfg - (s.now - s.start)), s.start⟩ := by
  have hstep : s.worker.step cfg sh .go = some (s.worker.goto .loopTest) := by
    simp [Worker.step, Worker.stepGo, hpc]
  rw [Timed.step, hstep, Option.map_some, hpc]
  dsimp only
  split
  · rename_i hlt
    rw [max_eq_right (by linarith)]
  · rename_i hle
    rw [max_eq_left (by linarith), add_zero]

/-- An iteration writes one frame and lasts as long as a frame, or longer. -/
theorem Iteration.run_statements (s₀ : Timed) {c : Frame} (hpc : s.worker.pc = .loopTest)
    (hvw : s.worker.writer = some vw) (hc : composite cfg s.worker.idxs it.scr = some (some c)) :
    ∃ t, (timedMachine cfg s₀).run s it.statements = some t ∧ t.worker.pc = .loopTest ∧
      t.worker.idxs = s.worker.idxs ∧ t.worker.writer = some (vw.write c) ∧
      t.now = s.now + (frame_interval cfg + it.overrun cfg) := by
  have htest : s.step cfg it.shared .go 0 =
      some ⟨s.worker.goto .capture, s.now, s.now⟩ := by
    simp [Timed.step, Worker.step, Worker.stepGo, hpc, it.running]
  have hcapture : Timed.step cfg ⟨s.worker.goto .capture, s.now, s.now⟩ it.shared
      (.capture it.scr) it.capturing =
        some ⟨s.worker.goto (.write c), s.now + it.capturing, s.now⟩ := by
    simp [Timed.step, Worker.step, Worker.stepCapture, Worker.goto, hc]
  have hwrite : Timed.step cfg ⟨s.worker.goto (.write c), s.now + it.capturing, s.now⟩ it.shared
      .go it.writing = some ⟨{ s.worker with pc := .pace, writer := some (vw.write c) },
        s.now + it.capturing + it.writing, s.now⟩ := by
    simp [Timed.step, Worker.step, Worker.stepGo, Worker.goto, hvw]
  have hpace := @Timed.step_pace cfg ⟨{ s.worker with pc := .pace, writer := some (vw.write c) },
    s.now + it.capturing + it.writing, s.now⟩ it.shared rfl
  have hrun : (timedMachine cfg s₀).run s it.statements = some _ :=
    Machine.run_cons_some.2 ⟨_, htest, Machine.run_cons_some.2 ⟨_, hcapture,
      Machine.run_cons_some.2 ⟨_, hwrite, Machine.run_cons_some.2 ⟨_, hpace, rfl⟩⟩⟩⟩
  refine ⟨_, hrun, rfl, rfl, rfl, ?_⟩
  dsimp only [overrun, took]
  rcases le_total (frame_interval cfg) (it.capturing + it.writing) with hle | hle
  · rw [max_eq_left (by linarith), max_eq_right (by linarith)]
    ring
  · rw [max_eq_right (by linarith), max_eq_left (by linarith)]
    ring

/-! ## The whole loop -/

/-- Each iteration adds one frame and its own time. -/
theorem run_iterations (hpc : s.worker.pc = .loopTest) (hvw : s.worker.writer = some vw)
    (h : ∀ it ∈ its, ∃ c, composite cfg s.worker.idxs it.scr = some (some c)) :
    ∃ t vw', (timedMachine cfg s₀).run s (its.flatMap Iteration.statements) = some t ∧
      t.worker.writer = some vw' ∧ vw'.fps = vw.fps ∧
      vw'.written.length = vw.written.length + its.length ∧
      t.now = s.now + (its.length * frame_interval cfg + (its.map (Iteration.overrun cfg)).sum) := by
  induction its generalizing s vw with
  | nil => exact ⟨s, vw, rfl, hvw, rfl, rfl, by simp⟩
  | cons it its ih =>
    obtain ⟨⟨c, hc⟩, hits⟩ := List.forall_mem_cons.1 h
    obtain ⟨s', hs', hpc', hidxs, hvw', hnow⟩ :=
      Iteration.run_statements s₀ hpc hvw hc
    rw [← hidxs] at hits
    obtain ⟨t, vw', ht, hwriter, hfps, hlength, htime⟩ := ih hpc' hvw' hits
    refine ⟨t, vw', ?_, hwriter, hfps, ?_, ?_⟩
    · rw [List.flatMap_cons]
      exact Machine.run_append_some.2 ⟨s', hs', ht⟩
    · rw [hlength, VideoWriter.length_write, List.length_cons]
      omega
    · rw [htime, hnow, List.map_cons, List.sum_cons, List.length_cons, Nat.cast_succ]
      ring

theorem overruns_nonneg : 0 ≤ (its.map (Iteration.overrun cfg)).sum := by
  apply List.sum_nonneg
  intro q hq
  obtain ⟨it, -, rfl⟩ := List.mem_map.1 hq
  exact le_max_left 0 _

/-- After some iterations the clip is behind by the sum of their overruns. -/
theorem inTime_iff (hs : Begins cfg s.worker)
    (h : ∀ it ∈ its, it.Yields cfg s.worker) :
    (∃ t, (timedMachine cfg s).run s (its.flatMap Iteration.statements) = some t ∧
      InTime cfg s t) ↔ (its.map (Iteration.overrun cfg)).sum ≤ frame_interval cfg := by
  obtain ⟨vw, hvw, hvwfps, hempty⟩ := hs.writer
  have hframes : ∀ it ∈ its, ∃ c, composite cfg s.worker.idxs it.scr = some (some c) := by
    intro it hit
    obtain ⟨c, hc, -⟩ := h it hit
    exact ⟨c, hc⟩
  obtain ⟨t, vw', ht, hwriter, hfps', hlength, hnow⟩ := run_iterations hs.pc hvw hframes
  have hplay : playLength t.worker = its.length * frame_interval cfg := by
    rw [playLength, hwriter, Option.map_some, Option.getD_some, hlength, hempty, hfps', hvwfps,
      Nat.zero_add, frame_interval, mul_one_div]
  have hbehind :
      playLength t.worker - (t.now - s.now) = -(its.map (Iteration.overrun cfg)).sum := by
    rw [hplay, hnow]
    ring
  have hiff : InTime cfg s t ↔ (its.map (Iteration.overrun cfg)).sum ≤ frame_interval cfg := by
    rw [InTime, hbehind, abs_neg, abs_of_nonneg overruns_nonneg]
  rw [← hiff]
  refine ⟨fun hex => ?_, fun hin => ⟨t, ht, hin⟩⟩
  obtain ⟨t', ht', hin⟩ := hex
  cases ht.symm.trans ht'
  exact hin

/-- The clip keeps up with the clock exactly as long as the overruns together are no longer than
a frame. -/
theorem plays_in_time_iff (hs : Begins cfg s.worker)
    (h : ∀ it ∈ its, it.Yields cfg s.worker) :
    (∀ k ≤ its.length, ∃ t, (timedMachine cfg s).run s
        ((its.take k).flatMap Iteration.statements) = some t ∧ InTime cfg s t) ↔
      (its.map (Iteration.overrun cfg)).sum ≤ frame_interval cfg := by
  have htake : ∀ k, ∀ it ∈ its.take k, it.Yields cfg s.worker :=
    fun k it hit => h it (List.mem_of_mem_take hit)
  constructor
  · intro hall
    have hlast := (inTime_iff hs (htake its.length)).1 (hall its.length (le_refl _))
    rwa [List.take_length] at hlast
  · intro hsum k _
    apply (inTime_iff hs (htake k)).2
    have hsplit := congrArg (fun l => (l.map (Iteration.overrun cfg)).sum)
      (List.take_append_drop k its)
    simp only [List.map_append, List.sum_append] at hsplit
    have hrest := @overruns_nonneg cfg (its.drop k)
    linarith

/-! ## Fifteen frames a second -/

/-- A worker of `oneMonitor` at its first loop test. -/
def begun : Timed where
  worker := ⟨.loopTest, [0], (1, 1), some 0,
    some ⟨clipPath "data/clips" default, 15, (1, 1), [], false⟩⟩
  now := 0
  start := 0

/-- An iteration whose capture takes the time `q`. -/
def capturingFor (q : ℚ) (hq : 0 ≤ q) : Iteration where
  shared := ⟨false, some (clipPath "data/clips" default)⟩
  scr := onePixel
  capturing := q
  writing := 0
  running := rfl
  capturing_nonneg := hq
  writing_nonneg := le_refl 0

theorem begins_begun : Begins oneMonitor begun.worker := by
  have hrun : (workerMachine oneMonitor).run {}
      ([.go, .capture onePixel, .clock 0, .go, .go, .go].map fun m =>
        (⟨false, some (clipPath "data/clips" default)⟩, m)) = some begun.worker := rfl
  exact ⟨⟨_, hrun⟩, rfl, rfl⟩

theorem yields_capturingFor {q : ℚ} {hq : 0 ≤ q} :
    (capturingFor q hq).Yields oneMonitor begun.worker := by
  refine ⟨Grid.full 1 1 0, rfl, ?_⟩
  intro vw hvw
  cases hvw
  rfl

theorem overruns_replicate {n : Nat} {q : ℚ} {hq : 0 ≤ q} :
    ((List.replicate n (capturingFor q hq)).map (Iteration.overrun oneMonitor)).sum =
      n * max 0 (q - 1 / 15) := by
  rw [List.map_replicate, List.sum_replicate, nsmul_eq_mul]
  simp [Iteration.overrun, Iteration.took, capturingFor, frame_interval, oneMonitor]

theorem plays_in_time_short : ∃ t, (timedMachine oneMonitor begun).run begun
    (((List.replicate 2 (capturingFor (1 / 30) (by norm_num))).take 2).flatMap
      Iteration.statements) = some t ∧ InTime oneMonitor begun t := by
  refine (@plays_in_time_iff oneMonitor begun (List.replicate 2 _) begins_begun ?_).2 ?_ 2 le_rfl
  · intro it hit
    rw [List.eq_of_mem_replicate hit]
    exact yields_capturingFor
  · rw [overruns_replicate]
    norm_num [frame_interval, oneMonitor]

/-- Two captures of a second each give a clip of two frames. -/
theorem plays_too_fast : (∀ it ∈ List.replicate 2 (capturingFor 1 zero_le_one),
      it.Yields oneMonitor begun.worker) ∧
    ¬ ∀ k ≤ 2, ∃ t, (timedMachine oneMonitor begun).run begun
      (((List.replicate 2 (capturingFor 1 zero_le_one)).take k).flatMap
        Iteration.statements) = some t ∧ InTime oneMonitor begun t := by
  have hyields : ∀ it ∈ List.replicate 2 (capturingFor 1 zero_le_one),
      it.Yields oneMonitor begun.worker := by
    intro it hit
    rw [List.eq_of_mem_replicate hit]
    exact yields_capturingFor
  refine ⟨hyields, ?_⟩
  intro h
  have htwo := (inTime_iff begins_begun hyields).1 (h 2 (le_refl 2))
  rw [overruns_replicate] at htwo
  norm_num [frame_interval, oneMonitor] at htwo

end Simian.ScreenRecorder
