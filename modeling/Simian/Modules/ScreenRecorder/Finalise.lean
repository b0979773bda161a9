import Simian.Modules.ScreenRecorder.Capture

/-! # When a worker releases its writer

The only release of `_run` is its last statement, outside any `finally`. So an exception after the
opening of the file leaves the clip unfinalised: a frame rate of zero, a capture that raises (a
selected monitor that is no longer there, for one), or any other. `released_iff` says that these
are the only ways: a worker that has ended has released what it opened exactly when no statement
after the opening raised. -/

namespace Simian.ScreenRecorder

/-- Once the file is open, the statement and the environment's answer to it raise nothing: the
frame rate by which `_run` divides is not zero, the capture asks only monitors that are there and
answer, and nothing else raises. -/
def Unhindered (cfg : Config) (w : Worker) (m : Move) : Prop :=
  w.writer ≠ none →
    (w.pc = .interval → cfg.fps ≠ 0) ∧
    (∀ scr, w.pc = .capture → m = .capture scr → Capturable cfg w.idxs scr) ∧
    m ≠ .raises

/-- The worker ended by an exception with its file open. -/
def Unfinalised (w : Worker) : Prop :=
  w.writer ≠ none ∧ (w.pc = .exiting .raised ∨ w.pc = .dead .raised)

namespace Worker
variable {cfg : Config} {sh : Shared} {w w' : Worker} {m : Move}

/-- Among the workers that have ended, those that left a writer unreleased are the ones that ended
by an exception with their file open. -/
theorem Local.finalised_iff (h : w.Local) (he : w.ended = true) :
    (∀ vw, w.writer = some vw → vw.released = true) ↔ ¬ Unfinalised w := by
  obtain ⟨e, hpc, hl⟩ := h.of_ended he
  cases e with
  | noBackend | noFrame => simp [Unfinalised, hl.2]
  | finished =>
    obtain ⟨-, vw, hvw, hrel⟩ := hl
    rcases hpc with hpc | hpc <;> simp [Unfinalised, hpc, hvw, hrel]
  | raised =>
    obtain ⟨-, hrel⟩ := hl
    have hbad : Unfinalised w ↔ w.writer ≠ none := and_iff_left hpc
    rw [hbad, not_not]
    constructor
    · intro hall
      by_contra hne
      obtain ⟨vw, hvw⟩ := Option.ne_none_iff_exists'.1 hne
      cases (hrel vw hvw).symm.trans (hall vw hvw)
    · intro hnone vw hvw
      cases hnone.symm.trans hvw

/-- An unfinalised clip stays so. -/
theorem Trans.unfinalised (ht : Trans cfg sh w m w') (h : Unfinalised w) : Unfinalised w' := by
  obtain ⟨hw, hpc⟩ := h
  cases ht with
  | exits he =>
    refine ⟨hw, .inr ?_⟩
    rcases hpc with hpc | hpc
    · cases he.symm.trans hpc
      rfl
    · cases he.symm.trans hpc
  | raises he => rcases hpc with hpc | hpc <;> simp [ended, hpc] at he
  | _ hpc' => rcases hpc with hpc | hpc <;> cases hpc'.symm.trans hpc

/-- A hindered statement leaves the clip unfinalised. -/
theorem Trans.of_hindered (ht : Trans cfg sh w m w') (hl : w.Local) (h : ¬ Unhindered cfg w m) :
    Unfinalised w' := by
  obtain ⟨hw, hne⟩ := Classical.not_imp.1 h
  cases ht with
  | raises => exact ⟨hw, .inl rfl⟩
  | zeroFps | captureRaises => exact ⟨hw, .inl rfl⟩
  | firstRaises hpc | firstNone hpc | firstFrame hpc =>
    rw [Local, hpc] at hl
    exact absurd hl.2 hw
  | captureNone hpc hc | captureFrame hpc hc =>
    refine absurd ⟨fun hi => ?_, fun scr _ hm => ?_, fun hm => ?_⟩ hne
    · cases hpc.symm.trans hi
    · cases hm
      by_contra hn
      cases hc.symm.trans (composite_eq_none.2 hn)
    · cases hm
  | interval hpc hf =>
    refine absurd ⟨fun _ => hf, fun scr hc => ?_, fun hm => ?_⟩ hne
    · cases hpc.symm.trans hc
    · cases hm
  | nameClip hpc | noBackend hpc | entry hpc | makeDir hpc | openWriter hpc | leave hpc | loop hpc
  | write hpc | pace hpc | release hpc | exits hpc =>
    refine absurd ⟨fun hi => ?_, fun scr hc => ?_, fun hm => ?_⟩ hne
    · cases hpc.symm.trans hi
    · cases hpc.symm.trans hc
    · cases hm

/-- Only a hindered statement leaves a clip unfinalised. -/
theorem Trans.not_unfinalised (ht : Trans cfg sh w m w') (hl : w.Local)
    (hu : Unhindered cfg w m) (h : ¬ Unfinalised w) : ¬ Unfinalised w' := by
  rintro ⟨hw', hpc'⟩
  cases ht with
  | raises => exact (hu hw').2.2 rfl
  | zeroFps hpc hf => exact (hu hw').1 hpc hf
  | captureRaises hpc hc => exact composite_eq_none.1 hc ((hu hw').2.1 _ hpc rfl)
  | firstRaises hpc =>
    rw [Local, hpc] at hl
    exact hw' hl.2
  | exits hpc =>
    rcases hpc' with hpc' | hpc'
    · cases hpc'
    · cases hpc'
      exact h ⟨hw', .inl hpc⟩
  | _ => rcases hpc' with hpc' | hpc' <;> cases hpc'

end Worker

/-- A worker that has ended has released the writer it opened, if any, exactly when after the
opening of the file its frame rate was not zero, each capture found its monitors, and no other
statement raised. -/
theorem released_iff {cfg : Config} {as : List (Shared × Move)} {w : Worker}
    (hrun : (workerMachine cfg).run (workerMachine cfg).init as = some w)
    (hend : w.ended = true) :
    (∀ vw, w.writer = some vw → vw.released = true) ↔
      (workerMachine cfg).EveryStep (fun w a _ => Unhindered cfg w a.2)
        (workerMachine cfg).init as := by
  rw [(local_inductive.run hrun).finalised_iff hend]
  have hlocal : (workerMachine cfg).EveryState Worker.Local {} as :=
    local_inductive.everyState Worker.Local.init
  constructor
  · intro h
    have hall : (workerMachine cfg).EveryState (fun w => ¬ Unfinalised w) {} as := by
      refine Machine.everyState_of_last ?_ hrun h
      intro s a t hs ht hbad
      exact ht ((Worker.step_trans hs).unfinalised hbad)
    refine (hlocal.and hall).everyStep ?_
    rintro s a t ⟨hl, -⟩ hs ⟨-, ht⟩
    by_contra hne
    exact ht ((Worker.step_trans hs).of_hindered hl hne)
  · intro h
    have hall : (workerMachine cfg).EveryState (fun w => w.Local ∧ ¬ Unfinalised w) {} as := by
      refine h.everyState ?_ ⟨Worker.Local.init, fun hbad => hbad.1 rfl⟩
      rintro s a t ⟨hl, hbad⟩ hs hu
      have htr := Worker.step_trans hs
      exact ⟨hl.step htr, htr.not_unfinalised hl hu hbad⟩
    exact (hall.last hrun).2

/-- Two monitors are selected and both are there at the first capture. -/
def twoMonitors : Config where
  clips_dir := "data/clips"
  fps := 15
  monitor_indexes := some [0, 1]
  HAS_DXCAM := false
  HAS_MSS := true
  localtime _ := default

def mssScreen (n : Nat) : Screen where
  outputs := none
  grab _ _ := .raises
  monitors := some n
  shot _ _ := some (Grid.full 1 1 (0, 0))

-- The second monitor is unplugged between the first two captures.
def unplugged : List (Shared × Move) :=
  [.go, .capture (mssScreen 2), .clock 0, .go, .go, .go, .go, .capture (mssScreen 1)].map
    (⟨false, some (clipPath "data/clips" default)⟩, ·)

theorem unplugged_unreleased :
    ∃ w vw, (workerMachine twoMonitors).run (workerMachine twoMonitors).init unplugged = some w ∧
      w.pc = .exiting .raised ∧ w.writer = some vw ∧
      vw = ⟨clipPath "data/clips" default, 15, (2, 1), [], false⟩ :=
  ⟨_, _, rfl, rfl, rfl, rfl⟩

/-- Not every worker that ends has released what it opened. -/
theorem not_always_released :
    ¬ ∀ (cfg : Config) (as : List (Shared × Move)) (w : Worker),
      (workerMachine cfg).run (workerMachine cfg).init as = some w → w.ended = true →
        ∀ vw, w.writer = some vw → vw.released = true := by
  intro h
  obtain ⟨w, vw, hrun, hpc, hvw, rfl⟩ := unplugged_unreleased
  cases h _ _ w hrun (by rw [Worker.ended, hpc]) _ hvw

-- The worker finds the stop event set at its first loop test.
def stoppedAtOnce : List (Shared × Move) :=
  [.go, .capture (mssScreen 2), .clock 0, .go, .go, .go, .go, .go].map
    (⟨true, some (clipPath "data/clips" default)⟩, ·)

def stoppedWorker : Worker where
  pc := .exiting .finished
  size := (2, 1)
  clock := some 0
  writer := some ⟨clipPath "data/clips" default, 15, (2, 1), [], true⟩

theorem released_iff_stoppedAtOnce :
    (∀ vw, stoppedWorker.writer = some vw → vw.released = true) ↔
      (workerMachine twoMonitors).EveryStep (fun w a _ => Unhindered twoMonitors w a.2)
        (workerMachine twoMonitors).init stoppedAtOnce :=
  released_iff (w := stoppedWorker) rfl rfl

end Simian.ScreenRecorder
