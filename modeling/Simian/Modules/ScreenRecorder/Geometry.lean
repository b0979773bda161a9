import Simian.Modules.ScreenRecorder.Capture

/-! # The geometry of the written frames

The writer is opened with the size of one initial composite, and every later composite is built
from the monitors that gave a frame at that instant. Under mss each selected monitor gives one or
the worker ends, so the geometry is constant (`geometry_mss`). Under dxcam a monitor without a new
frame is left out: then the composite is narrower than the writer, and the monitors behind it move
left. `geometry_iff` says that the geometry is constant exactly when all written composites are
made of the same monitors, and these have the size of the initial composite. -/

namespace Simian.ScreenRecorder

/-- The number of monitors is `n`, and each keeps its resolution `res`. -/
structure Steady (cfg : Config) (res : Int → Nat × Nat) (n : Nat) (scr : Screen) : Prop where
  count : (if cfg.HAS_DXCAM then scr.outputs else scr.monitors) = some n
  size : Sized (askScreen cfg scr) res

def Move.Steady (cfg : Config) (res : Int → Nat × Nat) (n : Nat) : Move → Prop
  | .capture scr => ScreenRecorder.Steady cfg res n scr
  | _ => True

/-- The composite that `_run` makes in its loop, to pass it to `writer.write`, has the size of
the writer, and the monitors start at the columns `cols`. -/
def Geometry (cfg : Config) (cols : List (Option Nat)) (w : Worker) (m : Move) : Prop :=
  ∀ scr c, w.pc = .capture → m = .capture scr → composite cfg w.idxs scr = some (some c) →
    (∀ vw, w.writer = some vw → vw.size = (c.width, c.height)) ∧
      columns (askScreen cfg scr) 0 0 (selected cfg w.idxs scr) = cols

/-- Each capture of the loop in which nothing raises and some monitor gives a frame has frames
from the monitors marked in `mask`, and these together have the size with which the writer was
opened. -/
def SameMonitors (cfg : Config) (res : Int → Nat × Nat) (mask : List Bool) (w : Worker)
    (m : Move) : Prop :=
  ∀ scr, w.pc = .capture → m = .capture scr → Capturable cfg w.idxs scr →
    true ∈ answers (askScreen cfg scr) 0 (selected cfg w.idxs scr) →
    answers (askScreen cfg scr) 0 (selected cfg w.idxs scr) = mask ∧
      ∀ vw, w.writer = some vw → vw.size = extent res (selected cfg w.idxs scr) mask

variable {cfg : Config} {res : Int → Nat × Nat} {n : Nat} {scr : Screen} {idxs : List Int}

theorem exists_composite :
    (∃ c, composite cfg idxs scr = some (some c)) ↔
      Capturable cfg idxs scr ∧
        true ∈ answers (askScreen cfg scr) 0 (selected cfg idxs scr) := by
  constructor
  · rintro ⟨c, hc⟩
    obtain ⟨frames, hframes, hne, -⟩ := composite_eq_some hc
    refine ⟨?_, ?_⟩
    · by_contra hn
      cases hc.symm.trans (composite_eq_none.2 hn)
    · by_contra hn
      exact hne ((collect_eq_nil hframes).2 hn)
  · rintro ⟨hcap, hmem⟩
    have hcollect : collect (askScreen cfg scr) 0 (selected cfg idxs scr) ≠ none :=
      fun h => hcap.2 (collect_eq_none.1 h)
    obtain ⟨frames, hframes⟩ := Option.ne_none_iff_exists'.1 hcollect
    have hne : frames ≠ [] := fun h => (collect_eq_nil hframes).1 h hmem
    obtain ⟨c, hc, -⟩ := stack_spec hne
    refine ⟨c, ?_⟩
    rw [composite_eq_collect hcap.1, hframes]
    exact hc

/-- The size of a composite is the extent of the monitors that gave a frame. -/
theorem composite_size (hs : Steady cfg res n scr) {c : Frame}
    (h : composite cfg idxs scr = some (some c)) :
    (c.width, c.height) = extent res (selected cfg idxs scr)
      (answers (askScreen cfg scr) 0 (selected cfg idxs scr)) := by
  obtain ⟨frames, hframes, hne, hcomp⟩ := composite_eq_some h
  obtain ⟨c', hc', hh, hw⟩ := stack_spec hne
  cases hcomp.symm.trans hc'
  rw [← extent_spec hs.size hframes, hh, hw]

/-- From the first capture on, the selected monitors are those of the constant number `n`. -/
def Selects (cfg : Config) (n : Nat) (w : Worker) : Prop :=
  w.pc ≠ .entry → w.pc ≠ .firstCapture → w.ended = false → cfg.HAS_DXCAM = true →
    w.idxs = indexes cfg.monitor_indexes n

theorem Selects.selected (h : Selects cfg n w) (hpc : w.pc = .capture)
    (hs : Steady cfg res n scr) :
    selected cfg w.idxs scr = indexes cfg.monitor_indexes n := by
  have hcount := hs.count
  unfold ScreenRecorder.selected
  split
  · rename_i hdx
    refine h ?_ ?_ ?_ hdx <;> simp [Worker.ended, hpc]
  · rename_i hdx
    rw [if_neg hdx] at hcount
    rw [hcount]
    rfl

theorem Worker.Trans.selects {sh : Shared} {w w' : Worker} {m : Move}
    (ht : Trans cfg sh w m w') (hm : m.Steady cfg res n) (h : Selects cfg n w) :
    Selects cfg n w' := by
  intro h1 h2 he hdx
  cases ht with
  | firstFrame hpc hi hc =>
    have hcount := hm.count
    rw [if_pos hdx] at hcount
    rw [firstIdxs, if_pos hdx, _get_monitors_dxcam, hcount] at hi
    exact (Option.some.inj hi).symm
  | entry => exact absurd rfl h2
  | raises | noBackend | firstRaises | firstNone | zeroFps | captureRaises | release | exits =>
    simp [ended, goto] at he
  | _ hpc => exact h (by simp [hpc]) (by simp [hpc]) (by simp [ended, hpc]) hdx

theorem Geometry.sameMonitors {w : Worker} {m : Move} {cols : List (Option Nat)}
    (h : Geometry cfg cols w m) (hm : m.Steady cfg res n) :
    SameMonitors cfg res (cols.map Option.isSome) w m := by
  rintro scr hpc rfl hcap hans
  obtain ⟨c, hc⟩ := exists_composite.2 ⟨hcap, hans⟩
  obtain ⟨hsize, hcols⟩ := h scr c hpc rfl hc
  have hmask : answers (askScreen cfg scr) 0 (selected cfg w.idxs scr) = cols.map Option.isSome := by
    rw [← hcols, answers_eq_columns]
  refine ⟨hmask, fun vw hvw => ?_⟩
  rw [hsize vw hvw, composite_size hm hc, hmask]

theorem SameMonitors.geometry {w : Worker} {m : Move} {mask : List Bool}
    (h : SameMonitors cfg res mask w m) (hm : m.Steady cfg res n) (hs : Selects cfg n w) :
    Geometry cfg (layout res 0 (indexes cfg.monitor_indexes n) mask) w m := by
  rintro scr c hpc rfl hc
  obtain ⟨hcap, hans⟩ := exists_composite.1 ⟨c, hc⟩
  obtain ⟨hmask, hsize⟩ := h scr hpc rfl hcap hans
  refine ⟨fun vw hvw => ?_, ?_⟩
  · rw [hsize vw hvw, composite_size hm hc, hmask]
  · rw [columns_eq_layout hm.size, hmask, hs.selected hpc hm]

theorem steady_steps {as : List (Shared × Move)} (h : ∀ a ∈ as, a.2.Steady cfg res n) {w : Worker} :
    (workerMachine cfg).EveryStep (fun _ a _ => a.2.Steady cfg res n) w as :=
  Machine.everyStep_of_forall_mem h

/-- With the same monitors in all of them, the composites keep the columns of these. -/
theorem geometry_of_sameMonitors {as : List (Shared × Move)} {mask : List Bool}
    (hsteady : ∀ a ∈ as, a.2.Steady cfg res n)
    (h : (workerMachine cfg).EveryStep (fun w a _ => SameMonitors cfg res mask w a.2)
      (workerMachine cfg).init as) :
    (workerMachine cfg).EveryStep (fun w a _ => Geometry cfg
      (layout res 0 (indexes cfg.monitor_indexes n) mask) w a.2) (workerMachine cfg).init as := by
  have hinit : Selects cfg n (workerMachine cfg).init := fun h => absurd rfl h
  have hselects : ∀ {w a w'}, Selects cfg n w → (workerMachine cfg).step w a = some w' →
      a.2.Steady cfg res n → Selects cfg n w' :=
    fun hs ht hm => (Worker.step_trans ht).selects hm hs
  exact (steady_steps hsteady).imp hselects (fun hs _ hm hg => hg.geometry hm hs) hinit h

/-- If the monitors keep their resolution, then every composite passed to `write` has the size
the writer was opened with, each monitor starting at one column throughout, if and only if all
of them are made of the same monitors, of that size together. -/
theorem geometry_iff {as : List (Shared × Move)} (hsteady : ∀ a ∈ as, a.2.Steady cfg res n) :
    (∃ cols, (workerMachine cfg).EveryStep (fun w a _ => Geometry cfg cols w a.2)
        (workerMachine cfg).init as) ↔
      ∃ mask, (workerMachine cfg).EveryStep (fun w a _ => SameMonitors cfg res mask w a.2)
        (workerMachine cfg).init as := by
  constructor
  · intro hgeometry
    obtain ⟨cols, h⟩ := hgeometry
    exact ⟨_, (steady_steps hsteady).imp (I := fun _ => True) (fun _ _ _ => trivial)
      (fun _ _ hm hg => hg.sameMonitors hm) trivial h⟩
  · intro hsame
    obtain ⟨mask, h⟩ := hsame
    exact ⟨_, geometry_of_sameMonitors hsteady h⟩

/-! ## The two back ends -/

theorem askMss_ne_nothing {m k : Nat} {i : Int} : askMss scr m k i ≠ .nothing := by
  rw [askMss]
  split <;> nofun

/-- Under mss a capture that does not raise has a frame of each selected monitor. -/
theorem answers_mss (hdx : cfg.HAS_DXCAM = false) (h : Capturable cfg idxs scr) :
    answers (askScreen cfg scr) 0 (selected cfg idxs scr) =
      (selected cfg idxs scr).map fun _ => true := by
  refine answers_eq_true (fun k i => ?_) h.2
  rw [askScreen, hdx]
  exact askMss_ne_nothing

theorem selected_mss (hdx : cfg.HAS_DXCAM = false) (hs : Steady cfg res n scr) :
    selected cfg idxs scr = indexes cfg.monitor_indexes n := by
  have hdx' : ¬ cfg.HAS_DXCAM = true := by simp [hdx]
  have hcount := hs.count
  rw [if_neg hdx'] at hcount
  rw [selected, if_neg hdx', hcount]
  rfl

/-- The size at the opening of the file is `e`. -/
def Opens (e : Nat × Nat) (w : Worker) : Prop :=
  (w.pc = .nameClip ∨ w.pc = .makeDir ∨ w.pc = .openWriter → w.size = e) ∧
    ∀ vw, w.writer = some vw → vw.size = e

theorem Worker.Trans.opens {e : Nat × Nat} {sh : Shared} {w w' : Worker} {m : Move}
    (ht : Trans cfg sh w m w') (h : Opens e w)
    (he : ∀ scr is c, m = .capture scr → firstIdxs cfg scr = some is →
      composite cfg is scr = some (some c) → (c.width, c.height) = e) : Opens e w' := by
  obtain ⟨hsize, hwriter⟩ := h
  cases ht with
  | firstFrame hpc hi hc => exact ⟨fun _ => he _ _ _ rfl hi hc, hwriter⟩
  | nameClip hpc => exact ⟨fun _ => hsize (.inl hpc), hwriter⟩
  | makeDir hpc => exact ⟨fun _ => hsize (.inr (.inl hpc)), hwriter⟩
  | openWriter hpc =>
    refine ⟨nofun, fun vw hvw => ?_⟩
    cases hvw
    exact hsize (.inr (.inr hpc))
  | write | release =>
    refine ⟨nofun, fun vw hvw => ?_⟩
    obtain ⟨vw', hvw', rfl⟩ := Option.map_eq_some_iff.1 hvw
    exact hwriter vw' hvw'
  | _ => exact ⟨nofun, hwriter⟩

/-- The mss back end keeps the geometry. -/
theorem geometry_mss {as : List (Shared × Move)} (hdx : cfg.HAS_DXCAM = false)
    (hsteady : ∀ a ∈ as, a.2.Steady cfg res n) :
    ∃ cols, (workerMachine cfg).EveryStep (fun w a _ => Geometry cfg cols w a.2)
      (workerMachine cfg).init as := by
  have hmask : ∀ {idxs scr}, Steady cfg res n scr → Capturable cfg idxs scr →
      answers (askScreen cfg scr) 0 (selected cfg idxs scr) =
        (indexes cfg.monitor_indexes n).map fun _ => true := by
    intro idxs scr hs hc
    rw [answers_mss hdx hc, selected_mss hdx hs]
  suffices hsame : (workerMachine cfg).EveryStep (fun w a _ => SameMonitors cfg res
      ((indexes cfg.monitor_indexes n).map fun _ => true) w a.2) (workerMachine cfg).init as from
    ⟨_, geometry_of_sameMonitors hsteady hsame⟩
  refine (steady_steps hsteady).imp (I := Opens (extent res (indexes cfg.monitor_indexes n)
    ((indexes cfg.monitor_indexes n).map fun _ => true))) ?_ ?_ ⟨nofun, nofun⟩
    (steady_steps hsteady)
  · intro w a w' hw ht hm
    refine (Worker.step_trans ht).opens hw ?_
    intro scr is c ha hi hc
    rw [ha] at hm
    obtain ⟨hcap, -⟩ := exists_composite.1 ⟨c, hc⟩
    rw [composite_size hm hc, hmask hm hcap, selected_mss hdx hm]
  · intro w a w' hw ht hm _ scr hpc ha hcap _
    rw [ha] at hm
    refine ⟨hmask hm hcap, fun vw hvw => ?_⟩
    rw [selected_mss hdx hm, hw.2 vw hvw]

/-- Two outputs of one pixel each; the second has a new frame if `both`. -/
def dxcamScreen (both : Bool) : Screen where
  outputs := some 2
  grab _ i := if i = 0 ∨ both then .frame (Grid.full 1 1 0) else .nothing
  monitors := none
  shot _ _ := none

def twoOutputs : Config where
  clips_dir := "data/clips"
  fps := 15
  monitor_indexes := none
  HAS_DXCAM := true
  HAS_MSS := true
  localtime _ := default

def opening : List (Shared × Move) :=
  [.go, .capture (dxcamScreen true), .clock 0, .go, .go, .go, .go].map
    (⟨false, some (clipPath "data/clips" default)⟩, ·)

-- The second output may have no new frame at the first capture of the loop.
def skipped (both : Bool) : List (Shared × Move) :=
  opening ++ (⟨false, none⟩, .capture (dxcamScreen both)) :: [(⟨false, none⟩, .go)]

theorem skipped_steady {both : Bool} :
    ∀ a ∈ skipped both, a.2.Steady twoOutputs (fun _ => (1, 1)) 2 := by
  have hscreen : ∀ b, Steady twoOutputs (fun _ => (1, 1)) 2 (dxcamScreen b) := by
    intro b
    refine ⟨rfl, fun k i f h => ?_⟩
    change askDxcam (dxcamScreen b) k i = .frame f at h
    by_cases hi : i = 0 ∨ b = true
    · simp only [askDxcam, dxcamScreen, if_pos hi, Grab.frame.injEq] at h
      subst h
      rfl
    · simp [askDxcam, dxcamScreen, if_neg hi] at h
  simp [skipped, opening, Move.Steady, hscreen]

/-- The worker after `opening`. -/
def opened : Worker where
  pc := .capture
  idxs := [0, 1]
  size := (2, 1)
  clock := some 0
  writer := some ⟨clipPath "data/clips" default, 15, (2, 1), [], false⟩

/-- Monitors that keep their resolution do not suffice for the geometry. -/
theorem not_always_geometry :
    ¬ ∀ (cfg : Config) (res : Int → Nat × Nat) (n : Nat) (as : List (Shared × Move)),
      (∀ a ∈ as, a.2.Steady cfg res n) →
        ∃ cols, (workerMachine cfg).EveryStep (fun w a _ => Geometry cfg cols w a.2)
          (workerMachine cfg).init as := by
  intro h
  obtain ⟨cols, h⟩ := h _ _ _ (skipped false) skipped_steady
  have hrun : (workerMachine twoOutputs).run (workerMachine twoOutputs).init opening = some opened :=
    rfl
  obtain ⟨hgeo, -⟩ := h.split hrun rfl
  obtain ⟨hsize, -⟩ := hgeo (dxcamScreen false) _ rfl rfl rfl
  exact absurd (hsize _ rfl) (by decide)

theorem geometry_iff_skipped :
    (∃ cols, (workerMachine twoOutputs).EveryStep (fun w a _ => Geometry twoOutputs cols w a.2)
        (workerMachine twoOutputs).init (skipped true)) ↔
      ∃ mask, (workerMachine twoOutputs).EveryStep
        (fun w a _ => SameMonitors twoOutputs (fun _ => (1, 1)) mask w a.2)
        (workerMachine twoOutputs).init (skipped true) :=
  geometry_iff skipped_steady

end Simian.ScreenRecorder
