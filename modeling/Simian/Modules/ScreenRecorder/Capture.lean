import Simian.Modules.ScreenRecorder.Worker

/-! # One capture, monitor by monitor

Both back ends ask the selected monitors one after another. `answers` says which of them gave a
frame and `columns` where each one's pixels start in the composite (`columns_pixel`). If every
monitor keeps its resolution, then `answers` alone fixes the columns (`columns_eq_layout`) and the
size of the composite (`extent_spec`). -/

namespace Simian.ScreenRecorder

/-- Some monitor is asked and raises. -/
def Raises (ask : Nat → Int → Grab) (k : Nat) (is : List Int) : Prop :=
  ∃ j i, is[j]? = some i ∧ ask (k + j) i = .raises

/-- Which of the selected monitors give a frame. -/
def answers (ask : Nat → Int → Grab) : Nat → List Int → List Bool
  | _, [] => []
  | k, i :: is =>
    match ask k i with
    | .frame _ => true :: answers ask (k + 1) is
    | _ => false :: answers ask (k + 1) is

/-- The column at which each selected monitor's pixels start, if it gives a frame. -/
def columns (ask : Nat → Int → Grab) : Nat → Nat → List Int → List (Option Nat)
  | _, _, [] => []
  | col, k, i :: is =>
    match ask k i with
    | .frame f => some col :: columns ask (col + f.width) (k + 1) is
    | _ => none :: columns ask col (k + 1) is

/-- The columns when monitor `i` is `(res i).1` wide and those marked in the list give a frame. -/
def layout (res : Int → Nat × Nat) : Nat → List Int → List Bool → List (Option Nat)
  | col, i :: is, true :: bs => some col :: layout res (col + (res i).1) is bs
  | col, _ :: is, false :: bs => none :: layout res col is bs
  | _, _, _ => []

/-- The width and the height of the composite of the marked monitors. -/
def extent (res : Int → Nat × Nat) : List Int → List Bool → Nat × Nat
  | i :: is, true :: bs => ((res i).1 + (extent res is bs).1, max (res i).2 (extent res is bs).2)
  | _ :: is, false :: bs => extent res is bs
  | _, _ => (0, 0)

variable {ask : Nat → Int → Grab} {res : Int → Nat × Nat} {k : Nat} {is : List Int}

theorem raises_cons {i : Int} : Raises ask k (i :: is) ↔
    ask k i = .raises ∨ Raises ask (k + 1) is := by
  constructor
  · rintro ⟨j, i', hj, hr⟩
    cases j with
    | zero => cases hj; exact .inl hr
    | succ j => exact .inr ⟨j, i', hj, by rwa [Nat.add_assoc, Nat.add_comm 1 j]⟩
  · rintro (hr | ⟨j, i', hj, hr⟩)
    · exact ⟨0, i, rfl, hr⟩
    · exact ⟨j + 1, i', hj, by rwa [Nat.add_assoc, Nat.add_comm 1 j] at hr⟩

theorem collect_eq_none : collect ask k is = none ↔ Raises ask k is := by
  induction is generalizing k with
  | nil =>
    refine ⟨nofun, ?_⟩
    rintro ⟨j, i, hj, -⟩
    cases hj
  | cons i is ih =>
    rw [raises_cons, collect]
    split <;> rename_i ha
    · simp [ha]
    · simp [ha, ih]
    · simp [ha, ih]

/-- Without an exception no frame comes back exactly when no monitor gives one. -/
theorem collect_eq_nil {frames : List Frame} (h : collect ask k is = some frames) :
    frames = [] ↔ true ∉ answers ask k is := by
  induction is generalizing k frames with
  | nil => cases h; simp [answers]
  | cons i is ih =>
    rw [collect] at h
    split at h <;> rename_i ha
    · cases h
    · simp [answers, ha, ih h]
    · obtain ⟨rest, -, rfl⟩ := Option.map_eq_some_iff.1 h
      simp [answers, ha]

/-- Where a monitor that does not raise has a frame, all have one. -/
theorem answers_eq_true (hask : ∀ k i, ask k i ≠ .nothing) (h : ¬ Raises ask k is) :
    answers ask k is = is.map fun _ => true := by
  induction is generalizing k with
  | nil => rfl
  | cons i is ih =>
    rw [raises_cons, not_or] at h
    rw [answers, List.map_cons]
    cases hans : ask k i with
    | raises => exact absurd hans h.1
    | nothing => exact absurd hans (hask k i)
    | frame f => rw [ih h.2]

theorem answers_eq_columns (col : Nat) :
    (columns ask col k is).map Option.isSome = answers ask k is := by
  induction is generalizing k col with
  | nil => rfl
  | cons i is ih =>
    rw [columns, answers]
    split <;> rename_i ha <;> simp [ih]

/-- Behind a column of the list stands a frame of the capture, and the column is the sum of the
widths of the frames before it. -/
theorem columns_split {frames : List Frame} {col c j : Nat} (h : collect ask k is = some frames)
    (hj : (columns ask col k is)[j]? = some (some c)) :
    ∃ before f after i, frames = before ++ f :: after ∧ is[j]? = some i ∧
      ask (k + j) i = .frame f ∧ c = col + (before.map Grid.width).sum := by
  induction is generalizing k col j frames with
  | nil => simp [columns] at hj
  | cons i is ih =>
    rw [collect] at h
    rw [columns] at hj
    have hshift : ∀ j, k + 1 + j = k + (j + 1) := by omega
    split at h <;> rename_i ha <;> simp only [ha] at hj
    · cases h
    · cases j with
      | zero => cases hj
      | succ j =>
        obtain ⟨before, f, after, i', hf, hi, hask, hc⟩ := ih h hj
        exact ⟨before, f, after, i', hf, hi, hshift j ▸ hask, hc⟩
    · rename_i f
      obtain ⟨rest, hrest, rfl⟩ := Option.map_eq_some_iff.1 h
      cases j with
      | zero =>
        cases hj
        exact ⟨[], f, rest, i, rfl, rfl, ha, by simp⟩
      | succ j =>
        obtain ⟨before, g, after, i', hf, hi, hask, hc⟩ := ih hrest hj
        refine ⟨f :: before, g, after, i', by rw [hf, List.cons_append], hi, hshift j ▸ hask, ?_⟩
        rw [hc, List.map_cons, List.sum_cons, Nat.add_assoc]

/-- `columns` is right about the composite: from its column on, in its rows, there are the
monitor's own pixels. -/
theorem columns_pixel {frames : List Frame} {comp : Frame} {c j : Nat}
    (h : collect ask 0 is = some frames) (hcomp : _stack_frames frames = some (some comp))
    (hj : (columns ask 0 0 is)[j]? = some (some c)) :
    ∃ i f, is[j]? = some i ∧ ask j i = .frame f ∧
      ∀ row x, row < f.height → x < f.width → comp.get? row (c + x) = f.get? row x := by
  obtain ⟨before, f, after, i, rfl, hi, hask, hc⟩ := columns_split h hj
  rw [Nat.zero_add] at hask hc
  refine ⟨i, f, hi, hask, ?_⟩
  intro row x hrow hx
  have hle : f.height ≤ maxHeight (before ++ f :: after) := height_le_maxHeight (by simp)
  rw [hc, stack_pixel hcomp (Nat.lt_of_lt_of_le hrow hle) hx, if_pos hrow]

/-! ## Monitors that keep their resolution -/

/-- Each frame has the resolution of the monitor it is asked of. -/
def Sized (ask : Nat → Int → Grab) (res : Int → Nat × Nat) : Prop :=
  ∀ k i f, ask k i = .frame f → (f.width, f.height) = res i

theorem columns_eq_layout (hs : Sized ask res) (col : Nat) :
    columns ask col k is = layout res col is (answers ask k is) := by
  induction is generalizing k col with
  | nil => rfl
  | cons i is ih =>
    rw [columns, answers]
    split <;> rename_i ha
    · rw [layout, ih, ← hs _ _ _ ha]
    · rw [ih]
      rfl

theorem extent_spec (hs : Sized ask res) {frames : List Frame}
    (h : collect ask k is = some frames) :
    ((frames.map Grid.width).sum, maxHeight frames) = extent res is (answers ask k is) := by
  induction is generalizing k frames with
  | nil => cases h; rfl
  | cons i is ih =>
    rw [collect] at h
    split at h <;> rename_i ha
    · cases h
    · rw [ih h, answers, ha]
      rfl
    · rename_i f
      obtain ⟨rest, hrest, rfl⟩ := Option.map_eq_some_iff.1 h
      have hrec := ih hrest
      simp only [answers, ha, extent]
      rw [← hrec, ← hs _ _ _ ha, List.map_cons, List.sum_cons]
      rfl

/-! ## The capture of the back end in use -/

/-- The monitors a capture asks, in order. -/
def selected (cfg : Config) (idxs : List Int) (scr : Screen) : List Int :=
  if cfg.HAS_DXCAM then idxs else indexes cfg.monitor_indexes (scr.monitors.getD 0)

def askScreen (cfg : Config) (scr : Screen) : Nat → Int → Grab :=
  if cfg.HAS_DXCAM then askDxcam scr else askMss scr (scr.monitors.getD 0)

/-- The capture raises nothing: mss can list the monitors, and no selected monitor raises, so
that under mss each selected index is one of the monitors present. -/
def Capturable (cfg : Config) (idxs : List Int) (scr : Screen) : Prop :=
  (cfg.HAS_DXCAM = false → scr.monitors ≠ none) ∧
    ¬ Raises (askScreen cfg scr) 0 (selected cfg idxs scr)

variable {cfg : Config} {idxs : List Int} {scr : Screen}

/-- The capture of either back end is one `collect`. -/
theorem composite_eq_collect (h : cfg.HAS_DXCAM = false → scr.monitors ≠ none) :
    composite cfg idxs scr =
      (collect (askScreen cfg scr) 0 (selected cfg idxs scr)).bind _stack_frames := by
  unfold composite askScreen selected
  split
  · rfl
  · rename_i hdx
    obtain ⟨n, hn⟩ := Option.ne_none_iff_exists'.1 (h (eq_false_of_ne_true hdx))
    rw [_frame_from_mss, hn]
    rfl

theorem composite_eq_none : composite cfg idxs scr = none ↔ ¬ Capturable cfg idxs scr := by
  by_cases hm : cfg.HAS_DXCAM = false → scr.monitors ≠ none
  · rw [composite_eq_collect hm, Option.bind_eq_none_iff]
    rw [Capturable, ← collect_eq_none, not_and_not_right]
    constructor
    · intro h _
      by_contra hne
      obtain ⟨frames, hframes⟩ := Option.ne_none_iff_exists'.1 hne
      exact stack_ne_none frames (h frames hframes)
    · intro h frames hframes
      cases (h hm).symm.trans hframes
  · simp only [Classical.not_imp, not_not] at hm
    simp [Capturable, composite, _frame_from_mss, hm]

/-- A composite comes from a capture without an exception in which some monitor gave a frame. -/
theorem composite_eq_some {c : Frame} (h : composite cfg idxs scr = some (some c)) :
    ∃ frames, collect (askScreen cfg scr) 0 (selected cfg idxs scr) = some frames ∧
      frames ≠ [] ∧ _stack_frames frames = some (some c) := by
  have hc : Capturable cfg idxs scr := by
    by_contra hn
    rw [composite_eq_none.2 hn] at h
    cases h
  rw [composite_eq_collect hc.1] at h
  obtain ⟨frames, hframes, hcomp⟩ := Option.bind_eq_some_iff.1 h
  refine ⟨frames, hframes, ?_, hcomp⟩
  rintro rfl
  cases hcomp

end Simian.ScreenRecorder
