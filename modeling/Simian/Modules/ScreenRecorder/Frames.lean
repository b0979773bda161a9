import Simian.Lib.Grid

/-! # Frames and captures of `modules/screen_recorder.py`

What one capture of the screen gives: the frames of the selected monitors in order, and their
composite. Everything the two capture back ends answer is a `Screen`; an exception is the value
`none` of the function it escapes from.

A composite is as wide as its frames together and as high as the highest one (`stack_spec`), and
each frame's pixels start behind the widths before it (`stack_pixel`). So a capture in which
a monitor has no frame gives a narrower composite, with the later monitors further left. -/

namespace Simian.ScreenRecorder

/-- A pixel of three channels. -/
structure Pixel where
  c0 : UInt8
  c1 : UInt8
  c2 : UInt8
  deriving DecidableEq, Repr

instance : Zero Pixel := ⟨⟨0, 0, 0⟩⟩

/-- The pixel of `frame[..., ::-1]`. -/
def Pixel.reverse (p : Pixel) : Pixel := ⟨p.c2, p.c1, p.c0⟩

abbrev Frame := Grid Pixel

/-- The outcome of asking for one monitor's picture. -/
inductive Grab
  | raises
  | nothing
  | frame (f : Frame)
  deriving DecidableEq

/-- What the back ends answer during one capture: `len(dxcam.device_info()["outputs"])`; the
`k`-th dxcam grab of the capture, made on output `i`; `len(sct.monitors[1:])`; and the `k`-th mss
grab, made on monitor `j`, in four channels. `none` stands for an exception. -/
structure Screen where
  outputs : Option Nat
  grab : Nat → Int → Grab
  monitors : Option Nat
  shot : Nat → Nat → Option (Grid (Pixel × UInt8))

/-- `xs[i]` for a list of length `n`: negative indexes count from the end. -/
def pyIndex (n : Nat) (i : Int) : Option Nat :=
  if 0 ≤ i then (if i.toNat < n then some i.toNat else none)
  else if (-i).toNat ≤ n then some (n - (-i).toNat) else none

/-- `self.monitor_indexes or list(range(n))`. -/
def indexes (monitor_indexes : Option (List Int)) (n : Nat) : List Int :=
  match monitor_indexes with
  | some (i :: is) => i :: is
  | _ => (List.range n).map Int.ofNat

/-- The loop of both capture functions: the frames of the selected monitors in order, without
those that have none; the first exception ends it. -/
def collect (ask : Nat → Int → Grab) : Nat → List Int → Option (List Frame)
  | _, [] => some []
  | k, i :: is =>
    match ask k i with
    | .raises => none
    | .nothing => collect ask (k + 1) is
    | .frame f => (collect ask (k + 1) is).map (f :: ·)

def askDxcam (scr : Screen) (k : Nat) (i : Int) : Grab :=
  match scr.grab k i with
  | .raises => .raises
  | .nothing => .nothing
  | .frame f => .frame (f.map Pixel.reverse)

def askMss (scr : Screen) (n k : Nat) (i : Int) : Grab :=
  match (pyIndex n i).bind (scr.shot k) with
  | none => .raises
  | some img => .frame (img.map Prod.fst)

def _get_monitors_dxcam (monitor_indexes : Option (List Int)) (scr : Screen) : Option (List Int) :=
  scr.outputs.map (indexes monitor_indexes)

def _frame_from_dxcam (scr : Screen) (idxs : List Int) : Option (List Frame) :=
  collect (askDxcam scr) 0 idxs

def _frame_from_mss (monitor_indexes : Option (List Int)) (scr : Screen) : Option (List Frame) :=
  scr.monitors.bind fun n => collect (askMss scr n) 0 (indexes monitor_indexes n)

/-- One turn of the padding loop of `_stack_frames`. -/
def pad (max_h : Nat) (f : Frame) : Option Frame :=
  if f.height < max_h then f.vstack (Grid.full (max_h - f.height) f.width 0) else some f

def maxHeight (frames : List Frame) : Nat := (frames.map Grid.height).foldr max 0

/-- `some none` is the result `None`; the outer `none` would be an exception of the stacking. -/
def _stack_frames (frames : List Frame) : Option (Option Frame) :=
  match frames with
  | [] => some none
  | _ :: _ => ((frames.mapM (pad (maxHeight frames))).bind Grid.hstack).map some

/-! ## The composite -/

theorem height_le_maxHeight {f : Frame} {frames : List Frame} (h : f ∈ frames) :
    f.height ≤ maxHeight frames := by
  induction frames with
  | nil => cases h
  | cons g frames ih =>
    simp only [maxHeight, List.map_cons, List.foldr_cons]
    rcases List.mem_cons.1 h with rfl | h
    · exact Nat.le_max_left _ _
    · exact Nat.le_trans (ih h) (Nat.le_max_right _ _)

/-- Padding reaches the common height, keeps the width, and adds zero rows below. -/
theorem pad_spec {f : Frame} {max_h : Nat} (h : f.height ≤ max_h) :
    ∃ p, pad max_h f = some p ∧ p.height = max_h ∧ p.width = f.width ∧
      ∀ r c, r < max_h → c < f.width →
        p.get? r c = if r < f.height then f.get? r c else some 0 := by
  unfold pad
  split
  · rename_i hlt
    obtain ⟨p, hp, hrows, hw⟩ :=
      Grid.vstack_of_width_eq (f := f) (g := Grid.full (max_h - f.height) f.width 0) rfl
    refine ⟨p, hp, ?_, hw, ?_⟩
    · rw [Grid.height_of_rows_append hrows, Grid.height_full]
      omega
    · intro r c hr hc
      split
      · rename_i hrf
        exact Grid.get?_of_rows_append_left hrows hrf
      · rename_i hrf
        rw [Grid.get?_of_rows_append_right hrows (Nat.le_of_not_lt hrf)]
        exact Grid.get?_full (by omega) hc
  · rename_i hlt
    refine ⟨f, rfl, Nat.le_antisymm h (Nat.le_of_not_lt hlt), rfl, ?_⟩
    intro r c hr hc
    rw [if_pos (Nat.lt_of_lt_of_le hr (Nat.le_of_not_lt hlt))]

/-- The padded frames, one for each frame. -/
theorem mapM_pad {max_h : Nat} {frames : List Frame} (h : ∀ f ∈ frames, f.height ≤ max_h) :
    ∃ padded, frames.mapM (pad max_h) = some padded ∧
      List.Forall₂ (fun f p => pad max_h f = some p) frames padded := by
  induction frames with
  | nil => exact ⟨[], rfl, .nil⟩
  | cons f frames ih =>
    obtain ⟨p, hp, -⟩ := pad_spec (h f List.mem_cons_self)
    obtain ⟨padded, hm, hall⟩ := ih fun g hg => h g (List.mem_cons_of_mem f hg)
    refine ⟨p :: padded, ?_, .cons hp hall⟩
    rw [List.mapM_cons, hp, hm]
    rfl

theorem padded_shape {max_h : Nat} {frames padded : List Frame}
    (h : ∀ f ∈ frames, f.height ≤ max_h)
    (hall : List.Forall₂ (fun f p => pad max_h f = some p) frames padded) :
    (∀ p ∈ padded, p.height = max_h) ∧ padded.map Grid.width = frames.map Grid.width := by
  induction hall with
  | nil => exact ⟨nofun, rfl⟩
  | @cons f p frames padded hp _ ih =>
    obtain ⟨ihh, ihw⟩ := ih fun g hg => h g (List.mem_cons_of_mem f hg)
    obtain ⟨p', hp', hph, hpw, -⟩ := pad_spec (h f List.mem_cons_self)
    cases hp.symm.trans hp'
    refine ⟨List.forall_mem_cons.2 ⟨hph, ihh⟩, ?_⟩
    rw [List.map_cons, List.map_cons, hpw, ihw]

/-- `_stack_frames` never raises; its composite has the greatest height and the sum of the
widths. -/
theorem stack_spec {frames : List Frame} (hne : frames ≠ []) :
    ∃ comp, _stack_frames frames = some (some comp) ∧ comp.height = maxHeight frames ∧
      comp.width = (frames.map Grid.width).sum := by
  have hle : ∀ f ∈ frames, f.height ≤ maxHeight frames := fun f hf => height_le_maxHeight hf
  obtain ⟨padded, hm, hall⟩ := mapM_pad hle
  obtain ⟨hph, hpw⟩ := padded_shape hle hall
  have hpne : padded ≠ [] := by
    rintro rfl
    cases hall
    exact hne rfl
  obtain ⟨comp, hcomp, hh, hw⟩ := Grid.hstack_eq_some hpne hph
  refine ⟨comp, ?_, hh, hw.trans (by rw [hpw])⟩
  cases frames with
  | nil => exact absurd rfl hne
  | cons f frames => rw [_stack_frames, hm, Option.bind_some, hcomp, Option.map_some]

theorem stack_ne_none (frames : List Frame) : _stack_frames frames ≠ none := by
  cases frames with
  | nil => nofun
  | cons f frames =>
    obtain ⟨comp, hcomp, -⟩ := stack_spec (List.cons_ne_nil f frames)
    rw [hcomp]
    nofun

/-- Each frame's pixels appear in the composite in their rows, behind the widths before it, and
zeros below a frame that is not the highest. -/
theorem stack_pixel {before after : List Frame} {f comp : Frame}
    (h : _stack_frames (before ++ f :: after) = some (some comp)) {r c : Nat}
    (hr : r < maxHeight (before ++ f :: after)) (hc : c < f.width) :
    comp.get? r ((before.map Grid.width).sum + c) =
      if r < f.height then f.get? r c else some 0 := by
  have hle : ∀ g ∈ before ++ f :: after, g.height ≤ maxHeight (before ++ f :: after) :=
    fun g hg => height_le_maxHeight hg
  generalize hmax : maxHeight (before ++ f :: after) = max_h at *
  obtain ⟨padBefore, hmb, hb⟩ := mapM_pad fun g hg => hle g (List.mem_append_left _ hg)
  obtain ⟨padAfter, hma, -⟩ :=
    mapM_pad fun g hg => hle g (List.mem_append_right _ (List.mem_cons_of_mem f hg))
  obtain ⟨p, hp, -, hpw, hpix⟩ := pad_spec (hle f (by simp))
  have hm : (before ++ f :: after).mapM (pad max_h) = some (padBefore ++ p :: padAfter) := by
    rw [List.mapM_append, hmb, List.mapM_cons, hp, hma]
    rfl
  have hstack : Grid.hstack (padBefore ++ p :: padAfter) = some comp := by
    cases hfs : before ++ f :: after with
    | nil => simp at hfs
    | cons g gs =>
      rw [hfs, _stack_frames, ← hfs, hmax, hm, Option.bind_some] at h
      obtain ⟨comp', hcomp', heq⟩ := Option.map_eq_some_iff.1 h
      cases heq
      exact hcomp'
  obtain ⟨-, hwb⟩ := padded_shape (fun g hg => hle g (List.mem_append_left _ hg)) hb
  rw [← hwb, Grid.hstack_get? (hpw ▸ hc) hstack]
  exact hpix r c hr hc

/-- `comp` is made of `frames` and of nothing else: they stand side by side, with zeros below those
that are not the highest. -/
structure Stacks (frames : List Frame) (comp : Frame) : Prop where
  height_le : ∀ f ∈ frames, f.height ≤ comp.height
  height_mem : ∃ f ∈ frames, f.height = comp.height
  width : comp.width = (frames.map Grid.width).sum
  pixel : ∀ (i : Nat) (f : Frame), frames[i]? = some f → ∀ r c, r < f.height → c < f.width →
    ∃ p, f.get? r c = some p ∧ comp.get? r (Grid.offset frames i + c) = some p
  padding : ∀ (i : Nat) (f : Frame), frames[i]? = some f → ∀ r c, f.height ≤ r → r < comp.height →
    c < f.width → comp.get? r (Grid.offset frames i + c) = some 0
  column : ∀ c < comp.width, ∃! p : Nat × Nat, ∃ f, frames[p.1]? = some f ∧ p.2 < f.width ∧
    c = Grid.offset frames p.1 + p.2

theorem maxHeight_mem {frames : List Frame} (hne : frames ≠ []) :
    ∃ f ∈ frames, f.height = maxHeight frames := by
  induction frames with
  | nil => exact absurd rfl hne
  | cons g frames ih =>
    have hmax : maxHeight (g :: frames) = max g.height (maxHeight frames) := rfl
    rcases Nat.le_total (maxHeight frames) g.height with hle | hle
    · refine ⟨g, List.mem_cons_self, ?_⟩
      rw [hmax, Nat.max_eq_left hle]
    · rw [hmax, Nat.max_eq_right hle]
      by_cases hnil : frames = []
      · subst hnil
        exact ⟨g, List.mem_cons_self, Nat.le_zero.1 hle⟩
      · obtain ⟨f, hf, heq⟩ := ih hnil
        exact ⟨f, List.mem_cons_of_mem g hf, heq⟩

theorem stack_pixel_offset {frames : List Frame} {f comp : Frame} {i r c : Nat}
    (h : _stack_frames frames = some (some comp)) (hi : frames[i]? = some f)
    (hr : r < maxHeight frames) (hc : c < f.width) :
    comp.get? r (Grid.offset frames i + c) = if r < f.height then f.get? r c else some 0 := by
  obtain ⟨hlt, hf⟩ := List.getElem?_eq_some_iff.1 hi
  have hsplit : frames.take i ++ f :: frames.drop (i + 1) = frames := by
    rw [← hf, ← List.drop_eq_getElem_cons hlt, List.take_append_drop]
  rw [← hsplit] at h hr
  exact stack_pixel h hr hc

/-- `_stack_frames` puts any frames side by side, whatever their sizes and pixels. -/
theorem stack_frames {frames : List Frame} (hne : frames ≠ []) :
    ∃ comp, _stack_frames frames = some (some comp) ∧ Stacks frames comp := by
  obtain ⟨comp, hcomp, hheight, hwidth⟩ := stack_spec hne
  refine ⟨comp, hcomp, ?_⟩
  constructor
  case height_le =>
    intro f hf
    rw [hheight]
    exact height_le_maxHeight hf
  case height_mem =>
    rw [hheight]
    exact maxHeight_mem hne
  case width => exact hwidth
  case pixel =>
    intro i f hi r c hr hc
    obtain ⟨p, hp⟩ := Grid.exists_get? hr hc
    have hmax := Nat.lt_of_lt_of_le hr (height_le_maxHeight (List.mem_of_getElem? hi))
    refine ⟨p, hp, ?_⟩
    rw [stack_pixel_offset hcomp hi hmax hc, if_pos hr, hp]
  case padding =>
    intro i f hi r c hr hmax hc
    rw [hheight] at hmax
    rw [stack_pixel_offset hcomp hi hmax hc, if_neg (Nat.not_lt.2 hr)]
  case column =>
    intro c hc
    rw [hwidth] at hc
    exact Grid.existsUnique_part hc

-- A monitor of two rows beside one of a single row.
theorem stack_frames_two : ∃ comp,
    _stack_frames [Grid.full 2 1 ⟨1, 2, 3⟩, Grid.full 1 2 ⟨4, 5, 6⟩] = some (some comp) ∧
      Stacks [Grid.full 2 1 ⟨1, 2, 3⟩, Grid.full 1 2 ⟨4, 5, 6⟩] comp :=
  stack_frames (List.cons_ne_nil _ _)

end Simian.ScreenRecorder
