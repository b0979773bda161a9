import Mathlib.Algebra.BigOperators.Group.List.Basic
import Mathlib.Algebra.Order.Ring.Nat
import Mathlib.Data.List.Basic
import Mathlib.Tactic.Cases

/-! # Rectangular arrays and their stacking

A `Grid` is a two-dimensional array: equally long rows, with the row length kept as a field so
that an array without rows still has a width. `vstack` and `hstack` are the array library's
operations with their shape checks: they fail unless the widths, respectively the heights, agree.

`hstack_eq_some` gives the shape of a horizontal stack, `hstack_get?` says where each part's
cells end up: a part keeps its rows and moves right by the widths before it, its `offset`. The parts
together are all there is (`existsUnique_part`). -/

universe u v

/-- A rectangular array of rows of length `width`. -/
structure Grid (α : Type u) where
  width : Nat
  rows : List (List α)
  row_length : ∀ row ∈ rows, row.length = width
  deriving DecidableEq

namespace Grid
variable {α : Type u} {β : Type v} {f g out : Grid α} {r c : Nat}

def height (g : Grid α) : Nat := g.rows.length

def get? (g : Grid α) (r c : Nat) : Option α := g.rows[r]?.bind (·[c]?)

/-- The array of `h` rows and `w` columns that holds `a` everywhere. -/
def full (h w : Nat) (a : α) : Grid α where
  width := w
  rows := List.replicate h (List.replicate w a)
  row_length := by
    intro row hrow
    rw [List.eq_of_mem_replicate hrow, List.length_replicate]

@[simp] theorem height_full {h w : Nat} {a : α} : (full h w a).height = h := by
  simp [full, height]

theorem get?_full {h w : Nat} {a : α} (hr : r < h) (hc : c < w) :
    (full h w a).get? r c = some a := by
  simp [full, get?, hr, hc]

theorem exists_get? (hr : r < g.height) (hc : c < g.width) : ∃ a, g.get? r c = some a := by
  have hlen := g.row_length _ (List.getElem_mem hr)
  rw [get?, List.getElem?_eq_getElem hr, Option.bind_some]
  exact ⟨_, List.getElem?_eq_getElem (Nat.lt_of_lt_of_eq hc hlen.symm)⟩

def map (φ : α → β) (g : Grid α) : Grid β where
  width := g.width
  rows := g.rows.map (·.map φ)
  row_length := by
    intro row hrow
    obtain ⟨row, hmem, rfl⟩ := List.mem_map.1 hrow
    rw [List.length_map]
    exact g.row_length row hmem

/-! ## Vertical stacking -/

/-- `f` above `g`; fails unless the widths agree. -/
def vstack (f g : Grid α) : Option (Grid α) :=
  if h : f.width = g.width then
    some {
      width := f.width
      rows := f.rows ++ g.rows
      row_length := by
        intro row hrow
        rcases List.mem_append.1 hrow with hrow | hrow
        · exact f.row_length row hrow
        · rw [g.row_length row hrow, h] }
  else none

theorem vstack_of_width_eq (h : f.width = g.width) :
    ∃ out, vstack f g = some out ∧ out.rows = f.rows ++ g.rows ∧ out.width = f.width := by
  rw [vstack, dif_pos h]
  exact ⟨_, rfl, rfl, rfl⟩

theorem height_of_rows_append (h : out.rows = f.rows ++ g.rows) :
    out.height = f.height + g.height := by
  rw [height, h, List.length_append]
  rfl

theorem get?_of_rows_append_left (h : out.rows = f.rows ++ g.rows) (hr : r < f.height) :
    out.get? r c = f.get? r c := by
  rw [get?, h, List.getElem?_append_left hr]
  rfl

theorem get?_of_rows_append_right (h : out.rows = f.rows ++ g.rows) (hr : f.height ≤ r) :
    out.get? r c = g.get? (r - f.height) c := by
  rw [get?, h, List.getElem?_append_right hr]
  rfl

/-! ## Horizontal stacking -/

/-- `f` to the left of `g`; fails unless the heights agree. -/
def beside (f g : Grid α) : Option (Grid α) :=
  if f.height = g.height then
    some {
      width := f.width + g.width
      rows := List.zipWith (· ++ ·) f.rows g.rows
      row_length := by
        intro row hrow
        obtain ⟨i, hi, rfl⟩ := List.mem_iff_getElem.1 hrow
        rw [List.getElem_zipWith, List.length_append, f.row_length _ (List.getElem_mem _),
          g.row_length _ (List.getElem_mem _)] }
  else none

/-- The arrays from left to right; fails on no array at all and on unequal heights. -/
def hstack : List (Grid α) → Option (Grid α)
  | [] => none
  | [g] => some g
  | f :: g :: gs => (hstack (g :: gs)).bind (beside f)

theorem beside_eq_some (h : beside f g = some out) :
    f.height = g.height ∧ out.height = f.height ∧ out.width = f.width + g.width ∧
      out.rows = List.zipWith (· ++ ·) f.rows g.rows := by
  unfold beside at h
  split at h
  · rename_i hh
    cases h
    refine ⟨hh, ?_, rfl, rfl⟩
    unfold height at hh ⊢
    rw [List.length_zipWith, ← hh, Nat.min_self]
  · cases h

theorem beside_of_height_eq (h : f.height = g.height) : ∃ out, beside f g = some out := by
  rw [beside, if_pos h]
  exact ⟨_, rfl⟩

theorem beside_get?_left (h : beside f g = some out) (hc : c < f.width) :
    out.get? r c = f.get? r c := by
  obtain ⟨hh, -, -, hrows⟩ := beside_eq_some h
  unfold get?
  rw [hrows, List.getElem?_zipWith]
  rcases Nat.lt_or_ge r f.height with hr | hr
  · have hr' : r < g.height := Nat.lt_of_lt_of_eq hr hh
    have hlen := f.row_length _ (List.getElem_mem hr)
    rw [List.getElem?_eq_getElem hr, List.getElem?_eq_getElem hr']
    simp only [Option.bind_some]
    exact List.getElem?_append_left (hlen ▸ hc)
  · have hr' : g.height ≤ r := Nat.le_trans (Nat.le_of_eq hh.symm) hr
    rw [List.getElem?_eq_none hr, List.getElem?_eq_none hr']

theorem beside_get?_right (h : beside f g = some out) :
    out.get? r (f.width + c) = g.get? r c := by
  obtain ⟨hh, -, -, hrows⟩ := beside_eq_some h
  unfold get?
  rw [hrows, List.getElem?_zipWith]
  rcases Nat.lt_or_ge r f.height with hr | hr
  · have hr' : r < g.height := Nat.lt_of_lt_of_eq hr hh
    have hlen := f.row_length _ (List.getElem_mem hr)
    rw [List.getElem?_eq_getElem hr, List.getElem?_eq_getElem hr']
    simp only [Option.bind_some]
    rw [← hlen, List.getElem?_append_right (Nat.le_add_right _ _), Nat.add_sub_cancel_left]
  · have hr' : g.height ≤ r := Nat.le_trans (Nat.le_of_eq hh.symm) hr
    rw [List.getElem?_eq_none hr, List.getElem?_eq_none hr']
    rfl

/-- A horizontal stack of arrays of one height has that height, and its width is the sum of
theirs. -/
theorem hstack_eq_some {gs : List (Grid α)} {h : Nat} (hne : gs ≠ [])
    (hh : ∀ g ∈ gs, g.height = h) :
    ∃ out, hstack gs = some out ∧ out.height = h ∧ out.width = (gs.map width).sum := by
  induction gs with
  | nil => exact absurd rfl hne
  | cons f gs ih =>
    have hf := hh f List.mem_cons_self
    cases gs with
    | nil => exact ⟨f, rfl, hf, by simp⟩
    | cons g gs =>
      obtain ⟨rest, hrest, hrh, hrw⟩ := ih (by simp) fun x hx => hh x (List.mem_cons_of_mem f hx)
      obtain ⟨out, hout⟩ := beside_of_height_eq (hf.trans hrh.symm)
      obtain ⟨-, hoh, how, -⟩ := beside_eq_some hout
      refine ⟨out, ?_, hoh.trans hf, ?_⟩
      · rw [hstack, hrest]
        exact hout
      · rw [how, hrw]
        simp

/-- The cells of a part of a horizontal stack, behind the widths of the parts before it. -/
theorem hstack_get? {before after : List (Grid α)} (hc : c < g.width)
    (h : hstack (before ++ g :: after) = some out) :
    out.get? r ((before.map width).sum + c) = g.get? r c := by
  induction before generalizing out with
  | nil =>
    simp only [List.nil_append, List.map_nil, List.sum_nil, Nat.zero_add] at h ⊢
    cases after with
    | nil => cases h; rfl
    | cons g' after =>
      obtain ⟨rest, -, hout⟩ := Option.bind_eq_some_iff.1 h
      exact beside_get?_left hout hc
  | cons f before ih =>
    obtain ⟨rest, hrest, hout⟩ : ∃ rest, hstack (before ++ g :: after) = some rest ∧
        beside f rest = some out := by
      cases before with
      | nil => exact Option.bind_eq_some_iff.1 h
      | cons f' before => exact Option.bind_eq_some_iff.1 h
    rw [List.map_cons, List.sum_cons, Nat.add_assoc, beside_get?_right hout]
    exact ih hrest

/-- The first column of the `i`-th part in a horizontal stack. -/
def offset (gs : List (Grid α)) (i : Nat) : Nat := ((gs.take i).map width).sum

theorem offset_succ {gs : List (Grid α)} {i : Nat} :
    offset (g :: gs) (i + 1) = g.width + offset gs i := rfl

/-- Every column of a horizontal stack is a column of exactly one of the parts. -/
theorem existsUnique_part {gs : List (Grid α)} (hc : c < (gs.map width).sum) :
    ∃! p : Nat × Nat, ∃ g, gs[p.1]? = some g ∧ p.2 < g.width ∧ c = offset gs p.1 + p.2 := by
  induction gs generalizing c with
  | nil => exact absurd hc (Nat.not_lt_zero c)
  | cons f gs ih =>
    by_cases hf : c < f.width
    · refine ⟨(0, c), ⟨f, rfl, hf, (Nat.zero_add c).symm⟩, ?_⟩
      intro ⟨i, d⟩ hd
      obtain ⟨g, hg, hdg, hcd⟩ := hd
      cases i with
      | zero => rw [hcd]; simp [offset]
      | succ i =>
        dsimp only at hcd
        rw [offset_succ] at hcd
        omega
    · have hrest : c - f.width < (gs.map width).sum := by
        rw [List.map_cons, List.sum_cons] at hc
        omega
      obtain ⟨⟨i, d⟩, ⟨g, hg, hd, hcd⟩, hunique⟩ := ih hrest
      refine ⟨(i + 1, d), ⟨g, hg, hd, ?_⟩, ?_⟩
      · dsimp only at hcd ⊢
        rw [offset_succ]
        omega
      · intro ⟨j, e⟩ he
        obtain ⟨g', hg', heg, hce⟩ := he
        cases j with
        | zero =>
          cases hg'
          simp only [offset, List.take_zero, List.map_nil, List.sum_nil] at hce
          omega
        | succ j =>
          dsimp only at hce
          rw [offset_succ] at hce
          have heq := hunique (j, e) ⟨g', hg', heg, by dsimp only; omega⟩
          cases heq
          rfl

end Grid
