import Mathlib.Order.Lattice
import Mathlib.Data.List.Induction

/-! # First maxima

`scan` goes through candidates in order and keeps the best so far. A candidate takes its place
only by a strictly greater score, and without one the score to beat is `least`. What is left is
the first of the candidates with the greatest score (`FirstMax`), unless none scores above
`least`. -/

universe u v

/-- `x` is the first of `xs` among those with the greatest score. -/
structure FirstMax {α : Type u} {β : Type v} [LinearOrder β] (score : α → β) (xs : List α)
    (x : α) : Prop where
  position : ∃ before after, xs = before ++ x :: after ∧ ∀ y ∈ before, score y < score x
  greatest : ∀ y ∈ xs, score y ≤ score x

namespace FirstMax
variable {α : Type u} {β : Type v} [LinearOrder β] {score : α → β} {least : β} {xs : List α}
  {x y : α} {best : Option α}

/-- The score that the next candidate has to beat. -/
def toBeat (score : α → β) (least : β) (best : Option α) : β := best.elim least score

def better (score : α → β) (least : β) (best : Option α) (y : α) : Option α :=
  if toBeat score least best < score y then some y else best

def scan (score : α → β) (least : β) (xs : List α) : Option α :=
  xs.foldl (better score least) none

theorem scan_snoc : scan score least (xs ++ [y]) = better score least (scan score least xs) y := by
  rw [scan, List.foldl_append]
  rfl

theorem mem (h : FirstMax score xs x) : x ∈ xs := by
  obtain ⟨before, after, rfl, -⟩ := h.position
  exact List.mem_append_right before List.mem_cons_self

/-- In a list ordered by `r`, what comes before the first maximum scores less. -/
theorem lt_of_pairwise {r : α → α → Prop} (h : FirstMax score xs x) (hr : xs.Pairwise r)
    (hy : y ∈ xs) (hyx : r y x) (hxy : ¬ r x y) : score y < score x := by
  obtain ⟨before, after, rfl, hbefore⟩ := h.position
  rcases List.mem_append.1 hy with hy | hy
  · exact hbefore y hy
  · rcases List.mem_cons.1 hy with rfl | hy
    · exact absurd hyx hxy
    · exact absurd ((List.pairwise_cons.1 (List.pairwise_append.1 hr).2.1).1 y hy) hxy

/-- A later candidate with a strictly greater score is the new first maximum. -/
theorem snoc_of_lt (h : ∀ z ∈ xs, score z < score y) : FirstMax score (xs ++ [y]) y where
  position := ⟨xs, [], rfl, h⟩
  greatest z hz := by
    rcases List.mem_append.1 hz with hz | hz
    · exact le_of_lt (h z hz)
    · rw [List.mem_singleton.1 hz]

/-- A later candidate with no greater score changes nothing. -/
theorem snoc_of_le (h : FirstMax score xs x) (hy : score y ≤ score x) :
    FirstMax score (xs ++ [y]) x where
  position := by
    obtain ⟨before, after, rfl, hbefore⟩ := h.position
    exact ⟨before, after ++ [y], by simp, hbefore⟩
  greatest z hz := by
    rcases List.mem_append.1 hz with hz | hz
    · exact h.greatest z hz
    · rw [List.mem_singleton.1 hz]
      exact hy

/-- What a scan is left with. -/
def Kept (score : α → β) (least : β) (xs : List α) : Option α → Prop
  | none => ∀ y ∈ xs, score y ≤ least
  | some x => least < score x ∧ FirstMax score xs x

theorem Kept.le_toBeat (h : Kept score least xs best) (hy : y ∈ xs) :
    score y ≤ toBeat score least best := by
  cases best with
  | none => exact h y hy
  | some x => exact h.2.greatest y hy

theorem Kept.least_le (h : Kept score least xs best) : least ≤ toBeat score least best := by
  cases best with
  | none => exact le_refl least
  | some x => exact le_of_lt h.1

theorem Kept.better (h : Kept score least xs best) :
    Kept score least (xs ++ [y]) (better score least best y) := by
  rw [FirstMax.better]
  split
  · rename_i hlt
    refine ⟨lt_of_le_of_lt h.least_le hlt, snoc_of_lt fun z hz => ?_⟩
    exact lt_of_le_of_lt (h.le_toBeat hz) hlt
  · rename_i hlt
    have hle : score y ≤ toBeat score least best := le_of_not_gt hlt
    cases best with
    | none =>
      intro z hz
      rcases List.mem_append.1 hz with hz | hz
      · exact h z hz
      · rw [List.mem_singleton.1 hz]
        exact hle
    | some x => exact ⟨h.1, h.2.snoc_of_le hle⟩

theorem kept_scan : Kept score least xs (scan score least xs) := by
  induction xs using List.reverseRecOn with
  | nil => exact fun y hy => absurd hy List.not_mem_nil
  | append_singleton xs y ih =>
    rw [scan_snoc]
    exact ih.better

/-- A scan finds a candidate exactly when one of them beats `least`. -/
theorem isSome_scan : (scan score least xs).isSome ↔ ∃ y ∈ xs, least < score y := by
  have h : Kept score least xs (scan score least xs) := kept_scan
  cases hs : scan score least xs with
  | none =>
    rw [hs] at h
    refine iff_of_false (by simp) ?_
    rintro ⟨y, hy, hlt⟩
    exact absurd hlt (not_lt.2 (h y hy))
  | some x =>
    rw [hs] at h
    exact iff_of_true rfl ⟨x, h.2.mem, h.1⟩

end FirstMax
