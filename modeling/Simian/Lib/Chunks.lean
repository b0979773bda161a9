import Mathlib.Algebra.Order.Ring.Nat
import Mathlib.Data.List.Basic

/-! # Reading in chunks

`readTo size limit` reads chunks of `size` from a stream until it ends or at least `limit` has been
read. It reads whole chunks, so it stops at the first multiple of `size` that reaches the limit
(`flatten_readTo`), and reads exactly `limit` only where the two agree (`take_reach_iff`). A
`Digest` is what a stream is fed to in chunks; only their concatenation counts. -/

universe u v w

namespace Chunks
variable {α : Type u} {size limit total : Nat} {rest : List α}

/-- The chunks that are read from `rest` when `total` has been read before. -/
def readTo (size limit total : Nat) (rest : List α) : List (List α) :=
  let chunk := rest.take size
  if _h : chunk.length = 0 then []
  else if limit ≤ total + chunk.length then [chunk]
  else chunk :: readTo size limit (total + chunk.length) (rest.drop size)
termination_by rest.length
decreasing_by
  rw [List.length_take] at _h
  rw [List.length_drop]
  omega

/-- How far a limit makes the reading go: a positive number of whole chunks. -/
def reach (size limit : Nat) : Nat := size * max 1 ((limit + (size - 1)) / size)

theorem reach_of_le (hsize : 0 < size) (h : limit ≤ size) : reach size limit = size := by
  have hdiv : (limit + (size - 1)) / size ≤ 1 := by
    rw [Nat.div_le_iff_le_mul_add_pred hsize]
    omega
  rw [reach, max_eq_left hdiv, Nat.mul_one]

theorem reach_of_lt (hsize : 0 < size) (h : size < limit) :
    reach size limit = size + reach size (limit - size) := by
  have hstep : (limit + (size - 1)) / size = (limit - size + (size - 1)) / size + 1 := by
    rw [← Nat.add_div_right _ hsize]
    congr 1
    omega
  have hpos : 1 ≤ (limit - size + (size - 1)) / size := by
    rw [Nat.one_le_div_iff hsize]
    omega
  rw [reach, reach, hstep, max_eq_right (Nat.le_add_left 1 _), max_eq_right hpos, Nat.mul_succ,
    Nat.add_comm]

theorem size_le_reach : size ≤ reach size limit := Nat.le_mul_of_pos_right size (by omega)

theorem flatten_readTo (hsize : 0 < size) :
    (readTo size limit total rest).flatten = rest.take (reach size (limit - total)) := by
  fun_induction readTo size limit total rest with
  | case1 total rest chunk hempty =>
    have hnil : rest = [] := by
      rw [List.length_take] at hempty
      exact List.length_eq_zero_iff.1 (by omega)
    rw [hnil, List.take_nil, List.flatten_nil]
  | case2 total rest chunk _ hreached =>
    have hle : limit - total ≤ size := by
      have hchunk : chunk.length ≤ size := List.length_take_le size rest
      omega
    rw [reach_of_le hsize hle, List.flatten_singleton]
  | case3 total rest chunk _ hmore ih =>
    have hchunk : chunk.length = min size rest.length := List.length_take
    rw [List.flatten_cons, ih]
    by_cases hfull : size ≤ rest.length
    · rw [min_eq_left hfull] at hchunk
      have hreach : reach size (limit - total) = size + reach size (limit - total - size) :=
        reach_of_lt hsize (by omega)
      rw [hreach, List.take_add, hchunk, Nat.sub_sub]
    · have hall : rest.length ≤ size := le_of_not_ge hfull
      have hreach : rest.length ≤ reach size (limit - total) := le_trans hall size_le_reach
      rw [List.drop_of_length_le hall, List.take_nil, List.append_nil,
        List.take_of_length_le hreach]
      exact List.take_of_length_le hall

theorem le_reach (hsize : 0 < size) : limit ≤ reach size limit := by
  have hdiv : limit ≤ size * ((limit + (size - 1)) / size) := by
    have hmod := Nat.div_add_mod (limit + (size - 1)) size
    have hlt := Nat.mod_lt (limit + (size - 1)) hsize
    omega
  exact le_trans hdiv (Nat.mul_le_mul_left size (le_max_right 1 _))

theorem reach_eq_iff (hsize : 0 < size) : reach size limit = limit ↔ 0 < limit ∧ size ∣ limit := by
  constructor
  · intro h
    refine ⟨?_, h ▸ Dvd.intro _ rfl⟩
    rw [← h]
    exact lt_of_lt_of_le hsize size_le_reach
  · intro h
    obtain ⟨hpos, k, rfl⟩ := h
    have hk : 1 ≤ k := Nat.pos_of_mul_pos_left hpos
    have hdiv : (size * k + (size - 1)) / size = k := by
      rw [Nat.mul_add_div hsize, Nat.div_eq_of_lt (by omega), Nat.add_zero]
    rw [reach, hdiv, max_eq_right hk]

/-- A reading to the limit reads what the limit allows, and no more. -/
theorem take_reach_iff (hsize : 0 < size) :
    rest.take (reach size limit) = rest.take limit ↔
      rest.length ≤ limit ∨ 0 < limit ∧ size ∣ limit := by
  have hle : limit ≤ reach size limit := le_reach hsize
  rw [List.take_eq_take_iff, ← reach_eq_iff hsize]
  omega

/-! ## What a stream is fed to -/

/-- An object that takes in a stream piece by piece. -/
structure Digest (α : Type u) (σ : Type v) (δ : Type w) where
  start : σ
  update : σ → List α → σ
  result : σ → δ
  update_nil : ∀ s, update s [] = s
  update_append : ∀ s xs ys, update (update s xs) ys = update s (xs ++ ys)

namespace Digest
variable {σ : Type v} {δ : Type w}

/-- The digest of a whole stream. -/
def of (D : Digest α σ δ) (xs : List α) : δ := D.result (D.update D.start xs)

theorem foldl_update (D : Digest α σ δ) (s : σ) (chunks : List (List α)) :
    chunks.foldl D.update s = D.update s chunks.flatten := by
  induction chunks generalizing s with
  | nil => rw [List.foldl_nil, List.flatten_nil, D.update_nil]
  | cons chunk chunks ih =>
    rw [List.foldl_cons, ih, D.update_append, List.flatten_cons]

/-- The digest that is the stream itself. -/
def stream : Digest α (List α) (List α) where
  start := []
  update := List.append
  result := id
  update_nil := List.append_nil
  update_append := List.append_assoc

theorem of_stream (xs : List α) : stream.of xs = xs := rfl

end Digest

end Chunks
