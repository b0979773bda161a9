import Mathlib.Data.List.Basic

/-! # Programs that stop at a failure

`upTo p xs` is `xs` up to its first element with `p`, which is still in it: the calls of a straight
program in which some raise, or the items of a loop that ends with the first failure. -/

universe u v

theorem Except.bind_eq_ok {ε : Type u} {α β : Type v} {x : Except ε α} {f : α → Except ε β}
    {b : β} : x.bind f = .ok b ↔ ∃ a, x = .ok a ∧ f a = .ok b := by
  cases x with
  | error e => simp [Except.bind]
  | ok a => simp [Except.bind]

theorem Except.bind_eq_error {ε : Type u} {α β : Type v} {x : Except ε α} {f : α → Except ε β}
    {e : ε} : x.bind f = .error e ↔ x = .error e ∨ ∃ a, x = .ok a ∧ f a = .error e := by
  cases x with
  | error e' => simp [Except.bind]
  | ok a => simp [Except.bind]

namespace List
variable {α : Type u} {p : α → Bool} {xs : List α} {x : α}

def upTo (p : α → Bool) : List α → List α
  | [] => []
  | x :: xs => if p x then [x] else x :: upTo p xs

theorem upTo_cons_of_neg (h : p x = false) : upTo p (x :: xs) = x :: upTo p xs := by
  rw [upTo, h]
  rfl

theorem upTo_cons_of_pos (h : p x = true) : upTo p (x :: xs) = [x] := if_pos h

/-- Nothing is lost exactly if only the last element fails. -/
theorem upTo_eq_self_iff : upTo p xs = xs ↔ ∀ x ∈ xs.dropLast, p x = false := by
  induction xs with
  | nil => simp [upTo]
  | cons x xs ih =>
    cases xs with
    | nil => simp [upTo]
    | cons y ys =>
      rw [dropLast_cons_cons, forall_mem_cons, ← ih]
      cases hx : p x with
      | true => simp [upTo_cons_of_pos hx]
      | false => simp [upTo_cons_of_neg hx]

/-- The last element is reached exactly if none before it fails. -/
theorem mem_upTo_concat (hx : x ∉ xs) : x ∈ upTo p (xs ++ [x]) ↔ ∀ y ∈ xs, p y = false := by
  induction xs with
  | nil => simp [upTo]
  | cons y ys ih =>
    obtain ⟨hne, hys⟩ := not_or.1 (mt mem_cons.2 hx)
    rw [forall_mem_cons, ← ih hys, cons_append]
    cases hy : p y with
    | true => simp [upTo_cons_of_pos hy, hne]
    | false => simp [upTo_cons_of_neg hy, hne]

theorem mem_of_mem_upTo (h : x ∈ upTo p xs) : x ∈ xs := by
  induction xs with
  | nil => exact h
  | cons y ys ih =>
    cases hy : p y with
    | true =>
      rw [upTo_cons_of_pos hy, mem_singleton] at h
      exact mem_cons.2 (.inl h)
    | false =>
      rw [upTo_cons_of_neg hy] at h
      exact mem_cons.2 ((mem_cons.1 h).imp id ih)

end List
