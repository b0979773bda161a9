import Simian.Lib.Machine

/-! # Journals

A journal is a list of entries to which entries are added at the end and which can be cleared.
After a run it holds the entries added since the last `clear` (`after_clear`), behind the old ones
if there was none (`after_adds`). -/

universe u v w

namespace Journal

inductive Op (ε : Type u)
  | add (x : ε)
  | clear

variable {ε : Type u}

def apply (l : List ε) : Op ε → List ε
  | .add x => l ++ [x]
  | .clear => []

def machine (l : List ε) : Machine (List ε) (Op ε) where
  init := l
  step l op := some (apply l op)

/-- What a journal of `l` holds after `ops`. -/
def after (l : List ε) (ops : List (Op ε)) : List ε := ops.foldl apply l

variable {l l₀ xs : List ε} {ops : List (Op ε)}

theorem run_eq : (machine l₀).run l ops = some (after l ops) := by
  induction ops generalizing l with
  | nil => rfl
  | cons op ops ih => exact ih

theorem after_adds : after l (xs.map .add) = l ++ xs := by
  induction xs generalizing l with
  | nil => exact (List.append_nil l).symm
  | cons x xs ih =>
    rw [List.map_cons, after, List.foldl_cons, ← after, ih, apply, List.append_assoc]
    rfl

theorem after_clear : after l (ops ++ .clear :: xs.map .add) = xs := by
  rw [after, List.foldl_append, List.foldl_cons, ← after, after_adds]
  rfl

end Journal
