import Mathlib.Data.List.Forall2
import Simian.Lib.Machine

/-! # Documents with several copies

Each of several editors has a copy of a document, taken when the editor began, and saving puts the
whole copy in the place of the document. A copy is what was taken and what its editor has done since
(`copy_of_run`), so the document is that of the editor who saved last: of what the others have saved
since that editor began nothing is left (`document_of_last`). -/

universe u v w

namespace Snapshots
variable {δ : Type u} {ο : Type v}

structure Conf (δ : Type u) where
  document : δ
  copies : List δ

/-- A further editor begins, one begins anew, or one edits its copy and saves it. -/
inductive Action (ο : Type v)
  | enter
  | reload (i : Nat)
  | edit (i : Nat) (op : ο)

def step (apply : δ → ο → δ) (s : Conf δ) : Action ο → Option (Conf δ)
  | .enter => some { s with copies := s.copies ++ [s.document] }
  | .reload i => s.copies[i]?.map fun _ => { s with copies := s.copies.set i s.document }
  | .edit i op => s.copies[i]?.map fun c => ⟨apply c op, s.copies.set i (apply c op)⟩

def machine (apply : δ → ο → δ) (document : δ) : Machine (Conf δ) (Action ο) where
  init := ⟨document, []⟩
  step := step apply

/-- What the editor `i` does. -/
def Action.own (i : Nat) : Action ο → List ο
  | .edit j op => if j = i then [op] else []
  | .enter | .reload _ => []

variable {apply : δ → ο → δ} {document c : δ} {s t : Conf δ} {a : Action ο} {as : List (Action ο)}
  {i : Nat} {op : ο}

theorem getElem?_set_self {xs : List δ} {x : δ} (h : xs[i]? = some c) :
    (xs.set i x)[i]? = some x := by
  obtain ⟨hlt, -⟩ := List.getElem?_eq_some_iff.1 h
  exact List.getElem?_set_self hlt

theorem run_reload (hi : s.copies[i]? = some c) : (machine apply document).run s [.reload i] =
    some { s with copies := s.copies.set i s.document } :=
  Machine.run_cons_some.2 ⟨_, congrArg (Option.map _) hi, rfl⟩

theorem run_edit (hi : s.copies[i]? = some c) : (machine apply document).run s [.edit i op] =
    some ⟨apply c op, s.copies.set i (apply c op)⟩ :=
  Machine.run_cons_some.2 ⟨_, congrArg (Option.map _) hi, rfl⟩

/-- An editor's copy is changed by that editor alone. -/
theorem copy_of_step (hi : s.copies[i]? = some c) (hkeep : a ≠ .reload i)
    (h : step apply s a = some t) : t.copies[i]? = some ((a.own i).foldl apply c) := by
  cases a with
  | enter =>
    cases h
    obtain ⟨hlt, -⟩ := List.getElem?_eq_some_iff.1 hi
    exact (List.getElem?_append_left hlt).trans hi
  | reload j =>
    obtain ⟨c', -, rfl⟩ := Option.map_eq_some_iff.1 h
    have hne : j ≠ i := fun heq => hkeep (heq ▸ rfl)
    exact (List.getElem?_set_ne hne).trans hi
  | edit j op =>
    obtain ⟨c', hc', rfl⟩ := Option.map_eq_some_iff.1 h
    by_cases heq : j = i
    · subst heq
      cases hi.symm.trans hc'
      rw [Action.own, if_pos rfl]
      exact getElem?_set_self hi
    · rw [Action.own, if_neg heq]
      exact (List.getElem?_set_ne heq).trans hi

theorem copy_of_run (hi : s.copies[i]? = some c) (hkeep : .reload i ∉ as)
    (hrun : (machine apply document).run s as = some t) :
    t.copies[i]? = some ((as.flatMap (Action.own i)).foldl apply c) := by
  induction as generalizing s c with
  | nil =>
    cases hrun
    exact hi
  | cons a as ih =>
    obtain ⟨s', hstep, hrest⟩ := Machine.run_cons_some.1 hrun
    obtain ⟨ha, has⟩ := List.ne_and_not_mem_of_not_mem_cons hkeep
    rw [List.flatMap_cons, List.foldl_append]
    exact ih (copy_of_step hi ha.symm hstep) has hrest

/-- Whoever saves leaves the copy as the document. -/
theorem document_of_edit (hi : s.copies[i]? = some c) (h : step apply s (.edit i op) = some t) :
    t.document = apply c op := by
  obtain ⟨c', hc', rfl⟩ := Option.map_eq_some_iff.1 h
  cases hi.symm.trans hc'
  rfl

/-- After an editor has entered and saved last, the document is the one that it found with its own
operations. -/
theorem document_of_last (hkeep : .reload s.copies.length ∉ as)
    (hrun : (machine apply document).run s (.enter :: as ++ [.edit s.copies.length op]) =
      some t) :
    t.document = (as.flatMap (Action.own s.copies.length) ++ [op]).foldl apply s.document := by
  obtain ⟨s₂, hbefore, hlast⟩ := Machine.run_append_some.1 hrun
  obtain ⟨s₁, hentered, hrest⟩ := Machine.run_cons_some.1 hbefore
  obtain ⟨t', hedit, hnil⟩ := Machine.run_cons_some.1 hlast
  cases hentered
  cases hnil
  have hcopy : (s.copies ++ [s.document])[s.copies.length]? = some s.document :=
    List.getElem?_concat_length
  rw [document_of_edit (copy_of_run hcopy hkeep hrest) hedit, List.foldl_append]
  rfl

/-! ## Related lists -/

section Forall₂
variable {α : Type u} {β : Type v} {R : α → β → Prop} {xs : List α} {ys : List β} {x : α} {y : β}

theorem forall₂_set (h : List.Forall₂ R xs ys) (hr : R x y) :
    List.Forall₂ R (xs.set i x) (ys.set i y) := by
  induction h generalizing i with
  | nil => exact .nil
  | cons hhead htail ih =>
    cases i with
    | zero => exact .cons hr htail
    | succ i => exact .cons hhead ih

theorem exists_of_forall₂ (h : List.Forall₂ R xs ys) (hx : xs[i]? = some x) :
    ∃ y, ys[i]? = some y ∧ R x y := by
  induction h generalizing i with
  | nil => cases hx
  | cons hhead htail ih =>
    cases i with
    | zero =>
      cases hx
      exact ⟨_, rfl, hhead⟩
    | succ i => exact ih hx

end Forall₂

end Snapshots
