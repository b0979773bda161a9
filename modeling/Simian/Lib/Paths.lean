import Mathlib.Data.List.DropRight

/-! # Parts of a path

`dirname`, `basename` and `splitext` split a path behind its last separator, and the name there at
its last dot. Dots at the beginning of a name do not start an extension. -/

universe u

namespace List
variable {α : Type u} [DecidableEq α] {a : α} {xs before after : List α}

/-- What is before and after the last `a`. -/
def rsplit (a : α) : List α → Option (List α × List α)
  | [] => none
  | x :: xs =>
    match rsplit a xs with
    | some (before, after) => some (x :: before, after)
    | none => if x = a then some ([], xs) else none

theorem rsplit_eq_none : rsplit a xs = none ↔ a ∉ xs := by
  induction xs with
  | nil => simp [rsplit]
  | cons x xs ih =>
    rw [rsplit, mem_cons, not_or, ← ih]
    cases rsplit a xs with
    | none => simp [eq_comm]
    | some p => simp

theorem rsplit_append (h : a ∉ after) : rsplit a (before ++ a :: after) = some (before, after) := by
  induction before with
  | nil => rw [nil_append, rsplit, rsplit_eq_none.2 h, if_pos rfl]
  | cons x before ih => rw [cons_append, rsplit, ih]

theorem rsplit_eq_some :
    rsplit a xs = some (before, after) ↔ xs = before ++ a :: after ∧ a ∉ after := by
  refine ⟨fun h => ?_, fun h => h.1 ▸ rsplit_append h.2⟩
  induction xs generalizing before with
  | nil => cases h
  | cons x xs ih =>
    rw [rsplit] at h
    split at h
    · rename_i hxs
      cases h
      obtain ⟨rfl, hafter⟩ := ih hxs
      exact ⟨rfl, hafter⟩
    · rename_i hxs
      split at h
      · rename_i hx
        cases h
        exact ⟨congrArg (· :: _) hx, rsplit_eq_none.1 hxs⟩
      · cases h

theorem two_le_length_splitOn : 2 ≤ (xs.splitOn a).length ↔ a ∈ xs := by
  constructor
  · intro hlength
    by_contra hnot
    rw [splitOn_eq_singleton hnot, length_singleton] at hlength
    omega
  · intro hmem
    obtain ⟨before, after, rfl⟩ := append_of_mem hmem
    have hbefore := length_pos_of_ne_nil (splitOn_ne_nil a before)
    have hafter := length_pos_of_ne_nil (splitOn_ne_nil a after)
    rw [splitOn_append_cons_self, length_append]
    omega

end List

namespace Paths

/-- A name without its extension, and the extension. -/
def splitName (name : List Char) : List Char × List Char :=
  match name.rsplit '.' with
  | some (stem, ext) => if stem.any (· ≠ '.') then (stem, '.' :: ext) else (name, [])
  | none => (name, [])

variable (isSep : Char → Bool)

def basename (path : String) : String :=
  String.ofList (path.toList.rtakeWhile fun c => !isSep c)

/-- Separators at the end of a directory are left out, unless there is nothing else. -/
def dirname (path : String) : String :=
  let head := path.toList.rdropWhile fun c => !isSep c
  String.ofList (if head.all isSep then head else head.rdropWhile isSep)

def splitext (path : String) : String × String :=
  let (stem, ext) := splitName (path.toList.rtakeWhile fun c => !isSep c)
  (String.ofList (path.toList.rdropWhile (fun c => !isSep c) ++ stem), String.ofList ext)

variable {isSep} {name path : String}

theorem dirname_prefix : (dirname isSep path).toList <+: path.toList := by
  rw [dirname, String.toList_ofList]
  have hhead := List.rdropWhile_prefix (fun c => !isSep c) path.toList
  split
  · exact hhead
  · exact (List.rdropWhile_prefix isSep _).trans hhead

theorem splitext_ext (path : String) :
    (splitext isSep path).2 = String.ofList (splitName (basename isSep path).toList).2 := by
  rw [splitext, basename, String.toList_ofList]

/-- A name is the last part of itself. -/
theorem rtakeWhile_name (h : ∀ c ∈ name.toList, isSep c = false) :
    name.toList.rtakeWhile (fun c => !isSep c) = name.toList := by
  apply List.rtakeWhile_eq_self_iff.mpr
  intro c hc
  rw [h c hc]
  rfl

theorem splitext_name (h : ∀ c ∈ name.toList, isSep c = false) : splitext isSep name =
    (String.ofList (splitName name.toList).1, String.ofList (splitName name.toList).2) := by
  have hdir : name.toList.rdropWhile (fun c => !isSep c) = [] := by
    apply List.rdropWhile_eq_nil_iff.mpr
    intro c hc
    rw [h c hc]
    rfl
  rw [splitext, rtakeWhile_name h, hdir]
  rfl

variable {stem ext cs : List Char}

/-- There is an extension if something other than a dot is before the last dot. -/
theorem splitName_append (h : '.' ∉ ext) : splitName (stem ++ '.' :: ext) =
    if stem.any (· ≠ '.') then (stem, '.' :: ext) else (stem ++ '.' :: ext, []) := by
  rw [splitName, List.rsplit_append h]

theorem splitName_of_not_mem (h : '.' ∉ cs) : splitName cs = (cs, []) := by
  rw [splitName, List.rsplit_eq_none.2 h]

theorem splitName_of_dots (h : cs.any (· ≠ '.') = false) : (splitName cs).2 = [] := by
  rw [splitName]
  split
  · rename_i stem ext hsplit
    obtain ⟨rfl, -⟩ := List.rsplit_eq_some.1 hsplit
    rw [List.any_append, Bool.or_eq_false_iff] at h
    rw [h.1]
    rfl
  · rfl

/-- A name with dots has no extension exactly if all of them are at its beginning. -/
theorem splitName_ext_eq_nil (h : '.' ∈ cs) : (splitName cs).2 = [] ↔
    ∃ k rest, cs = List.replicate (k + 1) '.' ++ rest ∧ '.' ∉ rest := by
  obtain ⟨⟨stem, ext⟩, hsplit⟩ :=
    Option.ne_none_iff_exists'.1 (mt List.rsplit_eq_none.1 (not_not.2 h))
  obtain ⟨rfl, hext⟩ := List.rsplit_eq_some.1 hsplit
  rw [splitName_append hext]
  split
  · rename_i hstem
    obtain ⟨c, hc, hdot⟩ := List.any_eq_true.1 hstem
    refine iff_of_false (List.cons_ne_nil _ _) fun hex => ?_
    obtain ⟨k, rest, heq, hrest⟩ := hex
    rcases List.append_eq_append_iff.1 heq with ⟨as, hdots, -⟩ | ⟨bs, -, hbs⟩
    · have hmem := List.mem_append_left as hc
      rw [← hdots] at hmem
      exact of_decide_eq_true hdot (List.eq_of_mem_replicate hmem)
    · rw [hbs] at hrest
      exact hrest (List.mem_append_right bs List.mem_cons_self)
  · rename_i hstem
    have hdots : stem = List.replicate stem.length '.' := by
      apply List.eq_replicate_of_mem
      intro c hc
      by_contra hne
      exact hstem (List.any_eq_true.2 ⟨c, hc, decide_eq_true hne⟩)
    refine iff_of_true rfl ⟨stem.length, ext, ?_, hext⟩
    rw [List.replicate_succ', ← hdots, List.append_assoc]
    rfl

end Paths
