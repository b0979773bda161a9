import Mathlib.Data.List.DropRight
import Simian.Memory.Persistence

/-! # The recent conversations

Calls with any arguments, and reopenings of the manager. A pair is held as it was stored, or as the
plain value that is read after it was written (`Recalled`), which for strings is the same. A limit
of zero recalls everything instead of nothing (`recalls_last_iff`). -/

universe u

namespace Simian.MemoryManager
open Json

variable {α : Type u}

/-- A call, or the end of the manager with the beginning of the next one on the same path. -/
inductive Action (α : Type u)
  | call (c : Call α)
  | reopen

/-- What the action does to the journal of the stored pairs. -/
def Action.journal : Action α → List (Journal.Op (Obj α))
  | .call (.log _ _) => []
  | .call (.store user_input simian_response) =>
    [.add (.dict [(.str "user", user_input), (.str "simian", simian_response)])]
  | .call .clear => [.clear]
  | .reopen => []

def Action.Serialisable : Action α → Prop
  | .call c => c.Serialisable
  | .reopen => True

/-- The pairs of `xs` and those stored by `as`, since the last `clear_memory`. -/
def stored (xs : List (Obj α)) (as : List (Action α)) : List (Obj α) :=
  Journal.after xs (as.flatMap Action.journal)

/-- `x` is the pair `y`, or what it is read as after it was written. -/
def Recalled (x y : Obj α) : Prop := x = y ∨ x = y.normal ∧ x.Plain

/-- The result is the list of the last `limit` of the pairs `xs`, or of all if they are fewer. -/
def RecallsLast (limit : Nat) (xs : List (Obj α)) (r : Except Error (Obj α)) : Prop :=
  ∃ ys, r = .ok (.list ys) ∧ List.Forall₂ Recalled ys (xs.rtake limit)

variable {s t : State α} {a : Action α} {as : List (Action α)} {xs ys : List (Obj α)}

theorem Recalled.normal {x y : Obj α} (h : Recalled x y) (hx : x.normal.Plain) :
    Recalled x.normal y := by
  rcases h with rfl | ⟨rfl, hplain⟩
  · exact .inr ⟨rfl, hx⟩
  · rw [hplain.normal_eq]
    exact .inr ⟨rfl, hplain⟩

theorem forall₂_normal (h : List.Forall₂ Recalled ys xs)
    (hys : (Obj.list (ys.map Obj.normal)).Plain) :
    List.Forall₂ Recalled (ys.map Obj.normal) xs := by
  induction h with
  | nil => exact .nil
  | cons hxy _ ih => exact .cons (hxy.normal hys.1) (ih hys.2)

theorem completed_eq_some {r : State α × Except Error Unit} :
    completed r = some t ↔ r = (t, .ok ()) := by
  obtain ⟨s, e⟩ := r
  cases e <;> simp [completed]

theorem recalled_iff_of_plain {x y : Obj α} (hy : y.Plain) : Recalled x y ↔ x = y := by
  refine ⟨fun h => ?_, .inl⟩
  rcases h with rfl | ⟨rfl, -⟩
  · rfl
  · exact hy.normal_eq

theorem fromEnd_of_pos {limit : Nat} (h : 0 < limit) :
    fromEnd (limit : Int) xs = xs.rtake limit := by
  rw [fromEnd, if_pos (Int.natCast_pos.2 h), Int.toNat_natCast, List.rtake]

theorem forall₂_rtake {limit : Nat} (h : List.Forall₂ Recalled ys xs) :
    List.Forall₂ Recalled (ys.rtake limit) (xs.rtake limit) := by
  rw [List.rtake, List.rtake, h.length_eq]
  exact List.forall₂_drop _ h

variable [Scalar α]

/-- A call that raises is not enabled. -/
def Action.run (db_path : DbPath) (s : State α) : Action α → Option (State α)
  | .call c => completed (c.run none s)
  | .reopen => opened db_path s.file

def managers (db_path : DbPath) (s : State α) : Machine (State α) (Action α) where
  init := s
  step := Action.run db_path

/-- The conversations in the memory are the recalled pairs `xs`, and the file decodes to what the
memory is written as. -/
structure Remembers (s : State α) (xs : List (Obj α)) : Prop where
  lists : ∃ ys zs, Lists s.memory ys zs ∧ List.Forall₂ Recalled ys xs
  strKeys : StrKeys s.memory
  writable : s.memory.Writable
  file : _load_memory s.file = .ok s.memory.normal

theorem Remembers.plain (h : Remembers s xs) : s.memory.normal.Plain := by
  have hfile := h.file
  cases hs : s.file with
  | none =>
    rw [hs] at hfile
    cases hfile
  | some p =>
    rw [hs, load_memory_eq_ok] at hfile
    exact plain_of_load hfile

/-- A serialisable call does not raise. -/
theorem Remembers.call {c : Call α} (h : Remembers s xs) (hc : c.Serialisable) :
    ∃ t, completed (c.run none s) = some t ∧ Remembers t (c.conversations xs) := by
  obtain ⟨ys, zs, hs, hrecalled⟩ := h.lists
  obtain ⟨new, zs', hnew, hlists, hkeys⟩ := Call.completes_of_lists hs h.strKeys c
  have hwritable : new.Writable := (Call.completes_writable hnew).2 ⟨.inr h.writable, hc⟩
  have hrun : c.run none s = (⟨some (dump 4 new).text, new⟩, .ok ()) := by
    rw [Call.run_eq hnew, Option.isSome_none, Bool.and_false, if_neg Bool.false_ne_true,
      write_of_writable hwritable]
  refine ⟨_, completed_eq_some.2 hrun, ⟨_, zs', hlists, ?_⟩, hkeys, hwritable, Call.run_saved hrun⟩
  cases c with
  | log timestamp voice_command => exact hrecalled
  | store user_input simian_response =>
    exact List.rel_append hrecalled (.cons (.inl rfl) .nil)
  | clear => exact .nil

variable {db_path : DbPath}

theorem Remembers.opened_eq (h : Remembers s xs) (hpath : db_path.NamesFile) :
    opened db_path s.file = some ⟨s.file, s.memory.normal⟩ := by
  have hfile := h.file
  cases hs : s.file with
  | none =>
    rw [hs] at hfile
    cases hfile
  | some p =>
    rw [hs, load_memory_eq_ok] at hfile
    exact (opened_some hpath).2 ⟨_, hfile, rfl⟩

theorem Remembers.reopen (h : Remembers s xs) (hpath : db_path.NamesFile) :
    ∃ t, opened db_path s.file = some t ∧ Remembers t xs := by
  have hplain := h.plain
  obtain ⟨ys, zs, hlists, hrecalled⟩ := h.lists
  have hnormal := hlists.normal h.strKeys
  obtain ⟨kvs, hdict⟩ := hnormal.dict
  refine ⟨_, h.opened_eq hpath, ⟨_, _, hnormal, forall₂_normal hrecalled ?_⟩, ?_,
    hplain.writable, ?_⟩
  · exact hnormal.plain_conversations hplain
  · show StrKeys s.memory.normal
    rw [hdict] at hplain ⊢
    exact plain_strKeys hplain
  · show _load_memory s.file = .ok s.memory.normal.normal
    rw [hplain.normal_eq]
    exact h.file

theorem Remembers.step (h : Remembers s xs) (hpath : db_path.NamesFile) (ha : a.Serialisable) :
    ∃ t, a.run db_path s = some t ∧ Remembers t (Journal.after xs a.journal) := by
  cases a with
  | call c =>
    obtain ⟨t, hrun, ht⟩ := h.call ha
    refine ⟨t, hrun, ?_⟩
    cases c <;> exact ht
  | reopen => exact h.reopen hpath

theorem Remembers.run (h : Remembers s xs) (hpath : db_path.NamesFile)
    (has : ∀ a ∈ as, a.Serialisable) :
    ∃ t, (managers db_path s₀).run s as = some t ∧ Remembers t (stored xs as) := by
  induction as generalizing s xs with
  | nil => exact ⟨s, rfl, h⟩
  | cons a as ih =>
    obtain ⟨ha, has⟩ := List.forall_mem_cons.1 has
    obtain ⟨s', hs', h'⟩ := h.step hpath ha
    obtain ⟨t, hrun, ht⟩ := ih h' has
    refine ⟨t, Machine.run_cons_some.2 ⟨s', hs', hrun⟩, ?_⟩
    rw [stored, Journal.after] at ht ⊢
    rwa [List.flatMap_cons, List.foldl_append]

theorem Starts.remembers {file : Option (List Char)} {l : List (Entry α)} (h : Starts file l)
    (hpath : db_path.NamesFile) :
    ∃ s, opened db_path file = some s ∧ Remembers s (conversations l) := by
  obtain ⟨s, hs, ht⟩ := h.tracks hpath
  obtain ⟨kvs, hdict⟩ := ht.lists.dict
  have hplain := ht.plain
  refine ⟨s, hs, ⟨_, _, ht.lists, List.forall₂_same.2 fun x _ => .inl rfl⟩, ?_, hplain.writable, ?_⟩
  · rw [hdict] at hplain ⊢
    exact plain_strKeys hplain
  · rw [hplain.normal_eq]
    exact ht.file

/-- The pairs are recalled as asked, unless all are returned for a limit of zero. -/
theorem Remembers.recalls_iff (h : Remembers s xs) {limit : Nat} :
    RecallsLast limit xs (get_recent_conversation limit s) ↔ 0 < limit ∨ xs = [] := by
  obtain ⟨ys, zs, hlists, hrecalled⟩ := h.lists
  rw [hlists.recent]
  rcases Nat.eq_zero_or_pos limit with rfl | hpos
  · rw [or_iff_right (lt_irrefl 0)]
    constructor
    · intro hlast
      obtain ⟨ys', heq, hys'⟩ := hlast
      cases heq
      rw [List.rtake_zero] at hys'
      have hnil : ys = [] := List.forall₂_nil_right_iff.1 hys'
      rw [hnil] at hrecalled
      exact List.forall₂_nil_left_iff.1 hrecalled
    · intro hnil
      subst hnil
      exact ⟨ys, rfl, by rwa [List.rtake_nil]⟩
  · refine iff_of_true ⟨_, rfl, ?_⟩ (.inl hpos)
    rw [fromEnd_of_pos hpos]
    exact forall₂_rtake hrecalled

/-- From a path that is absent or holds a file of a manager, after any serialisable calls and
reopenings. -/
theorem recalls_last_iff {file : Option (List Char)} {l : List (Entry α)} (h : Starts file l)
    (hpath : db_path.NamesFile) (has : ∀ a ∈ as, a.Serialisable) :
    ∃ s t, opened db_path file = some s ∧ (managers db_path s).run s as = some t ∧ ∀ limit : Nat,
      (RecallsLast limit (stored (conversations l) as) (get_recent_conversation limit t) ↔
        0 < limit ∨ stored (conversations l) as = []) := by
  obtain ⟨s, hs, h⟩ := h.remembers hpath
  obtain ⟨t, hrun, ht⟩ := @Remembers.run α _ _ _ _ db_path s h hpath has
  exact ⟨s, t, hs, hrun, fun limit => ht.recalls_iff⟩

-- The first pair is recalled from the file of the first manager.
theorem recalls_last_two : ∃ s t : State Constant, opened simian_memory none = some s ∧
    (managers simian_memory s).run s [.call (.store (.str "hi") (.str "hello")), .reopen,
      .call (.store (.str "bye") (.str "goodbye"))] = some t ∧
      RecallsLast 2 [.dict [(.str "user", .str "hi"), (.str "simian", .str "hello")],
        .dict [(.str "user", .str "bye"), (.str "simian", .str "goodbye")]]
          (get_recent_conversation 2 t) := by
  have has : ∀ a ∈ [Action.call (.store (.str "hi") (.str "hello")), .reopen,
      .call (.store (.str "bye") (.str "goodbye"))], Action.Serialisable (α := Constant) a := by
    simp [Action.Serialisable, Call.Serialisable, Obj.Writable]
  obtain ⟨s, t, hs, hrun, h⟩ :=
    recalls_last_iff (l := []) (.inl ⟨rfl, rfl⟩) simian_memory_namesFile has
  exact ⟨s, t, hs, hrun, (h 2).2 (.inl Nat.two_pos)⟩

/-- The limit zero after one conversation. -/
theorem recalls_all_for_zero : ∃ s t : State Constant, opened simian_memory none = some s ∧
    (managers simian_memory s).run s [.call (.store (.str "hi") (.str "hello"))] = some t ∧
      get_recent_conversation 0 t =
        .ok (.list [.dict [(.str "user", .str "hi"), (.str "simian", .str "hello")]]) ∧
      ¬ RecallsLast 0 (stored [] [.call (.store (.str "hi") (.str "hello"))])
        (get_recent_conversation 0 t) := by
  have hs : opened simian_memory none = some (fresh : State Constant) :=
    opened_none simian_memory_namesFile
  refine ⟨_, _, hs, rfl, rfl, ?_⟩
  intro h
  obtain ⟨ys, heq, hys⟩ := h
  cases heq
  cases hys

end Simian.MemoryManager
