import Mathlib.Data.List.Perm.Basic

/-! # Routers

Routers are mounted one after another, and the first route for what is asked for answers. The answer
is independent of the order of the routers exactly if any two that have a route for it answer the
same (`agree_iff`). -/

universe u v w

namespace Routing
variable {κ : Type u} {η : Type v} {ω : Type w} [BEq κ]

abbrev Router (κ : Type u) (η : Type v) := List (κ × η)

variable {routers : List (Router κ η)} {k : κ} {h : η}

/-- The handler of a request to routers that are mounted in this order. -/
def handler (routers : List (Router κ η)) (k : κ) : Option η := routers.flatten.lookup k

theorem handler_eq_none : handler routers k = none ↔ ∀ r ∈ routers, r.lookup k = none := by
  induction routers with
  | nil => simp [handler]
  | cons r routers ih =>
    rw [List.forall_mem_cons, ← ih, handler, List.flatten_cons, List.lookup_append, handler,
      Option.or_eq_none_iff]

theorem mem_of_handler (hk : handler routers k = some h) : ∃ r ∈ routers, r.lookup k = some h := by
  induction routers with
  | nil => cases hk
  | cons r routers ih =>
    rw [handler, List.flatten_cons, List.lookup_append, Option.or_eq_some_iff] at hk
    rcases hk with hk | ⟨-, hk⟩
    · exact ⟨r, List.mem_cons_self, hk⟩
    · obtain ⟨r', hr', hk⟩ := ih hk
      exact ⟨r', List.mem_cons_of_mem r hr', hk⟩

theorem lookup_map {η' : Type w} {f : η → η'} {router : Router κ η} :
    (router.map fun route => (route.1, f route.2)).lookup k = (router.lookup k).map f := by
  induction router with
  | nil => rfl
  | cons route router ih =>
    rw [List.map_cons, List.lookup_cons, List.lookup_cons, ih]
    split <;> rfl

/-- The same routes with other handlers. -/
theorem handler_map {η' : Type w} {f : η → η'} :
    handler (routers.map fun r => r.map fun route => (route.1, f route.2)) k =
      (handler routers k).map f := by
  rw [handler, handler, ← lookup_map, List.map_flatten]

/-- The routers that have a route for `k` answer the same. -/
def Agree (routers : List (Router κ η)) (k : κ) (answer : η → ω) : Prop :=
  ∀ r ∈ routers, ∀ r' ∈ routers, ∀ h h', r.lookup k = some h → r'.lookup k = some h' →
    answer h = answer h'

theorem agree_iff {answer : η → ω} : Agree routers k answer ↔
    ∀ rs rs' : List (Router κ η), rs.Perm routers → rs'.Perm routers →
      (handler rs k).map answer = (handler rs' k).map answer := by
  constructor
  · intro hagree rs rs' hrs hrs'
    cases hk : handler rs k with
    | none =>
      have hnone : handler rs' k = none := by
        rw [handler_eq_none] at hk ⊢
        intro r hr
        exact hk r (hrs.mem_iff.2 (hrs'.mem_iff.1 hr))
      rw [hnone]
    | some h =>
      obtain ⟨r, hr, hlookup⟩ := mem_of_handler hk
      cases hk' : handler rs' k with
      | none =>
        have hnone := handler_eq_none.1 hk' r (hrs'.mem_iff.2 (hrs.mem_iff.1 hr))
        cases hnone.symm.trans hlookup
      | some h' =>
        obtain ⟨r', hr', hlookup'⟩ := mem_of_handler hk'
        exact congrArg some
          (hagree r (hrs.mem_iff.1 hr) r' (hrs'.mem_iff.1 hr') h h' hlookup hlookup')
  · intro hall r hr r' hr' h h' hk hk'
    have hfirst : ∀ r ∈ routers, ∀ h, r.lookup k = some h →
        ∃ rs : List (Router κ η), rs.Perm routers ∧ handler rs k = some h := by
      intro r hr h hk
      obtain ⟨before, after, rfl⟩ := List.append_of_mem hr
      refine ⟨r :: (before ++ after), List.perm_middle.symm, ?_⟩
      rw [handler, List.flatten_cons, List.lookup_append, hk, Option.some_or]
    obtain ⟨rs, hrs, hhandler⟩ := hfirst r hr h hk
    obtain ⟨rs', hrs', hhandler'⟩ := hfirst r' hr' h' hk'
    have heq := hall rs rs' hrs hrs'
    rw [hhandler, hhandler'] at heq
    exact Option.some.inj heq

end Routing
