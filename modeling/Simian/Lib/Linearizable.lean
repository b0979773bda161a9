import Mathlib.Data.List.Nodup
import Mathlib.Logic.Function.Basic
import Simian.Lib.Machine

/-! # Requests that take effect at one moment

Requests to an object overlap. A history of calls and answers is linearized by an order of the
requests in which one after another has the same answers, and in which a request that was answered
before another one was called stands before it. A machine each of whose requests takes effect in one
of its steps has such an order for every run (`Atomic.linearizes`). -/

universe u v w x y z

namespace Linearizable
variable {ι : Type u} {ρ : Type v} {ω : Type w} {σ : Type x}

/-- What can be seen from outside. -/
inductive Event (ι : Type u) (ρ : Type v) (ω : Type w)
  | call (id : ι) (request : ρ)
  | answer (id : ι) (answer : ω)

structure Entry (ι : Type u) (ρ : Type v) (ω : Type w) where
  id : ι
  request : ρ
  answer : ω

/-- The answers to requests that are served one after another, and the object afterwards. -/
def replay (apply : ρ → σ → ω × σ) : σ → List ρ → List ω × σ
  | s, [] => ([], s)
  | s, r :: rs =>
    let (answers, t) := replay apply (apply r s).2 rs
    ((apply r s).1 :: answers, t)

/-- An order of requests that accounts for a history from the object `s` to `t`. -/
structure Linearizes (apply : ρ → σ → ω × σ) (s t : σ) (h : List (Event ι ρ ω))
    (order : List (Entry ι ρ ω)) : Prop where
  /-- Each request is called once. -/
  unique : ∀ {id r r'}, .call id r ∈ h → .call id r' ∈ h → r = r'
  nodup : (order.map Entry.id).Nodup
  called : ∀ e ∈ order, .call e.id e.request ∈ h
  answered : ∀ {id answer}, .answer id answer ∈ h → ∃ r, ⟨id, r, answer⟩ ∈ order
  replays : replay apply s (order.map Entry.request) = (order.map Entry.answer, t)
  /-- Requests that do not overlap keep their order. -/
  precedes : ∀ {id answer id' r}, [.answer id answer, .call id' r].Sublist h →
    id' ∈ order.map Entry.id → [id, id'].Sublist (order.map Entry.id)

variable {apply : ρ → σ → ω × σ} {s s' t : σ} {r : ρ} {rs rs' : List ρ} {id id' : ι}
  {h : List (Event ι ρ ω)} {order : List (Entry ι ρ ω)}

theorem replay_append : replay apply s (rs ++ rs') =
    ((replay apply s rs).1 ++ (replay apply (replay apply s rs).2 rs').1,
      (replay apply (replay apply s rs).2 rs').2) := by
  induction rs generalizing s with
  | nil => rfl
  | cons r rs ih => simp only [List.cons_append, replay, ih]

theorem length_replay : (replay apply s rs).1.length = rs.length := by
  induction rs generalizing s with
  | nil => rfl
  | cons r rs ih => exact congrArg (· + 1) ih

theorem pair_sublist_concat {β : Type y} {l : List β} {x x' y : β} :
    [x, x'].Sublist (l ++ [y]) ↔ [x, x'].Sublist l ∨ x ∈ l ∧ x' = y := by
  constructor
  · intro hsub
    obtain ⟨l₁, l₂, heq, h₁, h₂⟩ := List.sublist_append_iff.1 hsub
    rcases List.sublist_singleton.1 h₂ with rfl | rfl
    · rw [List.append_nil] at heq
      exact .inl (heq ▸ h₁)
    · rw [← List.singleton_append] at heq
      obtain ⟨rfl, hy⟩ := List.append_inj' heq rfl
      cases hy
      exact .inr ⟨List.singleton_sublist.1 h₁, rfl⟩
  · rintro (hsub | ⟨hmem, rfl⟩)
    · exact hsub.trans (List.sublist_append_left l [y])
    · exact (List.singleton_sublist.2 hmem).append (List.Sublist.refl [x'])

/-- What comes before the only occurrence of `y`. -/
theorem mem_of_pair_sublist {β : Type y} {l l' : List β} {x y : β} (hl : y ∉ l) (hl' : y ∉ l')
    (hsub : [x, y].Sublist (l ++ y :: l')) : x ∈ l := by
  induction l with
  | nil =>
    rw [List.nil_append, List.sublist_cons_iff] at hsub
    rcases hsub with hsub | ⟨r, heq, hsub⟩
    · exact absurd (hsub.subset (List.mem_cons_of_mem _ List.mem_cons_self)) hl'
    · cases heq
      exact absurd (hsub.subset List.mem_cons_self) hl'
  | cons z l ih =>
    rw [List.cons_append, List.sublist_cons_iff] at hsub
    rcases hsub with hsub | ⟨r, heq, -⟩
    · exact List.mem_cons_of_mem z (ih (fun hmem => hl (List.mem_cons_of_mem z hmem)) hsub)
    · cases heq
      exact List.mem_cons_self

/-- What is answered is what the object answers after the requests that stand before. -/
theorem Linearizes.answer_eq {e : Entry ι ρ ω} {before after : List (Entry ι ρ ω)}
    (H : Linearizes apply s t h (before ++ e :: after)) :
    e.answer = (apply e.request (replay apply s (before.map Entry.request)).2).1 := by
  have hlength : (replay apply s (before.map Entry.request)).1.length =
      (before.map Entry.answer).length := by
    rw [length_replay, List.length_map, List.length_map]
  have hreplays := congrArg Prod.fst H.replays
  rw [List.map_append, List.map_append, replay_append] at hreplays
  exact (List.cons.inj (List.append_inj_right hreplays hlength)).1.symm

/-- A request that was answered before another one was called stands before it. -/
theorem Linearizes.mem_before {e : Entry ι ρ ω} {before after : List (Entry ι ρ ω)} {answer : ω}
    (H : Linearizes apply s t h (before ++ e :: after))
    (hsub : [.answer id answer, .call e.id r].Sublist h) : id ∈ before.map Entry.id := by
  have hnodup := H.nodup
  have hpair := H.precedes hsub (List.mem_map_of_mem (List.mem_append_right _ List.mem_cons_self))
  rw [List.map_append, List.map_cons] at hnodup hpair
  have hbefore : e.id ∉ before.map Entry.id := fun hmem =>
    (List.nodup_append.1 hnodup).2.2 _ hmem _ List.mem_cons_self rfl
  have hafter : e.id ∉ after.map Entry.id :=
    (List.nodup_cons.1 (List.nodup_append.1 hnodup).2.1).1
  exact mem_of_pair_sublist hbefore hafter hpair

/-! ## Steps -/

/-- How far a request is. -/
inductive Phase (ρ : Type v) (ω : Type w)
  | idle
  | called (request : ρ)
  | effective (request : ρ) (answer : ω)
  | answered

/-- What one step may do: call a request, answer one, let one take effect, or nothing of these. -/
inductive Moves [DecidableEq ι] (apply : ρ → σ → ω × σ) (p : ι → Phase ρ ω) (s : σ) :
    List (Event ι ρ ω) → (ι → Phase ρ ω) → σ → Prop
  | call {id : ι} {r : ρ} (h : p id = .idle) :
    Moves apply p s [.call id r] (Function.update p id (.called r)) s
  | silent : Moves apply p s [] p s
  | effect {id : ι} {r : ρ} (h : p id = .called r) :
    Moves apply p s [] (Function.update p id (.effective r (apply r s).1)) (apply r s).2
  | answer {id : ι} {r : ρ} {answer : ω} (h : p id = .effective r answer) :
    Moves apply p s [.answer id answer] (Function.update p id .answered) s

/-- What ties the phases to an order that has been built so far. -/
structure Tracks (apply : ρ → σ → ω × σ) (s : σ) (h : List (Event ι ρ ω)) (p : ι → Phase ρ ω)
    (t : σ) (order : List (Entry ι ρ ω)) : Prop extends Linearizes apply s t h order where
  idle : ∀ {id r}, p id = .idle → .call id r ∉ h
  pending : ∀ {id r}, p id = .called r → .call id r ∈ h ∧ id ∉ order.map Entry.id
  effective : ∀ {id r answer}, p id = .effective r answer → ⟨id, r, answer⟩ ∈ order

variable {p p' : ι → Phase ρ ω} {es : List (Event ι ρ ω)}

theorem Tracks.not_mem_of_idle (H : Tracks apply s h p t order) (hid : p id = .idle) :
    id ∉ order.map Entry.id := by
  intro hmem
  obtain ⟨e, he, rfl⟩ := List.mem_map.1 hmem
  exact H.idle hid (H.called e he)

variable [DecidableEq ι]

/-- A phase that a step does not put a request into is that of another one. -/
theorem of_update {q q' : Phase ρ ω} (hq : q ≠ q') (h : Function.update p id q id' = q') :
    id' ≠ id ∧ p id' = q' := by
  by_cases heq : id' = id
  · subst heq
    rw [Function.update_self] at h
    exact absurd h hq
  · rw [Function.update_of_ne heq] at h
    exact ⟨heq, h⟩

theorem Tracks.call (H : Tracks apply s h p t order) (hid : p id = .idle) :
    Tracks apply s (h ++ [.call id r]) (Function.update p id (.called r)) t order where
  unique {id' r₁ r₂} h₁ h₂ := by
    rcases List.mem_append.1 h₁ with h₁ | h₁
    · rcases List.mem_append.1 h₂ with h₂ | h₂
      · exact H.unique h₁ h₂
      · cases List.mem_singleton.1 h₂
        exact absurd h₁ (H.idle hid)
    · cases List.mem_singleton.1 h₁
      rcases List.mem_append.1 h₂ with h₂ | h₂
      · exact absurd h₂ (H.idle hid)
      · cases List.mem_singleton.1 h₂
        rfl
  nodup := H.nodup
  called e he := List.mem_append_left _ (H.called e he)
  answered hmem := by
    rcases List.mem_append.1 hmem with hmem | hmem
    · exact H.answered hmem
    · cases List.mem_singleton.1 hmem
  replays := H.replays
  precedes hsub hmem := by
    rcases pair_sublist_concat.1 hsub with hsub | ⟨-, heq⟩
    · exact H.precedes hsub hmem
    · cases heq
      exact absurd hmem (H.not_mem_of_idle hid)
  idle {id' r'} hidle hmem := by
    obtain ⟨hne, hidle⟩ := of_update (by simp) hidle
    rcases List.mem_append.1 hmem with hmem | hmem
    · exact H.idle hidle hmem
    · cases List.mem_singleton.1 hmem
      exact hne rfl
  pending {id' r'} hcalled := by
    by_cases heq : id' = id
    · subst heq
      rw [Function.update_self] at hcalled
      cases hcalled
      exact ⟨List.mem_append_right _ (List.mem_singleton.2 rfl), H.not_mem_of_idle hid⟩
    · rw [Function.update_of_ne heq] at hcalled
      exact ⟨List.mem_append_left _ (H.pending hcalled).1, (H.pending hcalled).2⟩
  effective {id' r' answer} heffective := by
    obtain ⟨hne, heffective⟩ := of_update (by simp) heffective
    exact H.effective heffective

theorem Tracks.effect (H : Tracks apply s h p t order) (hid : p id = .called r) :
    Tracks apply s h (Function.update p id (.effective r (apply r t).1)) (apply r t).2
      (order ++ [⟨id, r, (apply r t).1⟩]) where
  unique := H.unique
  nodup := by
    rw [List.map_append, List.map_singleton, ← List.concat_eq_append]
    exact H.nodup.concat (H.pending hid).2
  called e he := by
    rcases List.mem_append.1 he with he | he
    · exact H.called e he
    · cases List.mem_singleton.1 he
      exact (H.pending hid).1
  answered hmem := by
    obtain ⟨r', hr'⟩ := H.answered hmem
    exact ⟨r', List.mem_append_left _ hr'⟩
  replays := by
    rw [List.map_append, List.map_append, replay_append, H.replays]
    rfl
  precedes {id₁ answer id₂ r'} hsub hmem := by
    rw [List.map_append, List.map_singleton] at hmem ⊢
    obtain ⟨r₁, h₁⟩ := H.answered (hsub.subset List.mem_cons_self)
    rcases List.mem_append.1 hmem with hmem | hmem
    · exact (H.precedes hsub hmem).trans (List.sublist_append_left _ _)
    · exact pair_sublist_concat.2 (.inr ⟨List.mem_map.2 ⟨_, h₁, rfl⟩, List.mem_singleton.1 hmem⟩)
  idle {id' r'} hidle := by
    obtain ⟨hne, hidle⟩ := of_update (by simp) hidle
    exact H.idle hidle
  pending {id' r'} hcalled := by
    obtain ⟨hne, hcalled⟩ := of_update (by simp) hcalled
    refine ⟨(H.pending hcalled).1, fun hmem => ?_⟩
    rw [List.map_append, List.map_singleton] at hmem
    rcases List.mem_append.1 hmem with hmem | hmem
    · exact (H.pending hcalled).2 hmem
    · exact hne (List.mem_singleton.1 hmem)
  effective {id' r' answer} heffective := by
    by_cases heq : id' = id
    · subst heq
      rw [Function.update_self] at heffective
      cases heffective
      exact List.mem_append_right _ (List.mem_singleton.2 rfl)
    · rw [Function.update_of_ne heq] at heffective
      exact List.mem_append_left _ (H.effective heffective)

theorem Tracks.answer {answer : ω} (H : Tracks apply s h p t order)
    (hid : p id = .effective r answer) :
    Tracks apply s (h ++ [.answer id answer]) (Function.update p id .answered) t order where
  unique h₁ h₂ := by
    rcases List.mem_append.1 h₁ with h₁ | h₁
    · rcases List.mem_append.1 h₂ with h₂ | h₂
      · exact H.unique h₁ h₂
      · cases List.mem_singleton.1 h₂
    · cases List.mem_singleton.1 h₁
  nodup := H.nodup
  called e he := List.mem_append_left _ (H.called e he)
  answered hmem := by
    rcases List.mem_append.1 hmem with hmem | hmem
    · exact H.answered hmem
    · cases List.mem_singleton.1 hmem
      exact ⟨r, H.effective hid⟩
  replays := H.replays
  precedes hsub hmem := by
    rcases pair_sublist_concat.1 hsub with hsub | ⟨-, heq⟩
    · exact H.precedes hsub hmem
    · cases heq
  idle {id' r'} hidle hmem := by
    obtain ⟨hne, hidle⟩ := of_update (by simp) hidle
    rcases List.mem_append.1 hmem with hmem | hmem
    · exact H.idle hidle hmem
    · cases List.mem_singleton.1 hmem
  pending {id' r'} hcalled := by
    obtain ⟨hne, hcalled⟩ := of_update (by simp) hcalled
    exact ⟨List.mem_append_left _ (H.pending hcalled).1, (H.pending hcalled).2⟩
  effective {id' r' answer'} heffective := by
    obtain ⟨hne, heffective⟩ := of_update (by simp) heffective
    exact H.effective heffective

theorem Tracks.moves (H : Tracks apply s h p t order) (hm : Moves apply p t es p' s') :
    ∃ order', Tracks apply s (h ++ es) p' s' order' := by
  cases hm with
  | call hid => exact ⟨order, H.call hid⟩
  | silent => exact ⟨order, (List.append_nil h).symm ▸ H⟩
  | effect hid => exact ⟨_, (List.append_nil h).symm ▸ H.effect hid⟩
  | answer hid => exact ⟨order, H.answer hid⟩

/-! ## Machines -/

section
variable {S : Type y} {α : Type z} {M : Machine S α} {emit : S → α → List (Event ι ρ ω)}
  {phase : S → ι → Phase ρ ω} {object : S → σ} {I : S → Prop} {as : List α} {u : S}

/-- Each request to the machine takes effect in one of its steps, from a state that satisfies the
invariant `I`. -/
structure Atomic (apply : ρ → σ → ω × σ) (M : Machine S α) (emit : S → α → List (Event ι ρ ω))
    (phase : S → ι → Phase ρ ω) (object : S → σ) (I : S → Prop) : Prop where
  invariant : M.Inductive I
  idle : ∀ id, phase M.init id = .idle
  moves : ∀ {s a t}, I s → M.step s a = some t →
    Moves apply (phase s) (object s) (emit s a) (phase t) (object t)

theorem Atomic.linearizes (H : Atomic apply M emit phase object I)
    (hrun : M.run M.init as = some u) : ∃ order,
      Linearizes apply (object M.init) (object u) (M.history emit M.init as) order := by
  have hinit : Tracks apply (object M.init) [] (phase M.init) (object M.init) [] := by
    refine ⟨⟨?_, List.nodup_nil, ?_, ?_, rfl, ?_⟩, ?_, ?_, ?_⟩
    · intro id r r' hmem
      cases hmem
    · intro e he
      cases he
    · intro id answer hmem
      cases hmem
    · intro id answer id' r hsub
      cases hsub
    · intro id r _ hmem
      cases hmem
    · intro id r hcalled
      cases (H.idle id).symm.trans hcalled
    · intro id r answer heffective
      cases (H.idle id).symm.trans heffective
  have hkeeps : I u ∧ ∃ order, Tracks apply (object M.init) (M.history emit M.init as) (phase u)
      (object u) order := by
    refine Machine.history_keeps (R := fun h s => I s ∧ ∃ order,
      Tracks apply (object M.init) h (phase s) (object s) order) ?_ ⟨H.invariant.init, [], hinit⟩ hrun
    rintro h s a t ⟨hI, order, htracks⟩ hstep
    exact ⟨H.invariant.step hI hstep, htracks.moves (H.moves hI hstep)⟩
  obtain ⟨-, order, htracks⟩ := hkeeps
  exact ⟨order, htracks.toLinearizes⟩

end

end Linearizable
