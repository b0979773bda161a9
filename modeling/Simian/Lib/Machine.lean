import Mathlib.Control.Monad.Basic
import Mathlib.Data.List.Basic
import Mathlib.Data.List.Induction

/-! # Labelled machines and their runs

A machine is a partial step function on states. Whatever its environment decides (which party
moves next, what the outside world answers) is part of the action, so a list of actions fixes a
run, and "for every interleaving" is "for every list of actions".

Rules for whole runs: what every step keeps every run keeps (`Machine.run_keeps`), so an inductive
invariant holds in every reachable state (`Machine.Reachable.invariant`); a condition on the steps
of a run carries an invariant along it (`Machine.EveryStep.everyState`); what the steps give off
is the history of the run, which every step may tie to the state (`Machine.history_keeps`); a rank
bounds the steps that lower it (`Machine.run_rank`); and a simulation step by step is a simulation
of runs (`Machine.Simulation.run`, and `Machine.Refinement.run` for steps that may not be
enabled). -/

universe u v w x

/-- A labelled transition system, deterministic once the action is known. An action that is
not enabled has no successor. -/
structure Machine (σ : Type u) (α : Type v) where
  init : σ
  step : σ → α → Option σ

namespace Machine
variable {σ : Type u} {α : Type v} {M : Machine σ α} {s t : σ} {a : α} {as bs : List α}

/-- The state reached from `s` by the actions `as`; `none` if one of them is not enabled. -/
def run (M : Machine σ α) (s : σ) (as : List α) : Option σ := as.foldlM M.step s

@[simp] theorem run_nil : M.run s [] = some s := rfl

theorem run_cons : M.run s (a :: as) = (M.step s a).bind (M.run · as) := rfl

theorem run_cons_some : M.run s (a :: as) = some t ↔
    ∃ s', M.step s a = some s' ∧ M.run s' as = some t := by
  simp only [run_cons, Option.bind_eq_some_iff]

theorem run_append : M.run s (as ++ bs) = (M.run s as).bind (M.run · bs) := by
  simp [run, List.foldlM_append]

theorem run_append_some : M.run s (as ++ bs) = some t ↔
    ∃ s', M.run s as = some s' ∧ M.run s' bs = some t := by
  simp only [run_append, Option.bind_eq_some_iff]

theorem run_snoc (hrun : M.run s as = some s') (hstep : M.step s' a = some t) :
    M.run s (as ++ [a]) = some t :=
  run_append_some.2 ⟨s', hrun, run_cons_some.2 ⟨t, hstep, rfl⟩⟩

/-! ## Reachable states -/

/-- `s` is the end of some run from the initial state. -/
def Reachable (M : Machine σ α) (s : σ) : Prop := ∃ as, M.run M.init as = some s

theorem Reachable.init : M.Reachable M.init := ⟨[], rfl⟩

theorem Reachable.step (h : M.Reachable s) (hs : M.step s a = some t) : M.Reachable t := by
  obtain ⟨as, h⟩ := h
  exact ⟨as ++ [a], run_snoc h hs⟩

/-- What every step keeps, every run keeps. -/
theorem run_keeps {I : σ → Prop} (H : ∀ {s a t}, I s → M.step s a = some t → I t) (h : I s)
    (hs : M.run s as = some t) : I t := by
  induction as generalizing s with
  | nil => cases hs; exact h
  | cons a as ih =>
    obtain ⟨s', hstep, hrun⟩ := run_cons_some.1 hs
    exact ih (H h hstep) hrun

/-- `I` holds initially and every step keeps it. -/
structure Inductive (M : Machine σ α) (I : σ → Prop) : Prop where
  init : I M.init
  step : ∀ {s a t}, I s → M.step s a = some t → I t

theorem Inductive.run {I : σ → Prop} (H : M.Inductive I) (hs : M.run M.init as = some t) : I t :=
  run_keeps H.step H.init hs

/-- An inductive invariant holds in every reachable state. -/
theorem Reachable.invariant {I : σ → Prop} (h : M.Reachable s) (H : M.Inductive I) : I s := by
  obtain ⟨as, h⟩ := h
  exact H.run h

/-! ## Conditions on every state and on every step of a run -/

/-- Every state of the run from `s` along `as`, both ends included, satisfies `P`. -/
def EveryState (M : Machine σ α) (P : σ → Prop) : σ → List α → Prop
  | s, [] => P s
  | s, a :: as => P s ∧ ∀ t, M.step s a = some t → EveryState M P t as

/-- Every step of the run from `s` along `as` satisfies `C`, which sees the state before the
step, the action and the state after it. -/
def EveryStep (M : Machine σ α) (C : σ → α → σ → Prop) : σ → List α → Prop
  | _, [] => True
  | s, a :: as => ∀ t, M.step s a = some t → C s a t ∧ EveryStep M C t as

variable {P I : σ → Prop} {C D : σ → α → σ → Prop}

theorem EveryState.head (h : M.EveryState P s as) : P s := by
  cases as with
  | nil => exact h
  | cons a as => exact h.1

/-- The end of a run is one of its states. -/
theorem EveryState.last (h : M.EveryState P s as) (hs : M.run s as = some t) : P t := by
  induction as generalizing s with
  | nil => cases hs; exact h
  | cons a as ih =>
    obtain ⟨s', hstep, hrun⟩ := run_cons_some.1 hs
    exact ih (h.2 s' hstep) hrun

theorem EveryState.and (hP : M.EveryState P s as) (hI : M.EveryState I s as) :
    M.EveryState (fun s => P s ∧ I s) s as := by
  induction as generalizing s with
  | nil => exact ⟨hP, hI⟩
  | cons a as ih => exact ⟨⟨hP.1, hI.1⟩, fun t ht => ih (hP.2 t ht) (hI.2 t ht)⟩

theorem Inductive.everyState (H : M.Inductive I) (h : I s) : M.EveryState I s as := by
  induction as generalizing s with
  | nil => exact h
  | cons a as ih => exact ⟨h, fun t ht => ih (H.step h ht)⟩

theorem EveryState.mono (H : ∀ s, P s → I s) (h : M.EveryState P s as) : M.EveryState I s as := by
  induction as generalizing s with
  | nil => exact H _ h
  | cons a as ih => exact ⟨H _ h.1, fun t ht => ih (h.2 t ht)⟩

theorem everyStep_of_forall_mem {p : α → Prop} (h : ∀ a ∈ as, p a) :
    M.EveryStep (fun _ a _ => p a) s as := by
  induction as generalizing s with
  | nil => trivial
  | cons a as ih =>
    exact fun t _ => ⟨h a List.mem_cons_self, ih fun b hb => h b (List.mem_cons_of_mem a hb)⟩

/-- If every step that meets `C` keeps `I`, then `I` holds all along a run whose steps all
meet `C`. -/
theorem EveryStep.everyState (H : ∀ {s a t}, I s → M.step s a = some t → C s a t → I t)
    (hI : I s) (h : M.EveryStep C s as) : M.EveryState I s as := by
  induction as generalizing s with
  | nil => exact hI
  | cons a as ih =>
    exact ⟨hI, fun t ht => ih (H hI ht (h t ht).1) (h t ht).2⟩

theorem EveryState.everyStep (H : ∀ {s a t}, P s → M.step s a = some t → P t → C s a t)
    (h : M.EveryState P s as) : M.EveryStep C s as := by
  induction as generalizing s with
  | nil => trivial
  | cons a as ih => exact fun t ht => ⟨H h.1 ht (h.2 t ht).head, ih (h.2 t ht)⟩

/-- A property that no step can establish held all along a run at whose end it holds. -/
theorem everyState_of_last (H : ∀ {s a t}, M.step s a = some t → P t → P s)
    (hs : M.run s as = some t) (hP : P t) : M.EveryState P s as := by
  induction as generalizing s with
  | nil => cases hs; exact hP
  | cons a as ih =>
    obtain ⟨s', hstep, hrun⟩ := run_cons_some.1 hs
    have htail := ih hrun
    refine ⟨H hstep htail.head, fun r hr => ?_⟩
    cases hstep.symm.trans hr
    exact htail

/-- A condition on the steps that follows from two others and an invariant. -/
theorem EveryStep.imp {A : σ → α → σ → Prop}
    (hI : ∀ {s a t}, I s → M.step s a = some t → A s a t → I t)
    (H : ∀ {s a t}, I s → M.step s a = some t → A s a t → C s a t → D s a t)
    (h : I s) (hA : M.EveryStep A s as) (hC : M.EveryStep C s as) : M.EveryStep D s as := by
  induction as generalizing s with
  | nil => trivial
  | cons a as ih =>
    intro t ht
    obtain ⟨hA, hAs⟩ := hA t ht
    obtain ⟨hC, hCs⟩ := hC t ht
    exact ⟨H h ht hA hC, ih (hI h ht hA) hAs hCs⟩

/-- Two conditions that agree on the steps out of states satisfying an invariant agree along
every run. -/
theorem everyStep_congr (hI : ∀ {s a t}, I s → M.step s a = some t → I t)
    (H : ∀ {s a t}, I s → M.step s a = some t → (C s a t ↔ D s a t)) (h : I s) :
    M.EveryStep C s as ↔ M.EveryStep D s as := by
  constructor
  · intro hC
    exact hC.imp (fun hs ht _ => hI hs ht) (fun hs ht hc _ => (H hs ht).1 hc) h hC
  · intro hD
    exact hD.imp (fun hs ht _ => hI hs ht) (fun hs ht hd _ => (H hs ht).2 hd) h hD

/-- A condition on every step of a run holds of the step in the middle of it. -/
theorem EveryStep.split (h : M.EveryStep C s (as ++ a :: bs)) (hs : M.run s as = some s')
    (hstep : M.step s' a = some t) : C s' a t ∧ M.EveryStep C t bs := by
  induction as generalizing s with
  | nil => cases hs; exact h t hstep
  | cons b as ih =>
    obtain ⟨r, hr, hrun⟩ := run_cons_some.1 hs
    exact ih (h r hr).2 hrun

/-! ## Histories -/

/-- What the steps of the run from `s` along `as` give off, in order. -/
def history {β : Type w} (M : Machine σ α) (emit : σ → α → List β) : σ → List α → List β
  | _, [] => []
  | s, a :: as => emit s a ++ (M.step s a).elim [] fun t => history M emit t as

theorem history_snoc {β : Type w} {emit : σ → α → List β} (hrun : M.run s as = some t) :
    M.history emit s (as ++ [a]) = M.history emit s as ++ emit t a := by
  induction as generalizing s with
  | nil =>
    cases hrun
    rw [List.nil_append, history, history, List.nil_append]
    cases M.step t a <;> simp [history]
  | cons b as ih =>
    obtain ⟨s', hstep, hrun⟩ := run_cons_some.1 hrun
    rw [List.cons_append, history, history, hstep, Option.elim_some, Option.elim_some, ih hrun,
      List.append_assoc]

/-- A relation between the history and the state that every step keeps holds of every run. -/
theorem history_keeps {β : Type w} {emit : σ → α → List β} {R : List β → σ → Prop}
    (H : ∀ {l s a t}, R l s → M.step s a = some t → R (l ++ emit s a) t) (h : R [] s)
    (hrun : M.run s as = some t) : R (M.history emit s as) t := by
  induction as using List.reverseRecOn generalizing t with
  | nil =>
    cases hrun
    exact h
  | append_singleton as a ih =>
    obtain ⟨s', hrun, hstep⟩ := run_append_some.1 hrun
    obtain ⟨t', hstep, hnil⟩ := run_cons_some.1 hstep
    cases hnil
    rw [history_snoc hrun]
    exact H (ih hrun) hstep

/-! ## Ranks -/

/-- If no step raises the rank and those that `p` counts lower it, then a run has no more of these
than it lowers the rank by. -/
theorem run_rank {rank : σ → Nat} {p : α → Bool} (hI : ∀ {s a t}, I s → M.step s a = some t → I t)
    (H : ∀ {s a t}, I s → M.step s a = some t → rank t + (if p a then 1 else 0) ≤ rank s)
    (h : I s) (hrun : M.run s as = some t) : rank t + as.countP p ≤ rank s := by
  induction as generalizing s with
  | nil =>
    cases hrun
    exact Nat.le_refl _
  | cons a as ih =>
    obtain ⟨s', hstep, hrun⟩ := run_cons_some.1 hrun
    have hle := H h hstep
    have hrest := ih (hI h hstep) hrun
    rw [List.countP_cons]
    omega

/-! ## Simulation -/

/-- `N` simulates `M` along `R`: in related states every action `a` of `M` is enabled, and matched
by the run of `N` along `f a`. An action that `N` does not see is matched by the empty run. -/
structure Simulation (M : Machine σ α) {τ : Type w} {β : Type x} (N : Machine τ β)
    (R : σ → τ → Prop) (f : α → List β) : Prop where
  step : ∀ {s t}, R s t → ∀ a, ∃ s' t', M.step s a = some s' ∧ N.run t (f a) = some t' ∧ R s' t'

/-- From related states every list of actions is a run, matched action by action. -/
theorem Simulation.run {τ : Type w} {β : Type x} {N : Machine τ β} {R : σ → τ → Prop}
    {f : α → List β} (H : M.Simulation N R f) {t : τ} (h : R s t) (as : List α) :
    ∃ s' t', M.run s as = some s' ∧ N.run t (as.flatMap f) = some t' ∧ R s' t' := by
  induction as generalizing s t with
  | nil => exact ⟨s, t, rfl, rfl, h⟩
  | cons a as ih =>
    obtain ⟨s₁, t₁, hs₁, ht₁, h₁⟩ := H.step h a
    obtain ⟨s₂, t₂, hs₂, ht₂, h₂⟩ := ih h₁
    exact ⟨s₂, t₂, run_cons_some.2 ⟨s₁, hs₁, hs₂⟩, run_append_some.2 ⟨t₁, ht₁, ht₂⟩, h₂⟩

/-- `M` refines `N` along `R`: each step of `M` from related states is matched by the run of `N`
along `f a`. -/
structure Refinement (M : Machine σ α) {τ : Type w} {β : Type x} (N : Machine τ β)
    (R : σ → τ → Prop) (f : α → List β) : Prop where
  step : ∀ {s t s' a}, R s t → M.step s a = some s' → ∃ t', N.run t (f a) = some t' ∧ R s' t'

theorem Refinement.run {τ : Type w} {β : Type x} {N : Machine τ β} {R : σ → τ → Prop}
    {f : α → List β} (H : M.Refinement N R f) {t : τ} (h : R s t) (hrun : M.run s as = some s') :
    ∃ t', N.run t (as.flatMap f) = some t' ∧ R s' t' := by
  induction as generalizing s t with
  | nil =>
    cases hrun
    exact ⟨t, rfl, h⟩
  | cons a as ih =>
    obtain ⟨s₁, hs₁, hrest⟩ := run_cons_some.1 hrun
    obtain ⟨t₁, ht₁, h₁⟩ := H.step h hs₁
    obtain ⟨t₂, ht₂, h₂⟩ := ih h₁ hrest
    exact ⟨t₂, run_append_some.2 ⟨t₁, ht₁, ht₂⟩, h₂⟩

end Machine
