import Simian.Lib.Machine

/-! # A queue between a producer and a consumer

The consumer is a machine whose actions are to take an item or to do something of its own. Before it
stands a queue without a bound, into which items are put at any time. Whatever the interleaving, a
run is one of the consumer that takes the items put so far in order, up to those still in the queue
(`run_turns`). -/

universe u v w

namespace Fifo
variable {α : Type u} {β : Type v} {σ : Type w}

/-- What the consumer does. -/
inductive Turn (α : Type u) (β : Type v)
  | take (a : α)
  | own (b : β)

/-- The producer puts an item, the consumer gets the next one, or it does something of its own. -/
inductive Action (α : Type u) (β : Type v)
  | put (a : α)
  | get
  | own (b : β)

structure Conf (α : Type u) (σ : Type w) where
  queue : List α
  consumer : σ

/-- Where the queue is empty, `get` waits. -/
def step (C : Machine σ (Turn α β)) (s : Conf α σ) : Action α β → Option (Conf α σ)
  | .put a => some { s with queue := s.queue ++ [a] }
  | .get => match s.queue with
    | [] => none
    | a :: queue => (C.step s.consumer (.take a)).map (⟨queue, ·⟩)
  | .own b => (C.step s.consumer (.own b)).map (⟨s.queue, ·⟩)

def machine (C : Machine σ (Turn α β)) : Machine (Conf α σ) (Action α β) where
  init := ⟨[], C.init⟩
  step := step C

def Turn.item : Turn α β → Option α
  | .take a => some a
  | .own _ => none

def Turn.own? : Turn α β → Option β
  | .take _ => none
  | .own b => some b

def Action.item : Action α β → Option α
  | .put a => some a
  | .get | .own _ => none

def Action.own? : Action α β → Option β
  | .own b => some b
  | .put _ | .get => none

variable {C : Machine σ (Turn α β)} {s t : Conf α σ} {a : Action α β} {as : List (Action α β)}

/-- What a step is for the consumer and for the queue. -/
theorem step_turns (h : step C s a = some t) : ∃ cs, C.run s.consumer cs = some t.consumer ∧
    cs.filterMap Turn.item ++ t.queue = s.queue ++ a.item.toList ∧
    cs.filterMap Turn.own? = a.own?.toList := by
  cases a with
  | put a =>
    cases h
    exact ⟨[], rfl, rfl, rfl⟩
  | get =>
    unfold step at h
    cases hqueue : s.queue with
    | nil =>
      simp only [hqueue, reduceCtorEq] at h
    | cons a queue =>
      simp only [hqueue] at h
      obtain ⟨c, hc, rfl⟩ := Option.map_eq_some_iff.1 h
      refine ⟨[.take a], Machine.run_cons_some.2 ⟨c, hc, rfl⟩, ?_, rfl⟩
      exact (List.append_nil _).symm
  | own b =>
    obtain ⟨c, hc, rfl⟩ := Option.map_eq_some_iff.1 h
    refine ⟨[.own b], Machine.run_cons_some.2 ⟨c, hc, rfl⟩, ?_, rfl⟩
    exact (List.append_nil _).symm

theorem filterMap_cons_toList {γ : Type*} {f : Action α β → Option γ} :
    (a :: as).filterMap f = (f a).toList ++ as.filterMap f := by
  rw [List.filterMap_cons]
  cases f a <;> rfl

/-- A run is one of the consumer, which takes what has been put, in order, without what is still in
the queue. -/
theorem run_turns (hrun : (machine C).run s as = some t) :
    ∃ cs, C.run s.consumer cs = some t.consumer ∧
      cs.filterMap Turn.item ++ t.queue = s.queue ++ as.filterMap Action.item ∧
      cs.filterMap Turn.own? = as.filterMap Action.own? := by
  induction as generalizing s with
  | nil =>
    cases hrun
    exact ⟨[], rfl, (List.append_nil _).symm, rfl⟩
  | cons a as ih =>
    obtain ⟨s', hstep, hrun⟩ := Machine.run_cons_some.1 hrun
    obtain ⟨cs, hcs, hitems, howns⟩ := step_turns hstep
    obtain ⟨ds, hds, hitems', howns'⟩ := ih hrun
    refine ⟨cs ++ ds, Machine.run_append_some.2 ⟨s'.consumer, hcs, hds⟩, ?_, ?_⟩
    · rw [List.filterMap_append, List.append_assoc, hitems', filterMap_cons_toList,
        ← List.append_assoc, hitems, List.append_assoc]
    · rw [List.filterMap_append, howns, howns', filterMap_cons_toList]

end Fifo
