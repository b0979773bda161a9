import Mathlib.Data.List.Perm.Subperm
import Simian.Gui.SimianGui

/-! # The callbacks of the monitor's timer

A press of Start Monitor makes at most one callback, and a firing hands on the one it uses, so each
that is pending counts from a press of its own (`pending_of_presses`). Once the worker has ended
nothing hands a callback on: until the next press the label stands still, and every firing leaves
one callback less (`drains_of_dead`). The window opens, as in `SimianGui`. -/

namespace Simian.SimianGui
open ScreenRecorder (Config)

/-- The clock of a press of Start Monitor. -/
def Event.pressed : Event → Option Int
  | .start_mon noted _ _ => some noted
  | .stop_mon _ | .stop_rec _ | .fire _ _ | .worker _ _ => none

/-- Whether a timer fires. -/
def Event.fires : Event → Bool
  | .fire _ _ => true
  | .start_mon _ _ _ | .stop_mon _ | .stop_rec _ | .worker _ _ => false

namespace State
variable {cfg : Config} {s t : State} {e : Event} {start now : Int}

theorem tick_pending_sublist : (s.tick start now).pending.Sublist (s.pending ++ [start]) := by
  cases halive : s.recorder.is_alive with
  | true => rw [tick_of_alive halive]
  | false =>
    rw [tick_of_dead halive]
    exact List.sublist_append_left _ _

/-- A step makes a callback only of a press. -/
theorem Trans.pending_subperm (ht : Trans cfg s e t) :
    t.pending.Subperm (s.pending ++ e.pressed.toList) := by
  cases ht with
  | start_mon hr =>
    apply List.Sublist.subperm
    exact tick_pending_sublist
  | @fire k start now hk =>
    have hperm : (s.pending.eraseIdx k ++ [start]).Perm s.pending := by
      obtain ⟨hlt, rfl⟩ := List.getElem?_eq_some_iff.1 hk
      exact (List.perm_append_singleton _ _).trans (List.getElem_cons_eraseIdx_perm hlt)
    have hsub : (tick { s with pending := s.pending.eraseIdx k } start now).pending.Sublist
        (s.pending.eraseIdx k ++ [start]) := tick_pending_sublist
    rw [Event.pressed, Option.toList_none, List.append_nil]
    exact hsub.subperm.trans hperm.subperm
  | other => exact (List.sublist_append_left _ _).subperm

/-- What is left of `s` after the worker has ended: the label, and the callbacks without `n`. -/
structure Drained (s : State) (n : Nat) (t : State) : Prop where
  dead : t.recorder.is_alive = false
  sec : t.sec = s.sec
  length : t.pending.length + n = s.pending.length
  sublist : t.pending.Sublist s.pending

theorem Drained.refl (h : s.recorder.is_alive = false) : s.Drained 0 s := ⟨h, rfl, rfl, .refl _⟩

theorem Drained.trans {u : State} {m n : Nat} (h : s.Drained m t) (h' : t.Drained n u) :
    s.Drained (m + n) u := by
  refine ⟨h'.dead, h'.sec.trans h.sec, ?_, h'.sublist.trans h.sublist⟩
  have hlength := h.length
  have hlength' := h'.length
  omega

theorem Trans.drained (ht : Trans cfg s e t) (hdead : s.recorder.is_alive = false)
    (hpress : e.pressed = none) : s.Drained (if e.fires then 1 else 0) t := by
  cases ht with
  | start_mon hr => cases hpress
  | @fire k start now hk =>
    have hdead' : { s with pending := s.pending.eraseIdx k }.recorder.is_alive = false := hdead
    rw [tick_of_dead hdead']
    obtain ⟨hlt, -⟩ := List.getElem?_eq_some_iff.1 hk
    refine ⟨hdead, rfl, ?_, List.eraseIdx_sublist _ _⟩
    rw [List.length_eraseIdx_of_lt hlt, Event.fires, if_pos rfl]
    omega
  | @other e r hnone hkeeps =>
    have hfires : e.fires = false := by
      cases e with
      | fire => cases hnone
      | _ => rfl
    have hdead' : r.is_alive = false := by
      rw [← Bool.not_eq_true]
      intro halive
      cases hdead.symm.trans (hkeeps.alive halive)
    rw [hfires]
    exact ⟨hdead', rfl, rfl, .refl _⟩

end State

variable {cfg : Config} {s t : State} {t₀ : Int} {es : List Event}

theorem run_pending (hrun : (mainloop cfg t₀).run s es = some t) :
    t.pending.Subperm (s.pending ++ es.filterMap Event.pressed) := by
  induction es generalizing s with
  | nil =>
    cases hrun
    rw [List.filterMap_nil, List.append_nil]
  | cons e es ih =>
    obtain ⟨s', hstep, hrun⟩ := Machine.run_cons_some.1 hrun
    have hhead := (State.step_trans hstep).pending_subperm
    have hpresses : (e :: es).filterMap Event.pressed =
        e.pressed.toList ++ es.filterMap Event.pressed := by
      rw [List.filterMap_cons]
      cases e.pressed <;> rfl
    rw [hpresses, ← List.append_assoc]
    exact (ih hrun).trans ((List.subperm_append_right _).2 hhead)

/-- Each callback that is pending counts from the clock of a press of its own. -/
theorem pending_of_presses (hrun : (mainloop cfg t₀).run (launch t₀) es = some t) :
    t.pending.Subperm (es.filterMap Event.pressed) := run_pending hrun

theorem pending_of_two_presses : ∃ t,
    (mainloop ScreenRecorder.oneMonitor 0).run (launch 0)
      [.start_mon 60 60 [], .start_mon 62 62 [], .fire 0 63] = some t ∧
    t.pending = [62, 60] ∧ t.pending.Subperm [60, 62] :=
  ⟨_, rfl, rfl, @pending_of_presses ScreenRecorder.oneMonitor _ 0
    [.start_mon 60 60 [], .start_mon 62 62 [], .fire 0 63] rfl⟩

/-- After the worker has ended, a run in which Start Monitor is not pressed leaves the label as it
is, and the callbacks without as many as have fired. -/
theorem drains_of_dead (hdead : s.recorder.is_alive = false)
    (hpress : ∀ e ∈ es, e.pressed = none) (hrun : (mainloop cfg t₀).run s es = some t) :
    s.Drained (es.countP Event.fires) t := by
  induction es generalizing s with
  | nil =>
    cases hrun
    exact .refl hdead
  | cons e es ih =>
    obtain ⟨s', hstep, hrun⟩ := Machine.run_cons_some.1 hrun
    have hhead := (State.step_trans hstep).drained hdead (hpress e List.mem_cons_self)
    have hrest := ih hhead.dead (fun e he => hpress e (List.mem_cons_of_mem _ he)) hrun
    rw [List.countP_cons, Nat.add_comm]
    exact hhead.trans hrest

-- Two presses, and an exception in the worker before the timers fire.
theorem drains_after_exception : ∃ s t,
    (mainloop ScreenRecorder.oneMonitor 0).run (launch 0) [.start_mon 60 60 [],
      .start_mon 62 62 [], .worker 0 .raises, .worker 0 .go] = some s ∧
    s.Drained 2 t ∧ t.pending = [] := by
  have hrun : ∃ s t, (mainloop ScreenRecorder.oneMonitor 0).run (launch 0) [.start_mon 60 60 [],
      .start_mon 62 62 [], .worker 0 .raises, .worker 0 .go] = some s ∧
      s.recorder.is_alive = false ∧ t.pending = [] ∧
      (mainloop ScreenRecorder.oneMonitor 0).run s [.fire 1 65, .fire 0 66] = some t :=
    ⟨_, _, rfl, rfl, rfl, rfl⟩
  obtain ⟨s, t, hs, hdead, hnil, ht⟩ := hrun
  have hpress : ∀ e ∈ ([.fire 1 65, .fire 0 66] : List Event), e.pressed = none := by
    simp [Event.pressed]
  exact ⟨s, t, hs, drains_of_dead hdead hpress ht, hnil⟩

end Simian.SimianGui
