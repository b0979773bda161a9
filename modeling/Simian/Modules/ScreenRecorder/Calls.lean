import Simian.Modules.ScreenRecorder.Control

/-! # Whole calls of the recorder

For a caller in one thread `start()` and `stop()` are single steps, from the first to the return,
with steps of the workers in between. A call of `stop()` keeps the current thread (`keeps_of_stop`);
one of `start()` keeps it if it is alive and replaces it if it is not (`start_cases`). -/

namespace Simian.ScreenRecorder

/-- What can happen while `start()` is under way. -/
def Action.inStart : Action → Bool
  | .clear | .spawn | .worker _ _ => true
  | _ => false

/-- What can happen while `stop()` is under way. -/
def Action.inStop : Action → Bool
  | .join | .test | .read | .worker _ _ => true
  | _ => false

/-- A call from its first step to its return, with the steps of workers in between. -/
def call (cfg : Config) (first : Action) (within : Action → Bool) (s : State) (as : List Action) :
    Option State :=
  if as.all within then ((machine cfg).run s (first :: as)).filter (·.ctrl = .idle) else none

def start (cfg : Config) : State → List Action → Option State := call cfg .start Action.inStart

def stop (cfg : Config) : State → List Action → Option State := call cfg .stop Action.inStop

variable {cfg : Config} {s q r : State} {a : Action} {as : List Action} {within : Action → Bool}

/-- The current thread is the same, and alive only if it was. -/
structure Keeps (s r : State) : Prop where
  thread : r._thread = s._thread
  threads : r.threads.length = s.threads.length
  alive : r.is_alive = true → s.is_alive = true

theorem Keeps.refl : Keeps s s := ⟨rfl, rfl, id⟩

theorem Keeps.trans (h : Keeps s q) (h' : Keeps q r) : Keeps s r :=
  ⟨h'.thread.trans h.thread, h'.threads.trans h.threads, h.alive ∘ h'.alive⟩

theorem Keeps.goto {ctrl : Ctrl} : Keeps s (s.goto ctrl) := ⟨rfl, rfl, id⟩

theorem Keeps.set : Keeps s s.set := by
  refine ⟨rfl, List.length_map _, fun halive => ?_⟩
  obtain ⟨th, hth, hal⟩ := State.is_alive_iff.1 halive
  obtain ⟨i, hi, hth⟩ := Option.bind_eq_some_iff.1 hth
  obtain ⟨th', hth', rfl⟩ := State.threads_set hth
  exact State.is_alive_iff.2 ⟨th', Option.bind_eq_some_iff.2 ⟨i, hi, hth'⟩, hal⟩

theorem Keeps.update {i : Nat} {th : Thread} {m : Move} {w : Worker} (hi : s.threads[i]? = some th)
    (hs : th.worker.step cfg s.shared m = some w) : Keeps s (s.update cfg i th m w) := by
  refine ⟨rfl, State.length_update, fun halive => ?_⟩
  obtain ⟨th', hth, hal⟩ := State.is_alive_iff.1 halive
  obtain ⟨j, hj, hth⟩ := Option.bind_eq_some_iff.1 hth
  rcases State.threads_update hi hth with ⟨rfl, rfl⟩ | ⟨-, hth⟩
  · exact State.is_alive_iff.2 ⟨th, Option.bind_eq_some_iff.2 ⟨j, hj, hi⟩, State.alive_of_step hs⟩
  · exact State.is_alive_iff.2 ⟨th', Option.bind_eq_some_iff.2 ⟨j, hj, hth⟩, hal⟩

theorem run_of_call (h : call cfg a within s as = some r) :
    (machine cfg).run s (a :: as) = some r ∧ r.ctrl = .idle := by
  obtain ⟨-, hrun⟩ := Option.ite_none_right_eq_some.1 h
  obtain ⟨hrun, hidle⟩ := Option.filter_eq_some_iff.1 hrun
  exact ⟨hrun, of_decide_eq_true hidle⟩

/-- What every step of a call keeps holds when it returns. -/
theorem call_keeps {I : State → Prop}
    (H : ∀ {q a t}, I q → within a = true → State.Trans cfg q a t → I t)
    (hfirst : ∀ {t}, State.Trans cfg s a t → I t) (h : call cfg a within s as = some r) :
    I r ∧ r.ctrl = .idle := by
  obtain ⟨hrun, hidle⟩ := run_of_call h
  obtain ⟨t, hstep, hrun⟩ := Machine.run_cons_some.1 hrun
  have hwithin : as.all within = true := (Option.ite_none_right_eq_some.1 h).1
  have hall : (machine cfg).EveryStep (fun _ a _ => within a = true) t as :=
    Machine.everyStep_of_forall_mem (List.all_eq_true.1 hwithin)
  have hI : (machine cfg).EveryState I t as :=
    hall.everyState (fun hq hs hc => H hq hc (machine_trans hs)) (hfirst (machine_trans hstep))
  exact ⟨hI.last hrun, hidle⟩

theorem keeps_of_stop (h : stop cfg s as = some r) : Keeps s r := by
  refine (call_keeps (I := Keeps s) (fun hq hin ht => hq.trans ?_) (fun ht => ?_) h).1
  · cases ht with
    | join | testNone | test | read => exact .goto
    | worker hi hs => exact .update hi hs
    | _ => cases hin
  · cases ht with
    | stop => exact .set

/-- Where a call of `start()` from `s` can be. -/
inductive Starting (s q : State) : Prop
  | returned (ha : s.is_alive = true) (hc : q.ctrl = .idle) (h : Keeps s q)
  | under (ha : s.is_alive = false) (hc : q.ctrl ≠ .idle)
      (hlength : q.threads.length = s.threads.length)
  | started (ha : s.is_alive = false) (hc : q.ctrl = .idle)
      (hthread : q._thread = some s.threads.length)
      (hlength : q.threads.length = s.threads.length + 1)

theorem Starting.step {t : State} (h : Starting s q) (hin : a.inStart = true)
    (ht : State.Trans cfg q a t) : Starting s t := by
  cases ht with
  | worker hi hs =>
    have hkeeps := Keeps.update hi hs
    cases h with
    | returned ha hc h => exact .returned ha hc (h.trans hkeeps)
    | under ha hc hlength => exact .under ha hc (hkeeps.threads.trans hlength)
    | started ha hc hthread hlength =>
      exact .started ha hc hthread (hkeeps.threads.trans hlength)
  | clear hq =>
    cases h with
    | under ha hc hlength => exact .under ha nofun hlength
    | returned ha hc | started ha hc => cases hc.symm.trans hq
  | spawn hq =>
    cases h with
    | under ha hc hlength =>
      refine .started ha rfl (congrArg some hlength) ?_
      rw [State.spawn, List.length_append, hlength, List.length_singleton]
    | returned ha hc | started ha hc => cases hc.symm.trans hq
  | _ => cases hin

/-- A thread that is alive stays, and another takes the place of one that is not. -/
theorem start_cases (h : start cfg s as = some r) :
    s.is_alive = true ∧ Keeps s r ∨
      s.is_alive = false ∧ r._thread = some s.threads.length ∧
        r.threads.length = s.threads.length + 1 := by
  obtain ⟨hstarting, hidle⟩ := call_keeps (I := Starting s) Starting.step (fun ht => by
    cases ht with
    | startAlive hc ha => exact .returned ha hc .refl
    | start hc ha => exact .under ha nofun rfl) h
  cases hstarting with
  | returned ha hc h => exact .inl ⟨ha, h⟩
  | under ha hc => exact absurd hidle hc
  | started ha hc hthread hlength => exact .inr ⟨ha, hthread, hlength⟩

end Simian.ScreenRecorder
