import Simian.Modules.ScreenRecorder.Calls

/-! # The monitor's timer

The "Screen Monitor" tab of `gui/simian_gui.py` over the recorder it controls. Each press of Start
Monitor makes a callback that calls itself again every second with the clock of that press, as long
as a worker is alive. `recorder.start()` makes no second worker while one is alive; nothing keeps
`on_start_mon` from a second callback, nor from counting from the press. `ticks_iff` says for which
presses the label is right. The literal of lines 99 and 100 is read as one line, and the package
`gui` as if it could be imported. -/

namespace Simian.SimianGui
open ScreenRecorder (Config Action Move Keeps)

structure State where
  recorder : ScreenRecorder.State
  /-- What the clock showed when each thread was started. -/
  started : List Int
  /-- The `start[0]` of each callback that is pending. -/
  pending : List Int := []
  /-- The seconds on the label. -/
  sec : Int := 0

/-- The window with the recorder as it was started at launch. -/
def launch (now : Int) : State where
  recorder := (ScreenRecorder.State.goto {} .clearing).clear.spawn
  started := [now]

namespace State

def tick (s : State) (start now : Int) : State :=
  if s.recorder.is_alive then { s with sec := now - start, pending := s.pending ++ [start] } else s

/-- The recorder has become `r` by a `start()`, at whose return the clock shows `noted`. -/
def restarted (s : State) (r : ScreenRecorder.State) (noted : Int) : State :=
  { s with
    recorder := r
    started := s.started ++
      List.replicate (r.threads.length - s.recorder.threads.length) noted }

def on_start_mon (cfg : Config) (s : State) (noted now : Int) (as : List Action) : Option State :=
  (ScreenRecorder.start cfg s.recorder as).map fun r => (s.restarted r noted).tick noted now

def on_stop_mon (cfg : Config) (s : State) (as : List Action) : Option State :=
  (ScreenRecorder.stop cfg s.recorder as).map fun r => { s with recorder := r }

def on_stop_rec (cfg : Config) (s : State) (as : List Action) : Option State :=
  (ScreenRecorder.stop cfg s.recorder as).map fun r => { s with recorder := r }

/-- The `k`-th pending callback is called. -/
def fire (s : State) (k : Nat) (now : Int) : Option State :=
  s.pending[k]?.map fun start => tick { s with pending := s.pending.eraseIdx k } start now

end State

/-- A press with the readings of the clock in it and the steps of the call in it, the firing of a
timer, or a step of a worker. -/
inductive Event
  | start_mon (noted now : Int) (as : List Action)
  | stop_mon (as : List Action)
  | stop_rec (as : List Action)
  | fire (k : Nat) (now : Int)
  | worker (i : Nat) (m : Move)

def State.step (cfg : Config) (s : State) : Event → Option State
  | .start_mon noted now as => s.on_start_mon cfg noted now as
  | .stop_mon as => s.on_stop_mon cfg as
  | .stop_rec as => s.on_stop_rec cfg as
  | .fire k now => s.fire k now
  | .worker i m => (s.recorder.step cfg (.worker i m)).map fun r => { s with recorder := r }

def mainloop (cfg : Config) (now : Int) : Machine State Event where
  init := launch now
  step := State.step cfg

theorem launch_recorder {cfg : Config} {now : Int} :
    ScreenRecorder.start cfg {} [.clear, .spawn] = some (launch now).recorder := rfl

/-- When the current thread was started. -/
def State.since (s : State) : Option Int := s.recorder._thread.bind (s.started[·]?)

/-- The clock as its tick reads it. -/
def Event.reading : Event → Option Int
  | .start_mon _ now _ | .fire _ now => some now
  | _ => none

/-- A tick that updates the label shows the seconds since the worker was started. -/
def Counted (e : Event) (t : State) : Prop :=
  ∀ now, e.reading = some now → t.recorder.is_alive = true →
    ∃ since, t.since = some since ∧ t.sec = now - since

/-- A press of Start Monitor after which a worker is alive finds no callback pending, and any worker
that was alive before started when the clock showed the same. -/
def Fresh (cfg : Config) (s : State) : Event → Prop
  | .start_mon noted _ as => ∀ r, ScreenRecorder.start cfg s.recorder as = some r →
      r.is_alive = true →
        s.pending = [] ∧ (s.recorder.is_alive = true → s.since = some noted)
  | _ => True

namespace State

/-! ## What a step can do -/

inductive Trans (cfg : Config) (s : State) : Event → State → Prop
  | start_mon {r} (h : ScreenRecorder.start cfg s.recorder as = some r) :
      Trans cfg s (.start_mon noted now as) ((s.restarted r noted).tick noted now)
  | fire (h : s.pending[k]? = some start) :
      Trans cfg s (.fire k now) (tick { s with pending := s.pending.eraseIdx k } start now)
  | other {r} (hnone : e.reading = none) (h : Keeps s.recorder r) :
      Trans cfg s e { s with recorder := r }

variable {cfg : Config} {s t : State} {e : Event} {now noted start : Int}

theorem step_trans (hs : s.step cfg e = some t) : Trans cfg s e t := by
  cases e with
  | start_mon noted now as =>
    obtain ⟨r, hr, rfl⟩ := Option.map_eq_some_iff.1 hs
    exact .start_mon hr
  | fire k now =>
    obtain ⟨start, hk, rfl⟩ := Option.map_eq_some_iff.1 hs
    exact .fire hk
  | stop_mon as | stop_rec as =>
    obtain ⟨r, hr, rfl⟩ := Option.map_eq_some_iff.1 hs
    exact .other rfl (ScreenRecorder.keeps_of_stop hr)
  | worker i m =>
    obtain ⟨r, hr, rfl⟩ := Option.map_eq_some_iff.1 hs
    cases ScreenRecorder.State.step_trans hr with
    | worker hi hw => exact .other rfl (.update hi hw)

theorem tick_of_dead (h : s.recorder.is_alive = false) : s.tick start now = s := by
  rw [tick, h]
  rfl

theorem tick_of_alive (h : s.recorder.is_alive = true) : s.tick start now =
    { s with sec := now - start, pending := s.pending ++ [start] } := if_pos h

@[simp] theorem tick_recorder : (s.tick start now).recorder = s.recorder := by
  rw [tick]
  split
  · rfl
  · rfl

@[simp] theorem tick_started : (s.tick start now).started = s.started := by
  rw [tick]
  split
  · rfl
  · rfl

@[simp] theorem tick_since : (s.tick start now).since = s.since := by
  rw [since, tick_recorder, tick_started, since]

theorem since_of_keeps {r : ScreenRecorder.State} (h : Keeps s.recorder r) :
    since { s with recorder := r } = s.since := by
  rw [since, h.thread, since]

theorem restarted_of_keeps {r : ScreenRecorder.State} (h : Keeps s.recorder r) :
    s.restarted r noted = { s with recorder := r } := by
  rw [restarted, h.threads, Nat.sub_self, List.replicate_zero, List.append_nil]

/-! ## The invariants -/

/-- The start of every thread is known. -/
def Known (s : State) : Prop := s.started.length = s.recorder.threads.length

theorem restarted_of_spawn {r : ScreenRecorder.State} (h : s.Known)
    (hthread : r._thread = some s.recorder.threads.length)
    (hlength : r.threads.length = s.recorder.threads.length + 1) :
    (s.restarted r noted).since = some noted ∧ (s.restarted r noted).Known := by
  have hstarted : (s.restarted r noted).started = s.started ++ [noted] := by
    rw [restarted, hlength, Nat.add_sub_cancel_left]
    rfl
  constructor
  · have hcurrent : (s.restarted r noted).recorder._thread = some s.started.length :=
      hthread.trans (congrArg some h.symm)
    rw [since, hcurrent, Option.bind_some, hstarted, List.getElem?_concat_length]
  · rw [Known, hstarted, List.length_append, h]
    exact hlength.symm

theorem Trans.known (ht : Trans cfg s e t) (h : s.Known) : t.Known := by
  cases ht with
  | start_mon hr =>
    rw [Known, tick_started, tick_recorder]
    rcases ScreenRecorder.start_cases hr with ⟨-, hkeeps⟩ | ⟨-, hthread, hlength⟩
    · rw [restarted_of_keeps hkeeps]
      exact h.trans hkeeps.threads.symm
    · exact (restarted_of_spawn h hthread hlength).2
  | fire hk =>
    rw [Known, tick_started, tick_recorder]
    exact h
  | other _ hkeeps => exact h.trans hkeeps.threads.symm

/-- At most one callback is pending, and while a worker is alive it counts from its start. -/
structure Timely (s : State) : Prop where
  one : s.pending.length ≤ 1
  since : s.recorder.is_alive = true → ∀ start ∈ s.pending, s.since = some start

/-- A press after which the label is right was fresh. -/
theorem Trans.fresh (ht : Trans cfg s e t) (hone : t.pending.length ≤ 1) (hcount : Counted e t) :
    Fresh cfg s e := by
  cases ht with
  | @start_mon as noted now r hr =>
    intro r' hr' halive
    cases hr.symm.trans hr'
    have halive' : (s.restarted r noted).recorder.is_alive = true := halive
    rw [tick_of_alive halive'] at hone
    have hnil : s.pending = [] := by
      rw [List.length_append, List.length_singleton] at hone
      exact List.length_eq_zero_iff.1 (Nat.le_zero.1 (Nat.le_of_succ_le_succ hone))
    refine ⟨hnil, fun hbefore => ?_⟩
    obtain ⟨since, hsince, hsec⟩ := hcount now rfl (by rwa [tick_recorder])
    rcases ScreenRecorder.start_cases hr with ⟨-, hkeeps⟩ | ⟨hdead, -⟩
    · rw [tick_since, restarted_of_keeps hkeeps, since_of_keeps hkeeps] at hsince
      rw [tick_of_alive halive'] at hsec
      have heq : since = noted := by
        dsimp only at hsec
        omega
      rw [hsince, heq]
    · cases hdead.symm.trans hbefore
  | fire => trivial
  | other hnone =>
    cases e with
    | start_mon => cases hnone
    | _ => trivial

theorem Timely.of_dead (h : s.pending.length ≤ 1) (hdead : s.recorder.is_alive = false) :
    s.Timely ∧ Counted e s := by
  refine ⟨⟨h, fun halive => ?_⟩, fun now _ halive => ?_⟩
  · cases hdead.symm.trans halive
  · cases hdead.symm.trans halive

/-- A tick when nothing else is pending. -/
theorem Timely.tick (hnil : s.pending = [])
    (hsince : s.recorder.is_alive = true → s.since = some start) (hnow : e.reading = some now) :
    (s.tick start now).Timely ∧ Counted e (s.tick start now) := by
  cases halive : s.recorder.is_alive with
  | true =>
    have hpending : (s.tick start now).pending = [start] := by
      rw [tick_of_alive halive, hnil]
      rfl
    refine ⟨⟨?_, fun _ start' hstart' => ?_⟩, fun now' hnow' _ => ⟨start, ?_, ?_⟩⟩
    · rw [hpending, List.length_singleton]
    · rw [hpending, List.mem_singleton] at hstart'
      rw [tick_since, hstart', hsince halive]
    · rw [tick_since, hsince halive]
    · cases hnow.symm.trans hnow'
      rw [tick_of_alive halive]
  | false =>
    rw [tick_of_dead halive]
    apply Timely.of_dead _ halive
    rw [hnil]
    exact Nat.zero_le 1

theorem Trans.timely (ht : Trans cfg s e t) (hk : s.Known) (h : s.Timely) (hf : Fresh cfg s e) :
    t.Timely ∧ Counted e t := by
  cases ht with
  | @start_mon as noted now r hr =>
    cases halive : r.is_alive with
    | true =>
      obtain ⟨hnil, hbefore⟩ := hf r hr halive
      have hsince : (s.restarted r noted).since = some noted := by
        rcases ScreenRecorder.start_cases hr with ⟨ha, hkeeps⟩ | ⟨-, hthread, hlength⟩
        · rw [restarted_of_keeps hkeeps, since_of_keeps hkeeps]
          exact hbefore ha
        · exact (restarted_of_spawn hk hthread hlength).1
      have hnil' : (s.restarted r noted).pending = [] := hnil
      exact Timely.tick hnil' (fun _ => hsince) rfl
    | false =>
      have hdead : (s.restarted r noted).recorder.is_alive = false := halive
      rw [tick_of_dead hdead]
      exact Timely.of_dead h.one hdead
  | @fire k start now hpending =>
    have hsince : s.recorder.is_alive = true → s.since = some start := by
      intro halive
      exact h.since halive start (List.mem_of_getElem? hpending)
    have hnil : s.pending.eraseIdx k = [] := by
      obtain ⟨hk, -⟩ := List.getElem?_eq_some_iff.1 hpending
      rw [← List.length_eq_zero_iff, List.length_eraseIdx_of_lt hk]
      have hone := h.one
      omega
    exact Timely.tick hnil hsince rfl
  | other hnone hkeeps =>
    refine ⟨⟨h.one, fun halive start hstart => ?_⟩, fun now hnow => ?_⟩
    · rw [since_of_keeps hkeeps]
      exact h.since (hkeeps.alive halive) start hstart
    · cases hnone.symm.trans hnow

end State

variable {cfg : Config} {s : State} {t₀ : Int}

/-- The recorder behind the window does what a recorder does. -/
theorem recorder_reachable (h : (mainloop cfg t₀).Reachable s) :
    (ScreenRecorder.machine cfg).Reachable s.recorder := by
  have hrun : ∀ {q r as}, (ScreenRecorder.machine cfg).Reachable q →
      (ScreenRecorder.machine cfg).run q as = some r → (ScreenRecorder.machine cfg).Reachable r :=
    Machine.run_keeps .step
  apply h.invariant
  refine ⟨hrun .init (ScreenRecorder.run_of_call launch_recorder).1, fun {s e t} hs hstep => ?_⟩
  cases e with
  | start_mon noted now as =>
    obtain ⟨r, hr, rfl⟩ := Option.map_eq_some_iff.1 hstep
    rw [State.tick_recorder]
    exact hrun hs (ScreenRecorder.run_of_call hr).1
  | stop_mon as | stop_rec as =>
    obtain ⟨r, hr, rfl⟩ := Option.map_eq_some_iff.1 hstep
    exact hrun hs (ScreenRecorder.run_of_call hr).1
  | fire k now =>
    obtain ⟨start, -, rfl⟩ := Option.map_eq_some_iff.1 hstep
    rw [State.tick_recorder]
    exact hs
  | worker i m =>
    obtain ⟨r, hr, rfl⟩ := Option.map_eq_some_iff.1 hstep
    exact Machine.Reachable.step (a := .worker i m) hs hr

/-- The worker from whose start the label is to count is the only one that can be alive. -/
theorem thread_of_alive (h : (mainloop cfg t₀).Reachable s) {i : Nat} {th : ScreenRecorder.Thread}
    (hi : s.recorder.threads[i]? = some th) (halive : th.worker.alive = true) :
    s.recorder._thread = some i := by
  have hinv := (recorder_reachable h).invariant ScreenRecorder.State.inv_inductive
  exact (hinv.latest i).2 (hinv.alive i th hi halive)

/-- At most one callback is pending and the label counts from the start of the worker as long as
every press of Start Monitor is fresh, and only so long. -/
theorem ticks_iff (events : List Event) :
    (mainloop cfg t₀).EveryStep (fun _ e t => t.pending.length ≤ 1 ∧ Counted e t)
        (mainloop cfg t₀).init events ↔
      (mainloop cfg t₀).EveryStep (fun s e _ => Fresh cfg s e) (mainloop cfg t₀).init events := by
  constructor
  · intro hright
    refine hright.imp (I := fun _ => True) (fun _ _ _ => trivial) ?_ trivial hright
    intro s e t _ hs hgood _
    exact (State.step_trans hs).fresh hgood.1 hgood.2
  · intro hfresh
    refine hfresh.imp (I := fun s => s.Known ∧ s.Timely) ?_ ?_ ⟨rfl, Nat.zero_le 1, nofun⟩ hfresh
    · intro s e t hI hs hf
      have ht := State.step_trans hs
      exact ⟨ht.known hI.1, (ht.timely hI.1 hI.2 hf).1⟩
    · intro s e t hI hs hf _
      obtain ⟨htimely, hcounted⟩ := (State.step_trans hs).timely hI.1 hI.2 hf
      exact ⟨htimely.one, hcounted⟩

-- The worker runs since the launch when the button is pressed, and pressed again.
theorem ticks_two_presses :
    ¬ ∀ (cfg : Config) (t₀ : Int) (events : List Event),
      (mainloop cfg t₀).EveryStep (fun _ e t => t.pending.length ≤ 1 ∧ Counted e t)
        (mainloop cfg t₀).init events := by
  intro h
  obtain ⟨-, hsecond⟩ :=
    h ScreenRecorder.oneMonitor 0 [.start_mon 60 60 [], .start_mon 62 62 []] _ rfl
  obtain ⟨⟨hone, -⟩, -⟩ := hsecond _ rfl
  cases Nat.le_of_succ_le_succ hone

end Simian.SimianGui
