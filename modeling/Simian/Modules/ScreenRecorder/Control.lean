import Simian.Modules.ScreenRecorder.Worker

/-! # `start()` and `stop()` of `modules/screen_recorder.py`

One controlling thread calls `start()` and `stop()`; each worker thread ever created runs `_run`.
The controller's calls are cut at every read and write of what the workers share, and
`stop()`'s `join` returns whenever it likes: because the worker died or because its limit passed.

The current thread is the only one that can be alive, and the event tells whether it has been
told to stop (`Inv`). Hence at most one worker is alive, and a stop request is not lost
(`at_most_one_worker_and_no_lost_stop`). A start request can be: `start()` asks only whether the
thread is alive, so it returns without doing anything while a worker that was told to stop
finishes (`start_kept_iff`). -/

namespace Simian.ScreenRecorder

/-- A worker thread, and whether a `stop()` has set the event since its creation. -/
structure Thread where
  worker : Worker := {}
  told : Bool := false
  deriving DecidableEq

/-- Where the controlling thread is: between two calls; in `start()` about to clear the event,
then to create the thread; in `stop()` in the `join`, about to test `last_clip_path`, then about to
read it again. -/
inductive Ctrl
  | idle
  | clearing
  | spawning
  | joining
  | testing
  | reading
  deriving DecidableEq, Repr

/-- The recorder's attributes, the threads it has created, in order, and its controller;
`_thread` is an index into `threads`. -/
structure State where
  _stop : Bool := false
  last_clip_path : Option ClipPath := none
  _thread : Option Nat := none
  threads : List Thread := []
  ctrl : Ctrl := .idle
  deriving DecidableEq

/-- A step of the controller, or the next statement of thread `i`. -/
inductive Action
  | start
  | clear
  | spawn
  | stop
  | join
  | test
  | read
  | worker (i : Nat) (m : Move)

namespace State

def shared (s : State) : Shared := ⟨s._stop, s.last_clip_path⟩

def current (s : State) : Option Thread := s._thread.bind (s.threads[·]?)

/-- `self._thread and self._thread.is_alive()`. -/
def is_alive (s : State) : Bool := s.current.any (·.worker.alive)

def goto (s : State) (ctrl : Ctrl) : State := { s with ctrl := ctrl }

def clear (s : State) : State := { s with _stop := false, ctrl := .spawning }

def spawn (s : State) : State :=
  { s with _thread := some s.threads.length, threads := s.threads ++ [{}], ctrl := .idle }

def set (s : State) : State :=
  { s with
    _stop := true
    threads := s.threads.map fun th => { th with told := true }
    ctrl := if s._thread.isSome then .joining else .testing }

/-- Thread `i` was `th` and its worker took the step `m` to `w`. -/
def update (cfg : Config) (s : State) (i : Nat) (th : Thread) (m : Move) (w : Worker) : State :=
  { s with
    threads := s.threads.set i { th with worker := w }
    last_clip_path := (th.worker.assigns cfg m).or s.last_clip_path }

def step (cfg : Config) (s : State) : Action → Option State
  | .start => if s.ctrl = .idle then some (if s.is_alive then s else s.goto .clearing) else none
  | .clear => if s.ctrl = .clearing then some s.clear else none
  | .spawn => if s.ctrl = .spawning then some s.spawn else none
  | .stop => if s.ctrl = .idle then some s.set else none
  | .join => if s.ctrl = .joining then some (s.goto .testing) else none
  | .test =>
    if s.ctrl = .testing then
      some (s.goto (if s.last_clip_path.isSome then .reading else .idle))
    else none
  | .read => if s.ctrl = .reading then some (s.goto .idle) else none
  | .worker i m =>
    s.threads[i]?.bind fun th =>
      (th.worker.step cfg s.shared m).map (s.update cfg i th m)

end State

def machine (cfg : Config) : Machine State Action where
  init := {}
  step := State.step cfg

namespace State

/-! ## What a step can do -/

/-- The transitions of `step`, with what enables each of them. -/
inductive Trans (cfg : Config) (s : State) : Action → State → Prop
  | startAlive (hc : s.ctrl = .idle) (ha : s.is_alive = true) : Trans cfg s .start s
  | start (hc : s.ctrl = .idle) (ha : s.is_alive = false) : Trans cfg s .start (s.goto .clearing)
  | clear (hc : s.ctrl = .clearing) : Trans cfg s .clear s.clear
  | spawn (hc : s.ctrl = .spawning) : Trans cfg s .spawn s.spawn
  | stop (hc : s.ctrl = .idle) : Trans cfg s .stop s.set
  | join (hc : s.ctrl = .joining) : Trans cfg s .join (s.goto .testing)
  | testNone (hc : s.ctrl = .testing) (hp : s.last_clip_path = none) :
      Trans cfg s .test (s.goto .idle)
  | test (hc : s.ctrl = .testing) (hp : s.last_clip_path ≠ none) :
      Trans cfg s .test (s.goto .reading)
  | read (hc : s.ctrl = .reading) : Trans cfg s .read (s.goto .idle)
  | worker (hi : s.threads[i]? = some th) (hs : th.worker.step cfg s.shared m = some w) :
      Trans cfg s (.worker i m) (s.update cfg i th m w)

variable {cfg : Config} {s t : State} {a : Action}

theorem of_guard {c : Prop} [Decidable c] {r : State} (h : (if c then some r else none) = some t) :
    c ∧ t = r := by
  rw [Option.ite_none_right_eq_some] at h
  exact ⟨h.1, (Option.some.inj h.2).symm⟩

theorem step_trans (hs : s.step cfg a = some t) : Trans cfg s a t := by
  cases a with
  | start =>
    obtain ⟨hc, rfl⟩ := of_guard hs
    split
    · exact .startAlive hc ‹_›
    · exact .start hc (eq_false_of_ne_true ‹_›)
  | clear => obtain ⟨hc, rfl⟩ := of_guard hs; exact .clear hc
  | spawn => obtain ⟨hc, rfl⟩ := of_guard hs; exact .spawn hc
  | stop => obtain ⟨hc, rfl⟩ := of_guard hs; exact .stop hc
  | join => obtain ⟨hc, rfl⟩ := of_guard hs; exact .join hc
  | test =>
    obtain ⟨hc, rfl⟩ := of_guard hs
    split
    · exact .test hc (Option.isSome_iff_ne_none.1 ‹_›)
    · exact .testNone hc (Option.not_isSome_iff_eq_none.1 ‹_›)
  | read => obtain ⟨hc, rfl⟩ := of_guard hs; exact .read hc
  | worker i m =>
    obtain ⟨th, hi, hs⟩ := Option.bind_eq_some_iff.1 hs
    obtain ⟨w, hw, rfl⟩ := Option.map_eq_some_iff.1 hs
    exact .worker hi hw

theorem update_self {i : Nat} {th : Thread} {m : Move} {w : Worker}
    (hi : s.threads[i]? = some th) :
    (s.update cfg i th m w).threads[i]? = some { th with worker := w } := by
  obtain ⟨hlt, -⟩ := List.getElem?_eq_some_iff.1 hi
  rw [update, List.getElem?_set_self hlt]

theorem update_ne {i j : Nat} {th : Thread} {m : Move} {w : Worker} (hij : i ≠ j) :
    (s.update cfg i th m w).threads[j]? = s.threads[j]? := by
  rw [update, List.getElem?_set_ne hij]

theorem threads_update {i j : Nat} {th th' : Thread} {m : Move} {w : Worker}
    (hi : s.threads[i]? = some th) (hj : (s.update cfg i th m w).threads[j]? = some th') :
    j = i ∧ th' = { th with worker := w } ∨ j ≠ i ∧ s.threads[j]? = some th' := by
  by_cases hij : i = j
  · subst hij
    rw [update_self hi] at hj
    exact .inl ⟨rfl, (Option.some.inj hj).symm⟩
  · rw [update_ne hij] at hj
    exact .inr ⟨fun h => hij h.symm, hj⟩

@[simp] theorem length_update {i : Nat} {th : Thread} {m : Move} {w : Worker} :
    (s.update cfg i th m w).threads.length = s.threads.length := by
  simp [update]

theorem is_alive_iff :
    s.is_alive = true ↔ ∃ th, s.current = some th ∧ th.worker.alive = true := by
  rw [is_alive, Option.any_eq_true]

/-! ## The invariant -/

/-- The current thread is the newest one, and no other is alive; none is alive while `start()`
makes a new one; the current thread has been told to stop exactly when the event is set. Every
worker runs `_run`. -/
structure Inv (cfg : Config) (s : State) : Prop where
  latest : ∀ i, s._thread = some i ↔ i + 1 = s.threads.length
  alive : ∀ (i : Nat) (th : Thread), s.threads[i]? = some th → th.worker.alive = true →
    i + 1 = s.threads.length
  starting : s.ctrl = .clearing ∨ s.ctrl = .spawning →
    ∀ (i : Nat) (th : Thread), s.threads[i]? = some th → th.worker.alive = false
  cleared : s.ctrl = .spawning → s._stop = false
  told : s.ctrl ≠ .spawning →
    ∀ (i : Nat) (th : Thread), s.threads[i]? = some th → i + 1 = s.threads.length →
      th.told = s._stop
  reading : s.ctrl = .reading → s.last_clip_path ≠ none
  workers : ∀ (i : Nat) (th : Thread), s.threads[i]? = some th →
    (workerMachine cfg).Reachable th.worker

theorem Inv.local (h : Inv cfg s) {i : Nat} {th : Thread} (hi : s.threads[i]? = some th) :
    th.worker.Local :=
  (h.workers i th hi).invariant local_inductive

theorem Inv.current_eq_some (h : Inv cfg s) {th : Thread} :
    s.current = some th ↔ ∃ i, s.threads[i]? = some th ∧ i + 1 = s.threads.length := by
  simp only [current, Option.bind_eq_some_iff, h.latest]
  constructor
  · rintro ⟨i, hi, hth⟩
    exact ⟨i, hth, hi⟩
  · rintro ⟨i, hth, hi⟩
    exact ⟨i, hi, hth⟩

/-- If the current thread is not alive, none is. -/
theorem Inv.none_alive (h : Inv cfg s) (ha : s.is_alive = false) {i : Nat} {th : Thread}
    (hi : s.threads[i]? = some th) : th.worker.alive = false := by
  by_contra hne
  have hal := eq_true_of_ne_false hne
  have hcur := h.current_eq_some.2 ⟨i, hi, h.alive i th hi hal⟩
  simp [is_alive, hcur, hal] at ha

theorem threads_init {i : Nat} {th : Thread} : ({} : State).threads[i]? ≠ some th := by
  simp

theorem Inv.init : Inv cfg {} where
  latest i := by simp
  alive _ _ hi := absurd hi threads_init
  starting _ _ _ hi := absurd hi threads_init
  cleared := nofun
  told _ _ _ hi := absurd hi threads_init
  reading := nofun
  workers _ _ hi := absurd hi threads_init

/-- The controller moves on, not to the creation of a thread, without doing anything. -/
theorem Inv.goto (h : Inv cfg s) {ctrl : Ctrl} (hs : s.ctrl ≠ .spawning) (hc : ctrl ≠ .spawning)
    (hclear : ctrl = .clearing → s.is_alive = false)
    (hread : ctrl = .reading → s.last_clip_path ≠ none) : Inv cfg (s.goto ctrl) where
  latest := h.latest
  alive := h.alive
  starting := by
    rintro (hc' | hc') i th hi
    · exact h.none_alive (hclear hc') hi
    · exact absurd hc' hc
  cleared hc' := absurd hc' hc
  told _ := h.told hs
  reading := hread
  workers := h.workers

theorem Inv.clear (h : Inv cfg s) (hc : s.ctrl = .clearing) : Inv cfg s.clear where
  latest := h.latest
  alive := h.alive
  starting _ := h.starting (.inl hc)
  cleared _ := rfl
  told hc' := absurd rfl hc'
  reading := nofun
  workers := h.workers

theorem threads_spawn {i : Nat} {th : Thread} (hi : s.spawn.threads[i]? = some th) :
    i = s.threads.length ∧ th = {} ∨ i < s.threads.length ∧ s.threads[i]? = some th := by
  have hlt : i < s.threads.length + 1 := by
    obtain ⟨hlt, -⟩ := List.getElem?_eq_some_iff.1 hi
    simpa [spawn] using hlt
  rcases Nat.lt_succ_iff_lt_or_eq.1 hlt with hlt | rfl
  · exact .inr ⟨hlt, by rwa [spawn, List.getElem?_append_left hlt] at hi⟩
  · rw [spawn, List.getElem?_concat_length] at hi
    exact .inl ⟨rfl, (Option.some.inj hi).symm⟩

theorem Inv.spawn (h : Inv cfg s) (hc : s.ctrl = .spawning) : Inv cfg s.spawn where
  latest i := by
    simp only [State.spawn, List.length_append, List.length_singleton, Option.some.injEq]
    omega
  alive i th hi ha := by
    rcases threads_spawn hi with ⟨rfl, rfl⟩ | ⟨-, hi⟩
    · simp [State.spawn]
    · cases (h.starting (.inr hc) i th hi).symm.trans ha
  starting hc' := by rcases hc' with hc' | hc' <;> cases hc'
  cleared := nofun
  told _ i th hi hlast := by
    rcases threads_spawn hi with ⟨rfl, rfl⟩ | ⟨hlt, -⟩
    · exact (h.cleared hc).symm
    · simp only [State.spawn, List.length_append, List.length_singleton] at hlast
      omega
  reading := nofun
  workers i th hi := by
    rcases threads_spawn hi with ⟨-, rfl⟩ | ⟨-, hi⟩
    · exact .init
    · exact h.workers i th hi

theorem threads_set {i : Nat} {th : Thread} (hi : s.set.threads[i]? = some th) :
    ∃ th', s.threads[i]? = some th' ∧ th = { th' with told := true } := by
  rw [set, List.getElem?_map] at hi
  obtain ⟨th', hi', rfl⟩ := Option.map_eq_some_iff.1 hi
  exact ⟨th', hi', rfl⟩

theorem Inv.set (h : Inv cfg s) : Inv cfg s.set where
  latest i := by simpa [State.set] using h.latest i
  alive i th hi ha := by
    obtain ⟨th', hi', rfl⟩ := threads_set hi
    simpa [State.set] using h.alive i th' hi' ha
  starting hc := by
    simp only [State.set] at hc
    split at hc <;> simp at hc
  cleared hc := by
    simp only [State.set] at hc
    split at hc <;> cases hc
  told _ i th hi _ := by
    obtain ⟨th', -, rfl⟩ := threads_set hi
    rfl
  reading hc := by
    simp only [State.set] at hc
    split at hc <;> cases hc
  workers i th hi := by
    obtain ⟨th', hi', rfl⟩ := threads_set hi
    exact h.workers i th' hi'

/-- A worker that takes a step was alive before it. -/
theorem alive_of_step {w w' : Worker} {m : Move} (hs : w.step cfg s.shared m = some w') :
    w.alive = true :=
  (Worker.step_trans hs).alive

theorem Inv.update (h : Inv cfg s) {i : Nat} {th : Thread} {m : Move} {w : Worker}
    (hi : s.threads[i]? = some th) (hs : th.worker.step cfg s.shared m = some w) :
    Inv cfg (s.update cfg i th m w) where
  latest j := by
    rw [length_update]
    exact h.latest j
  alive j th' hj ha := by
    rw [length_update]
    rcases threads_update hi hj with ⟨rfl, rfl⟩ | ⟨-, hj⟩
    · exact h.alive j th hi (alive_of_step hs)
    · exact h.alive j th' hj ha
  starting hc := by
    cases (h.starting hc i th hi).symm.trans (alive_of_step hs)
  cleared := h.cleared
  told hc j th' hj hlast := by
    rw [length_update] at hlast
    rcases threads_update hi hj with ⟨rfl, rfl⟩ | ⟨-, hj⟩
    · exact h.told hc j th hi hlast
    · exact h.told hc j th' hj hlast
  reading hc := by
    simp only [State.update]
    have hp := h.reading hc
    cases th.worker.assigns cfg m with
    | none => exact hp
    | some p => nofun
  workers j th' hj := by
    rcases threads_update hi hj with ⟨rfl, rfl⟩ | ⟨-, hj⟩
    · exact Machine.Reachable.step (a := (s.shared, m)) (h.workers j th hi) hs
    · exact h.workers j th' hj

theorem Inv.step (h : Inv cfg s) (ht : Trans cfg s a t) : Inv cfg t := by
  cases ht with
  | startAlive => exact h
  | start hc ha => exact h.goto (by simp [hc]) nofun (fun _ => ha) nofun
  | clear hc => exact h.clear hc
  | spawn hc => exact h.spawn hc
  | stop => exact h.set
  | join hc | testNone hc | read hc => exact h.goto (by simp [hc]) nofun nofun nofun
  | test hc hp => exact h.goto (by simp [hc]) nofun nofun fun _ => hp
  | worker hi hs => exact h.update hi hs

theorem inv_inductive : (machine cfg).Inductive (Inv cfg) :=
  ⟨.init, fun h hs => h.step (step_trans hs)⟩

/-! ## No lost stop -/

/-- Thread `i` has been told to stop and has `n` frames written or due. -/
def Told (i n : Nat) (s : State) : Prop :=
  ∃ th, s.threads[i]? = some th ∧ th.told = true ∧ th.worker.due ≤ n

/-- While a thread that has been told to stop is alive, the event stays set. -/
theorem Inv.stop_of_told (h : Inv cfg s) {i : Nat} {th : Thread} (hi : s.threads[i]? = some th)
    (ha : th.worker.alive = true) (ht : th.told = true) : s._stop = true := by
  have hc : s.ctrl ≠ .spawning := by
    intro hc
    cases (h.starting (.inr hc) i th hi).symm.trans ha
  rw [← h.told hc i th hi (h.alive i th hi ha), ht]

theorem Told.step {i n : Nat} (hs : Told i n s) (h : Inv cfg s) (ht : Trans cfg s a t) :
    Told i n t := by
  obtain ⟨th, hi, htold, hdue⟩ := hs
  cases ht with
  | spawn =>
    refine ⟨th, ?_, htold, hdue⟩
    obtain ⟨hlt, -⟩ := List.getElem?_eq_some_iff.1 hi
    rw [spawn, List.getElem?_append_left hlt, hi]
  | stop =>
    refine ⟨{ th with told := true }, ?_, rfl, hdue⟩
    rw [set, List.getElem?_map, hi]
    rfl
  | @worker j th' w m hj hw =>
    by_cases hij : j = i
    · subst hij
      cases hi.symm.trans hj
      have hstop := h.stop_of_told hi (alive_of_step hw) htold
      exact ⟨_, update_self hi, htold,
        Nat.le_trans ((Worker.step_trans hw).due_le hstop) hdue⟩
    · exact ⟨th, (update_ne hij).trans hi, htold, hdue⟩
  | _ => exact ⟨th, hi, htold, hdue⟩

end State

variable {cfg : Config}

theorem machine_trans {s t : State} {a : Action} (hs : (machine cfg).step s a = some t) :
    State.Trans cfg s a t :=
  State.step_trans hs

/-- In every reachable state at most one worker is alive; and a worker that is alive when
a `stop()` sets the event writes at most one more frame, whatever follows. -/
theorem at_most_one_worker_and_no_lost_stop {s : State} (hs : (machine cfg).Reachable s) :
    (∀ (i j : Nat) (th th' : Thread), s.threads[i]? = some th → th.worker.alive = true →
      s.threads[j]? = some th' → th'.worker.alive = true → i = j) ∧
    ∀ (i : Nat) (th : Thread) (t u : State) (as : List Action), s.threads[i]? = some th →
      th.worker.alive = true → (machine cfg).step s .stop = some t →
      (machine cfg).run t as = some u →
        ∃ th', u.threads[i]? = some th' ∧ th'.worker.frames ≤ th.worker.frames + 1 := by
  have h := hs.invariant State.inv_inductive
  constructor
  · intro i j th th' hi ha hj ha'
    exact Nat.succ.inj ((h.alive i th hi ha).trans (h.alive j th' hj ha').symm)
  · intro i th t u as hi _ hstop hrun
    have htrans := machine_trans hstop
    have htold : State.Told i (th.worker.frames + 1) t := by
      cases htrans
      refine ⟨{ th with told := true }, ?_, rfl, Worker.due_le⟩
      rw [State.set, List.getElem?_map, hi]
      rfl
    have hend : State.Inv cfg u ∧ State.Told i (th.worker.frames + 1) u := by
      refine Machine.run_keeps (I := fun s => State.Inv cfg s ∧ State.Told i _ s) ?_
        ⟨h.step htrans, htold⟩ hrun
      rintro s a t ⟨h, htold⟩ hstep
      exact ⟨h.step (machine_trans hstep), htold.step h (machine_trans hstep)⟩
    obtain ⟨-, th', hi', -, hdue⟩ := hend
    exact ⟨th', hi', Nat.le_trans Worker.frames_le_due hdue⟩

/-- One monitor, recorded with dxcam. -/
def oneMonitor : Config where
  clips_dir := "data/clips"
  fps := 15
  monitor_indexes := none
  HAS_DXCAM := true
  HAS_MSS := true
  localtime _ := default

def oneOutput (grab : Grab) : Screen where
  outputs := some 1
  grab _ _ := grab
  monitors := none
  shot _ _ := none

def onePixel : Screen := oneOutput (.frame (Grid.full 1 1 0))

/-- Thread `i` up to its first loop test, its clock showing `t`. -/
def openClip (i : Nat) (t : Int) : List Action :=
  [.go, .capture onePixel, .clock t, .go, .go, .go].map (.worker i)

/-- The first session with its file open, between two calls. -/
def openState (stop : Bool) (pc : Pc) (written : List Frame) (ctrl : Ctrl) : State where
  _stop := stop
  last_clip_path := some (clipPath "data/clips" default)
  _thread := some 0
  threads := [⟨⟨pc, [0], (1, 1), some 0,
    some ⟨clipPath "data/clips" default, 15, (1, 1), written, false⟩⟩, stop⟩]
  ctrl := ctrl

-- The worker has passed its loop test when the event is set, so it writes one more frame.
theorem at_most_one_worker_and_no_lost_stop_mid_capture :
    ∃ th', (openState true .pace [Grid.full 1 1 0] .joining).threads[0]? = some th' ∧
      th'.worker.frames ≤ 0 + 1 := by
  have hs : (machine oneMonitor).Reachable (openState false .capture [] .idle) :=
    ⟨[.start, .clear, .spawn] ++ openClip 0 0 ++ [.worker 0 .go], rfl⟩
  exact (at_most_one_worker_and_no_lost_stop hs).2 0 _ (openState true .capture [] .joining) _
    [.worker 0 (.capture onePixel), .worker 0 .go] rfl rfl rfl rfl

/-! ## No lost start -/

/-- This step is the return of a `start()`, at once or after the creation of a thread. -/
def StartReturns (a : Action) (t : State) : Prop := a = .start ∧ t.ctrl = .idle ∨ a = .spawn

/-- The event is clear and the current thread has not been told to stop. -/
def Recording (s : State) : Prop := s._stop = false ∧ ∃ th, s.current = some th ∧ th.told = false

theorem State.Trans.recording_iff {s t : State} {a : Action} (ht : Trans cfg s a t)
    (h : Inv cfg s) : (StartReturns a t → Recording t) ↔
      (a = .start → s.is_alive = true → s._stop = false) := by
  cases ht with
  | startAlive hc ha =>
    obtain ⟨th, hth, -⟩ := is_alive_iff.1 ha
    obtain ⟨i, hi, hlast⟩ := h.current_eq_some.1 hth
    have htold := h.told (by simp [hc]) i th hi hlast
    constructor
    · intro hrec _ _
      exact (hrec (.inl ⟨rfl, hc⟩)).1
    · intro hstop _
      have hclear := hstop rfl ha
      exact ⟨hclear, th, hth, htold.trans hclear⟩
  | start hc ha => simp [StartReturns, goto, ha]
  | spawn hc =>
    refine ⟨fun _ => nofun, fun _ _ => ⟨h.cleared hc, {}, ?_, rfl⟩⟩
    simp [State.current, State.spawn]
  | _ => simp [StartReturns]

/-- Every `start()` that returns leaves the event clear and a current thread not told to stop if
and only if no `start()` finds a thread alive with the event set. -/
theorem start_kept_iff (as : List Action) :
    (machine cfg).EveryStep (fun _ a t => StartReturns a t → Recording t) (machine cfg).init as ↔
      (machine cfg).EveryStep (fun s a _ => a = .start → s.is_alive = true → s._stop = false)
        (machine cfg).init as :=
  Machine.everyStep_congr (fun h hs => State.inv_inductive.step h hs)
    (fun h hs => (machine_trans hs).recording_iff h) State.inv_inductive.init

-- The `join` times out, and the next `start()` finds the worker alive and the event set.
theorem not_always_kept :
    ¬ ∀ (cfg : Config) (as : List Action),
      (machine cfg).EveryStep (fun _ a t => StartReturns a t → Recording t)
        (machine cfg).init as := by
  intro h
  have hrun : (machine oneMonitor).run (machine oneMonitor).init
      [.start, .clear, .spawn, .stop, .join, .test] =
        some ⟨true, none, some 0, [{ told := true }], .idle⟩ := rfl
  obtain ⟨hrec, -⟩ :=
    (h oneMonitor [.start, .clear, .spawn, .stop, .join, .test, .start]).split hrun rfl
  cases (hrec (.inl ⟨rfl, rfl⟩)).1

end Simian.ScreenRecorder
