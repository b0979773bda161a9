import Simian.Lib.Machine
import Mathlib.Tactic.ByContra

/-! # The monitor loop of `services/screen_monitor.py`

Any number of callers run `start()` and `stop()` against one module-level flag, and every
`start()` that sets the flag spawns a `_run` loop outside the lock. The blocks under `_lock` and
the spawn are the atomic steps; a list of `Action`s is an interleaving of them.

`start()` tests only the flag. A loop that sleeps while `stop()` clears the flag and a second
`start()` sets it again never sees the flag false, so the guard admits a second loop
(`stale_start_adds_loop`). At most one loop runs exactly in the interleavings where each
`start()` that finds the flag clear finds no such loop (`atMostOneLoop_iff`). In the other
direction no start is lost: the latest session stays present while the flag is set
(`Inv.latest`). -/

namespace Simian.ScreenMonitor

/-- Where a `start()` call that set the flag, and then the `_run` loop it spawns, has got to:
past the locked block with the thread not spawned yet; about to test the flag; in
`time.sleep(1.0)`; gone after a test that found the flag false; or without a loop because
`Thread.start` raised. -/
inductive Phase
  | spawning
  | testing
  | sleeping
  | exited
  | unspawned
  deriving DecidableEq, Repr

/-- The loop is live or about to be spawned. -/
def Phase.present : Phase → Bool
  | .spawning | .testing | .sleeping => true
  | .exited | .unspawned => false

/-- The module's globals, and one entry for each `start()` call that set the flag, in the order
of the calls. -/
structure State where
  _monitor_flag : Bool := false
  sessions : List Phase := []
  deriving DecidableEq, Repr

/-- The atomic steps: the locked test-and-set of `start()` and the locked clear of `stop()`, by
any caller; the spawn of session `i` by the call that opened it, which may raise; and for the
`_run` loop of session `i` its locked test and the end of its sleep. -/
inductive Action
  | start
  | spawn (i : Nat)
  | spawnRaises (i : Nat)
  | stop
  | test (i : Nat)
  | wake (i : Nat)
  deriving DecidableEq, Repr

/-- Session `i` moves from the phase `old` to the phase `new`. -/
def State.move (s : State) (i : Nat) (old new : Phase) : Option State :=
  if s.sessions[i]? = some old then some { s with sessions := s.sessions.set i new } else none

def start (s : State) : State :=
  if s._monitor_flag then s
  else { s with _monitor_flag := true, sessions := s.sessions ++ [.spawning] }

def stop (s : State) : State := { s with _monitor_flag := false }

-- The loop breaks when the flag is false and sleeps otherwise.
def _run (s : State) (i : Nat) : Option State :=
  s.move i .testing (if !s._monitor_flag then .exited else .sleeping)

def step (s : State) : Action → Option State
  | .start => some (start s)
  | .spawn i => s.move i .spawning .testing
  | .spawnRaises i => s.move i .spawning .unspawned
  | .stop => some (stop s)
  | .test i => _run s i
  | .wake i => s.move i .sleeping .testing

def machine : Machine State Action where
  init := {}
  step := step

@[simp] theorem machine_step (s : State) (a : Action) : machine.step s a = step s a := rfl

/-! ## What a step can do -/

theorem move_eq_some {s t : State} {i : Nat} {old new : Phase} :
    s.move i old new = some t ↔
      s.sessions[i]? = some old ∧ { s with sessions := s.sessions.set i new } = t := by
  simp only [State.move]
  split <;> simp_all

/-- A step returns early, opens a session, clears the flag or moves one session on. Only present
sessions move; they cease to be present by a failed spawn or a test that finds the flag false. -/
theorem step_cases {s t : State} {a : Action} (h : step s a = some t) :
    (a = .start ∧ s._monitor_flag = true ∧ t = s) ∨
    (a = .start ∧ s._monitor_flag = false ∧
      t = { _monitor_flag := true, sessions := s.sessions ++ [.spawning] }) ∨
    (a = .stop ∧ t = { s with _monitor_flag := false }) ∨
    (∃ i old new, s.sessions[i]? = some old ∧ t = { s with sessions := s.sessions.set i new } ∧
      old.present = true ∧ a ≠ .start ∧
      (new.present = true ∨ a = .spawnRaises i ∨ a = .test i ∧ s._monitor_flag = false)) := by
  cases a with
  | start =>
    simp only [step, start, Option.some.injEq] at h
    split at h <;> rename_i hf
    · exact .inl ⟨rfl, hf, h.symm⟩
    · exact .inr (.inl ⟨rfl, by simpa using hf, h.symm⟩)
  | stop => exact .inr (.inr (.inl ⟨rfl, by simpa [step, stop] using h.symm⟩))
  | spawn i | wake i =>
    obtain ⟨hi, rfl⟩ := move_eq_some.1 h
    exact .inr (.inr (.inr ⟨i, _, _, hi, rfl, rfl, nofun, .inl rfl⟩))
  | spawnRaises i =>
    obtain ⟨hi, rfl⟩ := move_eq_some.1 h
    exact .inr (.inr (.inr ⟨i, _, _, hi, rfl, rfl, nofun, .inr (.inl rfl)⟩))
  | test i =>
    obtain ⟨hi, rfl⟩ := move_eq_some.1 h
    refine .inr (.inr (.inr ⟨i, _, _, hi, rfl, rfl, nofun, ?_⟩))
    cases s._monitor_flag with
    | false => exact .inr (.inr ⟨rfl, rfl⟩)
    | true => exact .inl rfl

/-! ## How many loops there are -/

def State.loops (s : State) : Nat := s.sessions.countP Phase.present

def AtMostOneLoop (s : State) : Prop := s.loops ≤ 1

instance (s : State) : Decidable (AtMostOneLoop s) := inferInstanceAs (Decidable (_ ≤ _))

/-- A `start()` that finds the flag clear finds no loop of an earlier session: each of them has
made its last test, or never was spawned. -/
def FreshStart (s : State) (a : Action) : Prop :=
  a = .start → s._monitor_flag = false → ∀ ph ∈ s.sessions, ph.present = false

theorem loops_eq_zero {s : State} : s.loops = 0 ↔ ∀ ph ∈ s.sessions, ph.present = false := by
  simp [State.loops, List.countP_eq_zero]

theorem loops_le {s t : State} {a : Action} (h : step s a = some t)
    (hset : ¬(a = .start ∧ s._monitor_flag = false)) : t.loops ≤ s.loops := by
  obtain ⟨rfl, -, rfl⟩ | ⟨rfl, hf, -⟩ | ⟨rfl, rfl⟩ | ⟨i, old, new, hi, rfl, hold, -, -⟩ :=
    step_cases h
  · exact Nat.le_refl _
  · exact absurd ⟨rfl, hf⟩ hset
  · exact Nat.le_refl _
  · obtain ⟨hlt, hget⟩ := List.getElem?_eq_some_iff.1 hi
    have hpos : 0 < s.sessions.countP Phase.present :=
      List.countP_pos_iff.2 ⟨old, List.mem_of_getElem? hi, hold⟩
    simp only [State.loops, List.countP_set hlt, hget, hold, if_true]
    split <;> omega

theorem loops_start {s t : State} (h : step s .start = some t) (hf : s._monitor_flag = false) :
    t.loops = s.loops + 1 := by
  simp only [step, start, hf, Option.some.injEq] at h
  subst h
  simp [State.loops, List.countP_append, Phase.present]

/-- The step that goes wrong: a `start()` that sets the flag beside a loop which has not yet seen
it false. -/
theorem stale_start_adds_loop {s t : State} {a : Action} (h : step s a = some t)
    (hs : ¬ FreshStart s a) : ¬ AtMostOneLoop t := by
  simp only [FreshStart, Classical.not_imp] at hs
  obtain ⟨rfl, hf, hl⟩ := hs
  have hpos : s.loops ≠ 0 := fun h0 => hl (loops_eq_zero.1 h0)
  simp only [AtMostOneLoop, loops_start h hf]
  omega

theorem atMostOneLoop_step {s t : State} {a : Action} (hs : AtMostOneLoop s)
    (h : step s a = some t) (hc : FreshStart s a) : AtMostOneLoop t := by
  by_cases hset : a = .start ∧ s._monitor_flag = false
  · obtain ⟨rfl, hf⟩ := hset
    have h0 := loops_eq_zero.2 (hc rfl hf)
    simp [AtMostOneLoop, loops_start h hf, h0]
  · exact Nat.le_trans (loops_le h hset) hs

/-- In an interleaving at most one loop is ever live or about to be spawned if and only if every
`start()` that sets the flag comes after the last test of every earlier loop. -/
theorem atMostOneLoop_iff (as : List Action) :
    machine.EveryState AtMostOneLoop machine.init as ↔
      machine.EveryStep (fun s a _ => FreshStart s a) machine.init as := by
  constructor
  · intro h
    apply h.everyStep
    intro s a t _ hstep ht
    by_contra hc
    exact stale_start_adds_loop hstep hc ht
  · intro h
    exact h.everyState (fun hs hstep hc => atMostOneLoop_step hs hstep hc) (Nat.zero_le 1)

-- The first loop sleeps through a `stop()` and the next `start()`.
def sleepThroughStop : List Action := [.start, .spawn 0, .test 0, .stop, .start, .spawn 1, .test 1]

theorem two_loops :
    machine.run machine.init sleepThroughStop =
        some { _monitor_flag := true, sessions := [.sleeping, .sleeping] } ∧
      ¬ ∀ s, machine.Reachable s → AtMostOneLoop s := by
  have hrun : machine.run machine.init sleepThroughStop =
      some { _monitor_flag := true, sessions := [.sleeping, .sleeping] } := by decide
  refine ⟨hrun, ?_⟩
  intro h
  exact absurd (h _ ⟨_, hrun⟩) (by decide)

/-! ## No start is lost -/

/-- While the flag is set, the latest session to have set it is present. -/
structure Inv (s : State) : Prop where
  latest : s._monitor_flag = true → ∃ ph, s.sessions.getLast? = some ph ∧ ph.present = true

theorem Inv.loops_pos {s : State} (hs : Inv s) (hf : s._monitor_flag = true) : 1 ≤ s.loops := by
  obtain ⟨ph, hlast, hph⟩ := hs.latest hf
  exact List.countP_pos_iff.2 ⟨ph, List.mem_of_getLast? hlast, hph⟩

theorem Inv.step {s t : State} {a : Action} (hs : Inv s) (h : step s a = some t)
    (hspawn : ∀ i, a ≠ .spawnRaises i) : Inv t := by
  obtain ⟨rfl, -, rfl⟩ | ⟨rfl, -, rfl⟩ | ⟨rfl, rfl⟩ | ⟨i, old, new, hi, rfl, hold, -, hnew⟩ :=
    step_cases h
  · exact hs
  · exact ⟨fun _ => ⟨.spawning, by simp, rfl⟩⟩
  · exact ⟨nofun⟩
  · refine ⟨fun hf => ?_⟩
    obtain ⟨ph, hlast, hph⟩ := hs.latest hf
    have hnew : new.present = true := by
      rcases hnew with h | h | ⟨-, h⟩
      · exact h
      · exact absurd h (hspawn i)
      · exact absurd (hf.symm.trans h) nofun
    obtain ⟨hlt, -⟩ := List.getElem?_eq_some_iff.1 hi
    simp only [List.getLast?_eq_getElem?, List.length_set, List.getElem?_set] at hlast ⊢
    split
    · exact ⟨new, by simp_all, hnew⟩
    · exact ⟨ph, hlast, hph⟩

theorem test_of_flag {s t : State} {i : Nat} (h : step s (.test i) = some t)
    (hf : s._monitor_flag = true) : t.sessions[i]? = some .sleeping := by
  obtain ⟨hi, rfl⟩ := move_eq_some.1 h
  obtain ⟨hlt, -⟩ := List.getElem?_eq_some_iff.1 hi
  simp [hf, hlt]

theorem Inv.of_run {as : List Action} {s : State} (h : machine.run machine.init as = some s)
    (hspawn : ∀ i, .spawnRaises i ∉ as) : Inv s := by
  have hsteps : machine.EveryStep (fun _ a _ => ∀ i, a ≠ .spawnRaises i) machine.init as := by
    apply Machine.everyStep_of_forall_mem
    rintro a ha i rfl
    exact hspawn i ha
  have hstates : machine.EveryState Inv machine.init as :=
    hsteps.everyState (fun hs hstep hc => hs.step hstep hc) ⟨fun hf => absurd hf (by decide)⟩
  exact hstates.last h

/-- If no thread creation fails, then while the flag is set the latest session to have set it is
live or about to be spawned, no loop exits at its test, and a `start()` that returns early leaves
a loop behind. -/
theorem start_not_lost {as : List Action} {s : State}
    (hrun : machine.run machine.init as = some s) (hspawn : ∀ i, .spawnRaises i ∉ as)
    (hf : s._monitor_flag = true) :
    (∃ ph, s.sessions.getLast? = some ph ∧ ph.present = true) ∧
      (∀ i t, machine.step s (.test i) = some t → t.sessions[i]? = some .sleeping) ∧
      (machine.step s .start = some s ∧ 1 ≤ s.loops) := by
  have hs := Inv.of_run hrun hspawn
  refine ⟨hs.latest hf, fun i t ht => test_of_flag ht hf, ?_, hs.loops_pos hf⟩
  simp [step, start, hf]

-- The `stop()` falls between the set and the spawn of the first session.
theorem start_not_lost_stop_before_spawn : ∃ s,
    machine.run machine.init [.start, .stop, .spawn 0, .start] = some s ∧ s._monitor_flag = true ∧
    (∃ ph, s.sessions.getLast? = some ph ∧ ph.present = true) ∧
    (∀ i t, machine.step s (.test i) = some t → t.sessions[i]? = some .sleeping) ∧
    (machine.step s .start = some s ∧ 1 ≤ s.loops) := by
  have hrun : machine.run machine.init [.start, .stop, .spawn 0, .start] =
      some { _monitor_flag := true, sessions := [.testing, .spawning] } := by decide
  exact ⟨_, hrun, rfl, start_not_lost hrun (by simp) rfl⟩

end Simian.ScreenMonitor
