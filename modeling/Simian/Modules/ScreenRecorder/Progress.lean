import Simian.Modules.ScreenRecorder.Clips

/-! # The progress of a worker

A worker that has been told to stop lowers its rank with each statement and is never without a
next one, so it ends after at most nine (`told_worker_ends`), whatever its recorder and the other
threads do in between. What it passes to `write` are the composites it captured after the file was
opened, in order; only the last can be missing, if an exception came before its `write`
(`writes_captures`). -/

namespace Simian.ScreenRecorder

namespace Worker
variable {cfg : Config} {sh : Shared} {w w' : Worker} {m : Move} {l : List Frame}

/-! ## Termination -/

/-- The most statements that a worker has before it when the event is set. -/
def rank (w : Worker) : Nat :=
  match w.pc with
  | .entry => 9
  | .firstCapture => 8
  | .nameClip => 7
  | .makeDir | .capture => 6
  | .openWriter | .write _ => 5
  | .interval | .pace => 4
  | .loopTest => 3
  | .release => 2
  | .exiting _ => 1
  | .dead _ => 0

theorem rank_le : w.rank ≤ 9 := by
  unfold rank
  split <;> omega

theorem rank_pos (h : w.alive = true) : 0 < w.rank := by
  unfold rank
  split
  case h_13 hpc => simp only [Worker.alive, hpc] at h; cases h
  all_goals omega

theorem two_le_rank (h : w.ended = false) : 2 ≤ w.rank := by
  unfold rank
  split
  case h_12 hpc | h_13 hpc => simp only [ended, hpc] at h; cases h
  all_goals omega

theorem Trans.rank_lt (ht : Trans cfg sh w m w') (hst : sh._stop = true) : w'.rank < w.rank := by
  cases ht with
  | loop hpc hst' => cases hst.symm.trans hst'
  | raises hw => exact two_le_rank hw
  | _ => simp only [rank, goto, *]; omega

/-- A worker that is alive has a next statement. -/
theorem exists_step (h : w.alive = true) (hpath : w.pc = .openWriter → sh.last_clip_path ≠ none) :
    ∃ m, m ≠ .raises ∧ (w.step cfg sh m).isSome := by
  cases hpc : w.pc with
  | firstCapture =>
    refine ⟨.capture onePixel, Move.noConfusion, ?_⟩
    simp only [step, stepCapture, hpc]
    split
    · rfl
    · split <;> rfl
  | capture =>
    refine ⟨.capture onePixel, Move.noConfusion, ?_⟩
    simp only [step, stepCapture, hpc]
    split <;> rfl
  | nameClip => exact ⟨.clock 0, Move.noConfusion, by simp only [step, stepClock, hpc, Option.isSome_some]⟩
  | openWriter =>
    obtain ⟨p, hp⟩ := Option.ne_none_iff_exists'.1 (hpath hpc)
    exact ⟨.go, Move.noConfusion, by simp only [step, stepGo, hpc, hp, Option.map_some, Option.isSome_some]⟩
  | dead e =>
    rw [Worker.alive, hpc] at h
    cases h
  | _ => exact ⟨.go, Move.noConfusion, by simp only [step, stepGo, hpc, Option.isSome_some]⟩

/-! ## What is captured and written -/

/-- The composite of a capture in the loop, if there is one. -/
def captured (cfg : Config) (w : Worker) : Move → List Frame
  | .capture scr =>
    if w.pc = .capture then (composite cfg w.idxs scr).join.toList else []
  | .go | .clock _ | .raises => []

def written (w : Worker) : List Frame := (w.writer.map fun vw => vw.written).getD []

/-- `l` are the frames captured: those written, one that is about to be written, and after an
exception perhaps one that was not. -/
def Logged (l : List Frame) (w : Worker) : Prop :=
  match w.pc with
  | .write c => l = w.written ++ [c]
  | .exiting .raised | .dead .raised => ∃ rest, l = w.written ++ rest ∧ rest.length ≤ 1
  | _ => l = w.written

theorem Logged.exists_rest (h : Logged l w) : ∃ rest, l = w.written ++ rest ∧ rest.length ≤ 1 ∧
    (w.Finished → rest = []) := by
  unfold Logged at h
  split at h
  · rename_i c hpc
    refine ⟨[c], h, Nat.le_refl 1, ?_⟩
    rintro (hfin | hfin) <;> cases hpc.symm.trans hfin
  · rename_i hpc
    obtain ⟨rest, hl, hle⟩ := h
    refine ⟨rest, hl, hle, ?_⟩
    rintro (hfin | hfin) <;> cases hpc.symm.trans hfin
  · rename_i hpc
    obtain ⟨rest, hl, hle⟩ := h
    refine ⟨rest, hl, hle, ?_⟩
    rintro (hfin | hfin) <;> cases hpc.symm.trans hfin
  · exact ⟨[], by rw [h, List.append_nil], Nat.zero_le 1, fun _ => rfl⟩

theorem Logged.raised (h : Logged l w) (hw : w.ended = false) :
    Logged l (w.goto (.exiting .raised)) := by
  unfold Logged at h
  split at h
  case h_2 hpc | h_3 hpc => simp only [ended, hpc] at hw; cases hw
  · exact ⟨_, h, Nat.le_refl 1⟩
  · exact ⟨[], by rw [h, List.append_nil]; rfl, Nat.zero_le 1⟩

/-- Every step keeps the log of the captures in line with what is written. -/
theorem Trans.logged (ht : Trans cfg sh w m w') (h : Logged l w) (hl : w.Local) :
    Logged (l ++ w.captured cfg m) w' := by
  have hraised := h.raised
  cases ht with
  | raises hw =>
    rw [captured, List.append_nil]
    exact hraised hw
  | firstRaises hpc =>
    rw [captured, if_neg (by simp [hpc]), List.append_nil]
    exact hraised (by rw [ended, hpc])
  | zeroFps hpc =>
    rw [captured, List.append_nil]
    exact hraised (by rw [ended, hpc])
  | captureRaises hpc hc =>
    rw [captured, if_pos hpc, hc]
    simpa using hraised (by rw [ended, hpc])
  | captureNone hpc hc =>
    rw [captured, if_pos hpc, hc]
    rw [Logged, hpc] at h
    exact (List.append_nil l).trans h
  | captureFrame hpc hc =>
    rw [captured, if_pos hpc, hc]
    rw [Logged, hpc] at h
    exact congrArg (· ++ _) h
  | firstNone hpc | firstFrame hpc =>
    rw [captured, if_neg (by simp [hpc]), List.append_nil]
    rw [Logged, hpc] at h
    exact h
  | openWriter hpc =>
    rw [Logged, hpc] at h
    rw [Local, hpc] at hl
    rw [written, hl.2] at h
    exact (List.append_nil l).trans h
  | write hpc =>
    rw [Local, hpc] at hl
    obtain ⟨-, vw, hvw, -⟩ := hl
    rw [Logged, hpc, written, hvw] at h
    rw [captured, List.append_nil, Logged, written, hvw]
    exact h
  | release hpc =>
    rw [Local, hpc] at hl
    obtain ⟨-, vw, hvw, -⟩ := hl
    rw [Logged, hpc, written, hvw] at h
    rw [captured, List.append_nil, Logged, written, hvw]
    exact h
  | @exits e hpc =>
    rw [captured, List.append_nil]
    rw [Logged, hpc] at h
    cases e <;> exact h
  | noBackend hpc | entry hpc | nameClip hpc | makeDir hpc | interval hpc | leave hpc | loop hpc
  | pace hpc =>
    rw [captured, List.append_nil]
    rw [Logged, hpc] at h
    exact h

end Worker

namespace State
variable {cfg : Config} {s t : State} {a : Action} {i : Nat} {l : List Frame}

/-! ## Runs of the recorder -/

/-- A statement of thread `i`. -/
def own (i : Nat) : Action → Bool
  | .worker j _ => j = i
  | .start | .clear | .spawn | .stop | .join | .test | .read => false

/-- What thread `i` captures in a step. -/
def captured (cfg : Config) (i : Nat) (s : State) : Action → List Frame
  | .worker j m => if j = i then (s.threads[i]?.map fun th => th.worker.captured cfg m).getD [] else []
  | .start | .clear | .spawn | .stop | .join | .test | .read => []

def rank (i : Nat) (s : State) : Nat := (s.threads[i]?.map fun th => th.worker.rank).getD 0

theorem rank_eq {th : Thread} (hi : s.threads[i]? = some th) : s.rank i = th.worker.rank := by
  rw [rank, hi]
  rfl

/-- Thread `i` has been told to stop. -/
def ToldTo (i : Nat) (s : State) : Prop := ∃ th, s.threads[i]? = some th ∧ th.told = true

theorem ToldTo.step (h : ToldTo i s) (ht : Trans cfg s a t) : ToldTo i t := by
  obtain ⟨th, hi, htold⟩ := h
  cases ht with
  | spawn =>
    obtain ⟨hlt, -⟩ := List.getElem?_eq_some_iff.1 hi
    exact ⟨th, (List.getElem?_append_left hlt).trans hi, htold⟩
  | stop =>
    refine ⟨{ th with told := true }, ?_, rfl⟩
    rw [set, List.getElem?_map, hi]
    rfl
  | @worker j th' w m hj =>
    by_cases hij : j = i
    · subst hij
      cases hi.symm.trans hj
      exact ⟨_, update_self hi, htold⟩
    · exact ⟨th, (update_ne hij).trans hi, htold⟩
  | _ => exact ⟨th, hi, htold⟩

/-- Its own statements lower the rank of a thread that has been told to stop, and nothing raises
it. -/
theorem Trans.rank_le (ht : Trans cfg s a t) (h : Inv cfg s) (htold : ToldTo i s) :
    t.rank i + (if own i a then 1 else 0) ≤ s.rank i := by
  obtain ⟨th, hi, htold⟩ := htold
  rw [rank_eq hi]
  cases ht with
  | spawn =>
    obtain ⟨hlt, -⟩ := List.getElem?_eq_some_iff.1 hi
    exact Nat.le_of_eq (rank_eq ((List.getElem?_append_left hlt).trans hi))
  | stop =>
    have hi' : s.set.threads[i]? = some { th with told := true } := by
      rw [set, List.getElem?_map, hi]
      rfl
    rw [rank_eq hi']
    exact Nat.le_refl _
  | @worker j th' w m hj hw =>
    by_cases hij : j = i
    · subst hij
      cases hi.symm.trans hj
      have hstop := h.stop_of_told hi (alive_of_step hw) htold
      have hlt := (Worker.step_trans hw).rank_lt hstop
      rw [rank_eq (update_self hi), own, decide_eq_true rfl, if_pos rfl]
      exact hlt
    · rw [rank_eq ((update_ne hij).trans hi), own, decide_eq_false hij]
      exact Nat.le_refl _
  | _ => exact Nat.le_of_eq (rank_eq hi)

/-- The log of thread `i`, from its creation on. -/
def Logged (i : Nat) (l : List Frame) (s : State) : Prop :=
  (s.threads[i]? = none → l = []) ∧ ∀ th, s.threads[i]? = some th → th.worker.Logged l

theorem Logged.step (hl : Logged i l s) (h : Inv cfg s) (ht : Trans cfg s a t) :
    Logged i (l ++ s.captured cfg i a) t := by
  obtain ⟨hnone, hsome⟩ := hl
  cases ht with
  | spawn =>
    refine ⟨fun hi => ?_, fun th hi => ?_⟩
    · rw [spawn, List.getElem?_append] at hi
      split at hi
      · rw [captured, List.append_nil]
        exact hnone hi
      · rename_i hlt
        rw [captured, List.append_nil]
        exact hnone (List.getElem?_eq_none (Nat.not_lt.1 hlt))
    · rw [captured, List.append_nil]
      rcases threads_spawn hi with ⟨rfl, rfl⟩ | ⟨-, hi⟩
      · exact hnone (List.getElem?_eq_none (Nat.le_refl _))
      · exact hsome th hi
  | stop =>
    rw [captured, List.append_nil]
    refine ⟨fun hi => ?_, fun th hi => ?_⟩
    · rw [set, List.getElem?_map, Option.map_eq_none_iff] at hi
      exact hnone hi
    · obtain ⟨th', hi', rfl⟩ := threads_set hi
      exact hsome th' hi'
  | @worker j th' w m hj hw =>
    rw [captured]
    split
    · rename_i hij
      subst hij
      refine ⟨fun hi => ?_, fun th hi => ?_⟩
      · rw [update_self hj] at hi
        cases hi
      · cases (update_self hj).symm.trans hi
        rw [hj]
        exact (Worker.step_trans hw).logged (hsome th' hj) (h.local hj)
    · rename_i hij
      rw [List.append_nil]
      refine ⟨fun hi => hnone ((update_ne hij).symm.trans hi), fun th hi => ?_⟩
      exact hsome th ((update_ne hij).symm.trans hi)
  | _ =>
    rw [captured, List.append_nil]
    exact ⟨hnone, hsome⟩

end State

variable {cfg : Config}

/-- A worker that is alive when `stop()` sets the event takes at most nine more statements, however
they are interleaved with those of the recorder and of other workers; and until it is dead it has
taken fewer, and there is a statement that it can take. -/
theorem told_worker_ends {s t u : State} {as : List Action} {i : Nat} {th : Thread}
    (hs : (machine cfg).Reachable s) (hi : s.threads[i]? = some th)
    (hstop : (machine cfg).step s .stop = some t) (hrun : (machine cfg).run t as = some u) :
    as.countP (State.own i) ≤ 9 ∧ ∃ th', u.threads[i]? = some th' ∧
      (th'.worker.alive = true → as.countP (State.own i) < 9 ∧
        ∃ m, m ≠ .raises ∧ ((machine cfg).step u (.worker i m)).isSome) := by
  have hsound := hs.invariant State.sound_inductive
  have htrans := machine_trans hstop
  have htold : State.ToldTo i t := by
    cases htrans
    refine ⟨{ th with told := true }, ?_, rfl⟩
    rw [State.set, List.getElem?_map, hi]
    rfl
  have hstep : ∀ {s a t}, State.Sound cfg s ∧ State.ToldTo i s → (machine cfg).step s a = some t →
      State.Sound cfg t ∧ State.ToldTo i t := by
    rintro s a t ⟨hsound, htold⟩ hs
    exact ⟨State.sound_inductive.step hsound hs, htold.step (machine_trans hs)⟩
  have hsound' := State.sound_inductive.step hsound hstop
  have hrank := Machine.run_rank hstep
    (fun h hs => (machine_trans hs).rank_le h.1.1 h.2) ⟨hsound', htold⟩ hrun
  obtain ⟨⟨hinv, hnamed⟩, th', hi', -⟩ := Machine.run_keeps hstep ⟨hsound', htold⟩ hrun
  obtain ⟨th₀, hi₀, htold₀⟩ := htold
  have hle : State.rank i t ≤ 9 := by
    rw [State.rank_eq hi₀]
    exact Worker.rank_le
  refine ⟨by omega, th', hi', fun halive => ⟨?_, ?_⟩⟩
  · have hpos := Worker.rank_pos halive
    rw [State.rank_eq hi'] at hrank
    omega
  · obtain ⟨m, hne, hm⟩ := @Worker.exists_step cfg u.shared _ halive (by
      intro hpc
      obtain ⟨r, -, hlast⟩ := hnamed.opening hinv hi' hpc
      rw [State.shared, hlast]
      exact Option.some_ne_none _)
    refine ⟨m, hne, ?_⟩
    show (State.step cfg u (.worker i m)).isSome
    rw [State.step, hi', Option.bind_some, Option.isSome_map]
    exact hm

-- The worker of `at_most_one_worker_and_no_lost_stop_mid_capture`.
theorem told_worker_ends_mid_capture :
    [Action.worker 0 (.capture onePixel), .worker 0 .go].countP (State.own 0) ≤ 9 ∧
      ∃ th', (openState true .pace [Grid.full 1 1 0] .joining).threads[0]? = some th' ∧
        (th'.worker.alive = true →
          [Action.worker 0 (.capture onePixel), .worker 0 .go].countP (State.own 0) < 9 ∧
            ∃ m, m ≠ .raises ∧ ((machine oneMonitor).step
              (openState true .pace [Grid.full 1 1 0] .joining) (.worker 0 m)).isSome) := by
  have hs : (machine oneMonitor).Reachable (openState false .capture [] .idle) :=
    ⟨[.start, .clear, .spawn] ++ openClip 0 0 ++ [.worker 0 .go], rfl⟩
  exact @told_worker_ends _ _ (openState true .capture [] .joining) _ _ _ _ hs rfl rfl rfl

/-- The arguments of a worker's calls of `write` are the composites of its loop's captures, in
order. After the release all of them are, and before it or after an exception at most the last is
not. -/
theorem writes_captures {s : State} {as : List Action} {i : Nat} {th : Thread}
    (hrun : (machine cfg).run (machine cfg).init as = some s) (hi : s.threads[i]? = some th) :
    ∃ rest, (machine cfg).history (State.captured cfg i) (machine cfg).init as =
        th.worker.written ++ rest ∧ rest.length ≤ 1 ∧ (th.worker.Finished → rest = []) := by
  have hlog : State.Inv cfg s ∧ State.Logged i
      ((machine cfg).history (State.captured cfg i) (machine cfg).init as) s := by
    refine Machine.history_keeps (R := fun l s => State.Inv cfg s ∧ State.Logged i l s) ?_ ?_ hrun
    · rintro l s a t ⟨h, hl⟩ hs
      exact ⟨h.step (machine_trans hs), hl.step h (machine_trans hs)⟩
    · exact ⟨.init, fun _ => rfl, fun th hi => absurd hi State.threads_init⟩
  exact (hlog.2.2 th hi).exists_rest

-- One frame has been captured and passed to `write`.
theorem writes_captures_one :
    ∃ rest, (machine oneMonitor).history (State.captured oneMonitor 0) (machine oneMonitor).init
        ([.start, .clear, .spawn] ++ openClip 0 0 ++
          [.worker 0 .go, .worker 0 (.capture onePixel), .worker 0 .go]) =
        [Grid.full 1 1 0] ++ rest ∧ rest.length ≤ 1 := by
  have hrun : (machine oneMonitor).run (machine oneMonitor).init
      ([.start, .clear, .spawn] ++ openClip 0 0 ++
        [.worker 0 .go, .worker 0 (.capture onePixel), .worker 0 .go]) =
      some (openState false .pace [Grid.full 1 1 0] .idle) := rfl
  obtain ⟨rest, hrest, hle, -⟩ := @writes_captures oneMonitor _ _ 0 _ hrun rfl
  exact ⟨rest, hrest, hle⟩

end Simian.ScreenRecorder
