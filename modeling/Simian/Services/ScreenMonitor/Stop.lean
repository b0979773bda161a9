import Simian.Services.ScreenMonitor

/-! # What a stop ends

A `stop()` reaches all loops, also those that a `start()` beside them has doubled: until the flag is
set again each of them takes at most two more steps and is never without a next one, and then it is
gone (`stopped_loop_ends`). A `start()` that comes first revives each loop that has not yet tested the
flag: up to the next `stop()`, a loop ends exactly if its test comes before the next `start()`
(`ends_iff`). -/

namespace Simian.ScreenMonitor

/-- The steps of session `i`. -/
def Action.own (i : Nat) : Action → Bool
  | .spawn j | .spawnRaises j | .test j | .wake j => j = i
  | .start | .stop => false

/-- The most steps that a session has before it while the flag is clear. -/
def Phase.rank : Phase → Nat
  | .spawning | .sleeping => 2
  | .testing => 1
  | .exited | .unspawned => 0

def State.rank (i : Nat) (s : State) : Nat := (s.sessions[i]?.map Phase.rank).getD 0

variable {s t u : State} {a : Action} {as : List Action} {i j : Nat} {ph : Phase}

theorem rank_eq (hi : s.sessions[i]? = some ph) : s.rank i = ph.rank := by
  rw [State.rank, hi]
  rfl

theorem Phase.rank_le (ph : Phase) : ph.rank ≤ 2 := by
  cases ph <;> decide

theorem Phase.rank_pos (h : ph.present = true) : 0 < ph.rank := by
  cases ph with
  | spawning | sleeping => exact Nat.zero_lt_two
  | testing => exact Nat.zero_lt_one
  | exited | unspawned => cases h

/-- A step of one session leaves the others where they are. -/
theorem rank_move {old new : Phase} (h : s.move j old new = some t) (hlt : new.rank < old.rank) :
    t._monitor_flag = s._monitor_flag ∧ t.rank i + (if j = i then 1 else 0) ≤ s.rank i := by
  obtain ⟨hj, rfl⟩ := move_eq_some.1 h
  obtain ⟨hlen, -⟩ := List.getElem?_eq_some_iff.1 hj
  refine ⟨rfl, ?_⟩
  by_cases heq : j = i
  · subst heq
    have hnew : (s.sessions.set j new)[j]? = some new := List.getElem?_set_self hlen
    rw [if_pos rfl, rank_eq hj, State.rank, hnew]
    exact hlt
  · rw [if_neg heq, State.rank, State.rank, List.getElem?_set_ne heq]
    exact Nat.le_refl _

theorem rank_step (hflag : s._monitor_flag = false) (hne : a ≠ .start)
    (h : step s a = some t) : t._monitor_flag = false ∧
      t.rank i + (if a.own i then 1 else 0) ≤ s.rank i := by
  cases a with
  | start => exact absurd rfl hne
  | stop =>
    cases h
    exact ⟨rfl, Nat.le_refl _⟩
  | spawn j => simpa [Action.own, hflag] using rank_move (i := i) h Nat.one_lt_two
  | spawnRaises j => simpa [Action.own, hflag] using rank_move (i := i) h Nat.zero_lt_two
  | test j =>
    rw [step, _run, hflag] at h
    simpa [Action.own, hflag] using rank_move (i := i) h Nat.zero_lt_one
  | wake j => simpa [Action.own, hflag] using rank_move (i := i) h Nat.one_lt_two

theorem rank_run (hflag : s._monitor_flag = false) (hno : .start ∉ as)
    (hrun : machine.run s as = some t) : t.rank i + as.countP (Action.own i) ≤ s.rank i := by
  induction as generalizing s with
  | nil =>
    cases hrun
    exact Nat.le_refl _
  | cons a as ih =>
    obtain ⟨s', hstep, hrest⟩ := Machine.run_cons_some.1 hrun
    obtain ⟨hne, hno⟩ := List.ne_and_not_mem_of_not_mem_cons hno
    obtain ⟨hflag', hrank⟩ := rank_step (i := i) hflag hne.symm hstep
    have htail := ih hflag' hno hrest
    rw [List.countP_cons]
    omega

theorem exists_own_step (hi : s.sessions[i]? = some ph) (h : ph.present = true) :
    ∃ a, a.own i = true ∧ a ≠ .spawnRaises i ∧ (machine.step s a).isSome := by
  have hmove (new : Phase) : (s.move i ph new).isSome := by
    rw [State.move, if_pos hi]
    rfl
  have hown : decide (i = i) = true := decide_eq_true rfl
  cases ph with
  | spawning => exact ⟨.spawn i, hown, Action.noConfusion, hmove _⟩
  | testing => exact ⟨.test i, hown, Action.noConfusion, hmove _⟩
  | sleeping => exact ⟨.wake i, hown, Action.noConfusion, hmove _⟩
  | exited | unspawned => cases h

/-- However the loops, further `stop()`s and failing spawns are interleaved after a `stop()`, a loop
takes at most two steps before the next `start()`; and as long as it is present it has taken fewer,
and there is a step that it can take. -/
theorem stopped_loop_ends (hstop : machine.step s .stop = some t) (hno : .start ∉ as)
    (hrun : machine.run t as = some u) (hi : u.sessions[i]? = some ph) :
    as.countP (Action.own i) ≤ 2 ∧ (ph.present = true → as.countP (Action.own i) < 2 ∧
      ∃ a, a.own i = true ∧ a ≠ .spawnRaises i ∧ (machine.step u a).isSome) := by
  have hflag : t._monitor_flag = false := by
    cases hstop
    rfl
  have hrank := rank_run (i := i) hflag hno hrun
  have hle : t.rank i ≤ 2 := by
    rw [State.rank]
    cases t.sessions[i]? with
    | none => exact Nat.zero_le 2
    | some ph => exact ph.rank_le
  rw [rank_eq hi] at hrank
  refine ⟨by omega, fun h => ⟨?_, exists_own_step hi h⟩⟩
  have hpos := Phase.rank_pos h
  omega

/-- Two loops that a start doubled, told to stop together. -/
theorem stopped_loop_ends_doubled :
    [Action.wake 0, .test 1, .test 0].countP (Action.own 0) ≤ 2 ∧
      (Phase.exited.present = true → [Action.wake 0, .test 1, .test 0].countP (Action.own 0) < 2 ∧
        ∃ a, a.own 0 = true ∧ a ≠ .spawnRaises 0 ∧
          (machine.step ⟨false, [.exited, .exited]⟩ a).isSome) :=
  @stopped_loop_ends ⟨true, [.sleeping, .testing]⟩ _ ⟨false, [.exited, .exited]⟩
    [.wake 0, .test 1, .test 0] 0 _ rfl (by simp) rfl rfl

/-! ## Which loops end -/

/-- A loop that is gone stays so. -/
theorem gone_step (hi : s.sessions[i]? = some ph) (h : ph.present = false)
    (hstep : step s a = some t) : t.sessions[i]? = some ph := by
  obtain ⟨-, -, rfl⟩ | ⟨-, -, rfl⟩ | ⟨-, rfl⟩ | ⟨j, old, new, hj, rfl, hold, -, -⟩ :=
    step_cases hstep
  · exact hi
  · obtain ⟨hlt, -⟩ := List.getElem?_eq_some_iff.1 hi
    exact (List.getElem?_append_left hlt).trans hi
  · exact hi
  · have hne : j ≠ i := by
      rintro rfl
      cases hi.symm.trans hj
      cases h.symm.trans hold
    exact (List.getElem?_set_ne hne).trans hi

/-- Only a failed spawn and a test that finds the flag clear end a loop. -/
theorem present_step (hi : s.sessions[i]? = some ph) (h : ph.present = true)
    (hraise : a ≠ .spawnRaises i) (htest : a = .test i → s._monitor_flag = true)
    (hstep : step s a = some t) : ∃ ph', t.sessions[i]? = some ph' ∧ ph'.present = true := by
  obtain ⟨-, -, rfl⟩ | ⟨-, -, rfl⟩ | ⟨-, rfl⟩ | ⟨j, old, new, hj, rfl, hold, -, hnew⟩ :=
    step_cases hstep
  · exact ⟨ph, hi, h⟩
  · obtain ⟨hlt, -⟩ := List.getElem?_eq_some_iff.1 hi
    exact ⟨ph, (List.getElem?_append_left hlt).trans hi, h⟩
  · exact ⟨ph, hi, h⟩
  · by_cases heq : j = i
    · subst heq
      obtain ⟨hlt, -⟩ := List.getElem?_eq_some_iff.1 hj
      refine ⟨new, List.getElem?_set_self hlt, ?_⟩
      rcases hnew with hnew | hnew | ⟨hnew, hflag⟩
      · exact hnew
      · exact absurd hnew hraise
      · cases (htest hnew).symm.trans hflag
    · exact ⟨ph, (List.getElem?_set_ne heq).trans hi, h⟩

theorem flag_step (hstop : a ≠ .stop) (hflag : s._monitor_flag = true)
    (hstep : step s a = some t) : t._monitor_flag = true := by
  obtain ⟨-, -, rfl⟩ | ⟨-, -, rfl⟩ | ⟨rfl, -⟩ | ⟨j, old, new, hj, rfl, -⟩ := step_cases hstep
  · exact hflag
  · rfl
  · exact absurd rfl hstop
  · exact hflag

theorem gone_run (hi : s.sessions[i]? = some ph) (h : ph.present = false)
    (hrun : machine.run s as = some t) : t.sessions[i]? = some ph :=
  Machine.run_keeps (I := fun s => s.sessions[i]? = some ph)
    (fun hi hstep => gone_step hi h hstep) hi hrun

/-- Session `i` has a loop or is about to. -/
def State.Present (i : Nat) (s : State) : Prop := ∃ ph, s.sessions[i]? = some ph ∧ ph.present = true

theorem State.Present.step (h : s.Present i) (hraise : a ≠ .spawnRaises i)
    (htest : a = .test i → s._monitor_flag = true) (hstep : step s a = some t) : t.Present i := by
  obtain ⟨ph, hi, hpresent⟩ := h
  exact present_step hi hpresent hraise htest hstep

theorem State.Present.run_of_flag (h : s.Present i) (hflag : s._monitor_flag = true)
    (hstop : .stop ∉ as) (hraise : .spawnRaises i ∉ as) (hrun : machine.run s as = some t) :
    t.Present i := by
  induction as generalizing s with
  | nil =>
    cases hrun
    exact h
  | cons a as ih =>
    obtain ⟨s', hstep, hrest⟩ := Machine.run_cons_some.1 hrun
    obtain ⟨hne, hstop⟩ := List.ne_and_not_mem_of_not_mem_cons hstop
    obtain ⟨hne', hraise⟩ := List.ne_and_not_mem_of_not_mem_cons hraise
    exact ih (h.step hne'.symm (fun _ => hflag) hstep) (flag_step hne.symm hflag hstep) hstop hraise
      hrest

/-- A test that comes before the next start finds the flag clear, and the loop ends. -/
def Ends (i : Nat) (as : List Action) : Prop :=
  ∃ before after, as = before ++ .test i :: after ∧ .start ∉ before

theorem ends_cons_iff (hne : a ≠ .start) : Ends i (a :: as) ↔ a = .test i ∨ Ends i as := by
  constructor
  · rintro ⟨before, after, heq, hno⟩
    cases before with
    | nil => exact .inl (List.cons.inj heq).1
    | cons b before =>
      obtain ⟨-, rfl⟩ := List.cons.inj heq
      exact .inr ⟨before, after, rfl, fun hmem => hno (List.mem_cons_of_mem b hmem)⟩
  · rintro (rfl | ⟨before, after, rfl, hno⟩)
    · exact ⟨[], as, rfl, List.not_mem_nil⟩
    · refine ⟨a :: before, after, rfl, fun hmem => ?_⟩
      rcases List.mem_cons.1 hmem with rfl | hmem
      · exact hne rfl
      · exact hno hmem

theorem not_ends_start : ¬ Ends i (.start :: as) := by
  rintro ⟨before, after, heq, hno⟩
  cases before with
  | nil => cases heq
  | cons b before =>
    obtain ⟨rfl, -⟩ := List.cons.inj heq
    exact hno List.mem_cons_self

theorem not_present_iff (hflag : s._monitor_flag = false) (h : s.Present i) (hstop : .stop ∉ as)
    (hraise : .spawnRaises i ∉ as) (hrun : machine.run s as = some t) :
    ¬ t.Present i ↔ Ends i as := by
  induction as generalizing s with
  | nil =>
    cases hrun
    refine iff_of_false (not_not_intro h) ?_
    rintro ⟨before, after, heq, -⟩
    cases before <;> cases heq
  | cons a as ih =>
    obtain ⟨s', hstep, hrest⟩ := Machine.run_cons_some.1 hrun
    obtain ⟨-, hstops⟩ := List.ne_and_not_mem_of_not_mem_cons hstop
    obtain ⟨hne, hraises⟩ := List.ne_and_not_mem_of_not_mem_cons hraise
    by_cases hstart : a = .start
    · subst hstart
      have hpresent := h.step hne.symm Action.noConfusion hstep
      have hset : s'._monitor_flag = true := by
        simp only [machine_step, step, start, hflag] at hstep
        cases hstep
        rfl
      exact iff_of_false (not_not_intro (hpresent.run_of_flag hset hstops hraises hrest))
        not_ends_start
    · by_cases htest : a = .test i
      · subst htest
        obtain ⟨hi, rfl⟩ := move_eq_some.1 hstep
        obtain ⟨hlt, -⟩ := List.getElem?_eq_some_iff.1 hi
        refine iff_of_true ?_ ⟨[], as, rfl, List.not_mem_nil⟩
        rintro ⟨ph, hph, hpresent⟩
        have hgone := gone_run (List.getElem?_set_self hlt) (by rw [hflag]; rfl) hrest
        rw [hflag] at hgone
        cases hgone.symm.trans hph
        cases hpresent
      · have hflag' := (rank_step (i := i) hflag hstart hstep).1
        rw [ends_cons_iff hstart, or_iff_right htest]
        exact ih hflag' (h.step hne.symm (fun heq => absurd heq htest) hstep) hstops hraises hrest

/-- Of the loops that are there at a `stop()`, and until the next one, exactly those end whose test
comes before the next `start()`. -/
theorem ends_iff (hi : s.sessions[i]? = some ph) (h : ph.present = true)
    (hstop : machine.step s .stop = some t) (hno : .stop ∉ as) (hraise : .spawnRaises i ∉ as)
    (hrun : machine.run t as = some u) :
    (∀ ph', u.sessions[i]? = some ph' → ph'.present = false) ↔ Ends i as := by
  cases hstop
  rw [← not_present_iff (s := stop s) rfl ⟨ph, hi, h⟩ hno hraise hrun]
  constructor
  · rintro hgone ⟨ph', hi', hpresent⟩
    cases (hgone ph' hi').symm.trans hpresent
  · intro hgone ph' hi'
    rw [← Bool.not_eq_true]
    exact fun hpresent => hgone ⟨ph', hi', hpresent⟩

/-- The first loop sleeps through a `stop()` and the next `start()`, and goes on. -/
theorem ends_iff_asleep :
    (∀ ph', [Phase.sleeping, .spawning][0]? = some ph' → ph'.present = false) ↔
      Ends 0 [.start, .wake 0, .test 0] :=
  @ends_iff ⟨true, [.sleeping]⟩ _ ⟨true, [.sleeping, .spawning]⟩ _ 0 _ rfl rfl rfl (by simp)
    (by simp) rfl

end Simian.ScreenMonitor
