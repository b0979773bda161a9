import Simian.Modules.ScreenRecorder.Control

/-! # The clips of a recorder's sessions

A session's file has the name of its worker's clock reading, and `last_clip_path` is the name
taken by the current worker, as soon as it has one (`Named`). It is not reset: until then it is
the name of an earlier session, and `stop()` returns it whatever has become of the current one
(`honest_iff`). Two sessions share a file exactly when their readings show the same local second
(`none_overwritten_iff`). -/

namespace Simian.ScreenRecorder

/-- The path of the file that the worker has opened. -/
def Worker.path (w : Worker) : Option ClipPath := w.writer.map (·.path)

/-- The worker is past its release. -/
def Worker.Finished (w : Worker) : Prop := w.pc = .exiting .finished ∨ w.pc = .dead .finished

/-- What the return of a `stop()` gives; `none` at any other step. -/
def State.returns (s : State) : Action → Option (Option ClipPath)
  | .test => if s.last_clip_path.isSome then none else some none
  | .read => some s.last_clip_path
  | _ => none

/-- A returned path is the file of the current worker, which has released it, and nothing is
returned if the current worker has opened no file or there is none. -/
def Honest (s : State) (r : Option ClipPath) : Prop :=
  (∀ p, r = some p → ∃ th vw, s.current = some th ∧ th.worker.writer = some vw ∧
    vw.path = p ∧ vw.released = true) ∧
  ((∀ th, s.current = some th → th.worker.writer = none) → r = none)

/-- No two sessions have opened the same file. -/
def NoneOverwritten (s : State) : Prop :=
  ∀ (i j : Nat) (th th' : Thread) (p p' : ClipPath), i ≠ j →
    s.threads[i]? = some th → s.threads[j]? = some th' →
    th.worker.path = some p → th'.worker.path = some p' → p ≠ p'

/-- A worker about to open its file has taken a reading that shows another local second than those
of all sessions which have opened theirs. -/
def OtherSecond (cfg : Config) (s : State) (a : Action) : Prop :=
  ∀ (i j : Nat) (th th' : Thread) (t t' : Int), i ≠ j → a = .worker i .go →
    s.threads[i]? = some th → s.threads[j]? = some th' →
    th.worker.pc = .openWriter → th'.worker.writer ≠ none →
    th.worker.clock = some t → th'.worker.clock = some t' → cfg.localtime t ≠ cfg.localtime t'

variable {cfg : Config}

namespace Worker
variable {sh : Shared} {w w' : Worker} {m : Move} {p : ClipPath} {t : Int}

/-- A path is opened once, and then neither it nor the clock reading changes. -/
theorem Trans.path (ht : Trans cfg sh w m w') (hl : w.Local) (hp : w'.path = some p) :
    w'.clock = w.clock ∧
      (w.path = some p ∨ m = .go ∧ w.pc = .openWriter ∧ sh.last_clip_path = some p) := by
  cases ht with
  | nameClip hpc =>
    rw [Local, hpc] at hl
    rw [Worker.path, hl.2] at hp
    cases hp
  | openWriter hpc hlast =>
    cases hp
    exact ⟨rfl, .inr ⟨rfl, hpc, hlast⟩⟩
  | write | release =>
    rw [Worker.path, Option.map_map] at hp
    exact ⟨rfl, .inl hp⟩
  | _ => exact ⟨rfl, .inl hp⟩

/-- The file that a worker opens is the one `last_clip_path` names. -/
theorem Trans.path_openWriter (ht : Trans cfg sh w .go w') (hpc : w.pc = .openWriter) :
    w'.path = sh.last_clip_path := by
  cases ht with
  | openWriter _ hlast => exact hlast.symm
  | _ hpc' => cases hpc.symm.trans hpc'

/-- A worker's new clock reading names `last_clip_path`. -/
theorem Trans.clock (ht : Trans cfg sh w m w') (hc : w'.clock = some t) :
    w.clock = some t ∧ w.assigns cfg m = none ∨
      w.assigns cfg m = some (clipPath cfg.clips_dir (cfg.localtime t)) := by
  cases ht with
  | nameClip hpc =>
    cases hc
    exact .inr (if_pos hpc)
  | _ => exact .inl ⟨hc, rfl⟩

theorem Local.finished_iff (h : w.Local) :
    w.Finished ↔ ∃ vw, w.writer = some vw ∧ vw.released = true := by
  constructor
  · rintro (hpc | hpc)
    · rw [Local, hpc] at h
      exact h.2
    · rw [Local, hpc] at h
      exact h.2
  · rintro ⟨vw, hvw, hrel⟩
    cases he : w.ended with
    | false => cases (h.of_not_ended he).2 vw hvw |>.symm.trans hrel
    | true =>
      obtain ⟨e, hpc, hl⟩ := h.of_ended he
      cases e with
      | finished => exact hpc
      | noBackend | noFrame => cases hl.2.symm.trans hvw
      | raised => cases (hl.2 vw hvw).symm.trans hrel

end Worker

namespace State
variable {s t : State} {a : Action} {p : ClipPath}

/-- A thread with an open file had it before the step, or has opened it now. -/
theorem Trans.path (ht : Trans cfg s a t) (h : Inv cfg s) {i : Nat} {th : Thread}
    (hi : t.threads[i]? = some th) (hp : th.worker.path = some p) :
    ∃ th', s.threads[i]? = some th' ∧ th.worker.clock = th'.worker.clock ∧
      (th'.worker.path = some p ∨
        a = .worker i .go ∧ th'.worker.pc = .openWriter ∧ s.last_clip_path = some p) := by
  cases ht with
  | spawn =>
    rcases threads_spawn hi with ⟨-, rfl⟩ | ⟨-, hi⟩
    · cases hp
    · exact ⟨th, hi, rfl, .inl hp⟩
  | stop =>
    obtain ⟨th', hi', rfl⟩ := threads_set hi
    exact ⟨th', hi', rfl, .inl hp⟩
  | worker hk hw =>
    rcases threads_update hk hi with ⟨rfl, rfl⟩ | ⟨-, hi⟩
    · obtain ⟨hclock, hpath⟩ := (Worker.step_trans hw).path (h.local hk) hp
      refine ⟨_, hk, hclock, ?_⟩
      rcases hpath with hpath | ⟨rfl, hpc, hlast⟩
      · exact .inl hpath
      · exact .inr ⟨rfl, hpc, hlast⟩
    · exact ⟨th, hi, rfl, .inl hp⟩
  | _ => exact ⟨th, hi, rfl, .inl hp⟩

/-- The opened files have the names of their workers' clock readings, and `last_clip_path` is
that of the current worker's. -/
structure Named (cfg : Config) (s : State) : Prop where
  path : ∀ (i : Nat) (th : Thread) (p : ClipPath), s.threads[i]? = some th →
    th.worker.path = some p →
      ∃ t, th.worker.clock = some t ∧ p = clipPath cfg.clips_dir (cfg.localtime t)
  last : ∀ (i : Nat) (th : Thread) (t : Int), s.threads[i]? = some th →
    i + 1 = s.threads.length → th.worker.clock = some t →
      s.last_clip_path = some (clipPath cfg.clips_dir (cfg.localtime t))

/-- The reading of a worker about to open its file names `last_clip_path`. -/
theorem Named.opening (hn : Named cfg s) (h : Inv cfg s) {i : Nat} {th : Thread}
    (hi : s.threads[i]? = some th) (hpc : th.worker.pc = .openWriter) :
    ∃ t, th.worker.clock = some t ∧
      s.last_clip_path = some (clipPath cfg.clips_dir (cfg.localtime t)) := by
  have hl := h.local hi
  rw [Worker.Local, hpc] at hl
  obtain ⟨t, ht⟩ := Option.ne_none_iff_exists'.1 hl.1
  exact ⟨t, ht, hn.last i th t hi (h.alive i th hi (by rw [Worker.alive, hpc])) ht⟩

theorem Named.step (hn : Named cfg s) (h : Inv cfg s) (ht : Trans cfg s a t) : Named cfg t where
  path i th p hi hp := by
    obtain ⟨th', hi', hclock, hpath | ⟨-, hpc, hlast⟩⟩ := ht.path h hi hp
    · rw [hclock]
      exact hn.path i th' p hi' hpath
    · obtain ⟨t, hc, hname⟩ := hn.opening h hi' hpc
      exact ⟨t, hclock.trans hc, Option.some.inj (hlast.symm.trans hname)⟩
  last i th t hi hlast hc := by
    cases ht with
    | spawn =>
      rcases threads_spawn hi with ⟨-, rfl⟩ | ⟨hlt, -⟩
      · cases hc
      · simp only [State.spawn, List.length_append, List.length_singleton] at hlast
        omega
    | stop =>
      obtain ⟨th', hi', rfl⟩ := threads_set hi
      exact hn.last i th' t hi' (by simpa [State.set] using hlast) hc
    | @worker j th' w m hj hw =>
      rw [length_update] at hlast
      rcases threads_update hj hi with ⟨rfl, rfl⟩ | ⟨hne, -⟩
      · simp only [update]
        rcases (Worker.step_trans hw).clock hc with ⟨hc, hnone⟩ | hsome
        · rw [hnone]
          exact hn.last i th' t hj hlast hc
        · rw [hsome]
          rfl
      · have hlast' := h.alive j th' hj (alive_of_step hw)
        omega
    | _ => exact hn.last i th t hi hlast hc

/-- A state with both invariants. -/
def Sound (cfg : Config) (s : State) : Prop := Inv cfg s ∧ Named cfg s

theorem sound_inductive : (machine cfg).Inductive (Sound cfg) where
  init := ⟨.init, fun _ _ _ hi => absurd hi threads_init, fun _ _ _ hi => absurd hi threads_init⟩
  step := by
    rintro s a t ⟨h, hn⟩ hs
    exact ⟨h.step (machine_trans hs), hn.step h (machine_trans hs)⟩

/-- One return of a `stop()`. -/
theorem Trans.returns_iff (ht : Trans cfg s a t) (h : Sound cfg s) :
    (∀ r, s.returns a = some r → Honest s r) ↔
      (a = .read → ∃ th, s.current = some th ∧ th.worker.Finished) := by
  obtain ⟨h, hn⟩ := h
  cases ht with
  | testNone hc hp =>
    refine ⟨fun _ => nofun, fun _ r hr => ?_⟩
    simp only [returns, hp, Option.isSome_none] at hr
    cases hr
    exact ⟨nofun, fun _ => rfl⟩
  | test hc hp =>
    refine ⟨fun _ => nofun, fun _ r hr => ?_⟩
    simp [returns, Option.isSome_iff_ne_none.2 hp] at hr
  | read hc =>
    obtain ⟨p, hp⟩ := Option.ne_none_iff_exists'.1 (h.reading hc)
    constructor
    · intro hhon _
      obtain ⟨th, vw, hth, hvw, -, hrel⟩ := (hhon _ rfl).1 p hp
      obtain ⟨i, hi, -⟩ := h.current_eq_some.1 hth
      exact ⟨th, hth, (h.local hi).finished_iff.2 ⟨vw, hvw, hrel⟩⟩
    · intro hfin r hr
      obtain ⟨th, hth, hfin⟩ := hfin rfl
      obtain ⟨i, hi, hlast⟩ := h.current_eq_some.1 hth
      obtain ⟨vw, hvw, hrel⟩ := (h.local hi).finished_iff.1 hfin
      obtain ⟨t, hclock, hpath⟩ := hn.path i th vw.path hi (by rw [Worker.path, hvw]; rfl)
      have hname := hn.last i th t hi hlast hclock
      cases hr
      refine ⟨fun p' hp' => ⟨th, vw, hth, hvw, ?_, hrel⟩, fun hnone => ?_⟩
      · exact hpath.trans (Option.some.inj (hname.symm.trans hp'))
      · cases (hnone th hth).symm.trans hvw
  | _ => exact ⟨fun _ => nofun, fun _ _ => nofun⟩

/-- If the openings so far and this step are of other local seconds, then so are the openings after
it. -/
theorem Named.noneOverwritten (hn : Named cfg s) (h : Inv cfg s) (ht : Trans cfg s a t)
    (hother : OtherSecond cfg s a) (hne : NoneOverwritten s) : NoneOverwritten t := by
  have hnew : ∀ (i j : Nat) (th th' : Thread) (p p' : ClipPath), i ≠ j →
      a = .worker i .go → s.threads[i]? = some th → th.worker.pc = .openWriter →
      s.last_clip_path = some p → s.threads[j]? = some th' → th'.worker.path = some p' → p ≠ p' := by
    intro i j th th' p p' hij ha hi hpc hlast hj hp'
    obtain ⟨t₁, hc, hname⟩ := hn.opening h hi hpc
    obtain ⟨t₂, hc', rfl⟩ := hn.path j th' p' hj hp'
    have hw' : th'.worker.writer ≠ none := by
      intro hnone
      rw [Worker.path, hnone] at hp'
      cases hp'
    cases hlast.symm.trans hname
    rw [Ne, clipPath_inj]
    exact hother i j th th' t₁ t₂ hij ha hi hj hpc hw' hc hc'
  intro i j th th' p p' hij hi hj hp hp'
  obtain ⟨th₀, hi₀, -, hold | ⟨ha, hpc, hlast⟩⟩ := ht.path h hi hp
  · obtain ⟨th₁, hj₁, -, hold' | ⟨ha', hpc', hlast'⟩⟩ := ht.path h hj hp'
    · exact hne i j th₀ th₁ p p' hij hi₀ hj₁ hold hold'
    · exact (hnew j i th₁ th₀ p' p hij.symm ha' hj₁ hpc' hlast' hi₀ hold).symm
  · obtain ⟨th₁, hj₁, -, hold' | ⟨ha', -, -⟩⟩ := ht.path h hj hp'
    · exact hnew i j th₀ th₁ p p' hij ha hi₀ hpc hlast hj₁ hold'
    · cases ha.symm.trans ha'
      exact absurd rfl hij

/-- An opening that repeats a local second overwrites. -/
theorem Named.otherSecond (hn : Named cfg s) (h : Inv cfg s) (ht : Trans cfg s a t)
    (hne : NoneOverwritten t) : OtherSecond cfg s a := by
  rintro i j th th' t₁ t₂ hij rfl hi hj hpc hw' hc hc' heq
  obtain ⟨vw, hvw⟩ := Option.ne_none_iff_exists'.1 hw'
  have hp' : th'.worker.path = some vw.path := by rw [Worker.path, hvw, Option.map_some]
  obtain ⟨t₃, hc₃, hpath⟩ := hn.path j th' vw.path hj hp'
  cases hc'.symm.trans hc₃
  obtain ⟨t₄, hc₄, hname⟩ := hn.opening h hi hpc
  cases hc.symm.trans hc₄
  cases ht with
  | worker hk hw =>
    cases hi.symm.trans hk
    have hp := (Worker.step_trans hw).path_openWriter hpc
    refine hne i j _ th' _ vw.path hij (update_self hi) ((update_ne hij).trans hj)
      (hp.trans hname) hp' ?_
    rw [hpath, heq]

end State

/-- Every `stop()` gives an honest result if and only if each one that comes to return a path
finds the current worker past its release: it had a frame and raised nothing, and if the `join`
timed out, it has come to its end since. -/
theorem honest_iff (as : List Action) :
    (machine cfg).EveryStep (fun s a _ => ∀ r, s.returns a = some r → Honest s r)
        (machine cfg).init as ↔
      (machine cfg).EveryStep
        (fun s a _ => a = .read → ∃ th, s.current = some th ∧ th.worker.Finished)
        (machine cfg).init as :=
  Machine.everyStep_congr (fun h hs => State.sound_inductive.step h hs)
    (fun h hs => (machine_trans hs).returns_iff h) State.sound_inductive.init

/-- The first session of a recorder, ended in time, and the `start()` of the second one. -/
def twoSessions : List Action :=
  [.start, .clear, .spawn] ++ openClip 0 0 ++
    [.stop, .worker 0 .go, .worker 0 .go, .worker 0 .go, .join, .test, .read,
      .start, .clear, .spawn]

def finishedThread : Thread where
  worker := ⟨.dead .finished, [0], (1, 1), some 0,
    some ⟨clipPath "data/clips" default, 15, (1, 1), [], true⟩⟩
  told := true

-- In the second session dxcam has no new frame at the first grab.
theorem not_always_honest :
    ¬ ∀ (cfg : Config) (as : List Action),
      (machine cfg).EveryStep (fun s a _ => ∀ r, s.returns a = some r → Honest s r)
        (machine cfg).init as := by
  intro h
  have hrun : (machine oneMonitor).run (machine oneMonitor).init
      (twoSessions ++ [.worker 1 .go, .worker 1 (.capture (oneOutput .nothing)), .worker 1 .go,
        .stop, .join, .test]) =
      some ⟨true, some (clipPath "data/clips" default), some 1,
        [finishedThread, ⟨{ pc := .dead .noFrame }, true⟩], .reading⟩ := rfl
  obtain ⟨hhon, -⟩ := (h oneMonitor (_ ++ .read :: [])).split hrun rfl
  cases (hhon _ rfl).2 (by rintro th ⟨⟩; rfl)

/-- In a run no session opens the file of another one if and only if each one that opens its
file has a clock reading that shows another local second than those of the sessions before it. -/
theorem none_overwritten_iff (as : List Action) :
    (machine cfg).EveryState NoneOverwritten (machine cfg).init as ↔
      (machine cfg).EveryStep (fun s a _ => OtherSecond cfg s a) (machine cfg).init as := by
  constructor
  · intro hne
    refine (hne.and (State.sound_inductive.everyState State.sound_inductive.init)).everyStep ?_
    rintro s a t ⟨-, h, hn⟩ hs ⟨hne, -⟩
    exact hn.otherSecond h (machine_trans hs) hne
  · intro hother
    have hall : (machine cfg).EveryState (fun s => State.Sound cfg s ∧ NoneOverwritten s)
        (machine cfg).init as := by
      refine hother.everyState ?_ ⟨State.sound_inductive.init, ?_⟩
      · rintro s a t ⟨h, hne⟩ hs hother
        exact ⟨State.sound_inductive.step h hs,
          h.2.noneOverwritten h.1 (machine_trans hs) hother hne⟩
      · intro i j th th' p p' _ hi
        exact absurd hi State.threads_init
    exact hall.mono fun s h => h.2

/-- The clock readings taken in a run. -/
def clocks (as : List Action) : List Int :=
  as.filterMap fun
    | .worker _ (.clock t) => some t
    | _ => none

-- The second session takes its name within the second of the first one's.
theorem not_always_apart :
    ¬ ∀ (cfg : Config) (as : List Action), (clocks as).Pairwise (· ≤ ·) →
      (machine cfg).EveryState NoneOverwritten (machine cfg).init as := by
  intro h
  have hrun : (machine oneMonitor).run (machine oneMonitor).init (twoSessions ++ openClip 1 0) =
      some ⟨false, some (clipPath "data/clips" default), some 1,
        [finishedThread, ⟨⟨.loopTest, [0], (1, 1), some 0,
          some ⟨clipPath "data/clips" default, 15, (1, 1), [], false⟩⟩, false⟩], .idle⟩ := rfl
  have hne := (h oneMonitor (twoSessions ++ openClip 1 0) (by decide)).last hrun
  exact hne 0 1 _ _ _ _ (by decide) rfl rfl rfl rfl rfl

end Simian.ScreenRecorder
