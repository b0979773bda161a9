import Mathlib.Data.List.Sort
import Mathlib.Data.String.Basic
import Simian.Modules.ScreenRecorder.Clips

/-! # The list of clips

The "Clips" tab of `gui/simian_gui.py` shows the sorted names of the `.mp4` files in the directory
of the recorder. The names of clips are ordered like the local times in them (`clipName_lt`), so
the recorder's clips are shown in the order of its sessions, whatever else is in the directory
(`shows_sessions_in_order`). The window opens, as in `SimianGui`. -/

namespace Simian.SimianGui
open ScreenRecorder (Config LocalTime machine clipPath strftime)

/-! ## Names -/

/-- The order of local times, field by field. -/
def Before (s t : LocalTime) : Prop :=
  s.year < t.year ∨ s.year = t.year ∧ (s.month < t.month ∨ s.month = t.month ∧
    (s.day < t.day ∨ s.day = t.day ∧ (s.hour < t.hour ∨ s.hour = t.hour ∧
      (s.minute < t.minute ∨ s.minute = t.minute ∧ s.second < t.second))))

/-- The name of the clip of a local time. -/
def clipName (t : LocalTime) : String := "simian_" ++ strftime t ++ ".mp4"

variable {s t : LocalTime}

theorem strftime_lt (h : Before s t) : (strftime s).toList < (strftime t).toList := by
  have hbase : 10 ≤ 16 := by omega
  have hyear := t.year_le
  have hmonth := t.month_le
  have hday := t.day_le
  have hhour := t.hour_le
  have hminute := t.minute_le
  have hsecond := t.second_le
  simp only [strftime, String.toList_ofList, List.append_assoc]
  refine Digits.padded_append_lt hbase (by omega) h fun h => ?_
  refine Digits.padded_append_lt hbase (by omega) h fun h => ?_
  refine Digits.padded_append_lt hbase (by omega) h fun h => ?_
  refine List.cons_lt_cons_iff.2 (.inr ⟨rfl, ?_⟩)
  refine Digits.padded_append_lt hbase (by omega) h fun h => ?_
  refine Digits.padded_append_lt hbase (by omega) h fun h => ?_
  exact Digits.padded_lt hbase h (by omega)

/-- Clips are sorted by time. -/
theorem clipName_lt (h : Before s t) : clipName s < clipName t := by
  rw [String.lt_iff_toList_lt, clipName, clipName]
  simp only [String.toList_append, List.append_assoc]
  refine Digits.append_lt_append rfl (.inr ⟨rfl, ?_⟩)
  exact Digits.append_lt_append (by simp [strftime]) (.inl (strftime_lt h))

/-! ## What is shown -/

/-- How paths in one directory are compared: as `normcase` makes their names. -/
def pathLe (normcase : String → String) (a b : String) : Bool :=
  decide (normcase a ≤ normcase b)

/-- `sorted(clips_dir.glob("*.mp4"))` -/
def refresh_clips (normcase : String → String) (names : List String) : List String :=
  (names.filter fun name => ".mp4".toList.isSuffixOf (normcase name).toList).mergeSort
    (pathLe normcase)

/-- The names of the clips that the sessions of a recorder have opened, in the order of the
sessions. -/
def opened (r : ScreenRecorder.State) : List String :=
  r.threads.filterMap fun th => th.worker.path.map fun p => p.name

/-- A session that has opened its clip after another one has a later local time. -/
def Chronological (cfg : Config) (r : ScreenRecorder.State) : Prop :=
  ∀ (i j : Nat) th th' (t t' : Int), i < j → r.threads[i]? = some th → r.threads[j]? = some th' →
    th.worker.writer ≠ none → th'.worker.writer ≠ none →
      th.worker.clock = some t → th'.worker.clock = some t' →
        Before (cfg.localtime t) (cfg.localtime t')

variable {cfg : Config} {normcase : String → String} {names : List String}
  {r : ScreenRecorder.State}

theorem opened_pairwise (hr : (machine cfg).Reachable r) (h : Chronological cfg r) :
    (opened r).Pairwise (· < ·) := by
  have hnamed := (hr.invariant ScreenRecorder.State.sound_inductive).2
  have hclock : ∀ (i : Nat) th name, r.threads[i]? = some th →
      (th.worker.path.map fun p => p.name) = some name →
        th.worker.writer ≠ none ∧ ∃ t, th.worker.clock = some t ∧ name = clipName (cfg.localtime t) := by
    intro i th name hi hname
    obtain ⟨p, hp, rfl⟩ := Option.map_eq_some_iff.1 hname
    obtain ⟨t, ht, rfl⟩ := hnamed.path i th p hi hp
    refine ⟨fun hnone => ?_, t, ht, rfl⟩
    rw [ScreenRecorder.Worker.path, hnone] at hp
    cases hp
  rw [opened, List.pairwise_filterMap, List.pairwise_iff_getElem]
  intro i j hi hj hij name hname name' hname'
  obtain ⟨hw, t, ht, rfl⟩ := hclock i _ name (List.getElem?_eq_getElem hi) hname
  obtain ⟨hw', t', ht', rfl⟩ := hclock j _ name' (List.getElem?_eq_getElem hj) hname'
  exact clipName_lt (h i j _ _ t t' hij (List.getElem?_eq_getElem hi)
    (List.getElem?_eq_getElem hj) hw hw' ht ht')

theorem clipName_isSuffix : ".mp4".toList.isSuffixOf (clipName t).toList = true := by
  rw [List.isSuffixOf_iff_suffix, clipName, String.toList_append]
  exact List.suffix_append _ _

theorem exists_of_mem_opened (hr : (machine cfg).Reachable r) {name : String}
    (h : name ∈ opened r) : ∃ t, name = clipName t := by
  have hnamed := (hr.invariant ScreenRecorder.State.sound_inductive).2
  obtain ⟨th, hth, hname⟩ := List.mem_filterMap.1 h
  obtain ⟨i, hi⟩ := List.mem_iff_getElem?.1 hth
  obtain ⟨p, hp, rfl⟩ := Option.map_eq_some_iff.1 hname
  obtain ⟨t, -, rfl⟩ := hnamed.path i th p hi hp
  exact ⟨cfg.localtime t, rfl⟩

theorem refresh_clips_pairwise :
    (refresh_clips normcase names).Pairwise fun a b => normcase a ≤ normcase b := by
  have hpairwise : (refresh_clips normcase names).Pairwise fun a b => pathLe normcase a b = true := by
    apply List.pairwise_mergeSort
    · intro a b c hab hbc
      exact decide_eq_true (le_trans (of_decide_eq_true hab) (of_decide_eq_true hbc))
    · intro a b
      rw [Bool.or_eq_true, pathLe, pathLe, decide_eq_true_iff, decide_eq_true_iff]
      exact le_total (normcase a) (normcase b)
  exact hpairwise.imp fun h => of_decide_eq_true h

/-- Whatever else is in the directory, the clips of the sessions are shown once each and in the
order of the sessions, as long as the clock is not set back and no two sessions share a second. -/
theorem shows_sessions_in_order (hr : (machine cfg).Reachable r) (h : Chronological cfg r)
    (hnorm : ∀ t, normcase (clipName t) = clipName t) (hnames : names.Nodup)
    (hopened : ∀ name ∈ opened r, name ∈ names) :
    (refresh_clips normcase names).filter (· ∈ opened r) = opened r := by
  have hsorted := opened_pairwise hr h
  have hclip : ∀ name ∈ opened r, normcase name = name ∧
      ".mp4".toList.isSuffixOf name.toList = true := by
    intro name hname
    obtain ⟨t, rfl⟩ := exists_of_mem_opened hr hname
    exact ⟨hnorm t, clipName_isSuffix⟩
  refine @List.Perm.eq_of_pairwise _ (fun a b => normcase a ≤ normcase b) _ _ ?_
    (refresh_clips_pairwise.filter _) (hsorted.imp_of_mem ?_) ?_
  · intro a b ha hb hab hba
    have ha' := (hclip a (by simpa using (List.mem_filter.1 ha).2)).1
    have hb' := (hclip b hb).1
    rw [ha', hb'] at hab hba
    exact le_antisymm hab hba
  · intro a b ha hb hab
    rw [(hclip a ha).1, (hclip b hb).1]
    exact le_of_lt hab
  · refine (List.perm_ext_iff_of_nodup ?_ ?_).2 fun name => ?_
    · exact ((List.mergeSort_perm _ _).nodup_iff.2 (hnames.filter _)).filter _
    · exact hsorted.imp fun h => ne_of_lt h
    · rw [List.mem_filter, refresh_clips, List.mem_mergeSort, List.mem_filter, decide_eq_true_iff]
      constructor
      · intro h
        exact h.2
      · intro hname
        obtain ⟨hcase, hsuffix⟩ := hclip name hname
        rw [hcase]
        exact ⟨⟨hopened name hname, hsuffix⟩, hname⟩

theorem mod_sixty_le {n : Nat} : n % 60 ≤ 61 := by omega

/-- The local time `t` seconds after the beginning of 1970. -/
def firstMinute (t : Int) : LocalTime :=
  { (default : LocalTime) with second := t.toNat % 60, second_le := mod_sixty_le }

/-- One monitor, recorded in the first minute. -/
def inFirstMinute : Config := { ScreenRecorder.oneMonitor with localtime := firstMinute }

/-- A worker in its loop, its clip opened at `t`. -/
def recording (t : Int) (pc : ScreenRecorder.Pc) (told : Bool) : ScreenRecorder.Thread where
  worker := ⟨pc, [0], (1, 1), some t,
    some ⟨clipPath "data/clips" (firstMinute t), 15, (1, 1), [], told⟩⟩
  told := told

-- Two sessions, at the seconds 0 and 7, in a directory with another clip and a text.
theorem shows_two_sessions :
    (refresh_clips id [clipName (firstMinute 7), "cut.mp4", "notes.txt",
      clipName (firstMinute 0)]).filter
        (· ∈ [clipName (firstMinute 0), clipName (firstMinute 7)]) =
      [clipName (firstMinute 0), clipName (firstMinute 7)] := by
  have hr : (machine inFirstMinute).Reachable ⟨false,
      some (clipPath "data/clips" (firstMinute 7)), some 1,
      [recording 0 (.dead .finished) true, recording 7 .loopTest false], .idle⟩ :=
    ⟨ScreenRecorder.twoSessions ++ ScreenRecorder.openClip 1 7, rfl⟩
  refine @shows_sessions_in_order _ id _ _ hr ?_ (fun _ => rfl) (by decide +kernel) (by decide +kernel)
  intro i j th th' t t' hij hi hj _ _ ht ht'
  obtain ⟨hlt, -⟩ := List.getElem?_eq_some_iff.1 hj
  have hlt : j < 2 := hlt
  obtain rfl : j = 1 := by omega
  obtain rfl : i = 0 := by omega
  cases hi
  cases hj
  cases ht
  cases ht'
  exact .inr ⟨rfl, .inr ⟨rfl, .inr ⟨rfl, .inr ⟨rfl, .inr ⟨rfl, by decide⟩⟩⟩⟩⟩

end Simian.SimianGui
