import Simian.Lib.Digits

/-! # Clip names of `modules/screen_recorder.py`

`_writer` names a clip after the local time of its clock reading, to the second. The name
determines the local time (`clipPath_inj`), so two sessions share a path exactly when their
readings show the same local second; the reading itself is not determined, since two readings
within one second, or on both sides of a clock change, show the same one. -/

namespace Simian.ScreenRecorder
open Digits

/-- The fields of `time.localtime()` that the format uses. -/
structure LocalTime where
  year : Nat
  month : Nat
  day : Nat
  hour : Nat
  minute : Nat
  second : Nat
  /-- Other years are not written with four digits everywhere. -/
  le_year : 1000 ≤ year
  year_le : year ≤ 9999
  month_le : month ≤ 12
  day_le : day ≤ 31
  hour_le : hour ≤ 23
  minute_le : minute ≤ 59
  second_le : second ≤ 61
  deriving DecidableEq, Repr

instance : Inhabited LocalTime :=
  ⟨⟨1970, 1, 1, 0, 0, 0, by omega, by omega, by omega, by omega, by omega, by omega, by omega⟩⟩

/-- `time.strftime("%Y%m%d_%H%M%S")`. -/
def strftime (t : LocalTime) : String :=
  String.ofList (padded 10 4 t.year ++ padded 10 2 t.month ++ padded 10 2 t.day ++
    '_' :: (padded 10 2 t.hour ++ padded 10 2 t.minute ++ padded 10 2 t.second))

/-- A `Path` made by `clips_dir / name`. -/
structure ClipPath where
  dir : String
  name : String
  deriving DecidableEq, Repr

/-- `self.clips_dir / f"simian_{ts}.mp4"`. -/
def clipPath (clips_dir : String) (t : LocalTime) : ClipPath :=
  ⟨clips_dir, "simian_" ++ strftime t ++ ".mp4"⟩

theorem strftime_inj {s t : LocalTime} (h : strftime s = strftime t) : s = t := by
  have h := congrArg String.toList h
  simp only [strftime, String.toList_ofList] at h
  obtain ⟨hdate, htime⟩ := List.append_inj h (by simp)
  obtain ⟨hym, hd⟩ := List.append_inj hdate (by simp)
  obtain ⟨hy, hm⟩ := List.append_inj hym (by simp)
  obtain ⟨hhm, hs⟩ := List.append_inj (List.cons.inj htime).2 (by simp)
  obtain ⟨hh, hmin⟩ := List.append_inj hhm (by simp)
  cases s
  cases t
  simp only [LocalTime.mk.injEq]
  have hinj {w m n : Nat} : m < 10 ^ w → n < 10 ^ w → padded 10 w m = padded 10 w n → m = n :=
    padded_inj (by decide)
  refine ⟨hinj ?_ ?_ hy, hinj ?_ ?_ hm, hinj ?_ ?_ hd, hinj ?_ ?_ hh, hinj ?_ ?_ hmin,
    hinj ?_ ?_ hs⟩ <;> omega

theorem clipPath_inj {clips_dir : String} {s t : LocalTime} :
    clipPath clips_dir s = clipPath clips_dir t ↔ s = t := by
  constructor
  · intro h
    have hname := congrArg String.toList (ClipPath.mk.inj h).2
    simp only [String.toList_append] at hname
    apply strftime_inj
    apply String.toList_injective
    exact List.append_cancel_left (List.append_cancel_right hname)
  · rintro rfl
    rfl

end Simian.ScreenRecorder
