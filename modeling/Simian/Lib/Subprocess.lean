import Mathlib.Data.List.Flatten

/-! # Commands and their output

A command writes bytes to its two streams. `check_output` takes what goes to standard output, or
both streams in the order of the writes, and raises on a status other than zero. -/

namespace Subprocess

inductive Stream
  | stdout
  | stderr
  deriving DecidableEq, Repr

/-- What a command wrote and to which stream, and how it ended. -/
structure Process where
  writes : List (Stream × List UInt8)
  returncode : Int

namespace Process

def written (p : Process) (s : Stream) : List UInt8 :=
  (p.writes.filter (·.1 = s)).flatMap (·.2)

/-- Both streams in one. -/
def merged (p : Process) : List UInt8 := p.writes.flatMap (·.2)

theorem length_merged (p : Process) :
    p.merged.length = (p.written .stdout).length + (p.written .stderr).length := by
  obtain ⟨writes, returncode⟩ := p
  simp only [merged, written]
  induction writes with
  | nil => rfl
  | cons w writes ih =>
    obtain ⟨s, bs⟩ := w
    cases s <;> simp [ih] <;> omega

theorem sublist_merged (p : Process) : (p.written .stdout).Sublist p.merged :=
  List.filter_sublist.flatMap _

/-- Standard output is all that was written exactly if nothing went to standard error. -/
theorem stdout_eq_merged_iff (p : Process) :
    p.written .stdout = p.merged ↔ p.written .stderr = [] := by
  have hlength := length_merged p
  constructor
  · intro h
    rw [h] at hlength
    exact List.length_eq_zero_iff.1 (by omega)
  · intro h
    rw [h, List.length_nil, Nat.add_zero] at hlength
    exact (sublist_merged p).eq_of_length hlength.symm

end Process

structure CalledProcessError where
  cmd : String
  returncode : Int
  output : List UInt8

/-- `str(e)`, where `signals` has the names of the signals. -/
def CalledProcessError.str (signals : Nat → Option String) (e : CalledProcessError) : String :=
  if e.returncode < 0 then
    match signals e.returncode.natAbs with
    | some name =>
      "Command '" ++ e.cmd ++ "' died with <Signals." ++ name ++ ": " ++
        toString e.returncode.natAbs ++ ">."
    | none =>
      "Command '" ++ e.cmd ++ "' died with unknown signal " ++ toString e.returncode.natAbs ++ "."
  else
    "Command '" ++ e.cmd ++ "' returned non-zero exit status " ++ toString e.returncode ++ "."

/-- The end of `check_output`, with `stderr=STDOUT` or without. -/
def check_output (cmd : String) (STDOUT : Bool) (p : Process) :
    Except CalledProcessError (List UInt8) :=
  let output := if STDOUT then p.merged else p.written .stdout
  if p.returncode = 0 then .ok output else .error ⟨cmd, p.returncode, output⟩

/-! ## Texts -/

/-- `bs.decode("utf-8")` -/
def decode (bs : List UInt8) : Option String := String.fromUTF8? bs.toByteArray

theorem decode_eq_some {bs : List UInt8} {s : String} :
    decode bs = some s ↔ bs.toByteArray = s.toByteArray := by
  rw [decode, String.fromUTF8?]
  constructor
  · intro h
    split at h
    · rw [← Option.some.inj h]
      rfl
    · cases h
  · intro h
    rw [h, dif_pos s.isValidUTF8]
    rfl

/-- Different bytes are the same text only if neither are a text. -/
theorem decode_eq_iff {bs cs : List UInt8} :
    decode bs = decode cs ↔ bs = cs ∨ decode bs = none ∧ decode cs = none := by
  constructor
  · intro h
    cases hbs : decode bs with
    | none => exact .inr ⟨rfl, h ▸ hbs⟩
    | some s =>
      have hcs := h.symm.trans hbs
      exact .inl (List.toByteArray_inj.1
        ((decode_eq_some.1 hbs).trans (decode_eq_some.1 hcs).symm))
  · intro h
    rcases h with rfl | ⟨hbs, hcs⟩
    · rfl
    · rw [hbs, hcs]

end Subprocess
