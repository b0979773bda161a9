import Simian.Lib.Json.RoundTrip
import Simian.Lib.Python

/-! # The recognizer of the listeners

`listener_bootstrap.py` and `services/mic_listener.py` feed blocks of audio to the recognizer and
take the texts out of its results in the same way, with a state that passes from block to block. -/

namespace Simian
open Json Python

/-- A `KaldiRecognizer`: whether a block ends an utterance, and the document about it. The message
is that of the decoder for a text that is no document. -/
structure Recognizer (ρ : Type) where
  AcceptWaveform : ρ → List UInt8 → ρ × Bool
  Result : ρ → ρ × String
  decode_error : String → String

namespace Recognizer
variable {ρ : Type} (α : Type) [Scalar α] (K : Recognizer ρ)

/-- The text under "text", whose `strip` is called. -/
def textOf (result : String) : Except Error (Option String) :=
  match (load result.toList : Option (Obj α)) with
  | none => .error (.valueError (K.decode_error result))
  | some o => do
    if ← contains "text" o then
      match ← item "text" o with
      | .str text => return some text
      | .scalar _ | .list _ | .tuple _ | .dict _ | .foreign => .error .attributeError
    else return none

/-- What a block leads to: a text, nothing, or an exception. -/
def hear (r : ρ) (data : List UInt8) : ρ × Except Error (Option String) :=
  match K.AcceptWaveform r data with
  | (r, false) => (r, .ok none)
  | (r, true) =>
    let (r, result) := K.Result r
    (r, K.textOf α result)

/-- What the blocks lead to, one after another. -/
def heard : ρ → List (List UInt8) → List (Except Error (Option String))
  | _, [] => []
  | r, data :: blocks => (K.hear α r data).2 :: heard (K.hear α r data).1 blocks

def fed : ρ → List (List UInt8) → ρ
  | r, [] => r
  | r, data :: blocks => fed (K.hear α r data).1 blocks

variable {α K} {r r' : ρ} {data : List UInt8} {xs ys : List (List UInt8)}

theorem hear_of_rejected (h : K.AcceptWaveform r data = (r', false)) :
    K.hear α r data = (r', .ok none) := by
  rw [hear, h]

theorem hear_of_accepted (h : K.AcceptWaveform r data = (r', true)) :
    K.hear α r data = ((K.Result r').1, K.textOf α (K.Result r').2) := by
  rw [hear, h]

theorem heard_append : K.heard α r (xs ++ ys) = K.heard α r xs ++ K.heard α (K.fed α r xs) ys := by
  induction xs generalizing r with
  | nil => rfl
  | cons data xs ih =>
    rw [List.cons_append, heard, ih]
    rfl

theorem fed_snoc : K.fed α r (xs ++ [data]) = (K.hear α (K.fed α r xs) data).1 := by
  induction xs generalizing r with
  | nil => rfl
  | cons data xs ih =>
    rw [List.cons_append, fed, ih]
    rfl

theorem heard_snoc :
    K.heard α r (xs ++ [data]) = K.heard α r xs ++ [(K.hear α (K.fed α r xs) data).2] :=
  heard_append

/-- A recognizer that hears the same text in every block that is not empty. -/
def parrot (text : String) : Recognizer Unit where
  AcceptWaveform r data := (r, !data.isEmpty)
  Result r := (r, String.ofList (dump 2 (.dict [(.str "text", .str text)] : Obj Constant)).text)
  decode_error := id

theorem textOf_parrot {text : String} :
    (parrot text).textOf Constant ((parrot text).Result ()).2 = .ok (some text) := by
  have hplain : (.dict [(.str "text", .str text)] : Obj Constant).Plain := by
    simp [Obj.Plain, Obj.PlainMembers, Dict.keys]
  have hload : load ((parrot text).Result ()).2.toList =
      some (.dict [(.str "text", .str text)] : Obj Constant) := by
    rw [parrot, String.toList_ofList, load_dump hplain.writable, hplain.normal_eq]
  rw [Recognizer.textOf, hload]
  rfl

theorem hear_parrot_nil {text : String} :
    (parrot text).hear Constant () [] = ((), .ok none) := hear_of_rejected rfl

theorem hear_parrot_cons {text : String} {byte : UInt8} {bytes : List UInt8} :
    (parrot text).hear Constant () (byte :: bytes) = ((), .ok (some text)) := by
  rw [← textOf_parrot]
  exact hear_of_accepted rfl

end Recognizer

end Simian
