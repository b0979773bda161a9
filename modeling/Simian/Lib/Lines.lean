import Mathlib.Data.List.Basic
import Simian.Lib.Digits

/-! # Texts of one line

A text is one line if it has none of the characters at which `str.splitlines` breaks it. -/

def isLineBreak (c : Char) : Bool :=
  [0x0a, 0x0b, 0x0c, 0x0d, 0x1c, 0x1d, 0x1e, 0x85, 0x2028, 0x2029].contains c.toNat

def OneLine (s : String) : Prop := ∀ c ∈ s.toList, isLineBreak c = false

theorem isLineBreak_of_printable {c : Char} (h : 0x20 ≤ c.toNat) (h' : c.toNat < 0x7f) :
    isLineBreak c = false := by
  rw [isLineBreak, List.contains_eq_mem, decide_eq_false_iff_not]
  intro hmem
  simp only [List.mem_cons, List.not_mem_nil, or_false] at hmem
  omega

namespace OneLine
variable {s t : String} {cs ds : List Char} {n b w : Nat}

instance : DecidablePred OneLine := fun s =>
  List.decidableBAll (fun c => isLineBreak c = false) s.toList

theorem append_iff : OneLine (s ++ t) ↔ OneLine s ∧ OneLine t := by
  rw [OneLine, String.toList_append, List.forall_mem_append]
  exact Iff.rfl

theorem of_subset (h : OneLine (String.ofList cs)) (hsub : ds ⊆ cs) :
    OneLine (String.ofList ds) := by
  intro c hc
  rw [String.toList_ofList] at hc
  apply h
  rw [String.toList_ofList]
  exact hsub hc

theorem intercalate {texts : List String} (hs : OneLine s) (h : ∀ t ∈ texts, OneLine t) :
    OneLine (s.intercalate texts) := by
  induction texts with
  | nil => exact fun c hc => nomatch hc
  | cons t texts ih =>
    obtain ⟨ht, htexts⟩ := List.forall_mem_cons.1 h
    cases texts with
    | nil => rwa [String.intercalate_singleton]
    | cons t' texts =>
      rw [String.intercalate_cons_cons, append_iff, append_iff]
      exact ⟨⟨ht, hs⟩, ih htexts⟩

theorem of_toString : OneLine (toString n) := by
  intro c hc
  rw [Nat.toString_eq_ofList_toDigits, String.toList_ofList] at hc
  have hdigit : c.isDigit = true := Nat.isDigit_of_mem_toDigits (by decide) (by decide) hc
  rw [Char.isDigit_iff_toNat] at hdigit
  exact isLineBreak_of_printable (le_trans (by decide) hdigit.1)
    (lt_of_le_of_lt hdigit.2 (by decide))

theorem of_padded (hb : 0 < b) (hb' : b ≤ 16) : OneLine (String.ofList (Digits.padded b w n)) := by
  have hall : ∀ d < 16, isLineBreak (Nat.digitChar d) = false := by decide
  intro c hc
  rw [String.toList_ofList] at hc
  induction w generalizing n with
  | zero => cases hc
  | succ w ih =>
    rw [Digits.padded, List.mem_append, List.mem_singleton] at hc
    rcases hc with hc | rfl
    · exact ih hc
    · exact hall _ (lt_of_lt_of_le (Nat.mod_lt n hb) hb')

end OneLine
