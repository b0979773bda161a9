import Simian.Lib.Json.Load

/-! # String literals with characters beyond ASCII

`quoteRaw` writes a string with the escapes that a literal needs and no others, as
`json.dumps(s, ensure_ascii=False)` does. The reader takes it for the same string
(`load_quoteRaw`). -/

universe u

namespace Json

def escapeRaw (c : Char) : List Char :=
  match shortEscape c with
  | some e => ['\\', e]
  | none => if c < ' ' then unitEscape c.toNat else [c]

def quoteRaw (s : String) : List Char := '"' :: (s.toList.flatMap escapeRaw ++ ['"'])

/-- The piece that `escapeRaw` writes for a character. -/
def pieceOf (c : Char) : Piece :=
  if shortEscape c = none ∧ c < ' ' then .code c.toNat else .char c

theorem toNat_lt_of_control {c : Char} (h : c < ' ') : c.toNat < 32 := h

theorem pieces_escapeRaw (c : Char) (cs : List Char) :
    pieces (escapeRaw c ++ cs) = (pieces cs).map fun p => (pieceOf c :: p.1, p.2) := by
  unfold escapeRaw pieceOf
  cases he : shortEscape c with
  | some e =>
    simp only [reduceCtorEq, false_and, if_false]
    exact pieces_escaped (unescape_shortEscape he) cs
  | none =>
    by_cases hcontrol : c < ' '
    · have hlt := toNat_lt_of_control hcontrol
      simp only [hcontrol, if_true, and_self]
      exact pieces_unitEscape (by omega) cs
    · have hplain : ¬ (c < ' ' ∨ c = '\\') := by
        rintro (hlt | rfl)
        · exact hcontrol hlt
        · cases he
      simp only [hcontrol, if_false, and_false]
      refine pieces_plain ?_ hplain cs
      rintro rfl
      cases he

theorem decode_pieceOf (c : Char) (ps : List Piece) :
    decode (pieceOf c :: ps) = (decode ps).map (c :: ·) := by
  unfold pieceOf
  split
  · rename_i h
    have hlt := toNat_lt_of_control h.2
    have hhigh : isHigh c.toNat = false ∧ isLow c.toNat = false := by
      simp only [isHigh, isLow, Bool.and_eq_false_iff, decide_eq_false_iff_not]
      omega
    rw [decode.eq_def]
    simp [hhigh, Char.ofNat_toNat]
  · rfl

theorem readString_quoteRaw (s : String) (r : List Char) :
    readString (s.toList.flatMap escapeRaw ++ '"' :: r) = some (s, r) := by
  have hpieces : ∀ cs : List Char,
      pieces (cs.flatMap escapeRaw ++ '"' :: r) = some (cs.map pieceOf, r) := by
    intro cs
    induction cs with
    | nil => rfl
    | cons c cs ih =>
      rw [List.flatMap_cons, List.append_assoc, pieces_escapeRaw, ih]
      rfl
  have hdecode : ∀ cs : List Char, decode (cs.map pieceOf) = some cs := by
    intro cs
    induction cs with
    | nil => rfl
    | cons c cs ih =>
      rw [List.map_cons, decode_pieceOf, ih]
      rfl
  rw [readString, hpieces, Option.bind_some, hdecode, Option.map_some, String.ofList_toList]

theorem load_quoteRaw {α : Type u} [Scalar α] (s : String) :
    load (quoteRaw s) = some (.str s : Obj α) := by
  have hquote : isSpace '"' = false := rfl
  rw [load, quoteRaw, skip_cons hquote, List.length_cons, value, if_pos rfl,
    readString_quoteRaw s []]
  rfl

end Json
