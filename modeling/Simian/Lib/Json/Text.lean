import Simian.Lib.Digits
import Mathlib.Tactic.Cases

/-! # JSON string literals

`quote` writes a string in ASCII: printable characters as they are, the others as escapes, those
beyond sixteen bits as a surrogate pair. `readString` reads a literal after its opening quote, first
into pieces and then into characters, so that a pair of escapes is joined after the closing quote has
been found. It undoes `quote` (`readString_quote`) and never looks past the closing quote
(`readString_append`). Strings are sequences of Unicode scalar values, so a lone surrogate is no
character. -/

namespace Json
open Digits

/-- A piece of a string literal: a character, or the code unit of a `\u` escape. -/
inductive Piece
  | char (c : Char)
  | code (n : Nat)
  deriving DecidableEq, Repr

def isHigh (n : Nat) : Bool := 0xd800 ≤ n && n < 0xdc00

def isLow (n : Nat) : Bool := 0xdc00 ≤ n && n < 0xe000

/-- The character of a surrogate pair. -/
def join (hi lo : Nat) : Char := Char.ofNat (0x10000 + (hi - 0xd800) * 0x400 + (lo - 0xdc00))

/-! ## Writing -/

/-- The character that stands for `c` behind a backslash. -/
def shortEscape (c : Char) : Option Char :=
  if c = '"' then some '"'
  else if c = '\\' then some '\\'
  else if c = '\n' then some 'n'
  else if c = '\r' then some 'r'
  else if c = '\t' then some 't'
  else if c = '\x08' then some 'b'
  else if c = '\x0c' then some 'f'
  else none

def unitEscape (n : Nat) : List Char := '\\' :: 'u' :: padded 16 4 n

def escape (c : Char) : List Char :=
  match shortEscape c with
  | some e => ['\\', e]
  | none =>
    if ' ' ≤ c ∧ c ≤ '~' then [c]
    else if c.toNat < 0x10000 then unitEscape c.toNat
    else unitEscape (0xd800 + (c.toNat - 0x10000) / 0x400) ++
      unitEscape (0xdc00 + (c.toNat - 0x10000) % 0x400)

def quote (s : String) : List Char := '"' :: (s.toList.flatMap escape ++ ['"'])

/-! ## Reading -/

def unescape (c : Char) : Option Char :=
  if c = '"' then some '"'
  else if c = '\\' then some '\\'
  else if c = '/' then some '/'
  else if c = 'n' then some '\n'
  else if c = 'r' then some '\r'
  else if c = 't' then some '\t'
  else if c = 'b' then some '\x08'
  else if c = 'f' then some '\x0c'
  else none

/-- The pieces up to the closing quote, and what follows it. -/
def pieces : List Char → Option (List Piece × List Char)
  | [] => none
  | '"' :: cs => some ([], cs)
  | '\\' :: 'u' :: d₃ :: d₂ :: d₁ :: d₀ :: cs =>
    (value? 16 [d₃, d₂, d₁, d₀]).bind fun n => (pieces cs).map fun p => (.code n :: p.1, p.2)
  | '\\' :: e :: cs => (unescape e).bind fun c => (pieces cs).map fun p => (.char c :: p.1, p.2)
  | c :: cs => if c < ' ' ∨ c = '\\' then none else (pieces cs).map fun p => (.char c :: p.1, p.2)
termination_by structural cs => cs

def decode : List Piece → Option (List Char)
  | [] => some []
  | .char c :: ps => (decode ps).map (c :: ·)
  | .code n :: ps =>
    if isHigh n then
      match ps with
      | .code lo :: ps => if isLow lo then (decode ps).map (join n lo :: ·) else none
      | _ => none
    else if isLow n then none
    else (decode ps).map (Char.ofNat n :: ·)
termination_by structural ps => ps

def readString (cs : List Char) : Option (String × List Char) :=
  (pieces cs).bind fun p => (decode p.1).map fun s => (String.ofList s, p.2)

/-! ## Reading what was written -/

theorem pieces_unitEscape {n : Nat} (hn : n < 0x10000) (cs : List Char) :
    pieces (unitEscape n ++ cs) = (pieces cs).map fun p => (.code n :: p.1, p.2) := by
  have hlen : (padded 16 4 n).length = 4 := length_padded
  have hval : value? 16 (padded 16 4 n) = some n := value?_padded (by decide) hn
  rw [unitEscape]
  generalize padded 16 4 n = ds at hlen hval
  match ds, hlen with
  | [d₃, d₂, d₁, d₀], _ => simp [pieces, hval]

theorem unescape_shortEscape {c e : Char} (h : shortEscape c = some e) : unescape e = some c := by
  unfold shortEscape at h
  split_ifs at h <;> cases h <;> subst_vars <;> decide

theorem pieces_escaped {c e : Char} (h : unescape e = some c) (cs : List Char) :
    pieces ('\\' :: e :: cs) = (pieces cs).map fun p => (.char c :: p.1, p.2) := by
  rw [pieces, h, Option.bind_some]
  rintro d₃ d₂ d₁ d₀ cs' rfl
  cases h

theorem pieces_plain {c : Char} (hquote : c ≠ '"') (h : ¬ (c < ' ' ∨ c = '\\')) (cs : List Char) :
    pieces (c :: cs) = (pieces cs).map fun p => (.char c :: p.1, p.2) := by
  obtain ⟨-, hslash⟩ := not_or.1 h
  rw [pieces, if_neg h]
  · exact hquote
  · exact fun _ _ _ _ _ hc => absurd hc hslash
  · exact fun _ _ hc => absurd hc hslash

/-- The pieces that `escape` writes for a character. -/
def piecesOf (c : Char) : List Piece :=
  if (shortEscape c).isSome ∨ ' ' ≤ c ∧ c ≤ '~' then [.char c]
  else if c.toNat < 0x10000 then [.code c.toNat]
  else [.code (0xd800 + (c.toNat - 0x10000) / 0x400), .code (0xdc00 + (c.toNat - 0x10000) % 0x400)]

theorem toNat_le (c : Char) : c.toNat < 0x110000 := by
  rcases c.valid with h | h
  · exact Nat.lt_trans h (by decide)
  · exact h.2

theorem pieces_escape (c : Char) (cs : List Char) :
    pieces (escape c ++ cs) = (pieces cs).map fun p => (piecesOf c ++ p.1, p.2) := by
  unfold escape piecesOf
  cases he : shortEscape c with
  | some e => exact pieces_escaped (unescape_shortEscape he) cs
  | none =>
    by_cases hascii : ' ' ≤ c ∧ c ≤ '~'
    · have hplain : ¬ (c < ' ' ∨ c = '\\') := by
        rintro (hlt | rfl)
        · exact absurd hascii.1 (by simpa using hlt)
        · cases he
      rw [if_pos hascii, if_pos (.inr hascii)]
      refine pieces_plain ?_ hplain cs
      rintro rfl
      cases he
    · by_cases hn : c.toNat < 0x10000
      · simp [hascii, hn, pieces_unitEscape hn]
      · have hle := toNat_le c
        simp only [hascii, hn, if_false, Option.isSome_none, Bool.false_eq_true, false_or,
          List.append_assoc]
        rw [pieces_unitEscape (by omega), pieces_unitEscape (by omega), Option.map_map]
        rfl

theorem decode_piecesOf (c : Char) (ps : List Piece) :
    decode (piecesOf c ++ ps) = (decode ps).map (c :: ·) := by
  unfold piecesOf
  split_ifs with hchar hn
  · rfl
  · have hhigh : isHigh c.toNat = false ∧ isLow c.toNat = false := by
      have hval : c.toNat < 0xd800 ∨ 0xdfff < c.toNat ∧ c.toNat < 0x110000 := c.valid
      simp only [isHigh, isLow, Bool.and_eq_false_iff, decide_eq_false_iff_not]
      omega
    rw [List.cons_append, List.nil_append, decode.eq_def]
    simp [hhigh, Char.ofNat_toNat]
  · have hle := toNat_le c
    have hhigh : isHigh (0xd800 + (c.toNat - 0x10000) / 0x400) = true := by
      simp only [isHigh, Bool.and_eq_true, decide_eq_true_eq]
      omega
    have hlow : isLow (0xdc00 + (c.toNat - 0x10000) % 0x400) = true := by
      simp only [isLow, Bool.and_eq_true, decide_eq_true_eq]
      omega
    have hjoin : join (0xd800 + (c.toNat - 0x10000) / 0x400)
        (0xdc00 + (c.toNat - 0x10000) % 0x400) = c := by
      rw [join, show 0x10000 + (0xd800 + (c.toNat - 0x10000) / 0x400 - 0xd800) * 0x400 +
        (0xdc00 + (c.toNat - 0x10000) % 0x400 - 0xdc00) = c.toNat by omega, Char.ofNat_toNat]
    simp [decode, hhigh, hlow, hjoin]

theorem pieces_flatMap (cs r : List Char) :
    pieces (cs.flatMap escape ++ '"' :: r) = some (cs.flatMap piecesOf, r) := by
  induction cs with
  | nil => rfl
  | cons c cs ih =>
    rw [List.flatMap_cons, List.append_assoc, pieces_escape, ih]
    rfl

theorem decode_flatMap (cs : List Char) : decode (cs.flatMap piecesOf) = some cs := by
  induction cs with
  | nil => rfl
  | cons c cs ih =>
    rw [List.flatMap_cons, decode_piecesOf, ih]
    rfl

theorem readString_quote (s : String) (r : List Char) :
    readString (s.toList.flatMap escape ++ '"' :: r) = some (s, r) := by
  rw [readString, pieces_flatMap, Option.bind_some, decode_flatMap, Option.map_some,
    String.ofList_toList]

/-! ## Reading from a longer text -/

theorem pieces_append {cs r : List Char} {ps : List Piece} (s : List Char)
    (h : pieces cs = some (ps, r)) : pieces (cs ++ s) = some (ps, r ++ s) := by
  fun_induction pieces cs generalizing ps with
  | case1 => cases h
  | case2 cs =>
    cases h
    rfl
  | case3 d₃ d₂ d₁ d₀ cs ih =>
    obtain ⟨n, hn, h⟩ := Option.bind_eq_some_iff.1 h
    obtain ⟨p, hp, heq⟩ := Option.map_eq_some_iff.1 h
    cases heq
    simp only [List.cons_append, pieces, hn, Option.bind_some, ih hp, Option.map_some]
  | case4 e cs _ ih =>
    obtain ⟨c, hc, h⟩ := Option.bind_eq_some_iff.1 h
    obtain ⟨p, hp, heq⟩ := Option.map_eq_some_iff.1 h
    cases heq
    rw [List.cons_append, List.cons_append, pieces_escaped hc, ih hp, Option.map_some]
  | case5 c cs => cases h
  | case6 c cs hquote _ _ hplain ih =>
    obtain ⟨p, hp, heq⟩ := Option.map_eq_some_iff.1 h
    cases heq
    rw [List.cons_append, pieces_plain hquote hplain, ih hp, Option.map_some]

theorem readString_append {cs r : List Char} {t : String} (s : List Char)
    (h : readString cs = some (t, r)) : readString (cs ++ s) = some (t, r ++ s) := by
  obtain ⟨⟨ps, r'⟩, hp, h⟩ := Option.bind_eq_some_iff.1 h
  obtain ⟨cs', hd, heq⟩ := Option.map_eq_some_iff.1 h
  cases heq
  rw [readString, pieces_append s hp, Option.bind_some, hd]
  rfl

end Json
