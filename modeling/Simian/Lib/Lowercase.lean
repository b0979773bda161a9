import Mathlib.Data.List.Basic

/-! # Lower case

`Casing.lower` is the full case mapping of a text. One character does not determine its own image: a
capital sigma becomes a final one at the end of a word, so what a part of a text becomes depends on
what stands around it. It does so only for texts with a sigma (`lowered_eq_iff`), and a character
that nothing else is mapped to stays where it is (`Casing.Keeps`). -/

/-- The tables of character properties. -/
structure Casing where
  /-- The lower case of a character other than the capital sigma. -/
  lowercase : Char → List Char
  cased : Char → Bool
  case_ignorable : Char → Bool

namespace Casing

/-- The lower case of a capital sigma between `before`, which is read backwards, and `after`. -/
def sigma (U : Casing) (before after : List Char) : Char :=
  if (before.dropWhile U.case_ignorable).head?.any U.cased &&
    !(after.dropWhile U.case_ignorable).head?.any U.cased then 'ς' else 'σ'

/-- The lower case of the part of a text between `before` and `after`. -/
def lowered (U : Casing) (before : List Char) : List Char → List Char → List Char
  | [], _ => []
  | c :: cs, after =>
    (if c = 'Σ' then [U.sigma before (cs ++ after)] else U.lowercase c) ++
      lowered U (c :: before) cs after

def lower (U : Casing) (s : String) : String := String.ofList (U.lowered [] s.toList [])

/-- The character is its own lower case, and that of no other. -/
structure Keeps (U : Casing) (d : Char) : Prop where
  lowercase_self : U.lowercase d = [d]
  eq_of_mem : ∀ c, d ∈ U.lowercase c → c = d
  not_sigma : d ∉ ['Σ', 'σ', 'ς']

variable {U : Casing} {before after before' after' xs ys : List Char} {d : Char}

theorem sigma_mem : U.sigma before after ∈ ['σ', 'ς'] := by
  rw [sigma]
  split
  · exact List.mem_cons_of_mem 'σ' List.mem_cons_self
  · exact List.mem_cons_self

theorem lowered_append : U.lowered before (xs ++ ys) after =
    U.lowered before xs (ys ++ after) ++ U.lowered (xs.reverse ++ before) ys after := by
  induction xs generalizing before with
  | nil => rfl
  | cons x xs ih =>
    rw [List.cons_append, lowered, lowered, ih, List.append_assoc, List.append_assoc,
      List.reverse_cons, List.append_assoc]
    rfl

theorem Keeps.lowered_self (h : U.Keeps d) : U.lowered before [d] after = [d] := by
  have hne : d ≠ 'Σ' := fun heq => h.not_sigma (heq ▸ List.mem_cons_self)
  rw [lowered, lowered, if_neg hne, h.lowercase_self, List.append_nil]

theorem Keeps.mem_lowered (h : U.Keeps d) : d ∈ U.lowered before xs after ↔ d ∈ xs := by
  induction xs generalizing before with
  | nil => exact Iff.rfl
  | cons x xs ih =>
    rw [lowered, List.mem_append, List.mem_cons, ih]
    apply or_congr_left
    split
    · rename_i hx
      refine iff_of_false (fun hd => ?_) fun hd => ?_
      · rw [List.mem_singleton] at hd
        exact h.not_sigma (List.mem_cons_of_mem 'Σ' (hd ▸ sigma_mem))
      · exact h.not_sigma (hd.trans hx ▸ List.mem_cons_self)
    · refine ⟨fun hd => (h.eq_of_mem x hd).symm, fun hd => ?_⟩
      rw [← hd, h.lowercase_self]
      exact List.mem_cons_self

/-- The lower case of a text without a sigma does not depend on what is around it. -/
theorem lowered_of_not_mem (h : 'Σ' ∉ xs) : U.lowered before xs after = xs.flatMap U.lowercase := by
  induction xs generalizing before with
  | nil => rfl
  | cons x xs ih =>
    obtain ⟨hx, hxs⟩ := not_or.1 (mt List.mem_cons.2 h)
    rw [lowered, if_neg (fun heq => hx heq.symm), ih hxs, List.flatMap_cons]

theorem sigma_mem_lowered (h : 'Σ' ∈ xs) : ∃ c ∈ ['σ', 'ς'], c ∈ U.lowered before xs after := by
  obtain ⟨pre, post, rfl⟩ := List.append_of_mem h
  refine ⟨_, @sigma_mem U (pre.reverse ++ before) (post ++ after), ?_⟩
  rw [lowered_append, lowered, if_pos rfl]
  exact List.mem_append_right _ List.mem_cons_self

theorem lowered_eq_iff {t : List Char} (h : ∀ c ∈ t, c ∉ ['σ', 'ς']) :
    U.lowered before xs after = t ↔ U.lowered before' xs after' = t := by
  by_cases hsigma : 'Σ' ∈ xs
  · have hne : ∀ before after, U.lowered before xs after ≠ t := by
      intro before after heq
      obtain ⟨c, hc, hmem⟩ := @sigma_mem_lowered U before after xs hsigma
      exact h c (heq ▸ hmem) hc
    exact iff_of_false (hne before after) (hne before' after')
  · rw [lowered_of_not_mem hsigma, lowered_of_not_mem hsigma]

end Casing
