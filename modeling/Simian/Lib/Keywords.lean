import Mathlib.Data.List.Basic

/-! # Tables of keywords

A text is handed to the first rule of a table one of whose phrases occurs in it. A phrase that another
phrase of its rule is a part of decides nothing (`resolve_reduced`), and a text in which more phrases
occur is handed to the same rule or an earlier one (`rank_le`). -/

universe u v

namespace Keywords
variable {κ : Type u} {τ : Type v}

structure Rule (κ : Type u) (τ : Type v) where
  phrases : List κ
  target : τ

def Rule.Applies (occurs : κ → Prop) (rule : Rule κ τ) : Prop := ∃ k ∈ rule.phrases, occurs k

instance {occurs : κ → Prop} [DecidablePred occurs] : DecidablePred (Rule.Applies (τ := τ) occurs) :=
  fun rule => inferInstanceAs (Decidable (∃ k ∈ rule.phrases, occurs k))

section
variable (occurs : κ → Prop) [DecidablePred occurs]

/-- What the first rule that applies leads to. -/
def resolve (table : List (Rule κ τ)) : Option τ :=
  (table.find? fun rule => rule.Applies occurs).map Rule.target

/-- How many rules are passed over. -/
def rank (table : List (Rule κ τ)) : Nat := table.findIdx fun rule => rule.Applies occurs

end

variable {occurs occurs' : κ → Prop} {rule : Rule κ τ} {table : List (Rule κ τ)}

theorem applies_singleton {k : κ} {target : τ} : Rule.Applies occurs ⟨[k], target⟩ ↔ occurs k := by
  rw [Rule.Applies]
  simp

theorem resolve_of_applies [DecidablePred occurs] (h : rule.Applies occurs) :
    resolve occurs (rule :: table) = some rule.target := by
  rw [resolve, List.find?_cons, decide_eq_true h]
  rfl

theorem resolve_of_not_applies [DecidablePred occurs] (h : ¬ rule.Applies occurs) :
    resolve occurs (rule :: table) = resolve occurs table := by
  rw [resolve, List.find?_cons, decide_eq_false h]
  rfl

theorem mem_of_resolve [DecidablePred occurs] {target : τ} (h : resolve occurs table = some target) :
    ∃ rule ∈ table, rule.target = target := by
  obtain ⟨rule, hrule, rfl⟩ := Option.map_eq_some_iff.1 h
  exact ⟨rule, List.mem_of_find?_eq_some hrule, rfl⟩

theorem rank_le [DecidablePred occurs] [DecidablePred occurs'] (h : ∀ k, occurs k → occurs' k) :
    rank occurs' table ≤ rank occurs table := by
  refine List.findIdx_le_findIdx fun rule _ happlies => ?_
  obtain ⟨k, hk, hoccurs⟩ := of_decide_eq_true happlies
  exact decide_eq_true ⟨k, hk, h k hoccurs⟩

/-! ## Phrases that decide nothing -/

section
variable (part : κ → κ → Prop) [DecidableRel part]

/-- The phrases that no other phrase of the rule is a part of. -/
def Rule.reduced [DecidableEq κ] (rule : Rule κ τ) : Rule κ τ :=
  { rule with phrases := rule.phrases.filter fun k => ∀ k' ∈ rule.phrases, part k' k → k' = k }

/-- A part of a phrase is shorter, and occurs where the phrase does. -/
structure Parts (size : κ → Nat) : Prop where
  trans : ∀ {k k' k''}, part k k' → part k' k'' → part k k''
  size_lt : ∀ {k k'}, part k k' → k ≠ k' → size k < size k'

variable [DecidableEq κ] {part} {size : κ → Nat}

theorem exists_reduced (H : Parts part size) {k : κ} (hk : k ∈ rule.phrases) :
    ∃ k' ∈ (rule.reduced part).phrases, k' = k ∨ part k' k := by
  induction hn : size k using Nat.strongRecOn generalizing k with
  | ind n ih =>
    by_cases hleast : ∀ k' ∈ rule.phrases, part k' k → k' = k
    · exact ⟨k, List.mem_filter.2 ⟨hk, decide_eq_true hleast⟩, .inl rfl⟩
    · push Not at hleast
      obtain ⟨k', hk', hpart, hne⟩ := hleast
      obtain ⟨k'', hk'', h⟩ := ih (size k') (hn ▸ H.size_lt hpart hne) hk' rfl
      rcases h with rfl | h
      · exact ⟨k'', hk'', .inr hpart⟩
      · exact ⟨k'', hk'', .inr (H.trans h hpart)⟩

theorem applies_reduced (H : Parts part size)
    (hoccurs : ∀ {k k'}, part k k' → occurs k' → occurs k) :
    (rule.reduced part).Applies occurs ↔ rule.Applies occurs := by
  constructor
  · rintro ⟨k, hk, hk'⟩
    exact ⟨k, List.mem_of_mem_filter hk, hk'⟩
  · rintro ⟨k, hk, hoccur⟩
    obtain ⟨k', hk', rfl | hpart⟩ := exists_reduced H hk
    · exact ⟨k', hk', hoccur⟩
    · exact ⟨k', hk', hoccurs hpart hoccur⟩

theorem resolve_reduced [DecidablePred occurs] (H : Parts part size)
    (hoccurs : ∀ {k k'}, part k k' → occurs k' → occurs k) :
    resolve occurs (table.map (Rule.reduced part)) = resolve occurs table := by
  rw [resolve, resolve, List.find?_map, Option.map_map]
  have hpred : (fun rule : Rule κ τ => decide (rule.Applies occurs)) ∘ Rule.reduced part =
      fun rule => decide (rule.Applies occurs) := by
    funext rule
    exact decide_eq_decide.2 (applies_reduced H hoccurs)
  rw [hpred]
  rfl

end

end Keywords
