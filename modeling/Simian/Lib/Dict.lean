import Mathlib.Data.List.Basic
import Mathlib.Data.List.Nodup

/-! # Insertion-ordered dictionaries

A dictionary is the list of its items in the order in which their keys were first set, read by
`List.lookup`. `set` replaces the value of a key in its place or adds an item at the end; `ofPairs`
builds a dictionary from pairs in which the last value of a key counts. -/

universe u v w

namespace Dict
variable {κ : Type u} {β : Type v} [DecidableEq κ] {d : List (κ × β)} {k k' : κ} {v : β}

def set : List (κ × β) → κ → β → List (κ × β)
  | [], k, v => [(k, v)]
  | (k', v') :: d, k, v => if k' = k then (k', v) :: d else (k', v') :: set d k v

def ofPairs (kvs : List (κ × β)) : List (κ × β) := kvs.foldl (fun d kv => set d kv.1 kv.2) []

theorem lookup_set_self : (set d k v).lookup k = some v := by
  induction d with
  | nil => simp [set]
  | cons kv d ih =>
    obtain ⟨k', v'⟩ := kv
    by_cases h : k' = k
    · rw [set, if_pos h, h, List.lookup_cons_self]
    · rw [set, if_neg h, List.lookup_cons, beq_false_of_ne fun heq => h heq.symm, ih]

theorem lookup_set_ne (hne : k ≠ k') : (set d k v).lookup k' = d.lookup k' := by
  induction d with
  | nil => simp [set, hne.symm]
  | cons kv d ih =>
    obtain ⟨k'', v'⟩ := kv
    by_cases h : k'' = k
    · subst h
      rw [set, if_pos rfl, List.lookup_cons, List.lookup_cons, beq_false_of_ne hne.symm]
    · rw [set, if_neg h, List.lookup_cons, List.lookup_cons, ih]

/-- The items after a `set` are the new one and old ones. -/
theorem mem_set {kv : κ × β} (h : kv ∈ set d k v) : kv = (k, v) ∨ kv ∈ d := by
  induction d with
  | nil => exact .inl (List.mem_singleton.1 h)
  | cons kv' d ih =>
    obtain ⟨k', v'⟩ := kv'
    by_cases hk : k' = k
    · rw [set, if_pos hk] at h
      rcases List.mem_cons.1 h with rfl | h
      · exact .inl (by rw [hk])
      · exact .inr (List.mem_cons_of_mem _ h)
    · rw [set, if_neg hk] at h
      rcases List.mem_cons.1 h with rfl | h
      · exact .inr List.mem_cons_self
      · exact (ih h).imp id (List.mem_cons_of_mem _)

/-- Every item stays but the one whose value is replaced. -/
theorem mem_set_of_mem {kv : κ × β} (h : kv ∈ d) :
    kv ∈ set d k v ∨ kv.1 = k ∧ d.lookup k = some kv.2 := by
  induction d with
  | nil => cases h
  | cons kv' d ih =>
    obtain ⟨k', v'⟩ := kv'
    by_cases hk : k' = k
    · subst hk
      rw [set, if_pos rfl, List.lookup_cons_self]
      rcases List.mem_cons.1 h with rfl | h
      · exact .inr ⟨rfl, rfl⟩
      · exact .inl (List.mem_cons_of_mem _ h)
    · rw [set, if_neg hk, List.lookup_cons, beq_false_of_ne fun heq => hk heq.symm]
      rcases List.mem_cons.1 h with rfl | h
      · exact .inl List.mem_cons_self
      · exact (ih h).imp (List.mem_cons_of_mem _) id

theorem mem_of_lookup (h : d.lookup k = some v) : (k, v) ∈ d := by
  obtain ⟨l₁, l₂, rfl, -⟩ := List.lookup_eq_some_iff.1 h
  exact List.mem_append_right l₁ List.mem_cons_self

theorem lookup_map {γ : Type w} {f : β → γ} :
    (d.map fun kv => (kv.1, f kv.2)).lookup k = (d.lookup k).map f := by
  induction d with
  | nil => rfl
  | cons kv d ih =>
    rw [List.map_cons, List.lookup_cons, List.lookup_cons, ih]
    cases k == kv.1 <;> rfl

/-! ## Distinct keys -/

def keys (d : List (κ × β)) : List κ := d.map Prod.fst

theorem mem_keys_set : k' ∈ keys (set d k v) ↔ k' = k ∨ k' ∈ keys d := by
  induction d with
  | nil => simp [keys, set]
  | cons kv d ih =>
    obtain ⟨k'', v'⟩ := kv
    by_cases hk : k'' = k
    · simp [set, keys, hk]
    · have hrec : k' ∈ (set d k v).map Prod.fst ↔ k' = k ∨ k' ∈ d.map Prod.fst := ih
      simp only [set, if_neg hk, keys, List.map_cons, List.mem_cons, hrec]
      exact or_left_comm

theorem nodup_set (h : (keys d).Nodup) : (keys (set d k v)).Nodup := by
  induction d with
  | nil => simp [set, keys]
  | cons kv d ih =>
    obtain ⟨k', v'⟩ := kv
    obtain ⟨hnot, hd⟩ := List.nodup_cons.1 h
    by_cases hk : k' = k
    · rw [set, if_pos hk]
      exact h
    · rw [set, if_neg hk]
      refine List.nodup_cons.2 ⟨fun hmem => ?_, ih hd⟩
      rcases mem_keys_set.1 hmem with heq | hmem
      · exact hk heq
      · exact hnot hmem

theorem set_of_not_mem (h : k ∉ keys d) : set d k v = d ++ [(k, v)] := by
  induction d with
  | nil => rfl
  | cons kv d ih =>
    obtain ⟨k', v'⟩ := kv
    obtain ⟨hne, hd⟩ := not_or.1 (mt List.mem_cons.2 h)
    rw [set, if_neg fun heq => hne heq.symm, ih hd, List.cons_append]

variable {kvs : List (κ × β)}

theorem foldl_set_nodup (h : (keys d).Nodup) :
    (keys (kvs.foldl (fun d kv => set d kv.1 kv.2) d)).Nodup := by
  induction kvs generalizing d with
  | nil => exact h
  | cons kv kvs ih => exact ih (nodup_set h)

theorem foldl_set_mem {kv : κ × β} (h : kv ∈ kvs.foldl (fun d kv => set d kv.1 kv.2) d) :
    kv ∈ d ∨ kv ∈ kvs := by
  induction kvs generalizing d with
  | nil => exact .inl h
  | cons kv' kvs ih =>
    rcases ih h with h | h
    · rcases mem_set h with rfl | h
      · exact .inr List.mem_cons_self
      · exact .inl h
    · exact .inr (List.mem_cons_of_mem _ h)

theorem foldl_set_append (h : (keys (d ++ kvs)).Nodup) :
    kvs.foldl (fun d kv => set d kv.1 kv.2) d = d ++ kvs := by
  induction kvs generalizing d with
  | nil => exact (List.append_nil d).symm
  | cons kv kvs ih =>
    have hnot : kv.1 ∉ keys d := by
      intro hmem
      rw [keys, List.map_append, List.map_cons] at h
      exact (List.nodup_append.1 h).2.2 _ hmem _ List.mem_cons_self rfl
    rw [List.foldl_cons, set_of_not_mem hnot, ih]
    · simp
    · simpa using h

theorem ofPairs_nodup : (keys (ofPairs kvs)).Nodup := foldl_set_nodup List.nodup_nil

theorem mem_of_mem_ofPairs {kv : κ × β} (h : kv ∈ ofPairs kvs) : kv ∈ kvs :=
  (foldl_set_mem h).resolve_left List.not_mem_nil

/-- Pairs with distinct keys are the items of their dictionary. -/
theorem ofPairs_of_nodup (h : (keys kvs).Nodup) : ofPairs kvs = kvs := foldl_set_append h

end Dict
