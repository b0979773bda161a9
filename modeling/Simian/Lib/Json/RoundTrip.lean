import Simian.Lib.Json.Dump
import Simian.Lib.Json.Load

/-! # Reading what was written

A written document reads back as the normal form of the object (`load_dump`). For a dictionary no
proper beginning of the document is one (`load_of_beginning`), so neither a writing that was cut
nor one that stopped at a rejected object leaves one behind (`load_take`). -/

universe u

namespace Json
variable {α : Type u} [Scalar α] {w : Nat}

/-- What may follow a value within a document. -/
def Ends (r : List Char) : Prop := ∀ c cs, r = c :: cs → isEnd c = true

theorem skip_newline {lvl : Nat} {c : Char} {cs : List Char} (h : isSpace c = false) :
    skip (newline w lvl ++ c :: cs) = c :: cs := by
  rw [skip_spaces, skip_cons h]
  intro d hd
  rcases List.mem_cons.1 hd with rfl | hd
  · rfl
  · rw [List.eq_of_mem_replicate hd]
    rfl

theorem ends_newline {lvl : Nat} {cs : List Char} : Ends (newline w lvl ++ cs) := by
  intro c cs' h
  cases h
  rfl

/-- A written value begins with a character of its own. -/
theorem encode_head {o : Obj α} (h : o.Writable) (lvl : Nat) :
    ∃ c cs, (encode w lvl o).text = c :: cs ∧ isSpace c = false ∧ c ≠ ']' := by
  cases o with
  | scalar a =>
    obtain ⟨c, cs, htext, hspace, hmem⟩ := Scalar.text_head a
    exact ⟨c, cs, htext, hspace, fun hc => hmem (by simp [hc])⟩
  | str s => exact ⟨_, _, rfl, rfl, by decide⟩
  | list xs | tuple xs =>
    rw [encode]
    split
    · exact ⟨_, _, rfl, rfl, by decide⟩
    · exact ⟨_, _, rfl, rfl, by decide⟩
  | dict kvs =>
    rw [encode]
    split
    · exact ⟨_, _, rfl, rfl, by decide⟩
    · exact ⟨_, _, rfl, rfl, by decide⟩
  | foreign => exact absurd h id

theorem ends_comma {cs : List Char} : Ends (',' :: cs) := by
  intro c cs' h
  cases h
  rfl

theorem encodeElems_cons {lvl : Nat} {sep : List Char} {x : Obj α} {xs : List (Obj α)}
    (h : x.Writable) : (encodeElems w lvl sep (x :: xs)).text = sep ++ ((encode w lvl x).text ++
      (encodeElems w lvl (',' :: newline w lvl) xs).text) := by
  rw [encodeElems, Emit.append_text Emit.lit_done, Emit.append_text (encode_done.2 h),
    Emit.lit_text]

theorem encodeMembers_cons {lvl : Nat} {sep : List Char} {k : Key} {t : String} {x : Obj α}
    {kvs : List (Key × Obj α)} (hk : k.text = some t) (h : x.Writable) :
    (encodeMembers w lvl sep ((k, x) :: kvs)).text = sep ++ ('"' :: (t.toList.flatMap escape ++
      '"' :: ':' :: ' ' :: ((encode w lvl x).text ++
        (encodeMembers w lvl (',' :: newline w lvl) kvs).text))) := by
  rw [encodeMembers, hk]
  simp only
  rw [Emit.append_text Emit.lit_done, Emit.append_text (encode_done.2 h), Emit.lit_text, quote]
  simp

theorem encode_tuple {lvl : Nat} {xs : List (Obj α)} :
    encode w lvl (.tuple xs) = encode w lvl (.list xs) := rfl

theorem encode_list {lvl : Nat} {x : Obj α} {xs : List (Obj α)} (h : Obj.WritableElems (x :: xs)) :
    (encode w lvl (.list (x :: xs))).text = '[' :: (newline w (lvl + 1) ++
      ((encodeElems w (lvl + 1) [] (x :: xs)).text ++ (newline w lvl ++ [']']))) := by
  rw [encode, List.isEmpty_cons, if_neg Bool.false_ne_true, Emit.append_text Emit.lit_done,
    Emit.append_text (encodeElems_done.2 h)]
  rfl

theorem encode_dict {lvl : Nat} {kv : Key × Obj α} {kvs : List (Key × Obj α)}
    (h : Obj.WritableMembers (kv :: kvs)) :
    (encode w lvl (.dict (kv :: kvs))).text = '{' :: (newline w (lvl + 1) ++
      ((encodeMembers w (lvl + 1) [] (kv :: kvs)).text ++ (newline w lvl ++ ['}']))) := by
  rw [encode, List.isEmpty_cons, if_neg Bool.false_ne_true, Emit.append_text Emit.lit_done,
    Emit.append_text (encodeMembers_done.2 h)]
  rfl

theorem Key.normal_eq {k : Key} {t : String} (h : k.text = some t) : k.normal = .str t := by
  cases k with
  | foreign => cases h
  | str | other =>
    cases h
    rfl

theorem Key.exists_text {k : Key} (h : k ≠ .foreign) : ∃ t, k.text = some t :=
  Option.ne_none_iff_exists'.1 (mt Key.text_eq_none.1 h)

/-! ## The parts of a document -/

theorem value_bracket {lvl lvl' n : Nat} {cs r : List Char} {xs : List (Obj α)}
    (hcs : ∃ c cs', cs = c :: cs' ∧ isSpace c = false ∧ c ≠ ']')
    (h : elems n (cs ++ (newline w lvl ++ ']' :: r)) = some (xs, r)) :
    value (n + 1) ('[' :: (newline w lvl' ++ (cs ++ (newline w lvl ++ [']']))) ++ r) =
      some (.list xs, r) := by
  obtain ⟨c, cs', rfl, hspace, hne⟩ := hcs
  simp only [List.cons_append, List.append_assoc, List.nil_append] at h ⊢
  exact value_eq_some.2 (.list rfl (skip_newline hspace) hne h)

theorem value_brace {lvl lvl' n : Nat} {cs r : List Char} {kvs : List (Key × Obj α)}
    (hcs : ∃ cs', cs = '"' :: cs')
    (h : members n (cs ++ (newline w lvl ++ '}' :: r)) = some (kvs, r)) :
    value (n + 1) ('{' :: (newline w lvl' ++ (cs ++ (newline w lvl ++ ['}']))) ++ r) =
      some (.dict (Dict.ofPairs kvs), r) := by
  obtain ⟨cs', rfl⟩ := hcs
  simp only [List.cons_append, List.append_assoc, List.nil_append] at h ⊢
  exact value_eq_some.2 (.dict rfl (skip_newline rfl) (by decide) h)

theorem encodeElems_head {lvl : Nat} {x : Obj α} {xs : List (Obj α)}
    (h : Obj.WritableElems (x :: xs)) :
    ∃ c cs, (encodeElems w lvl [] (x :: xs)).text = c :: cs ∧ isSpace c = false ∧ c ≠ ']' := by
  obtain ⟨c, cs, hc, hspace, hne⟩ := @encode_head _ _ w x h.1 lvl
  rw [encodeElems_cons h.1, hc]
  exact ⟨c, _, rfl, hspace, hne⟩

theorem encodeMembers_head {lvl : Nat} {kv : Key × Obj α} {kvs : List (Key × Obj α)}
    (h : Obj.WritableMembers (kv :: kvs)) :
    ∃ cs, (encodeMembers w lvl [] (kv :: kvs)).text = '"' :: cs := by
  obtain ⟨t, ht⟩ := Key.exists_text h.1
  exact ⟨_, encodeMembers_cons ht h.2.1⟩

theorem encodeElems_sep {lvl : Nat} {sep : List Char} {x : Obj α} {xs : List (Obj α)}
    (h : x.Writable) :
    (encodeElems w lvl sep (x :: xs)).text = sep ++ (encodeElems w lvl [] (x :: xs)).text := by
  rw [encodeElems_cons h, encodeElems_cons h, List.nil_append]

theorem encodeMembers_sep {lvl : Nat} {sep : List Char} {kv : Key × Obj α}
    {kvs : List (Key × Obj α)} (h : Obj.WritableMembers (kv :: kvs)) :
    (encodeMembers w lvl sep (kv :: kvs)).text =
      sep ++ (encodeMembers w lvl [] (kv :: kvs)).text := by
  obtain ⟨t, ht⟩ := Key.exists_text h.1
  rw [encodeMembers_cons ht h.2.1, encodeMembers_cons ht h.2.1, List.nil_append]

theorem skip_encode {lvl : Nat} {o : Obj α} {r : List Char} (h : o.Writable) :
    skip (' ' :: ((encode w lvl o).text ++ r)) = (encode w lvl o).text ++ r := by
  obtain ⟨c, cs, hc, hspace, -⟩ := @encode_head _ _ w o h lvl
  rw [hc, List.cons_append]
  exact skip_cons hspace

theorem skip_elems {lvl : Nat} {x : Obj α} {xs : List (Obj α)} {r : List Char}
    (h : Obj.WritableElems (x :: xs)) :
    skip (newline w lvl ++ ((encodeElems w lvl [] (x :: xs)).text ++ r)) =
      (encodeElems w lvl [] (x :: xs)).text ++ r := by
  obtain ⟨c, cs, hc, hspace, -⟩ := @encodeElems_head _ _ w lvl x xs h
  rw [hc, List.cons_append, skip_newline hspace]

theorem skip_members {lvl : Nat} {kv : Key × Obj α} {kvs : List (Key × Obj α)} {r : List Char}
    (h : Obj.WritableMembers (kv :: kvs)) :
    skip (newline w lvl ++ ((encodeMembers w lvl [] (kv :: kvs)).text ++ r)) =
      (encodeMembers w lvl [] (kv :: kvs)).text ++ r := by
  obtain ⟨cs, hc⟩ := @encodeMembers_head _ _ w lvl kv kvs h
  rw [hc, List.cons_append, skip_newline rfl]

/-! ## Reading them back -/

mutual

theorem value_encode : ∀ {o : Obj α} {lvl n : Nat} {r : List Char}, o.Writable →
    (encode w lvl o).text.length ≤ n → Ends r →
      value n ((encode w lvl o).text ++ r) = some (o.normal, r)
  | .scalar a, lvl, n, r, _, hn, hr => by
    obtain ⟨c, cs, hc, hspace, hmem⟩ := Scalar.text_head a
    have hread := Scalar.read_text a r hr
    simp only [encode, Emit.lit_text, hc] at hn hread ⊢
    simp only [List.mem_cons, List.not_mem_nil, or_false, not_or] at hmem
    cases n with
    | zero => cases hn
    | succ n => exact value_eq_some.2 (.scalar hmem.1 hmem.2.1 hmem.2.2.2 hread)
  | .str s, lvl, n, r, _, hn, hr => by
    have hread := readString_quote s r
    simp only [encode, Emit.lit_text, quote, List.cons_append, List.append_assoc,
      List.nil_append] at hn ⊢
    cases n with
    | zero => cases hn
    | succ n => exact value_eq_some.2 (.str rfl hread)
  | .list [], lvl, n + 1, r, h, hn, hr | .tuple [], lvl, n + 1, r, h, hn, hr =>
    value_eq_some.2 (.nil rfl (skip_cons rfl))
  | .list (x :: xs), lvl, n + 1, r, h, hn, hr => by
    rw [encode_list h] at hn ⊢
    refine value_bracket (encodeElems_head h) (elems_encode h nofun ?_)
    simp at hn
    omega
  | .tuple (x :: xs), lvl, n + 1, r, h, hn, hr => by
    rw [encode_tuple, encode_list h] at *
    refine value_bracket (encodeElems_head h) (elems_encode h nofun ?_)
    simp at hn
    omega
  | .dict [], lvl, n + 1, r, h, hn, hr => value_eq_some.2 (.empty rfl (skip_cons rfl))
  | .dict (kv :: kvs), lvl, n + 1, r, h, hn, hr => by
    rw [encode_dict h] at hn ⊢
    refine value_brace (encodeMembers_head h) (members_encode h nofun ?_)
    simp at hn
    omega

theorem elems_encode : ∀ {xs : List (Obj α)} {lvl lvl' n : Nat} {r : List Char},
    Obj.WritableElems xs → xs ≠ [] → (encodeElems w lvl [] xs).text.length < n →
      elems n ((encodeElems w lvl [] xs).text ++ (newline w lvl' ++ ']' :: r)) =
        some (Obj.normalElems xs, r)
  | [x], lvl, lvl', n + 1, r, h, _, hn => by
    rw [encodeElems_cons h.1] at hn ⊢
    simp only [encodeElems, Emit.lit_text, List.append_nil, List.nil_append] at hn ⊢
    have hx := value_encode h.1 (Nat.le_of_lt_succ hn) (@ends_newline w lvl' (']' :: r))
    exact elems_eq_some.2 ⟨_, _, hx, .inr ⟨skip_newline rfl, rfl⟩⟩
  | x :: y :: ys, lvl, lvl', n + 1, r, h, _, hn => by
    rw [encodeElems_cons h.1, encodeElems_sep h.2.1] at hn ⊢
    simp only [List.length_append, List.length_cons, List.nil_append, List.append_assoc,
      List.cons_append] at hn ⊢
    have hrest : elems n (skip (newline w lvl ++ ((encodeElems w lvl [] (y :: ys)).text ++
        (newline w lvl' ++ ']' :: r)))) = some (Obj.normalElems (y :: ys), r) := by
      rw [skip_elems h.2]
      exact elems_encode h.2 nofun (by omega)
    generalize newline w lvl ++ ((encodeElems w lvl [] (y :: ys)).text ++
      (newline w lvl' ++ ']' :: r)) = tail at hrest ⊢
    have hlen : (encode w lvl x).text.length ≤ n := by omega
    have hx := value_encode h.1 hlen (@ends_comma tail)
    exact elems_eq_some.2 ⟨_, _, hx, .inl ⟨tail, _, skip_cons rfl, hrest, rfl⟩⟩

theorem members_encode : ∀ {kvs : List (Key × Obj α)} {lvl lvl' n : Nat} {r : List Char},
    Obj.WritableMembers kvs → kvs ≠ [] → (encodeMembers w lvl [] kvs).text.length < n →
      members n ((encodeMembers w lvl [] kvs).text ++ (newline w lvl' ++ '}' :: r)) =
        some (Obj.normalMembers kvs, r)
  | [(k, x)], lvl, lvl', n + 1, r, h, _, hn => by
    obtain ⟨t, ht⟩ := Key.exists_text h.1
    rw [encodeMembers_cons ht h.2.1] at hn ⊢
    simp only [encodeMembers, Emit.lit_text, List.append_nil, List.nil_append, List.cons_append,
      List.append_assoc, List.length_cons, List.length_append] at hn ⊢
    have hlen : (encode w lvl x).text.length ≤ n := by omega
    have hx := value_encode h.2.1 hlen (@ends_newline w lvl' ('}' :: r))
    rw [← skip_encode h.2.1] at hx
    rw [Obj.normalMembers, Key.normal_eq ht]
    exact members_eq_some.2 ⟨t, _, _, _, _, rfl, readString_quote t _, skip_cons rfl, hx,
      .inr ⟨skip_newline rfl, rfl⟩⟩
  | (k, x) :: kv :: kvs, lvl, lvl', n + 1, r, h, _, hn => by
    obtain ⟨t, ht⟩ := Key.exists_text h.1
    rw [encodeMembers_cons ht h.2.1, encodeMembers_sep h.2.2] at hn ⊢
    simp only [List.nil_append, List.cons_append, List.append_assoc, List.length_cons,
      List.length_append] at hn ⊢
    have hrest : members n (skip (newline w lvl ++ ((encodeMembers w lvl [] (kv :: kvs)).text ++
        (newline w lvl' ++ '}' :: r)))) = some (Obj.normalMembers (kv :: kvs), r) := by
      rw [skip_members h.2.2]
      exact members_encode h.2.2 nofun (by omega)
    generalize newline w lvl ++ ((encodeMembers w lvl [] (kv :: kvs)).text ++
      (newline w lvl' ++ '}' :: r)) = tail at hrest ⊢
    have hlen : (encode w lvl x).text.length ≤ n := by omega
    have hx := value_encode h.2.1 hlen (@ends_comma tail)
    rw [← skip_encode h.2.1] at hx
    rw [Obj.normalMembers, Key.normal_eq ht]
    exact members_eq_some.2 ⟨t, _, _, _, _, rfl, readString_quote t _, skip_cons rfl, hx,
      .inl ⟨tail, _, skip_cons rfl, hrest, rfl⟩⟩

end

/-- `json.load` reads what `json.dump` wrote. -/
theorem load_dump {o : Obj α} (h : o.Writable) : load (dump w o).text = some o.normal := by
  obtain ⟨c, cs, hc, hspace, -⟩ := @encode_head _ _ w o h 0
  have hread := @value_encode _ _ w o 0 _ [] h (Nat.le_refl _) nofun
  refine load_eq_some.2 ⟨[], ?_, rfl⟩
  rw [List.append_nil] at hread
  rwa [dump, hc, skip_cons hspace, ← hc]

/-! ## Beginnings of documents -/

theorem encode_dict_head {lvl : Nat} {kvs : List (Key × Obj α)} :
    ∃ cs, (encode w lvl (.dict kvs)).text = '{' :: cs := by
  rw [encode]
  split
  · exact ⟨_, rfl⟩
  · exact ⟨_, rfl⟩

/-- No proper beginning of a dictionary's document is a document. -/
theorem load_of_beginning {kvs : List (Key × Obj α)} {p s : List Char} {c : Char}
    (h : (Obj.dict kvs).Writable) (hp : (dump w (.dict kvs)).text = p ++ c :: s) :
    load p = (none : Option (Obj α)) := by
  obtain ⟨cs, hcs⟩ := @encode_dict_head _ _ w 0 kvs
  have hwhole := @value_encode _ _ w _ 0 _ [] h (Nat.le_refl _) nofun
  rw [dump] at hp
  rw [List.append_nil, hp] at hwhole
  rw [hp] at hcs
  by_contra hne
  obtain ⟨o, ho⟩ := Option.ne_none_iff_exists'.1 hne
  obtain ⟨r, hread, -⟩ := load_eq_some.1 ho
  cases p with
  | nil => simp [skip] at hread
  | cons d p =>
    obtain ⟨rfl, -⟩ := List.cons.inj hcs
    rw [skip_cons rfl] at hread
    have hdict : ∀ a, o ≠ .scalar a := by
      rintro a rfl
      cases value_eq_some.1 hread with
      | scalar _ _ hd => exact hd rfl
    have hlonger := (append_stable (c :: s) _).1 _ _ _ hread (.inr hdict)
    have hlonger := @value_mono _ _ _ _ _ ('{' :: p ++ c :: s).length _ (by simp) hlonger
    have heq := congrArg Prod.snd (Option.some.inj (hlonger.symm.trans hwhole))
    simp at heq

/-- What is left of a dictionary's document after its writing was cut, or after the encoder stopped,
is a document only if it is whole. -/
theorem load_take {kvs : List (Key × Obj α)} {n : Nat} {o : Obj α} :
    load ((dump w (.dict kvs)).text.take n) = some o ↔
      (Obj.dict kvs).Writable ∧ (dump w (.dict kvs)).text.length ≤ n ∧
        o = (Obj.dict kvs).normal := by
  have hcut : ∀ (o' : List (Key × Obj α)) (p s : List Char) (c : Char), (Obj.dict o').Writable →
      (dump w (.dict o')).text = p ++ c :: s → load p ≠ some o := by
    intro o' p s c h hp ho
    rw [load_of_beginning h hp] at ho
    cases ho
  by_cases h : (Obj.dict kvs).Writable
  · by_cases hn : (dump w (.dict kvs)).text.length ≤ n
    · rw [List.take_of_length_le hn, load_dump h]
      simp [h, hn, eq_comm]
    · obtain ⟨c, s, hdrop⟩ := List.exists_cons_of_ne_nil
        (mt List.drop_eq_nil_iff.1 hn : (dump w (.dict kvs)).text.drop n ≠ [])
      simp only [hn, false_and, and_false, iff_false]
      refine hcut kvs _ s c h ?_
      rw [← hdrop, List.take_append_drop]
  · obtain ⟨hpatch, c, s, htext⟩ := @dump_of_not_writable _ _ w _ h
    simp only [h, false_and, iff_false]
    obtain ⟨d, s', hrest⟩ : ∃ d s', (dump w (.dict kvs)).text.drop n ++ c :: s = d :: s' :=
      List.exists_cons_of_ne_nil (by simp)
    refine hcut (Obj.patchMembers kvs) _ s' d hpatch ?_
    rw [← hrest, ← List.append_assoc, List.take_append_drop]
    exact htext

end Json
