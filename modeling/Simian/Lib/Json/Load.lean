import Simian.Lib.Json.Text
import Simian.Lib.Json.Value

/-! # Reading a document

`load` reads one value with white space around it. Every call of the recursive reader consumes
a character, so the length of the text is enough fuel, and more does no harm (`value_mono`). What
has been read is read from a longer text too, unless a scalar ended with the text
(`append_stable`). What is read is plain (`plain_of_load`). -/

universe u

namespace Json
variable {α : Type u} [Scalar α]

def skip : List Char → List Char
  | [] => []
  | c :: cs => if isSpace c then skip cs else c :: cs

mutual

/-- The value at the beginning of a text, and what follows it. -/
def value : Nat → List Char → Option (Obj α × List Char)
  | 0, _ | _, [] => none
  | n + 1, c :: cs =>
    if c = '"' then (readString cs).map fun p => (.str p.1, p.2)
    else if c = '[' then
      match skip cs with
      | ']' :: r => some (.list [], r)
      | cs => (elems n cs).map fun p => (.list p.1, p.2)
    else if c = '{' then
      match skip cs with
      | '}' :: r => some (.dict [], r)
      | cs => (members n cs).map fun p => (.dict (Dict.ofPairs p.1), p.2)
    else (Scalar.read (c :: cs)).map fun p => (.scalar p.1, p.2)

/-- The values up to a closing bracket, at least one. -/
def elems : Nat → List Char → Option (List (Obj α) × List Char)
  | 0, _ => none
  | n + 1, cs =>
    (value n cs).bind fun p =>
      match skip p.2 with
      | ',' :: r => (elems n (skip r)).map fun q => (p.1 :: q.1, q.2)
      | ']' :: r => some ([p.1], r)
      | _ => none

/-- The items up to a closing brace, at least one. -/
def members : Nat → List Char → Option (List (Key × Obj α) × List Char)
  | 0, _ | _, [] => none
  | n + 1, c :: cs =>
    if c = '"' then
      (readString cs).bind fun k =>
        match skip k.2 with
        | ':' :: r =>
          (value n (skip r)).bind fun p =>
            match skip p.2 with
            | ',' :: r => (members n (skip r)).map fun q => ((.str k.1, p.1) :: q.1, q.2)
            | '}' :: r => some ([(.str k.1, p.1)], r)
            | _ => none
        | _ => none
    else none

end

/-- `json.load`. -/
def load (cs : List Char) : Option (Obj α) :=
  (value cs.length (skip cs)).bind fun p => if skip p.2 = [] then some p.1 else none

/-- What `value` reads from a text that begins with `c`. -/
inductive ValueForm (n : Nat) (c : Char) (cs : List Char) : Obj α → List Char → Prop
  | str (hc : c = '"') (h : readString cs = some (t, r)) : ValueForm n c cs (.str t) r
  | nil (hc : c = '[') (hs : skip cs = ']' :: r) : ValueForm n c cs (.list []) r
  | list (hc : c = '[') (hs : skip cs = d :: cs') (hd : d ≠ ']')
      (h : elems n (d :: cs') = some (xs, r)) : ValueForm n c cs (.list xs) r
  | empty (hc : c = '{') (hs : skip cs = '}' :: r) : ValueForm n c cs (.dict []) r
  | dict (hc : c = '{') (hs : skip cs = d :: cs') (hd : d ≠ '}')
      (h : members n (d :: cs') = some (kvs, r)) : ValueForm n c cs (.dict (Dict.ofPairs kvs)) r
  | scalar (hstr : c ≠ '"') (hlist : c ≠ '[') (hdict : c ≠ '{')
      (h : Scalar.read (c :: cs) = some (a, r)) : ValueForm n c cs (.scalar a) r

/-! ## White space -/

variable {cs r s : List Char} {c d : Char} {n : Nat}

theorem skip_cons (h : isSpace c = false) : skip (c :: cs) = c :: cs := by
  rw [skip, h]
  rfl

theorem skip_spaces (h : ∀ c ∈ cs, isSpace c = true) : skip (cs ++ r) = skip r := by
  induction cs with
  | nil => rfl
  | cons c cs ih =>
    obtain ⟨hc, hcs⟩ := List.forall_mem_cons.1 h
    rw [List.cons_append, skip, hc, if_pos rfl, ih hcs]

theorem skip_append (h : skip cs ≠ []) : skip (cs ++ s) = skip cs ++ s := by
  induction cs with
  | nil => exact absurd rfl h
  | cons c cs ih =>
    rw [skip] at h
    rw [List.cons_append, skip, skip]
    split at h
    · rename_i hc
      rw [if_pos hc, if_pos hc, ih h]
    · rename_i hc
      rw [if_neg hc, if_neg hc, List.cons_append]

/-- Behind white space or nothing the text goes on with what may follow a scalar. -/
theorem isEnd_of_skip (h : skip cs = c :: r) (hc : isEnd c = true) :
    ∃ d r', cs = d :: r' ∧ isEnd d = true := by
  cases cs with
  | nil => cases h
  | cons d cs =>
    refine ⟨d, cs, rfl, ?_⟩
    rw [skip] at h
    split at h
    · rename_i hd
      rw [isEnd, hd]
      rfl
    · cases h
      exact hc

/-! ## What a successful reading has read -/

@[simp] theorem value_nil : value n [] = (none : Option (Obj α × List Char)) := by
  cases n <;> rfl

@[simp] theorem elems_nil : elems n [] = (none : Option (List (Obj α) × List Char)) := by
  cases n with
  | zero => rfl
  | succ n => rw [elems, value_nil, Option.bind_none]

@[simp] theorem members_nil : members n [] = (none : Option (List (Key × Obj α) × List Char)) := by
  cases n <;> rfl

theorem value_eq_some {o : Obj α} :
    value (n + 1) (c :: cs) = some (o, r) ↔ ValueForm n c cs o r := by
  rw [value]
  constructor
  · intro h
    split_ifs at h with hstr hlist hdict
    · obtain ⟨p, hp, heq⟩ := Option.map_eq_some_iff.1 h
      cases heq
      exact .str hstr hp
    · split at h
      · rename_i hs
        cases h
        exact .nil hlist hs
      · rename_i cs' hne
        obtain ⟨p, hp, heq⟩ := Option.map_eq_some_iff.1 h
        cases heq
        cases hs : skip cs with
        | nil => simp [hs] at hp
        | cons d cs' =>
          rw [hs] at hp
          exact .list hlist hs (fun hd => hne cs' (by rw [hs, hd])) hp
    · split at h
      · rename_i hs
        cases h
        exact .empty hdict hs
      · rename_i cs' hne
        obtain ⟨p, hp, heq⟩ := Option.map_eq_some_iff.1 h
        cases heq
        cases hs : skip cs with
        | nil => simp [hs] at hp
        | cons d cs' =>
          rw [hs] at hp
          exact .dict hdict hs (fun hd => hne cs' (by rw [hs, hd])) hp
    · obtain ⟨p, hp, heq⟩ := Option.map_eq_some_iff.1 h
      cases heq
      exact .scalar hstr hlist hdict hp
  · intro h
    cases h with
    | str hc h => simp [hc, h]
    | nil hc hs => simp [hc, hs]
    | list hc hs hd h => simp [hc, hs, h, hd]
    | empty hc hs => simp [hc, hs]
    | dict hc hs hd h => simp [hc, hs, h, hd]
    | scalar hstr hlist hdict h => simp [hstr, hlist, hdict, h]

theorem elems_eq_some {xs : List (Obj α)} : elems (n + 1) cs = some (xs, r) ↔
    ∃ x r₁, value n cs = some (x, r₁) ∧
      ((∃ r₂ ys, skip r₁ = ',' :: r₂ ∧ elems n (skip r₂) = some (ys, r) ∧ xs = x :: ys) ∨
        skip r₁ = ']' :: r ∧ xs = [x]) := by
  rw [elems, Option.bind_eq_some_iff]
  constructor
  · rintro ⟨⟨x, r₁⟩, hx, h⟩
    refine ⟨x, r₁, hx, ?_⟩
    split at h
    · rename_i r₂ hs
      obtain ⟨⟨ys, r⟩, hys, heq⟩ := Option.map_eq_some_iff.1 h
      cases heq
      exact .inl ⟨r₂, ys, hs, hys, rfl⟩
    · rename_i r₂ hs
      cases h
      exact .inr ⟨hs, rfl⟩
    · cases h
  · rintro ⟨x, r₁, hx, ⟨r₂, ys, hs, hys, rfl⟩ | ⟨hs, rfl⟩⟩
    · exact ⟨(x, r₁), hx, by simp [hs, hys]⟩
    · exact ⟨(x, r₁), hx, by simp [hs]⟩

theorem members_eq_some {kvs : List (Key × Obj α)} :
    members (n + 1) (c :: cs) = some (kvs, r) ↔
      ∃ k r₀ r₁ x r₂, c = '"' ∧ readString cs = some (k, r₀) ∧ skip r₀ = ':' :: r₁ ∧
        value n (skip r₁) = some (x, r₂) ∧
          ((∃ r₃ kvs', skip r₂ = ',' :: r₃ ∧ members n (skip r₃) = some (kvs', r) ∧
              kvs = (.str k, x) :: kvs') ∨
            skip r₂ = '}' :: r ∧ kvs = [(.str k, x)]) := by
  rw [members]
  constructor
  · intro h
    split_ifs at h with hc
    obtain ⟨⟨k, r₀⟩, hk, h⟩ := Option.bind_eq_some_iff.1 h
    split at h
    · rename_i r₁ hcolon
      obtain ⟨⟨x, r₂⟩, hx, h⟩ := Option.bind_eq_some_iff.1 h
      refine ⟨k, r₀, r₁, x, r₂, hc, hk, hcolon, hx, ?_⟩
      split at h
      · rename_i r₃ hs
        obtain ⟨⟨kvs', r⟩, hkvs, heq⟩ := Option.map_eq_some_iff.1 h
        cases heq
        exact .inl ⟨r₃, kvs', hs, hkvs, rfl⟩
      · rename_i r₃ hs
        cases h
        exact .inr ⟨hs, rfl⟩
      · cases h
    · cases h
  · rintro ⟨k, r₀, r₁, x, r₂, hc, hk, hcolon, hx, ⟨r₃, kvs', hs, hkvs, rfl⟩ | ⟨hs, rfl⟩⟩
    · simp [hc, hk, hcolon, hx, hs, hkvs]
    · simp [hc, hk, hcolon, hx, hs]

/-! ## More fuel -/

theorem mono_succ (n : Nat) :
    (∀ (cs : List Char) (o : Obj α) (r : List Char), value n cs = some (o, r) →
      value (n + 1) cs = some (o, r)) ∧
    (∀ (cs : List Char) (xs : List (Obj α)) (r : List Char), elems n cs = some (xs, r) →
      elems (n + 1) cs = some (xs, r)) ∧
    ∀ (cs : List Char) (kvs : List (Key × Obj α)) (r : List Char), members n cs = some (kvs, r) →
      members (n + 1) cs = some (kvs, r) := by
  induction n with
  | zero => exact ⟨nofun, nofun, nofun⟩
  | succ n ih =>
    obtain ⟨hvalue, helems, hmembers⟩ := ih
    refine ⟨fun cs o r h => ?_, fun cs xs r h => ?_, fun cs kvs r h => ?_⟩
    · cases cs with
      | nil => simp at h
      | cons c cs =>
        rw [value_eq_some] at h ⊢
        cases h with
        | str hc h => exact .str hc h
        | nil hc hs => exact .nil hc hs
        | list hc hs hd h => exact .list hc hs hd (helems _ _ _ h)
        | empty hc hs => exact .empty hc hs
        | dict hc hs hd h => exact .dict hc hs hd (hmembers _ _ _ h)
        | scalar hstr hlist hdict h => exact .scalar hstr hlist hdict h
    · obtain ⟨x, r₁, hx, h⟩ := elems_eq_some.1 h
      refine elems_eq_some.2 ⟨x, r₁, hvalue _ _ _ hx, ?_⟩
      rcases h with ⟨r₂, ys, hs, hys, rfl⟩ | h
      · exact .inl ⟨r₂, ys, hs, helems _ _ _ hys, rfl⟩
      · exact .inr h
    · cases cs with
      | nil => simp at h
      | cons c cs =>
        obtain ⟨k, r₀, r₁, x, r₂, hc, hk, hcolon, hx, h⟩ := members_eq_some.1 h
        refine members_eq_some.2 ⟨k, r₀, r₁, x, r₂, hc, hk, hcolon, hvalue _ _ _ hx, ?_⟩
        rcases h with ⟨r₃, kvs', hs, hkvs, rfl⟩ | h
        · exact .inl ⟨r₃, kvs', hs, hmembers _ _ _ hkvs, rfl⟩
        · exact .inr h

theorem value_mono {m : Nat} {o : Obj α} (hle : n ≤ m) (h : value n cs = some (o, r)) :
    value m cs = some (o, r) := by
  induction hle with
  | refl => exact h
  | step _ ih => exact (mono_succ _).1 _ _ _ ih

/-! ## A longer text -/

/-- The value does not end with the text, or it has a closing character of its own. -/
def Closed (o : Obj α) (r : List Char) : Prop :=
  (∃ c r', r = c :: r' ∧ isEnd c = true) ∨ ∀ a, o ≠ .scalar a

theorem append_stable (s : List Char) (n : Nat) :
    (∀ (cs : List Char) (o : Obj α) (r : List Char), value n cs = some (o, r) → Closed o r →
      value n (cs ++ s) = some (o, r ++ s)) ∧
    (∀ (cs : List Char) (xs : List (Obj α)) (r : List Char), elems n cs = some (xs, r) →
      elems n (cs ++ s) = some (xs, r ++ s)) ∧
    ∀ (cs : List Char) (kvs : List (Key × Obj α)) (r : List Char), members n cs = some (kvs, r) →
      members n (cs ++ s) = some (kvs, r ++ s) := by
  have hskip : ∀ {cs r : List Char} {c : Char}, skip cs = c :: r →
      skip (cs ++ s) = c :: (r ++ s) := by
    intro cs r c h
    rw [skip_append (by simp [h]), h, List.cons_append]
  induction n with
  | zero => exact ⟨nofun, nofun, nofun⟩
  | succ n ih =>
    obtain ⟨hvalue, helems, hmembers⟩ := ih
    refine ⟨fun cs o r h hclosed => ?_, fun cs xs r h => ?_, fun cs kvs r h => ?_⟩
    · cases cs with
      | nil => simp at h
      | cons c cs =>
        rw [List.cons_append, value_eq_some] at *
        cases h with
        | str hc h => exact .str hc (readString_append s h)
        | nil hc hs => exact .nil hc (hskip hs)
        | list hc hs hd h => exact .list hc (hskip hs) hd (helems _ _ _ h)
        | empty hc hs => exact .empty hc (hskip hs)
        | dict hc hs hd h => exact .dict hc (hskip hs) hd (hmembers _ _ _ h)
        | scalar hstr hlist hdict h =>
          obtain ⟨d, r', rfl, hd⟩ := hclosed.resolve_right fun hne => hne _ rfl
          exact .scalar hstr hlist hdict (Scalar.read_append _ _ _ _ s h hd)
    · obtain ⟨x, r₁, hx, h⟩ := elems_eq_some.1 h
      rcases h with ⟨r₂, ys, hs, hys, rfl⟩ | ⟨hs, rfl⟩
      · have hne : skip r₂ ≠ [] := fun hnil => by simp [hnil] at hys
        have hx' := hvalue _ _ _ hx (.inl (isEnd_of_skip hs rfl))
        refine elems_eq_some.2 ⟨x, r₁ ++ s, hx', .inl ⟨r₂ ++ s, ys, hskip hs, ?_, rfl⟩⟩
        rw [skip_append hne]
        exact helems _ _ _ hys
      · have hx' := hvalue _ _ _ hx (.inl (isEnd_of_skip hs rfl))
        exact elems_eq_some.2 ⟨x, r₁ ++ s, hx', .inr ⟨hskip hs, rfl⟩⟩
    · cases cs with
      | nil => simp at h
      | cons c cs =>
        obtain ⟨k, r₀, r₁, x, r₂, hc, hk, hcolon, hx, h⟩ := members_eq_some.1 h
        have hne : skip r₁ ≠ [] := fun hnil => by simp [hnil] at hx
        have hend : ∃ d r', r₂ = d :: r' ∧ isEnd d = true := by
          rcases h with ⟨r₃, kvs', hs, -, -⟩ | ⟨hs, -⟩
          · exact isEnd_of_skip hs rfl
          · exact isEnd_of_skip hs rfl
        have hx' : value n (skip (r₁ ++ s)) = some (x, r₂ ++ s) := by
          rw [skip_append hne]
          exact hvalue _ _ _ hx (.inl hend)
        refine members_eq_some.2
          ⟨k, r₀ ++ s, r₁ ++ s, x, r₂ ++ s, hc, readString_append s hk, hskip hcolon, hx', ?_⟩
        rcases h with ⟨r₃, kvs', hs, hkvs, rfl⟩ | ⟨hs, rfl⟩
        · have hne' : skip r₃ ≠ [] := fun hnil => by simp [hnil] at hkvs
          refine .inl ⟨r₃ ++ s, kvs', hskip hs, ?_, rfl⟩
          rw [skip_append hne']
          exact hmembers _ _ _ hkvs
        · exact .inr ⟨hskip hs, rfl⟩

/-! ## What is read is plain -/

theorem plain_of_read (n : Nat) :
    (∀ (cs : List Char) (o : Obj α) (r : List Char), value n cs = some (o, r) → o.Plain) ∧
    (∀ (cs : List Char) (xs : List (Obj α)) (r : List Char), elems n cs = some (xs, r) →
      Obj.PlainElems xs) ∧
    ∀ (cs : List Char) (kvs : List (Key × Obj α)) (r : List Char), members n cs = some (kvs, r) →
      Obj.PlainMembers kvs := by
  induction n with
  | zero => exact ⟨nofun, nofun, nofun⟩
  | succ n ih =>
    obtain ⟨hvalue, helems, hmembers⟩ := ih
    refine ⟨fun cs o r h => ?_, fun cs xs r h => ?_, fun cs kvs r h => ?_⟩
    · cases cs with
      | nil => simp at h
      | cons c cs =>
        rw [value_eq_some] at h
        cases h with
        | str | nil | scalar => trivial
        | list _ _ _ h => exact helems _ _ _ h
        | empty => exact ⟨List.nodup_nil, trivial⟩
        | dict _ _ _ h => exact Obj.plain_ofPairs (hmembers _ _ _ h)
    · obtain ⟨x, r₁, hx, ⟨r₂, ys, -, hys, rfl⟩ | ⟨-, rfl⟩⟩ := elems_eq_some.1 h
      · exact ⟨hvalue _ _ _ hx, helems _ _ _ hys⟩
      · exact ⟨hvalue _ _ _ hx, trivial⟩
    · cases cs with
      | nil => simp at h
      | cons c cs =>
        obtain ⟨k, r₀, r₁, x, r₂, -, -, -, hx, ⟨r₃, kvs', -, hkvs, rfl⟩ | ⟨-, rfl⟩⟩ :=
          members_eq_some.1 h
        · exact ⟨⟨k, rfl⟩, hvalue _ _ _ hx, hmembers _ _ _ hkvs⟩
        · exact ⟨⟨k, rfl⟩, hvalue _ _ _ hx, trivial⟩

theorem load_eq_some {o : Obj α} : load cs = some o ↔
    ∃ r, value cs.length (skip cs) = some (o, r) ∧ skip r = [] := by
  rw [load, Option.bind_eq_some_iff]
  constructor
  · rintro ⟨⟨o', r⟩, h, hr⟩
    split_ifs at hr with hnil
    cases hr
    exact ⟨r, h, hnil⟩
  · rintro ⟨r, h, hr⟩
    exact ⟨(o, r), h, if_pos hr⟩

theorem plain_of_load {o : Obj α} (h : load cs = some o) : o.Plain := by
  obtain ⟨r, h, -⟩ := load_eq_some.1 h
  exact (plain_of_read _).1 _ _ _ h

end Json
