import Simian.Lib.Json.Text
import Simian.Lib.Json.Value

/-! # Writing a document piece by piece

An encoder writes a document from left to right. When it meets an object that it rejects it
stops, and what it has written by then stays written: an `Emit` is the text written and whether
the encoder came to its end. The text written up to a rejected object is a proper beginning of
a document, that of the object with all rejected parts replaced (`Obj.patch`, `encode_le`). -/

universe u

namespace Json

structure Emit where
  text : List Char
  done : Bool
  deriving DecidableEq, Repr

namespace Emit

def lit (cs : List Char) : Emit := ⟨cs, true⟩

def stop : Emit := ⟨[], false⟩

instance : Append Emit where
  append e f := if e.done then ⟨e.text ++ f.text, f.done⟩ else e

variable {e e' f f' : Emit} {cs : List Char}

@[simp] theorem lit_done : (lit cs).done = true := rfl

@[simp] theorem lit_text : (lit cs).text = cs := rfl

theorem append_of_done (h : e.done = true) : e ++ f = ⟨e.text ++ f.text, f.done⟩ := if_pos h

theorem append_of_not_done (h : e.done = false) : e ++ f = e := if_neg (by simp [h])

@[simp] theorem append_done : (e ++ f).done = (e.done && f.done) := by
  cases h : e.done with
  | true => rw [append_of_done h, Bool.true_and]
  | false => rw [append_of_not_done h, h, Bool.false_and]

@[simp] theorem append_text (h : e.done = true) : (e ++ f).text = e.text ++ f.text := by
  rw [append_of_done h]

/-- `f` is complete, and `e` is `f` or, if it has stopped, a proper beginning of it. -/
def Le (e f : Emit) : Prop :=
  f.done = true ∧ if e.done then e = f else ∃ c r, f.text = e.text ++ c :: r

theorem Le.lit : Le (lit cs) (lit cs) := ⟨rfl, rfl⟩

theorem Le.stop (hf : f.done = true) (hne : f.text ≠ []) : Le stop f := by
  obtain ⟨c, r, hcr⟩ := List.exists_cons_of_ne_nil hne
  exact ⟨hf, c, r, hcr⟩

theorem Le.append (h : Le e f) (h' : Le e' f') : Le (e ++ e') (f ++ f') := by
  obtain ⟨hf, h⟩ := h
  obtain ⟨hf', h'⟩ := h'
  refine ⟨by rw [append_done, hf, hf', Bool.true_and], ?_⟩
  cases he : e.done with
  | true =>
    rw [he, if_pos rfl] at h
    subst h
    rw [append_done, he, Bool.true_and]
    split at h'
    · rename_i hd
      rw [if_pos hd, h']
    · rename_i hd
      obtain ⟨c, r, hcr⟩ := h'
      rw [if_neg hd]
      exact ⟨c, r, by rw [append_text he, append_text he, hcr, List.append_assoc]⟩
  | false =>
    rw [he, if_neg Bool.false_ne_true] at h
    obtain ⟨c, r, hcr⟩ := h
    rw [append_of_not_done he, he, if_neg Bool.false_ne_true]
    exact ⟨c, r ++ f'.text, by rw [append_text hf, hcr, List.append_assoc, List.cons_append]⟩

end Emit

variable {α : Type u} [Scalar α]

/-- The end of a line and the indentation of the next one, by `w` for each level. -/
def newline (w lvl : Nat) : List Char := '\n' :: List.replicate (w * lvl) ' '

mutual

def encode (w lvl : Nat) : Obj α → Emit
  | .scalar a => .lit (Scalar.text a)
  | .str s => .lit (quote s)
  | .list xs | .tuple xs =>
    if xs.isEmpty then .lit ['[', ']']
    else .lit ('[' :: newline w (lvl + 1)) ++
      (encodeElems w (lvl + 1) [] xs ++ .lit (newline w lvl ++ [']']))
  | .dict kvs =>
    if kvs.isEmpty then .lit ['{', '}']
    else .lit ('{' :: newline w (lvl + 1)) ++
      (encodeMembers w (lvl + 1) [] kvs ++ .lit (newline w lvl ++ ['}']))
  | .foreign => .stop

def encodeElems (w lvl : Nat) (sep : List Char) : List (Obj α) → Emit
  | [] => .lit []
  | x :: xs => .lit sep ++ (encode w lvl x ++ encodeElems w lvl (',' :: newline w lvl) xs)

def encodeMembers (w lvl : Nat) (sep : List Char) : List (Key × Obj α) → Emit
  | [] => .lit []
  | (k, x) :: kvs =>
    match k.text with
    | none => .stop
    | some s => .lit (sep ++ quote s ++ [':', ' ']) ++
        (encode w lvl x ++ encodeMembers w lvl (',' :: newline w lvl) kvs)

end

/-- `json.dump(o, f, indent=w)`, as far as it gets. -/
def dump (w : Nat) (o : Obj α) : Emit := encode w 0 o

/-! ## Whether the encoder comes to its end -/

theorem Key.text_eq_none {k : Key} : k.text = none ↔ k = .foreign := by
  cases k <;> simp [Key.text]

mutual

theorem encode_done {w lvl : Nat} :
    ∀ {o : Obj α}, (encode w lvl o).done = true ↔ o.Writable
  | .scalar _ | .str _ => by simp [encode, Obj.Writable]
  | .list xs | .tuple xs => by
    have h := @encodeElems_done w (lvl + 1) [] xs
    rw [encode, Obj.Writable]
    cases xs with
    | nil => simp [Obj.WritableElems]
    | cons x xs => simpa using h
  | .dict kvs => by
    have h := @encodeMembers_done w (lvl + 1) [] kvs
    rw [encode, Obj.Writable]
    cases kvs with
    | nil => simp [Obj.WritableMembers]
    | cons kv kvs => simpa using h
  | .foreign => by simp [encode, Obj.Writable, Emit.stop]

theorem encodeElems_done {w lvl : Nat} {sep : List Char} :
    ∀ {xs : List (Obj α)}, (encodeElems w lvl sep xs).done = true ↔ Obj.WritableElems xs
  | [] => by simp [encodeElems, Obj.WritableElems]
  | x :: xs => by
    have hx := @encode_done w lvl x
    have hxs := @encodeElems_done w lvl (',' :: newline w lvl) xs
    simp [encodeElems, Obj.WritableElems, hx, hxs]

theorem encodeMembers_done {w lvl : Nat} {sep : List Char} :
    ∀ {kvs : List (Key × Obj α)},
      (encodeMembers w lvl sep kvs).done = true ↔ Obj.WritableMembers kvs
  | [] => by simp [encodeMembers, Obj.WritableMembers]
  | (k, x) :: kvs => by
    have hx := @encode_done w lvl x
    have hkvs := @encodeMembers_done w lvl (',' :: newline w lvl) kvs
    rw [encodeMembers, Obj.WritableMembers, Ne, ← Key.text_eq_none]
    cases k.text with
    | none => simp [Emit.stop]
    | some s => simp [hx, hkvs]

end

/-! ## The document that a stopped encoder has begun -/

def Key.patch : Key → Key
  | .foreign => .str ""
  | k => k

mutual

/-- The object with an empty string for everything that is rejected. -/
def Obj.patch : Obj α → Obj α
  | .scalar a => .scalar a
  | .str s => .str s
  | .list xs => .list (patchElems xs)
  | .tuple xs => .tuple (patchElems xs)
  | .dict kvs => .dict (patchMembers kvs)
  | .foreign => .str ""

def Obj.patchElems : List (Obj α) → List (Obj α)
  | [] => []
  | x :: xs => patch x :: patchElems xs

def Obj.patchMembers : List (Key × Obj α) → List (Key × Obj α)
  | [] => []
  | (k, x) :: kvs => (k.patch, patch x) :: patchMembers kvs

end

theorem Key.text_patch {k : Key} : k.patch.text = some (k.text.getD "") := by
  cases k <;> rfl

mutual

theorem encode_le {w lvl : Nat} :
    ∀ {o : Obj α}, (encode w lvl o).Le (encode w lvl o.patch)
  | .scalar _ | .str _ => .lit
  | .list xs | .tuple xs => by
    have h := @encodeElems_le w (lvl + 1) [] xs
    cases xs with
    | nil => exact .lit
    | cons x xs => exact .append .lit (.append h .lit)
  | .dict kvs => by
    have h := @encodeMembers_le w (lvl + 1) [] kvs
    cases kvs with
    | nil => exact .lit
    | cons kv kvs => exact .append .lit (.append h .lit)
  | .foreign => .stop rfl nofun

theorem encodeElems_le {w lvl : Nat} {sep : List Char} :
    ∀ {xs : List (Obj α)},
      (encodeElems w lvl sep xs).Le (encodeElems w lvl sep (Obj.patchElems xs))
  | [] => .lit
  | _ :: _ => .append .lit (.append encode_le encodeElems_le)

theorem encodeMembers_le {w lvl : Nat} {sep : List Char} :
    ∀ {kvs : List (Key × Obj α)},
      (encodeMembers w lvl sep kvs).Le (encodeMembers w lvl sep (Obj.patchMembers kvs))
  | [] => .lit
  | (k, x) :: kvs => by
    have h : ((encode w lvl x ++ encodeMembers w lvl (',' :: newline w lvl) kvs).Le
        (encode w lvl x.patch ++
          encodeMembers w lvl (',' :: newline w lvl) (Obj.patchMembers kvs))) :=
      .append encode_le encodeMembers_le
    rw [Obj.patchMembers, encodeMembers, encodeMembers, Key.text_patch]
    cases k.text with
    | none =>
      refine .stop ?_ ?_
      · rw [Emit.append_done, h.1]
        rfl
      · rw [Emit.append_text Emit.lit_done]
        simp [quote]
    | some s => exact .append .lit h

end

/-- What is written of a document whose encoder stops is a proper beginning of another one. -/
theorem dump_of_not_writable {w : Nat} {o : Obj α} (h : ¬ o.Writable) :
    o.patch.Writable ∧ ∃ c r, (dump w o.patch).text = (dump w o).text ++ c :: r := by
  obtain ⟨hdone, hle⟩ := @encode_le _ _ w 0 o
  refine ⟨encode_done.1 hdone, ?_⟩
  rwa [if_neg (mt encode_done.1 h)] at hle

end Json
