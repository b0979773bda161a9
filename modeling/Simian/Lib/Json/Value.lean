import Simian.Lib.Dict

/-! # Objects and their JSON values

`Obj α` is an object as an encoder sees it: besides what JSON has there are tuples, keys that are
not strings, and objects that it rejects. `α` are the scalars other than strings (`Scalar`).
`Obj.normal` is what is left after writing and reading: tuples become lists, keys become strings,
and of equal keys the last value counts. A `Plain` object is its own normal form. -/

universe u

namespace Json

def isSpace (c : Char) : Bool := c = ' ' || c = '\n' || c = '\t' || c = '\r'

/-- What may follow a scalar within a document. -/
def isEnd (c : Char) : Bool := isSpace c || c = ',' || c = ']' || c = '}'

/-- The scalars other than strings: numbers and the constants. Their texts begin like no other
value, and they are read as far as they go. -/
class Scalar (α : Type u) where
  text : α → List Char
  read : List Char → Option (α × List Char)
  text_head : ∀ a, ∃ c cs, text a = c :: cs ∧ isSpace c = false ∧ c ∉ ['"', '[', ']', '{']
  read_text : ∀ a r, (∀ c cs, r = c :: cs → isEnd c) → read (text a ++ r) = some (a, r)
  read_append : ∀ cs a c r s, read cs = some (a, c :: r) → isEnd c →
    read (cs ++ s) = some (a, c :: r ++ s)

/-- The constants, for documents without numbers. -/
inductive Constant
  | null
  | true
  | false
  deriving DecidableEq, Repr

def Constant.text : Constant → List Char
  | .null => ['n', 'u', 'l', 'l']
  | .true => ['t', 'r', 'u', 'e']
  | .false => ['f', 'a', 'l', 's', 'e']

def Constant.read : List Char → Option (Constant × List Char)
  | 'n' :: 'u' :: 'l' :: 'l' :: r => some (.null, r)
  | 't' :: 'r' :: 'u' :: 'e' :: r => some (.true, r)
  | 'f' :: 'a' :: 'l' :: 's' :: 'e' :: r => some (.false, r)
  | _ => none

instance : Scalar Constant where
  text := Constant.text
  read := Constant.read
  text_head a := by
    cases a <;> exact ⟨_, _, rfl, rfl, by decide⟩
  read_text a r _ := by
    cases a <;> rfl
  read_append cs a c r s h _ := by
    unfold Constant.read at h
    split at h <;> cases h <;> rfl

/-- A key of a dictionary: a string, a key of another type that is written as the given string, or
one that is rejected. -/
inductive Key
  | str (s : String)
  | other (s : String)
  | foreign
  deriving DecidableEq, Repr

inductive Obj (α : Type u)
  | scalar (a : α)
  | str (s : String)
  | list (xs : List (Obj α))
  | tuple (xs : List (Obj α))
  | dict (kvs : List (Key × Obj α))
  | foreign

def Key.text : Key → Option String
  | .str s | .other s => some s
  | .foreign => none

def Key.normal : Key → Key
  | .str s | .other s => .str s
  | .foreign => .foreign

theorem Key.str_ne_foreign {s : String} : Key.str s ≠ .foreign := by
  intro h
  cases h

namespace Obj
variable {α : Type u}

mutual

def normal : Obj α → Obj α
  | .scalar a => .scalar a
  | .str s => .str s
  | .list xs | .tuple xs => .list (normalElems xs)
  | .dict kvs => .dict (Dict.ofPairs (normalMembers kvs))
  | .foreign => .foreign

def normalElems : List (Obj α) → List (Obj α)
  | [] => []
  | x :: xs => normal x :: normalElems xs

def normalMembers : List (Key × Obj α) → List (Key × Obj α)
  | [] => []
  | (k, x) :: kvs => (k.normal, normal x) :: normalMembers kvs

end

mutual

/-- Nothing in the object is rejected. -/
def Writable : Obj α → Prop
  | .scalar _ | .str _ => True
  | .list xs | .tuple xs => WritableElems xs
  | .dict kvs => WritableMembers kvs
  | .foreign => False

def WritableElems : List (Obj α) → Prop
  | [] => True
  | x :: xs => Writable x ∧ WritableElems xs

def WritableMembers : List (Key × Obj α) → Prop
  | [] => True
  | (k, x) :: kvs => k ≠ .foreign ∧ Writable x ∧ WritableMembers kvs

end

mutual

/-- The object has only lists and dictionaries with distinct strings as keys. -/
def Plain : Obj α → Prop
  | .scalar _ | .str _ => True
  | .list xs => PlainElems xs
  | .dict kvs => (Dict.keys kvs).Nodup ∧ PlainMembers kvs
  | .tuple _ | .foreign => False

def PlainElems : List (Obj α) → Prop
  | [] => True
  | x :: xs => Plain x ∧ PlainElems xs

def PlainMembers : List (Key × Obj α) → Prop
  | [] => True
  | (k, x) :: kvs => (∃ s, k = .str s) ∧ Plain x ∧ PlainMembers kvs

end

theorem writableElems_iff {xs : List (Obj α)} : WritableElems xs ↔ ∀ x ∈ xs, Writable x := by
  induction xs with
  | nil => simp [WritableElems]
  | cons x xs ih => rw [WritableElems, ih, List.forall_mem_cons]

theorem writableMembers_iff {kvs : List (Key × Obj α)} :
    WritableMembers kvs ↔ ∀ kv ∈ kvs, kv.1 ≠ .foreign ∧ Writable kv.2 := by
  induction kvs with
  | nil => simp [WritableMembers]
  | cons kv kvs ih => rw [WritableMembers, ih, List.forall_mem_cons, and_assoc]

theorem plainElems_iff {xs : List (Obj α)} : PlainElems xs ↔ ∀ x ∈ xs, Plain x := by
  induction xs with
  | nil => simp [PlainElems]
  | cons x xs ih => rw [PlainElems, ih, List.forall_mem_cons]

theorem plainMembers_iff {kvs : List (Key × Obj α)} :
    PlainMembers kvs ↔ ∀ kv ∈ kvs, (∃ s, kv.1 = .str s) ∧ Plain kv.2 := by
  induction kvs with
  | nil => simp [PlainMembers]
  | cons kv kvs ih => rw [PlainMembers, ih, List.forall_mem_cons, and_assoc]

theorem normalElems_eq {xs : List (Obj α)} : normalElems xs = xs.map normal := by
  induction xs with
  | nil => rfl
  | cons x xs ih => rw [normalElems, ih, List.map_cons]

/-- Members whose keys are strings keep them. -/
theorem normalMembers_eq {kvs : List (Key × Obj α)} (h : ∀ kv ∈ kvs, ∃ s, kv.1 = .str s) :
    normalMembers kvs = kvs.map fun kv => (kv.1, normal kv.2) := by
  induction kvs with
  | nil => rfl
  | cons kv kvs ih =>
    obtain ⟨⟨s, hs⟩, hkvs⟩ := List.forall_mem_cons.1 h
    rw [normalMembers, ih hkvs, hs, List.map_cons, hs]
    rfl

mutual

theorem Plain.normal_eq : ∀ {o : Obj α}, Plain o → normal o = o
  | .scalar _, _ | .str _, _ => rfl
  | .list xs, h => by
    rw [normal, PlainElems.normal_eq h]
  | .dict kvs, h => by
    obtain ⟨hnodup, h⟩ := h
    rw [normal, PlainMembers.normal_eq h, Dict.ofPairs_of_nodup hnodup]

theorem PlainElems.normal_eq : ∀ {xs : List (Obj α)}, PlainElems xs → normalElems xs = xs
  | [], _ => rfl
  | x :: xs, h => by
    rw [normalElems, Plain.normal_eq h.1, PlainElems.normal_eq h.2]

theorem PlainMembers.normal_eq :
    ∀ {kvs : List (Key × Obj α)}, PlainMembers kvs → normalMembers kvs = kvs
  | [], _ => rfl
  | (k, x) :: kvs, h => by
    obtain ⟨⟨s, rfl⟩, hx, hkvs⟩ := h
    rw [normalMembers, Plain.normal_eq hx, PlainMembers.normal_eq hkvs]
    rfl

end

mutual

theorem Plain.writable : ∀ {o : Obj α}, Plain o → Writable o
  | .scalar _, _ | .str _, _ => trivial
  | .list _, h => PlainElems.writable h
  | .dict _, h => PlainMembers.writable h.2

theorem PlainElems.writable : ∀ {xs : List (Obj α)}, PlainElems xs → WritableElems xs
  | [], _ => trivial
  | _ :: _, h => ⟨Plain.writable h.1, PlainElems.writable h.2⟩

theorem PlainMembers.writable :
    ∀ {kvs : List (Key × Obj α)}, PlainMembers kvs → WritableMembers kvs
  | [], _ => trivial
  | (k, _) :: _, h => by
    obtain ⟨⟨s, rfl⟩, hx, hkvs⟩ := h
    exact ⟨Key.str_ne_foreign, Plain.writable hx, PlainMembers.writable hkvs⟩

end

theorem Plain.append {xs : List (Obj α)} {x : Obj α} (h : Plain (.list xs)) (hx : Plain x) :
    Plain (.list (xs ++ [x])) := by
  apply plainElems_iff.mpr
  intro y hy
  rcases List.mem_append.1 hy with hy | hy
  · exact plainElems_iff.1 h y hy
  · rw [List.mem_singleton.1 hy]
    exact hx

theorem Plain.set {kvs : List (Key × Obj α)} {s : String} {x : Obj α} (h : Plain (.dict kvs))
    (hx : Plain x) : Plain (.dict (Dict.set kvs (.str s) x)) := by
  refine ⟨Dict.nodup_set h.1, plainMembers_iff.2 fun kv hkv => ?_⟩
  rcases Dict.mem_set hkv with rfl | hkv
  · exact ⟨⟨s, rfl⟩, hx⟩
  · exact plainMembers_iff.1 h.2 kv hkv

/-- Setting a value that has nothing more rejected than the old one. -/
theorem writable_set {kvs : List (Key × Obj α)} {k : Key} {x : Obj α} (hk : k ≠ .foreign)
    (hold : ∀ y, kvs.lookup k = some y → x.Writable → y.Writable) :
    (Obj.dict (Dict.set kvs k x)).Writable ↔ (Obj.dict kvs).Writable ∧ x.Writable := by
  simp only [Writable, writableMembers_iff]
  constructor
  · intro h
    have hx : x.Writable := (h (k, x) (Dict.mem_of_lookup Dict.lookup_set_self)).2
    refine ⟨fun kv hkv => ?_, hx⟩
    rcases Dict.mem_set_of_mem hkv with hkv | ⟨hkey, hl⟩
    · exact h kv hkv
    · exact ⟨hkey ▸ hk, hold _ hl hx⟩
  · rintro ⟨h, hx⟩ kv hkv
    rcases Dict.mem_set hkv with rfl | hkv
    · exact ⟨hk, hx⟩
    · exact h kv hkv

/-- A dictionary built from plain items is plain. -/
theorem plain_ofPairs {kvs : List (Key × Obj α)} (h : PlainMembers kvs) :
    Plain (.dict (Dict.ofPairs kvs)) := by
  refine ⟨Dict.ofPairs_nodup, plainMembers_iff.2 fun kv hkv => ?_⟩
  exact plainMembers_iff.1 h kv (Dict.mem_of_mem_ofPairs hkv)

end Obj

end Json
