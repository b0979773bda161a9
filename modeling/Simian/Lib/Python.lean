import Simian.Lib.Json.Value
import Mathlib.Data.List.Infix

/-! # Python's operations on decoded values

`Obj α` is also what a decoder of JSON hands to Python. The operations below behave on each shape of
value as the interpreter does, and raise where it does. What the interpreter has for the scalars and
for the printable characters is the class `Interpreter`. -/

universe u

namespace Python
open Json

/-- The exceptions of the interpreter, and those that come from outside. -/
inductive Error
  | attributeError
  | keyError (key : String)
  | nameError (name : String)
  | typeError
  | valueError (message : String)
  | external (message : String)
  deriving DecidableEq, Repr

/-! ## Strings -/

/-- `str.isspace` of a character. -/
def isspace (c : Char) : Bool :=
  (9 ≤ c.toNat && c.toNat ≤ 13) || (28 ≤ c.toNat && c.toNat ≤ 32) || c.toNat = 0x85 ||
    c.toNat = 0xa0 || c.toNat = 0x1680 || (0x2000 ≤ c.toNat && c.toNat ≤ 0x200a) ||
    c.toNat = 0x2028 || c.toNat = 0x2029 || c.toNat = 0x202f || c.toNat = 0x205f ||
    c.toNat = 0x3000

/-- `s.strip()` -/
def strip (s : String) : String :=
  String.ofList (((s.toList.dropWhile isspace).reverse.dropWhile isspace).reverse)

/-- `s.lower()` of an ASCII string. -/
def asciiLower (s : String) : String := String.ofList (s.toList.map Char.toLower)

/-- `key in s` for two strings. -/
def Substring (key s : String) : Prop := key.toList <:+: s.toList

instance : DecidableRel Substring := fun key s =>
  inferInstanceAs (Decidable (key.toList <:+: s.toList))

theorem infix_dropWhile {p : Char → Bool} {c : Char} {ks cs : List Char} (hc : p c = false) :
    c :: ks <:+: cs.dropWhile p ↔ c :: ks <:+: cs := by
  induction cs with
  | nil => exact Iff.rfl
  | cons x xs ih =>
    rw [List.dropWhile_cons]
    split
    · rename_i hx
      rw [ih, List.infix_cons_iff, or_iff_right]
      intro hstart
      cases (List.cons_prefix_cons.1 hstart).1
      cases hc.symm.trans hx
    · exact Iff.rfl

/-- A text without spaces at its ends occurs in the stripped text where it does in the text. -/
theorem substring_strip {key s : String} {c d : Char} {ks ls : List Char}
    (hfirst : key.toList = c :: ks) (hc : isspace c = false)
    (hlast : key.toList.reverse = d :: ls) (hd : isspace d = false) :
    Substring key (strip s) ↔ Substring key s := by
  rw [Substring, Substring, strip, String.toList_ofList, ← List.reverse_infix, List.reverse_reverse,
    hlast, infix_dropWhile hd, ← hlast, List.reverse_infix, hfirst, infix_dropWhile hc]

/-! ## Values -/

/-- What the interpreter knows of the scalars, and the texts it has for values. -/
class Interpreter (α : Type u) where
  /-- `None` -/
  none : α
  ofBool : Bool → α
  truthy : α → Bool
  truthy_none : truthy none = false
  truthy_ofBool : ∀ b, truthy (ofBool b) = b
  scalarRepr : α → String
  /-- `repr` of a string, with its quotes and escapes. -/
  strRepr : String → String
  /-- `repr` of a key that is not a string, by what it is written as. -/
  keyRepr : String → String
  /-- `repr` of a value that JSON does not have. -/
  foreignRepr : String

variable {α : Type u}

/-- `bool(o)` -/
def truthy [Interpreter α] : Obj α → Bool
  | .scalar a => Interpreter.truthy a
  | .str s => s ≠ ""
  | .list xs | .tuple xs => !xs.isEmpty
  | .dict kvs => !kvs.isEmpty
  | .foreign => true

/-- `isinstance(o, str)` -/
def IsStr (o : Obj α) : Prop := ∃ s, o = .str s

def equals (key : String) : Obj α → Bool
  | .str s => s = key
  | .scalar _ | .list _ | .tuple _ | .dict _ | .foreign => false

/-- `key in o` -/
def contains (key : String) : Obj α → Except Error Bool
  | .str s => .ok (Substring key s)
  | .list xs | .tuple xs => .ok (xs.any (equals key))
  | .dict kvs => .ok (kvs.lookup (.str key)).isSome
  | .scalar _ | .foreign => .error .typeError

/-- `o[key]` -/
def item (key : String) : Obj α → Except Error (Obj α)
  | .dict kvs => match kvs.lookup (.str key) with
    | some x => .ok x
    | none => .error (.keyError key)
  | .scalar _ | .str _ | .list _ | .tuple _ | .foreign => .error .typeError

/-- `o.get(key, default)` -/
def get (key : String) (default : Obj α) : Obj α → Except Error (Obj α)
  | .dict kvs => .ok ((kvs.lookup (.str key)).getD default)
  | .scalar _ | .str _ | .list _ | .tuple _ | .foreign => .error .attributeError

variable {kvs : List (Key × Obj α)} {key : String} {x default : Obj α}

theorem item_of_lookup (h : kvs.lookup (.str key) = some x) : item key (.dict kvs) = .ok x := by
  rw [item, h]

theorem item_eq_ok {o : Obj α} : item key o = .ok x ↔
    ∃ kvs, o = .dict kvs ∧ kvs.lookup (.str key) = some x := by
  cases o with
  | dict kvs =>
    rw [item]
    cases h : kvs.lookup (.str key) <;> simp [h]
  | _ => simp [item]

theorem get_of_lookup (h : kvs.lookup (.str key) = some x) :
    get key default (.dict kvs) = .ok x := by
  rw [Python.get, h, Option.getD_some]

/-! ## Texts -/

def braced (l r : String) (texts : List String) : String := l ++ (", ".intercalate texts ++ r)

variable [Interpreter α]

def keyText : Key → String
  | .str s => Interpreter.strRepr α s
  | .other s => Interpreter.keyRepr α s
  | .foreign => Interpreter.foreignRepr α

mutual

def repr : Obj α → String
  | .scalar a => Interpreter.scalarRepr a
  | .str s => Interpreter.strRepr α s
  | .list xs => braced "[" "]" (reprElems xs)
  | .tuple [x] => "(" ++ (repr x ++ ",)")
  | .tuple xs => braced "(" ")" (reprElems xs)
  | .dict kvs => braced "\x7b" "\x7d" (reprMembers kvs)
  | .foreign => Interpreter.foreignRepr α

def reprElems : List (Obj α) → List String
  | [] => []
  | x :: xs => repr x :: reprElems xs

def reprMembers : List (Key × Obj α) → List String
  | [] => []
  | (k, x) :: kvs => (keyText (α := α) k ++ (": " ++ repr x)) :: reprMembers kvs

end

/-- `str(o)` -/
def str : Obj α → String
  | .str s => s
  | o => repr o

theorem str_dict_ne_empty {kvs : List (Key × Obj α)} : str (.dict kvs) ≠ "" := by
  intro h
  have hlength := congrArg String.length h
  simp [str, repr, braced] at hlength

/-- The constants, with their names in Python. Strings are quoted without escapes. -/
instance : Interpreter Constant where
  none := .null
  ofBool
    | true => .true
    | false => .false
  truthy
    | .true => true
    | .null | .false => false
  truthy_none := rfl
  truthy_ofBool b := by
    cases b <;> rfl
  scalarRepr
    | .null => "None"
    | .true => "True"
    | .false => "False"
  strRepr s := "'" ++ (s ++ "'")
  keyRepr s := s
  foreignRepr := "<object>"

end Python
