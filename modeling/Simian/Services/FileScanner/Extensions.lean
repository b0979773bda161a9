import Simian.Lib.Lowercase
import Simian.Lib.Paths

/-! # The extensions of scanned files

The two checks of `services/file_scanner.py` on the name of a file. `scan_path` asks
`os.path.splitext` for the extension; `_has_double_ext` counts the parts between dots, and so takes a
dot at the beginning of a name for one in the middle. -/

namespace Simian.FileScanner
open Paths

def RISKY_EXT : List String :=
  [".exe", ".dll", ".scr", ".bat", ".cmd", ".js", ".vbs", ".ps1", ".jar", ".msi", ".com", ".reg"]

/-- `e.strip(".")` -/
def stripDots (e : String) : String :=
  String.ofList ((e.toList.dropWhile (· = '.')).rdropWhile (· = '.'))

/-- Character properties by which the dot is the lower case of itself only. -/
structure Unicode extends Casing where
  dot : toCasing.Keeps '.'

theorem eq_dot_of_toLower {c : Char} (h : c.toLower = '.') : c = '.' := by
  delta Char.toLower at h
  split at h
  · rename_i hupper
    have hval := congrArg (fun c : Char => c.val.toNat) h
    rw [ge_iff_le, UInt32.le_iff_toNat_le, UInt32.le_iff_toNat_le] at hupper
    simp at hval hupper
    omega
  · exact h

/-- The properties of the characters of ASCII. -/
def Unicode.ascii : Unicode where
  lowercase c := [c.toLower]
  cased := Char.isAlpha
  case_ignorable c := [0x27, 0x2e, 0x3a, 0x5e, 0x60].contains c.toNat
  dot := {
    lowercase_self := rfl
    eq_of_mem := fun _ h => eq_dot_of_toLower (List.mem_singleton.1 h).symm
    not_sigma := by decide }

def _has_double_ext (U : Unicode) (filename : String) : Bool :=
  let parts := (U.lower filename).toList.splitOn '.'
  3 ≤ parts.length &&
    parts.getLast?.any fun part => (RISKY_EXT.map stripDots).contains (String.ofList part)

/-- The part after the last dot makes the extension risky. -/
def Risky (U : Unicode) (part : List Char) : Prop :=
  U.lower (String.ofList ('.' :: part)) ∈ RISKY_EXT

variable {U : Unicode} {isSep : Char → Bool} {name : String} {stem part before after cs : List Char}

/-- The extensions without their dots. -/
def stripped : List String := RISKY_EXT.map stripDots

theorem stripped_plain : ∀ e ∈ stripped, ∀ c ∈ e.toList, c ∉ ['σ', 'ς'] := by
  have hall : (stripped.all fun e => e.toList.all fun c => c ∉ ['σ', 'ς']) = true := by
    decide +kernel
  intro e he c hc hsigma
  have hnot := List.all_eq_true.1 (List.all_eq_true.1 hall e he) c hc
  exact of_decide_eq_true hnot hsigma

theorem mem_stripped_iff :
    String.ofList part ∈ stripped ↔ String.ofList ('.' :: part) ∈ RISKY_EXT := by
  have hdots : stripped.map (fun e => String.ofList ('.' :: e.toList)) = RISKY_EXT := by
    decide +kernel
  have hinj : Function.Injective fun e : String => String.ofList ('.' :: e.toList) := by
    intro e e' h
    have hlist := congrArg String.toList h
    simp only [String.toList_ofList, List.cons.injEq, true_and] at hlist
    exact String.toList_inj.1 hlist
  have hmem := @List.mem_map_of_injective _ _ _ hinj (String.ofList part) stripped
  rw [hdots] at hmem
  simpa only [String.toList_ofList] using hmem.symm

/-- What stands before and after a part does not count. -/
theorem risky_iff :
    Risky U part ↔ String.ofList (U.lowered before part after) ∈ stripped := by
  have hmem : ∀ before after, String.ofList (U.lowered before part after) ∈ stripped ↔
      ∃ e ∈ stripped, U.lowered before part after = e.toList := by
    intro before after
    refine ⟨fun h => ⟨_, h, String.toList_ofList.symm⟩, fun h => ?_⟩
    obtain ⟨e, he, heq⟩ := h
    rwa [heq, String.ofList_toList]
  have hlower : U.lower (String.ofList ('.' :: part)) =
      String.ofList ('.' :: U.lowered ['.'] part []) := by
    rw [Casing.lower, String.toList_ofList, ← List.singleton_append, Casing.lowered_append,
      U.dot.lowered_self]
    rfl
  rw [Risky, hlower, ← mem_stripped_iff, hmem, hmem]
  apply exists_congr
  intro e
  apply and_congr_right
  intro he
  exact Casing.lowered_eq_iff (stripped_plain e he)

theorem has_double_ext_append (h : '.' ∉ part) (hname : name.toList = stem ++ '.' :: part) :
    _has_double_ext U name = true ↔ '.' ∈ stem ∧ Risky U part := by
  have hlower : (U.lower name).toList = U.lowered [] stem ('.' :: part) ++
      '.' :: U.lowered ('.' :: stem.reverse) part [] := by
    rw [Casing.lower, String.toList_ofList, hname, Casing.lowered_append, ← List.singleton_append,
      Casing.lowered_append, U.dot.lowered_self, List.append_nil, List.append_nil]
    rfl
  have hparts : (U.lower name).toList.splitOn '.' = (U.lowered [] stem ('.' :: part)).splitOn '.' ++
      [U.lowered ('.' :: stem.reverse) part []] := by
    rw [hlower, List.splitOn_append_cons_self,
      List.splitOn_eq_singleton (mt U.dot.mem_lowered.1 h)]
  have hlength : 3 ≤ ((U.lower name).toList.splitOn '.').length ↔ '.' ∈ stem := by
    rw [hparts, List.length_append, List.length_singleton, ← U.dot.mem_lowered,
      ← List.two_le_length_splitOn]
    exact Nat.succ_le_succ_iff
  have hlast : ((U.lower name).toList.splitOn '.').getLast? =
      some (U.lowered ('.' :: stem.reverse) part []) := by
    rw [hparts, List.getLast?_append, List.getLast?_singleton]
    rfl
  rw [_has_double_ext, Bool.and_eq_true, decide_eq_true_iff, hlength, hlast, Option.any_some,
    List.contains_iff_mem, risky_iff]
  rfl

theorem has_double_ext_of_not_mem (h : '.' ∉ name.toList) : _has_double_ext U name = false := by
  have hlower : '.' ∉ (U.lower name).toList := by
    rw [Casing.lower, String.toList_ofList, U.dot.mem_lowered]
    exact h
  rw [_has_double_ext, List.splitOn_eq_singleton hlower]
  rfl

/-! ## When the checks agree -/

/-- A name has a double extension exactly if `splitext` takes two off, the last one risky. -/
def ChecksAgree (U : Unicode) (isSep : Char → Bool) (name : String) : Prop :=
  _has_double_ext U name = true ↔
    U.lower (splitext isSep name).2 ∈ RISKY_EXT ∧
      (splitext isSep (splitext isSep name).1).2 ≠ ""

/-- Some dots, a text without dots, and a risky extension. -/
def DotsThenRisky (U : Unicode) (name : String) : Prop :=
  ∃ k rest part, name.toList = List.replicate (k + 1) '.' ++ rest ++ '.' :: part ∧
    '.' ∉ rest ∧ '.' ∉ part ∧ Risky U part

theorem dotsThenRisky_append (h : '.' ∉ part) (hname : name.toList = stem ++ '.' :: part) :
    DotsThenRisky U name ↔ Risky U part ∧ '.' ∈ stem ∧ (splitName stem).2 = [] := by
  constructor
  · intro hdots
    obtain ⟨k, rest, part', heq, hrest, hpart', hrisky⟩ := hdots
    have hsplit := (List.rsplit_eq_some.2 ⟨hname, h⟩).symm.trans
      (List.rsplit_eq_some.2 ⟨heq, hpart'⟩)
    cases hsplit
    have hmem : '.' ∈ List.replicate (k + 1) '.' ++ rest := by simp
    exact ⟨hrisky, hmem, (splitName_ext_eq_nil hmem).2 ⟨k, rest, rfl, hrest⟩⟩
  · intro hparts
    obtain ⟨hrisky, hmem, hext⟩ := hparts
    obtain ⟨k, rest, rfl, hrest⟩ := (splitName_ext_eq_nil hmem).1 hext
    exact ⟨k, rest, part, hname, hrest, h, hrisky⟩

theorem ofList_ne_empty : String.ofList cs ≠ "" ↔ cs ≠ [] := by
  rw [ne_eq, ← String.toList_inj, String.toList_ofList]
  exact Iff.rfl

theorem lower_empty : U.lower "" ∉ RISKY_EXT := by
  have hempty : U.lower "" = "" := rfl
  rw [hempty]
  decide

/-- What `splitext` takes off a name, and off what is left. -/
theorem splitext_twice (h : ∀ c ∈ name.toList, isSep c = false) (hpart : '.' ∉ part)
    (hname : name.toList = stem ++ '.' :: part) :
    U.lower (splitext isSep name).2 ∈ RISKY_EXT ∧
      (splitext isSep (splitext isSep name).1).2 ≠ "" ↔ Risky U part ∧ (splitName stem).2 ≠ [] := by
  have hstem : ∀ c ∈ (String.ofList stem).toList, isSep c = false := by
    intro c hc
    rw [String.toList_ofList] at hc
    exact h c (hname ▸ List.mem_append_left _ hc)
  rw [splitext_name h, hname, splitName_append hpart]
  cases hany : stem.any (· ≠ '.') with
  | true =>
    rw [if_pos rfl]
    dsimp only
    rw [splitext_name hstem, ofList_ne_empty, String.toList_ofList, Risky]
  | false =>
    rw [if_neg Bool.false_ne_true, splitName_of_dots hany]
    refine iff_of_false (fun hrisky => ?_) fun hne => hne.2 rfl
    exact lower_empty hrisky.1

/-- The checks disagree on a name that begins with dots and has no other before the extension. -/
theorem checksAgree_iff (h : ∀ c ∈ name.toList, isSep c = false) :
    ChecksAgree U isSep name ↔ ¬ DotsThenRisky U name := by
  by_cases hdot : '.' ∈ name.toList
  · obtain ⟨⟨stem, part⟩, hsplit⟩ :=
      Option.ne_none_iff_exists'.1 (mt List.rsplit_eq_none.1 (not_not.2 hdot))
    obtain ⟨hname, hpart⟩ := List.rsplit_eq_some.1 hsplit
    have hmem : (splitName stem).2 ≠ [] → '.' ∈ stem := by
      intro hext
      by_contra hnot
      rw [splitName_of_not_mem hnot] at hext
      exact hext rfl
    rw [ChecksAgree, has_double_ext_append hpart hname, splitext_twice h hpart hname,
      dotsThenRisky_append hpart hname]
    constructor
    · intro hagree hbad
      exact (hagree.1 ⟨hbad.2.1, hbad.1⟩).2 hbad.2.2
    · intro hgood
      constructor
      · intro hdouble
        exact ⟨hdouble.2, fun hnil => hgood ⟨hdouble.2, hdouble.1, hnil⟩⟩
      · intro htwice
        exact ⟨hmem htwice.2, htwice.1⟩
  · have hext : (splitext isSep name).2 = "" := by
      rw [splitext_name h, splitName_of_not_mem hdot]
    rw [ChecksAgree, has_double_ext_of_not_mem hdot, hext]
    refine iff_of_true (iff_of_false Bool.false_ne_true fun htwice => lower_empty htwice.1) ?_
    intro hdots
    obtain ⟨k, rest, part, hname, -⟩ := hdots
    rw [hname] at hdot
    exact hdot (List.mem_append_right _ List.mem_cons_self)

end Simian.FileScanner
