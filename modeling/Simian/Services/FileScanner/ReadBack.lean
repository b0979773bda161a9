import Simian.Services.FileScanner.ScanPath

/-! # Results of scans, read back

The parts of a result are set off by dashes, and none stands behind the third one but those of the
line itself. So a reader that takes the result apart from its end recovers the name, whatever stands
in it, and what the scan said about it (`read_line`); and a result that says something else is
never taken for a verdict (`read_scan_path`). -/

namespace Simian.FileScanner
open Paths Chunks

/-- The parts of a line, as texts. -/
structure Report where
  name : String
  size : String
  sha : String
  verdict : String
  tag : String
  deriving DecidableEq, Repr

/-- A tag is absent, or in brackets behind a blank. -/
def isTag (tag : List Char) : Bool :=
  tag = [] || " (".toList.isPrefixOf tag && tag.getLast? = some ')'

/-- The verdict and the tag. -/
def readVerdict (v : List Char) : Option (String × String) :=
  let verdict := String.ofList (v.takeWhile (· ≠ ' '))
  let tag := v.dropWhile (· ≠ ' ')
  if (verdict = "clean" ∨ verdict = "suspicious") ∧ isTag tag then
    some (verdict, String.ofList tag)
  else none

/-- The text up to `stop`. -/
def upToChar (stop : Char) (cs : List Char) : String := String.ofList (cs.takeWhile (· ≠ stop))

/-- A result taken apart at its last three dashes. -/
def readLine (text : String) : Option Report := do
  let (before, v) ← text.toList.rsplit '—'
  let (before, sha) ← before.rsplit '—'
  let (name, size) ← before.rsplit '—'
  let (verdict, tag) ← readVerdict (v.drop 1)
  return ⟨String.ofList name.dropLast, upToChar ' ' (size.drop 1),
    upToChar '…' (sha.drop " sha256:".length), verdict, tag⟩

/-- What a line says. -/
def reportOf (U : Unicode) (isSep : Char → Bool) (path : String) (size : Nat) (sha : String)
    (head : Option (List UInt8)) : Report :=
  ⟨basename isSep path, toString size, String.ofList (sha.toList.take 16), verdict U isSep path,
    tag (notes U isSep path size head)⟩

variable {U : Unicode} {isSep : Char → Bool} {path e sha text : String} {size : Nat}
  {head : Option (List UInt8)} {c stop : Char} {cs rest : List Char}

/-! ## What the parts are made of -/

def isAscii (c : Char) : Bool := c.toNat < 128

def Ascii (s : String) : Prop := ∀ c ∈ s.toList, isAscii c = true

instance : DecidablePred Ascii := fun s =>
  List.decidableBAll (fun c => isAscii c = true) s.toList

theorem mem_intercalate {sep : String} {texts : List String}
    (h : c ∈ (sep.intercalate texts).toList) :
    c ∈ sep.toList ∨ ∃ t ∈ texts, c ∈ t.toList := by
  induction texts with
  | nil => cases h
  | cons t texts ih =>
    cases texts with
    | nil =>
      rw [String.intercalate_singleton] at h
      exact .inr ⟨t, List.mem_cons_self, h⟩
    | cons t' texts =>
      rw [String.intercalate_cons_cons, String.toList_append, String.toList_append,
        List.mem_append, List.mem_append] at h
      rcases h with (h | h) | h
      · exact .inr ⟨t, List.mem_cons_self, h⟩
      · exact .inl h
      · rcases ih h with h | ⟨u, hu, h⟩
        · exact .inl h
        · exact .inr ⟨u, List.mem_cons_of_mem t hu, h⟩

theorem ascii_of_mem_padded {b w n : Nat} (hb : 0 < b) (hb' : b ≤ 16)
    (h : c ∈ Digits.padded b w n) : isAscii c = true := by
  have hall : ∀ d < 16, isAscii (Nat.digitChar d) = true := by decide
  induction w generalizing n with
  | zero => cases h
  | succ w ih =>
    rw [Digits.padded, List.mem_append, List.mem_singleton] at h
    rcases h with h | rfl
    · exact ih h
    · exact hall _ (lt_of_lt_of_le (Nat.mod_lt n hb) hb')

theorem ascii_hexdigest {message : List UInt8} : Ascii (Sha256.hexdigest message) := by
  intro c h
  rw [Sha256.hexdigest, String.toList_ofList, List.mem_flatMap] at h
  obtain ⟨w, -, hc⟩ := h
  exact ascii_of_mem_padded (by decide) (by decide) hc

theorem isDigit_of_mem_toString (h : c ∈ (toString size).toList) : c.isDigit = true := by
  rw [Nat.toString_eq_ofList_toDigits, String.toList_ofList] at h
  exact Nat.isDigit_of_mem_toDigits (by decide) (by decide) h

theorem ascii_of_mem_notes {note : String} (h : note ∈ notes U isSep path size head) :
    Ascii note := by
  have hrisky : ∀ ext ∈ RISKY_EXT, Ascii ("risky-ext:" ++ ext) := by
    decide +kernel
  rcases mem_notes.1 h with ⟨-, rfl⟩ | ⟨hext, rfl⟩ | ⟨-, rfl⟩ | ⟨-, rfl⟩
  · decide
  · exact hrisky _ hext
  · decide
  · decide

theorem ascii_tag : Ascii (tag (notes U isSep path size head)) := by
  have hopen : Ascii " (" := by decide
  have hcomma : Ascii ", " := by decide
  have hclose : Ascii ")" := by decide
  intro c h
  rw [tag] at h
  split at h
  · cases h
  · rw [String.toList_append, String.toList_append, List.mem_append, List.mem_append] at h
    rcases h with (h | h) | h
    · exact hopen c h
    · rcases mem_intercalate h with h | ⟨note, hnote, h⟩
      · exact hcomma c h
      · exact ascii_of_mem_notes hnote c h
    · exact hclose c h

theorem dash_not_mem (h : ∀ c ∈ cs, isAscii c = true) : '—' ∉ cs := by
  intro hmem
  exact absurd (h _ hmem) (by decide)

/-! ## Reading -/

theorem takeWhile_before (h : stop ∉ cs) (hrest : rest.head? = none ∨ rest.head? = some stop) :
    (cs ++ rest).takeWhile (· ≠ stop) = cs ∧ (cs ++ rest).dropWhile (· ≠ stop) = rest := by
  induction cs with
  | nil =>
    cases rest with
    | nil => exact ⟨rfl, rfl⟩
    | cons c rest =>
      have hc : c = stop := by
        rcases hrest with hrest | hrest
        · cases hrest
        · exact Option.some.inj hrest
      simp [hc]
  | cons c cs ih =>
    obtain ⟨hc, hcs⟩ := List.ne_and_not_mem_of_not_mem_cons h
    obtain ⟨htake, hdrop⟩ := ih hcs
    have hne : decide (c ≠ stop) = true := decide_eq_true (Ne.symm hc)
    rw [List.cons_append, List.takeWhile_cons, List.dropWhile_cons, if_pos hne, if_pos hne, htake]
    exact ⟨rfl, hdrop⟩

theorem upToChar_before (h : stop ∉ cs) : upToChar stop (cs ++ stop :: rest) = String.ofList cs :=
  congrArg String.ofList (takeWhile_before h (.inr rfl)).1

theorem isTag_tag {texts : List String} : isTag (tag texts).toList = true := by
  rw [tag]
  split
  · rfl
  · have hlast : ∀ cs : List Char, (' ' :: '(' :: (cs ++ [')'])).getLast? = some ')' := by
      intro cs
      rw [← List.cons_append, ← List.cons_append, List.getLast?_concat]
    have htext : (" (" ++ ", ".intercalate texts ++ ")").toList =
        ' ' :: '(' :: ((", ".intercalate texts).toList ++ [')']) := by
      rw [String.toList_append, String.toList_append]
      rfl
    rw [htext, isTag, hlast]
    rfl

theorem readVerdict_verdict {texts : List String} :
    readVerdict ((verdict U isSep path).toList ++ (tag texts).toList) =
      some (verdict U isSep path, tag texts) := by
  have hverdict : (verdict U isSep path = "clean" ∨ verdict U isSep path = "suspicious") ∧
      ' ' ∉ (verdict U isSep path).toList := by
    rw [verdict]
    split
    · exact ⟨.inr rfl, by decide⟩
    · exact ⟨.inl rfl, by decide⟩
  have htag : (tag texts).toList.head? = none ∨ (tag texts).toList.head? = some ' ' := by
    rw [tag]
    split
    · exact .inl rfl
    · exact .inr (by simp)
  obtain ⟨htake, hdrop⟩ := takeWhile_before hverdict.2 htag
  rw [readVerdict, htake, hdrop, String.ofList_toList, String.ofList_toList,
    if_pos ⟨hverdict.1, isTag_tag⟩]

theorem toList_line : (line U isSep path size sha head).toList =
    (((basename isSep path).toList ++ [' '] ++
      '—' :: (' ' :: ((toString size).toList ++ " bytes ".toList))) ++
      '—' :: (" sha256:".toList ++ (sha.toList.take 16 ++ "… ".toList))) ++
      '—' :: (' ' :: ((verdict U isSep path).toList ++
        (tag (notes U isSep path size head)).toList)) := by
  have hdash : " — ".toList = [' ', '—', ' '] := rfl
  have hbytes : " bytes — sha256:".toList = " bytes ".toList ++ '—' :: " sha256:".toList := rfl
  have hdots : "… — ".toList = "… ".toList ++ ['—', ' '] := rfl
  simp only [line, String.toList_append, hdash, hbytes, hdots, String.toList_ofList,
    List.append_assoc, List.cons_append, List.nil_append]

/-- Every line is read for what it says, whatever the name is. -/
theorem read_line {message : List UInt8} (hsha : sha = Sha256.hexdigest message) :
    readLine (line U isSep path size sha head) = some (reportOf U isSep path size sha head) := by
  have hascii : ∀ c ∈ sha.toList.take 16, isAscii c = true := by
    intro c hc
    apply @ascii_hexdigest message
    rw [← hsha]
    exact List.mem_of_mem_take hc
  have hverdict : '—' ∉ ' ' :: ((verdict U isSep path).toList ++
      (tag (notes U isSep path size head)).toList) := by
    have hword : '—' ∉ (verdict U isSep path).toList := by
      rw [verdict]
      split <;> decide
    have htag := dash_not_mem (@ascii_tag U isSep path size head)
    simp [hword, htag]
  have hhash : '—' ∉ " sha256:".toList ++ (sha.toList.take 16 ++ "… ".toList) := by
    have hhex := dash_not_mem hascii
    have hafter : '—' ∉ "… ".toList := by decide
    have hbefore : '—' ∉ " sha256:".toList := by decide
    rw [List.mem_append, List.mem_append]
    simp only [hhex, hafter, hbefore, or_self, not_false_eq_true]
  have hdigit : ∀ c, c.isDigit = false → c ∉ (toString size).toList := by
    intro c hc hmem
    cases hc.symm.trans (isDigit_of_mem_toString hmem)
  have hsize : '—' ∉ ' ' :: ((toString size).toList ++ " bytes ".toList) := by
    have hnumeral := hdigit '—' (by decide)
    have hafter : '—' ∉ " bytes ".toList := by decide
    rw [List.mem_cons, List.mem_append]
    simp only [hnumeral, hafter, or_self, not_false_eq_true, Char.reduceEq]
  have hnumeral : upToChar ' ' ((toString size).toList ++ " bytes ".toList) = toString size := by
    have hblank := hdigit ' ' (by decide)
    exact (upToChar_before hblank).trans String.ofList_toList
  have hhex : upToChar '…' (sha.toList.take 16 ++ "… ".toList) =
      String.ofList (sha.toList.take 16) := by
    apply upToChar_before
    intro hmem
    exact absurd (hascii _ hmem) (by decide)
  have hdrop : (" sha256:".toList ++ (sha.toList.take 16 ++ "… ".toList)).drop
      " sha256:".length = sha.toList.take 16 ++ "… ".toList := rfl
  rw [readLine, toList_line]
  simp only [List.rsplit_append hverdict, List.rsplit_append hhash, List.rsplit_append hsize,
    Option.bind_eq_bind, Option.bind_some, List.drop_succ_cons, List.drop_zero,
    readVerdict_verdict, hdrop, hnumeral, hhex, List.dropLast_concat, String.ofList_toList]
  rfl

/-! ## Results that are no verdicts -/

/-- A text that can stand at the end of a verdict. -/
def EndsLikeVerdict (cs : List Char) : Prop := ∃ c ∈ ['n', 's', ')'], cs.getLast? = some c

theorem EndsLikeVerdict.of_append (h : EndsLikeVerdict (rest ++ cs)) (hne : cs ≠ []) :
    EndsLikeVerdict cs := by
  obtain ⟨c, hc, hlast⟩ := h
  rw [List.getLast?_append_of_ne_nil _ hne] at hlast
  exact ⟨c, hc, hlast⟩

theorem EndsLikeVerdict.append (h : EndsLikeVerdict cs) : EndsLikeVerdict (rest ++ cs) := by
  obtain ⟨c, hc, hlast⟩ := h
  refine ⟨c, hc, ?_⟩
  rw [List.getLast?_append, hlast]
  rfl

theorem endsLikeVerdict_of_readVerdict {p : String × String} (h : readVerdict cs = some p) :
    EndsLikeVerdict cs := by
  obtain ⟨⟨hverdict, htag⟩, -⟩ := Option.ite_none_right_eq_some.1 h
  have hparts : cs.takeWhile (· ≠ ' ') ++ cs.dropWhile (· ≠ ' ') = cs :=
    List.takeWhile_append_dropWhile
  rw [isTag, Bool.or_eq_true, Bool.and_eq_true, decide_eq_true_iff, decide_eq_true_iff] at htag
  rcases htag with hnil | ⟨-, hlast⟩
  · rw [hnil, List.append_nil] at hparts
    rw [hparts] at hverdict
    rcases hverdict with hword | hword
    · rw [← String.toList_ofList (l := cs), hword]
      exact ⟨'n', by decide, rfl⟩
    · rw [← String.toList_ofList (l := cs), hword]
      exact ⟨'s', by decide, rfl⟩
  · rw [← hparts]
    exact EndsLikeVerdict.append ⟨')', by decide, hlast⟩

theorem endsLikeVerdict_of_readLine {report : Report} (h : readLine text = some report) :
    EndsLikeVerdict text.toList := by
  obtain ⟨⟨before, v⟩, hsplit, h⟩ := Option.bind_eq_some_iff.1 h
  obtain ⟨⟨before', sha⟩, -, h⟩ := Option.bind_eq_some_iff.1 h
  obtain ⟨⟨name, size⟩, -, h⟩ := Option.bind_eq_some_iff.1 h
  obtain ⟨⟨verdict, tag⟩, hread, -⟩ := Option.bind_eq_some_iff.1 h
  have hend := endsLikeVerdict_of_readVerdict hread
  have htext : text.toList = before ++ '—' :: v.take 1 ++ v.drop 1 := by
    rw [(List.rsplit_eq_some.1 hsplit).1, List.append_assoc, List.cons_append,
      List.take_append_drop]
  rw [htext]
  exact hend.append

theorem readLine_of_not_ends (h : ¬ EndsLikeVerdict text.toList) : readLine text = none := by
  cases hread : readLine text with
  | none => rfl
  | some report => exact absurd (endsLikeVerdict_of_readLine hread) h

variable {fs : Fs}

theorem scan_of_ok (hfile : fs.isfile = true) (hsize : fs.getsize = .ok size)
    (hsha : fs.hashed._sha256 Sha256.sha256 = .ok sha) :
    scan U isSep fs path = .ok (line U isSep path size sha fs.peeked.head) := by
  rw [scan, if_pos hfile, hsize, hsha]
  rfl

theorem not_endsLikeVerdict_error (h : ¬ EndsLikeVerdict e.toList) :
    ¬ EndsLikeVerdict (path ++ ": scan error: " ++ e).toList := by
  intro hend
  rw [String.toList_append] at hend
  by_cases hempty : e.toList = []
  · rw [hempty, List.append_nil, String.toList_append] at hend
    obtain ⟨c, hc, hlast⟩ := hend.of_append (by decide)
    cases hlast
    exact absurd hc (by decide)
  · exact h (hend.of_append hempty)

/-- A result is read as a report exactly if a file has been scanned without an error, and then as
the report on that file. -/
theorem read_scan_path (hfails : ∀ e, fs.Fails e → ¬ EndsLikeVerdict e.toList) :
    ∃ text, scan_path U isSep fs path = .ok text ∧ ∀ report, readLine text = some report ↔
      fs.isfile = true ∧ ∃ size sha, fs.getsize = .ok size ∧
        fs.hashed._sha256 Sha256.sha256 = .ok sha ∧
          report = reportOf U isSep path size sha fs.peeked.head := by
  cases hfile : fs.isfile with
  | false =>
    have hscan : scan U isSep fs path = .ok (path ++ ": not a file") := by
      rw [scan, hfile]
      rfl
    refine ⟨_, scan_path_of_ok hscan, fun report => ?_⟩
    have hend : ¬ EndsLikeVerdict (path ++ ": not a file").toList := by
      intro h
      rw [String.toList_append] at h
      obtain ⟨c, hc, hlast⟩ := h.of_append (by decide)
      cases hlast
      exact absurd hc (by decide)
    rw [readLine_of_not_ends hend]
    simp
  | true =>
    cases hscan : scan U isSep fs path with
    | error e =>
      refine ⟨_, scan_path_of_error hscan, fun report => ?_⟩
      have herror := (scan_eq_error hfile).1 hscan
      rw [readLine_of_not_ends (not_endsLikeVerdict_error (hfails e herror))]
      refine iff_of_false (Option.some_ne_none _).symm ?_
      rintro ⟨-, size, sha, hsize, hsha, -⟩
      cases hscan.symm.trans (scan_of_ok hfile hsize hsha)
    | ok text =>
      refine ⟨text, scan_path_of_ok hscan, fun report => ?_⟩
      have hparts := hscan
      rw [scan, if_pos hfile] at hparts
      obtain ⟨size, hsize, hparts⟩ := Except.bind_eq_ok.1 hparts
      obtain ⟨sha, hsha, hparts⟩ := Except.bind_eq_ok.1 hparts
      obtain ⟨message, hmessage⟩ := Opened.sha256_eq_ok hsha
      rw [← Except.ok.inj hparts, read_line hmessage]
      constructor
      · intro h
        exact ⟨rfl, size, sha, hsize, hsha, (Option.some.inj h).symm⟩
      · rintro ⟨-, size', sha', hsize', hsha', rfl⟩
        cases hsize.symm.trans hsize'
        cases hsha.symm.trans hsha'
        rfl

/-- A file named like a verdict, of which not even the size is told. -/
theorem read_scan_path_denied : ∃ text,
    scan_path .ascii (· == '/') ⟨true, .error "[Errno 13] Permission denied: 'a'",
      ⟨.ok (), fun _ => .ok [], .ok ()⟩, ⟨.ok (), fun _ => .ok [], .ok ()⟩⟩
        "a — 1 bytes — sha256:0… — clean" = .ok text ∧ readLine text = none := by
  have hfails : ∀ e, Fs.Fails ⟨true, .error "[Errno 13] Permission denied: 'a'",
      ⟨.ok (), fun _ => .ok [], .ok ()⟩, ⟨.ok (), fun _ => .ok [], .ok ()⟩⟩ e →
        ¬ EndsLikeVerdict e.toList := by
    rintro e (he | ⟨size, hsize, -⟩) ⟨c, hc, hlast⟩
    · cases he
      have hquote : "[Errno 13] Permission denied: 'a'".toList.getLast? = some '\'' := by
        decide +kernel
      cases hlast.symm.trans hquote
      exact absurd hc (by decide)
    · cases hsize
  obtain ⟨text, htext, hread⟩ := @read_scan_path .ascii (· == '/')
    "a — 1 bytes — sha256:0… — clean" _ hfails
  refine ⟨text, htext, Option.eq_none_iff_forall_ne_some.2 fun report h => ?_⟩
  obtain ⟨-, size, sha, hsize, -⟩ := (hread report).1 h
  cases hsize

end Simian.FileScanner
