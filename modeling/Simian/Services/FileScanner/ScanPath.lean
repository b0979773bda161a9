import Simian.Lib.Failing
import Simian.Lib.Lines
import Simian.Services.FileScanner
import Simian.Services.FileScanner.Extensions

/-! # `scan_path`

What is scanned is given by the answers of the operating system, each of which can be an error. An
error is caught and becomes part of the result, and so does the path. `scan_path_oneLine_iff` says
when the result is the one line that the docstring promises. -/

namespace Simian.FileScanner
open Paths Chunks

/-- The answers to one `open` and to what is done with the file, errors by their text. -/
structure Opened where
  opened : Except String Unit
  read : Nat → Except String (List UInt8)
  closed : Except String Unit

structure Fs where
  isfile : Bool
  getsize : Except String Nat
  /-- The file as `_sha256` opens it. -/
  hashed : Opened
  /-- The file as it is opened for its head. -/
  peeked : Opened

variable {α σ δ : Type}

/-- `with open(path, "rb") as f:`, which closes the file in either case. An error of the closing
takes the place of one of the body. -/
def Opened.within (f : Opened) (body : Except String α) : Except String α :=
  f.opened.bind fun _ => f.closed.bind fun _ => body

/-- `while True`, with the number of reads so far. -/
def Opened.hashLoop (f : Opened) (D : Digest UInt8 σ δ) (max_bytes n total : Nat) (h : σ) :
    Except String σ :=
  match f.read n with
  | .error e => .error e
  | .ok chunk =>
    if _h : chunk.length = 0 then .ok h
    else
      let total' := total + chunk.length
      let h := D.update h chunk
      if max_bytes ≤ total' then .ok h
      else f.hashLoop D max_bytes (n + 1) total' h
termination_by max_bytes - total

def Opened._sha256 (f : Opened) (D : Digest UInt8 σ δ) (max_bytes : Nat := 20000000) :
    Except String δ :=
  f.within ((f.hashLoop D max_bytes 0 0 D.start).map D.result)

def isBase64 (b : UInt8) : Bool :=
  0x41 ≤ b && b ≤ 0x5a || 0x61 ≤ b && b ≤ 0x7a || 0x30 ≤ b && b ≤ 0x39 || b = 0x2b || b = 0x2f

/-- `re.search(rb"[A-Za-z0-9+/]{200,}={0,2}", head)` finds something. -/
def base64_like (head : List UInt8) : Bool :=
  head.tails.any fun rest => 200 ≤ rest.length && (rest.take 200).all isBase64

/-- The first bytes, for which any error is passed over. -/
def Opened.head (f : Opened) : Option (List UInt8) := (f.within (f.read 0)).toOption

variable (U : Unicode) (isSep : Char → Bool)

def notes (path : String) (size : Nat) (head : Option (List UInt8)) : List String :=
  let ext := U.lower (splitext isSep path).2
  (if size > 200000000 then ["large"] else []) ++
  (if ext ∈ RISKY_EXT then ["risky-ext:" ++ ext] else []) ++
  (if _has_double_ext U (basename isSep path) then ["double-extension"] else []) ++
  (if head.any base64_like then ["base64-like"] else [])

def verdict (path : String) : String :=
  if U.lower (splitext isSep path).2 ∈ RISKY_EXT ∨ _has_double_ext U (basename isSep path) then
    "suspicious"
  else "clean"

def tag (notes : List String) : String :=
  if notes = [] then "" else " (" ++ ", ".intercalate notes ++ ")"

/-- The line of a scan that had an answer to everything. -/
def line (path : String) (size : Nat) (sha : String) (head : Option (List UInt8)) : String :=
  basename isSep path ++ " — " ++ toString size ++ " bytes — sha256:" ++
    String.ofList (sha.toList.take 16) ++ "… — " ++ verdict U isSep path ++
    tag (notes U isSep path size head)

/-- The body of the `try`. -/
def scan (f : Fs) (path : String) : Except String String :=
  if f.isfile then do
    let size ← f.getsize
    let sha ← f.hashed._sha256 Sha256.sha256
    .ok (line U isSep path size sha f.peeked.head)
  else .ok (path ++ ": not a file")

def scan_path (f : Fs) (path : String) : Except String String :=
  tryCatch (scan U isSep f path) fun e => .ok (path ++ ": scan error: " ++ e)

variable {U isSep} {f : Opened} {D : Digest UInt8 σ δ} {max_bytes n total size : Nat} {h : σ}
  {path name e sha : String} {head : Option (List UInt8)}

/-! ## The hash -/

/-- The reads of a file that does not change while it is read. -/
def Opened.Holds (f : Opened) (b : List UInt8) : Prop :=
  ∀ n, f.read n = .ok ((b.drop (n * (1024 * 1024))).take (1024 * 1024))

theorem Opened.hashLoop_of_holds {b : List UInt8} (hb : f.Holds b) :
    f.hashLoop D max_bytes n total h =
      .ok (FileScanner.hashLoop D max_bytes total h (b.drop (n * (1024 * 1024)))) := by
  fun_induction f.hashLoop D max_bytes n total h with
  | case1 n total h e hread =>
    rw [hb n] at hread
    cases hread
  | case2 n total h chunk hread hempty =>
    rw [hb n] at hread
    cases hread
    rw [FileScanner.hashLoop, dif_pos hempty]
  | case3 n total h chunk hread hempty total' h' hreached =>
    rw [hb n] at hread
    cases hread
    rw [FileScanner.hashLoop, dif_neg hempty, if_pos hreached]
  | case4 n total h chunk hread hempty total' h' hmore ih =>
    rw [hb n] at hread
    cases hread
    rw [FileScanner.hashLoop, dif_neg hempty, if_neg hmore, ih, List.drop_drop, Nat.succ_mul]

/-- Where nothing fails, this is the hash of the content. -/
theorem Opened.sha256_of_holds {b : List UInt8} (hb : f.Holds b) (hopened : f.opened = .ok ())
    (hclosed : f.closed = .ok ()) :
    f._sha256 D max_bytes = .ok (FileScanner._sha256 D b max_bytes) := by
  rw [Opened._sha256, Opened.within, hopened, hclosed, hashLoop_of_holds hb, Nat.zero_mul,
    List.drop_zero]
  rfl

/-- What the first reads gave. -/
def Opened.got (f : Opened) : Nat → Nat
  | 0 => 0
  | n + 1 => f.got n + ((f.read n).toOption.getD []).length

/-- From the `n`-th on, a read gives an error, and those before it more of the file, less than the
limit. -/
def Opened.ReadFails (f : Opened) (max_bytes n : Nat) (e : String) : Prop :=
  ∃ k ≥ n, f.read k = .error e ∧
    ∀ m ≥ n, m < k → f.got m < f.got (m + 1) ∧ f.got (m + 1) < max_bytes

theorem Opened.readFails_iff : f.ReadFails max_bytes n e ↔ f.read n = .error e ∨
    (f.got n < f.got (n + 1) ∧ f.got (n + 1) < max_bytes) ∧ f.ReadFails max_bytes (n + 1) e := by
  constructor
  · intro hfails
    obtain ⟨k, hk, hread, hmore⟩ := hfails
    rcases Nat.eq_or_lt_of_le hk with rfl | hlt
    · exact .inl hread
    · exact .inr ⟨hmore n le_rfl hlt, k, hlt, hread, fun m hm => hmore m (Nat.le_of_succ_le hm)⟩
  · intro hfails
    rcases hfails with hread | ⟨hn, k, hk, hread, hmore⟩
    · exact ⟨n, le_rfl, hread, fun m hm hlt => absurd hm (Nat.not_le.2 hlt)⟩
    · refine ⟨k, Nat.le_of_succ_le hk, hread, fun m hm hlt => ?_⟩
      rcases Nat.eq_or_lt_of_le hm with rfl | hm
      · exact hn
      · exact hmore m hm hlt

theorem Opened.got_succ {chunk : List UInt8} (h : f.read n = .ok chunk) :
    f.got (n + 1) = f.got n + chunk.length := by
  rw [got, h]
  rfl

theorem Opened.hashLoop_eq_error (ht : total = f.got n) :
    f.hashLoop D max_bytes n total h = .error e ↔ f.ReadFails max_bytes n e := by
  fun_induction f.hashLoop D max_bytes n total h with
  | case1 n total h e' hread =>
    have hsame : f.got (n + 1) = f.got n := by
      rw [got, hread]
      rfl
    rw [readFails_iff, hread, hsame]
    simp
  | case2 n total h chunk hread hempty =>
    rw [readFails_iff, hread, got_succ hread, hempty]
    simp
  | case3 n total h chunk hread hempty total' h' hreached =>
    have hlimit : ¬ f.got (n + 1) < max_bytes := by
      rw [got_succ hread, ← ht]
      exact Nat.not_lt.2 hreached
    rw [readFails_iff, hread]
    simp [hlimit]
  | case4 n total h chunk hread hempty total' h' hmore ih =>
    have htotal : total' = f.got (n + 1) := by
      rw [got_succ hread, ← ht]
    have hgot : f.got n < f.got (n + 1) ∧ f.got (n + 1) < max_bytes := by
      rw [← htotal, ← ht]
      exact ⟨Nat.lt_add_of_pos_right (Nat.pos_of_ne_zero hempty), Nat.not_le.1 hmore⟩
    rw [ih htotal, readFails_iff (n := n), hread, and_iff_right hgot]
    simp

/-- The error that comes out of the hashing. One of the closing takes the place of one of a read. -/
def Opened.Fails (f : Opened) (max_bytes : Nat) (e : String) : Prop :=
  f.opened = .error e ∨ f.opened = .ok () ∧
    (f.closed = .error e ∨ f.closed = .ok () ∧ f.ReadFails max_bytes 0 e)

theorem Opened.sha256_eq_error : f._sha256 D max_bytes = .error e ↔ f.Fails max_bytes e := by
  have hloop : f.hashLoop D max_bytes 0 0 D.start = .error e ↔ f.ReadFails max_bytes 0 e :=
    hashLoop_eq_error rfl
  have hmap : (f.hashLoop D max_bytes 0 0 D.start).map D.result = .error e ↔
      f.hashLoop D max_bytes 0 0 D.start = .error e := by
    cases f.hashLoop D max_bytes 0 0 D.start <;> simp [Except.map]
  rw [_sha256, within, Opened.Fails, ← hloop, ← hmap]
  simp only [Except.bind_eq_error, Unique.exists_iff]

theorem Opened.sha256_eq_ok {d : δ} (h : f._sha256 D max_bytes = .ok d) : ∃ s, d = D.result s := by
  rw [_sha256, within, Except.bind_eq_ok] at h
  obtain ⟨-, -, h⟩ := h
  obtain ⟨-, -, h⟩ := Except.bind_eq_ok.1 h
  cases hloop : f.hashLoop D max_bytes 0 0 D.start with
  | error e =>
    rw [hloop] at h
    cases h
  | ok s =>
    rw [hloop] at h
    exact ⟨s, (Except.ok.inj h).symm⟩

/-! ## The notes -/

theorem mem_notes {note : String} : note ∈ notes U isSep path size head ↔
    size > 200000000 ∧ note = "large" ∨
    U.lower (splitext isSep path).2 ∈ RISKY_EXT ∧
      note = "risky-ext:" ++ U.lower (splitext isSep path).2 ∨
    _has_double_ext U (basename isSep path) = true ∧ note = "double-extension" ∨
    head.any base64_like = true ∧ note = "base64-like" := by
  simp only [notes, List.mem_append, List.mem_ite_nil_right, List.mem_singleton, or_assoc]

theorem double_extension_mem :
    "double-extension" ∈ notes U isSep path size head ↔
      _has_double_ext U (basename isSep path) = true := by
  have hrisky : ∀ ext : String, "double-extension" ≠ "risky-ext:" ++ ext := by
    intro ext heq
    have hhead := congrArg (fun s => s.toList.head?) heq
    simp at hhead
  simp [mem_notes, hrisky]

/-- The checks agree on a name, and where it is scanned the note of the second is not without that
of the first, exactly if the name is not dots, a text without dots, and a risky extension. -/
theorem extension_checks_iff (h : ∀ c ∈ name.toList, isSep c = false) :
    ChecksAgree U isSep name ∧
        (∀ path size head, basename isSep path = name →
          "double-extension" ∈ notes U isSep path size head →
            "risky-ext:" ++ U.lower (splitext isSep path).2 ∈ notes U isSep path size head) ↔
      ¬ DotsThenRisky U name := by
  rw [← checksAgree_iff h]
  refine and_iff_left_of_imp fun hagree => ?_
  intro path size head hbase hdouble
  rw [double_extension_mem, hbase] at hdouble
  have hext : (splitext isSep path).2 = (splitext isSep name).2 := by
    rw [splitext_ext, hbase, splitext_name h]
  rw [mem_notes, hext]
  exact .inr (.inl ⟨(hagree.1 hdouble).1, rfl⟩)

theorem extension_checks_invoice :
    (∀ c ∈ "invoice.pdf.exe".toList, (c == '/') = false) ∧
      ChecksAgree .ascii (· == '/') "invoice.pdf.exe" ∧
      ∀ path size head, basename (· == '/') path = "invoice.pdf.exe" →
        "double-extension" ∈ notes .ascii (· == '/') path size head →
          "risky-ext:" ++ Unicode.ascii.lower (splitext (· == '/') path).2 ∈
            notes .ascii (· == '/') path size head := by
  have hname : ∀ c ∈ "invoice.pdf.exe".toList, (c == '/') = false := by
    have hall : "invoice.pdf.exe".toList.all (· != '/') = true := by
      decide +kernel
    intro c hc
    simpa using List.all_eq_true.1 hall c hc
  have hdots : ¬ DotsThenRisky .ascii "invoice.pdf.exe" := by
    intro hdots
    obtain ⟨k, rest, part, heq, -⟩ := hdots
    have hi : "invoice.pdf.exe".toList.head? = some 'i' := by decide
    rw [heq, List.replicate_succ] at hi
    simp at hi
  exact ⟨hname, (extension_checks_iff hname).2 hdots⟩

/-- Two dots and `exe`. -/
theorem extension_checks_dots : _has_double_ext .ascii "..exe" = true ∧
    ¬ ChecksAgree .ascii (· == '/') "..exe" ∧
      notes .ascii (· == '/') "..exe" 0 (some []) = ["double-extension"] := by
  have hnotes : notes .ascii (· == '/') "..exe" 0 (some []) = ["double-extension"] := by
    decide +kernel
  have hdouble : _has_double_ext .ascii "..exe" = true := by
    decide +kernel
  have hext : (splitext (· == '/') "..exe").2 = "" := by
    decide +kernel
  refine ⟨hdouble, fun hagree => ?_, hnotes⟩
  have hrisky := (hagree.1 hdouble).1
  rw [hext] at hrisky
  exact lower_empty hrisky

/-! ## The result -/

theorem oneLine_hexdigest {k : Nat} {message : List UInt8} :
    OneLine (String.ofList ((Sha256.hexdigest message).toList.take k)) := by
  have hdigest : OneLine (Sha256.hexdigest message) := by
    intro c hc
    rw [Sha256.hexdigest, String.toList_ofList, List.mem_flatMap] at hc
    obtain ⟨w, -, hc⟩ := hc
    apply OneLine.of_padded (b := 16) (w := 8) (n := w.toNat) (by decide) (by decide)
    rwa [String.toList_ofList]
  rw [← String.ofList_toList (s := Sha256.hexdigest message)] at hdigest
  exact hdigest.of_subset (List.take_subset k _)

theorem oneLine_of_mem_notes {note : String} (h : note ∈ notes U isSep path size head) :
    OneLine note := by
  have hrisky : ∀ ext ∈ RISKY_EXT, OneLine ("risky-ext:" ++ ext) := by
    decide +kernel
  rcases mem_notes.1 h with ⟨-, rfl⟩ | ⟨hext, rfl⟩ | ⟨-, rfl⟩ | ⟨-, rfl⟩
  · decide
  · exact hrisky _ hext
  · decide
  · decide

theorem oneLine_tag {texts : List String} (h : ∀ t ∈ texts, OneLine t) : OneLine (tag texts) := by
  rw [tag]
  split
  · decide
  · rw [OneLine.append_iff, OneLine.append_iff]
    exact ⟨⟨by decide, OneLine.intercalate (by decide) h⟩, by decide⟩

theorem oneLine_verdict : OneLine (verdict U isSep path) := by
  rw [verdict]
  split
  · decide
  · decide

/-- Of what stands in the line only the name could break it. -/
theorem line_oneLine_iff {message : List UInt8} (hsha : sha = Sha256.hexdigest message) :
    OneLine (line U isSep path size sha head) ↔ OneLine (basename isSep path) := by
  have htag : OneLine (tag (notes U isSep path size head)) :=
    oneLine_tag fun _ => oneLine_of_mem_notes
  have hdash : OneLine " — " := by decide
  have hbytes : OneLine " bytes — sha256:" := by decide
  have hdots : OneLine "… — " := by decide
  rw [line, hsha]
  simp only [OneLine.append_iff, OneLine.of_toString, oneLine_hexdigest, oneLine_verdict, htag,
    hdash, hbytes, hdots, and_true]

/-- An error that the scan of a regular file meets. -/
def Fs.Fails (fs : Fs) (e : String) : Prop :=
  fs.getsize = .error e ∨ ∃ size, fs.getsize = .ok size ∧ fs.hashed.Fails 20000000 e

variable {fs : Fs} {text : String}

theorem scan_eq_error (hfile : fs.isfile = true) :
    scan U isSep fs path = .error e ↔ fs.Fails e := by
  have hsha : ∀ size, (fs.hashed._sha256 Sha256.sha256).bind
      (fun sha => .ok (line U isSep path size sha fs.peeked.head)) = Except.error e ↔
        fs.hashed.Fails 20000000 e := by
    intro size
    rw [Except.bind_eq_error, Opened.sha256_eq_error]
    simp
  rw [scan, if_pos hfile]
  exact Except.bind_eq_error.trans (or_congr_right (exists_congr fun size =>
    and_congr_right fun _ => hsha size))

theorem scan_eq_ok (hfile : fs.isfile = true) (h : scan U isSep fs path = .ok text) :
    OneLine text ↔ OneLine (basename isSep path) := by
  rw [scan, if_pos hfile] at h
  obtain ⟨size, -, h⟩ := Except.bind_eq_ok.1 h
  obtain ⟨sha, hsha, h⟩ := Except.bind_eq_ok.1 h
  obtain ⟨message, hmessage⟩ := Opened.sha256_eq_ok hsha
  rw [← Except.ok.inj h]
  exact line_oneLine_iff hmessage

/-- The texts that the result takes over have no line break: the path and the error's text of a scan
that fails, the name in one that does not. -/
structure Fs.Printable (fs : Fs) (isSep : Char → Bool) (path : String) : Prop where
  noFile : fs.isfile = false → OneLine path
  error : ∀ e, fs.isfile = true → fs.Fails e → OneLine path ∧ OneLine e
  name : fs.isfile = true → (∀ e, ¬ fs.Fails e) → OneLine (basename isSep path)

theorem scan_path_of_error (h : scan U isSep fs path = .error e) :
    scan_path U isSep fs path = .ok (path ++ ": scan error: " ++ e) := by
  rw [scan_path, h]
  rfl

theorem scan_path_of_ok (h : scan U isSep fs path = .ok text) :
    scan_path U isSep fs path = .ok text := by
  rw [scan_path, h]
  rfl

theorem exists_oneLine_iff {x : Except String String} (h : x = .ok text) :
    (∃ t, x = .ok t ∧ OneLine t) ↔ OneLine text := by
  rw [h]
  simp

theorem Fs.printable_noFile (hfile : fs.isfile = false) :
    fs.Printable isSep path ↔ OneLine path := by
  have hnot : fs.isfile ≠ true := ne_true_of_eq_false hfile
  exact ⟨fun h => h.noFile hfile,
    fun h => ⟨fun _ => h, fun _ hfile' => absurd hfile' hnot, fun hfile' => absurd hfile' hnot⟩⟩

theorem Fs.printable_file (hfile : fs.isfile = true) : fs.Printable isSep path ↔
    (∀ e, fs.Fails e → OneLine path ∧ OneLine e) ∧
      ((∀ e, ¬ fs.Fails e) → OneLine (basename isSep path)) := by
  have hnot : fs.isfile ≠ false := ne_false_of_eq_true hfile
  exact ⟨fun h => ⟨fun e => h.error e hfile, h.name hfile⟩,
    fun h => ⟨fun hfile' => absurd hfile' hnot, fun e _ => h.1 e, fun _ => h.2⟩⟩

/-- `scan_path` returns, and one line exactly if the texts that it takes over are of one line. -/
theorem scan_path_oneLine_iff : (∃ text, scan_path U isSep fs path = .ok text ∧ OneLine text) ↔
    fs.Printable isSep path := by
  cases hfile : fs.isfile with
  | false =>
    have hscan : scan U isSep fs path = .ok (path ++ ": not a file") := by
      rw [scan, hfile]
      rfl
    rw [exists_oneLine_iff (scan_path_of_ok hscan), OneLine.append_iff,
      Fs.printable_noFile hfile]
    apply and_iff_left
    decide
  | true =>
    rw [Fs.printable_file hfile]
    cases hscan : scan U isSep fs path with
    | error e =>
      have hfails : fs.Fails e := (scan_eq_error hfile).1 hscan
      have hcolon : OneLine ": scan error: " := by decide
      rw [exists_oneLine_iff (scan_path_of_error hscan), OneLine.append_iff, OneLine.append_iff,
        and_iff_left hcolon]
      constructor
      · intro hline
        refine ⟨fun e' he' => ?_, fun hnone => absurd hfails (hnone e)⟩
        cases hscan.symm.trans ((scan_eq_error hfile).2 he')
        exact hline
      · intro hprint
        exact hprint.1 e hfails
    | ok text =>
      have hnone : ∀ e, ¬ fs.Fails e := by
        intro e he
        cases hscan.symm.trans ((scan_eq_error hfile).2 he)
      rw [exists_oneLine_iff (scan_path_of_ok hscan), scan_eq_ok hfile hscan]
      constructor
      · intro hname
        exact ⟨fun e he => absurd he (hnone e), fun _ => hname⟩
      · intro hprint
        exact hprint.2 hnone

/-- An empty file, whose name has a line break. -/
theorem scan_path_two_lines :
    ¬ ∃ text, scan_path .ascii (· == '/')
      ⟨true, .ok 0, ⟨.ok (), fun _ => .ok [], .ok ()⟩, ⟨.ok (), fun _ => .ok [], .ok ()⟩⟩
        "clean\nfile" = .ok text ∧ OneLine text := by
  have hsha : Opened._sha256 ⟨.ok (), fun _ => .ok [], .ok ()⟩ Sha256.sha256 =
      .ok (Sha256.hexdigest []) := by
    have hholds : Opened.Holds ⟨.ok (), fun _ => .ok [], .ok ()⟩ [] := by
      intro n
      rw [List.drop_nil, List.take_nil]
    rw [Opened.sha256_of_holds hholds rfl rfl, sha256_eq, List.take_nil]
    rfl
  have hscan : scan .ascii (· == '/')
      ⟨true, .ok 0, ⟨.ok (), fun _ => .ok [], .ok ()⟩, ⟨.ok (), fun _ => .ok [], .ok ()⟩⟩
        "clean\nfile" =
      .ok (line .ascii (· == '/') "clean\nfile" 0 (Sha256.hexdigest []) (some [])) := by
    rw [scan, if_pos rfl, hsha]
    rfl
  rw [exists_oneLine_iff (scan_path_of_ok hscan), line_oneLine_iff rfl]
  decide +kernel

end Simian.FileScanner
