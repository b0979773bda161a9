import Simian.Lib.Failing
import Simian.Lib.Json.RoundTrip
import Simian.Lib.Paths

/-! # The memory of `memory/memory_manager.py`

A `State` is a manager and the file at its `db_path`. Each function gives the new state and its
outcome; an exception leaves behind what had been done by then. Writing the file has one fault,
which the environment chooses: `some n` is an error after `n` characters have reached the file,
which `open(.., "w")` has truncated. A call that gets as far as its write leaves the document of
the completed new memory, cut where the writing ended (`Call.run_eq`). -/

universe u v

namespace Simian.MemoryManager
open Json

inductive Error
  | JSONDecodeError
  | FileNotFoundError
  | IsADirectoryError
  | KeyError
  | AttributeError
  | TypeError
  | ValueError
  | OSError
  deriving DecidableEq, Repr

/-- A `db_path`, and which characters are separators. -/
structure DbPath where
  isSep : Char → Bool
  path : String

/-- `os.path.dirname(db_path)` -/
def DbPath.dirname (db_path : DbPath) : String := Paths.dirname db_path.isSep db_path.path

/-- The path does not go on behind its directory, so it is there when the directory is. -/
def DbPath.IsDirectory (db_path : DbPath) : Prop :=
  Paths.basename db_path.isSep db_path.path ∈ ["", ".", ".."]

instance : DecidablePred DbPath.IsDirectory := fun db_path =>
  inferInstanceAs (Decidable (Paths.basename db_path.isSep db_path.path ∈ ["", ".", ".."]))

/-- The system takes no path with this character. -/
def DbPath.HasNul (db_path : DbPath) : Prop := '\x00' ∈ db_path.path.toList

instance : DecidablePred DbPath.HasNul := fun db_path =>
  inferInstanceAs (Decidable ('\x00' ∈ db_path.path.toList))

/-- The path has a directory and a name in it, and can be that of a file. -/
structure DbPath.NamesFile (db_path : DbPath) : Prop where
  dirname : db_path.dirname ≠ ""
  name : ¬ db_path.IsDirectory
  nul : ¬ db_path.HasNul

/-- The default of the constructor. -/
def simian_memory : DbPath := ⟨(· = '/'), "memory/simian_memory.db"⟩

theorem simian_memory_namesFile : simian_memory.NamesFile :=
  ⟨by decide, by decide, by decide⟩

structure State (α : Type u) where
  file : Option (List Char)
  memory : Obj α

variable {α : Type u}

/-! ## The operations on `self.memory` -/

def default_memory : Obj α :=
  .dict [(.str "conversations", .list []), (.str "short_term", .dict []),
    (.str "long_term", .dict [])]

/-- `m[key].append(x)`. -/
def append (m : Obj α) (key : String) (x : Obj α) : Except Error (Obj α) :=
  match m with
  | .dict kvs =>
    match kvs.lookup (.str key) with
    | none => .error .KeyError
    | some (.list xs) => .ok (.dict (Dict.set kvs (.str key) (.list (xs ++ [x]))))
    | some _ => .error .AttributeError
  | _ => .error .TypeError

/-- `if key not in m: m[key] = []`. -/
def setDefault (m : Obj α) (key : String) : Except Error (Obj α) :=
  match m with
  | .dict kvs =>
    match kvs.lookup (.str key) with
    | none => .ok (.dict (Dict.set kvs (.str key) (.list [])))
    | some _ => .ok (.dict kvs)
  | _ => .error .TypeError

def voiceCommand (timestamp : String) (voice_command : Obj α) : Obj α :=
  .dict [(.str "timestamp", .str timestamp), (.str "command", voice_command)]

def conversation (user_input simian_response : Obj α) : Obj α :=
  .dict [(.str "user", user_input), (.str "simian", simian_response)]

/-- The calls that change the memory, with their arguments. -/
inductive Call (α : Type u)
  | log (timestamp : String) (voice_command : Obj α)
  | store (user_input simian_response : Obj α)
  | clear

/-- The completed new memory of a call; an error if the call raises before it writes. -/
def Call.completes (m : Obj α) : Call α → Except Error (Obj α)
  | .log timestamp voice_command =>
    (setDefault m "voice_commands").bind fun m =>
      append m "voice_commands" (voiceCommand timestamp voice_command)
  | .store user_input simian_response =>
    append m "conversations" (conversation user_input simian_response)
  | .clear => .ok default_memory

def Call.isClear : Call α → Bool
  | .clear => true
  | _ => false

/-- What the call is given to write has nothing in it that is rejected. -/
def Call.Serialisable : Call α → Prop
  | .log _ voice_command => voice_command.Writable
  | .store user_input simian_response => user_input.Writable ∧ simian_response.Writable
  | .clear => True

variable {m m' x : Obj α} {key : String}

theorem append_eq_ok : append m key x = .ok m' ↔
    ∃ kvs xs, m = .dict kvs ∧ kvs.lookup (.str key) = some (.list xs) ∧
      m' = .dict (Dict.set kvs (.str key) (.list (xs ++ [x]))) := by
  constructor
  · intro h
    unfold append at h
    split at h
    · rename_i kvs
      split at h
      · cases h
      · rename_i xs hxs
        cases h
        exact ⟨kvs, xs, rfl, hxs, rfl⟩
      · cases h
    · cases h
  · rintro ⟨kvs, xs, rfl, hxs, rfl⟩
    simp only [append, hxs]

theorem setDefault_eq_ok : setDefault m key = .ok m' ↔
    ∃ kvs, m = .dict kvs ∧ m' = .dict (if (kvs.lookup (.str key)).isSome then kvs
      else Dict.set kvs (.str key) (.list [])) := by
  constructor
  · intro h
    unfold setDefault at h
    split at h
    · rename_i kvs
      refine ⟨kvs, rfl, ?_⟩
      split at h
      · rename_i hnone
        cases h
        rw [hnone]
        rfl
      · rename_i hsome
        cases h
        rw [hsome]
        rfl
    · cases h
  · rintro ⟨kvs, rfl, rfl⟩
    cases hl : kvs.lookup (.str key) with
    | none => simp [setDefault, hl]
    | some x => simp [setDefault, hl]

theorem default_memory_plain : (default_memory : Obj α).Plain := by
  simp [default_memory, Obj.Plain, Obj.PlainMembers, Obj.PlainElems, Dict.keys]

theorem Call.completes_log {timestamp : String} {voice_command : Obj α} :
    (Call.log timestamp voice_command).completes m = .ok m' ↔
      ∃ m₁, setDefault m "voice_commands" = .ok m₁ ∧
        append m₁ "voice_commands" (voiceCommand timestamp voice_command) = .ok m' :=
  Except.bind_eq_ok

theorem Call.completes_dict {c : Call α} (h : c.completes m = .ok m') : ∃ kvs, m' = .dict kvs := by
  cases c with
  | log timestamp voice_command =>
    obtain ⟨m₁, -, h⟩ := completes_log.1 h
    obtain ⟨kvs, xs, -, -, rfl⟩ := append_eq_ok.1 h
    exact ⟨_, rfl⟩
  | store user_input simian_response =>
    obtain ⟨kvs, xs, -, -, rfl⟩ := append_eq_ok.1 h
    exact ⟨_, rfl⟩
  | clear =>
    cases h
    exact ⟨_, rfl⟩

/-! ## What is rejected stays -/

theorem append_writable (h : append m key x = .ok m') : m'.Writable ↔ m.Writable ∧ x.Writable := by
  obtain ⟨kvs, xs, rfl, hxs, rfl⟩ := append_eq_ok.1 h
  have hlist : (Obj.list (xs ++ [x])).Writable ↔ (Obj.list xs).Writable ∧ x.Writable := by
    simp only [Obj.Writable, Obj.writableElems_iff, List.forall_mem_append,
      List.forall_mem_singleton]
  rw [Obj.writable_set Key.str_ne_foreign, hlist]
  · refine ⟨fun h => ⟨h.1, h.2.2⟩, fun h => ⟨h.1, ?_, h.2⟩⟩
    exact (Obj.writableMembers_iff.1 h.1 _ (Dict.mem_of_lookup hxs)).2
  · intro y hy hx
    cases hxs.symm.trans hy
    exact (hlist.1 hx).1

theorem setDefault_writable (h : setDefault m key = .ok m') : m'.Writable ↔ m.Writable := by
  obtain ⟨kvs, rfl, rfl⟩ := setDefault_eq_ok.1 h
  split
  · rfl
  · rename_i hnone
    rw [Obj.writable_set Key.str_ne_foreign]
    · exact and_iff_left trivial
    · intro y hy
      rw [hy] at hnone
      exact absurd rfl hnone

/-- The completed new memory has something rejected if the old one had or an argument has. -/
theorem Call.completes_writable {c : Call α} (h : c.completes m = .ok m') :
    m'.Writable ↔ (c.isClear = true ∨ m.Writable) ∧ c.Serialisable := by
  cases c with
  | log timestamp voice_command =>
    obtain ⟨m₁, hm, h⟩ := completes_log.1 h
    rw [append_writable h, setDefault_writable hm]
    simp [voiceCommand, isClear, Serialisable, Obj.Writable, Obj.WritableMembers]
  | store user_input simian_response =>
    rw [append_writable h]
    simp [conversation, isClear, Serialisable, Obj.Writable, Obj.WritableMembers]
  | clear =>
    cases h
    simp [isClear, Serialisable, default_memory_plain.writable]

/-! ## Reading and writing the file -/

variable [Scalar α]

/-- What `json.dump(o, f, indent=4)` leaves in the file, and its outcome. -/
def write (fault : Option Nat) (o : Obj α) : List Char × Except Error Unit :=
  match fault with
  | some n => ((dump 4 o).text.take n, .error .OSError)
  | none => ((dump 4 o).text, if (dump 4 o).done then .ok () else .error .TypeError)

def _initialize_memory (fault : Option Nat) : List Char × Except Error Unit :=
  write fault (default_memory : Obj α)

def _load_memory (file : Option (List Char)) : Except Error (Obj α) :=
  match file with
  | none => .error .FileNotFoundError
  | some p =>
    match load p with
    | none => .error .JSONDecodeError
    | some m => .ok m

/-- `os.makedirs(name, exist_ok=True)` -/
def makedirs (name : String) : Except Error Unit :=
  if name = "" then .error .FileNotFoundError
  else if '\x00' ∈ name.toList then .error .ValueError
  else .ok ()

/-- `__init__`: the file after the constructor, and `self.memory`. -/
def init (db_path : DbPath) (fault : Option Nat) (file : Option (List Char)) :
    Option (List Char) × Except Error (Obj α) :=
  match makedirs db_path.dirname with
  | .error e => (file, .error e)
  | .ok () =>
    -- Such a path exists by now, and `_load_memory` cannot open it.
    if db_path.IsDirectory then (file, .error .IsADirectoryError)
    -- No file has such a name, and `_initialize_memory` cannot open it.
    else if db_path.HasNul then (file, .error .ValueError)
    else
      match file with
      | some p => (some p, _load_memory (some p))
      | none =>
        match _initialize_memory (α := α) fault with
        | (p, .error e) => (some p, .error e)
        | (p, .ok ()) => (some p, _load_memory (some p))

def save_memory (fault : Option Nat) (s : State α) : State α × Except Error Unit :=
  let (p, r) := write fault s.memory
  ({ s with file := some p }, r)

/-! ## The calls -/

/-- `timestamp` is the rendered clock reading. -/
def log_voice_command (fault : Option Nat) (timestamp : String) (voice_command : Obj α)
    (s : State α) : State α × Except Error Unit :=
  match setDefault s.memory "voice_commands" with
  | .error e => (s, .error e)
  | .ok m =>
    match append m "voice_commands" (voiceCommand timestamp voice_command) with
    | .error e => ({ s with memory := m }, .error e)
    | .ok m => save_memory fault { s with memory := m }

def store_conversation (fault : Option Nat) (user_input simian_response : Obj α) (s : State α) :
    State α × Except Error Unit :=
  match append s.memory "conversations" (conversation user_input simian_response) with
  | .error e => (s, .error e)
  | .ok m => save_memory fault { s with memory := m }

/-- `xs[-limit:]`. -/
def fromEnd {β : Type v} (limit : Int) (xs : List β) : List β :=
  if 0 < limit then xs.drop (xs.length - limit.toNat) else xs.drop (-limit).toNat

def get_recent_conversation (limit : Int) (s : State α) : Except Error (Obj α) :=
  match s.memory with
  | .dict kvs =>
    match kvs.lookup (.str "conversations") with
    | none => .error .KeyError
    | some (.list xs) => .ok (.list (fromEnd limit xs))
    | some (.tuple xs) => .ok (.tuple (fromEnd limit xs))
    | some (.str t) => .ok (.str (String.ofList (fromEnd limit t.toList)))
    | some _ => .error .TypeError
  | _ => .error .TypeError

def clear_memory (fault : Option Nat) (s : State α) : State α × Except Error Unit :=
  match _initialize_memory (α := α) fault with
  | (p, .error e) => ({ s with file := some p }, .error e)
  | (p, .ok ()) =>
    match _load_memory (some p) with
    | .error e => ({ s with file := some p }, .error e)
    | .ok m => (⟨some p, m⟩, .ok ())

def Call.run (fault : Option Nat) (s : State α) : Call α → State α × Except Error Unit
  | .log timestamp voice_command => log_voice_command fault timestamp voice_command s
  | .store user_input simian_response => store_conversation fault user_input simian_response s
  | .clear => clear_memory fault s

/-! ## What the calls leave behind -/

variable {fault : Option Nat} {s : State α} {c : Call α} {new : Obj α}

theorem write_eq_ok {o : Obj α} : (write fault o).2 = .ok () ↔ fault = none ∧ o.Writable := by
  have hdone : (dump 4 o).done = true ↔ o.Writable := encode_done
  cases fault with
  | some n => simp [write]
  | none =>
    rw [← hdone]
    cases h : (dump 4 o).done <;> simp [write, h]

theorem write_of_writable {o : Obj α} (h : o.Writable) :
    write none o = ((dump 4 o).text, .ok ()) := by
  have hdone : (dump 4 o).done = true := encode_done.2 h
  rw [write, hdone]
  rfl

theorem load_write {kvs : List (Key × Obj α)} : load (write fault (.dict kvs)).1 = some m ↔
    (Obj.dict kvs).Writable ∧ (∀ n, fault = some n → (dump 4 (.dict kvs)).text.length ≤ n) ∧
      m = (Obj.dict kvs).normal := by
  cases fault with
  | some n =>
    rw [write, load_take]
    simp
  | none =>
    have h := @load_take _ _ 4 kvs (dump 4 (.dict kvs)).text.length m
    rw [List.take_length] at h
    rw [write, h]
    simp

theorem load_memory_eq_ok {p : List Char} : _load_memory (some p) = .ok m ↔ load p = some m := by
  rw [_load_memory]
  split <;> simp_all

theorem load_default : _load_memory (some (dump 4 (default_memory : Obj α)).text) =
    .ok (default_memory : Obj α) := by
  rw [load_memory_eq_ok, load_dump default_memory_plain.writable, default_memory_plain.normal_eq]

/-! ## The constructor -/

section Init
variable {db_path : DbPath} {file : Option (List Char)} {p : List Char}

theorem init_of_not_namesFile (h : ¬ db_path.NamesFile) :
    ∃ e, init db_path fault file = (file, (.error e : Except Error (Obj α))) := by
  rw [init.eq_def]
  cases hmake : makedirs db_path.dirname with
  | error e => exact ⟨e, rfl⟩
  | ok =>
    have hdirname : db_path.dirname ≠ "" := by
      intro heq
      rw [heq, makedirs, if_pos rfl] at hmake
      cases hmake
    by_cases hdirectory : db_path.IsDirectory
    · exact ⟨_, if_pos hdirectory⟩
    · have hnul : db_path.HasNul := by_contra fun hnot => h ⟨hdirname, hdirectory, hnot⟩
      exact ⟨_, (if_neg hdirectory).trans (if_pos hnul)⟩

theorem DbPath.NamesFile.makedirs (h : db_path.NamesFile) :
    MemoryManager.makedirs db_path.dirname = .ok () := by
  have hnul : '\x00' ∉ db_path.dirname.toList := fun hmem => h.nul (Paths.dirname_prefix.mem hmem)
  rw [MemoryManager.makedirs, if_neg h.dirname, if_neg hnul]

theorem init_some (h : db_path.NamesFile) :
    init db_path fault (some p) = (some p, _load_memory (α := α) (some p)) := by
  rw [init.eq_def, h.makedirs]
  dsimp only
  rw [if_neg h.name, if_neg h.nul]

theorem init_none (h : db_path.NamesFile) : init db_path none none =
    (some (dump 4 (default_memory : Obj α)).text, .ok (default_memory : Obj α)) := by
  rw [init.eq_def, h.makedirs]
  dsimp only
  rw [if_neg h.name, if_neg h.nul, _initialize_memory,
    write_of_writable default_memory_plain.writable]
  simp only [load_default]

end Init

/-- A call that completes its new memory writes it, and has it as `self.memory` unless it is
a `clear_memory` whose write fails. -/
theorem Call.run_eq (h : c.completes s.memory = .ok new) :
    c.run fault s = (⟨some (write fault new).1,
      if c.isClear && fault.isSome then s.memory else new⟩, (write fault new).2) := by
  cases c with
  | log timestamp voice_command =>
    obtain ⟨m₁, hm, h⟩ := completes_log.1 h
    simp only [run, log_voice_command, hm, h]
    rfl
  | store user_input simian_response =>
    rw [completes] at h
    simp only [run, store_conversation, h]
    rfl
  | clear =>
    cases h
    cases fault with
    | some n => rfl
    | none =>
      rw [run, clear_memory, _initialize_memory, write_of_writable default_memory_plain.writable]
      simp only [load_default]
      rfl

end Simian.MemoryManager
