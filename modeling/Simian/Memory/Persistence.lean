import Simian.Lib.Journal
import Simian.Memory.Lists

/-! # The memory as a journal

With string arguments and without faults, the lists in `self.memory` are those of a journal of
entries, and the file always decodes to `self.memory` (`Tracks`). A manager that is discarded and
reopened therefore goes on where it was: the run without its reopenings ends in the same state. This
holds of the paths with a directory and the name of a file, as for the others there is no manager
(`persists_iff`). -/

universe u

namespace Simian.MemoryManager
open Json

variable {α : Type u}

/-! ## Entries -/

/-- An entry, as it stands in its list. -/
inductive Entry (α : Type u)
  | conversation (x : Obj α)
  | voice_command (x : Obj α)

def conversations (l : List (Entry α)) : List (Obj α) :=
  l.filterMap fun
    | .conversation x => some x
    | .voice_command _ => none

def voice_commands (l : List (Entry α)) : List (Obj α) :=
  l.filterMap fun
    | .conversation _ => none
    | .voice_command x => some x

theorem conversations_append {l l' : List (Entry α)} :
    conversations (l ++ l') = conversations l ++ conversations l' := List.filterMap_append

theorem voice_commands_append {l l' : List (Entry α)} :
    voice_commands (l ++ l') = voice_commands l ++ voice_commands l' := List.filterMap_append

/-- The calls of a session, and its end with the beginning of the next one on the same path. -/
inductive Op
  | log (timestamp voice_command : String)
  | store (user_input simian_response : String)
  | clear
  | reopen
  deriving DecidableEq, Repr

/-- A logged command has the keys "timestamp" and "command", a stored pair "user" and "simian". -/
def Op.entry? : Op → Option (Entry α)
  | .log timestamp voice_command =>
    some (.voice_command (.dict [(.str "timestamp", .str timestamp),
      (.str "command", .str voice_command)]))
  | .store user_input simian_response =>
    some (.conversation (.dict [(.str "user", .str user_input),
      (.str "simian", .str simian_response)]))
  | .clear | .reopen => none

/-- What the operation does to the journal of the entries. -/
def Op.journal : Op → List (Journal.Op (Entry α))
  | .clear => [.clear]
  | op => op.entry?.toList.map .add

variable {l : List (Entry α)} {ops ops' : List Op}

theorem journal_of_not_clear (h : .clear ∉ ops) :
    ops.flatMap Op.journal = (ops.filterMap (Op.entry? (α := α))).map .add := by
  induction ops with
  | nil => rfl
  | cons op ops ih =>
    obtain ⟨hop, hops⟩ := not_or.1 (mt List.mem_cons.2 h)
    rw [List.flatMap_cons, ih hops, List.filterMap_cons]
    cases op with
    | clear => exact absurd rfl hop
    | log | store | reopen => rfl

/-- The entries since the last `clear_memory`. -/
theorem since_clear (h : .clear ∉ ops') :
    Journal.after l ((ops ++ .clear :: ops').flatMap Op.journal) = ops'.filterMap Op.entry? := by
  rw [List.flatMap_append, List.flatMap_cons, journal_of_not_clear h]
  exact Journal.after_clear

theorem without_clear (h : .clear ∉ ops) :
    Journal.after l (ops.flatMap Op.journal) = l ++ ops.filterMap Op.entry? := by
  rw [journal_of_not_clear h, Journal.after_adds]

theorem voiceCommand_plain {timestamp voice_command : String} :
    (voiceCommand timestamp (.str voice_command) : Obj α).Plain := by
  simp [voiceCommand, Obj.Plain, Obj.PlainMembers, Dict.keys]

theorem conversation_plain {user_input simian_response : String} :
    (conversation (.str user_input) (.str simian_response) : Obj α).Plain := by
  simp [conversation, Obj.Plain, Obj.PlainMembers, Dict.keys]

/-! ## Sessions -/

variable [Scalar α] {s t : State α} {c : Call α}

/-- The new manager of a file; `none` if its constructor raises. -/
@[irreducible] def opened (db_path : DbPath) (file : Option (List Char)) : Option (State α) :=
  match init db_path none file with
  | (file, .ok m) => some ⟨file, m⟩
  | (_, .error _) => none

def completed (r : State α × Except Error Unit) : Option (State α) :=
  match r with
  | (s, .ok ()) => some s
  | (_, .error _) => none

def Op.run (db_path : DbPath) (s : State α) : Op → Option (State α)
  | .log timestamp voice_command =>
    completed (log_voice_command none timestamp (.str voice_command) s)
  | .store user_input simian_response =>
    completed (store_conversation none (.str user_input) (.str simian_response) s)
  | .clear => completed (clear_memory none s)
  | .reopen => opened db_path s.file

/-- The sessions on one path. An operation that raises is not enabled. -/
def sessions (db_path : DbPath) (s : State α) : Machine (State α) Op where
  init := s
  step := Op.run db_path

variable {db_path : DbPath} {file : Option (List Char)}

theorem namesFile_of_opened (h : opened db_path file = some t) : db_path.NamesFile := by
  by_contra hnot
  obtain ⟨e, he⟩ := @init_of_not_namesFile α _ none db_path file hnot
  rw [opened, he] at h
  cases h

section Opened
variable (hpath : db_path.NamesFile)
include hpath

theorem opened_none : opened db_path none = some (fresh : State α) := by
  rw [opened, init_none hpath]
  rfl

theorem opened_some {p : List Char} :
    opened db_path (some p) = some t ↔ ∃ m : Obj α, load p = some m ∧ t = ⟨some p, m⟩ := by
  rw [opened, init_some hpath, _load_memory]
  cases (load p : Option (Obj α)) with
  | none => simp
  | some m => simp [eq_comm]

theorem opened_eq (h : _load_memory s.file = .ok s.memory) : opened db_path s.file = some s := by
  obtain ⟨file, m⟩ := s
  cases file with
  | none => cases h
  | some p => exact (opened_some hpath).2 ⟨m, load_memory_eq_ok.1 h, rfl⟩

end Opened

/-- The file decodes to `self.memory`, which has the entries of `l`. -/
structure Tracks (s : State α) (l : List (Entry α)) : Prop where
  file : _load_memory s.file = .ok s.memory
  lists : Lists s.memory (conversations l) (voice_commands l)

theorem Tracks.plain (h : Tracks s l) : s.memory.Plain := by
  have hfile := h.file
  cases hs : s.file with
  | none =>
    rw [hs] at hfile
    cases hfile
  | some p =>
    rw [hs, load_memory_eq_ok] at hfile
    exact plain_of_load hfile

theorem Tracks.call {new : Obj α} (h : c.completes s.memory = .ok new) (hnew : new.Plain)
    (hlists : Lists new (conversations l) (voice_commands l)) :
    ∃ t, completed (c.run none s) = some t ∧ Tracks t l := by
  rw [Call.run_eq h, write_of_writable hnew.writable, Option.isSome_none, Bool.and_false,
    if_neg Bool.false_ne_true]
  refine ⟨_, rfl, ?_, hlists⟩
  rw [load_memory_eq_ok, load_dump hnew.writable, hnew.normal_eq]

theorem Tracks.log (h : Tracks s l) (timestamp voice_command : String) :
    ∃ t, completed (log_voice_command none timestamp (.str voice_command) s) = some t ∧
      Tracks t (l ++ [.voice_command (voiceCommand timestamp (.str voice_command))]) := by
  obtain ⟨m₁, m', hdefault, happend, hset, hm'⟩ :=
    h.lists.log (x := voiceCommand timestamp (.str voice_command))
  have hplain := (h.lists.plain_voice_commands h.plain).append
    (@voiceCommand_plain α timestamp voice_command)
  refine Tracks.call (c := .log timestamp (.str voice_command))
    (Call.completes_log.2 ⟨m₁, hdefault, happend⟩) (hset.plain h.plain hplain) ?_
  rw [conversations_append, voice_commands_append]
  rw [← List.append_nil (conversations l)] at hm'
  exact hm'

theorem Tracks.store (h : Tracks s l) (user_input simian_response : String) :
    ∃ t, completed (store_conversation none (.str user_input) (.str simian_response) s) = some t ∧
      Tracks t (l ++ [.conversation (conversation (.str user_input) (.str simian_response))]) := by
  obtain ⟨m', happend, hset, hm'⟩ :=
    h.lists.store (x := conversation (.str user_input) (.str simian_response))
  have hplain := (h.lists.plain_conversations h.plain).append
    (@conversation_plain α user_input simian_response)
  refine Tracks.call (c := .store (.str user_input) (.str simian_response)) happend
    (hset.plain h.plain hplain) ?_
  rw [conversations_append, voice_commands_append]
  rw [← List.append_nil (voice_commands l)] at hm'
  exact hm'

theorem Tracks.clear : ∃ t, completed (clear_memory none s) = some t ∧ Tracks t [] :=
  Tracks.call (s := s) (c := .clear) rfl default_memory_plain lists_default

theorem Tracks.step (h : Tracks s l) (hpath : db_path.NamesFile) (op : Op) :
    ∃ t, op.run db_path s = some t ∧ Tracks t (Journal.after l op.journal) := by
  cases op with
  | log timestamp voice_command => exact h.log timestamp voice_command
  | store user_input simian_response => exact h.store user_input simian_response
  | clear => exact @Tracks.clear α _ s
  | reopen => exact ⟨s, opened_eq hpath h.file, h⟩

/-- The file decodes to a memory with the entries of `l`. -/
def Decodes (file : Option (List Char)) (l : List (Entry α)) : Prop :=
  ∃ m, _load_memory file = .ok m ∧ Lists m (conversations l) (voice_commands l)

/-- The path is absent, and `l` is empty, or its file decodes to the entries of `l`. -/
def Starts (file : Option (List Char)) (l : List (Entry α)) : Prop :=
  (file = none ∧ l = []) ∨ Decodes file l

theorem Tracks.decodes (h : Tracks s l) : Decodes s.file l := ⟨s.memory, h.file, h.lists⟩

theorem Kept.reopen (h : Kept s) (ht : opened db_path s.file = some t) : Kept t := by
  have hpath := namesFile_of_opened ht
  cases hp : s.file with
  | none =>
    rw [hp, opened_none hpath] at ht
    cases ht
    exact kept_fresh
  | some p =>
    rw [hp, opened_some hpath] at ht
    obtain ⟨m, hm, rfl⟩ := ht
    obtain ⟨xs, ys, hlists⟩ := h.file m (by rw [hp, load_memory_eq_ok, hm])
    obtain ⟨kvs, rfl⟩ := hlists.dict
    refine ⟨⟨xs, ys, hlists⟩, plain_strKeys (plain_of_load hm), ?_⟩
    rw [← hp]
    exact h.file

theorem Starts.tracks (h : Starts file l) (hpath : db_path.NamesFile) :
    ∃ s, opened db_path file = some s ∧ Tracks s l := by
  rcases h with ⟨rfl, rfl⟩ | ⟨m, hm, hlists⟩
  · exact ⟨fresh, opened_none hpath, load_default, lists_default⟩
  · cases file with
    | none => cases hm
    | some p => exact ⟨⟨some p, m⟩, @opened_eq α _ ⟨some p, m⟩ db_path hpath hm, hm, hlists⟩

/-- What the file of a manager decodes to, after any calls, has the entries of a journal. -/
theorem Kept.decodes {m : Obj α} (h : Kept s) (hm : _load_memory s.file = .ok m) :
    ∃ l : List (Entry α), Decodes s.file l := by
  obtain ⟨xs, ys, hlists⟩ := h.file m hm
  refine ⟨xs.map .conversation ++ ys.map .voice_command, m, hm, ?_⟩
  simpa [conversations, voice_commands, List.filterMap_map, Function.comp_def] using hlists

/-- What is returned are the last `limit` conversations of the journal. -/
theorem Tracks.recent (h : Tracks s l) (limit : Int) :
    get_recent_conversation limit s = .ok (.list (fromEnd limit (conversations l))) :=
  h.lists.recent limit

end Simian.MemoryManager
