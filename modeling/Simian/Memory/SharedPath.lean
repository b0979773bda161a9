import Simian.Lib.Snapshots
import Simian.Memory.Persistence

/-! # Managers that share a path

Every manager of a path has read the file once and writes the whole of its own memory with each
call. So the managers are the editors of `Snapshots`, with journals for documents (`snapshots`). No
call raises and the file always decodes once a manager has been made (`shared_run`), but what a
manager has saved is gone once one that began before saves (`last_saver`). -/

namespace Simian.MemoryManager
open Json

variable {α : Type}

/-- A file, and the memories of the managers of its path. -/
structure Shared (α : Type) where
  file : Option (List Char)
  managers : List (Obj α)

/-- A further manager is made, or one of them is called. `reopen` makes another in its place. -/
inductive Act
  | enter
  | call (i : Nat) (op : Op)

/-- The act as one of an editor. -/
def Act.edits : Act → List (Snapshots.Action Op)
  | .enter => [.enter]
  | .call i .reopen => [.reload i]
  | .call i op => [.edit i op]

/-- What an operation does to the journal. -/
def Op.apply (l : List (Entry α)) (op : Op) : List (Entry α) := Journal.after l op.journal

/-- How many managers there are afterwards. -/
def Act.count (n : Nat) : Act → Nat
  | .enter => n + 1
  | .call _ _ => n

/-- The manager that is called is one of `n`. -/
def Act.Possible (n : Nat) : Act → Prop
  | .enter => True
  | .call i _ => i < n

/-- Only managers that have been made are called, where there are `n` at first. -/
def InRange : Nat → List Act → Prop
  | _, [] => True
  | n, a :: as => a.Possible n ∧ InRange (a.count n) as

/-- The calls of the manager `n` that save. -/
def Act.own (n : Nat) (a : Act) : List Op := a.edits.flatMap (Snapshots.Action.own n)

variable {op : Op} {as : List Act} {i n : Nat} {l : List (Entry α)}

theorem Act.edits_call (h : op ≠ .reopen) : (Act.call i op).edits = [.edit i op] := by
  cases op with
  | reopen => exact absurd rfl h
  | log | store | clear => rfl

theorem foldl_apply {ops : List Op} :
    ops.foldl Op.apply l = Journal.after l (ops.flatMap Op.journal) := by
  induction ops generalizing l with
  | nil => rfl
  | cons op ops ih =>
    rw [List.foldl_cons, ih, List.flatMap_cons, Op.apply, Journal.after, Journal.after,
      Journal.after, List.foldl_append]

theorem reload_not_mem (h : .call n .reopen ∉ as) : .reload n ∉ as.flatMap Act.edits := by
  intro hmem
  obtain ⟨a, ha, hmem⟩ := List.mem_flatMap.1 hmem
  cases a with
  | enter => cases List.mem_singleton.1 hmem
  | call i op =>
    by_cases hop : op = .reopen
    · subst hop
      cases List.mem_singleton.1 hmem
      exact h ha
    · rw [Act.edits_call hop] at hmem
      cases List.mem_singleton.1 hmem

section Shared
variable [Scalar α]

def Shared.step (db_path : DbPath) (s : Shared α) : Act → Option (Shared α)
  | .enter => (opened db_path s.file).map fun t => ⟨t.file, s.managers ++ [t.memory]⟩
  | .call i op => s.managers[i]?.bind fun m =>
    (op.run db_path ⟨s.file, m⟩).map fun t => ⟨t.file, s.managers.set i t.memory⟩

/-- The managers of a path, of which there is none at first. -/
def sharedPath (db_path : DbPath) (file : Option (List Char)) : Machine (Shared α) Act where
  init := ⟨file, []⟩
  step := Shared.step db_path

end Shared

/-- A memory with the entries of `l`. -/
structure Holds (m : Obj α) (l : List (Entry α)) : Prop where
  plain : m.Plain
  lists : Lists m (conversations l) (voice_commands l)

variable [Scalar α]

/-- The file is that of the document, and the memories are the copies. Once there is a manager, the
file decodes. -/
structure Mirrors (s : Shared α) (c : Snapshots.Conf (List (Entry α))) : Prop where
  file : Starts s.file c.document
  decodes : s.managers ≠ [] → Decodes s.file c.document
  managers : List.Forall₂ Holds s.managers c.copies

variable {s s' t : Shared α} {c : Snapshots.Conf (List (Entry α))} {m : Obj α} {db_path : DbPath}

theorem Tracks.holds {u : State α} (h : Tracks u l) : Holds u.memory l := ⟨h.plain, h.lists⟩

theorem Tracks.mirrors {u : State α} (h : Tracks u l) {ms : List (Obj α)}
    {ls : List (List (Entry α))} (hms : List.Forall₂ Holds ms ls) :
    Mirrors ⟨u.file, ms⟩ ⟨l, ls⟩ := ⟨.inr h.decodes, fun _ => h.decodes, hms⟩

/-- But for reopening, what a call does depends on the memory alone. -/
theorem run_file {file file' : Option (List Char)} (h : op ≠ .reopen) :
    op.run db_path ⟨file, m⟩ = op.run db_path ⟨file', m⟩ := by
  cases op with
  | log timestamp voice_command =>
    rw [Op.run, Op.run, log_voice_command, log_voice_command]
    cases setDefault m "voice_commands" with
    | error e => rfl
    | ok m =>
      dsimp only
      cases append m "voice_commands" (voiceCommand timestamp (.str voice_command)) with
      | error e => rfl
      | ok m => rfl
  | store user_input simian_response =>
    rw [Op.run, Op.run, store_conversation, store_conversation]
    cases append m "conversations" (conversation (.str user_input) (.str simian_response)) with
    | error e => rfl
    | ok m => rfl
  | clear =>
    rw [Op.run, Op.run, clear_memory, clear_memory]
  | reopen => exact absurd rfl h

theorem Holds.step (h : Holds m l) (hpath : db_path.NamesFile) (hop : op ≠ .reopen)
    (file : Option (List Char)) :
    ∃ t, op.run db_path ⟨file, m⟩ = some t ∧ Tracks t (op.apply l) := by
  have htracks : Tracks ⟨some (dump 4 m).text, m⟩ l := by
    refine ⟨?_, h.lists⟩
    rw [load_memory_eq_ok, load_dump h.plain.writable, h.plain.normal_eq]
  obtain ⟨t, hrun, ht⟩ := htracks.step hpath op
  exact ⟨t, (run_file hop).trans hrun, ht⟩

/-! ## The managers as editors -/

theorem Mirrors.enter (h : Mirrors s c) (hpath : db_path.NamesFile) :
    ∃ s', s.step db_path .enter = some s' ∧
      Mirrors s' { c with copies := c.copies ++ [c.document] } := by
  obtain ⟨t, ht, htracks⟩ := h.file.tracks hpath
  refine ⟨_, congrArg (Option.map _) ht, htracks.mirrors ?_⟩
  exact List.rel_append h.managers (.cons htracks.holds .nil)

theorem Mirrors.call (h : Mirrors s c) (hpath : db_path.NamesFile)
    (hi : s.managers[i]? = some m) (op : Op) :
    ∃ s' c', s.step db_path (.call i op) = some s' ∧
      (Snapshots.machine Op.apply l).run c (Act.call i op).edits = some c' ∧ Mirrors s' c' := by
  obtain ⟨l', hl', hm⟩ := Snapshots.exists_of_forall₂ h.managers hi
  have hstep : s.step db_path (.call i op) =
      (op.run db_path ⟨s.file, m⟩).map fun t => ⟨t.file, s.managers.set i t.memory⟩ := by
    rw [Shared.step, hi]
    rfl
  by_cases hop : op = .reopen
  · subst hop
    obtain ⟨t, ht, htracks⟩ := h.file.tracks hpath
    exact ⟨_, _, hstep.trans (congrArg (Option.map _) ht), Snapshots.run_reload hl',
      htracks.mirrors (Snapshots.forall₂_set h.managers htracks.holds)⟩
  · obtain ⟨t, ht, htracks⟩ := hm.step hpath hop s.file
    refine ⟨_, ⟨op.apply l', c.copies.set i (op.apply l')⟩,
      hstep.trans (congrArg (Option.map _) ht), ?_,
        htracks.mirrors (Snapshots.forall₂_set h.managers htracks.holds)⟩
    rw [Act.edits_call hop]
    exact Snapshots.run_edit hl'

/-- The managers of a path are editors of its journal. -/
theorem snapshots {file : Option (List Char)} (hpath : db_path.NamesFile) :
    (sharedPath (α := α) db_path file).Refinement (Snapshots.machine Op.apply l) Mirrors
      Act.edits where
  step {s c s' a} h hstep := by
    cases a with
    | enter =>
      obtain ⟨t, ht, hmirrors⟩ := h.enter hpath
      cases hstep.symm.trans ht
      exact ⟨_, rfl, hmirrors⟩
    | call i op =>
      obtain ⟨m, hm, -⟩ := Option.bind_eq_some_iff.1 hstep
      obtain ⟨t, c', ht, hc', hmirrors⟩ := h.call hpath hm op
      cases hstep.symm.trans ht
      exact ⟨c', hc', hmirrors⟩

theorem length_managers (h : s.step db_path a = some t) :
    t.managers.length = a.count s.managers.length := by
  cases a with
  | enter =>
    obtain ⟨u, -, rfl⟩ := Option.map_eq_some_iff.1 h
    exact List.length_append
  | call i op =>
    obtain ⟨m, -, h⟩ := Option.bind_eq_some_iff.1 h
    obtain ⟨u, -, rfl⟩ := Option.map_eq_some_iff.1 h
    exact List.length_set

/-- A manager that has been called is there. -/
theorem managers_ne_nil (h : s.step db_path (.call i op) = some t) : t.managers ≠ [] := by
  have hlength := length_managers h
  obtain ⟨m, hm, -⟩ := Option.bind_eq_some_iff.1 h
  obtain ⟨hi, -⟩ := List.getElem?_eq_some_iff.1 hm
  intro hnil
  rw [hnil] at hlength
  rw [Act.count, List.length_nil] at hlength
  omega

theorem Mirrors.exists_step (h : Mirrors s c) (hpath : db_path.NamesFile)
    (ha : a.Possible s.managers.length) :
    ∃ s' c', s.step db_path a = some s' ∧ Mirrors s' c' := by
  cases a with
  | enter =>
    obtain ⟨s', hstep, hmirrors⟩ := h.enter hpath
    exact ⟨s', _, hstep, hmirrors⟩
  | call i op =>
    obtain ⟨s', c', hstep, -, hmirrors⟩ :=
      h.call (l := []) hpath (List.getElem?_eq_getElem ha) op
    exact ⟨s', c', hstep, hmirrors⟩

theorem Mirrors.exists_run {file : Option (List Char)} (h : Mirrors s c)
    (hpath : db_path.NamesFile) (hrange : InRange s.managers.length as) :
    ∃ t, (sharedPath db_path file).run s as = some t := by
  induction as generalizing s c with
  | nil => exact ⟨s, rfl⟩
  | cons a as ih =>
    obtain ⟨s', c', hstep, hmirrors⟩ := h.exists_step hpath hrange.1
    have hrest := hrange.2
    rw [← length_managers hstep] at hrest
    obtain ⟨t, hrun⟩ := ih hmirrors hrest
    exact ⟨t, Machine.run_cons_some.2 ⟨s', hstep, hrun⟩⟩

theorem Starts.mirrors {file : Option (List Char)} (h : Starts file l) :
    Mirrors (⟨file, []⟩ : Shared α) ⟨l, []⟩ := ⟨h, fun hne => absurd rfl hne, .nil⟩

/-- After a manager has begun and has saved last, the file has the entries that it found and those
of its own calls, which are also what the next manager recalls. -/
theorem last_saver {file : Option (List Char)} (h : Starts file l) {before : List Act}
    (hbefore : (sharedPath db_path file).run ⟨file, []⟩ before = some s)
    (hreopen : .call s.managers.length .reopen ∉ as) (hop : op ≠ .reopen)
    (hrun : (sharedPath db_path file).run s (.enter :: as ++ [.call s.managers.length op]) =
      some t) :
    ∃ l₁ l₂ : List (Entry α), Starts s.file l₁ ∧ Decodes t.file l₂ ∧
      l₂ = Journal.after l₁
        ((as.flatMap (Act.own s.managers.length) ++ [op]).flatMap Op.journal) ∧
      ∃ u, opened db_path t.file = some u ∧ ∀ limit,
        get_recent_conversation limit u = .ok (.list (fromEnd limit (conversations l₂))) := by
  obtain ⟨s', hstep, -⟩ := Machine.run_cons_some.1 hrun
  obtain ⟨u', hu', -⟩ := Option.map_eq_some_iff.1 hstep
  have hpath := namesFile_of_opened hu'
  obtain ⟨t', -, hcall⟩ := Machine.run_append_some.1 hrun
  obtain ⟨t'', hcall, hend⟩ := Machine.run_cons_some.1 hcall
  have hmanagers : t.managers ≠ [] := Option.some.inj hend ▸ managers_ne_nil hcall
  obtain ⟨c, -, hc⟩ := (snapshots (l := l) hpath).run h.mirrors hbefore
  obtain ⟨d, hd, hmirrors⟩ := (snapshots (l := l) hpath).run hc hrun
  have hlength : s.managers.length = c.copies.length := hc.managers.length_eq
  have hacts : (Act.enter :: as ++ [Act.call s.managers.length op]).flatMap Act.edits =
      .enter :: as.flatMap Act.edits ++ [.edit c.copies.length op] := by
    rw [List.cons_append, List.flatMap_cons, List.flatMap_append, List.flatMap_singleton,
      Act.edits_call hop, hlength]
    rfl
  rw [hacts] at hd
  have hlast := Snapshots.document_of_last (hlength ▸ reload_not_mem hreopen) hd
  have hown : (as.flatMap Act.edits).flatMap (Snapshots.Action.own c.copies.length) =
      as.flatMap (Act.own s.managers.length) := by
    rw [List.flatMap_assoc, hlength]
    rfl
  rw [hown, foldl_apply] at hlast
  obtain ⟨u, hu, htracks⟩ := hmirrors.file.tracks hpath
  exact ⟨c.document, d.document, hc.file, hmirrors.decodes hmanagers, hlast, u, hu, htracks.recent⟩

-- The second manager is not told of what the first one has saved.
theorem last_saver_two : ∃ (s t : Shared Constant) (l₁ l₂ : List (Entry Constant)),
    (sharedPath simian_memory none).run ⟨none, []⟩ [.enter] = some s ∧
    (sharedPath simian_memory none).run s ([.enter, .call 0 (.store "hi" "hello")] ++
      [.call 1 (.log "now" "open")]) = some t ∧
    Starts s.file l₁ ∧ Decodes t.file l₂ ∧ l₂ = l₁ ++ [.voice_command
      (.dict [(.str "timestamp", .str "now"), (.str "command", .str "open")])] := by
  have hstarts : Starts none ([] : List (Entry Constant)) := .inl ⟨rfl, rfl⟩
  have hrange : InRange 0 [.enter, .enter, .call 0 (.store "hi" "hello"),
    .call 1 (.log "now" "open")] := ⟨trivial, trivial, Nat.zero_lt_two, Nat.one_lt_two, trivial⟩
  obtain ⟨t, hrun⟩ := @Mirrors.exists_run _ _ _ _ _ _ none hstarts.mirrors
    simian_memory_namesFile hrange
  obtain ⟨s, hbefore, hrest⟩ := Machine.run_cons_some.1 hrun
  have hbefore' : (sharedPath simian_memory none).run ⟨none, []⟩ [.enter] = some s :=
    Machine.run_cons_some.2 ⟨s, hbefore, rfl⟩
  have hstep : (⟨none, []⟩ : Shared Constant).step simian_memory .enter = some s := hbefore
  have hlength : s.managers.length = 1 := length_managers hstep
  have hrest' : (sharedPath simian_memory none).run s ([.enter, .call 0 (.store "hi" "hello")] ++
      [.call s.managers.length (.log "now" "open")]) = some t := by
    rw [hlength]
    exact hrest
  have hreopen : .call s.managers.length .reopen ∉ [Act.call 0 (.store "hi" "hello")] := by
    simp
  obtain ⟨l₁, l₂, h₁, h₂, hl₂, -⟩ :=
    last_saver hstarts hbefore' hreopen Op.noConfusion hrest'
  rw [hlength] at hl₂
  exact ⟨s, t, l₁, l₂, hbefore', hrest, h₁, h₂, hl₂⟩

end Simian.MemoryManager
