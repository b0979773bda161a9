import Simian.ListenerBootstrap

/-! # The configuration over many starts

`load_config` writes the default configuration for a missing file, which may be denied or break off
after any character, and then it raises. The file that is left then is never written again, whole
or not. Still each call that does not raise gives what the user wrote last, if it is a document, and
the default otherwise (`configuration_of_run`). -/

namespace Simian.ListenerBootstrap
open Json Python

variable {α : Type}

/-- What goes wrong when the default configuration is written. -/
inductive Fault
  /-- The directory or the file cannot be made. -/
  | denied
  /-- After this many characters. -/
  | cut (n : Nat)
  deriving DecidableEq, Repr

/-- The default configuration's document, broken off after `n` characters. -/
def beginning (α : Type) [Scalar α] (n : Nat) : Content :=
  .text ((dump 4 (DEFAULT_CONFIG : Obj α)).text.take n)

/-- `load_config` where the writing may fail. -/
def load_config_or [Scalar α] (J : Decoder α) (fault : Option Fault) (file : Option Content) :
    Option Content × Except Error (Obj α) :=
  match file, fault with
  | none, some .denied => (none, .error (.external "OSError"))
  | none, some (.cut n) => (some (beginning α n), .error (.external "OSError"))
  | none, none | some _, _ => (some (load_config J file).1, .ok (load_config J file).2)

/-- The listener is started and calls `load_config`, or the user puts something in the place of the
file or removes it. -/
inductive Action
  | start (fault : Option Fault)
  | edit (file : Option Content)

section
variable [Scalar α] (J : Decoder α)

def Action.apply (file : Option Content) : Action → Option Content
  | .start fault => (load_config_or J fault file).1
  | .edit file => file

/-- The file after these actions. -/
def fileAfter (file : Option Content) (as : List Action) : Option Content :=
  as.foldl (Action.apply J) file

end

/-- What the user left last. -/
def intended (file : Option Content) (as : List Action) : Option Content :=
  as.foldl (fun file a => match a with
    | .start _ => file
    | .edit file => file) file

/-- A file has been made by a start, and the user has not touched it since. -/
def Created (as : List Action) : Prop :=
  ∃ before fault after, as = before ++ .start fault :: after ∧ fault ≠ some .denied ∧
    ∀ a ∈ after, ∃ fault, a = .start fault

variable [Scalar α] {J : Decoder α} {file : Option Content} {as : List Action} {a : Action}
  {fault : Option Fault} {content : Content}

theorem created_edit : ¬ Created (as ++ [.edit file]) := by
  intro h
  obtain ⟨before, fault, after, heq, -, hafter⟩ := h
  rcases List.eq_nil_or_concat after with rfl | ⟨after, a, rfl⟩
  · have hlast := (List.append_inj' heq rfl).2
    cases hlast
  · rw [List.concat_eq_append, ← List.cons_append, ← List.append_assoc] at heq
    cases (List.append_inj' heq rfl).2
    obtain ⟨fault, hfault⟩ := hafter (.edit file) (by simp)
    cases hfault

theorem created_start :
    Created (as ++ [.start fault]) ↔ fault ≠ some .denied ∨ Created as := by
  constructor
  · intro h
    obtain ⟨before, fault', after, heq, hne, hafter⟩ := h
    rcases List.eq_nil_or_concat after with rfl | ⟨after, a, rfl⟩
    · cases (List.append_inj' heq rfl).2
      exact .inl hne
    · rw [List.concat_eq_append, ← List.cons_append, ← List.append_assoc] at heq
      obtain ⟨rfl, -⟩ := List.append_inj' heq rfl
      refine .inr ⟨before, fault', after, rfl, hne, fun a ha => hafter a ?_⟩
      rw [List.concat_eq_append]
      exact List.mem_append_left _ ha
  · intro h
    rcases h with hne | ⟨before, fault', after, rfl, hne, hafter⟩
    · exact ⟨as, fault, [], rfl, hne, fun a ha => absurd ha List.not_mem_nil⟩
    · refine ⟨before, fault', after ++ [.start fault], by simp, hne, fun a ha => ?_⟩
      rcases List.mem_append.1 ha with ha | ha
      · exact hafter a ha
      · exact ⟨fault, List.mem_singleton.1 ha⟩

/-- What has been written of the default is the whole or no document. -/
theorem document_beginning (n : Nat) :
    (document J (some (beginning α n))).getD DEFAULT_CONFIG = DEFAULT_CONFIG := by
  rw [beginning, document]
  by_cases hn : n < (dump 4 (DEFAULT_CONFIG : Obj α)).text.length
  · rw [J.load_beginning n hn, Option.getD_none]
  · rw [List.take_of_length_le (Nat.not_lt.1 hn), J.load_default, Option.getD_some]

theorem load_config_or_some : load_config_or J fault (some content) =
    (some (load_config J (some content)).1, .ok (load_config J (some content)).2) := by
  cases fault <;> rfl

theorem load_config_or_none : load_config_or J none none =
    (some (load_config J none).1, .ok (load_config J none).2) := rfl

theorem load_config_or_denied : load_config_or J (some .denied) none =
    (none, .error (.external "OSError")) := rfl

theorem load_config_or_cut {n : Nat} : load_config_or J (some (.cut n)) none =
    (some (beginning α n), .error (.external "OSError")) := rfl

theorem load_config_some : (load_config J (some content)).1 = content := by
  cases content <;> rfl

theorem load_config_none : ∃ n, (load_config J none).1 = beginning α n :=
  ⟨_, congrArg Content.text List.take_length.symm⟩

/-- What is in the place of the file after these actions. -/
inductive Stands (α : Type) [Scalar α] (file : Option Content) (as : List Action) :
    Option Content → Prop
  | intended {content : Content} (h : intended file as = some content) :
    Stands α file as (some content)
  | absent (h : intended file as = none) (hnot : ¬ Created as) : Stands α file as none
  | created (h : intended file as = none) (hcreated : Created as) (n : Nat) :
    Stands α file as (some (beginning α n))

theorem intended_start : intended file (as ++ [.start fault]) = intended file as := by
  rw [intended, List.foldl_append]
  rfl

theorem intended_edit {file' : Option Content} :
    intended file (as ++ [.edit file']) = file' := by
  rw [intended, List.foldl_append]
  rfl

theorem Stands.start {now : Option Content} (h : Stands α file as now) :
    Stands α file (as ++ [.start fault]) (load_config_or J fault now).1 := by
  have hsome : ∀ content, (load_config_or J fault (some content)).1 = some content := by
    intro content
    rw [load_config_or_some, load_config_some]
  cases h with
  | intended h =>
    rw [hsome]
    exact .intended (intended_start.trans h)
  | created h hcreated n =>
    rw [hsome]
    exact .created (intended_start.trans h) (created_start.2 (.inr hcreated)) n
  | absent h hnot =>
    have hintended : ListenerBootstrap.intended file (as ++ [.start fault]) = none :=
      intended_start.trans h
    rcases fault with _ | _ | n
    · obtain ⟨n, hn⟩ := @load_config_none _ _ J
      rw [load_config_or_none, hn]
      exact .created hintended (created_start.2 (.inl (by simp))) n
    · refine .absent hintended fun hcreated => ?_
      rcases created_start.1 hcreated with hne | hcreated
      · exact hne rfl
      · exact hnot hcreated
    · exact .created hintended (created_start.2 (.inl (by simp))) n

theorem Stands.edit {file' : Option Content} : Stands α file (as ++ [.edit file']) file' := by
  cases file' with
  | none => exact .absent intended_edit created_edit
  | some content => exact .intended intended_edit

theorem stands (J : Decoder α) (file : Option Content) (as : List Action) :
    Stands α file as (fileAfter J file as) := by
  induction as using List.reverseRecOn with
  | nil =>
    cases file with
    | none =>
      refine .absent rfl ?_
      intro h
      obtain ⟨before, fault, after, heq, -⟩ := h
      cases before <;> cases heq
    | some content => exact .intended rfl
  | append_singleton as a ih =>
    rw [fileAfter, List.foldl_append]
    cases a with
    | start fault => exact ih.start
    | edit file => exact .edit

/-- After every sequence of starts, failures and edits: what the user has left is in its place; a
call of `load_config` that returns gives what that means, the default if it is missing or no
document; and a call raises exactly if it cannot make a file that no start has made before. -/
theorem configuration_of_run (J : Decoder α) (file : Option Content) (as : List Action)
    (fault : Option Fault) :
    (∀ content, intended file as = some content → fileAfter J file as = some content) ∧
    (∀ config, (load_config_or J fault (fileAfter J file as)).2 = .ok config →
      config = (document J (intended file as)).getD DEFAULT_CONFIG) ∧
    ((∃ e, (load_config_or J fault (fileAfter J file as)).2 = .error e) ↔
      intended file as = none ∧ fault ≠ none ∧ ¬ Created as) := by
  have hstands := stands J file as
  have hsome : ∀ content, (load_config_or J fault (some content)).2 =
      .ok ((document J (some content)).getD DEFAULT_CONFIG) := by
    intro content
    rw [load_config_or_some, load_config_eq]
  generalize fileAfter J file as = now at hstands ⊢
  cases hstands with
  | intended h =>
    rw [h, hsome]
    refine ⟨fun content h => h, fun config hconfig => (Except.ok.inj hconfig).symm, ?_⟩
    simp
  | created h hcreated n =>
    rw [h, hsome, document_beginning]
    refine ⟨?_, fun config hconfig => (Except.ok.inj hconfig).symm, ?_⟩
    · simp
    · simp [hcreated]
  | absent h hnot =>
    rw [h]
    have hnone : (load_config_or J none none).2 =
        .ok ((document J none).getD DEFAULT_CONFIG) := by
      rw [load_config_or_none, load_config_eq]
    rcases fault with _ | _ | n
    · rw [hnone]
      exact ⟨fun content h => h, fun config hconfig => (Except.ok.inj hconfig).symm, by simp⟩
    · rw [load_config_or_denied]
      simp [hnot]
    · rw [load_config_or_cut]
      simp [hnot]

end Simian.ListenerBootstrap
