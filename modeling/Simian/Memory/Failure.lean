import Simian.Lib.Machine
import Simian.Memory.MemoryManager

/-! # What a failed call leaves behind

Nothing in `memory/memory_manager.py` undoes a call that raises: the entry is in `self.memory`
before the file is written, and the file is truncated before the document is. A call that raises
before its write has changed nothing (`Call.run_error`). Otherwise the file holds the beginning of
the completed new memory's document, which decodes only if it is the whole document
(`FailedWrite`). A rejected entry stays in `self.memory`, and fails every later save, until a
`clear_memory` succeeds (`Afterwards`). -/

universe u

namespace Simian.MemoryManager
open Json

variable {α : Type u}

/-! ## Calls that raise before they write -/

theorem append_setDefault {m m₁ : Obj α} {key : String} {x : Obj α} {e : Error}
    (h₁ : setDefault m key = .ok m₁) (h : append m₁ key x = .error e) : m₁ = m := by
  obtain ⟨kvs, rfl, rfl⟩ := setDefault_eq_ok.1 h₁
  split
  · rfl
  · rename_i hnone
    rw [if_neg hnone, append, Dict.lookup_set_self] at h
    cases h

theorem Call.completes_log_error {m : Obj α} {timestamp : String} {voice_command : Obj α}
    {e : Error} (h : (Call.log timestamp voice_command).completes m = .error e) :
    setDefault m "voice_commands" = .error e ∨
      ∃ m₁, setDefault m "voice_commands" = .ok m₁ ∧
        append m₁ "voice_commands" (voiceCommand timestamp voice_command) = .error e := by
  rw [completes] at h
  cases hm : setDefault m "voice_commands" with
  | error e' =>
    rw [hm] at h
    exact .inl h
  | ok m₁ =>
    rw [hm] at h
    exact .inr ⟨m₁, rfl, h⟩

variable [Scalar α] {fault : Option Nat} {s t u : State α} {c : Call α} {new : Obj α} {e : Error}

/-- A call that raises before it writes changes nothing. -/
theorem Call.run_error (h : c.completes s.memory = .error e) :
    c.run fault s = (s, .error e) := by
  cases c with
  | log timestamp voice_command =>
    rcases completes_log_error h with hm | ⟨m₁, hm, h⟩
    · simp only [run, log_voice_command, hm]
    · simp only [run, log_voice_command, hm, h]
      rw [append_setDefault hm h]
  | store user_input simian_response =>
    rw [completes] at h
    simp only [run, store_conversation, h]
  | clear => cases h

/-! ## Calls whose write fails -/

/-- What the call `c` from `s` leaves behind when its write of `new` fails. -/
structure FailedWrite (fault : Option Nat) (s : State α) (c : Call α) (new : Obj α)
    (t : State α) : Prop where
  file : t.file = some (write fault new).1
  decodes : ∀ m, _load_memory t.file = .ok m ↔ new.Writable ∧
    (∃ n, fault = some n ∧ (dump 4 new).text.length ≤ n) ∧ m = new.normal
  reopens : ∀ db_path fault' (m : Obj α), init db_path fault' t.file = (t.file, .ok m) ↔
    db_path.NamesFile ∧ _load_memory t.file = .ok m
  memory : t.memory = if c.isClear then s.memory else new
  rejected : t.memory.Writable ↔ s.memory.Writable ∧ c.Serialisable

theorem fault_of_write_error {o : Obj α} (h : (write fault o).2 = .error e) (ho : o.Writable) :
    ∃ n, fault = some n := by
  cases fault with
  | some n => exact ⟨n, rfl⟩
  | none =>
    rw [write_of_writable ho] at h
    cases h

theorem load_failed_write {m : Obj α} (hnew : c.completes s.memory = .ok new)
    (h : (write fault new).2 = .error e) : load (write fault new).1 = some m ↔
      new.Writable ∧ (∃ n, fault = some n ∧ (dump 4 new).text.length ≤ n) ∧ m = new.normal := by
  obtain ⟨kvs, rfl⟩ := Call.completes_dict hnew
  rw [load_write]
  refine and_congr_right fun hw => and_congr_left fun _ => ?_
  obtain ⟨n, rfl⟩ := fault_of_write_error h hw
  simp

theorem init_some_eq_ok {db_path : DbPath} {p : List Char} {m : Obj α} :
    init db_path fault (some p) = (some p, .ok m) ↔
      db_path.NamesFile ∧ _load_memory (some p) = .ok m := by
  by_cases h : db_path.NamesFile
  · rw [init_some h, Prod.mk.injEq, and_iff_right rfl, and_iff_right h]
  · obtain ⟨e, he⟩ := @init_of_not_namesFile α _ fault db_path (some p) h
    rw [he]
    simp [h]

theorem failedWrite (hnew : c.completes s.memory = .ok new)
    (h : c.run fault s = (t, .error e)) : FailedWrite fault s c new t := by
  rw [Call.run_eq hnew, Prod.mk.injEq] at h
  obtain ⟨rfl, herror⟩ := h
  have hmemory : (if c.isClear && fault.isSome then s.memory else new) =
      if c.isClear then s.memory else new := by
    cases c with
    | log | store => rfl
    | clear =>
      cases hnew
      obtain ⟨n, rfl⟩ := fault_of_write_error herror default_memory_plain.writable
      rfl
  have hwritable := Call.completes_writable hnew
  refine ⟨rfl, fun m => ?_, fun db_path fault' m => init_some_eq_ok, hmemory, ?_⟩
  · rw [load_memory_eq_ok, load_failed_write hnew herror]
  · simp only [hmemory]
    cases c with
    | log | store => simpa [Call.isClear] using hwritable
    | clear => simp [Call.isClear, Call.Serialisable]

/-- A rejected argument leaves no document in the file. -/
theorem not_loads (hnew : c.completes s.memory = .ok new) (h : c.run fault s = (t, .error e))
    (hc : ¬ c.Serialisable) (m : Obj α) : _load_memory t.file ≠ .ok m := by
  intro hm
  have hw := (((failedWrite hnew h).decodes m).1 hm).1
  exact hc ((Call.completes_writable hnew).1 hw).2

/-! ## Later calls -/

/-- The calls, each with the fault of its write. -/
def calls (s : State α) : Machine (State α) (Call α × Option Nat) where
  init := s
  step s a := some (a.1.run a.2 s).1

/-- A `clear_memory` whose write does not fail. -/
def Repairs (a : Call α × Option Nat) : Prop := a.1.isClear = true ∧ a.2 = none

/-- What holds at the end `u` of a run of calls from `t`, whatever fails in it. -/
structure Afterwards (t : State α) (as : List (Call α × Option Nat)) (u : State α) : Prop where
  rejected : ¬ t.memory.Writable → (∀ a ∈ as, ¬ Repairs a) → ¬ u.memory.Writable
  accepted : t.memory.Writable → (∀ a ∈ as, a.1.Serialisable) → u.memory.Writable
  save : ∀ (c : Call α) new, c.Serialisable → c.completes u.memory = .ok new →
    ((c.run none u).2 = .ok () ↔ c.isClear = true ∨ u.memory.Writable)
  saved : ∀ (c : Call α) v, c.run none u = (v, .ok ()) →
    _load_memory v.file = .ok v.memory.normal
  cleared : clear_memory none u =
    (⟨some (dump 4 (default_memory : Obj α)).text, default_memory⟩, .ok ())

theorem Call.run_cases : (∃ e, c.run fault s = (s, .error e)) ∨
    ∃ new, c.completes s.memory = .ok new ∧
      c.run fault s = (⟨some (write fault new).1,
        if c.isClear && fault.isSome then s.memory else new⟩, (write fault new).2) := by
  cases h : c.completes s.memory with
  | error e => exact .inl ⟨e, run_error h⟩
  | ok new => exact .inr ⟨new, rfl, run_eq h⟩

/-- `self.memory` is the completed new memory or as before; after a `clear_memory` it is new only
if the write did not fail. -/
theorem Call.run_memory : (c.run fault s).1.memory = s.memory ∨
    ∃ new, c.completes s.memory = .ok new ∧ (c.run fault s).1.memory = new ∧
      (c.isClear = true → fault = none) := by
  rcases @run_cases _ _ fault s c with ⟨e, heq⟩ | ⟨new, hnew, heq⟩
  · rw [heq]
    exact .inl rfl
  · rw [heq]
    dsimp only
    split
    · exact .inl rfl
    · rename_i hc
      refine .inr ⟨new, hnew, rfl, fun hclear => ?_⟩
      rwa [hclear, Bool.true_and, Option.not_isSome_iff_eq_none] at hc

theorem Call.run_rejected {a : Call α × Option Nat} (h : ¬ s.memory.Writable) (ha : ¬ Repairs a) :
    ¬ (a.1.run a.2 s).1.memory.Writable := by
  rcases @run_memory _ _ a.2 s a.1 with hm | ⟨new, hnew, hm, hfault⟩
  · rwa [hm]
  · rw [hm]
    intro hw
    obtain ⟨hclear | hs, -⟩ := (completes_writable hnew).1 hw
    · exact ha ⟨hclear, hfault hclear⟩
    · exact h hs

theorem Call.run_accepted (h : s.memory.Writable) (hc : c.Serialisable) :
    (c.run fault s).1.memory.Writable := by
  rcases @run_memory _ _ fault s c with hm | ⟨new, hnew, hm, -⟩
  · rwa [hm]
  · rw [hm]
    exact (completes_writable hnew).2 ⟨.inr h, hc⟩

theorem Call.run_saved {v : State α} (h : c.run none s = (v, .ok ())) :
    _load_memory v.file = .ok v.memory.normal := by
  rcases @run_cases _ _ none s c with ⟨e, heq⟩ | ⟨new, hnew, heq⟩
  · cases heq.symm.trans h
  · obtain ⟨rfl, hok⟩ := Prod.mk.inj (heq.symm.trans h)
    rw [Option.isSome_none, Bool.and_false, if_neg Bool.false_ne_true]
    obtain ⟨kvs, rfl⟩ := completes_dict hnew
    rw [load_memory_eq_ok, load_write]
    exact ⟨(write_eq_ok.1 hok).2, nofun, rfl⟩

theorem Call.run_save (hc : c.Serialisable) (hnew : c.completes s.memory = .ok new) :
    (c.run none s).2 = .ok () ↔ c.isClear = true ∨ s.memory.Writable := by
  rw [run_eq hnew, write_eq_ok, completes_writable hnew, and_iff_left hc]
  exact and_iff_right rfl

theorem clear_memory_none : clear_memory none s =
    (⟨some (dump 4 (default_memory : Obj α)).text, default_memory⟩, .ok ()) := by
  have h := @Call.run_eq _ _ none s .clear _ rfl
  rw [write_of_writable default_memory_plain.writable] at h
  exact h

variable {a : Call α × Option Nat} {as : List (Call α × Option Nat)}

theorem calls_step (h : (calls t).step s a = some u) : (a.1.run a.2 s).1 = u := Option.some.inj h

theorem afterwards (h : (calls t).run t as = some u) : Afterwards t as u := by
  have hrejected {s r : State α} {a : Call α × Option Nat} (hs : ¬ s.memory.Writable)
      (hr : (calls t).step s a = some r) (ha : ¬ Repairs a) : ¬ r.memory.Writable := by
    rw [← calls_step hr]
    exact Call.run_rejected hs ha
  have haccepted {s r : State α} {a : Call α × Option Nat} (hs : s.memory.Writable)
      (hr : (calls t).step s a = some r) (ha : a.1.Serialisable) : r.memory.Writable := by
    rw [← calls_step hr]
    exact Call.run_accepted hs ha
  exact ⟨fun ht has => ((Machine.everyStep_of_forall_mem has).everyState hrejected ht).last h,
    fun ht has => ((Machine.everyStep_of_forall_mem has).everyState haccepted ht).last h,
    fun c new => Call.run_save, fun c v => Call.run_saved, clear_memory_none⟩

/-- A call that raises has changed nothing, or its write has failed; and what the calls after it
do depends only on whether `self.memory` has something rejected. -/
theorem failed_call (h : c.run fault s = (t, .error e)) :
    ((c.completes s.memory = .error e ∧ t = s) ∨
      ∃ new, c.completes s.memory = .ok new ∧ FailedWrite fault s c new t) ∧
    ∀ as u, (calls t).run t as = some u → Afterwards t as u := by
  refine ⟨?_, fun as u => afterwards⟩
  cases hnew : c.completes s.memory with
  | error e' =>
    obtain ⟨rfl, heq⟩ := Prod.mk.inj ((Call.run_error hnew).symm.trans h)
    cases heq
    exact .inl ⟨rfl, rfl⟩
  | ok new => exact .inr ⟨new, rfl, failedWrite hnew h⟩

/-- A manager on a new file. -/
def fresh : State α := ⟨some (dump 4 (default_memory : Obj α)).text, default_memory⟩

-- The encoder meets the rejected response in the middle of the document.
theorem failed_call_store :
    let c : Call Constant := .store (.str "hi") .foreign
    let t := (c.run none fresh).1
    ((c.completes default_memory = .error .TypeError ∧ t = fresh) ∨
      ∃ new, c.completes default_memory = .ok new ∧ FailedWrite none fresh c new t) ∧
    ∀ as u, (calls t).run t as = some u → Afterwards t as u := by
  intro c t
  have h : c.run none fresh = (t, .error .TypeError) := rfl
  exact failed_call h

/-- After that conversation the file does not decode, and the next entry cannot be saved; and a
`clear_memory` whose write fails at the very end leaves `self.memory` behind the file. -/
theorem not_failure_atomic : ∃ s t u v : State Constant,
    s = fresh ∧ _load_memory s.file = .ok s.memory ∧
    (store_conversation none (.str "hi") .foreign s = (t, .error .TypeError) ∧
      (∀ m : Obj Constant, _load_memory t.file ≠ .ok m) ∧
      (∀ m : Obj Constant, init simian_memory none t.file ≠ (t.file, .ok m)) ∧
      (log_voice_command none "2024-05-01 12:00:00" (.str "open") t).2 = .error .TypeError) ∧
    store_conversation none (.str "hi") (.str "hello") s = (u, .ok ()) ∧
    clear_memory (some (dump 4 (default_memory : Obj Constant)).text.length) u =
      (v, .error .OSError) ∧
    _load_memory v.file = .ok (default_memory : Obj Constant) ∧ v.memory ≠ default_memory := by
  let c : Call Constant := .store (.str "hi") .foreign
  have hload := @not_loads _ _ none fresh _ c _ _ rfl rfl And.right
  refine ⟨fresh, _, _, _, rfl, load_default, ⟨rfl, hload, fun m h => ?_, rfl⟩, rfl, rfl, ?_, nofun⟩
  · exact hload m (init_some_eq_ok.1 h).2
  · show _load_memory (some ((dump 4 (default_memory : Obj Constant)).text.take _)) = _
    rw [List.take_length, load_default]

end Simian.MemoryManager
