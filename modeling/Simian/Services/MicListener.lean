import Simian.Lib.Python
import Simian.Lib.Failing

/-! # The voice command router

`process_command` and the loop of `listen_audio` in `services/mic_listener.py`. What is outside (the
clock, the callbacks that are installed and those that raise) is an `Env` for each transcript;
`lower` is `str.lower`. The router keeps nothing between two transcripts, so the announced pause
silences no command (`keeps_pause_iff`); and the handler of exceptions is around the whole loop, so
a failure is also the end of it (`hands_all_iff`). -/

namespace Simian.MicListener
open Python

inductive Callback
  | message_callback
  | tts_callback
  | command_callback
  | memory_logger
  deriving DecidableEq, Repr

/-- What the outside does while a transcript is handled. -/
structure Env where
  timestamp : String
  installed : Callback → Bool
  raises : Callback → Bool
  /-- The text of the exception that is raised. -/
  error : String

/-- A call of an installed callback, or what is printed without one. -/
inductive Effect
  | message_callback (full_msg : String)
  | tts_callback (text : String)
  | command_callback (action : String)
  | memory_logger (kind text : String)
  | print (line : String)
  deriving DecidableEq, Repr

def Env.fails (env : Env) : Effect → Bool
  | .message_callback _ => env.raises .message_callback
  | .tts_callback _ => env.raises .tts_callback
  | .command_callback _ => env.raises .command_callback
  | .memory_logger _ _ => env.raises .memory_logger
  | .print _ => false

def log (env : Env) (msg : String) : Effect :=
  let full_msg := env.timestamp ++ " Simian: " ++ msg
  if env.installed .message_callback then .message_callback full_msg else .print full_msg

def speak (env : Env) (text : String) : Effect :=
  if env.installed .tts_callback then .tts_callback text else .print ("Simian says: " ++ text)

structure Entry where
  key : String
  speech : String
  action : Option String
  deriving DecidableEq, Repr

def commands : List Entry :=
  [⟨"clip that", "Clipping the last 5 minutes.", some "clip_that"⟩,
   ⟨"start recording", "Starting screen and audio recording.", some "start_recording"⟩,
   ⟨"stop recording", "Stopping the recording now.", some "stop_recording"⟩,
   ⟨"open spotify", "Opening Spotify.", some "open_spotify"⟩,
   ⟨"begin simian", "Welcome back. I'm online.", some "wake_simian"⟩,
   ⟨"wake up", "Welcome back. I'm online.", some "wake_simian"⟩,
   ⟨"stop listening", "Voice recognition paused.", none⟩]

/-- The entry that the router takes for `cmd`. -/
def resolve (cmd : String) : Option Entry := commands.find? fun entry => Substring entry.key cmd

/-- `if action and command_callback: command_callback(action)` -/
def command (env : Env) (action : Option String) : List Effect :=
  match action with
  | some action => if env.installed .command_callback then [.command_callback action] else []
  | none => []

/-- What `process_command` does, in order, as long as nothing raises. -/
def process_command (lower : String → String) (env : Env) (text : String) : List Effect :=
  if strip text = "" then []
  else
    let cmd := strip (lower text)
    [log env ("You said: " ++ cmd)] ++
      (if env.installed .memory_logger then [.memory_logger "voice_command" cmd] else []) ++
      match resolve cmd with
      | some entry => speak env entry.speech :: command env entry.action
      | none => [speak env ("You said: " ++ text)]

/-- A transcript and what the outside does while it is handled. -/
structure Utterance where
  text : String
  env : Env

namespace Utterance
variable (lower : String → String) (u : Utterance)

/-- What is done until the end or the first exception. -/
def performed : List Effect := (process_command lower u.env u.text).upTo u.env.fails

def raised : Bool := (process_command lower u.env u.text).any u.env.fails

/-- The entry that the router resolves the transcript to. -/
def entry : Option Entry := if strip u.text = "" then none else resolve (strip (lower u.text))

/-- The action of that entry. -/
def action : Option String := (u.entry lower).bind Entry.action

end Utterance

/-! ## The calls of `command_callback` -/

/-- No other installed callback raises. -/
def Env.Reaches (env : Env) : Prop :=
  ∀ c, c ≠ .command_callback → env.installed c = true → env.raises c = false

/-- What is done before an entry's command. -/
def before (env : Env) (cmd speech : String) : List Effect :=
  [log env ("You said: " ++ cmd)] ++
    (if env.installed .memory_logger then [.memory_logger "voice_command" cmd] else []) ++
    [speak env speech]

variable {lower : String → String} {env : Env} {u : Utterance}
  {text cmd speech msg action : String}

theorem fails_log : env.fails (log env msg) = false ↔
    (env.installed .message_callback = true → env.raises .message_callback = false) := by
  rw [log]
  split
  · rename_i h
    exact ⟨fun hf _ => hf, fun hf => hf h⟩
  · rename_i h
    exact iff_of_true rfl fun hi => absurd hi h

theorem fails_speak : env.fails (speak env speech) = false ↔
    (env.installed .tts_callback = true → env.raises .tts_callback = false) := by
  rw [speak]
  split
  · rename_i h
    exact ⟨fun hf _ => hf, fun hf => hf h⟩
  · rename_i h
    exact iff_of_true rfl fun hi => absurd hi h

theorem log_ne_command : log env msg ≠ .command_callback action := by
  rw [log]
  split <;> exact Effect.noConfusion

theorem speak_ne_command : speak env speech ≠ .command_callback action := by
  rw [speak]
  split <;> exact Effect.noConfusion

theorem command_not_mem_before : .command_callback action ∉ before env cmd speech := by
  rw [before]
  split <;> simp [log_ne_command.symm, speak_ne_command.symm]

theorem forall_before : (∀ e ∈ before env cmd speech, env.fails e = false) ↔ env.Reaches := by
  have hreaches : env.Reaches ↔
      (env.installed .message_callback = true → env.raises .message_callback = false) ∧
      (env.installed .memory_logger = true → env.raises .memory_logger = false) ∧
      (env.installed .tts_callback = true → env.raises .tts_callback = false) := by
    refine ⟨fun h => ⟨h _ (by decide), h _ (by decide), h _ (by decide)⟩, fun h c hc => ?_⟩
    cases c with
    | message_callback => exact h.1
    | memory_logger => exact h.2.1
    | tts_callback => exact h.2.2
    | command_callback => exact absurd rfl hc
  rw [hreaches, before, List.forall_mem_append, List.forall_mem_append, List.forall_mem_singleton,
    List.forall_mem_singleton, fails_log, fails_speak, and_assoc]
  refine and_congr_right fun _ => and_congr_left fun _ => ?_
  split
  · rename_i h
    rw [List.forall_mem_singleton]
    exact ⟨fun hf _ => hf, fun hf => hf h⟩
  · rename_i h
    exact iff_of_true (fun _ hmem => absurd hmem List.not_mem_nil) fun hi => absurd hi h

/-- A blank transcript is passed over, and any other is answered before its action. -/
theorem process_command_cases (lower : String → String) (u : Utterance) :
    (strip u.text = "" ∧ process_command lower u.env u.text = [] ∧ u.action lower = none) ∨
    (strip u.text ≠ "" ∧ ∃ speech, process_command lower u.env u.text =
      before u.env (strip (lower u.text)) speech ++ command u.env (u.action lower)) := by
  rw [process_command, Utterance.action, Utterance.entry]
  by_cases htext : strip u.text = ""
  · rw [if_pos htext, if_pos htext]
    exact .inl ⟨htext, rfl, rfl⟩
  · rw [if_neg htext, if_neg htext]
    refine .inr ⟨htext, ?_⟩
    dsimp only
    cases resolve (strip (lower u.text)) with
    | none => exact ⟨"You said: " ++ u.text, by simp [before, command]⟩
    | some entry => exact ⟨entry.speech, by simp [before]⟩

theorem command_mem_command {a? : Option String} : .command_callback action ∈ command env a? ↔
    a? = some action ∧ env.installed .command_callback = true := by
  cases a? with
  | none => simp [command]
  | some a =>
    rw [command]
    split
    · rename_i h
      simp [h, eq_comm]
    · rename_i h
      simp [h]

/-- The command of the entry is called if nothing before it raises. -/
theorem command_mem_performed : .command_callback action ∈ u.performed lower ↔
    u.action lower = some action ∧ u.env.installed .command_callback = true ∧ u.env.Reaches := by
  rw [Utterance.performed, ← and_assoc, ← command_mem_command]
  rcases process_command_cases lower u with ⟨-, hprocess, haction⟩ | ⟨-, speech, hprocess⟩
  · rw [hprocess, haction]
    simp [List.upTo, command]
  · rw [hprocess]
    by_cases hcommand : .command_callback action ∈ command u.env (u.action lower)
    · obtain ⟨haction, hinstalled⟩ := command_mem_command.1 hcommand
      rw [and_iff_right hcommand, haction, command, if_pos hinstalled,
        List.mem_upTo_concat command_not_mem_before, forall_before]
    · refine iff_of_false (fun hmem => ?_) fun h => hcommand h.1
      rcases List.mem_append.1 (List.mem_of_mem_upTo hmem) with hbefore | hmem
      · exact command_not_mem_before hbefore
      · exact hcommand hmem

/-! ## The pause -/

def Entry.wakes (entry : Entry) : Bool := entry.key = "begin simian" || entry.key = "wake up"

namespace Utterance
variable (lower : String → String) (u : Utterance)

def Stops : Prop := ∃ entry, u.entry lower = some entry ∧ entry.key = "stop listening"

def Wakes : Prop := ∃ entry, u.entry lower = some entry ∧ entry.wakes = true

/-- The transcript is resolved to an entry with an action, and the call of `command_callback` is
reached. -/
def Commands : Prop :=
  (u.action lower).isSome = true ∧ u.env.installed .command_callback = true ∧ u.env.Reaches

end Utterance

/-- After the transcripts `us` the pause has been announced, and no wake entry since. -/
def Paused (lower : String → String) (us : List Utterance) : Prop :=
  ∃ before u after, us = before ++ u :: after ∧ u.Stops lower ∧ ∀ v ∈ after, ¬ v.Wakes lower

/-- While the pause is on, no transcript but one of a wake entry calls `command_callback`. -/
def KeepsPause (lower : String → String) (us : List Utterance) : Prop :=
  ∀ before u after, us = before ++ u :: after → Paused lower before → ¬ u.Wakes lower →
    ∀ action, .command_callback action ∉ u.performed lower

theorem commands_iff :
    u.Commands lower ↔ ∃ action, .command_callback action ∈ u.performed lower := by
  simp only [Utterance.Commands, command_mem_performed, Option.isSome_iff_exists,
    exists_and_right]

/-- The pause is kept exactly if no transcript asks for a command while it is on. -/
theorem keeps_pause_iff (lower : String → String) (us : List Utterance) :
    KeepsPause lower us ↔ ∀ before u after, us = before ++ u :: after → Paused lower before →
      ¬ u.Wakes lower → ¬ u.Commands lower := by
  constructor
  · intro h before u after hsplit hpaused hwakes hcommands
    obtain ⟨action, hmem⟩ := commands_iff.1 hcommands
    exact h before u after hsplit hpaused hwakes action hmem
  · intro h before u after hsplit hpaused hwakes action hmem
    exact h before u after hsplit hpaused hwakes (commands_iff.2 ⟨action, hmem⟩)

/-- All callbacks are installed and none raises. -/
def quiet : Env := ⟨"[2024-05-01 12:00:00]", fun _ => true, fun _ => false, ""⟩

/-- A command after the announced pause. -/
theorem pause_not_kept :
    ¬ KeepsPause asciiLower [⟨"stop listening", quiet⟩, ⟨"Open Spotify", quiet⟩] := by
  intro h
  have hpaused : Paused asciiLower [⟨"stop listening", quiet⟩] := by
    have hentry : (Utterance.mk "stop listening" quiet).entry asciiLower =
        some ⟨"stop listening", "Voice recognition paused.", none⟩ := by
      decide +kernel
    exact ⟨[], _, [], rfl, ⟨_, hentry, rfl⟩, fun _ hmem => absurd hmem List.not_mem_nil⟩
  refine h [⟨"stop listening", quiet⟩] ⟨"Open Spotify", quiet⟩ [] rfl hpaused ?_ "open_spotify" ?_
  · intro hwakes
    obtain ⟨entry, hentry, hkey⟩ := hwakes
    have heq : (Utterance.mk "Open Spotify" quiet).entry asciiLower =
        some ⟨"open spotify", "Opening Spotify.", some "open_spotify"⟩ := by
      decide +kernel
    cases heq.symm.trans hentry
    exact absurd hkey (by decide)
  · decide +kernel

/-! ## The listener -/

/-- What comes out of the recognizer for a block of audio. -/
inductive Heard
  | rejected
  | untitled
  | text (u : Utterance)

/-- The transcripts, in order. -/
def transcripts (heard : List Heard) : List Utterance :=
  heard.filterMap fun
    | .text u => some u
    | .rejected | .untitled => none

/-- `while True`, until the queue is empty: what is handed to `process_command`, and the exception
that ends the loop. -/
def listenLoop (lower : String → String) : List Heard → List Utterance × Option String
  | [] => ([], none)
  | .rejected :: heard => listenLoop lower heard
  | .untitled :: heard => listenLoop lower heard
  | .text u :: heard =>
    if u.raised lower then ([u], some u.env.error)
    else
      let (handed, ended) := listenLoop lower heard
      (u :: handed, ended)

/-- What `listen_audio` has done when the queue is empty. -/
structure Session where
  handed : List Utterance
  effects : List Effect
  ended : Bool

/-- `start` is what the outside does while the listener starts, and `handler` while it handles an
exception. -/
def listen_audio (lower : String → String) (start handler : Env) (heard : List Heard) : Session :=
  let activated := log start "Mic activated (offline Vosk)"
  if start.fails activated then
    ⟨[], [activated, log handler ("Mic listener error: " ++ start.error)], true⟩
  else
    match listenLoop lower heard with
    | (handed, none) => ⟨handed, activated :: handed.flatMap (Utterance.performed lower), false⟩
    | (handed, some e) =>
      ⟨handed, activated :: handed.flatMap (Utterance.performed lower) ++
        [log handler ("Mic listener error: " ++ e)], true⟩

variable {start handler : Env} {heard : List Heard}

theorem handed_listenLoop :
    (listenLoop lower heard).1 = (transcripts heard).upTo (Utterance.raised lower) := by
  induction heard with
  | nil => rfl
  | cons h heard ih =>
    cases h with
    | rejected | untitled => exact ih
    | text u =>
      rw [listenLoop]
      cases hu : u.raised lower with
      | true => exact (List.upTo_cons_of_pos hu).symm
      | false =>
        refine Eq.trans ?_ (List.upTo_cons_of_neg hu).symm
        exact congrArg (u :: ·) ih

theorem handed_listen_audio (h : start.fails (log start "Mic activated (offline Vosk)") = false) :
    (listen_audio lower start handler heard).handed =
      (transcripts heard).upTo (Utterance.raised lower) := by
  rw [listen_audio, h, if_neg Bool.false_ne_true, ← handed_listenLoop]
  split
  · rename_i hloop
    rw [hloop]
  · rename_i hloop
    rw [hloop]

/-- None of the installed callbacks that the transcript calls raises. -/
def Utterance.Harmless (lower : String → String) (u : Utterance) : Prop :=
  strip u.text = "" ∨ u.env.Reaches ∧ ((u.action lower).isSome = true →
    u.env.installed .command_callback = true → u.env.raises .command_callback = false)

theorem forall_command {a? : Option String} : (∀ e ∈ command env a?, env.fails e = false) ↔
    (a?.isSome = true → env.installed .command_callback = true →
      env.raises .command_callback = false) := by
  cases a? with
  | none => simp [command]
  | some a =>
    rw [command]
    split
    · rename_i h
      simp [h, Env.fails]
    · rename_i h
      simp [h]

theorem raised_eq_false_iff : u.raised lower = false ↔ u.Harmless lower := by
  rw [Utterance.raised, List.any_eq_false, Utterance.Harmless]
  simp only [Bool.not_eq_true]
  rcases process_command_cases lower u with ⟨htext, hprocess, -⟩ | ⟨htext, speech, hprocess⟩
  · rw [hprocess]
    exact iff_of_true (fun _ hmem => absurd hmem List.not_mem_nil) (.inl htext)
  · rw [hprocess, List.forall_mem_append, forall_before, forall_command, or_iff_right htext]

/-- Once the listener is activated, every transcript is handed on exactly if no callback raises for
any of them but the last. -/
theorem hands_all_iff (h : start.installed .message_callback = true →
      start.raises .message_callback = false) :
    (listen_audio lower start handler heard).handed = transcripts heard ↔
      ∀ u ∈ (transcripts heard).dropLast, u.Harmless lower := by
  rw [handed_listen_audio (fails_log.2 h), List.upTo_eq_self_iff]
  exact forall₂_congr fun u _ => raised_eq_false_iff

theorem hands_all_two : (listen_audio asciiLower quiet quiet
      [.text ⟨"hello", quiet⟩, .rejected, .text ⟨"Open Spotify", quiet⟩]).handed =
    [⟨"hello", quiet⟩, ⟨"Open Spotify", quiet⟩] := by
  refine (hands_all_iff fun _ => rfl).2 fun u hu => ?_
  cases List.mem_singleton.1 hu
  exact .inr ⟨fun _ _ _ => rfl, fun _ _ => rfl⟩

/-- All callbacks are installed, and `memory_logger` raises. -/
def faulty : Env :=
  ⟨"[2024-05-01 12:00:00]", fun _ => true, (· = .memory_logger), "database is locked"⟩

/-- A failed entry in the memory is the end of the listener. -/
theorem not_handed_after_failure :
    (listen_audio asciiLower quiet quiet
      [.text ⟨"hello", faulty⟩, .text ⟨"Open Spotify", quiet⟩]).handed = [⟨"hello", faulty⟩] ∧
    (listen_audio asciiLower quiet quiet
      [.text ⟨"hello", faulty⟩, .text ⟨"Open Spotify", quiet⟩]).handed ≠
      transcripts [.text ⟨"hello", faulty⟩, .text ⟨"Open Spotify", quiet⟩] := by
  have hraised : (Utterance.mk "hello" faulty).raised asciiLower = true := by
    decide +kernel
  have hhanded : (listen_audio asciiLower quiet quiet
      [.text ⟨"hello", faulty⟩, .text ⟨"Open Spotify", quiet⟩]).handed =
        [⟨"hello", faulty⟩] := by
    rw [handed_listen_audio rfl]
    exact List.upTo_cons_of_pos hraised
  refine ⟨hhanded, fun h => ?_⟩
  have hlength := congrArg List.length (hhanded.symm.trans h)
  cases hlength

end Simian.MicListener
