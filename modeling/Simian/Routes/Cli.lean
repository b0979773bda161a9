import Simian.Lib.Keywords
import Simian.Lib.Python
import Simian.Services.MicListener

/-! # The command line of the assistant

`process_command` and `open_website` in `routes/cli.py`. Its chain of branches is a table of phrases
and what they lead to. Most of its flexible phrases decide nothing (`decided_by_keywords`), and on
the two commands that the voice router has too the two routers take the same branches but for texts
in which a recording is also asked for (`routers_agree`). -/

namespace Simian.Routes.Cli
open Python Keywords
open MicListener (Utterance)

/-- What a branch does. -/
inductive Deed
  | clip
  /-- The command if `os.name == "nt"`, and else. -/
  | system (nt other : String)
  | website (url name : String)
  deriving DecidableEq, Repr

/-- The branches of `process_command`, each with the phrases that it looks for. -/
def branches : List (Rule String Deed) :=
  [⟨["clip that"], .clip⟩,
    ⟨["open spotify"], .system "start spotify" "start spotify"⟩,
    ⟨["open discord"], .system "start discord" "start discord"⟩,
    ⟨["open steam"], .system "start steam" "start steam"⟩,
    ⟨["open obs", "open recorder"], .system "start obs64" "obs"⟩,
    ⟨["open epic", "open epicgames"], .system "start com.epicgames.launcher" "epic"⟩,
    ⟨["google", "go to google", "launch google", "search google"],
      .website "https://www.google.com" "Google"⟩,
    ⟨["youtube", "go to youtube", "launch youtube", "watch youtube"],
      .website "https://www.youtube.com" "YouTube"⟩,
    ⟨["github", "go to github", "launch github"], .website "https://github.com" "GitHub"⟩,
    ⟨["reddit", "open reddit", "go to reddit"], .website "https://www.reddit.com" "Reddit"⟩,
    ⟨["chatgpt", "open chatgpt", "talk to chatgpt"], .website "https://chat.openai.com" "ChatGPT"⟩,
    ⟨["gmail", "check email", "open gmail"], .website "https://mail.google.com" "Gmail"⟩,
    ⟨["netflix", "watch netflix"], .website "https://www.netflix.com" "Netflix"⟩,
    ⟨["hulu", "open hulu"], .website "https://www.hulu.com" "Hulu"⟩,
    ⟨["twitch", "watch twitch"], .website "https://www.twitch.tv" "Twitch"⟩,
    ⟨["amazon", "open amazon", "shop amazon"], .website "https://www.amazon.com" "Amazon"⟩,
    ⟨["twitter", "x.com", "go to twitter"], .website "https://www.twitter.com" "Twitter/X"⟩,
    ⟨["facebook", "open facebook"], .website "https://www.facebook.com" "Facebook"⟩,
    ⟨["instagram", "open instagram"], .website "https://www.instagram.com" "Instagram"⟩,
    ⟨["news", "open news", "cnn", "bbc", "nytimes"],
      .website "https://www.google.com/news" "News"⟩,
    ⟨["weather", "check weather"], .website "https://www.weather.com" "Weather"⟩,
    ⟨["stackoverflow", "open stackoverflow"],
      .website "https://stackoverflow.com" "StackOverflow"⟩]

inductive Level
  | debug
  | info
  | warning
  | error
  deriving DecidableEq, Repr

inductive Effect
  | log (level : Level) (message : String)
  /-- The attempt to import `clip_recent_video`. -/
  | import_clip
  | clip_recent_video
  | system (command : String)
  | browse (url : String)
  deriving DecidableEq, Repr

/-- What is outside. Exceptions are given by their texts. -/
structure Env where
  nt : Bool
  clip_import : Except String Unit
  clip_recent_video : Except String Unit
  browse : String → Except String Unit

def open_website (env : Env) (url name : String) : List Effect :=
  [.browse url, match env.browse url with
    | .ok () => .log .info ("[CLI] Opened " ++ name ++ " in default browser.")
    | .error e => .log .error ("[CLI] Failed to open " ++ name ++ ": " ++ e)]

def perform (env : Env) : Deed → List Effect
  | .clip => .import_clip :: match env.clip_import with
    | .ok () => .clip_recent_video :: match env.clip_recent_video with
      | .ok () => []
      | .error e => [.log .error ("[CLI] Clip error: " ++ e)]
    | .error e => [.log .error ("[CLI] Clip error: " ++ e)]
  | .system nt other => [.system (if env.nt then nt else other)]
  | .website url name => open_website env url name

/-- What is done with a command, for a table of branches. -/
def process (table : List (Rule String Deed)) (lower : String → String) (env : Env)
    (command : String) : List Effect :=
  let command := lower command
  .log .debug ("[CLI] Received command: " ++ command) ::
    match resolve (Substring · command) table with
    | some deed => perform env deed
    | none => [.log .warning ("[CLI] Unrecognized command: " ++ command)]

def process_command : (String → String) → Env → String → List Effect := process branches

/-! ## The phrases that decide -/

theorem parts_substring : Parts Substring fun key => key.toList.length where
  trans := List.IsInfix.trans
  size_lt h hne :=
    Nat.lt_of_le_of_ne h.length_le fun heq => hne (String.toList_inj.1 (h.eq_of_length heq))

/-- The branches without the phrases that another one of theirs is a part of. -/
def keywords : List (Rule String Deed) := branches.map (Rule.reduced Substring)

/-- The words with which a command is asked for decide nothing, only the names do, and words that
are added to a command can only move it to an earlier branch. -/
theorem decided_by_keywords (lower : String → String) (env : Env) (command : String) :
    process_command lower env command = process keywords lower env command ∧
      ∀ command', Substring (lower command) (lower command') →
        rank (Substring · (lower command')) branches ≤
          rank (Substring · (lower command)) branches := by
  refine ⟨?_, fun command' h => rank_le fun key hkey => List.IsInfix.trans hkey h⟩
  rw [process_command, process, process, keywords, resolve_reduced parts_substring]
  exact List.IsInfix.trans

example : keywords.map Rule.phrases =
    [["clip that"], ["open spotify"], ["open discord"], ["open steam"],
      ["open obs", "open recorder"], ["open epic"], ["google"], ["youtube"], ["github"], ["reddit"],
      ["chatgpt"], ["gmail", "check email"], ["netflix"], ["hulu"], ["twitch"], ["amazon"],
      ["twitter", "x.com"], ["facebook"], ["instagram"], ["news", "cnn", "bbc", "nytimes"],
      ["weather"], ["stackoverflow"]] := by decide +kernel

/-! ## The voice router -/

/-- The system commands of a branch. -/
def Deed.commands : Deed → List String
  | .clip | .website _ _ => []
  | .system nt other => [nt, other]

variable {lower : String → String} {env : Env} {text cmd : String} {deed : Deed}

theorem clip_mem_perform : .import_clip ∈ perform env deed ↔ deed = .clip := by
  cases deed with
  | clip => simp [perform]
  | system nt other => simp [perform]
  | website url name =>
    rw [perform, open_website]
    split <;> simp

theorem mem_commands_of_perform (h : .system cmd ∈ perform env deed) : cmd ∈ deed.commands := by
  cases deed with
  | clip =>
    rw [perform] at h
    split at h
    · split at h <;> simp at h
    · simp at h
  | system nt other =>
    cases List.mem_singleton.1 h
    rw [Deed.commands]
    split
    · exact List.mem_cons_self
    · exact List.mem_cons_of_mem nt List.mem_cons_self
  | website url name =>
    rw [perform, open_website] at h
    split at h <;> simp at h

theorem mem_process {e : Effect} {table : List (Rule String Deed)}
    (h : ∀ level message, e ≠ .log level message) : e ∈ process table lower env text ↔
      ∃ deed, resolve (Substring · (lower text)) table = some deed ∧ e ∈ perform env deed := by
  rw [process, List.mem_cons, or_iff_right (h _ _)]
  cases resolve (Substring · (lower text)) table with
  | none => simp [h]
  | some deed => simp

theorem clip_mem_process_command : .import_clip ∈ process_command lower env text ↔
    Substring "clip that" (lower text) := by
  rw [process_command, mem_process (by simp), branches]
  have happlies : Rule.Applies (Substring · (lower text)) ⟨["clip that"], Deed.clip⟩ ↔ _ :=
    applies_singleton
  by_cases hclip : Substring "clip that" (lower text)
  · rw [resolve_of_applies (happlies.2 hclip)]
    exact iff_of_true ⟨.clip, rfl, clip_mem_perform.2 rfl⟩ hclip
  · rw [resolve_of_not_applies (mt happlies.1 hclip)]
    refine iff_of_false ?_ hclip
    rintro ⟨deed, hresolve, hdeed⟩
    obtain ⟨rule, hrule, rfl⟩ := mem_of_resolve hresolve
    have hother : ∀ rule ∈ branches.tail, rule.target ≠ .clip := by decide
    exact hother rule hrule (clip_mem_perform.1 hdeed)

theorem spotify_mem_process_command :
    .system "start spotify" ∈ process_command lower env text ↔
      ¬ Substring "clip that" (lower text) ∧ Substring "open spotify" (lower text) := by
  rw [process_command, mem_process (by simp), branches]
  have hfirst : Rule.Applies (Substring · (lower text)) ⟨["clip that"], Deed.clip⟩ ↔ _ :=
    applies_singleton
  have hsecond : Rule.Applies (Substring · (lower text))
      ⟨["open spotify"], Deed.system "start spotify" "start spotify"⟩ ↔ _ := applies_singleton
  by_cases hclip : Substring "clip that" (lower text)
  · rw [resolve_of_applies (hfirst.2 hclip)]
    refine iff_of_false ?_ fun h => h.1 hclip
    rintro ⟨deed, hdeed, hmem⟩
    cases hdeed
    exact absurd (mem_commands_of_perform hmem) List.not_mem_nil
  · rw [resolve_of_not_applies (mt hfirst.1 hclip), and_iff_right hclip]
    by_cases hspotify : Substring "open spotify" (lower text)
    · rw [resolve_of_applies (hsecond.2 hspotify)]
      exact iff_of_true ⟨_, rfl, by simp [perform]⟩ hspotify
    · rw [resolve_of_not_applies (mt hsecond.1 hspotify)]
      refine iff_of_false ?_ hspotify
      rintro ⟨deed, hresolve, hmem⟩
      obtain ⟨rule, hrule, rfl⟩ := mem_of_resolve hresolve
      have hother : ∀ rule ∈ branches.tail.tail, "start spotify" ∉ rule.target.commands := by
        decide
      exact hother rule hrule (mem_commands_of_perform hmem)

/-- The action of the voice router, by what occurs in the text. -/
theorem resolve_action (cmd : String) :
    (MicListener.resolve cmd).bind MicListener.Entry.action =
        (if Substring "clip that" cmd then some "clip_that"
        else if Substring "start recording" cmd then some "start_recording"
        else if Substring "stop recording" cmd then some "stop_recording"
        else if Substring "open spotify" cmd then some "open_spotify"
        else if Substring "begin simian" cmd ∨ Substring "wake up" cmd then some "wake_simian"
        else none) := by
  rw [MicListener.resolve, MicListener.commands]
  by_cases hclip : Substring "clip that" cmd
  · simp [hclip]
  by_cases hstart : Substring "start recording" cmd
  · simp [hclip, hstart]
  by_cases hstop : Substring "stop recording" cmd
  · simp [hclip, hstart, hstop]
  by_cases hspotify : Substring "open spotify" cmd
  · simp [hclip, hstart, hstop, hspotify]
  by_cases hbegin : Substring "begin simian" cmd
  · simp [hclip, hstart, hstop, hspotify, hbegin]
  by_cases hwake : Substring "wake up" cmd
  · simp [hclip, hstart, hstop, hspotify, hbegin, hwake]
  by_cases hpause : Substring "stop listening" cmd
  · simp [hclip, hstart, hstop, hspotify, hbegin, hwake, hpause]
  · simp [hclip, hstart, hstop, hspotify, hbegin, hwake, hpause]

/-- What the two routers make of a transcript that is not blank: both try to clip or neither does,
and both open Spotify or neither does, but for transcripts in which the voice router hears that a
recording is to be started or stopped. -/
theorem routers_agree {u : Utterance} (lower : String → String) (env : Env)
    (htext : strip u.text ≠ "") :
    (.import_clip ∈ process_command lower env u.text ↔
      u.action lower = some "clip_that") ∧
    (.system "start spotify" ∈ process_command lower env u.text ↔
      u.action lower = some "open_spotify" ∨
        (u.action lower = some "start_recording" ∨ u.action lower = some "stop_recording") ∧
          Substring "open spotify" (lower u.text)) := by
  have hclip : Substring "clip that" (strip (lower u.text)) ↔ Substring "clip that" (lower u.text) :=
    substring_strip rfl rfl rfl rfl
  have hspotify : Substring "open spotify" (strip (lower u.text)) ↔
      Substring "open spotify" (lower u.text) := substring_strip rfl rfl rfl rfl
  rw [clip_mem_process_command, spotify_mem_process_command, Utterance.action, Utterance.entry,
    if_neg htext, resolve_action, ← hclip, ← hspotify]
  split
  · rename_i h
    simp [h]
  · rename_i hclip
    split
    · simp [hclip]
    · split
      · simp [hclip]
      · split
        · rename_i h
          simp [hclip, h]
        · rename_i h
          split <;> simp [hclip, h]

def windows : Env :=
  ⟨true, .error "cannot import name 'clip_recent_video'", .ok (), fun _ => .ok ()⟩

/-- A transcript with both commands in it. -/
def both : Utterance :=
  ⟨" Open Spotify and stop recording", ⟨"", fun _ => true, fun _ => false, ""⟩⟩

theorem routers_agree_both :
    (.import_clip ∈ process_command asciiLower windows both.text ↔
      both.action asciiLower = some "clip_that") ∧
    (.system "start spotify" ∈ process_command asciiLower windows both.text ↔
      both.action asciiLower = some "open_spotify" ∨
        (both.action asciiLower = some "start_recording" ∨
          both.action asciiLower = some "stop_recording") ∧
          Substring "open spotify" (asciiLower both.text)) :=
  routers_agree asciiLower windows (by decide)

end Simian.Routes.Cli
