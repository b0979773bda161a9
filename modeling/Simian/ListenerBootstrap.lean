import Mathlib.Algebra.Order.Ring.Rat
import Mathlib.Tactic.NormNum
import Simian.Lib.Json.RoundTrip
import Simian.Lib.Python
import Simian.SimianLauncher

/-! # The wake listener

`listener_bootstrap.py`: the configuration, the wake phrases and the start of the launcher. The
microphone and the model are there. -/

namespace Simian.ListenerBootstrap
open Json Python

variable {α : Type}

def DEFAULT_WAKE_PHRASES : List String :=
  ["simian begin", "simeon begin", "simian", "begin simian", "semyon began", "simeon began",
    "begin semyon"]

/-- A list of strings as a value. -/
def strings (phrases : List String) : Obj α := .list (phrases.map .str)

def DEFAULT_CONFIG : Obj α :=
  .dict [(.str "wake_phrases", strings DEFAULT_WAKE_PHRASES), (.str "boot_mode", .str "full"),
    (.str "confirmation_voice", .str "goodmorning"), (.str "auth_mode", .str "none")]

/-- What the configuration file holds: something that cannot be read as text, or a text. -/
inductive Content
  | unreadable
  | text (cs : List Char)

/-- `json.load`; `none` if it raises. Which texts it takes, as of strings with lone surrogates, deep
nesting or long integers, is left to it. The default configuration is read back as it was written,
and a proper beginning of its document is no document. -/
structure Decoder (α : Type) [Scalar α] where
  load : List Char → Option (Obj α)
  load_default : load (dump 4 (DEFAULT_CONFIG : Obj α)).text = some DEFAULT_CONFIG
  load_beginning : ∀ n, n < (dump 4 (DEFAULT_CONFIG : Obj α)).text.length →
    load ((dump 4 (DEFAULT_CONFIG : Obj α)).text.take n) = none

/-- The file afterwards, and the configuration. -/
def load_config [Scalar α] (J : Decoder α) (file : Option Content) : Content × Obj α :=
  let content := file.getD (.text (dump 4 (DEFAULT_CONFIG : Obj α)).text)
  match content with
  | .unreadable => (content, DEFAULT_CONFIG)
  | .text cs => (content, (J.load cs).getD DEFAULT_CONFIG)

/-- The words of `difflib` that the listener uses. -/
structure Difflib (α : Type) where
  ratio : String → String → ℚ
  ratio_self : ∀ s, ratio s s = 1
  ratio_disjoint : ∀ s t, s ≠ t → (∀ c ∈ s.toList, c ∉ t.toList) → ratio s t = 0
  get_close_matches : String → Obj α → Nat → ℚ → Except Error (List (Obj α))
  close : ∀ word phrases (cutoff : ℚ), 0 ≤ cutoff → cutoff ≤ 1 →
    ∃ found, get_close_matches word (strings phrases) 1 cutoff = .ok found ∧
      (found ≠ [] ↔ ∃ phrase ∈ phrases, cutoff ≤ ratio phrase word)

/-- A `difflib` for which different strings have nothing in common. -/
def exactly : Difflib Constant where
  ratio s t := if s = t then 1 else 0
  ratio_self _ := if_pos rfl
  ratio_disjoint _ _ hne _ := if_neg hne
  get_close_matches word possibilities n cutoff :=
    match possibilities with
    | .list xs => .ok ((xs.filter fun
        | .str s => cutoff ≤ if s = word then 1 else 0
        | _ => false).take n)
    | _ => .error .typeError
  close word phrases cutoff _ _ := by
    refine ⟨_, rfl, ?_⟩
    simp [List.filter_eq_nil_iff]

def is_match (D : Difflib α) (transcript : String) (wake_phrases : Obj α) : Except Error Bool :=
  (D.get_close_matches transcript wake_phrases 1 (3 / 4)).map fun close => !close.isEmpty

/-- `cmd`; `sep` is the separator of paths. -/
def launch_simian [Interpreter α] (frozen : Bool) (sep : String) (boot_mode : Obj α) :
    List String :=
  let exe_path := "dist" ++ sep ++ "Simian" ++ sep ++ "Simian.exe"
  if frozen then [exe_path, "--mode=" ++ str boot_mode]
  else ["simian_launcher.py", "--mode=" ++ str boot_mode]

/-- What `wait_for_wake` reads from the configuration. -/
structure Settings (α : Type) where
  wake_phrases : Obj α
  confirmation_voice : Obj α
  boot_mode : Obj α
  auth_mode : Obj α

def settings (config : Obj α) : Except Error (Settings α) := do
  let wake_phrases ← Python.get "wake_phrases" (strings DEFAULT_WAKE_PHRASES) config
  let confirmation_voice ← Python.get "confirmation_voice" (.str "goodmorning") config
  let boot_mode ← Python.get "boot_mode" (.str "full") config
  let auth_mode ← Python.get "auth_mode" (.str "none") config
  return ⟨wake_phrases, confirmation_voice, boot_mode, auth_mode⟩

/-- The calls that are made in the loop. -/
inductive Effect (α : Type)
  | is_match (transcript : String) (wake_phrases : Obj α)
  | speak_confirmation (confirmation_voice : Obj α)
  | launch_simian (boot_mode : Obj α)

/-- How the loop stands when all transcripts are heard: it waits, has been left, or has raised. -/
inductive Ending
  | waiting
  | left
  | raised (e : Error)

section
variable (D : Difflib α) (lower : String → String)

/-- `while True`, over what is recognized. -/
def listen (s : Settings α) : List String → List (Effect α) × Ending
  | [] => ([], .waiting)
  | text :: texts =>
    let transcript := lower (strip text)
    let call := .is_match transcript s.wake_phrases
    match is_match D transcript s.wake_phrases with
    | .error e => ([call], .raised e)
    | .ok true =>
      ([call, .speak_confirmation s.confirmation_voice, .launch_simian s.boot_mode], .left)
    | .ok false =>
      let (effects, ending) := listen s texts
      (call :: effects, ending)

/-- An exception, or what is done in the loop. -/
def wait_for_wake [Scalar α] (J : Decoder α) (file : Option Content) (texts : List String) :
    Except Error (List (Effect α) × Ending) := do
  let s ← settings (load_config J file).2
  return listen D lower s texts

end

/-! ## The loop -/

def launches (effects : List (Effect α)) : List (Obj α) :=
  effects.filterMap fun
    | .launch_simian boot_mode => some boot_mode
    | .is_match _ _ | .speak_confirmation _ => none

/-- The transcript is close to one of the phrases. -/
def Close (D : Difflib α) (phrases : List String) (transcript : String) : Prop :=
  ∃ phrase ∈ phrases, 3 / 4 ≤ D.ratio phrase transcript

variable {D : Difflib α} {lower : String → String} {s : Settings α} {phrases texts : List String}
  {transcript text : String} {o : Obj α}

theorem is_match_strings : ∃ found, is_match D transcript (strings phrases) = .ok found ∧
    (found = true ↔ Close D phrases transcript) := by
  obtain ⟨close, hclose, hiff⟩ := D.close transcript phrases (3 / 4) (by norm_num) (by norm_num)
  refine ⟨!close.isEmpty, ?_, ?_⟩
  · rw [is_match, hclose]
    rfl
  · rw [Close, ← hiff]
    cases close <;> simp

theorem close_self (h : transcript ∈ phrases) : Close D phrases transcript := by
  refine ⟨transcript, h, ?_⟩
  rw [D.ratio_self]
  norm_num

/-- A transcript with no character of any phrase is close to none. -/
theorem not_close (hne : transcript ∉ phrases)
    (h : ∀ phrase ∈ phrases, ∀ c ∈ phrase.toList, c ∉ transcript.toList) :
    ¬ Close D phrases transcript := by
  intro hclose
  obtain ⟨phrase, hphrase, hratio⟩ := hclose
  rw [D.ratio_disjoint phrase transcript (fun heq => hne (heq ▸ hphrase)) (h phrase hphrase)]
    at hratio
  norm_num at hratio

@[simp] theorem launches_nil : launches ([] : List (Effect α)) = [] := rfl

@[simp] theorem launches_is_match {effects : List (Effect α)} :
    launches (.is_match transcript o :: effects) = launches effects := rfl

@[simp] theorem launches_speak {effects : List (Effect α)} :
    launches (.speak_confirmation o :: effects) = launches effects := rfl

@[simp] theorem launches_launch {effects : List (Effect α)} :
    launches (.launch_simian o :: effects) = o :: launches effects := rfl

/-- The call of `is_match` for a transcript. -/
def Settings.call (s : Settings α) (lower : String → String) (text : String) : Effect α :=
  .is_match (lower (strip text)) s.wake_phrases

/-- What a transcript leads to. -/
theorem listen_cons (D : Difflib α) (lower : String → String) (s : Settings α) (text : String)
    (texts : List String) : (∃ e, is_match D (lower (strip text)) s.wake_phrases = .error e ∧
      listen D lower s (text :: texts) = ([s.call lower text], .raised e)) ∨
    (is_match D (lower (strip text)) s.wake_phrases = .ok true ∧
      listen D lower s (text :: texts) = ([s.call lower text,
        .speak_confirmation s.confirmation_voice, .launch_simian s.boot_mode], .left)) ∨
    is_match D (lower (strip text)) s.wake_phrases = .ok false ∧
      listen D lower s (text :: texts) =
        (s.call lower text :: (listen D lower s texts).1, (listen D lower s texts).2) := by
  rw [listen]
  cases is_match D (lower (strip text)) s.wake_phrases with
  | error e => exact .inl ⟨e, rfl, rfl⟩
  | ok found =>
    cases found with
    | true => exact .inr (.inl ⟨rfl, rfl⟩)
    | false => exact .inr (.inr ⟨rfl, rfl⟩)

/-- The settings are passed on as they are. -/
theorem mem_listen {effect : Effect α} (h : effect ∈ (listen D lower s texts).1) :
    (∃ text ∈ texts, effect = s.call lower text) ∨
      effect = .speak_confirmation s.confirmation_voice ∨ effect = .launch_simian s.boot_mode := by
  induction texts with
  | nil => cases h
  | cons text texts ih =>
    have hcall : effect = s.call lower text → ∃ t ∈ text :: texts, effect = s.call lower t :=
      fun heq => ⟨text, List.mem_cons_self, heq⟩
    rcases listen_cons D lower s text texts with ⟨e, -, heq⟩ | ⟨-, heq⟩ | ⟨-, heq⟩
    · rw [heq] at h
      exact .inl (hcall (List.mem_singleton.1 h))
    · rw [heq] at h
      rcases List.mem_cons.1 h with h | h
      · exact .inl (hcall h)
      · exact .inr (by simpa using h)
    · rw [heq] at h
      rcases List.mem_cons.1 h with h | h
      · exact .inl (hcall h)
      · rcases ih h with ⟨t, ht, heq⟩ | h
        · exact .inl ⟨t, List.mem_cons_of_mem text ht, heq⟩
        · exact .inr h

theorem eq_of_is_match_mem (h : .is_match transcript o ∈ (listen D lower s texts).1) :
    o = s.wake_phrases := by
  rcases mem_listen h with ⟨text, -, heq⟩ | heq | heq
  · exact (Effect.is_match.inj heq).2
  · cases heq
  · cases heq

theorem eq_of_launch_mem (h : .launch_simian o ∈ (listen D lower s texts).1) :
    o = s.boot_mode := by
  rcases mem_listen h with ⟨text, -, heq⟩ | heq | heq
  · cases heq
  · cases heq
  · exact Effect.launch_simian.inj heq

theorem call_mem_listen : s.call lower text ∈ (listen D lower s (text :: texts)).1 := by
  rcases listen_cons D lower s text texts with ⟨e, -, heq⟩ | ⟨-, heq⟩ | ⟨-, heq⟩
  all_goals
    rw [heq]
    exact List.mem_cons_self

theorem listen_not_raised (h : s.wake_phrases = strings phrases) (e : Error) :
    (listen D lower s texts).2 ≠ .raised e := by
  induction texts with
  | nil => exact Ending.noConfusion
  | cons text texts ih =>
    rcases listen_cons D lower s text texts with ⟨e, herror, -⟩ | ⟨-, heq⟩ | ⟨-, heq⟩
    · obtain ⟨found, hfound, -⟩ := @is_match_strings _ D phrases (lower (strip text))
      rw [h, hfound] at herror
      cases herror
    · rw [heq]
      exact Ending.noConfusion
    · rw [heq]
      exact ih

theorem length_launches_listen : (launches (listen D lower s texts).1).length ≤ 1 := by
  induction texts with
  | nil => exact Nat.zero_le 1
  | cons text texts ih =>
    rcases listen_cons D lower s text texts with ⟨e, -, heq⟩ | ⟨-, heq⟩ | ⟨-, heq⟩
    · rw [heq]
      exact Nat.zero_le 1
    · rw [heq]
      exact Nat.le_refl 1
    · rw [heq]
      exact ih

/-- The launcher is started once a transcript is close to a phrase. -/
theorem launches_listen (h : s.wake_phrases = strings phrases) :
    launches (listen D lower s texts).1 ≠ [] ↔
      ∃ text ∈ texts, Close D phrases (lower (strip text)) := by
  induction texts with
  | nil => simp [listen]
  | cons text texts ih =>
    obtain ⟨found, hfound, hclose⟩ :=
      @is_match_strings _ D phrases (lower (strip text))
    rw [List.exists_mem_cons_iff, ← hclose, ← ih]
    rw [← h] at hfound
    rcases listen_cons D lower s text texts with ⟨e, herror, -⟩ | ⟨htrue, heq⟩ | ⟨hfalse, heq⟩
    · cases hfound.symm.trans herror
    · cases hfound.symm.trans htrue
      simp [heq, Settings.call]
    · cases hfound.symm.trans hfalse
      simp [heq, Settings.call]

/-! ## The mode -/

/-- The mode on the command line is not read, so what is started is what the environment names and
can run. -/
theorem mode_handed_over_iff [Interpreter α] (host : SimianLauncher.Host) (lower : String → String)
    (int : String → Except String Int) (environ : String → Option String) (frozen : Bool)
    (sep boot_mode : String) :
    SimianLauncher.started host lower int environ
        (launch_simian frozen sep (.str boot_mode : Obj α)) =
      SimianLauncher.named lower boot_mode ↔
      SimianLauncher.EnvironmentNames host lower int environ boot_mode :=
  SimianLauncher.started_iff

/-- The mode "api" where the environment has the mode "gui": nothing is started as the import of the
window fails, and if it did not, the window would be. -/
theorem mode_lost :
    let environ := fun key => if key = "SIMIAN_MODE" then some "gui" else none
    let cmd := launch_simian false "/" (.str "api" : Obj Constant)
    SimianLauncher.started ⟨none, some (.external "ImportError: cannot import name 'greeting'"),
        true⟩ asciiLower (fun _ => .ok 8000) environ cmd = [] ∧
      SimianLauncher.started ⟨none, none, true⟩ asciiLower (fun _ => .ok 8000) environ cmd =
        [.gui] ∧
      SimianLauncher.named asciiLower "api" = [.api] := by
  intro environ cmd
  refine ⟨?_, ?_, ?_⟩
  · decide +kernel
  · decide +kernel
  · decide +kernel

/-! ## The configuration -/

variable {kvs : List (Key × Obj α)}

/-- What the settings are for a configuration that is an object. -/
def Settings.of (kvs : List (Key × Obj α)) : Settings α where
  wake_phrases := (kvs.lookup (.str "wake_phrases")).getD (strings DEFAULT_WAKE_PHRASES)
  confirmation_voice := (kvs.lookup (.str "confirmation_voice")).getD (.str "goodmorning")
  boot_mode := (kvs.lookup (.str "boot_mode")).getD (.str "full")
  auth_mode := (kvs.lookup (.str "auth_mode")).getD (.str "none")

theorem Settings.of_wake_phrases (h : kvs.lookup (.str "wake_phrases") = some o) :
    (Settings.of kvs).wake_phrases = o := by
  rw [Settings.of, h]
  rfl

theorem settings_of_not_dict (h : ∀ kvs, o ≠ .dict kvs) : settings o = .error .attributeError := by
  cases o with
  | dict kvs => exact absurd rfl (h kvs)
  | _ => rfl

theorem strings_plain : (strings phrases : Obj α).Plain := by
  apply Obj.plainElems_iff.mpr
  intro x hx
  obtain ⟨p, -, rfl⟩ := List.mem_map.1 hx
  trivial

theorem DEFAULT_CONFIG_plain : (DEFAULT_CONFIG : Obj α).Plain := by
  simp [DEFAULT_CONFIG, Obj.Plain, Obj.PlainMembers, Dict.keys, strings_plain]

variable [Scalar α] {J : Decoder α} {file : Option Content}

/-- The reader of what `dump` writes. -/
def reader : Decoder α where
  load := load
  load_default := by rw [load_dump DEFAULT_CONFIG_plain.writable, DEFAULT_CONFIG_plain.normal_eq]
  load_beginning n hn := by
    cases hload : load (α := α) ((dump 4 (DEFAULT_CONFIG : Obj α)).text.take n) with
    | none => rfl
    | some o =>
      obtain ⟨-, hle, -⟩ := load_take.1 hload
      exact absurd hn (Nat.not_lt.2 hle)

/-- The document in the file, if there is one. -/
def document (J : Decoder α) (file : Option Content) : Option (Obj α) :=
  match file with
  | some (.text cs) => J.load cs
  | some .unreadable | none => none

/-- The file that is written for a missing one has the default as its document. -/
theorem load_config_eq : (load_config J file).2 = (document J file).getD DEFAULT_CONFIG := by
  rcases file with _ | _ | cs
  · simp only [load_config, document, Option.getD_none, J.load_default, Option.getD_some]
  · rfl
  · rfl

theorem load_config_of_document (h : document J file = some o) : (load_config J file).2 = o := by
  rw [load_config_eq, h, Option.getD_some]

/-- The file holds an object in which the wake phrases are the strings `phrases`. -/
def Configures (J : Decoder α) (file : Option Content) (phrases : List String) : Prop :=
  ∃ kvs, document J file = some (.dict kvs) ∧
    kvs.lookup (.str "wake_phrases") = some (strings phrases)

/-- The phrases of the file if it has a list of strings, or else the default ones. -/
def Expected (J : Decoder α) (file : Option Content) (o : Obj α) : Prop :=
  (∃ phrases, Configures J file phrases ∧ o = strings phrases) ∨
    (∀ phrases, ¬ Configures J file phrases) ∧ o = strings DEFAULT_WAKE_PHRASES

/-- Whatever is said, the loop is reached, compares with the expected phrases and raises nothing. -/
def FallsBack (D : Difflib α) (lower : String → String) (J : Decoder α) (file : Option Content) :
    Prop :=
  ∀ texts, ∃ effects ending, wait_for_wake D lower J file texts = .ok (effects, ending) ∧
    (∀ transcript o, .is_match transcript o ∈ effects → Expected J file o) ∧
      ∀ e, ending ≠ .raised e

/-- The file has no document, or an object whose wake phrases are absent or a list of strings. -/
def WellTyped (J : Decoder α) (file : Option Content) : Prop :=
  ∀ o, document J file = some o → ∃ kvs, o = .dict kvs ∧
    ∀ o', kvs.lookup (.str "wake_phrases") = some o' → ∃ phrases, o' = strings phrases

theorem wait_for_wake_dict {texts : List String} (h : (load_config J file).2 = .dict kvs) :
    wait_for_wake D lower J file texts = .ok (listen D lower (.of kvs) texts) := by
  rw [wait_for_wake, h]
  rfl

theorem wait_for_wake_of_not_dict {texts : List String}
    (h : ∀ kvs, (load_config J file).2 ≠ .dict kvs) :
    wait_for_wake D lower J file texts = .error .attributeError := by
  rw [wait_for_wake, settings_of_not_dict h]
  rfl

theorem WellTyped.settings (h : WellTyped J file) :
    ∃ (kvs : List (Key × Obj α)) (phrases : List String), (load_config J file).2 = .dict kvs ∧
      (Settings.of kvs).wake_phrases = strings phrases ∧
        Expected J file (strings phrases) := by
  cases hdoc : document J file with
  | none =>
    have hconfig : (load_config J file).2 = (DEFAULT_CONFIG : Obj α) := by
      rw [load_config_eq, hdoc, Option.getD_none]
    refine ⟨_, _, hconfig, rfl, .inr ⟨fun phrases hconf => ?_, rfl⟩⟩
    obtain ⟨kvs, hkvs, -⟩ := hconf
    cases hdoc.symm.trans hkvs
  | some o =>
    obtain ⟨kvs, rfl, hphrases⟩ := h o hdoc
    have hconfig := load_config_of_document hdoc
    cases hlookup : kvs.lookup (.str "wake_phrases") with
    | none =>
      have hdefault : (Settings.of kvs).wake_phrases = strings DEFAULT_WAKE_PHRASES := by
        rw [Settings.of, hlookup]
        rfl
      refine ⟨kvs, _, hconfig, hdefault, .inr ⟨fun phrases hconf => ?_, rfl⟩⟩
      obtain ⟨kvs', hkvs, hlookup'⟩ := hconf
      cases hdoc.symm.trans hkvs
      cases hlookup.symm.trans hlookup'
    | some o =>
      obtain ⟨phrases, rfl⟩ := hphrases o hlookup
      exact ⟨kvs, phrases, hconfig, Settings.of_wake_phrases hlookup,
        .inl ⟨phrases, ⟨kvs, hdoc, hlookup⟩, rfl⟩⟩

/-- The listener survives exactly the files without a document, and the objects whose wake phrases
are absent or a list of strings. -/
theorem falls_back_iff (D : Difflib α) (lower : String → String) (J : Decoder α)
    (file : Option Content) : FallsBack D lower J file ↔ WellTyped J file := by
  constructor
  · intro h o hdoc
    have hconfig := load_config_of_document hdoc
    obtain ⟨effects, ending, hrun, hexpected, -⟩ := h [""]
    by_cases hdict : ∃ kvs, o = .dict kvs
    · obtain ⟨kvs, rfl⟩ := hdict
      refine ⟨kvs, rfl, fun o' ho' => ?_⟩
      have heffects : (listen D lower (.of kvs) [""]).1 = effects :=
        congrArg Prod.fst (Except.ok.inj ((wait_for_wake_dict hconfig).symm.trans hrun))
      have hcall := hexpected _ _ (heffects ▸ call_mem_listen)
      rw [Settings.of_wake_phrases ho'] at hcall
      rcases hcall with ⟨phrases, -, heq⟩ | ⟨-, heq⟩
      · exact ⟨phrases, heq⟩
      · exact ⟨_, heq⟩
    · rw [wait_for_wake_of_not_dict] at hrun
      · cases hrun
      · intro kvs heq
        exact hdict ⟨kvs, hconfig.symm.trans heq⟩
  · intro h texts
    obtain ⟨kvs, phrases, hconfig, hphrases, hexpected⟩ := h.settings
    refine ⟨_, _, wait_for_wake_dict hconfig, fun transcript o hmem => ?_,
      listen_not_raised hphrases⟩
    rw [eq_of_is_match_mem hmem, hphrases]
    exact hexpected

/-- An empty list in the file ends the listener before its loop. -/
theorem crashes_on_list :
    wait_for_wake exactly asciiLower reader (some (.text ['[', ']'])) [] = .error .attributeError ∧
    ¬ FallsBack exactly asciiLower reader (some (.text ['[', ']'])) := by
  have hcrash : wait_for_wake exactly asciiLower reader (some (.text ['[', ']'])) [] =
      .error .attributeError := rfl
  refine ⟨hcrash, fun h => ?_⟩
  obtain ⟨effects, ending, hrun, -⟩ := h []
  cases hcrash.symm.trans hrun

/-- What is done in the loop. -/
def effectsOf (r : Except Error (List (Effect α) × Ending)) : List (Effect α) :=
  match r with
  | .ok (effects, _) => effects
  | .error _ => []

/-- Equal up to letter case and surrounding white space. -/
def SameWords (lower : String → String) (text phrase : String) : Prop :=
  lower (strip text) = lower (strip phrase)

/-- Whatever is said, the launcher is started at most once, and it has been started when the
first of the phrases has been heard. -/
def WakesInTime (D : Difflib α) (lower : String → String) (J : Decoder α)
    (file : Option Content) (phrases : List String) : Prop :=
  ∀ texts, (launches (effectsOf (wait_for_wake D lower J file texts))).length ≤ 1 ∧
    ∀ before text after, texts = before ++ text :: after →
      (∃ phrase ∈ phrases, SameWords lower text phrase) →
      launches (effectsOf (wait_for_wake D lower J file (before ++ [text]))) ≠ []

theorem Configures.effectsOf (h : Configures J file phrases) (D : Difflib α)
    (lower : String → String) :
    ∃ s : Settings α, s.wake_phrases = strings phrases ∧
      ∀ texts, effectsOf (wait_for_wake D lower J file texts) = (listen D lower s texts).1 := by
  obtain ⟨kvs, hdoc, hlookup⟩ := h
  refine ⟨.of kvs, Settings.of_wake_phrases hlookup, fun texts => ?_⟩
  rw [wait_for_wake_dict (load_config_of_document hdoc)]
  rfl

/-- The same for the mode that the listener passes on from its configuration. -/
theorem configured_mode_iff [Interpreter α] {host : SimianLauncher.Host}
    {int : String → Except String Int} {environ : String → Option String} {frozen : Bool}
    {sep boot_mode : String} {texts : List String}
    (hdoc : document J file = some (.dict kvs))
    (hmode : kvs.lookup (.str "boot_mode") = some (.str boot_mode))
    (hlaunch : .launch_simian o ∈ effectsOf (wait_for_wake D lower J file texts)) :
    SimianLauncher.started host lower int environ (launch_simian frozen sep o) =
      SimianLauncher.named lower boot_mode ↔
      SimianLauncher.EnvironmentNames host lower int environ boot_mode := by
  rw [wait_for_wake_dict (load_config_of_document hdoc)] at hlaunch
  have hmodes := eq_of_launch_mem hlaunch
  rw [Settings.of, hmode] at hmodes
  rw [hmodes]
  exact SimianLauncher.started_iff

/-- The phrases are compared as they are configured, so each of them must be close to one when it is
said as a transcript, in lower case and without white space around it. -/
theorem wakes_in_time_iff (D : Difflib α) (lower : String → String)
    (h : Configures J file phrases) : WakesInTime D lower J file phrases ↔
      ∀ phrase ∈ phrases, Close D phrases (lower (strip phrase)) := by
  obtain ⟨s, hphrases, hrun⟩ := h.effectsOf D lower
  simp only [WakesInTime, hrun]
  constructor
  · intro hwakes phrase hphrase
    obtain ⟨text, htext, hclose⟩ := (launches_listen hphrases).1
      ((hwakes [phrase]).2 [] phrase [] rfl ⟨phrase, hphrase, rfl⟩)
    rwa [List.mem_singleton.1 htext] at hclose
  · intro hclose texts
    refine ⟨length_launches_listen, fun before text after _ hsame => ?_⟩
    obtain ⟨phrase, hphrase, hsame⟩ := hsame
    refine (launches_listen hphrases).2 ⟨text, ?_, ?_⟩
    · exact List.mem_append_right before List.mem_cons_self
    · rw [hsame]
      exact hclose phrase hphrase

/-! ## Some configurations -/

/-- A file with the wake phrases alone. -/
def configured (phrases : List String) : Content :=
  .text (dump 4 (.dict [(.str "wake_phrases", strings phrases)] : Obj Constant)).text

theorem configures_configured :
    Configures (α := Constant) reader (some (configured phrases)) phrases := by
  have hplain : (.dict [(.str "wake_phrases", strings phrases)] : Obj Constant).Plain := by
    simp [Obj.Plain, Obj.PlainMembers, Dict.keys, strings_plain]
  refine ⟨[(.str "wake_phrases", strings phrases)], ?_, rfl⟩
  rw [configured, document]
  exact (load_dump hplain.writable).trans (congrArg some hplain.normal_eq)

theorem wakes_in_time_simian_begin :
    WakesInTime exactly asciiLower reader (some (configured ["simian begin"]))
      ["simian begin"] := by
  apply (wakes_in_time_iff exactly asciiLower configures_configured).mpr
  intro phrase hphrase
  cases List.mem_singleton.1 hphrase
  have hlower : asciiLower (strip "simian begin") = "simian begin" := by decide +kernel
  rw [hlower]
  exact close_self List.mem_cons_self

/-- The phrase "SIMIAN" is not heard, since every transcript is in lower case. -/
theorem never_wakes_for_capitals :
    launches (effectsOf (wait_for_wake exactly asciiLower reader (some (configured ["SIMIAN"]))
      ["simian"])) = [] ∧
    ¬ WakesInTime exactly asciiLower reader (some (configured ["SIMIAN"])) ["SIMIAN"] := by
  have hlower : asciiLower (strip "simian") = "simian" := by decide +kernel
  have hfar : ¬ Close exactly ["SIMIAN"] "simian" := by
    refine not_close (by decide) fun phrase hphrase c hc hmem => ?_
    cases List.mem_singleton.1 hphrase
    have hall : ("SIMIAN".toList.all fun c => !"simian".toList.contains c) = true := by
      decide +kernel
    have hnot := List.all_eq_true.1 hall c hc
    rw [List.contains_iff_mem.2 hmem] at hnot
    cases hnot
  have hsilent : launches (effectsOf (wait_for_wake exactly asciiLower reader
      (some (configured ["SIMIAN"])) ["simian"])) = [] := by
    obtain ⟨s, hphrases, hrun⟩ :=
      (@configures_configured ["SIMIAN"]).effectsOf exactly asciiLower
    rw [hrun]
    by_contra hlaunch
    obtain ⟨text, htext, hclose⟩ := (launches_listen hphrases).1 hlaunch
    rw [List.mem_singleton.1 htext, hlower] at hclose
    exact hfar hclose
  refine ⟨hsilent, fun h => ?_⟩
  have hsame : SameWords asciiLower "simian" "SIMIAN" := by
    rw [SameWords]
    decide +kernel
  exact (h ["simian"]).2 [] "simian" [] rfl ⟨"SIMIAN", List.mem_cons_self, hsame⟩ hsilent

end Simian.ListenerBootstrap
