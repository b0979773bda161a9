import Mathlib.Tactic.Linarith
import Simian.Lib.SequenceMatcher
import Simian.ListenerBootstrap

/-! # What wakes the listener

The wake listener with the ratio of `SequenceMatcher`. A transcript is close to a phrase when three
eighths of their characters are matched, so neither may be much longer than the other, and of the
transcripts that contain the longest phrase only the short ones are heard. -/

namespace Simian.ListenerBootstrap
open Json Python

variable {α : Type}

/-- The strings that a loop over a value goes through; what holds anything else is not compared. -/
def iterated : Obj α → Option (List String)
  | .list xs | .tuple xs => xs.mapM fun
    | .str s => some s
    | _ => none
  | .dict kvs => kvs.mapM fun
    | (.str s, _) => some s
    | _ => none
  | .str s => some (s.toList.map String.singleton)
  | .scalar _ | .foreign => none

theorem iterated_strings {phrases : List String} :
    iterated (strings phrases : Obj α) = some phrases := by
  rw [strings, iterated]
  induction phrases with
  | nil => rfl
  | cons phrase phrases ih =>
    rw [List.map_cons, List.mapM_cons, ih]
    rfl

/-- `difflib.get_close_matches` -/
def get_close_matches (word : String) (possibilities : Obj α) (n : Nat) (cutoff : ℚ) :
    Except Error (List (Obj α)) :=
  match iterated possibilities with
  | none => .error .typeError
  | some xs =>
    match SequenceMatcher.get_close_matches word.toList (xs.map String.toList) n cutoff with
    | none => .error (.valueError "n must be > 0, cutoff must be in [0.0, 1.0]")
    | some found => .ok (found.map fun x => .str (String.ofList x))

/-- The words of `difflib` as `SequenceMatcher` has them. -/
def difflib : Difflib α where
  ratio s t := SequenceMatcher.ratio s.toList t.toList
  ratio_self s := SequenceMatcher.ratio_self
  ratio_disjoint s t hne h :=
    SequenceMatcher.ratio_disjoint (fun heq => hne (String.toList_injective heq)) h
  get_close_matches := get_close_matches
  close word phrases cutoff hlow hhigh := by
    obtain ⟨found, hfound, hiff⟩ := @SequenceMatcher.get_close_matches_spec _ _ _ _ word.toList
      (phrases.map String.toList) 1 cutoff Nat.one_pos hlow hhigh
    refine ⟨found.map fun x => .str (String.ofList x), ?_, ?_⟩
    · rw [get_close_matches, iterated_strings]
      simp only [hfound]
    · rw [Ne, List.map_eq_nil_iff, ← Ne, hiff]
      simp

/-! ## What is close -/

/-- The number of characters of a phrase that are found in a transcript. -/
def matchedChars (phrase transcript : String) : Nat :=
  (SequenceMatcher.matched (SequenceMatcher.popular transcript.toList) phrase.toList
    transcript.toList).length

def Similar (phrase transcript : String) : Prop :=
  3 * (phrase.length + transcript.length) ≤ 8 * matchedChars phrase transcript

variable {phrase transcript : String} {phrases : List String}

theorem three_quarters_le_iff :
    3 / 4 ≤ (difflib : Difflib α).ratio phrase transcript ↔ Similar phrase transcript := by
  have hratio : (difflib : Difflib α).ratio phrase transcript =
      SequenceMatcher._calculate_ratio (matchedChars phrase transcript)
        (phrase.length + transcript.length) := by
    rw [← String.length_toList, ← String.length_toList]
    rfl
  rw [hratio, Similar]
  rcases Nat.eq_zero_or_pos (phrase.length + transcript.length) with hzero | hpos
  · rw [hzero, SequenceMatcher._calculate_ratio, if_pos rfl]
    exact iff_of_true (by norm_num) (Nat.zero_le _)
  · have hiff := @SequenceMatcher.le_calculate_ratio_iff (matchedChars phrase transcript) _ 3 4
      (by norm_num) hpos
    rw [Nat.cast_ofNat, Nat.cast_ofNat] at hiff
    rw [hiff]
    omega

theorem close_iff :
    Close (difflib : Difflib α) phrases transcript ↔
      ∃ phrase ∈ phrases, Similar phrase transcript := by
  simp only [Close, three_quarters_le_iff]

/-- A string is at most two thirds longer than one that is similar to it. -/
theorem Similar.lengths (h : Similar phrase transcript) :
    3 * phrase.length ≤ 5 * transcript.length ∧ 3 * transcript.length ≤ 5 * phrase.length := by
  have hle := Nat.le_trans (@SequenceMatcher.length_matched_le _ _
    (SequenceMatcher.popular transcript.toList) phrase.toList transcript.toList)
    SequenceMatcher.length_bagInter_le
  have hphrase := Nat.le_trans hle (Nat.min_le_left _ _)
  have htranscript := Nat.le_trans hle (Nat.min_le_right _ _)
  rw [String.length_toList] at hphrase htranscript
  rw [Similar, matchedChars] at h
  omega

/-- Within a short transcript, only the length counts. -/
theorem similar_of_substring (hshort : transcript.length < 200) (h : Substring phrase transcript) :
    Similar phrase transcript ↔ 3 * transcript.length ≤ 5 * phrase.length := by
  rw [← String.length_toList] at hshort
  have hmatched : matchedChars phrase transcript = phrase.length := by
    rw [matchedChars, SequenceMatcher.matched_of_infix
      (fun c _ => SequenceMatcher.popular_of_short hshort) h, String.length_toList]
  rw [Similar, hmatched]
  omega

/-- The two upper bounds and the order of the results do not count. -/
theorem is_match_iff (transcript : String) (phrases : List String) :
    ∃ found, is_match difflib transcript (strings phrases : Obj α) = .ok found ∧
      (found = true ↔ ∃ phrase ∈ phrases, Similar phrase transcript) := by
  obtain ⟨found, hfound, hiff⟩ := @is_match_strings α difflib phrases transcript
  exact ⟨found, hfound, hiff.trans close_iff⟩

/-! ## Runs -/

section Runs
variable [Scalar α] {J : Decoder α} {lower : String → String} {file : Option Content}
  {texts : List String}

/-- What `launch_simian` is called with when `texts` are heard. -/
def launched (J : Decoder α) (lower : String → String) (file : Option Content)
    (texts : List String) : List (Obj α) :=
  launches (effectsOf (wait_for_wake difflib lower J file texts))

/-- The file configures `phrases`, or they are the default ones and it has no document, or an object
that says nothing of them. -/
inductive Listens (J : Decoder α) (file : Option Content) : List String → Prop
  | configured {phrases : List String} (h : Configures J file phrases) : Listens J file phrases
  | missing (h : document J file = none) : Listens J file DEFAULT_WAKE_PHRASES
  | silent {kvs : List (Key × Obj α)} (h : document J file = some (.dict kvs))
    (hlookup : kvs.lookup (.str "wake_phrases") = none) : Listens J file DEFAULT_WAKE_PHRASES

/-- These are the files that do not make the listener crash. -/
theorem exists_listens_iff : (∃ phrases, Listens J file phrases) ↔ WellTyped J file := by
  constructor
  · intro hlistens o ho
    obtain ⟨phrases, h⟩ := hlistens
    cases h with
    | configured h =>
      obtain ⟨kvs, hkvs, hlookup⟩ := h
      cases ho.symm.trans hkvs
      exact ⟨kvs, rfl, fun o' ho' => ⟨_, Option.some.inj (ho'.symm.trans hlookup)⟩⟩
    | missing h => cases h.symm.trans ho
    | silent h hlookup =>
      cases ho.symm.trans h
      exact ⟨_, rfl, fun o' ho' => by cases hlookup.symm.trans ho'⟩
  · intro h
    cases hdoc : document J file with
    | none => exact ⟨_, .missing hdoc⟩
    | some o =>
      obtain ⟨kvs, rfl, hphrases⟩ := h o hdoc
      cases hlookup : kvs.lookup (.str "wake_phrases") with
      | none => exact ⟨_, .silent hdoc hlookup⟩
      | some o' =>
        obtain ⟨phrases, rfl⟩ := hphrases o' hlookup
        exact ⟨phrases, .configured ⟨kvs, hdoc, hlookup⟩⟩

theorem Listens.settings (h : Listens J file phrases) :
    ∃ s : Settings α, s.wake_phrases = strings phrases ∧
      ∀ texts, launched J lower file texts = launches (listen difflib lower s texts).1 := by
  have hrun : ∀ kvs, (load_config J file).2 = .dict kvs → ∀ texts,
      launched J lower file texts = launches (listen difflib lower (.of kvs) texts).1 := by
    intro kvs hkvs texts
    rw [launched, wait_for_wake_dict hkvs, effectsOf]
  cases h with
  | configured h =>
    obtain ⟨kvs, hdoc, hlookup⟩ := h
    exact ⟨.of kvs, Settings.of_wake_phrases hlookup, hrun kvs (load_config_of_document hdoc)⟩
  | missing h =>
    obtain ⟨kvs, hkvs, hphrases⟩ : ∃ kvs, (DEFAULT_CONFIG : Obj α) = .dict kvs ∧
        (Settings.of kvs).wake_phrases = strings DEFAULT_WAKE_PHRASES := ⟨_, rfl, rfl⟩
    refine ⟨.of kvs, hphrases, hrun kvs ?_⟩
    rw [load_config_eq, h, Option.getD_none, hkvs]
  | silent h hlookup =>
    refine ⟨.of _, ?_, hrun _ (load_config_of_document h)⟩
    rw [Settings.of, hlookup]
    rfl

/-- The launcher is started once a transcript is similar to a phrase. -/
theorem Listens.launched_iff (h : Listens J file phrases) :
    launched J lower file texts ≠ [] ↔
      ∃ text ∈ texts, ∃ phrase ∈ phrases, Similar phrase (lower (strip text)) := by
  obtain ⟨s, hphrases, hrun⟩ := @Listens.settings _ _ _ _ lower _ h
  rw [hrun, launches_listen hphrases]
  simp only [close_iff]

/-- Nothing is started by transcripts whose lengths are not within two thirds of a phrase's. -/
theorem deaf_to_lengths (lower : String → String) (h : Listens J file phrases)
    (hlengths : ∀ text ∈ texts, ∀ phrase ∈ phrases,
      5 * (lower (strip text)).length < 3 * phrase.length ∨
        5 * phrase.length < 3 * (lower (strip text)).length) :
    launched J lower file texts = [] := by
  by_contra hlaunched
  obtain ⟨text, htext, phrase, hphrase, hsimilar⟩ := h.launched_iff.1 hlaunched
  have hwindow := hsimilar.lengths
  have hout := hlengths text htext phrase hphrase
  omega

/-- A request around a default phrase is too long for it. -/
theorem deaf_to_could_you :
    launched (α := Constant) reader asciiLower none ["could you please begin simian"] = [] := by
  apply deaf_to_lengths asciiLower (.missing rfl)
  decide +kernel

/-- Transcripts that contain the longest phrase are heard as long as they are at most two thirds
longer. -/
theorem wakes_within_iff (lower : String → String) (h : Listens J file phrases)
    (hphrase : phrase ∈ phrases) (hlongest : ∀ other ∈ phrases, other.length ≤ phrase.length)
    (htexts : ∀ text ∈ texts, (lower (strip text)).length < 200 ∧
      Substring phrase (lower (strip text))) :
    launched J lower file texts ≠ [] ↔
      ∃ text ∈ texts, 3 * (lower (strip text)).length ≤ 5 * phrase.length := by
  rw [h.launched_iff]
  constructor
  · intro hheard
    obtain ⟨text, htext, other, hother, hsimilar⟩ := hheard
    have hwindow := hsimilar.lengths
    have hle := hlongest other hother
    exact ⟨text, htext, by omega⟩
  · intro hheard
    obtain ⟨text, htext, hle⟩ := hheard
    obtain ⟨hshort, hpart⟩ := htexts text htext
    exact ⟨text, htext, phrase, hphrase, (similar_of_substring hshort hpart).2 hle⟩

/-- A default phrase with two more words is heard. -/
theorem wakes_within_hey :
    launched (α := Constant) reader asciiLower none ["Hey Simian begin now"] ≠ [] := by
  apply (@wakes_within_iff _ "simian begin" _ _ _ _ _ asciiLower (.missing rfl) ?_ ?_ ?_).mpr
  · decide +kernel
  · decide +kernel
  · decide +kernel
  · decide +kernel

end Runs

end Simian.ListenerBootstrap
