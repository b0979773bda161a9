import Simian.Lib.Fifo
import Simian.ListenerBootstrap
import Simian.Services.Recognizer

/-! # The wake listener and its audio

The stream calls `callback` on a thread of its own, which puts blocks into the queue, while the loop
of `wait_for_wake` takes them out and feeds them to the recognizer. However the two take turns, what
the loop has done is what it does for the blocks in the order of their delivery, and where it has
caught up it has missed none (`run_listening`). So whether it wakes depends on what was said and not
on when the loop got to it (`wakes_iff`). -/

namespace Simian.ListenerBootstrap
open Json Python

variable {α ρ : Type}

/-- What is done first, and then the rest, unless the loop has ended with the first. -/
def andThen (p q : List (Effect α) × Ending) : List (Effect α) × Ending :=
  match p.2 with
  | .waiting => (p.1 ++ q.1, q.2)
  | .left | .raised _ => p

/-- Where the loop stands between two blocks. -/
structure Loop (ρ α : Type) where
  recognizer : ρ
  effects : List (Effect α) := []
  ending : Ending := .waiting

section Hearing
variable (D : Difflib α) (lower : String → String) (s : Settings α)

/-- What the loop does for what it hears. -/
def round : Except Error (Option String) → List (Effect α) × Ending
  | .error e => ([], .raised e)
  | .ok none => ([], .waiting)
  | .ok (some text) => listen D lower s [text]

/-- What is done for all that is heard. -/
def hearing (heard : List (Except Error (Option String))) : List (Effect α) × Ending :=
  (heard.map (round D lower s)).foldr andThen ([], .waiting)

end Hearing

section Loop
variable [Scalar α] (D : Difflib α) (lower : String → String) (K : Recognizer ρ) (s : Settings α)

/-- One round of `while True`. -/
def Loop.turn (l : Loop ρ α) (data : List UInt8) : Option (Loop ρ α) :=
  match l.ending with
  | .left | .raised _ => none
  | .waiting =>
    let result := K.hear α l.recognizer data
    let done := round D lower s result.2
    some ⟨result.1, l.effects ++ done.1, done.2⟩

/-- The loop by itself. -/
def rounds (r : ρ) : Machine (Loop ρ α) (Fifo.Turn (List UInt8) Empty) where
  init := { recognizer := r }
  step
    | l, .take data => l.turn D lower K s data
    | _, .own b => nomatch b

/-- The loop and the stream, with the queue between them. -/
def listening (r : ρ) := Fifo.machine (rounds D lower K s r)

/-- The blocks `xs` are what the loop has taken. -/
structure Loop.After (r : ρ) (xs : List (List UInt8)) (l : Loop ρ α) : Prop where
  recognizer : l.recognizer = K.fed α r xs
  done : (l.effects, l.ending) = hearing D lower s (K.heard α r xs)

end Loop

/-! ## What is done, one after another -/

section AndThen
variable {p q o : List (Effect α) × Ending}

theorem andThen_of_waiting (h : p.2 = .waiting) : andThen p q = (p.1 ++ q.1, q.2) := by
  rw [andThen, h]

theorem andThen_of_ended (h : p.2 ≠ .waiting) : andThen p q = p := by
  unfold andThen
  split
  · rename_i hp
    exact absurd hp h
  · rfl
  · rfl

theorem andThen_waiting : andThen p ([], .waiting) = p := by
  by_cases h : p.2 = .waiting
  · rw [andThen_of_waiting h, List.append_nil, ← h]
  · exact andThen_of_ended h

theorem andThen_assoc : andThen (andThen p q) o = andThen p (andThen q o) := by
  by_cases h : p.2 = .waiting
  · rw [andThen_of_waiting h, andThen_of_waiting h]
    by_cases h' : q.2 = .waiting
    · have hfirst : andThen (p.1 ++ q.1, q.2) o = (p.1 ++ q.1 ++ o.1, o.2) :=
        andThen_of_waiting h'
      rw [hfirst, andThen_of_waiting h', List.append_assoc]
    · have hfirst : andThen (p.1 ++ q.1, q.2) o = (p.1 ++ q.1, q.2) := andThen_of_ended h'
      rw [hfirst, andThen_of_ended h']
  · rw [andThen_of_ended h, andThen_of_ended h, andThen_of_ended h]

end AndThen

variable {D : Difflib α} {lower : String → String} {s : Settings α}
  {heard more : List (Except Error (Option String))} {texts : List String} {text : String}

theorem hearing_cons {o : Except Error (Option String)} :
    hearing D lower s (o :: heard) = andThen (round D lower s o) (hearing D lower s heard) := rfl

theorem hearing_append : hearing D lower s (heard ++ more) =
    andThen (hearing D lower s heard) (hearing D lower s more) := by
  induction heard with
  | nil => rfl
  | cons o heard ih => rw [List.cons_append, hearing_cons, ih, hearing_cons, andThen_assoc]

theorem hearing_singleton {o : Except Error (Option String)} :
    hearing D lower s [o] = round D lower s o := andThen_waiting

/-- A transcript and those after it. -/
theorem listen_andThen :
    listen D lower s (text :: texts) = andThen (listen D lower s [text]) (listen D lower s texts) := by
  rw [listen, listen]
  cases is_match D (lower (strip text)) s.wake_phrases with
  | error e => rfl
  | ok found => cases found <;> rfl

/-- The texts among what is heard. -/
def textsOf (heard : List (Except Error (Option String))) : List String :=
  heard.filterMap fun o => o.toOption.join

/-- If each result has a text or none, the loop is that over the texts. -/
theorem hearing_eq_listen (h : ∀ o ∈ heard, ∀ e, o ≠ .error e) :
    hearing D lower s heard = listen D lower s (textsOf heard) := by
  induction heard with
  | nil => rfl
  | cons o heard ih =>
    have hrest := ih fun o ho => h o (List.mem_cons_of_mem _ ho)
    rw [hearing_cons, hrest]
    cases o with
    | error e => exact absurd rfl (h _ List.mem_cons_self e)
    | ok o =>
      cases o with
      | none => rfl
      | some text => exact listen_andThen.symm

/-! ## Runs -/

variable [Scalar α] {K : Recognizer ρ} {r : ρ} {l l' : Loop ρ α} {xs : List (List UInt8)}

theorem Loop.After.turn {data : List UInt8} (h : l.After D lower K s r xs)
    (hturn : l.turn D lower K s data = some l') : l'.After D lower K s r (xs ++ [data]) := by
  unfold Loop.turn at hturn
  split at hturn
  · cases hturn
  · cases hturn
  · rename_i hwaiting
    cases hturn
    have hended : (hearing D lower s (K.heard α r xs)).2 = .waiting := by
      rw [← h.done]
      exact hwaiting
    refine ⟨?_, ?_⟩
    · dsimp only
      rw [Recognizer.fed_snoc, ← h.recognizer]
    · rw [Recognizer.heard_snoc, hearing_append, andThen_of_waiting hended, hearing_singleton,
        ← h.done, ← h.recognizer]

theorem Loop.After.run {cs : List (Fifo.Turn (List UInt8) Empty)} (h : l.After D lower K s r xs)
    (hrun : (rounds D lower K s r).run l cs = some l') :
    l'.After D lower K s r (xs ++ cs.filterMap Fifo.Turn.item) := by
  induction cs generalizing l xs with
  | nil =>
    cases hrun
    rw [List.filterMap_nil, List.append_nil]
    exact h
  | cons c cs ih =>
    obtain ⟨q, hstep, hrest⟩ := Machine.run_cons_some.1 hrun
    cases c with
    | own b => cases b
    | take data =>
      have hafter := ih (h.turn hstep) hrest
      rw [List.append_assoc] at hafter
      exact hafter

variable {t : Fifo.Conf (List UInt8) (Loop ρ α)} {as : List (Fifo.Action (List UInt8) Empty)}

theorem exists_after (hrun : (listening D lower K s r).run ⟨[], { recognizer := r }⟩ as = some t) :
    ∃ taken, t.consumer.After D lower K s r taken ∧
      taken ++ t.queue = as.filterMap Fifo.Action.item := by
  obtain ⟨cs, hcs, hitems, -⟩ := Fifo.run_turns hrun
  have hinit : ({ recognizer := r } : Loop ρ α).After D lower K s r [] := ⟨rfl, rfl⟩
  exact ⟨_, hinit.run hcs, hitems⟩

/-- Blocks that it has not taken when it has ended add nothing. -/
theorem Loop.After.hearing {queue : List (List UInt8)} (h : l.After D lower K s r xs)
    (hdone : queue = [] ∨ l.ending ≠ .waiting) :
    (l.effects, l.ending) =
      ListenerBootstrap.hearing D lower s (K.heard α r (xs ++ queue)) := by
  rcases hdone with hempty | hended
  · rw [hempty, List.append_nil, h.done]
  · have hended' : (ListenerBootstrap.hearing D lower s (K.heard α r xs)).2 ≠ .waiting := by
      rw [← h.done]
      exact hended
    rw [Recognizer.heard_append, hearing_append, andThen_of_ended hended', h.done]

/-- However the stream and the loop take turns, the loop has done what it does for the blocks in
their order without those in the queue; and no block in the queue would add to what it has done, if
it has ended. -/
theorem run_listening (hrun : (listening D lower K s r).run ⟨[], { recognizer := r }⟩ as = some t)
    (hdone : t.queue = [] ∨ t.consumer.ending ≠ .waiting) :
    (t.consumer.effects, t.consumer.ending) =
      hearing D lower s (K.heard α r (as.filterMap Fifo.Action.item)) := by
  obtain ⟨taken, hafter, hitems⟩ := exists_after hrun
  rw [← hitems]
  exact hafter.hearing hdone

/-- With results that have a text or none, it has launched once if one of the texts is close to a
phrase, and else not at all. -/
theorem wakes_iff {phrases : List String} (h : s.wake_phrases = strings phrases)
    (hrun : (listening D lower K s r).run ⟨[], { recognizer := r }⟩ as = some t)
    (hdone : t.queue = [] ∨ t.consumer.ending ≠ .waiting)
    (hheard : ∀ o ∈ K.heard α r (as.filterMap Fifo.Action.item), ∀ e, o ≠ .error e) :
    (launches t.consumer.effects).length ≤ 1 ∧ (launches t.consumer.effects ≠ [] ↔
      ∃ text ∈ textsOf (K.heard α r (as.filterMap Fifo.Action.item)),
        Close D phrases (lower (strip text))) := by
  obtain ⟨taken, hafter, hitems⟩ := exists_after hrun
  have hlistened := hafter.hearing hdone
  rw [hitems, hearing_eq_listen hheard] at hlistened
  have heffects : t.consumer.effects =
      (listen D lower s (textsOf (K.heard α r (as.filterMap Fifo.Action.item)))).1 := by
    rw [← hlistened]
  rw [heffects]
  exact ⟨length_launches_listen, launches_listen h⟩

/-! ## A run -/

open Recognizer

/-- The phrase "simian" alone, and the default for everything else. -/
def simian : Settings Constant := ⟨strings ["simian"], .str "goodmorning", .str "full", .str "none"⟩

theorem heard_parrot :
    (parrot "simian").heard Constant () [[], [1]] = [.ok none, .ok (some "simian")] := by
  rw [heard, heard, heard, hear_parrot_nil, hear_parrot_cons]

/-- The listener as a block without speech is delivered and taken, and then the phrase. -/
theorem run_parrot : ∃ t, (listening exactly asciiLower (parrot "simian") simian ()).run
      ⟨[], { recognizer := () }⟩ [.put [], .get, .put [1], .get] = some t ∧ t.queue = [] :=
  ⟨_, rfl, rfl⟩

theorem run_listening_parrot : ∃ t, (listening exactly asciiLower (parrot "simian") simian ()).run
      ⟨[], { recognizer := () }⟩ [.put [], .get, .put [1], .get] = some t ∧
    (t.consumer.effects, t.consumer.ending) =
      hearing exactly asciiLower simian [.ok none, .ok (some "simian")] := by
  obtain ⟨t, hrun, hempty⟩ := run_parrot
  have hdone := run_listening hrun (.inl hempty)
  rw [← heard_parrot]
  exact ⟨t, hrun, hdone⟩

theorem wakes_parrot : ∃ t, (listening exactly asciiLower (parrot "simian") simian ()).run
      ⟨[], { recognizer := () }⟩ [.put [], .get, .put [1], .get] = some t ∧
    launches t.consumer.effects ≠ [] := by
  obtain ⟨t, hrun, hempty⟩ := run_parrot
  have hlower : asciiLower (strip "simian") = "simian" := by decide +kernel
  have hheard : ∀ o ∈ (parrot "simian").heard Constant () [[], [1]], ∀ e, o ≠ .error e := by
    rw [heard_parrot]
    simp
  refine ⟨t, hrun, (wakes_iff rfl hrun (.inl hempty) hheard).2.2 ⟨"simian", ?_, ?_⟩⟩
  · have htexts : "simian" ∈ textsOf ((parrot "simian").heard Constant () [[], [1]]) := by
      rw [heard_parrot]
      exact List.mem_cons_self
    exact htexts
  · rw [hlower]
    exact close_self List.mem_cons_self

end Simian.ListenerBootstrap
