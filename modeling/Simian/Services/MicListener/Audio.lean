import Simian.Lib.Fifo
import Simian.Services.MicListener
import Simian.Services.Recognizer

/-! # The voice command router and its audio

The queue and the recognizer are those of the module, so they outlive the listener that a failure
has ended. What is still in the queue, and what the recognizer has begun to hear, is left to the
listener that is started next: over all sessions, however they end and however the stream and the
listener take turns, each utterance that was delivered is handed on once and in order
(`handed_of_run`). -/

namespace Simian.MicListener
open Json Python

variable {α ρ : Type}

/-- A block of audio, and what the outside does while it is handled. -/
structure Block where
  data : List UInt8
  env : Env

/-- The module with its listeners: what has been handed to `process_command`, and what has been
done. `handler` is what the outside does while the present listener handles an exception. -/
structure Listener (ρ : Type) where
  recognizer : ρ
  handed : List Utterance := []
  effects : List Effect := []
  listening : Bool := false
  handler : Env

section Listener
variable (α) [Scalar α] (lower : String → String) (K : Recognizer ρ)

/-- The thread of `start_listening`, until it waits for the queue. -/
def Listener.start (l : Listener ρ) (start handler : Env) : Listener ρ :=
  let activated := log start "Mic activated (offline Vosk)"
  if start.fails activated then
    { l with
      handler := handler
      effects := l.effects ++ [activated, log handler ("Mic listener error: " ++ start.error)] }
  else
    { l with handler := handler, effects := l.effects ++ [activated], listening := true }

/-- The exception with the text `e` ends the listener. -/
def Listener.fail (l : Listener ρ) (e : String) : Listener ρ :=
  { l with
    effects := l.effects ++ [log l.handler ("Mic listener error: " ++ e)]
    listening := false }

/-- A transcript is handed on. -/
def Listener.hand (l : Listener ρ) (u : Utterance) : Listener ρ :=
  let l := { l with handed := l.handed ++ [u], effects := l.effects ++ u.performed lower }
  if u.raised lower then l.fail u.env.error else l

/-- One round of `while True`. -/
def Listener.turn (l : Listener ρ) (block : Block) : Listener ρ :=
  let result := K.hear α l.recognizer block.data
  let l := { l with recognizer := result.1 }
  match result.2 with
  | .error _ => l.fail block.env.error
  | .ok none => l
  | .ok (some text) => l.hand lower ⟨text, block.env⟩

/-- The listeners, one after another. -/
def listeners (r : ρ) (handler : Env) : Machine (Listener ρ) (Fifo.Turn Block (Env × Env)) where
  init := { recognizer := r, handler := handler }
  step
    | l, .take block => if l.listening then some (l.turn α lower K block) else none
    | l, .own (start, handler) => if l.listening then none else some (l.start start handler)

/-- The listeners and their streams, with the queue between them. -/
def router (r : ρ) (handler : Env) := Fifo.machine (listeners α lower K r handler)

/-- The utterance that a block ends, if it is heard. -/
def Block.utterance (r : ρ) (block : Block) : List Utterance :=
  match (K.hear α r block.data).2 with
  | .ok (some text) => [⟨text, block.env⟩]
  | .ok none | .error _ => []

/-- The utterances in some blocks. -/
def utterances : ρ → List Block → List Utterance
  | _, [] => []
  | r, block :: blocks => block.utterance α K r ++ utterances (K.hear α r block.data).1 blocks

end Listener

/-- The calls of `command_callback`. -/
def calls (effects : List Effect) : List String :=
  effects.filterMap fun
    | .command_callback action => some action
    | .message_callback _ | .tts_callback _ | .memory_logger _ _ | .print _ => none

variable [Scalar α] {lower : String → String} {K : Recognizer ρ} {r : ρ} {env handler : Env}
  {l l' : Listener ρ} {block : Block} {blocks : List Block}

theorem calls_log {msg : String} : calls [log env msg] = [] := by
  rw [log]
  split <;> rfl

theorem calls_append {xs ys : List Effect} : calls (xs ++ ys) = calls xs ++ calls ys :=
  List.filterMap_append

theorem utterances_append {xs ys : List Block} : utterances α K r (xs ++ ys) =
    utterances α K r xs ++ utterances α K (K.fed α r (xs.map Block.data)) ys := by
  induction xs generalizing r with
  | nil => rfl
  | cons block xs ih =>
    rw [List.cons_append, utterances, ih, utterances, List.append_assoc]
    rfl

/-! ## What is handed on -/

/-- `l'` has handed on `us` and done what is done for them, beside what it tells of itself. -/
structure Listener.Hands (lower : String → String) (l : Listener ρ) (us : List Utterance)
    (l' : Listener ρ) : Prop where
  handed : l'.handed = l.handed ++ us
  calls : calls l'.effects = calls l.effects ++ us.flatMap fun u => calls (u.performed lower)

namespace Listener
variable {us vs : List Utterance} {u : Utterance}

theorem Hands.refl : l.Hands lower [] l := ⟨(List.append_nil _).symm, (List.append_nil _).symm⟩

theorem Hands.trans {l'' : Listener ρ} (h : l.Hands lower us l') (h' : l'.Hands lower vs l'') :
    l.Hands lower (us ++ vs) l'' where
  handed := by rw [h'.handed, h.handed, List.append_assoc]
  calls := by rw [h'.calls, h.calls, List.flatMap_append, List.append_assoc]

theorem hands_start {env : Env} : l.Hands lower [] (l.start env handler) := by
  unfold start
  dsimp only
  split
  · refine ⟨(List.append_nil _).symm, ?_⟩
    have hpair : ∀ e e' : Effect, [e, e'] = [e] ++ [e'] := fun _ _ => rfl
    rw [hpair, calls_append, calls_append, calls_log, calls_log]
    rfl
  · refine ⟨(List.append_nil _).symm, ?_⟩
    rw [calls_append, calls_log]
    rfl

theorem recognizer_start {env : Env} : (l.start env handler).recognizer = l.recognizer := by
  unfold start
  dsimp only
  split
  · rfl
  · rfl

theorem hands_fail {e : String} : l.Hands lower [] (l.fail e) := by
  refine ⟨(List.append_nil _).symm, ?_⟩
  rw [fail, calls_append, calls_log]
  rfl

theorem hands_hand : l.Hands lower [u] (l.hand lower u) := by
  have hbefore : l.Hands lower [u]
      { l with handed := l.handed ++ [u], effects := l.effects ++ u.performed lower } :=
    ⟨rfl, by rw [calls_append, List.flatMap_singleton]⟩
  unfold hand
  split
  · exact hbefore.trans hands_fail
  · exact hbefore

theorem recognizer_hand : (l.hand lower u).recognizer = l.recognizer := by
  unfold hand
  split
  · rfl
  · rfl

theorem hands_turn : l.Hands lower (block.utterance α K l.recognizer) (l.turn α lower K block) ∧
    (l.turn α lower K block).recognizer = (K.hear α l.recognizer block.data).1 := by
  have hheard : l.Hands lower []
      { l with recognizer := (K.hear α l.recognizer block.data).1 } :=
    ⟨(List.append_nil _).symm, (List.append_nil _).symm⟩
  unfold turn Block.utterance
  dsimp only
  cases (K.hear α l.recognizer block.data).2 with
  | error e => exact ⟨hheard.trans hands_fail, rfl⟩
  | ok o =>
    cases o with
    | none => exact ⟨hheard, rfl⟩
    | some text => exact ⟨hheard.trans hands_hand, recognizer_hand⟩

theorem hands_run {cs : List (Fifo.Turn Block (Env × Env))}
    (hrun : (listeners α lower K r handler).run l cs = some l') :
    l.Hands lower (utterances α K l.recognizer (cs.filterMap Fifo.Turn.item)) l' ∧
      l'.recognizer = K.fed α l.recognizer ((cs.filterMap Fifo.Turn.item).map Block.data) := by
  induction cs generalizing l with
  | nil =>
    cases hrun
    exact ⟨.refl, rfl⟩
  | cons c cs ih =>
    obtain ⟨q, hstep, hrest⟩ := Machine.run_cons_some.1 hrun
    obtain ⟨hhands, hrecognizer⟩ := ih hrest
    cases c with
    | own b =>
      obtain ⟨-, hstart⟩ := Option.ite_none_left_eq_some.1 hstep
      cases hstart
      rw [recognizer_start] at hhands hrecognizer
      exact ⟨hands_start.trans hhands, hrecognizer⟩
    | take block =>
      obtain ⟨-, hturn⟩ := Option.ite_none_right_eq_some.1 hstep
      cases hturn
      obtain ⟨hturn, hheard⟩ := @hands_turn α _ _ lower K l block
      rw [hheard] at hhands hrecognizer
      exact ⟨hturn.trans hhands, hrecognizer⟩

theorem turn_of_text {r' : ρ} {text : String}
    (h : K.hear α l.recognizer block.data = (r', .ok (some text))) : l.turn α lower K block =
      { l with recognizer := r' }.hand lower ⟨text, block.env⟩ := by
  unfold turn
  dsimp only
  rw [h]

end Listener

variable {t : Fifo.Conf Block (Listener ρ)} {as : List (Fifo.Action Block (Env × Env))}

/-- Over all sessions, what has been handed on and what is still in the queue are the utterances of
all that was delivered, and the commands are those of what has been handed on. -/
theorem handed_of_run (hrun : (router α lower K r handler).run
      ⟨[], { recognizer := r, handler := handler }⟩ as = some t) :
    t.consumer.handed ++ utterances α K t.consumer.recognizer t.queue =
      utterances α K r (as.filterMap Fifo.Action.item) ∧
    calls t.consumer.effects = t.consumer.handed.flatMap fun u => calls (u.performed lower) := by
  obtain ⟨cs, hcs, hitems, -⟩ := Fifo.run_turns hrun
  obtain ⟨hhands, hrecognizer⟩ := Listener.hands_run hcs
  rw [List.nil_append] at hitems
  have hhanded : t.consumer.handed = utterances α K r (cs.filterMap Fifo.Turn.item) :=
    hhands.handed
  refine ⟨?_, ?_⟩
  · rw [← hitems, utterances_append, hhanded, hrecognizer]
  · rw [hhands.calls, hhanded]
    rfl

/-! ## A run -/

theorem router_put : (router α lower K r handler).step ⟨blocks, l⟩ (.put block) =
    some ⟨blocks ++ [block], l⟩ := rfl

theorem router_get (h : l.listening = true) :
    (router α lower K r handler).step ⟨block :: blocks, l⟩ .get =
      some ⟨blocks, l.turn α lower K block⟩ :=
  congrArg (Option.map _) (if_pos h)

theorem router_own {start handler' : Env} (h : l.listening = false) :
    (router α lower K r handler).step ⟨blocks, l⟩ (.own (start, handler')) =
      some ⟨blocks, l.start start handler'⟩ :=
  congrArg (Option.map _) (if_neg (Bool.eq_false_iff.1 h))

theorem listening_start_quiet : (l.start quiet handler).listening = true := rfl

/-- A listener that hears the command while the memory fails, and another that hears it again. -/
theorem run_two_listeners : ∃ t,
    (router Constant asciiLower (.parrot "open spotify") () quiet).run
      ⟨[], { recognizer := (), handler := quiet }⟩ [.own (quiet, quiet), .put ⟨[1], faulty⟩,
        .put ⟨[1], quiet⟩, .get, .own (quiet, quiet), .get] = some t ∧ t.queue = [] := by
  have hended : ∀ l : Listener Unit,
      (l.turn Constant asciiLower (.parrot "open spotify") ⟨[1], faulty⟩).listening = false := by
    intro l
    have hraised : (Utterance.mk "open spotify" faulty).raised asciiLower = true := by
      decide +kernel
    have hheard : (Recognizer.parrot "open spotify").hear Constant l.recognizer [1] =
        ((), .ok (some "open spotify")) := Recognizer.hear_parrot_cons
    have hturn := @Listener.turn_of_text Constant Unit _ asciiLower (.parrot "open spotify") l
      ⟨[1], faulty⟩ () "open spotify" hheard
    rw [hturn, Listener.hand]
    dsimp only
    rw [if_pos hraised]
    rfl
  exact ⟨_, Machine.run_cons_some.2 ⟨_, router_own rfl, Machine.run_cons_some.2 ⟨_, router_put,
    Machine.run_cons_some.2 ⟨_, router_put, Machine.run_cons_some.2 ⟨_,
      router_get listening_start_quiet, Machine.run_cons_some.2 ⟨_, router_own (hended _),
        Machine.run_cons_some.2 ⟨_, router_get listening_start_quiet, Machine.run_nil⟩⟩⟩⟩⟩⟩, rfl⟩

/-- The first utterance ends its listener, and the second is handed on by the next. -/
theorem handed_after_failure : ∃ t,
    (router Constant asciiLower (.parrot "open spotify") () quiet).run
      ⟨[], { recognizer := (), handler := quiet }⟩ [.own (quiet, quiet), .put ⟨[1], faulty⟩,
        .put ⟨[1], quiet⟩, .get, .own (quiet, quiet), .get] = some t ∧
    t.consumer.handed = [⟨"open spotify", faulty⟩, ⟨"open spotify", quiet⟩] := by
  obtain ⟨t, hrun, hempty⟩ := run_two_listeners
  have hhanded := (handed_of_run hrun).1
  rw [hempty, utterances, List.append_nil] at hhanded
  refine ⟨t, hrun, hhanded.trans ?_⟩
  have hutterance : ∀ env, Block.utterance Constant (.parrot "open spotify") () ⟨[1], env⟩ =
      [⟨"open spotify", env⟩] := by
    intro env
    rw [Block.utterance, Recognizer.hear_parrot_cons]
  have htwo : utterances Constant (.parrot "open spotify") () [⟨[1], faulty⟩, ⟨[1], quiet⟩] =
      [⟨"open spotify", faulty⟩, ⟨"open spotify", quiet⟩] := by
    rw [utterances, utterances, utterances, hutterance, hutterance]
    rfl
  exact htwo

end Simian.MicListener
