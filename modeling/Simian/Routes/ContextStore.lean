import Simian.Lib.Linearizable
import Simian.Routes.Screen

/-! # The context store under requests that overlap

The handlers are plain functions and run in a thread for each request. `load_context` returns the
list itself, which is encoded element by element after that, while other threads append to it; and
a text is printed, and its request answered, after it was appended. Still every run answers as the
handlers do one after another (`context_linearizable`), so that a context holds what was saved before
it was asked for, also what was answered with an error (`context_of_run`). -/

namespace Simian.Routes
open Json Routing Linearizable

variable {α β : Type}

/-- What a handler does with `_context_store` and what comes of it. -/
inductive Script (α : Type)
  | finish (result : Except Error (Obj α))
  /-- `_context_store.append(text)`; what follows does not look at the list. -/
  | append (text : String) (result : Except Error (Obj α))
  /-- `{key: _context_store}`, with the list itself. -/
  | share (key : String)

/-- The script without others in between. -/
def Script.eval : Script α → List String → Result α
  | .finish result, _context_store => (result, _context_store)
  | .append text result, _context_store => (result, _context_store ++ [text])
  | .share key, _context_store =>
    (.ok (single key (.list (_context_store.map .str))), _context_store)

namespace Threads
variable (W : World β)

def withInput (handler : TextInput → Script α) (body : β) : Script α :=
  match W.validate body with
  | .ok input_data => handler input_data
  | .error detail => .finish (.error (.RequestValidationError detail))

def save_context (input_data : TextInput) : Script α :=
  .append input_data.text
    (((W.print ("[Context] Saved: " ++ input_data.text)).mapError .raised).map fun _ =>
      single "status" (.str "context saved"))

def load_context : Script α := .share "context"

def classify (input_data : TextInput) : Script α :=
  .finish ((MlModel.classify W input_data.text).map fun result =>
    single "classification" (.str result))

/-- The routers of `routes/cli.py`, `routes/context.py`, `routes/ml.py` and `routes/screen.py`. -/
def routers : List (Router (String × String) (β → Script α)) :=
  [[(("POST", "/cli/run"), withInput W fun input => .finish (Cli.run_cli_command W input))],
    [(("POST", "/context/save"), withInput W (save_context W)),
      (("GET", "/context/load"), fun _ => load_context)],
    [(("POST", "/ml/classify"), withInput W (classify W))],
    [(("POST", "/context/save"), withInput W (save_context W)),
      (("GET", "/context/load"), fun _ => load_context),
      (("POST", "/ml/classify"), withInput W (classify W)),
      (("POST", "/cli/run"), withInput W fun input => .finish (Screen.run_cli_command W input))]]

end Threads

def endpoint (script : β → Script α) : Endpoint α β := fun body => (script body).eval

/-- The same routers with their handlers run without others in between. -/
def endpoints (rs : List (Router (String × String) (β → Script α))) :
    List (Router (String × String) (Endpoint α β)) :=
  rs.map fun r => r.map fun route => (route.1, endpoint route.2)

structure Request (β : Type) where
  key : String × String
  body : β

/-- `none` for a request that no route is for. -/
abbrev Answer (α : Type) := Option (Except Error (Obj α))

/-- One request alone. -/
def serve (rs : List (Router (String × String) (Endpoint α β))) (r : Request β)
    (_context_store : List String) : Answer α × List String :=
  match handler rs r.key with
  | none => (none, _context_store)
  | some h => (some (h r.body _context_store).1, (h r.body _context_store).2)

/-! ## Threads -/

inductive Thread (α β : Type)
  | idle
  | called (r : Request β)
  | running (r : Request β) (script : Script α)
  /-- The list has been returned, and these of its elements are encoded. -/
  | encoding (r : Request β) (key : String) (read : List String)
  | done (r : Request β) (answer : Answer α)
  | answered

structure Server (α β : Type) where
  _context_store : List String
  thread : Nat → Thread α β

inductive Action (β : Type)
  | call (id : Nat) (r : Request β)
  | advance (id : Nat)
  | answer (id : Nat)

variable (rs : List (Router (String × String) (β → Script α)))

/-- The next statement of a thread. -/
def Thread.advance (_context_store : List String) : Thread α β → Option (Thread α β × List String)
  | .called r => match handler rs r.key with
    | none => some (.done r none, _context_store)
    | some script => some (.running r (script r.body), _context_store)
  | .running r (.finish result) => some (.done r (some result), _context_store)
  | .running r (.append text result) => some (.done r (some result), _context_store ++ [text])
  | .running r (.share key) => some (.encoding r key [], _context_store)
  | .encoding r key read => match _context_store[read.length]? with
    | some text => some (.encoding r key (read ++ [text]), _context_store)
    | none => some (.done r (some (.ok (single key (.list (read.map .str))))), _context_store)
  | .idle | .done _ _ | .answered => none

def Server.step (s : Server α β) : Action β → Option (Server α β)
  | .call id r => match s.thread id with
    | .idle => some { s with thread := Function.update s.thread id (.called r) }
    | _ => none
  | .advance id => ((s.thread id).advance rs s._context_store).map fun (thread, _context_store) =>
    ⟨_context_store, Function.update s.thread id thread⟩
  | .answer id => match s.thread id with
    | .done _ _ => some { s with thread := Function.update s.thread id .answered }
    | _ => none

/-- What the clients see of a step. -/
def Server.emit (s : Server α β) : Action β → List (Event Nat (Request β) (Answer α))
  | .call id r => [.call id r]
  | .advance _ => []
  | .answer id => match s.thread id with
    | .done _ answer => [.answer id answer]
    | _ => []

def server (_context_store : List String) : Machine (Server α β) (Action β) where
  init := ⟨_context_store, fun _ => .idle⟩
  step := Server.step rs

/-- What the clients see of a run. -/
def history (_context_store : List String) (as : List (Action β)) :
    List (Event Nat (Request β) (Answer α)) :=
  (server rs _context_store).history Server.emit (server rs _context_store).init as

/-! ## Every request takes effect in one step -/

def Thread.phase : Thread α β → Phase (Request β) (Answer α)
  | .idle => .idle
  | .called r | .running r _ | .encoding r _ _ => .called r
  | .done r answer => .effective r answer
  | .answered => .answered

/-- A thread runs the handler of its request, and what it has encoded is how the list begins. -/
def Thread.Runs (_context_store : List String) : Thread α β → Prop
  | .running r script => ∃ h, handler rs r.key = some h ∧ h r.body = script
  | .encoding r key read =>
    ∃ h, handler rs r.key = some h ∧ h r.body = .share key ∧ read <+: _context_store
  | .idle | .called _ | .done _ _ | .answered => True

variable {rs} {W : World β} {s t : Server α β} {a : Action β} {r : Request β}
  {store store' : List String} {thread thread' : Thread α β} {id : Nat}

theorem handler_endpoints {key : String × String} :
    handler (endpoints rs) key = (handler rs key).map endpoint := by
  rw [endpoints, handler_map]

theorem endpoint_withInput {f : TextInput → Script α} : endpoint (Threads.withInput W f) =
    withInput W fun input => (f input).eval := by
  funext body store
  rw [endpoint, Threads.withInput, withInput]
  cases W.validate body <;> rfl

/-- The handlers without others in between are those of the routers. -/
theorem endpoints_routers : endpoints (Threads.routers (α := α) W) = routers W := by
  simp only [endpoints, Threads.routers, List.map_cons, List.map_nil, endpoint_withInput]
  rfl

theorem endpoints_perm (hrs : rs.Perm (Threads.routers W)) : (endpoints rs).Perm (routers W) := by
  rw [← endpoints_routers]
  exact hrs.map _

theorem serve_of_none (h : handler rs r.key = none) :
    serve (endpoints rs) r store = (none, store) := by
  rw [serve, handler_endpoints, h]
  rfl

theorem serve_of_handler {script : β → Script α} (h : handler rs r.key = some script)
    (store : List String) :
    serve (endpoints rs) r store =
      (some ((script r.body).eval store).1, ((script r.body).eval store).2) := by
  rw [serve, handler_endpoints, h]
  rfl

/-- A statement of a thread either leaves the list and the phase as they are, or it is the one in
which the request takes effect. -/
theorem advance_cases (hruns : thread.Runs rs store)
    (h : thread.advance rs store = some (thread', store')) :
    thread'.Runs rs store' ∧ (thread'.phase = thread.phase ∧ store' = store ∨
      ∃ r, thread.phase = .called r ∧
        thread'.phase = .effective r (serve (endpoints rs) r store).1 ∧
        store' = (serve (endpoints rs) r store).2) := by
  cases thread with
  | idle | done r answer | answered => cases h
  | called r =>
    rw [Thread.advance] at h
    split at h
    · rename_i hnone
      cases h
      exact ⟨trivial, .inr ⟨r, rfl, by rw [serve_of_none hnone]; rfl, by rw [serve_of_none hnone]⟩⟩
    · rename_i script hscript
      cases h
      exact ⟨⟨script, hscript, rfl⟩, .inl ⟨rfl, rfl⟩⟩
  | running r script =>
    obtain ⟨f, hf, rfl⟩ := hruns
    have hserve := serve_of_handler hf store
    cases hscript : f r.body with
    | finish result =>
      rw [hscript] at h hserve
      cases h
      exact ⟨trivial, .inr ⟨r, rfl, by rw [hserve]; rfl, by rw [hserve]; rfl⟩⟩
    | append text result =>
      rw [hscript] at h hserve
      cases h
      exact ⟨trivial, .inr ⟨r, rfl, by rw [hserve]; rfl, by rw [hserve]; rfl⟩⟩
    | share key =>
      rw [hscript] at h
      cases h
      exact ⟨⟨f, hf, hscript, List.nil_prefix⟩, .inl ⟨rfl, rfl⟩⟩
  | encoding r key read =>
    obtain ⟨f, hf, hscript, rest, hrest⟩ := hruns
    rw [Thread.advance] at h
    split at h
    · rename_i text htext
      cases h
      refine ⟨⟨f, hf, hscript, ?_⟩, .inl ⟨rfl, rfl⟩⟩
      rw [← hrest] at htext ⊢
      rw [List.getElem?_append_right (Nat.le_refl _), Nat.sub_self] at htext
      cases rest with
      | nil => cases htext
      | cons text' rest =>
        cases htext
        exact ⟨rest, by rw [List.append_assoc, List.singleton_append]⟩
    · rename_i hend
      cases h
      -- the list ends where the reading does
      have hread : read = store := by
        have hlength := List.getElem?_eq_none_iff.1 hend
        rw [← hrest, List.length_append] at hlength
        rw [← hrest, List.eq_nil_of_length_eq_zero (l := rest) (by omega), List.append_nil]
      have hserve := serve_of_handler hf store
      rw [hscript] at hserve
      subst hread
      exact ⟨trivial, .inr ⟨r, rfl, by rw [hserve]; rfl, by rw [hserve]; rfl⟩⟩

theorem prefix_of_advance (h : thread.advance rs store = some (thread', store')) :
    store <+: store' := by
  cases thread with
  | idle | done r answer | answered => cases h
  | called r =>
    rw [Thread.advance] at h
    split at h <;> cases h <;> exact List.prefix_rfl
  | running r script =>
    cases script with
    | finish result | share key =>
      cases h
      exact List.prefix_rfl
    | append text result =>
      cases h
      exact List.prefix_append _ _
  | encoding r key read =>
    rw [Thread.advance] at h
    split at h <;> cases h <;> exact List.prefix_rfl

theorem Thread.Runs.mono (h : thread.Runs rs store) (hbegin : store <+: store') :
    thread.Runs rs store' := by
  cases thread with
  | encoding r key read =>
    obtain ⟨f, hf, hscript, hread⟩ := h
    exact ⟨f, hf, hscript, hread.trans hbegin⟩
  | _ => exact h

theorem phase_update {threads : Nat → Thread α β} :
    (fun i => (Function.update threads id thread i).phase) =
      Function.update (fun i => (threads i).phase) id thread.phase := by
  funext i
  by_cases h : i = id
  · subst h
    rw [Function.update_self, Function.update_self]
  · rw [Function.update_of_ne h, Function.update_of_ne h]

theorem runs_update {threads : Nat → Thread α β} (h : ∀ i, (threads i).Runs rs store)
    (hbegin : store <+: store') (hthread : thread.Runs rs store') (i : Nat) :
    (Function.update threads id thread i).Runs rs store' := by
  by_cases heq : i = id
  · subst heq
    rwa [Function.update_self]
  · rw [Function.update_of_ne heq]
    exact (h i).mono hbegin

theorem atomic_server : Atomic (serve (endpoints rs)) (server rs store) Server.emit
    (fun s i => (s.thread i).phase) Server._context_store
    (fun s => ∀ i, (s.thread i).Runs rs s._context_store) where
  invariant := by
    refine ⟨fun i => trivial, ?_⟩
    intro s a t hruns hstep
    cases a with
    | call id r =>
      simp only [server, Server.step] at hstep
      split at hstep
      · cases hstep
        exact runs_update hruns List.prefix_rfl trivial
      · cases hstep
    | advance id =>
      obtain ⟨⟨thread, store⟩, hadvance, rfl⟩ := Option.map_eq_some_iff.1 hstep
      exact runs_update hruns (prefix_of_advance hadvance) (advance_cases (hruns id) hadvance).1
    | answer id =>
      simp only [server, Server.step] at hstep
      split at hstep
      · cases hstep
        exact runs_update hruns List.prefix_rfl trivial
      · cases hstep
  idle _ := rfl
  moves {s a t} hruns hstep := by
    cases a with
    | call id r =>
      simp only [server, Server.step] at hstep
      split at hstep
      · rename_i hidle
        cases hstep
        rw [phase_update]
        exact .call (congrArg Thread.phase hidle)
      · cases hstep
    | advance id =>
      obtain ⟨⟨thread, store⟩, hadvance, rfl⟩ := Option.map_eq_some_iff.1 hstep
      rw [phase_update]
      rcases (advance_cases (hruns id) hadvance).2 with ⟨hphase, rfl⟩ | ⟨r, hcalled, hphase, rfl⟩
      · rw [hphase, Function.update_eq_self]
        exact .silent
      · rw [hphase]
        exact .effect hcalled
    | answer id =>
      simp only [server, Server.step] at hstep
      split at hstep
      · rename_i r answer hdone
        cases hstep
        rw [phase_update, Server.emit, hdone]
        exact .answer (congrArg Thread.phase hdone)
      · cases hstep

/-- In whatever order the routers are mounted and however the threads of the requests interleave,
the answers and the list are those of the handlers run one after another, in an order that keeps that
of requests which do not overlap. -/
theorem context_linearizable {as : List (Action β)} (hrs : rs.Perm (Threads.routers W))
    (hrun : (server rs store).run (server rs store).init as = some s) :
    (endpoints rs).Perm (routers W) ∧
      ∃ order, Linearizes (serve (endpoints rs)) store s._context_store
        (history rs store as) order := by
  exact ⟨endpoints_perm hrs, atomic_server.linearizes hrun⟩

/-! ## What a context holds -/

def save : String × String := ("POST", "/context/save")

def load : String × String := ("GET", "/context/load")

/-- The text that a request saves. -/
def Request.saved (W : World β) (r : Request β) : Option String :=
  if r.key = save then (W.validate r.body).toOption.map TextInput.text else none

variable {rs' : List (Router (String × String) (Endpoint α β))} {key : String × String}

/-- Whichever router is first, the route is that of `routes/screen.py` or the other one for
commands. -/
theorem handler_cases (hrs : rs'.Perm (routers W)) (key : String × String) :
    handler rs' key = (Screen.router W).lookup key ∨
      key = ("POST", "/cli/run") ∧ handler rs' key = some (Cli.cli_run W) := by
  have hscreen : Screen.router W ∈ rs' := hrs.mem_iff.2 (by simp [routers])
  cases hk : handler rs' key with
  | none => exact .inl (handler_eq_none.1 hk _ hscreen).symm
  | some h =>
    obtain ⟨r, hr, hlookup⟩ := mem_of_handler hk
    rcases lookup_cases (hrs.mem_iff.1 hr) hlookup with hlookup | ⟨hkey, rfl⟩
    · exact .inl hlookup.symm
    · exact .inr ⟨hkey, rfl⟩

theorem withInput_store {f : TextInput → Except Error (Obj α)} (body : β) (store : List String) :
    (withInput W (fun input store => (f input, store)) body store).2 = store := by
  rw [withInput]
  cases W.validate body <;> rfl

theorem cli_run_store (body : β) (store : List String) :
    (Cli.cli_run (α := α) W body store).2 = store :=
  withInput_store body store

/-- Only one of the routes changes the list. -/
theorem mem_router {h : Endpoint α β} (hlookup : (Screen.router W).lookup key = some h) :
    key = save ∧ h = withInput W (Screen.save_context W) ∨
      key ≠ save ∧ ∀ body store, (h body store).2 = store := by
  obtain ⟨before, after, heq, -⟩ := List.lookup_eq_some_iff.1 hlookup
  have hmem : (key, h) ∈ Screen.router W := heq ▸ List.mem_append_right before List.mem_cons_self
  simp only [Screen.router, List.mem_cons, List.not_mem_nil, or_false, Prod.mk.injEq] at hmem
  rcases hmem with ⟨rfl, rfl⟩ | ⟨rfl, rfl⟩ | ⟨rfl, rfl⟩ | ⟨rfl, rfl⟩
  · exact .inl ⟨rfl, rfl⟩
  · exact .inr ⟨by decide, fun _ _ => rfl⟩
  · exact .inr ⟨by decide, withInput_store⟩
  · exact .inr ⟨by decide, withInput_store⟩

theorem serve_load (hrs : rs'.Perm (routers W)) (hkey : r.key = load) : serve rs' r store =
    (some (.ok (single "context" (.list (store.map .str)))), store) := by
  have hhandler : handler rs' r.key = some (fun _ => Screen.load_context) := by
    rw [hkey]
    rcases handler_cases hrs load with h | ⟨hload, -⟩
    · exact h
    · exact absurd hload (by decide)
  rw [serve, hhandler]
  rfl

/-- A request adds the text that it saves, whatever it is answered. -/
theorem serve_store (hrs : rs'.Perm (routers W)) :
    (serve rs' r store).2 = store ++ (r.saved W).toList := by
  have hother (h : r.key ≠ save) : store = store ++ (r.saved W).toList := by
    rw [Request.saved, if_neg h]
    exact (List.append_nil store).symm
  rcases handler_cases hrs r.key with h | ⟨hkey, h⟩
  · cases hlookup : (Screen.router (α := α) W).lookup r.key with
    | none =>
      rw [serve, h, hlookup]
      refine hother fun hkey => ?_
      rw [hkey] at hlookup
      cases hlookup
    | some f =>
      rw [serve, h, hlookup]
      rcases mem_router hlookup with ⟨hkey, rfl⟩ | ⟨hkey, hf⟩
      · rw [Request.saved, if_pos hkey]
        dsimp only
        rw [withInput]
        cases W.validate r.body with
        | ok input => rfl
        | error detail => exact (List.append_nil store).symm
      · exact (hf r.body store).trans (hother hkey)
  · rw [serve, h]
    refine (cli_run_store r.body store).trans (hother fun hsave => ?_)
    exact absurd (hkey.symm.trans hsave) (by decide)

theorem replay_store (hrs : rs'.Perm (routers W)) {requests : List (Request β)} :
    (replay (serve rs') store requests).2 = store ++ requests.filterMap (Request.saved W) := by
  induction requests generalizing store with
  | nil => exact (List.append_nil store).symm
  | cons r requests ih =>
    rw [replay, ih, serve_store hrs, List.append_assoc, List.filterMap_cons]
    cases r.saved W <;> rfl

/-- The requests that save a text, with their texts. -/
def saves (W : World β) (entries : List (Entry Nat (Request β) (Answer α))) : List (Nat × String) :=
  entries.filterMap fun e => (e.request.saved W).map (e.id, ·)

variable {entries : List (Entry Nat (Request β) (Answer α))}

theorem mem_saves {p : Nat × String} : p ∈ saves W entries ↔
    ∃ e ∈ entries, e.id = p.1 ∧ e.request.saved W = some p.2 := by
  rw [saves, List.mem_filterMap]
  refine exists_congr fun e => and_congr_right fun _ => ?_
  rw [Option.map_eq_some_iff]
  constructor
  · rintro ⟨text, htext, rfl⟩
    exact ⟨rfl, htext⟩
  · rintro ⟨hid, htext⟩
    exact ⟨p.2, htext, Prod.ext hid rfl⟩

theorem saves_ids : ((saves W entries).map Prod.fst).Sublist (entries.map Entry.id) := by
  induction entries with
  | nil => exact List.Sublist.refl _
  | cons e entries ih =>
    rw [saves, List.filterMap_cons]
    cases e.request.saved W with
    | none => exact ih.cons _
    | some text => exact ih.cons_cons _

theorem saves_texts : (saves W entries).map Prod.snd =
    (entries.map Entry.request).filterMap (Request.saved W) := by
  rw [saves, List.map_filterMap, List.filterMap_map]
  refine List.filterMap_congr fun e _ => ?_
  exact (Option.map_map _ _ _).trans Option.map_id'

/-- A context was answered to the request `id` with the texts of these requests to save: once for each
of them, all of those that were answered, also with an error, before the context was asked for, and
none that was called after it was answered. -/
structure Holds (W : World β) (store : List String) (h : List (Event Nat (Request β) (Answer α)))
    (id : Nat) (body : β) (answer : Answer α) (saves : List (Nat × String)) : Prop where
  nodup : (saves.map Prod.fst).Nodup
  answer_eq : answer =
    some (.ok (single "context" (.list ((store ++ saves.map Prod.snd).map .str))))
  called : ∀ p ∈ saves, ∃ r, .call p.1 r ∈ h ∧ r.saved W = some p.2 ∧
    ¬ [.answer id answer, .call p.1 r].Sublist h
  answered : ∀ {id' r a text}, [.answer id' a, .call id ⟨load, body⟩].Sublist h →
    .call id' r ∈ h → r.saved W = some text → (id', text) ∈ saves

/-- Every context that is answered is such a one, and the list begins with it from then on. -/
theorem context_of_run {as : List (Action β)} {id : Nat} {body : β} {answer : Answer α}
    (hrs : rs.Perm (Threads.routers W))
    (hrun : (server rs store).run (server rs store).init as = some s)
    (hcall : .call id ⟨load, body⟩ ∈ history rs store as)
    (hanswer : .answer id answer ∈ history rs store as) :
    ∃ saves, Holds W store (history rs store as) id body answer saves ∧
      store ++ saves.map Prod.snd <+: s._context_store := by
  have hperm := endpoints_perm hrs
  obtain ⟨order, H⟩ := atomic_server.linearizes hrun
  obtain ⟨r, hmem⟩ := H.answered hanswer
  obtain rfl : r = ⟨load, body⟩ := H.unique (H.called _ hmem) hcall
  obtain ⟨before, after, rfl⟩ := List.append_of_mem hmem
  have htexts : (saves W before).map Prod.snd = _ := saves_texts
  have hnodup := H.nodup
  rw [List.map_append] at hnodup
  refine ⟨saves W before, ⟨?_, ?_, ?_, ?_⟩, ?_⟩
  · exact saves_ids.nodup (List.nodup_append.1 hnodup).1
  · have heq := H.answer_eq
    rw [serve_load hperm rfl, replay_store hperm, ← htexts] at heq
    exact heq
  · intro p hp
    obtain ⟨e, he, hid, htext⟩ := mem_saves.1 hp
    refine ⟨e.request, hid ▸ H.called e (List.mem_append_left _ he), htext, fun hsub => ?_⟩
    obtain ⟨first, rest, rfl⟩ := List.append_of_mem he
    rw [← hid] at hsub
    rw [List.append_assoc, List.cons_append] at H
    -- the context would stand before a request that stands before it
    have hfirst := H.mem_before hsub
    rw [List.map_append, List.map_cons] at hnodup
    exact (List.nodup_append.1 hnodup).2.2 _ (List.mem_append_left _ hfirst) _
      List.mem_cons_self rfl
  · intro id' r a text hsub hsave htext
    obtain ⟨e, he, rfl⟩ := List.mem_map.1 (H.mem_before hsub)
    have hrequest := H.unique (H.called e (List.mem_append_left _ he)) hsave
    exact mem_saves.2 ⟨e, he, rfl, hrequest ▸ htext⟩
  · have hstore := congrArg Prod.snd H.replays
    rw [replay_store hperm, List.map_append, List.filterMap_append, ← htexts] at hstore
    exact ⟨_, (List.append_assoc _ _ _).trans hstore⟩

/-- A console that is closed. -/
def mute : World String where
  validate body := .ok ⟨body⟩
  print _ := .error "ValueError: I/O operation on closed file."
  Popen _ := .error "OSError: [Errno 12] Cannot allocate memory"
  signals _ := none

/-- The first text is saved and answered with an error; then a context is asked for, and a second text
is appended while it is encoded. -/
def overlapping : List (Action String) :=
  [.call 0 ⟨save, "buy milk"⟩, .advance 0, .advance 0, .answer 0,
    .call 1 ⟨load, ""⟩, .call 2 ⟨save, "call home"⟩, .advance 1, .advance 1, .advance 1,
    .advance 2, .advance 2, .advance 1, .advance 1, .answer 1, .answer 2]

theorem context_linearizable_overlapping : ∃ s,
    (server (Threads.routers (α := Constant) mute) []).run
      (server (Threads.routers mute) []).init overlapping = some s ∧
    (endpoints (Threads.routers (α := Constant) mute)).Perm (routers mute) ∧
      ∃ order, Linearizes (serve (endpoints (Threads.routers (α := Constant) mute))) []
        s._context_store (history (Threads.routers mute) [] overlapping) order :=
  ⟨_, rfl, context_linearizable (List.Perm.refl _) rfl⟩

/-- The context of the request has both texts. -/
theorem context_of_overlapping : ∃ s saves,
    (server (Threads.routers (α := Constant) mute) []).run
      (server (Threads.routers mute) []).init overlapping = some s ∧
    Holds mute [] (history (Threads.routers (α := Constant) mute) [] overlapping) 1 ""
        (some (.ok (single "context" (.list [.str "buy milk", .str "call home"])))) saves ∧
      [] ++ saves.map Prod.snd <+: s._context_store := by
  have hhistory : history (Threads.routers (α := Constant) mute) [] overlapping =
      [.call 0 ⟨save, "buy milk"⟩,
        .answer 0 (some (.error (.raised "ValueError: I/O operation on closed file."))),
        .call 1 ⟨load, ""⟩, .call 2 ⟨save, "call home"⟩,
        .answer 1 (some (.ok (single "context" (.list [.str "buy milk", .str "call home"])))),
        .answer 2 (some (.error (.raised "ValueError: I/O operation on closed file.")))] := rfl
  have hcall : .call 1 ⟨load, ""⟩ ∈
      history (Threads.routers (α := Constant) mute) [] overlapping := by
    rw [hhistory]
    simp
  have hanswer :
      .answer 1 (some (.ok (single "context" (.list [.str "buy milk", .str "call home"])))) ∈
        history (Threads.routers (α := Constant) mute) [] overlapping := by
    rw [hhistory]
    simp
  obtain ⟨saves, hholds⟩ := context_of_run (List.Perm.refl _) rfl hcall hanswer
  exact ⟨_, saves, rfl, hholds⟩

end Simian.Routes
