import Simian.Memory.Failure

/-! # The lists in the memory

A memory has a list of conversations and one of voice commands, which is created with its first
entry (`Lists`). Every call on such a memory completes, whatever its arguments. If the file decodes
after calls from a new manager, it decodes to such a memory, whichever of their writes have failed
(`Kept.run`). -/

universe u

namespace Simian.MemoryManager
open Json

variable {α : Type u}

def get? (m : Obj α) (key : String) : Option (Obj α) :=
  match m with
  | .dict kvs => kvs.lookup (.str key)
  | _ => none

/-- The memory has the conversations `xs` and the voice commands `ys`. -/
structure Lists (m : Obj α) (xs ys : List (Obj α)) : Prop where
  conversations : get? m "conversations" = some (.list xs)
  voice_commands : (get? m "voice_commands").getD (.list []) = .list ys
  short_term : (get? m "short_term").isSome = true
  long_term : (get? m "long_term").isSome = true

/-- The keys are strings and distinct. -/
def StrKeys (m : Obj α) : Prop :=
  ∃ kvs, m = .dict kvs ∧ (Dict.keys kvs).Nodup ∧ ∀ kv ∈ kvs, ∃ s, kv.1 = .str s

/-! ## What the calls do to the lists -/

variable {m m₁ m' x y : Obj α} {key : String} {xs ys : List (Obj α)}

/-- `m'` is `m` but for the value of `key`. -/
structure Sets (m : Obj α) (key : String) (x : Obj α) (m' : Obj α) : Prop where
  self : get? m' key = some x
  other : ∀ key', key' ≠ key → get? m' key' = get? m key'
  plain : m.Plain → x.Plain → m'.Plain
  strKeys : StrKeys m → StrKeys m'

theorem sets_dict {kvs : List (Key × Obj α)} :
    Sets (.dict kvs) key x (.dict (Dict.set kvs (.str key) x)) where
  self := Dict.lookup_set_self
  other _ hne := Dict.lookup_set_ne fun heq => hne (Key.str.inj heq).symm
  plain h hx := h.set hx
  strKeys h := by
    obtain ⟨kvs, heq, hnodup, hstr⟩ := h
    cases heq
    refine ⟨_, rfl, Dict.nodup_set hnodup, fun kv hkv => ?_⟩
    rcases Dict.mem_set hkv with rfl | hkv
    · exact ⟨key, rfl⟩
    · exact hstr kv hkv

theorem Sets.trans (h₁ : Sets m key x m₁) (h₂ : Sets m₁ key y m') (hx : y.Plain → x.Plain) :
    Sets m key y m' where
  self := h₂.self
  other key' hne := (h₂.other key' hne).trans (h₁.other key' hne)
  plain hm hy := h₂.plain (h₁.plain hm (hx hy)) hy
  strKeys h := h₂.strKeys (h₁.strKeys h)

theorem append_of_get? (h : get? m key = some (.list xs)) :
    ∃ m', append m key x = .ok m' ∧ Sets m key (.list (xs ++ [x])) m' := by
  cases m with
  | dict kvs => exact ⟨_, append_eq_ok.2 ⟨kvs, xs, rfl, h, rfl⟩, sets_dict⟩
  | _ => cases h

theorem setDefault_of_get? {kvs : List (Key × Obj α)}
    (h : (get? (.dict kvs) key).getD (.list []) = .list xs) :
    ∃ m', setDefault (.dict kvs) key = .ok m' ∧ Sets (.dict kvs) key (.list xs) m' := by
  refine ⟨_, setDefault_eq_ok.2 ⟨kvs, rfl, rfl⟩, ?_⟩
  cases hl : kvs.lookup (.str key) with
  | none =>
    rw [get?, hl] at h
    cases h
    exact sets_dict
  | some y =>
    rw [get?, hl] at h
    cases h
    exact ⟨hl, fun _ _ => rfl, fun hm _ => hm, id⟩

theorem Lists.dict (h : Lists m xs ys) : ∃ kvs, m = .dict kvs := by
  have hget := h.conversations
  cases m with
  | dict kvs => exact ⟨kvs, rfl⟩
  | _ => cases hget

theorem lists_default : Lists (default_memory : Obj α) [] [] := ⟨rfl, rfl, rfl, rfl⟩

theorem Lists.store (h : Lists m xs ys) :
    ∃ m', append m "conversations" x = .ok m' ∧
      Sets m "conversations" (.list (xs ++ [x])) m' ∧ Lists m' (xs ++ [x]) ys := by
  obtain ⟨m', happend, hset⟩ := append_of_get? (x := x) h.conversations
  refine ⟨m', happend, hset, hset.self, ?_, ?_, ?_⟩
  · rw [hset.other _ (by decide), h.voice_commands]
  · rw [hset.other _ (by decide), h.short_term]
  · rw [hset.other _ (by decide), h.long_term]

theorem Lists.log (h : Lists m xs ys) :
    ∃ m₁ m', setDefault m "voice_commands" = .ok m₁ ∧ append m₁ "voice_commands" x = .ok m' ∧
      Sets m "voice_commands" (.list (ys ++ [x])) m' ∧ Lists m' xs (ys ++ [x]) := by
  obtain ⟨kvs, rfl⟩ := h.dict
  obtain ⟨m₁, hdefault, hset₁⟩ := setDefault_of_get? h.voice_commands
  obtain ⟨m', happend, hset₂⟩ := append_of_get? (x := x) hset₁.self
  have hset := hset₁.trans hset₂ fun hplain => Obj.plainElems_iff.2 fun y hy =>
    Obj.plainElems_iff.1 hplain y (List.mem_append_left _ hy)
  refine ⟨m₁, m', hdefault, happend, hset, ?_, ?_, ?_, ?_⟩
  · rw [hset.other _ (by decide), h.conversations]
  · rw [hset.self]
    rfl
  · rw [hset.other _ (by decide), h.short_term]
  · rw [hset.other _ (by decide), h.long_term]

theorem plain_strKeys {kvs : List (Key × Obj α)} (h : (Obj.dict kvs).Plain) : StrKeys (.dict kvs) :=
  ⟨kvs, rfl, h.1, fun kv hkv => (Obj.plainMembers_iff.1 h.2 kv hkv).1⟩

/-- The conversations `xs` after the call. -/
def Call.conversations (xs : List (Obj α)) : Call α → List (Obj α)
  | .log _ _ => xs
  | .store user_input simian_response => xs ++ [conversation user_input simian_response]
  | .clear => []

theorem Call.completes_of_lists (h : Lists m xs ys) (hkeys : StrKeys m) (c : Call α) :
    ∃ m' ys', c.completes m = .ok m' ∧ Lists m' (c.conversations xs) ys' ∧ StrKeys m' := by
  cases c with
  | log timestamp voice_command =>
    obtain ⟨m₁, m', hdefault, happend, hset, hm'⟩ := h.log
    exact ⟨m', _, completes_log.2 ⟨m₁, hdefault, happend⟩, hm', hset.strKeys hkeys⟩
  | store user_input simian_response =>
    obtain ⟨m', happend, hset, hm'⟩ := h.store
    exact ⟨m', _, happend, hm', hset.strKeys hkeys⟩
  | clear => exact ⟨_, _, rfl, lists_default, plain_strKeys default_memory_plain⟩

theorem plain_getD (hm : m.Plain) : ((get? m key).getD (.list [])).Plain := by
  cases hget : get? m key with
  | none => trivial
  | some x =>
    cases m with
    | dict kvs => exact (Obj.plainMembers_iff.1 hm.2 _ (Dict.mem_of_lookup hget)).2
    | _ => cases hget

theorem Lists.plain_conversations (h : Lists m xs ys) (hm : m.Plain) : (Obj.list xs).Plain := by
  have hplain := @plain_getD α _ "conversations" hm
  rwa [h.conversations] at hplain

theorem Lists.plain_voice_commands (h : Lists m xs ys) (hm : m.Plain) : (Obj.list ys).Plain := by
  have hplain := @plain_getD α _ "voice_commands" hm
  rwa [h.voice_commands] at hplain

/-! ## What the file of a manager decodes to -/

theorem get?_normal (h : StrKeys m) : get? m.normal key = (get? m key).map Obj.normal := by
  obtain ⟨kvs, rfl, hnodup, hstr⟩ := h
  have hmap := Obj.normalMembers_eq hstr
  have hkeys : Dict.keys (Obj.normalMembers kvs) = Dict.keys kvs := by
    rw [hmap, Dict.keys, List.map_map]
    rfl
  rw [Obj.normal, Dict.ofPairs_of_nodup (hkeys ▸ hnodup), hmap]
  exact Dict.lookup_map

theorem Lists.normal (h : Lists m xs ys) (hkeys : StrKeys m) :
    Lists m.normal (xs.map Obj.normal) (ys.map Obj.normal) := by
  refine ⟨?_, ?_, ?_, ?_⟩
  · rw [get?_normal hkeys, h.conversations, Option.map_some, Obj.normal, Obj.normalElems_eq]
  · have hys := h.voice_commands
    rw [get?_normal hkeys]
    cases hget : get? m "voice_commands" with
    | none =>
      rw [hget] at hys
      cases hys
      rfl
    | some y =>
      rw [hget, Option.getD_some] at hys
      rw [hys, Option.map_some, Option.getD_some, Obj.normal, Obj.normalElems_eq]
  · rw [get?_normal hkeys, Option.isSome_map, h.short_term]
  · rw [get?_normal hkeys, Option.isSome_map, h.long_term]

theorem Lists.recent {s : State α} (h : Lists s.memory xs ys) (limit : Int) :
    get_recent_conversation limit s = .ok (.list (fromEnd limit xs)) := by
  have hget := h.conversations
  obtain ⟨kvs, hm⟩ := h.dict
  rw [hm, get?] at hget
  simp only [get_recent_conversation, hm, hget]

variable [Scalar α] {fault : Option Nat} {s t : State α} {c : Call α}

/-- The memory has its lists, and so has the one that the file decodes to, if it does. -/
structure Kept (s : State α) : Prop where
  memory : ∃ xs ys, Lists s.memory xs ys
  strKeys : StrKeys s.memory
  file : ∀ m : Obj α, _load_memory s.file = .ok m → ∃ xs ys, Lists m xs ys

theorem kept_fresh : Kept (fresh : State α) := by
  refine ⟨⟨_, _, lists_default⟩, plain_strKeys default_memory_plain, fun m hm => ?_⟩
  cases load_default.symm.trans hm
  exact ⟨_, _, lists_default⟩

/-- Whatever the arguments and however the write fails. -/
theorem Kept.call (h : Kept s) : Kept (c.run fault s).1 := by
  obtain ⟨⟨xs, ys, hs⟩, hkeys, -⟩ := h
  obtain ⟨new, ys', hnew, hlists, hkeys'⟩ := Call.completes_of_lists hs hkeys c
  have hmemory : (∃ xs ys, Lists (c.run fault s).1.memory xs ys) ∧
      StrKeys (c.run fault s).1.memory := by
    rcases @Call.run_memory _ _ fault s c with hm | ⟨new', hnew', hm, -⟩
    · rw [hm]
      exact ⟨⟨xs, ys, hs⟩, hkeys⟩
    · cases hnew.symm.trans hnew'
      rw [hm]
      exact ⟨⟨_, ys', hlists⟩, hkeys'⟩
  refine ⟨hmemory.1, hmemory.2, fun m hm => ?_⟩
  rw [Call.run_eq hnew] at hm
  obtain ⟨kvs, rfl⟩ := hlists.dict
  obtain ⟨-, -, rfl⟩ := load_write.1 (load_memory_eq_ok.1 hm)
  exact ⟨_, _, hlists.normal hkeys'⟩

theorem Kept.run {as : List (Call α × Option Nat)} (h : Kept s)
    (hrun : (calls s).run s as = some t) : Kept t := by
  have hstep {s t : State α} {a : Call α × Option Nat} (hs : Kept s)
      (ht : (calls s).step s a = some t) : Kept t := by
    rw [← calls_step ht]
    exact hs.call
  exact Machine.run_keeps hstep h hrun

end Simian.MemoryManager
