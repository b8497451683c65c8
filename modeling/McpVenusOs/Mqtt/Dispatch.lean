/-
  McpVenusOs.Mqtt.Dispatch

  The callbacks of `MQTTClient`: `subscribe`, `unsubscribe` and
  `_notify_callbacks` on the two structures they keep in step.

  `_callbacks` is a dict and `_callback_index` a matcher of paho; both hold the
  same list objects, so `CallbackStore` has a heap of lists.  A store is linked
  when the two agree, and then it is a `Registry` (`toRegistry`), on which the
  rest of the client is modelled.  What a registry holds and in which order is
  determined by the operations so far (`registered`, `since`).
-/

import McpVenusOs.Mqtt.RefreshTopics

namespace McpVenusOs

open Py TopicFilter

/-! ## The store -/

/-- `_callbacks`, `_callback_index` and `_callback_sequence`. -/
structure CallbackStore where
  /-- The list objects, by identity. -/
  lists : Nat → List Nat := fun _ => []
  /-- The identity of the next list object. -/
  fresh : Nat := 0
  /-- `_callbacks`: a list object for each pattern. -/
  callbacks : List (String × Nat) := []
  /-- `_callback_index`: a sequence number and a list object for each pattern. -/
  index : List (String × Nat × Nat) := []
  sequence : Nat := 0

/-- `d[k] = v` -/
def setItem {β : Type} (d : List (String × β)) (k : String) (v : β) : List (String × β) :=
  if d.any (·.1 = k) then d.map fun e => if e.1 = k then (k, v) else e else d ++ [(k, v)]

/-- `del d[k]` -/
def delItem {β : Type} (d : List (String × β)) (k : String) : List (String × β) :=
  d.filter (·.1 ≠ k)

/-- `MQTTMatcher.iter_match`: the stored values whose filter matches a topic. -/
abbrev IterMatch : Type := List (String × Nat × Nat) → String → List (Nat × Nat)

/-- What is assumed of `iter_match`: the values stored under a matching filter, in any order. -/
def YieldsMatching (iterMatch : IterMatch) : Prop :=
  ∀ index topic, (index.map Prod.fst).Nodup → (iterMatch index topic).Perm
    ((index.filter fun e => topicMatchesSub e.1 topic).map Prod.snd)

namespace CallbackStore

/-- `self._callbacks[topic_pattern] = []`, and its entry in the index. -/
def create (s : CallbackStore) (pattern : String) : CallbackStore :=
  { s with
    lists := Function.update s.lists s.fresh []
    fresh := s.fresh + 1
    callbacks := setItem s.callbacks pattern s.fresh
    index := setItem s.index pattern (s.sequence, s.fresh)
    sequence := s.sequence + 1 }

/-- The section of `subscribe` under `_callback_lock`. -/
def subscribe (s : CallbackStore) (pattern : String) (callback : Nat) :
    CallbackStore × Except PyError Bool :=
  let s := if s.callbacks.any (·.1 = pattern) then s else s.create pattern
  match s.callbacks.lookup pattern with
  | none => (s, .error (.other "KeyError"))
  | some i =>
    ({ s with lists := Function.update s.lists i (s.lists i ++ [callback]) }, .ok false)

/-- The section of `unsubscribe` under `_callback_lock`; its result is `removed`. -/
def unsubscribe (s : CallbackStore) (pattern : String) (callback : Nat) :
    CallbackStore × Except PyError Bool :=
  match s.callbacks.lookup pattern with
  | none => (s, .ok false)
  | some i =>
    if callback ∉ s.lists i then (s, .error .valueError)
    else
      let s := { s with lists := Function.update s.lists i ((s.lists i).erase callback) }
      if s.lists i = [] then
        let s := { s with callbacks := delItem s.callbacks pattern }
        if s.index.any (·.1 = pattern) then
          ({ s with index := delItem s.index pattern }, .ok true)
        else (s, .error (.other "KeyError"))
      else (s, .ok false)

/-- The section of `_notify_callbacks` under `_callback_lock`. -/
def snapshot (s : CallbackStore) (iterMatch : IterMatch) (topic : String) : List Nat :=
  if s.callbacks = [] then []
  else ((iterMatch s.index topic).insertionSort fun a b => a.1 ≤ b.1).flatMap fun group =>
    s.lists group.2

/-- The registry that is stored. -/
def toRegistry (s : CallbackStore) : Registry where
  entries := s.index.map fun e => ⟨e.1, e.2.1, s.lists e.2.2⟩
  sequence := s.sequence

/-- Both structures hold the same lists under the same patterns. -/
structure Linked (s : CallbackStore) : Prop where
  callbacks_eq : s.callbacks = s.index.map fun e => (e.1, e.2.2)
  patterns : (s.index.map Prod.fst).Nodup
  objects : (s.index.map fun e => e.2.2).Nodup
  alive : ∀ e ∈ s.index, e.2.2 < s.fresh

/-! ### The store is a registry -/

section Linked

variable {s : CallbackStore} {pattern : String} {callback : Nat}

theorem any_of_linked (h : Linked s) :
    s.callbacks.any (·.1 = pattern) = s.index.any (·.1 = pattern) ∧
      s.toRegistry.has pattern = s.index.any (·.1 = pattern) := by
  rw [h.callbacks_eq, List.any_map, Registry.has, toRegistry, List.any_map]
  exact ⟨rfl, rfl⟩

theorem lookup_of_linked (h : Linked s) :
    s.callbacks.lookup pattern = (s.index.lookup pattern).map (·.2) := by
  rw [h.callbacks_eq]
  generalize s.index = index
  induction index with
  | nil => rfl
  | cons e index ih =>
    rw [List.map_cons, List.lookup_cons, List.lookup_cons, ih]
    split <;> rfl

/-- Changing the list of one pattern changes its entry. -/
theorem toRegistry_update (h : Linked s) {e : String × Nat × Nat} (he : e ∈ s.index)
    (f : List Nat → List Nat) :
    ({ s with lists := Function.update s.lists e.2.2 (f (s.lists e.2.2)) } :
      CallbackStore).toRegistry =
      { s.toRegistry with entries := s.toRegistry.entries.map fun x =>
          if x.pattern = e.1 then { x with callbacks := f x.callbacks } else x } := by
  rw [toRegistry, toRegistry, List.map_map, Registry.mk.injEq]
  refine ⟨List.map_congr_left fun x hx => ?_, rfl⟩
  by_cases hsame : x.1 = e.1
  · have hxe : x = e := List.inj_on_of_nodup_map h.patterns hx he hsame
    simp [hxe]
  · have hobject : x.2.2 ≠ e.2.2 := fun heq =>
      hsame (congrArg Prod.fst (List.inj_on_of_nodup_map h.objects hx he heq))
    simp [hsame, Function.update_of_ne hobject]

theorem Linked.update (h : Linked s) (lists : Nat → List Nat) :
    Linked { s with lists := lists } :=
  ⟨h.callbacks_eq, h.patterns, h.objects, h.alive⟩

theorem setItem_new {β : Type} {d : List (String × β)} {k : String} (h : d.any (·.1 = k) = false)
    (v : β) : setItem d k v = d ++ [(k, v)] := by
  rw [setItem, h, if_neg Bool.false_ne_true]

theorem any_eq_false {β : Type} {d : List (String × β)} {k : String} :
    d.any (·.1 = k) = false ↔ k ∉ d.map Prod.fst := by
  rw [← Bool.not_eq_true, not_iff_not, List.any_eq_true, List.mem_map]
  simp only [decide_eq_true_eq]

theorem create_index (h : Linked s) (hnew : s.index.any (·.1 = pattern) = false) :
    (s.create pattern).callbacks = s.callbacks ++ [(pattern, s.fresh)] ∧
      (s.create pattern).index = s.index ++ [(pattern, s.sequence, s.fresh)] := by
  have hnew' := (any_of_linked h).1.trans hnew
  exact ⟨setItem_new hnew' _, setItem_new hnew _⟩

/-- A new pattern has a list object of its own. -/
theorem Linked.create (h : Linked s) (hnew : s.index.any (·.1 = pattern) = false) :
    Linked (s.create pattern) := by
  obtain ⟨hcallbacks, hindex⟩ := create_index h hnew
  refine ⟨?_, ?_, ?_, ?_⟩
  -- the key goes last in both; the list object is a new one
  · rw [hcallbacks, hindex, h.callbacks_eq, List.map_append]
    rfl
  · rw [hindex, List.map_append, List.nodup_append]
    refine ⟨h.patterns, List.nodup_singleton _, ?_⟩
    intro p hp q hq heq
    obtain rfl : q = pattern := List.mem_singleton.mp hq
    exact any_eq_false.mp hnew (heq ▸ hp)
  · rw [hindex, List.map_append, List.nodup_append]
    refine ⟨h.objects, List.nodup_singleton _, ?_⟩
    intro i hi j hj heq
    obtain rfl : j = s.fresh := List.mem_singleton.mp hj
    obtain ⟨e, he, rfl⟩ := List.mem_map.mp hi
    exact (h.alive e he).ne heq
  · intro e he
    rw [hindex] at he
    rcases List.mem_append.mp he with he | he
    · exact (h.alive e he).trans (Nat.lt_succ_self _)
    · rw [List.mem_singleton.mp he]
      exact Nat.lt_succ_self _

theorem toRegistry_create (h : Linked s) (hnew : s.index.any (·.1 = pattern) = false) :
    (s.create pattern).toRegistry.entries =
      s.toRegistry.entries ++ [⟨pattern, s.sequence, []⟩] := by
  have hlists : (s.create pattern).lists = Function.update s.lists s.fresh [] := rfl
  rw [toRegistry, (create_index h hnew).2, hlists, List.map_append, toRegistry]
  refine congrArg₂ _ (List.map_congr_left fun e he => ?_) ?_
  · rw [Function.update_of_ne (h.alive e he).ne]
  · simp

/-- The lookup of a pattern finds its list object. -/
theorem lookup_of_mem (h : Linked s) {e : String × Nat × Nat} (he : e ∈ s.index) :
    s.callbacks.lookup e.1 = some e.2.2 := by
  rw [lookup_of_linked h, (lookup_eq_some_of_nodup h.patterns).mpr he]
  rfl

/-- `append` on the list of a pattern that is there. -/
theorem subscribe_of_mem (h : Linked s) {e : String × Nat × Nat} (he : e ∈ s.index)
    (callback : Nat) : s.subscribe e.1 callback =
      ({ s with lists := Function.update s.lists e.2.2 (s.lists e.2.2 ++ [callback]) },
        .ok false) := by
  have hany : s.callbacks.any (·.1 = e.1) = true := by
    rw [(any_of_linked h).1, List.any_eq_true]
    exact ⟨e, he, decide_eq_true rfl⟩
  simp only [subscribe, hany, if_true, lookup_of_mem h he]

/-- A pattern that is not there is created first. -/
theorem subscribe_of_new (h : Linked s) (hnew : s.index.any (·.1 = pattern) = false) :
    s.subscribe pattern callback = (s.create pattern).subscribe pattern callback := by
  have hold : s.callbacks.any (·.1 = pattern) = false := (any_of_linked h).1.trans hnew
  have hcreated : (s.create pattern).callbacks.any (·.1 = pattern) = true := by
    rw [(create_index h hnew).1]
    simp
  simp only [subscribe, hold, hcreated, if_true, Bool.false_eq_true, if_false]

theorem subscribe_refines (pattern : String) (callback : Nat) (h : Linked s) :
    Linked (s.subscribe pattern callback).1 ∧
      (s.subscribe pattern callback).1.toRegistry = s.toRegistry.subscribe pattern callback := by
  cases hhas : s.index.any (·.1 = pattern) with
  | true =>
    obtain ⟨e, he, hpattern⟩ := List.any_eq_true.mp hhas
    obtain rfl : e.1 = pattern := of_decide_eq_true hpattern
    rw [subscribe_of_mem h he, Registry.subscribe, (any_of_linked h).2, hhas, if_pos rfl]
    refine ⟨h.update _, ?_⟩
    exact toRegistry_update h he (· ++ [callback])
  | false =>
    -- a new pattern: first its empty list, then the callback
    have hcreate := h.create hhas
    have he : (pattern, s.sequence, s.fresh) ∈ (s.create pattern).index := by
      rw [(create_index h hhas).2]
      exact List.mem_append_right _ (List.mem_singleton_self _)
    rw [subscribe_of_new h hhas, subscribe_of_mem hcreate he, Registry.subscribe,
      (any_of_linked h).2, hhas, if_neg Bool.false_ne_true]
    refine ⟨hcreate.update _, ?_⟩
    rw [toRegistry_update hcreate he (· ++ [callback]), toRegistry_create h hhas, Registry.mk.injEq]
    refine ⟨?_, rfl⟩
    rw [List.map_append]
    refine congrArg₂ _ ((List.map_congr_left fun x hx => ?_).trans (List.map_id _)) ?_
    · obtain ⟨e, he, rfl⟩ := List.mem_map.mp hx
      have hne : e.1 ≠ pattern := fun heq => any_eq_false.mp hhas (heq ▸ List.mem_map_of_mem he)
      simp [hne]
    · simp [toRegistry]

/-- The list objects, after the list of a pattern became empty. -/
theorem Linked.delete (h : Linked s) (pattern : String) :
    Linked { s with callbacks := delItem s.callbacks pattern,
                    index := delItem s.index pattern } where
  callbacks_eq := by
    rw [h.callbacks_eq, delItem, delItem, List.filter_map]
    rfl
  patterns := h.patterns.sublist (List.filter_sublist.map _)
  objects := h.objects.sublist (List.filter_sublist.map _)
  alive e he := h.alive e (List.mem_of_mem_filter he)

theorem find?_toRegistry (h : Linked s) {e : String × Nat × Nat} (he : e ∈ s.index) :
    s.toRegistry.entries.find? (·.pattern = e.1) = some ⟨e.1, e.2.1, s.lists e.2.2⟩ := by
  have hindex : s.index.find? (fun x => decide (x.1 = e.1)) = some e := by
    cases hx : s.index.find? (fun x => decide (x.1 = e.1)) with
    | none => exact absurd (decide_eq_true rfl) (List.find?_eq_none.mp hx e he)
    | some x =>
      have hsame : x.1 = e.1 := by simpa using List.find?_some hx
      rw [List.inj_on_of_nodup_map h.patterns (List.mem_of_find?_eq_some hx) he hsame]
  rw [toRegistry, List.find?_map]
  exact congrArg _ hindex

/-- A pattern that is not there has no list to remove from. -/
theorem unsubscribe_of_new (callback : Nat) (h : Linked s)
    (hnew : s.index.any (·.1 = pattern) = false) :
    s.unsubscribe pattern callback = (s, .ok false) ∧
      s.toRegistry.unsubscribe pattern callback = .ok (s.toRegistry, false) := by
  have hne : ∀ e ∈ s.index, e.1 ≠ pattern := fun e he heq =>
    any_eq_false.mp hnew (heq ▸ List.mem_map_of_mem he)
  -- the pattern is in neither the store nor the registry
  have hlookup : s.callbacks.lookup pattern = none := by
    rw [lookup_of_linked h, List.lookup_eq_none_iff.mpr, Option.map_none]
    intro e he
    simpa using (hne e he).symm
  have hfind : s.toRegistry.entries.find? (·.pattern = pattern) = none := by
    rw [List.find?_eq_none]
    intro x hx
    obtain ⟨e, he, rfl⟩ := List.mem_map.mp hx
    simpa using hne e he
  exact ⟨by rw [unsubscribe, hlookup], by rw [Registry.unsubscribe, hfind]⟩

/-- `remove` raises before anything changed. -/
theorem unsubscribe_of_absent (h : Linked s) {e : String × Nat × Nat} (he : e ∈ s.index)
    (hmem : callback ∉ s.lists e.2.2) : s.unsubscribe e.1 callback = (s, .error .valueError) ∧
      s.toRegistry.unsubscribe e.1 callback = .error .valueError := by
  constructor
  · simp only [unsubscribe, lookup_of_mem h he]
    exact if_pos hmem
  · simp only [Registry.unsubscribe, find?_toRegistry h he]
    exact if_neg hmem

/-- The list of a pattern after `remove`. -/
def removed (s : CallbackStore) (i callback : Nat) : CallbackStore :=
  { s with lists := Function.update s.lists i ((s.lists i).erase callback) }

/-- A list that stays nonempty stays. -/
theorem unsubscribe_of_mem (h : Linked s) {e : String × Nat × Nat} (he : e ∈ s.index)
    (hmem : callback ∈ s.lists e.2.2) (hrest : (s.lists e.2.2).erase callback ≠ []) :
    s.unsubscribe e.1 callback = (s.removed e.2.2 callback, .ok false) ∧
      s.toRegistry.unsubscribe e.1 callback =
        .ok ((s.removed e.2.2 callback).toRegistry, false) := by
  constructor
  · simp only [unsubscribe, lookup_of_mem h he, removed]
    rw [if_neg (not_not_intro hmem), if_neg (by rwa [Function.update_self])]
  · simp only [Registry.unsubscribe, find?_toRegistry h he]
    rw [if_pos hmem, if_neg hrest]
    exact congrArg (fun r => Except.ok (r, false)) (toRegistry_update h he (·.erase callback)).symm

/-- An empty list goes, from both structures. -/
theorem unsubscribe_of_last (h : Linked s) {e : String × Nat × Nat} (he : e ∈ s.index)
    (hmem : callback ∈ s.lists e.2.2) (hrest : (s.lists e.2.2).erase callback = []) :
    s.unsubscribe e.1 callback = ({ s.removed e.2.2 callback with
        callbacks := delItem s.callbacks e.1, index := delItem s.index e.1 }, .ok true) ∧
      s.toRegistry.unsubscribe e.1 callback =
        .ok (({ s.removed e.2.2 callback with
          callbacks := delItem s.callbacks e.1, index := delItem s.index e.1 } :
            CallbackStore).toRegistry, true) := by
  have hany : s.index.any (·.1 = e.1) = true := List.any_eq_true.mpr ⟨e, he, decide_eq_true rfl⟩
  constructor
  · simp only [unsubscribe, lookup_of_mem h he, removed]
    rw [if_neg (not_not_intro hmem), if_pos (by rwa [Function.update_self]), if_pos hany]
  · simp only [Registry.unsubscribe, find?_toRegistry h he]
    rw [if_pos hmem, if_pos hrest]
    refine congrArg (fun entries => Except.ok (Registry.mk entries s.sequence, true)) ?_
    rw [toRegistry, List.filter_map]
    refine List.map_congr_left fun x hx => ?_
    obtain ⟨hx, hne⟩ := List.mem_filter.mp hx
    -- another pattern has another list object
    have hobject : x.2.2 ≠ e.2.2 := fun heq => of_decide_eq_true hne
      (congrArg Prod.fst (List.inj_on_of_nodup_map h.objects hx he heq))
    simp only [removed, Function.update_of_ne hobject]

/-- `unsubscribe` of the registry, as the store performs it. -/
theorem unsubscribe_refines (pattern : String) (callback : Nat) (h : Linked s) :
    Linked (s.unsubscribe pattern callback).1 ∧
      match s.toRegistry.unsubscribe pattern callback with
      | .ok (r, removed) => (s.unsubscribe pattern callback).2 = .ok removed ∧
          (s.unsubscribe pattern callback).1.toRegistry = r
      | .error e => s.unsubscribe pattern callback = (s, .error e) := by
  cases hhas : s.index.any (·.1 = pattern) with
  | false =>
    obtain ⟨hstore, hregistry⟩ := unsubscribe_of_new callback h hhas
    rw [hstore, hregistry]
    exact ⟨h, rfl, rfl⟩
  | true =>
    obtain ⟨e, he, hpattern⟩ := List.any_eq_true.mp hhas
    obtain rfl : e.1 = pattern := of_decide_eq_true hpattern
    -- `list.remove` raises on a callback that is not there
    by_cases hmem : callback ∈ s.lists e.2.2
    · by_cases hrest : (s.lists e.2.2).erase callback = []
      · obtain ⟨hstore, hregistry⟩ := unsubscribe_of_last h he hmem hrest
        rw [hstore, hregistry]
        exact ⟨(h.update _).delete e.1, rfl, rfl⟩
      · obtain ⟨hstore, hregistry⟩ := unsubscribe_of_mem h he hmem hrest
        rw [hstore, hregistry]
        exact ⟨h.update _, rfl, rfl⟩
    · obtain ⟨hstore, hregistry⟩ := unsubscribe_of_absent h he hmem
      rw [hstore, hregistry]
      exact ⟨h, rfl⟩

end Linked

end CallbackStore

/-! ## Histories -/

/-- A call of `subscribe` or `unsubscribe`. -/
inductive CallbackOp where
  | subscribe (pattern : String) (callback : Nat)
  | unsubscribe (pattern : String) (callback : Nat)

def CallbackStore.perform (s : CallbackStore) : CallbackOp → CallbackStore × Except PyError Bool
  | .subscribe pattern callback => s.subscribe pattern callback
  | .unsubscribe pattern callback => s.unsubscribe pattern callback

/-- The store after a history, which has its latest operation first. -/
def CallbackStore.after : List CallbackOp → CallbackStore
  | [] => {}
  | op :: history => ((after history).perform op).1

/-- The callbacks registered under a pattern, in the order of registration. -/
def registered : List CallbackOp → String → List Nat
  | [], _ => []
  | .subscribe p callback :: history, q =>
    if p = q then registered history q ++ [callback] else registered history q
  | .unsubscribe p callback :: history, q =>
    if p = q then (registered history q).erase callback else registered history q

/-- When a pattern was last registered for the first time: the number of operations before. -/
def since : List CallbackOp → String → Nat
  | [], _ => 0
  | .subscribe p _ :: history, q =>
    if p = q ∧ registered history q = [] then history.length else since history q
  | .unsubscribe _ _ :: history, q => since history q

/-- A registry holds what a history has registered, in the order of `since`. -/
structure Represents (history : List CallbackOp) (r : Registry) : Prop where
  callbacks : ∀ e ∈ r.entries, e.callbacks = registered history e.pattern
  nonempty : ∀ e ∈ r.entries, e.callbacks ≠ []
  complete : ∀ p, registered history p ≠ [] → ∃ e ∈ r.entries, e.pattern = p
  since_lt : r.entries.Pairwise fun a b => since history a.pattern < since history b.pattern
  since_bound : ∀ e ∈ r.entries, since history e.pattern < history.length
  sequence_lt : r.entries.Pairwise fun a b => a.sequence < b.sequence
  sequence_bound : ∀ e ∈ r.entries, e.sequence < r.sequence

namespace Represents

variable {history : List CallbackOp} {r : Registry} {pattern : String} {callback : Nat}

theorem init : Represents [] {} :=
  ⟨by simp, by simp, by simp [registered], .nil, by simp, .nil, by simp⟩

/-- An operation that changes no registration. -/
theorem cons (h : Represents history r) {op : CallbackOp}
    (hregistered : ∀ q, registered (op :: history) q = registered history q)
    (hsince : ∀ q, since (op :: history) q = since history q) :
    Represents (op :: history) r where
  callbacks e he := (h.callbacks e he).trans (hregistered _).symm
  nonempty := h.nonempty
  complete p hp := h.complete p (hregistered p ▸ hp)
  since_lt := h.since_lt.imp fun hlt => by rwa [hsince, hsince]
  since_bound e he := by
    rw [hsince]
    exact (h.since_bound e he).trans (Nat.lt_succ_self _)
  sequence_lt := h.sequence_lt
  sequence_bound := h.sequence_bound

/-- An operation that changes the callbacks of one pattern. -/
theorem update (h : Represents history r) {op : CallbackOp} (f : List Nat → List Nat)
    (hregistered : ∀ q, registered (op :: history) q =
      if q = pattern then f (registered history q) else registered history q)
    (hsince : ∀ q, since (op :: history) q = since history q)
    (hentry : ∃ e ∈ r.entries, e.pattern = pattern)
    (hne : f (registered history pattern) ≠ []) :
    Represents (op :: history) { r with entries := r.entries.map fun e =>
      if e.pattern = pattern then { e with callbacks := f e.callbacks } else e } := by
  have hpattern : ∀ e : Registration, (if e.pattern = pattern then
      { e with callbacks := f e.callbacks } else e).pattern = e.pattern := by
    intro e
    split <;> rfl
  have hsequence : ∀ e : Registration, (if e.pattern = pattern then
      { e with callbacks := f e.callbacks } else e).sequence = e.sequence := by
    intro e
    split <;> rfl
  exact {
    -- the callbacks change in one entry, the order in none
    callbacks := by
      intro x hx
      obtain ⟨e, he, rfl⟩ := List.mem_map.mp hx
      rw [hpattern, hregistered, ← h.callbacks e he]
      split <;> rfl
    nonempty := by
      intro x hx
      obtain ⟨e, he, rfl⟩ := List.mem_map.mp hx
      split
      · rename_i heq
        show f e.callbacks ≠ []
        rwa [h.callbacks e he, heq]
      · exact h.nonempty e he
    complete := by
      intro p hp
      have hold : ∃ e ∈ r.entries, e.pattern = p := by
        by_cases heq : p = pattern
        · rwa [heq]
        · rw [hregistered, if_neg heq] at hp
          exact h.complete p hp
      obtain ⟨e, he, rfl⟩ := hold
      exact ⟨_, List.mem_map_of_mem he, hpattern e⟩
    since_lt := by
      rw [List.pairwise_map]
      refine h.since_lt.imp fun {a b} hlt => ?_
      rwa [hpattern, hpattern, hsince, hsince]
    since_bound := by
      intro x hx
      obtain ⟨e, he, rfl⟩ := List.mem_map.mp hx
      rw [hpattern, hsince]
      exact (h.since_bound e he).trans (Nat.lt_succ_self _)
    sequence_lt := by
      rw [List.pairwise_map]
      refine h.sequence_lt.imp fun {a b} hlt => ?_
      rwa [hsequence, hsequence]
    sequence_bound := by
      intro x hx
      obtain ⟨e, he, rfl⟩ := List.mem_map.mp hx
      rw [hsequence]
      exact h.sequence_bound e he }

theorem has_iff (h : Represents history r) :
    r.has pattern = true ↔ registered history pattern ≠ [] := by
  rw [Registry.has, List.any_eq_true]
  simp only [decide_eq_true_eq]
  constructor
  · rintro ⟨e, he, rfl⟩
    rw [← h.callbacks e he]
    exact h.nonempty e he
  · exact h.complete pattern

/-- A new pattern comes last in the order. -/
theorem append (h : Represents history r) (hnil : registered history pattern = []) :
    Represents (.subscribe pattern callback :: history)
      { entries := r.entries ++ [⟨pattern, r.sequence, [callback]⟩],
        sequence := r.sequence + 1 } := by
  -- no entry has the pattern, whose callbacks are none
  have hother : ∀ e ∈ r.entries, pattern ≠ e.pattern := by
    intro e he heq
    rw [heq, ← h.callbacks e he] at hnil
    exact h.nonempty e he hnil
  have hsince : ∀ e ∈ r.entries,
      since (.subscribe pattern callback :: history) e.pattern = since history e.pattern :=
    fun e he => if_neg fun hp => hother e he hp.1
  have hnew : since (.subscribe pattern callback :: history) pattern = history.length :=
    if_pos ⟨rfl, hnil⟩
  exact {
    callbacks := by
      intro e he
      rcases List.mem_append.mp he with he | he
      · rw [registered, if_neg (hother e he)]
        exact h.callbacks e he
      · rw [List.mem_singleton.mp he, registered, if_pos rfl, hnil]
        rfl
    nonempty := by
      intro e he
      rcases List.mem_append.mp he with he | he
      · exact h.nonempty e he
      · rw [List.mem_singleton.mp he]
        exact List.cons_ne_nil _ _
    complete := by
      intro p hp
      by_cases heq : pattern = p
      · exact ⟨_, List.mem_append_right _ (List.mem_singleton_self _), heq⟩
      · rw [registered, if_neg heq] at hp
        obtain ⟨e, he, hpe⟩ := h.complete p hp
        exact ⟨e, List.mem_append_left _ he, hpe⟩
    since_lt := by
      rw [List.pairwise_append]
      refine ⟨h.since_lt.imp_of_mem fun ha hb hlt => ?_, List.pairwise_singleton _ _, ?_⟩
      · rwa [hsince _ ha, hsince _ hb]
      · intro e he x hx
        rw [List.mem_singleton.mp hx, hsince e he, hnew]
        exact h.since_bound e he
    since_bound := by
      intro e he
      rcases List.mem_append.mp he with he | he
      · rw [hsince e he]
        exact (h.since_bound e he).trans (Nat.lt_succ_self _)
      · rw [List.mem_singleton.mp he, hnew]
        exact Nat.lt_succ_self _
    sequence_lt := by
      rw [List.pairwise_append]
      refine ⟨h.sequence_lt, List.pairwise_singleton _ _, ?_⟩
      intro e he x hx
      rw [List.mem_singleton.mp hx]
      exact h.sequence_bound e he
    sequence_bound := by
      intro e he
      rcases List.mem_append.mp he with he | he
      · exact (h.sequence_bound e he).trans (Nat.lt_succ_self _)
      · rw [List.mem_singleton.mp he]
        exact Nat.lt_succ_self _ }

theorem subscribe (h : Represents history r) :
    Represents (.subscribe pattern callback :: history) (r.subscribe pattern callback) := by
  rw [Registry.subscribe]
  by_cases hhas : r.has pattern = true
  · rw [if_pos hhas]
    -- a registered pattern keeps its place in the order
    have hsince : ∀ q, since (.subscribe pattern callback :: history) q = since history q := by
      intro q
      refine if_neg ?_
      rintro ⟨rfl, hnil⟩
      exact h.has_iff.mp hhas hnil
    have hregistered : ∀ q, registered (.subscribe pattern callback :: history) q =
        if q = pattern then registered history q ++ [callback] else registered history q := by
      intro q
      simp only [registered, eq_comm]
    refine h.update (· ++ [callback]) hregistered hsince ?_ (by simp)
    exact h.complete pattern (h.has_iff.mp hhas)
  · rw [if_neg hhas]
    refine h.append ?_
    by_contra hne
    exact hhas (h.has_iff.mpr hne)

/-- The last callback of a pattern goes with the pattern. -/
theorem delete (h : Represents history r)
    (hlast : (registered history pattern).erase callback = []) :
    Represents (.unsubscribe pattern callback :: history)
      { r with entries := r.entries.filter (·.pattern ≠ pattern) } where
  callbacks e he := by
    obtain ⟨he, hne⟩ := List.mem_filter.mp he
    -- an entry that stays is of another pattern
    have hother : pattern ≠ e.pattern := fun heq => of_decide_eq_true hne heq.symm
    rw [registered, if_neg hother]
    exact h.callbacks e he
  nonempty e he := h.nonempty e (List.mem_of_mem_filter he)
  complete p hp := by
    by_cases heq : pattern = p
    · rw [registered, if_pos heq, ← heq] at hp
      exact absurd hlast hp
    · rw [registered, if_neg heq] at hp
      obtain ⟨e, he, rfl⟩ := h.complete p hp
      exact ⟨e, List.mem_filter.mpr ⟨he, decide_eq_true (Ne.symm heq)⟩, rfl⟩
  since_lt := h.since_lt.filter _
  since_bound e he :=
    (h.since_bound e (List.mem_of_mem_filter he)).trans (Nat.lt_succ_self _)
  sequence_lt := h.sequence_lt.filter _
  sequence_bound e he := h.sequence_bound e (List.mem_of_mem_filter he)

/-- Without its callback an `unsubscribe` changes nothing. -/
theorem unsubscribe_absent (h : Represents history r)
    (habsent : callback ∉ registered history pattern) :
    Represents (.unsubscribe pattern callback :: history) r := by
  refine h.cons (fun q => ?_) fun q => rfl
  rw [registered]
  split
  · rename_i heq
    rw [← heq, List.erase_of_not_mem habsent]
  · rfl

theorem unsubscribe (pattern : String) (callback : Nat) (h : Represents history r) :
    match r.unsubscribe pattern callback with
    | .ok (r', _) => Represents (.unsubscribe pattern callback :: history) r'
    | .error _ => Represents (.unsubscribe pattern callback :: history) r := by
  rw [Registry.unsubscribe]
  cases hfind : r.entries.find? (·.pattern = pattern) with
  | none =>
    -- without an entry no callback is registered
    have hnil : registered history pattern = [] := by
      by_contra hne
      obtain ⟨e, he, hpe⟩ := h.complete pattern hne
      exact List.find?_eq_none.mp hfind e he (decide_eq_true hpe)
    exact h.unsubscribe_absent (by simp [hnil])
  | some e =>
    have he := List.mem_of_find?_eq_some hfind
    have hpe : e.pattern = pattern := by simpa using List.find?_some hfind
    have hcallbacks : e.callbacks = registered history pattern := by
      rw [h.callbacks e he, hpe]
    by_cases hmem : callback ∈ e.callbacks
    · by_cases hlast : e.callbacks.erase callback = []
      · simp only [if_pos hmem, if_pos hlast]
        exact h.delete (hcallbacks ▸ hlast)
      -- other callbacks of the pattern stay
      · simp only [if_pos hmem, if_neg hlast]
        have hregistered : ∀ q, registered (.unsubscribe pattern callback :: history) q =
            if q = pattern then (registered history q).erase callback
            else registered history q := by
          intro q
          simp only [registered, eq_comm]
        exact h.update (·.erase callback) hregistered (fun q => rfl) ⟨e, he, hpe⟩
          (hcallbacks ▸ hlast)
    -- the callback is not in the list, so `remove` raises
    · simp only [if_neg hmem]
      exact h.unsubscribe_absent (hcallbacks ▸ hmem)

end Represents

namespace CallbackStore

/-- Every history leaves the structures linked, holding what it has registered. -/
theorem after_represents (history : List CallbackOp) :
    Linked (after history) ∧ Represents history (after history).toRegistry := by
  induction history with
  | nil => exact ⟨⟨rfl, List.nodup_nil, List.nodup_nil, fun e he => nomatch he⟩, .init⟩
  | cons op history ih =>
    -- the store refines the registry, the registry represents the history
    obtain ⟨hlinked, hrepresents⟩ := ih
    cases op with
    | subscribe pattern callback =>
      obtain ⟨hlinked', hregistry⟩ := subscribe_refines pattern callback hlinked
      refine ⟨hlinked', ?_⟩
      show Represents _ ((after history).subscribe pattern callback).1.toRegistry
      rw [hregistry]
      exact hrepresents.subscribe
    | unsubscribe pattern callback =>
      obtain ⟨hlinked', hregistry⟩ := unsubscribe_refines pattern callback hlinked
      have hnext := hrepresents.unsubscribe pattern callback
      refine ⟨hlinked', ?_⟩
      show Represents _ ((after history).unsubscribe pattern callback).1.toRegistry
      cases hresult : (after history).toRegistry.unsubscribe pattern callback with
      | ok result =>
        rw [hresult] at hregistry hnext
        rw [hregistry.2]
        exact hnext
      | error e =>
        rw [hresult] at hregistry hnext
        rw [hregistry]
        exact hnext

/-- Sorting brings the yielded groups into the order of the index. -/
theorem sorted_groups {index : List (String × Nat × Nat)} {groups : List (Nat × Nat)}
    (hperm : groups.Perm (index.map Prod.snd)) (h : index.Pairwise fun a b => a.2.1 < b.2.1) :
    groups.insertionSort (fun a b => a.1 ≤ b.1) = index.map Prod.snd := by
  have : Std.Total fun a b : Nat × Nat => a.1 ≤ b.1 := ⟨fun a b => Nat.le_total a.1 b.1⟩
  have : IsTrans (Nat × Nat) fun a b => a.1 ≤ b.1 := ⟨fun _ _ _ => Nat.le_trans⟩
  have hsorted : (index.map Prod.snd).Pairwise fun a b => a.1 < b.1 := List.pairwise_map.mpr h
  have hperm' := (List.perm_insertionSort (fun a b => a.1 ≤ b.1) groups).trans hperm
  refine hperm'.eq_of_pairwise ?_ (List.pairwise_insertionSort _ _) (hsorted.imp Nat.le_of_lt)
  intro a b ha hb hab hba
  -- two entries with one sequence number are one entry
  have hnodup : ((index.map Prod.snd).map Prod.fst).Nodup :=
    List.pairwise_map.mpr (hsorted.imp Nat.ne_of_lt)
  exact List.inj_on_of_nodup_map hnodup (hperm'.mem_iff.mp ha) hb (Nat.le_antisymm hab hba)

/-- The entries of a registry are in the order of their sequence numbers. -/
theorem matching_eq {r : Registry}
    (h : r.entries.Pairwise fun a b => a.sequence < b.sequence) (topic : String) :
    r.matching topic =
      (r.entries.filter fun e => topicMatchesSub e.pattern topic).flatMap (·.callbacks) := by
  have hsorted := (h.filter fun e => topicMatchesSub e.pattern topic).imp Nat.le_of_lt
  rw [Registry.matching, hsorted.insertionSort_eq]

/-- The snapshot of the two structures is the one of the registry. -/
theorem snapshot_refines {s : CallbackStore} {iterMatch : IterMatch}
    (hiter : YieldsMatching iterMatch) (h : Linked s)
    (hsequence : s.toRegistry.entries.Pairwise fun a b => a.sequence < b.sequence)
    (topic : String) : s.snapshot iterMatch topic = s.toRegistry.matching topic := by
  rw [matching_eq hsequence]
  rw [toRegistry, List.pairwise_map] at hsequence
  rw [toRegistry, List.filter_map, List.flatMap_map, snapshot]
  split
  · rename_i hempty
    rw [h.callbacks_eq, List.map_eq_nil_iff] at hempty
    rw [hempty]
    rfl
  · rw [sorted_groups (hiter _ _ h.patterns) (hsequence.filter _), List.flatMap_map]
    rfl

end CallbackStore

/-! ## Dispatch -/

/-- What happens while a callback runs: the operations it and other threads
    perform, and how it ends. -/
structure Invocation where
  ops : List CallbackOp
  result : Except PyError Unit

/-- A dispatch: the store after it, the calls made and the logged errors. -/
structure Delivery where
  store : CallbackStore
  calls : List (Nat × Json)
  errors : List PyError

/-- `for callback in callbacks`; what a call does may depend on all calls so far. -/
def deliver (behaviour : List (Nat × Json) → Invocation) (payload : Json) :
    List Nat → Delivery → Delivery
  | [], d => d
  | callback :: callbacks, d =>
    let calls := d.calls ++ [(callback, payload)]
    let invocation := behaviour calls
    let store := invocation.ops.foldl (fun s op => (s.perform op).1) d.store
    match invocation.result with
    | .ok () => deliver behaviour payload callbacks ⟨store, calls, d.errors⟩
    | .error e => deliver behaviour payload callbacks ⟨store, calls, d.errors ++ [e]⟩

def notifyCallbacks (iterMatch : IterMatch) (behaviour : List (Nat × Json) → Invocation)
    (s : CallbackStore) (topic : String) (payload : Json) : Delivery :=
  deliver behaviour payload (s.snapshot iterMatch topic) ⟨s, [], []⟩

/-- The callbacks to call for a topic: those registered under a matching pattern,
    the pattern first that was first registered first. -/
def Dispatched (history : List CallbackOp) (topic : String) (callbacks : List Nat) : Prop :=
  ∃ patterns : List String,
    (∀ p, p ∈ patterns ↔ registered history p ≠ [] ∧ topicMatchesSub p topic = true) ∧
    patterns.Pairwise (fun p q => since history p < since history q) ∧
    callbacks = patterns.flatMap (registered history)

/-- Both structures have the same keys and, under each, the one list of what is
    registered, which is not empty. -/
structure InStep (history : List CallbackOp) (s : CallbackStore) : Prop where
  keys : s.callbacks.map Prod.fst = s.index.map Prod.fst
  nodup : (s.callbacks.map Prod.fst).Nodup
  mem_keys : ∀ p, p ∈ s.callbacks.map Prod.fst ↔ registered history p ≠ []
  lists : ∀ p i, (p, i) ∈ s.callbacks → s.lists i = registered history p
  objects : ∀ p, s.callbacks.lookup p = (s.index.lookup p).map (·.2)

/-- The operations during a dispatch, in their order. -/
def performedDuring (behaviour : List (Nat × Json) → Invocation) (calls : List (Nat × Json)) :
    List CallbackOp :=
  (List.range calls.length).flatMap fun i => (behaviour (calls.take (i + 1))).ops

section Dispatch

variable {iterMatch : IterMatch} {behaviour : List (Nat × Json) → Invocation}
  {history : List CallbackOp}

theorem foldl_perform (ops : List CallbackOp) :
    ops.foldl (fun s op => (s.perform op).1) (CallbackStore.after history) =
      CallbackStore.after (ops.reverse ++ history) := by
  induction ops generalizing history with
  | nil => rfl
  | cons op ops ih =>
    have hop : ((CallbackStore.after history).perform op).1 =
        CallbackStore.after (op :: history) := rfl
    rw [List.foldl_cons, hop, ih, List.reverse_cons, List.append_assoc, List.singleton_append]

/-- A callback that raises leaves an error in the log and nothing else. -/
theorem deliver_cons (behaviour : List (Nat × Json) → Invocation) (payload : Json)
    (callback : Nat) (callbacks : List Nat) (d : Delivery) :
    ∃ errors, deliver behaviour payload (callback :: callbacks) d =
      deliver behaviour payload callbacks
        ⟨(behaviour (d.calls ++ [(callback, payload)])).ops.foldl
          (fun s op => (s.perform op).1) d.store, d.calls ++ [(callback, payload)], errors⟩ := by
  cases hresult : (behaviour (d.calls ++ [(callback, payload)])).result with
  | ok u => exact ⟨d.errors, by simp only [deliver, hresult]⟩
  | error e => exact ⟨d.errors ++ [e], by simp only [deliver, hresult]⟩

/-- Every callback is called once, whatever the ones before it did. -/
theorem deliver_calls (payload : Json) (callbacks : List Nat) (d : Delivery) :
    (deliver behaviour payload callbacks d).calls =
      d.calls ++ callbacks.map fun callback => (callback, payload) := by
  induction callbacks generalizing d with
  | nil => exact (List.append_nil _).symm
  | cons callback callbacks ih =>
    obtain ⟨errors, hnext⟩ := deliver_cons behaviour payload callback callbacks d
    rw [hnext, ih, List.map_cons, List.append_assoc, List.singleton_append]

/-- The operations during the calls reach the store in their order. -/
theorem deliver_store (payload : Json) (callbacks : List Nat) (d : Delivery) :
    (deliver behaviour payload callbacks d).store =
      ((List.range callbacks.length).flatMap fun i => (behaviour (d.calls ++
        (callbacks.map fun callback => (callback, payload)).take (i + 1))).ops).foldl
          (fun s op => (s.perform op).1) d.store := by
  induction callbacks generalizing d with
  | nil => rfl
  | cons callback callbacks ih =>
    obtain ⟨errors, hnext⟩ := deliver_cons behaviour payload callback callbacks d
    rw [hnext, ih, List.length_cons, List.range_succ_eq_map, List.flatMap_cons, List.foldl_append,
      List.flatMap_map]
    simp only [List.map_cons, List.take_succ_cons, List.take_zero, List.append_assoc,
      List.singleton_append]

theorem dispatched_snapshot (hiter : YieldsMatching iterMatch) (history : List CallbackOp)
    (topic : String) :
    Dispatched history topic ((CallbackStore.after history).snapshot iterMatch topic) := by
  obtain ⟨hlinked, h⟩ := CallbackStore.after_represents history
  rw [CallbackStore.snapshot_refines hiter hlinked h.sequence_lt,
    CallbackStore.matching_eq h.sequence_lt]
  refine ⟨((CallbackStore.after history).toRegistry.entries.filter fun e =>
    topicMatchesSub e.pattern topic).map (·.pattern), fun p => ?_, ?_, ?_⟩
  -- the snapshot is made of the entries that match
  · rw [List.mem_map]
    constructor
    · rintro ⟨e, he, rfl⟩
      obtain ⟨he, hmatches⟩ := List.mem_filter.mp he
      rw [← h.callbacks e he]
      exact ⟨h.nonempty e he, hmatches⟩
    · rintro ⟨hne, hmatches⟩
      obtain ⟨e, he, rfl⟩ := h.complete p hne
      exact ⟨e, List.mem_filter.mpr ⟨he, hmatches⟩, rfl⟩
  · exact List.pairwise_map.mpr (h.since_lt.filter _)
  · rw [List.flatMap_map, List.flatMap_congr]
    intro e he
    exact h.callbacks e (List.mem_of_mem_filter he)

theorem after_inStep (history : List CallbackOp) : InStep history (.after history) := by
  obtain ⟨hlinked, h⟩ := CallbackStore.after_represents history
  have hkeys : (CallbackStore.after history).callbacks.map Prod.fst =
      (CallbackStore.after history).index.map Prod.fst := by
    rw [hlinked.callbacks_eq, List.map_map]
    rfl
  refine ⟨hkeys, hkeys ▸ hlinked.patterns, fun p => ?_, fun p i hmem => ?_, fun p =>
    CallbackStore.lookup_of_linked hlinked⟩
  -- a key has callbacks, and what has callbacks has a key
  · rw [hkeys, List.mem_map]
    constructor
    · rintro ⟨e, he, rfl⟩
      have hentry := List.mem_map_of_mem (f := fun e : String × Nat × Nat =>
        (⟨e.1, e.2.1, (CallbackStore.after history).lists e.2.2⟩ : Registration)) he
      rw [← h.callbacks _ hentry]
      exact h.nonempty _ hentry
    · intro hne
      obtain ⟨x, hx, rfl⟩ := h.complete p hne
      obtain ⟨e, he, rfl⟩ := List.mem_map.mp hx
      exact ⟨e, he, rfl⟩
  · rw [hlinked.callbacks_eq] at hmem
    obtain ⟨e, he, heq⟩ := List.mem_map.mp hmem
    obtain ⟨rfl, rfl⟩ := Prod.mk.inj heq
    exact h.callbacks _ (List.mem_map_of_mem he)

/-- An `unsubscribe` of a callback that is not registered leaves the store as it is. -/
theorem unsubscribe_unregistered {pattern : String} {callback : Nat}
    (habsent : callback ∉ registered history pattern) :
    ((CallbackStore.after history).unsubscribe pattern callback).1 = .after history := by
  obtain ⟨hlinked, h⟩ := CallbackStore.after_represents history
  cases hhas : (CallbackStore.after history).index.any (·.1 = pattern) with
  | false => rw [(CallbackStore.unsubscribe_of_new callback hlinked hhas).1]
  | true =>
    obtain ⟨e, he, hpattern⟩ := List.any_eq_true.mp hhas
    obtain rfl : e.1 = pattern := of_decide_eq_true hpattern
    have hlist := h.callbacks _ (List.mem_map_of_mem he)
    rw [(CallbackStore.unsubscribe_of_absent hlinked he (fun hmem => habsent (hlist ▸ hmem))).1]

/-- The dispatch of a message after any history of `subscribe` and `unsubscribe`
    calls: the snapshot decides the calls, whatever happens during them, and
    what happens during them is in the store afterwards. -/
theorem notify_dispatches (hiter : YieldsMatching iterMatch)
    (behaviour : List (Nat × Json) → Invocation) (history : List CallbackOp) (topic : String)
    (payload : Json) :
    InStep history (.after history) ∧
      (∀ pattern callback, callback ∉ registered history pattern →
        ((CallbackStore.after history).unsubscribe pattern callback).1 = .after history) ∧
      ∃ callbacks, Dispatched history topic callbacks ∧
        (notifyCallbacks iterMatch behaviour (.after history) topic payload).calls =
          callbacks.map (fun callback => (callback, payload)) ∧
        (notifyCallbacks iterMatch behaviour (.after history) topic payload).store =
          .after ((performedDuring behaviour
            (callbacks.map fun callback => (callback, payload))).reverse ++ history) := by
  refine ⟨after_inStep history, fun p c => unsubscribe_unregistered, _,
    dispatched_snapshot hiter history topic, ?_, ?_⟩
  · rw [notifyCallbacks, deliver_calls, List.nil_append]
  · rw [notifyCallbacks, deliver_store, performedDuring, List.length_map, ← foldl_perform]
    simp only [List.nil_append]

/-- A matcher that keeps the order of the index. -/
def scanMatch : IterMatch := fun index topic =>
  (index.filter fun e => topicMatchesSub e.1 topic).map Prod.snd

/-- Four registrations, the last under the pattern of the first.  The first call
    drops the second callback and raises; all four are called. -/
theorem notify_dispatches_order :
    let history : List CallbackOp :=
      [.subscribe "#" 3, .subscribe "a/+" 2, .subscribe "a/b" 1, .subscribe "#" 0]
    let delivery := notifyCallbacks scanMatch
      (fun _ => ⟨[.unsubscribe "#" 3], .error (.other "Exception")⟩) (.after history) "a/b" .null
    (∃ callbacks, Dispatched history "a/b" callbacks ∧
      delivery.calls = callbacks.map fun callback => (callback, Json.null)) ∧
      delivery.calls.map Prod.fst = [0, 3, 1, 2] := by
  intro history delivery
  have hiter : YieldsMatching scanMatch := fun _ _ _ => .refl _
  obtain ⟨-, -, callbacks, hdispatched, hcalls, -⟩ := notify_dispatches hiter
    (fun _ => ⟨[.unsubscribe "#" 3], .error (.other "Exception")⟩) history "a/b" .null
  exact ⟨⟨callbacks, hdispatched, hcalls⟩, by decide +kernel⟩

end Dispatch

end McpVenusOs
