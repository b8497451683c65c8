/-
  McpVenusOs.Mqtt.Subscriptions

  `subscribe`, `unsubscribe` and `_on_connect` as interleaved steps, and the
  filters they leave with the broker.

  A call of `subscribe` or `unsubscribe` is a section under `_callback_lock`, a
  test of `_connected`, and the broker call; any number of calls are in
  progress at once, between any two of their steps.  `_on_connect` sets
  `_connected`, takes a snapshot of the registered patterns, and subscribes
  them one by one.  The broker starts every connection without filters.

  The client's machine takes such a call as one event.  Here its steps are
  apart, because nothing orders the broker calls of two of them: a late
  UNSUBSCRIBE may follow a newer SUBSCRIBE (`unsubscribe_overtakes`).
-/

import Mathlib.Data.Finset.Basic
import McpVenusOs.Mqtt.Machine

namespace McpVenusOs

open Py Machine

/-! ## The steps -/

inductive BrokerCall
  | subscribe (pattern : String)
  | unsubscribe (pattern : String)
  deriving DecidableEq

namespace BrokerCall

def pattern : BrokerCall → String
  | subscribe p | unsubscribe p => p

/-- What the broker does with the filters of the connection. -/
def apply (filters : Finset String) : BrokerCall → Finset String
  | subscribe p => insert p filters
  | unsubscribe p => filters.erase p

end BrokerCall

/-- The next statement of `_on_connect`. -/
inductive ConnectPc
  /-- The broker has accepted; `_connected` is not yet set. -/
  | accepted
  | snapshot
  | subscribing (rest : List String)

/-- A call past its section under the lock, and whether it has passed the test
    of `_connected` as well. -/
structure SubscriptionCall where
  call : BrokerCall
  tested : Bool
  deriving DecidableEq

structure SubscriptionState where
  connected : Bool := false
  /-- The broker's filters for the connection. -/
  filters : Finset String := ∅
  registry : Registry := {}
  connecting : Option ConnectPc := none
  calls : List SubscriptionCall := []

inductive SubscriptionEvent
  /-- The broker accepts a connection, and `_on_connect` begins. -/
  | sessionStart
  | connectStep
  /-- `_on_disconnect`, a refused connection, or the stop of the transport. -/
  | disconnected
  | subscribe (pattern : String) (callback : Nat)
  | unsubscribe (pattern : String) (callback : Nat)
  | advance (i : Nat)

namespace SubscriptionState

/-- One step of call `c`, the `i`-th: its test, or its broker call. -/
def callStep (env : MqttEnv) (s : SubscriptionState) (i : Nat) (c : SubscriptionCall) :
    SubscriptionState × List BrokerCall :=
  let done := { s with calls := s.calls.eraseIdx i }
  if c.tested then ({ done with filters := c.call.apply s.filters }, [c.call])
  else if s.connected then
    match baseSubscriptions env.config env.contracts with
    | .error _ => (done, [])
    | .ok base =>
      if coveredBy base c.call.pattern then (done, [])
      else ({ s with calls := s.calls.set i { c with tested := true } }, [])
  else (done, [])

def step (env : MqttEnv) (s : SubscriptionState) :
    SubscriptionEvent → Option (SubscriptionState × List BrokerCall)
  | .sessionStart =>
    -- one callback runs at a time
    if s.connecting.isNone then
      some ({ s with filters := ∅, connecting := some .accepted }, [])
    else none
  | .connectStep =>
    match s.connecting with
    | none => none
    | some .accepted => some ({ s with connected := true, connecting := some .snapshot }, [])
    | some .snapshot =>
      -- without a portal `_on_connect` raises
      match baseSubscriptions env.config env.contracts with
      | .error _ => some ({ s with connecting := none }, [])
      | .ok base =>
        let rest := connectFilters base s.registry.explicit
        some ({ s with connecting := some (.subscribing rest) }, [])
    | some (.subscribing []) => some ({ s with connecting := none }, [])
    | some (.subscribing (p :: rest)) =>
      some ({ s with filters := insert p s.filters,
                     connecting := some (.subscribing rest) }, [.subscribe p])
  | .disconnected => some ({ s with connected := false }, [])
  | .subscribe pattern callback =>
    some ({ s with registry := s.registry.subscribe pattern callback,
                   calls := s.calls ++ [⟨.subscribe pattern, false⟩] }, [])
  | .unsubscribe pattern callback =>
    -- an unknown callback is ignored
    match s.registry.unsubscribe pattern callback with
    | .error _ => some (s, [])
    | .ok (registry, removed) =>
      some ({ s with registry := registry,
                     calls := if removed then s.calls ++ [⟨.unsubscribe pattern, false⟩]
                       else s.calls }, [])
  | .advance i => s.calls[i]?.map (s.callStep env i)

/-- No operation is in progress. -/
def Quiescent (s : SubscriptionState) : Prop := s.connecting.isNone = true ∧ s.calls = []

/-! ## Broker calls out of order -/

/-- The filters `_on_connect` still has to send, once it has its snapshot. -/
def remaining (s : SubscriptionState) : Option (List String) :=
  match s.connecting with
  | none => some []
  | some (.subscribing rest) => some rest
  | some _ => none

/-- The connection counts: the client is connected, or is about to be. -/
def opening (s : SubscriptionState) : Bool :=
  s.connected || match s.connecting with
    | some .accepted => true
    | _ => false

/-- One of the calls in progress will ask the broker for `call`. -/
def due (calls : List SubscriptionCall) (call : BrokerCall) : Bool := calls.any (·.call = call)

/-- The registry agrees with the broker call, or a later one will correct it:
    an UNSUBSCRIBE of a registered pattern precedes another SUBSCRIBE of it, a
    SUBSCRIBE of a pattern that is not registered precedes an UNSUBSCRIBE. -/
def inOrder (s : SubscriptionState) : BrokerCall → Bool
  | .subscribe p => p ∈ s.registry.explicit || !s.opening || due s.calls (.unsubscribe p)
  | .unsubscribe p =>
    p ∉ s.registry.explicit || !s.connected || due s.calls (.subscribe p) ||
      match s.remaining with
      | none => true
      | some rest => p ∈ rest

/-- The step sends no broker call out of order, and skips no UNSUBSCRIBE that
    the connection being accepted needs. -/
def ordered (env : MqttEnv) (s : SubscriptionState) (e : SubscriptionEvent) : Bool :=
  match baseSubscriptions env.config env.contracts with
  | .error _ => true
  | .ok base =>
    match e with
    | .connectStep =>
      match s.connecting with
      | some (.subscribing (p :: _)) => p ∈ base || s.inOrder (.subscribe p)
      | _ => true
    | .advance i =>
      match s.calls[i]? with
      | none => true
      | some c =>
        if c.tested then s.inOrder c.call
        else match c.call with
          | .subscribe _ => true
          | .unsubscribe p =>
            s.connected || !s.opening || p ∈ s.registry.explicit || p ∉ s.filters ||
              due (s.calls.eraseIdx i) (.unsubscribe p)
    | _ => true

end SubscriptionState

/-- Any number of threads, one registry, one broker. -/
def subscriptionSystem (env : MqttEnv) :
    System SubscriptionState SubscriptionEvent BrokerCall where
  init := {}
  step := SubscriptionState.step env

/-! ## The registry -/

namespace Registry

variable {r r' : Registry} {p q : String} {callback : Nat} {removed : Bool}

theorem mem_explicit : q ∈ r.explicit ↔ ∃ e ∈ r.entries, e.callbacks ≠ [] ∧ e.pattern = q := by
  simp [explicit, and_assoc]

theorem mem_explicit_subscribe :
    q ∈ (r.subscribe p callback).explicit ↔ q = p ∨ q ∈ r.explicit := by
  simp only [mem_explicit, subscribe]
  split
  -- the pattern has an entry: the callback is added there
  · rename_i hhas
    obtain ⟨e, he, hpe⟩ : ∃ e ∈ r.entries, e.pattern = p := by simpa [has] using hhas
    constructor
    · rintro ⟨e', he', hne, rfl⟩
      obtain ⟨e₀, he₀, rfl⟩ := List.mem_map.mp he'
      split
      · rename_i hp
        exact .inl hp
      · rename_i hp
        rw [if_neg hp] at hne
        exact .inr ⟨e₀, he₀, hne, rfl⟩
    · rintro (rfl | ⟨e₀, he₀, hne, rfl⟩)
      · refine ⟨_, List.mem_map.mpr ⟨e, he, rfl⟩, ?_⟩
        rw [if_pos hpe]
        exact ⟨by simp, hpe⟩
      · refine ⟨_, List.mem_map.mpr ⟨e₀, he₀, rfl⟩, ?_⟩
        split
        · exact ⟨by simp, rfl⟩
        · exact ⟨hne, rfl⟩
  -- a new entry at the end
  · constructor
    · rintro ⟨e', he', hne, rfl⟩
      rcases List.mem_append.mp he' with he' | he'
      · exact .inr ⟨e', he', hne, rfl⟩
      · rw [List.mem_singleton.mp he']
        exact .inl rfl
    · rintro (rfl | ⟨e₀, he₀, hne, rfl⟩)
      · exact ⟨_, List.mem_append_right _ (List.mem_singleton_self _), by simp, rfl⟩
      · exact ⟨e₀, List.mem_append_left _ he₀, hne, rfl⟩

/-- A pattern leaves the registry exactly when `unsubscribe` says so. -/
theorem mem_explicit_unsubscribe (h : r.unsubscribe p callback = .ok (r', removed)) :
    q ∈ r'.explicit ↔ q ∈ r.explicit ∧ (removed = true → q ≠ p) := by
  unfold unsubscribe at h
  split at h
  -- no entry
  · cases h
    simp
  · rename_i e hfind
    have hpe : e.pattern = p := by simpa using List.find?_some hfind
    have he := List.mem_of_find?_eq_some hfind
    split at h
    · rename_i hcallback
      split at h
      -- the last callback takes the entry with it
      · cases h
        simp only [mem_explicit, List.mem_filter]
        constructor
        · rintro ⟨e', ⟨he', hp⟩, hne, rfl⟩
          exact ⟨⟨e', he', hne, rfl⟩, fun _ => by simpa using hp⟩
        · rintro ⟨⟨e', he', hne, rfl⟩, hp⟩
          exact ⟨e', ⟨he', by simpa using hp⟩, hne, rfl⟩
      -- other callbacks stay
      · rename_i hleft
        cases h
        simp only [mem_explicit, Bool.false_eq_true, false_implies, and_true]
        constructor
        · rintro ⟨e', he', hne, rfl⟩
          obtain ⟨e₀, he₀, rfl⟩ := List.mem_map.mp he'
          refine ⟨e₀, he₀, fun hnil => hne ?_, ?_⟩
          · split <;> simp [hnil]
          · split <;> rfl
        · rintro ⟨e₀, he₀, hne, rfl⟩
          by_cases hp : e₀.pattern = p
          · refine ⟨_, List.mem_map.mpr ⟨e, he, rfl⟩, ?_⟩
            rw [if_pos hpe]
            exact ⟨hleft, hpe.trans hp.symm⟩
          · refine ⟨_, List.mem_map.mpr ⟨e₀, he₀, rfl⟩, ?_⟩
            rw [if_neg hp]
            exact ⟨hne, rfl⟩
    · cases h

end Registry

theorem mem_connectFilters {base explicit : List String} {p : String} :
    p ∈ connectFilters base explicit ↔ p ∈ base ∨ (p ∈ explicit ∧ coveredBy base p = false) := by
  simp [connectFilters, List.mem_insertionSort]

theorem coveredBy_of_mem {base : List String} {p : String} (h : p ∈ base) :
    coveredBy base p = true := by
  simp [coveredBy, h]

namespace SubscriptionState

variable {env : MqttEnv} {s s' : SubscriptionState} {e : SubscriptionEvent} {out : List BrokerCall}
  {base : List String} {p : String} {i : Nat} {c : SubscriptionCall} {call : BrokerCall}

/-! ## The invariant -/

/-- What the filters, the registry and the calls in progress say of a pattern
    that the base does not cover. -/
structure Tracked (s : SubscriptionState) (p : String) : Prop where
  present : s.connected = true → ∀ rest, s.remaining = some rest → p ∈ s.registry.explicit →
    p ∈ s.filters ∨ p ∈ rest ∨ due s.calls (.subscribe p) = true
  absent : s.opening = true → p ∉ s.registry.explicit → p ∈ s.filters →
    due s.calls (.unsubscribe p) = true

structure Complete (base : List String) (s : SubscriptionState) : Prop where
  tracked : ∀ p, coveredBy base p = false → s.Tracked p
  /-- The base filters are sent with the snapshot. -/
  sent : s.connected = true → ∀ rest, s.remaining = some rest → ∀ p ∈ base,
    p ∈ s.filters ∨ p ∈ rest
  /-- No filter but these is ever asked for. -/
  filters : ∀ p ∈ s.filters, p ∈ base ∨ coveredBy base p = false
  rest : ∀ rest, s.connecting = some (.subscribing rest) → ∀ p ∈ rest,
    p ∈ base ∨ coveredBy base p = false
  tested : ∀ c ∈ s.calls, c.tested = true → coveredBy base c.call.pattern = false

/-! ### Calls in progress -/

theorem due_append {calls : List SubscriptionCall} :
    due (calls ++ [c]) call = (due calls call || decide (c.call = call)) := by
  simp [due]

/-- A call goes on without changing what is due. -/
theorem due_set {calls : List SubscriptionCall} (h : calls[i]? = some c) (tested : Bool) :
    due (calls.set i { c with tested := tested }) call = due calls call := by
  induction calls generalizing i with
  | nil => cases h
  | cons c' calls ih =>
      cases i with
      | zero =>
          cases Option.some.inj h
          simp [due]
      | succ i =>
          have := ih (i := i) (by simpa using h)
          simp only [due, List.set_cons_succ, List.any_cons] at this ⊢
          rw [this]

/-- The end of a call matters to its own broker call only. -/
theorem due_eraseIdx {calls : List SubscriptionCall} (h : calls[i]? = some c)
    (hne : c.call ≠ call) : due (calls.eraseIdx i) call = due calls call := by
  induction calls generalizing i with
  | nil => cases h
  | cons c' calls ih =>
      cases i with
      | zero =>
          cases Option.some.inj h
          simp [due, hne]
      | succ i =>
          have := ih (i := i) (by simpa using h)
          simp only [due, List.eraseIdx_cons_succ, List.any_cons] at this ⊢
          rw [this]

theorem mem_of_mem_eraseIdx {calls : List SubscriptionCall} (h : c ∈ calls.eraseIdx i) :
    c ∈ calls := (List.eraseIdx_sublist calls i).subset h

theorem opening_of_connected (h : s.connected = true) : s.opening = true := by
  simp [opening, h]

/-! ### The steps keep the invariant -/

theorem Complete.init (base : List String) : Complete base ({} : SubscriptionState) where
  tracked _ _ := ⟨by simp, by simp [opening]⟩
  sent := by simp
  filters := by simp
  rest := by simp
  tested := by simp

theorem Complete.sessionStart (h : Complete base s) :
    Complete base { s with filters := ∅, connecting := some .accepted } where
  tracked _ _ := ⟨by simp [remaining], by simp⟩
  sent := by simp [remaining]
  filters := by simp
  rest := by simp
  tested := h.tested

theorem Complete.disconnected (h : Complete base s) :
    Complete base { s with connected := false } where
  tracked p hp :=
    ⟨by simp, fun ho => (h.tracked p hp).absent (by
      simp only [opening, Bool.false_or] at ho
      simp only [opening, Bool.or_eq_true]
      exact .inr ho)⟩
  sent := by simp
  filters := h.filters
  rest := h.rest
  tested := h.tested

theorem Complete.connectStep (h : Complete base s)
    (hbase : baseSubscriptions env.config env.contracts = .ok base)
    (hok : ordered env s .connectStep = true)
    (hstep : s.step env .connectStep = some (s', out)) : Complete base s' := by
  simp only [SubscriptionState.step, hbase] at hstep
  simp only [ordered, hbase] at hok
  split at hstep
  · cases hstep
  -- the flag, then the snapshot of the registry
  · rename_i hpc
    obtain ⟨rfl, -⟩ := Prod.mk.inj (Option.some.inj hstep)
    exact {
      tracked := fun p hp =>
        ⟨by simp [remaining], fun _ => (h.tracked p hp).absent (by simp [opening, hpc])⟩
      sent := by simp [remaining]
      filters := h.filters
      rest := by simp
      tested := h.tested }
  -- the snapshot lists every filter the session is to have
  · rename_i hpc
    obtain ⟨rfl, -⟩ := Prod.mk.inj (Option.some.inj hstep)
    refine ⟨fun p hp => ⟨fun _ rest hrest hreg => ?_, fun ho => (h.tracked p hp).absent ?_⟩,
      fun _ rest hrest p hp => ?_, h.filters, fun rest hrest p hp => ?_, h.tested⟩
    · cases Option.some.inj hrest
      exact .inr (.inl (mem_connectFilters.mpr (.inr ⟨hreg, hp⟩)))
    · simpa [opening, hpc] using ho
    · cases Option.some.inj hrest
      exact .inr (mem_connectFilters.mpr (.inl hp))
    · cases ConnectPc.subscribing.inj (Option.some.inj hrest)
      exact (mem_connectFilters.mp hp).imp_right And.right
  -- every filter was sent
  · rename_i hpc
    obtain ⟨rfl, -⟩ := Prod.mk.inj (Option.some.inj hstep)
    have hremaining : s.remaining = some [] := by simp [remaining, hpc]
    refine ⟨fun p hp => ⟨fun hc rest hrest => ?_, fun ho => (h.tracked p hp).absent ?_⟩,
      fun hc rest hrest => ?_, h.filters, by simp, h.tested⟩
    · cases Option.some.inj hrest
      exact (h.tracked p hp).present hc [] hremaining
    · simpa [opening, hpc] using ho
    · cases Option.some.inj hrest
      exact h.sent hc [] hremaining
  -- one filter is sent
  · rename_i q rest hpc
    obtain ⟨rfl, -⟩ := Prod.mk.inj (Option.some.inj hstep)
    have hremaining : s.remaining = some (q :: rest) := by simp [remaining, hpc]
    have hopening : s.opening = s.connected := by simp [opening, hpc]
    rw [hpc] at hok
    refine ⟨fun p hp => ⟨fun hc rest' hrest hreg => ?_, fun ho hreg hmem => ?_⟩,
      fun hc rest' hrest p hp => ?_, fun p hp => ?_, fun rest' hrest p hp => ?_, h.tested⟩
    · cases Option.some.inj hrest
      rcases (h.tracked p hp).present hc _ hremaining hreg with hf | hr | hd
      · exact .inl (Finset.mem_insert_of_mem hf)
      · rcases List.mem_cons.mp hr with rfl | hr
        · exact .inl (Finset.mem_insert_self _ _)
        · exact .inr (.inl hr)
      · exact .inr (.inr hd)
    · have ho' : s.opening = true := by
        rw [hopening]
        simpa [opening] using ho
      rcases Finset.mem_insert.mp hmem with rfl | hmem
      -- an uncovered filter not in the base is in order, so it is still registered or due
      · have hnot : p ∉ base := fun hb => by
          rw [coveredBy_of_mem hb] at hp
          cases hp
        simpa [inOrder, hnot, hreg, ho'] using hok
      · exact (h.tracked p hp).absent ho' hreg hmem
    · cases Option.some.inj hrest
      rcases h.sent hc _ hremaining p hp with hf | hr
      · exact .inl (Finset.mem_insert_of_mem hf)
      · rcases List.mem_cons.mp hr with rfl | hr
        · exact .inl (Finset.mem_insert_self _ _)
        · exact .inr hr
    · rcases Finset.mem_insert.mp hp with rfl | hp
      · exact h.rest _ hpc p List.mem_cons_self
      · exact h.filters p hp
    · cases ConnectPc.subscribing.inj (Option.some.inj hrest)
      exact h.rest _ hpc p (List.mem_cons_of_mem _ hp)

/-- A section under `_callback_lock` that registers `q`, or leaves the registry
    alone, or removes `q`; what it changes is due. -/
theorem Complete.section (h : Complete base s) {registry : Registry}
    {calls : List SubscriptionCall}
    (hcalls : ∀ call, due s.calls call = true → due calls call = true)
    (htested : ∀ c ∈ calls, c.tested = true → c ∈ s.calls)
    (hadded : ∀ p ∈ registry.explicit, p ∈ s.registry.explicit ∨ due calls (.subscribe p) = true)
    (hremoved : ∀ p ∈ s.registry.explicit, p ∉ registry.explicit →
      due calls (.unsubscribe p) = true) :
    Complete base { s with registry := registry, calls := calls } where
  tracked p hp :=
    { present := fun hc rest hrest hreg => by
        rcases hadded p hreg with hold | hdue
        · rcases (h.tracked p hp).present hc rest hrest hold with hf | hr | hd
          · exact .inl hf
          · exact .inr (.inl hr)
          · exact .inr (.inr (hcalls _ hd))
        · exact .inr (.inr hdue)
      absent := fun ho hreg hf => by
        by_cases hold : p ∈ s.registry.explicit
        · exact hremoved p hold hreg
        · exact hcalls _ ((h.tracked p hp).absent ho hold hf) }
  sent := h.sent
  filters := h.filters
  rest := h.rest
  tested c hc ht := h.tested c (htested c hc ht) ht

theorem Complete.subscribe (h : Complete base s) (q : String) (callback : Nat) :
    Complete base { s with registry := s.registry.subscribe q callback,
                           calls := s.calls ++ [⟨.subscribe q, false⟩] } := by
  refine h.section (fun call hd => by simp [due_append, hd]) (fun c hc ht => ?_)
    (fun p hp => ?_) fun p hp hnot => absurd (Registry.mem_explicit_subscribe.mpr (.inr hp)) hnot
  · rcases List.mem_append.mp hc with hc | hc
    · exact hc
    · rw [List.mem_singleton.mp hc] at ht
      cases ht
  · rcases Registry.mem_explicit_subscribe.mp hp with rfl | hp
    · exact .inr (by simp [due_append])
    · exact .inl hp

theorem Complete.unsubscribe (h : Complete base s) {q : String} {callback : Nat}
    {registry : Registry} {removed : Bool}
    (hreg : s.registry.unsubscribe q callback = .ok (registry, removed)) :
    Complete base { s with registry := registry,
                           calls := if removed then s.calls ++ [⟨.unsubscribe q, false⟩]
                             else s.calls } := by
  have hmem : ∀ p, p ∈ registry.explicit ↔ p ∈ s.registry.explicit ∧ (removed = true → p ≠ q) :=
    fun p => Registry.mem_explicit_unsubscribe hreg
  refine h.section (fun call hd => ?_) (fun c hc ht => ?_)
    (fun p hp => .inl ((hmem p).mp hp).1) fun p hp hnot => ?_
  · split
    · simp [due_append, hd]
    · exact hd
  · split at hc
    · rcases List.mem_append.mp hc with hc | hc
      · exact hc
      · rw [List.mem_singleton.mp hc] at ht
        cases ht
    · exact hc
  · rw [hmem, not_and, not_forall] at hnot
    obtain ⟨hremoved, hpq⟩ := hnot hp
    rw [if_pos hremoved, not_not.mp hpq]
    simp [due_append]

/-- A call that ends without asking the broker for anything. -/
theorem Complete.drop (h : Complete base s) (hc : s.calls[i]? = some c)
    (hpresent : s.connected = true → coveredBy base c.call.pattern = true)
    (habsent : ∀ p, c.call = .unsubscribe p → coveredBy base p = false → s.opening = true →
      p ∉ s.registry.explicit → p ∈ s.filters →
        due (s.calls.eraseIdx i) (.unsubscribe p) = true) :
    Complete base { s with calls := s.calls.eraseIdx i } where
  tracked p hp :=
    { present := fun hcon rest hrest hreg => by
        -- the dropped call subscribes nothing that is needed
        have hne : c.call ≠ .subscribe p := fun heq => by
          have := hpresent hcon
          rw [heq, BrokerCall.pattern, hp] at this
          cases this
        rw [due_eraseIdx hc hne]
        exact (h.tracked p hp).present hcon rest hrest hreg
      absent := fun ho hreg hf => by
        by_cases heq : c.call = .unsubscribe p
        · exact habsent p heq hp ho hreg hf
        · rw [due_eraseIdx hc heq]
          exact (h.tracked p hp).absent ho hreg hf }
  sent := h.sent
  filters := h.filters
  rest := h.rest
  tested c' hc' := h.tested c' (mem_of_mem_eraseIdx hc')

/-- The broker call of a call past its test. -/
theorem Complete.send (h : Complete base s) (hc : s.calls[i]? = some c) (ht : c.tested = true)
    (hok : s.inOrder c.call = true) :
    Complete base { s with calls := s.calls.eraseIdx i, filters := c.call.apply s.filters } := by
  have hcovered := h.tested c (List.mem_of_getElem? hc) ht
  have htested : ∀ c' ∈ s.calls.eraseIdx i, c'.tested = true →
      coveredBy base c'.call.pattern = false := fun c' hc' => h.tested c' (mem_of_mem_eraseIdx hc')
  cases hcall : c.call with
  | subscribe q =>
      rw [hcall] at hok hcovered
      refine ⟨fun p hp => ⟨fun hcon rest hrest hreg => ?_, fun ho hreg hf => ?_⟩,
        fun hcon rest hrest p hp => ?_, fun p hp => ?_, h.rest, htested⟩
      · by_cases hpq : p = q
        · exact .inl (by simp [BrokerCall.apply, hpq])
        · rw [due_eraseIdx hc (by simpa [hcall] using Ne.symm hpq)]
          exact ((h.tracked p hp).present hcon rest hrest hreg).imp_left
            Finset.mem_insert_of_mem
      · rw [due_eraseIdx hc (by simp [hcall])]
        rcases Finset.mem_insert.mp hf with rfl | hf
        -- in order: a filter that is no longer registered has its removal due
        · have ho' : s.opening = true := ho
          have hreg' : p ∉ s.registry.explicit := hreg
          simpa [inOrder, hreg', ho'] using hok
        · exact (h.tracked p hp).absent ho hreg hf
      · exact (h.sent hcon rest hrest p hp).imp_left Finset.mem_insert_of_mem
      · rcases Finset.mem_insert.mp hp with rfl | hp
        · exact .inr hcovered
        · exact h.filters p hp
  | unsubscribe q =>
      rw [hcall] at hok hcovered
      refine ⟨fun p hp => ⟨fun hcon rest hrest hreg => ?_, fun ho hreg hf => ?_⟩,
        fun hcon rest hrest p hp => ?_, fun p hp => h.filters p (Finset.mem_of_mem_erase hp),
        h.rest, htested⟩
      · rw [due_eraseIdx hc (by simp [hcall])]
        by_cases hpq : p = q
        -- in order: a filter that is registered again is due again
        · subst hpq
          have hreg' : p ∈ s.registry.explicit := hreg
          have hcon' : s.connected = true := hcon
          have hrest' : s.remaining = some rest := hrest
          have hdue : due s.calls (.subscribe p) = true ∨ p ∈ rest := by
            simpa [inOrder, hreg', hcon', hrest'] using hok
          exact .inr hdue.symm
        · exact ((h.tracked p hp).present hcon rest hrest hreg).imp_left
            (Finset.mem_erase_of_ne_of_mem hpq)
      · obtain ⟨hpq, hf⟩ := Finset.mem_erase.mp hf
        rw [due_eraseIdx hc (by simpa [hcall] using Ne.symm hpq)]
        exact (h.tracked p hp).absent ho hreg hf
      · have hpq : p ≠ q := fun heq => by
          have hcov : coveredBy base q = false := hcovered
          rw [← heq, coveredBy_of_mem hp] at hcov
          cases hcov
        exact (h.sent hcon rest hrest p hp).imp_left (Finset.mem_erase_of_ne_of_mem hpq)

theorem Complete.advance (h : Complete base s)
    (hbase : baseSubscriptions env.config env.contracts = .ok base)
    (hok : ordered env s (.advance i) = true)
    (hstep : s.step env (.advance i) = some (s', out)) : Complete base s' := by
  simp only [SubscriptionState.step, Option.map_eq_some_iff] at hstep
  obtain ⟨c, hc, hstep⟩ := hstep
  simp only [ordered, hbase, hc] at hok
  simp only [callStep, hbase] at hstep
  split at hstep
  -- the tested call is sent
  · rename_i ht
    rw [if_pos ht] at hok
    obtain ⟨rfl, -⟩ := Prod.mk.inj hstep
    exact h.send hc ht hok
  · rename_i ht
    rw [if_neg ht] at hok
    split at hstep
    -- the test: connected and not covered, or the call is dropped
    · rename_i hcon
      split at hstep
      · rename_i hcovered
        obtain ⟨rfl, -⟩ := Prod.mk.inj hstep
        refine h.drop hc (fun _ => hcovered) fun p heq hp => ?_
        rw [heq, BrokerCall.pattern, hp] at hcovered
        cases hcovered
      · rename_i hcovered
        obtain ⟨rfl, -⟩ := Prod.mk.inj hstep
        refine ⟨fun p hp => ⟨fun hcon' rest hrest hreg => ?_, fun ho hreg hf => ?_⟩, h.sent,
          h.filters, h.rest, fun c' hc' ht' => ?_⟩
        · rw [due_set hc true]
          exact (h.tracked p hp).present hcon' rest hrest hreg
        · rw [due_set hc true]
          exact (h.tracked p hp).absent ho hreg hf
        · rcases List.mem_or_eq_of_mem_set hc' with hc' | rfl
          · exact h.tested c' hc' ht'
          · simpa using hcovered
    -- not connected: the next session takes the registry as it is then
    · rename_i hcon
      obtain ⟨rfl, -⟩ := Prod.mk.inj hstep
      refine h.drop hc (fun hcon' => absurd hcon' hcon) fun p heq hp ho hreg hf => ?_
      simpa [heq, hcon, ho, hreg, hf] using hok

theorem Complete.step (h : Complete base s)
    (hbase : baseSubscriptions env.config env.contracts = .ok base)
    (hok : ordered env s e = true) (hstep : s.step env e = some (s', out)) :
    Complete base s' := by
  cases e with
  | sessionStart =>
      simp only [SubscriptionState.step] at hstep
      split at hstep
      · obtain ⟨rfl, -⟩ := Prod.mk.inj (Option.some.inj hstep)
        exact h.sessionStart
      · cases hstep
  | connectStep => exact h.connectStep hbase hok hstep
  | disconnected =>
      obtain ⟨rfl, -⟩ := Prod.mk.inj (Option.some.inj hstep)
      exact h.disconnected
  | subscribe q callback =>
      obtain ⟨rfl, -⟩ := Prod.mk.inj (Option.some.inj hstep)
      exact h.subscribe q callback
  | unsubscribe q callback =>
      simp only [SubscriptionState.step] at hstep
      split at hstep
      · obtain ⟨rfl, -⟩ := Prod.mk.inj (Option.some.inj hstep)
        exact h
      · rename_i hreg
        obtain ⟨rfl, -⟩ := Prod.mk.inj (Option.some.inj hstep)
        exact h.unsubscribe hreg
  | advance i => exact h.advance hbase hok hstep

end SubscriptionState

open SubscriptionState

/-! ## The filters of a connection -/

/-- Whenever the client is connected and no operation is in progress, the
    broker has the base filters and exactly the registered patterns the base
    does not cover, if no broker call was sent out of order. -/
theorem subscriptions_complete {env : MqttEnv} {base : List String}
    (hbase : baseSubscriptions env.config env.contracts = .ok base)
    {es : List SubscriptionEvent} {log : List BrokerCall} {s : SubscriptionState}
    (h : Path (subscriptionSystem env) (fun s e => ordered env s e = true)
      (subscriptionSystem env).init es log s)
    (hconnected : s.connected = true) (hquiescent : s.Quiescent) :
    (∀ p, p ∈ s.filters ↔
      p ∈ base ∨ (p ∈ s.registry.explicit ∧ coveredBy base p = false)) ∧
    ∀ e ∈ s.registry.entries, e.callbacks ≠ [] →
      e.pattern ∈ s.filters ∨ coveredBy base e.pattern = true := by
  have hcomplete : Complete base s :=
    h.invariant (Complete.init base) fun _ _ _ _ hs hok hstep => hs.step hbase hok hstep
  obtain ⟨hconnecting, hcalls⟩ := hquiescent
  have hremaining : s.remaining = some [] := by
    rw [Option.isNone_iff_eq_none] at hconnecting
    simp [remaining, hconnecting]
  have hfilters : ∀ p, p ∈ s.filters ↔
      p ∈ base ∨ (p ∈ s.registry.explicit ∧ coveredBy base p = false) := by
    intro p
    constructor
    · intro hf
      refine (hcomplete.filters p hf).imp_right fun hp => ⟨?_, hp⟩
      by_contra hreg
      have := (hcomplete.tracked p hp).absent (opening_of_connected hconnected) hreg hf
      simp [hcalls, due] at this
    · rintro (hp | ⟨hreg, hp⟩)
      · simpa using hcomplete.sent hconnected [] hremaining p hp
      · simpa [hcalls, due] using (hcomplete.tracked p hp).present hconnected [] hremaining hreg
  refine ⟨hfilters, fun e he hne => ?_⟩
  cases hp : coveredBy base e.pattern with
  | true => exact .inr rfl
  | false =>
      exact .inl ((hfilters _).mpr (.inr ⟨Registry.mem_explicit.mpr ⟨e, he, hne, rfl⟩, hp⟩))

/-! ## Schedules -/

namespace SubscriptionState

variable {env : MqttEnv} {base : List String} {p : String}

/-- The connection of an idle client: the broker accepts, `_on_connect` sets
    `_connected`, takes its snapshot and sends `filters`. -/
def connectionSchedule (filters : List String) : List SubscriptionEvent :=
  .sessionStart :: .connectStep :: .connectStep ::
    List.replicate (filters.length + 1) .connectStep

theorem path_subscribing (hbase : baseSubscriptions env.config env.contracts = .ok base)
    (s : SubscriptionState) {rest : List String} (hrest : ∀ p ∈ rest, p ∈ base) :
    ∃ log, Path (subscriptionSystem env) (fun s e => ordered env s e = true)
      { s with connecting := some (.subscribing rest) }
      (List.replicate (rest.length + 1) .connectStep) log
      { s with filters := rest.foldl (fun f p => insert p f) s.filters, connecting := none } := by
  induction rest generalizing s with
  | nil => exact ⟨_, .single (by simp [ordered, hbase]) rfl⟩
  | cons p rest ih =>
      obtain ⟨log, hpath⟩ := ih { s with filters := insert p s.filters }
        fun q hq => hrest q (List.mem_cons_of_mem _ hq)
      have hok : ordered env { s with connecting := some (.subscribing (p :: rest)) }
          .connectStep = true := by
        simp [ordered, hbase, hrest p List.mem_cons_self]
      have hfirst : Path (subscriptionSystem env) (fun s e => ordered env s e = true)
          { s with connecting := some (.subscribing (p :: rest)) } [.connectStep] [.subscribe p]
          { s with filters := insert p s.filters, connecting := some (.subscribing rest) } :=
        .single hok rfl
      exact ⟨_, hfirst.trans hpath⟩

/-- The filters of an idle client. -/
def idleFilters (base : List String) : Finset String :=
  (connectFilters base []).foldl (fun f p => insert p f) ∅

theorem path_connection (hbase : baseSubscriptions env.config env.contracts = .ok base) :
    ∃ log, Path (subscriptionSystem env) (fun s e => ordered env s e = true) {}
      (connectionSchedule (connectFilters base [])) log
      { connected := true, filters := idleFilters base } := by
  have hmem : ∀ p ∈ connectFilters base [], p ∈ base := fun p hp => by
    simpa using mem_connectFilters.mp hp
  obtain ⟨log, hpath⟩ := path_subscribing hbase { connected := true } hmem
  have hok : ∀ s : SubscriptionState, (∀ rest, s.connecting ≠ some (.subscribing rest)) →
      ordered env s .connectStep = true := by
    intro s hs
    simp only [ordered, hbase]
    split
    · rename_i h
      exact absurd h (hs _)
    · rfl
  have hstart : Path (subscriptionSystem env) (fun s e => ordered env s e = true)
      ({} : SubscriptionState) [.sessionStart] [] { connecting := some .accepted } :=
    .single (by simp [ordered, hbase]) rfl
  have hset : Path (subscriptionSystem env) (fun s e => ordered env s e = true)
      ({ connecting := some .accepted } : SubscriptionState) [.connectStep] []
      { connected := true, connecting := some .snapshot } := .single (hok _ (by simp)) rfl
  have hsnapshot : Path (subscriptionSystem env) (fun s e => ordered env s e = true)
      ({ connected := true, connecting := some .snapshot } : SubscriptionState) [.connectStep] []
      { connected := true, connecting := some (.subscribing (connectFilters base [])) } :=
    .single (hok _ (by simp))
      (by simp [subscriptionSystem, SubscriptionState.step, hbase, Registry.explicit])
  exact ⟨_, hstart.trans (hset.trans (hsnapshot.trans hpath))⟩

/-- A call of `subscribe` that nothing interrupts. -/
def subscribeSchedule (p : String) (callback : Nat) : List SubscriptionEvent :=
  [.subscribe p callback, .advance 0, .advance 0]

theorem path_subscribe (hbase : baseSubscriptions env.config env.contracts = .ok base)
    (hp : coveredBy base p = false) (filters : Finset String) (callback : Nat) :
    Path (subscriptionSystem env) (fun s e => ordered env s e = true)
      { connected := true, filters := filters } (subscribeSchedule p callback) [.subscribe p]
      { connected := true, filters := insert p filters,
        registry := ({} : Registry).subscribe p callback } := by
  have hexec : ((subscriptionSystem env).restrict (ordered env)).exec
      { connected := true, filters := filters } (subscribeSchedule p callback) =
        some ({ connected := true, filters := insert p filters,
                registry := ({} : Registry).subscribe p callback }, [.subscribe p]) := by
    simp [System.exec, System.restrict, subscriptionSystem, subscribeSchedule, ordered, hbase,
      inOrder, SubscriptionState.step, callStep, hp, BrokerCall.pattern, BrokerCall.apply,
      Registry.mem_explicit_subscribe]
  exact (path_of_exec hexec).of_restrict

/-- One thread removes the only callback of `p` and passes the test; another
    registers `p` again and subscribes it; then the first one unsubscribes. -/
def overtakingSchedule (p : String) : List SubscriptionEvent :=
  [.unsubscribe p 0, .advance 0, .subscribe p 1, .advance 1, .advance 1, .advance 0]

theorem path_overtaking (hbase : baseSubscriptions env.config env.contracts = .ok base)
    (hp : coveredBy base p = false) (filters : Finset String) :
    Path (subscriptionSystem env) (fun _ _ => True)
      { connected := true, filters := filters,
        registry := ({} : Registry).subscribe p 0 } (overtakingSchedule p)
      [.subscribe p, .unsubscribe p]
      { connected := true, filters := (insert p filters).erase p,
        registry := ⟨[⟨p, 1, [1]⟩], 2⟩ } := by
  refine path_of_exec ?_
  simp [System.exec, subscriptionSystem, overtakingSchedule, SubscriptionState.step, callStep,
    hbase, hp, BrokerCall.pattern, BrokerCall.apply, Registry.subscribe, Registry.unsubscribe,
    Registry.has]

end SubscriptionState

/-- An item of a second portal, which no base filter covers. -/
def secondPortalItem : String := "N/other/vebus/256/Mode"

theorem secondPortalItem_uncovered : ∃ base,
    baseSubscriptions fixtureEnv.config fixtureEnv.contracts = .ok base ∧
      coveredBy base secondPortalItem = false := by
  have hlevels : TopicFilter.levels secondPortalItem = ["N", "other", "vebus", "256", "Mode"] := by
    decide +kernel
  refine ⟨_, rfl, coveredBy_eq_false (by rw [hlevels]; decide) fun f hf => ?_⟩
  have hportal : fixtureEnv.config.portalId = some "testportal" := rfl
  exact baseSubscriptions_not_match hportal (by decide) (by decide)
    (by decide) fixtureContracts_accepted rfl (by decide) hlevels (by decide) hf

/-- A connection, and one registered item. -/
theorem subscriptions_complete_secondPortal : ∃ base log s,
    baseSubscriptions fixtureEnv.config fixtureEnv.contracts = .ok base ∧
    Path (subscriptionSystem fixtureEnv) (fun s e => ordered fixtureEnv s e = true)
      (subscriptionSystem fixtureEnv).init
      (connectionSchedule (connectFilters base []) ++ subscribeSchedule secondPortalItem 0) log s ∧
    s.connected = true ∧ s.Quiescent ∧ secondPortalItem ∈ s.filters := by
  obtain ⟨base, hbase, hp⟩ := secondPortalItem_uncovered
  obtain ⟨log, hconnection⟩ := path_connection hbase
  have hpath := hconnection.trans (path_subscribe hbase hp (idleFilters base) 0)
  have hcomplete := subscriptions_complete hbase hpath rfl ⟨rfl, rfl⟩
  refine ⟨base, _, _, hbase, hpath, rfl, ⟨rfl, rfl⟩,
    (hcomplete.1 secondPortalItem).mpr (.inr ⟨?_, hp⟩)⟩
  exact Registry.mem_explicit_subscribe.mpr (.inl rfl)

/-- The UNSUBSCRIBE of a callback that is gone overtakes the SUBSCRIBE of a new
    one: the client is connected, no operation is in progress, the item has a
    callback, and the broker has no filter for it. -/
theorem unsubscribe_overtakes : ∃ base log s,
    baseSubscriptions fixtureEnv.config fixtureEnv.contracts = .ok base ∧
    Run (subscriptionSystem fixtureEnv) (connectionSchedule (connectFilters base []) ++
      subscribeSchedule secondPortalItem 0 ++ overtakingSchedule secondPortalItem) log s ∧
    s.connected = true ∧ s.Quiescent ∧
    secondPortalItem ∈ s.registry.explicit ∧ coveredBy base secondPortalItem = false ∧
    secondPortalItem ∉ s.filters := by
  obtain ⟨base, hbase, hp⟩ := secondPortalItem_uncovered
  obtain ⟨log, hconnection⟩ := path_connection hbase
  have hpath := (hconnection.trans (path_subscribe hbase hp (idleFilters base) 0)).toRun.trans
    (path_overtaking hbase hp _)
  refine ⟨base, _, _, hbase, hpath, rfl, ⟨rfl, rfl⟩, ?_, hp, Finset.notMem_erase _ _⟩
  simp [Registry.explicit]

/-! ## The client's machine -/

/-- The client's machine takes an uninterrupted call of `subscribe` as one
    event: the same registry, and the same broker call. -/
theorem subscribe_uninterrupted {env : MqttEnv} {base : List String}
    (hbase : baseSubscriptions env.config env.contracts = .ok base) (m : MqttState) {t : Nat}
    (ht : m.py.transport.client = some t) (pattern : String) (callback : Nat) :
    ∃ m' es s' sent,
      m.step env (.subscribe pattern callback) =
        some (m', sent.map fun call => .subscribe t (BrokerCall.pattern call)) ∧
      (subscriptionSystem env).exec
        { connected := m.py.session.connected, registry := m.py.registry }
        (.subscribe pattern callback :: es) = some (s', sent) ∧
      s'.Quiescent ∧ s'.registry = m'.py.registry := by
  let m' : MqttState :=
    { m with py := { m.py with registry := m.py.registry.subscribe pattern callback } }
  let s' : SubscriptionState :=
    { connected := m.py.session.connected, registry := m.py.registry.subscribe pattern callback }
  cases hcon : m.py.session.connected with
  | false =>
      refine ⟨m', [.advance 0], s', [], ?_, ?_, ⟨rfl, rfl⟩, rfl⟩
      · simp [MqttState.step, MqttState.brokerCall, ht, hcon, m']
      · simp [System.exec, subscriptionSystem, SubscriptionState.step, callStep, hcon, s']
  | true =>
      cases hcov : coveredBy base pattern with
      | true =>
          refine ⟨m', [.advance 0], s', [], ?_, ?_, ⟨rfl, rfl⟩, rfl⟩
          · simp [MqttState.step, MqttState.brokerCall, ht, hcon, hbase, hcov, m']
          · simp [System.exec, subscriptionSystem, SubscriptionState.step, callStep, hcon, hbase,
              BrokerCall.pattern, hcov, s']
      | false =>
          refine ⟨m', [.advance 0, .advance 0], { s' with filters := {pattern} },
            [.subscribe pattern], ?_, ?_, ⟨rfl, rfl⟩, rfl⟩
          · simp [MqttState.step, MqttState.brokerCall, ht, hcon, hbase, hcov,
              BrokerCall.pattern, m']
          · simp [System.exec, subscriptionSystem, SubscriptionState.step, callStep, hcon, hbase,
              BrokerCall.pattern, BrokerCall.apply, hcov, s']

end McpVenusOs
