/-
  McpVenusOs.Mqtt.Removal

  Empty notifications: once the item is gone, its former value must not be read
  any more, and must not identify hardware.

  A removal that is enqueued and decoded on a current transport revokes the
  value, whatever was pending before it.  But a device does not repeat a
  removal, and several places of the code lose messages: the full inbox, the
  stop of a transport, its fresh inbox, a dying worker.  `lossFree` is the
  condition that no step loses a removal of a value the cache keeps;
  `removal_survives_retirement` is a run that does.
-/

import McpVenusOs.Mqtt.Provenance

namespace McpVenusOs

open Py Machine

/-! ## Folding the pending messages -/

/-- The messages that decide what the cache holds for a topic. -/
def bears (env : MqttEnv) (pre topic : String) (e : InboxEntry) : Bool :=
  e.msg.topic = topic && counts env pre e

section Fold

variable {env : MqttEnv} {pre topic : String} {cache : Cache} {e : InboxEntry}
  {es : List InboxEntry}

theorem lookup_foldl (hc : cacheable pre topic = true) (es : List InboxEntry) (cache : Cache) :
    (es.foldl (applyEntry env pre) cache).lookup topic =
      match (es.filter (bears env pre topic)).getLast? with
      | some e => cachedBy env (some e)
      | none => cache.lookup topic := by
  induction es generalizing cache with
  | nil => rfl
  | cons e es ih =>
      rw [List.foldl_cons, ih, lookup_applyEntry hc]
      by_cases hb : bears env pre topic e = true
      · rw [List.filter_cons_of_pos hb, List.getLast?_cons]
        have hb' : e.msg.topic = topic ∧ counts env pre e = true := by simpa [bears] using hb
        rw [if_pos hb']
        cases (es.filter (bears env pre topic)).getLast? <;> rfl
      · have hb' : ¬ (e.msg.topic = topic ∧ counts env pre e = true) := by simpa [bears] using hb
        rw [List.filter_cons_of_neg hb, if_neg hb']

theorem cachedBy_eq_none (hb : bears env pre topic e = true) :
    cachedBy env (some e) = none ↔ e.msg.payload = [] := by
  have hcounts : counts env pre e = true := by
    simp only [bears, Bool.and_eq_true] at hb
    exact hb.2
  by_cases hempty : e.msg.payload = []
  · simp [cachedBy, hempty]
  · simp only [counts, hempty, decide_false, Bool.false_or, Bool.and_eq_true,
      Option.isSome_iff_exists] at hcounts
    obtain ⟨⟨v, hv⟩, -⟩ := hcounts
    simp [cachedBy, hempty, hv]

/-- Nothing is left of a topic exactly when the last message on it is a
    removal, or nothing was there. -/
theorem lookup_foldl_eq_none (hc : cacheable pre topic = true) :
    (es.foldl (applyEntry env pre) cache).lookup topic = none ↔
      (∃ e, (es.filter (bears env pre topic)).getLast? = some e ∧ e.msg.payload = []) ∨
      ((es.filter (bears env pre topic)).getLast? = none ∧ cache.lookup topic = none) := by
  rw [lookup_foldl hc]
  cases hl : (es.filter (bears env pre topic)).getLast? with
  | none => simp
  | some e =>
      have hmem := List.mem_of_getLast? hl
      simp [cachedBy_eq_none (List.mem_filter.mp hmem).2]

/-- The oldest message may be lost, unless it is the removal of a cached value. -/
theorem lookup_foldl_tail (hc : cacheable pre topic = true)
    (h : ((e :: es).foldl (applyEntry env pre) cache).lookup topic = none)
    (hloss : e.msg.topic = topic → e.msg.payload = [] → cache.lookup topic = none) :
    (es.foldl (applyEntry env pre) cache).lookup topic = none := by
  rw [lookup_foldl_eq_none hc] at h ⊢
  by_cases hb : bears env pre topic e = true
  · rw [List.filter_cons_of_pos hb, List.getLast?_cons] at h
    cases hl : (es.filter (bears env pre topic)).getLast? with
    -- a later entry decides
    | some e' =>
        rw [hl] at h
        refine .inl ⟨e', rfl, ?_⟩
        simpa using h
    | none =>
        rw [hl] at h
        -- the removal itself decided
        have hempty : e.msg.payload = [] := by simpa using h
        have htopic : e.msg.topic = topic := by
          simp only [bears, Bool.and_eq_true, decide_eq_true_eq] at hb
          exact hb.1
        exact .inr ⟨rfl, hloss htopic hempty⟩
  · rwa [List.filter_cons_of_neg hb] at h

/-- So may all of them, unless one is the removal of a cached value. -/
theorem lookup_of_foldl (hc : cacheable pre topic = true)
    (h : (es.foldl (applyEntry env pre) cache).lookup topic = none)
    (hloss : ∀ e ∈ es, e.msg.topic = topic → e.msg.payload = [] → cache.lookup topic = none) :
    cache.lookup topic = none := by
  induction es with
  | nil => exact h
  | cons e es ih =>
      exact ih (lookup_foldl_tail hc h (hloss e List.mem_cons_self))
        fun e' he' => hloss e' (List.mem_cons_of_mem _ he')

/-- A removal leaves an empty topic empty. -/
theorem lookup_applyEntry_removal (h : cache.lookup topic = none)
    (hempty : e.msg.topic = topic → e.msg.payload = []) (hc : cacheable pre topic = true) :
    (applyEntry env pre cache e).lookup topic = none := by
  rw [lookup_applyEntry hc]
  split
  · rename_i hb
    simp [cachedBy, hempty hb.1]
  · exact h

end Fold

/-- A received message on `topic` with a value. -/
def MqttOut.valueOn (topic : String) : MqttOut → Bool
  | .received _ e => e.msg.topic = topic && e.msg.payload ≠ []
  | _ => false

namespace MqttState

/-! ## Lost removals -/

/-- The step loses no removal of a topic for which a value stays cached. -/
def lossFree (env : MqttEnv) (s : MqttState) (e : MqttEvent) : Bool :=
  match env.config.topicPrefix with
  | .error _ => true
  | .ok pre =>
    match e with
    | .callback t (.message msg) =>
      if s.py.transport.client = some t ∧ msg.payload = [] then
        if s.py.transport.stopping then (s.py.cache.lookup msg.topic).isNone
        else if s.py.inbox.length < inboxMaxsize then true
        else ((s.pending.foldl (applyEntry env pre) s.py.cache).lookup msg.topic).isNone
      else true
    | .decoder tid _ =>
      match s.decoderPc tid with
      | some (.holding _ entry) =>
        entry.msg.payload ≠ [] || s.py.transport.current entry.client ||
          (s.py.cache.lookup entry.msg.topic).isNone
      | _ => true
    | .die tid =>
      match s.decoderPc tid with
      | some (.holding _ entry) =>
        entry.msg.payload ≠ [] || (s.py.cache.lookup entry.msg.topic).isNone
      | _ => true
    | .lifecycle _ =>
      s.holderPc ≠ some .freshInbox || s.pending.all fun entry =>
        entry.msg.payload ≠ [] || (s.py.cache.lookup entry.msg.topic).isNone
    | _ => true

variable {env : MqttEnv} {s s' s₁ s₂ : MqttState} {e : MqttEvent} {out log : List MqttOut}
  {pre topic : String} {holder : Holder} {outcome : CallOutcome}

/-! ## Retirement -/

/-- When the stop flag is about to be cleared, the inbox is fresh. -/
def Drained (s : MqttState) : Prop := s.holderPc = some .unstop → s.pending = []

/-- Only the fresh inbox comes before the clearing of the stop flag. -/
theorem lifecycleStep_unstop (h : s.lifecycleStep holder outcome = some (s', out))
    (hunstop : s'.holderPc = some .unstop) : holder.pc = .freshInbox := by
  cases lifecycleStep_statement h with
  | freshInbox hpc => exact hpc
  | branch hbranch =>
    -- no test goes on there
    obtain rfl := Option.some.inj hunstop
    generalize holder.task = task at hbranch
    generalize holder.pc = pc at hbranch
    cases hbranch
  | _ => simp [MqttState.release, MqttState.goto, MqttState.setTransport, holderPc] at hunstop

/-- The lock's holder moves only by its own steps. -/
theorem holderPc_of_step (hstep : s.step env e = some (s', out))
    (hunstop : s'.holderPc = some .unstop) :
    s.holderPc = some .unstop ∨ ∃ outcome holder, e = .lifecycle outcome ∧ s.lock = some holder ∧
      holder.pc = .freshInbox := by
  rcases step_cases hstep with ⟨hidle, -⟩ | ⟨t, msg, session, -, -, -, -, rfl, -⟩ |
    ⟨t, msg, session, -, -, -, -, rfl, -⟩ | ⟨tid, -, rfl, -⟩ |
    ⟨tid, accepted, pc, -, -, rfl, -⟩ | ⟨task, -, -, rfl, -⟩ |
    ⟨outcome, holder, he, hlock, hstep⟩ | ⟨holder, -, -, -, rfl, -⟩
  · exact .inl (by rwa [holderPc, hidle.lock] at hunstop)
  · exact .inl hunstop
  · exact .inl hunstop
  · exact .inl hunstop
  · exact .inl hunstop
  · cases hunstop
  · exact .inr ⟨outcome, holder, he, hlock, lifecycleStep_unstop hstep hunstop⟩
  · cases hunstop

theorem Owned.stopping_of_unstop (h : Owned s) (hunstop : s.holderPc = some .unstop) :
    s.py.transport.stopping = true ∧ s.py.transport.client = none := by
  obtain ⟨holder, hlock, hpc⟩ := Option.map_eq_some_iff.mp hunstop
  have hinv := h.pc holder hlock
  rwa [hpc] at hinv

theorem not_current_of_stopping (h : s.py.transport.stopping = true) (t : Nat) :
    s.py.transport.current t = false := by
  simp [Transport.current, h]

theorem Drained.step (hown : Owned s) (h : Drained s) (hstep : s.step env e = some (s', out)) :
    Drained s' := by
  -- the inbox stays drained until the stop flag is lifted
  intro hunstop
  rcases holderPc_of_step hstep hunstop with hbefore | ⟨outcome, holder, rfl, hlock, hpc⟩
  · have hstopping := (hown.stopping_of_unstop hbefore).1
    have hnil := h hbefore
    cases hown.step_message hstep with
    | quiet hp _ _ _ => rw [hp, hnil]
    | received hcur _ _ _ _ => cases hcur.symm.trans (not_current_of_stopping hstopping _)
    | dropped _ _ hp _ _ => rw [hp, hnil]
    | decoded _ hp _ _ _ => rw [hnil] at hp; cases hp
    | died _ hp _ _ => rw [hnil] at hp; cases hp
    | discarded _ _ hp _ _ _ _ => exact hp
  -- the flag is lifted together with the fresh inbox
  · have hlive := hown.held_freshInbox hlock hpc
    obtain ⟨holder', hlock', hstep⟩ := Option.bind_eq_some_iff.mp hstep
    cases Option.some.inj (hlock'.symm.trans hlock)
    obtain ⟨task, pc⟩ := holder
    cases hpc
    obtain ⟨rfl, -⟩ := Prod.mk.inj (Option.some.inj hstep)
    simp [pending, MqttState.goto, hlive]

theorem Drained.of_run {es : List MqttEvent} (h : Run (mqttSystem env) es log s) :
    Owned s ∧ Drained s :=
  h.invariant (P := fun s => Owned s ∧ Drained s) ⟨Owned.init, nofun⟩
    fun _ _ _ _ hs _ hstep => ⟨hs.1.step hstep, hs.2.step hs.1 hstep⟩

/-- The stop flag is cleared on a fresh inbox only. -/
theorem Drained.stopping_step (hown : Owned s) (h : Drained s)
    (hstep : s.step env e = some (s', out)) (hstop : s.py.transport.stopping = true) :
    s'.py.transport.stopping = true ∨ (s'.pending = [] ∧ s'.py.cache = s.py.cache) := by
  rcases step_cases hstep with ⟨hidle, -⟩ | ⟨t, msg, session, -, -, -, -, rfl, -⟩ |
    ⟨t, msg, session, -, -, -, -, rfl, -⟩ | ⟨tid, -, rfl, -⟩ |
    ⟨tid, accepted, pc, -, -, rfl, -⟩ | ⟨task, -, -, rfl, -⟩ |
    ⟨outcome, holder, -, hlock, hlife⟩ | ⟨holder, -, -, -, rfl, -⟩
  · exact .inl (by rw [hidle.transport, hstop])
  · exact .inl hstop
  · exact .inl hstop
  · exact .inl hstop
  · exact .inl (by rw [(decoderStep_frame env s.now accepted s.py pc).1, hstop])
  · exact .inl hstop
  · obtain ⟨hcache, -, -, hheld, hinbox⟩ := lifecycleStep_messages hlife
    -- only a started transport lifts the flag
    rcases lifecycleStep_cases hlife with ⟨-, ht, -⟩ | ⟨hpc, -⟩ | ⟨-, -, ht, -⟩ |
      ⟨-, t, -, ht, -⟩ | ⟨-, -, -, ht, -⟩ | ⟨-, -, ht | ⟨hpc, -⟩, -⟩
    · exact .inl (by rw [ht])
    · have hinv := hown.pc holder hlock
      rw [hpc] at hinv
      rw [hinv.2] at hstop
      cases hstop
    · exact .inl (by rw [ht, hstop])
    · exact .inl (by rw [ht, hstop])
    · exact .inl (by rw [ht, hstop])
    · exact .inl (by rw [ht, hstop])
    -- the fresh inbox comes after the drain
    · have hnil := h (by simp [holderPc, hlock, hpc])
      refine .inr ⟨?_, hcache⟩
      rcases hinbox with hinbox | ⟨hpc', -⟩
      · rw [pending, hheld, hinbox]
        exact hnil
      · rw [hpc] at hpc'
        cases hpc'
  · exact .inl hstop

/-! ## Revocation -/

/-- No value of `topic` that was pending in `old` can be cached again: the
    messages of `old` that still wait leave nothing behind, and so do the
    removals that came after them; or the transport is being stopped. -/
def Revoked (env : MqttEnv) (pre topic : String) (old : List InboxEntry) (s : MqttState) : Prop :=
  (∃ waiting later, s.pending = waiting ++ later ∧ (∀ e ∈ waiting, e ∈ old) ∧
    (∀ e ∈ later, e.msg.topic = topic → e.msg.payload = []) ∧
    (waiting.foldl (applyEntry env pre) s.py.cache).lookup topic = none) ∨
  (s.py.transport.stopping = true ∧ s.py.cache.lookup topic = none)

/-- A message the worker takes out of the sequence without decoding it. -/
theorem Revoked.lose {old : List InboxEntry} {entry : InboxEntry}
    (hc : cacheable pre topic = true) (h : Revoked env pre topic old s)
    (hp : s.pending = entry :: s'.pending) (hcache : s'.py.cache = s.py.cache)
    (hstop : s.py.transport.stopping = true → s'.py.transport.stopping = true)
    (hloss : entry.msg.topic = topic → entry.msg.payload = [] →
      s.py.cache.lookup topic = none) : Revoked env pre topic old s' := by
  rcases h with ⟨waiting, later, heq, hold, hlater, hfold⟩ | ⟨hstopping, hnone⟩
  · rw [hp] at heq
    cases waiting with
    -- the removal itself was lost
    | nil =>
        refine .inl ⟨[], s'.pending, rfl, by simp, fun e he => ?_, by simpa [hcache] using hfold⟩
        rw [List.nil_append] at heq
        exact hlater e (heq ▸ List.mem_cons_of_mem _ he)
    -- the lost entry is older than the removal
    | cons w waiting =>
        obtain ⟨rfl, hrest⟩ := List.cons.inj heq
        refine .inl ⟨waiting, later, hrest, fun e he => hold e (List.mem_cons_of_mem _ he), hlater,
          ?_⟩
        rw [hcache]
        exact lookup_foldl_tail hc hfold hloss
  · exact .inr ⟨hstop hstopping, by rw [hcache, hnone]⟩

theorem lossFree_entry (hpre : env.config.topicPrefix = .ok pre) {tid : Nat} {accepted : Bool}
    {processed : Nat} {entry : InboxEntry} (hok : lossFree env s (.decoder tid accepted) = true)
    (hpc : s.decoderPc tid = some (.holding processed entry))
    (hcur : s.py.transport.current entry.client = false) (hempty : entry.msg.payload = []) :
    s.py.cache.lookup entry.msg.topic = none := by
  simpa [lossFree, hpre, hpc, hcur, hempty] using hok

theorem Revoked.step {old : List InboxEntry} (hpre : env.config.topicPrefix = .ok pre)
    (hc : cacheable pre topic = true) (hown : Owned s) (hdrained : Drained s)
    (h : Revoked env pre topic old s) (hok : lossFree env s e = true)
    (hstep : s.step env e = some (s', out)) (hquiet : ∀ x ∈ out, x.valueOn topic = false) :
    Revoked env pre topic old s' := by
  have hstop := hdrained.stopping_step hown hstep
  -- a step that changes neither the pending messages nor the cache
  have hsame : s'.pending = s.pending → s'.py.cache = s.py.cache →
      Revoked env pre topic old s' := by
    intro hp hcache
    rcases h with ⟨waiting, later, heq, hold, hlater, hfold⟩ | ⟨hstopping, hnone⟩
    · exact .inl ⟨waiting, later, hp.trans heq, hold, hlater, by rwa [hcache]⟩
    · rcases hstop hstopping with hstopping' | ⟨hnil, -⟩
      · exact .inr ⟨hstopping', by rw [hcache, hnone]⟩
      · exact .inl ⟨[], [], hnil, by simp, by simp, by simpa [hcache] using hnone⟩
  cases hown.step_message hstep with
  | quiet hp hcache _ _ => exact hsame hp hcache
  | dropped _ _ hp hcache _ => exact hsame hp hcache
  | @received t msg hcur _ hp hcache _ =>
      rcases h with ⟨waiting, later, heq, hold, hlater, hfold⟩ | ⟨hstopping, -⟩
      · refine .inl ⟨waiting, later ++ [⟨s.serial, t, msg, s.now⟩],
          by rw [hp, heq, List.append_assoc], hold, fun e he htopic => ?_, by rwa [hcache]⟩
        rcases List.mem_append.mp he with he | he
        · exact hlater e he htopic
        · rw [List.mem_singleton.mp he] at htopic ⊢
          have := hquiet _ (List.mem_singleton_self _)
          have htopic' : msg.topic = topic := htopic
          simpa [MqttOut.valueOn, htopic'] using this
      · cases hcur.symm.trans (not_current_of_stopping hstopping t)
  | @decoded tid accepted processed entry hpc hp hcache _ htransport =>
      rw [MqttClient.handleMessage_cache hpre] at hcache
      cases hcur : s.py.transport.current entry.client with
      | false =>
          simp only [hcur, Bool.false_eq_true, if_false] at hcache
          refine h.lose hc hp hcache (fun hs => by rw [htransport, hs]) fun htopic hempty => ?_
          rw [← htopic]
          exact lossFree_entry hpre hok hpc hcur hempty
      | true =>
          simp only [hcur, if_true] at hcache
          rcases h with ⟨waiting, later, heq, hold, hlater, hfold⟩ | ⟨hstopping, -⟩
          · rw [hp] at heq
            cases waiting with
            | nil =>
                rw [List.nil_append] at heq
                refine .inl ⟨[], s'.pending, rfl, by simp, fun e he =>
                  hlater e (heq ▸ List.mem_cons_of_mem _ he), ?_⟩
                rw [hcache]
                exact lookup_applyEntry_removal hfold
                  (hlater entry (heq ▸ List.mem_cons_self)) hc
            | cons w waiting =>
                obtain ⟨rfl, hrest⟩ := List.cons.inj heq
                exact .inl ⟨waiting, later, hrest, fun e he => hold e (List.mem_cons_of_mem _ he),
                  hlater, by rwa [hcache]⟩
          · cases hcur.symm.trans (not_current_of_stopping hstopping entry.client)
  | @died tid processed entry hpc hp hcache _ =>
      refine h.lose hc hp hcache (fun hs => ?_) fun htopic hempty => ?_
      · rcases hstop hs with hs' | ⟨hnil, -⟩
        · exact hs'
        · obtain ⟨rfl, -⟩ := Prod.mk.inj (Option.some.inj hstep)
          exact hs
      · rw [← htopic]
        simpa [lossFree, hpre, hpc, hempty] using hok
  | @discarded outcome holder seen hlock hpc hp hbefore hcache _ _ =>
      have hloss : ∀ e ∈ s.pending, e.msg.topic = topic → e.msg.payload = [] →
          s.py.cache.lookup topic = none := by
        intro e he htopic hempty
        have hall : ∀ e ∈ s.pending, e.msg.payload ≠ [] ∨
            s.py.cache.lookup e.msg.topic = none := by
          simpa [lossFree, hpre, holderPc, hlock, hpc] using hok
        rw [← htopic]
        exact (hall e he).resolve_left fun hne => hne hempty
      have hnone : s.py.cache.lookup topic = none := by
        rcases h with ⟨waiting, later, heq, hold, hlater, hfold⟩ | ⟨-, hnone⟩
        · exact lookup_of_foldl hc hfold fun e he => hloss e (heq ▸ List.mem_append_left _ he)
        · exact hnone
      exact .inl ⟨[], [], hp, by simp, by simp, by simpa [hcache] using hnone⟩

/-- The callback itself: the removal is enqueued behind everything it revokes,
    or there is nothing to revoke. -/
theorem Revoked.of_removal {t : Nat} {msg : Message} (hpre : env.config.topicPrefix = .ok pre)
    (ht : s.py.transport.client = some t) (hempty : msg.payload = [])
    (hok : lossFree env s (.callback t (.message msg)) = true)
    (hstep : s.step env (.callback t (.message msg)) = some (s', out)) :
    Revoked env pre msg.topic s'.pending s' := by
  simp only [lossFree, hpre, ht, hempty, and_self, if_true] at hok
  rcases messageStep_cases env s t msg with ⟨hcur, heq⟩ | ⟨hcur, hlen, session, -, heq⟩ |
    ⟨hcur, hlen, session, -, heq⟩
  -- stopping: the callback is ignored, so nothing may be cached
  · have hstop : s.py.transport.stopping = true := by simpa [Transport.current, ht] using hcur
    rw [if_pos hstop, Option.isNone_iff_eq_none] at hok
    obtain ⟨rfl, -⟩ := Prod.mk.inj (heq.symm.trans (Option.some.inj hstep))
    exact .inr ⟨hstop, hok⟩
  -- the removal is queued last
  · have hs' := (Prod.mk.inj (heq.symm.trans (Option.some.inj hstep))).1
    have hp : s'.pending = s.pending ++ [(⟨s.serial, t, msg, s.now⟩ : InboxEntry)] := by
      rw [← hs']
      simp [pending]
    refine .inl ⟨s'.pending, [], (List.append_nil _).symm, fun e he => he, by simp, ?_⟩
    rw [hp, List.foldl_append]
    simp [applyEntry, hempty]
  -- a full inbox drops it, so nothing may be left to cache
  · have hstop : s.py.transport.stopping = false := by
      simp only [Transport.current, Bool.and_eq_true, Bool.not_eq_true'] at hcur
      exact hcur.2
    rw [if_neg (by simp [hstop]), if_neg (by omega), Option.isNone_iff_eq_none] at hok
    obtain ⟨rfl, -⟩ := Prod.mk.inj (heq.symm.trans (Option.some.inj hstep))
    exact .inl ⟨_, [], (List.append_nil _).symm, fun e he => he, by simp, hok⟩

theorem Revoked.run {old : List InboxEntry} (hpre : env.config.topicPrefix = .ok pre)
    (hc : cacheable pre topic = true) (hown : Owned s₁) (hdrained : Drained s₁)
    (h : Revoked env pre topic old s₁) {es : List MqttEvent}
    (hpath : Path (mqttSystem env) (fun s e => lossFree env s e = true) s₁ es log s₂)
    (hquiet : ∀ x ∈ log, x.valueOn topic = false) : Revoked env pre topic old s₂ := by
  have key : Owned s₂ ∧ Drained s₂ ∧
      ((∀ x ∈ log, x.valueOn topic = false) → Revoked env pre topic old s₂) := by
    refine hpath.induct (P := fun log s => Owned s ∧ Drained s ∧
      ((∀ x ∈ log, x.valueOn topic = false) → Revoked env pre topic old s))
      ⟨hown, hdrained, fun _ => h⟩ ?_
    rintro log s e s' out ⟨ho, hd, hr⟩ hok hstep
    exact ⟨ho.step hstep, hd.step ho hstep, fun hq => (hr fun x hx =>
      hq x (List.mem_append_left _ hx)).step hpre hc ho hd hok hstep
        fun x hx => hq x (List.mem_append_right _ hx)⟩
  exact key.2.2 hquiet

/-- Once nothing of `old` waits any more, nothing is cached. -/
theorem Revoked.lookup {old : List InboxEntry} (h : Revoked env pre topic old s)
    (hpassed : ∀ e ∈ old, e ∉ s.pending) : s.py.cache.lookup topic = none := by
  rcases h with ⟨waiting, later, heq, hold, -, hfold⟩ | ⟨-, hnone⟩
  · have hnil : waiting = [] := by
      rw [List.eq_nil_iff_forall_not_mem]
      exact fun e he => hpassed e (hold e he) (heq ▸ List.mem_append_left _ he)
    rwa [hnil] at hfold
  · exact hnone

end MqttState

open MqttState

/-! ## The identity of the hardware -/

theorem checkIdentity_reads {read : Read (Except PyError)} {maxAge : PyNum}
    {probes : List IdentityProbe} (h : checkIdentity read maxAge probes = .ok none) :
    ∀ p ∈ probes, ∃ observed age, read p.deviceType p.inst p.path = .ok (some (observed, age)) ∧
      Qualifies maxAge p observed age := by
  induction probes with
  | nil => simp
  | cons p ps ih =>
      cases hr : read p.deviceType p.inst p.path with
      | error err => simp [checkIdentity, hr, bind, Except.bind] at h
      | ok reading =>
          cases hf : probeFault maxAge p reading with
          | some reason => simp [checkIdentity, hr, hf, bind, Except.bind, pure, Except.pure] at h
          | none =>
              simp only [checkIdentity, hr, hf, bind, Except.bind] at h
              obtain ⟨observed, age, rfl, hq⟩ := probeFault_eq_none.mp hf
              intro q hmem
              rcases List.mem_cons.mp hmem with rfl | hmem
              · exact ⟨observed, age, hr, hq⟩
              · exact ih h q hmem

/-- A contract is accepted only on five qualifying readings. -/
theorem validateHardwareWrite_reads {contracts : List HardwareWriteContract}
    {portalId : Option String} {deviceType path : String} {inst : Int} {value : Json}
    {mode : Option String} {read : Read (Except PyError)} {maxAge : PyNum}
    {c : HardwareWriteContract}
    (h : validateHardwareWrite contracts portalId deviceType inst path value mode read maxAge =
      .ok (.ok c)) :
    ∀ p ∈ c.identity, ∃ observed age, read p.deviceType p.inst p.path = .ok (some (observed, age)) ∧
      Qualifies maxAge p observed age := by
  unfold validateHardwareWrite at h
  split at h
  · rename_i contract _
    split at h
    · simp [pure, Except.pure] at h
    · cases hid : checkIdentity read maxAge contract.identity with
      | error err => simp [hid, bind, Except.bind] at h
      | ok fault =>
          cases fault with
          | some reason => simp [hid, bind, Except.bind, pure, Except.pure] at h
          | none =>
              simp only [hid, bind, Except.bind, pure, Except.pure, Except.ok.injEq] at h
              obtain ⟨rfl, -⟩ := checkValue_eq_ok.mp h
              exact checkIdentity_reads hid
  · simp [pure, Except.pure] at h

/-! ## Removals over runs -/

/-- Client object `t`, the owned one, delivers a removal.  If from then on no
    step loses a removal of a cached value, and no newer value of the topic is
    received, then once everything that was enqueued has been decoded or
    discarded the value is not cached, not read, and identifies no hardware. -/
theorem removal_revokes {env : MqttEnv} {es₁ es₂ : List MqttEvent} {log₁ log₂ out : List MqttOut}
    {s₁ s₂ s₃ : MqttState} {t : Nat} {msg : Message} (h₁ : Run (mqttSystem env) es₁ log₁ s₁)
    (ht : s₁.py.transport.client = some t) (hempty : msg.payload = [])
    (hok : lossFree env s₁ (.callback t (.message msg)) = true)
    (hstep : s₁.step env (.callback t (.message msg)) = some (s₂, out))
    (h₂ : Path (mqttSystem env) (fun s e => lossFree env s e = true) s₂ es₂ log₂ s₃)
    (hquiet : ∀ x ∈ log₂, x.valueOn msg.topic = false)
    (hpassed : ∀ e ∈ s₂.pending, e ∉ s₃.pending) :
    s₃.py.cache.lookup msg.topic = none ∧
    ∀ pre, env.config.topicPrefix = .ok pre →
      (∀ deviceType inst path, formatTopic pre deviceType inst path = .ok msg.topic →
        s₃.py.readPath env s₃.now deviceType inst path = .ok none) ∧
      ∀ deviceType inst path value mode maxAge c,
        validateHardwareWrite env.contracts env.config.portalId deviceType inst path value mode
          (s₃.py.readPath env s₃.now) maxAge = .ok (.ok c) →
        ∀ p ∈ c.identity, itemTopic pre p.deviceType p.inst p.path ≠ msg.topic := by
  have hrun₂ : Run (mqttSystem env) (es₁ ++ [.callback t (.message msg)]) (log₁ ++ out) s₂ :=
    h₁.snoc trivial hstep
  have hrun₃ := hrun₂.trans (h₂.mono fun _ _ _ => trivial)
  have hnone : s₃.py.cache.lookup msg.topic = none := by
    cases hpre : env.config.topicPrefix with
    | error err => exact lookup_unconfigured hpre hrun₃ _
    | ok pre =>
        cases hc : cacheable pre msg.topic with
        | false => exact lookup_uncacheable hpre hc hrun₃
        | true =>
            obtain ⟨hown, hdrained⟩ := Drained.of_run hrun₂
            have hrevoked := Revoked.of_removal hpre ht hempty hok hstep
            exact (hrevoked.run hpre hc hown hdrained h₂ hquiet).lookup hpassed
  refine ⟨hnone, fun pre hpre => ?_⟩
  have hread : ∀ deviceType inst path, formatTopic pre deviceType inst path = .ok msg.topic →
      s₃.py.readPath env s₃.now deviceType inst path = .ok none := by
    intro deviceType inst path htopic
    rw [MqttClient.readPath_eq hpre htopic, hnone]
    rfl
  refine ⟨hread, fun deviceType inst path value mode maxAge c hvalid p hp htopic => ?_⟩
  obtain ⟨observed, age, hr, -⟩ := validateHardwareWrite_reads hvalid p hp
  obtain ⟨topic, hformat, -⟩ := MqttClient.readPath_eq_ok hpre hr
  obtain rfl : topic = msg.topic := (formatTopic_eq_ok.mp hformat).2.trans htopic
  rw [hread _ _ _ hformat] at hr
  cases hr

/-- The item of `readingSchedule` disappears. -/
def removalMessage : Message := ⟨"N/testportal/battery/512/Soc", [], false⟩

/-- A reading is cached, and the worker is back at its loop's test. -/
def cachedSchedule : List MqttEvent := connectSchedule ++ readingSchedule ++ [.decoder 1 true]

/-- The removal of a cached value, decoded by the worker's next three steps. -/
theorem removal_revokes_decoded : ∃ log₁ s₁ s₂ out log₂ s₃,
    Run (mqttSystem fixtureEnv) cachedSchedule log₁ s₁ ∧
    (s₁.py.cache.lookup removalMessage.topic).isSome = true ∧
    s₁.step fixtureEnv (.callback 0 (.message removalMessage)) = some (s₂, out) ∧
    Path (mqttSystem fixtureEnv) (fun s e => lossFree fixtureEnv s e = true) s₂
      (List.replicate 3 (.decoder 1 true)) log₂ s₃ ∧
    s₃.py.cache.lookup removalMessage.topic = none := by
  have hrun : ((mqttSystem fixtureEnv).exec {} cachedSchedule).any (fun r₁ =>
      (r₁.1.py.cache.lookup removalMessage.topic).isSome &&
      decide (r₁.1.py.transport.client = some 0) &&
      lossFree fixtureEnv r₁.1 (.callback 0 (.message removalMessage)) &&
      (r₁.1.step fixtureEnv (.callback 0 (.message removalMessage))).any fun r₂ =>
        (((mqttSystem fixtureEnv).restrict (lossFree fixtureEnv)).exec r₂.1
          (List.replicate 3 (.decoder 1 true))).any fun r₃ =>
            r₃.2.all (fun x => !x.valueOn removalMessage.topic) &&
              r₃.1.pending.isEmpty) = true := by
    decide +kernel
  obtain ⟨⟨s₁, log₁⟩, hexec₁, hrun⟩ := Option.any_eq_true _ _ |>.mp hrun
  simp only [Bool.and_eq_true, decide_eq_true_eq] at hrun
  obtain ⟨⟨⟨hcached, ht⟩, hok⟩, hrun⟩ := hrun
  obtain ⟨⟨s₂, out⟩, hstep, hrun⟩ := Option.any_eq_true _ _ |>.mp hrun
  obtain ⟨⟨s₃, log₂⟩, hexec₂, hrun⟩ := Option.any_eq_true _ _ |>.mp hrun
  simp only [Bool.and_eq_true, List.all_eq_true, Bool.not_eq_true', List.isEmpty_iff] at hrun
  have hpath := (path_of_exec hexec₂).of_restrict
  have hrevoked := removal_revokes (path_of_exec hexec₁) ht rfl hok hstep hpath hrun.1
    fun e _ => by simp [hrun.2]
  exact ⟨log₁, s₁, s₂, out, log₂, s₃, path_of_exec hexec₁, hcached, hstep, hpath, hrevoked.1⟩

/-- `disconnect()` up to its joins, the end of both threads, and the rest. -/
def retireSchedule : List MqttEvent :=
  .acquire .disconnect :: List.replicate 6 (.lifecycle .ok) ++ [.decoder 1 true, .die 2] ++
    List.replicate 7 (.lifecycle .ok)

/-- The removal is in the inbox as `disconnect()` discards it: the transport is
    gone, nothing is pending, no newer value was received, and the value of the
    item that disappeared is still read. -/
theorem removal_survives_retirement : ∃ log₁ s₁ s₂ out log₂ s₃,
    Run (mqttSystem fixtureEnv) cachedSchedule log₁ s₁ ∧
    s₁.py.transport.client = some 0 ∧ removalMessage.payload = [] ∧
    s₁.step fixtureEnv (.callback 0 (.message removalMessage)) = some (s₂, out) ∧
    Path (mqttSystem fixtureEnv) (fun _ _ => True) s₂ retireSchedule log₂ s₃ ∧
    (∀ x ∈ log₂, x.valueOn removalMessage.topic = false) ∧ s₃.pending = [] ∧
    formatTopic "N/testportal" "battery" 512 "Soc" = .ok removalMessage.topic ∧
    s₃.py.readPath fixtureEnv s₃.now "battery" 512 "Soc" ≠ .ok none := by
  have hrun : ((mqttSystem fixtureEnv).exec {} cachedSchedule).any (fun r₁ =>
      decide (r₁.1.py.transport.client = some 0) &&
      (r₁.1.step fixtureEnv (.callback 0 (.message removalMessage))).any fun r₂ =>
        ((mqttSystem fixtureEnv).exec r₂.1 retireSchedule).any fun r₃ =>
          r₃.2.all (fun x => !x.valueOn removalMessage.topic) && r₃.1.pending.isEmpty &&
            (r₃.1.py.cache.lookup removalMessage.topic).isSome) = true := by
    decide +kernel
  obtain ⟨⟨s₁, log₁⟩, hexec₁, hrun⟩ := Option.any_eq_true _ _ |>.mp hrun
  simp only [Bool.and_eq_true, decide_eq_true_eq] at hrun
  obtain ⟨ht, hrun⟩ := hrun
  obtain ⟨⟨s₂, out⟩, hstep, hrun⟩ := Option.any_eq_true _ _ |>.mp hrun
  obtain ⟨⟨s₃, log₂⟩, hexec₂, hrun⟩ := Option.any_eq_true _ _ |>.mp hrun
  simp only [Bool.and_eq_true, List.all_eq_true, Bool.not_eq_true', List.isEmpty_iff] at hrun
  obtain ⟨⟨hquiet, hnil⟩, hcached⟩ := hrun
  have htopic : formatTopic "N/testportal" "battery" 512 "Soc" = .ok removalMessage.topic :=
    formatTopic_eq_ok.mpr (by decide +kernel)
  refine ⟨log₁, s₁, s₂, out, log₂, s₃, path_of_exec hexec₁, ht, rfl, hstep, path_of_exec hexec₂,
    hquiet, hnil, htopic, ?_⟩
  obtain ⟨entry, hentry⟩ := Option.isSome_iff_exists.mp hcached
  have hpre : fixtureEnv.config.topicPrefix = .ok "N/testportal" := rfl
  rw [MqttClient.readPath_eq hpre htopic, hentry]
  simp

end McpVenusOs
