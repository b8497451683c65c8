/-
  McpVenusOs.Mqtt.Provenance

  Where a cached value comes from.  The cache is a function of the messages
  decoded so far: for every topic it holds what the last counting message says,
  with the time that message was received.  A message counts when its transport
  was current as it was decoded, its payload is valid, and it is not a retained
  Serial value.

  Receipt times never decrease along the decoded messages followed by the
  pending ones: there is one worker, the queue is first-in first-out, and the
  clock is read as a message enters it.
-/

import McpVenusOs.Mqtt.Pending

namespace McpVenusOs

open Py Machine

/-! ## The messages of a log -/

/-- A decoded entry, whatever its transport was. -/
def MqttOut.decodedEntry : MqttOut → Option InboxEntry
  | .decoded e _ => some e
  | _ => none

/-- An entry decoded while its transport was current. -/
def MqttOut.decodedCurrent : MqttOut → Option InboxEntry
  | .decoded e true => some e
  | _ => none

/-- A removal, or a decodable payload that is not a retained Serial value. -/
def counts (env : MqttEnv) (pre : String) (e : InboxEntry) : Bool :=
  e.msg.payload = [] || ((env.loads e.msg.payload).isSome &&
    !(e.msg.topic = serialTopic pre && e.msg.retain))

/-- The counting messages on `topic`, in the order they were decoded. -/
def decodedOn (env : MqttEnv) (pre topic : String) (log : List MqttOut) : List InboxEntry :=
  (log.filterMap MqttOut.decodedCurrent).filter fun e => e.msg.topic = topic && counts env pre e

/-- What a last message leaves in the cache: nothing after a removal, else its
    value with the time it was received. -/
def cachedBy (env : MqttEnv) : Option InboxEntry → Option CacheEntry
  | none => none
  | some e =>
    if e.msg.payload = [] then none
    else (env.loads e.msg.payload).map fun v => (unwrap v, e.receivedAt)

theorem decodedOn_append (env : MqttEnv) (pre topic : String) (log out : List MqttOut) :
    decodedOn env pre topic (log ++ out) =
      decodedOn env pre topic log ++ decodedOn env pre topic out := by
  simp [decodedOn]

/-- Outputs that show no message add nothing. -/
theorem decodedOn_silent {env : MqttEnv} {pre topic : String} {out : List MqttOut}
    (h : ∀ x ∈ out, ¬ x.ofMessage = true) : decodedOn env pre topic out = [] := by
  have hnone : out.filterMap MqttOut.decodedCurrent = [] := by
    rw [List.filterMap_eq_nil_iff]
    intro x hx
    have := h x hx
    cases x <;> simp_all [MqttOut.ofMessage, MqttOut.decodedCurrent]
  rw [decodedOn, hnone]
  rfl

theorem decodedEntry_silent {out : List MqttOut} (h : ∀ x ∈ out, ¬ x.ofMessage = true) :
    out.filterMap MqttOut.decodedEntry = [] := by
  rw [List.filterMap_eq_nil_iff]
  intro x hx
  have := h x hx
  cases x <;> simp_all [MqttOut.ofMessage, MqttOut.decodedEntry]

theorem decodedOn_sublist (env : MqttEnv) (pre topic : String) (log : List MqttOut) :
    (decodedOn env pre topic log).Sublist (log.filterMap MqttOut.decodedEntry) := by
  refine List.Sublist.trans List.filter_sublist ?_
  induction log with
  | nil => exact List.Sublist.refl _
  | cons x rest ih =>
      cases x with
      | decoded e current =>
          cases current with
          | false => exact ih.cons e
          | true => exact ih.cons_cons e
      | _ => exact ih

/-! ## What one message does to one topic -/

/-- The cache after a current entry, read at a topic that can be cached. -/
theorem lookup_applyEntry {env : MqttEnv} {pre topic : String} (hc : cacheable pre topic = true)
    (cache : Cache) (e : InboxEntry) : (applyEntry env pre cache e).lookup topic =
      if e.msg.topic = topic ∧ counts env pre e = true then cachedBy env (some e)
      else cache.lookup topic := by
  unfold applyEntry counts cachedBy
  by_cases hempty : e.msg.payload = []
  -- an empty payload removes the topic
  · simp only [hempty, if_true, decide_true, Bool.true_or, and_true]
    split
    · rename_i htopic
      rw [htopic, AList.lookup_erase]
    · rename_i htopic
      exact AList.lookup_erase_ne (Ne.symm htopic)
  -- a payload that does not decode changes nothing
  · simp only [hempty, if_false, decide_false, Bool.false_or]
    cases hload : env.loads e.msg.payload with
    | none => simp
    | some decoded =>
        simp only [Option.isSome_some, Bool.true_and, Option.map_some]
        -- a retained serial is not cached
        by_cases hserial : e.msg.topic = serialTopic pre ∧ e.msg.retain = true
        · simp [hserial.1, hserial.2]
        · have hcount : (!(decide (e.msg.topic = serialTopic pre) && e.msg.retain)) = true := by
            by_contra hn
            exact hserial (by simpa using hn)
          rw [if_neg hserial, hcount]
          by_cases htopic : e.msg.topic = topic
          · rw [htopic, hc]
            simp [AList.lookup_insert]
          · simp only [htopic, false_and, if_false]
            split
            · exact AList.lookup_insert_ne (Ne.symm htopic)
            · rfl

/-- A topic that cannot be cached never is. -/
theorem lookup_applyEntry_none {env : MqttEnv} {pre topic : String}
    (hc : cacheable pre topic = false) {cache : Cache} (h : cache.lookup topic = none)
    (e : InboxEntry) : (applyEntry env pre cache e).lookup topic = none := by
  have herase : (cache.erase e.msg.topic).lookup topic = none := by
    by_cases htopic : topic = e.msg.topic
    · rw [htopic, AList.lookup_erase]
    · rw [AList.lookup_erase_ne htopic, h]
  unfold applyEntry
  -- a removal, an undecodable payload, the serial, then the insertion
  split
  · exact herase
  · split
    · exact h
    · split
      · exact h
      · split
        · rename_i hcache
          have htopic : topic ≠ e.msg.topic := fun ht => by
            rw [← ht, hc] at hcache
            cases hcache
          rw [AList.lookup_insert_ne htopic, h]
        · exact h

namespace MqttState

variable {env : MqttEnv} {s s' : MqttState} {e : MqttEvent} {out log : List MqttOut} {pre : String}

/-! ## The cache over runs -/

/-- What a step makes of one cached topic. -/
theorem Owned.lookup_step (h : Owned s) (hpre : env.config.topicPrefix = .ok pre) {topic : String}
    (hc : cacheable pre topic = true) (hstep : s.step env e = some (s', out)) :
    s'.py.cache.lookup topic = match (decodedOn env pre topic out).getLast? with
      | none => s.py.cache.lookup topic
      | some entry => cachedBy env (some entry) := by
  cases h.step_message hstep with
  | quiet _ hcache _ hsilent => rw [decodedOn_silent hsilent, hcache]; rfl
  | received _ _ _ hcache _ => rw [hcache]; rfl
  | dropped _ _ _ hcache _ => rw [hcache]; rfl
  | @decoded _ _ _ entry _ _ hcache _ _ =>
      rw [hcache, MqttClient.handleMessage_cache hpre]
      -- a retired transport's message leaves the cache as it was
      cases hcur : s.py.transport.current entry.client with
      | false => rfl
      | true =>
          simp only [if_true, lookup_applyEntry hc]
          by_cases hcount : entry.msg.topic = topic ∧ counts env pre entry = true
          · rw [if_pos hcount]
            simp [decodedOn, MqttOut.decodedCurrent, hcount.1, hcount.2]
          · rw [if_neg hcount]
            have hfilter : (decide (entry.msg.topic = topic) && counts env pre entry) = false := by
              by_contra hn
              exact hcount (by simpa using hn)
            simp [decodedOn, MqttOut.decodedCurrent, hfilter]
  | died _ _ hcache _ => rw [hcache]; rfl
  | discarded _ _ _ _ hcache _ hsilent => rw [decodedOn_silent hsilent, hcache]; rfl

theorem lookup_of_run (hpre : env.config.topicPrefix = .ok pre) {topic : String}
    (hc : cacheable pre topic = true) {es : List MqttEvent} (h : Run (mqttSystem env) es log s) :
    s.py.cache.lookup topic = cachedBy env (decodedOn env pre topic log).getLast? := by
  have key : Owned s ∧
      s.py.cache.lookup topic = cachedBy env (decodedOn env pre topic log).getLast? := by
    refine h.induct (P := fun log s => Owned s ∧
      s.py.cache.lookup topic = cachedBy env (decodedOn env pre topic log).getLast?)
      ⟨Owned.init, rfl⟩ ?_
    rintro log s e s' out ⟨hown, ih⟩ - hstep
    -- an entry handled in this step is the last one; otherwise the earlier one stands
    refine ⟨hown.step hstep, ?_⟩
    rw [hown.lookup_step hpre hc hstep, decodedOn_append, List.getLast?_append]
    cases (decodedOn env pre topic out).getLast? with
    | none => exact ih
    | some entry => rfl
  exact key.2

theorem lookup_uncacheable (hpre : env.config.topicPrefix = .ok pre) {topic : String}
    (hc : cacheable pre topic = false) {es : List MqttEvent} (h : Run (mqttSystem env) es log s) :
    s.py.cache.lookup topic = none := by
  have key : Owned s ∧ s.py.cache.lookup topic = none := by
    refine h.invariant (P := fun s => Owned s ∧ s.py.cache.lookup topic = none)
      ⟨Owned.init, rfl⟩ ?_
    rintro s e s' out ⟨hown, ih⟩ - hstep
    refine ⟨hown.step hstep, ?_⟩
    cases hown.step_message hstep with
    | quiet _ hcache _ _ => rw [hcache, ih]
    | received _ _ _ hcache _ => rw [hcache, ih]
    | dropped _ _ _ hcache _ => rw [hcache, ih]
    | @decoded _ _ _ entry _ _ hcache _ _ =>
        rw [hcache, MqttClient.handleMessage_cache hpre]
        split
        · exact lookup_applyEntry_none hc ih entry
        · exact ih
    | died _ _ hcache _ => rw [hcache, ih]
    | discarded _ _ _ _ hcache _ _ => rw [hcache, ih]
  exact key.2

/-- Without a portal ID nothing is ever cached. -/
theorem lookup_unconfigured {err : PyError} (hpre : env.config.topicPrefix = .error err)
    {es : List MqttEvent} (h : Run (mqttSystem env) es log s) (topic : String) :
    s.py.cache.lookup topic = none := by
  have key : Owned s ∧ s.py.cache = ∅ := by
    refine h.invariant (P := fun s => Owned s ∧ s.py.cache = ∅) ⟨Owned.init, rfl⟩ ?_
    rintro s e s' out ⟨hown, ih⟩ - hstep
    refine ⟨hown.step hstep, ?_⟩
    cases hown.step_message hstep with
    | quiet _ hcache _ _ => rw [hcache, ih]
    | received _ _ _ hcache _ => rw [hcache, ih]
    | dropped _ _ _ hcache _ => rw [hcache, ih]
    | @decoded _ _ _ entry _ _ hcache _ _ =>
        rw [hcache]
        simp only [MqttClient.handleMessage, MqttClient.removeItem, hpre]
        split
        · split
          · rw [ih]; rfl
          · exact ih
        · split
          · exact ih
          · split <;> exact ih
    | died _ _ hcache _ => rw [hcache, ih]
    | discarded _ _ _ _ hcache _ _ => rw [hcache, ih]
  rw [key.2]
  rfl

/-! ## Receipt times -/

theorem clock_of_step (hstep : s.step env e = some (s', out)) : s.now ≤ s'.now := by
  rcases step_cases hstep with ⟨hidle, -⟩ | ⟨t, msg, session, -, -, -, -, rfl, -⟩ |
    ⟨t, msg, session, -, -, -, -, rfl, -⟩ | ⟨tid, -, rfl, -⟩ |
    ⟨tid, accepted, pc, -, -, rfl, -⟩ | ⟨task, -, -, rfl, -⟩ |
    ⟨outcome, holder, -, -, hstep⟩ | ⟨holder, -, -, -, rfl, -⟩
  · exact hidle.clock
  · exact le_rfl
  · exact le_rfl
  · exact le_rfl
  · exact le_rfl
  · exact le_rfl
  · exact (lifecycleStep_messages hstep).2.2.1.ge
  · exact le_rfl

/-- The decoded messages, then the pending ones, in the order of their receipt;
    each of them was received. -/
structure Fifo (log : List MqttOut) (s : MqttState) : Prop where
  ordered : (log.filterMap MqttOut.decodedEntry ++ s.pending).Pairwise
    fun a b => a.receivedAt ≤ b.receivedAt
  received : ∀ e ∈ log.filterMap MqttOut.decodedEntry ++ s.pending,
    e.receivedAt ≤ s.now ∧ .received e.receivedAt e ∈ log

/-- Messages leave the sequence only by being lost. -/
theorem Fifo.sublist (h : Fifo log s) (hclock : s.now ≤ s'.now)
    (hsub : ((log ++ out).filterMap MqttOut.decodedEntry ++ s'.pending).Sublist
      (log.filterMap MqttOut.decodedEntry ++ s.pending)) : Fifo (log ++ out) s' where
  ordered := h.ordered.sublist hsub
  received e he :=
    have hr := h.received e (hsub.subset he)
    ⟨hr.1.trans hclock, List.mem_append_left _ hr.2⟩

theorem Fifo.step (hown : Owned s) (h : Fifo log s) (hstep : s.step env e = some (s', out)) :
    Fifo (log ++ out) s' := by
  have hclock := clock_of_step hstep
  -- a step that handles nothing leaves the handled entries as they were
  have hsilent : (∀ x ∈ out, ¬ x.ofMessage = true) →
      (log ++ out).filterMap MqttOut.decodedEntry = log.filterMap MqttOut.decodedEntry := by
    intro hs
    rw [List.filterMap_append, decodedEntry_silent hs, List.append_nil]
  cases hown.step_message hstep with
  | quiet hp _ _ hs => exact h.sublist hclock (by rw [hsilent hs, hp])
  | @received t msg _ _ hp _ _ =>
      have hlog : (log ++ [MqttOut.received s.now ⟨s.serial, t, msg, s.now⟩]).filterMap
          MqttOut.decodedEntry = log.filterMap MqttOut.decodedEntry := by
        simp [MqttOut.decodedEntry]
      -- the new entry is the youngest
      refine ⟨?_, fun e he => ?_⟩
      · rw [hlog, hp, ← List.append_assoc]
        refine List.pairwise_append.mpr ⟨h.ordered, List.pairwise_singleton _ _, ?_⟩
        intro a ha b hb
        rw [List.mem_singleton.mp hb]
        exact (h.received a ha).1
      · rw [hlog, hp, ← List.append_assoc] at he
        rcases List.mem_append.mp he with he | he
        · exact ⟨(h.received e he).1.trans hclock, List.mem_append_left _ (h.received e he).2⟩
        · rw [List.mem_singleton.mp he]
          exact ⟨hclock, List.mem_append_right _ (List.mem_singleton_self _)⟩
  | dropped _ _ hp _ _ =>
      exact h.sublist hclock (by simp [MqttOut.decodedEntry, hp])
  | @decoded _ _ _ entry _ hp _ _ _ =>
      exact h.sublist hclock (by simp [MqttOut.decodedEntry, hp])
  -- the lost entry leaves the order of the others
  | died _ hp _ _ =>
      refine h.sublist hclock ?_
      rw [List.append_nil, hp]
      exact (List.sublist_cons_self _ _).append_left _
  | discarded _ _ hp _ _ _ hs =>
      refine h.sublist hclock ?_
      rw [hsilent hs, hp, List.append_nil]
      exact List.sublist_append_left _ _

theorem Fifo.of_run {es : List MqttEvent} (h : Run (mqttSystem env) es log s) : Fifo log s := by
  have key : Owned s ∧ Fifo log s := by
    refine h.induct (P := fun log s => Owned s ∧ Fifo log s) ⟨Owned.init, ?_⟩ ?_
    · exact ⟨List.Pairwise.nil, nofun⟩
    · rintro log s e s' out ⟨hown, hfifo⟩ - hstep
      exact ⟨hown.step hstep, hfifo.step hown hstep⟩
  exact key.2

/-- A cached value comes from a message that `_on_message` received at the
    time the cache holds. -/
theorem received_of_lookup {es : List MqttEvent} (h : Run (mqttSystem env) es log s)
    {topic : String} {v : Json} {receivedAt : ℚ}
    (hlookup : s.py.cache.lookup topic = some (v, receivedAt)) :
    ∃ e, .received receivedAt e ∈ log ∧ e.msg.topic = topic ∧ e.receivedAt = receivedAt ∧
      cachedBy env (some e) = some (v, receivedAt) := by
  cases hpre : env.config.topicPrefix with
  | error err =>
      rw [lookup_unconfigured hpre h topic] at hlookup
      cases hlookup
  | ok pre =>
      cases hc : cacheable pre topic with
      | false =>
          rw [lookup_uncacheable hpre hc h] at hlookup
          cases hlookup
      | true =>
          rw [lookup_of_run hpre hc h] at hlookup
          cases hlast : (decodedOn env pre topic log).getLast? with
          | none =>
              rw [hlast] at hlookup
              cases hlookup
          | some e =>
              rw [hlast] at hlookup
              have hmem := List.mem_of_getLast? hlast
              have htopic : e.msg.topic = topic := by
                have := (List.mem_filter.mp hmem).2
                simp only [Bool.and_eq_true, decide_eq_true_eq] at this
                exact this.1
              -- the time is the entry's, not the decoder's
              have hat : e.receivedAt = receivedAt := by
                unfold cachedBy at hlookup
                simp only at hlookup
                split at hlookup
                · cases hlookup
                · obtain ⟨v', -, heq⟩ := Option.map_eq_some_iff.mp hlookup
                  exact (Prod.mk.inj heq).2
              have hreceived := ((Fifo.of_run h).received e (List.mem_append_left _
                ((decodedOn_sublist env pre topic log).subset hmem))).2
              rw [hat] at hreceived
              exact ⟨e, hreceived, htopic, hat, hlookup⟩

end MqttState

open MqttState

/-! ## Provenance -/

/-- In every run the cache holds, for every topic below the prefix and every
    capability topic, exactly what the last counting message left there; it
    holds no other topic; the receipt times of a topic's messages do not
    decrease and are the times `_on_message` received them; and a step that
    decodes no counting message on the topic leaves its entry as it is. -/
theorem cache_provenance {env : MqttEnv} {pre : String} (hpre : env.config.topicPrefix = .ok pre)
    {es : List MqttEvent} {log : List MqttOut} {s : MqttState}
    (h : Run (mqttSystem env) es log s) (topic : String) :
    (cacheable pre topic = true →
      s.py.cache.lookup topic = cachedBy env (decodedOn env pre topic log).getLast?) ∧
    (cacheable pre topic = false → s.py.cache.lookup topic = none) ∧
    ((decodedOn env pre topic log).Pairwise fun a b => a.receivedAt ≤ b.receivedAt) ∧
    (∀ e ∈ decodedOn env pre topic log, .received e.receivedAt e ∈ log) ∧
    ∀ ev s' out, s.step env ev = some (s', out) → decodedOn env pre topic out = [] →
      s'.py.cache.lookup topic = s.py.cache.lookup topic := by
  have hfifo := Fifo.of_run h
  have hsub := decodedOn_sublist env pre topic log
  refine ⟨fun hc => lookup_of_run hpre hc h, fun hc => lookup_uncacheable hpre hc h, ?_, ?_, ?_⟩
  · exact (hfifo.ordered.sublist (List.sublist_append_left _ _)).sublist hsub
  · exact fun e he => (hfifo.received e (List.mem_append_left _ (hsub.subset he))).2
  · intro ev s' out hstep hnone
    cases hc : cacheable pre topic with
    | true => rw [(Owned.of_run h).lookup_step hpre hc hstep, hnone]; rfl
    | false =>
        rw [lookup_uncacheable hpre hc (h.snoc trivial hstep), lookup_uncacheable hpre hc h]

/-- One reading, decoded on client 0: the cache holds its value. -/
theorem cache_provenance_reading :
    ∃ log s, Run (mqttSystem fixtureEnv) (connectSchedule ++ readingSchedule) log s ∧
      (s.py.cache.lookup "N/testportal/battery/512/Soc").isSome = true := by
  have hrun : ((mqttSystem fixtureEnv).exec {} (connectSchedule ++ readingSchedule)).any
      (fun r => (cachedBy fixtureEnv (decodedOn fixtureEnv "N/testportal"
        "N/testportal/battery/512/Soc" r.2).getLast?).isSome) = true := by
    decide +kernel
  obtain ⟨⟨s, log⟩, hexec, hlast⟩ := Option.any_eq_true _ _ |>.mp hrun
  refine ⟨log, s, path_of_exec hexec, ?_⟩
  rw [(cache_provenance rfl (path_of_exec hexec) _).1 (by decide +kernel)]
  exact hlast

end McpVenusOs
