/-
  McpVenusOs.Mqtt.Accounting

  The books of `MQTTClient` over whole runs: where every received message went,
  and what the counters and ages of a disconnect report count from.

  A run is seen through `accountSystem`.  Messages are conserved: in the order
  of receipt each of them is decoded, or lost with a worker that dies, or
  discarded with the inbox of a retired transport, or still pending.  The
  counters of the session are an abstract book, kept by one rule an output
  (`Books.add`); over a run the book is what is counted since the last accepted
  connection.
-/

import McpVenusOs.Mqtt.Pending
import McpVenusOs.Mqtt.SocketEvents

namespace McpVenusOs

open Py Machine

/-! ## What a run shows -/

inductive AccountOut
  /-- `_on_connect` of the owned transport accepted the connection. -/
  | accepted (now : ℚ)
  | arrived (e : InboxEntry)
  /-- A message of the owned transport met a full inbox. -/
  | dropped (now : ℚ) (client : Nat) (msg : Message)
  /-- Its handler of `queue.Full` found the transport still owned. -/
  | overflow (now : ℚ) (client : Nat)
  /-- Whether the transport of the entry was current. -/
  | decoded (e : InboxEntry) (current : Bool)
  /-- A worker died with the entry in its hands. -/
  | lost (e : InboxEntry)
  /-- A fresh inbox replaced the one with the entry. -/
  | discarded (e : InboxEntry) (current : Bool)
  | pingreq (now : ℚ)
  | pingresp (now : ℚ)
  | reported (now : ℚ) (d : Diagnostics)

namespace AccountOut

def arrival : AccountOut → Option InboxEntry
  | .arrived e => some e
  | _ => none

/-- The entry that left the inbox and the worker, whichever way. -/
def departure : AccountOut → Option InboxEntry
  | .decoded e _ | .lost e | .discarded e _ => some e
  | _ => none

def isAccepted : AccountOut → Bool
  | .accepted _ => true
  | _ => false

def isOverflow : AccountOut → Bool
  | .overflow .. => true
  | _ => false

def isReport : AccountOut → Bool
  | .reported .. => true
  | _ => false

def acceptedAt : AccountOut → Option ℚ
  | .accepted now => some now
  | _ => none

/-- When the owned transport delivered a message, whether or not it fitted. -/
def deliveredAt : AccountOut → Option ℚ
  | .arrived e => some e.receivedAt
  | .dropped now _ _ => some now
  | _ => none

def pingreqAt : AccountOut → Option ℚ
  | .pingreq now => some now
  | _ => none

def pingrespAt : AccountOut → Option ℚ
  | .pingresp now => some now
  | _ => none

end AccountOut

/-- What an event shows by itself: a connection, a counted ping, a counted overflow, or
    a loss. -/
def observedBy (s : MqttState) : MqttEvent → List AccountOut
  | .callback t (.connect true) => if s.py.transport.current t then [.accepted s.now] else []
  | .callback t (.log message _) =>
    if s.py.transport.current t && s.py.session.connected then
      if message = "Sending PINGREQ" then [.pingreq s.now]
      else if message = "Received PINGRESP" then [.pingresp s.now]
      else []
    else []
  | .overflow t => if s.py.transport.current t then [.overflow s.now t] else []
  | .die tid => ((s.decoderPc tid).bind DecoderPc.held).toList.map .lost
  | .lifecycle _ =>
    if s.holderPc = some .freshInbox then
      (s.py.inbox.filterMap id).map fun e => .discarded e (s.py.transport.current e.client)
    else []
  | _ => []

def shownBy (now : ℚ) : MqttOut → Option AccountOut
  | .received _ e => some (.arrived e)
  | .dropped now t msg => some (.dropped now t msg)
  | .decoded e current => some (.decoded e current)
  | .disconnected _ d => some (.reported now d)
  | _ => none

/-- The client's machine, seen through its books. -/
def accountSystem (env : MqttEnv) : System MqttState MqttEvent AccountOut where
  init := (mqttSystem env).init
  step s e := ((mqttSystem env).step s e).map fun r =>
    (r.1, observedBy s e ++ r.2.filterMap (shownBy s.now))

namespace MqttState

variable {env : MqttEnv} {s s' : MqttState} {e : MqttEvent} {outs : List MqttOut}
  {out log : List AccountOut} {es : List MqttEvent}

/-! ## Conservation -/

theorem arrival_observedBy (s : MqttState) (e : MqttEvent) :
    (observedBy s e).filterMap AccountOut.arrival = [] := by
  rw [List.filterMap_eq_nil_iff]
  intro x hx
  unfold observedBy at hx
  split at hx
  · split at hx
    · rw [List.mem_singleton.mp hx]
      rfl
    · cases hx
  · split at hx
    · split at hx
      · rw [List.mem_singleton.mp hx]
        rfl
      · split at hx
        · rw [List.mem_singleton.mp hx]
          rfl
        · cases hx
    · cases hx
  · split at hx
    · rw [List.mem_singleton.mp hx]
      rfl
    · cases hx
  · obtain ⟨e, -, rfl⟩ := List.mem_map.mp hx
    rfl
  · split at hx
    · obtain ⟨e, -, rfl⟩ := List.mem_map.mp hx
      rfl
    · cases hx
  · cases hx

/-- Outputs that show no message neither arrive nor depart. -/
theorem shownBy_silent (now : ℚ) (h : ∀ x ∈ outs, ¬ x.ofMessage = true) :
    (outs.filterMap (shownBy now)).filterMap AccountOut.arrival = [] ∧
      (outs.filterMap (shownBy now)).filterMap AccountOut.departure = [] := by
  have hnone : ∀ f : AccountOut → Option InboxEntry, (∀ now d, f (.reported now d) = none) →
      (outs.filterMap (shownBy now)).filterMap f = [] := by
    intro f hf
    rw [List.filterMap_filterMap, List.filterMap_eq_nil_iff]
    intro x hx
    have := h x hx
    cases x <;> simp_all [MqttOut.ofMessage, shownBy]
  exact ⟨hnone _ fun _ _ => rfl, hnone _ fun _ _ => rfl⟩

/-- A step that leaves the pending messages loses none. -/
theorem Owned.observedBy_quiet (h : Owned s) (hstep : s.step env e = some (s', outs))
    (hpending : s'.pending = s.pending) :
    (observedBy s e).filterMap AccountOut.departure = [] := by
  unfold observedBy
  split
  · split <;> rfl
  · split
    · split
      · rfl
      · split <;> rfl
    · rfl
  · split <;> rfl
  -- a dying worker takes what it holds from the pending messages
  · rename_i tid
    cases hheld : (s.decoderPc tid).bind DecoderPc.held with
    | none => rfl
    | some entry =>
      obtain ⟨pc, hpc, hentry⟩ := Option.bind_eq_some_iff.mp hheld
      obtain ⟨rfl, -⟩ := Prod.mk.inj (Option.some.inj hstep)
      have hbefore := h.held_of_pc hpc
      have hafter : (s.live.filter (·.tid ≠ tid)).filterMap Thread.held = [] :=
        h.held_advance hpc none
      rw [hentry] at hbefore
      have hlength := congrArg List.length hpending
      simp only [pending, hbefore, hafter, List.length_append, Option.toList_some,
        List.length_cons, List.length_nil] at hlength
      omega
  -- a fresh inbox: nothing was in the old one
  · split
    · rename_i hpc
      obtain ⟨⟨task, pc⟩, hlock, hstep⟩ := Option.bind_eq_some_iff.mp hstep
      obtain rfl : pc = .freshInbox := by
        rw [holderPc, hlock, Option.map_some, Option.some.injEq] at hpc
        exact hpc
      have hlive := h.held_freshInbox hlock rfl
      have hinbox : s'.pending = [] := by
        obtain ⟨rfl, -⟩ := Prod.mk.inj (Option.some.inj hstep)
        show s.live.filterMap Thread.held ++ [] = []
        rw [hlive]
        rfl
      rw [hinbox, pending, hlive, List.filterMap_nil, List.nil_append] at hpending
      rw [← hpending]
      rfl
    · rfl
  · rfl

/-- One step takes from the front of the pending messages what departs, and adds at
    the end what arrives. -/
theorem Owned.step_conserves (h : Owned s) (hstep : (accountSystem env).step s e = some (s', out)) :
    s.pending ++ out.filterMap AccountOut.arrival =
      out.filterMap AccountOut.departure ++ s'.pending := by
  obtain ⟨⟨s₁, outs⟩, hmqtt, heq⟩ := Option.map_eq_some_iff.mp hstep
  obtain ⟨rfl, rfl⟩ := Prod.mk.inj heq
  rw [List.filterMap_append, List.filterMap_append, arrival_observedBy, List.nil_append]
  cases h.step_message hmqtt with
  | quiet hpending _ _ hsilent =>
    obtain ⟨harrival, hdeparture⟩ := shownBy_silent s.now hsilent
    rw [harrival, hdeparture, h.observedBy_quiet hmqtt hpending, hpending]
    simp
  | received _ _ hpending _ _ =>
    rw [hpending]
    rfl
  | dropped _ _ hpending _ _ =>
    rw [hpending]
    show s.pending ++ [] = [] ++ s.pending
    simp
  | decoded _ hpending _ _ _ =>
    rw [hpending]
    simp [observedBy, shownBy, AccountOut.arrival, AccountOut.departure]
  | died hpc hpending _ _ =>
    rw [hpending]
    simp [observedBy, hpc, DecoderPc.held, AccountOut.departure]
  | @discarded _ holder _ hlock hpc hpending hbefore _ _ hsilent =>
    obtain ⟨harrival, hdeparture⟩ := shownBy_silent s.now hsilent
    have hholder : s.holderPc = some .freshInbox := by
      rw [holderPc, hlock, Option.map_some, hpc]
    rw [harrival, hdeparture, hpending, hbefore, observedBy, if_pos hholder, List.filterMap_map]
    simp [Function.comp_def, AccountOut.departure]

/-- What arrives in one step gets the serial of the state. -/
theorem Owned.step_arrival (h : Owned s) (hstep : (accountSystem env).step s e = some (s', out)) :
    (out.filterMap AccountOut.arrival = [] ∧ s.serial ≤ s'.serial) ∨
      ∃ entry, out.filterMap AccountOut.arrival = [entry] ∧ entry.serial = s.serial ∧
        s'.serial = s.serial + 1 ∧ s.py.transport.client.isSome := by
  obtain ⟨⟨s₁, outs⟩, hmqtt, heq⟩ := Option.map_eq_some_iff.mp hstep
  obtain ⟨rfl, rfl⟩ := Prod.mk.inj heq
  rw [List.filterMap_append, arrival_observedBy, List.nil_append]
  cases h.step_message hmqtt with
  | quiet _ _ hserial hsilent => exact .inl ⟨(shownBy_silent _ hsilent).1, hserial.ge⟩
  | received hcurrent _ _ _ hserial =>
    refine .inr ⟨_, rfl, rfl, hserial, ?_⟩
    rw [Transport.current, Bool.and_eq_true, decide_eq_true_eq] at hcurrent
    rw [hcurrent.1]
    rfl
  | dropped _ _ _ _ hserial => exact .inl ⟨rfl, hserial ▸ Nat.le_succ _⟩
  | decoded _ _ _ hserial _ => exact .inl ⟨rfl, hserial.ge⟩
  | died _ _ _ hserial => exact .inl ⟨rfl, hserial.ge⟩
  | discarded _ _ _ _ _ hserial hsilent => exact .inl ⟨(shownBy_silent _ hsilent).1, hserial.ge⟩

/-! ## What is in flight without a transport -/

/-- Between the clearing of the client object and the fresh inbox messages may be
    left; at any other time a client without a transport has none. -/
def NonePending (s : MqttState) : Prop :=
  s.py.transport.client = none → s.holderPc ≠ some .freshInbox → s.pending = []

/-- Without an arrival what was drained stays drained. -/
theorem Owned.pending_nil (h : Owned s) (hstep : (accountSystem env).step s e = some (s', out))
    (hclient : s.py.transport.client = none) (hpending : s.pending = []) : s'.pending = [] := by
  have hconserve := h.step_conserves hstep
  rcases h.step_arrival hstep with ⟨harrival, -⟩ | ⟨_, -, -, -, hsome⟩
  · rw [hpending, harrival] at hconserve
    exact (List.append_eq_nil_iff.mp hconserve.symm).2
  · rw [hclient] at hsome
    cases hsome

/-- A statement under the lock clears the client object just before the fresh inbox. -/
theorem lifecycleStep_client {holder : Holder} {outcome : CallOutcome}
    (hstep : s.lifecycleStep holder outcome = some (s', outs)) :
    s'.py.transport.client = s.py.transport.client ∨ s'.holderPc = some .freshInbox ∨
      s'.py.transport.client.isSome := by
  cases lifecycleStep_statement hstep with
  | retire _ _ _ => exact .inr (.inl rfl)
  | startTransport _ => exact .inr (.inr rfl)
  | _ => exact .inl rfl

theorem Owned.drained_lifecycle {holder : Holder} {outcome : CallOutcome}
    (h : Owned s) (hlock : s.lock = some holder) (hdrained : s.NonePending)
    (hpending : s.py.transport.client = none → s.pending = [] → s'.pending = [])
    (hstep : s.lifecycleStep holder outcome = some (s', outs)) : s'.NonePending := by
  intro hnone hpc
  by_cases hfresh : holder.pc = .freshInbox
  -- the inbox is new, and no worker is alive
  · obtain ⟨task, pc⟩ := holder
    obtain rfl : pc = .freshInbox := hfresh
    have hlive := h.held_freshInbox hlock rfl
    obtain ⟨rfl, -⟩ := Prod.mk.inj (Option.some.inj hstep)
    show s.live.filterMap Thread.held ++ [] = []
    rw [hlive]
    rfl
  · rcases lifecycleStep_client hstep with hsame | hretired | hsome
    · rw [hsame] at hnone
      refine hpending hnone (hdrained hnone ?_)
      rw [holderPc, hlock]
      simpa using hfresh
    · exact absurd hretired hpc
    · rw [hnone] at hsome
      cases hsome

theorem Owned.step_drained (h : Owned s) (hdrained : s.NonePending)
    (hstep : (accountSystem env).step s e = some (s', out)) : s'.NonePending := by
  have hpending : s.py.transport.client = none → s.pending = [] → s'.pending = [] :=
    h.pending_nil hstep
  obtain ⟨⟨s₁, outs⟩, hmqtt, heq⟩ := Option.map_eq_some_iff.mp hstep
  obtain ⟨rfl, rfl⟩ := Prod.mk.inj heq
  have hkeep : s₁.py.transport = s.py.transport → s₁.lock = s.lock → s₁.NonePending := by
    intro htransport hlock hnone hpc
    rw [htransport] at hnone
    rw [holderPc, hlock] at hpc
    exact hpending hnone (hdrained hnone hpc)
  rcases step_cases hmqtt with ⟨hidle, -⟩ | ⟨t, msg, session, rfl, -, -, -, rfl, -⟩ |
    ⟨t, msg, session, rfl, -, -, -, rfl, -⟩ | ⟨tid, rfl, rfl, -⟩ |
    ⟨tid, accepted, pc, rfl, -, rfl, -⟩ | ⟨task, -, hfree, rfl, -⟩ |
    ⟨outcome, holder, rfl, hlock, hlifecycle⟩ | ⟨holder, -, hlock, hjoining, rfl, -⟩
  · exact hkeep hidle.transport hidle.lock
  · exact hkeep rfl rfl
  · exact hkeep rfl rfl
  · exact hkeep rfl rfl
  · exact hkeep (decoderStep_frame env s.now accepted s.py pc).1 rfl
  -- the lock was free
  · intro hnone _
    refine hpending hnone (hdrained hnone ?_)
    rw [holderPc, hfree]
    simp
  · exact h.drained_lifecycle hlock hdrained hpending hlifecycle
  · intro hnone _
    refine hpending hnone (hdrained hnone ?_)
    rw [holderPc, hlock, Option.map_some, hjoining]
    decide

/-! ## The bound of the inbox -/

theorem decoderStep_inbox (env : MqttEnv) (now : ℚ) (accepted : Bool) (c : MqttClient)
    (pc : DecoderPc) :
    (decoderStep env now accepted c pc).2.1.inbox.length ≤ c.inbox.length := by
  rcases decoderStep_cases env now accepted c pc with ⟨feed, hc, -⟩ |
    ⟨processed, rest, -, hin, hc⟩ | ⟨processed, entry, rest, -, hin, hc⟩ |
    ⟨processed, entry, pc', -, -, hc⟩
  · rw [hc]
  · rw [hc, hin]
    exact Nat.le_succ _
  · rw [hc, hin]
    exact Nat.le_succ _
  · rw [hc]
    obtain ⟨cache, seen, hm⟩ := c.handleMessage_frame env entry
    rw [hm]

/-- The sentinel of a shutdown is put only where it fits. -/
theorem lifecycleStep_inbox {holder : Holder} {outcome : CallOutcome}
    (hstep : s.lifecycleStep holder outcome = some (s', outs))
    (hbound : s.py.inbox.length ≤ inboxMaxsize) : s'.py.inbox.length ≤ inboxMaxsize := by
  by_cases hsentinel : holder.pc = .stopSentinel
  · obtain ⟨task, pc⟩ := holder
    obtain rfl : pc = .stopSentinel := hsentinel
    obtain ⟨rfl, -⟩ := Prod.mk.inj (Option.some.inj hstep)
    show (if s.py.inbox.length < inboxMaxsize then s.py.inbox ++ [none]
      else s.py.inbox).length ≤ inboxMaxsize
    split
    · rename_i hroom
      rw [List.length_append]
      exact hroom
    · exact hbound
  · cases lifecycleStep_statement hstep with
    | stopSentinel hpc _ => exact absurd hpc hsentinel
    | freshInbox _ => exact Nat.zero_le _
    | _ => exact hbound

theorem step_inbox (hstep : s.step env e = some (s', outs))
    (hbound : s.py.inbox.length ≤ inboxMaxsize) : s'.py.inbox.length ≤ inboxMaxsize := by
  rcases step_cases hstep with ⟨hidle, -⟩ | ⟨t, msg, session, rfl, -, hroom, -, rfl, -⟩ |
    ⟨t, msg, session, rfl, -, -, -, rfl, -⟩ | ⟨tid, rfl, rfl, -⟩ |
    ⟨tid, accepted, pc, rfl, -, rfl, -⟩ | ⟨task, -, -, rfl, -⟩ |
    ⟨outcome, holder, rfl, -, hlifecycle⟩ | ⟨holder, -, -, -, rfl, -⟩
  · rw [hidle.inbox]
    exact hbound
  · show (s.py.inbox ++ [_]).length ≤ inboxMaxsize
    rw [List.length_append]
    exact hroom
  · exact hbound
  · exact hbound
  · exact (decoderStep_inbox env s.now accepted s.py pc).trans hbound
  · exact hbound
  · exact lifecycleStep_inbox hlifecycle hbound
  · exact hbound

/-! ## Where every message went -/

/-- What the books say of the messages. -/
structure Accounted (log : List AccountOut) (s : MqttState) : Prop where
  owned : Owned s
  conserved : log.filterMap AccountOut.arrival = log.filterMap AccountOut.departure ++ s.pending
  ordered : (log.filterMap AccountOut.arrival).Pairwise fun a b => a.serial < b.serial
  below : ∀ entry ∈ log.filterMap AccountOut.arrival, entry.serial < s.serial
  bounded : s.py.inbox.length ≤ inboxMaxsize
  drained : s.NonePending
  retired : ∀ entry current, .discarded entry current ∈ log → current = false

theorem Owned.discarded_retired (h : Owned s)
    (hstep : (accountSystem env).step s e = some (s', out)) :
    ∀ entry current, .discarded entry current ∈ out → current = false := by
  obtain ⟨⟨s₁, outs⟩, hmqtt, heq⟩ := Option.map_eq_some_iff.mp hstep
  obtain ⟨rfl, rfl⟩ := Prod.mk.inj heq
  intro entry current hmem
  rcases List.mem_append.mp hmem with hmem | hmem
  · unfold observedBy at hmem
    split at hmem
    · split at hmem <;> simp at hmem
    · split at hmem
      · split at hmem
        · simp at hmem
        · split at hmem <;> simp at hmem
      · simp at hmem
    · split at hmem <;> simp at hmem
    · simp at hmem
    · split at hmem
      · rename_i hpc
        obtain ⟨holder, hlock, hholder⟩ := Option.map_eq_some_iff.mp hpc
        have hinv := h.pc holder hlock
        rw [hholder] at hinv
        obtain ⟨entry', -, heq⟩ := List.mem_map.mp hmem
        obtain ⟨rfl, rfl⟩ := AccountOut.discarded.inj heq
        rw [Transport.current, hinv.2]
        rfl
      · simp at hmem
    · simp at hmem
  · obtain ⟨x, -, hx⟩ := List.mem_filterMap.mp hmem
    cases x <;> simp [shownBy] at hx

theorem Accounted.step (h : Accounted log s)
    (hstep : (accountSystem env).step s e = some (s', out)) : Accounted (log ++ out) s' := by
  obtain ⟨⟨s₁, outs⟩, hmqtt, heq⟩ := Option.map_eq_some_iff.mp hstep
  have hs' : s₁ = s' := (Prod.mk.inj heq).1
  subst hs'
  have hconserve := h.owned.step_conserves hstep
  have harrival : (∀ entry ∈ out.filterMap AccountOut.arrival,
      entry.serial = s.serial ∧ s.serial < s₁.serial) ∧
        (out.filterMap AccountOut.arrival).length ≤ 1 ∧ s.serial ≤ s₁.serial := by
    rcases h.owned.step_arrival hstep with ⟨hnone, hle⟩ | ⟨entry, hone, hserial, hnext, -⟩
    · rw [hnone]
      exact ⟨by simp, Nat.zero_le _, hle⟩
    · rw [hone, hnext]
      refine ⟨?_, le_rfl, Nat.le_succ _⟩
      intro x hx
      rw [List.mem_singleton.mp hx]
      exact ⟨hserial, Nat.lt_succ_self _⟩
  obtain ⟨hserial, hone, hle⟩ := harrival
  refine ⟨h.owned.step hmqtt, ?_, ?_, ?_, step_inbox hmqtt h.bounded,
    h.owned.step_drained h.drained hstep, ?_⟩
  · rw [List.filterMap_append, List.filterMap_append, h.conserved, List.append_assoc, hconserve,
      List.append_assoc]
  · rw [List.filterMap_append, List.pairwise_append]
    refine ⟨h.ordered, ?_, fun a ha b hb => ?_⟩
    · cases hout : out.filterMap AccountOut.arrival with
      | nil => exact .nil
      | cons entry rest =>
        rw [hout, List.length_cons] at hone
        obtain rfl : rest = [] := List.eq_nil_of_length_eq_zero (by omega)
        exact List.pairwise_singleton _ _
    · rw [(hserial b hb).1]
      exact h.below a ha
  · intro entry hentry
    rw [List.filterMap_append, List.mem_append] at hentry
    rcases hentry with hentry | hentry
    · exact (h.below entry hentry).trans_le hle
    · have hnew := hserial entry hentry
      omega
  · intro entry current hmem
    rcases List.mem_append.mp hmem with hmem | hmem
    · exact h.retired entry current hmem
    · exact h.owned.discarded_retired hstep entry current hmem

theorem Accounted.of_run (h : Run (accountSystem env) es log s) : Accounted log s := by
  refine h.induct (P := Accounted) ?_ fun log s e s' out hlog _ hstep => hlog.step hstep
  exact ⟨Owned.init, rfl, .nil, by simp, Nat.zero_le _, fun _ _ => rfl, by simp⟩

/-- Three messages: one is decoded, the worker dies with the next, and `disconnect()`
    discards the last. -/
def accountSchedule : List MqttEvent :=
  connectSchedule ++
    [.callback 0 (.connect true), .tick 2, .callback 0 (.log "Sending PINGREQ" .null),
      .callback 0 (.message ⟨"N/testportal/battery/512/Soc", [55], false⟩),
      .callback 0 (.message ⟨"N/testportal/battery/512/Soc", [56], false⟩),
      .callback 0 (.message ⟨"N/testportal/battery/512/Soc", [57], false⟩)] ++
    List.replicate 10 (.decoder 1 true) ++
    [.tick 1, .callback 0 .disconnect, .die 1, .die 2, .acquire .disconnect] ++
    List.replicate 12 (.lifecycle .ok)

theorem connectCalls_unshown (now : ℚ) (explicit : List String) (t : Nat) :
    (connectCalls env explicit t).filterMap (shownBy now) = [] := by
  rw [List.filterMap_eq_nil_iff]
  intro x hx
  rw [connectCalls] at hx
  split at hx
  · rw [List.mem_singleton.mp hx]
    rfl
  · rcases List.mem_append.mp hx with hx | hx
    · obtain ⟨p, -, rfl⟩ := List.mem_map.mp hx
      rfl
    · rw [List.mem_singleton.mp hx]
      rfl

/-- A new connection shows itself and none of its broker calls. -/
theorem accountSystem_connect (s : MqttState) (t : Nat) :
    (accountSystem env).step s (.callback t (.connect true)) =
      some ((s.callbackStep env t (.connect true)).1,
        observedBy s (.callback t (.connect true))) := by
  have hunshown : (s.callbackStep env t (.connect true)).2.filterMap (shownBy s.now) = [] := by
    simp only [callbackStep, onConnect]
    split
    · rfl
    · exact connectCalls_unshown _ _ _
  show some (_, _ ++ (s.callbackStep env t (.connect true)).2.filterMap (shownBy s.now)) = _
  rw [hunshown, List.append_nil]

theorem account_run : ∃ log s, Run (accountSystem fixtureEnv) accountSchedule log s ∧
    (log.filterMap AccountOut.arrival).map (·.serial) = [0, 1, 2] ∧
    s.py.transport.client = none ∧ s.holderPc = none ∧ log.any AccountOut.isReport = true := by
  -- the filters that the new connection subscribes to are not computed
  have hrun : ((accountSystem fixtureEnv).exec (accountSystem fixtureEnv).init connectSchedule).any
      (fun r => ((accountSystem fixtureEnv).exec
          (r.1.callbackStep fixtureEnv 0 (.connect true)).1 (accountSchedule.drop 8)).any fun r' =>
        let log := r.2 ++ (observedBy r.1 (.callback 0 (.connect true)) ++ r'.2)
        (log.filterMap AccountOut.arrival).map (·.serial) = [0, 1, 2] &&
          r'.1.py.transport.client = none && r'.1.holderPc = none &&
          log.any AccountOut.isReport) = true := by
    decide +kernel
  simp only [Option.any_eq_true, Bool.and_eq_true, decide_eq_true_eq] at hrun
  obtain ⟨⟨s₀, log₀⟩, hconnect, ⟨s, log⟩, hrest, hfinal⟩ := hrun
  have hpath := (path_of_exec hconnect).trans
    ((Path.single trivial (accountSystem_connect s₀ 0)).trans (path_of_exec hrest))
  exact ⟨_, s, hpath, hfinal.1.1.1, hfinal.1.1.2, hfinal.1.2, hfinal.2⟩

/-- Over every run: the messages received are, in this order, those that were decoded,
    lost with a dying worker or discarded with an old inbox, and those still pending;
    each is received once, and none of a current transport is ever discarded.  The
    inbox keeps its bound, and without a transport nothing is pending, but for the one
    statement of a shutdown between `self.client = None` and the fresh inbox, when both
    threads are dead. -/
theorem messages_accounted (h : Run (accountSystem env) es log s) :
    log.filterMap AccountOut.arrival = log.filterMap AccountOut.departure ++ s.pending ∧
      (log.filterMap AccountOut.arrival).Pairwise (fun a b => a.serial < b.serial) ∧
      (∀ entry current, .discarded entry current ∈ log → current = false) ∧
      s.py.inbox.length ≤ inboxMaxsize ∧
      (s.py.transport.client = none → s.holderPc ≠ some .freshInbox → s.pending = []) := by
  have haccounted := Accounted.of_run h
  exact ⟨haccounted.conserved, haccounted.ordered, haccounted.retired, haccounted.bounded,
    haccounted.drained⟩

theorem messages_accounted_shutdown : ∃ log s,
    Run (accountSystem fixtureEnv) accountSchedule log s ∧
      (log.filterMap AccountOut.departure).map (·.serial) = [0, 1, 2] := by
  obtain ⟨log, s, hrun, harrival, hclient, hpc, -⟩ := account_run
  obtain ⟨hconserved, -, -, -, hdrained⟩ := messages_accounted hrun
  refine ⟨log, s, hrun, ?_⟩
  rw [hconserved, hdrained hclient (by rw [hpc]; decide), List.append_nil] at harrival
  exact harrival

end MqttState

/-! ## The book of a session -/

/-- What a connection's counters and times say. -/
structure Books where
  epoch : Nat := 0
  started : Option ℚ := none
  delivered : Option ℚ := none
  pingreq : Option ℚ := none
  pingresp : Option ℚ := none
  pingreqs : Nat := 0
  pingresps : Nat := 0
  reports : Nat := 0
  overflows : Nat := 0

/-- One entry of the book: a new connection starts a new page. -/
def Books.add (b : Books) : AccountOut → Books
  | .accepted now => { epoch := b.epoch + 1, started := some now }
  | .arrived e => { b with delivered := some e.receivedAt }
  | .dropped now _ _ => { b with delivered := some now }
  | .overflow _ _ => { b with overflows := b.overflows + 1 }
  | .pingreq now => { b with pingreq := some now, pingreqs := b.pingreqs + 1 }
  | .pingresp now => { b with pingresp := some now, pingresps := b.pingresps + 1 }
  | .reported _ _ => { b with reports := b.reports + 1 }
  | .decoded _ _ | .lost _ | .discarded _ _ => b

def booksOf (log : List AccountOut) : Books := log.foldl Books.add {}

/-- What was seen since the last accepted connection. -/
def sinceAccepted (log : List AccountOut) : List AccountOut := log.rtakeWhile (!·.isAccepted)

theorem booksOf_snoc (log : List AccountOut) (x : AccountOut) :
    booksOf (log ++ [x]) = (booksOf log).add x := List.foldl_concat ..

theorem sinceAccepted_snoc (log : List AccountOut) (x : AccountOut) :
    sinceAccepted (log ++ [x]) = if x.isAccepted then [] else sinceAccepted log ++ [x] := by
  rw [sinceAccepted, List.rtakeWhile_concat]
  cases x.isAccepted <;> rfl

/-- The book is what is counted since the last accepted connection. -/
theorem booksOf_eq (log : List AccountOut) : booksOf log =
    { epoch := log.countP AccountOut.isAccepted
      started := (log.filterMap AccountOut.acceptedAt).getLast?
      delivered := ((sinceAccepted log).filterMap AccountOut.deliveredAt).getLast?
      pingreq := ((sinceAccepted log).filterMap AccountOut.pingreqAt).getLast?
      pingresp := ((sinceAccepted log).filterMap AccountOut.pingrespAt).getLast?
      pingreqs := ((sinceAccepted log).filterMap AccountOut.pingreqAt).length
      pingresps := ((sinceAccepted log).filterMap AccountOut.pingrespAt).length
      reports := (sinceAccepted log).countP AccountOut.isReport
      overflows := (sinceAccepted log).countP AccountOut.isOverflow } := by
  induction log using List.reverseRecOn with
  | nil => rfl
  | append_singleton log x ih =>
    rw [booksOf_snoc, ih, sinceAccepted_snoc]
    cases x <;>
      simp [Books.add, AccountOut.isAccepted, AccountOut.acceptedAt, AccountOut.deliveredAt,
        AccountOut.pingreqAt, AccountOut.pingrespAt, AccountOut.isReport, AccountOut.isOverflow]

/-- The page of the session record. -/
def Session.books (s : Session) : Books where
  epoch := s.connectionEpoch
  started := s.sessionStartedAt
  delivered := s.lastReceivedAt
  pingreq := s.lastPingreqAt
  pingresp := s.lastPingrespAt
  pingreqs := s.pingreqAttempts
  pingresps := s.pingrespReceived
  reports := s.disconnectCallbacks
  overflows := s.inboxDropped

/-- A report that says what the book says, itself counted. -/
structure Diagnostics.Agrees (d : Diagnostics) (now : ℚ) (b : Books) : Prop where
  epoch : d.connectionEpoch = b.epoch
  callback : d.disconnectCallback = b.reports + 1
  duplicate : d.duplicateInEpoch = true ↔ 0 < b.reports
  sessionAge : d.sessionAge = b.started.map (age now)
  notificationAge : d.notificationAge = b.delivered.map (age now)
  pingreqAge : d.pingreqAttemptAge = b.pingreq.map (age now)
  pingrespAge : d.pingrespAge = b.pingresp.map (age now)
  pingreqs : d.pingreqAttempts = b.pingreqs
  pingresps : d.pingrespReceived = b.pingresps
  overflows : d.inboxDropped = b.overflows

/-- The outputs that no book takes. -/
def AccountOut.unbooked : AccountOut → Bool
  | .decoded .. | .lost _ | .discarded .. => true
  | _ => false

namespace MqttState

variable {env : MqttEnv} {s s' : MqttState} {e : MqttEvent} {outs : List MqttOut}
  {out log : List AccountOut} {es : List MqttEvent}

/-- What one step writes in the book, and what it reports of it. -/
structure Booked (s s' : MqttState) (out : List AccountOut) : Prop where
  books : s'.py.session.books = out.foldl Books.add s.py.session.books
  agrees : ∀ now d, .reported now d ∈ out →
    out = [.reported now d] ∧ d.Agrees now s.py.session.books

theorem Booked.of_unbooked (hbooks : s'.py.session.books = s.py.session.books)
    (hout : ∀ x ∈ out, x.unbooked = true) : Booked s s' out := by
  refine ⟨?_, fun now d hd => absurd (hout _ hd) (by simp [AccountOut.unbooked])⟩
  have hfold : ∀ b : Books, out.foldl Books.add b = b := by
    intro b
    induction out with
    | nil => rfl
    | cons x rest ih =>
      have hadd : b.add x = b := by
        have hx := hout x List.mem_cons_self
        cases x <;> first | rfl | simp [AccountOut.unbooked] at hx
      rw [List.foldl_cons, hadd]
      exact ih fun y hy => hout y (List.mem_cons_of_mem _ hy)
  rw [hfold, hbooks]

/-- A step whose outputs show no delivery and no report. -/
theorem Booked.of_idle (hbooks : s'.py.session.books = s.py.session.books)
    (hobserved : ∀ x ∈ observedBy s e, x.unbooked = true)
    (hsilent : ∀ x ∈ outs, ∀ y, shownBy s.now x = some y → y.unbooked = true) :
    Booked s s' (observedBy s e ++ outs.filterMap (shownBy s.now)) := by
  refine .of_unbooked hbooks fun x hx => ?_
  rcases List.mem_append.mp hx with hx | hx
  · exact hobserved x hx
  · obtain ⟨y, hy, hshown⟩ := List.mem_filterMap.mp hx
    exact hsilent y hy x hshown

theorem callback_booked (env : MqttEnv) (s : MqttState) (t : Nat) (cb : PahoCallback) :
    Booked s (s.callbackStep env t cb).1 (observedBy s (.callback t cb) ++
      (s.callbackStep env t cb).2.filterMap (shownBy s.now)) := by
  cases cb with
  | connect accepted =>
    simp only [callbackStep, onConnect]
    cases hcurrent : s.py.transport.current t with
    | false => cases accepted <;> exact .of_unbooked rfl (by simp [observedBy, hcurrent])
    | true =>
      cases accepted with
      | false => exact .of_unbooked rfl (by simp [observedBy])
      | true =>
        simp only [observedBy, hcurrent, Bool.not_true, Bool.false_eq_true, if_false, if_true,
          connectCalls_unshown]
        exact ⟨rfl, by simp⟩
  | disconnect =>
    simp only [callbackStep, onDisconnect]
    cases hcurrent : s.py.transport.current t with
    | false => exact .of_unbooked rfl (by simp [observedBy])
    | true =>
      refine ⟨rfl, fun now d hd => ?_⟩
      simp only [observedBy, Bool.not_true, Bool.false_eq_true, if_false, List.nil_append,
        List.filterMap_cons, shownBy, List.filterMap_nil, List.mem_singleton,
        AccountOut.reported.injEq] at hd
      obtain ⟨rfl, rfl⟩ := hd
      refine ⟨rfl, rfl, rfl, ?_, rfl, rfl, rfl, rfl, rfl, rfl, rfl⟩
      show decide (1 < s.py.session.disconnectCallbacks + 1) = true ↔
        0 < s.py.session.disconnectCallbacks
      rw [decide_eq_true_eq]
      omega
  | log message kernel =>
    simp only [callbackStep, onLog, observedBy, List.filterMap_nil, List.append_nil]
    by_cases hping : message = "Sending PINGREQ" ∨ message = "Received PINGRESP"
    · rw [if_neg (by rintro ⟨h₁, h₂⟩; exact hping.elim h₁ h₂)]
      cases hcurrent : s.py.transport.current t && s.py.session.connected with
      | false =>
        rw [if_pos (by rw [← Bool.not_and, hcurrent]; rfl)]
        exact .of_unbooked rfl (by simp)
      | true =>
        rw [if_neg (by rw [← Bool.not_and, hcurrent]; decide), if_pos rfl]
        by_cases hreq : message = "Sending PINGREQ"
        · rw [if_pos hreq, if_pos hreq]
          exact ⟨rfl, by simp⟩
        · rw [if_neg hreq, if_neg hreq, if_pos (hping.resolve_left hreq)]
          exact ⟨rfl, by simp⟩
    · rw [not_or] at hping
      rw [if_pos hping, if_neg hping.1, if_neg hping.2]
      exact .of_unbooked rfl (by simp)
  | socketOpen sock clientSocket kernel =>
    simp only [callbackStep, onSocketOpen]
    split <;> exact .of_unbooked rfl (by simp [observedBy])
  | socketUnregisterWrite sock clientSocket wantWrite kernel =>
    simp only [callbackStep, onSocketUnregisterWrite]
    split <;> exact .of_unbooked rfl (by simp [observedBy])
  | socketClose sock kernel =>
    simp only [callbackStep, onSocketClose]
    split <;> exact .of_unbooked rfl (by simp [observedBy])
  | message msg =>
    simp only [callbackStep, onMessage]
    cases hcurrent : s.py.transport.current t with
    | false => exact .of_unbooked rfl (by simp [observedBy])
    | true =>
      simp only [Bool.not_true, Bool.false_eq_true, if_false]
      by_cases hroom : s.py.inbox.length < inboxMaxsize
      · rw [if_pos hroom]
        exact ⟨rfl, by simp [observedBy, shownBy]⟩
      · rw [if_neg hroom]
        exact ⟨rfl, by simp [observedBy, shownBy]⟩

/-- The handler of `queue.Full` writes what it counts. -/
theorem overflow_booked (s : MqttState) (t : Nat) (overflowing : List Nat) :
    Booked s { s with py := onQueueFull s.now t s.py, overflowing := overflowing }
      (observedBy s (.overflow t)) := by
  simp only [observedBy, onQueueFull]
  split
  · exact ⟨rfl, by simp⟩
  · exact .of_unbooked rfl (by simp)

theorem brokerCall_unshown {now : ℚ} (c : MqttClient) (pattern : String)
    (call : Nat → String → MqttOut) (hcall : ∀ t p, shownBy now (call t p) = none) :
    ∀ x ∈ brokerCall env c pattern call, ∀ y, shownBy now x = some y → y.unbooked = true := by
  intro x hx y hy
  have hnone : shownBy now x = none := by
    rw [brokerCall] at hx
    split at hx
    · split at hx
      · cases hx
      · rw [List.mem_singleton.mp hx]
        exact hcall _ _
    · rw [List.mem_singleton.mp hx]
      rfl
    · cases hx
  rw [hnone] at hy
  cases hy

/-- A worker's step shows a decoded message at most. -/
theorem decoderStep_unbooked (env : MqttEnv) (now : ℚ) (accepted : Bool) (c : MqttClient)
    (pc : DecoderPc) : ∀ x ∈ (decoderStep env now accepted c pc).2.2, ∀ y, shownBy now x = some y →
      y.unbooked = true := by
  obtain ⟨-, hreported⟩ := decoderStep_session env now accepted c pc
  have hreport : ∀ t d, .disconnected t d ∉ (decoderStep env now accepted c pc).2.2 :=
    fun t d hmem => absurd (List.filterMap_eq_nil_iff.mp hreported _ hmem) (by simp [reportedBy])
  intro x hx y hy
  rcases decoderStep_cases env now accepted c pc with ⟨-, -, -, -, hout⟩ | ⟨_, _, -, -, hc⟩ |
    ⟨_, _, _, -, -, hc⟩ | ⟨_, entry, _, -, -, hc⟩
  · have houtward := hout x hx
    cases x with
    | received | dropped | decoded => cases houtward
    | disconnected t d => exact absurd hx (hreport t d)
    | _ => cases hy
  · rw [hc] at hx
    cases hx
  · rw [hc] at hx
    cases hx
  · rw [hc] at hx
    rw [List.mem_singleton.mp hx] at hy
    cases hy
    rfl

theorem lifecycleStep_unbooked {holder : Holder} {outcome : CallOutcome}
    (hstep : s.lifecycleStep holder outcome = some (s', outs)) :
    s'.py.session.books = s.py.session.books ∧
      ∀ x ∈ outs, ∀ y, shownBy s.now x = some y → y.unbooked = true := by
  refine ⟨?_, fun x hx y hy => ?_⟩
  · rcases (lifecycleStep_session hstep).1 with h | h | h <;> rw [h] <;> rfl
  · cases lifecycleStep_statement hstep <;> simp at hx <;> subst hx <;> cases hy

/-- What a step of the machine writes in the book. -/
theorem step_booked (hstep : (accountSystem env).step s e = some (s', out)) : Booked s s' out := by
  obtain ⟨⟨s₁, outs⟩, hmqtt, heq⟩ := Option.map_eq_some_iff.mp hstep
  obtain ⟨rfl, rfl⟩ := Prod.mk.inj heq
  cases e with
  | callback t cb =>
    obtain ⟨rfl, rfl⟩ := Prod.mk.inj (Option.some.inj hmqtt)
    exact callback_booked env s t cb
  | overflow t =>
    simp only [mqttSystem, step] at hmqtt
    split at hmqtt
    · obtain ⟨rfl, rfl⟩ := Prod.mk.inj (Option.some.inj hmqtt)
      rw [List.filterMap_nil, List.append_nil]
      exact overflow_booked s t _
    · cases hmqtt
  | lifecycle outcome =>
    obtain ⟨holder, -, hlifecycle⟩ := Option.bind_eq_some_iff.mp hmqtt
    obtain ⟨hbooks, hout⟩ := lifecycleStep_unbooked hlifecycle
    refine .of_idle hbooks (fun x hx => ?_) hout
    simp only [observedBy] at hx
    split at hx
    · obtain ⟨entry, -, rfl⟩ := List.mem_map.mp hx
      rfl
    · cases hx
  | decoder tid accepted =>
    obtain ⟨pc, -, heq⟩ := Option.map_eq_some_iff.mp hmqtt
    obtain ⟨rfl, rfl⟩ := Prod.mk.inj heq
    obtain ⟨hsession, -⟩ := decoderStep_session env s.now accepted s.py pc
    exact .of_idle (congrArg Session.books hsession) (by simp [observedBy])
      (decoderStep_unbooked env s.now accepted s.py pc)
  | die tid =>
    obtain ⟨rfl, rfl⟩ := Prod.mk.inj (Option.some.inj hmqtt)
    refine .of_idle rfl (fun x hx => ?_) (by simp)
    obtain ⟨entry, -, rfl⟩ := List.mem_map.mp hx
    rfl
  | tick dt =>
    simp only [mqttSystem, step] at hmqtt
    split at hmqtt
    · obtain ⟨rfl, rfl⟩ := Prod.mk.inj (Option.some.inj hmqtt)
      exact .of_idle rfl (by simp [observedBy]) (by simp)
    · cases hmqtt
  | acquire task =>
    simp only [mqttSystem, step] at hmqtt
    split at hmqtt
    · obtain ⟨rfl, rfl⟩ := Prod.mk.inj (Option.some.inj hmqtt)
      exact .of_idle rfl (by simp [observedBy]) (by simp)
    · cases hmqtt
  | cancel =>
    obtain ⟨holder, -, hcancel⟩ := Option.bind_eq_some_iff.mp hmqtt
    split at hcancel
    · obtain ⟨rfl, rfl⟩ := Prod.mk.inj (Option.some.inj hcancel)
      exact .of_idle rfl (by simp [observedBy]) (by simp)
    · cases hcancel
  | poll i =>
    simp only [mqttSystem, step] at hmqtt
    split at hmqtt
    · have hpoll := Option.some.inj hmqtt
      rw [pollStep] at hpoll
      split at hpoll
      · obtain ⟨rfl, rfl⟩ := Prod.mk.inj hpoll
        exact .of_idle rfl (by simp [observedBy]) (by simp [shownBy])
      · split at hpoll
        · obtain ⟨rfl, rfl⟩ := Prod.mk.inj hpoll
          exact .of_idle rfl (by simp [observedBy]) (by simp [shownBy])
        · split at hpoll <;>
            (obtain ⟨rfl, rfl⟩ := Prod.mk.inj hpoll
             exact .of_idle rfl (by simp [observedBy]) (by simp [shownBy]))
    · cases hmqtt
  | cancelReader i =>
    obtain ⟨rfl, rfl⟩ := Prod.mk.inj (Option.some.inj hmqtt)
    exact .of_idle rfl (by simp [observedBy]) (by simp)
  | subscribe pattern callback =>
    obtain ⟨rfl, rfl⟩ := Prod.mk.inj (Option.some.inj hmqtt)
    exact .of_idle rfl (by simp [observedBy]) (brokerCall_unshown _ _ _ fun _ _ => rfl)
  | unsubscribe pattern callback =>
    simp only [mqttSystem, step] at hmqtt
    split at hmqtt
    · obtain ⟨rfl, rfl⟩ := Prod.mk.inj (Option.some.inj hmqtt)
      exact .of_idle rfl (by simp [observedBy]) (by simp)
    · obtain ⟨rfl, rfl⟩ := Prod.mk.inj (Option.some.inj hmqtt)
      refine .of_idle rfl (by simp [observedBy]) ?_
      split
      · exact brokerCall_unshown _ _ _ fun _ _ => rfl
      · simp
  | publish topic payload =>
    simp only [mqttSystem, step] at hmqtt
    split at hmqtt <;>
      (obtain ⟨rfl, rfl⟩ := Prod.mk.inj (Option.some.inj hmqtt)
       exact .of_idle rfl (by simp [observedBy]) (by simp [shownBy]))

theorem reported_agrees (h : Run (accountSystem env) es log s) {earlier later : List AccountOut}
    {now : ℚ} {d : Diagnostics} (hlog : log = earlier ++ .reported now d :: later) :
    d.Agrees now (booksOf earlier) := by
  have key : s.py.session.books = booksOf log ∧ ∀ earlier later now d,
      log = earlier ++ .reported now d :: later → d.Agrees now (booksOf earlier) := by
    refine h.induct (P := fun log s => s.py.session.books = booksOf log ∧
      ∀ earlier later now d, log = earlier ++ .reported now d :: later →
        d.Agrees now (booksOf earlier)) ⟨rfl, by simp⟩ ?_
    rintro log s e s' out ⟨hbooks, ih⟩ - hstep
    have hbooked := step_booked hstep
    refine ⟨?_, fun earlier later now d hsplit => ?_⟩
    · rw [hbooked.books, hbooks, booksOf, booksOf, List.foldl_append]
    -- the report is an old one, or it is all the step shows
    · rcases List.append_eq_append_iff.mp hsplit with ⟨between, rfl, hout⟩ | ⟨between, hlog, hout⟩
      · obtain ⟨hone, hagrees⟩ := hbooked.agrees now d (by rw [hout]; simp)
        rw [hone] at hout
        obtain rfl : between = [] := by
          cases between with
          | nil => rfl
          | cons x rest => simp at hout
        rw [List.append_nil, ← hbooks]
        exact hagrees
      · cases between with
        | nil =>
          obtain ⟨-, hagrees⟩ := hbooked.agrees now d (by
            rw [← List.nil_append out, ← hout]
            exact List.mem_cons_self)
          rw [List.append_nil] at hlog
          rw [← hlog, ← hbooks]
          exact hagrees
        | cons x rest =>
          obtain ⟨rfl, -⟩ := List.cons.inj hout
          exact ih earlier rest now d hlog
  exact key.2 earlier later now d hlog

/-- Every disconnect report tells what was seen since the last accepted connection:
    how many connections there were, when this one began, how many pings, answers,
    overflows and earlier reports it had, and how long ago the latest were.  An overflow
    is one whose handler found the transport still owned: a shutdown can come before it. -/
theorem reports_accounted (h : Run (accountSystem env) es log s)
    {earlier later : List AccountOut} {now : ℚ} {d : Diagnostics}
    (hlog : log = earlier ++ .reported now d :: later) :
    d.connectionEpoch = earlier.countP AccountOut.isAccepted ∧
      d.sessionAge = (earlier.filterMap AccountOut.acceptedAt).getLast?.map (age now) ∧
      d.disconnectCallback = (sinceAccepted earlier).countP AccountOut.isReport + 1 ∧
      (d.duplicateInEpoch = true ↔ ∃ x ∈ sinceAccepted earlier, x.isReport = true) ∧
      d.inboxDropped = (sinceAccepted earlier).countP AccountOut.isOverflow ∧
      d.notificationAge =
        ((sinceAccepted earlier).filterMap AccountOut.deliveredAt).getLast?.map (age now) ∧
      d.pingreqAttempts = ((sinceAccepted earlier).filterMap AccountOut.pingreqAt).length ∧
      d.pingreqAttemptAge =
        ((sinceAccepted earlier).filterMap AccountOut.pingreqAt).getLast?.map (age now) ∧
      d.pingrespReceived = ((sinceAccepted earlier).filterMap AccountOut.pingrespAt).length ∧
      d.pingrespAge =
        ((sinceAccepted earlier).filterMap AccountOut.pingrespAt).getLast?.map (age now) := by
  have hagrees := reported_agrees h hlog
  rw [booksOf_eq] at hagrees
  exact ⟨hagrees.epoch, hagrees.sessionAge, hagrees.callback,
    hagrees.duplicate.trans List.countP_pos_iff, hagrees.overflows, hagrees.notificationAge,
    hagrees.pingreqs, hagrees.pingreqAge, hagrees.pingresps, hagrees.pingrespAge⟩

theorem reports_accounted_shutdown : ∃ log s earlier later now d,
    Run (accountSystem fixtureEnv) accountSchedule log s ∧
      log = earlier ++ .reported now d :: later ∧
      d.pingreqAttempts = ((sinceAccepted earlier).filterMap AccountOut.pingreqAt).length := by
  obtain ⟨log, s, hrun, -, -, -, hreport⟩ := account_run
  obtain ⟨x, hx, hisReport⟩ := List.any_eq_true.mp hreport
  obtain ⟨earlier, later, hlog⟩ := List.append_of_mem hx
  cases x with
  | reported now d =>
    obtain ⟨-, -, -, -, -, -, hpings, -⟩ := reports_accounted hrun hlog
    exact ⟨log, s, earlier, later, now, d, hrun, hlog, hpings⟩
  | _ => cases hisReport

end MqttState

end McpVenusOs
