/-
  McpVenusOs.Mqtt.SocketEvents

  The transport diagnostics of `MQTTClient` over whole runs: what the ring of
  transport events and the disconnect reports say of the sockets.

  A run is seen through the events recorded and the reports logged
  (`diagnosticsSystem`).  What a step does to the record of the session is
  `SessionStep`; `Tracked` is the invariant that carries the attribution of
  every event from it.
-/

import Mathlib.Data.List.DropRight
import McpVenusOs.Mqtt.Machine

namespace McpVenusOs

open Py Machine

/-! ## What is recorded and reported -/

/-- An event appended by `_record_transport_event`, with the callback that
    recorded it, or a report of `_on_disconnect`. -/
inductive DiagnosticOut
  | recorded (cb : PahoCallback) (ev : TransportEvent)
  | reported (d : Diagnostics)

/-- The socket a callback is about. -/
def PahoCallback.sock : PahoCallback → Option Nat
  | .socketOpen sock _ _ => some sock
  | .socketUnregisterWrite sock _ _ _ => some sock
  | .socketClose sock _ => some sock
  | _ => none

namespace DiagnosticOut

/-- The event of this name and this generation. -/
def is (event : String) (generation : Nat) : DiagnosticOut → Bool
  | .recorded _ ev => ev.event = event && ev.socketGeneration = generation
  | .reported _ => false

def isReport : DiagnosticOut → Bool
  | .recorded _ _ => false
  | .reported _ => true

end DiagnosticOut

/-- What a callback recorded shows in the revision and the end of the ring. -/
def recordedBy (s s' : Session) : MqttEvent → List DiagnosticOut
  | .callback _ cb =>
    if s.transportEventRevision < s'.transportEventRevision then
      s'.transportEvents.getLast?.toList.map (.recorded cb)
    else []
  | _ => []

def reportedBy : MqttOut → Option DiagnosticOut
  | .disconnected _ d => some (.reported d)
  | _ => none

/-- The client's machine, seen through its transport diagnostics. -/
def diagnosticsSystem (env : MqttEnv) : System MqttState MqttEvent DiagnosticOut where
  init := (mqttSystem env).init
  step s e := ((mqttSystem env).step s e).map fun r =>
    (r.1, recordedBy s.py.session r.1.py.session e ++ r.2.filterMap reportedBy)

/-! ## What a step does to the session -/

/-- The latest events a ring of the limit can hold. -/
def latest (evs : List TransportEvent) : List TransportEvent := evs.rtake transportEventLimit

/-- `_record_transport_event` under a generation that stays. -/
structure Records (s s' : Session) (event : String) (ev : TransportEvent) : Prop where
  name : ev.event = event
  carries : ev.socketGeneration = s.socketGeneration
  generation : s'.socketGeneration = s.socketGeneration
  ring : s'.transportEvents = latest (s.transportEvents ++ [ev])
  revision : s'.transportEventRevision = s.transportEventRevision + 1
  reported : s'.reportedTransportEventRevision = s.reportedTransportEventRevision

/-- Everything a step can do to the diagnostics, with what it records and reports. -/
inductive SessionStep (s s' : Session) : List DiagnosticOut → Prop
  | quiet (generation : s'.socketGeneration = s.socketGeneration)
      (ring : s'.transportEvents = s.transportEvents)
      (revision : s'.transportEventRevision = s.transportEventRevision)
      (reported : s'.reportedTransportEventRevision = s.reportedTransportEventRevision)
      (socket : s'.diagnosticSocket = s.diagnosticSocket ∨ s'.diagnosticSocket = none)
      (pending : s'.pendingPingreqGeneration = s.pendingPingreqGeneration ∨
        s'.pendingPingreqGeneration = none) : SessionStep s s' []
  | attempt (cb : PahoCallback) (ev : TransportEvent) (record : Records s s' "pingreq_attempt" ev)
      (socket : s'.diagnosticSocket = s.diagnosticSocket) : SessionStep s s' [.recorded cb ev]
  | response (cb : PahoCallback) (ev : TransportEvent)
      (record : Records s s' "pingresp_decoded" ev)
      (socket : s'.diagnosticSocket = s.diagnosticSocket)
      (pending : s'.pendingPingreqGeneration = s.pendingPingreqGeneration) :
      SessionStep s s' [.recorded cb ev]
  | drained (cb : PahoCallback) (ev : TransportEvent) (sock : Nat)
      (record : Records s s' "output_drained_after_pingreq" ev) (owner : cb.sock = some sock)
      (opened : s.diagnosticSocket = some sock)
      (attempted : s.pendingPingreqGeneration = some s.socketGeneration)
      (socket : s'.diagnosticSocket = s.diagnosticSocket)
      (pending : s'.pendingPingreqGeneration = none) : SessionStep s s' [.recorded cb ev]
  | closed (cb : PahoCallback) (ev : TransportEvent) (sock : Nat)
      (record : Records s s' "socket_close" ev) (opened : s.diagnosticSocket = some sock)
      (socket : s'.diagnosticSocket = none) (pending : s'.pendingPingreqGeneration = none) :
      SessionStep s s' [.recorded cb ev]
  | opened (cb : PahoCallback) (ev : TransportEvent) (sock : Nat) (name : ev.event = "socket_open")
      (carries : ev.socketGeneration = s.socketGeneration + 1)
      (generation : s'.socketGeneration = s.socketGeneration + 1)
      (ring : s'.transportEvents = [ev])
      (revision : s'.transportEventRevision = s.transportEventRevision + 1)
      (reported : s'.reportedTransportEventRevision = s.reportedTransportEventRevision)
      (owner : cb.sock = some sock) (socket : s'.diagnosticSocket = some sock)
      (pending : s'.pendingPingreqGeneration = none) : SessionStep s s' [.recorded cb ev]
  | report (d : Diagnostics) (generation : s'.socketGeneration = s.socketGeneration)
      (ring : s'.transportEvents = s.transportEvents)
      (revision : s'.transportEventRevision = s.transportEventRevision)
      (reported : s'.reportedTransportEventRevision = s.transportEventRevision)
      (socket : s'.diagnosticSocket = s.diagnosticSocket)
      (pending : s'.pendingPingreqGeneration = s.pendingPingreqGeneration)
      (repeated : d.transportEventsRepeated = true ↔
        s.reportedTransportEventRevision = s.transportEventRevision)
      (events : d.transportEvents.map Prod.fst =
        if d.transportEventsRepeated then [] else s.transportEvents) :
      SessionStep s s' [.reported d]

theorem SessionStep.refl (s : Session) : SessionStep s s [] :=
  .quiet rfl rfl rfl rfl (.inl rfl) (.inl rfl)

section Steps

variable {env : MqttEnv} {s s' : MqttState} {t : Nat} {cb : PahoCallback}

/-- A callback that appended one event recorded that event. -/
theorem recordedBy_of_append {s s' : Session} {evs : List TransportEvent} {ev : TransportEvent}
    (hrevision : s'.transportEventRevision = s.transportEventRevision + 1)
    (hring : s'.transportEvents = latest (evs ++ [ev])) :
    recordedBy s s' (.callback t cb) = [.recorded cb ev] := by
  have hlatest : latest (evs ++ [ev]) = evs.rtake (transportEventLimit - 1) ++ [ev] :=
    List.rtake_concat_succ _ _ _
  rw [recordedBy, if_pos (by omega), hring, hlatest, List.getLast?_append]
  rfl

/-- A step that leaves the revision records nothing. -/
theorem recordedBy_of_eq {s s' : Session} (e : MqttEvent)
    (hrevision : s'.transportEventRevision = s.transportEventRevision) :
    recordedBy s s' e = [] := by
  cases e with
  | callback t cb => rw [recordedBy, if_neg (by omega)]
  | _ => rfl

theorem SessionStep.unrecorded {s s' : Session} {outs : List DiagnosticOut} (e : MqttEvent)
    (hrevision : s'.transportEventRevision = s.transportEventRevision)
    (h : SessionStep s s' outs) : SessionStep s s' (recordedBy s s' e ++ outs) := by
  rwa [recordedBy_of_eq e hrevision, List.nil_append]

theorem SessionStep.appended {s s' : Session} (evs : List TransportEvent) {ev : TransportEvent}
    (hrevision : s'.transportEventRevision = s.transportEventRevision + 1)
    (hring : s'.transportEvents = latest (evs ++ [ev])) (h : SessionStep s s' [.recorded cb ev]) :
    SessionStep s s' (recordedBy s s' (.callback t cb) ++ []) := by
  rwa [recordedBy_of_append hrevision hring]

theorem filterMap_connectCalls (explicit : List String) :
    (connectCalls env explicit t).filterMap reportedBy = [] := by
  rw [List.filterMap_eq_nil_iff]
  intro x hx
  rw [connectCalls] at hx
  split at hx
  · rw [List.mem_singleton.mp hx]
    rfl
  · rcases List.mem_append.mp hx with hx | hx
    · obtain ⟨p, -, rfl⟩ := List.mem_map.mp hx
      rfl
    · rw [List.mem_singleton.mp hx]
      rfl

/-- A connection shows the broker calls at most. -/
theorem filterMap_connect (s : MqttState) (t : Nat) (accepted : Bool) :
    (s.callbackStep env t (.connect accepted)).2.filterMap reportedBy = [] := by
  simp only [MqttState.callbackStep, onConnect]
  split
  · rfl
  · cases accepted with
    | true => exact filterMap_connectCalls _
    | false => rfl

/-- The diagnostics of one callback. -/
theorem callback_session (env : MqttEnv) (s : MqttState) (t : Nat) (cb : PahoCallback) :
    SessionStep s.py.session (s.callbackStep env t cb).1.py.session
      (recordedBy s.py.session (s.callbackStep env t cb).1.py.session (.callback t cb) ++
        (s.callbackStep env t cb).2.filterMap reportedBy) := by
  cases cb with
  | connect accepted =>
    rw [filterMap_connect]
    simp only [MqttState.callbackStep, onConnect]
    split
    · exact .unrecorded _ rfl (.refl _)
    · cases accepted with
      | true => exact .unrecorded _ rfl (.quiet rfl rfl rfl rfl (.inl rfl) (.inr rfl))
      | false => exact .unrecorded _ rfl (.quiet rfl rfl rfl rfl (.inl rfl) (.inl rfl))
  | disconnect =>
    simp only [MqttState.callbackStep, onDisconnect]
    split
    · exact .unrecorded _ rfl (.refl _)
    -- the ring is left out iff nothing was recorded since the last report
    · refine .unrecorded _ rfl (.report _ rfl rfl rfl rfl rfl rfl decide_eq_true_iff ?_)
      simp only [diagnostics, decide_eq_true_eq]
      by_cases heq : s.py.session.reportedTransportEventRevision =
          s.py.session.transportEventRevision
      · rw [if_pos heq, if_neg (not_not_intro heq)]
        rfl
      · rw [if_neg heq, if_pos heq, List.map_map]
        exact List.map_id _
  | log message kernel =>
    simp only [MqttState.callbackStep, onLog]
    split
    · exact .unrecorded _ rfl (.refl _)
    · split
      · exact .unrecorded _ rfl (.refl _)
      · split
        -- `PINGREQ`, or `PINGRESP`
        · exact .appended _ rfl rfl (.attempt _ _ ⟨rfl, rfl, rfl, rfl, rfl, rfl⟩ rfl)
        · exact .appended _ rfl rfl (.response _ _ ⟨rfl, rfl, rfl, rfl, rfl, rfl⟩ rfl rfl)
  | socketOpen sock clientSocket kernel =>
    simp only [MqttState.callbackStep, onSocketOpen]
    split
    · exact .unrecorded _ rfl (.refl _)
    · exact .appended [] rfl rfl (.opened _ _ sock rfl rfl rfl rfl rfl rfl rfl rfl rfl)
  | socketUnregisterWrite sock clientSocket wantWrite kernel =>
    simp only [MqttState.callbackStep, onSocketUnregisterWrite]
    split
    · exact .unrecorded _ rfl (.refl _)
    · rename_i hguard
      simp only [Bool.or_eq_true, decide_eq_true_eq, not_or, not_not] at hguard
      -- the guards: the socket of the session, with a ping that is pending for it
      obtain ⟨⟨⟨⟨-, hsocket⟩, -⟩, -⟩, hpending⟩ := hguard
      exact .appended _ rfl rfl
        (.drained _ _ sock ⟨rfl, rfl, rfl, rfl, rfl, rfl⟩ rfl hsocket hpending rfl rfl)
  | socketClose sock kernel =>
    simp only [MqttState.callbackStep, onSocketClose]
    split
    · exact .unrecorded _ rfl (.refl _)
    · rename_i hguard
      simp only [Bool.or_eq_true, decide_eq_true_eq, not_or, not_not] at hguard
      exact .appended _ rfl rfl
        (.closed _ _ sock ⟨rfl, rfl, rfl, rfl, rfl, rfl⟩ hguard.2 rfl rfl)
  | message msg =>
    simp only [MqttState.callbackStep, onMessage]
    split
    · exact .unrecorded _ rfl (.refl _)
    · split
      · exact .unrecorded _ rfl (.quiet rfl rfl rfl rfl (.inl rfl) (.inl rfl))
      · exact .unrecorded _ rfl (.quiet rfl rfl rfl rfl (.inl rfl) (.inl rfl))

/-- The handler of `queue.Full` counts, and records nothing. -/
theorem overflow_session (now : ℚ) (t : Nat) (c : MqttClient) :
    (onQueueFull now t c).session.transportEventRevision = c.session.transportEventRevision ∧
      SessionStep c.session (onQueueFull now t c).session [] := by
  simp only [onQueueFull]
  split
  · exact ⟨rfl, .quiet rfl rfl rfl rfl (.inl rfl) (.inl rfl)⟩
  · exact ⟨rfl, .refl _⟩

/-- A lifecycle statement forgets the socket of a retired transport at most. -/
theorem lifecycleStep_session {holder : Holder} {outcome : CallOutcome} {out : List MqttOut}
    (h : s.lifecycleStep holder outcome = some (s', out)) :
    (s'.py.session = s.py.session ∨ s'.py.session = { s.py.session with connected := false } ∨
      s'.py.session = { s.py.session with diagnosticSocket := none,
                                          pendingPingreqGeneration := none }) ∧
      out.filterMap reportedBy = [] := by
  cases MqttState.lifecycleStep_statement h with
  | stopBegin _ => exact ⟨.inr (.inl rfl), rfl⟩
  | startTransport _ => exact ⟨.inr (.inl rfl), rfl⟩
  | retire _ _ _ => exact ⟨.inr (.inr rfl), rfl⟩
  | _ => exact ⟨.inl rfl, rfl⟩

/-- A worker's step leaves the session to the callbacks. -/
theorem decoderStep_session (env : MqttEnv) (now : ℚ) (accepted : Bool) (c : MqttClient)
    (pc : DecoderPc) : (decoderStep env now accepted c pc).2.1.session = c.session ∧
      (decoderStep env now accepted c pc).2.2.filterMap reportedBy = [] := by
  cases pc with
  | top processed =>
    simp only [decoderStep]
    split
    · exact ⟨rfl, rfl⟩
    · split <;> exact ⟨rfl, rfl⟩
  | feeding processed take rest =>
    cases rest with
    | ret a => exact ⟨rfl, rfl⟩
    | raise e => exact ⟨rfl, rfl⟩
    | op o k =>
      -- an operation of the read feed touches the schedule only
      obtain ⟨feed, hfeed⟩ := c.answerFeed_client now accepted o
      refine ⟨?_, ?_⟩
      · simp only [decoderStep, hfeed]
      · rcases c.answerFeed_out now accepted o with hout | ⟨t, topic, payload, hout⟩ <;>
          simp [decoderStep, hout, reportedBy]
  | take processed =>
    simp only [decoderStep]
    split <;> exact ⟨rfl, rfl⟩
  | holding processed e =>
    obtain ⟨cache, seen, hframe⟩ := c.handleMessage_frame env e
    simp only [decoderStep]
    split
    · rename_i c' topic payload hmessage
      rw [hmessage] at hframe
      exact ⟨by rw [hframe], rfl⟩
    · rename_i c' hmessage
      rw [hmessage] at hframe
      exact ⟨by rw [hframe], rfl⟩
  | notifying processed topic payload =>
    refine ⟨rfl, ?_⟩
    simp only [decoderStep]
    split <;> rfl

theorem filterMap_brokerCall (c : MqttClient) (pattern : String) (call : Nat → String → MqttOut)
    (hcall : ∀ t p, reportedBy (call t p) = none) :
    (MqttState.brokerCall env c pattern call).filterMap reportedBy = [] := by
  rw [List.filterMap_eq_nil_iff]
  intro x hx
  rw [MqttState.brokerCall] at hx
  split at hx
  · split at hx
    · cases hx
    · rw [List.mem_singleton.mp hx]
      exact hcall _ _
  · rw [List.mem_singleton.mp hx]
    rfl
  · cases hx

/-- Everything a step of the machine can do to the diagnostics. -/
theorem step_session {e : MqttEvent} {out : List DiagnosticOut}
    (h : (diagnosticsSystem env).step s e = some (s', out)) :
    SessionStep s.py.session s'.py.session out := by
  obtain ⟨⟨s₁, outs⟩, hstep, heq⟩ := Option.map_eq_some_iff.mp h
  obtain ⟨rfl, rfl⟩ := Prod.mk.inj heq
  clear h heq
  -- most events leave the session, and none but a callback reports
  have hidle : s₁.py.session = s.py.session → outs.filterMap reportedBy = [] →
      SessionStep s.py.session s₁.py.session
        (recordedBy s.py.session s₁.py.session e ++ outs.filterMap reportedBy) := by
    intro hsession houts
    rw [hsession, houts]
    exact .unrecorded _ rfl (.refl _)
  cases e with
  | callback t cb =>
    obtain ⟨rfl, rfl⟩ := Prod.mk.inj (Option.some.inj hstep)
    exact callback_session env s t cb
  | overflow t =>
    simp only [mqttSystem, MqttState.step] at hstep
    split at hstep
    · obtain ⟨rfl, rfl⟩ := Prod.mk.inj (Option.some.inj hstep)
      obtain ⟨hrevision, hsession⟩ := overflow_session s.now t s.py
      exact .unrecorded _ hrevision hsession
    · cases hstep
  | lifecycle outcome =>
    obtain ⟨holder, -, hstep⟩ := Option.bind_eq_some_iff.mp hstep
    obtain ⟨hsession, hout⟩ := lifecycleStep_session hstep
    rw [hout]
    rcases hsession with h | h | h
    · exact .unrecorded _ (by rw [h]) (by rw [h]; exact .refl _)
    · exact .unrecorded _ (by rw [h])
        (by rw [h]; exact .quiet rfl rfl rfl rfl (.inl rfl) (.inl rfl))
    · exact .unrecorded _ (by rw [h])
        (by rw [h]; exact .quiet rfl rfl rfl rfl (.inr rfl) (.inr rfl))
  | decoder tid accepted =>
    obtain ⟨pc, -, heq⟩ := Option.map_eq_some_iff.mp hstep
    obtain ⟨rfl, rfl⟩ := Prod.mk.inj heq
    obtain ⟨hsession, hout⟩ := decoderStep_session env s.now accepted s.py pc
    exact hidle hsession hout
  | tick dt =>
    simp only [mqttSystem, MqttState.step] at hstep
    split at hstep
    · obtain ⟨rfl, rfl⟩ := Prod.mk.inj (Option.some.inj hstep)
      exact hidle rfl rfl
    · cases hstep
  | die tid =>
    obtain ⟨rfl, rfl⟩ := Prod.mk.inj (Option.some.inj hstep)
    exact hidle rfl rfl
  | acquire task =>
    simp only [mqttSystem, MqttState.step] at hstep
    split at hstep
    · obtain ⟨rfl, rfl⟩ := Prod.mk.inj (Option.some.inj hstep)
      exact hidle rfl rfl
    · cases hstep
  | cancel =>
    obtain ⟨holder, -, hstep⟩ := Option.bind_eq_some_iff.mp hstep
    split at hstep
    · obtain ⟨rfl, rfl⟩ := Prod.mk.inj (Option.some.inj hstep)
      exact hidle rfl rfl
    · cases hstep
  | poll i =>
    simp only [mqttSystem, MqttState.step] at hstep
    split at hstep
    · have hpoll := Option.some.inj hstep
      rw [MqttState.pollStep] at hpoll
      split at hpoll
      · obtain ⟨rfl, rfl⟩ := Prod.mk.inj hpoll
        exact hidle rfl rfl
      · split at hpoll
        · obtain ⟨rfl, rfl⟩ := Prod.mk.inj hpoll
          exact hidle rfl rfl
        · split at hpoll <;>
            (obtain ⟨rfl, rfl⟩ := Prod.mk.inj hpoll; exact hidle rfl rfl)
    · cases hstep
  | cancelReader i =>
    obtain ⟨rfl, rfl⟩ := Prod.mk.inj (Option.some.inj hstep)
    exact hidle rfl rfl
  | subscribe pattern callback =>
    obtain ⟨rfl, rfl⟩ := Prod.mk.inj (Option.some.inj hstep)
    exact hidle rfl (filterMap_brokerCall _ _ _ fun _ _ => rfl)
  | unsubscribe pattern callback =>
    simp only [mqttSystem, MqttState.step] at hstep
    split at hstep
    · obtain ⟨rfl, rfl⟩ := Prod.mk.inj (Option.some.inj hstep)
      exact hidle rfl rfl
    · obtain ⟨rfl, rfl⟩ := Prod.mk.inj (Option.some.inj hstep)
      refine hidle rfl ?_
      split
      · exact filterMap_brokerCall _ _ _ fun _ _ => rfl
      · rfl
  | publish topic payload =>
    simp only [mqttSystem, MqttState.step] at hstep
    split at hstep <;>
      (obtain ⟨rfl, rfl⟩ := Prod.mk.inj (Option.some.inj hstep); exact hidle rfl rfl)

end Steps

/-! ## What a history says -/

/-- The events since the last socket was opened, its `socket_open` included. -/
def sinceOpen (log : List DiagnosticOut) : List TransportEvent :=
  log.foldl (fun evs x => match x with
    | .recorded _ ev => if ev.event = "socket_open" then [ev] else evs ++ [ev]
    | .reported _ => evs) []

theorem sinceOpen_snoc (log : List DiagnosticOut) (x : DiagnosticOut) :
    sinceOpen (log ++ [x]) = match x with
      | .recorded _ ev => if ev.event = "socket_open" then [ev] else sinceOpen log ++ [ev]
      | .reported _ => sinceOpen log := by
  rw [sinceOpen, List.foldl_append]
  rfl

/-- There was a report, and no event was recorded since the latest one. -/
def Repeats (log : List DiagnosticOut) : Prop :=
  ∃ a d b, log = a ++ .reported d :: b ∧ ∀ x ∈ b, x.isReport = true

/-- A `pingreq_attempt` of the generation that no drain has used up. -/
def PingAttempted (log : List DiagnosticOut) (generation : Nat) : Prop :=
  ∃ a x b, log = a ++ x :: b ∧ x.is "pingreq_attempt" generation = true ∧
    ∀ y ∈ b, y.is "output_drained_after_pingreq" generation = false

/-- The generation was opened for this socket and has not been closed. -/
structure OpenFor (log : List DiagnosticOut) (generation sock : Nat) : Prop where
  opened : ∃ x ∈ log, x.is "socket_open" generation = true
  owner : ∀ cb ev, .recorded cb ev ∈ log →
    DiagnosticOut.is "socket_open" generation (.recorded cb ev) = true → cb.sock = some sock
  not_closed : ∀ x ∈ log, x.is "socket_close" generation = false

/-- What justifies a drain that `cb` records. -/
structure Drainable (log : List DiagnosticOut) (cb : PahoCallback) (ev : TransportEvent) :
    Prop where
  attempted : PingAttempted log ev.socketGeneration
  socket : ∃ sock, cb.sock = some sock ∧ OpenFor log ev.socketGeneration sock

/-- What a history may hold: a close for each generation at most, drains after
    attempts, and reports of what is new. -/
structure Sound (log : List DiagnosticOut) : Prop where
  closed_once : ∀ generation, log.countP (·.is "socket_close" generation) ≤ 1
  drained : ∀ a cb ev b, log = a ++ .recorded cb ev :: b →
    ev.event = "output_drained_after_pingreq" → Drainable a cb ev
  reported : ∀ a d b, log = a ++ .reported d :: b →
    (d.transportEventsRepeated = true ↔ Repeats a) ∧
      d.transportEvents.map Prod.fst =
        if d.transportEventsRepeated then [] else latest (sinceOpen a)

/-- The ring and the reports attribute every event to its socket and session. -/
structure Attributed (log : List DiagnosticOut) (s : Session) : Prop where
  ring : s.transportEvents = latest (sinceOpen log)
  bounded : s.transportEvents.length ≤ transportEventLimit
  current : ∀ ev ∈ s.transportEvents, ev.socketGeneration = s.socketGeneration
  sound : Sound log

/-- The invariant of the session record over the history. -/
structure Tracked (log : List DiagnosticOut) (s : Session) : Prop where
  ring : s.transportEvents = latest (sinceOpen log)
  current : ∀ ev ∈ sinceOpen log, ev.socketGeneration = s.socketGeneration
  bound : ∀ cb ev, .recorded cb ev ∈ log → ev.socketGeneration ≤ s.socketGeneration
  socket : ∀ sock, s.diagnosticSocket = some sock → OpenFor log s.socketGeneration sock
  pending : s.pendingPingreqGeneration = some s.socketGeneration →
    PingAttempted log s.socketGeneration
  revision_le : s.reportedTransportEventRevision ≤ s.transportEventRevision
  revision : s.reportedTransportEventRevision = s.transportEventRevision ↔ Repeats log
  sound : Sound log

section History

variable {log : List DiagnosticOut} {s s' : Session} {cb : PahoCallback} {ev : TransportEvent}
  {generation : Nat}

/-- An entry of a longer history is the last one or was there before. -/
theorem split_snoc {α : Type} {log a b : List α} {x y : α} (h : log ++ [y] = a ++ x :: b) :
    (b = [] ∧ a = log ∧ x = y) ∨ ∃ b', b = b' ++ [y] ∧ log = a ++ x :: b' := by
  rcases List.eq_nil_or_concat b with rfl | ⟨b', z, rfl⟩
  · obtain ⟨hlog, hxy⟩ := List.append_inj' h rfl
    exact .inl ⟨rfl, hlog.symm, (List.cons.inj hxy).1.symm⟩
  · rw [List.concat_eq_append, ← List.cons_append, ← List.append_assoc] at h
    obtain ⟨hlog, hzy⟩ := List.append_inj' h rfl
    exact .inr ⟨b', by rw [List.concat_eq_append, (List.cons.inj hzy).1], hlog⟩

theorem latest_snoc (evs : List TransportEvent) (ev : TransportEvent) :
    latest (latest evs ++ [ev]) = latest (evs ++ [ev]) := by
  simp only [latest, List.rtake_eq_reverse_take_reverse, List.reverse_append, List.reverse_reverse,
    List.reverse_singleton, List.singleton_append]
  show List.reverse (ev :: ((evs.reverse.take transportEventLimit).take _)) = _
  rw [List.take_take]
  rfl

/-- A recorded event makes the next report a full one. -/
theorem not_repeats_recorded : ¬ Repeats (log ++ [.recorded cb ev]) := by
  rintro ⟨a, d, b, hsplit, hreports⟩
  rcases split_snoc hsplit with ⟨-, -, hd⟩ | ⟨b', rfl, -⟩
  · cases hd
  · exact absurd (hreports _ (List.mem_append_right _ (List.mem_singleton_self _)))
      Bool.false_ne_true

theorem repeats_reported (d : Diagnostics) : Repeats (log ++ [.reported d]) :=
  ⟨log, d, [], rfl, fun _ h => nomatch h⟩

/-- What is not a drain of the generation leaves an attempt as it is. -/
theorem PingAttempted.snoc (h : PingAttempted log generation) {x : DiagnosticOut}
    (hx : x.is "output_drained_after_pingreq" generation = false) :
    PingAttempted (log ++ [x]) generation := by
  obtain ⟨a, y, b, rfl, hy, hb⟩ := h
  refine ⟨a, y, b ++ [x], by simp, hy, fun z hz => ?_⟩
  rcases List.mem_append.mp hz with hz | hz
  · exact hb z hz
  · rwa [List.mem_singleton.mp hz]

/-- An event that neither opens nor closes leaves a socket open. -/
theorem OpenFor.snoc {sock : Nat} (h : OpenFor log generation sock) {x : DiagnosticOut}
    (hopen : x.is "socket_open" generation = false)
    (hclose : x.is "socket_close" generation = false) : OpenFor (log ++ [x]) generation sock where
  opened := by
    obtain ⟨y, hy, his⟩ := h.opened
    exact ⟨y, List.mem_append_left _ hy, his⟩
  owner cb ev hmem his := by
    rcases List.mem_append.mp hmem with hmem | hmem
    · exact h.owner cb ev hmem his
    · rw [List.mem_singleton.mp hmem, hopen] at his
      cases his
  not_closed y hy := by
    rcases List.mem_append.mp hy with hy | hy
    · exact h.not_closed y hy
    · rwa [List.mem_singleton.mp hy]

/-- A history goes on with an entry that is justified by what is before it. -/
theorem Sound.snoc (h : Sound log) {x : DiagnosticOut}
    (hclose : ∀ generation, x.is "socket_close" generation = true →
      ∀ y ∈ log, y.is "socket_close" generation = false)
    (hdrain : ∀ cb ev, x = .recorded cb ev → ev.event = "output_drained_after_pingreq" →
      Drainable log cb ev)
    (hreport : ∀ d, x = .reported d → (d.transportEventsRepeated = true ↔ Repeats log) ∧
      d.transportEvents.map Prod.fst =
        if d.transportEventsRepeated then [] else latest (sinceOpen log)) :
    Sound (log ++ [x]) where
  closed_once generation := by
    rw [List.countP_append, List.countP_singleton]
    split
    · rename_i hx
      have hnone : log.countP (·.is "socket_close" generation) = 0 := by
        rw [List.countP_eq_zero]
        intro y hy
        rw [hclose generation hx y hy]
        exact Bool.false_ne_true
      omega
    · exact h.closed_once generation
  drained a cb ev b hsplit hev := by
    -- the latest output, or an earlier one
    rcases split_snoc hsplit with ⟨-, rfl, hx⟩ | ⟨b', -, hlog⟩
    · exact hdrain cb ev hx.symm hev
    · exact h.drained a cb ev b' hlog hev
  reported a d b hsplit := by
    rcases split_snoc hsplit with ⟨-, rfl, hx⟩ | ⟨b', -, hlog⟩
    · exact hreport d hx.symm
    · exact h.reported a d b' hlog

/-- An event that is recorded while the generation stays. -/
theorem Tracked.record (h : Tracked log s) {event : String} (hr : Records s s' event ev)
    (hevent : event ≠ "socket_open")
    (hsocket : ∀ sock, s'.diagnosticSocket = some sock →
      event ≠ "socket_close" ∧ s.diagnosticSocket = some sock)
    (hpending : s'.pendingPingreqGeneration = some s.socketGeneration →
      PingAttempted (log ++ [.recorded cb ev]) s.socketGeneration)
    (hclose : event = "socket_close" → ∃ sock, s.diagnosticSocket = some sock)
    (hdrain : event = "output_drained_after_pingreq" → Drainable log cb ev) :
    Tracked (log ++ [.recorded cb ev]) s' where
  ring := by
    have hopen : ev.event ≠ "socket_open" := by rwa [hr.name]
    rw [hr.ring, h.ring, latest_snoc, sinceOpen_snoc]
    simp only [if_neg hopen]
  current x hx := by
    have hopen : ev.event ≠ "socket_open" := by rwa [hr.name]
    rw [sinceOpen_snoc] at hx
    simp only [if_neg hopen] at hx
    rw [hr.generation]
    rcases List.mem_append.mp hx with hx | hx
    · exact h.current x hx
    · rw [List.mem_singleton.mp hx, hr.carries]
  bound cb' ev' hmem := by
    rw [hr.generation]
    rcases List.mem_append.mp hmem with hmem | hmem
    · exact h.bound cb' ev' hmem
    · obtain ⟨-, rfl⟩ := DiagnosticOut.recorded.inj (List.mem_singleton.mp hmem)
      exact hr.carries.le
  socket sock hs := by
    obtain ⟨hne, hs⟩ := hsocket sock hs
    rw [hr.generation]
    refine (h.socket sock hs).snoc ?_ ?_
    · simp [DiagnosticOut.is, hr.name, hevent]
    · simp [DiagnosticOut.is, hr.name, hne]
  pending hp := by
    rw [hr.generation] at hp ⊢
    exact hpending hp
  revision_le := by
    rw [hr.reported, hr.revision]
    have := h.revision_le
    omega
  revision := by
    -- an event is there to be reported
    refine iff_of_false ?_ not_repeats_recorded
    rw [hr.reported, hr.revision]
    have := h.revision_le
    omega
  sound := by
    refine h.sound.snoc (fun generation hx => ?_) (fun cb' ev' heq hev => ?_) fun d hd => nomatch hd
    · simp only [DiagnosticOut.is, Bool.and_eq_true, decide_eq_true_eq, hr.name, hr.carries] at hx
      obtain ⟨hname, rfl⟩ := hx
      obtain ⟨sock, hs⟩ := hclose hname
      exact (h.socket sock hs).not_closed
    · obtain ⟨rfl, rfl⟩ := DiagnosticOut.recorded.inj heq
      exact hdrain (hr.name.symm.trans hev)

/-- A socket is opened: a new generation, whose only event is this one. -/
theorem Tracked.opened (h : Tracked log s) {sock : Nat} (hname : ev.event = "socket_open")
    (hcarries : ev.socketGeneration = s.socketGeneration + 1)
    (hgeneration : s'.socketGeneration = s.socketGeneration + 1)
    (hring : s'.transportEvents = [ev])
    (hrevision : s'.transportEventRevision = s.transportEventRevision + 1)
    (hreported : s'.reportedTransportEventRevision = s.reportedTransportEventRevision)
    (howner : cb.sock = some sock) (hsocket : s'.diagnosticSocket = some sock)
    (hpending : s'.pendingPingreqGeneration = none) :
    Tracked (log ++ [.recorded cb ev]) s' := by
  have hsince : sinceOpen (log ++ [.recorded cb ev]) = [ev] := by
    rw [sinceOpen_snoc]
    exact if_pos hname
  -- no event before carries the new generation
  have hold : ∀ x ∈ log, ∀ event, x.is event (s.socketGeneration + 1) = false := by
    intro x hx event
    cases x with
    | reported d => rfl
    | recorded cb' ev' =>
      have hle := h.bound cb' ev' hx
      simp [DiagnosticOut.is]
      omega
  refine ⟨?_, ?_, ?_, ?_, ?_, ?_, ?_, ?_⟩
  · rw [hring, hsince]
    rfl
  · intro x hx
    rw [hsince] at hx
    rw [List.mem_singleton.mp hx, hcarries, hgeneration]
  · intro cb' ev' hmem
    rcases List.mem_append.mp hmem with hmem | hmem
    · exact (h.bound cb' ev' hmem).trans (by omega)
    · obtain ⟨-, rfl⟩ := DiagnosticOut.recorded.inj (List.mem_singleton.mp hmem)
      rw [hcarries, hgeneration]
  · intro sock' hs
    obtain rfl : sock = sock' := Option.some.inj (hsocket.symm.trans hs)
    rw [hgeneration]
    refine ⟨⟨.recorded cb ev, by simp, by simp [DiagnosticOut.is, hname, hcarries]⟩, ?_, ?_⟩
    · intro cb' ev' hmem his
      rcases List.mem_append.mp hmem with hmem | hmem
      · rw [hold _ hmem] at his
        cases his
      · obtain ⟨rfl, -⟩ := DiagnosticOut.recorded.inj (List.mem_singleton.mp hmem)
        exact howner
    · intro x hx
      rcases List.mem_append.mp hx with hx | hx
      · exact hold x hx _
      · rw [List.mem_singleton.mp hx]
        simp [DiagnosticOut.is, hname]
  · intro hp
    rw [hpending] at hp
    cases hp
  · rw [hreported, hrevision]
    have := h.revision_le
    omega
  · refine iff_of_false ?_ not_repeats_recorded
    rw [hreported, hrevision]
    have := h.revision_le
    omega
  · refine h.sound.snoc (fun generation hx => ?_) (fun cb' ev' heq hev => ?_) fun d hd => nomatch hd
    · simp [DiagnosticOut.is, hname] at hx
    · obtain ⟨rfl, rfl⟩ := DiagnosticOut.recorded.inj heq
      rw [hname] at hev
      exact absurd hev (by decide)

/-- A step that records nothing can only forget the socket and the attempt. -/
theorem Tracked.quiet (h : Tracked log s) (hgeneration : s'.socketGeneration = s.socketGeneration)
    (hring : s'.transportEvents = s.transportEvents)
    (hrevision : s'.transportEventRevision = s.transportEventRevision)
    (hreported : s'.reportedTransportEventRevision = s.reportedTransportEventRevision)
    (hsocket : s'.diagnosticSocket = s.diagnosticSocket ∨ s'.diagnosticSocket = none)
    (hpending : s'.pendingPingreqGeneration = s.pendingPingreqGeneration ∨
      s'.pendingPingreqGeneration = none) : Tracked log s' := by
  refine ⟨hring ▸ h.ring, hgeneration ▸ h.current, hgeneration ▸ h.bound, ?_, ?_, ?_, ?_, h.sound⟩
  · intro sock hs
    rw [hgeneration]
    rcases hsocket with heq | hnone
    · exact h.socket sock (heq ▸ hs)
    · rw [hnone] at hs
      cases hs
  · intro hp
    rw [hgeneration] at hp ⊢
    rcases hpending with heq | hnone
    · exact h.pending (heq ▸ hp)
    · rw [hnone] at hp
      cases hp
  · rw [hreported, hrevision]
    exact h.revision_le
  · rw [hreported, hrevision]
    exact h.revision

/-- A report says what was recorded since the one before. -/
theorem Tracked.report (h : Tracked log s) {d : Diagnostics}
    (hgeneration : s'.socketGeneration = s.socketGeneration)
    (hring : s'.transportEvents = s.transportEvents)
    (hrevision : s'.transportEventRevision = s.transportEventRevision)
    (hreported : s'.reportedTransportEventRevision = s.transportEventRevision)
    (hsocket : s'.diagnosticSocket = s.diagnosticSocket)
    (hpending : s'.pendingPingreqGeneration = s.pendingPingreqGeneration)
    (hrepeated : d.transportEventsRepeated = true ↔
      s.reportedTransportEventRevision = s.transportEventRevision)
    (hevents : d.transportEvents.map Prod.fst =
      if d.transportEventsRepeated then [] else s.transportEvents) :
    Tracked (log ++ [.reported d]) s' := by
  have hsince : sinceOpen (log ++ [.reported d]) = sinceOpen log := sinceOpen_snoc _ _
  refine ⟨?_, ?_, ?_, ?_, ?_, ?_, ?_, ?_⟩
  · rw [hring, hsince]
    exact h.ring
  · rw [hsince, hgeneration]
    exact h.current
  · intro cb ev hmem
    rw [hgeneration]
    rcases List.mem_append.mp hmem with hmem | hmem
    · exact h.bound cb ev hmem
    · cases List.mem_singleton.mp hmem
  · intro sock hs
    rw [hgeneration]
    exact (h.socket sock (hsocket ▸ hs)).snoc rfl rfl
  · intro hp
    rw [hgeneration] at hp ⊢
    exact (h.pending (hpending ▸ hp)).snoc rfl
  · rw [hreported, hrevision]
  · refine iff_of_true ?_ (repeats_reported d)
    rw [hreported, hrevision]
  · refine h.sound.snoc (fun generation hx => nomatch hx) (fun cb ev heq => nomatch heq) ?_
    intro d' heq
    obtain rfl := DiagnosticOut.reported.inj heq
    rw [← h.ring]
    exact ⟨hrepeated.trans h.revision, hevents⟩

/-- One step of the machine. -/
theorem Tracked.step (h : Tracked log s) {out : List DiagnosticOut} (hstep : SessionStep s s' out) :
    Tracked (log ++ out) s' := by
  cases hstep with
  | quiet generation ring revision reported socket pending =>
    rw [List.append_nil]
    exact h.quiet generation ring revision reported socket pending
  | attempt cb ev record socket =>
    refine h.record record (by decide) (fun sock hs => ⟨by decide, socket ▸ hs⟩) ?_
      (fun hname => absurd hname (by decide)) fun hname => absurd hname (by decide)
    intro _
    -- the attempt itself is the latest
    refine ⟨log, .recorded cb ev, [], rfl, ?_, fun _ h => nomatch h⟩
    simp [DiagnosticOut.is, record.name, record.carries]
  | response cb ev record socket pending =>
    refine h.record record (by decide) (fun sock hs => ⟨by decide, socket ▸ hs⟩) ?_
      (fun hname => absurd hname (by decide)) fun hname => absurd hname (by decide)
    intro hp
    refine (h.pending (pending ▸ hp)).snoc ?_
    simp [DiagnosticOut.is, record.name]
  | drained cb ev sock record owner opened attempted socket pending =>
    refine h.record record (by decide) (fun sock hs => ⟨by decide, socket ▸ hs⟩) ?_
      (fun hname => absurd hname (by decide)) ?_
    -- the drain has used up the attempt
    · intro hp
      rw [pending] at hp
      cases hp
    · intro _
      refine ⟨?_, sock, owner, ?_⟩
      · rw [record.carries]
        exact h.pending attempted
      · rw [record.carries]
        exact h.socket sock opened
  | closed cb ev sock record opened socket pending =>
    refine h.record record (by decide) (fun sock hs => ?_) (fun hp => ?_) (fun _ => ⟨sock, opened⟩)
      fun hname => absurd hname (by decide)
    · rw [socket] at hs
      cases hs
    · rw [pending] at hp
      cases hp
  | opened cb ev sock name carries generation ring revision reported owner socket pending =>
    exact h.opened name carries generation ring revision reported owner socket pending
  | report d generation ring revision reported socket pending repeated events =>
    exact h.report generation ring revision reported socket pending repeated events

theorem Tracked.init : Tracked [] {} where
  ring := rfl
  current _ hx := nomatch hx
  bound _ _ hmem := nomatch hmem
  socket _ hs := nomatch hs
  pending hp := nomatch hp
  revision_le := by decide
  revision := by
    refine iff_of_false (by decide) ?_
    rintro ⟨a, d, b, hsplit, -⟩
    exact List.append_ne_nil_of_right_ne_nil a (List.cons_ne_nil _ _) hsplit.symm
  sound := by
    refine ⟨fun _ => Nat.zero_le _, fun a cb ev b hsplit _ => ?_, fun a d b hsplit => ?_⟩
    · exact absurd hsplit.symm (List.append_ne_nil_of_right_ne_nil a (List.cons_ne_nil _ _))
    · exact absurd hsplit.symm (List.append_ne_nil_of_right_ne_nil a (List.cons_ne_nil _ _))

theorem Tracked.attributed (h : Tracked log s) : Attributed log s where
  ring := h.ring
  bounded := by
    rw [h.ring, latest, List.rtake, List.length_drop]
    omega
  current ev hev := by
    rw [h.ring] at hev
    exact h.current ev (List.mem_of_mem_drop hev)
  sound := h.sound

end History

/-- In every run, whatever callbacks of whatever transports it interleaves, the
    ring and the reports attribute their events to the right socket. -/
theorem transport_events_attributed (env : MqttEnv) (es : List MqttEvent)
    (log : List DiagnosticOut) (s : MqttState) (hrun : Run (diagnosticsSystem env) es log s) :
    Attributed log s.py.session := by
  refine (hrun.induct (P := fun log s => Tracked log s.py.session) Tracked.init ?_).attributed
  intro log s e s' out h _ hstep
  exact h.step (step_session hstep)

/-- A ping and its drain on a first socket, its close, and two disconnects. -/
def socketSchedule : List MqttEvent :=
  connectSchedule ++ [
    .callback 0 (.socketOpen 7 (some 7) .null), .callback 0 (.connect true),
    .callback 0 (.log "Sending PINGREQ" .null),
    .callback 0 (.socketUnregisterWrite 7 (some 7) false .null),
    .callback 0 (.socketUnregisterWrite 7 (some 7) false .null),
    .callback 0 (.socketClose 7 .null), .callback 0 .disconnect, .callback 0 .disconnect,
    .callback 0 (.socketOpen 8 (some 8) .null), .callback 0 (.socketClose 7 .null)]

/-- The second unregister and the late close of the first socket are not recorded. -/
theorem transport_events_attributed_socket : ∃ log s,
    Run (diagnosticsSystem fixtureEnv) socketSchedule log s ∧ Attributed log s.py.session ∧
      log.length = 7 ∧ s.py.session.socketGeneration = 2 := by
  -- the broker calls of the connection are not evaluated: none of them shows
  let connected := fun s : MqttState => (s.callbackStep fixtureEnv 0 (.connect true)).1
  have hconnect : ∀ s : MqttState, (diagnosticsSystem fixtureEnv).step s
      (.callback 0 (.connect true)) = some (connected s, []) := fun s => by
    have hquiet : recordedBy s.py.session (connected s).py.session
        (.callback 0 (.connect true)) = [] := by
      refine recordedBy_of_eq _ ?_
      simp only [connected, MqttState.callbackStep, onConnect]
      split <;> rfl
    show some (connected s, recordedBy s.py.session (connected s).py.session _ ++ _) = _
    rw [hquiet, filterMap_connect]
    rfl
  have hexec : (((diagnosticsSystem fixtureEnv).exec (diagnosticsSystem fixtureEnv).init
      (socketSchedule.take 8)).any fun r =>
        ((diagnosticsSystem fixtureEnv).exec (connected r.1) (socketSchedule.drop 9)).any fun r' =>
          r.2.length + r'.2.length = 7 && r'.1.py.session.socketGeneration = 2) = true := by
    decide +kernel
  obtain ⟨⟨s, log⟩, hrun, hrest⟩ := (Option.any_eq_true _ _).mp hexec
  obtain ⟨⟨s', log'⟩, hrun', hr⟩ := (Option.any_eq_true _ _).mp hrest
  simp only [Bool.and_eq_true, decide_eq_true_eq] at hr
  have hpath : Run (diagnosticsSystem fixtureEnv) socketSchedule (log ++ ([] ++ log')) s' :=
    (path_of_exec hrun).trans ((Path.single trivial (hconnect s)).trans (path_of_exec hrun'))
  have hattributed := transport_events_attributed fixtureEnv socketSchedule _ s' hpath
  exact ⟨_, s', hpath, hattributed, by rw [List.length_append]; exact hr.1, hr.2⟩

end McpVenusOs
