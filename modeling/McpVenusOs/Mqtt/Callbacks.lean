/-
  McpVenusOs.Mqtt.Callbacks

  The paho callbacks of `mqtt_client.py`.  Each of them takes the client object
  that invoked it and starts with its own ownership check.

  A callback's state changes happen in one section under `_state_lock`, so a
  callback is one atomic function of the fields; what it asks of the broker or
  writes to the log is its output.  Only `_on_message` has a second section, in
  its handler of `queue.Full`, and that is a function of its own.  What the
  callback observes of paho and of the kernel (`client.socket()`, `want_write()`,
  the socket sample) is an argument.
-/

import McpVenusOs.Mqtt.State

namespace McpVenusOs

open Py

/-- The metadata `_on_disconnect` logs. -/
structure Diagnostics where
  connectionEpoch : Nat
  disconnectCallback : Nat
  duplicateInEpoch : Bool
  sessionAge : Option ℚ
  notificationAge : Option ℚ
  pingreqAttemptAge : Option ℚ
  pingrespAge : Option ℚ
  pingreqAttempts : Nat
  pingrespReceived : Nat
  inboxDepth : Nat
  inboxDropped : Nat
  socketGeneration : Nat
  networkThreadAlive : Option Bool
  transportEventsRepeated : Bool
  transportEvents : List (TransportEvent × ℚ)

/-- What a run's log shows: the messages, the calls to the broker, the
    lifecycle of transports and threads. -/
inductive MqttOut
  /-- `_on_message` enqueued the message, at this clock. -/
  | received (now : ℚ) (e : InboxEntry)
  /-- `_on_message` of the owned transport lost the message. -/
  | dropped (now : ℚ) (client : Nat) (msg : Message)
  /-- `_handle_message` took the entry; whether its transport was current. -/
  | decoded (e : InboxEntry) (current : Bool)
  | notified (topic : String) (payload : Json) (callbacks : List Nat)
  | subscribe (client : Nat) (pattern : String)
  | unsubscribe (client : Nat) (pattern : String)
  | publish (client : Nat) (topic payload : String)
  | disconnected (client : Nat) (d : Diagnostics)
  | raised (client : Nat) (e : PyError)
  /-- `_stop_transport` began, on behalf of `disconnect()` or of `connect()`. -/
  | shutdown (byDisconnect : Bool) (client : Option Nat)
  | retired
  | started (client : Nat)
  | workerStarted (tid : Nat)
  | loopStarted (client tid : Nat)
  | connectReturned (client : Option Nat)
  | connectRaised (e : PyError)

/-! ## `_on_connect`, `_on_disconnect` -/

/-- The section of `_on_connect` under `_state_lock`. -/
def Session.connect (s : Session) (now : ℚ) (accepted : Bool) : Session :=
  if accepted then
    { s with connected := true, connectionEpoch := s.connectionEpoch + 1,
             sessionStartedAt := some now, lastReceivedAt := none, lastPingreqAt := none,
             lastPingrespAt := none, pingreqAttempts := 0, pingrespReceived := 0,
             disconnectCallbacks := 0, inboxDropped := 0, pendingPingreqGeneration := none }
  else { s with connected := false }

/-- The patterns subscribed on a new connection, in order. -/
def connectFilters (base explicit : List String) : List String :=
  (base ++ explicit.filter fun p => !coveredBy base p).dedup.insertionSort (· ≤ ·)

/-- The broker calls of `_on_connect` after a successful connection. -/
def connectCalls (env : MqttEnv) (explicit : List String) (t : Nat) : List MqttOut :=
  match baseSubscriptions env.config env.contracts with
  | .error e => [.raised t e]
  | .ok base =>
    (connectFilters base explicit).map (.subscribe t) ++
      [.publish t ("R/" ++ env.config.portalId.getD "None" ++ "/keepalive") ""]

def onConnect (env : MqttEnv) (now : ℚ) (t : Nat) (accepted : Bool) (c : MqttClient) :
    MqttClient × List MqttOut :=
  if !c.transport.current t then (c, [])
  else
    ({ c with session := c.session.connect now accepted },
      if accepted then connectCalls env c.registry.explicit t else [])

/-- `round(max(0.0, now - received_at), 3)` -/
def age (now receivedAt : ℚ) : ℚ := pyRound (max 0 (now - receivedAt)) 3

/-- The record `_on_disconnect` builds, once `_disconnect_callbacks` is counted. -/
def diagnostics (s : Session) (now : ℚ) (inboxDepth : Nat) (threadAlive : Option Bool) :
    Diagnostics where
  connectionEpoch := s.connectionEpoch
  disconnectCallback := s.disconnectCallbacks
  duplicateInEpoch := 1 < s.disconnectCallbacks
  sessionAge := s.sessionStartedAt.map (age now)
  notificationAge := s.lastReceivedAt.map (age now)
  pingreqAttemptAge := s.lastPingreqAt.map (age now)
  pingrespAge := s.lastPingrespAt.map (age now)
  pingreqAttempts := s.pingreqAttempts
  pingrespReceived := s.pingrespReceived
  inboxDepth := inboxDepth
  inboxDropped := s.inboxDropped
  socketGeneration := s.socketGeneration
  networkThreadAlive := threadAlive
  transportEventsRepeated := s.reportedTransportEventRevision = s.transportEventRevision
  transportEvents :=
    if s.reportedTransportEventRevision ≠ s.transportEventRevision then
      s.transportEvents.map fun ev => (ev, age now ev.observedAt)
    else []

def onDisconnect (now : ℚ) (alive : Nat → Bool) (t : Nat) (c : MqttClient) :
    MqttClient × List MqttOut :=
  if !c.transport.current t then (c, [])
  else
    let s := { c.session with connected := false,
                              disconnectCallbacks := c.session.disconnectCallbacks + 1 }
    ({ c with session := { s with reportedTransportEventRevision := s.transportEventRevision } },
      [.disconnected t (diagnostics s now c.inbox.length (c.transport.loopThread.map alive))])

/-! ## Transport diagnostics -/

/-- `sample_socket`: `kernel` is what the kernel says of an open socket. -/
def sampleSocket (kernel : Json) : Option Nat → Json
  | none => .obj [("status", .str "no_socket")]
  | some _ => kernel

/-- Append fixed metadata; the ring keeps the latest `TRANSPORT_EVENT_LIMIT` events. -/
def Session.recordTransportEvent (s : Session) (event : String) (observedAt : ℚ)
    (kernel : Json) : Session :=
  let events := s.transportEvents ++
    [⟨observedAt, event, s.socketGeneration, sampleSocket kernel s.diagnosticSocket⟩]
  { s with transportEvents := events.drop (events.length - transportEventLimit),
           transportEventRevision := s.transportEventRevision + 1 }

def onLog (now : ℚ) (kernel : Json) (t : Nat) (message : String) (c : MqttClient) : MqttClient :=
  if message ≠ "Sending PINGREQ" ∧ message ≠ "Received PINGRESP" then c
  else if !c.transport.current t || !c.session.connected then c
  else if message = "Sending PINGREQ" then
    let s := { c.session with lastPingreqAt := some now,
                              pingreqAttempts := c.session.pingreqAttempts + 1,
                              pendingPingreqGeneration := some c.session.socketGeneration }
    { c with session := s.recordTransportEvent "pingreq_attempt" now kernel }
  else
    let s := { c.session with lastPingrespAt := some now,
                              pingrespReceived := c.session.pingrespReceived + 1 }
    { c with session := s.recordTransportEvent "pingresp_decoded" now kernel }

def onSocketOpen (now : ℚ) (kernel : Json) (t : Nat) (sock : Nat) (clientSocket : Option Nat)
    (c : MqttClient) : MqttClient :=
  if !c.transport.current t || clientSocket ≠ some sock then c
  else
    let s := { c.session with socketGeneration := c.session.socketGeneration + 1,
                              diagnosticSocket := some sock,
                              pendingPingreqGeneration := none, transportEvents := [] }
    { c with session := s.recordTransportEvent "socket_open" now kernel }

def onSocketUnregisterWrite (now : ℚ) (kernel : Json) (t : Nat) (sock : Nat)
    (clientSocket : Option Nat) (wantWrite : Bool) (c : MqttClient) : MqttClient :=
  if !c.transport.current t || !c.session.connected || c.session.diagnosticSocket ≠ some sock ||
      clientSocket ≠ some sock || wantWrite ||
      c.session.pendingPingreqGeneration ≠ some c.session.socketGeneration then c
  else
    let s := { c.session with pendingPingreqGeneration := none }
    { c with session := s.recordTransportEvent "output_drained_after_pingreq" now kernel }

def onSocketClose (now : ℚ) (kernel : Json) (t : Nat) (sock : Nat) (c : MqttClient) :
    MqttClient :=
  if !c.transport.current t || c.session.diagnosticSocket ≠ some sock then c
  else
    let s := c.session.recordTransportEvent "socket_close" now kernel
    { c with session := { s with diagnosticSocket := none, pendingPingreqGeneration := none } }

/-! ## `_on_message` -/

/-- The first section: enqueue with the receive time.  What does not fit is left to the
    handler of `queue.Full`. -/
def onMessage (now : ℚ) (serial : Nat) (t : Nat) (msg : Message) (c : MqttClient) :
    MqttClient × List MqttOut :=
  if !c.transport.current t then (c, [])
  else
    let session := { c.session with lastReceivedAt := some now }
    if c.inbox.length < inboxMaxsize then
      let e : InboxEntry := ⟨serial, t, msg, now⟩
      ({ c with session := session, inbox := c.inbox ++ [some e] }, [.received now e])
    else ({ c with session := session }, [.dropped now t msg])

/-- The handler of `queue.Full`: count the overflow, if the transport is still owned, and
    log it. -/
def onQueueFull (now : ℚ) (t : Nat) (c : MqttClient) : MqttClient :=
  let session := if c.transport.current t then
      { c.session with inboxDropped := c.session.inboxDropped + 1 }
    else c.session
  { c with session := session,
           lastDropLog := if dropLogInterval ≤ now - c.lastDropLog then now else c.lastDropLog }

end McpVenusOs
