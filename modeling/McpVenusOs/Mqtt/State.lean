/-
  McpVenusOs.Mqtt.State

  The state of `MQTTClient`: its fields, as `__init__` sets them.

  The fields are grouped by who may change them.  `Transport` is the ownership
  record that `connect` and `disconnect` maintain, `Session` the metadata the
  paho callbacks keep under `_state_lock`, `Feed` the schedule of the read-feed
  maintenance on the decoder worker.  A paho client object, a thread and a
  socket are numbers; a message delivered by paho gets the next `serial`, which
  stands for the identity of the message object.

  `time.monotonic()` is an exact rational, here and in every module above, and
  so are the sums, differences and rounded ages of its readings.  The source
  computes them in doubles, so a comparison may fall the other way within the
  last place of its bound.
-/

import Mathlib.Data.List.AList
import McpVenusOs.Lib.PyInt
import McpVenusOs.Mqtt.Filters

namespace McpVenusOs

open Py

/-! ## Constants -/

/-- Bound on queued inbound messages; when full, new messages are dropped. -/
def inboxMaxsize : Nat := 50000

/-- Minimum seconds between overflow warnings. -/
def dropLogInterval : ℚ := 10

def inboxProcessBatchSize : Nat := 64

def transportEventLimit : Nat := 12

def connectWaitSteps : Nat := 50

/-! ## Messages -/

structure Message where
  topic : String
  payload : List UInt8
  retain : Bool

/-- An inbox entry `(client, msg, received_at)`. -/
structure InboxEntry where
  serial : Nat
  client : Nat
  msg : Message
  receivedAt : ℚ

/-- `config.mqtt`, the contracts, and `json.loads(payload.decode())`, which is
    `none` where it raises. -/
structure MqttEnv where
  config : MQTTConfig
  contracts : List HardwareWriteContract
  loads : List UInt8 → Option Json
  /-- The Unicode property behind `str.isdigit`. -/
  isDigit : Char → Bool

/-- The topic of `system/0/Serial` below a prefix. -/
def serialTopic (pre : String) : String := pre ++ "/system/0/Serial"

/-! ## Fields of the client object -/

/-- The owned transport and its threads. -/
structure Transport where
  client : Option Nat := none
  stopping : Bool := false
  workerStop : Bool := false
  worker : Option Nat := none
  loopThread : Option Nat := none
  deriving DecidableEq

/-- `client is self.client and not self._stopping`. -/
def Transport.current (o : Transport) (t : Nat) : Bool := o.client = some t && !o.stopping

/-- An entry of `_transport_events`. -/
structure TransportEvent where
  observedAt : ℚ
  event : String
  socketGeneration : Nat
  socket : Json

/-- Connection metadata, protected by `_state_lock`. -/
structure Session where
  connected : Bool := false
  connectionEpoch : Nat := 0
  sessionStartedAt : Option ℚ := none
  lastReceivedAt : Option ℚ := none
  lastPingreqAt : Option ℚ := none
  lastPingrespAt : Option ℚ := none
  pingreqAttempts : Nat := 0
  pingrespReceived : Nat := 0
  disconnectCallbacks : Nat := 0
  inboxDropped : Nat := 0
  socketGeneration : Nat := 0
  diagnosticSocket : Option Nat := none
  pendingPingreqGeneration : Option Nat := none
  /-- `deque(maxlen=TRANSPORT_EVENT_LIMIT)`, oldest first. -/
  transportEvents : List TransportEvent := []
  transportEventRevision : Nat := 0
  reportedTransportEventRevision : Int := -1

/-- The schedule of `_maintain_read_feed`. -/
structure Feed where
  maintenanceEpoch : Int := -1
  nextKeepalive : ℚ := 0
  nextRefresh : ℚ := 0
  nextRefreshBatch : ℚ := 0
  refreshCursor : Nat := 0
  pendingRefresh : List String := []
  deriving DecidableEq

/-- A cached value with its monotonic receive time. -/
abbrev CacheEntry : Type := Json × ℚ

abbrev Cache : Type := AList fun _ : String => CacheEntry

/-- One key of `_callbacks`, with its sequence number in `_callback_index`. -/
structure Registration where
  pattern : String
  sequence : Nat
  callbacks : List Nat
  deriving DecidableEq

/-- `_callbacks`, `_callback_index` and `_callback_sequence`. -/
structure Registry where
  entries : List Registration := []
  sequence : Nat := 0
  deriving DecidableEq

structure MqttClient where
  transport : Transport := {}
  session : Session := {}
  /-- `_inbox`, oldest first; `none` is a shutdown sentinel. -/
  inbox : List (Option InboxEntry) := []
  cache : Cache := ∅
  retainedSerialSeen : Bool := false
  lastDropLog : ℚ := 0
  registry : Registry := {}
  feed : Feed := {}

/-! ## Registrations -/

namespace Registry

/-- `{pattern for pattern, callbacks in self._callbacks.items() if callbacks}` -/
def explicit (r : Registry) : List String :=
  (r.entries.filter fun e => !e.callbacks.isEmpty).map (·.pattern)

/-- `topic_pattern in self._callbacks` -/
def has (r : Registry) (pattern : String) : Bool := r.entries.any (·.pattern = pattern)

/-- The section of `subscribe` under `_callback_lock`. -/
def subscribe (r : Registry) (pattern : String) (callback : Nat) : Registry :=
  if r.has pattern then
    { r with entries := r.entries.map fun e =>
        if e.pattern = pattern then { e with callbacks := e.callbacks ++ [callback] } else e }
  else
    { entries := r.entries ++ [⟨pattern, r.sequence, [callback]⟩], sequence := r.sequence + 1 }

/-- The section of `unsubscribe` under `_callback_lock`: the registry, and
    whether the pattern was removed.  `list.remove` raises on a callback that
    is not there. -/
def unsubscribe (r : Registry) (pattern : String) (callback : Nat) :
    Except PyError (Registry × Bool) :=
  match r.entries.find? (·.pattern = pattern) with
  | none => .ok (r, false)
  | some e =>
    if callback ∈ e.callbacks then
      if e.callbacks.erase callback = [] then
        .ok ({ r with entries := r.entries.filter (·.pattern ≠ pattern) }, true)
      else
        .ok ({ r with entries := r.entries.map fun e =>
          if e.pattern = pattern then { e with callbacks := e.callbacks.erase callback } else e },
          false)
    else .error .valueError

/-- The callbacks of `_notify_callbacks`, in registration order. -/
def matching (r : Registry) (topic : String) : List Nat :=
  ((r.entries.filter fun e => TopicFilter.topicMatchesSub e.pattern topic).insertionSort
    fun a b => a.sequence ≤ b.sequence).flatMap (·.callbacks)

end Registry

/-! ## Reads -/

/-- The f-string of a topic: an instance of more than 4300 digits has no text. -/
def formatTopic (pre deviceType : String) (inst : Int) (path : String) :
    Except PyError String :=
  match pyStr inst with
  | some text => .ok (pre ++ "/" ++ deviceType ++ "/" ++ text ++ "/" ++ path)
  | none => .error .valueError

theorem formatTopic_eq {pre deviceType path : String} {inst : Int}
    (h : (pyStr inst).isSome = true) :
    formatTopic pre deviceType inst path = .ok (itemTopic pre deviceType inst path) := by
  obtain ⟨text, htext⟩ := Option.isSome_iff_exists.mp h
  obtain rfl := pyStr_eq htext
  rw [formatTopic, htext, itemTopic]

theorem formatTopic_eq_ok {pre deviceType path topic : String} {inst : Int} :
    formatTopic pre deviceType inst path = .ok topic ↔
      (pyStr inst).isSome = true ∧ topic = itemTopic pre deviceType inst path := by
  cases htext : pyStr inst with
  | none => simp [formatTopic, htext]
  | some text =>
    rw [formatTopic_eq (by rw [htext, Option.isSome_some])]
    simp [eq_comm]

namespace MqttClient

/-- `read_path`: a value and its age; it raises without a portal ID. -/
def readPath (c : MqttClient) (env : MqttEnv) (now : ℚ) (deviceType : String) (inst : Int)
    (path : String) : Except PyError (Option (Json × PyNum)) := do
  let pre ← env.config.topicPrefix
  let topic ← formatTopic pre deviceType inst path
  return (c.cache.lookup topic).map fun (v, receivedAt) =>
    (v, .float (.finite (now - receivedAt)))

/-- `read_path_since`: only cache updates at or after `since`. -/
def readPathSince (c : MqttClient) (env : MqttEnv) (now : ℚ) (deviceType : String) (inst : Int)
    (path : String) (since : ℚ) : Except PyError (Option (Json × PyNum)) := do
  let pre ← env.config.topicPrefix
  let topic ← formatTopic pre deviceType inst path
  return (c.cache.lookup topic).bind fun (v, receivedAt) =>
    if receivedAt < since then none else some (v, .float (.finite (now - receivedAt)))

section

variable {c : MqttClient} {env : MqttEnv} {now since : ℚ} {pre deviceType path topic : String}
  {inst : Int} {result : Option (Json × PyNum)}

theorem readPath_eq (hpre : env.config.topicPrefix = .ok pre)
    (htopic : formatTopic pre deviceType inst path = .ok topic) :
    c.readPath env now deviceType inst path =
      .ok ((c.cache.lookup topic).map fun (v, receivedAt) =>
        (v, .float (.finite (now - receivedAt)))) := by
  rw [readPath, hpre]
  show (do
    let topic ← formatTopic pre deviceType inst path
    return (c.cache.lookup topic).map _) = _
  rw [htopic]
  rfl

theorem readPathSince_eq (hpre : env.config.topicPrefix = .ok pre)
    (htopic : formatTopic pre deviceType inst path = .ok topic) :
    c.readPathSince env now deviceType inst path since =
      .ok ((c.cache.lookup topic).bind fun (v, receivedAt) =>
        if receivedAt < since then none
        else some (v, .float (.finite (now - receivedAt)))) := by
  rw [readPathSince, hpre]
  show (do
    let topic ← formatTopic pre deviceType inst path
    return (c.cache.lookup topic).bind _) = _
  rw [htopic]
  rfl

theorem readPath_error {e : PyError} (hpre : env.config.topicPrefix = .ok pre)
    (htopic : formatTopic pre deviceType inst path = .error e) :
    c.readPath env now deviceType inst path = .error e := by
  rw [readPath, hpre]
  show (do
    let topic ← formatTopic pre deviceType inst path
    return (c.cache.lookup topic).map _) = _
  rw [htopic]
  rfl

/-- A read returns only where its topic has a text. -/
theorem readPath_eq_ok (hpre : env.config.topicPrefix = .ok pre)
    (h : c.readPath env now deviceType inst path = .ok result) :
    ∃ topic, formatTopic pre deviceType inst path = .ok topic ∧
      result = (c.cache.lookup topic).map fun (v, receivedAt) =>
        (v, .float (.finite (now - receivedAt))) := by
  cases htopic : formatTopic pre deviceType inst path with
  | error e =>
    rw [readPath_error hpre htopic] at h
    cases h
  | ok topic =>
    rw [readPath_eq hpre htopic] at h
    exact ⟨topic, rfl, (Except.ok.inj h).symm⟩

end

end MqttClient

end McpVenusOs
