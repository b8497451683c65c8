/-
  McpVenusOs.Mqtt.Decoder

  The decoder worker: `_process_inbox`, `_handle_message` and
  `_notify_callbacks`.

  A worker is its program counter.  Between two of its steps any other thread
  may move; a step is one section under a lock, one queue operation or one test
  of `_worker_stop`.  `handleMessage` decides in its one section under
  `_state_lock` what the entry does to the fields, and what to notify
  afterwards.
-/

import McpVenusOs.Mqtt.ReadFeed

namespace McpVenusOs

open Py Program

/-! ## `_handle_message` -/

/-- The Venus gateway wraps item values as `{"value": X}`. -/
def unwrap : Json → Json
  | .obj [("value", v)] => v
  | payload => payload

/-- The topics the cache holds: the portal's own, and companion services. -/
def cacheable (pre topic : String) : Bool :=
  startsWith topic (pre ++ "/") || isCapabilityTopic topic

namespace MqttClient

/-- The empty notification: the D-Bus item disappeared. -/
def removeItem (c : MqttClient) (env : MqttEnv) (topic : String) : MqttClient :=
  let c := { c with cache := c.cache.erase topic }
  match env.config.topicPrefix with
  | .error _ => c
  | .ok pre => if topic = serialTopic pre then { c with retainedSerialSeen := false } else c

/-- Decode one message, update the cache, and say what to notify.  Invalid
    payloads and a missing portal ID end in the log. -/
def handleMessage (c : MqttClient) (env : MqttEnv) (e : InboxEntry) :
    MqttClient × Option (String × Json) :=
  -- an empty payload: the item disappeared
  if e.msg.payload = [] then
    if c.transport.current e.client then (c.removeItem env e.msg.topic, none) else (c, none)
  else
    match env.loads e.msg.payload with
    | none => (c, none)
    | some decoded =>
      let payload := unwrap decoded
      let topic := e.msg.topic
      -- a retired transport's entry is decoded and then dropped
      if !c.transport.current e.client then (c, none)
      else
        match env.config.topicPrefix with
        | .error _ => (c, none)
        | .ok pre =>
          -- a retained serial is remembered but not cached
          if topic = serialTopic pre ∧ e.msg.retain = true then
            ({ c with retainedSerialSeen := true }, none)
          else if cacheable pre topic then
            ({ c with cache := c.cache.insert topic (payload, e.receivedAt) },
              some (topic, payload))
          else (c, some (topic, payload))

end MqttClient

/-! ## `_process_inbox` -/

inductive DecoderPc
  /-- At the loop's test, with the messages processed since the last pause. -/
  | top (processed : Nat)
  /-- In `_maintain_read_feed`; then `take` from the inbox, or test again. -/
  | feeding (processed : Nat) (take : Bool) (rest : FeedProgram Unit)
  | take (processed : Nat)
  | holding (processed : Nat) (e : InboxEntry)
  | notifying (processed : Nat) (topic : String) (payload : Json)

/-- The entry a worker holds between `get` and `_handle_message`. -/
def DecoderPc.held : DecoderPc → Option InboxEntry
  | .holding _ e => some e
  | _ => none

/-- After a message: yield after a bounded batch. -/
def DecoderPc.afterMessage (processed : Nat) : DecoderPc :=
  .top (if inboxProcessBatchSize ≤ processed + 1 then 0 else processed + 1)

/-- One step of a worker: where it goes on (`none`: the thread ends), the
    fields, and what is seen of it. -/
def decoderStep (env : MqttEnv) (now : ℚ) (accepted : Bool) (c : MqttClient) :
    DecoderPc → Option DecoderPc × MqttClient × List MqttOut
  | .top processed =>
    if c.transport.workerStop then (none, c, [])
    else if processed = 0 then
      (some (.feeding processed true (maintainReadFeed env c.feed)), c, [])
    else (some (.take processed), c, [])
  | .feeding processed take rest =>
    match rest with
    | .ret _ => (some (if take then .take processed else .top processed), c, [])
    -- an exception in the feed ends the thread
    | .raise _ => (none, c, [])
    | .op o k =>
      let answer := c.answerFeed now accepted o
      (some (.feeding processed take (k answer.1)), answer.2.1, answer.2.2)
  | .take processed =>
    match c.inbox with
    | [] => (some (.feeding processed false (maintainReadFeed env c.feed)), c, [])
    -- the shutdown sentinel
    | none :: rest => (none, { c with inbox := rest }, [])
    | some e :: rest => (some (.holding processed e), { c with inbox := rest }, [])
  | .holding processed e =>
    match c.handleMessage env e with
    | (c', some (topic, payload)) =>
      (some (.notifying processed topic payload), c',
        [.decoded e (c.transport.current e.client)])
    | (c', none) =>
      (some (.afterMessage processed), c', [.decoded e (c.transport.current e.client)])
  | .notifying processed topic payload =>
    let callbacks := c.registry.matching topic
    (some (.afterMessage processed), c,
      if callbacks = [] then [] else [.notified topic payload callbacks])

/-! ## What a message does -/

/-- What a current entry does to the cache, below the prefix `pre`. -/
def applyEntry (env : MqttEnv) (pre : String) (cache : Cache) (e : InboxEntry) : Cache :=
  if e.msg.payload = [] then cache.erase e.msg.topic
  else
    match env.loads e.msg.payload with
    | none => cache
    | some decoded =>
      if e.msg.topic = serialTopic pre ∧ e.msg.retain = true then cache
      else if cacheable pre e.msg.topic then
        cache.insert e.msg.topic (unwrap decoded, e.receivedAt)
      else cache

namespace MqttClient

variable {c : MqttClient} {env : MqttEnv} {e : InboxEntry}

theorem handleMessage_cache {pre : String} (hpre : env.config.topicPrefix = .ok pre) :
    (c.handleMessage env e).1.cache =
      if c.transport.current e.client then applyEntry env pre c.cache e else c.cache := by
  unfold handleMessage applyEntry removeItem
  by_cases hempty : e.msg.payload = []
  · simp only [hempty, if_true, hpre]
    split
    · split <;> rfl
    · rfl
  · simp only [hempty, if_false, hpre]
    cases env.loads e.msg.payload with
    | none => simp
    | some decoded =>
        simp only
        cases c.transport.current e.client with
        | false => rfl
        | true =>
            simp only [Bool.not_true, Bool.false_eq_true, if_false, if_true]
            split
            · rfl
            · split <;> rfl

/-- Decoding an entry touches the cache and the retained-Serial flag only. -/
theorem handleMessage_frame (c : MqttClient) (env : MqttEnv) (e : InboxEntry) :
    ∃ cache seen, (c.handleMessage env e).1 =
      { c with cache := cache, retainedSerialSeen := seen } := by
  unfold handleMessage removeItem
  split
  · split
    · simp only
      split
      · exact ⟨_, _, rfl⟩
      · split <;> exact ⟨_, _, rfl⟩
    · exact ⟨_, _, rfl⟩
  · split
    · exact ⟨_, _, rfl⟩
    · simp only
      split
      · exact ⟨_, _, rfl⟩
      · split
        · exact ⟨_, _, rfl⟩
        · split
          · exact ⟨_, _, rfl⟩
          · split <;> exact ⟨_, _, rfl⟩

/-- An entry of a transport that is no longer current does nothing at all. -/
theorem handleMessage_stale (h : c.transport.current e.client = false) :
    c.handleMessage env e = (c, none) := by
  unfold handleMessage
  simp only [h, Bool.false_eq_true, if_false, Bool.not_false, if_true]
  split
  · rfl
  · split <;> rfl

end MqttClient

end McpVenusOs
