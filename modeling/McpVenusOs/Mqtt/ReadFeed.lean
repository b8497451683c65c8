/-
  McpVenusOs.Mqtt.ReadFeed

  `_maintain_read_feed`: keepalives and paced exact reads, sent by the decoder
  worker between two messages.

  The routine is a `Program`: every section under a lock, every read of a field
  another thread may change and every publish is one operation, so the rest of
  the client can move in between.  The schedule fields are touched by no other
  thread; `store` writes them back before the next operation that can fail.
-/

import McpVenusOs.Lib.Program
import McpVenusOs.Mqtt.Callbacks

namespace McpVenusOs

open Py Program

def applicationKeepalive : ℚ := 30

def refreshInterval : ℚ := 30

def refreshBatchInterval : ℚ := 1 / 4

def refreshBatchSize : Nat := 8

def maxRefreshTopics : Nat := 512

def suppressRepublish : String := "\x7b\"keepalive-options\":[\"suppress-republish\"]\x7d"

inductive FeedOp
  /-- `time.monotonic()`: the schedule adds to it exactly. -/
  | monotonic
  /-- The first section: the owned transport and its epoch, if reads are on. -/
  | begin
  /-- The check at the head of the batch loop. -/
  | owned (transport epoch : Nat)
  /-- The check of `_publish_read`. -/
  | ready (transport epoch : Nat)
  /-- `transport.publish(..).rc == MQTT_ERR_SUCCESS`; an exception is `false`. -/
  | publish (transport : Nat) (topic payload : String)
  | explicitPatterns
  | cachedTopics
  | retainedSerialSeen
  | store (feed : Feed)

abbrev FeedResp : FeedOp → Type
  | .monotonic => ℚ
  | .begin => Option (Nat × Nat)
  | .owned _ _ => Bool
  | .ready _ _ => Bool
  | .publish _ _ _ => Bool
  | .explicitPatterns => List String
  | .cachedTopics => List String
  | .retainedSerialSeen => Bool
  | .store _ => Unit

abbrev FeedProgram (α : Type) : Type := Program FeedOp FeedResp PyError α

abbrev feedOp (o : FeedOp) : FeedProgram (FeedResp o) := perform o

/-- `_publish_read` -/
def publishRead (transport epoch : Nat) (topic payload : String) : FeedProgram Bool := do
  if ← feedOp (.ready transport epoch) then feedOp (.publish transport topic payload)
  else pure false

/-- `_refresh_candidates` -/
def refreshCandidates (env : MqttEnv) : FeedProgram (List String) := do
  let explicit ← feedOp .explicitPatterns
  let cached ← feedOp .cachedTopics
  let seen ← feedOp .retainedSerialSeen
  match env.config.topicPrefix with
  | .error e => .raise e
  | .ok pre =>
    let observed := if seen then cached ++ [serialTopic pre] else cached
    pure (refreshTopics env.isDigit pre observed env.contracts explicit)

/-- A new rotation, once the last one has been sent. -/
def Feed.select (feed : Feed) (now : ℚ) (candidates : List String) : Feed :=
  if feed.nextRefresh ≤ now ∧ feed.pendingRefresh = [] then
    let feed := { feed with nextRefresh := now + refreshInterval }
    if candidates = [] then feed
    else
      let start := feed.refreshCursor % candidates.length
      let selected := (candidates.drop start ++ candidates.take start).take maxRefreshTopics
      { feed with pendingRefresh := feed.pendingRefresh ++ selected,
                  refreshCursor := (start + selected.length) % candidates.length }
  else feed

/-- The batch loop, with the iterations left. -/
def refreshBatch (env : MqttEnv) (transport epoch : Nat) (candidates : List String) :
    Nat → Feed → FeedProgram Unit
  | 0, _ => pure ()
  | n + 1, feed => do
    if ← feedOp (.owned transport epoch) then
      match feed.pendingRefresh with
      | [] => pure ()
      | topic :: rest =>
        let popped := { feed with pendingRefresh := rest }
        feedOp (.store popped)
        if topic ∈ candidates then
          -- FlashMQ also treats the legacy Serial alias as a keepalive
          let payload := if some topic = env.config.topicPrefix.toOption.map serialTopic
            then suppressRepublish else ""
          if ← publishRead transport epoch ("R/" ++ String.ofList (topic.toList.drop 2)) payload
          then refreshBatch env transport epoch candidates n popped
          else feedOp (.store feed)
        else refreshBatch env transport epoch candidates n popped
    else pure ()

/-- The part of `_maintain_read_feed` after the keepalive. -/
def refreshReads (env : MqttEnv) (now : ℚ) (transport epoch : Nat) (feed : Feed) :
    FeedProgram Unit := do
  if now < feed.nextRefreshBatch then pure ()
  else if now < feed.nextRefresh ∧ feed.pendingRefresh = [] then pure ()
  else
    let candidates ← refreshCandidates env
    let feed := { feed.select now candidates with nextRefreshBatch := now + refreshBatchInterval }
    feedOp (.store feed)
    refreshBatch env transport epoch candidates refreshBatchSize feed

/-- `_maintain_read_feed`, started with the schedule `feed`. -/
def maintainReadFeed (env : MqttEnv) (feed : Feed) : FeedProgram Unit := do
  let now ← feedOp .monotonic
  match ← feedOp .begin with
  | none => pure ()
  | some (transport, epoch) =>
    if feed.maintenanceEpoch ≠ epoch then
      feedOp (.store { feed with
        maintenanceEpoch := epoch, pendingRefresh := [],
        nextKeepalive := now + applicationKeepalive, nextRefresh := now + refreshInterval,
        nextRefreshBatch := now })
    else if feed.nextKeepalive ≤ now then
      let accepted ← publishRead transport epoch
        ("R/" ++ env.config.portalId.getD "None" ++ "/keepalive") suppressRepublish
      let delay := if accepted then applicationKeepalive else 1
      let feed := { feed with nextKeepalive := now + delay }
      feedOp (.store feed)
      refreshReads env now transport epoch feed
    else refreshReads env now transport epoch feed

/-! ## The operations on the client -/

namespace MqttClient

/-- Answer one operation: the fields of the client, and what goes to the broker.
    `accepted` is how the broker client takes a publish. -/
def answerFeed (c : MqttClient) (now : ℚ) (accepted : Bool) :
    (o : FeedOp) → FeedResp o × MqttClient × List MqttOut
  | .monotonic => (now, c, [])
  | .begin =>
    if c.transport.stopping || c.transport.workerStop || !c.session.connected then (none, c, [])
    else (c.transport.client.map fun t => (t, c.session.connectionEpoch), c, [])
  | .owned t epoch =>
    (!c.transport.stopping && c.transport.client = some t && c.session.connectionEpoch = epoch,
      c, [])
  | .ready t epoch =>
    (!c.transport.stopping && !c.transport.workerStop && c.session.connected &&
      c.transport.client = some t && c.session.connectionEpoch = epoch, c, [])
  | .publish t topic payload => (accepted, c, [.publish t topic payload])
  | .explicitPatterns => (c.registry.explicit, c, [])
  | .cachedTopics => (c.cache.keys, c, [])
  | .retainedSerialSeen => (c.retainedSerialSeen, c, [])
  | .store feed => ((), { c with feed := feed }, [])

/-- The maintenance only ever changes its own schedule. -/
theorem answerFeed_client (c : MqttClient) (now : ℚ) (accepted : Bool) (o : FeedOp) :
    ∃ feed, (c.answerFeed now accepted o).2.1 = { c with feed := feed } := by
  cases o <;> simp only [answerFeed]
  case begin => split <;> exact ⟨c.feed, rfl⟩
  case store feed => exact ⟨feed, rfl⟩
  all_goals exact ⟨c.feed, rfl⟩

/-- Its output is a publish. -/
theorem answerFeed_out (c : MqttClient) (now : ℚ) (accepted : Bool) (o : FeedOp) :
    (c.answerFeed now accepted o).2.2 = [] ∨
      ∃ t topic payload, (c.answerFeed now accepted o).2.2 = [.publish t topic payload] := by
  cases o
  case begin =>
    simp only [answerFeed]
    split <;> exact .inl rfl
  case publish t topic payload => exact .inr ⟨t, topic, payload, rfl⟩
  all_goals exact .inl rfl

end MqttClient

end McpVenusOs
