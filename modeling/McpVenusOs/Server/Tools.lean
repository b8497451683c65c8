/-
  McpVenusOs.Server.Tools

  The MQTT write tools of `server.py`: `set_inverter_mode`,
  `set_charge_current_limit`, `set_soc_limit` and `_mqtt_write_and_verify`.

  A tool is a program over what it does to the outside: a look at the cache, at
  the clock, at the safety settings, a publish, a sleep, the wait for the
  client.  Any other thread or task may move between two of these.  Only `sleep`
  and `ready` are awaits.

  The polling loop is bounded by a number of polls the caller of the model
  chooses; a run in which the loop goes round n times is a run of every bound
  above n.
-/

import McpVenusOs.Lib.Program
import McpVenusOs.Safety
import McpVenusOs.Mqtt.Removal

namespace McpVenusOs

open Py Program

/-! ## Operations -/

inductive ServerOp
  /-- `client._cache.get(topic)` -/
  | entry (topic : String)
  /-- `time.monotonic()`: ages and deadlines are exact, not rounded to doubles. -/
  | monotonic
  /-- A look at `get_safety_validator().config`. -/
  | safety
  /-- `client.publish(topic, payload)` -/
  | publish (topic : String) (payload : Json)
  /-- `await asyncio.sleep(0.2)` -/
  | sleep
  /-- `await _mqtt_ready()` -/
  | ready

abbrev ServerResp : ServerOp → Type
  | .entry _ => Option CacheEntry
  | .monotonic => ℚ
  | .safety => SafetyConfig
  | .publish _ _ => Except PyError Unit
  | .sleep => Unit
  | .ready => Except PyError Unit

abbrev ServerProgram : Type → Type := Program ServerOp ServerResp PyError

abbrev ServerTrace : Type := Trace ServerOp ServerResp

abbrev serverOp (o : ServerOp) : ServerProgram (ServerResp o) := perform o

/-- What the server is configured with, and the library functions it calls. -/
structure ServerEnv where
  mqtt : MqttEnv
  /-- `_use_mqtt()` -/
  usesMqtt : Bool
  search : Search
  /-- `float(s)` of a string. -/
  parseFloat : String → Option PyFloat
  /-- `json.dumps` -/
  dumps : Json → String

/-- `except MQTTError` -/
def isMqttError : PyError → Bool
  | .mqttError | .notConnected | .connectionTimeout => true
  | _ => false

namespace Server

def ofExcept {α : Type} : Except PyError α → ServerProgram α
  | .ok a => .ret a
  | .error e => .raise e

/-! ## `read_path`, `read_path_since` -/

/-- `MQTTClient.read_path`, one look at the cache and one at the clock. -/
def readPath (cfg : MQTTConfig) : Read ServerProgram := fun deviceType inst path => do
  let pre ← ofExcept cfg.topicPrefix
  let topic ← ofExcept (formatTopic pre deviceType inst path)
  match ← serverOp (.entry topic) with
  | none => return none
  | some (v, receivedAt) => do
    let now ← serverOp .monotonic
    return some (v, .float (.finite (now - receivedAt)))

def readPathSince (cfg : MQTTConfig) (deviceType : String) (inst : Int) (path : String)
    (since : ℚ) : ServerProgram (Option (Json × PyNum)) := do
  let pre ← ofExcept cfg.topicPrefix
  let topic ← ofExcept (formatTopic pre deviceType inst path)
  match ← serverOp (.entry topic) with
  | none => return none
  | some (v, receivedAt) =>
    if receivedAt < since then return none
    else do
      let now ← serverOp .monotonic
      return some (v, .float (.finite (now - receivedAt)))

/-! ## `_values_match` -/

/-- `received.get("value")` of a dictionary, else the value itself. -/
def unwrapValue : Json → Json
  | .obj fields => (fields.lookup "value").getD .null
  | v => v

def isBool : Json → Bool
  | .bool _ => true
  | _ => false

/-- Compare a read-back value with the written one, as floats. -/
def valuesMatch (parse : String → Option PyFloat) (received expected : Json) : Bool :=
  let received := unwrapValue received
  if isBool received || isBool expected then false
  else
    match pyFloat parse received, pyFloat parse expected with
    | some actual, some target => actual.isFinite && target.isFinite && actual.eq target
    | _, _ => false

/-! ## `_mqtt_write_and_verify` -/

/-- The arguments of one write. -/
structure Write where
  deviceType : String
  inst : Int
  path : String
  value : Json
  semanticMode : Option String := none

inductive WriteResult
  /-- The payload of `_confirm_gate`. -/
  | gated (d : GateDenial)
  | unknownMode (mode : String)
  | dbusUnsupported
  /-- `hardware_contract_validated` is false. -/
  | rejected (error : String)
  | publishFailed (e : PyError)
  | qualificationChanged
  | timedOut (value : Json) (topic : String)
  /-- `success` is true. -/
  | verified (value : Json) (topic : String) (elapsed : ℚ) (contractId evidence : String)

/-- `WRITE_VERIFY_TIMEOUT_S` -/
def writeVerifyTimeout : ℚ := 5

/-- `validate_hardware_write` for a write, over the client's own reads. -/
def validateWrite (env : ServerEnv) (safety : SafetyConfig) (w : Write) :
    ServerProgram (Except String HardwareWriteContract) :=
  validateHardwareWrite safety.hardwareWriteContracts env.mqtt.config.portalId w.deviceType w.inst
    w.path w.value w.semanticMode (readPath env.mqtt.config)
    (.float env.mqtt.config.staleAfterSeconds)

/-- Reject acknowledgement after target drift, expiry or killswitch changes. -/
def stillQualified (env : ServerEnv) (w : Write) (contract : HardwareWriteContract) :
    ServerProgram Bool := do
  let safety ← serverOp .safety
  let result ← validateWrite env safety w
  -- `safety.enable_writes` is read after the second validation
  let safety' ← serverOp .safety
  return safety'.enableWrites && match result with
    | .ok current => current.pyEq contract
    | .error _ => false

/-- The polling loop. -/
def verifyLoop (env : ServerEnv) (w : Write) (contract : HardwareWriteContract) (topic : String)
    (writtenAt deadline : ℚ) : Nat → ServerProgram WriteResult
  | 0 => .raise (.other "polls")
  | polls + 1 => do
    let now ← serverOp .monotonic
    if !(now < deadline) then return .timedOut w.value topic
    else
      let result ← readPathSince env.mqtt.config w.deviceType w.inst w.path writtenAt
      if result.any fun r => valuesMatch env.parseFloat r.1 w.value then
        if !(← stillQualified env w contract) then return .qualificationChanged
        else
          let now ← serverOp .monotonic
          return .verified w.value topic
            (pyRound (writeVerifyTimeout - (deadline - now)) 1) contract.contractId
            contract.evidenceSha256
      else
        serverOp .sleep
        verifyLoop env w contract topic writtenAt deadline polls

/-- Publish a value to `W/…` and confirm it appears on the matching `N` topic. -/
def mqttWriteAndVerify (env : ServerEnv) (polls : Nat) (w : Write) :
    ServerProgram WriteResult := do
  let safety ← serverOp .safety
  match ← validateWrite env safety w with
  | .error e => return .rejected e
  | .ok contract => do
    let pre ← ofExcept env.mqtt.config.writePrefix
    let topic ← ofExcept (formatTopic pre w.deviceType w.inst w.path)
    let writtenAt ← serverOp .monotonic
    match ← serverOp (.publish topic (.obj [("value", w.value)])) with
    | .error e => if isMqttError e then return .publishFailed e else .raise e
    | .ok () => do
      let sent ← serverOp .monotonic
      verifyLoop env w contract topic writtenAt (sent + writeVerifyTimeout) polls

/-! ## The tools -/

/-- `MODE_CODES` -/
def modeCodes : List (String × List (String × Int)) := [
  ("vebus", [("charger_only", 1), ("inverter_only", 2), ("on", 3), ("off", 4)]),
  ("inverter", [("charger_only", 1), ("inverter_only", 2), ("on", 3), ("off", 4), ("eco", 5)]),
  ("solarcharger", [("on", 1), ("off", 4)])]

/-- `_mode_code` -/
def modeCode (deviceType mode : String) : Option Int :=
  ((modeCodes.lookup deviceType).getD []).lookup mode

/-- The common head of the tools: the gate, the backend, the client. -/
def gated (env : ServerEnv) (operation : String) (params : Params) (confirmed : Bool)
    (dbusPath : String) (write : ServerProgram WriteResult) : ServerProgram WriteResult := do
  let safety ← serverOp .safety
  match ← ofExcept (confirmGate env.search safety operation params confirmed (some dbusPath)) with
  | some denial => return .gated denial
  | none =>
    if env.usesMqtt then do
      match ← serverOp .ready with
      | .error e => .raise e
      | .ok () => write
    else return .dbusUnsupported

def setInverterMode (env : ServerEnv) (polls : Nat) (mode : String) (inst : Int)
    (confirmed : Bool) : ServerProgram WriteResult :=
  gated env "set_inverter_mode" [("mode", .str mode), ("instance", .int inst)] confirmed "Mode" <|
    match modeCode "vebus" mode with
    | none => return .unknownMode mode
    | some code => mqttWriteAndVerify env polls ⟨"vebus", inst, "Mode", .int code, some mode⟩

def setChargeCurrentLimit (env : ServerEnv) (polls : Nat) (current : Json) (inst : Int)
    (confirmed : Bool) : ServerProgram WriteResult :=
  gated env "set_charge_current_limit" [("charge_current", current), ("instance", .int inst)]
    confirmed "Dc/0/MaxChargeCurrent" <|
    mqttWriteAndVerify env polls ⟨"vebus", inst, "Dc/0/MaxChargeCurrent", current, none⟩

def setSocLimit (env : ServerEnv) (polls : Nat) (socLimit : Json) (inst : Int)
    (confirmed : Bool) : ServerProgram WriteResult :=
  gated env "set_soc_limit" [("soc_limit", socLimit), ("instance", .int inst)] confirmed
    "SocLimit" <|
    mqttWriteAndVerify env polls ⟨"battery", inst, "SocLimit", socLimit, none⟩

/-- A call of a write tool, or of `_mqtt_write_and_verify` itself. -/
inductive Tool
  | setInverterMode (mode : String) (inst : Int) (confirmed : Bool)
  | setChargeCurrentLimit (current : Json) (inst : Int) (confirmed : Bool)
  | setSocLimit (socLimit : Json) (inst : Int) (confirmed : Bool)
  | writeAndVerify (w : Write)

/-- A call, with the polls it may take. -/
structure Call where
  tool : Tool
  polls : Nat

def Call.body (env : ServerEnv) (c : Call) : ServerProgram WriteResult :=
  match c.tool with
  | .setInverterMode mode inst confirmed =>
    Server.setInverterMode env c.polls mode inst confirmed
  | .setChargeCurrentLimit current inst confirmed =>
    Server.setChargeCurrentLimit env c.polls current inst confirmed
  | .setSocLimit socLimit inst confirmed => Server.setSocLimit env c.polls socLimit inst confirmed
  | .writeAndVerify w => mqttWriteAndVerify env c.polls w

/-! ## The world -/

/-- The MQTT client with its threads, and the settings an operator may change. -/
structure WriteWorld where
  mqtt : MqttState := {}
  safety : SafetyConfig

inductive WorldEvent
  | mqtt (e : MqttEvent)
  | setSafety (cfg : SafetyConfig)

/-- How an operation is answered.  The environment may let a publish or the
    wait for the client raise. -/
def answer (env : ServerEnv) (w : WriteWorld) :
    (o : ServerOp) → Option PyError → Option (WriteWorld × Option (ServerResp o) × List MqttOut)
  | .entry topic, _ => some (w, some (w.mqtt.py.cache.lookup topic), [])
  | .monotonic, _ => some (w, some w.mqtt.now, [])
  | .safety, _ => some (w, some w.safety, [])
  | .publish _ _, some e => some (w, some (.error e), [])
  | .publish topic payload, none =>
    match w.mqtt.step env.mqtt (.publish topic (env.dumps payload)) with
    | some (mqtt, []) => some ({ w with mqtt := mqtt }, some (.error .notConnected), [])
    | some (mqtt, out) => some ({ w with mqtt := mqtt }, some (.ok ()), out)
    | none => none
  | .sleep, _ => some (w, some (), [])
  | .ready, some e => some (w, some (.error e), [])
  | .ready, none => some (w, some (.ok ()), [])

def world (env : ServerEnv) (cfg : SafetyConfig) :
    Pool.World WriteWorld ServerOp ServerResp WorldEvent (Option PyError) MqttOut where
  init := { safety := cfg }
  env w e := match e with
    | .mqtt e => (w.mqtt.step env.mqtt e).map fun r => ({ w with mqtt := r.1 }, r.2)
    | .setSafety cfg => some ({ w with safety := cfg }, [])
  answer w _ := answer env w

abbrev ServerOut : Type := Pool.Out Call ServerOp ServerResp PyError WriteResult MqttOut

/-- Any calls, interleaved with each other, with the client's threads and with
    changes of the settings, from settings `cfg`. -/
def system (env : ServerEnv) (cfg : SafetyConfig) := Pool.system (world env cfg) (Call.body env)

/-! ## Fixtures -/

/-- `json.loads` on the payloads of the schedules: a string without escapes, or
    one digit. -/
def fixtureLoads : List UInt8 → Option Json
  | 34 :: rest => some (.str (String.ofList (rest.dropLast.map fun b => Char.ofNat b.toNat)))
  | [b] => if 48 ≤ b ∧ b ≤ 57 then some (.int (b.toNat - 48)) else none
  | _ => none

def fixtureServerEnv : ServerEnv where
  mqtt := { fixtureEnv with loads := fixtureLoads }
  usesMqtt := true
  search _ _ := .ok false
  parseFloat _ := none
  dumps _ := "\x7b\"value\": 3\x7d"

/-- The defaults, with writes enabled and the synthetic contracts. -/
def fixtureSafety : SafetyConfig :=
  { SafetyConfig.default with
    enableWrites := true
    hardwareWriteContracts := fixtureContracts
    contracts_accepted := fixtureContracts_accepted }

/-- Client 0 delivers a payload below the portal's prefix, and worker 1 takes
    `turns` turns. -/
def deliverSchedule (topic payload : String) (turns : Nat) :
    List (Pool.Event Call WorldEvent (Option PyError)) :=
  let bytes := payload.toList.map fun c => UInt8.ofNat c.toNat
  .env (.mqtt (.callback 0 (.message ⟨"N/testportal/" ++ topic, bytes, false⟩))) ::
    List.replicate turns (.env (.mqtt (.decoder 1 true)))

/-- The five identity values of the VE.Bus contracts are cached, and the client
    is connected. -/
def identitySchedule : List (Pool.Event Call WorldEvent (Option PyError)) :=
  connectSchedule.map (fun e => .env (.mqtt e)) ++
    deliverSchedule "platform/0/Firmware" "\"fixture-venus\"" 7 ++
    deliverSchedule "vebus/256/ProductName" "\"fixture-vebus\"" 4 ++
    deliverSchedule "vebus/256/FirmwareVersion" "\"fixture-fw\"" 4 ++
    deliverSchedule "battery/512/ProductName" "\"fixture-battery\"" 4 ++
    deliverSchedule "battery/512/FirmwareVersion" "\"fixture-fw\"" 4 ++
    [.env (.mqtt (.callback 0 (.connect true))), .env (.mqtt (.tick 1))]

/-- Task 0 sets the inverter mode, up to the publish. -/
def modeSchedule : List (Pool.Event Call WorldEvent (Option PyError)) :=
  .spawn ⟨.setInverterMode "on" 256 true, 2⟩ :: List.replicate 14 (.resume 0 none)

end Server

end McpVenusOs
