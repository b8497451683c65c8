/-
  McpVenusOs.Server.Reads

  The MQTT read tools of `server.py`: `get_battery_soc`, `get_pv_power`,
  `get_grid_status` and `get_inverter_status`, from the client that
  `_mqtt_ready` returns to the answer.

  A call sees one snapshot of the cache; only the clock moves between two
  look-ups.  A reading is a Python dict, a list of entries in insertion order.
-/

import McpVenusOs.Lib.PyFloat
import McpVenusOs.Mqtt.Devices
import McpVenusOs.Server.Tools

namespace McpVenusOs

open Py

/-! ## Dictionaries -/

abbrev Dict : Type := List (String × Json)

namespace Dict

/-- `d.get(k)` -/
def get (d : Dict) (k : String) : Json := (d.lookup k).getD .null

/-- `d[k] = v` -/
def set (d : Dict) (k : String) (v : Json) : Dict :=
  if d.any (·.1 = k) then d.map fun e => if e.1 = k then (k, v) else e
  else d ++ [(k, v)]

/-- `d | e` -/
def union (d e : Dict) : Dict := e.foldl (fun d kv => d.set kv.1 kv.2) d

end Dict

def isNone : Json → Bool
  | .null => true
  | _ => false

namespace Server

/-- What the read tools are configured with, and the library functions they use. -/
structure ReadEnv where
  mqtt : MqttEnv
  /-- The decimal digit a character stands for, beyond ASCII. -/
  decimal : Char → Option Nat
  /-- `float(s)` of a string. -/
  parseFloat : String → Option PyFloat
  /-- `f"{v}"` of a value that is no container. -/
  text : Json → String
  /-- `time.monotonic()`, when an item of a device is looked up; ages are exact. -/
  clock : String → Int → String → ℚ

/-! ## `_collect_mqtt` -/

/-- The variables of the loop. -/
structure Collected where
  out : Dict := []
  maxAge : PyNum := .float (.finite 0)
  seenAny : Bool := false

/-- One field: the first cached candidate, and the oldest age so far. -/
def collectField (env : ReadEnv) (c : MqttClient) (deviceType : String) (inst : Int)
    (s : Collected) (field : String × List String) : Except PyError Collected := do
  match ← c.readFirst env.mqtt env.clock deviceType inst field.2 with
  | none => return { s with out := Dict.set s.out field.1 .null }
  | some (value, age) =>
    return { out := Dict.set s.out field.1 value, seenAny := true,
             maxAge := if s.maxAge.lt age then age else s.maxAge }

/-- `round(x, 1)` of an age. -/
def roundAge (age : PyNum) : Json := .float (age.toFloat.round 1)

def Collected.result (staleAfter : PyFloat) (s : Collected) : Dict :=
  let out := Dict.set s.out "stale"
    (.bool ((s.seenAny && PyNum.lt (.float staleAfter) s.maxAge) || !s.seenAny))
  Dict.set out "age_seconds" (if s.seenAny then roundAge s.maxAge else .null)

/-- `_collect_mqtt` -/
def collectMqtt (env : ReadEnv) (c : MqttClient) (fieldPaths : PathTable) (deviceType : String)
    (inst : Int) : Except PyError Dict := do
  let s ← fieldPaths.foldlM (collectField env c deviceType inst) {}
  return s.result env.mqtt.config.staleAfterSeconds

/-! ## Postprocessing -/

/-- `_pv_vxi_fallback`: PV power from voltage × current when the item is absent. -/
def pvVxiFallback (env : ReadEnv) (reading : Dict) : Except PyError Dict :=
  let voltage := Dict.get reading "voltage"
  let current := Dict.get reading "current"
  if isNone (Dict.get reading "power") && !isNone voltage && !isNone current then
    match toFloat env.parseFloat voltage with
    | .error .typeError | .error .valueError => .ok reading
    | .error e => .error e
    | .ok v =>
      match toFloat env.parseFloat current with
      | .error .typeError | .error .valueError => .ok reading
      | .error e => .error e
      | .ok i => .ok (Dict.set reading "power" (.float ((v.mul i).round 1)))
  else .ok reading

/-- `VEBUS_STATES` -/
def vebusStates : List (Int × String) := [
  (0, "off"), (1, "low_power"), (2, "fault"), (3, "bulk"), (4, "absorption"), (5, "float"),
  (6, "storage"), (7, "equalize"), (8, "passthru"), (9, "inverting"), (10, "power_assist"),
  (11, "power_supply"), (252, "external_control")]

/-- `{v: k for k, v in MODE_CODES["vebus"].items()}` -/
def vebusModes : List (Int × String) :=
  ((modeCodes.lookup "vebus").getD []).map fun e => (e.2, e.1)

/-- `v == n`, for an integer key of a dictionary. -/
def eqInt (v : Json) (n : Int) : Bool :=
  match v with
  | .bool b => n = if b then 1 else 0
  | .int m => m = n
  | .float x => x.eq (.finite n)
  | _ => false

/-- Lists and dictionaries are not hashable. -/
def hashable : Json → Bool
  | .arr _ | .obj _ => false
  | _ => true

/-- Whether `f"{v}"` has a text; the text of a container is not looked into, the
    look-up after it raises anyway. -/
def hasText : Json → Bool
  | .int n => (pyStr n).isSome
  | _ => true

/-- `names.get(v, f"code {v}")`; the default is formatted first. -/
def enumName (env : ReadEnv) (names : List (Int × String)) (v : Json) : Except PyError Json :=
  if !hasText v then .error .valueError
  else if hashable v then
    match names.find? fun e => eqInt v e.1 with
    | some (_, name) => .ok (.str name)
    | none => .ok (.str ("code " ++ env.text v))
  else .error .typeError

/-- Add `<field>_name` next to the raw code of `field`. -/
def decodeEnum (env : ReadEnv) (names : List (Int × String)) (field : String) (reading : Dict) :
    Except PyError Dict :=
  let v := Dict.get reading field
  if isNone v then .ok reading
  else do return Dict.set reading (field ++ "_name") (← enumName env names v)

/-- `_decode_vebus_enums` -/
def decodeVebusEnums (env : ReadEnv) (reading : Dict) : Except PyError Dict := do
  decodeEnum env vebusStates "state" (← decodeEnum env vebusModes "mode" reading)

/-! ## `_read_all_instances` -/

/-- The variables of the loop. -/
structure FanOut where
  readings : List Dict := []
  totalPower : PyFloat := .finite 0
  hasPower : Bool := false

/-- `float(power)` if the power is a number; a bool is one. -/
def powerNumber (power : Json) : Option (Except PyError PyFloat) :=
  match power with
  | .bool _ | .int _ | .float _ => some (toFloat (fun _ => none) power)
  | _ => none

/-- The end of the loop's body: keep the reading and add its power. -/
def FanOut.add (s : FanOut) (reading : Dict) : Except PyError FanOut :=
  let s := { s with readings := s.readings ++ [reading] }
  match powerNumber (Dict.get reading "power") with
  | none => .ok s
  | some (.error e) => .error e
  | some (.ok power) => .ok { s with totalPower := s.totalPower.add power, hasPower := true }

abbrev Postprocess : Type := ReadEnv → Dict → Except PyError Dict

/-- The loop's body before the addition. -/
def readInstance (env : ReadEnv) (c : MqttClient) (fieldPaths : PathTable) (post : Postprocess)
    (d : Device) : Except PyError Dict := do
  let collected ← collectMqtt env c fieldPaths d.1 d.2
  post env (Dict.union [("device_type", .str d.1), ("instance", .int d.2)] collected)

/-- `sorted(d["instance"] for d in client.list_devices() if d["device_type"] == device_type)` -/
def instancesOf (env : ReadEnv) (c : MqttClient) (deviceType : String) :
    Except PyError (List Device) := do
  let devices ← c.listDevices env.mqtt.config env.decimal
  return (((devices.filter (·.1 = deviceType)).map (·.2)).insertionSort (· ≤ ·)).map
    fun inst => (deviceType, inst)

/-- What a read tool returns: one device, or a list with its total. -/
inductive ReadResult
  | device (reading : Dict)
  | fanOut (readings : List Dict) (totalPower : Option PyFloat)

/-- `_read_all_instances` -/
def readAllInstances (env : ReadEnv) (c : MqttClient) (fieldPaths : PathTable)
    (deviceTypes : List String) (post : Postprocess) : Except PyError ReadResult := do
  let s ← deviceTypes.foldlM (fun (s : FanOut) deviceType => do
    (← instancesOf env c deviceType).foldlM (fun s d => do
      s.add (← readInstance env c fieldPaths post d)) s) {}
  return .fanOut s.readings (if s.hasPower then some (s.totalPower.round 1) else none)

/-! ## The tools -/

/-- `_instance_device_type`; the tuple is never empty. -/
def instanceDeviceType (env : ReadEnv) (c : MqttClient) (deviceTypes : List String)
    (inst : Int) : Except PyError String := do
  let pairs ← c.listDevices env.mqtt.config env.decimal
  return (deviceTypes.find? fun t => (t, inst) ∈ pairs).getD (deviceTypes.headD "")

/-- The common body of the read tools. -/
def readTool (fieldPaths : PathTable) (deviceTypes : List String) (post : Postprocess)
    (env : ReadEnv) (c : MqttClient) (inst : Int) : Except PyError ReadResult :=
  if inst ≤ 0 then readAllInstances env c fieldPaths deviceTypes post
  else do
    let deviceType ← instanceDeviceType env c deviceTypes inst
    let collected ← collectMqtt env c fieldPaths deviceType inst
    return .device (← post env (Dict.union [("instance", .int inst)] collected))

def noPostprocess : Postprocess := fun _ reading => .ok reading

def getBatterySoc := readTool batteryPaths ["battery"] noPostprocess

def getPvPower := readTool pvPaths ["solarcharger", "pvinverter"] pvVxiFallback

def getGridStatus := readTool gridPaths ["grid"] noPostprocess

def getInverterStatus := readTool inverterPaths ["vebus"] decodeVebusEnums

/-! ## Fixtures -/

def fixtureReadEnv : ReadEnv where
  mqtt := fixtureEnv
  decimal _ := none
  parseFloat _ := none
  text _ := ""
  clock _ _ _ := 1

/-- A client with the given cached values, received at time 0. -/
def cachedClient (entries : List (String × Json)) : MqttClient :=
  { cache := entries.foldl (fun cache e => cache.insert e.1 (e.2, 0)) ∅ }

end Server

end McpVenusOs
