/-
  McpVenusOs.Telemetry

  `telemetry.py`: the item paths the tools read, and the broker filters and
  periodic reads chosen from them.

  A Python set is a list without duplicates.  `subscriptions` adds the contract
  topics one by one, in the order of the list where Python's order is
  unspecified; `mem_foldl_addUncovered` shows that the order does not matter.
-/

import McpVenusOs.HardwareContracts
import McpVenusOs.Lib.TopicFilter

namespace McpVenusOs

open Py TopicFilter

/-! ## Tables -/

/-- Candidate item paths for each tool field. -/
abbrev PathTable : Type := List (String × List String)

def batteryPaths : PathTable := [
  ("soc", ["Soc"]),
  ("voltage", ["Dc/0/Voltage", "Voltage"]),
  ("current", ["Dc/0/Current", "Current"]),
  ("power", ["Dc/0/Power", "Power"]),
  ("temperature", ["Dc/0/Temperature", "Temperature"]),
  ("status", ["Status"]),
  ("time_to_go", ["TimeToGo"])]

def pvPaths : PathTable := [
  ("power", ["Ac/Power", "Yield/Power"]),
  ("voltage", ["Ac/L1/Voltage", "Ac/L2/Voltage", "Ac/L3/Voltage", "Pv/V"]),
  ("current", ["Ac/L1/Current", "Ac/L2/Current", "Ac/L3/Current", "Pv/I"]),
  ("yield_today", ["Ac/Energy/Daily", "Yield/Today"]),
  ("yield_total", ["Ac/Energy/Forward", "Yield/Pv", "Yield/User"])]

def gridPaths : PathTable := [
  ("power", ["Ac/Power", "Ac/L1/Power", "Ac/L2/Power", "Ac/L3/Power"]),
  ("voltage", ["Ac/L1/Voltage", "Ac/L2/Voltage", "Ac/L3/Voltage"]),
  ("current", ["Ac/L1/Current", "Ac/L2/Current", "Ac/L3/Current"]),
  ("frequency", ["Ac/Frequency", "Ac/L1/Frequency"]),
  ("status", ["Connected"])]

def inverterPaths : PathTable := [
  ("mode", ["Mode"]),
  ("state", ["State"]),
  ("ac_power_out", ["Ac/Out/P"]),
  ("ac_power_in", ["Ac/ActiveIn/P"]),
  ("dc_power", ["Dc/0/Power", "Dc/Pv/Power"]),
  ("temperature", ["Dc/0/Temperature", "Temperature"])]

/-- `READ_PATHS` -/
def readPaths : List (String × PathTable) := [
  ("battery", batteryPaths),
  ("solarcharger", pvPaths),
  ("pvinverter", pvPaths),
  ("grid", gridPaths),
  ("vebus", inverterPaths)]

/-- `DISCOVERY_PATHS`: one small marker for each internal service family. -/
def discoveryPaths : List (String × String) := [
  ("digitalinputs", "Devices/+/Type"),
  ("logger", "Storage/MountState"),
  ("modbustcp", "Services/Count"),
  ("settings", "Settings/Vrmlogger/LogInterval")]

/-- `N/<portalId>/<type>/<instance>/<path>` -/
def itemTopic (pre deviceType : String) (inst : Int) (path : String) : String :=
  pre ++ "/" ++ deviceType ++ "/" ++ toString inst ++ "/" ++ path

/-! ## Broker filters -/

/-- The target and the identity topics of one contract. -/
def HardwareWriteContract.topics (pre : String) (c : HardwareWriteContract) : List String :=
  itemTopic pre c.deviceType.name c.inst c.path.name ::
    c.identity.map fun p => itemTopic pre p.deviceType p.inst p.path

/-- Exact contract targets and identities for this portal. -/
def contractTopics (pre : String) (contracts : List HardwareWriteContract) : List String :=
  ((contracts.filter fun c => pre = "N/" ++ c.portalId).flatMap (·.topics pre)).dedup

/-- Service discovery and the markers of the internal services. -/
def discoveryTails : List String :=
  ["+/+/+", "+/+/Mgmt/+", "full_publish_completed"] ++
    discoveryPaths.map fun entry => entry.1 ++ "/+/" ++ entry.2

/-- The nested item paths of one service type. -/
def nestedPaths (fields : PathTable) : List String :=
  fields.flatMap fun field => field.2.filter (hasChar · '/')

def toolTails : List String :=
  readPaths.flatMap fun entry => (nestedPaths entry.2).map fun path => entry.1 ++ "/+/" ++ path

/-- What every portal subscribes to, below its prefix. -/
def ownedTails : List String := (discoveryTails ++ toolTails).dedup

def ownedFilters (pre : String) : List String := ownedTails.map fun tail => pre ++ "/" ++ tail

/-- Service discovery without the unconsumed nested trees. -/
def subscriptions (pre : String) (contracts : List HardwareWriteContract) : List String :=
  (contractTopics pre contracts).foldl addUncovered (ownedFilters pre)

/-! ## Periodic reads -/

/-- Exact cached values whose freshness is consumed by this client, sorted.
    `isDigit` is the Unicode property behind `str.isdigit`. -/
def refreshTopics (isDigit : Char → Bool) (pre : String) (cached : List String)
    (contracts : List HardwareWriteContract) (explicit : List String) : List String :=
  let required := contractTopics pre contracts ++
    explicit.filter fun t => !hasChar t '+' && !hasChar t '#'
  (cached.filter fun topic =>
    startsWith topic (pre ++ "/") &&
      match (topic.toList.drop (pre.length + 1)).splitOn '/' with
      | family :: inst :: p :: ps =>
        let path := ['/'].intercalate (p :: ps)
        !inst.isEmpty && inst.all isDigit &&
          (topic ∈ required || ((readPaths.lookup (String.ofList family)).getD []).any
            fun (_, candidates) => String.ofList path ∈ candidates)
      | _ => false).dedup.insertionSort (· ≤ ·)

end McpVenusOs
