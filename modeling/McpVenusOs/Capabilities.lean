/-
  McpVenusOs.Capabilities

  `capabilities.py`: companion services publish top-level topics on the same
  broker; their markers are subscribed to, cached and turned into tools.
-/

import McpVenusOs.Lib.PyValue

namespace McpVenusOs

open Py

/-- `CAPABILITY_MARKERS`: exact topics, or prefixes that end in a slash. -/
def capabilityMarkers : List (String × List String) :=
  [("control", ["inverter/state"]), ("pump", ["tank/"])]

/-- `_VENUS_PREFIXES` -/
def venusPrefixes : List String := ["N/", "W/", "R/"]

/-- `topic == marker or (marker.endswith("/") and topic.startswith(marker))` -/
def matchesMarker (topic marker : String) : Bool :=
  topic = marker || (endsWith marker "/" && startsWith topic marker)

/-- True when `topic` belongs to a companion service. -/
def isCapabilityTopic (topic : String) : Bool :=
  if venusPrefixes.any (startsWith topic) then false
  else capabilityMarkers.any fun (_, markers) => markers.any (matchesMarker topic)

/-- Subscription patterns covering every capability marker. -/
def capabilitySubscriptions : List String :=
  capabilityMarkers.flatMap fun (_, markers) =>
    markers.map fun marker => if endsWith marker "/" then marker ++ "#" else marker

/-- Capabilities whose marker topics are present in `topics`. -/
def detectCapabilities (topics : List String) : List String :=
  (capabilityMarkers.filter fun (_, markers) =>
    topics.any fun topic => isCapabilityTopic topic && markers.any (matchesMarker topic)).map
    Prod.fst

end McpVenusOs
