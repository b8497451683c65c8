/-
  McpVenusOs.Server.ReadSurvival

  Which payloads the read tools survive.

  A payload goes unchecked from the broker into three operations that raise on
  some JSON values: the look-up of a VE.Bus code, `float()` of a PV voltage or
  current, and the sum of the powers.  `ReadTool.Safe` says which values these
  are, `read_tools_survive` that a call returns, and shows the other devices
  what it shows them anyway, exactly when no device it asks has one.
-/

import McpVenusOs.Server.Readings

namespace McpVenusOs.Server

open Py TopicFilter

inductive ReadTool
  | batterySoc
  | pvPower
  | gridStatus
  | inverterStatus

/-- A VE.Bus code that can be formatted and looked up. -/
def enumSafe (v : Json) : Bool := hasText v && hashable v

namespace ReadTool

def call : ReadTool → ReadEnv → MqttClient → Int → Except PyError ReadResult
  | batterySoc => getBatterySoc
  | pvPower => getPvPower
  | gridStatus => getGridStatus
  | inverterStatus => getInverterStatus

def fieldPaths : ReadTool → PathTable
  | batterySoc => batteryPaths
  | pvPower => pvPaths
  | gridStatus => gridPaths
  | inverterStatus => inverterPaths

def deviceTypes : ReadTool → List String
  | batterySoc => ["battery"]
  | pvPower => ["solarcharger", "pvinverter"]
  | gridStatus => ["grid"]
  | inverterStatus => ["vebus"]

def post : ReadTool → Postprocess
  | pvPower => pvVxiFallback
  | inverterStatus => decodeVebusEnums
  | batterySoc | gridStatus => noPostprocess

theorem call_eq (tool : ReadTool) :
    tool.call = readTool tool.fieldPaths tool.deviceTypes tool.post := by
  cases tool <;> rfl

theorem tabled (tool : ReadTool) : Tabled tool.fieldPaths := by
  cases tool <;> decide

/-! ## What a call asks, and what it survives -/

/-- The devices a call reads. -/
def asked (tool : ReadTool) (env : ReadEnv) (c : MqttClient) (pre : String) (inst : Int) :
    List Device :=
  if inst ≤ 0 then tool.deviceTypes.flatMap (devicesOfType env c pre)
  else
    [((tool.deviceTypes.find? fun t => (t, inst) ∈ devicesOf env.decimal pre c.cache.keys).getD
      (tool.deviceTypes.headD ""), inst)]

/-- The field values that the postprocessor of a tool survives. -/
def PostSafe (tool : ReadTool) (env : ReadEnv) (value : String → Json) : Prop :=
  match tool with
  | batterySoc | gridStatus => True
  -- without a power item, two values that are multiplied must convert
  | pvPower =>
    isNone (value "power") = true → isNone (value "voltage") = false →
      isNone (value "current") = false →
      (value "voltage").beyondFloat = false ∧
        ((∃ x, toFloat env.parseFloat (value "voltage") = .ok x) →
          (value "current").beyondFloat = false)
  | inverterStatus => enumSafe (value "mode") = true ∧ enumSafe (value "state") = true

/-- The instance has a text, and no device the call asks has a value the tool does
    not survive: no list or dictionary for a VE.Bus mode or state, no integer beyond
    the float range for a PV voltage or current that is multiplied, or for a power
    that is summed. -/
def Safe (tool : ReadTool) (env : ReadEnv) (c : MqttClient) (pre : String) (inst : Int) : Prop :=
  (0 < inst → (pyStr inst).isSome = true) ∧
  ∀ d ∈ tool.asked env c pre inst, tool.PostSafe env (tableValue env c pre tool.fieldPaths d) ∧
    (inst ≤ 0 → (tableValue env c pre tool.fieldPaths d "power").beyondFloat = false)

/-! ## The postprocessors -/

theorem PostSafe.congr {tool : ReadTool} {env : ReadEnv} {f g : String → Json}
    (h : ∀ field, field ∉ reserved → f field = g field) :
    tool.PostSafe env f ↔ tool.PostSafe env g := by
  cases tool with
  | batterySoc => rfl
  | gridStatus => rfl
  | pvPower =>
    rw [PostSafe, PostSafe, h "power" (by decide), h "voltage" (by decide),
      h "current" (by decide)]
  | inverterStatus => rw [PostSafe, PostSafe, h "mode" (by decide), h "state" (by decide)]

end ReadTool

theorem toFloat_cases (parse : String → Option PyFloat) (v : Json) :
    (∃ x, toFloat parse v = .ok x) ∨ toFloat parse v = .error .typeError ∨
      toFloat parse v = .error .valueError ∨ toFloat parse v = .error .overflowError := by
  cases v with
  | int n => rw [toFloat]; cases floatOfInt n <;> simp
  | str s => rw [toFloat]; cases parse s <;> simp
  | _ => simp [toFloat]

/-- `contextlib.suppress` lets an overflow through, of the voltage or, where the
    voltage converts, of the current. -/
theorem pvVxiFallback_ok (env : ReadEnv) (reading : Dict) :
    (∃ r, pvVxiFallback env reading = .ok r) ↔
      ReadTool.pvPower.PostSafe env (Dict.get reading) := by
  rw [pvVxiFallback, ReadTool.PostSafe]
  by_cases hguard : (isNone (Dict.get reading "power") && !isNone (Dict.get reading "voltage") &&
      -- the fallback is tried for a missing power with both factors
      !isNone (Dict.get reading "current")) = true
  · rw [if_pos hguard]
    simp only [Bool.and_eq_true, Bool.not_eq_true'] at hguard
    obtain ⟨⟨hpower, hvoltage⟩, hcurrent⟩ := hguard
    have hbeyond : ∀ v : Json, v.beyondFloat = false ↔
        toFloat env.parseFloat v ≠ .error .overflowError := by
      intro v
      rw [Ne, toFloat_eq_overflow, Bool.not_eq_true]
    simp only [hpower, hvoltage, hcurrent, forall_const, hbeyond]
    -- whatever `float` does but overflow, the fallback returns
    rcases toFloat_cases env.parseFloat (Dict.get reading "voltage") with
      ⟨v, hv⟩ | hv | hv | hv
    · rcases toFloat_cases env.parseFloat (Dict.get reading "current") with
        ⟨i, hi⟩ | hi | hi | hi
      all_goals simp [hv, hi]
    all_goals simp [hv]
  · rw [if_neg hguard]
    simp only [Bool.and_eq_true, Bool.not_eq_true', not_and] at hguard
    constructor
    · intro _ hpower hvoltage hcurrent
      exact absurd hcurrent (hguard ⟨hpower, hvoltage⟩)
    · exact fun _ => ⟨reading, rfl⟩

theorem enumName_ok (env : ReadEnv) (names : List (Int × String)) (v : Json) :
    (∃ name, enumName env names v = .ok name) ↔ enumSafe v = true := by
  rw [enumName, enumSafe]
  cases htext : hasText v with
  | false => simp
  | true =>
    cases hhash : hashable v with
    | false => simp
    | true =>
      simp only [Bool.not_true, Bool.false_eq_true, if_false, if_true, Bool.and_self, iff_true]
      cases names.find? (fun e => eqInt v e.1) with
      | none => exact ⟨_, rfl⟩
      | some e => exact ⟨_, rfl⟩

theorem decodeEnum_ok (env : ReadEnv) (names : List (Int × String)) (field : String)
    (reading : Dict) : (∃ r, decodeEnum env names field reading = .ok r) ↔
      enumSafe (Dict.get reading field) = true := by
  rw [decodeEnum, ← enumName_ok env names]
  cases hnone : isNone (Dict.get reading field) with
  | true =>
    have hnull : Dict.get reading field = .null := by
      cases hv : Dict.get reading field <;> simp_all [isNone]
    exact iff_of_true ⟨_, rfl⟩ ((enumName_ok env names _).mpr (by rw [hnull]; rfl))
  | false =>
    cases enumName env names (Dict.get reading field) <;>
      simp [bind, Except.bind, pure, Except.pure]

/-- Only the name is added. -/
theorem decodeEnum_lookup {env : ReadEnv} {names : List (Int × String)} {field : String}
    {reading r : Dict} (h : decodeEnum env names field reading = .ok r) {key : String}
    (hkey : key ≠ field ++ "_name") : r.lookup key = reading.lookup key := by
  rw [decodeEnum] at h
  split at h
  · rw [← Except.ok.inj h]
  · cases hname : enumName env names (Dict.get reading field) with
    | error e => rw [hname] at h; cases h
    | ok name =>
      rw [hname] at h
      rw [← Except.ok.inj h, Dict.lookup_set, if_neg hkey]

theorem decodeVebusEnums_lookup {env : ReadEnv} {reading r : Dict}
    (h : decodeVebusEnums env reading = .ok r) {key : String} (hmode : key ≠ "mode" ++ "_name")
    (hstate : key ≠ "state" ++ "_name") : r.lookup key = reading.lookup key := by
  rw [decodeVebusEnums] at h
  cases hdecoded : decodeEnum env vebusModes "mode" reading with
  | error e => rw [hdecoded] at h; cases h
  | ok r' =>
    rw [hdecoded] at h
    rw [decodeEnum_lookup h hstate, decodeEnum_lookup hdecoded hmode]

/-- The power is computed from a voltage and a current that convert, and nothing
    else is changed. -/
theorem pvVxiFallback_product {env : ReadEnv} {reading r : Dict}
    (h : pvVxiFallback env reading = .ok r) :
    r = reading ∨ isNone (Dict.get reading "power") = true ∧
      isNone (Dict.get reading "voltage") = false ∧
      isNone (Dict.get reading "current") = false ∧
      ∃ v i, toFloat env.parseFloat (Dict.get reading "voltage") = .ok v ∧
        toFloat env.parseFloat (Dict.get reading "current") = .ok i ∧
        r = Dict.set reading "power" (.float ((v.mul i).round 1)) := by
  rw [pvVxiFallback] at h
  split at h
  · rename_i hguard
    simp only [Bool.and_eq_true, Bool.not_eq_true'] at hguard
    -- `float` of the voltage, then of the current; a value it refuses leaves the power missing
    split at h
    · exact .inl (Except.ok.inj h).symm
    · exact .inl (Except.ok.inj h).symm
    -- an overflow is not caught
    · cases h
    · rename_i v hv
      split at h
      · exact .inl (Except.ok.inj h).symm
      · exact .inl (Except.ok.inj h).symm
      · cases h
      · rename_i i hi
        exact .inr ⟨hguard.1.1, hguard.1.2, hguard.2, v, i, hv, hi, (Except.ok.inj h).symm⟩
  · exact .inl (Except.ok.inj h).symm

theorem pvVxiFallback_cases {env : ReadEnv} {reading r : Dict}
    (h : pvVxiFallback env reading = .ok r) :
    r = reading ∨ isNone (Dict.get reading "power") = true ∧
      ∃ x, r = Dict.set reading "power" (.float x) := by
  rcases pvVxiFallback_product h with hsame | ⟨hpower, -, -, v, i, -, -, hset⟩
  · exact .inl hsame
  · exact .inr ⟨hpower, _, hset⟩

/-- A postprocessor adds a text under a name of its own, or a power that is missing. -/
theorem post_get {tool : ReadTool} {env : ReadEnv} {reading r : Dict}
    (h : tool.post env reading = .ok r) {key : String} (hmode : key ≠ "mode" ++ "_name")
    (hstate : key ≠ "state" ++ "_name")
    (hpower : key = "power" → isNone (Dict.get reading "power") = false) :
    Dict.get r key = Dict.get reading key := by
  cases tool with
  | batterySoc => rw [← Except.ok.inj h]
  | gridStatus => rw [← Except.ok.inj h]
  | pvPower =>
    -- the fallback writes the power only, and only over none
    rcases pvVxiFallback_cases h with rfl | ⟨hnone, x, rfl⟩
    · rfl
    · rw [Dict.get_set, if_neg]
      intro hkey
      rw [hpower hkey] at hnone
      cases hnone
  | inverterStatus =>
    -- the enums add keys only
    rw [Dict.get, decodeVebusEnums_lookup h hmode hstate, Dict.get]

theorem post_keeps {tool : ReadTool} {env : ReadEnv} {reading r : Dict}
    (h : tool.post env reading = .ok r) :
    (Dict.get r "power").beyondFloat = (Dict.get reading "power").beyondFloat ∧
      Dict.get r "device_type" = Dict.get reading "device_type" ∧
      Dict.get r "instance" = Dict.get reading "instance" := by
  refine ⟨?_, post_get h (by decide) (by decide) fun hkey => absurd hkey (by decide),
    post_get h (by decide) (by decide) fun hkey => absurd hkey (by decide)⟩
  cases hnone : isNone (Dict.get reading "power") with
  | false => rw [post_get h (by decide) (by decide) fun _ => hnone]
  | true =>
    -- only the fallback sets a power, and no float is beyond the range
    cases tool with
    | pvPower =>
      rcases pvVxiFallback_cases h with rfl | ⟨-, x, rfl⟩
      · rfl
      · rw [Dict.get_set, if_pos rfl]
        cases hv : Dict.get reading "power" <;> simp_all [isNone, Json.beyondFloat]
    | batterySoc => rw [← Except.ok.inj h]
    | gridStatus => rw [← Except.ok.inj h]
    | inverterStatus =>
      rw [Dict.get, decodeVebusEnums_lookup h (by decide) (by decide), Dict.get]

theorem post_ok (tool : ReadTool) (env : ReadEnv) (reading : Dict) :
    (∃ r, tool.post env reading = .ok r) ↔ tool.PostSafe env (Dict.get reading) := by
  cases tool with
  | batterySoc => exact ⟨fun _ => trivial, fun _ => ⟨reading, rfl⟩⟩
  | gridStatus => exact ⟨fun _ => trivial, fun _ => ⟨reading, rfl⟩⟩
  | pvPower => exact pvVxiFallback_ok env reading
  | inverterStatus =>
    change (∃ r, decodeVebusEnums env reading = .ok r) ↔
      enumSafe (Dict.get reading "mode") = true ∧ enumSafe (Dict.get reading "state") = true
    rw [← decodeEnum_ok env vebusModes "mode" reading, decodeVebusEnums]
    cases hmode : decodeEnum env vebusModes "mode" reading with
    | error e => simp [bind, Except.bind]
    | ok r =>
      -- the name of the mode is not the state
      have hstate : Dict.get r "state" = Dict.get reading "state" := by
        rw [Dict.get, decodeEnum_lookup hmode (by decide), Dict.get]
      rw [← hstate, ← decodeEnum_ok env vebusStates "state" r]
      simp [bind, Except.bind]

/-! ## One device -/

variable {env : ReadEnv} {c c' : MqttClient} {pre : String}

/-- The reading of a device survives its postprocessor, and its sum, according
    to the values of the table. -/
theorem readInstance_ok (hpre : env.mqtt.config.topicPrefix = .ok pre) (tool : ReadTool)
    {d : Device} (htext : (pyStr d.2).isSome = true) :
    (∃ r, readInstance env c tool.fieldPaths tool.post d = .ok r ∧
        (Dict.get r "power").beyondFloat = false) ↔
      tool.PostSafe env (tableValue env c pre tool.fieldPaths d) ∧
        (tableValue env c pre tool.fieldPaths d "power").beyondFloat = false := by
  -- below the base entries stand the values of the table
  have hfields : ∀ field, field ∉ reserved →
      Dict.get (Dict.union [("device_type", .str d.1), ("instance", .int d.2)]
        (collected env c pre tool.fieldPaths d)) field =
      tableValue env c pre tool.fieldPaths d field := by
    intro field hfield
    apply get_reading tool.tabled d hfield
    simp only [reserved, List.mem_cons, List.not_mem_nil, or_false, not_or] at hfield
    rw [Dict.lookup_cons, if_neg hfield.1, Dict.lookup_cons, if_neg hfield.2.1]
    rfl
  have hread : readInstance env c tool.fieldPaths tool.post d =
      tool.post env (Dict.union [("device_type", .str d.1), ("instance", .int d.2)]
        (collected env c pre tool.fieldPaths d)) := by
    rw [readInstance, collectMqtt_eq hpre _ htext]
    rfl
  rw [hread, ← hfields "power" (by decide), ← ReadTool.PostSafe.congr hfields, ← post_ok]
  constructor
  · rintro ⟨r, hr, hpower⟩
    exact ⟨⟨r, hr⟩, (post_keeps hr).1 ▸ hpower⟩
  · rintro ⟨⟨r, hr⟩, hpower⟩
    exact ⟨r, hr, (post_keeps hr).1.trans hpower⟩

/-- The single-device answer survives its postprocessor. -/
theorem post_union_ok (tool : ReadTool) (d : Device) (inst : Int) :
    (∃ r, tool.post env (Dict.union [("instance", .int inst)]
        (collected env c pre tool.fieldPaths d)) = .ok r) ↔
      tool.PostSafe env (tableValue env c pre tool.fieldPaths d) := by
  have hfields : ∀ field, field ∉ reserved →
      Dict.get (Dict.union [("instance", .int inst)] (collected env c pre tool.fieldPaths d))
        field = tableValue env c pre tool.fieldPaths d field := by
    intro field hfield
    apply get_reading tool.tabled d hfield
    simp only [reserved, List.mem_cons, List.not_mem_nil, or_false, not_or] at hfield
    rw [Dict.lookup_cons, if_neg hfield.2.1]
    rfl
  rw [post_ok, ReadTool.PostSafe.congr hfields]

/-! ## One call -/

theorem instanceDeviceType_eq (hpre : env.mqtt.config.topicPrefix = .ok pre)
    (deviceTypes : List String) (inst : Int) :
    instanceDeviceType env c deviceTypes inst =
      .ok ((deviceTypes.find? fun t => (t, inst) ∈ devicesOf env.decimal pre c.cache.keys).getD
        (deviceTypes.headD "")) := by
  rw [instanceDeviceType, listDevices_eq hpre]
  rfl

theorem readTool_device (hpre : env.mqtt.config.topicPrefix = .ok pre) (tool : ReadTool)
    {inst : Int} (hinst : ¬inst ≤ 0) {d : Device} (hd : tool.asked env c pre inst = [d]) :
    tool.call env c inst = (do
      let collected ← collectMqtt env c tool.fieldPaths d.1 d.2
      return ReadResult.device
        (← tool.post env (Dict.union [("instance", .int inst)] collected))) := by
  rw [ReadTool.asked, if_neg hinst, List.cons.injEq] at hd
  obtain ⟨rfl, -⟩ := hd
  rw [tool.call_eq, readTool, if_neg hinst, instanceDeviceType_eq hpre]
  rfl

/-- The answer for an instance that has a text. -/
theorem readTool_text (hpre : env.mqtt.config.topicPrefix = .ok pre) (tool : ReadTool)
    {inst : Int} (hinst : ¬inst ≤ 0) (htext : (pyStr inst).isSome = true) {d : Device}
    (hd : tool.asked env c pre inst = [d]) :
    tool.call env c inst = (tool.post env (Dict.union [("instance", .int inst)]
      (collected env c pre tool.fieldPaths d))).map .device := by
  have hsame : d.2 = inst := by
    rw [ReadTool.asked, if_neg hinst, List.cons.injEq] at hd
    rw [← hd.1]
  rw [readTool_device hpre tool hinst hd, collectMqtt_eq hpre _ (hsame ▸ htext)]
  show (tool.post env _ >>= fun r => pure (ReadResult.device r)) = _
  cases tool.post env _ <;> rfl

/-- Every tool has a first candidate to look up. -/
theorem readTool_valueError (hpre : env.mqtt.config.topicPrefix = .ok pre) (tool : ReadTool)
    {inst : Int} (hinst : ¬inst ≤ 0) (htext : (pyStr inst).isSome = false) :
    tool.call env c inst = .error .valueError := by
  obtain ⟨field, path, paths, table, htable⟩ : ∃ field path paths table,
      tool.fieldPaths = (field, path :: paths) :: table := by
    cases tool <;> exact ⟨_, _, _, _, rfl⟩
  rw [readTool_device (d := (_, inst)) hpre tool hinst (by rw [ReadTool.asked, if_neg hinst]),
    htable, collectMqtt_valueError hpre htext]
  rfl

/-- A list of calls that may raise is a list of results when each of them returns one. -/
theorem exists_forall₂ {α β : Type} {R : α → β → Prop} {P : β → Prop} {xs : List α} :
    (∃ ys, List.Forall₂ R xs ys ∧ ∀ y ∈ ys, P y) ↔ ∀ x ∈ xs, ∃ y, R x y ∧ P y := by
  induction xs with
  | nil => simp
  | cons x xs ih =>
    rw [List.forall_mem_cons, ← ih]
    constructor
    · rintro ⟨ys, hys, hp⟩
      cases hys with
      | cons hy hys =>
        rw [List.forall_mem_cons] at hp
        exact ⟨⟨_, hy, hp.1⟩, _, hys, hp.2⟩
    · rintro ⟨⟨y, hy, hpy⟩, ys, hys, hp⟩
      exact ⟨y :: ys, .cons hy hys, List.forall_mem_cons.mpr ⟨hpy, hp⟩⟩

/-- A call returns exactly when it is safe. -/
theorem call_ok (hpre : env.mqtt.config.topicPrefix = .ok pre) (tool : ReadTool) (inst : Int) :
    (∃ r, tool.call env c inst = .ok r) ↔ tool.Safe env c pre inst := by
  by_cases hinst : inst ≤ 0
  -- the fan-out returns iff every device's reading does
  · have hreturns : (∃ r, tool.call env c inst = .ok r) ↔
        ∃ readings, List.Forall₂
            (fun d reading => readInstance env c tool.fieldPaths tool.post d = .ok reading)
            (tool.deviceTypes.flatMap (devicesOfType env c pre)) readings ∧
          ∀ reading ∈ readings, (Dict.get reading "power").beyondFloat = false := by
      rw [tool.call_eq, readTool, if_pos hinst]
      constructor
      · rintro ⟨r, hr⟩
        obtain ⟨readings, hreadings, hsafe, -⟩ := (readAllInstances_eq_ok hpre).mp hr
        exact ⟨readings, hreadings, hsafe⟩
      · rintro ⟨readings, hreadings, hsafe⟩
        exact ⟨_, (readAllInstances_eq_ok hpre).mpr ⟨readings, hreadings, hsafe, rfl⟩⟩
    have hpositive : 0 < inst → (pyStr inst).isSome = true := fun h => absurd h hinst.not_gt
    rw [hreturns, exists_forall₂, ReadTool.Safe, ReadTool.asked, if_pos hinst,
      and_iff_right hpositive]
    refine forall₂_congr fun d hd => ?_
    obtain ⟨t, -, hdt⟩ := List.mem_flatMap.mp hd
    rw [readInstance_ok hpre tool (text_of_mem_devicesOfType hdt)]
    simp only [hinst, forall_const]
  -- a single device has no sum of powers
  · obtain ⟨d, hd⟩ : ∃ d, tool.asked env c pre inst = [d] := by
      rw [ReadTool.asked, if_neg hinst]
      exact ⟨_, rfl⟩
    have hsafe : tool.Safe env c pre inst ↔ (pyStr inst).isSome = true ∧
        tool.PostSafe env (tableValue env c pre tool.fieldPaths d) := by
      rw [ReadTool.Safe, hd]
      simp [hinst, not_le.mp hinst]
    rw [hsafe]
    cases htext : (pyStr inst).isSome with
    | false =>
      rw [readTool_valueError hpre tool hinst htext]
      simp
    | true =>
      rw [readTool_text hpre tool hinst htext hd, ← post_union_ok tool d inst]
      cases tool.post env _ <;> simp [Except.map]

/-! ## Two payloads of one device -/

/-- Two caches with the same topics that differ in items of the device `d` only. -/
structure AgreeOff (pre : String) (d : Device) (c c' : MqttClient) : Prop where
  keys : c.cache.keys.Perm c'.cache.keys
  lookup : ∀ topic, deviceSegments pre topic ≠ some (d.1, toString d.2) →
    c.cache.lookup topic = c'.cache.lookup topic

/-- A new payload on a cached topic of a device. -/
theorem agreeOff_insert {d : Device} {topic : String} {entry : CacheEntry}
    (hdevice : deviceSegments pre topic = some (d.1, toString d.2))
    (hcached : topic ∈ c.cache.keys) :
    AgreeOff pre d c { c with cache := c.cache.insert topic entry } where
  keys := by
    show c.cache.keys.Perm (c.cache.insert topic entry).keys
    rw [AList.keys_insert]
    exact List.perm_cons_erase hcached
  lookup topic' htopic' := by
    have hne : topic' ≠ topic := fun h => htopic' (h ▸ hdevice)
    exact (AList.lookup_insert_ne hne).symm

/-- A reading of the fan-out that names the device `d`. -/
def isReadingOf (d : Device) (reading : Dict) : Bool :=
  match Dict.get reading "device_type", Dict.get reading "instance" with
  | .str deviceType, .int inst => deviceType = d.1 && inst = d.2
  | _, _ => false

/-- The readings an answer reports for devices other than `d`. -/
def othersThan (d : Device) (asked : List Device) : ReadResult → List Dict
  | .device reading => if asked = [d] then [] else [reading]
  | .fanOut readings _ => readings.filter fun reading => !isReadingOf d reading

theorem AgreeOff.asked {d : Device} (h : AgreeOff pre d c c') (tool : ReadTool) (inst : Int) :
    tool.asked env c pre inst = tool.asked env c' pre inst := by
  have hdevices : devicesOf env.decimal pre c.cache.keys =
      devicesOf env.decimal pre c'.cache.keys := devicesOf_perm h.keys
  have htype : devicesOfType env c pre = devicesOfType env c' pre := by
    funext deviceType
    rw [devicesOfType, devicesOfType, hdevices]
  rw [ReadTool.asked, ReadTool.asked, hdevices, htype]

/-- The device types of the tools, and of the list, are single segments. -/
theorem asked_no_slash {tool : ReadTool} {inst : Int} {x : Device}
    (hx : x ∈ tool.asked env c pre inst) : '/' ∉ x.1.toList := by
  have hlist : ∀ {y}, y ∈ devicesOf env.decimal pre c.cache.keys → '/' ∉ y.1.toList := by
    intro y hy
    obtain ⟨topic, -, s, hseg, -⟩ := mem_devicesOf.mp hy
    exact (deviceSegments_eq_some.mp hseg).1
  rw [ReadTool.asked] at hx
  split at hx
  · obtain ⟨deviceType, -, hx⟩ := List.mem_flatMap.mp hx
    exact hlist (List.mem_filter.mp hx).1
  · obtain rfl := List.mem_singleton.mp hx
    show '/' ∉ ((tool.deviceTypes.find? _).getD (tool.deviceTypes.headD "")).toList
    cases hfind : tool.deviceTypes.find?
        (fun t => (t, inst) ∈ devicesOf env.decimal pre c.cache.keys) with
    | none => cases tool <;> decide
    | some t =>
      have ht := List.find?_some hfind
      exact hlist (of_decide_eq_true ht)

theorem AgreeOff.collected {d x : Device} (h : AgreeOff pre d c c') (hx : '/' ∉ x.1.toList)
    (hne : x ≠ d) (hpre : env.mqtt.config.topicPrefix = .ok pre) (fieldPaths : PathTable) :
    collectMqtt env c fieldPaths x.1 x.2 = collectMqtt env c' fieldPaths x.1 x.2 := by
  refine collectMqtt_congr hpre fun _ _ _ _ => ?_
  apply h.lookup
  rw [deviceSegments_itemTopic hx]
  intro heq
  rw [Option.some.injEq, Prod.mk.injEq] at heq
  exact hne (Prod.ext heq.1 (toString_int_injective heq.2))

theorem isReadingOf_iff (hpre : env.mqtt.config.topicPrefix = .ok pre) {tool : ReadTool}
    {x : Device} (htext : (pyStr x.2).isSome = true) {reading : Dict}
    (h : readInstance env c tool.fieldPaths tool.post x = .ok reading) (d : Device) :
    isReadingOf d reading = true ↔ x = d := by
  rw [readInstance, collectMqtt_eq hpre _ htext] at h
  obtain ⟨-, htype, hinst⟩ := @post_keeps tool _ _ _ h
  rw [get_reading_base tool.tabled x _ (.inl rfl)] at htype
  rw [get_reading_base tool.tabled x _ (.inr rfl)] at hinst
  have htype' : Dict.get reading "device_type" = .str x.1 := htype
  have hinst' : Dict.get reading "instance" = .int x.2 := hinst
  rw [isReadingOf, htype', hinst']
  simp [Prod.ext_iff]

/-- The readings of the other devices are made from the same items. -/
theorem AgreeOff.others {d : Device} (h : AgreeOff pre d c c')
    (hpre : env.mqtt.config.topicPrefix = .ok pre) (tool : ReadTool) {ds : List Device}
    (hds : ∀ x ∈ ds, '/' ∉ x.1.toList ∧ (pyStr x.2).isSome = true)
    {readings readings' : List Dict} (hr : List.Forall₂ (fun x reading =>
      readInstance env c tool.fieldPaths tool.post x = .ok reading) ds readings)
    (hr' : List.Forall₂ (fun x reading =>
      readInstance env c' tool.fieldPaths tool.post x = .ok reading) ds readings') :
    readings.filter (fun reading => !isReadingOf d reading) =
      readings'.filter (fun reading => !isReadingOf d reading) := by
  induction hr generalizing readings' with
  | nil =>
    cases hr'
    rfl
  | @cons x reading ds readings hx _ ih =>
    cases hr' with
    | cons hx' htail =>
      have hrest := ih (fun y hy => hds y (List.mem_cons_of_mem x hy)) htail
      obtain ⟨hslash, htext⟩ := hds x List.mem_cons_self
      -- both readings name their device
      have hof := isReadingOf_iff hpre htext hx d
      have hof' := isReadingOf_iff hpre htext hx' d
      by_cases hd : x = d
      -- the device that differs is left out on both sides
      · simp only [List.filter_cons, hof.mpr hd, hof'.mpr hd, Bool.not_true, Bool.false_eq_true,
          if_false, hrest]
      -- any other device has the same reading
      · have hsame : readInstance env c tool.fieldPaths tool.post x =
            readInstance env c' tool.fieldPaths tool.post x := by
          rw [readInstance, readInstance, h.collected hslash hd hpre]
        rw [hx, hx'] at hsame
        rw [← Except.ok.inj hsame]
        have hf : isReadingOf d reading = false := by
          rw [← Bool.not_eq_true, hof]
          exact hd
        simp only [List.filter_cons, hf, Bool.not_false, if_true, hrest]

/-- The calls return, and tell the same of every other device, exactly when
    neither cache holds a value the tool does not survive.  (`_mqtt_ready` has
    read the prefix by then.) -/
theorem read_tools_survive (hpre : env.mqtt.config.topicPrefix = .ok pre) {d : Device}
    (h : AgreeOff pre d c c') (tool : ReadTool) (inst : Int) :
    (∃ r r', tool.call env c inst = .ok r ∧ tool.call env c' inst = .ok r' ∧
        othersThan d (tool.asked env c pre inst) r =
          othersThan d (tool.asked env c' pre inst) r') ↔
      tool.Safe env c pre inst ∧ tool.Safe env c' pre inst := by
  rw [← call_ok hpre, ← call_ok hpre]
  constructor
  · rintro ⟨r, r', hr, hr', -⟩
    exact ⟨⟨r, hr⟩, ⟨r', hr'⟩⟩
  rintro ⟨⟨r, hr⟩, ⟨r', hr'⟩⟩
  refine ⟨r, r', hr, hr', ?_⟩
  rw [← h.asked]
  -- the fan-out reads the same devices for both caches
  by_cases hinst : inst ≤ 0
  · have hasked : tool.asked env c pre inst = tool.asked env c' pre inst := h.asked tool inst
    have hds : ∀ x ∈ tool.asked env c pre inst,
        '/' ∉ x.1.toList ∧ (pyStr x.2).isSome = true := by
      intro x hx
      refine ⟨asked_no_slash hx, ?_⟩
      rw [ReadTool.asked, if_pos hinst] at hx
      obtain ⟨t, -, hxt⟩ := List.mem_flatMap.mp hx
      exact text_of_mem_devicesOfType hxt
    rw [tool.call_eq, readTool, if_pos hinst, readAllInstances_eq_ok hpre] at hr hr'
    obtain ⟨readings, hreadings, -, rfl⟩ := hr
    obtain ⟨readings', hreadings', -, rfl⟩ := hr'
    rw [ReadTool.asked, ReadTool.asked, if_pos hinst, if_pos hinst] at hasked
    rw [ReadTool.asked, if_pos hinst] at hds
    rw [← hasked] at hreadings'
    exact h.others hpre tool hds hreadings hreadings'
  -- one device: the one that differs, or one with the same reading
  · obtain ⟨x, hx⟩ : ∃ x, tool.asked env c pre inst = [x] := by
      rw [ReadTool.asked, if_neg hinst]
      exact ⟨_, rfl⟩
    rw [hx]
    rw [readTool_device hpre tool hinst hx] at hr
    rw [readTool_device hpre tool hinst ((h.asked tool inst).symm.trans hx)] at hr'
    by_cases hxd : x = d
    · have hdevice : ∀ {p : Except PyError Dict} {f : Dict → Except PyError Dict} {r}, (do
            let collected ← p
            return ReadResult.device (← f collected)) = .ok r → ∃ reading, r = .device reading := by
        intro p f r hp
        cases p with
        | error e => cases hp
        | ok collected =>
          cases hf : f collected with
          | error e => simp [hf, bind, Except.bind] at hp
          | ok reading =>
            simp only [hf, bind, Except.bind] at hp
            exact ⟨reading, (Except.ok.inj hp).symm⟩
      obtain ⟨reading, rfl⟩ := hdevice hr
      obtain ⟨reading', rfl⟩ := hdevice hr'
      simp only [othersThan, hxd, if_true]
    · have hslash : '/' ∉ x.1.toList := by
        have hasked : x ∈ tool.asked env c pre inst := by
          rw [hx]
          exact List.mem_singleton_self x
        exact asked_no_slash hasked
      rw [← h.collected hslash hxd hpre] at hr'
      rw [Except.ok.inj (hr.symm.trans hr')]

/-! ## Two calls -/

/-- One battery reports a list as its state of charge; the other is still told. -/
theorem read_tools_survive_battery :
    let c := cachedClient [("N/testportal/battery/1/Soc", .int 50),
      ("N/testportal/battery/2/Soc", .int 60)]
    let c' : MqttClient :=
      { c with cache := c.cache.insert "N/testportal/battery/1/Soc" (.arr [], 0) }
    (∃ r r', ReadTool.batterySoc.call fixtureReadEnv c 0 = .ok r ∧
        ReadTool.batterySoc.call fixtureReadEnv c' 0 = .ok r' ∧
        othersThan ("battery", 1)
            (ReadTool.batterySoc.asked fixtureReadEnv c "N/testportal" 0) r =
          othersThan ("battery", 1)
            (ReadTool.batterySoc.asked fixtureReadEnv c' "N/testportal" 0) r') ↔
      ReadTool.batterySoc.Safe fixtureReadEnv c "N/testportal" 0 ∧
        ReadTool.batterySoc.Safe fixtureReadEnv c' "N/testportal" 0 :=
  read_tools_survive (by decide +kernel)
    (agreeOff_insert (by decide +kernel) (by decide +kernel)) .batterySoc 0

/-- A VE.Bus unit whose mode is the list `[1]` takes the call down. -/
theorem unhashable_mode_raises :
    ¬∀ (tool : ReadTool) (c : MqttClient) (inst : Int),
      ∃ r, tool.call fixtureReadEnv c inst = .ok r := by
  intro h
  obtain ⟨r, hr⟩ := h .inverterStatus
    (cachedClient [("N/testportal/vebus/256/Mode", .arr [.int 1])]) 0
  have herror : (match ReadTool.inverterStatus.call fixtureReadEnv
      (cachedClient [("N/testportal/vebus/256/Mode", .arr [.int 1])]) 0 with
      | .error .typeError => true
      | _ => false) = true := by
    decide +kernel
  rw [hr] at herror
  cases herror

end McpVenusOs.Server
