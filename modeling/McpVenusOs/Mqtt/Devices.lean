/-
  McpVenusOs.Mqtt.Devices

  `list_devices`, `discover_instance` and `read_first` of `MQTTClient`: what the
  read tools find in the cache.

  `list_devices` works on a copy of the cache, so it sees one snapshot.  A dict
  is unordered here: the result is sorted, so neither the order of the cache nor
  that of the set `seen` matters.
-/

import Mathlib.Data.String.Basic
import McpVenusOs.Lib.PyInt
import McpVenusOs.Mqtt.State

namespace McpVenusOs

open Py TopicFilter

/-- A pair `(device_type, instance)`. -/
abbrev Device : Type := String × Int

instance instLawfulBEqDevice : LawfulBEq Device := inferInstance

/-- `(rest[0], rest[1])` of a topic below the prefix. -/
def deviceSegments (pre topic : String) : Option (String × String) :=
  if startsWith topic (pre ++ "/") then
    match levels (String.ofList (topic.toList.drop (pre ++ "/").length)) with
    | deviceType :: inst :: _ => some (deviceType, inst)
    | _ => none
  else none

/-- The order of the key `(d["device_type"], d["instance"])`. -/
def deviceLe (a b : Device) : Prop := a.1 < b.1 ∨ a.1 = b.1 ∧ a.2 ≤ b.2

instance : DecidableRel deviceLe := fun _ _ => inferInstanceAs (Decidable (_ ∨ _ ∧ _))

/-- `int(rest[1])`; a segment that is no number is skipped. -/
def parseDevice (decimal : Char → Option Nat) (segments : String × String) : Option Device :=
  (pyInt decimal segments.2).map fun inst => (segments.1, inst)

namespace MqttClient

/-- `list_devices`; the prefix is first needed for a topic. -/
def listDevices (c : MqttClient) (cfg : MQTTConfig) (decimal : Char → Option Nat) :
    Except PyError (List Device) :=
  if c.cache.keys = [] then .ok []
  else do
    let pre ← cfg.topicPrefix
    let seen := (c.cache.keys.filterMap (deviceSegments pre)).dedup
    return (seen.filterMap (parseDevice decimal)).insertionSort deviceLe

/-- `discover_instance` -/
def discoverInstance (c : MqttClient) (cfg : MQTTConfig) (decimal : Char → Option Nat)
    (deviceType : String) : Except PyError (Option Int) := do
  return ((← c.listDevices cfg decimal).find? (·.1 = deviceType)).map (·.2)

/-- `read_first`; `clock` is the time at which an item is looked up. -/
def readFirst (c : MqttClient) (env : MqttEnv) (clock : String → Int → String → ℚ)
    (deviceType : String) (inst : Int) : List String → Except PyError (Option (Json × PyNum))
  | [] => .ok none
  | path :: paths => do
    match ← c.readPath env (clock deviceType inst path) deviceType inst path with
    | some result => return some result
    | none => c.readFirst env clock deviceType inst paths

end MqttClient

/-! ## The list -/

/-- The list, below a prefix. -/
def devicesOf (decimal : Char → Option Nat) (pre : String) (topics : List String) : List Device :=
  ((topics.filterMap (deviceSegments pre)).dedup.filterMap (parseDevice decimal)).insertionSort
    deviceLe

theorem listDevices_eq {c : MqttClient} {cfg : MQTTConfig} {decimal : Char → Option Nat}
    {pre : String} (hpre : cfg.topicPrefix = .ok pre) :
    c.listDevices cfg decimal = .ok (devicesOf decimal pre c.cache.keys) := by
  rw [MqttClient.listDevices, hpre]
  split
  · rename_i hkeys
    rw [hkeys]
    rfl
  · rfl

/-! ### Order -/

theorem deviceLe_trans {a b c : Device} (hab : deviceLe a b) (hbc : deviceLe b c) :
    deviceLe a c := by
  rcases hab with hab | ⟨hab, hab'⟩ <;> rcases hbc with hbc | ⟨hbc, hbc'⟩
  · exact .inl (hab.trans hbc)
  · exact .inl (hbc ▸ hab)
  · exact .inl (hab ▸ hbc)
  · exact .inr ⟨hab.trans hbc, hab'.trans hbc'⟩

theorem deviceLe_total (a b : Device) : deviceLe a b ∨ deviceLe b a := by
  rcases lt_trichotomy a.1 b.1 with h | h | h
  · exact .inl (.inl h)
  · rcases le_total a.2 b.2 with h' | h'
    · exact .inl (.inr ⟨h, h'⟩)
    · exact .inr (.inr ⟨h.symm, h'⟩)
  · exact .inr (.inl h)

theorem deviceLe_antisymm {a b : Device} (hab : deviceLe a b) (hba : deviceLe b a) : a = b := by
  rcases hab with hab | ⟨hab, hab'⟩
  · rcases hba with hba | ⟨hba, -⟩
    · exact absurd hba hab.asymm
    · exact absurd hab (hba ▸ lt_irrefl _)
  · rcases hba with hba | ⟨-, hba'⟩
    · exact absurd hba (hab ▸ lt_irrefl _)
    · exact Prod.ext hab (le_antisymm hab' hba')

instance : IsTrans Device deviceLe := ⟨fun _ _ _ => deviceLe_trans⟩

instance : Std.Total deviceLe := ⟨deviceLe_total⟩

instance : Std.Antisymm deviceLe := ⟨fun _ _ => deviceLe_antisymm⟩

theorem devicesOf_pairwise (decimal : Char → Option Nat) (pre : String) (topics : List String) :
    (devicesOf decimal pre topics).Pairwise deviceLe :=
  List.pairwise_insertionSort deviceLe _

/-- The order of the topics does not matter. -/
theorem devicesOf_perm {decimal : Char → Option Nat} {pre : String} {topics topics' : List String}
    (h : topics.Perm topics') : devicesOf decimal pre topics = devicesOf decimal pre topics' := by
  have hperm := (((h.filterMap (deviceSegments pre)).dedup).filterMap (parseDevice decimal))
  exact List.Perm.eq_of_pairwise' (devicesOf_pairwise decimal pre topics)
    (devicesOf_pairwise decimal pre topics')
    (((List.perm_insertionSort deviceLe _).trans hperm).trans
      (List.perm_insertionSort deviceLe _).symm)

theorem mem_devicesOf {decimal : Char → Option Nat} {pre : String} {topics : List String}
    {d : Device} : d ∈ devicesOf decimal pre topics ↔
      ∃ topic ∈ topics, ∃ s, deviceSegments pre topic = some (d.1, s) ∧
        pyInt decimal s = some d.2 := by
  rw [devicesOf, List.mem_insertionSort]
  simp only [List.mem_filterMap, List.mem_dedup]
  constructor
  · rintro ⟨⟨t, s⟩, ⟨topic, htopic, hseg⟩, hparse⟩
    obtain ⟨n, hn, rfl⟩ := Option.map_eq_some_iff.mp hparse
    exact ⟨topic, htopic, s, hseg, hn⟩
  · rintro ⟨topic, htopic, s, hseg, hs⟩
    refine ⟨(d.1, s), ⟨topic, htopic, hseg⟩, ?_⟩
    rw [parseDevice, hs]
    rfl

/-- The instances of the list were read from a topic, and have a text again. -/
theorem text_of_mem_devicesOf {decimal : Char → Option Nat} {pre : String}
    {topics : List String} {d : Device} (h : d ∈ devicesOf decimal pre topics) :
    (pyStr d.2).isSome = true := by
  obtain ⟨-, -, s, -, hs⟩ := mem_devicesOf.mp h
  rw [pyStr_of_pyInt hs, Option.isSome_some]

/-! ## Topics of a device -/

/-- The topics from which `list_devices` learns of `(t, s)`. -/
theorem deviceSegments_eq_some {pre topic t s : String} :
    deviceSegments pre topic = some (t, s) ↔
      '/' ∉ t.toList ∧ '/' ∉ s.toList ∧
        (topic = pre ++ "/" ++ t ++ "/" ++ s ∨
          startsWith topic (pre ++ "/" ++ t ++ "/" ++ s ++ "/") = true) := by
  constructor
  · intro h
    rw [deviceSegments, Option.ite_none_right_eq_some] at h
    obtain ⟨hpre, h⟩ := h
    obtain ⟨rest, rfl⟩ := startsWith_iff.mp hpre
    rw [drop_append_toList, String.ofList_toList] at h
    rcases levels_cases rest with ⟨-, hrest⟩ | ⟨a, b, ha, rfl, hab⟩
    · rw [hrest] at h
      cases h
    · rw [hab] at h
      rcases levels_cases b with ⟨hb, hbl⟩ | ⟨a', b', ha', rfl, hbl⟩
      · rw [hbl] at h
        obtain ⟨rfl, rfl⟩ : a = t ∧ b = s := by simpa using h
        refine ⟨ha, hb, .inl ?_⟩
        simp only [String.append_assoc]
      · rw [hbl] at h
        obtain ⟨rfl, rfl⟩ : a = t ∧ a' = s := by simpa using h
        refine ⟨ha, ha', .inr ?_⟩
        rw [startsWith_iff]
        exact ⟨b', by simp only [String.append_assoc]⟩
  · rintro ⟨ht, hs, h⟩
    have hlevels : ∃ rest more, topic = pre ++ "/" ++ rest ∧ levels rest = t :: s :: more := by
      rcases h with rfl | h
      · refine ⟨t ++ "/" ++ s, [], by simp only [String.append_assoc], ?_⟩
        rw [levels_append_slash, levels_of_no_slash ht, levels_of_no_slash hs]
        rfl
      · obtain ⟨r, rfl⟩ := startsWith_iff.mp h
        refine ⟨t ++ "/" ++ s ++ "/" ++ r, levels r, by simp only [String.append_assoc], ?_⟩
        rw [levels_append_slash, levels_append_slash, levels_of_no_slash ht,
          levels_of_no_slash hs]
        rfl
    obtain ⟨rest, more, rfl, hrest⟩ := hlevels
    rw [deviceSegments, if_pos (startsWith_iff.mpr ⟨rest, rfl⟩), drop_append_toList,
      String.ofList_toList, hrest]

/-- An item of a device is a topic from which `list_devices` learns of it. -/
theorem deviceSegments_itemTopic {pre deviceType path : String} {inst : Int}
    (h : '/' ∉ deviceType.toList) :
    deviceSegments pre (itemTopic pre deviceType inst path) = some (deviceType, toString inst) := by
  rw [deviceSegments_eq_some]
  refine ⟨h, notMem_toString (by decide) (by decide) inst, .inr ?_⟩
  rw [startsWith_iff]
  exact ⟨path, rfl⟩

end McpVenusOs
