/-
  McpVenusOs.Server.Readings

  What the read tools compute, once the client has a portal ID.

  `collectMqtt` raises only for an instance without a text, and holds, under each
  field, the value of the first cached candidate (`lookup_collected`).
  `readAllInstances` makes one reading per entry of `list_devices`, in order, and
  its total is a function of the readings (`readAllInstances_eq_ok`).
-/

import Mathlib.Data.List.Forall2
import McpVenusOs.Server.Reads

namespace McpVenusOs

open Py TopicFilter

/-! ## Dictionaries -/

namespace Dict

theorem lookup_cons (e : String × Json) (d : Dict) (k : String) :
    (e :: d).lookup k = if k = e.1 then some e.2 else d.lookup k := by
  rw [List.lookup_cons]
  by_cases h : k = e.1
  · simp [h]
  · have hne : (k == e.1) = false := beq_eq_false_iff_ne.mpr h
    simp [h, hne]

theorem lookup_set (d : Dict) (k : String) (v : Json) (k' : String) :
    (d.set k v).lookup k' = if k' = k then some v else d.lookup k' := by
  induction d with
  | nil => exact lookup_cons (k, v) [] k'
  | cons e d ih =>
    have hset : Dict.set (e :: d) k v =
        if e.1 = k then (k, v) :: d.map (fun e => if e.1 = k then (k, v) else e)
        else e :: Dict.set d k v := by
      by_cases he : e.1 = k
      · simp [set, he]
      · simp only [set, List.any_cons, he, decide_false, Bool.false_or, List.map_cons, if_false,
          List.cons_append]
        split <;> rfl
    -- entries behind the one that is replaced keep their keys
    have hrest : k' ≠ k →
        (d.map fun e => if e.1 = k then (k, v) else e).lookup k' = d.lookup k' := by
      intro hk
      clear ih hset
      induction d with
      | nil => rfl
      | cons f d ih =>
        rw [List.map_cons, lookup_cons, lookup_cons, ih]
        by_cases hf : f.1 = k
        · rw [if_pos hf, if_neg hk, if_neg (hf ▸ hk)]
        · rw [if_neg hf]
    rw [hset, lookup_cons]
    by_cases he : e.1 = k
    · rw [if_pos he, lookup_cons, he]
      by_cases hk : k' = k
      · rw [if_pos hk, if_pos hk]
      · rw [if_neg hk, if_neg hk, if_neg hk, hrest hk]
    · rw [if_neg he, lookup_cons, ih]
      by_cases hk : k' = k
      · rw [if_pos hk, if_neg (fun h : k' = e.1 => he (h ▸ hk)), if_pos hk]
      · rw [if_neg hk, if_neg hk]

@[simp] theorem get_set (d : Dict) (k : String) (v : Json) (k' : String) :
    (d.set k v).get k' = if k' = k then v else d.get k' := by
  rw [get, lookup_set]
  split <;> rfl

/-- The keys of `e` are distinct, so its entries and not those of `d` count. -/
theorem lookup_union {e : Dict} (he : (e.map Prod.fst).Nodup) (d : Dict) (k : String) :
    (d.union e).lookup k = (e.lookup k).or (d.lookup k) := by
  induction e generalizing d with
  | nil => rfl
  | cons kv e ih =>
    rw [List.map_cons, List.nodup_cons] at he
    have hstep : d.union (kv :: e) = (d.set kv.1 kv.2).union e := rfl
    rw [hstep, ih he.2, lookup_set, lookup_cons]
    by_cases hk : k = kv.1
    · have hnone : e.lookup k = none := by
        rw [List.lookup_eq_none_iff]
        intro e' he'
        have hne : e'.1 ≠ kv.1 := fun h => he.1 (h ▸ List.mem_map_of_mem he')
        simpa [hk] using fun h => hne h.symm
      rw [hnone, if_pos hk, if_pos hk]
      rfl
    · rw [if_neg hk, if_neg hk]

theorem keys_set (d : Dict) (k : String) (v : Json) :
    (d.set k v).map Prod.fst =
      if k ∈ d.map Prod.fst then d.map Prod.fst else d.map Prod.fst ++ [k] := by
  have hmap : (d.map fun e => if e.1 = k then (k, v) else e).map Prod.fst = d.map Prod.fst := by
    rw [List.map_map]
    apply List.map_congr_left
    intro e _
    by_cases he : e.1 = k
    · simp [he]
    · simp [he]
  by_cases hany : d.any (·.1 = k) = true
  · have hmem : k ∈ d.map Prod.fst := by
      simpa using hany
    rw [set, if_pos hany, if_pos hmem, hmap]
  · have hmem : k ∉ d.map Prod.fst := by
      simpa using hany
    rw [set, if_neg hany, if_neg hmem, List.map_append, List.map_singleton]

theorem nodup_set {d : Dict} (h : (d.map Prod.fst).Nodup) (k : String) (v : Json) :
    ((d.set k v).map Prod.fst).Nodup := by
  rw [keys_set]
  split
  · exact h
  · rename_i hk
    rw [List.nodup_append]
    refine ⟨h, List.nodup_singleton k, ?_⟩
    intro a ha b hb
    rw [List.mem_singleton] at hb
    exact fun hab => hk (hb ▸ hab ▸ ha)

theorem nodup_union {d : Dict} (h : (d.map Prod.fst).Nodup) (e : Dict) :
    ((d.union e).map Prod.fst).Nodup := by
  induction e generalizing d with
  | nil => exact h
  | cons kv e ih => exact ih (nodup_set h kv.1 kv.2)

end Dict

namespace Server

variable {env : ReadEnv} {c : MqttClient} {pre : String}

/-! ## `_collect_mqtt` -/

/-- The first cached candidate of a device, with its age. -/
def firstCached (env : ReadEnv) (c : MqttClient) (pre : String) (d : Device)
    (paths : List String) : Option (Json × PyNum) :=
  paths.findSome? fun path => (c.cache.lookup (itemTopic pre d.1 d.2 path)).map
    fun entry => (entry.1, .float (.finite (env.clock d.1 d.2 path - entry.2)))

/-- The value a reading shows for it. -/
def fieldValue (env : ReadEnv) (c : MqttClient) (pre : String) (d : Device)
    (paths : List String) : Json :=
  match firstCached env c pre d paths with
  | some (value, _) => value
  | none => .null

theorem readFirst_eq (hpre : env.mqtt.config.topicPrefix = .ok pre) {d : Device}
    (htext : (pyStr d.2).isSome = true) (paths : List String) :
    c.readFirst env.mqtt env.clock d.1 d.2 paths = .ok (firstCached env c pre d paths) := by
  induction paths with
  | nil => rfl
  | cons path paths ih =>
    have hread : ∀ now, c.readPath env.mqtt now d.1 d.2 path = .ok
        ((c.cache.lookup (itemTopic pre d.1 d.2 path)).map fun entry =>
          (entry.1, .float (.finite (now - entry.2)))) := by
      intro now
      rw [MqttClient.readPath_eq hpre (formatTopic_eq htext)]
    rw [MqttClient.readFirst, hread, ih]
    cases h : c.cache.lookup (itemTopic pre d.1 d.2 path) with
    | none => simp [firstCached, h, bind, Except.bind]
    | some entry => simp [firstCached, h, bind, Except.bind, pure, Except.pure]

/-- One round of the loop, without the monad. -/
def Collected.field (env : ReadEnv) (c : MqttClient) (pre : String) (d : Device) (s : Collected)
    (field : String × List String) : Collected :=
  match firstCached env c pre d field.2 with
  | none => { s with out := Dict.set s.out field.1 .null }
  | some (value, age) =>
    { out := Dict.set s.out field.1 value, seenAny := true,
      maxAge := if s.maxAge.lt age then age else s.maxAge }

/-- The fields of a reading. -/
def collected (env : ReadEnv) (c : MqttClient) (pre : String) (fieldPaths : PathTable)
    (d : Device) : Dict :=
  (fieldPaths.foldl (Collected.field env c pre d) {}).result env.mqtt.config.staleAfterSeconds

theorem collectMqtt_eq (hpre : env.mqtt.config.topicPrefix = .ok pre) (fieldPaths : PathTable)
    {d : Device} (htext : (pyStr d.2).isSome = true) :
    collectMqtt env c fieldPaths d.1 d.2 = .ok (collected env c pre fieldPaths d) := by
  have hfield : collectField env c d.1 d.2 =
      fun s field => pure (Collected.field env c pre d s field) := by
    funext s field
    rw [collectField, readFirst_eq hpre htext, Collected.field]
    cases firstCached env c pre d field.2 with
    | none => rfl
    | some result => rfl
  rw [collectMqtt, hfield, List.foldlM_pure]
  rfl

/-- An instance without a text raises at the first candidate. -/
theorem collectMqtt_valueError (hpre : env.mqtt.config.topicPrefix = .ok pre) {d : Device}
    (htext : (pyStr d.2).isSome = false) {field path : String} {paths : List String}
    {fieldPaths : PathTable} :
    collectMqtt env c ((field, path :: paths) :: fieldPaths) d.1 d.2 = .error .valueError := by
  have htopic : formatTopic pre d.1 d.2 path = .error .valueError := by
    rw [formatTopic, Option.isSome_eq_false_iff.mp htext |> Option.isNone_iff_eq_none.mp]
  have hfield : ∀ s, collectField env c d.1 d.2 s (field, path :: paths) =
      .error .valueError := by
    intro s
    rw [collectField, MqttClient.readFirst, MqttClient.readPath_error hpre htopic]
    rfl
  rw [collectMqtt, List.foldlM_cons, hfield]
  rfl

theorem foldlM_congr {α β : Type} {f g : β → α → Except PyError β} {l : List α}
    (h : ∀ b, ∀ a ∈ l, f b a = g b a) (b : β) : l.foldlM f b = l.foldlM g b := by
  induction l generalizing b with
  | nil => rfl
  | cons a l ih =>
    rw [List.foldlM_cons, List.foldlM_cons, h b a List.mem_cons_self]
    have hl : ∀ b, l.foldlM f b = l.foldlM g b :=
      ih fun b a' ha' => h b a' (List.mem_cons_of_mem _ ha')
    simp only [hl]

theorem readFirst_congr {c' : MqttClient} (hpre : env.mqtt.config.topicPrefix = .ok pre)
    {d : Device} {paths : List String}
    (h : ∀ path ∈ paths, c.cache.lookup (itemTopic pre d.1 d.2 path) =
      c'.cache.lookup (itemTopic pre d.1 d.2 path)) :
    c.readFirst env.mqtt env.clock d.1 d.2 paths =
      c'.readFirst env.mqtt env.clock d.1 d.2 paths := by
  induction paths with
  | nil => rfl
  | cons path paths ih =>
    obtain ⟨hpath, hpaths⟩ := List.forall_mem_cons.mp h
    have hread : ∀ now, c.readPath env.mqtt now d.1 d.2 path =
        c'.readPath env.mqtt now d.1 d.2 path := by
      intro now
      cases htopic : formatTopic pre d.1 d.2 path with
      | error e => rw [MqttClient.readPath_error hpre htopic, MqttClient.readPath_error hpre htopic]
      | ok topic =>
        obtain ⟨-, rfl⟩ := formatTopic_eq_ok.mp htopic
        rw [MqttClient.readPath_eq hpre htopic, MqttClient.readPath_eq hpre htopic, hpath]
    rw [MqttClient.readFirst, MqttClient.readFirst, hread, ih hpaths]

/-- Two caches that hold the same candidates of a device give the same fields. -/
theorem collectMqtt_congr {c' : MqttClient} (hpre : env.mqtt.config.topicPrefix = .ok pre)
    {fieldPaths : PathTable} {d : Device}
    (h : ∀ field ∈ fieldPaths, ∀ path ∈ field.2,
      c.cache.lookup (itemTopic pre d.1 d.2 path) = c'.cache.lookup (itemTopic pre d.1 d.2 path)) :
    collectMqtt env c fieldPaths d.1 d.2 = collectMqtt env c' fieldPaths d.1 d.2 := by
  have hloop : ∀ s, fieldPaths.foldlM (collectField env c d.1 d.2) s =
      fieldPaths.foldlM (collectField env c' d.1 d.2) s := by
    refine foldlM_congr fun s field hfield => ?_
    rw [collectField, collectField, readFirst_congr hpre (h field hfield)]
  rw [collectMqtt, collectMqtt, hloop]

/-- The loop sets its fields and no others. -/
theorem collected_out (fieldPaths : PathTable) (d : Device) :
    (fieldPaths.foldl (Collected.field env c pre d) {}).out =
      Dict.union [] (fieldPaths.map fun field => (field.1, fieldValue env c pre d field.2)) := by
  have hstep : ∀ s field, (Collected.field env c pre d s field).out =
      Dict.set s.out field.1 (fieldValue env c pre d field.2) := by
    intro s field
    rw [Collected.field, fieldValue]
    cases firstCached env c pre d field.2 with
    | none => rfl
    | some result => rfl
  have hloop : ∀ (table : PathTable) s, (table.foldl (Collected.field env c pre d) s).out =
      Dict.union s.out (table.map fun field => (field.1, fieldValue env c pre d field.2)) := by
    intro table
    induction table with
    | nil => exact fun s => rfl
    | cons field table ih =>
      intro s
      rw [List.foldl_cons, ih, hstep]
      rfl
  exact hloop fieldPaths {}

/-- The names a reading uses itself. -/
def reserved : List String := ["device_type", "instance", "stale", "age_seconds"]

/-- A table whose fields are distinct and not reserved. -/
def Tabled (fieldPaths : PathTable) : Prop := (reserved ++ fieldPaths.map Prod.fst).Nodup

instance (fieldPaths : PathTable) : Decidable (Tabled fieldPaths) :=
  inferInstanceAs (Decidable (List.Nodup _))

/-- The value of a field of the table; `null` for a field that is not there. -/
def tableValue (env : ReadEnv) (c : MqttClient) (pre : String) (fieldPaths : PathTable)
    (d : Device) (field : String) : Json :=
  fieldValue env c pre d ((fieldPaths.lookup field).getD [])

theorem lookup_collected {fieldPaths : PathTable} (h : Tabled fieldPaths) (d : Device)
    {field : String} (hfield : field ∉ reserved) :
    (collected env c pre fieldPaths d).lookup field =
      (fieldPaths.lookup field).map (fieldValue env c pre d) := by
  -- a table maps to the dictionary of its values
  have hmap : ∀ table : PathTable,
      (table.map fun field => (field.1, fieldValue env c pre d field.2)).lookup field =
        (table.lookup field).map (fieldValue env c pre d) := by
    intro table
    induction table with
    | nil => rfl
    | cons entry table ih =>
      rw [List.map_cons, Dict.lookup_cons, ih, List.lookup_cons]
      by_cases hk : field = entry.1
      · simp [hk]
      · have hne : (field == entry.1) = false := beq_eq_false_iff_ne.mpr hk
        simp [hk, hne]
  have hnodup : ((fieldPaths.map fun field =>
      (field.1, fieldValue env c pre d field.2)).map Prod.fst).Nodup := by
    rw [List.map_map]
    exact (List.nodup_append.mp h).2.1
  -- the two entries of the guard are set last, under other names
  simp only [reserved, List.mem_cons, List.not_mem_nil, or_false, not_or] at hfield
  rw [collected, Collected.result, Dict.lookup_set, Dict.lookup_set, if_neg hfield.2.2.2,
    if_neg hfield.2.2.1, collected_out, Dict.lookup_union hnodup, hmap]
  simp

theorem collected_nodup (fieldPaths : PathTable) (d : Device) :
    ((collected env c pre fieldPaths d).map Prod.fst).Nodup := by
  have hempty : (([] : Dict).map Prod.fst).Nodup := List.nodup_nil
  rw [collected, Collected.result, collected_out]
  exact Dict.nodup_set (Dict.nodup_set (Dict.nodup_union hempty _) _ _) _ _

/-- A reading shows the fields of the table. -/
theorem get_reading {fieldPaths : PathTable} (h : Tabled fieldPaths) (d : Device) {base : Dict}
    {field : String} (hfield : field ∉ reserved) (hbase : base.lookup field = none) :
    Dict.get (Dict.union base (collected env c pre fieldPaths d)) field =
      tableValue env c pre fieldPaths d field := by
  rw [Dict.get, Dict.lookup_union (collected_nodup fieldPaths d), lookup_collected h d hfield,
    hbase, tableValue]
  cases fieldPaths.lookup field with
  | none => rfl
  | some paths => rfl

/-- The keys that name the device are not overwritten. -/
theorem get_reading_base {fieldPaths : PathTable} (h : Tabled fieldPaths) (d : Device)
    (base : Dict) {key : String} (hkey : key = "device_type" ∨ key = "instance") :
    Dict.get (Dict.union base (collected env c pre fieldPaths d)) key = Dict.get base key := by
  -- no field is named like an entry of `base`
  have hout : key ∉ fieldPaths.map Prod.fst := by
    intro hmem
    have hdisjoint := (List.nodup_append.mp h).2.2
    exact hdisjoint key (by rcases hkey with rfl | rfl <;> decide) key hmem rfl
  have hnone : (collected env c pre fieldPaths d).lookup key = none := by
    have hne : key ≠ "age_seconds" ∧ key ≠ "stale" := by
      rcases hkey with rfl | rfl <;> decide
    have hkeys : key ∉ (fieldPaths.map fun field =>
        (field.1, fieldValue env c pre d field.2)).map Prod.fst := by
      rwa [List.map_map]
    -- and so no entry of the reading is
    have hunion : ∀ (e d' : Dict), key ∉ e.map Prod.fst →
        (Dict.union d' e).lookup key = d'.lookup key := by
      intro e
      induction e with
      | nil => exact fun d' _ => rfl
      | cons kv e ih =>
        intro d' he
        rw [List.map_cons, List.mem_cons, not_or] at he
        have hstep : Dict.union d' (kv :: e) = Dict.union (Dict.set d' kv.1 kv.2) e := rfl
        rw [hstep, ih _ he.2, Dict.lookup_set, if_neg he.1]
    rw [collected, Collected.result, Dict.lookup_set, Dict.lookup_set, if_neg hne.1,
      if_neg hne.2, collected_out, hunion _ _ hkeys]
    rfl
  rw [Dict.get, Dict.lookup_union (collected_nodup fieldPaths d), hnone]
  rfl

/-! ## `_read_all_instances` -/

/-- The float that is added for a reading. -/
def powerOf (reading : Dict) : Option PyFloat :=
  match Dict.get reading "power" with
  | .bool b => some (.finite (if b then 1 else 0))
  | .int n => floatOfInt n
  | .float x => some x
  | _ => none

/-- `total_power` -/
def totalPower (readings : List Dict) : Option PyFloat :=
  match readings.filterMap powerOf with
  | [] => none
  | power :: powers => some (((power :: powers).foldl PyFloat.add (.finite 0)).round 1)

/-- The loop's body after an addition that does not raise. -/
def FanOut.push (s : FanOut) (reading : Dict) : FanOut :=
  match powerOf reading with
  | none => { s with readings := s.readings ++ [reading] }
  | some power =>
    { readings := s.readings ++ [reading], totalPower := s.totalPower.add power, hasPower := true }

theorem FanOut.add_eq (s : FanOut) (reading : Dict) :
    s.add reading = if (Dict.get reading "power").beyondFloat then .error .overflowError
      else .ok (s.push reading) := by
  rw [FanOut.add, FanOut.push, powerOf]
  cases Dict.get reading "power" with
  | int n =>
    by_cases hn : n.natAbs < floatLimit
    · have hn' : ¬floatLimit ≤ n.natAbs := Nat.not_le.mpr hn
      simp [powerNumber, toFloat, floatOfInt, Json.beyondFloat, hn, hn']
    · have hn' : floatLimit ≤ n.natAbs := Nat.not_lt.mp hn
      simp [powerNumber, toFloat, floatOfInt, Json.beyondFloat, hn, hn']
  | _ => rfl

/-- A loop of calls that may raise, whose results are then added. -/
theorem foldlM_add_eq_ok {read : Device → Except PyError Dict} {ds : List Device}
    {s s' : FanOut} :
    ds.foldlM (fun s d => do FanOut.add s (← read d)) s = .ok s' ↔
      ∃ readings, List.Forall₂ (fun d reading => read d = .ok reading) ds readings ∧
        (∀ reading ∈ readings, (Dict.get reading "power").beyondFloat = false) ∧
        s' = readings.foldl FanOut.push s := by
  induction ds generalizing s with
  | nil =>
    constructor
    · intro h
      exact ⟨[], .nil, by simp, (Except.ok.inj h).symm⟩
    · rintro ⟨readings, hreadings, -, rfl⟩
      cases hreadings
      rfl
  | cons d ds ih =>
    rw [List.foldlM_cons]
    cases hread : read d with
    | error e =>
      constructor
      · intro h
        cases h
      · rintro ⟨readings, hreadings, -⟩
        -- one device raised, so there is no list of readings
        cases hreadings with
        | cons hd _ => rw [hread] at hd; cases hd
    | ok reading =>
      have hbind : (do FanOut.add s (← Except.ok reading)) = s.add reading := rfl
      rw [hbind, FanOut.add_eq]
      -- the addition raises for a power beyond the float range
      by_cases hbeyond : (Dict.get reading "power").beyondFloat = true
      · rw [if_pos hbeyond]
        constructor
        · intro h
          cases h
        · rintro ⟨readings, hreadings, hsafe, -⟩
          cases hreadings with
          | cons hd _ =>
            rw [hread] at hd
            obtain rfl := Except.ok.inj hd
            rw [hsafe reading List.mem_cons_self] at hbeyond
            cases hbeyond
      -- otherwise the reading is kept and the loop goes on
      · rw [if_neg hbeyond]
        have hok : ((Except.ok (s.push reading) : Except PyError FanOut) >>= fun s =>
            ds.foldlM (fun s d => do FanOut.add s (← read d)) s) =
              ds.foldlM (fun s d => do FanOut.add s (← read d)) (s.push reading) := rfl
        rw [hok, ih]
        constructor
        · rintro ⟨readings, hreadings, hsafe, rfl⟩
          refine ⟨reading :: readings, .cons hread hreadings, ?_, rfl⟩
          intro r hr
          rcases List.mem_cons.mp hr with rfl | hr
          · exact Bool.eq_false_iff.mpr hbeyond
          · exact hsafe r hr
        · rintro ⟨readings, hreadings, hsafe, rfl⟩
          cases hreadings with
          | cons hd htail =>
            rw [hread] at hd
            obtain rfl := Except.ok.inj hd
            exact ⟨_, htail, fun r hr => hsafe r (List.mem_cons_of_mem _ hr), rfl⟩

theorem foldl_push (readings : List Dict) (s : FanOut) :
    readings.foldl FanOut.push s =
      { readings := s.readings ++ readings,
        totalPower := (readings.filterMap powerOf).foldl PyFloat.add s.totalPower,
        hasPower := s.hasPower || !(readings.filterMap powerOf).isEmpty } := by
  induction readings generalizing s with
  | nil => simp
  | cons reading readings ih =>
    rw [List.foldl_cons, ih, FanOut.push, List.filterMap_cons]
    cases powerOf reading with
    | none => simp
    | some power => simp

/-- The devices of one type, in the order of `list_devices`. -/
def devicesOfType (env : ReadEnv) (c : MqttClient) (pre deviceType : String) : List Device :=
  (devicesOf env.decimal pre c.cache.keys).filter (·.1 = deviceType)

theorem text_of_mem_devicesOfType {deviceType : String} {d : Device}
    (h : d ∈ devicesOfType env c pre deviceType) : (pyStr d.2).isSome = true :=
  text_of_mem_devicesOf (List.mem_filter.mp h).1

/-- The instances of one type are sorted already. -/
theorem instancesOf_eq (hpre : env.mqtt.config.topicPrefix = .ok pre) (deviceType : String) :
    instancesOf env c deviceType = .ok (devicesOfType env c pre deviceType) := by
  -- the devices are sorted, so those of one type are sorted by instance
  have hsorted : ((devicesOfType env c pre deviceType).map (·.2)).Pairwise (· ≤ ·) := by
    rw [List.pairwise_map]
    have hpairwise := (devicesOf_pairwise env.decimal pre c.cache.keys).filter
      (fun d : Device => decide (d.1 = deviceType))
    refine hpairwise.imp_of_mem ?_
    intro a b ha hb hab
    have ha' : a.1 = deviceType := by simpa using (List.mem_filter.mp ha).2
    have hb' : b.1 = deviceType := by simpa using (List.mem_filter.mp hb).2
    rcases hab with hab | ⟨-, hab⟩
    · exact absurd hab (by rw [ha', hb']; exact lt_irrefl _)
    · exact hab
  have hmap : ((devicesOfType env c pre deviceType).map (·.2)).map
      (fun inst => (deviceType, inst)) = devicesOfType env c pre deviceType := by
    rw [List.map_map]
    refine (List.map_congr_left ?_).trans (List.map_id _)
    intro d hd
    have hd' : d.1 = deviceType := by simpa using (List.mem_filter.mp hd).2
    exact Prod.ext hd'.symm rfl
  rw [instancesOf, listDevices_eq hpre]
  show Except.ok ((((devicesOfType env c pre deviceType).map (·.2)).insertionSort (· ≤ ·)).map
    fun inst => (deviceType, inst)) = _
  rw [hsorted.insertionSort_eq, hmap]

/-- The nested loop is one loop over all devices of the types. -/
theorem readAllInstances_flat (hpre : env.mqtt.config.topicPrefix = .ok pre)
    (fieldPaths : PathTable) (deviceTypes : List String) (post : Postprocess) :
    readAllInstances env c fieldPaths deviceTypes post = (do
      let s ← (deviceTypes.flatMap (devicesOfType env c pre)).foldlM (fun (s : FanOut) d => do
        s.add (← readInstance env c fieldPaths post d)) {}
      return .fanOut s.readings (if s.hasPower then some (s.totalPower.round 1) else none)) := by
  have hnested : ∀ (types : List String) (s : FanOut),
      types.foldlM (fun (s : FanOut) deviceType => do
        (← instancesOf env c deviceType).foldlM (fun s d => do
          s.add (← readInstance env c fieldPaths post d)) s) s =
      (types.flatMap (devicesOfType env c pre)).foldlM (fun s d => do
        FanOut.add s (← readInstance env c fieldPaths post d)) s := by
    intro types
    induction types with
    | nil => exact fun s => rfl
    | cons t types ih =>
      intro s
      rw [List.foldlM_cons, List.flatMap_cons, List.foldlM_append, instancesOf_eq hpre]
      simp only [ih]
      rfl
  rw [readAllInstances, hnested]

/-- The fan-out returns when every reading does and every power is within the
    float range; then it holds one reading for each device, in order. -/
theorem readAllInstances_eq_ok (hpre : env.mqtt.config.topicPrefix = .ok pre)
    {fieldPaths : PathTable} {deviceTypes : List String} {post : Postprocess} {r : ReadResult} :
    readAllInstances env c fieldPaths deviceTypes post = .ok r ↔
      ∃ readings, List.Forall₂ (fun d reading => readInstance env c fieldPaths post d = .ok reading)
          (deviceTypes.flatMap (devicesOfType env c pre)) readings ∧
        (∀ reading ∈ readings, (Dict.get reading "power").beyondFloat = false) ∧
        r = .fanOut readings (totalPower readings) := by
  -- the loop's variables at its end
  have hresult : ∀ readings, (readings.foldl FanOut.push {}).readings = readings ∧
      (if (readings.foldl FanOut.push {}).hasPower then
        some ((readings.foldl FanOut.push {}).totalPower.round 1) else none) =
        totalPower readings := by
    intro readings
    rw [foldl_push, totalPower]
    cases hpowers : readings.filterMap powerOf with
    | nil => simp
    | cons power powers => simp
  rw [readAllInstances_flat hpre]
  constructor
  · intro h
    cases hs : (deviceTypes.flatMap (devicesOfType env c pre)).foldlM (fun s d => do
        FanOut.add s (← readInstance env c fieldPaths post d)) {} with
    | error e => rw [hs] at h; cases h
    | ok s =>
      rw [hs] at h
      obtain ⟨readings, hreadings, hsafe, rfl⟩ := foldlM_add_eq_ok.mp hs
      refine ⟨readings, hreadings, hsafe, ?_⟩
      obtain ⟨hlist, htotal⟩ := hresult readings
      rw [← Except.ok.inj h, hlist, htotal]
  · rintro ⟨readings, hreadings, hsafe, rfl⟩
    rw [foldlM_add_eq_ok.mpr ⟨readings, hreadings, hsafe, rfl⟩]
    obtain ⟨hlist, htotal⟩ := hresult readings
    rw [← htotal]
    show Except.ok (ReadResult.fanOut _ _) = _
    rw [hlist]

end Server

end McpVenusOs
