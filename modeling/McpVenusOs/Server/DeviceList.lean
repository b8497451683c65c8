/-
  McpVenusOs.Server.DeviceList

  When a device is listed, read and counted once.

  `list_devices` drops duplicates among the raw segments but reports the parsed
  instance, and `read_path` builds its key from the text of that number.  The
  two agree on a segment that is the text of the number it parses to
  (`Canonical`); a single other segment lists a device that the reads look for
  under another topic, or lists a device twice.
-/

import McpVenusOs.Server.Readings

namespace McpVenusOs.Server

open Py TopicFilter

/-- The strict order of the list. -/
def deviceLt (a b : Device) : Prop := a.1 < b.1 ∨ a.1 = b.1 ∧ a.2 < b.2

/-- Some cached topic is `<prefix>/t/s`, or starts with `<prefix>/t/s/`, for the
    text `s` of the instance. -/
def Seen (pre : String) (topics : List String) (d : Device) : Prop :=
  ∃ s, pyStr d.2 = some s ∧ ∃ topic ∈ topics, topic = pre ++ "/" ++ d.1 ++ "/" ++ s ∨
    startsWith topic (pre ++ "/" ++ d.1 ++ "/" ++ s ++ "/") = true

/-- Two caches that hold the same items of the device `d`. -/
def SameItems (pre : String) (d : Device) (c c' : MqttClient) : Prop :=
  ∀ topic, deviceSegments pre topic = some (d.1, toString d.2) →
    c.cache.lookup topic = c'.cache.lookup topic

/-- Each device is listed once; every fan-out has one reading for each device of
    its types, from that device's own topics, and sums the power of each once. -/
structure ListedOnce (env : ReadEnv) (c : MqttClient) (pre : String) : Prop where
  devices : ∃ devices, c.listDevices env.mqtt.config env.decimal = .ok devices ∧
    devices.Pairwise deviceLt ∧
    ∀ d : Device, '/' ∉ d.1.toList → (d ∈ devices ↔ Seen pre c.cache.keys d)
  readings : ∀ (fieldPaths : PathTable) (deviceTypes : List String) (post : Postprocess)
    (r : ReadResult), deviceTypes.Nodup →
    readAllInstances env c fieldPaths deviceTypes post = .ok r →
    ∃ ds readings, r = .fanOut readings (totalPower readings) ∧ ds.Nodup ∧
      (∀ d : Device, d ∈ ds ↔
        d.1 ∈ deviceTypes ∧ '/' ∉ d.1.toList ∧ Seen pre c.cache.keys d) ∧
      List.Forall₂ (fun d reading => ∀ c', SameItems pre d c c' →
        readInstance env c' fieldPaths post d = .ok reading) ds readings

variable {env : ReadEnv} {c : MqttClient} {pre : String}

/-! ## The segments -/

/-- A device is seen when its canonical segment is. -/
theorem seen_iff {topics : List String} {d : Device} (hd : '/' ∉ d.1.toList) :
    Seen pre topics d ↔ pyStr d.2 = some (toString d.2) ∧
      ∃ topic ∈ topics, deviceSegments pre topic = some (d.1, toString d.2) := by
  have hslash : '/' ∉ (toString d.2).toList := notMem_toString (by decide) (by decide) d.2
  constructor
  · rintro ⟨s, hs, topic, htopic, h⟩
    have hs' : s = toString d.2 := by
      rw [pyStr, Option.ite_none_right_eq_some, Option.some.injEq] at hs
      exact hs.2.symm
    subst hs'
    exact ⟨hs, topic, htopic, deviceSegments_eq_some.mpr ⟨hd, hslash, h⟩⟩
  · rintro ⟨hs, topic, htopic, hseg⟩
    exact ⟨_, hs, topic, htopic, (deviceSegments_eq_some.mp hseg).2.2⟩

/-- Distinct segments that parse to one device make it appear twice. -/
theorem parse_injective {segments : List (String × String)}
    (h : (segments.filterMap (parseDevice env.decimal)).Nodup) {a b : String × String} {d : Device}
    (ha : a ∈ segments) (hb : b ∈ segments) (hpa : parseDevice env.decimal a = some d)
    (hpb : parseDevice env.decimal b = some d) : a = b := by
  by_contra hab
  have hpairwise := List.pairwise_filterMap.mp h
  have hsymm : Std.Symm fun x y : String × String => ∀ d, parseDevice env.decimal x = some d →
      ∀ d', parseDevice env.decimal y = some d' → d ≠ d' :=
    ⟨fun x y hxy d hd d' hd' heq => hxy d' hd' d hd heq.symm⟩
  exact hpairwise.forall ha hb hab d hpa d hpb rfl

theorem devicesOf_nodup_iff {topics : List String} :
    (devicesOf env.decimal pre topics).Nodup ↔
      ((topics.filterMap (deviceSegments pre)).dedup.filterMap
        (parseDevice env.decimal)).Nodup :=
  (List.perm_insertionSort deviceLe _).nodup_iff

theorem pairwise_deviceLt_iff {topics : List String} :
    (devicesOf env.decimal pre topics).Pairwise deviceLt ↔
      (devicesOf env.decimal pre topics).Nodup := by
  constructor
  · intro h
    refine h.imp ?_
    rintro a b (hab | ⟨-, hab⟩) rfl
    · exact lt_irrefl _ hab
    · exact lt_irrefl _ hab
  · intro h
    refine ((devicesOf_pairwise env.decimal pre topics).and h).imp ?_
    rintro a b ⟨hab | ⟨hab, hab'⟩, hne⟩
    · exact .inl hab
    · exact .inr ⟨hab, lt_of_le_of_ne hab' fun h => hne (Prod.ext hab h)⟩

/-- The segments of the portal's cached topics are canonical. -/
def CanonicalSegments (env : ReadEnv) (c : MqttClient) (pre : String) : Prop :=
  ∀ topic ∈ c.cache.keys, ∀ t s, deviceSegments pre topic = some (t, s) →
    Canonical env.decimal s

theorem mem_devicesOf_iff_seen (h : CanonicalSegments env c pre) {d : Device} :
    d ∈ devicesOf env.decimal pre c.cache.keys ↔
      '/' ∉ d.1.toList ∧ Seen pre c.cache.keys d := by
  rw [mem_devicesOf]
  constructor
  · rintro ⟨topic, htopic, s, hseg, hs⟩
    have hd : '/' ∉ d.1.toList := (deviceSegments_eq_some.mp hseg).1
    have hcanonical : s = toString d.2 := h topic htopic _ _ hseg d.2 hs
    subst hcanonical
    exact ⟨hd, (seen_iff hd).mpr ⟨pyStr_of_pyInt hs, topic, htopic, hseg⟩⟩
  · rintro ⟨hd, hseen⟩
    obtain ⟨hs, topic, htopic, hseg⟩ := (seen_iff hd).mp hseen
    exact ⟨topic, htopic, _, hseg, pyInt_pyStr hs⟩

theorem devicesOf_nodup (h : CanonicalSegments env c pre) :
    (devicesOf env.decimal pre c.cache.keys).Nodup := by
  rw [devicesOf_nodup_iff]
  have hnodup := List.nodup_dedup (c.cache.keys.filterMap (deviceSegments pre))
  -- on canonical segments the number determines the text
  have hcanonical : ∀ a ∈ (c.cache.keys.filterMap (deviceSegments pre)).dedup, ∀ d,
      parseDevice env.decimal a = some d → a = (d.1, toString d.2) := by
    rintro ⟨t, s⟩ ha d hd
    rw [List.mem_dedup, List.mem_filterMap] at ha
    obtain ⟨topic, htopic, hseg⟩ := ha
    obtain ⟨n, hn, rfl⟩ := Option.map_eq_some_iff.mp hd
    exact Prod.ext rfl (h topic htopic t s hseg n hn)
  show List.Pairwise (· ≠ ·) _
  rw [List.pairwise_filterMap]
  refine List.Pairwise.imp_of_mem ?_ hnodup
  rintro a b ha hb hab d hd d' hd' rfl
  exact hab ((hcanonical a ha d hd).trans (hcanonical b hb d hd').symm)

/-- A reading is made from the device's own items. -/
theorem readInstance_congr {c' : MqttClient} (hpre : env.mqtt.config.topicPrefix = .ok pre)
    {d : Device} (hd : '/' ∉ d.1.toList) (h : SameItems pre d c c') (fieldPaths : PathTable)
    (post : Postprocess) :
    readInstance env c fieldPaths post d = readInstance env c' fieldPaths post d := by
  have hcollected : collectMqtt env c fieldPaths d.1 d.2 = collectMqtt env c' fieldPaths d.1 d.2 :=
    collectMqtt_congr hpre fun _ _ _ _ => h _ (deviceSegments_itemTopic hd)
  rw [readInstance, readInstance, hcollected]

theorem sameItems_readings (hpre : env.mqtt.config.topicPrefix = .ok pre)
    {fieldPaths : PathTable} {post : Postprocess} {ds : List Device} {readings : List Dict}
    (hds : ∀ d ∈ ds, '/' ∉ d.1.toList)
    (h : List.Forall₂ (fun d reading => readInstance env c fieldPaths post d = .ok reading) ds
      readings) :
    List.Forall₂ (fun d reading => ∀ c', SameItems pre d c c' →
      readInstance env c' fieldPaths post d = .ok reading) ds readings := by
  induction h with
  | nil => exact .nil
  | @cons d reading ds readings hread _ ih =>
    refine .cons ?_ (ih fun x hx => hds x (List.mem_cons_of_mem d hx))
    intro c' hsame
    rw [← readInstance_congr hpre (hds d List.mem_cons_self) hsame, hread]

/-! ## Once -/

/-- Each device is listed, read and counted once exactly when the instance
    segment of every cached topic that parses is canonical. -/
theorem devices_listed_once (hpre : env.mqtt.config.topicPrefix = .ok pre) :
    ListedOnce env c pre ↔ CanonicalSegments env c pre := by
  constructor
  · intro h topic htopic t s hseg n hn
    obtain ⟨devices, hdevices, hsorted, hseen⟩ := h.devices
    rw [listDevices_eq hpre] at hdevices
    obtain rfl := Except.ok.inj hdevices
    have ht : '/' ∉ t.toList := (deviceSegments_eq_some.mp hseg).1
    -- the device is listed, so its canonical segment is cached as well
    have hmem : ((t, n) : Device) ∈ devicesOf env.decimal pre c.cache.keys :=
      mem_devicesOf.mpr ⟨topic, htopic, s, hseg, hn⟩
    obtain ⟨hstr, topic', htopic', hseg'⟩ := (seen_iff ht).mp ((hseen (t, n) ht).mp hmem)
    have hnodup := devicesOf_nodup_iff.mp (pairwise_deviceLt_iff.mp hsorted)
    have hraw : ∀ {topic x}, topic ∈ c.cache.keys → deviceSegments pre topic = some x →
        x ∈ (c.cache.keys.filterMap (deviceSegments pre)).dedup := by
      intro topic x htopic hx
      rw [List.mem_dedup, List.mem_filterMap]
      exact ⟨topic, htopic, hx⟩
    have hparse : parseDevice env.decimal (t, s) = some (t, n) := by
      rw [parseDevice, hn]
      rfl
    have hparse' : parseDevice env.decimal (t, toString n) = some (t, n) := by
      rw [parseDevice, pyInt_pyStr hstr]
      rfl
    have hpair := parse_injective hnodup (hraw htopic hseg)
      (hraw htopic' hseg') hparse hparse'
    exact (Prod.mk.inj hpair).2
  · intro h
    have hnodup : (devicesOf env.decimal pre c.cache.keys).Nodup := devicesOf_nodup h
    refine ⟨⟨_, listDevices_eq hpre, pairwise_deviceLt_iff.mpr hnodup, ?_⟩, ?_⟩
    · intro d hd
      rw [mem_devicesOf_iff_seen h]
      exact ⟨And.right, fun hseen => ⟨hd, hseen⟩⟩
    · intro fieldPaths deviceTypes post r htypes hr
      obtain ⟨readings, hreadings, -, rfl⟩ := (readAllInstances_eq_ok hpre).mp hr
      refine ⟨deviceTypes.flatMap (devicesOfType env c pre), readings, rfl, ?_, ?_, ?_⟩
      · rw [List.nodup_flatMap]
        refine ⟨fun t _ => hnodup.filter _, htypes.imp ?_⟩
        intro t t' hne d hd hd'
        have h1 : d.1 = t := of_decide_eq_true (List.mem_filter.mp hd).2
        have h2 : d.1 = t' := of_decide_eq_true (List.mem_filter.mp hd').2
        exact hne (h1.symm.trans h2)
      · intro d
        rw [List.mem_flatMap]
        simp only [devicesOfType, List.mem_filter, decide_eq_true_eq, mem_devicesOf_iff_seen h]
        constructor
        · rintro ⟨t, ht, hd, rfl⟩
          exact ⟨ht, hd⟩
        · rintro ⟨ht, hd⟩
          exact ⟨d.1, ht, hd, rfl⟩
      · refine sameItems_readings hpre ?_ hreadings
        intro d hd
        obtain ⟨t, -, hdt⟩ := List.mem_flatMap.mp hd
        exact ((mem_devicesOf_iff_seen h).mp (List.mem_filter.mp hdt).1).1

/-- One meter is listed, read and counted once. -/
theorem devices_listed_once_battery : ListedOnce fixtureReadEnv
    (cachedClient [("N/testportal/battery/1/Soc", .int 50)]) "N/testportal" := by
  refine (devices_listed_once (by decide +kernel)).mpr ?_
  intro topic htopic t s hseg
  obtain rfl : topic = "N/testportal/battery/1/Soc" := by simpa [cachedClient] using htopic
  have hdevice : deviceSegments "N/testportal" "N/testportal/battery/1/Soc" =
      some ("battery", "1") := by
    decide +kernel
  rw [hdevice] at hseg
  obtain ⟨rfl, rfl⟩ := Prod.mk.inj (Option.some.inj hseg)
  decide +kernel

/-- The segments `1` and `01` list battery 1 twice. -/
theorem leading_zero_listed_twice : ¬ListedOnce fixtureReadEnv
    (cachedClient [("N/testportal/battery/1/Soc", .int 50),
      ("N/testportal/battery/01/Soc", .int 60)]) "N/testportal" := by
  intro h
  obtain ⟨devices, hdevices, hsorted, -⟩ := h.devices
  have htwice : (cachedClient [("N/testportal/battery/1/Soc", .int 50),
      ("N/testportal/battery/01/Soc", .int 60)]).listDevices fixtureReadEnv.mqtt.config
      fixtureReadEnv.decimal = .ok [("battery", 1), ("battery", 1)] := by
    decide +kernel
  rw [htwice] at hdevices
  obtain rfl := Except.ok.inj hdevices
  rcases List.rel_of_pairwise_cons hsorted List.mem_cons_self with hlt | ⟨-, hlt⟩
  · exact lt_irrefl _ hlt
  · exact lt_irrefl _ hlt

end McpVenusOs.Server
