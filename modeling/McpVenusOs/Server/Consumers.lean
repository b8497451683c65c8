/-
  McpVenusOs.Server.Consumers

  What is consumed is what is refreshed.

  A read tool consumes an item when an answer of the tool depends on its cached
  value (`ReadTool.Reads`), a write tool when some run of a call looks its topic
  up (`LooksUp`).  Both are said of the tools as they run, not of the tables;
  `reads_iff` and `lookedUp_contract` then find the tables behind them, which
  are what `_refresh_candidates` selects by.
-/

import McpVenusOs.Mqtt.ReadFeed
import McpVenusOs.Mqtt.RefreshTopics
import McpVenusOs.Server.ReadSurvival
import McpVenusOs.Server.Tools

namespace McpVenusOs

open Py Program TopicFilter

/-- The client with one more entry in its cache. -/
def MqttClient.withEntry (c : MqttClient) (topic : String) (entry : CacheEntry) : MqttClient :=
  { c with cache := c.cache.insert topic entry }

/-- A topic is the item of one device, at one path. -/
theorem itemTopic_inj {pre t t' path path' : String} {n n' : Int} (ht : '/' ∉ t.toList)
    (ht' : '/' ∉ t'.toList) (h : itemTopic pre t n path = itemTopic pre t' n' path') :
    t = t' ∧ path = path' := by
  have hseg : deviceSegments pre (itemTopic pre t n path) = some (t, toString n) :=
    deviceSegments_itemTopic ht
  rw [h, deviceSegments_itemTopic ht'] at hseg
  obtain ⟨htype, hinst⟩ := Prod.mk.inj (Option.some.inj hseg)
  rw [itemTopic, itemTopic, htype, hinst, String.append_right_inj] at h
  exact ⟨htype.symm, h⟩

namespace Server

/-! ## The read tools -/

/-- An answer of the tool depends on what is cached for an item with the path.
    Both caches have the same topics, so the devices found are the same. -/
def ReadTool.Reads (tool : ReadTool) (deviceType path : String) : Prop :=
  ∃ (env : ReadEnv) (c : MqttClient) (pre : String) (n inst : Int) (entry entry' : CacheEntry),
    env.mqtt.config.topicPrefix = .ok pre ∧
    tool.call env (c.withEntry (itemTopic pre deviceType n path) entry) inst ≠
      tool.call env (c.withEntry (itemTopic pre deviceType n path) entry') inst

/-- The path is a candidate of a field the tool has for the device type. -/
def ReadTool.Tables (tool : ReadTool) (deviceType path : String) : Prop :=
  deviceType ∈ tool.deviceTypes ∧ ∃ field ∈ tool.fieldPaths, path ∈ field.2

variable {env : ReadEnv} {c c' : MqttClient} {pre : String}

/-- A call sees the topics that are cached, and the candidates of its table. -/
theorem call_congr (tool : ReadTool) (hpre : env.mqtt.config.topicPrefix = .ok pre)
    (hkeys : c.cache.keys = c'.cache.keys)
    (h : ∀ t ∈ tool.deviceTypes, ∀ n, ∀ field ∈ tool.fieldPaths, ∀ path ∈ field.2,
      c.cache.lookup (itemTopic pre t n path) = c'.cache.lookup (itemTopic pre t n path))
    (inst : Int) : tool.call env c inst = tool.call env c' inst := by
  -- every reading the tool can make is the same
  have hcollect : ∀ t ∈ tool.deviceTypes, ∀ n,
      collectMqtt env c tool.fieldPaths t n = collectMqtt env c' tool.fieldPaths t n := by
    intro t ht n
    exact collectMqtt_congr (d := (t, n)) hpre (h t ht n)
  -- and so are the devices
  have hdevices : devicesOfType env c pre = devicesOfType env c' pre := by
    funext t
    rw [devicesOfType, devicesOfType, hkeys]
  rw [tool.call_eq, readTool, readTool]
  -- the fan-out, or the first type that has the instance
  split
  · rw [readAllInstances_flat hpre, readAllInstances_flat hpre, hdevices]
    have hloop : ∀ s, (tool.deviceTypes.flatMap (devicesOfType env c' pre)).foldlM (fun s d => do
          FanOut.add s (← readInstance env c tool.fieldPaths tool.post d)) s =
        (tool.deviceTypes.flatMap (devicesOfType env c' pre)).foldlM (fun s d => do
          FanOut.add s (← readInstance env c' tool.fieldPaths tool.post d)) s := by
      refine foldlM_congr fun s d hd => ?_
      obtain ⟨t, ht, hd⟩ := List.mem_flatMap.mp hd
      have htype : d.1 = t := of_decide_eq_true (List.mem_filter.mp hd).2
      rw [readInstance, readInstance, hcollect d.1 (htype ▸ ht)]
    rw [hloop]
  · rw [instanceDeviceType_eq hpre, instanceDeviceType_eq hpre, hkeys]
    -- the type that is found is one of the tool's
    obtain ⟨t, ht, hasked⟩ : ∃ t ∈ tool.deviceTypes, (tool.deviceTypes.find? fun t =>
        (t, inst) ∈ devicesOf env.decimal pre c'.cache.keys).getD (tool.deviceTypes.headD "") =
        t := by
      cases hfind : tool.deviceTypes.find? fun t =>
          (t, inst) ∈ devicesOf env.decimal pre c'.cache.keys with
      | none => exact ⟨_, by cases tool <;> exact List.mem_cons_self, rfl⟩
      | some t => exact ⟨t, List.mem_of_find?_eq_some hfind, rfl⟩
    rw [hasked]
    show (do
      let collected ← collectMqtt env c tool.fieldPaths t inst
      return ReadResult.device (← tool.post env (Dict.union [("instance", .int inst)] collected))) =
      (do
      let collected ← collectMqtt env c' tool.fieldPaths t inst
      return ReadResult.device (← tool.post env (Dict.union [("instance", .int inst)] collected)))
    rw [hcollect t ht]

theorem deviceTypes_no_slash {tool : ReadTool} {t : String} (ht : t ∈ tool.deviceTypes) :
    '/' ∉ t.toList := by
  have hall : ∀ t ∈ tool.deviceTypes, '/' ∉ t.toList := by
    cases tool <;> decide
  exact hall t ht

/-! ### A cache with one item -/

section OneItem

variable {t path : String} {v : Json}

/-- The client that has cached `v` for the item at `path` of device 1, and nothing else. -/
def oneItem (pre t path : String) (v : Json) : MqttClient :=
  MqttClient.withEntry {} (itemTopic pre t 1 path) (v, 0)

theorem lookup_oneItem (pre t path : String) (v : Json) (topic : String) :
    (oneItem pre t path v).cache.lookup topic =
      if topic = itemTopic pre t 1 path then some (v, 0) else none := by
  split
  · rename_i h
    rw [h]
    exact AList.lookup_insert _
  · rename_i h
    exact (AList.lookup_insert_ne h).trans (AList.lookup_empty _)

theorem mem_devicesOf_oneItem (ht : '/' ∉ t.toList) (t' : String) :
    (t', (1 : Int)) ∈ devicesOf env.decimal pre (oneItem pre t path v).cache.keys ↔ t' = t := by
  have hkeys : (oneItem pre t path v).cache.keys = [itemTopic pre t 1 path] := rfl
  rw [hkeys, mem_devicesOf]
  constructor
  · rintro ⟨topic, htopic, s, hseg, -⟩
    obtain rfl := List.mem_singleton.mp htopic
    rw [deviceSegments_itemTopic ht] at hseg
    exact (Prod.mk.inj (Option.some.inj hseg)).1.symm
  · rintro rfl
    have hone : pyStr 1 = some (toString (1 : Int)) := by decide
    exact ⟨_, List.mem_singleton_self _, toString (1 : Int), deviceSegments_itemTopic ht,
      pyInt_pyStr hone⟩

/-- A field shows the item if its path is a candidate. -/
theorem fieldValue_oneItem (paths : List String) :
    fieldValue env (oneItem pre t path v) pre (t, 1) paths = if path ∈ paths then v else .null := by
  have hfirst : ∀ p, ((oneItem pre t path v).cache.lookup (itemTopic pre t 1 p)) =
      if p = path then some (v, 0) else none := by
    intro p
    have hiff : itemTopic pre t 1 p = itemTopic pre t 1 path ↔ p = path := by
      rw [itemTopic, itemTopic, String.append_right_inj]
    rw [lookup_oneItem]
    simp only [hiff]
  induction paths with
  | nil => rfl
  | cons p paths ih =>
    rw [fieldValue, firstCached, List.findSome?_cons, hfirst]
    by_cases hp : p = path
    · simp [hp]
    · rw [if_neg hp, Option.map_none]
      have hmem : path ∈ p :: paths ↔ path ∈ paths := by
        simp [Ne.symm hp]
      simp only [hmem]
      exact ih

theorem asked_oneItem {tool : ReadTool} (ht : t ∈ tool.deviceTypes) :
    tool.asked env (oneItem pre t path v) pre 1 = [(t, 1)] := by
  have hslash : '/' ∉ t.toList := deviceTypes_no_slash ht
  rw [ReadTool.asked, if_neg (by decide)]
  cases hfind : tool.deviceTypes.find? fun t' =>
      (t', (1 : Int)) ∈ devicesOf env.decimal pre (oneItem pre t path v).cache.keys with
  | none =>
    have hnone := List.find?_eq_none.mp hfind t ht
    rw [decide_eq_true_eq, mem_devicesOf_oneItem hslash] at hnone
    exact absurd rfl hnone
  | some t' =>
    have hsome := List.find?_some hfind
    rw [decide_eq_true_eq, mem_devicesOf_oneItem hslash] at hsome
    rw [hsome]
    rfl

/-- No tool fails on a number, and each shows it. -/
theorem call_oneItem {tool : ReadTool} (hpre : env.mqtt.config.topicPrefix = .ok pre)
    (ht : t ∈ tool.deviceTypes) {field : String × List String} (hfield : field ∈ tool.fieldPaths)
    (hpath : path ∈ field.2) {n : Int} (hn : (Json.int n).beyondFloat = false)
    (htext : (pyStr n).isSome = true) :
    ∃ r, tool.call env (oneItem pre t path (.int n)) 1 = .ok (.device r) ∧
      Dict.get r field.1 = .int n := by
  have hnames := List.nodup_append.mp tool.tabled
  have hreserved : field.1 ∉ reserved := by
    intro hmem
    exact hnames.2.2 _ hmem _ (List.mem_map_of_mem hfield) rfl
  have hlookup : tool.fieldPaths.lookup field.1 = some field.2 :=
    (lookup_eq_some_of_nodup hnames.2.1).mpr hfield
  -- all values of the device are the one number, or none
  have hvalue : ∀ name, tableValue env (oneItem pre t path (.int n)) pre tool.fieldPaths (t, 1)
      name = .null ∨ tableValue env (oneItem pre t path (.int n)) pre tool.fieldPaths (t, 1)
      name = .int n := by
    intro name
    rw [tableValue, fieldValue_oneItem]
    split
    · exact .inr rfl
    · exact .inl rfl
  have hshown : tableValue env (oneItem pre t path (.int n)) pre tool.fieldPaths (t, 1) field.1 =
      .int n := by
    rw [tableValue, hlookup, fieldValue_oneItem, Option.getD_some, if_pos hpath]
  -- such values survive every postprocessor
  have hsafe : tool.PostSafe env
      (tableValue env (oneItem pre t path (.int n)) pre tool.fieldPaths (t, 1)) := by
    have hfloat : ∀ name, (tableValue env (oneItem pre t path (.int n)) pre tool.fieldPaths (t, 1)
        name).beyondFloat = false := by
      intro name
      rcases hvalue name with h | h
      · rw [h]
        rfl
      · rw [h]
        exact hn
    have henum : ∀ name, enumSafe (tableValue env (oneItem pre t path (.int n)) pre
        tool.fieldPaths (t, 1) name) = true := by
      intro name
      rcases hvalue name with h | h
      · rw [h]
        rfl
      · rw [h, enumSafe, hasText, htext]
        rfl
    cases tool with
    | batterySoc | gridStatus => trivial
    | pvPower => exact fun _ _ _ => ⟨hfloat _, fun _ => hfloat _⟩
    | inverterStatus => exact ⟨henum _, henum _⟩
  obtain ⟨r, hr⟩ := (post_union_ok tool (t, 1) 1).mpr hsafe
  -- the reading shows the number, and the postprocessor keeps it
  have hreading : Dict.get (Dict.union [("instance", .int 1)]
      (collected env (oneItem pre t path (.int n)) pre tool.fieldPaths (t, 1))) field.1 =
      .int n := by
    rw [get_reading tool.tabled (t, 1) hreserved, hshown]
    have hne : field.1 ≠ "instance" := fun h => hreserved (h ▸ by decide)
    rw [Dict.lookup_cons, if_neg hne]
    rfl
  refine ⟨r, ?_, ?_⟩
  · rw [readTool_text hpre tool (by decide) (by decide) (asked_oneItem ht), hr]
    rfl
  -- no field is named like the key an enum adds
  · have hadded : field.1 ≠ "mode" ++ "_name" ∧ field.1 ≠ "state" ++ "_name" := by
      have hall : ∀ field ∈ tool.fieldPaths, field.1 ≠ "mode" ++ "_name" ∧
          field.1 ≠ "state" ++ "_name" := by
        cases tool <;> decide
      exact hall field hfield
    rw [post_get hr hadded.1 hadded.2, hreading]
    intro hpower
    rw [← hpower, hreading]
    rfl

end OneItem

/-- A tool reads exactly the candidates of its table. -/
theorem reads_iff {tool : ReadTool} {t path : String} (hslash : '/' ∉ t.toList) :
    tool.Reads t path ↔ tool.Tables t path := by
  constructor
  -- what no table names does not change an answer
  · rintro ⟨env, c, pre, n, inst, entry, entry', hpre, hne⟩
    by_contra hnot
    refine hne (call_congr tool hpre ?_ ?_ inst)
    · rw [MqttClient.withEntry, MqttClient.withEntry, AList.keys_insert, AList.keys_insert]
    · intro t' ht' n' field hfield path' hpath'
      have hother : itemTopic pre t' n' path' ≠ itemTopic pre t n path := by
        intro heq
        obtain ⟨rfl, rfl⟩ := itemTopic_inj (deviceTypes_no_slash ht') hslash heq
        exact hnot ⟨ht', field, hfield, hpath'⟩
      exact (AList.lookup_insert_ne hother).trans (AList.lookup_insert_ne hother).symm
  -- two values of one named item give two answers
  · rintro ⟨ht, field, hfield, hpath⟩
    have hpre : fixtureReadEnv.mqtt.config.topicPrefix = .ok "N/testportal" := by decide +kernel
    refine ⟨fixtureReadEnv, {}, "N/testportal", 1, 1, (.int 1, 0), (.int 2, 0), hpre, ?_⟩
    obtain ⟨r, hr, hone⟩ := call_oneItem hpre ht hfield hpath (n := 1) (by decide +kernel)
      (by decide)
    obtain ⟨r', hr', htwo⟩ := call_oneItem hpre ht hfield hpath (n := 2) (by decide +kernel)
      (by decide)
    intro heq
    rw [oneItem] at hr hr'
    rw [hr, hr'] at heq
    cases heq
    cases hone.symm.trans htwo

/-! ## The write tools -/

/-- Whenever the settings are looked at, they hold these contracts. -/
def ContractsAre (contracts : List HardwareWriteContract) : (o : ServerOp) → ServerResp o → Prop
  | .safety, cfg => cfg.hardwareWriteContracts = contracts
  | _, _ => True

/-- Some run of a call of a write tool looks the topic up in the cache. -/
def LooksUp (env : ServerEnv) (contracts : List HardwareWriteContract) (topic : String) : Prop :=
  ∃ call : Call, Reaches (ContractsAre contracts) (.entry topic) (call.body env)

section Writes

variable {env : ServerEnv} {contracts : List HardwareWriteContract} {topic : String}
  {A : (o : ServerOp) → ServerResp o → Prop} {w : Write}

theorem not_reaches_ofExcept {α : Type} {o : ServerOp} {x : Except PyError α} :
    ¬Reaches A o (ofExcept x) := by
  cases x with
  | ok a => exact not_reaches_ret
  | error e => exact not_reaches_raise

theorem returns_ofExcept {α : Type} {x : Except PyError α} {a : α}
    (h : Returns A a (ofExcept x)) : x = .ok a := by
  cases x with
  | ok b => rw [returns_ret.mp h]
  | error e => cases h

theorem reaches_readPath {cfg : MQTTConfig} {t path : String} {n : Int}
    (h : Reaches A (.entry topic) (readPath cfg t n path)) :
    ∃ pre, cfg.topicPrefix = .ok pre ∧ topic = itemTopic pre t n path := by
  rcases reaches_bind.mp h with h | ⟨pre, hpre, h⟩
  · exact absurd h not_reaches_ofExcept
  refine ⟨pre, returns_ofExcept hpre, ?_⟩
  rcases reaches_bind.mp h with h | ⟨key, hkey, h⟩
  · exact absurd h not_reaches_ofExcept
  obtain ⟨-, rfl⟩ := formatTopic_eq_ok.mp (returns_ofExcept hkey)
  rcases reaches_bind.mp h with h | ⟨entry, -, h⟩
  · exact ServerOp.entry.inj (reaches_perform.mp h)
  · cases entry with
    | none => exact absurd h not_reaches_ret
    | some entry =>
      rcases reaches_bind.mp h with h | ⟨now, -, h⟩
      · cases reaches_perform.mp h
      · exact absurd h not_reaches_ret

theorem reaches_readPathSince {cfg : MQTTConfig} {t path : String} {n : Int} {since : ℚ}
    (h : Reaches A (.entry topic) (readPathSince cfg t n path since)) :
    ∃ pre, cfg.topicPrefix = .ok pre ∧ topic = itemTopic pre t n path := by
  rcases reaches_bind.mp h with h | ⟨pre, hpre, h⟩
  · exact absurd h not_reaches_ofExcept
  refine ⟨pre, returns_ofExcept hpre, ?_⟩
  rcases reaches_bind.mp h with h | ⟨key, hkey, h⟩
  · exact absurd h not_reaches_ofExcept
  obtain ⟨-, rfl⟩ := formatTopic_eq_ok.mp (returns_ofExcept hkey)
  rcases reaches_bind.mp h with h | ⟨entry, -, h⟩
  · exact ServerOp.entry.inj (reaches_perform.mp h)
  · cases entry with
    | none => exact absurd h not_reaches_ret
    | some entry =>
      dsimp only at h
      split at h
      · exact absurd h not_reaches_ret
      · rcases reaches_bind.mp h with h | ⟨now, -, h⟩
        · cases reaches_perform.mp h
        · exact absurd h not_reaches_ret

theorem reaches_checkIdentity {cfg : MQTTConfig} {maxAge : PyNum} {probes : List IdentityProbe}
    (h : Reaches A (.entry topic) (checkIdentity (readPath cfg) maxAge probes)) :
    ∃ p ∈ probes, ∃ pre, cfg.topicPrefix = .ok pre ∧
      topic = itemTopic pre p.deviceType p.inst p.path := by
  induction probes with
  | nil => exact absurd h not_reaches_ret
  | cons p probes ih =>
    rw [checkIdentity] at h
    rcases reaches_bind.mp h with h | ⟨r, -, h⟩
    · exact ⟨p, List.mem_cons_self, reaches_readPath h⟩
    · split at h
      · exact absurd h not_reaches_ret
      · obtain ⟨q, hq, htopic⟩ := ih h
        exact ⟨q, List.mem_cons_of_mem _ hq, htopic⟩

/-- The one contract of the target of a write. -/
def TargetContract (env : ServerEnv) (contracts : List HardwareWriteContract) (w : Write)
    (c : HardwareWriteContract) : Prop :=
  c ∈ contracts ∧ c.hasTarget env.mqtt.config.portalId w.deviceType w.inst w.path = true

theorem reaches_validateWrite {safety : SafetyConfig}
    (h : Reaches A (.entry topic) (validateWrite env safety w)) :
    ∃ c, TargetContract env safety.hardwareWriteContracts w c ∧ ∃ p ∈ c.identity, ∃ pre,
      env.mqtt.config.topicPrefix = .ok pre ∧
      topic = itemTopic pre p.deviceType p.inst p.path := by
  rw [validateWrite, validateHardwareWrite] at h
  split at h
  · rename_i c hfilter
    obtain ⟨hmem, htarget, -⟩ := filter_target_eq_singleton hfilter
    split at h
    · exact absurd h not_reaches_ret
    · rcases reaches_bind.mp h with h | ⟨r, -, h⟩
      · exact ⟨c, ⟨hmem, htarget⟩, reaches_checkIdentity h⟩
      · split at h <;> exact absurd h not_reaches_ret
  · exact absurd h not_reaches_ret

theorem returns_validateWrite {safety : SafetyConfig} {c : HardwareWriteContract}
    (h : Returns A (.ok c) (validateWrite env safety w)) :
    TargetContract env safety.hardwareWriteContracts w c := by
  rw [validateWrite, validateHardwareWrite] at h
  split at h
  · rename_i c' hfilter
    obtain ⟨hmem, htarget, -⟩ := filter_target_eq_singleton hfilter
    split at h
    · cases returns_ret.mp h
    · obtain ⟨r, -, h⟩ := returns_bind.mp h
      split at h
      · cases returns_ret.mp h
      · obtain ⟨rfl, -⟩ := checkValue_eq_ok.mp (returns_ret.mp h).symm
        exact ⟨hmem, htarget⟩
  · cases returns_ret.mp h

/-- A topic of a contract of the portal. -/
def ContractTopic (env : ServerEnv) (contracts : List HardwareWriteContract) (topic : String) :
    Prop :=
  ∃ pre, env.mqtt.config.topicPrefix = .ok pre ∧ topic ∈ contractTopics pre contracts

theorem TargetContract.contractTopic {c : HardwareWriteContract}
    (h : TargetContract env contracts w c) {pre : String}
    (hpre : env.mqtt.config.topicPrefix = .ok pre) (htopic : topic ∈ c.topics pre) :
    ContractTopic env contracts topic := by
  obtain ⟨hmem, htarget⟩ := h
  obtain ⟨portal, hportal, -, hprefix⟩ := MQTTConfig.topicPrefix_eq_ok hpre
  simp only [HardwareWriteContract.hasTarget, Bool.and_eq_true, decide_eq_true_eq] at htarget
  have hsame : c.portalId = portal := Option.some.inj (htarget.1.1.1.trans hportal)
  refine ⟨pre, hpre, List.mem_dedup.mpr (List.mem_flatMap.mpr ⟨c, ?_, htopic⟩)⟩
  rw [List.mem_filter, decide_eq_true_eq, hsame]
  exact ⟨hmem, hprefix⟩

/-- The identity of the target is looked up, by each validation. -/
theorem contractTopic_validateWrite {safety : SafetyConfig}
    (h : Reaches A (.entry topic) (validateWrite env safety w)) :
    ContractTopic env safety.hardwareWriteContracts topic := by
  obtain ⟨c, hc, p, hp, pre, hpre, rfl⟩ := reaches_validateWrite h
  exact hc.contractTopic hpre (List.mem_cons_of_mem _ (List.mem_map_of_mem hp))

theorem contractTopic_stillQualified {c : HardwareWriteContract}
    (h : Reaches (ContractsAre contracts) (.entry topic) (stillQualified env w c)) :
    ContractTopic env contracts topic := by
  rcases reaches_bind.mp h with h | ⟨safety, hsafety, h⟩
  · cases reaches_perform.mp h
  have hcontracts : safety.hardwareWriteContracts = contracts := returns_perform.mp hsafety
  rcases reaches_bind.mp h with h | ⟨result, -, h⟩
  · exact hcontracts ▸ contractTopic_validateWrite h
  rcases reaches_bind.mp h with h | ⟨safety', -, h⟩
  · cases reaches_perform.mp h
  · exact absurd h not_reaches_ret

/-- The read-back looks up the target. -/
theorem contractTopic_verifyLoop {c : HardwareWriteContract} (hc : TargetContract env contracts w c)
    {writeTopic : String} {writtenAt deadline : ℚ} {polls : Nat}
    (h : Reaches (ContractsAre contracts) (.entry topic)
      (verifyLoop env w c writeTopic writtenAt deadline polls)) :
    ContractTopic env contracts topic := by
  induction polls with
  | zero => exact absurd h not_reaches_raise
  | succ polls ih =>
    rw [verifyLoop] at h
    -- the clock
    rcases reaches_bind.mp h with h | ⟨now, -, h⟩
    · cases reaches_perform.mp h
    split at h
    · exact absurd h not_reaches_ret
    -- the echo: an item of the contract's target
    rcases reaches_bind.mp h with h | ⟨result, -, h⟩
    · obtain ⟨pre, hpre, rfl⟩ := reaches_readPathSince h
      have htarget := hc.2
      simp only [HardwareWriteContract.hasTarget, Bool.and_eq_true, decide_eq_true_eq] at htarget
      obtain ⟨⟨⟨-, hdevice⟩, hinst⟩, hpath⟩ := htarget
      refine hc.contractTopic hpre ?_
      rw [← hdevice, ← hinst, ← hpath]
      exact List.mem_cons_self
    split at h
    -- the second validation reads its identity
    · rcases reaches_bind.mp h with h | ⟨qualified, -, h⟩
      · exact contractTopic_stillQualified h
      split at h
      · exact absurd h not_reaches_ret
      rcases reaches_bind.mp h with h | ⟨now, -, h⟩
      · cases reaches_perform.mp h
      · exact absurd h not_reaches_ret
    -- the sleep before the next poll
    · rcases reaches_bind.mp h with h | ⟨_, -, h⟩
      · cases reaches_perform.mp h
      · exact ih h

theorem contractTopic_writeAndVerify {polls : Nat}
    (h : Reaches (ContractsAre contracts) (.entry topic) (mqttWriteAndVerify env polls w)) :
    ContractTopic env contracts topic := by
  -- the settings, then the first validation
  rcases reaches_bind.mp h with h | ⟨safety, hsafety, h⟩
  · cases reaches_perform.mp h
  have hcontracts : safety.hardwareWriteContracts = contracts := returns_perform.mp hsafety
  rcases reaches_bind.mp h with h | ⟨result, hresult, h⟩
  · exact hcontracts ▸ contractTopic_validateWrite h
  cases result with
  | error e => exact absurd h not_reaches_ret
  | ok c =>
    have hc : TargetContract env contracts w c := hcontracts ▸ returns_validateWrite hresult
    -- the topic, the time, and the publish: none of them looks at the cache
    rcases reaches_bind.mp h with h | ⟨pre, -, h⟩
    · exact absurd h not_reaches_ofExcept
    rcases reaches_bind.mp h with h | ⟨key, -, h⟩
    · exact absurd h not_reaches_ofExcept
    rcases reaches_bind.mp h with h | ⟨writtenAt, -, h⟩
    · cases reaches_perform.mp h
    rcases reaches_bind.mp h with h | ⟨sent, -, h⟩
    · cases reaches_perform.mp h
    cases sent with
    | error e =>
      dsimp only at h
      split at h
      · exact absurd h not_reaches_ret
      · exact absurd h not_reaches_raise
    | ok _ =>
      rcases reaches_bind.mp h with h | ⟨now, -, h⟩
      · cases reaches_perform.mp h
      · exact contractTopic_verifyLoop hc h

/-- The gate, the backend and the wait for the client look nothing up. -/
theorem reaches_gated {operation : String} {params : Params} {confirmed : Bool} {path : String}
    {write : ServerProgram WriteResult}
    (h : Reaches A (.entry topic) (gated env operation params confirmed path write)) :
    Reaches A (.entry topic) write := by
  rcases reaches_bind.mp h with h | ⟨safety, -, h⟩
  · cases reaches_perform.mp h
  rcases reaches_bind.mp h with h | ⟨denial, -, h⟩
  · exact absurd h not_reaches_ofExcept
  cases denial with
  | some denial => exact absurd h not_reaches_ret
  | none =>
    dsimp only at h
    split at h
    · rcases reaches_bind.mp h with h | ⟨ready, -, h⟩
      · cases reaches_perform.mp h
      cases ready with
      | error e => exact absurd h not_reaches_raise
      | ok _ => exact h
    · exact absurd h not_reaches_ret

/-- What a write tool looks up is a topic of a contract. -/
theorem lookedUp_contract (h : LooksUp env contracts topic) :
    ContractTopic env contracts topic := by
  obtain ⟨⟨tool, polls⟩, h⟩ := h
  cases tool with
  | setInverterMode mode inst confirmed =>
    have h := reaches_gated h
    split at h
    · exact absurd h not_reaches_ret
    · exact contractTopic_writeAndVerify h
  | setChargeCurrentLimit current inst confirmed =>
    exact contractTopic_writeAndVerify (reaches_gated h)
  | setSocLimit socLimit inst confirmed => exact contractTopic_writeAndVerify (reaches_gated h)
  | writeAndVerify w => exact contractTopic_writeAndVerify h

end Writes

/-! ## What is refreshed -/

/-- `_refresh_candidates` of a client that does not move meanwhile. -/
def refreshedBy (env : MqttEnv) (c : MqttClient) : Except PyError (List String) :=
  (refreshCandidates env).answered fun o => (c.answerFeed 0 true o).1

/-- The cached topics, with the retained serial that has been seen. -/
def SeenTopic (c : MqttClient) (pre topic : String) : Prop :=
  topic ∈ c.cache.keys ∨ c.retainedSerialSeen = true ∧ topic = serialTopic pre

/-- The item at `path` of a device of the type, with its topic, has a consumer. -/
inductive Consumed (env : ServerEnv) (c : MqttClient) (deviceType path topic : String) : Prop
  | tool (tool : ReadTool) (reads : tool.Reads deviceType path)
  | write (lookedUp : LooksUp env env.mqtt.contracts topic)
  | subscriber (explicit : topic ∈ c.registry.explicit) (exact : exactPattern topic = true)

/-- Why a topic may be refreshed. -/
inductive Warranted (env : ServerEnv) (c : MqttClient) (pre topic : String) : Prop
  | tool (tool : ReadTool) (deviceType inst path : String) (type_level : '/' ∉ deviceType.toList)
      (parts : topic = pre ++ "/" ++ deviceType ++ "/" ++ inst ++ "/" ++ path)
      (reads : tool.Reads deviceType path)
  | contract (contract : HardwareWriteContract) (listed : contract ∈ env.mqtt.contracts)
      (portal : pre = "N/" ++ contract.portalId) (mem : topic ∈ contract.topics pre)
  | subscriber (explicit : topic ∈ c.registry.explicit) (exact : exactPattern topic = true)

/-- The refreshed topics of a portal are those with a consumer. -/
structure Refreshing (env : ServerEnv) (c : MqttClient) (pre : String) (topics : List String) :
    Prop where
  sorted : topics.Pairwise (· < ·)
  complete : ∀ deviceType (n : Nat) path, '/' ∉ deviceType.toList →
    SeenTopic c pre (itemTopic pre deviceType n path) →
    Consumed env c deviceType path (itemTopic pre deviceType n path) →
    itemTopic pre deviceType n path ∈ topics
  sound : ∀ topic ∈ topics, SeenTopic c pre topic ∧ startsWith topic (pre ++ "/") = true ∧
    Warranted env c pre topic

section Refresh

variable {env : ServerEnv} {c : MqttClient} {pre : String}

theorem refreshedBy_eq (hpre : env.mqtt.config.topicPrefix = .ok pre) :
    refreshedBy env.mqtt c = .ok (refreshTopics env.mqtt.isDigit pre
      (if c.retainedSerialSeen then c.cache.keys ++ [serialTopic pre] else c.cache.keys)
      env.mqtt.contracts c.registry.explicit) := by
  rw [refreshedBy, refreshCandidates, hpre]
  rfl

theorem observed_iff {topic : String} :
    topic ∈ (if c.retainedSerialSeen then c.cache.keys ++ [serialTopic pre] else c.cache.keys) ↔
      SeenTopic c pre topic := by
  rw [SeenTopic]
  split
  · rename_i hseen
    rw [List.mem_append, List.mem_singleton]
    simp [hseen]
  · rename_i hseen
    simp [hseen]

/-- The table of the refresh is made of the tables of the tools. -/
theorem toolPath_tables {deviceType path : String} :
    ToolPath deviceType path ↔ ∃ tool : ReadTool, tool.Tables deviceType path := by
  constructor
  -- the five tables belong to the four tools
  · rintro ⟨fields, hfields, hpath⟩
    have htables : ∀ entry ∈ readPaths, ∃ tool : ReadTool,
        entry.1 ∈ tool.deviceTypes ∧ entry.2 = tool.fieldPaths := by
      intro entry hentry
      simp only [readPaths, List.mem_cons, List.not_mem_nil, or_false] at hentry
      rcases hentry with rfl | rfl | rfl | rfl | rfl
      · exact ⟨.batterySoc, by decide, rfl⟩
      · exact ⟨.pvPower, by decide, rfl⟩
      · exact ⟨.pvPower, by decide, rfl⟩
      · exact ⟨.gridStatus, by decide, rfl⟩
      · exact ⟨.inverterStatus, by decide, rfl⟩
    obtain ⟨tool, htype, hsame⟩ := htables _ hfields
    rw [show fields = tool.fieldPaths from hsame] at hpath
    exact ⟨tool, htype, hpath⟩
  · rintro ⟨tool, htype, hpath⟩
    refine ⟨tool.fieldPaths, ?_, hpath⟩
    have hlisted : ∀ t ∈ tool.deviceTypes, (t, tool.fieldPaths) ∈ readPaths := by
      cases tool <;> simp [ReadTool.deviceTypes, ReadTool.fieldPaths, readPaths]
    exact hlisted _ htype

/-- The text of a number has the digits `str.isdigit` looks for. -/
theorem all_isDigit_nat {isDigit : Char → Bool} (hdigit : AsciiDigits isDigit) (n : Nat) :
    (toString (n : Int)).toList.all isDigit = true ∧ toString (n : Int) ≠ "" := by
  have htext : (toString (n : Int)).toList = Nat.toDigits 10 n := by
    change n.repr.toList = _
    rw [Nat.repr, String.toList_ofList]
  constructor
  · rw [htext, List.all_eq_true]
    intro d hd
    have hd := Nat.isDigit_of_mem_toDigits (by decide) (by decide) hd
    have hrange := Char.isDigit_iff_toNat.mp hd
    have hnine : '9'.toNat = 57 := rfl
    rw [hdigit d (by omega), hd]
  · intro hempty
    rw [hempty] at htext
    exact absurd htext.symm (Nat.toDigits_ne_nil)

/-- For every cache, registry and contracts: what a tool, a write or an exact
    subscription reads is refreshed, and nothing else is. -/
theorem consumed_is_refreshed (hdigit : AsciiDigits env.mqtt.isDigit)
    (hpre : env.mqtt.config.topicPrefix = .ok pre) :
    ∃ topics, refreshedBy env.mqtt c = .ok topics ∧ Refreshing env c pre topics := by
  refine ⟨_, refreshedBy_eq hpre, refreshTopics_sorted _ _ _ _ _, ?_, ?_⟩
  -- what is consumed is refreshed, consumer by consumer
  · intro deviceType n path hslash hobserved hconsumed
    obtain ⟨hdigits, hne⟩ := all_isDigit_nat hdigit n
    refine mem_refreshTopics.mpr ⟨observed_iff.mpr hobserved, deviceType, toString (n : Int), path,
      rfl, hslash, notMem_toString (by decide) (by decide) n, hne, hdigits, ?_⟩
    cases hconsumed with
    | tool tool reads =>
      exact .inr (.inr (toolPath_tables.mpr ⟨tool, (reads_iff hslash).mp reads⟩))
    | write lookedUp =>
      obtain ⟨pre', hpre', hmem⟩ := lookedUp_contract lookedUp
      obtain rfl := Except.ok.inj (hpre.symm.trans hpre')
      exact .inl hmem
    | subscriber explicit exact => exact .inr (.inl ⟨explicit, exact⟩)
  -- and what is refreshed has a consumer, for one of three reasons
  · intro topic htopic
    obtain ⟨hcached, family, inst, path, h⟩ := mem_refreshTopics.mp htopic
    refine ⟨observed_iff.mp hcached, ?_, ?_⟩
    · rw [startsWith_iff, h.parts]
      exact ⟨family ++ "/" ++ inst ++ "/" ++ path, by simp only [String.append_assoc]⟩
    · rcases h.needed with hcontract | ⟨hexplicit, hexact⟩ | htool
      · obtain ⟨contract, hlisted, hmem⟩ := List.mem_flatMap.mp (List.mem_dedup.mp hcontract)
        obtain ⟨hlisted, hportal⟩ := List.mem_filter.mp hlisted
        exact .contract contract hlisted (of_decide_eq_true hportal) hmem
      · exact .subscriber hexplicit hexact
      · obtain ⟨tool, htables⟩ := toolPath_tables.mp htool
        exact .tool tool family inst path h.family_level h.parts
          ((reads_iff h.family_level).mpr htables)

/-- Of a state of charge and a value of the settings only the first is refreshed. -/
theorem consumed_is_refreshed_soc :
    let c := cachedClient [("N/testportal/battery/512/Soc", .int 55),
      ("N/testportal/settings/0/Settings/Vrmlogger/LogInterval", .int 60)]
    refreshedBy fixtureServerEnv.mqtt c = .ok ["N/testportal/battery/512/Soc"] ∧
      Refreshing fixtureServerEnv c "N/testportal" ["N/testportal/battery/512/Soc"] := by
  intro c
  have hrun : refreshedBy fixtureServerEnv.mqtt c = .ok ["N/testportal/battery/512/Soc"] := by
    decide +kernel
  have hpre : fixtureServerEnv.mqtt.config.topicPrefix = .ok "N/testportal" := by decide +kernel
  obtain ⟨topics, htopics, h⟩ : ∃ topics, refreshedBy fixtureServerEnv.mqtt c = .ok topics ∧
      Refreshing fixtureServerEnv c "N/testportal" topics :=
    consumed_is_refreshed (fun _ _ => rfl) hpre
  obtain rfl := Except.ok.inj (hrun.symm.trans htopics)
  exact ⟨hrun, h⟩

end Refresh

end Server

end McpVenusOs
