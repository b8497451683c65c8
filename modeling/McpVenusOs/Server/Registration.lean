/-
  McpVenusOs.Server.Registration

  The marker table of `capabilities.py` in its four readings, and
  `_apply_capability_tools`, which turns what is seen on the broker into tools.

  Every reading is one of `matchesMarker` (`mem_detectCapabilities`).  The tools
  are added group by group, so what was added is read off from the registered
  groups (`Registered.tools`), and a group is registered once.
-/

import Mathlib.Data.List.Induction
import McpVenusOs.Capabilities
import McpVenusOs.Mqtt.Machine

namespace McpVenusOs

open Py TopicFilter

/-! ## Markers -/

/-- A marker of the capability is among the topics. -/
def Appears (cap : String) (topics : List String) : Prop :=
  ∃ markers, (cap, markers) ∈ capabilityMarkers ∧
    ∃ marker ∈ markers, ∃ topic ∈ topics, matchesMarker topic marker = true

/-- An exact marker is the topic, a prefix marker its beginning. -/
theorem matchesMarker_cases {cap marker topic : String} {markers : List String}
    (hcap : (cap, markers) ∈ capabilityMarkers) (hmarker : marker ∈ markers)
    (h : matchesMarker topic marker = true) :
    (marker = "inverter/state" ∧ topic = "inverter/state") ∨
      marker = "tank/" ∧ ∃ rest, topic = "tank/" ++ rest := by
  have htable : marker = "inverter/state" ∨ marker = "tank/" := by
    revert hmarker hcap
    simp only [capabilityMarkers, List.mem_cons, List.not_mem_nil, or_false, Prod.mk.injEq]
    rintro (⟨-, rfl⟩ | ⟨-, rfl⟩) hmarker
    · exact .inl (List.mem_singleton.mp hmarker)
    · exact .inr (List.mem_singleton.mp hmarker)
  rw [matchesMarker, Bool.or_eq_true, decide_eq_true_eq, Bool.and_eq_true] at h
  -- the exact marker needs no slash at its end, the prefix has one
  rcases htable with rfl | rfl
  · rcases h with rfl | ⟨hslash, -⟩
    · exact .inl ⟨rfl, rfl⟩
    · exact absurd hslash (by decide)
  · rcases h with rfl | ⟨-, hstart⟩
    · exact .inr ⟨rfl, "", by rw [String.append_empty]⟩
    · exact .inr ⟨rfl, startsWith_iff.mp hstart⟩

/-- No marker lies below a Venus prefix. -/
theorem not_venus_of_marker {cap marker topic : String} {markers : List String}
    (hcap : (cap, markers) ∈ capabilityMarkers) (hmarker : marker ∈ markers)
    (h : matchesMarker topic marker = true) : venusPrefixes.any (startsWith topic) = false := by
  rcases matchesMarker_cases hcap hmarker h with ⟨-, rfl⟩ | ⟨-, rest, rfl⟩
  · decide
  · simp [venusPrefixes, startsWith, List.isPrefixOf]

theorem isCapabilityTopic_iff {topic : String} :
    isCapabilityTopic topic = true ↔ ∃ cap, Appears cap [topic] := by
  rw [isCapabilityTopic]
  constructor
  · intro h
    split at h
    · cases h
    · obtain ⟨⟨cap, markers⟩, hcap, hany⟩ := List.any_eq_true.mp h
      obtain ⟨marker, hmarker, hmatch⟩ := List.any_eq_true.mp hany
      exact ⟨cap, markers, hcap, marker, hmarker, topic, List.mem_singleton_self _, hmatch⟩
  · rintro ⟨cap, markers, hcap, marker, hmarker, t, ht, hmatch⟩
    obtain rfl := List.mem_singleton.mp ht
    rw [if_neg (Bool.eq_false_iff.mp (not_venus_of_marker hcap hmarker hmatch))]
    exact List.any_eq_true.mpr ⟨_, hcap, List.any_eq_true.mpr ⟨marker, hmarker, hmatch⟩⟩

/-- The scan of `detect_capabilities` finds the capabilities whose markers appear. -/
theorem mem_detectCapabilities {cap : String} {topics : List String} :
    cap ∈ detectCapabilities topics ↔ Appears cap topics := by
  rw [detectCapabilities, List.mem_map]
  constructor
  · rintro ⟨⟨cap, markers⟩, hentry, rfl⟩
    obtain ⟨hcap, hany⟩ := List.mem_filter.mp hentry
    obtain ⟨topic, htopic, hboth⟩ := List.any_eq_true.mp hany
    obtain ⟨marker, hmarker, hmatch⟩ :=
      List.any_eq_true.mp ((Bool.and_eq_true _ _).mp hboth).2
    exact ⟨markers, hcap, marker, hmarker, topic, htopic, hmatch⟩
  · rintro ⟨markers, hcap, marker, hmarker, topic, htopic, hmatch⟩
    have hcompanion : isCapabilityTopic topic = true :=
      isCapabilityTopic_iff.mpr
        ⟨cap, markers, hcap, marker, hmarker, topic, List.mem_singleton_self _, hmatch⟩
    have hany : markers.any (matchesMarker topic) = true :=
      List.any_eq_true.mpr ⟨marker, hmarker, hmatch⟩
    refine ⟨(cap, markers), List.mem_filter.mpr ⟨hcap, ?_⟩, rfl⟩
    exact List.any_eq_true.mpr ⟨topic, htopic, by rw [hcompanion, hany]; rfl⟩

/-- One topic is worth caching exactly when it is a capability on its own. -/
theorem isCapabilityTopic_iff_detect {topic : String} :
    isCapabilityTopic topic = true ↔ detectCapabilities [topic] ≠ [] := by
  rw [isCapabilityTopic_iff]
  simp only [← mem_detectCapabilities]
  constructor
  · rintro ⟨cap, hcap⟩
    exact List.ne_nil_of_mem hcap
  · exact List.exists_mem_of_ne_nil _

/-- The filter of a marker matches the topics of the marker. -/
theorem subscribed_of_appears {cap topic : String} (h : Appears cap [topic]) :
    ∃ f ∈ capabilitySubscriptions, topicMatchesSub f topic = true := by
  obtain ⟨markers, hcap, marker, hmarker, t, ht, hmatch⟩ := h
  obtain rfl := List.mem_singleton.mp ht
  rcases matchesMarker_cases hcap hmarker hmatch with ⟨-, rfl⟩ | ⟨-, rest, rfl⟩
  · exact ⟨"inverter/state", by decide, by decide +kernel⟩
  · refine ⟨"tank/#", by decide, topicMatchesSub_of_literal (by decide +kernel) ?_⟩
    have htopic : levels ("tank/" ++ rest) = ["tank"] ++ levels rest := by
      have hslash : "tank/" ++ rest = "tank" ++ "/" ++ rest := rfl
      rw [hslash, levels_append_slash, levels_of_no_slash (by decide)]
    rw [show levels "tank/#" = ["tank"] ++ ["#"] by decide +kernel, htopic]
    exact matchLevels_append _ (matchLevels_hash _)

/-! ## The cache -/

/-- Below the portal no topic is a companion's. -/
theorem not_companion_of_below {cfg : MQTTConfig} {pre topic : String}
    (hpre : cfg.topicPrefix = .ok pre) (hbelow : startsWith topic (pre ++ "/") = true) :
    isCapabilityTopic topic = false := by
  obtain ⟨portal, -, -, rfl⟩ := MQTTConfig.topicPrefix_eq_ok hpre
  obtain ⟨rest, rfl⟩ := startsWith_iff.mp hbelow
  have hvenus : venusPrefixes.any (startsWith ("N/" ++ portal ++ "/" ++ rest)) = true := by
    simp [venusPrefixes, startsWith, List.isPrefixOf]
  rw [isCapabilityTopic, if_pos hvenus]

/-- A message that is no item of the portal is cached exactly when its topic is a
    capability on its own. -/
theorem handleMessage_companion {c : MqttClient} {env : MqttEnv} {e : InboxEntry} {pre : String}
    {decoded : Json} (hpre : env.config.topicPrefix = .ok pre)
    (hcurrent : c.transport.current e.client = true) (hpayload : e.msg.payload ≠ [])
    (hloads : env.loads e.msg.payload = some decoded)
    (hbelow : startsWith e.msg.topic (pre ++ "/") = false) :
    (c.handleMessage env e).1.cache =
      if detectCapabilities [e.msg.topic] ≠ [] then
        c.cache.insert e.msg.topic (unwrap decoded, e.receivedAt)
      else c.cache := by
  have hserial : ¬(e.msg.topic = serialTopic pre ∧ e.msg.retain = true) := by
    rintro ⟨htopic, -⟩
    have hstart : startsWith (serialTopic pre) (pre ++ "/") = true :=
      startsWith_iff.mpr ⟨"system/0/Serial", by rw [serialTopic, String.append_assoc]; rfl⟩
    rw [htopic, hstart] at hbelow
    cases hbelow
  rw [MqttClient.handleMessage_cache hpre, if_pos hcurrent, applyEntry, if_neg hpayload, hloads]
  simp only [if_neg hserial, cacheable, hbelow, Bool.false_or, isCapabilityTopic_iff_detect]

namespace Server

/-! ## `_apply_capability_tools` -/

/-- The tool functions that are added while the server runs. -/
inductive CapabilityTool
  | getControlState
  | getTankLevel
  | cerboSshAvailable
  | cerboVersion
  | cerboIp
  | cerboCheckUpdates
  | cerboFirmwareUpdate
  | cerboEnableSsh
  | setuphelperStatus
  | setuphelperInstallPackage
  | setuphelperRemovePackage
  | cerboSshExec
  deriving DecidableEq

/-- `CAPABILITY_TOOLS` -/
def capabilityTools : List (String × List CapabilityTool) :=
  [("control", [.getControlState]), ("pump", [.getTankLevel])]

/-- `SSH_TOOLS` -/
def sshTools : List CapabilityTool :=
  [.cerboSshAvailable, .cerboVersion, .cerboIp, .cerboCheckUpdates, .cerboFirmwareUpdate,
    .cerboEnableSsh, .setuphelperStatus, .setuphelperInstallPackage, .setuphelperRemovePackage,
    .cerboSshExec]

/-- `_registered_capabilities`, in the order of insertion, and the functions that
    `mcp.add_tool` was called with. -/
structure Registration where
  registered : List String := []
  added : List CapabilityTool := []

/-- Add the tools of a group, and note the group. -/
def Registration.group (s : Registration) (name : String) (tools : List CapabilityTool) :
    Registration :=
  { registered := s.registered ++ [name], added := s.added ++ tools }

/-- `_apply_capability_tools`, on a copy of the cache's topics: the registration and
    the newly registered capabilities. -/
def applyCapabilityTools (s : Registration) (topics : List String) (ssh : SSHConfig) :
    Registration × List String :=
  let new := ((detectCapabilities topics).filter (· ∉ s.registered)).insertionSort (· ≤ ·)
  let s := new.foldl (fun s cap => s.group cap ((capabilityTools.lookup cap).getD [])) s
  let s := if ssh.configured ∧ "ssh" ∉ s.registered then s.group "ssh" sshTools else s
  (s, new)

/-- What a call sees: the topics of the cache, and the SSH configuration. -/
abbrev Sight : Type := List String × SSHConfig

/-- The registration after a sequence of calls. -/
def registration (calls : List Sight) : Registration :=
  calls.foldl (fun s call => (applyCapabilityTools s call.1 call.2).1) {}

/-! ## What is registered -/

/-- The tools of a group. -/
def toolsOf (name : String) : List CapabilityTool :=
  if name = "ssh" then sshTools else (capabilityTools.lookup name).getD []

/-- A group whose marker appeared in some snapshot, or SSH, once configured. -/
def Sighted (calls : List Sight) (name : String) : Prop :=
  (∃ call ∈ calls, Appears name call.1) ∨ name = "ssh" ∧ ∃ call ∈ calls, call.2.configured = true

/-- The registration agrees with what was seen. -/
structure Registered (calls : List Sight) (s : Registration) : Prop where
  groups : ∀ name, name ∈ s.registered ↔ Sighted calls name
  once : s.registered.Nodup
  tools : s.added = s.registered.flatMap toolsOf

/-- The marker table and the SSH group have different names. -/
theorem appears_mem {cap : String} {topics : List String} (h : Appears cap topics) :
    cap = "control" ∨ cap = "pump" := by
  obtain ⟨markers, hcap, -⟩ := h
  simp only [capabilityMarkers, List.mem_cons, List.not_mem_nil, or_false, Prod.mk.injEq] at hcap
  exact hcap.imp And.left And.left

/-- Groups that are not registered yet are added with their tools. -/
theorem foldl_group {names : List String} (hssh : "ssh" ∉ names) (s : Registration) :
    names.foldl (fun s cap => s.group cap ((capabilityTools.lookup cap).getD [])) s =
      { registered := s.registered ++ names, added := s.added ++ names.flatMap toolsOf } := by
  induction names generalizing s with
  | nil => simp
  | cons name names ih =>
    rw [List.mem_cons, not_or] at hssh
    have htools : toolsOf name = (capabilityTools.lookup name).getD [] :=
      if_neg fun hname => hssh.1 hname.symm
    rw [List.foldl_cons, ih hssh.2, Registration.group, htools.symm]
    simp [List.flatMap_cons]

theorem sighted_append {calls : List Sight} {call : Sight} {name : String} :
    Sighted (calls ++ [call]) name ↔ Sighted calls name ∨ Appears name call.1 ∨
      name = "ssh" ∧ call.2.configured = true := by
  simp only [Sighted, List.mem_append, List.mem_singleton, or_and_right, exists_or, exists_eq_left,
    and_or_left]
  exact or_or_or_comm

theorem detectCapabilities_nodup (topics : List String) : (detectCapabilities topics).Nodup := by
  have htable : (capabilityMarkers.map Prod.fst).Nodup := by decide
  exact htable.sublist (List.filter_sublist.map Prod.fst)

/-- The companions that a call registers. -/
theorem mem_new {s : Registration} {topics : List String} {ssh : SSHConfig} {cap : String} :
    cap ∈ (applyCapabilityTools s topics ssh).2 ↔ Appears cap topics ∧ cap ∉ s.registered := by
  show cap ∈ ((detectCapabilities topics).filter (· ∉ s.registered)).insertionSort (· ≤ ·) ↔ _
  rw [List.mem_insertionSort, List.mem_filter, mem_detectCapabilities, decide_eq_true_eq]

theorem new_nodup {s : Registration} {topics : List String} {ssh : SSHConfig} :
    (applyCapabilityTools s topics ssh).2.Nodup :=
  (List.perm_insertionSort _ _).nodup_iff.mpr ((detectCapabilities_nodup topics).filter _)

/-- The groups a call adds, in order: the companions, then SSH. -/
theorem applyCapabilityTools_eq (s : Registration) (topics : List String) (ssh : SSHConfig) :
    ∃ last, (last = [] ∨ last = ["ssh"]) ∧
      ("ssh" ∈ last ↔ ssh.configured = true ∧ "ssh" ∉ s.registered) ∧
      (applyCapabilityTools s topics ssh).1 =
        { registered := s.registered ++ ((applyCapabilityTools s topics ssh).2 ++ last),
          added := s.added ++
            ((applyCapabilityTools s topics ssh).2 ++ last).flatMap toolsOf } := by
  generalize hnew : (applyCapabilityTools s topics ssh).2 = new
  -- SSH is no companion, so the first loop leaves it alone
  have hssh : "ssh" ∉ new := by
    intro hmem
    rw [← hnew, mem_new] at hmem
    exact (appears_mem hmem.1).elim (by decide) (by decide)
  have hmade : (applyCapabilityTools s topics ssh).1 =
      if ssh.configured = true ∧ "ssh" ∉ s.registered ++ new then
        Registration.group ⟨s.registered ++ new, s.added ++ new.flatMap toolsOf⟩ "ssh" sshTools
      else ⟨s.registered ++ new, s.added ++ new.flatMap toolsOf⟩ := by
    rw [applyCapabilityTools] at hnew ⊢
    simp only at hnew
    simp only [hnew, foldl_group hssh]
  -- what is left is whether the call adds SSH, too
  simp only [List.mem_append, not_or] at hmade
  by_cases hadd : ssh.configured = true ∧ "ssh" ∉ s.registered
  · refine ⟨["ssh"], .inr rfl, by simp [hadd], ?_⟩
    rw [hmade, if_pos ⟨hadd.1, hadd.2, hssh⟩, Registration.group]
    simp [toolsOf]
  · refine ⟨[], .inl rfl, by simp [hadd], ?_⟩
    rw [hmade, if_neg fun h => hadd ⟨h.1, h.2.1⟩, List.append_nil]

/-- One call registers what it sees and was not registered. -/
theorem registered_step {calls : List Sight} {s : Registration} (h : Registered calls s)
    (call : Sight) : Registered (calls ++ [call]) (applyCapabilityTools s call.1 call.2).1 := by
  obtain ⟨last, hlast, hssh, hmade⟩ := applyCapabilityTools_eq s call.1 call.2
  have hnew := @mem_new s call.1 call.2
  have hnodup := @new_nodup s call.1 call.2
  rw [hmade]
  generalize (applyCapabilityTools s call.1 call.2).2 = new at hnew hnodup
  -- the last group is SSH, if the call adds it
  have hmem : ∀ name, name ∈ last ↔
      name = "ssh" ∧ call.2.configured = true ∧ name ∉ s.registered := by
    intro name
    constructor
    · intro hname
      obtain rfl : name = "ssh" := by
        rcases hlast with rfl | rfl
        · cases hname
        · exact List.mem_singleton.mp hname
      exact ⟨rfl, hssh.mp hname⟩
    · rintro ⟨rfl, hcall⟩
      exact hssh.mpr hcall
  -- the groups seen, each of them once, and the tools they have added
  refine ⟨fun name => ?_, ?_, ?_⟩
  · show name ∈ s.registered ++ (new ++ last) ↔ _
    rw [List.mem_append, List.mem_append, sighted_append, ← h.groups, hnew, hmem]
    by_cases hold : name ∈ s.registered
    · simp [hold]
    · simp [hold]
  · have hlastNodup : last.Nodup := by
      rcases hlast with rfl | rfl
      · exact List.nodup_nil
      · exact List.nodup_singleton _
    -- old, new and last groups are apart
    refine h.once.append (hnodup.append hlastNodup fun name hin hout => ?_) fun name hold hin => ?_
    · obtain ⟨rfl, -⟩ := (hmem name).mp hout
      exact (appears_mem (hnew.mp hin).1).elim (by decide) (by decide)
    · rcases List.mem_append.mp hin with hin | hin
      · exact (hnew.mp hin).2 hold
      · exact ((hmem name).mp hin).2.2 hold
  · show s.added ++ (new ++ last).flatMap toolsOf = (s.registered ++ (new ++ last)).flatMap toolsOf
    rw [h.tools, ← List.flatMap_append]

/-- After every sequence of calls the registration agrees with what was seen. -/
theorem registered_registration (calls : List Sight) : Registered calls (registration calls) := by
  induction calls using List.reverseRecOn with
  | nil =>
    refine ⟨fun name => ⟨fun h => (nomatch h), ?_⟩, List.nodup_nil, rfl⟩
    rintro (⟨call, hcall, -⟩ | ⟨-, call, hcall, -⟩)
    · cases hcall
    · cases hcall
  | append_singleton calls call ih =>
    rw [registration, List.foldl_append]
    exact registered_step ih call

/-- The groups there are. -/
def groupNames : List String := ["control", "pump", "ssh"]

theorem Sighted.mem_groupNames {calls : List Sight} {name : String} (h : Sighted calls name) :
    name ∈ groupNames := by
  rcases h with ⟨call, -, happears⟩ | ⟨rfl, -⟩
  · rcases appears_mem happears with rfl | rfl
    · decide
    · decide
  · decide

/-- No tool is in two groups, and none twice in one. -/
theorem toolsOf_apart : (∀ a ∈ groupNames, (toolsOf a).Nodup) ∧
    ∀ a ∈ groupNames, ∀ b ∈ groupNames, a ≠ b → ∀ tool ∈ toolsOf a, tool ∉ toolsOf b := by
  decide

/-- No tool is added twice. -/
theorem Registered.added_nodup {calls : List Sight} {s : Registration} (h : Registered calls s) :
    s.added.Nodup := by
  have hgroup : ∀ name ∈ s.registered, name ∈ groupNames := fun name hname =>
    ((h.groups name).mp hname).mem_groupNames
  rw [h.tools, List.nodup_flatMap]
  refine ⟨fun name hname => toolsOf_apart.1 name (hgroup name hname), ?_⟩
  refine h.once.pairwise_of_forall_ne fun a ha b hb hne => ?_
  intro tool hta htb
  exact toolsOf_apart.2 a (hgroup a ha) b (hgroup b hb) hne tool hta htb

/-- What has been added: each tool of a registered group once, and no other. -/
theorem Registered.count_added {calls : List Sight} {s : Registration} (h : Registered calls s)
    (tool : CapabilityTool) :
    s.added.count tool = if ∃ name ∈ s.registered, tool ∈ toolsOf name then 1 else 0 := by
  have hmem : tool ∈ s.added ↔ ∃ name ∈ s.registered, tool ∈ toolsOf name := by
    rw [h.tools, List.mem_flatMap]
  split
  · rename_i hgroup
    exact List.count_eq_one_of_mem h.added_nodup (hmem.mpr hgroup)
  · rename_i hgroup
    exact List.count_eq_zero_of_not_mem fun hadded => hgroup (hmem.mp hadded)

/-- Detection, caching, subscription and registration agree: the cache keeps a topic
    for a companion exactly when the topic is detected, the broker is asked for every
    such topic, and after every sequence of calls the groups registered are those seen,
    with each of their tools added once. -/
theorem capabilities_agree :
    (∀ (c : MqttClient) (env : MqttEnv) (e : InboxEntry) (pre : String) (decoded : Json),
      env.config.topicPrefix = .ok pre → c.transport.current e.client = true →
      e.msg.payload ≠ [] → env.loads e.msg.payload = some decoded →
      (startsWith e.msg.topic (pre ++ "/") = true → detectCapabilities [e.msg.topic] = []) ∧
      (startsWith e.msg.topic (pre ++ "/") = false → (c.handleMessage env e).1.cache =
        if detectCapabilities [e.msg.topic] ≠ [] then
          c.cache.insert e.msg.topic (unwrap decoded, e.receivedAt)
        else c.cache)) ∧
    (∀ topic, isCapabilityTopic topic = true ↔ detectCapabilities [topic] ≠ []) ∧
    (∀ topic, detectCapabilities [topic] ≠ [] →
      ∃ f ∈ capabilitySubscriptions, topicMatchesSub f topic = true) ∧
    ∀ calls : List Sight,
      (∀ name, name ∈ (registration calls).registered ↔ Sighted calls name) ∧
      (registration calls).registered.Nodup ∧
      ∀ tool, (registration calls).added.count tool =
        if ∃ name ∈ (registration calls).registered, tool ∈ toolsOf name then 1 else 0 := by
  refine ⟨fun c env e pre decoded hpre hcurrent hpayload hloads => ⟨fun hbelow => ?_, ?_⟩,
    fun topic => isCapabilityTopic_iff_detect, fun topic hdetect => ?_, fun calls => ?_⟩
  -- a companion's topic does not lie below the portal
  · by_contra hdetect
    rw [← Ne, ← isCapabilityTopic_iff_detect, not_companion_of_below hpre hbelow] at hdetect
    cases hdetect
  · exact handleMessage_companion hpre hcurrent hpayload hloads
  · obtain ⟨cap, hcap⟩ := List.exists_mem_of_ne_nil _ hdetect
    exact subscribed_of_appears (mem_detectCapabilities.mp hcap)
  · have h := registered_registration calls
    exact ⟨h.groups, h.once, h.count_added⟩

/-- A level of a companion's tank is cached, and its tool is added once by two calls. -/
theorem capabilities_agree_tank :
    let c : MqttClient := { transport := { client := some 0 } }
    let e : InboxEntry := ⟨0, 0, ⟨"tank/21/Level", [55], false⟩, 3⟩
    let ssh : SSHConfig := ⟨none, 22, "root", none, none, .finite 30⟩
    (c.handleMessage fixtureEnv e).1.cache = c.cache.insert "tank/21/Level" (.int 7, 3) ∧
      (registration [(["tank/21/Level"], ssh), (["tank/21/Level"], ssh)]).added.count
        .getTankLevel = 1 := by
  intro c e ssh
  have hloads : fixtureEnv.loads e.msg.payload = some (.int 7) := rfl
  obtain ⟨hcached, -, -, hregistered⟩ := capabilities_agree
  have hcache := (hcached c fixtureEnv e "N/testportal" (.int 7) rfl (by decide) (by decide)
    hloads).2 (by decide +kernel)
  rw [if_pos (by decide +kernel)] at hcache
  refine ⟨hcache, ?_⟩
  rw [(hregistered _).2.2, if_pos]
  exact ⟨"pump", by decide +kernel, by decide⟩

end Server

end McpVenusOs
