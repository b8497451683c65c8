/-
  McpVenusOs.Mqtt.Filters

  The broker filters a connection owns: `_base_subscriptions` and
  `_covered_by_base` of `mqtt_client.py`.

  All filters of a portal start with the levels `N` and the portal ID, so two
  of them are disjoint as soon as their tails are, and the table of tails is
  checked family by family (`ownedTails_apart`).  Contract topics contain no
  wildcard and join only when nothing covers them yet.
-/

import McpVenusOs.Config
import McpVenusOs.Capabilities
import McpVenusOs.Telemetry

namespace McpVenusOs

open Py TopicFilter

/-- `_base_subscriptions` -/
def baseSubscriptions (cfg : MQTTConfig) (contracts : List HardwareWriteContract) :
    Except PyError (List String) := do
  return (subscriptions (← cfg.topicPrefix) contracts ++ capabilitySubscriptions).dedup

/-- `_covered_by_base`, for the filters `base`. -/
def coveredBy (base : List String) (pattern : String) : Bool :=
  pattern ∈ base ||
    (!hasChar pattern '+' && !hasChar pattern '#' && base.any (topicMatchesSub · pattern))

/-- The topics the tools, the write contracts and capability detection read. -/
inductive Consumed (pre : String) (contracts : List HardwareWriteContract) : String → Prop
  | readPath {deviceType : String} {fields : PathTable} {field : String} {paths : List String}
      {inst path : String} : (deviceType, fields) ∈ readPaths → (field, paths) ∈ fields →
      path ∈ paths → inst ≠ "" → '/' ∉ inst.toList →
      Consumed pre contracts (pre ++ "/" ++ deviceType ++ "/" ++ inst ++ "/" ++ path)
  | contract {topic : String} : topic ∈ contractTopics pre contracts →
      Consumed pre contracts topic
  | fullPublish : Consumed pre contracts (pre ++ "/" ++ "full_publish_completed")
  | inverterState : Consumed pre contracts "inverter/state"
  | tankLevel (n : String) : Consumed pre contracts ("tank/" ++ n ++ "/Level")

/-! ## Levels under a portal prefix -/

theorem levels_topicPrefix {pid : String} (hslash : '/' ∉ pid.toList) :
    levels ("N/" ++ pid) = ["N", pid] := by
  have h : "N/" ++ pid = "N" ++ "/" ++ pid := by rw [← String.toList_inj]; simp
  rw [h, levels_append_slash, levels_of_no_slash hslash]
  rfl

theorem levels_below {pid : String} (hslash : '/' ∉ pid.toList) (tail : String) :
    levels ("N/" ++ pid ++ "/" ++ tail) = ["N", pid] ++ levels tail := by
  rw [levels_append_slash, levels_topicPrefix hslash]

theorem prefix_literal {pid : String} (hplus : '+' ∉ pid.toList) (hhash : '#' ∉ pid.toList) :
    Literal ["N", pid] := by
  have hpid : pid ≠ "+" ∧ pid ≠ "#" :=
    ⟨fun h => hplus (by rw [h]; decide), fun h => hhash (by rw [h]; decide)⟩
  simpa [Literal] using hpid

/-! ## Contract topics -/

/-- A string without MQTT wildcards. -/
def Plain (s : String) : Prop := '+' ∉ s.toList ∧ '#' ∉ s.toList

instance (s : String) : Decidable (Plain s) := inferInstanceAs (Decidable (_ ∧ _))

theorem Plain.append {a b : String} (ha : Plain a) (hb : Plain b) : Plain (a ++ b) := by
  simp only [Plain, String.toList_append, List.mem_append, not_or]
  exact ⟨⟨ha.1, hb.1⟩, ha.2, hb.2⟩

theorem plain_of_all {s : String} (ok : Char → Bool) (h : s.toList.all ok = true)
    (hplus : ok '+' = false) (hhash : ok '#' = false) : Plain s := by
  rw [List.all_eq_true] at h
  constructor
  · intro hc
    rw [h _ hc] at hplus
    cases hplus
  · intro hc
    rw [h _ hc] at hhash
    cases hhash

theorem plain_nat (n : Nat) : Plain (toString n) := by
  refine plain_of_all Char.isDigit ?_ (by decide) (by decide)
  rw [List.all_eq_true]
  intro c hc
  have hc' : c ∈ Nat.toDigits 10 n := by simpa [Nat.toString_eq_repr, Nat.repr] using hc
  exact Nat.isDigit_of_mem_toDigits (by decide) (by decide) hc'

theorem plain_int {n : Int} (h : 0 ≤ n) : Plain (toString n) := by
  obtain ⟨m, rfl⟩ := Int.eq_ofNat_of_zero_le h
  exact plain_nat m

theorem plain_deviceType {s : String} (h : deviceTypePattern s = true) : Plain s := by
  unfold deviceTypePattern at h
  cases hs : s.toList with
  | nil => simp [hs] at h
  | cons c cs =>
      rw [hs] at h
      simp only [Bool.and_eq_true] at h
      refine plain_of_all
        (fun c => isLower c || ('0' ≤ c && c ≤ '9') || c = '_') ?_ (by decide) (by decide)
      rw [hs, List.all_cons, h.2, h.1]
      rfl

theorem plain_path {s : String} (h : pathPattern s = true) : Plain s := by
  unfold pathPattern at h
  rw [List.all_eq_true] at h
  refine plain_of_all (fun c => isAlnum c || c = '_' || c = '/') ?_ (by decide) (by decide)
  rw [List.all_eq_true]
  intro c hc
  by_cases hslash : c = '/'
  · simp [hslash]
  -- every other character lies in one of the segments
  rw [← join_levels s] at hc
  generalize s.toList.splitOn '/' = parts at h hc
  induction parts with
  | nil => cases hc
  | cons p ps ih =>
      have hp := h p List.mem_cons_self
      simp only [Bool.and_eq_true, List.all_eq_true] at hp
      have hin : c ∈ p → (isAlnum c || c = '_' || c = '/') = true := fun hcp => by
        rw [hp.2 c hcp]
        rfl
      cases ps with
      | nil =>
          rw [List.intercalate_singleton] at hc
          exact hin hc
      | cons q qs =>
          rw [List.intercalate_cons_cons] at hc
          rcases List.mem_append.mp hc with hc | hc
          · rcases List.mem_append.mp hc with hc | hc
            · exact hin hc
            · exact absurd (List.mem_singleton.mp hc) hslash
          · exact ih (fun x hx => h x (List.mem_cons_of_mem _ hx)) hc

theorem plain_itemTopic {pre deviceType path : String} {inst : Int} (hpre : Plain pre)
    (hd : Plain deviceType) (hi : 0 ≤ inst) (hp : Plain path) :
    Plain (itemTopic pre deviceType inst path) := by
  have hslash : Plain "/" := by decide
  exact (((((hpre.append hslash).append hd).append hslash).append (plain_int hi)).append
    hslash).append hp

theorem plain_topics {pre : String} (hpre : Plain pre) {c : HardwareWriteContract}
    (hc : c.Accepted) : ∀ t ∈ c.topics pre, Plain t := by
  intro t ht
  rcases List.mem_cons.mp ht with rfl | ht
  · exact plain_itemTopic hpre (by cases c.deviceType <;> decide) hc.inst
      (by cases c.path <;> decide)
  · obtain ⟨p, hp, rfl⟩ := List.mem_map.mp ht
    obtain ⟨hd, hi, hpath⟩ := hc.probes p hp
    exact plain_itemTopic hpre (plain_deviceType hd) hi (plain_path hpath)

/-- The topics of accepted contracts are wildcard-free and below the prefix. -/
theorem contractTopics_spec {pre : String} (hpre : Plain pre)
    {contracts : List HardwareWriteContract} (hc : ∀ c ∈ contracts, c.Accepted) :
    ∀ t ∈ contractTopics pre contracts, Plain t ∧ ∃ rest, t = pre ++ "/" ++ rest := by
  intro t ht
  obtain ⟨c, hmem, ht⟩ := List.mem_flatMap.mp (List.mem_dedup.mp ht)
  refine ⟨plain_topics hpre (hc c (List.mem_filter.mp hmem).1) t ht, ?_⟩
  have hitem : ∀ (d : String) (i : Int) (p : String),
      itemTopic pre d i p = pre ++ "/" ++ (d ++ "/" ++ toString i ++ "/" ++ p) := by
    intro d i p
    simp only [itemTopic, String.append_assoc]
  rcases List.mem_cons.mp ht with rfl | ht
  · exact ⟨_, hitem _ _ _⟩
  · obtain ⟨p, -, rfl⟩ := List.mem_map.mp ht
    exact ⟨_, hitem _ _ _⟩

/-! ## The owned filters -/

/-- The nested paths of the tools are literal, and so is their service type. -/
theorem readPaths_plain : ∀ entry ∈ readPaths, levels entry.1 = [entry.1] ∧ Plain entry.1 ∧
    ∀ path ∈ nestedPaths entry.2, Plain path := by
  decide +kernel

theorem levels_toolTail {deviceType : String} (hdev : levels deviceType = [deviceType])
    (path : String) : levels (deviceType ++ "/+/" ++ path) = deviceType :: "+" :: levels path := by
  have hs : deviceType ++ "/+/" ++ path = deviceType ++ "/" ++ "+" ++ "/" ++ path := by
    rw [← String.toList_inj]
    simp
  rw [hs, levels_append_slash, levels_append_slash, hdev, levels_of_no_slash (by decide)]
  rfl

/-- Two tool filters are apart: by their service type or by their paths. -/
theorem toolTails_apart {a b : String} (ha : a ∈ toolTails) (hb : b ∈ toolTails) (h : a ≠ b) :
    apart (levels a) (levels b) = true := by
  obtain ⟨e, he, ha⟩ := List.mem_flatMap.mp ha
  obtain ⟨p, hp, rfl⟩ := List.mem_map.mp ha
  obtain ⟨e', he', hb⟩ := List.mem_flatMap.mp hb
  obtain ⟨q, hq, rfl⟩ := List.mem_map.mp hb
  obtain ⟨hdev, htype, hpath⟩ := readPaths_plain e he
  obtain ⟨hdev', htype', hpath'⟩ := readPaths_plain e' he'
  have hlit := fun {s} (hs : Plain s) => literal_of_no_wildcard hs.1 hs.2
  have hne : e.1 ≠ "+" ∧ e.1 ≠ "#" := hlit htype e.1 (by simp [hdev])
  have hne' : e'.1 ≠ "+" ∧ e'.1 ≠ "#" := hlit htype' e'.1 (by simp [hdev'])
  rw [levels_toolTail hdev, levels_toolTail hdev']
  -- two paths of one device type, or two device types
  by_cases hee : e.1 = e'.1
  · have hpq : levels p ≠ levels q := fun hl => h (by rw [hee, levels_injective hl])
    have hrest := apart_of_literal (hlit (hpath p hp)) (hlit (hpath' q hq)) hpq
    simp [apart, hne.2, hne'.2, hrest]
  · simp [apart, hne.1, hne.2, hne'.1, hne'.2, hee]

theorem discoveryTails_apart : ∀ a ∈ discoveryTails, ∀ b ∈ discoveryTails ++ toolTails,
    a ≠ b → apart (levels a) (levels b) = true := by
  decide +kernel

theorem ownedTails_apart :
    ownedTails.Pairwise fun a b => apart (levels a) (levels b) = true := by
  refine (List.nodup_dedup _).pairwise_of_forall_ne fun a ha b hb hne => ?_
  rw [List.mem_dedup] at ha hb
  rcases List.mem_append.mp ha with hda | hta
  · exact discoveryTails_apart a hda b hb hne
  · rcases List.mem_append.mp hb with hdb | htb
    · rw [apart_comm]
      exact discoveryTails_apart b hdb a ha hne.symm
    · exact toolTails_apart hta htb hne

theorem ownedFilters_pairwise {pid : String} (hslash : '/' ∉ pid.toList)
    (hplus : '+' ∉ pid.toList) (hhash : '#' ∉ pid.toList) :
    (ownedFilters ("N/" ++ pid)).Pairwise Disjoint := by
  refine List.pairwise_map.mpr (ownedTails_apart.imp fun {a b} h => disjoint_of_apart ?_)
  rw [levels_below hslash, levels_below hslash, apart_append (prefix_literal hplus hhash)]
  exact h

/-- Every portal filter starts with the portal prefix. -/
theorem subscriptions_below {pid : String} (hpid : Plain ("N/" ++ pid))
    {contracts : List HardwareWriteContract} (hc : ∀ c ∈ contracts, c.Accepted)
    {f : String} (hf : f ∈ subscriptions ("N/" ++ pid) contracts) :
    ∃ rest, f = "N/" ++ pid ++ "/" ++ rest := by
  have hspec := contractTopics_spec hpid hc
  have hlit : ∀ t ∈ contractTopics ("N/" ++ pid) contracts, Literal (levels t) := fun t ht =>
    literal_of_no_wildcard (hspec t ht).1.1 (hspec t ht).1.2
  rcases (mem_foldl_addUncovered hlit).mp hf with hf | ⟨hf, -⟩
  · obtain ⟨tail, -, rfl⟩ := List.mem_map.mp hf
    exact ⟨tail, rfl⟩
  · exact (hspec f hf).2

/-- A capability filter matches nothing below `N`, `W` or `R`. -/
theorem capability_not_match {f topic : String} (hf : f ∈ capabilitySubscriptions)
    {k : String} (hk : k ∈ ["N", "W", "R"]) {ts : List String} (ht : levels topic = k :: ts) :
    topicMatchesSub f topic = false := by
  have hlevels : levels f = ["inverter", "state"] ∨ levels f = ["tank", "#"] := by
    revert f
    decide
  have hne : k ≠ "inverter" ∧ k ≠ "tank" := by
    clear ht
    revert k
    decide
  rcases hlevels with h | h <;>
    simp [topicMatchesSub, h, ht, matchLevels_cons, hne.1.symm, hne.2.symm]

/-- A portal filter matches nothing of another portal, and no write or read
    request. -/
theorem below_not_match {pid rest topic : String} (hslash : '/' ∉ pid.toList)
    (hlit : Literal ["N", pid]) {k other : String} {ts : List String}
    (ht : levels topic = k :: other :: ts) (hne : k ≠ "N" ∨ other ≠ pid) :
    topicMatchesSub ("N/" ++ pid ++ "/" ++ rest) topic = false := by
  have hpid := hlit pid (by simp)
  have hcons : ∀ fs : List String, "N" :: pid :: fs ≠ ["#"] := by simp
  have hcons' : ∀ fs : List String, pid :: fs ≠ ["#"] := by simp [hpid.2]
  rw [topicMatchesSub, levels_below hslash, ht, List.cons_append, List.cons_append,
    matchLevels_cons (hcons _), matchLevels_cons (hcons' _)]
  rcases hne with hne | hne
  · simp [hne.symm]
  · simp [hpid.1, hne.symm]

/-! ## Coverage -/

/-- The tools' paths: a one-level path needs no filter of its own, a deeper one
    has the filter over all instances. -/
theorem readPaths_spec : ∀ entry ∈ readPaths, ∀ field ∈ entry.2, ∀ path ∈ field.2,
    levels path = [path] ∨ path ∈ nestedPaths entry.2 := by
  decide +kernel

theorem levels_item (deviceType inst path : String) (hinst : '/' ∉ inst.toList) :
    levels (deviceType ++ "/" ++ inst ++ "/" ++ path) =
      levels deviceType ++ [inst] ++ levels path := by
  rw [levels_append_slash, levels_append_slash, levels_of_no_slash hinst]

theorem readPath_covered {pid : String} (hslash : '/' ∉ pid.toList)
    {deviceType field inst path : String} {fields : PathTable} {paths : List String}
    (hd : (deviceType, fields) ∈ readPaths) (hf : (field, paths) ∈ fields) (hp : path ∈ paths)
    (hinst : '/' ∉ inst.toList) :
    ∃ f ∈ ownedFilters ("N/" ++ pid), topicMatchesSub f
      ("N/" ++ pid ++ "/" ++ deviceType ++ "/" ++ inst ++ "/" ++ path) = true := by
  have hdev : levels deviceType = [deviceType] := (readPaths_plain _ hd).1
  have htopic : levels ("N/" ++ pid ++ "/" ++ deviceType ++ "/" ++ inst ++ "/" ++ path) =
      ["N", pid] ++ ([deviceType, inst] ++ levels path) := by
    have h := levels_below hslash (deviceType ++ "/" ++ inst ++ "/" ++ path)
    rw [levels_item _ _ _ hinst, hdev] at h
    simpa only [String.append_assoc, List.append_assoc, List.singleton_append] using h
  -- one filter suffices: its tail matches what follows the prefix
  have hcover : ∀ tail ∈ ownedTails,
      matchLevels (levels tail) ([deviceType, inst] ++ levels path) = true →
      ∃ f ∈ ownedFilters ("N/" ++ pid), topicMatchesSub f
        ("N/" ++ pid ++ "/" ++ deviceType ++ "/" ++ inst ++ "/" ++ path) = true := by
    intro tail htail hm
    refine ⟨_, List.mem_map.mpr ⟨tail, htail, rfl⟩, topicMatchesSub_of_literal ?_ ?_⟩
    · rw [levels_below hslash]
      rfl
    · rw [levels_below hslash, htopic]
      exact matchLevels_append _ hm
  rcases readPaths_spec _ hd _ hf path hp with hflat | hdeep
  · refine hcover "+/+/+" (List.mem_dedup.mpr (by decide)) ?_
    rw [hflat, show levels "+/+/+" = ["+", "+", "+"] by decide +kernel]
    rfl
  · refine hcover (deviceType ++ "/+/" ++ path) (List.mem_dedup.mpr (List.mem_append_right _
      (List.mem_flatMap.mpr ⟨_, hd, List.mem_map.mpr ⟨path, hdeep, rfl⟩⟩))) ?_
    rw [levels_toolTail hdev]
    have hrest : matchLevels ("+" :: levels path) (inst :: levels path) = true := by
      rw [matchLevels_cons (by simp), matchLevels_refl]
      rfl
    exact matchLevels_append [deviceType] hrest

/-- Every consumed topic is matched by a base filter. -/
theorem consumed_covered {pid : String} (hslash : '/' ∉ pid.toList) (hpid : Plain ("N/" ++ pid))
    {contracts : List HardwareWriteContract} (hc : ∀ c ∈ contracts, c.Accepted)
    {topic : String} (h : Consumed ("N/" ++ pid) contracts topic) :
    ∃ f ∈ subscriptions ("N/" ++ pid) contracts ++ capabilitySubscriptions,
      topicMatchesSub f topic = true := by
  have hspec := contractTopics_spec hpid hc
  -- contract topics are literal, so covering them is matching them
  have hlit : ∀ t ∈ contractTopics ("N/" ++ pid) contracts, Literal (levels t) := fun t ht =>
    literal_of_no_wildcard (hspec t ht).1.1 (hspec t ht).1.2
  have howned : ∀ f ∈ ownedFilters ("N/" ++ pid),
      f ∈ subscriptions ("N/" ++ pid) contracts ++ capabilitySubscriptions := fun f hf =>
    List.mem_append_left _ ((mem_foldl_addUncovered hlit).mpr (.inl hf))
  cases h with
  | readPath hd hf hp _ hinst =>
      -- a path some read tool looks at
      obtain ⟨f, hmem, hm⟩ := readPath_covered hslash hd hf hp hinst
      exact ⟨f, howned f hmem, hm⟩
  | contract ht =>
      obtain ⟨f, hf, hm⟩ := exists_match_foldl_addUncovered hlit ht
      exact ⟨f, List.mem_append_left _ hf, hm⟩
  | fullPublish =>
      refine ⟨_, howned _ (List.mem_map.mpr ⟨"full_publish_completed",
          List.mem_dedup.mpr (by decide), rfl⟩),
        topicMatchesSub_of_literal ?_ (matchLevels_refl _)⟩
      rw [levels_below hslash]
      rfl
  -- the capability topics
  | inverterState =>
      exact ⟨"inverter/state", List.mem_append_right _ (by decide), by decide +kernel⟩
  | tankLevel n =>
      refine ⟨"tank/#", List.mem_append_right _ (by decide), ?_⟩
      have htopic : levels ("tank/" ++ n ++ "/Level") = ["tank"] ++ levels (n ++ "/Level") := by
        rw [← levels_of_no_slash (s := "tank") (by decide), ← levels_append_slash]
        congr 1
      refine topicMatchesSub_of_literal (by decide +kernel) ?_
      rw [show levels "tank/#" = ["tank"] ++ ["#"] by decide +kernel, htopic]
      exact matchLevels_append _ (matchLevels_hash _)

/-- All base filters are pairwise disjoint. -/
theorem baseSubscriptions_pairwise {pid : String} (hslash : '/' ∉ pid.toList)
    (hplus : '+' ∉ pid.toList) (hhash : '#' ∉ pid.toList)
    {contracts : List HardwareWriteContract} (hc : ∀ c ∈ contracts, c.Accepted) :
    (subscriptions ("N/" ++ pid) contracts ++ capabilitySubscriptions).Pairwise Disjoint := by
  have hpid : Plain ("N/" ++ pid) := Plain.append (by decide) ⟨hplus, hhash⟩
  have hspec := contractTopics_spec hpid hc
  refine List.pairwise_append.mpr ⟨?_, ?_, ?_⟩
  · exact foldl_addUncovered_pairwise (ownedFilters_pairwise hslash hplus hhash) fun t ht =>
      literal_of_no_wildcard (hspec t ht).1.1 (hspec t ht).1.2
  · have hcap : capabilitySubscriptions.Pairwise fun a b => apart (levels a) (levels b) = true := by
      decide
    exact hcap.imp disjoint_of_apart
  · rintro f hf g hg topic ⟨hfm, hgm⟩
    obtain ⟨rest, rfl⟩ := subscriptions_below hpid hc hf
    -- a topic matched below the prefix starts with `N`
    cases ht : levels topic with
    | nil =>
        rw [topicMatchesSub, levels_below hslash, ht] at hfm
        simp [matchLevels_cons_nil] at hfm
    | cons k ts =>
        by_cases hk : k = "N"
        · rw [capability_not_match hg (by simp [hk]) ht] at hgm
          cases hgm
        · rw [topicMatchesSub, levels_below hslash, ht, List.cons_append,
            matchLevels_cons (by simp)] at hfm
          simp [Ne.symm hk] at hfm

theorem baseSubscriptions_eq {cfg : MQTTConfig} {pid : String}
    {contracts : List HardwareWriteContract} {filters : List String}
    (hpid : cfg.portalId = some pid) (h : baseSubscriptions cfg contracts = .ok filters) :
    filters = (subscriptions ("N/" ++ pid) contracts ++ capabilitySubscriptions).dedup := by
  unfold baseSubscriptions at h
  cases hpre : cfg.topicPrefix with
  | error e => simp [hpre, bind, Except.bind] at h
  | ok pre =>
      obtain ⟨p, hp, -, rfl⟩ := MQTTConfig.topicPrefix_eq_ok hpre
      rw [hpid] at hp
      cases hp
      rw [hpre] at h
      exact (Except.ok.inj h).symm

/-- No base filter matches a topic of another portal. -/
theorem baseSubscriptions_not_match {cfg : MQTTConfig} {pid : String}
    {contracts : List HardwareWriteContract} {filters : List String}
    (hpid : cfg.portalId = some pid) (hslash : '/' ∉ pid.toList) (hplus : '+' ∉ pid.toList)
    (hhash : '#' ∉ pid.toList) (hc : ∀ c ∈ contracts, c.Accepted)
    (h : baseSubscriptions cfg contracts = .ok filters) {topic k other : String}
    {rest : List String} (hk : k ∈ ["N", "W", "R"]) (ht : levels topic = k :: other :: rest)
    (hne : other ≠ pid) {f : String} (hf : f ∈ filters) : topicMatchesSub f topic = false := by
  rw [baseSubscriptions_eq hpid h, List.mem_dedup] at hf
  rcases List.mem_append.mp hf with hf | hf
  · obtain ⟨tail, rfl⟩ := subscriptions_below (Plain.append (by decide) ⟨hplus, hhash⟩) hc hf
    exact below_not_match hslash (prefix_literal hplus hhash) ht (.inr hne)
  · exact capability_not_match hf hk ht

/-- Nor does the base cover it. -/
theorem coveredBy_eq_false {base : List String} {topic : String}
    (hhead : startsWild (levels topic) = false)
    (h : ∀ f ∈ base, topicMatchesSub f topic = false) : coveredBy base topic = false := by
  have hmem : topic ∉ base := fun hm => by
    have := topicMatchesSub_of_literal hhead (matchLevels_refl (levels topic))
    rw [h topic hm] at this
    cases this
  have hany : base.any (topicMatchesSub · topic) = false := by
    simpa using h
  simp [coveredBy, hmem, hany]

/-! ## One delivery -/

/-- At most one base filter matches a topic, exactly one a consumed topic, and
    none a topic of another portal. -/
theorem baseSubscriptions_single_delivery {cfg : MQTTConfig} {pid : String}
    {contracts : List HardwareWriteContract} {filters : List String}
    (hpid : cfg.portalId = some pid) (hslash : '/' ∉ pid.toList) (hplus : '+' ∉ pid.toList)
    (hhash : '#' ∉ pid.toList) (hc : ∀ c ∈ contracts, c.Accepted)
    (h : baseSubscriptions cfg contracts = .ok filters) (topic : String) :
    (filters.filter (topicMatchesSub · topic)).length ≤ 1 ∧
      (Consumed ("N/" ++ pid) contracts topic →
        (filters.filter (topicMatchesSub · topic)).length = 1) ∧
      (∀ k ∈ ["N", "W", "R"], ∀ other rest, levels topic = k :: other :: rest → other ≠ pid →
        (filters.filter (topicMatchesSub · topic)).length = 0) := by
  have hplain : Plain ("N/" ++ pid) := Plain.append (by decide) ⟨hplus, hhash⟩
  have hfilters := baseSubscriptions_eq hpid h
  have hle : (filters.filter (topicMatchesSub · topic)).length ≤ 1 := by
    rw [hfilters]
    exact length_filter_le_one
      ((baseSubscriptions_pairwise hslash hplus hhash hc).sublist (List.dedup_sublist _)) topic
  refine ⟨hle, ?_, ?_⟩
  · intro hconsumed
    obtain ⟨f, hf, hm⟩ := consumed_covered hslash hplain hc hconsumed
    have hmem : f ∈ filters.filter (topicMatchesSub · topic) :=
      List.mem_filter.mpr ⟨by rw [hfilters]; exact List.mem_dedup.mpr hf, hm⟩
    have := List.length_pos_of_mem hmem
    omega
  · intro k hk other rest ht hne
    rw [List.length_eq_zero_iff, List.filter_eq_nil_iff]
    intro f hf
    rw [Bool.not_eq_true]
    exact baseSubscriptions_not_match hpid hslash hplus hhash hc h hk ht hne hf

/-- The synthetic records: a four-level target has one filter, a topic of a
    second portal none. -/
theorem baseSubscriptions_single_delivery_fixture :
    ((subscriptions "N/testportal" fixtureContracts ++ capabilitySubscriptions).dedup.filter
        (topicMatchesSub · "N/testportal/vebus/256/Dc/0/MaxChargeCurrent")).length = 1 ∧
      ((subscriptions "N/testportal" fixtureContracts ++ capabilitySubscriptions).dedup.filter
        (topicMatchesSub · "N/other/vebus/256/Mode")).length = 0 := by
  have hbase : baseSubscriptions ⟨some "testportal", .finite 60⟩ fixtureContracts =
      .ok (subscriptions "N/testportal" fixtureContracts ++ capabilitySubscriptions).dedup := rfl
  have h := baseSubscriptions_single_delivery rfl (by decide) (by decide) (by decide)
    fixtureContracts_accepted hbase
  exact ⟨(h _).2.1 (.contract (by decide +kernel)),
    (h _).2.2 "N" (by decide) "other" ["vebus", "256", "Mode"] (by decide +kernel) (by decide)⟩

end McpVenusOs
