/-
  McpVenusOs.Server.Admission

  Every MQTT control write has passed every gate: the killswitch, the path
  allowlist, the confirmation, the limits of the safety settings, and the one
  hardware contract of its target, whose five identity probes were read from
  the cache in the same synchronous section.
-/

import McpVenusOs.Server.Rules

namespace McpVenusOs

open Py Program Machine

/-- A finite number that is not a boolean denotes a rational. -/
def Denotes (v : Json) (q : ℚ) : Prop :=
  ∃ n, v.asNumber = some n ∧ n.toFloat = .finite q

theorem denotes_of_finite {v : Json} {n : PyNum} (hv : v.asNumber = some n)
    (hfin : finite n = true) : ∃ q, n.toFloat = .finite q := by
  cases n with
  | int i => exact ⟨i, rfl⟩
  | float x =>
      cases x with
      | finite q => exact ⟨q, rfl⟩
      | inf b => simp [finite, mathIsFinite, PyFloat.isFinite] at hfin
      | nan => simp [finite, mathIsFinite, PyFloat.isFinite] at hfin

namespace Server

/-! ## Admission -/

/-- The write is admitted by `cfg` with the operations `h` before its publish:
    its last operations are the identity readings and the look at the clock,
    with no await between them and the publish. -/
structure AdmittedWrite (env : ServerEnv) (cfg : SafetyConfig) (w : Write) (h : ServerTrace)
    (topic : String) (payload : Json) : Prop where
  writes : cfg.enableWrites = true
  allowed : w.path ∈ cfg.allowedPaths w.deviceType
  number : ∃ q, Denotes w.value q
  message : ∃ portal, env.mqtt.config.portal = some portal ∧
    topic = itemTopic ("W/" ++ portal) w.deviceType w.inst w.path ∧
    payload = .obj [("value", w.value)]
  contract : ∃ c ∈ cfg.hardwareWriteContracts,
    c.hasTarget env.mqtt.config.portalId w.deviceType w.inst w.path = true ∧
    cfg.hardwareWriteContracts.countP
      (fun c => c.hasTarget env.mqtt.config.portalId w.deviceType w.inst w.path) = 1 ∧
    c.identity.length = 5 ∧
    (∃ before rs writtenAt, h = before ++ readings rs ++ [⟨.monotonic, writtenAt⟩] ∧
      List.Forall₂ (Observed env.mqtt.config (.float env.mqtt.config.staleAfterSeconds))
        c.identity rs) ∧
    ∃ v, w.value.asNumber = some v ∧ finite v = true ∧
      ValueAllowed c w.path w.semanticMode v

/-- What admits the writes of a tool; a direct call of `_mqtt_write_and_verify`
    is not a tool. -/
def Tool.Admitted (env : ServerEnv) (cfg : SafetyConfig) (h : ServerTrace) (topic : String)
    (payload : Json) : Tool → Prop
  | .setInverterMode mode inst confirmed =>
    (confirmed = true ∨ cfg.requireConfirmation = false) ∧ mode ∈ cfg.allowedModes ∧
      ∃ code, modeCode "vebus" mode = some code ∧
        AdmittedWrite env cfg ⟨"vebus", inst, "Mode", .int code, some mode⟩ h topic payload
  | .setChargeCurrentLimit current inst confirmed =>
    (confirmed = true ∨ cfg.requireConfirmation = false) ∧
      (∃ q, Denotes current q ∧ 0 ≤ q ∧ q ≤ cfg.maxChargeCurrent) ∧
      AdmittedWrite env cfg ⟨"vebus", inst, "Dc/0/MaxChargeCurrent", current, none⟩ h topic payload
  | .setSocLimit socLimit inst confirmed =>
    (confirmed = true ∨ cfg.requireConfirmation = false) ∧
      (∃ n, socLimit = .int n ∧ cfg.minSocLimit ≤ n ∧ n ≤ cfg.maxSocLimit) ∧
      AdmittedWrite env cfg ⟨"battery", inst, "SocLimit", socLimit, none⟩ h topic payload
  | .writeAndVerify _ => True

section Gate

variable {env : ServerEnv} {cfg : SafetyConfig} {w : Write} {h : ServerTrace}

/-- A qualified write behind an open gate is admitted. -/
theorem AdmittedWrite.of_qualified {safety : SafetyConfig} {operation : String} {params : Params}
    {confirmed : Bool} {c : HardwareWriteContract} {rs : List Reading} {pre : String}
    {writtenAt : ℚ} (hgate : GateOpen env.search safety operation params confirmed (some w.path))
    (hop : operationDeviceType operation = some w.deviceType) (hne : operation ≠ "cerbo_ssh_exec")
    (hq : Qualified env safety w c rs) (hpre : env.mqtt.config.writePrefix = .ok pre) :
    AdmittedWrite env safety w (h ++ writeTrace safety rs writtenAt) (w.topic pre) w.payload := by
  obtain ⟨hmem, htarget, hcount⟩ := filter_target_eq_singleton hq.unique
  obtain ⟨-, v, hv, hfin, hallowed⟩ := checkValue_eq_ok.mp hq.value
  obtain ⟨q, hq'⟩ := denotes_of_finite hv hfin
  refine ⟨hgate.writes, validateWritePath_allowed hop (hgate.path hne), ⟨q, v, hv, hq'⟩, ?_,
    c, hmem, htarget, hcount, (safety.contracts_accepted c hmem).identity_length,
    ⟨h ++ [⟨.safety, safety⟩], rs, writtenAt, by simp [writeTrace], hq.observed⟩,
    v, hv, hfin, hallowed⟩
  -- the topic is the one below the portal's write prefix
  unfold MQTTConfig.writePrefix at hpre
  split at hpre
  · rename_i portal hportal
    cases hpre
    exact ⟨portal, hportal, rfl, rfl⟩
  · cases hpre

/-- The charge current an open gate lets through. -/
theorem GateOpen.charge_range {safety : SafetyConfig} {search : Search} {operation : String}
    {params : Params} {confirmed : Bool} {path : Option String} {current : Json}
    (hgate : GateOpen search safety operation params confirmed path)
    (hparam : params.lookup "charge_current" = some current) :
    ∃ q, Denotes current q ∧ 0 ≤ q ∧ q ≤ safety.maxChargeCurrent := by
  obtain ⟨r, hr, hallowed⟩ := hgate.charge
  rw [checkParam, hparam] at hr
  obtain ⟨v, hv, hfin, hneg, hmax⟩ := validateCurrent_allowed hr hallowed
  obtain ⟨q, hq⟩ := denotes_of_finite hv hfin
  refine ⟨q, ⟨v, hv, hq⟩, ?_, ?_⟩
  · rw [PyNum.lt, hq] at hneg
    simpa [PyNum.toFloat] using hneg
  · rw [PyNum.lt, hq] at hmax
    simpa [PyNum.toFloat] using hmax

theorem GateOpen.soc_range {safety : SafetyConfig} {search : Search} {operation : String}
    {params : Params} {confirmed : Bool} {path : Option String} {soc : Json}
    (hgate : GateOpen search safety operation params confirmed path)
    (hparam : params.lookup "soc_limit" = some soc) :
    ∃ n, soc = .int n ∧ safety.minSocLimit ≤ n ∧ n ≤ safety.maxSocLimit := by
  obtain ⟨r, hr, hallowed⟩ := hgate.soc
  rw [checkParam, hparam] at hr
  cases hr
  exact validateSocLimit_allowed hallowed

theorem GateOpen.mode_allowed {safety : SafetyConfig} {search : Search} {operation : String}
    {params : Params} {confirmed : Bool} {path : Option String} {mode : String}
    (hgate : GateOpen search safety operation params confirmed path)
    (hparam : params.lookup "mode" = some (.str mode)) : mode ∈ safety.allowedModes := by
  obtain ⟨r, hr, hallowed⟩ := hgate.mode
  rw [checkParam, hparam] at hr
  cases hr
  obtain ⟨m, hm, hmem⟩ := validateMode_allowed hallowed
  cases hm
  exact hmem

end Gate

/-! ## One call -/

/-- All looks at the settings found `cfg`. -/
def Steady (cfg : SafetyConfig) (h : ServerTrace) : Prop := ∀ s, ⟨.safety, s⟩ ∈ h → s = cfg

/-- Under steady settings a publish is admitted. -/
def publishAdmitted (env : ServerEnv) (cfg : SafetyConfig) (c : Call) (h : ServerTrace) :
    ServerOp → Prop
  | .publish topic payload => Steady cfg h → c.tool.Admitted env cfg h topic payload
  | _ => True

theorem publishAdmitted_of_quiet {env : ServerEnv} {cfg : SafetyConfig} {c : Call}
    {h : ServerTrace} {o : ServerOp} (ho : isPublish o = false) :
    publishAdmitted env cfg c h o := by
  cases o <;> simp_all [isPublish, publishAdmitted]

/-- A write behind a gate: what the gate and the qualification give must admit
    the publish. -/
theorem wp_gatedWrite {env : ServerEnv} {cfg : SafetyConfig} {c : Call} {operation : String}
    {params : Params} {confirmed : Bool} (w : Write)
    (hadmits : ∀ h topic payload, GateOpen env.search cfg operation params confirmed (some w.path) →
      AdmittedWrite env cfg w h topic payload → c.tool.Admitted env cfg h topic payload)
    (hop : operationDeviceType operation = some w.deviceType)
    (hne : operation ≠ "cerbo_ssh_exec") :
    wp (publishAdmitted env cfg c) (fun _ _ => True) []
      (gated env operation params confirmed w.path (mqttWriteAndVerify env c.polls w)) := by
  refine wp_gated (fun h o ho => publishAdmitted_of_quiet ho) (fun safety hgate => ?_)
    fun _ _ _ => trivial
  refine wp_mqttWriteAndVerify (fun h o ho => publishAdmitted_of_quiet ho) _
    (fun safety' contract rs pre writtenAt hq hpre hsteady => ?_)
    (fun _ _ _ _ _ _ _ _ _ _ _ _ _ => trivial) fun _ _ _ => trivial
  -- both looks at the settings saw the settings of the run
  have hcfg : safety = cfg := hsteady safety (by simp)
  have hcfg' : safety' = cfg := hsteady safety' (by simp [writeTrace])
  subst hcfg
  rw [hcfg'] at hq ⊢
  have hopen := confirmGate_eq_none hgate
  exact hadmits _ _ _ hopen (.of_qualified hopen hop hne hq hpre)

theorem wp_body (env : ServerEnv) (cfg : SafetyConfig) (c : Call) :
    wp (publishAdmitted env cfg c) (fun _ _ => True) [] (c.body env) := by
  obtain ⟨tool, polls⟩ := c
  cases tool with
  | setInverterMode mode inst confirmed =>
      -- an unknown mode publishes nothing
      simp only [Call.body, setInverterMode]
      cases hcode : modeCode "vebus" mode with
      | none =>
          exact wp_gated (fun h o ho => publishAdmitted_of_quiet ho) (fun _ _ => trivial)
            fun _ _ _ => trivial
      | some code =>
          exact wp_gatedWrite (c := ⟨.setInverterMode mode inst confirmed, polls⟩)
            ⟨"vebus", inst, "Mode", .int code, some mode⟩
            (fun h topic payload hopen hw => ⟨hopen.confirmed, GateOpen.mode_allowed hopen rfl,
              code, hcode, hw⟩) rfl (by decide)
  | setChargeCurrentLimit current inst confirmed =>
      exact wp_gatedWrite (c := ⟨.setChargeCurrentLimit current inst confirmed, polls⟩)
        ⟨"vebus", inst, "Dc/0/MaxChargeCurrent", current, none⟩
        (fun h topic payload hopen hw => ⟨hopen.confirmed, GateOpen.charge_range hopen rfl, hw⟩)
        rfl (by decide)
  | setSocLimit socLimit inst confirmed =>
      exact wp_gatedWrite (c := ⟨.setSocLimit socLimit inst confirmed, polls⟩)
        ⟨"battery", inst, "SocLimit", socLimit, none⟩
        (fun h topic payload hopen hw => ⟨hopen.confirmed, GateOpen.soc_range hopen rfl, hw⟩)
        rfl (by decide)
  | writeAndVerify w =>
      exact wp_mqttWriteAndVerify (fun h o ho => publishAdmitted_of_quiet ho) _
        (fun _ _ _ _ _ _ _ _ => trivial) (fun _ _ _ _ _ _ _ _ _ _ _ _ _ => trivial)
        fun _ _ _ => trivial

/-! ## Every run -/

/-- The event leaves the settings alone. -/
def keepsSafety : Pool.Event Call WorldEvent (Option PyError) → Bool
  | .env (.setSafety _) => false
  | _ => true

/-- No operation changes the settings. -/
theorem answer_safety {env : ServerEnv} {w w' : WriteWorld} {o : ServerOp} {x : Option PyError}
    {r : Option (ServerResp o)} {out : List MqttOut} (h : answer env w o x = some (w', r, out)) :
    w'.safety = w.safety := by
  unfold answer at h
  split at h
  all_goals first
    | (cases h; rfl)
    | (split at h <;> first | (cases h; rfl) | cases h)

theorem safety_of_path {env : ServerEnv} {cfg : SafetyConfig}
    {es : List (Pool.Event Call WorldEvent (Option PyError))} {log : List ServerOut}
    {s : Pool.State WriteWorld Call ServerOp ServerResp PyError WriteResult}
    (h : Path (system env cfg) (fun _ e => keepsSafety e = true) (system env cfg).init es log s) :
    s.world.safety = cfg := by
  refine h.invariant (P := fun s => s.world.safety = cfg) rfl ?_
  intro s e s' out ih hok hstep
  rcases Pool.step_cases hstep with ⟨ev, w', eo, rfl, hw, rfl, -⟩ | ⟨c, -, rfl, -⟩ |
    ⟨i, -, rfl, -⟩ | ⟨i, x, t, r, -, -, -, rfl, -⟩ | ⟨i, x, t, o, k, w', eo, -, -, -, ha, rfl, -⟩ |
    ⟨i, x, t, o, k, w', r, eo, -, -, -, ha, rfl, -⟩
  -- no event of the schedule sets the settings, no operation does
  · cases ev with
    | mqtt e =>
        obtain ⟨r, -, heq⟩ := Option.map_eq_some_iff.mp hw
        cases heq
        exact ih
    | setSafety cfg' => cases hok
  · exact ih
  · exact ih
  · exact ih
  · exact (answer_safety ha).trans ih
  · exact (answer_safety ha).trans ih

/-- Whatever calls are made, in whatever order and interleaving, with whatever
    the client's threads do to the cache: every message a tool publishes has
    been admitted under the settings of the run. -/
theorem mqtt_writes_admitted {env : ServerEnv} {cfg : SafetyConfig}
    {es : List (Pool.Event Call WorldEvent (Option PyError))} {log : List ServerOut}
    {s : Pool.State WriteWorld Call ServerOp ServerResp PyError WriteResult}
    (h : Path (system env cfg) (fun _ e => keepsSafety e = true) (system env cfg).init es log s)
    {i : Nat} {c : Call} {t : ServerTrace} {topic : String} {payload : Json}
    {r : Except PyError Unit} (hpublish : .did i c t (.publish topic payload) r ∈ log) :
    c.tool.Admitted env cfg t topic payload := by
  have hmeets := Pool.meets_of_wp (wp_body env cfg) h _ hpublish
  refine hmeets fun safety hmem => ?_
  -- every look at the settings found the settings of the run
  have hjust := Pool.justified
    (R := fun _ o r => ∀ s, (⟨o, r⟩ : (o : ServerOp) × ServerResp o) = ⟨.safety, s⟩ → s = cfg)
    (fun _ _ _ _ hR => hR) (fun es log s i o x w' r eo hp ha s' heq => ?_) h
  · exact hjust.1 _ hpublish ⟨.safety, safety⟩ (List.mem_append_left _ hmem) safety rfl
  · cases heq
    cases ha
    exact safety_of_path hp

/-- The publish of a mode change. -/
def setsMode : ServerOut → Bool
  | .did _ ⟨.setInverterMode _ _ _, _⟩ _ (.publish _ _) (.ok _) => true
  | _ => false

/-- With fresh identity values, a confirmed mode change is published. -/
theorem mqtt_writes_admitted_mode : ∃ log s i mode inst confirmed polls t topic payload,
    Path (system fixtureServerEnv fixtureSafety) (fun _ e => keepsSafety e = true)
      (system fixtureServerEnv fixtureSafety).init
      (identitySchedule ++ modeSchedule ++ [.resume 0 none]) log s ∧
    .did i ⟨.setInverterMode mode inst confirmed, polls⟩ t (.publish topic payload) (.ok ()) ∈ log ∧
    (Tool.setInverterMode mode inst confirmed).Admitted fixtureServerEnv fixtureSafety t topic
      payload := by
  let m := (system fixtureServerEnv fixtureSafety).restrict fun _ e => keepsSafety e
  have hrun : (m.exec m.init (identitySchedule ++ modeSchedule)).any (fun r =>
      (m.step r.1 (.resume 0 none)).any fun r' => r'.2.any setsMode) = true := by
    decide +kernel
  obtain ⟨⟨s₁, log₁⟩, hexec, hrun⟩ := Option.any_eq_true _ _ |>.mp hrun
  obtain ⟨⟨s₂, out⟩, hstep, hrun⟩ := Option.any_eq_true _ _ |>.mp hrun
  obtain ⟨x, hx, hsets⟩ := List.any_eq_true.mp hrun
  have hpath := ((path_of_exec hexec).snoc trivial hstep).of_restrict
  unfold setsMode at hsets
  split at hsets
  · rename_i i mode inst confirmed polls t topic payload _
    have hmem := List.mem_append_right log₁ hx
    exact ⟨_, _, i, mode, inst, confirmed, polls, t, topic, payload, hpath, hmem,
      mqtt_writes_admitted hpath hmem⟩
  · cases hsets

end Server

end McpVenusOs
