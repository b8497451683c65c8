/-
  McpVenusOs.Server.Acknowledgement

  What `success: true` of a write means: one publish, and an echo that
  `_on_message` received no earlier than the look at the clock before it.

  The program alone gives the shape of its trace (`wp_acknowledged`); where the
  cached values come from is known of the client's machine
  (`received_of_lookup`), and `Pool.justified` brings the two together.
-/

import McpVenusOs.Server.Rules

namespace McpVenusOs

open Py Program Machine

namespace Server

/-- The write a call is about. -/
def Tool.write : Tool → Option Write
  | .setInverterMode mode inst _ =>
    (modeCode "vebus" mode).map fun code => ⟨"vebus", inst, "Mode", .int code, some mode⟩
  | .setChargeCurrentLimit current inst _ =>
    some ⟨"vebus", inst, "Dc/0/MaxChargeCurrent", current, none⟩
  | .setSocLimit socLimit inst _ => some ⟨"battery", inst, "SocLimit", socLimit, none⟩
  | .writeAndVerify w => some w

/-- The operations of an acknowledged write: the qualified publish, then the
    echo of a poll in time, with the second validation behind it. -/
structure Acknowledges (env : ServerEnv) (w : Write) (h : ServerTrace) (writtenAt : ℚ)
    (contract : HardwareWriteContract) (echo : Echo) : Prop where
  trace : ∃ before safety rs pre sent later,
    h = before ++ (writeTrace safety rs writtenAt ++
      [⟨.publish (w.topic pre) w.payload, .ok ()⟩, ⟨.monotonic, sent⟩] ++ (later ++ echo.trace)) ∧
    NoPublish before ∧ NoPublish later ∧ env.mqtt.config.writePrefix = .ok pre ∧
    Qualified env safety w contract rs ∧
    Echo.Valid env w contract writtenAt (sent + writeVerifyTimeout) echo

/-! ## The program alone -/

/-- The outcome of a call, if it is a success, is acknowledged. -/
def outcomeAcknowledged (env : ServerEnv) (c : Call) (h : ServerTrace)
    (r : Except PyError WriteResult) : Prop :=
  ∀ result, r = .ok result → result.isVerified = true →
    ∃ w writtenAt contract echo, c.tool.write = some w ∧
      Acknowledges env w h writtenAt contract echo

theorem outcomeAcknowledged_of_other {env : ServerEnv} {c : Call} {h : ServerTrace}
    {x : Except PyError WriteResult} (hx : ∀ r, x = .ok r → r.isVerified = false) :
    outcomeAcknowledged env c h x := fun r hr hv => by
  rw [hx r hr] at hv
  cases hv

theorem wp_acknowledgedWrite {env : ServerEnv} {c : Call} {w : Write} {h : ServerTrace}
    (hw : c.tool.write = some w) (hh : NoPublish h) :
    wp (fun _ _ => True) (outcomeAcknowledged env c) h (mqttWriteAndVerify env c.polls w) := by
  refine wp_mqttWriteAndVerify (fun _ _ _ => trivial) _ (fun _ _ _ _ _ _ _ => trivial)
    (fun safety contract rs pre writtenAt sent later e elapsed hq hpre hlater hvalid => ?_)
    fun _ _ hx => outcomeAcknowledged_of_other hx
  exact fun _ _ _ => ⟨w, writtenAt, contract, e, hw,
    ⟨h, safety, rs, pre, sent, later, rfl, hh, hlater, hpre, hq, hvalid⟩⟩

theorem wp_acknowledgedTool {env : ServerEnv} {c : Call} {w : Write} {operation : String}
    {params : Params} {confirmed : Bool} (hw : c.tool.write = some w) :
    wp (fun _ _ => True) (outcomeAcknowledged env c) []
      (gated env operation params confirmed w.path (mqttWriteAndVerify env c.polls w)) :=
  wp_gated (fun _ _ _ => trivial)
    (fun _ _ => wp_acknowledgedWrite hw (by simp [NoPublish, isPublish]))
    fun _ _ hx => outcomeAcknowledged_of_other hx

theorem wp_acknowledged (env : ServerEnv) (c : Call) :
    wp (fun _ _ => True) (outcomeAcknowledged env c) [] (c.body env) := by
  obtain ⟨tool, polls⟩ := c
  cases tool with
  | setInverterMode mode inst confirmed =>
      simp only [Call.body, setInverterMode]
      -- an unknown mode publishes nothing
      cases hcode : modeCode "vebus" mode with
      | none =>
          exact wp_gated (fun _ _ _ => trivial)
            (fun _ _ => outcomeAcknowledged_of_other (by rintro _ ⟨⟩; rfl))
            fun _ _ hx => outcomeAcknowledged_of_other hx
      | some code =>
          exact wp_acknowledgedTool (c := ⟨.setInverterMode mode inst confirmed, polls⟩)
            (w := ⟨"vebus", inst, "Mode", .int code, some mode⟩) (by simp [Tool.write, hcode])
  | setChargeCurrentLimit current inst confirmed =>
      exact wp_acknowledgedTool (c := ⟨.setChargeCurrentLimit current inst confirmed, polls⟩)
        (w := ⟨"vebus", inst, "Dc/0/MaxChargeCurrent", current, none⟩) rfl
  | setSocLimit socLimit inst confirmed =>
      exact wp_acknowledgedTool (c := ⟨.setSocLimit socLimit inst confirmed, polls⟩)
        (w := ⟨"battery", inst, "SocLimit", socLimit, none⟩) rfl
  | writeAndVerify w =>
      exact wp_acknowledgedWrite (c := ⟨.writeAndVerify w, polls⟩) rfl (by simp [NoPublish])

/-! ## Values and publishes -/

/-- Equal as floats, finite, and no boolean among them. -/
theorem valuesMatch_eq_true {parse : String → Option PyFloat} {received expected : Json}
    (h : valuesMatch parse received expected = true) :
    isBool (unwrapValue received) = false ∧ isBool expected = false ∧
      ∃ q, pyFloat parse (unwrapValue received) = some (.finite q) ∧
        pyFloat parse expected = some (.finite q) := by
  unfold valuesMatch at h
  simp only at h
  split at h
  -- booleans never match
  · cases h
  · rename_i hbool
    simp only [Bool.or_eq_true, not_or, Bool.not_eq_true] at hbool
    refine ⟨hbool.1, hbool.2, ?_⟩
    -- both are finite, and equal
    split at h
    · rename_i actual target hactual htarget
      simp only [Bool.and_eq_true] at h
      obtain ⟨q, rfl⟩ := PyFloat.isFinite_iff.mp h.1.1
      obtain ⟨q', rfl⟩ := PyFloat.isFinite_iff.mp h.1.2
      have hqq : q = q' := by simpa using h.2
      exact ⟨q, hactual, hqq ▸ htarget⟩
    · cases h

theorem NoPublish.countP {t : ServerTrace} (h : NoPublish t) :
    t.countP (fun y => isPublish y.1) = 0 := by
  rw [List.countP_eq_zero]
  exact fun y hy => by simp [h y hy]

theorem Echo.noPublish (e : Echo) : NoPublish e.trace := by
  have hreads := fun rs => (ReadsOnly.readings rs).noPublish
  refine NoPublish.append (NoPublish.append (NoPublish.append (NoPublish.append ?_ (hreads _)) ?_)
    (hreads _)) ?_ <;> simp [NoPublish, isPublish]

theorem writeTrace_noPublish (safety : SafetyConfig) (rs : List Reading) (writtenAt : ℚ) :
    NoPublish (writeTrace safety rs writtenAt) := by
  refine NoPublish.append (NoPublish.append ?_ (ReadsOnly.readings rs).noPublish) ?_ <;>
    simp [NoPublish, isPublish]

/-- An acknowledged write published once. -/
theorem Acknowledges.one_publish {env : ServerEnv} {w : Write} {h : ServerTrace} {writtenAt : ℚ}
    {contract : HardwareWriteContract} {echo : Echo}
    (hack : Acknowledges env w h writtenAt contract echo) :
    h.countP (fun y => isPublish y.1) = 1 := by
  obtain ⟨before, safety, rs, pre, sent, later, rfl, hbefore, hlater, -⟩ := hack.trace
  simp only [List.countP_append, hbefore.countP, hlater.countP, echo.noPublish.countP,
    (writeTrace_noPublish safety rs writtenAt).countP]
  rfl

/-! ## The world -/

/-- The client in the world runs as its machine does. -/
theorem world_run {env : ServerEnv} {cfg : SafetyConfig}
    {ok : Pool.State WriteWorld Call ServerOp ServerResp PyError WriteResult →
      Pool.Event Call WorldEvent (Option PyError) → Prop}
    {es : List (Pool.Event Call WorldEvent (Option PyError))} {log : List ServerOut}
    {s : Pool.State WriteWorld Call ServerOp ServerResp PyError WriteResult}
    (h : Path (system env cfg) ok (system env cfg).init es log s) :
    ∃ es', Run (mqttSystem env.mqtt) es' (log.filterMap Pool.Out.seen) s.world.mqtt := by
  refine Pool.world_induct
    (P := fun log (w : WriteWorld) => ∃ es', Run (mqttSystem env.mqtt) es' log w.mqtt)
    ⟨[], .refl⟩ ?_ ?_ (fun _ _ _ hP => hP) h
  -- an MQTT event is one step of the client; a new setting is none
  · rintro log w e w' out ⟨es', hrun⟩ hw
    cases e with
    | mqtt e =>
        obtain ⟨r, hr, heq⟩ := Option.map_eq_some_iff.mp hw
        cases heq
        exact ⟨_, hrun.snoc trivial hr⟩
    | setSafety cfg' =>
        cases hw
        exact ⟨es', by simpa using hrun⟩
  · rintro log w i o x w' r out ⟨es', hrun⟩ ha
    change answer env w o x = _ at ha
    unfold answer at ha
    split at ha
    -- of the operations only the publish is a step of the client
    case h_5 topic payload =>
      split at ha
      · rename_i mqtt hstep
        cases ha
        have hstep' : (mqttSystem env.mqtt).step w.mqtt (.publish topic (env.dumps payload)) =
          some (mqtt, []) := hstep
        exact ⟨_, hrun.snoc trivial hstep'⟩
      · rename_i mqtt out' _ hstep
        cases ha
        have hstep' : (mqttSystem env.mqtt).step w.mqtt (.publish topic (env.dumps payload)) =
          some (mqtt, out) := hstep
        exact ⟨_, hrun.snoc trivial hstep'⟩
      · cases ha
    all_goals
      cases ha
      exact ⟨es', by simpa using hrun⟩

/-- A cached value that an operation saw was received, at the time it carries. -/
def Received (env : ServerEnv) (log : List ServerOut) (r : Reading) : Prop :=
  ∃ e, .env (.received r.receivedAt e) ∈ log ∧ e.msg.topic = r.topic ∧
    cachedBy env.mqtt (some e) = some (r.value, r.receivedAt)

theorem received_of_answer {env : ServerEnv} {cfg : SafetyConfig}
    {ok : Pool.State WriteWorld Call ServerOp ServerResp PyError WriteResult →
      Pool.Event Call WorldEvent (Option PyError) → Prop}
    {es : List (Pool.Event Call WorldEvent (Option PyError))} {log : List ServerOut}
    {s : Pool.State WriteWorld Call ServerOp ServerResp PyError WriteResult}
    (h : Path (system env cfg) ok (system env cfg).init es log s) {r : Reading}
    (hlookup : s.world.mqtt.py.cache.lookup r.topic = some (r.value, r.receivedAt)) :
    Received env log r := by
  obtain ⟨es', hrun⟩ := world_run h
  obtain ⟨e, he, htopic, -, hcached⟩ := MqttState.received_of_lookup hrun hlookup
  refine ⟨e, ?_, htopic, hcached⟩
  obtain ⟨x, hx, hseen⟩ := List.mem_filterMap.mp he
  cases x <;> simp_all [Pool.Out.seen]

/-- Whatever else goes on (decodes and removals, retirements, changes of the
    settings, other calls): a call that returns success published once, and a
    poll before its deadline read an echo that `_on_message` received no earlier
    than the clock was read before the publish, equal to the written value as a
    float; and after that read the write was validated again, under the same
    contract, with writes enabled. -/
theorem write_acknowledged {env : ServerEnv} {cfg : SafetyConfig}
    {es : List (Pool.Event Call WorldEvent (Option PyError))} {log : List ServerOut}
    {s : Pool.State WriteWorld Call ServerOp ServerResp PyError WriteResult}
    (h : Path (system env cfg) (fun _ _ => True) (system env cfg).init es log s)
    {i : Nat} {c : Call} {t : ServerTrace} {result : WriteResult}
    (hreturned : .returned i c t (.ok result) ∈ log) (hsuccess : result.isVerified = true) :
    ∃ w writtenAt contract echo, c.tool.write = some w ∧
      Acknowledges env w t writtenAt contract echo ∧
      t.countP (fun y => isPublish y.1) = 1 ∧
      Received env log echo.reading ∧ writtenAt ≤ echo.reading.receivedAt ∧
      (isBool (unwrapValue echo.reading.value) = false ∧
        ∃ q, pyFloat env.parseFloat (unwrapValue echo.reading.value) = some (.finite q) ∧
          pyFloat env.parseFloat w.value = some (.finite q)) ∧
      Qualified env echo.safety w echo.contract echo.identity ∧
      echo.contract.pyEq contract = true ∧ echo.settings.enableWrites = true := by
  have hmeets := Pool.meets_of_wp (wp_acknowledged env) h _ hreturned
  obtain ⟨w, writtenAt, contract, echo, hw, hack⟩ := hmeets result rfl hsuccess
  obtain ⟨before, safety, rs, pre, sent, later, htrace, -, -, -, -, hvalid⟩ := hack.trace
  obtain ⟨hbool, -, q, hactual, htarget⟩ := valuesMatch_eq_true hvalid.equal
  refine ⟨w, writtenAt, contract, echo, hw, hack, hack.one_publish, ?_, hvalid.fresh,
    ⟨hbool, q, hactual, htarget⟩, hvalid.qualified, hvalid.same, hvalid.enabled⟩
  -- the echo was in the cache when the poll read it
  have hjust := Pool.justified (R := fun log o r => ∀ reading : Reading,
      (⟨o, r⟩ : (o : ServerOp) × ServerResp o) =
        ⟨.entry reading.topic, some (reading.value, reading.receivedAt)⟩ →
      Received env log reading)
    (fun log out o r hR reading heq => ?_) (fun es log s i o x w' r eo hp ha reading heq => ?_) h
  · refine hjust.1 _ hreturned ⟨.entry echo.reading.topic,
      some (echo.reading.value, echo.reading.receivedAt)⟩ ?_ echo.reading rfl
    change _ ∈ t
    rw [htrace]
    simp [Echo.trace, readings]
  · obtain ⟨e, he, hrest⟩ := hR reading heq
    exact ⟨e, List.mem_append_left _ he, hrest⟩
  · cases heq
    exact received_of_answer hp
      (Option.some.inj (Prod.mk.inj (Prod.mk.inj (Option.some.inj ha)).2).1)

def succeeds : ServerOut → Bool
  | .returned _ _ _ (.ok result) => result.isVerified
  | _ => false

/-- After the publish the gateway echoes the mode, and task 0 polls once. -/
def echoSchedule : List (Pool.Event Call WorldEvent (Option PyError)) :=
  identitySchedule ++ modeSchedule ++ .resume 0 none :: .env (.mqtt (.tick 1)) ::
    deliverSchedule "vebus/256/Mode" "3" 4 ++ List.replicate 17 (.resume 0 none)

/-- The echoed mode acknowledges the write. -/
theorem write_acknowledged_mode : ∃ log s i c t result,
    Path (system fixtureServerEnv fixtureSafety) (fun _ _ => True)
      (system fixtureServerEnv fixtureSafety).init (echoSchedule ++ [.resume 0 none]) log s ∧
    .returned i c t (.ok result) ∈ log ∧ result.isVerified = true ∧
    t.countP (fun y => isPublish y.1) = 1 := by
  let m := system fixtureServerEnv fixtureSafety
  have hrun : (m.exec m.init echoSchedule).any (fun r =>
      (m.step r.1 (.resume 0 none)).any fun r' => r'.2.any succeeds) = true := by
    decide +kernel
  obtain ⟨⟨s₁, log₁⟩, hexec, hrun⟩ := Option.any_eq_true _ _ |>.mp hrun
  obtain ⟨⟨s₂, out⟩, hstep, hrun⟩ := Option.any_eq_true _ _ |>.mp hrun
  obtain ⟨x, hx, hsucceeds⟩ := List.any_eq_true.mp hrun
  have hpath := (path_of_exec hexec).snoc trivial hstep
  unfold succeeds at hsucceeds
  split at hsucceeds
  · rename_i i c t result
    have hmem := List.mem_append_right log₁ hx
    obtain ⟨w, writtenAt, contract, echo, -, -, hone, -⟩ :=
      write_acknowledged hpath hmem hsucceeds
    exact ⟨_, _, i, c, t, result, hpath, hmem, hsucceeds, hone⟩
  · cases hsucceeds

end Server

end McpVenusOs
