/-
  McpVenusOs.Server.Rules

  What the programs of the write tools guarantee, from a single read to a tool.

  Each program has one rule for its weakest precondition: what to show of a
  qualified outcome, with the readings that qualify it as they stand in the
  trace, and what to show otherwise.  The rules compose along the code, so a
  property of all writes is proved of its publish and of its result only.
-/

import McpVenusOs.Server.Tools

namespace McpVenusOs

open Py Program Machine

namespace Server

/-! ## Reads -/

def isRead : ServerOp → Bool
  | .entry _ | .monotonic => true
  | _ => false

def isPublish : ServerOp → Bool
  | .publish _ _ => true
  | _ => false

def ReadsOnly (t : ServerTrace) : Prop := ∀ y ∈ t, isRead y.1 = true

/-- A cached value that was read, and the clock after it. -/
structure Reading where
  topic : String
  value : Json
  receivedAt : ℚ
  now : ℚ

def Reading.age (r : Reading) : PyNum := .float (.finite (r.now - r.receivedAt))

/-- Readings as they stand in a trace, with nothing between them. -/
def readings (rs : List Reading) : ServerTrace :=
  rs.flatMap fun r => [⟨.entry r.topic, some (r.value, r.receivedAt)⟩, ⟨.monotonic, r.now⟩]

/-- The reading qualifies the probe. -/
def Observed (cfg : MQTTConfig) (maxAge : PyNum) (p : IdentityProbe) (r : Reading) : Prop :=
  (∃ pre, cfg.topicPrefix = .ok pre ∧ r.topic = itemTopic pre p.deviceType p.inst p.path) ∧
    Qualifies maxAge p r.value r.age

/-- A contract that admits the write, and the readings of its identity. -/
structure Qualified (env : ServerEnv) (safety : SafetyConfig) (w : Write)
    (c : HardwareWriteContract) (rs : List Reading) : Prop where
  unique : safety.hardwareWriteContracts.filter (fun c =>
    c.hasTarget env.mqtt.config.portalId w.deviceType w.inst w.path) = [c]
  limit : finite (.float env.mqtt.config.staleAfterSeconds) = true ∧
    PyNum.le (.float env.mqtt.config.staleAfterSeconds) (.int 0) = false
  observed : List.Forall₂
    (Observed env.mqtt.config (.float env.mqtt.config.staleAfterSeconds)) c.identity rs
  value : checkValue c w.path w.value w.semanticMode = .ok c

theorem readings_cons (r : Reading) (rs : List Reading) :
    readings (r :: rs) = readings [r] ++ readings rs := by
  simp [readings]

theorem ReadsOnly.readings (rs : List Reading) : ReadsOnly (readings rs) := by
  intro y hy
  obtain ⟨r, -, hy⟩ := List.mem_flatMap.mp hy
  simp only [List.mem_cons, List.not_mem_nil, or_false] at hy
  rcases hy with rfl | rfl <;> rfl

theorem ReadsOnly.append {t t' : ServerTrace} (h : ReadsOnly t) (h' : ReadsOnly t') :
    ReadsOnly (t ++ t') := fun y hy => (List.mem_append.mp hy).elim (h y) (h' y)

/-! ## The rules -/

section Rules

variable {α : Type} {I : ServerTrace → ServerOp → Prop} {h : ServerTrace} {cfg : MQTTConfig}
  {env : ServerEnv} {w : Write}

@[simp] theorem wp_ofExcept {Q : ServerTrace → Except PyError α → Prop} (x : Except PyError α) :
    wp I Q h (ofExcept x) ↔ Q h x := by
  cases x <;> rfl

theorem wp_readPath {Q : ServerTrace → Except PyError (Option (Json × PyNum)) → Prop}
    (hI : ∀ h o, isRead o = true → I h o) (deviceType : String) (inst : Int) (path : String)
    (hread : ∀ pre r, cfg.topicPrefix = .ok pre →
      r.topic = itemTopic pre deviceType inst path →
        Q (h ++ readings [r]) (.ok (some (r.value, r.age))))
    (hnone : ∀ t x, ReadsOnly t → (∀ r, x ≠ .ok (some r)) → Q (h ++ t) x) :
    wp I Q h (readPath cfg deviceType inst path) := by
  rw [readPath, wp_bind, wp_ofExcept]
  cases hpre : cfg.topicPrefix with
  -- no portal, no read
  | error e => simpa using hnone [] (.error e) (by simp [ReadsOnly]) (by simp)
  | ok pre =>
      rw [andThen_ok, wp_bind, wp_ofExcept]
      cases hkey : formatTopic pre deviceType inst path with
      | error e => simpa using hnone [] (.error e) (by simp [ReadsOnly]) (by simp)
      | ok topic =>
          obtain ⟨-, rfl⟩ := formatTopic_eq_ok.mp hkey
          -- one look at the cache, then the clock
          rw [andThen_ok, wp_perform_bind]
          refine ⟨hI _ _ rfl, fun entry => ?_⟩
          cases entry with
          | none => exact hnone _ _ (by simp [ReadsOnly, isRead]) (by simp)
          | some e =>
              refine ⟨hI _ _ rfl, fun now => ?_⟩
              rw [List.append_assoc]
              exact hread pre ⟨itemTopic pre deviceType inst path, e.1, e.2, now⟩ hpre rfl

theorem wp_checkIdentity {Q : ServerTrace → Except PyError (Option String) → Prop}
    (hI : ∀ h o, isRead o = true → I h o) {maxAge : PyNum} (probes : List IdentityProbe)
    (hok : ∀ rs, List.Forall₂ (Observed cfg maxAge) probes rs →
      Q (h ++ readings rs) (.ok none))
    (hfail : ∀ t x, ReadsOnly t → x ≠ .ok none → Q (h ++ t) x) :
    wp I Q h (checkIdentity (readPath cfg) maxAge probes) := by
  induction probes generalizing h with
  | nil =>
      have hnil := hok [] .nil
      rw [show readings [] = [] from rfl, List.append_nil] at hnil
      exact hnil
  | cons p ps ih =>
      rw [checkIdentity, wp_bind]
      refine wp_readPath hI _ _ _ (fun pre r hpre htopic => ?_) fun t x ht hx => ?_
      -- the reading is in: the probe finds a fault or the rest is checked
      · rw [andThen_ok]
        cases hf : probeFault maxAge p (some (r.value, r.age)) with
        | some reason => exact hfail _ _ (ReadsOnly.readings [r]) (by simp)
        | none =>
            obtain ⟨observed, age, heq, hq⟩ := probeFault_eq_none.mp hf
            cases heq
            refine ih (fun rs hrs => ?_) fun t x ht hx => ?_
            · rw [List.append_assoc, ← readings_cons]
              exact hok _ (.cons ⟨⟨pre, hpre, htopic⟩, hq⟩ hrs)
            · rw [List.append_assoc]
              exact hfail _ _ ((ReadsOnly.readings [r]).append ht) hx
      -- nothing was read, which is a fault of its own
      · cases x with
        | error e => exact hfail _ _ ht (by simp)
        | ok reading =>
            cases reading with
            | some r => exact absurd rfl (hx r)
            | none => exact hfail _ _ ht (by simp)

theorem wp_validateWrite
    {Q : ServerTrace → Except PyError (Except String HardwareWriteContract) → Prop}
    (hI : ∀ h o, isRead o = true → I h o) (safety : SafetyConfig)
    (hok : ∀ c rs, Qualified env safety w c rs → Q (h ++ readings rs) (.ok (.ok c)))
    (hfail : ∀ t x, ReadsOnly t → (∀ c, x ≠ .ok (.ok c)) → Q (h ++ t) x) :
    wp I Q h (validateWrite env safety w) := by
  have hnil : ∀ x, (∀ c, x ≠ .ok (.ok c)) → Q h x := fun x hx => by
    simpa using hfail [] x (by simp [ReadsOnly]) hx
  unfold validateWrite validateHardwareWrite
  split
  -- one contract of the target
  · rename_i contract hunique
    split
    · exact hnil _ (by simp)
    · rename_i hlimit
      rw [wp_bind]
      -- the identity first, then the value
      refine wp_checkIdentity hI _ (fun rs hrs => ?_) fun t x ht hx => ?_
      · rw [andThen_ok, wp_pure]
        cases hv : checkValue contract w.path w.value w.semanticMode with
        | error e => exact hfail _ _ (ReadsOnly.readings rs) (by simp)
        | ok c =>
            obtain ⟨rfl, -⟩ := checkValue_eq_ok.mp hv
            refine hok _ rs ⟨hunique, ?_, hrs, hv⟩
            simpa using hlimit
      -- a fault of the identity is the answer
      · cases x with
        | error e => exact hfail _ _ ht (by simp)
        | ok fault =>
            cases fault with
            | none => exact absurd rfl hx
            | some reason => exact hfail _ _ ht (by simp)
  · exact hnil _ (by simp)

/-- The trace of a validated write up to its publish. -/
def writeTrace (safety : SafetyConfig) (rs : List Reading) (writtenAt : ℚ) : ServerTrace :=
  [⟨.safety, safety⟩] ++ readings rs ++ [⟨.monotonic, writtenAt⟩]

/-- The message of a write. -/
def Write.topic (w : Write) (pre : String) : String :=
  itemTopic pre w.deviceType w.inst w.path

def Write.payload (w : Write) : Json := .obj [("value", w.value)]

/-- What acknowledges a write: the poll, the echo it read, and the second
    validation. -/
structure Echo where
  polledAt : ℚ
  reading : Reading
  safety : SafetyConfig
  contract : HardwareWriteContract
  identity : List Reading
  /-- The settings as `enable_writes` is read. -/
  settings : SafetyConfig
  doneAt : ℚ

def Echo.trace (e : Echo) : ServerTrace :=
  [⟨.monotonic, e.polledAt⟩] ++ readings [e.reading] ++ [⟨.safety, e.safety⟩] ++
    readings e.identity ++ [⟨.safety, e.settings⟩, ⟨.monotonic, e.doneAt⟩]

/-- The echo is in time, fresh and equal, and the write is still qualified. -/
structure Echo.Valid (env : ServerEnv) (w : Write) (contract : HardwareWriteContract)
    (writtenAt deadline : ℚ) (e : Echo) : Prop where
  inTime : e.polledAt < deadline
  topic : ∃ pre, env.mqtt.config.topicPrefix = .ok pre ∧ e.reading.topic = w.topic pre
  fresh : writtenAt ≤ e.reading.receivedAt
  equal : valuesMatch env.parseFloat e.reading.value w.value = true
  qualified : Qualified env e.safety w e.contract e.identity
  same : e.contract.pyEq contract = true
  enabled : e.settings.enableWrites = true

def WriteResult.isVerified : WriteResult → Bool
  | .verified .. => true
  | _ => false

def NoPublish (t : ServerTrace) : Prop := ∀ y ∈ t, isPublish y.1 = false

theorem NoPublish.append {t t' : ServerTrace} (h : NoPublish t) (h' : NoPublish t') :
    NoPublish (t ++ t') := fun y hy => (List.mem_append.mp hy).elim (h y) (h' y)

theorem ReadsOnly.noPublish {t : ServerTrace} (h : ReadsOnly t) : NoPublish t := fun y hy => by
  have := h y hy
  cases hy' : y.1 <;> simp_all [isRead, isPublish]

theorem quiet_of_isRead {o : ServerOp} (h : isRead o = true) : isPublish o = false := by
  cases o <;> simp_all [isRead, isPublish]

variable {Q : ServerTrace → Except PyError WriteResult → Prop} {contract : HardwareWriteContract}

theorem wp_readPathSince {Q : ServerTrace → Except PyError (Option (Json × PyNum)) → Prop}
    (hI : ∀ h o, isRead o = true → I h o) (deviceType : String) (inst : Int) (path : String)
    (since : ℚ)
    (hread : ∀ pre r, cfg.topicPrefix = .ok pre →
      r.topic = itemTopic pre deviceType inst path → since ≤ r.receivedAt →
        Q (h ++ readings [r]) (.ok (some (r.value, r.age))))
    (hnone : ∀ t x, ReadsOnly t → (∀ r, x ≠ .ok (some r)) → Q (h ++ t) x) :
    wp I Q h (readPathSince cfg deviceType inst path since) := by
  rw [readPathSince, wp_bind, wp_ofExcept]
  cases hpre : cfg.topicPrefix with
  | error e => simpa using hnone [] (.error e) (by simp [ReadsOnly]) (by simp)
  | ok pre =>
      rw [andThen_ok, wp_bind, wp_ofExcept]
      cases hkey : formatTopic pre deviceType inst path with
      | error e => simpa using hnone [] (.error e) (by simp [ReadsOnly]) (by simp)
      | ok topic =>
          obtain ⟨-, rfl⟩ := formatTopic_eq_ok.mp hkey
          rw [andThen_ok, wp_perform_bind]
          refine ⟨hI _ _ rfl, fun entry => ?_⟩
          cases entry with
          | none => exact hnone _ _ (by simp [ReadsOnly, isRead]) (by simp)
          | some e =>
              simp only
              -- an entry from before the write does not count
              split
              · exact hnone _ _ (by simp [ReadsOnly, isRead]) (by simp)
              · rename_i hsince
                refine ⟨hI _ _ rfl, fun now => ?_⟩
                rw [List.append_assoc]
                exact hread pre ⟨itemTopic pre deviceType inst path, e.1, e.2, now⟩ hpre rfl
                  (not_lt.mp hsince)

theorem wp_stillQualified {Q : ServerTrace → Except PyError Bool → Prop}
    (hI : ∀ h o, isPublish o = false → I h o)
    (hok : ∀ safety c rs settings, Qualified env safety w c rs → c.pyEq contract = true →
      settings.enableWrites = true →
        Q (h ++ ([⟨.safety, safety⟩] ++ readings rs ++ [⟨.safety, settings⟩])) (.ok true))
    (hfail : ∀ t x, NoPublish t → x ≠ .ok true → Q (h ++ t) x) :
    wp I Q h (stillQualified env w contract) := by
  rw [stillQualified, wp_perform_bind]
  refine ⟨hI _ _ rfl, fun safety => ?_⟩
  rw [wp_bind]
  refine wp_validateWrite (fun h o ho => hI h o (quiet_of_isRead ho)) safety (fun c rs hq => ?_)
    fun t x ht hx => ?_
  · rw [andThen_ok, wp_perform_bind]
    refine ⟨hI _ _ rfl, fun settings => ?_⟩
    rw [wp_pure, List.append_assoc, List.append_assoc, ← List.append_assoc [_]]
    -- the flag is read again after the checks
    cases hs : settings.enableWrites && c.pyEq contract with
    | true =>
        rw [Bool.and_eq_true] at hs
        exact hok safety c rs settings hq hs.2 hs.1
    | false =>
        refine hfail _ _ ?_ (by simp)
        refine NoPublish.append (NoPublish.append ?_ (ReadsOnly.readings rs).noPublish) ?_ <;>
          simp [NoPublish, isPublish]
  -- the write was refused, so nothing has been published
  · have hsafety : NoPublish [⟨.safety, safety⟩] := by simp [NoPublish, isPublish]
    cases x with
    | error e =>
        rw [List.append_assoc]
        exact hfail _ _ (hsafety.append ht.noPublish) (by simp)
    | ok result =>
        rw [andThen_ok, wp_perform_bind]
        refine ⟨hI _ _ rfl, fun settings => ?_⟩
        rw [wp_pure, List.append_assoc, List.append_assoc]
        refine hfail _ _ (hsafety.append (ht.noPublish.append (by simp [NoPublish, isPublish]))) ?_
        cases result with
        | ok c => exact absurd rfl (hx c)
        | error e => simp

/-- The loop acknowledges on a valid echo only, and publishes nothing. -/
theorem wp_verifyLoop (hI : ∀ h o, isPublish o = false → I h o) (topic : String)
    (writtenAt deadline : ℚ) (polls : Nat)
    (hverified : ∀ later e elapsed, NoPublish later →
      Echo.Valid env w contract writtenAt deadline e →
        Q (h ++ (later ++ e.trace)) (.ok (.verified w.value topic elapsed contract.contractId
          contract.evidenceSha256)))
    (hother : ∀ t x, (∀ r, x = .ok r → r.isVerified = false) → Q t x) :
    wp I Q h (verifyLoop env w contract topic writtenAt deadline polls) := by
  induction polls generalizing h with
  | zero => exact hother _ _ (by simp)
  | succ polls ih =>
      rw [verifyLoop, wp_perform_bind]
      refine ⟨hI _ _ rfl, fun polledAt => ?_⟩
      split
      · exact hother _ _ (by rintro _ ⟨⟩; rfl)
      rename_i htime
      have hinTime : polledAt < deadline := by simpa using htime
      -- after a poll without an echo the loop goes round, with a longer trace
      have hagain : ∀ t, NoPublish t → wp I Q (h ++ t) (do
          serverOp .sleep
          verifyLoop env w contract topic writtenAt deadline polls) := by
        intro t ht
        rw [wp_perform_bind]
        refine ⟨hI _ _ rfl, fun _ => ih fun later e elapsed hlater hvalid => ?_⟩
        have := hverified (t ++ [⟨.sleep, ()⟩] ++ later) e elapsed
          ((ht.append (by simp [NoPublish, isPublish])).append hlater) hvalid
        simpa only [List.append_assoc] using this
      have hpoll : NoPublish [⟨.monotonic, polledAt⟩] := by simp [NoPublish, isPublish]
      rw [wp_bind]
      refine wp_readPathSince (fun h o ho => hI h o (quiet_of_isRead ho)) _ _ _ _
        (fun pre r hpre htopic hfresh => ?_) fun t x ht hx => ?_
      · rw [andThen_ok]
        by_cases hm : valuesMatch env.parseFloat r.value w.value = true
        · rw [if_pos (by simpa using hm), wp_bind]
          refine wp_stillQualified hI (fun safety c rs settings hq hsame hon => ?_)
            fun t x ht hx => ?_
          · rw [andThen_ok, if_neg (by simp), wp_perform_bind]
            refine ⟨hI _ _ rfl, fun doneAt => ?_⟩
            have := hverified [] ⟨polledAt, r, safety, c, rs, settings, doneAt⟩
              (pyRound (writeVerifyTimeout - (deadline - doneAt)) 1) (by simp [NoPublish])
              ⟨hinTime, ⟨pre, hpre, htopic⟩, hfresh, hm, hq, hsame, hon⟩
            rw [wp_pure]
            simpa [Echo.trace] using this
          · cases x with
            | error e => exact hother _ _ (by simp)
            | ok b =>
                cases b with
                | true => exact absurd rfl hx
                | false => exact hother _ _ (by rintro _ ⟨⟩; rfl)
        · rw [if_neg (by simpa using hm), List.append_assoc]
          exact hagain _ (hpoll.append (ReadsOnly.readings [r]).noPublish)
      · cases x with
        | error e => exact hother _ _ (by simp)
        | ok result =>
            cases result with
            | some r => exact absurd rfl (hx r)
            | none =>
                rw [andThen_ok, if_neg (by simp), List.append_assoc]
                exact hagain _ (hpoll.append ht.noPublish)

/-- A write publishes once it is qualified, and acknowledges after that one
    publish, on a valid echo. -/
theorem wp_mqttWriteAndVerify (hI : ∀ h o, isPublish o = false → I h o) (polls : Nat)
    (hpublish : ∀ safety c rs pre writtenAt, Qualified env safety w c rs →
      env.mqtt.config.writePrefix = .ok pre →
        I (h ++ writeTrace safety rs writtenAt) (.publish (w.topic pre) w.payload))
    (hverified : ∀ safety c rs pre writtenAt sent later e elapsed, Qualified env safety w c rs →
      env.mqtt.config.writePrefix = .ok pre → NoPublish later →
      Echo.Valid env w c writtenAt (sent + writeVerifyTimeout) e →
        Q (h ++ (writeTrace safety rs writtenAt ++
            [⟨.publish (w.topic pre) w.payload, .ok ()⟩, ⟨.monotonic, sent⟩] ++ (later ++ e.trace)))
          (.ok (.verified w.value (w.topic pre) elapsed c.contractId c.evidenceSha256)))
    (hother : ∀ t x, (∀ r, x = .ok r → r.isVerified = false) → Q t x) :
    wp I Q h (mqttWriteAndVerify env polls w) := by
  rw [mqttWriteAndVerify, wp_perform_bind]
  refine ⟨hI _ _ rfl, fun safety => ?_⟩
  rw [wp_bind]
  refine wp_validateWrite (fun h o ho => hI h o (quiet_of_isRead ho)) safety (fun c rs hq => ?_)
    fun t x ht hx => ?_
  -- validated: the topic, the time, the publish
  · rw [andThen_ok]
    simp only
    rw [wp_bind, wp_ofExcept]
    cases hpre : env.mqtt.config.writePrefix with
    | error e => exact hother _ _ (by simp)
    | ok pre =>
        rw [andThen_ok, wp_bind, wp_ofExcept]
        cases hkey : formatTopic pre w.deviceType w.inst w.path with
        | error e => exact hother _ _ (by simp)
        | ok topic =>
            obtain rfl : topic = w.topic pre := (formatTopic_eq_ok.mp hkey).2
            rw [andThen_ok, wp_perform_bind]
            refine ⟨hI _ _ rfl, fun writtenAt => ?_⟩
            rw [wp_perform_bind]
            have htrace : h ++ [⟨.safety, safety⟩] ++ readings rs ++ [⟨.monotonic, writtenAt⟩] =
                h ++ writeTrace safety rs writtenAt := by
              simp [writeTrace]
            refine ⟨?_, fun sentResult => ?_⟩
            · rw [htrace]
              exact hpublish safety c rs pre writtenAt hq hpre
            -- a publish that fails is not acknowledged
            · cases sentResult with
              | error e =>
                  simp only
                  split
                  · exact hother _ _ (by rintro _ ⟨⟩; rfl)
                  · exact hother _ _ (by simp)
              | ok done =>
                  cases done
                  simp only
                  rw [wp_perform_bind]
                  refine ⟨hI _ _ rfl, fun sent => ?_⟩
                  -- the poll for the echo
                  refine wp_verifyLoop hI _ _ _ _ (fun later e elapsed hlater hvalid => ?_) hother
                  have := hverified safety c rs pre writtenAt sent later e elapsed hq hpre hlater
                    hvalid
                  rw [htrace]
                  simp only [List.append_assoc, List.cons_append, List.nil_append] at this ⊢
                  exact this
  -- refused
  · cases x with
    | error e => exact hother _ _ (by simp)
    | ok result =>
        cases result with
        | ok c => exact absurd rfl (hx c)
        | error e => exact hother _ _ (by rintro _ ⟨⟩; rfl)

/-- The head of a tool: a write begins behind an open gate. -/
theorem wp_gated (hI : ∀ h o, isPublish o = false → I h o) {operation dbusPath : String}
    {params : Params} {confirmed : Bool} {write : ServerProgram WriteResult}
    (hwrite : ∀ safety, confirmGate env.search safety operation params confirmed (some dbusPath) =
      .ok none → wp I Q (h ++ [⟨.safety, safety⟩, ⟨.ready, .ok ()⟩]) write)
    (hother : ∀ t x, (∀ r, x = .ok r → r.isVerified = false) → Q t x) :
    wp I Q h (gated env operation params confirmed dbusPath write) := by
  rw [gated, wp_perform_bind]
  refine ⟨hI _ _ rfl, fun safety => ?_⟩
  rw [wp_bind, wp_ofExcept]
  cases hg : confirmGate env.search safety operation params confirmed (some dbusPath) with
  | error e => exact hother _ _ (by simp)
  | ok denial =>
      rw [andThen_ok]
      -- denied, not ready, or handed to the write
      cases denial with
      | some d => exact hother _ _ (by rintro _ ⟨⟩; rfl)
      | none =>
          simp only
          split
          · rw [wp_perform_bind]
            refine ⟨hI _ _ rfl, fun ready => ?_⟩
            cases ready with
            | error e => exact hother _ _ (by simp)
            | ok _ =>
                rw [List.append_assoc]
                exact hwrite safety hg
          · exact hother _ _ (by rintro _ ⟨⟩; rfl)

end Rules

end Server

end McpVenusOs
