/-
  McpVenusOs.Config

  `config.py`: the settings the modelled code reads.  What the settings models
  reject at start-up is a field of the structure, so a `SafetyConfig` that
  exists has been accepted.
-/

import Mathlib.Tactic.NormNum
import McpVenusOs.HardwareContracts

namespace McpVenusOs

open Py

structure MQTTConfig where
  portalId : Option String
  staleAfterSeconds : PyFloat

namespace MQTTConfig

/-- A portal ID that is set and not empty. -/
def portal (cfg : MQTTConfig) : Option String :=
  match cfg.portalId with
  | some p => if p.isEmpty then none else some p
  | none => none

/-- `topic_prefix`; without a portal ID it raises `MissingPortalIdError`. -/
def topicPrefix (cfg : MQTTConfig) : Except PyError String :=
  match cfg.portal with
  | some p => .ok ("N/" ++ p)
  | none => .error .missingPortalId

/-- `MQTTClient.write_prefix`. -/
def writePrefix (cfg : MQTTConfig) : Except PyError String :=
  match cfg.portal with
  | some p => .ok ("W/" ++ p)
  | none => .error .missingPortalId

theorem topicPrefix_eq_ok {cfg : MQTTConfig} {pre : String} (h : cfg.topicPrefix = .ok pre) :
    ∃ p, cfg.portalId = some p ∧ cfg.portal = some p ∧ pre = "N/" ++ p := by
  unfold topicPrefix portal at *
  cases hp : cfg.portalId with
  | none => simp [hp] at h
  | some p =>
      by_cases hempty : p.isEmpty = true
      · simp [hp, hempty] at h
      · simp only [hp, hempty] at h ⊢
        exact ⟨p, rfl, rfl, (Except.ok.inj h).symm⟩

end MQTTConfig

/-- An accepted safety policy. -/
structure SafetyConfig where
  enableWrites : Bool
  requireConfirmation : Bool
  hardwareWriteContracts : List HardwareWriteContract
  maxChargeCurrent : ℚ
  maxDischargeCurrent : ℚ
  minSocLimit : Int
  maxSocLimit : Int
  allowedModes : List String
  writePathAllowlist : List (String × List String)
  sshCommandDenyPatterns : List String
  contracts_accepted : ∀ c ∈ hardwareWriteContracts, c.Accepted
  maxChargeCurrent_nonneg : 0 ≤ maxChargeCurrent
  maxDischargeCurrent_nonneg : 0 ≤ maxDischargeCurrent
  minSocLimit_nonneg : 0 ≤ minSocLimit
  maxSocLimit_le : maxSocLimit ≤ 100
  socLimit_ordered : minSocLimit ≤ maxSocLimit

/-- `write_path_allowlist.get(dtype, [])`. -/
def SafetyConfig.allowedPaths (cfg : SafetyConfig) (dtype : String) : List String :=
  (cfg.writePathAllowlist.lookup dtype).getD []

/-- The defaults of `SafetyConfig`. -/
def SafetyConfig.default : SafetyConfig where
  enableWrites := false
  requireConfirmation := true
  hardwareWriteContracts := []
  maxChargeCurrent := 100
  maxDischargeCurrent := 100
  minSocLimit := 10
  maxSocLimit := 100
  allowedModes := ["on", "off", "charger_only", "inverter_only", "eco"]
  writePathAllowlist := [
    ("vebus", ["Mode", "Dc/0/MaxChargeCurrent", "Ac/ActiveIn/CurrentLimit"]),
    ("battery", ["SocLimit"]),
    ("solarcharger", ["Mode", "Dc/0/MaxChargeCurrent"])]
  sshCommandDenyPatterns := [
    "\\brm\\s+-rf\\s+/(?:\\s|$)", "\\bmkfs", "\\bdd\\s+if=", "\\bcurl\\b.*\\|\\s*(?:ba)?sh",
    "\\bwget\\b.*\\|\\s*(?:ba)?sh", "\\bshutdown\\b", "\\breboot\\b", "\\bhalt\\b",
    "\\bpoweroff\\b", "\\bflash\\.sh\\b"]
  contracts_accepted := by simp
  maxChargeCurrent_nonneg := by norm_num
  maxDischargeCurrent_nonneg := by norm_num
  minSocLimit_nonneg := by norm_num
  maxSocLimit_le := by norm_num
  socLimit_ordered := by norm_num

structure SSHConfig where
  host : Option String
  port : Nat
  user : String
  keyPath : Option String
  password : Option String
  timeoutS : PyFloat

/-- An optional text that is set and not empty. -/
def nonEmpty (s : Option String) : Option String := s.filter fun s => !s.isEmpty

/-- `effective_host`: the configured host, or the broker's. -/
def SSHConfig.effectiveHost (cfg : SSHConfig) (mqttHost : String) : String :=
  (nonEmpty cfg.host).getD mqttHost

/-- `CerboSSHClient.configured` -/
def SSHConfig.configured (cfg : SSHConfig) : Bool :=
  (nonEmpty cfg.keyPath).isSome || (nonEmpty cfg.password).isSome

end McpVenusOs
