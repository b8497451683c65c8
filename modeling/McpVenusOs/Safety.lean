/-
  McpVenusOs.Safety

  `safety.py`: the gate every state-changing tool passes.

  `SafetyValidator.config` and `get_config().safety` are the same object, so
  the validator takes one `SafetyConfig`.  `re.search` with `IGNORECASE` is the
  parameter `search` (it raises on a malformed pattern).  A denial keeps the
  values its message inserts; `Denial.text` writes the message.
-/

import McpVenusOs.Config

namespace McpVenusOs

open Py

/-- Named arguments of an operation. -/
abbrev Params : Type := List (String × Json)

/-- `re.search(pattern, command, re.IGNORECASE)`. -/
abbrev Search : Type := String → String → Except PyError Bool

/-! ## Results -/

inductive Denial
  | writesDisabled
  | pathNotAllowed (path dtype : String) (allowed : List String)
  | commandDenied (pattern : String)
  | currentNotFinite (label : String)
  | currentNegative (label : String)
  | currentExceeds (label : String) (current : PyNum) (maximum : ℚ)
  | socNotInteger
  | socBelow (soc minimum : Int)
  | socAbove (soc maximum : Int)
  | modeNotAllowed (mode : Json) (allowed : List String)
  | confirmationRequired
  deriving Inhabited

/-- The `reason` of a denied check; `mode` and lists are inserted as `text` writes them. -/
def Denial.text (fmt : PyFormat) (text : Json → String) : Denial → String
  | writesDisabled =>
    "Write operations are disabled. Set SAFETY_ENABLE_WRITES=true to allow any writes."
  | pathNotAllowed path dtype allowed =>
    s!"Path '{path}' is not in the write-path allowlist for device type '{dtype}'. Allowed: " ++
      text (.arr (allowed.map .str))
  | commandDenied pattern => s!"Command matches deny-pattern '{pattern}' and is rejected"
  | currentNotFinite label => s!"{label} current must be a finite number"
  | currentNegative label => s!"{label} current cannot be negative"
  | currentExceeds label current maximum =>
    s!"{label} current {fmt.num current}A exceeds maximum " ++
      fmt.num (.float (.finite maximum)) ++ "A"
  | socNotInteger => "SoC limit must be an integer"
  | socBelow soc minimum => s!"SoC limit {soc}% below minimum {minimum}%"
  | socAbove soc maximum => s!"SoC limit {soc}% exceeds maximum {maximum}%"
  | modeNotAllowed mode allowed =>
    s!"Mode '" ++ text mode ++ "' not allowed. Allowed: " ++ ", ".intercalate allowed
  | confirmationRequired => "Confirmation required for write operation"

structure SafetyCheckResult where
  allowed : Bool
  reason : Option Denial := none
  requiresConfirmation : Bool := false
  /-- The operation and parameters the confirmation message quotes. -/
  confirmation : Option (String × Params) := none

namespace SafetyCheckResult

def ok : SafetyCheckResult := { allowed := true }

def deny (d : Denial) : SafetyCheckResult := { allowed := false, reason := some d }

@[simp] theorem ok_allowed : ok.allowed = true := rfl

@[simp] theorem deny_allowed (d : Denial) : (deny d).allowed = false := rfl

/-- The `confirmation_message`. -/
def confirmationMessage (fmt : PyFormat) (r : SafetyCheckResult) : Option String :=
  r.confirmation.map fun (operation, params) =>
    s!"Confirm {operation} with parameters: {fmt.params params}? " ++
      "This will change device settings on Venus OS."

end SafetyCheckResult

/-! ## Tables -/

/-- `_OPERATION_DEVICE_TYPE` -/
def operationDeviceType : String → Option String
  | "set_inverter_mode" => some "vebus"
  | "set_charge_current_limit" => some "vebus"
  | "set_soc_limit" => some "battery"
  | _ => none

/-- `_OPERATION_DBUS_PATH` -/
def operationDbusPath : String → Option String
  | "set_inverter_mode" => some "Mode"
  | "set_charge_current_limit" => some "Dc/0/MaxChargeCurrent"
  | "set_soc_limit" => some "SocLimit"
  | _ => none

/-! ## Checks -/

/-- Deny any write to a path not on the allowlist. -/
def validateWritePath (cfg : SafetyConfig) (operation : String) (dbusPath : Option String) :
    SafetyCheckResult :=
  match operationDeviceType operation with
  | none => .ok
  | some dtype =>
    match dbusPath with
    | none => .ok
    | some path =>
      if path ∈ cfg.allowedPaths dtype then .ok
      else .deny (.pathNotAllowed path dtype (cfg.allowedPaths dtype))

/-- `re.search(pattern, command)` on a parameter: only a string can be searched. -/
def searchParam (search : Search) (pattern : String) : Json → Except PyError Bool
  | .str text => search pattern text
  | _ => do
    -- the pattern is compiled before the text is looked at
    let _ ← search pattern ""
    .error .typeError

/-- Deny commands matching any deny-pattern. -/
def validateSshCommand (search : Search) (command : Json) :
    List String → Except PyError SafetyCheckResult
  | [] => .ok .ok
  | pattern :: rest => do
    if ← searchParam search pattern command then return .deny (.commandDenied pattern)
    validateSshCommand search command rest

/-- The body shared by the two current checks. -/
def validateCurrent (label : String) (maximum : ℚ) (current : Json) :
    Except PyError SafetyCheckResult :=
  match current.asNumber with
  | none => .ok (.deny (.currentNotFinite label))
  | some v => do
    if !(← mathIsFinite v) then return .deny (.currentNotFinite label)
    if v.lt (.int 0) then return .deny (.currentNegative label)
    if PyNum.lt (.float (.finite maximum)) v then
      return .deny (.currentExceeds label v maximum)
    return .ok

def validateChargeCurrent (cfg : SafetyConfig) (current : Json) :
    Except PyError SafetyCheckResult :=
  validateCurrent "Charge" cfg.maxChargeCurrent current

def validateDischargeCurrent (cfg : SafetyConfig) (current : Json) :
    Except PyError SafetyCheckResult :=
  validateCurrent "Discharge" cfg.maxDischargeCurrent current

/-- Validate state of charge limit. -/
def validateSocLimit (cfg : SafetyConfig) : Json → SafetyCheckResult
  | .int soc =>
    if soc < cfg.minSocLimit then .deny (.socBelow soc cfg.minSocLimit)
    else if cfg.maxSocLimit < soc then .deny (.socAbove soc cfg.maxSocLimit)
    else .ok
  | _ => .deny .socNotInteger

/-- Validate inverter mode. -/
def validateMode (cfg : SafetyConfig) (mode : Json) : SafetyCheckResult :=
  match mode with
  | .str m => if m ∈ cfg.allowedModes then .ok else .deny (.modeNotAllowed mode cfg.allowedModes)
  | _ => .deny (.modeNotAllowed mode cfg.allowedModes)

/-- Run a check on a parameter if the operation has it. -/
def checkParam (params : Params) (key : String)
    (check : Json → Except PyError SafetyCheckResult) : Except PyError SafetyCheckResult :=
  match params.lookup key with
  | some v => check v
  | none => .ok .ok

/-- `params.get("command", "")` -/
def commandParam (params : Params) : Json := (params.lookup "command").getD (.str "")

/-- Validate a write operation with all parameters: killswitch, write-path
    allowlist, parameters, deny-patterns, confirmation; the first failure wins. -/
def validateWriteOperation (search : Search) (cfg : SafetyConfig) (operation : String)
    (params : Params) (confirmed : Bool) (dbusPath : Option String) :
    Except PyError SafetyCheckResult := do
  if !cfg.enableWrites then return .deny .writesDisabled
  if operation ≠ "cerbo_ssh_exec" then
    let result := validateWritePath cfg operation dbusPath
    if !result.allowed then return result
  let result ← checkParam params "charge_current" (validateChargeCurrent cfg)
  if !result.allowed then return result
  let result ← checkParam params "discharge_current" (validateDischargeCurrent cfg)
  if !result.allowed then return result
  let result ← checkParam params "soc_limit" fun v => .ok (validateSocLimit cfg v)
  if !result.allowed then return result
  let result ← checkParam params "mode" fun v => .ok (validateMode cfg v)
  if !result.allowed then return result
  if operation = "cerbo_ssh_exec" then
    let result ← validateSshCommand search (commandParam params) cfg.sshCommandDenyPatterns
    if !result.allowed then return result
  if cfg.requireConfirmation && !confirmed then
    return { allowed := false, requiresConfirmation := true,
             confirmation := some (operation, params), reason := some .confirmationRequired }
  return .ok

/-! ## `_confirm_gate` (server.py) -/

/-- The error payload of the gate. -/
inductive GateDenial
  | needsConfirmation (confirmation : Option (String × Params))
  | denied (reason : Option Denial)

/-- Shared safety and confirmation gate: an error payload, or `none` to go on. -/
def confirmGate (search : Search) (cfg : SafetyConfig) (operation : String) (params : Params)
    (confirmed : Bool) (dbusPath : Option String) : Except PyError (Option GateDenial) := do
  let result ← validateWriteOperation search cfg operation params confirmed dbusPath
  if !result.allowed && result.requiresConfirmation then
    return some (.needsConfirmation result.confirmation)
  if !result.allowed then return some (.denied result.reason)
  return none

/-! ## What an open gate establishes -/

theorem validateCurrent_allowed {label : String} {maximum : ℚ} {current : Json}
    {r : SafetyCheckResult} (h : validateCurrent label maximum current = .ok r)
    (hr : r.allowed = true) :
    ∃ v, current.asNumber = some v ∧ finite v = true ∧ PyNum.lt v (.int 0) = false ∧
      PyNum.lt (.float (.finite maximum)) v = false := by
  unfold validateCurrent at h
  cases hv : current.asNumber with
  | none =>
      rw [hv] at h
      cases h
      simp at hr
  | some v =>
      rw [hv] at h
      simp only [bind, Except.bind, pure, Except.pure] at h
      cases hfin : mathIsFinite v with
      | error e => simp [hfin] at h
      -- not finite, negative, or above the maximum
      | ok b =>
          simp only [hfin] at h
          refine ⟨v, rfl, ?_⟩
          cases b with
          | false => simp at h; subst h; simp at hr
          | true =>
              simp only [Bool.not_true, Bool.false_eq_true, ↓reduceIte] at h
              split at h
              · cases h; simp at hr
              · rename_i hneg
                split at h
                · cases h; simp at hr
                · rename_i hmax
                  exact ⟨by simp [finite, hfin], by simpa using hneg, by simpa using hmax⟩

theorem validateSocLimit_allowed {cfg : SafetyConfig} {v : Json}
    (h : (validateSocLimit cfg v).allowed = true) :
    ∃ n, v = .int n ∧ cfg.minSocLimit ≤ n ∧ n ≤ cfg.maxSocLimit := by
  unfold validateSocLimit at h
  split at h
  · rename_i n
    split at h
    · simp at h
    · split at h
      · simp at h
      · exact ⟨n, rfl, by omega, by omega⟩
  · simp at h

theorem validateMode_allowed {cfg : SafetyConfig} {v : Json}
    (h : (validateMode cfg v).allowed = true) : ∃ m, v = .str m ∧ m ∈ cfg.allowedModes := by
  unfold validateMode at h
  split at h
  · rename_i m
    split at h
    · rename_i hm
      exact ⟨m, rfl, hm⟩
    · simp at h
  · simp at h

theorem validateWritePath_allowed {cfg : SafetyConfig} {operation dtype path : String}
    (hop : operationDeviceType operation = some dtype)
    (h : (validateWritePath cfg operation (some path)).allowed = true) :
    path ∈ cfg.allowedPaths dtype := by
  unfold validateWritePath at h
  rw [hop] at h
  simp only at h
  split at h
  · assumption
  · simp at h

theorem validateSshCommand_allowed {search : Search} {command : Json} {patterns : List String}
    {r : SafetyCheckResult} (h : validateSshCommand search command patterns = .ok r)
    (hr : r.allowed = true) : ∀ p ∈ patterns, searchParam search p command = .ok false := by
  induction patterns with
  | nil => simp
  | cons pattern rest ih =>
      simp only [validateSshCommand, bind, Except.bind, pure, Except.pure] at h
      cases hs : searchParam search pattern command with
      | error e => simp [hs] at h
      | ok b =>
          cases b with
          | true => simp [hs] at h; subst h; simp at hr
          | false =>
              simp only [hs, Bool.false_eq_true, ↓reduceIte] at h
              intro p hp
              rcases List.mem_cons.mp hp with rfl | hp
              · exact hs
              · exact ih h p hp

/-- Everything an operation has passed once the gate returns nothing. -/
structure GateOpen (search : Search) (cfg : SafetyConfig) (operation : String) (params : Params)
    (confirmed : Bool) (dbusPath : Option String) : Prop where
  writes : cfg.enableWrites = true
  path : operation ≠ "cerbo_ssh_exec" → (validateWritePath cfg operation dbusPath).allowed = true
  charge : ∃ r, checkParam params "charge_current" (validateChargeCurrent cfg) = .ok r ∧
    r.allowed = true
  soc : ∃ r, checkParam params "soc_limit" (fun v => .ok (validateSocLimit cfg v)) = .ok r ∧
    r.allowed = true
  mode : ∃ r, checkParam params "mode" (fun v => .ok (validateMode cfg v)) = .ok r ∧
    r.allowed = true
  command : operation = "cerbo_ssh_exec" → ∃ r,
    validateSshCommand search (commandParam params) cfg.sshCommandDenyPatterns = .ok r ∧
      r.allowed = true
  confirmed : confirmed = true ∨ cfg.requireConfirmation = false

/-- A check that is passed on failure: an allowed end result went past it. -/
theorem allowed_of_check {x k : Except PyError SafetyCheckResult} {r : SafetyCheckResult}
    (h : (x >>= fun result => if (!result.allowed) = true then pure result else k) = .ok r)
    (hr : r.allowed = true) : (∃ r', x = .ok r' ∧ r'.allowed = true) ∧ k = .ok r := by
  cases x with
  | error e => cases h
  | ok r' =>
      change (if (!r'.allowed) = true then pure r' else k) = .ok r at h
      by_cases hr' : r'.allowed = true
      · rw [hr'] at h
        exact ⟨⟨r', rfl, hr'⟩, h⟩
      · rw [if_pos (by simpa using hr')] at h
        cases h
        exact absurd hr hr'

/-- The last check: an operation that needs a confirmation has one. -/
theorem confirmed_of_ok {cfg : SafetyConfig} {operation : String} {params : Params}
    {confirmed : Bool} {r : SafetyCheckResult}
    (h : (if (cfg.requireConfirmation && !confirmed) = true then
        pure { allowed := false, requiresConfirmation := true,
               confirmation := some (operation, params), reason := some .confirmationRequired }
      else pure .ok : Except PyError SafetyCheckResult) = .ok r)
    (hr : r.allowed = true) : confirmed = true ∨ cfg.requireConfirmation = false := by
  split at h
  · cases h
    cases hr
  · rename_i hneeded
    rcases Bool.eq_false_or_eq_true confirmed with hconfirmed | hnot
    · exact .inl hconfirmed
    · rw [hnot, Bool.not_false, Bool.and_true, Bool.not_eq_true] at hneeded
      exact .inr hneeded

theorem validateWriteOperation_allowed {search : Search} {cfg : SafetyConfig}
    {operation : String} {params : Params} {confirmed : Bool} {dbusPath : Option String}
    {r : SafetyCheckResult}
    (h : validateWriteOperation search cfg operation params confirmed dbusPath = .ok r)
    (hr : r.allowed = true) : GateOpen search cfg operation params confirmed dbusPath := by
  unfold validateWriteOperation at h
  split at h
  · cases h; simp at hr
  rename_i hwrites
  -- the four parameter checks and the tail are shared by both branches of the path check
  have hpath : operation ≠ "cerbo_ssh_exec" →
      (validateWritePath cfg operation dbusPath).allowed = true := by
    intro hop
    by_contra hdeny
    rw [Bool.not_eq_true] at hdeny
    simp only [hop, ne_eq, not_false_eq_true, ↓reduceIte, hdeny, Bool.not_false] at h
    cases h
    rw [hdeny] at hr
    cases hr
  have hrest : (do
      let result ← checkParam params "charge_current" (validateChargeCurrent cfg)
      if !result.allowed then return result
      let result ← checkParam params "discharge_current" (validateDischargeCurrent cfg)
      if !result.allowed then return result
      let result ← checkParam params "soc_limit" fun v => .ok (validateSocLimit cfg v)
      if !result.allowed then return result
      let result ← checkParam params "mode" fun v => .ok (validateMode cfg v)
      if !result.allowed then return result
      if operation = "cerbo_ssh_exec" then
        let result ← validateSshCommand search (commandParam params) cfg.sshCommandDenyPatterns
        if !result.allowed then return result
      if cfg.requireConfirmation && !confirmed then
        return { allowed := false, requiresConfirmation := true,
                 confirmation := some (operation, params), reason := some .confirmationRequired }
      return .ok : Except PyError SafetyCheckResult) = .ok r := by
    by_cases hop : operation = "cerbo_ssh_exec"
    · rw [if_neg (by simpa using hop)] at h
      exact h
    · rw [if_pos hop] at h
      simpa only [hpath hop, Bool.not_true, Bool.false_eq_true, ↓reduceIte] using h
  obtain ⟨hcharge, hrest⟩ := allowed_of_check hrest hr
  obtain ⟨-, hrest⟩ := allowed_of_check hrest hr
  obtain ⟨hsoc, hrest⟩ := allowed_of_check hrest hr
  obtain ⟨hmode, hrest⟩ := allowed_of_check hrest hr
  refine ⟨by simpa using hwrites, hpath, hcharge, hsoc, hmode, ?_, ?_⟩
  · intro hop
    rw [if_pos hop] at hrest
    exact (allowed_of_check hrest hr).1
  · by_cases hop : operation = "cerbo_ssh_exec"
    · rw [if_pos hop] at hrest
      exact confirmed_of_ok (allowed_of_check hrest hr).2 hr
    · rw [if_neg hop] at hrest
      exact confirmed_of_ok hrest hr

/-- The gate returns nothing only after every check has passed. -/
theorem confirmGate_eq_none {search : Search} {cfg : SafetyConfig} {operation : String}
    {params : Params} {confirmed : Bool} {dbusPath : Option String}
    (h : confirmGate search cfg operation params confirmed dbusPath = .ok none) :
    GateOpen search cfg operation params confirmed dbusPath := by
  unfold confirmGate at h
  cases hv : validateWriteOperation search cfg operation params confirmed dbusPath with
  | error e => rw [hv] at h; cases h
  | ok r =>
      rw [hv] at h
      refine validateWriteOperation_allowed hv ?_
      by_contra hr
      rw [Bool.not_eq_true] at hr
      simp only [bind, Except.bind, pure, Except.pure, hr, Bool.not_false, Bool.true_and,
        ↓reduceIte] at h
      split at h <;> cases h

end McpVenusOs
