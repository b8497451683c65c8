/-
  McpVenusOs.NumericGates

  The two gates a number passes on its way to a device, and what they make of
  the numbers neither was meant for.

  `safety.py` writes the text of a result while it makes the result, and Python
  does not write an integer of more than 4300 digits; `writeVerdict` is
  `validateWriteOperation` with its texts written.
-/

import McpVenusOs.Lib.PyFloat
import McpVenusOs.Lib.PyInt
import McpVenusOs.Safety

namespace Py

/-! ## Texts -/

mutual

/-- `str(v)` and `repr(v)` write every integer in `v`. -/
def Json.printable : Json → Bool
  | .int n => (pyStr n).isSome
  | .arr xs => Json.allPrintable xs
  | .obj fields => Json.fieldsPrintable fields
  | _ => true

def Json.allPrintable : List Json → Bool
  | [] => true
  | x :: xs => x.printable && Json.allPrintable xs

def Json.fieldsPrintable : List (String × Json) → Bool
  | [] => true
  | (_, v) :: fields => v.printable && Json.fieldsPrintable fields

end

/-- Integers of up to 4300 digits have a text. -/
theorem pyStr_isSome {n : Int} : (pyStr n).isSome = true ↔ n.natAbs < 10 ^ maxStrDigits := by
  rw [pyStr, ← Nat.length_toDigits_le_iff (by decide) (by decide)]
  split
  · rename_i h
    simp [h]
  · rename_i h
    simp [h]

end Py

namespace McpVenusOs

open Py

/-- The values that the message inserts can be written. -/
def Denial.printable : Denial → Bool
  | .currentExceeds _ (.int n) _ => (pyStr n).isSome
  | .socBelow soc minimum => (pyStr soc).isSome && (pyStr minimum).isSome
  | .socAbove soc maximum => (pyStr soc).isSome && (pyStr maximum).isSome
  | .modeNotAllowed mode _ => mode.printable
  | _ => true

/-- The reason and the confirmation message are written with the result. -/
def SafetyCheckResult.printable (r : SafetyCheckResult) : Bool :=
  r.reason.all Denial.printable && r.confirmation.all fun (_, params) =>
    Json.fieldsPrintable params

def SafetyCheckResult.written (r : SafetyCheckResult) : Except PyError SafetyCheckResult :=
  if r.printable then .ok r else .error .valueError

/-- `validate_write_operation`, with the texts of its result; whichever check makes
    a result with a text, the function returns that result. -/
def writeVerdict (search : Search) (cfg : SafetyConfig) (operation : String) (params : Params)
    (confirmed : Bool) (dbusPath : Option String) : Except PyError SafetyCheckResult := do
  let result ← validateWriteOperation search cfg operation params confirmed dbusPath
  result.written

/-! ## The checks on numbers -/

/-- A number in the float range, not negative and at most the maximum. -/
def WithinCurrent (maximum : ℚ) (v : Json) : Prop :=
  ∃ n, v.asNumber = some n ∧ finite n = true ∧ PyNum.lt n (.int 0) = false ∧
    PyNum.lt (.float (.finite maximum)) n = false

/-- An integer within the limits. -/
def WithinSoc (cfg : SafetyConfig) (v : Json) : Prop :=
  ∃ n, v = .int n ∧ cfg.minSocLimit ≤ n ∧ n ≤ cfg.maxSocLimit

/-- A finite integer is far from the 4300 digits. -/
theorem pyStr_of_finite {n : Int} (h : finite (.int n) = true) : (pyStr n).isSome = true := by
  rw [pyStr_isSome]
  have hlt : n.natAbs < floatLimit := by
    by_contra hge
    simp [finite, mathIsFinite, hge] at h
  have hlimit : floatLimit ≤ 10 ^ maxStrDigits := by decide +kernel
  omega

theorem mathIsFinite_of_finite {n : PyNum} (h : finite n = true) : mathIsFinite n = .ok true := by
  rw [finite] at h
  split at h
  · rename_i b hb
    rw [hb, h]
  · cases h

/-- A finite number is compared with the limits; the message writes it. -/
theorem validateCurrent_finite {label : String} {maximum : ℚ} {v : Json} {n : PyNum}
    (hv : v.asNumber = some n) (hn : finite n = true) :
    ∃ r, validateCurrent label maximum v = .ok r ∧ r.printable = true ∧
      (r.allowed = true ↔ WithinCurrent maximum v) := by
  -- the number is the only one the value has
  have hwithin : WithinCurrent maximum v ↔
      PyNum.lt n (.int 0) = false ∧ PyNum.lt (.float (.finite maximum)) n = false := by
    constructor
    · rintro ⟨n', hn', -, hlimits⟩
      rw [hv] at hn'
      obtain rfl := Option.some.inj hn'
      exact hlimits
    · rintro ⟨hneg, hmax⟩
      exact ⟨n, hv, hn, hneg, hmax⟩
  -- what is left of the body: the two comparisons
  rw [validateCurrent, hv, hwithin]
  simp only [mathIsFinite_of_finite hn, bind, Except.bind, Bool.not_true, Bool.false_eq_true,
    if_false]
  cases hneg : PyNum.lt n (.int 0) with
  | true => exact ⟨_, rfl, rfl, by simp⟩
  | false =>
    cases hmax : PyNum.lt (.float (.finite maximum)) n with
    | false => exact ⟨_, rfl, rfl, by simp⟩
    | true =>
      refine ⟨_, rfl, ?_, by simp⟩
      show ((Denial.currentExceeds label n maximum).printable && true) = true
      cases n with
      | int n => rw [Denial.printable, pyStr_of_finite hn, Bool.and_self]
      | float x => rfl

/-- A current check returns unless `math.isfinite` overflows. -/
theorem validateCurrent_spec (label : String) (maximum : ℚ) (v : Json) :
    (v.beyondFloat = true → validateCurrent label maximum v = .error .overflowError) ∧
      (v.beyondFloat = false → ∃ r, validateCurrent label maximum v = .ok r ∧
        r.printable = true ∧ (r.allowed = true ↔ WithinCurrent maximum v)) := by
  -- no number, an integer, or a float
  cases hv : v.asNumber with
  | none =>
    have hfalse : ¬WithinCurrent maximum v := by
      rintro ⟨n, hn, -⟩
      rw [hv] at hn
      cases hn
    refine ⟨fun hbeyond => ?_, fun _ => ⟨.deny (.currentNotFinite label), ?_, rfl, ?_⟩⟩
    -- a value that is no number is not beyond the range either
    · cases v <;> simp_all [Json.asNumber, Json.beyondFloat]
    · rw [validateCurrent, hv]
    · simp [hfalse]
  | some n =>
    rcases Json.asNumber_eq_some hv with ⟨i, rfl, rfl⟩ | ⟨x, rfl, rfl⟩
    · refine ⟨fun hbeyond => ?_, fun hrange => ?_⟩
      · have hlarge : ¬i.natAbs < floatLimit := by
          rw [Json.beyondFloat, decide_eq_true_eq] at hbeyond
          omega
        -- `math.isfinite` raises
        simp [validateCurrent, Json.asNumber, mathIsFinite, hlarge, bind, Except.bind]
      · have hsmall : i.natAbs < floatLimit := by
          rw [Json.beyondFloat, decide_eq_false_iff_not] at hrange
          omega
        exact validateCurrent_finite hv (by simp [finite, mathIsFinite, hsmall])
    · refine ⟨fun hbeyond => (by cases hbeyond), fun _ => ?_⟩
      cases hx : x.isFinite with
      | true => exact validateCurrent_finite hv (by simp [finite, mathIsFinite, hx])
      | false =>
        -- an infinity or a NaN is refused before it is compared
        refine ⟨.deny (.currentNotFinite label), ?_, rfl, ?_⟩
        · simp [validateCurrent, Json.asNumber, mathIsFinite, hx, bind, Except.bind, pure,
            Except.pure]
        · have hfalse : ¬WithinCurrent maximum (.float x) := by
            rintro ⟨n, hn, hfinite, -⟩
            obtain rfl := Option.some.inj hn
            simp [finite, mathIsFinite, hx] at hfinite
          simp [hfalse]

/-- The limits of the state of charge have a text. -/
theorem pyStr_socLimit (cfg : SafetyConfig) :
    (pyStr cfg.minSocLimit).isSome = true ∧ (pyStr cfg.maxSocLimit).isSome = true := by
  have hlow := cfg.minSocLimit_nonneg
  have hhigh := cfg.maxSocLimit_le
  have horder := cfg.socLimit_ordered
  have hdigits : 100 < 10 ^ maxStrDigits := by decide +kernel
  rw [pyStr_isSome, pyStr_isSome]
  exact ⟨by omega, by omega⟩

/-- The check of a state of charge fails only to write the number it denies. -/
theorem validateSocLimit_spec (cfg : SafetyConfig) (v : Json) :
    ((validateSocLimit cfg v).allowed = true ↔ WithinSoc cfg v) ∧
      ((validateSocLimit cfg v).printable = true ↔ ∀ n, v = .int n → (pyStr n).isSome = true) := by
  -- both limits of an accepted policy can be written
  obtain ⟨hmin, hmax⟩ := pyStr_socLimit cfg
  cases v with
  | int n =>
    have hdigits : cfg.maxSocLimit.natAbs < 10 ^ maxStrDigits := pyStr_isSome.mp hmax
    have hlow := cfg.minSocLimit_nonneg
    simp only [validateSocLimit, WithinSoc, Json.int.injEq, exists_eq_left', forall_eq']
    split
    · rename_i hbelow
      refine ⟨by simp; omega, ?_⟩
      show ((Denial.socBelow n cfg.minSocLimit).printable && true) = true ↔ _
      rw [Denial.printable, hmin, Bool.and_true, Bool.and_true]
    · split
      · rename_i habove
        refine ⟨by simp; omega, ?_⟩
        show ((Denial.socAbove n cfg.maxSocLimit).printable && true) = true ↔ _
        rw [Denial.printable, hmax, Bool.and_true, Bool.and_true]
      · refine ⟨by simp; omega, ?_⟩
        -- between limits that can be written, an integer can be written
        have hsmall : (pyStr n).isSome = true := by
          rw [pyStr_isSome]
          omega
        simp only [hsmall, iff_true]
        rfl
  | _ => simp [validateSocLimit, WithinSoc, SafetyCheckResult.printable, SafetyCheckResult.deny,
      Denial.printable]

/-! ## The order of the checks -/

/-- A check comes to a result, and the result can be written. -/
def GateReturns (x : Except PyError SafetyCheckResult) : Prop :=
  ∃ r, x = .ok r ∧ r.printable = true

theorem writeVerdict_eq_ok {search : Search} {cfg : SafetyConfig} {operation : String}
    {params : Params} {confirmed : Bool} {dbusPath : Option String} {r : SafetyCheckResult} :
    writeVerdict search cfg operation params confirmed dbusPath = .ok r ↔
      validateWriteOperation search cfg operation params confirmed dbusPath = .ok r ∧
        r.printable = true := by
  rw [writeVerdict]
  cases validateWriteOperation search cfg operation params confirmed dbusPath with
  | error e => simp [bind, Except.bind]
  | ok r' =>
    show r'.written = .ok r ↔ _
    rw [SafetyCheckResult.written]
    split
    · rename_i hprintable
      simp only [Except.ok.injEq]
      exact ⟨fun h => ⟨h, h ▸ hprintable⟩, And.left⟩
    · rename_i hprintable
      simp only [Except.ok.injEq, reduceCtorEq, false_iff, not_and]
      exact fun h => h ▸ hprintable

section Order

variable {k : Except PyError SafetyCheckResult}

/-- A denial ends the sequence of checks. -/
theorem returns_check {x : Except PyError SafetyCheckResult} :
    GateReturns (x >>= fun result => if (!result.allowed) = true then pure result else k) ↔
      ∃ r, x = .ok r ∧ (r.allowed = false → r.printable = true) ∧
        (r.allowed = true → GateReturns k) := by
  cases x with
  | error e => simp [GateReturns, bind, Except.bind]
  | ok r =>
    show GateReturns (if (!r.allowed) = true then .ok r else k) ↔ _
    cases hr : r.allowed with
    | true => simp [hr]
    | false => simp [hr, GateReturns]

/-- A check on a parameter that fails outside `Reads` and allows what is `Within`. -/
theorem returns_checkParam {params : Params} {key : String}
    {check : Json → Except PyError SafetyCheckResult} {Reads Within : Json → Prop}
    (hreads : ∀ v, Reads v ↔ ∃ r, check v = .ok r ∧ (r.allowed = false → r.printable = true))
    (hwithin : ∀ v r, check v = .ok r → (r.allowed = true ↔ Within v)) :
    GateReturns (checkParam params key check >>=
        fun result => if (!result.allowed) = true then pure result else k) ↔
      (∀ v, params.lookup key = some v → Reads v) ∧
        ((∀ v, params.lookup key = some v → Within v) → GateReturns k) := by
  rw [returns_check, checkParam]
  cases params.lookup key with
  | none => simp
  | some v =>
    simp only [Option.some.injEq, forall_eq', hreads]
    constructor
    · rintro ⟨r, hr, hprintable, hk⟩
      exact ⟨⟨r, hr, hprintable⟩, fun h => hk ((hwithin v r hr).mpr h)⟩
    · rintro ⟨⟨r, hr, hprintable⟩, hk⟩
      exact ⟨r, hr, hprintable, fun h => hk ((hwithin v r hr).mp h)⟩

theorem returns_currentParam {params : Params} (key label : String) (maximum : ℚ) :
    GateReturns (checkParam params key (validateCurrent label maximum) >>=
        fun result => if (!result.allowed) = true then pure result else k) ↔
      (∀ v, params.lookup key = some v → v.beyondFloat = false) ∧
        ((∀ v, params.lookup key = some v → WithinCurrent maximum v) → GateReturns k) := by
  refine returns_checkParam (fun v => ?_) (fun v r hr => ?_)
  · obtain ⟨hbeyond, hrange⟩ := validateCurrent_spec label maximum v
    cases hv : v.beyondFloat with
    | true => simp [hbeyond hv]
    | false =>
      obtain ⟨r, hr, hprintable, -⟩ := hrange hv
      exact ⟨fun _ => ⟨r, hr, fun _ => hprintable⟩, fun _ => rfl⟩
  · obtain ⟨hbeyond, hrange⟩ := validateCurrent_spec label maximum v
    cases hv : v.beyondFloat with
    | true =>
      rw [hbeyond hv] at hr
      cases hr
    | false =>
      obtain ⟨r', hr', -, hallowed⟩ := hrange hv
      obtain rfl := Except.ok.inj (hr.symm.trans hr')
      exact hallowed

theorem returns_socParam {params : Params} (cfg : SafetyConfig) :
    GateReturns (checkParam params "soc_limit" (fun v => .ok (validateSocLimit cfg v)) >>=
        fun result => if (!result.allowed) = true then pure result else k) ↔
      (∀ n, params.lookup "soc_limit" = some (.int n) → (pyStr n).isSome = true) ∧
        ((∀ v, params.lookup "soc_limit" = some v → WithinSoc cfg v) → GateReturns k) := by
  have hreads : ∀ v, (∀ n, v = .int n → (pyStr n).isSome = true) ↔
      ∃ r, Except.ok (ε := PyError) (validateSocLimit cfg v) = .ok r ∧
        (r.allowed = false → r.printable = true) := by
    intro v
    obtain ⟨hallowed, hprintable⟩ := validateSocLimit_spec cfg v
    simp only [Except.ok.injEq, exists_eq_left', ← hprintable]
    refine ⟨fun h _ => h, fun h => ?_⟩
    cases hv : (validateSocLimit cfg v).allowed with
    | false => exact h hv
    | true =>
      -- what is allowed lies within the limits and has no message
      obtain ⟨n, rfl, hlow, hhigh⟩ := hallowed.mp hv
      have hmax := pyStr_isSome.mp (pyStr_socLimit cfg).2
      have hmin := cfg.minSocLimit_nonneg
      refine hprintable.mpr fun m hm => ?_
      obtain rfl := Json.int.inj hm
      rw [pyStr_isSome]
      omega
  refine (returns_checkParam hreads fun v r hr => ?_).trans (and_congr_left fun _ => ?_)
  · rw [← Except.ok.inj hr]
    exact (validateSocLimit_spec cfg v).1
  · exact ⟨fun h n hn => h _ hn n rfl, fun h v hv n hn => h n (hv.trans (congrArg some hn))⟩

theorem returns_modeParam {params : Params} (cfg : SafetyConfig) :
    GateReturns (checkParam params "mode" (fun v => .ok (validateMode cfg v)) >>=
        fun result => if (!result.allowed) = true then pure result else k) ↔
      (∀ v, params.lookup "mode" = some v → (validateMode cfg v).allowed = true ∨
        v.printable = true) ∧
      ((∀ v, params.lookup "mode" = some v → (validateMode cfg v).allowed = true) →
        GateReturns k) := by
  refine returns_checkParam (fun v => ?_) fun v r hr => by rw [← Except.ok.inj hr]
  -- the message of a denied mode shows the mode
  have hprintable : (validateMode cfg v).allowed = false →
      (validateMode cfg v).printable = v.printable := by
    intro hdenied
    have hdeny : (SafetyCheckResult.deny (.modeNotAllowed v cfg.allowedModes)).printable =
        v.printable := Bool.and_true _
    cases v with
    | str m =>
      rw [validateMode] at hdenied ⊢
      split at hdenied
      · cases hdenied
      · rename_i hmode
        rw [if_neg hmode, hdeny]
    | _ => exact hdeny
  simp only [Except.ok.injEq, exists_eq_left']
  cases hv : (validateMode cfg v).allowed with
  | true => simp
  | false => simp [hprintable hv]

/-- A message about a path or a pattern can always be written. -/
theorem validateWritePath_printable (cfg : SafetyConfig) (operation : String)
    (dbusPath : Option String) : (validateWritePath cfg operation dbusPath).printable = true := by
  rw [validateWritePath]
  split
  · rfl
  · split
    · rfl
    · split <;> rfl

theorem validateSshCommand_printable {search : Search} {command : Json}
    {patterns : List String} {r : SafetyCheckResult}
    (h : validateSshCommand search command patterns = .ok r) : r.printable = true := by
  induction patterns with
  | nil =>
    rw [← Except.ok.inj h]
    rfl
  | cons pattern patterns ih =>
    rw [validateSshCommand] at h
    cases hs : searchParam search pattern command with
    | error e =>
      rw [hs] at h
      cases h
    | ok found =>
      rw [hs] at h
      cases found with
      | true =>
        rw [← Except.ok.inj h]
        rfl
      | false => exact ih h

/-- A confirmation message shows the parameters. -/
def Confirmable (cfg : SafetyConfig) (params : Params) (confirmed : Bool) : Prop :=
  cfg.requireConfirmation = true → confirmed = false → Json.fieldsPrintable params = true

/-- The checks after those of the numbers: the mode, the SSH command, the confirmation. -/
def LaterReturn (search : Search) (cfg : SafetyConfig) (operation : String) (params : Params)
    (confirmed : Bool) : Prop :=
  (∀ v, params.lookup "mode" = some v → (validateMode cfg v).allowed = true ∨
    v.printable = true) ∧
  ((∀ v, params.lookup "mode" = some v → (validateMode cfg v).allowed = true) →
    if operation = "cerbo_ssh_exec" then
      ∃ r, validateSshCommand search (commandParam params) cfg.sshCommandDenyPatterns = .ok r ∧
        (r.allowed = true → Confirmable cfg params confirmed)
    else Confirmable cfg params confirmed)

/-- The numbers, in the order of their checks: none of those reached is a current
    beyond the float range or a state of charge beyond the digits of a text. -/
def NumbersReturn (cfg : SafetyConfig) (params : Params) (later : Prop) : Prop :=
  (∀ v, params.lookup "charge_current" = some v → v.beyondFloat = false) ∧
  ((∀ v, params.lookup "charge_current" = some v → WithinCurrent cfg.maxChargeCurrent v) →
    (∀ v, params.lookup "discharge_current" = some v → v.beyondFloat = false) ∧
    ((∀ v, params.lookup "discharge_current" = some v →
        WithinCurrent cfg.maxDischargeCurrent v) →
      (∀ n, params.lookup "soc_limit" = some (.int n) → (pyStr n).isSome = true) ∧
      ((∀ v, params.lookup "soc_limit" = some v → WithinSoc cfg v) → later)))

theorem returns_confirmation {cfg : SafetyConfig} {operation : String} {params : Params}
    {confirmed : Bool} :
    GateReturns (if (cfg.requireConfirmation && !confirmed) = true then
        pure { allowed := false, requiresConfirmation := true,
               confirmation := some (operation, params), reason := some .confirmationRequired }
      else pure .ok) ↔ Confirmable cfg params confirmed := by
  rw [Confirmable]
  cases cfg.requireConfirmation with
  | false => exact ⟨fun _ h => (nomatch h), fun _ => ⟨_, rfl, rfl⟩⟩
  | true =>
    cases confirmed with
    | true => exact ⟨fun _ _ h => (nomatch h), fun _ => ⟨_, rfl, rfl⟩⟩
    | false =>
      constructor
      · rintro ⟨r, hr, hprintable⟩ - -
        rw [← Except.ok.inj hr] at hprintable
        exact hprintable
      · exact fun h => ⟨_, rfl, h rfl rfl⟩

theorem returns_later (search : Search) (cfg : SafetyConfig) (operation : String)
    (params : Params) (confirmed : Bool) :
    GateReturns (do
      let result ← checkParam params "mode" fun v => .ok (validateMode cfg v)
      if !result.allowed then return result
      if operation = "cerbo_ssh_exec" then
        let result ← validateSshCommand search (commandParam params) cfg.sshCommandDenyPatterns
        if !result.allowed then return result
      if cfg.requireConfirmation && !confirmed then
        return { allowed := false, requiresConfirmation := true,
                 confirmation := some (operation, params), reason := some .confirmationRequired }
      return .ok) ↔ LaterReturn search cfg operation params confirmed := by
  refine (returns_modeParam cfg).trans (and_congr_right fun _ => imp_congr_right fun _ => ?_)
  -- only `cerbo_ssh_exec` has a command to check
  by_cases hop : operation = "cerbo_ssh_exec"
  · rw [if_pos hop, if_pos hop]
    refine returns_check.trans ?_
    simp only [returns_confirmation]
    constructor
    · rintro ⟨r, hr, -, hlater⟩
      exact ⟨r, hr, hlater⟩
    · rintro ⟨r, hr, hlater⟩
      exact ⟨r, hr, fun _ => validateSshCommand_printable hr, hlater⟩
  · rw [if_neg hop, if_neg hop]
    exact returns_confirmation

/-- The three checks on numbers, before whatever follows them. -/
theorem returns_numbers (cfg : SafetyConfig) (params : Params) :
    GateReturns (do
      let result ← checkParam params "charge_current" (validateChargeCurrent cfg)
      if !result.allowed then return result
      let result ← checkParam params "discharge_current" (validateDischargeCurrent cfg)
      if !result.allowed then return result
      let result ← checkParam params "soc_limit" fun v => .ok (validateSocLimit cfg v)
      if !result.allowed then return result
      k) ↔ NumbersReturn cfg params (GateReturns k) := by
  refine (returns_currentParam "charge_current" "Charge" cfg.maxChargeCurrent).trans
    (and_congr_right fun _ => imp_congr_right fun _ => ?_)
  refine (returns_currentParam "discharge_current" "Discharge" cfg.maxDischargeCurrent).trans
    (and_congr_right fun _ => imp_congr_right fun _ => ?_)
  exact returns_socParam cfg

theorem numbersReturn_congr {cfg : SafetyConfig} {params : Params} {p q : Prop} (h : p ↔ q) :
    NumbersReturn cfg params p ↔ NumbersReturn cfg params q := by
  rw [h]

/-- When the gate returns. -/
theorem returns_validateWriteOperation {search : Search} {cfg : SafetyConfig}
    (hwrites : cfg.enableWrites = true) {operation : String} {params : Params} {confirmed : Bool}
    {dbusPath : Option String} :
    GateReturns (validateWriteOperation search cfg operation params confirmed dbusPath) ↔
      (operation ≠ "cerbo_ssh_exec" ∧
        (validateWritePath cfg operation dbusPath).allowed = false) ∨
      NumbersReturn cfg params (LaterReturn search cfg operation params confirmed) := by
  have hnumbers := (returns_numbers cfg params).trans
    (numbersReturn_congr (returns_later search cfg operation params confirmed))
  rw [validateWriteOperation, hwrites, Bool.not_true, if_neg Bool.false_ne_true]
  -- `cerbo_ssh_exec` writes no path
  by_cases hop : operation = "cerbo_ssh_exec"
  · rw [if_neg (not_not.mpr hop)]
    refine hnumbers.trans ⟨.inr, fun h => h.resolve_left fun hpath => hpath.1 hop⟩
  · rw [if_pos hop]
    refine (returns_check (x := .ok (validateWritePath cfg operation dbusPath))).trans ?_
    have hprintable := validateWritePath_printable cfg operation dbusPath
    constructor
    · rintro ⟨r, hr, -, hrest⟩
      obtain rfl := Except.ok.inj hr
      cases hpath : (validateWritePath cfg operation dbusPath).allowed with
      | false => exact .inl ⟨hop, rfl⟩
      | true => exact .inr (hnumbers.mp (hrest hpath))
    · rintro (⟨-, hdenied⟩ | hreturn)
      · refine ⟨_, rfl, fun _ => hprintable, fun hallowed => ?_⟩
        rw [hdenied] at hallowed
        cases hallowed
      · exact ⟨_, rfl, fun _ => hprintable, fun _ => hnumbers.mpr hreturn⟩

end Order

/-! ## What is allowed -/

/-- The parameters that are numbers. -/
def numberParams : List String := ["charge_current", "discharge_current", "soc_limit"]

/-- Each number among the parameters is within its limits, and finite. -/
structure NumbersWithin (cfg : SafetyConfig) (params : Params) : Prop where
  charge : ∀ v, params.lookup "charge_current" = some v → WithinCurrent cfg.maxChargeCurrent v
  discharge : ∀ v, params.lookup "discharge_current" = some v →
    WithinCurrent cfg.maxDischargeCurrent v
  soc : ∀ v, params.lookup "soc_limit" = some v → WithinSoc cfg v

/-- An integer within the limits of the state of charge is a finite number. -/
theorem WithinSoc.finite {cfg : SafetyConfig} {v : Json} (h : WithinSoc cfg v) :
    ∃ n, v.asNumber = some n ∧ finite n = true := by
  obtain ⟨n, rfl, hlow, hhigh⟩ := h
  have hmin := cfg.minSocLimit_nonneg
  have hmax := cfg.maxSocLimit_le
  have hlimit : 100 < floatLimit := by decide +kernel
  have hsmall : n.natAbs < floatLimit := by omega
  exact ⟨.int n, rfl, by simp [McpVenusOs.finite, mathIsFinite, hsmall]⟩

theorem NumbersWithin.finite {cfg : SafetyConfig} {params : Params} (h : NumbersWithin cfg params)
    {key : String} (hkey : key ∈ numberParams) {v : Json} (hv : params.lookup key = some v) :
    ∃ n, v.asNumber = some n ∧ finite n = true := by
  simp only [numberParams, List.mem_cons, List.not_mem_nil, or_false] at hkey
  rcases hkey with rfl | rfl | rfl
  · obtain ⟨n, hn, hfinite, -⟩ := h.charge v hv
    exact ⟨n, hn, hfinite⟩
  · obtain ⟨n, hn, hfinite, -⟩ := h.discharge v hv
    exact ⟨n, hn, hfinite⟩
  · exact (h.soc v hv).finite

/-- A parameter whose check allowed it. -/
theorem within_of_checkParam {params : Params} {key label : String} {maximum : ℚ}
    (h : ∃ r, checkParam params key (validateCurrent label maximum) = .ok r ∧ r.allowed = true) :
    ∀ v, params.lookup key = some v → WithinCurrent maximum v := by
  obtain ⟨r, hr, hallowed⟩ := h
  intro v hv
  rw [checkParam, hv] at hr
  exact validateCurrent_allowed hr hallowed

theorem numbersWithin_of_checks {cfg : SafetyConfig} {params : Params}
    {k : Except PyError SafetyCheckResult} {r : SafetyCheckResult}
    (h : (do
      let result ← checkParam params "charge_current" (validateChargeCurrent cfg)
      if !result.allowed then return result
      let result ← checkParam params "discharge_current" (validateDischargeCurrent cfg)
      if !result.allowed then return result
      let result ← checkParam params "soc_limit" fun v => .ok (validateSocLimit cfg v)
      if !result.allowed then return result
      k) = .ok r) (hr : r.allowed = true) : NumbersWithin cfg params := by
  obtain ⟨hcharge, hafter⟩ := allowed_of_check h hr
  obtain ⟨hdischarge, hlast⟩ := allowed_of_check hafter hr
  obtain ⟨⟨r', hr', hallowed⟩, -⟩ := allowed_of_check hlast hr
  refine ⟨within_of_checkParam hcharge, within_of_checkParam hdischarge, fun v hv => ?_⟩
  rw [checkParam, hv] at hr'
  rw [← Except.ok.inj hr'] at hallowed
  exact validateSocLimit_allowed hallowed

/-- What the gate allows is within the limits. -/
theorem numbersWithin_of_allowed {search : Search} {cfg : SafetyConfig} {operation : String}
    {params : Params} {confirmed : Bool} {dbusPath : Option String} {r : SafetyCheckResult}
    (h : validateWriteOperation search cfg operation params confirmed dbusPath = .ok r)
    (hr : r.allowed = true) : NumbersWithin cfg params := by
  rw [validateWriteOperation] at h
  by_cases hwrites : (!cfg.enableWrites) = true
  · rw [if_pos hwrites] at h
    rw [← Except.ok.inj h] at hr
    cases hr
  · rw [if_neg hwrites] at h
    by_cases hop : operation = "cerbo_ssh_exec"
    · rw [if_neg (not_not.mpr hop)] at h
      exact numbersWithin_of_checks h hr
    · rw [if_pos hop] at h
      obtain ⟨-, hrest⟩ :=
        allowed_of_check (x := .ok (validateWritePath cfg operation dbusPath)) h hr
      exact numbersWithin_of_checks hrest hr

/-! ## The hardware gate -/

/-- `validate_hardware_write` refuses the value, for being no finite number. -/
def NotFiniteForHardware (v : Json) : Prop :=
  ∃ (contracts : List HardwareWriteContract) (portalId : Option String) (deviceType : String)
    (inst : Int) (path : String) (semanticMode : Option String) (read : Read Id) (maxAge : PyNum),
    validateHardwareWrite contracts portalId deviceType inst path v semanticMode read maxAge =
      .error "Contract requires a finite numeric hardware value"

/-- No fault of the identity is reported under that text. -/
theorem checkIdentity_text {read : Read Id} {maxAge : PyNum} {probes : List IdentityProbe} :
    checkIdentity read maxAge probes ≠
      some "Contract requires a finite numeric hardware value" := by
  induction probes with
  | nil =>
    intro h
    cases h
  | cons p probes ih =>
    -- no fault of a probe has this text
    have hfault : probeFault maxAge p (read p.deviceType p.inst p.path) ≠
        some "Contract requires a finite numeric hardware value" := by
      rw [probeFault.eq_def]
      generalize p.role = role
      split
      · cases role <;> decide
      · split
        · intro h
          cases h
        · cases role <;> decide
    -- one round of the loop
    cases hprobe : probeFault maxAge p (read p.deviceType p.inst p.path) with
    | none =>
      have hnext : checkIdentity read maxAge (p :: probes) = checkIdentity read maxAge probes := by
        simp only [checkIdentity, bind, hprobe]
      rwa [hnext]
    | some reason =>
      have hstop : checkIdentity read maxAge (p :: probes) = some reason := by
        simp only [checkIdentity, bind, hprobe, pure]
      rwa [hstop, ← hprobe]

theorem checkValue_text {c : HardwareWriteContract} {path : String} {v : Json}
    {semanticMode : Option String} {n : PyNum} (hn : v.asNumber = some n)
    (hfinite : finite n = true) :
    checkValue c path v semanticMode ≠
      .error "Contract requires a finite numeric hardware value" := by
  have hnumber : PyObject.asNumber v = some n := hn
  have htexts : "Mode meaning/code has not been qualified for this hardware contract" ≠
      "Contract requires a finite numeric hardware value" ∧
      "Value is outside the hardware-qualified range" ≠
        "Contract requires a finite numeric hardware value" := by decide
  rw [checkValue, hnumber]
  simp only [hfinite, Bool.not_true, Bool.false_eq_true, if_false]
  split
  · split
    · split
      · exact fun h => nomatch h
      · exact fun h => htexts.1 (Except.error.inj h)
    · exact fun h => htexts.1 (Except.error.inj h)
  · split
    · split
      · exact fun h => nomatch h
      · exact fun h => htexts.2 (Except.error.inj h)
    · exact fun h => htexts.2 (Except.error.inj h)

/-- The two modules mean the same numbers. -/
theorem NotFiniteForHardware.not_finite {v : Json} (h : NotFiniteForHardware v) :
    ¬∃ n, v.asNumber = some n ∧ finite n = true := by
  rintro ⟨n, hn, hfinite⟩
  obtain ⟨contracts, portalId, deviceType, inst, path, semanticMode, read, maxAge, hrefused⟩ := h
  rw [validateHardwareWrite] at hrefused
  split at hrefused
  · rename_i contract _
    split at hrefused
    · exact absurd (Except.error.inj hrefused) (by decide)
    · change (match checkIdentity read maxAge contract.identity with
        | some reason => Except.error reason
        | none => checkValue contract path v semanticMode) = _ at hrefused
      cases hid : checkIdentity read maxAge contract.identity with
      | some reason =>
        rw [hid] at hrefused
        exact checkIdentity_text (hid.trans (congrArg some (Except.error.inj hrefused)))
      | none =>
        rw [hid] at hrefused
        exact checkValue_text hn hfinite hrefused
  · exact absurd (Except.error.inj hrefused) (by decide)

/-! ## Both gates -/

/-- The gate comes to a verdict, allows only numbers within their limits, and denies
    whatever the hardware gate refuses as no finite number. -/
def Gated (search : Search) (cfg : SafetyConfig) (operation : String) (params : Params)
    (confirmed : Bool) (dbusPath : Option String) : Prop :=
  ∃ r, writeVerdict search cfg operation params confirmed dbusPath = .ok r ∧
    (r.allowed = true → NumbersWithin cfg params) ∧
    ∀ key ∈ numberParams, ∀ v, params.lookup key = some v → NotFiniteForHardware v →
      r.allowed = false

/-- A verdict is all that can be missing. -/
theorem gated_iff_returns {search : Search} {cfg : SafetyConfig} {operation : String}
    {params : Params} {confirmed : Bool} {dbusPath : Option String} :
    Gated search cfg operation params confirmed dbusPath ↔
      GateReturns (validateWriteOperation search cfg operation params confirmed dbusPath) := by
  constructor
  · rintro ⟨r, hr, -⟩
    exact ⟨r, writeVerdict_eq_ok.mp hr⟩
  · rintro ⟨r, hr, hprintable⟩
    have hwithin : r.allowed = true → NumbersWithin cfg params := numbersWithin_of_allowed hr
    refine ⟨r, writeVerdict_eq_ok.mpr ⟨hr, hprintable⟩, hwithin, ?_⟩
    intro key hkey v hv hrefused
    by_contra hallowed
    rw [Bool.not_eq_false] at hallowed
    exact hrefused.not_finite ((hwithin hallowed).finite hkey hv)

/-- The gates agree on every number, except that no verdict is reached on a current
    beyond the float range, and on a state of charge or a parameter to be confirmed
    whose text is too long. -/
theorem numeric_gates_agree (search : Search) (cfg : SafetyConfig)
    (hwrites : cfg.enableWrites = true) (operation : String) (params : Params) (confirmed : Bool)
    (dbusPath : Option String) :
    Gated search cfg operation params confirmed dbusPath ↔
      (operation ≠ "cerbo_ssh_exec" ∧
        (validateWritePath cfg operation dbusPath).allowed = false) ∨
      NumbersReturn cfg params (LaterReturn search cfg operation params confirmed) :=
  gated_iff_returns.trans (returns_validateWriteOperation hwrites)

/-! ## Numbers nobody tries -/

def numericPolicy : SafetyConfig := { SafetyConfig.default with enableWrites := true }

theorem numeric_gates_agree_fifty :
    Gated (fun _ _ => .ok false) numericPolicy "set_charge_current_limit"
      [("charge_current", .int 50), ("instance", .int 256)] true
      (some "Dc/0/MaxChargeCurrent") := by
  refine (numeric_gates_agree _ numericPolicy rfl _ _ _ _).mpr (.inr ?_)
  refine ⟨fun v hv => ?_, fun _ => ⟨fun v hv => ?_, fun _ => ⟨fun n hn => ?_, fun _ => ?_⟩⟩⟩
  · obtain rfl := Option.some.inj hv
    decide +kernel
  · cases hv
  · cases hn
  · exact ⟨fun v hv => (nomatch hv), fun _ _ hconfirmed => (nomatch hconfirmed)⟩

/-- `math.isfinite` overflows on a current of 10 ^ 400, and a state of charge of
    10 ^ 4300 is too long for the message that denies it. -/
theorem huge_numbers_raise :
    (¬Gated (fun _ _ => .ok false) numericPolicy "set_charge_current_limit"
      [("charge_current", .int (10 ^ 400 : Nat))] true (some "Dc/0/MaxChargeCurrent")) ∧
    ¬Gated (fun _ _ => .ok false) numericPolicy "set_soc_limit"
      [("soc_limit", .int (10 ^ maxStrDigits : Nat))] true (some "SocLimit") := by
  -- both writes get past the allowlist, to the checks of the numbers
  have hpaths : (validateWritePath numericPolicy "set_charge_current_limit"
        (some "Dc/0/MaxChargeCurrent")).allowed = true ∧
      (validateWritePath numericPolicy "set_soc_limit" (some "SocLimit")).allowed = true := by
    decide
  constructor
  -- `math.isfinite` raises
  · intro h
    rcases (returns_validateWriteOperation rfl).mp (gated_iff_returns.mp h) with hdenied | hreturn
    · rw [hpaths.1] at hdenied
      exact absurd hdenied.2 (by decide)
    · have hrange := hreturn.1 _ rfl
      rw [Json.beyondFloat, Int.natAbs_natCast] at hrange
      exact absurd hrange (by decide +kernel)
  -- the text of the denial raises
  · intro h
    rcases (returns_validateWriteOperation rfl).mp (gated_iff_returns.mp h) with hdenied | hreturn
    · rw [hpaths.2] at hdenied
      exact absurd hdenied.2 (by decide)
    · have htext :=
        ((hreturn.2 fun v hv => by cases hv).2 fun v hv => by cases hv).1 _ rfl
      rw [pyStr_isSome, Int.natAbs_natCast] at htext
      exact absurd htext (lt_irrefl _)

end McpVenusOs
