/-
  McpVenusOs.HardwareContracts

  `hardware_contracts.py`: the reviewed, target-specific write contracts and
  `validate_hardware_write`, the check every control write passes before and
  after it is published.

  `validateHardwareWrite` is generic in the monad of its `read` argument: with
  `Id` it reads one snapshot, with `Program` every probe is read at a moment of
  its own.  A contract list in the configuration is a list of `Accepted`
  contracts, so `validScope` and the field patterns need not be re-checked.
-/

import Mathlib.Data.List.Perm.Subperm
import McpVenusOs.Lib.PyValue

namespace McpVenusOs

open Py

/-! ## The schema -/

inductive Role
  | venusFirmware
  | targetProduct
  | targetFirmware
  | bmsProduct
  | bmsFirmware
  deriving DecidableEq, Repr

namespace Role

def all : List Role := [venusFirmware, targetProduct, targetFirmware, bmsProduct, bmsFirmware]

def name : Role → String
  | venusFirmware => "venus_firmware"
  | targetProduct => "target_product"
  | targetFirmware => "target_firmware"
  | bmsProduct => "bms_product"
  | bmsFirmware => "bms_firmware"

/-- `role.startswith("target_")`. -/
def isTarget : Role → Bool
  | targetProduct | targetFirmware => true
  | _ => false

/-- `role.startswith("bms_")`. -/
def isBms : Role → Bool
  | bmsProduct | bmsFirmware => true
  | _ => false

end Role

/-- `str | StrictInt`. -/
inductive Expected
  | str (s : String)
  | int (n : Int)
  deriving DecidableEq

/-- `type(observed) is type(expected) and observed == expected`. -/
def Expected.matches : Expected → Json → Bool
  | .str s, .str t => s = t
  | .int n, .int m => n = m
  | _, _ => false

/-- An exact identity value observed during device qualification. -/
structure IdentityProbe where
  role : Role
  deviceType : String
  inst : Int
  path : String
  expected : Expected
  deriving DecidableEq

inductive ContractDevice
  | vebus
  | battery
  deriving DecidableEq

def ContractDevice.name : ContractDevice → String
  | vebus => "vebus"
  | battery => "battery"

inductive ContractPath
  | mode
  | maxChargeCurrent
  | socLimit
  deriving DecidableEq

def ContractPath.name : ContractPath → String
  | mode => "Mode"
  | maxChargeCurrent => "Dc/0/MaxChargeCurrent"
  | socLimit => "SocLimit"

inductive ContractUnit
  | mode
  | ampere
  | percent
  deriving DecidableEq

def ContractUnit.name : ContractUnit → String
  | mode => "mode"
  | ampere => "ampere"
  | percent => "percent"

/-- Operator-reviewed semantics for one portal, device instance and path. -/
structure HardwareWriteContract where
  contractId : String
  portalId : String
  deviceType : ContractDevice
  inst : Int
  path : ContractPath
  identity : List IdentityProbe
  reviewedBy : String
  evidenceSha256 : String
  semantics : String
  modeCodes : List (String × Int)
  unit : ContractUnit
  minimum : Option PyNum
  maximum : Option PyNum
  deriving DecidableEq

/-- `_finite`: JSON integers may exceed the floating-point range. -/
def finite (value : PyNum) : Bool :=
  match mathIsFinite value with
  | .ok b => b
  | .error _ => false

/-! ### Field patterns -/

def isLower (c : Char) : Bool := 'a' ≤ c && c ≤ 'z'

def isAlnum (c : Char) : Bool := isLower c || ('A' ≤ c && c ≤ 'Z') || ('0' ≤ c && c ≤ '9')

/-- `^[a-z][a-z0-9_]*$` -/
def deviceTypePattern (s : String) : Bool :=
  match s.toList with
  | [] => false
  | c :: cs => isLower c && cs.all fun c => isLower c || ('0' ≤ c && c ≤ '9') || c = '_'

/-- `^[A-Za-z0-9_]+(?:/[A-Za-z0-9_]+)*$` -/
def pathPattern (s : String) : Bool :=
  (s.toList.splitOn '/').all fun seg => !seg.isEmpty && seg.all fun c => isAlnum c || c = '_'

/-- `^[A-Za-z0-9_-]+$` -/
def portalIdPattern (s : String) : Bool :=
  !s.toList.isEmpty && s.toList.all fun c => isAlnum c || c = '_' || c = '-'

/-- `^[A-Za-z0-9][A-Za-z0-9_.-]{0,79}$` -/
def contractIdPattern (s : String) : Bool :=
  match s.toList with
  | [] => false
  | c :: cs => isAlnum c && decide (cs.length ≤ 79) &&
      cs.all fun c => isAlnum c || c = '_' || c = '.' || c = '-'

/-- `^[0-9a-f]{64}$` -/
def sha256Pattern (s : String) : Bool :=
  s.toList.length = 64 && s.toList.all fun c => ('0' ≤ c && c ≤ '9') || ('a' ≤ c && c ≤ 'f')

/-! ### `validate_scope` -/

namespace HardwareWriteContract

/-- The numeric bounds of a contract that is not a mode contract. -/
def validBounds (c : HardwareWriteContract) : Bool :=
  match c.minimum, c.maximum with
  | some lo, some hi =>
    finite lo && finite hi && PyNum.le (.int 0) lo && PyNum.le lo hi &&
      (c.unit ≠ .percent || PyNum.le hi (.int 100))
  | _, _ => false

/-- No wildcard identities, partially specified bounds or unrelated target probes. -/
def validScope (c : HardwareWriteContract) : Bool :=
  Role.all.all (fun r => r ∈ c.identity.map IdentityProbe.role) &&
  (c.identity.filter fun p => p.role.isTarget).all
    (fun p => p.deviceType = c.deviceType.name && p.inst = c.inst) &&
  (c.identity.filter fun p => p.role.isBms).all (fun p => p.deviceType = "battery") &&
  if c.path = .mode then
    c.deviceType = .vebus && c.unit = .mode && !c.modeCodes.isEmpty &&
      c.minimum.isNone && c.maximum.isNone
  else
    let expected := if c.path = .socLimit then (ContractDevice.battery, ContractUnit.percent)
      else (.vebus, .ampere)
    c.deviceType = expected.1 && c.unit = expected.2 && c.modeCodes.isEmpty && c.validBounds

/-- What the schema accepts: field patterns, lengths and `validate_scope`. -/
structure Accepted (c : HardwareWriteContract) : Prop where
  contractId : contractIdPattern c.contractId = true
  portalId : portalIdPattern c.portalId = true
  inst : 0 ≤ c.inst
  identity_length : c.identity.length = 5
  probes : ∀ p ∈ c.identity,
    deviceTypePattern p.deviceType = true ∧ 0 ≤ p.inst ∧ pathPattern p.path = true
  reviewedBy : 1 ≤ c.reviewedBy.length
  evidence : sha256Pattern c.evidenceSha256 = true
  semantics : 20 ≤ c.semantics.length
  modeCodes_nodup : (c.modeCodes.map Prod.fst).Nodup
  scope : c.validScope = true

/-- Python's `==` on two bounds of a contract. -/
def boundEq : Option PyNum → Option PyNum → Bool
  | some a, some b => a.eq b
  | none, none => true
  | _, _ => false

/-- Python's `==` on two dictionaries of integers: order does not matter. -/
def codesEq (a b : List (String × Int)) : Bool :=
  a.length = b.length && a.all fun kv => b.lookup kv.1 = some kv.2

/-- `current == contract`: the models' fields are compared by Python's `==`. -/
def pyEq (a b : HardwareWriteContract) : Bool :=
  a.contractId = b.contractId && a.portalId = b.portalId && a.deviceType = b.deviceType &&
  a.inst = b.inst && a.path = b.path && a.identity = b.identity &&
  a.reviewedBy = b.reviewedBy && a.evidenceSha256 = b.evidenceSha256 &&
  a.semantics = b.semantics && codesEq a.modeCodes b.modeCodes && a.unit = b.unit &&
  boundEq a.minimum b.minimum && boundEq a.maximum b.maximum

/-- `(contract.portal_id, contract.device_type, contract.instance, contract.path)
    == (portal_id, device_type, instance, path)`. -/
def hasTarget (c : HardwareWriteContract) (portalId : Option String) (deviceType : String)
    (inst : Int) (path : String) : Bool :=
  some c.portalId = portalId && c.deviceType.name = deviceType && c.inst = inst &&
    c.path.name = path

end HardwareWriteContract

/-! ## `validate_hardware_write` -/

/-- `client.read_path`: a value and its age, or nothing. -/
abbrev Read (m : Type → Type) : Type := String → Int → String → m (Option (Json × PyNum))

/-- The loop's test on one reading: what, if anything, is wrong with it. -/
def probeFault (maxAge : PyNum) (p : IdentityProbe) : Option (Json × PyNum) → Option String
  | none => some s!"Hardware contract identity missing: {p.role.name}"
  | some (observed, age) =>
    if p.expected.matches observed && finite age && PyNum.le (.int 0) age && PyNum.le age maxAge
    then none
    else some s!"Hardware contract identity changed or stale: {p.role.name}"

/-- `for probe in contract.identity`: the first fault ends the loop. -/
def checkIdentity {m : Type → Type} [Monad m] (read : Read m) (maxAge : PyNum) :
    List IdentityProbe → m (Option String)
  | [] => pure none
  | p :: ps => do
    match probeFault maxAge p (← read p.deviceType p.inst p.path) with
    | some reason => pure (some reason)
    | none => checkIdentity read maxAge ps

/-- `value: object`: the checks only ask which number it is, if it is one and no boolean. -/
class PyObject (α : Type) where
  asNumber : α → Option PyNum

@[default_instance] instance : PyObject Json := ⟨Json.asNumber⟩

/-- The checks on the value, once the identity is established. -/
def checkValue {α : Type} [PyObject α] (c : HardwareWriteContract) (path : String) (value : α)
    (semanticMode : Option String) : Except String HardwareWriteContract :=
  match PyObject.asNumber value with
  | none => .error "Contract requires a finite numeric hardware value"
  | some v =>
    if !finite v then .error "Contract requires a finite numeric hardware value"
    else if path = "Mode" then
      match semanticMode.bind fun mode => c.modeCodes.lookup mode with
      | some code =>
        if PyNum.eq (.int code) v then .ok c
        else .error "Mode meaning/code has not been qualified for this hardware contract"
      | none => .error "Mode meaning/code has not been qualified for this hardware contract"
    else
      match c.minimum, c.maximum with
      | some lo, some hi =>
        if PyNum.le lo v && PyNum.le v hi then .ok c
        else .error "Value is outside the hardware-qualified range"
      | _, _ => .error "Value is outside the hardware-qualified range"

/-- Fail closed before publishing `W/`; never create contracts from an echo. -/
def validateHardwareWrite {m : Type → Type} [Monad m] {α : Type} [PyObject α]
    (contracts : List HardwareWriteContract) (portalId : Option String) (deviceType : String)
    (inst : Int) (path : String) (value : α) (semanticMode : Option String) (read : Read m)
    (maxAge : PyNum) : m (Except String HardwareWriteContract) :=
  match contracts.filter fun c => c.hasTarget portalId deviceType inst path with
  | [contract] =>
    if !finite maxAge || PyNum.le maxAge (.int 0) then
      pure (.error "Hardware identity freshness limit must be finite and positive")
    else do
      match ← checkIdentity read maxAge contract.identity with
      | some reason => pure (.error reason)
      | none => pure (checkValue contract path value semanticMode)
  | _ =>
    pure (.error
      "Exactly one reviewed hardware contract is required for this target and path")

/-! ## What the checks establish -/

/-- A reading that qualifies a probe: the expected value, of its type, at an
    age between zero and the limit. -/
def Qualifies (maxAge : PyNum) (p : IdentityProbe) (observed : Json) (age : PyNum) : Prop :=
  p.expected.matches observed = true ∧ finite age = true ∧ PyNum.le (.int 0) age = true ∧
    PyNum.le age maxAge = true

theorem probeFault_eq_none {maxAge : PyNum} {p : IdentityProbe} {r : Option (Json × PyNum)} :
    probeFault maxAge p r = none ↔
      ∃ observed age, r = some (observed, age) ∧ Qualifies maxAge p observed age := by
  cases r with
  | none => simp [probeFault]
  | some r =>
      obtain ⟨observed, age⟩ := r
      simp [probeFault, Qualifies, and_assoc]

/-- The value conditions of a contract on a number. -/
def ValueAllowed (c : HardwareWriteContract) (path : String) (semanticMode : Option String)
    (v : PyNum) : Prop :=
  if path = "Mode" then
    ∃ mode code, semanticMode = some mode ∧ c.modeCodes.lookup mode = some code ∧
      PyNum.eq (.int code) v = true
  else ∃ lo hi, c.minimum = some lo ∧ c.maximum = some hi ∧
    PyNum.le lo v = true ∧ PyNum.le v hi = true

theorem checkValue_eq_ok {α : Type} [PyObject α] {c c' : HardwareWriteContract} {path : String}
    {value : α} {semanticMode : Option String} :
    checkValue c path value semanticMode = .ok c' ↔
      c' = c ∧ ∃ v, PyObject.asNumber value = some v ∧ finite v = true ∧
        ValueAllowed c path semanticMode v := by
  unfold checkValue ValueAllowed
  -- the checks in their order: a number, finite, then the mode or the bounds
  cases hv : PyObject.asNumber value with
  | none => simp
  | some v =>
      by_cases hfin : finite v = true
      · by_cases hpath : path = "Mode"
        · cases hm : semanticMode with
          | none => simp [hfin, hpath]
          | some mode =>
              cases hc : c.modeCodes.lookup mode with
              | none => simp [hfin, hpath, hc]
              | some code =>
                  by_cases he : PyNum.eq (.int code) v = true
                  · simpa [hfin, hpath, hc, he] using eq_comm
                  · simp [hfin, hpath, hc, he]
        · cases hlo : c.minimum with
          | none => simp [hfin, hpath]
          | some lo =>
              cases hhi : c.maximum with
              | none => simp [hfin, hpath]
              | some hi =>
                  by_cases hr : PyNum.le lo v = true ∧ PyNum.le v hi = true
                  · simpa [hfin, hpath, hr.1, hr.2] using eq_comm
                  · simp [hfin, hpath, hr]
      · simp [hfin]

/-- The filter leaves one contract exactly when one entry of the list has the target. -/
theorem filter_target_eq_singleton {contracts : List HardwareWriteContract}
    {portalId : Option String} {deviceType : String} {inst : Int} {path : String}
    {c : HardwareWriteContract}
    (h : contracts.filter (fun c => c.hasTarget portalId deviceType inst path) = [c]) :
    c ∈ contracts ∧ c.hasTarget portalId deviceType inst path = true ∧
      contracts.countP (fun c => c.hasTarget portalId deviceType inst path) = 1 := by
  have hc : c ∈ contracts.filter (fun c => c.hasTarget portalId deviceType inst path) := by
    rw [h]; exact List.mem_singleton_self c
  refine ⟨(List.mem_filter.mp hc).1, (List.mem_filter.mp hc).2, ?_⟩
  rw [List.countP_eq_length_filter, h, List.length_singleton]

theorem filter_target_eq_singleton_iff {contracts : List HardwareWriteContract}
    {portalId : Option String} {deviceType : String} {inst : Int} {path : String}
    {c : HardwareWriteContract} :
    contracts.filter (fun c => c.hasTarget portalId deviceType inst path) = [c] ↔
      contracts.countP (fun c => c.hasTarget portalId deviceType inst path) = 1 ∧
        c ∈ contracts ∧ c.hasTarget portalId deviceType inst path = true := by
  constructor
  · intro h
    obtain ⟨hmem, htarget, hcount⟩ := filter_target_eq_singleton h
    exact ⟨hcount, hmem, htarget⟩
  · rintro ⟨hcount, hmem, htarget⟩
    rw [List.countP_eq_length_filter] at hcount
    obtain ⟨x, hx⟩ := List.length_eq_one_iff.mp hcount
    have hc : c ∈ contracts.filter fun c => c.hasTarget portalId deviceType inst path :=
      List.mem_filter.mpr ⟨hmem, htarget⟩
    rw [hx] at hc
    rw [hx, List.mem_singleton.mp hc]

/-- The loop over the probes finds no fault when every probe qualifies. -/
theorem checkIdentity_eq_none {read : Read Id} {maxAge : PyNum} {probes : List IdentityProbe} :
    checkIdentity read maxAge probes = none ↔ ∀ p ∈ probes, ∃ observed age,
      read p.deviceType p.inst p.path = some (observed, age) ∧
        Qualifies maxAge p observed age := by
  induction probes with
  | nil =>
    refine ⟨fun _ p hp => ?_, fun _ => rfl⟩
    cases hp
  | cons p ps ih =>
    have hloop : checkIdentity read maxAge (p :: ps) =
        match probeFault maxAge p (read p.deviceType p.inst p.path) with
        | some reason => some reason
        | none => checkIdentity read maxAge ps := rfl
    rw [List.forall_mem_cons, ← ih, ← probeFault_eq_none, hloop]
    cases probeFault maxAge p (read p.deviceType p.inst p.path) with
    | none => simp
    | some reason => simp

/-- A finite limit that is not at most zero is positive. -/
theorem limit_iff {maxAge : PyNum} :
    (!finite maxAge || PyNum.le maxAge (.int 0)) = false ↔
      finite maxAge = true ∧ PyNum.lt (.int 0) maxAge = true := by
  rw [Bool.or_eq_false_iff, Bool.not_eq_false']
  refine and_congr_right fun hfinite => ?_
  cases maxAge with
  | int n => simp [PyNum.le, PyNum.lt, PyNum.toFloat]
  | float x =>
    obtain ⟨q, rfl⟩ := PyFloat.isFinite_iff.mp hfinite
    simp [PyNum.le, PyNum.lt, PyNum.toFloat]

/-! ## What the schema establishes -/

/-- The roles, bounds and units of an accepted contract. -/
structure Scoped (c : HardwareWriteContract) : Prop where
  roles : ∀ role, (c.identity.filter fun p => p.role = role).length = 1
  target : ∀ p ∈ c.identity, p.role.isTarget = true →
    p.deviceType = c.deviceType.name ∧ p.inst = c.inst
  bms : ∀ p ∈ c.identity, p.role.isBms = true → p.deviceType = "battery"
  mode : c.path = .mode → c.deviceType = .vebus ∧ c.unit = .mode ∧ c.modeCodes ≠ [] ∧
    c.minimum = none ∧ c.maximum = none
  range : c.path ≠ .mode → c.modeCodes = [] ∧
    (c.path = .socLimit → c.deviceType = .battery ∧ c.unit = .percent) ∧
    (c.path = .maxChargeCurrent → c.deviceType = .vebus ∧ c.unit = .ampere) ∧
    ∃ lo hi, c.minimum = some lo ∧ c.maximum = some hi ∧ finite lo = true ∧ finite hi = true ∧
      PyNum.le (.int 0) lo = true ∧ PyNum.le lo hi = true ∧
      (c.unit = .percent → PyNum.le hi (.int 100) = true)

/-- Five probes that cover the five roles cover each of them once. -/
theorem roles_once {probes : List IdentityProbe} (hlength : probes.length = 5)
    (hroles : ∀ role, role ∈ probes.map IdentityProbe.role) (role : Role) :
    (probes.filter fun p => p.role = role).length = 1 := by
  have hsub : Role.all ⊆ probes.map IdentityProbe.role := fun role _ => hroles role
  have hsubperm := List.subperm_of_subset (by decide : Role.all.Nodup) hsub
  have hperm := hsubperm.perm_of_length_le (by rw [List.length_map, hlength]; decide)
  have hcount : (probes.map IdentityProbe.role).count role = 1 := by
    rw [← hperm.count_eq]
    cases role <;> rfl
  rwa [List.count, List.countP_map, List.countP_eq_length_filter] at hcount

theorem validBounds_iff {c : HardwareWriteContract} : c.validBounds = true ↔
    ∃ lo hi, c.minimum = some lo ∧ c.maximum = some hi ∧ finite lo = true ∧ finite hi = true ∧
      PyNum.le (.int 0) lo = true ∧ PyNum.le lo hi = true ∧
      (c.unit = .percent → PyNum.le hi (.int 100) = true) := by
  unfold HardwareWriteContract.validBounds
  cases c.minimum with
  | none => simp
  | some lo =>
    cases c.maximum with
    | none => simp
    | some hi => simp [and_assoc, imp_iff_not_or]

theorem HardwareWriteContract.Accepted.scoped {c : HardwareWriteContract} (h : c.Accepted) :
    Scoped c := by
  have hscope := h.scope
  unfold HardwareWriteContract.validScope at hscope
  rw [Bool.and_eq_true, Bool.and_eq_true, Bool.and_eq_true, List.all_eq_true, List.all_eq_true,
    List.all_eq_true] at hscope
  obtain ⟨⟨⟨hroles, htarget⟩, hbms⟩, hvalue⟩ := hscope
  have hall : ∀ role : Role, role ∈ Role.all := by
    intro role
    cases role <;> decide
  -- the roles, the target's own probes, the scope of the others, and the value conditions
  refine ⟨roles_once h.identity_length fun role => ?_, fun p hp hrole => ?_, fun p hp hrole => ?_,
    fun hpath => ?_, fun hpath => ?_⟩
  · exact of_decide_eq_true (hroles role (hall role))
  · simpa using htarget p (List.mem_filter.mpr ⟨hp, hrole⟩)
  · simpa using hbms p (List.mem_filter.mpr ⟨hp, hrole⟩)
  · simpa [hpath, and_assoc] using hvalue
  · rw [if_neg hpath, Bool.and_eq_true, Bool.and_eq_true, Bool.and_eq_true, validBounds_iff,
      decide_eq_true_eq, decide_eq_true_eq, List.isEmpty_iff] at hvalue
    obtain ⟨⟨⟨hdevice, hunit⟩, hcodes⟩, hbounds⟩ := hvalue
    refine ⟨hcodes, fun hsoc => ?_, fun hcurrent => ?_, hbounds⟩
    -- a limit on the state of charge is in percent, at the settings
    · rw [if_pos hsoc] at hdevice hunit
      exact ⟨hdevice, hunit⟩
    -- a current limit is in ampere, at the inverter
    · rw [if_neg (by rw [hcurrent]; decide)] at hdevice hunit
      exact ⟨hdevice, hunit⟩

/-! ## The check as a whole -/

/-- The checks after the one contract is found. -/
theorem checks_eq_ok {α : Type} [PyObject α] {contract c : HardwareWriteContract} {path : String}
    {value : α} {semanticMode : Option String} {read : Read Id} {maxAge : PyNum} :
    ((if !finite maxAge || PyNum.le maxAge (.int 0) then
        pure (.error "Hardware identity freshness limit must be finite and positive")
      else do
        match ← checkIdentity read maxAge contract.identity with
        | some reason => pure (.error reason)
        | none => pure (checkValue contract path value semanticMode) :
          Id (Except String HardwareWriteContract)) = .ok c) ↔
      contract = c ∧ (!finite maxAge || PyNum.le maxAge (.int 0)) = false ∧
        checkIdentity read maxAge c.identity = none ∧
        ∃ v, PyObject.asNumber value = some v ∧ finite v = true ∧
          ValueAllowed c path semanticMode v := by
  split
  -- the limit of the age is refused first
  · rename_i hlimit
    rw [hlimit]
    constructor
    · intro h
      cases h
    · rintro ⟨-, h, -⟩
      cases h
  · rename_i hlimit
    -- then the identity, whose first fault ends the check
    have hcheck : ∀ fault : Option String, ((match fault with
        | some reason => pure (.error reason)
        | none => pure (checkValue contract path value semanticMode) :
          Id (Except String HardwareWriteContract)) = .ok c) ↔
        fault = none ∧ checkValue contract path value semanticMode = .ok c := by
      intro fault
      cases fault with
      | none => exact (and_iff_right rfl).symm
      | some reason => exact ⟨fun h => (by cases h), fun h => (by cases h.1)⟩
    refine (hcheck (checkIdentity read maxAge contract.identity)).trans ?_
    rw [checkValue_eq_ok]
    constructor
    · rintro ⟨hidentity, rfl, hvalue⟩
      exact ⟨rfl, Bool.eq_false_of_not_eq_true hlimit, hidentity, hvalue⟩
    · rintro ⟨rfl, -, hidentity, hvalue⟩
      exact ⟨hidentity, rfl, hvalue⟩

/-- When `validate_hardware_write` returns a contract, and what an accepted
    contract says of its target. -/
theorem validateHardwareWrite_characterised {α : Type} [PyObject α]
    (contracts : List HardwareWriteContract) (haccepted : ∀ c ∈ contracts, c.Accepted)
    (portalId : Option String) (deviceType : String) (inst : Int) (path : String) (value : α)
    (semanticMode : Option String) (read : Read Id) (maxAge : PyNum) :
    (∀ c, validateHardwareWrite contracts portalId deviceType inst path value semanticMode read
        maxAge = .ok c ↔
      (contracts.countP (fun c => c.hasTarget portalId deviceType inst path) = 1 ∧
        c ∈ contracts ∧ c.hasTarget portalId deviceType inst path = true) ∧
      (finite maxAge = true ∧ PyNum.lt (.int 0) maxAge = true) ∧
      (∀ p ∈ c.identity, ∃ observed age, read p.deviceType p.inst p.path = some (observed, age) ∧
        Qualifies maxAge p observed age) ∧
      ∃ v, PyObject.asNumber value = some v ∧ finite v = true ∧
        ValueAllowed c path semanticMode v) ∧
    ((∃ c, validateHardwareWrite contracts portalId deviceType inst path value semanticMode read
        maxAge = .ok c) ∨
      ∃ reason, validateHardwareWrite contracts portalId deviceType inst path value semanticMode
        read maxAge = .error reason) ∧
    ∀ c ∈ contracts, Scoped c := by
  refine ⟨fun c => ?_, ?_, fun c hc => (haccepted c hc).scoped⟩
  · rw [← filter_target_eq_singleton_iff, ← limit_iff, ← checkIdentity_eq_none]
    unfold validateHardwareWrite
    split
    · rename_i contract hmatches
      rw [hmatches, List.singleton_inj]
      exact checks_eq_ok
    · rename_i hmatches
      refine ⟨fun h => ?_, fun h => absurd h.1 (hmatches c)⟩
      cases h
  · cases validateHardwareWrite contracts portalId deviceType inst path value semanticMode read
      maxAge with
    | ok c => exact .inl ⟨c, rfl⟩
    | error reason => exact .inr ⟨reason, rfl⟩

/-! ## Synthetic records -/

/-- The five observations of the unit suite's synthetic records. -/
def fixtureIdentity (deviceType : String) (inst : Int) : List IdentityProbe := [
  ⟨.venusFirmware, "platform", 0, "Firmware", .str "fixture-venus"⟩,
  ⟨.targetProduct, deviceType, inst, "ProductName", .str s!"fixture-{deviceType}"⟩,
  ⟨.targetFirmware, deviceType, inst, "FirmwareVersion", .str "fixture-fw"⟩,
  ⟨.bmsProduct, "battery", 512, "ProductName", .str "fixture-battery"⟩,
  ⟨.bmsFirmware, "battery", 512, "FirmwareVersion", .str "fixture-fw"⟩]

/-- One synthetic record, never a production approval. -/
def fixtureContract (deviceType : ContractDevice) (inst : Int) (path : ContractPath)
    (unit : ContractUnit) : HardwareWriteContract where
  contractId := s!"fixture-{unit.name}"
  portalId := "testportal"
  deviceType := deviceType
  inst := inst
  path := path
  identity := fixtureIdentity deviceType.name inst
  reviewedBy := "unit-test-only"
  evidenceSha256 := "aaaaaaaaaaaaaaaaaaaaaaaaaaaaaaaaaaaaaaaaaaaaaaaaaaaaaaaaaaaaaaaa"
  semantics := "Synthetic fixture, not a hardware qualification."
  modeCodes := if unit = .mode then
    [("charger_only", 1), ("inverter_only", 2), ("on", 3), ("off", 4)] else []
  unit := unit
  minimum := if unit = .mode then none else some (.int 0)
  maximum := if unit = .mode then none else some (.int 100)

def fixtureContracts : List HardwareWriteContract := [
  fixtureContract .vebus 256 .mode .mode,
  fixtureContract .vebus 256 .maxChargeCurrent .ampere,
  fixtureContract .battery 512 .socLimit .percent]

theorem fixtureContracts_accepted : ∀ c ∈ fixtureContracts, c.Accepted := by
  intro c hc
  simp only [fixtureContracts, List.mem_cons, List.not_mem_nil, or_false] at hc
  rcases hc with rfl | rfl | rfl <;>
    exact ⟨by decide +kernel, by decide +kernel, by decide, rfl, by decide +kernel,
      by decide +kernel, by decide +kernel, by decide +kernel, by decide +kernel,
      by decide +kernel⟩

/-- The observations of the records, all received a second ago. -/
def fixtureRead : Read Id := fun deviceType inst path =>
  ((fixtureIdentity "vebus" 256).find? fun p =>
    p.deviceType = deviceType && p.inst = inst && p.path = path).map fun p =>
      (match p.expected with
        | .str s => .str s
        | .int n => .int n, .int 1)

/-- A record is accepted for one of its mode codes. -/
theorem validateHardwareWrite_characterised_fixture :
    ∃ c, validateHardwareWrite fixtureContracts (some "testportal") "vebus" 256 "Mode" (Json.int 3)
        (some "on") fixtureRead (.int 300) = .ok c ∧ c ∈ fixtureContracts ∧ Scoped c := by
  have hall := validateHardwareWrite_characterised fixtureContracts fixtureContracts_accepted
    (some "testportal") "vebus" 256 "Mode" (Json.int 3) (some "on") fixtureRead (.int 300)
  obtain ⟨hok, hresult, hscoped⟩ := hall
  rcases hresult with ⟨c, hc⟩ | ⟨reason, hreason⟩
  · have hmem := ((hok c).mp hc).1.2.1
    exact ⟨c, hc, hmem, hscoped c hmem⟩
  · have hsome : (validateHardwareWrite fixtureContracts (some "testportal") "vebus" 256 "Mode"
        (Json.int 3) (some "on") fixtureRead (.int 300)).toOption.isSome = true := by
      decide +kernel
    rw [hreason] at hsome
    cases hsome

end McpVenusOs
