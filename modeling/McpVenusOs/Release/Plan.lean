/-
  McpVenusOs.Release.Plan

  Release identities: the plans of `scripts/version_plan.py`.

  A plan freezes what a release is before anything is built: its base version,
  channel and sequence, the version and tag made of them, the source, the policy
  and the native build number.  `createPlan` makes one of decisions already
  taken; `validatePlan` accepts a plan that could have been made so.

  The fields of a JSON document are typed here: a field of another JSON type
  fails the `isinstance` or `type(...) is int` test of its own check.
-/

import Mathlib.Data.List.Sort
import McpVenusOs.Lib.PyInt

namespace McpVenusOs.Release

open Py

/-- The exceptions of the release scripts; `names` are the field names that a
    message ends with. -/
inductive ReleaseError
  | version (message : String) (names : List String := [])
  | release (message : String)
  | github (message : String) (notFound : Bool)
  | typeError
  | valueError
  | keyError
  | recursionError
  deriving DecidableEq

/-- `require` of `version_plan.py`. -/
def require (condition : Bool) (message : String) (names : List String := []) :
    Except ReleaseError Unit :=
  if condition then .ok () else .error (.version message names)

/-! ## The texts of an identity -/

def isDigits (cs : List Char) : Bool := cs.all Char.isDigit

/-- `[1-9]\d*` -/
def isPositive (cs : List Char) : Bool :=
  isDigits cs && cs.head?.any (· != '0')

/-- `0|[1-9]\d*` -/
def isNumeral (cs : List Char) : Bool := cs == ['0'] || isPositive cs

/-- `BASE.fullmatch` -/
def isBase (s : String) : Bool :=
  match s.toList.splitOn '.' with
  | [major, minor, patch] => isNumeral major && isNumeral minor && isNumeral patch
  | _ => false

/-- `[0-9a-f]{width}` -/
def isHex (width : Nat) (s : String) : Bool :=
  s.toList.length == width && s.toList.all fun c => c.isDigit || ('a' ≤ c && c ≤ 'f')

/-- `SHA.fullmatch` -/
def isSha (s : String) : Bool := isHex 40 s

/-- `NIGHTLY.fullmatch` -/
def isNightly (s : String) : Bool :=
  match s.toList.splitOn '.' with
  | [stamp, run, attempt] =>
    stamp.length == 14 && isDigits stamp && isPositive run && isPositive attempt
  | _ => false

def isLeap (year : Nat) : Bool := year % 4 == 0 && (year % 100 != 0 || year % 400 == 0)

def daysInMonth (year month : Nat) : Nat :=
  if month = 2 then (if isLeap year then 29 else 28)
  else if month = 4 ∨ month = 6 ∨ month = 9 ∨ month = 11 then 30
  else 31

/-- `datetime.strptime(stamp, "%Y%m%d%H%M%S")` of fourteen digits: with so many every
    field has its full width. -/
def isCalendar (stamp : List Char) : Bool :=
  let field (start width : Nat) := Nat.ofDigitChars 10 ((stamp.drop start).take width) 0
  let year := field 0 4
  let month := field 4 2
  let day := field 6 2
  1 ≤ year && 1 ≤ month && month ≤ 12 && 1 ≤ day && day ≤ daysInMonth year month &&
    field 8 2 ≤ 23 && field 10 2 ≤ 59 && field 12 2 ≤ 59

/-! ## Version declarations -/

def formats : List String :=
  ["json", "toml", "cargo-lock", "uv-lock", "npm-lock", "text", "python", "plist", "pbxproj"]

def values : List String := ["base", "full", "package", "build", "apple-build"]

def artifactFormats : List String :=
  ["oci", "json", "wheel", "sdist", "npm-tar", "ipa", "plist", "tar-text", "tar-toml", "tar-json",
    "zip-json"]

/-- A dotted string, or an array of names. -/
inductive Field
  | dotted (s : String)
  | segments (names : List String)
  deriving DecidableEq

/-- `_field` -/
def Field.path : Field → Except ReleaseError (List String)
  | .dotted s => do
    let result := (s.toList.splitOn '.').map String.ofList
    require (result.all (· != ""))
      "Dotted fields cannot contain empty segments; use a string array"
    return result
  | .segments names => do
    require (!names.isEmpty) "Field must be a dotted string or a nonempty string array"
    return names

/-- `_relative` -/
def relative (value : String) : Except ReleaseError Unit := do
  require (value != "" && !hasChar value '\\' && !hasChar value (Char.ofNat 0))
    "Path must be a relative POSIX path"
  require (!startsWith value "/" &&
      ((value.toList.splitOn '/').map String.ofList).all fun part =>
        part != "" && part != "." && part != ".." && part != ".git")
    ("Unsafe version path: " ++ value)

/-- A declared version input or artifact; `others` are its unknown fields, sorted. -/
structure Declaration where
  path : Option String := none
  format : Option String := none
  field : Option Field := none
  package : Option String := none
  value : Option String := none
  pre : Option String := none
  ecosystem : Option String := none
  member : Option String := none
  others : List String := []
  deriving DecidableEq

def oneLine (s : String) : Bool :=
  !hasChar s '\r' && !hasChar s '\n' && !hasChar s (Char.ofNat 0)

/-- `_artifact_declaration` -/
def artifactDeclaration (item : Declaration) : Except ReleaseError Unit := do
  let kind := item.format.getD "None"
  if kind = "oci" then
    require (item.field.isSome && item.package.isNone)
      "OCI artifact requires an exact config field and no package selector"
  if kind ∈ ["tar-text", "tar-toml", "tar-json", "zip-json"] then
    match item.member with
    | none => require false "Archive field verification requires an exact member"
    | some member => relative member
  else
    require item.member.isNone (kind ++ " does not accept member")
  if kind = "tar-text" then
    require (item.field.isNone && item.package.isNone)
      "Text artifact has no field or package selector"

/-- `_input_declaration` -/
def inputDeclaration (item : Declaration) : Except ReleaseError Unit := do
  let kind := item.format.getD "None"
  if kind ∈ ["json", "toml", "python", "plist", "pbxproj"] then
    require item.field.isSome (kind ++ " requires an explicit field")
  if kind ∈ ["cargo-lock", "uv-lock", "npm-lock", "pbxproj"] then
    require item.package.isSome (kind ++ " requires an explicit owned package selector")
  if kind ∈ ["text", "cargo-lock", "uv-lock", "npm-lock"] then
    require item.field.isNone (kind ++ " does not accept field")
  if kind ∈ ["text", "python", "plist"] then
    require item.package.isNone (kind ++ " does not accept package")

/-- `_declaration` -/
def declaration (item : Declaration) (artifact : Bool) : Except ReleaseError Unit := do
  -- only an artifact has a member
  let unknown := if artifact || item.member.isNone then item.others
    else item.others.orderedInsert (· ≤ ·) "member"
  require unknown.isEmpty "Unsupported version declaration fields: " unknown
  require ((if artifact then artifactFormats else formats).contains (item.format.getD "None"))
    ("Unsupported version format: " ++ item.format.getD "None")
  match item.path with
  | some path => relative path
  | none => require artifact "Version input requires path"
  require (values.contains (item.value.getD "package")) "Unsupported version projection"
  require (["semver", "pep440"].contains (item.ecosystem.getD "semver"))
    "Unsupported package version ecosystem"
  require (oneLine (item.pre.getD "")) "Invalid version prefix"
  match item.field with
  | some field => let _ ← field.path
  | none => pure ()
  match item.package with
  | some package => require (package != "" && oneLine package) "Invalid owned package selector"
  | none => pure ()
  if artifact then artifactDeclaration item else inputDeclaration item

/-! ## The policy -/

/-- The `versioning` extension of a release policy; `others` are its unknown fields, sorted. -/
structure Versioning where
  schema : Int
  promotion : String
  files : List Declaration
  artifacts : List Declaration := []
  requiredBuildReceipts : Option (List String) := none
  buildNumberFloor : Option Int := none
  toolkitRevision : Option String := none
  others : List String := []
  deriving DecidableEq

/-- A release policy: its extension, and the SHA-256 digest of the whole document. -/
structure Policy where
  versioning : Option Versioning
  digest : String
  digest_hex : isHex 64 digest = true

/-- `build_number_floor`, zero by default. -/
def Versioning.floor (config : Versioning) : Int := config.buildNumberFloor.getD 0

/-- `release-inputs-[A-Za-z0-9._-]+\.json` -/
def isReceiptName (s : String) : Bool :=
  startsWith s "release-inputs-" && endsWith s ".json" &&
    (let inner := (s.toList.drop 15).dropLast.dropLast.dropLast.dropLast.dropLast
     20 < s.toList.length && inner.all fun c => c.isAlphanum || c == '.' || c == '_' || c == '-')

/-- `required_build_receipts` -/
def requiredBuildReceipts (config : Versioning) : Except ReleaseError Unit :=
  match config.requiredBuildReceipts with
  | none => pure ()
  | some names => do
    require (!names.isEmpty && names.all fun name =>
        isReceiptName name && name != "release-inputs-fuzz.json")
      "required_build_receipts must be nonempty ASCII package receipt filenames"
    require (decide names.Nodup) "required_build_receipts contains duplicate filenames"

/-- What makes a declared input the same as another. -/
def selector (item : Declaration) :
    Except ReleaseError (Option String × Option String × List String × Option String) := do
  let field ← match item.field with
    | some field => field.path
    | none => pure []
  return (item.path, item.format, field, item.package)

/-- The loop over the declared files; `selectors` are those seen. -/
def declareFiles : List Declaration →
    List (Option String × Option String × List String × Option String) → Except ReleaseError Unit
  | [], _ => pure ()
  | item :: items, selectors => do
    declaration item false
    let this ← selector item
    require (!selectors.contains this) ("Duplicate version selector: " ++ item.path.getD "")
    declareFiles items (this :: selectors)

/-- `validate_policy` -/
def validatePolicy (policy : Policy) : Except ReleaseError Versioning :=
  match policy.versioning with
  | none => .error (.version "Policy requires versioning")
  | some config => do
    require config.others.isEmpty "Unsupported versioning fields: " config.others
    require (config.schema == 1) "Unsupported versioning schema"
    require (["promote-bytes", "final-build"].contains config.promotion)
      "Unsupported promotion profile"
    require (config.buildNumberFloor.all fun floor => decide (0 ≤ floor ∧ floor < 2100000000))
      "Native build number floor must be an integer in 0..2099999999"
    require (!config.files.isEmpty) "Policy requires explicit version files"
    requiredBuildReceipts config
    declareFiles config.files []
    config.artifacts.forM fun item => declaration item true
    require (config.toolkitRevision.all isSha) "Toolkit revision must be a pinned SHA"
    return config

/-! ## Plans -/

/-- `int | str | None` -/
inductive Sequence
  | none
  | number (n : Int)
  | text (s : String)
  deriving DecidableEq

structure Plan where
  schemaVersion : Int
  baseVersion : String
  version : String
  channel : String
  sequence : Sequence
  tag : String
  sourceSha : String
  buildNumber : Option Int
  policySha256 : String
  promotion : String
  deriving DecidableEq

/-- `str(n)`, or a `ValueError`. -/
def intText (n : Int) : Except ReleaseError String :=
  match pyStr n with
  | some s => .ok s
  | none => .error .valueError

/-- `int(digits)`, or a `ValueError` beyond `maxStrDigits`. -/
def intOfDigits (digits : List Char) : Except ReleaseError Nat :=
  if digits.length ≤ maxStrDigits then .ok (Nat.ofDigitChars 10 digits 0) else .error .valueError

theorem intOfDigits_eq_ok {digits : List Char} {n : Nat} :
    intOfDigits digits = .ok n ↔
      digits.length ≤ maxStrDigits ∧ Nat.ofDigitChars 10 digits 0 = n := by
  rw [intOfDigits]
  split <;> simp_all

/-- The text of a sequence that its channel accepts. -/
def sequenceText (channel : String) (sequence : Sequence) : Except ReleaseError String :=
  if channel = "nightly" then
    match sequence with
    | .text s => do
      require (isNightly s) "Nightly requires frozen UTCtimestamp.run.attempt suffix"
      require (isCalendar (s.toList.takeWhile (· != '.'))) "Invalid nightly UTC timestamp"
      return s
    | _ => .error (.version "Nightly requires frozen UTCtimestamp.run.attempt suffix")
  else
    match sequence with
    | .number n => do
      require (0 < n) "Beta/RC sequence must be a positive integer"
      intText n
    | _ => .error (.version "Beta/RC sequence must be a positive integer")

/-- `_identity` -/
def identity (base channel : String) (sequence : Sequence) : Except ReleaseError String := do
  require (isBase base) "Base version must be strict X.Y.Z without prefix or suffix"
  require (["nightly", "beta", "rc", "stable"].contains channel) "Unsupported release channel"
  if channel = "stable" then
    require (sequence == .none) "Stable must not have a sequence"
    return base
  else
    let text ← sequenceText channel sequence
    return base ++ "-" ++ channel ++ "." ++ text

/-- The package version of a nightly build for uv: run and attempt in one number. -/
def nightlyPackage (base : String) (sequence : String) : Except ReleaseError String :=
  match sequence.toList.splitOn '.' with
  | [_, run, attempt] => do
    let run ← intOfDigits run
    let attempt ← intOfDigits attempt
    let number := run * 1000000 + attempt
    require (attempt < 1000000 && number ≤ 2 ^ 64 - 2)
      "Nightly run or attempt is too large for PEP 440 projection"
    return base ++ ".dev" ++ toString number
  | _ => .error .valueError

/-- `package` of `projections` -/
def packageVersion (plan : Plan) (ecosystem : String) : Except ReleaseError String :=
  if plan.channel = "rc" ∧ plan.promotion = "promote-bytes" then .ok plan.baseVersion
  else if ecosystem = "pep440" then
    match plan.channel, plan.sequence with
    | "beta", .number n => do return plan.baseVersion ++ "b" ++ (← intText n)
    | "rc", .number n => do return plan.baseVersion ++ "rc" ++ (← intText n)
    | "nightly", .text s => nightlyPackage plan.baseVersion s
    | _, _ => .ok plan.version
  else .ok plan.version

/-- The three components of an Apple build version. -/
def appleTriple (build : Int) : Int × Int × Int :=
  let n := build - 1
  (n / 10000 + 1, n / 100 % 100, n % 100)

/-- `apple-build` of `projections` -/
def appleBuild (build : Option Int) : Option String :=
  match build with
  | none => none
  | some build =>
    if 0 < build ∧ build ≤ 99990000 then
      let (major, minor, patch) := appleTriple build
      some (toString major ++ "." ++ toString minor ++ "." ++ toString patch)
    else none

/-- `projections(plan, ecosystem)[kind]`, as text. -/
def projection (plan : Plan) (ecosystem kind : String) :
    Except ReleaseError (Option String) := do
  require (["semver", "pep440"].contains ecosystem) "Unsupported package ecosystem"
  let package ← packageVersion plan ecosystem
  match kind with
  | "base" => return some plan.baseVersion
  | "full" => return some plan.version
  | "build" => return plan.buildNumber.map toString
  | "apple-build" => return appleBuild plan.buildNumber
  | _ => return some package

/-- `projected_value`, as text. -/
def projectedValue (plan : Plan) (item : Declaration) : Except ReleaseError String := do
  let kind := item.value.getD "package"
  match ← projection plan (item.ecosystem.getD "semver") kind with
  | none =>
    .error (.version ("Projection " ++ kind ++ " requires a valid allocated native build number"))
  | some result => return item.pre.getD "" ++ result

/-- The bounds of a native build number. -/
def validBuild (build : Option Int) : Bool := build.all fun n => decide (0 < n ∧ n ≤ 2100000000)

/-- `build is None or build > floor` -/
def exceedsFloor (build : Option Int) (floor : Int) : Bool := build.all fun n => decide (floor < n)

/-- `create_plan` -/
def createPlan (base channel : String) (sequence : Sequence) (sourceSha : String) (policy : Policy)
    (buildNumber : Option Int) : Except ReleaseError Plan := do
  let config ← validatePolicy policy
  let version ← identity base channel sequence
  require (isSha sourceSha) "Source SHA must be a full lowercase commit SHA"
  require (validBuild buildNumber)
    "Build number must be a positive integer no greater than 2100000000"
  require (exceedsFloor buildNumber config.floor)
    "Build number must exceed the declared migration floor"
  let plan : Plan := {
    schemaVersion := 1
    baseVersion := base
    version := version
    channel := channel
    sequence := sequence
    tag := "v" ++ version
    sourceSha := sourceSha
    buildNumber := buildNumber
    policySha256 := policy.digest
    promotion := config.promotion }
  config.files.forM fun item => do let _ ← projectedValue plan item
  return plan

/-- The checks of `validate_plan` against a policy. -/
def matchPolicy (plan : Plan) (policy : Policy) : Except ReleaseError Unit := do
  let config ← validatePolicy policy
  require (plan.policySha256 == policy.digest) "Release plan policy digest mismatch"
  require (plan.promotion == config.promotion) "Release plan promotion policy mismatch"
  require (exceedsFloor plan.buildNumber config.floor)
    "Plan build number does not exceed the declared migration floor"
  config.files.forM fun item => do let _ ← projectedValue plan item

/-- `validate_plan` -/
def validatePlan (plan : Plan) (policy : Option Policy) (sourceSha : Option String) :
    Except ReleaseError Plan := do
  require (plan.schemaVersion == 1) "Unsupported release-plan schema"
  let version ← identity plan.baseVersion plan.channel plan.sequence
  require (plan.version == version && plan.tag == "v" ++ version)
    "Release version/tag/sequence disagree"
  require (isSha plan.sourceSha) "Invalid plan source SHA"
  require (isHex 64 plan.policySha256) "Invalid policy digest"
  require (["promote-bytes", "final-build"].contains plan.promotion)
    "Invalid plan promotion profile"
  require (validBuild plan.buildNumber) "Invalid native build number"
  policy.forM fun policy => matchPolicy plan policy
  sourceSha.forM fun sourceSha =>
    require (plan.sourceSha == sourceSha) "Release plan source SHA mismatch"
  return plan

/-! ## Checks -/

@[simp] theorem require_eq_ok {condition : Bool} {message : String} {names : List String}
    {u : Unit} : require condition message names = .ok u ↔ condition = true := by
  rw [require]
  split <;> simp_all

/-- A check that is passed is no step of a sequence. -/
theorem bind_eq_ok {α β : Type} {x : Except ReleaseError α} {f : α → Except ReleaseError β}
    {b : β} :
    (x >>= f) = .ok b ↔ ∃ a, x = .ok a ∧ f a = .ok b := by
  cases x with
  | ok a => exact ⟨fun h => ⟨a, rfl, h⟩, by rintro ⟨_, ⟨⟩, h⟩; exact h⟩
  | error e => exact ⟨nofun, by rintro ⟨_, ⟨⟩, _⟩⟩

theorem then_eq_ok {β : Type} {x : Except ReleaseError Unit} {f : Unit → Except ReleaseError β}
    {b : β} : (x >>= f) = .ok b ↔ x = .ok () ∧ f () = .ok b := by
  rw [bind_eq_ok]
  exact ⟨fun ⟨(), h⟩ => h, fun h => ⟨(), h⟩⟩

theorem require_bind_eq_ok {condition : Bool} {message : String} {names : List String} {β : Type}
    {f : Unit → Except ReleaseError β} {b : β} :
    (require condition message names >>= f) = .ok b ↔ condition = true ∧ f () = .ok b := by
  rw [then_eq_ok, require_eq_ok]

theorem forM_eq_ok {α : Type} {o : Option α} {f : α → Except ReleaseError Unit} :
    o.forM f = .ok () ↔ ∀ a, o = some a → f a = .ok () := by
  cases o with
  | none => exact iff_of_true rfl nofun
  | some a => exact ⟨by rintro h _ ⟨⟩; exact h, fun h => h a rfl⟩

theorem pure_eq_ok {α : Type} {a b : α} : (pure a : Except ReleaseError α) = .ok b ↔ a = b := by
  show (Except.ok a : Except ReleaseError α) = .ok b ↔ a = b
  rw [Except.ok.injEq]

/-! ## What an identity is made of -/

theorem digit_of_numeral {cs : List Char} (h : isNumeral cs = true) :
    ∀ c ∈ cs, c.isDigit = true := by
  rw [isNumeral, Bool.or_eq_true, beq_iff_eq, isPositive, Bool.and_eq_true] at h
  rcases h with rfl | ⟨h, -⟩
  · simp
  · exact List.all_eq_true.mp h

/-- A base version consists of digits and dots. -/
theorem mem_base {base : String} (h : isBase base = true) {c : Char} (hc : c ∈ base.toList) :
    c.isDigit = true ∨ c = '.' := by
  rw [isBase] at h
  split at h
  · rename_i major minor patch hsplit
    simp only [Bool.and_eq_true] at h
    have hlist : base.toList = major ++ '.' :: (minor ++ '.' :: patch) := by
      have hjoin : ['.'].intercalate (base.toList.splitOn '.') = base.toList :=
        List.intercalate_splitOn '.'
      rw [← hjoin, hsplit]
      simp [List.intercalate]
    rw [hlist] at hc
    simp only [List.mem_append, List.mem_cons] at hc
    rcases hc with hc | hc | hc | hc | hc
    · exact .inl (digit_of_numeral h.1.1 c hc)
    · exact .inr hc
    · exact .inl (digit_of_numeral h.1.2 c hc)
    · exact .inr hc
    · exact .inl (digit_of_numeral h.2 c hc)
  · cases h

theorem dash_notMem_base {base : String} (h : isBase base = true) : '-' ∉ base.toList := by
  intro hc
  rcases mem_base h hc with hdigit | hdot
  · cases hdigit
  · cases hdot

/-- Texts that are cut at the first `c` agree on both sides of it. -/
theorem cut_inj {a b x y : List Char} {c : Char} (ha : c ∉ a) (hb : c ∉ b)
    (h : a ++ c :: x = b ++ c :: y) : a = b ∧ x = y := by
  have htake : ∀ cs rest : List Char, c ∉ cs → (cs ++ c :: rest).takeWhile (· != c) = cs := by
    intro cs rest hcs
    rw [List.takeWhile_append_of_pos fun d hd => by
      rw [bne_iff_ne]
      rintro rfl
      exact hcs hd]
    simp
  have hab : a = b := by rw [← htake a x ha, h, htake b y hb]
  subst hab
  exact ⟨rfl, (List.cons.inj (List.append_cancel_left h)).2⟩

theorem intText_eq_ok {n : Int} {s : String} : intText n = .ok s ↔ pyStr n = some s := by
  rw [intText]
  split <;> simp_all

/-- What a channel accepts as a sequence, and the text of it. -/
theorem sequenceText_eq_ok {channel : String} {sequence : Sequence} {text : String} :
    sequenceText channel sequence = .ok text ↔
      (channel = "nightly" ∧ sequence = .text text ∧ isNightly text = true ∧
        isCalendar (text.toList.takeWhile (· != '.')) = true) ∨
      (channel ≠ "nightly" ∧ ∃ n, sequence = .number n ∧ 0 < n ∧ pyStr n = some text) := by
  unfold sequenceText
  by_cases hchannel : channel = "nightly"
  · rw [if_pos hchannel]
    simp only [hchannel, true_and, ne_eq, not_true_eq_false, false_and, or_false]
    cases sequence with
    | none => simp
    | number n => simp
    | text s =>
      simp only [require_bind_eq_ok, pure_eq_ok, Sequence.text.injEq]
      constructor
      · rintro ⟨h₁, h₂, rfl⟩
        exact ⟨rfl, h₁, h₂⟩
      · rintro ⟨rfl, h₁, h₂⟩
        exact ⟨h₁, h₂, rfl⟩
  · rw [if_neg hchannel]
    simp only [hchannel, false_and, ne_eq, not_false_eq_true, true_and, false_or]
    cases sequence with
    | none => simp
    | number n =>
      simp only [require_bind_eq_ok, intText_eq_ok, decide_eq_true_eq, Sequence.number.injEq]
      exact ⟨fun h => ⟨n, rfl, h⟩, by rintro ⟨_, rfl, h⟩; exact h⟩
    | text s => simp

theorem sequenceText_injective {channel text : String} {s s' : Sequence}
    (h : sequenceText channel s = .ok text) (h' : sequenceText channel s' = .ok text) : s = s' := by
  rcases sequenceText_eq_ok.mp h with ⟨hn, rfl, -⟩ | ⟨hn, n, rfl, -, htext⟩
  · rcases sequenceText_eq_ok.mp h' with ⟨-, rfl, -⟩ | ⟨hn', -⟩
    · rfl
    · exact absurd hn hn'
  · rcases sequenceText_eq_ok.mp h' with ⟨hn', -⟩ | ⟨-, n', rfl, -, htext'⟩
    · exact absurd hn' hn
    · rw [toString_int_injective ((pyStr_eq htext).symm.trans (pyStr_eq htext'))]

/-- The release channels with a sequence. -/
def candidateChannels : List String := ["nightly", "beta", "rc"]

theorem identity_eq_ok {base channel version : String} {sequence : Sequence} :
    identity base channel sequence = .ok version ↔
      isBase base = true ∧
        ((channel = "stable" ∧ sequence = .none ∧ version = base) ∨
          (channel ∈ candidateChannels ∧ ∃ text, sequenceText channel sequence = .ok text ∧
            version = base ++ "-" ++ channel ++ "." ++ text)) := by
  rw [identity, require_bind_eq_ok, require_bind_eq_ok]
  refine and_congr_right fun _ => ?_
  by_cases hstable : channel = "stable"
  · rw [if_pos hstable]
    subst hstable
    have hnot : "stable" ∉ candidateChannels := by decide
    rw [require_bind_eq_ok, pure_eq_ok, beq_iff_eq]
    simp only [hnot, true_and, false_and, or_false, eq_comm (b := version)]
    simp
  · rw [if_neg hstable]
    simp only [hstable, bind_eq_ok, pure_eq_ok, false_and, false_or]
    rw [candidateChannels, List.contains_eq_mem, decide_eq_true_eq]
    simp only [List.mem_cons, hstable, List.not_mem_nil, or_false, eq_comm (b := version)]

/-- A version determines its identity. -/
theorem identity_injective {base base' channel channel' version : String} {s s' : Sequence}
    (h : identity base channel s = .ok version) (h' : identity base' channel' s' = .ok version) :
    base = base' ∧ channel = channel' ∧ s = s' := by
  obtain ⟨hbase, h⟩ := identity_eq_ok.mp h
  obtain ⟨hbase', h'⟩ := identity_eq_ok.mp h'
  have hdash := dash_notMem_base hbase
  have hdash' := dash_notMem_base hbase'
  have hparts : ∀ b c t : String, (b ++ "-" ++ c ++ "." ++ t).toList =
      b.toList ++ '-' :: (c.toList ++ '.' :: t.toList) := by
    intro b c t
    simp
  -- only a candidate has a dash, and its first one ends the base
  rcases h with ⟨rfl, rfl, rfl⟩ | ⟨hchannel, text, htext, rfl⟩
  · rcases h' with ⟨rfl, rfl, rfl⟩ | ⟨-, text', -, hversion⟩
    · exact ⟨rfl, rfl, rfl⟩
    · rw [hversion, hparts] at hdash
      simp at hdash
  · rcases h' with ⟨-, -, hversion⟩ | ⟨hchannel', text', htext', hversion⟩
    · rw [← hversion, hparts] at hdash'
      simp at hdash'
    · have hlist := congrArg String.toList hversion
      rw [hparts, hparts] at hlist
      obtain ⟨hb, hrest⟩ := cut_inj hdash hdash' hlist
      -- no channel has a dot, so the next one ends the channel
      have hdot : ∀ c ∈ candidateChannels, '.' ∉ c.toList := by decide
      obtain ⟨hc, ht⟩ := cut_inj (hdot _ hchannel) (hdot _ hchannel') hrest
      obtain rfl := String.toList_inj.mp hc
      obtain rfl := String.toList_inj.mp ht
      exact ⟨String.toList_inj.mp hb, rfl, sequenceText_injective htext htext'⟩

/-! ## Well-formed plans -/

/-- The checks of `validatePlan` that need no policy. -/
structure Plan.WellFormed (plan : Plan) : Prop where
  schema : plan.schemaVersion = 1
  identity : identity plan.baseVersion plan.channel plan.sequence = .ok plan.version
  tag : plan.tag = "v" ++ plan.version
  source : isSha plan.sourceSha = true
  digest : isHex 64 plan.policySha256 = true
  promotion : ["promote-bytes", "final-build"].contains plan.promotion = true
  build : validBuild plan.buildNumber = true

/-- A tag determines the identity of its plan. -/
theorem Plan.WellFormed.tag_injective {plan plan' : Plan} (h : plan.WellFormed)
    (h' : plan'.WellFormed) (htag : plan.tag = plan'.tag) :
    plan.baseVersion = plan'.baseVersion ∧ plan.channel = plan'.channel ∧
      plan.sequence = plan'.sequence := by
  have hversion : plan.version = plan'.version := by
    rw [h.tag, h'.tag] at htag
    have hlist := congrArg String.toList htag
    rw [String.toList_append, String.toList_append] at hlist
    exact String.toList_inj.mp (List.append_cancel_left hlist)
  exact identity_injective (hversion ▸ h.identity) h'.identity

theorem validatePlan_eq_ok {plan plan' : Plan} {policy : Option Policy}
    {sourceSha : Option String} :
    validatePlan plan policy sourceSha = .ok plan' ↔
      plan.WellFormed ∧ (∀ p, policy = some p → matchPolicy plan p = .ok ()) ∧
        (∀ sha, sourceSha = some sha → plan.sourceSha = sha) ∧ plan = plan' := by
  unfold validatePlan
  rw [require_bind_eq_ok, bind_eq_ok, beq_iff_eq]
  simp only [then_eq_ok, require_eq_ok, forM_eq_ok, pure_eq_ok, Bool.and_eq_true, beq_iff_eq]
  constructor
  · rintro ⟨hschema, version, hidentity, ⟨rfl, htag⟩, hsource, hdigest, hpromotion, hbuild, hrest⟩
    exact ⟨⟨hschema, hidentity, htag, hsource, hdigest, hpromotion, hbuild⟩, hrest⟩
  · rintro ⟨h, hrest⟩
    exact ⟨h.schema, plan.version, h.identity, ⟨rfl, h.tag⟩, h.source, h.digest, h.promotion,
      h.build, hrest⟩

theorem matchPolicy_eq_ok {plan : Plan} {policy : Policy} :
    matchPolicy plan policy = .ok () ↔
      ∃ config, validatePolicy policy = .ok config ∧ plan.policySha256 = policy.digest ∧
        plan.promotion = config.promotion ∧ exceedsFloor plan.buildNumber config.floor = true ∧
        (config.files.forM fun item => do let _ ← projectedValue plan item) = .ok () := by
  unfold matchPolicy
  rw [bind_eq_ok]
  simp only [then_eq_ok, require_eq_ok, beq_iff_eq]

/-- An accepted policy has one of the two promotion profiles. -/
theorem validatePolicy_promotion {policy : Policy} {config : Versioning}
    (h : validatePolicy policy = .ok config) :
    ["promote-bytes", "final-build"].contains config.promotion = true := by
  unfold validatePolicy at h
  split at h
  · cases h
  · simp only [then_eq_ok, require_eq_ok, pure_eq_ok] at h
    obtain ⟨-, -, hpromotion, -, -, -, -, -, -, rfl⟩ := h
    exact hpromotion

/-- A plan that is created is the one of its inputs, and is accepted with them. -/
theorem createPlan_eq_ok {base channel sourceSha : String} {sequence : Sequence} {policy : Policy}
    {build : Option Int} {plan : Plan}
    (h : createPlan base channel sequence sourceSha policy build = .ok plan) :
    plan.WellFormed ∧ matchPolicy plan policy = .ok () ∧ plan.sourceSha = sourceSha ∧
      plan.baseVersion = base ∧ plan.channel = channel ∧ plan.sequence = sequence ∧
      plan.buildNumber = build := by
  unfold createPlan at h
  rw [bind_eq_ok] at h
  obtain ⟨config, hconfig, h⟩ := h
  rw [bind_eq_ok] at h
  obtain ⟨version, hversion, h⟩ := h
  simp only [then_eq_ok, require_eq_ok, pure_eq_ok] at h
  obtain ⟨hsource, hbuild, hfloor, hfiles, rfl⟩ := h
  refine ⟨⟨rfl, hversion, rfl, hsource, policy.digest_hex, validatePolicy_promotion hconfig,
    hbuild⟩, ?_, rfl, rfl, rfl, rfl, rfl⟩
  exact matchPolicy_eq_ok.mpr ⟨config, hconfig, rfl, rfl, hfloor, hfiles⟩

end McpVenusOs.Release
