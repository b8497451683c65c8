/-
  McpVenusOs.Release.Ledger

  The version ledger: `scripts/release_state.py` against GitHub.

  Every release run reserves its plan in one JSON file of a dedicated branch, and
  consumes the build number of the plan before it publishes.  Runs are concurrent,
  requests get lost, runs are killed and retried; the file is replaced by compare
  and swap on its blob SHA (`McpVenusOs.Lib.Register`).

  A read answers with the ledger and its blob SHA, a write names the SHA it
  replaces.  Whatever else GitHub is asked (refs, tags, releases) may be answered
  by anything.
-/

import Mathlib.Data.List.AList
import Mathlib.Data.List.Sort
import Mathlib.Data.String.Basic
import McpVenusOs.Lib.Register
import McpVenusOs.Release.Plan

namespace McpVenusOs.Release

open Py Program

/-! ## The ledger -/

/-- The accepted candidate a final build is derived from. -/
structure Parent where
  tag : String
  manifestSha256 : String
  sourceSha : String
  runId : Int
  deriving DecidableEq

/-- `_Reservation` -/
structure Reservation where
  plan : Plan
  parent : Option Parent
  deriving DecidableEq

/-- Reservations by run ID, in the order of the IDs: `json_bytes` sorts the keys of what
    is stored, and so does not tell two orders apart. -/
structure Plans extends AList (fun _ : String => Reservation) where
  sorted : entries.Pairwise fun a b => a.1 ≤ b.1

namespace Plans

instance : EmptyCollection Plans := ⟨{ toAList := ∅, sorted := .nil }⟩

instance instIsTransKey : IsTrans ((_ : String) × Reservation) fun a b => a.1 ≤ b.1 :=
  ⟨fun _ _ _ hab hbc => le_trans hab hbc⟩

instance instTotalKey : Std.Total fun a b : (_ : String) × Reservation => a.1 ≤ b.1 :=
  ⟨fun a b => le_total a.1 b.1⟩

/-- `plans[key] = record` -/
def insert (plans : Plans) (key : String) (record : Reservation) : Plans where
  entries := (plans.toAList.insert key record).entries.insertionSort fun a b => a.1 ≤ b.1
  nodupKeys := (List.perm_nodupKeys (List.perm_insertionSort _ _)).mpr
    (plans.toAList.insert key record).nodupKeys
  sorted := List.pairwise_insertionSort _ _

/-- Sorting moves no record to another key. -/
theorem lookup_insert_eq (plans : Plans) (key : String) (record : Reservation) (key' : String) :
    (plans.insert key record).lookup key' = (plans.toAList.insert key record).lookup key' :=
  AList.perm_lookup (List.perm_insertionSort _ _)

theorem lookup_insert (plans : Plans) (key : String) (record : Reservation) :
    (plans.insert key record).lookup key = some record := by
  rw [lookup_insert_eq, AList.lookup_insert]

theorem lookup_insert_ne (plans : Plans) {key key' : String} (record : Reservation)
    (h : key' ≠ key) : (plans.insert key record).lookup key' = plans.lookup key' := by
  rw [lookup_insert_eq, AList.lookup_insert_ne h]

end Plans

/-- `_Ledger`; the default is the ledger before the first reservation. -/
structure Ledger where
  schema : Int := 1
  counter : Int := 0
  publicationFloor : Int := 0
  plans : Plans := ∅

/-- `rc.require` -/
def rcRequire (condition : Bool) (message : String) : Except ReleaseError Unit :=
  if condition then .ok () else .error (.release message)

/-- `str(rc.positive(value, name))` of an integer. -/
def positive (value : Int) (name : String) : Except ReleaseError String := do
  let text ← intText value
  rcRequire (isPositive text.toList) ("Invalid " ++ name)
  return text

/-- `rc.positive(value, name)` of a text. -/
def positiveText (value : String) (name : String) : Except ReleaseError Unit := do
  rcRequire (isPositive value.toList) ("Invalid " ++ name)
  if value.toList.length ≤ maxStrDigits then .ok () else .error .valueError

/-- An integer is expected: `None` does not compare. -/
def nativeBuild (plan : Plan) : Except ReleaseError Int :=
  match plan.buildNumber with
  | some n => .ok n
  | none => .error .typeError

/-- One turn of the loop of `read_state`. -/
def checkReservation (counter : Int) (key : String) (record : Reservation) :
    Except ReleaseError Unit := do
  positiveText key "ledger run ID"
  let plan ← validatePlan record.plan none none
  let build ← nativeBuild plan
  rcRequire (build ≤ counter) "Ledger counter moved backwards"

/-- The checks of `read_state` on the content of the file. -/
def Ledger.check (state : Ledger) : Except ReleaseError Unit := do
  rcRequire (state.schema == 1) "Unsupported version ledger schema"
  rcRequire (0 ≤ state.counter) "Invalid ledger counter"
  rcRequire (0 ≤ state.publicationFloor && state.publicationFloor ≤ state.counter)
    "Invalid ledger publication floor"
  state.plans.entries.forM fun entry => checkReservation state.counter entry.1 entry.2

/-! ## GitHub -/

/-- An entry of the release list. -/
structure ReleaseRecord where
  tagName : Option String
  draft : Bool
  deriving DecidableEq

/-- The requests beside those for the ledger file. -/
inductive GithubQuery
  | refPresent
  | createRef (sha : String)
  | tagRef (tag : String)
  | releaseByTag (tag : String)
  | tags
  | releases

/-- `optional` answers whether the resource is there, `pages` with all entries. -/
abbrev GithubQuery.Payload : GithubQuery → Type
  | .refPresent | .tagRef _ | .releaseByTag _ => Bool
  | .createRef _ => Unit
  | .tags => List String
  | .releases => List ReleaseRecord

/-- What GitHub makes of a ledger file: its length in bytes and its blob SHA. -/
structure Blobs (A : Type) where
  size : Ledger → Nat
  sha : Ledger → A
  /-- `SHA_RE.fullmatch` -/
  isSha : A → Bool

section Program

variable {A : Type}

abbrev LedgerOp (A : Type) : Type := Register.Op Ledger A GithubQuery

abbrev LedgerResp (A : Type) : LedgerOp A → Type :=
  Register.Resp Ledger A ReleaseError fun q : GithubQuery => Except ReleaseError q.Payload

abbrev LedgerProgram (A α : Type) : Type := Program (LedgerOp A) (LedgerResp A) ReleaseError α

/-- A result or an exception. -/
def ofExcept {α : Type} : Except ReleaseError α → LedgerProgram A α
  | .ok a => .ret a
  | .error e => .raise e

/-- `gh.optional(READ_PATH)` -/
def getLedger : LedgerProgram A (Option (Ledger × A)) := do
  ofExcept (← perform (.read : LedgerOp A))

/-- `write_state` -/
def writeState (state : Ledger) (previous : Option A) : LedgerProgram A Unit := do
  ofExcept (← perform (.write previous state : LedgerOp A))

/-- Another request; its failure is an exception. -/
def request (q : GithubQuery) : LedgerProgram A q.Payload := do
  ofExcept (← perform (.ask q : LedgerOp A))

/-! ## `release_state.py` -/

variable (blobs : Blobs A)

/-- `read_state` -/
def readState : LedgerProgram A (Ledger × Option A) := do
  match ← getLedger with
  | none =>
    let present ← request .refPresent
    ofExcept (rcRequire (!present)
      "Version ledger is missing from its existing branch; restore it from history")
    return ({}, none)
  | some (state, sha) =>
    ofExcept (rcRequire (blobs.size state ≤ 4000000)
      "Ledger requires compaction before another allocation")
    ofExcept state.check
    ofExcept (rcRequire (blobs.isSha sha) "Invalid ledger blob SHA")
    return (state, some sha)

/-- The number of a tag `vX.Y.Z-channel.N`, if it is one with this beginning. -/
def tagSequence (pre tag : String) : Except ReleaseError (Option Nat) := do
  let rest := tag.toList.drop pre.toList.length
  if startsWith tag pre && isPositive rest then return some (← intOfDigits rest)
  return none

/-- `next_sequence` -/
def nextSequence (base channel : String) : LedgerProgram A Int := do
  ofExcept (rcRequire (["beta", "rc"].contains channel) "Sequence only applies to beta and rc")
  ofExcept (rcRequire (isBase base) "Version must be strict X.Y.Z without leading zeros")
  let tags ← request .tags
  let releases ← request .releases
  let names := tags ++ releases.map fun release => release.tagName.getD ""
  let numbers ← ofExcept (names.mapM (tagSequence ("v" ++ base ++ "-" ++ channel ++ ".")))
  return ((numbers.filterMap id).max?.getD 0 : Nat) + 1

/-- `ensure_absent` -/
def ensureAbsent (tag : String) : LedgerProgram A Unit := do
  ofExcept (rcRequire (!(← request (.tagRef tag))) ("Tag already exists: " ++ tag))
  ofExcept (rcRequire (!(← request (.releaseByTag tag))) ("Release already exists: " ++ tag))
  let releases ← request .releases
  ofExcept (rcRequire (!releases.any fun release => release.tagName == some tag)
    ("Draft release already exists: " ++ tag))

/-- A UTC time. -/
structure DateTime where
  year : Nat
  month : Nat
  day : Nat
  hour : Nat
  minute : Nat
  second : Nat

/-- `now.strftime("%Y%m%d%H%M%S")` -/
def DateTime.stamp (now : DateTime) : String :=
  let field (width value : Nat) := (Nat.toDigits 10 value).leftpad width '0'
  String.ofList (field 4 now.year ++ field 2 now.month ++ field 2 now.day ++ field 2 now.hour ++
    field 2 now.minute ++ field 2 now.second)

/-- The arguments of `reserve_plan`. -/
structure ReserveRequest where
  policy : Policy
  base : String
  channel : String
  sourceSha : String
  runId : Int
  attempt : Int
  now : DateTime
  parent : Option Parent

/-- A sequence that is compared with others of its channel. -/
def sequenceNumber : Sequence → Except ReleaseError Int
  | .number n => .ok n
  | _ => .error .typeError

/-- The sequences that a ledger has reserved for a base version and channel. -/
def reservedSequences (state : Ledger) (base channel : String) :
    Except ReleaseError (List Int) :=
  (state.plans.entries.filter fun entry =>
      entry.2.plan.baseVersion == base && entry.2.plan.channel == channel).mapM fun entry =>
    sequenceNumber entry.2.plan.sequence

/-- The sequence of a new reservation. -/
def allocateSequence (r : ReserveRequest) (state : Ledger) : LedgerProgram A Sequence :=
  if ["beta", "rc"].contains r.channel then do
    let sequence ← nextSequence r.base r.channel
    let reserved ← ofExcept (reservedSequences state r.base r.channel)
    return .number (max sequence (reserved.max?.getD 0 + 1))
  else if r.channel = "nightly" then do
    let run ← ofExcept (intText r.runId)
    let attempt ← ofExcept (intText r.attempt)
    return .text (r.now.stamp ++ "." ++ run ++ "." ++ attempt)
  else return .none

/-- `policy["versioning"].get("build_number_floor", 0)` -/
def nativeFloor (policy : Policy) : Except ReleaseError Int :=
  match policy.versioning with
  | none => .error .keyError
  | some config => do
    rcRequire (0 ≤ config.floor) "Invalid native build counter floor"
    return config.floor

/-- The ledger with one more reservation. -/
def Ledger.reserve (state : Ledger) (key : String) (number : Int) (record : Reservation) :
    Ledger :=
  { state with counter := number, plans := state.plans.insert key record }

/-- The state branch is created with the first reservation. -/
def ensureRef (sourceSha : String) : LedgerProgram A Unit := do
  if ← request .refPresent then return ()
  else request (.createRef sourceSha)

/-- `reserve_plan` -/
def reservePlan (r : ReserveRequest) : LedgerProgram A Plan := do
  let runKey ← ofExcept (positive r.runId "run ID")
  let (state, previous) ← readState blobs
  match state.plans.lookup runKey with
  | some record =>
    let plan ← ofExcept (validatePlan record.plan (some r.policy) (some r.sourceSha))
    ofExcept (rcRequire (plan.baseVersion == r.base && plan.channel == r.channel)
      "Run already reserved a different release identity")
    ofExcept (rcRequire (record.parent == r.parent) "Run already reserved a different RC")
    return plan
  | none =>
    let sequence ← allocateSequence r state
    let floor ← ofExcept (nativeFloor r.policy)
    let number := max state.counter floor + 1
    let plan ← ofExcept
      (createPlan r.base r.channel sequence r.sourceSha r.policy (some number))
    ensureAbsent plan.tag
    ensureRef r.sourceSha
    writeState (state.reserve runKey number ⟨plan, r.parent⟩) previous
    return plan

/-- The reserved plans that have been published. -/
def publishedPlans (state : Ledger) (releases : List ReleaseRecord) : List Plan :=
  let published := (releases.filter fun release => !release.draft).map ReleaseRecord.tagName
  (state.plans.entries.map fun entry => entry.2.plan).filter fun plan =>
    published.contains (some plan.tag)

/-- `_verify_reservation` -/
def verifyReservationIn (state : Ledger) (plan : Plan) (runId : Int) (parent : Option Parent) :
    LedgerProgram A Unit := do
  let _ ← ofExcept (validatePlan plan none none)
  let runKey ← ofExcept (positive runId "run ID")
  ofExcept (rcRequire (state.plans.lookup runKey == some ⟨plan, parent⟩)
    "Version reservation differs from build plan")
  let build ← ofExcept (nativeBuild plan)
  ofExcept (rcRequire (state.publicationFloor < build)
    "Build number has already reached or fallen below the publication floor")
  let releases ← request .releases
  let builds ← ofExcept ((publishedPlans state releases).mapM nativeBuild)
  ofExcept (rcRequire (builds.all fun other => other < build)
    "A package with this or a newer build number was already published")

/-- `verify_reservation` -/
def verifyReservation (plan : Plan) (runId : Int) (parent : Option Parent) :
    LedgerProgram A Unit := do
  let (state, _) ← readState blobs
  verifyReservationIn state plan runId parent

/-- `_verify_promotion_order` -/
def verifyPromotionOrderIn (state : Ledger) (plan : Plan) : LedgerProgram A Unit := do
  let _ ← ofExcept (validatePlan plan none none)
  ofExcept (rcRequire (plan.channel == "rc" && plan.promotion == "promote-bytes")
    "Byte promotion requires a promote-bytes RC plan")
  ofExcept (rcRequire ((state.plans.entries.filter fun entry => entry.2.plan == plan).length == 1)
    "Accepted RC has no unique durable version reservation")
  let build ← ofExcept (nativeBuild plan)
  ofExcept (rcRequire (state.publicationFloor ≤ build)
    "Accepted RC build number is below the publication floor")
  let releases ← request .releases
  ofExcept (rcRequire ((releases.filter fun release => !release.draft).any fun release =>
      release.tagName == some plan.tag) "Accepted RC is no longer published")
  let builds ← ofExcept
    (((publishedPlans state releases).filter fun other => other.tag != plan.tag).mapM nativeBuild)
  ofExcept (rcRequire (builds.all fun other => other ≤ build)
    "A newer native build was published after the accepted RC")

/-- `verify_promotion_order` -/
def verifyPromotionOrder (plan : Plan) : LedgerProgram A Unit := do
  let (state, _) ← readState blobs
  verifyPromotionOrderIn state plan

/-- `begin_publication`; the ledger that was stored is returned. -/
def beginPublication (plan : Plan) (runId : Int) (parent : Option Parent) (promotion : Bool) :
    LedgerProgram A Ledger := do
  let _ ← ofExcept (positive runId "run ID")
  let (state, previous) ← readState blobs
  if promotion then verifyPromotionOrderIn state plan
  else verifyReservationIn state plan runId parent
  let build ← ofExcept (nativeBuild plan)
  let state := { state with publicationFloor := build }
  writeState state previous
  return state

/-! ## Concurrent runs -/

/-- What a release run calls. -/
inductive LedgerCall
  | reserve (r : ReserveRequest)
  | verify (plan : Plan) (runId : Int) (parent : Option Parent)
  | verifyOrder (plan : Plan)
  | publish (plan : Plan) (runId : Int) (parent : Option Parent) (promotion : Bool)

inductive LedgerResult
  | reserved (plan : Plan)
  | verified
  | consumed (state : Ledger)

def LedgerCall.body : LedgerCall → LedgerProgram A LedgerResult
  | .reserve r => do return .reserved (← reservePlan blobs r)
  | .verify plan runId parent => do
    verifyReservation blobs plan runId parent
    return .verified
  | .verifyOrder plan => do
    verifyPromotionOrder blobs plan
    return .verified
  | .publish plan runId parent promotion => do
    return .consumed (← beginPublication blobs plan runId parent promotion)

/-- Any number of release runs on one ledger. -/
abbrev ledgerSystem [DecidableEq A] := Register.system blobs.sha (LedgerCall.body blobs)

end Program

end McpVenusOs.Release
