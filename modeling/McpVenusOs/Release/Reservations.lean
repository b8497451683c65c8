/-
  McpVenusOs.Release.Reservations

  What concurrent release runs may rely on in the version ledger.

  The register lets only the steps of the calls happen, in some order
  (`history_steps`).  So every stored ledger is sound, later ledgers extend earlier
  ones, and what one run was told stays true for all.
-/

import McpVenusOs.Release.LedgerInvariant

namespace McpVenusOs.Release

open Py Program Machine Pool Register

/-! ## Every run -/

section Runs

variable {A : Type} [DecidableEq A] {blobs : Blobs A}

/-- What is seen of release runs on one ledger. -/
abbrev LedgerLog (A : Type) : Type :=
  Register.Log LedgerCall ReleaseError LedgerResult Ledger A ReleaseError
    fun q : GithubQuery => Except ReleaseError q.Payload

abbrev LedgerEvent : Type :=
  Pool.Event LedgerCall Register.Delivery
    (Register.Choice ReleaseError fun q : GithubQuery => Except ReleaseError q.Payload)

variable {es : List LedgerEvent} {log : LedgerLog A}
  {s : Pool.State (Store Ledger A) LedgerCall (LedgerOp A) (LedgerResp A) ReleaseError LedgerResult}

/-- Every stored ledger is a step of the call that wrote it from the one before. -/
theorem history_steps (hsha : Function.Injective blobs.sha)
    (h : Run (ledgerSystem blobs) es log s) :
    Chain (fun i cur next => ∃ c, (spawned es)[i]? = some c ∧ Step c cur next) s.world.history :=
  history_derived hsha wp_body h

/-! A run in which the answer to the first reservation is lost. -/

section Fixture

/-- What a ledger holds, as the address of its content. -/
abbrev FixtureSha : Type := Int × Int × Int × List (String × Reservation)

def fixtureBlobs : Blobs FixtureSha where
  size state := 60 + 500 * state.plans.entries.length
  sha state := (state.schema, state.counter, state.publicationFloor,
    state.plans.entries.map fun entry => (entry.1, entry.2))
  isSha _ := true

theorem fixtureBlobs_injective : Function.Injective fixtureBlobs.sha := by
  rintro ⟨schema, counter, floor, plans⟩ ⟨schema', counter', floor', plans'⟩ h
  simp only [fixtureBlobs, Prod.mk.injEq] at h
  obtain ⟨rfl, rfl, rfl, hentries⟩ := h
  have hpair : Function.Injective fun entry : (_ : String) × Reservation =>
      (entry.1, entry.2) := by
    rintro ⟨key, record⟩ ⟨key', record'⟩ heq
    cases heq
    rfl
  have hplans : plans.toAList = plans'.toAList :=
    AList.ext (List.map_injective_iff.mpr hpair hentries)
  cases plans
  cases plans'
  cases hplans
  rfl

def fixturePolicy : Policy where
  versioning := some {
    schema := 1
    promotion := "promote-bytes"
    files := [{ path := some "pyproject.toml", format := some "toml",
                field := some (.dotted "project.version") }] }
  digest := String.ofList (List.replicate 64 'a')
  digest_hex := by decide

def fixtureRequest (runId : Int) : ReserveRequest where
  policy := fixturePolicy
  base := "0.3.0"
  channel := "beta"
  sourceSha := String.ofList (List.replicate 40 'b')
  runId := runId
  attempt := 1
  now := ⟨2026, 9, 30, 12, 5, 0⟩
  parent := none

def fixturePlan (n : Nat) : Plan where
  schemaVersion := 1
  baseVersion := "0.3.0"
  version := "0.3.0-beta." ++ toString n
  channel := "beta"
  sequence := .number n
  tag := "v0.3.0-beta." ++ toString n
  sourceSha := String.ofList (List.replicate 40 'b')
  buildNumber := some n
  policySha256 := String.ofList (List.replicate 64 'a')
  promotion := "promote-bytes"

/-- Nothing is there yet. -/
def fixtureAnswers : (q : GithubQuery) → Except ReleaseError q.Payload
  | .refPresent => .ok false
  | .tagRef _ => .ok false
  | .releaseByTag _ => .ok false
  | .createRef _ => .ok ()
  | .tags => .ok []
  | .releases => .ok []

def fixtureTurns (i n : Nat) : List LedgerEvent :=
  .resume i (.seen 0) :: List.replicate n (.resume i (.say fixtureAnswers))

/-- The answer to the first reservation is lost, and the run retries; another run
    reserves after it, and both publish. -/
def fixtureSchedule : List LedgerEvent :=
  .spawn (.reserve (fixtureRequest 7)) :: fixtureTurns 0 8 ++
    [.resume 0 (.fail (.github "timeout" false)), .resume 0 (.seen 0), .env (.deliver 0),
     .spawn (.reserve (fixtureRequest 7))] ++ fixtureTurns 1 1 ++
    .spawn (.reserve (fixtureRequest 8)) :: fixtureTurns 2 7 ++
    [.resume 2 .accept, .resume 2 (.seen 0),
     .spawn (.publish (fixturePlan 1) 7 none false)] ++ fixtureTurns 3 1 ++
    [.resume 3 .accept, .resume 3 (.seen 0),
     .spawn (.publish (fixturePlan 2) 8 none false)] ++ fixtureTurns 4 1 ++
    [.resume 4 .accept, .resume 4 (.seen 0)]

def isReserved (i : Nat) (runId : Int) :
    Pool.Out LedgerCall (LedgerOp FixtureSha) (LedgerResp FixtureSha) ReleaseError LedgerResult
      (Entry Ledger) → Bool
  | .returned j (.reserve r) _ (.ok (.reserved _)) => j == i && r.runId == runId
  | _ => false

def isConsumed (i : Nat) : Pool.Out LedgerCall (LedgerOp FixtureSha) (LedgerResp FixtureSha)
    ReleaseError LedgerResult (Entry Ledger) → Bool
  | .returned j (.publish _ _ _ false) _ (.ok (.consumed _)) => j == i
  | _ => false

theorem fixture_run : ∃ log s, Run (ledgerSystem fixtureBlobs) fixtureSchedule log s ∧
    s.world.history.length = 4 ∧ log.any (isReserved 1 7) = true ∧
    log.any (isReserved 2 8) = true ∧ log.any (isConsumed 3) = true ∧
    log.any (isConsumed 4) = true := by
  let m := ledgerSystem fixtureBlobs
  have hrun : (m.exec m.init fixtureSchedule).any (fun r =>
      r.1.world.history.length == 4 && r.2.any (isReserved 1 7) && r.2.any (isReserved 2 8) &&
        r.2.any (isConsumed 3) && r.2.any (isConsumed 4)) = true := by
    decide +kernel
  obtain ⟨⟨s, log⟩, hexec, hrun⟩ := Option.any_eq_true _ _ |>.mp hrun
  simp only [Bool.and_eq_true, beq_iff_eq] at hrun
  exact ⟨log, s, path_of_exec hexec, hrun.1.1.1.1, hrun.1.1.1.2, hrun.1.1.2, hrun.1.2, hrun.2⟩

end Fixture

theorem history_sound (hsha : Function.Injective blobs.sha)
    (h : Run (ledgerSystem blobs) es log s) : ∀ e ∈ s.world.history, e.value.Sound := by
  refine (history_steps hsha h).all ?_
  rintro i cur next ⟨c, -, hstep⟩ hcur
  refine hstep.sound ?_
  cases cur with
  | none => exact sound_empty
  | some state => exact hcur state rfl

theorem history_extends (hsha : Function.Injective blobs.sha)
    (h : Run (ledgerSystem blobs) es log s) :
    s.world.history.Pairwise fun later earlier => earlier.value.Extends later.value := by
  refine (history_steps hsha h).pairwise (fun _ _ _ => Ledger.Extends.trans) ?_
  rintro i state next ⟨c, -, hstep⟩
  exact hstep.extends

/-- In every run, whatever is lost, delayed, repeated or killed: each ledger ever
    stored passes the checks that `read_state` makes of the ledger in a file, gives
    no number to two runs, and keeps all that the ledgers before it held. -/
theorem ledger_invariant (hsha : Function.Injective blobs.sha)
    (h : Run (ledgerSystem blobs) es log s) :
    (∀ e ∈ s.world.history, e.value.check = .ok () ∧ e.value.Sound) ∧
      s.world.history.Pairwise fun later earlier => earlier.value.Extends later.value := by
  refine ⟨fun e he => ?_, history_extends hsha h⟩
  have hsound := history_sound hsha h e he
  exact ⟨Ledger.check_eq_ok.mpr hsound.checked, hsound⟩

/-- Four ledgers are stored, the first by a request whose answer was lost. -/
theorem ledger_invariant_lost_answer : ∃ log s,
    Run (ledgerSystem fixtureBlobs) fixtureSchedule log s ∧ s.world.history.length = 4 ∧
      ∀ e ∈ s.world.history, e.value.check = .ok () := by
  obtain ⟨log, s, hrun, hlength, -⟩ := fixture_run
  exact ⟨log, s, hrun, hlength, fun e he =>
    ((ledger_invariant fixtureBlobs_injective hrun).1 e he).1⟩

/-- The current ledger extends every stored one. -/
theorem current_extends (hsha : Function.Injective blobs.sha)
    (h : Run (ledgerSystem blobs) es log s) {e : Entry Ledger} (he : e ∈ s.world.history) :
    ∃ state, s.world.current = some state ∧ state.Sound ∧ e.value.Extends state := by
  have hsound := history_sound hsha h
  have hextends := history_extends hsha h
  rw [Store.current]
  cases hhistory : s.world.history with
  | nil =>
    rw [hhistory] at he
    cases he
  | cons head rest =>
    rw [hhistory] at he hsound hextends
    refine ⟨head.value, rfl, hsound head List.mem_cons_self, ?_⟩
    rcases List.mem_cons.mp he with rfl | he
    · exact .refl _
    · exact (List.pairwise_cons.mp hextends).1 e he

/-- A plan that was returned to a run is in the ledger for good. -/
theorem reservation_durable (hsha : Function.Injective blobs.sha)
    (h : Run (ledgerSystem blobs) es log s) {i : Nat} {r : ReserveRequest} {t : LedgerTrace A}
    {plan : Plan} (hr : .returned i (.reserve r) t (.ok (.reserved plan)) ∈ log) :
    ∃ state key, s.world.current = some state ∧ state.Sound ∧
      positive r.runId "run ID" = .ok key ∧
      state.plans.lookup key = some ⟨plan, r.parent⟩ := by
  have houtcome : Outcome (.reserve r) t (.ok (.reserved plan)) := meets_of_wp wp_body h _ hr
  obtain ⟨key, hkey, hstored⟩ := houtcome
  -- it was read, or written
  have hentry : ∃ e ∈ s.world.history, e.value.plans.lookup key = some ⟨plan, r.parent⟩ := by
    rcases hstored with ⟨state, sha, hread, hrecord⟩ | ⟨previous, next, hwrite, hrecord⟩
    · obtain ⟨-, e, he, rfl⟩ := returned_tells h hr hread state sha rfl
      exact ⟨e, he, hrecord⟩
    · exact ⟨_, returned_tells h hr hwrite rfl, hrecord⟩
  obtain ⟨e, he, hrecord⟩ := hentry
  obtain ⟨state, hcurrent, hsound, hextends⟩ := current_extends hsha h he
  exact ⟨state, key, hcurrent, hsound, hkey, hextends.plans key _ hrecord⟩

theorem positive_injective {m n : Int} {name key : String} (h : positive m name = .ok key)
    (h' : positive n name = .ok key) : m = n := by
  have hm := pyStr_eq (positive_eq_ok.mp h).1
  have hn := pyStr_eq (positive_eq_ok.mp h').1
  exact toString_int_injective (hm.symm.trans hn)

/-- However release runs interleave, crash and retry: all that `reserve_plan`
    returns to one run is one plan, and different runs get different build numbers
    and, but for stable releases, different tags. -/
theorem reservations_agree (hsha : Function.Injective blobs.sha)
    (h : Run (ledgerSystem blobs) es log s) {i j : Nat} {r r' : ReserveRequest}
    {t t' : LedgerTrace A} {plan plan' : Plan}
    (hr : .returned i (.reserve r) t (.ok (.reserved plan)) ∈ log)
    (hr' : .returned j (.reserve r') t' (.ok (.reserved plan')) ∈ log) :
    (r.runId = r'.runId → plan = plan' ∧ r.parent = r'.parent) ∧
      (r.runId ≠ r'.runId → plan.buildNumber ≠ plan'.buildNumber ∧
        (plan.tag = plan'.tag → plan.channel = "stable")) := by
  obtain ⟨state, key, hcurrent, hsound, hkey, hrecord⟩ := reservation_durable hsha h hr
  obtain ⟨state', key', hcurrent', -, hkey', hrecord'⟩ := reservation_durable hsha h hr'
  obtain rfl : state = state' := by
    rw [hcurrent, Option.some.injEq] at hcurrent'
    exact hcurrent'
  constructor
  · intro hrun
    rw [hrun, hkey', Except.ok.injEq] at hkey
    rw [← hkey, hrecord', Option.some.injEq, Reservation.mk.injEq] at hrecord
    exact ⟨hrecord.1.symm, hrecord.2.symm⟩
  · intro hrun
    have hne : key ≠ key' := by
      rintro rfl
      exact hrun (positive_injective hkey hkey')
    exact ⟨hsound.distinct.numbers key key' _ _ hrecord hrecord' hne,
      hsound.distinct.tags key key' _ _ hrecord hrecord' hne⟩

/-- The retry of run 7 and run 8 are given different numbers. -/
theorem reservations_agree_two_runs : ∃ log s r r' t t' plan plan',
    Run (ledgerSystem fixtureBlobs) fixtureSchedule log s ∧
      .returned 1 (.reserve r) t (.ok (.reserved plan)) ∈ log ∧
      .returned 2 (.reserve r') t' (.ok (.reserved plan')) ∈ log ∧
      r.runId = 7 ∧ r'.runId = 8 ∧ plan.buildNumber ≠ plan'.buildNumber := by
  obtain ⟨log, s, hrun, -, h₁, h₂, -⟩ := fixture_run
  obtain ⟨x, hx, hreserved⟩ := List.any_eq_true.mp h₁
  obtain ⟨x', hx', hreserved'⟩ := List.any_eq_true.mp h₂
  unfold isReserved at hreserved hreserved'
  split at hreserved
  · split at hreserved'
    · rename_i i r t plan _ j r' t' plan'
      rw [Bool.and_eq_true, beq_iff_eq, beq_iff_eq] at hreserved hreserved'
      obtain ⟨rfl, hid⟩ := hreserved
      obtain ⟨rfl, hid'⟩ := hreserved'
      have hne : r.runId ≠ r'.runId := by
        rw [hid, hid']
        decide
      exact ⟨log, s, r, r', t, t', plan, plan', hrun, hx, hx', hid, hid',
        ((reservations_agree fixtureBlobs_injective hrun hx hx').2 hne).1⟩
    · cases hreserved'
  · cases hreserved

/-- A publication that returned has put its number above every floor before it, a
    promotion not below, and no later floor is below. -/
theorem publication_ascends (hsha : Function.Injective blobs.sha)
    (h : Run (ledgerSystem blobs) es log s) {i : Nat} {plan : Plan} {runId : Int}
    {parent : Option Parent} {promotion : Bool} {t : LedgerTrace A} {state : Ledger}
    (hr : .returned i (.publish plan runId parent promotion) t (.ok (.consumed state)) ∈ log) :
    plan.buildNumber = some state.publicationFloor ∧ ⟨i, state⟩ ∈ s.world.history ∧
      ∀ newer older, s.world.history = newer ++ ⟨i, state⟩ :: older →
        (∀ e ∈ older, e.value.publicationFloor ≤ state.publicationFloor ∧
          (promotion = false → e.value.publicationFloor < state.publicationFloor)) ∧
          ∀ e ∈ newer, state.publicationFloor ≤ e.value.publicationFloor := by
  have houtcome : Outcome (.publish plan runId parent promotion) t (.ok (.consumed state)) :=
    meets_of_wp wp_body h _ hr
  obtain ⟨hbuild, previous, hwrite⟩ := houtcome
  refine ⟨hbuild, returned_tells h hr hwrite rfl, fun newer older hhistory => ?_⟩
  have hsteps := history_steps hsha h
  have hextends := history_extends hsha h
  rw [hhistory] at hsteps hextends
  constructor
  -- the value it was stored over has no higher floor, and so have all before that
  · obtain ⟨c, hc, hstep⟩ := hsteps.split
    rw [((traces h).returned i _ t _ hr).call, Option.some.injEq] at hc
    subst hc
    have hle := hstep.extends.floor
    obtain ⟨-, build, -, hnext, -, hreservation⟩ := hstep
    have hfloor : state.publicationFloor = build := congrArg Ledger.publicationFloor hnext
    intro e he
    have hhead : e.value.publicationFloor ≤
        ((older.head?.map Entry.value).getD {}).publicationFloor := by
      have holder := (List.pairwise_append.mp hextends).2.1
      cases older with
      | nil => cases he
      | cons e' older =>
        rcases List.mem_cons.mp he with rfl | he
        · exact le_rfl
        · have hrest := List.pairwise_cons.mp (List.pairwise_cons.mp holder).2
          exact (hrest.1 e he).floor
    refine ⟨hhead.trans hle, fun hpromotion => ?_⟩
    rw [hfloor]
    exact hhead.trans_lt (hreservation hpromotion).1
  · intro e he
    exact ((List.pairwise_append.mp hextends).2.2 e he _ List.mem_cons_self).floor

/-- `older` was stored before `newer`. -/
def StoredBefore (history : List (Entry Ledger)) (older newer : Entry Ledger) : Prop :=
  ∃ a b c, history = a ++ newer :: (b ++ older :: c)

/-- Build numbers are consumed in the order in which the publications are stored: what
    is stored later has the higher number, and only a promotion may keep the number of
    the candidate that was published before it. -/
theorem publications_ascend (hsha : Function.Injective blobs.sha)
    (h : Run (ledgerSystem blobs) es log s) {i j : Nat} {plan plan' : Plan} {runId runId' : Int}
    {parent parent' : Option Parent} {promotion promotion' : Bool} {t t' : LedgerTrace A}
    {state state' : Ledger}
    (hr : .returned i (.publish plan runId parent promotion) t (.ok (.consumed state)) ∈ log)
    (hr' : .returned j (.publish plan' runId' parent' promotion') t' (.ok (.consumed state')) ∈ log)
    (hne : i ≠ j) :
    plan.buildNumber = some state.publicationFloor ∧
      plan'.buildNumber = some state'.publicationFloor ∧
      ((StoredBefore s.world.history ⟨i, state⟩ ⟨j, state'⟩ ∧
          state.publicationFloor ≤ state'.publicationFloor ∧
          (promotion' = false → state.publicationFloor < state'.publicationFloor)) ∨
        (StoredBefore s.world.history ⟨j, state'⟩ ⟨i, state⟩ ∧
          state'.publicationFloor ≤ state.publicationFloor ∧
          (promotion = false → state'.publicationFloor < state.publicationFloor))) := by
  obtain ⟨hbuild, hmem, hascends⟩ := publication_ascends hsha h hr
  obtain ⟨hbuild', hmem', hascends'⟩ := publication_ascends hsha h hr'
  refine ⟨hbuild, hbuild', ?_⟩
  obtain ⟨newer, older, hhistory⟩ := List.append_of_mem hmem
  rw [hhistory, List.mem_append, List.mem_cons] at hmem'
  rcases hmem' with hnewer | hsame | holder
  · obtain ⟨newer₁, newer₂, rfl⟩ := List.append_of_mem hnewer
    have hsplit : s.world.history = newer₁ ++ ⟨j, state'⟩ :: (newer₂ ++ ⟨i, state⟩ :: older) := by
      rw [hhistory]
      simp
    exact .inl ⟨⟨newer₁, newer₂, older, hsplit⟩,
      (hascends' newer₁ _ hsplit).1 ⟨i, state⟩ (by simp)⟩
  · rw [Entry.mk.injEq] at hsame
    exact absurd hsame.1.symm hne
  · obtain ⟨older₁, older₂, rfl⟩ := List.append_of_mem holder
    exact .inr ⟨⟨newer, older₁, older₂, hhistory⟩,
      (hascends newer _ hhistory).1 ⟨j, state'⟩ (by simp)⟩

/-- Runs 7 and 8 publish one after the other. -/
theorem publications_ascend_two_runs : ∃ log s plan plan' runId runId' parent parent' t t' state
    state', Run (ledgerSystem fixtureBlobs) fixtureSchedule log s ∧
      .returned 3 (.publish plan runId parent false) t (.ok (.consumed state)) ∈ log ∧
      .returned 4 (.publish plan' runId' parent' false) t' (.ok (.consumed state')) ∈ log ∧
      plan.buildNumber = some state.publicationFloor ∧
      plan'.buildNumber = some state'.publicationFloor := by
  obtain ⟨log, s, hrun, -, -, -, h₃, h₄⟩ := fixture_run
  obtain ⟨x, hx, hconsumed⟩ := List.any_eq_true.mp h₃
  obtain ⟨x', hx', hconsumed'⟩ := List.any_eq_true.mp h₄
  unfold isConsumed at hconsumed hconsumed'
  split at hconsumed
  · split at hconsumed'
    · rw [beq_iff_eq] at hconsumed hconsumed'
      subst hconsumed hconsumed'
      obtain ⟨hbuild, hbuild', -⟩ :=
        publications_ascend fixtureBlobs_injective hrun hx hx' (by decide)
      exact ⟨log, s, _, _, _, _, _, _, _, _, _, _, hrun, hx, hx', hbuild, hbuild'⟩
    · cases hconsumed'
  · cases hconsumed

end Runs

end McpVenusOs.Release
