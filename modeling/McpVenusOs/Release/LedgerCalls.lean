/-
  McpVenusOs.Release.LedgerCalls

  What one call of `scripts/release_state.py` does to the version ledger.

  Every write of a call is one of two steps from the ledger it has read (`Step`):
  a reservation under a key that is still free, or a new publication floor.
  `wp_body` says so of every call, whatever it is answered.
-/

import McpVenusOs.Release.Ledger

namespace McpVenusOs.Release

open Py Program Register

/-! ## The steps of the ledger -/

/-- The sequence of a new reservation follows those of its base and channel, or names
    the run. -/
def Allocated (r : ReserveRequest) (state : Ledger) (sequence : Sequence) : Prop :=
  if ["beta", "rc"].contains r.channel then
    ∃ n reserved, sequence = .number n ∧ reservedSequences state r.base r.channel = .ok reserved ∧
      reserved.max?.getD 0 < n
  else if r.channel = "nightly" then
    ∃ run attempt, intText r.runId = .ok run ∧
      sequence = .text (r.now.stamp ++ "." ++ run ++ "." ++ attempt)
  else sequence = .none

/-- The next ledger that a call may store over `cur`. -/
def Step (call : LedgerCall) (cur : Option Ledger) (next : Ledger) : Prop :=
  let state := cur.getD {}
  state.check = .ok () ∧
    match call with
    | .reserve r =>
      ∃ key sequence number plan, positive r.runId "run ID" = .ok key ∧
        state.plans.lookup key = none ∧ Allocated r state sequence ∧ state.counter < number ∧
        createPlan r.base r.channel sequence r.sourceSha r.policy (some number) = .ok plan ∧
        next = state.reserve key number ⟨plan, r.parent⟩
    | .publish plan runId parent promotion =>
      ∃ build, plan.buildNumber = some build ∧
        next = { state with publicationFloor := build } ∧
        (promotion = true → state.publicationFloor ≤ build ∧
          ∃ key parent, state.plans.lookup key = some ⟨plan, parent⟩) ∧
        (promotion = false → state.publicationFloor < build ∧
          ∃ key, positive runId "run ID" = .ok key ∧ state.plans.lookup key = some ⟨plan, parent⟩)
    | _ => False

@[simp] theorem rcRequire_eq_ok {condition : Bool} {message : String} {u : Unit} :
    rcRequire condition message = .ok u ↔ condition = true := by
  rw [rcRequire]
  split <;> simp_all

theorem nativeBuild_eq_ok {plan : Plan} {n : Int} :
    nativeBuild plan = .ok n ↔ plan.buildNumber = some n := by
  rw [nativeBuild]
  split <;> simp_all

section Programs

variable {A α : Type} {blobs : Blobs A}

abbrev LedgerTrace (A : Type) : Type := Trace (LedgerOp A) (LedgerResp A)

/-- What a call has done when it returns. -/
def Outcome : LedgerCall → LedgerTrace A → Except ReleaseError LedgerResult → Prop
  | .reserve r, t, .ok (.reserved plan) =>
    ∃ key, positive r.runId "run ID" = .ok key ∧
      ((∃ state sha, ⟨.read, .ok (some (state, sha))⟩ ∈ t ∧
          state.plans.lookup key = some ⟨plan, r.parent⟩) ∨
        ∃ previous next, ⟨.write previous next, .ok ()⟩ ∈ t ∧
          next.plans.lookup key = some ⟨plan, r.parent⟩)
  | .publish plan _ _ _, t, .ok (.consumed state) =>
    plan.buildNumber = some state.publicationFloor ∧
      ∃ previous, ⟨.write previous state, .ok ()⟩ ∈ t
  | _, _, .error _ => True
  | .verify .., _, .ok .verified => True
  | .verifyOrder .., _, .ok .verified => True
  | _, _, _ => False

/-! ## One call -/

variable {I : LedgerTrace A → LedgerOp A → Prop}
  {Q : LedgerTrace A → Except ReleaseError α → Prop} {t : LedgerTrace A} {β : Type}

/-- A program that only asks. -/
abbrev Asks (p : LedgerProgram A β) : Prop := Performs (fun o => ∃ q, o = .ask q) (fun _ => True) p

theorem wp_ofExcept {x : Except ReleaseError β} {f : β → LedgerProgram A α}
    (herror : ∀ t e, Q t (.error e)) (hok : ∀ a, x = .ok a → wp I Q t (f a)) :
    wp I Q t (ofExcept x >>= f) := by
  cases x with
  | ok a => exact hok a rfl
  | error e => exact herror t e

theorem wp_ofExcept_last {x : Except ReleaseError α} (herror : ∀ t e, Q t (.error e))
    (hok : ∀ a, x = .ok a → Q t (.ok a)) : wp I Q t (ofExcept x) := by
  cases x with
  | ok a => exact hok a rfl
  | error e => exact herror t e

theorem wp_getLedger {f : Option (Ledger × A) → LedgerProgram A α} (hread : I t .read)
    (herror : ∀ t e, Q t (.error e))
    (hok : ∀ cur, wp I Q (t ++ [⟨.read, .ok cur⟩]) (f cur)) : wp I Q t (getLedger >>= f) := by
  refine ⟨hread, fun r => ?_⟩
  cases r with
  | ok cur => exact hok cur
  | error e => exact herror _ e

theorem wp_writeState {state : Ledger} {previous : Option A} {f : Unit → LedgerProgram A α}
    (hwrite : I t (.write previous state)) (herror : ∀ t e, Q t (.error e))
    (hok : wp I Q (t ++ [⟨.write previous state, .ok ()⟩]) (f ())) :
    wp I Q t (writeState state previous >>= f) := by
  refine ⟨hwrite, fun r => ?_⟩
  cases r with
  | ok u => exact hok
  | error e => exact herror _ e

theorem asks_ofExcept (x : Except ReleaseError β) : Asks (ofExcept x : LedgerProgram A β) := by
  cases x <;> trivial

theorem asks_request (q : GithubQuery) : Asks (request q : LedgerProgram A q.Payload) :=
  ⟨⟨q, rfl⟩, fun r => asks_ofExcept r⟩

theorem Asks.bind {γ : Type} {p : LedgerProgram A β} {f : β → LedgerProgram A γ} (hp : Asks p)
    (hf : ∀ a, Asks (f a)) : Asks (p >>= f) := Performs.bind hp fun a _ => hf a

/-- Asking leads to a longer trace. -/
theorem wp_asks {p : LedgerProgram A β} (hp : Asks p) {f : β → LedgerProgram A α}
    (hask : ∀ t q, I t (.ask q)) (herror : ∀ t e, Q t (.error e))
    (hok : ∀ t' a, t <+: t' → wp I Q t' (f a)) : wp I Q t (p >>= f) := by
  refine hp.wp_bind ?_ (fun t' a ht _ => hok t' a ht) herror
  rintro t' _ ⟨q, rfl⟩
  exact hask t' q

theorem wp_asks_last {p : LedgerProgram A α} (hp : Asks p) (hask : ∀ t q, I t (.ask q))
    (hend : ∀ t r, Q t r) : wp I Q t p := by
  refine wp_mono ?_ (fun t' r _ => hend t' r) (hp.wp t)
  rintro t' _ ⟨q, rfl⟩
  exact hask t' q

theorem asks_ensureAbsent (tag : String) : Asks (ensureAbsent tag : LedgerProgram A Unit) :=
  (asks_request _).bind fun _ => (asks_ofExcept _).bind fun _ => (asks_request _).bind fun _ =>
    (asks_ofExcept _).bind fun _ => (asks_request _).bind fun _ => asks_ofExcept _

theorem asks_nextSequence (base channel : String) :
    Asks (nextSequence base channel : LedgerProgram A Int) :=
  (asks_ofExcept _).bind fun _ => (asks_ofExcept _).bind fun _ => (asks_request _).bind fun _ =>
    (asks_request _).bind fun _ => (asks_ofExcept _).bind fun _ => trivial

theorem asks_ensureRef (sourceSha : String) : Asks (ensureRef sourceSha : LedgerProgram A Unit) :=
  (asks_request _).bind fun present => by
    cases present
    · exact asks_request _
    · trivial

/-- The empty ledger passes the checks of a stored one. -/
theorem check_empty : ({} : Ledger).check = .ok () := rfl

/-- What `read_state` returns was read and checked, or there was nothing to read. -/
theorem wp_readState {f : Ledger × Option A → LedgerProgram A α} (hread : ∀ t, I t .read)
    (hask : ∀ t q, I t (.ask q)) (herror : ∀ t e, Q t (.error e))
    (hok : ∀ t' (cur : Option (Ledger × A)), t <+: t' → ⟨.read, .ok cur⟩ ∈ t' →
      ((cur.map Prod.fst).getD {}).check = .ok () →
      wp I Q t' (f ((cur.map Prod.fst).getD {}, cur.map Prod.snd))) :
    wp I Q t (readState blobs >>= f) := by
  rw [wp_bind]
  have herror' : ∀ t e, andThen I Q f t (.error e) := herror
  refine wp_getLedger (hread t) herror' fun cur => ?_
  have hmem : ∀ t', t ++ [⟨.read, .ok cur⟩] <+: t' →
      t <+: t' ∧ (⟨.read, .ok cur⟩ : (o : LedgerOp A) × LedgerResp A o) ∈ t' := fun t' ht =>
    ⟨(List.prefix_append t _).trans ht, ht.subset (by simp)⟩
  cases cur with
  | none =>
    refine wp_asks (asks_request _) hask herror' fun t' present ht => ?_
    refine wp_ofExcept herror' fun _ _ => ?_
    exact hok t' none (hmem t' ht).1 (hmem t' ht).2 check_empty
  | some found =>
    refine wp_ofExcept herror' fun _ _ => ?_
    refine wp_ofExcept herror' fun _ hcheck => ?_
    refine wp_ofExcept herror' fun _ _ => ?_
    exact hok _ (some found) (hmem _ List.prefix_rfl).1 (hmem _ List.prefix_rfl).2 hcheck

/-- What `_verify_reservation` lets pass. -/
theorem wp_verifyReservationIn {state : Ledger} {plan : Plan} {runId : Int}
    {parent : Option Parent} {f : Unit → LedgerProgram A α} (hask : ∀ t q, I t (.ask q))
    (herror : ∀ t e, Q t (.error e))
    (hok : ∀ t' key build, t <+: t' → positive runId "run ID" = .ok key →
      state.plans.lookup key = some ⟨plan, parent⟩ → plan.buildNumber = some build →
      state.publicationFloor < build → wp I Q t' (f ())) :
    wp I Q t (verifyReservationIn state plan runId parent >>= f) := by
  rw [wp_bind]
  have herror' : ∀ t e, andThen I Q f t (.error e) := herror
  refine wp_ofExcept herror' fun _ _ => ?_
  refine wp_ofExcept herror' fun key hkey => ?_
  refine wp_ofExcept herror' fun _ hrecord => ?_
  refine wp_ofExcept herror' fun build hbuild => ?_
  refine wp_ofExcept herror' fun _ hfloor => ?_
  refine wp_asks (asks_request _) hask herror' fun t' releases ht => ?_
  refine wp_ofExcept herror' fun builds _ => ?_
  refine wp_ofExcept_last herror' fun _ _ => ?_
  exact hok t' key build ht hkey (by simpa using hrecord) (nativeBuild_eq_ok.mp hbuild)
    (by simpa using hfloor)

/-- What `_verify_promotion_order` lets pass. -/
theorem wp_verifyPromotionOrderIn {state : Ledger} {plan : Plan} {f : Unit → LedgerProgram A α}
    (hask : ∀ t q, I t (.ask q)) (herror : ∀ t e, Q t (.error e))
    (hok : ∀ t' key parent build, t <+: t' → state.plans.lookup key = some ⟨plan, parent⟩ →
      plan.buildNumber = some build → state.publicationFloor ≤ build → wp I Q t' (f ())) :
    wp I Q t (verifyPromotionOrderIn state plan >>= f) := by
  rw [wp_bind]
  have herror' : ∀ t e, andThen I Q f t (.error e) := herror
  refine wp_ofExcept herror' fun _ _ => ?_
  refine wp_ofExcept herror' fun _ _ => ?_
  refine wp_ofExcept herror' fun _ hunique => ?_
  refine wp_ofExcept herror' fun build hbuild => ?_
  refine wp_ofExcept herror' fun _ hfloor => ?_
  refine wp_asks (asks_request _) hask herror' fun t' releases ht => ?_
  refine wp_ofExcept herror' fun _ _ => ?_
  refine wp_ofExcept herror' fun builds _ => ?_
  refine wp_ofExcept_last herror' fun _ _ => ?_
  -- the one record of the plan is found under its key
  rw [rcRequire_eq_ok, beq_iff_eq] at hunique
  obtain ⟨⟨key, record⟩, hentry⟩ := List.exists_mem_of_length_pos (by rw [hunique]; exact one_pos)
  obtain ⟨hmem, hplan⟩ := List.mem_filter.mp hentry
  rw [beq_iff_eq] at hplan
  obtain ⟨plan', parent⟩ := record
  obtain rfl : plan' = plan := hplan
  exact hok t' key parent build ht (AList.mem_lookup_iff.mpr hmem) (nativeBuild_eq_ok.mp hbuild)
    (by simpa using hfloor)

theorem asks_verifyReservationIn (state : Ledger) (plan : Plan) (runId : Int)
    (parent : Option Parent) :
    Asks (verifyReservationIn state plan runId parent : LedgerProgram A Unit) :=
  (asks_ofExcept _).bind fun _ => (asks_ofExcept _).bind fun _ => (asks_ofExcept _).bind fun _ =>
    (asks_ofExcept _).bind fun _ => (asks_ofExcept _).bind fun _ => (asks_request _).bind fun _ =>
      (asks_ofExcept _).bind fun _ => asks_ofExcept _

theorem asks_verifyPromotionOrderIn (state : Ledger) (plan : Plan) :
    Asks (verifyPromotionOrderIn state plan : LedgerProgram A Unit) :=
  (asks_ofExcept _).bind fun _ => (asks_ofExcept _).bind fun _ => (asks_ofExcept _).bind fun _ =>
    (asks_ofExcept _).bind fun _ => (asks_ofExcept _).bind fun _ => (asks_request _).bind fun _ =>
      (asks_ofExcept _).bind fun _ => (asks_ofExcept _).bind fun _ => asks_ofExcept _

/-- The sequence that is allocated. -/
theorem wp_allocateSequence {r : ReserveRequest} {state : Ledger}
    {f : Sequence → LedgerProgram A α} (hask : ∀ t q, I t (.ask q))
    (herror : ∀ t e, Q t (.error e))
    (hok : ∀ t' sequence, t <+: t' → Allocated r state sequence → wp I Q t' (f sequence)) :
    wp I Q t (allocateSequence r state >>= f) := by
  rw [wp_bind]
  have herror' : ∀ t e, andThen I Q f t (.error e) := herror
  unfold allocateSequence
  by_cases hcandidate : ["beta", "rc"].contains r.channel = true
  · rw [if_pos hcandidate]
    refine wp_asks (asks_nextSequence _ _) hask herror' fun t' sequence ht => ?_
    refine wp_ofExcept herror' fun reserved hreserved => ?_
    refine hok t' _ ht ?_
    rw [Allocated, if_pos hcandidate]
    exact ⟨_, reserved, rfl, hreserved, by omega⟩
  · rw [if_neg hcandidate]
    by_cases hnightly : r.channel = "nightly"
    · rw [if_pos hnightly]
      refine wp_ofExcept herror' fun run hrun => ?_
      refine wp_ofExcept herror' fun attempt _ => ?_
      refine hok t _ List.prefix_rfl ?_
      rw [Allocated, if_neg hcandidate, if_pos hnightly]
      exact ⟨run, attempt, hrun, rfl⟩
    · rw [if_neg hnightly]
      refine hok t _ List.prefix_rfl ?_
      rw [Allocated, if_neg hcandidate, if_neg hnightly]

/-! ## Every call keeps to its steps -/

/-- A call writes only steps from a ledger it has read. -/
theorem wp_body (c : LedgerCall) :
    wp (fun t o => Derives (Step c) t o) (Outcome c) [] (c.body blobs) := by
  have hask : ∀ (t : LedgerTrace A) q, Derives (Step c) t (.ask q) := fun _ _ => trivial
  have hread : ∀ t : LedgerTrace A, Derives (Step c) t .read := fun _ => trivial
  cases c with
  | reserve r =>
    have herror : ∀ (t : LedgerTrace A) e, Outcome (.reserve r) t (.error e) := fun _ _ => trivial
    show wp _ _ _ (reservePlan blobs r >>= fun plan => pure (LedgerResult.reserved plan))
    rw [wp_bind]
    have herror' : ∀ t e, andThen (fun t o => Derives (Step (.reserve r)) t o)
        (Outcome (.reserve r))
        (fun plan => (pure (LedgerResult.reserved plan) : LedgerProgram A LedgerResult)) t
        (.error e) := herror
    refine wp_ofExcept herror' fun key hkey => ?_
    refine wp_readState hread hask herror' fun t cur _ hcur hcheck => ?_
    dsimp only
    split
    -- the run has a reservation already
    · rename_i record hrecord
      refine wp_ofExcept herror' fun plan hplan => ?_
      refine wp_ofExcept herror' fun _ _ => ?_
      refine wp_ofExcept herror' fun _ hparent => ?_
      obtain ⟨-, -, -, rfl⟩ := validatePlan_eq_ok.mp hplan
      rw [rcRequire_eq_ok, beq_iff_eq] at hparent
      refine ⟨key, hkey, .inl ?_⟩
      cases cur with
      | none => cases hrecord
      | some found => exact ⟨found.1, found.2, hcur, by rw [← hparent]; exact hrecord⟩
    · rename_i hfree
      refine wp_allocateSequence hask herror' fun t' sequence ht hsequence => ?_
      refine wp_ofExcept herror' fun floor _ => ?_
      refine wp_ofExcept herror' fun plan hplan => ?_
      refine wp_asks (asks_ensureAbsent _) hask herror' fun t'' _ ht' => ?_
      refine wp_asks (asks_ensureRef _) hask herror' fun t₃ _ ht₃ => ?_
      have hread₃ : ⟨.read, .ok cur⟩ ∈ t₃ := ((ht.trans ht').trans ht₃).subset hcur
      refine wp_writeState ⟨cur, hread₃, rfl, hcheck, key, sequence, _, plan, hkey, hfree,
        hsequence, by omega, hplan, rfl⟩ herror' ?_
      refine ⟨key, hkey, .inr ⟨_, _, List.mem_append_right _ List.mem_cons_self, ?_⟩⟩
      exact Plans.lookup_insert _ _ _
  | verify plan runId parent =>
    have herror : ∀ (t : LedgerTrace A) e, Outcome (.verify plan runId parent) t (.error e) :=
      fun _ _ => trivial
    show wp _ _ _
      (verifyReservation blobs plan runId parent >>= fun _ => pure LedgerResult.verified)
    rw [wp_bind]
    refine wp_readState hread hask (fun _ _ => trivial) fun t cur _ _ _ => ?_
    refine wp_asks_last (asks_verifyReservationIn _ _ _ _) hask fun t' r => ?_
    cases r <;> trivial
  | verifyOrder plan =>
    show wp _ _ _ (verifyPromotionOrder blobs plan >>= fun _ => pure LedgerResult.verified)
    rw [wp_bind]
    refine wp_readState hread hask (fun _ _ => trivial) fun t cur _ _ _ => ?_
    refine wp_asks_last (asks_verifyPromotionOrderIn _ _) hask fun t' r => ?_
    cases r <;> trivial
  | publish plan runId parent promotion =>
    show wp _ _ _ (beginPublication blobs plan runId parent promotion >>=
      fun state => pure (LedgerResult.consumed state))
    rw [wp_bind]
    have herror' : ∀ t e, andThen
        (fun t o => Derives (Step (.publish plan runId parent promotion)) t o)
        (Outcome (.publish plan runId parent promotion))
        (fun state => (pure (LedgerResult.consumed state) : LedgerProgram A LedgerResult)) t
        (.error e) := fun _ _ => trivial
    refine wp_ofExcept herror' fun _ _ => ?_
    refine wp_readState hread hask herror' fun t cur _ hcur hcheck => ?_
    have hwrite : ∀ t' build, t <+: t' → plan.buildNumber = some build →
        Step (.publish plan runId parent promotion) (cur.map Prod.fst)
          { (cur.map Prod.fst).getD {} with publicationFloor := build } →
        wp (fun t o => Derives (Step (.publish plan runId parent promotion)) t o)
          (andThen (fun t o => Derives (Step (.publish plan runId parent promotion)) t o)
            (Outcome (.publish plan runId parent promotion))
            (fun state => (pure (LedgerResult.consumed state) : LedgerProgram A LedgerResult))) t'
          (ofExcept (nativeBuild plan) >>= fun build => do
            let state := { (cur.map Prod.fst).getD {} with publicationFloor := build }
            writeState state (cur.map Prod.snd)
            return state) := by
      intro t' build ht hbuild hstep
      refine wp_ofExcept herror' fun build' hbuild' => ?_
      obtain rfl : build = build' := by
        rw [nativeBuild_eq_ok, hbuild, Option.some.injEq] at hbuild'
        exact hbuild'
      refine wp_writeState ⟨cur, ht.subset hcur, rfl, hstep⟩ herror' ?_
      exact ⟨hbuild, _, List.mem_append_right _ List.mem_cons_self⟩
    cases promotion with
    | true =>
      refine wp_verifyPromotionOrderIn hask herror'
        fun t' key parent' build ht hrecord hbuild hfloor => ?_
      refine hwrite t' build ht hbuild ⟨hcheck, build, hbuild, rfl, ?_, nofun⟩
      exact fun _ => ⟨hfloor, key, parent', hrecord⟩
    | false =>
      refine wp_verifyReservationIn hask herror'
        fun t' key build ht hkey hrecord hbuild hfloor => ?_
      refine hwrite t' build ht hbuild ⟨hcheck, build, hbuild, rfl, nofun, ?_⟩
      exact fun _ => ⟨hfloor, key, hkey, hrecord⟩

end Programs

end McpVenusOs.Release
