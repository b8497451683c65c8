/-
  McpVenusOs.Release.LedgerInvariant

  What every step of the version ledger keeps.

  A sound ledger passes the checks of `read_state`, and no two of its reservations
  share a build number or, but for stable releases, a tag (`Step.sound`).  A step
  loses nothing (`Step.extends`).
-/

import McpVenusOs.Release.LedgerCalls

namespace McpVenusOs.Release

open Py

/-! ## What a step keeps -/

theorem forM_list_eq_ok {β : Type} {xs : List β} {f : β → Except ReleaseError Unit} :
    xs.forM f = .ok () ↔ ∀ x ∈ xs, f x = .ok () := by
  induction xs with
  | nil => exact iff_of_true rfl (by simp)
  | cons x xs ih =>
    show (f x >>= fun _ => xs.forM f) = .ok () ↔ _
    rw [then_eq_ok, ih, List.forall_mem_cons]

/-- What `read_state` asks of a reservation. -/
structure Reservation.Checked (counter : Int) (key : String) (record : Reservation) : Prop where
  key : isPositive key.toList = true ∧ key.toList.length ≤ maxStrDigits
  plan : record.plan.WellFormed
  build : ∃ n, record.plan.buildNumber = some n ∧ n ≤ counter

theorem checkReservation_eq_ok {counter : Int} {key : String} {record : Reservation} :
    checkReservation counter key record = .ok () ↔ record.Checked counter key := by
  unfold checkReservation positiveText
  rw [then_eq_ok, then_eq_ok, rcRequire_eq_ok, bind_eq_ok]
  simp only [bind_eq_ok, validatePlan_eq_ok, nativeBuild_eq_ok, rcRequire_eq_ok, decide_eq_true_eq]
  constructor
  · rintro ⟨⟨hkey, hlength⟩, plan, ⟨hplan, -, -, rfl⟩, n, hn, hle⟩
    refine ⟨⟨hkey, ?_⟩, hplan, n, hn, hle⟩
    split at hlength
    · assumption
    · cases hlength
  · rintro ⟨⟨hkey, hlength⟩, hplan, n, hn, hle⟩
    exact ⟨⟨hkey, by rw [if_pos hlength]⟩, record.plan, ⟨hplan, by simp, by simp, rfl⟩, n, hn, hle⟩

/-- What `read_state` asks of a ledger. -/
structure Ledger.Checked (state : Ledger) : Prop where
  schema : state.schema = 1
  counter : 0 ≤ state.counter
  floor : 0 ≤ state.publicationFloor ∧ state.publicationFloor ≤ state.counter
  plans : ∀ key record, state.plans.lookup key = some record → record.Checked state.counter key

theorem Ledger.check_eq_ok {state : Ledger} : state.check = .ok () ↔ state.Checked := by
  unfold Ledger.check
  simp only [then_eq_ok, rcRequire_eq_ok, forM_list_eq_ok, checkReservation_eq_ok, beq_iff_eq,
    Bool.and_eq_true, decide_eq_true_eq]
  constructor
  · rintro ⟨hschema, hcounter, hfloor, hplans⟩
    exact ⟨hschema, hcounter, hfloor, fun key record h =>
      hplans ⟨key, record⟩ (AList.mem_lookup_iff.mp h)⟩
  · rintro ⟨hschema, hcounter, hfloor, hplans⟩
    exact ⟨hschema, hcounter, hfloor, fun entry h =>
      hplans entry.1 entry.2 (AList.mem_lookup_iff.mpr h)⟩

theorem lookup_reserve {state : Ledger} {key key' : String} {number : Int}
    {record record' : Reservation} (h : (state.reserve key number record).plans.lookup key' =
      some record') : (key' = key ∧ record' = record) ∨
        (key' ≠ key ∧ state.plans.lookup key' = some record') := by
  by_cases hkey : key' = key
  · subst hkey
    rw [Ledger.reserve, Plans.lookup_insert, Option.some.injEq] at h
    exact .inl ⟨rfl, h.symm⟩
  · rw [Ledger.reserve, Plans.lookup_insert_ne _ _ hkey] at h
    exact .inr ⟨hkey, h⟩

theorem positive_eq_ok {n : Int} {name key : String} :
    positive n name = .ok key ↔ pyStr n = some key ∧ isPositive key.toList = true := by
  unfold positive
  rw [bind_eq_ok]
  simp only [intText_eq_ok, then_eq_ok, rcRequire_eq_ok, pure_eq_ok]
  constructor
  · rintro ⟨text, htext, hpos, rfl⟩
    exact ⟨htext, hpos⟩
  · exact fun h => ⟨key, h.1, h.2, rfl⟩

theorem length_of_pyStr {n : Int} {s : String} (h : pyStr n = some s)
    (hpos : isPositive s.toList = true) : s.toList.length ≤ maxStrDigits := by
  obtain rfl := pyStr_eq h
  rw [pyStr] at h
  split at h
  · rename_i hlength
    cases n with
    | ofNat m => rwa [toString_ofNat, Nat.toList_repr]
    | negSucc m =>
      -- a sign is no digit
      rw [toString_negSucc, isPositive, isDigits, String.toList_append] at hpos
      cases hpos
  · cases h

/-- No two reservations share what identifies a build. -/
structure Ledger.Distinct (state : Ledger) : Prop where
  numbers : ∀ k k' r r', state.plans.lookup k = some r → state.plans.lookup k' = some r' → k ≠ k' →
    r.plan.buildNumber ≠ r'.plan.buildNumber
  tags : ∀ k k' r r', state.plans.lookup k = some r → state.plans.lookup k' = some r' → k ≠ k' →
    r.plan.tag = r'.plan.tag → r.plan.channel = "stable"
  nightly : ∀ k r, state.plans.lookup k = some r → r.plan.channel = "nightly" →
    ∃ stamp attempt, '.' ∉ stamp.toList ∧
      r.plan.sequence = .text (stamp ++ "." ++ k ++ "." ++ attempt)

/-- The invariant of the stored ledger. -/
structure Ledger.Sound (state : Ledger) : Prop where
  checked : state.Checked
  distinct : state.Distinct
  floor : state.publicationFloor = 0 ∨
    ∃ key record, state.plans.lookup key = some record ∧
      record.plan.buildNumber = some state.publicationFloor

/-- A later ledger keeps every reservation of an earlier one. -/
structure Ledger.Extends (earlier later : Ledger) : Prop where
  counter : earlier.counter ≤ later.counter
  floor : earlier.publicationFloor ≤ later.publicationFloor
  plans : ∀ key record, earlier.plans.lookup key = some record →
    later.plans.lookup key = some record

theorem Ledger.Extends.refl (state : Ledger) : state.Extends state :=
  ⟨le_rfl, le_rfl, fun _ _ h => h⟩

theorem Ledger.Extends.trans {a b c : Ledger} (h : a.Extends b) (h' : b.Extends c) :
    a.Extends c :=
  ⟨h.counter.trans h'.counter, h.floor.trans h'.floor, fun k r hr => h'.plans k r (h.plans k r hr)⟩

/-- A step loses nothing. -/
theorem Step.extends {call : LedgerCall} {cur : Option Ledger} {next : Ledger}
    (h : Step call cur next) : (cur.getD {}).Extends next := by
  obtain ⟨-, h⟩ := h
  cases call with
  | reserve r =>
    obtain ⟨key, sequence, number, plan, -, hfree, -, hnumber, -, rfl⟩ := h
    refine ⟨hnumber.le, le_rfl, fun k record hrecord => ?_⟩
    have hne : k ≠ key := by
      rintro rfl
      rw [hfree] at hrecord
      cases hrecord
    rw [Ledger.reserve, Plans.lookup_insert_ne _ _ hne]
    exact hrecord
  | publish plan runId parent promotion =>
    obtain ⟨build, -, rfl, hpromotion, hreservation⟩ := h
    refine ⟨le_rfl, ?_, fun k record hrecord => hrecord⟩
    cases promotion with
    | true => exact (hpromotion rfl).1
    | false => exact (hreservation rfl).1.le
  | verify plan runId parent => exact h.elim
  | verifyOrder plan => exact h.elim

theorem mem_of_mapM {β γ : Type} {xs : List β} {ys : List γ} {f : β → Except ReleaseError γ}
    (h : xs.mapM f = .ok ys) {x : β} {y : γ} (hx : x ∈ xs) (hy : f x = .ok y) : y ∈ ys := by
  induction xs generalizing ys with
  | nil => cases hx
  | cons x' xs ih =>
    rw [List.mapM_cons, bind_eq_ok] at h
    obtain ⟨y', hy', h⟩ := h
    rw [bind_eq_ok] at h
    obtain ⟨ys', hys', h⟩ := h
    rw [pure_eq_ok] at h
    subst h
    rcases List.mem_cons.mp hx with rfl | hx
    · rw [hy'] at hy
      cases hy
      exact List.mem_cons_self
    · exact List.mem_cons_of_mem _ (ih hys' hx)

/-- The sequence that a candidate's reservation has is among the reserved ones. -/
theorem mem_reservedSequences {state : Ledger} {base channel key : String} {record : Reservation}
    {n : Int} {reserved : List Int} (h : reservedSequences state base channel = .ok reserved)
    (hrecord : state.plans.lookup key = some record) (hbase : record.plan.baseVersion = base)
    (hchannel : record.plan.channel = channel) (hn : record.plan.sequence = .number n) :
    n ∈ reserved := by
  refine mem_of_mapM (x := ⟨key, record⟩) h ?_ (by rw [hn]; rfl)
  rw [List.mem_filter, hbase, hchannel]
  exact ⟨AList.mem_lookup_iff.mp hrecord, by simp⟩

theorem le_max_of_mem {reserved : List Int} {n : Int} (h : n ∈ reserved) :
    n ≤ reserved.max?.getD 0 := by
  cases hmax : reserved.max? with
  | none =>
    rw [List.max?_eq_none_iff.mp hmax] at h
    cases h
  | some m => exact (List.max?_le_iff hmax).mp le_rfl n h

/-- A nightly suffix names its run between the first two dots. -/
theorem run_of_nightly {stamp stamp' run run' attempt attempt' : String}
    (hstamp : '.' ∉ stamp.toList) (hstamp' : '.' ∉ stamp'.toList) (hrun : '.' ∉ run.toList)
    (hrun' : '.' ∉ run'.toList)
    (h : stamp ++ "." ++ run ++ "." ++ attempt = stamp' ++ "." ++ run' ++ "." ++ attempt') :
    run = run' := by
  have hlist : ∀ a b c : String, (a ++ "." ++ b ++ "." ++ c).toList =
      a.toList ++ '.' :: (b.toList ++ '.' :: c.toList) := by
    intro a b c
    simp
  have h' := congrArg String.toList h
  rw [hlist, hlist] at h'
  obtain ⟨-, hrest⟩ := cut_inj hstamp hstamp' h'
  exact String.toList_inj.mp (cut_inj hrun hrun' hrest).1

theorem dot_notMem_stamp (now : DateTime) : '.' ∉ now.stamp.toList := by
  have hfield : ∀ width value, '.' ∉ (Nat.toDigits 10 value).leftpad width '0' := by
    intro width value hmem
    rw [List.leftpad, List.mem_append, List.mem_replicate] at hmem
    rcases hmem with ⟨-, h⟩ | h
    · cases h
    · have hdigit := Nat.isDigit_of_mem_toDigits (by decide) (by decide) h
      cases hdigit
  rw [DateTime.stamp, String.toList_ofList]
  simp only [List.mem_append, not_or]
  exact ⟨⟨⟨⟨⟨hfield _ _, hfield _ _⟩, hfield _ _⟩, hfield _ _⟩, hfield _ _⟩, hfield _ _⟩

theorem dot_notMem_positive {key : String} (h : isPositive key.toList = true) :
    '.' ∉ key.toList := by
  intro hmem
  rw [isPositive, Bool.and_eq_true, isDigits, List.all_eq_true] at h
  have hdigit := h.1 '.' hmem
  cases hdigit

/-- The plan of a new reservation has a tag of its own, or is a stable one. -/
theorem tag_fresh {r : ReserveRequest} {state : Ledger} {sequence : Sequence} {key : String}
    {build : Option Int} {plan : Plan} (hstate : state.Sound)
    (hkey : positive r.runId "run ID" = .ok key) (hsequence : Allocated r state sequence)
    (hplan : createPlan r.base r.channel sequence r.sourceSha r.policy build = .ok plan)
    {k : String} {record : Reservation} (hrecord : state.plans.lookup k = some record)
    (hne : k ≠ key) (htag : record.plan.tag = plan.tag) : record.plan.channel = "stable" := by
  obtain ⟨hwf, -, -, hbase, hchannel, hseq, -⟩ := createPlan_eq_ok hplan
  obtain ⟨hbase', hchannel', hseq'⟩ :=
    (hstate.checked.plans k record hrecord).plan.tag_injective hwf htag
  rw [hbase] at hbase'
  rw [hchannel] at hchannel'
  rw [hseq] at hseq'
  have hidentity := hwf.identity
  rw [hbase, hchannel, hseq] at hidentity
  obtain ⟨-, ⟨hstable, -⟩ | ⟨hcandidate, text, htext, -⟩⟩ := identity_eq_ok.mp hidentity
  · rw [hchannel', hstable]
  exfalso
  rw [Allocated] at hsequence
  by_cases hnumbered : ["beta", "rc"].contains r.channel = true
  -- its number would be a reserved one
  · rw [if_pos hnumbered] at hsequence
    obtain ⟨n, reserved, rfl, hreserved, hlt⟩ := hsequence
    have hmem := mem_reservedSequences hreserved hrecord hbase' hchannel' hseq'
    have hle := le_max_of_mem hmem
    omega
  · rw [if_neg hnumbered] at hsequence
    have hnightly : r.channel = "nightly" := by
      simp only [candidateChannels, List.mem_cons, List.not_mem_nil, or_false] at hcandidate
      simp only [List.contains_eq_mem, List.mem_cons, List.not_mem_nil, or_false,
        decide_eq_true_eq] at hnumbered
      tauto
    -- or its suffix would name the other run
    rw [if_pos hnightly] at hsequence
    obtain ⟨run, attempt, hrun, rfl⟩ := hsequence
    obtain ⟨stamp', attempt', hstamp', hrecordseq⟩ :=
      hstate.distinct.nightly k record hrecord (hchannel'.trans hnightly)
    rw [hseq', Sequence.text.injEq] at hrecordseq
    obtain ⟨htextkey, hpositive⟩ := positive_eq_ok.mp hkey
    rw [intText_eq_ok, htextkey, Option.some.injEq] at hrun
    subst hrun
    have hk := (hstate.checked.plans k record hrecord).key.1
    exact hne (run_of_nightly (dot_notMem_stamp r.now) hstamp' (dot_notMem_positive hpositive)
      (dot_notMem_positive hk) hrecordseq).symm

theorem lookup_empty (key : String) : ({} : Ledger).plans.lookup key = none :=
  AList.lookup_empty key

theorem sound_empty : ({} : Ledger).Sound where
  checked := Ledger.check_eq_ok.mp check_empty
  distinct := by
    refine ⟨fun k k' r r' h => ?_, fun k k' r r' h => ?_, fun k r h => ?_⟩ <;>
      rw [lookup_empty] at h <;> cases h
  floor := .inl rfl

section Reserve

variable {r : ReserveRequest} {state : Ledger} {key : String} {sequence : Sequence}
  {number : Int} {plan : Plan}

/-- A new number is above the counter, and so above every number in use. -/
theorem Ledger.Sound.reserve_checked (h : state.Sound)
    (hkey : positive r.runId "run ID" = .ok key) (hnumber : state.counter < number)
    (hwf : plan.WellFormed) (hbuild : plan.buildNumber = some number) :
    (state.reserve key number ⟨plan, r.parent⟩).Checked := by
  obtain ⟨htext, hpositive⟩ := positive_eq_ok.mp hkey
  refine ⟨h.checked.schema, h.checked.counter.trans hnumber.le,
    ⟨h.checked.floor.1, h.checked.floor.2.trans hnumber.le⟩, fun k record hrecord => ?_⟩
  rcases lookup_reserve hrecord with ⟨rfl, rfl⟩ | ⟨-, hold⟩
  · exact ⟨⟨hpositive, length_of_pyStr htext hpositive⟩, hwf, number, hbuild, le_rfl⟩
  · have hchecked := h.checked.plans k record hold
    obtain ⟨n, hn, hle⟩ := hchecked.build
    exact ⟨hchecked.key, hchecked.plan, n, hn, hle.trans hnumber.le⟩

theorem Ledger.Sound.number_fresh (h : state.Sound) (hnumber : state.counter < number)
    (hbuild : plan.buildNumber = some number) {k : String} {record : Reservation}
    (hrecord : state.plans.lookup k = some record) :
    record.plan.buildNumber ≠ plan.buildNumber := by
  obtain ⟨n, hn, hle⟩ := (h.checked.plans k record hrecord).build
  rw [hn, hbuild]
  intro heq
  cases heq
  omega

theorem Ledger.Sound.reserve_distinct (h : state.Sound)
    (hkey : positive r.runId "run ID" = .ok key) (hsequence : Allocated r state sequence)
    (hnumber : state.counter < number)
    (hplan : createPlan r.base r.channel sequence r.sourceSha r.policy (some number) = .ok plan) :
    (state.reserve key number ⟨plan, r.parent⟩).Distinct := by
  obtain ⟨hwf, -, -, -, hchannel, hseq, hbuild⟩ := createPlan_eq_ok hplan
  refine ⟨fun k k' record record' hrecord hrecord' hne => ?_,
    fun k k' record record' hrecord hrecord' hne htag => ?_, fun k record hrecord hnightly => ?_⟩
  · rcases lookup_reserve hrecord with ⟨hk, rfl⟩ | ⟨-, hold⟩ <;>
      rcases lookup_reserve hrecord' with ⟨hk', rfl⟩ | ⟨-, hold'⟩
    · exact absurd (hk.trans hk'.symm) hne
    · exact (h.number_fresh hnumber hbuild hold').symm
    · exact h.number_fresh hnumber hbuild hold
    · exact h.distinct.numbers k k' record record' hold hold' hne
  · rcases lookup_reserve hrecord with ⟨hk, rfl⟩ | ⟨hk, hold⟩ <;>
      rcases lookup_reserve hrecord' with ⟨hk', rfl⟩ | ⟨hk', hold'⟩
    · exact absurd (hk.trans hk'.symm) hne
    · rw [(hwf.tag_injective (h.checked.plans k' record' hold').plan htag).2.1]
      exact tag_fresh h hkey hsequence hplan hold' hk' htag.symm
    · exact tag_fresh h hkey hsequence hplan hold hk htag
    · exact h.distinct.tags k k' record record' hold hold' hne htag
  · rcases lookup_reserve hrecord with ⟨rfl, rfl⟩ | ⟨-, hold⟩
    · rw [hchannel] at hnightly
      rw [Allocated, if_neg (by rw [hnightly]; decide), if_pos hnightly] at hsequence
      obtain ⟨run, attempt, hrun, rfl⟩ := hsequence
      rw [intText_eq_ok, (positive_eq_ok.mp hkey).1, Option.some.injEq] at hrun
      exact ⟨r.now.stamp, attempt, dot_notMem_stamp r.now, by rw [hrun]; exact hseq⟩
    · exact h.distinct.nightly k record hold hnightly

end Reserve

/-- A step of a sound ledger leads to a sound one. -/
theorem Step.sound {call : LedgerCall} {cur : Option Ledger} {next : Ledger}
    (h : Step call cur next) (hcur : (cur.getD {}).Sound) : next.Sound := by
  have hextends := h.extends
  obtain ⟨-, h⟩ := h
  cases call with
  | reserve r =>
    obtain ⟨key, sequence, number, plan, hkey, -, hsequence, hnumber, hplan, rfl⟩ := h
    obtain ⟨hwf, -, -, -, -, -, hbuild⟩ := createPlan_eq_ok hplan
    refine ⟨hcur.reserve_checked hkey hnumber hwf hbuild,
      hcur.reserve_distinct hkey hsequence hnumber hplan, ?_⟩
    rcases hcur.floor with hzero | ⟨k, record, hrecord, hfloor⟩
    · exact .inl hzero
    · exact .inr ⟨k, record, hextends.plans k record hrecord, hfloor⟩
  | publish plan runId parent promotion =>
    obtain ⟨build, hbuild, rfl, hpromotion, hreservation⟩ := h
    -- either way the plan is a reserved one
    have hrecord : ∃ key parent, (cur.getD {}).plans.lookup key = some ⟨plan, parent⟩ := by
      cases promotion with
      | true => exact (hpromotion rfl).2
      | false =>
        obtain ⟨-, key, -, hrecord⟩ := hreservation rfl
        exact ⟨key, parent, hrecord⟩
    obtain ⟨key, parent', hrecord⟩ := hrecord
    obtain ⟨n, hn, hle⟩ := (hcur.checked.plans key _ hrecord).build
    rw [hbuild, Option.some.injEq] at hn
    subst hn
    exact ⟨⟨hcur.checked.schema, hcur.checked.counter,
      ⟨hcur.checked.floor.1.trans hextends.floor, hle⟩, hcur.checked.plans⟩,
      ⟨hcur.distinct.numbers, hcur.distinct.tags, hcur.distinct.nightly⟩,
      .inr ⟨key, ⟨plan, parent'⟩, hrecord, hbuild⟩⟩
  | verify plan runId parent => exact h.elim
  | verifyOrder plan => exact h.elim

end McpVenusOs.Release
