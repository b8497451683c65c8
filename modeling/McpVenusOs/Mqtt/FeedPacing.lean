/-
  McpVenusOs.Mqtt.FeedPacing

  What holds of all calls of a run.

  `Boundary` bounds the finished calls by the schedule they have left: whatever
  was attempted in the epoch of the schedule is a fixed distance away from its
  next time.  A new call attempts something only when that time has come, so the
  distance is kept between any two calls of an epoch (`Boundary.spaced`), and
  its end restores the bound (`Boundary.finish`).
-/

import McpVenusOs.Mqtt.FeedCalls
import McpVenusOs.Mqtt.Machine

namespace McpVenusOs

open Py Program Machine Progress

/-! ## Between two calls -/

/-- Two calls of one epoch, the earlier one first. -/
structure Spaced (v w : Progress) : Prop where
  keepalives : ∀ e, v.epoch = some e → w.epoch = some e → w.keepalives ≠ [] →
    ∀ accepted ∈ v.keepalives, v.now + keepaliveDelay accepted ≤ w.now
  batches : ∀ e, v.epoch = some e → w.epoch = some e → 0 < v.attempts → 0 < w.attempts →
    v.now + refreshBatchInterval ≤ w.now
  selections : ∀ e, v.epoch = some e → w.epoch = some e → v.selections ≠ [] →
    w.selections ≠ [] → v.now + refreshInterval ≤ w.now

/-- The finished calls, and the schedule they have left. -/
structure Boundary (done : List Progress) (feed : Feed) : Prop where
  epoch_le : ∀ v ∈ done, ∀ e : Nat, v.epoch = some e → (e : Int) ≤ feed.maintenanceEpoch
  keepalives : ∀ v ∈ done, v.Current feed → ∀ accepted ∈ v.keepalives,
    v.now + keepaliveDelay accepted ≤ feed.nextKeepalive
  batches : ∀ v ∈ done, v.Current feed → 0 < v.attempts →
    v.now + refreshBatchInterval ≤ feed.nextRefreshBatch
  selections : ∀ v ∈ done, v.Current feed → v.selections ≠ [] →
    v.now + refreshInterval ≤ feed.nextRefresh
  /-- The schedule was made by a call of its epoch. -/
  begun : ∀ e : Nat, feed.maintenanceEpoch = e → ∃ v ∈ done, v.epoch = some e
  /-- What is queued was selected in the epoch of the schedule. -/
  selected : ∀ t ∈ feed.pendingRefresh, ∃ v ∈ done, v.Current feed ∧ ∃ sel ∈ v.selections, t ∈ sel
  pending_le : feed.pendingRefresh.length ≤ maxRefreshTopics

section Boundary

variable {env : MqttEnv} {done : List Progress} {f : Feed} {v : Progress}

/-- A call keeps its distance to all calls before it. -/
theorem Boundary.spaced (h : Boundary done f) (hgood : v.Good f) : ∀ u ∈ done, Spaced u v := by
  intro u hu
  by_cases hcurrent : v.Current f
  -- both calls belong to the feed's own session
  · have hu_current : ∀ e, u.epoch = some e → v.epoch = some e → u.Current f := by
      intro e hue hve
      obtain ⟨e', he', hf⟩ := hcurrent
      cases hve.symm.trans he'
      exact ⟨e, hue, hf⟩
    refine ⟨?_, ?_, ?_⟩
    · intro e hue hve hsent accepted haccepted
      exact (h.keepalives u hu (hu_current e hue hve) accepted haccepted).trans
        (hgood.keepalive_due hsent)
    · intro e hue hve hattempts hpos
      exact (h.batches u hu (hu_current e hue hve) hattempts).trans (hgood.batch_due hpos)
    · intro e hue hve hselections hsel
      exact (h.selections u hu (hu_current e hue hve) hselections).trans
        (hgood.selection_due hsel)
  -- the session is over: the call sent nothing
  · obtain ⟨hkeepalives, hselections, hattempts, -⟩ := hgood.silent hcurrent
    refine ⟨?_, ?_, ?_⟩
    · intro e _ _ hsent
      exact absurd hkeepalives hsent
    · intro e _ _ _ hpos
      rw [hattempts] at hpos
      exact absurd hpos (Nat.lt_irrefl 0)
    · intro e _ _ _ hsel
      exact absurd hselections hsel

/-- The first call of an epoch attempts nothing. -/
theorem Boundary.first (h : Boundary done f) (hgood : v.Good f) {e : Nat}
    (he : v.epoch = some e) (hfirst : ∀ u ∈ done, u.epoch ≠ some e) :
    v.keepalives = [] ∧ v.attempts = 0 := by
  have hold : ¬ v.Current f := by
    rintro ⟨e', he', hf⟩
    cases he.symm.trans he'
    obtain ⟨u, hu, hue⟩ := h.begun e hf
    exact hfirst u hu hue
  obtain ⟨hkeepalives, -, hattempts, -⟩ := hgood.silent hold
  exact ⟨hkeepalives, hattempts⟩

/-- The schedule a call leaves is for its own epoch. -/
theorem Progress.Finished.current (hv : v.Finished env f) {e : Nat} (he : v.epoch = some e) :
    v.Current v.feed := ⟨e, he, hv.epoch e he⟩

/-- A call before it that is current afterwards has been current all along. -/
theorem Boundary.current_of_finish (h : Boundary done f) (hv : v.Finished env f)
    (hepoch : ∀ e : Nat, v.epoch = some e → f.maintenanceEpoch ≤ e) {u : Progress}
    (hu : u ∈ done) (hcurrent : u.Current v.feed) :
    u.Current f ∧ (v.epoch = none ∨ v.Current f) := by
  obtain ⟨e, hue, hfeed⟩ := hcurrent
  cases hve : v.epoch with
  | none =>
    rw [hv.unowned hve] at hfeed
    exact ⟨⟨e, hue, hfeed⟩, .inl rfl⟩
  | some e' =>
    have heq : e' = e := by
      have := (hv.epoch e' hve).symm.trans hfeed
      omega
    subst heq
    -- the epochs of the earlier calls are at most that of the schedule
    have hf : f.maintenanceEpoch = e' := le_antisymm (hepoch e' hve) (h.epoch_le u hu e' hue)
    exact ⟨⟨e', hue, hf⟩, .inr ⟨e', hve, hf⟩⟩

/-- The end of a call restores the bound. -/
theorem Boundary.finish (h : Boundary done f) (hgood : v.Good f) (hv : v.Finished env f)
    (hepoch : ∀ e : Nat, v.epoch = some e → f.maintenanceEpoch ≤ e) :
    Boundary (done ++ [v]) v.feed := by
  -- a call outside the session keeps the three times, one inside only moves them later
  have hlater : (v.epoch = none ∨ v.Current f) → f.nextKeepalive ≤ v.feed.nextKeepalive ∧
      f.nextRefreshBatch ≤ v.feed.nextRefreshBatch ∧ f.nextRefresh ≤ v.feed.nextRefresh := by
    rintro (hnone | hcurrent)
    · rw [hv.unowned hnone]
      exact ⟨le_rfl, le_rfl, le_rfl⟩
    · exact ⟨hv.keepalive hcurrent, hv.batch hcurrent, hv.refresh hcurrent⟩
  refine ⟨?_, ?_, ?_, ?_, ?_, ?_, hgood.pending_le h.pending_le⟩
  · intro u hu e hue
    rcases List.mem_append.mp hu with hu | hu
    · have hle := h.epoch_le u hu e hue
      cases hve : v.epoch with
      | none => rwa [hv.unowned hve]
      | some e' => exact (hle.trans (hepoch e' hve)).trans (hv.epoch e' hve).ge
    · cases List.mem_singleton.mp hu
      exact (hv.epoch e hue).ge
  · intro u hu hcurrent accepted haccepted
    rcases List.mem_append.mp hu with hu | hu
    · obtain ⟨huf, hvf⟩ := h.current_of_finish hv hepoch hu hcurrent
      exact (h.keepalives u hu huf accepted haccepted).trans (hlater hvf).1
    · cases List.mem_singleton.mp hu
      exact hv.keepalive_delay accepted haccepted
  · intro u hu hcurrent hattempts
    rcases List.mem_append.mp hu with hu | hu
    · obtain ⟨huf, hvf⟩ := h.current_of_finish hv hepoch hu hcurrent
      exact (h.batches u hu huf hattempts).trans (hlater hvf).2.1
    · cases List.mem_singleton.mp hu
      exact hv.batch_delay hattempts
  · intro u hu hcurrent hselections
    rcases List.mem_append.mp hu with hu | hu
    · obtain ⟨huf, hvf⟩ := h.current_of_finish hv hepoch hu hcurrent
      exact (h.selections u hu huf hselections).trans (hlater hvf).2.2
    · cases List.mem_singleton.mp hu
      exact hv.refresh_delay hselections
  · intro e he
    cases hve : v.epoch with
    | none =>
      rw [hv.unowned hve] at he
      obtain ⟨u, hu, hue⟩ := h.begun e he
      exact ⟨u, List.mem_append_left _ hu, hue⟩
    | some e' =>
      have heq : e' = e := by
        have := (hv.epoch e' hve).symm.trans he
        omega
      exact ⟨v, by simp, heq ▸ hve⟩
  -- pending: left over from the session, or selected in this call
  · intro t ht
    cases hve : v.epoch with
    | none =>
      rw [hv.unowned hve] at ht ⊢
      obtain ⟨u, hu, hcurrent, hsel⟩ := h.selected t ht
      exact ⟨u, List.mem_append_left _ hu, hcurrent, hsel⟩
    | some e =>
      by_cases hcurrent : v.Current f
      · rcases hgood.pending t ht with hqueued | hsel
        · obtain ⟨u, hu, ⟨e', hue, hf⟩, hsel⟩ := h.selected t hqueued
          obtain ⟨e'', he'', hf'⟩ := hcurrent
          have hfeed := hv.epoch e'' he''
          exact ⟨u, List.mem_append_left _ hu, ⟨e', hue, hfeed.trans (hf'.symm.trans hf)⟩, hsel⟩
        -- a new session starts with nothing pending
        · exact ⟨v, by simp, hv.current hve, hsel⟩
      · rw [hv.renewed (by simp [hve]) hcurrent] at ht
        cases ht

end Boundary

/-! ## The invariant of a run -/

/-- Within an epoch the first call attempts nothing. -/
def FirstSilent (cs : List Progress) : Prop :=
  ∀ pre v suf, cs = pre ++ v :: suf → ∀ e, v.epoch = some e → (∀ u ∈ pre, u.epoch ≠ some e) →
    v.keepalives = [] ∧ v.attempts = 0

/-- How much one call does. -/
structure Bounded (v : Progress) : Prop where
  keepalives : v.keepalives.length ≤ 1
  selections : v.selections.length ≤ 1
  attempts : v.attempts ≤ refreshBatchSize

/-- A call in progress, after the finished ones. -/
structure Working (env : MqttEnv) (done : List Progress) (s : FeedState) (c : FeedCall) : Prop where
  boundary : Boundary done c.start
  follows : Follows Progress.see (AllGood env c.start)
    (fun v _ => v.Good c.start ∧ v.Finished env c.start) (progress c.start c.trace) c.rest
  feed : s.py.feed = (progress c.start c.trace).feed
  start_le : c.start.maintenanceEpoch ≤ s.py.session.connectionEpoch
  epoch : ∀ e : Nat, (progress c.start c.trace).epoch = some e → c.start.maintenanceEpoch ≤ e ∧
    e ≤ s.py.session.connectionEpoch

structure Kept (env : MqttEnv) (log : List FeedOut) (s : FeedState) : Prop where
  spaced : (finished log).Pairwise Spaced
  first : FirstSilent (finished log)
  bounded : ∀ v ∈ finished log, Bounded v
  idle : s.call = none → Boundary (finished log) s.py.feed ∧
    s.py.feed.maintenanceEpoch ≤ s.py.session.connectionEpoch
  working : ∀ c, s.call = some c → Working env (finished log) s c

@[simp] theorem finished_append (log log' : List FeedOut) :
    finished (log ++ log') = finished log ++ finished log' := List.filterMap_append

/-- Splitting a list before its last element, or at it. -/
theorem append_cons_eq_concat {α : Type} {pre suf l : List α} {x y : α} :
    pre ++ x :: suf = l ++ [y] ↔
      (∃ suf', suf = suf' ++ [y] ∧ l = pre ++ x :: suf') ∨ (suf = [] ∧ pre = l ∧ x = y) := by
  constructor
  · intro h
    rcases List.eq_nil_or_concat suf with rfl | ⟨suf', z, rfl⟩
    · obtain ⟨rfl, hx⟩ := List.append_inj' h rfl
      exact .inr ⟨rfl, rfl, List.singleton_inj.mp hx⟩
    · have h' : (pre ++ x :: suf') ++ [z] = l ++ [y] := by simpa using h
      obtain ⟨rfl, hz⟩ := List.append_inj' h' rfl
      obtain rfl := List.singleton_inj.mp hz
      exact .inl ⟨suf', List.concat_eq_append, rfl⟩
  · rintro (⟨suf', rfl, rfl⟩ | ⟨rfl, rfl, rfl⟩)
    · simp
    · rfl

theorem FirstSilent.concat {cs : List Progress} {v : Progress} (h : FirstSilent cs)
    (hv : ∀ e, v.epoch = some e → (∀ u ∈ cs, u.epoch ≠ some e) →
      v.keepalives = [] ∧ v.attempts = 0) : FirstSilent (cs ++ [v]) := by
  intro pre w suf heq e he hfirst
  rcases append_cons_eq_concat.mp heq.symm with ⟨suf', -, hcs⟩ | ⟨-, rfl, rfl⟩
  · exact h pre w suf' hcs e he hfirst
  · exact hv e he hfirst

theorem pairwise_concat {α : Type} {R : α → α → Prop} {l : List α} {a : α} :
    (l ++ [a]).Pairwise R ↔ l.Pairwise R ∧ ∀ b ∈ l, R b a := by
  rw [List.pairwise_append]
  simp

section Step

variable {env : MqttEnv} {log : List FeedOut} {s : FeedState} {c : FeedCall}

theorem good_of_follows {v : Progress} {f : Feed} {p : FeedProgram Unit}
    (h : Follows Progress.see (AllGood env f) (fun v _ => v.Good f ∧ v.Finished env f) v p) :
    v.Good f := by
  cases p with
  | ret a => exact h.1
  | raise e => exact h.1
  | op o k => exact h.1.1

theorem finished_of_follows {v : Progress} {f : Feed} {p : FeedProgram Unit}
    (h : Follows Progress.see (AllGood env f) (fun v _ => v.Good f ∧ v.Finished env f) v p)
    (hend : ∀ o k, p ≠ .op o k) : v.Good f ∧ v.Finished env f := by
  cases p with
  | ret a => exact h
  | raise e => exact h
  | op o k => exact absurd rfl (hend o k)

/-- The progress of the call in progress fits to the finished calls. -/
theorem Kept.concat (h : Kept env log s) (hc : s.call = some c) :
    (finished log ++ [progress c.start c.trace]).Pairwise Spaced ∧
      FirstSilent (finished log ++ [progress c.start c.trace]) ∧
      ∀ v ∈ finished log ++ [progress c.start c.trace], Bounded v := by
  have hw := h.working c hc
  have hgood := good_of_follows hw.follows
  refine ⟨pairwise_concat.mpr ⟨h.spaced, hw.boundary.spaced hgood⟩, ?_, ?_⟩
  · exact h.first.concat fun e he hfirst => hw.boundary.first hgood he hfirst
  · intro v hv
    rcases List.mem_append.mp hv with hv | hv
    · exact h.bounded v hv
    · cases List.mem_singleton.mp hv
      exact ⟨hgood.keepalive_once, hgood.selection_once, hgood.attempts_le⟩

/-- Changing other fields, with the epoch not going back, keeps the invariant. -/
theorem Kept.change (h : Kept env log s) {s' : FeedState} (hcall : s'.call = s.call)
    (hfeed : s'.py.feed = s.py.feed)
    (hepoch : s.py.session.connectionEpoch ≤ s'.py.session.connectionEpoch) {out : List FeedOut}
    (hout : finished out = []) : Kept env (log ++ out) s' := by
  have hlog : finished (log ++ out) = finished log := by
    rw [finished_append, hout, List.append_nil]
  refine ⟨hlog ▸ h.spaced, hlog ▸ h.first, hlog ▸ h.bounded, ?_, ?_⟩
  · intro hnone
    rw [hcall] at hnone
    rw [hlog, hfeed]
    obtain ⟨hboundary, hle⟩ := h.idle hnone
    exact ⟨hboundary, hle.trans (by exact_mod_cast hepoch)⟩
  · intro c hc
    rw [hcall] at hc
    rw [hlog]
    have hw := h.working c hc
    refine ⟨hw.boundary, hw.follows, hfeed.trans hw.feed, ?_, ?_⟩
    · exact hw.start_le.trans (by exact_mod_cast hepoch)
    · intro e he
      exact ⟨(hw.epoch e he).1, (hw.epoch e he).2.trans hepoch⟩

theorem attempted_feed (v : Progress) (topic : String) (accepted : Bool) :
    (v.attempted topic accepted).feed = v.feed ∧ (v.attempted topic accepted).epoch = v.epoch := by
  unfold attempted
  split <;> exact ⟨rfl, rfl⟩

/-- An operation moves the schedule of the client and of the progress alike, and
    the only epoch a call learns is the current one. -/
theorem answerFeed_see {py : MqttClient} {v : Progress} (hfeed : py.feed = v.feed) (now : ℚ)
    (accepted : Bool) (o : FeedOp) :
    (py.answerFeed now accepted o).2.1.feed = (v.see o (py.answerFeed now accepted o).1).feed ∧
      ∀ e, (v.see o (py.answerFeed now accepted o).1).epoch = some e →
        v.epoch = some e ∨ e = py.session.connectionEpoch := by
  cases o with
  | begin =>
    simp only [MqttClient.answerFeed]
    split
    -- no client, nothing to maintain
    · exact ⟨hfeed, fun e he => by cases he⟩
    · refine ⟨hfeed, fun e he => ?_⟩
      cases hclient : py.transport.client with
      | none => rw [hclient] at he; cases he
      | some t => rw [hclient] at he; exact .inr (Option.some.inj he).symm
  | ready t epoch =>
    simp only [MqttClient.answerFeed]
    have hsee : ∀ passed, (v.see (.ready t epoch) passed).feed = v.feed ∧
        (v.see (.ready t epoch) passed).epoch = v.epoch := by
      intro passed
      cases passed with
      | false => exact attempted_feed v "" false
      | true => exact ⟨rfl, rfl⟩
    exact ⟨hfeed.trans (hsee _).1.symm, fun e he => .inl ((hsee _).2 ▸ he)⟩
  | publish t topic payload =>
    obtain ⟨hsame, hepoch⟩ := attempted_feed v topic accepted
    exact ⟨hfeed.trans hsame.symm, fun e he => .inl (hepoch ▸ he)⟩
  | store feed => exact ⟨rfl, fun e he => .inl he⟩
  | monotonic | owned t epoch | explicitPatterns | cachedTopics | retainedSerialSeen =>
    exact ⟨hfeed, fun e he => .inl he⟩

/-- An operation moves the fields and the progress of the call alike. -/
theorem Working.turn (h : Working env (finished log) s c) (accepted : Bool) {o : FeedOp}
    {k : FeedResp o → FeedProgram Unit} (hrest : c.rest = .op o k) :
    Working env (finished log)
      { s with py := (s.py.answerFeed s.now accepted o).2.1,
               call := some ⟨c.start, c.trace ++ [⟨o, (s.py.answerFeed s.now accepted o).1⟩],
                 k (s.py.answerFeed s.now accepted o).1⟩ }
      ⟨c.start, c.trace ++ [⟨o, (s.py.answerFeed s.now accepted o).1⟩],
        k (s.py.answerFeed s.now accepted o).1⟩ := by
  have hfollows := h.follows
  rw [hrest, follows_op] at hfollows
  have hsession : (s.py.answerFeed s.now accepted o).2.1.session = s.py.session := by
    obtain ⟨feed, hfeed⟩ := s.py.answerFeed_client s.now accepted o
    rw [hfeed]
  have hprogress : ∀ r, progress c.start (c.trace ++ [⟨o, r⟩]) =
      (progress c.start c.trace).see o r := fun r => observe_append _ _ _ _ _
  refine ⟨h.boundary, ?_, ?_, ?_, ?_⟩
  · rw [hprogress]
    -- the call's own progress records what the answer was
    exact hfollows.2 _
  · rw [hprogress]
    exact (answerFeed_see h.feed _ _ _).1
  · rw [hsession]
    exact h.start_le
  · intro e he
    rw [hsession]
    rw [hprogress] at he
    rcases (answerFeed_see h.feed _ _ _).2 e he with he | rfl
    · exact h.epoch e he
    · exact ⟨h.start_le, le_rfl⟩

theorem Kept.step (h : Kept env log s) {e : FeedEvent} {s' : FeedState} {out : List FeedOut}
    (hstep : s.step env e = some (s', out)) : Kept env (log ++ out) s' := by
  cases FeedState.step_cases hstep with
  | other hcall hfeed hepoch => exact h.change hcall hfeed hepoch.ge rfl
  | connected t hcall hfeed hepoch =>
    refine h.change hcall hfeed ?_ rfl
    rw [hepoch]
    exact Nat.le_succ _
  | called hnone =>
    obtain ⟨hboundary, hle⟩ := h.idle hnone
    rw [List.append_nil]
    refine ⟨h.spaced, h.first, h.bounded, fun hcall => (by cases hcall), ?_⟩
    rintro c hc
    cases hc
    exact ⟨hboundary, follows_maintainReadFeed env s.py.feed, rfl, hle, fun e he => by cases he⟩
  | @ended c hc hrest =>
    -- the end of the call makes it the last finished one
    have hw := h.working c hc
    obtain ⟨hspaced, hfirst, hbounded⟩ := h.concat hc
    obtain ⟨hgood, hfinished⟩ := finished_of_follows hw.follows hrest
    have hlog : finished (log ++ [.returned c.start c.trace]) =
        finished log ++ [progress c.start c.trace] := finished_append _ _
    refine ⟨hlog ▸ hspaced, hlog ▸ hfirst, hlog ▸ hbounded, fun _ => ?_, fun c hc => by cases hc⟩
    have hboundary := hw.boundary.finish hgood hfinished fun e he => (hw.epoch e he).1
    rw [hlog, hw.feed]
    refine ⟨hboundary, ?_⟩
    cases hepoch : (progress c.start c.trace).epoch with
    | none =>
      rw [hfinished.unowned hepoch]
      exact hw.start_le
    | some e =>
      rw [hfinished.epoch e hepoch]
      exact_mod_cast (hw.epoch e hepoch).2
  | @did c o k accepted hc hrest =>
    have hlog : finished (log ++ [.did c.start c.trace o (s.py.answerFeed s.now accepted o).1]) =
        finished log := by
      rw [finished_append]
      exact List.append_nil _
    refine ⟨hlog ▸ h.spaced, hlog ▸ h.first, hlog ▸ h.bounded, fun hcall => (by cases hcall), ?_⟩
    rintro c' hc'
    cases hc'
    rw [hlog]
    exact (h.working c hc).turn accepted hrest

end Step

theorem kept_init (env : MqttEnv) (cursor : Nat) :
    Kept env [] (feedSystem env cursor).init where
  spaced := List.Pairwise.nil
  first pre v suf h := by
    obtain ⟨-, hcons⟩ := List.append_eq_nil_iff.mp h.symm
    cases hcons
  bounded v hv := by cases hv
  idle _ := by
    refine ⟨⟨?_, ?_, ?_, ?_, ?_, ?_, Nat.zero_le _⟩, (by decide : (-1 : Int) ≤ (0 : Nat))⟩
    · intro v hv
      cases hv
    · intro v hv
      cases hv
    · intro v hv
      cases hv
    · intro v hv
      cases hv
    · intro e he
      have hneg : (-1 : Int) = e := he
      omega
    · intro t ht
      cases ht
  working c hc := by cases hc

/-! ## Epochs -/

/-- The epochs begun so far. -/
def epochs (log : List FeedOut) : List Nat :=
  log.filterMap fun
    | .connected e _ => some e
    | _ => none

/-- The epoch of the connection after `log`. -/
def currentEpoch (log : List FeedOut) : Nat := (epochs log).getLast?.getD 0

/-- The log and the session record agree. -/
structure Sessions (log : List FeedOut) (s : FeedState) : Prop where
  ascending : (epochs log).Pairwise (· < ·)
  le : ∀ e ∈ epochs log, e ≤ s.py.session.connectionEpoch
  current : currentEpoch log = s.py.session.connectionEpoch

/-- A step begins no epoch, or the next one. -/
theorem step_epoch {env : MqttEnv} {s s' : FeedState} {e : FeedEvent} {out : List FeedOut}
    (hstep : s.step env e = some (s', out)) :
    (epochs out = [] ∧ s'.py.session.connectionEpoch = s.py.session.connectionEpoch) ∨
      ∃ t, out = [.connected (s.py.session.connectionEpoch + 1)
          (connectCalls env s.py.registry.explicit t)] ∧
        s'.py.session.connectionEpoch = s.py.session.connectionEpoch + 1 := by
  cases FeedState.step_cases hstep with
  | other hcall hfeed hepoch => exact .inl ⟨rfl, hepoch⟩
  | connected t hcall hfeed hepoch => exact .inr ⟨t, rfl, hepoch⟩
  | called hnone => exact .inl ⟨rfl, rfl⟩
  | ended hc hrest => exact .inl ⟨rfl, rfl⟩
  | @did c o k accepted hc hrest =>
    obtain ⟨feed, hfeed⟩ := s.py.answerFeed_client s.now accepted o
    exact .inl ⟨rfl, by rw [hfeed]⟩

theorem Sessions.step {env : MqttEnv} {log : List FeedOut} {s s' : FeedState} {e : FeedEvent}
    {out : List FeedOut} (h : Sessions log s) (hstep : s.step env e = some (s', out)) :
    Sessions (log ++ out) s' := by
  have happend : epochs (log ++ out) = epochs log ++ epochs out := List.filterMap_append
  -- the session goes on
  rcases step_epoch hstep with ⟨hout, hsame⟩ | ⟨t, rfl, hnext⟩
  · rw [hout, List.append_nil] at happend
    refine ⟨happend ▸ h.ascending, ?_, ?_⟩
    · rw [happend, hsame]
      exact h.le
    · rw [currentEpoch, happend, hsame]
      exact h.current
  -- a new session gets the next number
  · have hone : epochs [.connected (s.py.session.connectionEpoch + 1)
        (connectCalls env s.py.registry.explicit t)] = [s.py.session.connectionEpoch + 1] := rfl
    rw [hone] at happend
    refine ⟨?_, ?_, ?_⟩
    · rw [happend, pairwise_concat]
      exact ⟨h.ascending, fun e he => Nat.lt_succ_of_le (h.le e he)⟩
    · intro e he
      rw [happend, List.mem_append, List.mem_singleton] at he
      rw [hnext]
      rcases he with he | rfl
      · exact (h.le e he).trans (Nat.le_succ _)
      · exact le_rfl
    · rw [currentEpoch, happend, List.getLast?_concat, hnext]
      rfl

/-! ## Topics -/

/-- The portal, as it stands in the topics. -/
def portalText (env : MqttEnv) : String := env.config.portalId.getD "None"

/-- The read of `system/0/Serial`, which the broker takes as a keepalive too. -/
def serialRequest (env : MqttEnv) : String := "R/" ++ portalText env ++ "/system/0/Serial"

theorem keepaliveTopic_eq (env : MqttEnv) :
    keepaliveTopic env = "R/" ++ (portalText env ++ "/keepalive") := String.append_assoc

theorem serialRequest_eq (env : MqttEnv) :
    serialRequest env = "R/" ++ (portalText env ++ "/system/0/Serial") := String.append_assoc

theorem request_item (s : String) : request ("N/" ++ s) = "R/" ++ s := by
  have hdrop : ("N/" ++ s).toList.drop 2 = s.toList := drop_append_toList "N/" s
  rw [request, hdrop, String.ofList_toList]

theorem topicPrefix_portal {env : MqttEnv} {pre : String}
    (hpre : env.config.topicPrefix = .ok pre) : pre = "N/" ++ portalText env := by
  obtain ⟨p, hp, -, rfl⟩ := MQTTConfig.topicPrefix_eq_ok hpre
  rw [portalText, hp]
  rfl

/-- What is published, and on whose behalf. -/
structure Published (env : MqttEnv) (log : List FeedOut) (v : Progress) (t : Nat)
    (topic payload : String) : Prop where
  /-- The ownership check of the call's own epoch has just passed. -/
  owned : ∃ e, v.epoch = some e ∧ v.checked = some (t, e)
  /-- A keepalive, or the read of an item of this portal that is cached or is
      the retained serial, and was selected in the epoch. -/
  source : topic = keepaliveTopic env ∨ ∃ pre item, env.config.topicPrefix = .ok pre ∧
    (item ∈ v.cached ∨ v.serialSeen = true ∧ item = serialTopic pre) ∧
    startsWith item (pre ++ "/") = true ∧ topic = request item ∧
    ((∃ sel ∈ v.selections, item ∈ sel) ∨
      ∃ u ∈ finished log, u.epoch = v.epoch ∧ ∃ sel ∈ u.selections, item ∈ sel)
  read_only : startsWith topic "R/" = true ∧ startsWith topic "W/" = false
  /-- The wildcards of the portal ID are excepted: `MQTTConfig` takes any text
      as a portal ID, and it is the one part of a topic that is not checked. -/
  wildcard : ∀ c, IsWildcard c → c ∈ topic.toList → c ∈ (portalText env).toList
  suppressed : topic = keepaliveTopic env ∨ topic = serialRequest env →
    payload = suppressRepublish

theorem startsWith_request (s : String) :
    startsWith ("R/" ++ s) "R/" = true ∧ startsWith ("R/" ++ s) "W/" = false := by
  refine ⟨startsWith_iff.mpr ⟨s, rfl⟩, ?_⟩
  rw [← Bool.not_eq_true, startsWith_iff]
  rintro ⟨rest, h⟩
  have hhead := congrArg (fun x => x.toList.head?) h
  simp at hhead

/-- A wildcard of a text with constant ends is one of its middle. -/
theorem wildcard_middle {pre mid suf : String} (hpre : Plain pre) (hsuf : Plain suf) {c : Char}
    (hc : IsWildcard c) (h : c ∈ (pre ++ mid ++ suf).toList) : c ∈ mid.toList := by
  simpa [hpre.notMem hc, hsuf.notMem hc, -String.reduceToList] using h

section Topics

variable {env : MqttEnv} {log : List FeedOut} {f : Feed} {v : Progress} {t : Nat}
  {topic payload : String}

theorem Published.mono {log' : List FeedOut} (h : Published env log v t topic payload) :
    Published env (log ++ log') v t topic payload := by
  refine ⟨h.owned, ?_, h.read_only, h.wildcard, h.suppressed⟩
  rcases h.source with hkeepalive | ⟨pre, item, hpre, hcached, hbelow, htopic, hselected⟩
  · exact .inl hkeepalive
  · refine .inr ⟨pre, item, hpre, hcached, hbelow, htopic, ?_⟩
    rcases hselected with hown | ⟨u, hu, hsel⟩
    · exact .inl hown
    · exact .inr ⟨u, by rw [finished_append]; exact List.mem_append_left _ hu, hsel⟩

/-- What the operations of a call may publish, seen from the run. -/
theorem published_of_allowed (hdigit : AsciiDigits env.isDigit)
    (hcontracts : ∀ c ∈ env.contracts, c.Accepted) (hboundary : Boundary (finished log) f)
    (h : v.Allowed env f (.publish t topic payload)) :
    Published env log v t topic payload := by
  obtain ⟨howned, h⟩ := h
  split at h
  -- a request for a cached item
  · obtain ⟨⟨e, hve, hf⟩, -, pre, item, rest, hpre, hitem, hqueue, rfl, rfl⟩ := h
    have hknown := hqueue.known
    have hportal := topicPrefix_portal hpre
    rw [candidates_eq hpre] at hitem
    obtain ⟨hcached, family, inst, path, hparts⟩ := mem_refreshTopics.mp hitem
    have hrest : item =
        "N/" ++ (portalText env ++ "/" ++ (family ++ "/" ++ inst ++ "/" ++ path)) := by
      rw [hparts.parts, hportal]
      simp only [String.append_assoc]
    refine ⟨howned, .inr ⟨pre, item, hpre, ?_, ?_, rfl, ?_⟩, ?_, ?_, ?_⟩
    · split at hcached
      · rename_i hseen
        rcases List.mem_append.mp hcached with hcached | hserial
        · exact .inl hcached
        · exact .inr ⟨hseen, List.mem_singleton.mp hserial⟩
      · exact .inl hcached
    · rw [startsWith_iff]
      exact ⟨family ++ "/" ++ inst ++ "/" ++ path, by
        rw [hparts.parts]
        simp only [String.append_assoc]⟩
    · rcases hknown with hqueued | hsel
      · obtain ⟨u, hu, ⟨e', hue, hf'⟩, hsel⟩ := hboundary.selected item hqueued
        have heq : e' = e := by
          have := hf'.symm.trans hf
          omega
        exact .inr ⟨u, hu, by rw [hue, hve, heq], hsel⟩
      · exact .inl hsel
    · rw [hrest, request_item]
      exact startsWith_request _
    -- a wildcard in the request would be one in the portal
    · intro c hc hmem
      have hitem_mem : c ∈ item.toList := by
        rw [hrest, request_item, String.toList_append] at hmem
        rw [hrest, String.toList_append]
        exact List.mem_append_right _
          ((List.mem_append.mp hmem).resolve_left ((by decide : Plain "R/").notMem hc))
      have hpre_mem := wildcard_refreshTopics hdigit hcontracts hitem hc hitem_mem
      rw [hportal, String.toList_append] at hpre_mem
      exact (List.mem_append.mp hpre_mem).resolve_left ((by decide : Plain "N/").notMem hc)
    · rintro (hkeepalive | hserial)
      · -- an item has a slash below its first level, the keepalive has none
        rw [hrest, request_item, keepaliveTopic_eq, String.append_right_inj, String.append_assoc,
          String.append_right_inj] at hkeepalive
        have htail : "/" ++ (family ++ "/" ++ inst ++ "/" ++ path) = "/" ++ "keepalive" :=
          hkeepalive
        rw [String.append_right_inj] at htail
        have hslash : '/' ∈ ("keepalive" : String).toList := by
          rw [← htail]
          simp
        exact absurd hslash (by decide)
      · rw [hrest, request_item, serialRequest_eq, String.append_right_inj] at hserial
        have hitem_eq : item = serialTopic pre := by
          rw [hrest, hportal, serialTopic, hserial, String.append_assoc]
        rw [if_pos hitem_eq]
  -- the keepalive
  · obtain ⟨rfl, rfl⟩ := h
    refine ⟨howned, .inl rfl, ?_, ?_, fun _ => rfl⟩
    · rw [keepaliveTopic, String.append_assoc]
      exact startsWith_request _
    · intro c hc hmem
      exact wildcard_middle (by decide) (by decide) hc hmem

end Topics

/-! ## Every run -/

/-- Topic and payload of the requests among some calls to the broker. -/
def requests (calls : List MqttOut) : List (String × String) :=
  calls.filterMap fun
    | .publish _ topic payload => some (topic, payload)
    | _ => none

/-- What is seen of one step, in the light of what has been seen before it. -/
structure Seen (env : MqttEnv) (log : List FeedOut) (x : FeedOut) : Prop where
  /-- An ownership check passes only for the epoch of the connection, and only
      a call of that epoch makes it. -/
  owned : ∀ f h t e, x = .did f h (.ready t e) true →
    e = currentEpoch log ∧ (progress f h).epoch = some e
  published : ∀ f h t topic payload r, x = .did f h (.publish t topic payload) r →
    Published env log (progress f h) t topic payload
  /-- `_on_connect` sends the one unsuppressed request of an epoch. -/
  connected : ∀ e calls, x = .connected e calls →
    requests calls = [(keepaliveTopic env, "")] ∨
      env.config.portal = none ∧ requests calls = []

theorem requests_connectCalls (env : MqttEnv) (explicit : List String) (t : Nat) :
    requests (connectCalls env explicit t) = [(keepaliveTopic env, "")] ∨
      env.config.portal = none ∧ requests (connectCalls env explicit t) = [] := by
  have hsubscribe : ∀ filters : List String, requests (filters.map (.subscribe t)) = [] := by
    intro filters
    rw [requests, List.filterMap_map, List.filterMap_eq_nil_iff]
    intro p _
    rfl
  unfold connectCalls
  split
  -- without a portal nothing is sent
  · rename_i e hbase
    refine .inr ⟨?_, rfl⟩
    cases hportal : env.config.portal with
    | none => rfl
    | some p =>
      rw [baseSubscriptions, MQTTConfig.topicPrefix, hportal] at hbase
      cases hbase
  · rename_i base hbase
    refine .inl ?_
    rw [requests, List.filterMap_append, ← requests, ← requests, hsubscribe]
    rfl

/-- A step shows nothing, or one thing that is as it should be. -/
theorem seen_step {env : MqttEnv} (hdigit : AsciiDigits env.isDigit)
    (hcontracts : ∀ c ∈ env.contracts, c.Accepted) {log : List FeedOut} {s s' : FeedState}
    (hkept : Kept env log s) (hsessions : Sessions log s) {e : FeedEvent} {out : List FeedOut}
    (hstep : s.step env e = some (s', out)) : out = [] ∨ ∃ x, out = [x] ∧ Seen env log x := by
  cases FeedState.step_cases hstep with
  | other hcall hfeed hepoch => exact .inl rfl
  | connected t hcall hfeed hepoch =>
    refine .inr ⟨_, rfl, ⟨?_, ?_, ?_⟩⟩
    · rintro _ _ _ _ ⟨⟩
    · rintro _ _ _ _ _ _ ⟨⟩
    · rintro _ _ ⟨⟩
      exact requests_connectCalls env _ t
  | called hnone => exact .inl rfl
  | ended hc hrest =>
    refine .inr ⟨_, rfl, ⟨?_, ?_, ?_⟩⟩
    · rintro _ _ _ _ ⟨⟩
    · rintro _ _ _ _ _ _ ⟨⟩
    · rintro _ _ ⟨⟩
  | @did c o k accepted hc hrest =>
    have hw := hkept.working c hc
    have hfollows := hw.follows
    rw [hrest, follows_op] at hfollows
    obtain ⟨⟨-, hallowed⟩, -⟩ := hfollows
    refine .inr ⟨_, rfl, ?_⟩
    obtain ⟨r, hr⟩ : ∃ r, r = (s.py.answerFeed s.now accepted o).1 := ⟨_, rfl⟩
    rw [← hr]
    refine ⟨?_, ?_, ?_⟩
    · rintro f h t e ⟨⟩
      refine ⟨?_, hallowed⟩
      simp only [MqttClient.answerFeed] at hr
      rw [eq_comm, Bool.and_eq_true, decide_eq_true_eq] at hr
      rw [hsessions.current, hr.2]
    · rintro f h t topic payload r' ⟨⟩
      exact published_of_allowed hdigit hcontracts hw.boundary hallowed
    · rintro _ _ ⟨⟩

/-- What the maintenance does in a run. -/
structure Paced (env : MqttEnv) (log : List FeedOut) (s : FeedState) : Prop where
  first : FirstSilent (calls log s)
  spaced : (calls log s).Pairwise Spaced
  bounded : ∀ v ∈ calls log s, Bounded v
  pending_le : s.py.feed.pendingRefresh.length ≤ maxRefreshTopics
  /-- No epoch is begun twice. -/
  sessions : (epochs log).Pairwise (· < ·)
  seen : ∀ pre x suf, log = pre ++ x :: suf → Seen env pre x

theorem Kept.calls {env : MqttEnv} {log : List FeedOut} {s : FeedState} (h : Kept env log s) :
    (calls log s).Pairwise Spaced ∧ FirstSilent (calls log s) ∧
      (∀ v ∈ calls log s, Bounded v) ∧ s.py.feed.pendingRefresh.length ≤ maxRefreshTopics := by
  unfold McpVenusOs.calls
  cases hcall : s.call with
  | none =>
    rw [Option.map_none, Option.toList_none, List.append_nil]
    exact ⟨h.spaced, h.first, h.bounded, (h.idle hcall).1.pending_le⟩
  | some c =>
    obtain ⟨hspaced, hfirst, hbounded⟩ := h.concat hcall
    have hw := h.working c hcall
    refine ⟨hspaced, hfirst, hbounded, ?_⟩
    rw [hw.feed]
    exact (good_of_follows hw.follows).pending_le hw.boundary.pending_le

/-- Whatever the other threads change and however publishes are taken: keepalives,
    batches and selections keep their distances within an epoch, nothing but
    suppressed reads of selected items is sent, and only within the epoch. -/
theorem read_feed_paced {env : MqttEnv} (hdigit : AsciiDigits env.isDigit)
    (hcontracts : ∀ c ∈ env.contracts, c.Accepted) {cursor : Nat} {es : List FeedEvent}
    {log : List FeedOut} {s : FeedState}
    (h : Path (feedSystem env cursor) (fun _ _ => True) (feedSystem env cursor).init es log s) :
    Paced env log s := by
  have hinv : Kept env log s ∧ Sessions log s ∧
      ∀ pre x suf, log = pre ++ x :: suf → Seen env pre x := by
    refine h.induct (P := fun log s => Kept env log s ∧ Sessions log s ∧
      ∀ pre x suf, log = pre ++ x :: suf → Seen env pre x) ⟨kept_init env cursor, ?_, ?_⟩ ?_
    · exact ⟨List.Pairwise.nil, fun e he => (by cases he), rfl⟩
    · intro pre x suf heq
      obtain ⟨-, hcons⟩ := List.append_eq_nil_iff.mp heq.symm
      cases hcons
    · rintro log s e s' out ⟨hkept, hsessions, hseen⟩ - hstep
      refine ⟨hkept.step hstep, hsessions.step hstep, ?_⟩
      rcases seen_step hdigit hcontracts hkept hsessions hstep with rfl | ⟨x, rfl, hx⟩
      · rwa [List.append_nil]
      · intro pre y suf heq
        rcases append_cons_eq_concat.mp heq.symm with ⟨suf', -, hlog⟩ | ⟨-, rfl, rfl⟩
        · exact hseen pre y suf' hlog
        · exact hx
  obtain ⟨hkept, hsessions, hseen⟩ := hinv
  obtain ⟨hspaced, hfirst, hbounded, hpending⟩ := hkept.calls
  exact ⟨hfirst, hspaced, hbounded, hpending, hsessions.ascending, hseen⟩

/-- The owned transport, with one cached item. -/
def fixtureFeedClient : MqttClient where
  transport := { client := some 0 }
  cache := AList.insert "N/testportal/battery/512/Soc" (.int 55, 0) ∅

/-- A connection, the first call, and the call thirty seconds later. -/
def pacingSchedule : List FeedEvent :=
  [.change fixtureFeedClient, .connect 0 true, .call] ++ List.replicate 4 (.turn true) ++
    [.tick 30, .call] ++ List.replicate 15 (.turn true)

def readsSoc : FeedOut → Bool
  | .did _ _ (.publish _ topic _) _ => topic = "R/testportal/battery/512/Soc"
  | _ => false

/-- The second call sends the keepalive and reads the cached item. -/
theorem read_feed_paced_soc : ∃ log s,
    Path (feedSystem fixtureEnv 0) (fun _ _ => True) (feedSystem fixtureEnv 0).init
      pacingSchedule log s ∧
    log.any readsSoc = true ∧ ((calls log s).map (·.keepalives) = [[], [true]]) ∧
    Paced fixtureEnv log s := by
  let m := feedSystem fixtureEnv 0
  have hrun : (m.exec m.init pacingSchedule).any (fun r => r.2.any readsSoc &&
      (calls r.2 r.1).map (·.keepalives) = [[], [true]]) = true := by
    decide +kernel
  obtain ⟨⟨s, log⟩, hexec, hrun⟩ := Option.any_eq_true _ _ |>.mp hrun
  rw [Bool.and_eq_true, decide_eq_true_eq] at hrun
  exact ⟨log, s, path_of_exec hexec, hrun.1, hrun.2,
    read_feed_paced (fun _ _ => rfl) fixtureContracts_accepted (path_of_exec hexec)⟩

end McpVenusOs
