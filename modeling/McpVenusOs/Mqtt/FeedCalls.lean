/-
  McpVenusOs.Mqtt.FeedCalls

  What one call of `_maintain_read_feed` does, whatever its operations answer.

  `Good` holds of its progress at every operation and `Finished` of its end, in
  terms of the schedule the call was started with (`follows_maintainReadFeed`).
  Neither mentions other calls; what a run makes of them is in
  `Mqtt.FeedPacing` and `Mqtt.FeedRotation`.
-/

import Mathlib.Tactic.Linarith
import McpVenusOs.Mqtt.FeedRuns
import McpVenusOs.Lib.Rotation

namespace McpVenusOs

open Py Program Rotation

/-- The least distance to the next keepalive. -/
def keepaliveDelay (accepted : Bool) : ℚ := if accepted then applicationKeepalive else 1

theorem keepaliveDelay_pos (accepted : Bool) : 0 < keepaliveDelay accepted := by
  cases accepted <;> norm_num [keepaliveDelay, applicationKeepalive]

namespace Progress

/-- The topic was queued before the call, or is selected by it. -/
def Known (f : Feed) (v : Progress) (t : String) : Prop :=
  t ∈ f.pendingRefresh ∨ ∃ sel ∈ v.selections, t ∈ sel

/-- What holds at every operation of a call that started with `f`. -/
structure Good (f : Feed) (v : Progress) : Prop where
  silent : ¬ v.Current f →
    v.keepalives = [] ∧ v.selections = [] ∧ v.attempts = 0 ∧ v.accepted = []
  keepalive_once : v.keepalives.length ≤ 1
  keepalive_due : v.keepalives ≠ [] → f.nextKeepalive ≤ v.now
  selection_once : v.selections.length ≤ 1
  selection_due : v.selections ≠ [] → f.nextRefresh ≤ v.now
  attempts_le : v.attempts ≤ refreshBatchSize
  batch_due : 0 < v.attempts → f.nextRefreshBatch ≤ v.now
  pending_le : f.pendingRefresh.length ≤ maxRefreshTopics →
    v.feed.pendingRefresh.length ≤ maxRefreshTopics
  pending : ∀ t ∈ v.feed.pendingRefresh, v.Known f t

/-- The queue has been consumed from its head until `rest` was left; what was
    still a candidate has been accepted, the others were dropped. -/
def Remaining (env : MqttEnv) (f : Feed) (v : Progress) (rest : List String) : Prop :=
  ∃ consumed, f.pendingRefresh ++ v.selections.flatten = consumed ++ rest ∧
    v.accepted = (consumed.filter (· ∈ v.candidates env)).map request ∧
    (consumed ≠ [] → v.refreshing = true)

/-- A selection is made of an empty queue. -/
def Selected (env : MqttEnv) (f : Feed) (v : Progress) : Prop :=
  ∀ sel ∈ v.selections, f.pendingRefresh = [] ∧ v.refreshing = true ∧
    sel = window maxRefreshTopics (v.candidates env) f.refreshCursor

/-- A read of the head of the queue, one of the call's candidates. -/
def ReadRequest (env : MqttEnv) (f : Feed) (v : Progress) (topic payload : String) : Prop :=
  v.Current f ∧ v.Selected env f ∧ ∃ pre t rest, env.config.topicPrefix = .ok pre ∧
    t ∈ v.candidates env ∧ v.Remaining env f (t :: rest) ∧ topic = request t ∧
    payload = if t = serialTopic pre then suppressRepublish else ""

/-- What the operation may be. -/
def Allowed (env : MqttEnv) (f : Feed) (v : Progress) : FeedOp → Prop
  | .ready _ e => v.epoch = some e
  | .publish t topic payload =>
    (∃ e, v.epoch = some e ∧ v.checked = some (t, e)) ∧
      if v.refreshing then v.ReadRequest env f topic payload
      else topic = keepaliveTopic env ∧ payload = suppressRepublish
  | _ => True

/-- What holds at the end of a call that started with `f`. -/
structure Finished (env : MqttEnv) (f : Feed) (v : Progress) : Prop where
  unowned : v.epoch = none → v.feed = f
  epoch : ∀ e, v.epoch = some e → v.feed.maintenanceEpoch = e
  renewed : v.epoch ≠ none → ¬ v.Current f → v.feed.pendingRefresh = []
  renewed_cursor : ¬ v.Current f → v.feed.refreshCursor = f.refreshCursor
  keepalive : v.Current f → f.nextKeepalive ≤ v.feed.nextKeepalive
  keepalive_delay : ∀ accepted ∈ v.keepalives,
    v.now + keepaliveDelay accepted ≤ v.feed.nextKeepalive
  refresh : v.Current f → f.nextRefresh ≤ v.feed.nextRefresh
  refresh_delay : v.selections ≠ [] → v.now + refreshInterval ≤ v.feed.nextRefresh
  batch : v.Current f → f.nextRefreshBatch ≤ v.feed.nextRefreshBatch
  batch_delay : 0 < v.attempts → v.now + refreshBatchInterval ≤ v.feed.nextRefreshBatch
  queue : v.Current f → v.Remaining env f v.feed.pendingRefresh
  selected : v.Selected env f
  cursor : v.selections = [] → v.feed.refreshCursor = f.refreshCursor
  cursor_next : v.selections ≠ [] → v.feed.refreshCursor =
    if v.candidates env = [] then f.refreshCursor else
      (f.refreshCursor + width maxRefreshTopics (v.candidates env)) % (v.candidates env).length

/-- The head of the queue was there before the call, or is selected by it. -/
theorem Remaining.known {env : MqttEnv} {f : Feed} {v : Progress} {t : String} {rest : List String}
    (h : v.Remaining env f (t :: rest)) : v.Known f t := by
  obtain ⟨consumed, hqueue, -, -⟩ := h
  have hmem : t ∈ f.pendingRefresh ++ v.selections.flatten := by
    rw [hqueue]
    exact List.mem_append_right _ List.mem_cons_self
  rcases List.mem_append.mp hmem with hmem | hmem
  · exact .inl hmem
  · exact .inr (List.mem_flatten.mp hmem)

/-- `Good` does not depend on what a call has looked up. -/
theorem Good.context {f : Feed} {v : Progress} (h : Good f v) (checked : Option (Nat × Nat))
    (explicit cached : List String) (serialSeen refreshing : Bool) :
    Good f { v with checked := checked, explicit := explicit, cached := cached,
                    serialSeen := serialSeen, refreshing := refreshing } :=
  ⟨h.silent, h.keepalive_once, h.keepalive_due, h.selection_once, h.selection_due, h.attempts_le,
    h.batch_due, h.pending_le, h.pending⟩

/-- `Finished` does not depend on the ownership check. -/
theorem Finished.unchecked {env : MqttEnv} {f : Feed} {v : Progress} (h : Finished env f v)
    (checked : Option (Nat × Nat)) : Finished env f { v with checked := checked } :=
  ⟨h.unowned, h.epoch, h.renewed, h.renewed_cursor, h.keepalive, h.keepalive_delay, h.refresh,
    h.refresh_delay, h.batch, h.batch_delay, h.queue, h.selected, h.cursor, h.cursor_next⟩

end Progress

/-! ## The calls of the routine -/

open Progress

section Routine

variable {env : MqttEnv} {f : Feed} {t epoch : Nat}

/-- The operations of a call meet `Good`, and `Allowed`. -/
abbrev AllGood (env : MqttEnv) (f : Feed) (v : Progress) (o : FeedOp) : Prop :=
  v.Good f ∧ v.Allowed env f o

theorem Progress.attempted_refused (v : Progress) (topic : String) :
    v.attempted topic false = v.attempted "" false := by
  unfold attempted
  split <;> rfl

/-- A publish that fails its ownership check counts as refused. -/
theorem follows_publishRead {R : Progress → Except PyError Bool → Prop} {v : Progress}
    {topic payload : String} (hgood : v.Good f) (hepoch : v.epoch = some epoch)
    (hpublish : ({ v with checked := some (t, epoch) } : Progress).Allowed env f
      (.publish t topic payload))
    (hR : ∀ accepted, R (v.attempted topic accepted) (.ok accepted)) :
    Follows Progress.see (AllGood env f) R v (publishRead t epoch topic payload) := by
  refine ⟨⟨hgood, hepoch⟩, fun passed => ?_⟩
  cases passed with
  | false =>
    have hfalse := hR false
    rw [attempted_refused] at hfalse
    exact hfalse
  | true => exact ⟨⟨hgood.context _ _ _ _ _, hpublish⟩, fun accepted => hR accepted⟩

/-- The state of a call at the head of its batch loop. -/
structure AtLoop (env : MqttEnv) (f : Feed) (epoch : Nat) (candidates : List String) (n : Nat)
    (feed : Feed) (v : Progress) : Prop where
  good : v.Good f
  finished : v.Finished env f
  feed_eq : v.feed = feed
  epoch_eq : v.epoch = some epoch
  current : f.maintenanceEpoch = epoch
  refreshing : v.refreshing = true
  candidates_eq : v.candidates env = candidates
  attempts : v.attempts + n ≤ refreshBatchSize
  due : f.nextRefreshBatch ≤ v.now
  delay : v.now + refreshBatchInterval ≤ feed.nextRefreshBatch

/-- A schedule with the same time of the next refresh is no new selection. -/
theorem see_store (v : Progress) (feed : Feed) (u : FeedResp (.store feed))
    (h : feed.nextRefresh = v.feed.nextRefresh) :
    v.see (.store feed) u = { v with feed := feed } := by
  simp [Progress.see, h]

theorem AtLoop.unchecked {candidates : List String} {n : Nat} {feed : Feed} {v : Progress}
    (h : AtLoop env f epoch candidates n feed v) :
    AtLoop env f epoch candidates n feed { v with checked := none } :=
  ⟨h.good.context _ _ _ _ _, h.finished.unchecked _, h.feed_eq, h.epoch_eq, h.current,
    h.refreshing, h.candidates_eq, h.attempts, h.due, h.delay⟩

/-- The head of the queue is consumed: it is accepted if it is a candidate. -/
theorem Progress.Finished.consume {v : Progress} (h : v.Finished env f) (hcurrent : v.Current f)
    (hrefreshing : v.refreshing = true) {topic : String} {rest : List String}
    (hpending : v.feed.pendingRefresh = topic :: rest)
    (hdelay : v.now + refreshBatchInterval ≤ v.feed.nextRefreshBatch)
    (checked : Option (Nat × Nat)) (attempts : Nat) {accepted : List String}
    (haccepted : accepted =
      v.accepted ++ ([topic].filter (· ∈ v.candidates env)).map request) :
    ({ v with feed := { v.feed with pendingRefresh := rest }, checked := checked,
              attempts := attempts, accepted := accepted } : Progress).Finished env f where
  __ := h
  unowned hnone := by
    obtain ⟨e, he, -⟩ := hcurrent
    exact absurd (he.symm.trans hnone) (by simp)
  renewed _ hold := absurd hcurrent hold
  renewed_cursor hold := absurd hcurrent hold
  batch_delay _ := hdelay
  queue _ := by
    obtain ⟨consumed, hqueue, hsent, -⟩ := h.queue hcurrent
    refine ⟨consumed ++ [topic], ?_, ?_, fun _ => hrefreshing⟩
    · rw [hqueue, hpending, List.append_assoc, List.singleton_append]
    · rw [haccepted, hsent, List.filter_append, List.map_append]
      rfl

/-- A failed attempt puts the head back. -/
theorem Progress.Finished.restore {v : Progress} (h : v.Finished env f)
    (hdelay : v.now + refreshBatchInterval ≤ v.feed.nextRefreshBatch)
    (checked : Option (Nat × Nat)) (attempts : Nat) :
    ({ v with checked := checked, attempts := attempts } : Progress).Finished env f :=
  { h with batch_delay := fun _ => hdelay }

theorem Progress.Good.restore {v : Progress} (h : v.Good f) (hcurrent : v.Current f)
    (hdue : f.nextRefreshBatch ≤ v.now) (checked : Option (Nat × Nat)) {attempts : Nat}
    (hattempts : attempts ≤ refreshBatchSize) :
    ({ v with checked := checked, attempts := attempts } : Progress).Good f :=
  { h with
    silent := fun hold => absurd hcurrent hold
    attempts_le := hattempts
    batch_due := fun _ => hdue }

/-- The rest of the queue is as well known as all of it. -/
theorem Progress.Good.consume {v : Progress} (h : v.Good f) (hcurrent : v.Current f)
    {topic : String} {rest : List String} (hpending : v.feed.pendingRefresh = topic :: rest)
    (hdue : f.nextRefreshBatch ≤ v.now) (checked : Option (Nat × Nat)) {attempts : Nat}
    (hattempts : attempts ≤ refreshBatchSize) (accepted : List String) :
    ({ v with feed := { v.feed with pendingRefresh := rest }, checked := checked,
              attempts := attempts, accepted := accepted } : Progress).Good f where
  __ := h
  silent hold := absurd hcurrent hold
  attempts_le := hattempts
  batch_due _ := hdue
  pending_le hlength := by
    have hle := h.pending_le hlength
    rw [hpending, List.length_cons] at hle
    exact Nat.le_of_succ_le hle
  pending t ht := by
    refine h.pending t ?_
    rw [hpending]
    exact List.mem_cons_of_mem _ ht

theorem follows_refreshBatch {pre : String} (hpre : env.config.topicPrefix = .ok pre)
    {candidates : List String} {n : Nat} {feed : Feed} {v : Progress}
    (h : AtLoop env f epoch candidates n feed v) :
    Follows Progress.see (AllGood env f) (fun v _ => v.Good f ∧ v.Finished env f) v
      (refreshBatch env t epoch candidates n feed) := by
  induction n generalizing feed v with
  | zero => exact ⟨h.good, h.finished⟩
  | succ n ih =>
    rw [refreshBatch, follows_perform_bind]
    refine ⟨⟨h.good, trivial⟩, fun owned => ?_⟩
    have h := h.unchecked
    change Follows _ _ _ { v with checked := none } _
    generalize ({ v with checked := none } : Progress) = w at h ⊢
    -- the loop ends when the transport is no longer owned
    cases owned with
    | false => exact ⟨h.good, h.finished⟩
    | true =>
      simp only [if_true]
      cases hpending : feed.pendingRefresh with
      | nil => exact ⟨h.good, h.finished⟩
      | cons topic rest =>
        rw [follows_perform_bind]
        refine ⟨⟨h.good, trivial⟩, fun _ => ?_⟩
        obtain rfl := h.feed_eq
        rw [see_store w { w.feed with pendingRefresh := rest } _ rfl]
        have hcurrent : w.Current f := ⟨epoch, h.epoch_eq, h.current⟩
        have hattempts : w.attempts + 1 + n ≤ refreshBatchSize := by
          have := h.attempts
          omega
        have hone : w.attempts + 1 ≤ refreshBatchSize := (Nat.le_add_right _ n).trans hattempts
        -- the head is published if it is still a candidate
        by_cases hmem : topic ∈ candidates
        · rw [if_pos hmem]
          have hcandidate : topic ∈ w.candidates env := by rwa [h.candidates_eq]
          have hpopped := h.good.consume hcurrent hpending h.due w.checked
            (Nat.le_of_succ_le hone) w.accepted
          -- the publish, and then what its result does to the queue
          refine Follows.bind (R := fun v r => ∃ accepted, r = .ok accepted ∧
            v = ({ w with feed := { w.feed with pendingRefresh := rest } } : Progress).attempted
              (request topic) accepted) ?_ ?_ ?_
          · refine follows_publishRead hpopped h.epoch_eq ⟨⟨epoch, h.epoch_eq, rfl⟩, ?_⟩
              fun accepted => ⟨accepted, rfl, rfl⟩
            rw [if_pos h.refreshing]
            have hqueue := h.finished.queue hcurrent
            rw [hpending] at hqueue
            refine ⟨hcurrent, h.finished.selected, pre, topic, rest, hpre, hcandidate, hqueue, rfl,
              ?_⟩
            simp [hpre, Except.toOption]
          · rintro _ taken ⟨_, ⟨⟩, rfl⟩
            rw [attempted, if_pos h.refreshing]
            cases taken with
            | true =>
              refine ih ⟨?_, ?_, rfl, h.epoch_eq, h.current, h.refreshing, h.candidates_eq,
                hattempts, h.due, h.delay⟩
              · exact h.good.consume hcurrent hpending h.due none hone _
              · exact h.finished.consume hcurrent h.refreshing hpending h.delay none _
                  (by simp [hcandidate])
            | false =>
              have hgood := h.good.consume hcurrent hpending h.due none hone w.accepted
              -- a refused read goes back to the head, and the loop ends
              have hback : ∀ v' : Progress,
                  v' = { w with checked := none, attempts := w.attempts + 1 } →
                  v'.Good f ∧ v'.Finished env f := by
                rintro _ rfl
                exact ⟨h.good.restore hcurrent h.due none hone, h.finished.restore h.delay none _⟩
              exact ⟨⟨hgood, trivial⟩, fun _ => hback _ (see_store _ w.feed _ rfl)⟩
          · rintro _ _ ⟨_, ⟨⟩, -⟩
        · rw [if_neg hmem]
          -- a topic that is no candidate any more is dropped without a request
          rw [← h.candidates_eq] at hmem
          refine ih ⟨?_, ?_, rfl, h.epoch_eq, h.current, h.refreshing, h.candidates_eq, ?_, h.due,
            h.delay⟩
          · exact h.good.consume hcurrent hpending h.due w.checked (Nat.le_of_succ_le hone)
              w.accepted
          · exact h.finished.consume hcurrent h.refreshing hpending h.delay w.checked w.attempts
              (by simp [hmem])
          · exact (Nat.add_le_add_right (Nat.le_succ _) n).trans hattempts

/-- A new cycle, or nothing. -/
theorem Feed.select_cases (feed : Feed) (now : ℚ) (candidates : List String) :
    (feed.nextRefresh ≤ now ∧ feed.pendingRefresh = [] ∧ feed.select now candidates =
      { feed with
        nextRefresh := now + refreshInterval,
        pendingRefresh := window maxRefreshTopics candidates feed.refreshCursor,
        refreshCursor := if candidates = [] then feed.refreshCursor else
          (feed.refreshCursor + width maxRefreshTopics candidates) % candidates.length }) ∨
    feed.select now candidates = feed := by
  unfold Feed.select
  split
  · rename_i hdue
    refine .inl ⟨hdue.1, hdue.2, ?_⟩
    by_cases hempty : candidates = []
    · simp [hempty, hdue.2, window]
    · have hslice := List.rotate_eq_drop_append_take_mod (l := candidates) (n := feed.refreshCursor)
      have hlength := length_window (m := maxRefreshTopics) (l := candidates)
        (c := feed.refreshCursor)
      simp only [if_neg hempty, hdue.2, List.nil_append]
      rw [← hslice, ← window, hlength, Nat.mod_add_mod]
  · exact .inr rfl

theorem length_window_le (candidates : List String) (cursor : Nat) :
    (window maxRefreshTopics candidates cursor).length ≤ maxRefreshTopics := by
  rw [length_window]
  exact min_le_left _ _

/-- The state of a call after its keepalive. -/
structure AtRefresh (env : MqttEnv) (f : Feed) (epoch : Nat) (v : Progress) : Prop where
  good : v.Good f
  finished : v.Finished env f
  epoch_eq : v.epoch = some epoch
  current : f.maintenanceEpoch = epoch
  selections_eq : v.selections = []
  attempts_eq : v.attempts = 0
  accepted_eq : v.accepted = []
  feed_eq : v.feed = { f with nextKeepalive := v.feed.nextKeepalive }

/-- Looking up the candidates changes nothing else. -/
theorem AtRefresh.looked {v : Progress} (h : AtRefresh env f epoch v) (refreshing : Bool)
    (explicit cached : List String) (serialSeen : Bool) :
    AtRefresh env f epoch { v with refreshing := refreshing, explicit := explicit,
                                   cached := cached, serialSeen := serialSeen } := by
  have hfinished := h.finished
  refine ⟨h.good.context _ _ _ _ _, ?_, h.epoch_eq, h.current, h.selections_eq, h.attempts_eq,
    h.accepted_eq, h.feed_eq⟩
  refine ⟨hfinished.unowned, hfinished.epoch, hfinished.renewed, hfinished.renewed_cursor,
    hfinished.keepalive, hfinished.keepalive_delay, hfinished.refresh, hfinished.refresh_delay,
    hfinished.batch, hfinished.batch_delay, fun _ => ⟨[], ?_, h.accepted_eq, absurd rfl⟩, ?_,
    hfinished.cursor, absurd h.selections_eq⟩
  · rw [h.selections_eq, h.feed_eq]
    exact List.append_nil _
  · intro sel hsel
    rw [h.selections_eq] at hsel
    cases hsel

/-- A new cycle is recorded as a selection. -/
theorem see_select {v : Progress} {feed : Feed} (hrefreshing : v.refreshing = true)
    (hselections : v.selections = []) (hnext : v.feed.nextRefresh < feed.nextRefresh) :
    v.see (.store feed) () =
      { v with feed := feed, selections := [feed.pendingRefresh] } := by
  simp [Progress.see, hrefreshing, hselections, hnext.ne']

/-- After the schedule of the batch is stored, the loop can begin. -/
theorem AtRefresh.atLoop {v : Progress} (h : AtRefresh env f epoch v)
    (hrefreshing : v.refreshing = true) (hdue : f.nextRefreshBatch ≤ v.now) :
    AtLoop env f epoch (v.candidates env) refreshBatchSize
      { v.feed.select v.now (v.candidates env) with
        nextRefreshBatch := v.now + refreshBatchInterval }
      (v.see (.store { v.feed.select v.now (v.candidates env) with
        nextRefreshBatch := v.now + refreshBatchInterval }) ()) := by
  have hgood := h.good
  have hfinished := h.finished
  have hcurrent : v.Current f := ⟨epoch, h.epoch_eq, h.current⟩
  have hnextRefresh : v.feed.nextRefresh = f.nextRefresh := by rw [h.feed_eq]
  have hpending : v.feed.pendingRefresh = f.pendingRefresh := by rw [h.feed_eq]
  have hcursor : v.feed.refreshCursor = f.refreshCursor := by rw [h.feed_eq]
  have hepoch : v.feed.maintenanceEpoch = f.maintenanceEpoch := by rw [h.feed_eq]
  have hbatch : f.nextRefreshBatch ≤ v.now + refreshBatchInterval := by
    have hpos : (0 : ℚ) ≤ refreshBatchInterval := by norm_num [refreshBatchInterval]
    linarith
  have hunowned : v.epoch ≠ none := by
    rw [h.epoch_eq]
    simp
  rcases v.feed.select_cases v.now (v.candidates env) with ⟨hnext, hempty, hselect⟩ | hselect
  · -- a new cycle
    have hlater : v.feed.nextRefresh < v.now + refreshInterval := by
      have hpos : (0 : ℚ) < refreshInterval := by norm_num [refreshInterval]
      linarith
    rw [hselect, see_select hrefreshing h.selections_eq hlater]
    refine ⟨?_, ?_, rfl, h.epoch_eq, h.current, hrefreshing, rfl, ?_, hdue, le_rfl⟩
    · exact { hgood with
        silent := fun hold => absurd hcurrent hold
        selection_once := le_rfl
        selection_due := fun _ => hnextRefresh ▸ hnext
        batch_due := fun _ => hdue
        pending_le := fun _ => length_window_le _ _
        pending := fun t ht => .inr ⟨_, List.mem_singleton_self _, ht⟩ }
    · exact { hfinished with
        unowned := fun hnone => absurd hnone hunowned
        renewed := fun _ hold => absurd hcurrent hold
        renewed_cursor := fun hold => absurd hcurrent hold
        refresh := fun _ => hnextRefresh ▸ hlater.le
        refresh_delay := fun _ => le_rfl
        batch := fun _ => hbatch
        batch_delay := fun _ => le_rfl
        queue := fun _ => ⟨[], by simp [← hpending, hempty], h.accepted_eq, absurd rfl⟩
        selected := by
          intro sel hsel
          cases List.mem_singleton.mp hsel
          rw [← hpending, ← hcursor]
          exact ⟨hempty, hrefreshing, rfl⟩
        cursor := fun hnone => by cases hnone
        cursor_next := fun _ => by
          rw [← hcursor]
          rfl }
    · rw [h.attempts_eq, Nat.zero_add]
  · -- the rest of the last one
    have hsame : ({ v.feed with nextRefreshBatch := v.now + refreshBatchInterval } :
        Feed).nextRefresh = v.feed.nextRefresh := rfl
    rw [hselect, see_store v _ _ hsame]
    refine ⟨?_, ?_, rfl, h.epoch_eq, h.current, hrefreshing, rfl, ?_, hdue, le_rfl⟩
    · exact { hgood with batch_due := fun _ => hdue }
    · exact { hfinished with
        unowned := fun hnone => absurd hnone hunowned
        renewed := fun _ hold => absurd hcurrent hold
        renewed_cursor := fun hold => absurd hcurrent hold
        batch := fun _ => hbatch
        batch_delay := fun _ => le_rfl }
    · rw [h.attempts_eq, Nat.zero_add]

theorem Progress.candidates_eq {v : Progress} {pre : String}
    (hpre : env.config.topicPrefix = .ok pre) :
    v.candidates env = refreshTopics env.isDigit pre
      (if v.serialSeen then v.cached ++ [serialTopic pre] else v.cached) env.contracts
      v.explicit := by
  rw [Progress.candidates, hpre]

theorem follows_refreshReads {v : Progress} (h : AtRefresh env f epoch v) :
    Follows Progress.see (AllGood env f) (fun v _ => v.Good f ∧ v.Finished env f) v
      (refreshReads env v.now t epoch v.feed) := by
  unfold refreshReads
  split
  · exact ⟨h.good, h.finished⟩
  · rename_i hdue
    have hbatch : v.feed.nextRefreshBatch = f.nextRefreshBatch := by rw [h.feed_eq]
    rw [not_lt, hbatch] at hdue
    split
    · exact ⟨h.good, h.finished⟩
    · refine ⟨⟨h.good, trivial⟩, fun explicit => ?_⟩
      refine ⟨⟨(h.looked true explicit v.cached v.serialSeen).good, trivial⟩, fun cached => ?_⟩
      refine ⟨⟨(h.looked true explicit cached v.serialSeen).good, trivial⟩, fun serialSeen => ?_⟩
      have h := h.looked true explicit cached serialSeen
      cases hpre : env.config.topicPrefix with
      | error e => exact ⟨h.good, h.finished⟩
      | ok pre =>
        refine ⟨⟨h.good, trivial⟩, fun _ => follows_refreshBatch hpre ?_⟩
        have hloop := h.atLoop rfl hdue
        rw [candidates_eq hpre] at hloop
        exact hloop

/-- A call that has not looked at its queue yet. -/
theorem good_begun (f : Feed) (now nextKeepalive : ℚ) (epoch : Option Nat) (keepalives : List Bool)
    (hsilent : ¬ ({ feed := f, epoch := epoch } : Progress).Current f → keepalives = [])
    (honce : keepalives.length ≤ 1) (hdue : keepalives ≠ [] → f.nextKeepalive ≤ now) :
    ({ feed := { f with nextKeepalive := nextKeepalive }, now := now, epoch := epoch,
       keepalives := keepalives } : Progress).Good f where
  silent hold := ⟨hsilent hold, rfl, rfl, rfl⟩
  keepalive_once := honce
  keepalive_due := hdue
  selection_once := Nat.zero_le _
  selection_due h := absurd rfl h
  attempts_le := Nat.zero_le _
  batch_due h := absurd h (Nat.lt_irrefl 0)
  pending_le h := h
  pending _ ht := .inl ht

/-- A call that has attempted nothing. -/
theorem good_silent (f : Feed) (now : ℚ) (epoch : Option Nat) :
    ({ feed := f, now := now, epoch := epoch } : Progress).Good f :=
  good_begun f now f.nextKeepalive epoch [] (fun _ => rfl) (Nat.zero_le _) fun h => absurd rfl h

/-- A call that has sent its keepalive, or does not have to. -/
theorem atRefresh_begun (env : MqttEnv) {now nextKeepalive : ℚ}
    (hcurrent : f.maintenanceEpoch = epoch) (keepalives : List Bool) (honce : keepalives.length ≤ 1)
    (hdue : keepalives ≠ [] → f.nextKeepalive ≤ now) (hnext : f.nextKeepalive ≤ nextKeepalive)
    (hdelay : ∀ taken ∈ keepalives, now + keepaliveDelay taken ≤ nextKeepalive) :
    AtRefresh env f epoch { feed := { f with nextKeepalive := nextKeepalive }, now := now,
                            epoch := some epoch, keepalives := keepalives } where
  good := good_begun f now nextKeepalive _ keepalives
    (fun hold => absurd ⟨epoch, rfl, hcurrent⟩ hold) honce hdue
  finished :=
    { unowned := fun h => by cases h
      epoch := fun e he => by rw [← Option.some.inj he]; exact hcurrent
      renewed := fun _ hold => absurd ⟨epoch, rfl, hcurrent⟩ hold
      renewed_cursor := fun _ => rfl
      keepalive := fun _ => hnext
      keepalive_delay := hdelay
      refresh := fun _ => le_rfl
      refresh_delay := fun h => absurd rfl h
      batch := fun _ => le_rfl
      batch_delay := fun h => absurd h (Nat.lt_irrefl 0)
      queue := fun _ => ⟨[], List.append_nil _, rfl, absurd rfl⟩
      selected := fun _ h => by cases h
      cursor := fun _ => rfl
      cursor_next := absurd rfl }
  epoch_eq := rfl
  current := hcurrent
  selections_eq := rfl
  attempts_eq := rfl
  accepted_eq := rfl
  feed_eq := rfl

/-- One call, whatever its operations answer. -/
theorem follows_maintainReadFeed (env : MqttEnv) (f : Feed) :
    Follows Progress.see (AllGood env f) (fun v _ => v.Good f ∧ v.Finished env f) { feed := f }
      (maintainReadFeed env f) := by
  refine ⟨⟨good_silent f 0 none, trivial⟩, fun now => ?_⟩
  refine ⟨⟨good_silent f now none, trivial⟩, fun owned => ?_⟩
  cases owned with
  | none =>
    refine ⟨good_silent f now none, ?_⟩
    exact {
      unowned := fun _ => rfl
      epoch := fun e he => by cases he
      renewed := fun hepoch => absurd rfl hepoch
      renewed_cursor := fun _ => rfl
      keepalive := fun _ => le_rfl
      keepalive_delay := fun _ h => by cases h
      refresh := fun _ => le_rfl
      refresh_delay := fun h => absurd rfl h
      batch := fun _ => le_rfl
      batch_delay := fun h => absurd h (Nat.lt_irrefl 0)
      queue := fun _ => ⟨[], List.append_nil _, rfl, absurd rfl⟩
      selected := fun _ h => by cases h
      cursor := fun _ => rfl
      cursor_next := absurd rfl }
  | some owner =>
    obtain ⟨t, epoch⟩ := owner
    by_cases hepoch : f.maintenanceEpoch = epoch
    · change Follows _ _ _ ({ feed := f, now := now, epoch := some epoch } : Progress)
        (if f.maintenanceEpoch ≠ epoch then _ else _)
      rw [if_neg (not_not.mpr hepoch)]
      split
      · rename_i hdue
        -- the keepalive, and its delay stored
        refine Follows.bind (R := fun v r => ∃ taken, r = .ok taken ∧
          v = { feed := f, now := now, epoch := some epoch, keepalives := [taken] })
          (follows_publishRead (good_silent f now _) rfl ⟨⟨epoch, rfl, rfl⟩, rfl, rfl⟩
            fun taken => ⟨taken, rfl, rfl⟩) ?_ ?_
        · rintro _ taken ⟨_, ⟨⟩, rfl⟩
          have hlater : f.nextKeepalive ≤ now + keepaliveDelay taken := by
            have hpos := keepaliveDelay_pos taken
            linarith
          have hrefresh := atRefresh_begun env hepoch [taken] le_rfl
            (fun _ => hdue) hlater (fun _ h => by rw [List.mem_singleton.mp h])
          have hgood := good_begun f now f.nextKeepalive (some epoch) [taken]
            (fun hold => absurd ⟨epoch, rfl, hepoch⟩ hold) le_rfl fun _ => hdue
          exact ⟨⟨hgood, trivial⟩, fun _ => follows_refreshReads hrefresh⟩
        · rintro _ _ ⟨_, ⟨⟩, -⟩
      · exact follows_refreshReads (atRefresh_begun env hepoch [] (Nat.zero_le _)
          (fun h => absurd rfl h) le_rfl (fun _ h => by cases h))
    · change Follows _ _ _ ({ feed := f, now := now, epoch := some epoch } : Progress)
        (if f.maintenanceEpoch ≠ epoch then _ else _)
      rw [if_pos hepoch]
      refine ⟨⟨good_silent f now _, trivial⟩, fun _ => ?_⟩
      have hold : ∀ v : Progress, v.epoch = some epoch → ¬ v.Current f := by
        rintro v hv ⟨e, he, hf⟩
        cases hv.symm.trans he
        exact hepoch hf
      refine ⟨?_, ?_⟩
      · exact {
          silent := fun _ => ⟨rfl, rfl, rfl, rfl⟩
          keepalive_once := Nat.zero_le _
          keepalive_due := fun h => absurd rfl h
          selection_once := Nat.zero_le _
          selection_due := fun h => absurd rfl h
          attempts_le := Nat.zero_le _
          batch_due := fun h => absurd h (Nat.lt_irrefl 0)
          pending_le := fun _ => Nat.zero_le _
          pending := fun _ h => by cases h }
      · exact {
          unowned := fun h => by cases h
          epoch := fun e he => by rw [← Option.some.inj he]; rfl
          renewed := fun _ _ => rfl
          renewed_cursor := fun _ => rfl
          keepalive := fun h => absurd h (hold _ rfl)
          keepalive_delay := fun _ h => by cases h
          refresh := fun h => absurd h (hold _ rfl)
          refresh_delay := fun h => absurd rfl h
          batch := fun h => absurd h (hold _ rfl)
          batch_delay := fun h => absurd h (Nat.lt_irrefl 0)
          queue := fun h => absurd h (hold _ rfl)
          selected := fun _ h => by cases h
          cursor := fun _ => rfl
          cursor_next := absurd rfl }

end Routine

end McpVenusOs
