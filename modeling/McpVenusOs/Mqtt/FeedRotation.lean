/-
  McpVenusOs.Mqtt.FeedRotation

  Which reads are sent over many calls of `_maintain_read_feed`.

  The calls of an epoch fall into cycles: a selection begins one, and the reads
  accepted until the next selection belong to it.  `Rotating` is what the end of
  a call keeps (`Rotating.finish`): every cycle but the latest has consumed all
  of its selection, the latest has the rest of its own queued, and while the
  candidates stay the same the selections are consecutive windows on them.
-/

import Mathlib.Data.List.Chain
import McpVenusOs.Mqtt.FeedPacing

namespace McpVenusOs

open Py Program Machine Progress Rotation

/-! ## Cycles -/

/-- What a refresh cycle has selected, and which reads were accepted in it. -/
structure Cycle where
  selection : List String
  accepted : List String
  deriving DecidableEq

/-- A call begins a new cycle, or continues the latest one. -/
def Cycle.add (cycles : List Cycle) (v : Progress) : List Cycle :=
  match v.selections, cycles with
  | sel :: _, cycles => ⟨sel, v.accepted⟩ :: cycles
  | [], [] => []
  | [], c :: earlier => ⟨c.selection, c.accepted ++ v.accepted⟩ :: earlier

section Add

variable {v : Progress} {c : Cycle} {earlier : List Cycle} {sel : List String}
  {rest : List (List String)}

theorem Cycle.add_begin (h : v.selections = sel :: rest) (cs : List Cycle) :
    Cycle.add cs v = ⟨sel, v.accepted⟩ :: cs := by
  simp [Cycle.add, h]

theorem Cycle.add_continue (h : v.selections = []) :
    Cycle.add (c :: earlier) v = ⟨c.selection, c.accepted ++ v.accepted⟩ :: earlier := by
  simp [Cycle.add, h]

theorem Cycle.add_nil (h : v.selections = []) : Cycle.add [] v = [] := by
  simp [Cycle.add, h]

end Add

/-- The calls of an epoch. -/
def ofEpoch (e : Nat) (done : List Progress) : List Progress := done.filter (·.epoch = some e)

/-- The cycles of an epoch, the latest first. -/
def cycles (e : Nat) (done : List Progress) : List Cycle := (ofEpoch e done).foldl Cycle.add []

/-- What was accepted of `topics` by some calls: in their order, each once, and
    all but what was no candidate at the time of a batch. -/
def Served (env : MqttEnv) (done : List Progress) (topics accepted : List String) : Prop :=
  ∃ kept : List String, kept.Sublist topics ∧ accepted = kept.map request ∧
    ∀ t ∈ topics, t ∈ kept ∨ ∃ v ∈ done, v.refreshing = true ∧ t ∉ v.candidates env

section Cycles

variable {env : MqttEnv} {e : Nat} {done : List Progress} {v : Progress}

theorem ofEpoch_concat (he : v.epoch = some e) :
    ofEpoch e (done ++ [v]) = ofEpoch e done ++ [v] := by
  simp [ofEpoch, he]

theorem ofEpoch_other (he : v.epoch ≠ some e) : ofEpoch e (done ++ [v]) = ofEpoch e done := by
  simp [ofEpoch, he]

theorem cycles_concat (he : v.epoch = some e) :
    cycles e (done ++ [v]) = Cycle.add (cycles e done) v := by
  rw [cycles, ofEpoch_concat he, List.foldl_append]
  rfl

theorem cycles_other (he : v.epoch ≠ some e) : cycles e (done ++ [v]) = cycles e done := by
  rw [cycles, ofEpoch_other he, cycles]

/-- The selections of the cycles are those of the calls. -/
theorem selection_of_cycle {c : Cycle} (hc : c ∈ cycles e done) :
    ∃ v ∈ done, v.epoch = some e ∧ c.selection ∈ v.selections := by
  induction done using List.reverseRecOn generalizing c with
  | nil => cases hc
  | append_singleton done v ih =>
    have hearlier : ∀ d ∈ cycles e done,
        ∃ u ∈ done ++ [v], u.epoch = some e ∧ d.selection ∈ u.selections := by
      intro d hd
      obtain ⟨u, hu, hsel⟩ := ih hd
      exact ⟨u, List.mem_append_left _ hu, hsel⟩
    by_cases he : v.epoch = some e
    · rw [cycles_concat he] at hc
      cases hselections : v.selections with
      -- the call selects: a new cycle begins
      | cons sel rest =>
        rw [Cycle.add_begin hselections] at hc
        rcases List.mem_cons.mp hc with rfl | hc
        · exact ⟨v, by simp, he, by rw [hselections]; exact List.mem_cons_self⟩
        · exact hearlier c hc
      -- it does not: the latest cycle goes on
      | nil =>
        cases hcycles : cycles e done with
        | nil =>
          rw [hcycles, Cycle.add_nil hselections] at hc
          cases hc
        | cons latest earlier =>
          rw [hcycles, Cycle.add_continue hselections] at hc
          rw [hcycles] at hearlier
          rcases List.mem_cons.mp hc with rfl | hc
          · exact hearlier latest List.mem_cons_self
          · exact hearlier c (List.mem_cons_of_mem _ hc)
    · rw [cycles_other he] at hc
      exact hearlier c hc

theorem Served.nil : Served env done [] [] :=
  ⟨[], List.Sublist.refl _, rfl, fun t ht => by cases ht⟩

theorem Served.mono {topics accepted : List String} (h : Served env done topics accepted)
    {done' : List Progress} (hsub : done ⊆ done') : Served env done' topics accepted := by
  obtain ⟨kept, hkept, haccepted, hdropped⟩ := h
  refine ⟨kept, hkept, haccepted, fun t ht => (hdropped t ht).imp_right ?_⟩
  rintro ⟨v, hv, hnot⟩
  exact ⟨v, hsub hv, hnot⟩

theorem Served.append {topics accepted topics' accepted' : List String}
    (h : Served env done topics accepted) (h' : Served env done topics' accepted') :
    Served env done (topics ++ topics') (accepted ++ accepted') := by
  obtain ⟨kept, hkept, rfl, hdropped⟩ := h
  obtain ⟨kept', hkept', rfl, hdropped'⟩ := h'
  refine ⟨kept ++ kept', hkept.append hkept', List.map_append.symm, fun t ht => ?_⟩
  rcases List.mem_append.mp ht with ht | ht
  · exact (hdropped t ht).imp_left (List.mem_append_left _)
  · exact (hdropped' t ht).imp_left (List.mem_append_right _)

/-- One batch. -/
theorem served_filter (hv : v ∈ done) {consumed : List String}
    (hrefreshing : consumed ≠ [] → v.refreshing = true) :
    Served env done consumed ((consumed.filter (· ∈ v.candidates env)).map request) := by
  refine ⟨_, List.filter_sublist, rfl, fun t ht => ?_⟩
  by_cases hcandidate : t ∈ v.candidates env
  · exact .inl (List.mem_filter.mpr ⟨ht, decide_eq_true hcandidate⟩)
  · exact .inr ⟨v, hv, hrefreshing (List.ne_nil_of_mem ht), hcandidate⟩

/-- If the candidates stay the same, all of them are accepted. -/
theorem Served.eq_map {topics accepted cs : List String} (h : Served env done topics accepted)
    (hnodup : topics.Nodup) (hcs : topics ⊆ cs)
    (hstable : ∀ v ∈ done, v.refreshing = true → v.candidates env = cs) :
    accepted = topics.map request := by
  obtain ⟨kept, hkept, rfl, hdropped⟩ := h
  have hall : topics ⊆ kept := by
    intro t ht
    rcases hdropped t ht with hmem | ⟨v, hv, hrefreshing, hnot⟩
    · exact hmem
    · rw [hstable v hv hrefreshing] at hnot
      exact absurd (hcs ht) hnot
  rw [hkept.eq_of_length_le (List.subperm_of_subset hnodup hall).length_le]

end Cycles

/-! ## Between two calls -/

/-- Of the latest cycle `pending` is left, of the earlier ones nothing. -/
def Queued (env : MqttEnv) (done : List Progress) (cs : List Cycle) (pending : List String) :
    Prop :=
  match cs with
  | [] => pending = []
  | c :: earlier =>
    (∃ consumed, c.selection = consumed ++ pending ∧ Served env done consumed c.accepted) ∧
      ∀ d ∈ earlier, Served env done d.selection d.accepted

/-- The batches of the calls had the same candidates. -/
def Stable (env : MqttEnv) (candidates : List String) (done : List Progress) : Prop :=
  ∀ v ∈ done, v.refreshing = true → v.candidates env = candidates

/-- The selections are consecutive windows, and the cursor is at the next one. -/
def Windowed (candidates : List String) (e : Nat) (done : List Progress) (feed : Feed) : Prop :=
  ∃ start, (cycles e done).map Cycle.selection =
      windows maxRefreshTopics candidates start (cycles e done).length ∧
    (feed.maintenanceEpoch = e → feed.refreshCursor % candidates.length =
      (start + (cycles e done).length * width maxRefreshTopics candidates) % candidates.length)

/-- The finished calls of an epoch, and the schedule they have left. -/
structure Rotating (env : MqttEnv) (e : Nat) (done : List Progress) (feed : Feed) : Prop where
  unbegun : feed.maintenanceEpoch < e → ofEpoch e done = []
  /-- The queue of an epoch that is over has been cleared. -/
  queue : ∃ pending, (feed.maintenanceEpoch = e → feed.pendingRefresh = pending) ∧
    Queued env (ofEpoch e done) (cycles e done) pending
  windowed : ∀ candidates, candidates ≠ [] → Stable env candidates (ofEpoch e done) →
    Windowed candidates e done feed

section Finish

variable {env : MqttEnv} {e : Nat} {done done' : List Progress} {cs : List Cycle} {f : Feed}
  {v : Progress} {candidates : List String}

theorem Stable.mono (h : Stable env candidates done') (hsub : done ⊆ done') :
    Stable env candidates done := fun v hv => h v (hsub hv)

theorem Queued.mono {pending : List String} (h : Queued env done cs pending)
    (hsub : done ⊆ done') : Queued env done' cs pending := by
  cases cs with
  | nil => exact h
  | cons c earlier =>
    obtain ⟨⟨consumed, hselection, hserved⟩, hearlier⟩ := h
    exact ⟨⟨consumed, hselection, hserved.mono hsub⟩, fun d hd => (hearlier d hd).mono hsub⟩

/-- A call of the epoch consumes more of the queue, or begins with a new one. -/
theorem Queued.add (h : Queued env done cs f.pendingRefresh) (hsub : done ⊆ done') (hv : v ∈ done')
    (hselected : v.Selected env f) (honce : v.selections.length ≤ 1) {rest : List String}
    (hremaining : v.Remaining env f rest) : Queued env done' (Cycle.add cs v) rest := by
  obtain ⟨consumed, hqueue, haccepted, hrefreshing⟩ := hremaining
  have hserved : Served env done' consumed v.accepted :=
    haccepted ▸ served_filter hv hrefreshing
  cases hselections : v.selections with
  | cons sel more =>
    -- the queue was empty, so the latest cycle had ended
    obtain ⟨hempty, -, -⟩ := hselected sel (by rw [hselections]; exact List.mem_cons_self)
    have hmore : more = [] := by
      rw [hselections, List.length_cons] at honce
      exact List.length_eq_zero_iff.mp (by omega)
    rw [hempty, hselections, hmore, List.nil_append, List.flatten_singleton] at hqueue
    rw [hempty] at h
    rw [Cycle.add_begin hselections]
    refine ⟨⟨consumed, hqueue, hserved⟩, fun d hd => ?_⟩
    cases cs with
    | nil => cases hd
    | cons c earlier =>
      obtain ⟨⟨consumed', hselection, hlatest⟩, hearlier⟩ := h.mono hsub
      rw [List.append_nil] at hselection
      rcases List.mem_cons.mp hd with rfl | hd
      · rwa [hselection]
      · exact hearlier d hd
  | nil =>
    rw [hselections, List.flatten_nil, List.append_nil] at hqueue
    cases cs with
    | nil =>
      have hempty : f.pendingRefresh = [] := h
      rw [hempty] at hqueue
      rw [Cycle.add_nil hselections]
      exact (List.append_eq_nil_iff.mp hqueue.symm).2
    | cons c earlier =>
      obtain ⟨⟨consumed', hselection, hlatest⟩, hearlier⟩ := h.mono hsub
      rw [Cycle.add_continue hselections]
      refine ⟨⟨consumed' ++ consumed, ?_, hlatest.append hserved⟩, hearlier⟩
      rw [hselection, hqueue, List.append_assoc]

/-- A call that keeps the candidates selects the next window. -/
theorem Windowed.add (h : Windowed candidates e done f) (hne : candidates ≠ [])
    (hepoch : v.epoch = some e) (hcurrent : v.Current f) (hv : v.Finished env f)
    (hstable : v.refreshing = true → v.candidates env = candidates) :
    Windowed candidates e (done ++ [v]) v.feed := by
  obtain ⟨start, hwindows, hcursor⟩ := h
  have hcursor := hcursor (by
    obtain ⟨e', he', hf⟩ := hcurrent
    rw [hf, Option.some.inj (hepoch.symm.trans he')])
  refine ⟨start, ?_⟩
  rw [cycles_concat hepoch]
  cases hselections : v.selections with
  -- the window starts where the cursor stood, and moves it past itself
  | cons sel more =>
    obtain ⟨-, hrefreshing, rfl⟩ :=
      hv.selected sel (by rw [hselections]; exact List.mem_cons_self)
    have hnext := hv.cursor_next (by rw [hselections]; exact List.cons_ne_nil _ _)
    rw [hstable hrefreshing] at hnext hselections
    rw [if_neg hne] at hnext
    rw [Cycle.add_begin hselections, List.map_cons, List.length_cons, hwindows, windows,
      ← window_mod, hcursor, window_mod]
    refine ⟨rfl, fun _ => ?_⟩
    rw [hnext, Nat.mod_mod, ← Nat.mod_add_mod, hcursor, Nat.mod_add_mod, Nat.add_assoc,
      ← Nat.succ_mul]
  | nil =>
    rw [hv.cursor hselections]
    cases hcycles : cycles e done with
    | nil =>
      rw [Cycle.add_nil hselections]
      rw [hcycles] at hcursor
      exact ⟨rfl, fun _ => hcursor⟩
    | cons c earlier =>
      rw [hcycles] at hwindows hcursor
      rw [Cycle.add_continue hselections]
      exact ⟨hwindows, fun _ => hcursor⟩

/-- A call of another epoch, or of none, changes nothing. -/
theorem Rotating.finish_other (h : Rotating env e done f) (hv : v.Finished env f)
    (hepoch : ∀ e' : Nat, v.epoch = some e' → f.maintenanceEpoch ≤ e') (hother : v.epoch ≠ some e) :
    Rotating env e (done ++ [v]) v.feed := by
  -- a call of another session, or of none, does not move the feed within this one
  have hfeed : v.feed.maintenanceEpoch ≠ e ∨ v.feed = f := by
    cases hve : v.epoch with
    | none => exact .inr (hv.unowned hve)
    | some e' =>
      refine .inl fun he => hother ?_
      have heq : e' = e := by
        have := (hv.epoch e' hve).symm.trans he
        omega
      rw [hve, heq]
  refine ⟨fun hlt => ?_, ?_, fun candidates hne hstable => ?_⟩
  · rw [ofEpoch_other hother]
    refine h.unbegun ?_
    cases hve : v.epoch with
    | none => rwa [hv.unowned hve] at hlt
    | some e' => exact (hepoch e' hve).trans_lt (hv.epoch e' hve ▸ hlt)
  · obtain ⟨pending, hpending, hqueued⟩ := h.queue
    rw [ofEpoch_other hother, cycles_other hother]
    refine ⟨pending, fun he => ?_, hqueued⟩
    rcases hfeed with hne | hsame
    · exact absurd he hne
    · rw [hsame] at he ⊢
      exact hpending he
  · rw [ofEpoch_other hother] at hstable
    obtain ⟨start, hwindows, hcursor⟩ := h.windowed candidates hne hstable
    refine ⟨start, ?_⟩
    rw [cycles_other hother]
    refine ⟨hwindows, fun he => ?_⟩
    rcases hfeed with hne | hsame
    · exact absurd he hne
    · rw [hsame] at he ⊢
      exact hcursor he

/-- The end of a call of the epoch. -/
theorem Rotating.finish_own (h : Rotating env e done f) (hgood : v.Good f) (hv : v.Finished env f)
    (hepoch : v.epoch = some e) (hle : f.maintenanceEpoch ≤ e) :
    Rotating env e (done ++ [v]) v.feed := by
  have hfeed : v.feed.maintenanceEpoch = e := hv.epoch e hepoch
  have hmem : v ∈ ofEpoch e (done ++ [v]) := by
    rw [ofEpoch_concat hepoch]
    exact List.mem_append_right _ (List.mem_singleton_self v)
  have hsub : ofEpoch e done ⊆ ofEpoch e (done ++ [v]) := by
    rw [ofEpoch_concat hepoch]
    exact List.subset_append_left _ _
  have hunbegun : v.feed.maintenanceEpoch < e → ofEpoch e (done ++ [v]) = [] :=
    fun hlt => absurd hfeed hlt.ne
  by_cases hcurrent : v.Current f
  -- the session goes on with the queue of the call before
  · obtain ⟨e', he', hf⟩ := hcurrent
    cases hepoch.symm.trans he'
    obtain ⟨pending, hpending, hqueued⟩ := h.queue
    rw [← hpending hf] at hqueued
    refine ⟨hunbegun, ⟨v.feed.pendingRefresh, fun _ => rfl, ?_⟩, fun candidates hne hstable => ?_⟩
    · rw [cycles_concat hepoch]
      exact hqueued.add hsub hmem hv.selected hgood.selection_once (hv.queue ⟨e, hepoch, hf⟩)
    · have hwindowed := h.windowed candidates hne (hstable.mono hsub)
      exact hwindowed.add hne hepoch ⟨e, hepoch, hf⟩ hv (hstable v hmem)
  · -- the first call of the epoch only clears the queue
    obtain ⟨-, hselections, -, -⟩ := hgood.silent hcurrent
    have hlt : f.maintenanceEpoch < e := by
      refine lt_of_le_of_ne hle fun hf => hcurrent ⟨e, hepoch, hf⟩
    have hnone : cycles e (done ++ [v]) = [] := by
      rw [cycles_concat hepoch, cycles, h.unbegun hlt]
      exact Cycle.add_nil hselections
    refine ⟨hunbegun, ⟨[], fun _ => ?_, ?_⟩, fun candidates _ _ => ⟨v.feed.refreshCursor, ?_⟩⟩
    · exact hv.renewed (by simp [hepoch]) hcurrent
    · rw [hnone]
      rfl
    · rw [hnone]
      refine ⟨rfl, fun _ => ?_⟩
      rw [List.length_nil, Nat.zero_mul, Nat.add_zero]

theorem Rotating.finish (h : Rotating env e done f) (hgood : v.Good f) (hv : v.Finished env f)
    (hepoch : ∀ e' : Nat, v.epoch = some e' → f.maintenanceEpoch ≤ e') :
    Rotating env e (done ++ [v]) v.feed := by
  by_cases hown : v.epoch = some e
  · exact h.finish_own hgood hv hown (hepoch e hown)
  · exact h.finish_other hv hepoch hown

end Finish

/-! ## Steps -/

/-- The schedule the next call starts with, or the present one has started with. -/
def FeedState.schedule (s : FeedState) : Feed :=
  match s.call with
  | none => s.py.feed
  | some c => c.start

theorem schedule_congr {s s' : FeedState} (hcall : s'.call = s.call)
    (hfeed : s'.py.feed = s.py.feed) : s'.schedule = s.schedule := by
  rw [FeedState.schedule, FeedState.schedule, hcall, hfeed]

/-- A step leaves the schedule and the finished calls alone, or ends a call. -/
theorem step_schedule {env : MqttEnv} {log : List FeedOut} {s s' : FeedState} {ev : FeedEvent}
    {out : List FeedOut} (hkept : Kept env log s) (hstep : s.step env ev = some (s', out)) :
    (finished out = [] ∧ s'.schedule = s.schedule ∧ ∀ f h, .returned f h ∉ out) ∨
      ∃ f h, out = [.returned f h] ∧ s.schedule = f ∧ s'.schedule = (progress f h).feed ∧
        (progress f h).Good f ∧ (progress f h).Finished env f ∧
        ∀ e : Nat, (progress f h).epoch = some e → f.maintenanceEpoch ≤ e := by
  cases FeedState.step_cases hstep with
  -- only a call that ends finishes anything
  | other hcall hfeed hepoch =>
    exact .inl ⟨rfl, schedule_congr hcall hfeed, fun f h hmem => by cases hmem⟩
  | connected t hcall hfeed hepoch =>
    refine .inl ⟨rfl, schedule_congr hcall hfeed, fun f h hmem => ?_⟩
    cases List.mem_singleton.mp hmem
  | called hnone =>
    refine .inl ⟨rfl, ?_, fun f h hmem => by cases hmem⟩
    rw [FeedState.schedule, FeedState.schedule, hnone]
  | @ended c hc hrest =>
    have hw := hkept.working c hc
    obtain ⟨hgood, hfinished⟩ := finished_of_follows hw.follows hrest
    refine .inr ⟨c.start, c.trace, rfl, ?_, hw.feed, hgood, hfinished, fun e he =>
      (hw.epoch e he).1⟩
    rw [FeedState.schedule, hc]
  | did accepted hc hrest =>
    refine .inl ⟨rfl, ?_, fun f h hmem => ?_⟩
    · rw [FeedState.schedule, FeedState.schedule, hc]
    · cases List.mem_singleton.mp hmem

/-! ## Topics -/

theorem candidates_nodup (env : MqttEnv) (v : Progress) : (v.candidates env).Nodup := by
  unfold Progress.candidates
  split
  · exact List.nodup_nil
  · exact (refreshTopics_sorted _ _ _ _ _).imp fun hlt => hlt.ne

/-- Different candidates have different requests. -/
theorem request_injOn (env : MqttEnv) (v w : Progress) {t u : String}
    (ht : t ∈ v.candidates env) (hu : u ∈ w.candidates env) (h : request t = request u) :
    t = u := by
  -- every candidate is a topic under `N/`
  have hitem : ∀ {x : Progress} {s : String}, s ∈ x.candidates env → ∃ rest, s = "N/" ++ rest := by
    intro x s hs
    cases hpre : env.config.topicPrefix with
    | error err =>
      rw [Progress.candidates, hpre] at hs
      cases hs
    | ok pre =>
      rw [candidates_eq hpre] at hs
      obtain ⟨-, family, inst, path, hparts⟩ := mem_refreshTopics.mp hs
      rw [hparts.parts, topicPrefix_portal hpre]
      simp only [String.append_assoc]
      exact ⟨_, rfl⟩
  obtain ⟨t', rfl⟩ := hitem ht
  obtain ⟨u', rfl⟩ := hitem hu
  rw [request_item, request_item, String.append_right_inj] at h
  rw [h]

/-! ## Every run -/

/-- The schedules finished calls have started with and left. -/
def schedules (log : List FeedOut) : List (Feed × Feed) :=
  log.filterMap fun
    | .returned f h => some (f, (progress f h).feed)
    | _ => none

/-- A read that a call attempts is the next of the latest cycle. -/
def Attempted (env : MqttEnv) (e : Nat) (done : List Progress) (v : Progress) (topic : String) :
    Prop :=
  ∃ c earlier item consumed rest, cycles e (done ++ [v]) = c :: earlier ∧
    topic = request item ∧ item ∈ v.candidates env ∧ topic ∉ c.accepted ∧
    c.selection = consumed ++ item :: rest ∧
    Served env (ofEpoch e (done ++ [v])) consumed c.accepted ∧
    ∀ candidates, Stable env candidates (ofEpoch e (done ++ [v])) →
      c.selection ⊆ candidates ∧ c.accepted ++ [topic] <+: c.selection.map request

/-- The cycles of an epoch whose candidates stay the same. -/
structure Even (candidates : List String) (cs : List Cycle) : Prop where
  selection : ∀ c ∈ cs, c.selection.Nodup ∧ c.selection ⊆ candidates ∧
    c.selection.length = min maxRefreshTopics candidates.length
  /-- A cycle that has ended has all of its selection accepted, in order. -/
  ended : ∀ c ∈ cs.tail, c.accepted = c.selection.map request
  latest : ∀ c ∈ cs.head?, c.accepted <+: c.selection.map request
  /-- Each selection begins where the last one has ended. -/
  windowed : ∃ start, cs.map Cycle.selection =
    windows maxRefreshTopics candidates start cs.length
  /-- Cycles that are wide enough together select every candidate. -/
  covers : ∀ pre stretch suf, cs = pre ++ stretch ++ suf →
    candidates.length ≤ stretch.length * min maxRefreshTopics candidates.length →
    ∀ t ∈ candidates, ∃ c ∈ stretch, t ∈ c.selection

/-- A call selects distinct candidates, as many as fit. -/
def Selecting (env : MqttEnv) (done : List Progress) : Prop :=
  ∀ v ∈ done, ∀ sel ∈ v.selections, v.refreshing = true ∧ sel.Nodup ∧ sel ⊆ v.candidates env ∧
    sel.length = min maxRefreshTopics (v.candidates env).length

/-- What the calls of an epoch have read and attempted. -/
structure Rotated (env : MqttEnv) (e : Nat) (log : List FeedOut) : Prop where
  selected : Selecting env (finished log)
  /-- A call consumes the queue from its head: what is still a candidate is
      accepted, what is not is dropped unrequested. -/
  batch : ∀ f h, .returned f h ∈ log → (progress f h).Current f →
    (progress f h).Remaining env f (progress f h).feed.pendingRefresh
  /-- It starts with the queue the last one has left. -/
  handed : (schedules log).IsChain fun a b => b.1 = a.2
  attempted : ∀ pre f h t topic payload r suf,
    log = pre ++ .did f h (.publish t topic payload) r :: suf → (progress f h).epoch = some e →
    topic ≠ keepaliveTopic env → Attempted env e (finished pre) (progress f h) topic
  ended : ∀ c ∈ (cycles e (finished log)).tail,
    Served env (ofEpoch e (finished log)) c.selection c.accepted
  latest : ∀ c ∈ (cycles e (finished log)).head?, ∃ consumed, consumed <+: c.selection ∧
    Served env (ofEpoch e (finished log)) consumed c.accepted
  once : ∀ c ∈ cycles e (finished log), c.accepted.Nodup
  even : ∀ candidates, candidates ≠ [] → Stable env candidates (ofEpoch e (finished log)) →
    Even candidates (cycles e (finished log))

section Run

variable {env : MqttEnv} {e : Nat} {done : List Progress} {cs : List Cycle} {f : Feed}
  {v : Progress} {candidates : List String}

theorem Selecting.concat (h : Selecting env done) (hv : v.Selected env f) :
    Selecting env (done ++ [v]) := by
  intro u hu sel hsel
  rcases List.mem_append.mp hu with hu | hu
  · exact h u hu sel hsel
  · cases List.mem_singleton.mp hu
    obtain ⟨-, hrefreshing, rfl⟩ := hv sel hsel
    exact ⟨hrefreshing, nodup_window (candidates_nodup env v), fun t => mem_of_mem_window,
      length_window⟩

theorem Selecting.cycle (h : Selecting env done) {c : Cycle} (hc : c ∈ cycles e done) :
    ∃ v ∈ ofEpoch e done, v.refreshing = true ∧ c.selection.Nodup ∧
      c.selection ⊆ v.candidates env ∧
      c.selection.length = min maxRefreshTopics (v.candidates env).length := by
  obtain ⟨v, hv, hepoch, hsel⟩ := selection_of_cycle hc
  exact ⟨v, List.mem_filter.mpr ⟨hv, decide_eq_true hepoch⟩, h v hv _ hsel⟩

/-- Reads accepted for distinct candidates are distinct. -/
theorem Served.nodup {topics accepted : List String} (h : Served env done topics accepted)
    (hnodup : topics.Nodup) (hcandidates : topics ⊆ v.candidates env) : accepted.Nodup := by
  obtain ⟨kept, hkept, rfl, -⟩ := h
  refine List.Nodup.map_on ?_ (hnodup.sublist hkept)
  intro t ht u hu
  exact request_injOn env v v (hcandidates (hkept.subset ht)) (hcandidates (hkept.subset hu))

theorem Queued.ended {pending : List String} (h : Queued env done cs pending) :
    ∀ c ∈ cs.tail, Served env done c.selection c.accepted := by
  intro c hc
  cases cs with
  | nil => cases hc
  | cons latest earlier => exact h.2 c hc

theorem Queued.latest {pending : List String} (h : Queued env done cs pending) :
    ∀ c ∈ cs.head?, ∃ consumed, c.selection = consumed ++ pending ∧
      Served env done consumed c.accepted := by
  intro c hc
  cases cs with
  | nil => cases hc
  | cons latest earlier =>
    cases Option.some.inj hc
    exact h.1

/-- Of distinct topics that are always candidates a part is accepted in order. -/
theorem Served.ahead {topics consumed rest accepted : List String}
    (h : Served env done consumed accepted) (htopics : topics = consumed ++ rest)
    (hnodup : topics.Nodup) (hcs : topics ⊆ candidates) (hstable : Stable env candidates done) :
    accepted = consumed.map request := by
  have hsub : consumed.Sublist topics := htopics ▸ List.sublist_append_left _ _
  exact h.eq_map (hnodup.sublist hsub) (fun t ht => hcs (hsub.subset ht)) hstable

theorem Rotating.even (h : Rotating env e done f) (hselecting : Selecting env done)
    (hne : candidates ≠ []) (hstable : Stable env candidates (ofEpoch e done)) :
    Even candidates (cycles e done) := by
  -- each cycle selects a window of the candidates
  have hselection : ∀ c ∈ cycles e done, c.selection.Nodup ∧ c.selection ⊆ candidates ∧
      c.selection.length = min maxRefreshTopics candidates.length := by
    intro c hc
    obtain ⟨v, hv, hrefreshing, hspec⟩ := hselecting.cycle hc
    rwa [hstable v hv hrefreshing] at hspec
  obtain ⟨pending, -, hqueued⟩ := h.queue
  obtain ⟨start, hwindows, -⟩ := h.windowed candidates hne hstable
  refine ⟨hselection, ?_, ?_, ⟨start, hwindows⟩, ?_⟩
  -- an ended cycle has been served whole
  · intro c hc
    obtain ⟨hnodup, hcs, -⟩ := hselection c (List.mem_of_mem_tail hc)
    exact (hqueued.ended c hc).ahead (List.append_nil _).symm hnodup hcs hstable
  -- the latest one up to where the queue stands
  · intro c hc
    obtain ⟨hnodup, hcs, -⟩ := hselection c (List.mem_of_mem_head? hc)
    obtain ⟨consumed, hconsumed, hserved⟩ := hqueued.latest c hc
    rw [hserved.ahead hconsumed hnodup hcs hstable, hconsumed, List.map_append]
    exact List.prefix_append _ _
  -- a stretch as wide as the candidates covers them
  · intro pre stretch suf hcs hwide t ht
    rw [hcs, List.map_append, List.map_append] at hwindows
    have hstretch := windows_stretch hwindows.symm
    rw [List.length_map, List.length_map] at hstretch
    obtain ⟨w, hw, htw⟩ := exists_mem_windows (c := start + suf.length * width maxRefreshTopics
      candidates) hwide ht
    rw [← hstretch] at hw
    obtain ⟨c, hc, rfl⟩ := List.mem_map.mp hw
    exact ⟨c, hc, htw⟩

/-- What a call may publish after its keepalive. -/
theorem Rotating.attempted (h : Rotating env e done f) (hselecting : Selecting env done)
    (hgood : v.Good f) (hepoch : v.epoch = some e) {topic payload : String}
    (hread : v.ReadRequest env f topic payload) : Attempted env e done v topic := by
  obtain ⟨hcurrent, hselected, -, item, rest, -, hitem, hremaining, rfl, -⟩ := hread
  obtain ⟨pending, hpending, hqueued⟩ := h.queue
  obtain ⟨e', he', hf⟩ := hcurrent
  cases hepoch.symm.trans he'
  rw [← hpending hf] at hqueued
  -- the call joins the session's history
  have hsub : ofEpoch e done ⊆ ofEpoch e (done ++ [v]) := by
    rw [ofEpoch_concat hepoch]
    exact List.subset_append_left _ _
  have hmem : v ∈ ofEpoch e (done ++ [v]) := by
    rw [ofEpoch_concat hepoch]
    exact List.mem_append_right _ (List.mem_singleton_self v)
  have hqueued := hqueued.add hsub hmem hselected hgood.selection_once hremaining
  rw [← cycles_concat hepoch] at hqueued
  have hselecting := hselecting.concat hselected
  cases hcycles : cycles e (done ++ [v]) with
  | nil =>
    rw [hcycles] at hqueued
    cases hqueued
  | cons c earlier =>
    rw [hcycles] at hqueued
    obtain ⟨⟨consumed, hselection, hserved⟩, -⟩ := hqueued
    obtain ⟨u, hu, hrefreshing, hnodup, hcandidates, -⟩ :=
      hselecting.cycle (hcycles ▸ List.mem_cons_self)
    refine ⟨c, earlier, item, consumed, rest, hcycles, rfl, hitem, ?_, hselection, hserved, ?_⟩
    · -- what has been accepted stands before the item
      intro haccepted
      obtain ⟨kept, hkept, hrequests, -⟩ := hserved
      rw [hrequests] at haccepted
      obtain ⟨t, ht, htopic⟩ := List.mem_map.mp haccepted
      have ht' : t ∈ consumed := hkept.subset ht
      have htsel : t ∈ c.selection := hselection ▸ List.mem_append_left _ ht'
      obtain rfl := request_injOn env u v (hcandidates htsel) hitem htopic
      rw [hselection, List.nodup_append] at hnodup
      exact hnodup.2.2 t ht' t List.mem_cons_self rfl
    · intro candidates hstable
      rw [hstable u hu hrefreshing] at hcandidates
      refine ⟨hcandidates, rest.map request, ?_⟩
      rw [hserved.ahead hselection hnodup hcandidates hstable, hselection, List.map_append,
        List.map_cons, List.append_assoc]
      rfl

end Run

/-- What a run keeps. -/
structure Turning (env : MqttEnv) (e : Nat) (log : List FeedOut) (s : FeedState) : Prop where
  kept : Kept env log s
  rotating : Rotating env e (finished log) s.schedule
  selecting : Selecting env (finished log)
  batch : ∀ f h, .returned f h ∈ log → (progress f h).Current f →
    (progress f h).Remaining env f (progress f h).feed.pendingRefresh
  handed : (schedules log).IsChain fun a b => b.1 = a.2
  /-- The last one has left the present schedule. -/
  left : ∀ p ∈ (schedules log).getLast?, p.2 = s.schedule
  attempted : ∀ pre f h t topic payload r suf,
    log = pre ++ .did f h (.publish t topic payload) r :: suf → (progress f h).epoch = some e →
    topic ≠ keepaliveTopic env → Attempted env e (finished pre) (progress f h) topic

theorem turning_init (env : MqttEnv) (cursor e : Nat) :
    Turning env e [] (feedSystem env cursor).init where
  kept := kept_init env cursor
  rotating := by
    refine ⟨fun _ => rfl, ⟨[], fun _ => rfl, rfl⟩, fun candidates _ _ => ⟨cursor, rfl, fun _ => ?_⟩⟩
    change cursor % candidates.length = (cursor + 0 * _) % candidates.length
    rw [Nat.zero_mul, Nat.add_zero]
  selecting := fun v hv => by cases hv
  batch := fun f h hmem => by cases hmem
  handed := .nil
  left := fun p hp => by cases hp
  attempted := by
    intro pre f h t topic payload r suf hlog
    cases (List.append_eq_nil_iff.mp hlog.symm).2

section Turn

variable {env : MqttEnv} {e : Nat} {log : List FeedOut} {s s' : FeedState} {ev : FeedEvent}
  {out : List FeedOut}

/-- A publish that is no keepalive is the read that its call may attempt. -/
theorem step_publish (hkept : Kept env log s) (hstep : s.step env ev = some (s', out)) {f : Feed}
    {h : FeedTrace} {t : Nat} {topic payload : String} {r : Bool}
    (hout : out = [.did f h (.publish t topic payload) r]) (hread : topic ≠ keepaliveTopic env) :
    s.schedule = f ∧ (progress f h).Good f ∧
      (progress f h).ReadRequest env f topic payload := by
  cases FeedState.step_cases hstep with
  | other hcall hfeed hepoch => cases hout
  | connected t hcall hfeed hepoch => cases hout
  | called hnone => cases hout
  | ended hc hrest => cases hout
  | @did c o k accepted hc hrest =>
    have hfollows := (hkept.working c hc).follows
    rw [hrest, follows_op] at hfollows
    obtain ⟨⟨hgood, hallowed⟩, -⟩ := hfollows
    cases hout
    obtain ⟨-, hpublish⟩ := hallowed
    refine ⟨by rw [FeedState.schedule, hc], hgood, ?_⟩
    split at hpublish
    · exact hpublish
    · exact absurd hpublish.1 hread

/-- A step shows at most one thing. -/
theorem step_out (hstep : s.step env ev = some (s', out)) : out = [] ∨ ∃ x, out = [x] := by
  cases FeedState.step_cases hstep with
  | other hcall hfeed hepoch => exact .inl rfl
  | connected t hcall hfeed hepoch => exact .inr ⟨_, rfl⟩
  | called hnone => exact .inl rfl
  | ended hc hrest => exact .inr ⟨_, rfl⟩
  | did accepted hc hrest => exact .inr ⟨_, rfl⟩

theorem schedules_append (log log' : List FeedOut) :
    schedules (log ++ log') = schedules log ++ schedules log' := List.filterMap_append

/-- A publish that is the last of the log, or one before it. -/
theorem Turning.publish (h : Turning env e log s) (hstep : s.step env ev = some (s', out)) :
    ∀ pre f tr t topic payload r suf,
      log ++ out = pre ++ .did f tr (.publish t topic payload) r :: suf →
      (progress f tr).epoch = some e → topic ≠ keepaliveTopic env →
      Attempted env e (finished pre) (progress f tr) topic := by
  intro pre f tr t topic payload r suf hlog hepoch hread
  rcases step_out hstep with rfl | ⟨x, rfl⟩
  · rw [List.append_nil] at hlog
    exact h.attempted pre f tr t topic payload r suf hlog hepoch hread
  · rcases append_cons_eq_concat.mp hlog.symm with ⟨suf', -, hlog⟩ | ⟨-, rfl, rfl⟩
    · exact h.attempted pre f tr t topic payload r suf' hlog hepoch hread
    · obtain ⟨hschedule, hgood, hrequest⟩ := step_publish h.kept hstep rfl hread
      exact (hschedule ▸ h.rotating).attempted h.selecting hgood hepoch hrequest

theorem Turning.step (h : Turning env e log s) (hstep : s.step env ev = some (s', out)) :
    Turning env e (log ++ out) s' := by
  rcases step_schedule h.kept hstep with ⟨hout, hschedule, hnone⟩ |
    ⟨f, tr, rfl, hstart, hleft, hgood, hfinished, hepoch⟩
  -- no call ends
  · have hlog : finished (log ++ out) = finished log := by
      rw [finished_append, hout, List.append_nil]
    have hnothing : schedules out = [] := by
      rw [schedules, List.filterMap_eq_nil_iff]
      intro x hx
      cases x with
      | returned f tr => exact absurd hx (hnone f tr)
      | connected e calls | did f tr o r => rfl
    have hpairs : schedules (log ++ out) = schedules log := by
      rw [schedules_append, hnothing, List.append_nil]
    refine ⟨h.kept.step hstep, ?_, ?_, ?_, ?_, ?_, h.publish hstep⟩
    · rw [hlog, hschedule]
      exact h.rotating
    · rw [hlog]
      exact h.selecting
    · intro f tr hmem
      rcases List.mem_append.mp hmem with hmem | hmem
      · exact h.batch f tr hmem
      · exact absurd hmem (hnone f tr)
    · rw [hpairs]
      exact h.handed
    · rw [hpairs, hschedule]
      exact h.left
  -- a call ends and hands its schedule on
  · have hlog : finished (log ++ [.returned f tr]) = finished log ++ [progress f tr] :=
      finished_append _ _
    have hpairs : schedules (log ++ [.returned f tr]) =
        schedules log ++ [(f, (progress f tr).feed)] := schedules_append _ _
    subst hstart
    refine ⟨h.kept.step hstep, ?_, ?_, ?_, ?_, ?_, h.publish hstep⟩
    · rw [hlog, hleft]
      exact h.rotating.finish hgood hfinished hepoch
    · rw [hlog]
      exact h.selecting.concat hfinished.selected
    · intro f' tr' hmem
      rcases List.mem_append.mp hmem with hmem | hmem
      · exact h.batch f' tr' hmem
      · cases List.mem_singleton.mp hmem
        exact hfinished.queue
    · rw [hpairs, List.isChain_append]
      refine ⟨h.handed, .singleton _, ?_⟩
      rintro a ha _ ⟨⟩
      exact (h.left a ha).symm
    · rw [hpairs, List.getLast?_concat]
      rintro _ ⟨⟩
      exact hleft.symm

end Turn

/-- Whatever the other threads change and however publishes are taken: the reads
    of an epoch rotate through the candidates, starving and repeating none. -/
theorem read_feed_rotates {env : MqttEnv} {cursor : Nat} {es : List FeedEvent}
    {log : List FeedOut} {s : FeedState}
    (h : Path (feedSystem env cursor) (fun _ _ => True) (feedSystem env cursor).init es log s)
    (e : Nat) : Rotated env e log := by
  have hturning : Turning env e log s := by
    refine h.induct (P := Turning env e) (turning_init env cursor e) ?_
    rintro log s ev s' out hturning - hstep
    exact hturning.step hstep
  obtain ⟨pending, -, hqueued⟩ := hturning.rotating.queue
  refine ⟨hturning.selecting, hturning.batch, hturning.handed, hturning.attempted, hqueued.ended,
    ?_, ?_, fun candidates hne hstable => hturning.rotating.even hturning.selecting hne hstable⟩
  · intro c hc
    obtain ⟨consumed, hselection, hserved⟩ := hqueued.latest c hc
    exact ⟨consumed, hselection ▸ List.prefix_append _ _, hserved⟩
  · intro c hc
    obtain ⟨v, -, -, hnodup, hcandidates, -⟩ := hturning.selecting.cycle hc
    cases hcycles : cycles e (finished log) with
    | nil =>
      rw [hcycles] at hc
      cases hc
    | cons latest earlier =>
      rw [hcycles] at hc hqueued
      rcases List.mem_cons.mp hc with rfl | hc
      · obtain ⟨consumed, hselection, hserved⟩ := hqueued.latest c rfl
        have hsub : consumed.Sublist c.selection :=
          hselection ▸ List.sublist_append_left _ _
        exact hserved.nodup (hnodup.sublist hsub) fun t ht => hcandidates (hsub.subset ht)
      · exact (hqueued.ended c hc).nodup hnodup hcandidates

/-- The owned transport, with two cached items and the cursor at the second. -/
def fixtureRotationClient : MqttClient where
  transport := { client := some 0 }
  feed := { refreshCursor := 1 }
  cache := AList.insert "N/testportal/battery/512/Soc" (.int 55, 0)
    (AList.insert "N/testportal/battery/513/Soc" (.int 54, 0) ∅)

/-- A connection, the first call, a call whose first read is refused, the call
    after it, and the next cycle. -/
def rotationSchedule : List FeedEvent :=
  [FeedEvent.change fixtureRotationClient, .connect 0 true, .call] ++
    List.replicate 4 (FeedEvent.turn true) ++
    [FeedEvent.tick 30, .call] ++ List.replicate 12 (FeedEvent.turn true) ++
    List.replicate 3 (FeedEvent.turn false) ++
    [FeedEvent.tick (1 / 4), .call] ++ List.replicate 16 (FeedEvent.turn true) ++
    [FeedEvent.tick 30, .call] ++ List.replicate 19 (FeedEvent.turn true)

/-- Both cycles read both items. -/
theorem read_feed_rotates_twice : ∃ log s,
    Path (feedSystem fixtureEnv 1) (fun _ _ => True) (feedSystem fixtureEnv 1).init
      rotationSchedule log s ∧
    cycles 1 (finished log) = List.replicate 2
      ⟨["N/testportal/battery/513/Soc", "N/testportal/battery/512/Soc"],
        ["R/testportal/battery/513/Soc", "R/testportal/battery/512/Soc"]⟩ ∧
    Rotated fixtureEnv 1 log := by
  let m := feedSystem fixtureEnv 1
  have hrun : (m.exec m.init rotationSchedule).any (fun r => cycles 1 (finished r.2) =
      List.replicate 2 ⟨["N/testportal/battery/513/Soc", "N/testportal/battery/512/Soc"],
        ["R/testportal/battery/513/Soc", "R/testportal/battery/512/Soc"]⟩) = true := by
    decide +kernel
  obtain ⟨⟨s, log⟩, hexec, hrun⟩ := Option.any_eq_true _ _ |>.mp hrun
  exact ⟨log, s, path_of_exec hexec, of_decide_eq_true hrun,
    read_feed_rotates (path_of_exec hexec) 1⟩

end McpVenusOs
