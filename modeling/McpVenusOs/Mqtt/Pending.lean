/-
  McpVenusOs.Mqtt.Pending

  The messages on their way to the cache: the one the worker holds, then the
  inbox.  `step_message` says what one step does to them and to the cache:
  nothing, a message more at the end, the first one decoded, or some lost.
-/

import McpVenusOs.Mqtt.SingleTransport

namespace McpVenusOs

open Py Machine

/-- The entry a thread holds. -/
def Thread.held (th : Thread) : Option InboxEntry :=
  match th.job with
  | .decoder pc => pc.held
  | .network _ => none

/-- The outputs that show a message. -/
def MqttOut.ofMessage : MqttOut → Bool
  | .received .. | .dropped .. | .decoded .. => true
  | _ => false

namespace MqttState

variable {env : MqttEnv} {s s' : MqttState} {e : MqttEvent} {out log : List MqttOut}
  {holder : Holder} {outcome : CallOutcome}

/-- Enqueued and not yet decoded, in the order they will be decoded. -/
def pending (s : MqttState) : List InboxEntry :=
  s.live.filterMap Thread.held ++ s.py.inbox.filterMap id

/-! ## The one worker -/

/-- If all workers share an identity, what the threads hold is what that one
    holds. -/
theorem filterMap_held {live : List Thread} {w : Nat} (hnodup : (live.map (·.tid)).Nodup)
    (honly : ∀ th ∈ live, th.key.2 = none → th.tid = w) :
    live.filterMap Thread.held = ((live.find? (·.tid = w)).bind Thread.held).toList := by
  induction live with
  | nil => rfl
  | cons th rest ih =>
      have hrest := ih (List.nodup_cons.mp hnodup).2 fun x hx => honly x (List.mem_cons_of_mem _ hx)
      by_cases htid : th.tid = w
      -- only this thread can hold an entry; the others are network threads
      · have hnone : rest.filterMap Thread.held = [] := by
          rw [List.filterMap_eq_nil_iff]
          intro x hx
          have hne : x.tid ≠ w := fun hxw => (List.nodup_cons.mp hnodup).1
            (List.mem_map.mpr ⟨x, hx, hxw.trans htid.symm⟩)
          obtain ⟨i, job⟩ := x
          cases job with
          | network t => rfl
          | decoder pc => exact absurd (honly _ (List.mem_cons_of_mem _ hx) rfl) hne
        rw [List.find?_cons_of_pos (by simpa using htid), List.filterMap_cons, hnone,
          Option.bind_some]
        cases th.held <;> rfl
      · have hheld : th.held = none := by
          obtain ⟨i, job⟩ := th
          cases job with
          | network t => rfl
          | decoder pc => exact absurd (honly _ List.mem_cons_self rfl) htid
        rw [List.find?_cons_of_neg (by simpa using htid), List.filterMap_cons, hheld, hrest]

theorem Owned.tids_live (h : Owned s) : (s.live.map (·.tid)).Nodup := by
  have := h.tids
  rwa [keys, List.map_map] at this

theorem Owned.only_worker (h : Owned s) {w : Nat} (hw : s.py.transport.worker = some w) :
    ∀ th ∈ s.live, th.key.2 = none → th.tid = w := by
  intro th hth hnone
  have hk : (th.tid, none) ∈ s.keys := List.mem_map.mpr ⟨th, hth, by rw [← hnone]; rfl⟩
  exact Option.some.inj ((h.worker _ hk).symm.trans hw)

/-- A stepping worker is the worker. -/
theorem Owned.worker_of_pc (h : Owned s) {tid : Nat} {pc : DecoderPc}
    (hpc : s.decoderPc tid = some pc) : s.py.transport.worker = some tid := by
  obtain ⟨th, hth, hjob⟩ := Option.bind_eq_some_iff.mp hpc
  have htid : th.tid = tid := by simpa using List.find?_some hth
  refine h.worker tid (List.mem_map.mpr ⟨th, List.mem_of_find?_eq_some hth, ?_⟩)
  obtain ⟨i, job⟩ := th
  cases job with
  | network t => cases hjob
  | decoder pc' => simpa [Thread.key] using htid

theorem Owned.held_of_pc (h : Owned s) {tid : Nat} {pc : DecoderPc}
    (hpc : s.decoderPc tid = some pc) : s.live.filterMap Thread.held = pc.held.toList := by
  rw [filterMap_held h.tids_live (h.only_worker (h.worker_of_pc hpc))]
  obtain ⟨th, hth, hjob⟩ := Option.bind_eq_some_iff.mp hpc
  rw [hth, Option.bind_some]
  obtain ⟨i, job⟩ := th
  cases job with
  | network t => cases hjob
  | decoder pc' =>
      cases hjob
      rfl

/-- What the threads hold once the worker went on at `next`. -/
theorem Owned.held_advance (h : Owned s) {tid : Nat} {pc : DecoderPc}
    (hpc : s.decoderPc tid = some pc) (next : Option DecoderPc) :
    (advance s.live tid next).filterMap Thread.held = (next.bind DecoderPc.held).toList := by
  -- moving one thread's program counter creates no thread and no second worker
  have hsub := advance_keys s.live tid next
  have hnodup : ((advance s.live tid next).map (·.tid)).Nodup := by
    have hn := h.tids.sublist (hsub.map Prod.fst)
    rwa [List.map_map] at hn
  have honly : ∀ th ∈ advance s.live tid next, th.key.2 = none → th.tid = tid := by
    intro th hth hnone
    have hk : th.key ∈ s.keys := hsub.subset (List.mem_map.mpr ⟨th, hth, rfl⟩)
    have hk' : (th.tid, none) ∈ s.keys := by
      rw [← hnone]
      exact hk
    exact Option.some.inj ((h.worker _ hk').symm.trans (h.worker_of_pc hpc))
  rw [filterMap_held hnodup honly]
  cases next with
  | none =>
      -- an exiting worker holds nothing
      have hfind : (advance s.live tid none).find? (·.tid = tid) = none := by
        rw [List.find?_eq_none]
        intro th hth
        simpa using (List.mem_filter.mp hth).2
      rw [hfind]
      rfl
  | some pc' =>
      have hstep := decoderPc_advance hpc pc' s.py
      obtain ⟨th, hth, hjob⟩ := Option.bind_eq_some_iff.mp hstep
      rw [hth, Option.bind_some, Option.bind_some]
      obtain ⟨i, job⟩ := th
      cases job with
      | network t => cases hjob
      | decoder pc'' =>
          cases hjob
          rfl

/-! ## The lifecycle -/

/-- Under the lock only sentinels are added to the inbox, and only a fresh one
    discards messages. -/
theorem lifecycleStep_messages (h : s.lifecycleStep holder outcome = some (s', out)) :
    s'.py.cache = s.py.cache ∧ s'.serial = s.serial ∧ s'.now = s.now ∧
      s'.live.filterMap Thread.held = s.live.filterMap Thread.held ∧
      (s'.py.inbox.filterMap id = s.py.inbox.filterMap id ∨
        (holder.pc = .freshInbox ∧ s'.py.inbox = [])) := by
  cases lifecycleStep_statement h with
  | stopSentinel _ hinbox =>
    refine ⟨rfl, rfl, rfl, rfl, .inl ?_⟩
    -- the sentinel is not an entry
    rcases hinbox with rfl | rfl
    · simp [MqttState.goto]
    · rfl
  | freshInbox hpc => exact ⟨rfl, rfl, rfl, rfl, .inr ⟨hpc, rfl⟩⟩
  | startWorker _ _ =>
    refine ⟨rfl, rfl, rfl, ?_, .inl rfl⟩
    simp [MqttState.goto, Thread.held, DecoderPc.held]
  | loopStart _ _ =>
    refine ⟨rfl, rfl, rfl, ?_, .inl rfl⟩
    simp [MqttState.goto, Thread.held]
  | _ => exact ⟨rfl, rfl, rfl, rfl, .inl rfl⟩

/-! ## One step -/

/-- What one step does to the pending messages and the cache. -/
inductive MessageStep (env : MqttEnv) (s : MqttState) (s' : MqttState) :
    MqttEvent → List MqttOut → Prop
  /-- Nothing; the outputs show no message. -/
  | quiet {ev : MqttEvent} {seen : List MqttOut} : s'.pending = s.pending →
      s'.py.cache = s.py.cache → s'.serial = s.serial →
      (∀ x ∈ seen, ¬ x.ofMessage = true) → MessageStep env s s' ev seen
  /-- The owned transport delivered a message, and it was enqueued. -/
  | received {t : Nat} {msg : Message} : s.py.transport.current t = true →
      s.py.inbox.length < inboxMaxsize →
      s'.pending = s.pending ++ [⟨s.serial, t, msg, s.now⟩] → s'.py.cache = s.py.cache →
      s'.serial = s.serial + 1 →
      MessageStep env s s' (.callback t (.message msg)) [.received s.now ⟨s.serial, t, msg, s.now⟩]
  /-- The owned transport delivered a message to a full inbox. -/
  | dropped {t : Nat} {msg : Message} : s.py.transport.current t = true →
      inboxMaxsize ≤ s.py.inbox.length → s'.pending = s.pending → s'.py.cache = s.py.cache →
      s'.serial = s.serial + 1 →
      MessageStep env s s' (.callback t (.message msg)) [.dropped s.now t msg]
  /-- The worker decoded the oldest message. -/
  | decoded {tid : Nat} {accepted : Bool} {processed : Nat} {entry : InboxEntry} :
      s.decoderPc tid = some (.holding processed entry) →
      s.pending = entry :: s'.pending →
      s'.py.cache = (s.py.handleMessage env entry).1.cache → s'.serial = s.serial →
      s'.py.transport = s.py.transport →
      MessageStep env s s' (.decoder tid accepted)
        [.decoded entry (s.py.transport.current entry.client)]
  /-- The worker died with the oldest message. -/
  | died {tid processed : Nat} {entry : InboxEntry} :
      s.decoderPc tid = some (.holding processed entry) →
      s.pending = entry :: s'.pending → s'.py.cache = s.py.cache → s'.serial = s.serial →
      MessageStep env s s' (.die tid) []
  /-- The inbox was discarded. -/
  | discarded {result : CallOutcome} {hd : Holder} {seen : List MqttOut} :
      s.lock = some hd → hd.pc = .freshInbox →
      s'.pending = [] → s.pending = s.py.inbox.filterMap id → s'.py.cache = s.py.cache →
      s'.serial = s.serial → (∀ x ∈ seen, ¬ x.ofMessage = true) →
      MessageStep env s s' (.lifecycle result) seen

theorem not_ofMessage_of_outward {x : MqttOut} (h : x.outward = true) : ¬ x.ofMessage = true := by
  cases x <;> simp_all [MqttOut.outward, MqttOut.ofMessage]

theorem lifecycleStep_out (h : s.lifecycleStep holder outcome = some (s', out)) :
    ∀ x ∈ out, ¬ x.ofMessage = true := by
  cases lifecycleStep_statement h <;> simp [MqttOut.ofMessage]

/-- Without a live worker nothing is held. -/
theorem Owned.held_freshInbox (h : Owned s) (hlock : s.lock = some holder)
    (hpc : holder.pc = .freshInbox) : s.live = [] := by
  have hinv := h.pc holder hlock
  rw [hpc] at hinv
  have hnone := h.client_none hinv.2
  exact h.live_eq_nil hnone.1 hnone.2.1 hnone.2.2

/-- The death of a thread: the worker may take a message with it. -/
theorem Owned.died (h : Owned s) (tid : Nat)
    (hs' : s' = { s with live := s.live.filter (·.tid ≠ tid) }) :
    MessageStep env s s' (.die tid) [] := by
  subst hs'
  cases hpc : s.decoderPc tid with
  | some pc =>
      have hheld := h.held_of_pc hpc
      have hheld' := h.held_advance hpc none
      cases hp : pc.held with
      | none =>
          refine .quiet ?_ rfl rfl (by simp)
          rw [hp] at hheld
          change (advance s.live tid none).filterMap Thread.held ++ _ = _
          rw [hheld', pending, hheld]
          rfl
      | some entry =>
          obtain ⟨processed, rfl⟩ : ∃ processed, pc = .holding processed entry := by
            cases pc <;> simp_all [DecoderPc.held]
          refine .died hpc ?_ rfl rfl
          change _ = entry :: ((advance s.live tid none).filterMap Thread.held ++ _)
          rw [hheld', pending, hheld]
          rfl
  | none =>
      -- a network thread, or no thread at all
      refine .quiet ?_ rfl rfl (by simp)
      have hfilter : (s.live.filter (·.tid ≠ tid)).filterMap Thread.held =
          s.live.filterMap Thread.held := by
        rw [List.filterMap_filter]
        refine List.filterMap_congr fun th hth => ?_
        by_cases htid : th.tid = tid
        · simp only [htid, ne_eq, not_true_eq_false, decide_false, Bool.false_eq_true, if_false]
          obtain ⟨i, job⟩ := th
          cases job with
          | network t => rfl
          | decoder pc =>
              have hfind : (s.live.find? (·.tid = tid)).isSome := by
                rw [List.find?_isSome]
                exact ⟨_, hth, by simpa using htid⟩
              obtain ⟨th', hth'⟩ := Option.isSome_iff_exists.mp hfind
              have htid' : th'.tid = tid := by simpa using List.find?_some hth'
              have heq : th' = ⟨i, .decoder pc⟩ :=
                List.inj_on_of_nodup_map h.tids_live (List.mem_of_find?_eq_some hth') hth
                  (htid'.trans htid.symm)
              simp [decoderPc, hth', heq] at hpc
        · simp [htid]
      change (s.live.filter (·.tid ≠ tid)).filterMap Thread.held ++ _ = _
      rw [hfilter]
      rfl

theorem Owned.step_message (h : Owned s) (hstep : s.step env e = some (s', out)) :
    MessageStep env s s' e out := by
  rcases step_cases hstep with ⟨hidle, hout⟩ | ⟨t, msg, session, rfl, ht, hlen, -, rfl, rfl⟩ |
    ⟨t, msg, session, rfl, ht, hlen, -, rfl, rfl⟩ | ⟨tid, rfl, hs', rfl⟩ |
    ⟨tid, accepted, pc, rfl, hpc, rfl, rfl⟩ | ⟨task, -, -, rfl, rfl⟩ |
    ⟨outcome, holder, rfl, hlock, hstep⟩ | ⟨holder, -, -, -, rfl, rfl⟩
  · refine .quiet (by rw [pending, hidle.live, hidle.inbox, pending]) hidle.cache hidle.serial ?_
    rcases hout with hout | ⟨-, -, rfl⟩
    · exact fun x hx => not_ofMessage_of_outward (hout x hx)
    · simp [MqttOut.ofMessage]
  · exact .received ht hlen (by simp [pending]) rfl rfl
  · exact .dropped ht hlen rfl rfl rfl
  · exact h.died tid hs'
  · have hheld := h.held_of_pc hpc
    have hheld' := h.held_advance hpc (decoderStep env s.now accepted s.py pc).1
    rcases decoderStep_cases env s.now accepted s.py pc with ⟨feed, hc, hnone, hnext, hout⟩ |
      ⟨processed, rest, rfl, hin, hc⟩ | ⟨processed, entry, rest, rfl, hin, hc⟩ |
      ⟨processed, entry, pc', rfl, hnext, hc⟩
    -- a turn of the feed
    · refine .quiet ?_ (by simp [hc]) rfl fun x hx => not_ofMessage_of_outward (hout x hx)
      have hnone' : ((decoderStep env s.now accepted s.py pc).1.bind DecoderPc.held) = none := by
        cases hn : (decoderStep env s.now accepted s.py pc).1 with
        | none => rfl
        | some pc' => exact hnext pc' hn
      simp only [pending, hheld', hnone', hc, hheld, hnone]
    -- the sentinel was taken
    · rw [hc] at hheld' ⊢
      refine .quiet ?_ rfl rfl (by simp)
      simp only [pending, hheld', hheld, hin]
      rfl
    -- an entry moved from the inbox into the worker's hands
    · rw [hc] at hheld' ⊢
      refine .quiet ?_ rfl rfl (by simp)
      simp only [pending, hheld', hheld, hin]
      rfl
    -- the held entry was handled
    · rw [hc] at hheld' ⊢
      obtain ⟨cache, seen, hm⟩ : ∃ cache seen, (s.py.handleMessage env entry).1 =
        { s.py with cache := cache, retainedSerialSeen := seen } := s.py.handleMessage_frame _ _
      refine .decoded hpc ?_ rfl rfl (by simp [hm])
      simp only [pending, hheld', hheld, Option.bind_some, hnext, hm]
      rfl
  · exact .quiet rfl rfl rfl (by simp)
  -- a fresh inbox forgets what the old one still held
  · obtain ⟨hcache, hserial, -, hheld, hinbox | ⟨hpc, hinbox⟩⟩ := lifecycleStep_messages hstep
    · exact .quiet (by rw [pending, hheld, hinbox, pending]) hcache hserial
        (lifecycleStep_out hstep)
    · have hlive := h.held_freshInbox hlock hpc
      refine .discarded hlock hpc ?_ ?_ hcache hserial (lifecycleStep_out hstep)
      · rw [pending, hheld, hinbox, hlive]
        rfl
      · rw [pending, hlive]
        rfl
  · exact .quiet rfl rfl rfl (by simp)

end MqttState

end McpVenusOs
