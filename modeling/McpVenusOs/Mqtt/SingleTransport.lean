/-
  McpVenusOs.Mqtt.SingleTransport

  What the ownership invariant gives over whole runs: one transport at a time,
  cleared only after its threads have stopped, retired by `connect()` only when
  its network thread is gone or a `disconnect()` had begun, and kept as long as
  one of its threads lives.
-/

import McpVenusOs.Mqtt.Ownership

namespace McpVenusOs

open Py Machine

namespace MqttState

variable {env : MqttEnv} {s s' : MqttState} {e : MqttEvent} {out log : List MqttOut}
  {holder : Holder} {outcome : CallOutcome}

/-! ## The invariant over runs -/

/-- A worker's step leaves the transport and the session record alone. -/
theorem decoderStep_frame (env : MqttEnv) (now : ℚ) (accepted : Bool) (c : MqttClient)
    (pc : DecoderPc) : (decoderStep env now accepted c pc).2.1.transport = c.transport ∧
      (decoderStep env now accepted c pc).2.1.session = c.session := by
  rcases decoderStep_cases env now accepted c pc with ⟨feed, hc, -⟩ | ⟨_, rest, -, -, hc⟩ |
    ⟨_, e, rest, -, -, hc⟩ | ⟨_, e, pc', -, -, hc⟩
  · rw [hc]
    exact ⟨rfl, rfl⟩
  · rw [hc]
    exact ⟨rfl, rfl⟩
  · rw [hc]
    exact ⟨rfl, rfl⟩
  · obtain ⟨cache, seen, hm⟩ : ∃ cache seen, (c.handleMessage env e).1 =
      { c with cache := cache, retainedSerialSeen := seen } := c.handleMessage_frame _ _
    rw [hc, hm]
    exact ⟨rfl, rfl⟩

theorem Owned.step (h : Owned s) (hstep : s.step env e = some (s', out)) : Owned s' := by
  rcases step_cases hstep with ⟨hidle, -⟩ | ⟨t, msg, session, -, -, -, hses, rfl, -⟩ |
    ⟨t, msg, session, -, -, -, hses, rfl, -⟩ | ⟨tid, -, rfl, -⟩ |
    ⟨tid, accepted, pc, -, -, rfl, -⟩ | ⟨task, -, hlock, rfl, -⟩ |
    ⟨outcome, holder, -, hlock, hstep⟩ | ⟨holder, -, hlock, hpc, rfl, -⟩
  -- idle steps, messages and deaths only shrink what is owned
  · exact h.shrink hidle.transport hidle.lock hidle.fresh.ge
      (by rw [keys, hidle.live, keys]) hidle.connected
  · exact h.shrink rfl rfl le_rfl (List.Sublist.refl _) fun hc => .inl (hses ▸ hc)
  · exact h.shrink rfl rfl le_rfl (List.Sublist.refl _) fun hc => .inl (hses ▸ hc)
  · exact h.shrink rfl rfl le_rfl (List.filter_sublist.map _) .inl
  · obtain ⟨htransport, hsession⟩ := decoderStep_frame env s.now accepted s.py pc
    exact h.shrink htransport rfl le_rfl (advance_keys _ _ _) fun hc => .inl (hsession ▸ hc)
  -- an acquired lock owns nothing yet
  · refine ⟨h.tids, h.tid_lt, h.worker, fun tid t hk => ?_, h.network_one, fun hc => ?_,
      h.connected, fun holder hh => ?_⟩
    · refine ⟨(h.network tid t hk).1, .inl ((h.network tid t hk).2.resolve_right ?_)⟩
      simp [holderPc, hlock]
    · exact ⟨(h.client_none hc).1, (h.client_none hc).2.1, by simp [holderPc]⟩
    · cases Option.some.inj hh
      trivial
  · exact h.lifecycleStep hlock hstep
  · exact h.release (by simp [holderPc, hlock, hpc])

theorem Owned.of_run {es : List MqttEvent} (h : Run (mqttSystem env) es log s) : Owned s :=
  h.invariant Owned.init fun _ _ _ _ howned _ hstep => howned.step hstep

/-! ## The statements that matter -/

/-- Everything a statement under the lock does to the ownership record and the
    threads. -/
theorem lifecycleStep_cases (h : s.lifecycleStep holder outcome = some (s', out)) :
    (holder.pc = .stopBegin ∧ s'.py.transport = { s.py.transport with stopping := true } ∧
      s'.live = s.live ∧ s'.lock = some ⟨holder.task, .stopSignal⟩ ∧
      out = [.shutdown (holder.task = .disconnect) s.py.transport.client]) ∨
    (holder.pc = .startTransport ∧
      s'.py.transport = { s.py.transport with client := some s.fresh, stopping := false } ∧
      s'.live = s.live ∧ s'.lock = some ⟨holder.task, .startWorker⟩ ∧ out = [.started s.fresh]) ∨
    (holder.pc = .startWorker ∧ s.running s.py.transport.worker = false ∧
      s'.py.transport = { s.py.transport with workerStop := false, worker := some s.fresh } ∧
      (∀ tid t, (tid, some t) ∈ s'.keys → (tid, some t) ∈ s.keys) ∧
      (∀ tid, s'.alive tid = true → s.alive tid = true ∨ tid = s.fresh) ∧
      s'.lock ≠ some ⟨.connect, .stopBegin⟩ ∧
      (out = [.workerStarted s.fresh] ∨ out = [.connectRaised (.other "worker")])) ∨
    (holder.pc = .loopStart ∧ ∃ t, s.py.transport.client = some t ∧
      s'.py.transport = s.py.transport ∧ s'.keys = s.keys ++ [(s.fresh, some t)] ∧
      s'.lock = some ⟨holder.task, .keepThread⟩ ∧ out = [.loopStarted t s.fresh]) ∨
    (holder.pc = .retire ∧ s.py.transport.worker = none ∧ s.py.transport.loopThread = none ∧
      s'.py.transport = { s.py.transport with client := none } ∧ s'.live = s.live ∧
      s'.lock = some ⟨holder.task, .freshInbox⟩ ∧ out = [.retired]) ∨
    (s'.py.transport.client = s.py.transport.client ∧ s'.live = s.live ∧
      (s'.py.transport.stopping = s.py.transport.stopping ∨
        (holder.pc = .unstop ∧ s'.py.transport.stopping = false)) ∧
      (s'.py.transport.worker = s.py.transport.worker ∨
        s.running s.py.transport.worker = false) ∧
      (s'.py.transport.loopThread = s.py.transport.loopThread ∨
        s.running s.py.transport.loopThread = false ∨ holder.pc = .keepThread) ∧
      (s'.lock = some ⟨.connect, .stopBegin⟩ → holder.pc = .entered ∧ s.mustStop = true) ∧
      ∀ x ∈ out, ∃ err, x = .connectRaised err) := by
  cases lifecycleStep_statement h with
  | stopBegin hpc => exact .inl ⟨hpc, rfl, rfl, rfl, rfl⟩
  | startTransport hpc => exact .inr (.inl ⟨hpc, rfl, rfl, rfl, rfl⟩)
  | startWorker hpc hidle =>
    refine .inr (.inr (.inl ⟨hpc, hidle, rfl, ?_, ?_, by simp [MqttState.goto], .inl rfl⟩))
    · simp [keys, MqttState.goto, Thread.key]
    · intro tid ha
      change (s.live ++ [Thread.mk s.fresh (.decoder (.top 0))]).any (·.tid = tid) = true at ha
      rw [List.any_append, Bool.or_eq_true] at ha
      rcases ha with ha | ha
      · exact .inl ha
      · have hfresh : s.fresh = tid := by simpa using ha
        exact .inr hfresh.symm
  | noWorker hpc hidle =>
    exact .inr (.inr (.inl ⟨hpc, hidle, rfl, fun _ _ hk => hk, fun _ ha => .inl ha,
      by simp [MqttState.release], .inr rfl⟩))
  | loopStart hpc ht =>
    exact .inr (.inr (.inr (.inl ⟨hpc, _, ht, rfl, by simp [keys, MqttState.goto, Thread.key], rfl,
      rfl⟩)))
  | retire hpc hworker hloop =>
    exact .inr (.inr (.inr (.inr (.inl ⟨hpc, hworker, hloop, rfl, rfl, rfl, rfl⟩))))
  | branch hbranch =>
    refine .inr (.inr (.inr (.inr (.inr ⟨rfl, rfl, .inl rfl, .inl rfl, .inl rfl, fun hlock => ?_,
      by simp⟩))))
    -- `connect()` goes on at `stopBegin` only from its own test
    obtain ⟨task, pc⟩ := holder
    obtain ⟨rfl, rfl⟩ := Holder.mk.inj (Option.some.inj hlock)
    cases hbranch with
    | mustStop hstop => exact ⟨rfl, hstop⟩
  | reapWorker _ hworker =>
    refine .inr (.inr (.inr (.inr (.inr ⟨rfl, rfl, .inl rfl, ?_, .inl rfl, by simp [MqttState.goto],
      by simp⟩))))
    by_cases hrun : s.running s.py.transport.worker = true
    · exact .inl (by simp [MqttState.goto, MqttState.setTransport, hworker, hrun])
    · exact .inr (by simpa using hrun)
  | reapLoop _ hthread =>
    refine .inr (.inr (.inr (.inr (.inr ⟨rfl, rfl, .inl rfl, .inl rfl, ?_, by simp [MqttState.goto],
      by simp⟩))))
    by_cases hrun : s.running s.py.transport.loopThread = true
    · exact .inl (by simp [MqttState.goto, MqttState.setTransport, hthread, hrun])
    · exact .inr (.inl (by simpa using hrun))
  | unstop hpc =>
    exact .inr (.inr (.inr (.inr (.inr ⟨rfl, rfl, .inr ⟨hpc, rfl⟩, .inl rfl, .inl rfl,
      by simp [MqttState.goto], by simp⟩))))
  | keepThread hpc =>
    exact .inr (.inr (.inr (.inr (.inr ⟨rfl, rfl, .inl rfl, .inl rfl, .inr (.inr hpc),
      by simp [MqttState.goto], by simp⟩))))
  | _ =>
    exact .inr (.inr (.inr (.inr (.inr ⟨rfl, rfl, .inl rfl, .inl rfl, .inl rfl,
      by simp [MqttState.goto, MqttState.release, MqttState.setTransport], by simp⟩))))

/-! ## Who retires a live transport -/

/-- While stopping, a live network thread belongs to a transport that some
    `disconnect()` has begun to stop. -/
structure StopCause (log : List MqttOut) (s : MqttState) : Prop where
  byDisconnect : s.py.transport.stopping = true → ∀ tid t, (tid, some t) ∈ s.keys →
    .shutdown true (some t) ∈ log
  connect : s.lock = some ⟨.connect, .stopBegin⟩ →
    s.py.transport.stopping = true ∨ ∀ tid t, (tid, some t) ∉ s.keys

/-- `connect()` stops a transport only when it is already stopping or its
    network thread is gone. -/
theorem Owned.network_of_mustStop (h : Owned s) (hlock : s.lock = some holder)
    (hpc : holder.pc = .entered) (hstop : s.mustStop = true) :
    s.py.transport.stopping = true ∨ ∀ tid t, (tid, some t) ∉ s.keys := by
  by_cases hst : s.py.transport.stopping = true
  · exact .inl hst
  · refine .inr fun tid t hk => ?_
    have hown := h.not_keepThread hlock (by simp [hpc]) tid t hk
    have hrun := running_of_mem hk
    rw [← hown.2] at hrun
    simp [mustStop, hst, hrun] at hstop

theorem StopCause.frame (h : StopCause log s)
    (hstop : s'.py.transport.stopping = true → s.py.transport.stopping = true)
    (hstop' : s.py.transport.stopping = true → s'.py.transport.stopping = true)
    (hkeys : ∀ tid t, (tid, some t) ∈ s'.keys → (tid, some t) ∈ s.keys)
    (hlock : s'.lock = some ⟨.connect, .stopBegin⟩ → s.lock = some ⟨.connect, .stopBegin⟩) :
    StopCause (log ++ out) s' where
  byDisconnect hs tid t hk :=
    List.mem_append_left _ (h.byDisconnect (hstop hs) tid t (hkeys tid t hk))
  connect hl := (h.connect (hlock hl)).imp hstop' fun hno tid t hk => hno tid t (hkeys tid t hk)

theorem StopCause.step (hown : Owned s) (h : StopCause log s)
    (hstep : s.step env e = some (s', out)) : StopCause (log ++ out) s' := by
  rcases step_cases hstep with ⟨hidle, -⟩ | ⟨t, msg, session, -, -, -, hses, rfl, -⟩ |
    ⟨t, msg, session, -, -, -, hses, rfl, -⟩ | ⟨tid, -, rfl, -⟩ |
    ⟨tid, accepted, pc, -, -, rfl, -⟩ | ⟨task, -, hlock, rfl, -⟩ |
    ⟨outcome, holder, -, hlock, hstep⟩ | ⟨holder, -, hlock, hpc, rfl, -⟩
  -- only the lifecycle statements touch the stop flag
  · refine h.frame ?_ ?_ ?_ ?_
    · rw [hidle.transport]
      exact id
    · rw [hidle.transport]
      exact id
    · rw [keys, hidle.live]
      exact fun _ _ hk => hk
    · rw [hidle.lock]
      exact id
  · exact h.frame id id (fun _ _ hk => hk) id
  · exact h.frame id id (fun _ _ hk => hk) id
  · exact h.frame id id (fun _ _ hk => (List.filter_sublist.map _).subset hk) id
  · obtain ⟨htransport, -⟩ := decoderStep_frame env s.now accepted s.py pc
    refine h.frame ?_ ?_ (fun _ _ hk => (advance_keys _ _ _).subset hk) id
    · simp only [htransport]
      exact id
    · simp only [htransport]
      exact id
  · exact h.frame id id (fun _ _ hk => hk) (by simp)
  · rcases lifecycleStep_cases hstep with ⟨hpc, ht, hlive, hl, hout⟩ |
      ⟨hpc, ht, hlive, hl, hout⟩ | ⟨hpc, -, ht, hkeys, -, hl, -⟩ | ⟨hpc, t, hc, ht, hkeys, hl, -⟩ |
      ⟨hpc, hw, hlo, ht, hlive, hl, -⟩ | ⟨-, hlive, hst, -, -, hl, -⟩
    -- the stop begins: a disconnect is the cause, or the connect found no thread
    · have hkeys : s'.keys = s.keys := by rw [keys, hlive, keys]
      refine ⟨fun _ tid t hk => ?_, fun hl' => ?_⟩
      · rw [hkeys] at hk
        obtain ⟨task, pc⟩ := holder
        cases task with
        | disconnect =>
            rw [hout, (hown.network tid t hk).1]
            exact List.mem_append_right _ (List.mem_singleton_self _)
        | connect =>
            rw [show pc = .stopBegin from hpc] at hlock
            rcases h.connect hlock with hs | hno
            · exact List.mem_append_left _ (h.byDisconnect hs tid t hk)
            · exact absurd hk (hno tid t)
      · simp [hl] at hl'
    -- the fresh transport lifts the flag
    · refine ⟨fun hs => ?_, fun hl' => ?_⟩
      · rw [ht] at hs
        cases hs
      · simp [hl] at hl'
    · refine h.frame ?_ ?_ hkeys fun hl' => absurd hl' hl
      · rw [ht]
        exact id
      · rw [ht]
        exact id
    -- a network thread starts only while nothing stops
    · have hstop : s.py.transport.stopping = false := by
        have hinv := hown.pc holder hlock
        rw [hpc] at hinv
        exact hinv.2.1
      refine ⟨fun hs => ?_, fun hl' => ?_⟩
      · rw [ht, hstop] at hs
        cases hs
      · simp [hl] at hl'
    · have hkeys : s'.keys = s.keys := by rw [keys, hlive, keys]
      refine ⟨fun hs tid t hk => ?_, fun hl' => ?_⟩
      · rw [ht] at hs
        rw [hkeys] at hk
        exact List.mem_append_left _ (h.byDisconnect hs tid t hk)
      · simp [hl] at hl'
    -- the remaining statements keep the flag or lift it
    · have hkeys : s'.keys = s.keys := by rw [keys, hlive, keys]
      refine ⟨fun hs tid t hk => ?_, fun hl' => ?_⟩
      · rw [hkeys] at hk
        rcases hst with hst | ⟨-, hst⟩
        · rw [hst] at hs
          exact List.mem_append_left _ (h.byDisconnect hs tid t hk)
        · rw [hst] at hs
          cases hs
      · obtain ⟨hpc, hmust⟩ := hl hl'
        rcases hst with hst | ⟨hpc', -⟩
        · rw [hst, hkeys]
          exact hown.network_of_mustStop hlock hpc hmust
        · rw [hpc] at hpc'
          cases hpc'
  · refine h.frame id id (fun _ _ hk => hk) (by simp [MqttState.release])

theorem StopCause.of_run {es : List MqttEvent} (h : Run (mqttSystem env) es log s) :
    StopCause log s := by
  have key : Owned s ∧ StopCause log s := by
    refine h.induct (P := fun log s => Owned s ∧ StopCause log s) ⟨Owned.init, ?_⟩ ?_
    · exact ⟨nofun, nofun⟩
    · rintro log s e s' out ⟨hown, hcause⟩ - hstep
      exact ⟨hown.step hstep, hcause.step hown hstep⟩
  exact key.2

/-! ## What clears a reference -/

/-- The client object, the worker and the network thread are forgotten only
    once their threads have stopped. -/
structure Cleared (s s' : MqttState) : Prop where
  client : s.py.transport.client ≠ none → s'.py.transport.client = none → s.live = []
  worker : ∀ tid, s.py.transport.worker = some tid → s'.py.transport.worker ≠ some tid →
    s.alive tid = false
  loopThread : ∀ tid, s.py.transport.loopThread = some tid →
    s'.py.transport.loopThread ≠ some tid → s.alive tid = false

theorem Cleared.of_transport (h : s'.py.transport = s.py.transport) : Cleared s s' := by
  refine ⟨fun hc hc' => ?_, fun tid hw hw' => ?_, fun tid hl hl' => ?_⟩
  · rw [h] at hc'
    exact absurd hc' hc
  · rw [h] at hw'
    exact absurd hw hw'
  · rw [h] at hl'
    exact absurd hl hl'

theorem Owned.live_eq_nil (h : Owned s) (hworker : s.py.transport.worker = none)
    (hloop : s.py.transport.loopThread = none) (hpc : s.holderPc ≠ some .keepThread) :
    s.live = [] := by
  have hkeys := h.keys_eq_nil hworker hloop hpc
  rwa [keys, List.map_eq_nil_iff] at hkeys

theorem Owned.cleared (h : Owned s) (hstep : s.step env e = some (s', out)) : Cleared s s' := by
  rcases step_cases hstep with ⟨hidle, -⟩ | ⟨t, msg, session, -, -, -, -, rfl, -⟩ |
    ⟨t, msg, session, -, -, -, -, rfl, -⟩ | ⟨tid, -, rfl, -⟩ |
    ⟨tid, accepted, pc, -, -, rfl, -⟩ | ⟨task, -, -, rfl, -⟩ |
    ⟨outcome, holder, -, hlock, hstep⟩ | ⟨holder, -, -, -, rfl, -⟩
  · exact .of_transport hidle.transport
  · exact .of_transport rfl
  · exact .of_transport rfl
  · exact .of_transport rfl
  · exact .of_transport (decoderStep_frame env s.now accepted s.py pc).1
  · exact .of_transport rfl
  · rcases lifecycleStep_cases hstep with ⟨-, ht, -⟩ | ⟨hpc, ht, -⟩ | ⟨hpc, hrun, ht, -⟩ |
      ⟨-, t, -, ht, -⟩ | ⟨hpc, hw, hlo, ht, -⟩ | ⟨hc, -, -, hw, hl, -, -⟩
    -- only `retire` clears the three references together
    · refine ⟨fun hc hc' => ?_, fun tid hw hw' => ?_, fun tid hl hl' => ?_⟩
      · rw [ht] at hc'
        exact absurd hc' hc
      · rw [ht] at hw'
        exact absurd hw hw'
      · rw [ht] at hl'
        exact absurd hl hl'
    · refine ⟨fun hc hc' => ?_, fun tid hw hw' => ?_, fun tid hl hl' => ?_⟩
      · rw [ht] at hc'
        cases hc'
      · rw [ht] at hw'
        exact absurd hw hw'
      · rw [ht] at hl'
        exact absurd hl hl'
    -- a joined worker has died
    · refine ⟨fun hc hc' => ?_, fun tid hw _ => ?_, fun tid hl hl' => ?_⟩
      · rw [ht] at hc'
        exact absurd hc' hc
      · rw [hw] at hrun
        exact hrun
      · rw [ht] at hl'
        exact absurd hl hl'
    · exact .of_transport ht
    -- both threads are gone before the client is dropped
    · refine ⟨fun _ _ => ?_, fun tid hw' _ => ?_, fun tid hl' _ => ?_⟩
      · exact h.live_eq_nil hw hlo (by simp [holderPc, hlock, hpc])
      · rw [hw] at hw'
        cases hw'
      · rw [hlo] at hl'
        cases hl'
    -- a reference is dropped only when its thread is dead
    · refine ⟨fun hc' hc'' => absurd (hc ▸ hc'') hc', fun tid hw' hne => ?_, fun tid hl' hne => ?_⟩
      · rcases hw with hw | hrun
        · exact absurd (hw.trans hw') hne
        · rwa [hw'] at hrun
      · rcases hl with hl | hrun | hpc
        · exact absurd (hl.trans hl') hne
        · rwa [hl'] at hrun
        · have hinv := h.pc holder hlock
          rw [hpc] at hinv
          have hnone : s.py.transport.loopThread = none := hinv.2.2
          rw [hnone] at hl'
          cases hl'
  · exact .of_transport rfl

/-! ## What starts -/

/-- A start, a retirement by `connect()` and a successful `connect()`, as seen
    in the outputs of one step. -/
structure Justified (log : List MqttOut) (s : MqttState) (out : List MqttOut) : Prop where
  start : ∀ t, .started t ∈ out → s.py.transport.client = none ∧ s.live = []
  worker : ∀ tid, .workerStarted tid ∈ out → s.live = []
  network : ∀ t tid, .loopStarted t tid ∈ out → ∀ tid' t', (tid', some t') ∉ s.keys
  shutdown : ∀ c, .shutdown false c ∈ out → ∀ tid t, (tid, some t) ∈ s.keys →
    .shutdown true (some t) ∈ log
  returned : ∀ c, .connectReturned c ∈ out → c.isSome ∧ s.py.transport.client = c ∧
    s.py.transport.stopping = false ∧ s.py.session.connected = true

/-- Outputs that start, stop and return nothing. -/
theorem Justified.of_silent (h : ∀ x ∈ out, x.outward = true ∨ (∃ now e, x = .received now e) ∨
    (∃ now t msg, x = .dropped now t msg) ∨ (∃ e current, x = .decoded e current) ∨
    x = .retired) : Justified log s out := by
  refine ⟨fun t hx => ?_, fun tid hx => ?_, fun t tid hx => ?_, fun c hx => ?_, fun c hx => ?_⟩ <;>
    simpa [MqttOut.outward] using h _ hx

theorem Owned.justified (h : Owned s) (hcause : StopCause log s)
    (hstep : s.step env e = some (s', out)) : Justified log s out := by
  rcases step_cases hstep with ⟨-, hout | ⟨hstop, hcon, rfl⟩⟩ |
    ⟨t, msg, session, -, -, -, -, -, rfl⟩ |
    ⟨t, msg, session, -, -, -, -, -, rfl⟩ | ⟨tid, -, -, rfl⟩ |
    ⟨tid, accepted, pc, -, -, -, rfl⟩ | ⟨task, -, -, -, rfl⟩ |
    ⟨outcome, holder, -, hlock, hstep⟩ | ⟨holder, -, -, -, -, rfl⟩
  · exact .of_silent fun x hx => .inl (hout x hx)
  · refine ⟨by simp, by simp, by simp, by simp, fun c hc => ?_⟩
    cases List.mem_singleton.mp hc
    exact ⟨(h.connected hcon).2, rfl, hstop, hcon⟩
  · exact .of_silent (by simp)
  · exact .of_silent (by simp)
  · exact .of_silent (by simp)
  · rcases decoderStep_cases env s.now accepted s.py pc with ⟨_, -, -, -, hout⟩ |
      ⟨_, rest, -, -, hc⟩ | ⟨_, e, rest, -, -, hc⟩ | ⟨_, e, pc', -, -, hc⟩
    · exact .of_silent fun x hx => .inl (hout x hx)
    · rw [hc]
      exact .of_silent (by simp)
    · rw [hc]
      exact .of_silent (by simp)
    · rw [hc]
      exact .of_silent fun x hx => .inr (.inr (.inr (.inl ⟨_, _, List.mem_singleton.mp hx⟩)))
  · exact .of_silent (by simp)
  · have hinv := h.pc holder hlock
    rcases lifecycleStep_cases hstep with ⟨hpc, -, -, -, rfl⟩ | ⟨hpc, -, -, -, rfl⟩ |
      ⟨hpc, -, -, -, -, -, hout⟩ | ⟨hpc, t, -, -, -, -, rfl⟩ | ⟨hpc, -, -, -, -, -, rfl⟩ |
      ⟨-, -, -, -, -, -, hout⟩
    · refine ⟨by simp, by simp, by simp, fun c hc tid t hk => ?_, by simp⟩
      have hshut := MqttOut.shutdown.inj (List.mem_singleton.mp hc)
      -- not on behalf of `disconnect()`, so `connect()` found the transport stopping or dead
      have htask : holder = ⟨.connect, .stopBegin⟩ := by
        obtain ⟨task, pc⟩ := holder
        cases task with
        | connect => rw [show pc = .stopBegin from hpc]
        | disconnect => simp at hshut
      rcases hcause.connect (htask ▸ hlock) with hs | hno
      · exact hcause.byDisconnect hs tid t hk
      · exact absurd hk (hno tid t)
    · rw [hpc] at hinv
      have hnone := h.client_none hinv.1
      refine ⟨fun t _ => ⟨hinv.1, h.live_eq_nil hnone.1 hnone.2.1 hnone.2.2⟩, by simp, by simp,
        by simp, by simp⟩
    · rw [hpc] at hinv
      have hlive : s.live = [] := by
        have hkeys := hinv.2.2.2.2
        rwa [keys, List.map_eq_nil_iff] at hkeys
      rcases hout with rfl | rfl
      · exact ⟨by simp, fun _ _ => hlive, by simp, by simp, by simp⟩
      · exact ⟨by simp, by simp, by simp, by simp, by simp⟩
    · rw [hpc] at hinv
      refine ⟨by simp, by simp, fun _ _ _ tid t hk => ?_, by simp, by simp⟩
      cases hinv.2.2.2 _ hk
    · exact .of_silent (by simp)
    · refine .of_silent fun x hx => ?_
      obtain ⟨err, rfl⟩ := hout x hx
      exact .inl rfl
  · exact .of_silent (by simp)

/-! ## Ownership outlives the shutdown -/

theorem lifecycleStep_fresh (h : s.lifecycleStep holder outcome = some (s', out)) :
    s.fresh ≤ s'.fresh := by
  cases lifecycleStep_statement h with
  | startTransport _ => exact Nat.le_succ _
  | startWorker _ _ => exact Nat.le_succ _
  | noWorker _ _ => exact Nat.le_succ _
  | loopStart _ _ => exact Nat.le_succ _
  | _ => exact le_rfl

/-- A thread that is alive after a step was alive before, or is new. -/
theorem alive_of_step (hstep : s.step env e = some (s', out)) :
    s.fresh ≤ s'.fresh ∧ ∀ tid, tid < s.fresh → s'.alive tid = true → s.alive tid = true := by
  -- a sublist of the threads is alive only where the old list was
  have hsub : s'.keys.Sublist s.keys → ∀ tid, tid < s.fresh → s'.alive tid = true →
      s.alive tid = true := fun hsub tid _ ha => by
    obtain ⟨t, hk⟩ := alive_iff.mp ha
    exact alive_iff.mpr ⟨t, hsub.subset hk⟩
  rcases step_cases hstep with ⟨hidle, -⟩ | ⟨t, msg, session, -, -, -, -, rfl, -⟩ |
    ⟨t, msg, session, -, -, -, -, rfl, -⟩ | ⟨tid, -, rfl, -⟩ |
    ⟨tid, accepted, pc, -, -, rfl, -⟩ | ⟨task, -, -, rfl, -⟩ |
    ⟨outcome, holder, -, hlock, hstep⟩ | ⟨holder, -, -, -, rfl, -⟩
  · exact ⟨hidle.fresh.ge, hsub (by rw [keys, hidle.live, keys])⟩
  · exact ⟨le_rfl, hsub (List.Sublist.refl _)⟩
  · exact ⟨le_rfl, hsub (List.Sublist.refl _)⟩
  · exact ⟨le_rfl, hsub (List.filter_sublist.map _)⟩
  · exact ⟨le_rfl, hsub (advance_keys _ _ _)⟩
  · exact ⟨le_rfl, hsub (List.Sublist.refl _)⟩
  · refine ⟨lifecycleStep_fresh hstep, ?_⟩
    rcases lifecycleStep_cases hstep with ⟨-, -, hlive, -⟩ | ⟨-, -, hlive, -⟩ |
      ⟨-, -, -, -, halive, -⟩ | ⟨-, t, -, -, hkeys, -⟩ | ⟨-, -, -, -, hlive, -⟩ | ⟨-, hlive, -⟩
    · exact hsub (by rw [keys, hlive, keys])
    · exact hsub (by rw [keys, hlive, keys])
    -- the new worker has a fresh identity
    · intro tid hlt ha
      rcases halive tid ha with ha | rfl
      · exact ha
      · exact absurd hlt (lt_irrefl _)
    -- so does the new network thread
    · intro tid hlt ha
      obtain ⟨j, hk⟩ := alive_iff.mp ha
      rw [hkeys, List.mem_append, List.mem_singleton] at hk
      rcases hk with hk | hk
      · exact alive_iff.mpr ⟨j, hk⟩
      · rw [(Prod.mk.inj hk).1] at hlt
        exact absurd hlt (lt_irrefl _)
    · exact hsub (by rw [keys, hlive, keys])
    · exact hsub (by rw [keys, hlive, keys])
  · exact ⟨le_rfl, hsub (List.Sublist.refl _)⟩

/-- While a thread of a stopping transport is alive, a step neither drops nor
    replaces that transport, and no `connect()` succeeds. -/
theorem Owned.retained (h : Owned s) (hstop : s.py.transport.stopping = true) {tid : Nat}
    (halive : s.alive tid = true) (hstep : s.step env e = some (s', out)) :
    s'.py.transport.client = s.py.transport.client ∧ s'.py.transport.stopping = true ∧
      (∀ t, .started t ∉ out) ∧ ∀ c, .connectReturned c ∉ out := by
  obtain ⟨job, hk⟩ := alive_iff.mp halive
  -- a live thread keeps its owner
  have hne : s.keys ≠ [] := List.ne_nil_of_mem hk
  have hclient : s.py.transport.client ≠ none := fun hc => by
    have hnone := h.client_none hc
    exact hne (h.keys_eq_nil hnone.1 hnone.2.1 hnone.2.2)
  have hkept : ∀ {o : Transport}, o = s.py.transport →
      o.client = s.py.transport.client ∧ o.stopping = true :=
    fun ho => by rw [ho]; exact ⟨rfl, hstop⟩
  rcases step_cases hstep with ⟨hidle, hout | ⟨hstop', -, -⟩⟩ |
    ⟨t, msg, session, -, -, -, -, rfl, rfl⟩ |
    ⟨t, msg, session, -, -, -, -, rfl, rfl⟩ | ⟨tid, -, rfl, rfl⟩ |
    ⟨tid, accepted, pc, -, -, rfl, rfl⟩ | ⟨task, -, -, rfl, rfl⟩ |
    ⟨outcome, holder, -, hlock, hstep⟩ | ⟨holder, -, -, -, rfl, rfl⟩
  · obtain ⟨h₁, h₂⟩ := hkept hidle.transport
    exact ⟨h₁, h₂, fun t ht => by simpa [MqttOut.outward] using hout _ ht,
      fun c hc => by simpa [MqttOut.outward] using hout _ hc⟩
  · rw [hstop] at hstop'
    cases hstop'
  · exact ⟨rfl, hstop, by simp, by simp⟩
  · exact ⟨rfl, hstop, by simp, by simp⟩
  · exact ⟨rfl, hstop, by simp, by simp⟩
  · obtain ⟨h₁, h₂⟩ := hkept (decoderStep_frame env s.now accepted s.py pc).1
    refine ⟨h₁, h₂, ?_⟩
    rcases decoderStep_cases env s.now accepted s.py pc with ⟨_, -, -, -, hout⟩ |
      ⟨_, rest, -, -, hc⟩ | ⟨_, e, rest, -, -, hc⟩ | ⟨_, e, pc', -, -, hc⟩
    · exact ⟨fun t ht => by simpa [MqttOut.outward] using hout _ ht,
        fun c hc => by simpa [MqttOut.outward] using hout _ hc⟩
    · simp [hc]
    · simp [hc]
    · simp [hc]
  · exact ⟨rfl, hstop, by simp, by simp⟩
  · -- the statements that would start or drop a transport are not reachable here
    have hinv := h.pc holder hlock
    rcases lifecycleStep_cases hstep with ⟨-, ht, -, -, rfl⟩ | ⟨hpc, -, -, -, -⟩ |
      ⟨hpc, -, -, -, -, -, -⟩ | ⟨hpc, t, -, -, -, -, -⟩ | ⟨hpc, hw, hlo, -, -, -, -⟩ |
      ⟨hc, -, hst, -, -, -, hout⟩
    · rw [ht]
      exact ⟨rfl, rfl, by simp, by simp⟩
    · rw [hpc] at hinv
      exact absurd hinv.1 hclient
    · rw [hpc] at hinv
      exact absurd hinv.2.2.2.2 hne
    · rw [hpc] at hinv
      rw [hinv.2.1] at hstop
      cases hstop
    · exact absurd (h.keys_eq_nil hw hlo (by simp [holderPc, hlock, hpc])) hne
    · refine ⟨hc, ?_, fun t ht => ?_, fun c hx => ?_⟩
      · rcases hst with hst | ⟨hpc, -⟩
        · rw [hst]
          exact hstop
        · rw [hpc] at hinv
          exact absurd hinv.2 hclient
      · obtain ⟨err, herr⟩ := hout _ ht
        cases herr
      · obtain ⟨err, herr⟩ := hout _ hx
        cases herr
  · exact ⟨rfl, hstop, by simp, by simp⟩

/-- The same over a whole segment at the end of which the thread still lives. -/
theorem Owned.retained_path (h : Owned s) (hstop : s.py.transport.stopping = true) {tid : Nat}
    (halive : s.alive tid = true) {es : List MqttEvent}
    (hpath : Path (mqttSystem env) (fun _ _ => True) s es log s')
    (halive' : s'.alive tid = true) :
    s'.py.transport.client = s.py.transport.client ∧ s'.py.transport.stopping = true ∧
      (∀ t, .started t ∉ log) ∧ ∀ c, .connectReturned c ∉ log := by
  have hlt : tid < s.fresh := by
    obtain ⟨job, hk⟩ := alive_iff.mp halive
    exact h.tid_lt _ hk
  have key : Owned s' ∧ tid < s'.fresh ∧ (s'.alive tid = true →
      s'.py.transport.client = s.py.transport.client ∧ s'.py.transport.stopping = true ∧
        (∀ t, .started t ∉ log) ∧ ∀ c, .connectReturned c ∉ log) := by
    refine hpath.induct (P := fun log s' => Owned s' ∧ tid < s'.fresh ∧ (s'.alive tid = true →
      s'.py.transport.client = s.py.transport.client ∧ s'.py.transport.stopping = true ∧
        (∀ t, .started t ∉ log) ∧ ∀ c, .connectReturned c ∉ log))
      ⟨h, hlt, fun _ => ⟨rfl, hstop, by simp, by simp⟩⟩ ?_
    -- one more step keeps the retained transport
    rintro log s₁ e s₂ out ⟨hown, hlt₁, ih⟩ - hstep
    obtain ⟨hfresh, hback⟩ := alive_of_step hstep
    refine ⟨hown.step hstep, Nat.lt_of_lt_of_le hlt₁ hfresh, fun ha => ?_⟩
    have ha₁ := hback tid hlt₁ ha
    obtain ⟨hc, hs, hno, hno'⟩ := ih ha₁
    obtain ⟨hc', hs', hnew, hnew'⟩ := hown.retained hs ha₁ hstep
    exact ⟨hc'.trans hc, hs', fun t ht => (List.mem_append.mp ht).elim (hno t) (hnew t),
      fun c ht => (List.mem_append.mp ht).elim (hno' c) (hnew' c)⟩
  exact key.2.2 halive'

theorem Owned.decoder_one (h : Owned s) : (s.keys.filter (·.2.isNone)).length ≤ 1 := by
  have hnodup : ((s.keys.filter (·.2.isNone)).map Prod.fst).Nodup :=
    h.tids.sublist (List.filter_sublist.map _)
  have hworker : ∀ k ∈ s.keys.filter (·.2.isNone), s.py.transport.worker = some k.1 := by
    rintro ⟨tid, t⟩ hk
    obtain ⟨hk, hnone⟩ := List.mem_filter.mp hk
    cases t with
    | none => exact h.worker tid hk
    | some t => cases hnone
  match hl : s.keys.filter (·.2.isNone) with
  | [] => rw [hl]; simp
  | [k] => rw [hl]; simp
  | k :: k' :: rest =>
      rw [hl] at hnodup hworker
      have hkk : k.1 = k'.1 := Option.some.inj
        ((hworker k (by simp)).symm.trans (hworker k' (by simp)))
      simp [hkk] at hnodup

/-! ## One owned transport -/

/-- A `connect()` that meets a stopping transport with a live thread fails,
    under the lock and in its polls. -/
theorem connect_raises (hstop : s.py.transport.stopping = true)
    (hclient : s.py.transport.client ≠ none) :
    (∀ outcome, s.lifecycleStep ⟨.connect, .afterStop⟩ outcome =
      some (s.release, [.connectRaised .notConnected])) ∧
    ∀ i r, ∃ err, (s.pollStep i r).2 = [.connectRaised err] := by
  refine ⟨fun outcome => ?_, fun i r => ?_⟩
  · simp [MqttState.lifecycleStep, hclient]
  · unfold pollStep
    split
    · exact ⟨_, rfl⟩
    · rw [if_pos (.inr hstop)]
      exact ⟨_, rfl⟩

end MqttState

open MqttState

/-- Over every interleaving: at most one thread of each kind, nothing started
    beside a live thread, nothing cleared before its thread has stopped,
    nothing live retired by `connect()` alone, and no second client object as
    long as a thread of a stopping transport lives. -/
theorem single_owned_transport {env : MqttEnv} {es : List MqttEvent} {log : List MqttOut}
    {s : MqttState} (h : Run (mqttSystem env) es log s) :
    ((s.keys.filter (·.2.isSome)).length ≤ 1 ∧ (s.keys.filter (·.2.isNone)).length ≤ 1) ∧
    (∀ e s' out, s.step env e = some (s', out) → Justified log s out ∧ Cleared s s') ∧
    ∀ tid, s.alive tid = true → s.py.transport.stopping = true →
      ∀ es' log' s', Path (mqttSystem env) (fun _ _ => True) s es' log' s' →
        s'.alive tid = true →
        s'.py.transport.client = s.py.transport.client ∧ s'.py.transport.stopping = true ∧
          (∀ t, .started t ∉ log') ∧ (∀ c, .connectReturned c ∉ log') ∧
          (∀ outcome, s'.lifecycleStep ⟨.connect, .afterStop⟩ outcome =
            some (s'.release, [.connectRaised .notConnected])) ∧
          ∀ i r, ∃ err, (s'.pollStep i r).2 = [.connectRaised err] := by
  have hown := Owned.of_run h
  have hcause := StopCause.of_run h
  refine ⟨⟨hown.network_one, hown.decoder_one⟩, fun e s' out hstep =>
    ⟨hown.justified hcause hstep, hown.cleared hstep⟩, ?_⟩
  intro tid halive hstop es' log' s' hpath halive'
  obtain ⟨hc, hs, hno, hno'⟩ := hown.retained_path hstop halive hpath halive'
  have hown' : Owned s' := hpath.invariant hown fun _ _ _ _ ho _ hstep => ho.step hstep
  have hclient : s'.py.transport.client ≠ none := fun hnone => by
    have hn := hown'.client_none hnone
    obtain ⟨job, hk⟩ := alive_iff.mp halive'
    rw [hown'.keys_eq_nil hn.1 hn.2.1 hn.2.2] at hk
    cases hk
  exact ⟨hc, hs, hno, hno', connect_raises hs hclient⟩

/-- A `disconnect()` that is cancelled while it waits for the threads. -/
def cancelledDisconnect : List MqttEvent :=
  .acquire .disconnect :: List.replicate 6 (.lifecycle .ok) ++ [.cancel]

/-- After a cancelled shutdown of client 0, whose network thread is 2, no
    `connect()` returns as long as that thread lives. -/
theorem single_owned_transport_cancelledShutdown :
    ∃ s log, Run (mqttSystem fixtureEnv) (connectSchedule ++ cancelledDisconnect) log s ∧
      s.py.transport.client = some 0 ∧ s.alive 2 = true ∧
      ∀ es' log' s', Path (mqttSystem fixtureEnv) (fun _ _ => True) s es' log' s' →
        s'.alive 2 = true → ∀ c, .connectReturned c ∉ log' := by
  have hrun : ∃ s log, (mqttSystem fixtureEnv).exec {} (connectSchedule ++ cancelledDisconnect) =
      some (s, log) ∧ s.py.transport.client = some 0 ∧ s.alive 2 = true ∧
      s.py.transport.stopping = true := ⟨_, _, rfl, rfl, rfl, rfl⟩
  obtain ⟨s, log, hexec, hclient, halive, hstop⟩ := hrun
  have hpath := path_of_exec hexec
  refine ⟨s, log, hpath, hclient, halive, fun es' log' s' hp ha => ?_⟩
  exact ((single_owned_transport hpath).2.2 2 halive hstop es' log' s' hp ha).2.2.2.1

end McpVenusOs
