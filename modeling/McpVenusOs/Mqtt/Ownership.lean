/-
  McpVenusOs.Mqtt.Ownership

  One owned transport: whatever the tasks, the threads and the joins do, at
  most one network thread and one decoder worker are alive, the client object
  names them, and nothing is started or cleared while one of them lives.

  The invariant `Owned` couples the fields of `Transport` with the live threads
  and the statement the lock's holder is at.  All it needs of a thread is its
  `key`, so the steps of callbacks, workers and readers, which at most remove a
  key, keep it for one reason (`Owned.shrink`).
-/

import McpVenusOs.Mqtt.Machine

namespace McpVenusOs

open Py Machine

namespace MqttState

def keys (s : MqttState) : List (Nat × Option Nat) := s.live.map Thread.key

/-- The statement the lock's holder is at. -/
def holderPc (s : MqttState) : Option LifecyclePc := s.lock.map (·.pc)

/-- What holds of the owned transport at each statement under the lock. -/
def PcInv (o : Transport) (keys : List (Nat × Option Nat)) : LifecyclePc → Prop
  | .stopSignal | .stopSentinel | .probeWorker | .probeLoop _ | .joining | .reapWorker | .reapLoop
  | .retire => o.stopping = true
  | .freshInbox | .unstop => o.stopping = true ∧ o.client = none
  | .startTransport => o.client = none ∧ o.stopping = false
  | .startWorker => o.client.isSome ∧ o.stopping = false ∧ o.worker = none ∧ o.loopThread = none ∧
      keys = []
  | .loopStart => o.client.isSome ∧ o.stopping = false ∧ o.loopThread = none ∧
      ∀ k ∈ keys, k.2 = none
  | .keepThread => o.client.isSome ∧ o.stopping = false ∧ o.loopThread = none
  | .leaving => o.client.isSome
  | .afterStop => o.client = none → o.stopping = false
  | .entered | .stopBegin => True

/-- The client object names every live thread. -/
structure Owned (s : MqttState) : Prop where
  tids : (s.keys.map Prod.fst).Nodup
  tid_lt : ∀ k ∈ s.keys, k.1 < s.fresh
  worker : ∀ tid, (tid, none) ∈ s.keys → s.py.transport.worker = some tid
  network : ∀ tid t, (tid, some t) ∈ s.keys → s.py.transport.client = some t ∧
    (s.py.transport.loopThread = some tid ∨ s.holderPc = some .keepThread)
  network_one : (s.keys.filter (·.2.isSome)).length ≤ 1
  client_none : s.py.transport.client = none →
    s.py.transport.worker = none ∧ s.py.transport.loopThread = none ∧
      s.holderPc ≠ some .keepThread
  connected : s.py.session.connected = true →
    s.py.transport.stopping = false ∧ s.py.transport.client.isSome
  pc : ∀ h, s.lock = some h → PcInv s.py.transport s.keys h.pc

theorem PcInv.sublist {o : Transport} {keys keys' : List (Nat × Option Nat)} {pc : LifecyclePc}
    (h : PcInv o keys pc) (hsub : keys'.Sublist keys) : PcInv o keys' pc := by
  cases pc <;> simp only [PcInv] at h ⊢
  case startWorker =>
    obtain ⟨hc, hs, hw, hl, hk⟩ := h
    exact ⟨hc, hs, hw, hl, List.eq_nil_of_sublist_nil (hk ▸ hsub)⟩
  case loopStart =>
    obtain ⟨hc, hs, hl, hk⟩ := h
    exact ⟨hc, hs, hl, fun k hmem => hk k (hsub.subset hmem)⟩
  all_goals exact h

/-- Threads may end, and every field the invariant does not name may change. -/
theorem Owned.shrink {s s' : MqttState} (h : Owned s)
    (htransport : s'.py.transport = s.py.transport) (hlock : s'.lock = s.lock)
    (hfresh : s.fresh ≤ s'.fresh) (hkeys : s'.keys.Sublist s.keys)
    (hconnected : s'.py.session.connected = true →
      s.py.session.connected = true ∨ ∃ t, s.py.transport.current t = true) : Owned s' := by
  have hpc : s'.holderPc = s.holderPc := by rw [holderPc, hlock, holderPc]
  refine ⟨h.tids.sublist (hkeys.map _), fun k hk => ?_, fun tid hk => ?_, fun tid t hk => ?_, ?_,
    ?_, ?_, ?_⟩
  -- fewer threads of the same transport
  · exact Nat.lt_of_lt_of_le (h.tid_lt k (hkeys.subset hk)) hfresh
  · rw [htransport]
    exact h.worker tid (hkeys.subset hk)
  · rw [htransport, hpc]
    exact h.network tid t (hkeys.subset hk)
  · exact (hkeys.filter _).length_le.trans h.network_one
  · rw [htransport, hpc]
    exact h.client_none
  · intro hc
    rw [htransport]
    -- a new session belongs to the current transport
    rcases hconnected hc with hc | ⟨t, ht⟩
    · exact h.connected hc
    · simp only [Transport.current, Bool.and_eq_true, decide_eq_true_eq,
        Bool.not_eq_true'] at ht
      exact ⟨ht.2, by rw [ht.1]; rfl⟩
  · intro holder hholder
    rw [htransport]
    exact (h.pc holder (hlock ▸ hholder)).sublist hkeys

/-! ## Threads -/

theorem alive_iff {s : MqttState} {tid : Nat} : s.alive tid = true ↔ ∃ t, (tid, t) ∈ s.keys := by
  simp only [alive, List.any_eq_true, decide_eq_true_eq, keys, List.mem_map]
  constructor
  · rintro ⟨th, hth, rfl⟩
    exact ⟨_, th, hth, rfl⟩
  · rintro ⟨t, th, hth, heq⟩
    exact ⟨th, hth, (Prod.mk.inj heq).1⟩

theorem advance_keys (live : List Thread) (tid : Nat) (next : Option DecoderPc) :
    ((advance live tid next).map Thread.key).Sublist (live.map Thread.key) := by
  cases next with
  | none => exact List.filter_sublist.map _
  | some pc =>
      have hkey : Thread.key ∘ moveTo tid pc = Thread.key := by
        funext th
        obtain ⟨i, job⟩ := th
        cases job with
        | network t => rfl
        | decoder pc' =>
            simp only [Function.comp, moveTo]
            split <;> rfl
      rw [advance, List.map_map, hkey]

/-- Without a client object there is no thread. -/
theorem Owned.keys_eq_nil {s : MqttState} (h : Owned s)
    (hworker : s.py.transport.worker = none) (hloop : s.py.transport.loopThread = none)
    (hpc : s.holderPc ≠ some .keepThread) : s.keys = [] := by
  rw [List.eq_nil_iff_forall_not_mem]
  rintro ⟨tid, job⟩ hk
  cases job with
  | none =>
      have := h.worker tid hk
      rw [hworker] at this
      cases this
  | some t =>
      rcases (h.network tid t hk).2 with hl | hl
      · rw [hloop] at hl
        cases hl
      · exact hpc hl

/-! ## The statements under the lock -/

theorem Owned.init : Owned ({} : MqttState) where
  tids := by simp [keys]
  tid_lt := by simp [keys]
  worker := by simp [keys]
  network := by simp [keys]
  network_one := by simp [keys]
  client_none := by simp [holderPc]
  connected := by simp
  pc := by simp

variable {s s' : MqttState} {out : List MqttOut}
variable {holder : Holder} {pc : LifecyclePc} {o : Transport}

/-- The holder leaves the statement `keepThread` only by keeping the thread. -/
theorem Owned.not_keepThread (h : Owned s) (hlock : s.lock = some holder)
    (hne : holder.pc ≠ .keepThread) (tid t : Nat) (hk : (tid, some t) ∈ s.keys) :
    s.py.transport.client = some t ∧ s.py.transport.loopThread = some tid := by
  obtain ⟨hclient, hloop | hpc⟩ := h.network tid t hk
  · exact ⟨hclient, hloop⟩
  · rw [holderPc, hlock] at hpc
    exact absurd (Option.some.inj hpc) hne

/-- A new transport record that keeps the client object and names all live
    threads, with the holder at another statement. -/
theorem Owned.assign (h : Owned s) (hclient : o.client = s.py.transport.client)
    (hworker : ∀ tid, (tid, none) ∈ s.keys → o.worker = some tid)
    (hloop : ∀ tid t, (tid, some t) ∈ s.keys → o.loopThread = some tid)
    (hnone : s.py.transport.client = none → o.worker = none ∧ o.loopThread = none)
    (hstop : s.py.transport.stopping = false → o.stopping = false)
    (hpc : PcInv o s.keys pc) (hne : pc ≠ .keepThread) :
    Owned ((s.setTransport o).goto holder pc) where
  tids := h.tids
  tid_lt := h.tid_lt
  worker := hworker
  network tid t hk := ⟨hclient.trans (h.network tid t hk).1, .inl (hloop tid t hk)⟩
  network_one := h.network_one
  client_none hc :=
    have hc' : s.py.transport.client = none := hclient.symm.trans hc
    ⟨(hnone hc').1, (hnone hc').2, by simpa [MqttState.goto, holderPc]⟩
  connected hcon := ⟨hstop (h.connected hcon).1, by
    have hsome := (h.connected hcon).2
    rwa [← hclient] at hsome⟩
  pc holder' hh := by
    cases Option.some.inj hh
    exact hpc

theorem Owned.goto (h : Owned s) (hlock : s.lock = some holder) (hne : holder.pc ≠ .keepThread)
    (hpc : PcInv s.py.transport s.keys pc) (hne' : pc ≠ .keepThread) : Owned (s.goto holder pc) :=
  h.assign rfl h.worker (fun tid t hk => (h.not_keepThread hlock hne tid t hk).2)
    (fun hc => ⟨(h.client_none hc).1, (h.client_none hc).2.1⟩) id hpc hne'

theorem Owned.release (h : Owned s) (hne : s.holderPc ≠ some .keepThread) : Owned s.release where
  tids := h.tids
  tid_lt := h.tid_lt
  worker := h.worker
  network tid t hk := ⟨(h.network tid t hk).1, .inl ((h.network tid t hk).2.resolve_right hne)⟩
  network_one := h.network_one
  client_none hc :=
    ⟨(h.client_none hc).1, (h.client_none hc).2.1, by simp [MqttState.release, holderPc]⟩
  connected := h.connected
  pc holder' hh := by cases hh

/-- A reference to a live thread survives the test of `is_alive`. -/
theorem running_of_mem {tid : Nat} {t : Option Nat} (hk : (tid, t) ∈ s.keys) :
    s.running (some tid) = true := alive_iff.mpr ⟨t, hk⟩

/-- The ownership does not depend on the inbox. -/
theorem Owned.inbox (h : Owned s) (inbox : List (Option InboxEntry)) :
    Owned { s with py := { s.py with inbox := inbox } } :=
  h.shrink rfl rfl le_rfl (List.Sublist.refl _) .inl

/-- A test under the lock finds what the next statement relies on. -/
theorem Owned.branch (h : Owned s) (hlock : s.lock = some holder)
    (hbranch : Branch s holder.task holder.pc pc) : Owned (s.goto holder pc) := by
  have hpc := h.pc holder hlock
  have hcleared : s.py.transport.client = none →
      s.py.transport.worker = none ∧ s.py.transport.loopThread = none := fun hc =>
    ⟨(h.client_none hc).1, (h.client_none hc).2.1⟩
  have hstarting : s.mustStop = false → s.py.transport.stopping = false := fun hstop => by
    rw [mustStop, Bool.or_eq_false_iff] at hstop
    exact hstop.1
  obtain ⟨task, pc'⟩ := holder
  refine h.goto hlock ?_ ?_ ?_
  · rintro (rfl : pc' = .keepThread)
    cases hbranch
  · cases hbranch with
    | disconnects | mustStop => trivial
    | mustStart hstop hnone => exact ⟨hnone, hstarting hstop⟩
    | owned hstop hsome => exact Option.isSome_iff_ne_none.mpr hsome
    | probed | joining | noJoins | joined => exact hpc
    | timedOut hkept => exact fun hc => absurd (hcleared hc) hkept
    | stopped hnone => exact ⟨hnone, hpc hnone⟩
    | hasWorker hrunning =>
      -- there is no worker to be found: the transport is new
      rw [hpc.2.2.1] at hrunning
      cases hrunning
  · rintro rfl
    cases hbranch

/-- The retired client object had no thread left. -/
theorem Owned.retire (h : Owned s) (hlock : s.lock = some holder) (hpc : holder.pc = .retire)
    (hworker : s.py.transport.worker = none) (hloop : s.py.transport.loopThread = none)
    {session : Session} (hsession : session.connected = s.py.session.connected) :
    Owned ({ s with py := { s.py with
      transport := { s.py.transport with client := none },
      session := session } }.goto holder .freshInbox) := by
  have hstopping : s.py.transport.stopping = true := by
    have hinv := h.pc holder hlock
    rwa [hpc] at hinv
  -- both references are gone, so both threads are
  have hkeys : s.keys = [] := h.keys_eq_nil hworker hloop (by simp [holderPc, hlock, hpc])
  have hmem : ∀ k, k ∉ s.keys := by simp [hkeys]
  refine ⟨h.tids, h.tid_lt, fun tid hk => absurd hk (hmem _), fun tid t hk => absurd hk (hmem _),
    h.network_one, fun _ => ⟨hworker, hloop, by simp [MqttState.goto, holderPc]⟩, fun hcon => ?_,
    ?_⟩
  · have hnot := (h.connected (hsession ▸ hcon)).1
    rw [hstopping] at hnot
    cases hnot
  · intro holder' hh
    cases Option.some.inj hh
    exact ⟨hstopping, rfl⟩

/-- `_stop_transport` begins: no session counts as connected any more. -/
theorem Owned.stopBegin (h : Owned s) (hlock : s.lock = some holder)
    (hpc : holder.pc = .stopBegin) :
    Owned ({ s with py := { s.py with
      transport := { s.py.transport with stopping := true },
      session := { s.py.session with connected := false } } }.goto holder .stopSignal) := by
  have howned := h.not_keepThread hlock (by simp [hpc])
  refine ⟨h.tids, h.tid_lt, h.worker, fun tid t hk => ⟨(h.network tid t hk).1,
    .inl (howned tid t hk).2⟩, h.network_one, fun hc => ?_, by simp [MqttState.goto], ?_⟩
  · exact ⟨(h.client_none hc).1, (h.client_none hc).2.1, by simp [MqttState.goto, holderPc]⟩
  · intro holder' hh
    cases Option.some.inj hh
    rfl

/-- A new thread has a new identity. -/
theorem Owned.tids_append (h : Owned s) (t : Option Nat) :
    ((s.keys ++ [(s.fresh, t)]).map Prod.fst).Nodup := by
  rw [List.map_append]
  refine List.nodup_append.mpr ⟨h.tids, by simp, ?_⟩
  intro a ha b hb hab
  rw [List.map_singleton, List.mem_singleton] at hb
  obtain ⟨k, hk, rfl⟩ := List.mem_map.mp ha
  have := h.tid_lt k hk
  omega

/-- `transport._thread` is the one live network thread. -/
theorem Owned.networkThread_eq (h : Owned s) {tid t : Nat} (hk : (tid, some t) ∈ s.keys) :
    s.networkThread t = some tid := by
  obtain ⟨th, hth, hkey⟩ := List.mem_map.mp hk
  have hfind : (s.live.find? (·.key.2 = some t)).isSome := by
    rw [List.find?_isSome]
    exact ⟨th, hth, by simp [hkey]⟩
  obtain ⟨th', hth'⟩ := Option.isSome_iff_exists.mp hfind
  have hkey' : (th'.tid, some t) ∈ s.keys := by
    have hjob : th'.key.2 = some t := by simpa using List.find?_some hth'
    refine List.mem_map.mpr ⟨th', List.mem_of_find?_eq_some hth', ?_⟩
    rw [← hjob]
    rfl
  -- two network threads would be one too many
  have hone : th'.tid = tid := by
    have hsub := h.network_one
    have h₁ : (th'.tid, some t) ∈ s.keys.filter (·.2.isSome) := List.mem_filter.mpr ⟨hkey', rfl⟩
    have h₂ : (tid, some t) ∈ s.keys.filter (·.2.isSome) := List.mem_filter.mpr ⟨hk, rfl⟩
    match hl : s.keys.filter (·.2.isSome) with
    | [] => rw [hl] at h₁; cases h₁
    | [k] =>
        rw [hl, List.mem_singleton] at h₁ h₂
        exact (Prod.mk.inj (h₁.trans h₂.symm)).1
    | _ :: _ :: _ => rw [hl] at hsub; simp at hsub
  rw [networkThread, hth', Option.map_some, hone]

/-- A new client object has no thread yet. -/
theorem Owned.startTransport (h : Owned s) (hlock : s.lock = some holder)
    (hpc : holder.pc = .startTransport) :
    Owned ({ s with py := { s.py with
                      transport :=
                        { s.py.transport with client := some s.fresh, stopping := false },
                      session := { s.py.session with connected := false } },
                    fresh := s.fresh + 1 }.goto holder .startWorker) := by
  have hinv := h.pc holder hlock
  rw [hpc] at hinv
  have hnone := h.client_none hinv.1
  -- without a client there is no thread
  have hkeys : s.keys = [] := h.keys_eq_nil hnone.1 hnone.2.1 hnone.2.2
  have hmem : ∀ k, k ∉ s.keys := by simp [hkeys]
  refine ⟨h.tids, fun k hk => absurd hk (hmem k), fun tid hk => absurd hk (hmem _),
    fun tid t hk => absurd hk (hmem _), h.network_one, by simp [MqttState.goto],
    by simp [MqttState.goto], ?_⟩
  intro holder' hh
  cases Option.some.inj hh
  exact ⟨rfl, rfl, hnone.1, hnone.2.1, hkeys⟩

/-- What holds before a worker is started, whether the start succeeds or not. -/
theorem Owned.beforeWorker (h : Owned s) (hlock : s.lock = some holder)
    (hpc : holder.pc = .startWorker) : s.py.transport.client.isSome ∧
      s.py.transport.stopping = false ∧ s.py.transport.loopThread = none ∧ s.keys = [] := by
  have hinv := h.pc holder hlock
  rw [hpc] at hinv
  exact ⟨hinv.1, hinv.2.1, hinv.2.2.2.1, hinv.2.2.2.2⟩

/-- A worker that could not be started is named, but no thread. -/
theorem Owned.noWorker (h : Owned s) (hlock : s.lock = some holder)
    (hpc : holder.pc = .startWorker) :
    Owned (({ s with fresh := s.fresh + 1 }.setTransport
      { s.py.transport with workerStop := false, worker := some s.fresh }).release) := by
  obtain ⟨hclient, -, -, hkeys⟩ := h.beforeWorker hlock hpc
  have hmem : ∀ k, k ∉ s.keys := by simp [hkeys]
  refine ⟨h.tids, fun k hk => absurd hk (hmem k), fun tid hk => absurd hk (hmem _),
    fun tid t hk => absurd hk (hmem _), h.network_one, fun hc => ?_, h.connected, ?_⟩
  · rw [show s.py.transport.client = none from hc] at hclient
    cases hclient
  · intro holder' hh
    cases hh

/-- The first thread of a transport is its worker. -/
theorem Owned.startWorker (h : Owned s) (hlock : s.lock = some holder)
    (hpc : holder.pc = .startWorker) :
    Owned ({ { s with fresh := s.fresh + 1 }.setTransport
        { s.py.transport with workerStop := false, worker := some s.fresh } with
      live := s.live ++ [Thread.mk s.fresh (.decoder (.top 0))] }.goto holder .loopStart) := by
  obtain ⟨hclient, hstop, hloop, hkeys⟩ := h.beforeWorker hlock hpc
  have hkeys' : ({ { s with fresh := s.fresh + 1 }.setTransport
        { s.py.transport with workerStop := false, worker := some s.fresh } with
      live := s.live ++ [Thread.mk s.fresh (.decoder (.top 0))] }.goto holder .loopStart).keys =
        [(s.fresh, none)] := by
    have hnil : s.live.map Thread.key = [] := hkeys
    -- the worker is the only thread
    simp [keys, MqttState.goto, hnil, Thread.key]
  have hkey : ∀ k ∈ [(s.fresh, (none : Option Nat))], k = (s.fresh, none) := fun k hk =>
    List.mem_singleton.mp hk
  refine ⟨?_, fun k hk => ?_, fun tid hk => ?_, fun tid t hk => ?_, ?_, fun hc => ?_,
    h.connected, ?_⟩
  · rw [hkeys']
    exact List.nodup_singleton _
  · rw [hkeys'] at hk
    rw [hkey k hk]
    exact Nat.lt_succ_self _
  · rw [hkeys'] at hk
    rw [(Prod.mk.inj (hkey _ hk)).1]
    rfl
  · rw [hkeys'] at hk
    cases (Prod.mk.inj (hkey _ hk)).2
  · rw [hkeys']
    exact Nat.zero_le 1
  · rw [show s.py.transport.client = none from hc] at hclient
    cases hclient
  · intro holder' hh
    cases Option.some.inj hh
    refine ⟨hclient, hstop, hloop, fun k hk => ?_⟩
    rw [hkeys'] at hk
    rw [hkey k hk]

/-- What holds before the network thread is started. -/
theorem Owned.beforeLoop (h : Owned s) (hlock : s.lock = some holder)
    (hpc : holder.pc = .loopStart) : s.py.transport.client.isSome ∧
      s.py.transport.stopping = false ∧ s.py.transport.loopThread = none ∧
      ∀ k ∈ s.keys, k.2 = none := by
  have hinv := h.pc holder hlock
  rwa [hpc] at hinv

/-- The second thread of a transport is its network thread, and the only one. -/
theorem Owned.loopStart (h : Owned s) (hlock : s.lock = some holder)
    (hpc : holder.pc = .loopStart) {t : Nat} (ht : s.py.transport.client = some t) :
    Owned ({ s with fresh := s.fresh + 1,
                    live := s.live ++ [Thread.mk s.fresh (.network t)] }.goto holder
      .keepThread) := by
  obtain ⟨hclient, hstop, hloop, hkeys⟩ := h.beforeLoop hlock hpc
  have hkeys' : ({ s with fresh := s.fresh + 1, live := s.live ++
      [Thread.mk s.fresh (.network t)] }.goto holder .keepThread).keys =
        s.keys ++ [(s.fresh, some t)] := by
    -- one network thread is added to the worker
    simp [keys, MqttState.goto, Thread.key]
  have hmem : ∀ k ∈ s.keys ++ [(s.fresh, some t)], k ∈ s.keys ∨ k = (s.fresh, some t) :=
    fun k hk => by rwa [List.mem_append, List.mem_singleton] at hk
  refine ⟨?_, fun k hk => ?_, fun tid hk => ?_, fun tid t' hk => ?_, ?_, fun hc => ?_,
    h.connected, ?_⟩
  · rw [hkeys']
    exact h.tids_append (some t)
  · rw [hkeys'] at hk
    rcases hmem k hk with hk | rfl
    · exact Nat.lt_succ_of_lt (h.tid_lt k hk)
    · exact Nat.lt_succ_self _
  · rw [hkeys'] at hk
    rcases hmem _ hk with hk | hk
    · exact h.worker tid hk
    · cases (Prod.mk.inj hk).2
  · rw [hkeys'] at hk
    rcases hmem _ hk with hk | hk
    · cases hkeys _ hk
    · cases (Prod.mk.inj hk).2
      exact ⟨ht, .inr rfl⟩
  -- the threads so far are workers
  · have hnone : s.keys.filter (·.2.isSome) = [] := by
      rw [List.filter_eq_nil_iff]
      intro k hk
      rw [hkeys k hk]
      exact Bool.false_ne_true
    rw [hkeys', List.filter_append, hnone]
    exact le_rfl
  · rw [show s.py.transport.client = none from hc] at hclient
    cases hclient
  · intro holder' hh
    cases Option.some.inj hh
    exact ⟨hclient, hstop, hloop⟩

/-- Every statement under the lock keeps the ownership. -/
theorem Owned.statement (h : Owned s) (hlock : s.lock = some holder)
    (hstep : Statement s holder s' out) : Owned s' := by
  have hinv := h.pc holder hlock
  have howned : holder.pc ≠ .keepThread → ∀ tid t, (tid, some t) ∈ s.keys →
      s.py.transport.loopThread = some tid := fun hne tid t hk =>
    (h.not_keepThread hlock hne tid t hk).2
  have hcleared : s.py.transport.client = none →
      s.py.transport.worker = none ∧ s.py.transport.loopThread = none := fun hc =>
    ⟨(h.client_none hc).1, (h.client_none hc).2.1⟩
  have hrelease : holder.pc ≠ .keepThread → Owned s.release := fun hne =>
    h.release (by simpa [holderPc, hlock] using hne)
  cases hstep with
  | branch hbranch => exact h.branch hlock hbranch
  | disconnected _ hpc => exact hrelease (by simp [hpc])
  | raised hpc => exact hrelease (by rcases hpc with hpc | hpc | hpc <;> simp [hpc])
  | stopBegin hpc => exact h.stopBegin hlock hpc
  | stopSignal hpc =>
    rw [hpc] at hinv
    exact h.assign rfl h.worker (howned (by simp [hpc])) hcleared id hinv (by simp)
  | stopSentinel hpc =>
    rw [hpc] at hinv
    exact (h.inbox _).goto hlock (by simp [hpc]) hinv (by simp)
  | reapWorker hpc hworker =>
    -- a reference to a live worker survives
    rw [hpc] at hinv
    refine h.assign rfl (fun tid hk => ?_) (howned (by simp [hpc])) (fun hc => ?_) id hinv (by simp)
    · rw [hworker, h.worker tid hk, running_of_mem hk, if_pos rfl]
    · simp [hworker, (hcleared hc).1, (hcleared hc).2, MqttState.running]
  | reapLoop hpc hthread =>
    rw [hpc] at hinv
    refine h.assign rfl h.worker (fun tid t hk => ?_) (fun hc => ?_) id hinv (by simp)
    · rw [hthread, howned (by simp [hpc]) tid t hk, running_of_mem hk, if_pos rfl]
    · simp [hthread, (hcleared hc).1, (hcleared hc).2, MqttState.running]
  | retire hpc hworker hloop => exact h.retire hlock hpc hworker hloop rfl
  | freshInbox hpc =>
    rw [hpc] at hinv
    exact (h.inbox _).goto hlock (by simp [hpc]) hinv (by simp)
  | unstop hpc =>
    rw [hpc] at hinv
    exact h.assign rfl h.worker (howned (by simp [hpc])) hcleared (fun _ => rfl) (fun _ => rfl)
      (by simp)
  | startTransport hpc => exact h.startTransport hlock hpc
  | startWorker hpc => exact h.startWorker hlock hpc
  | noWorker hpc => exact h.noWorker hlock hpc
  | loopStart hpc ht => exact h.loopStart hlock hpc ht
  | loopRefused hpc =>
    obtain ⟨-, hstop, -, -⟩ := h.beforeLoop hlock hpc
    have hkept : Owned ((s.setTransport { s.py.transport with workerStop := true }).goto holder
        .afterStop) :=
      h.assign rfl h.worker (howned (by simp [hpc])) hcleared id (fun _ => hstop) (by simp)
    exact hkept.release (by simp [MqttState.goto, holderPc])
  | keepThread hpc =>
    rw [hpc] at hinv
    refine h.assign rfl h.worker (fun tid t hk => ?_) (fun hc => ?_) id hinv.1 (by simp)
    · rw [(h.network tid t hk).1]
      exact h.networkThread_eq hk
    · have hsome := hinv.1
      rw [hc] at hsome
      cases hsome
  | leaving hpc =>
    exact (hrelease (by simp [hpc])).shrink rfl rfl le_rfl (List.Sublist.refl _) .inl

theorem Owned.lifecycleStep (h : Owned s) (hlock : s.lock = some holder) {outcome : CallOutcome}
    (hstep : s.lifecycleStep holder outcome = some (s', out)) : Owned s' :=
  h.statement hlock (lifecycleStep_statement hstep)

end MqttState

end McpVenusOs
