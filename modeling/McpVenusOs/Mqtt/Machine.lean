/-
  McpVenusOs.Mqtt.Machine

  `MQTTClient` as one event machine: the paho callbacks of any client object,
  the decoder worker, any number of `connect()` and `disconnect()` tasks, their
  readers, and the callers of `subscribe`, `unsubscribe` and `publish`.

  An event is one atomic step of one of these parties; which of them moves, and
  what its environment answers, is the schedule's choice.  `step_cases` says
  everything a step can do, and every invariant starts from it.
-/

import McpVenusOs.Mqtt.Lifecycle

namespace McpVenusOs

open Py Machine

/-- The paho callbacks, with what they observe. -/
inductive PahoCallback
  | connect (accepted : Bool)
  | disconnect
  | log (message : String) (kernel : Json)
  | socketOpen (sock : Nat) (clientSocket : Option Nat) (kernel : Json)
  | socketUnregisterWrite (sock : Nat) (clientSocket : Option Nat) (wantWrite : Bool)
      (kernel : Json)
  | socketClose (sock : Nat) (kernel : Json)
  | message (msg : Message)

inductive MqttEvent
  | tick (dt : ℚ)
  /-- A thread dies by itself. -/
  | die (tid : Nat)
  /-- Client object `client` invokes a callback. -/
  | callback (client : Nat) (cb : PahoCallback)
  /-- `_on_message` of client object `client` goes on in its handler of `queue.Full`. -/
  | overflow (client : Nat)
  /-- One step of a worker; `accepted` is how a publish is taken. -/
  | decoder (tid : Nat) (accepted : Bool)
  /-- A `connect()` or `disconnect()` acquires `_lifecycle_lock`. -/
  | acquire (task : LifecycleTask)
  | lifecycle (outcome : CallOutcome)
  /-- The lock's holder is cancelled at its await. -/
  | cancel
  | poll (reader : Nat)
  | cancelReader (reader : Nat)
  | subscribe (pattern : String) (callback : Nat)
  | unsubscribe (pattern : String) (callback : Nat)
  | publish (topic payload : String)

namespace MqttState

/-- One callback of client object `t`.  A message the owned transport delivers
    is a new object. -/
def callbackStep (env : MqttEnv) (s : MqttState) (t : Nat) :
    PahoCallback → MqttState × List MqttOut
  | .connect accepted =>
    let r := onConnect env s.now t accepted s.py
    ({ s with py := r.1 }, r.2)
  | .disconnect =>
    let r := onDisconnect s.now s.alive t s.py
    ({ s with py := r.1 }, r.2)
  | .log message kernel => ({ s with py := onLog s.now kernel t message s.py }, [])
  | .socketOpen sock clientSocket kernel =>
    ({ s with py := onSocketOpen s.now kernel t sock clientSocket s.py }, [])
  | .socketUnregisterWrite sock clientSocket wantWrite kernel =>
    ({ s with
      py := onSocketUnregisterWrite s.now kernel t sock clientSocket wantWrite s.py }, [])
  | .socketClose sock kernel => ({ s with py := onSocketClose s.now kernel t sock s.py }, [])
  | .message msg =>
    let r := onMessage s.now s.serial t msg s.py
    let owned := s.py.transport.current t
    let full : Bool := inboxMaxsize ≤ s.py.inbox.length
    ({ s with py := r.1, serial := if owned then s.serial + 1 else s.serial,
              overflowing := if owned && full then t :: s.overflowing else s.overflowing },
      r.2)

/-- The program counter of worker `tid`. -/
def decoderPc (s : MqttState) (tid : Nat) : Option DecoderPc :=
  (s.live.find? (·.tid = tid)).bind fun th => match th.job with
    | .decoder pc => some pc
    | .network _ => none

/-- Worker `tid` goes on at `pc`; any other thread stays where it is. -/
def moveTo (tid : Nat) (pc : DecoderPc) (th : Thread) : Thread :=
  match th.job with
  | .decoder _ => if th.tid = tid then { th with job := .decoder pc } else th
  | .network _ => th

/-- The threads after worker `tid` went on at `pc`, or ended. -/
def advance (live : List Thread) (tid : Nat) : Option DecoderPc → List Thread
  | none => live.filter (·.tid ≠ tid)
  | some pc => live.map (moveTo tid pc)

/-- `subscribe` and `unsubscribe` call the broker only where the base does not
    cover the pattern. -/
def brokerCall (env : MqttEnv) (c : MqttClient) (pattern : String)
    (call : Nat → String → MqttOut) : List MqttOut :=
  match c.transport.client, c.session.connected, baseSubscriptions env.config env.contracts with
  | some t, true, .ok base => if coveredBy base pattern then [] else [call t pattern]
  | some t, true, .error e => [.raised t e]
  | _, _, _ => []

def step (env : MqttEnv) (s : MqttState) : MqttEvent → Option (MqttState × List MqttOut)
  | .tick dt => if 0 ≤ dt then some ({ s with now := s.now + dt }, []) else none
  | .die tid => some ({ s with live := s.live.filter (·.tid ≠ tid) }, [])
  | .callback t cb => some (s.callbackStep env t cb)
  | .overflow t =>
    if t ∈ s.overflowing then
      some ({ s with py := onQueueFull s.now t s.py, overflowing := s.overflowing.erase t }, [])
    else none
  | .decoder tid accepted =>
    (s.decoderPc tid).map fun pc =>
      let r := decoderStep env s.now accepted s.py pc
      ({ s with live := advance s.live tid r.1, py := r.2.1 }, r.2.2)
  | .acquire task =>
    if s.lock = none then some ({ s with lock := some ⟨task, .entered⟩ }, []) else none
  | .lifecycle outcome => s.lock.bind fun h => s.lifecycleStep h outcome
  | .cancel => s.lock.bind fun h => if h.pc = .joining then some (s.release, []) else none
  | .poll i =>
    match s.readers[i]? with
    | some (some r) => some (s.pollStep i r)
    | _ => none
  | .cancelReader i => some ({ s with readers := s.readers.set i none }, [])
  | .subscribe pattern callback =>
    let py := { s.py with registry := s.py.registry.subscribe pattern callback }
    some ({ s with py := py }, brokerCall env py pattern .subscribe)
  | .unsubscribe pattern callback =>
    match s.py.registry.unsubscribe pattern callback with
    | .error _ => some (s, [])
    | .ok (registry, removed) =>
      let py := { s.py with registry := registry }
      some ({ s with py := py }, if removed then brokerCall env py pattern .unsubscribe else [])
  | .publish topic payload =>
    match s.py.transport.client, s.py.session.connected with
    | some t, true => some (s, [.publish t topic payload])
    | _, _ => some (s, [])

end MqttState

/-! ## What a step can do -/

/-- The outputs that are calls to the broker, log records and failures of tasks. -/
def MqttOut.outward : MqttOut → Bool
  | .subscribe .. | .unsubscribe .. | .publish .. | .disconnected .. | .raised .. => true
  | .notified .. | .connectRaised .. => true
  | _ => false

namespace MqttState

variable {env : MqttEnv} {s s' : MqttState} {e : MqttEvent} {out : List MqttOut}

/-- A step that leaves messages, threads, the lock and the transport alone. -/
structure Idle (s s' : MqttState) : Prop where
  transport : s'.py.transport = s.py.transport
  inbox : s'.py.inbox = s.py.inbox
  cache : s'.py.cache = s.py.cache
  live : s'.live = s.live
  lock : s'.lock = s.lock
  fresh : s'.fresh = s.fresh
  serial : s'.serial = s.serial
  clock : s.now ≤ s'.now
  /-- Only the owned transport can connect. -/
  connected : s'.py.session.connected = true →
    s.py.session.connected = true ∨ ∃ t, s.py.transport.current t = true

theorem Idle.refl (s : MqttState) : Idle s s :=
  ⟨rfl, rfl, rfl, rfl, rfl, rfl, rfl, le_rfl, .inl⟩

theorem Idle.of_session {session : Session}
    (h : session.connected = true →
      s.py.session.connected = true ∨ ∃ t, s.py.transport.current t = true) :
    Idle s { s with py := { s.py with session := session } } :=
  ⟨rfl, rfl, rfl, rfl, rfl, rfl, rfl, le_rfl, h⟩

/-- The handler of `queue.Full` counts, and leaves the pipeline as it is. -/
theorem idle_onQueueFull (t : Nat) (overflowing : List Nat) :
    Idle s { s with py := onQueueFull s.now t s.py, overflowing := overflowing } := by
  refine ⟨rfl, rfl, rfl, rfl, rfl, rfl, rfl, le_rfl, fun h => .inl ?_⟩
  simp only [onQueueFull] at h
  split at h <;> exact h

theorem connectCalls_outward (explicit : List String) (t : Nat) :
    ∀ x ∈ connectCalls env explicit t, x.outward = true := by
  intro x hx
  unfold connectCalls at hx
  split at hx
  · rw [List.mem_singleton.mp hx]
    rfl
  · rcases List.mem_append.mp hx with hx | hx
    · obtain ⟨p, -, rfl⟩ := List.mem_map.mp hx
      rfl
    · rw [List.mem_singleton.mp hx]
      rfl

theorem brokerCall_outward (c : MqttClient) (pattern : String) (call : Nat → String → MqttOut)
    (hcall : ∀ t p, (call t p).outward = true) :
    ∀ x ∈ brokerCall env c pattern call, x.outward = true := by
  intro x hx
  unfold brokerCall at hx
  split at hx
  · split at hx
    · cases hx
    · rw [List.mem_singleton.mp hx]
      exact hcall _ _
  · rw [List.mem_singleton.mp hx]
    rfl
  · cases hx

/-- A callback other than `_on_message` only writes the session record. -/
theorem callbackStep_idle {t : Nat} {cb : PahoCallback} (hcb : ∀ msg, cb ≠ .message msg) :
    Idle s (s.callbackStep env t cb).1 ∧ ∀ x ∈ (s.callbackStep env t cb).2, x.outward = true := by
  cases cb with
  | message msg => exact absurd rfl (hcb msg)
  | connect accepted =>
      simp only [callbackStep, onConnect]
      cases ht : s.py.transport.current t with
      | false => exact ⟨.refl s, by simp⟩
      | true =>
          refine ⟨.of_session fun _ => .inr ⟨t, ht⟩, ?_⟩
          cases accepted with
          | false => simp
          | true => exact connectCalls_outward _ t
  | disconnect =>
      simp only [callbackStep, onDisconnect]
      split
      · exact ⟨.refl s, by simp⟩
      · exact ⟨.of_session (by simp), by simp [MqttOut.outward]⟩
  | log message kernel =>
      refine ⟨?_, by simp [callbackStep]⟩
      simp only [callbackStep, onLog]
      split
      · exact .refl s
      · split
        · exact .refl s
        · split <;> exact .of_session fun h => .inl h
  | socketOpen sock clientSocket kernel =>
      refine ⟨?_, by simp [callbackStep]⟩
      simp only [callbackStep, onSocketOpen]
      split
      · exact .refl s
      · exact .of_session fun h => .inl h
  | socketUnregisterWrite sock clientSocket wantWrite kernel =>
      refine ⟨?_, by simp [callbackStep]⟩
      simp only [callbackStep, onSocketUnregisterWrite]
      split
      · exact .refl s
      · exact .of_session fun h => .inl h
  | socketClose sock kernel =>
      refine ⟨?_, by simp [callbackStep]⟩
      simp only [callbackStep, onSocketClose]
      split
      · exact .refl s
      · exact .of_session fun h => .inl h

/-- `_on_message` ignores a transport that is not current, enqueues, or loses
    the message to a full inbox. -/
theorem messageStep_cases (env : MqttEnv) (s : MqttState) (t : Nat) (msg : Message) :
    (s.py.transport.current t = false ∧ s.callbackStep env t (.message msg) = (s, [])) ∨
    (s.py.transport.current t = true ∧ s.py.inbox.length < inboxMaxsize ∧ ∃ session,
      session.connected = s.py.session.connected ∧
      s.callbackStep env t (.message msg) =
        ({ s with serial := s.serial + 1, py := { s.py with
            session := session, inbox := s.py.inbox ++ [some ⟨s.serial, t, msg, s.now⟩] } },
          [.received s.now ⟨s.serial, t, msg, s.now⟩])) ∨
    (s.py.transport.current t = true ∧ inboxMaxsize ≤ s.py.inbox.length ∧ ∃ session,
      session.connected = s.py.session.connected ∧
      s.callbackStep env t (.message msg) =
        ({ s with serial := s.serial + 1, overflowing := t :: s.overflowing,
                  py := { s.py with session := session } },
          [.dropped s.now t msg])) := by
  cases ht : s.py.transport.current t with
  | false => exact .inl ⟨rfl, by simp [callbackStep, onMessage, ht]⟩
  | true =>
      by_cases hfull : s.py.inbox.length < inboxMaxsize
      · exact .inr (.inl ⟨rfl, hfull, { s.py.session with lastReceivedAt := some s.now }, rfl,
          by simp [callbackStep, onMessage, ht, hfull]⟩)
      · exact .inr (.inr ⟨rfl, by omega, { s.py.session with lastReceivedAt := some s.now }, rfl,
          by simp [callbackStep, onMessage, ht, not_lt.mp hfull, hfull]⟩)

/-- Everything a step can do. -/
theorem step_cases (h : s.step env e = some (s', out)) :
    (Idle s s' ∧ ((∀ x ∈ out, x.outward = true) ∨
      (s.py.transport.stopping = false ∧ s.py.session.connected = true ∧
        out = [.connectReturned s.py.transport.client]))) ∨
    (∃ t msg session, e = .callback t (.message msg) ∧ s.py.transport.current t = true ∧
      s.py.inbox.length < inboxMaxsize ∧ session.connected = s.py.session.connected ∧
      s' = { s with serial := s.serial + 1, py := { s.py with
        session := session, inbox := s.py.inbox ++ [some ⟨s.serial, t, msg, s.now⟩] } } ∧
      out = [.received s.now ⟨s.serial, t, msg, s.now⟩]) ∨
    (∃ t msg session, e = .callback t (.message msg) ∧
      s.py.transport.current t = true ∧ inboxMaxsize ≤ s.py.inbox.length ∧
      session.connected = s.py.session.connected ∧
      s' = { s with serial := s.serial + 1, overflowing := t :: s.overflowing,
                    py := { s.py with session := session } } ∧
      out = [.dropped s.now t msg]) ∨
    (∃ tid, e = .die tid ∧ s' = { s with live := s.live.filter (·.tid ≠ tid) } ∧ out = []) ∨
    (∃ tid accepted pc, e = .decoder tid accepted ∧ s.decoderPc tid = some pc ∧
      s' = { s with live := advance s.live tid (decoderStep env s.now accepted s.py pc).1,
                    py := (decoderStep env s.now accepted s.py pc).2.1 } ∧
      out = (decoderStep env s.now accepted s.py pc).2.2) ∨
    (∃ task, e = .acquire task ∧ s.lock = none ∧
      s' = { s with lock := some ⟨task, .entered⟩ } ∧ out = []) ∨
    (∃ outcome holder, e = .lifecycle outcome ∧ s.lock = some holder ∧
      s.lifecycleStep holder outcome = some (s', out)) ∨
    (∃ holder, e = .cancel ∧ s.lock = some holder ∧ holder.pc = .joining ∧ s' = s.release ∧
      out = []) := by
  cases e with
  | tick dt =>
      simp only [step] at h
      split at h
      · rename_i hdt
        obtain ⟨rfl, rfl⟩ := Prod.mk.inj (Option.some.inj h)
        have hnow : s.now ≤ s.now + dt := le_add_of_nonneg_right hdt
        exact .inl ⟨⟨rfl, rfl, rfl, rfl, rfl, rfl, rfl, hnow, .inl⟩, .inl (by simp)⟩
      · cases h
  | die tid =>
      obtain ⟨rfl, rfl⟩ := Prod.mk.inj (Option.some.inj h)
      exact .inr (.inr (.inr (.inl ⟨tid, rfl, rfl, rfl⟩)))
  | callback t cb =>
      have hcb := Option.some.inj h
      -- only `on_message` reaches the inbox; every other callback leaves the pipeline as it is
      by_cases hmsg : ∃ msg, cb = .message msg
      · obtain ⟨msg, rfl⟩ := hmsg
        rcases messageStep_cases env s t msg with ⟨-, heq⟩ | ⟨ht, hlen, session, hses, heq⟩ |
          ⟨ht, hlen, session, hses, heq⟩
        · obtain ⟨rfl, rfl⟩ := Prod.mk.inj (heq.symm.trans hcb)
          exact .inl ⟨.refl s, .inl (by simp)⟩
        · obtain ⟨rfl, rfl⟩ := Prod.mk.inj (heq.symm.trans hcb)
          exact .inr (.inl ⟨t, msg, session, rfl, ht, hlen, hses, rfl, rfl⟩)
        · obtain ⟨rfl, rfl⟩ := Prod.mk.inj (heq.symm.trans hcb)
          exact .inr (.inr (.inl ⟨t, msg, session, rfl, ht, hlen, hses, rfl, rfl⟩))
      · have hidle : Idle s (s.callbackStep env t cb).1 ∧
            ∀ x ∈ (s.callbackStep env t cb).2, x.outward = true :=
          callbackStep_idle fun msg hm => hmsg ⟨msg, hm⟩
        rw [hcb] at hidle
        exact .inl ⟨hidle.1, .inl hidle.2⟩
  | overflow t =>
      simp only [step] at h
      split at h
      · obtain ⟨rfl, rfl⟩ := Prod.mk.inj (Option.some.inj h)
        exact .inl ⟨idle_onQueueFull t _, .inl (by simp)⟩
      · cases h
  | decoder tid accepted =>
      simp only [step, Option.map_eq_some_iff, Prod.mk.injEq] at h
      obtain ⟨pc, hpc, rfl, rfl⟩ := h
      exact .inr (.inr (.inr (.inr (.inl ⟨tid, accepted, pc, rfl, hpc, rfl, rfl⟩))))
  | acquire task =>
      simp only [step] at h
      split at h
      · rename_i hlock
        obtain ⟨rfl, rfl⟩ := Prod.mk.inj (Option.some.inj h)
        exact .inr (.inr (.inr (.inr (.inr (.inl ⟨task, rfl, hlock, rfl, rfl⟩)))))
      · cases h
  | lifecycle outcome =>
      obtain ⟨holder, hlock, hstep⟩ := Option.bind_eq_some_iff.mp h
      exact .inr (.inr (.inr (.inr (.inr (.inr (.inl ⟨outcome, holder, rfl, hlock, hstep⟩))))))
  | cancel =>
      obtain ⟨holder, hlock, hstep⟩ := Option.bind_eq_some_iff.mp h
      split at hstep
      · rename_i hpc
        obtain ⟨rfl, rfl⟩ := Prod.mk.inj (Option.some.inj hstep)
        exact .inr (.inr (.inr (.inr (.inr (.inr (.inr ⟨holder, rfl, hlock, hpc, rfl, rfl⟩))))))
      · cases hstep
  | poll i =>
      refine .inl ?_
      simp only [step] at h
      split at h
      · rename_i r hr
        have hp := Option.some.inj h
        unfold pollStep at hp
        split at hp
        · obtain ⟨rfl, rfl⟩ := Prod.mk.inj hp
          exact ⟨⟨rfl, rfl, rfl, rfl, rfl, rfl, rfl, le_rfl, .inl⟩,
            .inl (by simp [MqttOut.outward])⟩
        -- the poll: neither another client nor a stop came in between
        · split at hp
          · obtain ⟨rfl, rfl⟩ := Prod.mk.inj hp
            exact ⟨⟨rfl, rfl, rfl, rfl, rfl, rfl, rfl, le_rfl, .inl⟩,
              .inl (by simp [MqttOut.outward])⟩
          · rename_i hcur
            split at hp
            · rename_i hcon
              obtain ⟨rfl, rfl⟩ := Prod.mk.inj hp
              simp only [ne_eq, not_or, not_not, Bool.not_eq_true] at hcur
              exact ⟨⟨rfl, rfl, rfl, rfl, rfl, rfl, rfl, le_rfl, .inl⟩,
                .inr ⟨hcur.2, hcon, by rw [hcur.1]⟩⟩
            · obtain ⟨rfl, rfl⟩ := Prod.mk.inj hp
              exact ⟨⟨rfl, rfl, rfl, rfl, rfl, rfl, rfl, le_rfl, .inl⟩, .inl (by simp)⟩
      · cases h
  | cancelReader i =>
      obtain ⟨rfl, rfl⟩ := Prod.mk.inj (Option.some.inj h)
      exact .inl ⟨⟨rfl, rfl, rfl, rfl, rfl, rfl, rfl, le_rfl, .inl⟩, .inl (by simp)⟩
  | subscribe pattern callback =>
      obtain ⟨rfl, rfl⟩ := Prod.mk.inj (Option.some.inj h)
      exact .inl ⟨⟨rfl, rfl, rfl, rfl, rfl, rfl, rfl, le_rfl, .inl⟩,
        .inl (brokerCall_outward _ _ _ fun _ _ => rfl)⟩
  | unsubscribe pattern callback =>
      refine .inl ?_
      simp only [step] at h
      split at h
      · obtain ⟨rfl, rfl⟩ := Prod.mk.inj (Option.some.inj h)
        exact ⟨.refl s, .inl (by simp)⟩
      · obtain ⟨rfl, rfl⟩ := Prod.mk.inj (Option.some.inj h)
        refine ⟨⟨rfl, rfl, rfl, rfl, rfl, rfl, rfl, le_rfl, .inl⟩, .inl ?_⟩
        split
        · exact brokerCall_outward _ _ _ fun _ _ => rfl
        · simp
  | publish topic payload =>
      refine .inl ?_
      simp only [step] at h
      split at h
      · obtain ⟨rfl, rfl⟩ := Prod.mk.inj (Option.some.inj h)
        exact ⟨.refl s, .inl (by simp [MqttOut.outward])⟩
      · obtain ⟨rfl, rfl⟩ := Prod.mk.inj (Option.some.inj h)
        exact ⟨.refl s, .inl (by simp)⟩

theorem find?_moveTo (live : List Thread) (tid : Nat) (pc : DecoderPc) :
    (live.map (moveTo tid pc)).find? (·.tid = tid) =
      (live.find? (·.tid = tid)).map (moveTo tid pc) := by
  -- moving the program counter keeps the thread's identity
  have htid : ∀ th : Thread, (moveTo tid pc th).tid = th.tid := by
    rintro ⟨i, job⟩
    cases job with
    | network t => rfl
    | decoder pc' =>
        simp only [moveTo]
        split <;> rfl
  rw [List.find?_map]
  congr 2
  funext th
  simp [htid]

/-- A worker goes on where its step leaves it. -/
theorem decoderPc_advance {tid : Nat} {pc : DecoderPc} (h : s.decoderPc tid = some pc)
    (next : DecoderPc) (py : MqttClient) :
    ({ s with live := advance s.live tid (some next), py := py } : MqttState).decoderPc tid =
      some next := by
  obtain ⟨th, hth, hjob⟩ := Option.bind_eq_some_iff.mp h
  have htid : th.tid = tid := by simpa using List.find?_some hth
  obtain ⟨i, job⟩ := th
  cases job with
  | network t => cases hjob
  | decoder pc' =>
      simp only at htid
      simp only [decoderPc, advance, find?_moveTo, hth, Option.map_some, Option.bind_some, moveTo,
        htid, if_true]

/-- Everything a worker's step can do: test or rest, maintain the feed, take
    the oldest item of the inbox, decode what it holds, or notify. -/
theorem decoderStep_cases (env : MqttEnv) (now : ℚ) (accepted : Bool) (c : MqttClient)
    (pc : DecoderPc) :
    (∃ feed, (decoderStep env now accepted c pc).2.1 = { c with feed := feed } ∧
      pc.held = none ∧ (∀ pc', (decoderStep env now accepted c pc).1 = some pc' → pc'.held = none) ∧
      ∀ x ∈ (decoderStep env now accepted c pc).2.2, x.outward = true) ∨
    (∃ processed rest, pc = .take processed ∧ c.inbox = none :: rest ∧
      decoderStep env now accepted c pc = (none, { c with inbox := rest }, [])) ∨
    (∃ processed e rest, pc = .take processed ∧ c.inbox = some e :: rest ∧
      decoderStep env now accepted c pc =
        (some (.holding processed e), { c with inbox := rest }, [])) ∨
    (∃ processed e pc', pc = .holding processed e ∧ pc'.held = none ∧
      decoderStep env now accepted c pc = (some pc', (c.handleMessage env e).1,
        [.decoded e (c.transport.current e.client)])) := by
  cases pc with
  | top processed =>
      refine .inl ⟨c.feed, ?_⟩
      simp only [decoderStep]
      -- no transport, or nothing due: the decoder goes round again
      split
      · exact ⟨rfl, rfl, by simp, by simp⟩
      · split
        · exact ⟨rfl, rfl, by simp [DecoderPc.held], by simp⟩
        · exact ⟨rfl, rfl, by simp [DecoderPc.held], by simp⟩
  | feeding processed take rest =>
      cases rest with
      | ret a =>
          refine .inl ⟨c.feed, rfl, rfl, ?_, by simp [decoderStep]⟩
          simp only [decoderStep, Option.some.injEq, forall_eq']
          split <;> rfl
      | raise e => exact .inl ⟨c.feed, rfl, rfl, by simp [decoderStep], by simp [decoderStep]⟩
      | op o k =>
          obtain ⟨feed, hfeed⟩ := c.answerFeed_client now accepted o
          refine .inl ⟨feed, hfeed, rfl, by simp [decoderStep, DecoderPc.held], ?_⟩
          rcases c.answerFeed_out now accepted o with hout | ⟨t, topic, payload, hout⟩ <;>
            simp [decoderStep, hout, MqttOut.outward]
  | take processed =>
      obtain hin | ⟨item, rest, hin⟩ : c.inbox = [] ∨ ∃ item rest, c.inbox = item :: rest := by
        cases c.inbox <;> simp
      · have hstep : decoderStep env now accepted c (.take processed) =
            (some (.feeding processed false (maintainReadFeed env c.feed)), c, []) := by
          simp [decoderStep, hin]
        rw [hstep]
        exact .inl ⟨c.feed, rfl, rfl, by simp [DecoderPc.held], by simp⟩
      · cases item with
        | none => exact .inr (.inl ⟨processed, rest, rfl, hin, by simp [decoderStep, hin]⟩)
        | some e =>
            exact .inr (.inr (.inl ⟨processed, e, rest, rfl, hin, by simp [decoderStep, hin]⟩))
  | holding processed e =>
      refine .inr (.inr (.inr ?_))
      cases hm : c.handleMessage env e with
      | mk c' notify =>
          cases notify with
          | none =>
            exact ⟨processed, e, .afterMessage processed, rfl, rfl, by simp [decoderStep, hm]⟩
          | some n =>
              exact ⟨processed, e, .notifying processed n.1 n.2, rfl, rfl,
                by simp [decoderStep, hm]⟩
  | notifying processed topic payload =>
      refine .inl ⟨c.feed, rfl, rfl, by simp [decoderStep, DecoderPc.afterMessage, DecoderPc.held],
        ?_⟩
      simp only [decoderStep]
      split <;> simp [MqttOut.outward]

end MqttState

/-- The machine of one client object. -/
def mqttSystem (env : MqttEnv) : System MqttState MqttEvent MqttOut where
  init := {}
  step := MqttState.step env

/-! ## Fixtures -/

/-- The environment of the unit suite, with payloads that are one digit. -/
def fixtureEnv : MqttEnv where
  config := ⟨some "testportal", .finite 60⟩
  contracts := fixtureContracts
  loads
    | [b] => if 48 ≤ b ∧ b ≤ 57 then some (.int (b.toNat - 48)) else none
    | _ => none
  isDigit := Char.isDigit

/-- A `connect()` that starts everything and leaves the lock. -/
def connectSchedule : List MqttEvent :=
  .acquire .connect :: List.replicate 6 (.lifecycle .ok)

/-- Client 0 delivers a state of charge of 7, which worker 1 decodes after a
    look at the read feed. -/
def readingSchedule : List MqttEvent :=
  .callback 0 (.message ⟨"N/testportal/battery/512/Soc", [55], false⟩) ::
    List.replicate 6 (.decoder 1 true)

end McpVenusOs
