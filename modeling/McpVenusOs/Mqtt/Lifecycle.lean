/-
  McpVenusOs.Mqtt.Lifecycle

  `connect`, `disconnect`, `_start_transport` and `_stop_transport`.

  Both coroutines run under `_lifecycle_lock`, so at most one of them is past
  the lock: the `Holder`.  Its program counter names the next statement; the
  callbacks, the workers and other tasks move between any two statements.  The
  only awaits are the lock itself, the bounded joins (`joining`) and, outside
  the lock, the sleeps of a `Reader`; only there can a task be cancelled.

  `transport._thread` is the live network thread of that transport: paho clears
  it as the last act of the thread, which is one event with its death.
-/

import McpVenusOs.Mqtt.Decoder

namespace McpVenusOs

open Py

/-! ## Threads and tasks -/

inductive Job
  | network (client : Nat)
  | decoder (pc : DecoderPc)

/-- A live thread. -/
structure Thread where
  tid : Nat
  job : Job

/-- A thread's identity and, for a network thread, its client object. -/
def Thread.key (th : Thread) : Nat × Option Nat :=
  (th.tid, match th.job with
    | .network t => some t
    | .decoder _ => none)

inductive LifecycleTask
  | connect
  | disconnect
  deriving DecidableEq

/-- The next statement of the lock's holder. -/
inductive LifecyclePc
  | entered
  /-- `_stop_transport`, from its first section on. -/
  | stopBegin
  | stopSignal
  | stopSentinel
  | probeWorker
  | probeLoop (joins : Bool)
  | joining
  | reapWorker
  | reapLoop
  | retire
  | freshInbox
  | unstop
  | afterStop
  /-- `_start_transport`, from the construction of the paho client on. -/
  | startTransport
  | startWorker
  | loopStart
  | keepThread
  | leaving
  deriving DecidableEq

structure Holder where
  task : LifecycleTask
  pc : LifecyclePc
  deriving DecidableEq

/-- A `connect()` that has left the lock and waits for its transport. -/
structure Reader where
  transport : Option Nat
  polls : Nat
  deriving DecidableEq

/-- How a call that can fail ends: `loop_start` can also refuse by its result. -/
inductive CallOutcome
  | ok
  | refused
  | raised
  deriving DecidableEq

/-- The client object, the clock and the threads around it. -/
structure MqttState where
  now : ℚ := 0
  /-- The next message object. -/
  serial : Nat := 0
  /-- The next paho client or thread. -/
  fresh : Nat := 0
  live : List Thread := []
  /-- The clients whose `_on_message` has met a full inbox and is before its handler. -/
  overflowing : List Nat := []
  py : MqttClient := {}
  lock : Option Holder := none
  /-- Slots of waiting readers; a reader that is done leaves its slot empty. -/
  readers : List (Option Reader) := []

namespace MqttState

/-- `thread.is_alive()` -/
def alive (s : MqttState) (tid : Nat) : Bool := s.live.any (·.tid = tid)

/-- `thread is not None and thread.is_alive()` -/
def running (s : MqttState) : Option Nat → Bool
  | none => false
  | some tid => s.alive tid

/-- `transport._thread` -/
def networkThread (s : MqttState) (client : Nat) : Option Nat :=
  (s.live.find? (·.key.2 = some client)).map (·.tid)

def setTransport (s : MqttState) (o : Transport) : MqttState :=
  { s with py := { s.py with transport := o } }

/-- The holder goes on at `pc`. -/
def goto (s : MqttState) (h : Holder) (pc : LifecyclePc) : MqttState :=
  { s with lock := some { h with pc := pc } }

/-- The holder leaves the lock. -/
def release (s : MqttState) : MqttState := { s with lock := none }

/-! ## The statements -/

/-- The test of `connect` under the lock. -/
def mustStop (s : MqttState) : Bool :=
  s.py.transport.stopping ||
    (s.py.transport.client.isSome && !s.running s.py.transport.loopThread)

/-- `_stop_transport`, one statement. -/
def stopStep (s : MqttState) (h : Holder) : LifecyclePc → Option (MqttState × List MqttOut)
  | .stopBegin =>
    let py := { s.py with transport := { s.py.transport with stopping := true },
                          session := { s.py.session with connected := false } }
    some ({ s with py := py }.goto h .stopSignal,
      [.shutdown (h.task = .disconnect) s.py.transport.client])
  | .stopSignal =>
    some ((s.setTransport { s.py.transport with workerStop := true }).goto h .stopSentinel, [])
  | .stopSentinel =>
    -- a full inbox takes no sentinel
    let inbox := if s.py.inbox.length < inboxMaxsize then s.py.inbox ++ [none] else s.py.inbox
    some ({ s with py := { s.py with inbox := inbox } }.goto h .probeWorker, [])
  | .probeWorker => some (s.goto h (.probeLoop (s.running s.py.transport.worker)), [])
  | .probeLoop joins =>
    -- with no thread to join the two joins are skipped
    some (s.goto h (if joins || s.running s.py.transport.loopThread then .joining
      else .reapWorker), [])
  | .joining => some (s.goto h .reapWorker, [])
  | .reapWorker =>
    -- a thread that outlived its join keeps its reference
    let worker := if s.running s.py.transport.worker then s.py.transport.worker else none
    some ((s.setTransport { s.py.transport with worker := worker }).goto h .reapLoop, [])
  | .reapLoop =>
    let loopThread := if s.running s.py.transport.loopThread then s.py.transport.loopThread
      else none
    some ((s.setTransport { s.py.transport with loopThread := loopThread }).goto h .retire, [])
  | .retire =>
    if s.py.transport.worker = none ∧ s.py.transport.loopThread = none then
      let py := { s.py with
        transport := { s.py.transport with client := none },
        session := { s.py.session with diagnosticSocket := none,
                                       pendingPingreqGeneration := none } }
      some ({ s with py := py }.goto h .freshInbox, [.retired])
    -- a join timed out: the client stays, and so does the stop
    else some (s.goto h .afterStop, [])
  | .freshInbox => some ({ s with py := { s.py with inbox := [] } }.goto h .unstop, [])
  | .unstop =>
    some ((s.setTransport { s.py.transport with stopping := false }).goto h .afterStop, [])
  | _ => none

/-- `_start_transport`, one statement. -/
def startStep (s : MqttState) (h : Holder) (outcome : CallOutcome) :
    LifecyclePc → Option (MqttState × List MqttOut)
  | .startTransport =>
    if outcome = .raised then some (s.release, [.connectRaised (.other "transport")])
    else
      let py := { s.py with
        transport := { s.py.transport with client := some s.fresh, stopping := false },
        session := { s.py.session with connected := false } }
      some ({ s with py := py, fresh := s.fresh + 1 }.goto h .startWorker, [.started s.fresh])
  | .startWorker =>
    -- a worker that is still alive is kept
    if s.running s.py.transport.worker then some (s.goto h .loopStart, [])
    else
      let s' := { s with fresh := s.fresh + 1 }.setTransport
        { s.py.transport with workerStop := false, worker := some s.fresh }
      if outcome = .raised then some (s'.release, [.connectRaised (.other "worker")])
      else
        some ({ s' with live := s'.live ++ [Thread.mk s.fresh (.decoder (.top 0))] }.goto h
          .loopStart, [.workerStarted s.fresh])
  | .loopStart =>
    -- `loop_start` starts the thread, refuses to, or raises
    match outcome, s.py.transport.client with
    | .ok, some t =>
      some ({ s with fresh := s.fresh + 1,
                     live := s.live ++ [Thread.mk s.fresh (.network t)] }.goto h .keepThread,
        [.loopStarted t s.fresh])
    | .refused, _ =>
      some ((s.setTransport { s.py.transport with workerStop := true }).release,
        [.connectRaised .mqttError])
    | .raised, _ => some (s.release, [.connectRaised (.other "loop_start")])
    | .ok, none => none
  | .keepThread =>
    let loopThread := s.py.transport.client.bind s.networkThread
    some ((s.setTransport { s.py.transport with loopThread := loopThread }).goto h .leaving, [])
  | _ => none

/-- The next statement of the lock's holder. -/
def lifecycleStep (s : MqttState) (h : Holder) (outcome : CallOutcome) :
    Option (MqttState × List MqttOut) :=
  match h.pc with
  | .entered =>
    match h.task with
    | .disconnect => some (s.goto h .stopBegin, [])
    | .connect =>
      -- the loop thread is dead or a stop is pending: stop first
      some (s.goto h (if s.mustStop then .stopBegin
        else if s.py.transport.client = none then .startTransport else .leaving), [])
  | .afterStop =>
    match h.task with
    | .disconnect => some (s.release, [])
    | .connect =>
      if s.py.transport.client ≠ none then some (s.release, [.connectRaised .notConnected])
      else some (s.goto h .startTransport, [])
  | .leaving =>
    -- the lock is released before the wait for the connection
    some ({ s.release with readers := s.readers ++ [some ⟨s.py.transport.client, 0⟩] }, [])
  | .startTransport | .startWorker | .loopStart | .keepThread => s.startStep h outcome h.pc
  | pc => s.stopStep h pc

/-- One turn of a waiting reader: the test, and the sleep after it. -/
def pollStep (s : MqttState) (i : Nat) (r : Reader) : MqttState × List MqttOut :=
  let done := { s with readers := s.readers.set i none }
  if connectWaitSteps ≤ r.polls then (done, [.connectRaised .connectionTimeout])
  else if s.py.transport.client ≠ r.transport ∨ s.py.transport.stopping = true then
    (done, [.connectRaised .notConnected])
  else if s.py.session.connected then
    (done, [.connectReturned r.transport])
  else ({ s with readers := s.readers.set i (some { r with polls := r.polls + 1 }) }, [])

/-! ## What a statement does -/

/-- A test under the lock: the holder goes on, and nothing else changes. -/
inductive Branch (s : MqttState) : LifecycleTask → LifecyclePc → LifecyclePc → Prop
  | disconnects : Branch s .disconnect .entered .stopBegin
  | mustStop : s.mustStop = true → Branch s .connect .entered .stopBegin
  | mustStart : s.mustStop = false → s.py.transport.client = none →
      Branch s .connect .entered .startTransport
  | owned : s.mustStop = false → s.py.transport.client ≠ none → Branch s .connect .entered .leaving
  | probed {task : LifecycleTask} :
      Branch s task .probeWorker (.probeLoop (s.running s.py.transport.worker))
  | joining {task : LifecycleTask} {joins : Bool} : Branch s task (.probeLoop joins) .joining
  | noJoins {task : LifecycleTask} {joins : Bool} : Branch s task (.probeLoop joins) .reapWorker
  | joined {task : LifecycleTask} : Branch s task .joining .reapWorker
  | timedOut {task : LifecycleTask} :
      ¬(s.py.transport.worker = none ∧ s.py.transport.loopThread = none) →
      Branch s task .retire .afterStop
  | stopped : s.py.transport.client = none → Branch s .connect .afterStop .startTransport
  | hasWorker {task : LifecycleTask} : s.running s.py.transport.worker = true →
      Branch s task .startWorker .loopStart

/-- Everything a statement under the lock can do. -/
inductive Statement (s : MqttState) (h : Holder) : MqttState → List MqttOut → Prop
  | branch {pc : LifecyclePc} : Branch s h.task h.pc pc → Statement s h (s.goto h pc) []
  | disconnected : h.task = .disconnect → h.pc = .afterStop → Statement s h s.release []
  | raised {err : PyError} : h.pc = .afterStop ∨ h.pc = .startTransport ∨ h.pc = .loopStart →
      Statement s h s.release [.connectRaised err]
  | stopBegin : h.pc = .stopBegin → Statement s h
      ({ s with py := { s.py with
          transport := { s.py.transport with stopping := true },
          session := { s.py.session with connected := false } } }.goto h .stopSignal)
      [.shutdown (h.task = .disconnect) s.py.transport.client]
  | stopSignal : h.pc = .stopSignal → Statement s h
      ((s.setTransport { s.py.transport with workerStop := true }).goto h .stopSentinel) []
  | stopSentinel {inbox : List (Option InboxEntry)} : h.pc = .stopSentinel →
      inbox = s.py.inbox ++ [none] ∨ inbox = s.py.inbox → Statement s h
      ({ s with py := { s.py with inbox := inbox } }.goto h .probeWorker) []
  | reapWorker {worker : Option Nat} : h.pc = .reapWorker →
      worker = (if s.running s.py.transport.worker then s.py.transport.worker else none) →
      Statement s h ((s.setTransport { s.py.transport with worker := worker }).goto h .reapLoop) []
  | reapLoop {thread : Option Nat} : h.pc = .reapLoop →
      thread =
        (if s.running s.py.transport.loopThread then s.py.transport.loopThread else none) →
      Statement s h
        ((s.setTransport { s.py.transport with loopThread := thread }).goto h .retire) []
  | retire : h.pc = .retire → s.py.transport.worker = none → s.py.transport.loopThread = none →
      Statement s h
      ({ s with py := { s.py with
          transport := { s.py.transport with client := none },
          session := { s.py.session with diagnosticSocket := none,
                                         pendingPingreqGeneration := none } } }.goto h .freshInbox)
      [.retired]
  | freshInbox : h.pc = .freshInbox → Statement s h
      ({ s with py := { s.py with inbox := [] } }.goto h .unstop) []
  | unstop : h.pc = .unstop → Statement s h
      ((s.setTransport { s.py.transport with stopping := false }).goto h .afterStop) []
  | startTransport : h.pc = .startTransport → Statement s h
      ({ s with py := { s.py with
                  transport := { s.py.transport with client := some s.fresh, stopping := false },
                  session := { s.py.session with connected := false } },
                fresh := s.fresh + 1 }.goto h .startWorker)
      [.started s.fresh]
  | startWorker : h.pc = .startWorker → s.running s.py.transport.worker = false → Statement s h
      ({ { s with fresh := s.fresh + 1 }.setTransport
          { s.py.transport with workerStop := false, worker := some s.fresh } with
          live := s.live ++ [Thread.mk s.fresh (.decoder (.top 0))] }.goto h .loopStart)
      [.workerStarted s.fresh]
  | noWorker : h.pc = .startWorker → s.running s.py.transport.worker = false → Statement s h
      ({ s with fresh := s.fresh + 1 }.setTransport
        { s.py.transport with workerStop := false, worker := some s.fresh }).release
      [.connectRaised (.other "worker")]
  | loopStart {t : Nat} : h.pc = .loopStart → s.py.transport.client = some t → Statement s h
      ({ s with fresh := s.fresh + 1,
                live := s.live ++ [Thread.mk s.fresh (.network t)] }.goto h .keepThread)
      [.loopStarted t s.fresh]
  | loopRefused : h.pc = .loopStart → Statement s h
      (s.setTransport { s.py.transport with workerStop := true }).release
      [.connectRaised .mqttError]
  | keepThread : h.pc = .keepThread → Statement s h
      ((s.setTransport { s.py.transport with
        loopThread := s.py.transport.client.bind s.networkThread }).goto h .leaving) []
  | leaving : h.pc = .leaving → Statement s h
      { s.release with readers := s.readers ++ [some ⟨s.py.transport.client, 0⟩] } []

variable {s s' : MqttState} {h : Holder} {outcome : CallOutcome} {out : List MqttOut}

/-- The two statements that depend on who holds the lock. -/
theorem entry_statement (hpc : h.pc = .entered ∨ h.pc = .afterStop)
    (hstep : s.lifecycleStep h outcome = some (s', out)) : Statement s h s' out := by
  obtain ⟨task, pc⟩ := h
  rcases hpc with rfl | rfl
  -- `connect` has the choice
  · cases task with
    | disconnect =>
      obtain ⟨rfl, rfl⟩ := Prod.mk.inj (Option.some.inj hstep)
      exact .branch .disconnects
    | connect =>
      obtain ⟨rfl, rfl⟩ := Prod.mk.inj (Option.some.inj hstep)
      split
      · rename_i hstop
        exact .branch (.mustStop hstop)
      · rename_i hstop
        rw [Bool.not_eq_true] at hstop
        split
        · rename_i hclient
          exact .branch (.mustStart hstop hclient)
        · rename_i hclient
          exact .branch (.owned hstop hclient)
  -- the stop is over
  · cases task with
    | disconnect =>
      obtain ⟨rfl, rfl⟩ := Prod.mk.inj (Option.some.inj hstep)
      exact .disconnected rfl rfl
    | connect =>
      simp only [lifecycleStep] at hstep
      split at hstep <;> obtain ⟨rfl, rfl⟩ := Prod.mk.inj (Option.some.inj hstep)
      · exact .raised (.inl rfl)
      · rename_i hclient
        exact .branch (.stopped (not_not.mp hclient))

/-- The statements of `_start_transport`. -/
theorem startStep_statement (hstep : s.startStep h outcome h.pc = some (s', out)) :
    Statement s h s' out := by
  obtain ⟨task, pc⟩ := h
  cases pc <;> simp only [startStep, reduceCtorEq] at hstep
  case startTransport =>
    split at hstep <;> obtain ⟨rfl, rfl⟩ := Prod.mk.inj (Option.some.inj hstep)
    · exact .raised (.inr (.inl rfl))
    · exact .startTransport rfl
  case startWorker =>
    split at hstep
    · rename_i hrunning
      obtain ⟨rfl, rfl⟩ := Prod.mk.inj (Option.some.inj hstep)
      exact .branch (.hasWorker hrunning)
    · rename_i hidle
      rw [Bool.not_eq_true] at hidle
      split at hstep <;> obtain ⟨rfl, rfl⟩ := Prod.mk.inj (Option.some.inj hstep)
      · exact .noWorker rfl hidle
      · exact .startWorker rfl hidle
  case loopStart =>
    -- the call succeeds, is refused, or raises; without a client object there is no call
    split at hstep
    · rename_i t hclient
      obtain ⟨rfl, rfl⟩ := Prod.mk.inj (Option.some.inj hstep)
      exact .loopStart rfl hclient
    · obtain ⟨rfl, rfl⟩ := Prod.mk.inj (Option.some.inj hstep)
      exact .loopRefused rfl
    · obtain ⟨rfl, rfl⟩ := Prod.mk.inj (Option.some.inj hstep)
      exact .raised (.inr (.inr rfl))
    · cases hstep
  case keepThread =>
    obtain ⟨rfl, rfl⟩ := Prod.mk.inj (Option.some.inj hstep)
    exact .keepThread rfl

/-- The statements of `_stop_transport`. -/
theorem stopStep_statement (hstep : s.stopStep h h.pc = some (s', out)) :
    Statement s h s' out := by
  obtain ⟨task, pc⟩ := h
  cases pc <;> simp only [stopStep, reduceCtorEq] at hstep
  case retire =>
    -- both threads dead, or one of them timed out
    split at hstep <;> obtain ⟨rfl, rfl⟩ := Prod.mk.inj (Option.some.inj hstep)
    · rename_i hdead
      exact .retire rfl hdead.1 hdead.2
    · rename_i hkept
      exact .branch (.timedOut hkept)
  all_goals obtain ⟨rfl, rfl⟩ := Prod.mk.inj (Option.some.inj hstep)
  case stopBegin => exact .stopBegin rfl
  case stopSignal => exact .stopSignal rfl
  case stopSentinel =>
    -- the inbox has room for the sentinel or not
    refine .stopSentinel rfl ?_
    split
    · exact .inl rfl
    · exact .inr rfl
  case probeWorker => exact .branch .probed
  case probeLoop joins =>
    split
    · exact .branch .joining
    · exact .branch .noJoins
  case joining => exact .branch .joined
  case reapWorker => exact .reapWorker rfl rfl
  case reapLoop => exact .reapLoop rfl rfl
  case freshInbox => exact .freshInbox rfl
  case unstop => exact .unstop rfl

theorem lifecycleStep_statement (hstep : s.lifecycleStep h outcome = some (s', out)) :
    Statement s h s' out := by
  obtain ⟨task, pc⟩ := h
  cases pc
  case entered => exact entry_statement (.inl rfl) hstep
  case afterStop => exact entry_statement (.inr rfl) hstep
  case leaving =>
    obtain ⟨rfl, rfl⟩ := Prod.mk.inj (Option.some.inj hstep)
    exact .leaving rfl
  case startTransport | startWorker | loopStart => exact startStep_statement hstep
  case keepThread =>
    have hkeep : s.startStep ⟨task, .keepThread⟩ outcome .keepThread = some (s', out) := hstep
    exact startStep_statement hkeep
  all_goals exact stopStep_statement hstep

end MqttState

end McpVenusOs
