/-
  McpVenusOs.Mqtt.Stale

  Retired transports do not interfere.  A callback of a client object that is
  not the current one, or that arrives while stopping, is a step to the same
  state without output, so a run without these callbacks is the same run; an
  inbox entry whose transport is no longer current is decoded to nothing.
-/

import McpVenusOs.Mqtt.SingleTransport

namespace McpVenusOs

open Py Machine

namespace MqttState

variable {env : MqttEnv} {s s' : MqttState} {e : MqttEvent} {out log : List MqttOut}

/-- A callback invoked by a client object that is not the current `self.client`,
    or while `_stopping` is set. -/
def staleCallback (s : MqttState) : MqttEvent → Bool
  | .callback t _ => !s.py.transport.current t
  | _ => false

/-- Each of the seven callbacks checks its owner before anything else. -/
theorem callbackStep_stale {t : Nat} (h : s.py.transport.current t = false) (cb : PahoCallback) :
    s.callbackStep env t cb = (s, []) := by
  cases cb with
  | connect accepted => simp [callbackStep, onConnect, h]
  | disconnect => simp [callbackStep, onDisconnect, h]
  | log message kernel => simp [callbackStep, onLog, h]
  | socketOpen sock clientSocket kernel => simp [callbackStep, onSocketOpen, h]
  | socketUnregisterWrite sock clientSocket wantWrite kernel =>
      simp [callbackStep, onSocketUnregisterWrite, h]
  | socketClose sock kernel => simp [callbackStep, onSocketClose, h]
  | message msg => simp [callbackStep, onMessage, h]

theorem step_stale (h : s.staleCallback e = true) : s.step env e = some (s, []) := by
  cases e with
  | callback t cb =>
      have ht : s.py.transport.current t = false := by simpa [staleCallback] using h
      simp only [step, callbackStep_stale ht]
  | _ => cases h

/-! ## Stale inbox entries -/

/-- A stale entry is taken, and nothing else: the fields stay as they are and
    the worker goes on to the next message without a notification. -/
theorem step_holding_stale {tid processed : Nat} {entry : InboxEntry}
    (hpc : s.decoderPc tid = some (.holding processed entry))
    (hstale : s.py.transport.current entry.client = false) (accepted : Bool) :
    ∃ s', s.step env (.decoder tid accepted) = some (s', [.decoded entry false]) ∧
      s'.py = s.py ∧ s'.decoderPc tid = some (.afterMessage processed) := by
  have hstep : decoderStep env s.now accepted s.py (.holding processed entry) =
      (some (.afterMessage processed), s.py, [.decoded entry false]) := by
    simp only [decoderStep, MqttClient.handleMessage_stale hstale, hstale]
  refine ⟨{ s with live := advance s.live tid (some (.afterMessage processed)) }, ?_, rfl,
    decoderPc_advance hpc _ s.py⟩
  simp only [step, hpc, Option.map_some, hstep]

end MqttState

open MqttState

/-- Deleting every stale callback from a run leads to the same state with the
    same outputs; a stale inbox entry changes no field and notifies nobody. -/
theorem retired_transports_noninterference {env : MqttEnv} {es : List MqttEvent}
    {log : List MqttOut} {s : MqttState} (h : Run (mqttSystem env) es log s) :
    Run (mqttSystem env) ((mqttSystem env).strip staleCallback {} es) log s ∧
      ∀ tid accepted processed entry, s.decoderPc tid = some (.holding processed entry) →
        s.py.transport.current entry.client = false →
        ∃ s', s.step env (.decoder tid accepted) = some (s', [.decoded entry false]) ∧
          s'.py = s.py ∧ s'.decoderPc tid = some (.afterMessage processed) :=
  ⟨path_of_exec (System.exec_strip (fun _ _ => step_stale) h.exec_eq),
    fun _ accepted _ _ hpc hstale => step_holding_stale hpc hstale accepted⟩

/-- Client 0 is connected; client 7, never owned, and client 0 during its
    shutdown call back in vain. -/
theorem retired_transports_noninterference_mixed :
    let fresh : List MqttEvent := connectSchedule ++ [.callback 0 (.connect true)]
    let stopping : List MqttEvent := .acquire .disconnect :: List.replicate 2 (.lifecycle .ok)
    ∃ log s, Run (mqttSystem fixtureEnv)
        (fresh ++ [.callback 7 .disconnect] ++ stopping ++
          [.callback 0 (.message ⟨"N/testportal/battery/512/Soc", [55], false⟩)]) log s ∧
      Run (mqttSystem fixtureEnv) (fresh ++ stopping) log s := by
  have hrun : ∃ s log, (mqttSystem fixtureEnv).exec {} ((connectSchedule ++
      [.callback 0 (.connect true)]) ++ [.callback 7 .disconnect] ++
      (.acquire .disconnect :: List.replicate 2 (.lifecycle .ok)) ++
      [.callback 0 (.message ⟨"N/testportal/battery/512/Soc", [55], false⟩)]) =
        some (s, log) := ⟨_, _, rfl⟩
  obtain ⟨s, log, hexec⟩ := hrun
  exact ⟨log, s, path_of_exec hexec, (retired_transports_noninterference (path_of_exec hexec)).1⟩

end McpVenusOs
