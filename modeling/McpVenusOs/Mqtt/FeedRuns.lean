/-
  McpVenusOs.Mqtt.FeedRuns

  Runs of `_maintain_read_feed`: one call after the other, with everything else
  the client does in between.

  A call performs its operations one at a time.  Between two of them other
  threads may change every field but the schedule, which is the worker's own,
  and the connection epoch, which only `_on_connect` advances.  `Progress` is
  what the operations of a call amount to: when it started, in which epoch, and
  what it has attempted, selected and sent.
-/

import McpVenusOs.Mqtt.ReadFeed
import McpVenusOs.Mqtt.RefreshTopics
import McpVenusOs.Lib.Machine

namespace McpVenusOs

open Py Program Machine

/-! ## The system -/

abbrev FeedTrace : Type := Trace FeedOp FeedResp

/-- A call in progress: the schedule it was started with, what it has done, and
    what is left of it. -/
structure FeedCall where
  start : Feed
  trace : FeedTrace
  rest : FeedProgram Unit

structure FeedState where
  now : ℚ := 0
  py : MqttClient := {}
  call : Option FeedCall := none

inductive FeedEvent
  | tick (dt : ℚ)
  /-- Other threads change the fields. -/
  | change (py : MqttClient)
  /-- `_on_connect` of a client object. -/
  | connect (client : Nat) (accepted : Bool)
  /-- `_maintain_read_feed()` starts. -/
  | call
  /-- The call performs an operation, or ends; `accepted` is how a publish is taken. -/
  | turn (accepted : Bool)

/-- What is seen of a run. -/
inductive FeedOut
  /-- `_on_connect` began the epoch, with these calls to the broker. -/
  | connected (epoch : Nat) (calls : List MqttOut)
  | did (start : Feed) (h : FeedTrace) (o : FeedOp) (r : FeedResp o)
  | returned (start : Feed) (h : FeedTrace)

namespace FeedState

/-- One turn of the call in progress. -/
def turn (s : FeedState) (accepted : Bool) (c : FeedCall) : FeedState × List FeedOut :=
  match c.rest with
  | .ret _ => ({ s with call := none }, [.returned c.start c.trace])
  | .raise _ => ({ s with call := none }, [.returned c.start c.trace])
  | .op o k =>
    let answer := s.py.answerFeed s.now accepted o
    ({ s with py := answer.2.1, call := some ⟨c.start, c.trace ++ [⟨o, answer.1⟩], k answer.1⟩ },
      [.did c.start c.trace o answer.1])

def step (env : MqttEnv) (s : FeedState) : FeedEvent → Option (FeedState × List FeedOut)
  | .tick dt => if 0 ≤ dt then some ({ s with now := s.now + dt }, []) else none
  | .change py =>
    if py.feed = s.py.feed ∧ py.session.connectionEpoch = s.py.session.connectionEpoch then
      some ({ s with py := py }, [])
    else none
  | .connect t accepted =>
    let r := onConnect env s.now t accepted s.py
    some ({ s with py := r.1 },
      if s.py.transport.current t && accepted then
        [.connected r.1.session.connectionEpoch r.2] else [])
  | .call =>
    match s.call with
    | none => some ({ s with call := some ⟨s.py.feed, [], maintainReadFeed env s.py.feed⟩ }, [])
    | some _ => none
  | .turn accepted => s.call.map (s.turn accepted)

end FeedState

/-- The client, whose rotation may start anywhere. -/
def feedSystem (env : MqttEnv) (cursor : Nat) : System FeedState FeedEvent FeedOut where
  init := { py := { feed := { refreshCursor := cursor } } }
  step := FeedState.step env

/-! ## Steps -/

/-- What one step amounts to. -/
inductive FeedStep (env : MqttEnv) (s : FeedState) : FeedState → List FeedOut → Prop
  /-- Time passes, other fields change, or a client object connects in vain. -/
  | other {s' : FeedState} (call : s'.call = s.call) (feed : s'.py.feed = s.py.feed)
      (epoch : s'.py.session.connectionEpoch = s.py.session.connectionEpoch) : FeedStep env s s' []
  | connected {s' : FeedState} (t : Nat) (call : s'.call = s.call) (feed : s'.py.feed = s.py.feed)
      (epoch : s'.py.session.connectionEpoch = s.py.session.connectionEpoch + 1) :
      FeedStep env s s' [.connected (s.py.session.connectionEpoch + 1)
        (connectCalls env s.py.registry.explicit t)]
  | called (idle : s.call = none) :
      FeedStep env s { s with call := some ⟨s.py.feed, [], maintainReadFeed env s.py.feed⟩ } []
  | ended {c : FeedCall} (call : s.call = some c) (rest : ∀ o k, c.rest ≠ .op o k) :
      FeedStep env s { s with call := none } [.returned c.start c.trace]
  | did {c : FeedCall} {o : FeedOp} {k : FeedResp o → FeedProgram Unit} (accepted : Bool)
      (call : s.call = some c) (rest : c.rest = .op o k) :
      FeedStep env s
        { s with py := (s.py.answerFeed s.now accepted o).2.1,
                 call := some ⟨c.start, c.trace ++ [⟨o, (s.py.answerFeed s.now accepted o).1⟩],
                   k (s.py.answerFeed s.now accepted o).1⟩ }
        [.did c.start c.trace o (s.py.answerFeed s.now accepted o).1]

theorem FeedState.step_cases {env : MqttEnv} {s s' : FeedState} {e : FeedEvent}
    {out : List FeedOut} (h : s.step env e = some (s', out)) : FeedStep env s s' out := by
  cases e with
  | tick dt =>
    simp only [FeedState.step] at h
    split at h
    · cases h
      refine .other ?_ ?_ ?_ <;> rfl
    · cases h
  | change py =>
    simp only [FeedState.step] at h
    split at h
    -- the change keeps the feed and the session
    · rename_i hsame
      cases h
      refine .other ?_ hsame.1 hsame.2
      rfl
    · cases h
  | connect t accepted =>
    cases h
    -- a retired client's callback is ignored
    cases hcurrent : s.py.transport.current t with
    | false =>
      simp only [onConnect, hcurrent, Bool.not_false, if_true, Bool.false_and]
      refine .other ?_ ?_ ?_ <;> rfl
    | true =>
      cases accepted with
      -- a refused connection opens no session
      | false =>
        simp only [onConnect, hcurrent, Session.connect, Bool.and_false]
        refine .other ?_ ?_ ?_ <;> rfl
      | true =>
        simp only [onConnect, hcurrent, Session.connect, Bool.and_true]
        refine .connected t ?_ ?_ ?_ <;> rfl
  | call =>
    simp only [FeedState.step] at h
    split at h
    · rename_i hnone
      cases h
      exact .called hnone
    · cases h
  | turn accepted =>
    obtain ⟨c, hc, hturn⟩ := Option.map_eq_some_iff.mp h
    -- the call returned, raised, or does its next operation
    unfold FeedState.turn at hturn
    split at hturn
    · rename_i hrest
      cases hturn
      exact .ended hc fun o k hop => by cases hrest.symm.trans hop
    · rename_i hrest
      cases hturn
      exact .ended hc fun o k hop => by cases hrest.symm.trans hop
    · rename_i o k hrest
      cases hturn
      exact .did accepted hc hrest

/-! ## What a call has done -/

/-- `"R/" + topic[2:]` -/
def request (topic : String) : String := "R/" ++ String.ofList (topic.toList.drop 2)

def keepaliveTopic (env : MqttEnv) : String :=
  "R/" ++ env.config.portalId.getD "None" ++ "/keepalive"

structure Progress where
  /-- The schedule, as last stored. -/
  feed : Feed
  now : ℚ := 0
  /-- The epoch of the transport it works for, if it owns one. -/
  epoch : Option Nat := none
  /-- The ownership check that has just passed. -/
  checked : Option (Nat × Nat) := none
  explicit : List String := []
  cached : List String := []
  serialSeen : Bool := false
  /-- It is past the keepalive. -/
  refreshing : Bool := false
  /-- Outcomes of the keepalives. -/
  keepalives : List Bool := []
  selections : List (List String) := []
  /-- Number of attempted reads. -/
  attempts : Nat := 0
  /-- The reads that were accepted. -/
  accepted : List String := []

namespace Progress

/-- The end of a `_publish_read`. -/
def attempted (v : Progress) (topic : String) (accepted : Bool) : Progress :=
  if v.refreshing then
    { v with checked := none, attempts := v.attempts + 1,
             accepted := if accepted then v.accepted ++ [topic] else v.accepted }
  else { v with checked := none, keepalives := v.keepalives ++ [accepted] }

def see (v : Progress) : (o : FeedOp) → FeedResp o → Progress
  | .monotonic, now => { v with now := now }
  | .begin, r => { v with epoch := r.map (·.2) }
  | .owned _ _, _ => { v with checked := none }
  | .ready t epoch, passed =>
    if passed then { v with checked := some (t, epoch) } else v.attempted "" false
  | .publish _ topic _, accepted => v.attempted topic accepted
  | .explicitPatterns, patterns => { v with refreshing := true, explicit := patterns }
  | .cachedTopics, topics => { v with cached := topics }
  | .retainedSerialSeen, seen => { v with serialSeen := seen }
  | .store feed, _ =>
    { v with feed := feed,
             selections := if v.refreshing = true ∧ feed.nextRefresh ≠ v.feed.nextRefresh then
               v.selections ++ [feed.pendingRefresh] else v.selections }

/-- The candidates of its batch. -/
def candidates (env : MqttEnv) (v : Progress) : List String :=
  match env.config.topicPrefix with
  | .error _ => []
  | .ok pre => refreshTopics env.isDigit pre
      (if v.serialSeen then v.cached ++ [serialTopic pre] else v.cached) env.contracts v.explicit

/-- It works in the epoch its schedule was made for. -/
def Current (f : Feed) (v : Progress) : Prop := ∃ e, v.epoch = some e ∧ f.maintenanceEpoch = e

end Progress

/-- What a call that started with `f` has done in `h`. -/
def progress (f : Feed) (h : FeedTrace) : Progress := observe Progress.see { feed := f } h

/-- The finished calls of a run, in order. -/
def finished (log : List FeedOut) : List Progress :=
  log.filterMap fun
    | .returned f h => some (progress f h)
    | _ => none

/-- All calls of a run, the last of them perhaps still in progress. -/
def calls (log : List FeedOut) (s : FeedState) : List Progress :=
  finished log ++ (s.call.map fun c => progress c.start c.trace).toList

end McpVenusOs
