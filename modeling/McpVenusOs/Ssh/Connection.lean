/-
  McpVenusOs.Ssh.Connection

  The one connection of `CerboSSHClient` under any interleaving of its methods.

  `_ensure_conn` and `_close_connection` hold `_connection_lock`; a command runs
  without it.  `ensure` takes two turns when it has to connect: the task takes
  the lock and awaits the handshake, and a later turn ends the handshake and
  releases the lock.  Closing, and returning an open connection, have no await
  inside the lock, so they are one turn with the lock free.

  `asyncssh.connect` returns an open connection or leaves nothing behind;
  `close()` closes; the peer may drop any open connection at any time, and
  `is_closed()` tells.  The connections that are open at the other end are
  `opened`; the client sees of them only what `is_closed` of its own tells.
-/

import McpVenusOs.Ssh.Client

namespace McpVenusOs

open Py Program Machine

namespace Ssh

/-! ## The methods -/

inductive ClientCall
  | run (command : String) (timeout : Option PyFloat)
  | enableRootPassword (password : String)
  | close

def ClientCall.body (cfg : SSHConfig) : ClientCall → SshProgram (Option Fields)
  | .run command timeout => do
    let out ← Client.run cfg command timeout
    return some out.fields
  | .enableRootPassword password => do
    let out ← Client.enableRootPassword password
    return some out.fields
  | .close => do
    Client.close
    return none

/-! ## The connection -/

structure ConnState where
  /-- `_conn` -/
  conn : Option Nat := none
  /-- The established connections that are not closed. -/
  opened : List Nat := []
  /-- The number of the next handshake that succeeds. -/
  fresh : Nat := 0
  /-- The task that awaits a handshake with `_connection_lock` held. -/
  lock : Option Nat := none

inductive ConnOut
  | established (c : Nat)
  | closed (c : Nat)
  | dropped (c : Nat)
  deriving DecidableEq

def ConnOut.establishedConn : ConnOut → Option Nat
  | .established c => some c
  | _ => none

/-- The peer drops a connection. -/
inductive ConnEvent
  | drop (c : Nat)

namespace ConnState

/-- `_conn`, if it is there and not closed. -/
def current (w : ConnState) : Option Nat := w.conn.filter (· ∈ w.opened)

/-- `asyncssh.connect` has returned to the task that holds the lock. -/
def establish (w : ConnState) : ConnState where
  conn := some w.fresh
  opened := w.fresh :: w.opened
  fresh := w.fresh + 1
  lock := none

/-- One turn of `_ensure_conn` in task `i`, with the end of its handshake. -/
def ensureTurn (w : ConnState) (i : Nat) (handshake : Except SshExc Nat) :
    Option (ConnState × Option (Except SshExc Nat) × List ConnOut) :=
  if w.lock = some i then
    match handshake with
    | .ok _ => some (w.establish, some (.ok w.fresh), [.established w.fresh])
    | .error e => some ({ w with lock := none }, some (.error e), [])
  else if w.lock = none then
    match w.current with
    | some c => some (w, some (.ok c), [])
    | none => some ({ w with lock := some i }, none, [])
  else none

/-- Forget `_conn` and close it. -/
def forget (w : ConnState) (c : Nat) : ConnState :=
  { w with conn := none, opened := w.opened.erase c }

/-- `_close_connection`, with the lock free. -/
def closeTurn (w : ConnState) (expected : Option Nat) :
    Option (ConnState × Option Unit × List ConnOut) :=
  if w.lock = none then
    match w.conn with
    | some c =>
      if expected = none ∨ expected = some c then some (w.forget c, some (), [.closed c])
      else some (w, some (), [])
    | none => some (w, some (), [])
  else none

/-- How an operation goes on; what the other end answers is the schedule's. -/
def answer (w : ConnState) (i : Nat) :
    (o : SshOp) → ((o : SshOp) → SshResp o) →
      Option (ConnState × Option (SshResp o) × List ConnOut)
  | .ensure, x => w.ensureTurn i (x .ensure)
  | .close expected, _ => w.closeTurn expected
  | .exec conn command input timeout, x => some (w, some (x (.exec conn command input timeout)), [])
  | .monotonic, x => some (w, some (x .monotonic), [])
  | .dial host port, x => some (w, some (x (.dial host port)), [])
  | .token, x => some (w, some (x .token), [])

/-- `async with` releases the lock of a cancelled task. -/
def cancel (w : ConnState) (i : Nat) : ConnState :=
  if w.lock = some i then { w with lock := none } else w

end ConnState

def connWorld :
    Pool.World ConnState SshOp SshResp ConnEvent ((o : SshOp) → SshResp o) ConnOut where
  init := {}
  env w e := match e with
    | .drop c =>
      if c ∈ w.opened then some ({ w with opened := w.opened.erase c }, [.dropped c]) else none
  answer := ConnState.answer
  cancel := ConnState.cancel

abbrev ClientEvent : Type := Pool.Event ClientCall ConnEvent ((o : SshOp) → SshResp o)

abbrev ClientOut : Type := Pool.Out ClientCall SshOp SshResp PyError (Option Fields) ConnOut

abbrev ClientState : Type := Pool.State ConnState ClientCall SshOp SshResp PyError (Option Fields)

abbrev ClientTask : Type := Pool.Task ClientCall SshOp SshResp PyError (Option Fields)

/-- Any number of calls of the methods, at any time. -/
def clientSystem (cfg : SSHConfig) := Pool.system connWorld (ClientCall.body cfg)

/-! ## One turn -/

section Turns

variable {w w' : ConnState} {i : Nat} {o : SshOp} {x : (o : SshOp) → SshResp o}
  {r : Option (SshResp o)} {out : List ConnOut}

/-- Everything a turn of an operation can do to the connection. -/
theorem ConnState.answer_cases (h : w.answer i o x = some (w', r, out)) :
    (w' = w ∧ (o = .ensure → w.lock ≠ some i) ∧ r.isSome = true ∧ out = []) ∨
    (o = .ensure ∧ w.lock = none ∧ w.current = none ∧ w' = { w with lock := some i } ∧
      r = none ∧ out = []) ∨
    (o = .ensure ∧ w.lock = some i ∧ w' = w.establish ∧ r.isSome = true ∧
      out = [.established w.fresh]) ∨
    (o = .ensure ∧ w.lock = some i ∧ w' = { w with lock := none } ∧ r.isSome = true ∧
      out = []) ∨
    (∃ expected c, o = .close expected ∧ w.lock = none ∧ w.conn = some c ∧
      (expected = none ∨ expected = some c) ∧ w' = w.forget c ∧ r.isSome = true ∧
      out = [.closed c]) := by
  cases o with
  | ensure =>
      simp only [answer, ensureTurn] at h
      split at h
      -- the holder of the lock: its handshake succeeds or fails
      · rename_i hlock
        split at h
        · cases h
          exact .inr (.inr (.inl ⟨rfl, hlock, rfl, rfl, rfl⟩))
        · cases h
          exact .inr (.inr (.inr (.inl ⟨rfl, hlock, rfl, rfl, rfl⟩)))
      -- another caller shares the connection, takes the free lock, or waits
      · rename_i hother
        split at h
        · rename_i hlock
          split at h
          · cases h
            exact .inl ⟨rfl, fun _ => hother, rfl, rfl⟩
          · rename_i hcurrent
            cases h
            exact .inr (.inl ⟨rfl, hlock, hcurrent, rfl, rfl, rfl⟩)
        · cases h
  | close expected =>
      simp only [answer, closeTurn] at h
      split at h
      · rename_i hlock
        split at h
        · rename_i c hconn
          split at h
          · rename_i hexpected
            cases h
            exact .inr (.inr (.inr (.inr ⟨expected, c, rfl, hlock, hconn, hexpected, rfl, rfl,
              rfl⟩)))
          · cases h
            exact .inl ⟨rfl, by simp, rfl, rfl⟩
        · cases h
          exact .inl ⟨rfl, by simp, rfl, rfl⟩
      · cases h
  | exec | monotonic | dial | token =>
      cases h
      exact .inl ⟨rfl, by simp, rfl, rfl⟩

theorem ConnState.closeTurn_responds {expected : Option Nat} {r : Option Unit}
    (h : w.closeTurn expected = some (w', r, out)) : r.isSome = true := by
  unfold closeTurn at h
  split at h
  · split at h
    · split at h <;> (cases h; rfl)
    · cases h
      rfl
  · cases h

/-- A close with an expected connection: that one if it is `_conn`, else none. -/
theorem ConnState.closeTurn_expected {c : Nat} {r : Option Unit}
    (h : w.closeTurn (some c) = some (w', r, out)) :
    (w.conn = some c ∧ w' = w.forget c) ∨ (w.conn ≠ some c ∧ w' = w) := by
  unfold closeTurn at h
  split at h
  -- only the current connection is closed
  · cases hconn : w.conn with
    | none =>
        rw [hconn] at h
        cases h
        exact .inr ⟨by simp, rfl⟩
    | some d =>
        rw [hconn] at h
        by_cases hd : c = d
        · subst hd
          simp only [or_true, ↓reduceIte] at h
          cases h
          exact .inl ⟨rfl, rfl⟩
        · simp only [reduceCtorEq, Option.some.injEq, hd, or_self, ↓reduceIte] at h
          cases h
          exact .inr ⟨by simpa using fun heq => hd heq.symm, rfl⟩
  · cases h

end Turns

/-! ## The connection invariant -/

/-- What links the tracked connection to all connections ever established. -/
structure ConnInv (log : List ConnOut) (w : ConnState) : Prop where
  tracked : ∀ c ∈ w.opened, w.conn = some c
  single : w.opened.length ≤ 1
  /-- A handshake starts, and goes on, with no open connection. -/
  locked : w.lock ≠ none → w.opened = []
  numbered : log.filterMap ConnOut.establishedConn = List.range w.fresh
  accounted : ∀ c, .established c ∈ log → c ∈ w.opened ∨ .closed c ∈ log ∨ .dropped c ∈ log

namespace ConnInv

variable {log : List ConnOut} {w : ConnState}

/-- The lock does not matter to what is open. -/
theorem set_lock (h : ConnInv log w) {lock : Option Nat} (hlock : lock ≠ none → w.opened = []) :
    ConnInv log { w with lock := lock } :=
  ⟨h.tracked, h.single, hlock, h.numbered, h.accounted⟩

theorem opened_eq (h : ConnInv log w) {c : Nat} (hc : c ∈ w.opened) : w.opened = [c] := by
  have hsingle := h.single
  match hopened : w.opened with
  | [] => simp [hopened] at hc
  | [d] => simp_all
  | _ :: _ :: _ => simp [hopened] at hsingle

/-- Without an open `_conn` nothing is open. -/
theorem opened_of_current (h : ConnInv log w) (hcurrent : w.current = none) : w.opened = [] := by
  rw [List.eq_nil_iff_forall_not_mem]
  intro c hc
  simp [ConnState.current, h.tracked c hc, hc] at hcurrent

theorem establish (h : ConnInv log w) {i : Nat} (hlock : w.lock = some i) :
    ConnInv (log ++ [.established w.fresh]) w.establish := by
  -- while the lock is held nothing is open
  have hnone : w.opened = [] := h.locked (by simp [hlock])
  refine ⟨?_, by simp [ConnState.establish, hnone], fun hne => absurd rfl hne, ?_, ?_⟩
  · intro c hc
    simp only [ConnState.establish, hnone, List.mem_singleton] at hc ⊢
    rw [hc]
  · simp [List.filterMap_append, h.numbered, ConnOut.establishedConn, ConnState.establish,
      List.range_succ]
  · intro c hc
    rcases List.mem_append.mp hc with hc | hc
    · rcases h.accounted c hc with hopen | hclosed | hdropped
      · simp [hnone] at hopen
      · exact .inr (.inl (by simp [hclosed]))
      · exact .inr (.inr (by simp [hdropped]))
    · cases List.mem_singleton.mp hc
      exact .inl (by simp [ConnState.establish])

/-- Closing or dropping a connection accounts for it. -/
theorem erase (h : ConnInv log w) {c : Nat} {conn : Option Nat} {x : ConnOut}
    (hx : x = .closed c ∨ x = .dropped c) (hconn : conn = w.conn ∨ w.conn = some c) :
    ConnInv (log ++ [x]) { w with conn := conn, opened := w.opened.erase c } := by
  have hsub : ∀ d ∈ w.opened.erase c, d ∈ w.opened ∧ d ≠ c := by
    intro d hd
    have hmem := List.mem_of_mem_erase hd
    refine ⟨hmem, ?_⟩
    rintro rfl
    simp [h.opened_eq hmem] at hd
  refine ⟨?_, (List.erase_sublist.length_le).trans h.single, ?_, ?_, ?_⟩
  · intro d hd
    obtain ⟨hmem, hne⟩ := hsub d hd
    rcases hconn with rfl | hconn
    · exact h.tracked d hmem
    · exact absurd (Option.some.inj ((h.tracked d hmem).symm.trans hconn)) hne
  · intro hlock
    change w.opened.erase c = []
    rw [h.locked hlock]
    rfl
  · rw [List.filterMap_append, h.numbered]
    rcases hx with rfl | rfl <;> simp [ConnOut.establishedConn]
  · intro d hd
    have hold : .established d ∈ log := by
      rcases hx with rfl | rfl <;> simpa using hd
    -- what is accounted for stays so; the erased one was closed or dropped
    by_cases hdc : d = c
    · subst hdc
      rcases hx with rfl | rfl
      · exact .inr (.inl (by simp))
      · exact .inr (.inr (by simp))
    · rcases h.accounted d hold with hopen | hclosed | hdropped
      · exact .inl (List.mem_erase_of_ne hdc |>.mpr hopen)
      · exact .inr (.inl (by simp [hclosed]))
      · exact .inr (.inr (by simp [hdropped]))

theorem answer (h : ConnInv log w) {i : Nat} {o : SshOp} {x : (o : SshOp) → SshResp o}
    {w' : ConnState} {r : Option (SshResp o)} {out : List ConnOut}
    (ha : w.answer i o x = some (w', r, out)) : ConnInv (log ++ out) w' := by
  rcases w.answer_cases ha with ⟨rfl, -, -, rfl⟩ | ⟨-, -, hcurrent, rfl, -, rfl⟩ |
    ⟨-, hlock, rfl, -, rfl⟩ | ⟨-, -, rfl, -, rfl⟩ | ⟨_, c, -, -, hconn, -, rfl, -, rfl⟩
  · simpa using h
  · simpa using h.set_lock fun _ => h.opened_of_current hcurrent
  · exact h.establish hlock
  · simpa using h.set_lock fun hne => absurd rfl hne
  · exact h.erase (.inl rfl) (.inr hconn)

end ConnInv

section Runs

variable {cfg : SSHConfig} {es : List ClientEvent} {log : List ClientOut} {s : ClientState}

theorem connInv (h : Run (clientSystem cfg) es log s) :
    ConnInv (log.filterMap Pool.Out.seen) s.world := by
  refine Pool.world_induct (P := ConnInv)
    ⟨by simp [connWorld], by simp [connWorld], fun _ => rfl, rfl, by simp⟩ ?_ ?_ ?_ h
  -- the peer drops a connection
  · rintro log w ⟨c⟩ w' out hinv henv
    simp only [connWorld] at henv
    split at henv
    · cases henv
      exact hinv.erase (.inr rfl) (.inl rfl)
    · cases henv
  · intro log w i o x w' r out hinv ha
    exact hinv.answer ha
  · intro log w i hinv
    -- a cancelled handshake leaves the lock
    change ConnInv log (w.cancel i)
    unfold ConnState.cancel
    split
    · exact hinv.set_lock fun hne => absurd rfl hne
    · exact hinv

/-- A task that is in its handshake, and holds the lock. -/
def Handshaking (t : ClientTask) : Prop := ∃ k, t.code = .op .ensure k

/-- The lock is never left behind: its holder is alive and in its handshake. -/
theorem lock_held (h : Run (clientSystem cfg) es log s) {i : Nat} (hlock : s.world.lock = some i) :
    ∃ t, s.tasks[i]? = some (some t) ∧ Handshaking t := by
  revert i
  refine h.invariant (P := fun s : ClientState => ∀ {i : Nat}, s.world.lock = some i →
    ∃ t, s.tasks[i]? = some (some t) ∧ Handshaking t) (fun hlock => by cases hlock) ?_
  rintro s e s' out ih - hstep j hlock
  rcases Pool.step_cases hstep with ⟨⟨c⟩, w', eo, -, henv, rfl, -⟩ | ⟨call, -, rfl, -⟩ |
    ⟨i, -, rfl, -⟩ | ⟨i, x, t, r, -, ht, hcode, rfl, -⟩ |
    ⟨i, x, t, o, k, w', eo, -, ht, hcode, ha, rfl, -⟩ |
    ⟨i, x, t, o, k, w', r, eo, -, ht, hcode, ha, rfl, -⟩
  · simp only [connWorld] at henv
    split at henv
    · cases henv
      exact ih hlock
    · cases henv
  -- a new task does not hold the lock
  · obtain ⟨t, ht, hshake⟩ := ih hlock
    have hj : j < s.tasks.length := (List.getElem?_eq_some_iff.mp ht).1
    exact ⟨t, by rw [List.getElem?_append_left hj, ht], hshake⟩
  · -- the cancelled task is not the holder that is left
    have hne : i ≠ j ∧ s.world.lock = some j := by
      change (s.world.cancel i).lock = some j at hlock
      unfold ConnState.cancel at hlock
      split at hlock
      · cases hlock
      · rename_i hi
        exact ⟨fun heq => hi (heq ▸ hlock), hlock⟩
    obtain ⟨t, ht, hshake⟩ := ih hne.2
    exact ⟨t, by simpa [List.getElem?_set, hne.1] using ht, hshake⟩
  -- the holder is at its handshake, so it has not returned
  · obtain ⟨t', ht', k, hk⟩ := ih hlock
    have hne : i ≠ j := by
      rintro rfl
      cases ht.symm.trans ht'
      rw [hk] at hcode
      cases hcode
    exact ⟨t', by simpa [List.getElem?_set, hne] using ht', k, hk⟩
  -- a turn that waits or takes the lock keeps the others where they are
  · rcases ConnState.answer_cases ha with ⟨-, -, hr, -⟩ | ⟨rfl, -, -, rfl, -, -⟩ |
      ⟨-, -, -, hr, -⟩ | ⟨-, -, -, hr, -⟩ | ⟨_, _, -, -, -, -, -, hr, -⟩
    · cases hr
    · cases hlock
      exact ⟨t, ht, k, hcode⟩
    · cases hr
    · cases hr
    · cases hr
  -- an answered turn is not the holder's, or it would have given the lock back
  · have hheld : s.world.lock = some j ∧ i ≠ j := by
      rcases ConnState.answer_cases ha with ⟨rfl, hother, -, -⟩ | ⟨-, -, -, -, hr, -⟩ |
        ⟨-, -, rfl, -, -⟩ | ⟨-, -, rfl, -, -⟩ | ⟨_, _, rfl, hfree, -, -, rfl, -, -⟩
      · refine ⟨hlock, ?_⟩
        rintro rfl
        obtain ⟨t', ht', k', hk⟩ := ih hlock
        cases ht.symm.trans ht'
        obtain ⟨rfl, -⟩ := Program.op.inj (hcode.symm.trans hk)
        exact hother rfl hlock
      · cases hr
      · cases hlock
      · cases hlock
      · rw [show (s.world.forget _).lock = s.world.lock from rfl, hfree] at hlock
        cases hlock
    obtain ⟨t', ht', hshake⟩ := ih hheld.1
    exact ⟨t', by simpa [List.getElem?_set, hheld.2] using ht', hshake⟩

end Runs

/-! ## What a task closes -/

/-- The last operation was a command on `c`, and it failed. -/
def FailedOn (c : Nat) (h : SshTrace) : Prop :=
  ∃ before command input timeout e, h = before ++ [⟨.exec c command input timeout, .error e⟩]

/-- `close()` alone closes whatever there is; the other methods close only the
    connection their command has just failed on. -/
def closesOwn (call : ClientCall) (h : SshTrace) : SshOp → Prop
  | .close none => call = .close
  | .close (some c) => call ≠ .close ∧ FailedOn c h
  | _ => True

section Closes

variable {call : ClientCall} {h : SshTrace} {α : Type}
  {Q : SshTrace → Except PyError α → Prop}

theorem wp_closeFailed {conn : Option Nat} {text : α}
    (hclose : ∀ c, conn = some c → closesOwn call h (.close (some c))) :
    wp (closesOwn call) (fun _ _ => True) h (do
      Client.closeFailed conn
      return text) := by
  cases conn with
  | none => trivial
  | some c => exact ⟨hclose c rfl, fun _ => trivial⟩

theorem wp_recoverRun {conn : Option Nat} (e : SshExc)
    (hclose : ∀ c, conn = some c → closesOwn call h (.close (some c))) :
    wp (closesOwn call) (fun _ _ => True) h (Client.recoverRun conn e) := by
  cases e with
  | permissionDenied text => trivial
  | transport text => exact wp_closeFailed hclose
  | other text => trivial

theorem wp_recoverPassword {conn : Option Nat} (e : SshExc)
    (hclose : ∀ c, conn = some c → closesOwn call h (.close (some c))) :
    wp (closesOwn call) (fun _ _ => True) h (Client.recoverPassword conn e) := by
  cases e with
  | permissionDenied text | transport text => exact wp_closeFailed hclose
  | other text => trivial

/-- A connection that the command before has failed on. -/
theorem closesOwn_failed (hcall : call ≠ .close) {conn : Nat} {command : String}
    {input : Option String} {timeout : Option PyFloat} {e : SshExc} (c : Nat)
    (hc : some conn = some c) :
    closesOwn call (h ++ [⟨.exec conn command input timeout, .error e⟩]) (.close (some c)) := by
  cases hc
  exact ⟨hcall, h, command, input, timeout, e, rfl⟩

theorem wp_run (cfg : SSHConfig) (command : String) (timeout : Option PyFloat)
    (hcall : call ≠ .close) :
    wp (closesOwn call) (fun _ _ => True) h (Client.run cfg command timeout) := by
  rw [Client.run, wp_perform_bind]
  refine ⟨trivial, fun started => ?_⟩
  rw [wp_perform_bind]
  refine ⟨trivial, fun connected => ?_⟩
  cases connected with
  | error e => exact wp_recoverRun e (by simp)
  | ok conn =>
      simp only
      rw [wp_perform_bind]
      refine ⟨trivial, fun finished => ?_⟩
      cases finished with
      | error e => exact wp_recoverRun e fun c hc => closesOwn_failed hcall c hc
      | ok result => exact ⟨trivial, fun _ => trivial⟩

theorem wp_enableRootPassword (password : String) (hcall : call ≠ .close) :
    wp (closesOwn call) (fun _ _ => True) h (Client.enableRootPassword password) := by
  rw [Client.enableRootPassword, wp_perform_bind]
  refine ⟨trivial, fun connected => ?_⟩
  cases connected with
  | error e => exact wp_recoverPassword e (by simp)
  | ok conn =>
      simp only
      rw [wp_perform_bind]
      refine ⟨trivial, fun finished => ?_⟩
      cases finished with
      | error e => exact wp_recoverPassword e fun c hc => closesOwn_failed hcall c hc
      | ok result => trivial

theorem wp_clientBody (cfg : SSHConfig) (call : ClientCall) :
    wp (closesOwn call) (fun _ _ => True) [] (call.body cfg) := by
  cases call with
  | run command timeout =>
      rw [ClientCall.body, wp_bind]
      refine wp_mono (fun _ _ hI => hI) ?_ (wp_run cfg command timeout (by simp))
      rintro h (_ | _) - <;> trivial
  | enableRootPassword password =>
      rw [ClientCall.body, wp_bind]
      refine wp_mono (fun _ _ hI => hI) ?_ (wp_enableRootPassword password (by simp))
      rintro h (_ | _) - <;> trivial
  | close => exact ⟨rfl, fun _ => trivial⟩

end Closes

/-! ## Every run -/

/-- The task in slot `i` is about to close. -/
def ClosesNext (s : ClientState) (i : Nat) (t : ClientTask) (expected : Option Nat) : Prop :=
  s.tasks[i]? = some (some t) ∧ ∃ k, t.code = .op (.close expected) k

/-- What one step does to the connections. -/
structure StepKeeps (s : ClientState) (e : ClientEvent) (s' : ClientState) : Prop where
  /-- The failure of a command closes and forgets the connection of the command
      if that is still `_conn`, and changes nothing otherwise. -/
  failed : ∀ i x t c, e = .resume i x → ClosesNext s i t (some c) →
    t.call ≠ .close ∧ FailedOn c t.trace ∧
      (s.world.conn = some c ∧ s'.world.conn = none ∧ s'.world.opened = [] ∨
        s.world.conn ≠ some c ∧ s'.world = s.world)
  /-- A failed or cancelled handshake releases the lock and changes nothing else. -/
  handshake : ∀ i, s.world.lock = some i →
    (e = .cancel i ∨ ∃ x exc, e = .resume i x ∧ x .ensure = .error exc) →
      s'.world = { s.world with lock := none }
  /-- An open connection stays open and tracked, until the peer drops it,
      `close()` closes it, or a call closes it whose command failed on it. -/
  kept : ∀ d ∈ s.world.opened, d ∈ s'.world.opened ∧ s'.world.conn = some d ∨
    e = .env (.drop d) ∨ ∃ i x t expected, e = .resume i x ∧ ClosesNext s i t expected ∧
      (expected = none ∧ t.call = .close ∨ expected = some d ∧ FailedOn d t.trace)

section Steps

variable {cfg : SSHConfig} {es : List ClientEvent} {log out : List ClientOut}
  {s s' : ClientState} {e : ClientEvent}

/-- A close that is taken belongs to the call that takes it. -/
theorem closesOwn_of_step (h : Run (clientSystem cfg) es log s) {i : Nat} {t : ClientTask}
    {x : (o : SshOp) → SshResp o} {expected : Option Nat} (hnext : ClosesNext s i t expected)
    (hstep : (clientSystem cfg).step s (.resume i x) = some (s', out)) :
    closesOwn t.call t.trace (.close expected) ∧
      ∃ r eo, s.world.closeTurn expected = some (s'.world, r, eo) := by
  obtain ⟨ht, k, hcode⟩ := hnext
  obtain ⟨r, eo, ha, hdid⟩ := Pool.step_resume_op hstep ht hcode
  have hturn : s.world.closeTurn expected = some (s'.world, r, eo) := ha
  obtain ⟨r', rfl⟩ := Option.isSome_iff_exists.mp (ConnState.closeTurn_responds hturn)
  exact ⟨Pool.meets_of_wp (wp_clientBody cfg) (h.snoc trivial hstep) _
    (List.mem_append_right log (hdid r' rfl)), _, eo, hturn⟩

theorem step_failed (h : Run (clientSystem cfg) es log s)
    (hstep : (clientSystem cfg).step s e = some (s', out)) {i : Nat}
    {x : (o : SshOp) → SshResp o} {t : ClientTask} {c : Nat} (he : e = .resume i x)
    (hnext : ClosesNext s i t (some c)) :
    t.call ≠ .close ∧ FailedOn c t.trace ∧
      (s.world.conn = some c ∧ s'.world.conn = none ∧ s'.world.opened = [] ∨
        s.world.conn ≠ some c ∧ s'.world = s.world) := by
  subst he
  obtain ⟨⟨hcall, hfailed⟩, r, eo, hturn⟩ := closesOwn_of_step h hnext hstep
  refine ⟨hcall, hfailed, ?_⟩
  rcases ConnState.closeTurn_expected hturn with ⟨hconn, hw⟩ | ⟨hconn, hw⟩
  · refine .inl ⟨hconn, by rw [hw]; rfl, ?_⟩
    -- what is open is `_conn`, so nothing is left
    rw [hw, List.eq_nil_iff_forall_not_mem]
    intro d hd
    have hmem := List.mem_of_mem_erase hd
    have htracked := (connInv h).tracked d hmem
    cases hconn.symm.trans htracked
    simp [ConnState.forget, (connInv h).opened_eq hmem] at hd
  · exact .inr ⟨hconn, hw⟩

theorem step_handshake (h : Run (clientSystem cfg) es log s)
    (hstep : (clientSystem cfg).step s e = some (s', out)) {i : Nat}
    (hlock : s.world.lock = some i)
    (he : e = .cancel i ∨ ∃ x exc, e = .resume i x ∧ x .ensure = .error exc) :
    s'.world = { s.world with lock := none } := by
  rcases he with rfl | ⟨x, exc, rfl, hx⟩
  · cases hstep
    change s.world.cancel i = _
    rw [ConnState.cancel, if_pos hlock]
  · -- the holder of the lock is in its handshake, and `x` ends it
    obtain ⟨t, ht, k, hcode⟩ := lock_held h hlock
    have hanswer : s.world.answer i .ensure x =
        some ({ s.world with lock := none }, some (.error exc), []) := by
      simp only [ConnState.answer, ConnState.ensureTurn, hlock, ↓reduceIte, hx]
    obtain ⟨r, eo, ha, -⟩ := Pool.step_resume_op hstep ht hcode
    exact (Prod.mk.inj (Option.some.inj (hanswer.symm.trans ha))).1.symm

theorem step_kept (h : Run (clientSystem cfg) es log s)
    (hstep : (clientSystem cfg).step s e = some (s', out)) {d : Nat} (hd : d ∈ s.world.opened) :
    d ∈ s'.world.opened ∧ s'.world.conn = some d ∨ e = .env (.drop d) ∨
      ∃ i x t expected, e = .resume i x ∧ ClosesNext s i t expected ∧
        (expected = none ∧ t.call = .close ∨ expected = some d ∧ FailedOn d t.trace) := by
  have hinv := connInv h
  have hconn := hinv.tracked d hd
  -- something is open, so no handshake is in progress
  have hfree : s.world.lock = none := by
    by_contra hne
    simp [hinv.locked hne] at hd
  rcases Pool.step_cases hstep with ⟨⟨c⟩, w', eo, rfl, henv, rfl, -⟩ | ⟨call, -, rfl, -⟩ |
    ⟨i, -, rfl, -⟩ | ⟨i, x, t, r, -, -, -, rfl, -⟩ |
    ⟨i, x, t, o, k, w', eo, he, ht, hcode, ha, rfl, -⟩ |
    ⟨i, x, t, o, k, w', r, eo, he, ht, hcode, ha, rfl, -⟩
  · simp only [connWorld] at henv
    split at henv
    · cases henv
      by_cases hc : d = c
      · exact .inr (.inl (by rw [hc]))
      · exact .inl ⟨(List.mem_erase_of_ne hc).mpr hd, hconn⟩
    · cases henv
  · exact .inl ⟨hd, hconn⟩
  -- a cancellation closes nothing
  · left
    change d ∈ (s.world.cancel i).opened ∧ (s.world.cancel i).conn = some d
    unfold ConnState.cancel
    split <;> exact ⟨hd, hconn⟩
  · exact .inl ⟨hd, hconn⟩
  all_goals
    rcases ConnState.answer_cases ha with ⟨rfl, -⟩ | ⟨-, -, -, rfl, -⟩ | ⟨-, hlock, -⟩ |
      ⟨-, hlock, -⟩ | ⟨expected, c, rfl, -, hc, hexpected, -⟩
    · exact .inl ⟨hd, hconn⟩
    · exact .inl ⟨hd, hconn⟩
    · cases hfree.symm.trans hlock
    · cases hfree.symm.trans hlock
    · cases hc.symm.trans hconn
      subst he
      have hnext : ClosesNext s i t expected := ⟨ht, k, hcode⟩
      obtain ⟨hown, -⟩ := closesOwn_of_step h hnext hstep
      refine .inr (.inr ⟨i, x, t, expected, rfl, hnext, ?_⟩)
      rcases hexpected with rfl | rfl
      · exact .inl ⟨rfl, hown⟩
      · exact .inr ⟨rfl, hown.2⟩

/-- Under any interleaving of the methods, with failures, timeouts,
    cancellations and drops: at most one established connection is open, and it
    is `_conn`; every other one has been closed, or dropped by the peer; the lock
    is held by a live handshake or free; and each step keeps what it must. -/
theorem one_connection (h : Run (clientSystem cfg) es log s) :
    (∀ c ∈ s.world.opened, s.world.conn = some c) ∧ s.world.opened.length ≤ 1 ∧
    ((log.filterMap Pool.Out.seen).filterMap ConnOut.establishedConn).Nodup ∧
    (∀ c, .env (.established c) ∈ log → s.world.opened = [c] ∧ s.world.conn = some c ∨
      .env (.closed c) ∈ log ∨ .env (.dropped c) ∈ log) ∧
    (∀ i, s.world.lock = some i → ∃ t, s.tasks[i]? = some (some t) ∧ Handshaking t) ∧
    ∀ e s' out, (clientSystem cfg).step s e = some (s', out) → StepKeeps s e s' := by
  have hinv := connInv h
  have hseen : ∀ x : ConnOut, x ∈ log.filterMap Pool.Out.seen ↔ .env x ∈ log := by
    intro x
    rw [List.mem_filterMap]
    constructor
    · rintro ⟨y, hy, hyx⟩
      cases y with
      | env z => cases hyx; exact hy
      | did => cases hyx
      | returned => cases hyx
    · exact fun hx => ⟨_, hx, rfl⟩
  refine ⟨hinv.tracked, hinv.single, hinv.numbered ▸ List.nodup_range, fun c hc => ?_,
    fun i hlock => lock_held h hlock, fun e s' out hstep => ?_⟩
  · rcases hinv.accounted c ((hseen _).mpr hc) with hopen | hclosed | hdropped
    · exact .inl ⟨hinv.opened_eq hopen, hinv.tracked c hopen⟩
    · exact .inr (.inl ((hseen _).mp hclosed))
    · exact .inr (.inr ((hseen _).mp hdropped))
  · exact ⟨fun i x t c he hnext => step_failed h hstep he hnext,
      fun i hlock he => step_handshake h hstep hlock he, fun d hd => step_kept h hstep hd⟩

end Steps

/-- Every command fails. -/
def failingReplies : (o : SshOp) → SshResp o
  | .exec _ _ _ _ => .error (.transport "disconnected")
  | o => fixtureReplies o

/-- A command is under way on connection 0; `close()` closes that, and another
    command connects anew; then the first command fails. -/
def replacementSchedule : List ClientEvent :=
  .spawn (.run "old" none) :: List.replicate 3 (.resume 0 fixtureReplies) ++
    .spawn .close :: List.replicate 2 (.resume 1 fixtureReplies) ++
    .spawn (.run "new" none) :: List.replicate 3 (.resume 2 fixtureReplies) ++
    [.resume 0 failingReplies]

/-- Connection 1 is the one, and task 0 is about to close connection 0. -/
def replaced (s : ClientState) : Bool :=
  decide (s.world.conn = some 1) && decide (s.world.opened = [1]) &&
    match s.tasks[0]? with
    | some (some t) => match t.code with
      | .op (.close (some 0)) _ => true
      | _ => false
    | _ => false

/-- The late failure leaves the replacement open. -/
theorem one_connection_replacement : ∃ log s s' out,
    Run (clientSystem fixtureSshConfig) replacementSchedule log s ∧
    (clientSystem fixtureSshConfig).step s (.resume 0 fixtureReplies) = some (s', out) ∧
    s'.world.conn = some 1 ∧ s'.world.opened = [1] := by
  let m := clientSystem fixtureSshConfig
  have hrun : (m.exec m.init replacementSchedule).any (fun r => replaced r.1 &&
      (m.step r.1 (.resume 0 fixtureReplies)).isSome) = true := by
    decide +kernel
  obtain ⟨⟨s, log⟩, hexec, hrun⟩ := Option.any_eq_true _ _ |>.mp hrun
  obtain ⟨hreplaced, hsome⟩ := Bool.and_eq_true _ _ |>.mp hrun
  obtain ⟨⟨s', out⟩, hstep⟩ := Option.isSome_iff_exists.mp hsome
  simp only [replaced, Bool.and_eq_true, decide_eq_true_eq] at hreplaced
  obtain ⟨⟨hconn, hopened⟩, htask⟩ := hreplaced
  obtain ⟨-, -, -, -, -, hsteps⟩ := one_connection (path_of_exec hexec)
  split at htask
  · rename_i t ht
    split at htask
    · rename_i k hcode
      obtain ⟨-, -, hfailed⟩ := (hsteps _ _ _ hstep).failed 0 _ t 0 rfl ⟨ht, k, hcode⟩
      rcases hfailed with ⟨hzero, -⟩ | ⟨-, hsame⟩
      · rw [hconn] at hzero
        cases hzero
      · exact ⟨log, s, s', out, path_of_exec hexec, hstep, by rw [hsame, hconn],
          by rw [hsame, hopened]⟩
    · cases htask
  · cases htask

end Ssh

end McpVenusOs
