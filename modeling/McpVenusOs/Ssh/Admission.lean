/-
  McpVenusOs.Ssh.Admission

  What is run on the Cerbo: the fixed probes, and what a call behind an open
  gate sends.

  `Sends P` bounds the commands of a program.  It is closed under sequencing, so
  each operation of the client has one rule, and a tool is read off from the
  operations it uses.
-/

import McpVenusOs.Ssh.Tools

namespace McpVenusOs

open Py Program Machine

namespace Ssh

/-- The commands of the reading tools; none of them has an argument. -/
def fixedProbes : List String :=
  ["cat /opt/victronenergy/version", probeAddresses] ++
    Client.swupdateCandidates.map Client.probeCandidate ++ Client.swupdateCandidates ++
    [Client.probeSetuphelper, Client.probeVersion, Client.probePackages]

/-- The call changes something, writes are enabled, and it is confirmed as far
    as the settings require it. -/
def Tool.Permits (env : SshEnv) (tool : Tool) : Prop :=
  env.safety.enableWrites = true ∧ ∃ confirmed, tool.changes = some confirmed ∧
    (confirmed = true ∨ env.safety.requireConfirmation = false)

/-- What admits a command, with the input that goes over its channel. -/
structure Admitted (env : SshEnv) (tool : Tool) (command : String) (input : Option String) :
    Prop where
  source : command ∈ fixedProbes ∧ input = none ∨ tool.Permits env
  verbatim : ∀ cmd timeout confirmed, tool = .cerboSshExec cmd timeout confirmed →
    command = cmd ∧ input = none ∧ tool.Permits env ∧
      ∀ pattern ∈ env.safety.sshCommandDenyPatterns, env.search pattern cmd = .ok false
  password : input.isSome = true → ∃ password confirmed, tool = .cerboEnableSsh password confirmed

theorem Admitted.fixed {env : SshEnv} {tool : Tool} {command : String} {input : Option String}
    (h : Admitted env tool command input) (hwrites : env.safety.enableWrites = false) :
    command ∈ fixedProbes ∧ input = none := by
  rcases h.source with hfixed | hpermits
  · exact hfixed
  · exact absurd hpermits.1 (by simp [hwrites])

/-! ## The client -/

/-- A command that is sent, with its input, meets `P`. -/
def Sends (P : String → Option String → Prop) : SshOp → Prop
  | .exec _ command input _ => P command input
  | _ => True

section Client

variable {P : String → Option String → Prop} {cfg : SSHConfig}

/-- The program sends only what meets `P`. -/
abbrev SendsOnly {α : Type} (P : String → Option String → Prop) (p : SshProgram α) : Prop :=
  Performs (Sends P) (fun _ => True) p

theorem sendsOnly_bind {α β : Type} {p : SshProgram α} {f : α → SshProgram β}
    (hp : SendsOnly P p) (hf : ∀ a, SendsOnly P (f a)) : SendsOnly P (p >>= f) :=
  hp.bind fun a _ => hf a

/-- An operation that is not a command. -/
theorem sendsOnly_op {o : SshOp} (h : Sends P o) : SendsOnly P (sshOp o) :=
  performs_perform h fun _ => trivial

theorem sendsOnly_closeFailed (conn : Option Nat) : SendsOnly P (Client.closeFailed conn) := by
  cases conn with
  | none => trivial
  | some c => exact sendsOnly_op trivial

theorem sendsOnly_recoverRun (conn : Option Nat) (e : SshExc) :
    SendsOnly P (Client.recoverRun conn e) := by
  cases e with
  | permissionDenied text => trivial
  | transport text => exact sendsOnly_bind (sendsOnly_closeFailed conn) fun _ => trivial
  | other text => trivial

theorem sendsOnly_recoverPassword (conn : Option Nat) (e : SshExc) :
    SendsOnly P (Client.recoverPassword conn e) := by
  cases e with
  | permissionDenied text | transport text =>
      exact sendsOnly_bind (sendsOnly_closeFailed conn) fun _ => trivial
  | other text => trivial

/-- `run` sends its command and nothing else. -/
theorem sendsOnly_run {command : String} (timeout : Option PyFloat) (h : P command none) :
    SendsOnly P (Client.run cfg command timeout) := by
  refine sendsOnly_bind (sendsOnly_op trivial) fun started => ?_
  refine sendsOnly_bind (sendsOnly_op trivial) fun connected => ?_
  cases connected with
  | error e => exact sendsOnly_recoverRun none e
  | ok conn =>
      refine sendsOnly_bind (sendsOnly_op h) fun finished => ?_
      cases finished with
      | error e => exact sendsOnly_recoverRun (some conn) e
      | ok result => exact sendsOnly_bind (sendsOnly_op trivial) fun _ => trivial

theorem sendsOnly_enableRootPassword {password : String}
    (h : P "chpasswd 2>&1" (some ("root:" ++ password ++ "\n"))) :
    SendsOnly P (Client.enableRootPassword password) := by
  refine sendsOnly_bind (sendsOnly_op trivial) fun connected => ?_
  cases connected with
  | error e => exact sendsOnly_recoverPassword none e
  | ok conn =>
      refine sendsOnly_bind (sendsOnly_op h) fun finished => ?_
      cases finished with
      | error e => exact sendsOnly_recoverPassword (some conn) e
      | ok result => trivial

theorem sendsOnly_available (mqttHost : String) : SendsOnly P (Client.available cfg mqttHost) := by
  refine sendsOnly_bind (sendsOnly_op trivial) fun started => ?_
  refine sendsOnly_bind (sendsOnly_op trivial) fun dialled => ?_
  match dialled with
  | .ok () => exact sendsOnly_bind (sendsOnly_op trivial) fun _ => trivial
  | .error (.transport text) => trivial
  | .error (.permissionDenied text) => trivial
  | .error (.other text) => trivial

theorem sendsOnly_firmwareVersion (h : P "cat /opt/victronenergy/version" none) :
    SendsOnly P (Client.firmwareVersion cfg) := by
  refine sendsOnly_bind (sendsOnly_run none h) fun out => ?_
  split <;> trivial

/-- The script that is found is one of the candidates. -/
theorem performs_swupdateScript {candidates : List String}
    (h : ∀ c ∈ candidates, P (Client.probeCandidate c) none) :
    Performs (Sends P) (fun found => ∀ c, found = some c → c ∈ candidates)
      (Client.swupdateScript cfg candidates) := by
  induction candidates with
  | nil => simp [Client.swupdateScript]
  | cons candidate rest ih =>
      refine (sendsOnly_run none (h candidate (by simp))).bind fun probe _ => ?_
      split
      · rw [performs_pure]
        rintro c ⟨⟩
        simp
      · have hrest := ih fun c hc => h c (by simp [hc])
        exact hrest.mono fun found hfound c hc => List.mem_cons_of_mem _ (hfound c hc)

/-- Both uses of the script: discover it, then send what is made of it. -/
theorem sendsOnly_withScript {use : String → SshProgram Fields} {error : Fields}
    (hprobe : ∀ c ∈ Client.swupdateCandidates, P (Client.probeCandidate c) none)
    (huse : ∀ c ∈ Client.swupdateCandidates, SendsOnly P (use c)) :
    SendsOnly P (do
      match ← Client.swupdateScript cfg Client.swupdateCandidates with
      | none => return error
      | some script => use script) := by
  refine (performs_swupdateScript hprobe).bind fun found hfound => ?_
  cases found with
  | none => trivial
  | some script => exact huse script (hfound script rfl)

theorem sendsOnly_fields {command : String} (timeout : Option PyFloat) (h : P command none) :
    SendsOnly P (do
      let out ← Client.run cfg command timeout
      return out.fields) :=
  sendsOnly_bind (sendsOnly_run timeout h) fun _ => trivial

theorem sendsOnly_setuphelperStatus (h : P Client.probeSetuphelper none)
    (hversion : P Client.probeVersion none) (hpackages : P Client.probePackages none) :
    SendsOnly P (Client.setuphelperStatus cfg) := by
  refine sendsOnly_bind (sendsOnly_run none h) fun installed => ?_
  split
  · trivial
  · exact sendsOnly_bind (sendsOnly_run none hversion) fun _ =>
      sendsOnly_bind (sendsOnly_run none hpackages) fun _ => trivial

end Client

/-! ## The tools -/

section Tools

variable {P : String → Option String → Prop} {env : SshEnv} {use : SshProgram Fields}

theorem sendsOnly_withClient (h : SendsOnly P use) : SendsOnly P (withClient env use) := by
  unfold withClient
  split
  · exact sendsOnly_bind h fun _ => trivial
  · trivial

/-- Behind the gate a tool sends only once the gate is open. -/
theorem sendsOnly_gated {operation : String} {params : Params} {confirmed : Bool}
    (h : GateOpen env.search env.safety operation params confirmed none → SendsOnly P use) :
    SendsOnly P (gated env operation params confirmed use) := by
  unfold gated
  split
  · trivial
  · trivial
  · rename_i hgate
    exact sendsOnly_withClient (h (confirmGate_eq_none hgate))

/-- A fixed probe is admitted from any call but `cerbo_ssh_exec`. -/
theorem Admitted.of_fixed {tool : Tool} {command : String} (hfixed : command ∈ fixedProbes)
    (htool : ∀ cmd timeout confirmed, tool ≠ .cerboSshExec cmd timeout confirmed) :
    Admitted env tool command none where
  source := .inl ⟨hfixed, rfl⟩
  verbatim cmd timeout confirmed heq := absurd heq (htool cmd timeout confirmed)
  password h := by cases h

/-- Behind its open gate a changing call but `cerbo_ssh_exec` may send anything;
    `cerbo_enable_ssh` alone sends an input. -/
theorem Admitted.of_permits {tool : Tool} {command : String} {input : Option String}
    (hpermits : tool.Permits env)
    (htool : ∀ cmd timeout confirmed, tool ≠ .cerboSshExec cmd timeout confirmed)
    (hinput : input.isSome = true → ∃ password confirmed,
      tool = .cerboEnableSsh password confirmed) : Admitted env tool command input where
  source := .inr hpermits
  verbatim cmd timeout confirmed heq := absurd heq (htool cmd timeout confirmed)
  password := hinput

theorem GateOpen.permits {operation : String} {params : Params} {confirmed : Bool} {tool : Tool}
    (hgate : GateOpen env.search env.safety operation params confirmed none)
    (htool : tool.changes = some confirmed) : tool.Permits env :=
  ⟨hgate.writes, confirmed, htool, hgate.confirmed⟩

/-- The command of an open `cerbo_ssh_exec` gate matches no deny pattern. -/
theorem GateOpen.undenied {command : String} {confirmed : Bool}
    (hgate : GateOpen env.search env.safety "cerbo_ssh_exec" [("command", .str command)]
      confirmed none) :
    ∀ pattern ∈ env.safety.sshCommandDenyPatterns, env.search pattern command = .ok false := by
  obtain ⟨r, hr, hallowed⟩ := hgate.command rfl
  exact validateSshCommand_allowed hr hallowed

/-- Every command of a call is admitted. -/
theorem sendsOnly_body (env : SshEnv) (tool : Tool) :
    SendsOnly (Admitted env tool) (tool.body env) := by
  cases tool with
  -- read-only tools send their fixed probes
  | cerboSshAvailable =>
      exact sendsOnly_withClient
        (sendsOnly_bind (sendsOnly_available _) fun _ => trivial)
  | cerboVersion =>
      exact sendsOnly_withClient
        (sendsOnly_firmwareVersion (.of_fixed (by simp [fixedProbes]) (by simp)))
  | cerboIp =>
      refine sendsOnly_withClient (sendsOnly_bind (sendsOnly_available _) fun probe => ?_)
      dsimp only
      split
      · refine sendsOnly_bind
          (sendsOnly_run none (.of_fixed (by simp [fixedProbes]) (by simp))) fun addrs => ?_
        split <;> trivial
      · trivial
  | cerboCheckUpdates =>
      refine sendsOnly_withClient (sendsOnly_withScript (fun c hc => ?_) fun c hc => ?_)
      · have hprobe := List.mem_map_of_mem (f := Client.probeCandidate) hc
        exact .of_fixed (by simp only [fixedProbes, List.mem_append, hprobe, true_or, or_true])
          (by simp)
      · exact sendsOnly_fields none (.of_fixed (by simp [fixedProbes, hc]) (by simp))
  | setuphelperStatus =>
      exact sendsOnly_withClient (sendsOnly_setuphelperStatus
        (.of_fixed (by simp [fixedProbes]) (by simp))
        (.of_fixed (by simp [fixedProbes]) (by simp))
        (.of_fixed (by simp [fixedProbes]) (by simp)))
  -- the writing tools send after their gate
  | cerboFirmwareUpdate confirmed =>
      refine sendsOnly_gated fun hgate => ?_
      have hpermits : (Tool.cerboFirmwareUpdate confirmed).Permits env := GateOpen.permits hgate rfl
      exact sendsOnly_withScript (fun c hc => .of_permits hpermits (by simp) (by simp))
        fun c hc => sendsOnly_fields _ (.of_permits hpermits (by simp) (by simp))
  | cerboEnableSsh password confirmed =>
      refine sendsOnly_gated fun hgate => ?_
      have hpermits : (Tool.cerboEnableSsh password confirmed).Permits env :=
        GateOpen.permits hgate rfl
      refine sendsOnly_bind ?_ fun pwd => sendsOnly_bind
        (sendsOnly_enableRootPassword (.of_permits hpermits (by simp) (by simp))) fun _ => trivial
      -- a missing password is drawn, not sent
      unfold choosePassword
      split
      · trivial
      · trivial
      · exact sendsOnly_op trivial
  | setuphelperInstallPackage package repo confirmed =>
      refine sendsOnly_gated fun hgate => ?_
      have hpermits : (Tool.setuphelperInstallPackage package repo confirmed).Permits env :=
        GateOpen.permits hgate rfl
      unfold Client.setuphelperInstallPackage
      split
      · trivial
      · split
        · trivial
        · exact sendsOnly_fields _ (.of_permits hpermits (by simp) (by simp))
  | setuphelperRemovePackage package confirmed =>
      refine sendsOnly_gated fun hgate => ?_
      have hpermits : (Tool.setuphelperRemovePackage package confirmed).Permits env :=
        GateOpen.permits hgate rfl
      unfold Client.setuphelperRemovePackage
      split
      · trivial
      · exact sendsOnly_fields _ (.of_permits hpermits (by simp) (by simp))
  -- the command goes out as given, after the gate and the deny patterns
  | cerboSshExec command timeout confirmed =>
      refine sendsOnly_gated fun hgate => sendsOnly_fields _ ?_
      have hpermits : (Tool.cerboSshExec command timeout confirmed).Permits env :=
        GateOpen.permits hgate rfl
      refine ⟨.inr hpermits, ?_, by simp⟩
      rintro cmd timeout' confirmed' heq
      cases heq
      exact ⟨rfl, rfl, hpermits, GateOpen.undenied hgate⟩

end Tools

/-! ## Every run -/

/-- Whatever tools are called, with whatever arguments, in whatever order and
    interleaving, and whatever the Cerbo answers: every command is admitted, and
    with writes disabled it is a fixed probe. -/
theorem ssh_commands_admitted {env : SshEnv}
    {es : List (Pool.Event Tool Empty ((o : SshOp) → SshResp o))} {log : List SshOut}
    {s : Pool.State Unit Tool SshOp SshResp PyError ToolResult}
    (h : Path (toolSystem env) (fun _ _ => True) (toolSystem env).init es log s)
    {i : Nat} {tool : Tool} {t : SshTrace} {conn : Nat} {command : String}
    {input : Option String} {timeout : Option PyFloat} {r : Except SshExc Completed}
    (hsent : .did i tool t (.exec conn command input timeout) r ∈ log) :
    Admitted env tool command input ∧
      (env.safety.enableWrites = false → command ∈ fixedProbes ∧ input = none) := by
  have hadmitted : Admitted env tool command input :=
    Pool.meets_of_wp (fun tool => (sendsOnly_body env tool).wp []) h _ hsent
  exact ⟨hadmitted, hadmitted.fixed⟩

def sendsExec : SshOut → Bool
  | .did _ (.cerboSshExec _ _ _) _ (.exec _ _ _ _) _ => true
  | _ => false

/-- A confirmed `cerbo_ssh_exec` sends its command. -/
theorem ssh_commands_admitted_exec :
    ∃ es log s i cmd limit confirmed t conn command input timeout r,
    Path (toolSystem fixtureSshEnv) (fun _ _ => True) (toolSystem fixtureSshEnv).init es log s ∧
    .did i (.cerboSshExec cmd limit confirmed) t (.exec conn command input timeout) r ∈ log ∧
    command = cmd ∧ input = none := by
  let m := toolSystem fixtureSshEnv
  have hrun : (m.exec m.init (.spawn (.cerboSshExec "uptime" (.finite 30) true) ::
      List.replicate 3 (.resume 0 fixtureReplies))).any (fun r => r.2.any sendsExec) = true := by
    decide +kernel
  obtain ⟨⟨s, log⟩, hexec, hrun⟩ := Option.any_eq_true _ _ |>.mp hrun
  obtain ⟨x, hx, hsends⟩ := List.any_eq_true.mp hrun
  unfold sendsExec at hsends
  split at hsends
  · rename_i i cmd limit confirmed t conn command input timeout r
    obtain ⟨hadmitted, -⟩ := ssh_commands_admitted (path_of_exec hexec) hx
    obtain ⟨hcommand, hinput, -⟩ := hadmitted.verbatim _ _ _ rfl
    exact ⟨_, _, _, i, cmd, limit, confirmed, t, conn, command, input, timeout, r,
      path_of_exec hexec, hx, hcommand, hinput⟩
  · cases hsends

end Ssh

end McpVenusOs
