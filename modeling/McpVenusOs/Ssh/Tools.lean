/-
  McpVenusOs.Ssh.Tools

  The Cerbo management tools of `server.py`, which are registered when SSH
  credentials are configured.

  Five of them change something and pass `_confirm_gate` before they look at the
  client; the other five read.  `Tool.changes` says which are which only to
  state results about them: each tool's program calls the gate by itself, as its
  function in the source does.
-/

import McpVenusOs.Safety
import McpVenusOs.Ssh.Client

namespace McpVenusOs

open Py Program

/-- The configuration the tools run under, and `re.search`. -/
structure SshEnv where
  ssh : SSHConfig
  mqttHost : String
  /-- `CERBO_ROOT_PASSWORD` -/
  rootPassword : Option String
  safety : SafetyConfig
  search : Search

namespace Ssh

/-- What a tool returns: the payload of `_confirm_gate`, or a dictionary. -/
inductive ToolResult
  | gated (d : GateDenial)
  | payload (fields : Fields)

/-- The common head of all tools, `_ssh_client_or_error`. -/
def withClient (env : SshEnv) (use : SshProgram Fields) : SshProgram ToolResult :=
  if env.ssh.configured then do
    let fields ← use
    return .payload fields
  else return .payload (Client.errorFields "SSH not configured — set SSH_PASSWORD or SSH_KEY_PATH")

/-- The common head of the tools that change something. -/
def gated (env : SshEnv) (operation : String) (params : Params) (confirmed : Bool)
    (use : SshProgram Fields) : SshProgram ToolResult :=
  match confirmGate env.search env.safety operation params confirmed none with
  | .error e => .raise e
  | .ok (some denial) => return .gated denial
  | .ok none => withClient env use

/-! ## Reading tools -/

def cerboSshAvailable (env : SshEnv) : SshProgram ToolResult :=
  withClient env do
    let probe ← Client.available env.ssh env.mqttHost
    return probe.fields

def cerboVersion (env : SshEnv) : SshProgram ToolResult :=
  withClient env (Client.firmwareVersion env.ssh)

/-- The address listing of `cerbo_ip`. -/
def probeAddresses : String :=
  "ip -4 -o addr show scope global 2>/dev/null | awk '\x7bprint $4\x7d'"

def cerboIp (env : SshEnv) : SshProgram ToolResult :=
  withClient env do
    let probe ← Client.available env.ssh env.mqttHost
    let out : Fields := [("success", .bool true), ("mqtt_host", .str env.mqttHost),
      ("ssh_reachable", .bool probe.isReachable)]
    if probe.isReachable then do
      let addrs ← Client.run env.ssh probeAddresses
      match strippedLines addrs.stdout with
      | [] => return out
      | ips => return out ++ [("addresses", .arr (ips.map .str))]
    else return out

def cerboCheckUpdates (env : SshEnv) : SshProgram ToolResult :=
  withClient env (Client.checkUpdates env.ssh)

def setuphelperStatus (env : SshEnv) : SshProgram ToolResult :=
  withClient env (Client.setuphelperStatus env.ssh)

/-! ## Changing tools -/

def cerboFirmwareUpdate (env : SshEnv) (confirmed : Bool) : SshProgram ToolResult :=
  gated env "cerbo_firmware_update" [] confirmed (Client.applyUpdates env.ssh)

/-- The password: the caller's, else the configured one, else a generated one. -/
def choosePassword (env : SshEnv) (password : Option String) : SshProgram String :=
  match nonEmpty password, nonEmpty env.rootPassword with
  | some pwd, _ => return pwd
  | none, some pwd => return pwd
  | none, none => sshOp .token

def cerboEnableSsh (env : SshEnv) (password : Option String) (confirmed : Bool) :
    SshProgram ToolResult :=
  gated env "cerbo_enable_ssh" [("set_root_password", .bool true)] confirmed do
    let pwd ← choosePassword env password
    let result ← Client.enableRootPassword pwd
    let generated := result.success && (nonEmpty password).isNone &&
      (nonEmpty env.rootPassword).isNone
    return result.fields ++ (if generated then [("generated_password", .str pwd)] else []) ++
      [("host", .str (env.ssh.effectiveHost env.mqttHost)), ("user", .str env.ssh.user)]

def setuphelperInstallPackage (env : SshEnv) (package repo : String) (confirmed : Bool) :
    SshProgram ToolResult :=
  gated env "setuphelper_install_package" [("package", .str package), ("repo", .str repo)]
    confirmed (Client.setuphelperInstallPackage env.ssh package repo)

def setuphelperRemovePackage (env : SshEnv) (package : String) (confirmed : Bool) :
    SshProgram ToolResult :=
  gated env "setuphelper_remove_package" [("package", .str package)] confirmed
    (Client.setuphelperRemovePackage env.ssh package)

def cerboSshExec (env : SshEnv) (command : String) (timeout : PyFloat) (confirmed : Bool) :
    SshProgram ToolResult :=
  gated env "cerbo_ssh_exec" [("command", .str command)] confirmed do
    let out ← Client.run env.ssh command (some timeout)
    return out.fields

/-! ## Calls -/

/-- A call of one of `SSH_TOOLS`. -/
inductive Tool
  | cerboSshAvailable
  | cerboVersion
  | cerboIp
  | cerboCheckUpdates
  | cerboFirmwareUpdate (confirmed : Bool)
  | cerboEnableSsh (password : Option String) (confirmed : Bool)
  | setuphelperStatus
  | setuphelperInstallPackage (package repo : String) (confirmed : Bool)
  | setuphelperRemovePackage (package : String) (confirmed : Bool)
  | cerboSshExec (command : String) (timeout : PyFloat) (confirmed : Bool)

def Tool.body (env : SshEnv) : Tool → SshProgram ToolResult
  | .cerboSshAvailable => Ssh.cerboSshAvailable env
  | .cerboVersion => Ssh.cerboVersion env
  | .cerboIp => Ssh.cerboIp env
  | .cerboCheckUpdates => Ssh.cerboCheckUpdates env
  | .cerboFirmwareUpdate confirmed => Ssh.cerboFirmwareUpdate env confirmed
  | .cerboEnableSsh password confirmed => Ssh.cerboEnableSsh env password confirmed
  | .setuphelperStatus => Ssh.setuphelperStatus env
  | .setuphelperInstallPackage package repo confirmed =>
    Ssh.setuphelperInstallPackage env package repo confirmed
  | .setuphelperRemovePackage package confirmed =>
    Ssh.setuphelperRemovePackage env package confirmed
  | .cerboSshExec command timeout confirmed => Ssh.cerboSshExec env command timeout confirmed

/-- The `confirmed` of a call that changes something; a reading call has none. -/
def Tool.changes : Tool → Option Bool
  | .cerboFirmwareUpdate confirmed | .cerboEnableSsh _ confirmed
  | .setuphelperInstallPackage _ _ confirmed | .setuphelperRemovePackage _ confirmed
  | .cerboSshExec _ _ confirmed => some confirmed
  | _ => none

/-- Operations are answered as the schedule chooses: nothing is assumed of what
    is at the other end. -/
def anyWorld : Pool.World Unit SshOp SshResp Empty ((o : SshOp) → SshResp o) Empty where
  init := ()
  env _ e := nomatch e
  answer _ _ o x := some ((), some (x o), [])

abbrev SshOut : Type := Pool.Out Tool SshOp SshResp PyError ToolResult Empty

/-- Any calls of the tools, in any order and interleaving, with any outcomes. -/
def toolSystem (env : SshEnv) := Pool.system anyWorld (Tool.body env)

/-! ## Fixtures -/

/-- A password is configured and writes are enabled; no deny pattern matches. -/
def fixtureSshEnv : SshEnv where
  ssh := fixtureSshConfig
  mqttHost := "venus.local"
  rootPassword := none
  safety := { SafetyConfig.default with enableWrites := true }
  search _ _ := .ok false

end Ssh

end McpVenusOs
