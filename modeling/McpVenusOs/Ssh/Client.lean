/-
  McpVenusOs.Ssh.Client

  `ssh_client.py`: the commands of `CerboSSHClient` and the operations built
  from them.

  A method is a program over what it does to the outside: it awaits the
  connection, a command on it, or the lock to close it; it reads the clock; it
  dials the SSH port.  A connection is the number of its handshake.  What the
  lock makes of `ensure` and `close` is in `Ssh.Connection`; here they are
  operations with any outcome.

  The clock is read as an exact rational and differences of it are exact, where
  the source subtracts doubles; only durations that are reported depend on it.
-/

import Mathlib.Data.List.Infix
import McpVenusOs.Lib.Program
import McpVenusOs.Lib.PyFloat
import McpVenusOs.Config

namespace McpVenusOs

open Py Program

/-! ## Operations -/

inductive SshOp
  /-- `await self._ensure_conn()` -/
  | ensure
  /-- `await conn.run(command, input=input)`, under `wait_for` if there is a timeout. -/
  | exec (conn : Nat) (command : String) (input : Option String) (timeout : Option PyFloat)
  /-- `await self._close_connection(expected)` -/
  | close (expected : Option Nat)
  /-- `time.monotonic()` -/
  | monotonic
  /-- `asyncio.open_connection(host, port)`, within three seconds, and closed again. -/
  | dial (host : String) (port : Nat)
  /-- `secrets.token_urlsafe(12)` -/
  | token

/-- What the operations raise. -/
inductive SshExc
  /-- `asyncssh.PermissionDenied`, which is an `asyncssh.Error`. -/
  | permissionDenied (text : String)
  /-- Any other `OSError`, `TimeoutError` or `asyncssh.Error`. -/
  | transport (text : String)
  | other (text : String)

/-- `SSHCompletedProcess` -/
structure Completed where
  exitStatus : Option Int
  stdout : String
  stderr : String

abbrev SshResp : SshOp → Type
  | .ensure => Except SshExc Nat
  | .exec _ _ _ _ => Except SshExc Completed
  | .close _ => Unit
  | .monotonic => ℚ
  | .dial _ _ => Except SshExc Unit
  | .token => String

abbrev SshProgram : Type → Type := Program SshOp SshResp PyError

abbrev SshTrace : Type := Trace SshOp SshResp

abbrev sshOp (o : SshOp) : SshProgram (SshResp o) := perform o

/-- A dictionary that a method returns. -/
abbrev Fields : Type := List (String × Json)

namespace Ssh.Client

/-! ## `run` -/

/-- `_truncate`, at `_MAX_OUTPUT` characters. -/
def truncate (text : String) : String :=
  if text.length ≤ 4096 then text
  else String.ofList (text.toList.take 4096) ++ s!"… (+{text.length - 4096}b)"

inductive RunResult
  | completed (exitStatus : Option Int) (stdout stderr : String) (elapsed : ℚ)
  | permissionDenied
  | failed (error : String)

namespace RunResult

/-- `out.get("success")` -/
def success : RunResult → Bool
  | completed exitStatus _ _ _ => exitStatus = some 0
  | _ => false

/-- `out.get("stdout", "")` -/
def stdout : RunResult → String
  | completed _ stdout _ _ => stdout
  | _ => ""

def fields : RunResult → Fields
  | completed exitStatus stdout stderr elapsed =>
    [("success", .bool (exitStatus = some 0)),
     ("exit_code", (exitStatus.map Json.int).getD .null),
     ("stdout", .str stdout), ("stderr", .str stderr),
     ("elapsed_s", .float (.finite elapsed))]
  | permissionDenied =>
    [("success", .bool false), ("error", .str "ssh permission denied — check key/password")]
  | failed error => [("success", .bool false), ("error", .str ("ssh failed: " ++ error))]

end RunResult

/-- The end of both handlers: close the connection the command was issued on. -/
def closeFailed (conn : Option Nat) : SshProgram Unit :=
  match conn with
  | some c => sshOp (.close (some c))
  | none => return ()

/-- The `except` clauses of `run`. -/
def recoverRun (conn : Option Nat) : SshExc → SshProgram RunResult
  | .permissionDenied _ => return .permissionDenied
  | .transport text => do
    closeFailed conn
    return .failed text
  | .other text => .raise (.other text)

/-- `timeout_s or self.config.timeout_s` -/
def effectiveTimeout (cfg : SSHConfig) : Option PyFloat → PyFloat
  | none => cfg.timeoutS
  | some t => if t.eq (.finite 0) then cfg.timeoutS else t

/-- Run a command; only an exception of no transport escapes. -/
def run (cfg : SSHConfig) (command : String) (timeout : Option PyFloat := none) :
    SshProgram RunResult := do
  let started ← sshOp .monotonic
  match ← sshOp .ensure with
  | .error e => recoverRun none e
  | .ok conn => do
    match ← sshOp (.exec conn command none (some (effectiveTimeout cfg timeout))) with
    | .error e => recoverRun (some conn) e
    | .ok result => do
      let now ← sshOp .monotonic
      return .completed result.exitStatus (truncate result.stdout) (truncate result.stderr)
        (pyRound (now - started) 2)

/-! ## `enable_root_password` -/

inductive PasswordResult
  | finished (ok : Bool) (stderr : String)
  | failed (error : String)

namespace PasswordResult

def success : PasswordResult → Bool
  | finished ok _ => ok
  | failed _ => false

def fields : PasswordResult → Fields
  | finished ok stderr =>
    [("success", .bool ok), ("password_set", .bool ok), ("stderr", .str stderr)]
  | failed error => [("success", .bool false), ("error", .str ("ssh failed: " ++ error))]

end PasswordResult

/-- The `except` clause of `enable_root_password`, which has no branch of its
    own for `PermissionDenied`. -/
def recoverPassword (conn : Option Nat) : SshExc → SshProgram PasswordResult
  | .permissionDenied text | .transport text => do
    closeFailed conn
    return .failed text
  | .other text => .raise (.other text)

/-- `"password" in text.lower()` -/
def mentionsPassword (text : String) : Bool :=
  decide ("password".toList <:+: text.toList.map Char.toLower)

/-- Set the root password; it goes over the channel, not into the command. -/
def enableRootPassword (password : String) : SshProgram PasswordResult := do
  match ← sshOp .ensure with
  | .error e => recoverPassword none e
  | .ok conn => do
    match ← sshOp (.exec conn "chpasswd 2>&1" (some ("root:" ++ password ++ "\n")) none) with
    | .error e => recoverPassword (some conn) e
    | .ok result =>
      return .finished (result.exitStatus = some 0 && !mentionsPassword result.stderr)
        (truncate (if result.stderr.isEmpty then result.stdout else result.stderr))

/-- `close` -/
def close : SshProgram Unit := sshOp (.close none)

/-! ## `available` -/

inductive Availability
  | reachable (host : String) (port : Nat) (latencyMs : Int)
  | unreachable (host error : String)

namespace Availability

/-- `probe.get("reachable")` -/
def isReachable : Availability → Bool
  | reachable _ _ _ => true
  | unreachable _ _ => false

def fields : Availability → Fields
  | reachable host port latencyMs =>
    [("success", .bool true), ("host", .str host), ("port", .int port),
     ("reachable", .bool true), ("latency_ms", .int latencyMs)]
  | unreachable host error =>
    [("success", .bool true), ("host", .str host), ("reachable", .bool false),
     ("error", .str error)]

end Availability

/-- Cheap reachability probe.  A timeout is an `OSError`, so the last clause of
    the source is never taken. -/
def available (cfg : SSHConfig) (mqttHost : String) : SshProgram Availability := do
  let host := cfg.effectiveHost mqttHost
  let started ← sshOp .monotonic
  match ← sshOp (.dial host cfg.port) with
  | .ok () => do
    let now ← sshOp .monotonic
    return .reachable host cfg.port (roundEven ((now - started) * 1000))
  | .error (.transport text) => return .unreachable host text
  | .error (.permissionDenied text) | .error (.other text) => .raise (.other text)

/-! ## Curated operations -/

/-- `{"success": False, "error": error}` -/
def errorFields (error : String) : Fields := [("success", .bool false), ("error", .str error)]

def firmwareVersion (cfg : SSHConfig) : SshProgram Fields := do
  let out ← run cfg "cat /opt/victronenergy/version"
  if !out.success then return out.fields
  else
    let lines := (splitlines out.stdout).filter fun line => !(strip line).isEmpty
    return [("success", .bool true), ("version", (lines.head?.map Json.str).getD .null),
      ("raw", .str out.stdout)]

/-- `_SWUPDATE_CANDIDATES` -/
def swupdateCandidates : List String := [
  "/opt/victronenergy/swupdate-scripts/check-updates.sh",
  "/opt/victronenergy/swupdate-scripts/check-swupdate.sh"]

/-- The existence test of a script. -/
def probeCandidate (candidate : String) : String := "[ -f " ++ candidate ++ " ] && echo y"

/-- `_swupdate_script`, from the candidates that are left. -/
def swupdateScript (cfg : SSHConfig) : List String → SshProgram (Option String)
  | [] => return none
  | candidate :: rest => do
    let probe ← run cfg (probeCandidate candidate)
    if probe.success then return some candidate else swupdateScript cfg rest

def checkUpdates (cfg : SSHConfig) : SshProgram Fields := do
  match ← swupdateScript cfg swupdateCandidates with
  | none => return errorFields "no swupdate check script found on device"
  | some script => do
    let out ← run cfg script
    return out.fields

def applyUpdates (cfg : SSHConfig) : SshProgram Fields := do
  match ← swupdateScript cfg swupdateCandidates with
  | none => return errorFields "no swupdate check script found on device"
  | some script => do
    let out ← run cfg (script ++ " -force -update") (some (.finite 900))
    return out.fields

/-- `SETUPHELPER_DIR` -/
def setuphelperDir : String := "/data/SetupHelper"

/-- `PACKAGE_MANAGER_DIR` -/
def packageManagerDir : String := "/data/packageManager"

def probeSetuphelper : String := "[ -d " ++ setuphelperDir ++ " ] && echo y"

def probeVersion : String :=
  "grep -m1 '^version' " ++ setuphelperDir ++ "/PackageManager.py 2>/dev/null"

def probePackages : String := "ls " ++ packageManagerDir ++ " 2>/dev/null"

def setuphelperStatus (cfg : SSHConfig) : SshProgram Fields := do
  let installed ← run cfg probeSetuphelper
  if !installed.success then
    return [("success", .bool true), ("installed", .bool false),
      ("hint", .str "install via wget of SetupHelper archive + /data/SetupHelper/setup")]
  else do
    let version ← run cfg probeVersion
    let packages ← run cfg probePackages
    let line := strip version.stdout
    return [("success", .bool true), ("installed", .bool true),
      ("version_line", if line.isEmpty then .null else .str line),
      ("packages", .arr ((strippedLines packages.stdout).map .str))]

/-- `[A-Za-z0-9_.-]` -/
def isNameChar (c : Char) : Bool := c.isAlphanum || c = '_' || c = '.' || c = '-'

/-- `valid_package_name`: one literal directory name. -/
def validPackageName (package : String) : Bool :=
  match package.toList with
  | [] => false
  | c :: rest => c.isAlphanum && rest.all isNameChar

/-- The second half of `owner/repository`, if the text is of that form. -/
def repoName (repo : String) : Option String :=
  match repo.toList.splitOn '/' with
  | [owner, name] =>
    if !owner.isEmpty && !name.isEmpty && owner.all isNameChar && name.all isNameChar then
      some (String.ofList name)
    else none
  | _ => none

/-- Download and validate before touching the installed package. -/
def installScript (package repo repoName : String) : String :=
  "set -eu; " ++
  "stage=$(mktemp -d /data/.mcp-package.XXXXXX); " ++
  "trap 'rm -rf \"$stage\"' EXIT HUP INT TERM; " ++
  "wget -qO \"$stage/release.tar.gz\" https://github.com/" ++ repo ++
    "/archive/refs/heads/main.tar.gz; " ++
  "tar -xzf \"$stage/release.tar.gz\" -C \"$stage\"; " ++
  "test -f \"$stage/" ++ repoName ++ "-main/setup\"; " ++
  "mkdir -p /data/" ++ package ++ "; " ++
  "cp -a \"$stage/" ++ repoName ++ "-main/.\" /data/" ++ package ++ "/; " ++
  "cd /data/" ++ package ++ "; " ++
  "scriptAction=INSTALL packageName=" ++ package ++ " scriptDir=/data/" ++ package ++ " " ++
  "bash /data/" ++ package ++ "/setup install </dev/null"

def setuphelperInstallPackage (cfg : SSHConfig) (package repo : String) : SshProgram Fields :=
  if !validPackageName package then return errorFields "invalid SetupHelper package name"
  else
    match repoName repo with
    | none => return errorFields "repo must be owner/repository"
    | some name => do
      let out ← run cfg (installScript package repo name) (some (.finite 300))
      return out.fields

def setuphelperRemovePackage (cfg : SSHConfig) (package : String) : SshProgram Fields :=
  if !validPackageName package then return errorFields "invalid SetupHelper package name"
  else do
    let out ← run cfg ("test -f /data/" ++ package ++ "/setup && bash /data/" ++ package ++
      "/setup uninstall </dev/null") (some (.finite 300))
    return out.fields

end Ssh.Client

namespace Ssh

/-! ## Fixtures -/

def fixtureSshConfig : SSHConfig where
  host := none
  port := 22
  user := "root"
  keyPath := none
  password := some "fixture"
  timeoutS := .finite 15

/-- Everything succeeds. -/
def fixtureReplies : (o : SshOp) → SshResp o
  | .ensure => .ok 0
  | .exec _ _ _ _ => .ok ⟨some 0, "ready", ""⟩
  | .close _ => ()
  | .monotonic => (0 : ℚ)
  | .dial _ _ => .ok ()
  | .token => "fixture"

end Ssh

end McpVenusOs
