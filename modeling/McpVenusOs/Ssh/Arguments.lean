/-
  McpVenusOs.Ssh.Arguments

  What a tool argument can put into the commands of a call.

  A package and a repository name are checked before they are inserted, so the
  script stays the fixed one and `/data/<package>` a child of `/data`
  (`resolvePath_package`).  A password is not checked: it goes to `chpasswd` as
  it is, and a newline in it starts another record (`records_password`).
-/

import McpVenusOs.Lib.TopicFilter
import McpVenusOs.Ssh.Admission

namespace McpVenusOs

open Py Program Machine TopicFilter

namespace Ssh

/-! ## Paths -/

/-- The components of an absolute path, with `.` and `..` resolved. -/
def resolvePath (path : String) : List String :=
  (levels path).foldl (fun at_ component =>
    if component = "" ∨ component = "." then at_
    else if component = ".." then at_.dropLast
    else at_ ++ [component]) []

/-- A valid package name is one component and none of the special ones. -/
theorem resolvePath_package {package : String} (h : Client.validPackageName package = true) :
    resolvePath ("/data/" ++ package) = ["data", package] := by
  -- the name starts with a letter or a digit
  have hhead : ∃ c rest, package.toList = c :: rest ∧ c.isAlphanum = true ∧
      rest.all Client.isNameChar = true := by
    rw [Client.validPackageName] at h
    cases hp : package.toList with
    | nil => rw [hp] at h; cases h
    | cons c rest =>
      rw [hp, Bool.and_eq_true] at h
      exact ⟨c, rest, rfl, h.1, h.2⟩
  obtain ⟨c, rest, hp, hc, hrest⟩ := hhead
  -- so it is one level of the path, and not a dot
  have hslash : '/' ∉ package.toList := by
    rw [hp, List.mem_cons, not_or]
    refine ⟨?_, fun hmem => ?_⟩
    · rintro rfl
      exact absurd hc (by decide)
    · exact absurd (List.all_eq_true.mp hrest _ hmem) (by decide)
  have hempty : package ≠ "" := by
    rintro rfl
    cases hp
  have hdot : package ≠ "." ∧ package ≠ ".." := by
    constructor <;>
      (rintro rfl; obtain ⟨rfl, -⟩ := List.cons.inj hp; exact absurd hc (by decide))
  have hlevels : levels ("/data/" ++ package) = ["", "data", package] := by
    have hsplit : "/data/" ++ package = "" ++ "/" ++ ("data" ++ "/" ++ package) := by
      rw [← String.toList_inj]
      simp
    rw [hsplit, levels_append_slash, levels_append_slash, levels_of_no_slash hslash]
    rfl
  rw [resolvePath, hlevels]
  simp [hempty, hdot.1, hdot.2]

/-! ## Records -/

/-- `user:password`, split at the first colon. -/
def record (line : List Char) : Option (String × String) :=
  if ':' ∈ line then
    some (String.ofList (line.takeWhile (· ≠ ':')),
      String.ofList ((line.dropWhile (· ≠ ':')).drop 1))
  else none

/-- The newline-terminated lines of an input, as `chpasswd` reads them. -/
def records (input : String) : List (Option (String × String)) :=
  (input.toList.splitOn '\n').dropLast.map record

/-- The input is the one record of the user `root` when the password has no
    newline. -/
theorem records_password (password : String) :
    records ("root:" ++ password ++ "\n") = [some ("root", password)] ↔
      '\n' ∉ password.toList := by
  -- the newline at the end closes the last record
  have hlines : (("root:" ++ password ++ "\n").toList.splitOn '\n').dropLast =
      ("root:" ++ password).toList.splitOn '\n' := by
    have hend : ("root:" ++ password ++ "\n").toList = ("root:" ++ password).toList ++ ['\n'] := by
      rw [String.toList_append]
      rfl
    rw [hend, List.splitOn_append_cons_self, List.splitOn_nil]
    exact List.dropLast_concat
  have hchars : ("root:" ++ password).toList = ['r', 'o', 'o', 't', ':'] ++ password.toList := by
    rw [String.toList_append]
    rfl
  have hmem : '\n' ∈ ("root:" ++ password).toList ↔ '\n' ∈ password.toList := by
    rw [hchars]
    simp
  rw [records, hlines]
  -- without a newline there is one record, with one there are two at least
  rcases splitOn_cases '\n' ("root:" ++ password).toList with ⟨hno, hsplit⟩ | ⟨s, t, -, hs, hsplit⟩
  · rw [hsplit, ← hmem]
    refine iff_of_true ?_ hno
    rw [List.map_singleton, hchars, record]
    simp
  · refine iff_of_false ?_ ?_
    · rw [hsplit]
      intro h
      have hlength := congrArg List.length h
      have hpos := List.length_pos_of_ne_nil (List.splitOn_ne_nil '\n' t)
      simp only [List.map_cons, List.length_cons, List.length_map, List.length_nil] at hlength
      omega
    · rw [not_not, ← hmem, hs]
      simp

/-! ## What a command contains -/

/-- The generated password, if the trace has one. -/
def generated : SshTrace → String
  | [] => ""
  | ⟨.token, text⟩ :: _ => text
  | _ :: t => generated t

/-- The password of a `cerbo_enable_ssh` call that has performed `t`. -/
def chosenPassword (env : SshEnv) (password : Option String) (t : SshTrace) : String :=
  match nonEmpty password, nonEmpty env.rootPassword with
  | some pwd, _ => pwd
  | none, some pwd => pwd
  | none, none => generated t

/-- The text is safe to insert into a script. -/
def Plain (text : String) : Prop := ∀ c ∈ text.toList, Client.isNameChar c = true

/-- The command is the fixed one of its tool, with plain text inserted and
    everything under one child of `/data`; the input is one record, of the
    chosen password. -/
def Contained (env : SshEnv) (tool : Tool) (t : SshTrace) (command : String)
    (input : Option String) : Prop :=
  match tool with
  | .setuphelperInstallPackage package repo _ =>
    (∃ owner name, repo = owner ++ "/" ++ name ∧ Plain owner ∧ Plain name ∧
      command = Client.installScript package repo name) ∧
    Plain package ∧ resolvePath ("/data/" ++ package) = ["data", package] ∧ input = none
  | .setuphelperRemovePackage package _ =>
    command = "test -f /data/" ++ package ++ "/setup && bash /data/" ++ package ++
      "/setup uninstall </dev/null" ∧
    Plain package ∧ resolvePath ("/data/" ++ package) = ["data", package] ∧ input = none
  | .cerboEnableSsh password _ =>
    command = "chpasswd 2>&1" ∧
    ∃ text, input = some text ∧ records text = [some ("root", chosenPassword env password t)]
  | _ => True

theorem plain_of_validPackageName {package : String}
    (h : Client.validPackageName package = true) : Plain package := by
  rw [Client.validPackageName] at h
  intro c hc
  cases hp : package.toList with
  | nil => rw [hp] at hc; cases hc
  | cons first rest =>
    rw [hp, Bool.and_eq_true] at h
    rw [hp] at hc
    rcases List.mem_cons.mp hc with rfl | hc
    · simp [Client.isNameChar, h.1]
    · exact List.all_eq_true.mp h.2 c hc

theorem plain_of_repoName {repo name : String} (h : Client.repoName repo = some name) :
    ∃ owner, repo = owner ++ "/" ++ name ∧ Plain owner ∧ Plain name := by
  unfold Client.repoName at h
  split at h
  · rename_i owner rest hsplit
    split at h
    · rename_i hchars
      cases h
      simp only [Bool.and_eq_true, List.all_eq_true] at hchars
      -- the two parts split at the slash
      have hrepo : repo.toList = owner ++ '/' :: rest := by
        have hjoin : ['/'].intercalate (repo.toList.splitOn '/') = repo.toList :=
          List.intercalate_splitOn '/'
        rw [hsplit] at hjoin
        simpa [List.intercalate] using hjoin.symm
      -- neither part has a character outside its class
      refine ⟨String.ofList owner, ?_, ?_, ?_⟩
      · rw [← String.toList_inj, hrepo]
        simp
      · intro c hc
        rw [String.toList_ofList] at hc
        exact hchars.1.2 c hc
      · intro c hc
        rw [String.toList_ofList] at hc
        exact hchars.2 c hc
    · cases h
  · cases h

/-! ## Commands of a call -/

section Call

variable {α β : Type} {I : SshTrace → SshOp → Prop} {h : SshTrace}

/-- Where no outcome matters, a sequence only has to keep to `I`. -/
theorem wp_seq {p : SshProgram α} {f : α → SshProgram β} (hp : wp I (fun _ _ => True) h p)
    (hf : ∀ t a, wp I (fun _ _ => True) t (f a)) : wp I (fun _ _ => True) h (p >>= f) := by
  rw [wp_bind]
  refine wp_mono (fun _ _ => id) (fun t r _ => ?_) hp
  cases r with
  | error e => trivial
  | ok a => exact hf t a

/-- A program that sends nothing keeps to what is asked of commands. -/
theorem wp_of_sendsOnly {P : SshTrace → String → Option String → Prop} {p : SshProgram α}
    (hp : SendsOnly (fun _ _ => False) p) :
    wp (fun t => Sends (P t)) (fun _ _ => True) h p := by
  refine wp_mono (fun t o ho => ?_) (fun _ _ => id) (hp.wp h)
  cases o with
  | exec conn command input timeout => exact ho.elim
  | ensure | close expected | monotonic | dial host port | token => trivial

/-- `enable_root_password` sends one command, right after the connection. -/
theorem wp_sends_enableRootPassword {P : SshTrace → String → Option String → Prop}
    {password : String}
    (hsend : ∀ x, P (h ++ [⟨.ensure, x⟩]) "chpasswd 2>&1" (some ("root:" ++ password ++ "\n"))) :
    wp (fun t => Sends (P t)) (fun _ _ => True) h (Client.enableRootPassword password) := by
  refine ⟨trivial, fun connected => ?_⟩
  cases connected with
  | error e => exact wp_of_sendsOnly (sendsOnly_recoverPassword none e)
  | ok conn =>
    refine ⟨hsend _, fun finished => ?_⟩
    cases finished with
    | error e => exact wp_of_sendsOnly (sendsOnly_recoverPassword (some conn) e)
    | ok result => trivial

end Call

variable {env : SshEnv}

/-- The one command of `cerbo_enable_ssh`, with the password chosen by then. -/
theorem wp_sends_cerboEnableSsh (password : Option String) (confirmed : Bool) :
    wp (fun t => Sends fun command input => command = "chpasswd 2>&1" ∧
        input = some ("root:" ++ chosenPassword env password t ++ "\n"))
      (fun _ _ => True) [] (cerboEnableSsh env password confirmed) := by
  unfold cerboEnableSsh gated
  split
  · trivial
  · trivial
  · unfold withClient
    split
    · refine wp_seq ?_ fun _ _ => trivial
      rw [wp_bind]
      -- the rest of the tool, once the password is chosen
      have hrest : ∀ (t : SshTrace) (pwd : String),
          (∀ x, chosenPassword env password (t ++ [⟨.ensure, x⟩]) = pwd) →
          wp (fun t => Sends fun command input => command = "chpasswd 2>&1" ∧
              input = some ("root:" ++ chosenPassword env password t ++ "\n"))
            (fun _ _ => True) t (Client.enableRootPassword pwd) := by
        intro t pwd hpwd
        exact wp_sends_enableRootPassword fun x => ⟨rfl, by rw [hpwd]⟩
      unfold choosePassword
      split
      · rename_i pwd hpwd
        refine wp_seq (p := Client.enableRootPassword pwd) (hrest [] pwd fun x => ?_)
          fun _ _ => trivial
        rw [chosenPassword, hpwd]
      · rename_i pwd hnone hpwd
        refine wp_seq (p := Client.enableRootPassword pwd) (hrest [] pwd fun x => ?_)
          fun _ _ => trivial
        rw [chosenPassword, hnone, hpwd]
      · rename_i hnone hnone'
        refine ⟨trivial, fun pwd => ?_⟩
        refine wp_seq (p := Client.enableRootPassword pwd) (hrest _ pwd fun x => ?_)
          fun _ _ => trivial
        rw [chosenPassword, hnone, hnone']
        rfl
    · trivial

/-- A checked package goes into the fixed command of its tool. -/
theorem sendsOnly_install (package repo : String) (confirmed : Bool) (t : SshTrace) :
    SendsOnly (Contained env (.setuphelperInstallPackage package repo confirmed) t)
      (setuphelperInstallPackage env package repo confirmed) := by
  refine sendsOnly_gated fun _ => ?_
  unfold Client.setuphelperInstallPackage
  split
  · trivial
  · rename_i hpackage
    rw [Bool.not_eq_true, Bool.not_eq_false'] at hpackage
    split
    · trivial
    · rename_i name hname
      obtain ⟨owner, hrepo, howner, hplain⟩ := plain_of_repoName hname
      exact sendsOnly_fields _ ⟨⟨owner, name, hrepo, howner, hplain, rfl⟩,
        plain_of_validPackageName hpackage, resolvePath_package hpackage, rfl⟩

theorem sendsOnly_remove (package : String) (confirmed : Bool) (t : SshTrace) :
    SendsOnly (Contained env (.setuphelperRemovePackage package confirmed) t)
      (setuphelperRemovePackage env package confirmed) := by
  refine sendsOnly_gated fun _ => ?_
  unfold Client.setuphelperRemovePackage
  split
  · trivial
  · rename_i hpackage
    rw [Bool.not_eq_true, Bool.not_eq_false'] at hpackage
    exact sendsOnly_fields _ ⟨rfl, plain_of_validPackageName hpackage,
      resolvePath_package hpackage, rfl⟩

/-- The password of the call, if it sets one, has no newline. -/
def OneLine (env : SshEnv) (tool : Tool) (t : SshTrace) : Prop :=
  ∀ password confirmed, tool = .cerboEnableSsh password confirmed →
    '\n' ∉ (chosenPassword env password t).toList

theorem oneLine_of_ne {tool : Tool} (t : SshTrace)
    (h : ∀ password confirmed, tool ≠ .cerboEnableSsh password confirmed) : OneLine env tool t :=
  fun password confirmed heq => absurd heq (h password confirmed)

/-- Every command of a call is contained, unless its password has a newline. -/
theorem wp_contained (env : SshEnv) (tool : Tool) :
    wp (fun t => Sends fun command input =>
        Contained env tool t command input ↔ OneLine env tool t)
      (fun _ _ => True) [] (tool.body env) := by
  cases tool with
  -- the password is the one argument that can hold a newline
  | cerboEnableSsh password confirmed =>
      refine wp_mono (fun t o ho => ?_) (fun _ _ => id)
        (wp_sends_cerboEnableSsh password confirmed)
      cases o with
      | exec conn command input timeout =>
        obtain ⟨hcommand, hinput⟩ := ho
        have hrecords := records_password (chosenPassword env password t)
        constructor
        · rintro ⟨-, text, htext, hone⟩ password' confirmed' heq
          cases heq
          cases hinput.symm.trans htext
          exact hrecords.mp hone
        · intro hline
          exact ⟨hcommand, _, hinput, hrecords.mpr (hline _ _ rfl)⟩
      | ensure | close expected | monotonic | dial host port | token => trivial
  -- the other arguments have no newline to hold
  | setuphelperInstallPackage package repo confirmed =>
      refine wp_mono (fun t o ho => ?_) (fun _ _ => id)
        ((sendsOnly_install package repo confirmed []).wp [])
      cases o with
      | exec conn command input timeout => exact iff_of_true ho (oneLine_of_ne t (by simp))
      | ensure | close expected | monotonic | dial host port | token => trivial
  | setuphelperRemovePackage package confirmed =>
      refine wp_mono (fun t o ho => ?_) (fun _ _ => id)
        ((sendsOnly_remove package confirmed []).wp [])
      cases o with
      | exec conn command input timeout => exact iff_of_true ho (oneLine_of_ne t (by simp))
      | ensure | close expected | monotonic | dial host port | token => trivial
  | cerboSshAvailable | cerboVersion | cerboIp | cerboCheckUpdates | cerboFirmwareUpdate confirmed
  | setuphelperStatus | cerboSshExec command timeout confirmed =>
      refine wp_mono (fun t o _ => ?_) (fun _ _ => id) ((sendsOnly_body env _).wp [])
      cases o with
      | exec conn command input timeout => exact iff_of_true trivial (oneLine_of_ne t (by simp))
      | ensure | close expected | monotonic | dial host port | token => trivial

/-! ## Every run -/

/-- Whatever tools are called, with whatever arguments, and whatever the Cerbo
    answers: a command of a package tool is its fixed script with plain text
    inserted, and `chpasswd` is given one record of `root` exactly when the
    chosen password has no newline. -/
theorem arguments_contained {env : SshEnv}
    {es : List (Pool.Event Tool Empty ((o : SshOp) → SshResp o))} {log : List SshOut}
    {s : Pool.State Unit Tool SshOp SshResp PyError ToolResult}
    (h : Path (toolSystem env) (fun _ _ => True) (toolSystem env).init es log s)
    {i : Nat} {tool : Tool} {t : SshTrace} {conn : Nat} {command : String}
    {input : Option String} {timeout : Option PyFloat} {r : Except SshExc Completed}
    (hsent : .did i tool t (.exec conn command input timeout) r ∈ log) :
    Contained env tool t command input ↔
      ∀ password confirmed, tool = .cerboEnableSsh password confirmed →
        '\n' ∉ (chosenPassword env password t).toList :=
  Pool.meets_of_wp (fun tool => wp_contained env tool) h _ hsent

/-- The observation is that a call sets the given password. -/
def setsPassword (password : String) : SshOut → Bool
  | .did _ (.cerboEnableSsh (some pwd) _) _ (.exec _ command (some input) _) _ =>
    pwd = password && command = "chpasswd 2>&1" && input = "root:" ++ password ++ "\n"
  | _ => false

theorem of_setsPassword {password : String} {x : SshOut} (h : setsPassword password x = true) :
    ∃ i confirmed t conn timeout r, x = .did i (.cerboEnableSsh (some password) confirmed) t
      (.exec conn "chpasswd 2>&1" (some ("root:" ++ password ++ "\n")) timeout) r := by
  unfold setsPassword at h
  split at h
  · rename_i i pwd confirmed t conn command input timeout r
    simp only [Bool.and_eq_true, decide_eq_true_eq] at h
    obtain ⟨⟨rfl, rfl⟩, rfl⟩ := h
    exact ⟨i, confirmed, t, conn, timeout, r, rfl⟩
  · cases h

/-- A password of one line sets the password of `root`, and nothing else. -/
theorem arguments_contained_password : ∃ es log s i confirmed t conn timeout r,
    Path (toolSystem fixtureSshEnv) (fun _ _ => True) (toolSystem fixtureSshEnv).init es log s ∧
    .did i (.cerboEnableSsh (some "secret") confirmed) t
      (.exec conn "chpasswd 2>&1" (some "root:secret\n") timeout) r ∈ log ∧
    Contained fixtureSshEnv (.cerboEnableSsh (some "secret") confirmed) t "chpasswd 2>&1"
      (some "root:secret\n") := by
  let m := toolSystem fixtureSshEnv
  have hrun : (m.exec m.init (.spawn (.cerboEnableSsh (some "secret") true) ::
      List.replicate 2 (.resume 0 fixtureReplies))).any
        (fun r => r.2.any (setsPassword "secret")) = true := by
    decide +kernel
  obtain ⟨⟨s, log⟩, hexec, hrun⟩ := Option.any_eq_true _ _ |>.mp hrun
  obtain ⟨x, hx, hsets⟩ := List.any_eq_true.mp hrun
  obtain ⟨i, confirmed, t, conn, timeout, r, rfl⟩ := of_setsPassword hsets
  have hcontained := (arguments_contained (path_of_exec hexec) hx).mpr (by
    rintro password confirmed' heq
    cases heq
    rw [show chosenPassword fixtureSshEnv (some "secret") t = "secret" from rfl]
    decide)
  exact ⟨_, _, _, i, confirmed, t, conn, timeout, r, path_of_exec hexec, hx, hcontained⟩

/-- A newline in the password starts a second record. -/
theorem newline_adds_record : ∃ es log s i confirmed t conn timeout r,
    Path (toolSystem fixtureSshEnv) (fun _ _ => True) (toolSystem fixtureSshEnv).init es log s ∧
    .did i (.cerboEnableSsh (some "a\nadmin:b") confirmed) t
      (.exec conn "chpasswd 2>&1" (some "root:a\nadmin:b\n") timeout) r ∈ log ∧
    records "root:a\nadmin:b\n" = [some ("root", "a"), some ("admin", "b")] ∧
    ¬ Contained fixtureSshEnv (.cerboEnableSsh (some "a\nadmin:b") confirmed) t "chpasswd 2>&1"
      (some "root:a\nadmin:b\n") := by
  let m := toolSystem fixtureSshEnv
  have hrun : (m.exec m.init (.spawn (.cerboEnableSsh (some "a\nadmin:b") true) ::
      List.replicate 2 (.resume 0 fixtureReplies))).any
        (fun r => r.2.any (setsPassword "a\nadmin:b")) = true := by
    decide +kernel
  obtain ⟨⟨s, log⟩, hexec, hrun⟩ := Option.any_eq_true _ _ |>.mp hrun
  obtain ⟨x, hx, hsets⟩ := List.any_eq_true.mp hrun
  obtain ⟨i, confirmed, t, conn, timeout, r, rfl⟩ := of_setsPassword hsets
  have hrecords : records "root:a\nadmin:b\n" = [some ("root", "a"), some ("admin", "b")] := by
    decide +kernel
  refine ⟨_, _, _, i, confirmed, t, conn, timeout, r, path_of_exec hexec, hx, hrecords, ?_⟩
  rintro ⟨-, text, htext, hone⟩
  cases htext
  rw [hrecords] at hone
  exact absurd (congrArg List.length hone) (by simp)

end Ssh

end McpVenusOs
