/-
  McpVenusOs.DenyPatterns

  The default deny-patterns of `cerbo_ssh_exec` and sequences of commands.

  A shell separator is no word character, so it looks to `\b` like the end or
  the start of the command, and no pattern can match across it.  Only `$` tells
  `rm -rf /` from `rm -rf /;ls`: a denied command can be extended to a sequence
  that is not denied exactly when nothing but its end makes it match.
-/

import McpVenusOs.Lib.Regex
import McpVenusOs.Safety

namespace McpVenusOs

open Py Regex

/-- `re.search(pattern, text, re.IGNORECASE)`; a pattern outside the modelled
    syntax is an error.  `alnum` is `str.isalnum` beyond ASCII. -/
def reSearch (alnum : Char → Bool) : Search := fun pattern text =>
  match parse pattern with
  | some r => .ok (r.search alnum text)
  | none => .error (.other "re.error")

/-- The separators that put two shell commands in sequence. -/
def separators : List String := [";", "&&", "||", "|", "\n"]

/-- `_validate_ssh_command` denies the command. -/
def Denied (alnum : Char → Bool) (cfg : SafetyConfig) (command : String) : Prop :=
  ∃ r, validateSshCommand (reSearch alnum) (.str command) cfg.sshCommandDenyPatterns = .ok r ∧
    r.allowed = false

/-- Every sequence of the command `c` with another one is denied, and
    `validate_write_operation` never allows it. -/
structure SequencesDenied (alnum : Char → Bool) (cfg : SafetyConfig) (c : String) : Prop where
  denied : ∀ s ∈ separators, ∀ d, Denied alnum cfg (c ++ s ++ d) ∧ Denied alnum cfg (d ++ s ++ c)
  refused : ∀ s ∈ separators, ∀ d command, command = c ++ s ++ d ∨ command = d ++ s ++ c →
    ∀ (params : Params) (confirmed : Bool) (dbusPath : Option String) (r : SafetyCheckResult),
      params.lookup "command" = some (.str command) →
      validateWriteOperation (reSearch alnum) cfg "cerbo_ssh_exec" params confirmed dbusPath =
        .ok r → r.allowed = false

/-- The default patterns, the first one without its alternative `$`. -/
def sequenceDenyPatterns : List String :=
  "\\brm\\s+-rf\\s+/\\s" :: SafetyConfig.default.sshCommandDenyPatterns.tail

/-! ## The patterns -/

theorem defaultPatterns_parse : ∀ p ∈ SafetyConfig.default.sshCommandDenyPatterns,
    (parse p).isSome = true := by
  decide +kernel

/-- They ask for no end of the text, and a match ends with a character that is
    no separator. -/
theorem sequenceDenyPatterns_parse : ∀ p ∈ sequenceDenyPatterns,
    (parse p).any (fun r => r.endFree && r.endsOff ';') = true := by
  decide +kernel

/-- `\brm\s+-rf\s+/` -/
def rootWipe : Regex := (parse "\\brm\\s+-rf\\s+/").getD .empty

theorem parse_rootWipe :
    parse "\\brm\\s+-rf\\s+/(?:\\s|$)" = some (.seq rootWipe (.alt (.char .space) .atEnd)) ∧
      parse "\\brm\\s+-rf\\s+/\\s" = some (.seq rootWipe (.char .space)) ∧
      rootWipe.endsOff ';' = true := by
  decide +kernel

/-! ## `_validate_ssh_command` -/

/-- The command is denied when one of the patterns is found in it. -/
theorem validateSshCommand_denied {search : Search} {command : String} {patterns : List String}
    (h : ∀ p ∈ patterns, ∃ b, search p command = .ok b) :
    (∃ r, validateSshCommand search (.str command) patterns = .ok r ∧ r.allowed = false) ↔
      ∃ p ∈ patterns, search p command = .ok true := by
  induction patterns with
  | nil =>
    constructor
    · rintro ⟨r, hr, hallowed⟩
      rw [← Except.ok.inj hr] at hallowed
      cases hallowed
    · rintro ⟨p, hp, -⟩
      cases hp
  | cons pattern rest ih =>
    obtain ⟨b, hb⟩ := h pattern List.mem_cons_self
    have hrest := ih fun p hp => h p (List.mem_cons_of_mem pattern hp)
    cases b with
    -- the first pattern that is found denies
    | true =>
      constructor
      · exact fun _ => ⟨pattern, List.mem_cons_self, hb⟩
      · intro _
        refine ⟨.deny (.commandDenied pattern), ?_, rfl⟩
        rw [validateSshCommand, searchParam, hb]
        rfl
    -- not found: the rest decides
    | false =>
      have hnext : validateSshCommand search (.str command) (pattern :: rest) =
          validateSshCommand search (.str command) rest := by
        rw [validateSshCommand, searchParam, hb]
        rfl
      rw [hnext, hrest]
      constructor
      · rintro ⟨p, hp, hfound⟩
        exact ⟨p, List.mem_cons_of_mem pattern hp, hfound⟩
      · rintro ⟨p, hp, hfound⟩
        rcases List.mem_cons.mp hp with rfl | hp
        · rw [hb] at hfound
          cases hfound
        · exact ⟨p, hp, hfound⟩

variable {alnum : Char → Bool} {cfg : SafetyConfig}

theorem reSearch_eq_true {pattern text : String} :
    reSearch alnum pattern text = .ok true ↔
      ∃ r, parse pattern = some r ∧ r.search alnum text = true := by
  rw [reSearch]
  cases parse pattern with
  | none => simp
  | some r => simp

theorem denied_iff
    (hcfg : cfg.sshCommandDenyPatterns = SafetyConfig.default.sshCommandDenyPatterns)
    (command : String) : Denied alnum cfg command ↔
      ∃ p ∈ SafetyConfig.default.sshCommandDenyPatterns,
        reSearch alnum p command = .ok true := by
  rw [Denied, hcfg]
  apply validateSshCommand_denied
  intro p hp
  obtain ⟨r, hr⟩ := Option.isSome_iff_exists.mp (defaultPatterns_parse p hp)
  rw [reSearch, hr]
  exact ⟨_, rfl⟩

/-- A denied command is never allowed by the gate. -/
theorem Denied.refused {command : String} (h : Denied alnum cfg command) {params : Params}
    {confirmed : Bool} {dbusPath : Option String} {r : SafetyCheckResult}
    (hcommand : params.lookup "command" = some (.str command))
    (hr : validateWriteOperation (reSearch alnum) cfg "cerbo_ssh_exec" params confirmed dbusPath =
      .ok r) : r.allowed = false := by
  by_contra hallowed
  have hgate := validateWriteOperation_allowed hr (by simpa using hallowed)
  obtain ⟨r', hr', hallowed'⟩ := hgate.command rfl
  rw [commandParam, hcommand, Option.getD_some] at hr'
  obtain ⟨r'', hr'', hdenied⟩ := h
  obtain rfl := Except.ok.inj (hr'.symm.trans hr'')
  rw [hdenied] at hallowed'
  cases hallowed'

/-! ## Separators -/

/-- A separator starts and ends with a character that is no word character. -/
theorem separator_ends {s : String} (hs : s ∈ separators) (d : String) :
    wordNext alnum (s ++ d).toList = false ∧
      wordLast alnum false (d ++ s).toList = false := by
  simp only [separators, List.mem_cons, List.not_mem_nil, or_false] at hs
  rcases hs with rfl | rfl | rfl | rfl | rfl
  all_goals
    rw [String.toList_append, String.toList_append, wordLast, List.foldl_append]
    exact ⟨rfl, rfl⟩

/-- What is found without asking for the end of the command is found in every
    sequence. -/
theorem found_in_sequence {p c : String} (hp : p ∈ sequenceDenyPatterns)
    (hfound : reSearch alnum p c = .ok true) {s : String} (hs : s ∈ separators) (d : String) :
    reSearch alnum p (c ++ s ++ d) = .ok true ∧ reSearch alnum p (d ++ s ++ c) = .ok true := by
  obtain ⟨r, hr, hsearch⟩ := reSearch_eq_true.mp hfound
  have hshape := sequenceDenyPatterns_parse p hp
  rw [hr, Option.any_some, Bool.and_eq_true] at hshape
  obtain ⟨hnext, hlast⟩ : wordNext alnum (s ++ d).toList = false ∧
      wordLast alnum false (d ++ s).toList = false := separator_ends hs d
  have hassoc : c ++ s ++ d = c ++ (s ++ d) := String.append_assoc
  rw [reSearch_eq_true, reSearch_eq_true, hassoc]
  exact ⟨⟨r, hr, search_append hshape.1 hnext hsearch⟩, ⟨r, hr, search_prepend hlast hsearch⟩⟩

/-- The first pattern contains its variant without `$`. -/
theorem denied_of_found
    (hcfg : cfg.sshCommandDenyPatterns = SafetyConfig.default.sshCommandDenyPatterns)
    {p command : String} (hp : p ∈ sequenceDenyPatterns)
    (hfound : reSearch alnum p command = .ok true) : Denied alnum cfg command := by
  rw [denied_iff hcfg]
  rcases List.mem_cons.mp hp with rfl | hp
  · refine ⟨"\\brm\\s+-rf\\s+/(?:\\s|$)", List.mem_cons_self, ?_⟩
    obtain ⟨r, hr, hsearch⟩ := reSearch_eq_true.mp hfound
    rw [parse_rootWipe.2.1, Option.some.injEq] at hr
    subst hr
    rw [reSearch_eq_true]
    refine ⟨_, parse_rootWipe.1, ?_⟩
    obtain ⟨x, hx, y, z, hxz, hzy⟩ := search_eq_true.mp hsearch
    exact search_eq_true.mpr ⟨x, hx, y, z, hxz, .inl hzy⟩
  · exact ⟨p, List.mem_cons_of_mem _ hp, hfound⟩

/-- Behind a semicolon there is no end of the command: the first pattern is found
    through its other alternative. -/
theorem rootWipe_before_semicolon {c : String}
    (h : (Regex.seq rootWipe (.alt (.char .space) .atEnd)).search alnum (c ++ ";") = true) :
    (Regex.seq rootWipe (.char .space)).search alnum (c ++ ";") = true := by
  obtain ⟨x, hx, y, z, hxz, hzy⟩ := search_eq_true.mp h
  refine search_eq_true.mpr ⟨x, hx, y, z, hxz, ?_⟩
  rcases hzy with hzy | ⟨-, hend⟩
  · exact hzy
  -- the wipe would end where the text does, in the semicolon
  · exfalso
    obtain ⟨k, hk⟩ := suffix_of_mem_positions hx
    obtain ⟨u, c', hz, hne⟩ := hxz.endsOff parse_rootWipe.2.2
    have hsemi : ";".toList = [';'] := rfl
    have hlast := congrArg List.getLast? hk
    rw [String.toList_append, hsemi] at hlast
    rcases hend with hend | hend
    · rw [hz, hend, ← List.append_assoc] at hlast
      simp only [List.getLast?_append, List.getLast?_singleton, Option.some_or] at hlast
      exact hne (Option.some.inj hlast)
    · have hsplit : u ++ c' :: ['\n'] = (u ++ [c']) ++ ['\n'] := by simp
      rw [hz, hend, hsplit, ← List.append_assoc] at hlast
      simp only [List.getLast?_append, List.getLast?_singleton, Option.some_or] at hlast
      exact absurd (Option.some.inj hlast) (by decide)

theorem sequencesDenied_iff
    (hcfg : cfg.sshCommandDenyPatterns = SafetyConfig.default.sshCommandDenyPatterns) {c : String} :
    SequencesDenied alnum cfg c ↔ ∃ p ∈ sequenceDenyPatterns, reSearch alnum p c = .ok true := by
  constructor
  · intro h
    -- the sequence with the empty command after a semicolon
    have hsemi := (h.denied ";" List.mem_cons_self "").1
    rw [String.append_empty] at hsemi
    obtain ⟨p, hp, hfound⟩ := (denied_iff hcfg _).mp hsemi
    have hvariant : ∃ q ∈ sequenceDenyPatterns, reSearch alnum q (c ++ ";") = .ok true := by
      rcases List.mem_cons.mp hp with rfl | hp
      · refine ⟨_, List.mem_cons_self, ?_⟩
        obtain ⟨r, hr, hsearch⟩ := reSearch_eq_true.mp hfound
        rw [parse_rootWipe.1, Option.some.injEq] at hr
        subst hr
        exact reSearch_eq_true.mpr ⟨_, parse_rootWipe.2.1, rootWipe_before_semicolon hsearch⟩
      · exact ⟨p, List.mem_cons_of_mem _ hp, hfound⟩
    obtain ⟨q, hq, hfound⟩ := hvariant
    obtain ⟨r, hr, hsearch⟩ := reSearch_eq_true.mp hfound
    have hshape := sequenceDenyPatterns_parse q hq
    rw [hr, Option.any_some, Bool.and_eq_true] at hshape
    refine ⟨q, hq, reSearch_eq_true.mpr ⟨r, hr, ?_⟩⟩
    exact search_of_append (c := ';') hshape.1 hshape.2 rfl hsearch
  · rintro ⟨p, hp, hfound⟩
    have hdenied : ∀ s ∈ separators, ∀ d,
        Denied alnum cfg (c ++ s ++ d) ∧ Denied alnum cfg (d ++ s ++ c) := by
      intro s hs d
      obtain ⟨hright, hleft⟩ := found_in_sequence hp hfound hs d
      exact ⟨denied_of_found hcfg hp hright, denied_of_found hcfg hp hleft⟩
    refine ⟨hdenied, ?_⟩
    rintro s hs d command hcommand params confirmed dbusPath r hparam hr
    rcases hcommand with rfl | rfl
    · exact (hdenied s hs d).1.refused hparam hr
    · exact (hdenied s hs d).2.refused hparam hr

/-- With the default patterns, the sequences of a denied command are denied
    exactly when something other than the end of the command makes it match. -/
theorem sequences_denied
    (hcfg : cfg.sshCommandDenyPatterns = SafetyConfig.default.sshCommandDenyPatterns)
    (c : String) :
    (Denied alnum cfg c → SequencesDenied alnum cfg c) ↔
      (Denied alnum cfg c → ∃ p ∈ sequenceDenyPatterns, reSearch alnum p c = .ok true) := by
  rw [sequencesDenied_iff hcfg]

theorem sequences_denied_reboot :
    (Denied (fun _ => false) SafetyConfig.default "reboot" →
        SequencesDenied (fun _ => false) SafetyConfig.default "reboot") ↔
      (Denied (fun _ => false) SafetyConfig.default "reboot" →
        ∃ p ∈ sequenceDenyPatterns, reSearch (fun _ => false) p "reboot" = .ok true) :=
  sequences_denied rfl "reboot"

/-- The defaults, with writes enabled. -/
def writableSafety : SafetyConfig := { SafetyConfig.default with enableWrites := true }

/-- `rm -rf /` is denied, `rm -rf /;ls` is allowed. -/
theorem root_wipe_in_sequence : ¬∀ (c d s : String), s ∈ separators →
    Denied (fun _ => false) writableSafety c →
    Denied (fun _ => false) writableSafety (c ++ s ++ d) ∧
      ∀ r, validateWriteOperation (reSearch fun _ => false) writableSafety "cerbo_ssh_exec"
        [("command", .str (c ++ s ++ d))] true none = .ok r → r.allowed = false := by
  intro h
  have hdenied : Denied (fun _ => false) writableSafety "rm -rf /" := by
    refine (denied_iff rfl _).mpr ?_
    exact ⟨_, List.mem_cons_self, by decide +kernel⟩
  have hallowed : ((validateWriteOperation (reSearch fun _ => false) writableSafety
      "cerbo_ssh_exec" [("command", .str ("rm -rf /" ++ ";" ++ "ls"))] true none).toOption.map
      (·.allowed)) = some true := by
    decide +kernel
  obtain ⟨r, hr, htrue⟩ := Option.map_eq_some_iff.mp hallowed
  have hok : validateWriteOperation (reSearch fun _ => false) writableSafety "cerbo_ssh_exec"
      [("command", .str ("rm -rf /" ++ ";" ++ "ls"))] true none = .ok r := by
    cases hv : validateWriteOperation (reSearch fun _ => false) writableSafety "cerbo_ssh_exec"
        [("command", .str ("rm -rf /" ++ ";" ++ "ls"))] true none with
    | error e => rw [hv] at hr; cases hr
    | ok r' =>
      rw [hv] at hr
      rw [Option.some.inj hr]
  have hfalse := (h "rm -rf /" "ls" ";" List.mem_cons_self hdenied).2 r hok
  rw [htrue] at hfalse
  cases hfalse

end McpVenusOs
