/-
  McpVenusOs.Release.Projections

  What the projections of a plan tell of it.

  Packages are published under projections of the frozen identity: the full
  version, its PEP 440 form, the native build number, an Apple build version.
  But for the candidates that are promoted under their base version, no two
  identities share a package version (`packageVersion_identifies`), and the Apple
  versions are ordered as the build numbers are (`appleTriple_lt_iff`).
-/

import McpVenusOs.Release.Plan

namespace McpVenusOs.Release

open Py

/-! ## Creating and validating -/

/-- The plans that validate against a policy and a source are exactly those that are
    created from them. -/
theorem validatePlan_iff_createPlan {plan : Plan} {policy : Policy} {sourceSha : String} :
    validatePlan plan (some policy) (some sourceSha) = .ok plan ↔
      createPlan plan.baseVersion plan.channel plan.sequence sourceSha policy plan.buildNumber =
        .ok plan := by
  rw [validatePlan_eq_ok]
  constructor
  · rintro ⟨hwf, hpolicy, hsource, -⟩
    obtain ⟨config, hconfig, hdigest, hpromotion, hfloor, hfiles⟩ :=
      matchPolicy_eq_ok.mp (hpolicy policy rfl)
    obtain rfl := hsource sourceSha rfl
    -- every field of the plan is the one that is created
    have hplan : plan = {
        schemaVersion := 1
        baseVersion := plan.baseVersion
        version := plan.version
        channel := plan.channel
        sequence := plan.sequence
        tag := "v" ++ plan.version
        sourceSha := plan.sourceSha
        buildNumber := plan.buildNumber
        policySha256 := policy.digest
        promotion := config.promotion } := by
      rw [← hdigest, ← hpromotion, ← hwf.tag, ← hwf.schema]
    unfold createPlan
    rw [bind_eq_ok]
    refine ⟨config, hconfig, ?_⟩
    rw [bind_eq_ok]
    refine ⟨plan.version, hwf.identity, ?_⟩
    simp only [then_eq_ok, require_eq_ok, pure_eq_ok]
    rw [← hplan]
    exact ⟨hwf.source, hwf.build, hfloor, hfiles, rfl⟩
  · intro h
    obtain ⟨hwf, hpolicy, hsource, -⟩ := createPlan_eq_ok h
    refine ⟨hwf, ?_, ?_, rfl⟩
    · rintro _ ⟨⟩
      exact hpolicy
    · rintro _ ⟨⟩
      exact hsource

/-! ## Package versions -/

/-- A candidate whose bytes become the stable release carry its version already. -/
def Plan.Promoted (plan : Plan) : Prop := plan.channel = "rc" ∧ plan.promotion = "promote-bytes"

instance instDecidablePromoted (plan : Plan) : Decidable plan.Promoted :=
  inferInstanceAs (Decidable (_ ∧ _))

theorem canonical_of_positive {cs : List Char} (h : isPositive cs = true) : CanonicalDigits cs := by
  rw [isPositive, Bool.and_eq_true, isDigits, List.all_eq_true] at h
  obtain ⟨hdigits, hhead⟩ := h
  refine ⟨?_, hdigits, fun hlead => ?_⟩
  · rintro rfl
    cases hhead
  · rw [hlead] at hhead
    cases hhead

/-- The three texts of a nightly suffix, with run and attempt as numbers. -/
structure NightlyParts (s : String) where
  stamp : List Char
  run : List Char
  attempt : List Char
  split : s.toList.splitOn '.' = [stamp, run, attempt]
  run_canonical : CanonicalDigits run
  attempt_canonical : CanonicalDigits attempt

def NightlyParts.number {s : String} (parts : NightlyParts s) : Nat :=
  Nat.ofDigitChars 10 parts.run 0 * 1000000 + Nat.ofDigitChars 10 parts.attempt 0

/-- The PEP 440 version of a plan that is not promoted. -/
inductive PackageShape (plan : Plan) (version : String) : Prop
  | stable (channel : plan.channel = "stable") (sequence : plan.sequence = .none)
      (package : version = plan.baseVersion)
  | beta (n : Int) (channel : plan.channel = "beta") (sequence : plan.sequence = .number n)
      (package : version = plan.baseVersion ++ "b" ++ toString n)
  | rc (n : Int) (channel : plan.channel = "rc") (sequence : plan.sequence = .number n)
      (package : version = plan.baseVersion ++ "rc" ++ toString n)
  | nightly (s : String) (parts : NightlyParts s) (channel : plan.channel = "nightly")
      (sequence : plan.sequence = .text s)
      (attempt : Nat.ofDigitChars 10 parts.attempt 0 < 1000000)
      (package : version = plan.baseVersion ++ ".dev" ++ toString parts.number)

theorem nightlyPackage_eq_ok {base s version : String} (hs : isNightly s = true)
    (h : nightlyPackage base s = .ok version) :
    ∃ parts : NightlyParts s, Nat.ofDigitChars 10 parts.attempt 0 < 1000000 ∧
      version = base ++ ".dev" ++ toString parts.number := by
  rw [isNightly] at hs
  unfold nightlyPackage at h
  split at hs
  · rename_i stamp run attempt hsplit
    rw [hsplit] at h
    simp only [Bool.and_eq_true] at hs
    simp only [bind_eq_ok, intOfDigits_eq_ok, require_eq_ok, pure_eq_ok, Bool.and_eq_true,
      decide_eq_true_eq] at h
    obtain ⟨_, ⟨-, rfl⟩, _, ⟨-, rfl⟩, _, ⟨hattempt, -⟩, rfl⟩ := h
    exact ⟨⟨stamp, run, attempt, hsplit, canonical_of_positive hs.1.2,
      canonical_of_positive hs.2⟩, hattempt, rfl⟩
  · cases hs

theorem package_shape {plan : Plan} {version : String} (hwf : plan.WellFormed)
    (hpromoted : ¬plan.Promoted) (h : packageVersion plan "pep440" = .ok version) :
    PackageShape plan version := by
  unfold packageVersion at h
  rw [Plan.Promoted] at hpromoted
  rw [if_neg hpromoted, if_pos rfl] at h
  obtain ⟨-, ⟨hchannel, hsequence, hversion⟩ | ⟨hchannel, text, htext, hversion⟩⟩ :=
    identity_eq_ok.mp hwf.identity
  · rw [hchannel, hsequence] at h
    cases h
    rw [hversion]
    exact .stable hchannel hsequence rfl
  · simp only [candidateChannels, List.mem_cons, List.not_mem_nil, or_false] at hchannel
    rcases hchannel with hchannel | hchannel | hchannel
    · rcases sequenceText_eq_ok.mp htext with ⟨-, hsequence, hs, -⟩ | ⟨hne, -⟩
      · rw [hchannel, hsequence] at h
        obtain ⟨parts, hattempt, rfl⟩ := nightlyPackage_eq_ok hs h
        exact .nightly text parts hchannel hsequence hattempt rfl
      · exact absurd hchannel hne
    · rcases sequenceText_eq_ok.mp htext with ⟨hne, -⟩ | ⟨-, n, hsequence, -, hn⟩
      · rw [hchannel] at hne
        exact absurd hne (by decide)
      · rw [hchannel, hsequence] at h
        simp only [bind_eq_ok, intText_eq_ok, hn, pure_eq_ok] at h
        obtain ⟨_, ⟨rfl⟩, rfl⟩ := h
        rw [pyStr_eq hn]
        exact .beta n hchannel hsequence rfl
    · rcases sequenceText_eq_ok.mp htext with ⟨hne, -⟩ | ⟨-, n, hsequence, -, hn⟩
      · rw [hchannel] at hne
        exact absurd hne (by decide)
      · rw [hchannel, hsequence] at h
        simp only [bind_eq_ok, intText_eq_ok, hn, pure_eq_ok] at h
        obtain ⟨_, ⟨rfl⟩, rfl⟩ := h
        rw [pyStr_eq hn]
        exact .rc n hchannel hsequence rfl

/-- What a PEP 440 version keeps of a sequence: not the time of a nightly build. -/
def Sequence.untimed : Sequence → Sequence
  | .text s =>
    match s.toList.splitOn '.' with
    | [_, run, attempt] => .text (String.ofList (run ++ '.' :: attempt))
    | _ => .text s
  | sequence => sequence

/-- Only a nightly build has a time. -/
theorem PackageShape.untimed {plan : Plan} {version : String} (h : PackageShape plan version)
    (hchannel : plan.channel ≠ "nightly") : plan.sequence.untimed = plan.sequence := by
  cases h with
  | stable _ hsequence => rw [hsequence]; rfl
  | beta n _ hsequence => rw [hsequence]; rfl
  | rc n _ hsequence => rw [hsequence]; rfl
  | nightly s parts hnightly => exact absurd hnightly hchannel

theorem NightlyParts.untimed {s : String} (parts : NightlyParts s) :
    (Sequence.text s).untimed = .text (String.ofList (parts.run ++ '.' :: parts.attempt)) := by
  rw [Sequence.untimed, parts.split]

/-- Run and attempt can be read off their number. -/
theorem NightlyParts.number_inj {s s' : String} {parts : NightlyParts s} {parts' : NightlyParts s'}
    (h : Nat.ofDigitChars 10 parts.attempt 0 < 1000000)
    (h' : Nat.ofDigitChars 10 parts'.attempt 0 < 1000000) (heq : parts.number = parts'.number) :
    (Sequence.text s).untimed = (Sequence.text s').untimed := by
  rw [NightlyParts.number, NightlyParts.number] at heq
  have hrun : Nat.ofDigitChars 10 parts.run 0 = Nat.ofDigitChars 10 parts'.run 0 := by omega
  have hattempt : Nat.ofDigitChars 10 parts.attempt 0 = Nat.ofDigitChars 10 parts'.attempt 0 := by
    omega
  rw [parts.untimed, parts'.untimed, ← toDigits_ofDigitChars parts.run_canonical,
    ← toDigits_ofDigitChars parts.attempt_canonical, hrun, hattempt,
    toDigits_ofDigitChars parts'.run_canonical, toDigits_ofDigitChars parts'.attempt_canonical]

/-- Numbers and base versions have no letters. -/
theorem letter_notMem {base : String} (hbase : isBase base = true) {c : Char}
    (hc : c ∈ ['b', 'r', 'd']) : c ∉ base.toList ∧ ∀ n : Int, c ∉ (toString n).toList := by
  obtain ⟨hdigit, hdash, hdot⟩ : c.isDigit = false ∧ c ≠ '-' ∧ c ≠ '.' := by
    simp only [List.mem_cons, List.not_mem_nil, or_false] at hc
    rcases hc with rfl | rfl | rfl <;> decide
  refine ⟨fun hmem => ?_, fun n => notMem_toString hdigit hdash n⟩
  rcases mem_base hbase hmem with h | h
  · rw [hdigit] at h
    cases h
  · exact hdot h

/-- The letter that tells the channel of a PEP 440 version, if it has one. -/
def channelLetter (channel : String) : Option Char :=
  if channel = "beta" then some 'b'
  else if channel = "rc" then some 'r'
  else if channel = "nightly" then some 'd'
  else none

/-- A version has the letter of its channel and no other one of the three. -/
theorem PackageShape.letter {plan : Plan} {version : String} (h : PackageShape plan version)
    (hbase : isBase plan.baseVersion = true) {c : Char} (hc : c ∈ ['b', 'r', 'd']) :
    c ∈ version.toList ↔ channelLetter plan.channel = some c := by
  obtain ⟨hnot, htext⟩ := letter_notMem hbase hc
  have hnat : ∀ n : Nat, c ∉ (toString n).toList := fun n => htext n
  cases h with
  | stable hchannel _ hversion =>
    rw [hchannel, hversion]
    exact iff_of_false hnot (by simp [channelLetter])
  | beta n hchannel _ hversion =>
    have hmark : c ∈ "b".toList ↔ channelLetter "beta" = some c := by
      simp only [List.mem_cons, List.not_mem_nil, or_false] at hc
      rcases hc with rfl | rfl | rfl <;> decide
    rw [hchannel, hversion, String.toList_append, String.toList_append, List.mem_append,
      List.mem_append]
    simp only [hnot, htext n, false_or, or_false]
    exact hmark
  | rc n hchannel _ hversion =>
    have hmark : c ∈ "rc".toList ↔ channelLetter "rc" = some c := by
      simp only [List.mem_cons, List.not_mem_nil, or_false] at hc
      rcases hc with rfl | rfl | rfl <;> decide
    rw [hchannel, hversion, String.toList_append, String.toList_append, List.mem_append,
      List.mem_append]
    simp only [hnot, htext n, false_or, or_false]
    exact hmark
  | nightly s parts hchannel _ _ hversion =>
    have hmark : c ∈ ".dev".toList ↔ channelLetter "nightly" = some c := by
      simp only [List.mem_cons, List.not_mem_nil, or_false] at hc
      rcases hc with rfl | rfl | rfl <;> decide
    rw [hchannel, hversion, String.toList_append, String.toList_append, List.mem_append,
      List.mem_append]
    simp only [hnot, hnat, false_or, or_false]
    exact hmark

theorem channelLetter_injective {channel channel' : String}
    (h : channel ∈ "stable" :: candidateChannels) (h' : channel' ∈ "stable" :: candidateChannels)
    (heq : channelLetter channel = channelLetter channel') : channel = channel' := by
  have hall : ∀ c ∈ "stable" :: candidateChannels, ∀ c' ∈ "stable" :: candidateChannels,
      channelLetter c = channelLetter c' → c = c' := by decide
  exact hall channel h channel' h' heq

theorem PackageShape.channel_mem {plan : Plan} {version : String} (h : PackageShape plan version) :
    plan.channel ∈ "stable" :: candidateChannels := by
  cases h with
  | stable hchannel _ _ => rw [hchannel]; decide
  | beta n hchannel _ _ => rw [hchannel]; decide
  | rc n hchannel _ _ => rw [hchannel]; decide
  | nightly s parts hchannel _ _ _ => rw [hchannel]; decide

/-- One PEP 440 version is of one channel. -/
theorem PackageShape.channel_eq {plan plan' : Plan} {version : String}
    (h : PackageShape plan version) (h' : PackageShape plan' version)
    (hbase : isBase plan.baseVersion = true) (hbase' : isBase plan'.baseVersion = true) :
    plan.channel = plan'.channel := by
  refine channelLetter_injective h.channel_mem h'.channel_mem ?_
  have hletters : ∀ channel c, channelLetter channel = some c → c ∈ ['b', 'r', 'd'] := by
    intro channel c
    unfold channelLetter
    grind
  -- both have the letters of the version
  cases hl : channelLetter plan.channel with
  | some c =>
    have hc := hletters _ _ hl
    exact ((h'.letter hbase' hc).mp ((h.letter hbase hc).mpr hl)).symm
  | none =>
    cases hl' : channelLetter plan'.channel with
    | none => rfl
    | some c =>
      have hc := hletters _ _ hl'
      rw [(h.letter hbase hc).mp ((h'.letter hbase' hc).mpr hl')] at hl
      cases hl

/-- Texts are cut at the first occurrence of a mark that starts with `c`. -/
theorem cut_mark {a b mark x y : String} {c : Char} (ha : c ∉ a.toList) (hb : c ∉ b.toList)
    (hmark : mark.toList.head? = some c) (h : a ++ mark ++ x = b ++ mark ++ y) :
    a = b ∧ x = y := by
  obtain ⟨rest, hrest⟩ : ∃ rest, mark.toList = c :: rest := List.head?_eq_some_iff.mp hmark
  have hlist := congrArg String.toList h
  simp only [String.toList_append, hrest, List.append_assoc, List.cons_append] at hlist
  obtain ⟨hab, hxy⟩ := cut_inj ha hb hlist
  exact ⟨String.toList_inj.mp hab, String.toList_inj.mp (List.append_cancel_left hxy)⟩

/-- Two plans with one PEP 440 version have one base version, channel and, but for the
    time of a nightly build, one sequence. -/
theorem PackageShape.identifies {plan plan' : Plan} {version : String}
    (h : PackageShape plan version) (h' : PackageShape plan' version)
    (hbase : isBase plan.baseVersion = true) (hbase' : isBase plan'.baseVersion = true) :
    plan.baseVersion = plan'.baseVersion ∧ plan.channel = plan'.channel ∧
      plan.sequence.untimed = plan'.sequence.untimed := by
  have hchannels := h.channel_eq h' hbase hbase'
  have hnot : ∀ c ∈ ['b', 'r', 'd'], c ∉ plan.baseVersion.toList ∧ c ∉ plan'.baseVersion.toList :=
    fun c hc => ⟨(letter_notMem hbase hc).1, (letter_notMem hbase' hc).1⟩
  have hother : ∀ {a b : String}, plan.channel = a → plan'.channel = b → a ≠ b → False :=
    fun ha hb hne => hne (ha.symm.trans (hchannels.trans hb))
  cases h with
  | stable hc hs hv =>
    cases h' with
    | stable hc' hs' hv' => exact ⟨hv.symm.trans hv', hchannels, by rw [hs, hs']⟩
    | beta _ hc' | rc _ hc' | nightly _ _ hc' => exact (hother hc hc' (by decide)).elim
  | beta n hc hs hv =>
    cases h' with
    | beta n' hc' hs' hv' =>
      obtain ⟨hb, hn⟩ := cut_mark (hnot 'b' (by decide)).1 (hnot 'b' (by decide)).2 rfl
        (hv.symm.trans hv')
      exact ⟨hb, hchannels, by rw [hs, hs', toString_int_injective hn]⟩
    | stable hc' | rc _ hc' | nightly _ _ hc' => exact (hother hc hc' (by decide)).elim
  | rc n hc hs hv =>
    cases h' with
    | rc n' hc' hs' hv' =>
      obtain ⟨hb, hn⟩ := cut_mark (hnot 'r' (by decide)).1 (hnot 'r' (by decide)).2 rfl
        (hv.symm.trans hv')
      exact ⟨hb, hchannels, by rw [hs, hs', toString_int_injective hn]⟩
    | stable hc' | beta _ hc' | nightly _ _ hc' => exact (hother hc hc' (by decide)).elim
  | nightly s parts hc hs hattempt hv =>
    cases h' with
    | nightly s' parts' hc' hs' hattempt' hv' =>
      -- the dot before the mark is not one of the base version
      have hdot : ∀ b m : String, b ++ ".dev" ++ m = (b ++ ".") ++ "dev" ++ m := by
        intro b m
        rw [← String.toList_inj]
        simp
      have hnotd : ∀ b : String, 'd' ∉ b.toList → 'd' ∉ (b ++ ".").toList := by
        intro b hb
        rw [String.toList_append, List.mem_append, not_or]
        exact ⟨hb, by decide⟩
      rw [hv, hdot, hdot] at hv'
      obtain ⟨hb, hn⟩ := cut_mark (hnotd _ (hnot 'd' (by decide)).1)
        (hnotd _ (hnot 'd' (by decide)).2) rfl hv'
      have hbase'' : plan.baseVersion = plan'.baseVersion := by
        have hlist := congrArg String.toList hb
        rw [String.toList_append, String.toList_append] at hlist
        exact String.toList_inj.mp (List.append_cancel_right hlist)
      have hnumber : parts.number = parts'.number := by
        have hint : (parts.number : Int) = parts'.number := toString_int_injective hn
        omega
      refine ⟨hbase'', hchannels, ?_⟩
      rw [hs, hs']
      exact NightlyParts.number_inj hattempt hattempt' hnumber
    | stable hc' | beta _ hc' | rc _ hc' => exact (hother hc hc' (by decide)).elim

theorem packageVersion_semver {plan : Plan} {version : String} (hpromoted : ¬plan.Promoted)
    (h : packageVersion plan "semver" = .ok version) : plan.version = version := by
  unfold packageVersion at h
  rw [Plan.Promoted] at hpromoted
  rw [if_neg hpromoted, if_neg (by decide)] at h
  exact Except.ok.inj h

/-- No two releases share a package version: but for candidates that are promoted,
    which carry the version of their stable release, the version of a package tells
    base version, channel and sequence, all of it but for the time of a nightly build
    under PEP 440. -/
theorem packageVersion_identifies {plan plan' : Plan} {ecosystem version : String}
    (hecosystem : ecosystem ∈ ["semver", "pep440"]) (hwf : plan.WellFormed)
    (hwf' : plan'.WellFormed) (hpromoted : ¬plan.Promoted) (hpromoted' : ¬plan'.Promoted)
    (h : packageVersion plan ecosystem = .ok version)
    (h' : packageVersion plan' ecosystem = .ok version) :
    plan.baseVersion = plan'.baseVersion ∧ plan.channel = plan'.channel ∧
      plan.sequence.untimed = plan'.sequence.untimed ∧
      (ecosystem = "semver" ∨ plan.channel ≠ "nightly" → plan.sequence = plan'.sequence) := by
  simp only [List.mem_cons, List.not_mem_nil, or_false] at hecosystem
  rcases hecosystem with rfl | rfl
  · have hversion : plan.version = plan'.version :=
      (packageVersion_semver hpromoted h).trans (packageVersion_semver hpromoted' h').symm
    obtain ⟨hbase, hchannel, hsequence⟩ :=
      identity_injective (hversion ▸ hwf.identity) hwf'.identity
    exact ⟨hbase, hchannel, by rw [hsequence], fun _ => hsequence⟩
  · have hshape := package_shape hwf hpromoted h
    have hshape' := package_shape hwf' hpromoted' h'
    obtain ⟨hbase, hchannel, hsequence⟩ := hshape.identifies hshape'
      (identity_eq_ok.mp hwf.identity).1 (identity_eq_ok.mp hwf'.identity).1
    refine ⟨hbase, hchannel, hsequence, fun hother => ?_⟩
    have hnightly : plan.channel ≠ "nightly" := hother.resolve_left (by decide)
    rwa [hshape.untimed hnightly, hshape'.untimed (hchannel ▸ hnightly)] at hsequence

def nightlyFixture (stamp : String) : Plan where
  schemaVersion := 1
  baseVersion := "0.3.0"
  version := "0.3.0-nightly." ++ stamp ++ ".7.1"
  channel := "nightly"
  sequence := .text (stamp ++ ".7.1")
  tag := "v0.3.0-nightly." ++ stamp ++ ".7.1"
  sourceSha := String.ofList (List.replicate 40 'b')
  buildNumber := some 1
  policySha256 := String.ofList (List.replicate 64 'a')
  promotion := "promote-bytes"

/-- Two plans for one attempt of one run have one package version. -/
theorem packageVersion_identifies_nightly :
    ∃ version, packageVersion (nightlyFixture "20260930120500") "pep440" = .ok version ∧
      packageVersion (nightlyFixture "20260930120501") "pep440" = .ok version ∧
      (nightlyFixture "20260930120500").sequence.untimed =
        (nightlyFixture "20260930120501").sequence.untimed := by
  have h : packageVersion (nightlyFixture "20260930120500") "pep440" = .ok "0.3.0.dev7000001" := by
    decide +kernel
  have h' : packageVersion (nightlyFixture "20260930120501") "pep440" = .ok "0.3.0.dev7000001" := by
    decide +kernel
  have hwf : (nightlyFixture "20260930120500").WellFormed :=
    ⟨by decide, by decide +kernel, by decide, by decide, by decide, by decide, by decide⟩
  have hwf' : (nightlyFixture "20260930120501").WellFormed :=
    ⟨by decide, by decide +kernel, by decide, by decide, by decide, by decide, by decide⟩
  exact ⟨_, h, h', (packageVersion_identifies (by decide) hwf hwf' (by decide) (by decide) h
    h').2.2.1⟩

/-! ## Apple build versions -/

/-- The lexicographic order of three components. -/
def TripleLt (a b : Int × Int × Int) : Prop :=
  a.1 < b.1 ∨ a.1 = b.1 ∧ (a.2.1 < b.2.1 ∨ a.2.1 = b.2.1 ∧ a.2.2 < b.2.2)

/-- Apple compares the components as numbers, and so orders builds by their numbers. -/
theorem appleTriple_lt_iff (m n : Int) : m < n ↔ TripleLt (appleTriple m) (appleTriple n) := by
  simp only [TripleLt, appleTriple]
  omega

end McpVenusOs.Release
