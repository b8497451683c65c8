/-
  McpVenusOs.Server.Tanks

  `get_tank_level` of `server.py`: the tank levels that a companion service
  publishes under `tank/<n>/Level`.

  A topic under `tank/` is any publisher's text.  A discovered identifier is
  turned into a number and back into the key that is read, so the accepted
  identifiers are the canonical decimals and each of them is its own topic
  (`discoverTank_eq_some`).
-/

import Mathlib.Data.List.Forall2
import McpVenusOs.Server.Reads

namespace McpVenusOs

open Py TopicFilter

namespace Server

/-- `identifier.isascii()` -/
def isAscii (s : String) : Bool := s.toList.all fun c => c.toNat < 128

/-- `identifier.isdecimal()`; `decimal` is the digit value beyond ASCII. -/
def isDecimal (decimal : Char → Option Nat) (s : String) : Bool :=
  !s.toList.isEmpty &&
    s.toList.all fun c => c.isDigit || (decide (128 ≤ c.toNat) && (decimal c).isSome)

/-- The tank that a topic announces; only canonical topics match the key read below. -/
def discoverTank (decimal : Char → Option Nat) (topic : String) :
    Except PyError (Option Int) :=
  match levels topic with
  | [first, identifier, last] =>
    if first ≠ "tank" ∨ last ≠ "Level" then .ok none
    else if !isAscii identifier || !isDecimal decimal identifier then .ok none
    else
      match pyInt decimal identifier with
      | none => .ok none
      | some discovered =>
        match pyStr discovered with
        | none => .error .valueError
        | some text => .ok (if text = identifier then some discovered else none)
  | _ => .ok none

/-- `sorted(instances)` -/
def discoverTanks (decimal : Char → Option Nat) (topics : List String) :
    Except PyError (List Int) := do
  let found ← topics.mapM (discoverTank decimal)
  return (found.filterMap id).dedup.insertionSort (· ≤ ·)

/-- The reading of one target. -/
def tankReading (env : ReadEnv) (c : MqttClient) (inst : Int) : Except PyError Dict :=
  match pyStr inst with
  | none => .error .valueError
  | some text =>
    match c.cache.lookup ("tank/" ++ text ++ "/Level") with
    | none => .ok [("instance", .int inst), ("level", .null), ("stale", .bool true)]
    | some (value, receivedAt) =>
      let age : PyFloat := .finite (env.clock "tank" inst "Level" - receivedAt)
      .ok [("instance", .int inst), ("level", value),
        ("stale", .bool (env.mqtt.config.staleAfterSeconds.lt age)),
        ("age_seconds", .float (age.round 1))]

/-- `targets`: the instance that is asked for, or all that are discovered. -/
def tankTargets (env : ReadEnv) (c : MqttClient) (inst : Int) : Except PyError (List Int) :=
  if 0 < inst then .ok [inst] else discoverTanks env.decimal c.cache.keys

/-- A single reading is the answer itself. -/
def tankAnswer : List Dict → Dict
  | [reading] => Dict.union [("success", .bool true)] reading
  | readings => [("success", .bool true), ("readings", .arr (readings.map .obj))]

/-- `get_tank_level` -/
def getTankLevel (env : ReadEnv) (c : MqttClient) (inst : Int) : Except PyError Dict := do
  let targets ← tankTargets env c inst
  let readings ← targets.mapM (tankReading env c)
  return tankAnswer readings

/-! ## The topics of tanks -/

/-- `tank/<n>/Level`, where `<n>` is a canonical decimal that Python can read. -/
def TankTopic (topic : String) (n : Nat) : Prop :=
  ∃ digits, CanonicalDigits digits ∧ digits.length ≤ maxStrDigits ∧
    topic = "tank/" ++ String.ofList digits ++ "/Level" ∧ Nat.ofDigitChars 10 digits 0 = n

theorem tankTopic_iff {topic : String} {n : Nat} : TankTopic topic n ↔
    (Nat.toDigits 10 n).length ≤ maxStrDigits ∧
      topic = "tank/" ++ toString (Int.ofNat n) ++ "/Level" := by
  have htext : ∀ m : Nat, toString (Int.ofNat m) = String.ofList (Nat.toDigits 10 m) := by
    intro m
    rw [toString_ofNat, ← String.toList_inj, Nat.toList_repr, String.toList_ofList]
  constructor
  · rintro ⟨digits, hcanonical, hlength, rfl, rfl⟩
    rw [htext, toDigits_ofDigitChars hcanonical]
    exact ⟨hlength, rfl⟩
  · rintro ⟨hlength, rfl⟩
    refine ⟨Nat.toDigits 10 n, canonicalDigits_toDigits n, hlength, ?_, ?_⟩
    · rw [htext]
    · exact Nat.ofDigitChars_ten_toDigits

/-- The topic determines the tank, and the tank the topic. -/
theorem tankTopic_inj {topic topic' : String} {n n' : Nat} (h : TankTopic topic n)
    (h' : TankTopic topic' n') : topic = topic' ↔ n = n' := by
  obtain ⟨-, rfl⟩ := tankTopic_iff.mp h
  obtain ⟨-, rfl⟩ := tankTopic_iff.mp h'
  constructor
  · intro heq
    have hlist := congrArg String.toList heq
    simp only [String.toList_append, List.append_assoc] at hlist
    have htext := List.append_cancel_right (List.append_cancel_left hlist)
    exact Int.ofNat.inj (toString_int_injective (String.toList_inj.mp htext))
  · rintro rfl
    rfl

/-- The text of a tank has no slash, so its topic has three levels. -/
theorem levels_tank {text : String} (h : '/' ∉ text.toList) :
    levels ("tank/" ++ text ++ "/Level") = ["tank", text, "Level"] := by
  have hparts : "tank/" ++ text ++ "/Level" = "tank" ++ "/" ++ text ++ "/" ++ "Level" := by
    have htank : "tank/" = "tank" ++ "/" := rfl
    have hlevel : "/Level" = "/" ++ "Level" := rfl
    rw [htank, hlevel, ← String.append_assoc]
  have hlevel : ∀ s : String, '/' ∉ s.toList → levels s = [s] := fun s => levels_of_no_slash
  rw [hparts, levels_append_slash, levels_append_slash, hlevel "tank" (by decide), hlevel text h,
    hlevel "Level" (by decide)]
  rfl

section Discovery

variable {decimal : Char → Option Nat} {topic : String}

/-- An ASCII identifier that is decimal consists of digits. -/
theorem digits_of_decimal {s : String} (h : (!isAscii s || !isDecimal decimal s) = false) :
    ∀ c ∈ s.toList, c.isDigit = true := by
  rw [Bool.or_eq_false_iff, Bool.not_eq_false', Bool.not_eq_false', isAscii, isDecimal,
    Bool.and_eq_true, List.all_eq_true, List.all_eq_true] at h
  intro c hc
  have hascii : c.toNat < 128 := of_decide_eq_true (h.1 c hc)
  have hdecimal := h.2.2 c hc
  rw [decide_eq_false (by omega : ¬ 128 ≤ c.toNat), Bool.false_and, Bool.or_false] at hdecimal
  exact hdecimal

theorem decimal_of_digits {cs : List Char} (hne : cs ≠ []) (h : ∀ c ∈ cs, c.isDigit = true) :
    (!isAscii (String.ofList cs) || !isDecimal decimal (String.ofList cs)) = false := by
  rw [Bool.or_eq_false_iff, Bool.not_eq_false', Bool.not_eq_false', isAscii, isDecimal,
    Bool.and_eq_true, List.all_eq_true, List.all_eq_true, String.toList_ofList]
  refine ⟨fun c hc => ?_, ?_, fun c hc => ?_⟩
  · have hrange := Char.isDigit_iff_toNat.mp (h c hc)
    have h9 : '9'.toNat = 57 := rfl
    exact decide_eq_true (by omega)
  · rwa [Bool.not_eq_true', List.isEmpty_eq_false_iff]
  · rw [h c hc, Bool.true_or]

theorem slash_notMem_of_digits {cs : List Char} (h : ∀ c ∈ cs, c.isDigit = true) : '/' ∉ cs :=
  fun hmem => absurd (h _ hmem) (by decide)

/-- An identifier that is read and written back is the text of a tank. -/
theorem tankTopic_of_pyInt {identifier : String} {n : Int}
    (hdigits : ∀ c ∈ identifier.toList, c.isDigit = true) (hn : pyInt decimal identifier = some n)
    (htext : toString n = identifier) :
    ∃ m : Nat, n = m ∧ TankTopic ("tank/" ++ identifier ++ "/Level") m := by
  obtain ⟨hlength, -⟩ := Option.ite_none_right_eq_some.mp (pyStr_of_pyInt hn)
  cases n with
  | ofNat m =>
    rw [Int.ofNat_eq_natCast, Int.natAbs_natCast] at hlength
    exact ⟨m, rfl, tankTopic_iff.mpr ⟨hlength, by rw [← htext]⟩⟩
  | negSucc m =>
    -- a minus sign is no digit
    have hminus : '-' ∈ identifier.toList := by
      rw [← htext, toString_negSucc, String.toList_append]
      exact List.mem_append_left _ (List.mem_singleton_self _)
    exact absurd (hdigits _ hminus) (by decide)

/-- A topic is discovered exactly when it is the topic of a tank, and never raises. -/
theorem discoverTank_spec (decimal : Char → Option Nat) (topic : String) :
    ∃ found, discoverTank decimal topic = .ok found ∧
      ∀ inst, found = some inst ↔ ∃ n : Nat, inst = n ∧ TankTopic topic n := by
  -- what the topic of a tank passes
  have haccept : ∀ n, TankTopic topic n → discoverTank decimal topic = .ok (some (n : Int)) := by
    intro n hn
    obtain ⟨hlength, rfl⟩ := tankTopic_iff.mp hn
    have htext : (toString (Int.ofNat n)).toList = Nat.toDigits 10 n := by
      rw [toString_ofNat, Nat.toList_repr]
    have hdigits : ∀ c ∈ Nat.toDigits 10 n, c.isDigit = true := (canonicalDigits_toDigits n).digits
    have hdecimal : (!isAscii (String.ofList (Nat.toDigits 10 n)) ||
        !isDecimal decimal (String.ofList (Nat.toDigits 10 n))) = false :=
      decimal_of_digits Nat.toDigits_ne_nil hdigits
    rw [← htext, String.ofList_toList] at hdecimal
    have hstr : pyStr (Int.ofNat n) = some (toString (Int.ofNat n)) := if_pos hlength
    have hslash : '/' ∉ (toString (Int.ofNat n)).toList := by
      rw [htext]
      exact slash_notMem_of_digits hdigits
    have hlevels := levels_tank hslash
    have hint : pyInt decimal (toString (Int.ofNat n)) = some (Int.ofNat n) := pyInt_pyStr hstr
    simp only [discoverTank, hlevels, hdecimal, hint, hstr, ne_eq, not_true_eq_false, or_self,
      Bool.false_eq_true, if_false, if_true]
    rfl
  -- and only such a topic is accepted
  have hfound : ∃ found, discoverTank decimal topic = .ok found ∧
      ∀ inst, found = some inst → ∃ n : Nat, inst = n ∧ TankTopic topic n := by
    rw [discoverTank]
    split
    · rename_i first identifier last hlevels
      split
      · exact ⟨none, rfl, fun inst h => nomatch h⟩
      · rename_i hends
        obtain ⟨rfl, rfl⟩ : first = "tank" ∧ last = "Level" := by
          simpa only [not_or, ne_eq, not_not] using hends
        split
        · exact ⟨none, rfl, fun inst h => nomatch h⟩
        · rename_i hdecimal
          have hdigits := digits_of_decimal (Bool.eq_false_of_not_eq_true hdecimal)
          have htopic := levels_injective
            (hlevels.trans (levels_tank (slash_notMem_of_digits hdigits)).symm)
          split
          · exact ⟨none, rfl, fun inst h => nomatch h⟩
          · rename_i discovered hint
            rw [pyStr_of_pyInt hint]
            refine ⟨_, rfl, fun inst h => ?_⟩
            obtain ⟨htext, heq⟩ := Option.ite_none_right_eq_some.mp h
            rw [htopic, ← Option.some.inj heq]
            exact tankTopic_of_pyInt hdigits hint htext
    · exact ⟨none, rfl, fun inst h => nomatch h⟩
  obtain ⟨found, hok, hsound⟩ := hfound
  refine ⟨found, hok, fun inst => ⟨hsound inst, ?_⟩⟩
  rintro ⟨n, rfl, hn⟩
  exact Except.ok.inj (hok.symm.trans (haccept n hn))

end Discovery

/-! ## The readings -/

/-- A loop no step of which raises. -/
theorem mapM_ok {α β : Type} {f : α → Except PyError β} {l : List α}
    (h : ∀ x ∈ l, ∃ y, f x = .ok y) :
    ∃ ys, l.mapM f = .ok ys ∧ List.Forall₂ (fun x y => f x = .ok y) l ys := by
  induction l with
  | nil => exact ⟨[], rfl, .nil⟩
  | cons x l ih =>
    obtain ⟨y, hy⟩ := h x List.mem_cons_self
    obtain ⟨ys, hys, hall⟩ := ih fun z hz => h z (List.mem_cons_of_mem x hz)
    refine ⟨y :: ys, ?_, .cons hy hall⟩
    rw [List.mapM_cons, hy, hys]
    rfl

theorem mem_of_mapM_ok {α β : Type} {f : α → Except PyError β} {l : List α} {ys : List β}
    (h : List.Forall₂ (fun x y => f x = .ok y) l ys) {y : β} :
    y ∈ ys ↔ ∃ x ∈ l, f x = .ok y := by
  induction h with
  | nil => simp
  | @cons x z l ys hz _ ih =>
    have hhead : f x = .ok y ↔ y = z := by
      rw [hz, Except.ok.injEq]
      exact eq_comm
    rw [List.mem_cons, ih]
    simp only [List.mem_cons, exists_eq_or_imp, hhead]

/-- The instances that are discovered are those of the cached tank topics, in order. -/
theorem discoverTanks_spec (decimal : Char → Option Nat) (topics : List String) :
    ∃ tanks : List Nat, discoverTanks decimal topics = .ok (tanks.map Int.ofNat) ∧
      tanks.Pairwise (· < ·) ∧ ∀ n, n ∈ tanks ↔ ∃ topic ∈ topics, TankTopic topic n := by
  -- no topic makes the loop raise
  obtain ⟨found, hfound, hall⟩ := mapM_ok (l := topics) fun topic _ =>
    (discoverTank_spec decimal topic).imp fun _ h => h.1
  have hok : discoverTanks decimal topics =
      .ok ((found.filterMap id).dedup.insertionSort (· ≤ ·)) := by
    rw [discoverTanks, hfound]
    rfl
  generalize hlist : (found.filterMap id).dedup.insertionSort (· ≤ ·) = insts at hok
  -- a discovered number is the one of a topic, and the other way round
  have hmem : ∀ inst : Int, inst ∈ insts ↔ ∃ n : Nat, inst = n ∧ ∃ topic ∈ topics,
      TankTopic topic n := by
    intro inst
    rw [← hlist, List.mem_insertionSort, List.mem_dedup]
    simp only [List.mem_filterMap, id_eq, exists_eq_right, mem_of_mapM_ok hall]
    constructor
    · rintro ⟨topic, htopic, hdiscovered⟩
      obtain ⟨found', hfound', hspec⟩ := discoverTank_spec decimal topic
      obtain rfl := Except.ok.inj (hfound'.symm.trans hdiscovered)
      obtain ⟨n, hn, htank⟩ := (hspec inst).mp rfl
      exact ⟨n, hn, topic, htopic, htank⟩
    · rintro ⟨n, hn, topic, htopic, htank⟩
      obtain ⟨found', hfound', hspec⟩ := discoverTank_spec decimal topic
      exact ⟨topic, htopic, by rw [hfound', (hspec inst).mpr ⟨n, hn, htank⟩]⟩
  -- sorted, and without duplicates
  have hascending : insts.Pairwise (· < ·) := by
    have hsorted : insts.Pairwise (· ≤ ·) := by
      rw [← hlist]
      exact List.pairwise_insertionSort _ _
    have hnodup : insts.Nodup := by
      rw [← hlist]
      exact (List.perm_insertionSort _ _).nodup_iff.mpr (List.nodup_dedup _)
    exact hsorted.imp₂ (fun _ _ hle hne => lt_of_le_of_ne hle hne) hnodup
  -- no discovered number is negative
  have hnat : (insts.map Int.toNat).map Int.ofNat = insts := by
    rw [List.map_map]
    refine (List.map_congr_left fun inst hinst => ?_).trans (List.map_id _)
    obtain ⟨n, rfl, -⟩ := (hmem inst).mp hinst
    rfl
  refine ⟨insts.map Int.toNat, by rw [hok, hnat], ?_, fun n => ?_⟩
  · rw [← hnat, List.pairwise_map] at hascending
    exact hascending.imp fun hlt => Int.ofNat_lt.mp hlt
  · have hcast : n ∈ insts.map Int.toNat ↔ Int.ofNat n ∈ insts := by
      conv_rhs => rw [← hnat]
      exact (List.mem_map_of_injective fun _ _ => Int.ofNat.inj).symm
    rw [hcast, hmem]
    constructor
    · rintro ⟨m, hm, htopic⟩
      rwa [Int.ofNat.inj hm]
    · exact fun htopic => ⟨n, rfl, htopic⟩

/-! ## Discovery is exact -/

/-- The reading of a cached tank: its own value, and its own age. -/
def TankReading (env : ReadEnv) (c : MqttClient) (n : Nat) (reading : Dict) : Prop :=
  ∃ topic value receivedAt, TankTopic topic n ∧ c.cache.lookup topic = some (value, receivedAt) ∧
    reading = [("instance", .int n), ("level", value),
      ("stale", .bool (env.mqtt.config.staleAfterSeconds.lt
        (.finite (env.clock "tank" n "Level" - receivedAt)))),
      ("age_seconds", .float (PyFloat.round (.finite (env.clock "tank" n "Level" - receivedAt)) 1))]

/-- One reading for each cached tank topic, in ascending order. -/
structure DiscoveredTanks (env : ReadEnv) (c : MqttClient) (tanks : List Nat)
    (readings : List Dict) : Prop where
  ascending : tanks.Pairwise (· < ·)
  exact : ∀ n, n ∈ tanks ↔ ∃ topic ∈ c.cache.keys, TankTopic topic n
  readings : List.Forall₂ (TankReading env c) tanks readings

section Answer

variable {env : ReadEnv} {c c' : MqttClient}

theorem getTankLevel_eq {inst : Int} {targets : List Int} {readings : List Dict}
    (htargets : tankTargets env c inst = .ok targets)
    (hreadings : targets.mapM (tankReading env c) = .ok readings) :
    getTankLevel env c inst = .ok (tankAnswer readings) := by
  have hbind : getTankLevel env c inst = (tankTargets env c inst).bind fun targets =>
      (targets.mapM (tankReading env c)).bind fun readings => .ok (tankAnswer readings) := rfl
  rw [hbind, htargets, Except.bind, hreadings, Except.bind]

/-- The reading of a tank whose topic is cached. -/
theorem tankReading_of_cached {n : Nat} {topic : String} (hmem : topic ∈ c.cache.keys)
    (htopic : TankTopic topic n) :
    ∃ reading, tankReading env c n = .ok reading ∧ TankReading env c n reading := by
  obtain ⟨hlength, rfl⟩ := tankTopic_iff.mp htopic
  have hstr : pyStr (n : Int) = some (toString (Int.ofNat n)) := if_pos hlength
  obtain ⟨⟨value, receivedAt⟩, hlookup⟩ :=
    Option.isSome_iff_exists.mp (AList.lookup_isSome.mpr (AList.mem_keys.mp hmem))
  refine ⟨_, ?_, _, value, receivedAt, htopic, hlookup, rfl⟩
  simp only [tankReading, hstr, hlookup]

theorem discovered_of_cache (env : ReadEnv) (c : MqttClient) {inst : Int} (h : inst ≤ 0) :
    ∃ tanks readings, DiscoveredTanks env c tanks readings ∧
      getTankLevel env c inst = .ok (tankAnswer readings) := by
  obtain ⟨tanks, htanks, hascending, hexact⟩ := discoverTanks_spec env.decimal c.cache.keys
  have hread : ∀ n ∈ tanks, ∃ reading, tankReading env c n = .ok reading ∧
      TankReading env c n reading := by
    intro n hn
    obtain ⟨topic, hmem, htopic⟩ := (hexact n).mp hn
    exact tankReading_of_cached hmem htopic
  obtain ⟨readings, hreadings, hall⟩ := mapM_ok (f := tankReading env c)
    (l := tanks.map Int.ofNat) fun inst hinst => by
      obtain ⟨n, hn, rfl⟩ := List.mem_map.mp hinst
      exact (hread n hn).imp fun _ hr => hr.1
  refine ⟨tanks, readings, ⟨hascending, hexact, ?_⟩, getTankLevel_eq ?_ hreadings⟩
  · rw [List.forall₂_map_left_iff] at hall
    have hboth := (List.forall₂_and_left _ _).mpr ⟨fun n (hn : n ∈ tanks) => hn, hall⟩
    refine hboth.imp fun n reading hr => ?_
    obtain ⟨reading', hok, htank⟩ := hread n hr.1
    obtain rfl := Except.ok.inj (hok.symm.trans hr.2)
    exact htank
  · rw [tankTargets, if_neg (by omega), htanks]

/-- The readings depend on the entries of the tank topics only. -/
theorem DiscoveredTanks.unique {tanks tanks' : List Nat} {readings readings' : List Dict}
    (h : DiscoveredTanks env c tanks readings) (h' : DiscoveredTanks env c' tanks' readings')
    (hsame : ∀ topic n, TankTopic topic n → c'.cache.lookup topic = c.cache.lookup topic) :
    readings' = readings := by
  -- the same numbers are announced, so the ascending lists are one
  have hmem : ∀ n, n ∈ tanks' ↔ n ∈ tanks := by
    intro n
    rw [h.exact, h'.exact]
    refine exists_congr fun topic => and_congr_left fun htopic => ?_
    rw [← AList.mem_keys, ← AList.mem_keys, ← AList.lookup_isSome, ← AList.lookup_isSome,
      hsame topic n htopic]
  have hnodup : ∀ {l : List Nat}, l.Pairwise (· < ·) → l.Nodup := fun hl => hl.imp Nat.ne_of_lt
  have hperm : tanks'.Perm tanks :=
    (List.perm_ext_iff_of_nodup (hnodup h'.ascending) (hnodup h.ascending)).mpr hmem
  obtain rfl : tanks' = tanks := hperm.eq_of_pairwise
    (fun a b _ _ hab hba => absurd hba (Nat.lt_asymm hab)) h'.ascending h.ascending
  -- a reading of one cache is a reading of the other
  have hsub : ∀ n reading, TankReading env c' n reading → TankReading env c n reading := by
    rintro n _ ⟨topic, value, receivedAt, htopic, hlookup, rfl⟩
    exact ⟨topic, value, receivedAt, htopic, hsame topic n htopic ▸ hlookup, rfl⟩
  have hunique : Relator.RightUnique (TankReading env c) := by
    rintro n _ _ ⟨topic, value, receivedAt, htopic, hlookup, rfl⟩
      ⟨topic', value', receivedAt', htopic', hlookup', rfl⟩
    obtain rfl : topic = topic' := (tankTopic_inj htopic htopic').mpr rfl
    obtain ⟨rfl, rfl⟩ := Prod.mk.inj (Option.some.inj (hlookup.symm.trans hlookup'))
    rfl
  exact List.right_unique_forall₂' hunique (h'.readings.imp hsub) h.readings

/-- An explicit instance reads the key of its own text. -/
theorem getTankLevel_explicit {inst : Int} (h : 0 < inst) : getTankLevel env c inst =
    (tankReading env c inst).map (Dict.union [("success", .bool true)]) := by
  have htargets : tankTargets env c inst = .ok [inst] := if_pos h
  cases hreading : tankReading env c inst with
  | error e =>
    rw [getTankLevel, htargets]
    show ([inst].mapM (tankReading env c) >>= fun readings => pure (tankAnswer readings)) = _
    rw [List.mapM_cons, hreading]
    rfl
  | ok reading =>
    have hreadings : [inst].mapM (tankReading env c) = .ok [reading] := by
      rw [List.mapM_cons, hreading]
      rfl
    exact getTankLevel_eq htargets hreadings

theorem tankReading_congr {inst : Int}
    (h : c'.cache.lookup ("tank/" ++ toString inst ++ "/Level") =
      c.cache.lookup ("tank/" ++ toString inst ++ "/Level")) :
    tankReading env c' inst = tankReading env c inst := by
  rw [tankReading, tankReading]
  cases hstr : pyStr inst with
  | none => rfl
  | some text =>
    obtain ⟨-, htext⟩ := Option.ite_none_right_eq_some.mp hstr
    obtain rfl := Option.some.inj htext
    simp only [h]

/-- `get_tank_level` over every cache: with no instance it reports the cached
    tank topics, each once and in order, and nothing of any other topic; with an
    instance it looks at one entry. -/
theorem tank_discovery_exact (env : ReadEnv) (c : MqttClient) :
    (∀ inst ≤ 0, ∃ tanks readings, DiscoveredTanks env c tanks readings ∧
      (∀ reading, readings = [reading] → getTankLevel env c inst =
        .ok (Dict.union [("success", .bool true)] reading)) ∧
      (readings.length ≠ 1 → getTankLevel env c inst =
        .ok [("success", .bool true), ("readings", .arr (readings.map .obj))])) ∧
    (∀ inst ≤ 0, ∀ c' : MqttClient,
      (∀ topic n, TankTopic topic n → c'.cache.lookup topic = c.cache.lookup topic) →
      getTankLevel env c' inst = getTankLevel env c inst) ∧
    (∀ topic topic' n n', TankTopic topic n → TankTopic topic' n' → (topic = topic' ↔ n = n')) ∧
    ∀ inst > 0, ∀ c' : MqttClient,
      c'.cache.lookup ("tank/" ++ toString inst ++ "/Level") =
        c.cache.lookup ("tank/" ++ toString inst ++ "/Level") →
      getTankLevel env c' inst = getTankLevel env c inst := by
  refine ⟨fun inst hinst => ?_, fun inst hinst c' hsame => ?_,
    fun _ _ _ _ h h' => tankTopic_inj h h', fun inst hinst c' hsame => ?_⟩
  -- discovery, over all topics of the cache
  · obtain ⟨tanks, readings, hdiscovered, hanswer⟩ := discovered_of_cache env c hinst
    refine ⟨tanks, readings, hdiscovered, ?_, fun hlength => ?_⟩
    · rintro reading rfl
      exact hanswer
    · rw [hanswer, tankAnswer]
      rintro reading rfl
      exact hlength rfl
  -- the readings are determined by the entries of the tank topics
  · obtain ⟨tanks, readings, hdiscovered, hanswer⟩ := discovered_of_cache env c hinst
    obtain ⟨tanks', readings', hdiscovered', hanswer'⟩ := discovered_of_cache env c' hinst
    rw [hanswer, hanswer', hdiscovered.unique hdiscovered' hsame]
  -- an instance that is asked for reads its own topic only
  · rw [getTankLevel_explicit hinst, getTankLevel_explicit hinst, tankReading_congr hsame]

/-- Two tanks among topics that are none. -/
theorem tank_discovery_exact_two :
    let c := cachedClient [("tank/21/Level", .int 44), ("tank/021/Level", .int 12),
      ("tank/9/Level", .int 80), ("tank/9/Level/", .int 13), ("tank/-1/Level", .int 14)]
    ∃ tanks readings, DiscoveredTanks fixtureReadEnv c tanks readings ∧ 9 ∈ tanks ∧ 21 ∈ tanks ∧
      (readings.length ≠ 1 → getTankLevel fixtureReadEnv c 0 =
        .ok [("success", .bool true), ("readings", .arr (readings.map .obj))]) := by
  intro c
  obtain ⟨tanks, readings, hdiscovered, -, hlist⟩ :=
    (tank_discovery_exact fixtureReadEnv c).1 0 (by decide)
  refine ⟨tanks, readings, hdiscovered, ?_, ?_, hlist⟩
  · rw [hdiscovered.exact]
    exact ⟨"tank/9/Level", by decide +kernel, tankTopic_iff.mpr (by decide +kernel)⟩
  · rw [hdiscovered.exact]
    exact ⟨"tank/21/Level", by decide +kernel, tankTopic_iff.mpr (by decide +kernel)⟩

end Answer

end Server

end McpVenusOs
