/-
  McpVenusOs.Mqtt.RefreshTopics

  Which cached topics `refresh_topics` selects.

  A topic is taken apart at its first two slashes below the prefix
  (`mem_refreshTopics`); the result is sorted and has no duplicates, so it is
  strictly ascending (`refreshTopics_sorted`).
-/

import Mathlib.Data.String.Basic
import McpVenusOs.Mqtt.State

namespace McpVenusOs

open Py TopicFilter

/-- An exact caller subscription. -/
def exactPattern (t : String) : Bool := !hasChar t '+' && !hasChar t '#'

/-- A tool looks the path up for devices of the family. -/
def ToolPath (family path : String) : Prop :=
  ∃ fields, (family, fields) ∈ readPaths ∧ ∃ field ∈ fields, path ∈ field.2

/-- In a table without duplicate keys a lookup finds exactly the entries. -/
theorem lookup_eq_some_of_nodup {α β : Type} [BEq α] [LawfulBEq α] {l : List (α × β)}
    (h : (l.map Prod.fst).Nodup) {k : α} {b : β} : l.lookup k = some b ↔ (k, b) ∈ l := by
  rw [List.lookup_eq_some_iff]
  constructor
  · rintro ⟨l₁, l₂, rfl, -⟩
    simp
  · intro hmem
    obtain ⟨l₁, l₂, rfl⟩ := List.append_of_mem hmem
    refine ⟨l₁, l₂, rfl, fun p hp => ?_⟩
    rw [List.map_append, List.nodup_append] at h
    rw [bne_iff_ne]
    exact (h.2.2 p.1 (List.mem_map_of_mem hp) k (by simp)).symm

theorem toolPath_iff {family path : String} :
    ((readPaths.lookup family).getD []).any (fun field => path ∈ field.2) = true ↔
      ToolPath family path := by
  have hlookup : ∀ fields, readPaths.lookup family = some fields ↔ (family, fields) ∈ readPaths :=
    fun fields => lookup_eq_some_of_nodup (by decide)
  rw [List.any_eq_true]
  constructor
  · rintro ⟨field, hfield, hpath⟩
    cases hf : readPaths.lookup family with
    | none => rw [hf] at hfield; cases hfield
    | some fields =>
      rw [hf] at hfield
      exact ⟨fields, (hlookup fields).mp hf, field, hfield, of_decide_eq_true hpath⟩
  · rintro ⟨fields, hfields, field, hfield, hpath⟩
    rw [(hlookup fields).mpr hfields]
    exact ⟨field, hfield, decide_eq_true hpath⟩

/-- What `refresh_topics` requires of the parts of a topic. -/
structure Refreshed (isDigit : Char → Bool) (pre : String) (contracts : List HardwareWriteContract)
    (explicit : List String) (topic family inst path : String) : Prop where
  parts : topic = pre ++ "/" ++ family ++ "/" ++ inst ++ "/" ++ path
  family_level : '/' ∉ family.toList
  inst_level : '/' ∉ inst.toList
  inst_ne : inst ≠ ""
  digits : inst.toList.all isDigit = true
  needed : topic ∈ contractTopics pre contracts ∨ topic ∈ explicit ∧ exactPattern topic = true ∨
    ToolPath family path

/-- A text splits into at least three parts as its first two parts and a rest. -/
theorem splitOn_three {l family inst p : List Char} {ps : List (List Char)} :
    l.splitOn '/' = family :: inst :: p :: ps ↔
      ∃ path, '/' ∉ family ∧ '/' ∉ inst ∧ l = family ++ '/' :: (inst ++ '/' :: path) ∧
        path.splitOn '/' = p :: ps := by
  constructor
  -- the first three levels are cut off one after the other
  · intro h
    rcases splitOn_cases '/' l with ⟨-, hl⟩ | ⟨a, b, ha, rfl, hl⟩
    · rw [hl] at h
      cases h
    · rw [hl] at h
      obtain ⟨rfl, hb⟩ := List.cons.inj h
      rcases splitOn_cases '/' b with ⟨-, hb'⟩ | ⟨a', path, ha', rfl, hb'⟩
      · rw [hb'] at hb
        cases hb
      · rw [hb'] at hb
        obtain ⟨rfl, hpath⟩ := List.cons.inj hb
        exact ⟨path, ha, ha', rfl, hpath⟩
  · rintro ⟨path, hfamily, hinst, rfl, hpath⟩
    rw [List.splitOn_append_cons_self, List.splitOn_eq_singleton hfamily,
      List.splitOn_append_cons_self, List.splitOn_eq_singleton hinst, hpath]
    rfl

theorem mem_refreshTopics {isDigit : Char → Bool} {pre : String} {cached : List String}
    {contracts : List HardwareWriteContract} {explicit : List String} {topic : String} :
    topic ∈ refreshTopics isDigit pre cached contracts explicit ↔
      topic ∈ cached ∧ ∃ family inst path,
        Refreshed isDigit pre contracts explicit topic family inst path := by
  rw [refreshTopics, List.mem_insertionSort, List.mem_dedup, List.mem_filter]
  refine and_congr_right fun _ => ?_
  rw [Bool.and_eq_true]
  -- what stands below the prefix
  have hdrop : ∀ rest : String,
      (pre ++ "/" ++ rest).toList.drop (pre.length + 1) = rest.toList := by
    intro rest
    rw [← drop_append_toList (pre ++ "/") rest, String.length_append]
    rfl
  have hneeded : ∀ topic family path : String,
      (topic ∈ contractTopics pre contracts ++ explicit.filter exactPattern ∨
        ToolPath family path) ↔
      (topic ∈ contractTopics pre contracts ∨ topic ∈ explicit ∧ exactPattern topic = true ∨
        ToolPath family path) := by
    intro topic family path
    rw [List.mem_append, List.mem_filter, or_assoc]
  constructor
  · rintro ⟨hpre, hselect⟩
    obtain ⟨rest, rfl⟩ := startsWith_iff.mp hpre
    rw [hdrop] at hselect
    -- four levels at least: the family, the instance and a path
    split at hselect
    · rename_i family inst p ps hsplit
      obtain ⟨path, hfamily, hinst, hrest, hpath⟩ := splitOn_three.mp hsplit
      have hjoin : ['/'].intercalate (p :: ps) = path := by
        rw [← hpath]
        exact List.intercalate_splitOn '/'
      rw [hjoin, Bool.and_eq_true, Bool.and_eq_true, Bool.or_eq_true, toolPath_iff,
        decide_eq_true_eq] at hselect
      obtain ⟨⟨hne, hdigits⟩, hneed⟩ := hselect
      refine ⟨String.ofList family, String.ofList inst, String.ofList path, ?_, ?_, ?_, ?_, ?_,
        (hneeded _ _ _).mp hneed⟩
      · rw [← String.toList_inj]
        simp [hrest]
      · rwa [String.toList_ofList]
      · rwa [String.toList_ofList]
      · intro h
        rw [← String.toList_inj, String.toList_ofList] at h
        rw [h] at hne
        cases hne
      · rwa [String.toList_ofList]
    · cases hselect
  -- the topic splits back into the parts it is made of
  · rintro ⟨family, inst, path, h⟩
    have hparts : topic = pre ++ "/" ++ (family ++ "/" ++ inst ++ "/" ++ path) := by
      rw [h.parts]
      simp only [String.append_assoc]
    refine ⟨startsWith_iff.mpr ⟨_, hparts⟩, ?_⟩
    obtain ⟨p, ps, hpath⟩ := List.exists_cons_of_ne_nil (List.splitOn_ne_nil '/' path.toList)
    have hsplit : (topic.toList.drop (pre.length + 1)).splitOn '/' =
        family.toList :: inst.toList :: p :: ps := by
      rw [hparts, hdrop, splitOn_three]
      exact ⟨path.toList, h.family_level, h.inst_level, by simp, hpath⟩
    have hjoin : ['/'].intercalate (p :: ps) = path.toList := by
      rw [← hpath]
      exact List.intercalate_splitOn '/'
    have hne : inst.toList.isEmpty = false := by
      rw [List.isEmpty_eq_false_iff]
      intro hempty
      exact h.inst_ne (String.toList_inj.mp hempty)
    rw [hsplit]
    dsimp only
    rw [hjoin, String.ofList_toList, String.ofList_toList, Bool.and_eq_true, Bool.and_eq_true,
      Bool.or_eq_true, toolPath_iff, decide_eq_true_eq, hne]
    exact ⟨⟨rfl, h.digits⟩, (hneeded _ _ _).mpr h.needed⟩

theorem refreshTopics_sorted (isDigit : Char → Bool) (pre : String) (cached : List String)
    (contracts : List HardwareWriteContract) (explicit : List String) :
    (refreshTopics isDigit pre cached contracts explicit).Pairwise (· < ·) := by
  have hsorted : (refreshTopics isDigit pre cached contracts explicit).Pairwise (· ≤ ·) :=
    List.pairwise_insertionSort (· ≤ ·) _
  have hnodup : (refreshTopics isDigit pre cached contracts explicit).Nodup :=
    (List.perm_insertionSort (· ≤ ·) _).nodup_iff.mpr (List.nodup_dedup _)
  exact hsorted.imp₂ (fun _ _ hle hne => lt_of_le_of_ne hle hne) hnodup

/-! ## Wildcards -/

/-- `str.isdigit` holds of exactly the ten digits among the ASCII characters. -/
def AsciiDigits (isDigit : Char → Bool) : Prop :=
  ∀ c : Char, c.toNat < 128 → isDigit c = c.isDigit

/-- The character is an MQTT wildcard. -/
def IsWildcard (c : Char) : Prop := c = '+' ∨ c = '#'

theorem Plain.notMem {s : String} (h : Plain s) {c : Char} (hc : IsWildcard c) :
    c ∉ s.toList := by
  rcases hc with rfl | rfl
  · exact h.1
  · exact h.2

theorem exactPattern_iff {t : String} : exactPattern t = true ↔ Plain t := by
  simp [exactPattern, hasChar, Plain]

theorem toolPath_plain {family path : String} (h : ToolPath family path) :
    Plain family ∧ Plain path := by
  obtain ⟨fields, hfields, field, hfield, hpath⟩ := h
  have htables : ∀ entry ∈ readPaths, Plain entry.1 ∧
      ∀ field ∈ entry.2, ∀ path ∈ field.2, Plain path := by
    decide
  exact ⟨(htables _ hfields).1, (htables _ hfields).2 field hfield path hpath⟩

/-- A wildcard of a contract topic is one of the prefix. -/
theorem wildcard_contractTopics {pre : String} {contracts : List HardwareWriteContract}
    (hc : ∀ c ∈ contracts, c.Accepted) {t : String} (ht : t ∈ contractTopics pre contracts)
    {c : Char} (hwild : IsWildcard c) (hmem : c ∈ t.toList) : c ∈ pre.toList := by
  have hitem : ∀ (deviceType : String) (inst : Int) (path : String), Plain deviceType → 0 ≤ inst →
      Plain path → c ∈ (itemTopic pre deviceType inst path).toList → c ∈ pre.toList := by
    intro deviceType inst path hd hi hp hmem
    -- the part below the prefix is plain
    have hrest : Plain (itemTopic "" deviceType inst path) :=
      plain_itemTopic (by decide) hd hi hp
    have hsplit : itemTopic pre deviceType inst path =
        pre ++ itemTopic "" deviceType inst path := by
      simp only [itemTopic, String.append_assoc, String.empty_append]
    rw [hsplit, String.toList_append, List.mem_append] at hmem
    exact hmem.resolve_right (hrest.notMem hwild)
  obtain ⟨contract, hcontract, ht⟩ := List.mem_flatMap.mp (List.mem_dedup.mp ht)
  have haccepted := hc contract (List.mem_filter.mp hcontract).1
  -- the value's own topic, then those of its identity probes
  rcases List.mem_cons.mp ht with rfl | ht
  · exact hitem _ _ _ (by cases contract.deviceType <;> decide) haccepted.inst
      (by cases contract.path <;> decide) hmem
  · obtain ⟨p, hp, rfl⟩ := List.mem_map.mp ht
    obtain ⟨hd, hi, hpath⟩ := haccepted.probes p hp
    exact hitem _ _ _ (plain_deviceType hd) hi (plain_path hpath) hmem

/-- A selected topic has no wildcard that the prefix does not have. -/
theorem wildcard_refreshTopics {isDigit : Char → Bool} (hdigit : AsciiDigits isDigit)
    {pre : String} {cached : List String} {contracts : List HardwareWriteContract}
    (hc : ∀ c ∈ contracts, c.Accepted) {explicit : List String} {t : String}
    (ht : t ∈ refreshTopics isDigit pre cached contracts explicit) {c : Char}
    (hwild : IsWildcard c) (hmem : c ∈ t.toList) : c ∈ pre.toList := by
  obtain ⟨-, family, inst, path, h⟩ := mem_refreshTopics.mp ht
  rcases h.needed with hcontract | ⟨-, hexact⟩ | htool
  · exact wildcard_contractTopics hc hcontract hwild hmem
  · exact absurd hmem ((exactPattern_iff.mp hexact).notMem hwild)
  · obtain ⟨hfamily, hpath⟩ := toolPath_plain htool
    have hslash : Plain "/" := by decide
    -- a digit is no wildcard
    have hinst : c ∉ inst.toList := by
      intro hci
      have hci' := List.all_eq_true.mp h.digits c hci
      rcases hwild with rfl | rfl
      · rw [hdigit '+' (by decide)] at hci'
        cases hci'
      · rw [hdigit '#' (by decide)] at hci'
        cases hci'
    rw [h.parts] at hmem
    simpa [hfamily.notMem hwild, hpath.notMem hwild, hinst, hslash.notMem hwild,
      -String.reduceToList] using hmem

end McpVenusOs
