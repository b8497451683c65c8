/-
  McpVenusOs.Lib.TopicFilter

  MQTT topic filters: a topic is split at `/` into levels, `+` matches one
  level, a final `#` matches the rest (also nothing), and a filter that starts
  with a wildcard does not match a topic that starts with `$`.

  Two filters are `Disjoint` when no topic matches both; `apart` decides enough
  of it to check a fixed table of filters pair by pair (`disjoint_of_apart`).
-/

import Mathlib.Data.List.Basic
import Mathlib.Data.List.Dedup
import Mathlib.Data.List.Sort

namespace TopicFilter

/-! ## Levels -/

def levels (s : String) : List String := (s.toList.splitOn '/').map String.ofList

theorem levels_append_slash (a b : String) : levels (a ++ "/" ++ b) = levels a ++ levels b := by
  have h : (a ++ "/" ++ b).toList = a.toList ++ '/' :: b.toList := by simp
  rw [levels, h, List.splitOn_append_cons_self, List.map_append, levels, levels]

theorem levels_of_no_slash {s : String} (h : '/' ∉ s.toList) : levels s = [s] := by
  rw [levels, List.splitOn_eq_singleton h, List.map_singleton, String.ofList_toList]

theorem join_levels (s : String) : ['/'].intercalate (s.toList.splitOn '/') = s.toList :=
  List.intercalate_splitOn '/'

/-- Splitting a list takes off what stands before the first separator. -/
theorem splitOn_cases {α : Type} [DecidableEq α] (a : α) (l : List α) :
    (a ∉ l ∧ l.splitOn a = [l]) ∨
      ∃ s t, a ∉ s ∧ l = s ++ a :: t ∧ l.splitOn a = s :: t.splitOn a := by
  by_cases h : a ∈ l
  · obtain ⟨s, t, rfl, hs⟩ := List.eq_append_cons_of_mem h
    refine .inr ⟨s, t, hs, rfl, ?_⟩
    rw [List.splitOn_append_cons_self, List.splitOn_eq_singleton hs, List.singleton_append]
  · exact .inl ⟨h, List.splitOn_eq_singleton h⟩

/-- A topic is one level, or its first level, a slash and the other levels. -/
theorem levels_cases (s : String) :
    ('/' ∉ s.toList ∧ levels s = [s]) ∨
      ∃ a b, '/' ∉ a.toList ∧ s = a ++ "/" ++ b ∧ levels s = a :: levels b := by
  rcases splitOn_cases '/' s.toList with ⟨h, -⟩ | ⟨a, b, ha, hs, -⟩
  · exact .inl ⟨h, levels_of_no_slash h⟩
  · have hs' : s = String.ofList a ++ "/" ++ String.ofList b := by
      rw [← String.toList_inj, hs]
      simp
    have ha' : '/' ∉ (String.ofList a).toList := by rwa [String.toList_ofList]
    refine .inr ⟨String.ofList a, String.ofList b, ha', hs', ?_⟩
    rw [hs', levels_append_slash, levels_of_no_slash ha', List.singleton_append]

/-- A topic is determined by its levels. -/
theorem levels_injective {s t : String} (h : levels s = levels t) : s = t := by
  have hinj : Function.Injective (List.map String.ofList) :=
    List.map_injective_iff.mpr fun a b hab => by simpa using congrArg String.toList hab
  have hsplit := hinj h
  rw [← String.toList_inj, ← join_levels s, hsplit, join_levels]

/-! ## Matching -/

/-- A filter, by its levels, against the levels of a topic. -/
def matchLevels : List String → List String → Bool
  | ["#"], _ => true
  | [], [] => true
  | f :: fs, t :: ts => (f = "+" || f = t) && matchLevels fs ts
  | _, _ => false

@[simp] theorem matchLevels_hash (ts : List String) : matchLevels ["#"] ts = true := by
  cases ts <;> rfl

@[simp] theorem matchLevels_nil : matchLevels [] [] = true := rfl

theorem matchLevels_cons {f : String} {fs : List String} (h : f :: fs ≠ ["#"]) (t : String)
    (ts : List String) :
    matchLevels (f :: fs) (t :: ts) = ((f = "+" || f = t) && matchLevels fs ts) := by
  cases fs with
  | nil =>
      have hf : f ≠ "#" := fun hf => h (by rw [hf])
      simp [matchLevels, hf]
  | cons g gs => simp [matchLevels]

theorem matchLevels_cons_nil {f : String} {fs : List String} (h : f :: fs ≠ ["#"]) :
    matchLevels (f :: fs) [] = false := by
  cases fs <;> simp [matchLevels]

theorem matchLevels_nil_cons (t : String) (ts : List String) :
    matchLevels [] (t :: ts) = false := rfl

/-- A common prefix can be put in front of a matching pair. -/
theorem matchLevels_append (a : List String) {fs ts : List String}
    (h : matchLevels fs ts = true) : matchLevels (a ++ fs) (a ++ ts) = true := by
  induction a with
  | nil => exact h
  | cons x xs ih =>
      by_cases hx : x :: (xs ++ fs) = ["#"]
      · rw [List.cons_append, hx, matchLevels_hash]
      · rw [List.cons_append, List.cons_append, matchLevels_cons hx, ih]
        simp

theorem matchLevels_refl (fs : List String) : matchLevels fs fs = true := by
  simpa using matchLevels_append fs matchLevels_nil

/-- `topic.startswith("$")`, seen in the first level. -/
def isSystem : List String → Bool
  | [] => false
  | t :: _ => t.toList.head? = some '$'

/-- A filter that starts with a wildcard. -/
def startsWild : List String → Bool
  | [] => false
  | f :: _ => f = "+" || f = "#"

/-- `topic_matches_sub(sub, topic)`. -/
def topicMatchesSub (sub topic : String) : Bool :=
  matchLevels (levels sub) (levels topic) && !(startsWild (levels sub) && isSystem (levels topic))

theorem topicMatchesSub_of_literal {sub topic : String} (hhead : startsWild (levels sub) = false)
    (h : matchLevels (levels sub) (levels topic) = true) : topicMatchesSub sub topic = true := by
  simp [topicMatchesSub, h, hhead]

/-! ## Literal filters -/

/-- A filter without wildcard levels. -/
def Literal (fs : List String) : Prop := ∀ f ∈ fs, f ≠ "+" ∧ f ≠ "#"

/-- A level consists of characters of the topic. -/
theorem mem_of_mem_levels {s l : String} {c : Char} (hl : l ∈ levels s) (hc : c ∈ l.toList) :
    c ∈ s.toList := by
  obtain ⟨cs, hcs, rfl⟩ := List.mem_map.mp hl
  rw [String.toList_ofList] at hc
  rw [← join_levels s]
  generalize s.toList.splitOn '/' = parts at hcs
  induction parts with
  | nil => cases hcs
  | cons p ps ih =>
      cases ps with
      | nil =>
          rw [List.mem_singleton.mp hcs] at hc
          rwa [List.intercalate_singleton]
      | cons q qs =>
          rw [List.intercalate_cons_cons]
          rcases List.mem_cons.mp hcs with rfl | hcs
          · exact List.mem_append_left _ (List.mem_append_left _ hc)
          · exact List.mem_append_right _ (ih hcs)

theorem literal_of_no_wildcard {s : String} (hplus : '+' ∉ s.toList) (hhash : '#' ∉ s.toList) :
    Literal (levels s) := by
  intro l hl
  constructor
  · rintro rfl
    exact hplus (mem_of_mem_levels hl (by decide))
  · rintro rfl
    exact hhash (mem_of_mem_levels hl (by decide))

theorem matchLevels_literal {fs ts : List String} (h : Literal fs)
    (hm : matchLevels fs ts = true) : fs = ts := by
  induction fs generalizing ts with
  | nil =>
      cases ts with
      | nil => rfl
      | cons t ts => simp [matchLevels_nil_cons] at hm
  | cons f fs ih =>
      have hf := h f List.mem_cons_self
      have hhash : f :: fs ≠ ["#"] := fun he => hf.2 (List.cons.inj he).1
      cases ts with
      | nil => simp [matchLevels_cons_nil hhash] at hm
      | cons t ts =>
          rw [matchLevels_cons hhash] at hm
          simp only [hf.1, decide_false, Bool.false_or, Bool.and_eq_true, decide_eq_true_eq] at hm
          rw [hm.1, ih (fun g hg => h g (List.mem_cons_of_mem _ hg)) hm.2]

/-- A wildcard-free filter matches exactly its own topic. -/
theorem topicMatchesSub_literal {sub topic : String} (h : Literal (levels sub)) :
    topicMatchesSub sub topic = true ↔ sub = topic := by
  constructor
  · intro hm
    simp only [topicMatchesSub, Bool.and_eq_true] at hm
    exact levels_injective (matchLevels_literal h hm.1)
  · rintro rfl
    refine topicMatchesSub_of_literal ?_ (matchLevels_refl _)
    cases hl : levels sub with
    | nil => rfl
    | cons f fs =>
        have hf := h f (by rw [hl]; exact List.mem_cons_self)
        simp [startsWild, hf.1, hf.2]

/-! ## Disjoint filters -/

/-- No topic matches both filters. -/
def Disjoint (f g : String) : Prop :=
  ∀ topic, ¬ (topicMatchesSub f topic = true ∧ topicMatchesSub g topic = true)

theorem Disjoint.symm {f g : String} (h : Disjoint f g) : Disjoint g f :=
  fun topic hm => h topic hm.symm

/-- Two level lists that differ in a literal level, or in length without a `#`. -/
def apart : List String → List String → Bool
  | [], [] => false
  | [], g :: _ => g ≠ "#"
  | f :: _, [] => f ≠ "#"
  | f :: fs, g :: gs =>
    f ≠ "#" && g ≠ "#" && ((f ≠ "+" && g ≠ "+" && f ≠ g) || apart fs gs)

theorem apart_comm (fs gs : List String) : apart fs gs = apart gs fs := by
  induction fs generalizing gs with
  | nil => cases gs <;> rfl
  | cons f fs ih =>
      cases gs with
      | nil => rfl
      | cons g gs =>
          simp only [apart, ih gs, eq_comm (a := f) (b := g), ne_eq]
          cases decide (f = "#") <;> grind

theorem not_match_of_apart {fs gs ts : List String} (h : apart fs gs = true) :
    ¬ (matchLevels fs ts = true ∧ matchLevels gs ts = true) := by
  rintro ⟨hf, hg⟩
  induction fs generalizing gs ts with
  | nil =>
      cases gs with
      | nil => simp [apart] at h
      | cons g gs =>
          have hhash : g :: gs ≠ ["#"] := fun he => by simp [apart, (List.cons.inj he).1] at h
          cases ts with
          | nil => simp [matchLevels_cons_nil hhash] at hg
          | cons t ts => simp [matchLevels_nil_cons] at hf
  | cons f fs ih =>
      have hfhash : f :: fs ≠ ["#"] := fun he => by
        cases gs <;> simp [apart, (List.cons.inj he).1] at h
      cases ts with
      | nil => simp [matchLevels_cons_nil hfhash] at hf
      | cons t ts =>
          -- a longer filter without `#` does not match the shorter topic
          cases gs with
          | nil => simp [matchLevels_nil_cons] at hg
          | cons g gs =>
              have hghash : g :: gs ≠ ["#"] := fun he => by
                simp [apart, (List.cons.inj he).1] at h
              rw [matchLevels_cons hfhash] at hf
              rw [matchLevels_cons hghash] at hg
              simp only [Bool.and_eq_true, Bool.or_eq_true, decide_eq_true_eq] at hf hg
              simp only [apart, Bool.and_eq_true, Bool.or_eq_true, decide_eq_true_eq, ne_eq] at h
              -- they differ in this level, or are apart in the rest
              rcases h.2 with ⟨⟨hfp, hgp⟩, hfg⟩ | hrest
              · exact hfg ((hf.1.resolve_left hfp).trans (hg.1.resolve_left hgp).symm)
              · exact ih hrest hf.2 hg.2

theorem disjoint_of_apart {f g : String} (h : apart (levels f) (levels g) = true) :
    Disjoint f g := by
  intro topic hm
  simp only [topicMatchesSub, Bool.and_eq_true] at hm
  exact not_match_of_apart h ⟨hm.1.1, hm.2.1⟩

/-- A common literal prefix does not matter for `apart`. -/
theorem apart_append {a : List String} (ha : Literal a) (fs gs : List String) :
    apart (a ++ fs) (a ++ gs) = apart fs gs := by
  induction a with
  | nil => rfl
  | cons x xs ih =>
      have hx := ha x List.mem_cons_self
      simp [apart, hx.1, hx.2, ih fun f hf => ha f (List.mem_cons_of_mem _ hf)]

/-- Different literal level lists are apart. -/
theorem apart_of_literal {fs gs : List String} (hf : Literal fs) (hg : Literal gs)
    (h : fs ≠ gs) : apart fs gs = true := by
  induction fs generalizing gs with
  | nil =>
      cases gs with
      | nil => exact absurd rfl h
      | cons g gs => simpa [apart] using (hg g List.mem_cons_self).2
  | cons f fs ih =>
      have hf' := hf f List.mem_cons_self
      cases gs with
      | nil => simpa [apart] using hf'.2
      | cons g gs =>
          have hg' := hg g List.mem_cons_self
          by_cases hfg : f = g
          · have hrest : apart fs gs = true :=
              ih (fun x hx => hf x (List.mem_cons_of_mem _ hx))
                (fun x hx => hg x (List.mem_cons_of_mem _ hx)) fun he => h (by rw [hfg, he])
            simp [apart, hf'.2, hg'.2, hrest]
          · simp [apart, hf'.1, hf'.2, hg'.1, hg'.2, hfg]

/-- A literal filter that no filter of the set matches is disjoint from it. -/
theorem disjoint_literal {f topic : String} (h : Literal (levels topic))
    (hm : topicMatchesSub f topic = false) : Disjoint f topic := by
  rintro t ⟨hf, ht⟩
  rw [← (topicMatchesSub_literal h).mp ht, hm] at hf
  cases hf

/-! ## Sets of disjoint filters -/

/-- `if not any(topic_matches_sub(pattern, topic) for pattern in filters): filters.add(topic)` -/
def addUncovered (filters : List String) (topic : String) : List String :=
  if filters.any (topicMatchesSub · topic) then filters else filters ++ [topic]

theorem addUncovered_pairwise {filters : List String} (h : filters.Pairwise Disjoint)
    {topic : String} (hlit : Literal (levels topic)) :
    (addUncovered filters topic).Pairwise Disjoint := by
  unfold addUncovered
  split
  · exact h
  · rename_i hnone
    rw [List.any_eq_true] at hnone
    refine List.pairwise_append.mpr ⟨h, List.pairwise_singleton _ _, ?_⟩
    intro f hf g hg
    rw [List.mem_singleton.mp hg]
    exact disjoint_literal hlit (by simpa using fun hm => hnone ⟨f, hf, hm⟩)

/-- Adding uncovered wildcard-free topics keeps the filters disjoint. -/
theorem foldl_addUncovered_pairwise {topics : List String} {filters : List String}
    (h : filters.Pairwise Disjoint) (hlit : ∀ t ∈ topics, Literal (levels t)) :
    (topics.foldl addUncovered filters).Pairwise Disjoint := by
  induction topics generalizing filters with
  | nil => exact h
  | cons t ts ih =>
      exact ih (addUncovered_pairwise h (hlit t List.mem_cons_self))
        fun u hu => hlit u (List.mem_cons_of_mem _ hu)

/-- A filter is in the result exactly when it was there before or is one of the
    topics no earlier filter covers; the order of the topics does not matter. -/
theorem mem_foldl_addUncovered {topics filters : List String}
    (hlit : ∀ t ∈ topics, Literal (levels t)) {f : String} :
    f ∈ topics.foldl addUncovered filters ↔
      f ∈ filters ∨ (f ∈ topics ∧ ∀ g ∈ filters, topicMatchesSub g f = false) := by
  induction topics generalizing filters with
  | nil => simp
  | cons t ts ih =>
      have ht := hlit t List.mem_cons_self
      have hmatch : ∀ u, topicMatchesSub t u = true ↔ t = u := fun u => topicMatchesSub_literal ht
      rw [List.foldl_cons, ih fun u hu => hlit u (List.mem_cons_of_mem _ hu)]
      unfold addUncovered
      -- either a filter matches `t` already, or `t` is added
      split
      · rename_i hany
        obtain ⟨g, hg, hgt⟩ := List.any_eq_true.mp hany
        constructor
        · rintro (hf | ⟨hf, hnone⟩)
          · exact .inl hf
          · exact .inr ⟨List.mem_cons_of_mem _ hf, hnone⟩
        · rintro (hf | ⟨hf, hnone⟩)
          · exact .inl hf
          -- `t` itself is covered, and not added
          · rcases List.mem_cons.mp hf with rfl | hf
            · rw [hnone g hg] at hgt
              cases hgt
            · exact .inr ⟨hf, hnone⟩
      · rename_i hany
        have hnone : ∀ g ∈ filters, topicMatchesSub g t = false := by
          intro g hg
          by_contra hgt
          exact hany (List.any_eq_true.mpr ⟨g, hg, by simpa using hgt⟩)
        constructor
        · rintro (hf | ⟨hf, hall⟩)
          · rcases List.mem_append.mp hf with hf | hf
            · exact .inl hf
            · rw [List.mem_singleton.mp hf]
              exact .inr ⟨List.mem_cons_self, hnone⟩
          · exact .inr ⟨List.mem_cons_of_mem _ hf, fun g hg => hall g (List.mem_append_left _ hg)⟩
        · rintro (hf | ⟨hf, hall⟩)
          · exact .inl (List.mem_append_left _ hf)
          -- a topic other than `t` is not covered by it
          · by_cases hft : f = t
            · exact .inl (List.mem_append_right _ (by simp [hft]))
            · refine .inr ⟨(List.mem_cons.mp hf).resolve_left hft, fun g hg => ?_⟩
              rcases List.mem_append.mp hg with hg | hg
              · exact hall g hg
              · rw [List.mem_singleton.mp hg]
                simpa using fun hm => hft ((hmatch f).mp hm).symm

/-- Every topic that was added is covered by some filter of the result. -/
theorem exists_match_foldl_addUncovered {topics filters : List String}
    (hlit : ∀ t ∈ topics, Literal (levels t)) {t : String} (ht : t ∈ topics) :
    ∃ f ∈ topics.foldl addUncovered filters, topicMatchesSub f t = true := by
  by_cases hcov : ∀ g ∈ filters, topicMatchesSub g t = false
  · exact ⟨t, (mem_foldl_addUncovered hlit).mpr (.inr ⟨ht, hcov⟩),
      (topicMatchesSub_literal (hlit t ht)).mpr rfl⟩
  · push Not at hcov
    obtain ⟨g, hg, hgt⟩ := hcov
    exact ⟨g, (mem_foldl_addUncovered hlit).mpr (.inl hg), by simpa using hgt⟩

/-- Of pairwise disjoint filters at most one matches a topic. -/
theorem length_filter_le_one {filters : List String} (h : filters.Pairwise Disjoint)
    (topic : String) : (filters.filter fun f => topicMatchesSub f topic).length ≤ 1 := by
  have hp := h.filter fun f => topicMatchesSub f topic
  match hl : filters.filter fun f => topicMatchesSub f topic with
  | [] => simp
  | [f] => simp
  | f :: g :: rest =>
      rw [hl] at hp
      have hf : f ∈ filters.filter fun f => topicMatchesSub f topic := by rw [hl]; simp
      have hg : g ∈ filters.filter fun f => topicMatchesSub f topic := by rw [hl]; simp
      have hdis := (List.pairwise_cons.mp hp).1 g (by simp)
      exact absurd ⟨(List.mem_filter.mp hf).2, (List.mem_filter.mp hg).2⟩ (hdis topic)

end TopicFilter
