/-
  McpVenusOs.Server.LiveReads

  The stale guard of the MQTT read tools while the decoder goes on: every
  look-up of a reading can see another cache.

  The tools are programs over single look-ups (`liveCollect`); on a cache that
  does not move they compute what `collectMqtt` and `readAllInstances` do
  (`liveCollect_answered`, `liveReadAll_answered`).  A run of the loop is a list of
  `FieldRead`s, one for each field of the table, and the flag and the age of the
  reading are functions of them (`readingOf`).
-/

import McpVenusOs.Lib.Program
import McpVenusOs.Mqtt.RefreshTopics
import McpVenusOs.Server.ReadSurvival

namespace McpVenusOs

open Py TopicFilter

namespace Server

/-! ## The programs -/

/-- What a read tool asks of the client: `_cache.get`, the clock, `_cache.copy`.
    The age of an entry is the exact difference of the two readings. -/
inductive LookupOp
  | get (topic : String)
  | monotonic
  | copy

abbrev LookupResp : LookupOp → Type
  | .get _ => Option CacheEntry
  | .monotonic => ℚ
  | .copy => Cache

abbrev LiveProgram : Type → Type := Program LookupOp LookupResp PyError

abbrev LookupTrace : Type := Program.Trace LookupOp LookupResp

def lookupOp (o : LookupOp) : LiveProgram (LookupResp o) := Program.perform o

/-- A computation that asks nothing. -/
def lift {α : Type} : Except PyError α → LiveProgram α
  | .ok a => .ret a
  | .error e => .raise e

/-- `read_path` -/
def livePath (env : ReadEnv) (d : Device) (path : String) :
    LiveProgram (Option (Json × PyNum)) := do
  let pre ← lift env.mqtt.config.topicPrefix
  let topic ← lift (formatTopic pre d.1 d.2 path)
  match ← lookupOp (.get topic) with
  | none => pure none
  | some (value, receivedAt) => do
    let now ← lookupOp .monotonic
    pure (some (value, .float (.finite (now - receivedAt))))

/-- `read_first` -/
def liveFirst (env : ReadEnv) (d : Device) : List String → LiveProgram (Option (Json × PyNum))
  | [] => pure none
  | path :: paths => do
    match ← livePath env d path with
    | some result => pure (some result)
    | none => liveFirst env d paths

/-- The loop's body, once the field has been looked up. -/
def Collected.note (s : Collected) (field : String) : Option (Json × PyNum) → Collected
  | none => { s with out := Dict.set s.out field .null }
  | some (value, age) =>
    { out := Dict.set s.out field value, seenAny := true,
      maxAge := if s.maxAge.lt age then age else s.maxAge }

/-- The loop of `_collect_mqtt`. -/
def liveFields (env : ReadEnv) (d : Device) : PathTable → Collected → LiveProgram Collected
  | [], s => pure s
  | (field, candidates) :: table, s => do
    let result ← liveFirst env d candidates
    liveFields env d table (s.note field result)

/-- `_collect_mqtt` -/
def liveCollect (env : ReadEnv) (fieldPaths : PathTable) (d : Device) : LiveProgram Dict := do
  let s ← liveFields env d fieldPaths {}
  pure (s.result env.mqtt.config.staleAfterSeconds)

/-- A reading below the entries of `base`, and what is made of it. -/
def liveReading (env : ReadEnv) (fieldPaths : PathTable) (post : Postprocess) (base : Dict)
    (d : Device) : LiveProgram Dict := do
  let collected ← liveCollect env fieldPaths d
  lift (post env (Dict.union base collected))

/-- The inner loop of `_read_all_instances`. -/
def liveInstances (env : ReadEnv) (fieldPaths : PathTable) (post : Postprocess) :
    List Device → FanOut → LiveProgram FanOut
  | [], s => pure s
  | d :: ds, s => do
    let reading ← liveReading env fieldPaths post
      [("device_type", .str d.1), ("instance", .int d.2)] d
    let s ← lift (s.add reading)
    liveInstances env fieldPaths post ds s

/-- The outer loop; each device type has its own copy of the cache. -/
def liveTypes (env : ReadEnv) (fieldPaths : PathTable) (post : Postprocess) :
    List String → FanOut → LiveProgram FanOut
  | [], s => pure s
  | deviceType :: deviceTypes, s => do
    let cache ← lookupOp .copy
    let devices ← lift (instancesOf env { cache := cache } deviceType)
    let s ← liveInstances env fieldPaths post devices s
    liveTypes env fieldPaths post deviceTypes s

/-- `_read_all_instances` -/
def liveReadAll (env : ReadEnv) (fieldPaths : PathTable) (deviceTypes : List String)
    (post : Postprocess) : LiveProgram ReadResult := do
  let s ← liveTypes env fieldPaths post deviceTypes {}
  pure (.fanOut s.readings (if s.hasPower then some (s.totalPower.round 1) else none))

/-! ## On a cache that stands still -/

/-- Every look-up sees the same cache at the same time. -/
def stillAnswers (cache : Cache) (now : ℚ) : (o : LookupOp) → LookupResp o
  | .get topic => cache.lookup topic
  | .monotonic => now
  | .copy => cache

section Still

variable {env : ReadEnv} {c : MqttClient} {now : ℚ}

theorem lift_answered {α : Type} {answers : (o : LookupOp) → LookupResp o}
    (x : Except PyError α) : (lift x).answered answers = x := by
  cases x with
  | ok a => rfl
  | error e => rfl

theorem livePath_answered (d : Device) (path : String) :
    (livePath env d path).answered (stillAnswers c.cache now) =
      c.readPath env.mqtt now d.1 d.2 path := by
  rw [livePath, Program.answered_bind, lift_answered, MqttClient.readPath]
  cases env.mqtt.config.topicPrefix with
  | error e => rfl
  | ok pre =>
    show (lift (formatTopic pre d.1 d.2 path) >>= _ : LiveProgram _).answered _ = do
      let topic ← formatTopic pre d.1 d.2 path
      return _
    rw [Program.answered_bind, lift_answered]
    cases formatTopic pre d.1 d.2 path with
    | error e => rfl
    | ok topic =>
      have hget : (lookupOp (.get topic)).answered (stillAnswers c.cache now) =
        .ok (c.cache.lookup topic) := rfl
      show (lookupOp (.get topic) >>= _ : LiveProgram _).answered _ = _
      rw [Program.answered_bind, hget]
      show _ = Except.ok ((c.cache.lookup topic).map _)
      cases c.cache.lookup topic with
      | none => rfl
      | some entry => rfl

variable (hclock : ∀ deviceType inst path, env.clock deviceType inst path = now)

include hclock

theorem liveFirst_answered (d : Device) (paths : List String) :
    (liveFirst env d paths).answered (stillAnswers c.cache now) =
      c.readFirst env.mqtt env.clock d.1 d.2 paths := by
  induction paths with
  | nil => rfl
  | cons path paths ih =>
    rw [liveFirst, Program.answered_bind, livePath_answered, MqttClient.readFirst, hclock]
    cases c.readPath env.mqtt now d.1 d.2 path with
    | error e => rfl
    | ok result =>
      cases result with
      | none => exact ih
      | some result => rfl

theorem liveFields_answered (d : Device) (table : PathTable) (s : Collected) :
    (liveFields env d table s).answered (stillAnswers c.cache now) =
      table.foldlM (collectField env c d.1 d.2) s := by
  induction table generalizing s with
  | nil => rfl
  | cons entry table ih =>
    rw [liveFields, Program.answered_bind, liveFirst_answered hclock, List.foldlM_cons,
      collectField]
    cases c.readFirst env.mqtt env.clock d.1 d.2 entry.2 with
    | error e => rfl
    | ok result =>
      cases result with
      | none => exact ih _
      | some result => exact ih _

theorem liveCollect_answered (d : Device) (table : PathTable) :
    (liveCollect env table d).answered (stillAnswers c.cache now) =
      collectMqtt env c table d.1 d.2 := by
  rw [liveCollect, Program.answered_bind, liveFields_answered hclock, collectMqtt]
  rfl

theorem liveInstances_answered (table : PathTable) (post : Postprocess) (ds : List Device)
    (s : FanOut) :
    (liveInstances env table post ds s).answered (stillAnswers c.cache now) =
      ds.foldlM (fun s d => do s.add (← readInstance env c table post d)) s := by
  induction ds generalizing s with
  | nil => rfl
  | cons d ds ih =>
    rw [liveInstances, Program.answered_bind, liveReading, Program.answered_bind,
      liveCollect_answered hclock, List.foldlM_cons, readInstance]
    simp only [Program.answered_bind, lift_answered, ih, bind_assoc]

theorem liveReadAll_answered (table : PathTable) (deviceTypes : List String)
    (post : Postprocess) :
    (liveReadAll env table deviceTypes post).answered (stillAnswers c.cache now) =
      readAllInstances env c table deviceTypes post := by
  have htypes : ∀ s, (liveTypes env table post deviceTypes s).answered
      (stillAnswers c.cache now) = deviceTypes.foldlM (fun (s : FanOut) deviceType => do
        (← instancesOf env c deviceType).foldlM (fun s d => do
          s.add (← readInstance env c table post d)) s) s := by
    induction deviceTypes with
    | nil => exact fun s => rfl
    | cons deviceType deviceTypes ih =>
      intro s
      rw [liveTypes, Program.answered_bind, List.foldlM_cons]
      show Program.answered _ (lift (instancesOf env c deviceType) >>= _) = _
      simp only [Program.answered_bind, lift_answered, liveInstances_answered hclock, ih,
        bind_assoc]
  rw [liveReadAll, Program.answered_bind, htypes, readAllInstances]
  rfl

end Still

/-! ## What is looked up -/

/-- The look-up of one field: the candidates without an entry, and the first one
    with an entry, its value, its time stamp and the clock. -/
structure FieldRead where
  field : String
  misses : List String
  hit : Option (String × Json × ℚ × ℚ)

namespace FieldRead

/-- The value the reading shows. -/
def value (r : FieldRead) : Json :=
  match r.hit with
  | none => .null
  | some (_, value, _, _) => value

def age (r : FieldRead) : Option ℚ := r.hit.map fun (_, _, receivedAt, now) => now - receivedAt

/-- What `read_first` returns. -/
def result (r : FieldRead) : Option (Json × PyNum) :=
  r.hit.map fun (_, value, receivedAt, now) => (value, .float (.finite (now - receivedAt)))

/-- The candidates are tried in order, up to the first entry. -/
def Of (entry : String × List String) (r : FieldRead) : Prop :=
  r.field = entry.1 ∧ match r.hit with
    | none => entry.2 = r.misses
    | some (path, _, _, _) => ∃ rest, entry.2 = r.misses ++ path :: rest

/-- The operations of the look-up, with what they returned. -/
def trace (pre : String) (d : Device) (r : FieldRead) : LookupTrace :=
  r.misses.map (fun path => ⟨.get (itemTopic pre d.1 d.2 path), none⟩) ++
    match r.hit with
    | none => []
    | some (path, value, receivedAt, now) =>
      [⟨.get (itemTopic pre d.1 d.2 path), some (value, receivedAt)⟩, ⟨.monotonic, now⟩]

end FieldRead

/-- The topic prefix, when there is one. -/
def prefixOf (env : ReadEnv) : String := env.mqtt.config.topicPrefix.toOption.getD ""

/-- The look-ups of a reading, one for each field, and the run they make. -/
structure LookedUp (env : ReadEnv) (table : PathTable) (d : Device) (t : LookupTrace)
    (reads : List FieldRead) : Prop where
  fields : List.Forall₂ FieldRead.Of table reads
  run : reads.flatMap (FieldRead.trace (prefixOf env) d) = t

section Runs

variable {env : ReadEnv} {d : Device} {t : LookupTrace}

theorem yields_lift {α : Type} {x : Except PyError α} {a : α} :
    Program.Yields (lift x) t (.ok a) ↔ t = [] ∧ x = .ok a := by
  cases x with
  | ok b =>
    show t = [] ∧ (Except.ok a : Except PyError α) = .ok b ↔ _
    rw [Except.ok.injEq, Except.ok.injEq, eq_comm (a := a)]
  | error e =>
    refine ⟨fun h => absurd h Program.not_yields_raise, fun h => ?_⟩
    cases h.2

/-- One look-up finds an entry and asks the clock, or finds nothing. -/
theorem yields_livePath {path : String} {result : Option (Json × PyNum)}
    (h : Program.Yields (livePath env d path) t (.ok result)) :
    (t = [⟨.get (itemTopic (prefixOf env) d.1 d.2 path), none⟩] ∧ result = none) ∨
      ∃ value receivedAt now, result = some (value, .float (.finite (now - receivedAt))) ∧
        t = [⟨.get (itemTopic (prefixOf env) d.1 d.2 path), some (value, receivedAt)⟩,
          ⟨.monotonic, now⟩] := by
  obtain ⟨_, pre, t, hlift, hread, rfl⟩ := Program.yields_bind.mp h
  obtain ⟨rfl, hpre⟩ := yields_lift.mp hlift
  obtain rfl : prefixOf env = pre := by
    rw [prefixOf, hpre]
    rfl
  obtain ⟨_, topic, t, hformat, hget, rfl⟩ := Program.yields_bind.mp hread
  obtain ⟨rfl, htopic⟩ := yields_lift.mp hformat
  obtain ⟨-, rfl⟩ := formatTopic_eq_ok.mp htopic
  obtain ⟨_, entry, t, hentry, hcase, rfl⟩ := Program.yields_bind.mp hget
  obtain rfl := Program.yields_perform.mp hentry
  cases entry with
  | none =>
    obtain ⟨rfl, rfl⟩ := Program.yields_pure.mp hcase
    exact .inl ⟨rfl, rfl⟩
  | some entry =>
    obtain ⟨value, receivedAt⟩ := entry
    obtain ⟨_, now, t, hclock, hend, rfl⟩ := Program.yields_bind.mp hcase
    obtain rfl := Program.yields_perform.mp hclock
    obtain ⟨rfl, rfl⟩ := Program.yields_pure.mp hend
    exact .inr ⟨value, receivedAt, now, rfl, rfl⟩

theorem yields_liveFirst (field : String) {paths : List String}
    {result : Option (Json × PyNum)}
    (h : Program.Yields (liveFirst env d paths) t (.ok result)) :
    ∃ r : FieldRead, r.Of (field, paths) ∧ r.trace (prefixOf env) d = t ∧ r.result = result := by
  induction paths generalizing t with
  | nil =>
    obtain ⟨rfl, rfl⟩ := Program.yields_pure.mp h
    exact ⟨⟨field, [], none⟩, ⟨rfl, rfl⟩, rfl, rfl⟩
  | cons path paths ih =>
    obtain ⟨t₁, first, t₂, hpath, hrest, rfl⟩ := Program.yields_bind.mp h
    rcases yields_livePath hpath with ⟨rfl, rfl⟩ | ⟨value, receivedAt, now, rfl, rfl⟩
    · obtain ⟨⟨name, misses, hit⟩, ⟨hname, hof⟩, rfl, rfl⟩ := ih hrest
      refine ⟨⟨name, path :: misses, hit⟩, ⟨hname, ?_⟩, rfl, rfl⟩
      cases hit with
      | none => exact congrArg (path :: ·) hof
      | some hit => exact hof.imp fun _ hrest => congrArg (path :: ·) hrest
    · obtain ⟨rfl, rfl⟩ := Program.yields_pure.mp hrest
      exact ⟨⟨field, [], some (path, value, receivedAt, now)⟩, ⟨rfl, paths, rfl⟩, rfl, rfl⟩

/-- The loop looks up one field after the other. -/
theorem yields_liveFields {table : PathTable} {s s' : Collected}
    (h : Program.Yields (liveFields env d table s) t (.ok s')) :
    ∃ reads, LookedUp env table d t reads ∧
      s' = reads.foldl (fun s r => s.note r.field r.result) s := by
  induction table generalizing s t with
  | nil =>
    obtain ⟨rfl, rfl⟩ := Program.yields_pure.mp h
    exact ⟨[], ⟨.nil, rfl⟩, rfl⟩
  | cons entry table ih =>
    obtain ⟨field, candidates⟩ := entry
    obtain ⟨t₁, result, t₂, hfirst, hrest, rfl⟩ := Program.yields_bind.mp h
    obtain ⟨r, hof, rfl, rfl⟩ := yields_liveFirst field hfirst
    obtain ⟨reads, ⟨hall, rfl⟩, rfl⟩ := ih hrest
    refine ⟨r :: reads, ⟨.cons hof hall, rfl⟩, ?_⟩
    rw [List.foldl_cons, hof.1]

end Runs

/-! ## The reading of a list of look-ups -/

def ages (reads : List FieldRead) : List ℚ := reads.filterMap FieldRead.age

/-- The largest of a list of ages, none of them negative. -/
theorem foldl_max_spec {l : List ℚ} (hnonneg : ∀ a ∈ l, 0 ≤ a) (hne : l ≠ []) :
    l.foldl max 0 ∈ l ∧ ∀ a ∈ l, a ≤ l.foldl max 0 := by
  -- the accumulator only grows, for any start
  have hle : ∀ (l : List ℚ) (m : ℚ), m ≤ l.foldl max m ∧ ∀ a ∈ l, a ≤ l.foldl max m := by
    intro l
    induction l with
    | nil => exact fun m => ⟨le_rfl, fun a ha => nomatch ha⟩
    | cons b l ih =>
      intro m
      obtain ⟨hm, hl⟩ := ih (max m b)
      refine ⟨(le_max_left m b).trans hm, fun a ha => ?_⟩
      rcases List.mem_cons.mp ha with rfl | ha
      · exact (le_max_right m a).trans hm
      · exact hl a ha
  -- it is the start, or one of the list
  have hmem : ∀ (l : List ℚ) (m : ℚ), l.foldl max m = m ∨ l.foldl max m ∈ l := by
    intro l
    induction l with
    | nil => exact fun m => .inl rfl
    | cons b l ih =>
      intro m
      rw [List.foldl_cons]
      rcases ih (max m b) with h | h
      · rw [h]
        rcases max_choice m b with hmax | hmax
        · exact .inl hmax
        · rw [hmax]
          exact .inr List.mem_cons_self
      · exact .inr (List.mem_cons_of_mem b h)
  refine ⟨?_, (hle l 0).2⟩
  rcases hmem l 0 with h | h
  · -- no age exceeds zero, so each of them is zero
    obtain ⟨a, l', rfl⟩ := List.exists_cons_of_ne_nil hne
    have ha := (hle (a :: l') 0).2 a List.mem_cons_self
    rw [h] at ha ⊢
    rw [← le_antisymm ha (hnonneg a List.mem_cons_self)]
    exact List.mem_cons_self
  · exact h

/-- The variables of the loop after the look-ups. -/
theorem foldl_note (reads : List FieldRead) (s : Collected) {m : ℚ}
    (hm : s.maxAge = .float (.finite m)) :
    reads.foldl (fun s r => s.note r.field r.result) s =
      { out := Dict.union s.out (reads.map fun r => (r.field, r.value)),
        seenAny := s.seenAny || reads.any (·.hit.isSome),
        maxAge := .float (.finite ((ages reads).foldl max m)) } := by
  induction reads generalizing s m with
  | nil =>
    rw [List.foldl_nil, List.any_nil, Bool.or_false, ages, List.filterMap_nil, List.foldl_nil, ← hm]
    rfl
  | cons r reads ih =>
    obtain ⟨field, misses, hit⟩ := r
    cases hit with
    | none =>
      rw [List.foldl_cons]
      refine (ih (s.note field none) (m := m) hm).trans ?_
      simp only [Collected.note, List.any_cons, Option.isSome_none, Bool.false_or]
      rfl
    | some hit =>
      obtain ⟨path, value, receivedAt, now⟩ := hit
      -- the running maximum of the loop
      have hage : (s.note field (some (value, .float (.finite (now - receivedAt))))).maxAge =
          .float (.finite (max m (now - receivedAt))) := by
        simp only [Collected.note, hm, PyNum.lt, PyNum.toFloat, PyFloat.lt_finite,
          decide_eq_true_eq]
        split
        · rename_i hlt
          rw [max_eq_right hlt.le]
        · rename_i hge
          rw [max_eq_left (not_lt.mp hge)]
      rw [List.foldl_cons]
      refine (ih (s.note field (some (value, .float (.finite (now - receivedAt))))) hage).trans ?_
      simp only [Collected.note, Bool.true_or, List.any_cons, Option.isSome_some, Bool.or_true]
      rfl

/-- The reading that a list of look-ups gives. -/
def readingOf (env : ReadEnv) (reads : List FieldRead) : Dict :=
  Collected.result env.mqtt.config.staleAfterSeconds
    { out := Dict.union [] (reads.map fun r => (r.field, r.value)),
      seenAny := reads.any (·.hit.isSome), maxAge := .float (.finite ((ages reads).foldl max 0)) }

theorem yields_liveCollect {env : ReadEnv} {d : Device} {t : LookupTrace} {table : PathTable}
    {reading : Dict} (h : Program.Yields (liveCollect env table d) t (.ok reading)) :
    ∃ reads, LookedUp env table d t reads ∧ reading = readingOf env reads := by
  obtain ⟨t₁, s, t₂, hfields, hend, rfl⟩ := Program.yields_bind.mp h
  obtain ⟨rfl, rfl⟩ := Program.yields_pure.mp hend
  obtain ⟨reads, hlooked, rfl⟩ := yields_liveFields hfields
  refine ⟨reads, (List.append_nil t₁).symm ▸ hlooked, ?_⟩
  rw [foldl_note reads {} rfl, Bool.false_or]
  rfl

/-- The postprocessors that the tools pass, over a table that has no field of the
    name they add. -/
inductive Fits (table : PathTable) : Postprocess → Prop
  | none : Fits table noPostprocess
  | fallback : Fits table pvVxiFallback
  | enums : "mode_name" ∉ table.map Prod.fst → "state_name" ∉ table.map Prod.fst →
      Fits table decodeVebusEnums

/-! ## What the guard promises -/

/-- The keys of the guard itself. -/
def guardKeys : List String := ["stale", "age_seconds"]

/-- A power computed from a voltage and a current of the same look-ups. -/
def FromProduct (env : ReadEnv) (reads : List FieldRead) (reading : Dict) : Prop :=
  ∃ v ∈ reads, ∃ i ∈ reads, v.field = "voltage" ∧ i.field = "current" ∧
    v.hit ≠ none ∧ i.hit ≠ none ∧
    ∃ x y, toFloat env.parseFloat v.value = .ok x ∧ toFloat env.parseFloat i.value = .ok y ∧
      reading.lookup "power" = some (.float ((x.mul y).round 1))

/-- The reading shows what was looked up, under a flag and an age that cover all of it. -/
structure Covered (env : ReadEnv) (reads : List FieldRead) (reading : Dict) : Prop where
  value : ∀ r ∈ reads, r.field ∉ guardKeys → reading.lookup r.field = some r.value ∨
    r.field = "power" ∧ isNone r.value = true ∧ FromProduct env reads reading
  flag : ∃ stale, reading.lookup "stale" = some (.bool stale) ∧
    (stale = false → (∃ r ∈ reads, r.hit ≠ none) ∧ ∀ r ∈ reads, ∀ a, r.age = some a →
      (PyFloat.finite a).le env.mqtt.config.staleAfterSeconds = true) ∧
    (stale = true → (∀ r ∈ reads, r.hit = none) ∨ ∃ r ∈ reads, ∃ a, r.age = some a ∧
      env.mqtt.config.staleAfterSeconds.lt (.finite a) = true)
  age : ((∀ r ∈ reads, r.hit = none) ∧ reading.lookup "age_seconds" = some .null) ∨
    ∃ r ∈ reads, ∃ a, r.age = some a ∧ (∀ r' ∈ reads, ∀ a', r'.age = some a' → a' ≤ a) ∧
      reading.lookup "age_seconds" = some (.float (PyFloat.round (.finite a) 1))

section Guard

variable {env : ReadEnv} {reads : List FieldRead}

theorem mem_ages {a : ℚ} : a ∈ ages reads ↔ ∃ r ∈ reads, r.age = some a := List.mem_filterMap

theorem any_hit : reads.any (·.hit.isSome) = true ↔ ∃ r ∈ reads, r.hit ≠ none := by
  rw [List.any_eq_true]
  simp only [Option.isSome_iff_ne_none]

/-- Some field was found exactly when there is an age. -/
theorem ages_ne_nil : ages reads ≠ [] ↔ ∃ r ∈ reads, r.hit ≠ none := by
  constructor
  · intro hne
    obtain ⟨a, ha⟩ := List.exists_mem_of_ne_nil _ hne
    obtain ⟨r, hr, hage⟩ := mem_ages.mp ha
    refine ⟨r, hr, fun hnone => ?_⟩
    rw [FieldRead.age, hnone] at hage
    cases hage
  · rintro ⟨r, hr, hne⟩
    obtain ⟨hit, hhit⟩ := Option.ne_none_iff_exists'.mp hne
    exact List.ne_nil_of_mem (mem_ages.mpr ⟨r, hr, congrArg _ hhit⟩)

/-- The keys of a reading are those of the fields, and the guard's. -/
theorem lookup_readingOf (hfields : (reads.map (·.field)).Nodup) (key : String) :
    (readingOf env reads).lookup key =
      if key = "age_seconds" then
        some (if reads.any (·.hit.isSome) then
          .float (PyFloat.round (.finite ((ages reads).foldl max 0)) 1) else .null)
      else if key = "stale" then
        some (.bool ((reads.any (·.hit.isSome) && env.mqtt.config.staleAfterSeconds.lt
          (.finite ((ages reads).foldl max 0))) || !reads.any (·.hit.isSome)))
      else (reads.map fun r => (r.field, r.value)).lookup key := by
  have hnodup : ((reads.map fun r => (r.field, r.value)).map Prod.fst).Nodup := by
    rwa [List.map_map]
  rw [readingOf, Collected.result, Dict.lookup_set, Dict.lookup_set, Dict.lookup_union hnodup]
  split
  · split <;> rfl
  · split
    · rfl
    · exact Option.or_none

theorem readingOf_nodup : ((readingOf env reads).map Prod.fst).Nodup := by
  have hempty : (([] : Dict).map Prod.fst).Nodup := List.nodup_nil
  exact Dict.nodup_set (Dict.nodup_set (Dict.nodup_union hempty _) _ _) _ _

/-- A field of the table shows the value that was looked up. -/
theorem lookup_field (hfields : (reads.map (·.field)).Nodup) {r : FieldRead} (hr : r ∈ reads)
    (hkey : r.field ∉ guardKeys) : (readingOf env reads).lookup r.field = some r.value := by
  simp only [guardKeys, List.mem_cons, List.not_mem_nil, or_false, not_or] at hkey
  rw [lookup_readingOf hfields, if_neg hkey.2, if_neg hkey.1]
  have hnodup : ((reads.map fun r => (r.field, r.value)).map Prod.fst).Nodup := by
    rwa [List.map_map]
  exact (lookup_eq_some_of_nodup hnodup).mpr (List.mem_map_of_mem hr)

/-- The threshold can be compared, or there is nothing to compare. -/
def Guarded (env : ReadEnv) (reads : List FieldRead) : Prop :=
  env.mqtt.config.staleAfterSeconds ≠ .nan ∨ ∀ r ∈ reads, r.hit = none

/-- A reading that shows what was looked up, but for a power computed from it. -/
def Shows (env : ReadEnv) (reads : List FieldRead) (reading : Dict) : Prop :=
  ∀ key, key ∈ guardKeys ∨ (∃ r ∈ reads, r.field = key) →
    reading.lookup key = (readingOf env reads).lookup key ∨
      key = "power" ∧ isNone (Dict.get (readingOf env reads) "power") = true ∧
        FromProduct env reads reading

/-- A comparison with a number that is not NaN fails one way or the other. -/
theorem not_lt_iff_le {x : PyFloat} (hx : x ≠ .nan) (q : ℚ) :
    x.lt (.finite q) = false ↔ (PyFloat.finite q).le x = true := by
  cases x with
  | nan => exact absurd rfl hx
  | inf negative => cases negative <;> simp [PyFloat.lt, PyFloat.le, PyFloat.eq]
  | finite p => simp

theorem le_of_le {x : PyFloat} {p q : ℚ} (hpq : p ≤ q) (hq : (PyFloat.finite q).le x = true) :
    (PyFloat.finite p).le x = true := by
  cases x with
  | nan => exact absurd hq (by simp [PyFloat.lt, PyFloat.le, PyFloat.eq])
  | inf negative => exact hq
  | finite r =>
    rw [PyFloat.le_finite, decide_eq_true_eq] at hq ⊢
    exact hpq.trans hq

theorem not_le_nan (q : ℚ) : (PyFloat.finite q).le .nan = false := rfl

/-- The guard keeps its promise exactly when its comparison means something. -/
theorem covered_iff (hfields : (reads.map (·.field)).Nodup)
    (hnonneg : ∀ a ∈ ages reads, 0 ≤ a) {reading : Dict} (hshows : Shows env reads reading) :
    Covered env reads reading ↔ Guarded env reads := by
  -- the guard's own keys are not touched by the postprocessor
  have hkeep : ∀ key ∈ guardKeys, reading.lookup key = (readingOf env reads).lookup key := by
    intro key hkey
    rcases hshows key (.inl hkey) with h | ⟨rfl, -⟩
    · exact h
    · exact absurd hkey (by decide)
  have hstale := hkeep "stale" (by decide)
  have hage := hkeep "age_seconds" (by decide)
  rw [lookup_readingOf hfields, if_neg (by decide), if_pos rfl] at hstale
  rw [lookup_readingOf hfields, if_pos rfl] at hage
  -- neither is any other field, unless it is a power that came out as none
  have hvalue : ∀ r ∈ reads, r.field ∉ guardKeys →
      reading.lookup r.field = some r.value ∨
        r.field = "power" ∧ isNone r.value = true ∧ FromProduct env reads reading := by
    intro r hr hkey
    have hlookup : (readingOf env reads).lookup r.field = some r.value :=
      lookup_field hfields hr hkey
    rcases hshows r.field (.inr ⟨r, hr, rfl⟩) with h | ⟨hpower, hnone, hproduct⟩
    · exact .inl (h.trans hlookup)
    · refine .inr ⟨hpower, ?_, hproduct⟩
      rwa [Dict.get, ← hpower, hlookup] at hnone
  -- either something was found, and the oldest age decides, or nothing was
  by_cases hany : reads.any (·.hit.isSome) = true
  · obtain ⟨hmem, hmax⟩ := foldl_max_spec hnonneg (ages_ne_nil.mpr (any_hit.mp hany))
    obtain ⟨oldest, holdest, hmaxAge⟩ := mem_ages.mp hmem
    have hsome : ¬∀ r ∈ reads, r.hit = none := by
      obtain ⟨r, hr, hhit⟩ := any_hit.mp hany
      exact fun hnone => hhit (hnone r hr)
    rw [hany, Bool.true_and, Bool.not_true, Bool.or_false] at hstale
    rw [hany, if_pos rfl] at hage
    constructor
    · rintro ⟨-, ⟨stale, hlookup, hfresh, -⟩, -⟩
      -- against a NaN no age is stale, yet the oldest one is not covered
      refine .inl fun hnan => ?_
      rw [hstale, hnan] at hlookup
      have hle := (hfresh (Json.bool.inj (Option.some.inj hlookup)).symm).2 oldest holdest _ hmaxAge
      rw [hnan, not_le_nan] at hle
      cases hle
    · intro hguarded
      -- with a number the flag compares the maximum, so it covers every age
      have hthreshold := hguarded.resolve_right hsome
      refine ⟨hvalue, ⟨_, hstale, fun hfresh => ⟨any_hit.mp hany, ?_⟩, fun hold => ?_⟩, ?_⟩
      · intro r hr a ha
        exact le_of_le (hmax a (mem_ages.mpr ⟨r, hr, ha⟩)) ((not_lt_iff_le hthreshold _).mp hfresh)
      · exact .inr ⟨oldest, holdest, _, hmaxAge, hold⟩
      · exact .inr ⟨oldest, holdest, _, hmaxAge,
          fun r' hr' a' ha' => hmax a' (mem_ages.mpr ⟨r', hr', ha'⟩), hage⟩
  -- nothing found is stale, whatever the threshold
  · have hnone : ∀ r ∈ reads, r.hit = none := by
      intro r hr
      by_contra hhit
      exact hany (any_hit.mpr ⟨r, hr, hhit⟩)
    rw [Bool.not_eq_true] at hany
    rw [hany, Bool.false_and, Bool.false_or, Bool.not_false] at hstale
    rw [hany, if_neg (by decide)] at hage
    refine ⟨fun _ => .inr hnone, fun _ => ⟨hvalue, ⟨true, hstale, ?_, fun _ => .inl hnone⟩,
      .inl ⟨hnone, hage⟩⟩⟩
    exact fun hfalse => absurd hfalse (by decide)

/-- The entries a reading starts from. -/
def IsBase (base : Dict) : Prop := ∀ key ∈ base.map Prod.fst, key = "device_type" ∨ key = "instance"

theorem lookup_union_readingOf {base : Dict} (hfields : (reads.map (·.field)).Nodup) {key : String}
    (hkey : key ∈ guardKeys ∨ ∃ r ∈ reads, r.field = key) :
    (Dict.union base (readingOf env reads)).lookup key = (readingOf env reads).lookup key := by
  rw [Dict.lookup_union readingOf_nodup]
  obtain ⟨v, hv⟩ : ∃ v, (readingOf env reads).lookup key = some v := by
    by_cases hguard : key ∈ guardKeys
    · rw [lookup_readingOf hfields]
      simp only [guardKeys, List.mem_cons, List.not_mem_nil, or_false] at hguard
      rcases hguard with rfl | rfl
      · exact ⟨_, rfl⟩
      · exact ⟨_, rfl⟩
    · obtain ⟨r, hr, rfl⟩ := hkey.resolve_left hguard
      exact ⟨_, lookup_field hfields hr hguard⟩
  rw [hv]
  rfl

/-- A voltage or a current that the fallback finds was looked up. -/
theorem looked_up {base : Dict} (hbase : IsBase base) (hfields : (reads.map (·.field)).Nodup)
    {key : String} (hguard : key ∉ guardKeys) (hname : key ≠ "device_type" ∧ key ≠ "instance")
    (hsome : isNone (Dict.get (Dict.union base (readingOf env reads)) key) = false) :
    ∃ r ∈ reads, r.field = key ∧ r.hit ≠ none ∧
      Dict.get (Dict.union base (readingOf env reads)) key = r.value := by
  -- the entries of `base` are named otherwise
  have hmiss : base.lookup key = none := by
    rw [List.lookup_eq_none_iff]
    intro e he
    have hkey := hbase e.1 (List.mem_map_of_mem he)
    rw [bne_iff_ne]
    rintro rfl
    exact hkey.elim hname.1 hname.2
  have hlookup : (Dict.union base (readingOf env reads)).lookup key =
      (readingOf env reads).lookup key := by
    rw [Dict.lookup_union readingOf_nodup, hmiss, Option.or_none]
  -- the key is a field, since its value is not none
  by_cases hfield : ∃ r ∈ reads, r.field = key
  · obtain ⟨r, hr, rfl⟩ := hfield
    have hvalue : Dict.get (Dict.union base (readingOf env reads)) r.field = r.value := by
      rw [Dict.get, hlookup, lookup_field hfields hr hguard]
      rfl
    refine ⟨r, hr, rfl, fun hnone => ?_, hvalue⟩
    rw [hvalue, FieldRead.value, hnone] at hsome
    cases hsome
  · have hnone : (reads.map fun r => (r.field, r.value)).lookup key = none := by
      rw [List.lookup_eq_none_iff]
      intro e he
      obtain ⟨r, hr, rfl⟩ := List.mem_map.mp he
      exact bne_iff_ne.mpr fun hkey => hfield ⟨r, hr, hkey.symm⟩
    simp only [guardKeys, List.mem_cons, List.not_mem_nil, or_false, not_or] at hguard
    rw [Dict.get, hlookup, lookup_readingOf hfields, if_neg hguard.2, if_neg hguard.1, hnone]
      at hsome
    cases hsome

/-- What the postprocessors of the tools make of a reading shows it still. -/
theorem shows_post {base reading : Dict} (hbase : IsBase base)
    (hfields : (reads.map (·.field)).Nodup) {table : PathTable} {post : Postprocess}
    (hnames : table.map Prod.fst = reads.map (·.field)) (hpost : Fits table post)
    (h : post env (Dict.union base (readingOf env reads)) = .ok reading) :
    Shows env reads reading := by
  intro key hkey
  have hsame : (Dict.union base (readingOf env reads)).lookup key =
      (readingOf env reads).lookup key := lookup_union_readingOf hfields hkey
  cases hpost with
  -- without a postprocessor there is nothing to show
  | none =>
    obtain rfl := Except.ok.inj h
    exact .inl hsame
  | fallback =>
    rcases pvVxiFallback_product h with rfl | ⟨hnone, hvoltage, hcurrent, x, y, hx, hy, rfl⟩
    · exact .inl hsame
    -- the product replaces a power, and both factors were looked up
    · rw [Dict.lookup_set]
      split
      · rename_i hpower
        subst hpower
        obtain ⟨v, hv, hvfield, hvhit, hvvalue⟩ :=
          looked_up hbase hfields (by decide) (by decide) hvoltage
        obtain ⟨i, hi, hifield, hihit, hivalue⟩ :=
          looked_up hbase hfields (by decide) (by decide) hcurrent
        rw [hvvalue] at hx
        rw [hivalue] at hy
        rw [Dict.get, hsame] at hnone
        refine .inr ⟨rfl, hnone, v, hv, i, hi, hvfield, hifield, hvhit, hihit, x, y, hx, hy, ?_⟩
        rw [Dict.lookup_set, if_pos rfl]
      · exact .inl hsame
  -- the names of the codes are no fields
  | enums hmode hstate =>
    have hadded : ∀ name, name ∉ table.map Prod.fst → name ∉ guardKeys → key ≠ name := by
      rintro name hname hguard rfl
      rcases hkey with hkey | ⟨r, hr, rfl⟩
      · exact hguard hkey
      · exact hname (hnames ▸ List.mem_map_of_mem hr)
    refine .inl ((decodeVebusEnums_lookup h ?_ ?_).trans hsame)
    · exact hadded "mode_name" hmode (by decide)
    · exact hadded "state_name" hstate (by decide)

end Guard

/-! ## The clock -/

/-- `time.monotonic` never goes back: read after an entry it is not behind the
    entry's stamp. -/
def Timely (t : LookupTrace) : Prop :=
  t.Pairwise fun x y => match x, y with
    | ⟨.get _, some (_, receivedAt)⟩, ⟨.monotonic, now⟩ => receivedAt ≤ now
    | _, _ => True

theorem age_nonneg {pre : String} {d : Device} {reads : List FieldRead}
    (ht : Timely (reads.flatMap (FieldRead.trace pre d))) {a : ℚ} (ha : a ∈ ages reads) :
    0 ≤ a := by
  obtain ⟨⟨field, misses, hit⟩, hr, hage⟩ := mem_ages.mp ha
  obtain ⟨⟨path, value, receivedAt, now⟩, rfl, rfl⟩ := Option.map_eq_some_iff.mp hage
  have hsub : (FieldRead.trace pre d ⟨field, misses, some (path, value, receivedAt, now)⟩).Sublist
      (reads.flatMap (FieldRead.trace pre d)) :=
    List.sublist_flatten_of_mem (List.mem_map_of_mem hr)
  have hpair := (List.pairwise_append.mp (ht.sublist hsub)).2.1
  exact sub_nonneg.mpr (List.rel_of_pairwise_cons hpair List.mem_cons_self)

/-! ## The readings of a run -/

section Readings

variable {env : ReadEnv} {d : Device} {t : LookupTrace} {table : PathTable} {post : Postprocess}

theorem yields_liveReading {base reading : Dict}
    (h : Program.Yields (liveReading env table post base d) t (.ok reading)) :
    ∃ reads, LookedUp env table d t reads ∧
      post env (Dict.union base (readingOf env reads)) = .ok reading := by
  obtain ⟨t₁, collected, t₂, hcollect, hend, rfl⟩ := Program.yields_bind.mp h
  obtain ⟨rfl, hpost⟩ := yields_lift.mp hend
  obtain ⟨reads, hlooked, rfl⟩ := yields_liveCollect hcollect
  exact ⟨reads, (List.append_nil t₁).symm ▸ hlooked, hpost⟩

theorem FanOut.add_readings {s s' : FanOut} {reading : Dict} (h : s.add reading = .ok s') :
    s'.readings = s.readings ++ [reading] := by
  rw [FanOut.add] at h
  split at h
  · rw [← Except.ok.inj h]
  · cases h
  · rw [← Except.ok.inj h]

/-- A reading of the fan-out, in a part of the run. -/
def ReadIn (env : ReadEnv) (table : PathTable) (post : Postprocess) (t : LookupTrace)
    (reading : Dict) : Prop :=
  ∃ (d : Device) (t' : LookupTrace), t' <:+: t ∧
    Program.Yields (liveReading env table post
      [("device_type", .str d.1), ("instance", .int d.2)] d) t' (.ok reading)

theorem ReadIn.mono {t' : LookupTrace} {reading : Dict} (h : ReadIn env table post t reading)
    (ht : t <:+: t') : ReadIn env table post t' reading := by
  obtain ⟨d, t₁, hinfix, hyields⟩ := h
  exact ⟨d, t₁, hinfix.trans ht, hyields⟩

theorem yields_liveInstances {ds : List Device} {s s' : FanOut}
    (h : Program.Yields (liveInstances env table post ds s) t (.ok s')) :
    ∀ reading ∈ s'.readings, reading ∈ s.readings ∨ ReadIn env table post t reading := by
  induction ds generalizing s t with
  | nil =>
    obtain ⟨-, rfl⟩ := Program.yields_pure.mp h
    exact fun reading hreading => .inl hreading
  | cons d ds ih =>
    obtain ⟨t₁, first, t₂, hread, hbody, rfl⟩ := Program.yields_bind.mp h
    obtain ⟨t₃, s₁, t₄, hlift, hrest, rfl⟩ := Program.yields_bind.mp hbody
    obtain ⟨rfl, hadd⟩ := yields_lift.mp hlift
    intro reading hreading
    rcases ih hrest reading hreading with hold | hnew
    · rw [FanOut.add_readings hadd, List.mem_append, List.mem_singleton] at hold
      rcases hold with hold | rfl
      · exact .inl hold
      · exact .inr ⟨d, t₁, List.infix_append' [] t₁ _, hread⟩
    · exact .inr (hnew.mono ⟨t₁, [], by simp⟩)

theorem yields_liveTypes {deviceTypes : List String} {s s' : FanOut}
    (h : Program.Yields (liveTypes env table post deviceTypes s) t (.ok s')) :
    ∀ reading ∈ s'.readings, reading ∈ s.readings ∨ ReadIn env table post t reading := by
  induction deviceTypes generalizing s t with
  | nil =>
    obtain ⟨-, rfl⟩ := Program.yields_pure.mp h
    exact fun reading hreading => .inl hreading
  | cons deviceType deviceTypes ih =>
    obtain ⟨t₁, cache, t₂, -, hbody, rfl⟩ := Program.yields_bind.mp h
    obtain ⟨t₃, devices, t₄, hlift, hloop, rfl⟩ := Program.yields_bind.mp hbody
    obtain ⟨rfl, -⟩ := yields_lift.mp hlift
    obtain ⟨t₅, s₁, t₆, hinstances, hrest, rfl⟩ := Program.yields_bind.mp hloop
    intro reading hreading
    rcases ih hrest reading hreading with hold | hnew
    · rcases yields_liveInstances hinstances reading hold with hold | hnew
      · exact .inl hold
      · exact .inr (hnew.mono ⟨t₁, t₆, by simp⟩)
    · exact .inr (hnew.mono ⟨t₁ ++ t₅, [], by simp⟩)

theorem yields_liveReadAll {deviceTypes : List String} {result : ReadResult}
    (h : Program.Yields (liveReadAll env table deviceTypes post) t (.ok result)) :
    ∃ readings total, result = .fanOut readings total ∧
      ∀ reading ∈ readings, ReadIn env table post t reading := by
  obtain ⟨t₁, s, t₂, htypes, hend, rfl⟩ := Program.yields_bind.mp h
  obtain ⟨rfl, rfl⟩ := Program.yields_pure.mp hend
  refine ⟨s.readings, _, rfl, fun reading hreading => ?_⟩
  rw [List.append_nil]
  exact (yields_liveTypes htypes reading hreading).resolve_left fun hmem => nomatch hmem

/-- The fields looked up are those of the table. -/
theorem LookedUp.names {reads : List FieldRead} (h : LookedUp env table d t reads) :
    table.map Prod.fst = reads.map (·.field) := by
  rw [← List.forall₂_eq_eq_eq, List.forall₂_map_left_iff, List.forall₂_map_right_iff]
  exact h.fields.imp fun _ _ hof => hof.1.symm

theorem LookedUp.nodup {reads : List FieldRead} (h : LookedUp env table d t reads)
    (hkeys : (table.map Prod.fst).Nodup) : (reads.map (·.field)).Nodup := by
  rwa [← h.names]

/-- One reading, from its look-ups to what is made of it. -/
theorem liveReading_covered (hkeys : (table.map Prod.fst).Nodup) (ht : Timely t)
    (hpost : Fits table post) {base reading : Dict} (hbase : IsBase base)
    (h : Program.Yields (liveReading env table post base d) t (.ok reading)) :
    ∃ reads, LookedUp env table d t reads ∧
      (Covered env reads reading ↔ Guarded env reads) := by
  obtain ⟨reads, hlooked, hmade⟩ := yields_liveReading h
  have hfields := hlooked.nodup hkeys
  have hnonneg : ∀ a ∈ ages reads, 0 ≤ a := by
    intro a ha
    rw [← hlooked.run] at ht
    exact age_nonneg ht ha
  have hshows := shows_post hbase hfields hlooked.names hpost hmade
  exact ⟨reads, hlooked, covered_iff hfields hnonneg hshows⟩

end Readings

/-! ## The guard -/

/-- The reading of the look-ups `reads` is covered exactly when the threshold is a
    number that can be compared, or nothing was found: on its own, below the
    entries of a tool, with the postprocessor of any tool, and in the fan-out. -/
theorem stale_guard_covers (env : ReadEnv) {table : PathTable}
    (hkeys : (table.map Prod.fst).Nodup) {t : LookupTrace} (ht : Timely t) :
    (∀ d reading, Program.Yields (liveCollect env table d) t (.ok reading) →
      ∃ reads, LookedUp env table d t reads ∧
        (Covered env reads reading ↔ Guarded env reads)) ∧
    ∀ post, Fits table post →
      (∀ d base reading, IsBase base →
        Program.Yields (liveReading env table post base d) t (.ok reading) →
        ∃ reads, LookedUp env table d t reads ∧
          (Covered env reads reading ↔ Guarded env reads)) ∧
      ∀ deviceTypes result,
        Program.Yields (liveReadAll env table deviceTypes post) t (.ok result) →
        ∃ readings total, result = .fanOut readings total ∧
          ∀ reading ∈ readings, ∃ (d : Device) (t' : LookupTrace), t' <:+: t ∧
            Program.Yields (liveReading env table post
              [("device_type", .str d.1), ("instance", .int d.2)] d) t' (.ok reading) ∧
            ∃ reads, LookedUp env table d t' reads ∧
              (Covered env reads reading ↔ Guarded env reads) := by
  refine ⟨fun d reading h => ?_, fun post hpost => ⟨fun d base reading hbase h => ?_,
    fun deviceTypes result h => ?_⟩⟩
  -- one reading on its own
  · obtain ⟨reads, hlooked, rfl⟩ := yields_liveCollect h
    have hnonneg : ∀ a ∈ ages reads, 0 ≤ a := by
      intro a ha
      rw [← hlooked.run] at ht
      exact age_nonneg ht ha
    exact ⟨reads, hlooked, covered_iff (hlooked.nodup hkeys) hnonneg fun key _ => .inl rfl⟩
  · exact liveReading_covered hkeys ht hpost hbase h
  -- every reading of the fan-out, in its own part of the run
  · obtain ⟨readings, total, rfl, hreadings⟩ := yields_liveReadAll h
    refine ⟨readings, total, rfl, fun reading hreading => ?_⟩
    obtain ⟨d, t', hinfix, hread⟩ := hreadings reading hreading
    have hbase : IsBase [("device_type", .str d.1), ("instance", .int d.2)] := by
      simp [IsBase]
    exact ⟨d, t', hinfix, hread,
      liveReading_covered hkeys (ht.sublist hinfix.sublist) hpost hbase hread⟩

/-! ## A battery that has been silent -/

/-- Only the threshold differs. -/
def thresholdEnv (staleAfterSeconds : PyFloat) : ReadEnv :=
  { fixtureReadEnv with
    mqtt := { fixtureEnv with
      config := { fixtureEnv.config with staleAfterSeconds := staleAfterSeconds } } }

def socTable : PathTable := [("soc", ["Soc"])]

/-- The state of charge was received at time 0 and is read 1 000 000 seconds later. -/
def silentTrace : LookupTrace :=
  [⟨.get "N/testportal/battery/1/Soc", some (.int 50, 0)⟩, ⟨.monotonic, (1000000 : ℚ)⟩]

theorem silentTrace_timely : Timely silentTrace := by
  refine List.pairwise_pair.mpr ?_
  show (0 : ℚ) ≤ 1000000
  decide

theorem silentTrace_yields (staleAfterSeconds : PyFloat) :
    ∃ reading, Program.Yields (liveCollect (thresholdEnv staleAfterSeconds) socTable
        ("battery", 1)) silentTrace (.ok reading) ∧
      reading.lookup "stale" = some (.bool (staleAfterSeconds.lt (.finite 1000000))) := by
  refine ⟨_, ⟨_, _, rfl, _, _, rfl, rfl, rfl⟩, ?_⟩
  rw [Collected.result, Dict.lookup_set, if_neg (by decide), Dict.lookup_set, if_pos rfl]
  simp [Collected.note, thresholdEnv, PyNum.lt, PyNum.toFloat]

theorem stale_guard_covers_silent :
    ∃ reads reading, LookedUp (thresholdEnv (.finite 60)) socTable ("battery", 1) silentTrace
        reads ∧ Covered (thresholdEnv (.finite 60)) reads reading := by
  obtain ⟨reading, hyields, -⟩ := silentTrace_yields (.finite 60)
  obtain ⟨reads, hlooked, hcovered⟩ :=
    (stale_guard_covers _ (by decide) silentTrace_timely).1 _ reading hyields
  exact ⟨reads, reading, hlooked, hcovered.mpr (.inl (by simp [thresholdEnv]))⟩

/-- With a threshold that is NaN the million seconds go unnoticed: the reading says it
    is not stale. -/
theorem nan_threshold_hides_age :
    ¬∀ (env : ReadEnv) (table : PathTable) (d : Device) (t : LookupTrace) (reading : Dict),
      (table.map Prod.fst).Nodup → Timely t →
      Program.Yields (liveCollect env table d) t (.ok reading) →
      ∃ reads, LookedUp env table d t reads ∧ Covered env reads reading := by
  intro h
  obtain ⟨reading, hyields, hfresh⟩ := silentTrace_yields .nan
  obtain ⟨reads, hlooked, hcovered⟩ := h (thresholdEnv .nan) socTable ("battery", 1) silentTrace
    reading (by decide) silentTrace_timely hyields
  obtain ⟨stale, hstale, hpromise, -⟩ := hcovered.flag
  rw [hfresh] at hstale
  obtain ⟨⟨r, hr, hhit⟩, hages⟩ :=
    hpromise (Json.bool.inj (Option.some.inj hstale)).symm
  obtain ⟨hit, hhit⟩ := Option.ne_none_iff_exists'.mp hhit
  have hle := hages r hr _ (congrArg _ hhit)
  rw [show (thresholdEnv .nan).mqtt.config.staleAfterSeconds = .nan from rfl, not_le_nan] at hle
  cases hle

end Server

end McpVenusOs
