/-
  McpVenusOs.Server.PlainValues

  What the readers of a topic see of a notification.

  The gateway publishes an item as a bare value, as `{"value": v}`, or as an
  object with further members beside `value`.  The decoder unwraps an object
  whose only member is `value`, the write verifier any object, and the other
  readers nothing.  So they agree on the first two forms (`plain_value_seen`),
  and on the third only the verifier sees `v`.
-/

import McpVenusOs.Mqtt.Decoder
import McpVenusOs.Server.Readings

namespace McpVenusOs.Server

open Py

def isObject : Json → Bool
  | .obj _ => true
  | _ => false

/-- The payloads in which the gateway publishes the value `v`. -/
inductive Form (v : Json) : Json → Prop
  | bare : Form v v
  | object {fields : List (String × Json)} : (fields.map Prod.fst).Nodup →
      fields.lookup "value" = some v → Form v (.obj fields)

/-- An object with members beside `value`. -/
def furtherMembers : Json → Bool
  | .obj fields => fields.length ≠ 1
  | _ => false

/-- All readers of a topic see the value `v`, received at `receivedAt`. -/
structure SeenAs (env : ReadEnv) (c : MqttClient) (pre topic : String) (v : Json)
    (receivedAt : ℚ) : Prop where
  /-- The entry that every reader of the topic looks up. -/
  entry : c.cache.lookup topic = some (v, receivedAt)
  readPath : ∀ now t n path, formatTopic pre t n path = .ok topic →
    c.readPath env.mqtt now t n path = .ok (some (v, .float (.finite (now - receivedAt))))
  /-- `read_first`, when no earlier candidate is cached. -/
  readFirst : ∀ t n earlier path later, formatTopic pre t n path = .ok topic →
    (∀ p ∈ earlier, c.cache.lookup (itemTopic pre t n p) = none) →
    c.readFirst env.mqtt env.clock t n (earlier ++ path :: later) =
      .ok (some (v, .float (.finite (env.clock t n path - receivedAt))))
  /-- The tool field with these candidates. -/
  field : ∀ fieldPaths name t n earlier path later, Tabled fieldPaths → name ∉ reserved →
    fieldPaths.lookup name = some (earlier ++ path :: later) →
    formatTopic pre t n path = .ok topic →
    (∀ p ∈ earlier, c.cache.lookup (itemTopic pre t n p) = none) →
    ∃ reading, collectMqtt env c fieldPaths t n = .ok reading ∧ Dict.get reading name = v
  /-- The identity comparison of `validate_hardware_write`. -/
  identity : ∀ now maxAge (probe : IdentityProbe),
    formatTopic pre probe.deviceType probe.inst probe.path = .ok topic →
    checkIdentity (c.readPath env.mqtt now) maxAge [probe] =
      .ok (probeFault maxAge probe (some (v, .float (.finite (now - receivedAt)))))
  /-- The write verifier, on what `read_path_since` gives it. -/
  verifier : ∀ now t n path since expected, formatTopic pre t n path = .ok topic →
    since ≤ receivedAt →
    ∃ received age, c.readPathSince env.mqtt now t n path since = .ok (some (received, age)) ∧
      valuesMatch env.parseFloat received expected = valuesMatch env.parseFloat v expected

variable {env : ReadEnv} {c : MqttClient} {pre topic : String} {v : Json} {receivedAt : ℚ}

/-- Every reader takes the cache entry, and the verifier unwraps no plain value. -/
theorem seenAs_of_entry (hpre : env.mqtt.config.topicPrefix = .ok pre)
    (hentry : c.cache.lookup topic = some (v, receivedAt)) :
    SeenAs env c pre topic v receivedAt := by
  -- a read at any time gives the value, with its age
  have hread : ∀ now t n path, formatTopic pre t n path = .ok topic →
      c.readPath env.mqtt now t n path =
        .ok (some (v, .float (.finite (now - receivedAt)))) := by
    intro now t n path htopic
    rw [MqttClient.readPath_eq hpre htopic, hentry]
    rfl
  -- the first path that has an entry decides
  have hfirst : ∀ t n earlier path later, formatTopic pre t n path = .ok topic →
      (∀ p ∈ earlier, c.cache.lookup (itemTopic pre t n p) = none) →
      firstCached env c pre (t, n) (earlier ++ path :: later) =
        some (v, .float (.finite (env.clock t n path - receivedAt))) := by
    intro t n earlier path later htopic hearlier
    obtain ⟨-, rfl⟩ := formatTopic_eq_ok.mp htopic
    have hnone : earlier.findSome? (fun p => (c.cache.lookup (itemTopic pre t n p)).map
        fun entry => (entry.1, PyNum.float (.finite (env.clock t n p - entry.2)))) = none := by
      rw [List.findSome?_eq_none_iff]
      intro p hp
      rw [hearlier p hp]
      rfl
    rw [firstCached, List.findSome?_append, hnone, List.findSome?_cons, hentry]
    rfl
  -- the entry, the three reads, the field and the probe
  refine ⟨hentry, hread, ?_, ?_, ?_, ?_⟩
  · intro t n earlier path later htopic hearlier
    rw [readFirst_eq hpre (d := (t, n)) (formatTopic_eq_ok.mp htopic).1,
      hfirst t n earlier path later htopic hearlier]
  · intro fieldPaths name t n earlier path later htabled hname hlookup htopic hearlier
    refine ⟨_, collectMqtt_eq hpre fieldPaths (d := (t, n)) (formatTopic_eq_ok.mp htopic).1, ?_⟩
    rw [Dict.get, lookup_collected htabled (t, n) hname, hlookup]
    show fieldValue env c pre (t, n) (earlier ++ path :: later) = v
    rw [fieldValue, hfirst t n earlier path later htopic hearlier]
  · intro now maxAge probe htopic
    rw [checkIdentity, hread now _ _ _ htopic]
    cases hfault : probeFault maxAge probe (some (v, .float (.finite (now - receivedAt)))) <;>
      simp only [bind, Except.bind, hfault] <;> rfl
  · intro now t n path since expected htopic hsince
    refine ⟨v, .float (.finite (now - receivedAt)), ?_, rfl⟩
    rw [MqttClient.readPathSince_eq hpre htopic, hentry]
    show Except.ok (if receivedAt < since then none else _) = _
    rw [if_neg (not_lt.mpr hsince)]

/-- The decoder takes the value out of an object without further members, and
    leaves everything else as it is. -/
theorem unwrap_form {payload : Json} (hv : isObject v = false) (h : Form v payload) :
    unwrap payload = if furtherMembers payload then payload else v := by
  cases h with
  | bare => cases v <;> simp_all [isObject, unwrap, furtherMembers]
  | @object fields hnodup hvalue =>
    match fields, hvalue with
    | [(key, w)], hvalue =>
      rw [Dict.lookup_cons] at hvalue
      split at hvalue
      · rename_i hkey
        obtain rfl : key = "value" := hkey.symm
        obtain rfl := Option.some.inj hvalue
        rfl
      · cases hvalue
    | (key, w) :: f :: fields, _ => simp [unwrap, furtherMembers]

/-- A notification of the value `v` is seen as `v` by all readers of its topic
    exactly when its payload has no further members. -/
theorem plain_value_seen {e : InboxEntry} {payload : Json}
    (hpre : env.mqtt.config.topicPrefix = .ok pre)
    (htopic : startsWith e.msg.topic (pre ++ "/") = true)
    (hserial : ¬(e.msg.topic = serialTopic pre ∧ e.msg.retain = true))
    (hcurrent : c.transport.current e.client = true) (hnonempty : e.msg.payload ≠ [])
    (hloads : env.mqtt.loads e.msg.payload = some payload) (hv : isObject v = false)
    (hform : Form v payload) :
    SeenAs env (c.handleMessage env.mqtt e).1 pre e.msg.topic v e.receivedAt ↔
      furtherMembers payload = false := by
  have hentry : (c.handleMessage env.mqtt e).1.cache.lookup e.msg.topic =
      some (unwrap payload, e.receivedAt) := by
    have hcacheable : cacheable pre e.msg.topic = true := by
      rw [cacheable, htopic, Bool.true_or]
    rw [MqttClient.handleMessage_cache hpre, if_pos hcurrent, applyEntry, if_neg hnonempty,
      hloads]
    simp only [if_neg hserial, hcacheable, if_true]
    exact AList.lookup_insert _
  constructor
  · intro h
    have hplain : unwrap payload = v := by
      have hseen := h.entry
      rw [hentry] at hseen
      exact (Prod.mk.inj (Option.some.inj hseen)).1
    rw [unwrap_form hv hform] at hplain
    by_contra hmore
    rw [if_pos (Bool.not_eq_false _ ▸ hmore)] at hplain
    cases payload with
    | obj fields => rw [← hplain] at hv; cases hv
    | _ => exact hmore rfl
  · intro hmore
    rw [unwrap_form hv hform, hmore, if_neg Bool.false_ne_true] at hentry
    exact seenAs_of_entry hpre hentry

/-! ## Two notifications -/

/-- A client that owns transport 0. -/
def connectedClient : MqttClient := { transport := { client := some 0 } }

/-- The bare value 7 on a state of charge. -/
theorem plain_value_seen_soc :
    let e : InboxEntry := ⟨0, 0, ⟨"N/testportal/battery/512/Soc", [55], false⟩, 3⟩
    SeenAs fixtureReadEnv (connectedClient.handleMessage fixtureReadEnv.mqtt e).1 "N/testportal"
        e.msg.topic (.int 7) e.receivedAt ↔
      furtherMembers (.int 7) = false := by
  have hloads : fixtureReadEnv.mqtt.loads [55] = some (.int 7) := rfl
  exact plain_value_seen (e := ⟨0, 0, ⟨"N/testportal/battery/512/Soc", [55], false⟩, 3⟩)
    (by decide +kernel) (by decide +kernel) (by decide +kernel) (by decide) (by decide) hloads rfl
    .bare

/-- The gateway's form with a maximum. -/
def boundedText : List UInt8 :=
  "\x7b\"max\":52.0,\"value\":45.0\x7d".toList.map fun c => UInt8.ofNat c.toNat

def boundedValue : Json :=
  .obj [("max", .float (.finite 52)), ("value", .float (.finite 45))]

def boundedEnv : ReadEnv :=
  { fixtureReadEnv with
    mqtt := { fixtureEnv with
      loads := fun bytes => if bytes = boundedText then some boundedValue else none } }

/-- The verifier takes it as an echo of 45; the readers see the object. -/
theorem bounded_value_differs :
    valuesMatch boundedEnv.parseFloat boundedValue (.float (.finite 45)) = true ∧
      let e : InboxEntry := ⟨0, 0, ⟨"N/testportal/vebus/256/Dc/0/MaxChargeCurrent", boundedText,
        false⟩, 3⟩
      ¬SeenAs boundedEnv (connectedClient.handleMessage boundedEnv.mqtt e).1 "N/testportal"
        e.msg.topic (.float (.finite 45)) e.receivedAt := by
  refine ⟨by decide +kernel, ?_⟩
  intro e h
  have hentry := h.entry
  have hobject : ((connectedClient.handleMessage boundedEnv.mqtt e).1.cache.lookup
      e.msg.topic).map (fun entry => isObject entry.1) = some true := by
    decide +kernel
  rw [hentry] at hobject
  cases hobject

end McpVenusOs.Server
