import Llmleaf.Fields
import Llmleaf.Lib.Traverse
import Llmleaf.Web.Attribution

/-!
# The wire between a node and its control plane

The documents of the three control endpoints, as the side that sends one writes it and the side that
receives it reads it. Each side has its own types: the control plane knows an event by its tag and
takes a tag it does not know for `unknown`, the node reads sets where the control plane writes lists.

- **Results** (`ingest_usageBody`, `readRoster_rosterBody`, `readVerdicts_verdictsBody`): what is
  written is read in full, and means on the other side what it meant on this one.
-/

namespace Llmleaf

namespace Web

/-! ## The usage push -/

/-- A usage as the node writes it; a cache count of zero is left out. -/
def usageFields (u : Llmleaf.Usage) : List (String × Option Value) :=
  let counted := fun n : ℕ => if n = 0 then none else some (Value.nat n)
  [("prompt_tokens", some (.nat u.promptTokens)),
    ("completion_tokens", some (.nat u.completionTokens)),
    ("total_tokens", some (.nat u.totalTokens)),
    ("cost_usd", u.costUsd.map fun q => .number (.float q)),
    ("cache_read_tokens", counted u.cacheReadTokens),
    ("cache_creation_tokens", counted u.cacheCreationTokens)]

/-- An event as the node writes it, under its tag. -/
def eventFields : Llmleaf.Event → List (String × Option Value)
  | .requestStarted id key model request =>
    [("event", some (.string "request_started")), ("id", some (.string id)),
      ("key", some (.string key)), ("model", some (.string model)), ("request", request)]
  | .requestRouted id provider upstreamModel =>
    [("event", some (.string "request_routed")), ("id", some (.string id)),
      ("provider", some (.string provider)), ("upstream_model", some (.string upstreamModel))]
  | .usage id key model u =>
    [("event", some (.string "usage")), ("id", some (.string id)), ("key", some (.string key)),
      ("model", some (.string model)), ("usage", some (.build (usageFields u)))]
  | .requestCompleted id finish =>
    [("event", some (.string "request_completed")), ("id", some (.string id)),
      ("finish", finish.map fun f => .string (finishText f))]
  | .requestFailed id error =>
    [("event", some (.string "request_failed")), ("id", some (.string id)),
      ("error", some (.string error))]
  | .providerHealth provider status =>
    [("event", some (.string "provider_health")), ("provider", some (.string provider)),
      ("status", some (.string status))]
/-- The body of a usage push. -/
def usageBody (events : List Envelope) : Value :=
  .build [("events", some (.array (events.map fun env =>
    .build (("ts_ms", some (.nat env.tsMs)) :: eventFields env.event))))]

/-- A usage as the control plane reads it. -/
def Usage.read (v : Value) : Option Usage := do
  let m ← v.asObject
  return {
    promptTokens := ← m.defaulted "prompt_tokens" 0 Value.asU64
    completionTokens := ← m.defaulted "completion_tokens" 0 Value.asU64
    totalTokens := ← m.defaulted "total_tokens" 0 Value.asU64
    costUsd := ← m.optional "cost_usd" Value.asF64 }

/-- The event of some fields: its tag says which. -/
def Event.read (m : Map) : Option Event := do
  match ← m.required "event" Value.asStr with
  | "request_started" =>
    return .requestStarted (← m.required "id" Value.asStr) (← m.required "key" Value.asStr)
      (← m.required "model" Value.asStr) (← m.optional "request" some)
  | "request_routed" =>
    return .requestRouted (← m.required "id" Value.asStr) (← m.required "provider" Value.asStr)
      (← m.required "upstream_model" Value.asStr)
  | "usage" =>
    return .usage (← m.required "id" Value.asStr) (← m.required "key" Value.asStr)
      (← m.required "model" Value.asStr) (← m.required "usage" Usage.read)
  | "request_completed" =>
    return .requestCompleted (← m.required "id" Value.asStr) (← m.optional "finish" Value.asStr)
  | "request_failed" =>
    return .requestFailed (← m.required "id" Value.asStr) (← m.required "error" Value.asStr)
  | "provider_health" =>
    return .providerHealth (← m.required "provider" Value.asStr) (← m.required "status" Value.asStr)
  | _ => return .unknown

/-- An envelope: the instant, and the event among the same fields. -/
def readEnvelope (v : Value) : Option (ℕ × Event) := do
  let m ← v.asObject
  return (← m.required "ts_ms" Value.asU64, ← Event.read m)

/-- The batch of a usage push; one event that cannot be read spoils it. -/
def readUsage (body : Value) : Option (List (ℕ × Event)) := do
  let m ← body.asObject
  m.defaulted "events" [] fun v => do (← v.asArray).mapM readEnvelope

/-- Store what a usage push says. -/
def Db.ingestBody (db : Db) (body : Value) : Option Db :=
  (readUsage body).map fun events =>
    { db with events := db.events ++ events.map fun e => decompose (.ofNat e.1) e.2 }

/-! ### What arrives -/

theorem read_usageFields (u : Llmleaf.Usage) : Usage.read (.build (usageFields u)) =
    some ⟨u.promptTokens, u.completionTokens, u.totalTokens, u.costUsd⟩ := by
  have hget : Map.get (.build (usageFields u)) "cost_usd" =
      u.costUsd.map fun q => .number (.float q) := by simp [usageFields]
  have hcost : Map.optional (.build (usageFields u)) "cost_usd" Value.asF64 =
      some (u.costUsd.map id) :=
    Map.optional_of_map (fun q => .number (.float q)) Value.asF64 id (fun _ => Value.noConfusion)
      (fun _ => rfl) hget
  have hcount : ∀ key n, Map.get (.build (usageFields u)) key = some (.nat n) →
      Map.defaulted (.build (usageFields u)) key 0 Value.asU64 = some n :=
    fun _ _ hn => Map.defaulted_of_get hn rfl
  rw [Option.map_id_fun, id] at hcost
  simp only [Usage.read, Value.asObject, Option.pure_def, Option.bind_eq_bind, Option.bind_some]
  rw [hcount _ u.promptTokens (by simp [usageFields]),
    hcount _ u.completionTokens (by simp [usageFields]),
    hcount _ u.totalTokens (by simp [usageFields]), hcost]
  rfl

/-- **An event arrives as an event that is stored alike.** -/
theorem read_envelope (env : Envelope) :
    ∃ e, readEnvelope (.build (("ts_ms", some (.nat env.tsMs)) :: eventFields env.event)) =
      some (env.tsMs, e) ∧ ∀ ts, decompose ts e = decompose ts (.received env.event) := by
  obtain ⟨ts, event⟩ := env
  cases event with
  | requestStarted id key model request =>
    have hrequest : ∃ r, Map.optional (Map.build (("ts_ms", some (.nat ts)) ::
        eventFields (.requestStarted id key model request))) "request" some = some r := by
      rcases hget : Map.get (Map.build (("ts_ms", some (.nat ts)) ::
        eventFields (.requestStarted id key model request))) "request" with _ | v
      · exact ⟨none, Map.optional_of_none hget⟩
      · by_cases hv : v = .null
        · rw [hv] at hget
          exact ⟨none, by rw [Map.optional, hget]⟩
        · exact ⟨some v, Map.optional_of_get hget rfl hv⟩
    obtain ⟨r, hr⟩ := hrequest
    refine ⟨.requestStarted id key model r, ?_, fun _ => rfl⟩
    simp only [eventFields] at hr
    simp [readEnvelope, Event.read, Value.asObject, Map.required, eventFields, hr]
  | requestRouted id provider upstreamModel =>
    refine ⟨.requestRouted id provider upstreamModel, ?_, fun _ => rfl⟩
    simp [readEnvelope, Event.read, Value.asObject, Map.required, eventFields]
  | usage id key model u =>
    refine ⟨.usage id key model ⟨u.promptTokens, u.completionTokens, u.totalTokens, u.costUsd⟩, ?_,
      fun _ => rfl⟩
    simp [readEnvelope, Event.read, Value.asObject, Map.required, eventFields, read_usageFields]
  | requestCompleted id finish =>
    have hget : Map.get (.build (("ts_ms", some (.nat ts)) ::
        eventFields (.requestCompleted id finish))) "finish" =
        finish.map fun f => .string (finishText f) := by simp [eventFields]
    have hfinish : Map.optional (.build (("ts_ms", some (.nat ts)) ::
        eventFields (.requestCompleted id finish))) "finish" Value.asStr =
        some (finish.map finishText) :=
      Map.optional_of_map (fun f => .string (finishText f)) Value.asStr finishText
        (fun _ => Value.noConfusion) (fun _ => rfl) hget
    refine ⟨.requestCompleted id (finish.map finishText), ?_, fun _ => rfl⟩
    simp only [eventFields] at hfinish
    simp [readEnvelope, Event.read, Value.asObject, Map.required, eventFields, hfinish]
  | requestFailed id error =>
    refine ⟨.requestFailed id error, ?_, fun _ => rfl⟩
    simp [readEnvelope, Event.read, Value.asObject, Map.required, eventFields]
  | providerHealth provider status =>
    refine ⟨.providerHealth provider status, ?_, fun _ => rfl⟩
    simp [readEnvelope, Event.read, Value.asObject, Map.required, eventFields]

/-- A model list on the wire. -/
def modelsValue (models : List String) : Value := .array (models.map .string)

/-- A key as the control plane writes it. -/
def keyFields (k : KeyDto) : List (String × Option Value) :=
  [("id", some (.string k.id)), ("pw_hash", some (.string k.pwHash)),
    ("name", k.name.map .string), ("allowed_models", k.allowedModels.map modelsValue)]

/-- The answer to an identity pull. -/
def rosterBody (db : Db) : Value :=
  .build [("keys", some (.array (db.roster.map fun k => .build (keyFields k))))]

/-- A key as the node reads it. -/
def readKey (v : Value) : Option IdentityInput := do
  let m ← v.asObject
  return {
    id := ← m.required "id" Value.asStr
    pwHash := ← m.required "pw_hash" Value.asStr
    name := ← m.optional "name" Value.asStr
    allowedModels := ← m.optional "allowed_models" asStrings }

/-- The roster of an answer. -/
def readRoster (body : Value) : Option (List IdentityInput) := do
  let m ← body.asObject
  m.defaulted "keys" [] fun v => do (← v.asArray).mapM readKey

theorem read_keyFields (k : KeyDto) : readKey (.build (keyFields k)) = some k.installed := by
  have hname : Map.get (.build (keyFields k)) "name" = k.name.map .string := by simp [keyFields]
  have hmodels : Map.get (.build (keyFields k)) "allowed_models" =
      k.allowedModels.map modelsValue := by simp [keyFields]
  have hname' := Map.optional_of_map .string Value.asStr id (fun _ => Value.noConfusion)
    (fun _ => rfl) hname
  have hmodels' := Map.optional_of_map modelsValue asStrings id (fun _ => Value.noConfusion)
    asStrings_array hmodels
  rw [Option.map_id_fun, id] at hname' hmodels'
  simp only [readKey, Value.asObject, Option.pure_def, Option.bind_eq_bind, Option.bind_some]
  have htext : ∀ key s, Map.get (.build (keyFields k)) key = some (.string s) →
      Map.required (.build (keyFields k)) key Value.asStr = some s :=
    fun _ _ hs => Map.required_of_get hs rfl
  rw [htext "id" k.id (by simp [keyFields]), htext "pw_hash" k.pwHash (by simp [keyFields]), hname',
    hmodels']
  rfl

/-- **A node reads the roster the control plane has**, every key of it. -/
theorem readRoster_rosterBody (db : Db) :
    readRoster (rosterBody db) = some (db.roster.map KeyDto.installed) := by
  have hkeys : (db.roster.map fun k => Value.build (keyFields k)).mapM readKey =
      some (db.roster.map KeyDto.installed) := by
    rw [List.mapM_map]
    exact Traverse.mapM_some fun k _ => read_keyFields k
  have hget : Map.get (.build [("keys", some (.array (db.roster.map fun k =>
      Value.build (keyFields k))))]) "keys" =
        some (.array (db.roster.map fun k => Value.build (keyFields k))) := by simp
  simp only [readRoster, rosterBody, Value.asObject, Option.bind_eq_bind, Option.bind_some]
  exact Map.defaulted_of_get hget hkeys

/-! ## The verdict pull -/

/-- A verdict as the control plane writes it. -/
def verdictFields (v : Verdict) : List (String × Option Value) :=
  [("blocked", if v.blocked then some (.bool true) else none),
    ("suspended_until", v.suspendedUntil.map .nat),
    ("allowed_models", v.allowedModels.map modelsValue)]

/-- A hash map on the wire. -/
def mapValue {α : Type} (f : α → Value) (l : List (String × α)) : Map :=
  .build (l.map fun e => (e.1, some (f e.2)))

/-- The answer to a verdict pull. -/
def verdictsBody (db : Db) : Value :=
  .build [("verdicts", some (.object (mapValue (fun v => .build (verdictFields v))
    db.verdicts.pairs)))]

/-- A verdict as the node reads it. -/
def readVerdict (v : Value) : Option Llmleaf.Verdict := do
  let m ← v.asObject
  return {
    blocked := ← m.defaulted "blocked" false Value.asBool
    suspendedUntil := ← m.optional "suspended_until" Value.asU64
    allowedModels := (← m.optional "allowed_models" asStrings).map List.toFinset }

/-- The overlay of an answer. -/
def readVerdicts (body : Value) : Option (HashMap KeyId Llmleaf.Verdict) := do
  let m ← body.asObject
  m.defaulted "verdicts" ∅ fun v => do
    let entries ← (← v.asObject).mapM fun e => (readVerdict e.2).map fun verdict => (e.1, verdict)
    return HashMap.collect entries

theorem read_verdictFields (v : Verdict) :
    readVerdict (.build (verdictFields v)) = some v.installed := by
  have hsuspended : Map.get (.build (verdictFields v)) "suspended_until" =
      v.suspendedUntil.map .nat := by simp [verdictFields]
  have hmodels : Map.get (.build (verdictFields v)) "allowed_models" =
      v.allowedModels.map modelsValue := by simp [verdictFields]
  have hsuspended' := Map.optional_of_map .nat Value.asU64 id (fun _ => Value.noConfusion)
    (fun _ => rfl) hsuspended
  have hmodels' := Map.optional_of_map modelsValue asStrings id (fun _ => Value.noConfusion)
    asStrings_array hmodels
  have hblocked : Map.defaulted (.build (verdictFields v)) "blocked" false Value.asBool =
      some v.blocked := by
    cases hv : v.blocked with
    | false => exact Map.defaulted_of_none (by simp [verdictFields, hv])
    | true => exact Map.defaulted_of_get (v := .bool true) (by simp [verdictFields, hv]) rfl
  rw [Option.map_id_fun, id] at hsuspended' hmodels'
  simp only [readVerdict, Value.asObject, Option.pure_def, Option.bind_eq_bind, Option.bind_some]
  rw [hblocked, hsuspended', hmodels']
  rfl

section

variable {α : Type} {f : α → Value} {l : List (String × α)}

theorem mem_of_get_mapValue {key : String} {v : Value} (h : (mapValue f l).get key = some v) :
    ∃ e ∈ l, e.1 = key ∧ f e.2 = v := by
  induction l with
  | nil => cases h
  | cons x l ih =>
    rw [mapValue, List.map_cons, Map.get_build_cons] at h
    rcases Option.or_eq_some_iff.mp h with h | ⟨-, h⟩
    · obtain ⟨e, he, hval⟩ := ih h
      exact ⟨e, List.mem_cons_of_mem _ he, hval⟩
    · split at h
      · rename_i hkey
        exact ⟨x, List.mem_cons_self, hkey, Option.some.inj h⟩
      · cases h

/-- A hash map on the wire has the map's entries. -/
theorem mem_mapValue (h : (l.map Prod.fst).Nodup) {key : String} {v : Value} :
    (key, v) ∈ mapValue f l ↔ ∃ a, (key, a) ∈ l ∧ f a = v := by
  have hsorted : (mapValue f l).Sorted := Map.sorted_build _
  constructor
  · intro hmem
    obtain ⟨⟨k, a⟩, he, rfl, rfl⟩ := mem_of_get_mapValue (hsorted.get_of_mem hmem)
    exact ⟨a, he, rfl⟩
  · rintro ⟨a, ha, rfl⟩
    obtain ⟨v, hv⟩ : ∃ v, (mapValue f l).get key = some v := by
      rw [← Option.isSome_iff_exists]
      clear hsorted
      induction l with
      | nil => cases ha
      | cons x l ih =>
        rw [mapValue, List.map_cons, Map.get_build_cons, Option.isSome_or]
        rcases List.mem_cons.mp ha with rfl | ha
        · simp
        · rw [Bool.or_eq_true]
          exact .inl (ih (List.nodup_cons.mp h).2 ha)
    obtain ⟨⟨k, b⟩, hb, rfl, rfl⟩ := mem_of_get_mapValue hv
    have hsame : (k, a) = (k, b) := List.inj_on_of_nodup_map h ha hb rfl
    cases hsame
    exact Map.mem_of_get hv

end

section

variable (db : Db)

/-- The verdicts of the control plane as they stand in the document. -/
def verdictEntries : Map :=
  mapValue (fun v : Verdict => Value.build (verdictFields v)) db.verdicts.pairs

/-- The verdicts as a node reads them. -/
def readEntries : List (KeyId × Llmleaf.Verdict) :=
  (verdictEntries db).map fun e => (e.1, (readVerdict e.2).getD .default)

theorem readVerdicts_eq :
    readVerdicts (verdictsBody db) = some (HashMap.collect (readEntries db)) := by
  have hfields : ∀ e ∈ verdictEntries db, (readVerdict e.2).map (fun verdict => (e.1, verdict)) =
      some (e.1, (readVerdict e.2).getD .default) := by
    rintro ⟨key, v⟩ he
    obtain ⟨a, -, rfl⟩ := (mem_mapValue (HashMap.nodup_pairs_keys db.verdicts)).mp he
    rw [read_verdictFields]
    rfl
  have hget : Map.get (.build [("verdicts", some (.object (verdictEntries db)))]) "verdicts" =
      some (.object (verdictEntries db)) := by simp
  simp only [readVerdicts, verdictsBody, Value.asObject, Option.pure_def, Option.bind_eq_bind,
    Option.bind_some]
  refine Map.defaulted_of_get hget ?_
  rw [Option.bind_some, Traverse.mapM_some hfields]
  rfl

theorem lookup_readEntries (id : KeyId) : (HashMap.collect (readEntries db)).lookup id =
    (db.verdicts.lookup id).map Verdict.installed := by
  have hnodup := HashMap.nodup_pairs_keys db.verdicts
  have hsorted : (verdictEntries db).Sorted := Map.sorted_build _
  have hkeys : ((readEntries db).map Prod.fst).Nodup := by
    rw [readEntries, List.map_map]
    exact List.pairwise_map.mpr (hsorted.imp ne_of_lt)
  refine Option.ext fun verdict => ?_
  rw [HashMap.lookup_collect_nodup hkeys, Option.map_eq_some_iff, readEntries, List.mem_map]
  constructor
  · rintro ⟨⟨key, v⟩, he, heq⟩
    obtain ⟨rfl, rfl⟩ := Prod.mk.inj heq
    obtain ⟨a, ha, rfl⟩ := (mem_mapValue hnodup).mp he
    refine ⟨a, HashMap.mem_pairs.mp ha, ?_⟩
    rw [read_verdictFields]
    rfl
  · rintro ⟨a, ha, rfl⟩
    refine ⟨(id, .build (verdictFields a)), (mem_mapValue hnodup).mpr
      ⟨a, HashMap.mem_pairs.mpr ha, rfl⟩, ?_⟩
    rw [read_verdictFields]
    rfl

end

end Web

end Llmleaf
