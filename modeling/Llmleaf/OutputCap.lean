import Llmleaf.Compat.Anthropic.Request
import Llmleaf.Compat.Responses.Request
import Llmleaf.Providers.ChatThrough
import Llmleaf.Realtime.Session

/-!
# Output caps

Every surface takes a limit on the tokens of the answer. The parsers read it as an unsigned integer
and cut it to 32 bits; what is no such integer is refused on one surface and forgotten on the others.

- `Surface.Reads`: the request that a surface makes of a body.
- `Surface.Honest`: the limit is the request's, or it is left in the body for the upstream.
- **Result** (`cap_honest_iff`): a limit is honest exactly if it is an integer of 32 bits, or another
  field or the session says the same.
-/

namespace Llmleaf

/-- What a number denotes. -/
def Number.value : Number → ℚ
  | .posInt n => n
  | .negInt n => n
  | .float q => q

/-- An unsigned integer of 32 bits. -/
def Number.Short (num : Number) : Prop := ∃ n, num = .posInt n ∧ n < 2 ^ 32

namespace OutputCap

open Value

/-- The surfaces that take a limit; a realtime turn is asked for within a session. -/
inductive Surface where
  | chat
  | messages
  | responses
  | realtime (session : Realtime.BridgeSession)

namespace Surface

/-- The names of the limit. -/
def names : Surface → List String
  | .chat => ["max_completion_tokens", "max_tokens"]
  | .messages => ["max_tokens"]
  | .responses | .realtime _ => ["max_output_tokens"]

/-- The fields among which the limit stands: those of the body, or of the response that a realtime
event asks for. -/
def fields : Surface → Value → Option Map
  | .realtime _, event =>
    match event.get "response" with
    | some (.object fields) => some fields
    | _ => none
  | _, .object fields => some fields
  | _, _ => none

section

-- the debug form of a text, and the compact text of a document
variable (debug : String → String) (toStr : Value → String)

/-- What a surface makes of a body it accepts. -/
def Reads : Surface → Value → ChatRequest → Prop
  | .chat, body, req => Openai.parseChatRequest debug body = .ok req
  | .messages, body, req => Anthropic.parseMessagesRequest debug toStr body = .ok req
  | .responses, body, req => Responses.parseResponsesRequest debug body = .ok req
  | .realtime session, event, req => ∃ override, Realtime.parseClientEvent event = .create override ∧
      req = session.buildChatRequest override

end

/-- The field is left for the upstream; what a realtime event says beside the modelled fields is
not. -/
def Leaves : Surface → ChatRequest → String → Number → Prop
  | .realtime _, _, _, _ => False
  | _, req, name, num => Map.get req.extra name = some (.number num)

/-- **A limit that is what the consumer gave**, or is left for the upstream. -/
def Honest (surface : Surface) (req : ChatRequest) (name : String) (num : Number) : Prop :=
  (∃ n : ℕ, req.maxTokens = some n ∧ num.value = n) ∨ surface.Leaves req name num

/-- A limit that comes through: an integer of 32 bits; the second name beside the first, which is
left in the body; and in a realtime turn what cannot be read, if the session has the same limit. -/
def Carries : Surface → Map → String → Number → Prop
  | .chat, fields, name, num =>
    num.Short ∨ (name = "max_tokens" ∧ (Map.get fields "max_completion_tokens").isSome)
  | .messages, _, _, num | .responses, _, _, num => num.Short
  | .realtime session, _, _, num =>
    num.Short ∨ ((number num).asU64 = none ∧ ∃ n : ℕ, session.maxTokens = some n ∧ num.value = n)

end Surface

/-! ## Reading a limit -/

/-- **What is read is what was given exactly if it has 32 bits.** -/
theorem read_iff (num : Number) :
    (∃ n : ℕ, (number num).asU64.map (· % 2 ^ 32) = some n ∧ num.value = n) ↔ num.Short := by
  cases num with
  | posInt n =>
    have hread : (number (.posInt n)).asU64.map (· % 2 ^ 32) = some (n % 2 ^ 32) := rfl
    have hshort : Number.Short (.posInt n) ↔ n < 2 ^ 32 := by
      constructor
      · rintro ⟨m, hm, hlt⟩
        cases hm
        exact hlt
      · exact fun h => ⟨n, rfl, h⟩
    rw [hread, hshort]
    constructor
    · rintro ⟨m, hm, hvalue⟩
      cases hm
      have heq : (n : ℚ) = (n % 2 ^ 32 : ℕ) := hvalue
      rw [Nat.cast_inj] at heq
      omega
    · intro h
      exact ⟨n, by rw [Nat.mod_eq_of_lt h], rfl⟩
  | negInt n =>
    constructor
    · rintro ⟨m, hm, -⟩
      cases hm
    · rintro ⟨m, hm, -⟩
      cases hm
  | float q =>
    constructor
    · rintro ⟨m, hm, -⟩
      cases hm
    · rintro ⟨m, hm, -⟩
      cases hm

section

variable {debug : String → String} {toStr : Value → String} {body : Value} {req : ChatRequest}
variable {fields : Map} {name : String} {num : Number}

/-- A limit that is taken out of the body and read is honest exactly if it has 32 bits. -/
theorem surface_honest_iff {surface : Surface}
    (hmax : req.maxTokens = (number num).asU64.map (· % 2 ^ 32))
    (hleaves : ¬ surface.Leaves req name num) : surface.Honest req name num ↔ num.Short := by
  unfold Surface.Honest
  rw [or_iff_left hleaves, hmax, read_iff]

theorem fields_object {surface : Surface} (hsurface : ∀ session, surface ≠ .realtime session)
    (h : surface.fields body = some fields) : body = object fields := by
  unfold Surface.fields at h
  split at h
  · rename_i session
    exact absurd rfl (hsurface session)
  · exact congrArg _ (Option.some.inj h)
  · cases h

/-- The first name on the chat surface hides the second, which is left. -/
theorem chat_honest_iff (h : Openai.parseChatRequest debug (object fields) = .ok req)
    (hname : name ∈ Surface.names .chat) (hgiven : Map.get fields name = some (number num)) :
    Surface.Honest .chat req name num ↔ Surface.Carries .chat fields name num := by
  have hr := ChatThrough.reads_of_parse h
  have hmax := hr.maxTokens
  have hextra := hr.extra name
  rw [get_object, get_object] at hmax
  rw [get_object] at hextra
  simp only [Surface.names, List.mem_cons, List.not_mem_nil, or_false] at hname
  rcases hname with rfl | rfl
  · rw [hgiven, Option.some_or, Option.bind_some] at hmax
    rw [surface_honest_iff hmax]
    · simp [Surface.Carries]
    · rw [if_pos (by simp [Openai.modeled])] at hextra
      simp [Surface.Leaves, hextra]
  · cases hfirst : Map.get fields "max_completion_tokens" with
    | none =>
      rw [hfirst, Option.none_or, hgiven, Option.bind_some] at hmax
      rw [surface_honest_iff hmax]
      · simp [Surface.Carries, hfirst]
      · rw [if_pos (by simp [Openai.modeled, hfirst])] at hextra
        simp [Surface.Leaves, hextra]
    | some v =>
      -- the second name is not taken out
      rw [if_neg (by simp [Openai.modeled, hfirst]), hgiven] at hextra
      exact iff_of_true (.inr hextra) (.inr ⟨rfl, by rw [hfirst]; rfl⟩)

/-- The Messages surface refuses what is no unsigned integer. -/
theorem messages_reads (h : Anthropic.parseMessagesRequest debug toStr (object fields) = .ok req) :
    ∃ v n, Map.get fields "max_tokens" = some v ∧ v.asU64 = some n ∧
      req.maxTokens = some (n % 2 ^ 32) ∧ Map.get req.extra "max_tokens" = none := by
  unfold Anthropic.parseMessagesRequest at h
  dsimp only at h
  split at h
  · split at h
    · rename_i v hv
      split at h
      · rename_i n hn
        split at h
        · obtain ⟨messages, -, h⟩ := Traverse.bind_ok h
          obtain ⟨tools, -, h⟩ := Traverse.bind_ok h
          cases h
          refine ⟨v, n, hv, hn, rfl, ?_⟩
          rw [Map.get_without, if_pos (by simp [Anthropic.modeled])]
        · cases h
      · cases h
    · cases h
  · cases h

theorem responses_reads (h : Responses.parseResponsesRequest debug (object fields) = .ok req) :
    req.maxTokens = ((Map.get fields "max_output_tokens").bind asU64).map (· % 2 ^ 32) ∧
      Map.get req.extra "max_output_tokens" = none := by
  unfold Responses.parseResponsesRequest at h
  dsimp only at h
  split at h
  · split at h
    · cases h
    · split at h
      · cases h
      · obtain ⟨messages, -, h⟩ := Traverse.bind_ok h
        obtain ⟨tools, -, h⟩ := Traverse.bind_ok h
        obtain ⟨choice, -, h⟩ := Traverse.bind_ok h
        split at h
        · cases h
        · cases h
          refine ⟨rfl, ?_⟩
          rw [Map.get_without, if_pos (by simp [Responses.modeled])]
  · cases h

/-! ## A realtime turn -/

theorem overrideField_maxOutputTokens (override : Realtime.ResponseOverride) (e : String × Value) :
    (Realtime.overrideField override e).maxOutputTokens =
      if e.1 = "max_output_tokens" then Realtime.parseMaxOut e.2 else override.maxOutputTokens := by
  unfold Realtime.overrideField
  split <;> simp_all

/-- The limit of a turn is read from its field. -/
theorem foldl_maxOutputTokens (hsorted : fields.Sorted) (override : Realtime.ResponseOverride) :
    (fields.foldl Realtime.overrideField override).maxOutputTokens =
      match Map.get fields "max_output_tokens" with
      | some v => Realtime.parseMaxOut v
      | none => override.maxOutputTokens := by
  induction fields generalizing override with
  | nil => rfl
  | cons e fields ih =>
    obtain ⟨hhead, htail⟩ := List.pairwise_cons.mp hsorted
    rw [List.foldl_cons, ih htail, overrideField_maxOutputTokens, Map.get_cons]
    by_cases he : e.1 = "max_output_tokens"
    · -- no later field has the name again
      have hnone : Map.get fields "max_output_tokens" = none := by
        cases hget : Map.get fields "max_output_tokens" with
        | none => rfl
        | some v =>
          have hlt := hhead _ (Map.mem_of_get hget)
          rw [he] at hlt
          exact absurd hlt (String.lt_irrefl _)
      rw [hnone, if_pos he, if_pos he]
    · rw [if_neg he, if_neg he]

/-- A turn is asked for by a `response.create`. -/
theorem create_inv {event : Value} {override : Realtime.ResponseOverride}
    (h : Realtime.parseClientEvent event = .create override) :
    override = Realtime.parseResponseOverride ((event.get "response").getD .null) := by
  unfold Realtime.parseClientEvent at h
  split at h
  · cases h
  · cases h
  · unfold Realtime.parseItemCreate at h
    repeat (split at h <;> try cases h)
  · cases h
    rfl
  · cases h
  · split at h <;> cases h
  all_goals cases h

theorem realtime_honest_iff {session : Realtime.BridgeSession}
    (hreads : Surface.Reads debug toStr (.realtime session) body req)
    (hfields : Surface.fields (.realtime session) body = some fields) (hsorted : fields.Sorted)
    (hgiven : Map.get fields "max_output_tokens" = some (number num)) :
    Surface.Honest (.realtime session) req name num ↔
      Surface.Carries (.realtime session) fields name num := by
  obtain ⟨override, hcreate, rfl⟩ := hreads
  have hresponse : body.get "response" = some (object fields) := by
    unfold Surface.fields at hfields
    dsimp only at hfields
    split at hfields
    · rename_i found hfound
      cases hfields
      exact hfound
    · cases hfields
  have hmax : override.maxOutputTokens = Realtime.parseMaxOut (number num) := by
    rw [create_inv hcreate, hresponse, Option.getD_some]
    exact (foldl_maxOutputTokens hsorted .default).trans (by rw [hgiven])
  have hbuilt : (session.buildChatRequest override).maxTokens =
      ((number num).asU64.map (· % 2 ^ 32)).or
        (if (number num).asU64 = none then session.maxTokens else none) := by
    have hinf : (number num).asStr ≠ some "inf" := by
      intro h
      cases h
    rw [Realtime.BridgeSession.buildChatRequest, hmax, Realtime.parseMaxOut, if_neg hinf]
    cases (number num).asU64 <;> rfl
  unfold Surface.Honest
  rw [or_iff_left (by exact id), hbuilt]
  show _ ↔ num.Short ∨
    ((number num).asU64 = none ∧ ∃ n : ℕ, session.maxTokens = some n ∧ num.value = n)
  cases hread : (number num).asU64 with
  | some n =>
    rw [← read_iff, hread]
    simp
  | none =>
    have hshort : ¬ num.Short := by
      rintro ⟨n, rfl, -⟩
      cases hread
    simp [hshort]

/-- **A limit comes through**, or is left for the upstream, exactly in these cases. -/
theorem cap_honest_iff {surface : Surface} (hreads : surface.Reads debug toStr body req)
    (hfields : surface.fields body = some fields) (hsorted : fields.Sorted)
    (hname : name ∈ surface.names) (hgiven : Map.get fields name = some (number num)) :
    surface.Honest req name num ↔ surface.Carries fields name num := by
  cases surface with
  | chat =>
    rw [fields_object (by simp) hfields] at hreads
    exact chat_honest_iff hreads hname hgiven
  | messages =>
    rw [fields_object (by simp) hfields] at hreads
    obtain ⟨v, n, hv, hn, hmax, hextra⟩ := messages_reads hreads
    cases List.mem_singleton.mp hname
    rw [hgiven] at hv
    cases hv
    refine surface_honest_iff (by rw [hmax, hn]; rfl) ?_
    simp [Surface.Leaves, hextra]
  | responses =>
    rw [fields_object (by simp) hfields] at hreads
    obtain ⟨hmax, hextra⟩ := responses_reads hreads
    cases List.mem_singleton.mp hname
    rw [hgiven, Option.bind_some] at hmax
    refine surface_honest_iff hmax ?_
    simp [Surface.Leaves, hextra]
  | realtime session =>
    cases List.mem_singleton.mp hname
    exact realtime_honest_iff hreads hfields hsorted hgiven

end

/-- A question with a limit. -/
def limited (n : ℕ) : Map :=
  [("max_completion_tokens", nat n), ("messages", array []), ("model", string "gpt-4o")]

theorem cap_honest_iff_limited : ∃ req,
    Surface.Reads id (fun _ => "") .chat (object (limited 64)) req ∧
      (Surface.Honest .chat req "max_completion_tokens" (.posInt 64) ↔
        Surface.Carries .chat (limited 64) "max_completion_tokens" (.posInt 64)) := by
  obtain ⟨req, h⟩ : ∃ req, Openai.parseChatRequest id (object (limited 64)) = .ok req := ⟨_, rfl⟩
  have hreads : Surface.Reads id (fun _ => "") .chat (object (limited 64)) req := h
  exact ⟨req, hreads, cap_honest_iff hreads rfl (by decide +kernel) (by decide) rfl⟩

/-- A limit just beyond 32 bits becomes a limit of one token. -/
theorem limit_wraps : ∃ req,
    Surface.Reads id (fun _ => "") .chat (object (limited (2 ^ 32 + 1))) req ∧
      req.maxTokens = some 1 ∧
      ¬ Surface.Honest .chat req "max_completion_tokens" (.posInt (2 ^ 32 + 1)) := by
  obtain ⟨req, h⟩ : ∃ req, Openai.parseChatRequest id (object (limited (2 ^ 32 + 1))) = .ok req :=
    ⟨_, rfl⟩
  have hr := ChatThrough.reads_of_parse h
  have hmax : req.maxTokens = some 1 := hr.maxTokens.trans (by decide +kernel)
  have hextra : Map.get req.extra "max_completion_tokens" = none := by
    rw [hr.extra, if_pos (by simp [Openai.modeled])]
  refine ⟨req, h, hmax, ?_⟩
  rintro (⟨n, hn, hvalue⟩ | hleaves)
  · rw [hmax] at hn
    cases hn
    norm_num [Number.value] at hvalue
  · have hleaves : Map.get req.extra "max_completion_tokens" = _ := hleaves
    rw [hextra] at hleaves
    cases hleaves

end OutputCap

end Llmleaf
