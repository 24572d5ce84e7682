import Llmleaf.Providers.Moonshot
import Llmleaf.Providers.OpenAiCompat

/-!
# The OpenAI-wire providers

The providers around the OpenAI-compatible implementation, and which of the two chat surfaces of an
upstream they use for a request that only Responses can serve.

A request that needs the state of Responses is not to go to chat completions. Two paths do not ask:
the setting for requests with audio, which is read first, and a batch, whose lines are always
chat-completions bodies.

- `OpenaiProvider`: the providers, with what each does before it hands a request on.
- `chat_of_requires`, `batchCreate_calls`: what becomes of such a request.
- **Result** (`responses_only_iff`): exactly when it stays on Responses or is refused.
-/

namespace Llmleaf

open Value

namespace Baidu

/-- Two rungs of effort, in a field of the upstream's own. -/
def normalizeReasoning (req : ChatRequest) : ChatRequest :=
  match req.thinking with
  | none => req
  | some thinking =>
    let effort := match thinking with
      | .low | .med | .high => "high"
      | .highx | .max => "max"
    { req with thinking := none, extra := req.extra.set "reasoning_effort" (string effort) }

/-- The submission that is handed on, within the limits of the upstream. -/
def batchCreate (spec : BatchSpec) : Except ModelError BatchSpec :=
  if 5000 < spec.items.length then
    .error (.mapping "Baidu Qianfan batches accept at most 5000 requests")
  else if spec.items.any fun item => item.request.model ≠ OpenAiCompat.jobModel spec.items then
    .error (.mapping "Baidu Qianfan requires every request in a batch to use the same model")
  else
    .ok ⟨spec.items.map fun item => { item with request := normalizeReasoning item.request }⟩

end Baidu

namespace Node

/-- An upstream node that lacks a capability says so in the text of its error. -/
def reclassify (fromStr : String → Option Value) (err : ModelError) : ModelError :=
  match err with
  | .upstream 502 message =>
    let reason := ((fromStr message).bind (·.textAt ["error", "message"])).bind
      (Strings.stripPrefix · "unsupported: ")
    match reason with
    | some reason => .unsupported reason
    | none => err
  | _ => err

/-- A job of a node, with the counts that only nodes report. -/
def batchHandle (value : Value) : BatchHandle :=
  let handle := batchValueToHandle value
  match value.get "request_counts" with
  | none => handle
  | some rc =>
    { handle with counts := { handle.counts with
        processing := (rc.natAt ["processing"]).getD handle.counts.processing
        canceled := (rc.natAt ["canceled"]).getD handle.counts.canceled
        expired := (rc.natAt ["expired"]).getD handle.counts.expired } }

/-- An item in a submission. -/
def batchRequest (item : BatchItem) : Value :=
  obj [("custom_id", string item.customId),
    ("body", OpenaiWire.requestToOpenai item.request "max_completion_tokens" false)]

/-- The items go inline, as chat-completions bodies. -/
def batchCreate {α : Type} (fromStr : String → Option Value) (cx : ProviderCx) (spec : BatchSpec)
    (up : Answers α) : Exchange BatchHandle :=
  let job := UpstreamCall.batch (cx.endpointOr Brand.llmleaf.defaultEndpoint ++ "/batches")
    (obj [("requests", array (spec.items.map batchRequest))])
  ⟨[job], ((up.json job).mapError (reclassify fromStr)).map batchHandle⟩

end Node

/-- A provider of the family. -/
inductive OpenaiProvider where
  | compat (brand : Brand)
  | baidu
  | moonshot (brand : Brand)
  | llmleaf

namespace OpenaiProvider

open OpenaiWire OpenAiCompat

/-- The brand of the implementation inside. -/
def brand : OpenaiProvider → Brand
  | compat brand | moonshot brand => brand
  | baidu => .baidu
  | llmleaf => .llmleaf

/-- The request that is handed to the implementation inside. -/
def prepare (self : OpenaiProvider) (req : ChatRequest) : ChatRequest :=
  match self with
  | compat _ | llmleaf => req
  | baidu => Baidu.normalizeReasoning req
  | moonshot _ => Moonshot.chat req

section

variable {α : Type} (fromStr : String → Option Value) (cx : ProviderCx)

def chat (self : OpenaiProvider) (req : ChatRequest) (up : Answers α) : Exchange α :=
  let out := OpenAiCompat.chat self.brand cx (self.prepare req) up
  match self with
  | llmleaf => ⟨out.calls, out.result.mapError (Node.reclassify fromStr)⟩
  | _ => out

def batchCreate (self : OpenaiProvider) (spec : BatchSpec) (up : Answers α) :
    Exchange BatchHandle :=
  match self with
  | compat brand => OpenAiCompat.batchCreate brand cx spec up
  | baidu =>
    match Baidu.batchCreate spec with
    | .error e => .refuse e
    | .ok spec => OpenAiCompat.batchCreate .baidu cx spec up
  | moonshot brand => OpenAiCompat.batchCreate brand cx (Moonshot.batchCreate spec) up
  | llmleaf => Node.batchCreate fromStr cx spec up

end

/-! ## Where a request stays -/

/-- Refused before any call, as something the provider cannot do. -/
def Refused {α : Type} (out : Exchange α) : Prop :=
  out.calls = [] ∧ ∃ message, out.result = .error (.unsupported message)

/-- The one call goes to the Responses surface, or the request is refused. -/
def Kept {α : Type} (out : Exchange α) : Prop :=
  (∃ url body, out.calls = [.responses url body]) ∨ Refused out

/-- The setting for requests with audio sends the request to chat completions. -/
structure Overridden (brand : Brand) (cx : ProviderCx) (req : ChatRequest) : Prop where
  audio : req.hasInputAudio = true
  setting : settingApi cx "chat_with_audio_input_api" = some .completions
  enabled : audioInputEnabled brand cx = true
  replayable : req.parts.any unreplayable = false

/-- The batch has audio and the upstream takes none. -/
def Unheard (brand : Brand) (cx : ProviderCx) (spec : BatchSpec) : Prop :=
  (∃ item ∈ spec.items, item.request.hasInputAudio = true) ∧ audioInputEnabled brand cx = false

/-- The batches that a provider refuses as unsupported. -/
def RefusesBatch (self : OpenaiProvider) (cx : ProviderCx) (spec : BatchSpec) : Prop :=
  match self with
  | compat brand | moonshot brand => brand.batchFlavor = .unsupported ∨ Unheard brand cx spec
  | baidu => spec.items.length ≤ 5000 ∧
      (∀ item ∈ spec.items, item.request.model = jobModel spec.items) ∧ Unheard .baidu cx spec
  | llmleaf => False

variable {α : Type} {cx : ProviderCx} {req : ChatRequest}

/-! ### Chat -/

/-- **The surface of a request that needs Responses.** It is sent there once, without a retry, or
refused; unless the setting for audio overrides this. -/
theorem chat_of_requires (brand : Brand) (h : requiresResponses req = true) (up : Answers α) :
    (Overridden brand cx req →
      OpenAiCompat.chat brand cx req up = chatCompletions brand cx req up) ∧
    (¬ Overridden brand cx req →
      (∃ message, OpenAiCompat.chat brand cx req up = .refuse (.unsupported message)) ∨
      OpenAiCompat.chat brand cx req up = chatResponses brand cx req up) := by
  constructor
  · rintro ⟨haudio, hsetting, henabled, hreplay⟩
    have hapi : effectiveChatApi brand cx req = .completions := by
      simp only [effectiveChatApi, haudio, hsetting, ↓reduceIte]
    simp only [OpenAiCompat.chat, hreplay, haudio, henabled, hapi, Bool.false_eq_true,
      ↓reduceIte, Bool.not_true, Bool.and_false, reduceCtorEq, false_and]
  · intro hover
    unfold OpenAiCompat.chat
    split
    · exact .inl ⟨_, rfl⟩
    · rename_i hreplay
      split
      · exact .inl ⟨_, rfl⟩
      · rename_i henabled
        have hapi : effectiveChatApi brand cx req = .responses := by
          unfold effectiveChatApi
          split
          · rename_i api hsome
            split at hsome
            · rename_i haudio
              cases api with
              | responses => rfl
              | completions =>
                refine absurd ⟨haudio, hsome, ?_, by simpa using hreplay⟩ hover
                simpa [haudio] using henabled
            · cases hsome
          · rw [if_pos h]
        simp only [hapi, h, true_and, Bool.not_true, Bool.and_false, Bool.false_eq_true,
          ↓reduceIte]
        split
        · exact .inl ⟨_, rfl⟩
        · exact .inr rfl

/-- The fields that decide it. -/
def stateKeys : List String := ["previous_response_id", "context_management", "store"]

theorem requiresResponses_congr {a b : ChatRequest} (hparts : a.parts = b.parts)
    (hget : ∀ key ∈ stateKeys, a.extra.get key = b.extra.get key) :
    requiresResponses a = requiresResponses b := by
  unfold requiresResponses
  rw [hparts, hget _ (by decide), hget "context_management" (by decide),
    hget "store" (by decide)]

/-- What a provider does before it hands a request on changes neither its parts nor the fields that
decide where it goes. -/
theorem prepare_keeps (p : OpenaiProvider) (req : ChatRequest) :
    (p.prepare req).parts = req.parts ∧
      ∀ key ∈ stateKeys, (p.prepare req).extra.get key = req.extra.get key := by
  have hset : ∀ (extra : Map) (key : String) (value : Value), key ∉ stateKeys →
      ∀ name ∈ stateKeys, (extra.set key value).get name = extra.get name := by
    intro extra key value hkey name hname
    rw [Map.get_set, if_neg]
    rintro rfl
    exact hkey hname
  cases p with
  | compat _ | llmleaf => exact ⟨rfl, fun _ _ => rfl⟩
  | baidu =>
    simp only [prepare, Baidu.normalizeReasoning]
    split
    · exact ⟨rfl, fun _ _ => rfl⟩
    · exact ⟨rfl, hset _ _ _ (by decide)⟩
  | moonshot _ =>
    refine ⟨rfl, ?_⟩
    simp only [prepare, Moonshot.chat]
    split
    · exact hset _ _ _ (by decide)
    · exact fun _ _ => rfl

theorem requiresResponses_prepare (p : OpenaiProvider) (h : requiresResponses req = true) :
    requiresResponses (p.prepare req) = true := by
  rwa [requiresResponses_congr (p.prepare_keeps req).1 (p.prepare_keeps req).2]

theorem hasInputAudio_prepare (p : OpenaiProvider) (req : ChatRequest) :
    (p.prepare req).hasInputAudio = req.hasInputAudio := by
  rw [ChatRequest.hasInputAudio, (p.prepare_keeps req).1, ChatRequest.hasInputAudio]

theorem hasInputAudio_normalize (req : ChatRequest) :
    (Baidu.normalizeReasoning req).hasInputAudio = req.hasInputAudio :=
  hasInputAudio_prepare .baidu req

theorem overridden_prepare (p : OpenaiProvider) (brand : Brand) :
    Overridden brand cx (p.prepare req) ↔ Overridden brand cx req := by
  have haudio := p.hasInputAudio_prepare req
  have hparts := (p.prepare_keeps req).1
  exact ⟨fun h => ⟨haudio ▸ h.audio, h.setting, h.enabled, hparts ▸ h.replayable⟩,
    fun h => ⟨haudio.symm ▸ h.audio, h.setting, h.enabled, hparts.symm ▸ h.replayable⟩⟩

theorem kept_chatResponses (brand : Brand) (req : ChatRequest) (up : Answers α) :
    Kept (chatResponses brand cx req up) := .inl ⟨_, _, rfl⟩

theorem kept_refuse (message : String) :
    Kept (.refuse (.unsupported message) : Exchange α) := .inr ⟨rfl, _, rfl⟩

theorem not_kept_chatCompletions (brand : Brand) (req : ChatRequest) (up : Answers α) :
    ¬ Kept (chatCompletions brand cx req up) := by
  rintro (⟨url, body, h⟩ | ⟨h, -⟩)
  · cases h
  · cases h

/-- An error of a node is read after the call, so a refusal stays one. -/
theorem kept_reclassify {out : Exchange α} (fromStr : String → Option Value) (h : Kept out) :
    Kept (⟨out.calls, out.result.mapError (Node.reclassify fromStr)⟩ : Exchange α) := by
  rcases h with h | ⟨hcalls, message, hresult⟩
  · exact .inl h
  · exact .inr ⟨hcalls, message, by rw [hresult]; rfl⟩

/-- A chat stays on Responses or is refused, unless the setting for audio overrides this. -/
theorem chat_kept_iff (p : OpenaiProvider) (fromStr : String → Option Value)
    (h : requiresResponses req = true) (up : Answers α) :
    Kept (p.chat fromStr cx req up) ↔ ¬ Overridden p.brand cx req := by
  rw [← p.overridden_prepare p.brand]
  have hcases := @chat_of_requires α cx _ p.brand (p.requiresResponses_prepare h) up
  by_cases hover : Overridden p.brand cx (p.prepare req)
  · refine iff_of_false (fun hkept => ?_) (not_not_intro hover)
    have hcompletions := hcases.1 hover
    have hcalls : (p.chat fromStr cx req up).calls =
        (chatCompletions p.brand cx (p.prepare req) up).calls := by
      rw [← hcompletions]
      cases p with
      | _ => rfl
    rcases hkept with ⟨url, body, hk⟩ | ⟨hk, -⟩
    · rw [hcalls] at hk
      cases hk
    · rw [hcalls] at hk
      cases hk
  · refine iff_of_true ?_ hover
    have hinner : Kept (OpenAiCompat.chat p.brand cx (p.prepare req) up) := by
      rcases hcases.2 hover with ⟨message, hm⟩ | hm
      · rw [hm]
        exact kept_refuse message
      · rw [hm]
        exact kept_chatResponses p.brand _ up
    cases p with
    | llmleaf => exact kept_reclassify fromStr hinner
    | _ => exact hinner

/-! ### Batches -/

/-- A batch is refused as unsupported, or its file is uploaded. -/
theorem batchCreate_refused_iff (brand : Brand) (spec : BatchSpec) (up : Answers α) :
    Refused (OpenAiCompat.batchCreate brand cx spec up) ↔
      brand.batchFlavor = .unsupported ∨ Unheard brand cx spec := by
  unfold OpenAiCompat.batchCreate Brand.ensureBatch
  by_cases hflavor : brand.batchFlavor = .unsupported
  · rw [if_pos hflavor]
    exact iff_of_true ⟨rfl, _, rfl⟩ (.inl hflavor)
  · rw [if_neg hflavor]
    dsimp only
    split
    · rename_i hheard
      rw [Bool.and_eq_true, List.any_eq_true, Bool.not_eq_true'] at hheard
      exact iff_of_true ⟨rfl, _, rfl⟩ (.inr hheard)
    · rename_i hheard
      rw [Bool.and_eq_true, List.any_eq_true, Bool.not_eq_true'] at hheard
      refine iff_of_false (fun href => ?_) (not_or.mpr ⟨hflavor, hheard⟩)
      have hcalls := href.1
      split at hcalls
      · cases hcalls
      · split at hcalls
        · cases hcalls
        · cases hcalls

/-- Rewriting the requests of a batch keeps who is heard. -/
theorem unheard_map (brand : Brand) (spec : BatchSpec) {f : ChatRequest → ChatRequest}
    (hf : ∀ req, (f req).hasInputAudio = req.hasInputAudio) :
    Unheard brand cx ⟨spec.items.map fun item => { item with request := f item.request }⟩ ↔
      Unheard brand cx spec := by
  simp only [Unheard, List.mem_map, exists_exists_and_eq_and, hf]

theorem refused_iff (p : OpenaiProvider) (fromStr : String → Option Value) (spec : BatchSpec)
    (up : Answers α) : Refused (p.batchCreate fromStr cx spec up) ↔ p.RefusesBatch cx spec := by
  cases p with
  | compat brand => exact batchCreate_refused_iff brand spec up
  | moonshot brand =>
    rw [batchCreate, batchCreate_refused_iff, Moonshot.batchCreate,
      unheard_map brand spec (f := fun req => { req with tools := Moonshot.flavorTools req.tools })
        fun _ => rfl]
    rfl
  | llmleaf => exact iff_of_false (fun h => by cases h.1) id
  | baidu =>
    unfold batchCreate RefusesBatch Baidu.batchCreate
    by_cases hlen : 5000 < spec.items.length
    · rw [if_pos hlen]
      refine iff_of_false (fun h => ?_) (fun h => absurd h.1 (by omega))
      obtain ⟨-, message, hm⟩ := h
      cases hm
    · rw [if_neg hlen]
      by_cases hmixed : ∀ item ∈ spec.items, item.request.model = jobModel spec.items
      · have hany : ¬ (spec.items.any fun item =>
            item.request.model ≠ jobModel spec.items) = true := by
          rw [List.any_eq_true]
          rintro ⟨item, hitem, hne⟩
          exact of_decide_eq_true hne (hmixed item hitem)
        rw [if_neg hany]
        dsimp only
        rw [batchCreate_refused_iff, unheard_map .baidu spec hasInputAudio_normalize,
          or_iff_right (by decide), and_iff_right (by omega), and_iff_right hmixed]
      · have hany : (spec.items.any fun item =>
            item.request.model ≠ jobModel spec.items) = true := by
          rw [List.any_eq_true]
          simpa using hmixed
        rw [if_pos hany]
        refine iff_of_false (fun h => ?_) (fun h => hmixed h.2.1)
        obtain ⟨-, message, hm⟩ := h
        cases hm

/-- **Which requests stay on Responses.** A request that needs it goes there or is refused exactly
if the setting for audio does not send it to chat completions; a batch with such a request is
refused exactly if the provider takes no batches or no audio that the batch has. -/
theorem responses_only_iff (p : OpenaiProvider) (fromStr : String → Option Value)
    (h : requiresResponses req = true) :
    (∀ up : Answers α, Kept (p.chat fromStr cx req up) ↔ ¬ Overridden p.brand cx req) ∧
    ∀ (spec : BatchSpec) (up : Answers α), (∃ item ∈ spec.items, item.request = req) →
      (Refused (p.batchCreate fromStr cx spec up) ↔ p.RefusesBatch cx spec) :=
  ⟨p.chat_kept_iff fromStr h, fun spec up _ => p.refused_iff fromStr spec up⟩

/-- A turn with audio that goes on from a stored one. -/
def spokenTurn : ChatRequest where
  model := "gpt-audio"
  messages := [⟨.user, [.inputAudio "UklGRg" "wav"], [], none, none⟩]
  maxTokens := none
  temperature := none
  topP := none
  stop := []
  stream := true
  tools := []
  toolChoice := none
  thinking := none
  extra := [("previous_response_id", string "resp_1")]

/-- An instance whose requests with audio go to chat completions. -/
def audioCx : ProviderCx :=
  ⟨"", none, none, [("chat_with_audio_input_api", string "chat_completions")]⟩

theorem responses_only_iff_spoken :
    requiresResponses spokenTurn = true ∧
      (∀ up : Answers Unit, Kept ((compat .openai).chat (fun _ => none) audioCx spokenTurn up) ↔
        ¬ Overridden .openai audioCx spokenTurn) ∧
      ∀ (spec : BatchSpec) (up : Answers Unit), (∃ item ∈ spec.items, item.request = spokenTurn) →
        (Refused ((compat .openai).batchCreate (fun _ => none) audioCx spec up) ↔
          (compat .openai).RefusesBatch audioCx spec) :=
  have hrequires : requiresResponses spokenTurn = true := by decide
  ⟨hrequires, responses_only_iff (compat .openai) (fun _ => none) hrequires⟩

/-- The stored turn is lost on chat completions: with the setting for audio, and in a batch. -/
theorem spoken_turn_downgraded :
    requiresResponses spokenTurn = true ∧
      (∀ up : Answers Unit,
        ((compat .openai).chat (fun _ => none) audioCx spokenTurn up).calls =
          [.chatCompletions "https://api.openai.com/v1/chat/completions"
            (requestToOpenai spokenTurn "max_completion_tokens" true)]) ∧
      (∀ up : Answers Unit,
        ¬ Kept ((compat .openai).chat (fun _ => none) audioCx spokenTurn up)) ∧
      ∀ up : Answers Unit,
        ¬ Refused ((compat .openai).batchCreate (fun _ => none) audioCx
          ⟨[⟨"a", spokenTurn⟩]⟩ up) := by
  have hover : Overridden .openai audioCx spokenTurn :=
    ⟨by decide, by decide, by decide, by decide⟩
  have hrequires : requiresResponses spokenTurn = true := by decide
  refine ⟨hrequires, fun up => ?_, fun up hkept => ?_, fun up hrefused => ?_⟩
  · exact congrArg Exchange.calls ((chat_of_requires .openai hrequires up).1 hover)
  · exact ((compat .openai).chat_kept_iff _ hrequires up).mp hkept hover
  · rcases ((compat .openai).refused_iff _ _ up).mp hrefused with h | h
    · exact absurd h (by decide)
    · exact absurd h.2 (by decide)

end OpenaiProvider

end Llmleaf
