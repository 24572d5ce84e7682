import Llmleaf.Providers.BatchObjects
import Llmleaf.Providers.Brand

/-!
# The OpenAI-compatible provider

One implementation for every upstream of the family, steered by its brand and by the settings of
the instance. A chat request goes to one of two surfaces of the upstream, chat completions or
Responses; a batch goes into a file whose lines are chat-completions bodies.

- `effectiveChatApi`: the surface a request goes to.
- `chat`, `batchCreate`: the calls that are made, in order, and what comes of them.
-/

namespace Llmleaf

open Value

/-- A call to an upstream. -/
inductive UpstreamCall where
  | chatCompletions (url : String) (body : Value)
  | responses (url : String) (body : Value)
  /-- The upload of a batch file, one request a line. -/
  | file (url purpose : String) (lines : List Value)
  /-- The creation of a batch. -/
  | batch (url : String) (body : Value)
  deriving DecidableEq

/-- What the upstream answers: a response stream, or one document. -/
structure Answers (α : Type) where
  stream : UpstreamCall → Except ModelError α
  json : UpstreamCall → Except ModelError Value

/-- The calls of an operation and its result. -/
structure Exchange (α : Type) where
  calls : List UpstreamCall
  result : Except ModelError α

/-- Refused before any call. -/
def Exchange.refuse {α : Type} (e : ModelError) : Exchange α := ⟨[], .error e⟩

/-- Whether a chat uses the streaming transport of the upstream. -/
def ProviderCx.useUpstreamStreaming (cx : ProviderCx) (requested supported : Bool) : Bool :=
  if supported then
    match cx.settingStr "upstream_streaming" with
    | some "never" => false
    | some "when_requested" => requested
    | _ => true
  else false

namespace ChatRequest

/-- All parts of the conversation. -/
def parts (req : ChatRequest) : List ContentPart := req.messages.flatMap (·.content)

def hasInputAudio (req : ChatRequest) : Bool := req.parts.any fun
  | .inputAudio _ _ => true
  | _ => false

end ChatRequest

namespace OpenaiWire

/-- Fields that only chat completions know. -/
def chatOnlyExtraKeys : List String :=
  ["response_format", "logit_bias", "frequency_penalty", "presence_penalty", "seed", "logprobs",
    "n", "modalities", "audio", "prediction", "functions", "function_call", "web_search_options",
    "stream_options", "stop", "max_completion_tokens", "verbosity", "reasoning_effort",
    "reasoning_format", "search_settings"]

/-- The Responses surface would reject the request. -/
def needsChatCompletions (req : ChatRequest) : Bool :=
  req.stop ≠ [] || req.hasInputAudio || req.extra.any (·.1 ∈ chatOnlyExtraKeys)

/-- The request depends on state that only the Responses surface has. -/
def requiresResponses (req : ChatRequest) : Bool :=
  (req.extra.get "previous_response_id").any (· ≠ null) ||
    (req.extra.get "context_management").isSome ||
    (req.extra.get "store").bind asBool = some true ||
    req.parts.any fun
      | .redactedThinking _ | .compaction _ _ _ _ _ => true
      | _ => false

/-- A compaction part that the Responses surface cannot replay. -/
def unreplayable : ContentPart → Bool
  | .compaction _ _ content encryptedContent signature =>
    content.isSome || signature.isSome || encryptedContent.isNone
  | _ => false

end OpenaiWire

namespace OpenAiCompat

open OpenaiWire ResponsesWire

section

variable {α : Type} (brand : Brand) (cx : ProviderCx)

/-! ## URLs and settings -/

/-- The URL of an operation. -/
def urlFor (model op : String) : String :=
  let endpoint := cx.endpointOr brand.defaultEndpoint
  match brand.urlStyle with
  | .standard => endpoint ++ "/" ++ op
  | .azure =>
    let apiVersion := (cx.settingStr "api_version").getD brand.defaultApiVersion
    endpoint ++ "/openai/deployments/" ++ model ++ "/" ++ op ++ "?api-version=" ++ apiVersion

def buildUrl (model : String) : String := urlFor brand cx model "chat/completions"

def responsesUrl : String :=
  let e := brand.batchEndpoint cx
  match brand.urlStyle with
  | .standard => e ++ "/responses"
  | .azure =>
    match cx.settingStr "responses_api_version" with
    | some v => e ++ "/openai/v1/responses?api-version=" ++ v
    | none => e ++ "/openai/v1/responses"

/-- The surface that a setting names. -/
def settingApi (key : String) : Option ChatApi :=
  match cx.settingStr key with
  | some "responses" => some .responses
  | some "chat_completions" | some "completions" => some .completions
  | _ => none

/-- **The surface a request goes to.** -/
def effectiveChatApi (req : ChatRequest) : ChatApi :=
  let api := (settingApi cx "chat_api").getD brand.chatApi
  match if req.hasInputAudio then settingApi cx "chat_with_audio_input_api" else none with
  | some api => api
  | none =>
    if requiresResponses req then .responses
    else if api = .responses ∧ needsChatCompletions req then .completions
    else api

def audioInputEnabled : Bool :=
  brand.audioInput || ((cx.settings.get "audio_input").bind asBool).getD false

/-! ## Chat -/

def chatCompletions (req : ChatRequest) (up : Answers α) : Exchange α :=
  let stream := cx.useUpstreamStreaming req.stream brand.supportsStream
  let call := UpstreamCall.chatCompletions (buildUrl brand cx req.model)
    (requestToOpenai req brand.maxTokensField stream)
  ⟨[call], up.stream call⟩

def chatResponses (req : ChatRequest) (up : Answers α) : Exchange α :=
  let stream := cx.useUpstreamStreaming req.stream brand.supportsStream
  let call := UpstreamCall.responses (responsesUrl brand cx)
    (requestToOpenaiResponses req stream brand.responsesFlavor)
  ⟨[call], up.stream call⟩

/-- There is no such endpoint. -/
def noEndpoint : Except ModelError α → Bool
  | .error (.upstream status _) => status = 404 ∨ status = 405
  | _ => false

def chat (req : ChatRequest) (up : Answers α) : Exchange α :=
  if req.parts.any unreplayable then
    .refuse (.unsupported "OpenAI Responses can replay only encrypted compaction items")
  else if req.hasInputAudio && !audioInputEnabled brand cx then
    .refuse (.unsupported
      ("provider '" ++ brand.name ++ "' does not support audio input in chat"))
  else
    let chatApi := effectiveChatApi brand cx req
    if chatApi = .responses ∧ needsChatCompletions req then
      .refuse (.unsupported ("provider '" ++ brand.name ++ "' is configured for the Responses " ++
        "API, which cannot represent this chat request; " ++
        "set settings.chat_with_audio_input_api = \"chat_completions\" " ++
        "or settings.chat_api = \"chat_completions\""))
    else
      match chatApi with
      | .completions => chatCompletions brand cx req up
      | .responses =>
        let out := chatResponses brand cx req up
        -- an upstream without the surface gets the request on the other one
        if noEndpoint out.result && !requiresResponses req then
          let retry := chatCompletions brand cx req up
          ⟨out.calls ++ retry.calls, retry.result⟩
        else out

/-! ## Batches -/

def batchPurpose : String :=
  match brand.batchFlavor with
  | .together => "batch-api"
  | _ => "batch"

/-- The path that the lines and the job name. -/
def batchChatPath : String :=
  match brand.batchFlavor with
  | .qianfan =>
    let version := if "/v1".toList <:+ (brand.batchEndpoint cx).toList then "v1" else "v2"
    "/" ++ version ++ "/chat/completions"
  | .azureOpenAi => "/chat/completions"
  | _ => "/v1/chat/completions"

/-- The line of an item: always a chat-completions body. -/
def batchLine (item : BatchItem) : Value :=
  let body := requestToOpenai item.request brand.maxTokensField false
  match brand.batchFlavor with
  | .openAi | .qianfan | .azureOpenAi =>
    obj [("custom_id", string item.customId), ("method", string "POST"),
      ("url", string (batchChatPath brand cx)), ("body", body)]
  | _ => obj [("custom_id", string item.customId), ("body", body)]

/-- The model of the whole job, at the one dialect that has it. -/
def jobModel (items : List BatchItem) : String := (items.head?.map (·.request.model)).getD ""

/-- The body that creates the job for an uploaded file. -/
def jobBody (items : List BatchItem) (fileId : String) : Value :=
  match brand.batchFlavor with
  | .openAi | .qianfan | .unsupported =>
    obj [("input_file_id", string fileId), ("endpoint", string (batchChatPath brand cx)),
      ("completion_window", string "24h")]
  | .azureOpenAi =>
    obj [("input_file_id", string fileId), ("endpoint", string "/chat/completions"),
      ("completion_window", string "24h")]
  | .together =>
    obj [("input_file_id", string fileId), ("endpoint", string "/v1/chat/completions")]
  | .mistralJobs =>
    obj [("input_files", array [string fileId]), ("endpoint", string "/v1/chat/completions"),
      ("model", string (jobModel items))]

/-- The object of the created job; one dialect wraps it. -/
def createdJob (value : Value) : Value :=
  match brand.batchFlavor with
  | .together => (value.get "job").getD value
  | _ => value

/-- Upload the file, then create the job. -/
def batchCreate (spec : BatchSpec) (up : Answers α) : Exchange BatchHandle :=
  match brand.ensureBatch with
  | .error e => .refuse e
  | .ok () =>
    if spec.items.any (·.request.hasInputAudio) && !audioInputEnabled brand cx then
      .refuse (.unsupported
        ("provider '" ++ brand.name ++ "' does not support audio input in chat batches"))
    else
      let file := UpstreamCall.file (brand.batchFiles cx ++ brand.batchQuery cx)
        (batchPurpose brand) (spec.items.map (batchLine brand cx))
      match up.json file with
      | .error e => ⟨[file], .error e⟩
      | .ok value =>
        match value.textAt ["id"] with
        | none => ⟨[file], .error (.mapping "file upload response had no id")⟩
        | some fileId =>
          let job := UpstreamCall.batch (brand.batchCollection cx ++ brand.batchQuery cx)
            (jobBody brand cx spec.items fileId)
          ⟨[file, job], (up.json job).map fun value =>
            batchValueToHandle (createdJob brand value)⟩

end

end OpenAiCompat

end Llmleaf
