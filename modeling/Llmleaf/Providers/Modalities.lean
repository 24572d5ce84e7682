import Llmleaf.Compat.Modalities

/-!
# Decisions, rerank and embeddings at a provider

How the requests are written for an upstream that speaks the same surfaces, and how its responses
are read.

- `requestToWire`, `rerankRequestToOpenai`, `embeddingRequestToOpenai`: the requests.
- `responseFromWire`, `openaiToRerank`, `openaiToEmbeddings`: the responses.
-/

namespace Llmleaf

/-! ## Decisions -/

namespace Decisions

/-- The request; what is known wins over `extra`. -/
def requestToWire (req : DecisionsRequest) : Value :=
  .object (((req.extra.insert "model" (.string req.model)).insert "state" req.state).insert
    "questions" (.object req.questions))

/-- Take a number out of an object under its name, or else under another one. -/
def takeEither {α : Type} (read : Value → Option α) (object : Map) (key alt : String) :
    Option α × Map :=
  match (Map.get object key).bind read with
  | some n => (some n, object.without [key])
  | none =>
    let object := object.without [key]
    ((Map.get object alt).bind read, object.without [alt])

/-- The usage, and what is left of the object. -/
def parseUsage : Value → Except ModelError (Usage × Map)
  | .object object =>
    let prompt := takeEither Value.asU64 object "input_tokens" "prompt_tokens"
    let completion := takeEither Value.asU64 prompt.2 "output_tokens" "completion_tokens"
    let cost := takeEither Value.asF64 completion.2 "cost" "cost_usd"
    .ok ({
      promptTokens := prompt.1.getD 0
      completionTokens := completion.1.getD 0
      totalTokens := min (prompt.1.getD 0 + completion.1.getD 0) (2 ^ 64 - 1)
      costUsd := cost.1
      cacheReadTokens := 0
      cacheCreationTokens := 0 }, cost.2)
  | _ => .error (.mapping "decisions response `usage` must be an object")

/-- The fields a response is read from. -/
def responseKeys : List String := ["model", "answers", "usage"]

def responseFromWire (value : Value) (fallbackModel : String) :
    Except ModelError DecisionsResponse :=
  match value with
  | .object object =>
    let model : Except ModelError String :=
      match Map.get object "model" with
      | some (.string model) => .ok model
      | some _ => .error (.mapping "decisions response `model` must be a string")
      | none => .ok fallbackModel
    model >>= fun model =>
      match Map.get object "answers" with
      | some (.object answers) =>
        match Map.get object "usage" with
        | some usage =>
          (parseUsage usage).map fun (usage, usageExtra) =>
            { model, answers, usage, extra := Map.without object responseKeys, usageExtra }
        | none => .error (.mapping "decisions response `usage` must be an object")
      | _ => .error (.mapping "decisions response `answers` must be an object")
  | _ => .error (.mapping "decisions response must be a JSON object")

end Decisions

/-! ## Rerank -/

namespace Rerank

/-- A document as it was sent. -/
def documentToWire : RerankDocument → Value
  | .text s => .string s
  | .rich obj => .object obj

def rerankRequestToOpenai (req : RerankRequest) : Value :=
  .object ((Map.build [("model", some (.string req.model)), ("query", some (.string req.query)),
    ("documents", some (.array (req.documents.map documentToWire))),
    ("top_n", req.topN.map .nat), ("return_documents", req.returnDocuments.map .bool)]).orInsertAll
      req.extra)

/-- The billed tokens of a response, or its search units. -/
def rerankUsage (value : Value) : Usage :=
  let billed := (value.get "meta").bind (·.get "billed_units")
  let total := (((value.get "usage").bind (·.get "total_tokens")).bind Value.asU64).or
    ((((billed.bind (·.get "search_units")).bind Value.asU64).or
      ((billed.bind (·.get "total_tokens")).bind Value.asU64)).or
        ((billed.bind (·.get "input_tokens")).bind Value.asU64))
  { promptTokens := total.getD 0
    completionTokens := 0
    totalTokens := total.getD 0
    costUsd := none
    cacheReadTokens := 0
    cacheCreationTokens := 0 }

/-- The item of a response at a position. -/
def readResult (item : Value) (i : ℕ) : Result where
  index := (((item.get "index").bind Value.asU64).getD i) % 2 ^ 32
  relevanceScore := ((item.get "relevance_score").bind Value.asF32).getD
    (Binary.Format.single.round 0)
  document := (item.get "document").filter fun v => !decide (v = .null)

def openaiToRerank (value : Value) (fallbackModel : String) : Response where
  model := ((value.get "model").bind Value.asStr).getD fallbackModel
  results := (((value.get "results").bind Value.asArray).getD []).mapIdx fun i item =>
    readResult item i
  usage := rerankUsage value

end Rerank

/-! ## Embeddings -/

namespace Embeddings

/-- The request; vectors are always asked for as numbers. -/
def embeddingRequestToOpenai (req : EmbeddingRequest) : Value :=
  .object ((Map.build [("model", some (.string req.model)),
    ("input", some (.array (req.input.map .string))), ("encoding_format", some (.string "float")),
    ("dimensions", req.dimensions.map .nat)]).orInsertAll req.extra)

/-- The item of a response at a position. -/
def readVector (item : Value) (i : ℕ) : Vector where
  index := (((item.get "index").bind Value.asU64).getD i) % 2 ^ 32
  vector := (((item.get "embedding").bind Value.asArray).getD []).filterMap Value.asF32

def readUsage (value : Value) : Usage where
  promptTokens := (((value.get "usage").bind (·.get "prompt_tokens")).bind Value.asU64).getD 0
  completionTokens := 0
  totalTokens := (((value.get "usage").bind (·.get "total_tokens")).bind Value.asU64).getD 0
  costUsd := none
  cacheReadTokens := 0
  cacheCreationTokens := 0

def openaiToEmbeddings (value : Value) (fallbackModel : String) : Response where
  model := ((value.get "model").bind Value.asStr).getD fallbackModel
  embeddings := (((value.get "data").bind Value.asArray).getD []).mapIdx fun i item =>
    readVector item i
  usage := readUsage value

end Embeddings

end Llmleaf
