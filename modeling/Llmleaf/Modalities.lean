import Llmleaf.Chat

/-!
# The other modalities

Requests and responses of embeddings, rerank, decisions, speech, voices and transcription. What the
engine reads of them is little: the model of a request (`Addressed`) and the usage of a response
(`Reporting`); everything else passes through.
-/

namespace Llmleaf

/-- A request for a model. -/
class Addressed (ρ : Type) where
  model : ρ → String
  withModel : ρ → String → ρ
  model_withModel : ∀ r m, model (withModel r m) = m

/-- A response with the usage its provider reports. -/
class Reporting (τ : Type) where
  usage : τ → Usage
  withUsage : τ → Usage → τ
  usage_withUsage : ∀ t u, usage (withUsage t u) = u

instance : Addressed ChatRequest where
  model := ChatRequest.model
  withModel r m := { r with model := m }
  model_withModel _ _ := rfl

/-! ## Embeddings -/

structure EmbeddingRequest where
  model : String
  input : List String
  dimensions : Option ℕ
  encodingFormat : Option String
  extra : Map
  deriving DecidableEq

structure Embedding where
  index : ℕ
  vector : List ℚ
  deriving DecidableEq

structure EmbeddingResponse where
  model : String
  embeddings : List Embedding
  usage : Usage
  deriving DecidableEq

/-- The JSON form of a request; what it leaves out is not written. -/
def EmbeddingRequest.toValue (r : EmbeddingRequest) : Value :=
  .obj ([("model", .string r.model), ("input", .array (r.input.map .string))] ++
    (r.dimensions.map fun n => ("dimensions", Value.nat n)).toList ++
    (r.encodingFormat.map fun f => ("encoding_format", Value.string f)).toList ++
    if r.extra = [] then [] else [("extra", .object r.extra)])

instance : Addressed EmbeddingRequest where
  model := EmbeddingRequest.model
  withModel r m := { r with model := m }
  model_withModel _ _ := rfl

instance : Reporting EmbeddingResponse where
  usage := EmbeddingResponse.usage
  withUsage t u := { t with usage := u }
  usage_withUsage _ _ := rfl

/-! ## Rerank -/

/-- A candidate document: plain text, or an object that is relayed as it is. -/
inductive RerankDocument where
  | text (text : String)
  | rich (object : Map)
  deriving DecidableEq

structure RerankRequest where
  model : String
  query : String
  documents : List RerankDocument
  topN : Option ℕ
  returnDocuments : Option Bool
  extra : Map
  deriving DecidableEq

structure RerankResult where
  index : ℕ
  relevanceScore : ℚ
  document : Option Value
  deriving DecidableEq

structure RerankResponse where
  model : String
  results : List RerankResult
  usage : Usage
  deriving DecidableEq

instance : Addressed RerankRequest where
  model := RerankRequest.model
  withModel r m := { r with model := m }
  model_withModel _ _ := rfl

instance : Reporting RerankResponse where
  usage := RerankResponse.usage
  withUsage t u := { t with usage := u }
  usage_withUsage _ _ := rfl

/-! ## Decisions -/

structure DecisionsRequest where
  model : String
  state : Value
  questions : Map
  extra : Map
  deriving DecidableEq

structure DecisionsResponse where
  model : String
  answers : Map
  usage : Usage
  extra : Map
  usageExtra : Map
  deriving DecidableEq

instance : Addressed DecisionsRequest where
  model := DecisionsRequest.model
  withModel r m := { r with model := m }
  model_withModel _ _ := rfl

instance : Reporting DecisionsResponse where
  usage := DecisionsResponse.usage
  withUsage t u := { t with usage := u }
  usage_withUsage _ _ := rfl

/-! ## Audio -/

structure SpeechRequest where
  model : String
  input : String
  voice : String
  responseFormat : Option String
  speed : Option ℚ
  extra : Map
  deriving DecidableEq

/-- A voice of a speech model. -/
structure VoiceInfo where
  id : String
  name : Option String
  languages : List String
  extra : Map
  deriving DecidableEq

structure TranscriptionRequest where
  model : String
  /-- The upload; no part of the request's JSON form. -/
  audio : List UInt8
  filename : String
  language : Option String
  prompt : Option String
  responseFormat : Option String
  temperature : Option ℚ
  extra : Map
  deriving DecidableEq

structure TranscriptionResponse where
  text : String
  language : Option String
  duration : Option ℚ
  usage : Usage
  deriving DecidableEq

instance : Addressed SpeechRequest where
  model := SpeechRequest.model
  withModel r m := { r with model := m }
  model_withModel _ _ := rfl

instance : Addressed TranscriptionRequest where
  model := TranscriptionRequest.model
  withModel r m := { r with model := m }
  model_withModel _ _ := rfl

instance : Reporting TranscriptionResponse where
  usage := TranscriptionResponse.usage
  withUsage t u := { t with usage := u }
  usage_withUsage _ _ := rfl

end Llmleaf
