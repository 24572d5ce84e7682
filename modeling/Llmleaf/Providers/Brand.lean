import Llmleaf.Providers.ResponsesRequest
import Llmleaf.Topology

/-!
# OpenAI-compatible brands

The table of what differs between the upstreams that speak the chat-completions wire. One
implementation serves them all; a field of the table selects the variant.
-/

namespace Llmleaf

/-- The batch dialect of an upstream. -/
inductive BatchFlavor where
  | unsupported
  | openAi
  | mistralJobs
  | together
  | qianfan
  | azureOpenAi
  deriving DecidableEq

inductive UrlStyle where
  | standard
  /-- The model is a deployment in the path. -/
  | azure
  deriving DecidableEq

/-- The chat wire of an upstream. -/
inductive ChatApi where
  | completions
  | responses
  deriving DecidableEq

/-- A row of the table. -/
structure Brand where
  name : String
  defaultEndpoint : String
  urlStyle : UrlStyle
  defaultApiVersion : String
  /-- The name of the output cap. -/
  maxTokensField : String
  supportsStream : Bool
  audioInput : Bool
  batchFlavor : BatchFlavor
  chatApi : ChatApi
  responsesFlavor : ResponsesFlavor
  /-- The wire has two names for the cap. -/
  maxTokensField_mem : maxTokensField ∈ ["max_tokens", "max_completion_tokens"]
  deriving DecidableEq

/-- A setting that is a text. -/
def ProviderCx.settingStr (cx : ProviderCx) (key : String) : Option String :=
  (cx.settings.get key).bind Value.asStr

/-- The configured endpoint or the default one, without the slashes at its end. -/
def ProviderCx.endpointOr (cx : ProviderCx) (default : String) : String :=
  String.ofList ((cx.endpoint.getD default).toList.rdropWhile (· == '/'))

namespace Brand

def openai : Brand where
  name := "openai"
  defaultEndpoint := "https://api.openai.com/v1"
  urlStyle := .standard
  defaultApiVersion := ""
  maxTokensField := "max_completion_tokens"
  supportsStream := true
  audioInput := true
  batchFlavor := .openAi
  chatApi := .responses
  responsesFlavor := .openAi
  maxTokensField_mem := by decide

def mistral : Brand where
  name := "mistral"
  defaultEndpoint := "https://api.mistral.ai/v1"
  urlStyle := .standard
  defaultApiVersion := ""
  maxTokensField := "max_tokens"
  supportsStream := true
  audioInput := false
  batchFlavor := .mistralJobs
  chatApi := .completions
  responsesFlavor := .openAi
  maxTokensField_mem := by decide

def baidu : Brand where
  name := "baidu-qianfan"
  defaultEndpoint := "https://qianfan.baidubce.com/v2"
  urlStyle := .standard
  defaultApiVersion := ""
  maxTokensField := "max_tokens"
  supportsStream := true
  audioInput := false
  batchFlavor := .qianfan
  chatApi := .completions
  responsesFlavor := .openAi
  maxTokensField_mem := by decide

def llmleaf : Brand where
  name := "llmleaf"
  defaultEndpoint := "http://localhost:8080/v1"
  urlStyle := .standard
  defaultApiVersion := ""
  maxTokensField := "max_completion_tokens"
  supportsStream := true
  audioInput := true
  batchFlavor := .unsupported
  chatApi := .responses
  responsesFlavor := .llmleaf
  maxTokensField_mem := by decide

/-- A brand without a batch interface refuses every batch call. -/
def ensureBatch (self : Brand) : Except ModelError Unit :=
  if self.batchFlavor = .unsupported then
    .error (.unsupported ("provider '" ++ self.name ++ "' does not support batch"))
  else .ok ()

def batchEndpoint (self : Brand) (cx : ProviderCx) : String := cx.endpointOr self.defaultEndpoint

/-- The query of every batch call. -/
def batchQuery (self : Brand) (cx : ProviderCx) : String :=
  match self.batchFlavor with
  | .azureOpenAi => "?api-version=" ++ (cx.settingStr "api_version").getD self.defaultApiVersion
  | _ => ""

def batchCollection (self : Brand) (cx : ProviderCx) : String :=
  match self.batchFlavor with
  | .mistralJobs => self.batchEndpoint cx ++ "/batch/jobs"
  | .azureOpenAi => self.batchEndpoint cx ++ "/openai/batches"
  | _ => self.batchEndpoint cx ++ "/batches"

def batchFiles (self : Brand) (cx : ProviderCx) : String :=
  match self.batchFlavor with
  | .azureOpenAi => self.batchEndpoint cx ++ "/openai/files"
  | _ => self.batchEndpoint cx ++ "/files"

end Brand

end Llmleaf
