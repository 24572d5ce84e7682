import Llmleaf.Json

/-!
# Errors and events

The canonical errors of a provider call and the lifecycle events the node emits.
-/

namespace Llmleaf

/-- Why a provider call or a dialect mapping failed. -/
inductive ModelError where
  | upstream (status : ℕ) (message : String)
  | unavailable (message : String)
  | mapping (message : String)
  /-- The provider lacks the capability: no failure and no health signal. -/
  | unsupported (message : String)
  | timeout
  | canceled
  deriving DecidableEq

/-- The text of an error. -/
def ModelError.text : ModelError → String
  | .upstream status message => "upstream " ++ toString status ++ ": " ++ message
  | .unavailable message => "provider unavailable: " ++ message
  | .mapping message => "mapping error: " ++ message
  | .unsupported message => "unsupported: " ++ message
  | .timeout => "deadline exceeded"
  | .canceled => "canceled"

/-- Why the engine refuses a request. -/
inductive EngineError where
  | noRoute (model : String)
  | noTargets (model : String)
  | allTargetsFailed (e : ModelError)
  | rateLimited (retryAfterSecs : ℕ)
  | blocked (reason : String)
  | emptyBatch
  | mixedProviderBatch
  | batchNotFound (id : String)
  deriving DecidableEq

/-- The text of a refusal. -/
def EngineError.text : EngineError → String
  | .noRoute model => "no route configured for model '" ++ model ++ "'"
  | .noTargets model => "route for model '" ++ model ++ "' has no targets"
  | .allTargetsFailed e => "all targets failed: " ++ e.text
  | .rateLimited retryAfterSecs => "rate limited; retry after " ++ toString retryAfterSecs ++ "s"
  | .blocked reason => "blocked by interceptor: " ++ reason
  | .emptyBatch => "batch has no requests"
  | .mixedProviderBatch => "batch mixes models that route to different providers"
  | .batchNotFound id => "batch '" ++ id ++ "' not found"

/-- Why a response ended. -/
inductive FinishReason where
  | stop
  | length
  | toolCalls
  | contentFilter
  | error
  | compaction
  deriving DecidableEq

/-- Token accounting as reported by the provider. -/
structure Usage where
  promptTokens : ℕ
  completionTokens : ℕ
  totalTokens : ℕ
  costUsd : Option ℚ
  cacheReadTokens : ℕ
  cacheCreationTokens : ℕ
  deriving DecidableEq

/-- No tokens. -/
def Usage.zero : Usage := ⟨0, 0, 0, none, 0, 0⟩

/-- A lifecycle or usage event. -/
inductive Event where
  | requestStarted (id key model : String) (request : Option Value)
  | requestRouted (id provider upstreamModel : String)
  | usage (id key model : String) (usage : Usage)
  | requestCompleted (id : String) (finish : Option FinishReason)
  | requestFailed (id error : String)
  | providerHealth (provider status : String)
  deriving DecidableEq

/-- An event with the instant it was emitted, in milliseconds. -/
structure Envelope where
  tsMs : ℕ
  event : Event
  deriving DecidableEq

/-- A reading of the system clock in milliseconds; it fits a signed 64-bit integer. -/
structure Clock where
  ms : ℕ
  fits : ms < 2 ^ 63

/-- The reading in seconds. -/
def Clock.secs (c : Clock) : ℕ := c.ms / 1000

/-- Stamp an event. -/
def Clock.stamp (c : Clock) (e : Event) : Envelope := ⟨c.ms, e⟩

end Llmleaf
