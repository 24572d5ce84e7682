import Llmleaf.Batch
import Llmleaf.Compat.Openai

/-!
# The batch edge

How a node renders a batch job and a line of its results. A result line holds the view of the
collected response that the chat-completions edge serves, so the documents of those views are here.

- `handleToJson`: the object of a job; what the provider carried beside the fields rides along.
- `resultToLine`: the line of a result, `ResultLineView.document` what is written of it.
-/

namespace Llmleaf

open Value

namespace Openai

/-! ## Documents of the collected views -/

/-- A list that is left out when it is empty. -/
def optionalItems (items : List Value) : Option Value :=
  if items = [] then none else some (array items)

def ReasoningDetailFrame.document (d : ReasoningDetailFrame) : Value :=
  object (Map.build [
    ("data", d.data.map string),
    ("signature", d.signature.map string),
    ("text", d.text.map string),
    ("type", some (string d.kind))])

def CompactionFrame.document (c : CompactionFrame) : Value :=
  object (Map.build [
    ("content", c.content.map string),
    ("encrypted_content", c.encryptedContent.map string),
    ("id", c.id.map string),
    ("signature", c.signature.map string),
    ("type", some (string c.kind))])

def ToolCallView.document (t : ToolCallView) : Value :=
  obj [
    ("function",
      obj [("arguments", string t.function.arguments), ("name", string t.function.name)]),
    ("id", string t.id),
    ("type", string t.kind)]

def MessageView.document (m : MessageView) : Value :=
  object (Map.build [
    ("compaction", optionalItems (m.compaction.map CompactionFrame.document)),
    ("content", some (string m.content)),
    ("reasoning", m.reasoning.map string),
    ("reasoning_details", optionalItems (m.reasoningDetails.map ReasoningDetailFrame.document)),
    ("role", some (string m.role)),
    ("tool_calls", optionalItems (m.toolCalls.map ToolCallView.document))])

/-- A choice; a missing finish reason is written as null. -/
def ChoiceView.document (c : ChoiceView) : Value :=
  obj [
    ("finish_reason", ofOption c.finishReason),
    ("index", nat c.index),
    ("message", c.message.document)]

def UsageFrame.document (u : UsageFrame) : Value :=
  object (Map.build [
    ("completion_tokens", some (nat u.completionTokens)),
    ("cost_usd", u.costUsd.map fun cost => number (.float cost)),
    ("prompt_tokens", some (nat u.promptTokens)),
    ("prompt_tokens_details", u.promptTokensDetails.map fun d =>
      obj [("cached_tokens", nat d.cachedTokens)]),
    ("total_tokens", some (nat u.totalTokens)),
    ("cache_creation_tokens", u.cacheCreationTokens.map nat)])

def CompletionView.document (v : CompletionView) : Value :=
  obj [
    ("choices", array (v.choices.map ChoiceView.document)),
    ("created", nat v.created),
    ("id", string v.id),
    ("model", string v.model),
    ("object", string v.object),
    ("usage", v.usage.document)]

end Openai

/-! ## Jobs -/

/-- The word for a status. -/
def statusStr : BatchStatus → String
  | .validating => "validating"
  | .inProgress => "in_progress"
  | .finalizing => "finalizing"
  | .completed => "completed"
  | .failed => "failed"
  | .expired => "expired"
  | .canceling => "cancelling"
  | .canceled => "cancelled"

/-- The object of a job. -/
def handleToJson (handle : BatchHandle) : Value :=
  let counts := obj [
    ("total", nat handle.counts.total),
    ("completed", nat handle.counts.succeeded),
    ("failed", nat handle.counts.errored),
    ("processing", nat handle.counts.processing),
    ("canceled", nat handle.counts.canceled),
    ("expired", nat handle.counts.expired)]
  let root := Map.build [
    ("id", some (string handle.id)),
    ("object", some (string "batch")),
    ("status", some (string (statusStr handle.status))),
    ("request_counts", some counts),
    ("created_at", handle.createdAt.map nat),
    ("expires_at", handle.expiresAt.map nat),
    ("completed_at", handle.endedAt.map nat),
    ("endpoint", handle.endpoint.map string)]
  -- what the provider carried overwrites no field that is set
  object (root.orInsertAll handle.extra)

/-! ## Results -/

/-- Why a request has no response. -/
structure ErrorView where
  code : String
  message : String
  deriving DecidableEq

/-- The response of a request that succeeded. -/
structure ResponseView where
  body : Openai.CompletionView
  statusCode : ℕ
  deriving DecidableEq

/-- A line of the results. -/
structure ResultLineView where
  customId : String
  error : Option ErrorView
  response : Option ResponseView
  deriving DecidableEq

def ErrorView.document (e : ErrorView) : Value :=
  obj [("code", string e.code), ("message", string e.message)]

def ResponseView.document (r : ResponseView) : Value :=
  obj [("body", r.body.document), ("status_code", nat r.statusCode)]

/-- A line; of error and response the missing one is null. -/
def ResultLineView.document (line : ResultLineView) : Value :=
  obj [
    ("custom_id", string line.customId),
    ("error", (line.error.map ErrorView.document).getD null),
    ("response", (line.response.map ResponseView.document).getD null)]

/-- The line of a result. -/
def resultToLine (result : BatchResult) : ResultLineView :=
  match result.outcome with
  | .succeeded resp => ⟨result.customId, none, some ⟨Openai.responseToOpenai resp 0, 200⟩⟩
  | .errored status message => ⟨result.customId, some ⟨toString status, message⟩, none⟩
  | .canceled =>
    ⟨result.customId, some ⟨"canceled", "request canceled before completion"⟩, none⟩
  | .expired => ⟨result.customId, some ⟨"expired", "request expired before completion"⟩, none⟩

end Llmleaf
