import Llmleaf.Compat.Responses

/-!
# The documents of Responses frames

What stands behind `data:` of a frame: its type, its sequence number, and a snapshot, an item or a
text. The text stands under another key for every kind of event.
-/

namespace Llmleaf.Responses

namespace Item

/-- A text part of an output message. -/
def outputText (text : String) : Value :=
  .build [("type", some (.string "output_text")), ("text", some (.string text)),
    ("annotations", some (.array []))]

/-- An open text of a reasoning item. -/
def reasoningText (text : String) : Value :=
  .build [("type", some (.string "reasoning_text")), ("text", some (.string text))]

/-- The document of an output item. -/
def json : Item → Value
  | reasoning id content encryptedContent signature => .build [
      ("type", some (.string "reasoning")),
      ("id", some (.string id)),
      ("summary", some (.array [])),
      ("content", content.map fun texts => .array (texts.map reasoningText)),
      ("encrypted_content", encryptedContent.map .string),
      ("signature", signature.map .string)]
  | message id status content => .build [
      ("type", some (.string "message")),
      ("id", some (.string id)),
      ("status", some (.string status)),
      ("role", some (.string "assistant")),
      ("content", some (.array (content.map outputText)))]
  | functionCall id callId name arguments status => .build [
      ("type", some (.string "function_call")),
      ("id", some (.string id)),
      ("call_id", some (.string callId)),
      ("name", some (.string name)),
      ("arguments", some (.string arguments)),
      ("status", some (.string status))]
  | compaction id encryptedContent content signature => .build [
      ("type", some (.string "compaction")),
      ("id", some (.string id)),
      ("encrypted_content", encryptedContent.map .string),
      ("content", content.map .string),
      ("signature", signature.map .string)]

end Item

/-- The document of a usage. -/
def UsageOut.json (u : UsageOut) : Value := .build [
  ("input_tokens", some (.nat u.inputTokens)),
  ("input_tokens_details", some (.build [("cached_tokens", some (.nat u.cachedTokens))])),
  ("output_tokens", some (.nat u.outputTokens)),
  ("output_tokens_details", some (.build [("reasoning_tokens", some (.nat u.reasoningTokens))])),
  ("total_tokens", some (.nat u.totalTokens)),
  ("cost_usd", u.costUsd.map fun cost => .number (.float cost))]

/-- The document of a response; what is missing is null. -/
def Response.json (r : Response) : Value := .build [
  ("id", some (.string r.id)),
  ("object", some (.string "response")),
  ("created_at", some (.nat r.createdAt)),
  ("status", some (.string r.status)),
  ("background", some (.bool false)),
  ("error", some .null),
  ("incomplete_details", some ((r.incompleteDetails.map fun reason =>
    .build [("reason", some (.string reason))]).getD .null)),
  ("instructions", some .null),
  ("max_output_tokens", some ((r.maxOutputTokens.map .nat).getD .null)),
  ("model", some (.string r.model)),
  ("output", some (.array (r.output.map Item.json))),
  ("parallel_tool_calls", some r.parallelToolCalls),
  ("previous_response_id", some (.ofOption r.previousResponseId)),
  ("reasoning", some (.build [("effort", some (.ofOption r.reasoningEffort)),
    ("summary", some .null)])),
  ("store", some (.bool r.store)),
  ("temperature", some ((r.temperature.map .ofF32).getD .null)),
  ("text", some r.text),
  ("tool_choice", some r.toolChoice),
  ("tools", some (.array r.tools)),
  ("top_p", some ((r.topP.map .ofF32).getD .null)),
  ("truncation", some r.truncation),
  ("context_management", some (r.contextManagement.getD .null)),
  ("usage", some ((r.usage.map UsageOut.json).getD .null)),
  ("metadata", some r.metadata)]

/-- How the text of an event stands in its document. -/
def pieceFields (event text : String) : List (String × Option Value) :=
  match event with
  | "response.content_part.added" | "response.content_part.done" =>
    [("content_index", some (.nat 0)), ("part", some (Item.outputText text))]
  | "response.reasoning_text.delta" | "response.output_text.delta" =>
    [("content_index", some (.nat 0)), ("delta", some (.string text))]
  | "response.reasoning_text.done" | "response.output_text.done" =>
    [("content_index", some (.nat 0)), ("text", some (.string text))]
  | "response.function_call_arguments.delta" => [("delta", some (.string text))]
  | _ => [("arguments", some (.string text))]

/-- What a frame carries besides its type and its number. -/
def Frame.fields (f : Frame) : List (String × Option Value) :=
  match f.data with
  | .response response => [("response", some response.json)]
  | .item index item => [("output_index", some (.nat index)), ("item", some item.json)]
  | .piece id index text =>
    ("item_id", some (.string id)) :: ("output_index", some (.nat index)) ::
      pieceFields f.event text
  | .error message =>
    [("code", some .null), ("message", some (.string message)), ("param", some .null)]

/-- The document of a frame. -/
def Frame.json (f : Frame) : Value := .build (("type", some (.string f.event)) ::
  ("sequence_number", some (.nat f.sequenceNumber)) :: f.fields)

namespace Frame

variable {f : Frame}

theorem textAt_type : f.json.textAt ["type"] = some f.event := by
  unfold json fields pieceFields
  split
  · simp [Value.asStr]
  · simp [Value.asStr]
  · split <;> simp [Value.asStr]
  · simp [Value.asStr]

theorem get_response {response : Response} (h : f.data = .response response) :
    f.json.get "response" = some response.json := by
  simp [json, fields, h]

theorem get_item {index : ℕ} {item : Item} (h : f.data = .item index item) :
    f.json.get "item" = some item.json ∧ f.json.natAt ["output_index"] = some index := by
  simp [json, fields, h, Value.natAt, Value.path_one, Value.nat, Value.asU64]

theorem textAt_piece {id text : String} {index : ℕ} (h : f.data = .piece id index text) :
    f.json.textAt ["item_id"] = some id := by
  simp only [json, fields, h, pieceFields]
  split <;> simp [Value.asStr]

end Frame

end Llmleaf.Responses
