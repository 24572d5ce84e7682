import Llmleaf.Chat

/-!
# Writing a chat-completions request

`requestToOpenai` maps a canonical request onto the wire of the OpenAI-compatible upstreams. A
field of `extra` is passed on unless the mapper wrote one of that name.
-/

namespace Llmleaf.OpenaiWire

open Value

/-- The effort of a rung; the wire has three, so the highest ones are one. -/
def thinkingEffort : Thinking → String
  | .low => "low"
  | .med => "medium"
  | .high | .highx | .max => "high"

def toolChoiceToOpenai : ToolChoice → Value
  | .auto => string "auto"
  | .none => string "none"
  | .required => string "required"
  | .named name => obj [("type", string "function"), ("function", obj [("name", string name)])]

/-- A content part; replayed reasoning has no place on this wire. -/
def contentPart : ContentPart → Option Value
  | .text text => some (obj [("type", string "text"), ("text", string text)])
  | .imageUrl url detail => some (obj [("type", string "image_url"),
      ("image_url", build [("url", some (string url)), ("detail", detail.map string)])])
  | .inputAudio data format => some (obj [("type", string "input_audio"),
      ("input_audio", obj [("data", string data), ("format", string format)])])
  | .thinking _ _ | .redactedThinking _ | .compaction _ _ _ _ _ => none

def contentParts (msg : Message) : Value := array (msg.content.filterMap contentPart)

def roleName : Role → String
  | .system => "system"
  | .user => "user"
  | .assistant => "assistant"
  | .tool => "tool"

/-- The content of a message: a single text part is a string. -/
def messageContent (msg : Message) : Value :=
  match msg.content with
  | [] => null
  | [.text text] => string text
  | _ => contentParts msg

def toolCallToOpenai (c : ToolCall) : Value :=
  obj [("id", string c.id), ("type", string "function"),
    ("function", obj [("name", string c.name), ("arguments", string c.arguments)])]

def messageToOpenai (msg : Message) : Value :=
  build [
    ("role", some (string (roleName msg.role))),
    ("content", some (messageContent msg)),
    ("tool_calls", if msg.toolCalls = [] then none
      else some (array (msg.toolCalls.map toolCallToOpenai))),
    ("tool_call_id", msg.toolCallId.map string),
    ("name", msg.name.map string)]

def toolToOpenai (t : ToolDef) : Value :=
  obj [("type", string "function"), ("function", build [
    ("name", some (string t.name)), ("description", t.description.map string),
    ("parameters", some t.parameters)])]

/-- The modelled fields of the body, the output cap under the name the upstream has for it. -/
def modeledFields (req : ChatRequest) (maxTokensField : String) : Map :=
  Map.build [
    ("model", some (string req.model)),
    ("messages", some (array (req.messages.map messageToOpenai))),
    (maxTokensField, req.maxTokens.map nat),
    ("temperature", req.temperature.map ofF32),
    ("top_p", req.topP.map ofF32),
    ("stop", if req.stop = [] then none else some (array (req.stop.map string))),
    ("tools", if req.tools = [] then none else some (array (req.tools.map toolToOpenai))),
    ("tool_choice", req.toolChoice.map toolChoiceToOpenai),
    ("reasoning_effort", req.thinking.map fun t => string (thinkingEffort t))]

/-- **Write a chat-completions request.** The transport is the gateway's choice, whatever the
request asks. -/
def requestToOpenai (req : ChatRequest) (maxTokensField : String) (stream : Bool) : Value :=
  let body := ((modeledFields req maxTokensField).orInsertAll req.extra).insert "stream"
    (bool stream)
  object (if stream then body.insert "stream_options" (obj [("include_usage", bool true)]) else body)

end Llmleaf.OpenaiWire
