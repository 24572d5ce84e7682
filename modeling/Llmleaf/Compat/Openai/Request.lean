import Llmleaf.Chat
import Llmleaf.Lib.Strings

/-!
# Reading a chat-completions request

`parseChatRequest` maps the body of a chat-completions request into the canonical request. A field
it models is taken out of the body; what is left rides along in `extra`. A value of another type
than the field's is mostly read as if the field were absent.
-/

namespace Llmleaf.Openai

/-- The rung of an effort; other words are left to the extra fields. -/
def parseReasoningEffort (s : String) : Option Thinking :=
  match s with
  | "minimal" | "low" => some .low
  | "medium" | "med" => some .med
  | "high" => some .high
  | "xhigh" | "highx" => some .highx
  | "max" => some .max
  | _ => none

def parseRole (role : String) : Except ModelError Role :=
  match role with
  | "system" | "developer" => .ok .system
  | "user" => .ok .user
  | "assistant" => .ok .assistant
  | "tool" | "function" => .ok .tool
  | other => .error (.mapping ("unknown role `" ++ other ++ "`"))

section

-- the debug form of a text
variable (debug : String → String)

def parseContentPart (value : Value) : Except ModelError ContentPart :=
  match value with
  | .object _ =>
    match value.textAt ["type"] with
    | some "text" => .ok (.text ((value.textAt ["text"]).getD ""))
    | some "image_url" =>
      match value.textAt ["image_url", "url"] with
      | some url => .ok (.imageUrl url (value.textAt ["image_url", "detail"]))
      | none => .error (.mapping "image_url part missing `image_url.url`")
    | some "input_audio" =>
      match value.get "input_audio" with
      | some (.object _) =>
        match (value.textAt ["input_audio", "data"]).filter (· ≠ "") with
        | none => .error (.mapping "input_audio part missing non-empty `input_audio.data`")
        | some data =>
          match (value.textAt ["input_audio", "format"]).filter (· ≠ "") with
          | none => .error (.mapping "input_audio part missing non-empty `input_audio.format`")
          | some format => .ok (.inputAudio data format)
      | _ => .error (.mapping "input_audio part missing `input_audio` object")
    | some "compaction" =>
      let content := value.textAt ["content"]
      let encryptedContent := value.textAt ["encrypted_content"]
      if content.isSome = encryptedContent.isSome then
        .error (.mapping "compaction requires exactly one of `content` or `encrypted_content`")
      else
        .ok (.compaction none (value.textAt ["id"]) content encryptedContent
          (value.textAt ["signature"]))
    | other => .error (.mapping ("unsupported content part type " ++ Strings.debugOption debug other))
  | _ => .error (.mapping "content part must be an object")

def parseContent (value : Option Value) : Except ModelError (List ContentPart) :=
  match value with
  | none | some .null => .ok []
  | some (.string text) => .ok [.text text]
  | some (.array parts) => parts.mapM (parseContentPart debug)
  | some _ => .error (.mapping "`content` must be a string, array, or null")

/-- A tool call; what is missing is empty. -/
def parseToolCall (v : Value) : ToolCall where
  id := (v.textAt ["id"]).getD ""
  name := (v.textAt ["function", "name"]).getD ""
  arguments := (v.textAt ["function", "arguments"]).getD ""

def parseToolCalls (value : Option Value) : List ToolCall :=
  match value with
  | some (.array items) => items.map parseToolCall
  | _ => []

/-- The parts of the `compaction` field of a message. -/
def parseCompaction (value : Option Value) : Except ModelError (List ContentPart) :=
  match value with
  | some (.array parts) => parts.mapM (parseContentPart debug)
  | _ => .ok []

def parseMessage (value : Value) : Except ModelError Message :=
  match value with
  | .object _ =>
    match value.get "role" with
    | some (.string r) => do
      let role ← parseRole r
      let content ← parseContent debug (value.get "content")
      let compaction ← parseCompaction debug (value.get "compaction")
      return {
        role := role
        content := content ++ compaction
        toolCalls := parseToolCalls (value.get "tool_calls")
        toolCallId := value.textAt ["tool_call_id"]
        name := value.textAt ["name"] }
    | _ => .error (.mapping "message is missing `role`")
  | _ => .error (.mapping "each message must be an object")

def parseMessages (value : Option Value) : Except ModelError (List Message) :=
  match value with
  | some (.array items) => items.mapM (parseMessage debug)
  | _ => .error (.mapping "`messages` is required and must be an array")

/-- The function of a tool. -/
def parseFunction (f : Value) : Except ModelError ToolDef :=
  match f.textAt ["name"] with
  | some name => .ok ⟨name, f.textAt ["description"], (f.get "parameters").getD .null⟩
  | none => .error (.mapping "tool function missing `name`")

/-- The tools that have a function. -/
def parseTools (value : Option Value) : Except ModelError (List ToolDef) :=
  match value with
  | some (.array items) => (items.filterMap (·.get "function")).mapM parseFunction
  | _ => .ok []

def parseToolChoice (value : Option Value) : Option ToolChoice :=
  match value with
  | some (.string s) =>
    match s with
    | "auto" => some .auto
    | "none" => some .none
    | "required" => some .required
    | _ => none
  | some (.object o) => ((Value.object o).textAt ["function", "name"]).map .named
  | _ => none

def parseStop (value : Option Value) : List String :=
  match value with
  | some (.string s) => [s]
  | some (.array arr) => arr.filterMap Value.asStr
  | _ => []

/-- The rung of the `reasoning_effort` field. -/
def effortOf (value : Value) : Option Thinking :=
  (value.textAt ["reasoning_effort"]).bind parseReasoningEffort

/-- The fields the parser takes out of the body. `max_tokens` is taken out only in the absence of
`max_completion_tokens`; an effort off the ladder goes back. -/
def modeled (value : Value) : List String :=
  ["model", "messages", "max_completion_tokens", "temperature", "top_p", "stop", "stream", "tools",
    "tool_choice"] ++
  (if (value.get "max_completion_tokens").isSome then [] else ["max_tokens"]) ++
  (if (effortOf value).isSome then ["reasoning_effort"] else [])

/-- **Read a chat-completions request.** -/
def parseChatRequest (value : Value) : Except ModelError ChatRequest :=
  match value with
  | .object obj =>
    match value.get "model" with
    | some (.string model) => do
      let messages ← parseMessages debug (value.get "messages")
      let tools ← parseTools (value.get "tools")
      return {
        model := model
        messages := messages
        maxTokens := (((value.get "max_completion_tokens").or (value.get "max_tokens")).bind
          Value.asU64).map (· % 2 ^ 32)
        temperature := (value.get "temperature").bind Value.asF32
        topP := (value.get "top_p").bind Value.asF32
        stop := parseStop (value.get "stop")
        stream := ((value.get "stream").bind Value.asBool).getD false
        tools := tools
        toolChoice := parseToolChoice (value.get "tool_choice")
        thinking := effortOf value
        extra := Map.without obj (modeled value) }
    | _ => .error (.mapping "`model` is required and must be a string")
  | _ => .error (.mapping "request body must be a JSON object")

end

end Llmleaf.Openai
