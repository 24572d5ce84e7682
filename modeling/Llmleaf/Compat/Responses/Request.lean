import Llmleaf.Compat.Openai.Request
import Llmleaf.Compat.Responses

/-!
# Reading a Responses request

`parseResponsesRequest` maps the body of a Responses request into the canonical request. The input
is a list of typed items: reasoning is held back and put in front of the next item of the
assistant, a function call joins the assistant message before it.

- `readItem`: what an item says.
- `Inputs`: the messages so far with the reasoning held back, and `Inputs.take` for one item.
-/

namespace Llmleaf.Responses

/-- A text field, empty where there is none. -/
def strField (item : Value) (key : String) : String := (item.textAt [key]).getD ""

def parseInputRole (role : String) : Except ModelError Role :=
  match role with
  | "user" => .ok .user
  | "system" | "developer" => .ok .system
  | "assistant" => .ok .assistant
  | other => .error (.mapping ("unknown `input` message role `" ++ other ++ "`"))

section

-- the debug form of a text
variable (debug : String → String)

/-- A content part; a refusal has none. -/
def parseInputContentPart (value : Value) : Except ModelError (Option ContentPart) :=
  match value with
  | .object _ =>
    match value.textAt ["type"] with
    | some "input_text" | some "output_text" | some "text" =>
      .ok (some (.text (strField value "text")))
    | some "input_image" =>
      match value.textAt ["image_url"] with
      | some url => .ok (some (.imageUrl url (value.textAt ["detail"])))
      | none => .error (.mapping ("unsupported `input` content part \"input_image\" without an " ++
          "inline `image_url` (a file_id-only image references stored bytes llmleaf does not hold)"))
    | some "refusal" => .ok none
    | some "input_file" =>
      .error (.mapping ("unsupported `input` content part type " ++ debug "input_file"))
    | some "input_audio" =>
      .error (.mapping ("unsupported `input` content part type " ++ debug "input_audio"))
    | other => .error (.mapping
        ("unsupported `input` content part type " ++ Strings.debugOption debug other))
  | _ => .error (.mapping "content part must be an object")

def parseInputContent (value : Option Value) : Except ModelError (List ContentPart) :=
  match value with
  | none | some .null => .ok []
  | some (.string text) => .ok [.text text]
  | some (.array parts) => (parts.mapM (parseInputContentPart debug)).map List.reduceOption
  | some _ => .error (.mapping "`content` must be a string, array, or null")

/-- The text of the output of a function call. -/
def functionOutputText (value : Option Value) : String :=
  match value with
  | some (.string s) => s
  | some (.array parts) => String.join (parts.filterMap (·.textAt ["text"]))
  | _ => ""

/-- The texts of a list of reasoning entries, as unsigned parts. -/
def reasoningEntries (item : Value) (key : String) : List ContentPart :=
  ((item.itemsAt [key]).filterMap (·.textAt ["text"])).map (.thinking · none)

/-- Sign the last part. -/
def signLast (parts : List ContentPart) (signature : Option String) : List ContentPart :=
  match parts.getLast?, signature with
  | some (.thinking thinking _), some signature =>
    parts.dropLast ++ [.thinking thinking (some signature)]
  | _, _ => parts

/-- The parts of a reasoning item: summary, content, then the encrypted block. -/
def collectReasoning (item : Value) : List ContentPart :=
  signLast (reasoningEntries item "summary" ++ reasoningEntries item "content")
    (item.textAt ["signature"]) ++
  ((item.textAt ["encrypted_content"]).map .redactedThinking).toList

/-- Reasoning leads the message it is attached to. -/
def prependPending (pending : List ContentPart) (msg : Message) : Message :=
  { msg with content := pending ++ msg.content }

/-- What an input item says. -/
inductive InputItem where
  | message (role : Role) (content : List ContentPart)
  | call (call : ToolCall)
  | output (callId text : String)
  | reasoning (parts : List ContentPart)
  | compaction (id content encryptedContent signature : Option String)
  deriving DecidableEq

def readItem (item : Value) : Except ModelError InputItem :=
  match item with
  | .object _ =>
    match item.textAt ["type"] with
    | none | some "message" =>
      match item.textAt ["role"] with
      | some roleStr => do
        let role ← parseInputRole roleStr
        let content ← parseInputContent debug (item.get "content")
        return .message role content
      | none => .error (.mapping "`input` message item is missing `role`")
    | some "function_call" =>
      .ok (.call ⟨strField item "call_id", strField item "name", strField item "arguments"⟩)
    | some "function_call_output" =>
      .ok (.output (strField item "call_id") (functionOutputText (item.get "output")))
    | some "reasoning" => .ok (.reasoning (collectReasoning item))
    | some "compaction" =>
      let encryptedContent := item.textAt ["encrypted_content"]
      let content := item.textAt ["content"]
      if encryptedContent.isNone ∧ content.isNone then
        .error (.mapping "`compaction` input item requires `encrypted_content` or `content`")
      else .ok (.compaction (item.textAt ["id"]) content encryptedContent
        (item.textAt ["signature"]))
    | some "item_reference" => .error (.mapping ("`item_reference` input items cannot be " ++
        "resolved: llmleaf is stateless and stores no prior response items"))
    | some other => .error (.mapping ("unsupported `input` item type " ++ debug other))
  | _ => .error (.mapping "each `input` array item must be an object")

/-- The messages so far, and the reasoning that is held back. -/
structure Inputs where
  out : List Message
  pending : List ContentPart
  deriving DecidableEq

namespace Inputs

/-- A message of the assistant's. -/
def turn (content : List ContentPart) (calls : List ToolCall) : Message :=
  ⟨.assistant, content, calls, none, none⟩

/-- Give the reasoning that is held back a message of its own. -/
def flush (st : Inputs) : Inputs where
  out := if st.pending = [] then st.out else st.out ++ [turn st.pending []]
  pending := []

/-- Take in one item. A call joins an assistant's message right before it; reasoning does not move
across a compaction. -/
def take (st : Inputs) : InputItem → Inputs
  | .message .assistant content => ⟨st.out ++ [prependPending st.pending (turn content [])], []⟩
  | .message role content => { st with out := st.out ++ [⟨role, content, [], none, none⟩] }
  | .call call =>
    match st.out.getLast? with
    | some ⟨.assistant, content, calls, callId, name⟩ =>
      ⟨st.out.dropLast ++
        [prependPending st.pending ⟨.assistant, content, calls ++ [call], callId, name⟩], []⟩
    | _ => ⟨st.out ++ [prependPending st.pending (turn [] [call])], []⟩
  | .output callId text =>
    { st with out := st.out ++ [⟨.tool, [.text text], [], some callId, none⟩] }
  | .reasoning parts => { st with pending := st.pending ++ parts }
  | .compaction id content encryptedContent signature =>
    { st.flush with
      out := st.flush.out ++ [turn [.compaction none id content encryptedContent signature] []] }

end Inputs

/-- The items of an input array, after the messages `out`. -/
def parseInputArray (items : List Value) (out : List Message) :
    Except ModelError (List Message) :=
  (items.mapM (readItem debug)).map fun items => (items.foldl Inputs.take ⟨out, []⟩).flush.out

/-- The input: a text, or a list of items. -/
def parseInput (value : Option Value) (out : List Message) : Except ModelError (List Message) :=
  match value with
  | none | some .null => .ok out
  | some (.string text) => .ok (out ++ [.ofText .user text])
  | some (.array items) => parseInputArray debug items out
  | some _ => .error (.mapping "`input` must be a string or an array of items")

def parseTool (t : Value) : Except ModelError ToolDef :=
  match t with
  | .object _ =>
    if t.textAt ["type"] = none ∨ t.textAt ["type"] = some "function" then
      match t.textAt ["name"] with
      | some name => .ok ⟨name, t.textAt ["description"], (t.get "parameters").getD .null⟩
      | none => .error (.mapping "function tool missing `name`")
    else .error (.mapping ("unsupported tool type " ++ debug ((t.textAt ["type"]).getD "") ++
      ": llmleaf cannot execute hosted tools"))
  | _ => .error (.mapping "each tool must be an object")

def parseTools (value : Option Value) : Except ModelError (List ToolDef) :=
  match value with
  | some (.array items) => items.mapM (parseTool debug)
  | _ => .ok []

def parseToolChoice (value : Option Value) : Except ModelError (Option ToolChoice) :=
  match value with
  | some (.string s) =>
    match s with
    | "auto" => .ok (some .auto)
    | "none" => .ok (some .none)
    | "required" => .ok (some .required)
    | _ => .ok none
  | some (.object o) =>
    match (Value.object o).textAt ["type"] with
    | some "function" => .ok (((Value.object o).textAt ["name"]).map .named)
    | some other => .error (.mapping ("unsupported tool_choice type " ++ debug other ++
        ": hosted-tool choices are not executable by the gateway"))
    | none => .ok none
  | _ => .ok none

/-- The rung of a `reasoning` object that has nothing but an effort on the ladder. -/
def effortOf (reasoning : Option Value) : Option Thinking :=
  match reasoning with
  | some (.object [(key, effort)]) =>
    if key = "effort" then effort.asStr.bind Openai.parseReasoningEffort else none
  | _ => none

/-- The fields the parser takes out of the body; `reasoning` off the ladder goes back. -/
def modeled (value : Value) : List String :=
  ["model", "background", "instructions", "input", "max_output_tokens", "temperature", "top_p",
    "stream", "tools", "tool_choice"] ++
  (if (effortOf (value.get "reasoning")).isSome then ["reasoning"] else [])

/-- The system message of the instructions. -/
def instructions (value : Value) : List Message :=
  match value.get "instructions" with
  | some (.string instr) => if instr = "" then [] else [.ofText .system instr]
  | _ => []

/-- **Read a Responses request.** -/
def parseResponsesRequest (value : Value) : Except ModelError ChatRequest :=
  match value with
  | .object obj =>
    match value.get "model" with
    | some (.string model) =>
      if (value.get "previous_response_id").any fun v => v ≠ .null ∧ v.asStr.isNone then
        .error (.mapping "`previous_response_id` must be a string or null")
      else if (value.get "background").bind Value.asBool = some true then
        .error (.mapping ("`background: true` is not supported: llmleaf does not store responses " ++
          "for later retrieval"))
      else do
        let messages ← parseInput debug (value.get "input") (instructions value)
        let tools ← parseTools debug (value.get "tools")
        let toolChoice ← parseToolChoice debug (value.get "tool_choice")
        if (value.get "store").any fun v => v.asBool.isNone then
          .error (.mapping "`store` must be a boolean")
        else return {
          model := model
          messages := messages
          maxTokens := ((value.get "max_output_tokens").bind Value.asU64).map (· % 2 ^ 32)
          temperature := (value.get "temperature").bind Value.asF32
          topP := (value.get "top_p").bind Value.asF32
          stop := []
          stream := ((value.get "stream").bind Value.asBool).getD false
          tools := tools
          toolChoice := toolChoice
          thinking := effortOf (value.get "reasoning")
          extra := Map.without obj (modeled value) }
    | _ => .error (.mapping "`model` is required and must be a string")
  | _ => .error (.mapping "request body must be a JSON object")

/-- What the parser makes of a body whose parts it accepts. -/
theorem parseResponsesRequest_eq {obj : Map} {model : String} {messages : List Message}
    {tools : List ToolDef} {toolChoice : Option ToolChoice}
    (hmodel : (Value.object obj).get "model" = some (.string model))
    (hprevious : ((Value.object obj).get "previous_response_id").any
      (fun v => v ≠ .null ∧ v.asStr.isNone) = false)
    (hbackground : ((Value.object obj).get "background").bind Value.asBool ≠ some true)
    (hinput : parseInput debug ((Value.object obj).get "input") (instructions (.object obj)) =
      .ok messages)
    (htools : parseTools debug ((Value.object obj).get "tools") = .ok tools)
    (hchoice : parseToolChoice debug ((Value.object obj).get "tool_choice") = .ok toolChoice)
    (hstore : ((Value.object obj).get "store").any (fun v => v.asBool.isNone) = false) :
    parseResponsesRequest debug (.object obj) = .ok {
      model := model
      messages := messages
      maxTokens := (((Value.object obj).get "max_output_tokens").bind Value.asU64).map (· % 2 ^ 32)
      temperature := ((Value.object obj).get "temperature").bind Value.asF32
      topP := ((Value.object obj).get "top_p").bind Value.asF32
      stop := []
      stream := (((Value.object obj).get "stream").bind Value.asBool).getD false
      tools := tools
      toolChoice := toolChoice
      thinking := effortOf ((Value.object obj).get "reasoning")
      extra := Map.without obj (modeled (.object obj)) } := by
  unfold parseResponsesRequest
  simp only [hmodel, hprevious, hbackground, hinput, htools, hchoice, hstore, if_false,
    Bool.false_eq_true]
  rfl

end

end Llmleaf.Responses
