import Llmleaf.Compat.Anthropic.Reading
import Llmleaf.Compat.Openai.Request
import Llmleaf.Lib.Folds
import Llmleaf.Lib.Traverse

/-!
# Reading a Messages request

`parseMessagesRequest` maps the body of a Messages request into the canonical request. The system
text becomes a message of its own, the results of tools become tool messages in front of the user's
message that carried them, and the calls of an assistant leave its content.

- `readUserBlock`, `readAssistantBlock`: what a content block is.
- `ContentBlockOut.json`: a block of a rendered message, and `readAssistantBlock_json` what it is
  read as.
- **Result** (`message_replayed`): a rendered message is read back as the turn it renders.
-/

namespace Llmleaf.Anthropic

/-- The text of the system field. -/
def systemText (value : Value) : String :=
  match value with
  | .string s => s
  | .array parts => (parts.filterMap (·.textAt ["text"])).foldl
      (fun out text => (if out = "" then out else out ++ "\n\n") ++ text) ""
  | _ => ""

/-- The text of the content of a tool result. -/
def blockText (value : Value) : String :=
  match value with
  | .string s => s
  | .array parts => String.join (parts.filterMap (·.textAt ["text"]))
  | _ => ""

def parseCompaction (block : Value) : Except ModelError ContentPart :=
  match block.textAt ["content"] with
  | some content => .ok (.compaction none none (some content) none (block.textAt ["signature"]))
  | none => .error (.mapping "compaction block requires string `content`")

def userMessage (content : List ContentPart) : Message := ⟨.user, content, [], none, none⟩

section

-- the debug form of a text, and the compact text of a document
variable (debug : String → String) (toStr : Value → String)

/-- An image; inline data becomes a `data:` URL. -/
def imagePart (block : Value) : Except ModelError ContentPart :=
  match block.get "source" with
  | none => .error (.mapping "image block missing `source`")
  | some source =>
    match source.textAt ["type"] with
    | some "url" =>
      match source.textAt ["url"] with
      | some url => .ok (.imageUrl url none)
      | none => .error (.mapping "image url source missing `url`")
    | some "base64" =>
      match source.textAt ["data"] with
      | some data => .ok (.imageUrl ("data:" ++
          (source.textAt ["media_type"]).getD "application/octet-stream" ++ ";base64," ++ data) none)
      | none => .error (.mapping "image base64 source missing `data`")
    | other =>
      .error (.mapping ("unsupported image source " ++ Strings.debugOption debug other))

/-- A block of a user's message: a part of its content, or the result of a tool. -/
def readUserBlock (block : Value) : Except ModelError (ContentPart ⊕ Message) :=
  match block with
  | .object _ =>
    match block.textAt ["type"] with
    | some "text" => .ok (.inl (.text ((block.textAt ["text"]).getD "")))
    | some "image" => (imagePart debug block).map .inl
    | some "compaction" => (parseCompaction block).map .inl
    | some "tool_result" => .ok (.inr ⟨.tool, [.text (((block.get "content").map blockText).getD "")],
        [], some ((block.textAt ["tool_use_id"]).getD ""), none⟩)
    | other =>
      .error (.mapping ("unsupported user content block " ++ Strings.debugOption debug other))
  | _ => .error (.mapping "content block must be an object")

/-- The results of tools come first; the rest is one message, unless there is no rest. -/
def parseUserContent (content : Option Value) : Except ModelError (List Message) :=
  match content with
  | none | some .null => .ok [userMessage []]
  | some (.string text) => .ok [.ofText .user text]
  | some (.array blocks) => do
    let read ← blocks.mapM (readUserBlock debug)
    let parts := read.filterMap Sum.getLeft?
    let toolMsgs := read.filterMap Sum.getRight?
    return toolMsgs ++ if parts ≠ [] ∨ toolMsgs = [] then [userMessage parts] else []
  | some _ => .error (.mapping "message `content` must be a string, array, or null")

/-- A block of an assistant's message: a part of its content, or a call. -/
def readAssistantBlock (block : Value) : Except ModelError (ContentPart ⊕ ToolCall) :=
  match block with
  | .object _ =>
    match block.textAt ["type"] with
    | some "text" => .ok (.inl (.text ((block.textAt ["text"]).getD "")))
    | some "tool_use" => .ok (.inr ⟨(block.textAt ["id"]).getD "", (block.textAt ["name"]).getD "",
        ((block.get "input").map toStr).getD "\x7b\x7d"⟩)
    | some "thinking" => .ok (.inl (.thinking ((block.textAt ["thinking"]).getD "")
        (block.textAt ["signature"])))
    | some "redacted_thinking" => .ok (.inl (.redactedThinking ((block.textAt ["data"]).getD "")))
    | some "compaction" => (parseCompaction block).map .inl
    | other =>
      .error (.mapping ("unsupported assistant content block " ++ Strings.debugOption debug other))
  | _ => .error (.mapping "content block must be an object")

def parseAssistantMessage (content : Option Value) : Except ModelError Message :=
  match content with
  | none | some .null => .ok ⟨.assistant, [], [], none, none⟩
  | some (.string text) => .ok (.ofText .assistant text)
  | some (.array blocks) => do
    let read ← blocks.mapM (readAssistantBlock debug toStr)
    return ⟨.assistant, read.filterMap Sum.getLeft?, read.filterMap Sum.getRight?, none, none⟩
  | some _ => .error (.mapping "assistant `content` must be a string, array, or null")

/-- A message; a user's may be several canonical ones. -/
def parseMessage (value : Value) : Except ModelError (List Message) :=
  match value with
  | .object _ =>
    match value.get "role" with
    | some (.string role) =>
      match role with
      | "user" => parseUserContent debug (value.get "content")
      | "assistant" => (parseAssistantMessage debug toStr (value.get "content")).map ([·])
      | other => .error (.mapping ("unknown message role `" ++ other ++ "`"))
    | _ => .error (.mapping "message is missing `role`")
  | _ => .error (.mapping "each message must be an object")

def parseTool (t : Value) : Except ModelError ToolDef :=
  match t.textAt ["name"] with
  | some name => .ok ⟨name, t.textAt ["description"], (t.get "input_schema").getD .null⟩
  | none => .error (.mapping "tool missing `name`")

def parseTools (value : Option Value) : Except ModelError (List ToolDef) :=
  match value with
  | some (.array items) => items.mapM parseTool
  | _ => .ok []

def parseToolChoice (value : Option Value) : Option ToolChoice :=
  match value with
  | some (.object o) =>
    match (Value.object o).textAt ["type"] with
    | some "auto" => some .auto
    | some "any" => some .required
    | some "tool" => ((Value.object o).textAt ["name"]).map .named
    | some "none" => some .none
    | _ => none
  | _ => none

def parseStopSequences (value : Option Value) : List String :=
  match value with
  | some (.string s) => [s]
  | some (.array arr) => arr.filterMap Value.asStr
  | _ => []

/-- The message of the system text, unless the text is empty. -/
def systemMessage (value : Option Value) : List Message :=
  match value with
  | some system => if systemText system = "" then [] else [.ofText .system (systemText system)]
  | none => []

/-- The fields the parser takes out of the body. -/
def modeled : List String :=
  ["model", "max_tokens", "system", "messages", "temperature", "top_p", "stop_sequences", "stream",
    "tools", "tool_choice"]

/-- **Read a Messages request.** The thinking of the request is left to the extra fields. -/
def parseMessagesRequest (value : Value) : Except ModelError ChatRequest :=
  match value with
  | .object obj =>
    match value.get "model" with
    | some (.string model) =>
      match value.get "max_tokens" with
      | some maxTokens =>
        match maxTokens.asU64 with
        | some maxTokens =>
          match value.get "messages" with
          | some (.array convo) => do
            let messages ← convo.mapM (parseMessage debug toStr)
            let tools ← parseTools (value.get "tools")
            return {
              model := model
              messages := systemMessage (value.get "system") ++ messages.flatten
              maxTokens := some (maxTokens % 2 ^ 32)
              temperature := (value.get "temperature").bind Value.asF32
              topP := (value.get "top_p").bind Value.asF32
              stop := parseStopSequences (value.get "stop_sequences")
              stream := ((value.get "stream").bind Value.asBool).getD false
              tools := tools
              toolChoice := parseToolChoice (value.get "tool_choice")
              thinking := none
              extra := Map.without obj modeled }
          | _ => .error (.mapping "`messages` is required and must be an array")
        | none => .error (.mapping "`max_tokens` must be an integer")
      | none => .error (.mapping "`max_tokens` is required")
    | _ => .error (.mapping "`model` is required and must be a string")
  | _ => .error (.mapping "request body must be a JSON object")

end

/-! ## Replayed messages -/

/-- The document of a content block. -/
def ContentBlockOut.json : ContentBlockOut → Value
  | .text t => .build [("type", some (.string "text")), ("text", some (.string t))]
  | .thinking t signature => .build [("type", some (.string "thinking")),
      ("thinking", some (.string t)), ("signature", signature.map .string)]
  | .redactedThinking data =>
    .build [("type", some (.string "redacted_thinking")), ("data", some (.string data))]
  | .compaction content signature => .build [("type", some (.string "compaction")),
      ("content", some (.string content)), ("signature", signature.map .string)]
  | .toolUse id name input => .build [("type", some (.string "tool_use")),
      ("id", some (.string id)), ("name", some (.string name)), ("input", some input)]

/-- What a block of a rendered message says. -/
def ContentBlockOut.said (toStr : Value → String) : ContentBlockOut → ContentPart ⊕ ToolCall
  | .text t => .inl (.text t)
  | .thinking t signature => .inl (.thinking t signature)
  | .redactedThinking data => .inl (.redactedThinking data)
  | .compaction content signature => .inl (.compaction none none (some content) none signature)
  | .toolUse id name input => .inr ⟨id, name, toStr input⟩

variable {debug : String → String} {toStr : Value → String} {fromStr : String → Option Value}

/-- **A rendered block is read as what it says.** -/
theorem readAssistantBlock_json (block : ContentBlockOut) :
    readAssistantBlock debug toStr block.json = .ok (block.said toStr) := by
  cases block <;>
    simp [readAssistantBlock, ContentBlockOut.json, ContentBlockOut.said, Value.asStr,
      parseCompaction, Except.map]

theorem parse_rendered (blocks : List ContentBlockOut) :
    parseAssistantMessage debug toStr (some (.array (blocks.map ContentBlockOut.json))) =
      .ok ⟨.assistant, (blocks.map (·.said toStr)).filterMap Sum.getLeft?,
        (blocks.map (·.said toStr)).filterMap Sum.getRight?, none, none⟩ := by
  rw [parseAssistantMessage, Traverse.mapM_map fun block _ => readAssistantBlock_json block]
  rfl

/-- What a block of the dialect keeps of a part: of a compaction its content and signature. -/
def keptPart : ContentPart → ContentPart
  | .compaction _ _ content _ signature => .compaction none none content none signature
  | part => part

/-- A choice that a message renders in full: reasoning, compaction with its content, and calls whose
arguments are documents. -/
structure Renderable (fromStr : String → Option Value) (c : Choice) : Prop where
  thinking : ∀ p ∈ c.thinking, (∃ thinking signature, p = .thinking thinking signature) ∨
    ∃ data, p = .redactedThinking data
  compaction : ∀ p ∈ c.compaction, ∃ outputIndex id content encryptedContent signature,
    p = .compaction outputIndex id (some content) encryptedContent signature
  arguments : ∀ call ∈ c.toolCalls, (fromStr call.arguments).isSome

/-- What the blocks of a choice say, in their order. -/
theorem contentBlocks_said {c : Choice} (h : Renderable fromStr c) :
    (contentBlocks fromStr c).map (·.said toStr) =
      (c.thinking ++ c.compaction.map keptPart ++
        (if c.text = "" then [] else [ContentPart.text c.text])).map .inl ++
      (c.toolCalls.map fun call => (⟨call.id, call.name,
        toStr ((fromStr call.arguments).getD (.object []))⟩ : ToolCall)).map .inr := by
  rw [contentBlocks, List.map_append, List.map_append, List.map_append, List.map_append,
    List.map_append, List.map_map, List.map_map (l := c.toolCalls)]
  refine congrArg₂ (· ++ ·) (congrArg₂ (· ++ ·) (congrArg₂ (· ++ ·) ?_ ?_) ?_) rfl
  · rw [List.map_filterMap, List.filterMap_eq_map_iff_forall_eq_some]
    intro p hp
    rcases h.thinking p hp with ⟨t, signature, rfl⟩ | ⟨data, rfl⟩ <;> rfl
  · rw [List.map_filterMap, List.map_map, List.filterMap_eq_map_iff_forall_eq_some]
    intro p hp
    obtain ⟨outputIndex, id, content, encryptedContent, signature, rfl⟩ := h.compaction p hp
    rfl
  · split <;> rfl

/-- A message whose blocks say `parts`, then `calls`. -/
theorem parse_said {blocks : List ContentBlockOut} {parts : List ContentPart}
    {calls : List ToolCall}
    (h : blocks.map (·.said toStr) = parts.map .inl ++ calls.map .inr) :
    parseAssistantMessage debug toStr (some (.array (blocks.map ContentBlockOut.json))) =
      .ok ⟨.assistant, parts, calls, none, none⟩ := by
  rw [parse_rendered, h]
  simp [List.filterMap_append, List.filterMap_map, Function.comp_def]

/-- **A rendered message replays the turn.** Reasoning with its signatures, redacted blocks, the
content and signature of each compaction, and the text come back in their order; so do the calls,
whose arguments are the same documents wherever the text of a document is read as that document. -/
theorem message_replayed {resp : ChatResponse} {c : Choice} {id : String}
    (hc : resp.choices.head? = some c) (h : Renderable fromStr c)
    (hround : ∀ call ∈ c.toolCalls, ∀ value, fromStr call.arguments = some value →
      fromStr (toStr value) = some value) :
    ∃ m, parseAssistantMessage debug toStr (some (.array
        ((responseToAnthropic fromStr resp id).content.map ContentBlockOut.json))) = .ok m ∧
      m.role = .assistant ∧
      m.content =
        c.thinking ++ c.compaction.map keptPart ++ (if c.text = "" then [] else [.text c.text]) ∧
      List.Forall₂ (fun call sent => call.id = sent.id ∧ call.name = sent.name ∧
        fromStr call.arguments = fromStr sent.arguments) m.toolCalls c.toolCalls := by
  have hcontent : (responseToAnthropic fromStr resp id).content = contentBlocks fromStr c := by
    simp [responseToAnthropic, hc]
  refine ⟨_, by rw [hcontent, parse_said (contentBlocks_said h)], rfl, rfl, ?_⟩
  refine List.forall₂_map_left_iff.mpr (List.forall₂_same.mpr fun call hcall => ?_)
  obtain ⟨value, hvalue⟩ := Option.isSome_iff_exists.mp (h.arguments call hcall)
  refine ⟨rfl, rfl, ?_⟩
  rw [hvalue, Option.getD_some]
  exact hround call hcall value hvalue

/-- A signed turn with a redacted block, a compaction, text and a call. -/
theorem message_replayed_signed :
    let c : Choice := ⟨[], 0, "hi", [.thinking "t" (some "s"), .redactedThinking "r"],
      [.compaction none none (some "sum") none (some "s")], [⟨"c", "f", "\x7b\x7d"⟩], none⟩
    let fromStr := fun s => if s = "\x7b\x7d" then some (Value.object []) else none
    ∃ m, parseAssistantMessage id (fun _ => "\x7b\x7d") (some (.array
        ((responseToAnthropic fromStr ⟨"", "m", [c], .zero⟩ "id").content.map
          ContentBlockOut.json))) = .ok m ∧
      m.role = .assistant ∧
      m.content =
        c.thinking ++ c.compaction.map keptPart ++ (if c.text = "" then [] else [.text c.text]) ∧
      List.Forall₂ (fun call sent => call.id = sent.id ∧ call.name = sent.name ∧
        fromStr call.arguments = fromStr sent.arguments) m.toolCalls c.toolCalls :=
  message_replayed rfl
    ⟨by simp, by simp, by simp⟩
    (by simp)

/-- A compaction that came with an identifier loses it: a block of the dialect has none. -/
theorem compaction_id_dropped :
    ¬ ∀ (debug : String → String) (toStr : Value → String) (fromStr : String → Option Value)
      (resp : ChatResponse) (c : Choice) (id : String), resp.choices.head? = some c →
      Renderable fromStr c →
      ∃ m, parseAssistantMessage debug toStr (some (.array
          ((responseToAnthropic fromStr resp id).content.map ContentBlockOut.json))) = .ok m ∧
        m.content = c.thinking ++ c.compaction ++ (if c.text = "" then [] else [.text c.text]) := by
  intro h
  let c : Choice := ⟨[], 0, "", [], [.compaction (some 0) (some "cmp") (some "sum") none none], [],
    none⟩
  obtain ⟨m, hm, hcontent⟩ := h id (fun _ => "") (fun _ => none) ⟨"", "m", [c], .zero⟩ c "id" rfl
    ⟨by simp [c], by simp [c], by simp [c]⟩
  have hread : parseAssistantMessage id (fun _ => "") (some (.array
      ((responseToAnthropic (fun _ => none) ⟨"", "m", [c], .zero⟩ "id").content.map
        ContentBlockOut.json))) =
      .ok ⟨.assistant, [.compaction none none (some "sum") none none], [], none, none⟩ :=
    parse_said (by rfl)
  obtain rfl := Except.ok.inj (hread.symm.trans hm)
  exact absurd hcontent (by decide)

end Llmleaf.Anthropic
