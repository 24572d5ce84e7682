import Llmleaf.Providers.Brand
import Llmleaf.Providers.GeminiRequest
import Llmleaf.Providers.OpenAiCompat

/-!
# Writing a Messages request

`requestToAnthropic` maps a canonical request onto the body of the Messages interface: system
messages in a field of their own, results of tools as blocks of the user, reasoning as a budget or
as an effort after the generation of the model, and marks for the prompt cache.

- `promptCache`: the setting for the cache.
- `validateCompaction`: what the interface cannot replay.
- `requestToAnthropic_model`: the body names the model of the request.
-/

namespace Llmleaf.Anthropic

open Value

/-! ## The prompt cache -/

/-- How long a cached start of a prompt lives. -/
inductive CacheTtl where
  | fiveMinutes
  | oneHour
  deriving DecidableEq

namespace CacheTtl

def parse (raw : String) : CacheTtl := if Strings.trim raw = "1h" then oneHour else fiveMinutes

/-- The mark on a block. -/
def control : CacheTtl → Value
  | fiveMinutes => obj [("type", string "ephemeral")]
  | oneHour => obj [("type", string "ephemeral"), ("ttl", string "1h")]

end CacheTtl

def promptCache (cx : ProviderCx) : Option CacheTtl :=
  match cx.settings.get "prompt_cache" with
  | some (.bool true) => some .fiveMinutes
  | some (.string s) => some (.parse s)
  | some (.object o) => some ((((Map.get o "ttl").bind asStr).map CacheTtl.parse).getD .fiveMinutes)
  | _ => none

/-- Change the last element. -/
def modifyLast (f : Value → Value) (l : List Value) : List Value :=
  match l.getLast? with
  | none => l
  | some v => l.dropLast ++ [f v]

def markBlock (ttl : CacheTtl) : Value → Value
  | .object o => .object (Map.set o "cache_control" ttl.control)
  | v => v

/-- Mark the last block of the conversation. -/
def markLastMessage (ttl : CacheTtl) (messages : List Value) : List Value :=
  modifyLast (fun m => m.modifyAt ["content"] fun
    | .array blocks => .array (modifyLast (markBlock ttl) blocks)
    | v => v) messages

/-! ## Reasoning -/

/-- How a model takes extended thinking. -/
inductive ThinkingStyle where
  | budget
  /-- The generation after the first has one more rung. -/
  | adaptive (xhigh : Bool)
  deriving DecidableEq

/-- The style of a model, by the generation in its name. -/
def ThinkingStyle.forModel (model : String) : ThinkingStyle :=
  match Strings.afterFirst "claude-".toList model.toList with
  | none => .budget
  | some rest =>
    match (rest.takeWhile (· ≠ '@')).splitOn '-' with
    | family :: major :: parts =>
      if family = [] ∨ family.head?.any Char.isDigit then .budget
      else
        match Strings.parseUnsigned (2 ^ 32) major with
        | none => .budget
        | some major =>
          -- a longer number is a date
          let minor := (((parts.head?).filter fun p =>
            (Strings.bytes (String.ofList p)).length ≤ 2).bind
              (Strings.parseUnsigned (2 ^ 32))).getD 0
          if major < 4 ∨ major = 4 ∧ minor < 6 then .budget
          else if major = 4 ∧ minor = 6 then .adaptive false
          else .adaptive true
    | _ => .budget

def adaptiveEffort (t : Thinking) (xhigh : Bool) : String :=
  match t with
  | .low => "low"
  | .med => "medium"
  | .high => "high"
  | .highx => if xhigh then "xhigh" else "high"
  | .max => "max"

/-! ## Messages -/

/-- A content part; audio is refused before. -/
def contentBlock : ContentPart → Value
  | .text text => obj [("type", string "text"), ("text", string text)]
  | .imageUrl url _ => obj [("type", string "image"),
      ("source", obj [("type", string "url"), ("url", string url)])]
  | .inputAudio _ _ => null
  | .thinking thinking signature => build [("type", some (string "thinking")),
      ("thinking", some (string thinking)), ("signature", signature.map string)]
  | .redactedThinking data => obj [("type", string "redacted_thinking"), ("data", string data)]
  | .compaction _ _ content _ signature => build [("type", some (string "compaction")),
      ("content", some (ofOption content)), ("signature", signature.map string)]

section

-- the document of a text
variable (fromStr : String → Option Value)

def toolUse (call : ToolCall) : Value :=
  obj [("type", string "tool_use"), ("id", string call.id), ("name", string call.name),
    ("input", (fromStr call.arguments).getD (object []))]

def messageToAnthropic (msg : Message) : Value :=
  if msg.role = .tool then
    obj [("role", string "user"), ("content", array [obj [("type", string "tool_result"),
      ("tool_use_id", string (msg.toolCallId.getD "")),
      ("content", string (Responses.textContent msg))]])]
  else
    obj [("role", string (if msg.role = .assistant then "assistant" else "user")),
      ("content", array (msg.content.map contentBlock ++ msg.toolCalls.map (toolUse fromStr)))]

/-! ## The request -/

def defaultMaxTokens : ℕ := 4096

def toolToAnthropic (t : ToolDef) : Value :=
  obj [("name", string t.name), ("description", ofOption t.description),
    ("input_schema", t.parameters)]

def toolChoiceToAnthropic : ToolChoice → Value
  | .auto => obj [("type", string "auto")]
  | .none => obj [("type", string "none")]
  | .required => obj [("type", string "any")]
  | .named name => obj [("type", string "tool"), ("name", string name)]

/-- The system messages; a mark on them covers the tools too. -/
def systemValue (req : ChatRequest) (cache : Option CacheTtl) : Option Value :=
  if Gemini.systemText req = "" then none
  else
    match cache with
    | some ttl => some (array [obj [("type", string "text"),
        ("text", string (Gemini.systemText req)), ("cache_control", ttl.control)]])
    | none => some (string (Gemini.systemText req))

def messagesValue (req : ChatRequest) (cache : Option CacheTtl) : Value :=
  let messages := (req.messages.filter (·.role ≠ .system)).map (messageToAnthropic fromStr)
  array (match cache with
    | some ttl => markLastMessage ttl messages
    | none => messages)

def toolsValue (req : ChatRequest) (cache : Option CacheTtl) : Option Value :=
  if req.tools = [] then none
  else
    let tools := req.tools.map toolToAnthropic
    some (array (match cache with
      | some ttl => if Gemini.systemText req = "" then modifyLast (markBlock ttl) tools else tools
      | none => tools))

/-- Thinking counts toward the cap, so the cap is raised by its budget. -/
def maxTokensValue (req : ChatRequest) : Value :=
  let effectiveMax := req.maxTokens.getD defaultMaxTokens
  nat (match req.thinking with
    | some t => min (effectiveMax + Gemini.budgetTokens t) (2 ^ 32 - 1)
    | none => effectiveMax)

def thinkingValue (req : ChatRequest) (t : Thinking) : Value :=
  match ThinkingStyle.forModel req.model with
  | .adaptive _ => obj [("type", string "adaptive")]
  | .budget => obj [("type", string "enabled"), ("budget_tokens", nat (Gemini.budgetTokens t))]

def outputConfig (req : ChatRequest) (t : Thinking) : Option Value :=
  match ThinkingStyle.forModel req.model with
  | .adaptive xhigh => some (obj [("effort", string (adaptiveEffort t xhigh))])
  | .budget => none

def modeledFields (req : ChatRequest) (cache : Option CacheTtl) : Map :=
  Map.build [
    ("model", some (string req.model)),
    ("max_tokens", some (maxTokensValue req)),
    ("system", systemValue req cache),
    ("messages", some (messagesValue fromStr req cache)),
    -- with thinking the interface takes no sampling parameters
    ("temperature", if req.thinking = none then req.temperature.map ofF32 else none),
    ("top_p", if req.thinking = none then req.topP.map ofF32 else none),
    ("stop_sequences", if req.stop = [] then none else some (array (req.stop.map string))),
    ("tools", toolsValue req cache),
    ("tool_choice", req.toolChoice.map toolChoiceToAnthropic),
    ("thinking", req.thinking.map (thinkingValue req)),
    ("output_config", req.thinking.bind (outputConfig req))]

/-- Add a field of `extra`: one that is there stays, but the output configurations are merged. -/
def addExtra (body : Map) (e : String × Value) : Map :=
  match body.get e.1, e.2 with
  | some (.object ours), .object theirs =>
    if e.1 = "output_config" then
      body.set e.1 (.object (theirs.foldl (fun m f => Map.set m f.1 f.2) ours))
    else body
  | some _, _ => body
  | none, value => body.insert e.1 value

/-- **Write a Messages request.** -/
def requestToAnthropic (req : ChatRequest) (cache : Option CacheTtl) : Value :=
  object (req.extra.foldl addExtra (modeledFields fromStr req cache))

/-! ## What is refused -/

/-- The compactions of other providers, and two controls at once. -/
def validateCompaction (req : ChatRequest) : Except ModelError Unit :=
  if req.parts.any fun
      | .compaction _ _ _ encryptedContent _ => encryptedContent.isSome
      | _ => false
  then
    .error (.unsupported
      "Anthropic cannot replay an encrypted compaction block from another provider")
  else if (req.extra.get "compaction").isSome ∧ (req.extra.get "context_management").isSome then
    .error (.mapping "Anthropic compaction and context_management cannot be combined")
  else .ok ()

end

variable {fromStr : String → Option Value}

theorem get_addExtra {body : Map} {key : String} {value : Value} (hkey : key ≠ "output_config")
    (h : body.get key = some value) (e : String × Value) :
    (addExtra body e).get key = some value := by
  unfold addExtra
  split
  · split
    · rename_i _ _ _ _ ho
      rw [Map.get_set, if_neg (ho ▸ Ne.symm hkey), h]
    · exact h
  · exact h
  · rename_i hnone
    rw [Map.get_insert]
    split
    · rename_i heq
      rw [heq, h] at hnone
      cases hnone
    · exact h

/-- The fields of `extra` leave the others. -/
theorem get_foldl_addExtra {key : String} {value : Value} (hkey : key ≠ "output_config")
    (extra : Map) {body : Map} (h : body.get key = some value) :
    (extra.foldl addExtra body).get key = some value := by
  induction extra generalizing body with
  | nil => exact h
  | cons e extra ih => exact ih (get_addExtra hkey h e)

/-- The body names the model of the request. -/
theorem requestToAnthropic_model (req : ChatRequest) (cache : Option CacheTtl) :
    (requestToAnthropic fromStr req cache).textAt ["model"] = some req.model := by
  have hmodel : (modeledFields fromStr req cache).get "model" = some (string req.model) := by
    simp [modeledFields]
  rw [requestToAnthropic, textAt_object, get_foldl_addExtra (by decide) _ hmodel]
  rfl

end Llmleaf.Anthropic
