import Llmleaf.Compat.Anthropic.Request
import Llmleaf.Compat.Responses.Request
import Llmleaf.Providers.ResponsesRequest

/-!
# Writing a `generateContent` request

`requestToGemini` maps a canonical request onto the body that Gemini and Vertex share. The upstream
pairs the result of a function with its call by the name of the function, the canonical request by
the identifier of the call: the mapper takes the name a tool message carries.

- `answered`: the call that a tool message answers.
- **Result** (`paired_iff`): the results carry the names of their calls exactly if the consumer wrote
  them there, which only one of the edges reads.
-/

namespace Llmleaf.Gemini

open Value

/-- The token budget of a rung. -/
def budgetTokens : Thinking → ℕ
  | .low => 1024
  | .med => 4096
  | .high => 8192
  | .highx => 16384
  | .max => 32768

/-- The type of an audio format. -/
def audioMimeType (format : String) : Option String :=
  match format.toLower with
  | "wav" => some "audio/wav"
  | "mp3" => some "audio/mp3"
  | "aiff" => some "audio/aiff"
  | "aac" => some "audio/aac"
  | "ogg" => some "audio/ogg"
  | "flac" => some "audio/flac"
  | _ => none

/-- A content part, if the dialect has one for it. The mapper panics on audio without a type, which
a check before it excludes. -/
def contentPart : ContentPart → Except String (List Value)
  | .text text => .ok [obj [("text", string text)]]
  | .imageUrl url _ => .ok [obj [("fileData", obj [("fileUri", string url)])]]
  | .inputAudio data format =>
    match audioMimeType format with
    | some mimeType =>
      .ok [obj [("inlineData", obj [("mimeType", string mimeType), ("data", string data)])]]
    | none => .error "audio format preflighted before Gemini request mapping"
  | .thinking _ _ | .redactedThinking _ | .compaction _ _ _ _ _ => .ok []

/-- The result of a function. -/
def functionResponse (msg : Message) : Value :=
  obj [("role", string "user"), ("parts", array [obj [("functionResponse", obj [
    ("name", string (msg.name.getD "")),
    ("response", obj [("content", string (Responses.textContent msg))])])]])]

section

-- the document of a text
variable (fromStr : String → Option Value)

def functionCall (call : ToolCall) : Value :=
  obj [("functionCall", obj [("name", string call.name),
    ("args", (fromStr call.arguments).getD (object []))])]

def messageToGemini (msg : Message) : Except String Value :=
  if msg.role = .tool then .ok (functionResponse msg)
  else do
    let parts ← msg.content.mapM contentPart
    return obj [("role", string (if msg.role = .assistant then "model" else "user")),
      ("parts", array (parts.flatten ++ msg.toolCalls.map (functionCall fromStr)))]

def toolToGemini (t : ToolDef) : Value :=
  obj [("name", string t.name), ("description", ofOption t.description), ("parameters", t.parameters)]

def toolChoiceToGemini : ToolChoice → Value
  | .auto => obj [("mode", string "AUTO")]
  | .none => obj [("mode", string "NONE")]
  | .required => obj [("mode", string "ANY")]
  | .named name => obj [("mode", string "ANY"), ("allowedFunctionNames", array [string name])]

/-- The text of the system messages. -/
def systemText (req : ChatRequest) : String :=
  "\n\n".intercalate ((req.messages.filter (·.role = .system)).map Responses.textContent)

def generationConfig (req : ChatRequest) : Map :=
  Map.build [
    ("maxOutputTokens", req.maxTokens.map nat),
    ("temperature", req.temperature.map ofF32),
    ("topP", req.topP.map ofF32),
    ("stopSequences", if req.stop = [] then none else some (array (req.stop.map string))),
    ("thinkingConfig", req.thinking.map fun t => obj [("thinkingBudget", nat (budgetTokens t))])]

/-- **Write a `generateContent` request**, unless the mapper panics. -/
def requestToGemini (req : ChatRequest) : Except String Value := do
  let contents ← (req.messages.filter (·.role ≠ .system)).mapM (messageToGemini fromStr)
  let body := Map.build [
    ("systemInstruction", if systemText req = "" then none
      else some (obj [("parts", array [obj [("text", string (systemText req))]])])),
    ("contents", some (array contents)),
    ("generationConfig", if generationConfig req = [] then none
      else some (object (generationConfig req))),
    ("tools", if req.tools = [] then none
      else some (array [obj [("functionDeclarations", array (req.tools.map toolToGemini))]])),
    ("toolConfig", req.toolChoice.map fun tc =>
      obj [("functionCallingConfig", toolChoiceToGemini tc)])]
  return object (body.orInsertAll req.extra)

end

/-! ## The calls that results answer -/

/-- The call that a result answers: the last one of its identifier before it. -/
def answered (before : List Message) (id : String) : Option ToolCall :=
  ((before.filter (·.role = .assistant)).flatMap Message.toolCalls).reverse.find? (·.id = id)

/-- The name under which the result at a place of the contents is sent. -/
def responseName (wire : Value) (k : ℕ) : Option String :=
  ((wire.itemsAt ["contents"])[k]?.bind fun content => (content.itemsAt ["parts"]).head?).bind
    (·.textAt ["functionResponse", "name"])

/-- A tool message of the request, the messages before it, and the call it answers. -/
structure Answer (req : ChatRequest) (before : List Message) (msg : Message) (call : ToolCall) :
    Prop where
  split : ∃ after, req.messages = before ++ msg :: after
  role : msg.role = .tool
  call : ∃ id, msg.toolCallId = some id ∧ answered before id = some call

/-- Every result is sent under the name of the function whose call it answers. -/
def Paired (req : ChatRequest) (wire : Value) : Prop :=
  ∀ before msg call, Answer req before msg call →
    responseName wire (before.filter (·.role ≠ .system)).length = some call.name

variable {fromStr : String → Option Value}

/-- The contents are the messages that are not the system's. -/
theorem requestToGemini_contents {req : ChatRequest} {wire : Value}
    (h : requestToGemini fromStr req = .ok wire) :
    ∃ contents, (req.messages.filter (·.role ≠ .system)).mapM (messageToGemini fromStr) = .ok contents ∧
      wire.itemsAt ["contents"] = contents := by
  unfold requestToGemini at h
  cases hc : (req.messages.filter (·.role ≠ .system)).mapM (messageToGemini fromStr) with
  | error e =>
    simp only [hc, bind, Except.bind] at h
    cases h
  | ok contents =>
    simp only [hc, bind, Except.bind, pure, Except.pure] at h
    refine ⟨contents, rfl, ?_⟩
    rw [← Except.ok.inj h]
    simp [Map.get_orInsertAll, Value.asArray]

theorem responseName_functionResponse (msg : Message) :
    ((functionResponse msg).itemsAt ["parts"]).head?.bind (·.textAt ["functionResponse", "name"]) =
      some (msg.name.getD "") := by
  simp [functionResponse, Value.itemsAt, Value.textAt, Value.path_cons, Value.get_obj, Value.asArray,
    Value.asStr]

/-- **A result is sent under the name that its message carries.** -/
theorem responseName_eq {req : ChatRequest} {wire : Value}
    (h : requestToGemini fromStr req = .ok wire) {before : List Message} {msg : Message}
    {call : ToolCall} (ha : Answer req before msg call) :
    responseName wire (before.filter (·.role ≠ .system)).length = some (msg.name.getD "") := by
  obtain ⟨contents, hcontents, hwire⟩ := requestToGemini_contents h
  obtain ⟨after, hsplit⟩ := ha.split
  have hplace : (req.messages.filter (·.role ≠ .system))[(before.filter (·.role ≠ .system)).length]? =
      some msg := by
    rw [hsplit, List.filter_append, List.filter_cons_of_pos (by simp [ha.role])]
    simp
  obtain ⟨content, hget, hmap⟩ := Traverse.getElem?_of_mapM hcontents hplace
  rw [messageToGemini, if_pos ha.role] at hmap
  rw [responseName, hwire, hget, Option.bind_some, ← Except.ok.inj hmap]
  exact responseName_functionResponse msg

/-! ## The edges -/

/-- An edge that consumers speak to. -/
inductive Edge where
  | chat
  | messages
  | responses
  deriving DecidableEq

/-- The request that an edge reads from a body. -/
def Edge.parse (debug : String → String) (toStr : Value → String) :
    Edge → Value → Except ModelError ChatRequest
  | .chat => Openai.parseChatRequest debug
  | .messages => Anthropic.parseMessagesRequest debug toStr
  | .responses => Responses.parseResponsesRequest debug

variable {debug : String → String} {toStr : Value → String}

/-- No message carries a name. -/
def Nameless (messages : List Message) : Prop := ∀ m ∈ messages, m.name = none

theorem Nameless.append {a b : List Message} (ha : Nameless a) (hb : Nameless b) : Nameless (a ++ b) :=
  fun m hm => (List.mem_append.mp hm).elim (ha m) (hb m)

theorem parseMessage_name {value : Value} {msg : Message}
    (h : Openai.parseMessage debug value = .ok msg) : msg.name = value.textAt ["name"] := by
  unfold Openai.parseMessage at h
  split at h
  · split at h
    · obtain ⟨role, -, h⟩ := Traverse.bind_ok h
      obtain ⟨content, -, h⟩ := Traverse.bind_ok h
      obtain ⟨compaction, -, h⟩ := Traverse.bind_ok h
      rw [← Except.ok.inj h]
    · cases h
  · cases h

/-- The messages of the chat edge carry the names of the body. -/
theorem Edge.chat_name {body : Value} {req : ChatRequest}
    (h : Edge.chat.parse debug toStr body = .ok req) {k : ℕ} {msg : Message}
    (hmsg : req.messages[k]? = some msg) :
    msg.name = (body.itemsAt ["messages"])[k]?.bind (·.textAt ["name"]) := by
  unfold Edge.parse Openai.parseChatRequest at h
  dsimp only at h
  split at h
  · rename_i obj
    split at h
    · obtain ⟨messages, hmessages, h⟩ := Traverse.bind_ok h
      obtain ⟨tools, -, h⟩ := Traverse.bind_ok h
      rw [← Except.ok.inj h] at hmsg
      unfold Openai.parseMessages at hmessages
      split at hmessages
      · rename_i items hitems
        obtain ⟨value, hvalue, hread⟩ := Traverse.source_of_mapM hmessages hmsg
        rw [Value.itemsAt, Value.path_one, hitems, Option.bind_some, Value.asArray, Option.getD_some,
          hvalue, Option.bind_some]
        exact parseMessage_name hread
      · cases hmessages
    · cases h
  · cases h

theorem readUserBlock_name {value : Value} {msg : Message}
    (h : Anthropic.readUserBlock debug value = .ok (.inr msg)) : msg.name = none := by
  unfold Anthropic.readUserBlock at h
  split at h
  · split at h
    · cases h
    · obtain ⟨part, -, h⟩ := Traverse.map_ok h
      cases h
    · obtain ⟨part, -, h⟩ := Traverse.map_ok h
      cases h
    · rw [← Sum.inr.inj (Except.ok.inj h)]
    · cases h
  · cases h

theorem parseUserContent_nameless {content : Option Value} {messages : List Message}
    (h : Anthropic.parseUserContent debug content = .ok messages) : Nameless messages := by
  unfold Anthropic.parseUserContent at h
  split at h
  · rw [← Except.ok.inj h]
    simp [Nameless, Anthropic.userMessage]
  · rw [← Except.ok.inj h]
    simp [Nameless, Anthropic.userMessage]
  · rw [← Except.ok.inj h]
    simp [Nameless, Message.ofText]
  · obtain ⟨read, hread, h⟩ := Traverse.bind_ok h
    rw [← Except.ok.inj h]
    refine Nameless.append (fun m hm => ?_) ?_
    · obtain ⟨block, hblock, hm⟩ := List.mem_filterMap.mp hm
      obtain ⟨value, -, hvalue⟩ := Traverse.exists_of_mem hread hblock
      cases block with
      | inl part => cases hm
      | inr m' =>
        cases hm
        exact readUserBlock_name hvalue
    · split <;> simp [Nameless, Anthropic.userMessage]
  · cases h

theorem parseAssistantMessage_name {content : Option Value} {msg : Message}
    (h : Anthropic.parseAssistantMessage debug toStr content = .ok msg) : msg.name = none := by
  unfold Anthropic.parseAssistantMessage at h
  split at h
  · rw [← Except.ok.inj h]
  · rw [← Except.ok.inj h]
  · rw [← Except.ok.inj h]
    rfl
  · obtain ⟨read, -, h⟩ := Traverse.bind_ok h
    rw [← Except.ok.inj h]
  · cases h

theorem parseMessage_nameless {value : Value} {messages : List Message}
    (h : Anthropic.parseMessage debug toStr value = .ok messages) : Nameless messages := by
  unfold Anthropic.parseMessage at h
  split at h
  · split at h
    · split at h
      · exact parseUserContent_nameless h
      · obtain ⟨msg, hmsg, rfl⟩ := Traverse.map_ok h
        exact List.forall_mem_singleton.mpr (parseAssistantMessage_name hmsg)
      · cases h
    · cases h
  · cases h

/-- **No message of the Messages edge carries a name.** -/
theorem Edge.messages_nameless {body : Value} {req : ChatRequest}
    (h : Edge.messages.parse debug toStr body = .ok req) : Nameless req.messages := by
  unfold Edge.parse Anthropic.parseMessagesRequest at h
  dsimp only at h
  split at h
  · split at h
    · split at h
      · split at h
        · split at h
          · obtain ⟨messages, hmessages, h⟩ := Traverse.bind_ok h
            obtain ⟨tools, -, h⟩ := Traverse.bind_ok h
            rw [← Except.ok.inj h]
            refine Nameless.append ?_ fun m hm => ?_
            · unfold Anthropic.systemMessage
              split
              · split <;> simp [Nameless, Message.ofText]
              · simp [Nameless]
            · obtain ⟨read, hread, hm⟩ := List.mem_flatten.mp hm
              obtain ⟨value, -, hvalue⟩ := Traverse.exists_of_mem hmessages hread
              exact parseMessage_nameless hvalue m hm
          · cases h
        · cases h
      · cases h
    · cases h
  · cases h

section Inputs

open Responses

theorem flush_nameless {st : Inputs} (h : Nameless st.out) : Nameless st.flush.out := by
  unfold Inputs.flush
  split
  · exact h
  · exact h.append (by simp [Nameless, Inputs.turn])

theorem take_nameless {st : Inputs} (h : Nameless st.out) (item : InputItem) :
    Nameless (st.take item).out := by
  unfold Inputs.take
  split
  · exact h.append (by simp [Nameless, prependPending, Inputs.turn])
  · exact h.append (by simp [Nameless])
  · split
    · rename_i hlast
      have hname := h _ (List.mem_of_getLast? hlast)
      refine Nameless.append (fun m hm => h m (List.mem_of_mem_dropLast hm)) ?_
      exact List.forall_mem_singleton.mpr hname
    · exact h.append (by simp [Nameless, prependPending, Inputs.turn])
  · exact h.append (by simp [Nameless])
  · exact h
  · exact (flush_nameless h).append (by simp [Nameless, Inputs.turn])

theorem parseInput_nameless {input : Option Value} {out messages : List Message} (hout : Nameless out)
    (h : parseInput debug input out = .ok messages) : Nameless messages := by
  unfold parseInput at h
  split at h
  · exact Except.ok.inj h ▸ hout
  · exact Except.ok.inj h ▸ hout
  · rw [← Except.ok.inj h]
    exact hout.append (by simp [Nameless, Message.ofText])
  · rename_i items
    unfold parseInputArray at h
    obtain ⟨read, -, rfl⟩ := Traverse.map_ok h
    have hrun (st : Inputs) (hst : Nameless st.out) : Nameless (read.foldl Inputs.take st).out := by
      clear h
      induction read generalizing st with
      | nil => exact hst
      | cons item read ih => exact ih _ (take_nameless hst item)
    exact flush_nameless (hrun _ hout)
  · cases h

/-- **No message of the Responses edge carries a name.** -/
theorem Edge.responses_nameless {body : Value} {req : ChatRequest}
    (h : Edge.responses.parse debug toStr body = .ok req) : Nameless req.messages := by
  unfold Edge.parse parseResponsesRequest at h
  dsimp only at h
  split at h
  · split at h
    · split at h
      · cases h
      · split at h
        · cases h
        · obtain ⟨messages, hmessages, h⟩ := Traverse.bind_ok h
          obtain ⟨tools, -, h⟩ := Traverse.bind_ok h
          obtain ⟨toolChoice, -, h⟩ := Traverse.bind_ok h
          split at h
          · cases h
          · rw [← Except.ok.inj h]
            refine parseInput_nameless ?_ hmessages
            unfold instructions
            split
            · split <;> simp [Nameless, Message.ofText]
            · simp [Nameless]
    · cases h
  · cases h

end Inputs

/-- The name that the consumer gave to the result at a place; one edge reads it. -/
def givenName (edge : Edge) (body : Value) (k : ℕ) : String :=
  match edge with
  | .chat => ((body.itemsAt ["messages"])[k]?.bind (·.textAt ["name"])).getD ""
  | .messages | .responses => ""

/-- **When results reach the calls they answer.** -/
theorem paired_iff {edge : Edge} {body wire : Value} {req : ChatRequest}
    (hparse : edge.parse debug toStr body = .ok req)
    (hwire : requestToGemini fromStr req = .ok wire) :
    Paired req wire ↔
      ∀ before msg call, Answer req before msg call →
        givenName edge body before.length = call.name := by
  have hname {before : List Message} {msg : Message} {call : ToolCall}
      (ha : Answer req before msg call) : msg.name.getD "" = givenName edge body before.length := by
    obtain ⟨after, hsplit⟩ := ha.split
    have hmsg : msg ∈ req.messages := by simp [hsplit]
    cases edge with
    | chat => rw [Edge.chat_name hparse (k := before.length) (by simp [hsplit])]; rfl
    | messages => rw [Edge.messages_nameless hparse msg hmsg]; rfl
    | responses => rw [Edge.responses_nameless hparse msg hmsg]; rfl
  refine forall₃_congr fun before msg call => forall_congr' fun ha => ?_
  rw [responseName_eq hwire ha, hname ha, Option.some_inj]

/-- A conversation of the Messages edge in which a tool answers. -/
def toolConversation : Value :=
  .obj [("model", string "gemini"), ("max_tokens", nat 1), ("messages", array [
    obj [("role", string "assistant"), ("content", array [obj [("type", string "tool_use"),
      ("id", string "t"), ("name", string "f"), ("input", object [])]])],
    obj [("role", string "user"), ("content", array [obj [("type", string "tool_result"),
      ("tool_use_id", string "t"), ("content", string "ok")]])]])]

/-- The request of the conversation. -/
def toolRequest : ChatRequest where
  model := "gemini"
  messages := [⟨.assistant, [], [⟨"t", "f", ""⟩], none, none⟩,
    ⟨.tool, [.text "ok"], [], some "t", none⟩]
  maxTokens := some 1
  temperature := none
  topP := none
  stop := []
  stream := false
  tools := []
  toolChoice := none
  thinking := none
  extra := []

theorem paired_iff_tool :
    ∃ wire, requestToGemini (fun _ => none) toolRequest = .ok wire ∧ (Paired toolRequest wire ↔
      ∀ before msg call, Answer toolRequest before msg call →
        givenName .messages toolConversation before.length = call.name) :=
  ⟨_, rfl, @paired_iff (fun _ => none) id (fun _ => "") .messages toolConversation _ toolRequest
    (by decide) rfl⟩

/-- A result of the Messages edge is sent under no name. -/
theorem unnamed_result :
    ¬ ∀ (debug : String → String) (toStr : Value → String) (fromStr : String → Option Value)
      (edge : Edge) (body wire : Value) (req : ChatRequest), edge.parse debug toStr body = .ok req →
      requestToGemini fromStr req = .ok wire → Paired req wire := by
  intro h
  have hpaired := h id (fun _ => "") (fun _ => none) .messages toolConversation _ toolRequest
    (by decide) rfl
  have hname := hpaired [⟨.assistant, [], [⟨"t", "f", ""⟩], none, none⟩] _ ⟨"t", "f", ""⟩
    ⟨⟨[], rfl⟩, rfl, "t", rfl, by decide⟩
  exact absurd hname (by decide)

end Llmleaf.Gemini
