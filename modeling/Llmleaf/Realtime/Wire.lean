import Llmleaf.Chat

/-!
# The realtime dialect

The consumer's side of a bridged realtime session: client events are parsed into the few the bridge
acts on, and the chunks of a turn are framed as server events (`ResponseScaffold`), which also keeps
what the turn adds to the history.

- `parseClientEvent`: one event from its document.
- `ResponseScaffold.onChunk`, `ResponseScaffold.finish`: the frames of a turn.
- `ResponseScaffold.assistantMessage`: the turn as a message.
-/

namespace Llmleaf.Realtime

open Value

/-! ## Client events -/

/-- An output cap: a number, or none (`"inf"`). -/
inductive MaxOut where
  | num (n : ℕ)
  | inf
  deriving DecidableEq

/-- What a `session.update` changes. -/
structure SessionPatch where
  model : Option String
  instructions : Option String
  outputModalities : Option (List String)
  maxOutputTokens : Option MaxOut
  tools : Option (List ToolDef)
  toolChoice : Option ToolChoice
  extra : Map
  deriving DecidableEq

/-- The patch that changes nothing. -/
def SessionPatch.default : SessionPatch := ⟨none, none, none, none, none, none, []⟩

/-- What a `response.create` sets for its turn. -/
structure ResponseOverride where
  instructions : Option String
  outputModalities : Option (List String)
  maxOutputTokens : Option MaxOut
  tools : Option (List ToolDef)
  toolChoice : Option ToolChoice
  persist : Bool
  deriving DecidableEq

/-- The turn that overrides nothing. -/
def ResponseOverride.default : ResponseOverride := ⟨none, none, none, none, none, true⟩

/-- A client event, reduced to what the bridge acts on. -/
inductive ClientEvent where
  | sessionUpdate (patch : SessionPatch)
  | addUserMessage (text : String)
  | addFunctionOutput (callId output : String)
  | deleteItem (id : String)
  | create (override : ResponseOverride)
  | cancel
  | audioUnsupported
  | other
  deriving DecidableEq

/-- The texts of an array. -/
def parseModalities (v : Value) : Option (List String) :=
  v.asArray.map fun items => items.filterMap asStr

/-- An output cap; a number is cut to 32 bits. -/
def parseMaxOut (v : Value) : Option MaxOut :=
  if v.asStr = some "inf" then some .inf else v.asU64.map fun n => .num (n % 2 ^ 32)

/-- The type of an object. -/
def typeOf (v : Value) : Option String := (v.get "type").bind asStr

/-- The tools of an array; one without a name is dropped. -/
def parseTools (v : Value) : List ToolDef :=
  match v.asArray with
  | none => []
  | some items =>
    (items.filter fun t => typeOf t != some "function" || (t.get "name").isSome).filterMap fun t =>
      ((t.get "name").bind asStr).map fun name =>
        { name := name
          description := (t.get "description").bind asStr
          parameters := (t.get "parameters").getD .null }

def parseToolChoice (v : Value) : Option ToolChoice :=
  match v with
  | .string "auto" => some .auto
  | .string "none" => some .none
  | .string "required" => some .required
  | .object _ => ((v.get "name").bind asStr).map .named
  | _ => none

/-- One field of a session patch. -/
def patchField (patch : SessionPatch) (e : String × Value) : SessionPatch :=
  match e.1 with
  | "type" => patch
  | "model" => { patch with model := e.2.asStr }
  | "instructions" => { patch with instructions := e.2.asStr }
  | "output_modalities" | "modalities" =>
    match parseModalities e.2 with
    | some m => { patch with outputModalities := some m }
    | none => patch
  | "max_output_tokens" => { patch with maxOutputTokens := parseMaxOut e.2 }
  | "tools" => { patch with tools := some (parseTools e.2) }
  | "tool_choice" => { patch with toolChoice := parseToolChoice e.2 }
  | _ => { patch with extra := patch.extra.insert e.1 e.2 }

/-- The patch a session document stands for. -/
def parseSessionPatch (session : Value) : SessionPatch :=
  match session with
  | .object fields => fields.foldl patchField .default
  | _ => .default

/-- One field of a response override. -/
def overrideField (override : ResponseOverride) (e : String × Value) : ResponseOverride :=
  match e.1 with
  | "instructions" => { override with instructions := e.2.asStr }
  | "output_modalities" | "modalities" => { override with outputModalities := parseModalities e.2 }
  | "max_output_tokens" => { override with maxOutputTokens := parseMaxOut e.2 }
  | "tools" => { override with tools := some (parseTools e.2) }
  | "tool_choice" => { override with toolChoice := parseToolChoice e.2 }
  | "conversation" => { override with persist := e.2.asStr != some "none" }
  | _ => override

def parseResponseOverride (resp : Value) : ResponseOverride :=
  match resp with
  | .object fields => fields.foldl overrideField .default
  | _ => .default

/-- The text of a user message's parts; `none` if one of them is audio. -/
def userText : String → List Value → Option String
  | text, [] => some text
  | text, part :: parts =>
    match typeOf part with
    | some "input_text" | some "text" =>
      userText (text ++ ((part.get "text").bind asStr).getD "") parts
    | some "input_audio" | some "audio" => none
    | _ => userText text parts

def parseItemCreate (item : Option Value) : ClientEvent :=
  match item with
  | none => .other
  | some item =>
    match typeOf item with
    | some "message" =>
      if (item.get "role").bind asStr ≠ some "user" then .other
      else
        match (item.get "content").bind asArray with
        | none => .addUserMessage ""
        | some parts =>
          match userText "" parts with
          | some text => .addUserMessage text
          | none => .audioUnsupported
    | some "function_call_output" =>
      .addFunctionOutput (((item.get "call_id").bind asStr).getD "")
        (((item.get "output").bind asStr).getD "")
    | _ => .other

/-- Parse one client event. -/
def parseClientEvent (value : Value) : ClientEvent :=
  match typeOf value with
  | none => .other
  | some "session.update" => .sessionUpdate (parseSessionPatch ((value.get "session").getD .null))
  | some "conversation.item.create" => parseItemCreate (value.get "item")
  | some "response.create" => .create (parseResponseOverride ((value.get "response").getD .null))
  | some "response.cancel" => .cancel
  | some "conversation.item.delete" =>
    match (value.get "item_id").bind asStr with
    | some id => .deleteItem id
    | none => .other
  | some "input_audio_buffer.append" | some "input_audio_buffer.commit"
  | some "input_audio_buffer.clear" => .audioUnsupported
  | some _ => .other

/-! ## Server events -/

/-- A tool call of the turn. -/
structure ToolAcc where
  callId : String
  name : String
  arguments : String
  itemId : String
  outputIndex : ℕ
  opened : Bool
  deriving DecidableEq

/-- The frames and the record of one turn. -/
structure ResponseScaffold where
  responseId : String
  itemId : String
  seq : ℕ
  textOpened : Bool
  text : String
  thinking : String
  thinkingSignature : Option String
  redacted : List String
  compaction : List StreamChunk
  tools : HashMap ℕ ToolAcc

namespace ResponseScaffold

def new (responseId itemId : String) : ResponseScaffold :=
  ⟨responseId, itemId, 0, false, "", "", none, [], [], ∅⟩

/-- The turn as a message, for the history. -/
def assistantMessage (self : ResponseScaffold) : Message where
  role := .assistant
  content :=
    (if self.compaction = [] then []
      else (collectChunks self.compaction).choices.flatMap (·.compaction)) ++
    (if self.thinking ≠ "" ∨ self.thinkingSignature.isSome then
      [.thinking self.thinking self.thinkingSignature] else []) ++
    self.redacted.map .redactedThinking ++
    (if self.text ≠ "" then [.text self.text] else [])
  toolCalls := self.tools.ascending.map fun e => ⟨e.2.callId, e.2.name, e.2.arguments⟩
  toolCallId := none
  name := none

/-- The opening frame. -/
def created (self : ResponseScaffold) : Value :=
  obj [("type", string "response.created"),
    ("response", obj [("id", string self.responseId), ("object", string "realtime.response"),
      ("status", string "in_progress")])]

/-- The frames of a text fragment. -/
def onContent (self : ResponseScaffold) (delta : String) : ResponseScaffold × List Value :=
  let opening :=
    if self.textOpened then []
    else
      [obj [("type", string "response.output_item.added"), ("response_id", string self.responseId),
        ("output_index", nat 0),
        ("item", obj [("id", string self.itemId), ("object", string "realtime.item"),
          ("type", string "message"), ("role", string "assistant"), ("content", array [])])],
      obj [("type", string "response.content_part.added"),
        ("response_id", string self.responseId), ("item_id", string self.itemId),
        ("output_index", nat 0), ("content_index", nat 0),
        ("part", obj [("type", string "output_text"), ("text", string "")])]]
  let seq := self.seq + 1
  ({ self with textOpened := true, text := self.text ++ delta, seq := seq },
    opening ++
      [obj [("type", string "response.output_text.delta"), ("response_id", string self.responseId),
        ("item_id", string self.itemId), ("output_index", nat 0), ("content_index", nat 0),
        ("delta", string delta), ("sequence_number", nat seq)]])

/-- The record of a tool call with the id and the name of a fragment. -/
def toolEntry (self : ResponseScaffold) (call : ToolCallDelta) : ToolAcc :=
  let entry := (self.tools.lookup call.index).getD
    { callId := ""
      name := ""
      arguments := ""
      itemId := self.itemId ++ "_call_" ++ toString call.index
      outputIndex := 1 + call.index
      opened := false }
  { entry with callId := call.id.getD entry.callId, name := call.name.getD entry.name }

/-- The frames of a tool call fragment. -/
def onToolCall (self : ResponseScaffold) (call : ToolCallDelta) : ResponseScaffold × List Value :=
  let entry := self.toolEntry call
  let opening :=
    if entry.opened then []
    else
      [obj [("type", string "response.output_item.added"), ("response_id", string self.responseId),
        ("output_index", nat entry.outputIndex),
        ("item", obj [("id", string entry.itemId), ("object", string "realtime.item"),
          ("type", string "function_call"), ("call_id", string entry.callId),
          ("name", string entry.name), ("arguments", string "")])]]
  let entry := { entry with opened := true }
  match call.arguments with
  | none => ({ self with tools := self.tools.insert call.index entry }, opening)
  | some args =>
    let seq := self.seq + 1
    ({ self with
        tools := self.tools.insert call.index { entry with arguments := entry.arguments ++ args }
        seq := seq },
      opening ++
        [obj [("type", string "response.function_call_arguments.delta"),
          ("response_id", string self.responseId), ("item_id", string entry.itemId),
          ("output_index", nat entry.outputIndex), ("call_id", string entry.callId),
          ("delta", string args), ("sequence_number", nat seq)]])

/-- The frames of a chunk. -/
def onChunk (self : ResponseScaffold) (chunk : StreamChunk) : ResponseScaffold × List Value :=
  match chunk with
  | .outputItem _ _ | .start _ _ | .usage _ | .finish _ _ => (self, [])
  | .content _ delta => self.onContent delta
  | .toolCall _ call => self.onToolCall call
  -- reasoning is kept for the replay and never shown
  | .thinking _ delta => ({ self with thinking := self.thinking ++ delta }, [])
  | .thinkingSignature _ signature => ({ self with thinkingSignature := some signature }, [])
  | .redactedThinking _ data => ({ self with redacted := self.redacted ++ [data] }, [])
  | .compaction .. => ({ self with compaction := self.compaction ++ [chunk] }, [])

/-- The status of a finished response. -/
def statusFor : FinishReason → String
  | .stop | .toolCalls | .compaction => "completed"
  | .length | .contentFilter => "incomplete"
  | .error => "failed"

/-- The usage object of a finished response. -/
def usageJson (u : Usage) : Value :=
  obj [("total_tokens", nat u.totalTokens), ("input_tokens", nat u.promptTokens),
    ("output_tokens", nat u.completionTokens),
    ("input_token_details", obj [("cached_tokens", nat 0), ("text_tokens", nat u.promptTokens),
      ("audio_tokens", nat 0)]),
    ("output_token_details", obj [("text_tokens", nat u.completionTokens),
      ("audio_tokens", nat 0)])]

/-- The content of the turn's text item. -/
def textContent (self : ResponseScaffold) : Value :=
  array [obj [("type", string "output_text"), ("text", string self.text)]]

/-- The closing frames of the text item. -/
def textDone (self : ResponseScaffold) : List Value :=
  let item := obj [("id", string self.itemId), ("object", string "realtime.item"),
    ("type", string "message"), ("role", string "assistant"), ("content", self.textContent),
    ("status", string "completed")]
  [obj [("type", string "response.output_text.done"), ("response_id", string self.responseId),
    ("item_id", string self.itemId), ("output_index", nat 0), ("content_index", nat 0),
    ("text", string self.text)],
  obj [("type", string "response.content_part.done"), ("response_id", string self.responseId),
    ("item_id", string self.itemId), ("output_index", nat 0), ("content_index", nat 0),
    ("part", obj [("type", string "output_text"), ("text", string self.text)])],
  obj [("type", string "response.output_item.done"), ("response_id", string self.responseId),
    ("output_index", nat 0), ("item", item)],
  obj [("type", string "conversation.item.done"), ("item", item)]]

/-- The closing frames of a tool item. -/
def toolDone (self : ResponseScaffold) (tool : ToolAcc) : List Value :=
  [obj [("type", string "response.function_call_arguments.done"),
    ("response_id", string self.responseId), ("item_id", string tool.itemId),
    ("output_index", nat tool.outputIndex), ("call_id", string tool.callId),
    ("name", string tool.name), ("arguments", string tool.arguments)],
  obj [("type", string "response.output_item.done"), ("response_id", string self.responseId),
    ("output_index", nat tool.outputIndex),
    ("item", obj [("id", string tool.itemId), ("object", string "realtime.item"),
      ("type", string "function_call"), ("call_id", string tool.callId), ("name", string tool.name),
      ("arguments", string tool.arguments), ("status", string "completed")])]]

/-- The output list of the finished response. -/
def output (self : ResponseScaffold) : List Value :=
  (if self.textOpened then
    [obj [("id", string self.itemId), ("type", string "message"), ("role", string "assistant"),
      ("status", string "completed"), ("content", self.textContent)]] else []) ++
  self.tools.ascending.map fun e =>
    obj [("id", string e.2.itemId), ("type", string "function_call"),
      ("call_id", string e.2.callId), ("name", string e.2.name),
      ("arguments", string e.2.arguments), ("status", string "completed")]

/-- The closing frames of a turn. -/
def finish (self : ResponseScaffold) (reason : FinishReason) (usage : Usage) : List Value :=
  (if self.textOpened then self.textDone else []) ++
  self.tools.ascending.flatMap (fun e => self.toolDone e.2) ++
  [obj [("type", string "response.done"),
    ("response", obj [("id", string self.responseId), ("object", string "realtime.response"),
      ("status", string (statusFor reason)), ("output", array self.output),
      ("usage", usageJson usage)])]]

end ResponseScaffold

/-- An error frame. -/
def errorFrame (code message : String) : Value :=
  obj [("type", string "error"), ("error", obj [("type", string "invalid_request_error"),
    ("code", string code), ("message", string message)])]

end Llmleaf.Realtime
