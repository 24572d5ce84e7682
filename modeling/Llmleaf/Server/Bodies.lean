import Llmleaf.Lib.EventStream
import Llmleaf.Compat.Responses.Wire
import Llmleaf.Server.Pumps

/-!
# The bodies of streams

What the server puts on the wire for a stream: an event for every frame, whose data is the document
of the frame.

- `Libraries`, `Libraries.Documented`: the libraries that write documents and events.
- `CompletionEvent.document`, `CompletionEvent.data`: the documents of a chat completion.
- `completionBody`, `responsesBody`: the bodies.
- `frames_eq_concat`: a response has one frame that ends it, and it is the last.
-/

namespace Llmleaf

open EventStream

/-! ## The libraries -/

/-- The libraries between a stream and its bytes: documents are written as text and read from it,
and events are written with their name and their data. -/
structure Libraries where
  toStr : Value → String
  parse : String → Option Value
  event : Option String → String → List UInt8

/-- A text between braces. -/
def braces (inner : String) : String := "\x7b" ++ inner ++ "\x7d"

theorem toList_braces (inner : String) :
    (braces inner).toList = '\x7b' :: inner.toList ++ ['\x7d'] := by
  rw [braces, String.toList_append, String.toList_append]
  rfl

/-- An object is written between braces on one line, and read with the fields it has been written
with; numbers may be rounded. -/
structure Libraries.Writes (l : Libraries) (m : Map) : Prop where
  object : ∃ inner, l.toStr (.object m) = braces inner ∧ OneLine inner
  read : ∃ m' : Map, l.parse (l.toStr (.object m)) = some (.object m') ∧
    (∀ key, m.get key = none → m'.get key = none) ∧
    ∀ key s, m.get key = some (.string s) → m'.get key = some (.string s)

/-- What the libraries are documented to do with events, and with some documents. -/
structure Libraries.Documented (l : Libraries) (documents : List Map) : Prop where
  writes : ∀ m ∈ documents, l.Writes m
  event : ∀ name data, (∀ n ∈ name, OneLine n) → OneLine data →
    l.event name data = Event.bytes ⟨name, data⟩

theorem Libraries.Writes.oneLine {l : Libraries} {m : Map} (h : l.Writes m) :
    OneLine (l.toStr (.object m)) := by
  obtain ⟨inner, htext, hinner⟩ := h.object
  rw [htext]
  exact ((OneLine.append (by decide) hinner).append (by decide))

/-- Libraries that know one document. -/
def Libraries.single (inner : String) (m : Map) : Libraries where
  toStr _ := braces inner
  parse text := if text = braces inner then some (.object m) else none
  event name data := Event.bytes ⟨name, data⟩

theorem Libraries.single_documented {inner : String} (h : OneLine inner) (m : Map) :
    (Libraries.single inner m).Documented [m] where
  writes m' hm := by
    rw [List.mem_singleton.mp hm]
    exact ⟨⟨inner, rfl, h⟩, m, if_pos rfl, fun _ h => h, fun _ _ h => h⟩
  event _ _ _ _ := rfl

/-! ## The documents of a chat completion -/

namespace Openai

def UsageFrame.json (u : UsageFrame) : Value := .build [
  ("completion_tokens", some (.nat u.completionTokens)),
  ("cost_usd", u.costUsd.map fun cost => .number (.float cost)),
  ("prompt_tokens", some (.nat u.promptTokens)),
  ("prompt_tokens_details", u.promptTokensDetails.map fun d =>
    .build [("cached_tokens", some (.nat d.cachedTokens))]),
  ("total_tokens", some (.nat u.totalTokens)),
  ("cache_creation_tokens", u.cacheCreationTokens.map .nat)]

def CompactionFrame.json (c : CompactionFrame) : Value := .build [
  ("content", c.content.map .string), ("encrypted_content", c.encryptedContent.map .string),
  ("id", c.id.map .string), ("signature", c.signature.map .string),
  ("type", some (.string c.kind))]

def ToolCallFrame.json (t : ToolCallFrame) : Value := .build [
  ("function", some (.build [("arguments", t.function.arguments.map .string),
    ("name", t.function.name.map .string)])),
  ("id", t.id.map .string), ("index", some (.nat t.index)), ("type", some (.string t.kind))]

def ReasoningDetailFrame.json (r : ReasoningDetailFrame) : Value := .build [
  ("data", r.data.map .string), ("signature", r.signature.map .string),
  ("text", r.text.map .string), ("type", some (.string r.kind))]

/-- The document of a delta, which has at most one field. -/
def Delta.json : Delta → Value
  | .compaction c => .build [("compaction", some (.array [c.json]))]
  | .role s => .build [("role", some (.string s))]
  | .content s => .build [("content", some (.string s))]
  | .toolCalls t => .build [("tool_calls", some (.array [t.json]))]
  | .reasoning s => .build [("reasoning", some (.string s))]
  | .reasoningDetails r => .build [("reasoning_details", some (.array [r.json]))]
  | .empty => .build []

/-- The document of a choice; the finish reason is null until there is one. -/
def ChoiceFrame.json (c : ChoiceFrame) : Value := .build [
  ("delta", some c.delta.json), ("finish_reason", some (.ofOption c.finishReason)),
  ("index", some (.nat c.index))]

/-- The document of a chunk. -/
def ChunkFrame.document (f : ChunkFrame) : Map := .build [
  ("choices", some (.array (f.choices.map ChoiceFrame.json))), ("created", some (.nat f.created)),
  ("id", some (.string f.id)), ("model", some (.string f.model)),
  ("object", some (.string f.object)), ("usage", f.usage.map UsageFrame.json)]

end Openai

namespace CompletionEvent

/-- The document of an event. -/
def document : CompletionEvent → Option Map
  | .frame f => some f.document
  | .error message => some [("error", .object [("message", .string message)])]
  | .done => none

/-- The data of an event: its document, or the sentinel. -/
def data (toStr : Value → String) (e : CompletionEvent) : String :=
  e.document.elim "[DONE]" fun m => toStr (.object m)

end CompletionEvent

/-! ## The bodies -/

/-- The body of a stream of chat completions. -/
def completionBody (l : Libraries) (encoder : Openai.ChunkEncoder)
    (stream : List (Except ModelError StreamChunk)) : List UInt8 :=
  (sseFromResponse encoder stream).flatMap fun e => l.event none (e.data l.toStr)

/-- The body of the stream of a response. -/
def responsesBody (l : Libraries) (encoder : Responses.Writing)
    (stream : List (Except ModelError StreamChunk)) : List UInt8 :=
  (responsesSseFromResponse encoder stream).flatMap fun f => l.event (some f.event) (l.toStr f.json)

/-! ## How a stream ends -/

/-- A stream of chat completions ends with the sentinel, and has it once. -/
theorem completions_eq_concat (encoder : Openai.ChunkEncoder)
    (stream : List (Except ModelError StreamChunk)) :
    ∃ events, sseFromResponse encoder stream = events ++ [.done] ∧ .done ∉ events := by
  induction stream with
  | nil => exact ⟨[], rfl, List.not_mem_nil⟩
  | cons item stream ih =>
    cases item with
    | error error => exact ⟨[.error error.text], rfl, by simp⟩
    | ok chunk =>
      obtain ⟨events, heq, hdone⟩ := ih
      refine ⟨((encoder.encodeInto chunk).map .frame).toList ++ events, ?_, ?_⟩
      · rw [sseFromResponse, heq, List.append_assoc]
      · rw [List.mem_append, not_or]
        exact ⟨by cases encoder.encodeInto chunk <;> simp, hdone⟩

namespace Responses

/-- The document of a frame as an object. -/
def Frame.document (f : Frame) : Map := .build (("type", some (.string f.event)) ::
  ("sequence_number", some (.nat f.sequenceNumber)) :: f.fields)

theorem Frame.json_eq (f : Frame) : f.json = .object f.document := rfl

/-- The events that can come before the end of a response. -/
def openEvents : List String :=
  "response.created" :: "response.in_progress" :: "response.output_item.added" ::
    "response.output_item.done" :: pieceEvents

/-- The events that end a response. -/
def terminalEvents : List String := ["response.completed", "response.incomplete", "response.failed"]

theorem Writing.Streaming.openEvents {w : Writing} (h : w.Streaming) :
    ∀ f ∈ w.out, f.event ∈ openEvents := by
  intro f hf
  rcases h with ⟨-, created, inProgress, frames, hout, hc, hp, hframes⟩ | ⟨-, hout, -⟩
  · rw [hout, List.mem_cons, List.mem_cons] at hf
    rcases hf with rfl | rfl | hf
    · simp [hc, Responses.openEvents]
    · simp [hp, Responses.openEvents]
    · obtain ⟨t, ⟨hevent, -⟩ | ⟨hevent, -⟩ | ⟨hevent, -⟩⟩ := hframes.mem f hf
      · simp [hevent, Responses.openEvents]
      · simp [hevent, Responses.openEvents]
      · simp [hevent, Responses.openEvents]
  · rw [hout] at hf
    cases hf

/-- A frame that ends a response: a terminal event, or an error. -/
def Frame.Ends (f : Frame) : Prop :=
  f.event ∈ terminalEvents ∨ f.event = "error" ∧ ∃ message, f.data = .error message

/-- **A response ends with its last frame**, and with no other. -/
theorem frames_eq_concat {encoder : Writing} (h : encoder.Streaming)
    (stream : List (Except ModelError StreamChunk)) :
    ∃ frames last, responsesSseFromResponse encoder stream = frames ++ [last] ∧
      (∀ f ∈ frames, f.event ∈ openEvents) ∧ last.Ends := by
  induction stream generalizing encoder with
  | nil =>
    have hclosed : encoder.ensureStarted.closeOpen.Streaming := .inl h.ensureStarted.closed
    exact ⟨_, _, rfl, hclosed.openEvents, .inl (Writing.terminalEvent_mem _)⟩
  | cons item stream ih =>
    cases item with
    | ok chunk => exact ih (h.encode chunk)
    | error error => exact ⟨_, _, rfl, h.openEvents, .inr ⟨rfl, _, rfl⟩⟩

end Responses

end Llmleaf
