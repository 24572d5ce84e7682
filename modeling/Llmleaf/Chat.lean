import Llmleaf.Events
import Llmleaf.Lib.HashMap

/-!
# Canonical chat requests and responses

The one internal model every consumer dialect maps into and every provider maps out of, and the
collected form of a response stream (`collectChunks`).
-/

namespace Llmleaf

inductive Role where
  | system
  | user
  | assistant
  | tool
  deriving DecidableEq

/-- A part of a message. -/
inductive ContentPart where
  | text (text : String)
  | imageUrl (url : String) (detail : Option String)
  | inputAudio (data format : String)
  /-- A reasoning block; its signature must be replayed with it. -/
  | thinking (thinking : String) (signature : Option String)
  | redactedThinking (data : String)
  | compaction (outputIndex : Option ℕ) (id content encryptedContent signature : Option String)
  deriving DecidableEq

structure ToolCall where
  id : String
  name : String
  arguments : String
  deriving DecidableEq

structure Message where
  role : Role
  content : List ContentPart
  toolCalls : List ToolCall
  toolCallId : Option String
  name : Option String
  deriving DecidableEq

/-- A message of one text part. -/
def Message.ofText (role : Role) (text : String) : Message := ⟨role, [.text text], [], none, none⟩

structure ToolDef where
  name : String
  description : Option String
  parameters : Value
  deriving DecidableEq

inductive ToolChoice where
  | auto
  | none
  | required
  | named (name : String)
  deriving DecidableEq

/-- Reasoning effort. -/
inductive Thinking where
  | low
  | med
  | high
  | highx
  | max
  deriving DecidableEq

/-- A chat request. -/
structure ChatRequest where
  model : String
  messages : List Message
  maxTokens : Option ℕ
  temperature : Option (Binary.Number .single)
  topP : Option (Binary.Number .single)
  stop : List String
  stream : Bool
  tools : List ToolDef
  toolChoice : Option ToolChoice
  thinking : Option Thinking
  extra : Map
  deriving DecidableEq

/-- A fragment of a tool call. -/
structure ToolCallDelta where
  index : ℕ
  id : Option String
  name : Option String
  arguments : Option String
  deriving DecidableEq

/-- One element of a response stream. -/
inductive StreamChunk where
  | outputItem (index : ℕ) (message : Message)
  | start (id model : String)
  | content (index : ℕ) (delta : String)
  | thinking (index : ℕ) (delta : String)
  | thinkingSignature (index : ℕ) (signature : String)
  | redactedThinking (index : ℕ) (data : String)
  | compaction (outputIndex : Option ℕ) (index : ℕ) (delta : String)
      (id encryptedContent signature : Option String)
  | toolCall (index : ℕ) (call : ToolCallDelta)
  | usage (usage : Usage)
  | finish (index : ℕ) (reason : FinishReason)
  deriving DecidableEq

/-- One answer of a collected response. -/
structure Choice where
  output : List Message
  index : ℕ
  text : String
  thinking : List ContentPart
  compaction : List ContentPart
  toolCalls : List ToolCall
  finishReason : Option FinishReason
  deriving DecidableEq

/-- A collected response. -/
structure ChatResponse where
  id : String
  model : String
  choices : List Choice
  usage : Usage
  deriving DecidableEq

/-! ## Collecting a stream -/

/-- What is collected so far, by the index of the choice. -/
structure Collected where
  id : String
  model : String
  usage : Usage
  texts : HashMap ℕ String
  finishes : HashMap ℕ FinishReason
  tools : HashMap ℕ (HashMap ℕ ToolCall)
  thinkings : HashMap ℕ (String × Option String)
  redacteds : HashMap ℕ (List String)
  outputs : HashMap ℕ (List Message)
  compactions : HashMap ℕ (List ContentPart)

namespace Collected

/-- Nothing collected. -/
def empty : Collected := ⟨"", "", .zero, ∅, ∅, ∅, ∅, ∅, ∅, ∅⟩

/-- Add a fragment to a tool call. -/
def addFragment (call : ToolCallDelta) (acc : ToolCall) : ToolCall where
  id := call.id.getD acc.id
  name := call.name.getD acc.name
  arguments := acc.arguments ++ call.arguments.getD ""

/-- Take in one chunk. -/
def step (acc : Collected) : StreamChunk → Collected
  | .outputItem index message =>
    { acc with outputs := acc.outputs.update index [] (· ++ [message]) }
  | .start id model => { acc with id := id, model := model }
  | .content index delta => { acc with texts := acc.texts.update index "" (· ++ delta) }
  | .thinking index delta =>
    { acc with thinkings := acc.thinkings.update index ("", none) fun t => (t.1 ++ delta, t.2) }
  | .thinkingSignature index signature =>
    { acc with thinkings := acc.thinkings.update index ("", none) fun t => (t.1, some signature) }
  | .redactedThinking index data =>
    { acc with redacteds := acc.redacteds.update index [] (· ++ [data]) }
  | .compaction outputIndex index delta id encryptedContent signature =>
    let content :=
      if encryptedContent.isNone && (id.isNone || delta != "") then some delta else none
    let part := ContentPart.compaction outputIndex id content encryptedContent signature
    { acc with compactions := acc.compactions.update index [] (· ++ [part]) }
  | .toolCall index call =>
    { acc with tools := acc.tools.update index ∅ fun calls =>
        calls.update call.index ⟨"", "", ""⟩ (addFragment call) }
  | .usage usage => { acc with usage := usage }
  | .finish index reason => { acc with finishes := acc.finishes.insert index reason }

/-- The indices of the choices. -/
def indices (acc : Collected) : List ℕ :=
  ((acc.texts.keys ++ acc.finishes.keys ++ acc.tools.keys ++ acc.thinkings.keys ++
    acc.redacteds.keys ++ acc.outputs.keys ++ acc.compactions.keys).insertionSort (· ≤ ·)).dedup

/-- The reasoning parts of a choice: the thinking block if there is one, then the redacted ones. -/
def thinkingParts (thinking : Option (String × Option String)) (redacted : Option (List String)) :
    List ContentPart :=
  (match thinking with
    | some (text, signature) =>
      if text ≠ "" ∨ signature.isSome then [.thinking text signature] else []
    | none => []) ++ (redacted.getD []).map .redactedThinking

/-- The choice of an index. -/
def choice (acc : Collected) (index : ℕ) : Choice where
  output := (acc.outputs.lookup index).getD []
  index := index
  text := (acc.texts.lookup index).getD ""
  thinking := thinkingParts (acc.thinkings.lookup index) (acc.redacteds.lookup index)
  compaction := (acc.compactions.lookup index).getD []
  toolCalls := ((acc.tools.lookup index).getD ∅).ascending.map Prod.snd
  finishReason := acc.finishes.lookup index

end Collected

/-- Collect the chunks of a stream. -/
def collectChunks (chunks : List StreamChunk) : ChatResponse :=
  let acc := chunks.foldl Collected.step .empty
  { id := acc.id
    model := acc.model
    choices := acc.indices.map acc.choice
    usage := acc.usage }

end Llmleaf
