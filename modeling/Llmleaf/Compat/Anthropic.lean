import Llmleaf.Chat
import Llmleaf.Lib.Blocks

/-!
# The Anthropic edge: streaming

`EventEncoder` brackets the canonical stream into content blocks. It numbers the blocks, keeps at
most one of them open, and holds back the stop reason and the usage for the closing frames.

- `Writing`: the encoder with the frames it has pushed; one operation for each piece of the code.
- `Streaming`: what has been written is a message start followed by bracketed blocks;
  `Streaming.encode` for one chunk.
- `streamFrames_wellFormed`: every stream of chunks, followed by `finish`, is a well-formed message.
-/

namespace Llmleaf.Anthropic

/-- The stop reason of a finish reason. -/
def finishToAnthropic : FinishReason → String
  | .stop => "end_turn"
  | .length => "max_tokens"
  | .toolCalls => "tool_use"
  | .contentFilter => "refusal"
  | .error => "end_turn"
  | .compaction => "compaction"

/-- A usage object. -/
structure UsageOut where
  inputTokens : ℕ
  outputTokens : ℕ
  costUsd : Option ℚ
  deriving DecidableEq

/-- Render a usage. -/
def UsageOut.from (u : Usage) : UsageOut := ⟨u.promptTokens, u.completionTokens, u.costUsd⟩

/-! ## Frames -/

/-- The content block of a `content_block_start`; a tool's input starts empty. -/
inductive ContentBlock where
  | text (text : String)
  | thinking (thinking : String)
  | redactedThinking (data : String)
  | toolUse (id name : String)
  | compaction (content : String) (signature : Option String)
  deriving DecidableEq

/-- The type of a block. -/
def ContentBlock.kind : ContentBlock → String
  | .text _ => "text"
  | .thinking _ => "thinking"
  | .redactedThinking _ => "redacted_thinking"
  | .toolUse _ _ => "tool_use"
  | .compaction _ _ => "compaction"

/-- The delta of a `content_block_delta`. -/
inductive Delta where
  | text (text : String)
  | thinking (thinking : String)
  | signature (signature : String)
  | inputJson (partialJson : String)
  | compaction (content : String)
  deriving DecidableEq

/-- The type of a delta. -/
def Delta.kind : Delta → String
  | .text _ => "text_delta"
  | .thinking _ => "thinking_delta"
  | .signature _ => "signature_delta"
  | .inputJson _ => "input_json_delta"
  | .compaction _ => "compaction_delta"

/-- The message of a `message_start`: no content, no stop reason, zero counts. -/
structure MessageEnvelope where
  id : String
  role : String
  model : String
  inputTokens : ℕ
  outputTokens : ℕ
  deriving DecidableEq

/-- The payload of a frame. -/
inductive Payload where
  | messageStart (message : MessageEnvelope)
  | blockStart (index : ℕ) (contentBlock : ContentBlock)
  | blockDelta (index : ℕ) (delta : Delta)
  | blockStop (index : ℕ)
  | messageDelta (stopReason : String) (usage : UsageOut)
  | messageStop
  deriving DecidableEq

/-- The type of a payload. -/
def Payload.kind : Payload → String
  | .messageStart _ => "message_start"
  | .blockStart _ _ => "content_block_start"
  | .blockDelta _ _ => "content_block_delta"
  | .blockStop _ => "content_block_stop"
  | .messageDelta _ _ => "message_delta"
  | .messageStop => "message_stop"

/-- A named event and its payload. -/
structure Frame where
  event : String
  data : Payload
  deriving DecidableEq

/-! ## The encoder -/

/-- The block that is open on the wire. -/
inductive OpenBlock where
  | text (index : ℕ)
  | thinking (index : ℕ)
  | tool (index canon : ℕ)
  deriving DecidableEq

/-- The index of the open block. -/
def OpenBlock.index : OpenBlock → ℕ
  | .text index | .thinking index | .tool index _ => index

/-- The type of the open block. -/
def OpenBlock.kind : OpenBlock → String
  | .text _ => "text"
  | .thinking _ => "thinking"
  | .tool _ _ => "tool_use"

/-- The state of the encoder. -/
structure EventEncoder where
  id : String
  model : String
  started : Bool
  nextIndex : ℕ
  openBlock : Option OpenBlock
  usage : Usage
  stopReason : Option FinishReason

/-- The encoder of a new stream. -/
def EventEncoder.new (id model : String) : EventEncoder :=
  ⟨id, model, false, 0, none, .zero, none⟩

/-- An encoder and the frames it has pushed. -/
structure Writing where
  enc : EventEncoder
  out : List Frame

namespace Writing

/-- Nothing written. -/
def new (id model : String) : Writing := ⟨.new id model, []⟩

/-- Push a frame. -/
def push (w : Writing) (event : String) (data : Payload) : Writing :=
  { w with out := w.out ++ [⟨event, data⟩] }

/-- The envelope of the message. -/
def envelope (w : Writing) : MessageEnvelope := ⟨w.enc.id, "assistant", w.enc.model, 0, 0⟩

/-- Emit `message_start` once. -/
def ensureStarted (w : Writing) : Writing :=
  if w.enc.started then w
  else { w with enc.started := true }.push "message_start" (.messageStart w.envelope)

/-- Close whatever block is open. -/
def closeOpen (w : Writing) : Writing :=
  match w.enc.openBlock with
  | some block =>
    { w with enc.openBlock := none }.push "content_block_stop" (.blockStop block.index)
  | none => w

/-- Close whatever is open and start a block under the next index. -/
def startBlock (w : Writing) (block : ContentBlock) : Writing × ℕ :=
  let w := w.closeOpen
  let index := w.enc.nextIndex
  ({ w with enc.nextIndex := index + 1 }.push "content_block_start" (.blockStart index block), index)

/-- Start a block that stays open. -/
def startOpen (w : Writing) (block : ContentBlock) (mk : ℕ → OpenBlock) : Writing × ℕ :=
  let (w, index) := w.startBlock block
  ({ w with enc.openBlock := some (mk index) }, index)

/-- Push a delta of a block. -/
def pushDelta (w : Writing × ℕ) (delta : Delta) : Writing :=
  w.1.push "content_block_delta" (.blockDelta w.2 delta)

/-- Push a delta of a block unless its text is empty. -/
def pushText (w : Writing × ℕ) (text : String) (delta : String → Delta) : Writing :=
  if text = "" then w.1 else pushDelta w (delta text)

/-- Start a block, push a text of it and stop it at once. -/
def wholeBlock (w : Writing) (block : ContentBlock) (text : String) (delta : String → Delta) :
    Writing :=
  let (w, index) := w.startBlock block
  (pushText (w, index) text delta).push "content_block_stop" (.blockStop index)

/-- The open text block, a new one if no text block is open. -/
def openText (w : Writing) : Writing × ℕ :=
  match w.enc.openBlock with
  | some (.text index) => (w, index)
  | _ => w.startOpen (.text "") .text

/-- The open thinking block, a new one if no thinking block is open. -/
def openThinking (w : Writing) : Writing × ℕ :=
  match w.enc.openBlock with
  | some (.thinking index) => (w, index)
  | _ => w.startOpen (.thinking "") .thinking

/-- The open block of a tool call, a new one if another block is open. -/
def openTool (w : Writing) (call : ToolCallDelta) : Writing × ℕ :=
  let fresh := w.startOpen (.toolUse (call.id.getD "") (call.name.getD "")) (.tool · call.index)
  match w.enc.openBlock with
  | some (.tool index canon) => if canon = call.index then (w, index) else fresh
  | _ => fresh

/-- Translate one canonical chunk. -/
def encode (w : Writing) : StreamChunk → Writing
  | .outputItem _ _ => w
  | .start _ _ => w.ensureStarted
  | .content _ delta => pushText w.ensureStarted.openText delta .text
  | .thinking _ delta => pushText w.ensureStarted.openThinking delta .thinking
  | .thinkingSignature _ signature =>
    -- a signature is pushed even when empty
    pushDelta w.ensureStarted.openThinking (.signature signature)
  | .redactedThinking _ data =>
    w.ensureStarted.wholeBlock (.redactedThinking data) "" .compaction
  | .compaction _ _ delta _ _ signature =>
    match signature with
    | some signature =>
      w.ensureStarted.wholeBlock (.compaction delta (some signature)) "" .compaction
    | none => w.ensureStarted.wholeBlock (.compaction "" none) delta .compaction
  | .toolCall _ call =>
    pushText (w.ensureStarted.openTool call) (call.arguments.getD "") .inputJson
  | .usage u => { w with enc.usage := u }
  | .finish _ reason => { w with enc.stopReason := some reason }

/-- Emit the closing frames. -/
def finish (w : Writing) : Writing :=
  let w := w.ensureStarted.closeOpen
  let stopReason := (w.enc.stopReason.map finishToAnthropic).getD "end_turn"
  (w.push "message_delta" (.messageDelta stopReason (.from w.enc.usage))).push
    "message_stop" .messageStop

end Writing

/-- The frames of a whole stream. -/
def streamFrames (id model : String) (chunks : List StreamChunk) : List Frame :=
  (chunks.foldl Writing.encode (.new id model)).finish.out

/-! ## The grammar of the stream -/

/-- The types of deltas that a type of block has. -/
def deltaKinds : String → List String
  | "text" => ["text_delta"]
  | "thinking" => ["thinking_delta", "signature_delta"]
  | "tool_use" => ["input_json_delta"]
  | "compaction" => ["compaction_delta"]
  | _ => []

/-- The frames of a block under its index and type. -/
def grammar : BlockGrammar (ℕ × String) Frame where
  number t := t.1
  opens t f := ∃ block, f = ⟨"content_block_start", .blockStart t.1 block⟩ ∧ block.kind = t.2
  fills t f := ∃ delta, f = ⟨"content_block_delta", .blockDelta t.1 delta⟩ ∧
    delta.kind ∈ deltaKinds t.2
  closes t f := f = ⟨"content_block_stop", .blockStop t.1⟩

theorem opens_start (i : ℕ) (block : ContentBlock) :
    grammar.opens (i, block.kind) ⟨"content_block_start", .blockStart i block⟩ := ⟨block, rfl, rfl⟩

theorem fills_delta (i : ℕ) {kind : String} {delta : Delta} (h : delta.kind ∈ deltaKinds kind) :
    grammar.fills (i, kind) ⟨"content_block_delta", .blockDelta i delta⟩ := ⟨delta, rfl, h⟩

theorem closes_stop (i : ℕ) (kind : String) :
    grammar.closes (i, kind) ⟨"content_block_stop", .blockStop i⟩ := rfl

/-- A well-formed message: one start, numbered blocks, one delta and one stop. -/
def WellFormed (frames : List Frame) : Prop :=
  ∃ message blocks stopReason usage,
    frames = ⟨"message_start", .messageStart message⟩ :: blocks.flatten ++
      [⟨"message_delta", .messageDelta stopReason usage⟩, ⟨"message_stop", .messageStop⟩] ∧
    grammar.Numbered blocks

namespace Writing

/-- What has been written after the start: the message start and bracketed blocks, of which the
open one is the encoder's. -/
def Body (w : Writing) : Prop :=
  ∃ message frames, w.out = ⟨"message_start", .messageStart message⟩ :: frames ∧
    grammar.Bracketed w.enc.nextIndex (w.enc.openBlock.map fun b => (b.index, b.kind)) frames

/-- What has been written so far: nothing, or a body. -/
def Streaming (w : Writing) : Prop :=
  if w.enc.started then w.Body else w.out = [] ∧ w.enc.nextIndex = 0 ∧ w.enc.openBlock = none

@[simp] theorem push_enc (w : Writing) (event : String) (data : Payload) :
    (w.push event data).enc = w.enc := rfl

@[simp] theorem push_out (w : Writing) (event : String) (data : Payload) :
    (w.push event data).out = w.out ++ [⟨event, data⟩] := rfl

@[simp] theorem pushDelta_enc (w : Writing × ℕ) (delta : Delta) :
    (pushDelta w delta).enc = w.1.enc := rfl

@[simp] theorem pushText_enc (w : Writing × ℕ) (text : String) (delta : String → Delta) :
    (pushText w text delta).enc = w.1.enc := by
  unfold pushText
  split <;> rfl

theorem Streaming.ensureStarted {w : Writing} (h : w.Streaming) :
    w.ensureStarted.Body ∧ w.ensureStarted.enc.started = true := by
  unfold Streaming at h
  unfold Writing.ensureStarted
  split
  · rename_i hs
    rw [if_pos hs] at h
    exact ⟨h, hs⟩
  · rename_i hs
    rw [if_neg hs] at h
    obtain ⟨hout, hnext, hopen⟩ := h
    refine ⟨⟨w.envelope, [], by simp [push, hout, envelope], ?_⟩, rfl⟩
    simp only [push, hnext, hopen]
    exact .nil

theorem closeOpen_none {w : Writing} (h : w.enc.openBlock = none) : w.closeOpen = w := by
  simp only [closeOpen, h]

theorem closeOpen_some {w : Writing} {block : OpenBlock} (h : w.enc.openBlock = some block) :
    w.closeOpen =
      { w with enc.openBlock := none }.push "content_block_stop" (.blockStop block.index) := by
  simp only [closeOpen, h]

theorem Body.closeOpen {w : Writing} (h : w.Body) : w.closeOpen.Body := by
  obtain ⟨message, frames, hout, hb⟩ := h
  cases hopen : w.enc.openBlock with
  | none =>
    rw [closeOpen_none hopen]
    exact ⟨message, frames, hout, hb⟩
  | some block =>
    rw [hopen] at hb
    rw [closeOpen_some hopen]
    exact ⟨message, _, by simp [hout], hb.closed (closes_stop _ _)⟩

@[simp] theorem closeOpen_openBlock (w : Writing) : w.closeOpen.enc.openBlock = none := by
  cases hopen : w.enc.openBlock with
  | none => rw [closeOpen_none hopen, hopen]
  | some block => rw [closeOpen_some hopen]; rfl

@[simp] theorem closeOpen_started (w : Writing) :
    w.closeOpen.enc.started = w.enc.started := by
  cases hopen : w.enc.openBlock with
  | none => rw [closeOpen_none hopen]
  | some block => rw [closeOpen_some hopen]; rfl

@[simp] theorem startBlock_openBlock (w : Writing) (block : ContentBlock) :
    (w.startBlock block).1.enc.openBlock = none := closeOpen_openBlock w

@[simp] theorem startBlock_started (w : Writing) (block : ContentBlock) :
    (w.startBlock block).1.enc.started = w.enc.started := closeOpen_started w

/-- What is written with a block open under an index, whatever the encoder remembers of it. -/
def Inside (w : Writing × ℕ) (kind : String) : Prop :=
  ∃ message frames, w.1.out = ⟨"message_start", .messageStart message⟩ :: frames ∧
    grammar.Bracketed w.1.enc.nextIndex (some (w.2, kind)) frames

/-- A body whose open block is known. -/
theorem Body.inside {w : Writing} (h : w.Body) {block : OpenBlock}
    (hb : w.enc.openBlock = some block) : Inside (w, block.index) block.kind := by
  unfold Body at h
  rwa [hb] at h

theorem Inside.body {w : Writing × ℕ} {kind : String} (h : Inside w kind) {block : OpenBlock}
    (hb : w.1.enc.openBlock = some block) (hi : block.index = w.2) (hk : block.kind = kind) :
    w.1.Body := by
  unfold Body
  rw [hb, Option.map_some, hi, hk]
  exact h

theorem Body.startBlock {w : Writing} (h : w.Body) (block : ContentBlock) :
    Inside (w.startBlock block) block.kind := by
  obtain ⟨message, frames, hout, hb⟩ := h.closeOpen
  rw [closeOpen_openBlock] at hb
  exact ⟨message, _, by simp [Writing.startBlock, hout], hb.opened rfl (opens_start _ block)⟩

theorem Inside.pushDelta {w : Writing × ℕ} {kind : String} (h : Inside w kind) {delta : Delta}
    (hd : delta.kind ∈ deltaKinds kind) : Inside (pushDelta w delta, w.2) kind := by
  obtain ⟨message, frames, hout, hb⟩ := h
  exact ⟨message, _, by simp [Writing.pushDelta, hout], hb.filled (fills_delta _ hd)⟩

theorem Inside.pushText {w : Writing × ℕ} {kind : String} (h : Inside w kind) (text : String)
    {delta : String → Delta} (hd : text ≠ "" → (delta text).kind ∈ deltaKinds kind) :
    Inside (pushText w text delta, w.2) kind := by
  unfold Writing.pushText
  split
  · exact h
  · rename_i ht
    exact h.pushDelta (hd ht)

theorem Body.wholeBlock {w : Writing} (h : w.Body) (block : ContentBlock) (text : String)
    {delta : String → Delta} (hd : text ≠ "" → (delta text).kind ∈ deltaKinds block.kind) :
    (w.wholeBlock block text delta).Body := by
  obtain ⟨message, frames, hout, hb⟩ := (h.startBlock block).pushText text hd
  simp only [pushText_enc] at hout hb
  refine ⟨message, _, by simp only [Writing.wholeBlock, push_out, hout]; rfl, ?_⟩
  simp only [Writing.wholeBlock, push_enc, pushText_enc, startBlock_openBlock, Option.map_none]
  exact hb.closed (closes_stop _ _)

/-- The open block is one of the encoder's, with its index and type. -/
structure Opens (w : Writing × ℕ) (kind : String) : Prop where
  body : w.1.Body
  block : ∃ b, w.1.enc.openBlock = some b ∧ b.index = w.2 ∧ b.kind = kind

theorem Body.startOpen {w : Writing} (h : w.Body) (block : ContentBlock) (mk : ℕ → OpenBlock)
    (hi : ∀ i, (mk i).index = i) (hk : ∀ i, (mk i).kind = block.kind) :
    Opens (w.startOpen block mk) block.kind where
  body := (h.startBlock block).body (w := (w.startOpen block mk)) rfl (hi _) (hk _)
  block := ⟨_, rfl, hi _, hk _⟩

theorem Body.openText {w : Writing} (h : w.Body) : Opens w.openText "text" := by
  unfold Writing.openText
  split
  · rename_i index hb
    exact ⟨h, _, hb, rfl, rfl⟩
  · exact h.startOpen (.text "") .text (fun _ => rfl) fun _ => rfl

theorem Body.openThinking {w : Writing} (h : w.Body) : Opens w.openThinking "thinking" := by
  unfold Writing.openThinking
  split
  · rename_i index hb
    exact ⟨h, _, hb, rfl, rfl⟩
  · exact h.startOpen (.thinking "") .thinking (fun _ => rfl) fun _ => rfl

theorem Body.openTool {w : Writing} (h : w.Body) (call : ToolCallDelta) :
    Opens (w.openTool call) "tool_use" := by
  have hfresh := h.startOpen (.toolUse (call.id.getD "") (call.name.getD "")) (.tool · call.index)
    (fun _ => rfl) fun _ => rfl
  unfold Writing.openTool
  split
  · rename_i index canon hb
    split
    · exact ⟨h, _, hb, rfl, rfl⟩
    · exact hfresh
  · exact hfresh

theorem Opens.pushDelta {w : Writing × ℕ} {kind : String} (h : Opens w kind) {delta : Delta}
    (hd : delta.kind ∈ deltaKinds kind) : (pushDelta w delta).Body := by
  obtain ⟨hbody, b, hb, hi, hk⟩ := h
  have hinside := hbody.inside hb
  rw [hi, hk] at hinside
  exact (hinside.pushDelta hd).body hb hi hk

theorem Opens.pushText {w : Writing × ℕ} {kind : String} (h : Opens w kind) (text : String)
    {delta : String → Delta} (hd : (delta text).kind ∈ deltaKinds kind) :
    (pushText w text delta).Body := by
  unfold Writing.pushText
  split
  · exact h.body
  · exact h.pushDelta hd

theorem Streaming.of_body {w : Writing} (h : w.Body) (hs : w.enc.started = true) :
    w.Streaming := by
  unfold Streaming
  rwa [if_pos hs]

@[simp] theorem startOpen_started (w : Writing) (block : ContentBlock) (mk : ℕ → OpenBlock) :
    (w.startOpen block mk).1.enc.started = w.enc.started := startBlock_started w block

@[simp] theorem openText_started (w : Writing) :
    w.openText.1.enc.started = w.enc.started := by
  unfold openText
  split <;> simp

@[simp] theorem openThinking_started (w : Writing) :
    w.openThinking.1.enc.started = w.enc.started := by
  unfold openThinking
  split <;> simp

@[simp] theorem openTool_started (w : Writing) (call : ToolCallDelta) :
    (w.openTool call).1.enc.started = w.enc.started := by
  unfold openTool
  split
  · split <;> simp
  · simp

@[simp] theorem wholeBlock_started (w : Writing) (block : ContentBlock) (text : String)
    (delta : String → Delta) :
    (w.wholeBlock block text delta).enc.started = w.enc.started := by
  simp [wholeBlock]

@[simp] theorem wholeBlock_openBlock (w : Writing) (block : ContentBlock) (text : String)
    (delta : String → Delta) : (w.wholeBlock block text delta).enc.openBlock = none := by
  simp [wholeBlock]

/-- One chunk keeps the shape of what is written. -/
theorem Streaming.encode {w : Writing} (h : w.Streaming) (chunk : StreamChunk) :
    (w.encode chunk).Streaming := by
  obtain ⟨hbody, hs⟩ := h.ensureStarted
  cases chunk with
  | outputItem index message => exact h
  | usage u => exact h
  | finish index reason => exact h
  | start id model => exact .of_body hbody hs
  | content index delta =>
    exact .of_body (hbody.openText.pushText delta (by simp [Delta.kind, deltaKinds]))
      (by simpa [Writing.encode] using hs)
  | thinking index delta =>
    exact .of_body (hbody.openThinking.pushText delta (by simp [Delta.kind, deltaKinds]))
      (by simpa [Writing.encode] using hs)
  | thinkingSignature index signature =>
    exact .of_body (hbody.openThinking.pushDelta (by simp [Delta.kind, deltaKinds]))
      (by simpa [Writing.encode] using hs)
  | redactedThinking index data =>
    exact .of_body (hbody.wholeBlock _ "" fun h => absurd rfl h)
      (by simpa [Writing.encode] using hs)
  | compaction outputIndex index delta id encryptedContent signature =>
    cases signature with
    | some signature =>
      exact .of_body (hbody.wholeBlock _ "" fun h => absurd rfl h)
        (by simpa [Writing.encode] using hs)
    | none =>
      exact .of_body
        (hbody.wholeBlock _ delta fun _ => by simp [Delta.kind, ContentBlock.kind, deltaKinds])
        (by simpa [Writing.encode] using hs)
  | toolCall index call =>
    exact .of_body ((hbody.openTool call).pushText _ (by simp [Delta.kind, deltaKinds]))
      (by simpa [Writing.encode] using hs)

theorem streaming_new (id model : String) : (new id model).Streaming := ⟨rfl, rfl, rfl⟩

theorem streaming_foldl (id model : String) (chunks : List StreamChunk) :
    (chunks.foldl encode (new id model)).Streaming := by
  induction chunks using List.reverseRecOn with
  | nil => exact streaming_new id model
  | append_singleton chunks c ih =>
    rw [List.foldl_append]
    exact ih.encode c

/-- What the closing frames will report. -/
def report (w : Writing) : Option FinishReason × Usage := (w.enc.stopReason, w.enc.usage)

theorem push_report (w : Writing) (event : String) (data : Payload) :
    (w.push event data).report = w.report := rfl

@[simp] theorem ensureStarted_report (w : Writing) : w.ensureStarted.report = w.report := by
  unfold ensureStarted
  split <;> rfl

@[simp] theorem closeOpen_report (w : Writing) : w.closeOpen.report = w.report := by
  cases hopen : w.enc.openBlock with
  | none => rw [closeOpen_none hopen]
  | some block => rw [closeOpen_some hopen]; rfl

@[simp] theorem startOpen_report (w : Writing) (block : ContentBlock) (mk : ℕ → OpenBlock) :
    (w.startOpen block mk).1.report = w.report := closeOpen_report w

@[simp] theorem openText_report (w : Writing) : w.openText.1.report = w.report := by
  unfold openText
  split <;> simp

@[simp] theorem openThinking_report (w : Writing) : w.openThinking.1.report = w.report := by
  unfold openThinking
  split <;> simp

@[simp] theorem openTool_report (w : Writing) (call : ToolCallDelta) :
    (w.openTool call).1.report = w.report := by
  unfold openTool
  split
  · split <;> simp
  · simp

@[simp] theorem pushText_report (w : Writing × ℕ) (text : String) (delta : String → Delta) :
    (pushText w text delta).report = w.1.report := by
  unfold report
  rw [pushText_enc]

@[simp] theorem wholeBlock_report (w : Writing) (block : ContentBlock) (text : String)
    (delta : String → Delta) : (w.wholeBlock block text delta).report = w.report := by
  simp only [wholeBlock, push_report, pushText_report]
  exact closeOpen_report w

/-- Only a usage and a finish change what will be reported. -/
theorem encode_report (w : Writing) (chunk : StreamChunk) :
    (w.encode chunk).report = match chunk with
      | .usage u => (w.report.1, u)
      | .finish _ reason => (some reason, w.report.2)
      | _ => w.report := by
  cases chunk with
  | compaction outputIndex index delta id encryptedContent signature =>
    cases signature <;> simp [encode]
  | thinkingSignature index signature =>
    simp only [encode, pushDelta, push_report, openThinking_report, ensureStarted_report]
  | usage u => rfl
  | finish index reason => rfl
  | _ => simp [encode]

theorem finish_out (w : Writing) :
    w.finish.out = w.ensureStarted.closeOpen.out ++
      [⟨"message_delta", .messageDelta ((w.enc.stopReason.map finishToAnthropic).getD "end_turn")
        (.from w.enc.usage)⟩, ⟨"message_stop", .messageStop⟩] := by
  have hreport : w.ensureStarted.closeOpen.report = w.report := by simp
  obtain ⟨hstop, husage⟩ := Prod.ext_iff.mp hreport
  simp only [report] at hstop husage
  simp [finish, hstop, husage]

end Writing

/-- **Every stream of chunks becomes a well-formed message.** -/
theorem streamFrames_wellFormed (id model : String) (chunks : List StreamChunk) :
    WellFormed (streamFrames id model chunks) := by
  have hbody := (Writing.streaming_foldl id model chunks).ensureStarted.1.closeOpen
  obtain ⟨message, frames, hout, hb⟩ := hbody
  rw [Writing.closeOpen_openBlock] at hb
  obtain ⟨blocks, rfl, -, hblocks⟩ := BlockGrammar.Bracketed.blocks hb
  have hfinish := Writing.finish_out (chunks.foldl Writing.encode (.new id model))
  rw [hout] at hfinish
  exact ⟨message, blocks, _, _, hfinish, hblocks⟩

end Llmleaf.Anthropic
