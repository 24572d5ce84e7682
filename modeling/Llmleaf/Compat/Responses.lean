import Llmleaf.Chat
import Llmleaf.Lib.Blocks

/-!
# The Responses edge

`responseToResponses` renders a collected response; `EventEncoder` streams it as numbered output
items, each opened, filled and closed, and ends with a snapshot of the whole response that it
builds from its own accumulators. Fields of a response that never vary are left out here.

- `Writing`: the encoder with the frames it has pushed; one operation for each piece of the code.
- `Streaming`: what has been written is the envelope followed by bracketed items;
  `Streaming.encode` for one chunk.
- `Sequenced`: the frames are numbered without gap; one lemma for each operation.
- `streamFrames_sequenced`: every stream of chunks, followed by `finish`, is well formed, and
  every sequence of operations numbers its frames from 0 on.
-/

namespace Llmleaf.Responses

/-- Unicode white space. -/
def isWhitespace (c : Char) : Bool :=
  let n := c.toNat
  (0x9 ≤ n && n ≤ 0xD) || n == 0x20 || n == 0x85 || n == 0xA0 || n == 0x1680 ||
    (0x2000 ≤ n && n ≤ 0x200A) || n == 0x2028 || n == 0x2029 || n == 0x202F || n == 0x205F ||
    n == 0x3000

/-- Nothing is left of a text once it is trimmed. -/
def isBlank (s : String) : Bool := s.toList.all isWhitespace

/-! ## The response object -/

/-- The status of a response, and why it is incomplete. -/
def statusFor : Option FinishReason → String × Option String
  | some .length => ("incomplete", some "max_output_tokens")
  | some .contentFilter => ("incomplete", some "content_filter")
  | some .error => ("failed", none)
  | _ => ("completed", none)

/-- A usage object. -/
structure UsageOut where
  inputTokens : ℕ
  cachedTokens : ℕ
  outputTokens : ℕ
  reasoningTokens : ℕ
  totalTokens : ℕ
  costUsd : Option ℚ
  deriving DecidableEq

/-- Render a usage; the canonical usage has no count of reasoning tokens. -/
def usageJson (u : Usage) : UsageOut :=
  ⟨u.promptTokens, u.cacheReadTokens, u.completionTokens, 0, u.totalTokens, u.costUsd⟩

/-- An output item: open reasoning has `content`, encrypted reasoning `encryptedContent`. -/
inductive Item where
  | reasoning (id : String) (content : Option (List String))
      (encryptedContent signature : Option String)
  | message (id status : String) (content : List String)
  | functionCall (id callId name arguments status : String)
  | compaction (id : String) (encryptedContent content signature : Option String)
  deriving DecidableEq

namespace Item

/-- The type of an item. -/
def kind : Item → String
  | reasoning .. => "reasoning"
  | message .. => "message"
  | functionCall .. => "function_call"
  | compaction .. => "compaction"

/-- The id of an item. -/
def id : Item → String
  | reasoning id _ _ _ | message id _ _ | functionCall id _ _ _ _ | compaction id _ _ _ => id

/-- The same item under another id. -/
def setId (item : Item) (id : String) : Item :=
  match item with
  | reasoning _ content encryptedContent signature =>
    reasoning id content encryptedContent signature
  | message _ status content => message id status content
  | functionCall _ callId name arguments status => functionCall id callId name arguments status
  | compaction _ encryptedContent content signature =>
    compaction id encryptedContent content signature

/-- The prefix of the ids that reflect the position of their item. -/
def idPrefix : Item → Option String
  | reasoning .. => some "rs"
  | message .. => some "msg"
  | functionCall .. => some "fc"
  | compaction .. => none

end Item

/-- The id of the item at a position. -/
def itemId (kind requestId : String) (idx : ℕ) : String :=
  kind ++ "_" ++ requestId ++ "_" ++ toString idx

/-- Emit the open reasoning texts as one item. -/
def flushReasoning (requestId : String) (items : List Item) (openTexts : List String)
    (signature : Option String) : List Item :=
  if openTexts = [] then items
  else items ++ [.reasoning (itemId "rs" requestId items.length) (some openTexts) none signature]

/-- Take in one reasoning part: the items so far and the texts that are still open. -/
def reasoningStep (requestId : String) (acc : List Item × List String) :
    ContentPart → List Item × List String
  | .thinking thinking signature =>
    let openTexts := acc.2 ++ [thinking]
    match signature with
    | some signature => (flushReasoning requestId acc.1 openTexts (some signature), [])
    | none => (acc.1, openTexts)
  | .redactedThinking data =>
    let items := flushReasoning requestId acc.1 acc.2 none
    (items ++ [.reasoning (itemId "rs" requestId items.length) none (some data) none], [])
  | _ => acc

/-- The items of the reasoning parts of a choice. -/
def reasoningItems (requestId : String) (thinking : List ContentPart) : List Item :=
  let (items, openTexts) := thinking.foldl (reasoningStep requestId) ([], [])
  flushReasoning requestId items openTexts none

/-- Append the item of a tool call. -/
def pushCall (requestId : String) (items : List Item) (call : ToolCall) : List Item :=
  items ++ [.functionCall (itemId "fc" requestId items.length) call.id call.name call.arguments
    "completed"]

/-- The items of a choice before its compaction is put in place. -/
def plainItems (requestId : String) (choice : Choice) : List Item :=
  let items := reasoningItems requestId choice.thinking
  let items :=
    if choice.text = "" then items
    else items ++ [.message (itemId "msg" requestId items.length) "completed" [choice.text]]
  choice.toolCalls.foldl (pushCall requestId) items

/-- Put a compaction part at its output index, by default after the leading reasoning. -/
def insertCompaction (requestId : String) (items : List Item) : ContentPart → List Item
  | .compaction outputIndex id content encryptedContent signature =>
    let leading := (items.takeWhile fun item => item.kind = "reasoning").length
    let idx := min (outputIndex.getD leading) items.length
    items.insertIdx idx
      (.compaction (id.getD (itemId "cmp" requestId idx)) encryptedContent content signature)
  | _ => items

/-- Let the ids reflect the positions of their items. -/
def renumber (requestId : String) (items : List Item) : List Item :=
  items.mapIdx fun idx item =>
    match item.idPrefix with
    | some kind => item.setId (itemId kind requestId idx)
    | none => item

/-- The output array of a choice. -/
def outputItems (requestId : String) (choice : Choice) : List Item :=
  renumber requestId (choice.compaction.foldl (insertCompaction requestId)
    (plainItems requestId choice))

/-- The text parts of a message. -/
def textContent (message : Message) : String :=
  String.join (message.content.filterMap fun | .text text => some text | _ => none)

/-- The choice of a message that was delivered whole. -/
def messageChoice (message : Message) : Choice where
  output := []
  index := 0
  text := textContent message
  thinking := message.content.filter fun
    | .thinking _ _ | .redactedThinking _ => true
    | _ => false
  compaction := message.content.filter fun
    | .compaction _ _ _ _ _ => true
    | _ => false
  toolCalls := message.toolCalls
  finishReason := none

/-- The output array of the messages that were delivered whole. -/
def orderedOutputItems (requestId : String) (output : List Message) : List Item :=
  renumber requestId (output.flatMap fun message => outputItems requestId (messageChoice message))

/-- What a response echoes of its request. -/
structure RequestEcho where
  temperature : Option (Binary.Number .single)
  topP : Option (Binary.Number .single)
  maxOutputTokens : Option ℕ
  tools : List Value
  toolChoice : Option Value
  reasoningEffort : Option String
  metadata : Option Value
  parallelToolCalls : Option Value
  text : Option Value
  truncation : Option Value
  contextManagement : Option Value
  previousResponseId : Option String
  store : Bool
  deriving DecidableEq

/-- Nothing to echo. -/
def RequestEcho.empty : RequestEcho :=
  ⟨none, none, none, [], none, none, none, none, none, none, none, none, false⟩

/-- A `response`. -/
structure Response where
  id : String
  createdAt : ℕ
  status : String
  incompleteDetails : Option String
  maxOutputTokens : Option ℕ
  model : String
  output : List Item
  parallelToolCalls : Value
  previousResponseId : Option String
  reasoningEffort : Option String
  store : Bool
  temperature : Option (Binary.Number .single)
  text : Value
  toolChoice : Value
  tools : List Value
  topP : Option (Binary.Number .single)
  truncation : Value
  contextManagement : Option Value
  usage : Option UsageOut
  metadata : Value
  deriving DecidableEq

/-- The id of a response. -/
def responseId (id : String) : String := if id.startsWith "resp_" then id else "resp_" ++ id

/-- Assemble a response. -/
def buildResponse (requestId model : String) (output : List Item) (usage : Option Usage)
    (status : String) (incompleteReason : Option String) (echo : RequestEcho) (created : ℕ) :
    Response where
  id := responseId requestId
  createdAt := created
  status := status
  incompleteDetails := incompleteReason
  maxOutputTokens := echo.maxOutputTokens
  model := model
  output := output
  parallelToolCalls := echo.parallelToolCalls.getD (.bool true)
  previousResponseId := echo.previousResponseId
  reasoningEffort := echo.reasoningEffort
  store := echo.store
  temperature := echo.temperature
  text := echo.text.getD (.obj [("format", .obj [("type", .string "text")])])
  toolChoice := echo.toolChoice.getD (.string "auto")
  tools := echo.tools
  topP := echo.topP
  truncation := echo.truncation.getD (.string "disabled")
  contextManagement := echo.contextManagement
  usage := usage.map usageJson
  metadata := echo.metadata.getD (.obj [])

/-- The response of a collected response, built from its first choice. -/
def responseToResponses (resp : ChatResponse) (echo : RequestEcho) (created : ℕ) : Response :=
  let choice := resp.choices.head?
  let output := (choice.map fun c =>
    if c.output = [] then outputItems resp.id c else orderedOutputItems resp.id c.output).getD []
  let (status, reason) := statusFor (choice.bind Choice.finishReason)
  buildResponse resp.id resp.model output (some resp.usage) status reason echo created

/-! ## The encoder -/

/-- The payload of a frame, besides its type and its sequence number: a snapshot, an output item,
a text of an item (a delta, a finished text or a part), or an error. -/
inductive Payload where
  | response (response : Response)
  | item (outputIndex : ℕ) (item : Item)
  | piece (itemId : String) (outputIndex : ℕ) (text : String)
  | error (message : String)
  deriving DecidableEq

/-- A named event; its name is also the type of its payload. -/
structure Frame where
  event : String
  data : Payload
  sequenceNumber : ℕ
  deriving DecidableEq

/-- The output item that is open on the wire. -/
inductive OpenItem where
  | reasoning (index : ℕ) (id text : String) (sig : Option String)
  | message (index : ℕ) (id text : String)
  | tool (index : ℕ) (id : String) (canon : ℕ)
  deriving DecidableEq

namespace OpenItem

/-- The output index and the id of the open item. -/
def tag : OpenItem → ℕ × String
  | reasoning index id _ _ | message index id _ | tool index id _ => (index, id)

/-- Append to the text of open reasoning. -/
def pushReasoning (delta : String) : OpenItem → OpenItem
  | reasoning index id text sig => reasoning index id (text ++ delta) sig
  | item => item

/-- Sign open reasoning. -/
def sign (signature : String) : OpenItem → OpenItem
  | reasoning index id text _ => reasoning index id text (some signature)
  | item => item

/-- Append to the text of an open message. -/
def pushMessage (delta : String) : OpenItem → OpenItem
  | message index id text => message index id (text ++ delta)
  | item => item

theorem tag_pushReasoning (delta : String) (item : OpenItem) :
    (item.pushReasoning delta).tag = item.tag := by
  cases item <;> rfl

theorem tag_sign (signature : String) (item : OpenItem) : (item.sign signature).tag = item.tag := by
  cases item <;> rfl

theorem tag_pushMessage (delta : String) (item : OpenItem) :
    (item.pushMessage delta).tag = item.tag := by
  cases item <;> rfl

end OpenItem

/-- What the encoder accumulates of choice 0 for the final snapshot. -/
structure Accumulated where
  text : String
  thinkText : String
  thinkSig : Option String
  redacted : List String
  compaction : List ContentPart
  orderedOutput : List Message
  tools : HashMap ℕ ToolCall
  usage : Usage
  finish : Option FinishReason

/-- Nothing accumulated. -/
def Accumulated.empty : Accumulated := ⟨"", "", none, [], [], [], ∅, .zero, none⟩

/-- The state of the encoder. -/
structure EventEncoder where
  requestId : String
  model : String
  created : ℕ
  echo : RequestEcho
  seq : ℕ
  started : Bool
  outputIndex : ℕ
  openItem : Option OpenItem
  acc : Accumulated

/-- The encoder of a new stream. -/
def EventEncoder.new (requestId model : String) (created : ℕ) (echo : RequestEcho) : EventEncoder :=
  ⟨requestId, model, created, echo, 0, false, 0, none, .empty⟩

/-- An encoder and the frames it has pushed. -/
structure Writing where
  enc : EventEncoder
  out : List Frame

namespace Writing

/-- Nothing written. -/
def new (requestId model : String) (created : ℕ) (echo : RequestEcho) : Writing :=
  ⟨.new requestId model created echo, []⟩

/-- Push a frame under the next sequence number. -/
def push (w : Writing) (event : String) (data : Payload) : Writing where
  enc := { w.enc with seq := w.enc.seq + 1 }
  out := w.out ++ [⟨event, data, w.enc.seq⟩]

/-- The response in flight: no output, no usage. -/
def inProgressSnapshot (w : Writing) : Response :=
  buildResponse w.enc.requestId w.enc.model [] none "in_progress" none w.enc.echo w.enc.created

/-- Emit `response.created` and `response.in_progress` once. -/
def ensureStarted (w : Writing) : Writing :=
  if w.enc.started then w
  else
    let w := { w with enc.started := true }
    (w.push "response.created" (.response w.inProgressSnapshot)).push "response.in_progress"
      (.response w.inProgressSnapshot)

/-- Close whatever item is open. -/
def closeOpen (w : Writing) : Writing :=
  let closed := { w with enc.openItem := none }
  match w.enc.openItem with
  | none => w
  | some (.reasoning index id text sig) =>
    (closed.push "response.reasoning_text.done" (.piece id index text)).push
      "response.output_item.done" (.item index (.reasoning id (some [text]) none sig))
  | some (.message index id text) =>
    ((closed.push "response.output_text.done" (.piece id index text)).push
      "response.content_part.done" (.piece id index text)).push
      "response.output_item.done" (.item index (.message id "completed" [text]))
  | some (.tool index id canon) =>
    let acc := (w.enc.acc.tools.lookup canon).getD ⟨"", "", ""⟩
    (closed.push "response.function_call_arguments.done" (.piece id index acc.arguments)).push
      "response.output_item.done"
      (.item index (.functionCall id acc.id acc.name acc.arguments "completed"))

/-- Close whatever is open and add an item under the next output index. -/
def addItem (w : Writing) (item : ℕ → Item) : Writing × ℕ :=
  let w := w.closeOpen
  let index := w.enc.outputIndex
  ({ w with enc.outputIndex := index + 1 }.push "response.output_item.added"
    (.item index (item index)), index)

/-- Add an item that arrives whole. -/
def wholeItem (w : Writing) (item : ℕ → Item) : Writing :=
  let (w, index) := w.addItem item
  w.push "response.output_item.done" (.item index (item index))

/-- Keep an added item open; it is named by its output index and id. -/
def keepOpen (w : Writing × ℕ) (item : ℕ → OpenItem) : Writing × ℕ × String :=
  ({ w.1 with enc.openItem := some (item w.2) }, (item w.2).tag)

/-- The open reasoning item, a new one if none is open. -/
def openReasoning (w : Writing) : Writing × ℕ × String :=
  match w.enc.openItem with
  | some (.reasoning index id _ _) => (w, index, id)
  | _ =>
    let id := itemId "rs" w.enc.requestId
    keepOpen (w.addItem fun index => .reasoning (id index) (some []) none none)
      fun index => .reasoning index (id index) "" none

/-- The open message item, a new one if none is open. -/
def openMessage (w : Writing) : Writing × ℕ × String :=
  match w.enc.openItem with
  | some (.message index id _) => (w, index, id)
  | _ =>
    let id := itemId "msg" w.enc.requestId
    let (w, index) := w.addItem fun index => .message (id index) "in_progress" []
    keepOpen (w.push "response.content_part.added" (.piece (id index) index ""), index)
      fun index => .message index (id index) ""

/-- The open item of a tool call, a new one if another item is open. -/
def openTool (w : Writing) (call : ToolCallDelta) : Writing × ℕ × String :=
  let id := itemId "fc" w.enc.requestId
  let fresh := keepOpen
    (w.addItem fun index =>
      .functionCall (id index) (call.id.getD "") (call.name.getD "") "" "in_progress")
    fun index => .tool index (id index) call.index
  match w.enc.openItem with
  | some (.tool index id canon) => if canon = call.index then (w, index, id) else fresh
  | _ => fresh

/-- Change what is accumulated. -/
def accumulate (w : Writing) (f : Accumulated → Accumulated) : Writing :=
  { w with enc.acc := f w.enc.acc }

/-- Change the open item. -/
def updateOpen (w : Writing) (f : OpenItem → OpenItem) : Writing :=
  { w with enc.openItem := w.enc.openItem.map f }

/-- Push a text of the named item. -/
def pushPiece (w : Writing) (tag : ℕ × String) (event text : String) : Writing :=
  w.push event (.piece tag.2 tag.1 text)

/-- Translate one canonical chunk; chunks of other choices are ignored. -/
def encode (w : Writing) : StreamChunk → Writing
  | .start id _ =>
    let w := if !w.enc.started && !isBlank id then { w with enc.requestId := id } else w
    w.ensureStarted
  | .thinking index delta =>
    if index ≠ 0 then w
    else
      let w := w.ensureStarted.accumulate fun acc => { acc with thinkText := acc.thinkText ++ delta }
      let (w, tag) := w.openReasoning
      (w.updateOpen (.pushReasoning delta)).pushPiece tag "response.reasoning_text.delta" delta
  | .thinkingSignature index signature =>
    if index ≠ 0 then w
    else
      let w := w.accumulate fun acc => { acc with thinkSig := some signature }
      w.updateOpen (.sign signature)
  | .redactedThinking index data =>
    if index ≠ 0 then w
    else
      let w := w.ensureStarted.accumulate fun acc => { acc with redacted := acc.redacted ++ [data] }
      let id := itemId "rs" w.enc.requestId
      w.wholeItem fun index => .reasoning (id index) none (some data) none
  | .compaction outputIndex index delta id encryptedContent signature =>
    if index ≠ 0 then w
    else
      let w := w.ensureStarted.closeOpen
      let live := w.enc.outputIndex
      let content := if delta = "" then none else some delta
      let part := ContentPart.compaction (outputIndex.or (some live)) id content encryptedContent
        signature
      let w := w.accumulate fun acc => { acc with compaction := acc.compaction ++ [part] }
      let itemId := id.getD (itemId "cmp" w.enc.requestId live)
      w.wholeItem fun _ => .compaction itemId encryptedContent content signature
  | .outputItem index message =>
    if index ≠ 0 then w
    else w.accumulate fun acc => { acc with orderedOutput := acc.orderedOutput ++ [message] }
  | .content index delta =>
    if index ≠ 0 then w
    else
      let w := w.ensureStarted.accumulate fun acc => { acc with text := acc.text ++ delta }
      let (w, tag) := w.openMessage
      (w.updateOpen (.pushMessage delta)).pushPiece tag "response.output_text.delta" delta
  | .toolCall index call =>
    if index ≠ 0 then w
    else
      let w := w.ensureStarted.accumulate fun acc =>
        { acc with tools := acc.tools.update call.index ⟨"", "", ""⟩ (Collected.addFragment call) }
      let (w, tag) := w.openTool call
      let arguments := call.arguments.getD ""
      if arguments = "" then w
      else w.pushPiece tag "response.function_call_arguments.delta" arguments
  | .usage u => w.accumulate fun acc => { acc with usage := u }
  | .finish index reason =>
    if index ≠ 0 then w
    else w.closeOpen.accumulate fun acc => { acc with finish := some reason }

end Writing

/-- The accumulated choice 0, as the collector would fold it. -/
def Accumulated.choice (acc : Accumulated) : Choice where
  output := acc.orderedOutput
  index := 0
  text := acc.text
  thinking :=
    (if acc.thinkText ≠ "" ∨ acc.thinkSig.isSome then [.thinking acc.thinkText acc.thinkSig]
      else []) ++ acc.redacted.map .redactedThinking
  compaction := acc.compaction
  toolCalls := acc.tools.ascending.map Prod.snd
  finishReason := acc.finish

namespace Writing

/-- The snapshot of the whole response. -/
def snapshot (w : Writing) : Response :=
  responseToResponses ⟨w.enc.requestId, w.enc.model, [w.enc.acc.choice], w.enc.acc.usage⟩
    w.enc.echo w.enc.created

/-- The event of the terminal frame. -/
def terminalEvent (status : String) : String :=
  if status = "incomplete" then "response.incomplete"
  else if status = "failed" then "response.failed"
  else "response.completed"

/-- Emit the terminal frame. -/
def finish (w : Writing) : Writing :=
  let w := w.ensureStarted.closeOpen
  w.push (terminalEvent w.snapshot.status) (.response w.snapshot)

/-- Emit an error. -/
def errorFrame (w : Writing) (message : String) : Writing := w.push "error" (.error message)

end Writing

/-- The frames of a whole stream. -/
def streamFrames (requestId model : String) (created : ℕ) (echo : RequestEcho)
    (chunks : List StreamChunk) : List Frame :=
  (chunks.foldl Writing.encode (.new requestId model created echo)).finish.out

/-! ## The grammar of the stream -/

/-- The events between the opening and the closing of an item. -/
def pieceEvents : List String :=
  ["response.reasoning_text.delta", "response.reasoning_text.done", "response.content_part.added",
    "response.output_text.delta", "response.output_text.done", "response.content_part.done",
    "response.function_call_arguments.delta", "response.function_call_arguments.done"]

/-- The frames of an item under its output index and id. -/
def grammar : BlockGrammar (ℕ × String) Frame where
  number t := t.1
  opens t f := f.event = "response.output_item.added" ∧
    ∃ item, f.data = .item t.1 item ∧ item.id = t.2
  fills t f := f.event ∈ pieceEvents ∧ ∃ text, f.data = .piece t.2 t.1 text
  closes t f := f.event = "response.output_item.done" ∧
    ∃ item, f.data = .item t.1 item ∧ item.id = t.2

/-- The frames are numbered 0, 1, 2, … -/
def Consecutive (frames : List Frame) : Prop :=
  frames.map Frame.sequenceNumber = List.range frames.length

/-- A well-formed stream: the envelope, numbered items, one terminal frame. -/
def WellFormed (frames : List Frame) : Prop :=
  ∃ created inProgress items terminal,
    frames = created :: inProgress :: items.flatten ++ [terminal] ∧
    created.event = "response.created" ∧ inProgress.event = "response.in_progress" ∧
    grammar.Numbered items ∧
    terminal.event ∈ ["response.completed", "response.incomplete", "response.failed"]

namespace Writing

/-- The written frames carry the sequence numbers below the next one. -/
def Sequenced (w : Writing) : Prop :=
  w.out.map Frame.sequenceNumber = List.range w.enc.seq

theorem Sequenced.push {w : Writing} (h : w.Sequenced) (event : String) (data : Payload) :
    (w.push event data).Sequenced := by
  unfold Sequenced at h ⊢
  simp [Writing.push, h, List.range_succ]

theorem Sequenced.ensureStarted {w : Writing} (h : w.Sequenced) : w.ensureStarted.Sequenced := by
  unfold Writing.ensureStarted
  split
  · exact h
  · have h' : ({ w with enc.started := true } : Writing).Sequenced := h
    exact (h'.push _ _).push _ _

theorem Sequenced.closeOpen {w : Writing} (h : w.Sequenced) : w.closeOpen.Sequenced := by
  have h' : ({ w with enc.openItem := none } : Writing).Sequenced := h
  unfold Writing.closeOpen
  split
  · exact h
  · exact (h'.push _ _).push _ _
  · exact ((h'.push _ _).push _ _).push _ _
  · exact (h'.push _ _).push _ _

theorem Sequenced.addItem {w : Writing} (h : w.Sequenced) (item : ℕ → Item) :
    (w.addItem item).1.Sequenced :=
  Sequenced.push (w := { w.closeOpen with enc.outputIndex := w.closeOpen.enc.outputIndex + 1 })
    h.closeOpen _ _

theorem Sequenced.wholeItem {w : Writing} (h : w.Sequenced) (item : ℕ → Item) :
    (w.wholeItem item).Sequenced := (h.addItem item).push _ _

theorem Sequenced.openReasoning {w : Writing} (h : w.Sequenced) : w.openReasoning.1.Sequenced := by
  unfold Writing.openReasoning
  split
  · exact h
  · exact h.addItem fun index => .reasoning (itemId "rs" w.enc.requestId index) (some []) none none

theorem Sequenced.openMessage {w : Writing} (h : w.Sequenced) : w.openMessage.1.Sequenced := by
  unfold Writing.openMessage
  split
  · exact h
  · exact (h.addItem fun index =>
      .message (itemId "msg" w.enc.requestId index) "in_progress" []).push _ _

theorem Sequenced.openTool {w : Writing} (h : w.Sequenced) (call : ToolCallDelta) :
    (w.openTool call).1.Sequenced := by
  have hfresh := h.addItem fun index => .functionCall (itemId "fc" w.enc.requestId index)
    (call.id.getD "") (call.name.getD "") "" "in_progress"
  unfold Writing.openTool
  split
  · split
    · exact h
    · exact hfresh
  · exact hfresh

theorem Sequenced.accumulate {w : Writing} (h : w.Sequenced) (f : Accumulated → Accumulated) :
    (w.accumulate f).Sequenced := h

theorem Sequenced.updateOpen {w : Writing} (h : w.Sequenced) (f : OpenItem → OpenItem) :
    (w.updateOpen f).Sequenced := h

theorem Sequenced.encode {w : Writing} (h : w.Sequenced) (chunk : StreamChunk) :
    (w.encode chunk).Sequenced := by
  have hs := h.ensureStarted
  cases chunk with
  | start id model =>
    simp only [Writing.encode]
    split
    · exact Sequenced.ensureStarted (w := { w with enc.requestId := id }) h
    · exact hs
  | usage u => exact h
  | thinking index delta =>
    simp only [Writing.encode]
    split
    · exact h
    · exact ((hs.accumulate _).openReasoning.updateOpen _).push _ _
  | thinkingSignature index signature =>
    simp only [Writing.encode]
    split <;> exact h
  | redactedThinking index data =>
    simp only [Writing.encode]
    split
    · exact h
    · exact (hs.accumulate _).wholeItem _
  | compaction outputIndex index delta id encryptedContent signature =>
    simp only [Writing.encode]
    split
    · exact h
    · exact (hs.closeOpen.accumulate _).wholeItem _
  | outputItem index message =>
    simp only [Writing.encode]
    split <;> exact h
  | content index delta =>
    simp only [Writing.encode]
    split
    · exact h
    · exact ((hs.accumulate _).openMessage.updateOpen _).push _ _
  | toolCall index call =>
    simp only [Writing.encode]
    split
    · exact h
    · split
      · exact (hs.accumulate _).openTool call
      · exact ((hs.accumulate _).openTool call).push _ _
  | finish index reason =>
    simp only [Writing.encode]
    split
    · exact h
    · exact h.closeOpen.accumulate _

/-! ### The items -/

/-- The stream has begun: the first frames are the envelope, the rest is bracketed with an item
open or none. -/
def Items (w : Writing) (tag : Option (ℕ × String)) : Prop :=
  w.enc.started ∧ ∃ created inProgress frames, w.out = created :: inProgress :: frames ∧
    created.event = "response.created" ∧ inProgress.event = "response.in_progress" ∧
    grammar.Bracketed w.enc.outputIndex tag frames

/-- What has been written after the start: the envelope and bracketed items, of which the open one
is the encoder's. -/
def Body (w : Writing) : Prop := w.Items (w.enc.openItem.map OpenItem.tag)

/-- What has been written so far: nothing, or a body. -/
def Streaming (w : Writing) : Prop :=
  w.Body ∨ w.enc.started = false ∧ w.out = [] ∧ w.enc.outputIndex = 0 ∧ w.enc.openItem = none

/-- Pushing a piece of the open item. -/
theorem Items.piece {w : Writing} {index : ℕ} {id : String} (h : w.Items (some (index, id)))
    {event : String} (hevent : event ∈ pieceEvents) (text : String) :
    (w.push event (.piece id index text)).Items (some (index, id)) := by
  obtain ⟨hstarted, created, inProgress, frames, hout, hc, hp, hb⟩ := h
  have hfills : grammar.fills (index, id) ⟨event, .piece id index text, w.enc.seq⟩ :=
    ⟨hevent, text, rfl⟩
  exact ⟨hstarted, created, inProgress, _, by simp [push, hout], hc, hp, hb.filled hfills⟩

/-- Pushing the end of the open item. -/
theorem Items.done {w : Writing} {index : ℕ} (item : Item) (h : w.Items (some (index, item.id))) :
    (w.push "response.output_item.done" (.item index item)).Items none := by
  obtain ⟨hstarted, created, inProgress, frames, hout, hc, hp, hb⟩ := h
  have hcloses : grammar.closes (index, item.id)
      ⟨"response.output_item.done", .item index item, w.enc.seq⟩ := ⟨rfl, item, rfl, rfl⟩
  exact ⟨hstarted, created, inProgress, _, by simp [push, hout], hc, hp, hb.closed hcloses⟩

/-- Pushing the beginning of the next item. -/
theorem Items.added {w : Writing} (h : w.Items none) (item : Item) :
    ({ w with enc.outputIndex := w.enc.outputIndex + 1 }.push "response.output_item.added"
      (.item w.enc.outputIndex item)).Items (some (w.enc.outputIndex, item.id)) := by
  obtain ⟨hstarted, created, inProgress, frames, hout, hc, hp, hb⟩ := h
  have hopens : grammar.opens (w.enc.outputIndex, item.id)
      ⟨"response.output_item.added", .item w.enc.outputIndex item, w.enc.seq⟩ :=
    ⟨rfl, item, rfl, rfl⟩
  exact ⟨hstarted, created, inProgress, _, by simp [push, hout], hc, hp, hb.opened rfl hopens⟩

theorem Streaming.ensureStarted {w : Writing} (h : w.Streaming) : w.ensureStarted.Body := by
  unfold Writing.ensureStarted
  rcases h with h | ⟨hnot, hout, hindex, hopen⟩
  · rwa [if_pos h.1]
  · rw [if_neg (by simp [hnot])]
    have hempty : grammar.Bracketed w.enc.outputIndex (w.enc.openItem.map OpenItem.tag) [] := by
      rw [hindex, hopen]
      exact .nil
    exact ⟨rfl, ⟨"response.created", .response w.inProgressSnapshot, w.enc.seq⟩,
      ⟨"response.in_progress", .response w.inProgressSnapshot, w.enc.seq + 1⟩, [],
      by simp [push, hout, inProgressSnapshot], rfl, rfl, hempty⟩

theorem Body.closeOpen {w : Writing} (h : w.Body) : w.closeOpen.Items none := by
  unfold Body at h
  unfold Writing.closeOpen
  split
  · rename_i hopen
    rwa [hopen] at h
  · rename_i index id text sig hopen
    rw [hopen] at h
    have h' : ({ w with enc.openItem := none } : Writing).Items (some (index, id)) := h
    exact Items.done (.reasoning id (some [text]) none sig)
      (h'.piece (by simp [pieceEvents]) text)
  · rename_i index id text hopen
    rw [hopen] at h
    have h' : ({ w with enc.openItem := none } : Writing).Items (some (index, id)) := h
    exact Items.done (.message id "completed" [text])
      ((h'.piece (by simp [pieceEvents]) text).piece (by simp [pieceEvents]) text)
  · rename_i index id canon hopen
    rw [hopen] at h
    have h' : ({ w with enc.openItem := none } : Writing).Items (some (index, id)) := h
    exact Items.done (.functionCall id _ _ _ "completed")
      (h'.piece (by simp [pieceEvents]) _)

theorem openItem_closeOpen (w : Writing) : w.closeOpen.enc.openItem = none := by
  unfold closeOpen
  split <;> first | assumption | rfl

theorem Body.closed {w : Writing} (h : w.Body) : w.closeOpen.Body := by
  unfold Body
  rw [openItem_closeOpen]
  exact h.closeOpen

/-- An added item is open. -/
theorem Body.addItem {w : Writing} (h : w.Body) (item : ℕ → Item) :
    (w.addItem item).1.Items (some ((w.addItem item).2, (item (w.addItem item).2).id)) :=
  h.closeOpen.added (item w.closeOpen.enc.outputIndex)

theorem Body.wholeItem {w : Writing} (h : w.Body) (item : ℕ → Item) : (w.wholeItem item).Body := by
  have hdone := Items.done _ (h.addItem item)
  have hopen : (w.wholeItem item).enc.openItem = none := openItem_closeOpen w
  unfold Body
  rw [hopen]
  exact hdone

/-- An item that is kept open is the encoder's, under the tag that is handed back. -/
theorem Items.keepOpen {w : Writing} {index : ℕ} (item : ℕ → OpenItem)
    (h : w.Items (some (item index).tag)) :
    (keepOpen (w, index) item).1.Body ∧
      (keepOpen (w, index) item).1.enc.openItem.map OpenItem.tag =
        some (keepOpen (w, index) item).2 := ⟨h, rfl⟩

/-- The named item is open. -/
def Holds (o : Writing × ℕ × String) : Prop :=
  o.1.Body ∧ o.1.enc.openItem.map OpenItem.tag = some o.2

theorem Body.openReasoning {w : Writing} (h : w.Body) : Holds w.openReasoning := by
  unfold Writing.openReasoning
  split
  · rename_i hopen
    exact ⟨h, by rw [hopen]; rfl⟩
  · have hadded := h.addItem fun index =>
      .reasoning (itemId "rs" w.enc.requestId index) (some []) none none
    exact Items.keepOpen _ hadded

theorem Body.openMessage {w : Writing} (h : w.Body) : Holds w.openMessage := by
  unfold Writing.openMessage
  split
  · rename_i hopen
    exact ⟨h, by rw [hopen]; rfl⟩
  · have hadded := h.addItem fun index =>
      .message (itemId "msg" w.enc.requestId index) "in_progress" []
    have hpart : "response.content_part.added" ∈ pieceEvents := by simp [pieceEvents]
    exact Items.keepOpen (fun index => .message index (itemId "msg" w.enc.requestId index) "")
      (hadded.piece hpart "")

theorem Body.openTool {w : Writing} (h : w.Body) (call : ToolCallDelta) :
    Holds (w.openTool call) := by
  have hadded := h.addItem fun index => .functionCall (itemId "fc" w.enc.requestId index)
    (call.id.getD "") (call.name.getD "") "" "in_progress"
  have hfresh := Items.keepOpen
    (fun index => .tool index (itemId "fc" w.enc.requestId index) call.index) hadded
  unfold Writing.openTool
  split
  · rename_i hopen
    split
    · exact ⟨h, by rw [hopen]; rfl⟩
    · exact hfresh
  · exact hfresh

theorem tag_updateOpen (w : Writing) {f : OpenItem → OpenItem}
    (hf : ∀ item, (f item).tag = item.tag) :
    (w.updateOpen f).enc.openItem.map OpenItem.tag = w.enc.openItem.map OpenItem.tag := by
  simp [updateOpen, Function.comp_def, hf]

/-- A change of the open item that keeps its tag writes nothing. -/
theorem Body.updateOpen {w : Writing} (h : w.Body) {f : OpenItem → OpenItem}
    (hf : ∀ item, (f item).tag = item.tag) : (w.updateOpen f).Body := by
  unfold Body
  rw [tag_updateOpen w hf]
  exact h

theorem Holds.updateOpen {o : Writing × ℕ × String} (h : Holds o) {f : OpenItem → OpenItem}
    (hf : ∀ item, (f item).tag = item.tag) : Holds (o.1.updateOpen f, o.2) :=
  ⟨h.1.updateOpen hf, (tag_updateOpen o.1 hf).trans h.2⟩

theorem Holds.pushPiece {o : Writing × ℕ × String} (h : Holds o) {event : String}
    (hevent : event ∈ pieceEvents) (text : String) : (o.1.pushPiece o.2 event text).Body := by
  obtain ⟨hbody, htag⟩ := h
  unfold Body at hbody ⊢
  rw [htag] at hbody
  have hopen : (o.1.pushPiece o.2 event text).enc.openItem.map OpenItem.tag = some o.2 := htag
  rw [hopen]
  exact hbody.piece hevent text

/-- A change of what is accumulated writes nothing. -/
theorem Body.accumulate {w : Writing} (h : w.Body) (f : Accumulated → Accumulated) :
    (w.accumulate f).Body := h

theorem Streaming.accumulate {w : Writing} (h : w.Streaming) (f : Accumulated → Accumulated) :
    (w.accumulate f).Streaming := h

/-- Without an open item there is nothing to close. -/
theorem Streaming.closed {w : Writing} (h : w.Streaming) : w.closeOpen.Streaming := by
  rcases h with h | ⟨hnot, hout, hindex, hopen⟩
  · exact .inl h.closed
  · have hsame : w.closeOpen = w := by
      unfold closeOpen
      rw [hopen]
    rw [hsame]
    exact .inr ⟨hnot, hout, hindex, hopen⟩

/-- A signature outside reasoning writes nothing. -/
theorem Streaming.updateOpen {w : Writing} (h : w.Streaming) {f : OpenItem → OpenItem}
    (hf : ∀ item, (f item).tag = item.tag) : (w.updateOpen f).Streaming := by
  rcases h with h | ⟨hnot, hout, hindex, hopen⟩
  · exact .inl (h.updateOpen hf)
  · exact .inr ⟨hnot, hout, hindex, by simp [Writing.updateOpen, hopen]⟩

/-- One chunk. -/
theorem Streaming.encode {w : Writing} (h : w.Streaming) (chunk : StreamChunk) :
    (w.encode chunk).Streaming := by
  have hbody := h.ensureStarted
  cases chunk with
  | start id model =>
    simp only [Writing.encode]
    split
    · have h' : ({ w with enc.requestId := id } : Writing).Streaming := h
      exact .inl h'.ensureStarted
    · exact .inl hbody
  | usage u => exact h.accumulate _
  | thinking index delta =>
    simp only [Writing.encode]
    split
    · exact h
    · have hopen := (hbody.accumulate fun acc =>
        { acc with thinkText := acc.thinkText ++ delta }).openReasoning
      exact .inl ((hopen.updateOpen (OpenItem.tag_pushReasoning delta)).pushPiece
        (by simp [pieceEvents]) delta)
  | thinkingSignature index signature =>
    simp only [Writing.encode]
    split
    · exact h
    · exact (h.accumulate _).updateOpen (OpenItem.tag_sign signature)
  | redactedThinking index data =>
    simp only [Writing.encode]
    split
    · exact h
    · exact .inl ((hbody.accumulate _).wholeItem _)
  | compaction outputIndex index delta id encryptedContent signature =>
    simp only [Writing.encode]
    split
    · exact h
    · exact .inl ((hbody.closed.accumulate _).wholeItem _)
  | outputItem index message =>
    simp only [Writing.encode]
    split
    · exact h
    · exact h.accumulate _
  | content index delta =>
    simp only [Writing.encode]
    split
    · exact h
    · have hopen := (hbody.accumulate fun acc => { acc with text := acc.text ++ delta }).openMessage
      exact .inl ((hopen.updateOpen (OpenItem.tag_pushMessage delta)).pushPiece
        (by simp [pieceEvents]) delta)
  | toolCall index call =>
    simp only [Writing.encode]
    split
    · exact h
    · have hopen := (hbody.accumulate fun acc => { acc with
        tools := acc.tools.update call.index ⟨"", "", ""⟩ (Collected.addFragment call) }).openTool
        call
      split
      · exact .inl hopen.1
      · exact .inl (hopen.pushPiece (by simp [pieceEvents]) _)
  | finish index reason =>
    simp only [Writing.encode]
    split
    · exact h
    · exact h.closed.accumulate _

theorem Streaming.new (requestId model : String) (created : ℕ) (echo : RequestEcho) :
    (new requestId model created echo).Streaming := .inr ⟨rfl, rfl, rfl, rfl⟩

/-- What a run of chunks keeps. -/
theorem Streaming.foldl {w : Writing} (h : w.Streaming) (chunks : List StreamChunk) :
    (chunks.foldl Writing.encode w).Streaming := by
  induction chunks generalizing w with
  | nil => exact h
  | cons chunk chunks ih => exact ih (h.encode chunk)

theorem terminalEvent_mem (status : String) : terminalEvent status ∈
    ["response.completed", "response.incomplete", "response.failed"] := by
  unfold terminalEvent
  split
  · simp
  · split <;> simp

/-- The end of a stream closes what is open and adds the terminal frame. -/
theorem Streaming.finish {w : Writing} (h : w.Streaming) : WellFormed w.finish.out := by
  obtain ⟨-, created, inProgress, frames, hout, hc, hp, hb⟩ := h.ensureStarted.closeOpen
  obtain ⟨blocks, rfl, -, hblocks⟩ := hb.blocks
  let closed := w.ensureStarted.closeOpen
  let terminal : Frame :=
    ⟨terminalEvent closed.snapshot.status, .response closed.snapshot, closed.enc.seq⟩
  have hout' : w.finish.out = closed.out ++ [terminal] := rfl
  exact ⟨created, inProgress, blocks, terminal, by simp [hout', closed, hout], hc, hp, hblocks,
    terminalEvent_mem _⟩

/-! ### Sequences of operations -/

/-- What can be done to an encoder. -/
inductive Op where
  | encode (chunk : StreamChunk)
  | errorFrame (message : String)
  | finish

/-- Do it. -/
def perform (w : Writing) : Op → Writing
  | .encode chunk => w.encode chunk
  | .errorFrame message => w.errorFrame message
  | .finish => w.finish

theorem Sequenced.finish {w : Writing} (h : w.Sequenced) : w.finish.Sequenced :=
  h.ensureStarted.closeOpen.push _ _

theorem Sequenced.perform {w : Writing} (h : w.Sequenced) (op : Op) : (w.perform op).Sequenced := by
  cases op with
  | encode chunk => exact h.encode chunk
  | errorFrame message => exact h.push _ _
  | finish => exact h.finish

theorem Sequenced.foldl {w : Writing} (h : w.Sequenced) (ops : List Op) :
    (ops.foldl Writing.perform w).Sequenced := by
  induction ops generalizing w with
  | nil => exact h
  | cons op ops ih => exact ih (h.perform op)

theorem Sequenced.consecutive {w : Writing} (h : w.Sequenced) : Consecutive w.out := by
  have hlen : w.out.length = w.enc.seq := by simpa using congrArg List.length h
  unfold Consecutive
  rw [hlen]
  exact h

/-- A stream is the chunks and then the end. -/
theorem foldl_perform (w : Writing) (chunks : List StreamChunk) :
    (chunks.map Op.encode).foldl perform w = chunks.foldl encode w := by
  rw [List.foldl_map]
  rfl

end Writing

/-- **Every stream of chunks is a numbered sequence of items inside one envelope**, and every
sequence of chunks, errors and ends numbers its frames from 0 on. -/
theorem streamFrames_sequenced (requestId model : String) (created : ℕ) (echo : RequestEcho) :
    (∀ chunks, WellFormed (streamFrames requestId model created echo chunks) ∧
      Consecutive (streamFrames requestId model created echo chunks)) ∧
      ∀ ops : List Writing.Op, Consecutive
        (ops.foldl Writing.perform (.new requestId model created echo)).out := by
  have hseq : (Writing.new requestId model created echo).Sequenced := rfl
  refine ⟨fun chunks => ⟨?_, ?_⟩, fun ops => (hseq.foldl ops).consecutive⟩
  · exact ((Writing.Streaming.new requestId model created echo).foldl chunks).finish
  · have hchunks := hseq.foldl (chunks.map .encode)
    rw [Writing.foldl_perform] at hchunks
    exact hchunks.finish.consecutive

end Llmleaf.Responses
