import Llmleaf.Compat.Anthropic
import Llmleaf.Chat.Collect

/-!
# The Anthropic edge: streamed against collected

A client reassembles the streamed frames block by block; `responseToAnthropic` renders the
collected response. The encoder knows only the block that is open, the collector keys every
fragment by its choice and call, so the two agree only on some streams.

- `Client`: the blocks a client assembles; `Mirrors`: what they hold after each chunk.
- `callRuns`: the uninterrupted runs of fragments, each of which becomes a block of its own.
- `streamed_eq_collected_iff`: when the client reads what the collected message says.
-/

namespace Llmleaf.Anthropic

/-! ## The collected message -/

/-- A content block of a message; `input` is the document of a tool's arguments. -/
inductive ContentBlockOut where
  | text (text : String)
  | thinking (thinking : String) (signature : Option String)
  | redactedThinking (data : String)
  | compaction (content : String) (signature : Option String)
  | toolUse (id name : String) (input : Value)
  deriving DecidableEq

/-- A `message`. -/
structure MessageView where
  id : String
  kind : String
  role : String
  model : String
  content : List ContentBlockOut
  stopReason : String
  stopSequence : Option String
  usage : UsageOut
  deriving DecidableEq

/-- The content blocks of a choice; `fromStr` parses a document. -/
def contentBlocks (fromStr : String → Option Value) (c : Choice) : List ContentBlockOut :=
  (c.thinking.filterMap fun
    | .thinking thinking signature => some (.thinking thinking signature)
    | .redactedThinking data => some (.redactedThinking data)
    | _ => none) ++
  (c.compaction.filterMap fun
    | .compaction _ _ (some summary) _ signature => some (.compaction summary signature)
    | _ => none) ++
  (if c.text = "" then [] else [.text c.text]) ++
  c.toolCalls.map fun call =>
    .toolUse call.id call.name ((fromStr call.arguments).getD (.object []))

/-- The message of a collected response, built from its first choice. -/
def responseToAnthropic (fromStr : String → Option Value) (resp : ChatResponse) (id : String) :
    MessageView :=
  let choice := resp.choices.head?
  { id := id
    kind := "message"
    role := "assistant"
    model := resp.model
    content := (choice.map (contentBlocks fromStr)).getD []
    stopReason := ((choice.bind Choice.finishReason).map finishToAnthropic).getD "end_turn"
    stopSequence := none
    usage := .from resp.usage }

/-! ## What a reader takes from a message -/

/-- The visible text, the tool calls with their argument texts, the stop reason and the usage. -/
structure Reading where
  text : String
  calls : List ToolCall
  stopReason : String
  usage : UsageOut
  deriving DecidableEq

/-- The text of a content block that is visible. -/
def ContentBlockOut.visible : ContentBlockOut → Option String
  | .text t => some t
  | _ => none

/-- The reading of a collected response: its calls are those whose argument texts the message
renders as documents. -/
def collectedReading (fromStr : String → Option Value) (resp : ChatResponse) (id : String) :
    Reading where
  text := String.join ((responseToAnthropic fromStr resp id).content.filterMap (·.visible))
  calls := (resp.choices.head?.map Choice.toolCalls).getD []
  stopReason := (responseToAnthropic fromStr resp id).stopReason
  usage := (responseToAnthropic fromStr resp id).usage

/-- A block that a client has assembled: how it started and the texts of its deltas. -/
structure ClientBlock where
  start : ContentBlock
  text : String
  thinking : String
  signature : String
  json : String
  deriving DecidableEq

namespace ClientBlock

def new (start : ContentBlock) : ClientBlock := ⟨start, "", "", "", ""⟩

/-- Take in a delta. -/
def apply (b : ClientBlock) : Delta → ClientBlock
  | .text text => { b with text := b.text ++ text }
  | .thinking thinking => { b with thinking := b.thinking ++ thinking }
  | .signature signature => { b with signature := b.signature ++ signature }
  | .inputJson partialJson => { b with json := b.json ++ partialJson }
  | .compaction _ => b

/-- The visible text of a block. -/
def visible (b : ClientBlock) : String :=
  match b.start with
  | .text text => text ++ b.text
  | _ => ""

/-- The tool call of a block. -/
def call (b : ClientBlock) : Option ToolCall :=
  match b.start with
  | .toolUse id name => some ⟨id, name, b.json⟩
  | _ => none

end ClientBlock

/-- What a client has assembled of a message. -/
structure Client where
  blocks : List ClientBlock
  closing : Option (String × UsageOut)
  deriving DecidableEq

namespace Client

def start : Client := ⟨[], none⟩

/-- Take in one frame. -/
def step (client : Client) (frame : Frame) : Client :=
  match frame.data with
  | .blockStart _ block => { client with blocks := client.blocks ++ [.new block] }
  | .blockDelta index delta =>
    { client with blocks := client.blocks.modify index (·.apply delta) }
  | .messageDelta stopReason usage => { client with closing := some (stopReason, usage) }
  | .messageStart _ | .blockStop _ | .messageStop => client

/-- What the frames leave a client with. -/
def read (frames : List Frame) : Client := frames.foldl step start

/-- The reading of a closed message. -/
def reading (client : Client) : Option Reading :=
  client.closing.map fun (stopReason, usage) =>
    ⟨String.join (client.blocks.map ClientBlock.visible), client.blocks.filterMap ClientBlock.call,
      stopReason, usage⟩

end Client

/-! ## Where the client's blocks are -/

namespace ClientBlock

@[simp] theorem apply_start (b : ClientBlock) (delta : Delta) :
    (b.apply delta).start = b.start := by
  cases delta <;> rfl

theorem apply_empty (b : ClientBlock) :
    b.apply (.text "") = b ∧ b.apply (.thinking "") = b ∧ b.apply (.inputJson "") = b ∧
      b.apply (.compaction "") = b := by
  simp [apply]

end ClientBlock

/-- A client that has read what is written has these blocks, and the encoder's open block is the
last of them. -/
structure Placed (w : Writing) (blocks : List ClientBlock) : Prop where
  read : Client.read w.out = ⟨blocks, none⟩
  next : w.enc.nextIndex = blocks.length
  opened : ∀ b, w.enc.openBlock = some b →
    ∃ front last, blocks = front ++ [last] ∧ b.index = front.length ∧ last.start.kind = b.kind

theorem Client.read_push (w : Writing) (event : String) (data : Payload) :
    Client.read (w.push event data).out = (Client.read w.out).step ⟨event, data⟩ := by
  simp [Client.read]

theorem placed_new (id model : String) : Placed (.new id model) [] :=
  ⟨rfl, rfl, fun _ h => nomatch h⟩

namespace Placed

variable {w : Writing} {blocks : List ClientBlock}

theorem ensureStarted (h : Placed w blocks) : Placed w.ensureStarted blocks := by
  unfold Writing.ensureStarted
  split
  · exact h
  · refine ⟨?_, h.next, h.opened⟩
    rw [Client.read_push]
    simp [h.read, Client.step]

theorem closeOpen (h : Placed w blocks) : Placed w.closeOpen blocks := by
  cases hopen : w.enc.openBlock with
  | none => rwa [Writing.closeOpen_none hopen]
  | some block =>
    rw [Writing.closeOpen_some hopen]
    refine ⟨?_, h.next, fun _ hb => nomatch hb⟩
    rw [Client.read_push]
    simp [h.read, Client.step]

/-- A started block is a new one at the end of the client's. -/
theorem startBlock (h : Placed w blocks) (block : ContentBlock) :
    Placed (w.startBlock block).1 (blocks ++ [.new block]) ∧
      (w.startBlock block).2 = blocks.length := by
  obtain ⟨hread, hnext, -⟩ := h.closeOpen
  refine ⟨⟨?_, by simp [Writing.startBlock, hnext], ?_⟩, hnext⟩
  · simp only [Writing.startBlock]
    rw [Client.read_push]
    simp [hread, Client.step]
  · intro b hb
    rw [Writing.startBlock_openBlock] at hb
    cases hb

theorem startOpen (h : Placed w blocks) (block : ContentBlock) (mk : ℕ → OpenBlock)
    (hi : ∀ i, (mk i).index = i) (hk : ∀ i, (mk i).kind = block.kind) :
    Placed (w.startOpen block mk).1 (blocks ++ [.new block]) ∧
      (w.startOpen block mk).2 = blocks.length ∧
      (w.startOpen block mk).1.enc.openBlock = some (mk blocks.length) := by
  obtain ⟨⟨hread, hnext, -⟩, hindex⟩ := h.startBlock block
  refine ⟨⟨hread, hnext, fun b hb => ?_⟩, hindex, by simp [Writing.startOpen, hindex]⟩
  cases hb
  exact ⟨blocks, .new block, rfl, (hi _).trans hindex, (hk _).symm⟩

end Placed

theorem modify_last (front : List ClientBlock) (last : ClientBlock)
    (f : ClientBlock → ClientBlock) :
    (front ++ [last]).modify front.length f = front ++ [f last] := by
  induction front with
  | nil => rfl
  | cons b front ih => rw [List.cons_append, List.length_cons, List.modify_succ_cons, ih]; rfl

/-- A delta goes to the last block of the client. -/
theorem Placed.pushDelta {w : Writing} {front : List ClientBlock} {last : ClientBlock}
    (h : Placed w (front ++ [last])) (delta : Delta) :
    Placed (Writing.pushDelta (w, front.length) delta) (front ++ [last.apply delta]) := by
  obtain ⟨hread, hnext, hopened⟩ := h
  refine ⟨?_, by simpa [Writing.pushDelta] using hnext, fun b hb => ?_⟩
  · simp only [Writing.pushDelta]
    rw [Client.read_push]
    simp [hread, Client.step, modify_last]
  · obtain ⟨front', last', heq, hi, hk⟩ := hopened b hb
    obtain ⟨rfl, hlast⟩ := List.append_inj' heq rfl
    cases hlast
    exact ⟨front, last.apply delta, rfl, hi, by rw [ClientBlock.apply_start, hk]⟩

theorem Placed.pushText {w : Writing} {front : List ClientBlock} {last : ClientBlock}
    (h : Placed w (front ++ [last])) (text : String) {delta : String → Delta}
    (hd : last.apply (delta "") = last) :
    Placed (Writing.pushText (w, front.length) text delta) (front ++ [last.apply (delta text)]) := by
  unfold Writing.pushText
  split
  · rename_i ht
    rw [ht, hd]
    exact h
  · exact h.pushDelta (delta text)

/-! ## Texts and calls of the blocks -/

/-- The visible text of the blocks. -/
def visibleText (blocks : List ClientBlock) : String :=
  String.join (blocks.map ClientBlock.visible)

/-- The tool calls of the blocks. -/
def toolCalls (blocks : List ClientBlock) : List ToolCall := blocks.filterMap ClientBlock.call

theorem visibleText_append (a b : List ClientBlock) :
    visibleText (a ++ b) = visibleText a ++ visibleText b := by
  simp [visibleText, String.join_append]

theorem toolCalls_append (a b : List ClientBlock) :
    toolCalls (a ++ b) = toolCalls a ++ toolCalls b := List.filterMap_append

/-- A block that shows no text and is no call. -/
structure Silent (b : ClientBlock) : Prop where
  text : b.visible = ""
  call : b.call = none

/-- Two client views with the same visible text and the same calls. -/
structure SameView (a b : List ClientBlock) : Prop where
  text : visibleText a = visibleText b
  calls : toolCalls a = toolCalls b

theorem Silent.sameView {b : ClientBlock} (h : Silent b) (blocks : List ClientBlock) :
    SameView (blocks ++ [b]) blocks where
  text := by rw [visibleText_append]; simp [visibleText, h.text, String.join]
  calls := by rw [toolCalls_append]; simp [toolCalls, h.call]

theorem ContentBlock.kind_text {b : ContentBlock} (h : b.kind = "text") : ∃ t, b = .text t := by
  cases b with
  | text t => exact ⟨t, rfl⟩
  | _ => simp [ContentBlock.kind] at h

theorem ContentBlock.kind_thinking {b : ContentBlock} (h : b.kind = "thinking") :
    ∃ t, b = .thinking t := by
  cases b with
  | thinking t => exact ⟨t, rfl⟩
  | _ => simp [ContentBlock.kind] at h

theorem ContentBlock.kind_toolUse {b : ContentBlock} (h : b.kind = "tool_use") :
    ∃ id name, b = .toolUse id name := by
  cases b with
  | toolUse id name => exact ⟨id, name, rfl⟩
  | _ => simp [ContentBlock.kind] at h

/-- Whatever a thinking block takes in stays out of view. -/
theorem SameView.thinking {front blocks : List ClientBlock} {b : ClientBlock}
    (h : SameView (front ++ [b]) blocks) (hb : b.start.kind = "thinking") (delta : Delta) :
    SameView (front ++ [b.apply delta]) blocks := by
  obtain ⟨t, ht⟩ := ContentBlock.kind_thinking hb
  constructor
  · rw [← h.text, visibleText_append, visibleText_append]
    simp [visibleText, ClientBlock.visible, ht]
  · rw [← h.calls, toolCalls_append, toolCalls_append]
    simp [toolCalls, ClientBlock.call, ht]

namespace Placed

variable {w : Writing} {blocks : List ClientBlock}

/-- The client's blocks with the open one last. -/
structure Last (w : Writing × ℕ) (front : List ClientBlock) (last : ClientBlock)
    (block : OpenBlock) : Prop where
  placed : Placed w.1 (front ++ [last])
  index : w.2 = front.length
  openBlock : w.1.enc.openBlock = some block
  kind : last.start.kind = block.kind

/-- An open block of the encoder is the client's last. -/
theorem last (h : Placed w blocks) {block : OpenBlock} (hb : w.enc.openBlock = some block) :
    ∃ front b, blocks = front ++ [b] ∧ Last (w, block.index) front b block := by
  obtain ⟨front, b, rfl, hi, hk⟩ := h.opened block hb
  exact ⟨front, b, rfl, h, hi, hb, hk⟩

/-- A fresh open block is a new one. -/
theorem fresh (h : Placed w blocks) (block : ContentBlock) (mk : ℕ → OpenBlock)
    (hi : ∀ i, (mk i).index = i) (hk : ∀ i, (mk i).kind = block.kind) :
    Last (w.startOpen block mk) blocks (.new block) (mk blocks.length) := by
  obtain ⟨hplaced, hindex, hopen⟩ := h.startOpen block mk hi hk
  exact ⟨hplaced, hindex, hopen, (hk _).symm⟩

theorem openText (h : Placed w blocks) :
    ∃ front b index, Last w.openText front b (.text index) ∧ SameView (front ++ [b]) blocks := by
  unfold Writing.openText
  split
  · rename_i index hb
    obtain ⟨front, b, rfl, hlast⟩ := h.last hb
    exact ⟨front, b, index, hlast, rfl, rfl⟩
  · exact ⟨blocks, _, _, h.fresh (.text "") .text (fun _ => rfl) fun _ => rfl,
      Silent.sameView ⟨rfl, rfl⟩ blocks⟩

theorem openThinking (h : Placed w blocks) :
    ∃ front b index, Last w.openThinking front b (.thinking index) ∧
      SameView (front ++ [b]) blocks := by
  unfold Writing.openThinking
  split
  · rename_i index hb
    obtain ⟨front, b, rfl, hlast⟩ := h.last hb
    exact ⟨front, b, index, hlast, rfl, rfl⟩
  · exact ⟨blocks, _, _, h.fresh (.thinking "") .thinking (fun _ => rfl) fun _ => rfl,
      Silent.sameView ⟨rfl, rfl⟩ blocks⟩

/-- A whole block of text that is neither visible nor a call. -/
theorem wholeBlock (h : Placed w blocks) (block : ContentBlock) (text : String)
    {delta : String → Delta} (hd : ∀ b : ClientBlock, b.apply (delta "") = b)
    (hsilent : Silent ((ClientBlock.new block).apply (delta text))) :
    ∃ blocks', Placed (w.wholeBlock block text delta) blocks' ∧ SameView blocks' blocks := by
  obtain ⟨hplaced, hindex⟩ := h.startBlock block
  have hpushed := hplaced.pushText text (hd _)
  refine ⟨_, ⟨?_, ?_, ?_⟩, hsilent.sameView blocks⟩
  · simp only [Writing.wholeBlock]
    rw [Client.read_push, hindex, hpushed.read]
    rfl
  · simpa [Writing.wholeBlock] using hpushed.next
  · intro b hb
    simp [Writing.wholeBlock] at hb

/-- A delta pushed on the open block goes to the client's last block. -/
theorem Last.pushDelta {w : Writing × ℕ} {front : List ClientBlock} {b : ClientBlock}
    {block : OpenBlock} (h : Last w front b block) (delta : Delta) :
    Placed (Writing.pushDelta w delta) (front ++ [b.apply delta]) := by
  obtain ⟨w, i⟩ := w
  obtain rfl : i = front.length := h.index
  exact h.placed.pushDelta delta

/-- So does a text, unless it is empty and changes nothing. -/
theorem Last.pushText {w : Writing × ℕ} {front : List ClientBlock} {b : ClientBlock}
    {block : OpenBlock} (h : Last w front b block) (text : String) (delta : String → Delta)
    (hd : b.apply (delta "") = b) :
    Placed (Writing.pushText w text delta) (front ++ [b.apply (delta text)]) := by
  obtain ⟨w, i⟩ := w
  obtain rfl : i = front.length := h.index
  exact h.placed.pushText text hd

end Placed

/-! ## What becomes of the chunks -/

/-- The text of a content delta. -/
def contentDelta : StreamChunk → Option String
  | .content _ delta => some delta
  | _ => none

/-- The text of all content deltas. -/
def contentText (chunks : List StreamChunk) : String := String.join (chunks.filterMap contentDelta)

/-- The fragment of a tool call that a chunk is. -/
def fragment : StreamChunk → Option ToolCallDelta
  | .toolCall _ call => some call
  | _ => none

/-- The fragments under a call index, of whatever choice. -/
def fragments (k : ℕ) (chunks : List StreamChunk) : List ToolCallDelta :=
  (chunks.filterMap fragment).filter fun call => call.index = k

/-- The call whose fragments come without interruption, and the runs so far. -/
def runStep (acc : Option ℕ × List ℕ) : StreamChunk → Option ℕ × List ℕ
  | .toolCall _ call =>
    if acc.1 = some call.index then acc else (some call.index, acc.2 ++ [call.index])
  | .content _ _ | .thinking _ _ | .thinkingSignature _ _ | .redactedThinking _ _
  | .compaction _ _ _ _ _ _ => (none, acc.2)
  | .outputItem _ _ | .start _ _ | .usage _ | .finish _ _ => acc

/-- The current run and the call indices of all runs. -/
def runs (chunks : List StreamChunk) : Option ℕ × List ℕ := chunks.foldl runStep (none, [])

/-- The call indices of the uninterrupted runs of fragments, in order of arrival. -/
def callRuns (chunks : List StreamChunk) : List ℕ := (runs chunks).2

/-- A call under the id and name of its first fragment. -/
def openedCall (calls : List ToolCallDelta) : ToolCall where
  id := (calls.head?.bind ToolCallDelta.id).getD ""
  name := (calls.head?.bind ToolCallDelta.name).getD ""
  arguments := String.join (calls.map fun call => call.arguments.getD "")

theorem contentText_snoc (chunks : List StreamChunk) (c : StreamChunk) :
    contentText (chunks ++ [c]) = contentText chunks ++ (contentDelta c).getD "" := by
  cases h : contentDelta c <;>
    simp [contentText, List.filterMap_append, String.join_append, h]

theorem fragments_snoc (k : ℕ) (chunks : List StreamChunk) (c : StreamChunk) :
    fragments k (chunks ++ [c]) =
      fragments k chunks ++ (fragment c).toList.filter fun call => call.index = k := by
  cases h : fragment c <;> simp [fragments, List.filterMap_append, h]

theorem runs_snoc (chunks : List StreamChunk) (c : StreamChunk) :
    runs (chunks ++ [c]) = runStep (runs chunks) c := by
  simp [runs]

/-- The current run is the last one. -/
theorem runs_last (chunks : List StreamChunk) (k : ℕ) (h : (runs chunks).1 = some k) :
    ∃ front, callRuns chunks = front ++ [k] := by
  induction chunks using List.reverseRecOn with
  | nil => simp [runs] at h
  | append_singleton chunks c ih =>
    rw [callRuns, runs_snoc] at *
    cases c with
    | toolCall index call =>
      simp only [runStep] at h ⊢
      split at h
      · rename_i hrun
        rw [if_pos hrun]
        exact ih h
      · rename_i hrun
        rw [if_neg hrun]
        cases h
        exact ⟨_, rfl⟩
    | outputItem index message => exact ih h
    | start id model => exact ih h
    | usage u => exact ih h
    | finish index reason => exact ih h
    | _ => cases h

/-- A call has a run exactly if it has a fragment. -/
theorem mem_callRuns (chunks : List StreamChunk) (k : ℕ) :
    k ∈ callRuns chunks ↔ fragments k chunks ≠ [] := by
  induction chunks using List.reverseRecOn with
  | nil => simp [callRuns, runs, fragments]
  | append_singleton chunks c ih =>
    rw [fragments_snoc, callRuns, runs_snoc]
    rw [callRuns] at ih
    cases c with
    | toolCall index call =>
      simp only [runStep, fragment, Option.toList_some]
      split
      · rename_i hrun
        obtain ⟨front, hfront⟩ := runs_last chunks _ hrun
        rw [callRuns] at hfront
        rw [ih]
        by_cases hk : call.index = k
        · have hmem : k ∈ (runs chunks).2 := by simp [hfront, hk]
          simp [ih.mp hmem]
        · simp [hk]
      · rw [List.mem_append, ih]
        by_cases hk : call.index = k
        · simp [hk]
        · simp [hk, Ne.symm hk]
    | _ => simpa [runStep, fragment] using ih

/-- The first fragment of a run begins a call. -/
theorem openedCall_singleton (call : ToolCallDelta) :
    openedCall [call] = ⟨call.id.getD "", call.name.getD "", call.arguments.getD ""⟩ := by
  simp [openedCall, String.join]

/-- A further fragment adds its argument text. -/
theorem openedCall_snoc {calls : List ToolCallDelta} (h : calls ≠ []) (call : ToolCallDelta) :
    openedCall (calls ++ [call]) =
      { openedCall calls with
        arguments := (openedCall calls).arguments ++ call.arguments.getD "" } := by
  obtain ⟨first, rest, rfl⟩ := List.exists_cons_of_ne_nil h
  simp [openedCall, String.join_append, String.append_assoc]

/-- The calls of the runs, each under its first id and name. -/
def openedCalls (chunks : List StreamChunk) : List ToolCall :=
  (callRuns chunks).map fun k => openedCall (fragments k chunks)

theorem callRuns_of_not_fragment (chunks : List StreamChunk) {c : StreamChunk}
    (h : fragment c = none) : callRuns (chunks ++ [c]) = callRuns chunks := by
  rw [callRuns, runs_snoc]
  cases c <;> first | rfl | cases h

theorem openedCalls_of_not_fragment (chunks : List StreamChunk) {c : StreamChunk}
    (h : fragment c = none) : openedCalls (chunks ++ [c]) = openedCalls chunks := by
  rw [openedCalls, callRuns_of_not_fragment chunks h]
  exact List.map_congr_left fun k _ => by simp [fragments_snoc, h]

/-- The fragments of other calls are not affected by a fragment. -/
theorem fragments_other {k index : ℕ} {call : ToolCallDelta} (chunks : List StreamChunk)
    (h : call.index ≠ k) :
    fragments k (chunks ++ [.toolCall index call]) = fragments k chunks := by
  rw [fragments_snoc]
  simp [fragment, h]

theorem fragments_same (chunks : List StreamChunk) (index : ℕ) (call : ToolCallDelta) :
    fragments call.index (chunks ++ [.toolCall index call]) =
      fragments call.index chunks ++ [call] := by
  rw [fragments_snoc]
  simp [fragment]

/-- A fragment of the current run. -/
theorem runs_reuse {chunks : List StreamChunk} {index : ℕ} {call : ToolCallDelta}
    (hrun : (runs chunks).1 = some call.index) :
    runs (chunks ++ [.toolCall index call]) = runs chunks := by
  rw [runs_snoc, runStep, if_pos hrun]

/-- A fragment that begins a run. -/
theorem runs_fresh {chunks : List StreamChunk} {index : ℕ} {call : ToolCallDelta}
    (hrun : (runs chunks).1 ≠ some call.index) :
    runs (chunks ++ [.toolCall index call]) =
      (some call.index, callRuns chunks ++ [call.index]) := by
  rw [runs_snoc, runStep, if_neg hrun]
  rfl

/-- A fragment of the current run extends the last call. -/
theorem openedCalls_reuse {chunks : List StreamChunk} (index : ℕ) {call : ToolCallDelta}
    (hrun : (runs chunks).1 = some call.index) (hnodup : (callRuns chunks).Nodup) :
    ∃ front last, openedCalls chunks = front ++ [last] ∧
      openedCalls (chunks ++ [.toolCall index call]) =
        front ++ [{ last with arguments := last.arguments ++ call.arguments.getD "" }] := by
  obtain ⟨front, hfront⟩ := runs_last chunks _ hrun
  have hne : fragments call.index chunks ≠ [] := (mem_callRuns chunks _).mp (by simp [hfront])
  have hnot : ∀ k ∈ front, call.index ≠ k := by
    intro k hk e
    rw [hfront, List.nodup_append] at hnodup
    exact hnodup.2.2 k hk call.index (by simp) e.symm
  refine ⟨front.map fun k => openedCall (fragments k chunks), _, by
    rw [openedCalls, hfront, List.map_append, List.map_singleton], ?_⟩
  rw [openedCalls, callRuns, runs_reuse hrun, ← callRuns, hfront, List.map_append,
    List.map_singleton, fragments_same, openedCall_snoc hne]
  congr 1
  exact List.map_congr_left fun k hk => by rw [fragments_other chunks (hnot k hk)]

/-- A fragment that begins a run begins a call. -/
theorem openedCalls_fresh {chunks : List StreamChunk} {index : ℕ} {call : ToolCallDelta}
    (hrun : (runs chunks).1 ≠ some call.index)
    (hnodup : (callRuns (chunks ++ [.toolCall index call])).Nodup) :
    (callRuns chunks).Nodup ∧ openedCalls (chunks ++ [.toolCall index call]) =
      openedCalls chunks ++ [⟨call.id.getD "", call.name.getD "", call.arguments.getD ""⟩] := by
  rw [callRuns, runs_fresh hrun, List.nodup_append] at hnodup
  obtain ⟨hnodup, -, hdisjoint⟩ := hnodup
  have hnot : ∀ k ∈ callRuns chunks, call.index ≠ k :=
    fun k hk e => hdisjoint k hk call.index (by simp) e.symm
  have hnone : fragments call.index chunks = [] := by
    by_contra hne
    exact hnot _ ((mem_callRuns chunks _).mpr hne) rfl
  refine ⟨hnodup, ?_⟩
  rw [openedCalls, callRuns, runs_fresh hrun, List.map_append, List.map_singleton,
    fragments_same, hnone, List.nil_append, openedCall_singleton]
  congr 1
  exact List.map_congr_left fun k hk => by rw [fragments_other chunks (hnot k hk)]

/-! ## The client against the chunks -/

/-- The call the open block belongs to. -/
def OpenBlock.canon : OpenBlock → Option ℕ
  | .tool _ canon => some canon
  | _ => none

/-- What a client has after some chunks: the text of all content, one call for each run, and each
call under its first id and name if no call has two runs. -/
structure Mirrors (w : Writing) (chunks : List StreamChunk) (blocks : List ClientBlock) : Prop where
  placed : Placed w blocks
  run : (runs chunks).1 = w.enc.openBlock.bind OpenBlock.canon
  text : visibleText blocks = contentText chunks
  count : (toolCalls blocks).length = (callRuns chunks).length
  calls : (callRuns chunks).Nodup → toolCalls blocks = openedCalls chunks

/-- A chunk that is no fragment adds its text and no call. -/
theorem Mirrors.text_step {w w' : Writing} {chunks : List StreamChunk}
    {blocks blocks' : List ClientBlock} (h : Mirrors w chunks blocks) {c : StreamChunk}
    (hc : fragment c = none) (hplaced : Placed w' blocks')
    (htext : visibleText blocks' = visibleText blocks ++ (contentDelta c).getD "")
    (hcalls : toolCalls blocks' = toolCalls blocks)
    (hrun : (runStep (runs chunks) c).1 = w'.enc.openBlock.bind OpenBlock.canon) :
    Mirrors w' (chunks ++ [c]) blocks' where
  placed := hplaced
  run := by rw [runs_snoc, hrun]
  text := by rw [contentText_snoc, htext, h.text]
  count := by rw [callRuns_of_not_fragment chunks hc, hcalls, h.count]
  calls hnodup := by
    rw [callRuns_of_not_fragment chunks hc] at hnodup
    rw [hcalls, h.calls hnodup, openedCalls_of_not_fragment chunks hc]

/-- A chunk that shows nothing. -/
theorem Mirrors.silent_step {w w' : Writing} {chunks : List StreamChunk}
    {blocks blocks' : List ClientBlock} (h : Mirrors w chunks blocks) {c : StreamChunk}
    (hc : fragment c = none) (hd : contentDelta c = none) (hplaced : Placed w' blocks')
    (hview : SameView blocks' blocks)
    (hrun : (runStep (runs chunks) c).1 = w'.enc.openBlock.bind OpenBlock.canon) :
    Mirrors w' (chunks ++ [c]) blocks' :=
  h.text_step hc hplaced (by simp [hview.text, hd]) hview.calls hrun

theorem ensureStarted_openBlock (w : Writing) :
    w.ensureStarted.enc.openBlock = w.enc.openBlock := by
  unfold Writing.ensureStarted
  split <;> rfl

theorem openTool_reuse {w : Writing} {call : ToolCallDelta} {i : ℕ}
    (h : w.enc.openBlock = some (.tool i call.index)) : w.openTool call = (w, i) := by
  simp [Writing.openTool, h]

theorem openTool_fresh {w : Writing} {call : ToolCallDelta}
    (h : w.enc.openBlock.bind OpenBlock.canon ≠ some call.index) :
    w.openTool call = w.startOpen (.toolUse (call.id.getD "") (call.name.getD ""))
      (.tool · call.index) := by
  unfold Writing.openTool
  split
  · rename_i index canon hopen
    rw [hopen] at h
    exact if_neg fun hc => h (by rw [← hc]; rfl)
  · rfl

/-- The block of a tool shows no text; its call has the argument texts it has taken in. -/
theorem toolUse_apply {b : ClientBlock} {id name : String} (h : b.start = .toolUse id name)
    (json : String) :
    (b.apply (.inputJson json)).visible = "" ∧ b.visible = "" ∧
      b.call = some ⟨id, name, b.json⟩ ∧
      (b.apply (.inputJson json)).call = some ⟨id, name, b.json ++ json⟩ := by
  simp [ClientBlock.visible, ClientBlock.call, ClientBlock.apply, h]

/-- A fragment of the call that is open goes to the last block. -/
theorem Mirrors.reuse {w : Writing} {chunks : List StreamChunk} {blocks : List ClientBlock}
    (h : Mirrors w chunks blocks) (index : ℕ) (call : ToolCallDelta) {i : ℕ}
    (hopen : w.enc.openBlock = some (.tool i call.index)) :
    ∃ blocks', Mirrors (w.encode (.toolCall index call))
      (chunks ++ [.toolCall index call]) blocks' := by
  have hopen' := (ensureStarted_openBlock w).trans hopen
  obtain ⟨front, b, rfl, hlast⟩ := h.placed.ensureStarted.last hopen'
  obtain ⟨id, name, hb⟩ := ContentBlock.kind_toolUse hlast.kind
  have hrun : (runs chunks).1 = some call.index := by rw [h.run, hopen]; rfl
  obtain ⟨hvisible', hvisible, hcall, hcall'⟩ := toolUse_apply hb (call.arguments.getD "")
  have hplaced := hlast.pushText (call.arguments.getD "") .inputJson
    (ClientBlock.apply_empty b).2.2.1
  refine ⟨front ++ [b.apply (.inputJson (call.arguments.getD ""))], ?_, ?_, ?_, ?_,
    fun hnodup => ?_⟩
  · simp only [Writing.encode, openTool_reuse hopen']
    exact hplaced
  · rw [runs_reuse hrun, h.run]
    simp [Writing.encode, openTool_reuse hopen', ensureStarted_openBlock]
  · rw [contentText_snoc, ← h.text, visibleText_append, visibleText_append]
    simp [visibleText, hvisible, hvisible', contentDelta]
  · have hcount := h.count
    rw [toolCalls_append] at hcount ⊢
    simpa [callRuns, runs_reuse hrun, toolCalls, hcall, hcall'] using hcount
  · rw [callRuns, runs_reuse hrun, ← callRuns] at hnodup
    obtain ⟨callFront, last, hbefore, hafter⟩ := openedCalls_reuse index hrun hnodup
    have hcalls := h.calls hnodup
    rw [hbefore, toolCalls_append] at hcalls
    obtain ⟨hfront, hcalls⟩ := List.append_inj' hcalls (by simp [toolCalls, hcall])
    simp only [toolCalls, List.filterMap_cons, hcall, List.filterMap_nil, List.cons.injEq,
      and_true] at hcalls
    rw [hafter, toolCalls_append, hfront, ← hcalls]
    simp [toolCalls, hcall']

/-- A fragment of another call starts a block. -/
theorem Mirrors.fresh {w : Writing} {chunks : List StreamChunk} {blocks : List ClientBlock}
    (h : Mirrors w chunks blocks) (index : ℕ) (call : ToolCallDelta)
    (hopen : w.enc.openBlock.bind OpenBlock.canon ≠ some call.index) :
    ∃ blocks', Mirrors (w.encode (.toolCall index call))
      (chunks ++ [.toolCall index call]) blocks' := by
  have hopen' : w.ensureStarted.enc.openBlock.bind OpenBlock.canon ≠ some call.index := by
    rwa [ensureStarted_openBlock]
  have hrun : (runs chunks).1 ≠ some call.index := by rwa [h.run]
  have hlast := h.placed.ensureStarted.fresh
    (.toolUse (call.id.getD "") (call.name.getD "")) (.tool · call.index) (fun _ => rfl)
    fun _ => rfl
  rw [← openTool_fresh hopen'] at hlast
  let b : ClientBlock := .new (.toolUse (call.id.getD "") (call.name.getD ""))
  obtain ⟨hvisible', -, -, hcall'⟩ := toolUse_apply (b := b) rfl (call.arguments.getD "")
  have hplaced := hlast.pushText (call.arguments.getD "") .inputJson
    (ClientBlock.apply_empty _).2.2.1
  refine ⟨blocks ++ [b.apply (.inputJson (call.arguments.getD ""))], hplaced, ?_, ?_, ?_,
    fun hnodup => ?_⟩
  · rw [runs_fresh hrun]
    simp [Writing.encode, hlast.openBlock, OpenBlock.canon]
  · rw [contentText_snoc, ← h.text, visibleText_append]
    simp [visibleText, hvisible', contentDelta]
  · rw [toolCalls_append, callRuns, runs_fresh hrun]
    simp [toolCalls, hcall', ← h.count]
  · obtain ⟨hnodup', hcalls⟩ := openedCalls_fresh hrun hnodup
    have hempty : b.json = "" := rfl
    rw [hcalls, toolCalls_append, h.calls hnodup']
    simp [toolCalls, hcall', hempty]

theorem Mirrors.encode {w : Writing} {chunks : List StreamChunk} {blocks : List ClientBlock}
    (h : Mirrors w chunks blocks) (c : StreamChunk) :
    ∃ blocks', Mirrors (w.encode c) (chunks ++ [c]) blocks' := by
  have hstart := h.placed.ensureStarted
  have hsame : SameView blocks blocks := ⟨rfl, rfl⟩
  cases c with
  | outputItem index message =>
    exact ⟨blocks, h.silent_step rfl rfl h.placed hsame h.run⟩
  | usage u =>
    exact ⟨blocks, h.silent_step rfl rfl ⟨h.placed.read, h.placed.next, h.placed.opened⟩ hsame h.run⟩
  | finish index reason =>
    exact ⟨blocks, h.silent_step rfl rfl ⟨h.placed.read, h.placed.next, h.placed.opened⟩ hsame h.run⟩
  | start id model =>
    refine ⟨blocks, h.silent_step rfl rfl hstart hsame ?_⟩
    simp only [Writing.encode, ensureStarted_openBlock]
    exact h.run
  | content index delta =>
    obtain ⟨front, b, i, hlast, hview⟩ := hstart.openText
    obtain ⟨t, ht⟩ := ContentBlock.kind_text hlast.kind
    refine ⟨_, h.text_step rfl (hlast.pushText delta .text (ClientBlock.apply_empty b).1) ?_ ?_ ?_⟩
    · rw [← hview.text, visibleText_append, visibleText_append, String.append_assoc]
      simp [visibleText, String.join, ClientBlock.visible, ClientBlock.apply, ht, contentDelta,
        String.append_assoc]
    · rw [← hview.calls, toolCalls_append, toolCalls_append]
      simp [toolCalls, ClientBlock.call, ht]
    · simp only [Writing.encode, Writing.pushText_enc, hlast.openBlock]
      rfl
  | thinking index delta =>
    obtain ⟨front, b, i, hlast, hview⟩ := hstart.openThinking
    refine ⟨_, h.silent_step rfl rfl (hlast.pushText delta .thinking (ClientBlock.apply_empty b).2.1)
      (hview.thinking hlast.kind _) ?_⟩
    simp only [Writing.encode, Writing.pushText_enc, hlast.openBlock]
    rfl
  | thinkingSignature index signature =>
    obtain ⟨front, b, i, hlast, hview⟩ := hstart.openThinking
    refine ⟨_, h.silent_step rfl rfl (hlast.pushDelta _) (hview.thinking hlast.kind _) ?_⟩
    simp only [Writing.encode, Writing.pushDelta_enc, hlast.openBlock]
    rfl
  | redactedThinking index data =>
    obtain ⟨blocks', hplaced, hview⟩ := hstart.wholeBlock (.redactedThinking data) ""
      (fun b => (ClientBlock.apply_empty b).2.2.2) ⟨rfl, rfl⟩
    exact ⟨blocks', h.silent_step rfl rfl hplaced hview (by simp [Writing.encode, runStep])⟩
  | compaction outputIndex index delta id encryptedContent signature =>
    cases signature with
    | some signature =>
      obtain ⟨blocks', hplaced, hview⟩ := hstart.wholeBlock (.compaction delta (some signature)) ""
        (fun b => (ClientBlock.apply_empty b).2.2.2) ⟨rfl, rfl⟩
      exact ⟨blocks', h.silent_step rfl rfl hplaced hview (by simp [Writing.encode, runStep])⟩
    | none =>
      obtain ⟨blocks', hplaced, hview⟩ := hstart.wholeBlock (.compaction "" none) delta
        (fun b => (ClientBlock.apply_empty b).2.2.2) ⟨rfl, rfl⟩
      exact ⟨blocks', h.silent_step rfl rfl hplaced hview (by simp [Writing.encode, runStep])⟩
  | toolCall index call =>
    by_cases hrun : w.enc.openBlock.bind OpenBlock.canon = some call.index
    · obtain ⟨block, hopen, hcanon⟩ := Option.bind_eq_some_iff.mp hrun
      cases block with
      | tool i canon =>
        cases hcanon
        exact h.reuse index call hopen
      | _ => cases hcanon
    · exact h.fresh index call hrun

theorem mirrors_foldl (id model : String) (chunks : List StreamChunk) :
    ∃ blocks, Mirrors (chunks.foldl Writing.encode (.new id model)) chunks blocks := by
  induction chunks using List.reverseRecOn with
  | nil => exact ⟨[], placed_new id model, rfl, rfl, rfl, fun _ => rfl⟩
  | append_singleton chunks c ih =>
    obtain ⟨blocks, h⟩ := ih
    rw [List.foldl_append]
    exact h.encode c

/-- The reason a chunk finishes its choice with. -/
def finishOf : StreamChunk → Option FinishReason
  | .finish _ reason => some reason
  | _ => none

/-- The stop reason that the last finish of some chunks maps to. -/
def stopReason (chunks : List StreamChunk) : String :=
  ((chunks.filterMap finishOf).getLast?.map finishToAnthropic).getD "end_turn"

theorem report_foldl (id model : String) (chunks : List StreamChunk) :
    (chunks.foldl Writing.encode (.new id model)).report =
      ((chunks.filterMap finishOf).getLast?, (lastUsage chunks).getD .zero) := by
  induction chunks using List.reverseRecOn with
  | nil => rfl
  | append_singleton chunks c ih =>
    rw [List.foldl_append, List.foldl_cons, List.foldl_nil, Writing.encode_report, ih]
    cases c <;> simp [lastUsage, finishOf, StreamChunk.reported, List.filterMap_append]

/-- The reading of a client of the whole stream. -/
theorem reading_streamFrames (id model : String) (chunks : List StreamChunk) :
    ∃ blocks, Mirrors (chunks.foldl Writing.encode (.new id model)) chunks blocks ∧
      (Client.read (streamFrames id model chunks)).reading =
        some ⟨contentText chunks, toolCalls blocks, stopReason chunks,
          .from ((lastUsage chunks).getD .zero)⟩ := by
  obtain ⟨blocks, h⟩ := mirrors_foldl id model chunks
  obtain ⟨hstop, husage⟩ := Prod.ext_iff.mp (report_foldl id model chunks)
  simp only [Writing.report] at hstop husage
  refine ⟨blocks, h, ?_⟩
  have hread := h.placed.ensureStarted.closeOpen.read
  simp only [Client.read] at hread
  rw [streamFrames, Writing.finish_out, Client.read, List.foldl_append, hread, hstop, husage]
  rw [← h.text]
  rfl

/-! ## The collected message of the chunks -/

/-- The lowest index of a choice that occurs. -/
def firstIndex (chunks : List StreamChunk) : Option ℕ := (chunks.filterMap StreamChunk.index).min?

/-- The chunks of the first choice. -/
def firstChunks (chunks : List StreamChunk) : List StreamChunk :=
  chunks.filter fun c => c.index.isSome && c.index = firstIndex chunks

/-- The call indices of a choice in increasing order. -/
def callOrder (chunks : List StreamChunk) : List ℕ :=
  (chunks.filterMap StreamChunk.callIndex).dedup.insertionSort (· ≤ ·)

/-- A call under the last id and name of its fragments. -/
def closedCall (calls : List ToolCallDelta) : ToolCall where
  id := (calls.filterMap ToolCallDelta.id).getLast?.getD ""
  name := (calls.filterMap ToolCallDelta.name).getLast?.getD ""
  arguments := String.join (calls.map fun call => call.arguments.getD "")

/-- The calls of a choice in the order of their indices, each under its last id and name. -/
def closedCalls (chunks : List StreamChunk) : List ToolCall :=
  (callOrder chunks).map fun k => closedCall (fragments k chunks)

theorem callOrder_sorted (chunks : List StreamChunk) : (callOrder chunks).Pairwise (· < ·) := by
  have hle : (callOrder chunks).Pairwise (· ≤ ·) := List.pairwise_insertionSort _ _
  have hne : (callOrder chunks).Pairwise (· ≠ ·) :=
    (List.perm_insertionSort _ _).nodup_iff.mpr (List.nodup_dedup _)
  exact hle.imp₂ (fun a b h h' => lt_of_le_of_ne h h') hne

theorem mem_callOrder (chunks : List StreamChunk) (k : ℕ) :
    k ∈ callOrder chunks ↔ fragments k chunks ≠ [] := by
  simp only [callOrder, List.mem_insertionSort, List.mem_dedup, fragments, ne_eq,
    List.filter_eq_nil_iff, List.mem_filterMap, decide_eq_true_eq, not_forall, not_not]
  constructor
  · rintro ⟨c, hc, hk⟩
    cases c with
    | toolCall index call => exact ⟨call, ⟨_, hc, rfl⟩, Option.some.inj hk⟩
    | _ => cases hk
  · rintro ⟨call, ⟨c, hc, hcall⟩, rfl⟩
    cases c with
    | toolCall index call' => exact ⟨_, hc, by cases hcall; rfl⟩
    | _ => cases hcall

/-- A collected call has the last id and name of its fragments. -/
theorem slot_calls (l : List StreamChunk) (k : ℕ) :
    (l.foldl Slot.step .empty).calls k =
      if fragments k l = [] then none else some (closedCall (fragments k l)) := by
  induction l using List.reverseRecOn with
  | nil => rfl
  | append_singleton l c ih =>
    rw [List.foldl_append, List.foldl_cons, List.foldl_nil]
    by_cases hk : c.callIndex = some k
    · cases c <;> cases hk
      rename_i index call
      rw [Slot.calls_step _ _ _ rfl, ih, fragments_same]
      by_cases hf : fragments call.index l = []
      · cases hi : call.id <;> cases hn : call.name <;>
          simp [hf, Slot.callStep, Collected.addFragment, closedCall, hi, hn, String.join]
      · cases hi : call.id <;> cases hn : call.name <;>
          simp [hf, Slot.callStep, Collected.addFragment, closedCall, hi, hn, String.join_append,
            List.filterMap_append]
    · rw [Slot.calls_step_other _ _ _ hk, ih]
      have hsame : fragments k (l ++ [c]) = fragments k l := by
        rw [fragments_snoc]
        cases c with
        | toolCall index call =>
          have hne : call.index ≠ k := fun e => hk (by rw [← e]; rfl)
          simp [fragment, hne]
        | _ => simp [fragment]
      rw [hsame]

theorem slot_text (l : List StreamChunk) (s : Slot) :
    (l.foldl Slot.step s).text.getD "" = s.text.getD "" ++ contentText l := by
  induction l generalizing s with
  | nil => simp [contentText, String.join]
  | cons c l ih =>
    rw [List.foldl_cons, ih]
    cases c with
    | content index delta =>
      simp [Slot.step, contentText, contentDelta, String.join_cons, String.append_assoc]
    | _ => rfl

theorem slot_finish (l : List StreamChunk) :
    (l.foldl Slot.step .empty).finish = (l.filterMap finishOf).getLast? := by
  induction l using List.reverseRecOn with
  | nil => rfl
  | append_singleton l c ih =>
    rw [List.foldl_append, List.foldl_cons, List.foldl_nil]
    cases c <;> simp [Slot.step, ih, finishOf, List.filterMap_append]

/-- The first collected choice is the one of the lowest index. -/
theorem head_indices (chunks : List StreamChunk) :
    (chunks.foldl Collected.step .empty).indices.head? = firstIndex chunks := by
  have hmem (i : ℕ) : i ∈ (chunks.foldl Collected.step .empty).indices ↔
      i ∈ chunks.filterMap StreamChunk.index := by
    rw [Collected.mem_indices_foldl]
    simp [ofChoice, Collected.mem_indices, Collected.empty, List.filter_eq_nil_iff]
  have hsorted := (chunks.foldl Collected.step .empty).indices_sorted
  cases hi : (chunks.foldl Collected.step .empty).indices with
  | nil =>
    have hnil : chunks.filterMap StreamChunk.index = [] :=
      List.eq_nil_iff_forall_not_mem.mpr fun i h => by
        have := (hmem i).mpr h
        simp [hi] at this
    rw [firstIndex, hnil]
    rfl
  | cons i rest =>
    rw [hi] at hsorted
    have hleast : ∀ j ∈ chunks.filterMap StreamChunk.index, i ≤ j := by
      intro j hj
      have hj' := (hmem j).mpr hj
      rw [hi] at hj'
      rcases List.mem_cons.mp hj' with rfl | hj'
      · exact le_refl _
      · exact le_of_lt (List.rel_of_pairwise_cons hsorted hj')
    have hfirst : i ∈ chunks.filterMap StreamChunk.index := (hmem i).mp (by simp [hi])
    exact (List.min?_eq_some_iff.mpr ⟨hfirst, hleast⟩).symm

theorem firstChunks_none {chunks : List StreamChunk} (h : firstIndex chunks = none) :
    firstChunks chunks = [] := by
  rw [firstChunks, List.filter_eq_nil_iff]
  intro c _
  cases hc : c.index <;> simp [h]

theorem firstChunks_some {chunks : List StreamChunk} {i : ℕ} (h : firstIndex chunks = some i) :
    firstChunks chunks = ofChoice i chunks := by
  rw [firstChunks, ofChoice]
  refine List.filter_congr fun c _ => ?_
  cases hc : c.index <;> simp [h]

/-- The tool calls of a collected choice. -/
theorem choice_toolCalls (chunks : List StreamChunk) (i : ℕ) :
    ((chunks.foldl Collected.step .empty).choice i).toolCalls =
      closedCalls (ofChoice i chunks) := by
  have hk (k : ℕ) : (((chunks.foldl Collected.step .empty).tools.lookup i).getD ∅).lookup k =
      if k ∈ callOrder (ofChoice i chunks) then some (closedCall (fragments k (ofChoice i chunks)))
      else none := by
    have hslot := Collected.slot_foldl chunks .empty i
    rw [Collected.slot_empty] at hslot
    simp only [mem_callOrder, ne_eq, ite_not]
    rw [← slot_calls, ← hslot]
    cases ht : (chunks.foldl Collected.step .empty).tools.lookup i <;> simp [Collected.slot, ht]
  simp only [Collected.choice, HashMap.ascending_eq_map (callOrder_sorted _) hk, List.map_map]
  rfl

/-- The visible text of a message is that of its choice. -/
theorem visible_contentBlocks (fromStr : String → Option Value) (c : Choice) :
    String.join ((contentBlocks fromStr c).filterMap (·.visible)) = c.text := by
  have hthinking : (c.thinking.filterMap fun
      | .thinking thinking signature => some (ContentBlockOut.thinking thinking signature)
      | .redactedThinking data => some (.redactedThinking data)
      | _ => none).filterMap (·.visible) = [] := by
    rw [List.filterMap_filterMap, List.filterMap_eq_nil_iff]
    intro part _
    cases part <;> rfl
  have hcompaction : (c.compaction.filterMap fun
      | .compaction _ _ (some summary) _ signature =>
        some (ContentBlockOut.compaction summary signature)
      | _ => none).filterMap (·.visible) = [] := by
    rw [List.filterMap_filterMap, List.filterMap_eq_nil_iff]
    intro part _
    rcases part with _ | _ | _ | _ | _ | ⟨_, _, _ | _, _, _⟩ <;> rfl
  have hcalls : (c.toolCalls.map fun call => ContentBlockOut.toolUse call.id call.name
      ((fromStr call.arguments).getD (.object []))).filterMap (·.visible) = [] := by
    rw [List.filterMap_map, List.filterMap_eq_nil_iff]
    intro call _
    rfl
  simp only [contentBlocks, List.filterMap_append, hthinking, hcompaction, hcalls]
  by_cases ht : c.text = "" <;> simp [ht, ContentBlockOut.visible, String.join]

/-- The reading of the collected message, from the chunks of the first choice. -/
theorem collectedReading_eq (fromStr : String → Option Value) (chunks : List StreamChunk)
    (id : String) :
    collectedReading fromStr (collectChunks chunks) id =
      ⟨contentText (firstChunks chunks), closedCalls (firstChunks chunks),
        stopReason (firstChunks chunks), .from ((lastUsage chunks).getD .zero)⟩ := by
  have husage : (collectChunks chunks).usage = (lastUsage chunks).getD .zero :=
    Collected.usage_foldl chunks
  have hhead : (collectChunks chunks).choices.head? =
      (firstIndex chunks).map (chunks.foldl Collected.step .empty).choice := by
    rw [← head_indices, collectChunks, List.head?_map]
  cases hi : firstIndex chunks with
  | none =>
    rw [hi] at hhead
    simp only [collectedReading, responseToAnthropic, hhead, husage, firstChunks_none hi]
    rfl
  | some i =>
    rw [hi] at hhead
    have hslot := Collected.slot_foldl chunks .empty i
    have htext : ((chunks.foldl Collected.step .empty).choice i).text =
        contentText (ofChoice i chunks) := by
      have h := slot_text (ofChoice i chunks) .empty
      rw [← Collected.slot_empty i, ← hslot] at h
      exact h.trans (String.empty_append ..)
    have hfinish : ((chunks.foldl Collected.step .empty).choice i).finishReason =
        ((ofChoice i chunks).filterMap finishOf).getLast? := by
      rw [← slot_finish, ← Collected.slot_empty i, ← hslot]
      rfl
    simp only [collectedReading, responseToAnthropic, hhead, husage, firstChunks_some hi,
      Option.map_some, Option.getD_some, Option.bind_some, visible_contentBlocks, htext, hfinish,
      choice_toolCalls, stopReason]

/-! ## When streamed equals collected -/

theorem length_contentText_filter (p : StreamChunk → Bool) (chunks : List StreamChunk) :
    (contentText chunks).length = (contentText (chunks.filter p)).length +
      (contentText (chunks.filter fun c => !p c)).length := by
  induction chunks with
  | nil => simp [contentText, String.join]
  | cons c chunks ih =>
    simp only [contentText] at ih ⊢
    cases hp : p c <;> cases hd : contentDelta c <;>
      simp only [List.filter_cons, hp, Bool.not_true, Bool.not_false, if_true,
        Bool.false_eq_true, if_false, List.filterMap_cons, hd, String.join_cons,
        String.length_append] <;> omega

/-- Leaving some chunks out keeps the text exactly if they have none. -/
theorem contentText_filter_eq_iff (p : StreamChunk → Bool) (chunks : List StreamChunk) :
    contentText chunks = contentText (chunks.filter p) ↔
      ∀ c ∈ chunks, p c = false → (contentDelta c).getD "" = "" := by
  constructor
  · intro h c hc hp
    have hlen := length_contentText_filter p chunks
    rw [h] at hlen
    have hrest : contentText (chunks.filter fun c => !p c) = "" :=
      String.length_eq_zero_iff.mp (by omega)
    cases hd : contentDelta c with
    | none => rfl
    | some delta =>
      have hmem : delta ∈ (chunks.filter fun c => !p c).filterMap contentDelta :=
        List.mem_filterMap.mpr ⟨c, List.mem_filter.mpr ⟨hc, by simp [hp]⟩, hd⟩
      obtain ⟨before, after, hsplit⟩ := List.append_of_mem hmem
      rw [contentText, hsplit, String.join_append, String.join_cons] at hrest
      have hlen' := congrArg String.length hrest
      simp only [String.length_append, String.length_empty] at hlen'
      exact String.length_eq_zero_iff.mp (by simp only [Option.getD_some]; omega)
  · intro h
    induction chunks with
    | nil => rfl
    | cons c chunks ih =>
      have ih := ih fun c' hc' => h c' (List.mem_cons_of_mem _ hc')
      simp only [contentText] at ih ⊢
      cases hp : p c with
      | true =>
        rw [List.filter_cons_of_pos hp]
        cases hd : contentDelta c <;> simp only [List.filterMap_cons, hd, String.join_cons, ih]
      | false =>
        have hempty := h c (List.mem_cons_self ..) hp
        rw [List.filter_cons_of_neg (by simp [hp])]
        cases hd : contentDelta c <;> rw [hd] at hempty <;>
          simp_all [String.join_cons]

/-- When the two sides of the edge say the same: all text is of the first choice; every call index
has one run of fragments, some of it of the first choice; the calls in order of arrival, under
their first ids and names, are those of the first choice in order of their indices, under their
last ids and names; and the last finish of all means what the last of the first choice does. -/
structure Coincide (chunks : List StreamChunk) : Prop where
  text : ∀ i delta, .content i delta ∈ chunks → delta ≠ "" → firstIndex chunks = some i
  runs : (callRuns chunks).Perm (callOrder (firstChunks chunks))
  calls : openedCalls chunks = closedCalls (firstChunks chunks)
  stop : stopReason chunks = stopReason (firstChunks chunks)

theorem contentText_firstChunks (chunks : List StreamChunk) :
    contentText chunks = contentText (firstChunks chunks) ↔
      ∀ i delta, .content i delta ∈ chunks → delta ≠ "" → firstIndex chunks = some i := by
  rw [firstChunks, contentText_filter_eq_iff]
  constructor
  · intro h i delta hc hne
    by_contra hi
    exact hne (h _ hc (by simp [StreamChunk.index, Ne.symm hi]))
  · intro h c hc hp
    cases c with
    | content i delta =>
      by_contra hne
      have := h i delta hc hne
      simp [StreamChunk.index, this] at hp
    | _ => rfl

/-- The calls a client has are the collected ones exactly if every call index has one run and the
opened calls are the closed ones. -/
theorem toolCalls_eq_iff {w : Writing} {chunks : List StreamChunk} {blocks : List ClientBlock}
    (h : Mirrors w chunks blocks) :
    toolCalls blocks = closedCalls (firstChunks chunks) ↔
      (callRuns chunks).Perm (callOrder (firstChunks chunks)) ∧
        openedCalls chunks = closedCalls (firstChunks chunks) := by
  have hnodup : (callOrder (firstChunks chunks)).Nodup :=
    (callOrder_sorted _).imp fun hlt => ne_of_lt hlt
  constructor
  · intro heq
    have hsubset : callOrder (firstChunks chunks) ⊆ callRuns chunks := by
      intro k hk
      rw [mem_callRuns]
      rw [mem_callOrder] at hk
      intro hnil
      refine hk (List.eq_nil_iff_forall_not_mem.mpr fun call hcall => ?_)
      have hsub : fragments k (firstChunks chunks) ⊆ fragments k chunks :=
        ((List.filter_sublist.filterMap _).filter _).subset
      exact List.not_mem_nil (hnil ▸ hsub hcall)
    have hlen : (callRuns chunks).length ≤ (callOrder (firstChunks chunks)).length := by
      rw [← h.count, heq, closedCalls, List.length_map]
    have hperm := ((List.subperm_of_subset hnodup hsubset).perm_of_length_le hlen).symm
    exact ⟨hperm, (h.calls (hperm.nodup_iff.mpr hnodup)).symm.trans heq⟩
  · rintro ⟨hperm, hcalls⟩
    rw [h.calls (hperm.nodup_iff.mpr hnodup), hcalls]

/-- **When a client of the stream reads what the collected message says.** -/
theorem streamed_eq_collected_iff (fromStr : String → Option Value) (id model : String)
    (chunks : List StreamChunk) :
    (Client.read (streamFrames id model chunks)).reading =
        some (collectedReading fromStr (collectChunks chunks) id) ↔
      Coincide chunks := by
  obtain ⟨blocks, h, hread⟩ := reading_streamFrames id model chunks
  rw [hread, collectedReading_eq, Option.some.injEq, Reading.mk.injEq, contentText_firstChunks,
    toolCalls_eq_iff h]
  constructor
  · rintro ⟨htext, ⟨hruns, hcalls⟩, hstop, -⟩
    exact ⟨htext, hruns, hcalls, hstop⟩
  · rintro ⟨htext, hruns, hcalls, hstop⟩
    exact ⟨htext, ⟨hruns, hcalls⟩, hstop, rfl⟩

/-- Two calls whose fragments alternate: the client has a third one without id and name. -/
theorem streamed_ne_collected_alternating :
    let chunks : List StreamChunk := [.start "r" "m",
      .toolCall 0 ⟨0, some "a", some "f", some "1"⟩, .toolCall 0 ⟨1, some "b", some "g", some "2"⟩,
      .toolCall 0 ⟨0, none, none, some "3"⟩, .finish 0 .toolCalls]
    (Client.read (streamFrames "r" "m" chunks)).reading ≠
        some (collectedReading (fun _ => none) (collectChunks chunks) "r") ∧
      ((Client.read (streamFrames "r" "m" chunks)).reading.map Reading.calls) =
        some [⟨"a", "f", "1"⟩, ⟨"b", "g", "2"⟩, ⟨"", "", "3"⟩] := by
  decide

end Llmleaf.Anthropic
