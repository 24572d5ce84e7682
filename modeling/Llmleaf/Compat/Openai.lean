import Llmleaf.Chat.Collect

/-!
# The chat-completions edge

`ChunkEncoder` turns each canonical chunk into at most one `chat.completion.chunk` frame;
`responseToOpenai` renders a collected response. A field that serialisation may leave out is an
`Option` here.

- `Client`: what a client folds from the frames, by the index of the choice.
- `Agrees`: its choices against the slots of the collector; `Agrees.step` for one chunk.
- `streamed_eq_collected`: the client ends up with what the collected response says.
-/

namespace Llmleaf.Openai

/-- The wire name of a finish reason. -/
def finishStr : FinishReason → String
  | .stop => "stop"
  | .length => "length"
  | .toolCalls => "tool_calls"
  | .contentFilter => "content_filter"
  | .compaction => "compaction"
  | .error => "stop"

/-! ## Frames -/

/-- The cached part of the prompt tokens. -/
structure PromptTokensDetails where
  cachedTokens : ℕ
  deriving DecidableEq

/-- A usage object; counts of the cache are left out when zero. -/
structure UsageFrame where
  completionTokens : ℕ
  costUsd : Option ℚ
  promptTokens : ℕ
  promptTokensDetails : Option PromptTokensDetails
  totalTokens : ℕ
  cacheCreationTokens : Option ℕ
  deriving DecidableEq

/-- Render a usage. -/
def UsageFrame.from (u : Usage) : UsageFrame where
  completionTokens := u.completionTokens
  costUsd := u.costUsd
  promptTokens := u.promptTokens
  promptTokensDetails := if 0 < u.cacheReadTokens then some ⟨u.cacheReadTokens⟩ else none
  totalTokens := u.totalTokens
  cacheCreationTokens := if u.cacheCreationTokens = 0 then none else some u.cacheCreationTokens

/-- An entry of `reasoning_details`. -/
structure ReasoningDetailFrame where
  data : Option String
  signature : Option String
  text : Option String
  kind : String
  deriving DecidableEq

/-- A compaction entry. -/
structure CompactionFrame where
  content : Option String
  encryptedContent : Option String
  id : Option String
  signature : Option String
  kind : String
  deriving DecidableEq

/-- The function of a streamed tool call. -/
structure FunctionFrame where
  arguments : Option String
  name : Option String
  deriving DecidableEq

/-- A fragment of a streamed tool call. -/
structure ToolCallFrame where
  function : FunctionFrame
  id : Option String
  index : ℕ
  kind : String
  deriving DecidableEq

/-- The delta of a choice. -/
inductive Delta where
  | compaction (compaction : CompactionFrame)
  | role (role : String)
  | content (content : String)
  | toolCalls (toolCalls : ToolCallFrame)
  | reasoning (reasoning : String)
  | reasoningDetails (reasoningDetails : ReasoningDetailFrame)
  | empty
  deriving DecidableEq

structure ChoiceFrame where
  delta : Delta
  finishReason : Option String
  index : ℕ
  deriving DecidableEq

/-- A `chat.completion.chunk`. -/
structure ChunkFrame where
  choices : List ChoiceFrame
  created : ℕ
  id : String
  model : String
  object : String
  usage : Option UsageFrame
  deriving DecidableEq

/-- The identity every frame of a stream carries. -/
structure ChunkEncoder where
  id : String
  model : String
  created : ℕ

namespace ChunkEncoder

/-- One frame of the stream. -/
def writeFrame (enc : ChunkEncoder) (choices : List ChoiceFrame) (usage : Option UsageFrame) :
    ChunkFrame :=
  ⟨choices, enc.created, enc.id, enc.model, "chat.completion.chunk", usage⟩

/-- The frame of a chunk, if it has one. -/
def encodeInto (enc : ChunkEncoder) : StreamChunk → Option ChunkFrame
  | .outputItem _ _ => none
  | .start _ _ => enc.writeFrame [⟨.role "assistant", none, 0⟩] none
  | .content index delta => enc.writeFrame [⟨.content delta, none, index⟩] none
  | .toolCall index call =>
    enc.writeFrame
      [⟨.toolCalls ⟨⟨call.arguments, call.name⟩, call.id, call.index, "function"⟩, none, index⟩]
      none
  | .thinking index delta => enc.writeFrame [⟨.reasoning delta, none, index⟩] none
  | .thinkingSignature index signature =>
    enc.writeFrame
      [⟨.reasoningDetails ⟨none, some signature, none, "reasoning.text"⟩, none, index⟩] none
  | .redactedThinking index data =>
    enc.writeFrame
      [⟨.reasoningDetails ⟨some data, none, none, "reasoning.encrypted"⟩, none, index⟩] none
  | .usage u => enc.writeFrame [] (some (.from u))
  | .compaction _ index delta id encryptedContent signature =>
    enc.writeFrame
      [⟨.compaction ⟨if encryptedContent.isNone then some delta else none, encryptedContent, id,
        signature, "compaction"⟩, none, index⟩] none
  | .finish index reason => enc.writeFrame [⟨.empty, some (finishStr reason), index⟩] none

end ChunkEncoder

/-! ## The collected response -/

structure FunctionView where
  arguments : String
  name : String
  deriving DecidableEq

structure ToolCallView where
  function : FunctionView
  id : String
  kind : String
  deriving DecidableEq

structure MessageView where
  compaction : List CompactionFrame
  content : String
  reasoning : Option String
  reasoningDetails : List ReasoningDetailFrame
  role : String
  toolCalls : List ToolCallView
  deriving DecidableEq

structure ChoiceView where
  finishReason : Option String
  index : ℕ
  message : MessageView
  deriving DecidableEq

/-- A `chat.completion`. -/
structure CompletionView where
  choices : List ChoiceView
  created : ℕ
  id : String
  model : String
  object : String
  usage : UsageFrame
  deriving DecidableEq

/-- The open reasoning text of a choice, if it has an open block. -/
def choiceReasoning (thinking : List ContentPart) : Option String :=
  match thinking.filterMap fun | .thinking text _ => some text | _ => none with
  | [] => none
  | first :: rest => some (rest.foldl (· ++ ·) first)

/-- The reasoning blocks of a choice as `reasoning_details` entries. -/
def choiceReasoningDetails (thinking : List ContentPart) : List ReasoningDetailFrame :=
  thinking.filterMap fun
    | .thinking text signature => some ⟨none, signature, some text, "reasoning.text"⟩
    | .redactedThinking data => some ⟨some data, none, none, "reasoning.encrypted"⟩
    | _ => none

/-- A choice of `completionView`. -/
def choiceView (c : Choice) : ChoiceView where
  finishReason := c.finishReason.map finishStr
  index := c.index
  message :=
    { compaction := c.compaction.filterMap fun
        | .compaction _ id content encryptedContent signature =>
          some ⟨content, encryptedContent, id, signature, "compaction"⟩
        | _ => none
      content := c.text
      reasoning := choiceReasoning c.thinking
      reasoningDetails := choiceReasoningDetails c.thinking
      role := "assistant"
      toolCalls := c.toolCalls.map fun t => ⟨⟨t.arguments, t.name⟩, t.id, "function"⟩ }

/-- The view of a collected response, for the live edge and for batches. -/
def completionView (resp : ChatResponse) (created : ℕ) : CompletionView where
  choices := resp.choices.map choiceView
  created := created
  id := resp.id
  model := resp.model
  object := "chat.completion"
  usage := .from resp.usage

/-- The `chat.completion` of a collected response. -/
def responseToOpenai (resp : ChatResponse) (created : ℕ) : CompletionView :=
  completionView resp created

/-! ## A client of the stream -/

/-- What a reader takes from a choice. -/
structure Answer where
  content : String
  reasoning : String
  signature : Option String
  encrypted : List String
  toolCalls : List ToolCall
  finishReason : Option String
  deriving DecidableEq

/-- Read a `reasoning_details` entry: the last signature and every encrypted block. -/
def readDetail (acc : Option String × List String) (detail : ReasoningDetailFrame) :
    Option String × List String :=
  (detail.signature.or acc.1,
    if detail.kind = "reasoning.encrypted" then acc.2 ++ detail.data.toList else acc.2)

/-- What a reader takes from a rendered choice. -/
def ChoiceView.answer (v : ChoiceView) : Answer where
  content := v.message.content
  reasoning := v.message.reasoning.getD ""
  signature := (v.message.reasoningDetails.foldl readDetail (none, [])).1
  encrypted := (v.message.reasoningDetails.foldl readDetail (none, [])).2
  toolCalls := v.message.toolCalls.map fun t => ⟨t.id, t.function.name, t.function.arguments⟩
  finishReason := v.finishReason

/-- What a client has folded of a choice. -/
structure ClientChoice where
  content : String
  reasoning : String
  details : Option String × List String
  toolCalls : HashMap ℕ ToolCall
  finishReason : Option String

namespace ClientChoice

def empty : ClientChoice := ⟨"", "", (none, []), ∅, none⟩

/-- Take in the delta of a frame. -/
def apply (c : ClientChoice) : Delta → ClientChoice
  | .content content => { c with content := c.content ++ content }
  | .reasoning reasoning => { c with reasoning := c.reasoning ++ reasoning }
  | .reasoningDetails detail => { c with details := readDetail c.details detail }
  | .toolCalls call =>
    { c with toolCalls := c.toolCalls.update call.index ⟨"", "", ""⟩ fun acc =>
        ⟨call.id.getD acc.id, call.function.name.getD acc.name,
          acc.arguments ++ call.function.arguments.getD ""⟩ }
  | .compaction _ | .role _ | .empty => c

/-- Take in the part of a frame for this choice. -/
def step (c : ClientChoice) (frame : ChoiceFrame) : ClientChoice :=
  let c := c.apply frame.delta
  { c with finishReason := frame.finishReason.or c.finishReason }

def answer (c : ClientChoice) : Answer :=
  ⟨c.content, c.reasoning, c.details.1, c.details.2, c.toolCalls.ascending.map Prod.snd,
    c.finishReason⟩

end ClientChoice

/-- What a client has folded of the stream: its choices and the last usage. -/
structure Client where
  choices : HashMap ℕ ClientChoice
  usage : UsageFrame

namespace Client

/-- No frame yet: no choices, zero counts. -/
def start : Client := ⟨∅, .from .zero⟩

/-- The choice of an index. -/
def choice (client : Client) (i : ℕ) : ClientChoice := (client.choices.lookup i).getD .empty

/-- Take in one frame. -/
def step (client : Client) (frame : ChunkFrame) : Client where
  choices := frame.choices.foldl (fun m f => m.update f.index .empty (·.step f)) client.choices
  usage := frame.usage.getD client.usage

/-- What the frames of a stream leave a client with. -/
def read (enc : ChunkEncoder) (chunks : List StreamChunk) : Client :=
  (chunks.filterMap enc.encodeInto).foldl step start

end Client

/-! ## Streamed equals collected -/

/-- A client's choice agrees with what is collected of it. -/
structure Agrees (c : ClientChoice) (s : Slot) : Prop where
  content : c.content = s.text.getD ""
  thinking : (c.reasoning, c.details.1) = s.thinking.getD ("", none)
  redacted : c.details.2 = s.redacted.getD []
  calls : ∀ k, c.toolCalls.lookup k = s.calls k
  finish : c.finishReason = s.finish.map finishStr

theorem agrees_empty : Agrees .empty .empty := ⟨rfl, rfl, rfl, fun _ => rfl, rfl⟩

/-- The client after a chunk. -/
def Client.stepChunk (enc : ChunkEncoder) (client : Client) (chunk : StreamChunk) : Client :=
  match enc.encodeInto chunk with
  | some frame => client.step frame
  | none => client

namespace Client

theorem choice_update (m : HashMap ℕ ClientChoice) (usage : UsageFrame) (f : ChoiceFrame) (i : ℕ) :
    choice ⟨m.update f.index .empty (·.step f), usage⟩ i =
      if i = f.index then (choice ⟨m, usage⟩ i).step f else choice ⟨m, usage⟩ i := by
  simp only [choice, HashMap.lookup_update]
  by_cases h : i = f.index
  · rw [if_pos h, if_pos h, h, Option.getD_some]
  · rw [if_neg h, if_neg h]

/-- A frame for one choice steps that choice of the client. -/
theorem choice_writeFrame (enc : ChunkEncoder) (client : Client) (f : ChoiceFrame) (i : ℕ) :
    (client.step (enc.writeFrame [f] none)).choice i =
      if i = f.index then (client.choice i).step f else client.choice i :=
  choice_update client.choices client.usage f i

end Client

/-- A chunk of a choice keeps the agreement of this choice. -/
theorem Agrees.step {client : Client} {s : Slot} {i : ℕ} (enc : ChunkEncoder)
    (h : Agrees (client.choice i) s) (chunk : StreamChunk) (hi : chunk.index = some i) :
    Agrees ((client.stepChunk enc chunk).choice i) (s.step chunk) := by
  obtain ⟨hcontent, hthinking, hredacted, hcalls, hfinish⟩ := h
  cases chunk <;> cases hi <;>
    simp only [Client.stepChunk, ChunkEncoder.encodeInto, Client.choice_writeFrame, if_true,
      ClientChoice.step, ClientChoice.apply, Slot.step, Option.none_or, Option.some_or]
  case outputItem message => exact ⟨hcontent, hthinking, hredacted, hcalls, hfinish⟩
  case content delta => exact ⟨by simp [hcontent], hthinking, hredacted, hcalls, hfinish⟩
  case thinking delta =>
    refine ⟨hcontent, ?_, hredacted, hcalls, hfinish⟩
    simp [← hthinking]
  case thinkingSignature signature =>
    refine ⟨hcontent, ?_, ?_, hcalls, hfinish⟩
    · simp [readDetail, ← hthinking]
    · simpa [readDetail] using hredacted
  case redactedThinking data =>
    refine ⟨hcontent, ?_, ?_, hcalls, hfinish⟩
    · simpa [readDetail] using hthinking
    · simp [readDetail, hredacted]
  case compaction outputIndex delta id encryptedContent signature =>
    exact ⟨hcontent, hthinking, hredacted, hcalls, hfinish⟩
  case toolCall call =>
    refine ⟨hcontent, hthinking, hredacted, fun k => ?_, hfinish⟩
    rw [HashMap.lookup_update, hcalls, hcalls]
    simp only [Function.update_apply]
    rfl
  case finish reason => exact ⟨hcontent, hthinking, hredacted, hcalls, rfl⟩

/-- Every other chunk leaves the choice of the client. -/
theorem Client.choice_other (enc : ChunkEncoder) (client : Client) (chunk : StreamChunk) (i : ℕ)
    (hi : chunk.index ≠ some i) : (client.stepChunk enc chunk).choice i = client.choice i := by
  cases chunk with
  | outputItem index message => rfl
  | usage u => rfl
  | start id model =>
    -- the opening role is a frame of choice 0 that says nothing
    simp only [stepChunk, ChunkEncoder.encodeInto, choice_writeFrame]
    split <;> rfl
  | _ =>
    simp only [StreamChunk.index, ne_eq, Option.some.injEq] at hi
    simp only [stepChunk, ChunkEncoder.encodeInto, choice_writeFrame]
    rw [if_neg (Ne.symm hi)]

/-- The client after the frames of a stream, chunk by chunk. -/
theorem Client.read_eq (enc : ChunkEncoder) (chunks : List StreamChunk) :
    read enc chunks = chunks.foldl (stepChunk enc) start := by
  rw [read, List.foldl_filterMap]
  congr 1
  funext client chunk
  simp only [stepChunk]
  cases enc.encodeInto chunk <;> rfl

/-- The client's choices agree with the collected ones after every stream. -/
theorem agrees_read (enc : ChunkEncoder) (chunks : List StreamChunk) (i : ℕ) :
    Agrees ((Client.read enc chunks).choice i) ((chunks.foldl Collected.step .empty).slot i) := by
  rw [Client.read_eq]
  refine List.foldl_rel
    (r := fun client acc => Agrees (Client.choice client i) (Collected.slot acc i))
    agrees_empty fun c _ client acc h => ?_
  by_cases hi : c.index = some i
  · rw [Collected.slot_step_same acc i c hi]
    exact h.step enc c hi
  · rw [Collected.slot_step_other acc i c hi, Client.choice_other enc client c i hi]
    exact h

/-- The client's usage is the collected one after every stream. -/
theorem usage_read (enc : ChunkEncoder) (chunks : List StreamChunk) :
    (Client.read enc chunks).usage = .from (collectChunks chunks).usage := by
  rw [Client.read_eq]
  refine List.foldl_rel (r := fun client acc => Client.usage client = .from (Collected.usage acc))
    rfl fun c _ client acc h => ?_
  cases c <;> first | exact h | rfl

/-! ### Reading the collected response -/

/-- The reasoning text of the collected parts. -/
theorem choiceReasoning_thinkingParts (thinking : Option (String × Option String))
    (redacted : Option (List String)) :
    (choiceReasoning (Collected.thinkingParts thinking redacted)).getD "" =
      (thinking.getD ("", none)).1 := by
  rcases thinking with _ | ⟨text, _ | signature⟩
  · simp [choiceReasoning, Collected.thinkingParts, List.filterMap_map]
  · by_cases h : text = "" <;>
      simp [choiceReasoning, Collected.thinkingParts, List.filterMap_map, h]
  · simp [choiceReasoning, Collected.thinkingParts, List.filterMap_map]

/-- The entry of an encrypted block. -/
def encryptedDetail (data : String) : ReasoningDetailFrame :=
  ⟨some data, none, none, "reasoning.encrypted"⟩

theorem choiceReasoningDetails_append (a b : List ContentPart) :
    choiceReasoningDetails (a ++ b) = choiceReasoningDetails a ++ choiceReasoningDetails b :=
  List.filterMap_append

theorem choiceReasoningDetails_redacted (data : List String) :
    choiceReasoningDetails (data.map .redactedThinking) = data.map encryptedDetail := by
  simp [choiceReasoningDetails, List.filterMap_map, encryptedDetail]

/-- Reading encrypted entries appends their data. -/
theorem foldl_readDetail_encrypted (data : List String) (acc : Option String × List String) :
    (data.map encryptedDetail).foldl readDetail acc = (acc.1, acc.2 ++ data) := by
  induction data generalizing acc with
  | nil => simp
  | cons d data ih =>
    rw [List.map_cons, List.foldl_cons, ih]
    simp [readDetail, encryptedDetail]

/-- The signature and the encrypted blocks of the collected parts. -/
theorem foldl_readDetail_thinkingParts (thinking : Option (String × Option String))
    (redacted : Option (List String)) :
    (choiceReasoningDetails (Collected.thinkingParts thinking redacted)).foldl readDetail
      (none, []) = ((thinking.getD ("", none)).2, redacted.getD []) := by
  unfold Collected.thinkingParts
  rw [choiceReasoningDetails_append, choiceReasoningDetails_redacted, List.foldl_append,
    foldl_readDetail_encrypted]
  rcases thinking with _ | ⟨text, _ | signature⟩
  · simp [choiceReasoningDetails]
  · by_cases h : text = "" <;> simp [choiceReasoningDetails, readDetail, h]
  · simp [choiceReasoningDetails, readDetail]

/-- A client's choice that agrees with the collected one reads as the rendered one. -/
theorem answer_choice {c : ClientChoice} {acc : Collected} {i : ℕ} (h : Agrees c (acc.slot i)) :
    c.answer = (choiceView (acc.choice i)).answer := by
  obtain ⟨hcontent, hthinking, hredacted, hcalls, hfinish⟩ := h
  have hcalls' : c.toolCalls.ascending = ((acc.tools.lookup i).getD ∅).ascending :=
    HashMap.ascending_congr fun k => by
      rw [hcalls]
      cases ht : acc.tools.lookup i <;> simp [Collected.slot, ht]
  have hreasoning : c.reasoning = _ := congrArg Prod.fst hthinking
  have hsignature : c.details.1 = _ := congrArg Prod.snd hthinking
  have hdetails := foldl_readDetail_thinkingParts (acc.thinkings.lookup i)
    (acc.redacteds.lookup i)
  simp only [ClientChoice.answer, ChoiceView.answer, choiceView, Collected.choice, hdetails,
    choiceReasoning_thinkingParts, hcontent, hredacted, hfinish, hcalls', hreasoning, hsignature,
    List.map_map]
  simp [Collected.slot, Function.comp_def]

/-- **A streamed answer is the collected answer**: for every choice that occurs, the client that
folds the frames reads what the collected response says, and so it does for the usage. -/
theorem streamed_eq_collected (enc : ChunkEncoder) (created : ℕ) (chunks : List StreamChunk) :
    (Client.read enc chunks).usage =
        (responseToOpenai (collectChunks chunks) created).usage ∧
      ∀ i, ofChoice i chunks ≠ [] →
        ∃ v ∈ (responseToOpenai (collectChunks chunks) created).choices,
          v.index = i ∧ ((Client.read enc chunks).choice i).answer = v.answer := by
  refine ⟨usage_read enc chunks, fun i hi => ?_⟩
  have hmem := (Collected.mem_indices_foldl chunks .empty i).mpr (.inl hi)
  refine ⟨_, List.mem_map_of_mem (List.mem_map_of_mem hmem), rfl, ?_⟩
  exact answer_choice (agrees_read enc chunks i)

/-- Reasoning, a call and another choice in between. -/
theorem streamed_eq_collected_mixed :
    let chunks : List StreamChunk := [.start "r" "m", .thinking 1 "why", .content 0 "hi",
      .thinkingSignature 1 "s", .toolCall 1 ⟨2, some "c", some "f", none⟩, .finish 1 .toolCalls]
    ∃ v ∈ (responseToOpenai (collectChunks chunks) 7).choices,
      v.index = 1 ∧ ((Client.read ⟨"r", "m", 7⟩ chunks).choice 1).answer = v.answer :=
  (streamed_eq_collected ⟨"r", "m", 7⟩ 7 [.start "r" "m", .thinking 1 "why", .content 0 "hi",
    .thinkingSignature 1 "s", .toolCall 1 ⟨2, some "c", some "f", none⟩,
    .finish 1 .toolCalls]).2 1 (by decide)

end Llmleaf.Openai
