import Llmleaf.Providers.Mapper
import Llmleaf.Providers.Usage

/-!
# Anthropic

The mappers of a Messages response and of the events of a streamed one. The streamed one gives every
`tool_use` block an index among the calls, holds a compaction back until its block stops, and adds up
the partial reports of usage.

- `anthropicToChunks`, `anthropicEventToChunks`: the mappers.
- `Anthropic.Renders`: the events that stream a response, its blocks cut anyhow.
- `SameUpToArguments`: responses that differ at most in how the arguments of calls are written.
- **Result** (`anthropic_streamed_iff`): streaming changes no more than that exactly if no call has an
  empty input.
-/

namespace Llmleaf

/-- The state of a streamed response. -/
structure AnthropicStreamState where
  model : String
  usage : Usage
  finished : Bool
  nextToolIndex : ℕ
  toolIndexes : HashMap ℕ ℕ
  compactions : HashMap ℕ (String × Option String)

namespace Anthropic

/-- The finish reasons of the upstream. -/
def mapStopReason (reason : String) : FinishReason :=
  if reason = "compaction" then .compaction
  else if reason = "max_tokens" then .length
  else if reason = "tool_use" then .toolCalls
  else if reason = "refusal" then .contentFilter
  else .stop

/-- A content block of a collected response; the number of the calls before it. -/
def blockChunks (toStr : Value → String) (toolIndex : ℕ) (block : Value) : List StreamChunk × ℕ :=
  match block.textAt ["type"] with
  | some "text" => (contentChunk 0 (block.textAt ["text"]), toolIndex)
  | some "thinking" =>
    (((block.textAt ["thinking"]).map (.thinking 0)).toList ++
      ((block.textAt ["signature"]).map (.thinkingSignature 0)).toList, toolIndex)
  | some "redacted_thinking" =>
    (((block.textAt ["data"]).map (.redactedThinking 0)).toList, toolIndex)
  | some "compaction" =>
    ([.compaction none 0 ((block.textAt ["content"]).getD "") none none
      (block.textAt ["signature"])], toolIndex)
  | some "tool_use" =>
    ([.toolCall 0 ⟨toolIndex, block.textAt ["id"], block.textAt ["name"],
      (block.get "input").map toStr⟩], toolIndex + 1)
  | _ => ([], toolIndex)

/-- The content blocks of a collected response. -/
def blocksChunks (toStr : Value → String) : ℕ → List Value → List StreamChunk
  | _, [] => []
  | toolIndex, block :: blocks =>
    let (chunks, toolIndex) := blockChunks toStr toolIndex block
    chunks ++ blocksChunks toStr toolIndex blocks

end Anthropic

open Anthropic

/-- A collected response. -/
def anthropicToChunks (toStr : Value → String) (value : Value) (fallbackModel : String) :
    List StreamChunk :=
  [.start ((value.textAt ["id"]).getD "") ((value.textAt ["model"]).getD fallbackModel)] ++
  blocksChunks toStr 0 (value.itemsAt ["content"]) ++
  [.finish 0 (((value.textAt ["stop_reason"]).map mapStopReason).getD .stop)] ++
  ((value.get "usage").map fun usage => .usage (anthropicUsage usage)).toList

/-- An event of a streamed response. -/
def anthropicEventToChunks (event : Value) (state : AnthropicStreamState) :
    Except ModelError (List StreamChunk × AnthropicStreamState) :=
  let blockIndex := event.indexAt ["index"]
  match event.textAt ["type"] with
  | some "message_start" =>
    let message := (event.get "message").getD .null
    let model := (message.textAt ["model"]).getD state.model
    let usage :=
      match message.get "usage" with
      | some usage => updateAnthropicUsage state.usage usage
      | none => state.usage
    .ok ([.start ((message.textAt ["id"]).getD "") model],
      { state with model := model, usage := usage })
  | some "content_block_start" =>
    let block := (event.get "content_block").getD .null
    match block.textAt ["type"] with
    | some "tool_use" =>
      let toolIndex := state.nextToolIndex
      .ok ([.toolCall 0 ⟨toolIndex, block.textAt ["id"], block.textAt ["name"], none⟩],
        { state with
          nextToolIndex := toolIndex + 1
          toolIndexes := state.toolIndexes.insert blockIndex toolIndex })
    | some "redacted_thinking" =>
      .ok (((block.textAt ["data"]).map (.redactedThinking 0)).toList, state)
    | some "compaction" =>
      .ok ([], { state with
        compactions := state.compactions.insert blockIndex
          ((block.textAt ["content"]).getD "", block.textAt ["signature"]) })
    | _ => .ok ([], state)
  | some "content_block_delta" =>
    let delta := (event.get "delta").getD .null
    match delta.textAt ["type"] with
    | some "text_delta" => .ok (contentChunk 0 (delta.textAt ["text"]), state)
    | some "thinking_delta" =>
      .ok (((delta.textAt ["thinking"]).map (.thinking 0)).toList, state)
    | some "signature_delta" =>
      .ok (((delta.textAt ["signature"]).map (.thinkingSignature 0)).toList, state)
    | some "compaction_delta" =>
      match state.compactions.lookup blockIndex, delta.textAt ["content"] with
      | some (content, signature), some fragment =>
        .ok ([], { state with
          compactions := state.compactions.insert blockIndex (content ++ fragment, signature) })
      | _, _ => .ok ([], state)
    | some "input_json_delta" =>
      match state.toolIndexes.lookup blockIndex, delta.textAt ["partial_json"] with
      | some toolIndex, some fragment =>
        .ok ([.toolCall 0 ⟨toolIndex, none, none, some fragment⟩], state)
      | _, _ => .ok ([], state)
    | _ => .ok ([], state)
  | some "content_block_stop" =>
    match state.compactions.lookup blockIndex with
    | some (content, signature) =>
      .ok ([.compaction none 0 content none none signature],
        { state with compactions := state.compactions.erase blockIndex })
    | none => .ok ([], state)
  | some "message_delta" =>
    let usage :=
      match event.get "usage" with
      | some usage => updateAnthropicUsage state.usage usage
      | none => state.usage
    let state := { state with usage := usage }
    let (finish, state) : List StreamChunk × AnthropicStreamState :=
      match (event.textAt ["delta", "stop_reason"]).map mapStopReason with
      | some reason =>
        if state.finished then ([], state)
        else ([.finish 0 reason], { state with finished := true })
      | none => ([], state)
    .ok (finish ++ ((event.get "usage").map fun _ => .usage state.usage).toList, state)
  | some "error" =>
    let error := (event.get "error").getD event
    let kind := (error.textAt ["type"]).getD "stream_error"
    let message := (error.textAt ["message"]).getD "Anthropic stream error"
    let status :=
      if kind = "overloaded_error" then 529
      else if kind = "rate_limit_error" then 429
      else 500
    .error (.upstream status (kind ++ ": " ++ message))
  | _ => .ok ([], state)

namespace Anthropic

/-- Nothing streamed yet. -/
def initial (fallbackModel : String) : AnthropicStreamState :=
  ⟨fallbackModel, .zero, false, 0, ∅, ∅⟩

/-! ## Renderings -/

/-- The event that opens the block at a position. -/
structure Opens (position : ℕ) (kind : String) (event : Value) : Prop where
  type : event.textAt ["type"] = some "content_block_start"
  index : event.natAt ["index"] = some position
  kind : event.textAt ["content_block", "type"] = some kind

/-- An event that brings a piece of the block at a position. -/
structure Brings (position : ℕ) (kind field piece : String) (event : Value) : Prop where
  type : event.textAt ["type"] = some "content_block_delta"
  index : event.natAt ["index"] = some position
  kind : event.textAt ["delta", "type"] = some kind
  piece : event.textAt ["delta", field] = some piece

/-- The event that closes the block at a position. -/
structure Closes (position : ℕ) (event : Value) : Prop where
  type : event.textAt ["type"] = some "content_block_stop"
  index : event.natAt ["index"] = some position

/-- Events that bring the pieces of the block at a position, in order. -/
def Pieces (position : ℕ) (kind field : String) (pieces : List String) (events : List Value) :
    Prop :=
  List.Forall₂ (Brings position kind field) pieces events

/-- The pieces of the arguments of a call: none of any content for an empty input, else any that make
up a document of the input. -/
def PiecesOf (fromStr : String → Option Value) (input : Value) (pieces : List String) : Prop :=
  if input = .object [] then pieces = [] ∨ pieces = [""]
  else fromStr (String.join pieces) = some input

/-- The events that stream one block, its content cut anyhow. -/
inductive RendersBlock (fromStr : String → Option Value) (position : ℕ) (block : Value) :
    List Value → Prop
  | text {opening closing : Value} {pieces : List String} {events : List Value} :
    block.textAt ["type"] = some "text" → Opens position "text" opening →
    block.textAt ["text"] = some (String.join pieces) →
    Pieces position "text_delta" "text" pieces events → Closes position closing →
    RendersBlock fromStr position block (opening :: (events ++ [closing]))
  | thinking {opening closing : Value} {pieces : List String} {events signature : List Value} :
    block.textAt ["type"] = some "thinking" → Opens position "thinking" opening →
    block.textAt ["thinking"] = some (String.join pieces) →
    Pieces position "thinking_delta" "thinking" pieces events →
    Pieces position "signature_delta" "signature" (block.textAt ["signature"]).toList signature →
    Closes position closing →
    RendersBlock fromStr position block (opening :: (events ++ signature ++ [closing]))
  | redacted {opening closing : Value} :
    block.textAt ["type"] = some "redacted_thinking" →
    Opens position "redacted_thinking" opening →
    opening.textAt ["content_block", "data"] = block.textAt ["data"] → Closes position closing →
    RendersBlock fromStr position block [opening, closing]
  | compaction {opening closing : Value} {pieces : List String} {events : List Value} :
    block.textAt ["type"] = some "compaction" → Opens position "compaction" opening →
    opening.textAt ["content_block", "signature"] = block.textAt ["signature"] →
    (opening.textAt ["content_block", "content"]).getD "" ++ String.join pieces =
      (block.textAt ["content"]).getD "" →
    Pieces position "compaction_delta" "content" pieces events → Closes position closing →
    RendersBlock fromStr position block (opening :: (events ++ [closing]))
  | toolUse {opening closing input : Value} {pieces : List String} {events : List Value} :
    block.textAt ["type"] = some "tool_use" → Opens position "tool_use" opening →
    opening.textAt ["content_block", "id"] = block.textAt ["id"] →
    opening.textAt ["content_block", "name"] = block.textAt ["name"] →
    block.get "input" = some input → PiecesOf fromStr input pieces →
    Pieces position "input_json_delta" "partial_json" pieces events → Closes position closing →
    RendersBlock fromStr position block (opening :: (events ++ [closing]))

/-- The events that stream the blocks from a position on. -/
inductive RendersBlocks (fromStr : String → Option Value) : ℕ → List Value → List Value → Prop
  | nil {position : ℕ} : RendersBlocks fromStr position [] []
  | cons {position : ℕ} {block : Value} {blocks events rest : List Value} :
    RendersBlock fromStr position block events →
    RendersBlocks fromStr (position + 1) blocks rest →
    RendersBlocks fromStr position (block :: blocks) (events ++ rest)

/-- The counters of a report. -/
def counters : List String :=
  ["input_tokens", "output_tokens", "cache_read_input_tokens", "cache_creation_input_tokens"]

/-- **The events that stream a response.** The first report may be partial, the last one updates it to
the report of the response. -/
structure Renders (fromStr : String → Option Value) (object start : Value) (blocks : List Value)
    (delta stop : Value) : Prop where
  starts : start.textAt ["type"] = some "message_start"
  id : start.textAt ["message", "id"] = object.textAt ["id"]
  model : start.textAt ["message", "model"] = object.textAt ["model"]
  blocks : RendersBlocks fromStr 0 (object.itemsAt ["content"]) blocks
  ends : delta.textAt ["type"] = some "message_delta"
  reason : delta.textAt ["delta", "stop_reason"] = object.textAt ["stop_reason"]
  ended : (object.textAt ["stop_reason"]).isSome
  usage : ∃ whole last, object.get "usage" = some whole ∧ delta.get "usage" = some last ∧
    ∀ key ∈ counters, (whole.count key).getD 0 =
      ((last.count key).or ((start.path ["message", "usage"]).bind (·.count key))).getD 0
  stops : stop.textAt ["type"] = some "message_stop"

/-! ## What a block gathers -/

/-- The block calls a tool. -/
def IsTool (block : Value) : Prop := block.textAt ["type"] = some "tool_use"

instance (block : Value) : Decidable (IsTool block) := inferInstanceAs (Decidable (_ = _))

/-- What a block gathers, its arguments written as given. -/
def blockPart (toolIndex : ℕ) (block : Value) (arguments : String) : Gathered :=
  match block.textAt ["type"] with
  | some "text" => .part (.content 0 ((block.textAt ["text"]).getD ""))
  | some "thinking" =>
    .part (.thinking 0 ((block.textAt ["thinking"]).getD "")) +
      (((block.textAt ["signature"]).map fun s => Gathered.part (.thinkingSignature 0 s)).getD 0)
  | some "redacted_thinking" =>
    (((block.textAt ["data"]).map fun d => Gathered.part (.redactedThinking 0 d)).getD 0)
  | some "compaction" =>
    .part (.compaction none 0 ((block.textAt ["content"]).getD "") none none
      (block.textAt ["signature"]))
  | some "tool_use" =>
    .part (.toolCall 0 ⟨toolIndex, block.textAt ["id"], block.textAt ["name"], some arguments⟩)
  | _ => 0

/-- What blocks gather, each with the arguments it is written with. -/
def blocksPart : ℕ → List (Value × String) → Gathered :=
  numbered (fun p => IsTool p.1) fun toolIndex p => blockPart toolIndex p.1 p.2

/-! ## The events of a block -/

section

variable {position : ℕ} {event : Value}

theorem indexAt_of {event : Value} (h : event.natAt ["index"] = some position) :
    event.indexAt ["index"] = position % 2 ^ 32 := by
  rw [Value.indexAt, h, Option.getD_some]

/-- A piece of a block, by its kind. -/
theorem brings_cases {kind field piece : String} (h : Brings position kind field piece event)
    (s : AnthropicStreamState) :
    (kind = "text_delta" → field = "text" →
      anthropicEventToChunks event s = .ok (contentChunk 0 (some piece), s)) ∧
    (kind = "thinking_delta" → field = "thinking" →
      anthropicEventToChunks event s = .ok ([.thinking 0 piece], s)) ∧
    (kind = "signature_delta" → field = "signature" →
      anthropicEventToChunks event s = .ok ([.thinkingSignature 0 piece], s)) ∧
    (kind = "input_json_delta" → field = "partial_json" → ∀ toolIndex,
      s.toolIndexes.lookup (event.indexAt ["index"]) = some toolIndex →
      anthropicEventToChunks event s =
        .ok ([.toolCall 0 ⟨toolIndex, none, none, some piece⟩], s)) ∧
    (kind = "compaction_delta" → field = "content" → ∀ content signature,
      s.compactions.lookup (event.indexAt ["index"]) = some (content, signature) →
      anthropicEventToChunks event s = .ok ([], { s with
        compactions :=
          s.compactions.insert (event.indexAt ["index"]) (content ++ piece, signature) })) := by
  refine ⟨?_, ?_, ?_, ?_, ?_⟩ <;> rintro rfl rfl
  case refine_4 | refine_5 =>
    intros
    simp [anthropicEventToChunks, h.type, Value.textAt_getD, h.kind, h.piece, *]
  all_goals simp [anthropicEventToChunks, h.type, Value.textAt_getD, h.kind, h.piece]

theorem brings_text {piece : String} (h : Brings position "text_delta" "text" piece event)
    (s : AnthropicStreamState) :
    anthropicEventToChunks event s = .ok (contentChunk 0 (some piece), s) :=
  (brings_cases h s).1 rfl rfl

theorem brings_thinking {piece : String}
    (h : Brings position "thinking_delta" "thinking" piece event) (s : AnthropicStreamState) :
    anthropicEventToChunks event s = .ok ([.thinking 0 piece], s) :=
  (brings_cases h s).2.1 rfl rfl

theorem brings_signature {piece : String}
    (h : Brings position "signature_delta" "signature" piece event) (s : AnthropicStreamState) :
    anthropicEventToChunks event s = .ok ([.thinkingSignature 0 piece], s) :=
  (brings_cases h s).2.2.1 rfl rfl

theorem brings_json {piece : String}
    (h : Brings position "input_json_delta" "partial_json" piece event) {s : AnthropicStreamState}
    {toolIndex : ℕ} (hs : s.toolIndexes.lookup (position % 2 ^ 32) = some toolIndex) :
    anthropicEventToChunks event s =
      .ok ([.toolCall 0 ⟨toolIndex, none, none, some piece⟩], s) := by
  rw [← indexAt_of h.index] at hs
  exact (brings_cases h s).2.2.2.1 rfl rfl toolIndex hs

theorem brings_compaction {piece : String}
    (h : Brings position "compaction_delta" "content" piece event) {s : AnthropicStreamState}
    {content : String} {signature : Option String}
    (hs : s.compactions.lookup (position % 2 ^ 32) = some (content, signature)) :
    anthropicEventToChunks event s = .ok ([], { s with
      compactions := s.compactions.insert (position % 2 ^ 32) (content ++ piece, signature) }) := by
  rw [← indexAt_of h.index] at hs ⊢
  exact (brings_cases h s).2.2.2.2 rfl rfl content signature hs

/-- No compaction is held back. -/
def Idle (s : AnthropicStreamState) : Prop := ∀ k, s.compactions.lookup k = none

/-- How a block opens, by its kind. -/
theorem opens_cases {kind : String} (h : Opens position kind event) (s : AnthropicStreamState) :
    (kind = "text" ∨ kind = "thinking" → anthropicEventToChunks event s = .ok ([], s)) ∧
    (kind = "redacted_thinking" → anthropicEventToChunks event s =
      .ok (((event.textAt ["content_block", "data"]).map (.redactedThinking 0)).toList, s)) ∧
    (kind = "compaction" → anthropicEventToChunks event s = .ok ([], { s with
      compactions := s.compactions.insert (event.indexAt ["index"])
        ((event.textAt ["content_block", "content"]).getD "",
          event.textAt ["content_block", "signature"]) })) ∧
    (kind = "tool_use" → anthropicEventToChunks event s =
      .ok ([.toolCall 0 ⟨s.nextToolIndex, event.textAt ["content_block", "id"],
        event.textAt ["content_block", "name"], none⟩], { s with
          nextToolIndex := s.nextToolIndex + 1
          toolIndexes := s.toolIndexes.insert (event.indexAt ["index"]) s.nextToolIndex })) := by
  refine ⟨?_, ?_, ?_, ?_⟩
  · rintro (rfl | rfl) <;> simp [anthropicEventToChunks, h.type, Value.textAt_getD, h.kind]
  all_goals
    rintro rfl
    simp [anthropicEventToChunks, h.type, Value.textAt_getD, h.kind]

/-- The block of a text or of a reasoning opens with nothing. -/
theorem opens_plain {kind : String} (h : Opens position kind event)
    (hkind : kind = "text" ∨ kind = "thinking") (s : AnthropicStreamState) :
    anthropicEventToChunks event s = .ok ([], s) :=
  (opens_cases h s).1 hkind

theorem opens_redacted (h : Opens position "redacted_thinking" event) (s : AnthropicStreamState) :
    anthropicEventToChunks event s =
      .ok (((event.textAt ["content_block", "data"]).map (.redactedThinking 0)).toList, s) :=
  (opens_cases h s).2.1 rfl

theorem opens_compaction (h : Opens position "compaction" event) (s : AnthropicStreamState) :
    anthropicEventToChunks event s = .ok ([], { s with
      compactions := s.compactions.insert (position % 2 ^ 32)
        ((event.textAt ["content_block", "content"]).getD "",
          event.textAt ["content_block", "signature"]) }) := by
  rw [← indexAt_of h.index]
  exact (opens_cases h s).2.2.1 rfl

theorem opens_toolUse (h : Opens position "tool_use" event) (s : AnthropicStreamState) :
    anthropicEventToChunks event s =
      .ok ([.toolCall 0 ⟨s.nextToolIndex, event.textAt ["content_block", "id"],
        event.textAt ["content_block", "name"], none⟩], { s with
          nextToolIndex := s.nextToolIndex + 1
          toolIndexes := s.toolIndexes.insert (position % 2 ^ 32) s.nextToolIndex }) := by
  rw [← indexAt_of h.index]
  exact (opens_cases h s).2.2.2 rfl

theorem closes_idle (h : Closes position event) {s : AnthropicStreamState} (hs : Idle s) :
    anthropicEventToChunks event s = .ok ([], s) := by
  simp [anthropicEventToChunks, h.type, hs _]

theorem closes_compaction (h : Closes position event) {s : AnthropicStreamState} {content : String}
    {signature : Option String}
    (hs : s.compactions.lookup (position % 2 ^ 32) = some (content, signature)) :
    anthropicEventToChunks event s =
      .ok ([.compaction none 0 content none none signature],
        { s with compactions := s.compactions.erase (position % 2 ^ 32) }) := by
  rw [← indexAt_of h.index] at hs ⊢
  simp [anthropicEventToChunks, h.type, hs]

/-- The state after the pieces of a compaction, the first of them written behind `content`. -/
theorem compaction_pieces {pieces : List String} {events : List Value}
    (h : Pieces position "compaction_delta" "content" pieces events) {s : AnthropicStreamState}
    {content : String} {signature : Option String}
    (hs : s.compactions.lookup (position % 2 ^ 32) = some (content, signature))
    (hother : ∀ k ≠ position % 2 ^ 32, s.compactions.lookup k = none) :
    ∃ compactions, mapEvents anthropicEventToChunks events s =
        .ok ([], { s with compactions := compactions }) ∧
      compactions.lookup (position % 2 ^ 32) = some (content ++ String.join pieces, signature) ∧
      ∀ k ≠ position % 2 ^ 32, compactions.lookup k = none := by
  induction h generalizing s content with
  | nil => exact ⟨s.compactions, rfl, by rw [hs, String.join_nil, String.append_empty], hother⟩
  | cons hb _ ih =>
    obtain ⟨compactions, hrun, hmine, hrest⟩ := ih
      (s := { s with compactions := s.compactions.insert (position % 2 ^ 32) (content ++ _, signature) })
      (AList.lookup_insert _) fun k hk => by rw [AList.lookup_insert_ne hk, hother k hk]
    refine ⟨compactions, mapEvents_cons (brings_compaction hb hs) hrun, ?_, hrest⟩
    rw [hmine, String.join_cons, String.append_assoc]

/-- The arguments streamed for a block: what they read to is the input, unless this is empty. -/
def Written (fromStr : String → Option Value) (block : Value) (arguments : String) : Prop :=
  ∃ input, block.get "input" = some input ∧
    if input = .object [] then arguments = "" else fromStr arguments = some input

/-- What the events of a block do. -/
structure BlockRun (fromStr : String → Option Value) (s : AnthropicStreamState) (block : Value)
    (chunks : List StreamChunk) (arguments : String) (s' : AnthropicStreamState) : Prop where
  idle : Idle s'
  usage : s'.usage = s.usage
  finished : s'.finished = s.finished
  next : s'.nextToolIndex = if IsTool block then s.nextToolIndex + 1 else s.nextToolIndex
  index : ∀ c ∈ chunks, c.index = some 0
  part : gathered 0 chunks = blockPart s.nextToolIndex block arguments
  written : IsTool block → Written fromStr block arguments

theorem PiecesOf.written {fromStr : String → Option Value} {block input : Value}
    {pieces : List String} (hinput : block.get "input" = some input)
    (h : PiecesOf fromStr input pieces) : Written fromStr block (String.join pieces) := by
  refine ⟨input, hinput, ?_⟩
  unfold PiecesOf at h
  split at h
  · rw [if_pos ‹_›]
    rcases h with rfl | rfl <;> rfl
  · rwa [if_neg ‹_›]

/-- **The events of a block add what it gathers**, and leave no compaction behind. -/
theorem RendersBlock.run {fromStr : String → Option Value} {block : Value} {events : List Value}
    (h : RendersBlock fromStr position block events) {s : AnthropicStreamState} (hs : Idle s) :
    ∃ chunks arguments s', mapEvents anthropicEventToChunks events s = .ok (chunks, s') ∧
      BlockRun fromStr s block chunks arguments s' := by
  have hnil (s : AnthropicStreamState) : mapEvents anthropicEventToChunks [] s = .ok ([], s) := rfl
  cases h with
  | text hkind hopen htext hpieces hclose =>
    have hrun := mapEvents_cons (opens_plain hopen (.inl rfl) s)
      (mapEvents_append (mapEvents_pieces hpieces fun piece event hb => brings_text hb s)
        (mapEvents_cons (closes_idle hclose hs) (hnil s)))
    refine ⟨_, "", s, hrun, hs, rfl, rfl, ?_, ?_, ?_, ?_⟩
    · simp [IsTool, hkind]
    · simp only [List.nil_append, List.append_nil, List.mem_flatMap]
      rintro c ⟨piece, _, hc⟩
      exact index_contentChunk 0 _ c hc
    · simp only [List.nil_append, List.append_nil, gathered_flatMap, gathered_contentChunk, if_true,
        Option.getD_some, blockPart, hkind, htext]
      exact Gathered.sum_content 0 _
    · simp [IsTool, hkind]
  | thinking hkind hopen hthinking hpieces hsignature hclose =>
    have hrun := mapEvents_cons (opens_plain hopen (.inr rfl) s)
      (mapEvents_append (mapEvents_append
        (mapEvents_pieces hpieces fun piece event hb => brings_thinking hb s)
        (mapEvents_pieces hsignature fun piece event hb => brings_signature hb s))
        (mapEvents_cons (closes_idle hclose hs) (hnil s)))
    refine ⟨_, "", s, hrun, hs, rfl, rfl, ?_, ?_, ?_, ?_⟩
    · simp [IsTool, hkind]
    · simp [StreamChunk.index]
      grind
    · simp only [List.nil_append, List.append_nil, gathered_append,
        gathered_pieces (f := .thinking 0) fun _ => rfl, Gathered.sum_thinking,
        gathered_pieces (f := .thinkingSignature 0) fun _ => rfl, blockPart, hkind, hthinking,
        Option.getD_some]
      cases block.textAt ["signature"] <;> simp
    · simp [IsTool, hkind]
  | redacted hkind hopen hdata hclose =>
    have hrun := mapEvents_cons (opens_redacted hopen s)
      (mapEvents_cons (closes_idle hclose hs) (hnil s))
    refine ⟨_, "", s, hrun, hs, rfl, rfl, ?_, ?_, ?_, ?_⟩
    · simp [IsTool, hkind]
    · simp [StreamChunk.index]
    · simp only [List.append_nil, blockPart, hkind, hdata]
      exact gathered_piece (fun _ => rfl) _
    · simp [IsTool, hkind]
  | compaction hkind hopen hsignature hcontent hpieces hclose =>
    obtain ⟨compactions, hbring, hmine, hrest⟩ := compaction_pieces hpieces
      (s := { s with compactions := s.compactions.insert (position % 2 ^ 32) _ })
      (AList.lookup_insert _) fun k hk => by rw [AList.lookup_insert_ne hk, hs k]
    have hrun := mapEvents_cons (opens_compaction hopen s)
      (mapEvents_append hbring (mapEvents_cons (closes_compaction hclose hmine) (hnil _)))
    refine ⟨_, "", _, hrun, fun k => ?_, rfl, rfl, ?_, ?_, ?_, ?_⟩
    · by_cases hk : k = position % 2 ^ 32
      · rw [hk]
        exact AList.lookup_erase _ _
      · rw [AList.lookup_erase_ne hk, hrest k hk]
    · simp [IsTool, hkind]
    · simp [StreamChunk.index]
    · simp only [List.nil_append, List.append_nil, hcontent, hsignature, blockPart, hkind]
      exact gathered_one rfl
    · simp [IsTool, hkind]
  | @toolUse opening closing input pieces events hkind hopen hid hname hinput hof hpieces hclose =>
    have hrun := mapEvents_cons (opens_toolUse hopen s)
      (mapEvents_append (mapEvents_pieces hpieces fun piece event hb =>
        brings_json hb (AList.lookup_insert _)) (mapEvents_cons (closes_idle hclose hs) (hnil _)))
    refine ⟨_, String.join pieces, _, hrun, hs, rfl, rfl, ?_, ?_, ?_, fun _ => hof.written hinput⟩
    · simp [IsTool, hkind]
    · simp [StreamChunk.index]
      grind
    · rw [List.append_nil, List.append_nil, gathered_append, gathered_one rfl,
        gathered_pieces (f := fun piece => .toolCall 0 ⟨s.nextToolIndex, none, none, some piece⟩)
          fun _ => rfl, hid, hname, Gathered.part_toolCall_none, Gathered.sum_toolCall,
        String.empty_append]
      simp only [blockPart, hkind]
end

/-- **The events of blocks add what the blocks gather**, with arguments that read to their inputs. -/
theorem RendersBlocks.run {fromStr : String → Option Value} {position : ℕ}
    {blocks events : List Value} (h : RendersBlocks fromStr position blocks events)
    {s : AnthropicStreamState} (hs : Idle s) :
    ∃ chunks s', ∃ pairs : List (Value × String),
      mapEvents anthropicEventToChunks events s = .ok (chunks, s') ∧
      s'.usage = s.usage ∧ s'.finished = s.finished ∧
      (∀ c ∈ chunks, c.index = some 0) ∧ pairs.map Prod.fst = blocks ∧
      gathered 0 chunks = blocksPart s.nextToolIndex pairs ∧
      ∀ p ∈ pairs, IsTool p.1 → Written fromStr p.1 p.2 := by
  induction h generalizing s with
  | nil => exact ⟨[], s, [], rfl, rfl, rfl, by simp, rfl, rfl, by simp⟩
  | @cons position block blocks events rest hblock _ ih =>
    obtain ⟨chunks, arguments, t, hrun, ht⟩ := hblock.run hs
    obtain ⟨more, s', pairs, hmore, husage, hfinished, hindex, hfst, hpart, hwritten⟩ := ih ht.idle
    refine ⟨chunks ++ more, s', (block, arguments) :: pairs, mapEvents_append hrun hmore,
      husage.trans ht.usage, hfinished.trans ht.finished, ?_, ?_, ?_, ?_⟩
    · exact fun c hc => (List.mem_append.mp hc).elim (ht.index c) (hindex c)
    · rw [List.map_cons, hfst]
    · rw [gathered_append, ht.part, hpart, ht.next]
      rfl
    · simpa using ⟨ht.written, by simpa using hwritten⟩

/-! ## The blocks of a collected response -/

/-- The arguments a collected call is written with. -/
def collectedArguments (toStr : Value → String) (block : Value) : String :=
  ((block.get "input").map toStr).getD ""

/-- A block adds what it gathers. -/
theorem blockChunks_gathered (toStr : Value → String) (toolIndex : ℕ) (block : Value) :
    gathered 0 (blockChunks toStr toolIndex block).1 =
      blockPart toolIndex block (collectedArguments toStr block) := by
  unfold blockChunks blockPart
  split
  · rw [gathered_contentChunk, if_pos rfl]
  · rw [gathered_append, gathered_piece fun _ => rfl, gathered_piece fun _ => rfl]
    cases block.textAt ["thinking"] <;> rfl
  · exact gathered_piece (fun _ => rfl) _
  · exact gathered_one rfl
  · rw [gathered_one rfl, collectedArguments]
    cases block.get "input" <;> rfl
  · rfl

theorem blockChunks_index (toStr : Value → String) (toolIndex : ℕ) (block : Value) :
    ∀ c ∈ (blockChunks toStr toolIndex block).1, c.index = some 0 := by
  unfold blockChunks
  split
  · exact index_contentChunk 0 _
  · simp [or_imp, forall_and, StreamChunk.index]
  all_goals simp [StreamChunk.index]

theorem blockChunks_next (toStr : Value → String) (toolIndex : ℕ) (block : Value) :
    (blockChunks toStr toolIndex block).2 = if IsTool block then toolIndex + 1 else toolIndex := by
  unfold blockChunks IsTool
  split <;> simp_all

/-- The blocks add what they gather. -/
theorem blocksChunks_gathered (toStr : Value → String) (toolIndex : ℕ) (blocks : List Value) :
    gathered 0 (blocksChunks toStr toolIndex blocks) =
      blocksPart toolIndex (blocks.map fun b => (b, collectedArguments toStr b)) := by
  induction blocks generalizing toolIndex with
  | nil => rfl
  | cons block blocks ih =>
    rw [blocksChunks, gathered_append, blockChunks_gathered, ih, blockChunks_next]
    rfl

theorem blocksChunks_index (toStr : Value → String) (toolIndex : ℕ) (blocks : List Value) :
    ∀ c ∈ blocksChunks toStr toolIndex blocks, c.index = some 0 := by
  induction blocks generalizing toolIndex with
  | nil => simp [blocksChunks]
  | cons block blocks ih =>
    intro c hc
    exact (List.mem_append.mp hc).elim (blockChunks_index toStr toolIndex block c) (ih _ c)

/-! ## The calls of blocks -/

/-- What a call gathers. -/
def callPart (p : Value × String) : PartialToolCall :=
  ⟨p.1.textAt ["id"], p.1.textAt ["name"], p.2⟩

/-- The blocks that call a tool. -/
def tools (pairs : List (Value × String)) : List (Value × String) :=
  pairs.filter fun p => IsTool p.1

theorem calls_blockPart (toolIndex : ℕ) (block : Value) (arguments : String) (k : ℕ) :
    (blockPart toolIndex block arguments).calls k =
      if IsTool block ∧ toolIndex = k then some (callPart (block, arguments)) else none := by
  unfold blockPart IsTool
  split
  · simp_all [Gathered.part]
  · cases block.textAt ["signature"] <;> simp_all [Gathered.part]
  · cases block.textAt ["data"] <;> simp_all [Gathered.part]
  · simp_all [Gathered.part]
  · simp_all [Gathered.part, PartialToolCall.ofDelta, callPart]
  · simp_all

theorem calls_blocksPart (pairs : List (Value × String)) (k : ℕ) :
    (blocksPart 0 pairs).calls k = (tools pairs)[k]?.map callPart := by
  rw [blocksPart, calls_numbered _ _ fun toolIndex p => calls_blockPart toolIndex p.1 p.2,
    if_pos (Nat.zero_le k), Nat.sub_zero, tools]

/-- What is gathered beside the calls. -/
def besides (g : Gathered) : Gathered := { g with calls := fun _ => none }

theorem besides_add (a b : Gathered) : besides (a + b) = besides a + besides b :=
  Gathered.ext rfl rfl rfl rfl rfl rfl (funext fun _ => rfl) rfl

theorem besides_blockPart (toolIndex : ℕ) (block : Value) (a a' : String) :
    besides (blockPart toolIndex block a) = besides (blockPart toolIndex block a') := by
  unfold blockPart
  split <;> rfl

/-- The arguments of the calls do not matter beside the calls. -/
theorem besides_blocksPart (f : Value → String) (pairs : List (Value × String)) :
    besides (blocksPart 0 (pairs.map fun p => (p.1, f p.1))) = besides (blocksPart 0 pairs) := by
  rw [blocksPart, numbered_map]
  exact numbered_congr _ _ besides_add (fun _ _ => besides_blockPart _ _ _ _) 0 pairs

/-! ## The two streams -/

section

variable {fromStr : String → Option Value} {object start delta stop : Value} {blocks : List Value}

/-- The usage that the first event of a stream reports. -/
def firstUsage (start : Value) : Usage :=
  ((start.path ["message", "usage"]).map (updateAnthropicUsage .zero)).getD .zero

/-- The state after the first event. -/
def started (object start : Value) (fallback : String) : AnthropicStreamState :=
  { initial fallback with
    model := (object.textAt ["model"]).getD fallback
    usage := firstUsage start }

/-- Partial reports add up to the whole one where the last value of each counter is that of it. -/
theorem lastUsage_eq {whole last : Value}
    (h : ∀ key ∈ counters, (whole.count key).getD 0 =
      ((last.count key).or ((start.path ["message", "usage"]).bind (·.count key))).getD 0) :
    updateAnthropicUsage (firstUsage start) last = anthropicUsage whole := by
  simp only [counters, List.forall_mem_cons, List.not_mem_nil, IsEmpty.forall_iff, forall_const,
    and_true] at h
  obtain ⟨hprompt, hcompletion, hread, hcreation⟩ := h
  rw [firstUsage, anthropicUsage_eq, updateAnthropicUsage_eq, updateAnthropicUsage_eq]
  cases hfirst : start.path ["message", "usage"] with
  | none =>
    rw [hfirst] at hprompt hcompletion hread hcreation
    simp_all [Usage.zero]
  | some first =>
    rw [hfirst] at hprompt hcompletion hread hcreation
    simp [updateAnthropicUsage_eq, Usage.zero, hprompt, hcompletion, hread, hcreation]

/-- The reason a response ends for. -/
def reasonOf (object : Value) : FinishReason :=
  ((object.textAt ["stop_reason"]).map mapStopReason).getD .stop

theorem collected_framed (toStr : Value → String) (object : Value) (fallback : String) :
    anthropicToChunks toStr object fallback =
      framed ((object.textAt ["id"]).getD "") ((object.textAt ["model"]).getD fallback)
        (blocksChunks toStr 0 (object.itemsAt ["content"]) ++ [.finish 0 (reasonOf object)])
        ((object.get "usage").map anthropicUsage) := by
  simp [anthropicToChunks, framed, reasonOf, Function.comp_def]

/-- **The chunks of a rendering.** -/
theorem Renders.output (h : Renders fromStr object start blocks delta stop) (fallback : String) :
    ∃ chunks s', ∃ pairs : List (Value × String),
      mapEvents anthropicEventToChunks (start :: (blocks ++ [delta, stop])) (initial fallback) =
        .ok (framed ((object.textAt ["id"]).getD "") ((object.textAt ["model"]).getD fallback)
          (chunks ++ [.finish 0 (reasonOf object)]) ((object.get "usage").map anthropicUsage), s') ∧
      (∀ c ∈ chunks, c.index = some 0) ∧ pairs.map Prod.fst = object.itemsAt ["content"] ∧
      gathered 0 chunks = blocksPart 0 pairs ∧
      ∀ p ∈ pairs, IsTool p.1 → Written fromStr p.1 p.2 := by
  obtain ⟨whole, last, hwhole, hlast, hcounts⟩ := h.usage
  obtain ⟨reason, hreason⟩ := Option.isSome_iff_exists.mp h.ended
  have hstart : anthropicEventToChunks start (initial fallback) =
      .ok ([.start ((object.textAt ["id"]).getD "") ((object.textAt ["model"]).getD fallback)],
        started object start fallback) := by
    have husage : ((start.get "message").getD .null).get "usage" =
        start.path ["message", "usage"] := by
      rw [← Value.path_one, ← Value.path_one, Value.path_getD]
      rfl
    simp only [anthropicEventToChunks, h.starts, Value.textAt_getD, h.id, h.model, husage]
    cases hfirst : start.path ["message", "usage"] <;> simp [started, firstUsage, hfirst, initial]
  obtain ⟨chunks, t, pairs, hrun, husage, hfinished, hindex, hfst, hpart, hwritten⟩ :=
    h.blocks.run (s := started object start fallback) fun _ => rfl
  have hdelta : anthropicEventToChunks delta t =
      .ok ([.finish 0 (reasonOf object), .usage (anthropicUsage whole)],
        { t with usage := anthropicUsage whole, finished := true }) := by
    have hreport : updateAnthropicUsage t.usage last = anthropicUsage whole := by
      rw [husage]
      exact lastUsage_eq hcounts
    have hopen : t.finished = false := hfinished
    simp [anthropicEventToChunks, h.ends, hlast, h.reason, hreason, hreport, hopen, reasonOf]
  have hstop (u : AnthropicStreamState) : anthropicEventToChunks stop u = .ok ([], u) := by
    simp [anthropicEventToChunks, h.stops]
  have hnil (u : AnthropicStreamState) : mapEvents anthropicEventToChunks [] u = .ok ([], u) := rfl
  have hall := mapEvents_cons hstart (mapEvents_append hrun
    (mapEvents_cons hdelta (mapEvents_cons (hstop _) (hnil _))))
  exact ⟨chunks, _, pairs, by simpa [framed, hwhole] using hall, hindex, hfst, hpart, hwritten⟩

/-- A stream of blocks and a finish has the calls of its blocks. -/
theorem choice_blocks {id model : String} {chunks : List StreamChunk} {reason : FinishReason}
    {report : Option Usage} {pairs : List (Value × String)}
    (hpart : gathered 0 chunks = blocksPart 0 pairs) :
    ((framed id model (chunks ++ [.finish 0 reason]) report).foldl Collected.step .empty).choice 0 =
      (besides (blocksPart 0 pairs) + Gathered.part (.finish 0 reason)).choice 0
        ((tools pairs).map fun p => (callPart p).intoCall) := by
  have hgathered : gathered 0 (framed id model (chunks ++ [.finish 0 reason]) report) =
      blocksPart 0 pairs + Gathered.part (.finish 0 reason) := by
    rw [gathered_framed, gathered_append, hpart, gathered_one rfl]
  rw [@choice_of_calls _ 0 ((tools pairs).map callPart)]
  · rw [hgathered, List.map_map]
    rfl
  · intro k
    rw [hgathered, Gathered.calls_add, calls_blocksPart]
    simp [Gathered.part]

end

/-- What a call is written with in a stream and in a collected response reads the same exactly if its
input is not empty. -/
theorem Written.read_iff {fromStr : String → Option Value} {toStr : Value → String} {block : Value}
    {arguments : String} (h : Written fromStr block arguments)
    (hround : ∀ input, block.get "input" = some input → fromStr (toStr input) = some input)
    (hempty : fromStr "" = none) :
    fromStr arguments = fromStr (collectedArguments toStr block) ↔
      block.get "input" ≠ some (.object []) := by
  obtain ⟨input, hinput, hw⟩ := h
  have hcollected : fromStr (collectedArguments toStr block) = some input := by
    rw [collectedArguments, hinput]
    exact hround input hinput
  rw [hcollected, hinput]
  split at hw
  · subst input
    simp [hw, hempty]
  · simpa [hw]

end Anthropic

/-- A choice with the arguments of its calls read. -/
def Choice.read (fromStr : String → Option Value) (c : Choice) :
    Choice × List (String × String × Option Value) :=
  ({ c with toolCalls := [] }, c.toolCalls.map fun call => (call.id, call.name, fromStr call.arguments))

/-- Responses that differ at most in how the arguments of their calls are written. -/
def SameUpToArguments (fromStr : String → Option Value) (a b : ChatResponse) : Prop :=
  a.id = b.id ∧ a.model = b.model ∧ a.usage = b.usage ∧
    a.choices.map (Choice.read fromStr) = b.choices.map (Choice.read fromStr)

namespace Anthropic

/-- Streams that are framed alike differ in no more than arguments exactly if their choice does. -/
theorem sameUpToArguments_framed {fromStr : String → Option Value} {id model : String}
    {body body' : List StreamChunk} {report : Option Usage}
    (h : ∀ c ∈ body, c.index = some 0) (h' : ∀ c ∈ body', c.index = some 0) (hne : body ≠ [])
    (hne' : body' ≠ []) :
    SameUpToArguments fromStr (collectChunks (framed id model body report))
        (collectChunks (framed id model body' report)) ↔
      Choice.read fromStr
          (((framed id model body report).foldl Collected.step .empty).choice 0) =
        Choice.read fromStr
          (((framed id model body' report).foldl Collected.step .empty).choice 0) := by
  have hbody : SingleChoice (framed id model body report) := single_framed h hne
  have hbody' : SingleChoice (framed id model body' report) := single_framed h' hne'
  have hsame := hbody.sameFrame hbody' ((lastStart_framed h).trans (lastStart_framed h').symm)
  obtain ⟨hid, hmodel, -⟩ := hsame.collect
  have husage : (collectChunks (framed id model body report)).usage =
      (collectChunks (framed id model body' report)).usage := by
    simp only [collectChunks, Collected.usage_foldl, lastUsage_framed h, lastUsage_framed h']
  rw [SameUpToArguments, hsame.map_choices_iff, hbody.forall_iff, and_iff_right hid,
    and_iff_right hmodel, and_iff_right husage]

/-- The same blocks with other arguments read the same exactly if the arguments of every call do. -/
theorem read_choice_iff {fromStr : String → Option Value} {part : Gathered}
    {pairs : List (Value × String)} (f : Value → String) :
    Choice.read fromStr (part.choice 0 ((tools pairs).map fun p => (callPart p).intoCall)) =
        Choice.read fromStr (part.choice 0
          ((tools (pairs.map fun p => (p.1, f p.1))).map fun p => (callPart p).intoCall)) ↔
      ∀ p ∈ pairs, IsTool p.1 → fromStr p.2 = fromStr (f p.1) := by
  have htools : tools (pairs.map fun p => (p.1, f p.1)) =
      (tools pairs).map fun p => (p.1, f p.1) := by
    rw [tools, tools, List.filter_map]
    rfl
  rw [htools, List.map_map]
  simp [Choice.read, Gathered.choice, callPart, PartialToolCall.intoCall, tools]

/-- **Streaming a response changes at most how arguments are written exactly if no call has an empty
input**: of such a call the stream brings no arguments, where the collected response has `{}`. -/
theorem anthropic_streamed_iff {fromStr : String → Option Value} {toStr : Value → String}
    {object start delta stop : Value} {blocks : List Value}
    (h : Renders fromStr object start blocks delta stop)
    (hround : ∀ block ∈ object.itemsAt ["content"], ∀ input, block.get "input" = some input →
      fromStr (toStr input) = some input)
    (hempty : fromStr "" = none) (fallback : String) :
    ∃ chunks s', mapEvents anthropicEventToChunks (start :: (blocks ++ [delta, stop]))
        (initial fallback) = .ok (chunks, s') ∧
      (SameUpToArguments fromStr (collectChunks chunks)
          (collectChunks (anthropicToChunks toStr object fallback)) ↔
        ∀ block ∈ object.itemsAt ["content"], IsTool block →
          block.get "input" ≠ some (.object [])) := by
  obtain ⟨chunks, s', pairs, hrun, hindex, hfst, hpart, hwritten⟩ := h.output fallback
  refine ⟨_, s', hrun, ?_⟩
  have hmem {p : Value × String} (hp : p ∈ pairs) : p.1 ∈ object.itemsAt ["content"] := by
    rw [← hfst]
    exact List.mem_map_of_mem hp
  have hpart' : gathered 0 (blocksChunks toStr 0 (object.itemsAt ["content"])) =
      blocksPart 0 (pairs.map fun p => (p.1, collectedArguments toStr p.1)) := by
    rw [blocksChunks_gathered, ← hfst, List.map_map]
    rfl
  have hbesides : besides (blocksPart 0 (pairs.map fun p => (p.1, collectedArguments toStr p.1))) =
      besides (blocksPart 0 pairs) := besides_blocksPart _ pairs
  have hone {body : List StreamChunk} (hbody : ∀ c ∈ body, c.index = some 0) :
      ∀ c ∈ body ++ [.finish 0 (reasonOf object)], c.index = some 0 := fun c hc =>
    (List.mem_append.mp hc).elim (hbody c) fun hc => by rw [List.mem_singleton.mp hc]; rfl
  rw [collected_framed, sameUpToArguments_framed (hone hindex)
    (hone (blocksChunks_index toStr 0 (object.itemsAt ["content"]))) (by simp) (by simp),
    choice_blocks hpart, choice_blocks hpart', hbesides, read_choice_iff]
  -- call by call
  have hcall {p : Value × String} (hp : p ∈ pairs) (htool : IsTool p.1) :=
    (hwritten p hp htool).read_iff (hround p.1 (hmem hp)) hempty
  constructor
  · intro hall block hblock htool
    rw [← hfst] at hblock
    obtain ⟨p, hp, rfl⟩ := List.mem_map.mp hblock
    exact (hcall hp htool).mp (hall p hp htool)
  · intro hall p hp htool
    exact (hcall hp htool).mpr (hall p.1 (hmem hp) htool)

end Anthropic

section

open Anthropic Value

/-- A response of a text and a call with this input. -/
def anthropicCalling (input : Value) : Value := obj [("id", string "m"), ("model", string "claude"),
  ("content", array [obj [("type", string "text"), ("text", string "hi")],
    obj [("type", string "tool_use"), ("id", string "t"), ("name", string "f"), ("input", input)]]),
  ("stop_reason", string "tool_use"),
  ("usage", obj [("input_tokens", nat 5), ("output_tokens", nat 2)])]

/-- The first event of its stream. -/
def anthropicStart : Value := obj [("type", string "message_start"),
  ("message", obj [("id", string "m"), ("model", string "claude"),
    ("usage", obj [("input_tokens", nat 5), ("output_tokens", nat 1)])])]

/-- The opening of a block. -/
def anthropicOpens (position : ℕ) (block : List (String × Value)) : Value :=
  obj [("type", string "content_block_start"), ("index", nat position), ("content_block", obj block)]

/-- A piece of a block. -/
def anthropicBrings (position : ℕ) (kind field piece : String) : Value :=
  obj [("type", string "content_block_delta"), ("index", nat position),
    ("delta", obj [("type", string kind), (field, string piece)])]

/-- The closing of a block. -/
def anthropicCloses (position : ℕ) : Value :=
  obj [("type", string "content_block_stop"), ("index", nat position)]

/-- The events of the text. -/
def anthropicText : List Value :=
  anthropicOpens 0 [("type", string "text")] ::
    ([anthropicBrings 0 "text_delta" "text" "h", anthropicBrings 0 "text_delta" "text" "i"] ++
      [anthropicCloses 0])

/-- The events of the call. -/
def anthropicCall (pieces : List String) : List Value :=
  anthropicOpens 1 [("type", string "tool_use"), ("id", string "t"), ("name", string "f")] ::
    (pieces.map (anthropicBrings 1 "input_json_delta" "partial_json") ++ [anthropicCloses 1])

/-- The report that ends its stream. -/
def anthropicDelta : Value := obj [("type", string "message_delta"),
  ("delta", obj [("stop_reason", string "tool_use")]), ("usage", obj [("output_tokens", nat 2)])]

/-- The last event of its stream. -/
def anthropicStop : Value := obj [("type", string "message_stop")]

/-- Reading of two documents. -/
def readArguments (text : String) : Option Value :=
  if text = "[1]" then some (array [nat 1])
  else if text = "\x7b\x7d" then some (.object [])
  else none

/-- Writing of the same documents. -/
def writeArguments (value : Value) : String := if value = .object [] then "\x7b\x7d" else "[1]"

example : readArguments (writeArguments (.object [])) = some (.object []) := by decide +kernel

theorem anthropicCalling_content (input : Value) : (anthropicCalling input).itemsAt ["content"] =
    [obj [("type", string "text"), ("text", string "hi")],
      obj [("type", string "tool_use"), ("id", string "t"), ("name", string "f"),
        ("input", input)]] := by
  simp [anthropicCalling, Value.itemsAt, Value.path, Value.get_obj, Value.asArray]

theorem anthropicText_renders : RendersBlock readArguments 0
    (obj [("type", string "text"), ("text", string "hi")]) anthropicText :=
  .text (by decide +kernel) ⟨by decide +kernel, by decide +kernel, by decide +kernel⟩
    (by decide +kernel : _ = some (String.join ["h", "i"]))
    (.cons ⟨by decide +kernel, by decide +kernel, by decide +kernel, by decide +kernel⟩
      (.cons ⟨by decide +kernel, by decide +kernel, by decide +kernel, by decide +kernel⟩ .nil))
    ⟨by decide +kernel, by decide +kernel⟩

theorem anthropicBrings_piece (piece : String) : Brings 1 "input_json_delta" "partial_json" piece
    (anthropicBrings 1 "input_json_delta" "partial_json" piece) := by
  constructor <;> simp [anthropicBrings, Value.textAt, Value.natAt, Value.path, Value.get_obj,
    Value.asStr, Value.nat, Value.asU64]

theorem anthropicCall_renders {input : Value} {pieces : List String}
    (hof : PiecesOf readArguments input pieces) : RendersBlock readArguments 1
      (obj [("type", string "tool_use"), ("id", string "t"), ("name", string "f"),
        ("input", input)]) (anthropicCall pieces) := by
  refine .toolUse ?_ ⟨by decide +kernel, by decide +kernel, by decide +kernel⟩ ?_ ?_ ?_ hof ?_
    ⟨by decide +kernel, by decide +kernel⟩
  case refine_5 => exact List.forall₂_map_right_iff.mpr (List.forall₂_same.mpr fun piece _ =>
    anthropicBrings_piece piece)
  all_goals simp [anthropicOpens, Value.textAt, Value.path, Value.get_obj, Value.asStr]

theorem anthropicCalling_renders {input : Value} {pieces : List String}
    (hof : PiecesOf readArguments input pieces) :
    Renders readArguments (anthropicCalling input) anthropicStart
      (anthropicText ++ (anthropicCall pieces ++ [])) anthropicDelta anthropicStop where
  starts := by decide +kernel
  id := by simp [anthropicCalling, anthropicStart, Value.textAt, Value.path, Value.get_obj]
  model := by simp [anthropicCalling, anthropicStart, Value.textAt, Value.path, Value.get_obj]
  blocks := by
    rw [anthropicCalling_content]
    exact .cons anthropicText_renders (.cons (anthropicCall_renders hof) .nil)
  ends := by decide +kernel
  reason := by simp [anthropicCalling, anthropicDelta, Value.textAt, Value.path, Value.get_obj]
  ended := by simp [anthropicCalling, Value.textAt, Value.path, Value.get_obj, Value.asStr]
  usage := ⟨obj [("input_tokens", nat 5), ("output_tokens", nat 2)], obj [("output_tokens", nat 2)],
    by simp [anthropicCalling, Value.get_obj], by decide +kernel, by decide +kernel⟩
  stops := by decide +kernel

theorem anthropic_streamed_iff_calling :
    ∃ chunks s', mapEvents anthropicEventToChunks (anthropicStart ::
        ((anthropicText ++ (anthropicCall ["[", "1]"] ++ [])) ++ [anthropicDelta, anthropicStop]))
        (initial "claude") = .ok (chunks, s') ∧
      (SameUpToArguments readArguments (collectChunks chunks)
          (collectChunks (anthropicToChunks writeArguments (anthropicCalling (array [nat 1]))
            "claude")) ↔
        ∀ block ∈ (anthropicCalling (array [nat 1])).itemsAt ["content"], IsTool block →
          block.get "input" ≠ some (.object [])) :=
  anthropic_streamed_iff (anthropicCalling_renders (by unfold PiecesOf; decide +kernel)) (by
    rw [anthropicCalling_content]
    decide +kernel) (by decide +kernel) "claude"

/-- A call without arguments is collected with the arguments `{}`, and streamed with none. -/
theorem anthropic_empty_input_lost :
    Renders readArguments (anthropicCalling (.object [])) anthropicStart
      (anthropicText ++ (anthropicCall [] ++ [])) anthropicDelta anthropicStop ∧
    ∃ chunks s', mapEvents anthropicEventToChunks (anthropicStart ::
        ((anthropicText ++ (anthropicCall [] ++ [])) ++ [anthropicDelta, anthropicStop]))
        (initial "claude") = .ok (chunks, s') ∧
      ¬SameUpToArguments readArguments (collectChunks chunks)
        (collectChunks (anthropicToChunks writeArguments (anthropicCalling (.object []))
          "claude")) :=
  ⟨anthropicCalling_renders (.inl rfl), _, _, rfl, by unfold SameUpToArguments; decide +kernel⟩

end

end Llmleaf
