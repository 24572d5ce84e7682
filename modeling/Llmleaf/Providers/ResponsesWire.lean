import Llmleaf.Providers.Mapper
import Llmleaf.Providers.Usage

/-!
# OpenAI Responses

The mappers of a Responses object and of the events of a streamed one. Both hand the items on as whole
messages where their order is to be kept: the collected one where the output has a compaction item, the
streamed one where the request asked for one.

- `openaiResponsesToChunks`, `openaiResponsesEventToCanonical`: the mappers.
- `ResponsesWire.Renders`: the events that stream an object, its texts and arguments cut anyhow.
- **Result** (`responses_streamed_iff`): streaming changes nothing exactly if both keep the order or
  neither does.
-/

namespace Llmleaf

/-- The state of a streamed response. -/
structure ResponsesSseState where
  fallbackModel : String
  seenStart : Bool
  callIndices : HashMap String ℕ
  nextCallIndex : ℕ
  sawFunctionCall : Bool
  finished : Bool
  preserveOrder : Bool

namespace ResponsesSseState

/-- Nothing streamed yet. -/
def new (fallbackModel : String) : ResponsesSseState := ⟨fallbackModel, false, ∅, 0, false, false, false⟩

def preservingOrder (st : ResponsesSseState) : ResponsesSseState := { st with preserveOrder := true }

end ResponsesSseState

namespace ResponsesWire

/-- An item calls a function. -/
def IsCall (item : Value) : Prop := item.textAt ["type"] = some "function_call"

instance (item : Value) : Decidable (IsCall item) := inferInstanceAs (Decidable (_ = _))

/-- An item is a compaction. -/
def IsCompaction (item : Value) : Prop := item.textAt ["type"] = some "compaction"

instance (item : Value) : Decidable (IsCompaction item) := inferInstanceAs (Decidable (_ = _))

/-- Why a response ended. -/
def responsesFinishReason (response : Value) (sawFunctionCall : Bool) : FinishReason :=
  let items := response.itemsAt ["output"]
  match response.textAt ["status"] with
  | some "completed" =>
    if sawFunctionCall then .toolCalls
    else if items.any (IsCompaction ·) && items.all (IsCompaction ·) then .compaction
    else .stop
  | some "incomplete" =>
    match response.textAt ["incomplete_details", "reason"] with
    | some "max_output_tokens" => .length
    | some "content_filter" => .contentFilter
    | _ => .stop
  | some "failed" => .error
  | _ => .stop

/-- The open reasoning of an item, part by part. -/
def reasoningTexts (item : Value) : List String :=
  ["summary", "content"].flatMap fun key =>
    (item.itemsAt [key]).filterMap fun part => part.textAt ["text"]

/-- The visible text of an item, part by part. -/
def outputTexts (item : Value) : List String :=
  (item.itemsAt ["content"]).filterMap fun part =>
    if part.textAt ["type"] = some "output_text" then part.textAt ["text"] else none

/-- Sign the last part, if it is open reasoning. -/
def signLast (signature : Option String) (parts : List ContentPart) : List ContentPart :=
  match signature, parts.getLast? with
  | some signature, some (.thinking text _) => parts.dropLast ++ [.thinking text (some signature)]
  | _, _ => parts

/-- A completed item as a message. -/
def outputItemAsMessage (item : Value) : Option Message :=
  match item.textAt ["type"] with
  | some "compaction" =>
    some ⟨.assistant, [.compaction none (item.textAt ["id"]) (item.textAt ["content"])
      (item.textAt ["encrypted_content"]) (item.textAt ["signature"])], [], none, none⟩
  | some "message" => some ⟨.assistant, (outputTexts item).map .text, [], none, none⟩
  | some "reasoning" =>
    some ⟨.assistant,
      signLast (item.textAt ["signature"]) ((reasoningTexts item).map (.thinking · none)) ++
        ((item.textAt ["encrypted_content"]).map .redactedThinking).toList, [], none, none⟩
  | some "function_call" =>
    some ⟨.assistant, [], [⟨(item.textAt ["call_id"]).getD "", (item.textAt ["name"]).getD "",
      (item.textAt ["arguments"]).getD ""⟩], none, none⟩
  | _ => none

/-- The message of an item, where the order of the items is kept. -/
def messageChunk (preserveOrder : Bool) (item : Value) : List StreamChunk :=
  if preserveOrder then ((outputItemAsMessage item).map (.outputItem 0)).toList else []

/-- What comes whole with a completed reasoning item. -/
def sealedChunks (item : Value) : List StreamChunk :=
  (((item.textAt ["signature"]).filter (· ≠ "")).map (.thinkingSignature 0)).toList ++
    (((item.textAt ["encrypted_content"]).filter (· ≠ "")).map (.redactedThinking 0)).toList

/-- A completed compaction item. -/
def compactionChunk (item : Value) (outputIndex : Option ℕ) : StreamChunk :=
  .compaction outputIndex 0 ((item.textAt ["content"]).getD "") (item.textAt ["id"])
    (item.textAt ["encrypted_content"]) (item.textAt ["signature"])

/-- What comes with a completed item. -/
def completedChunks (item : Value) (outputIndex : Option ℕ) : List StreamChunk :=
  match item.textAt ["type"] with
  | some "reasoning" => sealedChunks item
  | some "compaction" => [compactionChunk item outputIndex]
  | _ => []

/-- An item of a collected response, at a position of the output. -/
def itemChunks (callIndex : ℕ) (item : Value) (outputIndex : ℕ) : List StreamChunk :=
  match item.textAt ["type"] with
  | some "compaction" => [compactionChunk item (some (outputIndex % 2 ^ 32))]
  | some "reasoning" =>
    (reasoningTexts item).flatMap (fun text => thinkingChunk 0 (some text)) ++ sealedChunks item
  | some "message" => (outputTexts item).flatMap fun text => contentChunk 0 (some text)
  | some "function_call" =>
    [.toolCall 0 ⟨callIndex, item.textAt ["call_id"], item.textAt ["name"],
      item.textAt ["arguments"]⟩]
  | _ => []

/-- The items of a collected response, each with its position. -/
def outputChunks (preserveOrder : Bool) : ℕ → List (Value × ℕ) → List StreamChunk
  | _, [] => []
  | callIndex, (item, outputIndex) :: items =>
    itemChunks callIndex item outputIndex ++ messageChunk preserveOrder item ++
      outputChunks preserveOrder (if IsCall item then callIndex + 1 else callIndex) items

end ResponsesWire

open ResponsesWire

/-- A collected response. -/
def openaiResponsesToChunks (value : Value) (fallbackModel : String) : List StreamChunk :=
  let output := value.itemsAt ["output"]
  .start ((value.textAt ["id"]).getD "") ((value.textAt ["model"]).getD fallbackModel) ::
    (outputChunks (output.any (IsCompaction ·)) 0 output.zipIdx ++
      ((value.get "usage").map (.usage ∘ responsesUsage)).toList ++
      [.finish 0 (responsesFinishReason value (output.any (IsCall ·)))])

/-- An event of a streamed response. -/
def openaiResponsesEventToCanonical (value : Value) (st : ResponsesSseState) :
    List StreamChunk × ResponsesSseState :=
  match value.textAt ["type"] with
  | some "response.created" =>
    if st.seenStart then ([], st)
    else ([.start ((value.textAt ["response", "id"]).getD "")
      ((value.textAt ["response", "model"]).getD st.fallbackModel)], { st with seenStart := true })
  | some "response.output_item.added" =>
    if value.textAt ["item", "type"] = some "function_call" then
      let index := st.nextCallIndex
      ([.toolCall 0 ⟨index, value.textAt ["item", "call_id"], value.textAt ["item", "name"], none⟩],
        { st with
          sawFunctionCall := true
          nextCallIndex := index + 1
          callIndices :=
            match value.textAt ["item", "id"] with
            | some id => st.callIndices.insert id index
            | none => st.callIndices })
    else ([], st)
  | some "response.function_call_arguments.delta" =>
    match value.textAt ["delta"] with
    | some delta =>
      let index := ((value.textAt ["item_id"]).bind st.callIndices.lookup).getD 0
      ([.toolCall 0 ⟨index, none, none, some delta⟩], st)
    | none => ([], st)
  | some "response.output_text.delta" => (((value.textAt ["delta"]).map (.content 0)).toList, st)
  | some "response.reasoning_text.delta" | some "response.reasoning_summary_text.delta" =>
    (((value.textAt ["delta"]).map (.thinking 0)).toList, st)
  | some "response.output_item.done" =>
    let item := (value.get "item").getD .null
    (completedChunks item ((value.natAt ["output_index"]).map (· % 2 ^ 32)) ++
      messageChunk st.preserveOrder item, st)
  | some "response.completed" | some "response.incomplete" | some "response.failed" =>
    match value.get "response" with
    | some response =>
      (((response.get "usage").map (.usage ∘ responsesUsage)).toList ++
        [.finish 0 (responsesFinishReason response st.sawFunctionCall)], { st with finished := true })
    | none => ([], { st with finished := true })
  | _ => ([], st)

namespace ResponsesWire

/-- The event mapper, which never fails. -/
def canonical (value : Value) (st : ResponsesSseState) :
    Except ModelError (List StreamChunk × ResponsesSseState) :=
  .ok (openaiResponsesEventToCanonical value st)

/-- The request asks for a compaction. -/
def asksCompaction (req : ChatRequest) : Bool :=
  ((Value.object req.extra).get "context_management").isSome

/-- The state of a stream that answers a chat request. -/
def chatState (req : ChatRequest) : ResponsesSseState :=
  if asksCompaction req then (ResponsesSseState.new req.model).preservingOrder else .new req.model

/-! ## Renderings -/

/-- The types of events that the mapper reads. -/
def handled : List String :=
  ["response.created", "response.output_item.added", "response.function_call_arguments.delta",
    "response.output_text.delta", "response.reasoning_text.delta",
    "response.reasoning_summary_text.delta", "response.output_item.done", "response.completed",
    "response.incomplete", "response.failed"]

/-- The mapper reads the event. -/
def Handled (event : Value) : Prop := ∃ kind ∈ handled, event.textAt ["type"] = some kind

instance (event : Value) : Decidable (Handled event) :=
  inferInstanceAs (Decidable (∃ kind ∈ handled, _))

/-- The event that adds an item. -/
structure Adds (item event : Value) : Prop where
  type : event.textAt ["type"] = some "response.output_item.added"
  kind : event.textAt ["item", "type"] = item.textAt ["type"]
  id : event.textAt ["item", "id"] = item.textAt ["id"]
  callId : event.textAt ["item", "call_id"] = item.textAt ["call_id"]
  name : event.textAt ["item", "name"] = item.textAt ["name"]

/-- An event of one of some types that brings a piece of an item. -/
structure Brings (types : List String) (item : Value) (piece : String) (event : Value) : Prop where
  type : ∃ type ∈ types, event.textAt ["type"] = some type
  id : event.textAt ["item_id"] = item.textAt ["id"]
  piece : event.textAt ["delta"] = some piece

/-- The event that completes the item at a position. -/
structure Completes (item : Value) (position : ℕ) (event : Value) : Prop where
  type : event.textAt ["type"] = some "response.output_item.done"
  item : event.get "item" = some item
  position : event.natAt ["output_index"] = some position

/-- The types of the events that bring the content of an item. -/
def deltaTypes (item : Value) : List String :=
  match item.textAt ["type"] with
  | some "reasoning" => ["response.reasoning_summary_text.delta", "response.reasoning_text.delta"]
  | some "message" => ["response.output_text.delta"]
  | some "function_call" => ["response.function_call_arguments.delta"]
  | _ => []

/-- What these events bring of an item. -/
def deltaText (item : Value) : String :=
  match item.textAt ["type"] with
  | some "reasoning" => String.join (reasoningTexts item)
  | some "message" => String.join (outputTexts item)
  | some "function_call" => (item.textAt ["arguments"]).getD ""
  | _ => ""

/-- The events that stream an item, its content cut anyhow. -/
inductive RendersItem (item : Value) (position : ℕ) : List Value → Prop
  | intro {added done : Value} {pieces : List String} {deltas : List Value} :
    Adds item added → List.Forall₂ (Brings (deltaTypes item) item) pieces deltas →
    String.join pieces = deltaText item → Completes item position done →
    RendersItem item position (added :: (deltas ++ [done]))

/-- The events that stream items, each with its position. -/
inductive RendersItems : List (Value × ℕ) → List Value → Prop
  | nil : RendersItems [] []
  | cons {item : Value} {position : ℕ} {items : List (Value × ℕ)} {events rest : List Value} :
    RendersItem item position events → RendersItems items rest →
    RendersItems ((item, position) :: items) (events ++ rest)

/-- **The events that stream an object.** Between them there may be any that the mapper does not
read. -/
structure Renders (object created : Value) (items : List Value) (last : Value)
    (events : List Value) : Prop where
  read : events.filter (Handled ·) = created :: (items ++ [last])
  creates : created.textAt ["type"] = some "response.created"
  id : created.textAt ["response", "id"] = object.textAt ["id"]
  model : created.textAt ["response", "model"] = object.textAt ["model"]
  items : RendersItems (object.itemsAt ["output"]).zipIdx items
  identified : ∀ item ∈ object.itemsAt ["output"], IsCall item → (item.textAt ["id"]).isSome
  ends : ∃ type ∈ ["response.completed", "response.incomplete", "response.failed"],
    last.textAt ["type"] = some type
  response : last.get "response" = some object

/-! ## The events of an item -/

section

variable {item event : Value} {position : ℕ}

theorem adds_other (h : Adds item event) (hitem : ¬ IsCall item) (st : ResponsesSseState) :
    canonical event st = .ok ([], st) := by
  have hkind : event.textAt ["item", "type"] ≠ some "function_call" := by
    rw [h.kind]
    exact hitem
  simp [canonical, openaiResponsesEventToCanonical, h.type, hkind]

theorem adds_call (h : Adds item event) (hitem : IsCall item) {id : String}
    (hid : item.textAt ["id"] = some id) (st : ResponsesSseState) :
    canonical event st = .ok ([.toolCall 0 ⟨st.nextCallIndex, item.textAt ["call_id"],
      item.textAt ["name"], none⟩], { st with
        sawFunctionCall := true
        nextCallIndex := st.nextCallIndex + 1
        callIndices := st.callIndices.insert id st.nextCallIndex }) := by
  have hkind : event.textAt ["item", "type"] = some "function_call" := h.kind.trans hitem
  simp [canonical, openaiResponsesEventToCanonical, h.type, hkind, h.id, hid, h.callId, h.name]

theorem completes (h : Completes item position event) (st : ResponsesSseState) :
    canonical event st = .ok (completedChunks item (some (position % 2 ^ 32)) ++
      messageChunk st.preserveOrder item, st) := by
  simp [canonical, openaiResponsesEventToCanonical, h.type, h.item, h.position]

theorem brings_text {piece : String} (h : Brings ["response.output_text.delta"] item piece event)
    (st : ResponsesSseState) : canonical event st = .ok ([.content 0 piece], st) := by
  obtain ⟨type, hmem, htype⟩ := h.type
  cases List.mem_singleton.mp hmem
  simp [canonical, openaiResponsesEventToCanonical, htype, h.piece]

theorem brings_reasoning {piece : String}
    (h : Brings ["response.reasoning_summary_text.delta", "response.reasoning_text.delta"] item piece
      event) (st : ResponsesSseState) : canonical event st = .ok ([.thinking 0 piece], st) := by
  obtain ⟨type, hmem, htype⟩ := h.type
  simp only [List.mem_cons, List.not_mem_nil, or_false] at hmem
  rcases hmem with rfl | rfl <;> simp [canonical, openaiResponsesEventToCanonical, htype, h.piece]

theorem brings_arguments {piece : String}
    (h : Brings ["response.function_call_arguments.delta"] item piece event) {st : ResponsesSseState}
    {id : String} {index : ℕ} (hid : item.textAt ["id"] = some id)
    (hst : st.callIndices.lookup id = some index) :
    canonical event st = .ok ([.toolCall 0 ⟨index, none, none, some piece⟩], st) := by
  obtain ⟨type, hmem, htype⟩ := h.type
  cases List.mem_singleton.mp hmem
  simp [canonical, openaiResponsesEventToCanonical, htype, h.piece, h.id, hid, hst]

/-! ### What an item gathers -/

theorem index_messageChunk (preserveOrder : Bool) (item : Value) :
    ∀ c ∈ messageChunk preserveOrder item, c.index = some 0 := by
  unfold messageChunk
  split <;> simp [StreamChunk.index]

theorem index_sealedChunks (item : Value) : ∀ c ∈ sealedChunks item, c.index = some 0 := by
  intro c hc
  simp only [sealedChunks, List.mem_append, Option.mem_toList, Option.map_eq_some_iff] at hc
  rcases hc with ⟨_, -, rfl⟩ | ⟨_, -, rfl⟩ <;> rfl

theorem index_completedChunks (item : Value) (outputIndex : Option ℕ) :
    ∀ c ∈ completedChunks item outputIndex, c.index = some 0 := by
  unfold completedChunks
  split
  · exact index_sealedChunks item
  · simp [compactionChunk, StreamChunk.index]
  · simp

/-- A chunk of an item, which is no message, and a fragment only of a call. -/
structure Inner (item : Value) (c : StreamChunk) : Prop where
  index : c.index = some 0
  message : ∀ index message, c ≠ .outputItem index message
  call : ¬ IsCall item → c.callIndex = none

theorem inner_itemChunks (callIndex : ℕ) (item : Value) (position : ℕ) :
    ∀ c ∈ itemChunks callIndex item position, Inner item c := by
  unfold itemChunks
  split
  · simp only [compactionChunk, List.mem_singleton]
    rintro c rfl
    exact ⟨rfl, by simp, fun _ => rfl⟩
  · simp only [List.mem_append, List.mem_flatMap, thinkingChunk, sealedChunks, Option.mem_toList,
      Option.map_eq_some_iff]
    rintro c (⟨text, -, hc⟩ | ⟨_, -, rfl⟩ | ⟨_, -, rfl⟩)
    · split at hc
      · cases hc
      · cases List.mem_singleton.mp hc
        exact ⟨rfl, by simp, fun _ => rfl⟩
    · exact ⟨rfl, by simp, fun _ => rfl⟩
    · exact ⟨rfl, by simp, fun _ => rfl⟩
  · simp only [List.mem_flatMap, contentChunk]
    rintro c ⟨text, -, hc⟩
    split at hc
    · cases hc
    · cases List.mem_singleton.mp hc
      exact ⟨rfl, by simp, fun _ => rfl⟩
  · simp only [List.mem_singleton]
    rintro c rfl
    exact ⟨rfl, by simp, fun hcall => absurd ‹_› hcall⟩
  · simp

/-- An item gathers its content and what comes with it when it is complete. -/
def deltaPart (callIndex : ℕ) (item : Value) : Gathered :=
  match item.textAt ["type"] with
  | some "reasoning" => .part (.thinking 0 (deltaText item))
  | some "message" => .part (.content 0 (deltaText item))
  | some "function_call" =>
    .part (.toolCall 0 ⟨callIndex, item.textAt ["call_id"], item.textAt ["name"],
      some (deltaText item)⟩)
  | _ => 0

theorem gathered_itemChunks (callIndex : ℕ) (item : Value) (position : ℕ) :
    gathered 0 (itemChunks callIndex item position) =
      deltaPart callIndex item + gathered 0 (completedChunks item (some (position % 2 ^ 32))) := by
  unfold itemChunks
  split
  · rename_i hkind
    simp [deltaPart, completedChunks, hkind]
  · rename_i hkind
    simp only [deltaPart, completedChunks, deltaText, hkind, gathered_append, gathered_flatMap,
      gathered_thinkingChunk, if_true, Option.getD_some, Gathered.sum_thinking]
  · rename_i hkind
    simp [deltaPart, completedChunks, deltaText, hkind, gathered_flatMap, gathered_contentChunk,
      Gathered.sum_content, gathered_nil]
  · rename_i hkind
    rw [gathered_one rfl]
    cases harguments : item.textAt ["arguments"] <;>
      simp [deltaPart, completedChunks, deltaText, hkind, harguments, gathered_nil,
        Gathered.part_toolCall_none]
  · unfold deltaPart completedChunks
    split <;> simp_all [gathered_nil]

/-- What the events of an item do. -/
structure ItemRun (st : ResponsesSseState) (item : Value) (position : ℕ) (chunks : List StreamChunk)
    (st' : ResponsesSseState) : Prop where
  preserveOrder : st'.preserveOrder = st.preserveOrder
  saw : st'.sawFunctionCall = (st.sawFunctionCall || decide (IsCall item))
  next : st'.nextCallIndex = if IsCall item then st.nextCallIndex + 1 else st.nextCallIndex
  index : ∀ c ∈ chunks, c.index = some 0
  part : gathered 0 chunks = gathered 0 (itemChunks st.nextCallIndex item position) +
    gathered 0 (messageChunk st.preserveOrder item)

/-- **The events of an item add what the item does**, its arguments those of its own call. -/
theorem RendersItem.run {events : List Value} (h : RendersItem item position events)
    (hid : IsCall item → (item.textAt ["id"]).isSome) (st : ResponsesSseState) :
    ∃ chunks st', mapEvents canonical events st = .ok (chunks, st') ∧
      ItemRun st item position chunks st' := by
  have hnil (st : ResponsesSseState) : mapEvents canonical [] st = .ok ([], st) := rfl
  cases h with
  | @intro added done pieces deltas hadd hdeltas htext hdone =>
    by_cases hcall : IsCall item
    · obtain ⟨id, hid⟩ := Option.isSome_iff_exists.mp (hid hcall)
      unfold IsCall at hcall
      simp only [deltaTypes, hcall] at hdeltas
      have hrun := mapEvents_cons (adds_call hadd hcall hid st) (mapEvents_append
        (mapEvents_pieces hdeltas fun piece event hb =>
          brings_arguments hb hid (AList.lookup_insert _))
        (mapEvents_cons (completes hdone _) (hnil _)))
      refine ⟨_, _, hrun, rfl, ?_, ?_, ?_, ?_⟩
      · simp [IsCall, hcall]
      · simp [IsCall, hcall]
      · intro c hc
        simp only [List.append_nil, List.mem_append, List.mem_singleton, List.mem_flatMap] at hc
        rcases hc with rfl | ⟨piece, -, rfl⟩ | hc | hc
        · rfl
        · rfl
        · exact index_completedChunks item _ c hc
        · exact index_messageChunk _ item c hc
      · rw [List.append_nil, gathered_append, gathered_append, gathered_append,
          gathered_itemChunks, gathered_one rfl,
          gathered_pieces (f := fun p => .toolCall 0 ⟨st.nextCallIndex, none, none, some p⟩)
            fun _ => rfl, ← add_assoc, ← add_assoc, Gathered.part_toolCall_none,
          Gathered.sum_toolCall, String.empty_append, htext]
        simp only [deltaPart, hcall]
    · have hdelta : ∃ chunks, mapEvents canonical deltas st = .ok (chunks, st) ∧
          (∀ c ∈ chunks, c.index = some 0) ∧ gathered 0 chunks = deltaPart st.nextCallIndex item := by
        unfold deltaPart
        split
        · rename_i hkind
          simp only [deltaTypes, hkind] at hdeltas
          refine ⟨_, mapEvents_pieces hdeltas fun piece event hb => brings_reasoning hb st,
            index_pieces (f := .thinking 0) (fun _ => rfl) _, ?_⟩
          rw [gathered_pieces (f := .thinking 0) fun _ => rfl, Gathered.sum_thinking, htext]
        · rename_i hkind
          simp only [deltaTypes, hkind] at hdeltas
          refine ⟨_, mapEvents_pieces hdeltas fun piece event hb => brings_text hb st,
            index_pieces (f := .content 0) (fun _ => rfl) _, ?_⟩
          rw [gathered_pieces (f := .content 0) fun _ => rfl, Gathered.sum_content, htext]
        · exact absurd ‹_› hcall
        · have hnone : deltaTypes item = [] := by
            unfold deltaTypes
            split <;> simp_all
          rw [hnone] at hdeltas
          cases hdeltas with
          | nil => exact ⟨[], rfl, by simp, rfl⟩
          | cons hb _ =>
            obtain ⟨type, hmem, -⟩ := hb.type
            cases hmem
      obtain ⟨chunks, hdeltas, hindex, hpart⟩ := hdelta
      have hrun := mapEvents_cons (adds_other hadd hcall st) (mapEvents_append hdeltas
        (mapEvents_cons (completes hdone st) (hnil _)))
      refine ⟨_, st, hrun, rfl, ?_, ?_, ?_, ?_⟩
      · simp [hcall]
      · simp [hcall]
      · intro c hc
        simp only [List.nil_append, List.append_nil, List.mem_append] at hc
        rcases hc with hc | hc | hc
        · exact hindex c hc
        · exact index_completedChunks item _ c hc
        · exact index_messageChunk _ item c hc
      · rw [List.nil_append, List.append_nil, gathered_append, gathered_append, hpart,
          gathered_itemChunks, add_assoc]

/-! ## The two streams -/

/-- What an item adds, with a message where the order is kept. -/
def itemPart (preserveOrder : Bool) (callIndex : ℕ) (p : Value × ℕ) : Gathered :=
  gathered 0 (itemChunks callIndex p.1 p.2) + gathered 0 (messageChunk preserveOrder p.1)

/-- What the items add. -/
def outputPart (preserveOrder : Bool) (items : List Value) : Gathered :=
  numbered (fun p : Value × ℕ => IsCall p.1) (itemPart preserveOrder) 0 items.zipIdx

theorem gathered_outputChunks (preserveOrder : Bool) (callIndex : ℕ) (items : List (Value × ℕ)) :
    gathered 0 (outputChunks preserveOrder callIndex items) =
      numbered (fun p => IsCall p.1) (itemPart preserveOrder) callIndex items := by
  induction items generalizing callIndex with
  | nil => rfl
  | cons p items ih =>
    rw [outputChunks, gathered_append, gathered_append, ih]
    rfl

theorem index_outputChunks (preserveOrder : Bool) (callIndex : ℕ) (items : List (Value × ℕ)) :
    ∀ c ∈ outputChunks preserveOrder callIndex items, c.index = some 0 := by
  induction items generalizing callIndex with
  | nil => simp [outputChunks]
  | cons p items ih =>
    intro c hc
    simp only [outputChunks, List.mem_append] at hc
    rcases hc with (hc | hc) | hc
    · exact (inner_itemChunks _ _ _ c hc).index
    · exact index_messageChunk _ _ c hc
    · exact ih _ c hc

/-- **The events of items add what the items do.** -/
theorem RendersItems.run {items : List (Value × ℕ)} {events : List Value}
    (h : RendersItems items events)
    (hid : ∀ p ∈ items, IsCall p.1 → (p.1.textAt ["id"]).isSome) (st : ResponsesSseState) :
    ∃ chunks st', mapEvents canonical events st = .ok (chunks, st') ∧
      st'.sawFunctionCall = (st.sawFunctionCall || items.any fun p => IsCall p.1) ∧
      (∀ c ∈ chunks, c.index = some 0) ∧
      gathered 0 chunks =
        numbered (fun p => IsCall p.1) (itemPart st.preserveOrder) st.nextCallIndex items := by
  induction h generalizing st with
  | nil => exact ⟨[], st, rfl, by simp, by simp, rfl⟩
  | @cons item position items events rest hitem _ ih =>
    obtain ⟨chunks, t, hrun, ht⟩ := hitem.run (hid _ List.mem_cons_self) st
    obtain ⟨more, st', hmore, hsaw, hindex, hpart⟩ :=
      ih (fun p hp => hid p (List.mem_cons_of_mem _ hp)) t
    refine ⟨chunks ++ more, st', mapEvents_append hrun hmore, ?_, ?_, ?_⟩
    · rw [hsaw, ht.saw, List.any_cons, Bool.or_assoc]
    · exact fun c hc => (List.mem_append.mp hc).elim (ht.index c) (hindex c)
    · rw [gathered_append, hpart, ht.part, ht.next, ht.preserveOrder]
      rfl

/-- The call of an item. -/
def callPart (item : Value) : PartialToolCall :=
  ⟨item.textAt ["call_id"], item.textAt ["name"], (item.textAt ["arguments"]).getD ""⟩

theorem callIndex_messageChunk (preserveOrder : Bool) (item : Value) :
    ∀ c ∈ messageChunk preserveOrder item, c.callIndex = none := by
  unfold messageChunk
  split <;> simp [StreamChunk.callIndex]

theorem calls_itemPart (preserveOrder : Bool) (callIndex : ℕ) (p : Value × ℕ) (k : ℕ) :
    (itemPart preserveOrder callIndex p).calls k =
      if IsCall p.1 ∧ callIndex = k then some (callPart p.1) else none := by
  rw [itemPart, Gathered.calls_add, calls_eq_none (callIndex_messageChunk preserveOrder p.1)]
  by_cases hcall : IsCall p.1
  · have hitem : itemChunks callIndex p.1 p.2 = [.toolCall 0 ⟨callIndex, p.1.textAt ["call_id"],
        p.1.textAt ["name"], p.1.textAt ["arguments"]⟩] := by
      unfold IsCall at hcall
      simp [itemChunks, hcall]
    rw [hitem, gathered_one rfl]
    simp [Gathered.part, hcall, callPart, PartialToolCall.ofDelta]
  · rw [calls_eq_none fun c hc => (inner_itemChunks callIndex p.1 p.2 c hc).call hcall]
    simp [hcall]

theorem gathered_messageChunk (preserveOrder : Bool) (item : Value) :
    gathered 0 (messageChunk preserveOrder item) = { (0 : Gathered) with
      output := if preserveOrder then (outputItemAsMessage item).toList else [] } := by
  unfold messageChunk
  cases preserveOrder with
  | false => rfl
  | true =>
    cases outputItemAsMessage item with
    | none => rfl
    | some message => exact gathered_one rfl

theorem besides_itemPart (a b : Bool) (callIndex : ℕ) (p : Value × ℕ) :
    (itemPart a callIndex p).besidesOutput = (itemPart b callIndex p).besidesOutput := by
  rw [itemPart, itemPart, Gathered.besidesOutput_add, Gathered.besidesOutput_add,
    gathered_messageChunk, gathered_messageChunk]
  rfl

theorem output_itemPart (preserveOrder : Bool) (callIndex : ℕ) (p : Value × ℕ) :
    (itemPart preserveOrder callIndex p).output =
      if preserveOrder then (outputItemAsMessage p.1).toList else [] := by
  rw [itemPart, Gathered.output_add,
    output_eq_nil fun c hc => (inner_itemChunks callIndex p.1 p.2 c hc).message,
    gathered_messageChunk, List.nil_append]

/-- The messages of the items, where the order is kept. -/
theorem output_numbered (preserveOrder : Bool) (callIndex : ℕ) (items : List (Value × ℕ)) :
    (numbered (fun p => IsCall p.1) (itemPart preserveOrder) callIndex items).output =
      if preserveOrder then items.filterMap fun p => outputItemAsMessage p.1 else [] := by
  induction items generalizing callIndex with
  | nil => simp [numbered]
  | cons p items ih =>
    rw [numbered, Gathered.output_add, output_itemPart, ih]
    cases preserveOrder with
    | false => rfl
    | true =>
      rw [List.filterMap_cons]
      cases outputItemAsMessage p.1 <;> rfl

end

/-! ## Whole streams -/

/-- The end of a stream. -/
def closing (object : Value) : List StreamChunk :=
  ((object.get "usage").map (.usage ∘ responsesUsage)).toList ++
    [.finish 0 (responsesFinishReason object ((object.itemsAt ["output"]).any (IsCall ·)))]

/-- The stream of an object with these chunks of the items. -/
def answer (object : Value) (fallback : String) (body : List StreamChunk) : List StreamChunk :=
  .start ((object.textAt ["id"]).getD "") ((object.textAt ["model"]).getD fallback) ::
    (body ++ closing object)

theorem collected_answer (object : Value) (fallback : String) :
    openaiResponsesToChunks object fallback = answer object fallback
      (outputChunks ((object.itemsAt ["output"]).any (IsCompaction ·)) 0
        (object.itemsAt ["output"]).zipIdx) := by
  simp [openaiResponsesToChunks, answer, closing]

/-- An event that the mapper does not read maps to nothing. -/
theorem canonical_unread (e : Value) (st : ResponsesSseState) (he : ¬ Handled e) :
    canonical e st = .ok ([], st) := by
  simp only [Handled, handled, List.mem_cons, List.not_mem_nil, or_false, exists_eq_or_imp,
    exists_eq_left, not_or] at he
  simp only [canonical, openaiResponsesEventToCanonical]
  split <;> simp_all

theorem canonical_created {e : Value} (he : e.textAt ["type"] = some "response.created")
    {st : ResponsesSseState} (hseen : st.seenStart = false) :
    canonical e st = .ok ([.start ((e.textAt ["response", "id"]).getD "")
      ((e.textAt ["response", "model"]).getD st.fallbackModel)], { st with seenStart := true }) := by
  simp [canonical, openaiResponsesEventToCanonical, he, hseen]

/-- The event that ends a stream reports its usage and finishes it. -/
theorem canonical_last {e response : Value} {type : String}
    (hmem : type ∈ ["response.completed", "response.incomplete", "response.failed"])
    (htype : e.textAt ["type"] = some type) (hresponse : e.get "response" = some response)
    (st : ResponsesSseState) : canonical e st =
      .ok (((response.get "usage").map (.usage ∘ responsesUsage)).toList ++
        [.finish 0 (responsesFinishReason response st.sawFunctionCall)],
        { st with finished := true }) := by
  simp only [List.mem_cons, List.not_mem_nil, or_false] at hmem
  rcases hmem with rfl | rfl | rfl <;>
    simp [canonical, openaiResponsesEventToCanonical, htype, hresponse]

/-- **The stream of a rendering.** -/
theorem Renders.output {object created last : Value} {items events : List Value}
    (h : Renders object created items last events) (req : ChatRequest) :
    ∃ body st', mapEvents canonical events (chatState req) =
        .ok (answer object req.model body, st') ∧ (∀ c ∈ body, c.index = some 0) ∧
      gathered 0 body = outputPart (asksCompaction req) (object.itemsAt ["output"]) := by
  have hnew : (chatState req).seenStart = false ∧ (chatState req).nextCallIndex = 0 ∧
      (chatState req).sawFunctionCall = false ∧ (chatState req).fallbackModel = req.model ∧
      (chatState req).preserveOrder = asksCompaction req := by
    unfold chatState
    cases asksCompaction req <;> exact ⟨rfl, rfl, rfl, rfl, rfl⟩
  obtain ⟨hseen, hnext, hsaw, hmodel, hpreserve⟩ := hnew
  have hcreated : canonical created (chatState req) =
      .ok ([.start ((object.textAt ["id"]).getD "") ((object.textAt ["model"]).getD req.model)],
        { chatState req with seenStart := true }) := by
    rw [← hmodel, ← h.id, ← h.model]
    exact canonical_created h.creates hseen
  obtain ⟨body, t, hrun, hcalls, hindex, hpart⟩ := h.items.run (fun p hp =>
    h.identified p.1 (List.fst_mem_of_mem_zipIdx hp)) { chatState req with seenStart := true }
  have hany : t.sawFunctionCall = (object.itemsAt ["output"]).any (IsCall ·) := by
    conv_rhs => rw [← List.zipIdx_map_fst 0 (object.itemsAt ["output"]), List.any_map]
    rw [hcalls, hsaw]
    rfl
  have hlast : canonical last t = .ok (closing object, { t with finished := true }) := by
    obtain ⟨type, hmem, htype⟩ := h.ends
    rw [canonical_last hmem htype h.response, closing, hany]
  have hnil (st : ResponsesSseState) : mapEvents canonical [] st = .ok ([], st) := rfl
  refine ⟨body, { t with finished := true }, ?_, hindex, ?_⟩
  · rw [mapEvents_filter canonical_unread, h.read, mapEvents_cons hcreated
      (mapEvents_append hrun (mapEvents_cons hlast (hnil _)))]
    simp [answer]
  · rw [hpart, outputPart, ← hpreserve, hnext]

section

variable {object : Value} {fallback : String} {body : List StreamChunk}

theorem single_answer (h : ∀ c ∈ body, c.index = some 0) :
    SingleChoice (answer object fallback body) := by
  constructor
  · intro c hc i hi
    simp only [answer, closing, List.mem_cons, List.mem_append, Option.mem_toList,
      Option.map_eq_some_iff, List.not_mem_nil, or_false] at hc
    rcases hc with rfl | hc | ⟨report, -, rfl⟩ | rfl
    · cases hi
    · rw [h c hc] at hi
      exact (Option.some.inj hi).symm
    · cases hi
    · exact (Option.some.inj hi).symm
  · exact ⟨.finish 0 _, List.mem_cons_of_mem _ (List.mem_append_right _
      (List.mem_append_right _ List.mem_cons_self)), rfl⟩

theorem lastStart_answer (h : ∀ c ∈ body, c.index = some 0) :
    lastStart (answer object fallback body) =
      some ((object.textAt ["id"]).getD "", (object.textAt ["model"]).getD fallback) := by
  rw [lastStart, answer, List.filterMap_cons, List.filterMap_append,
    List.filterMap_eq_nil_iff.mpr fun c hc => opened_of_index (h c hc)]
  unfold closing
  cases object.get "usage" <;> rfl

theorem lastUsage_answer (h : ∀ c ∈ body, c.index = some 0) :
    lastUsage (answer object fallback body) = (object.get "usage").map responsesUsage := by
  rw [lastUsage, answer, List.filterMap_cons, List.filterMap_append,
    List.filterMap_eq_nil_iff.mpr fun c hc => reported_of_index (h c hc)]
  unfold closing
  cases object.get "usage" <;> rfl

theorem gathered_answer : gathered 0 (answer object fallback body) =
    gathered 0 body + gathered 0 (closing object) := by
  rw [answer, gathered_cons, gathered_other (by simp [StreamChunk.index]), zero_add,
    gathered_append]

/-- The end of a stream brings no call and no message. -/
theorem closing_part : (gathered 0 (closing object)).output = [] ∧
    ∀ k, (gathered 0 (closing object)).calls k = none := by
  constructor
  · refine output_eq_nil fun c hc => ?_
    simp only [closing, List.mem_append, Option.mem_toList, Option.map_eq_some_iff,
      List.mem_singleton] at hc
    rcases hc with ⟨report, -, rfl⟩ | rfl <;> nofun
  · refine calls_eq_none fun c hc => ?_
    simp only [closing, List.mem_append, Option.mem_toList, Option.map_eq_some_iff,
      List.mem_singleton] at hc
    rcases hc with ⟨report, -, rfl⟩ | rfl <;> rfl

end

/-- The calls of the items, in order. -/
theorem calls_outputPart (preserveOrder : Bool) (items : List Value) (k : ℕ) :
    (outputPart preserveOrder items).calls k = ((items.filter (IsCall ·)).map callPart)[k]? := by
  rw [outputPart, calls_numbered _ _ (calls_itemPart preserveOrder), if_pos (Nat.zero_le k),
    Nat.sub_zero]
  conv_rhs => rw [← List.zipIdx_map_fst 0 items, List.filter_map, List.map_map]
  rw [List.getElem?_map]
  rfl

/-- The messages of the items, where the order is kept. -/
theorem output_outputPart (preserveOrder : Bool) (items : List Value) :
    (outputPart preserveOrder items).output =
      if preserveOrder then items.filterMap outputItemAsMessage else [] := by
  rw [outputPart, output_numbered]
  conv_rhs => rw [← List.zipIdx_map_fst 0 items, List.filterMap_map]
  rfl

/-- **Streaming an object changes nothing exactly if the order of its items is kept by both mappers or
by neither**, or there is no item to keep. Every call has its own arguments in any case. -/
theorem responses_streamed_iff {object created last : Value} {items events : List Value}
    (h : Renders object created items last events) (req : ChatRequest) :
    ∃ chunks st', mapEvents canonical events (chatState req) = .ok (chunks, st') ∧
      (collectChunks chunks = collectChunks (openaiResponsesToChunks object req.model) ↔
        asksCompaction req = (object.itemsAt ["output"]).any (IsCompaction ·) ∨
          ∀ item ∈ object.itemsAt ["output"], outputItemAsMessage item = none) ∧
      ∀ choice ∈ (collectChunks chunks).choices, choice.toolCalls =
        ((object.itemsAt ["output"]).filter (IsCall ·)).map fun item => (callPart item).intoCall := by
  obtain ⟨body, st', hrun, hindex, hpart⟩ := h.output req
  have hsingle : SingleChoice (answer object req.model body) := single_answer hindex
  refine ⟨_, st', hrun, ?_, ?_⟩
  · have hcollected := index_outputChunks ((object.itemsAt ["output"]).any (IsCompaction ·)) 0
      (object.itemsAt ["output"]).zipIdx
    have hframe := hsingle.sameFrame (single_answer hcollected)
      ((lastStart_answer hindex).trans (lastStart_answer hcollected).symm)
    have hpart' : gathered 0 (outputChunks ((object.itemsAt ["output"]).any (IsCompaction ·)) 0
        (object.itemsAt ["output"]).zipIdx) =
        outputPart ((object.itemsAt ["output"]).any (IsCompaction ·)) (object.itemsAt ["output"]) :=
      gathered_outputChunks _ 0 _
    have hbesides : (gathered 0 (answer object req.model body)).besidesOutput =
        (gathered 0 (answer object req.model (outputChunks
          ((object.itemsAt ["output"]).any (IsCompaction ·)) 0
          (object.itemsAt ["output"]).zipIdx))).besidesOutput := by
      rw [gathered_answer, gathered_answer, hpart, hpart', Gathered.besidesOutput_add,
        Gathered.besidesOutput_add, outputPart, outputPart,
        numbered_congr _ _ Gathered.besidesOutput_add (besides_itemPart (asksCompaction req) _)]
    rw [collected_answer, hframe.collectChunks_iff, lastUsage_answer hindex,
      lastUsage_answer hcollected, and_iff_right rfl, hsingle.forall_iff, choice_eq_iff hbesides,
      gathered_answer, gathered_answer, Gathered.output_add, Gathered.output_add, closing_part.1,
      hpart, hpart', output_outputPart, output_outputPart, List.append_nil, List.append_nil,
      ← List.filterMap_eq_nil_iff]
    generalize (object.itemsAt ["output"]).filterMap outputItemAsMessage = messages
    cases asksCompaction req <;> cases (object.itemsAt ["output"]).any (IsCompaction ·) <;>
      simp [@eq_comm _ [] messages]
  · intro choice hc
    obtain ⟨i, hi, rfl⟩ := List.mem_map.mp hc
    have hi0 : i = 0 := by
      rw [Collected.mem_indices_foldl] at hi
      simpa [Collected.mem_indices, Collected.empty, hsingle.ofChoice_ne_nil] using hi
    rw [hi0, choice_of_calls _ 0 fun k => ?_, Gathered.choice, List.map_map]
    · rfl
    · rw [gathered_answer, Gathered.calls_add, closing_part.2, hpart, calls_outputPart]
      simp

end ResponsesWire

section

open ResponsesWire Value

/-- A request, with a field of its own for compaction or without one. -/
def responsesRequest (asks : Bool) : ChatRequest where
  model := "gpt-5"
  messages := [.ofText .user "hello"]
  maxTokens := none
  temperature := none
  topP := none
  stop := []
  stream := true
  tools := []
  toolChoice := none
  thinking := none
  extra := if asks then [("context_management", array [])] else []

/-- The text of an answer. -/
def responsesText : Value := obj [("type", string "message"), ("id", string "msg"),
  ("content", array [obj [("type", string "output_text"), ("text", string "hi")]])]

/-- The call of an answer. -/
def responsesCall : Value := obj [("type", string "function_call"), ("id", string "fc"),
  ("call_id", string "t"), ("name", string "f"), ("arguments", string "[1]")]

/-- A response of a text and a call. -/
def responsesObject : Value := obj [("id", string "r"), ("model", string "gpt-5"),
  ("status", string "completed"), ("output", array [responsesText, responsesCall]),
  ("usage", obj [("input_tokens", nat 5), ("output_tokens", nat 2)])]

/-- An event with these fields. -/
def responsesEvent (type : String) (fields : List (String × Value)) : Value :=
  obj (("type", string type) :: fields)

/-- The first event of its stream. -/
def responsesCreated : Value := responsesEvent "response.created"
  [("response", obj [("id", string "r"), ("model", string "gpt-5")])]

/-- The events of its items. -/
def responsesItems : List Value :=
  [responsesEvent "response.output_item.added" [("output_index", nat 0),
    ("item", obj [("type", string "message"), ("id", string "msg")])],
    responsesEvent "response.output_text.delta" [("item_id", string "msg"), ("delta", string "h")],
    responsesEvent "response.output_text.delta" [("item_id", string "msg"), ("delta", string "i")],
    responsesEvent "response.output_item.done" [("output_index", nat 0), ("item", responsesText)],
    responsesEvent "response.output_item.added" [("output_index", nat 1),
      ("item", obj [("type", string "function_call"), ("id", string "fc"), ("call_id", string "t"),
        ("name", string "f"), ("arguments", string "")])],
    responsesEvent "response.function_call_arguments.delta" [("item_id", string "fc"),
      ("delta", string "[1]")],
    responsesEvent "response.output_item.done" [("output_index", nat 1), ("item", responsesCall)]]

/-- The last event of its stream. -/
def responsesCompleted : Value :=
  responsesEvent "response.completed" [("response", responsesObject)]

/-- All events of its stream. -/
def responsesEvents : List Value :=
  [responsesCreated, responsesEvent "response.in_progress" []] ++ responsesItems ++
    [responsesCompleted]

example : responsesEvents.getLast?.map (·.textAt ["type"]) = some (some "response.completed") := by
  decide +kernel

theorem responsesObject_renders :
    Renders responsesObject responsesCreated responsesItems responsesCompleted responsesEvents where
  read := by decide +kernel
  creates := by decide +kernel
  id := by decide +kernel
  model := by decide +kernel
  items := by
    have houtput : (responsesObject.itemsAt ["output"]).zipIdx =
        [(responsesText, 0), (responsesCall, 1)] := by decide +kernel
    rw [houtput]
    refine @RendersItems.cons _ _ _ (responsesItems.take 4) (responsesItems.drop 4)
      (@RendersItem.intro _ _ _ _ ["h", "i"] _ ?_ (.cons ?_ (.cons ?_ .nil)) (by decide +kernel) ?_)
      (@RendersItems.cons _ _ _ _ [] (@RendersItem.intro _ _ _ _ ["[1]"] _ ?_ (.cons ?_ .nil)
        (by decide +kernel) ?_) .nil)
    all_goals constructor <;> decide +kernel
  identified := by decide +kernel
  ends := by decide +kernel
  response := by decide +kernel

theorem responses_streamed_iff_object :
    ∃ chunks st', mapEvents canonical responsesEvents (chatState (responsesRequest false)) =
        .ok (chunks, st') ∧
      (collectChunks chunks =
          collectChunks (openaiResponsesToChunks responsesObject (responsesRequest false).model) ↔
        asksCompaction (responsesRequest false) =
            (responsesObject.itemsAt ["output"]).any (IsCompaction ·) ∨
          ∀ item ∈ responsesObject.itemsAt ["output"], outputItemAsMessage item = none) ∧
      ∀ choice ∈ (collectChunks chunks).choices, choice.toolCalls =
        ((responsesObject.itemsAt ["output"]).filter (IsCall ·)).map fun item =>
          (callPart item).intoCall :=
  responses_streamed_iff responsesObject_renders (responsesRequest false)

/-- Where the request asks for a compaction and the response has none, the items are collected as
messages only when they are streamed. -/
theorem responses_messages_lost :
    Renders responsesObject responsesCreated responsesItems responsesCompleted responsesEvents ∧
    ∃ chunks st', mapEvents canonical responsesEvents (chatState (responsesRequest true)) =
        .ok (chunks, st') ∧
      collectChunks chunks ≠
        collectChunks (openaiResponsesToChunks responsesObject (responsesRequest true).model) ∧
      ((collectChunks chunks).choices.map fun choice => choice.output.length) = [2] ∧
      ((collectChunks (openaiResponsesToChunks responsesObject
        (responsesRequest true).model)).choices.map fun choice => choice.output.length) = [0] :=
  ⟨responsesObject_renders, _, _, rfl, by decide +kernel, by decide +kernel, by decide +kernel⟩

end

end Llmleaf
