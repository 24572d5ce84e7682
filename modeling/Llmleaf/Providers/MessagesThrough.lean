import Llmleaf.Compat.Anthropic.Request
import Llmleaf.Lib.Neighbours
import Llmleaf.Providers.AnthropicRequest
import Llmleaf.Providers.ChatThrough

/-!
# A Messages request on its way through

A Messages request is read into the canonical model and written again for a Messages upstream.
Results of tools leave the turn that carried them, calls leave the content, the system text becomes
a message, and images of both kinds become addresses. What the canonical model has no place for is
lost, unless it is a whole field of the body.

- `turns`: the conversation of a body, as turns of blocks.
- `SameBody a b`: the bodies mean the same.
- `Kept`: the body says nothing that is lost or moved.
- **Result** (`messages_through_iff`): a body that is accepted is written with the same meaning
  exactly when it is kept.
-/

namespace Llmleaf.MessagesThrough

open Anthropic Value
open ChatThrough (NumberCarried StopCarried stopItems)

/-! ## What a body means -/

/-- Where an image is: at an address, or in the request. -/
inductive ImageSource where
  | url (url : Option String)
  | data (mediaType data : Option String)
  | other
  deriving DecidableEq

/-- A part of the result of a tool. -/
inductive ResultPart where
  | text (text : Option String)
  | other (part : Value)
  deriving DecidableEq

/-- A block of a turn, with what the interface defines for its type. -/
inductive Block where
  | text (text : Option String)
  | image (source : ImageSource)
  | thinking (thinking signature : Option String)
  | redactedThinking (data : Option String)
  | compaction (content signature : Option String)
  | toolUse (id name : Option String) (input : Option Value)
  | toolResult (id : Option String) (content : List ResultPart) (isError : Bool)
  | other (block : Value)
  deriving DecidableEq

def imageSource (block : Value) : ImageSource :=
  match block.textAt ["source", "type"] with
  | some "url" => .url (block.textAt ["source", "url"])
  | some "base64" =>
    .data (block.textAt ["source", "media_type"]) (block.textAt ["source", "data"])
  | _ => .other

def resultPart (part : Value) : ResultPart :=
  match part.textAt ["type"] with
  | some "text" => .text (part.textAt ["text"])
  | _ => .other part

/-- The parts of a result; a text is one part. -/
def resultParts : Option Value → List ResultPart
  | none | some .null => []
  | some (.string s) => [.text (some s)]
  | some (.array parts) => parts.map resultPart
  | some v => [.other v]

def block (b : Value) : Block :=
  match b.textAt ["type"] with
  | some "text" => .text (b.textAt ["text"])
  | some "image" => .image (imageSource b)
  | some "thinking" => .thinking (b.textAt ["thinking"]) (b.textAt ["signature"])
  | some "redacted_thinking" => .redactedThinking (b.textAt ["data"])
  | some "compaction" => .compaction (b.textAt ["content"]) (b.textAt ["signature"])
  | some "tool_use" => .toolUse (b.textAt ["id"]) (b.textAt ["name"]) (b.get "input")
  | some "tool_result" => .toolResult (b.textAt ["tool_use_id"]) (resultParts (b.get "content"))
      (((b.get "is_error").bind asBool).getD false)
  | _ => .other b

/-- The blocks of a content; a text is one block. -/
def blocks : Option Value → List Block
  | none | some .null => []
  | some (.string s) => [.text (some s)]
  | some (.array items) => items.map block
  | some v => [.other v]

/-- A message: its role and its blocks. -/
def turn (m : Value) : Option String × List Block := (m.textAt ["role"], blocks (m.get "content"))

/-- **The conversation**: turns of blocks, where neighbours of one role are one turn. -/
def turns (body : Value) : List (Option String × List Block) :=
  Neighbours.merge ((body.itemsAt ["messages"]).map turn)

/-- The texts of the system field. -/
def systemTexts : Option Value → List String
  | some (.string s) => [s]
  | some (.array parts) => parts.filterMap (·.textAt ["text"])
  | _ => []

/-- The system text; its pieces stand a blank line apart. -/
def systemSays (o : Option Value) : String :=
  "\n\n".intercalate ((systemTexts o).dropWhile (· = ""))

/-- **Bodies that mean the same.** -/
structure SameBody (a b : Value) : Prop where
  model : a.get "model" = b.get "model"
  turns : turns a = turns b
  system : systemSays (a.get "system") = systemSays (b.get "system")
  tools : SameField (a.get "tools") (b.get "tools")
  toolChoice : SameField (a.get "tool_choice") (b.get "tool_choice")
  stop : stopItems (a.get "stop_sequences") = stopItems (b.get "stop_sequences")
  temperature : SameField (a.get "temperature") (b.get "temperature")
  topP : SameField (a.get "top_p") (b.get "top_p")
  maxTokens : SameField (a.get "max_tokens") (b.get "max_tokens")
  unmodeled : ∀ key ∉ modeled, a.get key = b.get key

/-! ## What is kept -/

/-- A block that is kept: a text, an image at an address, reasoning, a compaction, a call with an
input that is read back from its text, or a result that is one text and no error. -/
def BlockKept (toStr : Value → String) (fromStr : String → Option Value) (b : Value) : Prop :=
  match b.textAt ["type"] with
  | some "text" => (b.textAt ["text"]).isSome
  | some "image" => b.textAt ["source", "type"] = some "url"
  | some "thinking" => (b.textAt ["thinking"]).isSome
  | some "redacted_thinking" => (b.textAt ["data"]).isSome
  | some "tool_use" => (b.textAt ["id"]).isSome ∧ (b.textAt ["name"]).isSome ∧
      ∃ input, b.get "input" = some input ∧ (fromStr (toStr input)).getD (.object []) = input
  | some "tool_result" => (b.textAt ["tool_use_id"]).isSome ∧
      (∃ text, resultParts (b.get "content") = [.text (some text)]) ∧
      (b.get "is_error").bind asBool ≠ some true
  | _ => True

def isResult : Block → Bool
  | .toolResult .. => true
  | _ => false

def isUse : Block → Bool
  | .toolUse .. => true
  | _ => false

/-- The order of a message that is kept: results of tools come first, calls come last. -/
def InPlace (a b : Value) : Prop :=
  (isResult (block b) = true → isResult (block a) = true) ∧
    (isUse (block a) = true → isUse (block b) = true)

/-- A message that is kept. -/
def MessageKept (toStr : Value → String) (fromStr : String → Option Value) (m : Value) : Prop :=
  ∀ items, m.get "content" = some (.array items) →
    (∀ b ∈ items, BlockKept toStr fromStr b) ∧ items.Pairwise InPlace

/-- A tool that is kept: a name, a description and a schema. -/
def ToolKept (t : Value) : Prop :=
  t.Only ["name", "description", "input_schema"] ∧ OptText (t.get "description")

/-- A tool choice that is kept: a mode, or a tool by its name. -/
def ChoiceKept (o : Option Value) : Prop :=
  said o = none ∨ ∃ v, o = some v ∧
    ((v.Only ["type"] ∧ ∃ mode ∈ ["auto", "any", "none"], v.textAt ["type"] = some mode) ∨
      (v.Only ["type", "name"] ∧ v.textAt ["type"] = some "tool" ∧ (v.textAt ["name"]).isSome))

/-- **A body that is kept.** -/
structure Kept (toStr : Value → String) (fromStr : String → Option Value) (v : Value) : Prop where
  messages : ∀ m ∈ v.itemsAt ["messages"], MessageKept toStr fromStr m
  tools : ArrayOf ToolKept (v.get "tools")
  toolChoice : ChoiceKept (v.get "tool_choice")
  stop : StopCarried (v.get "stop_sequences")
  temperature : NumberCarried (v.get "temperature")
  topP : NumberCarried (v.get "top_p")
  maxTokens : ∃ n < 2 ^ 32, v.get "max_tokens" = some (nat n)

section

variable {debug : String → String} {toStr : Value → String} {fromStr : String → Option Value}

/-! ## Blocks -/

/-- The block of the result of a tool. -/
def resultBlock (msg : Message) : Value :=
  obj [("type", string "tool_result"), ("tool_use_id", string (msg.toolCallId.getD "")),
    ("content", string (Responses.textContent msg))]

/-- The block that is written for what a user's block was read as. -/
def userWritten : ContentPart ⊕ Message → Value
  | .inl part => contentBlock part
  | .inr msg => resultBlock msg

/-- The block that is written for what an assistant's block was read as. -/
def assistantWritten (fromStr : String → Option Value) : ContentPart ⊕ ToolCall → Value
  | .inl part => contentBlock part
  | .inr call => toolUse fromStr call

theorem block_resultBlock (msg : Message) : block (resultBlock msg) =
    .toolResult (some (msg.toolCallId.getD "")) [.text (some (Responses.textContent msg))]
      false := by
  simp [block, resultBlock, obj, textAt_object, Map.get_insert, asStr, resultParts]

theorem block_toolUse (call : ToolCall) : block (toolUse fromStr call) =
    .toolUse (some call.id) (some call.name)
      (some ((fromStr call.arguments).getD (.object []))) := by
  simp [block, toolUse, obj, textAt_object, Map.get_insert, asStr]

/-- A part is written as a block of its own type. -/
theorem block_contentBlock (part : ContentPart) : block (contentBlock part) =
    match part with
    | .text text => .text (some text)
    | .imageUrl url _ => .image (.url (some url))
    | .inputAudio _ _ => .other .null
    | .thinking thinking signature => .thinking (some thinking) signature
    | .redactedThinking data => .redactedThinking (some data)
    | .compaction _ _ content _ signature => .compaction content signature := by
  cases part with
  | text text => simp [block, contentBlock, obj, textAt_object, Map.get_insert, asStr]
  | imageUrl url detail =>
    simp [block, contentBlock, imageSource, ChatThrough.textAt_two, obj, textAt_object,
      Map.get_insert, asStr]
  | inputAudio data format => rfl
  | thinking thinking signature =>
    simp [block, contentBlock, build, textAt_object, asStr]
  | redactedThinking data =>
    simp [block, contentBlock, obj, textAt_object, Map.get_insert, asStr]
  | compaction outputIndex id content encrypted signature =>
    cases content <;> simp [block, contentBlock, build, textAt_object, asStr, ofOption]

theorem isResult_userWritten (x : ContentPart ⊕ Message) :
    isResult (block (userWritten x)) = x.isRight := by
  cases x with
  | inl part =>
    rw [userWritten, block_contentBlock]
    cases part <;> rfl
  | inr msg =>
    rw [userWritten, block_resultBlock]
    rfl

theorem isUse_assistantWritten (x : ContentPart ⊕ ToolCall) :
    isUse (block (assistantWritten fromStr x)) = x.isRight := by
  cases x with
  | inl part =>
    rw [assistantWritten, block_contentBlock]
    cases part <;> rfl
  | inr call =>
    rw [assistantWritten, block_toolUse]
    rfl

/-- A text that must be there is kept, and nothing else. -/
theorem given_iff (o : Option String) : o = some (o.getD "") ↔ o.isSome = true := by
  cases o <;> simp

/-- A compaction is written as it was read. -/
theorem compaction_kept {b : Value} {part : ContentPart} (h : parseCompaction b = .ok part) :
    block (contentBlock part) = .compaction (b.textAt ["content"]) (b.textAt ["signature"]) := by
  unfold parseCompaction at h
  split at h
  · rename_i content hcontent
    cases h
    rw [block_contentBlock, hcontent]
  · cases h

/-- An image is written as it was read exactly if it is at an address. -/
theorem image_iff {b : Value} {part : ContentPart} (h : imagePart debug b = .ok part) :
    Block.image (imageSource b) = block (contentBlock part) ↔
      b.textAt ["source", "type"] = some "url" := by
  unfold imagePart at h
  split at h
  · cases h
  · rename_i source hsource
    have hin (key : String) : b.textAt ["source", key] = source.textAt [key] := by
      rw [ChatThrough.textAt_two, hsource, Option.bind_some]
    split at h
    · rename_i htype
      split at h
      · rename_i url hurl
        cases h
        refine iff_of_true ?_ ((hin "type").trans htype)
        rw [block_contentBlock, imageSource, hin, htype, hin, hurl]
        rfl
      · cases h
    · rename_i htype
      split at h
      · cases h
        refine iff_of_false ?_ (by rw [hin, htype]; decide)
        rw [block_contentBlock, imageSource, hin, htype]
        simp
      · cases h
    · cases h

theorem resultPart_text {part : Value} {text : Option String} (h : resultPart part = .text text) :
    part.textAt ["text"] = text := by
  unfold resultPart at h
  split at h
  · cases h
    rfl
  · cases h

/-- The text of a result is all that it is exactly if there is one text. -/
theorem result_iff {o : Option Value} {toolCallId : Option String} :
    resultParts o = [.text (some (Responses.textContent
        ⟨.tool, [.text ((o.map blockText).getD "")], [], toolCallId, none⟩))] ↔
      ∃ text, resultParts o = [.text (some text)] := by
  refine ⟨fun h => ⟨_, h⟩, ?_⟩
  rintro ⟨text, h⟩
  have hjoin : ∀ s : String, String.join [s] = s := fun s => by simp [String.join]
  have hread : (o.map blockText).getD "" = text := by
    rcases o with _ | v
    · cases h
    cases v with
    | string s =>
      cases h
      rfl
    | array parts =>
      obtain ⟨part, rfl, hpart⟩ := List.map_eq_singleton_iff.mp h
      show String.join ([part].filterMap (·.textAt ["text"])) = text
      simp only [List.filterMap_cons, List.filterMap_nil, resultPart_text hpart, hjoin]
    | _ => cases h
  rw [h, hread]
  show _ = [ResultPart.text (some (String.join [text]))]
  rw [hjoin]

theorem flag_iff (o : Option Bool) : o.getD false = false ↔ o ≠ some true := by
  rcases o with _ | _ | _ <;> decide

variable (toStr fromStr) in
/-- **A block of a user's message.** -/
theorem userBlock_iff {b : Value} {x : ContentPart ⊕ Message} (h : readUserBlock debug b = .ok x) :
    isResult (block b) = x.isRight ∧ isUse (block b) = false ∧
      (block b = block (userWritten x) ↔ BlockKept toStr fromStr b) := by
  unfold readUserBlock at h
  split at h
  · rename_i fields
    generalize object fields = b at h ⊢
    unfold BlockKept
    rw [show block b = _ from rfl, block]
    split at h
    · rename_i htype
      cases h
      rw [htype]
      refine ⟨rfl, rfl, ?_⟩
      show Block.text _ = _ ↔ _
      rw [userWritten, block_contentBlock, Block.text.injEq, given_iff]
      rfl
    · rename_i htype
      rw [htype]
      obtain ⟨part, hpart, rfl⟩ := Traverse.map_ok h
      exact ⟨rfl, rfl, image_iff hpart⟩
    · rename_i htype
      rw [htype]
      obtain ⟨part, hpart, rfl⟩ := Traverse.map_ok h
      exact ⟨rfl, rfl, iff_of_true (compaction_kept hpart).symm trivial⟩
    · rename_i htype
      cases h
      rw [htype]
      refine ⟨rfl, rfl, ?_⟩
      show Block.toolResult _ _ _ = _ ↔ _
      rw [userWritten, block_resultBlock, Block.toolResult.injEq, Option.getD_some, given_iff,
        result_iff, flag_iff]
      rfl
    · cases h
  · cases h

variable (fromStr) in
/-- **A block of an assistant's message.** -/
theorem assistantBlock_iff {b : Value} {x : ContentPart ⊕ ToolCall}
    (h : readAssistantBlock debug toStr b = .ok x) :
    isUse (block b) = x.isRight ∧ isResult (block b) = false ∧
      (block b = block (assistantWritten fromStr x) ↔ BlockKept toStr fromStr b) := by
  unfold readAssistantBlock at h
  split at h
  · rename_i fields
    generalize object fields = b at h ⊢
    unfold BlockKept
    rw [show block b = _ from rfl, block]
    split at h
    · rename_i htype
      cases h
      rw [htype]
      refine ⟨rfl, rfl, ?_⟩
      show Block.text _ = _ ↔ _
      rw [assistantWritten, block_contentBlock, Block.text.injEq, given_iff]
      rfl
    · rename_i htype
      cases h
      rw [htype]
      refine ⟨rfl, rfl, ?_⟩
      show Block.toolUse _ _ _ = _ ↔ _
      rw [assistantWritten, block_toolUse, Block.toolUse.injEq, given_iff, given_iff]
      refine and_congr_right fun _ => and_congr_right fun _ => ?_
      cases b.get "input" with
      | none => simp
      | some input => simp [eq_comm]
    · rename_i htype
      cases h
      rw [htype]
      refine ⟨rfl, rfl, ?_⟩
      show Block.thinking _ _ = _ ↔ _
      rw [assistantWritten, block_contentBlock, Block.thinking.injEq, given_iff]
      exact and_iff_left rfl
    · rename_i htype
      cases h
      rw [htype]
      refine ⟨rfl, rfl, ?_⟩
      show Block.redactedThinking _ = _ ↔ _
      rw [assistantWritten, block_contentBlock, Block.redactedThinking.injEq, given_iff]
      rfl
    · rename_i htype
      rw [htype]
      obtain ⟨part, hpart, rfl⟩ := Traverse.map_ok h
      exact ⟨rfl, rfl, iff_of_true (compaction_kept hpart).symm trivial⟩
    · cases h
  · cases h

/-! ## Messages -/

/-- **Blocks that are written sorted**: those whose kind goes first, then the others. They keep
their meaning exactly if every block does and they stood in this order. -/
theorem sorted_iff {α : Type} {written : α → Value} (kind : Block → Bool) {goesFirst : α → Bool}
    {P : Value → Prop} {items : List Value} {xs : List α}
    (hitems : List.Forall₂ (fun b x => kind (block b) = goesFirst x ∧
      (block b = block (written x) ↔ P b)) items xs)
    (hwritten : ∀ x, kind (block (written x)) = goesFirst x) :
    items.map block = ((xs.filter goesFirst ++ xs.filter fun x => !goesFirst x).map
        fun x => block (written x)) ↔
      (∀ b ∈ items, P b) ∧
        items.Pairwise fun a b => kind (block b) = true → kind (block a) = true := by
  obtain ⟨hlen, hzip⟩ := List.forall₂_iff_zip.mp hitems
  have hfst : (items.zip xs).map Prod.fst = items := List.map_fst_zip hlen.le
  have hsnd : (items.zip xs).map Prod.snd = xs := List.map_snd_zip hlen.ge
  have hfilter : ∀ p : α → Bool, (xs.filter p).map (fun x => block (written x)) =
      ((items.zip xs).filter fun e => p e.2).map fun e => block (written e.2) := by
    intro p
    conv_lhs => rw [← hsnd, List.filter_map, List.map_map]
    rfl
  have hread : ∀ e ∈ items.zip xs, kind (block e.1) = goesFirst e.2 ∧
      (block e.1 = block (written e.2) ↔ P e.1) := fun e he => hzip he
  have hmap : items.map block = (items.zip xs).map (block ∘ Prod.fst) := by
    rw [← List.map_map, hfst]
  have hall : (∀ b ∈ items, P b) ↔ ∀ e ∈ items.zip xs, P e.1 := by
    rw [← List.forall_mem_map (f := Prod.fst) (P := P), hfst]
  have horder : (items.Pairwise fun a b => kind (block b) = true → kind (block a) = true) ↔
      (items.zip xs).Pairwise fun a b => goesFirst b.2 = true → goesFirst a.2 = true := by
    conv_lhs => rw [← hfst, List.pairwise_map]
    refine List.Pairwise.iff_of_mem fun {a b} ha hb => ?_
    rw [(hread a ha).1, (hread b hb).1]
  rw [List.map_append, hfilter, hfilter, hmap, hall, horder]
  refine (Neighbours.map_eq_sorted_iff kind (fun e he => (hread e he).1)
    fun e _ => hwritten e.2).trans (and_congr_left' ?_)
  exact forall₂_congr fun e he => (hread e he).2

/-- The result of a tool is written as a block of the user. -/
theorem turn_tool {msg : Message} (h : msg.role = .tool) :
    turn (messageToAnthropic fromStr msg) = (some "user", [block (resultBlock msg)]) := by
  rw [messageToAnthropic, if_pos h]
  simp [turn, obj, textAt_object, Map.get_insert, asStr, blocks, resultBlock]

/-- Another message is written as its parts and its calls. -/
theorem turn_other {msg : Message} (h : msg.role ≠ .tool) :
    turn (messageToAnthropic fromStr msg) =
      (some (if msg.role = .assistant then "assistant" else "user"),
        (msg.content.map contentBlock ++ msg.toolCalls.map (toolUse fromStr)).map block) := by
  rw [messageToAnthropic, if_neg h]
  simp [turn, obj, textAt_object, Map.get_insert, asStr, blocks]

/-- The messages that a message is read as, against it: they are written under its role, as many
blocks as it has, with its meaning exactly if it is kept. -/
structure Reads (toStr : Value → String) (fromStr : String → Option Value) (m : Value)
    (msgs : List Message) : Prop where
  nonempty : msgs ≠ []
  role : ∀ msg ∈ msgs, msg.role ≠ .system ∧
    (turn (messageToAnthropic fromStr msg)).1 = (turn m).1
  length : (turn m).2.length =
    (msgs.flatMap fun msg => (turn (messageToAnthropic fromStr msg)).2).length
  iff : (turn m).2 = (msgs.flatMap fun msg => (turn (messageToAnthropic fromStr msg)).2) ↔
    MessageKept toStr fromStr m

theorem map_filter_right {α β γ : Type} (f : α ⊕ β → γ) (xs : List (α ⊕ β)) :
    (xs.filter Sum.isRight).map f = (xs.filterMap Sum.getRight?).map fun b => f (.inr b) := by
  induction xs with
  | nil => rfl
  | cons x xs ih =>
    cases x with
    | inl a => rw [List.filter_cons_of_neg (by simp), List.filterMap_cons_none rfl, ih]
    | inr b =>
      rw [List.filter_cons_of_pos rfl, List.map_cons, ih]
      rfl

theorem map_filter_left {α β γ : Type} (f : α ⊕ β → γ) (xs : List (α ⊕ β)) :
    (xs.filter fun x => !x.isRight).map f =
      (xs.filterMap Sum.getLeft?).map fun a => f (.inl a) := by
  induction xs with
  | nil => rfl
  | cons x xs ih =>
    cases x with
    | inl a =>
      rw [List.filter_cons_of_pos rfl, List.map_cons, ih]
      rfl
    | inr b => rw [List.filter_cons_of_neg (by simp), List.filterMap_cons_none rfl, ih]

/-- The blocks of what a user's blocks were read as: results of tools, then the parts. -/
theorem blocks_user {xs : List (ContentPart ⊕ Message)}
    (hxs : ∀ msg ∈ xs.filterMap Sum.getRight?, msg.role = .tool) :
    ((xs.filterMap Sum.getRight? ++
        if xs.filterMap Sum.getLeft? ≠ [] ∨ xs.filterMap Sum.getRight? = []
        then [userMessage (xs.filterMap Sum.getLeft?)] else []).flatMap
      fun msg => (turn (messageToAnthropic fromStr msg)).2) =
      (xs.filter Sum.isRight ++ xs.filter fun x => !x.isRight).map
        fun x => block (userWritten x) := by
  rw [List.flatMap_append, List.map_append, map_filter_right, map_filter_left]
  congr 1
  · rw [List.map_eq_flatMap]
    refine List.flatMap_congr fun msg hmsg => ?_
    rw [turn_tool (hxs msg hmsg)]
    rfl
  · split
    · rw [List.flatMap_singleton, turn_other (by simp [userMessage])]
      simp [userMessage, userWritten]
    · rename_i hnone
      rw [not_or, not_not] at hnone
      rw [hnone.1]
      rfl

/-- The blocks of what an assistant's blocks were read as: the parts, then the calls. -/
theorem blocks_assistant (xs : List (ContentPart ⊕ ToolCall)) :
    (turn (messageToAnthropic fromStr ⟨.assistant, xs.filterMap Sum.getLeft?,
        xs.filterMap Sum.getRight?, none, none⟩)).2 =
      ((xs.filter fun x => !x.isRight) ++ xs.filter fun x => !!x.isRight).map
        fun x => block (assistantWritten fromStr x) := by
  simp only [Bool.not_not]
  rw [turn_other (by simp), List.map_append, List.map_append, map_filter_right,
    map_filter_left, List.map_map, List.map_map]
  rfl

/-- The results of tools are tool messages. -/
theorem role_read {b : Value} {msg : Message} (h : readUserBlock debug b = .ok (.inr msg)) :
    msg.role = .tool := by
  unfold readUserBlock at h
  split at h
  · split at h
    · cases h
    · obtain ⟨part, -, heq⟩ := Traverse.map_ok h
      cases heq
    · obtain ⟨part, -, heq⟩ := Traverse.map_ok h
      cases heq
    · cases h
      rfl
    · cases h
  · cases h

theorem length_filter_both {α : Type} (p : α → Bool) (xs : List α) :
    (xs.filter p ++ xs.filter fun x => !p x).length = xs.length := by
  rw [List.length_append, ← List.length_eq_length_filter_add]

theorem messageKept_iff {m : Value} {items : List Value}
    (h : m.get "content" = some (.array items)) : MessageKept toStr fromStr m ↔
      (∀ b ∈ items, BlockKept toStr fromStr b) ∧ items.Pairwise InPlace := by
  rw [MessageKept, h]
  constructor
  · exact fun hkept => hkept items rfl
  · rintro hkept _ heq
    cases heq
    exact hkept

/-- A message whose content is no list is read as one and written with its blocks. -/
theorem reads_single {m : Value} {msg : Message} (hsystem : msg.role ≠ .system)
    (htool : msg.role ≠ .tool)
    (hrole : m.textAt ["role"] = some (if msg.role = .assistant then "assistant" else "user"))
    (hblocks : (msg.content.map contentBlock ++ msg.toolCalls.map (toolUse fromStr)).map block =
      blocks (m.get "content"))
    (hcontent : ∀ items, m.get "content" ≠ some (.array items)) :
    Reads toStr fromStr m [msg] := by
  have hturn : turn (messageToAnthropic fromStr msg) = turn m := by
    rw [turn_other htool, turn, hrole, hblocks]
  refine ⟨List.cons_ne_nil _ _, ?_, ?_, ?_⟩
  · intro msg' hmsg'
    cases List.mem_singleton.mp hmsg'
    exact ⟨hsystem, congrArg Prod.fst hturn⟩
  · rw [List.flatMap_singleton, hturn]
  · rw [List.flatMap_singleton, hturn]
    exact iff_of_true rfl fun items hitems => absurd hitems (hcontent items)

/-- A message whose content is a text. -/
theorem reads_text {m : Value} {role : Role} {text : String} (hsystem : role ≠ .system)
    (htool : role ≠ .tool)
    (hrole : m.textAt ["role"] = some (if role = .assistant then "assistant" else "user"))
    (hcontent : m.get "content" = some (string text)) :
    Reads toStr fromStr m [.ofText role text] := by
  refine reads_single hsystem htool hrole ?_ (by simp [hcontent])
  rw [hcontent]
  simp [Message.ofText, block_contentBlock, blocks]

/-- **A user's message.** -/
theorem reads_user {m : Value} {msgs : List Message} (hrole : m.textAt ["role"] = some "user")
    (h : parseUserContent debug (m.get "content") = .ok msgs) : Reads toStr fromStr m msgs := by
  unfold parseUserContent at h
  split at h
  · rename_i hcontent
    cases h
    exact reads_single (by simp [userMessage]) (by simp [userMessage]) hrole
      (by rw [hcontent]; rfl) (by simp [hcontent])
  · rename_i hcontent
    cases h
    exact reads_single (by simp [userMessage]) (by simp [userMessage]) hrole
      (by rw [hcontent]; rfl) (by simp [hcontent])
  · rename_i text hcontent
    cases h
    exact reads_text (by simp) (by simp) hrole hcontent
  · rename_i items hcontent
    obtain ⟨xs, hparse, h⟩ := Traverse.bind_ok h
    cases h
    have hread := Traverse.mapM_ok_iff.mp hparse
    have htool : ∀ msg ∈ xs.filterMap Sum.getRight?, msg.role = .tool := by
      intro msg hmsg
      obtain ⟨x, hx, hright⟩ := List.mem_filterMap.mp hmsg
      obtain ⟨b, -, hb⟩ := Traverse.exists_of_mem hparse hx
      rw [Sum.getRight?_eq_some_iff.mp hright] at hb
      exact role_read hb
    have hturn : (turn m).2 = items.map block := by rw [turn, hcontent]; rfl
    have hsorted := sorted_iff isResult (hread.imp fun b x hb =>
      ⟨(userBlock_iff toStr fromStr hb).1, (userBlock_iff toStr fromStr hb).2.2⟩)
      isResult_userWritten
    refine ⟨?_, ?_, ?_, ?_⟩
    · intro hnil
      obtain ⟨hright, hrest⟩ := List.append_eq_nil_iff.mp hnil
      rw [if_pos (.inr hright)] at hrest
      cases hrest
    · intro msg hmsg
      rcases List.mem_append.mp hmsg with hmsg | hmsg
      · rw [turn_tool (htool msg hmsg), turn, hrole, htool msg hmsg]
        exact ⟨by decide, rfl⟩
      · split at hmsg
        · cases List.mem_singleton.mp hmsg
          rw [turn_other (by simp [userMessage]), turn, hrole]
          exact ⟨by simp [userMessage], rfl⟩
        · cases hmsg
    · rw [blocks_user htool, hturn, List.length_map, List.length_map, length_filter_both,
        hread.length_eq]
    · rw [blocks_user htool, hturn, hsorted, messageKept_iff hcontent]
      refine and_congr_right' (List.Pairwise.iff_of_mem fun {a b} ha _ => ?_)
      obtain ⟨k, hk⟩ := List.getElem?_of_mem ha
      obtain ⟨x, -, hx⟩ := Traverse.getElem?_of_mapM hparse hk
      rw [InPlace, (userBlock_iff toStr fromStr hx).2.1]
      simp
  · cases h

/-- **An assistant's message.** -/
theorem reads_assistant {m : Value} {msg : Message}
    (hrole : m.textAt ["role"] = some "assistant")
    (h : parseAssistantMessage debug toStr (m.get "content") = .ok msg) :
    Reads toStr fromStr m [msg] := by
  unfold parseAssistantMessage at h
  split at h
  · rename_i hcontent
    cases h
    exact reads_single (by simp) (by simp) hrole (by rw [hcontent]; rfl) (by simp [hcontent])
  · rename_i hcontent
    cases h
    exact reads_single (by simp) (by simp) hrole (by rw [hcontent]; rfl) (by simp [hcontent])
  · rename_i text hcontent
    cases h
    exact reads_text (by simp) (by simp) hrole hcontent
  · rename_i items hcontent
    obtain ⟨xs, hparse, h⟩ := Traverse.bind_ok h
    cases h
    have hread := Traverse.mapM_ok_iff.mp hparse
    have hturn : (turn m).2 = items.map block := by rw [turn, hcontent]; rfl
    have hsorted := sorted_iff (fun b => !isUse b) (hread.imp fun b x hb =>
      ⟨congrArg not (assistantBlock_iff fromStr hb).1, (assistantBlock_iff fromStr hb).2.2⟩)
      (fun x => congrArg not (isUse_assistantWritten x))
    refine ⟨List.cons_ne_nil _ _, ?_, ?_, ?_⟩
    · intro msg hmsg
      cases List.mem_singleton.mp hmsg
      rw [turn_other (by simp), turn, hrole]
      exact ⟨by simp, rfl⟩
    · rw [List.flatMap_singleton, blocks_assistant, hturn, List.length_map, List.length_map,
        length_filter_both, hread.length_eq]
    · rw [List.flatMap_singleton, blocks_assistant, hturn, hsorted, messageKept_iff hcontent]
      refine and_congr_right' (List.Pairwise.iff_of_mem fun {a b} _ hb => ?_)
      obtain ⟨k, hk⟩ := List.getElem?_of_mem hb
      obtain ⟨x, -, hx⟩ := Traverse.getElem?_of_mapM hparse hk
      rw [InPlace, (assistantBlock_iff fromStr hx).2.1]
      cases isUse (block a) <;> cases isUse (block b) <;> simp
  · cases h

/-- **A message.** -/
theorem reads_message {m : Value} {msgs : List Message}
    (h : parseMessage debug toStr m = .ok msgs) : Reads toStr fromStr m msgs := by
  unfold parseMessage at h
  split at h
  · rename_i fields
    generalize object fields = m at h ⊢
    split at h
    · rename_i role hrole
      have hrole := ChatThrough.textAt_eq_some.mpr hrole
      split at h
      · exact reads_user hrole h
      · obtain ⟨msg, hmsg, rfl⟩ := Traverse.map_ok h
        exact reads_assistant hrole hmsg
      · cases h
    · cases h
  · cases h

/-! ## The conversation -/

/-- What a message was read as, as one turn. -/
def writtenTurn (fromStr : String → Option Value) (m : Value) (msgs : List Message) :
    Option String × List Block :=
  ((turn m).1, msgs.flatMap fun msg => (turn (messageToAnthropic fromStr msg)).2)

theorem merge_written {messages : List Value} {read : List (List Message)}
    (h : List.Forall₂ (Reads toStr fromStr) messages read) :
    Neighbours.merge (read.flatten.map fun msg => turn (messageToAnthropic fromStr msg)) =
      Neighbours.merge (List.zipWith (writtenTurn fromStr) messages read) := by
  induction h with
  | nil => rfl
  | @cons m msgs messages read hm _ ih =>
    have hne : msgs.map (fun msg => turn (messageToAnthropic fromStr msg)) ≠ [] :=
      fun hnil => hm.nonempty (List.map_eq_nil_iff.mp hnil)
    have hrun : ∀ e ∈ msgs.map (fun msg => turn (messageToAnthropic fromStr msg)),
        e.1 = (turn m).1 := by
      intro e he
      obtain ⟨msg, hmsg, rfl⟩ := List.mem_map.mp he
      exact (hm.role msg hmsg).2
    rw [List.flatten_cons, List.map_append, Neighbours.merge_run hne hrun, ih, List.flatMap_map]
    rfl

/-- **The conversation** is written with its meaning exactly if every message is kept. -/
theorem turns_iff {messages : List Value} {read : List (List Message)}
    (h : List.Forall₂ (Reads toStr fromStr) messages read) :
    Neighbours.merge (messages.map turn) =
        Neighbours.merge (read.flatten.map fun msg => turn (messageToAnthropic fromStr msg)) ↔
      ∀ m ∈ messages, MessageKept toStr fromStr m := by
  have hlengths : List.Forall₂ (fun x y => x.1 = y.1 ∧ x.2.length = y.2.length)
      (messages.map turn) (List.zipWith (writtenTurn fromStr) messages read) := by
    induction h with
    | nil => exact .nil
    | cons hm _ ih => exact .cons ⟨rfl, hm.length⟩ ih
  rw [merge_written h, Neighbours.merge_eq_iff hlengths]
  clear hlengths
  induction h with
  | nil => simp
  | @cons m msgs messages read hm _ ih =>
    rw [List.map_cons, List.zipWith_cons_cons, List.cons.injEq, List.forall_mem_cons]
    exact and_congr (Prod.ext_iff.trans ((and_iff_right rfl).trans hm.iff)) ih

/-! ## The fields beside the conversation -/

/-- A text that is null when it is missing is kept, and nothing else. -/
theorem sameField_ofOption_iff (o : Option Value) :
    SameField o (some (ofOption (o.bind asStr))) ↔ OptText o := by
  rw [← sameField_text_iff]
  cases o.bind asStr <;> exact Iff.rfl

/-- **A tool** is written as it was read exactly if it is kept. -/
theorem tool_iff {t : Value} {d : ToolDef} (h : parseTool t = .ok d) :
    Same t (toolToAnthropic d) ↔ ToolKept t := by
  unfold parseTool at h
  split at h
  · rename_i name hname
    cases h
    have hschema : SameField (t.get "input_schema") (some ((t.get "input_schema").getD null)) := by
      cases t.get "input_schema" with
      | none => exact .none
      | some v => exact .refl _
    rw [toolToAnthropic, same_obj_iff (by simp)]
    simp only [List.map_cons, List.map_nil, List.Forall, hschema, ChatThrough.sameField_text_eq,
      hname, true_and, and_true, ChatThrough.textAt_one t "description", sameField_ofOption_iff,
      ChatThrough.object_of_textAt hname, ToolKept]
  · cases h

/-- **The tools** are written as they were read exactly if they are kept. -/
theorem tools_iff {o : Option Value} {tools : List ToolDef} (h : parseTools o = .ok tools) :
    SameField o (if tools = [] then none else some (array (tools.map toolToAnthropic))) ↔
      ArrayOf ToolKept o := by
  have hnil : tools.map toolToAnthropic = [] ↔ tools = [] := List.map_eq_nil_iff
  simp only [← hnil]
  refine sameField_array_iff (fun hother => ?_) fun xs hxs => ?_
  · rw [hnil]
    unfold parseTools at h
    split at h
    · rename_i items
      exact absurd rfl (hother items)
    · exact (Except.ok.inj h).symm
  · subst hxs
    rw [← List.filterMap_eq_map']
    exact Traverse.forall₂_filterMap_iff (Traverse.mapM_ok_iff.mp h) fun t d => tool_iff

/-- A tool choice that is left out. -/
theorem choice_unread {o : Option Value} (hnone : parseToolChoice o = none)
    (hmode : ∀ v, o = some v → ∀ mode ∈ ["auto", "any", "none"], v.textAt ["type"] ≠ some mode)
    (hname : ∀ v, o = some v → v.textAt ["type"] = some "tool" → v.textAt ["name"] = none) :
    SameField o ((parseToolChoice o).map toolChoiceToAnthropic) ↔ ChoiceKept o := by
  rw [hnone, Option.map_none, sameField_none_iff]
  refine ⟨.inl, ?_⟩
  rintro (h | ⟨v, rfl, ⟨-, mode, hmem, htype⟩ | ⟨-, htype, hsome⟩⟩)
  · exact h
  · exact absurd htype (hmode v rfl mode hmem)
  · rw [hname v rfl htype] at hsome
    cases hsome

/-- A tool choice that is a mode. -/
theorem choice_mode {m : Map} {mode : String} (hmem : mode ∈ ["auto", "any", "none"])
    (htype : (object m).textAt ["type"] = some mode) :
    SameField (some (object m)) (some (obj [("type", string mode)])) ↔
      ChoiceKept (some (object m)) := by
  rw [sameField_obj_iff (by simp)]
  simp only [List.map_cons, List.map_nil, List.Forall, Option.some.injEq, exists_eq_left',
    ChatThrough.sameField_text_eq, htype, and_true]
  constructor
  · rintro ⟨-, honly⟩
    exact .inr ⟨_, rfl, .inl ⟨honly, mode, hmem, htype⟩⟩
  · rintro (h | ⟨v, hv, ⟨honly, -⟩ | ⟨-, htool, -⟩⟩)
    · cases h
    · cases hv
      exact ⟨⟨m, rfl⟩, honly⟩
    · cases hv
      rw [htype, Option.some.injEq] at htool
      rw [htool] at hmem
      exact absurd hmem (by decide)

/-- A tool choice that names a tool. -/
theorem choice_named {m : Map} {name : String} (htype : (object m).textAt ["type"] = some "tool")
    (hname : (object m).textAt ["name"] = some name) :
    SameField (some (object m)) (some (obj [("type", string "tool"), ("name", string name)])) ↔
      ChoiceKept (some (object m)) := by
  rw [sameField_obj_iff (by simp)]
  simp only [List.map_cons, List.map_nil, List.Forall, Option.some.injEq, exists_eq_left',
    ChatThrough.sameField_text_eq, htype, hname, and_true]
  constructor
  · rintro ⟨-, honly⟩
    exact .inr ⟨_, rfl, .inr ⟨honly, htype, by rw [hname]; rfl⟩⟩
  · rintro (h | ⟨v, hv, ⟨-, mode, hmem, hmode⟩ | ⟨honly, -⟩⟩)
    · cases h
    · cases hv
      rw [htype, Option.some.injEq] at hmode
      rw [← hmode] at hmem
      exact absurd hmem (by decide)
    · cases hv
      exact ⟨⟨m, rfl⟩, honly⟩

/-- **A tool choice** is written as it was read exactly if it is kept. -/
theorem choice_iff (o : Option Value) :
    SameField o ((parseToolChoice o).map toolChoiceToAnthropic) ↔ ChoiceKept o := by
  rcases o with _ | v
  · exact choice_unread rfl (by simp) (by simp)
  cases v with
  | object m =>
    cases hparse : parseToolChoice (some (object m)) with
    | none =>
      rw [← hparse]
      refine choice_unread hparse ?_ ?_
      · rintro v ⟨⟩ mode hmem htype
        simp only [List.mem_cons, List.not_mem_nil, or_false] at hmem
        rw [parseToolChoice, htype] at hparse
        rcases hmem with rfl | rfl | rfl <;> cases hparse
      · rintro v ⟨⟩ htype
        rw [parseToolChoice, htype] at hparse
        exact Option.map_eq_none_iff.mp hparse
    | some choice =>
      unfold parseToolChoice at hparse
      dsimp only at hparse
      split at hparse
      · cases hparse
        exact choice_mode (by simp) ‹_›
      · cases hparse
        exact choice_mode (by simp) ‹_›
      · obtain ⟨name, hname, rfl⟩ := Option.map_eq_some_iff.mp hparse
        exact choice_named ‹_› hname
      · cases hparse
        exact choice_mode (by simp) ‹_›
      · cases hparse
  | _ =>
    refine choice_unread rfl ?_ ?_
    · rintro v ⟨⟩ mode - htype
      cases htype
    · rintro v ⟨⟩ htype
      cases htype

/-! ## The system text -/

/-- A piece in front of the first text. -/
theorem intercalate_append (sep x t : String) (texts : List String) :
    sep.intercalate ((x ++ t) :: texts) = x ++ sep.intercalate (t :: texts) := by
  cases texts with
  | nil => rfl
  | cons u texts =>
    rw [String.intercalate_cons_cons, String.intercalate_cons_cons, String.append_assoc,
      String.append_assoc, String.append_assoc]

/-- One more piece of the system text. -/
def addText (out text : String) : String := (if out = "" then out else out ++ "\n\n") ++ text

theorem foldl_addText {out : String} (h : out ≠ "") (texts : List String) :
    texts.foldl addText out = "\n\n".intercalate (out :: texts) := by
  induction texts generalizing out with
  | nil => rfl
  | cons text texts ih =>
    have hnext : addText out text = out ++ "\n\n" ++ text := by rw [addText, if_neg h]
    have hne : out ++ "\n\n" ++ text ≠ "" := by simp [h]
    rw [List.foldl_cons, hnext, ih hne, intercalate_append, String.intercalate_cons_cons]

/-- **The pieces are joined** as the system text is to be read. -/
theorem foldl_texts (texts : List String) :
    texts.foldl addText "" = "\n\n".intercalate (texts.dropWhile (· = "")) := by
  induction texts with
  | nil => rfl
  | cons text texts ih =>
    have hfirst : addText "" text = text := by simp [addText]
    rw [List.foldl_cons, hfirst]
    by_cases h : text = ""
    · rw [List.dropWhile_cons_of_pos (by simpa using h), h, ih]
    · rw [List.dropWhile_cons_of_neg (by simpa using h), foldl_addText h]

/-- The system field is read as its text. -/
theorem systemText_eq (v : Value) : systemText v = systemSays (some v) := by
  cases v with
  | string s =>
    rw [systemSays, systemTexts, systemText]
    by_cases h : s = ""
    · rw [h]
      rfl
    · rw [List.dropWhile_cons_of_neg (by simpa using h)]
      rfl
  | array parts => exact foldl_texts _
  | _ => rfl

/-! ## The body -/

theorem forall₂_source {α β : Type} {R : α → β → Prop} {as : List α} {bs : List β}
    (h : List.Forall₂ R as bs) {b : β} (hb : b ∈ bs) : ∃ a ∈ as, R a b := by
  induction h with
  | nil => cases hb
  | cons hab _ ih =>
    rcases List.mem_cons.mp hb with rfl | hb
    · exact ⟨_, List.mem_cons_self, hab⟩
    · obtain ⟨a, ha, h⟩ := ih hb
      exact ⟨a, List.mem_cons_of_mem _ ha, h⟩

/-- The fields of `extra` stand beside those of the body, where no name is given twice. -/
theorem get_addExtra_all {extra body : Map} (hnodup : (extra.map Prod.fst).Nodup)
    (hfree : ∀ e ∈ extra, body.get e.1 = none) (key : String) :
    (extra.foldl addExtra body).get key = (body.get key).or (Map.get extra key) := by
  induction extra generalizing body with
  | nil => simp
  | cons e extra ih =>
    obtain ⟨hnew, hnodup⟩ := List.nodup_cons.mp hnodup
    have hbody := hfree e List.mem_cons_self
    have hadd : addExtra body e = body.insert e.1 e.2 := by
      unfold addExtra
      rw [hbody]
    rw [List.foldl_cons, hadd, ih hnodup]
    · rw [Map.get_insert, Map.get_cons]
      by_cases h : e.1 = key
      · rw [if_pos h, if_pos h, ← h, hbody]
        rfl
      · rw [if_neg h, if_neg h]
    · intro e' he'
      rw [Map.get_insert, if_neg, hfree e' (List.mem_cons_of_mem _ he')]
      exact fun h => hnew (h ▸ List.mem_map_of_mem he')

/-- What an accepted body is read as, field by field. -/
structure ReadsBody (debug : String → String) (toStr : Value → String) (fields : Map)
    (req : ChatRequest) : Prop where
  model : (object fields).get "model" = some (string req.model)
  maxTokens : ∃ n, (object fields).get "max_tokens" = some (nat n) ∧
    req.maxTokens = some (n % 2 ^ 32)
  messages : ∃ read, List.Forall₂ (fun m msgs => parseMessage debug toStr m = .ok msgs)
    ((object fields).itemsAt ["messages"]) read ∧
      req.messages = systemMessage ((object fields).get "system") ++ read.flatten
  temperature : req.temperature = ((object fields).get "temperature").bind asF32
  topP : req.topP = ((object fields).get "top_p").bind asF32
  stop : req.stop = parseStopSequences ((object fields).get "stop_sequences")
  tools : parseTools ((object fields).get "tools") = .ok req.tools
  toolChoice : req.toolChoice = parseToolChoice ((object fields).get "tool_choice")
  thinking : req.thinking = none
  extra : req.extra = Map.without fields modeled

theorem reads_of_parse {fields : Map} {req : ChatRequest}
    (h : parseMessagesRequest debug toStr (object fields) = .ok req) :
    ReadsBody debug toStr fields req := by
  unfold parseMessagesRequest at h
  dsimp only at h
  split at h
  · rename_i model hmodel
    split at h
    · rename_i maxTokens hmax
      split at h
      · rename_i n hn
        split at h
        · rename_i convo hconvo
          obtain ⟨read, hread, h⟩ := Traverse.bind_ok h
          obtain ⟨tools, htools, h⟩ := Traverse.bind_ok h
          cases h
          refine ⟨hmodel, ⟨n, ?_, rfl⟩, ⟨read, ?_, rfl⟩, rfl, rfl, rfl, htools, rfl, rfl, rfl⟩
          · rw [hmax, ChatThrough.asU64_eq_some.mp hn]
          · rw [itemsAt, path_one, hconvo]
            exact Traverse.mapM_ok_iff.mp hread
        · cases h
      · cases h
    · cases h
  · cases h

section

variable {fields : Map} {req : ChatRequest} (hr : ReadsBody debug toStr fields req)
  (hfields : (fields.map Prod.fst).Nodup)

include hr

/-- The fields that are written of an accepted body. -/
theorem modeled_eq : modeledFields fromStr req none = Map.build [
    ("model", some (string req.model)), ("max_tokens", some (maxTokensValue req)),
    ("system", systemValue req none), ("messages", some (messagesValue fromStr req none)),
    ("temperature", req.temperature.map ofF32), ("top_p", req.topP.map ofF32),
    ("stop_sequences", if req.stop = [] then none else some (array (req.stop.map string))),
    ("tools", toolsValue req none), ("tool_choice", req.toolChoice.map toolChoiceToAnthropic),
    ("thinking", none), ("output_config", none)] := by
  rw [modeledFields, hr.thinking]
  rfl

/-- The other fields are left to `extra`. -/
theorem modeled_other {key : String} (hkey : key ∉ modeled) :
    (modeledFields fromStr req none).get key = none := by
  rw [modeled_eq hr]
  simp only [modeled, List.mem_cons, List.not_mem_nil, or_false, not_or] at hkey
  simp [Map.get_build_cons, eq_comm (b := key), hkey]

variable (fromStr) in
/-- The messages beside the system text are those that the conversation was read as. -/
theorem messages_split : ∃ read, List.Forall₂ (Reads toStr fromStr)
      ((object fields).itemsAt ["messages"]) read ∧
    req.messages.filter (·.role ≠ .system) = read.flatten ∧
    req.messages.filter (·.role = .system) = systemMessage ((object fields).get "system") := by
  obtain ⟨read, hread, heq⟩ := hr.messages
  have hall : List.Forall₂ (Reads toStr fromStr) _ read := hread.imp fun m msgs h => reads_message h
  have hflat : ∀ msg ∈ read.flatten, msg.role ≠ .system := by
    intro msg hmsg
    obtain ⟨msgs, hmsgs, hmsg⟩ := List.mem_flatten.mp hmsg
    obtain ⟨m, -, hm⟩ := forall₂_source hall hmsgs
    exact (hm.role msg hmsg).1
  have hsystem : ∀ msg ∈ systemMessage ((object fields).get "system"), msg.role = .system := by
    intro msg hmsg
    unfold systemMessage at hmsg
    split at hmsg
    · split at hmsg
      · cases hmsg
      · cases List.mem_singleton.mp hmsg
        rfl
    · cases hmsg
  refine ⟨read, hall, ?_, ?_⟩
  · rw [heq, List.filter_append, List.filter_eq_nil_iff.mpr (by simpa using hsystem),
      List.filter_eq_self.mpr (by simpa using hflat), List.nil_append]
  · rw [heq, List.filter_append, List.filter_eq_self.mpr (by simpa using hsystem),
      List.filter_eq_nil_iff.mpr (by simpa using hflat), List.append_nil]

/-- The system text that is written is the one that was read. -/
theorem systemText_read :
    Gemini.systemText req = systemSays ((object fields).get "system") := by
  obtain ⟨-, -, -, hsystem⟩ := messages_split (fun _ => none) hr
  rw [Gemini.systemText, hsystem]
  cases (object fields).get "system" with
  | none => rfl
  | some v =>
    have hsingle : systemMessage (some v) =
        if systemText v = "" then [] else [.ofText .system (systemText v)] := rfl
    rw [← systemText_eq, hsingle]
    split
    · rename_i h
      rw [h]
      rfl
    · show Responses.textContent (.ofText .system (systemText v)) = systemText v
      simp [Responses.textContent, Message.ofText, String.join]

include hfields

/-- A field of the written body. -/
theorem written_get (key : String) : (requestToAnthropic fromStr req none).get key =
    if key ∈ modeled then (modeledFields fromStr req none).get key
    else (object fields).get key := by
  have hnodup : (req.extra.map Prod.fst).Nodup := by
    rw [hr.extra]
    exact hfields.sublist (List.Sublist.map _ List.filter_sublist)
  have hfree : ∀ e ∈ req.extra, (modeledFields fromStr req none).get e.1 = none := by
    intro e he
    rw [hr.extra] at he
    exact modeled_other hr (by simpa using (List.mem_filter.mp he).2)
  rw [requestToAnthropic, get_object, get_addExtra_all hnodup hfree, hr.extra, Map.get_without,
    get_object]
  split
  · exact Option.or_none
  · rename_i hkey
    rw [modeled_other hr hkey, Option.none_or]

/-- A modelled field is written as the mapper has it. -/
theorem written_modeled {key : String} {o : Option Value} (hkey : key ∈ modeled)
    (hmem : (key, o) ∈ [("model", some (string req.model)),
      ("max_tokens", some (maxTokensValue req)), ("system", systemValue req none),
      ("messages", some (messagesValue fromStr req none)),
      ("temperature", req.temperature.map ofF32), ("top_p", req.topP.map ofF32),
      ("stop_sequences", if req.stop = [] then none else some (array (req.stop.map string))),
      ("tools", toolsValue req none),
      ("tool_choice", req.toolChoice.map toolChoiceToAnthropic)]) :
    (requestToAnthropic fromStr req none).get key = o := by
  rw [written_get hr hfields, if_pos hkey, modeled_eq hr]
  apply get_build_mem (e := (key, o))
  · simp
  · simp only [List.mem_cons, List.not_mem_nil, or_false] at hmem ⊢
    tauto

/-- **The system text** is always written. -/
theorem system_written : systemSays ((object fields).get "system") =
    systemSays ((requestToAnthropic fromStr req none).get "system") := by
  rw [written_modeled hr hfields (o := systemValue req none) (by decide) (by simp), systemValue,
    systemText_read hr]
  generalize systemSays ((object fields).get "system") = text
  by_cases h : text = ""
  · rw [if_pos h, h]
    rfl
  · rw [if_neg h]
    show text = systemSays (some (string text))
    rw [systemSays, systemTexts, List.dropWhile_cons_of_neg (by simpa using h)]
    rfl

/-- **The conversation.** -/
theorem conversation_iff : turns (object fields) = turns (requestToAnthropic fromStr req none) ↔
    ∀ m ∈ (object fields).itemsAt ["messages"], MessageKept toStr fromStr m := by
  obtain ⟨read, hread, hmessages, -⟩ := messages_split fromStr hr
  have hwritten : (requestToAnthropic fromStr req none).itemsAt ["messages"] =
      read.flatten.map (messageToAnthropic fromStr) := by
    rw [itemsAt, path_one, written_modeled hr hfields
      (o := some (messagesValue fromStr req none)) (by decide) (by simp), messagesValue, hmessages]
    rfl
  rw [turns, turns, hwritten, List.map_map]
  exact turns_iff hread

/-- **The cap.** -/
theorem maxTokens_iff : SameField ((object fields).get "max_tokens")
      ((requestToAnthropic fromStr req none).get "max_tokens") ↔
    ∃ n < 2 ^ 32, (object fields).get "max_tokens" = some (nat n) := by
  obtain ⟨n, hn, hmax⟩ := hr.maxTokens
  rw [written_modeled hr hfields (o := some (maxTokensValue req)) (by decide) (by simp), hn,
    maxTokensValue, hr.thinking, hmax]
  show SameField (some (nat n)) (some (nat (n % 2 ^ 32))) ↔ _
  constructor
  · intro h
    obtain ⟨n', hn', heq⟩ := sameField_number_iff.mp h
    cases hn'
    have hcut : n = n % 2 ^ 32 := by exact_mod_cast Option.some.inj heq
    exact ⟨n, by omega, rfl⟩
  · rintro ⟨n', hlt, heq⟩
    cases heq
    rw [Nat.mod_eq_of_lt hlt]
    exact .refl _

/-- **The stop sequences.** -/
theorem stop_iff : stopItems ((object fields).get "stop_sequences") =
      stopItems ((requestToAnthropic fromStr req none).get "stop_sequences") ↔
    StopCarried ((object fields).get "stop_sequences") := by
  have hparse : ∀ o, parseStopSequences o = Openai.parseStop o := by
    intro o
    rcases o with _ | v
    · rfl
    · cases v <;> rfl
  rw [written_modeled hr hfields
    (o := if req.stop = [] then none else some (array (req.stop.map string))) (by decide) (by simp),
    hr.stop, hparse]
  exact ChatThrough.stop_iff _

end

/-- **A body that is accepted** is written with the same meaning exactly when it is kept. -/
theorem messages_through_iff {fields : Map} {req : ChatRequest}
    (hfields : (fields.map Prod.fst).Nodup)
    (h : parseMessagesRequest debug toStr (object fields) = .ok req) :
    SameBody (object fields) (requestToAnthropic fromStr req none) ↔
      Kept toStr fromStr (object fields) := by
  have hr := reads_of_parse h
  have hmodel : (requestToAnthropic fromStr req none).get "model" = some (string req.model) :=
    written_modeled hr hfields (by decide) (by simp)
  have htools : (requestToAnthropic fromStr req none).get "tools" = toolsValue req none :=
    written_modeled hr hfields (by decide) (by simp)
  have hchoice : (requestToAnthropic fromStr req none).get "tool_choice" =
      req.toolChoice.map toolChoiceToAnthropic := written_modeled hr hfields (by decide) (by simp)
  have htemperature : (requestToAnthropic fromStr req none).get "temperature" =
      req.temperature.map ofF32 := written_modeled hr hfields (by decide) (by simp)
  have htopP : (requestToAnthropic fromStr req none).get "top_p" = req.topP.map ofF32 :=
    written_modeled hr hfields (by decide) (by simp)
  rw [toolsValue] at htools
  rw [hr.toolChoice] at hchoice
  rw [hr.temperature] at htemperature
  rw [hr.topP] at htopP
  have htoolsIff := tools_iff hr.tools
  have hchoiceIff := choice_iff ((object fields).get "tool_choice")
  have htemperatureIff := ChatThrough.number_iff ((object fields).get "temperature")
  have htopPIff := ChatThrough.number_iff ((object fields).get "top_p")
  rw [← hchoice] at hchoiceIff
  rw [← htemperature] at htemperatureIff
  rw [← htopP] at htopPIff
  rw [← htools] at htoolsIff
  constructor
  · intro hsame
    exact {
      messages := (conversation_iff hr hfields).mp hsame.turns
      tools := htoolsIff.mp hsame.tools
      toolChoice := hchoiceIff.mp hsame.toolChoice
      stop := (stop_iff hr hfields).mp hsame.stop
      temperature := htemperatureIff.mp hsame.temperature
      topP := htopPIff.mp hsame.topP
      maxTokens := (maxTokens_iff hr hfields).mp hsame.maxTokens }
  · intro hkept
    exact {
      model := by rw [hmodel, hr.model]
      turns := (conversation_iff hr hfields).mpr hkept.messages
      system := system_written hr hfields
      tools := htoolsIff.mpr hkept.tools
      toolChoice := hchoiceIff.mpr hkept.toolChoice
      stop := (stop_iff hr hfields).mpr hkept.stop
      temperature := htemperatureIff.mpr hkept.temperature
      topP := htopPIff.mpr hkept.topP
      maxTokens := (maxTokens_iff hr hfields).mpr hkept.maxTokens
      unmodeled := by
        intro key hkey
        rw [written_get hr hfields, if_neg hkey] }

end

/-! ## Two bodies -/

/-- A plain question with an output cap. -/
def question : Map := [
  ("model", string "claude-sonnet-4-5"),
  ("max_tokens", nat 64),
  ("messages", array [object [("role", string "user"), ("content", string "hi")]])]

/-- A question about an image that stands in the request. -/
def pictured : Map := [
  ("model", string "claude-sonnet-4-5"),
  ("max_tokens", nat 64),
  ("messages", array [object [("role", string "user"), ("content", array [
    object [("type", string "image"), ("source", object [("type", string "base64"),
      ("media_type", string "image/png"), ("data", string "aGk=")])]])]])]

/-- The plain question is written with its meaning. -/
theorem messages_through_question : ∃ req,
    parseMessagesRequest id (fun _ => "") (object question) = .ok req ∧
      (SameBody (object question) (requestToAnthropic (fun _ => none) req none) ↔
        Kept (fun _ => "") (fun _ => none) (object question)) := by
  refine ⟨_, rfl, ?_⟩
  exact messages_through_iff (by decide)
    (rfl : parseMessagesRequest id (fun _ => "") (object question) = _)

/-- The image is written as one at an address, whose address is the image. -/
theorem pictured_not_through : ∃ req,
    parseMessagesRequest id (fun _ => "") (object pictured) = .ok req ∧
      ¬ SameBody (object pictured) (requestToAnthropic (fun _ => none) req none) := by
  obtain ⟨req, h⟩ : ∃ req,
    parseMessagesRequest id (fun _ => "") (object pictured) = .ok req := ⟨_, rfl⟩
  have hr := reads_of_parse h
  refine ⟨req, h, fun hsame => ?_⟩
  have hkept := (conversation_iff hr (by decide)).mp hsame.turns
  have hsource : _ = some "url" :=
    ((hkept _ (List.mem_singleton.mpr rfl)) _ rfl).1 _ (List.mem_singleton.mpr rfl)
  exact absurd hsource (by decide)

end Llmleaf.MessagesThrough
