import Llmleaf.Providers.Mapper
import Llmleaf.Providers.Usage
import Llmleaf.Lib.Strings

/-!
# Chat completions

The mappers of a `chat.completion` object and of the chunks of a streamed one. Both take the
reasoning from `reasoning`, and from `reasoning_content` only where there is no `reasoning` at all:
a null one hides it.

- `openaiToChunks`, `openaiChunkToCanonical`: the mappers.
- `OpenaiWire.Renders`: the chunks with which an object is streamed, its texts cut anyhow and its
  choices and calls interleaved anyhow.
- **Result** (`openai_streamed_iff`): streaming changes nothing exactly if the same reasoning is hidden
  on both sides.
-/

namespace Llmleaf

namespace OpenaiWire

/-- The finish reasons of the upstream. -/
def mapFinish (reason : String) : FinishReason :=
  if reason = "length" then .length
  else if reason = "tool_calls" ∨ reason = "function_call" then .toolCalls
  else if reason = "content_filter" then .contentFilter
  else .stop

/-- The reasoning that is read from a message or from a delta. -/
def readReasoning (message : Value) : Option String :=
  ((message.get "reasoning").or (message.get "reasoning_content")).bind Value.asStr

/-- A choice of an object. -/
def choiceChunks (choice : Value) : List StreamChunk :=
  let index := choice.indexAt ["index"]
  thinkingChunk index ((choice.get "message").bind readReasoning) ++
  contentChunk index (choice.textAt ["message", "content"]) ++
  (choice.itemsAt ["message", "tool_calls"]).mapIdx (fun i call =>
    .toolCall index (functionDelta i call)) ++
  [.finish index (((choice.textAt ["finish_reason"]).map mapFinish).getD .stop)]

/-- A choice of a chunk. -/
def deltaChunks (choice : Value) : List StreamChunk :=
  let index := choice.indexAt ["index"]
  thinkingChunk index ((choice.get "delta").bind readReasoning) ++
  contentChunk index (choice.textAt ["delta", "content"]) ++
  (choice.itemsAt ["delta", "tool_calls"]).map (fun call =>
    .toolCall index (functionDelta (call.indexAt ["index"]) call)) ++
  ((choice.textAt ["finish_reason"]).map fun reason => .finish index (mapFinish reason)).toList

/-- The identity of an object or of a chunk. -/
def identity (value : Value) (fallbackModel : String) : StreamChunk :=
  .start ((value.textAt ["id"]).getD "") ((value.textAt ["model"]).getD fallbackModel)

end OpenaiWire

open OpenaiWire

/-- A `chat.completion` object. -/
def openaiToChunks (value : Value) (fallbackModel : String) : List StreamChunk :=
  [identity value fallbackModel] ++
  (value.itemsAt ["choices"]).flatMap choiceChunks ++
  ((value.get "usage").map fun usage => .usage (openaiUsage usage)).toList

/-- A `chat.completion.chunk`; the flag says whether the identity went out. -/
def openaiChunkToCanonical (value : Value) (seenStart : Bool) (fallbackModel : String) :
    List StreamChunk × Bool :=
  ((if seenStart then [] else [identity value fallbackModel]) ++
    (value.itemsAt ["choices"]).flatMap deltaChunks ++
    ((openaiChunkUsage value).map StreamChunk.usage).toList, true)

/-- The output over the chunks of a stream. -/
def openaiStream (fallbackModel : String) : List Value → Bool → List StreamChunk
  | [], _ => []
  | value :: values, seenStart =>
    let (chunks, seenStart) := openaiChunkToCanonical value seenStart fallbackModel
    chunks ++ openaiStream fallbackModel values seenStart

namespace OpenaiWire

/-! ## Renderings -/

/-- The reasoning that a message or a delta gives, under either name. -/
def givenReasoning (message : Value) : String :=
  ((message.textAt ["reasoning"]).or (message.textAt ["reasoning_content"])).getD ""

/-- The reasoning of a message or a delta is hidden by a `reasoning` that is no text. -/
def Hidden (message : Value) : Prop :=
  (message.get "reasoning").isSome ∧ message.textAt ["reasoning"] = none ∧
    givenReasoning message ≠ ""

instance (message : Value) : Decidable (Hidden message) := instDecidableAnd

/-- The message of a choice. -/
def message (choice : Value) : Value := (choice.get "message").getD .null

/-- The delta of a choice of a chunk. -/
def delta (choice : Value) : Value := (choice.get "delta").getD .null

/-- The choices with an index, over all chunks. -/
def entries (i : ℕ) (chunks : List Value) : List Value :=
  (chunks.flatMap (·.itemsAt ["choices"])).filter fun c => c.indexAt ["index"] = i

/-- Texts that spell a text which may be missing: each is that text, and one of them is there. -/
def Spell (texts : List (Option String)) (whole : Option String) : Prop :=
  (∀ t ∈ texts, t = none ∨ t = whole) ∧ (whole ≠ none → whole ∈ texts)

/-- Fragments of one call: its id and its name in some of them, its arguments cut anyhow. -/
structure RendersCall (call : Value) (fragments : List Value) : Prop where
  some : fragments ≠ []
  id : Spell (fragments.map (·.textAt ["id"])) (call.textAt ["id"])
  name : Spell (fragments.map (·.textAt ["function", "name"])) (call.textAt ["function", "name"])
  arguments : String.join (fragments.map fun f => (f.textAt ["function", "arguments"]).getD "") =
    (call.textAt ["function", "arguments"]).getD ""

/-- Choices of chunks that render one choice: its texts cut anyhow, the fragments of its calls in any
interleaving, each under the index of its call, and one finish reason. -/
structure RendersChoice (choice : Value) (deltas : List Value) : Prop where
  content : String.join (deltas.map fun d => (d.textAt ["delta", "content"]).getD "") =
    (choice.textAt ["message", "content"]).getD ""
  reasoning : String.join (deltas.map fun d => givenReasoning (delta d)) =
    givenReasoning (message choice)
  indexed : ∀ f ∈ deltas.flatMap (·.itemsAt ["delta", "tool_calls"]),
    ∃ k < (choice.itemsAt ["message", "tool_calls"]).length, f.natAt ["index"] = some k
  call : ∀ k call, (choice.itemsAt ["message", "tool_calls"])[k]? = some call →
    RendersCall call ((deltas.flatMap (·.itemsAt ["delta", "tool_calls"])).filter fun f =>
      f.natAt ["index"] = some k)
  /-- The index of a call is one of 32 bits. -/
  few : (choice.itemsAt ["message", "tool_calls"]).length ≤ 2 ^ 32
  finish : ∃ reason, choice.textAt ["finish_reason"] = some reason ∧
    deltas.filterMap (·.textAt ["finish_reason"]) = [reason]

/-- The usage of an object or of a chunk, if it is not null. -/
def usageOf (value : Value) : Option Value := (value.get "usage").filter (· ≠ .null)

/-- **The chunks that stream an object**, its choices in any interleaving. -/
structure Renders (object : Value) (chunks : List Value) : Prop where
  first : ∃ c ∈ chunks.head?, c.textAt ["id"] = object.textAt ["id"] ∧
    c.textAt ["model"] = object.textAt ["model"]
  distinct : ((object.itemsAt ["choices"]).map (·.indexAt ["index"])).Nodup
  known : ∀ c ∈ chunks, ∀ d ∈ c.itemsAt ["choices"],
    ∃ choice ∈ object.itemsAt ["choices"], d.indexAt ["index"] = choice.indexAt ["index"]
  choice : ∀ choice ∈ object.itemsAt ["choices"],
    RendersChoice choice (entries (choice.indexAt ["index"]) chunks)
  usage : (chunks.filterMap usageOf).getLast? = usageOf object

/-- The same reasoning is hidden on both sides: all of it, or none. -/
def HiddenAlike (choice : Value) (deltas : List Value) : Prop :=
  if Hidden (message choice) then
    ∀ d ∈ deltas, givenReasoning (delta d) ≠ "" → Hidden (delta d)
  else ∀ d ∈ deltas, ¬ Hidden (delta d)

/-! ## The chunks of a choice -/

theorem forall_choiceChunks {choice : Value} {P : StreamChunk → Prop}
    (hthinking : ∀ text, ∀ c ∈ thinkingChunk (choice.indexAt ["index"]) text, P c)
    (hcontent : ∀ text, ∀ c ∈ contentChunk (choice.indexAt ["index"]) text, P c)
    (hcall : ∀ call, P (.toolCall (choice.indexAt ["index"]) call))
    (hfinish : ∀ reason, P (.finish (choice.indexAt ["index"]) reason)) :
    ∀ c ∈ choiceChunks choice, P c := by
  intro c hc
  simp only [choiceChunks, List.mem_append, List.mem_mapIdx, List.mem_singleton] at hc
  rcases hc with ((hc | hc) | ⟨i, hi, rfl⟩) | rfl
  · exact hthinking _ c hc
  · exact hcontent _ c hc
  · exact hcall _
  · exact hfinish _

theorem forall_deltaChunks {choice : Value} {P : StreamChunk → Prop}
    (hthinking : ∀ text, ∀ c ∈ thinkingChunk (choice.indexAt ["index"]) text, P c)
    (hcontent : ∀ text, ∀ c ∈ contentChunk (choice.indexAt ["index"]) text, P c)
    (hcall : ∀ call, P (.toolCall (choice.indexAt ["index"]) call))
    (hfinish : ∀ reason, P (.finish (choice.indexAt ["index"]) reason)) :
    ∀ c ∈ deltaChunks choice, P c := by
  intro c hc
  simp only [deltaChunks, List.mem_append, List.mem_map, Option.mem_toList,
    Option.map_eq_some_iff] at hc
  rcases hc with ((hc | hc) | ⟨call, -, rfl⟩) | ⟨reason, -, rfl⟩
  · exact hthinking _ c hc
  · exact hcontent _ c hc
  · exact hcall _
  · exact hfinish _

theorem index_choiceChunks (choice : Value) :
    ∀ c ∈ choiceChunks choice, c.index = some (choice.indexAt ["index"]) :=
  forall_choiceChunks (index_thinkingChunk _) (index_contentChunk _) (fun _ => rfl) fun _ => rfl

theorem index_deltaChunks (choice : Value) :
    ∀ c ∈ deltaChunks choice, c.index = some (choice.indexAt ["index"]) :=
  forall_deltaChunks (index_thinkingChunk _) (index_contentChunk _) (fun _ => rfl) fun _ => rfl

theorem plain_choiceChunks (choice : Value) : ∀ c ∈ choiceChunks choice, c.Plain :=
  forall_choiceChunks (plain_thinkingChunk _) (plain_contentChunk _) (fun _ => trivial)
    fun _ => trivial

theorem plain_deltaChunks (choice : Value) : ∀ c ∈ deltaChunks choice, c.Plain :=
  forall_deltaChunks (plain_thinkingChunk _) (plain_contentChunk _) (fun _ => trivial)
    fun _ => trivial

section

variable (choice : Value)

theorem text_choiceChunks :
    (gathered (choice.indexAt ["index"]) (choiceChunks choice)).text =
      (choice.textAt ["message", "content"]).getD "" := by
  have hcalls := text_eq_empty (choice.indexAt ["index"])
    ((choice.itemsAt ["message", "tool_calls"]).mapIdx fun i call =>
      .toolCall (choice.indexAt ["index"]) (functionDelta i call)) fun c hc => by
      obtain ⟨j, hj, rfl⟩ := List.mem_mapIdx.mp hc
      rfl
  simp [choiceChunks, gathered_append, gathered_thinkingChunk, gathered_contentChunk, hcalls,
    text_singleton, StreamChunk.textOf, Gathered.part]

theorem thinking_choiceChunks :
    (gathered (choice.indexAt ["index"]) (choiceChunks choice)).thinking =
      ((choice.get "message").bind readReasoning).getD "" := by
  have hcalls := thinking_eq_empty (choice.indexAt ["index"])
    ((choice.itemsAt ["message", "tool_calls"]).mapIdx fun i call =>
      .toolCall (choice.indexAt ["index"]) (functionDelta i call)) fun c hc => by
      obtain ⟨j, hj, rfl⟩ := List.mem_mapIdx.mp hc
      rfl
  simp [choiceChunks, gathered_append, gathered_thinkingChunk, gathered_contentChunk, hcalls,
    thinking_singleton, StreamChunk.thinkingOf, Gathered.part]

theorem fragments_choiceChunks (k : ℕ) :
    (choiceChunks choice).filterMap (StreamChunk.fragmentOf (choice.indexAt ["index"]) k) =
      ((choice.itemsAt ["message", "tool_calls"])[k]?.map (functionDelta k)).toList := by
  simp [choiceChunks, List.filterMap_append, fragments_mapIdx, List.filterMap_cons,
    StreamChunk.fragmentOf]

theorem finishes_choiceChunks :
    (choiceChunks choice).filterMap (StreamChunk.finishOf (choice.indexAt ["index"])) =
      [((choice.textAt ["finish_reason"]).map mapFinish).getD .stop] := by
  have hcalls : ((choice.itemsAt ["message", "tool_calls"]).mapIdx fun i call =>
      StreamChunk.toolCall (choice.indexAt ["index"]) (functionDelta i call)).filterMap
        (StreamChunk.finishOf (choice.indexAt ["index"])) = [] := by
    refine List.filterMap_eq_nil_iff.mpr fun c hc => ?_
    obtain ⟨j, hj, rfl⟩ := List.mem_mapIdx.mp hc
    rfl
  simp [choiceChunks, List.filterMap_append, hcalls, StreamChunk.finishOf]

theorem text_deltaChunks :
    (gathered (choice.indexAt ["index"]) (deltaChunks choice)).text =
      (choice.textAt ["delta", "content"]).getD "" := by
  have hcalls := text_eq_empty (choice.indexAt ["index"])
    ((choice.itemsAt ["delta", "tool_calls"]).map fun call =>
      .toolCall (choice.indexAt ["index"]) (functionDelta (call.indexAt ["index"]) call))
    (by simp [StreamChunk.textOf])
  cases hf : choice.textAt ["finish_reason"] <;>
    simp [deltaChunks, gathered_append, gathered_thinkingChunk, gathered_contentChunk, hcalls, hf,
      text_singleton, StreamChunk.textOf, Gathered.part]

theorem thinking_deltaChunks :
    (gathered (choice.indexAt ["index"]) (deltaChunks choice)).thinking =
      ((choice.get "delta").bind readReasoning).getD "" := by
  have hcalls := thinking_eq_empty (choice.indexAt ["index"])
    ((choice.itemsAt ["delta", "tool_calls"]).map fun call =>
      .toolCall (choice.indexAt ["index"]) (functionDelta (call.indexAt ["index"]) call))
    (by simp [StreamChunk.thinkingOf])
  cases hf : choice.textAt ["finish_reason"] <;>
    simp [deltaChunks, gathered_append, gathered_thinkingChunk, gathered_contentChunk, hcalls, hf,
      thinking_singleton, StreamChunk.thinkingOf, Gathered.part]

theorem fragments_deltaChunks (k : ℕ) :
    (deltaChunks choice).filterMap (StreamChunk.fragmentOf (choice.indexAt ["index"]) k) =
      ((choice.itemsAt ["delta", "tool_calls"]).filter fun f => f.indexAt ["index"] = k).map
        (functionDelta k) := by
  have hcalls (l : List Value) : (l.map fun call => StreamChunk.toolCall (choice.indexAt ["index"])
      (functionDelta (call.indexAt ["index"]) call)).filterMap
        (StreamChunk.fragmentOf (choice.indexAt ["index"]) k) =
      (l.filter fun f => f.indexAt ["index"] = k).map (functionDelta k) := by
    induction l with
    | nil => rfl
    | cons f l ih =>
      by_cases hk : f.indexAt ["index"] = k
      · rw [List.map_cons, List.filterMap_cons_some (b := functionDelta k f), ih,
          List.filter_cons_of_pos (by simpa using hk), List.map_cons]
        simp [StreamChunk.fragmentOf, functionDelta, hk]
      · rw [List.map_cons, List.filterMap_cons_none, ih,
          List.filter_cons_of_neg (by simpa using hk)]
        simp [StreamChunk.fragmentOf, functionDelta, hk]
  cases hf : choice.textAt ["finish_reason"] <;>
    simp [deltaChunks, List.filterMap_append, hcalls, hf, StreamChunk.fragmentOf]

theorem finishes_deltaChunks :
    (deltaChunks choice).filterMap (StreamChunk.finishOf (choice.indexAt ["index"])) =
      ((choice.textAt ["finish_reason"]).map mapFinish).toList := by
  have hcalls : ((choice.itemsAt ["delta", "tool_calls"]).map fun call =>
      StreamChunk.toolCall (choice.indexAt ["index"]) (functionDelta (call.indexAt ["index"])
        call)).filterMap (StreamChunk.finishOf (choice.indexAt ["index"])) = [] := by
    simp [List.filterMap_map, StreamChunk.finishOf]
  cases hf : choice.textAt ["finish_reason"] <;>
    simp [deltaChunks, List.filterMap_append, hcalls, hf, StreamChunk.finishOf]

end

/-! ## Streamed and collected -/

theorem Spell.getLast {α : Type} {l : List α} {f : α → Option String} {whole : Option String}
    (h : Spell (l.map f) whole) : (l.filterMap f).getLast? = whole := by
  cases whole with
  | none =>
    rw [List.filterMap_eq_nil_iff.mpr fun a ha => (h.1 _ (List.mem_map_of_mem ha)).elim id id]
    rfl
  | some w =>
    have hall : ∀ x ∈ l.filterMap f, x = w := by
      intro x hx
      obtain ⟨a, ha, hx⟩ := List.mem_filterMap.mp hx
      rcases h.1 _ (List.mem_map_of_mem ha) with hn | hw
      · rw [hn] at hx
        cases hx
      · exact Option.some.inj (hx.symm.trans hw)
    obtain ⟨a, ha, hw⟩ := List.mem_map.mp (h.2 (by simp))
    have hne : l.filterMap f ≠ [] := List.ne_nil_of_mem (List.mem_filterMap.mpr ⟨a, ha, hw⟩)
    rw [List.getLast?_eq_some_getLast hne, hall _ (List.getLast_mem hne)]

/-- The fragments of a call add up to the call. -/
theorem RendersCall.add_up {call : Value} {fragments : List Value} (h : RendersCall call fragments)
    (k : ℕ) : PartialToolCall.ofDeltas (fragments.map (functionDelta k)) =
      PartialToolCall.ofDeltas [functionDelta k call] := by
  have hid : ((fragments.map (functionDelta k)).filterMap ToolCallDelta.id).getLast? =
      call.textAt ["id"] := by
    rw [List.filterMap_map]
    exact h.id.getLast
  have hname : ((fragments.map (functionDelta k)).filterMap ToolCallDelta.name).getLast? =
      call.textAt ["function", "name"] := by
    rw [List.filterMap_map]
    exact h.name.getLast
  have harguments : String.join ((fragments.map (functionDelta k)).filterMap
      ToolCallDelta.arguments) = (call.textAt ["function", "arguments"]).getD "" := by
    rw [← h.arguments, ← Strings.join_filterMap, List.filterMap_map]
    rfl
  rw [PartialToolCall.ofDeltas, if_neg (by simpa using h.some), hid, hname, harguments]
  rw [PartialToolCall.ofDeltas_cons]
  rfl

section

variable {choice : Value} {deltas : List Value}

theorem read_eq (m : Value) :
    (readReasoning m).getD "" = if Hidden m then "" else givenReasoning m := by
  unfold readReasoning Hidden givenReasoning
  simp only [Value.textAt, Value.path_one]
  cases hr : m.get "reasoning" with
  | none => simp
  | some r =>
    cases hs : r.asStr with
    | some s => simp [hs]
    | none =>
      by_cases hc : ((m.get "reasoning_content").bind Value.asStr).getD "" = "" <;> simp [hs, hc]

/-- The reasoning is the same exactly if the same is hidden. -/
theorem RendersChoice.thinking_iff (h : RendersChoice choice deltas) :
    String.join (deltas.map fun d => (readReasoning (delta d)).getD "") =
        (readReasoning (message choice)).getD "" ↔ HiddenAlike choice deltas := by
  have hread (d : Value) : (readReasoning d).getD "" = givenReasoning d ↔ ¬ Hidden d := by
    rw [read_eq]
    split
    · rename_i hd
      exact ⟨fun heq => absurd heq.symm hd.2.2, fun hn => absurd hd hn⟩
    · simp_all
  unfold HiddenAlike
  split
  · rename_i hm
    rw [read_eq (message choice), if_pos hm, Strings.join_eq_empty, List.forall_mem_map]
    refine forall₂_congr fun d _ => ?_
    rw [read_eq]
    by_cases hd : Hidden (delta d) <;> simp [hd]
  · rename_i hm
    rw [(hread _).mpr hm, ← h.reasoning, Strings.join_kept fun d _ => ?_]
    · exact forall₂_congr fun d _ => hread _
    · rw [read_eq]
      split <;> simp

/-- The fragments under an index, whichever way the index is read. -/
theorem RendersChoice.fragments_eq (h : RendersChoice choice deltas) (k : ℕ) :
    (deltas.flatMap (·.itemsAt ["delta", "tool_calls"])).filter (fun f => f.indexAt ["index"] = k) =
      (deltas.flatMap (·.itemsAt ["delta", "tool_calls"])).filter fun f =>
        f.natAt ["index"] = some k := by
  refine List.filter_congr fun f hf => ?_
  obtain ⟨j, hj, hn⟩ := h.indexed f hf
  have hlt : j < 2 ^ 32 := Nat.lt_of_lt_of_le hj h.few
  rw [Value.indexAt, hn, Option.getD_some, Nat.mod_eq_of_lt hlt]
  simp

/-- Everything but the reasoning is streamed as it is collected. -/
theorem RendersChoice.same (h : RendersChoice choice deltas)
    (hindex : ∀ d ∈ deltas, d.indexAt ["index"] = choice.indexAt ["index"]) :
    (gathered (choice.indexAt ["index"]) (deltas.flatMap deltaChunks)).text =
        (gathered (choice.indexAt ["index"]) (choiceChunks choice)).text ∧
      (∀ k, (gathered (choice.indexAt ["index"]) (deltas.flatMap deltaChunks)).calls k =
        (gathered (choice.indexAt ["index"]) (choiceChunks choice)).calls k) ∧
      (gathered (choice.indexAt ["index"]) (deltas.flatMap deltaChunks)).finish =
        (gathered (choice.indexAt ["index"]) (choiceChunks choice)).finish := by
  refine ⟨?_, fun k => ?_, ?_⟩
  · rw [text_choiceChunks, ← h.content, gathered_flatMap, Gathered.text_sum, List.map_map]
    congr 1
    exact List.map_congr_left fun d hd => by
      rw [Function.comp_apply, ← hindex d hd, text_deltaChunks]
  · have hstreamed : (deltas.flatMap deltaChunks).filterMap
        (StreamChunk.fragmentOf (choice.indexAt ["index"]) k) =
        ((deltas.flatMap (·.itemsAt ["delta", "tool_calls"])).filter fun f =>
          f.natAt ["index"] = some k).map (functionDelta k) := by
      rw [← h.fragments_eq, List.filterMap_flatMap, List.filter_flatMap, List.map_flatMap]
      exact List.flatMap_congr fun d hd => by rw [← hindex d hd, fragments_deltaChunks]
    rw [gathered_calls, gathered_calls, fragments_choiceChunks, hstreamed]
    cases hcall : (choice.itemsAt ["message", "tool_calls"])[k]? with
    | some call => exact (h.call k call hcall).add_up k
    | none =>
      rw [List.filter_eq_nil_iff.mpr fun f hf hn => ?_]
      · rfl
      · obtain ⟨j, hj, hn'⟩ := h.indexed f hf
        cases (of_decide_eq_true hn).symm.trans hn'
        exact absurd hcall (by simp [hj])
  · obtain ⟨reason, hreason, hall⟩ := h.finish
    have hstreamed : (deltas.flatMap deltaChunks).filterMap
        (StreamChunk.finishOf (choice.indexAt ["index"])) = [mapFinish reason] := by
      have hmap : (deltas.filterMap (·.textAt ["finish_reason"])).map mapFinish =
          [mapFinish reason] := by rw [hall]; rfl
      rw [← hmap, List.filterMap_flatMap, List.map_filterMap, List.filterMap_eq_flatMap_toList]
      exact List.flatMap_congr fun d hd => by rw [← hindex d hd, finishes_deltaChunks]
    rw [gathered_finish, gathered_finish, hstreamed, finishes_choiceChunks, hreason]
    rfl

theorem thinking_deltas (deltas : List Value) {i : ℕ}
    (hindex : ∀ d ∈ deltas, d.indexAt ["index"] = i) :
    (gathered i (deltas.flatMap deltaChunks)).thinking =
      String.join (deltas.map fun d => (readReasoning (delta d)).getD "") := by
  have hdelta (d : Value) : (d.get "delta").bind readReasoning = readReasoning (delta d) := by
    unfold delta
    cases d.get "delta" <;> rfl
  rw [gathered_flatMap, Gathered.thinking_sum, List.map_map]
  congr 1
  exact List.map_congr_left fun d hd => by
    rw [Function.comp_apply, ← hindex d hd, thinking_deltaChunks, hdelta]

end

/-- The chunks of a choice of a collected object. -/
theorem ofChoice_collected (object : Value) (fallback : String) (i : ℕ) :
    ofChoice i (openaiToChunks object fallback) =
      ((object.itemsAt ["choices"]).filter fun c => c.indexAt ["index"] = i).flatMap
        choiceChunks := by
  have husage : ofChoice i ((object.get "usage").map fun usage =>
      StreamChunk.usage (openaiUsage usage)).toList = [] := by
    cases object.get "usage" <;> simp [ofChoice, StreamChunk.index]
  rw [openaiToChunks, ofChoice_append, ofChoice_append, husage, List.append_nil,
    ofChoice_flatMap index_choiceChunks, ofChoice_eq_nil (by simp [identity, StreamChunk.index]),
    List.nil_append]

/-- The chunks of a choice of a streamed object. -/
theorem ofChoice_streamed (fallback : String) (i : ℕ) (chunks : List Value) (seen : Bool) :
    ofChoice i (openaiStream fallback chunks seen) =
      (entries i chunks).flatMap deltaChunks := by
  induction chunks generalizing seen with
  | nil => rfl
  | cons c chunks ih =>
    have hstart : ofChoice i (if seen then [] else [identity c fallback]) = [] := by
      refine ofChoice_eq_nil fun x hx => ?_
      cases seen with
      | true => cases hx
      | false => rw [List.mem_singleton.mp hx]; simp [identity, StreamChunk.index]
    have husage : ofChoice i ((openaiChunkUsage c).map StreamChunk.usage).toList = [] := by
      cases openaiChunkUsage c <;> simp [ofChoice, StreamChunk.index]
    have hentries : entries i (c :: chunks) =
        ((c.itemsAt ["choices"]).filter fun d => d.indexAt ["index"] = i) ++ entries i chunks := by
      rw [entries, List.flatMap_cons, List.filter_append]
      rfl
    rw [openaiStream, openaiChunkToCanonical, ofChoice_append, ih, ofChoice_append,
      ofChoice_append, hstart, husage, ofChoice_flatMap index_deltaChunks, hentries,
      List.flatMap_append, List.append_nil, List.nil_append]

/-- The identities that go out. -/
theorem opened_streamed (fallback : String) (chunks : List Value) (seen : Bool) :
    (openaiStream fallback chunks seen).filterMap StreamChunk.opened =
      if seen then [] else (chunks.head?.map fun c =>
        ((c.textAt ["id"]).getD "", (c.textAt ["model"]).getD fallback)).toList := by
  induction chunks generalizing seen with
  | nil => cases seen <;> rfl
  | cons c chunks ih =>
    have hchoices : ((c.itemsAt ["choices"]).flatMap deltaChunks).filterMap StreamChunk.opened =
        [] := by
      refine List.filterMap_eq_nil_iff.mpr fun x hx => ?_
      obtain ⟨d, -, hx⟩ := List.mem_flatMap.mp hx
      exact opened_of_index (index_deltaChunks d x hx)
    rw [openaiStream, openaiChunkToCanonical, List.filterMap_append, ih]
    cases seen <;> cases openaiChunkUsage c <;>
      simp [hchoices, List.filterMap_cons, identity, StreamChunk.opened]

/-- The usages that go out. -/
theorem reported_streamed (fallback : String) (chunks : List Value) (seen : Bool) :
    (openaiStream fallback chunks seen).filterMap StreamChunk.reported =
      (chunks.filterMap usageOf).map openaiUsage := by
  induction chunks generalizing seen with
  | nil => rfl
  | cons c chunks ih =>
    have hchoices : ((c.itemsAt ["choices"]).flatMap deltaChunks).filterMap StreamChunk.reported =
        [] := by
      refine List.filterMap_eq_nil_iff.mpr fun x hx => ?_
      obtain ⟨d, -, hx⟩ := List.mem_flatMap.mp hx
      exact reported_of_index (index_deltaChunks d x hx)
    have husage : openaiChunkUsage c = (usageOf c).map openaiUsage := by
      unfold openaiChunkUsage usageOf
      cases c.get "usage" with
      | none => rfl
      | some u => cases u <;> rfl
    rw [openaiStream, openaiChunkToCanonical, List.filterMap_append, ih, husage]
    cases seen <;> cases hu : usageOf c <;>
      simp [hchoices, List.filterMap_cons, identity, StreamChunk.reported, hu]

/-- A null usage counts as no usage. -/
theorem usage_collected (object : Value) (fallback : String) :
    (lastUsage (openaiToChunks object fallback)).getD .zero =
      ((usageOf object).map openaiUsage).getD .zero := by
  have hchoices : ((object.itemsAt ["choices"]).flatMap choiceChunks).filterMap
      StreamChunk.reported = [] := by
    refine List.filterMap_eq_nil_iff.mpr fun x hx => ?_
    obtain ⟨d, -, hx⟩ := List.mem_flatMap.mp hx
    exact reported_of_index (index_choiceChunks d x hx)
  rw [lastUsage, openaiToChunks, List.filterMap_append, List.filterMap_append, hchoices]
  unfold usageOf
  cases object.get "usage" with
  | none => rfl
  | some u => cases u <;> rfl

theorem opened_collected (object : Value) (fallback : String) :
    (openaiToChunks object fallback).filterMap StreamChunk.opened =
      [((object.textAt ["id"]).getD "", (object.textAt ["model"]).getD fallback)] := by
  have hchoices : ((object.itemsAt ["choices"]).flatMap choiceChunks).filterMap
      StreamChunk.opened = [] := by
    refine List.filterMap_eq_nil_iff.mpr fun x hx => ?_
    obtain ⟨d, -, hx⟩ := List.mem_flatMap.mp hx
    exact opened_of_index (index_choiceChunks d x hx)
  rw [openaiToChunks, List.filterMap_append, List.filterMap_append, hchoices]
  cases object.get "usage" <;> rfl

/-- Reasoning without a signature is collected as one part, or none. -/
theorem thinkingParts_inj {a b : String} :
    Collected.thinkingParts (some (a, none)) (some []) =
      Collected.thinkingParts (some (b, none)) (some []) ↔ a = b := by
  by_cases ha : a = "" <;> by_cases hb : b = "" <;>
    simp [Collected.thinkingParts, ha, hb, eq_comm]

section

variable {object : Value} {chunks : List Value}

/-- A choice is collected alike exactly if the same reasoning is hidden. -/
theorem Renders.choice_iff (hr : Renders object chunks) (fallback : String) {choice : Value}
    (hc : choice ∈ object.itemsAt ["choices"]) :
    ((openaiStream fallback chunks false).foldl Collected.step .empty).choice
        (choice.indexAt ["index"]) =
      ((openaiToChunks object fallback).foldl Collected.step .empty).choice
        (choice.indexAt ["index"]) ↔
    HiddenAlike choice (entries (choice.indexAt ["index"]) chunks) := by
  have hrc := hr.choice choice hc
  have hindex : ∀ d ∈ entries (choice.indexAt ["index"]) chunks,
      d.indexAt ["index"] = choice.indexAt ["index"] :=
    fun d hd => of_decide_eq_true (List.mem_filter.mp hd).2
  have hstreamed : gathered (choice.indexAt ["index"]) (openaiStream fallback chunks false) =
      gathered (choice.indexAt ["index"])
        ((entries (choice.indexAt ["index"]) chunks).flatMap deltaChunks) := by
    rw [← gathered_ofChoice, ofChoice_streamed]
  have hcollected : gathered (choice.indexAt ["index"]) (openaiToChunks object fallback) =
      gathered (choice.indexAt ["index"]) (choiceChunks choice) := by
    rw [← gathered_ofChoice, ofChoice_collected, Folds.filter_key hr.distinct hc,
      List.flatMap_singleton]
  have hplain : ∀ c ∈ (entries (choice.indexAt ["index"]) chunks).flatMap deltaChunks, c.Plain :=
    fun c hmem => by
      obtain ⟨d, -, hd⟩ := List.mem_flatMap.mp hmem
      exact plain_deltaChunks d c hd
  have hthinking : (gathered (choice.indexAt ["index"]) (openaiStream fallback chunks false)).thinking =
        (gathered (choice.indexAt ["index"]) (openaiToChunks object fallback)).thinking ↔
      HiddenAlike choice (entries (choice.indexAt ["index"]) chunks) := by
    have hmessage : (choice.get "message").bind readReasoning = readReasoning (message choice) := by
      unfold message
      cases choice.get "message" <;> rfl
    rw [hstreamed, hcollected, thinking_deltas _ hindex, thinking_choiceChunks, hmessage]
    exact hrc.thinking_iff
  rw [← hthinking]
  constructor
  · intro heq
    have hparts := congrArg Choice.thinking heq
    obtain ⟨-, hs, hred, -⟩ := gathered_plain (choice.indexAt ["index"]) hplain
    obtain ⟨-, hs', hred', -⟩ := gathered_plain (choice.indexAt ["index"]) (plain_choiceChunks choice)
    rw [choice_thinking, choice_thinking, hstreamed, hcollected, hs, hs', hred, hred',
      thinkingParts_inj] at hparts
    rw [hstreamed, hcollected, hparts]
  · intro heq
    rw [hstreamed, hcollected] at heq
    obtain ⟨htext, hcalls, hfinish⟩ := hrc.same hindex
    refine choice_eq_of_gathered ?_
    rw [hstreamed, hcollected]
    exact gathered_eq_of_plain hplain (plain_choiceChunks choice) htext heq hcalls hfinish

/-- Both streams have the same choices and open with the same identity. -/
theorem Renders.sameFrame (hr : Renders object chunks) (fallback : String) :
    SameFrame (openaiStream fallback chunks false) (openaiToChunks object fallback) := by
  refine ⟨?_, fun i => ?_⟩
  · obtain ⟨c, hc, hid, hmodel⟩ := hr.first
    rw [lastStart, lastStart, opened_streamed, opened_collected, Option.mem_def.mp hc, hid.symm,
      hmodel.symm]
    rfl
  · rw [ofChoice_streamed, ofChoice_collected]
    by_cases hi : ∃ choice ∈ object.itemsAt ["choices"], choice.indexAt ["index"] = i
    · obtain ⟨choice, hc, rfl⟩ := hi
      obtain ⟨reason, -, hall⟩ := (hr.choice choice hc).finish
      obtain ⟨d, hd, hf⟩ := List.mem_filterMap.mp
        (show reason ∈ _ from hall ▸ List.mem_singleton_self reason)
      rw [Folds.filter_key hr.distinct hc]
      refine ⟨fun _ => by simp [choiceChunks], fun _ => ?_⟩
      refine List.ne_nil_of_mem (a := .finish (d.indexAt ["index"]) (mapFinish reason))
        (List.mem_flatMap.mpr ⟨d, hd, ?_⟩)
      simp [deltaChunks, hf]
    · have hnone : entries i chunks = [] := by
        refine List.filter_eq_nil_iff.mpr fun d hd hindex => hi ?_
        obtain ⟨c, hc, hdc⟩ := List.mem_flatMap.mp hd
        obtain ⟨choice, hmem, heq⟩ := hr.known c hc d hdc
        exact ⟨choice, hmem, heq ▸ of_decide_eq_true hindex⟩
      rw [hnone, List.filter_eq_nil_iff.mpr fun c hc hindex => hi ⟨c, hc, of_decide_eq_true hindex⟩]
      simp

end

/-- **A streamed object is collected like the whole one exactly if, choice by choice, the same
reasoning is hidden.** -/
theorem openai_streamed_iff {object : Value} {chunks : List Value} (hr : Renders object chunks)
    (fallback : String) :
    collectChunks (openaiStream fallback chunks false) =
        collectChunks (openaiToChunks object fallback) ↔
      ∀ choice ∈ object.itemsAt ["choices"],
        HiddenAlike choice (entries (choice.indexAt ["index"]) chunks) := by
  have hframe := hr.sameFrame fallback
  have husage : (lastUsage (openaiStream fallback chunks false)).getD .zero =
      (lastUsage (openaiToChunks object fallback)).getD .zero := by
    rw [usage_collected, lastUsage, reported_streamed, List.getLast?_map, hr.usage]
  rw [hframe.collectChunks_iff, and_iff_right husage]
  constructor
  · intro hall choice hc
    refine (hr.choice_iff fallback hc).mp (hall _ ?_)
    rw [hframe.occur, ofChoice_collected, Folds.filter_key hr.distinct hc]
    simp [choiceChunks]
  · intro hall i hi
    rw [hframe.occur, ofChoice_collected] at hi
    obtain ⟨x, hx⟩ := List.exists_mem_of_ne_nil _ hi
    obtain ⟨choice, hc, -⟩ := List.mem_flatMap.mp hx
    obtain ⟨hmem, hindex⟩ := List.mem_filter.mp hc
    rw [← of_decide_eq_true hindex]
    exact (hr.choice_iff fallback hmem).mpr (hall choice hmem)

end OpenaiWire

section

open OpenaiWire Value

/-- An object of one answer and the reasoning before it. -/
def openaiAnswer : Value := obj [("id", string "o"), ("choices", array [obj [("index", nat 0),
  ("message", obj [("content", string "hi"), ("reasoning_content", string "why")]),
  ("finish_reason", string "stop")]])]

/-- The chunks that stream it, the reasoning next to a null `reasoning`. -/
def openaiChunks : List Value := [
  obj [("id", string "o"), ("choices", array [obj [("index", nat 0), ("finish_reason", null),
    ("delta", obj [("reasoning", null), ("reasoning_content", string "why")])]])],
  obj [("id", string "o"), ("choices", array [obj [("index", nat 0), ("finish_reason", null),
    ("delta", obj [("content", string "h")])]])],
  obj [("id", string "o"), ("choices", array [obj [("index", nat 0), ("finish_reason", string "stop"),
    ("delta", obj [("content", string "i")])]])]]

example : ∀ chunk ∈ openaiChunks, chunk.textAt ["id"] = openaiAnswer.textAt ["id"] := by
  decide +kernel

theorem openaiAnswer_renders : Renders openaiAnswer openaiChunks := by
  refine ⟨⟨_, rfl, by decide +kernel, by decide +kernel⟩, by decide +kernel, by decide +kernel,
    fun choice hc => ?_, by decide +kernel⟩
  have hone : openaiAnswer.itemsAt ["choices"] = [obj [("index", nat 0),
      ("message", obj [("content", string "hi"), ("reasoning_content", string "why")]),
      ("finish_reason", string "stop")]] := by decide +kernel
  rw [hone, List.mem_singleton] at hc
  subst hc
  refine ⟨by decide +kernel, by decide +kernel, by decide +kernel, fun k call hcall => ?_,
    by decide +kernel, "stop", by decide +kernel, by decide +kernel⟩
  have hnone : (obj [("index", nat 0), ("message", obj [("content", string "hi"),
      ("reasoning_content", string "why")]), ("finish_reason", string "stop")]).itemsAt
        ["message", "tool_calls"] = [] := by decide +kernel
  rw [hnone] at hcall
  cases hcall

theorem openai_streamed_iff_answer :
    collectChunks (openaiStream "deepseek-reasoner" openaiChunks false) =
        collectChunks (openaiToChunks openaiAnswer "deepseek-reasoner") ↔
      ∀ choice ∈ openaiAnswer.itemsAt ["choices"],
        HiddenAlike choice (entries (choice.indexAt ["index"]) openaiChunks) :=
  openai_streamed_iff openaiAnswer_renders "deepseek-reasoner"

/-- The reasoning is collected, and lost when it is streamed. -/
theorem openai_reasoning_lost :
    Renders openaiAnswer openaiChunks ∧
      collectChunks (openaiStream "deepseek-reasoner" openaiChunks false) ≠
        collectChunks (openaiToChunks openaiAnswer "deepseek-reasoner") ∧
      (collectChunks (openaiStream "deepseek-reasoner" openaiChunks false)).choices.map
        Choice.thinking = [[]] ∧
      (collectChunks (openaiToChunks openaiAnswer "deepseek-reasoner")).choices.map
        Choice.thinking = [[.thinking "why" none]] :=
  ⟨openaiAnswer_renders, by decide +kernel, by decide +kernel, by decide +kernel⟩

end

end Llmleaf
