import Llmleaf.Providers.Mapper
import Llmleaf.Providers.Usage

/-!
# Cohere

The mappers of a collected `v2/chat` response and of the events of a streamed one. The collected one
reads integer token counts under `meta`, the streamed one counts of any number under `usage`.

- `cohereToChunks`, `cohereEventToChunks`: the mappers.
- `Cohere.Renders`: the events with which a response is streamed, its texts and arguments cut anyhow.
- **Result** (`cohere_streamed_iff`): streaming changes nothing exactly if the report has no tokens
  that one of the two would count.
-/

namespace Llmleaf

namespace Cohere

/-- The finish reasons of the upstream. -/
def mapFinishReason (reason : String) : FinishReason :=
  if reason = "MAX_TOKENS" then .length
  else if reason = "TOOL_CALL" then .toolCalls
  else if reason = "ERROR" ∨ reason = "TIMEOUT" then .error
  else .stop

/-- A token count of any number, cut to an unsigned integer of 64 bits. -/
def tokenCount (value : Option Value) : ℕ :=
  ((value.bind Value.asU64).or ((value.bind Value.asF64).map fun q =>
    min q.floor.toNat (2 ^ 64 - 1))).getD 0

/-- A report of prompt and completion tokens only. -/
def tokens (prompt completion : ℕ) : Usage := ⟨prompt, completion, prompt + completion, none, 0, 0⟩

end Cohere

open Cohere

/-- A collected response. -/
def cohereToChunks (value : Value) (fallbackModel : String) : List StreamChunk :=
  [.start ((value.textAt ["id"]).getD "") fallbackModel] ++
  (value.itemsAt ["message", "content"]).flatMap (fun block =>
    contentChunk 0 (block.textAt ["text"])) ++
  (value.itemsAt ["message", "tool_calls"]).mapIdx (fun i call =>
    .toolCall 0 (functionDelta i call)) ++
  [.finish 0 (((value.textAt ["finish_reason"]).map mapFinishReason).getD .stop)] ++
  match value.path ["meta", "tokens"] with
  | some report =>
    [.usage (tokens ((report.natAt ["input_tokens"]).getD 0)
      ((report.natAt ["output_tokens"]).getD 0))]
  | none => []

/-- An event of a streamed response; the state is the model that was asked for. -/
def cohereEventToChunks (event : Value) (model : String) :
    Except ModelError (List StreamChunk × String) :=
  match event.textAt ["type"] with
  | some "message-start" => .ok ([.start ((event.textAt ["id"]).getD "") model], model)
  | some "content-delta" =>
    .ok (contentChunk 0 (event.textAt ["delta", "message", "content", "text"]), model)
  | some "tool-call-start" =>
    let index := event.indexAt ["index"]
    let call := (event.path ["delta", "message", "tool_calls"]).getD .null
    let delta := functionDelta index call
    .ok ([.toolCall 0 { delta with arguments := delta.arguments.filter (· ≠ "") }], model)
  | some "tool-call-delta" =>
    let index := event.indexAt ["index"]
    match event.textAt ["delta", "message", "tool_calls", "function", "arguments"] with
    | some arguments => .ok ([.toolCall 0 ⟨index, none, none, some arguments⟩], model)
    | none => .ok ([], model)
  | some "message-end" =>
    let delta := (event.get "delta").getD .null
    let reason := ((delta.textAt ["finish_reason"]).map mapFinishReason).getD .stop
    .ok ([.finish 0 reason] ++
      (match delta.path ["usage", "tokens"] with
      | some report =>
        [.usage (tokens (tokenCount (report.get "input_tokens"))
          (tokenCount (report.get "output_tokens")))]
      | none => []), model)
  | some "error" =>
    let message := (event.get "message").or (event.path ["error", "message"])
    .error (.upstream 500 ((message.bind Value.asStr).getD "Cohere stream error"))
  | _ => .ok ([], model)

namespace Cohere

/-! ## Renderings -/

/-- The type of an event. -/
def kind (event : Value) : Option String := event.textAt ["type"]

/-- The visible text that an event adds. -/
def deltaText (event : Value) : String :=
  if kind event = some "content-delta" then
    (event.textAt ["delta", "message", "content", "text"]).getD ""
  else ""

/-- The visible text of a response. -/
def visibleText (object : Value) : String :=
  String.join ((object.itemsAt ["message", "content"]).map fun block =>
    (block.textAt ["text"]).getD "")

/-- The event opens or continues a tool call. -/
def isCall (event : Value) : Bool :=
  kind event = some "tool-call-start" ∨ kind event = some "tool-call-delta"

/-- The events of the call with an index, in order. -/
def ofIndex (k : ℕ) (events : List Value) : List Value :=
  events.filter fun e => isCall e ∧ e.natAt ["index"] = some k

/-- Events that stream one call: a start that names it, and its arguments, cut anyhow. -/
structure RendersCall (call start : Value) (deltas : List Value) : Prop where
  starts : kind start = some "tool-call-start"
  continues : ∀ e ∈ deltas, kind e = some "tool-call-delta"
  id : start.textAt ["delta", "message", "tool_calls", "id"] = call.textAt ["id"]
  name : start.textAt ["delta", "message", "tool_calls", "function", "name"] =
    call.textAt ["function", "name"]
  arguments : (start.textAt ["delta", "message", "tool_calls", "function", "arguments"]).getD "" ++
      String.join (deltas.filterMap
        (·.textAt ["delta", "message", "tool_calls", "function", "arguments"])) =
    (call.textAt ["function", "arguments"]).getD ""

/-- **The events that stream a response**: its id, its texts cut anyhow, the events of each call
under the index of the call, and its finish reason; block boundaries and the like may stand
anywhere between. -/
structure Renders (object start : Value) (middle : List Value) (last : Value) : Prop where
  starts : kind start = some "message-start"
  id : start.textAt ["id"] = object.textAt ["id"]
  inner : ∀ e ∈ middle, kind e ≠ some "message-start" ∧ kind e ≠ some "message-end" ∧
    kind e ≠ some "error"
  text : String.join (middle.map deltaText) = visibleText object
  indexed : ∀ e ∈ middle, isCall e → ∃ k < (object.itemsAt ["message", "tool_calls"]).length,
    e.natAt ["index"] = some k
  call : ∀ k call, (object.itemsAt ["message", "tool_calls"])[k]? = some call →
    ∃ start deltas, ofIndex k middle = start :: deltas ∧ RendersCall call start deltas
  /-- The index of a call is one of 32 bits. -/
  few : (object.itemsAt ["message", "tool_calls"]).length ≤ 2 ^ 32
  ends : kind last = some "message-end"
  finish : last.textAt ["delta", "finish_reason"] = object.textAt ["finish_reason"]

/-- Where a report of tokens is attached. -/
inductive Place where
  | atUsage
  | atMeta
  deriving DecidableEq

/-- The field of a place. -/
def Place.key : Place → String
  | atUsage => "usage"
  | atMeta => "meta"

/-- The other place. -/
def Place.other : Place → Place
  | atUsage => atMeta
  | atMeta => atUsage

/-- One report, attached in the same place to the response and to its last event. -/
structure Attached (object last : Value) (place : Place) (report : Value) : Prop where
  collected : object.get place.key = some report
  streamed : last.path ["delta", place.key] = some report
  collectedOther : object.get place.other.key = none
  streamedOther : last.path ["delta", place.other.key] = none

/-- The count that the mapper which looks in a place reads in a report. -/
def Place.count (place : Place) (report : Value) (counter : String) : ℕ :=
  match place with
  | atUsage => tokenCount (report.path ["tokens", counter])
  | atMeta => (report.natAt ["tokens", counter]).getD 0

/-! ## The chunks of a rendering -/

/-- The chunks of an event between the first and the last. -/
def innerChunks (event : Value) : List StreamChunk :=
  match event.textAt ["type"] with
  | some "content-delta" => contentChunk 0 (event.textAt ["delta", "message", "content", "text"])
  | some "tool-call-start" =>
    let call := (event.path ["delta", "message", "tool_calls"]).getD .null
    let delta := functionDelta (event.indexAt ["index"]) call
    [.toolCall 0 { delta with arguments := delta.arguments.filter (· ≠ "") }]
  | some "tool-call-delta" =>
    match event.textAt ["delta", "message", "tool_calls", "function", "arguments"] with
    | some arguments => [.toolCall 0 ⟨event.indexAt ["index"], none, none, some arguments⟩]
    | none => []
  | _ => []

theorem event_inner {event : Value} (h : kind event ≠ some "message-start" ∧
    kind event ≠ some "message-end" ∧ kind event ≠ some "error") (model : String) :
    cohereEventToChunks event model = .ok (innerChunks event, model) := by
  unfold kind at h
  unfold cohereEventToChunks innerChunks
  split <;> simp_all
  split <;> rfl

theorem inner_text (event : Value) :
    (gathered 0 (innerChunks event)).text = deltaText event := by
  unfold innerChunks deltaText kind
  split <;> simp_all [gathered_contentChunk, Gathered.part, text_singleton, StreamChunk.textOf,
    gathered_nil]
  split <;> simp [gathered_nil, text_singleton, StreamChunk.textOf]

/-- A chunk of a text, of a call or of the finish of the choice zero. -/
def Simple : StreamChunk → Prop
  | .content index _ | .toolCall index _ | .finish index _ => index = 0
  | _ => False

theorem Simple.plain {c : StreamChunk} (h : Simple c) : c.Plain := by
  cases c <;> trivial

theorem Simple.index {c : StreamChunk} (h : Simple c) : c.index = some 0 := by
  cases c <;> first | exact h.elim | exact congrArg some h

theorem Simple.thinkingOf {c : StreamChunk} (h : Simple c) : c.thinkingOf 0 = none := by
  cases c <;> first | rfl | exact h.elim

theorem simple_contentChunk (text : Option String) : ∀ c ∈ contentChunk 0 text, Simple c := by
  unfold contentChunk
  split
  · split <;> simp [Simple]
  · simp

theorem simple_inner (event : Value) : ∀ c ∈ innerChunks event, Simple c := by
  unfold innerChunks
  split
  · exact simple_contentChunk _
  · simp [Simple]
  · split <;> simp [Simple]
  · simp

/-- An event of another call, or of none, adds no fragment. -/
theorem inner_other {event : Value} {k : ℕ}
    (hindexed : isCall event → ∃ j < 2 ^ 32, event.natAt ["index"] = some j)
    (h : ¬ (isCall event ∧ event.natAt ["index"] = some k)) :
    (innerChunks event).filterMap (StreamChunk.fragmentOf 0 k) = [] := by
  have hcall : isCall event → event.indexAt ["index"] ≠ k := by
    intro hc hk
    obtain ⟨j, hj, hn⟩ := hindexed hc
    rw [Value.indexAt, hn, Option.getD_some, Nat.mod_eq_of_lt hj] at hk
    exact h ⟨hc, hk ▸ hn⟩
  unfold innerChunks contentChunk
  split
  · split
    · split <;> simp [StreamChunk.fragmentOf]
    · rfl
  · have hne := hcall (by simp_all [isCall, kind])
    simp [StreamChunk.fragmentOf, functionDelta, hne]
  · have hne := hcall (by simp_all [isCall, kind])
    split <;> simp [StreamChunk.fragmentOf, hne]
  · rfl

/-- The events of a call add up to the call. -/
theorem inner_call {call start : Value} {deltas : List Value} {k : ℕ} (hk : k < 2 ^ 32)
    (h : RendersCall call start deltas)
    (hindex : ∀ e ∈ start :: deltas, e.natAt ["index"] = some k) :
    PartialToolCall.ofDeltas (((start :: deltas).flatMap innerChunks).filterMap
      (StreamChunk.fragmentOf 0 k)) =
    some ⟨call.textAt ["id"], call.textAt ["function", "name"],
      (call.textAt ["function", "arguments"]).getD ""⟩ := by
  have hat {e : Value} (he : e ∈ start :: deltas) : e.indexAt ["index"] = k := by
    rw [Value.indexAt, hindex e he, Option.getD_some, Nat.mod_eq_of_lt hk]
  -- the first fragment names the call
  have hstart : (innerChunks start).filterMap (StreamChunk.fragmentOf 0 k) =
      [⟨k, call.textAt ["id"], call.textAt ["function", "name"],
        (start.textAt ["delta", "message", "tool_calls", "function", "arguments"]).filter
          (· ≠ "")⟩] := by
    have hs := h.starts
    unfold kind at hs
    have hid := h.id
    have hname := h.name
    simp only [Value.textAt] at hid hname
    unfold innerChunks
    rw [hs]
    simp [StreamChunk.fragmentOf, functionDelta, hat List.mem_cons_self, Value.textAt,
      Value.path_getD, hid, hname]
  -- every other one is a piece of its arguments
  have hdeltas : (deltas.flatMap innerChunks).filterMap (StreamChunk.fragmentOf 0 k) =
      (deltas.filterMap (·.textAt ["delta", "message", "tool_calls", "function",
        "arguments"])).map fun a => ⟨k, none, none, some a⟩ := by
    have hall : ∀ e ∈ deltas, kind e = some "tool-call-delta" ∧ e.indexAt ["index"] = k :=
      fun e he => ⟨h.continues e he, hat (List.mem_cons_of_mem _ he)⟩
    clear h hindex hat hstart
    induction deltas with
    | nil => rfl
    | cons e deltas ih =>
      obtain ⟨hkind, he⟩ := hall e List.mem_cons_self
      unfold kind at hkind
      rw [List.flatMap_cons, List.filterMap_append,
        ih fun e' he' => hall e' (List.mem_cons_of_mem _ he'), List.filterMap_cons]
      unfold innerChunks
      rw [hkind]
      cases e.textAt ["delta", "message", "tool_calls", "function", "arguments"] with
      | none => rfl
      | some a => simp [StreamChunk.fragmentOf, he]
  rw [List.flatMap_cons, List.filterMap_append, hstart, hdeltas, List.singleton_append,
    PartialToolCall.ofDeltas_arguments, ← h.arguments]
  congr 3
  cases start.textAt ["delta", "message", "tool_calls", "function", "arguments"] with
  | none => rfl
  | some a => by_cases ha : a = "" <;> simp [Option.filter, ha]

/-! ## Streamed and collected -/

/-- The chunks of a collected response between its identity and its report. -/
def collectedBody (object : Value) : List StreamChunk :=
  (object.itemsAt ["message", "content"]).flatMap (fun block =>
    contentChunk 0 (block.textAt ["text"])) ++
  (object.itemsAt ["message", "tool_calls"]).mapIdx (fun i call =>
    .toolCall 0 (functionDelta i call)) ++
  [.finish 0 (((object.textAt ["finish_reason"]).map mapFinishReason).getD .stop)]

/-- The chunks of a streamed response between its identity and its report. -/
def streamedBody (object : Value) (middle : List Value) : List StreamChunk :=
  middle.flatMap innerChunks ++
  [.finish 0 (((object.textAt ["finish_reason"]).map mapFinishReason).getD .stop)]

theorem simple_collected (object : Value) : ∀ c ∈ collectedBody object, Simple c := by
  intro c hc
  simp only [collectedBody, List.mem_append, List.mem_singleton, List.mem_flatMap,
    List.mem_mapIdx] at hc
  rcases hc with (⟨block, -, hc⟩ | ⟨j, hj, rfl⟩) | rfl
  · exact simple_contentChunk _ c hc
  · rfl
  · rfl

theorem simple_streamed (object : Value) (middle : List Value) :
    ∀ c ∈ streamedBody object middle, Simple c := by
  intro c hc
  simp only [streamedBody, List.mem_append, List.mem_singleton, List.mem_flatMap] at hc
  rcases hc with ⟨e, -, hc⟩ | rfl
  · exact simple_inner e c hc
  · rfl

section

variable {object start last : Value} {middle : List Value}

/-- The events of a call, among all events between the first and the last. -/
theorem Renders.fragments (h : Renders object start middle last) (k : ℕ) :
    (middle.flatMap innerChunks).filterMap (StreamChunk.fragmentOf 0 k) =
      ((ofIndex k middle).flatMap innerChunks).filterMap (StreamChunk.fragmentOf 0 k) := by
  rw [List.filterMap_flatMap, List.filterMap_flatMap, ofIndex]
  refine (Folds.flatMap_filter fun e he hp => inner_other (fun hc => ?_) ?_).symm
  · obtain ⟨j, hj, hn⟩ := h.indexed e he hc
    exact ⟨j, Nat.lt_of_lt_of_le hj h.few, hn⟩
  · simpa using hp

/-- The calls are the same. -/
theorem Renders.calls (h : Renders object start middle last) (k : ℕ) :
    (gathered 0 (streamedBody object middle)).calls k =
      (gathered 0 (collectedBody object)).calls k := by
  have hcontent : ((object.itemsAt ["message", "content"]).flatMap fun block =>
      contentChunk 0 (block.textAt ["text"])).filterMap (StreamChunk.fragmentOf 0 k) = [] := by
    rw [List.filterMap_flatMap, List.flatMap_eq_nil_iff]
    intro block _
    unfold contentChunk
    split
    · split <;> simp [StreamChunk.fragmentOf]
    · rfl
  have hcollected : (collectedBody object).filterMap (StreamChunk.fragmentOf 0 k) =
      ((object.itemsAt ["message", "tool_calls"])[k]?.map (functionDelta k)).toList := by
    simp only [collectedBody, List.filterMap_append, hcontent, fragments_mapIdx]
    simp [StreamChunk.fragmentOf]
  have hstreamed : (streamedBody object middle).filterMap (StreamChunk.fragmentOf 0 k) =
      ((ofIndex k middle).flatMap innerChunks).filterMap (StreamChunk.fragmentOf 0 k) := by
    simp only [streamedBody, List.filterMap_append, h.fragments]
    simp [StreamChunk.fragmentOf]
  rw [gathered_calls, gathered_calls, hcollected, hstreamed]
  cases hcall : (object.itemsAt ["message", "tool_calls"])[k]? with
  | none =>
    have hnil : ofIndex k middle = [] := by
      refine List.filter_eq_nil_iff.mpr fun e he hp => ?_
      obtain ⟨hc, hn⟩ := of_decide_eq_true hp
      obtain ⟨j, hj, hn'⟩ := h.indexed e he hc
      cases hn.symm.trans hn'
      exact absurd hcall (by simp [hj])
    rw [hnil]
    rfl
  | some call =>
    obtain ⟨first, deltas, hindex, hr⟩ := h.call k call hcall
    have hk : k < 2 ^ 32 := by
      have := (List.getElem?_eq_some_iff.mp hcall).1
      have := h.few
      omega
    have hat : ∀ e ∈ first :: deltas, e.natAt ["index"] = some k := fun e he => by
      rw [← hindex] at he
      exact (of_decide_eq_true (List.mem_filter.mp he).2).2
    rw [hindex, inner_call hk hr hat]
    simp [PartialToolCall.ofDeltas, functionDelta]
    cases call.textAt ["function", "arguments"] <;> simp [String.join]

/-- **Everything but the report is the same.** -/
theorem Renders.gathered_eq (h : Renders object start middle last) :
    gathered 0 (streamedBody object middle) =
      gathered 0 (collectedBody object) := by
  have hthinking {chunks : List StreamChunk} (hs : ∀ c ∈ chunks, Simple c) :
      (gathered 0 chunks).thinking = "" := by
    rw [gathered_thinking, List.filterMap_eq_nil_iff.mpr fun c hc => (hs c hc).thinkingOf]
    rfl
  refine gathered_eq_of_plain (fun c hc => (simple_streamed _ _ c hc).plain)
    (fun c hc => (simple_collected _ c hc).plain) ?_ ?_ h.calls ?_
  · have hstreamed : (gathered 0 (middle.flatMap innerChunks)).text = visibleText object := by
      rw [gathered_flatMap, Gathered.text_sum, List.map_map, ← h.text]
      congr 1
      exact List.map_congr_left fun e _ => inner_text e
    have hcollected : (gathered 0 ((object.itemsAt ["message", "content"]).flatMap fun block =>
        contentChunk 0 (block.textAt ["text"]))).text = visibleText object := by
      rw [gathered_flatMap, Gathered.text_sum, List.map_map, visibleText]
      congr 1
      exact List.map_congr_left fun block _ => by simp [gathered_contentChunk, Gathered.part]
    have hcalls : (gathered 0 ((object.itemsAt ["message", "tool_calls"]).mapIdx fun i call =>
        StreamChunk.toolCall 0 (functionDelta i call))).text = "" := by
      rw [gathered_text, List.filterMap_eq_nil_iff.mpr]
      · rfl
      · intro c hc
        obtain ⟨j, hj, rfl⟩ := List.mem_mapIdx.mp hc
        rfl
    simp only [streamedBody, collectedBody, gathered_append, Gathered.text_add, hstreamed,
      hcollected, hcalls]
    simp [text_singleton, StreamChunk.textOf]
  · rw [hthinking (simple_streamed _ _), hthinking (simple_collected _)]
  · simp only [gathered_finish, streamedBody, collectedBody, List.filterMap_append]
    simp [StreamChunk.finishOf]

/-- The chunks of a rendering. -/
theorem Renders.output (h : Renders object start middle last) (fallback : String) :
    mapEvents cohereEventToChunks (start :: (middle ++ [last])) fallback =
      .ok (framed ((object.textAt ["id"]).getD "") fallback (streamedBody object middle)
        ((last.path ["delta", "usage", "tokens"]).map fun report =>
          tokens (tokenCount (report.get "input_tokens"))
            (tokenCount (report.get "output_tokens"))), fallback) := by
  have hstart : cohereEventToChunks start fallback =
      .ok ([.start ((object.textAt ["id"]).getD "") fallback], fallback) := by
    have hs := h.starts
    unfold kind at hs
    simp [cohereEventToChunks, hs, h.id]
  have hmiddle : mapEvents cohereEventToChunks middle fallback =
      .ok (middle.flatMap innerChunks, fallback) :=
    mapEvents_flatMap fun e he => event_inner (h.inner e he) fallback
  have hlast : cohereEventToChunks last fallback =
      .ok ([.finish 0 (((object.textAt ["finish_reason"]).map mapFinishReason).getD .stop)] ++
        ((last.path ["delta", "usage", "tokens"]).map fun report =>
          .usage (tokens (tokenCount (report.get "input_tokens"))
            (tokenCount (report.get "output_tokens")))).toList, fallback) := by
    have hl := h.ends
    unfold kind at hl
    have hdelta (key : String) (more : List String) : ((last.get "delta").getD .null).path
        (key :: more) = last.path ("delta" :: key :: more) := by
      rw [← Value.path_one, Value.path_getD, List.singleton_append]
    have hf : ((last.get "delta").getD .null).textAt ["finish_reason"] =
        object.textAt ["finish_reason"] := by
      rw [Value.textAt, hdelta]
      exact h.finish
    simp only [cohereEventToChunks, hl, hf, hdelta]
    cases last.path ["delta", "usage", "tokens"] <;> rfl
  have hnil : mapEvents cohereEventToChunks [] fallback = .ok ([], fallback) := rfl
  have := mapEvents_cons hstart (mapEvents_append hmiddle (mapEvents_cons hlast hnil))
  simpa [streamedBody, framed, Function.comp_def] using this

end

theorem collected_framed (object : Value) (fallback : String) :
    cohereToChunks object fallback =
      framed ((object.textAt ["id"]).getD "") fallback (collectedBody object)
        ((object.path ["meta", "tokens"]).map fun report =>
          tokens ((report.natAt ["input_tokens"]).getD 0)
            ((report.natAt ["output_tokens"]).getD 0)) := by
  cases h : object.path ["meta", "tokens"] <;>
    simp [cohereToChunks, framed, collectedBody, h]

theorem tokens_inj {p c p' c' : ℕ} : tokens p c = tokens p' c' ↔ p = p' ∧ c = c' := by
  simp only [tokens, Usage.mk.injEq, and_true]
  omega

/-- No report is the same as a report of no tokens. -/
theorem tokens_getD (report : Option Value) (f g : Value → ℕ) :
    (report.map fun r => tokens (f r) (g r)).getD .zero =
      tokens ((report.map f).getD 0) ((report.map g).getD 0) := by
  cases report <;> rfl

section

variable {object last report : Value}

/-- What the streamed mapper counts. -/
theorem Attached.streamedCount {place : Place} (hr : Attached object last place report)
    (counter : String) :
    ((last.path ["delta", "usage", "tokens"]).map fun r => tokenCount (r.get counter)).getD 0 =
      if place = .atUsage then place.count report counter else 0 := by
  have hpath : last.path ["delta", "usage", "tokens"] =
      (last.path ["delta", "usage"]).bind (·.get "tokens") := by
    rw [show ["delta", "usage", "tokens"] = ["delta", "usage"] ++ ["tokens"] from rfl,
      Value.path_append]
    simp only [Value.path_one]
  cases place with
  | atUsage =>
    have hs : last.path ["delta", "usage"] = some report := hr.streamed
    rw [hpath, hs, Option.bind_some, if_pos rfl, Place.count, Value.path_cons]
    cases report.get "tokens" with
    | none => rfl
    | some r => rw [Option.bind_some, Value.path_one]; rfl
  | atMeta =>
    have hs : last.path ["delta", "usage"] = none := hr.streamedOther
    rw [hpath, hs]
    rfl

/-- What the collected mapper counts. -/
theorem Attached.collectedCount {place : Place} (hr : Attached object last place report)
    (counter : String) :
    ((object.path ["meta", "tokens"]).map fun r => (r.natAt [counter]).getD 0).getD 0 =
      if place = .atMeta then place.count report counter else 0 := by
  rw [Value.path_cons]
  cases place with
  | atUsage =>
    have hs : object.get "meta" = none := hr.collectedOther
    rw [hs]
    rfl
  | atMeta =>
    have hs : object.get "meta" = some report := hr.collected
    rw [hs, Option.bind_some, if_pos rfl, Place.count, Value.natAt, Value.path_cons,
      Value.path_cons]
    cases report.get "tokens" <;> rfl

end

/-- **A streamed response is collected like the collected one exactly if the report has no tokens**
where its mapper looks for them: the two look in different places. -/
theorem cohere_streamed_iff {object start last report : Value} {middle : List Value} {place : Place}
    (h : Renders object start middle last) (hr : Attached object last place report)
    (fallback : String) :
    ∃ chunks, mapEvents cohereEventToChunks (start :: (middle ++ [last])) fallback =
        .ok (chunks, fallback) ∧
      (collectChunks chunks = collectChunks (cohereToChunks object fallback) ↔
        ∀ counter ∈ ["input_tokens", "output_tokens"], place.count report counter = 0) := by
  refine ⟨_, h.output fallback, ?_⟩
  rw [collected_framed, collectChunks_framed (fun c hc => (simple_streamed _ _ c hc).index)
    (fun c hc => (simple_collected _ c hc).index) (by simp [streamedBody]) (by simp [collectedBody])
    h.gathered_eq, tokens_getD, tokens_getD, tokens_inj, hr.streamedCount, hr.streamedCount,
    hr.collectedCount, hr.collectedCount]
  cases place <;> simp [eq_comm]

end Cohere

section

open Cohere Value

/-- A response of one text and one call, with seven tokens under `usage`. -/
def cohereAnswer : Value := obj [("id", string "c"), ("finish_reason", string "TOOL_CALL"),
  ("message", obj [("content", array [obj [("type", string "text"), ("text", string "hi")]]),
    ("tool_calls", array [obj [("id", string "t"), ("function", obj [("name", string "f"),
      ("arguments", string "{}")])]])]),
  ("usage", obj [("tokens", obj [("input_tokens", nat 5), ("output_tokens", nat 2)])])]

/-- The first event of its stream. -/
def cohereFirst : Value := obj [("type", string "message-start"), ("id", string "c")]

/-- A piece of its text. -/
def cohereText (text : String) : Value := obj [("type", string "content-delta"),
  ("delta", obj [("message", obj [("content", obj [("text", string text)])])])]

/-- The start of its call. -/
def cohereCall : Value := obj [("type", string "tool-call-start"), ("index", nat 0),
  ("delta", obj [("message", obj [("tool_calls", obj [("id", string "t"),
    ("function", obj [("name", string "f"), ("arguments", string "")])])])])]

/-- The arguments of its call. -/
def cohereArguments : Value := obj [("type", string "tool-call-delta"), ("index", nat 0),
  ("delta", obj [("message", obj [("tool_calls", obj [
    ("function", obj [("arguments", string "{}")])])])])]

/-- The last event of its stream, with the report in the same shape. -/
def cohereLast : Value := obj [("type", string "message-end"),
  ("delta", obj [("finish_reason", string "TOOL_CALL"),
    ("usage", obj [("tokens", obj [("input_tokens", nat 5), ("output_tokens", nat 2)])])])]

theorem cohereAnswer_renders : Renders cohereAnswer cohereFirst
    [cohereText "h", cohereText "i", cohereCall, cohereArguments] cohereLast where
  starts := by decide +kernel
  id := by decide +kernel
  inner := by decide +kernel
  text := by decide +kernel
  indexed := by decide +kernel
  call k call hcall := by
    have hone : cohereAnswer.itemsAt ["message", "tool_calls"] = [obj [("id", string "t"),
        ("function", obj [("name", string "f"), ("arguments", string "{}")])]] := by decide +kernel
    rw [hone] at hcall
    cases k with
    | zero =>
      cases hcall
      refine ⟨cohereCall, [cohereArguments], by decide +kernel, ?_⟩
      exact ⟨by decide +kernel, by decide +kernel, by decide +kernel, by decide +kernel,
        by decide +kernel⟩
    | succ k => cases hcall
  few := by decide +kernel
  ends := by decide +kernel
  finish := by decide +kernel

/-- Its report. -/
def cohereReport : Value :=
  obj [("tokens", obj [("input_tokens", nat 5), ("output_tokens", nat 2)])]

example : (collectChunks (cohereToChunks cohereAnswer "command-a")).usage = .zero := by
  decide +kernel

theorem cohereReport_attached : Attached cohereAnswer cohereLast .atUsage cohereReport :=
  ⟨by decide +kernel, by decide +kernel, by decide +kernel, by decide +kernel⟩

theorem cohere_streamed_iff_answer :
    ∃ chunks, mapEvents cohereEventToChunks (cohereFirst :: ([cohereText "h", cohereText "i",
        cohereCall, cohereArguments] ++ [cohereLast])) "command-a" = .ok (chunks, "command-a") ∧
      (collectChunks chunks = collectChunks (cohereToChunks cohereAnswer "command-a") ↔
        ∀ counter ∈ ["input_tokens", "output_tokens"],
          Place.atUsage.count cohereReport counter = 0) :=
  cohere_streamed_iff cohereAnswer_renders cohereReport_attached "command-a"

/-- Five prompt tokens and two completion tokens are counted when the response is streamed and not
when it is collected. -/
theorem cohere_tokens_lost :
    Renders cohereAnswer cohereFirst [cohereText "h", cohereText "i", cohereCall, cohereArguments]
      cohereLast ∧
    Attached cohereAnswer cohereLast .atUsage cohereReport ∧
    ∃ chunks, mapEvents cohereEventToChunks (cohereFirst :: ([cohereText "h", cohereText "i",
        cohereCall, cohereArguments] ++ [cohereLast])) "command-a" = .ok (chunks, "command-a") ∧
      collectChunks chunks ≠ collectChunks (cohereToChunks cohereAnswer "command-a") ∧
      (collectChunks chunks).usage = tokens 5 2 ∧
      (collectChunks (cohereToChunks cohereAnswer "command-a")).usage = .zero :=
  ⟨cohereAnswer_renders, cohereReport_attached, _, cohereAnswer_renders.output "command-a",
    by decide +kernel, by decide +kernel, by decide +kernel⟩

end

end Llmleaf
