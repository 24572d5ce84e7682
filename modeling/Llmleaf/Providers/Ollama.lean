import Llmleaf.Providers.Mapper

/-!
# Ollama

The mapper of the objects of `api/chat`: one object when the response is collected, any number of
lines when it is streamed. A tool call arrives whole, but the collector folds calls by their index,
and the mapper reads the index that the upstream states, zero if it states none.

- `ollamaChunkToCanonical`, `ollamaEventToChunks`: the mapper, and the stream loop around it.
- `Ollama.collected_calls`: with distinct indices the collector has every call, in the order of the
  indices.
- **Result** (`Ollama.kept_apart_iff`): each call stays one of its own exactly if the indices are
  distinct and sorting by them leaves the calls in place; how the calls are spread over objects
  never matters.
-/

namespace Llmleaf

/-- What the mapper keeps from object to object. -/
structure OllamaState where
  seenStart : Bool := false
  sawTool : Bool := false
  deriving DecidableEq

namespace Ollama

/-- The finish reasons of the upstream; the reason of a turn with tool calls is not read. -/
def mapDoneReason (reason : String) : FinishReason := if reason = "length" then .length else .stop

variable (toStr : Value → String)

/-- A call of the upstream; its arguments, a whole object, are written out again. -/
def delta (call : Value) : ToolCallDelta where
  index := call.indexAt ["function", "index"]
  id := call.textAt ["id"]
  name := call.textAt ["function", "name"]
  arguments := (call.path ["function", "arguments"]).map toStr

/-- The calls of an object. -/
def calls (v : Value) : List Value := v.itemsAt ["message", "tool_calls"]

/-- The end of the stream: the finish reason and the token counts. -/
def ending (v : Value) (sawTool : Bool) : List StreamChunk :=
  let reason :=
    if sawTool then .toolCalls else ((v.textAt ["done_reason"]).map mapDoneReason).getD .stop
  let prompt := (v.natAt ["prompt_eval_count"]).getD 0
  let completion := (v.natAt ["eval_count"]).getD 0
  [.finish 0 reason, .usage ⟨prompt, completion, prompt + completion, none, 0, 0⟩]

end Ollama

open Ollama

section

variable (toStr : Value → String)

/-- The chunks of one object. -/
def ollamaChunkToCanonical (v : Value) (s : OllamaState) : List StreamChunk × OllamaState :=
  let sawTool := s.sawTool || !(calls v).isEmpty
  ((if s.seenStart then [] else [.start "" ((v.textAt ["model"]).getD "")]) ++
    contentChunk 0 (v.textAt ["message", "content"]) ++
    (calls v).map (fun call => .toolCall 0 (delta toStr call)) ++
    (if ((v.get "done").bind Value.asBool).getD false then ending v sawTool else []),
    ⟨true, sawTool⟩)

/-- One line of a streamed response; an error may be reported on the stream itself. -/
def ollamaEventToChunks (v : Value) (s : OllamaState) :
    Except ModelError (List StreamChunk × OllamaState) :=
  match v.textAt ["error"] with
  | some message => .error (.upstream 500 message)
  | none => .ok (ollamaChunkToCanonical toStr v s)

/-- The chunks of a sequence of objects. -/
def ollamaChunks : List Value → OllamaState → List StreamChunk
  | [], _ => []
  | v :: objects, s =>
    (ollamaChunkToCanonical toStr v s).1 ++
      ollamaChunks objects (ollamaChunkToCanonical toStr v s).2

/-- Lines that report no error are mapped one after the other. -/
theorem mapEvents_ollama {objects : List Value} (h : ∀ v ∈ objects, v.textAt ["error"] = none)
    (s : OllamaState) : ∃ s', mapEvents (ollamaEventToChunks toStr) objects s =
      .ok (ollamaChunks toStr objects s, s') := by
  induction objects generalizing s with
  | nil => exact ⟨s, rfl⟩
  | cons v objects ih =>
    obtain ⟨s', hrest⟩ :=
      ih (fun w hw => h w (List.mem_cons_of_mem _ hw)) (ollamaChunkToCanonical toStr v s).2
    have hv : ollamaEventToChunks toStr v s = .ok (ollamaChunkToCanonical toStr v s) := by
      rw [ollamaEventToChunks, h v List.mem_cons_self]
    exact ⟨s', mapEvents_cons hv hrest⟩

end

namespace Ollama

variable (toStr : Value → String)

/-! ## The calls of a stream -/

/-- All the calls of a sequence of objects, in order. -/
def upstreamCalls (objects : List Value) : List Value := objects.flatMap calls

/-- The index under which the collector folds a call. -/
def index (call : Value) : ℕ := call.indexAt ["function", "index"]

/-- A call with its own id, name and arguments. -/
def own (call : Value) : ToolCall where
  id := (call.textAt ["id"]).getD ""
  name := (call.textAt ["function", "name"]).getD ""
  arguments := ((call.path ["function", "arguments"]).map toStr).getD ""

/-- The only fragment of a call adds up to the call. -/
theorem own_eq (call : Value) :
    ((PartialToolCall.ofDeltas [delta toStr call]).map PartialToolCall.intoCall) =
      some (own toStr call) := by
  have h := PartialToolCall.ofDeltas_arguments (delta toStr call) []
  rw [List.map_nil] at h
  rw [h, Option.map_some]
  simp [PartialToolCall.intoCall, own, delta, String.join]

/-- The tool calls of a collected stream. -/
def collectedCalls (chunks : List StreamChunk) : List ToolCall :=
  (collectChunks chunks).choices.flatMap Choice.toolCalls

/-- Every chunk of an object is of the one choice, or of none. -/
theorem index_object (v : Value) (s : OllamaState) :
    ∀ c ∈ (ollamaChunkToCanonical toStr v s).1, ∀ i, c.index = some i → i = 0 := by
  intro c hc i hi
  simp only [ollamaChunkToCanonical, List.mem_append, List.mem_map] at hc
  obtain ((hc | hc) | ⟨call, -, rfl⟩) | hc := hc
  · split at hc
    · cases hc
    · rw [List.mem_singleton.mp hc] at hi
      cases hi
  · rw [index_contentChunk 0 _ c hc] at hi
    exact (Option.some.inj hi).symm
  · exact (Option.some.inj hi).symm
  · split at hc
    · simp only [ending, List.mem_cons, List.not_mem_nil, or_false] at hc
      obtain rfl | rfl := hc
      · exact (Option.some.inj hi).symm
      · cases hi
    · cases hc

theorem index_chunks (objects : List Value) (s : OllamaState) :
    ∀ c ∈ ollamaChunks toStr objects s, ∀ i, c.index = some i → i = 0 := by
  induction objects generalizing s with
  | nil =>
    intro c hc
    cases hc
  | cons v objects ih =>
    intro c hc
    obtain hc | hc := List.mem_append.mp hc
    · exact index_object toStr v s c hc
    · exact ih _ c hc

/-- The fragments under an index: the calls of the object with that index. -/
theorem fragments_object (v : Value) (s : OllamaState) (k : ℕ) :
    (ollamaChunkToCanonical toStr v s).1.filterMap (StreamChunk.fragmentOf 0 k) =
      ((calls v).filter fun call => index call = k).map (delta toStr) := by
  have hstart : (if s.seenStart then [] else
      [StreamChunk.start "" ((v.textAt ["model"]).getD "")]).filterMap
        (StreamChunk.fragmentOf 0 k) = [] := by
    split <;> rfl
  have hending : (if ((v.get "done").bind Value.asBool).getD false then
      ending v (s.sawTool || !(calls v).isEmpty) else []).filterMap
        (StreamChunk.fragmentOf 0 k) = [] := by
    split <;> rfl
  have hcalls : ((calls v).map fun call => StreamChunk.toolCall 0 (delta toStr call)).filterMap
      (StreamChunk.fragmentOf 0 k) =
        ((calls v).filter fun call => index call = k).map (delta toStr) := by
    induction calls v with
    | nil => rfl
    | cons call rest ih =>
      rw [List.map_cons, List.filterMap_cons, ih]
      by_cases hk : index call = k
      · have hdelta : (delta toStr call).index = k := hk
        simp [StreamChunk.fragmentOf, hk, hdelta]
      · have hdelta : (delta toStr call).index ≠ k := hk
        simp [StreamChunk.fragmentOf, hk, hdelta]
  simp only [ollamaChunkToCanonical, List.filterMap_append, hstart, hending, hcalls,
    fragments_contentChunk, List.nil_append, List.append_nil]

/-- **The fragments under an index are the calls with that index**, however they are spread over
the objects. -/
theorem fragments_chunks (objects : List Value) (s : OllamaState) (k : ℕ) :
    (ollamaChunks toStr objects s).filterMap (StreamChunk.fragmentOf 0 k) =
      ((upstreamCalls objects).filter fun call => index call = k).map (delta toStr) := by
  induction objects generalizing s with
  | nil => rfl
  | cons v objects ih =>
    have hcalls : upstreamCalls (v :: objects) = calls v ++ upstreamCalls objects :=
      List.flatMap_cons
    rw [ollamaChunks, List.filterMap_append, ih, fragments_object, hcalls, List.filter_append,
      List.map_append]

/-- What the collector has under an index. -/
theorem lookup_chunks (objects : List Value) (s : OllamaState) (k : ℕ) :
    ((((ollamaChunks toStr objects s).foldl Collected.step .empty).tools.lookup 0).getD ∅).lookup
        k =
      (PartialToolCall.ofDeltas
        (((upstreamCalls objects).filter fun call => index call = k).map (delta toStr))).map
          PartialToolCall.intoCall := by
  rw [Collected.lookup_calls, (slot_holds (ollamaChunks toStr objects s) 0).calls, gathered_calls,
    fragments_chunks]

/-- Where no chunk is of another choice, the calls are those of the choice zero. -/
theorem collectedCalls_eq {chunks : List StreamChunk}
    (h : ∀ c ∈ chunks, ∀ i, c.index = some i → i = 0) :
    collectedCalls chunks =
      (((chunks.foldl Collected.step .empty).tools.lookup 0).getD ∅).ascending.map Prod.snd := by
  have hzero : ∀ i ∈ (chunks.foldl Collected.step .empty).indices, i = 0 := by
    intro i hi
    obtain hi | hi := (Collected.mem_indices_foldl chunks .empty i).mp hi
    · obtain ⟨c, hc⟩ := List.exists_mem_of_ne_nil _ hi
      obtain ⟨hc, hci⟩ := List.mem_filter.mp hc
      exact h c hc i (of_decide_eq_true hci)
    · cases hi
  have hsorted := (chunks.foldl Collected.step .empty).indices_sorted
  rw [collectedCalls, collectChunks, List.flatMap_map]
  rcases hindices : (chunks.foldl Collected.step .empty).indices with _ | ⟨i, _ | ⟨j, rest⟩⟩
  · -- no chunk is of the choice, and there are no calls
    have hnone : (chunks.foldl Collected.step .empty).tools.lookup 0 = none := by
      refine AList.lookup_eq_none.mpr fun hmem => ?_
      have h0 := (Collected.mem_indices _ 0).mpr (.inr (.inr (.inl hmem)))
      rw [hindices] at h0
      cases h0
    rw [hnone]
    rfl
  · have hi : i = 0 := hzero i (by rw [hindices]; exact List.mem_singleton_self i)
    subst hi
    exact List.append_nil _
  · -- two indices would both be zero
    rw [hindices] at hsorted hzero
    have hij := List.rel_of_pairwise_cons hsorted (List.mem_cons_self (a := j))
    rw [hzero i List.mem_cons_self, hzero j (List.mem_cons_of_mem _ List.mem_cons_self)] at hij
    exact absurd hij (lt_irrefl 0)

/-- How the calls are spread over the objects does not matter, nor what else the objects hold. -/
theorem collectedCalls_congr {objects objects' : List Value}
    (h : upstreamCalls objects = upstreamCalls objects') (s s' : OllamaState) :
    collectedCalls (ollamaChunks toStr objects s) =
      collectedCalls (ollamaChunks toStr objects' s') := by
  rw [collectedCalls_eq (index_chunks toStr objects s),
    collectedCalls_eq (index_chunks toStr objects' s')]
  refine congrArg (List.map Prod.snd) (HashMap.ascending_congr fun k => ?_)
  rw [lookup_chunks, lookup_chunks, h]

/-- With distinct indices the entries of the collector are the calls. -/
theorem mem_entries {objects : List Value} (h : ((upstreamCalls objects).map index).Nodup)
    (s : OllamaState) (e : ℕ × ToolCall) :
    e ∈ (upstreamCalls objects).map (fun call => (index call, own toStr call)) ↔
      ((((ollamaChunks toStr objects s).foldl Collected.step .empty).tools.lookup 0).getD ∅).lookup
        e.1 = some e.2 := by
  rw [lookup_chunks, List.mem_map]
  constructor
  · rintro ⟨call, hcall, rfl⟩
    rw [Folds.filter_key h hcall]
    exact own_eq toStr call
  · intro hsome
    obtain ⟨call, hmem⟩ : ∃ call, call ∈ (upstreamCalls objects).filter fun c => index c = e.1 := by
      refine List.exists_mem_of_ne_nil _ fun hnil => ?_
      rw [hnil] at hsome
      cases hsome
    obtain ⟨hcall, hk⟩ := List.mem_filter.mp hmem
    have hk : index call = e.1 := of_decide_eq_true hk
    rw [← hk, Folds.filter_key h hcall] at hsome
    refine ⟨call, hcall, Prod.ext hk ?_⟩
    exact Option.some.inj ((own_eq toStr call).symm.trans hsome)

/-- **With distinct indices the collector has every call, in the order of the indices.** -/
theorem collected_calls {objects : List Value} (h : ((upstreamCalls objects).map index).Nodup)
    (s : OllamaState) : collectedCalls (ollamaChunks toStr objects s) =
      ((upstreamCalls objects).insertionSort fun a b => index a ≤ index b).map (own toStr) := by
  have hkeys : (((upstreamCalls objects).map fun call =>
      (index call, own toStr call)).map Prod.fst).Nodup := by
    rw [List.map_map]
    exact h
  have hsort := List.map_insertionSort (fun a b => index a ≤ index b)
    (fun a b : ℕ × ToolCall => a.1 ≤ b.1) (fun call => (index call, own toStr call))
    (upstreamCalls objects) fun _ _ _ _ => Iff.rfl
  rw [collectedCalls_eq (index_chunks toStr objects s),
    HashMap.ascending_eq_sort hkeys (mem_entries toStr h s), ← hsort, List.map_map]
  rfl

/-- The collector has one call for each index. -/
theorem length_collectedCalls (objects : List Value) (s : OllamaState) :
    (collectedCalls (ollamaChunks toStr objects s)).length =
      ((upstreamCalls objects).map index).dedup.length := by
  have hmem (k : ℕ) :
      k ∈ (((ollamaChunks toStr objects s).foldl Collected.step .empty).tools.lookup 0).getD ∅ ↔
        k ∈ ((upstreamCalls objects).map index).dedup := by
    rw [List.mem_dedup, HashMap.mem_iff_lookup, ← Option.isSome_iff_exists, lookup_chunks,
      Option.isSome_map, PartialToolCall.ofDeltas]
    simp [List.filter_eq_nil_iff]
  have hperm := HashMap.ascending_keys_perm (List.nodup_dedup _) hmem
  rw [collectedCalls_eq (index_chunks toStr objects s), List.length_map, ← hperm.length_eq,
    List.length_map]

/-- What the collected calls say: the name and the arguments of each. -/
def said (call : ToolCall) : String × String := (call.name, call.arguments)

/-- **The calls of a stream are kept apart**: one for each call of the upstream, in order, with the
name and the arguments of that call; and objects that hold the same calls, spread in another way,
give the same list. -/
structure KeptApart (objects : List Value) : Prop where
  own : (collectedCalls (ollamaChunks toStr objects {})).map said =
    (upstreamCalls objects).map fun call => said (own toStr call)
  grouping : ∀ objects', upstreamCalls objects' = upstreamCalls objects →
    collectedCalls (ollamaChunks toStr objects' {}) = collectedCalls (ollamaChunks toStr objects {})

/-- **When the calls are kept apart**: exactly if their indices, read as zero where there is none,
are distinct, and sorting the calls by them changes no name and no arguments. -/
theorem kept_apart_iff (objects : List Value) : KeptApart toStr objects ↔
    ((upstreamCalls objects).map index).Nodup ∧
      (((upstreamCalls objects).insertionSort fun a b => index a ≤ index b).map fun call =>
        said (own toStr call)) = (upstreamCalls objects).map fun call => said (own toStr call) := by
  constructor
  · intro h
    have hlength := congrArg List.length h.own
    rw [List.length_map, length_collectedCalls, List.length_map] at hlength
    have hnodup : ((upstreamCalls objects).map index).Nodup := by
      refine List.dedup_eq_self.mp ((List.dedup_sublist _).eq_of_length ?_)
      rw [hlength, List.length_map]
    refine ⟨hnodup, ?_⟩
    have hown := h.own
    rw [collected_calls toStr hnodup, List.map_map] at hown
    exact hown
  · rintro ⟨hnodup, hsorted⟩
    refine ⟨?_, fun objects' hsame => collectedCalls_congr toStr hsame {} {}⟩
    rw [collected_calls toStr hnodup, List.map_map]
    exact hsorted

/-- A call as the upstream sends one, without an index. -/
def unindexed (name : String) : Value :=
  .object [("function", .object [("name", .string name), ("arguments", .object [])])]

/-- A response with two calls. -/
def twoCalls : Value :=
  .object [("message",
    .object [("tool_calls", .array [unindexed "search", unindexed "fetch"])]), ("done", .bool true)]

/-- Two calls without an index become one: the name of the second, the arguments of both. -/
theorem unindexed_calls_merged : ¬ KeptApart (fun _ => "\x7b\x7d") [twoCalls] := by
  intro h
  have hown := h.own
  revert hown
  decide +kernel

end Ollama

end Llmleaf
