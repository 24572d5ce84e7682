import Llmleaf.Providers.Mapper
import Llmleaf.Providers.Usage
import Mathlib.Data.Finset.Insert

/-!
# Gemini

The mappers of a `generateContent` response and of the events of a streamed one, which Vertex shares.
The streamed one keeps a call counter, a tool flag and a finished flag for every candidate; the
collected one computes them candidate by candidate.

- `geminiToChunks`, `geminiEventToChunks`: the mappers.
- `Gemini.Renders`: the events over which a response is spread, its texts cut anyhow.
- **Result** (`gemini_streamed_iff`): streaming changes nothing exactly if the response has a candidate
  or says that the prompt was blocked.
-/

namespace Llmleaf

/-- The state of a streamed response. -/
structure GeminiStreamState where
  fallbackModel : String
  seenStart : Bool
  nextToolIndexes : HashMap ℕ ℕ
  sawTools : Finset ℕ
  finished : Finset ℕ

namespace Gemini

/-- The finish reasons of the upstream. -/
def mapFinishReason (reason : String) : FinishReason :=
  if reason = "MAX_TOKENS" then .length
  else if reason ∈ ["SAFETY", "RECITATION", "BLOCKLIST", "PROHIBITED_CONTENT", "SPII",
      "IMAGE_SAFETY"] then .contentFilter
  else if reason ∈ ["MALFORMED_FUNCTION_CALL", "UNEXPECTED_TOOL_CALL", "TOO_MANY_TOOL_CALLS",
      "OTHER", "LANGUAGE"] then .error
  else .stop

section

-- the text of a document
variable (toStr : Value → String)

/-- A function call as the call `tool`. -/
def callDelta (tool : ℕ) (call : Value) : ToolCallDelta where
  index := tool
  id := call.textAt ["id"]
  name := call.textAt ["name"]
  arguments := (call.get "args").map toStr

/-- A part of a collected candidate; the chunks so far, the next call and whether there was one. -/
def collectPart (index : ℕ) (acc : List StreamChunk × ℕ × Bool) (part : Value) :
    List StreamChunk × ℕ × Bool :=
  let (chunks, tool, sawTool) := acc
  match part.textAt ["text"] with
  | some text => (chunks ++ contentChunk index (some text), tool, sawTool)
  | none =>
    match part.get "functionCall" with
    | some call => (chunks ++ [.toolCall index (callDelta toStr tool call)], tool + 1, true)
    | none => acc

/-- A candidate of a collected response. -/
def collectCandidate (candidate : Value) : List StreamChunk :=
  let index := candidate.indexAt ["index"]
  let (chunks, _, sawTool) :=
    (candidate.itemsAt ["content", "parts"]).foldl (collectPart toStr index) ([], 0, false)
  let reason :=
    if sawTool then .toolCalls
    else ((candidate.textAt ["finishReason"]).map mapFinishReason).getD .stop
  chunks ++ [.finish index reason]

/-- A part of a streamed candidate. -/
def streamPart (index : ℕ) (acc : List StreamChunk × GeminiStreamState) (part : Value) :
    List StreamChunk × GeminiStreamState :=
  let (chunks, state) := acc
  match part.textAt ["text"] with
  | some text => (chunks ++ contentChunk index (some text), state)
  | none =>
    match part.get "functionCall" with
    | some call =>
      let tool := (state.nextToolIndexes.lookup index).getD 0
      (chunks ++ [.toolCall index (callDelta toStr tool call)],
        { state with
          nextToolIndexes := state.nextToolIndexes.insert index (tool + 1)
          sawTools := insert index state.sawTools })
    | none => acc

/-- A candidate of an event. -/
def streamCandidate (acc : List StreamChunk × GeminiStreamState) (candidate : Value) :
    List StreamChunk × GeminiStreamState :=
  let index := candidate.indexAt ["index"]
  let (chunks, state) :=
    (candidate.itemsAt ["content", "parts"]).foldl (streamPart toStr index) acc
  match candidate.textAt ["finishReason"] with
  | some reason =>
    if index ∈ state.finished then (chunks, state)
    else
      let reason := if index ∈ state.sawTools then .toolCalls else mapFinishReason reason
      (chunks ++ [.finish index reason],
        { state with finished := insert index state.finished })
  | none => (chunks, state)

end

/-- The prompt was blocked. -/
def blocked (value : Value) : Bool := (value.textAt ["promptFeedback", "blockReason"]).isSome

end Gemini

open Gemini

/-- A collected response. -/
def geminiToChunks (toStr : Value → String) (value : Value) (fallbackModel : String) :
    List StreamChunk :=
  let candidates := value.itemsAt ["candidates"]
  [.start ((value.textAt ["responseId"]).getD "")
    ((value.textAt ["modelVersion"]).getD fallbackModel)] ++
  candidates.flatMap (collectCandidate toStr) ++
  (if candidates = [] then [.finish 0 (if blocked value then .contentFilter else .stop)] else []) ++
  ((value.get "usageMetadata").map fun usage => .usage (geminiUsage usage)).toList

/-- An event of a streamed response. -/
def geminiEventToChunks (toStr : Value → String) (event : Value) (state : GeminiStreamState) :
    Except ModelError (List StreamChunk × GeminiStreamState) :=
  match event.get "error" with
  | some error =>
    .error (.upstream ((error.natAt ["code"]).getD 500 % 2 ^ 16)
      ((error.textAt ["message"]).getD "Gemini stream error"))
  | none =>
    let start : List StreamChunk :=
      if state.seenStart then []
      else [.start ((event.textAt ["responseId"]).getD "")
        ((event.textAt ["modelVersion"]).getD state.fallbackModel)]
    let (chunks, state) := (event.itemsAt ["candidates"]).foldl (streamCandidate toStr)
      (start, { state with seenStart := true })
    let (chunks, state) :=
      if blocked event ∧ 0 ∉ state.finished then
        (chunks ++ [.finish 0 .contentFilter],
          { state with finished := insert 0 state.finished })
      else (chunks, state)
    .ok (chunks ++ ((event.get "usageMetadata").map fun usage => .usage (geminiUsage usage)).toList,
      state)

namespace Gemini

/-- Nothing streamed yet. -/
def initial (fallbackModel : String) : GeminiStreamState := ⟨fallbackModel, false, ∅, ∅, ∅⟩

/-! ## Renderings -/

/-- The parts of a candidate. -/
def parts (candidate : Value) : List Value := candidate.itemsAt ["content", "parts"]

/-- The candidates with an index, over all events. -/
def entries (i : ℕ) (events : List Value) : List Value :=
  (events.flatMap (·.itemsAt ["candidates"])).filter fun c => c.indexAt ["index"] = i

/-- Parts whose texts are cut into pieces; the other parts are as they were. -/
inductive Splits : List Value → List Value → Prop
  | nil : Splits [] []
  | text {part : Value} {text : String} {pieces : List Value} {texts : List String}
      {rest parts : List Value} :
    part.textAt ["text"] = some text → pieces.map (·.textAt ["text"]) = texts.map some →
    String.join texts = text → Splits rest parts → Splits (pieces ++ rest) (part :: parts)
  | other {part : Value} {rest parts : List Value} :
    part.textAt ["text"] = none → Splits rest parts → Splits (part :: rest) (part :: parts)

/-- The parts of a candidate, spread over several, of which the last ends it. -/
structure Spreads (candidate : Value) (inits : List Value) (last : Value) : Prop where
  unended : ∀ c ∈ inits, c.textAt ["finishReason"] = none
  finish : last.textAt ["finishReason"] = candidate.textAt ["finishReason"]
  split : Splits ((inits ++ [last]).flatMap parts) (parts candidate)

/-- Two reports with the same counts. -/
def SameCounts (a b : Value) : Prop :=
  ∀ key ∈ ["promptTokenCount", "candidatesTokenCount", "totalTokenCount",
    "cachedContentTokenCount"], a.count key = b.count key

/-- **The events over which a response is spread**: every candidate over candidates of its index, in
any interleaving; the last report has the counts of the response. -/
structure Renders (object : Value) (events : List Value) : Prop where
  first : ∃ e ∈ events.head?, e.textAt ["responseId"] = object.textAt ["responseId"] ∧
    e.textAt ["modelVersion"] = object.textAt ["modelVersion"]
  clean : ∀ e ∈ events, e.get "error" = none
  distinct : ((object.itemsAt ["candidates"]).map (·.indexAt ["index"])).Nodup
  ended : ∀ c ∈ object.itemsAt ["candidates"], (c.textAt ["finishReason"]).isSome
  known : ∀ e ∈ events, ∀ x ∈ e.itemsAt ["candidates"],
    ∃ c ∈ object.itemsAt ["candidates"], x.indexAt ["index"] = c.indexAt ["index"]
  spread : ∀ c ∈ object.itemsAt ["candidates"], ∃ inits last,
    entries (c.indexAt ["index"]) events = inits ++ [last] ∧ Spreads c inits last
  block : blocked object ↔ ∃ e ∈ events, blocked e
  /-- There is prompt feedback only if there are no candidates. -/
  feedback : blocked object → object.itemsAt ["candidates"] = []
  usage : Option.Rel SameCounts (events.filterMap (·.get "usageMetadata")).getLast?
    (object.get "usageMetadata")

/-! ## One candidate -/

section

variable (toStr : Value → String) (i : ℕ)

/-- A finish reason ends the candidate of the index; the flag says whether it has finished. -/
def closeStep (acc : (List StreamChunk × ℕ × Bool) × Bool) (candidate : Value) :
    (List StreamChunk × ℕ × Bool) × Bool :=
  match candidate.textAt ["finishReason"] with
  | some reason =>
    if acc.2 then acc
    else
      let reason := if acc.1.2.2 then .toolCalls else mapFinishReason reason
      ((acc.1.1 ++ [.finish i reason], acc.1.2), true)
  | none => acc

/-- A candidate of the index, taken in on its own. -/
def candidateStep (acc : (List StreamChunk × ℕ × Bool) × Bool) (candidate : Value) :
    (List StreamChunk × ℕ × Bool) × Bool :=
  closeStep i ((parts candidate).foldl (collectPart toStr i) acc.1, acc.2) candidate

/-- What a stream has of the candidate with an index. -/
def view (acc : List StreamChunk × GeminiStreamState) : (List StreamChunk × ℕ × Bool) × Bool :=
  ((ofChoice i acc.1, (acc.2.nextToolIndexes.lookup i).getD 0, decide (i ∈ acc.2.sawTools)),
    decide (i ∈ acc.2.finished))

theorem ofChoice_contentChunk (j : ℕ) (text : String) : ofChoice i (contentChunk j (some text)) =
    if j = i then contentChunk i (some text) else [] := by
  by_cases htext : text = ""
  · simp [contentChunk, htext, ofChoice]
  · by_cases hj : j = i <;> simp [contentChunk, htext, ofChoice, StreamChunk.index, hj]

theorem ofChoice_finish (j : ℕ) (reason : FinishReason) : ofChoice i [.finish j reason] =
    if j = i then [.finish j reason] else [] := by
  by_cases hj : j = i <;> simp [ofChoice, StreamChunk.index, hj]

theorem ofChoice_usage (report : Option Value) :
    ofChoice i (report.map fun usage => StreamChunk.usage (geminiUsage usage)).toList = [] := by
  cases report <;> simp [ofChoice, StreamChunk.index]

theorem view_streamPart (acc : List StreamChunk × GeminiStreamState) (part : Value) :
    view i (streamPart toStr i acc part) =
      (collectPart toStr i (view i acc).1 part, (view i acc).2) := by
  unfold streamPart collectPart view
  cases part.textAt ["text"] with
  | some text => simp [ofChoice_append, ofChoice_contentChunk]
  | none =>
    cases part.get "functionCall" with
    | none => rfl
    | some call => simp [ofChoice, StreamChunk.index]

theorem view_streamPart_other {j : ℕ} (h : j ≠ i) (acc : List StreamChunk × GeminiStreamState)
    (part : Value) : view i (streamPart toStr j acc part) = view i acc := by
  unfold streamPart view
  cases part.textAt ["text"] with
  | some text => simp [ofChoice_append, ofChoice_contentChunk, h]
  | none =>
    cases part.get "functionCall" with
    | none => rfl
    | some call => simp [ofChoice, StreamChunk.index, h, Ne.symm h]

theorem view_parts (l : List Value) (acc : List StreamChunk × GeminiStreamState) :
    view i (l.foldl (streamPart toStr i) acc) =
      (l.foldl (collectPart toStr i) (view i acc).1, (view i acc).2) := by
  induction l generalizing acc with
  | nil => rfl
  | cons part l ih => rw [List.foldl_cons, ih, view_streamPart, List.foldl_cons]

theorem view_parts_other {j : ℕ} (h : j ≠ i) (l : List Value)
    (acc : List StreamChunk × GeminiStreamState) :
    view i (l.foldl (streamPart toStr j) acc) = view i acc := by
  induction l generalizing acc with
  | nil => rfl
  | cons part l ih => rw [List.foldl_cons, ih, view_streamPart_other toStr i h]

/-- A candidate of the index steps the view of the index. -/
theorem view_streamCandidate {candidate : Value} (h : candidate.indexAt ["index"] = i)
    (acc : List StreamChunk × GeminiStreamState) :
    view i (streamCandidate toStr acc candidate) = candidateStep toStr i (view i acc) candidate := by
  unfold streamCandidate candidateStep parts
  rw [h, ← view_parts]
  dsimp only
  generalize (candidate.itemsAt ["content", "parts"]).foldl (streamPart toStr i) acc = after
  obtain ⟨chunks, state⟩ := after
  unfold closeStep
  cases candidate.textAt ["finishReason"] with
  | none => rfl
  | some reason =>
    by_cases hf : i ∈ state.finished
    · simp [view, hf]
    · simp [view, hf, ofChoice, StreamChunk.index]

theorem view_streamCandidate_other {candidate : Value} (h : candidate.indexAt ["index"] ≠ i)
    (acc : List StreamChunk × GeminiStreamState) :
    view i (streamCandidate toStr acc candidate) = view i acc := by
  have hparts := view_parts_other toStr i h (parts candidate) acc
  unfold streamCandidate
  unfold parts at hparts
  dsimp only
  generalize (candidate.itemsAt ["content", "parts"]).foldl
    (streamPart toStr (candidate.indexAt ["index"])) acc = after at hparts ⊢
  obtain ⟨chunks, state⟩ := after
  rw [← hparts]
  cases candidate.textAt ["finishReason"] with
  | none => rfl
  | some reason =>
    by_cases hf : candidate.indexAt ["index"] ∈ state.finished
    · simp [view, hf]
    · simp [view, hf, ofChoice, StreamChunk.index, h, Ne.symm h]

/-- The view of an index is folded from the candidates of the index alone. -/
theorem view_candidates (l : List Value) (acc : List StreamChunk × GeminiStreamState) :
    view i (l.foldl (streamCandidate toStr) acc) =
      (l.filter fun c => c.indexAt ["index"] = i).foldl (candidateStep toStr i) (view i acc) :=
  Folds.project (view i) _ (fun s _ h => view_streamCandidate toStr i (of_decide_eq_true h) s)
    (fun s _ h => view_streamCandidate_other toStr i (of_decide_eq_false h) s) l acc

/-! ## One event -/

/-- An event, taken in for the candidate of an index. -/
def eventStep (acc : (List StreamChunk × ℕ × Bool) × Bool) (event : Value) :
    (List StreamChunk × ℕ × Bool) × Bool :=
  let acc := ((event.itemsAt ["candidates"]).filter fun c => c.indexAt ["index"] = i).foldl
    (candidateStep toStr i) acc
  if i = 0 ∧ blocked event ∧ acc.2 = false then
    ((acc.1.1 ++ [.finish 0 .contentFilter], acc.1.2), true)
  else acc

/-- What stands before the chunks of a candidate stays there. -/
theorem collectPart_prefix (pre : List StreamChunk) (acc : List StreamChunk × ℕ × Bool)
    (part : Value) : collectPart toStr i (pre ++ acc.1, acc.2) part =
      (pre ++ (collectPart toStr i acc part).1, (collectPart toStr i acc part).2) := by
  unfold collectPart
  cases part.textAt ["text"] with
  | some text => simp
  | none => cases part.get "functionCall" <;> simp

theorem collectParts_after (pre : List StreamChunk) (l : List Value)
    (acc : List StreamChunk × ℕ × Bool) : l.foldl (collectPart toStr i) (pre ++ acc.1, acc.2) =
      (pre ++ (l.foldl (collectPart toStr i) acc).1, (l.foldl (collectPart toStr i) acc).2) := by
  induction l generalizing acc with
  | nil => rfl
  | cons part l ih => rw [List.foldl_cons, collectPart_prefix, ih, List.foldl_cons]

theorem candidateStep_prefix (pre : List StreamChunk)
    (acc : (List StreamChunk × ℕ × Bool) × Bool) (candidate : Value) :
    candidateStep toStr i ((pre ++ acc.1.1, acc.1.2), acc.2) candidate =
      ((pre ++ (candidateStep toStr i acc candidate).1.1, (candidateStep toStr i acc candidate).1.2),
        (candidateStep toStr i acc candidate).2) := by
  unfold candidateStep closeStep
  rw [collectParts_after toStr i pre (parts candidate) acc.1]
  cases candidate.textAt ["finishReason"] with
  | none => rfl
  | some reason => cases hf : acc.2 <;> simp

theorem candidates_prefix (pre : List StreamChunk) (l : List Value)
    (acc : (List StreamChunk × ℕ × Bool) × Bool) :
    l.foldl (candidateStep toStr i) ((pre ++ acc.1.1, acc.1.2), acc.2) =
      ((pre ++ (l.foldl (candidateStep toStr i) acc).1.1,
        (l.foldl (candidateStep toStr i) acc).1.2), (l.foldl (candidateStep toStr i) acc).2) := by
  induction l generalizing acc with
  | nil => rfl
  | cons c l ih => rw [List.foldl_cons, candidateStep_prefix, ih, List.foldl_cons]

end

/-- Chunks of choices were added, and the start is as it was. -/
def Extends (acc acc' : List StreamChunk × GeminiStreamState) : Prop :=
  (∃ more, acc'.1 = acc.1 ++ more ∧ ∀ c ∈ more, ∃ i, c.index = some i) ∧
    acc'.2.seenStart = acc.2.seenStart

theorem Extends.refl (acc : List StreamChunk × GeminiStreamState) : Extends acc acc :=
  ⟨⟨[], (List.append_nil _).symm, by simp⟩, rfl⟩

theorem Extends.trans {a b c : List StreamChunk × GeminiStreamState} (hab : Extends a b)
    (hbc : Extends b c) : Extends a c := by
  obtain ⟨⟨m, hm, hmi⟩, hs⟩ := hab
  obtain ⟨⟨n, hn, hni⟩, ht⟩ := hbc
  refine ⟨⟨m ++ n, by rw [hn, hm, List.append_assoc], fun x hx => ?_⟩, ht.trans hs⟩
  exact (List.mem_append.mp hx).elim (hmi x) (hni x)

theorem Extends.foldl {step : List StreamChunk × GeminiStreamState → Value →
    List StreamChunk × GeminiStreamState} (h : ∀ acc v, Extends acc (step acc v)) (l : List Value)
    (acc : List StreamChunk × GeminiStreamState) : Extends acc (l.foldl step acc) := by
  induction l generalizing acc with
  | nil => exact .refl acc
  | cons v l ih => exact (h acc v).trans (ih _)

section

variable (toStr : Value → String)

theorem extends_streamPart (index : ℕ) (acc : List StreamChunk × GeminiStreamState)
    (part : Value) : Extends acc (streamPart toStr index acc part) := by
  unfold streamPart
  cases part.textAt ["text"] with
  | some text =>
    refine ⟨⟨_, rfl, fun c hc => ⟨index, ?_⟩⟩, rfl⟩
    by_cases htext : text = ""
    · simp [contentChunk, htext] at hc
    · simp only [contentChunk, if_neg htext, List.mem_singleton] at hc
      rw [hc]
      rfl
  | none =>
    cases part.get "functionCall" with
    | none => exact .refl acc
    | some call =>
      refine ⟨⟨_, rfl, fun c hc => ⟨index, ?_⟩⟩, rfl⟩
      rw [List.mem_singleton.mp hc]
      rfl

theorem extends_streamCandidate (acc : List StreamChunk × GeminiStreamState)
    (candidate : Value) : Extends acc (streamCandidate toStr acc candidate) := by
  have hparts := Extends.foldl (extends_streamPart toStr (candidate.indexAt ["index"]))
    (candidate.itemsAt ["content", "parts"]) acc
  refine hparts.trans ?_
  unfold streamCandidate
  dsimp only
  generalize (candidate.itemsAt ["content", "parts"]).foldl
    (streamPart toStr (candidate.indexAt ["index"])) acc = after
  obtain ⟨chunks, state⟩ := after
  cases candidate.textAt ["finishReason"] with
  | none => exact .refl _
  | some reason =>
    by_cases hf : candidate.indexAt ["index"] ∈ state.finished
    · simpa [hf] using Extends.refl (chunks, state)
    · simp only [if_neg hf]
      refine ⟨⟨_, rfl, fun c hc => ⟨candidate.indexAt ["index"], ?_⟩⟩, rfl⟩
      rw [List.mem_singleton.mp hc]
      rfl

/-- The identity an event opens the stream with. -/
def identity (event : Value) (fallbackModel : String) : String × String :=
  ((event.textAt ["responseId"]).getD "", (event.textAt ["modelVersion"]).getD fallbackModel)

/-- What an event that is no error does. -/
structure EventRun (event : Value) (s s' : GeminiStreamState) (chunks : List StreamChunk) :
    Prop where
  map : geminiEventToChunks toStr event s = .ok (chunks, s')
  views : ∀ i pre, view i (pre ++ chunks, s') = eventStep toStr i (view i (pre, s)) event
  opened : chunks.filterMap StreamChunk.opened =
    if s.seenStart then [] else [identity event s.fallbackModel]
  reported : chunks.filterMap StreamChunk.reported =
    ((event.get "usageMetadata").map geminiUsage).toList
  seen : s'.seenStart = true

theorem event_run {event : Value} (h : event.get "error" = none) (s : GeminiStreamState) :
    ∃ chunks s', EventRun toStr event s s' chunks := by
  let start : List StreamChunk := if s.seenStart then [] else
    [.start (identity event s.fallbackModel).1 (identity event s.fallbackModel).2]
  obtain ⟨c, t, hfold⟩ : ∃ c t, (event.itemsAt ["candidates"]).foldl (streamCandidate toStr)
      (start, { s with seenStart := true }) = (c, t) := ⟨_, _, rfl⟩
  have hview (i : ℕ) : view i (c, t) =
      ((event.itemsAt ["candidates"]).filter fun x => x.indexAt ["index"] = i).foldl
        (candidateStep toStr i) (([], (view i ([], s)).1.2), (view i ([], s)).2) := by
    have hstart : ofChoice i start = [] := by
      by_cases hs : s.seenStart <;> simp [start, hs, ofChoice, StreamChunk.index]
    rw [← hfold, view_candidates]
    simp only [view, hstart]
  have hext := Extends.foldl (extends_streamCandidate toStr) (event.itemsAt ["candidates"])
    (start, { s with seenStart := true })
  rw [hfold] at hext
  obtain ⟨⟨more, hmore, hindex⟩, hseen⟩ := hext
  have hopened : c.filterMap StreamChunk.opened =
      if s.seenStart then [] else [identity event s.fallbackModel] := by
    rw [show c = start ++ more from hmore, List.filterMap_append, List.filterMap_eq_nil_iff.mpr
      fun x hx => opened_of_index (hindex x hx).choose_spec]
    by_cases hs : s.seenStart <;> simp [start, hs, StreamChunk.opened]
  have hreported : c.filterMap StreamChunk.reported = [] := by
    rw [show c = start ++ more from hmore, List.filterMap_append, List.filterMap_eq_nil_iff.mpr
      fun x hx => reported_of_index (hindex x hx).choose_spec]
    by_cases hs : s.seenStart <;> simp [start, hs, StreamChunk.reported]
  have hafter (i : ℕ) (pre : List StreamChunk) :
      ((event.itemsAt ["candidates"]).filter fun x => x.indexAt ["index"] = i).foldl
        (candidateStep toStr i) (view i (pre, s)) =
      ((ofChoice i pre ++ (view i (c, t)).1.1, (view i (c, t)).1.2), (view i (c, t)).2) := by
    have h := candidates_prefix toStr i (ofChoice i pre)
      ((event.itemsAt ["candidates"]).filter fun x => x.indexAt ["index"] = i)
      (([], (view i ([], s)).1.2), (view i ([], s)).2)
    rw [← hview i] at h
    simpa [view] using h
  -- a blocked prompt ends the candidate zero, unless it has ended
  obtain ⟨d, u, hblock, hviews, hopened, hreported, hseen⟩ : ∃ d u,
      (if blocked event ∧ 0 ∉ t.finished then
        (c ++ [.finish 0 .contentFilter], { t with finished := insert 0 t.finished })
      else (c, t)) = (d, u) ∧
      (∀ i pre, view i (pre ++ d, u) = eventStep toStr i (view i (pre, s)) event) ∧
      d.filterMap StreamChunk.opened =
        (if s.seenStart then [] else [identity event s.fallbackModel]) ∧
      d.filterMap StreamChunk.reported = [] ∧ u.seenStart = true := by
    by_cases hb : blocked event ∧ 0 ∉ t.finished
    · refine ⟨_, _, if_pos hb, fun i pre => ?_, ?_, ?_, hseen⟩
      · by_cases hi : i = 0
        · subst hi
          simp only [eventStep, hafter]
          simp [hb.1, hb.2, view, ofChoice_append, ofChoice_finish]
        · simp only [eventStep, hafter]
          simp [hi, Ne.symm hi, view, ofChoice_append, ofChoice_finish]
      · simp [hopened, StreamChunk.opened]
      · simp [hreported, StreamChunk.reported]
    · refine ⟨c, t, if_neg hb, fun i pre => ?_, hopened, hreported, hseen⟩
      have hnot : i = 0 → blocked event → i ∈ t.finished := by
        rintro rfl hblocked
        exact not_not.mp fun hf => hb ⟨hblocked, hf⟩
      simp only [eventStep, hafter]
      simpa [view, ofChoice_append] using hnot
  refine ⟨d ++ ((event.get "usageMetadata").map fun usage => .usage (geminiUsage usage)).toList, u,
    ?_, fun i pre => ?_, ?_, ?_, hseen⟩
  · unfold geminiEventToChunks
    rw [h]
    dsimp only
    have hfold' := hfold
    simp only [start, identity] at hfold'
    rw [hfold', hblock]
  · rw [← List.append_assoc, ← hviews]
    rw [view, ofChoice_append, ofChoice_usage, List.append_nil]
    rfl
  · rw [List.filterMap_append, hopened]
    cases event.get "usageMetadata" <;> simp [StreamChunk.opened]
  · rw [List.filterMap_append, hreported]
    cases event.get "usageMetadata" <;> simp [StreamChunk.reported]

/-- What a run of events that are no errors does. -/
structure Runs (events : List Value) (s s' : GeminiStreamState) (chunks : List StreamChunk) :
    Prop where
  map : mapEvents (geminiEventToChunks toStr) events s = .ok (chunks, s')
  views : ∀ i pre, view i (pre ++ chunks, s') = events.foldl (eventStep toStr i) (view i (pre, s))
  opened : chunks.filterMap StreamChunk.opened =
    if s.seenStart then [] else (events.head?.map fun e => identity e s.fallbackModel).toList
  reported : chunks.filterMap StreamChunk.reported =
    (events.filterMap (·.get "usageMetadata")).map geminiUsage

theorem events_run {events : List Value} (h : ∀ e ∈ events, e.get "error" = none)
    (s : GeminiStreamState) : ∃ chunks s', Runs toStr events s s' chunks := by
  induction events generalizing s with
  | nil => exact ⟨[], s, rfl, fun i pre => by rw [List.append_nil]; rfl, by simp, rfl⟩
  | cons e events ih =>
    obtain ⟨c, t, he⟩ := event_run toStr (h e List.mem_cons_self) s
    obtain ⟨rest, u, hr⟩ := ih (fun e' he' => h e' (List.mem_cons_of_mem _ he')) t
    refine ⟨c ++ rest, u, mapEvents_cons he.map hr.map, fun i pre => ?_, ?_, ?_⟩
    · rw [← List.append_assoc, hr.views, he.views, List.foldl_cons]
    · rw [List.filterMap_append, he.opened, hr.opened, if_pos he.seen, List.append_nil]
      rfl
    · rw [List.filterMap_append, he.reported, hr.reported, List.filterMap_cons]
      cases e.get "usageMetadata" <;> rfl

/-! ## Cut texts -/

/-- Pieces of a text gather the text, and count no calls. -/
theorem collect_pieces (i : ℕ) {pieces : List Value} {texts : List String}
    (h : pieces.map (·.textAt ["text"]) = texts.map some) (acc : List StreamChunk × ℕ × Bool) :
    pieces.foldl (collectPart toStr i) acc =
      (acc.1 ++ texts.flatMap (fun t => contentChunk i (some t)), acc.2) := by
  induction pieces generalizing texts acc with
  | nil =>
    cases texts with
    | nil => simp
    | cons t texts => cases h
  | cons piece pieces ih =>
    cases texts with
    | nil => cases h
    | cons t texts =>
      simp only [List.map_cons, List.cons.injEq] at h
      rw [List.foldl_cons, ih h.2]
      simp [collectPart, h.1]

/-- What is collected of parts, up to how their texts are cut. -/
def SameParts (i : ℕ) (a b : List StreamChunk × ℕ × Bool) : Prop :=
  gathered i a.1 = gathered i b.1 ∧ a.2 = b.2

theorem SameParts.part {i : ℕ} {a b : List StreamChunk × ℕ × Bool} (h : SameParts i a b)
    (part : Value) : SameParts i (collectPart toStr i a part) (collectPart toStr i b part) := by
  obtain ⟨⟨ca, tool, saw⟩, cb, b2⟩ := a, b
  obtain ⟨hg, rfl⟩ := h
  have hadd (more : List StreamChunk) : gathered i (ca ++ more) = gathered i (cb ++ more) := by
    rw [gathered_append, gathered_append, show gathered i ca = gathered i cb from hg]
  unfold collectPart
  cases part.textAt ["text"] with
  | some text => exact ⟨hadd _, rfl⟩
  | none =>
    cases part.get "functionCall" with
    | none => exact ⟨hg, rfl⟩
    | some call => exact ⟨hadd _, rfl⟩

/-- Cutting texts changes nothing. -/
theorem Splits.same {rest whole : List Value} (h : Splits rest whole) (i : ℕ)
    {a b : List StreamChunk × ℕ × Bool} (hab : SameParts i a b) :
    SameParts i (rest.foldl (collectPart toStr i) a) (whole.foldl (collectPart toStr i) b) := by
  induction h generalizing a b with
  | nil => exact hab
  | @text part text pieces texts rest parts hpart hpieces hjoin _ ih =>
    rw [List.foldl_append, List.foldl_cons, collect_pieces toStr i hpieces]
    refine ih ⟨?_, ?_⟩
    · have hsum : gathered i (texts.flatMap fun t => contentChunk i (some t)) =
          Gathered.part (.content i text) := by
        rw [gathered_flatMap, ← hjoin, ← Gathered.sum_content]
        simp [gathered_contentChunk]
      simp [collectPart, hpart, gathered_append, hsum, hab.1, gathered_contentChunk]
    · simpa [collectPart, hpart] using hab.2
  | @other part rest parts hpart _ ih =>
    rw [List.foldl_cons, List.foldl_cons]
    exact ih (hab.part toStr part)

/-! ## One candidate, whole -/

/-- The reason that a candidate ends with. -/
def reasonOf (sawTool : Bool) (candidate : Value) : FinishReason :=
  if sawTool then .toolCalls
  else ((candidate.textAt ["finishReason"]).map mapFinishReason).getD .stop

theorem collectCandidate_eq (candidate : Value) : collectCandidate toStr candidate =
    ((parts candidate).foldl (collectPart toStr (candidate.indexAt ["index"])) ([], 0, false)).1 ++
      [.finish (candidate.indexAt ["index"]) (reasonOf ((parts candidate).foldl
        (collectPart toStr (candidate.indexAt ["index"])) ([], 0, false)).2.2 candidate)] := rfl

/-- Of parts come chunks of their candidate, and none that ends it. -/
theorem mem_collectParts (i : ℕ) (l : List Value) (acc : List StreamChunk × ℕ × Bool) :
    ∀ c ∈ (l.foldl (collectPart toStr i) acc).1,
      c ∈ acc.1 ∨ c.index = some i ∧ ∀ j, c.finishOf j = none := by
  induction l generalizing acc with
  | nil => exact fun c hc => .inl hc
  | cons part l ih =>
    intro c hc
    rcases ih _ c hc with hc | hc
    · obtain ⟨chunks, tool, sawTool⟩ := acc
      unfold collectPart at hc
      cases htext : part.textAt ["text"] with
      | some text =>
        simp only [htext, List.mem_append] at hc
        refine hc.imp_right fun hc => ?_
        by_cases hempty : text = ""
        · simp [contentChunk, hempty] at hc
        · simp only [contentChunk, if_neg hempty, List.mem_singleton] at hc
          rw [hc]
          exact ⟨rfl, fun _ => rfl⟩
      | none =>
        cases hcall : part.get "functionCall" with
        | none =>
          simp only [htext, hcall] at hc
          exact .inl hc
        | some call =>
          simp only [htext, hcall, List.mem_append, List.mem_singleton] at hc
          refine hc.imp_right fun hc => ?_
          rw [hc]
          exact ⟨rfl, fun _ => rfl⟩
    · exact .inr hc

/-- Candidates that are not ended only add their parts. -/
theorem candidates_open (i : ℕ) {l : List Value} (h : ∀ c ∈ l, c.textAt ["finishReason"] = none)
    (acc : (List StreamChunk × ℕ × Bool) × Bool) :
    l.foldl (candidateStep toStr i) acc =
      ((l.flatMap parts).foldl (collectPart toStr i) acc.1, acc.2) := by
  induction l generalizing acc with
  | nil => rfl
  | cons c l ih =>
    rw [List.foldl_cons, ih fun c' hc' => h c' (List.mem_cons_of_mem _ hc'), List.flatMap_cons,
      List.foldl_append, candidateStep, closeStep, h c List.mem_cons_self]

/-- A candidate that is spread over several is streamed with all its parts and one finish. -/
theorem Spreads.streamed {candidate last : Value} {inits : List Value}
    (h : Spreads candidate inits last) (hend : (candidate.textAt ["finishReason"]).isSome) (i : ℕ) :
    ((inits ++ [last]).foldl (candidateStep toStr i) (([], 0, false), false)).1.1 =
      (((inits ++ [last]).flatMap parts).foldl (collectPart toStr i) ([], 0, false)).1 ++
        [.finish i (reasonOf (((inits ++ [last]).flatMap parts).foldl
          (collectPart toStr i) ([], 0, false)).2.2 candidate)] := by
  obtain ⟨reason, hreason⟩ := Option.isSome_iff_exists.mp hend
  rw [List.foldl_append, candidates_open toStr i h.unended, List.foldl_cons, List.foldl_nil,
    candidateStep, closeStep, h.finish, hreason, List.flatMap_append, List.foldl_append]
  simp [reasonOf, hreason]

/-- Events without blocked prompts are taken in candidate by candidate. -/
theorem events_unblocked (i : ℕ) {events : List Value} (h : ∀ e ∈ events, blocked e = false)
    (acc : (List StreamChunk × ℕ × Bool) × Bool) :
    events.foldl (eventStep toStr i) acc =
      (entries i events).foldl (candidateStep toStr i) acc := by
  induction events generalizing acc with
  | nil => rfl
  | cons e events ih =>
    have he : entries i (e :: events) =
        (e.itemsAt ["candidates"]).filter (fun c => c.indexAt ["index"] = i) ++
          entries i events := by
      rw [entries, List.flatMap_cons, List.filter_append]
      rfl
    rw [List.foldl_cons, ih fun e' he' => h e' (List.mem_cons_of_mem _ he'), he,
      List.foldl_append, eventStep, h e List.mem_cons_self]
    simp

theorem index_collectCandidate (candidate : Value) : ∀ c ∈ collectCandidate toStr candidate,
    c.index = some (candidate.indexAt ["index"]) := by
  intro c hc
  rw [collectCandidate_eq] at hc
  rcases List.mem_append.mp hc with hc | hc
  · rcases mem_collectParts toStr _ _ _ c hc with hc | hc
    · cases hc
    · exact hc.1
  · rw [List.mem_singleton.mp hc]
    rfl

/-- The chunks of a choice, in a collected response. -/
theorem ofChoice_collected (object : Value) (fallback : String) (i : ℕ) :
    ofChoice i (geminiToChunks toStr object fallback) =
      ((object.itemsAt ["candidates"]).filter fun c => c.indexAt ["index"] = i).flatMap
        (collectCandidate toStr) ++
      (if object.itemsAt ["candidates"] = [] ∧ i = 0 then
        [.finish 0 (if blocked object then .contentFilter else .stop)] else []) := by
  have hall := ofChoice_flatMap (index_collectCandidate toStr) i (object.itemsAt ["candidates"])
  have hstart (id model : String) : ofChoice i [.start id model] = [] := by
    simp [ofChoice, StreamChunk.index]
  simp only [geminiToChunks, ofChoice_append, hstart, hall, ofChoice_usage, List.nil_append,
    List.append_nil]
  congr 1
  by_cases hnil : object.itemsAt ["candidates"] = []
  · by_cases hi : i = 0
    · simp [hnil, ofChoice_finish, hi]
    · simp [hnil, ofChoice_finish, hi, Ne.symm hi]
  · simp [hnil, ofChoice]

variable {object : Value} {events : List Value} {chunks : List StreamChunk}
  {s' : GeminiStreamState} {fallback : String}

/-- The chunks of a choice, in a streamed response. -/
theorem Runs.ofChoice (h : Runs toStr events (initial fallback) s' chunks) (i : ℕ) :
    ofChoice i chunks = (events.foldl (eventStep toStr i) (([], 0, false), false)).1.1 :=
  congrArg (fun v => v.1.1) (h.views i [])

/-- Both streams have the choice not at all, or with the same content and one and the same finish. -/
def Agree (i : ℕ) (a b : List StreamChunk) : Prop :=
  (Llmleaf.ofChoice i a = [] ∧ Llmleaf.ofChoice i b = []) ∨
    ∃ c d reason, Llmleaf.ofChoice i a = c ++ [.finish i reason] ∧
      Llmleaf.ofChoice i b = d ++ [.finish i reason] ∧ gathered i c = gathered i d ∧
      ∀ x ∈ c ++ d, ∀ j, x.finishOf j = none

theorem Agree.gathered {i : ℕ} {a b : List StreamChunk} (h : Agree i a b) :
    gathered i a = gathered i b := by
  rw [← gathered_ofChoice, ← gathered_ofChoice i b]
  rcases h with ⟨ha, hb⟩ | ⟨c, d, reason, ha, hb, hcd, -⟩
  · rw [ha, hb]
  · rw [ha, hb, gathered_append, gathered_append, hcd]

theorem Agree.occur {i : ℕ} {a b : List StreamChunk} (h : Agree i a b) :
    Llmleaf.ofChoice i a ≠ [] ↔ Llmleaf.ofChoice i b ≠ [] := by
  rcases h with ⟨ha, hb⟩ | ⟨c, d, reason, ha, hb, -⟩
  · rw [ha, hb]
  · simp [ha, hb]

/-- A choice that occurs ends once. -/
theorem Agree.finishes {i : ℕ} {a b : List StreamChunk} (h : Agree i a b)
    (hne : Llmleaf.ofChoice i b ≠ []) : (a.filterMap (StreamChunk.finishOf i)).length = 1 ∧
      (b.filterMap (StreamChunk.finishOf i)).length = 1 := by
  rcases h with ⟨-, hb⟩ | ⟨c, d, reason, ha, hb, -, hnone⟩
  · exact absurd hb hne
  · have hc : c.filterMap (StreamChunk.finishOf i) = [] := List.filterMap_eq_nil_iff.mpr
      fun x hx => hnone x (List.mem_append_left _ hx) i
    have hd : d.filterMap (StreamChunk.finishOf i) = [] := List.filterMap_eq_nil_iff.mpr
      fun x hx => hnone x (List.mem_append_right _ hx) i
    rw [StreamChunk.filterMap_finishOf, StreamChunk.filterMap_finishOf i b, ha, hb,
      List.filterMap_append, List.filterMap_append, hc, hd]
    simp [StreamChunk.finishOf]

theorem Agree.mem {i : ℕ} {a b : List StreamChunk} (h : Agree i a b)
    (hne : Llmleaf.ofChoice i b ≠ []) :
    ∃ reason, StreamChunk.finish i reason ∈ a ∧ StreamChunk.finish i reason ∈ b := by
  rcases h with ⟨-, hb⟩ | ⟨c, d, reason, ha, hb, -⟩
  · exact absurd hb hne
  · have hlast (l : List StreamChunk) : StreamChunk.finish i reason ∈ l ++ [.finish i reason] :=
      List.mem_append_right _ List.mem_cons_self
    exact ⟨reason, (List.mem_filter.mp (ha ▸ hlast c)).1, (List.mem_filter.mp (hb ▸ hlast d)).1⟩

/-- A candidate is streamed as it is collected. -/
theorem Renders.candidate (hr : Renders object events)
    (h : Runs toStr events (initial fallback) s' chunks) {c : Value}
    (hc : c ∈ object.itemsAt ["candidates"]) :
    Agree (c.indexAt ["index"]) chunks (geminiToChunks toStr object fallback) ∧
      Llmleaf.ofChoice (c.indexAt ["index"]) (geminiToChunks toStr object fallback) ≠ [] := by
  have hne : object.itemsAt ["candidates"] ≠ [] := List.ne_nil_of_mem hc
  have hunblocked : ∀ e ∈ events, blocked e = false := fun e he => by
    by_contra hb
    exact hne (hr.feedback (hr.block.mpr ⟨e, he, by simpa using hb⟩))
  obtain ⟨inits, last, hentries, hspread⟩ := hr.spread c hc
  obtain ⟨hgathered, hsame⟩ := hspread.split.same toStr (c.indexAt ["index"])
    (show SameParts (c.indexAt ["index"]) ([], 0, false) ([], 0, false) from ⟨rfl, rfl⟩)
  have hcollected : Llmleaf.ofChoice (c.indexAt ["index"]) (geminiToChunks toStr object fallback) =
      ((parts c).foldl (collectPart toStr (c.indexAt ["index"])) ([], 0, false)).1 ++
        [.finish (c.indexAt ["index"]) (reasonOf ((parts c).foldl
          (collectPart toStr (c.indexAt ["index"])) ([], 0, false)).2.2 c)] := by
    rw [ofChoice_collected, Folds.filter_key hr.distinct hc, if_neg fun hn => hne hn.1]
    simp [collectCandidate_eq]
  refine ⟨.inr ⟨_, _, _, ?_, hcollected, hgathered, fun x hx j => ?_⟩, by simp [hcollected]⟩
  · rw [h.ofChoice, events_unblocked toStr _ hunblocked, hentries,
      hspread.streamed toStr (hr.ended c hc), hsame]
  · rcases List.mem_append.mp hx with hx | hx
    · rcases mem_collectParts toStr _ _ _ x hx with hx | hx
      · cases hx
      · exact hx.2 j
    · rcases mem_collectParts toStr _ _ _ x hx with hx | hx
      · cases hx
      · exact hx.2 j

/-- No other choice is streamed or collected, where there are candidates. -/
theorem Renders.noOther (hr : Renders object events)
    (h : Runs toStr events (initial fallback) s' chunks) (hne : object.itemsAt ["candidates"] ≠ [])
    {i : ℕ} (hi : ∀ c ∈ object.itemsAt ["candidates"], c.indexAt ["index"] ≠ i) :
    Llmleaf.ofChoice i chunks = [] ∧
      Llmleaf.ofChoice i (geminiToChunks toStr object fallback) = [] := by
  have hunblocked : ∀ e ∈ events, blocked e = false := fun e he => by
    by_contra hb
    exact hne (hr.feedback (hr.block.mpr ⟨e, he, by simpa using hb⟩))
  have hentries : entries i events = [] := by
    refine List.filter_eq_nil_iff.mpr fun x hx hp => ?_
    obtain ⟨e, he, hxe⟩ := List.mem_flatMap.mp hx
    obtain ⟨c, hc, hindex⟩ := hr.known e he x hxe
    exact hi c hc (hindex ▸ of_decide_eq_true hp)
  constructor
  · rw [h.ofChoice, events_unblocked toStr _ hunblocked, hentries]
    rfl
  · rw [ofChoice_collected, List.filter_eq_nil_iff.mpr fun c hc hp => hi c hc (of_decide_eq_true hp),
      if_neg fun hn => hne hn.1]
    rfl

/-- Where there are no candidates, a stream ends only if the prompt was blocked. -/
theorem Renders.noCandidates (hr : Renders object events)
    (h : Runs toStr events (initial fallback) s' chunks) (hnil : object.itemsAt ["candidates"] = [])
    (i : ℕ) :
    Llmleaf.ofChoice i chunks = (if i = 0 ∧ blocked object then [.finish 0 .contentFilter] else []) ∧
      Llmleaf.ofChoice i (geminiToChunks toStr object fallback) =
        if i = 0 then [.finish 0 (if blocked object then .contentFilter else .stop)] else [] := by
  have hnone : ∀ e ∈ events, e.itemsAt ["candidates"] = [] := by
    refine fun e he => List.eq_nil_iff_forall_not_mem.mpr fun x hx => ?_
    obtain ⟨c, hc, -⟩ := hr.known e he x hx
    rw [hnil] at hc
    cases hc
  have hfold (l : List Value) (hl : ∀ e ∈ l, e.itemsAt ["candidates"] = [])
      (acc : (List StreamChunk × ℕ × Bool) × Bool) :
      (l.foldl (eventStep toStr i) acc).1.1 = acc.1.1 ++
        if i = 0 ∧ acc.2 = false ∧ ∃ e ∈ l, blocked e then [.finish 0 .contentFilter] else [] := by
    induction l generalizing acc with
    | nil => simp
    | cons e l ih =>
      rw [List.foldl_cons, ih fun e' he' => hl e' (List.mem_cons_of_mem _ he'), eventStep,
        hl e List.mem_cons_self]
      by_cases hi : i = 0 <;> cases hb : blocked e <;> cases hf : acc.2 <;> simp [hi, hb, hf]
  constructor
  · rw [h.ofChoice, hfold events hnone]
    simp [← hr.block]
  · rw [ofChoice_collected, hnil]
    simp

/-- The last report. -/
theorem Renders.usage_eq (hr : Renders object events)
    (h : Runs toStr events (initial fallback) s' chunks) :
    lastUsage chunks = lastUsage (geminiToChunks toStr object fallback) := by
  have hcollected : (geminiToChunks toStr object fallback).filterMap StreamChunk.reported =
      ((object.get "usageMetadata").map geminiUsage).toList := by
    have hcandidates : ((object.itemsAt ["candidates"]).flatMap
        (collectCandidate toStr)).filterMap StreamChunk.reported = [] := by
      refine List.filterMap_eq_nil_iff.mpr fun c hc => ?_
      obtain ⟨candidate, -, hc⟩ := List.mem_flatMap.mp hc
      exact reported_of_index (index_collectCandidate toStr candidate c hc)
    simp only [geminiToChunks, List.filterMap_append, hcandidates]
    by_cases hnil : object.itemsAt ["candidates"] = [] <;>
      cases object.get "usageMetadata" <;>
      simp [hnil, List.filterMap_cons, StreamChunk.reported]
  rw [lastUsage, lastUsage, h.reported, hcollected, List.getLast?_map]
  have husage := hr.usage
  generalize (events.filterMap (·.get "usageMetadata")).getLast? = last at husage ⊢
  generalize object.get "usageMetadata" = report at husage ⊢
  cases husage with
  | none => rfl
  | some hcounts =>
    simp only [Option.map_some, Option.toList_some, List.getLast?_singleton, Option.some.injEq]
    simp only [geminiUsage, hcounts _ List.mem_cons_self,
      hcounts "candidatesTokenCount" (by simp), hcounts "totalTokenCount" (by simp),
      hcounts "cachedContentTokenCount" (by simp)]

/-- Both streams start once, with the same identity. -/
theorem Renders.start_eq (hr : Renders object events)
    (h : Runs toStr events (initial fallback) s' chunks) :
    chunks.filterMap StreamChunk.opened = [identity object fallback] ∧
      (geminiToChunks toStr object fallback).filterMap StreamChunk.opened =
        [identity object fallback] := by
  obtain ⟨first, hfirst, hid, hmodel⟩ := hr.first
  have hcandidates : ((object.itemsAt ["candidates"]).flatMap
      (collectCandidate toStr)).filterMap StreamChunk.opened = [] := by
    refine List.filterMap_eq_nil_iff.mpr fun c hc => ?_
    obtain ⟨candidate, -, hc⟩ := List.mem_flatMap.mp hc
    exact opened_of_index (index_collectCandidate toStr candidate c hc)
  constructor
  · rw [h.opened, Option.mem_def.mp hfirst]
    simp [initial, identity, hid, hmodel]
  · simp only [geminiToChunks, List.filterMap_append, hcandidates]
    by_cases hnil : object.itemsAt ["candidates"] = [] <;>
      cases object.get "usageMetadata" <;>
      simp [hnil, List.filterMap_cons, StreamChunk.opened, identity]

/-- With a candidate or a blocked prompt, both streams agree on every choice. -/
theorem Renders.agree (hr : Renders object events)
    (h : Runs toStr events (initial fallback) s' chunks)
    (hsome : object.itemsAt ["candidates"] ≠ [] ∨ blocked object) (i : ℕ) :
    Agree i chunks (geminiToChunks toStr object fallback) := by
  by_cases hnil : object.itemsAt ["candidates"] = []
  · have hblocked := hsome.resolve_left fun hne => hne hnil
    obtain ⟨ha, hb⟩ := hr.noCandidates toStr h hnil i
    rw [hblocked] at ha hb
    by_cases hi : i = 0
    · subst hi
      exact .inr ⟨[], [], .contentFilter, by simpa using ha, by simpa using hb, rfl, by simp⟩
    · exact .inl ⟨by simpa [hi] using ha, by simpa [hi] using hb⟩
  · by_cases hc : ∃ c ∈ object.itemsAt ["candidates"], c.indexAt ["index"] = i
    · obtain ⟨c, hc, rfl⟩ := hc
      exact (hr.candidate toStr h hc).1
    · exact .inl (hr.noOther toStr h hnil fun c hmem hi => hc ⟨c, hmem, hi⟩)

/-- A choice of both streams ends in both. -/
theorem Renders.some (hr : Renders object events)
    (h : Runs toStr events (initial fallback) s' chunks) :
    ∃ i, Llmleaf.ofChoice i (geminiToChunks toStr object fallback) ≠ [] := by
  by_cases hnil : object.itemsAt ["candidates"] = []
  · refine ⟨0, ?_⟩
    rw [(hr.noCandidates toStr h hnil 0).2]
    simp
  · obtain ⟨c, hc⟩ := List.exists_mem_of_ne_nil _ hnil
    exact ⟨_, (hr.candidate toStr h hc).2⟩

/-- One start, one finish for every candidate, and at least one finish. -/
structure Complete (object : Value) (chunks : List StreamChunk) : Prop where
  start : (chunks.filterMap StreamChunk.opened).length = 1
  each : ∀ c ∈ object.itemsAt ["candidates"],
    (chunks.filterMap (StreamChunk.finishOf (c.indexAt ["index"]))).length = 1
  some : ∃ i reason, StreamChunk.finish i reason ∈ chunks

end

/-- **A streamed response is collected like the collected one, both complete, exactly if there is a
candidate or the prompt was blocked.** -/
theorem gemini_streamed_iff (toStr : Value → String) {object : Value} {events : List Value}
    (hr : Renders object events) (fallback : String) :
    ∃ chunks s', mapEvents (geminiEventToChunks toStr) events (initial fallback) =
        .ok (chunks, s') ∧
      (collectChunks chunks = collectChunks (geminiToChunks toStr object fallback) ∧
          Complete object chunks ∧ Complete object (geminiToChunks toStr object fallback) ↔
        object.itemsAt ["candidates"] ≠ [] ∨ blocked object) := by
  obtain ⟨chunks, s', h⟩ := events_run toStr hr.clean (initial fallback)
  refine ⟨chunks, s', h.map, ⟨?_, ?_⟩⟩
  · rintro ⟨-, hcomplete, -⟩
    by_contra hnot
    rw [not_or, not_not] at hnot
    obtain ⟨i, reason, hmem⟩ := hcomplete.some
    have hchoice := (hr.noCandidates toStr h hnot.1 i).1
    rw [if_neg fun hb => hnot.2 hb.2] at hchoice
    have hin : StreamChunk.finish i reason ∈ ofChoice i chunks :=
      List.mem_filter.mpr ⟨hmem, by simp [StreamChunk.index]⟩
    rw [hchoice] at hin
    cases hin
  · intro hsome
    have hstart := hr.start_eq toStr h
    have hagree := hr.agree toStr h hsome
    have hframe : SameFrame chunks (geminiToChunks toStr object fallback) :=
      ⟨by rw [lastStart, lastStart, hstart.1, hstart.2], fun i => (hagree i).occur⟩
    obtain ⟨i, hi⟩ := hr.some toStr h
    obtain ⟨reason, hstreamed, hcollected⟩ := (hagree i).mem hi
    have heach (c : Value) (hc : c ∈ object.itemsAt ["candidates"]) :=
      (hagree _).finishes (hr.candidate toStr h hc).2
    refine ⟨?_, ⟨?_, fun c hc => (heach c hc).1, i, reason, hstreamed⟩,
      ⟨?_, fun c hc => (heach c hc).2, i, reason, hcollected⟩⟩
    · rw [hframe.collectChunks_gathered fun i => (hagree i).gathered, hr.usage_eq toStr h]
    · rw [hstart.1]
      rfl
    · rw [hstart.2]
      rfl

end Gemini

section

open Gemini Value

/-- A part that calls a function. -/
def geminiCall : Value := obj [("functionCall", obj [("name", string "f"), ("args", obj [])])]

/-- A candidate of some parts, ended or not. -/
def geminiCandidate (parts : List Value) (finish : List (String × Value)) : Value :=
  obj ([("index", nat 0), ("content", obj [("parts", array parts)])] ++ finish)

/-- A response of one text and one call. -/
def geminiAnswer : Value := obj [("responseId", string "g"), ("candidates", array [geminiCandidate
  [obj [("text", string "hi")], geminiCall] [("finishReason", string "STOP")]])]

/-- The events that stream it: the text in two pieces, then the call with the finish reason. -/
def geminiEvents : List Value := [
  obj [("responseId", string "g"), ("candidates", array [geminiCandidate
    [obj [("text", string "h")]] []])],
  obj [("candidates", array [geminiCandidate [obj [("text", string "i")], geminiCall]
    [("finishReason", string "STOP")]])]]

example : (geminiEvents.flatMap (·.itemsAt ["candidates"])).length = 2 := by decide +kernel

theorem geminiAnswer_renders : Renders geminiAnswer geminiEvents := by
  refine ⟨⟨_, rfl, by decide +kernel, by decide +kernel⟩, by decide +kernel, by decide +kernel,
    by decide +kernel, by decide +kernel, fun c hc => ?_, by decide +kernel, by decide +kernel, ?_⟩
  · have hone : geminiAnswer.itemsAt ["candidates"] = [geminiCandidate
        [obj [("text", string "hi")], geminiCall] [("finishReason", string "STOP")]] := by
      decide +kernel
    rw [hone, List.mem_singleton] at hc
    subst hc
    refine ⟨[geminiCandidate [obj [("text", string "h")]] []], geminiCandidate
      [obj [("text", string "i")], geminiCall] [("finishReason", string "STOP")], by decide +kernel,
      by decide +kernel, by decide +kernel, ?_⟩
    have hwhole : (obj [("text", string "hi")]).textAt ["text"] = some "hi" := by decide +kernel
    have hpieces : [obj [("text", string "h")], obj [("text", string "i")]].map (·.textAt ["text"]) =
        ["h", "i"].map some := by decide +kernel
    have htext : Splits ([obj [("text", string "h")], obj [("text", string "i")]] ++ [geminiCall])
        [obj [("text", string "hi")], geminiCall] :=
      .text hwhole hpieces (by decide +kernel) (.other (by decide +kernel) .nil)
    have hparts : ([geminiCandidate [obj [("text", string "h")]] []] ++ [geminiCandidate
        [obj [("text", string "i")], geminiCall] [("finishReason", string "STOP")]]).flatMap
        Gemini.parts = [obj [("text", string "h")], obj [("text", string "i")]] ++ [geminiCall] := by
      decide +kernel
    rw [hparts]
    exact htext
  · rw [show (geminiEvents.filterMap (·.get "usageMetadata")).getLast? = none by decide +kernel,
      show geminiAnswer.get "usageMetadata" = none by decide +kernel]
    exact .none

theorem gemini_streamed_iff_answer :
    ∃ chunks s', mapEvents (geminiEventToChunks fun _ => "\x7b\x7d") geminiEvents
        (initial "gemini-2.5-pro") = .ok (chunks, s') ∧
      (collectChunks chunks =
          collectChunks (geminiToChunks (fun _ => "\x7b\x7d") geminiAnswer "gemini-2.5-pro") ∧
          Complete geminiAnswer chunks ∧
          Complete geminiAnswer
            (geminiToChunks (fun _ => "\x7b\x7d") geminiAnswer "gemini-2.5-pro") ↔
        geminiAnswer.itemsAt ["candidates"] ≠ [] ∨ blocked geminiAnswer) :=
  gemini_streamed_iff (fun _ => "\x7b\x7d") geminiAnswer_renders "gemini-2.5-pro"

/-- A response without candidates that was not blocked: collected it stops, streamed it never ends. -/
theorem gemini_no_candidates :
    let object := obj [("responseId", string "g")]
    Renders object [object] ∧
    ∃ chunks s', mapEvents (geminiEventToChunks fun _ => "\x7b\x7d") [object]
        (initial "gemini-2.5-pro") = .ok (chunks, s') ∧
      (∀ i reason, StreamChunk.finish i reason ∉ chunks) ∧
      collectChunks chunks ≠
        collectChunks (geminiToChunks (fun _ => "\x7b\x7d") object "gemini-2.5-pro") := by
  refine ⟨⟨⟨_, rfl, rfl, rfl⟩, by decide +kernel, by decide +kernel, by decide +kernel,
    by decide +kernel, ?_, by decide +kernel, by decide +kernel, ?_⟩,
    [.start "g" "gemini-2.5-pro"], _, rfl, by simp, by decide +kernel⟩
  · intro c hc
    rw [show (obj [("responseId", string "g")]).itemsAt ["candidates"] = [] by decide +kernel] at hc
    cases hc
  · rw [show ([obj [("responseId", string "g")]].filterMap (·.get "usageMetadata")).getLast? = none
      by decide +kernel,
      show (obj [("responseId", string "g")]).get "usageMetadata" = none by decide +kernel]
    exact .none

end

end Llmleaf
