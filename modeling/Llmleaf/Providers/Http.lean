import Llmleaf.Lib.Lines
import Llmleaf.Lib.Strings
import Llmleaf.Providers.OpenaiWire
import Llmleaf.Providers.ResponsesWire

/-!
# Server-sent events

The body of a streamed response comes in chunks of bytes. Its complete lines are cut off, those with a
`data:` field are decoded, and what a mapper makes of them goes out as the canonical stream. A line
that is not complete waits in a buffer, which is dropped when it has become too long.

- `ssePayloads`: the payloads that a chunk completes.
- `jsonSseToStream`, `openaiSseToStreamChecked`, `openaiResponsesSseToStream`: the decoding loops.
- **Result** (`sse_independent_iff`): how a body is cut into chunks does not matter exactly if its
  overlong lines, and their ends, have no `data:` field.
-/

namespace Llmleaf

/-- The longest line that is kept while it is not complete. -/
def maxSseLineBytes : ℕ := 8 * 1024 * 1024

/-- The `data:` field of a line. -/
def sseField (line : List UInt8) : Option String :=
  let line := if line.getLast? = some 13 then line.dropLast else line
  match Strings.fromUtf8 line with
  | some line =>
    let line := Strings.trim line
    if line = "" ∨ ":".toList <+: line.toList then none
    else (Strings.stripPrefix line "data:").map fun rest =>
      (Strings.stripPrefix rest " ").getD rest
  | none => none

/-- The payloads that a chunk completes, and the buffer after it. -/
def ssePayloads (buf incoming : List UInt8) : List String × List UInt8 :=
  let (lines, buf) := Lines.feed 10 maxSseLineBytes buf incoming
  (lines.filterMap sseField, buf)

/-- An element of the canonical stream, or the error that ends it. -/
abbrev StreamItem := Except ModelError StreamChunk

/-- What a payload adds to the stream, and the state after it; without one the stream ends. -/
abbrev Handler (σ : Type) := String → σ → List StreamItem × Option σ

section

variable {σ : Type}

/-- The payloads of one chunk. -/
def payloadLoop (handle : Handler σ) : List String → σ → List StreamItem × Option σ
  | [], state => ([], some state)
  | payload :: payloads, state =>
    match handle payload state with
    | (items, some state) =>
      let (more, state) := payloadLoop handle payloads state
      (items ++ more, state)
    | (items, none) => (items, none)

/-- The loop over the body of a response; between two chunks it may be `finished`. -/
def sseLoop (handle : Handler σ) (finished : σ → Bool) :
    List UInt8 → σ → List (Except ModelError (List UInt8)) → List StreamItem
  | _, _, [] => []
  | _, _, .error error :: _ => [.error error]
  | buf, state, .ok chunk :: body =>
    let (payloads, buf) := ssePayloads buf chunk
    match payloadLoop handle payloads state with
    | (items, none) => items
    | (items, some state) =>
      if finished state then items else items ++ sseLoop handle finished buf state body

-- reading of a document, with the text of the error
variable (parse : String → Except String Value)

/-- A payload for the mapper of a provider. -/
def jsonPayload (map : Value → σ → Except ModelError (List StreamChunk × σ)) : Handler σ :=
  fun payload state =>
    if payload = "[DONE]" then ([], none)
    else
      match parse payload with
      | .ok value =>
        match map value state with
        | .ok (chunks, state) => (chunks.map .ok, some state)
        | .error error => ([.error error], none)
      | .error text => ([.error (.mapping text)], none)

/-- The stream of a provider with a mapper of its own. -/
def jsonSseToStream (map : Value → σ → Except ModelError (List StreamChunk × σ)) (state : σ)
    (body : List (Except ModelError (List UInt8))) : List StreamItem :=
  sseLoop (jsonPayload parse map) (fun _ => false) [] state body

/-- A chunk of chat completions, after the check of its envelope. -/
def checkedChunk (check : Value → Option ModelError) (model : String) (value : Value)
    (seenStart : Bool) : Except ModelError (List StreamChunk × Bool) :=
  match check value with
  | some error => .error error
  | none => .ok (openaiChunkToCanonical value seenStart model)

/-- The stream of chat completions. -/
def openaiSseToStreamChecked (check : Value → Option ModelError) (model : String)
    (body : List (Except ModelError (List UInt8))) : List StreamItem :=
  sseLoop (jsonPayload parse (checkedChunk check model)) (fun _ => false) [] false body

/-- A payload of the Responses stream, where a sentinel is skipped. -/
def responsesPayload (toStr : Value → String) : Handler ResponsesSseState :=
  fun payload state =>
    if payload = "[DONE]" then ([], some state)
    else
      match parse payload with
      | .ok value =>
        if value.textAt ["type"] = some "error" then
          ([.error (.upstream 500 ((value.textAt ["message"]).getD (toStr value)))], none)
        else
          let (chunks, state) := openaiResponsesEventToCanonical value state
          (chunks.map .ok, some state)
      | .error text => ([.error (.mapping text)], none)

/-- The Responses stream, which its terminal event ends. -/
def openaiResponsesSseToStream (toStr : Value → String) (model : String) (preserveOrder : Bool)
    (body : List (Except ModelError (List UInt8))) : List StreamItem :=
  let state := ResponsesSseState.new model
  sseLoop (responsesPayload parse toStr) ResponsesSseState.finished []
    (if preserveOrder then state.preservingOrder else state) body

end

/-! ## The payloads of a body -/

/-- The payloads of a body in chunks. -/
def payloadsOf : List UInt8 → List (List UInt8) → List String
  | _, [] => []
  | buf, chunk :: chunks =>
    let (payloads, buf) := ssePayloads buf chunk
    payloads ++ payloadsOf buf chunks

/-- The complete lines of a body. -/
def completeLines (bytes : List UInt8) : List (List UInt8) := (Lines.cut 10 [] bytes).1

theorem payloadsOf_eq (buf : List UInt8) (chunks : List (List UInt8)) :
    payloadsOf buf chunks = (Lines.run 10 maxSseLineBytes buf chunks).filterMap sseField := by
  induction chunks generalizing buf with
  | nil => rfl
  | cons chunk chunks ih =>
    rw [Lines.run, List.filterMap_append, ← ih]
    rfl

section

variable {σ : Type} {handle : Handler σ}

theorem payloadLoop_append (payloads more : List String) (state : σ) :
    payloadLoop handle (payloads ++ more) state =
      match payloadLoop handle payloads state with
      | (items, some state) =>
        ((items ++ (payloadLoop handle more state).1), (payloadLoop handle more state).2)
      | (items, none) => (items, none) := by
  induction payloads generalizing state with
  | nil => rfl
  | cons payload payloads ih =>
    rw [List.cons_append, payloadLoop, payloadLoop]
    obtain ⟨items, next⟩ := handle payload state
    cases next with
    | none => rfl
    | some next =>
      dsimp only
      rw [ih]
      obtain ⟨rest, last⟩ := payloadLoop handle payloads next
      cases last <;> simp

/-- **A loop that never finishes between chunks depends on the payloads only.** -/
theorem sseLoop_eq (buf : List UInt8) (state : σ) (chunks : List (List UInt8)) :
    sseLoop handle (fun _ => false) buf state (chunks.map .ok) =
      (payloadLoop handle (payloadsOf buf chunks) state).1 := by
  induction chunks generalizing buf state with
  | nil => rfl
  | cons chunk chunks ih =>
    rw [List.map_cons, sseLoop, payloadsOf, payloadLoop_append]
    obtain ⟨payloads, buf'⟩ := ssePayloads buf chunk
    dsimp only
    obtain ⟨items, next⟩ := payloadLoop handle payloads state
    cases next with
    | none => rfl
    | some next =>
      dsimp only
      rw [if_neg Bool.false_ne_true, ih]

end

theorem sseField_nil : sseField [] = none := by
  have hnil : Strings.fromUtf8 [] = some "" := Strings.fromUtf8_bytes ""
  simp [sseField, hnil, Strings.trim]

/-- Of a long line, only what comes behind the end of a chunk is read. -/
theorem payloadsOf_two {line : List UInt8} {q : ℕ} (hline : (10 : UInt8) ∉ line)
    (hq : maxSseLineBytes < q) (hle : q ≤ line.length) :
    payloadsOf [] [line.take q, line.drop q ++ [10]] = (sseField (line.drop q)).toList := by
  have hstart : Lines.cut (10 : UInt8) [] [] = ([], []) := rfl
  have hrun : Lines.run 10 maxSseLineBytes [] [[] ++ line.take q, line.drop q ++ [10]] =
      [] ++ [line.drop q] := Lines.run_two hstart hline hq hle
  rw [List.nil_append, List.nil_append] at hrun
  rw [payloadsOf_eq, hrun]
  cases h : sseField (line.drop q) with
  | none => exact List.filterMap_cons_none h
  | some field => exact List.filterMap_cons_some h

/-- What a body cut into chunks gives: the payloads, and the streams made of them. -/
structure SameDecoding (parse : String → Except String Value) (chunks chunks' : List (List UInt8)) :
    Prop where
  payloads : payloadsOf [] chunks = payloadsOf [] chunks'
  json : ∀ (σ : Type) (map : Value → σ → Except ModelError (List StreamChunk × σ)) (state : σ),
    jsonSseToStream parse map state (chunks.map .ok) =
      jsonSseToStream parse map state (chunks'.map .ok)
  openai : ∀ (check : Value → Option ModelError) (model : String),
    openaiSseToStreamChecked parse check model (chunks.map .ok) =
      openaiSseToStreamChecked parse check model (chunks'.map .ok)

theorem SameDecoding.of_payloads (parse : String → Except String Value)
    {chunks chunks' : List (List UInt8)} (h : payloadsOf [] chunks = payloadsOf [] chunks') :
    SameDecoding parse chunks chunks' where
  payloads := h
  json σ map state := by
    rw [jsonSseToStream, jsonSseToStream, sseLoop_eq, sseLoop_eq, h]
  openai check model := by
    rw [openaiSseToStreamChecked, openaiSseToStreamChecked, sseLoop_eq, sseLoop_eq, h]

/-- **How a body is cut into chunks does not matter, and every payload is the field of a complete
line, exactly if no line that is too long has a field**, and no end of it behind the bound. -/
theorem sse_independent_iff (parse : String → Except String Value) (bytes : List UInt8) :
    ((∀ chunks chunks' : List (List UInt8), chunks.flatten = bytes → chunks'.flatten = bytes →
        SameDecoding parse chunks chunks') ∧
      ∀ chunks : List (List UInt8), chunks.flatten = bytes → ∀ payload ∈ payloadsOf [] chunks,
        ∃ line ∈ completeLines bytes, sseField line = some payload) ↔
      ∀ line ∈ completeLines bytes, Lines.Silent maxSseLineBytes sseField line := by
  constructor
  · rintro ⟨hall, -⟩
    refine (Lines.filterMap_run_iff sseField_nil bytes).mp fun chunks chunks' h h' => ?_
    rw [← payloadsOf_eq, ← payloadsOf_eq]
    exact (hall chunks chunks' h h').payloads
  · intro hsilent
    refine ⟨fun chunks chunks' h h' => .of_payloads parse ?_, fun chunks h payload hp => ?_⟩
    · rw [payloadsOf_eq, payloadsOf_eq]
      exact (Lines.filterMap_run_iff sseField_nil bytes).mpr hsilent chunks chunks' h h'
    · subst h
      rw [payloadsOf_eq, Lines.filterMap_run hsilent] at hp
      exact List.mem_filterMap.mp hp

section

/-- A long beginning of a line. -/
def sseFiller : List UInt8 := List.replicate (maxSseLineBytes + 1) 120

/-- How much of it survives depends on where a chunk ends: the line has no `data:` field, but its end
passes for one. -/
theorem sse_chunks_matter :
    [sseFiller, Strings.bytes "data: y" ++ [10]].flatten =
        [sseFiller ++ Strings.bytes "data: y", [10]].flatten ∧
      payloadsOf [] [sseFiller, Strings.bytes "data: y" ++ [10]] = ["y"] ∧
      payloadsOf [] [sseFiller ++ Strings.bytes "data: y", [10]] = [] := by
  have hlong : maxSseLineBytes < sseFiller.length := by
    rw [sseFiller, List.length_replicate]
    exact Nat.lt_succ_self _
  have hle : sseFiller.length ≤ (sseFiller ++ Strings.bytes "data: y").length := by
    rw [List.length_append]
    exact Nat.le_add_right _ _
  have hline : (10 : UInt8) ∉ sseFiller ++ Strings.bytes "data: y" := by
    rw [List.mem_append, not_or]
    exact ⟨fun h => absurd (List.eq_of_mem_replicate h) (by decide), by decide +kernel⟩
  have hfield : sseField (Strings.bytes "data: y") = some "y" := by
    have hlast : (Strings.bytes "data: y").getLast? ≠ some 13 := by decide +kernel
    rw [sseField, if_neg hlast, Strings.fromUtf8_bytes]
    decide +kernel
  refine ⟨?_, ?_, ?_⟩
  · simp only [List.flatten_cons, List.flatten_nil, List.append_nil, List.append_assoc]
  · have htwo := payloadsOf_two hline hlong hle
    rwa [List.take_left, List.drop_left, hfield] at htwo
  · have htwo := payloadsOf_two hline (Nat.lt_of_lt_of_le hlong hle) (Nat.le_refl _)
    rwa [List.take_length, List.drop_length, sseField_nil] at htwo

end

end Llmleaf
