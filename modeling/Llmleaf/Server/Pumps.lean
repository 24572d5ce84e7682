import Llmleaf.Compat.Anthropic
import Llmleaf.Compat.Openai
import Llmleaf.Compat.Responses
import Llmleaf.Lifecycle
import Llmleaf.Pipeline.Accounting

/-!
# From the canonical stream to the consumer

Every chat surface writes the canonical stream out in its own dialect. A stream that ends is
finished with the closing frames of the dialect, an error is written instead of them.

- `sseFromResponse`, `anthropicSseFromResponse`, `responsesSseFromResponse`: the three
  ways out.
- `anthropic_error`, `responses_error`: with an error there are no closing frames.
-/

namespace Llmleaf

/-- The canonical stream behind the engine, which prices what a provider reports. -/
def StreamChunk.priced (price : Usage → Usage) : StreamChunk → StreamChunk
  | .usage u => .usage (price u)
  | chunk => chunk

/-! ## The ways out -/

/-- An event of a stream of chat completions. -/
inductive CompletionEvent where
  | frame (frame : Openai.ChunkFrame)
  | error (message : String)
  | done
  deriving DecidableEq

/-- The stream of chat completions; the sentinel comes in any case. -/
def sseFromResponse (encoder : Openai.ChunkEncoder) :
    List (Except ModelError StreamChunk) → List CompletionEvent
  | [] => [.done]
  | .ok chunk :: stream =>
    ((encoder.encodeInto chunk).map .frame).toList ++ sseFromResponse encoder stream
  | .error error :: _ => [.error error.text, .done]

/-- An event of a stream of messages. -/
inductive MessageEvent where
  | frame (frame : Anthropic.Frame)
  | error (kind message : String)
  deriving DecidableEq

/-- The stream of messages. -/
def anthropicSseFromResponse (encoder : Anthropic.Writing) :
    List (Except ModelError StreamChunk) → List MessageEvent
  | [] => encoder.finish.out.map .frame
  | .ok chunk :: stream => anthropicSseFromResponse (encoder.encode chunk) stream
  | .error error :: _ => encoder.out.map .frame ++ [.error "api_error" error.text]

/-- The stream of a response. -/
def responsesSseFromResponse (encoder : Responses.Writing) :
    List (Except ModelError StreamChunk) → List Responses.Frame
  | [] => encoder.finish.out
  | .ok chunk :: stream => responsesSseFromResponse (encoder.encode chunk) stream
  | .error error :: _ => (encoder.errorFrame error.text).out

/-! ## An error -/

section

variable {chunks : List StreamChunk} {error : ModelError}

/-- A finish is written only for a choice that has finished. -/
theorem finished_completions (encoder : Openai.ChunkEncoder) {stream : List (Except ModelError StreamChunk)}
    {f : Openai.ChunkFrame} (hf : .frame f ∈ sseFromResponse encoder stream) {c : Openai.ChoiceFrame}
    (hc : c ∈ f.choices) (hfinish : c.finishReason.isSome) :
    ∃ reason, .ok (.finish c.index reason) ∈ stream := by
  induction stream with
  | nil => simp [sseFromResponse] at hf
  | cons item stream ih =>
    cases item with
    | error error => simp [sseFromResponse] at hf
    | ok chunk =>
      rw [sseFromResponse, List.mem_append] at hf
      rcases hf with hf | hf
      · cases chunk <;> simp [Openai.ChunkEncoder.encodeInto, Openai.ChunkEncoder.writeFrame] at hf <;>
          subst hf <;> simp at hc <;> subst hc <;> simp at hfinish
        exact ⟨_, List.mem_cons_self⟩
      · obtain ⟨reason, hreason⟩ := ih hf
        exact ⟨reason, List.mem_cons_of_mem _ hreason⟩

/-- What has been written of a message before its end. -/
theorem opening_message {w : Anthropic.Writing} (h : w.Streaming) :
    ∀ f ∈ w.out, f.event ∉ ["message_delta", "message_stop"] := by
  intro f hf
  unfold Anthropic.Writing.Streaming at h
  split at h
  · obtain ⟨message, frames, hout, hframes⟩ := h
    rw [hout, List.mem_cons] at hf
    rcases hf with rfl | hf
    · simp
    · obtain ⟨t, ⟨_, rfl, -⟩ | ⟨_, rfl, -⟩ | rfl⟩ := hframes.mem f hf <;> simp
  · rw [h.1] at hf
    cases hf

theorem anthropic_error (encoder : Anthropic.Writing) :
    anthropicSseFromResponse encoder (chunks.map .ok ++ [.error error]) =
      (chunks.foldl Anthropic.Writing.encode encoder).out.map .frame ++
        [.error "api_error" error.text] := by
  induction chunks generalizing encoder with
  | nil => rfl
  | cons chunk chunks ih => exact ih (encoder.encode chunk)

/-- What has been written of a response before its end. -/
theorem opening_response {w : Responses.Writing} (h : w.Streaming) : ∀ f ∈ w.out,
    f.event ∉ ["response.completed", "response.incomplete", "response.failed"] := by
  intro f hf
  rcases h with ⟨-, created, inProgress, frames, hout, hc, hp, hframes⟩ | ⟨-, hout, -⟩
  · rw [hout, List.mem_cons, List.mem_cons] at hf
    rcases hf with rfl | rfl | hf
    · simp [hc]
    · simp [hp]
    · obtain ⟨t, ⟨hevent, -⟩ | ⟨hevent, -⟩ | ⟨hevent, -⟩⟩ := hframes.mem f hf
      · simp [hevent]
      · simp only [Responses.pieceEvents, List.mem_cons, List.not_mem_nil, or_false] at hevent
        rcases hevent with h | h | h | h | h | h | h | h <;> simp [h]
      · simp [hevent]
  · rw [hout] at hf
    cases hf

theorem responses_error (encoder : Responses.Writing) :
    responsesSseFromResponse encoder (chunks.map .ok ++ [.error error]) =
      ((chunks.foldl Responses.Writing.encode encoder).errorFrame error.text).out := by
  induction chunks generalizing encoder with
  | nil => rfl
  | cons chunk chunks ih => exact ih (encoder.encode chunk)

theorem collect_error : collect (chunks.map .ok ++ [.error error]) = .error error := by
  have hfirst : chunksOf (chunks.map .ok ++ [.error error]) = .error error := by
    unfold chunksOf
    induction chunks with
    | nil => rfl
    | cons chunk chunks ih =>
      rw [List.map_cons, List.cons_append, List.mapM_cons, ih]
      rfl
  rw [collect, hfirst]
  rfl

/-- The trace of a stream with an error ends with it. -/
theorem instrumentStream_error {α : Type} (price : String → Usage → Usage)
    (report : α → Option Usage × Option FinishReason) (requestId key model : String)
    (finish : Option FinishReason) (items : List α) :
    (instrumentStream price report requestId key model true finish
      (items.map .ok ++ [.error error])).getLast? = some (.requestFailed requestId error.text) := by
  induction items generalizing finish with
  | nil => rfl
  | cons item items ih =>
    rw [List.map_cons, List.cons_append, instrumentStream]
    split
    · rw [List.getLast?_cons, ih]
      rfl
    · exact ih _
    · exact ih _

end

end Llmleaf
