import Llmleaf.Providers.Anthropic
import Llmleaf.Providers.Gemini
import Llmleaf.Providers.Http
import Llmleaf.Server.Pumps

/-!
# Streams that are cut off

A stream of an upstream can end before a choice has finished. The loops that decode it take the end of
the body for the end of the answer, so nothing downstream can tell.

- `SseUpstream`, `SseUpstream.stream`: the upstreams that stream over server-sent events.
- `FailsLoudly`: a stream that nobody takes for a complete answer.
- **Result** (`failsLoudly_iff`): a stream fails loudly exactly if one of its payloads is refused.
-/

namespace Llmleaf

section

variable {σ : Type}

/-! ## Loops that refuse payloads -/

/-- What a handler does with a payload: it stops the loop at some, fails at others and goes on at the
rest, of which some end the stream when their chunk has been read. -/
structure Refuses (handle : Handler σ) (finished : σ → Bool) (stops refused : String → Prop)
    (ends : String → Bool) : Prop where
  stop : ∀ payload state, stops payload → handle payload state = ([], none)
  fail : ∀ payload state, ¬ stops payload → refused payload →
    ∃ error, handle payload state = ([.error error], none)
  pass : ∀ payload state, ¬ stops payload → ¬ refused payload →
    ∃ (chunks : List StreamChunk) (state' : σ), handle payload state =
      (chunks.map .ok, some state') ∧ finished state' = (finished state || ends payload)

/-- The payloads before the first that stops the loop. -/
def untilStop (stops : String → Prop) [DecidablePred stops] (payloads : List String) :
    List String :=
  payloads.takeWhile fun payload => ¬ stops payload

/-- The payloads of the chunks up to the first that ends the stream. -/
def openPayloads (ends : String → Bool) : List UInt8 → List (List UInt8) → List String
  | _, [] => []
  | buf, chunk :: chunks =>
    let (payloads, buf) := ssePayloads buf chunk
    if payloads.any ends then payloads else payloads ++ openPayloads ends buf chunks

variable {handle : Handler σ} {finished : σ → Bool} {stops refused : String → Prop}
  [DecidablePred stops] {ends : String → Bool}

theorem untilStop_append {payloads : List String} (h : ∀ payload ∈ payloads, ¬ stops payload)
    (more : List String) :
    untilStop stops (payloads ++ more) = payloads ++ untilStop stops more :=
  List.takeWhile_append_of_pos fun payload hp => decide_eq_true (h payload hp)

theorem untilStop_append_of_stop {payloads : List String} (h : ∃ payload ∈ payloads, stops payload)
    (more : List String) : untilStop stops (payloads ++ more) = untilStop stops payloads := by
  induction payloads with
  | nil =>
    obtain ⟨payload, hmem, -⟩ := h
    cases hmem
  | cons payload payloads ih =>
    rw [List.cons_append, untilStop, untilStop, List.takeWhile_cons, List.takeWhile_cons]
    split
    · rename_i hgoes
      obtain ⟨stop, hmem, hstop⟩ := h
      rcases List.mem_cons.mp hmem with rfl | hmem
      · simp [hstop] at hgoes
      · exact congrArg _ (ih ⟨stop, hmem, hstop⟩)
    · rfl

theorem mem_untilStop_append {payloads : List String} {payload : String}
    (h : payload ∈ untilStop stops payloads) (more : List String) :
    payload ∈ untilStop stops (payloads ++ more) := by
  by_cases hstop : ∃ p ∈ payloads, stops p
  · rwa [untilStop_append_of_stop hstop]
  · rw [untilStop_append fun p hp hs => hstop ⟨p, hp, hs⟩]
    exact List.mem_append_left _ ((List.takeWhile_prefix _).subset h)

/-- A refused payload ends the stream with an error. -/
theorem Refuses.loop_error (h : Refuses handle finished stops refused ends) {payloads : List String}
    (hrefused : ∃ payload ∈ untilStop stops payloads, refused payload) (state : σ) :
    ∃ (chunks : List StreamChunk) (error : ModelError), payloadLoop handle payloads state =
      (chunks.map .ok ++ [.error error], none) := by
  induction payloads generalizing state with
  | nil =>
    obtain ⟨payload, hmem, -⟩ := hrefused
    cases hmem
  | cons payload payloads ih =>
    obtain ⟨bad, hmem, hbad⟩ := hrefused
    rw [untilStop, List.takeWhile_cons] at hmem
    split at hmem
    · rename_i hgoes
      have hgoes : ¬ stops payload := by simpa using hgoes
      by_cases hp : refused payload
      · obtain ⟨error, he⟩ := h.fail payload state hgoes hp
        exact ⟨[], error, by rw [payloadLoop, he]; rfl⟩
      · obtain ⟨chunks, state', hok, -⟩ := h.pass payload state hgoes hp
        rcases List.mem_cons.mp hmem with rfl | hmem
        · exact absurd hbad hp
        obtain ⟨more, error, hrest⟩ := ih ⟨bad, hmem, hbad⟩ state'
        exact ⟨chunks ++ more, error, by rw [payloadLoop, hok]; simp [hrest]⟩
    · cases hmem

/-- Without a refused payload there is no error: either the loop has stopped, or it goes on. -/
theorem Refuses.loop_ok (h : Refuses handle finished stops refused ends) {payloads : List String}
    (hrefused : ∀ payload ∈ untilStop stops payloads, ¬ refused payload) (state : σ) :
    ∃ (chunks : List StreamChunk) (last : Option σ),
      payloadLoop handle payloads state = (chunks.map .ok, last) ∧
      (last = none → ∃ payload ∈ payloads, stops payload) ∧
      ∀ state', last = some state' → (∀ payload ∈ payloads, ¬ stops payload) ∧
        finished state' = (finished state || payloads.any ends) := by
  induction payloads generalizing state with
  | nil =>
    refine ⟨[], some state, rfl, nofun, fun state' e => ⟨by simp, ?_⟩⟩
    cases e
    simp
  | cons payload payloads ih =>
    by_cases hstop : stops payload
    · refine ⟨[], none, by rw [payloadLoop, h.stop payload state hstop]; rfl, fun _ => ?_, nofun⟩
      exact ⟨payload, List.mem_cons_self, hstop⟩
    · rw [untilStop, List.takeWhile_cons, if_pos (by simpa using hstop)] at hrefused
      obtain ⟨hfirst, hmore⟩ := List.forall_mem_cons.mp hrefused
      obtain ⟨chunks, next, hok, hnext⟩ := h.pass payload state hstop hfirst
      obtain ⟨more, last, hrest, hnone, hsome⟩ := ih hmore next
      refine ⟨chunks ++ more, last, by rw [payloadLoop, hok]; simp [hrest], fun e => ?_,
        fun state' e => ?_⟩
      · obtain ⟨stop, hmem, hs⟩ := hnone e
        exact ⟨stop, List.mem_cons_of_mem _ hmem, hs⟩
      · obtain ⟨hgoes, hfinished⟩ := hsome state' e
        refine ⟨List.forall_mem_cons.mpr ⟨hstop, hgoes⟩, ?_⟩
        rw [hfinished, hnext, List.any_cons, Bool.or_assoc]

/-- A refused payload among those that are read ends the stream with an error. -/
theorem Refuses.sseLoop_error (h : Refuses handle finished stops refused ends) (buf : List UInt8)
    {state : σ} (hstate : finished state = false) {body : List (List UInt8)}
    (hrefused : ∃ payload ∈ untilStop stops (openPayloads ends buf body), refused payload) :
    ∃ (chunks : List StreamChunk) (error : ModelError),
      sseLoop handle finished buf state (body.map .ok) = chunks.map .ok ++ [.error error] := by
  induction body generalizing buf state with
  | nil =>
    obtain ⟨payload, hmem, -⟩ := hrefused
    cases hmem
  | cons chunk body ih =>
    rw [openPayloads] at hrefused
    rw [List.map_cons, sseLoop]
    generalize ssePayloads buf chunk = fed at hrefused ⊢
    obtain ⟨payloads, buf'⟩ := fed
    dsimp only at hrefused ⊢
    by_cases hbad : ∃ payload ∈ untilStop stops payloads, refused payload
    · obtain ⟨chunks, error, hloop⟩ := h.loop_error hbad state
      exact ⟨chunks, error, by rw [hloop]⟩
    · obtain ⟨chunks, last, hloop, hnone, hsome⟩ := h.loop_ok
        (fun payload hmem hp => hbad ⟨payload, hmem, hp⟩) state
      obtain ⟨bad, hmem, hp⟩ := hrefused
      split at hmem
      · exact absurd ⟨bad, hmem, hp⟩ hbad
      · rename_i hopen
        cases last with
        | none =>
          rw [untilStop_append_of_stop (hnone rfl)] at hmem
          exact absurd ⟨bad, hmem, hp⟩ hbad
        | some next =>
          obtain ⟨hgoes, hfinished⟩ := hsome next rfl
          have hnext : finished next = false := by
            rw [hfinished, hstate, Bool.false_or]
            exact Bool.eq_false_iff.mpr hopen
          rw [untilStop_append hgoes, List.mem_append] at hmem
          rcases hmem with hmem | hmem
          · rw [← List.append_nil payloads, untilStop_append hgoes] at hbad
            exact absurd ⟨bad, List.mem_append_left _ hmem, hp⟩ hbad
          · obtain ⟨more, error, hrest⟩ := ih buf' hnext ⟨bad, hmem, hp⟩
            refine ⟨chunks ++ more, error, ?_⟩
            rw [hloop]
            simp [hnext, hrest]

/-- Without a refused payload among those that are read the stream has no error. -/
theorem Refuses.sseLoop_ok (h : Refuses handle finished stops refused ends) (buf : List UInt8)
    {state : σ} (hstate : finished state = false) {body : List (List UInt8)}
    (hrefused : ∀ payload ∈ untilStop stops (openPayloads ends buf body), ¬ refused payload) :
    ∃ chunks : List StreamChunk,
      sseLoop handle finished buf state (body.map .ok) = chunks.map .ok := by
  induction body generalizing buf state with
  | nil => exact ⟨[], rfl⟩
  | cons chunk body ih =>
    rw [openPayloads] at hrefused
    rw [List.map_cons, sseLoop]
    generalize ssePayloads buf chunk = fed at hrefused ⊢
    obtain ⟨payloads, buf'⟩ := fed
    dsimp only at hrefused ⊢
    have hfirst : ∀ payload ∈ untilStop stops payloads, ¬ refused payload := by
      intro payload hmem
      refine hrefused payload ?_
      split
      · exact hmem
      · exact mem_untilStop_append hmem _
    obtain ⟨chunks, last, hloop, -, hsome⟩ := h.loop_ok hfirst state
    cases last with
    | none => exact ⟨chunks, by rw [hloop]⟩
    | some next =>
      obtain ⟨hgoes, hfinished⟩ := hsome next rfl
      rw [hstate, Bool.false_or] at hfinished
      rw [hloop]
      dsimp only
      split
      · exact ⟨chunks, rfl⟩
      · rename_i hopen
        rw [hfinished] at hopen
        rw [if_neg hopen, untilStop_append hgoes] at hrefused
        obtain ⟨more, hrest⟩ := ih buf' (hfinished.trans (Bool.eq_false_iff.mpr hopen))
          fun payload hmem => hrefused payload (List.mem_append_right _ hmem)
        exact ⟨chunks ++ more, by simp [hrest]⟩

end

/-! ## The upstreams -/

/-- An upstream that streams over server-sent events: chat completions, whose envelope may be checked,
Responses, Anthropic and Gemini. -/
inductive SseUpstream where
  | completions (check : Value → Option ModelError) (model : String)
  | responses (model : String) (preserveOrder : Bool)
  | anthropic (model : String)
  | gemini (model : String)

namespace SseUpstream

-- reading of a document, with the text of the error, and its text
variable (parse : String → Except String Value) (toStr : Value → String)

/-- The canonical stream of a body. -/
def stream : SseUpstream → List (Except ModelError (List UInt8)) → List StreamItem
  | completions check model => openaiSseToStreamChecked parse check model
  | responses model preserveOrder => openaiResponsesSseToStream parse toStr model preserveOrder
  | anthropic model => jsonSseToStream parse anthropicEventToChunks (Anthropic.initial model)
  | gemini model => jsonSseToStream parse (geminiEventToChunks toStr) (Gemini.initial model)

/-- The documents that report an error. -/
def Reports : SseUpstream → Value → Prop
  | completions check _, value => (check value).isSome
  | responses _ _, value | anthropic _, value => value.textAt ["type"] = some "error"
  | gemini _, value => (value.get "error").isSome

/-- The payloads that are refused: no documents, or reports of an error. -/
def Refused (u : SseUpstream) (payload : String) : Prop :=
  payload ≠ "[DONE]" ∧
    match parse payload with
    | .ok value => u.Reports value
    | .error _ => True

/-- The payloads behind which nothing is read. -/
def Stops (u : SseUpstream) (payload : String) : Prop :=
  match u with
  | responses _ _ => False
  | _ => payload = "[DONE]"

instance (u : SseUpstream) : DecidablePred u.Stops := fun payload =>
  match u with
  | responses _ _ => inferInstanceAs (Decidable False)
  | completions _ _ | anthropic _ | gemini _ => inferInstanceAs (Decidable (payload = "[DONE]"))

/-- The payloads whose chunk is the last that is read. -/
def ends (u : SseUpstream) (payload : String) : Bool :=
  match u, parse payload with
  | responses _ _, .ok value => payload ≠ "[DONE]" ∧ value.textAt ["type"] ∈
    [some "response.completed", some "response.incomplete", some "response.failed"]
  | _, _ => false

/-- The payloads that are read of a body. -/
def read (u : SseUpstream) (body : List (List UInt8)) : List String :=
  untilStop u.Stops (openPayloads (u.ends parse) [] body)

variable {parse toStr} {model : String} {preserveOrder : Bool}

theorem refuses_json {σ : Type} {map : Value → σ → Except ModelError (List StreamChunk × σ)}
    {reports : Value → Prop} (herror : ∀ value state, reports value →
      ∃ error, map value state = .error error)
    (hok : ∀ value state, ¬ reports value → ∃ r, map value state = .ok r) :
    Refuses (jsonPayload parse map) (fun _ => false) (fun payload => payload = "[DONE]")
      (fun payload => payload ≠ "[DONE]" ∧
        match parse payload with
        | .ok value => reports value
        | .error _ => True) fun _ => false := by
  refine ⟨fun payload state h => if_pos h, fun payload state h ⟨_, hrefused⟩ => ?_,
    fun payload state h hpass => ?_⟩
  · rw [jsonPayload, if_neg h]
    cases hparse : parse payload with
    | error text => exact ⟨_, rfl⟩
    | ok value =>
      rw [hparse] at hrefused
      obtain ⟨error, he⟩ := herror value state hrefused
      exact ⟨error, by simp only [he]⟩
  · rw [jsonPayload, if_neg h]
    cases hparse : parse payload with
    | error text => exact absurd ⟨h, by rw [hparse]; trivial⟩ hpass
    | ok value =>
      obtain ⟨⟨chunks, state'⟩, hr⟩ := hok value state fun hreports =>
        hpass ⟨h, by rw [hparse]; exact hreports⟩
      exact ⟨chunks, state', by simp only [hr], rfl⟩

theorem anthropic_error (event : Value) (state : AnthropicStreamState)
    (h : event.textAt ["type"] = some "error") :
    ∃ error, anthropicEventToChunks event state = .error error := by
  rw [anthropicEventToChunks, h]
  exact ⟨_, rfl⟩

theorem anthropic_ok (event : Value) (state : AnthropicStreamState)
    (h : event.textAt ["type"] ≠ some "error") :
    ∃ r, anthropicEventToChunks event state = .ok r := by
  unfold anthropicEventToChunks
  dsimp only
  split
  · exact ⟨_, rfl⟩
  · split <;> exact ⟨_, rfl⟩
  · split
    · exact ⟨_, rfl⟩
    · exact ⟨_, rfl⟩
    · exact ⟨_, rfl⟩
    · split <;> exact ⟨_, rfl⟩
    · split <;> exact ⟨_, rfl⟩
    · exact ⟨_, rfl⟩
  · split <;> exact ⟨_, rfl⟩
  · exact ⟨_, rfl⟩
  · contradiction
  · exact ⟨_, rfl⟩

theorem gemini_error (event : Value) (state : GeminiStreamState) (h : (event.get "error").isSome) :
    ∃ error, geminiEventToChunks toStr event state = .error error := by
  obtain ⟨error, he⟩ := Option.isSome_iff_exists.mp h
  rw [geminiEventToChunks, he]
  exact ⟨_, rfl⟩

theorem gemini_ok (event : Value) (state : GeminiStreamState) (h : ¬ (event.get "error").isSome) :
    ∃ r, geminiEventToChunks toStr event state = .ok r := by
  rw [geminiEventToChunks, Option.not_isSome_iff_eq_none.mp h]
  exact ⟨_, rfl⟩

theorem finished_responses (value : Value) (st : ResponsesSseState) :
    (openaiResponsesEventToCanonical value st).2.finished = (st.finished || decide
      (value.textAt ["type"] ∈
        [some "response.completed", some "response.incomplete", some "response.failed"])) := by
  unfold openaiResponsesEventToCanonical
  split
  case h_1 htype | h_2 htype | h_3 htype | h_8 htype | h_9 htype | h_10 htype =>
    rw [htype]
    split <;> simp
  case h_4 htype | h_5 htype | h_6 htype | h_7 htype =>
    rw [htype]
    simp
  case h_11 =>
    simp_all

theorem refuses_responses : Refuses (responsesPayload parse toStr) ResponsesSseState.finished
    (fun _ => False)
    (fun payload => payload ≠ "[DONE]" ∧
      match parse payload with
      | .ok value => value.textAt ["type"] = some "error"
      | .error _ => True)
    (ends parse (.responses model preserveOrder)) := by
  refine ⟨fun _ _ h => h.elim, fun payload state _ ⟨h, hrefused⟩ => ?_,
    fun payload state _ hpass => ?_⟩
  · rw [responsesPayload, if_neg h]
    cases hparse : parse payload with
    | error text => exact ⟨_, rfl⟩
    | ok value =>
      rw [hparse] at hrefused
      exact ⟨_, if_pos hrefused⟩
  · by_cases h : payload = "[DONE]"
    · refine ⟨[], state, if_pos h, ?_⟩
      subst h
      cases hparse : parse "[DONE]" <;> simp [ends, hparse]
    · rw [responsesPayload, if_neg h]
      cases hparse : parse payload with
      | error text => exact absurd ⟨h, by rw [hparse]; trivial⟩ hpass
      | ok value =>
        have hvalue : value.textAt ["type"] ≠ some "error" := fun he =>
          hpass ⟨h, by rw [hparse]; exact he⟩
        refine ⟨(openaiResponsesEventToCanonical value state).1,
          (openaiResponsesEventToCanonical value state).2, if_neg hvalue, ?_⟩
        simp [finished_responses, ends, hparse, h]

/-- The canonical stream of an upstream ends with an error if a payload that is read is refused, and
has none otherwise. -/
theorem stream_cases (u : SseUpstream) (body : List (List UInt8)) :
    ((∃ payload ∈ u.read parse body, u.Refused parse payload) →
      ∃ (chunks : List StreamChunk) (error : ModelError),
        u.stream parse toStr (body.map .ok) = chunks.map .ok ++ [.error error]) ∧
    ((∀ payload ∈ u.read parse body, ¬ u.Refused parse payload) →
      ∃ chunks : List StreamChunk, u.stream parse toStr (body.map .ok) = chunks.map .ok) := by
  cases u with
  | completions check model =>
    have h := @refuses_json parse _ (checkedChunk check model) (fun value => (check value).isSome)
      (fun value state hcheck => by
        obtain ⟨error, he⟩ := Option.isSome_iff_exists.mp hcheck
        exact ⟨error, by rw [checkedChunk, he]⟩)
      (fun value state hcheck => by
        rw [checkedChunk, Option.not_isSome_iff_eq_none.mp hcheck]
        exact ⟨_, rfl⟩)
    exact ⟨h.sseLoop_error [] rfl, h.sseLoop_ok [] rfl⟩
  | responses model preserveOrder =>
    have h := @refuses_responses parse toStr model preserveOrder
    have hstate : (if preserveOrder then (ResponsesSseState.new model).preservingOrder
        else .new model).finished = false := by
      cases preserveOrder <;> rfl
    exact ⟨h.sseLoop_error [] hstate, h.sseLoop_ok [] hstate⟩
  | anthropic model =>
    have h := @refuses_json parse _ _ _ anthropic_error anthropic_ok
    exact ⟨h.sseLoop_error [] rfl, h.sseLoop_ok [] rfl⟩
  | gemini model =>
    have h := @refuses_json parse _ _ _ (@gemini_error toStr) gemini_ok
    exact ⟨h.sseLoop_error [] rfl, h.sseLoop_ok [] rfl⟩

end SseUpstream

/-! ## Failing loudly -/

/-- A choice has been started that does not finish. -/
def CutOff (stream : List StreamItem) : Prop :=
  ∃ i, (∃ chunk, .ok chunk ∈ stream ∧ chunk.index = some i) ∧
    ∀ reason, .ok (.finish i reason) ∉ stream

/-- The stream behind the engine. -/
def delivered (price : Usage → Usage) (stream : List StreamItem) : List StreamItem :=
  stream.map fun item => item.map (StreamChunk.priced price)

/-- Nobody takes the stream for a complete answer: it ends with an error, the trace of the request with
a failure; on no surface there is a closing frame, or a finish of a choice that has not finished; and
nothing is collected. -/
structure FailsLoudly (stream : List StreamItem) : Prop where
  error : ∃ error, stream.getLast? = some (.error error)
  trace : ∀ price requestId key model, ∃ text,
    (instrumentStream price StreamChunk.report requestId key model true none stream).getLast? =
      some (.requestFailed requestId text)
  completions : ∀ price encoder f, .frame f ∈ sseFromResponse encoder (delivered price stream) →
    ∀ c ∈ f.choices, c.finishReason.isSome → ∃ reason, .ok (.finish c.index reason) ∈ stream
  messages : ∀ price id model f,
    .frame f ∈ anthropicSseFromResponse (.new id model) (delivered price stream) →
      f.event ∉ ["message_delta", "message_stop"]
  responses : ∀ price requestId model created echo,
    ∀ f ∈ responsesSseFromResponse (.new requestId model created echo) (delivered price stream),
      f.event ∉ ["response.completed", "response.incomplete", "response.failed"]
  collected : ∀ price, ∃ error, collect (delivered price stream) = .error error

theorem delivered_ok (price : Usage → Usage) (chunks : List StreamChunk) (error : ModelError) :
    delivered price (chunks.map .ok ++ [.error error]) =
      (chunks.map (StreamChunk.priced price)).map .ok ++ [.error error] := by
  simp [delivered, Except.map, Function.comp_def]

/-- A stream with an error at its end fails loudly. -/
theorem failsLoudly_of_error (chunks : List StreamChunk) (error : ModelError) :
    FailsLoudly (chunks.map .ok ++ [.error error]) where
  error := ⟨error, by simp⟩
  trace price requestId key model := ⟨error.text, instrumentStream_error _ _ _ _ _ _ _⟩
  completions price encoder f hf c hc hfinish := by
    obtain ⟨reason, hreason⟩ := finished_completions encoder hf hc hfinish
    obtain ⟨item, hitem, he⟩ := List.mem_map.mp hreason
    refine ⟨reason, ?_⟩
    cases item with
    | error error => cases he
    | ok chunk => cases chunk <;> simp_all [Except.map, StreamChunk.priced]
  messages price id model f hf := by
    rw [delivered_ok, anthropic_error, List.mem_append, List.mem_map] at hf
    rcases hf with ⟨f', hf', hfe⟩ | hf
    · cases hfe
      exact opening_message (Anthropic.Writing.streaming_foldl id model _) f hf'
    · simp at hf
  responses price requestId model created echo f hf := by
    rw [delivered_ok, responses_error, Responses.Writing.errorFrame, Responses.Writing.push,
      List.mem_append] at hf
    rcases hf with hf | hf
    · exact opening_response ((Responses.Writing.Streaming.new _ _ _ _).foldl _) f hf
    · obtain rfl := List.mem_singleton.mp hf
      simp
  collected price := ⟨error, by rw [delivered_ok, collect_error]⟩

/-- **A stream of an upstream fails loudly exactly if a payload that is read of it is refused**, be it
cut off or not. -/
theorem failsLoudly_iff (parse : String → Except String Value) (toStr : Value → String)
    (u : SseUpstream) (body : List (List UInt8)) :
    FailsLoudly (u.stream parse toStr (body.map .ok)) ↔
      ∃ payload ∈ u.read parse body, u.Refused parse payload := by
  obtain ⟨herror, hok⟩ := @SseUpstream.stream_cases parse toStr u body
  constructor
  · intro h
    by_contra hnone
    obtain ⟨chunks, hchunks⟩ := hok fun payload hmem hp => hnone ⟨payload, hmem, hp⟩
    obtain ⟨error, he⟩ := h.error
    rw [hchunks] at he
    obtain ⟨chunk, -, hchunk⟩ := List.mem_map.mp (List.mem_of_getLast? he)
    cases hchunk
  · intro h
    obtain ⟨chunks, error, hstream⟩ := herror h
    rw [hstream]
    exact failsLoudly_of_error chunks error

/-- The one payload of a body that breaks off behind a first delta. -/
def cutPayload : String := "\x7b\"choices\":[\x7b\"delta\":\x7b\"content\":\"a\"\x7d\x7d]\x7d"

def cutDocument : Value :=
  .obj [("choices", .array [.obj [("delta", .obj [("content", .string "a")])]])]

/-- The reading of that payload. -/
def cutParse (payload : String) : Except String Value :=
  if payload = cutPayload then .ok cutDocument else .error "expected value"

/-- What is decoded of it. -/
def cutStream : List StreamItem := (SseUpstream.completions (fun _ => none) "m").stream cutParse
  (fun _ => "") [.ok (Strings.bytes ("data: " ++ cutPayload) ++ [10])]

theorem cutStream_eq : cutStream = [.ok (.start "" "m"), .ok (.content 0 "a")] := by
  decide +kernel

/-- It passes for a complete answer: the request has completed, and the message has ended its turn. -/
theorem not_failsLoudly_cut : CutOff cutStream ∧ ¬ FailsLoudly cutStream ∧
    instrumentStream (fun _ u => u) StreamChunk.report "r" "k" "m" true none cutStream =
      [.requestCompleted "r" none] ∧
    .frame ⟨"message_delta", .messageDelta "end_turn" (.from .zero)⟩ ∈
      anthropicSseFromResponse (.new "r" "m") (delivered id cutStream) := by
  rw [cutStream_eq]
  refine ⟨⟨0, ⟨.content 0 "a", by simp, rfl⟩, by simp⟩, fun h => ?_, rfl, by decide⟩
  obtain ⟨error, he⟩ := h.error
  cases he

end Llmleaf
