import Llmleaf.Compat.Responses.Replay
import Llmleaf.Providers.OpenaiRequest

/-!
# Writing a Responses request

`requestToOpenaiResponses` maps a canonical request onto the Responses wire; what a dialect does not
know is left out. Between two nodes nothing is: `parseResponsesRequest` reads the request back.

- `messageItems`: the items of a message, and `messageItems_read` what they are read as.
- `Hop`: the requests that survive the hop.
- **Result** (`hop_identity`): they are read back as they were.
-/

namespace Llmleaf

open Value Responses

/-- Which upstream a request body is built for. -/
inductive ResponsesFlavor where
  | openAi
  | openRouter
  | groq
  | llmleaf
  deriving DecidableEq

namespace ResponsesFlavor

/-- Open reasoning may be replayed. -/
def replaysOpenReasoning (flavor : ResponsesFlavor) : Bool :=
  flavor = openRouter ∨ flavor = groq ∨ flavor = llmleaf

def modelsSignature (flavor : ResponsesFlavor) : Bool := flavor = openRouter ∨ flavor = llmleaf

def modelsEncryptedReasoning (flavor : ResponsesFlavor) : Bool :=
  flavor = openAi ∨ flavor = openRouter ∨ flavor = llmleaf

/-- Another node has defaults of its own. -/
def sendsStatelessDefaults (flavor : ResponsesFlavor) : Bool := flavor ≠ llmleaf

end ResponsesFlavor

namespace ResponsesWire

/-! ## The request -/

/-- A part of a system or user message. -/
def inputPart : ContentPart → Option Value
  | .text text => some (build [("type", some (string "input_text")), ("text", some (string text))])
  | .imageUrl url detail => some (build [("type", some (string "input_image")),
      ("image_url", some (string url)), ("detail", detail.map string)])
  | .inputAudio _ _ | .thinking _ _ | .redactedThinking _ | .compaction _ _ _ _ _ => none

/-- The content of a system or user message: a single text is a string. -/
def inputContent (msg : Message) : Value :=
  match msg.content with
  | [.text text] => string text
  | _ => array (msg.content.filterMap inputPart)

/-- The item of a reasoning or compaction part. -/
def partItem (flavor : ResponsesFlavor) : ContentPart → Option Value
  | .compaction _ id _ encryptedContent _ => some (build [("type", some (string "compaction")),
      ("id", id.map string), ("encrypted_content", encryptedContent.map string)])
  | .redactedThinking data =>
    if flavor.modelsEncryptedReasoning then
      some (build [("type", some (string "reasoning")), ("summary", some (array [])),
        ("encrypted_content", some (string data))])
    else none
  | .thinking thinking signature =>
    if flavor.replaysOpenReasoning then
      some (build [("type", some (string "reasoning")), ("summary", some (array [])),
        ("content", some (array [build [("type", some (string "reasoning_text")),
          ("text", some (string thinking))]])),
        ("signature", if flavor.modelsSignature then signature.map string else none)])
    else none
  | _ => none

def callItem (c : ToolCall) : Value :=
  build [("type", some (string "function_call")), ("call_id", some (string c.id)),
    ("name", some (string c.name)), ("arguments", some (string c.arguments))]

/-- The visible answer of an assistant message. -/
def answerItem (text : String) : Value :=
  build [("type", some (string "message")), ("role", some (string "assistant")),
    ("content", some (array [build [("type", some (string "output_text")),
      ("text", some (string text))]]))]

/-- The items of an assistant message: reasoning, then the answer, then the calls. -/
def pushAssistantItems (msg : Message) (flavor : ResponsesFlavor) : List Value :=
  msg.content.filterMap (partItem flavor) ++
  (if textContent msg = "" then [] else [answerItem (textContent msg)]) ++
  msg.toolCalls.map callItem

/-- The items of a message. -/
def messageItems (flavor : ResponsesFlavor) (msg : Message) : List Value :=
  match msg.role with
  | .system => [build [("role", some (string "system")), ("content", some (inputContent msg))]]
  | .user => [build [("role", some (string "user")), ("content", some (inputContent msg))]]
  | .assistant => pushAssistantItems msg flavor
  | .tool => [build [("type", some (string "function_call_output")),
      ("call_id", some (string (msg.toolCallId.getD ""))),
      ("output", some (string (textContent msg)))]]

def toolToResponses (t : ToolDef) : Value :=
  build [("type", some (string "function")), ("name", some (string t.name)),
    ("description", t.description.map string), ("parameters", some t.parameters),
    ("strict", some (bool false))]

def toolChoiceToResponses : ToolChoice → Value
  | .auto => string "auto"
  | .none => string "none"
  | .required => string "required"
  | .named name => build [("type", some (string "function")), ("name", some (string name))]

/-- The modelled fields of the body. -/
def modeledFields (req : ChatRequest) (stream : Bool) (flavor : ResponsesFlavor) : Map :=
  Map.build [
    ("model", some (string req.model)),
    ("max_output_tokens", req.maxTokens.map nat),
    ("temperature", req.temperature.map ofF32),
    ("top_p", req.topP.map ofF32),
    ("input", some (array (req.messages.flatMap (messageItems flavor)))),
    ("tools", if req.tools = [] then none else some (array (req.tools.map toolToResponses))),
    ("tool_choice", req.toolChoice.map toolChoiceToResponses),
    ("reasoning", req.thinking.map fun t =>
      build [("effort", some (string (OpenaiWire.thinkingEffort t)))]),
    ("stream", some (bool stream))]

/-- **Write a Responses request.** The defaults of a stateless client come last: a field that the
request sends itself stays. -/
def requestToOpenaiResponses (req : ChatRequest) (stream : Bool) (flavor : ResponsesFlavor) :
    Value :=
  let body := (modeledFields req stream flavor).orInsertAll req.extra
  let body := if flavor.sendsStatelessDefaults then body.orInsert "store" (bool false) else body
  object (if flavor.sendsStatelessDefaults ∧ flavor.modelsEncryptedReasoning then
    body.orInsert "include" (array [string "reasoning.encrypted_content"]) else body)

/-! ## The messages of a hop -/

/-- A message that survives the hop, by its role. -/
def Fits (m : Message) : Prop :=
  m.name = none ∧
  match m.role with
  | .system | .user => m.toolCalls = [] ∧ m.toolCallId = none ∧
      ∀ p ∈ m.content, (inputPart p).isSome
  | .tool => m.toolCalls = [] ∧ m.toolCallId.isSome ∧ ∃ text, m.content = [.text text]
  | .assistant => m.toolCallId = none ∧ ∃ reasoning text,
      m.content = reasoning ++ textPart text ∧ (∀ p ∈ reasoning, (told p).isSome) ∧
      ¬ (text = "" ∧ m.toolCalls = [])

/-- What the items of a message say. -/
def said (m : Message) : List InputItem :=
  match m.role with
  | .system => [.message .system m.content]
  | .user => [.message .user m.content]
  | .assistant => (m.content.filter fun p => (told p).isSome).map (fun p => .reasoning [p]) ++
      spokenItems (textContent m) m.toolCalls
  | .tool => [.output (m.toolCallId.getD "") (textContent m)]

variable {debug : String → String}

/-- A part of a system or user message is read back. -/
theorem parse_inputPart {p : ContentPart} {v : Value} (h : inputPart p = some v) :
    parseInputContentPart debug v = .ok (some p) := by
  cases p with
  | text text =>
    cases h
    simp [parseInputContentPart, strField, asStr]
  | imageUrl url detail =>
    cases h
    simp [parseInputContentPart, asStr]
  | _ => cases h

theorem parse_inputContent {m : Message} (h : ∀ p ∈ m.content, (inputPart p).isSome) :
    parseInputContent debug (some (inputContent m)) = .ok m.content := by
  have hparts : ∀ l : List ContentPart, (∀ p ∈ l, (inputPart p).isSome) →
      parseInputContent debug (some (array (l.filterMap inputPart))) = .ok l := by
    intro l hl
    have hread : (l.filterMap inputPart).mapM (parseInputContentPart debug) =
        .ok (l.map some) := by
      rw [Traverse.mapM_ok_iff]
      induction l with
      | nil => exact .nil
      | cons p l ih =>
        obtain ⟨v, hv⟩ := Option.isSome_iff_exists.mp (hl p List.mem_cons_self)
        rw [List.filterMap_cons_some hv, List.map_cons]
        exact .cons (parse_inputPart hv) (ih fun q hq => hl q (List.mem_cons_of_mem _ hq))
    rw [parseInputContent, hread]
    simp [Except.map, List.reduceOption, List.filterMap_map]
  unfold inputContent
  split
  · rename_i text hm
    rw [hm]
    rfl
  · exact hparts m.content h

/-- A reasoning part is an item of its own. -/
theorem read_partItem {p : ContentPart} (h : (told p).isSome) :
    ∃ v, partItem .llmleaf p = some v ∧ readItem debug v = .ok (.reasoning [p]) := by
  cases p with
  | thinking text signature =>
    refine ⟨_, rfl, ?_⟩
    cases signature <;>
      simp [readItem, collectReasoning, reasoningEntries, asStr, asArray, signLast,
        ResponsesFlavor.modelsSignature]
  | redactedThinking data =>
    refine ⟨_, rfl, ?_⟩
    simp [readItem, collectReasoning, reasoningEntries, asStr, asArray, signLast]
  | _ => cases h

theorem read_callItem (c : ToolCall) : readItem debug (callItem c) = .ok (.call c) := by
  simp [readItem, callItem, strField, asStr]

theorem read_answerItem (text : String) :
    readItem debug (answerItem text) = .ok (.message .assistant [.text text]) := by
  simp [readItem, answerItem, asStr, parseInputRole, parseInputContent, parseInputContentPart,
    strField, List.mapM_cons, bind, Except.bind, pure, Except.pure, Except.map, List.reduceOption]

theorem read_reasoning {parts : List ContentPart} (h : ∀ p ∈ parts, (told p).isSome) :
    (parts.filterMap (partItem .llmleaf)).mapM (readItem debug) =
      .ok (parts.map (.reasoning [·])) := by
  rw [Traverse.mapM_ok_iff]
  induction parts with
  | nil => exact .nil
  | cons p parts ih =>
    obtain ⟨v, hv, hread⟩ := @read_partItem debug _ (h p List.mem_cons_self)
    rw [List.filterMap_cons_some hv, List.map_cons]
    exact .cons hread (ih fun q hq => h q (List.mem_cons_of_mem _ hq))

/-- The reasoning and the text of a turn, told apart again. -/
theorem split_turn {m : Message} {reasoning : List ContentPart} {text : String}
    (h : m.content = reasoning ++ textPart text) (hr : ∀ p ∈ reasoning, (told p).isSome) :
    m.content.filter (fun p => (told p).isSome) = reasoning ∧
      m.content.filterMap (partItem .llmleaf) = reasoning.filterMap (partItem .llmleaf) ∧
      textContent m = text := by
  have htext : ∀ l : List ContentPart, (∀ p ∈ l, (told p).isSome) →
      textContent { m with content := l ++ textPart text } =
        textContent { m with content := textPart text } := by
    intro l
    induction l with
    | nil => exact fun _ => rfl
    | cons p l ih =>
      intro hl
      rw [← ih fun q hq => hl q (List.mem_cons_of_mem _ hq)]
      have := hl p List.mem_cons_self
      cases p <;> first | rfl | cases this
  have hm : textContent m = textContent { m with content := reasoning ++ textPart text } := by
    rw [← h]
  rw [hm, htext reasoning hr, h]
  refine ⟨?_, ?_, ?_⟩
  · rw [List.filter_append, List.filter_eq_self.mpr hr]
    unfold textPart
    split <;> simp [told]
  · rw [List.filterMap_append]
    unfold textPart
    split <;> simp [partItem]
  · unfold textPart
    split
    · rename_i h
      rw [h]
      rfl
    · simp [textContent]

/-- **The items of a message are read as what the message says.** -/
theorem messageItems_read {m : Message} (h : Fits m) :
    (messageItems .llmleaf m).mapM (readItem debug) = .ok (said m) := by
  obtain ⟨role, content, calls, callId, name⟩ := m
  obtain ⟨-, h⟩ := h
  cases role with
  | system =>
    have hread := @parse_inputContent debug _ h.2.2
    simp [messageItems, said, readItem, asStr, parseInputRole, hread, bind, Except.bind, pure,
      Except.pure]
  | user =>
    have hread := @parse_inputContent debug _ h.2.2
    simp [messageItems, said, readItem, asStr, parseInputRole, hread, bind, Except.bind, pure,
      Except.pure]
  | tool =>
    simp [messageItems, said, readItem, asStr, strField, functionOutputText, bind, Except.bind,
      pure, Except.pure]
  | assistant =>
    obtain ⟨-, reasoning, text, hcontent, hr, -⟩ := h
    obtain ⟨hfilter, hitems, htext⟩ := split_turn
      (m := ⟨.assistant, content, calls, callId, name⟩) hcontent hr
    have hcalls : (calls.map callItem).mapM (readItem debug) = .ok (calls.map .call) :=
      Traverse.mapM_map fun c _ => read_callItem c
    have hspoken : ((if text = "" then [] else [answerItem text]) ++ calls.map callItem).mapM
        (readItem debug) = .ok (spokenItems text calls) := by
      refine Traverse.mapM_append_ok ?_ hcalls
      split
      · rfl
      · simp [read_answerItem, bind, Except.bind, pure, Except.pure]
    simp only [messageItems, said, pushAssistantItems, hitems, htext, hfilter]
    rw [List.append_assoc]
    exact Traverse.mapM_append_ok (read_reasoning hr) hspoken

theorem take_reasonings (parts : List ContentPart) (out : List Message)
    (pending : List ContentPart) :
    (parts.map fun p => InputItem.reasoning [p]).foldl Inputs.take ⟨out, pending⟩ =
      ⟨out, pending ++ parts⟩ := by
  induction parts generalizing pending with
  | nil => simp
  | cons p parts ih =>
    rw [List.map_cons, List.foldl_cons, Inputs.take, ih, List.append_assoc]
    rfl

/-- **What a message says makes up the message again**, an assistant's where none stands before
it. -/
theorem take_said {m : Message} (h : Fits m) {out : List Message}
    (hlast : m.role = .assistant → ∀ o ∈ out.getLast?, o.role ≠ .assistant) :
    (said m).foldl Inputs.take ⟨out, []⟩ = ⟨out ++ [m], []⟩ := by
  obtain ⟨role, content, calls, callId, name⟩ := m
  obtain ⟨rfl, h⟩ := h
  cases role with
  | system =>
    obtain ⟨rfl, rfl, -⟩ := h
    rfl
  | user =>
    obtain ⟨rfl, rfl, -⟩ := h
    rfl
  | tool =>
    obtain ⟨rfl, hid, text, rfl⟩ := h
    obtain ⟨id, rfl⟩ := Option.isSome_iff_exists.mp hid
    have htext : textContent ⟨.tool, [.text text], [], some id, none⟩ = text :=
      by simp [textContent]
    rw [said, htext]
    rfl
  | assistant =>
    obtain ⟨rfl, reasoning, text, hcontent, hr, hsome⟩ := h
    obtain ⟨hfilter, -, htext⟩ := split_turn
      (m := ⟨.assistant, content, calls, none, none⟩) hcontent hr
    simp only [said, htext, hfilter]
    rw [List.foldl_append, take_reasonings, Inputs.take_spoken (hlast rfl), if_neg hsome,
      List.nil_append, ← hcontent]
    rfl

/-- Messages without two adjacent ones of the assistant's are read back. -/
theorem messages_read {msgs : List Message} (h : ∀ m ∈ msgs, Fits m)
    (hapart : msgs.IsChain fun a b => ¬ (a.role = .assistant ∧ b.role = .assistant)) :
    parseInputArray debug (msgs.flatMap (messageItems .llmleaf)) [] = .ok msgs := by
  have hread : (msgs.flatMap (messageItems .llmleaf)).mapM (readItem debug) =
      .ok (msgs.flatMap said) := by
    induction msgs with
    | nil => rfl
    | cons m msgs ih =>
      rw [List.flatMap_cons, List.flatMap_cons]
      exact Traverse.mapM_append_ok (messageItems_read (h m List.mem_cons_self))
        (ih (fun m hm => h m (List.mem_cons_of_mem _ hm)) hapart.tail)
  have hrun : ∀ (l out : List Message), (∀ m ∈ l, Fits m) →
      l.IsChain (fun a b => ¬ (a.role = .assistant ∧ b.role = .assistant)) →
      (∀ m ∈ l.head?, m.role = .assistant → ∀ o ∈ out.getLast?, o.role ≠ .assistant) →
      (l.flatMap said).foldl Inputs.take ⟨out, []⟩ = ⟨out ++ l, []⟩ := by
    intro l
    induction l with
    | nil => simp
    | cons m l ih =>
      intro out hl hchain hhead
      rw [List.flatMap_cons, List.foldl_append,
        take_said (hl m List.mem_cons_self) (hhead m rfl),
        ih (out ++ [m]) (fun m hm => hl m (List.mem_cons_of_mem _ hm)) hchain.tail,
        List.append_assoc, List.singleton_append]
      intro next hnext hassistant o ho
      rw [List.getLast?_concat, Option.mem_some_iff] at ho
      subst ho
      cases l with
      | nil => cases hnext
      | cons b l =>
        cases hnext
        exact fun ho => List.isChain_cons_cons.mp hchain |>.1 ⟨ho, hassistant⟩
  rw [parseInputArray, hread, Except.map, hrun msgs [] h hapart]
  · rfl
  · intro m _ _ o ho
    cases ho

/-! ## The request of a hop -/

/-- The number is a finite one. -/
def Finite (x : Binary.Number .single) : Prop :=
  match x with
  | .finite _ _ => True
  | .infinite _ => False

/-- The fields that the parser reads and takes out of a body. -/
def takenFields : List String :=
  ["model", "background", "instructions", "input", "max_output_tokens", "temperature", "top_p",
    "stream", "tools", "tool_choice", "reasoning"]

/-- A request that survives the hop. -/
structure Hop (r : ChatRequest) : Prop where
  stop : r.stop = []
  thinking : ∀ t ∈ r.thinking, t = .low ∨ t = .med ∨ t = .high
  maxTokens : ∀ n ∈ r.maxTokens, n < 2 ^ 32
  temperature : ∀ t ∈ r.temperature, Finite t
  topP : ∀ t ∈ r.topP, Finite t
  sorted : r.extra.Sorted
  extra : ∀ key ∈ takenFields, r.extra.get key = none
  store : ∀ v ∈ r.extra.get "store", v.asBool.isSome
  previous : ∀ v ∈ r.extra.get "previous_response_id", v = .null ∨ v.asStr.isSome
  messages : ∀ m ∈ r.messages, Fits m
  apart : r.messages.IsChain fun a b => ¬ (a.role = .assistant ∧ b.role = .assistant)

theorem asF32_map_ofF32 {t : Option (Binary.Number .single)} (h : ∀ x ∈ t, Finite x) :
    (t.map ofF32).bind asF32 = t := by
  match t with
  | none => rfl
  | some (.finite q hq) => exact asF32_ofF32 hq
  | some (.infinite negative) => exact (h _ rfl).elim

theorem tools_read (tools : List ToolDef) :
    parseTools debug (if tools = [] then none else some (array (tools.map toolToResponses))) =
      .ok tools := by
  split
  · rename_i h
    rw [h]
    rfl
  · have := @Traverse.mapM_map _ _ _ _ (parseTool debug) toolToResponses id tools fun t _ => by simp [parseTool, toolToResponses, asStr]
    rwa [List.map_id] at this

theorem toolChoice_read (tc : Option ToolChoice) :
    parseToolChoice debug (tc.map toolChoiceToResponses) = .ok tc := by
  match tc with
  | none => rfl
  | some .auto => rfl
  | some .none => rfl
  | some .required => rfl
  | some (.named name) => simp [toolChoiceToResponses, parseToolChoice, asStr]

theorem effort_read {t : Option Thinking} (h : ∀ x ∈ t, x = .low ∨ x = .med ∨ x = .high) :
    effortOf (t.map fun t => build [("effort", some (string (OpenaiWire.thinkingEffort t)))]) =
      t := by
  match t with
  | none => rfl
  | some .low => rfl
  | some .med => rfl
  | some .high => rfl
  | some .highx => simp at h
  | some .max => simp at h

/-- A field of the body is the mapper's, or else the request's own. -/
theorem get_body (r : ChatRequest) (stream : Bool) (key : String) :
    (requestToOpenaiResponses r stream .llmleaf).get key =
      ((modeledFields r stream .llmleaf).get key).or (r.extra.get key) := by
  simp [requestToOpenaiResponses, ResponsesFlavor.sendsStatelessDefaults, Map.get_orInsertAll]

/-- What the parser leaves of the body is what the request had. -/
theorem extra_read {r : ChatRequest} (h : Hop r) (stream : Bool) :
    ((modeledFields r stream .llmleaf).orInsertAll r.extra).without
        (modeled (requestToOpenaiResponses r stream .llmleaf)) = r.extra := by
  refine Map.Sorted.ext ((Map.sorted_build _).orInsertAll _ |>.without _) h.sorted fun key => ?_
  rw [Map.get_without, Map.get_orInsertAll]
  have hreasoning : (requestToOpenaiResponses r stream .llmleaf).get "reasoning" =
      r.thinking.map fun t => build [("effort", some (string (OpenaiWire.thinkingEffort t)))] := by
    rw [get_body, h.extra _ (by decide), Option.or_none]
    simp [modeledFields]
  split
  · rename_i hk
    refine (h.extra key ?_).symm
    unfold modeled at hk
    rw [List.mem_append] at hk
    rcases hk with hk | hk
    · exact List.mem_append_left ["reasoning"] hk
    · split at hk
      · rw [List.mem_singleton.mp hk]
        decide
      · cases hk
  · rename_i hk
    have hnone : (modeledFields r stream .llmleaf).get key = none := by
      have hmem : key ∉ takenFields ∨ key = "reasoning" ∧ r.thinking = none := by
        by_contra hcon
        push Not at hcon
        refine hk ?_
        unfold modeled
        rw [hreasoning, effort_read h.thinking]
        by_cases hkey : key = "reasoning"
        · have := Option.isSome_iff_ne_none.mpr (hcon.2 hkey)
          rw [if_pos this]
          exact List.mem_append_right _ (hkey ▸ List.mem_singleton_self _)
        · refine List.mem_append_left _ ?_
          have := hcon.1
          simpa [takenFields, hkey] using this
      rcases hmem with hmem | ⟨rfl, hnone⟩
      · simp only [takenFields, List.mem_cons, not_or] at hmem
        simp [modeledFields, Ne.symm hmem.1, Ne.symm hmem.2.2.2.1,
          hmem, eq_comm]
      · simp [modeledFields, hnone]
    rw [hnone, Option.none_or]

/-- **A request that is sent to another node is read there as it was.** -/
theorem hop_identity (debug : String → String) {r : ChatRequest} (h : Hop r) (s : Bool) :
    parseResponsesRequest debug (requestToOpenaiResponses r s .llmleaf) =
      .ok { r with stream := s } := by
  have hget : ∀ key ∈ takenFields, (requestToOpenaiResponses r s .llmleaf).get key =
      (modeledFields r s .llmleaf).get key := fun key hkey => by
    rw [get_body, h.extra key hkey, Option.or_none]
  have hextra : ∀ key, key ∉ takenFields → (requestToOpenaiResponses r s .llmleaf).get key =
      r.extra.get key := fun key hkey => by
    rw [get_body]
    simp only [takenFields, List.mem_cons, not_or] at hkey
    simp [modeledFields, hkey, eq_comm]
  have hprevious : (r.extra.get "previous_response_id").any
      (fun v => v ≠ .null ∧ v.asStr.isNone) = false := by
    rw [Option.any_eq_false]
    intro v hv
    rcases h.previous v hv with rfl | hv
    · simp
    · simp [Option.isSome_iff_ne_none.mp hv]
  have hstore : (r.extra.get "store").any (fun v => v.asBool.isNone) = false := by
    rw [Option.any_eq_false]
    intro v hv
    have := h.store v hv
    simpa using this
  have hbody : requestToOpenaiResponses r s .llmleaf =
      object ((modeledFields r s .llmleaf).orInsertAll r.extra) := by
    simp [requestToOpenaiResponses, ResponsesFlavor.sendsStatelessDefaults]
  have hleft := extra_read h s
  have hmessages := @messages_read debug _ h.messages h.apart
  rw [hbody] at hget hextra hleft ⊢
  set obj := (modeledFields r s .llmleaf).orInsertAll r.extra
  have hmodel : (object obj).get "model" = some (string r.model) := by
    rw [hget _ (by decide)]
    simp [modeledFields]
  have hbackground : (object obj).get "background" = none := by
    rw [hget _ (by decide)]
    simp [modeledFields]
  have hinput : parseInput debug ((object obj).get "input") (instructions (object obj)) =
      .ok r.messages := by
    have hinstructions : (object obj).get "instructions" = none := by
      rw [hget _ (by decide)]
      simp [modeledFields]
    rw [instructions, hinstructions, hget _ (by decide)]
    simpa [modeledFields, parseInput] using hmessages
  have htools : parseTools debug ((object obj).get "tools") = .ok r.tools := by
    rw [hget _ (by decide)]
    simpa [modeledFields] using @tools_read debug r.tools
  have hchoice : parseToolChoice debug ((object obj).get "tool_choice") = .ok r.toolChoice := by
    rw [hget _ (by decide)]
    simpa [modeledFields] using @toolChoice_read debug r.toolChoice
  have hmax : (((object obj).get "max_output_tokens").bind asU64).map (· % 2 ^ 32) =
      r.maxTokens := by
    have hread : (r.maxTokens.map nat).bind asU64 = r.maxTokens := by cases r.maxTokens <;> rfl
    rw [hget _ (by decide), show (modeledFields r s .llmleaf).get "max_output_tokens" =
      r.maxTokens.map nat by simp [modeledFields], hread]
    cases hn : r.maxTokens with
    | none => rfl
    | some n => exact congrArg some (Nat.mod_eq_of_lt (h.maxTokens n hn))
  have htemp : ((object obj).get "temperature").bind asF32 = r.temperature := by
    rw [hget _ (by decide)]
    simpa [modeledFields] using asF32_map_ofF32 h.temperature
  have htop : ((object obj).get "top_p").bind asF32 = r.topP := by
    rw [hget _ (by decide)]
    simpa [modeledFields] using asF32_map_ofF32 h.topP
  have hstream : (((object obj).get "stream").bind asBool).getD false = s := by
    rw [hget _ (by decide)]
    simp [modeledFields, asBool]
  have heffort : effortOf ((object obj).get "reasoning") = r.thinking := by
    rw [hget _ (by decide)]
    simpa [modeledFields] using effort_read h.thinking
  rw [parseResponsesRequest_eq debug hmodel (by rwa [hextra _ (by decide)])
    (by rw [hbackground]; nofun) hinput htools hchoice (by rwa [hextra _ (by decide)]), hmax, htemp,
    htop, hstream, heffort, hleft, ← h.stop]

/-- A request of these messages alone. -/
def plainRequest (messages : List Message) (temperature : Option (Binary.Number .single)) :
    ChatRequest where
  model := "m"
  messages := messages
  maxTokens := some 5
  temperature := temperature
  topP := none
  stop := []
  stream := false
  tools := [⟨"f", none, obj []⟩]
  toolChoice := some .required
  thinking := some .med
  extra := [("metadata", obj [])]

/-- A question, a call with its signed reasoning, and the result of the call. -/
def calledMessages : List Message :=
  [⟨.user, [.text "q", .imageUrl "u" (some "low")], [], none, none⟩,
    ⟨.assistant, [.thinking "a" (some "s"), .redactedThinking "e"], [⟨"1", "f", ""⟩], none, none⟩,
    ⟨.tool, [.text "r"], [], some "1", none⟩]

theorem calledMessages_hop : Hop (plainRequest calledMessages none) where
  stop := rfl
  thinking := by decide
  maxTokens := by decide
  temperature := by simp [plainRequest]
  topP := by simp [plainRequest]
  sorted := by decide
  extra := by decide +kernel
  store := by decide +kernel
  previous := by decide +kernel
  messages := by
    intro m hm
    simp only [plainRequest, calledMessages, List.mem_cons, List.not_mem_nil, or_false] at hm
    rcases hm with rfl | rfl | rfl
    · exact ⟨rfl, rfl, rfl, by decide⟩
    · exact ⟨rfl, rfl, [.thinking "a" (some "s"), .redactedThinking "e"], "", rfl, by decide,
        by decide⟩
    · exact ⟨rfl, rfl, rfl, "r", rfl⟩
  apart := by decide

theorem hop_identity_called :
    parseResponsesRequest id
        (requestToOpenaiResponses (plainRequest calledMessages none) true .llmleaf) =
      .ok { plainRequest calledMessages none with stream := true } :=
  hop_identity id calledMessages_hop true

/-- What the wire has no place for is not read back: a tool message without the id of its call
(it comes back with an empty one), a user message with an id or with calls, and a temperature
beyond the largest number. -/
theorem hop_changes :
    ¬ ∃ r ∈ [plainRequest [⟨.tool, [.text "r"], [], none, none⟩] none,
      plainRequest [⟨.user, [.text "q"], [], some "1", none⟩] none,
      plainRequest [⟨.user, [.text "q"], [⟨"1", "f", ""⟩], none, none⟩] none,
      plainRequest [] (some (.infinite false))],
    parseResponsesRequest id (requestToOpenaiResponses r r.stream .llmleaf) = .ok r := by
  decide +kernel

end ResponsesWire

end Llmleaf
