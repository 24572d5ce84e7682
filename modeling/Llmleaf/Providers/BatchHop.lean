import Llmleaf.Compat.Batch
import Llmleaf.Providers.OpenaiFamily
import Llmleaf.Providers.OpenaiWire

/-!
# A batch job from node to node

A node serves its jobs and their results to another node, which reads them with the reader of
OpenAI-compatible objects.

- `openaiBatchResultLine`, `Node.batchResultLine`: the readers of a line of results.
- `handle_survives_iff`: a job is read back exactly if what its provider carried stands in for no
  field that is missing.
- `outcome_survives_iff`: an outcome is read back exactly if, where it is a response, it holds
  nothing that only the writer knows: signatures, encrypted reasoning, costs and cache writes.
-/

namespace Llmleaf

open Value

/-- A line of an output file of an OpenAI-compatible upstream. -/
def openaiBatchResultLine (toStr : Value → String) (value : Value) : Option BatchResult := do
  let customId ← value.textAt ["custom_id"]
  match (value.get "error").filter (· ≠ null) with
  | some err => some ⟨customId, .errored 0 ((err.textAt ["message"]).getD (toStr err))⟩
  | none =>
    let response ← value.get "response"
    let status := (response.natAt ["status_code"]).getD 200 % 2 ^ 16
    let body ← response.get "body"
    if 400 ≤ status then
      some ⟨customId, .errored status ((body.textAt ["error", "message"]).getD (toStr body))⟩
    else some ⟨customId, .succeeded (collectChunks (openaiToChunks body ""))⟩

/-- A line of the results of a node; an error names its status, or one of two outcomes. -/
def Node.batchResultLine (toStr : Value → String) (value : Value) : Option BatchResult :=
  match (value.get "error").filter (· ≠ null) with
  | none => openaiBatchResultLine toStr value
  | some err => do
    let customId ← value.textAt ["custom_id"]
    let outcome := match err.textAt ["code"] with
      | some "canceled" => .canceled
      | some "expired" => .expired
      | code =>
        .errored ((code.bind fun c => Strings.parseUnsigned (2 ^ 16) c.toList).getD 0)
          ((err.textAt ["message"]).getD "")
    some ⟨customId, outcome⟩

namespace BatchHop

/-! ## Jobs -/

/-- A job as one node hands it to the next. -/
def handed (h : BatchHandle) : BatchHandle := Node.batchHandle (handleToJson h)

/-- **A job survives**: what is read has the same fields. -/
structure HandleSurvives (h : BatchHandle) : Prop where
  id : (handed h).id = h.id
  status : (handed h).status = h.status
  counts : (handed h).counts = h.counts
  createdAt : (handed h).createdAt = h.createdAt
  expiresAt : (handed h).expiresAt = h.expiresAt
  endedAt : (handed h).endedAt = h.endedAt
  endpoint : (handed h).endpoint = h.endpoint

/-- What the provider carried has no instant and no endpoint where the job has none. -/
structure NoStandIn (h : BatchHandle) : Prop where
  createdAt : h.createdAt = none → (h.extra.get "created_at").bind asU64 = none
  expiresAt : h.expiresAt = none → (h.extra.get "expires_at").bind asU64 = none
  completedAt : h.endedAt = none → (h.extra.get "completed_at").bind asU64 = none
  endedAt : h.endedAt = none → (h.extra.get "ended_at").bind asU64 = none
  endpoint : h.endpoint = none → (h.extra.get "endpoint").bind asStr = none

/-- Every status is read back from its word. -/
theorem mapBatchStatus_statusStr (s : BatchStatus) : mapBatchStatus (statusStr s) = s := by
  cases s <;> decide +kernel

section

variable (h : BatchHandle)

/-- The counts as they are written. -/
def countsObject : Value :=
  obj [("total", nat h.counts.total), ("completed", nat h.counts.succeeded),
    ("failed", nat h.counts.errored), ("processing", nat h.counts.processing),
    ("canceled", nat h.counts.canceled), ("expired", nat h.counts.expired)]

/-- A field of the object of a job: what is set, else what the provider carried. -/
theorem get_handle (key : String) : (handleToJson h).get key =
    ((Map.build [("id", some (string h.id)), ("object", some (string "batch")),
      ("status", some (string (statusStr h.status))), ("request_counts", some (countsObject h)),
      ("created_at", h.createdAt.map nat), ("expires_at", h.expiresAt.map nat),
      ("completed_at", h.endedAt.map nat), ("endpoint", h.endpoint.map string)]).get key).or
        (h.extra.get key) :=
  Map.get_orInsertAll _ _ key

@[simp] theorem get_id : (handleToJson h).get "id" = some (string h.id) := by
  simp [get_handle]

@[simp] theorem get_status :
    (handleToJson h).get "status" = some (string (statusStr h.status)) := by
  simp [get_handle]

@[simp] theorem get_counts : (handleToJson h).get "request_counts" = some (countsObject h) := by
  simp [get_handle]

@[simp] theorem get_createdAt :
    (handleToJson h).get "created_at" = (h.createdAt.map nat).or (h.extra.get "created_at") := by
  simp [get_handle]

@[simp] theorem get_expiresAt :
    (handleToJson h).get "expires_at" = (h.expiresAt.map nat).or (h.extra.get "expires_at") := by
  simp [get_handle]

@[simp] theorem get_completedAt :
    (handleToJson h).get "completed_at" = (h.endedAt.map nat).or (h.extra.get "completed_at") := by
  simp [get_handle]

@[simp] theorem get_endedAt : (handleToJson h).get "ended_at" = h.extra.get "ended_at" := by
  simp [get_handle]

@[simp] theorem get_endpoint :
    (handleToJson h).get "endpoint" = (h.endpoint.map string).or (h.extra.get "endpoint") := by
  simp [get_handle]

/-- A number that may be missing, else the one that stands in for it. -/
theorem nat_or (o : Option ℕ) (o' : Option Value) :
    ((o.map nat).or o').bind asU64 = o.or (o'.bind asU64) := by
  cases o <;> rfl

theorem string_or (o : Option String) (o' : Option Value) :
    ((o.map string).or o').bind asStr = o.or (o'.bind asStr) := by
  cases o <;> rfl

/-- Every count is read from its field. -/
theorem natAt_counts : (countsObject h).natAt ["total"] = some h.counts.total ∧
    (countsObject h).natAt ["completed"] = some h.counts.succeeded ∧
    (countsObject h).natAt ["failed"] = some h.counts.errored ∧
    (countsObject h).natAt ["processing"] = some h.counts.processing ∧
    (countsObject h).natAt ["canceled"] = some h.counts.canceled ∧
    (countsObject h).natAt ["expired"] = some h.counts.expired := by
  refine ⟨?_, ?_, ?_, ?_, ?_, ?_⟩ <;> rw [natAt, path_one, countsObject, get_obj] <;>
    simp [nat, asU64]

/-- **A job as it is read**: what the provider carried stands in for the missing fields. -/
theorem handed_eq : handed h =
    { id := h.id
      status := h.status
      counts := h.counts
      createdAt := h.createdAt.or ((h.extra.get "created_at").bind asU64)
      expiresAt := h.expiresAt.or ((h.extra.get "expires_at").bind asU64)
      endedAt := (h.endedAt.or ((h.extra.get "completed_at").bind asU64)).or
        ((h.extra.get "ended_at").bind asU64)
      endpoint := h.endpoint.or ((h.extra.get "endpoint").bind asStr)
      extra := [] } := by
  obtain ⟨htotal, hcompleted, hfailed, hprocessing, hcanceled, hexpired⟩ := natAt_counts h
  have hstatus := mapBatchStatus_statusStr h.status
  simp only [handed, Node.batchHandle, batchValueToHandle, batchCounts, natAt, textAt, path_one,
    get_counts, get_id, get_status, get_createdAt, get_expiresAt, get_completedAt, get_endedAt,
    get_endpoint, nat_or, string_or, Option.some_or, Option.bind_some, asStr, Option.map_some,
    Option.getD_some, hstatus]
  simp only [natAt, path_one] at htotal hcompleted hfailed hprocessing hcanceled hexpired
  rw [htotal, hcompleted, hfailed, hprocessing, hcanceled, hexpired]
  rfl

/-- A missing field stays missing exactly if nothing stands in for it. -/
theorem or_eq_self_iff {α : Type} (o o' : Option α) : o.or o' = o ↔ (o = none → o' = none) := by
  cases o <;> simp

/-- **When a job survives.** -/
theorem handle_survives_iff : HandleSurvives h ↔ NoStandIn h := by
  have hended : (h.endedAt.or ((h.extra.get "completed_at").bind asU64)).or
      ((h.extra.get "ended_at").bind asU64) = h.endedAt ↔
        (h.endedAt = none → (h.extra.get "completed_at").bind asU64 = none) ∧
          (h.endedAt = none → (h.extra.get "ended_at").bind asU64 = none) := by
    rw [Option.or_assoc, or_eq_self_iff, ← imp_and, Option.or_eq_none_iff]
  constructor
  · rintro ⟨-, -, -, hcreated, hexpires, hend, hendpoint⟩
    rw [handed_eq] at hcreated hexpires hend hendpoint
    exact ⟨(or_eq_self_iff _ _).mp hcreated, (or_eq_self_iff _ _).mp hexpires,
      (hended.mp hend).1, (hended.mp hend).2, (or_eq_self_iff _ _).mp hendpoint⟩
  · rintro ⟨hcreated, hexpires, hcompleted, hend, hendpoint⟩
    refine ⟨?_, ?_, ?_, ?_, ?_, ?_, ?_⟩ <;> rw [handed_eq]
    · exact (or_eq_self_iff _ _).mpr hcreated
    · exact (or_eq_self_iff _ _).mpr hexpires
    · exact hended.mpr ⟨hcompleted, hend⟩
    · exact (or_eq_self_iff _ _).mpr hendpoint

end

/-! ## Responses -/

/-- The text of an open reasoning block. -/
def openText : ContentPart → Option String
  | .thinking text _ => some text
  | _ => none

/-- The open reasoning text of a choice. -/
def openThinking (parts : List ContentPart) : String := String.join (parts.filterMap openText)

/-- The signatures of the reasoning of a choice. -/
def signatures (parts : List ContentPart) : List String :=
  parts.filterMap fun | .thinking _ signature => signature | _ => none

/-- The encrypted reasoning of a choice. -/
def redacted (parts : List ContentPart) : List String :=
  parts.filterMap fun | .redactedThinking data => some data | _ => none

/-- What a result says in one choice. -/
structure ChoiceSaid where
  index : ℕ
  text : String
  toolCalls : List ToolCall
  thinking : String
  signatures : List String
  redacted : List String
  finish : Option FinishReason
  deriving DecidableEq

/-- What a choice says. -/
def saidOf (c : Choice) : ChoiceSaid where
  index := c.index
  text := c.text
  toolCalls := c.toolCalls
  thinking := openThinking c.thinking
  signatures := signatures c.thinking
  redacted := redacted c.thinking
  finish := c.finishReason

/-- The document of a choice. -/
def choiceDocument (c : Choice) : Value := (Openai.choiceView c).document

section

variable (c : Choice)

theorem choiceReasoning_getD (parts : List ContentPart) :
    (Openai.choiceReasoning parts).getD "" = openThinking parts := by
  unfold Openai.choiceReasoning openThinking
  split
  · rename_i h
    have htexts : parts.filterMap openText = [] := by
      rw [← h]
      exact List.filterMap_congr fun p _ => by cases p <;> rfl
    rw [htexts]
    rfl
  · rename_i first rest h
    have htexts : parts.filterMap openText = first :: rest := by
      rw [← h]
      exact List.filterMap_congr fun p _ => by cases p <;> rfl
    rw [htexts]
    simp [String.join]

theorem indexAt_choice (hindex : c.index < 2 ^ 32) :
    (choiceDocument c).indexAt ["index"] = c.index := by
  rw [indexAt, natAt, path_one, choiceDocument, Openai.ChoiceView.document, get_obj]
  simpa [nat, asU64, Openai.choiceView] using hindex

theorem get_message :
    (choiceDocument c).get "message" = some (Openai.choiceView c).message.document := by
  rw [choiceDocument, Openai.ChoiceView.document, get_obj]
  simp

theorem textAt_finish :
    (choiceDocument c).textAt ["finish_reason"] = c.finishReason.map Openai.finishStr := by
  rw [textAt, path_one, choiceDocument, Openai.ChoiceView.document, get_obj]
  cases h : c.finishReason <;> simp [Openai.choiceView, h, ofOption, asStr]

theorem textAt_content : (choiceDocument c).textAt ["message", "content"] = some c.text := by
  rw [textAt, path_cons, get_message]
  simp [path_one, Openai.MessageView.document, Openai.choiceView, asStr]

theorem reasoning_choice :
    (((choiceDocument c).get "message").bind OpenaiWire.readReasoning).getD "" =
      openThinking c.thinking := by
  rw [get_message, Option.bind_some, OpenaiWire.readReasoning]
  simp [Openai.MessageView.document, Openai.choiceView, choiceReasoning_getD]

theorem itemsAt_toolCalls : (choiceDocument c).itemsAt ["message", "tool_calls"] =
    c.toolCalls.map fun t =>
      Openai.ToolCallView.document ⟨⟨t.arguments, t.name⟩, t.id, "function"⟩ := by
  rw [itemsAt, path_cons, get_message]
  cases h : c.toolCalls <;>
    simp [path_one, Openai.MessageView.document, Openai.choiceView, Openai.optionalItems, h,
      asArray]

/-- A tool call is read as it was written. -/
theorem delta_toolCall (k : ℕ) (t : ToolCall) :
    functionDelta k (Openai.ToolCallView.document ⟨⟨t.arguments, t.name⟩, t.id, "function"⟩) =
      ⟨k, some t.id, some t.name, some t.arguments⟩ := by
  simp [functionDelta, Openai.ToolCallView.document, textAt, path_cons, get_obj, asStr]

end

/-! ## A response as it is read -/

/-- The body of a line with a response. -/
def body (resp : ChatResponse) : Value := (Openai.responseToOpenai resp 0).document

/-- A response as one node hands it to the next. -/
def handedResponse (resp : ChatResponse) : ChatResponse :=
  collectChunks (openaiToChunks (body resp) "")

/-- What is read of a usage: no cost, and no cache writes. -/
def readUsage (u : Usage) : Usage := { u with costUsd := none, cacheCreationTokens := 0 }

/-- What is read of a choice: no signatures, no encrypted reasoning, and one of four reasons. -/
def readChoice (c : Choice) : ChoiceSaid :=
  { saidOf c with
    signatures := []
    redacted := []
    finish := some ((c.finishReason.map fun r => OpenaiWire.mapFinish (Openai.finishStr r)).getD
      .stop) }

section

variable (resp : ChatResponse)

theorem itemsAt_choices : (body resp).itemsAt ["choices"] = resp.choices.map choiceDocument := by
  rw [itemsAt, path_one, body, Openai.responseToOpenai, Openai.CompletionView.document, get_obj]
  simp [Openai.completionView, asArray, choiceDocument]

theorem openaiUsage_document (u : Usage) :
    openaiUsage (Openai.UsageFrame.from u).document = readUsage u := by
  by_cases h : 0 < u.cacheReadTokens
  · simp [openaiUsage, openaiCacheReadTokens, count, Openai.UsageFrame.document,
      Openai.UsageFrame.from, readUsage, h, nat, asU64, get_obj]
  · have hzero : u.cacheReadTokens = 0 := by omega
    simp [openaiUsage, openaiCacheReadTokens, count, Openai.UsageFrame.document,
      Openai.UsageFrame.from, readUsage, hzero, nat, asU64]

theorem usage_collected (chunks : List StreamChunk) :
    (collectChunks chunks).usage = (lastUsage chunks).getD .zero :=
  Collected.usage_foldl chunks

theorem usage_handed : (handedResponse resp).usage = readUsage resp.usage := by
  have husage : OpenaiWire.usageOf (body resp) =
      some (Openai.UsageFrame.from resp.usage).document := by
    rw [OpenaiWire.usageOf, body, Openai.responseToOpenai, Openai.CompletionView.document, get_obj]
    simp [Openai.completionView, Openai.UsageFrame.document]
  have hcollected := OpenaiWire.usage_collected (body resp) ""
  rw [husage, Option.map_some, Option.getD_some, openaiUsage_document] at hcollected
  rw [handedResponse, usage_collected, hcollected]

variable {resp}

/-- The choices of 32-bit index are read under their index. -/
theorem indices_body (hbound : ∀ c ∈ resp.choices, c.index < 2 ^ 32) :
    ((body resp).itemsAt ["choices"]).map (·.indexAt ["index"]) =
      resp.choices.map Choice.index := by
  rw [itemsAt_choices, List.map_map]
  exact List.map_congr_left fun c hc => indexAt_choice c (hbound c hc)

/-- The choices that are read: one for each index. -/
theorem mem_indices_handed (hbound : ∀ c ∈ resp.choices, c.index < 2 ^ 32) (i : ℕ) :
    i ∈ (handedResponse resp).choices.map Choice.index ↔ i ∈ resp.choices.map Choice.index := by
  rw [handedResponse, choices_index, Collected.mem_indices_foldl, OpenaiWire.ofChoice_collected,
    ← indices_body hbound]
  have hempty : i ∉ Collected.empty.indices := fun h => by cases h
  simp only [hempty, or_false, ne_eq, List.mem_map]
  constructor
  · intro h
    obtain ⟨chunk, hchunk⟩ := List.exists_mem_of_ne_nil _ h
    obtain ⟨d, hd, -⟩ := List.mem_flatMap.mp hchunk
    obtain ⟨hd, hi⟩ := List.mem_filter.mp hd
    exact ⟨d, hd, of_decide_eq_true hi⟩
  · rintro ⟨d, hd, hi⟩ hnil
    have hflat := List.flatMap_eq_nil_iff.mp hnil d
      (List.mem_filter.mpr ⟨hd, decide_eq_true hi⟩)
    simp [OpenaiWire.choiceChunks] at hflat

theorem indices_handed_sorted (resp : ChatResponse) :
    ((handedResponse resp).choices.map Choice.index).Pairwise (· < ·) := by
  rw [handedResponse, choices_index]
  exact Collected.indices_sorted _

/-- What the chunks of a choice amount to. -/
theorem gathered_choice (c : Choice) (hindex : (choiceDocument c).indexAt ["index"] = c.index) :
    gathered c.index (OpenaiWire.choiceChunks (choiceDocument c)) =
      { (0 : Gathered) with
        text := c.text
        thinking := openThinking c.thinking
        calls := fun k => (c.toolCalls.map fun t =>
          (⟨some t.id, some t.name, t.arguments⟩ : PartialToolCall))[k]?
        finish := (readChoice c).finish } := by
  obtain ⟨houtput, hsignature, hredacted, hcompaction⟩ :=
    gathered_plain c.index (OpenaiWire.plain_choiceChunks (choiceDocument c))
  have htext := OpenaiWire.text_choiceChunks (choiceDocument c)
  have hthinking := OpenaiWire.thinking_choiceChunks (choiceDocument c)
  have hfragments := OpenaiWire.fragments_choiceChunks (choiceDocument c)
  have hfinish := OpenaiWire.finishes_choiceChunks (choiceDocument c)
  rw [hindex] at htext hthinking hfragments hfinish
  rw [textAt_content, Option.getD_some] at htext
  rw [reasoning_choice] at hthinking
  refine Gathered.ext houtput htext hthinking hsignature hredacted hcompaction
    (funext fun k => ?_) ?_
  · rw [gathered_calls, hfragments, itemsAt_toolCalls, List.getElem?_map, Option.map_map]
    cases hk : c.toolCalls[k]? with
    | none => simp [PartialToolCall.ofDeltas, hk]
    | some t => simp [PartialToolCall.ofDeltas, delta_toolCall, hk, String.join]
  · rw [gathered_finish, hfinish, textAt_finish, Option.map_map]
    rfl

/-- What collected reasoning without a signature says. -/
theorem said_parts (text : String) :
    openThinking (Collected.thinkingParts (some (text, none)) (some [])) = text ∧
      signatures (Collected.thinkingParts (some (text, none)) (some [])) = [] ∧
      redacted (Collected.thinkingParts (some (text, none)) (some [])) = [] := by
  by_cases h : text = ""
  · rw [h]
    exact ⟨rfl, rfl, rfl⟩
  · simp [Collected.thinkingParts, h, openThinking, openText, signatures, redacted, String.join]

/-- A choice as it is read. -/
theorem saidOf_handed (hbound : ∀ c ∈ resp.choices, c.index < 2 ^ 32)
    (hnodup : (resp.choices.map Choice.index).Nodup) {c : Choice} (hc : c ∈ resp.choices) :
    saidOf (((openaiToChunks (body resp) "").foldl Collected.step .empty).choice c.index) =
      readChoice c := by
  have hindex := indexAt_choice c (hbound c hc)
  have hmem : choiceDocument c ∈ (body resp).itemsAt ["choices"] := by
    rw [itemsAt_choices]
    exact List.mem_map_of_mem hc
  have hchunks : gathered c.index (openaiToChunks (body resp) "") =
      gathered c.index (OpenaiWire.choiceChunks (choiceDocument c)) := by
    have hdistinct : (((body resp).itemsAt ["choices"]).map (·.indexAt ["index"])).Nodup := by
      rw [indices_body hbound]
      exact hnodup
    have hkey := Folds.filter_key hdistinct hmem
    rw [hindex] at hkey
    rw [← gathered_ofChoice, OpenaiWire.ofChoice_collected, hkey, List.flatMap_singleton]
  rw [gathered_choice c hindex] at hchunks
  rw [choice_of_calls _ c.index fun k => by rw [hchunks], hchunks]
  obtain ⟨htext, hsignatures, hredacted⟩ := said_parts (openThinking c.thinking)
  have hcalls : (c.toolCalls.map fun t =>
      (⟨some t.id, some t.name, t.arguments⟩ : PartialToolCall)).map PartialToolCall.intoCall =
        c.toolCalls := by
    rw [List.map_map]
    exact List.map_id _
  simp only [saidOf, Gathered.choice, Gathered.signature_zero, Gathered.redacted_zero, htext,
    hsignatures, hredacted, hcalls, readChoice]

/-- **The choices as they are read**, where their indices increase. -/
theorem choices_handed (hbound : ∀ c ∈ resp.choices, c.index < 2 ^ 32)
    (hsorted : (resp.choices.map Choice.index).Pairwise (· < ·)) :
    (handedResponse resp).choices.map saidOf = resp.choices.map readChoice := by
  have hnodup : (resp.choices.map Choice.index).Nodup := hsorted.imp fun h => ne_of_lt h
  have hindices : ((openaiToChunks (body resp) "").foldl Collected.step .empty).indices =
      resp.choices.map Choice.index := by
    have hperm := (List.perm_ext_iff_of_nodup
      ((indices_handed_sorted resp).imp fun h => ne_of_lt h) hnodup).mpr (mem_indices_handed hbound)
    rw [← choices_index]
    exact hperm.eq_of_pairwise (fun a b _ _ hab hba => absurd hab (lt_asymm hba))
      (indices_handed_sorted resp) hsorted
  rw [handedResponse, collectChunks, hindices, List.map_map, List.map_map]
  exact List.map_congr_left fun c hc => saidOf_handed hbound hnodup hc

/-- **A response survives**: the same choices, in the same order, and the same usage. -/
structure ResponseSurvives (resp : ChatResponse) (read : ChatResponse) : Prop where
  choices : read.choices.map saidOf = resp.choices.map saidOf
  usage : read.usage = resp.usage

/-- A reason that has a word of its own on the wire. -/
def HasWord (reason : Option FinishReason) : Prop :=
  reason = some .stop ∨ reason = some .length ∨ reason = some .toolCalls ∨
    reason = some .contentFilter

instance (reason : Option FinishReason) : Decidable (HasWord reason) := instDecidableOr

/-- **A response that holds nothing only the writer knows.** -/
structure PlainResponse (resp : ChatResponse) : Prop where
  indices : (resp.choices.map Choice.index).Pairwise (· < ·)
  signatures : ∀ c ∈ resp.choices, signatures c.thinking = []
  redacted : ∀ c ∈ resp.choices, redacted c.thinking = []
  finish : ∀ c ∈ resp.choices, HasWord c.finishReason
  cost : resp.usage.costUsd = none
  cacheCreation : resp.usage.cacheCreationTokens = 0

/-- A finish reason is read back exactly if it has a word. -/
theorem finish_iff (reason : Option FinishReason) :
    some ((reason.map fun r => OpenaiWire.mapFinish (Openai.finishStr r)).getD .stop) = reason ↔
      HasWord reason := by
  cases reason with
  | none => decide
  | some r => cases r <;> decide

theorem readChoice_iff (c : Choice) : readChoice c = saidOf c ↔
    signatures c.thinking = [] ∧ redacted c.thinking = [] ∧ HasWord c.finishReason := by
  rw [← finish_iff]
  simp only [readChoice, saidOf, ChoiceSaid.mk.injEq, true_and, eq_comm (a := ([] : List String))]

theorem readUsage_iff (u : Usage) :
    readUsage u = u ↔ u.costUsd = none ∧ u.cacheCreationTokens = 0 := by
  cases u
  simp [readUsage, eq_comm]

/-- **When a response survives.** -/
theorem response_survives_iff (hbound : ∀ c ∈ resp.choices, c.index < 2 ^ 32) :
    ResponseSurvives resp (handedResponse resp) ↔ PlainResponse resp := by
  constructor
  · rintro ⟨hchoices, husage⟩
    have hindices : (handedResponse resp).choices.map Choice.index =
        resp.choices.map Choice.index := by
      have hmap := congrArg (List.map ChoiceSaid.index) hchoices
      rwa [List.map_map, List.map_map] at hmap
    have hsorted := hindices ▸ indices_handed_sorted resp
    rw [choices_handed hbound hsorted] at hchoices
    have hread := fun c hc => (readChoice_iff c).mp (List.map_inj_left.mp hchoices c hc)
    obtain ⟨hcost, hcreation⟩ := (readUsage_iff _).mp ((usage_handed resp).symm.trans husage)
    exact ⟨hsorted, fun c hc => (hread c hc).1, fun c hc => (hread c hc).2.1,
      fun c hc => (hread c hc).2.2, hcost, hcreation⟩
  · rintro ⟨hsorted, hsignatures, hredacted, hfinish, hcost, hcreation⟩
    constructor
    · rw [choices_handed hbound hsorted]
      exact List.map_congr_left fun c hc =>
        (readChoice_iff c).mpr ⟨hsignatures c hc, hredacted c hc, hfinish c hc⟩
    · rw [usage_handed]
      exact (readUsage_iff _).mpr ⟨hcost, hcreation⟩

end

/-! ## Lines -/

/-- A result as one node hands it to the next. -/
def handedResult (toStr : Value → String) (r : BatchResult) : Option BatchResult :=
  Node.batchResultLine toStr (resultToLine r).document

/-- Outcomes that say the same. -/
inductive SameOutcome : BatchOutcome → BatchOutcome → Prop
  | succeeded {resp read : ChatResponse} (h : ResponseSurvives resp read) :
    SameOutcome (.succeeded resp) (.succeeded read)
  | errored (status : ℕ) (message : String) :
    SameOutcome (.errored status message) (.errored status message)
  | canceled : SameOutcome .canceled .canceled
  | expired : SameOutcome .expired .expired

theorem SameOutcome.response {resp read : ChatResponse}
    (h : SameOutcome (.succeeded resp) (.succeeded read)) : ResponseSurvives resp read := by
  cases h with
  | succeeded h => exact h

/-- **A result survives**: its line is read, under the same id and with the same outcome. -/
def ResultSurvives (toStr : Value → String) (r : BatchResult) : Prop :=
  ∃ read, handedResult toStr r = some read ∧ read.customId = r.customId ∧
    SameOutcome r.outcome read.outcome

/-- The numbers of a result are of their types: a status of 16 bits, indices of 32. -/
def Typed (r : BatchResult) : Prop :=
  match r.outcome with
  | .succeeded resp => ∀ c ∈ resp.choices, c.index < 2 ^ 32
  | .errored status _ => status < 2 ^ 16
  | .canceled | .expired => True

/-- A response in the result holds nothing only the writer knows. -/
def PlainOutcome : BatchOutcome → Prop
  | .succeeded resp => PlainResponse resp
  | .errored _ _ | .canceled | .expired => True

section

variable (toStr : Value → String)

/-- The fields of a line. -/
theorem get_line (line : ResultLineView) :
    line.document.textAt ["custom_id"] = some line.customId ∧
      line.document.get "error" = some ((line.error.map ErrorView.document).getD null) ∧
      line.document.get "response" =
        some ((line.response.map ResponseView.document).getD null) := by
  refine ⟨?_, ?_, ?_⟩
  · rw [textAt, path_one, ResultLineView.document, get_obj]
    simp [asStr]
  · rw [ResultLineView.document, get_obj]
    simp
  · rw [ResultLineView.document, get_obj]
    simp

/-- The code and the message of an error are read. -/
theorem get_error (e : ErrorView) : e.document.textAt ["code"] = some e.code ∧
    e.document.textAt ["message"] = some e.message ∧ e.document ≠ null := by
  refine ⟨?_, ?_, fun h => by cases h⟩
  · rw [textAt, path_one, ErrorView.document, get_obj]
    simp [asStr]
  · rw [textAt, path_one, ErrorView.document, get_obj]
    simp [asStr]

/-- A line with an error is read by its code. -/
theorem read_error (customId : String) (e : ErrorView) (response : Option ResponseView) :
    Node.batchResultLine toStr (ResultLineView.document ⟨customId, some e, response⟩) =
      some ⟨customId, match some e.code with
        | some "canceled" => .canceled
        | some "expired" => .expired
        | code => .errored
          ((code.bind fun c => Strings.parseUnsigned (2 ^ 16) c.toList).getD 0) e.message⟩ := by
  obtain ⟨hid, herror, -⟩ := get_line ⟨customId, some e, response⟩
  obtain ⟨hcode, hmessage, hnull⟩ := get_error e
  have hfilter : (some e.document).filter (· ≠ null) = some e.document := by
    simp [hnull]
  unfold Node.batchResultLine
  rw [herror, Option.map_some, Option.getD_some, hfilter]
  simp only [hid, hcode, hmessage, Option.getD_some]
  rfl

/-- No status is written as one of the two words. -/
theorem toString_ne {n : ℕ} (hn : n < 2 ^ 16) :
    toString n ≠ "canceled" ∧ toString n ≠ "expired" := by
  have hread := Strings.parseUnsigned_toString hn
  have hcanceled : Strings.parseUnsigned (2 ^ 16) "canceled".toList = none := by decide +kernel
  have hexpired : Strings.parseUnsigned (2 ^ 16) "expired".toList = none := by decide +kernel
  constructor
  · intro h
    rw [h, hcanceled] at hread
    cases hread
  · intro h
    rw [h, hexpired] at hread
    cases hread

/-- An error is read with its status and its message. -/
theorem handed_errored (customId message : String) {status : ℕ} (hstatus : status < 2 ^ 16) :
    handedResult toStr ⟨customId, .errored status message⟩ =
      some ⟨customId, .errored status message⟩ := by
  obtain ⟨hcanceled, hexpired⟩ := toString_ne hstatus
  have hparse := Strings.parseUnsigned_toString hstatus
  rw [handedResult, resultToLine, read_error]
  split
  · rename_i h
    exact absurd (Option.some.inj h) hcanceled
  · rename_i h
    exact absurd (Option.some.inj h) hexpired
  · rw [Option.bind_some, hparse]
    rfl

/-- A response is read from its body. -/
theorem handed_succeeded (customId : String) (resp : ChatResponse) :
    handedResult toStr ⟨customId, .succeeded resp⟩ =
      some ⟨customId, .succeeded (handedResponse resp)⟩ := by
  obtain ⟨hid, herror, hresponse⟩ :=
    get_line ⟨customId, none, some ⟨Openai.responseToOpenai resp 0, 200⟩⟩
  have hstatus : (ResponseView.document ⟨Openai.responseToOpenai resp 0, 200⟩).natAt
      ["status_code"] = some 200 := by
    rw [natAt, path_one, ResponseView.document, get_obj]
    simp [nat, asU64]
  have hbody : (ResponseView.document ⟨Openai.responseToOpenai resp 0, 200⟩).get "body" =
      some (body resp) := by
    rw [ResponseView.document, get_obj]
    simp [body]
  have hnull : (some (null : Value)).filter (· ≠ null) = none := by simp
  unfold handedResult resultToLine Node.batchResultLine openaiBatchResultLine
  simp only [herror, Option.map_none, Option.getD_none, hnull, hid, hresponse, Option.map_some,
    Option.getD_some, Option.bind_eq_bind, Option.bind_some, hstatus, hbody]
  rfl

/-- **When a result survives.** -/
theorem outcome_survives_iff {r : BatchResult} (htyped : Typed r) :
    ResultSurvives toStr r ↔ PlainOutcome r.outcome := by
  obtain ⟨customId, outcome⟩ := r
  cases outcome with
  | succeeded resp =>
    rw [ResultSurvives, handed_succeeded]
    constructor
    · rintro ⟨read, hread, -, hsame⟩
      rw [← Option.some.inj hread] at hsame
      exact (response_survives_iff htyped).mp hsame.response
    · exact fun h => ⟨_, rfl, rfl, .succeeded ((response_survives_iff htyped).mpr h)⟩
  | errored status message =>
    exact ⟨fun _ => trivial, fun _ => ⟨_, handed_errored toStr customId message htyped, rfl,
      .errored status message⟩⟩
  | canceled =>
    exact ⟨fun _ => trivial, fun _ => ⟨_, read_error toStr customId _ none, rfl, .canceled⟩⟩
  | expired =>
    exact ⟨fun _ => trivial, fun _ => ⟨_, read_error toStr customId _ none, rfl, .expired⟩⟩

end

/-- **What survives from node to node**: a job exactly if what its provider carried stands in for
no missing field, and a result exactly if it holds nothing only the writer knows. -/
theorem hop_survives_iff (toStr : Value → String) :
    (∀ h, HandleSurvives h ↔ NoStandIn h) ∧
      ∀ r, Typed r → (ResultSurvives toStr r ↔ PlainOutcome r.outcome) :=
  ⟨handle_survives_iff, fun _ htyped => outcome_survives_iff toStr htyped⟩

/-- A response with signed reasoning. -/
def signedResponse : ChatResponse where
  id := "c1"
  model := "claude"
  choices := [{
    output := []
    index := 0
    text := "done"
    thinking := [.thinking "think" (some "SIG")]
    compaction := []
    toolCalls := []
    finishReason := some .stop }]
  usage := .zero

theorem typed_signed : Typed ⟨"a", .succeeded signedResponse⟩ := by
  intro c hc
  cases List.mem_singleton.mp hc
  decide

/-- A signed response, and a request that expired. -/
theorem hop_survives_iff_signed :
    (ResultSurvives (fun _ => "") ⟨"a", .succeeded signedResponse⟩ ↔
        PlainOutcome (.succeeded signedResponse)) ∧
      (ResultSurvives (fun _ => "") ⟨"b", .expired⟩ ↔ PlainOutcome .expired) :=
  ⟨(hop_survives_iff fun _ => "").2 ⟨"a", .succeeded signedResponse⟩ typed_signed,
    (hop_survives_iff fun _ => "").2 ⟨"b", .expired⟩ trivial⟩

/-- The signature of the reasoning of a result is lost. -/
theorem signature_lost :
    Typed ⟨"a", .succeeded signedResponse⟩ ∧
      ¬ ResultSurvives (fun _ => "") ⟨"a", .succeeded signedResponse⟩ := by
  refine ⟨typed_signed, fun h => ?_⟩
  have hplain := (outcome_survives_iff _ typed_signed).mp h
  exact absurd (hplain.signatures _ (List.mem_singleton_self _)) (by decide)

end BatchHop

end Llmleaf
