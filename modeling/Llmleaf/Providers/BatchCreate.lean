import Llmleaf.Providers.AnthropicRequest
import Llmleaf.Providers.OpenaiFamily

/-!
# Creating batches

A batch is one job at one provider, and the engine rewrites the model of every item to the one its
own route names. What a provider submits decides on which model an item runs: most dialects name it
in every item, two of them once for the whole job.

- `JobProvider.batchCreate`: the calls of a submission.
- `RunsOn`: the models an upstream runs the items of a submission on.
- **Result** (`own_model_iff`): the items run on their own models exactly if the provider names a
  model an item, or the routes of the items agree.
-/

namespace Llmleaf

open Value

namespace Gemini

def batchUrl (cx : ProviderCx) (model : String) : String :=
  cx.endpointOr "https://generativelanguage.googleapis.com/v1beta" ++ "/models/" ++ model ++
    ":batchGenerateContent"

/-- What the dialect cannot carry. -/
def ensureAudioInputSupported (req : ChatRequest) (provider : String) : Except ModelError Unit :=
  if (req.parts.any fun | .compaction _ _ _ _ _ => true | _ => false) ∨
      (req.extra.get "context_management").isSome ∨ (req.extra.get "compaction").isSome then
    .error (.unsupported "native API compaction is not supported by this endpoint")
  else
    req.parts.forM fun
      | .inputAudio _ format =>
        if (audioMimeType format).isNone then
          .error (.unsupported
            ("provider '" ++ provider ++ "' does not support chat audio format '" ++ format ++ "'"))
        else .ok ()
      | _ => .ok ()

/-- An item of a submission. -/
def batchRequest (fromStr : String → Option Value) (item : BatchItem) : Except String Value := do
  let request ← requestToGemini fromStr item.request
  return obj [("request", request), ("metadata", obj [("key", string item.customId)])]

def batchBody (requests : List Value) : Value :=
  obj [("batch", obj [("input_config", obj [("requests", obj [("requests", array requests)])])])]

end Gemini

/-- A provider that an instance may be of. -/
inductive JobProvider where
  | anthropic
  | gemini
  | openai (p : OpenaiProvider)
  /-- A provider without batches. -/
  | other (name : String)

namespace JobProvider

section

variable {α : Type} (fromStr : String → Option Value) (cx : ProviderCx) (spec : BatchSpec)

/-- Submit the items inline. -/
def submit (call : UpstreamCall) (handle : Value → BatchHandle) (up : Answers α) :
    Exchange BatchHandle :=
  ⟨[call], (up.json call).map handle⟩

/-- The messages of Anthropic, inline. -/
def anthropicCreate (up : Answers α) : Exchange BatchHandle :=
  match spec.items.forM fun item => Anthropic.validateCompaction item.request with
  | .error e => .refuse e
  | .ok () =>
    if spec.items.any (·.request.hasInputAudio) then
      .refuse (.unsupported "provider 'anthropic' does not support audio input in chat batches")
    else
      let cache := Anthropic.promptCache cx
      submit (.batch (cx.endpointOr "https://api.anthropic.com" ++ "/v1/messages/batches")
        (obj [("requests", array (spec.items.map fun item =>
          obj [("custom_id", string item.customId),
            ("params", Anthropic.requestToAnthropic fromStr item.request cache)]))]))
        anthropicBatchToHandle up

/-- The contents of Gemini, inline, under the model of the first item. -/
def geminiCreate (up : Answers α) : Exchange BatchHandle :=
  match spec.items.forM fun item => Gemini.ensureAudioInputSupported item.request "gemini" with
  | .error e => .refuse e
  | .ok () =>
    match spec.items.mapM (Gemini.batchRequest fromStr) with
    -- a panic, which the check above excludes
    | .error panic => .refuse (.mapping panic)
    | .ok requests =>
      submit (.batch (Gemini.batchUrl cx (OpenAiCompat.jobModel spec.items))
        (Gemini.batchBody requests)) geminiBatchToHandle up

/-- **Create a batch.** -/
def batchCreate (self : JobProvider) (up : Answers α) : Exchange BatchHandle :=
  match self with
  | anthropic => anthropicCreate fromStr cx spec up
  | gemini => geminiCreate fromStr cx spec up
  | openai p => p.batchCreate fromStr cx spec up
  | other name => .refuse (.unsupported ("provider '" ++ name ++ "' does not support batch"))

end

/-! ## The models of a submission -/

/-- The models that an OpenAI-wire upstream runs the lines of a file on. -/
def FileRunsOn (brand : Brand) (calls : List UpstreamCall) (models : List String) : Prop :=
  ∃ fileUrl purpose lines url body,
    calls = [.file fileUrl purpose lines, .batch url body] ∧
      if brand.batchFlavor = .mistralJobs then
        -- the job names the model of all lines
        ∃ model, body.textAt ["model"] = some model ∧ models = lines.map fun _ => model
      else lines.map (·.textAt ["body", "model"]) = models.map some

/-- The models that an upstream runs the items of a submission on. -/
def RunsOn (self : JobProvider) (cx : ProviderCx) (calls : List UpstreamCall)
    (models : List String) : Prop :=
  match self with
  | anthropic => ∃ url body, calls = [.batch url body] ∧
      (body.itemsAt ["requests"]).map (·.textAt ["params", "model"]) = models.map some
  | openai .llmleaf => ∃ url body, calls = [.batch url body] ∧
      (body.itemsAt ["requests"]).map (·.textAt ["body", "model"]) = models.map some
  -- the model is in the URL
  | gemini => ∃ model body, calls = [.batch (Gemini.batchUrl cx model) body] ∧
      models = (body.itemsAt ["batch", "input_config", "requests", "requests"]).map fun _ => model
  | openai p => FileRunsOn p.brand calls models
  | other _ => False

/-- A job is created. -/
def Submits (calls : List UpstreamCall) : Prop := ∃ url body, .batch url body ∈ calls

/-- One model serves the whole job. -/
def JobWide : JobProvider → Prop
  | gemini => True
  | openai .llmleaf => False
  | openai p => p.brand.batchFlavor = .mistralJobs
  | _ => False

/-- The provider refuses a batch because of what is in it. -/
def Refuses (self : JobProvider) (cx : ProviderCx) (spec : BatchSpec) : Prop :=
  match self with
  | gemini => ∃ item ∈ spec.items,
      Gemini.ensureAudioInputSupported item.request "gemini" ≠ .ok ()
  | openai p => p.RefusesBatch cx spec
  | _ => False

end JobProvider

/-- The upstream model that the route of a model names. -/
def resolvedModel (topo : Topology) (model : String) : String :=
  match topo.router.resolve model with
  | some (primary :: _) => primary.model.getD model
  | _ => model

theorem resolveItem_model {topo : Topology} {chosen : Option String} {item item' : BatchItem}
    {provider : String} (h : resolveItem topo chosen item = .ok (provider, item')) :
    item'.request.model = resolvedModel topo item.request.model := by
  unfold resolveItem at h
  unfold resolvedModel
  split at h
  · cases h
  · cases h
  · rename_i primary rest hresolve
    rw [hresolve]
    split at h
    · cases h
    · obtain ⟨-, rfl⟩ := Prod.mk.inj (Except.ok.inj h)
      dsimp only
      split
      · rename_i upstream hupstream
        rw [hupstream, Option.getD_some]
      · rename_i hnone
        rw [hnone, Option.getD_none]

theorem resolveItems_models {topo : Topology} {chosen last : Option String}
    {items items' : List BatchItem} (h : resolveItems topo chosen items = .ok (last, items')) :
    items'.map (·.request.model) = items.map fun item => resolvedModel topo item.request.model := by
  induction items generalizing chosen last items' with
  | nil =>
    obtain ⟨-, rfl⟩ := Prod.mk.inj (Except.ok.inj h)
    rfl
  | cons item items ih =>
    rw [resolveItems] at h
    split at h
    · cases h
    · rename_i provider item' hitem
      split at h
      · cases h
      · rename_i last' items'' hitems
        obtain ⟨-, rfl⟩ := Prod.mk.inj (Except.ok.inj h)
        rw [List.map_cons, List.map_cons, resolveItem_model hitem, ih hitems]

/-- The engine hands every item on under the model of its route. -/
theorem resolveBatch_models {topo : Topology} {spec spec' : BatchSpec} {provider routing : String}
    (h : resolveBatch topo spec = .ok (provider, routing, spec')) :
    spec'.items.map (·.request.model) =
      spec.items.map fun item => resolvedModel topo item.request.model := by
  unfold resolveBatch at h
  split at h
  · cases h
  · rename_i chosen items hitems
    obtain ⟨-, hrest⟩ := Prod.mk.inj (Except.ok.inj h)
    obtain ⟨-, rfl⟩ := Prod.mk.inj hrest
    exact resolveItems_models hitems

namespace Gemini

variable {fromStr : String → Option Value}

/-- The mapper does not panic on a request that the check lets through. -/
theorem requestToGemini_ok {req : ChatRequest} {provider : String}
    (h : ensureAudioInputSupported req provider = .ok ()) :
    ∃ wire, requestToGemini fromStr req = .ok wire := by
  unfold ensureAudioInputSupported at h
  split at h
  · cases h
  rw [Traverse.forM_ok_iff] at h
  have hpart : ∀ part ∈ req.parts, ∃ blocks, contentPart part = .ok blocks := by
    intro part hmem
    have hok := h part hmem
    cases part with
    | inputAudio data format =>
      dsimp only at hok
      cases hmime : audioMimeType format with
      | none =>
        rw [hmime] at hok
        cases hok
      | some mime => exact ⟨_, by rw [contentPart, hmime]⟩
    | _ => exact ⟨_, rfl⟩
  have hmessage : ∀ msg ∈ req.messages.filter (·.role ≠ .system),
      ∃ wire, messageToGemini fromStr msg = .ok wire := by
    intro msg hmsg
    unfold messageToGemini
    split
    · exact ⟨_, rfl⟩
    · obtain ⟨parts, hparts⟩ := Traverse.exists_mapM fun part hp =>
        hpart part (List.mem_flatMap.mpr ⟨msg, List.mem_of_mem_filter hmsg, hp⟩)
      exact ⟨_, by rw [hparts]; rfl⟩
  obtain ⟨contents, hcontents⟩ := Traverse.exists_mapM hmessage
  exact ⟨_, by rw [requestToGemini, hcontents]; rfl⟩

theorem batchUrl_inj {cx : ProviderCx} {a b : String} (h : batchUrl cx a = batchUrl cx b) :
    a = b := by
  rwa [batchUrl, batchUrl, String.append_left_inj, String.append_right_inj] at h

end Gemini

namespace JobProvider

variable {α : Type} {fromStr : String → Option Value} {cx : ProviderCx} {spec : BatchSpec}

/-- The models that the items of a submission name. -/
def models (spec : BatchSpec) : List String := spec.items.map (·.request.model)

/-- The items agree on their model. -/
def Agree (spec : BatchSpec) : Prop :=
  ∀ item ∈ spec.items, item.request.model = OpenAiCompat.jobModel spec.items

theorem agree_iff (spec : BatchSpec) :
    models spec = (spec.items.map fun _ => OpenAiCompat.jobModel spec.items) ↔ Agree spec := by
  rw [models, List.map_inj_left]
  rfl

theorem requestToOpenai_model (req : ChatRequest) {field : String} (stream : Bool)
    (hfield : field ∈ ["max_tokens", "max_completion_tokens"]) :
    (OpenaiWire.requestToOpenai req field stream).textAt ["model"] = some req.model := by
  have hmodel : (OpenaiWire.modeledFields req field).get "model" = some (string req.model) := by
    have hne : field ≠ "model" := by
      rintro rfl
      exact absurd hfield (by decide)
    simp [OpenaiWire.modeledFields, hne]
  have hbody : ((OpenaiWire.modeledFields req field).orInsertAll req.extra).get "model" =
      some (string req.model) := by
    rw [Map.get_orInsertAll, hmodel]
    rfl
  unfold OpenaiWire.requestToOpenai
  cases stream with
  | _ => simp [Map.get_insert, hbody, Value.asStr]

/-! ### Inline submissions -/

theorem not_submits_refuse (e : ModelError) :
    ¬ Submits (.refuse e : Exchange BatchHandle).calls := by
  rintro ⟨url, body, h⟩
  cases h

theorem itemsAt_requests (requests : List Value) :
    (obj [("requests", array requests)]).itemsAt ["requests"] = requests := by
  simp [Value.itemsAt, Value.path_cons, Value.get_obj, Value.asArray]

/-- The model of a body under its field. -/
theorem textAt_model {id key model : String} {body : Value}
    (h : body.textAt ["model"] = some model) :
    (obj [("custom_id", string id), (key, body)]).textAt [key, "model"] = some model := by
  simpa [Value.textAt, Value.path_cons, Value.get_obj] using h

/-- Anthropic runs every item on the model it names. -/
theorem anthropic_runs (up : Answers α) (h : Submits (anthropicCreate fromStr cx spec up).calls) :
    RunsOn .anthropic cx (anthropicCreate fromStr cx spec up).calls (models spec) := by
  unfold anthropicCreate at h ⊢
  split at h
  · exact absurd h (not_submits_refuse _)
  · split at h
    · exact absurd h (not_submits_refuse _)
    · rename_i haudio
      rw [if_neg haudio]
      refine ⟨_, _, rfl, ?_⟩
      rw [itemsAt_requests, List.map_map, models, List.map_map]
      exact List.map_congr_left fun item _ =>
        textAt_model (Anthropic.requestToAnthropic_model item.request _)

/-- So does another node. -/
theorem node_runs (up : Answers α) :
    RunsOn (.openai .llmleaf) cx (Node.batchCreate fromStr cx spec up).calls (models spec) := by
  refine ⟨_, _, rfl, ?_⟩
  rw [itemsAt_requests, List.map_map, models, List.map_map]
  exact List.map_congr_left fun item _ =>
    textAt_model (requestToOpenai_model item.request false (by decide))

theorem itemsAt_batchBody (requests : List Value) :
    (Gemini.batchBody requests).itemsAt ["batch", "input_config", "requests", "requests"] =
      requests := by
  simp [Gemini.batchBody, Value.itemsAt, Value.path_cons, Value.get_obj, Value.asArray]

/-- Gemini refuses a batch, or submits it and runs all items on the model of the first. -/
theorem gemini_runs (spec : BatchSpec) (up : Answers α) :
    (Refuses .gemini cx spec ∧ ¬ Submits (geminiCreate fromStr cx spec up).calls) ∨
    (¬ Refuses .gemini cx spec ∧ Submits (geminiCreate fromStr cx spec up).calls ∧
      ∀ ran, RunsOn .gemini cx (geminiCreate fromStr cx spec up).calls ran ↔
        ran = spec.items.map fun _ => OpenAiCompat.jobModel spec.items) := by
  have hrefuses : ¬ Refuses .gemini cx spec ↔ spec.items.forM
      (fun item => Gemini.ensureAudioInputSupported item.request "gemini") = .ok () := by
    rw [Traverse.forM_ok_iff, Refuses]
    simp only [not_exists, not_and, not_not]
  unfold geminiCreate
  cases hcheck : spec.items.forM
      (fun item => Gemini.ensureAudioInputSupported item.request "gemini") with
  | error e =>
    refine .inl ⟨?_, not_submits_refuse _⟩
    rw [← not_not (a := Refuses .gemini cx spec), hrefuses, hcheck]
    intro h
    cases h
  | ok u =>
    dsimp only
    have hex : ∃ requests, spec.items.mapM (Gemini.batchRequest fromStr) = .ok requests := by
      refine Traverse.exists_mapM fun item hitem => ?_
      obtain ⟨wire, hwire⟩ := @Gemini.requestToGemini_ok fromStr _ _
        (Traverse.forM_ok_iff.mp hcheck item hitem)
      exact ⟨_, by rw [Gemini.batchRequest, hwire]; rfl⟩
    obtain ⟨requests, hrequests⟩ := hex
    have hlen := (Traverse.mapM_ok_iff.mp hrequests).length_eq
    rw [hrequests]
    refine .inr ⟨hrefuses.mpr hcheck, ⟨_, _, List.mem_singleton.mpr rfl⟩, fun ran => ?_⟩
    constructor
    · rintro ⟨model, body, hcalls, rfl⟩
      injection hcalls with hcall
      injection hcall with hurl hbody
      rw [← hbody, itemsAt_batchBody, ← Gemini.batchUrl_inj hurl, List.map_const', List.map_const',
        hlen]
    · rintro rfl
      refine ⟨_, _, rfl, ?_⟩
      rw [itemsAt_batchBody, List.map_const', List.map_const', hlen]

/-! ### Files -/

theorem batchLine_model (brand : Brand) (item : BatchItem) :
    (OpenAiCompat.batchLine brand cx item).textAt ["body", "model"] =
      some item.request.model := by
  have hbody := requestToOpenai_model item.request false brand.maxTokensField_mem
  have hlast : ∀ (fields : List (String × Value)) (body : Value),
      body.textAt ["model"] = some item.request.model →
      (obj (fields ++ [("body", body)])).textAt ["body", "model"] = some item.request.model := by
    intro fields body h
    simpa [Value.textAt, Value.path_cons, Value.get_obj] using h
  unfold OpenAiCompat.batchLine
  split
  · exact hlast [("custom_id", _), ("method", _), ("url", _)] _ hbody
  · exact hlast [("custom_id", _), ("method", _), ("url", _)] _ hbody
  · exact hlast [("custom_id", _), ("method", _), ("url", _)] _ hbody
  · exact hlast [("custom_id", _)] _ hbody

theorem not_submits_file (fileUrl purpose : String) (lines : List Value) :
    ¬ Submits [.file fileUrl purpose lines] := by
  rintro ⟨url, body, h⟩
  cases List.mem_singleton.mp h

/-- A job is created for the file that was uploaded. -/
theorem submitted_calls (brand : Brand) (spec : BatchSpec) (up : Answers α) :
    Submits (OpenAiCompat.batchCreate brand cx spec up).calls → ∃ fileUrl purpose url fileId,
      (OpenAiCompat.batchCreate brand cx spec up).calls =
        [.file fileUrl purpose (spec.items.map (OpenAiCompat.batchLine brand cx)),
          .batch url (OpenAiCompat.jobBody brand cx spec.items fileId)] := by
  unfold OpenAiCompat.batchCreate
  split
  · exact fun h => absurd h (not_submits_refuse _)
  · split
    · exact fun h => absurd h (not_submits_refuse _)
    · dsimp only
      split
      · exact fun h => absurd h (not_submits_file _ _ _)
      · split
        · exact fun h => absurd h (not_submits_file _ _ _)
        · exact fun _ => ⟨_, _, _, _, rfl⟩

theorem textAt_jobBody {brand : Brand} (h : brand.batchFlavor = .mistralJobs)
    (items : List BatchItem) (fileId : String) :
    (OpenAiCompat.jobBody brand cx items fileId).textAt ["model"] =
      some (OpenAiCompat.jobModel items) := by
  unfold OpenAiCompat.jobBody
  rw [h]
  simp [Value.textAt, Value.path_cons, Value.get_obj, Value.asStr]

/-- The models that the lines of a file run on: one for the whole job, or their own. -/
theorem file_runs (brand : Brand) (spec : BatchSpec) (up : Answers α)
    (h : Submits (OpenAiCompat.batchCreate brand cx spec up).calls) (ran : List String) :
    FileRunsOn brand (OpenAiCompat.batchCreate brand cx spec up).calls ran ↔
      ran = if brand.batchFlavor = .mistralJobs then
          spec.items.map fun _ => OpenAiCompat.jobModel spec.items
        else models spec := by
  obtain ⟨fileUrl, purpose, url, fileId, hcalls⟩ := submitted_calls brand spec up h
  have hlines : (spec.items.map (OpenAiCompat.batchLine brand cx)).map
      (·.textAt ["body", "model"]) = (models spec).map some := by
    rw [List.map_map, models, List.map_map]
    exact List.map_congr_left fun item _ => batchLine_model brand item
  rw [hcalls]
  constructor
  · rintro ⟨_, _, lines, _, body, heq, hmodels⟩
    injection heq with hfile hrest
    injection hfile with _ _ hfileLines
    injection hrest with hjob
    injection hjob with _ hbody
    subst hfileLines hbody
    split at hmodels
    · rename_i hflavor
      obtain ⟨model, hmodel, rfl⟩ := hmodels
      rw [if_pos hflavor, ← Option.some.inj (hmodel.symm.trans (textAt_jobBody hflavor _ _)),
        List.map_map]
      rfl
    · rename_i hflavor
      rw [if_neg hflavor]
      exact (List.map_injective_iff.mpr (Option.some_injective _) (hlines.symm.trans hmodels)).symm
  · rintro rfl
    refine ⟨_, _, _, _, _, rfl, ?_⟩
    split
    · rename_i hflavor
      exact ⟨_, textAt_jobBody hflavor _ _, by rw [List.map_map]; rfl⟩
    · exact hlines

/-- An upstream that takes every file and every job. -/
def willing : Answers α := ⟨fun _ => .error .timeout, fun _ => .ok (obj [("id", string "f")])⟩

theorem submits_willing {brand : Brand} {spec : BatchSpec}
    (h : ¬ (brand.batchFlavor = .unsupported ∨ OpenaiProvider.Unheard brand cx spec)) :
    Submits (OpenAiCompat.batchCreate brand cx spec (willing : Answers α)).calls := by
  have hserves : brand.ensureBatch = .ok () := if_neg fun hf => h (.inl hf)
  have hheard : ¬ (spec.items.any (·.request.hasInputAudio) &&
      !OpenAiCompat.audioInputEnabled brand cx) = true := by
    rw [Bool.and_eq_true, List.any_eq_true, Bool.not_eq_true']
    exact fun hu => h (.inr hu)
  unfold OpenAiCompat.batchCreate
  rw [hserves]
  dsimp only
  rw [if_neg hheard]
  exact ⟨_, _, List.mem_cons_of_mem _ (List.mem_singleton.mpr rfl)⟩

/-- Rewriting the requests of a batch but not their models keeps what it names. -/
theorem models_map {f : ChatRequest → ChatRequest} (hf : ∀ req, (f req).model = req.model)
    (spec : BatchSpec) :
    models ⟨spec.items.map fun item => { item with request := f item.request }⟩ = models spec ∧
      OpenAiCompat.jobModel
        (spec.items.map fun item => { item with request := f item.request }) =
        OpenAiCompat.jobModel spec.items := by
  constructor
  · rw [models, List.map_map, models]
    exact List.map_congr_left fun item _ => hf item.request
  · unfold OpenAiCompat.jobModel
    rw [List.head?_map]
    cases spec.items.head? with
    | none => rfl
    | some item => exact hf item.request

theorem agree_map {f : ChatRequest → ChatRequest} (hf : ∀ req, (f req).model = req.model)
    (spec : BatchSpec) :
    Agree ⟨spec.items.map fun item => { item with request := f item.request }⟩ ↔ Agree spec := by
  rw [← agree_iff, ← agree_iff, (models_map hf spec).1]
  dsimp only
  rw [(models_map hf spec).2, List.map_map]
  rfl

/-- A file runs its lines on their own models exactly if it is never submitted, the lines carry
their models, or one model serves them all. -/
theorem compat_own_iff (brand : Brand) (spec : BatchSpec) :
    (∀ up : Answers α, Submits (OpenAiCompat.batchCreate brand cx spec up).calls →
      FileRunsOn brand (OpenAiCompat.batchCreate brand cx spec up).calls (models spec)) ↔
    (brand.batchFlavor = .unsupported ∨ OpenaiProvider.Unheard brand cx spec) ∨
      (brand.batchFlavor = .mistralJobs → Agree spec) := by
  constructor
  · intro h
    by_cases hrefused : brand.batchFlavor = .unsupported ∨ OpenaiProvider.Unheard brand cx spec
    · exact .inl hrefused
    · refine .inr fun hflavor => ?_
      have hsubmits : Submits
          (OpenAiCompat.batchCreate brand cx spec (willing : Answers α)).calls :=
        submits_willing hrefused
      have hruns := (file_runs brand spec willing hsubmits _).mp (h willing hsubmits)
      rw [if_pos hflavor] at hruns
      exact (agree_iff spec).mp hruns
  · rintro (hrefused | hagree) up hsubmits
    · have hcalls := ((OpenaiProvider.batchCreate_refused_iff brand spec up).mpr hrefused).1
      rw [hcalls] at hsubmits
      obtain ⟨url, body, hmem⟩ := hsubmits
      cases hmem
    · rw [file_runs brand spec up hsubmits]
      split
      · rename_i hflavor
        exact (agree_iff spec).mpr (hagree hflavor)
      · rfl

theorem normalizeReasoning_model (req : ChatRequest) :
    (Baidu.normalizeReasoning req).model = req.model := by
  unfold Baidu.normalizeReasoning
  split
  · rfl
  · rfl

/-- Baidu runs every line on its own model, where it takes the batch. -/
theorem baidu_runs (spec : BatchSpec) (up : Answers α)
    (h : Submits (OpenaiProvider.baidu.batchCreate fromStr cx spec up).calls) :
    FileRunsOn .baidu (OpenaiProvider.baidu.batchCreate fromStr cx spec up).calls
      (models spec) := by
  unfold OpenaiProvider.batchCreate Baidu.batchCreate at h ⊢
  dsimp only at h ⊢
  split at h
  · exact absurd h (not_submits_refuse _)
  · rename_i prepared hprepared
    rw [file_runs _ _ _ h, if_neg (by decide)]
    split at hprepared
    · cases hprepared
    · split at hprepared
      · cases hprepared
      · rw [← Except.ok.inj hprepared, (models_map normalizeReasoning_model spec).1]

/-- Every item runs on the model it names exactly if the batch is refused for what is in it, the
provider names a model an item, or one model serves all items. -/
theorem named_model_iff (p : JobProvider) (spec : BatchSpec) :
    (∀ up : Answers α, Submits (p.batchCreate fromStr cx spec up).calls →
      p.RunsOn cx (p.batchCreate fromStr cx spec up).calls (models spec)) ↔
    p.Refuses cx spec ∨ (p.JobWide → Agree spec) := by
  cases p with
  | anthropic => exact iff_of_true anthropic_runs (.inr False.elim)
  | other name =>
    exact iff_of_true (fun up h => absurd h (not_submits_refuse _)) (.inr False.elim)
  | gemini =>
    constructor
    · intro h
      rcases @gemini_runs α fromStr cx spec willing with ⟨hr, -⟩ | ⟨-, hs, hruns⟩
      · exact .inl hr
      · exact .inr fun _ => (agree_iff spec).mp ((hruns _).mp (h willing hs))
    · intro h up hsubmits
      rcases @gemini_runs α fromStr cx spec up with ⟨-, hs⟩ | ⟨hr, -, hruns⟩
      · exact absurd hsubmits hs
      · exact (hruns _).mpr ((agree_iff spec).mpr (h.resolve_left hr trivial))
  | openai p =>
    cases p with
    | llmleaf => exact iff_of_true (fun up _ => node_runs up) (.inr False.elim)
    | compat brand => exact compat_own_iff brand spec
    | moonshot brand =>
      have hmodel : ∀ req : ChatRequest,
          ({ req with tools := Moonshot.flavorTools req.tools } : ChatRequest).model = req.model :=
        fun _ => rfl
      have hiff := @compat_own_iff α cx brand (Moonshot.batchCreate spec)
      rw [Moonshot.batchCreate, (models_map hmodel spec).1, agree_map hmodel spec,
        OpenaiProvider.unheard_map brand spec (f := fun req =>
          { req with tools := Moonshot.flavorTools req.tools }) fun _ => rfl] at hiff
      exact hiff
    | baidu =>
      refine iff_of_true (@baidu_runs α fromStr cx spec) (.inr fun hwide => ?_)
      exact absurd (show Brand.baidu.batchFlavor = .mistralJobs from hwide) (by decide)

/-- **On which models the items of a batch run.** For every batch that the engine routes to one
provider: the job runs each item on the upstream model that the route of its own model names,
whatever the upstream answers, exactly if the provider refuses the batch for what is in it, it names
a model an item, or the routes of all items name one model. -/
theorem own_model_iff {topo : Topology} {spec routed : BatchSpec} {provider routing : String}
    (h : resolveBatch topo spec = .ok (provider, routing, routed)) (p : JobProvider) :
    (∀ up : Answers α, Submits (p.batchCreate fromStr cx routed up).calls →
      p.RunsOn cx (p.batchCreate fromStr cx routed up).calls
        (spec.items.map fun item => resolvedModel topo item.request.model)) ↔
    p.Refuses cx routed ∨ (p.JobWide → Agree routed) := by
  rw [← resolveBatch_models h]
  exact p.named_model_iff routed

/-- Two routes of one instance. -/
def twoRoutes : Topology :=
  (Engine.new
    { providers := [.plain "main" "gemini" none],
      routes := [⟨"fast", [⟨"main", some "gemini-flash"⟩]⟩,
        ⟨"deep", [⟨"main", some "gemini-pro"⟩]⟩] }
    (HashMap.collect [("main", ⟨"gemini", 0⟩)]) fun _ _ => (0, 0)).topology

/-- An item that asks a model something. -/
def question (id model : String) : BatchItem where
  customId := id
  request :=
    { model := model
      messages := [.ofText .user "hi"]
      maxTokens := none
      temperature := none
      topP := none
      stop := []
      stream := false
      tools := []
      toolChoice := none
      thinking := none
      extra := [] }

/-- A batch over both routes, as it comes and as it is routed. -/
def mixed : BatchSpec := ⟨[question "a" "fast", question "b" "deep"]⟩

@[inherit_doc mixed]
def mixedRouted : BatchSpec := ⟨[question "a" "gemini-flash", question "b" "gemini-pro"]⟩

theorem own_model_iff_mixed :
    resolveBatch twoRoutes mixed = .ok ("main", "fast", mixedRouted) ∧
      ((∀ up : Answers Unit,
        Submits (gemini.batchCreate (fun _ => none) ⟨"", none, none, []⟩ mixedRouted up).calls →
        gemini.RunsOn ⟨"", none, none, []⟩
          (gemini.batchCreate (fun _ => none) ⟨"", none, none, []⟩ mixedRouted up).calls
          (mixed.items.map fun item => resolvedModel twoRoutes item.request.model)) ↔
        gemini.Refuses ⟨"", none, none, []⟩ mixedRouted ∨ (gemini.JobWide → Agree mixedRouted)) :=
  have hroute : resolveBatch twoRoutes mixed = .ok ("main", "fast", mixedRouted) := by decide
  ⟨hroute, own_model_iff hroute gemini⟩

/-- Of a batch over two routes of one instance, the second item runs on the model of the first. -/
theorem second_item_on_first_model :
    resolveBatch twoRoutes mixed = .ok ("main", "fast", mixedRouted) ∧
      (mixed.items.map fun item => resolvedModel twoRoutes item.request.model) =
        ["gemini-flash", "gemini-pro"] ∧
      ∀ up : Answers Unit,
        Submits (gemini.batchCreate (fun _ => none) ⟨"", none, none, []⟩ mixedRouted up).calls ∧
        gemini.RunsOn ⟨"", none, none, []⟩
          (gemini.batchCreate (fun _ => none) ⟨"", none, none, []⟩ mixedRouted up).calls
          ["gemini-flash", "gemini-flash"] ∧
        ¬ gemini.RunsOn ⟨"", none, none, []⟩
          (gemini.batchCreate (fun _ => none) ⟨"", none, none, []⟩ mixedRouted up).calls
          ["gemini-flash", "gemini-pro"] := by
  refine ⟨by decide, by decide, fun up => ?_⟩
  rcases @gemini_runs Unit (fun _ => none) ⟨"", none, none, []⟩ mixedRouted up with
    ⟨⟨item, hitem, hrefused⟩, -⟩ | ⟨-, hsubmits, hruns⟩
  · have hall : ∀ item ∈ mixedRouted.items,
        Gemini.ensureAudioInputSupported item.request "gemini" = .ok () := by decide
    exact absurd (hall item hitem) hrefused
  · exact ⟨hsubmits, (hruns _).mpr (by decide), fun h => absurd ((hruns _).mp h) (by decide)⟩

end JobProvider

end Llmleaf
