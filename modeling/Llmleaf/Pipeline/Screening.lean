import Llmleaf.Batch
import Llmleaf.Pipeline

/-!
# Screening before every provider call

What a request makes happen outside the node is a log of screenings and provider calls. A call is
mediated if whatever it hands over, where the interceptor is in scope, was screened before and passed
or was rewritten into what is handed over; and nothing is handed over once a screening blocks.

- `Entry.log`: the log of a request that is screened and dispatched; `Entry.screened_of_agrees`: the
  providers are asked for nothing else.
- `Entry.batchLog`: the log of a batch; `batchCreate_of_agrees` likewise.
- **Result** (`Submission.mediated_iff`): every entry point mediates its calls, except that a batch
  is submitted unscreened.
-/

namespace Llmleaf

open Dispatch (World Pos Dispatched)

/-- What a request makes happen outside the node. -/
inductive Effect (ρ : Type) where
  | screen (key model : String) (payload : Value) (outcome : InterceptOutcome)
  /-- A provider call: each request it hands over, beside the one the consumer has sent. -/
  | call (contents : List (ρ × ρ))

/-- An element that is not in the first of two lists splits the second. -/
theorem append_split {α : Type} {l₁ l₂ before after : List α} {x : α} (hx : x ∉ l₁)
    (h : l₁ ++ l₂ = before ++ x :: after) : ∃ mid, before = l₁ ++ mid ∧ l₂ = mid ++ x :: after := by
  rcases List.append_eq_append_iff.mp h with ⟨mid, hbefore, hmid⟩ | ⟨mid, hl, htail⟩
  · exact ⟨mid, hbefore, hmid⟩
  · cases mid with
    | nil => exact ⟨[], by simpa using hl.symm, htail.symm⟩
    | cons y mid =>
      obtain ⟨rfl, -⟩ := List.cons.inj htail
      exact absurd (hl ▸ List.mem_append_right _ List.mem_cons_self) hx

section

variable {ρ : Type} [Addressed ρ]

/-- What is handed over for `sent` is `given`, as a screening in the log has it. -/
def Cleared (codec : Codec ρ) (key : String) (log : List (Effect ρ)) (sent given : ρ) : Prop :=
  ∃ v outcome, codec.toValue sent = some v ∧
    Effect.screen key (Addressed.model sent) v outcome ∈ log ∧
    ((outcome = .pass ∧ ∃ m, given = Addressed.withModel sent m) ∨
      ∃ w req, outcome = .rewrite w ∧ codec.fromValue w = .ok req ∧
        ∃ m, given = Addressed.withModel req m)

/-- No call bypasses the interceptor. -/
structure Mediated (ic : Interceptor) (codec : Codec ρ) (key : String) (log : List (Effect ρ)) :
    Prop where
  cleared : ∀ before contents after, log = before ++ .call contents :: after →
    ∀ c ∈ contents, ic.applies .request key (Addressed.model c.1) = true →
      Cleared codec key before c.1 c.2
  blocked : ∀ key model v reason, Effect.screen key model v (.block reason) ∈ log →
    ∀ contents, Effect.call contents ∉ log

/-! ## Requests that are dispatched -/

namespace Entry

variable (c : Entry) (codec : Codec ρ)

/-- The screening of a request. -/
def screening (req : ρ) : List (Effect ρ) :=
  match c.interceptor with
  | none => []
  | some ic =>
    if ic.applies .request c.key (Addressed.model req) then
      match codec.toValue req with
      | none => []
      | some v =>
        [.screen c.key (Addressed.model req) v
          (ic.screen .request c.key (Addressed.model req) v)]
    else []

section

variable {τ : Type} (ports : Ports ρ τ) (req : ρ)

/-- The calls of the dispatch, with what each hands over. -/
def handed : List (ℕ × Instance × ProviderCx × ρ) :=
  match screenRequest c.interceptor codec req c.key (Addressed.model req) with
  | .error _ => []
  | .ok req' =>
    (Dispatch.calls (c.dispatching (Addressed.model req)) (ports.env req') c.rateMaxWait
      (c.payload codec req') c.world).map fun call =>
        (call.1, call.2.1, call.2.2.1, Addressed.withModel req' call.2.2.2)

/-- The log of a request. -/
def log : List (Effect ρ) :=
  c.screening codec req ++ (c.handed codec ports req).map fun call => .call [(req, call.2.2.2)]

variable {c codec ports req}

/-- **The providers are asked for nothing but the calls of the log**: providers that answer these
alike make no difference. -/
theorem screened_of_agrees {β : Type} {tail : Dispatched τ → Pos → Ended β}
    {call : ℕ → Instance → ProviderCx → ρ → Except ModelError τ}
    (h : ∀ e ∈ c.handed codec ports req,
      call e.1 e.2.1 e.2.2.1 e.2.2.2 = ports.call e.1 e.2.1 e.2.2.1 e.2.2.2) :
    c.screened codec { ports with call := call } req tail = c.screened codec ports req tail := by
  unfold handed at h
  simp only [screened]
  cases hreq : screenRequest c.interceptor codec req c.key (Addressed.model req) with
  | error e => rfl
  | ok req' =>
    rw [hreq] at h
    let op := fun n provider cx upstream => call n provider cx (Addressed.withModel req' upstream)
    have hagree : ∀ s ∈ Dispatch.sites (c.dispatching (Addressed.model req)) (ports.env req')
        c.rateMaxWait (c.payload codec req') c.world,
        Dispatch.Agrees (c.dispatching (Addressed.model req)) (ports.env req') op s :=
      fun s hs n provider cx model hcall =>
        h _ (List.mem_map.mpr ⟨_, List.mem_filterMap.mpr ⟨s, hs, hcall⟩, rfl⟩)
    have hdispatch := Dispatch.dispatch_of_agrees c.rateMaxWait (c.payload codec req') c.world hagree
    have henv : ({ ports with call := call } : Ports ρ τ).env req' =
      { ports.env req' with op := op } := rfl
    simp only [through, henv, hdispatch]

/-- What a dispatch hands over is the screened request, for the model the provider knows. -/
theorem mem_handed {e : ℕ × Instance × ProviderCx × ρ} (h : e ∈ c.handed codec ports req) :
    ∃ req' m, screenRequest c.interceptor codec req c.key (Addressed.model req) = .ok req' ∧
      e.2.2.2 = Addressed.withModel req' m := by
  unfold handed at h
  split at h
  · exact absurd h List.not_mem_nil
  · rename_i req' hreq
    obtain ⟨call, _, rfl⟩ := List.mem_map.mp h
    exact ⟨req', _, hreq, rfl⟩

theorem call_not_mem_screening (contents : List (ρ × ρ)) :
    Effect.call contents ∉ c.screening codec req := by
  unfold screening
  intro hmem
  split at hmem
  · cases hmem
  · split at hmem
    · split at hmem
      · cases hmem
      · cases List.mem_singleton.mp hmem
    · cases hmem

/-- A call of the log comes after the screening. -/
theorem log_split {before after : List (Effect ρ)} {contents : List (ρ × ρ)}
    (h : c.log codec ports req = before ++ .call contents :: after) :
    (∀ s ∈ c.screening codec req, s ∈ before) ∧
      ∃ e ∈ c.handed codec ports req, contents = [(req, e.2.2.2)] := by
  obtain ⟨mid, rfl, hmid⟩ := append_split (call_not_mem_screening contents) h
  refine ⟨fun s hs => List.mem_append_left _ hs, ?_⟩
  have hcall : Effect.call contents ∈
      (c.handed codec ports req).map fun call => Effect.call [(req, call.2.2.2)] := by
    rw [hmid]
    exact List.mem_append_right _ List.mem_cons_self
  obtain ⟨e, he, heq⟩ := List.mem_map.mp hcall
  exact ⟨e, he, (Effect.call.inj heq).symm⟩

/-- What is handed over has been cleared by the screening, if there was one. -/
theorem handed_cleared {ic : Interceptor} (hic : c.interceptor = some ic)
    (happlies : ic.applies .request c.key (Addressed.model req) = true)
    (hser : (codec.toValue req).isSome) {e : ℕ × Instance × ProviderCx × ρ}
    (he : e ∈ c.handed codec ports req) :
    Cleared codec c.key (c.screening codec req) req e.2.2.2 := by
  obtain ⟨v, hv⟩ := Option.isSome_iff_exists.mp hser
  obtain ⟨req', m, hreq, hgiven⟩ := mem_handed he
  refine ⟨v, ic.screen .request c.key (Addressed.model req) v, hv, ?_, ?_⟩
  · simp only [screening, hic, happlies, if_true, hv, List.mem_singleton]
  · rw [hgiven]
    simp only [screenRequest, hic, happlies, if_true, hv] at hreq
    split at hreq
    · rename_i hpass
      cases hreq
      exact .inl ⟨hpass, m, rfl⟩
    · cases hreq
    · rename_i w hrewrite
      split at hreq
      · rename_i req'' hw
        cases hreq
        exact .inr ⟨w, req', hrewrite, hw, m, rfl⟩
      · cases hreq

/-- Nothing is handed over once the screening blocks. -/
theorem handed_blocked {key model : String} {v : Value} {reason : String}
    (h : Effect.screen key model v (.block reason) ∈ c.screening codec req) :
    c.handed codec ports req = [] := by
  unfold screening at h
  split at h
  · cases h
  · rename_i ic hic
    split at h
    · rename_i happlies
      split at h
      · cases h
      · rename_i v' hv
        obtain ⟨-, -, -, hblock⟩ := Effect.screen.inj (List.mem_singleton.mp h)
        simp only [handed, screenRequest, hic, happlies, if_true, hv, ← hblock]
    · cases h

/-- **A request that is screened and dispatched bypasses nothing.** -/
theorem log_mediated {ic : Interceptor} (hic : c.interceptor = some ic)
    (hser : (codec.toValue req).isSome) : Mediated ic codec c.key (c.log codec ports req) where
  cleared before contents after h pair hpair happlies := by
    obtain ⟨hbefore, e, he, rfl⟩ := log_split h
    obtain rfl := List.mem_singleton.mp hpair
    obtain ⟨v, outcome, hv, hscreen, houtcome⟩ := handed_cleared hic happlies hser he
    exact ⟨v, outcome, hv, hbefore _ hscreen, houtcome⟩
  blocked key model v reason h contents hcall := by
    have hscreen : Effect.screen key model v (.block reason) ∈ c.screening codec req := by
      rcases List.mem_append.mp h with h | h
      · exact h
      · obtain ⟨_, _, hstep⟩ := List.mem_map.mp h
        cases hstep
    rw [log, handed_blocked hscreen, List.map_nil, List.append_nil] at hcall
    exact call_not_mem_screening contents hcall

end

end Entry

end

/-! ## Batches -/

/-- The provider call of a batch, if it gets that far: the implementation, its name, the model the
batch is routed by and the submission. -/
def Entry.batchCall (c : Entry) (spec : BatchSpec) : Option (Instance × String × String × BatchSpec) :=
  if spec.items = [] then none
  else
    match resolveBatch c.topo spec with
    | .error _ => none
    | .ok (provider, routingModel, spec) =>
      (c.topo.registry.lookup provider).map fun inst => (inst, provider, routingModel, spec)

/-- The log of a batch: nothing is screened. -/
def Entry.batchLog (c : Entry) (spec : BatchSpec) : List (Effect ChatRequest) :=
  match c.batchCall spec with
  | none => []
  | some (_, _, _, given) =>
    [.call ((spec.items.map BatchItem.request).zip (given.items.map BatchItem.request))]

/-- **A batch asks the providers for nothing but the call of its log.** -/
theorem batchCreate_of_agrees (c : Entry) (signer : Option BatchId.BatchIdSigner)
    (up : BatchUpstream) (spec : BatchSpec) (payload : BatchSpec → Option Value)
    {create : Instance → ProviderCx → BatchSpec → Except ModelError BatchHandle}
    (h : ∀ inst provider model given, c.batchCall spec = some (inst, provider, model, given) →
      ∀ cx, create inst cx given = up.create inst cx given) :
    batchCreate c.topo signer { up with create := create } spec c.key c.requestId payload =
      batchCreate c.topo signer up spec c.key c.requestId payload := by
  unfold Entry.batchCall at h
  unfold batchCreate
  split
  · rfl
  · rename_i hitems
    rw [if_neg hitems] at h
    split
    · rfl
    · rename_i provider model given hresolve
      rw [hresolve] at h
      split
      · rfl
      · rename_i inst hreg
        simp only [hreg, Option.map_some] at h
        simp only [h _ _ _ _ rfl]

theorem resolveItems_length {topo : Topology} {chosen chosen' : Option String}
    {items items' : List BatchItem} (h : resolveItems topo chosen items = .ok (chosen', items')) :
    items'.length = items.length := by
  induction items generalizing chosen chosen' items' with
  | nil =>
    cases h
    rfl
  | cons item items ih =>
    rw [resolveItems] at h
    split at h
    · cases h
    · split at h
      · cases h
      · rename_i hrest
        cases h
        rw [List.length_cons, List.length_cons, ih hrest]

/-- A call hands over every item of the batch. -/
theorem Entry.batchCall_length {c : Entry} {spec given : BatchSpec} {inst : Instance}
    {provider model : String} (h : c.batchCall spec = some (inst, provider, model, given)) :
    given.items.length = spec.items.length := by
  unfold batchCall resolveBatch at h
  split at h
  · cases h
  · split at h
    · cases h
    · rename_i hresolve
      split at hresolve
      · cases hresolve
      · rename_i hitems
        cases hresolve
        obtain ⟨_, _, heq⟩ := Option.map_eq_some_iff.mp h
        cases heq
        exact resolveItems_length hitems

/-- **A batch is mediated exactly if it is not submitted, or no item is in scope.** -/
theorem Entry.batchLog_mediated_iff (c : Entry) (ic : Interceptor) (codec : Codec ChatRequest)
    (spec : BatchSpec) : Mediated ic codec c.key (c.batchLog spec) ↔
      c.batchCall spec = none ∨
        ∀ item ∈ spec.items, ic.applies .request c.key item.request.model = false := by
  unfold batchLog
  cases hcall : c.batchCall spec with
  | none =>
    refine iff_of_true ⟨fun before contents after h => ?_, fun _ _ _ _ h => ?_⟩ (.inl rfl)
    · exact absurd h.symm (by simp)
    · exact absurd h List.not_mem_nil
  | some call =>
    obtain ⟨inst, provider, model, given⟩ := call
    simp only [reduceCtorEq, false_or]
    constructor
    · intro h item hitem
      refine Bool.eq_false_of_not_eq_true fun happlies => ?_
      obtain ⟨i, hi, rfl⟩ := List.mem_iff_getElem.mp hitem
      have hi' : i < given.items.length := by rwa [batchCall_length hcall]
      have hpair : (spec.items[i].request, given.items[i].request) ∈
          (spec.items.map BatchItem.request).zip (given.items.map BatchItem.request) := by
        refine List.mem_iff_getElem.mpr ⟨i, by simp [hi, hi'], by simp⟩
      obtain ⟨_, _, _, hscreen, _⟩ := h.cleared [] _ [] rfl _ hpair happlies
      exact absurd hscreen List.not_mem_nil
    · intro h
      refine ⟨fun before contents after heq pair hpair happlies => ?_, fun _ _ _ _ h => ?_⟩
      · cases before with
        | nil =>
          obtain ⟨hcontents, -⟩ := List.cons.inj heq
          rw [← Effect.call.inj hcontents] at hpair
          obtain ⟨item, hitem, hrequest⟩ := List.mem_map.mp (List.of_mem_zip hpair).1
          rw [← hrequest] at happlies
          cases happlies.symm.trans (h item hitem)
        | cons s before =>
          have hnil := (List.cons.inj heq).2
          exact absurd hnil (by simp)
      · cases List.mem_singleton.mp h

/-! ## Every entry point -/

/-- A consumer's content on its way to a provider. -/
inductive Submission where
  | run (codec : Codec ChatRequest)
      (ports : Ports ChatRequest (List (Except ModelError StreamChunk))) (req : ChatRequest)
  | embed (codec : Codec EmbeddingRequest) (ports : Ports EmbeddingRequest EmbeddingResponse)
      (req : EmbeddingRequest)
  | rerank (codec : Codec RerankRequest) (ports : Ports RerankRequest RerankResponse)
      (req : RerankRequest)
  | decisions (codec : Codec DecisionsRequest) (ports : Ports DecisionsRequest DecisionsResponse)
      (req : DecisionsRequest)
  | speech (codec : Codec SpeechRequest)
      (ports : Ports SpeechRequest (List (Except ModelError AudioChunk))) (req : SpeechRequest)
  | transcribe (codec : Codec TranscriptionRequest)
      (ports : Ports TranscriptionRequest TranscriptionResponse) (req : TranscriptionRequest)
  | batchCreate (codec : Codec ChatRequest) (spec : BatchSpec)

namespace Submission

/-- The request has a JSON form. -/
def Serializes : Submission → Prop
  | run codec _ req => (codec.toValue req).isSome
  | embed codec _ req => (codec.toValue req).isSome
  | rerank codec _ req => (codec.toValue req).isSome
  | decisions codec _ req => (codec.toValue req).isSome
  | speech codec _ req => (codec.toValue req).isSome
  | transcribe codec _ req => (codec.toValue req).isSome
  | batchCreate codec spec => ∀ item ∈ spec.items, (codec.toValue item.request).isSome

/-- No call of the submission bypasses the interceptor. -/
def IsMediated (c : Entry) (ic : Interceptor) : Submission → Prop
  | run codec ports req => Mediated ic codec c.key (c.log codec ports req)
  | embed codec ports req => Mediated ic codec c.key (c.log codec ports req)
  | rerank codec ports req => Mediated ic codec c.key (c.log codec ports req)
  | decisions codec ports req => Mediated ic codec c.key (c.log codec ports req)
  | speech codec ports req => Mediated ic codec c.key (c.log codec ports req)
  | transcribe codec ports req => Mediated ic codec c.key (c.log codec ports req)
  | batchCreate codec spec => Mediated ic codec c.key (c.batchLog spec)

/-- The submission is no batch that reaches a provider with an item in scope. -/
def LeavesNoBatch (c : Entry) (ic : Interceptor) : Submission → Prop
  | batchCreate _ spec =>
    c.batchCall spec = none ∨
      ∀ item ∈ spec.items, ic.applies .request c.key item.request.model = false
  | _ => True

/-- **No call bypasses the interceptor, exactly if the submission is no batch that reaches a provider
with an item in scope.** -/
theorem mediated_iff (c : Entry) {ic : Interceptor} (hic : c.interceptor = some ic) (x : Submission)
    (hser : x.Serializes) : x.IsMediated c ic ↔ x.LeavesNoBatch c ic := by
  cases x with
  | batchCreate codec spec => exact c.batchLog_mediated_iff ic codec spec
  | run | embed | rerank | decisions | speech | transcribe =>
    exact iff_of_true (Entry.log_mediated hic hser) trivial

/-! ### A batch against a deny policy -/

/-- A node of one provider whose operator screens every request. -/
def screeningEntry (outcome : InterceptOutcome) : Entry where
  interceptor := some ⟨fun phase _ _ => phase = .request, fun _ _ _ _ => outcome⟩
  includePayloads := false
  rateMaxWait := 0
  cooldownSecs := 30
  pricing := ⟨∅⟩
  topo := (Engine.new ⟨[.plain "p" "openai" none], [⟨"m", [⟨"p", none⟩]⟩]⟩
    (HashMap.collect [("p", ⟨"openai", 0⟩)]) fun _ _ => (0, 0)).topology
  world := ⟨.new, []⟩
  key := "k"
  requestId := "r"
  now := 0

/-- An embedding that is passed on. -/
def passedEmbedding : Submission :=
  .embed ⟨fun req => some req.toValue, fun _ => .error "not rewritten"⟩
    { clock := fun _ => 0
      secret := fun _ => none
      call := fun _ _ _ req => .ok ⟨req.model, [], .zero⟩
      meanwhile := fun _ w => w
      debitClock := fun _ => 0 }
    ⟨"m", ["text"], none, none, []⟩

theorem mediated_iff_passed : passedEmbedding.IsMediated (screeningEntry .pass)
    ⟨fun phase _ _ => phase = .request, fun _ _ _ _ => .pass⟩ :=
  (mediated_iff (screeningEntry .pass) rfl passedEmbedding rfl).mpr trivial

/-- A batch of one request. -/
def oneItem : BatchSpec :=
  ⟨[⟨"item", ⟨"m", [.ofText .user "secret"], none, none, none, [], false, [], none, none, []⟩⟩]⟩

/-- The policy blocks everything; the batch is submitted. -/
theorem batch_bypasses_policy :
    (screeningEntry (.block "denied")).batchLog oneItem =
        [.call (oneItem.items.map fun item => (item.request, item.request))] ∧
      ¬ ∃ codec, (batchCreate codec oneItem).IsMediated (screeningEntry (.block "denied"))
        ⟨fun phase _ _ => phase = .request, fun _ _ _ _ => .block "denied"⟩ := by
  have hlog : (screeningEntry (.block "denied")).batchLog oneItem =
      [.call (oneItem.items.map fun item => (item.request, item.request))] := rfl
  refine ⟨hlog, fun ⟨codec, h⟩ => ?_⟩
  obtain ⟨_, _, _, hscreen, _⟩ := h.cleared [] _ [] hlog _ List.mem_cons_self rfl
  exact absurd hscreen List.not_mem_nil

end Submission

end Llmleaf
