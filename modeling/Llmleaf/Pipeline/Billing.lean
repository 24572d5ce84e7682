import Llmleaf.Batch
import Llmleaf.Pipeline.Accounting

/-!
# Which model is billed

A usage report goes out with a cost. What is due for it is the cost of the dataset for the model that
served, or the cost its provider reports if the dataset has none (`Pricing.due`); then the same work
costs the same through every entry point.

The entry points have three rules of their own. Live responses are priced for the model the consumer
asked for, whatever their provider reports; decisions keep a reported cost; the results of a batch
are priced for the model of the response.

- `Billing`: a report, with the model that was asked for, the model that served it and the report as
  it goes out; `Work.billings`: those of a request.
- **Result** (`Work.due_iff`): when they are what is due.
-/

namespace Llmleaf

open Dispatch (World Pos Dispatched)

/-! ## What is due -/

namespace Pricing

variable (pricing : Pricing)

/-- The report with the cost that is due for it: that of the model that served, or else the one that
is reported. -/
def due (served : String) (u : Usage) : Usage :=
  { u with costUsd := (pricing.costUsd served u).or u.costUsd }

/-- A report that is priced for `model`, when `served` served: both have the same cost, or neither has
rates and none is reported, or only `model` has rates and their cost is reported. -/
def PricesFor (model served : String) (u : Usage) : Prop :=
  match pricing.rate served, pricing.rate model with
  | some r, some r' => r'.cost u = r.cost u
  | some _, none => False
  | none, some r' => u.costUsd = some (r'.cost u)
  | none, none => u.costUsd = none

/-- **When pricing a report for `model` is pricing it for the model that served.** -/
theorem price_eq_due_iff (model served : String) (u : Usage) :
    pricing.price model u = pricing.due served u ↔ pricing.PricesFor model served u := by
  have hcost : pricing.price model u = pricing.due served u ↔
      pricing.costUsd model u = (pricing.costUsd served u).or u.costUsd :=
    ⟨fun h => congrArg Usage.costUsd h, fun h => by rw [price, due, h]⟩
  rw [hcost, costUsd_eq, costUsd_eq, PricesFor]
  cases pricing.rate served <;> cases pricing.rate model <;> simp [eq_comm]

/-- A report under the rule of decisions: a reported cost is that of the model that served, if there is
one; without it the report is priced for the logical model. -/
def KeepsFor (model served : String) (u : Usage) : Prop :=
  match u.costUsd with
  | none => pricing.PricesFor model served u
  | some cost => ∀ r, pricing.rate served = some r → r.cost u = cost

theorem keepReported_eq_due_iff (model served : String) (u : Usage) :
    pricing.keepReported model u = pricing.due served u ↔ pricing.KeepsFor model served u := by
  unfold keepReported KeepsFor
  cases hcost : u.costUsd with
  | none => exact pricing.price_eq_due_iff model served u
  | some cost =>
    have hdue : u = pricing.due served u ↔ some cost = (pricing.costUsd served u).or (some cost) := by
      constructor
      · intro h
        have := congrArg Usage.costUsd h
        rwa [due, hcost] at this
      · intro h
        rw [due, hcost, ← h, ← hcost]
    simp only [Option.isNone_some, Bool.false_eq_true, if_false]
    rw [hdue, costUsd_eq]
    cases pricing.rate served <;> simp [eq_comm]

end Pricing

/-- A usage report, and how it goes out. -/
structure Billing where
  /-- The model the work was asked for. -/
  asked : String
  /-- The model that served. -/
  served : String
  reported : Usage
  attached : Usage
  deriving DecidableEq

/-- The report goes out with the cost that is due for it. -/
def Billing.IsDue (pricing : Pricing) (b : Billing) : Prop :=
  b.attached = pricing.due b.served b.reported

instance (pricing : Pricing) (b : Billing) : Decidable (b.IsDue pricing) :=
  inferInstanceAs (Decidable (_ = _))

/-- Two works of the same model with the same report cost the same. -/
theorem Billing.IsDue.alike {pricing : Pricing} {b b' : Billing} (h : b.IsDue pricing)
    (h' : b'.IsDue pricing) (hserved : b.served = b'.served) (hreported : b.reported = b'.reported) :
    b.attached = b'.attached := by
  rw [h, h', hserved, hreported]

/-! ## The reports of an entry point -/

section

variable {α : Type} (reports : Reports α) (pricing : Pricing) (meanwhile : ℕ → World → World)
  (debitClock : ℕ → Instant) (d : Dispatched (List (Except ModelError α)))

/-- **What a stream accounts for**, whether it ends or not: its first reports, priced for its logical
model. -/
theorem drain_prices (finish : Option FinishReason) (items : List (Except ModelError α)) (p : Pos) :
    ∃ us, us <+: reportsOf reports items ∧
      (drain reports pricing meanwhile debitClock d finish items p).events.filterMap Event.accounts =
        us.map (pricing.price d.logicalModel) := by
  induction items generalizing finish p with
  | nil => exact ⟨[], List.nil_prefix, rfl⟩
  | cons item items ih =>
    cases item with
    | error e => exact ⟨[], List.nil_prefix, rfl⟩
    | ok chunk =>
      rcases hr : reports.report chunk with ⟨report, reason⟩
      cases report with
      | none =>
        rw [drain, reportsOf, List.filterMap_cons]
        cases reason <;> simp only [hr] <;> exact ih _ _
      | some u =>
        rw [drain, reportsOf, List.filterMap_cons]
        simp only [hr]
        split
        · exact ⟨[], List.nil_prefix, rfl⟩
        · obtain ⟨us, hus, hevents⟩ := ih finish _
          exact ⟨u :: us, (List.prefix_cons_inj u).mpr hus, congrArg _ hevents⟩

end

/-- What a response accounts for: its report, under its rule, unless the debit unwinds. -/
theorem finishBatch_prices {τ : Type} [Reporting τ] (rule : String → Usage → Usage)
    (meanwhile : ℕ → World → World) (debitClock : ℕ → Instant) (d : Dispatched τ) (p : Pos) :
    ∃ us, us <+: [Reporting.usage d.value] ∧
      (finishBatch rule meanwhile debitClock d p).events.filterMap Event.accounts =
        us.map (rule d.logicalModel) := by
  unfold finishBatch
  dsimp only
  split
  · exact ⟨[], List.nil_prefix, rfl⟩
  · exact ⟨_, List.prefix_rfl, rfl⟩

/-- The pairs of a list with the images of its first elements. -/
theorem mem_zip_map {α β : Type} {f : α → β} {us rs : List α} (h : us <+: rs) {e : α × β}
    (he : e ∈ rs.zip (us.map f)) : e.2 = f e.1 := by
  obtain ⟨rest, rfl⟩ := h
  induction us with
  | nil => simp at he
  | cons u us ih =>
    rw [List.map_cons, List.cons_append, List.zip_cons_cons] at he
    rcases List.mem_cons.mp he with rfl | he
    · rfl
    · exact ih he

namespace Entry

variable (c : Entry)

section

variable {ρ τ β : Type} [Addressed ρ] (codec : Codec ρ) (ports : Ports ρ τ) (req : ρ)
  (tail : Dispatched τ → Pos → Ended β) (reported : τ → List Usage)

/-- The reports of a request that is screened and dispatched, each with how it goes out. -/
def billings : List Billing :=
  match screenRequest c.interceptor codec req c.key (Addressed.model req) with
  | .error _ => []
  | .ok req' =>
    let f := Dispatch.dispatch (c.dispatching (Addressed.model req)) (ports.env req') c.rateMaxWait
      (c.payload codec req') c.world
    match f.outcome with
    | .ok d =>
      ((reported d.value).zip ((tail d f.acc.pos).events.filterMap Event.accounts)).map fun e =>
        ⟨d.logicalModel, d.upstreamModel, e.1, e.2⟩
    | _ => []

/-- **A report goes out under the rule of its entry point**, and the model that served it is the one a
provider was called with when it answered. -/
theorem mem_billings {b : Billing} (hb : b ∈ c.billings codec ports req tail reported)
    {rule : String → Usage → Usage}
    (htail : ∀ d p, ∃ us, us <+: reported d.value ∧
      (tail d p).events.filterMap Event.accounts = us.map (rule d.logicalModel)) :
    b.attached = rule b.asked b.reported ∧ b.asked = Addressed.model req ∧
      ∃ req' n inst cx value,
        screenRequest c.interceptor codec req c.key (Addressed.model req) = .ok req' ∧
        ports.call n inst cx (Addressed.withModel req' b.served) = .ok value ∧
        b.reported ∈ reported value := by
  unfold billings at hb
  split at hb
  · exact absurd hb List.not_mem_nil
  · rename_i req' hreq
    dsimp only at hb
    split at hb
    · rename_i d hd
      obtain ⟨e, he, rfl⟩ := List.mem_map.mp hb
      obtain ⟨us, hus, hevents⟩ := htail d _
      have hserves := Dispatch.dispatch_serves _ _ hd
      obtain ⟨s, _, _, n, inst, cx, _, hanswer⟩ := hserves.answered
      rw [hevents] at he
      exact ⟨mem_zip_map hus he, hserves.logicalModel, req', n, inst, cx, d.value, hreq, hanswer,
        (List.of_mem_zip he).1⟩
    · exact absurd hb List.not_mem_nil

end

/-- The reports of one result of a batch. -/
def resultBillings (batchId : String) (item : Except ModelError BatchResult) : List Billing :=
  match item with
  | .error _ => []
  | .ok result =>
    match result.outcome with
    | .succeeded resp =>
      ((instrumentResult c.pricing.price batchId c.key item).2.filterMap Event.accounts).map fun u =>
        ⟨resp.model, resp.model, resp.usage, u⟩
    | _ => []

/-- The reports of the results of a batch. -/
def batchBillings (signer : Option BatchId.BatchIdSigner) (up : BatchUpstream) (batchId : String) :
    List Billing :=
  match batchAccess c.topo signer batchId c.key with
  | .error _ => []
  | .ok (inst, decoded) =>
    match up.results inst (c.topo.buildCx up.secret decoded.provider c.requestId) decoded.upstream with
    | .error _ => []
    | .ok results => results.flatMap (c.resultBillings batchId)

variable {c}

theorem mem_resultBillings {batchId : String} {item : Except ModelError BatchResult} {b : Billing}
    (h : b ∈ c.resultBillings batchId item) : b.attached = c.pricing.price b.served b.reported := by
  unfold resultBillings at h
  split at h
  · exact absurd h List.not_mem_nil
  · rename_i result
    split at h
    · rename_i resp hresp
      simp only [instrumentResult, hresp] at h
      rw [List.mem_singleton.mp h]
    · exact absurd h List.not_mem_nil

theorem mem_batchBillings {signer : Option BatchId.BatchIdSigner} {up : BatchUpstream}
    {batchId : String} {b : Billing} (h : b ∈ c.batchBillings signer up batchId) :
    b.attached = c.pricing.price b.served b.reported := by
  unfold batchBillings at h
  split at h
  · exact absurd h List.not_mem_nil
  · split at h
    · exact absurd h List.not_mem_nil
    · obtain ⟨item, _, hb⟩ := List.mem_flatMap.mp h
      exact mem_resultBillings hb

/-- The reports of the results are those of the events the results emit. -/
theorem batchBillings_attached {signer : Option BatchId.BatchIdSigner} {up : BatchUpstream}
    {batchId : String} {results : List (Except ModelError BatchResult × List Event)}
    (h : batchResults c.topo signer { up with price := c.pricing.price } batchId c.key c.requestId =
      .ok results) :
    (c.batchBillings signer up batchId).map Billing.attached =
      (results.flatMap Prod.snd).filterMap Event.accounts := by
  unfold batchResults at h
  unfold batchBillings
  cases haccess : batchAccess c.topo signer batchId c.key with
  | error e =>
    rw [haccess] at h
    cases h
  | ok access =>
    obtain ⟨inst, decoded⟩ := access
    rw [haccess] at h
    dsimp only at h ⊢
    cases hraw : up.results inst (c.topo.buildCx up.secret decoded.provider c.requestId)
        decoded.upstream with
    | error e =>
      rw [hraw] at h
      cases h
    | ok raw =>
      rw [hraw] at h
      cases h
      rw [List.map_flatMap, List.flatMap_map, List.filterMap_flatMap]
      congr 1
      funext item
      unfold resultBillings instrumentResult
      cases item with
      | error e => rfl
      | ok result => cases hout : result.outcome <;> simp only [hout] <;> rfl

end Entry

/-! ## Every entry point that accounts for usage -/

/-- A request that accounts for usage, with what its call does not control. -/
inductive Work where
  | run (codec : Codec ChatRequest)
      (ports : Ports ChatRequest (List (Except ModelError StreamChunk))) (req : ChatRequest)
  | speech (codec : Codec SpeechRequest)
      (ports : Ports SpeechRequest (List (Except ModelError AudioChunk))) (req : SpeechRequest)
  | embed (codec : Codec EmbeddingRequest) (ports : Ports EmbeddingRequest EmbeddingResponse)
      (req : EmbeddingRequest)
  | rerank (codec : Codec RerankRequest) (ports : Ports RerankRequest RerankResponse)
      (req : RerankRequest)
  | decisions (codec : Codec DecisionsRequest) (ports : Ports DecisionsRequest DecisionsResponse)
      (req : DecisionsRequest)
  | transcribe (codec : Codec TranscriptionRequest)
      (ports : Ports TranscriptionRequest TranscriptionResponse) (req : TranscriptionRequest)
  | batchResults (signer : Option BatchId.BatchIdSigner) (up : BatchUpstream) (batchId : String)

namespace Work

section

variable (c : Entry)

/-- The reports of the work, each with how it goes out. -/
def billings : Work → List Billing
  | run codec ports req =>
    c.billings codec ports req (instrument c.pricing ports.meanwhile ports.debitClock)
      (reportsOf chatReports)
  | speech codec ports req =>
    c.billings codec ports req (instrumentAudio c.pricing ports.meanwhile ports.debitClock)
      (reportsOf audioReports)
  | embed codec ports req =>
    c.billings codec ports req (finishBatch c.pricing.price ports.meanwhile ports.debitClock)
      fun value => [Reporting.usage value]
  | rerank codec ports req =>
    c.billings codec ports req (finishBatch c.pricing.price ports.meanwhile ports.debitClock)
      fun value => [Reporting.usage value]
  | decisions codec ports req =>
    c.billings codec ports req (finishBatch c.pricing.keepReported ports.meanwhile ports.debitClock)
      fun value => [Reporting.usage value]
  | transcribe codec ports req =>
    c.billings codec ports req (finishBatch c.pricing.price ports.meanwhile ports.debitClock)
      fun value => [Reporting.usage value]
  | batchResults signer up batchId => c.batchBillings signer up batchId

/-- The report is one for which the rule of the entry point gives what is due. -/
def Suits (b : Billing) : Work → Prop
  | run .. | speech .. | embed .. | rerank .. | transcribe .. =>
    c.pricing.PricesFor b.asked b.served b.reported
  | decisions .. => c.pricing.KeepsFor b.asked b.served b.reported
  | batchResults .. => c.pricing.PricesFor b.served b.served b.reported

end

/-- **Every report goes out with the cost that is due for it exactly if it suits the rule of its entry
point.** -/
theorem due_iff (c : Entry) (x : Work) :
    (∀ b ∈ x.billings c, b.IsDue c.pricing) ↔ ∀ b ∈ x.billings c, x.Suits c b := by
  refine forall₂_congr fun b hb => ?_
  unfold Billing.IsDue
  unfold billings at hb
  cases x with
  | run | speech =>
    obtain ⟨hattached, -⟩ := c.mem_billings _ _ _ _ _ hb
      fun d p => drain_prices _ _ _ _ d none d.value p
    rw [hattached]
    exact c.pricing.price_eq_due_iff _ _ _
  | embed | rerank | transcribe =>
    obtain ⟨hattached, -⟩ := c.mem_billings _ _ _ _ _ hb (finishBatch_prices _ _ _)
    rw [hattached]
    exact c.pricing.price_eq_due_iff _ _ _
  | decisions =>
    obtain ⟨hattached, -⟩ := c.mem_billings _ _ _ _ _ hb (finishBatch_prices _ _ _)
    rw [hattached]
    exact c.pricing.keepReported_eq_due_iff _ _ _
  | batchResults =>
    rw [Entry.mem_batchBillings hb]
    exact c.pricing.price_eq_due_iff _ _ _

/-! ### A route that renames its model -/

/-- A node on which `smart` is served by `gpt-4o`, the only model of its dataset. -/
def renamingEntry : Entry where
  interceptor := none
  includePayloads := false
  rateMaxWait := 0
  cooldownSecs := 30
  pricing := ⟨HashMap.collect [("gpt-4o", ⟨some (5 / 2), none, some 10⟩)]⟩
  topo := (Engine.new ⟨[.plain "p" "openai" none], [⟨"smart", [⟨"p", some "gpt-4o"⟩]⟩]⟩
    (HashMap.collect [("p", ⟨"openai", 0⟩)]) fun _ _ => (0, 0)).topology
  world := ⟨.new, []⟩
  key := "k"
  requestId := "r"
  now := 0

/-- A chat of one report for `smart`. -/
def smartChat : Work :=
  .run ⟨fun _ => none, fun _ => .error "no request"⟩
    { clock := fun _ => 0
      secret := fun _ => none
      call := fun _ _ _ req => .ok
        [.ok (.start "id" req.model), .ok (.usage (.ofTokens 1000 100)), .ok (.finish 0 .stop)]
      meanwhile := fun _ w => w
      debitClock := fun _ => 0 }
    ⟨"smart", [.ofText .user "hello"], none, none, none, [], true, [], none, none, []⟩

/-- It goes out without a cost, although the dataset has one for the model that served it. -/
theorem renamed_model_unpriced :
    (smartChat.billings renamingEntry).map (fun b => (b.served, b.attached.costUsd)) =
        [("gpt-4o", none)] ∧
      ¬ ∀ b ∈ smartChat.billings renamingEntry, b.IsDue renamingEntry.pricing := by
  decide +kernel

end Work

end Llmleaf
