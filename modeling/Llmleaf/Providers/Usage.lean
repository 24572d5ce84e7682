import Llmleaf.Chat
import Llmleaf.Pricing
import Mathlib.Tactic.LinearCombination
import Mathlib.Tactic.NormNum
import Mathlib.Tactic.Ring

/-!
# Usage reports of the upstreams

Each upstream reports tokens in a JSON object of its own. Anthropic's `input_tokens` are those that
were not cached, and its stream reports in parts, each updating the counts it has. The prompt counts
of OpenAI and Gemini include the cached tokens, and each of their reports stands for itself.

The mappers relay the counts; one pricing formula, with cached tokens as a part of the prompt, is
applied to all of them.

- `updateAnthropicUsage`, `openaiUsage`, `responsesUsage`, `geminiUsage`: the mappers.
- `TokenClasses`, `Upstream.classes`: what a report says by its upstream's own convention, and
  `ModelPricing.exactCost`: what that costs.
- **Result** (`Upstream.cost_exact_iff`): when the formula gives this cost.
-/

namespace Llmleaf

/-- A counter of a report. -/
def Value.count (v : Value) (key : String) : Option ℕ := (v.get key).bind Value.asU64

/-! ## The mappers -/

/-- Take in a partial report of Anthropic. -/
def updateAnthropicUsage (out : Usage) (usage : Value) : Usage :=
  let out :=
    match usage.count "input_tokens" with
    | some tokens => { out with promptTokens := tokens }
    | none => out
  let out :=
    match usage.count "output_tokens" with
    | some tokens => { out with completionTokens := tokens }
    | none => out
  let out :=
    match usage.count "cache_read_input_tokens" with
    | some tokens => { out with cacheReadTokens := tokens }
    | none => out
  let out :=
    match usage.count "cache_creation_input_tokens" with
    | some tokens => { out with cacheCreationTokens := tokens }
    | none => out
  { out with totalTokens := out.promptTokens + out.completionTokens }

/-- The report of a collected response of Anthropic. -/
def anthropicUsage (usage : Value) : Usage :=
  let prompt := (usage.count "input_tokens").getD 0
  let completion := (usage.count "output_tokens").getD 0
  { promptTokens := prompt
    completionTokens := completion
    totalTokens := prompt + completion
    costUsd := none
    cacheReadTokens := (usage.count "cache_read_input_tokens").getD 0
    cacheCreationTokens := (usage.count "cache_creation_input_tokens").getD 0 }

/-- The cached tokens of an OpenAI-style report. -/
def openaiCacheReadTokens (usage : Value) : ℕ :=
  ((((usage.get "prompt_tokens_details").bind (·.get "cached_tokens")).bind Value.asU64).or
    (usage.count "prompt_cache_hit_tokens")).getD 0

/-- A report of OpenAI chat completions. -/
def openaiUsage (usage : Value) : Usage where
  promptTokens := (usage.count "prompt_tokens").getD 0
  completionTokens := (usage.count "completion_tokens").getD 0
  totalTokens := (usage.count "total_tokens").getD 0
  costUsd := none
  cacheReadTokens := openaiCacheReadTokens usage
  cacheCreationTokens := 0

/-- A report of OpenAI Responses. -/
def responsesUsage (usage : Value) : Usage where
  promptTokens := (usage.count "input_tokens").getD 0
  completionTokens := (usage.count "output_tokens").getD 0
  totalTokens := (usage.count "total_tokens").getD 0
  costUsd := (usage.get "cost").bind Value.asF64
  cacheReadTokens :=
    (((usage.get "input_tokens_details").bind (·.get "cached_tokens")).bind Value.asU64).getD 0
  cacheCreationTokens := 0

/-- A report of Gemini. -/
def geminiUsage (usage : Value) : Usage :=
  let prompt := (usage.count "promptTokenCount").getD 0
  let completion := (usage.count "candidatesTokenCount").getD 0
  { promptTokens := prompt
    completionTokens := completion
    totalTokens := (usage.count "totalTokenCount").getD (prompt + completion)
    costUsd := none
    cacheReadTokens := (usage.count "cachedContentTokenCount").getD 0
    cacheCreationTokens := 0 }

/-! ### Where the reports stand in a stream -/

/-- What an event of Anthropic's stream does to the report, and whether it goes out. -/
def anthropicEvent (state : Usage) (event : Value) : Usage × Option Usage :=
  match (event.get "type").bind Value.asStr with
  | some "message_start" =>
    match ((event.get "message").getD .null).get "usage" with
    | some usage => (updateAnthropicUsage state usage, none)
    | none => (state, none)
  | some "message_delta" =>
    match event.get "usage" with
    | some usage =>
      let state := updateAnthropicUsage state usage
      (state, some state)
    | none => (state, none)
  | _ => (state, none)

/-- The report of a chunk of OpenAI's stream. -/
def openaiChunkUsage (value : Value) : Option Usage :=
  match value.get "usage" with
  | some .null | none => none
  | some usage => some (openaiUsage usage)

/-- The report of an event of the Responses stream. -/
def responsesEventUsage (value : Value) : Option Usage :=
  match (value.get "type").bind Value.asStr with
  | some "response.completed" | some "response.incomplete" | some "response.failed" =>
    ((value.get "response").bind (·.get "usage")).map responsesUsage
  | _ => none

/-- The report of an event of Gemini's stream, which has one with every event. -/
def geminiEventUsage (event : Value) : Option Usage := (event.get "usageMetadata").map geminiUsage

/-! ## Conventions -/

inductive Upstream where
  | anthropic
  | openaiChat
  | openaiResponses
  | gemini
  deriving DecidableEq

/-- What a report says, by class of tokens. -/
structure TokenClasses where
  uncached : ℤ
  cacheRead : ℕ
  output : ℕ
  deriving DecidableEq

/-- The last value that partial reports give a counter. -/
def lastCount (key : String) (reports : List Value) : ℕ :=
  ((reports.filterMap (·.count key)).getLast?).getD 0

namespace Upstream

/-- The mapper of an upstream whose reports stand for themselves. -/
def mapper : Upstream → Value → Usage
  | anthropic => anthropicUsage
  | openaiChat => openaiUsage
  | openaiResponses => responsesUsage
  | gemini => geminiUsage

/-- The usage that the reports of a response map to, in order. -/
def usage : Upstream → List Value → Usage
  | anthropic, reports => reports.foldl updateAnthropicUsage .zero
  | up, reports => ((reports.getLast?).map up.mapper).getD .zero

/-- A report whose prompt count includes the cached tokens. -/
def inclusive (prompt cached output : ℕ) : TokenClasses := ⟨(prompt : ℤ) - cached, cached, output⟩

/-- What the reports of a response say by the upstream's convention. -/
def classes : Upstream → List Value → TokenClasses
  | anthropic, reports =>
    ⟨lastCount "input_tokens" reports, lastCount "cache_read_input_tokens" reports,
      lastCount "output_tokens" reports⟩
  | openaiChat, reports =>
    let report := reports.getLast?.getD .null
    inclusive ((report.count "prompt_tokens").getD 0) (openaiCacheReadTokens report)
      ((report.count "completion_tokens").getD 0)
  | openaiResponses, reports =>
    let report := reports.getLast?.getD .null
    inclusive ((report.count "input_tokens").getD 0)
      ((((report.get "input_tokens_details").bind (·.get "cached_tokens")).bind Value.asU64).getD 0)
      ((report.count "output_tokens").getD 0)
  | gemini, reports =>
    let report := reports.getLast?.getD .null
    inclusive ((report.count "promptTokenCount").getD 0)
      ((report.count "cachedContentTokenCount").getD 0)
      ((report.count "candidatesTokenCount").getD 0)

end Upstream

namespace ModelPricing

variable (rate : ModelPricing)

/-- The rate of an uncached input token; a missing one is zero. -/
def inputRate : ℚ := rate.inputPerMtok.getD 0

/-- The rate of a cached input token; a missing one is the input rate. -/
def cachedRate : ℚ := (rate.cachedInputPerMtok.or rate.inputPerMtok).getD 0

/-- The rate of an output token; a missing one is zero. -/
def outputRate : ℚ := rate.outputPerMtok.getD 0

/-- What the classes of tokens cost. -/
def exactCost (t : TokenClasses) : ℚ :=
  (t.uncached : ℚ) / 1000000 * rate.inputRate + (t.cacheRead : ℚ) / 1000000 * rate.cachedRate +
    (t.output : ℚ) / 1000000 * rate.outputRate

/-- The cost of a report by its counts. -/
theorem cost_eq (u : Usage) :
    rate.cost u = ((u.promptTokens : ℚ) - min (u.cacheReadTokens : ℚ) u.promptTokens) / 1000000 *
        rate.inputRate +
      min (u.cacheReadTokens : ℚ) u.promptTokens / 1000000 * rate.cachedRate +
      (u.completionTokens : ℚ) / 1000000 * rate.outputRate := by
  simp only [cost, Nat.cast_sub (Nat.min_le_right _ _), Nat.cast_min, inputRate, cachedRate,
    outputRate]

/-- **Where cached tokens are counted beside the prompt**: the formula takes them for a part of it, and
gives their cost exactly if what it misses comes to nothing. -/
theorem cost_beside_iff (u : Usage) :
    rate.cost u = rate.exactCost ⟨u.promptTokens, u.cacheReadTokens, u.completionTokens⟩ ↔
      min (u.cacheReadTokens : ℚ) u.promptTokens * rate.inputRate +
        (u.cacheReadTokens - min (u.cacheReadTokens : ℚ) u.promptTokens) * rate.cachedRate = 0 := by
  rw [cost_eq, exactCost]
  push_cast
  constructor
  · intro h
    linear_combination -1000000 * h
  · intro h
    linear_combination -1 / 1000000 * h

/-- **Where the prompt includes the cached tokens**: the formula gives their cost exactly if there are
no more of them than the prompt has, or they cost the same. -/
theorem cost_inclusive_iff (u : Usage) :
    rate.cost u =
        rate.exactCost (Upstream.inclusive u.promptTokens u.cacheReadTokens u.completionTokens) ↔
      u.cacheReadTokens ≤ u.promptTokens ∨ rate.inputRate = rate.cachedRate := by
  have hdiff : rate.cost u -
      rate.exactCost (Upstream.inclusive u.promptTokens u.cacheReadTokens u.completionTokens) =
      (u.cacheReadTokens - min (u.cacheReadTokens : ℚ) u.promptTokens) / 1000000 *
        (rate.inputRate - rate.cachedRate) := by
    rw [cost_eq, exactCost, Upstream.inclusive]
    push_cast
    ring
  have hmissed : ((u.cacheReadTokens : ℚ) - min (u.cacheReadTokens : ℚ) u.promptTokens) / 1000000 = 0 ↔
      u.cacheReadTokens ≤ u.promptTokens := by
    rw [div_eq_zero_iff, sub_eq_zero, eq_comm, min_eq_left_iff, Nat.cast_le]
    exact or_iff_left (by norm_num)
  rw [← sub_eq_zero, hdiff, mul_eq_zero, hmissed, sub_eq_zero]

end ModelPricing

/-! ## Streams of partial reports -/

section

variable (out : Usage) (report : Value)

/-- A partial report replaces the counts it has. -/
theorem updateAnthropicUsage_eq : updateAnthropicUsage out report =
    { promptTokens := (report.count "input_tokens").getD out.promptTokens
      completionTokens := (report.count "output_tokens").getD out.completionTokens
      totalTokens := (report.count "input_tokens").getD out.promptTokens +
        (report.count "output_tokens").getD out.completionTokens
      costUsd := out.costUsd
      cacheReadTokens := (report.count "cache_read_input_tokens").getD out.cacheReadTokens
      cacheCreationTokens :=
        (report.count "cache_creation_input_tokens").getD out.cacheCreationTokens } := by
  unfold updateAnthropicUsage
  cases report.count "input_tokens" <;> cases report.count "output_tokens" <;>
    cases report.count "cache_read_input_tokens" <;>
    cases report.count "cache_creation_input_tokens" <;> rfl

theorem update_promptTokens : (updateAnthropicUsage out report).promptTokens =
    (report.count "input_tokens").getD out.promptTokens := by
  rw [updateAnthropicUsage_eq]

theorem update_completionTokens : (updateAnthropicUsage out report).completionTokens =
    (report.count "output_tokens").getD out.completionTokens := by
  rw [updateAnthropicUsage_eq]

theorem update_cacheReadTokens : (updateAnthropicUsage out report).cacheReadTokens =
    (report.count "cache_read_input_tokens").getD out.cacheReadTokens := by
  rw [updateAnthropicUsage_eq]

end

/-- A counter that every partial report updates has its last value. -/
theorem foldl_update_count {key : String} {counter : Usage → ℕ}
    (h : ∀ out report, counter (updateAnthropicUsage out report) =
      (report.count key).getD (counter out)) (reports : List Value) (out : Usage) :
    counter (reports.foldl updateAnthropicUsage out) =
      ((reports.filterMap (·.count key)).getLast?).getD (counter out) := by
  induction reports generalizing out with
  | nil => rfl
  | cons report reports ih =>
    rw [List.foldl_cons, ih, h, List.filterMap_cons]
    cases report.count key with
    | none => rfl
    | some n =>
      dsimp only
      rw [List.getLast?_cons]
      rfl

/-- A collected response of Anthropic reports what a single partial report does. -/
theorem anthropicUsage_eq (report : Value) :
    anthropicUsage report = updateAnthropicUsage .zero report :=
  (updateAnthropicUsage_eq .zero report).symm

/-- The partial report of an event of Anthropic's stream. -/
def anthropicPartial (event : Value) : Option Value :=
  match (event.get "type").bind Value.asStr with
  | some "message_start" => ((event.get "message").getD .null).get "usage"
  | some "message_delta" => event.get "usage"
  | _ => none

theorem anthropicEvent_state (state : Usage) (event : Value) : (anthropicEvent state event).1 =
    (anthropicPartial event).toList.foldl updateAnthropicUsage state := by
  unfold anthropicEvent anthropicPartial
  split
  · cases ((event.get "message").getD .null).get "usage" <;> rfl
  · cases event.get "usage" <;> rfl
  · rfl

/-- What goes out is the state after the event. -/
theorem anthropicEvent_sent {state u : Usage} {event : Value}
    (h : (anthropicEvent state event).2 = some u) : (anthropicEvent state event).1 = u := by
  unfold anthropicEvent at h ⊢
  split at h
  · split at h <;> cases h
  · split at h
    · exact Option.some.inj h
    · cases h
  · cases h

/-- **A report of Anthropic's stream is the usage of all partial reports up to it.** -/
theorem anthropicStream_usage {events : List Value} {event : Value} {u : Usage}
    (h : (anthropicEvent (events.foldl (fun s e => (anthropicEvent s e).1) .zero) event).2 = some u) :
    u = Upstream.usage .anthropic ((events ++ [event]).filterMap anthropicPartial) := by
  have hstate : ∀ (events : List Value) (s : Usage),
      events.foldl (fun s e => (anthropicEvent s e).1) s =
        (events.filterMap anthropicPartial).foldl updateAnthropicUsage s := by
    intro events
    induction events with
    | nil => exact fun _ => rfl
    | cons e events ih =>
      intro s
      rw [List.foldl_cons, ih, anthropicEvent_state, List.filterMap_cons]
      cases anthropicPartial e <;> rfl
  rw [← anthropicEvent_sent h, Upstream.usage, ← hstate, List.foldl_append]
  rfl

/-! ## The cost of a report -/

namespace Upstream

/-- What the counts of the usage say by the upstream's convention. -/
def ofUsage (up : Upstream) (u : Usage) : TokenClasses :=
  match up with
  | anthropic => ⟨u.promptTokens, u.cacheReadTokens, u.completionTokens⟩
  | openaiChat | openaiResponses | gemini =>
    inclusive u.promptTokens u.cacheReadTokens u.completionTokens

/-- The mappers relay every class of tokens. -/
theorem ofUsage_usage (up : Upstream) (reports : List Value) :
    up.ofUsage (up.usage reports) = up.classes reports := by
  cases up with
  | anthropic =>
    simp only [ofUsage, usage, classes, lastCount]
    rw [foldl_update_count update_promptTokens, foldl_update_count update_completionTokens,
      foldl_update_count update_cacheReadTokens]
    rfl
  | openaiChat | openaiResponses | gemini =>
    simp only [ofUsage, usage, classes]
    cases reports.getLast? <;> rfl

/-- The reports are ones for which the formula gives what their upstream's tokens cost. -/
def Prices (up : Upstream) (rate : ModelPricing) (t : TokenClasses) : Prop :=
  match up with
  | anthropic =>
    min (t.cacheRead : ℚ) t.uncached * rate.inputRate +
      (t.cacheRead - min (t.cacheRead : ℚ) t.uncached) * rate.cachedRate = 0
  | openaiChat | openaiResponses | gemini => 0 ≤ t.uncached ∨ rate.inputRate = rate.cachedRate

/-- With rates that are not negative: no cached token is priced as a part of the prompt at a rate, and
none that is left out has one. -/
theorem prices_anthropic_iff {rate : ModelPricing} {t : TokenClasses} (ht : 0 ≤ t.uncached)
    (hinput : 0 ≤ rate.inputRate) (hcached : 0 ≤ rate.cachedRate) :
    anthropic.Prices rate t ↔ (t.cacheRead = 0 ∨ t.uncached = 0 ∨ rate.inputRate = 0) ∧
      ((t.cacheRead : ℤ) ≤ t.uncached ∨ rate.cachedRate = 0) := by
  have hmin : (0 : ℚ) ≤ min (t.cacheRead : ℚ) t.uncached :=
    le_min (Nat.cast_nonneg _) (Int.cast_nonneg ht)
  have hrest : (0 : ℚ) ≤ t.cacheRead - min (t.cacheRead : ℚ) t.uncached :=
    sub_nonneg.mpr (min_le_left _ _)
  unfold Prices
  have hnone : min (t.cacheRead : ℚ) t.uncached = 0 ↔ t.cacheRead = 0 ∨ t.uncached = 0 := by
    rcases le_total (t.cacheRead : ℚ) t.uncached with hle | hle
    · rw [min_eq_left hle, Nat.cast_eq_zero]
      refine (or_iff_left_of_imp fun h => ?_).symm
      rw [h, Int.cast_zero] at hle
      exact Nat.cast_eq_zero.mp (hle.antisymm (Nat.cast_nonneg _))
    · rw [min_eq_right hle, Int.cast_eq_zero]
      refine (or_iff_right_of_imp fun h => ?_).symm
      rw [h, Nat.cast_zero] at hle
      exact (Int.cast_nonpos.mp hle).antisymm ht
  have hall : (t.cacheRead : ℚ) = min (t.cacheRead : ℚ) t.uncached ↔ (t.cacheRead : ℤ) ≤ t.uncached := by
    rw [eq_comm, min_eq_left_iff]
    exact_mod_cast Iff.rfl
  rw [add_eq_zero_iff_of_nonneg (mul_nonneg hmin hinput) (mul_nonneg hrest hcached), mul_eq_zero,
    mul_eq_zero, sub_eq_zero, hnone, hall, or_assoc]

/-- **A report costs what its upstream's tokens cost exactly if it is one the formula fits.** -/
theorem cost_exact_iff (up : Upstream) (pricing : Pricing) (model : String) (reports : List Value) :
    pricing.costUsd model (up.usage reports) =
        (pricing.rate model).map (·.exactCost (up.classes reports)) ↔
      ∀ rate, pricing.rate model = some rate → up.Prices rate (up.classes reports) := by
  rw [pricing.costUsd_eq, ← ofUsage_usage]
  cases hrate : pricing.rate model with
  | none => simp
  | some rate =>
    have hcost : rate.cost (up.usage reports) = rate.exactCost (up.ofUsage (up.usage reports)) ↔
        up.Prices rate (up.ofUsage (up.usage reports)) := by
      cases up with
      | anthropic =>
        exact rate.cost_beside_iff _
      | openaiChat | openaiResponses | gemini =>
        refine (rate.cost_inclusive_iff _).trans (or_congr_left ?_)
        simp [ofUsage, inclusive]
    simpa using hcost

/-- A report of Anthropic with a hundred uncached and fifty cached tokens: fifty of the uncached ones
are priced as cached, and fifty tokens are not priced. -/
theorem cached_tokens_underpriced :
    let report := Value.object [("input_tokens", .number (.posInt 100)),
      ("cache_read_input_tokens", .number (.posInt 50)), ("output_tokens", .number (.posInt 10))]
    let rate : ModelPricing :=
      { inputPerMtok := some 3, cachedInputPerMtok := some (3 / 10), outputPerMtok := some 15 }
    let pricing : Pricing := ⟨HashMap.collect [("claude-sonnet-4-5", rate)]⟩
    pricing.costUsd "claude-sonnet-4-5" (anthropic.usage [report]) = some (315 / 1000000) ∧
      (pricing.rate "claude-sonnet-4-5").map (·.exactCost (anthropic.classes [report])) =
        some (465 / 1000000) := by
  decide +kernel

end Upstream

end Llmleaf
