import Llmleaf.Events
import Llmleaf.Lib.HashMap

/-!
# Pricing

The cost of a usage report from the bundled dataset: a lookup and a sum of products. Rates are exact
rationals, in dollars per million tokens.
-/

namespace Llmleaf

/-- The rates of one model. -/
structure ModelPricing where
  inputPerMtok : Option ℚ
  cachedInputPerMtok : Option ℚ
  outputPerMtok : Option ℚ
  deriving DecidableEq

namespace ModelPricing

/-- Whether the model is priced by other units than tokens. -/
def hasNoRate (rate : ModelPricing) : Bool :=
  rate.inputPerMtok.isNone && rate.cachedInputPerMtok.isNone && rate.outputPerMtok.isNone

/-- The cost of a report; cached tokens are part of the prompt. -/
def cost (rate : ModelPricing) (usage : Usage) : ℚ :=
  let cachedTokens := min usage.cacheReadTokens usage.promptTokens
  let uncachedTokens := usage.promptTokens - cachedTokens
  let input := (uncachedTokens : ℚ) / 1000000 * rate.inputPerMtok.getD 0 +
    (cachedTokens : ℚ) / 1000000 * ((rate.cachedInputPerMtok.or rate.inputPerMtok).getD 0)
  let output := (usage.completionTokens : ℚ) / 1000000 * rate.outputPerMtok.getD 0
  input + output

end ModelPricing

/-- The dataset. -/
structure Pricing where
  models : HashMap String ModelPricing

namespace Pricing

/-- The cost of a report for `model`, if it is priced by tokens. -/
def costUsd (self : Pricing) (model : String) (usage : Usage) : Option ℚ :=
  match self.models.lookup model with
  | none => none
  | some rate => if rate.hasNoRate then none else some (rate.cost usage)

/-- The report with the cost of the dataset. -/
def price (self : Pricing) (model : String) (usage : Usage) : Usage :=
  { usage with costUsd := self.costUsd model usage }

/-- The rates of a model that is priced by tokens. -/
def rate (self : Pricing) (model : String) : Option ModelPricing :=
  (self.models.lookup model).filter fun rate => !rate.hasNoRate

section

variable (self : Pricing) (model : String) (usage : Usage)

theorem costUsd_eq : self.costUsd model usage = (self.rate model).map (·.cost usage) := by
  unfold costUsd rate
  cases self.models.lookup model with
  | none => rfl
  | some r => cases hr : r.hasNoRate <;> simp [Option.filter, hr]

@[simp] theorem price_promptTokens : (self.price model usage).promptTokens = usage.promptTokens := rfl

@[simp] theorem price_completionTokens :
    (self.price model usage).completionTokens = usage.completionTokens := rfl

@[simp] theorem price_totalTokens : (self.price model usage).totalTokens = usage.totalTokens := rfl

@[simp] theorem price_costUsd : (self.price model usage).costUsd = self.costUsd model usage := rfl

@[simp] theorem price_cacheReadTokens :
    (self.price model usage).cacheReadTokens = usage.cacheReadTokens := rfl

@[simp] theorem price_cacheCreationTokens :
    (self.price model usage).cacheCreationTokens = usage.cacheCreationTokens := rfl

/-- A cost that was reported has no part in the cost of the dataset. -/
theorem costUsd_withCost (c : Option ℚ) :
    self.costUsd model { usage with costUsd := c } = self.costUsd model usage := rfl

/-- Pricing twice is pricing once. -/
@[simp] theorem price_price (model' : String) :
    self.price model (self.price model' usage) = self.price model usage := rfl

end

end Pricing

end Llmleaf
