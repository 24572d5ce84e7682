import Llmleaf.Json
import Mathlib.Data.Finmap

/-!
# The configured and the pulled resources

Providers, their rate limits, routes and targets, as the file base and a pulled topology layer
declare them. Equality of two provider or route entries is what the reconciliation compares: the
per-model limits are a finite map, so their order does not matter.
-/

namespace Llmleaf

/-- A secret's reference in the configuration: a literal or a variable's name. -/
structure Secret where
  text : String
  deriving DecidableEq

/-- Node-local rate limits of one scope; an omitted dimension is unlimited. -/
structure RateLimitConfig where
  requestsPerMin : Option Nat
  tokensPerMin : Option Nat
  maxConcurrent : Option Nat
  deriving DecidableEq

/-- A provider instance. -/
structure ProviderConfig where
  name : String
  kind : String
  endpoint : Option String
  credential : Option Secret
  /-- The namespace whose models resolve to this provider. -/
  pfx : Option String
  settings : Map
  limits : Option RateLimitConfig
  /-- Limits by upstream model. -/
  modelLimits : Finmap fun _ : String => RateLimitConfig
  deriving DecidableEq

/-- One target of a fallback chain. -/
structure Target where
  provider : String
  model : Option String
  deriving DecidableEq

/-- A logical model and its fallback chain. -/
structure RouteConfig where
  model : String
  targets : List Target
  deriving DecidableEq

/-- A provider of kind `kind` with no further settings, addressed by the namespace `pfx`. -/
def ProviderConfig.plain (name kind : String) (pfx : Option String) : ProviderConfig where
  name := name
  kind := kind
  endpoint := none
  credential := none
  pfx := pfx
  settings := []
  limits := none
  modelLimits := ∅

end Llmleaf
