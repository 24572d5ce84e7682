import Llmleaf.Lib.Runs
import Llmleaf.RateLimit
import Llmleaf.Route

/-!
# The installed topology

A node routes by a snapshot built from its configuration file. A pulled layer of providers and
routes is reconciled onto this base: entries that the base already names, duplicates and unknown
kinds are skipped, a pull equal to the layer installed before changes nothing, and any other pull
swaps in a new snapshot that keeps what did not change.

- `Engine.new`: the snapshot of the base.
- `Engine.installTopology`: one reconciliation, step by step as the source does it.
- `Engine.system`: the runs of installs. The orders in which the source iterates over its hash maps
  are part of the event.
-/

namespace Llmleaf

/-- A live provider implementation: its kind, and which build of this kind it is. -/
structure Instance where
  kind : String
  serial : ℕ
  deriving DecidableEq

/-- The binary's mapping from kinds to implementations. -/
structure ProviderFactory where
  /-- The kinds it can build. -/
  known : String → Bool

/-- Instantiate the implementation of `kind`. -/
def ProviderFactory.build (f : ProviderFactory) (kind : String) (serial : ℕ) : Option Instance :=
  if f.known kind then some ⟨kind, serial⟩ else none

/-- One immutable view of what routing needs. -/
structure Topology where
  registry : HashMap String Instance
  router : Router
  /-- The merged provider configurations. -/
  providers : HashMap String ProviderConfig
  rate : RateLimiter
  /-- The pulled layer the next pull is compared with. -/
  dynamicProviders : HashMap String ProviderConfig
  dynamicRoutes : HashMap String RouteConfig
  dynamicInstances : HashMap String Instance

/-- What a provider is called with besides the request. -/
structure ProviderCx where
  requestId : String
  credential : Option String
  endpoint : Option String
  settings : Map

/-- The context of a call to the provider `name`. -/
def Topology.buildCx (self : Topology) (secret : Secret → Option String) (name requestId : String) :
    ProviderCx :=
  let cfg := self.providers.lookup name
  { requestId := requestId
    credential := (cfg.bind (·.credential)).bind secret
    endpoint := cfg.bind (·.endpoint)
    settings := (cfg.map (·.settings)).getD [] }

/-- What one reconciliation did. -/
structure TopologyDiff where
  providersAdded : ℕ
  providersUpdated : ℕ
  providersRemoved : ℕ
  routesAdded : ℕ
  routesUpdated : ℕ
  routesRemoved : ℕ
  skipped : List String
  deriving DecidableEq

/-- Whether the install changed nothing. -/
def TopologyDiff.isNoop (d : TopologyDiff) : Bool :=
  d.providersAdded == 0 && d.providersUpdated == 0 && d.providersRemoved == 0 &&
    d.routesAdded == 0 && d.routesUpdated == 0 && d.routesRemoved == 0

/-- The routing state of a node: its current topology, the file base and the node-local state. -/
structure Engine where
  topology : Topology
  baseRegistry : HashMap String Instance
  baseProviders : List ProviderConfig
  baseRoutes : List RouteConfig
  health : HealthTable
  /-- The rate-limit entries of this and all earlier snapshots. -/
  store : Store
  /-- How many instances were built. -/
  built : ℕ

/-- The parts of the configuration file that routing reads. -/
structure Config where
  providers : List ProviderConfig
  routes : List RouteConfig

/-- The provider configurations by name. -/
def byName (providers : List ProviderConfig) : HashMap String ProviderConfig :=
  HashMap.collect (providers.map fun p => (p.name, p))

namespace Engine

/-- The node that runs from its file alone. -/
def new (config : Config) (registry : HashMap String Instance) (born : Births) : Engine :=
  let rate := RateLimiter.new [] config.providers born
  { topology :=
      { registry := registry
        router := Router.new config.routes config.providers
        providers := byName config.providers
        rate := rate.1
        dynamicProviders := ∅
        dynamicRoutes := ∅
        dynamicInstances := ∅ }
    baseRegistry := registry
    baseProviders := config.providers
    baseRoutes := config.routes
    health := .new
    store := rate.2
    built := 0 }

/-! ## Filtering a pull -/

/-- The providers accepted so far, with their instances. -/
structure Accepted where
  providers : HashMap String ProviderConfig
  instances : HashMap String Instance
  skipped : List String
  built : ℕ

/-- The instance of the layer installed before, while the kind is the same. -/
def reused (prev : Topology) (p : ProviderConfig) : Option Instance :=
  match prev.dynamicProviders.lookup p.name with
  | some old => if old.kind = p.kind then prev.dynamicInstances.lookup p.name else none
  | none => none

/-- One pulled provider. -/
def acceptProvider (base : List ProviderConfig) (prev : Topology) (factory : ProviderFactory)
    (acc : Accepted) (p : ProviderConfig) : Accepted :=
  if p.name ∈ base.map (·.name) then
    { acc with skipped :=
        acc.skipped ++ ["provider '" ++ p.name ++ "' shadows a config-file provider; skipped"] }
  else if p.name ∈ acc.providers then
    { acc with skipped :=
        acc.skipped ++
          ["duplicate provider '" ++ p.name ++ "' in pulled topology; first entry wins"] }
  else
    match reused prev p with
    | some inst =>
      { acc with
        providers := acc.providers.insert p.name p
        instances := acc.instances.insert p.name inst }
    | none =>
      match factory.build p.kind acc.built with
      | some inst =>
        { acc with
          providers := acc.providers.insert p.name p
          instances := acc.instances.insert p.name inst
          built := acc.built + 1 }
      | none =>
        { acc with skipped :=
            acc.skipped ++
              ["provider '" ++ p.name ++ "' has unknown kind '" ++ p.kind ++ "'; skipped"] }

/-- One pulled route. -/
def acceptRoute (base : List RouteConfig) (acc : HashMap String RouteConfig × List String)
    (r : RouteConfig) : HashMap String RouteConfig × List String :=
  if r.model ∈ base.map (·.model) then
    (acc.1, acc.2 ++ ["route '" ++ r.model ++ "' shadows a config-file route; skipped"])
  else if r.model ∈ acc.1 then
    (acc.1, acc.2 ++ ["duplicate route '" ++ r.model ++ "' in pulled topology; first entry wins"])
  else (acc.1.insert r.model r, acc.2)

/-! ## Comparing two layers -/

section

variable {ν : Type} [DecidableEq ν]

/-- How many entries of `new` the old layer did not have. -/
def added (old new : HashMap String ν) : ℕ :=
  new.pairs.countP fun e => (old.lookup e.1).isNone

/-- How many entries of `new` the old layer had with another value. -/
def updated (old new : HashMap String ν) : ℕ :=
  new.pairs.countP fun e => match old.lookup e.1 with
    | some v => v != e.2
    | none => false

/-- How many entries of the old layer `new` does not have. -/
def removed (old new : HashMap String ν) : ℕ :=
  old.pairs.countP fun e => decide (e.1 ∉ new)

end

/-- The difference of a filtered pull to the layer installed before. -/
def diff (prev : Topology) (acc : Accepted) (routes : HashMap String RouteConfig × List String) :
    TopologyDiff where
  providersAdded := added prev.dynamicProviders acc.providers
  providersUpdated := updated prev.dynamicProviders acc.providers
  providersRemoved := removed prev.dynamicProviders acc.providers
  routesAdded := added prev.dynamicRoutes routes.1
  routesUpdated := updated prev.dynamicRoutes routes.1
  routesRemoved := removed prev.dynamicRoutes routes.1
  skipped := acc.skipped ++ routes.2

/-! ## One install -/

/-- The orders in which one install iterates over its hash maps. -/
structure Orders where
  providers : Shuffle ProviderConfig
  routes : Shuffle RouteConfig
  instances : Shuffle (String × Instance)
  previous : Shuffle (String × ProviderConfig)

/-- A pulled payload, and what the run contributes to its install. -/
structure Install where
  providers : List ProviderConfig
  routes : List RouteConfig
  orders : Orders
  born : Births

/-- The pulled providers that are installed. -/
def accept (self : Engine) (factory : ProviderFactory) (providers : List ProviderConfig) :
    Accepted :=
  providers.foldl (acceptProvider self.baseProviders self.topology factory) ⟨∅, ∅, [], self.built⟩

/-- The pulled routes that are installed, and the texts of those that are not. -/
def acceptRoutes (self : Engine) (routes : List RouteConfig) :
    HashMap String RouteConfig × List String :=
  routes.foldl (acceptRoute self.baseRoutes) (∅, [])

/-- Whether a provider has the same limits in both provider tables. -/
def sameLimits (old new : HashMap String ProviderConfig) (name : String) : Bool :=
  match old.lookup name, new.lookup name with
  | some o, some n => o.limits == n.limits && o.modelLimits == n.modelLimits
  | _, _ => false

/-- Clear the penalty of a provider that is gone or has changed. -/
def clearStale (new : HashMap String ProviderConfig) (health : HealthTable)
    (e : String × ProviderConfig) : HealthTable :=
  match new.lookup e.1 with
  | none => health.clear e.1
  | some p => if p ≠ e.2 then health.clear e.1 else health

/-- The snapshot of the base with a layer merged onto it. -/
def merge (self : Engine) (i : Install) (acc : Accepted) (routes : HashMap String RouteConfig) :
    Engine :=
  let prev := self.topology
  let mergedProviders := self.baseProviders ++ i.orders.providers.order acc.providers.values
  let mergedRoutes := self.baseRoutes ++ i.orders.routes.order routes.values
  let providersMap := byName mergedProviders
  let registry := (i.orders.instances.order acc.instances.pairs).foldl
    (fun m e => m.insert e.1 e.2) self.baseRegistry
  let rate := prev.rate.reconciled self.store mergedProviders
    (sameLimits prev.providers providersMap) i.born
  { self with
    topology :=
      { registry := registry
        router := Router.new mergedRoutes mergedProviders
        providers := providersMap
        rate := rate.1
        dynamicProviders := acc.providers
        dynamicRoutes := routes
        dynamicInstances := acc.instances }
    health := (i.orders.previous.order prev.providers.pairs).foldl (clearStale providersMap)
      self.health
    store := rate.2 }

/-- Install a pulled layer: a pull equal to the installed layer keeps the snapshot. -/
def installTopology (self : Engine) (factory : ProviderFactory) (i : Install) :
    Engine × TopologyDiff :=
  let acc := self.accept factory i.providers
  let routes := self.acceptRoutes i.routes
  let d := diff self.topology acc routes
  -- instances built for a pull that turns out to change nothing are dropped with it
  let built := { self with built := acc.built }
  if d.isNoop then (built, d) else (built.merge i acc routes.1, d)

/-- The node after an install. -/
def install (factory : ProviderFactory) (self : Engine) (i : Install) : Engine :=
  (self.installTopology factory i).1

/-- The runs of installs on the node of a configuration. -/
def system (factory : ProviderFactory) (config : Config) (registry : HashMap String Instance)
    (born : Births) : Runs.Sys Engine Install :=
  .ofFun (· = .new config registry born) (install factory)

/-- Every sequence of pulls is a run. -/
theorem run_installs (factory : ProviderFactory) (config : Config)
    (registry : HashMap String Instance) (born : Births) (is : List Install) :
    Runs.Run (system factory config registry born) (.new config registry born)
      (Runs.trace (install factory) (.new config registry born) is)
      (is.foldl (install factory) (.new config registry born)) :=
  .exec _ _ _ _

end Engine

end Llmleaf
