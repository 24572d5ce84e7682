import Llmleaf.Events
import Llmleaf.Topology

/-!
# Dispatch

The life of a request: resolve the model, walk the fallback chain, and hand the first willing
target to the operation. A walk has two passes. The first honors cooldowns, the second runs only if
the first left no error; a walk in which nothing failed but a limiter threw targets back waits for
the soonest of them and starts over, within a wait budget.

What a walk depends on is the environment: the clock, the answers of the providers, and what other
requests do to the health table and the limiter's entries between any two reads (`Env`). One visit
of a target is `visit`; `Acc.record` is what the loop remembers of it.
-/

namespace Llmleaf.Dispatch

/-- The node-local state requests share. -/
structure World where
  health : HealthTable
  store : Store

/-- What a dispatch does not control. -/
structure Env (τ : Type) where
  /-- The instant read at the start of a walk. -/
  clock : ℕ → Instant
  /-- A secret's text, if it resolves. -/
  secret : Secret → Option String
  /-- The answer to the `n`th call. -/
  op : ℕ → Instance → ProviderCx → String → Except ModelError τ
  /-- What other requests do at the `n`th moment between two steps of this one. -/
  meanwhile : ℕ → World → World

/-- The request on its way, with the snapshot and the settings it keeps. -/
structure Request where
  topo : Topology
  logicalModel : String
  requestId : String
  key : String
  now : ℕ
  cooldownSecs : ℕ

/-- The context of a call to the provider `name`. -/
def buildCx {τ : Type} (r : Request) (env : Env τ) (name : String) : ProviderCx :=
  r.topo.buildCx env.secret name r.requestId

/-- What happened at a target. -/
inductive Visit (τ : Type) where
  /-- Skipped for its cooldown; whether the limiter would have admitted it then. -/
  | cooled (admissible : Bool)
  | unregistered
  /-- Thrown back by the limiter. -/
  | limited (wait : Duration)
  /-- Called, without the capability. -/
  | unsupported (e : ModelError)
  /-- Called, with any other error. -/
  | failed (e : ModelError)
  | served (value : τ) (guard : RateGuard)
  /-- The task unwound. -/
  | panicked

namespace Visit

variable {τ : Type}

/-- The provider was really called. -/
def isCall : Visit τ → Bool
  | unsupported _ | failed _ | served _ _ => true
  | _ => false

/-- An error without a failure: an unregistered target or a missing capability. -/
def isGap : Visit τ → Bool
  | unregistered | unsupported _ => true
  | _ => false

/-- A call that failed. -/
def isFailed : Visit τ → Bool
  | failed _ => true
  | _ => false

/-- Not called, for its cooldown or by its limiter. -/
def isSkip : Visit τ → Bool
  | cooled _ | limited _ => true
  | _ => false

/-- The walk ends here. -/
def isLast : Visit τ → Bool
  | served _ _ | panicked => true
  | _ => false

end Visit

/-- The shared state, and how many moments and calls have passed. -/
structure Pos where
  world : World
  moments : ℕ
  calls : ℕ

namespace Pos

/-- Other requests act. -/
def elapse {τ : Type} (p : Pos) (env : Env τ) : Pos :=
  { p with world := env.meanwhile p.moments p.world, moments := p.moments + 1 }

end Pos

section

variable {τ : Type} (r : Request) (env : Env τ)

/-- The model a target is called with. -/
def upstream (target : Target) : String := target.model.getD r.logicalModel

/-- Whether the chain's target names a registered provider. -/
def registered (target : Target) : Bool := (r.topo.registry.lookup target.provider).isSome

/-- Whether the limiter admits the target in the state `w`. -/
def admissible (walkNow : Instant) (target : Target) (w : World) : Bool :=
  match (r.topo.rate.tryAdmit w.store target.provider (upstream r target) walkNow).1 with
  | .ok _ => true
  | _ => false

/-- An admitted target is called: its answer, and what it does to the health table. -/
def call (target : Target) (provider : Instance) (guard : RateGuard) (p : Pos) : Visit τ × Pos :=
  let cx := buildCx r env target.provider
  let answer := env.op p.calls provider cx (upstream r target)
  let p := { p with calls := p.calls + 1 }.elapse env
  match answer with
  | .ok value =>
    (.served value guard,
      { p with world := { p.world with health := p.world.health.clear target.provider } })
  | .error (.unsupported m) =>
    (.unsupported (.unsupported m),
      { p with world := { p.world with store := guard.drop p.world.store } })
  | .error e =>
    (.failed e, { p with world :=
      { health := p.world.health.penalize target.provider r.now r.cooldownSecs
        store := guard.drop p.world.store } })

/-- One target of a pass: its cooldown, its registration, its limiter, its answer. -/
def visit (honorCooldown : Bool) (walkNow : Instant) (target : Target) (p : Pos) : Visit τ × Pos :=
  let p := p.elapse env
  if honorCooldown && p.world.health.isDown target.provider r.now then
    (.cooled (admissible r walkNow target p.world), p)
  else
    match r.topo.registry.lookup target.provider with
    | none => (.unregistered, p)
    | some provider =>
      let p := p.elapse env
      match r.topo.rate.tryAdmit p.world.store target.provider (upstream r target) walkNow with
      | (.wait d, store) => (.limited d, { p with world := { p.world with store := store } })
      | (.panic, store) => (.panicked, { p with world := { p.world with store := store } })
      | (.ok guard, store) =>
        call r env target provider guard { p with world := { p.world with store := store } }

/-! ## The walk -/

/-- What the loop remembers: its two accumulators, the events it emitted, and the visits of each
pass of this walk, in the order of the chain. -/
structure Acc (τ : Type) where
  lastErr : Option ModelError
  soonestWait : Option Duration
  events : List Event
  honoring : List (Visit τ)
  failOpen : List (Visit τ)
  pos : Pos

/-- The accumulators after a visit. -/
def Acc.record (a : Acc τ) (honorCooldown : Bool) (target : Target) (v : Visit τ) (p : Pos) :
    Acc τ :=
  let a := { a with
    pos := p
    honoring := if honorCooldown then a.honoring ++ [v] else a.honoring
    failOpen := if honorCooldown then a.failOpen else a.failOpen ++ [v] }
  match v with
  | .cooled _ | .panicked => a
  | .unregistered =>
    { a with
      lastErr := some (.unavailable ("provider '" ++ target.provider ++ "' is not registered")) }
  | .limited wait =>
    { a with soonestWait := some ((a.soonestWait.map (min · wait)).getD wait) }
  | .unsupported e => { a with lastErr := some e }
  | .failed e =>
    { a with
      lastErr := some e
      events := a.events ++ [.providerHealth target.provider "degraded"] }
  | .served _ _ =>
    { a with events :=
        a.events ++ [.requestRouted r.requestId target.provider (upstream r target)] }

/-- How a pass or a walk ends. -/
inductive Flow (τ : Type) where
  | next (a : Acc τ)
  | served (a : Acc τ) (target : Target) (value : τ) (guard : RateGuard)
  | panicked (a : Acc τ)

/-- One pass over the chain. -/
def pass (honorCooldown : Bool) (walkNow : Instant) : List Target → Acc τ → Flow τ
  | [], a => .next a
  | target :: targets, a =>
    let (v, p) := visit r env honorCooldown walkNow target a.pos
    let a := a.record r honorCooldown target v p
    match v with
    | .served value guard => .served a target value guard
    | .panicked => .panicked a
    | _ => pass honorCooldown walkNow targets a

/-- Both passes: the second only if the first left no error. -/
def walk (walkNow : Instant) (targets : List Target) (a : Acc τ) : Flow τ :=
  match pass r env true walkNow targets a with
  | .next a => if a.lastErr.isSome then .next a else pass r env false walkNow targets a
  | flow => flow

/-! ## The loop -/

/-- What a dispatch hands back on success. -/
structure Dispatched (τ : Type) where
  value : τ
  requestId : String
  key : String
  logicalModel : String
  provider : String
  upstreamModel : String
  rate : RateLimiter
  guard : RateGuard

/-- The result of a dispatch. -/
inductive Outcome (τ : Type) where
  | ok (d : Dispatched τ)
  | error (e : EngineError)
  | panicked

/-- The end of a dispatch, with the state in which its last walk began. -/
structure Finished (τ : Type) where
  outcome : Outcome τ
  acc : Acc τ
  /-- The clock reading and the state before the last walk. -/
  lastWalk : Instant × Acc τ

/-- The accumulators of a walk that starts over. -/
def Acc.restart (a : Acc τ) : Acc τ :=
  { a with lastErr := none, soonestWait := none, honoring := [], failOpen := [] }

/-- Walk until something is decided; `budget` is what is left of the wait. -/
def loop (targets : List Target) (budget : Duration) (walks : ℕ) (a : Acc τ) : Finished τ :=
  let walkNow := env.clock walks
  let start := a.restart
  match walk r env walkNow targets start with
  | .served a target value guard =>
    { outcome := .ok
        { value := value
          requestId := r.requestId
          key := r.key
          logicalModel := r.logicalModel
          provider := target.provider
          upstreamModel := upstream r target
          rate := r.topo.rate
          guard := guard }
      acc := a
      lastWalk := (walkNow, start) }
  | .panicked a => { outcome := .panicked, acc := a, lastWalk := (walkNow, start) }
  | .next a =>
    match a.lastErr, a.soonestWait with
    | none, some wait =>
      if _hnap : min wait budget = 0 then
        let retryAfterSecs := max (wait / nanos) 1
        { outcome := .error (.rateLimited retryAfterSecs)
          acc := { a with events := a.events ++ [.requestFailed r.requestId
            ("rate limited; retry after " ++ toString retryAfterSecs ++ "s")] }
          lastWalk := (walkNow, start) }
      else
        -- asleep for the nap: other requests act
        loop targets (budget - min wait budget) (walks + 1) { a with pos := a.pos.elapse env }
    | lastErr, _ =>
      let err := lastErr.getD (.unavailable "no eligible targets")
      { outcome := .error (.allTargetsFailed err)
        acc := { a with events := a.events ++ [.requestFailed r.requestId err.text] }
        lastWalk := (walkNow, start) }
termination_by budget
decreasing_by exact Nat.sub_lt_self (Nat.pos_of_ne_zero _hnap) (Nat.min_le_right _ _)

end

/-- Dispatch a request over the chain its snapshot resolves. -/
def dispatch {τ : Type} (r : Request) (env : Env τ) (rateMaxWait : Duration) (payload : Option Value)
    (world : World) : Finished τ :=
  let a : Acc τ := ⟨none, none, [], [], [], ⟨world, 0, 0⟩⟩
  match r.topo.router.resolve r.logicalModel with
  | none => { outcome := .error (.noRoute r.logicalModel), acc := a, lastWalk := (0, a) }
  | some [] => { outcome := .error (.noTargets r.logicalModel), acc := a, lastWalk := (0, a) }
  | some targets =>
    loop r env targets rateMaxWait 0
      { a with events := [.requestStarted r.requestId r.key r.logicalModel payload] }

end Llmleaf.Dispatch
