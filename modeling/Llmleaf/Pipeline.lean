import Llmleaf.Dispatch.Sites
import Llmleaf.Lifecycle
import Llmleaf.Modalities
import Llmleaf.Pricing

/-!
# The pipeline

The entry points of the engine: screen the request, dispatch it, and account for what the provider
reports. A stream is accounted for as it passes, element by element; the other modalities have one
response and are accounted for at its end. Accounting debits the limiter's token buckets and can
unwind there, if an earlier request left a bucket's lock poisoned.

- `screenRequest`: the interceptor.
- `Admission`, `Debit`: the accesses to the limiter, each with the state it meets.
- `instrument`, `instrumentAudio`: a stream, drained to its end.
- `Entry.run` … `Entry.voices`: the entry points.
- `Consumer`: a request of any of them, and what it leaves behind (`Consumer.trace`).
-/

namespace Llmleaf

open Dispatch (World Pos Dispatched)

/-! ## Screening -/

inductive InterceptPhase where
  | request
  | response
  deriving DecidableEq

/-- An interceptor's verdict on a payload. -/
inductive InterceptOutcome where
  | pass
  | block (reason : String)
  | rewrite (payload : Value)
  deriving DecidableEq

/-- The hook an operator configures. -/
structure Interceptor where
  applies : InterceptPhase → String → String → Bool
  screen : InterceptPhase → String → String → Value → InterceptOutcome

/-- The JSON form of a type of requests. -/
structure Codec (ρ : Type) where
  toValue : ρ → Option Value
  fromValue : Value → Except String ρ

/-- Run the interceptor, if there is one and it is in scope. -/
def screenRequest {ρ : Type} (interceptor : Option Interceptor) (codec : Codec ρ) (req : ρ)
    (key model : String) : Except EngineError ρ :=
  match interceptor with
  | none => .ok req
  | some ic =>
    if ic.applies .request key model then
      match codec.toValue req with
      | none => .ok req
      | some value =>
        match ic.screen .request key model value with
        | .pass => .ok req
        | .block reason => .error (.blocked reason)
        | .rewrite v =>
          match codec.fromValue v with
          | .ok req => .ok req
          | .error e => .error (.blocked ("interceptor rewrite was invalid: " ++ e))
    else .ok req

/-! ## Accesses to the limiter -/

/-- A debit of reported tokens, with the state it meets. -/
structure Debit where
  limiter : RateLimiter
  store : Store
  provider : String
  model : String
  tokens : ℕ
  now : Instant

namespace Debit

/-- The debit, made. -/
def made (d : Debit) : Reply Unit × Store :=
  d.limiter.debitTokens d.store d.provider d.model d.tokens d.now

/-- Whether it unwinds: a bucket's lock is poisoned. -/
def unwinds (d : Debit) : Bool := d.made.1 = .panic

end Debit

/-- A request for admission, with the state it meets. -/
structure Admission where
  limiter : RateLimiter
  store : Store
  provider : String
  model : String
  now : Instant

/-- Whether it unwinds: a bucket's lock is poisoned, or a wait is no duration. -/
def Admission.unwinds (a : Admission) : Bool :=
  (a.limiter.tryAdmit a.store a.provider a.model a.now).1 = .panic

/-- The admission a visit asks for. -/
def Dispatch.Site.meets {τ : Type} (r : Dispatch.Request) (env : Dispatch.Env τ)
    (s : Dispatch.Site) : Option Admission :=
  (s.asked r env).map fun a =>
    ⟨r.topo.rate, a.2.world.store, s.target.provider, Dispatch.upstream r s.target, s.walkNow⟩

/-- The debit for what a dispatch has handed back. -/
def Dispatch.Dispatched.debit {τ : Type} (d : Dispatched τ) (tokens : ℕ) (now : Instant) (p : Pos) :
    Debit :=
  ⟨d.rate, p.world.store, d.provider, d.upstreamModel, tokens, now⟩

/-- The state with other limiter entries. -/
def Dispatch.Pos.withStore (p : Pos) (store : Store) : Pos :=
  { p with world := { p.world with store := store } }

/-- Other requests act. -/
def Dispatch.Pos.pause (p : Pos) (meanwhile : ℕ → World → World) : Pos :=
  { p with world := meanwhile p.moments p.world, moments := p.moments + 1 }

/-- The guard of a request is dropped. -/
def Dispatch.Pos.drop (p : Pos) (guard : RateGuard) : Pos := p.withStore (guard.drop p.world.store)

/-! ## Entry points -/

/-- How an entry point ends. -/
inductive Answer (β : Type) where
  | ok (value : β)
  | error (e : EngineError)
  /-- The task unwound. -/
  | panicked

/-- What an entry point leaves behind. -/
structure Ended (β : Type) where
  answer : Answer β
  events : List Event
  debits : List Debit
  pos : Pos

/-- What an entry point finds: the node as it is, and the caller. -/
structure Entry where
  interceptor : Option Interceptor
  includePayloads : Bool
  rateMaxWait : Duration
  cooldownSecs : ℕ
  pricing : Pricing
  topo : Topology
  world : World
  key : String
  requestId : String
  now : ℕ

/-- What an entry point does not control. -/
structure Ports (ρ τ : Type) where
  /-- The instant read at the start of a walk. -/
  clock : ℕ → Instant
  secret : Secret → Option String
  /-- The answer of a provider to its `n`th call. -/
  call : ℕ → Instance → ProviderCx → ρ → Except ModelError τ
  /-- What other requests do at the `n`th moment. -/
  meanwhile : ℕ → World → World
  /-- The instant of a debit at the `n`th moment. -/
  debitClock : ℕ → Instant

/-- The environment of the dispatch of `req`: a provider is called with the model it knows. -/
def Ports.env {ρ τ : Type} [Addressed ρ] (ports : Ports ρ τ) (req : ρ) : Dispatch.Env τ where
  clock := ports.clock
  secret := ports.secret
  op n provider cx upstream := ports.call n provider cx (Addressed.withModel req upstream)
  meanwhile := ports.meanwhile

namespace Entry

/-- The request that is dispatched. -/
def dispatching (c : Entry) (model : String) : Dispatch.Request :=
  ⟨c.topo, model, c.requestId, c.key, c.now, c.cooldownSecs⟩

/-- The payload of the opening event, if the operator wants payloads. -/
def payload {ρ : Type} (c : Entry) (codec : Codec ρ) (req : ρ) : Option Value :=
  if c.includePayloads then codec.toValue req else none

/-- The state an entry point finds. -/
def pos (c : Entry) : Pos := ⟨c.world, 0, 0⟩

/-- Dispatch over the chain of `model`, then what follows an answer. -/
def through {τ β : Type} (c : Entry) (model : String) (env : Dispatch.Env τ)
    (payload : Option Value) (tail : Dispatched τ → Pos → Ended β) : Ended β :=
  let f := Dispatch.dispatch (c.dispatching model) env c.rateMaxWait payload c.world
  match f.outcome with
  | .ok d =>
    let t := tail d f.acc.pos
    { t with events := f.acc.events ++ t.events }
  | .error e => ⟨.error e, f.acc.events, [], f.acc.pos⟩
  | .panicked => ⟨.panicked, f.acc.events, [], f.acc.pos⟩

/-- Screen, then dispatch. -/
def screened {ρ τ β : Type} [Addressed ρ] (c : Entry) (codec : Codec ρ) (ports : Ports ρ τ)
    (req : ρ) (tail : Dispatched τ → Pos → Ended β) : Ended β :=
  let logicalModel := Addressed.model req
  match screenRequest c.interceptor codec req c.key logicalModel with
  | .error e => ⟨.error e, [], [], c.pos⟩
  | .ok req => c.through logicalModel (ports.env req) (c.payload codec req) tail

end Entry

/-! ### Streams -/

/-- The elements of a stream that an instrumented stream looks into. -/
structure Reports (α : Type) where
  report : α → Option Usage × Option FinishReason
  ofUsage : Usage → α
  report_ofUsage : ∀ u, report (ofUsage u) = (some u, none)

def chatReports : Reports StreamChunk := ⟨StreamChunk.report, .usage, fun _ => rfl⟩

def audioReports : Reports AudioChunk := ⟨AudioChunk.report, .usage, fun _ => rfl⟩

/-- What a drained stream yielded, and whether the task unwound instead of ending it. -/
structure Yielded (α : Type) where
  items : List (Except ModelError α)
  unwound : Bool

/-- A drained stream, with its accounting. -/
structure Drained (α : Type) extends Yielded α where
  events : List Event
  debits : List Debit
  pos : Pos

/-- The stream that first yields an element. -/
def Drained.after {α : Type} (rest : Drained α) (chunk : α) (events : List Event)
    (debits : List Debit) : Drained α :=
  { rest with
    items := .ok chunk :: rest.items
    events := events ++ rest.events
    debits := debits ++ rest.debits }

section

variable {α : Type} (reports : Reports α) (pricing : Pricing) (meanwhile : ℕ → World → World)
  (debitClock : ℕ → Instant) (d : Dispatched (List (Except ModelError α)))

/-- The rest of an instrumented stream, with the finish reason seen so far. -/
def drain : Option FinishReason → List (Except ModelError α) → Pos → Drained α
  | finish, [], p =>
    ⟨⟨[], false⟩, [.requestCompleted d.requestId finish], [], p.drop d.guard⟩
  | _, .error e :: _, p =>
    ⟨⟨[.error e], false⟩, [.requestFailed d.requestId e.text], [], p.drop d.guard⟩
  | finish, .ok chunk :: items, p =>
    match reports.report chunk with
    | (some u, _) =>
      let priced := pricing.price d.logicalModel u
      let p := p.pause meanwhile
      let debit := d.debit priced.totalTokens (debitClock p.moments) p
      match debit.made with
      | (.panic, store) => ⟨⟨[], true⟩, [], [debit], (p.withStore store).drop d.guard⟩
      | (_, store) =>
        (drain finish items (p.withStore store)).after (reports.ofUsage priced)
          [.usage d.requestId d.key d.logicalModel priced] [debit]
    | (none, some reason) => (drain (some reason) items p).after chunk [] []
    | (none, none) => (drain finish items p).after chunk [] []

/-- Instrument the stream a dispatch has handed back, and drain it. -/
def instrumentWith (p : Pos) : Ended (Yielded α) :=
  let s := drain reports pricing meanwhile debitClock d none d.value p
  ⟨.ok s.toYielded, s.events, s.debits, s.pos⟩

end

/-- The instrumented stream of a chat, drained. -/
def instrument (pricing : Pricing) (meanwhile : ℕ → World → World) (debitClock : ℕ → Instant)
    (d : Dispatched (List (Except ModelError StreamChunk))) (p : Pos) :
    Ended (Yielded StreamChunk) :=
  instrumentWith chatReports pricing meanwhile debitClock d p

/-- The instrumented stream of a speech, drained. -/
def instrumentAudio (pricing : Pricing) (meanwhile : ℕ → World → World) (debitClock : ℕ → Instant)
    (d : Dispatched (List (Except ModelError AudioChunk))) (p : Pos) : Ended (Yielded AudioChunk) :=
  instrumentWith audioReports pricing meanwhile debitClock d p

/-! ### Responses -/

/-- Account for a response: `rule` says how its usage is priced. -/
def finishBatch {τ : Type} [Reporting τ] (rule : String → Usage → Usage)
    (meanwhile : ℕ → World → World) (debitClock : ℕ → Instant) (d : Dispatched τ) (p : Pos) :
    Ended τ :=
  let usage := rule d.logicalModel (Reporting.usage d.value)
  let p := p.pause meanwhile
  let debit := d.debit usage.totalTokens (debitClock p.moments) p
  match debit.made with
  | (.panic, store) => ⟨.panicked, [], [debit], (p.withStore store).drop d.guard⟩
  | (_, store) =>
    ⟨.ok (Reporting.withUsage d.value usage),
      emitBatchTail d.requestId d.key d.logicalModel usage, [debit], (p.withStore store).drop d.guard⟩

/-- The rule of decisions: a reported cost stays. -/
def Pricing.keepReported (pricing : Pricing) (model : String) (usage : Usage) : Usage :=
  if usage.costUsd.isNone then pricing.price model usage else usage

namespace Entry

section

variable (c : Entry)

def run (codec : Codec ChatRequest) (ports : Ports ChatRequest (List (Except ModelError StreamChunk)))
    (req : ChatRequest) : Ended (Yielded StreamChunk) :=
  c.screened codec ports req <| instrument c.pricing ports.meanwhile ports.debitClock

def embed (codec : Codec EmbeddingRequest) (ports : Ports EmbeddingRequest EmbeddingResponse)
    (req : EmbeddingRequest) : Ended EmbeddingResponse :=
  c.screened codec ports req <| finishBatch c.pricing.price ports.meanwhile ports.debitClock

def rerank (codec : Codec RerankRequest) (ports : Ports RerankRequest RerankResponse)
    (req : RerankRequest) : Ended RerankResponse :=
  c.screened codec ports req <| finishBatch c.pricing.price ports.meanwhile ports.debitClock

def decisions (codec : Codec DecisionsRequest) (ports : Ports DecisionsRequest DecisionsResponse)
    (req : DecisionsRequest) : Ended DecisionsResponse :=
  c.screened codec ports req <| finishBatch c.pricing.keepReported ports.meanwhile ports.debitClock

def speech (codec : Codec SpeechRequest) (ports : Ports SpeechRequest (List (Except ModelError AudioChunk)))
    (req : SpeechRequest) : Ended (Yielded AudioChunk) :=
  c.screened codec ports req <| instrumentAudio c.pricing ports.meanwhile ports.debitClock

def transcribe (codec : Codec TranscriptionRequest)
    (ports : Ports TranscriptionRequest TranscriptionResponse) (req : TranscriptionRequest) :
    Ended TranscriptionResponse :=
  c.screened codec ports req <| finishBatch c.pricing.price ports.meanwhile ports.debitClock

/-- A lookup: nothing is screened, priced or debited. -/
def voices (env : Dispatch.Env (List VoiceInfo)) (model : String) : Ended (List VoiceInfo) :=
  c.through model env none fun d p =>
    ⟨.ok d.value, [.requestCompleted d.requestId none], [], p.drop d.guard⟩

end

end Entry

/-! ## Consumers -/

/-- A request of a consumer, with what its call does not control. -/
inductive Consumer where
  | run (codec : Codec ChatRequest)
      (ports : Ports ChatRequest (List (Except ModelError StreamChunk))) (req : ChatRequest)
  | embed (codec : Codec EmbeddingRequest) (ports : Ports EmbeddingRequest EmbeddingResponse)
      (req : EmbeddingRequest)
  | rerank (codec : Codec RerankRequest) (ports : Ports RerankRequest RerankResponse)
      (req : RerankRequest)
  | decisions (codec : Codec DecisionsRequest) (ports : Ports DecisionsRequest DecisionsResponse)
      (req : DecisionsRequest)
  | speech (codec : Codec SpeechRequest)
      (ports : Ports SpeechRequest (List (Except ModelError AudioChunk))) (req : SpeechRequest)
  | transcribe (codec : Codec TranscriptionRequest)
      (ports : Ports TranscriptionRequest TranscriptionResponse) (req : TranscriptionRequest)
  | voices (env : Dispatch.Env (List VoiceInfo)) (model : String)

/-- What a finished request shows: to the event bus, to the limiter and to its consumer. -/
structure Trace where
  events : List Event
  debits : List Debit
  /-- The call returned an error, or its stream yielded one. -/
  failed : Bool
  /-- The usage reports the consumer sees. -/
  seen : List Usage

/-- The trace of an entry point, read off its value by `failed` and `seen`. -/
def Ended.trace {β : Type} (t : Ended β) (failed : β → Bool) (seen : β → List Usage) : Trace :=
  match t.answer with
  | .ok value => ⟨t.events, t.debits, failed value, seen value⟩
  | .error _ => ⟨t.events, t.debits, true, []⟩
  | .panicked => ⟨t.events, t.debits, false, []⟩

/-- Whether a stream yielded an error. -/
def Yielded.failed {α : Type} (y : Yielded α) : Bool :=
  y.items.any fun
    | .error _ => true
    | .ok _ => false

/-- The usage reports a stream yielded. -/
def Yielded.seen {α : Type} (reports : Reports α) (y : Yielded α) : List Usage :=
  y.items.filterMap fun
    | .error _ => none
    | .ok chunk => (reports.report chunk).1

/-- The trace of an instrumented stream. -/
def Ended.streamTrace {α : Type} (reports : Reports α) (t : Ended (Yielded α)) : Trace :=
  t.trace Yielded.failed (Yielded.seen reports)

/-- The trace of a response. -/
def Ended.batchTrace {τ : Type} [Reporting τ] (t : Ended τ) : Trace :=
  t.trace (fun _ => false) fun value => [Reporting.usage value]

/-- The trace of a request. -/
def Consumer.trace (c : Entry) : Consumer → Trace
  | .run codec ports req => (c.run codec ports req).streamTrace chatReports
  | .embed codec ports req => (c.embed codec ports req).batchTrace
  | .rerank codec ports req => (c.rerank codec ports req).batchTrace
  | .decisions codec ports req => (c.decisions codec ports req).batchTrace
  | .speech codec ports req => (c.speech codec ports req).streamTrace audioReports
  | .transcribe codec ports req => (c.transcribe codec ports req).batchTrace
  | .voices env model => (c.voices env model).trace (fun _ => false) fun _ => []

end Llmleaf
