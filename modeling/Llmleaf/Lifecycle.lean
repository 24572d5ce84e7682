import Llmleaf.Batch
import Llmleaf.Dispatch

/-!
# Lifecycle events

What the node emits for an authenticated request: an opening event, what the walk over the chain
meets, the usage the provider reports and a closing event. The engine is handed the caller's
identity as `key` and puts it into the events that account for something.

- `instrumentStream`, `emitBatchTail`: the events after a provider has answered.
- `Operation.events`: the events of every operation the server runs for a caller.
- **Result** (`Operation.events_named`): they name the identity handed to the operation, or none.
-/

namespace Llmleaf

/-- The key an event accounts for. -/
def Event.key : Event → Option String
  | .requestStarted _ key _ _ | .usage _ key _ _ => some key
  | _ => none

/-- All events that name a key name this one. -/
def NamesOnly (key : String) (es : List Event) : Prop := ∀ e ∈ es, ∀ k, e.key = some k → k = key

section

variable {key : String} {es es' : List Event} {e : Event}

theorem namesOnly_nil : NamesOnly key [] := nofun

theorem namesOnly_cons : NamesOnly key (e :: es) ↔ (∀ k, e.key = some k → k = key) ∧ NamesOnly key es :=
  List.forall_mem_cons

theorem NamesOnly.append (h : NamesOnly key es) (h' : NamesOnly key es') :
    NamesOnly key (es ++ es') :=
  List.forall_mem_append.mpr ⟨h, h'⟩

theorem NamesOnly.cons (h : NamesOnly key es) (he : e.key = some key ∨ e.key = none) :
    NamesOnly key (e :: es) := by
  refine namesOnly_cons.mpr ⟨fun k hk => ?_, h⟩
  rcases he with he | he <;> rw [he] at hk
  · exact (Option.some.inj hk).symm
  · cases hk

end

/-! ## After an answer -/

/-- One element of a speech stream. -/
inductive AudioChunk where
  | start (contentType : String)
  | data (bytes : List UInt8)
  | usage (usage : Usage)
  | finish

/-- The usage and the finish reason a chat chunk reports. -/
def StreamChunk.report : StreamChunk → Option Usage × Option FinishReason
  | .usage u => (some u, none)
  | .finish _ reason => (none, some reason)
  | _ => (none, none)

/-- The usage an audio chunk reports. -/
def AudioChunk.report : AudioChunk → Option Usage × Option FinishReason
  | .usage u => (some u, none)
  | _ => (none, none)

section

variable {α : Type} (price : String → Usage → Usage) (report : α → Option Usage × Option FinishReason)
  (requestId key model : String)

/-- The events of a stream that is read to its end (`ended`), to an error or as far as the consumer
stays. -/
def instrumentStream (ended : Bool) : Option FinishReason → List (Except ModelError α) → List Event
  | finish, [] => if ended then [.requestCompleted requestId finish] else []
  | _, .error e :: _ => [.requestFailed requestId e.text]
  | finish, .ok chunk :: items =>
    match report chunk with
    | (some u, _) =>
      .usage requestId key model (price model u) :: instrumentStream ended finish items
    | (none, some reason) => instrumentStream ended (some reason) items
    | (none, none) => instrumentStream ended finish items

/-- The events after a batch modality has answered. -/
def emitBatchTail (usage : Usage) : List Event :=
  [.usage requestId key model usage, .requestCompleted requestId none]

theorem instrumentStream_named (ended : Bool) (finish : Option FinishReason)
    (items : List (Except ModelError α)) :
    NamesOnly key (instrumentStream price report requestId key model ended finish items) := by
  induction items generalizing finish with
  | nil =>
    rw [instrumentStream]
    split
    · exact namesOnly_nil.cons (.inr rfl)
    · exact namesOnly_nil
  | cons item items ih =>
    cases item with
    | error e => exact namesOnly_nil.cons (.inr rfl)
    | ok chunk =>
      rw [instrumentStream]
      split
      · exact (ih finish).cons (.inl rfl)
      · exact ih _
      · exact ih _

theorem emitBatchTail_named (usage : Usage) :
    NamesOnly key (emitBatchTail requestId key model usage) :=
  (namesOnly_nil.cons (.inr rfl)).cons (.inl rfl)

end

/-! ## Through the dispatch -/

namespace Dispatch

variable {τ : Type}

/-- The accumulators at the end of a pass or a walk. -/
def Flow.acc : Flow τ → Acc τ
  | .next a | .served a _ _ _ | .panicked a => a

section

variable (r : Request) (env : Env τ) {key : String}

/-- A visit emits nothing that names a key. -/
theorem record_named {a : Acc τ} (h : NamesOnly key a.events) (honorCooldown : Bool)
    (target : Target) (v : Visit τ) (p : Pos) :
    NamesOnly key (a.record r honorCooldown target v p).events := by
  cases v with
  | cooled | unregistered | limited | unsupported | panicked => exact h
  | failed => exact h.append (namesOnly_nil.cons (.inr rfl))
  | served => exact h.append (namesOnly_nil.cons (.inr rfl))

theorem pass_named (honorCooldown : Bool) (walkNow : Instant) (targets : List Target) {a : Acc τ}
    (h : NamesOnly key a.events) :
    NamesOnly key (pass r env honorCooldown walkNow targets a).acc.events := by
  induction targets generalizing a with
  | nil => exact h
  | cons target targets ih =>
    rcases hv : visit r env honorCooldown walkNow target a.pos with ⟨v, p⟩
    have hrec := record_named r h honorCooldown target v p
    rw [pass, hv]
    cases v with
    | served | panicked => exact hrec
    | cooled | unregistered | limited | unsupported | failed => exact ih hrec

theorem walk_named (walkNow : Instant) (targets : List Target) {a : Acc τ}
    (h : NamesOnly key a.events) : NamesOnly key (walk r env walkNow targets a).acc.events := by
  have hfirst := pass_named r env true walkNow targets h
  rw [walk]
  split
  · rename_i a' ha'
    rw [ha'] at hfirst
    split
    · exact hfirst
    · exact pass_named r env false walkNow targets hfirst
  · exact hfirst

/-- What the loop emits, and the identity it hands back. -/
theorem loop_named (targets : List Target) (budget : Duration) (walks : ℕ) {a : Acc τ}
    (h : NamesOnly key a.events) :
    let f := loop r env targets budget walks a
    NamesOnly key f.acc.events ∧ ∀ d, f.outcome = .ok d → d.key = r.key := by
  induction budget using Nat.strong_induction_on generalizing walks a with
  | _ budget ih =>
    have hwalk := walk_named r env (env.clock walks) targets (a := a.restart) h
    rw [loop]
    rcases hw : walk r env (env.clock walks) targets a.restart with
      ⟨a'⟩ | ⟨a', target, value, guard⟩ | ⟨a'⟩ <;> rw [hw] at hwalk
    · have hfail : ∀ text, NamesOnly key (a'.events ++ [.requestFailed r.requestId text]) :=
        fun _ => hwalk.append (namesOnly_nil.cons (.inr rfl))
      dsimp only
      split
      · split
        · exact ⟨hfail _, fun d hd => by cases hd⟩
        · rename_i hnap
          exact ih _ (Nat.sub_lt_self (Nat.pos_of_ne_zero hnap) (Nat.min_le_right _ _)) _ hwalk
      · exact ⟨hfail _, fun d hd => by cases hd⟩
    · refine ⟨hwalk, fun d hd => ?_⟩
      cases hd
      rfl
    · exact ⟨hwalk, fun d hd => by cases hd⟩

theorem dispatch_named (rateMaxWait : Duration) (payload : Option Value) (world : World) :
    let f := dispatch r env rateMaxWait payload world
    NamesOnly r.key f.acc.events ∧ ∀ d, f.outcome = .ok d → d.key = r.key := by
  rw [dispatch]
  split
  · exact ⟨namesOnly_nil, nofun⟩
  · exact ⟨namesOnly_nil, nofun⟩
  · exact loop_named r env _ _ _ (namesOnly_nil.cons (.inl rfl))

end

end Dispatch

/-! ## Operations -/

/-- A request on its way to the dispatch, unless an interceptor blocks it. -/
structure DispatchCall (τ : Type) where
  blocked : Bool
  request : Dispatch.Request
  env : Dispatch.Env τ
  rateMaxWait : Duration
  payload : Option Value
  world : Dispatch.World

/-- The events of a dispatch for the caller `key`, and what follows an answer. -/
def DispatchCall.events {τ : Type} (c : DispatchCall τ) (key : String)
    (tail : Dispatch.Dispatched τ → List Event) : List Event :=
  if c.blocked then []
  else
    let f :=
      Dispatch.dispatch { c.request with key := key } c.env c.rateMaxWait c.payload c.world
    f.acc.events ++
      match f.outcome with
      | .ok d => tail d
      | _ => []

/-- A streamed response and how many of its elements the consumer asks for: all of them and the end
after them, if it asks for more than there are. -/
structure Streaming (α : Type) where
  call : DispatchCall (List (Except ModelError α))
  asked : ℕ

/-- How a native realtime session ends. -/
inductive NativeEnd where
  | completed
  | failed (error : String)
  /-- Nothing was forwarded: the turns of the chat bridge on the same socket. -/
  | fellBack (turns : List (Streaming StreamChunk))

/-- A native realtime session, with the usage each forwarded frame reports. -/
structure NativeRealtime where
  model : String
  requestId : String
  provider : String
  upstreamModel : String
  frames : List (Option Usage)
  ending : NativeEnd

/-- What the server runs for an authenticated caller. -/
inductive Operation where
  | run (s : Streaming StreamChunk)
  | speech (s : Streaming AudioChunk)
  | embed (c : DispatchCall Usage)
  | rerank (c : DispatchCall Usage)
  | transcribe (c : DispatchCall Usage)
  | decisions (c : DispatchCall Usage)
  | voices (c : DispatchCall Unit)
  | batchCreate (topo : Topology) (signer : Option BatchId.BatchIdSigner) (up : BatchUpstream)
      (spec : BatchSpec) (requestId : String) (payload : BatchSpec → Option Value)
  | batchResults (topo : Topology) (signer : Option BatchId.BatchIdSigner) (up : BatchUpstream)
      (batchId requestId : String) (asked : ℕ)
  | bridge (model requestId : String) (turns : List (Streaming StreamChunk))
  | native (session : NativeRealtime)

section

variable (price : String → Usage → Usage) (key : String)

/-- The events of a streamed response. -/
def Streaming.events {α : Type} (report : α → Option Usage × Option FinishReason)
    (s : Streaming α) : List Event :=
  s.call.events key fun d =>
    instrumentStream price report d.requestId d.key d.logicalModel (d.value.length < s.asked) none
      (d.value.take s.asked)

/-- The events of a batch modality. -/
def DispatchCall.batchEvents (c : DispatchCall Usage) : List Event :=
  c.events key fun d => emitBatchTail d.requestId d.key d.logicalModel (price d.logicalModel d.value)

/-- The events of a native realtime session. -/
def NativeRealtime.events (n : NativeRealtime) : List Event :=
  [.requestStarted n.requestId key n.model none,
    .requestRouted n.requestId n.provider n.upstreamModel] ++
  n.frames.filterMap (·.map fun u => .usage n.requestId key n.model (price n.model u)) ++
  match n.ending with
  | .completed => [.requestCompleted n.requestId none]
  | .failed error => [.requestFailed n.requestId error]
  | .fellBack turns =>
    turns.flatMap (·.events price key StreamChunk.report) ++ [.requestCompleted n.requestId none]

/-- The events of an operation for the caller `key`, in order. -/
def Operation.events : Operation → List Event
  | .run s => s.events price key StreamChunk.report
  | .speech s => s.events price key AudioChunk.report
  | .embed c | .rerank c | .transcribe c => c.batchEvents price key
  | .decisions c =>
    c.events key fun d =>
      emitBatchTail d.requestId d.key d.logicalModel
        (if d.value.costUsd.isNone then price d.logicalModel d.value else d.value)
  | .voices c => c.events key fun d => [.requestCompleted d.requestId none]
  | .batchCreate topo signer up spec requestId payload =>
    (Llmleaf.batchCreate topo signer up spec key requestId payload).2
  | .batchResults topo signer up batchId requestId asked =>
    match Llmleaf.batchResults topo signer up batchId key requestId with
    | .error _ => []
    | .ok results => (results.take asked).flatMap Prod.snd
  | .bridge model requestId turns =>
    .requestStarted requestId key model none ::
      (turns.flatMap (·.events price key StreamChunk.report) ++ [.requestCompleted requestId none])
  | .native session => session.events price key

/-! ## Whom the events name -/

variable {price key}

theorem NamesOnly.flatMap {α : Type} {l : List α} {f : α → List Event}
    (h : ∀ a ∈ l, NamesOnly key (f a)) : NamesOnly key (l.flatMap f) := by
  intro e he
  obtain ⟨a, ha, he⟩ := List.mem_flatMap.mp he
  exact h a ha e he

theorem DispatchCall.events_named {τ : Type} {c : DispatchCall τ}
    {tail : Dispatch.Dispatched τ → List Event} (htail : ∀ d, d.key = key → NamesOnly key (tail d)) :
    NamesOnly key (c.events key tail) := by
  obtain ⟨hevents, hkey⟩ := Dispatch.dispatch_named { c.request with key := key } c.env
    c.rateMaxWait c.payload c.world
  rw [DispatchCall.events]
  split
  · exact namesOnly_nil
  · refine hevents.append ?_
    split
    · rename_i d hd
      exact htail d (hkey d hd)
    · exact namesOnly_nil

theorem Streaming.events_named {α : Type} (report : α → Option Usage × Option FinishReason)
    (s : Streaming α) : NamesOnly key (s.events price key report) := by
  refine DispatchCall.events_named fun d hd => ?_
  rw [hd]
  exact instrumentStream_named _ _ _ _ _ _ _ _

theorem DispatchCall.batchEvents_named (c : DispatchCall Usage) :
    NamesOnly key (c.batchEvents price key) := by
  refine DispatchCall.events_named fun d hd => ?_
  rw [hd]
  exact emitBatchTail_named _ _ _ _

theorem NativeRealtime.events_named (n : NativeRealtime) :
    NamesOnly key (n.events price key) := by
  have husage : NamesOnly key
      (n.frames.filterMap (·.map fun u => Event.usage n.requestId key n.model (price n.model u))) := by
    intro e he
    obtain ⟨frame, _, he⟩ := List.mem_filterMap.mp he
    obtain ⟨u, _, rfl⟩ := Option.map_eq_some_iff.mp he
    exact fun k hk => (Option.some.inj hk).symm
  refine (((namesOnly_nil.cons (.inr rfl)).cons (.inl rfl)).append husage).append ?_
  split
  · exact namesOnly_nil.cons (.inr rfl)
  · exact namesOnly_nil.cons (.inr rfl)
  · exact (NamesOnly.flatMap fun s _ => s.events_named _).append (namesOnly_nil.cons (.inr rfl))

theorem batchCreate_named (topo : Topology) (signer : Option BatchId.BatchIdSigner)
    (up : BatchUpstream) (spec : BatchSpec) (requestId : String)
    (payload : BatchSpec → Option Value) :
    NamesOnly key (batchCreate topo signer up spec key requestId payload).2 := by
  unfold batchCreate
  split
  · exact namesOnly_nil
  split
  · exact namesOnly_nil
  split
  · exact namesOnly_nil
  dsimp only
  split
  · exact ((namesOnly_nil.cons (.inr rfl)).cons (.inr rfl)).cons (.inl rfl)
  · exact (namesOnly_nil.cons (.inr rfl)).cons (.inl rfl)

theorem instrumentResult_named (batchId : String) (item : Except ModelError BatchResult) :
    NamesOnly key (instrumentResult price batchId key item).2 := by
  unfold instrumentResult
  split
  · exact namesOnly_nil
  split
  · exact namesOnly_nil.cons (.inl rfl)
  · exact namesOnly_nil

theorem batchResults_named {topo : Topology} {signer : Option BatchId.BatchIdSigner}
    {up : BatchUpstream} {batchId requestId : String}
    {results : List (Except ModelError BatchResult × List Event)}
    (h : batchResults topo signer up batchId key requestId = .ok results) :
    ∀ r ∈ results, NamesOnly key r.2 := by
  unfold batchResults at h
  split at h
  · cases h
  split at h
  · cases h
  · cases h
    intro r hr
    obtain ⟨item, _, rfl⟩ := List.mem_map.mp hr
    exact instrumentResult_named batchId item

/-- **The events of an operation name the identity it runs for, or none.** -/
theorem Operation.events_named (op : Operation) : NamesOnly key (op.events price key) := by
  cases op with
  | run s | speech s => exact s.events_named _
  | embed c | rerank c | transcribe c => exact c.batchEvents_named
  | decisions c =>
    refine DispatchCall.events_named fun d hd => ?_
    rw [hd]
    exact emitBatchTail_named _ _ _ _
  | voices c => exact DispatchCall.events_named fun d _ => namesOnly_nil.cons (.inr rfl)
  | batchCreate topo signer up spec requestId payload =>
    exact Llmleaf.batchCreate_named topo signer up spec requestId payload
  | batchResults topo signer up batchId requestId asked =>
    rw [Operation.events]
    split
    · exact namesOnly_nil
    · rename_i results h
      exact NamesOnly.flatMap fun r hr => batchResults_named h r (List.mem_of_mem_take hr)
  | bridge model requestId turns =>
    exact ((NamesOnly.flatMap fun s _ => s.events_named _).append
      (namesOnly_nil.cons (.inr rfl))).cons (.inl rfl)
  | native session => exact session.events_named

end

end Llmleaf
