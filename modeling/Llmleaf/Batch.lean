import Llmleaf.BatchId
import Llmleaf.Chat
import Llmleaf.Topology

/-!
# Batches

A batch is one job at one upstream. Creating it resolves the provider that will own it and wraps the
upstream's id; polling, canceling and fetching results find the provider again from the id alone and,
with a signer, admit only the key the id binds.

- `parseBatchCreate`: what is accepted as a batch.
- `batchCreate`, `batchRetrieve`, `batchCancel`, `batchResults`: the four calls.
- `batchAccess`: what the last three do before they call the provider; `denied_iff`: they answer
  `batchNotFound` exactly when it does.
- `batchAccess_encoded`: who gets access by an id a node has handed out.
-/

namespace Llmleaf

open BatchId

/-! ## The batch model -/

/-- One request of a batch. -/
structure BatchItem where
  customId : String
  request : ChatRequest
  deriving DecidableEq

/-- A submission. -/
structure BatchSpec where
  items : List BatchItem
  deriving DecidableEq

inductive BatchStatus where
  | validating
  | inProgress
  | finalizing
  | completed
  | failed
  | expired
  | canceling
  | canceled
  deriving DecidableEq

structure BatchCounts where
  total : ℕ
  processing : ℕ
  succeeded : ℕ
  errored : ℕ
  canceled : ℕ
  expired : ℕ
  deriving DecidableEq

/-- A batch job. The id is the upstream's until it is wrapped. -/
structure BatchHandle where
  id : String
  status : BatchStatus
  counts : BatchCounts
  createdAt : Option ℕ
  expiresAt : Option ℕ
  endedAt : Option ℕ
  endpoint : Option String
  extra : Map
  deriving DecidableEq

/-- What became of one request. -/
inductive BatchOutcome where
  | succeeded (response : ChatResponse)
  | errored (status : ℕ) (message : String)
  | canceled
  | expired
  deriving DecidableEq

structure BatchResult where
  customId : String
  outcome : BatchOutcome
  deriving DecidableEq

/-- The answers of the providers, and what the node reads outside its own state. -/
structure BatchUpstream where
  secret : Secret → Option String
  price : String → Usage → Usage
  create : Instance → ProviderCx → BatchSpec → Except ModelError BatchHandle
  retrieve : Instance → ProviderCx → String → Except ModelError BatchHandle
  cancel : Instance → ProviderCx → String → Except ModelError BatchHandle
  results : Instance → ProviderCx → String →
    Except ModelError (List (Except ModelError BatchResult))

/-! ## Parsing a submission -/

/-- One request of a submission; its body is read by the parser of chat requests. -/
def parseBatchLine (parseChatRequest : Value → Except ModelError ChatRequest) (entry : Value) :
    Except ModelError BatchItem :=
  match entry with
  | .object line =>
    match (Value.object line).get "custom_id" with
    | some (.string s) =>
      if s = "" then .error (.mapping "each request needs a non-empty string `custom_id`")
      else
        match (Value.object line).get "body" with
        | none => .error (.mapping "each request needs a `body`")
        | some body => (parseChatRequest body).map fun request => ⟨s, request⟩
    | _ => .error (.mapping "each request needs a non-empty string `custom_id`")
  | _ => .error (.mapping "each request must be an object")

/-- A submission. The ids of its requests are not compared. -/
def parseBatchCreate (parseChatRequest : Value → Except ModelError ChatRequest) (value : Value) :
    Except ModelError BatchSpec :=
  match value with
  | .object obj =>
    match ((Value.object obj).get "requests").or ((Value.object obj).get "input") with
    | some (.array []) => .error (.mapping "`requests` must not be empty")
    | some (.array requests) => (requests.mapM (parseBatchLine parseChatRequest)).map BatchSpec.mk
    | _ => .error (.mapping "`requests` is required and must be an array")
  | _ => .error (.mapping "batch body must be a JSON object")

section

variable {parseChatRequest : Value → Except ModelError ChatRequest}

theorem parseBatchLine_ok {entry : Value} {item : BatchItem}
    (h : parseBatchLine parseChatRequest entry = .ok item) : item.customId ≠ "" := by
  unfold parseBatchLine at h
  split at h
  · split at h
    · split at h
      · cases h
      · rename_i hne
        split at h
        · cases h
        · rename_i body _
          cases hreq : parseChatRequest body with
          | error e => rw [hreq] at h; cases h
          | ok request =>
            rw [hreq] at h
            cases h
            exact hne
    · cases h
  · cases h

theorem parseBatchLines_ok {requests : List Value} {items : List BatchItem}
    (h : requests.mapM (parseBatchLine parseChatRequest) = .ok items) :
    items.length = requests.length ∧ ∀ item ∈ items, item.customId ≠ "" := by
  induction requests generalizing items with
  | nil => cases h; exact ⟨rfl, fun _ h => absurd h List.not_mem_nil⟩
  | cons entry requests ih =>
    rw [List.mapM_cons] at h
    cases hline : parseBatchLine parseChatRequest entry with
    | error e => rw [hline] at h; cases h
    | ok item =>
      cases hlines : requests.mapM (parseBatchLine parseChatRequest) with
      | error e => rw [hline, hlines] at h; cases h
      | ok rest =>
        rw [hline, hlines] at h
        cases h
        obtain ⟨hlength, hids⟩ := ih hlines
        exact ⟨congrArg (· + 1) hlength, List.forall_mem_cons.mpr ⟨parseBatchLine_ok hline, hids⟩⟩

/-- What is accepted has requests, and each has an id. -/
theorem parseBatchCreate_ok {value : Value} {spec : BatchSpec}
    (h : parseBatchCreate parseChatRequest value = .ok spec) :
    spec.items ≠ [] ∧ ∀ item ∈ spec.items, item.customId ≠ "" := by
  unfold parseBatchCreate at h
  split at h
  · split at h
    · cases h
    · rename_i requests hne _
      cases hlines : requests.mapM (parseBatchLine parseChatRequest) with
      | error e => rw [hlines] at h; cases h
      | ok items =>
        rw [hlines] at h
        cases h
        obtain ⟨hlength, hids⟩ := parseBatchLines_ok hlines
        refine ⟨fun hnil => ?_, hids⟩
        rw [show items = [] from hnil] at hlength
        exact hne (List.length_eq_zero_iff.mp hlength.symm)
    · cases h
  · cases h

/-- Any ids are accepted, equal ones too. -/
theorem parseBatchCreate_ids {items : List (BatchItem × Value)} (hne : items ≠ [])
    (hids : ∀ e ∈ items, e.1.customId ≠ "")
    (hbody : ∀ e ∈ items, parseChatRequest e.2 = .ok e.1.request) :
    parseBatchCreate parseChatRequest (.object [("requests", .array (items.map fun e =>
      .object [("body", e.2), ("custom_id", .string e.1.customId)]))]) =
      .ok ⟨items.map Prod.fst⟩ := by
  have hlines : (items.map fun e => Value.object
      [("body", e.2), ("custom_id", .string e.1.customId)]).mapM
        (parseBatchLine parseChatRequest) = .ok (items.map Prod.fst) := by
    clear hne
    induction items with
    | nil => rfl
    | cons e items ih =>
      obtain ⟨hid, hids⟩ := List.forall_mem_cons.mp hids
      obtain ⟨hreq, hbody⟩ := List.forall_mem_cons.mp hbody
      have hline : parseBatchLine parseChatRequest
          (.object [("body", e.2), ("custom_id", .string e.1.customId)]) = .ok e.1 := by
        simp [parseBatchLine, Value.get, hid, hreq, Except.map]
      rw [List.map_cons, List.mapM_cons, hline, ih hids hbody]
      rfl
  obtain ⟨e, rest, rfl⟩ := List.exists_cons_of_ne_nil hne
  simp only [parseBatchCreate, Value.get, List.map_cons] at hlines ⊢
  simp [hlines, Except.map]

end

/-! ## Creating -/

/-- Resolve one item: its provider, and the item with its upstream model. -/
def resolveItem (topo : Topology) (chosen : Option String) (item : BatchItem) :
    Except EngineError (String × BatchItem) :=
  match topo.router.resolve item.request.model with
  | none => .error (.noRoute item.request.model)
  | some [] => .error (.noTargets item.request.model)
  | some (primary :: _) =>
    if chosen.any (· != primary.provider) then .error .mixedProviderBatch
    else
      .ok (primary.provider,
        match primary.model with
        | some upstream => { item with request := { item.request with model := upstream } }
        | none => item)

/-- Resolve the items one after the other. -/
def resolveItems (topo : Topology) :
    Option String → List BatchItem → Except EngineError (Option String × List BatchItem)
  | chosen, [] => .ok (chosen, [])
  | chosen, item :: items =>
    match resolveItem topo chosen item with
    | .error e => .error e
    | .ok (provider, item) =>
      match resolveItems topo (some provider) items with
      | .error e => .error e
      | .ok (chosen, items) => .ok (chosen, item :: items)

/-- The provider of a batch, the model it was routed by and the rewritten submission. -/
def resolveBatch (topo : Topology) (spec : BatchSpec) :
    Except EngineError (String × String × BatchSpec) :=
  match resolveItems topo none spec.items with
  | .error e => .error e
  | .ok (chosen, items) =>
    .ok (chosen.getD "", (spec.items.head?.map (·.request.model)).getD "", ⟨items⟩)

/-- Submit a batch; also the events it emits. -/
def batchCreate (topo : Topology) (signer : Option BatchIdSigner) (up : BatchUpstream)
    (spec : BatchSpec) (key requestId : String) (payload : BatchSpec → Option Value) :
    Except EngineError BatchHandle × List Event :=
  if spec.items = [] then (.error .emptyBatch, [])
  else
    match resolveBatch topo spec with
    | .error e => (.error e, [])
    | .ok (provider, routingModel, spec) =>
      match topo.registry.lookup provider with
      | none => (.error (.batchNotFound provider), [])
      | some inst =>
        let started := Event.requestStarted requestId key routingModel (payload spec)
        match up.create inst (topo.buildCx up.secret provider requestId) spec with
        | .ok handle =>
          (.ok { handle with id := encodeBatch provider handle.id key signer },
            [started, .requestRouted requestId provider (handle.endpoint.getD ""),
              .requestCompleted requestId none])
        | .error e => (.error (.allTargetsFailed e), [started, .requestFailed requestId e.text])

/-! ## Addressing a batch by its id -/

/-- Refuse a key the id does not bind. -/
def checkBatchOwner (owner : Option String) (key batchId : String) : Except EngineError Unit :=
  match owner with
  | some owner => if owner ≠ key then .error (.batchNotFound batchId) else .ok ()
  | none => .ok ()

/-- The provider an id names, and what the id says. -/
def batchTarget (topo : Topology) (signer : Option BatchIdSigner) (batchId : String) :
    Except EngineError (Instance × DecodedBatch) :=
  match decodeBatch batchId signer with
  | none => .error (.batchNotFound batchId)
  | some decoded =>
    match topo.registry.lookup decoded.provider with
    | none => .error (.batchNotFound batchId)
    | some inst => .ok (inst, decoded)

/-- The target of a batch, for a key that may address it. -/
def batchAccess (topo : Topology) (signer : Option BatchIdSigner) (batchId key : String) :
    Except EngineError (Instance × DecodedBatch) :=
  match batchTarget topo signer batchId with
  | .error e => .error e
  | .ok (inst, decoded) =>
    match checkBatchOwner decoded.owner key batchId with
    | .error e => .error e
    | .ok () => .ok (inst, decoded)

/-- Ask the provider about a job and wrap its id again. -/
def batchPoll (op : Instance → ProviderCx → String → Except ModelError BatchHandle)
    (topo : Topology) (signer : Option BatchIdSigner) (up : BatchUpstream)
    (batchId key requestId : String) : Except EngineError BatchHandle :=
  match batchAccess topo signer batchId key with
  | .error e => .error e
  | .ok (inst, decoded) =>
    match op inst (topo.buildCx up.secret decoded.provider requestId) decoded.upstream with
    | .error e => .error (.allTargetsFailed e)
    | .ok handle => .ok { handle with id := encodeBatch decoded.provider handle.id key signer }

/-- Poll the status of a batch. -/
def batchRetrieve (topo : Topology) (signer : Option BatchIdSigner) (up : BatchUpstream)
    (batchId key requestId : String) : Except EngineError BatchHandle :=
  batchPoll up.retrieve topo signer up batchId key requestId

/-- Cancel a batch. -/
def batchCancel (topo : Topology) (signer : Option BatchIdSigner) (up : BatchUpstream)
    (batchId key requestId : String) : Except EngineError BatchHandle :=
  batchPoll up.cancel topo signer up batchId key requestId

/-- Price one result and emit its usage. -/
def instrumentResult (price : String → Usage → Usage) (batchId key : String) :
    Except ModelError BatchResult → Except ModelError BatchResult × List Event
  | .error e => (.error e, [])
  | .ok result =>
    match result.outcome with
    | .succeeded resp =>
      let priced := price resp.model resp.usage
      (.ok { result with outcome := .succeeded { resp with usage := priced } },
        [.usage (batchId ++ ":" ++ result.customId) key resp.model priced])
    | _ => (.ok result, [])

/-- The results of a batch, each with the events it emits as it passes. -/
def batchResults (topo : Topology) (signer : Option BatchIdSigner) (up : BatchUpstream)
    (batchId key requestId : String) :
    Except EngineError (List (Except ModelError BatchResult × List Event)) :=
  match batchAccess topo signer batchId key with
  | .error e => .error e
  | .ok (inst, decoded) =>
    match up.results inst (topo.buildCx up.secret decoded.provider requestId) decoded.upstream with
    | .error e => .error (.allTargetsFailed e)
    | .ok results => .ok (results.map (instrumentResult up.price batchId key))

/-! ## Access -/

section

variable {topo : Topology} {signer : Option BatchIdSigner} {up : BatchUpstream}
  {batchId key requestId : String}

/-- The only way to be refused. -/
theorem batchAccess_error {e : EngineError} (h : batchAccess topo signer batchId key = .error e) :
    e = .batchNotFound batchId := by
  unfold batchAccess at h
  split at h
  · rename_i e' ht
    cases h
    unfold batchTarget at ht
    split at ht
    · cases ht; rfl
    · split at ht
      · cases ht; rfl
      · cases ht
  · split at h
    · rename_i e' hc
      cases h
      unfold checkBatchOwner at hc
      split at hc
      · split at hc
        · cases hc; rfl
        · cases hc
      · cases hc
    · cases h

/-- Access is to what the id says. -/
theorem batchAccess_decoded {inst : Instance} {decoded : DecodedBatch}
    (h : batchAccess topo signer batchId key = .ok (inst, decoded)) :
    decodeBatch batchId signer = some decoded := by
  unfold batchAccess at h
  split at h
  · cases h
  · rename_i ht
    split at h
    · cases h
    · cases h
      unfold batchTarget at ht
      split at ht
      · cases ht
      · rename_i decoded' hdec
        split at ht
        · cases ht
        · cases ht
          exact hdec

/-- A poll is refused exactly when access is. -/
theorem batchPoll_denied_iff
    (op : Instance → ProviderCx → String → Except ModelError BatchHandle) :
    batchPoll op topo signer up batchId key requestId = .error (.batchNotFound batchId) ↔
      ∃ e, batchAccess topo signer batchId key = .error e := by
  unfold batchPoll
  cases h : batchAccess topo signer batchId key with
  | error e =>
    rw [batchAccess_error h]
    exact iff_of_true rfl ⟨_, rfl⟩
  | ok r =>
    refine iff_of_false (fun hc => ?_) (fun ⟨e, he⟩ => by cases he)
    dsimp only at hc
    split at hc <;> cases hc

theorem batchResults_denied_iff :
    batchResults topo signer up batchId key requestId = .error (.batchNotFound batchId) ↔
      ∃ e, batchAccess topo signer batchId key = .error e := by
  unfold batchResults
  cases h : batchAccess topo signer batchId key with
  | error e =>
    rw [batchAccess_error h]
    exact iff_of_true rfl ⟨_, rfl⟩
  | ok r =>
    refine iff_of_false (fun hc => ?_) (fun ⟨e, he⟩ => by cases he)
    dsimp only at hc
    split at hc <;> cases hc

/-- Whether the provider an id was made for can be found from it: what is left of its name is the
name of a registered provider. -/
def Addressable (topo : Topology) (provider : String) : Prop :=
  firstField provider ≠ "" ∧ firstField provider ∈ topo.registry

instance (topo : Topology) (provider : String) : Decidable (Addressable topo provider) :=
  inferInstanceAs (Decidable (_ ∧ _))

/-- **Who gets access by a signed id**: the key that is the last field of the owner, if the provider
can be found. -/
theorem batchAccess_encoded (signer : BatchIdSigner) (provider upstreamId owner : String) :
    (∃ e, batchAccess topo (some signer)
      (encodeBatch provider upstreamId owner (some signer)) key = .error e) ↔
      ¬ Addressable topo provider ∨ key ≠ lastField owner := by
  obtain ⟨upstream, hdec⟩ := decode_encode_signed signer provider upstreamId owner
  unfold batchAccess batchTarget
  rw [hdec]
  by_cases hempty : firstField provider = ""
  · rw [if_pos hempty]
    exact iff_of_true ⟨_, rfl⟩ (.inl fun h => h.1 hempty)
  rw [if_neg hempty]
  dsimp only
  cases hreg : topo.registry.lookup (firstField provider) with
  | none =>
    exact iff_of_true ⟨_, rfl⟩ (.inl fun h => HashMap.not_mem_iff_lookup.mpr hreg h.2)
  | some inst =>
    have haddr : Addressable topo provider := ⟨hempty, HashMap.mem_iff_lookup.mpr ⟨_, hreg⟩⟩
    dsimp only [checkBatchOwner]
    by_cases hkey : lastField owner = key
    · rw [if_neg (not_not_intro hkey)]
      exact iff_of_false (fun ⟨e, he⟩ => by cases he) fun h =>
        h.elim (fun h => h haddr) fun h => h hkey.symm
    · rw [if_pos hkey]
      exact iff_of_true ⟨_, rfl⟩ (.inr fun h => hkey h.symm)

end

end Llmleaf
