import Llmleaf.Batch
import Llmleaf.Server

/-!
# Owners of batches

An id made with a signer binds the identity that authentication returned. Static identities hold no
control bytes, identities of tokens are whatever the token's claim says, and both schemes share one
space of names.

- `Principal`, `AppState.authenticate`: who a caller is.
- **Result** (`ownerBound_iff`): for every creator and every caller, when the three calls on the
  created id keep to the owner.
- `ownerBound_static`: among static keys they always do, if the provider can be found.
-/

namespace Llmleaf

open BatchId

/-- An authenticated caller: a static key by its display id, or the identity of a token. -/
inductive Principal where
  | key (displayId : KeyId)
  | oauth (identity : String)
  deriving DecidableEq

/-- The identity string behind the authentication, the same type for both schemes. -/
def Principal.identity : Principal → String
  | key displayId => displayId
  | oauth identity => identity

/-- The caller of a bearer. -/
def AppState.authenticate {K : Type} (self : AppState K) (env : AuthEnv K) (token : String)
    (now : ℕ) : Except AuthError Principal :=
  match (self.authorizeTokenIdentity env token now).1 with
  | .error e => .error e
  | .ok who => .ok (if (self.verifierOf token).isSome then .oauth who else .key who)

/-! ## Keeping to the owner -/

section

variable (topo : Topology) (signer : Option BatchIdSigner) (up : BatchUpstream)

/-- The three calls get past the owner check. -/
def Passes (caller : Principal) (batchId requestId : String) : Prop :=
  batchRetrieve topo signer up batchId caller.identity requestId ≠ .error (.batchNotFound batchId) ∧
  batchCancel topo signer up batchId caller.identity requestId ≠ .error (.batchNotFound batchId) ∧
  batchResults topo signer up batchId caller.identity requestId ≠ .error (.batchNotFound batchId)

/-- The three calls do not know the batch. -/
def Denied (caller : Principal) (batchId requestId : String) : Prop :=
  batchRetrieve topo signer up batchId caller.identity requestId = .error (.batchNotFound batchId) ∧
  batchCancel topo signer up batchId caller.identity requestId = .error (.batchNotFound batchId) ∧
  batchResults topo signer up batchId caller.identity requestId = .error (.batchNotFound batchId)

/-- The creator gets past the owner check, and anyone else does not find the batch. -/
def OwnerBound (creator caller : Principal) (batchId requestId : String) : Prop :=
  (caller = creator → Passes topo signer up caller batchId requestId) ∧
  (caller ≠ creator → Denied topo signer up caller batchId requestId)

end

section

variable {topo topo₀ : Topology} {signer : BatchIdSigner} {up up₀ : BatchUpstream}
  {spec : BatchSpec} {creator caller : Principal} {requestId₀ requestId : String}
  {payload : BatchSpec → Option Value} {handle : BatchHandle}

theorem denied_iff {signer : Option BatchIdSigner} {batchId : String} :
    Denied topo signer up caller batchId requestId ↔
      ∃ e, batchAccess topo signer batchId caller.identity = .error e := by
  rw [Denied, batchRetrieve, batchCancel, batchPoll_denied_iff, batchPoll_denied_iff,
    batchResults_denied_iff]
  tauto

theorem passes_iff {signer : Option BatchIdSigner} {batchId : String} :
    Passes topo signer up caller batchId requestId ↔
      ¬ ∃ e, batchAccess topo signer batchId caller.identity = .error e := by
  rw [Passes, ne_eq, ne_eq, ne_eq, batchRetrieve, batchCancel, batchPoll_denied_iff,
    batchPoll_denied_iff, batchResults_denied_iff]
  tauto

/-- A created batch carries an encoded id of its provider and its creator. -/
theorem batchCreate_id {signer : Option BatchIdSigner} {key provider model : String}
    {spec' : BatchSpec} (hprov : resolveBatch topo₀ spec = .ok (provider, model, spec'))
    (h : (batchCreate topo₀ signer up₀ spec key requestId₀ payload).1 = .ok handle) :
    ∃ upstreamId, handle.id = encodeBatch provider upstreamId key signer := by
  unfold batchCreate at h
  split at h
  · cases h
  · rw [hprov] at h
    dsimp only at h
    split at h
    · cases h
    · split at h
      · rename_i created _
        cases h
        exact ⟨created.id, rfl⟩
      · cases h

/-- What the calls do with an encoded id. -/
theorem ownerBound_encoded (creator : Principal) (provider upstreamId : String) :
    OwnerBound topo (some signer) up creator caller
      (encodeBatch provider upstreamId creator.identity (some signer)) requestId ↔
      if caller = creator then Addressable topo provider ∧ sepChar ∉ creator.identity.toList
      else ¬ Addressable topo provider ∨ caller.identity ≠ lastField creator.identity := by
  rw [OwnerBound, denied_iff, passes_iff, batchAccess_encoded]
  by_cases hsame : caller = creator
  · subst hsame
    rw [if_pos rfl, ← lastField_eq_self]
    simp only [forall_const, ne_eq, not_true_eq_false, IsEmpty.forall_iff, and_true, not_or,
      not_not]
    exact and_congr_right fun _ => eq_comm
  · rw [if_neg hsame]
    simp only [hsame, IsEmpty.forall_iff, ne_eq, not_false_eq_true, forall_const, true_and]

/-- **Owner binding.** For the id of a created batch, the three calls of the creator get past the
owner check exactly when the provider can be found and the creator's identity holds no separator;
those of anyone else are refused exactly when the provider cannot be found or the caller's identity
is not what follows the last separator of the creator's. -/
theorem ownerBound_iff {provider model : String} {spec' : BatchSpec}
    (hprov : resolveBatch topo₀ spec = .ok (provider, model, spec'))
    (h : (batchCreate topo₀ (some signer) up₀ spec creator.identity requestId₀ payload).1 =
      .ok handle) :
    OwnerBound topo (some signer) up creator caller handle.id requestId ↔
      if caller = creator then Addressable topo provider ∧ sepChar ∉ creator.identity.toList
      else ¬ Addressable topo provider ∨ caller.identity ≠ lastField creator.identity := by
  obtain ⟨upstreamId, hid⟩ := batchCreate_id hprov h
  rw [hid]
  exact ownerBound_encoded creator provider upstreamId

theorem sep_not_mem_of_clean {s : String} (h : hasControlBytes s = false) :
    sepChar ∉ s.toList := by
  rw [← mem_bytes_sep]
  intro hs
  rw [hasControlBytes, List.any_eq_false] at h
  exact h sep hs (by decide)

/-- **Among static keys of a running node** batches stay with their owner, as long as the provider
can be found. -/
theorem ownerBound_static {verify : String → String → Bool} {resolve : Secret → Option String}
    {keys : List KeyConfig} {node : KeyNode} {tr : List (Runs.Step KeyNode KeyNode.Event)}
    (hvalid : validateKeys keys = true)
    (hr : Runs.Run (KeyNode.system verify) (.start (.fromConfig resolve keys)) tr node)
    {id callerId : KeyId} {state : KeyState}
    (hkey : node.store.snapshot.keys.lookup id = some state) {provider model : String}
    {spec' : BatchSpec} (hprov : resolveBatch topo₀ spec = .ok (provider, model, spec'))
    (haddr : Addressable topo provider)
    (h : (batchCreate topo₀ (some signer) up₀ spec (state.displayId id) requestId₀ payload).1 =
      .ok handle) :
    OwnerBound topo (some signer) up (.key (state.displayId id)) (.key callerId) handle.id
      requestId := by
  have hclean := sep_not_mem_of_clean ((KeyNode.run_wellNamed hvalid hr).clean hkey)
  obtain ⟨upstreamId, hid⟩ := batchCreate_id hprov h
  rw [hid]
  refine (ownerBound_encoded (.key (state.displayId id)) provider upstreamId).mpr ?_
  by_cases hsame : Principal.key callerId = .key (state.displayId id)
  · rw [if_pos hsame]
    exact ⟨haddr, hclean⟩
  · rw [if_neg hsame]
    refine .inr fun he => hsame ?_
    rw [Principal.identity, Principal.identity, lastField_eq_self.mpr hclean] at he
    rw [he]

end

/-! ## A small node -/

/-- One registered provider and one routed model. -/
def oneProvider : Topology :=
  (Engine.new
    { providers := [.plain "openai" "openai" none], routes := [⟨"gpt-4o", [⟨"openai", none⟩]⟩] }
    (HashMap.collect [("openai", ⟨"openai", 0⟩)]) fun _ _ => (0, 0)).topology

/-- An upstream that accepts every job. -/
def oneJob : BatchUpstream :=
  let handle : BatchHandle := ⟨"job-1", .validating, ⟨1, 0, 0, 0, 0, 0⟩, none, none, none, none, []⟩
  { secret := fun _ => none
    price := fun _ usage => usage
    create := fun _ _ _ => .ok handle
    retrieve := fun _ _ _ => .ok handle
    cancel := fun _ _ _ => .ok handle
    results := fun _ _ _ => .ok [] }

/-- A batch of one request. -/
def oneItem : BatchSpec :=
  ⟨[⟨"a", ⟨"gpt-4o", [.ofText .user "hi"], none, none, none, [], false, [], none, none, []⟩⟩]⟩

/-- A node with one static key and a verifier of tokens. -/
def mixedNode : AppState Unit where
  keys := KeyNode.narrowStore
  oauth := some (.fromConfig
    { identityClaim := "sub", rolesClaim := "roles", roleModels := ∅, cacheTtlSecs := none }
    (HashMap.collect [("", ())]))

/-- A signed token with a separator in its identity claim. -/
def eveEnv : AuthEnv Unit where
  verify := KeyNode.verifyStored
  idp :=
    { decodeHeader := fun token => if token = "head.claims.sig" then some none else none
      decode := fun _ _ =>
        some (.object [("sub", .string "eve\x1fnarrow"), ("exp", .number (.posInt 100))])
      introspect := none }
  evict := .id _

theorem ownerBound_iff_static :
    resolveBatch oneProvider oneItem = .ok ("openai", "gpt-4o", oneItem) ∧
    ∀ signer, ∃ handle, (batchCreate oneProvider (some signer) oneJob oneItem "narrow" "r1"
        fun _ => none).1 = .ok handle ∧
      OwnerBound oneProvider (some signer) oneJob (.key "narrow") (.key "narrow") handle.id "r2" ∧
      OwnerBound oneProvider (some signer) oneJob (.key "narrow") (.oauth "eve") handle.id "r3" := by
  have hprov : resolveBatch oneProvider oneItem = .ok ("openai", "gpt-4o", oneItem) := by
    decide +kernel
  refine ⟨hprov, fun signer => ?_⟩
  obtain ⟨handle, hcreate⟩ : ∃ handle, (batchCreate oneProvider (some signer) oneJob oneItem
      (Principal.key "narrow").identity "r1" fun _ => none).1 = .ok handle := ⟨_, rfl⟩
  refine ⟨handle, hcreate, ?_, ?_⟩
  · exact (ownerBound_iff hprov hcreate).mpr (by decide +kernel)
  · exact (ownerBound_iff hprov hcreate).mpr (by decide +kernel)

/-- The creator is refused and the static key `narrow`, whom it never met, is let in. -/
theorem oauth_separator_moves_owner :
    mixedNode.authenticate eveEnv "head.claims.sig" 5 = .ok (.oauth "eve\x1fnarrow") ∧
    mixedNode.authenticate eveEnv "bmFycm93OnMzY3JldA==" 5 = .ok (.key "narrow") ∧
    ∀ signer, ∃ handle, (batchCreate oneProvider (some signer) oneJob oneItem "eve\x1fnarrow" "r1"
        fun _ => none).1 = .ok handle ∧
      Denied oneProvider (some signer) oneJob (.oauth "eve\x1fnarrow") handle.id "r2" ∧
      Passes oneProvider (some signer) oneJob (.key "narrow") handle.id "r3" ∧
      ¬ OwnerBound oneProvider (some signer) oneJob (.oauth "eve\x1fnarrow") (.key "narrow")
        handle.id "r3" := by
  refine ⟨by decide +kernel, by decide +kernel, fun signer => ⟨_, rfl, ?_, ?_, ?_⟩⟩
  · exact denied_iff.mpr ((batchAccess_encoded signer "openai" "job-1" _).mpr (by decide +kernel))
  · exact passes_iff.mpr fun h =>
      absurd ((batchAccess_encoded signer "openai" "job-1" _).mp h) (by decide +kernel)
  · exact fun h => absurd ((ownerBound_encoded _ "openai" "job-1").mp h) (by decide +kernel)

end Llmleaf
