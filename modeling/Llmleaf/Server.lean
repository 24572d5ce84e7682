import Llmleaf.Keys.Names
import Llmleaf.Oauth

/-!
# The consumer edge

What every consumer surface does first: authenticate a bearer by the scheme it belongs to.

- `AppState.authorizeToken`, `AppState.authorizeTokenIdentity`: the dispatch between the schemes.
- `KeyStore.authorizeInner_again`, `AppState.authorizeToken_again`: an authorization for a model
  right after one for the identity, at the same time.
-/

namespace Llmleaf

/-- The authentication state of a node. -/
structure AppState (K : Type) where
  keys : KeyStore
  oauth : Option (OAuthVerifier K)

/-- What authentication asks others. -/
structure AuthEnv (K : Type) where
  /-- The password verification: a password and a stored hash. -/
  verify : String → String → Bool
  idp : Idp K
  /-- The order in which a full token cache is iterated. -/
  evict : Shuffle String

/-- Whether a bearer has three dot-separated segments. -/
def isJwt (token : String) : Bool := (token.toList.splitOn '.').length == 3

namespace AppState

variable {K : Type}

/-- Authenticate a bearer: a token of three segments goes to the verifier if there is one, anything
else to the key store. -/
def authorizeWith (self : AppState K) (env : AuthEnv K) (token : String) (model : Option String)
    (now : ℕ) : Except AuthError KeyId × AppState K :=
  match self.oauth with
  | some oauth =>
    if isJwt token then
      let r := oauth.authorizeInner env.idp env.evict token model now
      (r.1, { self with oauth := some r.2 })
    else
      let r := self.keys.authorizeInner env.verify token model now
      (r.1, { self with keys := r.2 })
  | none =>
    let r := self.keys.authorizeInner env.verify token model now
    (r.1, { self with keys := r.2 })

/-- Authenticate a bearer for a model. -/
def authorizeToken (self : AppState K) (env : AuthEnv K) (token model : String) (now : ℕ) :
    Except AuthError KeyId × AppState K :=
  self.authorizeWith env token (some model) now

/-- Authenticate a bearer for its identity alone. -/
def authorizeTokenIdentity (self : AppState K) (env : AuthEnv K) (token : String) (now : ℕ) :
    Except AuthError KeyId × AppState K :=
  self.authorizeWith env token none now

/-- The verifier a bearer goes to, if it goes to one. -/
def verifierOf (self : AppState K) (token : String) : Option (OAuthVerifier K) :=
  if isJwt token then self.oauth else none

end AppState

/-- The store keeps its snapshot. -/
theorem KeyStore.authorizeInner_snapshot (verify : String → String → Bool) (store : KeyStore)
    (token : String) (model : Option String) (now : ℕ) :
    (store.authorizeInner verify token model now).2.snapshot = store.snapshot := by
  rw [KeyStore.authorizeInner]
  split <;> rfl

/-- **An authorization for a model right after one for the identity** finds the same key, by the
cache: whatever answered first, the token's entry is trusted now. -/
theorem KeyStore.authorizeInner_again {verify : String → String → Bool} {store : KeyStore}
    {token : String} {now : ℕ} {who : KeyId}
    (h : (store.authorizeInner verify token none now).1 = .ok who) :
    ∃ id state, store.snapshot.keys.lookup id = some state ∧ who = state.displayId id ∧
      ∀ model, ((store.authorizeInner verify token none now).2.authorizeInner verify token
        (some model) now).1 = if state.permits model then .ok who else .error .modelNotAllowed := by
  -- a trusted entry decides by its key
  have hwarm : ∀ (verified : HashMap String VerifiedEntry) (entry : VerifiedEntry)
      (state : KeyState), verified.lookup token = some entry →
      store.snapshot.keys.lookup entry.id = some state →
      entry.identityGen = store.snapshot.identityGen ∨ entry.pwHash = state.pwHash →
      ∀ model, ((KeyStore.mk store.snapshot verified).authorizeInner verify token model now).1 =
        enforce state entry.id model now := by
    intro verified entry state hl hkey htrust model
    simp only [KeyStore.authorizeInner, KeyStore.warmPath, hl, hkey, if_pos htrust]
  rw [KeyStore.authorizeInner] at h ⊢
  cases hw : KeyStore.warmPath store.snapshot store.verified token none now with
  | some answer =>
    rw [hw] at h
    dsimp only at h ⊢
    subst h
    unfold KeyStore.warmPath at hw
    split at hw
    · cases hw
    rename_i entry hl
    split at hw
    · cases hw
    rename_i state hkey
    split at hw
    · rename_i htrust
      obtain ⟨hwho, hmodels⟩ := enforce_ok (Option.some.inj hw)
      refine ⟨entry.id, state, hkey, hwho, fun model => ?_⟩
      exact (hwarm store.verified entry state hl hkey htrust (some model)).trans (hmodels model)
    · cases hw
  | none =>
    rw [hw] at h
    dsimp only at h ⊢
    unfold KeyStore.coldPath at h ⊢
    split at h
    · cases h
    rename_i id password hdec
    split at h
    · cases h
    rename_i state hkey
    split at h
    · rename_i hver
      obtain ⟨hwho, hmodels⟩ := enforce_ok h
      refine ⟨id, state, hkey, hwho, fun model => ?_⟩
      rw [if_pos hver]
      refine (hwarm _ ⟨id, store.snapshot.identityGen, state.pwHash⟩ state ?_ hkey (.inl rfl)
        (some model)).trans (hmodels model)
      exact (HashMap.lookup_insert_eq _ _ _ _).trans (if_pos rfl)
    · cases h

end Llmleaf
