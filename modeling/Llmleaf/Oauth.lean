import Llmleaf.Json
import Llmleaf.Keys

/-!
# OAuth tokens

The second scheme beside the static keys: a bearer with three dot-separated segments is a signed
token whose claims name the caller and its roles, and the roles grant models. A proven token is
cached until it expires, or until its last introspection is too old.

The signature check and the introspection endpoint are outside (`Idp`).

- `OAuthVerifier.authorizeInner`: the authorization.
- `OAuthVerifier.authorizeInner_again`: after a first authorization, a second one at the same time
  answers by the same entry.
-/

namespace Llmleaf

/-- The models a token may use. -/
inductive AllowSet where
  | all
  | only (models : Finset String)
  deriving DecidableEq

def AllowSet.permits (self : AllowSet) (model : String) : Bool :=
  match self with
  | .all => true
  | .only s => allowSetPermits s model

/-- The parts of `[oauth]` that decide about a token's claims. -/
structure OAuthConfig where
  identityClaim : String
  rolesClaim : String
  roleModels : HashMap String (List String)
  /-- The seconds an introspection is trusted for, if there is introspection. -/
  cacheTtlSecs : Option ℕ

/-- What the verifier asks others: the signature check with decoding keys `K`, and introspection. -/
structure Idp (K : Type) where
  /-- The key id in a token's header, if the header can be read. -/
  decodeHeader : String → Option (Option String)
  /-- The claims of a token that is validly signed by a key. -/
  decode : String → K → Option Value
  /-- Whether a token is active, if an introspector is wired in. -/
  introspect : Option (String → Except String Bool)

/-- The cache entry of a proven token. -/
structure OAuthEntry where
  keyId : KeyId
  allowed : AllowSet
  exp : ℕ
  introspectOkUntil : ℕ
  deriving DecidableEq

/-- The verifier with its signing keys and its cache. -/
structure OAuthVerifier (K : Type) where
  identityClaim : String
  rolesClaim : String
  roleModels : HashMap String AllowSet
  introspectTtl : Option ℕ
  jwks : HashMap String K
  verified : HashMap String OAuthEntry

namespace OAuthVerifier

variable {K : Type}

/-- The bound of the cache. -/
def maxVerified : ℕ := 16384

/-- How many entries go when the cache is full. -/
def evictBatch : ℕ := 64

/-- The verifier of a configuration. -/
def fromConfig (cfg : OAuthConfig) (jwks : HashMap String K) : OAuthVerifier K where
  identityClaim := cfg.identityClaim
  rolesClaim := cfg.rolesClaim
  roleModels := cfg.roleModels.map fun _ models =>
    if models.any (· == "*") then .all else .only models.toFinset
  introspectTtl := cfg.cacheTtlSecs
  jwks := jwks
  verified := ∅

/-- Replace the signing keys. -/
def installJwks (self : OAuthVerifier K) (jwks : HashMap String K) : OAuthVerifier K :=
  { self with jwks := jwks }

/-! ## Claims -/

/-- Unicode white space. -/
def isWhitespace (c : Char) : Bool :=
  (9 ≤ c.toNat && c.toNat ≤ 13) || c.toNat == 0x20 || c.toNat == 0x85 || c.toNat == 0xA0 ||
    c.toNat == 0x1680 || (0x2000 ≤ c.toNat && c.toNat ≤ 0x200A) || c.toNat == 0x2028 ||
    c.toNat == 0x2029 || c.toNat == 0x202F || c.toNat == 0x205F || c.toNat == 0x3000

/-- The words of a text. -/
def splitWhitespace (s : String) : List String :=
  ((s.toList.splitOnP isWhitespace).filter fun w => !w.isEmpty).map String.ofList

/-- The roles claim: an array of strings, or one space-delimited string. -/
def tokenRoles (self : OAuthVerifier K) (claims : Value) : List String :=
  match claims.get self.rolesClaim with
  | some (.array items) => items.filterMap Value.asStr
  | some (.string s) => splitWhitespace s
  | _ => []

/-- The union of what the roles grant. -/
def grant (roleModels : HashMap String AllowSet) : Finset String → List String → AllowSet
  | acc, [] => .only acc
  | acc, role :: roles =>
    match roleModels.lookup role with
    | some .all => .all
    | some (.only set) => grant roleModels (acc ∪ set) roles
    | none => grant roleModels acc roles

/-- The models the roles of a token grant. -/
def allowedModels (self : OAuthVerifier K) (claims : Value) : AllowSet :=
  grant self.roleModels ∅ (self.tokenRoles claims)

/-! ## Authorization -/

/-- The cached entry of a token, while it may be trusted. -/
def warm (self : OAuthVerifier K) (token : String) (now : ℕ) : Option OAuthEntry :=
  match self.verified.lookup token with
  | none => none
  | some entry =>
    if now < entry.exp ∧ (self.introspectTtl = none ∨ now < entry.introspectOkUntil) then some entry
    else none

/-- The key a token's header asks for, or the only key there is. -/
def signingKey (self : OAuthVerifier K) (kid : Option String) : Option K :=
  match self.jwks.lookup (kid.getD "") with
  | some key => some key
  | none =>
    match self.jwks.values with
    | [key] => some key
    | _ => none

/-- Until when the introspection of a token is trusted; `none` if the token is not live. -/
def introspectOkUntil (self : OAuthVerifier K) (idp : Idp K) (token : String) (now : ℕ) : Option ℕ :=
  match self.introspectTtl with
  | none => some 0
  | some ttl =>
    match idp.introspect with
    | none => none
    | some introspect =>
      match introspect token with
      | .ok true => some (min (now + ttl) (2 ^ 64 - 1))
      | _ => none

/-- The cold path up to caching: what a token proves, if it proves anything. -/
def prove (self : OAuthVerifier K) (idp : Idp K) (token : String) (now : ℕ) : Option OAuthEntry :=
  match idp.decodeHeader token with
  | none => none
  | some kid =>
    match self.signingKey kid with
    | none => none
    | some key =>
      match idp.decode token key with
      | none => none
      | some claims =>
        match (claims.get self.identityClaim).bind Value.asStr, (claims.get "exp").bind Value.asU64,
          self.introspectOkUntil idp token now with
        | some keyId, some exp, some okUntil =>
          some ⟨keyId, self.allowedModels claims, exp, okUntil⟩
        | _, _, _ => none

/-- Cache a proven token; a full cache first loses some entries in the order of an iteration. -/
def remember (self : OAuthVerifier K) (order : Shuffle String) (token : String)
    (entry : OAuthEntry) : OAuthVerifier K :=
  let kept :=
    if maxVerified ≤ self.verified.keys.length then
      ((order.order self.verified.keys).take evictBatch).foldl (fun m t => m.erase t) self.verified
    else self.verified
  { self with verified := kept.insert token entry }

/-- The answer for a proven token. -/
def gate (entry : OAuthEntry) (model : Option String) : Except AuthError KeyId :=
  if model.all entry.allowed.permits then .ok entry.keyId else .error .modelNotAllowed

/-- Authorize a token, for a model or for its identity alone. -/
def authorizeInner (self : OAuthVerifier K) (idp : Idp K) (order : Shuffle String) (token : String)
    (model : Option String) (now : ℕ) : Except AuthError KeyId × OAuthVerifier K :=
  match self.warm token now with
  | some entry => (gate entry model, self)
  | none =>
    match self.prove idp token now with
    | none => (.error .unknown, self)
    | some entry => (gate entry model, self.remember order token entry)

/-- What a token stands for: its cached entry while that may be trusted, else what it proves. -/
def entry (self : OAuthVerifier K) (idp : Idp K) (token : String) (now : ℕ) : Option OAuthEntry :=
  (self.warm token now).or (self.prove idp token now)

/-- The answer is that of the token's entry. -/
theorem authorizeInner_fst (self : OAuthVerifier K) (idp : Idp K) (order : Shuffle String)
    (token : String) (model : Option String) (now : ℕ) :
    (self.authorizeInner idp order token model now).1 =
      match self.entry idp token now with
      | none => .error .unknown
      | some e => gate e model := by
  rw [authorizeInner, entry]
  cases self.warm token now with
  | some e => rfl
  | none => cases self.prove idp token now <;> rfl

theorem prove_remember (self : OAuthVerifier K) (idp : Idp K) (order : Shuffle String)
    (token token' : String) (e : OAuthEntry) (now : ℕ) :
    (self.remember order token e).prove idp token' now = self.prove idp token' now := rfl

/-- Whatever the first authorization cached, the token's entry stays what it was. -/
theorem entry_authorizeInner (self : OAuthVerifier K) (idp : Idp K) (order : Shuffle String)
    (token : String) (model : Option String) (now : ℕ) :
    (self.authorizeInner idp order token model now).2.entry idp token now =
      self.entry idp token now := by
  rw [authorizeInner]
  cases hw : self.warm token now with
  | some e => rfl
  | none =>
    cases hp : self.prove idp token now with
    | none => rfl
    | some e =>
      rw [entry, entry, prove_remember, hp, hw, Option.none_or]
      -- the new entry is trusted, or the token proves the same again
      have hl : (self.remember order token e).verified.lookup token = some e := by
        rw [remember, HashMap.lookup_insert_eq, if_pos rfl]
      rw [warm, hl]
      dsimp only
      split <;> rfl

/-- **A second authorization at the same time answers by the same entry.** -/
theorem authorizeInner_again {self : OAuthVerifier K} {idp : Idp K} {order : Shuffle String}
    {token : String} {now : ℕ} {who : KeyId}
    (h : (self.authorizeInner idp order token none now).1 = .ok who) :
    ∃ e, self.entry idp token now = some e ∧ e.keyId = who ∧
      ∀ (order' : Shuffle String) (model : String),
        ((self.authorizeInner idp order token none now).2.authorizeInner idp order' token
          (some model) now).1 =
          if e.allowed.permits model then .ok who else .error .modelNotAllowed := by
  rw [authorizeInner_fst] at h
  cases he : self.entry idp token now with
  | none => rw [he] at h; cases h
  | some e =>
    rw [he] at h
    cases h
    refine ⟨e, rfl, rfl, fun order' model => ?_⟩
    rw [authorizeInner_fst, entry_authorizeInner, he]
    rfl

end OAuthVerifier

end Llmleaf
