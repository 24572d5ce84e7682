import Llmleaf.Config
import Llmleaf.Lib.HashMap
import Llmleaf.Lib.Strings
import Mathlib.Data.Finset.Dedup

/-!
# The key store

Consumer keys and their verdicts. A key is presented as the base64 of `id:password`; the store
looks the id up, verifies the password against the stored hash and enforces the key's verdict. A
proven token is cached, so that later requests skip the verification.

Two layers restrict a key: the allow-list of its identity and that of its verdict. Both are pulled
and installed wholesale (`installIdentities`, `installVerdicts`). Password verification is a
parameter `verify` (password, hash).
-/

namespace Llmleaf

open Strings

/-- A log-safe identifier of a key. -/
abbrev KeyId := String

/-- The per-key verdict. -/
structure Verdict where
  blocked : Bool
  suspendedUntil : Option ℕ
  allowedModels : Option (Finset String)
  deriving DecidableEq

/-- The verdict of a key that has none. -/
def Verdict.default : Verdict := ⟨false, none, none⟩

/-- Why an authorization lookup failed. -/
inductive AuthError where
  | unknown
  | blocked
  | suspended (until_ : ℕ)
  | modelNotAllowed
  deriving DecidableEq

/-- The state of a key. -/
structure KeyState where
  name : Option String
  pwHash : String
  configAllowed : Option (Finset String)
  verdict : Verdict
  deriving DecidableEq

/-- The friendly name if set, else the key id. -/
def KeyState.displayId (state : KeyState) (id : String) : KeyId := state.name.getD id

/-- One key as the identity pull installs it. -/
structure IdentityInput where
  id : String
  pwHash : String
  name : Option String
  allowedModels : Option (List String)

/-- One key of the configuration file, its hash still a reference. -/
structure KeyConfig where
  id : String
  pwHash : Secret
  name : Option String
  allowedModels : Option (List String)

/-! ## Allow-lists -/

/-- The restriction a configured list stands for: a bare `*` lifts it. -/
def allowList (models : Option (List String)) : Option (Finset String) :=
  match models with
  | none => none
  | some models => if models.any (· == "*") then none else some models.toFinset

/-- The byte of `*`. -/
def starByte : UInt8 := 42

/-- The two-pointer glob loop. `p` and `t` are what is left of pattern and text; `star` holds the
pattern after the last star and the text it has consumed up to. -/
def wildcardLoop : ℕ → List UInt8 → List UInt8 → Option (List UInt8 × List UInt8) → Bool
  | 0, _, _, _ => false
  | _ + 1, p, [], _ => p.all (· == starByte)
  | fuel + 1, p, c :: t, star =>
    -- on a mismatch the last star swallows one more byte
    let backtrack : Bool :=
      match star with
      | some (sp, st) => wildcardLoop fuel sp st.tail (some (sp, st.tail))
      | none => false
    match p with
    | x :: p' =>
      if x = starByte then wildcardLoop fuel p' (c :: t) (some (p', c :: t))
      else if x = c then wildcardLoop fuel p' t star
      else backtrack
    | [] => backtrack

/-- Match `model` against `pattern`, where `*` matches any run of characters. -/
def wildcardMatch (pattern model : String) : Bool :=
  let p := bytes pattern
  let t := bytes model
  wildcardLoop ((p.length + t.length + 1) * (t.length + 2)) p t none

/-- Whether an allow-list permits a model, exactly or by a pattern. -/
def allowSetPermits (set : Finset String) (model : String) : Bool :=
  model ∈ set || decide (∃ p ∈ set, p.toList.contains '*' && wildcardMatch p model)

/-- Apply the precedence: blocked, suspended, config allow-list, verdict allow-list. -/
def enforce (state : KeyState) (id : String) (model : Option String) (now : ℕ) :
    Except AuthError KeyId :=
  if state.verdict.blocked then .error .blocked
  else
    match state.verdict.suspendedUntil with
    | some until_ =>
      if now < until_ then .error (.suspended until_) else gate state id model
    | none => gate state id model
where
  /-- The gates of a request that carries a model. -/
  gate (state : KeyState) (id : String) : Option String → Except AuthError KeyId
    | none => .ok (state.displayId id)
    | some model =>
      if state.configAllowed.any (fun allowed => !allowSetPermits allowed model) then
        .error .modelNotAllowed
      else if state.verdict.allowedModels.any (fun allowed => !allowSetPermits allowed model) then
        .error .modelNotAllowed
      else .ok (state.displayId id)

/-! ## Tokens -/

/-- The size of the buffer a token is decoded into. -/
def maxTokenDecoded : ℕ := 512

/-- The value of a base64 character. -/
def sextet (b : UInt8) : Option UInt32 :=
  if 65 ≤ b ∧ b ≤ 90 then some (b - 65).toUInt32
  else if 97 ≤ b ∧ b ≤ 122 then some (b - 97 + 26).toUInt32
  else if 48 ≤ b ∧ b ≤ 57 then some (b - 48 + 52).toUInt32
  else if b = 43 then some 62
  else if b = 47 then some 63
  else none

/-- What is left of a text without at most two trailing `=`. -/
def stripPadding (input : List UInt8) : List UInt8 :=
  let rec go : ℕ → List UInt8 → List UInt8
    | pad + 1, 61 :: rest => go pad rest
    | _, rest => rest
  (go 2 input.reverse).reverse

/-- Decode the characters bit by bit into a buffer of `capacity` bytes. -/
def b64Loop (capacity : ℕ) : List UInt8 → UInt32 → UInt32 → List UInt8 → Option (List UInt8)
  | [], _, _, out => some out
  | b :: rest, acc, nbits, out =>
    match sextet b with
    | none => none
    | some s =>
      let acc := (acc <<< 6) ||| s
      let nbits := nbits + 6
      if 8 ≤ nbits then
        let nbits := nbits - 8
        if out.length < capacity then
          b64Loop capacity rest acc nbits (out ++ [(acc >>> nbits).toUInt8])
        else none
      else b64Loop capacity rest acc nbits out

/-- Decode base64, padded or not, into a buffer of `capacity` bytes. -/
def b64DecodeInto (input : String) (capacity : ℕ) : Option (List UInt8) :=
  let body := stripPadding (bytes input)
  if body.length % 4 = 1 then none else b64Loop capacity body 0 0 []

/-- Split `id:password` on the first colon. -/
def splitCredential (bs : List UInt8) : Option (String × String) :=
  match bs.findIdx? (· == 58) with
  | none => none
  | some colon =>
    match fromUtf8 (bs.take colon), fromUtf8 (bs.drop (colon + 1)) with
    | some id, some password => some (id, password)
    | _, _ => none

/-- The key id and the password a token stands for. -/
def decodeToken (token : String) : Option (String × String) :=
  (b64DecodeInto token maxTokenDecoded).bind splitCredential

/-! ## The store -/

/-- One view of all key state. -/
structure KeySnapshot where
  keys : HashMap KeyId KeyState
  /-- Bumped when the identity layer is replaced, modulo `2 ^ 64`. -/
  identityGen : ℕ

/-- What a proven token was verified against. -/
structure VerifiedEntry where
  id : KeyId
  identityGen : ℕ
  pwHash : String

/-- The current snapshot and the cache of proven tokens. -/
structure KeyStore where
  snapshot : KeySnapshot
  verified : HashMap String VerifiedEntry

/-- Whether a text contains an ASCII control byte. -/
def hasControlBytes (s : String) : Bool := (bytes s).any fun b => b < 32 || b == 127

/-- The integrity check of the configured keys: no control bytes, unique ids and display ids. -/
def validateKeys (keys : List KeyConfig) : Bool :=
  (keys.all fun k => !hasControlBytes k.id && !(k.name.any hasControlBytes)) &&
    decide (keys.map (·.id)).Nodup && decide (keys.map fun k => k.name.getD k.id).Nodup

namespace KeyStore

/-- The store of the configured keys; a key whose hash does not resolve is left out. -/
def fromConfig (resolve : Secret → Option String) (keys : List KeyConfig) : KeyStore where
  snapshot :=
    { keys := keys.foldl (fun m k =>
        match resolve k.pwHash with
        | none => m
        | some pwHash => m.insert k.id
          { name := k.name
            pwHash := pwHash
            configAllowed := allowList k.allowedModels
            verdict := .default }) ∅
      identityGen := 0 }
  verified := ∅

/-- The warm path: the answer for a cached token, unless its key is gone or was rotated. -/
def warmPath (snap : KeySnapshot) (verified : HashMap String VerifiedEntry) (token : String)
    (model : Option String) (now : ℕ) : Option (Except AuthError KeyId) :=
  match verified.lookup token with
  | none => none
  | some entry =>
    match snap.keys.lookup entry.id with
    | none => none
    | some state =>
      if entry.identityGen = snap.identityGen ∨ entry.pwHash = state.pwHash then
        some (enforce state entry.id model now)
      else none

/-- The cold path: decode, look up, verify, enforce. On success also the entry to cache. -/
def coldPath (verify : String → String → Bool) (snap : KeySnapshot) (token : String)
    (model : Option String) (now : ℕ) : Except AuthError KeyId × Option VerifiedEntry :=
  match decodeToken token with
  | none => (.error .unknown, none)
  | some (id, password) =>
    match snap.keys.lookup id with
    | none => (.error .unknown, none)
    | some state =>
      if verify password state.pwHash then
        (enforce state id model now, some ⟨id, snap.identityGen, state.pwHash⟩)
      else (.error .unknown, none)

/-- Cache the token the cold path has proven. -/
def remember (verified : HashMap String VerifiedEntry) (token : String)
    (entry : Option VerifiedEntry) : HashMap String VerifiedEntry :=
  match entry with
  | none => verified
  | some entry => verified.insert token entry

/-- Authorize a token, for a model or for its identity alone. -/
def authorizeInner (verify : String → String → Bool) (self : KeyStore) (token : String)
    (model : Option String) (now : ℕ) : Except AuthError KeyId × KeyStore :=
  match warmPath self.snapshot self.verified token model now with
  | some answer => (answer, self)
  | none =>
    let (answer, entry) := coldPath verify self.snapshot token model now
    (answer, { self with verified := remember self.verified token entry })

def authorize (verify : String → String → Bool) (self : KeyStore) (token model : String) (now : ℕ) :
    Except AuthError KeyId × KeyStore :=
  authorizeInner verify self token (some model) now

def authorizeIdentity (verify : String → String → Bool) (self : KeyStore) (token : String)
    (now : ℕ) : Except AuthError KeyId × KeyStore :=
  authorizeInner verify self token none now

/-! ## Installing pulled state -/

/-- One entry of a pulled roster: kept unless it has control bytes or a display id seen before. -/
def installOne (prev : HashMap KeyId KeyState) (acc : HashMap KeyId KeyState × Finset String)
    (k : IdentityInput) : HashMap KeyId KeyState × Finset String :=
  let displayId := k.name.getD k.id
  if hasControlBytes k.id || k.name.any hasControlBytes then acc
  else if displayId ∈ acc.2 then acc
  else
    let verdict := ((prev.lookup k.id).map (·.verdict)).getD .default
    (acc.1.insert k.id
      { name := k.name
        pwHash := k.pwHash
        configAllowed := allowList k.allowedModels
        verdict := verdict },
      insert displayId acc.2)

/-- The snapshot a roster leads to. -/
def rosterSnapshot (snap : KeySnapshot) (roster : List IdentityInput) : KeySnapshot where
  keys := (roster.foldl (installOne snap.keys) (∅, ∅)).1
  identityGen := (snap.identityGen + 1) % 2 ^ 64

/-- Drop the cached tokens of keys that are gone. -/
def prune (verified : HashMap String VerifiedEntry) (keys : HashMap KeyId KeyState) :
    HashMap String VerifiedEntry :=
  verified.retain fun _ e => decide (e.id ∈ keys)

/-- Install a pulled roster. -/
def installIdentities (self : KeyStore) (roster : List IdentityInput) : KeyStore :=
  let snap := rosterSnapshot self.snapshot roster
  { snapshot := snap, verified := prune self.verified snap.keys }

/-- The snapshot a verdict overlay leads to. -/
def verdictSnapshot (snap : KeySnapshot) (verdicts : HashMap KeyId Verdict) : KeySnapshot where
  keys := snap.keys.map fun id state =>
    { state with verdict := (verdicts.lookup id).getD .default }
  identityGen := snap.identityGen

/-- Install a pulled verdict overlay. -/
def installVerdicts (self : KeyStore) (verdicts : HashMap KeyId Verdict) : KeyStore :=
  { self with snapshot := verdictSnapshot self.snapshot verdicts }

end KeyStore

/-! ## Model scopes -/

/-- A key's restriction, its two layers kept apart. -/
structure ModelScope where
  config : Option (Finset String)
  verdict : Option (Finset String)
  deriving DecidableEq

/-- Whether every layer that is present permits the model. -/
def ModelScope.permits (self : ModelScope) (model : String) : Bool :=
  self.config.all (fun s => allowSetPermits s model) &&
    self.verdict.all (fun s => allowSetPermits s model)

/-- The restriction of the key with this display id, `none` if it has none or there is no such
key. -/
def KeyStore.modelScope (self : KeyStore) (order : Shuffle (KeyId × KeyState)) (keyId : KeyId) :
    Option ModelScope :=
  match (order.order self.snapshot.keys.pairs).find? fun e => e.2.displayId e.1 == keyId with
  | none => none
  | some (_, state) =>
    match state.configAllowed, state.verdict.allowedModels with
    | none, none => none
    | config, verdict => some ⟨config, verdict⟩

end Llmleaf
