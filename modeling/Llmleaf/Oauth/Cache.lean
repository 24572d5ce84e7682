import Llmleaf.Lib.Runs
import Llmleaf.Oauth

/-!
# The cache of verified tokens

Authorizations run at the same time as installs of signing keys. Each one reads the cache, the
signing keys and the introspector, asks for an introspection and stores what it has proven. Between
any two of these steps others may take theirs.

- `OAuthCall.step`: the next step of an authorization; `runAlone_eq_authorizeInner`: without
  interleaving, five steps are `OAuthVerifier.authorizeInner`.
- `OAuthNode.system`: the interleaved runs.
- **Invariant** (`OAuthNode.Sound`): the cache is bounded, and every entry is what the claims of its
  token say, with an introspection of the token that answered active.
- **Result** (`OAuthNode.answers_from_cache`): what is answered from the cache.
-/

namespace Llmleaf

/-! ## One authorization -/

/-- What the text of a token holds: the key id in its header, if one can be read, and its claims. -/
structure Jwt where
  header : String → Option (Option String)
  claims : String → Option Value

/-- What an authorization does next, or how it has ended. -/
inductive OAuthPhase where
  | readCache
  | readKeys
  | readIntrospector (entry : OAuthEntry) (ttl : ℕ)
  | ask (entry : OAuthEntry) (ttl : ℕ)
  | store (entry : OAuthEntry)
  | done (answer : Except AuthError KeyId)

/-- An authorization on its way. -/
structure OAuthCall where
  token : String
  model : Option String
  now : ℕ
  phase : OAuthPhase

/-- What a step is given from outside: whether the token passes the checks with a signing key, what
its introspection answers, and in which order a full cache is gone through. -/
structure OAuthWorld (K : Type) where
  valid : K → Bool
  active : Except String Bool
  order : Shuffle String

namespace OAuthVerifier

variable {K : Type} (self : OAuthVerifier K)

/-- The claims of a token that passes the checks with its signing key. -/
def decoded (jwt : Jwt) (valid : K → Bool) (token : String) : Option Value :=
  match jwt.header token with
  | none => none
  | some kid =>
    match self.signingKey kid with
    | none => none
    | some key => if valid key then jwt.claims token else none

/-- What claims say, before any introspection. -/
def claimed (claims : Value) : Option OAuthEntry :=
  match (claims.get self.identityClaim).bind Value.asStr, (claims.get "exp").bind Value.asU64 with
  | some keyId, some exp => some ⟨keyId, self.allowedModels claims, exp, 0⟩
  | _, _ => none

variable {self} in
theorem decoded_claims {jwt : Jwt} {valid : K → Bool} {token : String} {claims : Value}
    (h : self.decoded jwt valid token = some claims) : jwt.claims token = some claims := by
  unfold decoded at h
  split at h
  · cases h
  · split at h
    · cases h
    · split at h
      · exact h
      · cases h

variable {self} in
theorem claimed_some {claims : Value} {entry : OAuthEntry} (h : self.claimed claims = some entry) :
    ∃ keyId exp, (claims.get self.identityClaim).bind Value.asStr = some keyId ∧
      (claims.get "exp").bind Value.asU64 = some exp ∧
      entry = ⟨keyId, self.allowedModels claims, exp, 0⟩ := by
  unfold claimed at h
  split at h
  · rename_i keyId exp hkeyId hexp
    cases h
    exact ⟨keyId, exp, hkeyId, hexp, rfl⟩
  · cases h

variable {self} in
theorem warm_trusted {token : String} {now : ℕ} {entry : OAuthEntry}
    (h : self.warm token now = some entry) : self.verified.lookup token = some entry ∧
      now < entry.exp ∧ (self.introspectTtl = none ∨ now < entry.introspectOkUntil) := by
  unfold warm at h
  split at h
  · cases h
  · rename_i entry' hlookup
    split at h
    · cases h
      exact ⟨hlookup, ‹_›⟩
    · cases h

variable {self} in
theorem claimed_fresh {claims : Value} {entry : OAuthEntry} (h : self.claimed claims = some entry) :
    { entry with introspectOkUntil := 0 } = entry := by
  obtain ⟨keyId, exp, -, -, rfl⟩ := claimed_some h
  rfl

end OAuthVerifier

namespace OAuthCall

variable {K : Type}

/-- The next step of an authorization. -/
def step (jwt : Jwt) (world : OAuthWorld K) (wired : Bool) (v : OAuthVerifier K) (c : OAuthCall) :
    OAuthVerifier K × OAuthCall :=
  match c.phase with
  | .readCache =>
    match v.warm c.token c.now with
    | some entry => (v, { c with phase := .done (OAuthVerifier.gate entry c.model) })
    | none => (v, { c with phase := .readKeys })
  | .readKeys =>
    match (v.decoded jwt world.valid c.token).bind v.claimed with
    | none => (v, { c with phase := .done (.error .unknown) })
    | some entry =>
      match v.introspectTtl with
      | none => (v, { c with phase := .store entry })
      | some ttl => (v, { c with phase := .readIntrospector entry ttl })
  | .readIntrospector entry ttl =>
    if wired then (v, { c with phase := .ask entry ttl })
    else (v, { c with phase := .done (.error .unknown) })
  | .ask entry ttl =>
    match world.active with
    | .ok true =>
      let okUntil := min (c.now + ttl) (2 ^ 64 - 1)
      (v, { c with phase := .store { entry with introspectOkUntil := okUntil } })
    | _ => (v, { c with phase := .done (.error .unknown) })
  | .store entry =>
    (v.remember world.order c.token entry,
      { c with phase := .done (OAuthVerifier.gate entry c.model) })
  | .done _ => (v, c)

/-- One step after another in one world. -/
def runAlone (jwt : Jwt) (world : OAuthWorld K) (wired : Bool) :
    ℕ → OAuthVerifier K × OAuthCall → OAuthVerifier K × OAuthCall
  | 0, s => s
  | n + 1, s => runAlone jwt world wired n (step jwt world wired s.1 s.2)

/-- What the verifier of `Oauth` asks in such a world. -/
def idp (jwt : Jwt) (world : OAuthWorld K) (wired : Bool) : Idp K where
  decodeHeader := jwt.header
  decode token key := if world.valid key then jwt.claims token else none
  introspect := if wired then some fun _ => world.active else none

theorem prove_eq (jwt : Jwt) (world : OAuthWorld K) (wired : Bool) (v : OAuthVerifier K)
    (token : String) (now : ℕ) :
    v.prove (idp jwt world wired) token now =
      ((v.decoded jwt world.valid token).bind v.claimed).bind fun entry =>
        (v.introspectOkUntil (idp jwt world wired) token now).map fun okUntil =>
          { entry with introspectOkUntil := okUntil } := by
  rw [OAuthVerifier.prove, OAuthVerifier.decoded]
  dsimp only [idp]
  cases jwt.header token with
  | none => rfl
  | some kid =>
    dsimp only
    cases v.signingKey kid with
    | none => rfl
    | some key =>
      dsimp only
      cases (if world.valid key then jwt.claims token else none) with
      | none => rfl
      | some claims =>
        dsimp only
        rw [Option.bind_some, OAuthVerifier.claimed]
        cases (claims.get v.identityClaim).bind Value.asStr <;>
          cases (claims.get "exp").bind Value.asU64 <;>
            cases v.introspectOkUntil _ token now <;> rfl

/-- **Without interleaving, the steps of an authorization are `authorizeInner`.** -/
theorem runAlone_eq_authorizeInner (jwt : Jwt) (world : OAuthWorld K) (wired : Bool)
    (v : OAuthVerifier K) (token : String) (model : Option String) (now : ℕ) :
    let s := runAlone jwt world wired 5 (v, ⟨token, model, now, .readCache⟩)
    let r := v.authorizeInner (idp jwt world wired) world.order token model now
    s.2.phase = .done r.1 ∧ s.1 = r.2 := by
  dsimp only
  rw [OAuthVerifier.authorizeInner, prove_eq, OAuthVerifier.introspectOkUntil]
  cases hw : v.warm token now with
  | some entry => simp only [runAlone, step, hw, and_self]
  | none =>
    cases hd : (v.decoded jwt world.valid token).bind v.claimed with
    | none => simp only [runAlone, step, hw, hd, Option.bind_none, and_self]
    | some entry =>
      cases ht : v.introspectTtl with
      | none =>
        obtain ⟨claims, -, hclaimed⟩ := Option.bind_eq_some_iff.mp hd
        simp only [runAlone, step, hw, hd, ht, Option.bind_some, Option.map_some,
          OAuthVerifier.claimed_fresh hclaimed, and_self]
      | some ttl =>
        cases wired with
        | false => simp [runAlone, step, hw, hd, ht, idp]
        | true =>
          rcases ha : world.active with e | active
          · simp [runAlone, step, hw, hd, ht, idp, ha]
          · cases active <;> simp [runAlone, step, hw, hd, ht, idp, ha]

end OAuthCall

/-! ## The interleaved system -/

/-- The verifier of a node, whether its introspector is wired in, and the authorizations. -/
structure OAuthNode (K : Type) where
  verifier : OAuthVerifier K
  wired : Bool
  calls : List OAuthCall

namespace OAuthNode

variable {K : Type}

/-- An authorization begins or takes its next step, signing keys are installed, or the introspector
is wired in. -/
inductive Event (K : Type) where
  | begin (token : String) (model : Option String) (now : ℕ)
  | advance (call : ℕ) (world : OAuthWorld K)
  | installJwks (jwks : HashMap String K)
  | installIntrospector

/-- The state after an event. -/
def step (jwt : Jwt) (node : OAuthNode K) : Event K → OAuthNode K
  | .begin token model now =>
    { node with calls := node.calls ++ [⟨token, model, now, .readCache⟩] }
  | .advance i world =>
    match node.calls[i]? with
    | none => node
    | some c =>
      { node with
        verifier := (c.step jwt world node.wired node.verifier).1
        calls := node.calls.set i (c.step jwt world node.wired node.verifier).2 }
  | .installJwks jwks => { node with verifier := node.verifier.installJwks jwks }
  | .installIntrospector => { node with wired := true }

/-- A verifier that serves its first request. -/
def start (verifier : OAuthVerifier K) : OAuthNode K := ⟨verifier, false, []⟩

/-- The runs of the verifiers of configurations. -/
def system (jwt : Jwt) : Runs.Sys (OAuthNode K) (Event K) :=
  .ofFun (fun node => ∃ cfg jwks, node = start (.fromConfig cfg jwks)) (step jwt)

end OAuthNode

/-! ## What an entry rests on -/

namespace OAuthVerifier

variable {K : Type}

/-- What a verifier reads claims with. It is never changed. -/
structure SameRules (v w : OAuthVerifier K) : Prop where
  identityClaim : w.identityClaim = v.identityClaim
  rolesClaim : w.rolesClaim = v.rolesClaim
  roleModels : w.roleModels = v.roleModels
  introspectTtl : w.introspectTtl = v.introspectTtl

theorem SameRules.refl (v : OAuthVerifier K) : SameRules v v := ⟨rfl, rfl, rfl, rfl⟩

theorem SameRules.remember (v : OAuthVerifier K) (order : Shuffle String) (token : String)
    (entry : OAuthEntry) : SameRules v (v.remember order token entry) := ⟨rfl, rfl, rfl, rfl⟩

theorem SameRules.installJwks (v : OAuthVerifier K) (jwks : HashMap String K) :
    SameRules v (v.installJwks jwks) := ⟨rfl, rfl, rfl, rfl⟩

theorem SameRules.claimed_eq {v w : OAuthVerifier K} (h : SameRules v w) (claims : Value) :
    w.claimed claims = v.claimed claims := by
  rw [claimed, claimed, allowedModels, allowedModels, tokenRoles, tokenRoles, h.identityClaim,
    h.rolesClaim, h.roleModels]

/-- A full cache makes room. -/
theorem length_evicted {verified : HashMap String OAuthEntry}
    (h : maxVerified ≤ verified.keys.length) (order : Shuffle String) :
    (((order.order verified.keys).take evictBatch).foldl (fun m t => m.erase t)
      verified).keys.length < verified.keys.length := by
  have hperm := order.perm verified.keys
  cases hkeys : order.order verified.keys with
  | nil =>
    have hlen := hperm.length_eq
    rw [hkeys, List.length_nil] at hlen
    rw [← hlen] at h
    exact absurd h (by decide)
  | cons t tokens =>
    have ht : t ∈ verified.keys := hperm.subset (hkeys ▸ List.mem_cons_self)
    rw [evictBatch, List.take_succ_cons, List.foldl_cons]
    refine (HashMap.length_foldl_erase _ (verified.erase t)).trans_lt ?_
    rw [AList.keys_erase, List.length_erase_of_mem ht]
    exact Nat.sub_lt (List.length_pos_of_mem ht) Nat.one_pos

/-- **What is stored**: the new entry, or one that was there. -/
theorem lookup_remember {v : OAuthVerifier K} {order : Shuffle String} {token token' : String}
    {entry entry' : OAuthEntry}
    (h : (v.remember order token entry).verified.lookup token' = some entry') :
    token' = token ∧ entry' = entry ∨ v.verified.lookup token' = some entry' := by
  rw [remember, HashMap.lookup_insert_eq] at h
  split at h
  · rename_i htoken
    cases h
    exact .inl ⟨htoken, rfl⟩
  · refine .inr ?_
    split at h
    · exact HashMap.lookup_foldl_erase h
    · exact h

/-- **Storing keeps the bound.** -/
theorem length_remember {v : OAuthVerifier K} (h : v.verified.keys.length ≤ maxVerified)
    (order : Shuffle String) (token : String) (entry : OAuthEntry) :
    (v.remember order token entry).verified.keys.length ≤ maxVerified := by
  rw [remember]
  refine (HashMap.length_insert_le _ token entry).trans ?_
  split
  · rename_i hfull
    have hroom := length_evicted hfull order
    omega
  · omega

end OAuthVerifier

namespace OAuthNode

variable {K : Type}

/-- The steps of a run. -/
abbrev Trace (K : Type) := List (Runs.Step (OAuthNode K) (Event K))

/-- In a run, a token passed the checks with its signing key, of those that were installed. -/
def Checked (jwt : Jwt) (tr : Trace K) (token : String) : Prop :=
  ∃ x ∈ tr, ∃ i world c, x.event = .advance i world ∧ x.pre.calls[i]? = some c ∧
    c.phase = .readKeys ∧ c.token = token ∧
    (x.pre.verifier.decoded jwt world.valid token).isSome

/-- In a run, an introspection of a token answered active. It was asked by an authorization that
began at the given time. -/
def Active (tr : Trace K) (token : String) (began : ℕ) : Prop :=
  ∃ x ∈ tr, ∃ i world c entry ttl, x.event = .advance i world ∧ x.pre.calls[i]? = some c ∧
    c.phase = .ask entry ttl ∧ c.token = token ∧ c.now = began ∧ world.active = .ok true

/-- A token passed the checks, and its claims say what an entry holds. -/
structure Own (jwt : Jwt) (v : OAuthVerifier K) (tr : Trace K) (token : String)
    (entry : OAuthEntry) : Prop where
  checked : Checked jwt tr token
  claims : ∃ claims, jwt.claims token = some claims ∧
    v.claimed claims = some { entry with introspectOkUntil := 0 }

/-- If there is introspection, an entry is trusted no longer than an active answer is. -/
structure Proven (jwt : Jwt) (v : OAuthVerifier K) (tr : Trace K) (token : String)
    (entry : OAuthEntry) : Prop extends Own jwt v tr token entry where
  live : ∀ ttl, v.introspectTtl = some ttl →
    ∃ began, Active tr token began ∧ entry.introspectOkUntil ≤ began + ttl

/-- What an authorization on its way carries. -/
def CallSound (jwt : Jwt) (v : OAuthVerifier K) (tr : Trace K) (c : OAuthCall) : Prop :=
  match c.phase with
  | .readCache | .readKeys | .done _ => True
  | .readIntrospector entry ttl | .ask entry ttl =>
    Own jwt v tr c.token entry ∧ v.introspectTtl = some ttl
  | .store entry => Proven jwt v tr c.token entry

/-- The cache is bounded, and all that is cached or about to be is proven. -/
structure Sound (jwt : Jwt) (tr : Trace K) (node : OAuthNode K) : Prop where
  bounded : node.verifier.verified.keys.length ≤ OAuthVerifier.maxVerified
  cache : ∀ token entry, node.verifier.verified.lookup token = some entry →
    Proven jwt node.verifier tr token entry
  calls : ∀ c ∈ node.calls, CallSound jwt node.verifier tr c

section

variable {jwt : Jwt} {v w : OAuthVerifier K} {tr tr' : Trace K} {token : String}
  {entry : OAuthEntry} {node : OAuthNode K}

/-! ## Later in a run -/

theorem Checked.later (h : Checked jwt tr token) (hsub : tr ⊆ tr') : Checked jwt tr' token := by
  obtain ⟨x, hx, hrest⟩ := h
  exact ⟨x, hsub hx, hrest⟩

theorem Active.later {began : ℕ} (h : Active tr token began) (hsub : tr ⊆ tr') :
    Active tr' token began := by
  obtain ⟨x, hx, hrest⟩ := h
  exact ⟨x, hsub hx, hrest⟩

theorem Own.later (h : Own jwt v tr token entry) (hrules : v.SameRules w) (hsub : tr ⊆ tr') :
    Own jwt w tr' token entry := by
  obtain ⟨claims, hclaims, hclaimed⟩ := h.claims
  exact ⟨h.checked.later hsub, claims, hclaims, (hrules.claimed_eq claims).trans hclaimed⟩

theorem Proven.later (h : Proven jwt v tr token entry) (hrules : v.SameRules w)
    (hsub : tr ⊆ tr') : Proven jwt w tr' token entry := by
  refine ⟨h.toOwn.later hrules hsub, fun ttl httl => ?_⟩
  obtain ⟨began, hactive, hle⟩ := h.live ttl (hrules.introspectTtl.symm.trans httl)
  exact ⟨began, hactive.later hsub, hle⟩

theorem CallSound.later {c : OAuthCall} (h : CallSound jwt v tr c) (hrules : v.SameRules w)
    (hsub : tr ⊆ tr') : CallSound jwt w tr' c := by
  rw [CallSound] at h ⊢
  cases hphase : c.phase with
  | readCache => trivial
  | readKeys => trivial
  | readIntrospector entry ttl =>
    rw [hphase] at h
    exact ⟨h.1.later hrules hsub, hrules.introspectTtl.trans h.2⟩
  | ask entry ttl =>
    rw [hphase] at h
    exact ⟨h.1.later hrules hsub, hrules.introspectTtl.trans h.2⟩
  | store entry =>
    rw [hphase] at h
    exact h.later hrules hsub
  | done answer => trivial

/-! ## One step -/

/-- **One step of an authorization**, which is one of the steps of the run: the verifier stays or
remembers an entry that is proven, and what the authorization carries is sound. -/
theorem callStep_sound {x : Runs.Step (OAuthNode K) (Event K)} (hx : x ∈ tr) {i : ℕ}
    {world : OAuthWorld K} (hevent : x.event = .advance i world) {c : OAuthCall}
    (hc : x.pre.calls[i]? = some c) (hcall : CallSound jwt x.pre.verifier tr c) :
    CallSound jwt x.pre.verifier tr (c.step jwt world x.pre.wired x.pre.verifier).2 ∧
      ((c.step jwt world x.pre.wired x.pre.verifier).1 = x.pre.verifier ∨
        ∃ entry, Proven jwt x.pre.verifier tr c.token entry ∧
          (c.step jwt world x.pre.wired x.pre.verifier).1 =
            x.pre.verifier.remember world.order c.token entry) := by
  rw [OAuthCall.step]
  cases hphase : c.phase with
  | readCache =>
    dsimp only
    split
    · exact ⟨trivial, .inl rfl⟩
    · exact ⟨trivial, .inl rfl⟩
  | readKeys =>
    dsimp only
    cases hd : (x.pre.verifier.decoded jwt world.valid c.token).bind x.pre.verifier.claimed with
    | none => exact ⟨trivial, .inl rfl⟩
    | some entry =>
      obtain ⟨claims, hdecoded, hclaimed⟩ := Option.bind_eq_some_iff.mp hd
      have hown : Own jwt x.pre.verifier tr c.token entry := by
        refine ⟨⟨x, hx, i, world, c, hevent, hc, hphase, rfl, by rw [hdecoded]; rfl⟩, claims,
          OAuthVerifier.decoded_claims hdecoded, ?_⟩
        rw [hclaimed, OAuthVerifier.claimed_fresh hclaimed]
      cases httl : x.pre.verifier.introspectTtl with
      | none =>
        refine ⟨⟨hown, fun ttl h => ?_⟩, .inl rfl⟩
        rw [httl] at h
        cases h
      | some ttl => exact ⟨⟨hown, httl⟩, .inl rfl⟩
  | readIntrospector entry ttl =>
    rw [CallSound, hphase] at hcall
    dsimp only
    split
    · exact ⟨hcall, .inl rfl⟩
    · exact ⟨trivial, .inl rfl⟩
  | ask entry ttl =>
    rw [CallSound, hphase] at hcall
    obtain ⟨hown, httl⟩ := hcall
    dsimp only
    split
    · rename_i hactive
      refine ⟨⟨⟨hown.checked, hown.claims⟩, fun ttl' httl' => ?_⟩, .inl rfl⟩
      rw [httl] at httl'
      cases httl'
      exact ⟨c.now, ⟨x, hx, i, world, c, entry, ttl, hevent, hc, hphase, rfl, rfl, hactive⟩,
        Nat.min_le_left _ _⟩
    · exact ⟨trivial, .inl rfl⟩
  | store entry =>
    rw [CallSound, hphase] at hcall
    exact ⟨trivial, .inr ⟨entry, hcall, rfl⟩⟩
  | done answer =>
    refine ⟨?_, .inl rfl⟩
    rw [CallSound, hphase]
    trivial

/-- Calls and entries that were sound are so after a step that keeps the rules. -/
theorem Sound.later (h : Sound jwt tr node) (hrules : node.verifier.SameRules w)
    (hsub : tr ⊆ tr') :
    (∀ token entry, node.verifier.verified.lookup token = some entry →
      Proven jwt w tr' token entry) ∧ ∀ c ∈ node.calls, CallSound jwt w tr' c :=
  ⟨fun token entry he => (h.cache token entry he).later hrules hsub,
    fun c hc => (h.calls c hc).later hrules hsub⟩

/-- What holds of all members and of a new one holds of all after it replaces one. -/
theorem forall_mem_set {P : OAuthCall → Prop} {calls : List OAuthCall} {i : ℕ} {c : OAuthCall}
    (hall : ∀ d ∈ calls, P d) (hc : P c) : ∀ d ∈ calls.set i c, P d := by
  intro d hd
  rcases List.mem_or_eq_of_mem_set hd with hd | rfl
  · exact hall d hd
  · exact hc

/-- **One step of a run.** -/
theorem step_sound (h : Sound jwt tr node) (e : Event K) :
    Sound jwt (tr ++ [⟨node, e, node.step jwt e⟩]) (node.step jwt e) := by
  have hsub : tr ⊆ tr ++ [⟨node, e, node.step jwt e⟩] := List.subset_append_left _ _
  cases e with
  | begin token model now =>
    obtain ⟨hcache, hcalls⟩ := h.later (.refl _) hsub
    refine ⟨h.bounded, hcache, fun c hc => ?_⟩
    rcases List.mem_append.mp hc with hc | hc
    · exact hcalls c hc
    · rw [List.mem_singleton.mp hc]
      trivial
  | installJwks jwks =>
    obtain ⟨hcache, hcalls⟩ := h.later (.installJwks node.verifier jwks) hsub
    exact ⟨h.bounded, hcache, hcalls⟩
  | installIntrospector =>
    obtain ⟨hcache, hcalls⟩ := h.later (.refl _) hsub
    exact ⟨h.bounded, hcache, hcalls⟩
  | advance i world =>
    obtain ⟨hcache, hcalls⟩ := h.later (.refl _) hsub
    have hlast : ⟨node, .advance i world, node.step jwt (.advance i world)⟩ ∈
        tr ++ [⟨node, .advance i world, node.step jwt (.advance i world)⟩] :=
      List.mem_append_right _ (List.mem_singleton.mpr rfl)
    generalize tr ++ [⟨node, .advance i world, node.step jwt (.advance i world)⟩] = tr' at *
    cases hi : node.calls[i]? with
    | none =>
      rw [step]
      simp only [hi]
      exact ⟨h.bounded, hcache, hcalls⟩
    | some c =>
      obtain ⟨hcall, hverifier⟩ :=
        callStep_sound hlast rfl hi (hcalls c (List.mem_of_getElem? hi))
      dsimp only at hcall hverifier
      rw [step]
      simp only [hi]
      rcases hverifier with hsame | ⟨entry, hproven, hremember⟩
      · rw [hsame]
        exact ⟨h.bounded, hcache, forall_mem_set hcalls hcall⟩
      · rw [hremember]
        have hrules := OAuthVerifier.SameRules.remember node.verifier world.order c.token entry
        refine ⟨OAuthVerifier.length_remember h.bounded world.order c.token entry, ?_, ?_⟩
        · intro token entry' hentry
          rcases OAuthVerifier.lookup_remember hentry with ⟨rfl, rfl⟩ | hold
          · exact hproven.later hrules (List.Subset.refl _)
          · exact (hcache token entry' hold).later hrules (List.Subset.refl _)
        · exact fun d hd =>
            (forall_mem_set hcalls hcall d hd).later hrules (List.Subset.refl _)

/-- **The run.** Every state reached is sound. -/
theorem run_sound {s t : OAuthNode K} (hs : (system jwt).init s)
    (hr : Runs.Run (system jwt) s tr t) : Sound jwt tr t := by
  refine hr.invariant_trace (P := fun tr t => Sound jwt tr t) ?_ ?_
  · obtain ⟨cfg, jwks, rfl⟩ := hs
    refine ⟨Nat.zero_le _, fun token entry h => ?_, fun c hc => ?_⟩
    · cases h
    · cases hc
  · rintro tr t e t' - ih rfl
    exact step_sound ih e

/-! ## Answers from the cache -/

/-- What may be answered from the cache: the identity and the model decision that the token's own
claims give, before they expire, and not longer after an active introspection than configured. -/
structure Owed (jwt : Jwt) (v : OAuthVerifier K) (tr : Trace K) (c : OAuthCall)
    (answer : Except AuthError KeyId) : Prop where
  checked : Checked jwt tr c.token
  claims : ∃ claims keyId exp, jwt.claims c.token = some claims ∧
    (claims.get v.identityClaim).bind Value.asStr = some keyId ∧
    (claims.get "exp").bind Value.asU64 = some exp ∧ c.now < exp ∧
    answer = if c.model.all (v.allowedModels claims).permits then .ok keyId
      else .error .modelNotAllowed
  live : ∀ ttl, v.introspectTtl = some ttl →
    ∃ began, Active tr c.token began ∧ c.now < began + ttl

/-- An entry that is proven and may be trusted answers as owed. -/
theorem Proven.owed {c : OAuthCall} (h : Proven jwt v tr c.token entry)
    (hwarm : v.warm c.token c.now = some entry) :
    Owed jwt v tr c (OAuthVerifier.gate entry c.model) := by
  obtain ⟨-, hexp, hfresh⟩ := OAuthVerifier.warm_trusted hwarm
  obtain ⟨claims, hclaims, hclaimed⟩ := h.claims
  obtain ⟨keyId, exp, hkeyId, hexp', hentry⟩ := OAuthVerifier.claimed_some hclaimed
  rw [OAuthEntry.mk.injEq] at hentry
  obtain ⟨hwho, hmodels, hends, -⟩ := hentry
  refine ⟨h.checked, ⟨claims, keyId, exp, hclaims, hkeyId, hexp', ?_, ?_⟩, fun ttl httl => ?_⟩
  · rwa [hends] at hexp
  · rw [OAuthVerifier.gate, hwho, hmodels]
  · obtain ⟨began, hactive, hle⟩ := h.live ttl httl
    refine ⟨began, hactive, lt_of_lt_of_le ?_ hle⟩
    rcases hfresh with hnone | hfresh
    · rw [httl] at hnone
      cases hnone
    · exact hfresh

/-- **The cache of verified tokens.** In every state that a run reaches it is bounded, and what an
authorization is answered from it is owed. -/
theorem answers_from_cache {s t : OAuthNode K} (hs : (system jwt).init s)
    (hr : Runs.Run (system jwt) s tr t) :
    t.verifier.verified.keys.length ≤ OAuthVerifier.maxVerified ∧
      ∀ i world c answer, t.calls[i]? = some c → c.phase = .readCache →
        ((t.step jwt (.advance i world)).calls[i]?).map (·.phase) = some (.done answer) →
          Owed jwt t.verifier tr c answer := by
  have hsound := run_sound hs hr
  refine ⟨hsound.bounded, fun i world c answer hc hphase hdone => ?_⟩
  obtain ⟨hlt, -⟩ := List.getElem?_eq_some_iff.mp hc
  rw [step, hc] at hdone
  dsimp only at hdone
  rw [List.getElem?_set_self hlt, Option.map_some, Option.some.injEq, OAuthCall.step, hphase]
    at hdone
  dsimp only at hdone
  cases hwarm : t.verifier.warm c.token c.now with
  | none =>
    rw [hwarm] at hdone
    cases hdone
  | some entry =>
    rw [hwarm] at hdone
    cases hdone
    exact (hsound.cache _ _ (OAuthVerifier.warm_trusted hwarm).1).owed hwarm

end

/-! ## A token that is asked for twice -/

/-- A token of an engineer that expires at 500. -/
def engineerJwt : Jwt where
  header token := if token = "eng" then some none else none
  claims token :=
    if token = "eng" then some (.object [("sub", .string "svc"), ("exp", .number (.posInt 500)),
      ("roles", .array [.string "eng"])])
    else none

/-- Engineers may use one model; introspections are trusted for a minute. -/
def engineerConfig : OAuthConfig := ⟨"sub", "roles", HashMap.collect [("eng", ["gpt-4o"])], some 60⟩

/-- All checks pass. -/
def trusting : OAuthWorld Unit := ⟨fun _ => true, .ok true, .id String⟩

/-- The token is proven at 100 and asked for again at 159, when all signing keys are gone. -/
def askedAgain : List (Event Unit) :=
  [.installIntrospector, .begin "eng" (some "gpt-4o") 100, .advance 0 trusting,
    .advance 0 trusting, .advance 0 trusting, .advance 0 trusting, .advance 0 trusting,
    .installJwks ∅, .begin "eng" (some "o3") 159]

theorem answers_from_cache_again :
    let verifier : OAuthVerifier Unit := .fromConfig engineerConfig (HashMap.collect [("", ())])
    let tr := Runs.trace (step engineerJwt) (start verifier) askedAgain
    let node := askedAgain.foldl (step engineerJwt) (start verifier)
    ((node.step engineerJwt (.advance 1 trusting)).calls[1]?).map (·.phase) =
        some (.done (.error .modelNotAllowed)) ∧
      node.verifier.verified.keys.length ≤ OAuthVerifier.maxVerified ∧
      ∀ i world c answer, node.calls[i]? = some c → c.phase = .readCache →
        ((node.step engineerJwt (.advance i world)).calls[i]?).map (·.phase) =
            some (.done answer) →
          Owed engineerJwt node.verifier tr c answer :=
  ⟨by rfl, answers_from_cache ⟨engineerConfig, _, rfl⟩ (Runs.Run.exec _ _ _ askedAgain)⟩

end OAuthNode

end Llmleaf
