import Llmleaf.Server
import Llmleaf.Topology
import Mathlib.Data.String.Basic

/-!
# The model listing

A node lists the models it serves: the routed ones and, for each namespace, the catalog its
provider reports. What a caller sees is scoped by the key store, through the display id that
authentication returned. An OAuth caller is authorized by its roles instead, so its listing and its
requests are decided by different rules.

- `assemble`: the entries before scoping.
- `AppState.listModels`: the listing.
- `mem_shown`: the entries a caller sees.
- **Result** (`listModels_agrees_iff`): listing and authorization agree on every callable entry
  exactly when the bearer goes to the key store, or the token's roles permit the same of these models
  as the allow-lists of the key whose display id is the token's identity.

Metadata, prices and the type and search filters of the listing are left out.
-/

namespace Llmleaf

/-! ## Entries -/

/-- Where a listed entry comes from: a route, or a provider's namespace. -/
inductive Source where
  | route
  | namespaced
  deriving DecidableEq

/-- One listed entry. Only the marker of a namespace that cannot be enumerated is not callable. -/
structure ModelEntry where
  source : Source
  callable : Bool
  provider : Option String
  upstreamModel : Option String
  deriving DecidableEq

/-- What a listing reads: a topology snapshot, the topology that resolves the routes, the upstream
catalogs and the orders of the iterations. -/
structure ListingView where
  topology : Topology
  latest : Topology
  /-- The model ids a provider reports, if it can enumerate them. -/
  models : String → Option (List String)
  routeOrder : Shuffle String
  keyOrder : Shuffle (KeyId × KeyState)

namespace ListingView

/-- The catalog of a registered provider. -/
def providerModels (self : ListingView) (provider : String) : Option (List String) :=
  if provider ∈ self.latest.registry then self.models provider else none

/-- The routed models that resolve. -/
def routes (self : ListingView) : List String :=
  (self.routeOrder.order self.topology.router.table.keys).filter fun model =>
    (self.latest.router.resolve model).isSome

/-- Add one routed model. -/
def addRoute (entries : HashMap String ModelEntry) (model : String) : HashMap String ModelEntry :=
  entries.insert model ⟨.route, true, none, none⟩

/-- Add a namespace: its provider's catalog, or a marker. -/
def addPrefix (self : ListingView) (entries : HashMap String ModelEntry) (e : String × String) :
    HashMap String ModelEntry :=
  match self.providerModels e.2 with
  | some models =>
    models.foldl (fun entries bare =>
      entries.orInsert (e.1 ++ "/" ++ bare) ⟨.namespaced, true, some e.2, some bare⟩) entries
  | none => entries.orInsert (e.1 ++ "/*") ⟨.namespaced, false, some e.2, some "*"⟩

/-- All entries, by id. -/
def assemble (self : ListingView) : HashMap String ModelEntry :=
  self.topology.router.prefixes.foldl self.addPrefix (self.routes.foldl addRoute ∅)

end ListingView

/-! ## The listing -/

variable {K : Type}

/-- The scoped entries in the order of their ids. -/
def shown (view : ListingView) (allowed : Option ModelScope) (admin : Bool) :
    List (String × ModelEntry) :=
  let entries := view.assemble.retain fun id _ => allowed.all fun scope => scope.permits id
  let entries := if admin then entries else entries.retain fun _ e => e.callable
  entries.ascending

/-- List the models a bearer can see. -/
def AppState.listModels (self : AppState K) (env : AuthEnv K) (view : ListingView) (admin : Bool)
    (token : String) (now : ℕ) : Except AuthError (List (String × ModelEntry)) × AppState K :=
  match self.authorizeTokenIdentity env token now with
  | (.error e, self) => (.error e, self)
  | (.ok key, self) => (.ok (shown view (self.keys.modelScope view.keyOrder key) admin), self)

/-- What a scoped listing shows. -/
theorem mem_shown {view : ListingView} {allowed : Option ModelScope} {admin : Bool} {id : String}
    {e : ModelEntry} :
    (id, e) ∈ shown view allowed admin ↔
      view.assemble.lookup id = some e ∧ allowed.all (fun scope => scope.permits id) = true ∧
        (admin = true ∨ e.callable = true) := by
  rw [shown, HashMap.mem_ascending, HashMap.mem_pairs]
  cases admin with
  | true =>
    rw [if_pos rfl, HashMap.lookup_retain, Option.filter_eq_some_iff]
    simp
  | false =>
    rw [if_neg Bool.false_ne_true, HashMap.lookup_retain, Option.filter_eq_some_iff,
      HashMap.lookup_retain, Option.filter_eq_some_iff]
    simp [and_assoc]

/-! ## Listing and authorization -/

variable {env : AuthEnv K} {state : AppState K} {token : String} {now : ℕ} {who : KeyId}

theorem AppState.authorizeWith_keys (self : AppState K) (env : AuthEnv K) (token : String)
    (model : Option String) (now : ℕ) :
    (self.authorizeWith env token model now).2.keys.snapshot = self.keys.snapshot := by
  rw [AppState.authorizeWith]
  split
  · split
    · rfl
    · exact KeyStore.authorizeInner_snapshot _ _ _ _ _
  · exact KeyStore.authorizeInner_snapshot _ _ _ _ _

/-- **A static key**: its listing scope permits what a request by it is not refused. -/
theorem AppState.authorizeToken_static (hstatic : state.verifierOf token = none)
    (hnames : state.keys.snapshot.WellNamed) (order : Shuffle (KeyId × KeyState))
    (h : (state.authorizeTokenIdentity env token now).1 = .ok who) (model : String) :
    ((state.authorizeTokenIdentity env token now).2.authorizeToken env token model now).1 =
      if (state.keys.snapshot.byDisplay order who).all (fun e => e.2.permits model) then .ok who
      else .error .modelNotAllowed := by
  -- both schemes' dispatch ends in the key store
  have hdispatch : ∀ (keys : KeyStore) (model : Option String),
      (AppState.mk keys state.oauth).authorizeWith env token model now =
        ((keys.authorizeInner env.verify token model now).1,
          ⟨(keys.authorizeInner env.verify token model now).2, state.oauth⟩) := by
    intro keys model
    simp only [AppState.authorizeWith]
    cases ho : state.oauth with
    | none => rfl
    | some oauth =>
      have hjwt : isJwt token = false := by
        cases hj : isJwt token with
        | false => rfl
        | true => rw [AppState.verifierOf, if_pos hj, ho] at hstatic; cases hstatic
      rw [hjwt]
      rfl
  have hfirst : state.authorizeTokenIdentity env token now = _ := hdispatch state.keys none
  rw [hfirst] at h ⊢
  obtain ⟨id, key, hkey, rfl, hmodels⟩ := KeyStore.authorizeInner_again h
  rw [AppState.authorizeToken, hdispatch, hmodels model, byDisplay_eq_some hnames order hkey]
  rfl

/-- **An OAuth caller** is answered by the roles of its token. -/
theorem AppState.authorizeToken_oauth {oauth : OAuthVerifier K}
    (hoauth : state.verifierOf token = some oauth)
    (h : (state.authorizeTokenIdentity env token now).1 = .ok who) :
    ∃ entry, oauth.entry env.idp token now = some entry ∧ entry.keyId = who ∧ ∀ model,
      ((state.authorizeTokenIdentity env token now).2.authorizeToken env token model now).1 =
        if entry.allowed.permits model then .ok who else .error .modelNotAllowed := by
  have hjwt : isJwt token = true := by
    by_contra hj
    rw [AppState.verifierOf, if_neg hj] at hoauth
    cases hoauth
  have ho : state.oauth = some oauth := by
    rwa [AppState.verifierOf, if_pos hjwt] at hoauth
  simp only [AppState.authorizeTokenIdentity, AppState.authorizeToken, AppState.authorizeWith, ho,
    hjwt, if_true] at h ⊢
  obtain ⟨entry, hentry, hwho, hmodels⟩ := OAuthVerifier.authorizeInner_again h
  exact ⟨entry, hentry, hwho, hmodels env.evict⟩

/-- The listing of an authenticated bearer. -/
theorem AppState.listModels_eq (h : (state.authorizeTokenIdentity env token now).1 = .ok who)
    (view : ListingView) (admin : Bool) :
    state.listModels env view admin token now =
      (.ok (shown view
        ((state.authorizeTokenIdentity env token now).2.keys.modelScope view.keyOrder who) admin),
        (state.authorizeTokenIdentity env token now).2) := by
  rw [AppState.listModels]
  generalize state.authorizeTokenIdentity env token now = r at h
  obtain ⟨answer, after⟩ := r
  cases h
  rfl

/-- What a listing shows of a callable entry: the verdict of the allow-lists of the static key with
the caller's display id, whatever scheme the caller came by. -/
theorem AppState.mem_listModels (h : (state.authorizeTokenIdentity env token now).1 = .ok who)
    (view : ListingView) (admin : Bool) {id : String} {e : ModelEntry}
    (hentry : view.assemble.lookup id = some e) (hcall : e.callable = true) :
    (∃ l, (state.listModels env view admin token now).1 = .ok l ∧ (id, e) ∈ l) ↔
      (state.keys.snapshot.byDisplay view.keyOrder who).all (fun e => e.2.permits id) = true := by
  rw [AppState.listModels_eq h]
  have hsnap : (state.authorizeTokenIdentity env token now).2.keys.snapshot =
      state.keys.snapshot := AppState.authorizeWith_keys _ _ _ _ _
  constructor
  · rintro ⟨l, hl, hmem⟩
    cases hl
    rw [mem_shown, modelScope_permits, hsnap] at hmem
    exact hmem.2.1
  · intro hperm
    refine ⟨_, rfl, mem_shown.mpr ⟨hentry, ?_, .inr hcall⟩⟩
    rw [modelScope_permits, hsnap]
    exact hperm

/-- The listing shows exactly the callable entries a request by the same bearer at the same time is
not refused. -/
def AppState.ListsAuthorized (self : AppState K) (env : AuthEnv K) (view : ListingView)
    (admin : Bool) (token : String) (now : ℕ) : Prop :=
  ∀ id e, view.assemble.lookup id = some e → e.callable = true →
    ((∃ l, (self.listModels env view admin token now).1 = .ok l ∧ (id, e) ∈ l) ↔
      ((self.listModels env view admin token now).2.authorizeToken env token id now).1 ≠
        .error .modelNotAllowed)

/-- **Listing and authorization agree** on every callable entry exactly when the bearer goes to the
key store, or its roles permit the same entries as the allow-lists of the static key whose display id
is the token's identity (all, if there is no such key). -/
theorem listModels_agrees_iff {resolve : Secret → Option String} {keys : List KeyConfig}
    {node : KeyNode} {tr : List (Runs.Step KeyNode KeyNode.Event)}
    (hvalid : validateKeys keys = true)
    (hr : Runs.Run (KeyNode.system env.verify) (.start (.fromConfig resolve keys)) tr node)
    (hkeys : state.keys = node.store)
    (h : (state.authorizeTokenIdentity env token now).1 = .ok who) (view : ListingView)
    (admin : Bool) :
    state.ListsAuthorized env view admin token now ↔
      ∀ oauth, state.verifierOf token = some oauth → ∀ entry,
        oauth.entry env.idp token now = some entry →
        ∀ id e, view.assemble.lookup id = some e → e.callable = true →
          entry.allowed.permits id =
            (state.keys.snapshot.byDisplay view.keyOrder entry.keyId).all
              (fun e => e.2.permits id) := by
  have hnames : state.keys.snapshot.WellNamed := hkeys ▸ KeyNode.run_wellNamed hvalid hr
  have hafter : (state.listModels env view admin token now).2 =
      (state.authorizeTokenIdentity env token now).2 := by rw [AppState.listModels_eq h]
  have hanswer : ∀ c : Bool, (if c then Except.ok who else .error AuthError.modelNotAllowed) ≠
      Except.error AuthError.modelNotAllowed ↔ c = true := by
    intro c
    cases c <;> simp
  unfold AppState.ListsAuthorized
  rw [hafter]
  cases ho : state.verifierOf token with
  | none =>
    refine ⟨fun _ _ hoauth => (nomatch hoauth), fun _ id e hentry hcall => ?_⟩
    rw [AppState.mem_listModels h view admin hentry hcall,
      AppState.authorizeToken_static ho hnames view.keyOrder h, hanswer]
  | some oauth =>
    obtain ⟨entry, hoentry, rfl, hmodels⟩ := AppState.authorizeToken_oauth ho h
    constructor
    · intro hagree oauth' hoauth' entry' hentry' id e hentry hcall
      cases hoauth'
      rw [hoentry] at hentry'
      cases hentry'
      have hiff := hagree id e hentry hcall
      rw [AppState.mem_listModels h view admin hentry hcall, hmodels, hanswer] at hiff
      exact Bool.eq_iff_iff.mpr hiff.symm
    · intro hsame id e hentry hcall
      rw [AppState.mem_listModels h view admin hentry hcall, hmodels, hanswer,
        hsame oauth rfl entry hoentry id e hentry hcall]

/-! ## A small node -/

/-- Two routed models, and a namespace whose provider cannot enumerate. -/
def twoRoutes : ListingView :=
  let config : Config :=
    { providers := [.plain "openai" "openai" (some "oai")]
      routes := [⟨"gpt-4o", [⟨"openai", none⟩]⟩, ⟨"o3", [⟨"openai", none⟩]⟩] }
  let topology := (Engine.new config ∅ fun _ _ => (0, 0)).topology
  { topology := topology
    latest := topology
    models := fun _ => none
    routeOrder := .id _
    keyOrder := .id _ }

/-- A signed token of `alice` in the role `dev`. -/
def aliceEnv : AuthEnv Unit where
  verify := KeyNode.verifyStored
  idp :=
    { decodeHeader := fun token => if token = "head.claims.sig" then some none else none
      decode := fun _ _ => some (.object [("sub", .string "alice"), ("exp", .number (.posInt 100)),
        ("roles", .array [.string "dev"])])
      introspect := none }
  evict := .id _

/-- A node with one static key whose verifier grants `dev` one model. -/
def devNode : AppState Unit where
  keys := KeyNode.narrowStore
  oauth := some (.fromConfig
    { identityClaim := "sub"
      rolesClaim := "roles"
      roleModels := HashMap.collect [("dev", ["gpt-4o"])]
      cacheTtlSecs := none }
    (HashMap.collect [("", ())]))

theorem listModels_agrees_iff_static :
    let token := "bmFycm93OnMzY3JldA=="
    (devNode.listModels aliceEnv twoRoutes false token 5).1 =
      .ok [("gpt-4o", ⟨.route, true, none, none⟩)] ∧
    devNode.ListsAuthorized aliceEnv twoRoutes false token 5 := by
  have hnode : devNode.keys = (KeyNode.start KeyNode.narrowStore).store := rfl
  have hauth : (devNode.authorizeTokenIdentity aliceEnv "bmFycm93OnMzY3JldA==" 5).1 =
      .ok "narrow" := by decide +kernel
  exact ⟨by decide +kernel, (listModels_agrees_iff (by decide +kernel) .nil hnode hauth twoRoutes
    false).mpr fun _ h => by cases h⟩

/-- The roles of `alice` grant one model, and she sees both. -/
theorem oauth_listing_shows_refused :
    (devNode.listModels aliceEnv twoRoutes false "head.claims.sig" 5).1 =
      .ok [("gpt-4o", ⟨.route, true, none, none⟩), ("o3", ⟨.route, true, none, none⟩)] ∧
    ((devNode.listModels aliceEnv twoRoutes false "head.claims.sig" 5).2.authorizeToken aliceEnv
      "head.claims.sig" "o3" 5).1 = .error .modelNotAllowed ∧
    ¬ devNode.ListsAuthorized aliceEnv twoRoutes false "head.claims.sig" 5 := by
  have hlist : (devNode.listModels aliceEnv twoRoutes false "head.claims.sig" 5).1 =
      .ok [("gpt-4o", ⟨.route, true, none, none⟩), ("o3", ⟨.route, true, none, none⟩)] := by
    decide +kernel
  have hrefused : ((devNode.listModels aliceEnv twoRoutes false "head.claims.sig" 5).2.authorizeToken
      aliceEnv "head.claims.sig" "o3" 5).1 = .error .modelNotAllowed := by decide +kernel
  have hentry : twoRoutes.assemble.lookup "o3" = some ⟨.route, true, none, none⟩ := by
    decide +kernel
  refine ⟨hlist, hrefused, fun hagree => ?_⟩
  exact (hagree "o3" _ hentry rfl).mp ⟨_, hlist, by decide +kernel⟩ hrefused

end Llmleaf
