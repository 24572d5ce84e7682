import Llmleaf.Topology.Layer

/-!
# Two nodes that pulled the same payload

Whatever a node installed before, its snapshot is the base with the layer of the last payload, so
two nodes can only differ where the source reads a hash map in its iteration order. The one such
place is the list of namespaces: of two pulled providers that claim the same namespace the one the
iteration yields first is resolved to, unless a base provider claims it too.

- `RoutesAlike`: what two nodes agree on.
- `NoSharedNamespace`: no two pulled providers share a namespace the base does not claim.
- `routesAlike_iff_noSharedNamespace`: all histories that end in a payload route alike exactly when
  its providers share no namespace.
-/

namespace Llmleaf.Engine

open Runs Router

/-- Two nodes resolve the same models to the same chains, hold instances of the same kinds under the
same names, and the same provider configurations. -/
structure RoutesAlike (e e' : Engine) : Prop where
  resolve : ∀ model, e.topology.router.resolve model = e'.topology.router.resolve model
  registered : ∀ name, (e.topology.registry.lookup name).map (·.kind) =
    (e'.topology.registry.lookup name).map (·.kind)
  configs : ∀ name, e.topology.providers.lookup name = e'.topology.providers.lookup name

/-- Two installed pulled providers with one namespace are the same, or the base claims it. -/
def NoSharedNamespace (factory : ProviderFactory) (config : Config)
    (pulled : List ProviderConfig) : Prop :=
  ∀ name p name' p' pfx, acceptedProvider factory config.providers pulled name = some p →
    acceptedProvider factory config.providers pulled name' = some p' →
    p.pfx = some pfx → p'.pfx = some pfx →
    name = name' ∨ ∃ b ∈ claimed config.providers, b.1 = pfx

section

variable {factory : ProviderFactory} {config : Config} {registry : HashMap String Instance}
  {pulled : List ProviderConfig} {routes : List RouteConfig} {e e' : Engine}

/-- Without a shared namespace the deciding claim does not depend on the iteration order. -/
theorem bestClaim_congr (hs : NoSharedNamespace factory config pulled) {ps ps' : List ProviderConfig}
    (hps : ∀ c, c ∈ claimed ps ↔ ∃ p, acceptedProvider factory config.providers pulled c.2 = some p ∧
      p.pfx = some c.1)
    (hps' : ∀ c, c ∈ claimed ps' ↔
      ∃ p, acceptedProvider factory config.providers pulled c.2 = some p ∧ p.pfx = some c.1)
    (model : String) :
    bestClaim (config.providers ++ ps) model = bestClaim (config.providers ++ ps') model := by
  have hmem : ∀ c, c ∈ claimed ps ↔ c ∈ claimed ps' := fun c => (hps c).trans (hps' c).symm
  have hlen := LongestMatch.len_longest?_congr pfxLen (holds model) hmem
  rw [bestClaim_append, bestClaim_append]
  -- equally long pulled claims that a base claim does not match in length are one claim
  have huniq : ∀ c, bestClaim ps model = some c →
      (∀ b, bestClaim config.providers model = some b → pfxLen b < pfxLen c) →
      bestClaim ps model = bestClaim ps' model := by
    intro c hc hbase
    refine LongestMatch.longest?_congr _ _ hmem fun a ha b hb hpb hab => ?_
    obtain rfl : a = c := Option.some.inj (ha.symm.trans hc)
    obtain ⟨ham, r, hr⟩ := bestClaim_mem hc
    obtain ⟨t, ht⟩ := Option.isSome_iff_exists.mp hpb
    have hpre : a.1 = b.1 := stripNamespace_unique hr ht hab
    obtain ⟨p, hp, hppre⟩ := (hps a).mp ham
    obtain ⟨q, hq, hqpre⟩ := (hps b).mp hb
    rcases hs a.2 p b.2 q a.1 hp hq hppre (hpre ▸ hqpre) with hname | ⟨d, hd, hdpre⟩
    · exact Prod.ext hpre hname
    · exfalso
      have hhold : holds model d := by simp [holds, hdpre, hr]
      cases hbest : bestClaim config.providers model with
      | none => exact LongestMatch.longest?_eq_none _ _ |>.mp hbest d hd hhold
      | some b0 =>
        have hle := LongestMatch.le_longest? _ _ hbest d hd hhold
        have := hbase b0 hbest
        simp only [pfxLen, hdpre] at hle this
        omega
  cases hc : bestClaim ps model with
  | none =>
    have : bestClaim ps' model = none := by
      rw [bestClaim] at hc
      rw [hc] at hlen
      exact Option.map_eq_none_iff.mp hlen.symm
    rw [this]
  | some c =>
    cases hb : bestClaim config.providers model with
    | none =>
      rw [← huniq c hc (fun b hb' => by rw [hb] at hb'; cases hb'), hc]
    | some b =>
      by_cases hle : pfxLen c ≤ pfxLen b
      · rw [bestClaim] at hc
        rw [hc, Option.map_some] at hlen
        obtain ⟨c', hc', hlen'⟩ := Option.map_eq_some_iff.mp hlen.symm
        rw [show bestClaim ps' model = some c' from hc', LongestMatch.longer, LongestMatch.longer,
          if_pos hle, if_pos (hlen' ▸ hle)]
      · rw [← huniq c hc (fun b' hb' => by rw [hb] at hb'; cases hb'; omega), hc]

/-- **Two snapshots of one payload without a shared namespace route alike.** -/
theorem Layered.routesAlike (h : Layered factory config registry pulled routes e)
    (h' : Layered factory config registry pulled routes e')
    (hs : NoSharedNamespace factory config pulled) : RoutesAlike e e' where
  resolve model := by
    obtain ⟨ps, hps, hres⟩ := h.resolve
    obtain ⟨ps', hps', hres'⟩ := h'.resolve
    rw [hres, hres', resolvePrefix, resolvePrefix,
      bestClaim_congr hs (h.claimed_iff hps) (h'.claimed_iff hps')]
  registered name := by
    rw [h.registered, h'.registered]
    have hkind : (e.topology.dynamicInstances.lookup name).map (·.kind) =
        (e'.topology.dynamicInstances.lookup name).map (·.kind) := by
      rw [(h.instantiated name).1, (h'.instantiated name).1, h.dynamicProviders,
        h'.dynamicProviders]
    cases hi : e.topology.dynamicInstances.lookup name <;>
      cases hi' : e'.topology.dynamicInstances.lookup name <;> simp_all
  configs name := by rw [h.configs, h'.configs]

end

/-! ## A shared namespace -/

section

variable {factory : ProviderFactory} {config : Config} {registry : HashMap String Instance}
  {born : Births} {i : Install} {name pfx : String} {p : ProviderConfig}

/-- The first install of a provider swaps in a snapshot built in the orders of that install. -/
theorem router_of_first_install
    (hp : acceptedProvider factory config.providers i.providers name = some p) :
    let e := (Engine.new config registry born).install factory i
    ∃ rs, rs.Perm e.topology.dynamicRoutes.values ∧
      e.topology.router = Router.new (config.routes ++ rs)
        (config.providers ++ i.orders.providers.order e.topology.dynamicProviders.values) := by
  have hnew := layered_new factory config registry born
  have hlook := (accept_spec hnew.instantiated i.providers).2 name
  rw [hnew.baseProviders, hp] at hlook
  simp only [Engine.install, installTopology]
  split
  · -- the pull adds a provider to an empty layer
    rename_i hnoop
    simp only [TopologyDiff.isNoop, Bool.and_eq_true, beq_iff_eq, diff] at hnoop
    have hsame := hnoop.1.1.1.1.1
    rw [added, List.countP_eq_zero] at hsame
    exact absurd (by simp [Engine.new]) (hsame _ (HashMap.mem_pairs.mpr hlook))
  · exact ⟨_, i.orders.routes.perm _, rfl⟩

/-- A claim of the first pulled provider decides a model right under its namespace, if the base
does not claim it. -/
theorem bestClaim_front {ps : List ProviderConfig} (hpfx : p.pfx = some pfx)
    (hbase : ¬ ∃ b ∈ claimed config.providers, b.1 = pfx) {model rest : String}
    (hslash : '/' ∉ rest.toList) (hstrip : stripNamespace model pfx = some rest) :
    bestClaim (config.providers ++ p :: ps) model = some (pfx, p.name) := by
  have hle : ∀ c : String × String, holds model c → pfxLen c ≤ pfxLen (pfx, p.name) := by
    intro c hc
    obtain ⟨t, ht⟩ := Option.isSome_iff_exists.mp hc
    exact stripNamespace_le hstrip hslash ht
  have hcons : claimed (p :: ps) = (pfx, p.name) :: claimed ps := by
    simp [claimed, hpfx]
  have hfirst : bestClaim (p :: ps) model = some (pfx, p.name) := by
    rw [bestClaim, hcons]
    exact LongestMatch.longest?_cons_of_le _ _ (by simp [holds, hstrip]) fun c _ hc => hle c hc
  rw [bestClaim_append, hfirst]
  cases hb : bestClaim config.providers model with
  | none => rfl
  | some b =>
    obtain ⟨hbm, r, hr⟩ := bestClaim_mem hb
    have hlt : pfxLen b < pfxLen (pfx, p.name) := by
      refine lt_of_le_of_ne (stripNamespace_le hstrip hslash hr) fun heq => hbase ⟨b, hbm, ?_⟩
      exact stripNamespace_unique hr hstrip heq
    rw [LongestMatch.longer, if_neg (by omega)]

/-- A model right under a shared namespace goes to the provider the iteration yields first. -/
theorem resolve_front (hp : acceptedProvider factory config.providers i.providers name = some p)
    (hpfx : p.pfx = some pfx) (hbase : ¬ ∃ b ∈ claimed config.providers, b.1 = pfx)
    (horder : i.orders.providers = .front p) {rest : String} (hslash : '/' ∉ rest.toList)
    (hstrip : stripNamespace (pfx ++ "/" ++ rest) pfx = some rest)
    (hex : explicit config.routes (pfx ++ "/" ++ rest) = none)
    (hroute : acceptedRoute config.routes i.routes (pfx ++ "/" ++ rest) = none) :
    ((Engine.new config registry born).install factory i).topology.router.resolve
      (pfx ++ "/" ++ rest) = some [⟨name, some rest⟩] := by
  have hlayered := (layered_new factory config registry born).install i
  obtain ⟨rs, hrs, hrouter⟩ :=
    @router_of_first_install factory config registry born i name p hp
  have hmem : p ∈ ((Engine.new config registry born).install factory
      i).topology.dynamicProviders.values :=
    HashMap.mem_values.mpr ⟨name, by rw [hlayered.dynamicProviders, hp]⟩
  rw [hlayered.resolve_of_router hrs hrouter, hroute, hex, horder, Shuffle.front]
  simp only [if_pos hmem, Option.map_none, Option.none_or]
  rw [resolvePrefix_eq_some (bestClaim_front hpfx hbase hslash hstrip) hstrip,
    (acceptedProvider_eq_some hp).1]

end

/-- **All histories that end in a payload route alike exactly when no two of its providers share a
namespace that the base does not claim.** -/
theorem routesAlike_iff_noSharedNamespace (factory : ProviderFactory) (config : Config)
    (registry : HashMap String Instance) (pulled : List ProviderConfig) (routes : List RouteConfig) :
    (∀ born born' tr tr' e e',
      Run (system factory config registry born) (.new config registry born) tr e →
      Run (system factory config registry born') (.new config registry born') tr' e' →
      lastPull (events tr) = (pulled, routes) → lastPull (events tr') = (pulled, routes) →
      RoutesAlike e e') ↔ NoSharedNamespace factory config pulled := by
  constructor
  · intro hall name p name' p' pfx hp hp' hpfx hpfx'
    by_contra hnot
    obtain ⟨hname, hbase⟩ := not_or.mp hnot
    obtain ⟨rest, hslash, hstrip, hex, hroute⟩ := exists_unrouted config routes pfx
    -- one install each, the two providers first in turn
    let pull (first : ProviderConfig) : Install :=
      ⟨pulled, routes, ⟨.front first, .id _, .id _, .id _⟩, fun _ _ => (0, 0)⟩
    have hrun := fun first => run_installs factory config registry (fun _ _ => (0, 0)) [pull first]
    have halike := hall _ _ _ _ _ _ (hrun p) (hrun p') rfl rfl
    have hres := halike.resolve (pfx ++ "/" ++ rest)
    simp only [List.foldl_cons, List.foldl_nil] at hres
    rw [resolve_front (i := pull p) hp hpfx hbase rfl hslash hstrip hex hroute,
      resolve_front (i := pull p') hp' hpfx' hbase rfl hslash hstrip hex hroute] at hres
    simp only [Option.some.injEq, List.cons.injEq, Target.mk.injEq] at hres
    exact hname hres.1.1
  · intro hs born born' tr tr' e e' hrun hrun' hlast hlast'
    have h := layered_of_run hrun
    have h' := layered_of_run hrun'
    rw [hlast] at h
    rw [hlast'] at h'
    exact h.routesAlike h' hs

/-! ## Two providers of one namespace -/

/-- A factory that knows every kind. -/
def anyKind : ProviderFactory := ⟨fun _ => true⟩

/-- A pull of two providers that claim one namespace, iterated with `first` in front. -/
def pullShared (first : String) : Install where
  providers := [.plain "east" "openai" (some "oai"), .plain "west" "openai" (some "oai")]
  routes := []
  orders := ⟨.front (.plain first "openai" (some "oai")), .id _, .id _, .id _⟩
  born := fun _ _ => (0, 0)

/-- Two nodes that pulled two providers of one namespace send its models to different providers. -/
theorem shared_namespace_diverges :
    ¬ ∀ tr tr' e e',
      Run (system anyKind ⟨[], []⟩ ∅ fun _ _ => (0, 0)) (.new ⟨[], []⟩ ∅ fun _ _ => (0, 0)) tr e →
      Run (system anyKind ⟨[], []⟩ ∅ fun _ _ => (0, 0)) (.new ⟨[], []⟩ ∅ fun _ _ => (0, 0)) tr' e' →
      lastPull (events tr) = lastPull (events tr') → RoutesAlike e e' := by
  intro h
  have hrun := fun first => run_installs anyKind ⟨[], []⟩ ∅ (fun _ _ => (0, 0)) [pullShared first]
  have hres := (h _ _ _ _ (hrun "east") (hrun "west") rfl).resolve "oai/gpt-4o"
  revert hres
  decide

end Llmleaf.Engine
