import Llmleaf.Topology.Layer

/-!
# The pulled layer and the file base

The reconciliation filters a pull by provider name and by the model of an explicit route. Models
are also resolved by namespace, and there a pulled entry can take a model from the base: a pulled
route for a model of a base namespace, or a pulled provider whose namespace lies inside that of a
base provider.

- `KeepsBase`: what the base resolves alone resolves to the same chain, and base providers keep
  their instances and configurations.
- `LeavesBase`: a pulled payload takes no such model.
- `keepsBase_iff_leavesBase`: a run of installs keeps the base in every state exactly when every
  payload leaves it alone.
-/

namespace Llmleaf.Engine

open Runs Router

/-- The router of the file base alone. -/
def baseRouter (config : Config) : Router := .new config.routes config.providers

/-- The node resolves what the base resolves as the base does, and holds its providers as they
were configured. -/
def KeepsBase (config : Config) (registry : HashMap String Instance) (e : Engine) : Prop :=
  (∀ model chain, (baseRouter config).resolve model = some chain →
    e.topology.router.resolve model = some chain) ∧
  ∀ p ∈ config.providers, e.topology.registry.lookup p.name = registry.lookup p.name ∧
    e.topology.providers.lookup p.name = (byName config.providers).lookup p.name

/-- The installed routes of the pull give every model of a base namespace the chain it has there,
and no installed provider claims a namespace inside one of the base that the base does not claim
itself. -/
def LeavesBase (factory : ProviderFactory) (config : Config) (i : Install) : Prop :=
  (∀ model r, acceptedRoute config.routes i.routes model = some r →
    ∀ chain, resolvePrefix config.providers model = some chain → r.targets = chain) ∧
  ∀ name p pfx, acceptedProvider factory config.providers i.providers name = some p →
    p.pfx = some pfx → (∃ b ∈ claimed config.providers, inside pfx b.1) →
    ∃ b ∈ claimed config.providers, b.1 = pfx

/-- Base providers are never touched. -/
theorem Layered.keeps_providers {factory : ProviderFactory} {config : Config}
    {registry : HashMap String Instance} {pulled : List ProviderConfig}
    {routes : List RouteConfig} {e : Engine} (h : Layered factory config registry pulled routes e)
    (p : ProviderConfig) (hp : p ∈ config.providers) :
    e.topology.registry.lookup p.name = registry.lookup p.name ∧
      e.topology.providers.lookup p.name = (byName config.providers).lookup p.name := by
  have hnone : acceptedProvider factory config.providers pulled p.name = none := by
    rw [acceptedProvider, if_pos (List.mem_map_of_mem hp)]
  have hinst : e.topology.dynamicInstances.lookup p.name = none := by
    have := (h.instantiated p.name).1
    rw [h.dynamicProviders, hnone, Option.map_none] at this
    exact Option.map_eq_none_iff.mp this
  exact ⟨by rw [h.registered, hinst, Option.none_or], by rw [h.configs, hnone, Option.none_or]⟩

section

variable {factory : ProviderFactory} {config : Config} {registry : HashMap String Instance}
  {i : Install} {e : Engine}

/-- What the base resolves by namespace stays, if the payload leaves the base alone. -/
theorem Layered.resolvePrefix_of_leaves
    (h : Layered factory config registry i.providers i.routes e) (hl : LeavesBase factory config i)
    {ps : List ProviderConfig} (hps : ps.Perm e.topology.dynamicProviders.values) {model : String}
    {chain : List Target} (hc : resolvePrefix config.providers model = some chain) :
    resolvePrefix (config.providers ++ ps) model = some chain := by
  cases hb : bestClaim config.providers model with
  | none => rw [resolvePrefix_eq_none.mpr hb] at hc; cases hc
  | some b =>
    have hbest : bestClaim (config.providers ++ ps) model = some b := by
      rw [bestClaim_append, hb]
      cases hd : bestClaim ps model with
      | none => rfl
      | some c =>
        simp only [LongestMatch.longer]
        split
        · rfl
        · -- a strictly longer pulled claim would lie inside the base claim
          rename_i hlt
          obtain ⟨hbm, r, hr⟩ := bestClaim_mem hb
          obtain ⟨hcm, t, ht⟩ := bestClaim_mem hd
          obtain ⟨p, hp, hpfx⟩ := (h.claimed_iff hps c).mp hcm
          have hin := (stripNamespace_inside hr ht (by simpa [pfxLen] using hlt)).1
          obtain ⟨b', hb', hpre⟩ := hl.2 c.2 p c.1 hp hpfx ⟨b, hbm, hin⟩
          have hle := LongestMatch.le_longest? _ _ hb b' hb' (by simp [holds, hpre, ht])
          simp only [pfxLen, hpre] at hle hlt
          omega
    rw [← hc, resolvePrefix, resolvePrefix, hbest, hb]

/-- **A payload that leaves the base alone keeps it.** -/
theorem Layered.keepsBase (h : Layered factory config registry i.providers i.routes e)
    (hl : LeavesBase factory config i) : KeepsBase config registry e := by
  refine ⟨fun model chain hbase => ?_, h.keeps_providers⟩
  obtain ⟨ps, hps, hres⟩ := h.resolve
  rw [baseRouter, resolve_new] at hbase
  rw [hres model]
  cases hex : explicit config.routes model with
  | some targets =>
    have hmem : model ∈ config.routes.map (·.model) := by
      by_contra hnot
      rw [explicit_eq_none.mpr hnot] at hex
      cases hex
    rw [hex, Option.some_or] at hbase
    rw [acceptedRoute, if_pos hmem]
    simpa using hbase
  | none =>
    rw [hex, Option.none_or] at hbase
    cases hr : acceptedRoute config.routes i.routes model with
    | some r => simp [hl.1 model r hr chain hbase]
    | none => simpa using h.resolvePrefix_of_leaves hl hps hbase

/-- A pulled route for a model of a base namespace has the chain it has there, if the base is
kept. -/
theorem Layered.route_of_keeps (h : Layered factory config registry i.providers i.routes e)
    (hk : KeepsBase config registry e) {model : String} {r : RouteConfig}
    (hr : acceptedRoute config.routes i.routes model = some r) {chain : List Target}
    (hc : resolvePrefix config.providers model = some chain) : r.targets = chain := by
  obtain ⟨ps, -, hres⟩ := h.resolve
  have hex := explicit_eq_none.mpr (acceptedRoute_eq_some hr).2.1
  have hbase : (baseRouter config).resolve model = some chain := by
    rw [baseRouter, resolve_new, hex, hc, Option.none_or]
  have := hk.1 model chain hbase
  rw [hres model, hr] at this
  simpa using this

/-- A pulled namespace inside one of the base is one of the base, if the base is kept. -/
theorem Layered.claimed_of_keeps (h : Layered factory config registry i.providers i.routes e)
    (hk : KeepsBase config registry e) {name pfx : String} {p : ProviderConfig}
    (hp : acceptedProvider factory config.providers i.providers name = some p)
    (hpfx : p.pfx = some pfx) (hin : ∃ b ∈ claimed config.providers, inside pfx b.1) :
    ∃ b ∈ claimed config.providers, b.1 = pfx := by
  obtain ⟨b, hb, hin⟩ := hin
  obtain ⟨s, hs⟩ := inside_iff.mp hin
  by_contra hnot
  -- a model right under the pulled namespace that no route names
  obtain ⟨rest, hslash, hstrip, hex, hroute⟩ := exists_unrouted config i.routes pfx
  -- the base resolves it by a shorter namespace
  cases hbest : bestClaim config.providers (pfx ++ "/" ++ rest) with
  | none =>
    have hin' : stripNamespace (pfx ++ "/" ++ rest) b.1 = some (s ++ "/" ++ rest) := by
      refine stripNamespace_eq_some.mpr ⟨by rw [hs]; simp [String.append_assoc], fun h0 => ?_⟩
      have := congrArg String.toList h0
      simp [String.toList_append] at this
    rw [bestClaim_eq_none.mp hbest b hb] at hin'
    cases hin'
  | some b0 =>
    obtain ⟨hb0, r0, hr0⟩ := bestClaim_mem hbest
    have hchain := resolvePrefix_eq_some hbest hr0
    have hlt : b0.1.utf8ByteSize < pfx.utf8ByteSize := by
      have hle := stripNamespace_le hstrip hslash hr0
      rcases Nat.lt_or_eq_of_le hle with hlt | heq
      · exact hlt
      · exact absurd ⟨b0, hb0, stripNamespace_unique hr0 hstrip heq⟩ hnot
    obtain ⟨ps, hps, hres⟩ := h.resolve
    have hkeep := hk.1 _ _ (by rw [baseRouter, resolve_new, hex, Option.none_or, hchain])
    rw [hres, hroute, hex, Option.map_none, Option.none_or, Option.none_or] at hkeep
    -- the node resolves it by a pulled provider, which the base does not name
    have hclaim := (h.claimed_iff hps (pfx, name)).mpr ⟨p, hp, hpfx⟩
    cases hd : bestClaim ps (pfx ++ "/" ++ rest) with
    | none =>
      rw [bestClaim_eq_none.mp hd _ hclaim] at hstrip
      cases hstrip
    | some c =>
      have hle := LongestMatch.le_longest? _ _ hd _ hclaim (by simp [holds, hstrip])
      obtain ⟨hcm, t, ht⟩ := bestClaim_mem hd
      have hwin : bestClaim (config.providers ++ ps) (pfx ++ "/" ++ rest) = some c := by
        rw [bestClaim_append, hbest, hd, LongestMatch.longer]
        simp only [pfxLen] at hle ⊢
        rw [if_neg (by omega)]
      rw [resolvePrefix_eq_some hwin ht] at hkeep
      simp only [Option.some.injEq, List.cons.injEq, Target.mk.injEq] at hkeep
      obtain ⟨q, hq, -⟩ := (h.claimed_iff hps c).mp hcm
      obtain ⟨bp, hbp, -, hname⟩ := mem_claimed.mp hb0
      refine (acceptedProvider_eq_some hq).2.1 (List.mem_map.mpr ⟨bp, hbp, ?_⟩)
      rw [hname, hkeep.1.1]

end

/-- **A run of installs keeps the base in every state exactly when every payload leaves it
alone.** -/
theorem keepsBase_iff_leavesBase {factory : ProviderFactory} {config : Config}
    {registry : HashMap String Instance} {born : Births} {tr : List (Step Engine Install)}
    {e : Engine}
    (h : Run (system factory config registry born) (.new config registry born) tr e) :
    (∀ x ∈ tr, KeepsBase config registry x.post) ↔
      ∀ x ∈ tr, LeavesBase factory config x.event := by
  have hlayered : ∀ x ∈ tr,
      Layered factory config registry x.event.providers x.event.routes x.post := by
    intro x hx
    obtain ⟨tr', hrun, hstep⟩ := h.before_of_mem x hx
    have := layered_of_run (hrun.snoc hstep)
    rwa [events_append, events_singleton, lastPull_concat] at this
  refine forall₂_congr fun x hx => ?_
  exact ⟨fun hk => ⟨fun _ _ hr _ hc => (hlayered x hx).route_of_keeps hk hr hc,
    fun _ _ _ hp hpfx hin => (hlayered x hx).claimed_of_keeps hk hp hpfx hin⟩,
    (hlayered x hx).keepsBase⟩

/-! ## A base namespace and two pulls -/

/-- A base provider that is addressed by the namespace `oai`. -/
def oaiBase : Config := ⟨[.plain "openai-main" "openai" (some "oai")], []⟩

/-- Its registry. -/
def oaiRegistry : HashMap String Instance := HashMap.collect [("openai-main", ⟨"openai", 0⟩)]

/-- A factory that knows one kind. -/
def openaiOnly : ProviderFactory := ⟨fun kind => kind == "openai"⟩

/-- Iterate in the order of the model's lists. -/
def listOrders : Orders := ⟨.id _, .id _, .id _, .id _⟩

/-- A pull of one provider, and a route to it for `model`. -/
def pullRoute (model : String) : Install where
  providers := [.plain "pulled" "openai" none]
  routes := [⟨model, [⟨"pulled", some "gpt-4o-mini"⟩]⟩]
  orders := listOrders
  born := fun _ _ => (0, 0)

/-- A pulled route for a model of the base namespace takes the model from the base provider. -/
theorem pulled_route_overrides_base :
    ¬ ∀ tr e, Run (system openaiOnly oaiBase oaiRegistry fun _ _ => (0, 0))
        (.new oaiBase oaiRegistry fun _ _ => (0, 0)) tr e →
      ∀ x ∈ tr, KeepsBase oaiBase oaiRegistry x.post := by
  intro h
  have hrun := run_installs openaiOnly oaiBase oaiRegistry (fun _ _ => (0, 0))
    [pullRoute "oai/gpt-4o"]
  have hkeep := (h _ _ hrun _ (List.mem_singleton.mpr rfl)).1 "oai/gpt-4o"
    [⟨"openai-main", some "gpt-4o"⟩] (by decide)
  revert hkeep
  decide

/-- A pulled route outside the base namespace leaves the base as it is. -/
theorem keepsBase_iff_leavesBase_outside :
    let e := Engine.new oaiBase oaiRegistry fun _ _ => (0, 0)
    (∀ x ∈ trace (install openaiOnly) e [pullRoute "mini"], KeepsBase oaiBase oaiRegistry x.post) ↔
      ∀ x ∈ trace (install openaiOnly) e [pullRoute "mini"],
        LeavesBase openaiOnly oaiBase x.event :=
  keepsBase_iff_leavesBase
    (run_installs openaiOnly oaiBase oaiRegistry (fun _ _ => (0, 0)) [pullRoute "mini"])

end Llmleaf.Engine
