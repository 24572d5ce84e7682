import Llmleaf.Topology

/-!
# The layer a payload stands for

Which entries of a pulled payload are installed depends on the payload, the base and the kinds the
factory knows, not on what was installed before. `Layered` says how the current snapshot is made of
the base and this layer; every install establishes it for its own payload.

- `acceptedProvider`, `acceptedRoute`: the installed entry of a name.
- `Layered.install`: the step lemma.
- `layered_of_run`: after any history the snapshot is the base with the layer of the last payload.
-/

namespace Llmleaf.Engine

open Runs

/-- The pulled provider installed under `name`: the first of this name of a known kind, if the base
has none. -/
def acceptedProvider (factory : ProviderFactory) (base pulled : List ProviderConfig)
    (name : String) : Option ProviderConfig :=
  if name ∈ base.map (·.name) then none
  else pulled.find? fun p => p.name == name && factory.known p.kind

/-- The pulled route installed for `model`: the first one, if the base has none. -/
def acceptedRoute (base pulled : List RouteConfig) (model : String) : Option RouteConfig :=
  if model ∈ base.map (·.model) then none else pulled.find? fun r => r.model == model

theorem acceptedProvider_eq_some {factory : ProviderFactory} {base pulled : List ProviderConfig}
    {name : String} {p : ProviderConfig} (h : acceptedProvider factory base pulled name = some p) :
    p.name = name ∧ name ∉ base.map (·.name) ∧ p ∈ pulled ∧ factory.known p.kind := by
  unfold acceptedProvider at h
  split at h
  · cases h
  · rename_i hbase
    have hp := List.find?_some h
    simp only [Bool.and_eq_true, beq_iff_eq] at hp
    exact ⟨hp.1, hbase, List.mem_of_find?_eq_some h, hp.2⟩

theorem acceptedRoute_eq_some {base pulled : List RouteConfig} {model : String} {r : RouteConfig}
    (h : acceptedRoute base pulled model = some r) :
    r.model = model ∧ model ∉ base.map (·.model) ∧ r ∈ pulled := by
  unfold acceptedRoute at h
  split at h
  · cases h
  · rename_i hbase
    exact ⟨by simpa using List.find?_some h, hbase, List.mem_of_find?_eq_some h⟩

/-! ## What the filters keep -/

/-- Every provider of a layer has an instance of its kind, which the factory knows. -/
def Instantiated (factory : ProviderFactory) (providers : HashMap String ProviderConfig)
    (instances : HashMap String Instance) : Prop :=
  ∀ n, (instances.lookup n).map (·.kind) = (providers.lookup n).map (·.kind) ∧
    ∀ p, providers.lookup n = some p → factory.known p.kind

theorem Instantiated.insert {factory : ProviderFactory} {ps : HashMap String ProviderConfig}
    {is : HashMap String Instance} (h : Instantiated factory ps is) {p : ProviderConfig}
    {inst : Instance} (hkind : inst.kind = p.kind) (hknown : factory.known p.kind) (n : String) :
    Instantiated factory (ps.insert n p) (is.insert n inst) := by
  intro m
  rw [HashMap.lookup_insert_eq, HashMap.lookup_insert_eq]
  split
  · exact ⟨by simp [hkind], fun q hq => by cases hq; exact hknown⟩
  · exact h m

/-- A reused instance has the kind of the pulled provider, and the factory knows it. -/
theorem reused_eq_some {factory : ProviderFactory} {prev : Topology} {p : ProviderConfig}
    {inst : Instance} (hprev : Instantiated factory prev.dynamicProviders prev.dynamicInstances)
    (h : reused prev p = some inst) : inst.kind = p.kind ∧ factory.known p.kind := by
  unfold reused at h
  split at h
  · rename_i old hold
    split at h
    · rename_i hkind
      obtain ⟨hmap, hknown⟩ := hprev p.name
      rw [h, hold, Option.map_some, Option.map_some, Option.some.injEq] at hmap
      exact ⟨hmap.trans hkind, hkind ▸ hknown old hold⟩
    · cases h
  · cases h

theorem build_eq_some {factory : ProviderFactory} {kind : String} {serial : ℕ} {inst : Instance} :
    factory.build kind serial = some inst ↔ factory.known kind ∧ inst = ⟨kind, serial⟩ := by
  unfold ProviderFactory.build
  split
  · rename_i h
    simp [h, eq_comm]
  · rename_i h
    simp [h]

/-- The pulled provider is the one to install under `n`, if none is installed there yet. -/
def installs (factory : ProviderFactory) (base : List ProviderConfig) (p : ProviderConfig)
    (n : String) : Bool :=
  n ∉ base.map (·.name) && (p.name == n && factory.known p.kind)

/-- **One pulled provider**: whatever was installed before, it is installed if the base does not
have its name, no earlier entry has, and its kind is known. -/
theorem acceptProvider_spec {factory : ProviderFactory} (base : List ProviderConfig)
    {prev : Topology} {acc : Accepted}
    (hprev : Instantiated factory prev.dynamicProviders prev.dynamicInstances)
    (hacc : Instantiated factory acc.providers acc.instances) (p : ProviderConfig) :
    let acc' := acceptProvider base prev factory acc p
    Instantiated factory acc'.providers acc'.instances ∧
      ∀ n, acc'.providers.lookup n =
        (acc.providers.lookup n).or (if installs factory base p n then some p else none) := by
  -- an accepted entry: its name is free, so inserting it is `or`
  have hins : p.name ∉ base.map (·.name) → p.name ∉ acc.providers → factory.known p.kind →
      ∀ n, (acc.providers.insert p.name p).lookup n =
        (acc.providers.lookup n).or (if installs factory base p n then some p else none) := by
    intro hbase hfree hknown n
    rw [HashMap.lookup_insert_eq]
    split
    · rename_i hn
      rw [hn, HashMap.not_mem_iff_lookup.mp hfree]
      simp [installs, hbase, hknown]
    · rename_i hn
      simp [installs, Ne.symm hn]
  -- a skipped entry installs nothing new under any name
  have hskip : (∀ n, installs factory base p n → (acc.providers.lookup n).isSome) →
      ∀ n, acc.providers.lookup n =
        (acc.providers.lookup n).or (if installs factory base p n then some p else none) := by
    intro h n
    cases hi : installs factory base p n with
    | false => simp
    | true =>
      obtain ⟨q, hq⟩ := Option.isSome_iff_exists.mp (h n hi)
      simp [hq]
  have hname : ∀ {n}, installs factory base p n → p.name = n := fun h => by
    simp only [installs, Bool.and_eq_true, beq_iff_eq] at h
    exact h.2.1
  simp only [acceptProvider]
  split
  · rename_i hbase
    refine ⟨hacc, hskip fun n h => ?_⟩
    simp only [installs, Bool.and_eq_true, beq_iff_eq, decide_eq_true_eq] at h
    exact absurd (h.2.1 ▸ hbase) h.1
  rename_i hbase
  split
  · rename_i hdup
    refine ⟨hacc, hskip fun n h => ?_⟩
    rw [← hname h]
    exact AList.lookup_isSome.mpr hdup
  rename_i hfree
  split
  · rename_i inst hinst
    obtain ⟨hkind, hknown⟩ := reused_eq_some hprev hinst
    exact ⟨hacc.insert hkind hknown _, hins hbase hfree hknown⟩
  · split
    · rename_i inst hinst
      obtain ⟨hknown, rfl⟩ := build_eq_some.mp hinst
      exact ⟨hacc.insert rfl hknown _, hins hbase hfree hknown⟩
    · rename_i hnone
      refine ⟨hacc, hskip fun n h => ?_⟩
      simp only [installs, Bool.and_eq_true] at h
      have : factory.build p.kind acc.built = some ⟨p.kind, acc.built⟩ :=
        build_eq_some.mpr ⟨h.2.2, rfl⟩
      rw [hnone] at this
      cases this

theorem find?_cons_or {α : Type} (f : α → Bool) (a : α) (l : List α) :
    (a :: l).find? f = (if f a then some a else none).or (l.find? f) := by
  cases h : f a <;> simp [h]

/-- **The filtered providers are the accepted ones.** -/
theorem accept_spec {factory : ProviderFactory} {e : Engine}
    (hprev : Instantiated factory e.topology.dynamicProviders e.topology.dynamicInstances)
    (pulled : List ProviderConfig) :
    Instantiated factory (e.accept factory pulled).providers (e.accept factory pulled).instances ∧
      ∀ n, (e.accept factory pulled).providers.lookup n =
        acceptedProvider factory e.baseProviders pulled n := by
  have key : ∀ (l : List ProviderConfig) (acc : Accepted),
      Instantiated factory acc.providers acc.instances →
      let acc' := l.foldl (acceptProvider e.baseProviders e.topology factory) acc
      Instantiated factory acc'.providers acc'.instances ∧
        ∀ n, acc'.providers.lookup n =
          (acc.providers.lookup n).or (acceptedProvider factory e.baseProviders l n) := by
    intro l
    induction l with
    | nil => exact fun acc hacc => ⟨hacc, fun n => by simp [acceptedProvider]⟩
    | cons p l ih =>
      intro acc hacc
      obtain ⟨hacc', hlook⟩ := acceptProvider_spec e.baseProviders hprev hacc p
      obtain ⟨hall, hlook'⟩ := ih _ hacc'
      refine ⟨hall, fun n => ?_⟩
      have hcons := hlook' n
      rw [hlook n, Option.or_assoc] at hcons
      rw [List.foldl_cons, hcons]
      congr 1
      unfold acceptedProvider
      by_cases hbase : n ∈ e.baseProviders.map (·.name)
      · simp only [installs, hbase, if_true, not_true, decide_false, Bool.false_and,
          Bool.false_eq_true, if_false, Option.or_none]
      · rw [if_neg hbase, if_neg hbase, find?_cons_or]
        simp only [installs, hbase, not_false_iff, decide_true, Bool.true_and]
  have h := key pulled ⟨∅, ∅, [], e.built⟩ fun n => ⟨by simp, fun p hp => by simp at hp⟩
  refine ⟨h.1, fun n => ?_⟩
  rw [accept, h.2 n, AList.lookup_empty, Option.none_or]

/-- **The filtered routes are the accepted ones.** -/
theorem acceptRoutes_spec (e : Engine) (pulled : List RouteConfig) (m : String) :
    (e.acceptRoutes pulled).1.lookup m = acceptedRoute e.baseRoutes pulled m := by
  have key : ∀ (l : List RouteConfig) (acc : HashMap String RouteConfig × List String),
      (l.foldl (acceptRoute e.baseRoutes) acc).1.lookup m =
        (acc.1.lookup m).or (acceptedRoute e.baseRoutes l m) := by
    intro l
    induction l with
    | nil => intro acc; simp [acceptedRoute]
    | cons r l ih =>
      intro acc
      rw [List.foldl_cons, ih]
      unfold acceptRoute acceptedRoute
      by_cases hm : m ∈ e.baseRoutes.map (·.model)
      · rw [if_pos hm, if_pos hm]
        split
        · rfl
        · split
          · rfl
          · rename_i hr _
            rw [HashMap.lookup_insert_eq, if_neg fun (h : m = r.model) => hr (h ▸ hm)]
      · rw [if_neg hm, if_neg hm, find?_cons_or]
        by_cases hrm : r.model = m
        · rw [hrm, if_neg hm]
          split
          · rename_i hdup
            obtain ⟨q, hq⟩ := HashMap.mem_iff_lookup.mp hdup
            rw [hq]
            rfl
          · rename_i hfree
            rw [HashMap.not_mem_iff_lookup.mp hfree, AList.lookup_insert]
            simp
        · have hne : ¬ (r.model == m) = true := by simpa using hrm
          rw [if_neg hne, Option.none_or]
          split
          · rfl
          · split
            · rfl
            · rw [HashMap.lookup_insert_eq, if_neg (Ne.symm hrm)]
  rw [acceptRoutes, key, AList.lookup_empty, Option.none_or]

/-! ## The comparison of two layers -/

/-- Two layers without a difference hold the same. -/
theorem lookup_eq_of_unchanged {ν : Type} [DecidableEq ν] {old new : HashMap String ν}
    (ha : added old new = 0) (hu : updated old new = 0) (hr : removed old new = 0) (k : String) :
    old.lookup k = new.lookup k := by
  rw [added, List.countP_eq_zero] at ha
  rw [updated, List.countP_eq_zero] at hu
  rw [removed, List.countP_eq_zero] at hr
  cases hnew : new.lookup k with
  | some v =>
    have hmem := HashMap.mem_pairs.mpr hnew
    cases hold : old.lookup k with
    | none => exact absurd (by simp [hold]) (ha _ hmem)
    | some w =>
      have := hu _ hmem
      simp only [hold, bne_iff_ne, ne_eq, Decidable.not_not] at this
      rw [this]
  | none =>
    cases hold : old.lookup k with
    | none => rfl
    | some w =>
      have := hr _ (HashMap.mem_pairs.mpr hold)
      simp only [decide_eq_true_eq, Decidable.not_not] at this
      exact absurd hnew (HashMap.not_mem_iff_lookup.not.mp (not_not_intro this))

/-! ## The snapshot after any history -/

/-- The snapshot of `e` is the base of `config` with the layer of the pulled `providers` and
`routes` merged onto it. -/
structure Layered (factory : ProviderFactory) (config : Config)
    (registry : HashMap String Instance) (providers : List ProviderConfig)
    (routes : List RouteConfig) (e : Engine) : Prop where
  baseProviders : e.baseProviders = config.providers
  baseRoutes : e.baseRoutes = config.routes
  baseRegistry : e.baseRegistry = registry
  dynamicProviders : ∀ n, e.topology.dynamicProviders.lookup n =
    acceptedProvider factory config.providers providers n
  dynamicRoutes : ∀ m, e.topology.dynamicRoutes.lookup m = acceptedRoute config.routes routes m
  instantiated : Instantiated factory e.topology.dynamicProviders e.topology.dynamicInstances
  registered : ∀ n, e.topology.registry.lookup n =
    (e.topology.dynamicInstances.lookup n).or (registry.lookup n)
  configs : ∀ n, e.topology.providers.lookup n =
    (acceptedProvider factory config.providers providers n).or ((byName config.providers).lookup n)
  /-- The router is built from the merged lists, in some order of the pulled entries. -/
  router : ∃ ps rs, ps.Perm e.topology.dynamicProviders.values ∧
    rs.Perm e.topology.dynamicRoutes.values ∧
    e.topology.router = Router.new (config.routes ++ rs) (config.providers ++ ps)

theorem layered_new (factory : ProviderFactory) (config : Config)
    (registry : HashMap String Instance) (born : Births) :
    Layered factory config registry [] [] (.new config registry born) where
  baseProviders := rfl
  baseRoutes := rfl
  baseRegistry := rfl
  dynamicProviders n := by simp [new, acceptedProvider]
  dynamicRoutes m := by simp [new, acceptedRoute]
  instantiated n := ⟨by simp [new], fun p hp => by simp [new] at hp⟩
  registered n := by simp [new]
  configs n := by simp [new, acceptedProvider]
  router := ⟨[], [], .nil, .nil, by simp [new]⟩

/-- A pull without a difference: the snapshot already is the one of the new payload. -/
theorem Layered.of_noop {factory : ProviderFactory} {config : Config}
    {registry : HashMap String Instance} {ps ps' : List ProviderConfig} {rs rs' : List RouteConfig}
    {e : Engine} (h : Layered factory config registry ps rs e)
    (hp : ∀ n, e.topology.dynamicProviders.lookup n = acceptedProvider factory config.providers ps' n)
    (hr : ∀ m, e.topology.dynamicRoutes.lookup m = acceptedRoute config.routes rs' m) :
    Layered factory config registry ps' rs' e where
  baseProviders := h.baseProviders
  baseRoutes := h.baseRoutes
  baseRegistry := h.baseRegistry
  dynamicProviders := hp
  dynamicRoutes := hr
  instantiated := h.instantiated
  registered := h.registered
  configs n := by rw [h.configs, ← h.dynamicProviders, hp]
  router := h.router

/-- A layer that is merged: the new snapshot is made of the base and the filtered pull. -/
theorem Layered.merge {factory : ProviderFactory} {config : Config}
    {registry : HashMap String Instance} {e : Engine} {acc : Accepted}
    {routes : HashMap String RouteConfig} {i : Install}
    (hbp : e.baseProviders = config.providers) (hbr : e.baseRoutes = config.routes)
    (hreg : e.baseRegistry = registry)
    (hinst : Instantiated factory acc.providers acc.instances)
    (hp : ∀ n, acc.providers.lookup n = acceptedProvider factory config.providers i.providers n)
    (hr : ∀ m, routes.lookup m = acceptedRoute config.routes i.routes m) :
    Layered factory config registry i.providers i.routes (e.merge i acc routes) where
  baseProviders := hbp
  baseRoutes := hbr
  baseRegistry := hreg
  dynamicProviders := hp
  dynamicRoutes := hr
  instantiated := hinst
  registered n := by
    simp only [Engine.merge]
    rw [HashMap.lookup_foldl_insert, HashMap.lookup_collect_pairs, hreg]
  configs n := by
    have hkey : ∀ k v, acc.providers.lookup k = some v → v.name = k := fun k v hv =>
      (acceptedProvider_eq_some ((hp k).symm.trans hv)).1
    simp only [Engine.merge, byName, List.map_append]
    rw [HashMap.lookup_collect_append, HashMap.lookup_collect_values _ hkey, hp, hbp]
  router := ⟨_, _, i.orders.providers.perm _, i.orders.routes.perm _, by
    simp only [Engine.merge, hbp, hbr]⟩

/-- **One install makes the snapshot the one of its payload.** -/
theorem Layered.install {factory : ProviderFactory} {config : Config}
    {registry : HashMap String Instance} {ps : List ProviderConfig} {rs : List RouteConfig}
    {e : Engine} (h : Layered factory config registry ps rs e) (i : Install) :
    Layered factory config registry i.providers i.routes (e.install factory i) := by
  obtain ⟨hinst, hp⟩ := accept_spec h.instantiated i.providers
  have hr := acceptRoutes_spec e i.routes
  rw [h.baseProviders] at hp
  rw [h.baseRoutes] at hr
  simp only [Engine.install, installTopology]
  split
  · rename_i hnoop
    simp only [TopologyDiff.isNoop, Bool.and_eq_true, beq_iff_eq, diff] at hnoop
    obtain ⟨⟨⟨⟨⟨hpa, hpu⟩, hpr⟩, hra⟩, hru⟩, hrr⟩ := hnoop
    have hbuilt : Layered factory config registry ps rs
        { e with built := (e.accept factory i.providers).built } := { h with }
    refine hbuilt.of_noop (fun n => ?_) fun m => ?_
    · exact (lookup_eq_of_unchanged hpa hpu hpr n).trans (hp n)
    · exact (lookup_eq_of_unchanged hra hru hrr m).trans (hr m)
  · exact .merge h.baseProviders h.baseRoutes h.baseRegistry hinst hp hr

/-- The payload installed last, empty before the first install. -/
def lastPull (is : List Install) : List ProviderConfig × List RouteConfig :=
  match is.getLast? with
  | some i => (i.providers, i.routes)
  | none => ([], [])

@[simp] theorem lastPull_concat (is : List Install) (i : Install) :
    lastPull (is ++ [i]) = (i.providers, i.routes) := by
  simp [lastPull]

/-- **After any history the snapshot is the base with the layer of the last payload.** -/
theorem layered_of_run {factory : ProviderFactory} {config : Config}
    {registry : HashMap String Instance} {born : Births} {tr : List (Step Engine Install)}
    {e : Engine}
    (h : Run (system factory config registry born) (.new config registry born) tr e) :
    Layered factory config registry (lastPull (events tr)).1 (lastPull (events tr)).2 e := by
  refine h.invariant_trace (P := fun tr e =>
    Layered factory config registry (lastPull (events tr)).1 (lastPull (events tr)).2 e)
    (layered_new factory config registry born) fun tr e i e' _ hl hstep => ?_
  rw [events_append, events_singleton, lastPull_concat, show e' = _ from hstep]
  exact hl.install i

/-! ## What the snapshot resolves -/

/-- The claims of the accepted providers. -/
theorem Layered.claimed_iff {factory : ProviderFactory} {config : Config}
    {registry : HashMap String Instance} {pulled : List ProviderConfig}
    {routes : List RouteConfig} {e : Engine} (h : Layered factory config registry pulled routes e)
    {ps : List ProviderConfig} (hps : ps.Perm e.topology.dynamicProviders.values)
    (c : String × String) :
    c ∈ Router.claimed ps ↔ ∃ p, acceptedProvider factory config.providers pulled c.2 = some p ∧
      p.pfx = some c.1 := by
  rw [Router.mem_claimed]
  constructor
  · rintro ⟨p, hp, hpre, hname⟩
    obtain ⟨n, hn⟩ := HashMap.mem_values.mp (hps.mem_iff.mp hp)
    rw [h.dynamicProviders] at hn
    rw [← (acceptedProvider_eq_some hn).1, hname] at hn
    exact ⟨p, hn, hpre⟩
  · rintro ⟨p, hp, hpre⟩
    refine ⟨p, hps.mem_iff.mpr (HashMap.mem_values.mpr ⟨c.2, ?_⟩), hpre,
      (acceptedProvider_eq_some hp).1⟩
    rw [h.dynamicProviders, hp]

/-- The snapshot resolves a model by an accepted or a base route, else by the longest namespace,
the base before the pulled providers. -/
theorem Layered.resolve_of_router {factory : ProviderFactory} {config : Config}
    {registry : HashMap String Instance} {pulled : List ProviderConfig}
    {routes : List RouteConfig} {e : Engine}
    (h : Layered factory config registry pulled routes e) {ps : List ProviderConfig}
    {rs : List RouteConfig} (hrs : rs.Perm e.topology.dynamicRoutes.values)
    (hrouter : e.topology.router = Router.new (config.routes ++ rs) (config.providers ++ ps))
    (model : String) :
    e.topology.router.resolve model =
      ((acceptedRoute config.routes routes model).map (·.targets)).or
        ((Router.explicit config.routes model).or
          (Router.resolvePrefix (config.providers ++ ps) model)) := by
  -- the table holds the pulled routes under their own models, whatever their order
  have hexp : Router.explicit rs model =
      (acceptedRoute config.routes routes model).map (·.targets) := by
    have hkey : ∀ k v, e.topology.dynamicRoutes.lookup k = some v → v.model = k := fun k v hv =>
      (acceptedRoute_eq_some ((h.dynamicRoutes k).symm.trans hv)).1
    apply Option.ext
    intro targets
    have hnodup : ((rs.map fun r => (r.model, r.targets)).map Prod.fst).Nodup := by
      rw [List.map_map, List.Perm.nodup_iff (hrs.map _)]
      have : e.topology.dynamicRoutes.values.map (Prod.fst ∘ fun r => (r.model, r.targets)) =
          e.topology.dynamicRoutes.pairs.map Prod.fst := by
        simp only [HashMap.values, List.map_map]
        exact List.map_congr_left fun e he => hkey e.1 e.2 (HashMap.mem_pairs.mp he)
      rw [this]
      exact HashMap.nodup_pairs_keys _
    rw [Router.explicit, HashMap.lookup_collect_nodup hnodup, Option.map_eq_some_iff]
    simp only [List.mem_map, Prod.mk.injEq]
    constructor
    · rintro ⟨r, hr, rfl, rfl⟩
      obtain ⟨k, hk⟩ := HashMap.mem_values.mp (hrs.mem_iff.mp hr)
      rw [hkey _ _ hk]
      exact ⟨r, by rw [← h.dynamicRoutes, hk], rfl⟩
    · rintro ⟨r, hr, rfl⟩
      refine ⟨r, hrs.mem_iff.mpr (HashMap.mem_values.mpr ⟨model, ?_⟩),
        (acceptedRoute_eq_some hr).1, rfl⟩
      rw [h.dynamicRoutes, hr]
  rw [hrouter, Router.resolve_new, Router.explicit, List.map_append, HashMap.lookup_collect_append,
    ← Router.explicit, ← Router.explicit, hexp, Option.or_assoc]

theorem Layered.resolve {factory : ProviderFactory} {config : Config}
    {registry : HashMap String Instance} {pulled : List ProviderConfig}
    {routes : List RouteConfig} {e : Engine}
    (h : Layered factory config registry pulled routes e) :
    ∃ ps, ps.Perm e.topology.dynamicProviders.values ∧ ∀ model,
      e.topology.router.resolve model =
        ((acceptedRoute config.routes routes model).map (·.targets)).or
          ((Router.explicit config.routes model).or
            (Router.resolvePrefix (config.providers ++ ps) model)) := by
  obtain ⟨ps, rs, hps, hrs, hrouter⟩ := h.router
  exact ⟨ps, hps, h.resolve_of_router hrs hrouter⟩

/-- Under every namespace there are models that no route names. -/
theorem exists_unrouted (config : Config) (routes : List RouteConfig) (pfx : String) :
    ∃ rest : String, '/' ∉ rest.toList ∧
      stripNamespace (pfx ++ "/" ++ rest) pfx = some rest ∧
      Router.explicit config.routes (pfx ++ "/" ++ rest) = none ∧
      acceptedRoute config.routes routes (pfx ++ "/" ++ rest) = none := by
  obtain ⟨rest, hne, hslash, hfresh⟩ := Strings.exists_fresh '/'
    (config.routes.map (·.model) ++ routes.map (·.model))
  refine ⟨rest, hslash, stripNamespace_eq_some.mpr ⟨rfl, hne⟩, ?_, ?_⟩
  · rw [Router.explicit_eq_none]
    exact fun hmem => hfresh _ (List.mem_append_left _ hmem) _ rfl
  · rw [acceptedRoute]
    split
    · rfl
    · rw [List.find?_eq_none]
      intro r hr hmodel
      exact hfresh r.model (List.mem_append_right _ (List.mem_map_of_mem hr)) _
        (beq_iff_eq.mp hmodel).symm

end Llmleaf.Engine
