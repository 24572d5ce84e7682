import Llmleaf.Server.Listing

/-!
# Listed models and the router

The listing of a namespace concatenates its prefix and an id of its provider's catalog; a request
for the listed id strips the first prefix of the router's order that holds it. An id that two
namespaces make is listed once, for the first of them, but a namespace that makes no id may still
hold it.

- `assemble_namespaced`: which namespace a listed id was listed from.
- `Router.resolve_eq_single`: which namespace a request for an id goes to.
- **Result** (`routesBack_iff`): every listed model routes to the provider it was listed from exactly
  when each catalog id that no route and no earlier namespace lists is not empty, and its listed id
  lies in no earlier namespace.
-/

namespace Llmleaf

/-! ## The router on a catalog id -/

/-- A catalog id under a prefix lies in the prefix unless it is empty. -/
theorem stripNamespace_join {p u rest : String} :
    stripNamespace (p ++ "/" ++ u) p = some rest ↔ rest = u ∧ u ≠ "" := by
  rw [stripNamespace_eq_some]
  constructor
  · rintro ⟨h, hne⟩
    have : u = rest := by
      have := congrArg String.toList h
      simpa [String.toList_append, String.toList_inj] using this
    subst this
    exact ⟨rfl, hne⟩
  · rintro ⟨rfl, hne⟩
    exact ⟨rfl, hne⟩

/-- One id, joined twice with the same rest, has one prefix. -/
theorem join_left_inj {p q u : String} (h : p ++ "/" ++ u = q ++ "/" ++ u) : p = q := by
  have := congrArg String.toList h
  simpa [String.toList_append, String.toList_inj] using this

theorem join_right_inj {p u v : String} (h : p ++ "/" ++ u = p ++ "/" ++ v) : u = v := by
  have := congrArg String.toList h
  simpa [String.toList_append, String.toList_inj] using this

/-- **The namespace of a request**: the first that holds the model. -/
theorem Router.resolve_eq_single {router : Router} {id : String}
    (htable : router.table.lookup id = none) {P u : String} :
    router.resolve id = some [⟨P, some u⟩] ↔
      ∃ a p b, router.prefixes = a ++ (p, P) :: b ∧ stripNamespace id p = some u ∧
        ∀ e ∈ a, stripNamespace id e.1 = none := by
  have hnone : ∀ e : String × String, prefixTarget id e = none ↔ stripNamespace id e.1 = none :=
    fun e => Option.map_eq_none_iff
  rw [resolve, htable]
  simp only [List.findSome?_eq_some_iff, hnone]
  constructor
  · rintro ⟨a, ⟨p, Q⟩, b, hsplit, htarget, ha⟩
    obtain ⟨v, hv, heq⟩ := Option.map_eq_some_iff.mp htarget
    cases heq
    exact ⟨a, p, b, hsplit, hv, ha⟩
  · rintro ⟨a, p, b, hsplit, hstrip, ha⟩
    refine ⟨a, (p, P), b, hsplit, ?_, ha⟩
    rw [prefixTarget, hstrip]
    rfl

namespace ListingView

/-! ## What a namespace lists -/

/-- The view of a listing whose snapshot is still the current topology. -/
def of (topology : Topology) (models : String → Option (List String)) (routeOrder : Shuffle String)
    (keyOrder : Shuffle (KeyId × KeyState)) : ListingView :=
  ⟨topology, topology, models, routeOrder, keyOrder⟩

/-- The entries of one namespace, before those of earlier ones are kept instead. -/
def contributions (self : ListingView) (e : String × String) : List (String × ModelEntry) :=
  match self.providerModels e.2 with
  | some models => models.map fun bare =>
      (e.1 ++ "/" ++ bare, ⟨.namespaced, true, some e.2, some bare⟩)
  | none => [(e.1 ++ "/*", ⟨.namespaced, false, some e.2, some "*"⟩)]

theorem addPrefix_eq (self : ListingView) (entries : HashMap String ModelEntry)
    (e : String × String) :
    self.addPrefix entries e =
      (self.contributions e).foldl (fun m e => m.orInsert e.1 e.2) entries := by
  rw [addPrefix, contributions]
  cases self.providerModels e.2 with
  | none => rfl
  | some models =>
    simp only
    rw [List.foldl_map]

/-- A callable entry of a namespace names a model of the catalog. -/
theorem mem_contributions_callable {self : ListingView} {c : String × String} {id : String}
    {e : ModelEntry} (h : (id, e) ∈ self.contributions c) (hcall : e.callable = true) :
    ∃ models u, self.providerModels c.2 = some models ∧ u ∈ models ∧ id = c.1 ++ "/" ++ u ∧
      e = ⟨.namespaced, true, some c.2, some u⟩ := by
  rw [contributions] at h
  split at h
  · rename_i models hmodels
    obtain ⟨u, hu, heq⟩ := List.mem_map.mp h
    cases heq
    exact ⟨models, u, hmodels, hu, rfl, rfl⟩
  · cases List.mem_singleton.mp h
    cases hcall

theorem contributions_of_mem {self : ListingView} {c : String × String} {models : List String}
    (hmodels : self.providerModels c.2 = some models) {u : String} (hu : u ∈ models) :
    (c.1 ++ "/" ++ u, ⟨.namespaced, true, some c.2, some u⟩) ∈ self.contributions c := by
  rw [contributions, hmodels]
  exact List.mem_map.mpr ⟨u, hu, rfl⟩

theorem contributions_namespaced {self : ListingView} {c : String × String} {id : String}
    {e : ModelEntry} (h : (id, e) ∈ self.contributions c) : e.source = .namespaced := by
  rw [contributions] at h
  split at h
  · obtain ⟨u, -, heq⟩ := List.mem_map.mp h
    cases heq
    rfl
  · cases List.mem_singleton.mp h
    rfl

/-- One namespace has one entry for an id. -/
theorem contributions_unique {self : ListingView} {c : String × String} {id : String}
    {e e' : ModelEntry} (h : (id, e) ∈ self.contributions c) (h' : (id, e') ∈ self.contributions c) :
    e = e' := by
  rw [contributions] at h h'
  cases hmodels : self.providerModels c.2 with
  | none =>
    rw [hmodels] at h h'
    cases List.mem_singleton.mp h
    cases List.mem_singleton.mp h'
    rfl
  | some models =>
    rw [hmodels] at h h'
    obtain ⟨u, -, heq⟩ := List.mem_map.mp h
    obtain ⟨v, -, heq'⟩ := List.mem_map.mp h'
    cases heq
    obtain ⟨hid, rfl⟩ := Prod.mk.inj heq'
    rw [join_right_inj hid]

/-- Whether a namespace lists an id. -/
def Lists (self : ListingView) (c : String × String) (id : String) : Prop :=
  ∃ e, (id, e) ∈ self.contributions c

/-! ## The listed entries -/

theorem lookup_routes (l : List String) (m : HashMap String ModelEntry) (id : String) :
    (l.foldl addRoute m).lookup id =
      if id ∈ l then some ⟨.route, true, none, none⟩ else m.lookup id := by
  induction l generalizing m with
  | nil => simp
  | cons r l ih =>
    rw [List.foldl_cons, ih, addRoute, HashMap.lookup_insert_eq]
    by_cases hl : id ∈ l
    · simp [hl]
    · by_cases hr : id = r
      · simp [hr]
      · simp [hl, hr]

/-- The routes come first, then the namespaces in the router's order. -/
theorem lookup_assemble (self : ListingView) (id : String) :
    self.assemble.lookup id =
      if id ∈ self.routes then some ⟨.route, true, none, none⟩
      else (self.topology.router.prefixes.findSome? fun c =>
        (self.contributions c).find? fun e => e.1 = id).map Prod.snd := by
  have hfold : ∀ (l : List (String × String)) (m : HashMap String ModelEntry),
      l.foldl self.addPrefix m =
        (l.flatMap self.contributions).foldl (fun m e => m.orInsert e.1 e.2) m := by
    intro l m
    rw [List.foldl_flatMap]
    exact congrArg (fun f => l.foldl f m) (funext fun _ => funext fun _ => addPrefix_eq ..)
  rw [assemble, hfold, HashMap.lookup_foldl_orInsert, lookup_routes, List.find?_flatMap]
  split
  · rfl
  · rfl

/-- **The namespace of a listed id**: the first that lists it, where no route does. -/
theorem assemble_namespaced {self : ListingView} {id : String} {e : ModelEntry} :
    self.assemble.lookup id = some e ∧ e.source = .namespaced ↔
      id ∉ self.routes ∧ ∃ a c b, self.topology.router.prefixes = a ++ c :: b ∧
        (id, e) ∈ self.contributions c ∧ ∀ c' ∈ a, ¬ self.Lists c' id := by
  rw [lookup_assemble]
  by_cases hroute : id ∈ self.routes
  · rw [if_pos hroute]
    constructor
    · rintro ⟨h, hsource⟩
      cases h
      cases hsource
    · exact fun h => absurd hroute h.1
  rw [if_neg hroute, Option.map_eq_some_iff]
  have hnone : ∀ c, ((self.contributions c).find? fun e => e.1 = id) = none ↔ ¬ self.Lists c id := by
    intro c
    rw [List.find?_eq_none]
    constructor
    · rintro h ⟨e, he⟩
      exact h _ he (by simp)
    · intro h e he hid
      exact h ⟨e.2, by rw [← of_decide_eq_true hid]; exact he⟩
  constructor
  · rintro ⟨⟨⟨id', e'⟩, hfind, rfl⟩, -⟩
    obtain ⟨a, c, b, hsplit, hc, ha⟩ := List.findSome?_eq_some_iff.mp hfind
    have hid : id' = id := by simpa using List.find?_some hc
    subst hid
    exact ⟨hroute, a, c, b, hsplit, List.mem_of_find?_eq_some hc, fun c' hc' =>
      (hnone c').mp (ha c' hc')⟩
  · rintro ⟨-, a, c, b, hsplit, hc, ha⟩
    refine ⟨⟨(id, e), List.findSome?_eq_some_iff.mpr ⟨a, c, b, hsplit, ?_, fun c' hc' =>
      (hnone c').mpr (ha c' hc')⟩, rfl⟩, contributions_namespaced hc⟩
    cases hfind : (self.contributions c).find? fun e => e.1 = id with
    | none => exact absurd ⟨e, hc⟩ ((hnone c).mp hfind)
    | some e' =>
      have hid : e'.1 = id := by simpa using List.find?_some hfind
      have hmem : (id, e'.2) ∈ self.contributions c := by
        rw [← hid]
        exact List.mem_of_find?_eq_some hfind
      rw [contributions_unique hc hmem, ← hid]

/-! ## Listing and routing -/

/-- Every listed model of a namespace routes to the provider and the model it was listed from. -/
def RoutesBack (self : ListingView) (allowed : Option ModelScope) (admin : Bool) : Prop :=
  ∀ id e, (id, e) ∈ shown self allowed admin → e.source = .namespaced → e.callable = true →
    ∃ P u, e.provider = some P ∧ e.upstreamModel = some u ∧
      self.topology.router.resolve id = some [⟨P, some u⟩]

/-- Each catalog id that the caller may see and that no route has is listed by an earlier namespace,
or is not empty and lies in no earlier namespace. -/
def Unshadowed (self : ListingView) (allowed : Option ModelScope) : Prop :=
  ∀ a p P b, self.topology.router.prefixes = a ++ (p, P) :: b →
    ∀ models, self.providerModels P = some models → ∀ u ∈ models,
      self.topology.router.table.lookup (p ++ "/" ++ u) = none →
      allowed.all (fun scope => scope.permits (p ++ "/" ++ u)) = true →
        (∃ c ∈ a, self.Lists c (p ++ "/" ++ u)) ∨
          u ≠ "" ∧ ∀ c ∈ a, stripNamespace (p ++ "/" ++ u) c.1 = none

/-- With one topology the listed routes are all routes. -/
theorem mem_routes_of {topology : Topology} {models : String → Option (List String)}
    {routeOrder : Shuffle String} {keyOrder : Shuffle (KeyId × KeyState)} {id : String} :
    id ∈ (of topology models routeOrder keyOrder).routes ↔
      topology.router.table.lookup id ≠ none := by
  rw [routes, List.mem_filter, Shuffle.mem_order, Option.ne_none_iff_exists']
  constructor
  · exact fun h => HashMap.mem_iff_lookup.mp (AList.mem_keys.mpr h.1)
  · rintro ⟨targets, h⟩
    refine ⟨AList.mem_keys.mp (HashMap.mem_iff_lookup.mpr ⟨targets, h⟩), ?_⟩
    change (topology.router.resolve id).isSome = true
    rw [Router.resolve, h]
    rfl

/-- A catalog id that no route and no earlier namespace lists is listed, and its request goes to the
provider of the catalog exactly when no earlier namespace holds it. -/
theorem resolve_first_iff {self : ListingView} {a b : List (String × String)} {p P u : String}
    (hsplit : self.topology.router.prefixes = a ++ (p, P) :: b) {models : List String}
    (hmodels : self.providerModels P = some models) (hu : u ∈ models)
    (htable : self.topology.router.table.lookup (p ++ "/" ++ u) = none)
    (hfirst : ∀ c ∈ a, ¬ self.Lists c (p ++ "/" ++ u)) :
    self.topology.router.resolve (p ++ "/" ++ u) = some [⟨P, some u⟩] ↔
      u ≠ "" ∧ ∀ c ∈ a, stripNamespace (p ++ "/" ++ u) c.1 = none := by
  rw [Router.resolve_eq_single htable]
  constructor
  · rintro ⟨a', q, b', hsplit', hstrip, ha'⟩
    obtain ⟨hjoin, hne⟩ := stripNamespace_eq_some.mp hstrip
    obtain rfl : p = q := join_left_inj hjoin
    refine ⟨hne, fun c hc => ?_⟩
    -- the deciding claim cannot stand before the listing one: it would list the id itself
    have hle : a.length ≤ a'.length := by
      by_contra hlt
      have hmem : (p, P) ∈ a := by
        have h := congrArg (·[a'.length]?) (hsplit.symm.trans hsplit')
        simp only [List.getElem?_append_left (show a'.length < a.length by omega),
          List.getElem?_append_right (le_refl a'.length), Nat.sub_self,
          List.getElem?_cons_zero] at h
        exact List.mem_of_getElem? h
      exact hfirst _ hmem ⟨_, contributions_of_mem hmodels hu⟩
    have hpre : a <+: a' :=
      List.prefix_of_prefix_length_le ⟨_, hsplit.symm⟩ ⟨_, hsplit'.symm⟩ hle
    exact ha' c (hpre.subset hc)
  · rintro ⟨hne, ha⟩
    exact ⟨a, p, b, hsplit, stripNamespace_join.mpr ⟨rfl, hne⟩, ha⟩

/-- **Listed models route back** to the provider they were listed from exactly when every catalog id
is unshadowed. -/
theorem routesBack_iff (topology : Topology) (models : String → Option (List String))
    (routeOrder : Shuffle String) (keyOrder : Shuffle (KeyId × KeyState))
    (allowed : Option ModelScope) (admin : Bool) :
    (of topology models routeOrder keyOrder).RoutesBack allowed admin ↔
      (of topology models routeOrder keyOrder).Unshadowed allowed := by
  constructor
  · intro hback a p P b hsplit catalog hcatalog u hu htable hperm
    by_cases hlisted : ∃ c ∈ a, (of topology models routeOrder keyOrder).Lists c (p ++ "/" ++ u)
    · exact .inl hlisted
    · have hfirst : ∀ c ∈ a, ¬ (of topology models routeOrder keyOrder).Lists c (p ++ "/" ++ u) :=
        fun c hc hl => hlisted ⟨c, hc, hl⟩
      obtain ⟨hlookup, hsource⟩ := assemble_namespaced.mpr
        ⟨fun h => mem_routes_of.mp h htable, a, (p, P), b, hsplit,
          contributions_of_mem hcatalog hu, hfirst⟩
      obtain ⟨Q, v, hQ, hv, hresolve⟩ :=
        hback _ _ (mem_shown.mpr ⟨hlookup, hperm, .inr rfl⟩) hsource rfl
      cases hQ
      cases hv
      exact .inr ((resolve_first_iff hsplit hcatalog hu htable hfirst).mp hresolve)
  · intro hcond id e hmem hsource hcall
    obtain ⟨hlookup, hperm, -⟩ := mem_shown.mp hmem
    obtain ⟨hroute, a, ⟨p, P⟩, b, hsplit, hc, hfirst⟩ := assemble_namespaced.mp ⟨hlookup, hsource⟩
    obtain ⟨catalog, u, hcatalog, hu, rfl, rfl⟩ := mem_contributions_callable hc hcall
    have htable : topology.router.table.lookup (p ++ "/" ++ u) = none := by
      by_contra h
      exact hroute (mem_routes_of.mpr h)
    refine ⟨P, u, rfl, rfl, (resolve_first_iff hsplit hcatalog hu htable hfirst).mpr ?_⟩
    rcases hcond a p P b hsplit catalog hcatalog u hu htable hperm with ⟨c, hca, hl⟩ | h
    · exact absurd hl (hfirst c hca)
    · exact h

/-! ## Nested namespaces -/

/-- A node whose namespaces nest: `a` has the model `b/x`, and `a/b` another. -/
def nested : ListingView :=
  let config : Config :=
    { providers := [.plain "outer" "openai" (some "a"), .plain "inner" "openai" (some "a/b")]
      routes := [] }
  let registry := HashMap.collect [("outer", Instance.mk "openai" 0), ("inner", ⟨"openai", 1⟩)]
  of (Engine.new config registry fun _ _ => (0, 0)).topology
    (fun P => if P = "outer" then some ["b/x"] else some ["y"]) (.id _) (.id _)

/-- The model of the outer namespace is listed from it and routed to the inner one. -/
theorem nested_not_routesBack :
    shown nested none false =
      [("a/b/x", ⟨.namespaced, true, some "outer", some "b/x"⟩),
        ("a/b/y", ⟨.namespaced, true, some "inner", some "y"⟩)] ∧
    nested.topology.router.resolve "a/b/x" = some [⟨"inner", some "x"⟩] ∧
    ¬ nested.RoutesBack none false := by
  have hlist : shown nested none false =
      [("a/b/x", ⟨.namespaced, true, some "outer", some "b/x"⟩),
        ("a/b/y", ⟨.namespaced, true, some "inner", some "y"⟩)] := by decide +kernel
  have hinner : nested.topology.router.resolve "a/b/x" = some [⟨"inner", some "x"⟩] := by
    decide +kernel
  refine ⟨hlist, hinner, fun hback => ?_⟩
  obtain ⟨P, u, hP, -, hresolve⟩ :=
    hback "a/b/x" ⟨.namespaced, true, some "outer", some "b/x"⟩ (by rw [hlist]; simp) rfl rfl
  rw [hinner] at hresolve
  cases hP
  simp at hresolve

end ListingView

end Llmleaf
