import Llmleaf.Config
import Llmleaf.Lib.HashMap
import Llmleaf.Lib.LongestMatch
import Llmleaf.Lib.Strings

/-!
# Routing and node-local health

A router maps a logical model to its fallback chain: an explicit route if there is one, else the
provider whose namespace is the longest one the model lies in. The health table holds the cooldown
of every provider that failed.

- `stripNamespace_eq_some`: a model lies in a namespace when it is the namespace, a slash and a
  non-empty rest.
- `Router.resolve_new`: what the built router resolves, as the explicit table and the longest
  matching namespace.
- `Router.resolvePrefix_append`: of two provider lists the second decides only by a strictly longer
  namespace.
-/

namespace Llmleaf

open LongestMatch Strings

/-! ## Namespaces -/

/-- The rest of `model` after `<prefix>/`, if it is not empty. -/
def stripNamespace (model pfx : String) : Option String :=
  match stripPrefix model pfx with
  | none => none
  | some tail =>
    match stripPrefix tail "/" with
    | none => none
    | some rest => if rest = "" then none else some rest

theorem stripNamespace_eq_some {model pfx rest : String} :
    stripNamespace model pfx = some rest ↔ model = pfx ++ "/" ++ rest ∧ rest ≠ "" := by
  unfold stripNamespace
  constructor
  · intro h
    split at h
    · cases h
    · rename_i tail htail
      split at h
      · cases h
      · rename_i r hr
        split at h
        · cases h
        · cases h
          rw [stripPrefix_eq_some.mp htail, stripPrefix_eq_some.mp hr, String.append_assoc]
          exact ⟨rfl, by assumption⟩
  · rintro ⟨rfl, hne⟩
    rw [String.append_assoc, stripPrefix_append]
    simp only [stripPrefix_append, if_neg hne]

/-- Two namespaces of equally many bytes that hold one model are equal. -/
theorem stripNamespace_unique {model p q r t : String} (hp : stripNamespace model p = some r)
    (hq : stripNamespace model q = some t) (hlen : p.utf8ByteSize = q.utf8ByteSize) : p = q := by
  have hp := (stripNamespace_eq_some.mp hp).1
  have hq := (stripNamespace_eq_some.mp hq).1
  rw [hp, String.append_assoc, String.append_assoc] at hq
  exact prefix_unique hq hlen

/-- Whether the namespace `pfx` lies inside the namespace `outer`. -/
def inside (pfx outer : String) : Bool := (stripPrefix pfx (outer ++ "/")).isSome

theorem inside_iff {pfx outer : String} : inside pfx outer ↔ ∃ s, pfx = outer ++ "/" ++ s := by
  simp only [inside, Option.isSome_iff_exists, stripPrefix_eq_some]

/-- A model as the characters of its namespace, the slash and the rest. -/
theorem stripNamespace_toList {model pfx rest : String} (h : stripNamespace model pfx = some rest) :
    model.toList = pfx.toList ++ '/' :: rest.toList := by
  rw [(stripNamespace_eq_some.mp h).1]
  simp [String.toList_append]

/-- Of two namespaces that hold one model the longer lies inside the shorter. -/
theorem stripNamespace_inside {model p q r t : String} (hp : stripNamespace model p = some r)
    (hq : stripNamespace model q = some t) (hlt : p.utf8ByteSize < q.utf8ByteSize) :
    inside q p ∧ '/' ∈ r.toList := by
  have heq : p.toList ++ '/' :: r.toList = q.toList ++ '/' :: t.toList := by
    rw [← stripNamespace_toList hp, stripNamespace_toList hq]
  have hlen : p.toList.length < q.toList.length := by
    rcases Nat.lt_trichotomy p.toList.length q.toList.length with h | h | h
    · exact h
    · have := (List.append_inj heq h).1
      rw [String.toList_inj.mp this] at hlt
      omega
    · obtain ⟨s, hs, -⟩ := extends_of_lt heq.symm h
      have := utf8ByteSize_lt_of_extends hs
      omega
  obtain ⟨s, hs, hr⟩ := extends_of_lt heq hlen
  refine ⟨inside_iff.mpr ⟨String.ofList s, ?_⟩, by simp [hr]⟩
  rw [← String.toList_inj, hs]
  simp [String.toList_append]

/-- A model right under a namespace, its rest without a slash, lies in no longer namespace. -/
theorem stripNamespace_le {model p q r t : String} (hp : stripNamespace model p = some r)
    (hr : '/' ∉ r.toList) (hq : stripNamespace model q = some t) :
    q.utf8ByteSize ≤ p.utf8ByteSize := by
  by_contra h
  exact hr (stripNamespace_inside hp hq (by omega)).2

/-! ## The router -/

/-- The resolver of logical models. -/
structure Router where
  table : HashMap String (List Target)
  /-- The namespaces with their providers, longest first. -/
  prefixes : List (String × String)

namespace Router

/-- The namespaces the providers claim, in the order of the providers. -/
def claimed (providers : List ProviderConfig) : List (String × String) :=
  providers.filterMap fun p => p.pfx.map fun pre => (pre, p.name)

/-- The byte length of a claimed namespace. -/
abbrev pfxLen (e : String × String) : ℕ := e.1.utf8ByteSize

/-- The router of a list of routes and a list of providers. -/
def new (routes : List RouteConfig) (providers : List ProviderConfig) : Router where
  table := routes.foldl (fun t r => t.insert r.model r.targets) ∅
  -- `sort_by_key` by the reversed length is stable: equally long prefixes keep their order
  prefixes := (claimed providers).insertionSort (byLen pfxLen)

/-- The single target a namespace match stands for. -/
def prefixTarget (model : String) (e : String × String) : Option (List Target) :=
  (stripNamespace model e.1).map fun upstream => [{ provider := e.2, model := some upstream }]

/-- The fallback chain of a logical model. -/
def resolve (self : Router) (model : String) : Option (List Target) :=
  match self.table.lookup model with
  | some targets => some targets
  | none => self.prefixes.findSome? (prefixTarget model)

/-! ## What the built router resolves -/

/-- Whether a claimed namespace holds the model. -/
def holds (model : String) (e : String × String) : Bool := (stripNamespace model e.1).isSome

/-- The claim that decides a model no explicit route has: the longest one, the first of several. -/
def bestClaim (providers : List ProviderConfig) (model : String) : Option (String × String) :=
  longest? pfxLen (holds model) (claimed providers)

/-- The chain of a model by its namespace. -/
def resolvePrefix (providers : List ProviderConfig) (model : String) : Option (List Target) :=
  (bestClaim providers model).bind (prefixTarget model)

private theorem findSome?_prefixTarget (model : String) (l : List (String × String)) :
    l.findSome? (prefixTarget model) = (l.find? (holds model)).bind (prefixTarget model) := by
  induction l with
  | nil => rfl
  | cons e l ih =>
    cases h : stripNamespace model e.1 with
    | none => simp [prefixTarget, holds, h, ih]
    | some r => simp [prefixTarget, holds, h]

private theorem table_new (routes : List RouteConfig) (t : HashMap String (List Target)) :
    routes.foldl (fun t r => t.insert r.model r.targets) t =
      (routes.map fun r => (r.model, r.targets)).foldl (fun m e => m.insert e.1 e.2) t := by
  rw [List.foldl_map]

/-- The explicit chain of a model: its last route decides. -/
def explicit (routes : List RouteConfig) (model : String) : Option (List Target) :=
  (HashMap.collect (routes.map fun r => (r.model, r.targets))).lookup model

theorem explicit_eq_none {routes : List RouteConfig} {model : String} :
    explicit routes model = none ↔ model ∉ routes.map (·.model) := by
  rw [explicit, HashMap.lookup_collect_eq_none, List.map_map]
  rfl

/-- **An explicit route wins, else the longest namespace, the first provider of several.** -/
theorem resolve_new (routes : List RouteConfig) (providers : List ProviderConfig) (model : String) :
    (new routes providers).resolve model =
      (explicit routes model).or (resolvePrefix providers model) := by
  have htable : (new routes providers).table.lookup model = explicit routes model := by
    rw [explicit, HashMap.collect, ← table_new]
    rfl
  rw [resolve, htable]
  cases explicit routes model with
  | some targets => rfl
  | none =>
    simp only [Option.none_or]
    rw [findSome?_prefixTarget]
    simp only [new]
    rw [find?_insertionSort]
    rfl

theorem claimed_append (a b : List ProviderConfig) : claimed (a ++ b) = claimed a ++ claimed b :=
  List.filterMap_append

theorem mem_claimed {providers : List ProviderConfig} {e : String × String} :
    e ∈ claimed providers ↔ ∃ p ∈ providers, p.pfx = some e.1 ∧ p.name = e.2 := by
  obtain ⟨pre, name⟩ := e
  simp only [claimed, List.mem_filterMap, Option.map_eq_some_iff, Prod.mk.injEq]
  constructor
  · rintro ⟨p, hp, _, hpre, rfl, rfl⟩
    exact ⟨p, hp, hpre, rfl⟩
  · rintro ⟨p, hp, hpre, rfl⟩
    exact ⟨p, hp, _, hpre, rfl, rfl⟩

theorem bestClaim_append (a b : List ProviderConfig) (model : String) :
    bestClaim (a ++ b) model = longer pfxLen (bestClaim a model) (bestClaim b model) := by
  rw [bestClaim, claimed_append, longest?_append]
  rfl

theorem bestClaim_mem {providers : List ProviderConfig} {model : String} {e : String × String}
    (h : bestClaim providers model = some e) :
    e ∈ claimed providers ∧ ∃ rest, stripNamespace model e.1 = some rest := by
  obtain ⟨hmem, hp⟩ := longest?_mem _ _ h
  exact ⟨hmem, Option.isSome_iff_exists.mp hp⟩

theorem bestClaim_eq_none {providers : List ProviderConfig} {model : String} :
    bestClaim providers model = none ↔ ∀ e ∈ claimed providers, stripNamespace model e.1 = none := by
  rw [bestClaim, longest?_eq_none]
  simp [holds]

/-- A claim that decides has the chain of its provider. -/
theorem resolvePrefix_eq_some {providers : List ProviderConfig} {model : String}
    {e : String × String} {rest : String} (h : bestClaim providers model = some e)
    (hr : stripNamespace model e.1 = some rest) :
    resolvePrefix providers model = some [{ provider := e.2, model := some rest }] := by
  rw [resolvePrefix, h, Option.bind_some, prefixTarget, hr]
  rfl

theorem resolvePrefix_eq_none {providers : List ProviderConfig} {model : String} :
    resolvePrefix providers model = none ↔ bestClaim providers model = none := by
  constructor
  · intro h
    cases hb : bestClaim providers model with
    | none => rfl
    | some e =>
      obtain ⟨_, rest, hr⟩ := bestClaim_mem hb
      rw [resolvePrefix_eq_some hb hr] at h
      cases h
  · intro h
    rw [resolvePrefix, h]
    rfl

end Router

/-! ## Health -/

/-- The cooldowns: a provider is considered down before its instant. -/
structure HealthTable where
  cooldownUntil : HashMap String Nat

namespace HealthTable

def new : HealthTable := ⟨∅⟩

/-- Skip `provider` until `now + cooldownSecs`. -/
def penalize (self : HealthTable) (provider : String) (now cooldownSecs : Nat) : HealthTable :=
  ⟨self.cooldownUntil.insert provider (now + cooldownSecs)⟩

/-- Whether `provider` is in its cooldown at `now`. -/
def isDown (self : HealthTable) (provider : String) (now : Nat) : Bool :=
  match self.cooldownUntil.lookup provider with
  | some until_ => now < until_
  | none => false

/-- Drop the penalty of `provider`. -/
def clear (self : HealthTable) (provider : String) : HealthTable :=
  if provider ∈ self.cooldownUntil then ⟨self.cooldownUntil.erase provider⟩ else self

end HealthTable

end Llmleaf
