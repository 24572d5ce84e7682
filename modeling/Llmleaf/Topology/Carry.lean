import Llmleaf.RateLimit.Size
import Llmleaf.Topology.Layer

/-!
# Rate state across swaps

Every snapshot has its own limiter, and a request keeps the limiter of the snapshot it started with.
A swap hands the entry of a provider on to the new limiter while the provider's limits stay as they
are, so requests on both sides of the swap meet in one entry.

- `Node`: an engine, the snapshots it has installed, and the requests on their way through any of
  them.
- `RateSound`: an entry is carried over while the limits are the same, it is built as the current
  configuration declares, and a provider without limits has none.
- `rateSound_iff_consistent`: every state of every run is sound exactly if no provider of the file is
  limited under a name whose last entry is not.
-/

namespace Llmleaf

/-- Whether a configuration limits anything: a dimension of the provider, or a model. -/
def ProviderConfig.limited (p : ProviderConfig) : Bool :=
  (p.limits.any fun cfg =>
    cfg.requestsPerMin.isSome || cfg.tokensPerMin.isSome || cfg.maxConcurrent.isSome) ||
    decide (p.modelLimits ≠ ∅)

theorem mapVal_eq_empty {f : String → RateLimitConfig → Limit}
    {m : Finmap fun _ : String => RateLimitConfig} : m.mapVal f = ∅ ↔ m = ∅ := by
  constructor
  · intro h
    refine Finmap.ext_lookup fun k => ?_
    have hk := congrArg (Finmap.lookup k) h
    rw [Finmap.lookup_mapVal, Finmap.lookup_empty, Option.map_eq_none_iff] at hk
    rw [hk, Finmap.lookup_empty]
  · rintro rfl
    exact Finmap.ext_lookup fun k => by
      rw [Finmap.lookup_mapVal, Finmap.lookup_empty, Option.map_none, Finmap.lookup_empty]

/-- **A provider gets an entry exactly if it is limited.** -/
theorem isVacant_fromConfig (p : ProviderConfig) (born : Births) :
    (ProviderLimits.fromConfig p born).isVacant = !p.limited := by
  have hmodels : decide ((ProviderLimits.fromConfig p born).perModel = ∅) =
      decide (p.modelLimits = ∅) := decide_eq_decide.mpr mapVal_eq_empty
  rw [ProviderLimits.isVacant, hmodels, ProviderConfig.limited, ProviderLimits.fromConfig]
  cases p.limits with
  | none => simp [Limit.isUnlimited, Limit.unlimited]
  | some cfg =>
    cases hr : cfg.requestsPerMin <;> cases ht : cfg.tokensPerMin <;>
      cases hs : cfg.maxConcurrent <;> simp [Limit.isUnlimited, Limit.fromConfig, hr, ht, hs]

/-! ## A reconciled limiter -/

section

variable (l : RateLimiter) (store : Store) (unchanged : String → Bool) (born : Births)

theorem byName_concat (ps : List ProviderConfig) (p : ProviderConfig) (n : String) :
    (byName (ps ++ [p])).lookup n = if n = p.name then some p else (byName ps).lookup n := by
  rw [byName, List.map_append, HashMap.lookup_collect_append]
  simp only [List.map_cons, List.map_nil, HashMap.lookup_collect_cons, HashMap.lookup_collect_nil,
    Option.none_or]
  split <;> rfl

theorem byName_eq_some {ps : List ProviderConfig} {n : String} {p : ProviderConfig}
    (h : (byName ps).lookup n = some p) : p ∈ ps ∧ p.name = n := by
  obtain ⟨q, hq, he⟩ := List.mem_map.mp (HashMap.lookup_collect_mem h)
  cases he
  exact ⟨hq, rfl⟩

theorem byName_filter_concat (f : ProviderConfig → Bool) (ps : List ProviderConfig)
    (p : ProviderConfig) (n : String) :
    (byName ((ps ++ [p]).filter f)).lookup n =
      if f p ∧ n = p.name then some p else (byName (ps.filter f)).lookup n := by
  rw [List.filter_append]
  cases hf : f p with
  | false => simp [hf]
  | true =>
    rw [List.filter_cons_of_pos hf, List.filter_nil, byName_concat]
    simp

/-- The last entry of a name stays the last one among those that pass a test. -/
theorem byName_filter {f : ProviderConfig → Bool} {ps : List ProviderConfig} {n : String}
    {p : ProviderConfig} (h : (byName ps).lookup n = some p) (hf : f p) :
    (byName (ps.filter f)).lookup n = some p := by
  induction ps using List.reverseRecOn with
  | nil => cases h
  | append_singleton ps q ih =>
    rw [byName_concat] at h
    rw [byName_filter_concat]
    split at h
    · rename_i hn
      cases h
      rw [if_pos ⟨hf, hn⟩]
    · rename_i hn
      rw [if_neg fun hc => hn hc.2, ih h]

/-- The limiter and the store of a reconciliation, by name: an unchanged provider has its old entry,
if any, and any other the fresh one of its last limited entry. -/
theorem reconciled_lookup (ps : List ProviderConfig) (n : String) :
    let r := l.reconciled store ps unchanged born
    store <+: r.2 ∧
    (unchanged n →
      r.1.providers.lookup n = if n ∈ ps.map (·.name) then l.providers.lookup n else none) ∧
    (¬ unchanged n → match (byName (ps.filter (·.limited))).lookup n with
      | none => r.1.providers.lookup n = none
      | some q => ∃ e, store.length ≤ e ∧ r.1.providers.lookup n = some e ∧
        r.2[e]? = some (.fromConfig q born)) := by
  induction ps using List.reverseRecOn with
  | nil => exact ⟨List.prefix_rfl, fun _ => rfl, fun _ => rfl⟩
  | append_singleton ps p ih =>
    obtain ⟨hpre, hsame, hfresh⟩ := ih
    simp only [RateLimiter.reconciled, List.foldl_append, List.foldl_cons, List.foldl_nil] at hpre hsame hfresh ⊢
    generalize ps.foldl (l.reconcileOne unchanged born) (⟨∅⟩, store) = acc at hpre hsame hfresh ⊢
    unfold RateLimiter.reconcileOne
    by_cases hu : unchanged p.name = true
    · rw [if_pos hu]
      -- an unchanged provider does not touch the names that changed
      have hne : ¬ unchanged n → n ≠ p.name := fun h hn => h (hn ▸ hu)
      have hfilter : ¬ unchanged n → (byName ((ps ++ [p]).filter (·.limited))).lookup n =
          (byName (ps.filter (·.limited))).lookup n := fun h => by
        rw [byName_filter_concat, if_neg fun hc => hne h hc.2]
      split
      · rename_i entry hentry
        refine ⟨hpre, fun h => ?_, fun h => ?_⟩
        · rw [HashMap.lookup_insert_eq, hsame h]
          by_cases hn : n = p.name
          · rw [if_pos hn, if_pos (by simp [hn]), hn, hentry]
          · simp [hn]
        · rw [hfilter h]
          simp only [HashMap.lookup_insert_eq, if_neg (hne h)]
          exact hfresh h
      · rename_i hentry
        refine ⟨hpre, fun h => ?_, fun h => ?_⟩
        · rw [hsame h]
          by_cases hn : n = p.name
          · rw [hn, hentry, ite_self, ite_self]
          · simp [hn]
        · rw [hfilter h]
          exact hfresh h
    · rw [if_neg hu]
      dsimp only
      rw [isVacant_fromConfig]
      have hne : unchanged n → n ≠ p.name := fun h hn => hu (hn ▸ h)
      have hmem : unchanged n → (n ∈ (ps ++ [p]).map (·.name) ↔ n ∈ ps.map (·.name)) := fun h => by
        simp [hne h]
      cases hlim : p.limited with
      | false =>
        refine ⟨hpre, fun h => ?_, fun h => ?_⟩
        · simp only [Bool.not_false, if_true, hmem h]
          exact hsame h
        · simp only [byName_filter_concat, hlim, Bool.not_false, if_true, Bool.false_eq_true,
            false_and, if_false]
          exact hfresh h
      | true =>
        refine ⟨hpre.trans (List.prefix_append ..), fun h => ?_, fun h => ?_⟩
        · simp only [Bool.not_true, Bool.false_eq_true, if_false, hmem h]
          rw [HashMap.lookup_insert_eq, if_neg (hne h)]
          exact hsame h
        · simp only [byName_filter_concat, hlim, Bool.not_true, true_and, Bool.false_eq_true,
            if_false, HashMap.lookup_insert_eq]
          by_cases hn : n = p.name
          · rw [if_pos hn, if_pos hn]
            exact ⟨_, hpre.length_le, rfl, by simp⟩
          · rw [if_neg hn, if_neg hn]
            have hold := hfresh h
            split at hold
            · exact hold
            · obtain ⟨e, hle, he, hentry⟩ := hold
              exact ⟨e, hle, he, by
                rw [List.getElem?_append_left (List.getElem?_eq_some_iff.mp hentry).1, hentry]⟩

end

/-! ## A node and its snapshots -/

/-- An operation of a request on the limiter of the snapshot it holds, by the snapshot's number. -/
inductive Traffic where
  | tryAdmit (snapshot : ℕ) (provider model : String) (now : Instant)
  | advance (call : ℕ)
  | drop (call : ℕ)
  | debit (snapshot : ℕ) (provider : String) (scope : Scope) (tokens : ℕ) (now : Instant)

/-- The operation on the limiters of the snapshots. -/
def Traffic.event : Traffic → LimiterState.Event
  | .tryAdmit snapshot provider model now => .tryAdmit snapshot provider model now
  | .advance call => .advance call
  | .drop call => .drop call
  | .debit snapshot provider scope tokens now => .debit snapshot provider scope tokens now

/-- An engine, every snapshot it has installed, the oldest first, and the admissions made through
them. -/
structure Node where
  engine : Engine
  snapshots : List Topology
  calls : List Call

namespace Node

/-- What the node does: it installs a pulled layer, or serves a request. -/
inductive Event where
  | install (i : Engine.Install)
  | request (t : Traffic)

/-- The limiters of all snapshots and the store they share. -/
def limiters (n : Node) : LimiterState where
  store := n.engine.store
  origins := []
  limiters := n.snapshots.map (·.rate)
  calls := n.calls

/-- The node after an event. -/
def step (factory : ProviderFactory) (n : Node) : Event → Node
  | .install i =>
    let engine := n.engine.install factory i
    { n with engine := engine, snapshots := n.snapshots ++ [engine.topology] }
  | .request t =>
    let s := n.limiters.step t.event
    { n with engine := { n.engine with store := s.store }, calls := s.calls }

/-- The node of a configuration. -/
def start (config : Config) (registry : HashMap String Instance) (born : Births) : Node :=
  let engine := Engine.new config registry born
  ⟨engine, [engine.topology], []⟩

/-- The runs of installs and requests. -/
def system (factory : ProviderFactory) (config : Config) (registry : HashMap String Instance)
    (born : Births) : Runs.Sys Node Event :=
  .ofFun (· = start config registry born) (step factory)

/-! ## Soundness of the rate state -/

/-- The limits of `name` are those of `p` in every snapshot from `i` to `j`. -/
def SameLimits (n : Node) (name : String) (p : ProviderConfig) (i j : ℕ) : Prop :=
  ∀ k t, i ≤ k → k ≤ j → n.snapshots[k]? = some t → ∃ q, t.providers.lookup name = some q ∧
    q.limits = p.limits ∧ q.modelLimits = p.modelLimits

/-- Requests through the snapshots `i` and `j` meet in one entry of the provider `name`. -/
structure Shared (factory : ProviderFactory) (n : Node) (name : String) (i j : ℕ) : Prop where
  entry : n.limiters.entry j name = n.limiters.entry i name
  tryAdmit : ∀ model now, n.step factory (.request (.tryAdmit j name model now)) =
    n.step factory (.request (.tryAdmit i name model now))
  debit : ∀ sc tokens now, n.step factory (.request (.debit j name sc tokens now)) =
    n.step factory (.request (.debit i name sc tokens now))

/-- The rate state of a node is sound. -/
structure RateSound (factory : ProviderFactory) (n : Node) : Prop where
  /-- An entry is carried over while the limits are the same. -/
  carried : ∀ name p i j, i ≤ j → j < n.snapshots.length → n.SameLimits name p i j →
    Shared factory n name i j
  /-- A limited provider has an entry that is built as its configuration declares. -/
  limited : ∀ name p, n.engine.topology.providers.lookup name = some p → p.limited →
    ∃ e, n.engine.topology.rate.providers.lookup name = some e ∧
      n.limiters.built e = some p.declares
  /-- A provider without limits has none. -/
  unlimited : ∀ name, (∀ p, n.engine.topology.providers.lookup name = some p → ¬ p.limited) →
    n.engine.topology.rate.providers.lookup name = none

/-- A step that leaves the entries to the requests and the rate state sound. -/
def StepSound (factory : ProviderFactory) (x : Runs.Step Node Event) : Prop :=
  (∀ i, x.event = .install i → x.pre.engine.store <+: x.post.engine.store) ∧
    x.post.RateSound factory

end Node

/-- No provider of the list is limited under a name whose last entry is not. -/
def Consistent (ps : List ProviderConfig) : Prop :=
  ∀ p ∈ ps, p.limited → ∀ q, (byName ps).lookup p.name = some q → q.limited

/-! ## One install -/

section

variable {factory : ProviderFactory} {config : Config} {registry : HashMap String Instance}

/-- **What an install does to the rate state**: nothing, or it reconciles the limiter for the base
and the pulled providers, each of which is the one of its name. -/
theorem Engine.install_cases {ps : List ProviderConfig} {rs : List RouteConfig} {e : Engine}
    (h : Layered factory config registry ps rs e) (i : Install) :
    let e' := e.install factory i
    (e'.topology = e.topology ∧ e'.store = e.store) ∨
      ∃ dyn, (e'.topology.rate, e'.store) = e.topology.rate.reconciled e.store
          (config.providers ++ dyn) (sameLimits e.topology.providers e'.topology.providers) i.born ∧
        e'.topology.providers = byName (config.providers ++ dyn) ∧
        ∀ p ∈ dyn, p.name ∉ config.providers.map (·.name) ∧
          e'.topology.providers.lookup p.name = some p := by
  have hnew := h.install i
  dsimp only
  obtain ⟨-, hp⟩ := accept_spec h.instantiated i.providers
  rw [h.baseProviders] at hp
  generalize he : e.install factory i = e' at hnew ⊢
  simp only [Engine.install, installTopology] at he
  split at he
  · subst he
    exact .inl ⟨rfl, rfl⟩
  · refine .inr ⟨i.orders.providers.order (e.accept factory i.providers).providers.values, ?_, ?_, ?_⟩
    · rw [← he, ← h.baseProviders]
      rfl
    · rw [← he, ← h.baseProviders]
      rfl
    · intro p hmem
      obtain ⟨n, hn⟩ := HashMap.mem_values.mp ((Shuffle.mem_order _).mp hmem)
      rw [hp n] at hn
      obtain ⟨hname, hbase, -⟩ := acceptedProvider_eq_some hn
      rw [hname, hnew.configs, hn, Option.some_or]
      exact ⟨hbase, rfl⟩

/-- The merged providers are consistent if the base is. -/
theorem Consistent.append {base dyn : List ProviderConfig} (h : Consistent base)
    (hdyn : ∀ p ∈ dyn, p.name ∉ base.map (·.name) ∧ (byName (base ++ dyn)).lookup p.name = some p) :
    Consistent (base ++ dyn) := by
  intro p hp hlim q hq
  rcases List.mem_append.mp hp with hp | hp
  · rw [byName, List.map_append, HashMap.lookup_collect_append] at hq
    rcases Option.or_eq_some_iff.mp hq with hq | ⟨-, hq⟩
    · obtain ⟨hq, hname⟩ := byName_eq_some hq
      exact absurd (List.mem_map_of_mem hp) (hname ▸ (hdyn q hq).1)
    · exact h p hp hlim q hq
  · rw [(hdyn p hp).2] at hq
    cases hq
    exact hlim

/-- In a consistent list a name without limits has no limited entry. -/
theorem Consistent.byName_limited {ps : List ProviderConfig} (h : Consistent ps) {name : String}
    (hnone : ∀ p, (byName ps).lookup name = some p → ¬ p.limited) :
    (byName (ps.filter (·.limited))).lookup name = none := by
  rw [Option.eq_none_iff_forall_ne_some]
  intro q hq
  obtain ⟨hq, hname⟩ := byName_eq_some hq
  obtain ⟨hmem, hlim⟩ := List.mem_filter.mp hq
  have hsome : ((byName ps).lookup name).isSome := by
    rw [byName, HashMap.lookup_collect_isSome, List.map_map]
    exact List.mem_map.mpr ⟨q, hmem, hname⟩
  obtain ⟨p, hp⟩ := Option.isSome_iff_exists.mp hsome
  exact hnone p hp (h q hmem hlim p (hname ▸ hp))

/-! ## Every run -/

namespace Node

open Engine

variable (factory config registry)

/-- The invariant of the runs. -/
structure Carries (n : Node) : Prop where
  tidy : n.limiters.Tidy
  last : n.snapshots.getLast? = some n.engine.topology
  layered : ∃ ps rs, Layered factory config registry ps rs n.engine
  carried : ∀ name p i j, i ≤ j → j < n.snapshots.length → n.SameLimits name p i j →
    n.limiters.entry j name = n.limiters.entry i name
  limited : ∀ name p, n.engine.topology.providers.lookup name = some p → p.limited →
    ∃ e, n.engine.topology.rate.providers.lookup name = some e ∧
      n.limiters.built e = some p.declares
  unlimited : Consistent config.providers → ∀ name,
    (∀ p, n.engine.topology.providers.lookup name = some p → ¬ p.limited) →
    n.engine.topology.rate.providers.lookup name = none

variable {factory config registry}

/-- The limits decide whether a provider is limited and what it declares. -/
theorem limited_congr {p q : ProviderConfig} (hl : q.limits = p.limits)
    (hm : q.modelLimits = p.modelLimits) : q.limited = p.limited ∧ q.declares = p.declares := by
  refine ⟨by rw [ProviderConfig.limited, ProviderConfig.limited, hl, hm], funext fun sc => ?_⟩
  cases sc with
  | none => rw [ProviderConfig.declares, ProviderConfig.declares, hl]
  | some model => rw [ProviderConfig.declares, ProviderConfig.declares, hm]

theorem sameLimits_iff {old new : HashMap String ProviderConfig} {name : String} :
    sameLimits old new name ↔ ∃ o n, old.lookup name = some o ∧ new.lookup name = some n ∧
      o.limits = n.limits ∧ o.modelLimits = n.modelLimits := by
  unfold sameLimits
  split
  · rename_i o n ho hn
    simp [ho, hn]
  · rename_i hnone
    constructor
    · intro h
      cases h
    · rintro ⟨o, n, ho, hn, -⟩
      exact (hnone o n ho hn).elim

theorem carries_start (born : Births) : Carries factory config registry (start config registry born) := by
  have hrec := fun name => reconciled_lookup ⟨∅⟩ [] (fun _ => false) born config.providers name
  refine ⟨⟨by simp [limiters, start], fun l hl n e he => ?_⟩, rfl,
    ⟨[], [], layered_new factory config registry born⟩, fun name p i j hij hj _ => ?_,
    fun name p hp hlim => ?_, fun hcons name hnone => ?_⟩
  · simp only [limiters, start, List.map_cons, List.map_nil, List.mem_singleton] at hl
    subst hl
    have hfresh := (hrec n).2.2 (by simp)
    split at hfresh
    · exact absurd (he.symm.trans hfresh) (by simp)
    · obtain ⟨e', -, he', hentry⟩ := hfresh
      obtain rfl : e = e' := Option.some.inj (he.symm.trans he')
      exact (List.getElem?_eq_some_iff.mp hentry).1
  · simp only [start, List.length_singleton] at hj
    rw [show i = 0 by omega, show j = 0 by omega]
  · have hfresh := (hrec name).2.2 (by simp)
    rw [byName_filter hp hlim] at hfresh
    obtain ⟨e, -, he, hentry⟩ := hfresh
    refine ⟨e, he, ?_⟩
    rw [LimiterState.built]
    refine (congrArg (Option.map _) hentry).trans (congrArg some ?_)
    exact ProviderLimits.built_fromConfig p born
  · have hfresh := (hrec name).2.2 (by simp)
    rw [hcons.byName_limited hnone] at hfresh
    exact hfresh

/-- A request leaves the snapshots alone. -/
theorem limiters_request (n : Node) (t : Traffic) :
    (n.step factory (.request t)).limiters = n.limiters.step t.event := by
  have hact : ∀ (s : LimiterState) (i : ℕ) (op : ProviderLimits → Call → ProviderLimits × Call),
      (s.act i op).limiters = s.limiters ∧ (s.act i op).origins = s.origins := by
    intro s i op
    unfold LimiterState.act
    split
    · exact ⟨rfl, rfl⟩
    · split <;> exact ⟨rfl, rfl⟩
  have hkeep : (n.limiters.step t.event).limiters = n.limiters.limiters ∧
      (n.limiters.step t.event).origins = n.limiters.origins := by
    cases t with
    | tryAdmit snapshot provider model now =>
      simp only [Traffic.event, LimiterState.step]
      split <;> exact ⟨rfl, rfl⟩
    | advance call => exact hact _ _ _
    | drop call => exact hact _ _ _
    | debit snapshot provider scope tokens now =>
      simp only [Traffic.event, LimiterState.step]
      split
      · exact ⟨rfl, rfl⟩
      · split <;> exact ⟨rfl, rfl⟩
  rw [step, limiters]
  generalize n.limiters.step t.event = s at hkeep
  obtain ⟨store, origins, ls, calls⟩ := s
  obtain ⟨rfl, rfl⟩ := hkeep
  rfl

theorem event_ne (t : Traffic) (l : ℕ) (ps : List ProviderConfig) (u : String → Bool)
    (b : Births) : t.event ≠ .reconcile l ps u b := by
  cases t <;> simp [Traffic.event]

theorem entry_congr {s s' : LimiterState} (h : s'.limiters = s.limiters) (i : ℕ) (name : String) :
    s'.entry i name = s.entry i name := by
  rw [LimiterState.entry, LimiterState.entry, h]

/-- **A request keeps the invariant.** -/
theorem Carries.request {n : Node} (h : Carries factory config registry n) (t : Traffic) :
    Carries factory config registry (n.step factory (.request t)) := by
  have hlim : (n.step factory (.request t)).limiters = n.limiters.step t.event :=
    limiters_request n t
  obtain ⟨htidy, hbuilt⟩ := h.tidy.step (event_ne t)
  rw [← hlim] at htidy hbuilt
  obtain ⟨ps, rs, hl⟩ := h.layered
  refine ⟨htidy, h.last, ⟨ps, rs, { hl with }⟩, fun name p i j hij hj hsame => ?_,
    fun name p hp hlimited => ?_, h.unlimited⟩
  · have hls : (n.step factory (.request t)).limiters.limiters = n.limiters.limiters := rfl
    rw [entry_congr hls, entry_congr hls]
    exact h.carried name p i j hij hj hsame
  · rw [hbuilt]
    exact h.limited name p hp hlimited

/-- The newest snapshot's limiter. -/
theorem entry_last {n : Node} (h : n.snapshots.getLast? = some n.engine.topology) (name : String) :
    n.limiters.entry (n.snapshots.length - 1) name =
      n.engine.topology.rate.providers.lookup name := by
  rw [List.getLast?_eq_getElem?] at h
  simp only [LimiterState.entry, limiters, List.getElem?_map, h, Option.map_some]

/-- What an entry of the old store is built with stays, if the store only grows. -/
theorem built_grow {s s' : LimiterState} (hpre : s.store <+: s'.store) (hcalls : s'.calls = s.calls)
    {e : ℕ} (he : e < s.store.length) : s'.built e = s.built e := by
  obtain ⟨extra, hextra⟩ := hpre
  rw [LimiterState.built, LimiterState.built, ← hextra, List.getElem?_append_left he, hcalls]

/-- What is added to the store is built as its configuration declares: no call has it yet. -/
theorem built_fresh {s s' : LimiterState} (h : s.Tidy) (hcalls : s'.calls = s.calls)
    {p : ProviderConfig} {born : Births} {e : ℕ} (he : s.store.length ≤ e)
    (hentry : s'.store[e]? = some (.fromConfig p born)) : s'.built e = some p.declares := by
  have hzero : LimiterState.heldPermits s'.calls e = fun _ => 0 := by
    funext sc
    refine List.sum_eq_zero fun x hx => ?_
    obtain ⟨c, hc, rfl⟩ := List.mem_map.mp hx
    rw [hcalls] at hc
    exact if_neg fun heq => by have := (h.calls c hc).1; omega
  rw [LimiterState.built, hentry, Option.map_some, hzero, ProviderLimits.built_fromConfig]

section

variable {n n' : Node} (h : Carries factory config registry n)
  (hsnap : n'.snapshots = n.snapshots ++ [n'.engine.topology]) (hcalls : n'.calls = n.calls)

include h hsnap

/-- The entries of a provider, by snapshot, after an install that hands on its entry if its limits
stay. -/
theorem Carries.carried_install {name : String} {p : ProviderConfig}
    (hkeep : ∀ o q, n.engine.topology.providers.lookup name = some o →
      n'.engine.topology.providers.lookup name = some q → o.limits = q.limits →
      o.modelLimits = q.modelLimits → n'.engine.topology.rate.providers.lookup name =
        n.engine.topology.rate.providers.lookup name)
    {i j : ℕ} (hij : i ≤ j) (hj : j < n'.snapshots.length) (hsame : n'.SameLimits name p i j) :
    n'.limiters.entry j name = n'.limiters.entry i name := by
  have hold : ∀ k < n.snapshots.length, n'.snapshots[k]? = n.snapshots[k]? := fun k hk => by
    rw [hsnap, List.getElem?_append_left hk]
  have hentry : ∀ k < n.snapshots.length, n'.limiters.entry k name = n.limiters.entry k name :=
    fun k hk => by
      simp only [LimiterState.entry, limiters, List.getElem?_map, hold k hk]
  have hlast : n'.limiters.entry n.snapshots.length name =
      n'.engine.topology.rate.providers.lookup name := by
    simp [LimiterState.entry, limiters, hsnap]
  have hlen : n'.snapshots.length = n.snapshots.length + 1 := by rw [hsnap, List.length_append]; rfl
  have hne : n.snapshots ≠ [] := fun hnil => by
    have := h.last
    rw [hnil] at this
    cases this
  have hpos := List.length_pos_iff.mpr hne
  have hsame' : ∀ k t, i ≤ k → k ≤ j → k < n.snapshots.length → n.snapshots[k]? = some t → _ :=
    fun k t hik hkj hk ht => hsame k t hik hkj ((hold k hk).trans ht)
  rcases Nat.lt_or_ge j n.snapshots.length with hlt | hge
  · rw [hentry j hlt, hentry i (by omega)]
    refine h.carried name p i j hij hlt fun k t hik hkj ht => ?_
    exact hsame' k t hik hkj (by omega) ht
  obtain rfl : j = n.snapshots.length := by omega
  rcases Nat.lt_or_ge i n.snapshots.length with hi | hi
  · -- up to the snapshot before, and from there by the install
    have hprev := h.carried name p i (n.snapshots.length - 1) (by omega) (by omega)
      fun k t hik hkj ht => hsame' k t hik (by omega) (by omega) ht
    rw [entry_last h.last] at hprev
    obtain ⟨o, ho, hol, hom⟩ := hsame' (n.snapshots.length - 1) n.engine.topology (by omega)
      (by omega) (by omega) (by rw [← List.getLast?_eq_getElem?, h.last])
    obtain ⟨q, hq, hql, hqm⟩ := hsame n.snapshots.length n'.engine.topology hij (le_refl _)
      (by simp [hsnap])
    rw [hlast, hentry i hi, ← hprev]
    exact hkeep o q ho hq (hol.trans hql.symm) (hom.trans hqm.symm)
  · rw [show i = n.snapshots.length by omega]

end

/-- The entries of the newest snapshot are in the store. -/
theorem Carries.entry_lt {n : Node} (h : Carries factory config registry n) {name : String} {e : ℕ}
    (he : n.engine.topology.rate.providers.lookup name = some e) : e < n.engine.store.length :=
  h.tidy.entries _ (List.mem_map_of_mem (List.mem_of_getLast? h.last)) name e he

/-- An install that finds nothing to change repeats the newest snapshot. -/
theorem Carries.repeated {n n' : Node} (h : Carries factory config registry n)
    (hsnap : n'.snapshots = n.snapshots ++ [n'.engine.topology]) (hcalls : n'.calls = n.calls)
    (htopo : n'.engine.topology = n.engine.topology) (hstore : n'.engine.store = n.engine.store)
    (hlayered : ∃ ps rs, Layered factory config registry ps rs n'.engine) :
    Carries factory config registry n' where
  tidy := by
    have hcalls' : n'.limiters.calls = n.limiters.calls := hcalls
    refine ⟨fun c hc => ?_, fun l hl name e he => ?_⟩
    · rw [limiters, hstore]
      exact h.tidy.calls c (hcalls' ▸ hc)
    · rw [limiters, hstore]
      refine h.tidy.entries l ?_ name e he
      simp only [limiters, hsnap, htopo, List.map_append, List.mem_append] at hl ⊢
      rcases hl with hl | hl
      · exact hl
      · rw [List.map_singleton, List.mem_singleton] at hl
        rw [hl]
        exact List.mem_map_of_mem (List.mem_of_getLast? h.last)
  last := by rw [hsnap]; simp
  layered := hlayered
  carried _ _ _ _ hij hj hsame :=
    h.carried_install hsnap (fun _ _ _ _ _ _ => by rw [htopo]) hij hj hsame
  limited name p hp hlim := by
    rw [htopo] at hp ⊢
    obtain ⟨e, he, hbuilt⟩ := h.limited name p hp hlim
    refine ⟨e, he, ?_⟩
    rw [LimiterState.built, limiters, hstore, hcalls]
    exact hbuilt
  unlimited hcons name hnone := by
    rw [htopo] at hnone ⊢
    exact h.unlimited hcons name hnone

/-- An install that reconciles the limiter for the providers `ps`. -/
structure Reconciles (n n' : Node) (ps : List ProviderConfig) (born : Births) : Prop where
  snapshots : n'.snapshots = n.snapshots ++ [n'.engine.topology]
  calls : n'.calls = n.calls
  rate : (n'.engine.topology.rate, n'.engine.store) =
    n.engine.topology.rate.reconciled n.engine.store ps
      (sameLimits n.engine.topology.providers n'.engine.topology.providers) born
  providers : n'.engine.topology.providers = byName ps

section

variable {n n' : Node} {ps : List ProviderConfig} {born : Births} (hr : Reconciles n n' ps born)

include hr

theorem Reconciles.store_grows : n.engine.store <+: n'.engine.store := by
  have hlook := reconciled_lookup n.engine.topology.rate n.engine.store
    (sameLimits n.engine.topology.providers n'.engine.topology.providers) born ps ""
  rw [← hr.rate] at hlook
  exact hlook.1

/-- A provider whose limits stay keeps its entry. -/
theorem Reconciles.same {name : String} {o q : ProviderConfig}
    (ho : n.engine.topology.providers.lookup name = some o)
    (hq : n'.engine.topology.providers.lookup name = some q) (hlimits : o.limits = q.limits)
    (hmodels : o.modelLimits = q.modelLimits) : n'.engine.topology.rate.providers.lookup name =
      n.engine.topology.rate.providers.lookup name := by
  have hlook := reconciled_lookup n.engine.topology.rate n.engine.store
    (sameLimits n.engine.topology.providers n'.engine.topology.providers) born ps name
  rw [← hr.rate] at hlook
  have hmem : name ∈ ps.map (·.name) := by
    rw [hr.providers] at hq
    obtain ⟨hq, hname⟩ := byName_eq_some hq
    exact List.mem_map.mpr ⟨q, hq, hname⟩
  rw [hlook.2.1 (sameLimits_iff.mpr ⟨o, q, ho, hq, hlimits, hmodels⟩), if_pos hmem]

/-- Any other name has the fresh entry of its last limited provider, if it has one. -/
theorem Reconciles.fresh {name : String}
    (hname : ¬ sameLimits n.engine.topology.providers n'.engine.topology.providers name) :
    match (byName (ps.filter (·.limited))).lookup name with
    | none => n'.engine.topology.rate.providers.lookup name = none
    | some q => ∃ e, n.engine.store.length ≤ e ∧
      n'.engine.topology.rate.providers.lookup name = some e ∧
        n'.engine.store[e]? = some (.fromConfig q born) := by
  have hlook := reconciled_lookup n.engine.topology.rate n.engine.store
    (sameLimits n.engine.topology.providers n'.engine.topology.providers) born ps name
  rw [← hr.rate] at hlook
  exact hlook.2.2 hname

variable (h : Carries factory config registry n)

include h

theorem Reconciles.entry_lt {name : String} {e : ℕ}
    (he : n'.engine.topology.rate.providers.lookup name = some e) : e < n'.engine.store.length := by
  by_cases hsame : sameLimits n.engine.topology.providers n'.engine.topology.providers name
  · obtain ⟨o, q, ho, hq, hlimits, hmodels⟩ := sameLimits_iff.mp hsame
    rw [hr.same ho hq hlimits hmodels] at he
    exact (h.entry_lt he).trans_le hr.store_grows.length_le
  · have hfresh := hr.fresh hsame
    split at hfresh
    · rw [hfresh] at he
      cases he
    · obtain ⟨e', -, he', hentry⟩ := hfresh
      obtain rfl : e = e' := Option.some.inj (he.symm.trans he')
      exact (List.getElem?_eq_some_iff.mp hentry).1

theorem Reconciles.tidy : n'.limiters.Tidy := by
  have hcalls : n'.limiters.calls = n.limiters.calls := hr.calls
  refine ⟨fun c hc => ?_, fun l hl name e he => ?_⟩
  · obtain ⟨hlt, hunheld⟩ := h.tidy.calls c (hcalls ▸ hc)
    exact ⟨hlt.trans_le hr.store_grows.length_le, hunheld⟩
  · simp only [limiters, hr.snapshots, List.map_append, List.mem_append, List.map_singleton,
      List.mem_singleton] at hl
    rcases hl with hl | rfl
    · exact (h.tidy.entries l hl name e he).trans_le hr.store_grows.length_le
    · exact hr.entry_lt h he

/-- A limited provider has an entry that is built as its configuration declares. -/
theorem Reconciles.limited {name : String} {p : ProviderConfig}
    (hp : n'.engine.topology.providers.lookup name = some p) (hlim : p.limited) :
    ∃ e, n'.engine.topology.rate.providers.lookup name = some e ∧
      n'.limiters.built e = some p.declares := by
  by_cases hsame : sameLimits n.engine.topology.providers n'.engine.topology.providers name
  · obtain ⟨o, q, ho, hq, hlimits, hmodels⟩ := sameLimits_iff.mp hsame
    obtain rfl : p = q := Option.some.inj (hp.symm.trans hq)
    obtain ⟨hlimited, hdeclares⟩ := limited_congr hlimits.symm hmodels.symm
    obtain ⟨e, he, hbuilt⟩ := h.limited name o ho (hlimited.symm.trans hlim)
    refine ⟨e, (hr.same ho hq hlimits hmodels).trans he, ?_⟩
    have hgrow : n'.limiters.built e = n.limiters.built e :=
      built_grow hr.store_grows hr.calls (h.entry_lt he)
    rw [hgrow, hbuilt, hdeclares]
  · have hfresh := hr.fresh hsame
    rw [hr.providers] at hp
    rw [byName_filter hp hlim] at hfresh
    obtain ⟨e, hle, he, hentry⟩ := hfresh
    exact ⟨e, he, built_fresh h.tidy hr.calls hle hentry⟩

/-- A provider without limits has none, if the file and the merged list are consistent. -/
theorem Reconciles.unlimited (hcons : Consistent config.providers) (hps : Consistent ps)
    {name : String} (hnone : ∀ p, n'.engine.topology.providers.lookup name = some p → ¬ p.limited) :
    n'.engine.topology.rate.providers.lookup name = none := by
  by_cases hsame : sameLimits n.engine.topology.providers n'.engine.topology.providers name
  · obtain ⟨o, q, ho, hq, hlimits, hmodels⟩ := sameLimits_iff.mp hsame
    rw [hr.same ho hq hlimits hmodels]
    refine h.unlimited hcons name fun o' ho' hlim => hnone q hq ?_
    obtain rfl : o = o' := Option.some.inj (ho.symm.trans ho')
    exact (limited_congr hlimits.symm hmodels.symm).1.trans hlim
  · have hfresh := hr.fresh hsame
    rw [hr.providers] at hnone
    rw [hps.byName_limited hnone] at hfresh
    exact hfresh

end

/-- **An install keeps the invariant.** -/
theorem Carries.install {n : Node} (h : Carries factory config registry n) (i : Install) :
    Carries factory config registry (n.step factory (.install i)) ∧
      n.engine.store <+: (n.step factory (.install i)).engine.store := by
  obtain ⟨ps, rs, hl⟩ := h.layered
  have hcases := Engine.install_cases hl i
  have hnew := hl.install i
  have hsnap : (n.step factory (.install i)).snapshots =
      n.snapshots ++ [(n.step factory (.install i)).engine.topology] := rfl
  have hcalls : (n.step factory (.install i)).calls = n.calls := rfl
  have heng : (n.step factory (.install i)).engine = n.engine.install factory i := rfl
  rw [← heng] at hnew hcases
  generalize n.step factory (.install i) = n' at hsnap hcalls hnew hcases ⊢
  rcases hcases with ⟨htopo, hstore⟩ | ⟨dyn, hrec, hmap, hdyn⟩
  · exact ⟨h.repeated hsnap hcalls htopo hstore ⟨_, _, hnew⟩, by rw [hstore]⟩
  · have hr : Reconciles n n' (config.providers ++ dyn) i.born := ⟨hsnap, hcalls, hrec, hmap⟩
    rw [hmap] at hdyn
    refine ⟨⟨hr.tidy h, by rw [hsnap]; simp, ⟨_, _, hnew⟩, fun _ _ _ _ hij hj hsame => ?_,
      fun _ _ => hr.limited h, fun hcons _ => ?_⟩, hr.store_grows⟩
    · exact h.carried_install hsnap (fun _ _ => hr.same) hij hj hsame
    · exact hr.unlimited h hcons (hcons.append hdyn)

/-- Requests through two limiters that give a provider one entry act alike. -/
theorem shared_of_entry {n : Node} {name : String} {i j : ℕ}
    (h : n.limiters.entry j name = n.limiters.entry i name) : Shared factory n name i j where
  entry := h
  tryAdmit model now := by simp only [step, Traffic.event, LimiterState.step, h]
  debit sc tokens now := by simp only [step, Traffic.event, LimiterState.step, h]

/-- The invariant makes the rate state sound if the file is consistent. -/
theorem Carries.rateSound {n : Node} (h : Carries factory config registry n)
    (hcons : Consistent config.providers) : n.RateSound factory where
  carried name p i j hij hj hsame := shared_of_entry (h.carried name p i j hij hj hsame)
  limited := h.limited
  unlimited := h.unlimited hcons

/-- **Every step keeps the invariant**, and the entries to the requests. -/
theorem Carries.step {n : Node} (h : Carries factory config registry n) (e : Event) :
    Carries factory config registry (n.step factory e) ∧
      ∀ i, e = .install i → n.engine.store <+: (n.step factory e).engine.store := by
  cases e with
  | install i =>
    obtain ⟨hnew, hpre⟩ := h.install i
    exact ⟨hnew, fun _ _ => hpre⟩
  | request t => exact ⟨h.request t, fun i hi => by cases hi⟩

/-- **The rate state across swaps.** In every run of installs and requests through any snapshot, the
rate state is sound in every state and installs leave the entries to the requests, exactly if no
provider of the file is limited under a name whose last entry is not. -/
theorem rateSound_iff_consistent {born : Births} {tr : List (Runs.Step Node Event)} {n : Node}
    (h : Runs.Run (system factory config registry born) (start config registry born) tr n) :
    ((start config registry born).RateSound factory ∧ ∀ x ∈ tr, StepSound factory x) ↔
      Consistent config.providers := by
  constructor
  · rintro ⟨hstart, -⟩ p hp hlim q hq
    by_contra hunlim
    -- the file's own limiter gives the name an entry
    have hnone := hstart.unlimited p.name fun q' hq' => by
      obtain rfl : q = q' := Option.some.inj (hq.symm.trans hq')
      exact hunlim
    have hfresh := (reconciled_lookup ⟨∅⟩ [] (fun _ => false) born config.providers p.name).2.2
      (by simp)
    split at hfresh
    · rename_i hfilter
      rw [byName, HashMap.lookup_collect_eq_none, List.map_map] at hfilter
      exact hfilter (List.mem_map.mpr ⟨p, List.mem_filter.mpr ⟨hp, hlim⟩, rfl⟩)
    · obtain ⟨e, -, he, -⟩ := hfresh
      exact absurd (he.symm.trans hnone) (by simp)
  · intro hcons
    have hreach : ∀ {tr n}, Runs.Run (system factory config registry born)
        (start config registry born) tr n → Carries factory config registry n := fun hr =>
      hr.invariant (carries_start born) fun t e t' ht hstep => by
        rw [show t' = t.step factory e from hstep]
        exact (ht.step e).1
    refine ⟨(carries_start born).rateSound hcons, fun x hx => ?_⟩
    obtain ⟨tr', hrun, hstep⟩ := h.before_of_mem x hx
    have hpost : x.post = x.pre.step factory x.event := hstep
    obtain ⟨hnew, hpre⟩ := (hreach hrun).step x.event
    rw [StepSound, hpost]
    exact ⟨hpre, hnew.rateSound hcons⟩

/-- A file with two entries of one name, of which the first is limited. -/
def twice : Config where
  providers :=
    [{ ProviderConfig.plain "p" "openai" none with limits := some ⟨some 1, none, none⟩ },
      .plain "p" "openai" none]
  routes := []

/-- The provider without limits has the entry of the limited one. -/
theorem duplicate_keeps_entry :
    ¬ ∀ tr n, Runs.Run (system ⟨fun kind => kind == "openai"⟩ twice ∅ fun _ _ => (0, 0))
        (start twice ∅ fun _ _ => (0, 0)) tr n →
      (start twice ∅ fun _ _ => (0, 0)).RateSound ⟨fun kind => kind == "openai"⟩ ∧
        ∀ x ∈ tr, StepSound ⟨fun kind => kind == "openai"⟩ x := by
  intro h
  have hnone := (h _ _ .nil).1.unlimited "p" fun p hp => by
    have hp' : (byName twice.providers).lookup "p" = some p := hp
    have hlast : (byName twice.providers).lookup "p" = some (.plain "p" "openai" none) := by
      decide +kernel
    rw [hlast] at hp'
    cases hp'
    decide
  revert hnone
  decide +kernel

/-- A pull of a limited provider, and a request to it through either snapshot. -/
def pullLimited : List Event :=
  [.install
      { providers :=
          [{ ProviderConfig.plain "q" "openai" none with limits := some ⟨none, none, some 1⟩ }]
        routes := []
        orders := ⟨.id _, .id _, .id _, .id _⟩
        born := fun _ _ => (0, 0) },
    .request (.tryAdmit 1 "q" "m" 0), .request (.advance 0), .request (.tryAdmit 0 "q" "m" 0)]

/-- The run of this pull on an empty file. -/
theorem rateSound_iff_consistent_pull :
    let factory : ProviderFactory := ⟨fun kind => kind == "openai"⟩
    let s := start ⟨[], []⟩ ∅ fun _ _ => (0, 0)
    (s.RateSound factory ∧ ∀ x ∈ Runs.trace (step factory) s pullLimited, StepSound factory x) ↔
      Consistent [] := by
  intro factory s
  have hrun : Runs.Run (system factory ⟨[], []⟩ ∅ fun _ _ => (0, 0)) s
      (Runs.trace (step factory) s pullLimited) (pullLimited.foldl (step factory) s) :=
    .exec _ _ s pullLimited
  exact rateSound_iff_consistent hrun

end Node

end

end Llmleaf
