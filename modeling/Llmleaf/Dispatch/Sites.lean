import Llmleaf.Dispatch

/-!
# Where a dispatch goes

A dispatch visits targets one after the other, in one or two passes of one or more walks. Its sites
are the visits about to be made, each with the state it is made in.

- `sites`: all sites of a dispatch, in order.
- `Site.unwinds`, `Site.called`: whether the limiter unwinds there, and what the provider is called
  with, if it is; both depend only on the state before the visit.
- `panicked_iff`: a dispatch unwinds exactly if a site does.
- `dispatch_serves`: what a dispatch hands back is the answer of one of its calls.
- `carried_dispatch`: the events of a dispatch that carry its request's id.
-/

namespace Llmleaf

/-- The request an event belongs to. -/
def Event.id : Event → Option String
  | .requestStarted id _ _ _ | .requestRouted id _ _ | .usage id _ _ _ | .requestCompleted id _
  | .requestFailed id _ => some id
  | .providerHealth _ _ => none

/-- The events that carry an id. -/
def carried (id : String) (es : List Event) : List Event := es.filter fun e => e.id == some id

section

variable (id : String)

@[simp] theorem carried_nil : carried id [] = [] := rfl

@[simp] theorem carried_append (a b : List Event) :
    carried id (a ++ b) = carried id a ++ carried id b := List.filter_append ..

theorem carried_cons_self {e : Event} (h : e.id = some id) (es : List Event) :
    carried id (e :: es) = e :: carried id es :=
  List.filter_cons_of_pos (by simp [h])

theorem carried_cons_none {e : Event} (h : e.id = none) (es : List Event) :
    carried id (e :: es) = carried id es :=
  List.filter_cons_of_neg (by simp [h])

theorem carried_eq_self {es : List Event} (h : ∀ e ∈ es, e.id = some id) : carried id es = es :=
  List.filter_eq_self.mpr fun e he => by simp [h e he]

end

namespace Dispatch

variable {τ : Type}

/-- A visit about to be made. -/
structure Site where
  honorCooldown : Bool
  walkNow : Instant
  target : Target
  pos : Pos

section

variable (r : Request) (env : Env τ)

namespace Site

/-- The visit. -/
def visit (s : Site) : Visit τ × Pos :=
  Dispatch.visit r env s.honorCooldown s.walkNow s.target s.pos

/-- The provider whose limiter is asked, and the state it is asked in: none at a target that is
skipped for its cooldown or not registered. -/
def asked (s : Site) : Option (Instance × Pos) :=
  let p := s.pos.elapse env
  if s.honorCooldown && p.world.health.isDown s.target.provider r.now then none
  else (r.topo.registry.lookup s.target.provider).map fun provider => (provider, p.elapse env)

/-- The limiter's answer in the state `p`. -/
def admission (s : Site) (p : Pos) : Reply RateGuard × Store :=
  r.topo.rate.tryAdmit p.world.store s.target.provider (upstream r s.target) s.walkNow

/-- Whether the limiter unwinds: it is asked where a bucket's lock is poisoned, or has to compute a
wait that is no duration. -/
def unwinds (s : Site) : Bool :=
  (s.asked r env).any fun a => (s.admission r a.2).1 = .panic

/-- What the provider is called with, if it is: the number of the call, the implementation, the
context and the model. -/
def called (s : Site) : Option (ℕ × Instance × ProviderCx × String) :=
  (s.asked r env).bind fun a =>
    match (s.admission r a.2).1 with
    | .ok _ => some (a.2.calls, a.1, buildCx r env s.target.provider, upstream r s.target)
    | _ => none

end Site

/-! ## The sites of a dispatch -/

/-- The sites of a pass. -/
def passSites (honorCooldown : Bool) (walkNow : Instant) : List Target → Acc τ → List Site
  | [], _ => []
  | target :: targets, a =>
    let s : Site := ⟨honorCooldown, walkNow, target, a.pos⟩
    let (v, p) := s.visit r env
    s :: if v.isLast then []
      else passSites honorCooldown walkNow targets (a.record r honorCooldown target v p)

/-- The sites of a walk. -/
def walkSites (walkNow : Instant) (targets : List Target) (a : Acc τ) : List Site :=
  passSites r env true walkNow targets a ++
    match pass r env true walkNow targets a with
    | .next a => if a.lastErr.isSome then [] else passSites r env false walkNow targets a
    | _ => []

/-- The sites of the loop. -/
def loopSites (targets : List Target) (budget : Duration) (walks : ℕ) (a : Acc τ) : List Site :=
  let walkNow := env.clock walks
  walkSites r env walkNow targets a.restart ++
    match walk r env walkNow targets a.restart with
    | .next a =>
      match a.lastErr, a.soonestWait with
      | none, some wait =>
        if _hnap : min wait budget = 0 then []
        else
          loopSites targets (budget - min wait budget) (walks + 1)
            { a with pos := a.pos.elapse env }
      | _, _ => []
    | _ => []
termination_by budget
decreasing_by exact Nat.sub_lt_self (Nat.pos_of_ne_zero _hnap) (Nat.min_le_right _ _)

/-- The state in which a dispatch begins to walk. -/
def Acc.begin (payload : Option Value) (world : World) : Acc τ :=
  ⟨none, none, [.requestStarted r.requestId r.key r.logicalModel payload], [], [], ⟨world, 0, 0⟩⟩

/-- The sites of a dispatch. -/
def sites (rateMaxWait : Duration) (payload : Option Value) (world : World) : List Site :=
  match r.topo.router.resolve r.logicalModel with
  | none | some [] => []
  | some targets => loopSites r env targets rateMaxWait 0 (.begin r payload world)

/-- The model routes: the dispatch opens with an event. -/
def Routes : Prop := ∃ target targets, r.topo.router.resolve r.logicalModel = some (target :: targets)

/-! ## Unwinding -/

theorem call_not_panicked (target : Target) (provider : Instance) (guard : RateGuard) (p : Pos) :
    ∀ q, call r env target provider guard p ≠ (.panicked, q) := by
  intro q
  unfold call
  dsimp only
  split <;> simp

/-- **A visit unwinds exactly if the limiter does.** -/
theorem Site.visit_panicked_iff (s : Site) :
    (s.visit r env).1 = .panicked ↔ s.unwinds r env := by
  unfold Site.visit Dispatch.visit Site.unwinds Site.asked Site.admission
  dsimp only
  split
  · simp
  · split
    · rename_i h
      simp [h]
    · rename_i provider h
      rw [h]
      simp only [Option.map_some, Option.any_some, decide_eq_true_eq]
      split
      · rename_i hr
        simp [hr]
      · rename_i hr
        simp [hr]
      · rename_i guard store hr
        simp only [hr, reduceCtorEq, iff_false]
        exact fun hc => call_not_panicked r env _ _ _ _ _ (Prod.ext hc rfl)

/-- **A pass unwinds exactly if a site does.** -/
theorem pass_panicked_iff (honorCooldown : Bool) (walkNow : Instant) (targets : List Target)
    (a : Acc τ) : (∃ a', pass r env honorCooldown walkNow targets a = .panicked a') ↔
      ∃ s ∈ passSites r env honorCooldown walkNow targets a, s.unwinds r env := by
  induction targets generalizing a with
  | nil => simp [pass, passSites]
  | cons target targets ih =>
    have hsite := Site.visit_panicked_iff r env ⟨honorCooldown, walkNow, target, a.pos⟩
    rcases hv : Site.visit r env ⟨honorCooldown, walkNow, target, a.pos⟩ with ⟨v, p⟩
    rw [hv] at hsite
    rw [pass, passSites, hv, List.exists_mem_cons_iff, ← hsite]
    simp only [show visit r env honorCooldown walkNow target a.pos = (v, p) from hv]
    cases v with
    | served => simp [Visit.isLast]
    | panicked => simp [Visit.isLast]
    | cooled | unregistered | limited | unsupported | failed =>
      simpa [Visit.isLast] using ih _

theorem walk_panicked_iff (walkNow : Instant) (targets : List Target) (a : Acc τ) :
    (∃ a', walk r env walkNow targets a = .panicked a') ↔
      ∃ s ∈ walkSites r env walkNow targets a, s.unwinds r env := by
  have hfirst := pass_panicked_iff r env true walkNow targets a
  rw [walk, walkSites]
  simp only [List.mem_append, or_and_right, exists_or, ← hfirst]
  rcases pass r env true walkNow targets a with ⟨a'⟩ | ⟨a', _, _, _⟩ | ⟨a'⟩
  · cases herr : a'.lastErr.isSome with
    | true => simp [herr]
    | false => simp [herr, pass_panicked_iff]
  · simp
  · simp

theorem loop_panicked_iff (targets : List Target) (budget : Duration) (walks : ℕ) (a : Acc τ) :
    (loop r env targets budget walks a).outcome = .panicked ↔
      ∃ s ∈ loopSites r env targets budget walks a, s.unwinds r env := by
  induction budget using Nat.strong_induction_on generalizing walks a with
  | _ budget ih =>
    have hwalk := walk_panicked_iff r env (env.clock walks) targets a.restart
    rw [loop, loopSites]
    simp only [List.mem_append, or_and_right, exists_or, ← hwalk]
    rcases walk r env (env.clock walks) targets a.restart with ⟨a'⟩ | ⟨a', _, _, _⟩ | ⟨a'⟩
    · simp only [reduceCtorEq, exists_false, false_or]
      cases herr : a'.lastErr with
      | some e => simp
      | none =>
        cases hsoon : a'.soonestWait with
        | none => simp
        | some wait =>
          dsimp only
          by_cases hnap : min wait budget = 0
          · simp only [dif_pos hnap, reduceCtorEq, List.not_mem_nil, false_and, exists_false]
          · simp only [dif_neg hnap]
            exact ih _ (Nat.sub_lt_self (Nat.pos_of_ne_zero hnap) (Nat.min_le_right _ _)) _ _
    · simp
    · simp

/-- **A dispatch unwinds exactly if a site does.** -/
theorem panicked_iff (rateMaxWait : Duration) (payload : Option Value) (world : World) :
    (dispatch r env rateMaxWait payload world).outcome = .panicked ↔
      ∃ s ∈ sites r env rateMaxWait payload world, s.unwinds r env := by
  unfold dispatch sites
  rcases r.topo.router.resolve r.logicalModel with _ | _ | ⟨target, targets⟩
  · simp
  · simp
  · exact loop_panicked_iff r env _ _ _ _

/-! ## Calls -/

/-- The calls of a dispatch to providers, in order. -/
def calls (rateMaxWait : Duration) (payload : Option Value) (world : World) :
    List (ℕ × Instance × ProviderCx × String) :=
  (sites r env rateMaxWait payload world).filterMap (Site.called r env)

section

variable {r env} {op : ℕ → Instance → ProviderCx → String → Except ModelError τ}

/-- The providers `op` answer the call of a site as those of `env` do. -/
def Agrees (r : Request) (env : Env τ) (op : ℕ → Instance → ProviderCx → String → Except ModelError τ)
    (s : Site) : Prop :=
  ∀ n provider cx model, s.called r env = some (n, provider, cx, model) →
    op n provider cx model = env.op n provider cx model

/-- A visit asks the providers for nothing but its call. -/
theorem Site.visit_of_agrees {s : Site} (h : Agrees r env op s) :
    s.visit r { env with op := op } = s.visit r env := by
  unfold Agrees Site.called Site.asked Site.admission at h
  unfold Site.visit Dispatch.visit
  dsimp only [Pos.elapse] at h ⊢
  split
  · rfl
  · rename_i hup
    rw [if_neg hup] at h
    split
    · rfl
    · rename_i provider hreg
      simp only [hreg, Option.map_some, Option.bind_some] at h
      split
      · rfl
      · rfl
      · rename_i guard store hadm
        simp only [hadm, Option.some.injEq, Prod.mk.injEq] at h
        have hop := h _ _ _ _ ⟨rfl, rfl, rfl, rfl⟩
        simp only [call, Pos.elapse]
        rw [show buildCx r { env with op := op } s.target.provider =
          buildCx r env s.target.provider from rfl, hop]

theorem pass_of_agrees (honorCooldown : Bool) (walkNow : Instant) (targets : List Target)
    (a : Acc τ) (h : ∀ s ∈ passSites r env honorCooldown walkNow targets a, Agrees r env op s) :
    pass r { env with op := op } honorCooldown walkNow targets a =
      pass r env honorCooldown walkNow targets a := by
  induction targets generalizing a with
  | nil => rfl
  | cons target targets ih =>
    rcases hs : Site.visit r env ⟨honorCooldown, walkNow, target, a.pos⟩ with ⟨v, p⟩
    rw [passSites, hs, List.forall_mem_cons] at h
    have hv : visit r env honorCooldown walkNow target a.pos = (v, p) := hs
    have hv' : visit r { env with op := op } honorCooldown walkNow target a.pos = (v, p) :=
      (Site.visit_of_agrees h.1).trans hs
    have htail := h.2
    rw [pass, pass, hv, hv']
    cases v with
    | served | panicked => rfl
    | cooled | unregistered | limited | unsupported | failed =>
      exact ih _ fun s hs => htail s (by simpa [Visit.isLast] using hs)

theorem walk_of_agrees (walkNow : Instant) (targets : List Target) (a : Acc τ)
    (h : ∀ s ∈ walkSites r env walkNow targets a, Agrees r env op s) :
    walk r { env with op := op } walkNow targets a = walk r env walkNow targets a := by
  rw [walkSites, List.forall_mem_append] at h
  rw [walk, walk, pass_of_agrees true walkNow targets a h.1]
  rcases hfirst : pass r env true walkNow targets a with ⟨a'⟩ | ⟨a', _, _, _⟩ | ⟨a'⟩
  · have hsecond := h.2
    simp only [hfirst] at hsecond ⊢
    split
    · rfl
    · rename_i herr
      rw [if_neg herr] at hsecond
      exact pass_of_agrees false walkNow targets a' hsecond
  · rfl
  · rfl

theorem loop_of_agrees (targets : List Target) (budget : Duration) (walks : ℕ) (a : Acc τ)
    (h : ∀ s ∈ loopSites r env targets budget walks a, Agrees r env op s) :
    loop r { env with op := op } targets budget walks a = loop r env targets budget walks a := by
  induction budget using Nat.strong_induction_on generalizing walks a with
  | _ budget ih =>
    rw [loopSites, List.forall_mem_append] at h
    rw [loop, loop, walk_of_agrees (env.clock walks) targets a.restart h.1]
    rcases hwalk : walk r env (env.clock walks) targets a.restart with
      ⟨a'⟩ | ⟨a', _, _, _⟩ | ⟨a'⟩
    · have hrest := h.2
      simp only [hwalk] at hrest ⊢
      cases herr : a'.lastErr with
      | some e => rfl
      | none =>
        cases hsoon : a'.soonestWait with
        | none => rfl
        | some wait =>
          simp only [herr, hsoon] at hrest
          dsimp only
          by_cases hnap : min wait budget = 0
          · rw [dif_pos hnap, dif_pos hnap]
          · rw [dif_neg hnap, dif_neg hnap]
            rw [dif_neg hnap] at hrest
            have hlt := Nat.sub_lt_self (Nat.pos_of_ne_zero hnap) (Nat.min_le_right wait budget)
            exact ih _ hlt (walks + 1) _ hrest
    · rfl
    · rfl

/-- **A dispatch asks the providers for nothing but its calls**: providers that answer these alike
make no difference. -/
theorem dispatch_of_agrees (rateMaxWait : Duration) (payload : Option Value) (world : World)
    (h : ∀ s ∈ sites r env rateMaxWait payload world, Agrees r env op s) :
    dispatch r { env with op := op } rateMaxWait payload world =
      dispatch r env rateMaxWait payload world := by
  unfold sites at h
  unfold dispatch
  rcases hroute : r.topo.router.resolve r.logicalModel with _ | _ | ⟨target, targets⟩
  · rfl
  · rfl
  · rw [hroute] at h
    exact loop_of_agrees _ _ _ _ h

end

/-! ## What is served -/

/-- A site answers the call that is served. -/
def Site.Answers (s : Site) (provider model : String) (value : τ) : Prop :=
  s.target.provider = provider ∧ ∃ n inst cx,
    s.called r env = some (n, inst, cx, model) ∧ env.op n inst cx model = .ok value

theorem Site.visit_served {s : Site} {value : τ} {guard : RateGuard} {p : Pos}
    (h : s.visit r env = (.served value guard, p)) :
    s.Answers r env s.target.provider (upstream r s.target) value := by
  refine ⟨rfl, ?_⟩
  unfold Site.visit Dispatch.visit at h
  unfold Site.called Site.asked Site.admission
  dsimp only at h ⊢
  split at h
  · cases h
  · rename_i hup
    rw [if_neg hup]
    split at h
    · cases h
    · rename_i inst hreg
      simp only [hreg, Option.map_some, Option.bind_some]
      split at h
      · cases h
      · cases h
      · rename_i guard' store hadm
        rw [hadm]
        refine ⟨_, _, _, rfl, ?_⟩
        unfold call at h
        dsimp only at h
        split at h
        · rename_i value' hop
          cases h
          exact hop
        · cases h
        · cases h

/-- A site of the list answers what a pass or a walk serves. -/
def Flow.Served (sites : List Site) : Flow τ → Prop
  | .served _ target value _ =>
    ∃ s ∈ sites, s.Answers r env target.provider (upstream r target) value
  | _ => True

theorem pass_served (honorCooldown : Bool) (walkNow : Instant) (targets : List Target) (a : Acc τ) :
    (pass r env honorCooldown walkNow targets a).Served r env
      (passSites r env honorCooldown walkNow targets a) := by
  induction targets generalizing a with
  | nil => trivial
  | cons target targets ih =>
    rcases hs : Site.visit r env ⟨honorCooldown, walkNow, target, a.pos⟩ with ⟨v, p⟩
    have hv : visit r env honorCooldown walkNow target a.pos = (v, p) := hs
    rw [pass, passSites, hv, hs]
    have hlater : ∀ {f : Flow τ} {s : Site} {ss : List Site}, f.Served r env ss →
        f.Served r env (s :: ss) := fun {f s ss} h => by
      cases f with
      | served =>
        obtain ⟨s', hs', ha⟩ := h
        exact ⟨s', List.mem_cons_of_mem _ hs', ha⟩
      | next | panicked => trivial
    cases v with
    | served => exact ⟨_, List.mem_cons_self, Site.visit_served r env hs⟩
    | panicked => trivial
    | cooled | unregistered | limited | unsupported | failed => exact hlater (ih _)

theorem walk_served (walkNow : Instant) (targets : List Target) (a : Acc τ) :
    (walk r env walkNow targets a).Served r env (walkSites r env walkNow targets a) := by
  have hfirst := pass_served r env true walkNow targets a
  rw [walk, walkSites]
  rcases hpass : pass r env true walkNow targets a with ⟨a'⟩ | ⟨a', _, _, _⟩ | ⟨a'⟩
  · dsimp only
    split
    · trivial
    · have hsecond := pass_served r env false walkNow targets a'
      rcases hpass' : pass r env false walkNow targets a' with ⟨_⟩ | ⟨_, _, _, _⟩ | ⟨_⟩
      · trivial
      · rw [hpass'] at hsecond
        obtain ⟨s, hs, ha⟩ := hsecond
        exact ⟨s, List.mem_append_right _ hs, ha⟩
      · trivial
  · rw [hpass] at hfirst
    obtain ⟨s, hs, ha⟩ := hfirst
    exact ⟨s, List.mem_append_left _ hs, ha⟩
  · trivial

/-- What a dispatch that is served hands back. -/
structure Serves (sites : List Site) (d : Dispatched τ) : Prop where
  requestId : d.requestId = r.requestId
  key : d.key = r.key
  logicalModel : d.logicalModel = r.logicalModel
  rate : d.rate = r.topo.rate
  answered : ∃ s ∈ sites, s.Answers r env d.provider d.upstreamModel d.value

theorem loop_serves (targets : List Target) (budget : Duration) (walks : ℕ) (a : Acc τ)
    {d : Dispatched τ} (h : (loop r env targets budget walks a).outcome = .ok d) :
    Serves r env (loopSites r env targets budget walks a) d := by
  induction budget using Nat.strong_induction_on generalizing walks a with
  | _ budget ih =>
    have hwalk := walk_served r env (env.clock walks) targets a.restart
    rw [loop] at h
    rw [loopSites]
    rcases hw : walk r env (env.clock walks) targets a.restart with
      ⟨a'⟩ | ⟨a', target, value, guard⟩ | ⟨a'⟩ <;> simp only [hw] at h hwalk ⊢
    · split at h
      · rename_i wait herr hsoon
        simp only [herr, hsoon]
        split at h
        · cases h
        · rename_i hnap
          have hlt := Nat.sub_lt_self (Nat.pos_of_ne_zero hnap) (Nat.min_le_right wait budget)
          obtain ⟨hid, hkey, hmodel, hrate, s, hs, ha⟩ := ih _ hlt (walks + 1) _ h
          refine ⟨hid, hkey, hmodel, hrate, s, List.mem_append_right _ ?_, ha⟩
          simpa only [dif_neg hnap, herr, hsoon] using hs
      · cases h
    · cases h
      obtain ⟨s, hs, ha⟩ := hwalk
      exact ⟨rfl, rfl, rfl, rfl, s, List.mem_append_left _ hs, ha⟩
    · cases h

/-- **What a dispatch serves is the answer of one of its calls**, for its own request. -/
theorem dispatch_serves {rateMaxWait : Duration} {payload : Option Value} {world : World}
    {d : Dispatched τ} (h : (dispatch r env rateMaxWait payload world).outcome = .ok d) :
    Serves r env (sites r env rateMaxWait payload world) d := by
  unfold dispatch at h
  unfold sites
  rcases hroute : r.topo.router.resolve r.logicalModel with _ | _ | ⟨target, targets⟩ <;>
    simp only [hroute] at h ⊢
  · cases h
  · cases h
  · exact loop_serves r env _ _ _ _ h

/-! ## Events -/

/-- What a dispatch leaves behind, as an event of its request. -/
def Outcome.last (requestId : String) : Outcome τ → List Event
  | .ok d => [.requestRouted requestId d.provider d.upstreamModel]
  | .error (.rateLimited secs) =>
    [.requestFailed requestId ("rate limited; retry after " ++ toString secs ++ "s")]
  | .error (.allTargetsFailed e) => [.requestFailed requestId e.text]
  | _ => []

/-- What a pass or a walk adds to the events of its request: where it was served. -/
def Flow.Adds (events : List Event) : Flow τ → Prop
  | .next a | .panicked a => carried r.requestId a.events = events
  | .served a target _ _ => carried r.requestId a.events =
      events ++ [.requestRouted r.requestId target.provider (upstream r target)]

theorem pass_adds (honorCooldown : Bool) (walkNow : Instant) (targets : List Target) (a : Acc τ) :
    (pass r env honorCooldown walkNow targets a).Adds r (carried r.requestId a.events) := by
  induction targets generalizing a with
  | nil => rfl
  | cons target targets ih =>
    rw [pass]
    rcases visit r env honorCooldown walkNow target a.pos with ⟨v, p⟩
    cases v with
    | served value guard =>
      simp only [Flow.Adds, Acc.record, carried_append]
      rw [carried_cons_self _ rfl, carried_nil]
    | panicked => rfl
    | cooled | unregistered | limited | unsupported => exact ih _
    | failed e =>
      have hsame : carried r.requestId (a.record r honorCooldown target (.failed e) p).events =
          carried r.requestId a.events := by
        simp only [Acc.record, carried_append]
        rw [carried_cons_none _ rfl, carried_nil, List.append_nil]
      rw [← hsame]
      exact ih _

theorem walk_adds (walkNow : Instant) (targets : List Target) (a : Acc τ) :
    (walk r env walkNow targets a).Adds r (carried r.requestId a.events) := by
  have hfirst := pass_adds r env true walkNow targets a
  rw [walk]
  split
  · rename_i a' ha'
    rw [ha'] at hfirst
    split
    · exact hfirst
    · have hsecond := pass_adds r env false walkNow targets a'
      rwa [show carried r.requestId a'.events = _ from hfirst] at hsecond
  · exact hfirst

theorem carried_loop (targets : List Target) (budget : Duration) (walks : ℕ) (a : Acc τ) :
    let f := loop r env targets budget walks a
    carried r.requestId f.acc.events = carried r.requestId a.events ++ f.outcome.last r.requestId := by
  induction budget using Nat.strong_induction_on generalizing walks a with
  | _ budget ih =>
    have hwalk := walk_adds r env (env.clock walks) targets a.restart
    rw [loop]
    rcases hw : walk r env (env.clock walks) targets a.restart with
      ⟨a'⟩ | ⟨a', target, _, _⟩ | ⟨a'⟩ <;> rw [hw] at hwalk
    · have hwalk : carried r.requestId a'.events = carried r.requestId a.events := hwalk
      have hfail : ∀ text, carried r.requestId (a'.events ++ [.requestFailed r.requestId text]) =
          carried r.requestId a.events ++ [.requestFailed r.requestId text] := fun text => by
        rw [carried_append, hwalk, carried_cons_self _ rfl, carried_nil]
      dsimp only
      split
      · split
        · exact hfail _
        · rename_i hnap
          rw [← hwalk]
          exact ih _ (Nat.sub_lt_self (Nat.pos_of_ne_zero hnap) (Nat.min_le_right _ _)) _
            { a' with pos := a'.pos.elapse env }
      · exact hfail _
    · exact hwalk
    · exact (show carried r.requestId a'.events = _ from hwalk).trans (List.append_nil _).symm

theorem loop_error (targets : List Target) (budget : Duration) (walks : ℕ) (a : Acc τ)
    {e : EngineError} (h : (loop r env targets budget walks a).outcome = .error e) :
    ∃ error, (Outcome.error e : Outcome τ).last r.requestId = [.requestFailed r.requestId error] := by
  induction budget using Nat.strong_induction_on generalizing walks a with
  | _ budget ih =>
    rw [loop] at h
    split at h
    · cases h
    · cases h
    · split at h
      · split at h
        · cases h
          exact ⟨_, rfl⟩
        · rename_i hnap
          exact ih _ (Nat.sub_lt_self (Nat.pos_of_ne_zero hnap) (Nat.min_le_right _ _)) _ _ h
      · cases h
        exact ⟨_, rfl⟩

/-- A dispatch that routes and fails says so. -/
theorem dispatch_error (hroutes : Routes r) {rateMaxWait : Duration} {payload : Option Value}
    {world : World} {e : EngineError}
    (h : (dispatch r env rateMaxWait payload world).outcome = .error e) :
    ∃ error, (Outcome.error e : Outcome τ).last r.requestId = [.requestFailed r.requestId error] := by
  obtain ⟨target, targets, hroute⟩ := hroutes
  simp only [dispatch, hroute] at h
  exact loop_error r env _ _ _ _ h

/-- **The events of a dispatch that routes**: its request's opening, and how it ended. -/
theorem carried_dispatch (h : Routes r) (rateMaxWait : Duration) (payload : Option Value)
    (world : World) :
    let f := dispatch r env rateMaxWait payload world
    carried r.requestId f.acc.events =
      .requestStarted r.requestId r.key r.logicalModel payload :: f.outcome.last r.requestId := by
  obtain ⟨target, targets, hroute⟩ := h
  simp only [dispatch, hroute]
  refine (carried_loop r env (target :: targets) rateMaxWait 0 _).trans ?_
  rw [carried_cons_self _ rfl, carried_nil, List.singleton_append]

end

end Dispatch

end Llmleaf
