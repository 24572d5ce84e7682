import Llmleaf.Pipeline

/-!
# Lifecycle brackets

The events that carry a request's id: an opening, the place where it was served, its usage reports as
the consumer sees them, and one terminal event. Three pieces of code write them: the dispatch opens
and closes what fails, an instrumented stream or the tail of a response closes what is served.

They agree on every chain, every run of the providers and every stream that is drained. What breaks
the bracket is a task that unwinds in the limiter: at an admission in the dispatch, or at a debit
after it. The opening is out then, and no terminal event follows.

- `Closes`: what follows an answer; `drain_closes`, `finishBatch_closes`: an instrumented stream and
  the tail of a response are like that.
- `Entry.through_bracketed_iff`: from there to the whole of an entry point.
- **Result** (`Consumer.bracketed_iff_steady`): a request that routes is bracketed exactly if no
  access of it to the limiter unwinds.
-/

namespace Llmleaf

open Dispatch (World Pos Dispatched)

/-- The terminal event of a request. -/
def Terminal (id : String) (failed : Bool) (e : Event) : Prop :=
  if failed then ∃ error, e = .requestFailed id error
  else ∃ finish, e = .requestCompleted id finish

/-- The events of a request are well bracketed: it opens, it is served at most once, the usage
reports are those its consumer sees and come after that, and the last event is its only terminal
one, a failure exactly if the consumer sees an error. -/
def Bracketed (id : String) (t : Trace) : Prop :=
  ∃ key model payload routed last,
    carried id t.events = .requestStarted id key model payload ::
      (routed ++ (t.seen.map (.usage id key model) ++ [last])) ∧
    (routed = [] ∧ t.seen = [] ∨ ∃ provider upstream, routed = [.requestRouted id provider upstream]) ∧
    Terminal id t.failed last

/-! ## Which requests open -/

namespace Entry

/-- The request passes its screening, and its model routes. -/
def Opens {ρ : Type} [Addressed ρ] (c : Entry) (codec : Codec ρ) (req : ρ) : Prop :=
  (∃ req', screenRequest c.interceptor codec req c.key (Addressed.model req) = .ok req') ∧
    Dispatch.Routes (c.dispatching (Addressed.model req))

/-- The admissions a dispatch asks for. -/
def admissions {τ : Type} (c : Entry) (model : String) (env : Dispatch.Env τ)
    (payload : Option Value) : List Admission :=
  (Dispatch.sites (c.dispatching model) env c.rateMaxWait payload c.world).filterMap
    (Dispatch.Site.meets (c.dispatching model) env)

/-- The admissions a request asks for after its screening. -/
def screenedAdmissions {ρ τ : Type} [Addressed ρ] (c : Entry) (codec : Codec ρ) (ports : Ports ρ τ)
    (req : ρ) : List Admission :=
  match screenRequest c.interceptor codec req c.key (Addressed.model req) with
  | .error _ => []
  | .ok req' => c.admissions (Addressed.model req) (ports.env req') (c.payload codec req')

end Entry

namespace Consumer

/-- The dispatch of the request emits its opening event. -/
def Opens (c : Entry) : Consumer → Prop
  | run codec _ req => c.Opens codec req
  | embed codec _ req => c.Opens codec req
  | rerank codec _ req => c.Opens codec req
  | decisions codec _ req => c.Opens codec req
  | speech codec _ req => c.Opens codec req
  | transcribe codec _ req => c.Opens codec req
  | voices _ model => Dispatch.Routes (c.dispatching model)

/-- The admissions the request asks for. -/
def admissions (c : Entry) : Consumer → List Admission
  | run codec ports req => c.screenedAdmissions codec ports req
  | embed codec ports req => c.screenedAdmissions codec ports req
  | rerank codec ports req => c.screenedAdmissions codec ports req
  | decisions codec ports req => c.screenedAdmissions codec ports req
  | speech codec ports req => c.screenedAdmissions codec ports req
  | transcribe codec ports req => c.screenedAdmissions codec ports req
  | voices env model => c.admissions model env none

/-- No access of the request to the limiter unwinds. -/
def Steady (c : Entry) (x : Consumer) : Prop :=
  (∀ a ∈ x.admissions c, a.unwinds = false) ∧ ∀ d ∈ (x.trace c).debits, d.unwinds = false

end Consumer

/-! ## After an answer -/

/-- What follows an answer: the usage reports the consumer sees and a terminal event, or only usage
reports if a debit unwinds. -/
structure Closes (id key model : String) (t : Trace) : Prop where
  steady : (∀ d ∈ t.debits, d.unwinds = false) →
    ∃ last, t.events = t.seen.map (.usage id key model) ++ [last] ∧ Terminal id t.failed last
  unwound : ∀ d ∈ t.debits, d.unwinds = true → ∀ e ∈ t.events, ∃ u, e = .usage id key model u

/-- An answer that a debit has unwound before its first event. -/
theorem Closes.of_unwinds {id key model : String} {t : Trace} {debit : Debit}
    (hdebit : debit ∈ t.debits) (hunwinds : debit.unwinds = true) (hevents : t.events = []) :
    Closes id key model t where
  steady h := by
    rw [h debit hdebit] at hunwinds
    cases hunwinds
  unwound _ _ _ e he := by
    rw [hevents] at he
    cases he

/-- Every event of the answer carries the request's id. -/
theorem Closes.carried_eq {id key model : String} {t : Trace} (h : Closes id key model t) :
    carried id t.events = t.events := by
  refine carried_eq_self id fun e he => ?_
  by_cases hd : ∃ d ∈ t.debits, d.unwinds = true
  · obtain ⟨d, hmem, hu⟩ := hd
    obtain ⟨u, rfl⟩ := h.unwound d hmem hu e he
    rfl
  · have hd : ∀ d ∈ t.debits, d.unwinds = false := fun d hmem =>
      Bool.eq_false_of_not_eq_true fun hu => hd ⟨d, hmem, hu⟩
    obtain ⟨last, hevents, hlast⟩ := h.steady hd
    rw [hevents] at he
    rcases List.mem_append.mp he with he | he
    · obtain ⟨u, _, rfl⟩ := List.mem_map.mp he
      rfl
    · rw [List.mem_singleton.mp he]
      unfold Terminal at hlast
      split at hlast <;> obtain ⟨_, rfl⟩ := hlast <;> rfl

section

variable {α : Type} (reports : Reports α) (pricing : Pricing) (meanwhile : ℕ → World → World)
  (debitClock : ℕ → Instant) (d : Dispatched (List (Except ModelError α)))

/-- The trace of a drained stream. -/
def Drained.trace (s : Drained α) : Trace :=
  ⟨s.events, s.debits, s.toYielded.failed, s.toYielded.seen reports⟩

/-- An element without a usage report changes nothing. -/
theorem Drained.trace_after {s : Drained α} {chunk : α} (h : (reports.report chunk).1 = none) :
    (s.after chunk [] []).trace reports = s.trace reports := by
  simp only [Drained.trace, Drained.after, Yielded.failed, Yielded.seen, List.nil_append,
    List.any_cons, Bool.false_or, List.filterMap_cons, h]

/-- A usage report is seen, and debited. -/
theorem Closes.after {s : Drained α} {u : Usage} {debit : Debit} (hdebit : debit.unwinds = false)
    (h : Closes d.requestId d.key d.logicalModel (s.trace reports)) :
    Closes d.requestId d.key d.logicalModel
      ((s.after (reports.ofUsage u) [.usage d.requestId d.key d.logicalModel u] [debit]).trace
        reports) := by
  have hseen : (s.after (reports.ofUsage u) [.usage d.requestId d.key d.logicalModel u]
      [debit]).toYielded.seen reports = u :: s.toYielded.seen reports := by
    simp only [Drained.after, Yielded.seen, List.filterMap_cons, reports.report_ofUsage]
  constructor
  · intro hall
    obtain ⟨last, hevents, hlast⟩ := h.steady fun d hd => hall d (List.mem_cons_of_mem _ hd)
    refine ⟨last, ?_, by simpa [Drained.trace, Drained.after, Yielded.failed] using hlast⟩
    simp only [Drained.trace] at hevents
    simp only [Drained.trace, hseen, List.map_cons, List.cons_append, ← hevents]
    rfl
  · intro d' hd' hu e he
    rcases List.mem_cons.mp hd' with rfl | hd'
    · rw [hdebit] at hu
      cases hu
    · rcases List.mem_cons.mp he with rfl | he
      · exact ⟨u, rfl⟩
      · exact h.unwound d' hd' hu e he

/-- **An instrumented stream closes its request**, whatever the provider streams. -/
theorem drain_closes (finish : Option FinishReason) (items : List (Except ModelError α)) (p : Pos) :
    Closes d.requestId d.key d.logicalModel
      ((drain reports pricing meanwhile debitClock d finish items p).trace reports) := by
  induction items generalizing finish p with
  | nil => exact ⟨fun _ => ⟨_, rfl, finish, rfl⟩, fun _ h => absurd h List.not_mem_nil⟩
  | cons item items ih =>
    cases item with
    | error e => exact ⟨fun _ => ⟨_, rfl, e.text, rfl⟩, fun _ h => absurd h List.not_mem_nil⟩
    | ok chunk =>
      rw [drain]
      split
      · rename_i u _ hu
        dsimp only
        split
        · rename_i store hmade
          exact .of_unwinds List.mem_cons_self (by rw [Debit.unwinds, hmade]; rfl) rfl
        · rename_i reply store hnot hmade
          refine Closes.after reports d ?_ (ih _ _)
          rw [Debit.unwinds, hmade]
          exact decide_eq_false hnot
      · rename_i reason hr
        rw [Drained.trace_after reports (by rw [hr])]
        exact ih _ _
      · rename_i hr
        rw [Drained.trace_after reports (by rw [hr])]
        exact ih _ _

theorem instrumentWith_closes (p : Pos) :
    Closes d.requestId d.key d.logicalModel
      ((instrumentWith reports pricing meanwhile debitClock d p).streamTrace reports) :=
  drain_closes reports pricing meanwhile debitClock d none d.value p

end

/-- **The tail of a response closes its request.** -/
theorem finishBatch_closes {τ : Type} [Reporting τ] (rule : String → Usage → Usage)
    (meanwhile : ℕ → World → World) (debitClock : ℕ → Instant) (d : Dispatched τ) (p : Pos) :
    Closes d.requestId d.key d.logicalModel (finishBatch rule meanwhile debitClock d p).batchTrace := by
  unfold finishBatch
  dsimp only
  split
  · rename_i store hmade
    exact .of_unwinds List.mem_cons_self (by rw [Debit.unwinds, hmade]; rfl) rfl
  · rename_i reply store hnot hmade
    refine ⟨fun _ => ⟨_, ?_, none, rfl⟩, fun d' hd' hu => ?_⟩
    · simp only [Ended.batchTrace, Ended.trace, Reporting.usage_withUsage]
      rfl
    · rw [List.mem_singleton.mp hd', Debit.unwinds, hmade] at hu
      exact absurd (of_decide_eq_true hu) hnot

/-! ## Without an end -/

theorem not_terminal_routed (id : String) (failed : Bool) (provider upstream : String) :
    ¬ Terminal id failed (.requestRouted id provider upstream) := by
  unfold Terminal
  split <;> rintro ⟨_, h⟩ <;> cases h

theorem not_terminal_usage (id : String) (failed : Bool) (key model : String) (u : Usage) :
    ¬ Terminal id failed (.usage id key model u) := by
  unfold Terminal
  split <;> rintro ⟨_, h⟩ <;> cases h

/-- An opening that is followed by no terminal event is no bracket. -/
theorem not_bracketed {id : String} {t : Trace} {opening : Event} {rest : List Event}
    (h : carried id t.events = opening :: rest)
    (hrest : ∀ e ∈ rest, ∀ failed, ¬ Terminal id failed e) : ¬ Bracketed id t := by
  rintro ⟨key, model, payload, routed, last, hevents, -, hlast⟩
  rw [h] at hevents
  have hmem : last ∈ rest := by
    rw [(List.cons.inj hevents).2]
    simp
  exact hrest last hmem _ hlast

/-- A request that is answered is bracketed exactly if no debit of its answer unwinds. -/
theorem Closes.bracketed_iff {id key model provider upstreamModel : String} {payload : Option Value}
    {t u : Trace} (h : Closes id key model u)
    (ht : t = { u with events := t.events })
    (hevents : carried id t.events = .requestStarted id key model payload ::
      .requestRouted id provider upstreamModel :: u.events) :
    Bracketed id t ↔ ∀ d ∈ t.debits, d.unwinds = false := by
  have hdebits : t.debits = u.debits := by rw [ht]
  have hseen : t.seen = u.seen := by rw [ht]
  have hfailed : t.failed = u.failed := by rw [ht]
  constructor
  · intro hb debit hdebit
    refine Bool.eq_false_of_not_eq_true fun hu => not_bracketed hevents (fun e he failed => ?_) hb
    rcases List.mem_cons.mp he with rfl | he
    · exact not_terminal_routed _ _ _ _
    · obtain ⟨_, rfl⟩ := h.unwound debit (hdebits ▸ hdebit) hu e he
      exact not_terminal_usage _ _ _ _ _
  · intro hsteady
    obtain ⟨last, hlast, hterminal⟩ := h.steady (hdebits ▸ hsteady)
    rw [hlast, ← hseen] at hevents
    exact ⟨_, _, _, [_], last, hevents, .inr ⟨_, _, rfl⟩, hfailed ▸ hterminal⟩

/-! ## The whole of an entry point -/

theorem Dispatch.Site.unwinds_eq {τ : Type} (r : Dispatch.Request) (env : Dispatch.Env τ)
    (s : Dispatch.Site) : s.unwinds r env = (s.meets r env).any Admission.unwinds := by
  unfold unwinds meets
  cases s.asked r env <;> rfl

namespace Entry

variable (c : Entry)

/-- The dispatch unwinds exactly if an admission does. -/
theorem panicked_iff_admission {τ : Type} (model : String) (env : Dispatch.Env τ)
    (payload : Option Value) :
    (Dispatch.dispatch (c.dispatching model) env c.rateMaxWait payload c.world).outcome = .panicked ↔
      ∃ a ∈ c.admissions model env payload, a.unwinds = true := by
  rw [Dispatch.panicked_iff]
  simp only [admissions, List.mem_filterMap, Dispatch.Site.unwinds_eq, Option.any_eq_true]
  constructor
  · rintro ⟨s, hs, a, ha, hu⟩
    exact ⟨a, ⟨s, hs, ha⟩, hu⟩
  · rintro ⟨a, ⟨s, hs, ha⟩, hu⟩
    exact ⟨s, hs, a, ha, hu⟩

/-- A trace whose events follow others. -/
theorem trace_with_events {β : Type} (t : Ended β) (es : List Event) (failed : β → Bool)
    (seen : β → List Usage) : ({ t with events := es } : Ended β).trace failed seen =
      { t.trace failed seen with events := es } := by
  unfold Ended.trace
  cases t.answer <;> rfl

@[simp] theorem trace_events {β : Type} (t : Ended β) (failed : β → Bool) (seen : β → List Usage) :
    (t.trace failed seen).events = t.events := by
  unfold Ended.trace
  cases t.answer <;> rfl

/-- **A request that routes is bracketed exactly if no access to the limiter unwinds**, whatever
follows its answer, if only that closes the request. -/
theorem through_bracketed_iff {τ β : Type} {model : String} {env : Dispatch.Env τ}
    {payload : Option Value} {tail : Dispatched τ → Pos → Ended β} {failed : β → Bool}
    {seen : β → List Usage} (hroutes : Dispatch.Routes (c.dispatching model))
    (htail : ∀ d p, Closes d.requestId d.key d.logicalModel ((tail d p).trace failed seen)) :
    let t := (c.through model env payload tail).trace failed seen
    Bracketed c.requestId t ↔ (∀ a ∈ c.admissions model env payload, a.unwinds = false) ∧
      ∀ d ∈ t.debits, d.unwinds = false := by
  intro t
  have hcarried := Dispatch.carried_dispatch (c.dispatching model) env hroutes c.rateMaxWait payload
    c.world
  have hpanic := c.panicked_iff_admission model env payload
  have ht : t = (c.through model env payload tail).trace failed seen := rfl
  clear_value t
  unfold through at ht
  generalize hf : Dispatch.dispatch (c.dispatching model) env c.rateMaxWait payload c.world = f
    at hcarried hpanic ht
  dsimp only at hcarried ht
  have hadmitted : f.outcome ≠ .panicked → ∀ a ∈ c.admissions model env payload, a.unwinds = false :=
    fun hne a ha => Bool.eq_false_of_not_eq_true fun hu => hne (hpanic.mpr ⟨a, ha, hu⟩)
  cases hout : f.outcome with
  | error e =>
    have herror := Dispatch.dispatch_error (c.dispatching model) env hroutes (hf ▸ hout)
    obtain ⟨error, hlast⟩ := herror
    rw [hout] at hcarried ht
    rw [hlast] at hcarried
    subst ht
    refine iff_of_true ?_ ⟨hadmitted fun hp => (by rw [hout] at hp; cases hp),
      fun _ h => absurd h List.not_mem_nil⟩
    exact ⟨_, _, _, [], _, hcarried, .inl ⟨rfl, rfl⟩, error, rfl⟩
  | panicked =>
    obtain ⟨a, ha, hu⟩ := hpanic.mp hout
    rw [hout] at hcarried ht
    subst ht
    refine iff_of_false (not_bracketed hcarried ?_) fun h => ?_
    · exact fun e he => absurd he List.not_mem_nil
    · rw [h.1 a ha] at hu
      cases hu
  | ok d =>
    have hserves := Dispatch.dispatch_serves (c.dispatching model) env (hf ▸ hout)
    have hclose := htail d f.acc.pos
    rw [hserves.requestId, hserves.key, hserves.logicalModel] at hclose
    have htailEvents := hclose.carried_eq
    rw [hout] at hcarried ht
    dsimp only at ht
    rw [trace_with_events] at ht
    generalize htrace : (tail d f.acc.pos).trace failed seen = u at hclose htailEvents ht
    rw [← trace_events _ failed seen, htrace] at ht
    have hevents : carried c.requestId t.events = .requestStarted c.requestId c.key model payload ::
        .requestRouted c.requestId d.provider d.upstreamModel :: u.events := by
      rw [ht]
      exact (carried_append ..).trans (congrArg₂ _ hcarried htailEvents)
    refine (hclose.bracketed_iff (by rw [ht]) hevents).trans ⟨fun h => ⟨hadmitted fun hp => ?_, h⟩,
      And.right⟩
    rw [hout] at hp
    cases hp

/-- The same for a request that is screened. -/
theorem screened_bracketed_iff {ρ τ β : Type} [Addressed ρ] {codec : Codec ρ} {ports : Ports ρ τ}
    {req : ρ} {tail : Dispatched τ → Pos → Ended β} {failed : β → Bool}
    {seen : β → List Usage} (hopens : c.Opens codec req)
    (htail : ∀ d p, Closes d.requestId d.key d.logicalModel ((tail d p).trace failed seen)) :
    let t := (c.screened codec ports req tail).trace failed seen
    Bracketed c.requestId t ↔ (∀ a ∈ c.screenedAdmissions codec ports req, a.unwinds = false) ∧
      ∀ d ∈ t.debits, d.unwinds = false := by
  obtain ⟨⟨req', hreq⟩, hroutes⟩ := hopens
  simp only [screened, screenedAdmissions, hreq]
  exact c.through_bracketed_iff hroutes htail

end Entry

/-- **A request that routes is well bracketed exactly if no access of it to the limiter unwinds.** -/
theorem Consumer.bracketed_iff_steady (c : Entry) (x : Consumer) (h : x.Opens c) :
    Bracketed c.requestId (x.trace c) ↔ x.Steady c := by
  cases x with
  | run | speech =>
    exact c.screened_bracketed_iff h (instrumentWith_closes _ _ _ _)
  | embed | rerank | decisions | transcribe =>
    exact c.screened_bracketed_iff h (finishBatch_closes _ _ _)
  | voices env model =>
    refine c.through_bracketed_iff h fun d p => ?_
    exact ⟨fun _ => ⟨_, rfl, none, rfl⟩, fun _ h => absurd h List.not_mem_nil⟩

/-! ## A report that no wait makes up for -/

/-- A provider of one token a minute, as the only target of its model. -/
def meteredNode : Engine :=
  .new ⟨[{ ProviderConfig.plain "p" "openai" none with limits := some ⟨none, some 1, none⟩ }],
    [⟨"m", [⟨"p", none⟩]⟩]⟩
    (HashMap.collect [("p", ⟨"openai", 0⟩)]) fun _ _ => (0, 0)

/-- A call on this node, with the limiter's entries as they are. -/
def meteredEntry (store : Store) : Entry where
  interceptor := none
  includePayloads := false
  rateMaxWait := 0
  cooldownSecs := 30
  pricing := ⟨∅⟩
  topo := meteredNode.topology
  world := ⟨.new, store⟩
  key := "k"
  requestId := "r"
  now := 0

/-- An embedding that takes `tokens` tokens. -/
def embedding (tokens : ℕ) : Consumer :=
  .embed ⟨fun _ => none, fun _ => .error "no request"⟩
    { clock := fun _ => 0
      secret := fun _ => none
      call := fun _ _ _ req => .ok ⟨req.model, [], { Usage.zero with totalTokens := tokens }⟩
      meanwhile := fun _ w => w
      debitClock := fun _ => 0 }
    ⟨"m", ["text"], none, none, []⟩

theorem embedding_opens (tokens : ℕ) (store : Store) :
    (embedding tokens).Opens (meteredEntry store) :=
  ⟨⟨_, rfl⟩, _, _, rfl⟩

theorem Consumer.bracketed_iff_steady_fresh :
    Bracketed "r" ((embedding 3).trace (meteredEntry meteredNode.store)) :=
  (bracketed_iff_steady (meteredEntry meteredNode.store) (embedding 3) (embedding_opens _ _)).mpr
    ⟨by decide +kernel, by decide +kernel⟩

/-- After a report of `4 * 10 ^ 17` tokens the next request opens, and unwinds at its admission. -/
theorem huge_report_unwinds_next :
    let store := (Debit.made
      ⟨meteredNode.topology.rate, meteredNode.store, "p", "m", 4 * 10 ^ 17, 0⟩).2
    (embedding 3).Opens (meteredEntry store) ∧
      ¬ Bracketed "r" ((embedding 3).trace (meteredEntry store)) := by
  intro store
  have halone : carried "r" ((embedding 3).trace (meteredEntry store)).events =
      [.requestStarted "r" "k" "m" none] := by
    decide +kernel
  exact ⟨embedding_opens _ _, not_bracketed halone fun e he => absurd he List.not_mem_nil⟩

end Llmleaf
