import Llmleaf.Dispatch.Sites
import Llmleaf.Lib.Runs

/-!
# The wait budget of a dispatch

The loop of a dispatch sleeps between its walks, each time for the soonest wait of its limiters or
for what is left of the budget.

- `turn`: one turn of the loop; `loop_eq` says that the loop takes turns until one ends.
- `Waiting.Kept`: what every turn keeps of the budget; `kept_of_run` is the run lemma.
- `budgeted_iff`: the loop ends, within its budget and without an underflow; it gives up before the
  budget is spent exactly if a walk with budget left skips every target and one of them for no time.
-/

namespace Llmleaf.Dispatch

open Runs

variable {τ : Type}

/-! ## Turns -/

/-- The loop between two walks: what is left of the budget, and how long it has slept. -/
structure Waiting (τ : Type) where
  budget : Duration
  naps : List Duration
  acc : Acc τ

/-- What a turn of the loop comes to. -/
inductive Turn (τ : Type) where
  | ends (f : Finished τ)
  | sleeps (nap : Duration) (w : Waiting τ)
  /-- The nap was subtracted from a smaller budget. -/
  | underflow

/-- The seconds after which a request that ran out of budget may come back. -/
def Turn.retryAfter : Turn τ → Option ℕ
  | .ends f =>
    match f.outcome with
    | .error (.rateLimited secs) => some secs
    | _ => none
  | _ => none

section

variable (r : Request) (env : Env τ) (targets : List Target)

/-- One turn of the loop: a walk, and a nap if nothing was decided. -/
def turn (w : Waiting τ) : Turn τ :=
  let walkNow := env.clock w.naps.length
  let start := w.acc.restart
  match walk r env walkNow targets start with
  | .served a target value guard =>
    .ends
      { outcome := .ok
          { value := value
            requestId := r.requestId
            key := r.key
            logicalModel := r.logicalModel
            provider := target.provider
            upstreamModel := upstream r target
            rate := r.topo.rate
            guard := guard }
        acc := a
        lastWalk := (walkNow, start) }
  | .panicked a => .ends { outcome := .panicked, acc := a, lastWalk := (walkNow, start) }
  | .next a =>
    match a.lastErr, a.soonestWait with
    | none, some wait =>
      let nap := min wait w.budget
      if nap = 0 then
        let retryAfterSecs := max (wait / nanos) 1
        .ends
          { outcome := .error (.rateLimited retryAfterSecs)
            acc := { a with events := a.events ++ [.requestFailed r.requestId
              ("rate limited; retry after " ++ toString retryAfterSecs ++ "s")] }
            lastWalk := (walkNow, start) }
      else if w.budget < nap then .underflow
      else
        .sleeps nap
          { budget := w.budget - nap
            naps := w.naps ++ [nap]
            acc := { a with pos := a.pos.elapse env } }
    | lastErr, _ =>
      let err := lastErr.getD (.unavailable "no eligible targets")
      .ends
        { outcome := .error (.allTargetsFailed err)
          acc := { a with events := a.events ++ [.requestFailed r.requestId err.text] }
          lastWalk := (walkNow, start) }

/-- The turns of a loop, each with its nap. -/
def turns : Sys (Waiting τ) Duration where
  init _ := True
  step w nap w' := turn r env targets w = .sleeps nap w'

/-- **The loop takes turns until one ends.** -/
theorem loop_eq (w : Waiting τ) :
    match turn r env targets w with
    | .ends f => loop r env targets w.budget w.naps.length w.acc = f
    | .sleeps _ w' => loop r env targets w.budget w.naps.length w.acc =
        loop r env targets w'.budget w'.naps.length w'.acc
    | .underflow => False := by
  rw [turn, loop]
  dsimp only
  rcases walk r env (env.clock w.naps.length) targets w.acc.restart with ⟨a⟩ | ⟨a, _, _, _⟩ | ⟨a⟩
  · dsimp only
    cases a.lastErr with
    | some e => rfl
    | none =>
      cases a.soonestWait with
      | none => rfl
      | some wait =>
        dsimp only
        by_cases hnap : min wait w.budget = 0
        · rw [if_pos hnap, dif_pos hnap]
        · have hle : ¬ w.budget < min wait w.budget := not_lt.mpr (min_le_right _ _)
          rw [if_neg hnap, dif_neg hnap, if_neg hle]
          dsimp only
          rw [List.length_append, List.length_singleton]
  · rfl
  · rfl

/-! ## Walks that decide nothing -/

/-- The limiter's refusal at a site, if it is asked and refuses. -/
def Site.refusal (s : Site) : Option Duration :=
  (s.asked r env).bind fun a =>
    match (s.admission r a.2).1 with
    | .wait d => some d
    | _ => none

/-- **A visit is thrown back exactly where the limiter refuses.** -/
theorem Site.visit_limited_iff (s : Site) (d : Duration) :
    (s.visit r env).1 = .limited d ↔ s.refusal r env = some d := by
  unfold Site.visit Dispatch.visit Site.refusal Site.asked Site.admission
  dsimp only
  split
  · simp
  · split
    · rename_i h
      simp [h]
    · rename_i provider h
      rw [h]
      simp only [Option.map_some, Option.bind_some]
      split
      · rename_i hr
        simp [hr]
      · rename_i hr
        simp [hr]
      · rename_i guard store hr
        simp only [hr, reduceCtorEq, iff_false]
        unfold call
        dsimp only
        split <;> simp

/-- The target of a site is passed over: it cools down, or its limiter throws it back. -/
def Site.passedOver (s : Site) : Bool := (s.visit r env).1.isSkip

/-- What a pass that goes on to the next one says of its sites: an error is left exactly if a target
was not passed over, and the soonest wait is zero exactly if a refusal was. -/
theorem pass_next (honorCooldown : Bool) (walkNow : Instant) (targets : List Target) (a : Acc τ) :
    let sites := passSites r env honorCooldown walkNow targets a
    (a.lastErr = none → (∀ s ∈ sites, s.passedOver r env) →
      ∃ a', pass r env honorCooldown walkNow targets a = .next a') ∧
    ∀ a', pass r env honorCooldown walkNow targets a = .next a' →
      (a'.lastErr = none ↔ a.lastErr = none ∧ ∀ s ∈ sites, s.passedOver r env) ∧
      (a'.soonestWait = some 0 ↔
        a.soonestWait = some 0 ∨ ∃ s ∈ sites, s.refusal r env = some 0) := by
  induction targets generalizing a with
  | nil => simp [pass, passSites]
  | cons target targets ih =>
    rcases hs : Site.visit r env ⟨honorCooldown, walkNow, target, a.pos⟩ with ⟨v, p⟩
    have hv : visit r env honorCooldown walkNow target a.pos = (v, p) := hs
    have hskip : Site.passedOver r env ⟨honorCooldown, walkNow, target, a.pos⟩ = v.isSkip := by
      rw [Site.passedOver, hs]
    have hrefusal := Site.visit_limited_iff r env ⟨honorCooldown, walkNow, target, a.pos⟩ 0
    rw [hs] at hrefusal
    rw [pass, passSites, hv, hs]
    simp only [List.forall_mem_cons, List.exists_mem_cons_iff, hskip, ← hrefusal]
    cases v with
    | served => simp [Visit.isSkip]
    | panicked => simp [Visit.isSkip]
    | cooled b =>
      have := ih (a.record r honorCooldown target (.cooled b) p)
      simpa [Visit.isSkip, Visit.isLast, Acc.record] using this
    | unregistered =>
      have := ih (a.record r honorCooldown target .unregistered p)
      simpa [Visit.isSkip, Visit.isLast, Acc.record] using this
    | limited d =>
      have := ih (a.record r honorCooldown target (.limited d) p)
      have hsoonest : some ((a.soonestWait.map (min · d)).getD d) = some 0 ↔
          a.soonestWait = some 0 ∨ d = 0 := by
        cases a.soonestWait with
        | none => simp
        | some w => simp
      simpa [Visit.isSkip, Visit.isLast, Acc.record, hsoonest, or_assoc] using this
    | unsupported e =>
      have := ih (a.record r honorCooldown target (.unsupported e) p)
      simpa [Visit.isSkip, Visit.isLast, Acc.record] using this
    | failed e =>
      have := ih (a.record r honorCooldown target (.failed e) p)
      simpa [Visit.isSkip, Visit.isLast, Acc.record] using this

/-- The walk of a turn passes every target over, and the limiter throws one back for no time. -/
def ThrownBackAtOnce (w : Waiting τ) : Prop :=
  let sites := walkSites r env (env.clock w.naps.length) targets w.acc.restart
  (∀ s ∈ sites, s.passedOver r env) ∧ ∃ s ∈ sites, s.refusal r env = some 0

theorem walk_soonest (walkNow : Instant) (a : Acc τ) (herr : a.lastErr = none)
    (hsoonest : a.soonestWait = none) :
    (∃ a', walk r env walkNow targets a = .next a' ∧ a'.lastErr = none ∧
        a'.soonestWait = some 0) ↔
      (∀ s ∈ walkSites r env walkNow targets a, s.passedOver r env) ∧
        ∃ s ∈ walkSites r env walkNow targets a, s.refusal r env = some 0 := by
  obtain ⟨hgo, hnext⟩ := pass_next r env true walkNow targets a
  rw [walk, walkSites]
  rcases hfirst : pass r env true walkNow targets a with ⟨a₁⟩ | ⟨a₁, t, v, g⟩ | ⟨a₁⟩
  · obtain ⟨herr₁, hsoonest₁⟩ := hnext a₁ hfirst
    simp only [herr, true_and, hsoonest, reduceCtorEq, false_or] at herr₁ hsoonest₁
    dsimp only
    cases hlast : a₁.lastErr with
    | some e =>
      have hnot : ¬ ∀ s ∈ passSites r env true walkNow targets a, s.passedOver r env := by
        rw [← herr₁, hlast]
        exact Option.some_ne_none e
      simp only [Option.isSome_some, if_true, List.append_nil, hnot, false_and, iff_false]
      rintro ⟨a', ha', hnone, -⟩
      cases ha'
      rw [hlast] at hnone
      cases hnone
    | none =>
      obtain ⟨hgo', hnext'⟩ := pass_next r env false walkNow targets a₁
      have hall := herr₁.mp hlast
      rw [Option.isSome_none, if_neg Bool.false_ne_true, List.forall_mem_append,
        and_iff_right hall]
      simp only [List.mem_append, or_and_right, exists_or, ← hsoonest₁]
      constructor
      · rintro ⟨a', ha', hnone, hzero⟩
        obtain ⟨herr', hsoonest'⟩ := hnext' a' ha'
        exact ⟨(herr'.mp hnone).2, hsoonest'.mp hzero⟩
      · rintro ⟨hall', hzero⟩
        obtain ⟨a', ha'⟩ := hgo' hlast hall'
        obtain ⟨herr', hsoonest'⟩ := hnext' a' ha'
        exact ⟨a', ha', herr'.mpr ⟨hlast, hall'⟩, hsoonest'.mpr hzero⟩
  · refine iff_of_false (by simp) ?_
    rintro ⟨hall, -⟩
    rw [List.append_nil] at hall
    obtain ⟨a', ha'⟩ := hgo herr hall
    rw [hfirst] at ha'
    cases ha'
  · refine iff_of_false (by simp) ?_
    rintro ⟨hall, -⟩
    rw [List.append_nil] at hall
    obtain ⟨a', ha'⟩ := hgo herr hall
    rw [hfirst] at ha'
    cases ha'

/-- **A turn with budget left gives up exactly if its walk is thrown back at once.** -/
theorem retryAfter_iff {w : Waiting τ} (hleft : w.budget ≠ 0) :
    ((turn r env targets w).retryAfter).isSome ↔ ThrownBackAtOnce r env targets w := by
  have hwalk := walk_soonest r env targets (env.clock w.naps.length) w.acc.restart rfl rfl
  rw [ThrownBackAtOnce, ← hwalk, turn]
  dsimp only
  rcases walk r env (env.clock w.naps.length) targets w.acc.restart with ⟨a⟩ | ⟨a, _, _, _⟩ | ⟨a⟩
  · dsimp only
    cases herr : a.lastErr with
    | some e => simp [Turn.retryAfter, herr]
    | none =>
      cases hsoonest : a.soonestWait with
      | none => simp [Turn.retryAfter, hsoonest]
      | some wait =>
        dsimp only
        have hnap : min wait w.budget = 0 ↔ wait = 0 :=
          Nat.min_eq_zero_iff.trans (or_iff_left hleft)
        split
        · rename_i h
          simp [Turn.retryAfter, herr, hsoonest, hnap.mp h]
        · rename_i h
          have hwait : wait ≠ 0 := fun h' => h (hnap.mpr h')
          split <;> simp [Turn.retryAfter, hsoonest, hwait]
  · simp [Turn.retryAfter]
  · simp [Turn.retryAfter]

/-! ## Runs -/

/-- What the turns keep: the naps and what is left are the whole budget, and no nap is empty. -/
structure Waiting.Kept (rateMaxWait : Duration) (w : Waiting τ) : Prop where
  whole : w.naps.sum + w.budget = rateMaxWait
  naps : ∀ nap ∈ w.naps, 0 < nap

/-- A nap is not empty and within what is left. -/
theorem sleeps_spec {w w' : Waiting τ} {nap : Duration}
    (h : turn r env targets w = .sleeps nap w') :
    0 < nap ∧ nap ≤ w.budget ∧ w'.budget = w.budget - nap ∧ w'.naps = w.naps ++ [nap] := by
  rw [turn] at h
  dsimp only at h
  split at h
  · cases h
  · cases h
  · split at h
    · split at h
      · cases h
      · rename_i hnap
        split at h
        · cases h
        · cases h
          exact ⟨Nat.pos_of_ne_zero hnap, min_le_right _ _, rfl, rfl⟩
    · cases h

theorem Waiting.Kept.step {rateMaxWait : Duration} {w w' : Waiting τ} {nap : Duration}
    (hw : w.Kept rateMaxWait) (h : turn r env targets w = .sleeps nap w') :
    w'.Kept rateMaxWait := by
  obtain ⟨hpos, hle, hbudget, hnaps⟩ := sleeps_spec r env targets h
  have hwhole := hw.whole
  refine ⟨?_, ?_⟩
  · rw [hnaps, hbudget, List.sum_append, List.sum_singleton, Nat.add_assoc,
      Nat.add_sub_cancel' hle, hwhole]
  · rw [hnaps]
    intro n hn
    rcases List.mem_append.mp hn with hn | hn
    · exact hw.naps n hn
    · rw [List.mem_singleton.mp hn]
      exact hpos

/-- The loop before its first walk. -/
def Waiting.start (rateMaxWait : Duration) (payload : Option Value) (world : World) : Waiting τ :=
  ⟨rateMaxWait, [], .begin r payload world⟩

variable {rateMaxWait : Duration} {payload : Option Value} {world : World} {w : Waiting τ}
  {tr : List (Step (Waiting τ) Duration)}

theorem kept_of_run (h : Run (turns r env targets) (.start r rateMaxWait payload world) tr w) :
    w.Kept rateMaxWait ∧ events tr = w.naps :=
  h.invariant_trace (P := fun tr w => w.Kept rateMaxWait ∧ events tr = w.naps)
    ⟨⟨Nat.zero_add _, fun nap hn => by cases hn⟩, rfl⟩ fun tr w nap w' _ hw hstep => by
      refine ⟨hw.1.step r env targets hstep, ?_⟩
      rw [events_append, events_singleton, hw.2, (sleeps_spec r env targets hstep).2.2.2]

/-- There are as many naps as there are nanoseconds to sleep, at most. -/
theorem length_le_of_run (h : Run (turns r env targets) (.start r rateMaxWait payload world) tr w) :
    tr.length ≤ rateMaxWait := by
  obtain ⟨⟨hwhole, hpos⟩, htr⟩ := kept_of_run r env targets h
  have hlen : w.naps.length ≤ w.naps.sum := List.length_le_sum_of_one_le _ hpos
  calc tr.length = w.naps.length := by rw [← htr, events, List.length_map]
    _ ≤ w.naps.sum + w.budget := hlen.trans (Nat.le_add_right _ _)
    _ = rateMaxWait := hwhole

/-- **From every turn the loop goes on to its end.** -/
theorem ends_of_run (h : Run (turns r env targets) (.start r rateMaxWait payload world) tr w) :
    ∃ tr' w' f, Run (turns r env targets) (.start r rateMaxWait payload world) tr' w' ∧
      turn r env targets w' = .ends f ∧
      loop r env targets w.budget w.naps.length w.acc = f := by
  -- the budget that is left shrinks with every nap
  generalize hb : w.budget = budget
  induction budget using Nat.strong_induction_on generalizing w tr with
  | _ budget ih =>
    have hloop := loop_eq r env targets w
    rw [hb] at hloop
    rcases hturn : turn r env targets w with f | ⟨nap, w'⟩ | _
    · rw [hturn] at hloop
      exact ⟨tr, w, f, h, hturn, hloop⟩
    · obtain ⟨hpos, hle, hbudget, -⟩ := sleeps_spec r env targets hturn
      rw [hturn] at hloop
      have hlt : w'.budget < budget := by
        rw [hbudget, hb]
        exact Nat.sub_lt (hpos.trans_le (hb ▸ hle)) hpos
      obtain ⟨tr', w'', f, hrun, hend, hf⟩ := ih w'.budget hlt (h.snoc hturn) rfl
      exact ⟨tr', w'', f, hrun, hend, hloop.trans hf⟩
    · rw [hturn] at hloop
      exact hloop.elim

/-- **What a dispatch owes its wait budget**: its loop ends, it sleeps no longer than the budget and
never subtracts more than is left, and it gives up only if it slept for all of the budget. -/
structure Budgeted (rateMaxWait : Duration) (payload : Option Value) (world : World) : Prop where
  ends : ∃ tr w f, Run (turns r env targets) (.start r rateMaxWait payload world) tr w ∧
    turn r env targets w = .ends f ∧ dispatch r env rateMaxWait payload world = f
  bounded : ∀ tr w, Run (turns r env targets) (.start r rateMaxWait payload world) tr w →
    (events tr).sum ≤ rateMaxWait ∧ tr.length ≤ rateMaxWait ∧
      turn r env targets w ≠ .underflow
  patient : ∀ tr w, Run (turns r env targets) (.start r rateMaxWait payload world) tr w →
    ((turn r env targets w).retryAfter).isSome → (events tr).sum = rateMaxWait

/-- **A dispatch keeps its wait budget exactly if no walk with budget left is thrown back at once.** -/
theorem budgeted_iff (rateMaxWait : Duration) (payload : Option Value) (world : World) :
    (∀ targets, r.topo.router.resolve r.logicalModel = some targets → targets ≠ [] →
        Budgeted r env targets rateMaxWait payload world) ↔
      ∀ targets, r.topo.router.resolve r.logicalModel = some targets → targets ≠ [] →
        ∀ tr w, Run (turns r env targets) (.start r rateMaxWait payload world) tr w →
          w.budget ≠ 0 → ¬ ThrownBackAtOnce r env targets w := by
  refine forall_congr' fun targets => forall_congr' fun hroute => forall_congr' fun hne => ?_
  have hspent {tr : List (Step (Waiting τ) Duration)} {w : Waiting τ}
      (h : Run (turns r env targets) (.start r rateMaxWait payload world) tr w) :
      (events tr).sum = rateMaxWait ↔ w.budget = 0 := by
    obtain ⟨⟨hwhole, -⟩, htr⟩ := kept_of_run r env targets h
    rw [htr, ← hwhole]
    exact ⟨fun heq => Nat.add_left_cancel (heq.symm.trans (Nat.add_zero _).symm),
      fun hzero => by rw [hzero, Nat.add_zero]⟩
  constructor
  · intro h tr w hrun hleft hback
    exact hleft ((hspent hrun).mp
      (h.patient tr w hrun ((retryAfter_iff r env targets hleft).mpr hback)))
  · intro h
    refine ⟨?_, fun tr w hrun => ⟨?_, length_le_of_run r env targets hrun, fun hunder => ?_⟩,
      fun tr w hrun hgives => ?_⟩
    · obtain ⟨tr, w, f, hrun, hend, hf⟩ := ends_of_run r env targets (Run.nil
        (s := Waiting.start r rateMaxWait payload world))
      refine ⟨tr, w, f, hrun, hend, hf ▸ ?_⟩
      obtain ⟨target, targets', rfl⟩ := List.exists_cons_of_ne_nil hne
      rw [dispatch, hroute]
      rfl
    · obtain ⟨⟨hwhole, -⟩, htr⟩ := kept_of_run r env targets hrun
      rw [htr, ← hwhole]
      exact Nat.le_add_right _ _
    · have hloop := loop_eq r env targets w
      rw [hunder] at hloop
      exact hloop
    · by_contra hnot
      have hleft : w.budget ≠ 0 := fun hzero => hnot ((hspent hrun).mpr hzero)
      exact h tr w hrun hleft ((retryAfter_iff r env targets hleft).mp hgives)

end

/-! ## A budget that is not spent -/

/-- A provider of seven requests a minute. -/
def sevenAMinute : Engine :=
  .new ⟨[{ ProviderConfig.plain "openai" "openai" none with limits := some ⟨some 7, none, none⟩ }],
    [⟨"m", [⟨"openai", none⟩]⟩]⟩ (HashMap.collect [("openai", ⟨"openai", 0⟩)]) fun _ _ => (0, 0)

/-- The eighth request. -/
def eighth : Request where
  topo := sevenAMinute.topology
  logicalModel := "m"
  requestId := "r"
  key := "k"
  now := 0
  cooldownSecs := 30

/-- No other request; the second walk starts right after the first nap. -/
def afterNap : Env Unit where
  clock := fun n => if n = 0 then 0 else 8571428571
  secret := fun _ => none
  op := fun _ _ _ _ => .ok ()
  meanwhile := fun _ w => w

/-- The provider's seven tokens are taken. -/
def drained : World := ⟨HealthTable.new, [⟨⟨some ⟨7, 7 / 60, 0, 0, false⟩, none, none⟩, ∅⟩]⟩

/-- The turn after a nap, if the turn is one. -/
def Turn.next : Turn τ → Option (Waiting τ)
  | .sleeps _ w => some w
  | _ => none

/-- After a nap that was rounded down the request is thrown back for no time, and given up with
more than twenty seconds left. -/
theorem not_budgeted_eighth :
    ¬ ∀ targets, eighth.topo.router.resolve eighth.logicalModel = some targets → targets ≠ [] →
      Budgeted eighth afterNap targets (30 * nanos) none drained := by
  intro h
  have hb := h [⟨"openai", none⟩] rfl (by simp)
  have hgives : ((turn eighth afterNap [⟨"openai", none⟩]
      (.start eighth (30 * nanos) none drained)).next.map fun w =>
        (w.naps, (turn eighth afterNap [⟨"openai", none⟩] w).retryAfter)) =
      some ([8571428571], some 1) := by decide +kernel
  obtain ⟨w, hw, hgives⟩ := Option.map_eq_some_iff.mp hgives
  rw [Prod.mk.injEq] at hgives
  rcases hturn : turn eighth afterNap [⟨"openai", none⟩] (.start eighth (30 * nanos) none drained) with
    f | ⟨nap, w'⟩ | _ <;> rw [hturn] at hw <;> cases hw
  have hrun := Run.nil.snoc (M := turns eighth afterNap [⟨"openai", none⟩]) hturn
  have hspent := hb.patient _ _ hrun (by rw [hgives.2]; rfl)
  rw [(kept_of_run _ _ _ hrun).2, hgives.1] at hspent
  exact absurd hspent (by decide)

end Llmleaf.Dispatch
