import Llmleaf.Dispatch

/-!
# Failing toward availability

A dispatch that reports that all targets failed should have tried them: a cooldown alone must not
keep a target from being called, and neither a capability gap nor an unregistered target may end
the walk before the others are reached. The loop takes any error of the first pass for a decision,
so a gap next to a skipped target ends it early.

- `FailsOpen`: what the report of a dispatch promises.
- `itinerary`: what a pass meets, from the state it begins in.
- `Strands`: a pass that meets a gap, no answer and no failure, and skips a registered target.
- `failsOpen_iff`: a dispatch keeps the promise exactly when no pass of its last walk strands a
  target.
-/

namespace Llmleaf.Dispatch

variable {τ : Type}

/-- The target at `i` was called in a walk with these two passes. -/
def Called (honoring failOpen : List (Visit τ)) (i : ℕ) : Prop :=
  (∃ v, honoring[i]? = some v ∧ v.isCall) ∨ ∃ v, failOpen[i]? = some v ∧ v.isCall

/-- What the passes of a walk owe the targets of a chain when it reports that all of them failed. -/
def Promise (r : Request) (targets : List Target) (honoring failOpen : List (Visit τ)) : Prop :=
  -- no registered target is left uncalled for its cooldown alone, while the limiter would admit it,
  -- unless another one really failed in the pass that honors cooldowns
  (∀ (i : ℕ) t, targets[i]? = some t → registered r t →
    honoring[i]? = some (Visit.cooled true) → failOpen[i]? = none →
    ∃ v ∈ honoring, v.isFailed) ∧
  -- where nothing really failed, every registered target was reached
  ((∀ v ∈ honoring ++ failOpen, ¬ v.isFailed) →
    ∀ (i : ℕ) t, targets[i]? = some t → registered r t → Called honoring failOpen i)

/-- A dispatch that reports that all targets failed kept the promise in its last walk. -/
def FailsOpen (r : Request) (targets : List Target) (f : Finished τ) : Prop :=
  ∀ e, f.outcome = .error (.allTargetsFailed e) →
    Promise r targets f.acc.honoring f.acc.failOpen

section

variable (r : Request) (env : Env τ)

/-- The visits of one pass from the state `p`, up to an answer. -/
def itinerary (honorCooldown : Bool) (walkNow : Instant) :
    List Target → Pos → List (Visit τ) × Pos
  | [], p => ([], p)
  | target :: targets, p =>
    let (v, p) := visit r env honorCooldown walkNow target p
    if v.isLast then ([v], p)
    else
      let (vs, p) := itinerary honorCooldown walkNow targets p
      (v :: vs, p)

/-- A pass that meets a gap, no answer and no failure, and skips a registered target. -/
def Strands (targets : List Target) (vs : List (Visit τ)) : Prop :=
  (∃ v ∈ vs, v.isGap) ∧ (∀ v ∈ vs, ¬ v.isFailed ∧ ¬ v.isLast) ∧
    ∃ (i : ℕ) (t : Target) (v : Visit τ),
      targets[i]? = some t ∧ registered r t ∧ vs[i]? = some v ∧ v.isSkip

/-- Neither pass of a walk that begins in `p` strands a target; the second is only made where the
first skips every target. -/
def StrandsNone (targets : List Target) (walkNow : Instant) (p : Pos) : Prop :=
  let first := itinerary r env true walkNow targets p
  ¬ Strands r targets first.1 ∧
    ((∀ v ∈ first.1, Visit.isSkip v) →
      ¬ Strands r targets (itinerary r env false walkNow targets first.2).1)

/-! ## One visit -/

theorem call_isCall (target : Target) (provider : Instance) (guard : RateGuard) (p : Pos) :
    (call r env target provider guard p).1.isCall := by
  unfold call
  dsimp only
  split <;> rfl

/-- Only a pass that honors cooldowns skips for one, and a registered target is skipped or called,
or the walk ends there. -/
theorem visit_spec (honorCooldown : Bool) (walkNow : Instant) (target : Target) (p : Pos) :
    let v := (visit r env honorCooldown walkNow target p).1
    (honorCooldown = false → ∀ b, v ≠ .cooled b) ∧
      (registered r target → v.isSkip ∨ v.isCall ∨ v.isLast) := by
  unfold visit registered
  dsimp only
  split
  · rename_i h
    exact ⟨fun hh => by simp [hh] at h, fun _ => .inl rfl⟩
  split
  · rename_i hnone
    exact ⟨fun _ b => by simp, fun hreg => by simp [hnone] at hreg⟩
  split
  · exact ⟨fun _ b => by simp, fun _ => .inl rfl⟩
  · exact ⟨fun _ b => by simp, fun _ => .inr (.inr rfl)⟩
  · refine ⟨fun _ b hb => ?_, fun _ => .inr (.inl (call_isCall ..))⟩
    have hcall := congrArg Visit.isCall hb
    rw [call_isCall] at hcall
    cases hcall

/-! ## One pass -/

/-- What the visits of a pass do to the two accumulators. -/
structure Passed (honorCooldown : Bool) (vs : List (Visit τ)) (p : Pos) (a a' : Acc τ) : Prop where
  pos : a'.pos = p
  honoring : a'.honoring = if honorCooldown then a.honoring ++ vs else a.honoring
  failOpen : a'.failOpen = if honorCooldown then a.failOpen else a.failOpen ++ vs
  lastErr : a'.lastErr.isSome ↔ a.lastErr.isSome ∨ ∃ v ∈ vs, v.isGap ∨ v.isFailed
  soonestWait : a'.soonestWait.isSome ↔ a.soonestWait.isSome ∨ ∃ d, Visit.limited d ∈ vs

theorem passed_nil (honorCooldown : Bool) (a : Acc τ) : Passed honorCooldown [] a.pos a a := by
  constructor <;> simp

/-- What one visit does, where it does not end the walk. -/
theorem passed_record (honorCooldown : Bool) (target : Target) {v : Visit τ} (hlast : ¬ v.isLast)
    (p : Pos) (a : Acc τ) : Passed honorCooldown [v] p a (a.record r honorCooldown target v p) := by
  cases v <;> simp [Visit.isLast] at hlast <;> constructor <;>
    simp [Acc.record, Visit.isGap, Visit.isFailed]

theorem Passed.trans {honorCooldown : Bool} {vs ws : List (Visit τ)} {p q : Pos} {a b c : Acc τ}
    (h : Passed honorCooldown vs p a b) (h' : Passed honorCooldown ws q b c) :
    Passed honorCooldown (vs ++ ws) q a c where
  pos := h'.pos
  honoring := by rw [h'.honoring, h.honoring]; split <;> simp
  failOpen := by rw [h'.failOpen, h.failOpen]; split <;> simp
  lastErr := by
    rw [h'.lastErr, h.lastErr, or_assoc]
    simp only [List.mem_append, or_and_right, exists_or]
  soonestWait := by
    rw [h'.soonestWait, h.soonestWait, or_assoc]
    simp only [List.mem_append, exists_or]

/-- **A pass without an answer** goes over the whole chain and remembers its visits; one with an
answer ends the walk. -/
theorem pass_spec (honorCooldown : Bool) (walkNow : Instant) (targets : List Target) (a : Acc τ) :
    let i := itinerary r env honorCooldown walkNow targets a.pos
    ((∀ v ∈ i.1, ¬ v.isLast) → i.1.length = targets.length ∧
      ∃ a', pass r env honorCooldown walkNow targets a = .next a' ∧
        Passed honorCooldown i.1 i.2 a a') ∧
    ((∃ v ∈ i.1, v.isLast) → ∀ a', pass r env honorCooldown walkNow targets a ≠ .next a') := by
  induction targets generalizing a with
  | nil => exact ⟨fun _ => ⟨rfl, a, rfl, passed_nil _ _⟩, fun h => by simp [itinerary] at h⟩
  | cons target targets ih =>
    rcases hv : visit r env honorCooldown walkNow target a.pos with ⟨v, p⟩
    by_cases hlast : v.isLast
    · -- served or unwound: the pass ends here
      simp only [itinerary, pass, hv, hlast, if_true]
      refine ⟨fun h => absurd hlast (h v (List.mem_singleton.mpr rfl)), fun _ a' => ?_⟩
      cases v <;> simp [Visit.isLast] at hlast <;> simp
    · have hrec := passed_record r honorCooldown target hlast p a
      have hpass : pass r env honorCooldown walkNow (target :: targets) a =
          pass r env honorCooldown walkNow targets (a.record r honorCooldown target v p) := by
        simp only [pass, hv]
        cases v <;> first | rfl | exact absurd rfl hlast
      have ih := ih (a.record r honorCooldown target v p)
      rw [hrec.pos] at ih
      simp only [itinerary, hv, hlast, if_false, Bool.false_eq_true]
      refine ⟨fun h => ?_, fun h a' => ?_⟩
      · obtain ⟨hlen, a', ha', hp⟩ := ih.1 fun w hw => h w (List.mem_cons_of_mem _ hw)
        exact ⟨by simp [hlen], a', hpass ▸ ha', hrec.trans hp⟩
      · rw [hpass]
        refine ih.2 ?_ a'
        obtain ⟨w, hw, hwl⟩ := h
        rcases List.mem_cons.mp hw with rfl | hw
        · exact absurd hwl hlast
        · exact ⟨w, hw, hwl⟩

/-- Every entry of the itinerary is a visit of its target. -/
theorem itinerary_visit (honorCooldown : Bool) (walkNow : Instant) (targets : List Target) (p : Pos)
    {i : ℕ} {t : Target} {v : Visit τ} (ht : targets[i]? = some t)
    (hv : (itinerary r env honorCooldown walkNow targets p).1[i]? = some v) :
    ∃ q, v = (visit r env honorCooldown walkNow t q).1 := by
  induction targets generalizing p i with
  | nil => simp at ht
  | cons target targets ih =>
    rcases hw : visit r env honorCooldown walkNow target p with ⟨w, q⟩
    simp only [itinerary, hw] at hv
    split at hv
    · cases i with
      | zero =>
        simp only [List.getElem?_cons_zero, Option.some.injEq] at ht hv
        exact ⟨p, by rw [← ht, hw, hv]⟩
      | succ i => simp at hv
    · cases i with
      | zero =>
        simp only [List.getElem?_cons_zero, Option.some.injEq] at ht hv
        exact ⟨p, by rw [← ht, hw, hv]⟩
      | succ i =>
        simp only [List.getElem?_cons_succ] at ht hv
        exact ih q ht hv

/-! ## One walk -/

theorem Visit.isSkip_or (v : Visit τ) : v.isSkip ∨ v.isGap ∨ v.isFailed ∨ v.isLast := by
  cases v <;> simp [Visit.isSkip, Visit.isGap, Visit.isFailed, Visit.isLast]

/-- A visit of a registered target is either a skip or a call, where the walk goes on. -/
theorem registered_visit {honorCooldown : Bool} {walkNow : Instant} {targets : List Target} {p : Pos}
    (hlast : ∀ v ∈ (itinerary r env honorCooldown walkNow targets p).1, ¬ v.isLast) {i : ℕ}
    {t : Target} {v : Visit τ} (ht : targets[i]? = some t) (hreg : registered r t)
    (hv : (itinerary r env honorCooldown walkNow targets p).1[i]? = some v) :
    v.isSkip ∨ v.isCall := by
  obtain ⟨q, hq⟩ := itinerary_visit r env honorCooldown walkNow targets p ht hv
  have h := (visit_spec r env honorCooldown walkNow t q).2 hreg
  rw [← hq, ← or_assoc] at h
  exact h.resolve_right (hlast v (List.mem_of_getElem? hv))

/-- A full pass visits every target. -/
theorem visited {targets : List Target} {vs : List (Visit τ)} (hlen : vs.length = targets.length)
    {i : ℕ} {t : Target} (ht : targets[i]? = some t) : ∃ v, vs[i]? = some v := by
  have hi := (List.getElem?_eq_some_iff.mp ht).1
  exact ⟨_, List.getElem?_eq_getElem (hlen ▸ hi)⟩

theorem not_skip_of_call {v : Visit τ} (h : v.isCall) : ¬ v.isSkip := by
  cases v <;> simp [Visit.isCall, Visit.isSkip] at h ⊢

/-- Where the first pass decides, its promise is that it strands no target. -/
theorem promise_first {walkNow : Instant} {targets : List Target} {p : Pos} {vs : List (Visit τ)}
    (hvs : (itinerary r env true walkNow targets p).1 = vs) (hlen : vs.length = targets.length)
    (hlast : ∀ v ∈ vs, ¬ v.isLast) (herr : ∃ v ∈ vs, v.isGap ∨ v.isFailed) :
    Promise r targets vs [] ↔ ¬ Strands r targets vs := by
  subst hvs
  constructor
  · rintro ⟨-, hcalled⟩ ⟨-, hnone, i, t, v, ht, hreg, hv, hskip⟩
    -- a skipped target was not called
    rcases hcalled (fun v hv => (hnone v (by simpa using hv)).1) i t ht hreg with
      ⟨w, hw, hcall⟩ | ⟨w, hw, -⟩
    · rw [hv, Option.some.injEq] at hw
      exact not_skip_of_call hcall (hw ▸ hskip)
    · simp at hw
  · intro hstrands
    by_cases hfail : ∃ v ∈ (itinerary r env true walkNow targets p).1, v.isFailed
    · refine ⟨fun _ _ _ _ _ _ => hfail, fun hnone => ?_⟩
      obtain ⟨v, hv, hvf⟩ := hfail
      exact absurd hvf (hnone v (List.mem_append_left _ hv))
    · have hnone : ∀ v ∈ (itinerary r env true walkNow targets p).1, ¬ v.isFailed ∧ ¬ v.isLast :=
        fun v hv => ⟨fun h => hfail ⟨v, hv, h⟩, hlast v hv⟩
      obtain ⟨g, hg, hgap⟩ := herr
      have hgap := hgap.resolve_right (hnone g hg).1
      -- without a failure the gap means that no registered target was skipped
      have hskip : ∀ (i : ℕ) t v, targets[i]? = some t → registered r t →
          (itinerary r env true walkNow targets p).1[i]? = some v → ¬ v.isSkip :=
        fun i t v ht hreg hv hs => hstrands ⟨⟨g, hg, hgap⟩, hnone, i, t, v, ht, hreg, hv, hs⟩
      refine ⟨fun i t ht hreg hcool _ => absurd rfl (hskip i t _ ht hreg hcool),
        fun _ i t ht hreg => ?_⟩
      obtain ⟨v, hv⟩ := visited hlen ht
      exact .inl ⟨v, hv, (registered_visit r env hlast ht hreg hv).resolve_left
        (hskip i t v ht hreg hv)⟩

/-- Where the second pass decides, its promise is that it strands no target. -/
theorem promise_second {walkNow : Instant} {targets : List Target} {p : Pos}
    {first vs : List (Visit τ)} (hfirst : ∀ v ∈ first, v.isSkip)
    (hvs : (itinerary r env false walkNow targets p).1 = vs) (hlen : vs.length = targets.length)
    (hlast : ∀ v ∈ vs, ¬ v.isLast) (herr : ∃ v ∈ vs, v.isGap ∨ v.isFailed) :
    Promise r targets first vs ↔ ¬ Strands r targets vs := by
  subst hvs
  have hfirst_failed : ∀ v ∈ first, ¬ v.isFailed := fun v hv hf => by
    have := hfirst v hv
    cases v <;> simp [Visit.isSkip, Visit.isFailed] at this hf
  constructor
  · rintro ⟨-, hcalled⟩ ⟨-, hnone, i, t, v, ht, hreg, hv, hskip⟩
    have hfailed : ∀ w ∈ first ++ (itinerary r env false walkNow targets p).1, ¬ w.isFailed :=
      fun w hw => (List.mem_append.mp hw).elim (hfirst_failed w) fun h => (hnone w h).1
    rcases hcalled hfailed i t ht hreg with ⟨w, hw, hcall⟩ | ⟨w, hw, hcall⟩
    · exact not_skip_of_call hcall (hfirst w (List.mem_of_getElem? hw))
    · rw [hv, Option.some.injEq] at hw
      exact not_skip_of_call hcall (hw ▸ hskip)
  · intro hstrands
    refine ⟨fun i t ht _ _ hno => ?_, fun hnone i t ht hreg => ?_⟩
    · -- the second pass visits every target
      obtain ⟨v, hv⟩ := visited hlen ht
      rw [hv] at hno
      cases hno
    · obtain ⟨v, hv⟩ := visited hlen ht
      refine .inr ⟨v, hv, (registered_visit r env hlast ht hreg hv).resolve_left fun hs => ?_⟩
      obtain ⟨g, hg, hgap⟩ := herr
      exact hstrands ⟨⟨g, hg, hgap.resolve_right (hnone g (List.mem_append_right _ hg))⟩,
        fun v hv => ⟨hnone v (List.mem_append_right _ hv), hlast v hv⟩, i, t, v, ht, hreg, hv, hs⟩

/-- How the end of a dispatch follows from its last walk. -/
def EndsWith (targets : List Target) (walkNow : Instant) (start : Acc τ) (f : Finished τ) : Prop :=
  match walk r env walkNow targets start with
  | .next a =>
    (a.lastErr = none ∧ a.soonestWait.isSome ∧ ∀ e, f.outcome ≠ .error (.allTargetsFailed e)) ∨
      (¬ (a.lastErr = none ∧ a.soonestWait.isSome) ∧
        (∃ e, f.outcome = .error (.allTargetsFailed e)) ∧
        f.acc.honoring = a.honoring ∧ f.acc.failOpen = a.failOpen)
  | _ => ∀ e, f.outcome ≠ .error (.allTargetsFailed e)

/-- The loop ends with its last walk, whatever was left of the wait budget. -/
theorem loop_endsWith (targets : List Target) (budget : Duration) (walks : ℕ) (a : Acc τ) :
    let f := loop r env targets budget walks a
    f.lastWalk.2.restart = f.lastWalk.2 ∧ EndsWith r env targets f.lastWalk.1 f.lastWalk.2 f := by
  induction budget using Nat.strong_induction_on generalizing walks a with
  | _ budget ih =>
    rw [loop]
    rcases hw : walk r env (env.clock walks) targets a.restart with
      ⟨a'⟩ | ⟨a', target, value, guard⟩ | ⟨a'⟩
    · cases herr : a'.lastErr with
      | some e =>
        simp only [herr]
        refine ⟨rfl, ?_⟩
        simp only [EndsWith, hw]
        exact .inr ⟨by simp [herr], ⟨e, rfl⟩, by simp⟩
      | none =>
        cases hsoon : a'.soonestWait with
        | none =>
          simp only [herr, hsoon]
          refine ⟨rfl, ?_⟩
          simp only [EndsWith, hw]
          exact .inr ⟨by simp [hsoon], ⟨_, rfl⟩, by simp⟩
        | some wait =>
          simp only [herr, hsoon]
          split
          · refine ⟨rfl, ?_⟩
            simp only [EndsWith, hw]
            exact .inl ⟨herr, by simp [hsoon], fun e => by simp⟩
          · -- asleep: the rest of the budget is smaller
            rename_i hnap
            exact ih _ (Nat.sub_lt_self (Nat.pos_of_ne_zero hnap) (Nat.min_le_right _ _)) _ _
    · refine ⟨rfl, ?_⟩
      simp only [EndsWith, hw]
      exact fun e => by simp
    · refine ⟨rfl, ?_⟩
      simp only [EndsWith, hw]
      exact fun e => by simp

/-! ### The cases of a walk -/

theorem not_strands_of_skips {targets : List Target} {vs : List (Visit τ)}
    (h : ∀ v ∈ vs, v.isSkip) : ¬ Strands r targets vs := by
  rintro ⟨⟨v, hv, hgap⟩, -, -⟩
  have := h v hv
  cases v <;> simp [Visit.isSkip, Visit.isGap] at this hgap

theorem not_strands_of_last {targets : List Target} {vs : List (Visit τ)}
    (h : ∃ v ∈ vs, v.isLast) : ¬ Strands r targets vs := by
  rintro ⟨-, hnone, -⟩
  obtain ⟨v, hv, hl⟩ := h
  exact (hnone v hv).2 hl

/-- A pass without an answer, a gap or a failure skips every target. -/
theorem skips_of_undecided {vs : List (Visit τ)} (hlast : ∀ v ∈ vs, ¬ v.isLast)
    (herr : ¬ ∃ v ∈ vs, v.isGap ∨ v.isFailed) : ∀ v ∈ vs, v.isSkip := by
  intro v hv
  rcases v.isSkip_or with hs | hg | hf | hl
  · exact hs
  · exact absurd ⟨v, hv, .inl hg⟩ herr
  · exact absurd ⟨v, hv, .inr hf⟩ herr
  · exact absurd hl (hlast v hv)

/-- A pass that skips every target decided nothing. -/
theorem undecided_of_skips {vs : List (Visit τ)} (h : ∀ v ∈ vs, v.isSkip) :
    ¬ ∃ v ∈ vs, v.isGap ∨ v.isFailed ∨ v.isLast := by
  rintro ⟨v, hv, hd⟩
  have := h v hv
  cases v <;> simp [Visit.isSkip, Visit.isGap, Visit.isFailed, Visit.isLast] at this hd

variable {targets : List Target} {walkNow : Instant} {start : Acc τ} {f : Finished τ}

/-- A dispatch that does not report that all targets failed owes nothing. -/
theorem failsOpen_of_no_report (h : ∀ e, f.outcome ≠ .error (.allTargetsFailed e)) :
    FailsOpen r targets f :=
  fun e he => absurd he (h e)

/-- A walk that ends in an answer reports no failure. -/
theorem EndsWith.no_report (h : EndsWith r env targets walkNow start f)
    (hw : ∀ a, walk r env walkNow targets start ≠ .next a) :
    ∀ e, f.outcome ≠ .error (.allTargetsFailed e) := by
  unfold EndsWith at h
  split at h
  · rename_i a ha
    exact absurd ha (hw a)
  · exact h

/-- A walk that left an error reports it. -/
theorem EndsWith.report (h : EndsWith r env targets walkNow start f) {a : Acc τ}
    (hw : walk r env walkNow targets start = .next a) (herr : a.lastErr.isSome) :
    FailsOpen r targets f ↔ Promise r targets a.honoring a.failOpen := by
  simp only [EndsWith, hw] at h
  rcases h with ⟨hnone, -⟩ | ⟨-, ⟨e, he⟩, hh, ho⟩
  · rw [hnone] at herr
    cases herr
  · rw [FailsOpen, hh, ho]
    exact ⟨fun hf => hf e he, fun hp _ _ => hp⟩

/-- The second pass, where the first skipped every target. -/
theorem failsOpen_second {first : List (Visit τ)} {p : Pos} {a₁ : Acc τ}
    (h : EndsWith r env targets walkNow start f)
    (hw : walk r env walkNow targets start = pass r env false walkNow targets a₁)
    (hpos : a₁.pos = p) (herr₁ : a₁.lastErr = none) (hhonoring : a₁.honoring = first)
    (hopen : a₁.failOpen = []) (hskip : ∀ v ∈ first, v.isSkip) :
    FailsOpen r targets f ↔ ¬ Strands r targets (itinerary r env false walkNow targets p).1 := by
  have hpass := pass_spec r env false walkNow targets a₁
  rw [hpos] at hpass
  rcases hi : itinerary r env false walkNow targets p with ⟨second, q⟩
  rw [hi] at hpass
  by_cases hlast : ∃ v ∈ second, v.isLast
  · exact iff_of_true (failsOpen_of_no_report r (h.no_report r env fun a ha =>
      hpass.2 hlast a (hw ▸ ha))) (not_strands_of_last r hlast)
  have hlast : ∀ v ∈ second, ¬ v.isLast := fun v hv hl => hlast ⟨v, hv, hl⟩
  obtain ⟨hlen, a₂, ha₂, hp₂⟩ := hpass.1 hlast
  have hhonoring₂ : a₂.honoring = first := by simpa [hhonoring] using hp₂.honoring
  have hopen₂ : a₂.failOpen = second := by simpa [hopen] using hp₂.failOpen
  by_cases herr : ∃ v ∈ second, v.isGap ∨ v.isFailed
  · rw [h.report r env (hw.trans ha₂) (hp₂.lastErr.mpr (.inr herr)), hhonoring₂, hopen₂]
    exact promise_second r env hskip (by rw [hi]) hlen hlast herr
  -- every target thrown back by its limiter: the dispatch waits or is rate limited
  have hskip₂ := skips_of_undecided hlast herr
  refine iff_of_true ?_ (not_strands_of_skips r hskip₂)
  have hnone : a₂.lastErr = none := by
    rw [← Option.not_isSome_iff_eq_none, hp₂.lastErr, herr₁]
    simpa using herr
  simp only [EndsWith, hw, ha₂] at h
  rcases h with ⟨-, -, hno⟩ | ⟨hnot, -, -, -⟩
  · exact failsOpen_of_no_report r hno
  -- no wait and no error: the chain is empty
  have hnil : targets = [] := by
    refine List.eq_nil_iff_forall_not_mem.mpr fun t ht => hnot ⟨hnone, hp₂.soonestWait.mpr (.inr ?_)⟩
    obtain ⟨i, ht⟩ := List.mem_iff_getElem?.mp ht
    obtain ⟨v, hv⟩ := visited hlen ht
    obtain ⟨q', hq'⟩ := itinerary_visit r env false walkNow targets p ht (by rw [hi]; exact hv)
    have hs := hskip₂ v (List.mem_of_getElem? hv)
    cases v with
    | limited d => exact ⟨d, List.mem_of_getElem? hv⟩
    | cooled b => exact absurd hq'.symm ((visit_spec r env false walkNow t q').1 rfl b)
    | _ => simp [Visit.isSkip] at hs
  exact fun e _ => ⟨by simp [hnil], by simp [hnil]⟩

/-- **One walk**: its end keeps the promise exactly when neither pass strands a target. -/
theorem failsOpen_of_endsWith (hstart : start.restart = start)
    (h : EndsWith r env targets walkNow start f) :
    FailsOpen r targets f ↔ StrandsNone r env targets walkNow start.pos := by
  unfold StrandsNone
  have hpass := pass_spec r env true walkNow targets start
  rcases hi : itinerary r env true walkNow targets start.pos with ⟨first, p⟩
  rw [hi] at hpass
  dsimp only
  by_cases hlast : ∃ v ∈ first, v.isLast
  · -- answered in the first pass
    have hnot : ∀ a, walk r env walkNow targets start ≠ .next a := by
      intro a hw
      unfold walk at hw
      split at hw
      · rename_i a' ha'
        exact hpass.2 hlast a' ha'
      · exact hpass.2 hlast a hw
    refine iff_of_true (failsOpen_of_no_report r (h.no_report r env hnot))
      ⟨not_strands_of_last r hlast, fun hskip => ?_⟩
    obtain ⟨v, hv, hl⟩ := hlast
    exact absurd ⟨v, hv, .inr (.inr hl)⟩ (undecided_of_skips hskip)
  have hlast : ∀ v ∈ first, ¬ v.isLast := fun v hv hl => hlast ⟨v, hv, hl⟩
  obtain ⟨hlen, a₁, ha₁, hp₁⟩ := hpass.1 hlast
  have hhonoring : a₁.honoring = first := by
    rw [hp₁.honoring, ← hstart]
    simp [Acc.restart]
  have hopen : a₁.failOpen = [] := by
    rw [hp₁.failOpen, ← hstart]
    simp [Acc.restart]
  by_cases herr : ∃ v ∈ first, v.isGap ∨ v.isFailed
  · -- an error in the first pass: the second is not made
    have hsome : a₁.lastErr.isSome := hp₁.lastErr.mpr (.inr herr)
    have hw : walk r env walkNow targets start = .next a₁ := by
      simp only [walk, ha₁, hsome, if_true]
    rw [h.report r env hw hsome, hhonoring, hopen,
      promise_first r env (by rw [hi]) hlen hlast herr]
    refine ⟨fun hs => ⟨hs, fun hskip => ?_⟩, fun hs => hs.1⟩
    obtain ⟨v, hv, hd⟩ := herr
    exact absurd ⟨v, hv, hd.imp id .inl⟩ (undecided_of_skips hskip)
  · -- every target skipped: the second pass decides
    have hskip := skips_of_undecided hlast herr
    have hnone : a₁.lastErr = none := by
      rw [← Option.not_isSome_iff_eq_none, hp₁.lastErr, ← hstart]
      simpa [Acc.restart] using herr
    have hw : walk r env walkNow targets start = pass r env false walkNow targets a₁ := by
      simp [walk, ha₁, hnone]
    rw [failsOpen_second r env h hw hp₁.pos hnone hhonoring hopen hskip]
    exact ⟨fun hs => ⟨not_strands_of_skips r hskip, fun _ => hs⟩, fun hs => hs.2 hskip⟩

end

/-- **A dispatch fails toward availability exactly when no pass of its last walk meets a gap, no
answer and no failure, and skips a registered target.** -/
theorem failsOpen_iff (r : Request) (env : Env τ) (rateMaxWait : Duration)
    (payload : Option Value) (world : World) :
    let f := dispatch r env rateMaxWait payload world
    let targets := (r.topo.router.resolve r.logicalModel).getD []
    FailsOpen r targets f ↔ StrandsNone r env targets f.lastWalk.1 f.lastWalk.2.pos := by
  have hnil : ∀ walkNow p, StrandsNone r env [] walkNow p := fun walkNow p => by
    simp [StrandsNone, Strands]
  unfold dispatch
  dsimp only
  split
  · rename_i hres
    rw [hres]
    exact iff_of_true (failsOpen_of_no_report r fun e => by simp) (hnil _ _)
  · rename_i hres
    rw [hres]
    exact iff_of_true (failsOpen_of_no_report r fun e => by simp) (hnil _ _)
  · rename_i targets _ hres
    rw [hres]
    obtain ⟨hstart, hends⟩ := loop_endsWith r env targets rateMaxWait 0
      ⟨none, none, [.requestStarted r.requestId r.key r.logicalModel payload], [], [], ⟨world, 0, 0⟩⟩
    exact failsOpen_of_endsWith r env hstart hends

/-! ## An unregistered target before a cooled-down one -/

/-- A chain of two providers, of which only `openai` is registered. -/
def halfRegistered : Engine :=
  .new ⟨[.plain "openai" "openai" none], [⟨"m", [⟨"ghost", none⟩, ⟨"openai", none⟩]⟩]⟩
    (HashMap.collect [("openai", ⟨"openai", 0⟩)]) fun _ _ => (0, 0)

/-- A request for it, at a time when `openai` is still cooling down. -/
def cooledRequest : Request where
  topo := halfRegistered.topology
  logicalModel := "m"
  requestId := "r"
  key := "k"
  now := 10
  cooldownSecs := 30

/-- Providers that answer every call, and no other request. -/
def answering : Env Unit where
  clock := fun _ => 0
  secret := fun _ => none
  op := fun _ _ _ _ => .ok ()
  meanwhile := fun _ w => w

/-- The unregistered target ends the walk: `openai`, which would have answered, is not called. -/
theorem unregistered_strands_cooled :
    ¬ FailsOpen cooledRequest [⟨"ghost", none⟩, ⟨"openai", none⟩]
      (dispatch cooledRequest answering 0 none ⟨HealthTable.new.penalize "openai" 0 30, []⟩) := by
  have hrun : dispatch cooledRequest answering 0 none ⟨HealthTable.new.penalize "openai" 0 30, []⟩ =
      loop cooledRequest answering [⟨"ghost", none⟩, ⟨"openai", none⟩] 0 0
        ⟨none, none, [.requestStarted "r" "k" "m" none], [], [],
          ⟨⟨HealthTable.new.penalize "openai" 0 30, []⟩, 0, 0⟩⟩ := rfl
  rw [hrun, loop]
  intro h
  obtain ⟨v, hv, hfailed⟩ := (h _ rfl).1 1 ⟨"openai", none⟩ rfl rfl rfl rfl
  -- the two visits of the walk: unregistered and cooled down
  have hvisits : v ∈ [Visit.unregistered, .cooled true] := hv
  simp only [List.mem_cons, List.not_mem_nil, or_false] at hvisits
  rcases hvisits with rfl | rfl <;> cases hfailed

end Llmleaf.Dispatch
