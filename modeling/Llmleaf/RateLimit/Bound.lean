import Llmleaf.Lib.Bucket
import Llmleaf.RateLimit.Calls

/-!
# The request rate of a scope

However admissions, debits and reconciliations interleave, and whatever instants the callers pass,
a scope of `C` requests a minute admits at most `C` requests and `C / 60` more for every second
from its creation to the largest instant passed so far.

- `Funded`: a bucket covers the request tokens that calls hold from it.
- `Call.step_accounted`: the step lemma, one case per operation of an admission.
- `LimiterState.Inv`: the invariant of the interleaved runs.
- `LimiterState.admitted_le`: the bound, for a provider and all its models at once.
-/

namespace Llmleaf

open Bucket Runs

/-- An instant in seconds. -/
def sec (t : Instant) : ℚ := (t : ℚ) / nanos

theorem secsSince_eq {now last : Instant} (h : last ≤ now) : secsSince now last = sec now - sec last := by
  rw [secsSince, sec, sec, Nat.cast_sub h, sub_div]

theorem nanos_pos : (0 : ℚ) < nanos := by norm_num [nanos]

theorem sec_mono {t t' : Instant} (h : t ≤ t') : sec t ≤ sec t' :=
  div_le_div_of_nonneg_right (Nat.cast_le.mpr h) nanos_pos.le

theorem secsSince_pos {now last : Instant} : 0 < secsSince now last ↔ last < now := by
  rw [secsSince, div_pos_iff_of_pos_right nanos_pos, Nat.cast_pos, Nat.sub_pos_iff_lt]

/-! ## One bucket -/

/-- A bucket of `C` requests a minute, created at `t0` and last accessed at an instant up to `T`,
covers `taken` request tokens. -/
structure Funded (C : ℕ) (t0 T : Instant) (taken : ℚ) (b : TokenBucket) : Prop where
  capacity : b.capacity = C
  rate : b.refillPerSec = (C : ℚ) / 60
  last : b.last ≤ max t0 T
  covers : Covers (C : ℚ) ((C : ℚ) / 60) b.tokens taken (sec t0) (sec b.last)

section

variable {C : ℕ} {t0 T now : Instant} {taken : ℚ} {b : TokenBucket}

private theorem cap_nonneg (C : ℕ) : (0 : ℚ) ≤ C := Nat.cast_nonneg C

private theorem rate_nonneg (C : ℕ) : (0 : ℚ) ≤ (C : ℚ) / 60 := div_nonneg (cap_nonneg C) (by norm_num)

theorem Funded.mono (h : Funded C t0 T taken b) {T' : Instant} (hT : T ≤ T') :
    Funded C t0 T' taken b :=
  { h with last := le_trans h.last (max_le_max_left _ hT) }

theorem funded_perMinute (C : ℕ) (t0 T : Instant) : Funded C t0 T 0 (.perMinute C t0) where
  capacity := rfl
  rate := rfl
  last := le_max_left _ _
  covers := covers_full (cap_nonneg C)

theorem Funded.refill (h : Funded C t0 T taken b) (hnow : now ≤ T) :
    Funded C t0 T taken (b.refill now) := by
  unfold TokenBucket.refill
  split
  · rename_i hpos
    have hlt := secsSince_pos.mp hpos
    refine ⟨h.capacity, h.rate, le_trans hnow (le_max_right _ _), ?_⟩
    simp only [secsSince_eq hlt.le, h.capacity, h.rate]
    exact h.covers.refill (cap_nonneg C) (rate_nonneg C) (sec_mono hlt.le)
  · exact h

/-- Refusing does not move tokens, even where it unwinds. -/
theorem Funded.refuse (h : Funded C t0 T taken b) {α : Type} (deficit : ℚ) :
    Funded C t0 T taken (b.refuse deficit : Reply α × TokenBucket).2 := by
  unfold TokenBucket.refuse
  split
  · exact h
  · exact ⟨h.capacity, h.rate, h.last, h.covers⟩

/-- A take that succeeds takes one token, any other none. -/
theorem Funded.tryTake (h : Funded C t0 T taken b) (hnow : now ≤ T) :
    Funded C t0 T (if (b.tryTake 1 now).1 = .ok () then taken + 1 else taken)
      (b.tryTake 1 now).2 := by
  unfold TokenBucket.tryTake
  split
  · simpa using h
  · have hr := h.refill hnow
    dsimp only
    split
    · rename_i hle
      simp only [if_true]
      exact ⟨hr.capacity, hr.rate, hr.last, hr.covers.take hle⟩
    · have hne : (((b.refill now).refuse (1 - (b.refill now).tokens) : Reply Unit × TokenBucket).1)
          ≠ .ok () := by
        unfold TokenBucket.refuse
        split <;> simp
      rw [if_neg hne]
      exact hr.refuse _

/-- A refund that succeeds gives one token back, any other none. -/
theorem Funded.refund (h : Funded C t0 T taken b) (hnow : now ≤ T) :
    Funded C t0 T (if (b.refund 1 now).1 = .panic then taken else taken - 1) (b.refund 1 now).2 := by
  unfold TokenBucket.refund
  split
  · simpa using h
  · have hr := h.refill hnow
    refine ⟨hr.capacity, hr.rate, hr.last, ?_⟩
    simp only [reduceCtorEq, if_false, hr.capacity]
    exact hr.covers.giveBack (cap_nonneg C) (by norm_num)

/-- **What was taken from a bucket is bounded by its rate.** -/
theorem Funded.taken_le (h : Funded C t0 T taken b) :
    taken ≤ C + (C : ℚ) / 60 * secsSince T t0 := by
  have hle := h.covers.taken_le (rate_nonneg C) (sec_mono h.last)
  rcases le_total t0 T with ht | ht
  · rwa [max_eq_right ht, ← secsSince_eq ht] at hle
  · rw [max_eq_left ht, sub_self] at hle
    rwa [secsSince, Nat.sub_eq_zero_of_le ht, Nat.cast_zero, zero_div]

end

/-! ## One entry -/

/-- The requests per minute a provider's configuration gives a scope. -/
def ProviderConfig.requestsPerMin (p : ProviderConfig) : Scope → Option ℕ
  | none => p.limits.bind (·.requestsPerMin)
  | some model => (p.modelLimits.lookup model).bind (·.requestsPerMin)

/-- Every request bucket of the entry covers the tokens taken from it, by scope. -/
def Accounted (o : Origin) (T : Instant) (taken : Scope → ℚ) (p : ProviderLimits) : Prop :=
  ∀ sc, match o.config.requestsPerMin sc with
    | none => p.rpm sc = none
    | some C => ∃ b, p.rpm sc = some b ∧ Funded C (o.born o.config.name sc).1 T (taken sc) b

namespace ProviderLimits

variable (p : ProviderLimits) (sc sc' : Scope) (now : Instant)

@[simp] theorem rpm_acquire : (p.acquire sc).2.rpm sc' = p.rpm sc' := by
  unfold acquire
  split
  · rfl
  · split <;> simp

@[simp] theorem rpm_release : (p.release sc).rpm sc' = p.rpm sc' := by
  unfold release
  split <;> simp

@[simp] theorem rpm_floor : (p.floor sc now).2.rpm sc' = p.rpm sc' := by
  unfold floor
  split <;> simp

@[simp] theorem rpm_debit (tokens : ℕ) : (p.debit sc tokens now).2.rpm sc' = p.rpm sc' := by
  unfold debit
  split <;> simp

variable {p sc}

/-- Replacing a bucket that is there. -/
theorem rpm_setRpm_some {b : TokenBucket} (h : p.rpm sc = some b) (b' : TokenBucket) :
    (p.setRpm sc b').rpm sc' = if sc' = sc then some b' else p.rpm sc' := by
  refine rpm_setRpm b' sc' ?_
  obtain ⟨l, hl, -⟩ := Option.bind_eq_some_iff.mp h
  rw [hl]
  rfl

/-- A scope without a bucket has nothing to take. -/
theorem take_none (h : p.rpm sc = none) : p.take sc now = (.ok false, p) := by
  simp only [take, h]

/-- A take is a take from the scope's bucket. -/
theorem take_some {b : TokenBucket} (h : p.rpm sc = some b) :
    p.take sc now = (match (b.tryTake 1 now).1 with
      | .ok () => .ok true
      | .wait d => .wait d
      | .panic => .panic, p.setRpm sc (b.tryTake 1 now).2) := by
  simp only [take, h]
  rcases b.tryTake 1 now with ⟨_ | _ | _, _⟩ <;> rfl

theorem refund_some {b : TokenBucket} (h : p.rpm sc = some b) :
    p.refund sc now = ((b.refund 1 now).1, p.setRpm sc (b.refund 1 now).2) := by
  simp only [refund, h]

end ProviderLimits

section

variable {o : Origin} {T now : Instant} {taken : Scope → ℚ} {p : ProviderLimits}

theorem Accounted.congr (h : Accounted o T taken p) {p' : ProviderLimits} {taken' : Scope → ℚ}
    (hp : ∀ sc, p'.rpm sc = p.rpm sc) (htaken : ∀ sc, taken' sc = taken sc) :
    Accounted o T taken' p' := by
  intro sc
  rw [hp, htaken]
  exact h sc

theorem Accounted.mono (h : Accounted o T taken p) {T' : Instant} (hT : T ≤ T') :
    Accounted o T' taken p := by
  intro sc
  have hsc := h sc
  split
  · rename_i hC
    simpa only [hC] using hsc
  · rename_i C hC
    simp only [hC] at hsc
    obtain ⟨b, hb, hf⟩ := hsc
    exact ⟨b, hb, hf.mono hT⟩

/-- A fresh entry has given nothing. -/
theorem accounted_fresh (o : Origin) (T : Instant) :
    Accounted o T (fun _ => 0) (.fromConfig o.config o.born) := by
  intro sc
  cases sc with
  | none =>
    simp only [ProviderConfig.requestsPerMin, ProviderLimits.rpm, ProviderLimits.limit,
      ProviderLimits.fromConfig, Option.bind_some]
    cases hl : o.config.limits with
    | none => rfl
    | some cfg =>
      cases hr : cfg.requestsPerMin with
      | none => simp [Limit.fromConfig, hr]
      | some C => simpa [Limit.fromConfig, hr] using funded_perMinute C _ T
  | some m =>
    simp only [ProviderConfig.requestsPerMin, ProviderLimits.rpm, ProviderLimits.limit,
      ProviderLimits.fromConfig, Finmap.lookup_mapVal]
    cases hl : o.config.modelLimits.lookup m with
    | none => rfl
    | some cfg =>
      cases hr : cfg.requestsPerMin with
      | none => simp [Limit.fromConfig, hr]
      | some C => simpa [Limit.fromConfig, hr] using funded_perMinute C _ T

/-- The bucket of a scope whose configuration limits requests. -/
theorem Accounted.bucket (h : Accounted o T taken p) {sc : Scope} {C : ℕ}
    (hC : o.config.requestsPerMin sc = some C) :
    ∃ b, p.rpm sc = some b ∧ Funded C (o.born o.config.name sc).1 T (taken sc) b := by
  have hsc := h sc
  simpa only [hC] using hsc

theorem Accounted.rpm_none (h : Accounted o T taken p) {sc : Scope}
    (hC : o.config.requestsPerMin sc = none) : p.rpm sc = none := by
  have hsc := h sc
  simpa only [hC] using hsc

/-- Replacing the bucket of one scope. -/
theorem Accounted.setRpm (h : Accounted o T taken p) {sc : Scope} {C : ℕ} {b b' : TokenBucket}
    {n : ℚ} (hC : o.config.requestsPerMin sc = some C) (hb : p.rpm sc = some b)
    (hf : Funded C (o.born o.config.name sc).1 T n b') :
    Accounted o T (fun sc' => if sc' = sc then n else taken sc') (p.setRpm sc b') := by
  intro sc'
  have hsc' := h sc'
  rw [ProviderLimits.rpm_setRpm_some sc' hb]
  by_cases heq : sc' = sc
  · subst heq
    simp only [hC, if_true]
    exact ⟨b', rfl, hf⟩
  · simpa only [if_neg heq] using hsc'

/-- **A take**: it takes one token if it says so, and it says so exactly where requests are
limited. -/
theorem Accounted.take (h : Accounted o T taken p) (hnow : now ≤ T) (sc : Scope) :
    Accounted o T
      (fun sc' => if sc' = sc ∧ (p.take sc now).1 = .ok true then taken sc' + 1 else taken sc')
      (p.take sc now).2 ∧
    ∀ took, (p.take sc now).1 = .ok took → took = (o.config.requestsPerMin sc).isSome := by
  cases hC : o.config.requestsPerMin sc with
  | none =>
    rw [ProviderLimits.take_none now (h.rpm_none hC)]
    exact ⟨h.congr (fun _ => rfl) fun _ => by simp, fun took ht => by cases ht; rfl⟩
  | some C =>
    obtain ⟨b, hb, hf⟩ := h.bucket hC
    have hset := h.setRpm hC hb (hf.tryTake hnow)
    rw [ProviderLimits.take_some now hb]
    rcases htry : b.tryTake 1 now with ⟨_ | d | _, b'⟩ <;> rw [htry] at hset
    · refine ⟨hset.congr (fun _ => rfl) fun sc' => ?_, fun took ht => by cases ht; rfl⟩
      by_cases heq : sc' = sc <;> simp [heq]
    · refine ⟨hset.congr (fun _ => rfl) fun sc' => ?_, fun took ht => by cases ht⟩
      by_cases heq : sc' = sc <;> simp [heq]
    · refine ⟨hset.congr (fun _ => rfl) fun sc' => ?_, fun took ht => by cases ht⟩
      by_cases heq : sc' = sc <;> simp [heq]

/-- **A refund** of a limited scope gives one token back, unless it unwinds. -/
theorem Accounted.refund (h : Accounted o T taken p) (hnow : now ≤ T) {sc : Scope}
    (hC : (o.config.requestsPerMin sc).isSome) :
    Accounted o T
      (fun sc' => if sc' = sc ∧ (p.refund sc now).1 ≠ .panic then taken sc' - 1 else taken sc')
      (p.refund sc now).2 := by
  obtain ⟨C, hC⟩ := Option.isSome_iff_exists.mp hC
  obtain ⟨b, hb, hf⟩ := h.bucket hC
  have hset := h.setRpm hC hb (hf.refund hnow)
  rw [ProviderLimits.refund_some now hb]
  refine hset.congr (fun _ => rfl) fun sc' => ?_
  by_cases heq : sc' = sc
  · by_cases hp : (b.refund 1 now).1 = .panic <;> simp [heq, hp]
  · simp [heq]

end

/-! ## One call -/

namespace Call

/-- Whether the call holds a request token of the scope's bucket. -/
def took (c : Call) : Scope → Bool
  | none => c.tookGlobal
  | some model => c.tookModel && c.model == model

/-- The tokens the call holds of the scope's bucket. -/
def tokens (c : Call) (sc : Scope) : ℚ := (c.took sc).toNat

/-- The request tokens a call holds, by what it does next: none before its takes, and afterwards
one of every scope that limits requests. -/
def Ok (o : Origin) (c : Call) : Prop :=
  match c.pc with
  | .semGlobal | .semModel | .tpmGlobal | .tpmModel | .rpmGlobal =>
    c.tookGlobal = false ∧ c.tookModel = false
  | .rpmModel => c.tookGlobal = (o.config.requestsPerMin none).isSome ∧ c.tookModel = false
  | .refundGlobal _ =>
    c.tookGlobal = true ∧ (o.config.requestsPerMin none).isSome = true ∧ c.tookModel = false
  | .admitted | .released =>
    c.tookGlobal = (o.config.requestsPerMin none).isSome ∧
      c.tookModel = (o.config.requestsPerMin (some c.model)).isSome
  | .dropModel _ | .dropGlobal _ | .refused _ => True

/-- What one operation of a call leaves as it is: the entry, the model and the instant. -/
def SameRequest (c c' : Call) : Prop := c'.entry = c.entry ∧ c'.model = c.model ∧ c'.now = c.now

section

variable {o : Origin} {T : Instant} {taken : Scope → ℚ} {p p' : ProviderLimits} {c c' : Call}

/-- The account after a call went from `c` to `c'`. -/
def moved (taken : Scope → ℚ) (c c' : Call) : Scope → ℚ :=
  fun sc => taken sc - c.tokens sc + c'.tokens sc

theorem tokens_congr (hg : c'.tookGlobal = c.tookGlobal) (hm : c'.tookModel = c.tookModel)
    (hmodel : c'.model = c.model) (sc : Scope) : c'.tokens sc = c.tokens sc := by
  have h : c'.took sc = c.took sc := by cases sc <;> simp [took, hg, hm, hmodel]
  rw [tokens, tokens, h]

/-- An operation that touches no request bucket and takes no token. -/
theorem keep (h : Accounted o T taken p) (hp : ∀ sc, p'.rpm sc = p.rpm sc)
    (hg : c'.tookGlobal = c.tookGlobal) (hm : c'.tookModel = c.tookModel)
    (hmodel : c'.model = c.model) : Accounted o T (moved taken c c') p' :=
  h.congr hp fun sc => by rw [moved, tokens_congr hg hm hmodel, sub_add_cancel]

/-- A call that is refused takes no token. -/
theorem fail_accounted (h : Accounted o T taken p) (hp : ∀ sc, p'.rpm sc = p.rpm sc)
    (why : Refusal) : Accounted o T (moved taken c (c.fail why)) p' ∧ (c.fail why).Ok o ∧
      SameRequest c (c.fail why) :=
  ⟨keep h hp rfl rfl rfl, trivial, rfl, rfl, rfl⟩

/-- **One operation of an admission** keeps the account: what the call takes or gives back is what
the bucket loses or gains. -/
theorem step_accounted (h : Accounted o T taken p) (hok : c.Ok o) (hnow : c.now ≤ T) :
    Accounted o T (moved taken c (step p c).2) (step p c).1 ∧ (step p c).2.Ok o ∧
      SameRequest c (step p c).2 := by
  unfold Ok at hok
  rcases hpc : c.pc with _ | _ | _ | _ | _ | _ | d | why | why | why | _ | _ <;>
    simp only [hpc] at hok <;> simp only [step, hpc]
  case semGlobal =>
    have hp := p.rpm_acquire none
    rcases ha : p.acquire none with ⟨held | d | _, p'⟩ <;> rw [ha] at hp
    · exact ⟨keep h hp rfl rfl rfl, hok, rfl, rfl, rfl⟩
    · exact fail_accounted h hp _
    · exact fail_accounted h hp _
  case semModel =>
    have hp := p.rpm_acquire (some c.model)
    rcases ha : p.acquire (some c.model) with ⟨held | d | _, p'⟩ <;> rw [ha] at hp
    · exact ⟨keep h hp rfl rfl rfl, hok, rfl, rfl, rfl⟩
    · exact fail_accounted h hp _
    · exact fail_accounted h hp _
  case tpmGlobal =>
    have hp := fun sc => p.rpm_floor none sc c.now
    rcases ha : p.floor none c.now with ⟨_ | d | _, p'⟩ <;> rw [ha] at hp
    · exact ⟨keep h hp rfl rfl rfl, hok, rfl, rfl, rfl⟩
    · exact fail_accounted h hp _
    · exact fail_accounted h hp _
  case tpmModel =>
    have hp := fun sc => p.rpm_floor (some c.model) sc c.now
    rcases ha : p.floor (some c.model) c.now with ⟨_ | d | _, p'⟩ <;> rw [ha] at hp
    · exact ⟨keep h hp rfl rfl rfl, hok, rfl, rfl, rfl⟩
    · exact fail_accounted h hp _
    · exact fail_accounted h hp _
  case rpmGlobal =>
    obtain ⟨hg, hm⟩ := hok
    obtain ⟨htake, htook⟩ := h.take hnow none
    rcases ha : p.take none c.now with ⟨took | d | _, p'⟩ <;> rw [ha] at htake htook
    · refine ⟨htake.congr (fun _ => rfl) fun sc => ?_, ⟨htook took rfl, hm⟩, rfl, rfl, rfl⟩
      cases sc <;> cases took <;> simp [moved, tokens, Call.took, hg, hm]
    · exact fail_accounted (by simpa using htake) (fun _ => rfl) _
    · exact fail_accounted (by simpa using htake) (fun _ => rfl) _
  case rpmModel =>
    obtain ⟨hg, hm⟩ := hok
    obtain ⟨htake, htook⟩ := h.take hnow (some c.model)
    rcases ha : p.take (some c.model) c.now with ⟨took | d | _, p'⟩ <;> rw [ha] at htake htook
    · refine ⟨htake.congr (fun _ => rfl) fun sc => ?_, ⟨hg, htook took rfl⟩, rfl, rfl, rfl⟩
      cases sc with
      | none => simp [moved, tokens, Call.took]
      | some m =>
        by_cases heq : m = c.model
        · cases took <;> simp [moved, tokens, Call.took, hm, heq]
        · cases took <;> simp [moved, tokens, Call.took, hm, heq, Ne.symm heq]
    · have hkept : Accounted o T taken p' := by simpa using htake
      dsimp only
      split
      · rename_i htg
        exact ⟨keep hkept (fun _ => rfl) rfl rfl rfl, ⟨htg, hg ▸ htg, hm⟩, rfl, rfl, rfl⟩
      · exact fail_accounted hkept (fun _ => rfl) _
    · exact fail_accounted (by simpa using htake) (fun _ => rfl) _
  case refundGlobal =>
    obtain ⟨hg, hlimited, hm⟩ := hok
    have hrefund := h.refund hnow hlimited
    rcases ha : p.refund none c.now with ⟨_ | _ | _, p'⟩ <;> rw [ha] at hrefund
    · refine ⟨hrefund.congr (fun _ => rfl) fun sc => ?_, trivial, rfl, rfl, rfl⟩
      cases sc <;> simp [moved, tokens, Call.took, hg]
    · refine ⟨hrefund.congr (fun _ => rfl) fun sc => ?_, trivial, rfl, rfl, rfl⟩
      cases sc <;> simp [moved, tokens, Call.took, hg]
    · exact fail_accounted (by simpa using hrefund) (fun _ => rfl) _
  case dropModel =>
    refine ⟨keep h (fun sc => ?_) rfl rfl rfl, trivial, rfl, rfl, rfl⟩
    split <;> simp
  case dropGlobal =>
    refine ⟨keep h (fun sc => ?_) rfl rfl rfl, trivial, rfl, rfl, rfl⟩
    split <;> simp
  case refused => exact ⟨keep h (fun _ => rfl) rfl rfl rfl, by simp only [Ok, hpc], rfl, rfl, rfl⟩
  case admitted | released =>
    exact ⟨keep h (fun _ => rfl) rfl rfl rfl, by simpa only [Ok, hpc] using hok, rfl, rfl, rfl⟩

/-- Dropping a guard moves no request token. -/
theorem drop_accounted (h : Accounted o T taken p) (hok : c.Ok o) :
    Accounted o T (moved taken c (drop p c).2) (drop p c).1 ∧ (drop p c).2.Ok o ∧
      SameRequest c (drop p c).2 := by
  unfold drop
  split
  · rename_i hpc
    simp only [Ok, hpc] at hok
    refine ⟨keep h (fun sc => ?_) rfl rfl rfl, hok, rfl, rfl, rfl⟩
    dsimp only
    split <;> split <;> simp
  · exact ⟨keep h (fun _ => rfl) rfl rfl rfl, hok, rfl, rfl, rfl⟩

end

/-- An admitted call holds a token of every scope that limits its requests. -/
theorem took_of_admitted {o : Origin} {c : Call} (hok : c.Ok o) (hadm : c.isAdmitted) {sc : Scope}
    (hsc : sc.all (c.model == ·)) (hC : (o.config.requestsPerMin sc).isSome) : c.tokens sc = 1 := by
  have hflags : c.tookGlobal = (o.config.requestsPerMin none).isSome ∧
      c.tookModel = (o.config.requestsPerMin (some c.model)).isSome := by
    simp only [isAdmitted, Bool.or_eq_true, decide_eq_true_eq] at hadm
    rcases hadm with h | h <;> simpa only [Ok, h] using hok
  cases sc with
  | none => simp [tokens, took, hflags.1, hC]
  | some m =>
    have hm : c.model = m := by simpa using hsc
    subst hm
    simp [tokens, took, hflags.2, hC]

theorem tokens_nonneg (c : Call) (sc : Scope) : 0 ≤ c.tokens sc := Nat.cast_nonneg _

end Call

/-! ## Reconciliation -/

/-- A reconciliation appends the rebuilt entries to the store; a provider has its old entry or one
of the new ones. -/
theorem RateLimiter.reconciled_spec (l : RateLimiter) (store : Store)
    (providers : List ProviderConfig) (unchanged : String → Bool) (born : Births) :
    let r := l.reconciled store providers unchanged born
    let built := LimiterState.rebuilt unchanged born providers
    r.2 = store ++ built.map (ProviderLimits.fromConfig · born) ∧
      ∀ n e, r.1.providers.lookup n = some e →
        l.providers.lookup n = some e ∨
          ∃ i q, built[i]? = some q ∧ q.name = n ∧ e = store.length + i := by
  induction providers using List.reverseRecOn with
  | nil => exact ⟨by simp [reconciled, LimiterState.rebuilt], fun n e he => by simp [reconciled] at he⟩
  | append_singleton ps p ih =>
    obtain ⟨hstore, hentries⟩ := ih
    simp only [reconciled, List.foldl_append, List.foldl_cons, List.foldl_nil,
      LimiterState.rebuilt, List.filter_append, List.map_append] at hstore hentries ⊢
    generalize List.foldl (l.reconcileOne unchanged born) (⟨∅⟩, store) ps = acc at hstore hentries
    -- an entry found before stays found, further to the left of the longer list
    have hold : ∀ (extra : List ProviderConfig) (n : String) (e : ℕ),
        acc.1.providers.lookup n = some e →
        l.providers.lookup n = some e ∨ ∃ i q,
          (List.filter (fun p => !unchanged p.name &&
            !(ProviderLimits.fromConfig p born).isVacant) ps ++ extra)[i]? = some q ∧
          q.name = n ∧ e = store.length + i := by
      intro extra n e he
      rcases hentries n e he with h | ⟨i, q, hq, hname, hi⟩
      · exact .inl h
      · refine .inr ⟨i, q, ?_, hname, hi⟩
        rw [List.getElem?_append_left (List.getElem?_eq_some_iff.mp hq).1, hq]
    unfold reconcileOne
    split
    · rename_i hu
      have hnil : List.filter (fun p => !unchanged p.name &&
          !(ProviderLimits.fromConfig p born).isVacant) [p] = [] := by simp [hu]
      rw [hnil]
      split
      · rename_i entry hentry
        refine ⟨by simpa using hstore, fun n e he => ?_⟩
        rw [HashMap.lookup_insert_eq] at he
        split at he
        · rename_i hn
          cases he
          exact .inl (hn ▸ hentry)
        · exact hold _ n e he
      · exact ⟨by simpa using hstore, hold _⟩
    · rename_i hu
      dsimp only
      split
      · rename_i hv
        have hnil : List.filter (fun p => !unchanged p.name &&
            !(ProviderLimits.fromConfig p born).isVacant) [p] = [] := by simp [hv]
        rw [hnil]
        exact ⟨by simpa using hstore, hold _⟩
      · rename_i hv
        have hone : List.filter (fun p => !unchanged p.name &&
            !(ProviderLimits.fromConfig p born).isVacant) [p] = [p] := by simp [hu, hv]
        rw [hone]
        refine ⟨by rw [hstore, List.append_assoc]; rfl, fun n e he => ?_⟩
        rw [HashMap.lookup_insert_eq] at he
        split at he
        · rename_i hn
          cases he
          refine .inr ⟨_, p, List.getElem?_concat_length .., hn.symm, ?_⟩
          rw [hstore, List.length_append, List.length_map]
        · exact hold _ n e he

/-! ## All calls -/

namespace LimiterState

/-- The request tokens all calls hold of a scope of the entry `e`. -/
def heldTokens (calls : List Call) (e : ℕ) (sc : Scope) : ℚ :=
  (calls.map fun c => if c.entry = e then c.tokens sc else 0).sum

private theorem sum_map_set {α : Type} (f : α → ℚ) {l : List α} {i : ℕ} {a a' : α}
    (h : l[i]? = some a) : ((l.set i a').map f).sum = (l.map f).sum - f a + f a' := by
  induction l generalizing i with
  | nil => simp at h
  | cons b l ih =>
    cases i with
    | zero =>
      simp only [List.getElem?_cons_zero, Option.some.injEq] at h
      simp only [h, List.set_cons_zero, List.map_cons, List.sum_cons]
      ring
    | succ i =>
      simp only [List.getElem?_cons_succ] at h
      simp only [List.set_cons_succ, List.map_cons, List.sum_cons, ih h]
      ring

theorem heldTokens_set {calls : List Call} {i : ℕ} {c c' : Call} (h : calls[i]? = some c)
    (hentry : c'.entry = c.entry) (e : ℕ) (sc : Scope) :
    heldTokens (calls.set i c') e sc =
      if c.entry = e then Call.moved (heldTokens calls e) c c' sc else heldTokens calls e sc := by
  rw [heldTokens, sum_map_set _ h]
  simp only [hentry, Call.moved]
  split <;> simp [heldTokens]

theorem heldTokens_fresh (calls : List Call) (entry : ℕ) (model : String) (now : Instant) (e : ℕ)
    (sc : Scope) : heldTokens (calls ++ [.fresh entry model now]) e sc = heldTokens calls e sc := by
  have h : (Call.fresh entry model now).tokens sc = 0 := by cases sc <;> rfl
  simp [heldTokens, h]

/-- Every entry covers the tokens the calls hold of it, every call holds what its place in the
admission says, and a limiter gives a provider an entry built from its configuration. -/
structure Inv (T : Instant) (s : LimiterState) : Prop where
  lengths : s.origins.length = s.store.length
  accounts : ∀ e o p, s.origins[e]? = some o → s.store[e]? = some p →
    Accounted o T (heldTokens s.calls e) p
  calls : ∀ c ∈ s.calls, c.now ≤ T ∧ ∃ o, s.origins[c.entry]? = some o ∧ c.Ok o
  entries : ∀ l ∈ s.limiters, ∀ n e, l.providers.lookup n = some e →
    ∃ o, s.origins[e]? = some o ∧ o.config.name = n

theorem inv_empty (T : Instant) : Inv T empty where
  lengths := rfl
  accounts e o p ho := by simp [empty] at ho
  calls c hc := by simp [empty] at hc
  entries l hl n e he := by
    simp only [empty, List.mem_singleton] at hl
    subst hl
    simp at he

namespace Inv

variable {T : Instant} {s : LimiterState}

theorem mono (h : Inv T s) {T' : Instant} (hT : T ≤ T') : Inv T' s where
  lengths := h.lengths
  accounts e o p ho hp := (h.accounts e o p ho hp).mono hT
  calls c hc := ⟨le_trans (h.calls c hc).1 hT, (h.calls c hc).2⟩
  entries := h.entries

/-- A fresh call joins. -/
theorem join (h : Inv T s) {e : ℕ} {o : Origin} (ho : s.origins[e]? = some o) (model : String)
    {now : Instant} (hnow : now ≤ T) :
    Inv T { s with calls := s.calls ++ [.fresh e model now] } where
  lengths := h.lengths
  accounts e' o' p ho' hp := (h.accounts e' o' p ho' hp).congr (fun _ => rfl) fun sc =>
    heldTokens_fresh s.calls e model now e' sc
  calls c hc := by
    rcases List.mem_append.mp hc with hc | hc
    · exact h.calls c hc
    · rw [List.mem_singleton.mp hc]
      exact ⟨hnow, o, ho, rfl, rfl⟩
  entries := h.entries

/-- A call performs an operation that keeps its account. -/
theorem act (h : Inv T s) (i : ℕ) {op : ProviderLimits → Call → ProviderLimits × Call}
    (hop : ∀ {o : Origin} {taken : Scope → ℚ} {p : ProviderLimits} {c : Call},
      Accounted o T taken p → c.Ok o → c.now ≤ T →
      Accounted o T (Call.moved taken c (op p c).2) (op p c).1 ∧ (op p c).2.Ok o ∧
        Call.SameRequest c (op p c).2) : Inv T (s.act i op) := by
  unfold LimiterState.act
  split
  · exact h
  rename_i c hc
  split
  · exact h
  rename_i p hp
  obtain ⟨hnow, o, ho, hok⟩ := h.calls c (List.mem_of_getElem? hc)
  obtain ⟨hacc, hok', hentry, hmodel, hnow'⟩ := hop (h.accounts _ o p ho hp) hok hnow
  refine ⟨by simpa using h.lengths, fun e o' p' ho' hp' => ?_, fun c' hc' => ?_, h.entries⟩
  · by_cases he : c.entry = e
    · subst he
      obtain rfl : o = o' := Option.some.inj (ho.symm.trans ho')
      rw [List.getElem?_set_self (List.getElem?_eq_some_iff.mp hp).1] at hp'
      cases hp'
      exact hacc.congr (fun _ => rfl) fun sc => by rw [heldTokens_set hc hentry, if_pos rfl]
    · rw [List.getElem?_set_ne he] at hp'
      exact (h.accounts e o' p' ho' hp').congr (fun _ => rfl) fun sc => by
        rw [heldTokens_set hc hentry, if_neg he]
  · rcases List.mem_or_eq_of_mem_set hc' with hc' | rfl
    · exact h.calls c' hc'
    · exact ⟨hnow' ▸ hnow, o, hentry ▸ ho, hok'⟩

/-- A debit reaches a bucket of tokens, not of requests. -/
theorem debit (h : Inv T s) {e : ℕ} {p : ProviderLimits} (hp : s.store[e]? = some p) (sc : Scope)
    (tokens : ℕ) (now : Instant) :
    Inv T { s with store := s.store.set e (p.debit sc tokens now).2 } where
  lengths := by simpa using h.lengths
  accounts e' o p' ho hp' := by
    by_cases he : e = e'
    · subst he
      rw [List.getElem?_set_self (List.getElem?_eq_some_iff.mp hp).1] at hp'
      cases hp'
      exact (h.accounts e o p ho hp).congr (fun sc' => p.rpm_debit sc sc' now tokens) fun _ => rfl
    · rw [List.getElem?_set_ne he] at hp'
      exact h.accounts e' o p' ho hp'
  calls := h.calls
  entries := h.entries

/-- A reconciliation carries entries over and adds full ones. -/
theorem reconcile (h : Inv T s) {l : RateLimiter} (hl : l ∈ s.limiters)
    (providers : List ProviderConfig) (unchanged : String → Bool) (born : Births) :
    Inv T (s.reconcile l providers unchanged born) := by
  obtain ⟨hstore, hentries⟩ := l.reconciled_spec s.store providers unchanged born
  -- the entries that were there keep their place in the history
  have hold : ∀ {e : ℕ} {o : Origin} (extra : List Origin), s.origins[e]? = some o →
      (s.origins ++ extra)[e]? = some o := fun {e o} extra ho => by
    rw [List.getElem?_append_left (List.getElem?_eq_some_iff.mp ho).1, ho]
  refine ⟨?_, fun e o p ho hp => ?_, fun c hc => ?_, fun l' hl' n e he => ?_⟩
  · simp only [LimiterState.reconcile, hstore, List.length_append, List.length_map, h.lengths]
  · simp only [LimiterState.reconcile] at ho hp ⊢
    rw [hstore] at hp
    by_cases he : e < s.store.length
    · rw [List.getElem?_append_left he] at hp
      rw [List.getElem?_append_left (h.lengths ▸ he)] at ho
      exact h.accounts e o p ho hp
    · -- a new entry: no call has it yet
      rw [List.getElem?_append_right (by omega), List.getElem?_map] at hp
      rw [List.getElem?_append_right (by have := h.lengths; omega), List.getElem?_map, h.lengths] at ho
      obtain ⟨q, hq, rfl⟩ := Option.map_eq_some_iff.mp ho
      rw [hq, Option.map_some, Option.some.injEq] at hp
      subst hp
      refine (accounted_fresh ⟨q, born⟩ T).congr (fun _ => rfl) fun sc => ?_
      refine List.sum_eq_zero fun x hx => ?_
      obtain ⟨c, hc, rfl⟩ := List.mem_map.mp hx
      obtain ⟨-, o', ho', -⟩ := h.calls c hc
      have hlt := (List.getElem?_eq_some_iff.mp ho').1
      have := h.lengths
      exact if_neg (by omega)
  · obtain ⟨hnow, o, ho, hok⟩ := h.calls c hc
    exact ⟨hnow, o, hold _ ho, hok⟩
  · simp only [LimiterState.reconcile, List.mem_append, List.mem_singleton] at hl' ⊢
    rcases hl' with hl' | rfl
    · obtain ⟨o, ho, hname⟩ := h.entries l' hl' n e he
      exact ⟨o, hold _ ho, hname⟩
    · rcases hentries n e he with he | ⟨i, q, hq, hname, rfl⟩
      · obtain ⟨o, ho, hname⟩ := h.entries l hl n e he
        exact ⟨o, hold _ ho, hname⟩
      · refine ⟨⟨q, born⟩, ?_, hname⟩
        rw [List.getElem?_append_right (by have := h.lengths; omega), List.getElem?_map, h.lengths,
          Nat.add_sub_cancel_left, hq, Option.map_some]

/-- A held entry has an origin. -/
theorem origin_of_entry (h : Inv T s) {limiter : ℕ} {provider : String} {e : ℕ}
    (he : s.entry limiter provider = some e) : ∃ o, s.origins[e]? = some o := by
  unfold LimiterState.entry at he
  split at he
  · cases he
  · rename_i l hl
    obtain ⟨o, ho, -⟩ := h.entries l (List.mem_of_getElem? hl) provider e he
    exact ⟨o, ho⟩

/-- **Every step keeps the invariant.** -/
theorem step (h : Inv T s) (e : Event) (hT : ∀ t, e.instant = some t → t ≤ T) :
    Inv T (s.step e) := by
  cases e with
  | tryAdmit limiter provider model now =>
    simp only [LimiterState.step]
    split
    · exact h
    · rename_i e he
      obtain ⟨o, ho⟩ := h.origin_of_entry he
      exact h.join ho model (hT now rfl)
  | advance i => exact h.act i Call.step_accounted
  | drop i => exact h.act i fun hacc hok _ => Call.drop_accounted hacc hok
  | debit limiter provider sc tokens now =>
    simp only [LimiterState.step]
    split
    · exact h
    · split
      · exact h
      · rename_i hp
        exact h.debit hp sc tokens now
  | reconcile limiter providers unchanged born =>
    simp only [LimiterState.step]
    split
    · exact h
    · rename_i l hl
      exact h.reconcile (List.mem_of_getElem? hl) providers unchanged born

/-- The admitted requests of a scope hold as many tokens. -/
theorem admitted_le_held (h : Inv T s) {e : ℕ} {o : Origin} (ho : s.origins[e]? = some o)
    {sc : Scope} (hC : (o.config.requestsPerMin sc).isSome) :
    (s.admitted e sc : ℚ) ≤ heldTokens s.calls e sc := by
  have key : ∀ l : List Call, (∀ c ∈ l, c ∈ s.calls) →
      ((l.countP fun c => c.isAdmitted && c.entry == e && sc.all (c.model == ·) : ℕ) : ℚ) ≤
        heldTokens l e sc := by
    intro l hl
    induction l with
    | nil => simp [heldTokens]
    | cons c l ih =>
      have ih := ih fun c hc => hl c (List.mem_cons_of_mem _ hc)
      rw [heldTokens, List.map_cons, List.sum_cons, ← heldTokens, List.countP_cons]
      by_cases hc : (c.isAdmitted && c.entry == e && sc.all (c.model == ·)) = true
      · rw [if_pos hc]
        simp only [Bool.and_eq_true, beq_iff_eq] at hc
        obtain ⟨⟨hadm, hentry⟩, hsc⟩ := hc
        obtain ⟨-, o', ho', hok⟩ := h.calls c (hl c (List.mem_cons_self ..))
        rw [hentry, ho, Option.some.injEq] at ho'
        subst ho'
        rw [if_pos hentry, Call.took_of_admitted hok hadm hsc hC]
        push_cast
        linarith
      · rw [if_neg hc]
        have : (0 : ℚ) ≤ if c.entry = e then c.tokens sc else 0 := by
          split
          · exact c.tokens_nonneg sc
          · exact le_refl _
        push_cast
        linarith
  exact key s.calls fun _ hc => hc

end Inv

theorem tMax_concat (es : List Event) (e : Event) :
    tMax es ≤ tMax (es ++ [e]) ∧ ∀ t, e.instant = some t → t ≤ tMax (es ++ [e]) := by
  unfold tMax
  rw [List.filterMap_append, List.foldl_append]
  cases he : e.instant with
  | none => exact ⟨by simp [he], fun t ht => by cases ht⟩
  | some t =>
    refine ⟨by simp [he], fun t' ht' => ?_⟩
    cases ht'
    simp [he]

/-- Every state of a run has the invariant at the largest instant passed so far. -/
theorem inv_of_run {tr : List (Step LimiterState Event)} {s : LimiterState}
    (h : Run system empty tr s) : Inv (tMax (events tr)) s := by
  refine h.invariant_trace (P := fun tr s => Inv (tMax (events tr)) s) (inv_empty _)
    fun tr s e s' _ hinv hstep => ?_
  rw [events_append, events_singleton, show s' = s.step e from hstep]
  obtain ⟨hmono, hlast⟩ := tMax_concat (events tr) e
  exact (hinv.mono hmono).step e hlast

/-- **The request-rate bound.** In every run, an entry that any limiter gives a provider has
admitted, for the provider and for each of its models, at most the requests of one minute and what
accrued from the creation of the scope's bucket to the largest instant passed. -/
theorem admitted_le {tr : List (Step LimiterState Event)} {s : LimiterState}
    (h : Run system empty tr s) {l : RateLimiter} (hl : l ∈ s.limiters) {provider : String} {e : ℕ}
    (he : l.providers.lookup provider = some e) :
    ∃ o, s.origins[e]? = some o ∧ o.config.name = provider ∧
      ∀ sc C, o.config.requestsPerMin sc = some C →
        (s.admitted e sc : ℚ) ≤
          C + (C : ℚ) / 60 * secsSince (tMax (events tr)) (o.born provider sc).1 := by
  have hinv := inv_of_run h
  obtain ⟨o, ho, hname⟩ := hinv.entries l hl provider e he
  refine ⟨o, ho, hname, fun sc C hC => ?_⟩
  obtain ⟨p, hp⟩ : ∃ p, s.store[e]? = some p := by
    have hlt := (List.getElem?_eq_some_iff.mp ho).1
    rw [hinv.lengths] at hlt
    exact ⟨_, List.getElem?_eq_getElem hlt⟩
  obtain ⟨b, -, hf⟩ := (hinv.accounts e o p ho hp).bucket hC
  rw [hname] at hf
  calc (s.admitted e sc : ℚ) ≤ heldTokens s.calls e sc :=
        hinv.admitted_le_held ho (by rw [hC]; rfl)
    _ ≤ _ := hf.taken_le

/-- A provider of one request a minute, two of them asked for at once. -/
def oneAMinute : List Event :=
  [.reconcile 0 [{ ProviderConfig.plain "p" "openai" none with limits := some ⟨some 1, none, none⟩ }]
      (fun _ => false) fun _ _ => (0, 0),
    .tryAdmit 1 "p" "m" 0, .tryAdmit 1 "p" "m" 0,
    .advance 0, .advance 1, .advance 0, .advance 1, .advance 0, .advance 1, .advance 0, .advance 1,
    .advance 0, .advance 1, .advance 0, .advance 1]

/-- One of the two is admitted, and the bound allows one. -/
theorem admitted_le_one_a_minute :
    let s := oneAMinute.foldl step empty
    s.admitted 0 none = 1 ∧ ∃ o, s.origins[0]? = some o ∧ o.config.name = "p" ∧
      ∀ sc (C : ℕ), o.config.requestsPerMin sc = some C →
        (s.admitted 0 sc : ℚ) ≤ C + (C : ℚ) / 60 *
          secsSince (tMax (events (trace step empty oneAMinute))) (o.born "p" sc).1 := by
  have hsome : ((oneAMinute.foldl step empty).limiters[1]?.bind fun l => l.providers.lookup "p") =
      some 0 := by decide +kernel
  obtain ⟨l, hl, he⟩ := Option.bind_eq_some_iff.mp hsome
  exact ⟨by decide +kernel,
    admitted_le (Run.exec (· = empty) step empty oneAMinute) (List.mem_of_getElem? hl) he⟩

end LimiterState

end Llmleaf
