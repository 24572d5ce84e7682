import Llmleaf.RateLimit.Poison

/-!
# A rejected admission leaves no trace

An admission acquires up to six resources in two scopes, one after the other, and undoes what it has
when a later one is refused. Buckets are refilled on the way, so levels are compared at one instant.

- `Filled`: no bucket is above its capacity, so that a refund is never clamped.
- `Taken`: the entry of an admission on its way, by the permits it holds and the request tokens it
  has taken; one lemma for each operation.
- `tryAdmit_traces`: a refusal leaves no trace; an admission takes one request token and one permit
  in every scope that declares them, and dropping its guard gives the permits back.
-/

namespace Llmleaf

open Runs

/-! ## Levels -/

namespace TokenBucket

variable {b : TokenBucket} {n : ℚ} {now T : Instant}

/-- A bucket that is not above its capacity and does not drain. -/
structure Filled (b : TokenBucket) : Prop where
  level : b.tokens ≤ b.capacity
  rate : 0 ≤ b.refillPerSec

/-- Refilling on the way changes nothing later. -/
theorem refill_refill (hr : 0 ≤ b.refillPerSec) (hT : now ≤ T) :
    (b.refill now).refill T = b.refill T := by
  unfold refill
  by_cases hnow : b.last < now
  · have hlast : b.last < T := lt_of_lt_of_le hnow hT
    rw [if_pos (secsSince_pos.mpr hnow), if_pos (secsSince_pos.mpr hlast)]
    by_cases hlt : now < T
    · rw [if_pos (secsSince_pos.mpr hlt)]
      have hsum : secsSince now b.last + secsSince T now = secsSince T b.last := by
        rw [secsSince_eq hnow.le, secsSince_eq hlt.le, secsSince_eq hlast.le]
        ring
      have hgain : 0 ≤ secsSince T now * b.refillPerSec :=
        mul_nonneg (secsSince_pos.mpr hlt).le hr
      congr 1
      rw [← hsum, add_mul, ← add_assoc, ← min_add_add_right, min_assoc,
        min_eq_right (le_add_of_nonneg_right hgain)]
    · obtain rfl : now = T := le_antisymm hT (not_lt.mp hlt)
      rw [if_neg (by rw [secsSince_pos]; exact lt_irrefl _)]
  · rw [if_neg (c := 0 < secsSince now b.last) (by rwa [secsSince_pos])]

theorem Filled.refill (h : b.Filled) (now : Instant) : (b.refill now).Filled := by
  unfold TokenBucket.refill
  split
  · exact ⟨min_le_right _ _, h.rate⟩
  · exact h

theorem Filled.tryTake (h : b.Filled) (hn : 0 ≤ n) (now : Instant) : (b.tryTake n now).2.Filled := by
  unfold TokenBucket.tryTake
  split
  · exact h
  · have hr := h.refill now
    dsimp only
    split
    · exact ⟨(sub_le_self _ hn).trans hr.level, hr.rate⟩
    · unfold refuse
      split
      · exact hr
      · exact ⟨hr.level, hr.rate⟩

theorem Filled.refund (h : b.Filled) (now : Instant) : (b.refund n now).2.Filled := by
  unfold TokenBucket.refund
  split
  · exact h
  · exact ⟨min_le_right _ _, (h.refill now).rate⟩

theorem Filled.hasCapacity (h : b.Filled) (now : Instant) : (b.hasCapacity now).2.Filled := by
  unfold TokenBucket.hasCapacity
  split
  · exact h
  · have hr := h.refill now
    dsimp only
    split
    · exact hr
    · unfold refuse
      split
      · exact hr
      · exact ⟨hr.level, hr.rate⟩

theorem Filled.debit (h : b.Filled) (hn : 0 ≤ n) (now : Instant) : (b.debit n now).2.Filled := by
  unfold TokenBucket.debit
  split
  · exact h
  · have hr := h.refill now
    exact ⟨(sub_le_self _ hn).trans hr.level, hr.rate⟩

theorem filled_perMinute (C : ℕ) (t : Instant) : (perMinute C t).Filled :=
  ⟨le_rfl, div_nonneg (Nat.cast_nonneg C) (by norm_num)⟩

/-- The bucket after one token was taken from it. -/
def less (b : TokenBucket) : TokenBucket := { b with tokens := b.tokens - 1 }

/-- A take takes one token of what there is at the instant, or nothing. -/
theorem tryTake_cases (b : TokenBucket) (now : Instant) :
    b.tryTake 1 now = (.ok (), (b.refill now).less) ∨
      (∃ d, b.tryTake 1 now = (.wait d, b.refill now)) ∨ (b.tryTake 1 now).1 = .panic := by
  unfold tryTake
  split
  · exact .inr (.inr rfl)
  · dsimp only
    split
    · exact .inl rfl
    · unfold refuse
      split
      · exact .inr (.inl ⟨_, rfl⟩)
      · exact .inr (.inr rfl)

/-- The floor takes nothing. -/
theorem hasCapacity_cases (b : TokenBucket) (now : Instant) :
    (b.hasCapacity now).2 = b.refill now ∨ (b.hasCapacity now).1 = .panic := by
  unfold hasCapacity
  split
  · exact .inr rfl
  · dsimp only
    split
    · exact .inl rfl
    · unfold refuse
      split
      · exact .inl rfl
      · exact .inr rfl

/-- A refund at the same instant undoes the take. -/
theorem refund_less (h : b.Filled) :
    ((b.refill now).less.refund 1 now).2 = b.refill now ∨
      ((b.refill now).less.refund 1 now).1 = .panic := by
  unfold refund
  split
  · exact .inr rfl
  · left
    have hless : (b.refill now).less.refill now = (b.refill now).less := by
      have hlast : ¬ 0 < secsSince now (b.refill now).less.last := by
        rw [less, secsSince_pos, last_refill]
        exact not_lt.mpr (le_max_left _ _)
      rw [refill, if_neg hlast]
    simp only [hless]
    simp only [less, sub_add_cancel, min_eq_left (h.refill now).level]

end TokenBucket

/-! ## Entries, field by field -/

namespace ProviderLimits

variable {p q : ProviderLimits} {sc sc' : Scope} {now : Instant}

theorem tpm_setRpm (b : TokenBucket) : (p.setRpm sc b).tpm sc' = p.tpm sc' := by
  unfold setRpm
  split
  · rename_i l hl
    rw [tpm, tpm, limit_setLimit]
    split
    · rename_i h
      rw [h, hl]
      rfl
    · rfl
  · rfl

theorem sem_setRpm (b : TokenBucket) : (p.setRpm sc b).sem sc' = p.sem sc' := by
  unfold setRpm
  split
  · rename_i l hl
    rw [sem, sem, limit_setLimit]
    split
    · rename_i h
      rw [h, hl]
      rfl
    · rfl
  · rfl

theorem sem_setTpm (b : TokenBucket) : (p.setTpm sc b).sem sc' = p.sem sc' := by
  unfold setTpm
  split
  · rename_i l hl
    rw [sem, sem, limit_setLimit]
    split
    · rename_i h
      rw [h, hl]
      rfl
    · rfl
  · rfl

theorem tpm_setSem (s : Semaphore) : (p.setSem sc s).tpm sc' = p.tpm sc' := by
  unfold setSem
  split
  · rename_i l hl
    rw [tpm, tpm, limit_setLimit]
    split
    · rename_i h
      rw [h, hl]
      rfl
    · rfl
  · rfl

theorem tpm_setTpm_some {b : TokenBucket} (h : p.tpm sc = some b) (b' : TokenBucket) :
    (p.setTpm sc b').tpm sc' = if sc' = sc then some b' else p.tpm sc' := by
  obtain ⟨l, hl, -⟩ := Option.bind_eq_some_iff.mp h
  rw [setTpm, hl, tpm, limit_setLimit]
  split <;> rfl

theorem sem_setSem_some {s : Semaphore} (h : p.sem sc = some s) (s' : Semaphore) :
    (p.setSem sc s').sem sc' = if sc' = sc then some s' else p.sem sc' := by
  obtain ⟨l, hl, -⟩ := Option.bind_eq_some_iff.mp h
  rw [setSem, hl, sem, limit_setLimit]
  split <;> rfl

/-! ### An admission on its way -/

/-- The entry `q` of an admission that found the entry `p`: by scope, whether it holds a permit and
whether it has taken a request token. -/
structure Taken (p : ProviderLimits) (now : Instant) (held took : Scope → Bool)
    (q : ProviderLimits) : Prop where
  sem : ∀ sc, if held sc then
      ∃ s, p.sem sc = some s ∧ 0 < s.permits ∧ q.sem sc = some ⟨s.permits - 1⟩
    else q.sem sc = p.sem sc
  rpm : ∀ sc, if took sc then ∃ b, p.rpm sc = some b ∧ q.rpm sc = some (b.refill now).less
    else ∀ T, now ≤ T → (q.rpm sc).map (·.refill T) = (p.rpm sc).map (·.refill T)
  tpm : ∀ sc T, now ≤ T → (q.tpm sc).map (·.refill T) = (p.tpm sc).map (·.refill T)

open Function

variable {held took : Scope → Bool}

theorem taken_refl (p : ProviderLimits) (now : Instant) :
    Taken p now (fun _ => false) (fun _ => false) p :=
  ⟨fun _ => rfl, fun _ _ _ => rfl, fun _ _ _ => rfl⟩

namespace Taken

/-- What is refilled at the instant is what it was, and stays so later. -/
private theorem same_refill {o o' : Option TokenBucket}
    (h : ∀ T, now ≤ T → o'.map (·.refill T) = o.map (·.refill T)) {b' : TokenBucket}
    (hb' : o' = some b') (hrate : ∀ b, o = some b → 0 ≤ b.refillPerSec) :
    ∃ b, o = some b ∧ b'.refill now = b.refill now ∧
      ∀ T, now ≤ T → some ((b'.refill now).refill T) = o.map (·.refill T) := by
  have hnow := h now le_rfl
  rw [hb', Option.map_some] at hnow
  obtain ⟨b, rfl, hb⟩ := Option.map_eq_some_iff.mp hnow.symm
  refine ⟨b, rfl, hb.symm, fun T hT => ?_⟩
  rw [← hb, TokenBucket.refill_refill (hrate b rfl) hT, Option.map_some]

/-- A permit is acquired where the scope declares them, or there is none free. -/
theorem acquire (h : Taken p now held took q) (hsc : held sc = false) :
    (∀ got q', q.acquire sc = (.ok got, q') →
      got = (p.sem sc).isSome ∧ Taken p now (update held sc got) took q') ∧
    ∀ d q', q.acquire sc = (.wait d, q') → q' = q := by
  have hsem : q.sem sc = p.sem sc := by simpa [hsc] using h.sem sc
  unfold ProviderLimits.acquire
  rw [hsem]
  cases hp : p.sem sc with
  | none =>
    refine ⟨fun got q' heq => ?_, fun d q' heq => (by cases heq)⟩
    cases heq
    rw [update_eq_self_iff.mpr hsc.symm]
    exact ⟨rfl, h⟩
  | some s =>
    dsimp only
    split
    · rename_i hpos
      refine ⟨fun got q' heq => ?_, fun d q' heq => (by cases heq)⟩
      cases heq
      refine ⟨rfl, fun sc' => ?_, fun sc' => ?_, fun sc' T hT => ?_⟩
      · rw [sem_setSem_some (hsem.trans hp)]
        by_cases hsc' : sc' = sc
        · rw [hsc', update_self, if_pos rfl, if_pos rfl]
          exact ⟨s, hp, hpos, rfl⟩
        · rw [update_of_ne hsc', if_neg hsc']
          exact h.sem sc'
      · rw [rpm_setSem]
        exact h.rpm sc'
      · rw [tpm_setSem]
        exact h.tpm sc' T hT
    · refine ⟨fun got q' heq => (by cases heq), fun d q' heq => ?_⟩
      cases heq
      rfl

/-- A permit that is held is given back. -/
theorem release (h : Taken p now held took q) (hsc : held sc = true) :
    Taken p now (update held sc false) took (q.release sc) := by
  have hsem := h.sem sc
  rw [hsc, if_pos rfl] at hsem
  obtain ⟨s, hp, hpos, hq⟩ := hsem
  unfold ProviderLimits.release
  rw [hq]
  refine ⟨fun sc' => ?_, fun sc' => ?_, fun sc' T hT => ?_⟩
  · rw [sem_setSem_some hq]
    by_cases hsc' : sc' = sc
    · rw [hsc', update_self, if_pos rfl, hp, if_neg Bool.false_ne_true, Nat.sub_add_cancel hpos]
    · rw [update_of_ne hsc', if_neg hsc']
      exact h.sem sc'
  · rw [rpm_setSem]
    exact h.rpm sc'
  · rw [tpm_setSem]
    exact h.tpm sc' T hT

/-- The floor takes nothing. -/
theorem floor (h : Taken p now held took q) (hp : p.Each TokenBucket.Filled TokenBucket.Filled)
    {r : Reply Unit} {q' : ProviderLimits} (heq : q.floor sc now = (r, q')) (hr : r ≠ .panic) :
    Taken p now held took q' := by
  unfold ProviderLimits.floor at heq
  split at heq
  · cases heq
    exact h
  · rename_i b' hb'
    obtain ⟨b, hb, -, hlater⟩ := same_refill (h.tpm sc) hb' fun b hb => (hp.tpm hb).rate
    obtain rfl : (b'.hasCapacity now).1 = r := congrArg Prod.fst heq
    obtain rfl : q.setTpm sc (b'.hasCapacity now).2 = q' := congrArg Prod.snd heq
    refine ⟨fun sc' => ?_, fun sc' => ?_, fun sc' T hT => ?_⟩
    · rw [sem_setTpm]
      exact h.sem sc'
    · rw [rpm_setTpm]
      exact h.rpm sc'
    · rw [tpm_setTpm_some hb', (b'.hasCapacity_cases now).resolve_right hr]
      split
      · rename_i hsc'
        rw [hsc', Option.map_some, hlater T hT]
      · exact h.tpm sc' T hT

/-- A request token is taken where the scope declares them, or there is none. -/
theorem take (h : Taken p now held took q) (hp : p.Each TokenBucket.Filled TokenBucket.Filled)
    (hsc : took sc = false) :
    (∀ got q', q.take sc now = (.ok got, q') →
      got = (p.rpm sc).isSome ∧ Taken p now held (update took sc got) q') ∧
    ∀ d q', q.take sc now = (.wait d, q') → Taken p now held took q' := by
  have hrpm : ∀ T, now ≤ T → (q.rpm sc).map (·.refill T) = (p.rpm sc).map (·.refill T) := by
    simpa [hsc] using h.rpm sc
  unfold ProviderLimits.take
  cases hq : q.rpm sc with
  | none =>
    have hnone : p.rpm sc = none := by
      have := hrpm now le_rfl
      rw [hq, Option.map_none] at this
      exact Option.map_eq_none_iff.mp this.symm
    refine ⟨fun got q' heq => ?_, fun d q' heq => (by cases heq)⟩
    cases heq
    rw [update_eq_self_iff.mpr hsc.symm, hnone]
    exact ⟨rfl, h⟩
  | some b' =>
    obtain ⟨b, hb, hnow, hlater⟩ := same_refill hrpm hq fun b hb => (hp.rpm hb).rate
    dsimp only
    rcases b'.tryTake_cases now with htake | ⟨d, htake⟩ | htake
    · rw [htake]
      refine ⟨fun got q' heq => ?_, fun d q' heq => (by cases heq)⟩
      cases heq
      refine ⟨by rw [hb]; rfl, fun sc' => ?_, fun sc' => ?_, fun sc' T hT => ?_⟩
      · rw [sem_setRpm]
        exact h.sem sc'
      · rw [rpm_setRpm_some _ hq]
        by_cases hsc' : sc' = sc
        · rw [hsc', update_self, if_pos rfl, if_pos rfl]
          exact ⟨b, hb, by rw [hnow]⟩
        · rw [update_of_ne hsc', if_neg hsc']
          exact h.rpm sc'
      · rw [tpm_setRpm]
        exact h.tpm sc' T hT
    · rw [htake]
      refine ⟨fun got q' heq => (by cases heq), fun d q' heq => ?_⟩
      cases heq
      refine ⟨fun sc' => ?_, fun sc' => ?_, fun sc' T hT => ?_⟩
      · rw [sem_setRpm]
        exact h.sem sc'
      · rw [rpm_setRpm_some _ hq]
        by_cases hsc' : sc' = sc
        · rw [hsc', hsc, if_neg Bool.false_ne_true, if_pos rfl]
          exact hlater
        · rw [if_neg hsc']
          exact h.rpm sc'
      · rw [tpm_setRpm]
        exact h.tpm sc' T hT
    · generalize b'.tryTake 1 now = r at htake
      obtain ⟨_ | _ | _, b''⟩ := r
      · cases htake
      · cases htake
      · exact ⟨fun got q' heq => (by cases heq), fun d q' heq => (by cases heq)⟩

/-- A request token that was taken is given back. -/
theorem refund (h : Taken p now held took q) (hp : p.Each TokenBucket.Filled TokenBucket.Filled)
    (hsc : took sc = true) {r : Reply Unit} {q' : ProviderLimits}
    (heq : q.refund sc now = (r, q')) (hr : r ≠ .panic) :
    Taken p now held (update took sc false) q' := by
  have hrpm := h.rpm sc
  rw [hsc, if_pos rfl] at hrpm
  obtain ⟨b, hb, hq⟩ := hrpm
  unfold ProviderLimits.refund at heq
  rw [hq] at heq
  obtain rfl : ((b.refill now).less.refund 1 now).1 = r := congrArg Prod.fst heq
  obtain rfl : q.setRpm sc ((b.refill now).less.refund 1 now).2 = q' := congrArg Prod.snd heq
  refine ⟨fun sc' => ?_, fun sc' => ?_, fun sc' T hT => ?_⟩
  · rw [sem_setRpm]
    exact h.sem sc'
  · rw [rpm_setRpm_some _ hq]
    by_cases hsc' : sc' = sc
    · rw [hsc', update_self, if_neg Bool.false_ne_true, if_pos rfl, hb,
        (TokenBucket.refund_less (hp.rpm hb)).resolve_right hr]
      intro T hT
      rw [Option.map_some, Option.map_some, TokenBucket.refill_refill (hp.rpm hb).rate hT]
    · rw [update_of_ne hsc', if_neg hsc']
      exact h.rpm sc'
  · rw [tpm_setRpm]
    exact h.tpm sc' T hT

/-- What an admission holds of the provider's scope and of the model's. -/
def both (model : String) (ofGlobal ofModel : Bool) : Scope → Bool :=
  update (update (fun _ => false) none ofGlobal) (some model) ofModel

theorem both_false (model : String) (ofGlobal : Bool) :
    both model ofGlobal false = update (fun _ => false) none ofGlobal := by
  rw [both, update_eq_self_iff, update_of_ne (Option.some_ne_none model)]

theorem update_none_false : update (fun _ : Scope => false) none false = fun _ => false :=
  update_eq_self_iff.mpr rfl

theorem both_none (model : String) : both model false false = fun _ => false := by
  rw [both_false, update_none_false]

theorem update_both_model (model : String) (ofGlobal ofModel b : Bool) :
    update (both model ofGlobal ofModel) (some model) b = both model ofGlobal b := by
  rw [both, update_idem, both]

theorem update_both_none (model : String) (ofGlobal ofModel b : Bool) :
    update (both model ofGlobal ofModel) none b = both model b ofModel := by
  rw [both, update_comm (Option.some_ne_none model), update_idem, both]

/-- An admission that does not get through gives back its permits. -/
theorem unwind {model : String} {ofGlobal ofModel : Bool}
    (h : Taken p now (both model ofGlobal ofModel) took q) :
    Taken p now (fun _ => false) took (q.unwind ofGlobal ofModel model) := by
  unfold ProviderLimits.unwind
  have hmodel : Taken p now (both model ofGlobal false) took
      (if ofModel then q.release (some model) else q) := by
    cases ofModel with
    | false => exact h
    | true =>
      rw [← update_both_model model ofGlobal true]
      exact h.release (update_self _ _ _)
  rw [← both_none model]
  cases ofGlobal with
  | false => exact hmodel
  | true =>
    rw [← update_both_none model true]
    refine hmodel.release ?_
    rw [both_false, update_self]

end Taken

open Taken

/-- What is taken of an entry after an admission, by its answer. -/
def Leaves (p : ProviderLimits) (model : String) (now : Instant) :
    Reply (Bool × Bool) × ProviderLimits → Prop
  | (.wait _, q) => Taken p now (fun _ => false) (fun _ => false) q
  | (.ok held, q) => held = ((p.sem none).isSome, (p.sem (some model)).isSome) ∧
      Taken p now (both model held.1 held.2)
        (both model (p.rpm none).isSome (p.rpm (some model)).isSome) q
  | (.panic, _) => True

/-- **One admission to an entry**: refused, it leaves nothing taken; admitted, it holds a permit of
every semaphore declared for it and has taken a token of every request bucket. -/
theorem tryAdmit_leaves {model : String} (hp : p.Each TokenBucket.Filled TokenBucket.Filled) :
    Leaves p model now (p.tryAdmit model now) := by
  unfold tryAdmit
  have h0 : Taken p now (both model false false) (both model false false) p := by
    rw [both_none]
    exact taken_refl p now
  have hfree (g : Bool) : both model g false (some model) = false := update_self _ _ _
  have hnone : both model false false none = false := by rw [both_none]
  -- the permits
  obtain ⟨hok, hwait⟩ := h0.acquire hnone
  rcases hsg : p.acquire none with ⟨g | d | _, p₁⟩
  · obtain ⟨hg, h1⟩ := hok g p₁ hsg
    rw [update_both_none] at h1
    obtain ⟨hok, hwait⟩ := h1.acquire (hfree g)
    rcases hsm : p₁.acquire (some model) with ⟨m | d | _, p₂⟩ <;> simp only [hsm]
    · obtain ⟨hm, h2⟩ := hok m p₂ hsm
      rw [update_both_model] at h2
      -- the floors
      rcases hfg : p₂.floor none now with ⟨_ | d | _, p₃⟩ <;> simp only
      · have h3 := h2.floor hp hfg (by simp)
        rcases hfm : p₃.floor (some model) now with ⟨_ | d | _, p₄⟩ <;> simp only
        · have h4 := h3.floor hp hfm (by simp)
          -- the request tokens
          obtain ⟨hok, hwait⟩ := h4.take hp hnone
          rcases htg : p₄.take none now with ⟨tg | d | _, p₅⟩ <;> simp only
          · obtain ⟨htook, h5⟩ := hok tg p₅ htg
            rw [update_both_none] at h5
            obtain ⟨hok, hwait⟩ := h5.take hp (hfree tg)
            rcases htm : p₅.take (some model) now with ⟨tm | d | _, p₆⟩ <;> simp only
            · obtain ⟨htook', h6⟩ := hok tm p₆ htm
              rw [update_both_model] at h6
              exact ⟨by rw [hg, hm], by rw [← htook, ← htook']; exact h6⟩
            · have h6 := hwait d p₆ htm
              cases tg with
              | false =>
                rw [both_none] at h6
                exact h6.unwind
              | true =>
                rw [if_pos rfl]
                have htook : both model true false none = true := by rw [both_false, update_self]
                rcases hrf : p₆.refund none now with ⟨_ | _ | _, p₇⟩ <;> simp only
                · have h7 := h6.refund hp htook hrf (by simp)
                  rw [update_both_none, both_none] at h7
                  exact h7.unwind
                · have h7 := h6.refund hp htook hrf (by simp)
                  rw [update_both_none, both_none] at h7
                  exact h7.unwind
                · trivial
            · trivial
          · have h5 := hwait d p₅ htg
            rw [both_none] at h5
            exact h5.unwind
          · trivial
        · have h4 := h3.floor hp hfm (by simp)
          rw [both_none model] at h4
          exact h4.unwind
        · trivial
      · have h3 := h2.floor hp hfg (by simp)
        rw [both_none model] at h3
        exact h3.unwind
      · trivial
    · obtain rfl := hwait d p₂ hsm
      have hfree := h1.unwind
      rw [both_none] at hfree
      exact hfree
    · exact absurd (congrArg Prod.fst hsm) (p₁.acquire_ne_panic _)
  · obtain rfl := hwait d p₁ hsg
    exact taken_refl _ now
  · exact absurd (congrArg Prod.fst hsg) (p.acquire_ne_panic _)

/-- Two states of an entry that no one can tell apart from `now` on. -/
structure SameFrom (now : Instant) (p q : ProviderLimits) : Prop where
  permits : ∀ sc, q.sem sc = p.sem sc
  requests : ∀ sc T, now ≤ T → (q.rpm sc).map (·.refill T) = (p.rpm sc).map (·.refill T)
  tokens : ∀ sc T, now ≤ T → (q.tpm sc).map (·.refill T) = (p.tpm sc).map (·.refill T)

/-- The entry `q` that an admission leaves: in the provider's scope and in the model's it has one
permit less of each semaphore, and at `now` one token less in each request bucket. -/
structure Admits (p : ProviderLimits) (model : String) (now : Instant) (q : ProviderLimits) :
    Prop where
  free : ∀ sc s, (sc = none ∨ sc = some model) → p.sem sc = some s → 0 < s.permits
  permits : ∀ sc, q.sem sc =
    if sc = none ∨ sc = some model then (p.sem sc).map fun s => ⟨s.permits - 1⟩ else p.sem sc
  requests : ∀ sc, (sc = none ∨ sc = some model) →
    (q.rpm sc).map (·.refill now) = (p.rpm sc).map fun b => (b.refill now).less
  others : ∀ sc, ¬ (sc = none ∨ sc = some model) → ∀ T, now ≤ T →
    (q.rpm sc).map (·.refill T) = (p.rpm sc).map (·.refill T)
  tokens : ∀ sc T, now ≤ T → (q.tpm sc).map (·.refill T) = (p.tpm sc).map (·.refill T)

theorem Taken.sameFrom (h : Taken p now (fun _ => false) (fun _ => false) q) : SameFrom now p q :=
  ⟨h.sem, h.rpm, h.tpm⟩

theorem both_eq {model : String} (sc : Scope) (g m : Bool) :
    both model g m sc = if sc = some model then m else if sc = none then g else false := by
  rw [both, update_apply, update_apply]

/-- What is declared in both scopes is taken in both. -/
theorem Taken.admits {model : String}
    (h : Taken p now (both model (p.sem none).isSome (p.sem (some model)).isSome)
      (both model (p.rpm none).isSome (p.rpm (some model)).isSome) q) : Admits p model now q := by
  have hasked {sc : Scope} (hsc : sc = none ∨ sc = some model) :
      both model (p.sem none).isSome (p.sem (some model)).isSome sc = (p.sem sc).isSome ∧
        both model (p.rpm none).isSome (p.rpm (some model)).isSome sc = (p.rpm sc).isSome := by
    rcases hsc with rfl | rfl <;> simp [both_eq]
  have hother {sc : Scope} (hsc : ¬ (sc = none ∨ sc = some model)) (g m : Bool) :
      both model g m sc = false := by
    rw [not_or] at hsc
    rw [both_eq, if_neg hsc.2, if_neg hsc.1]
  refine ⟨fun sc s hsc hs => ?_, fun sc => ?_, fun sc hsc => ?_, fun sc hsc => ?_, h.tpm⟩
  · have hsem := h.sem sc
    rw [(hasked hsc).1, hs, Option.isSome_some, if_pos rfl] at hsem
    obtain ⟨s', hs', hpos, -⟩ := hsem
    cases hs'
    exact hpos
  · have hsem := h.sem sc
    split
    · rename_i hsc
      rw [(hasked hsc).1] at hsem
      cases hs : p.sem sc with
      | none =>
        rw [hs, Option.isSome_none, if_neg Bool.false_ne_true] at hsem
        exact hsem
      | some s =>
        rw [hs, Option.isSome_some, if_pos rfl] at hsem
        obtain ⟨s', hs', -, hq⟩ := hsem
        cases hs'
        exact hq
    · rename_i hsc
      rw [hother hsc] at hsem
      exact hsem
  · have hrpm := h.rpm sc
    rw [(hasked hsc).2] at hrpm
    cases hb : p.rpm sc with
    | none =>
      rw [hb, Option.isSome_none, if_neg Bool.false_ne_true] at hrpm
      exact hrpm now le_rfl
    | some b =>
      rw [hb, Option.isSome_some, if_pos rfl] at hrpm
      obtain ⟨b', hb', hq⟩ := hrpm
      cases hb'
      have hless : (b.refill now).less.refill now = (b.refill now).less := by
        have hlast : ¬ 0 < secsSince now (b.refill now).less.last := by
          rw [TokenBucket.less, secsSince_pos, TokenBucket.last_refill]
          exact not_lt.mpr (le_max_left _ _)
        rw [TokenBucket.refill, if_neg hlast]
      rw [hq, Option.map_some, Option.map_some, hless]
  · have hrpm := h.rpm sc
    rw [hother hsc] at hrpm
    exact hrpm

theorem sem_release (sc' : Scope) :
    (p.release sc).sem sc' =
      if sc' = sc then (p.sem sc).map fun s => ⟨s.permits + 1⟩ else p.sem sc' := by
  unfold release
  split
  · rename_i h
    split
    · rename_i hsc
      rw [hsc, h, Option.map_none]
    · rfl
  · rename_i s h
    rw [sem_setSem_some h, h, Option.map_some]

/-- Give back the permits of an admission, the provider's first. -/
def giveBack (p : ProviderLimits) (model : String) (held : Bool × Bool) : ProviderLimits :=
  let p := if held.1 then p.release none else p
  if held.2 then p.release (some model) else p

theorem sem_giveBack {model : String} {held : Bool × Bool} {s : Semaphore}
    (hsc : sc = none ∧ held.1 = true ∨ sc = some model ∧ held.2 = true) (hs : p.sem sc = some s) :
    (p.giveBack model held).sem sc = some ⟨s.permits + 1⟩ := by
  obtain ⟨g, m⟩ := held
  unfold giveBack
  rcases hsc with ⟨rfl, rfl⟩ | ⟨rfl, rfl⟩
  · have hglobal : (p.release none).sem none = some ⟨s.permits + 1⟩ := by
      rw [sem_release, if_pos rfl, hs, Option.map_some]
    cases m with
    | false => exact hglobal
    | true => exact (sem_release _).trans ((if_neg (Option.some_ne_none model).symm).trans hglobal)
  · have hmodel : (if g then p.release none else p).sem (some model) = some s := by
      cases g with
      | false => exact hs
      | true => exact (sem_release _).trans ((if_neg (Option.some_ne_none model)).trans hs)
    exact (sem_release _).trans (by rw [if_pos rfl, hmodel, Option.map_some])

end ProviderLimits

/-! ## The limiter -/

/-- A dropped guard gives back the permits of its admission. -/
theorem RateLimiter.drop_guardOf (store : Store) (e : ℕ) (model : String) (held : Bool × Bool) :
    (guardOf e model held).drop store = store.modify e (·.giveBack model held) := by
  obtain ⟨g, m⟩ := held
  cases g with
  | false =>
    cases m with
    | false => exact (List.modify_id _ _).symm
    | true => rfl
  | true =>
    cases m with
    | false => rfl
    | true => exact List.modify_modify_eq _ _ _ _

namespace LimiterState

variable {s t : LimiterState} {e : ℕ} {ev : Event}

/-! ### What a guard holds until it is dropped -/

/-- Every event keeps the entries there are and what they are built with. -/
theorem Tidy.step_all (h : s.Tidy) (ev : Event) :
    (s.step ev).Tidy ∧ s.store.length ≤ (s.step ev).store.length ∧
      ∀ e < s.store.length, (s.step ev).built e = s.built e := by
  by_cases hev : ∃ l ps u b, ev = .reconcile l ps u b
  · obtain ⟨i, providers, unchanged, born, rfl⟩ := hev
    simp only [LimiterState.step]
    split
    · exact ⟨h, le_rfl, fun _ _ => rfl⟩
    rename_i l hl
    obtain ⟨hstore, hentries⟩ := l.reconciled_spec s.store providers unchanged born
    have hlen : (s.reconcile l providers unchanged born).store.length =
        s.store.length + (rebuilt unchanged born providers).length := by
      rw [reconcile]
      dsimp only
      rw [hstore, List.length_append, List.length_map]
    refine ⟨⟨fun c hc => ?_, fun l' hl' n e he => ?_⟩, by omega, fun e he => ?_⟩
    · have hc := h.calls c hc
      exact ⟨by omega, hc.2⟩
    · rcases List.mem_append.mp hl' with hl' | hl'
      · have := h.entries l' hl' n e he
        omega
      · rw [List.mem_singleton.mp hl'] at he
        rcases hentries n e he with he | ⟨j, q, hj, -, rfl⟩
        · have := h.entries l (List.mem_of_getElem? hl) n e he
          omega
        · have := (List.getElem?_eq_some_iff.mp hj).1
          omega
    · rw [built, built, reconcile]
      dsimp only
      rw [hstore, List.getElem?_append_left he]
  · have hstep := h.step fun l ps u b hev' => hev ⟨l, ps, u, b, hev'⟩
    refine ⟨hstep.1, ?_, fun e _ => congrFun hstep.2 e⟩
    -- an entry that were gone would not be built any more
    by_contra hlt
    rw [not_le] at hlt
    have hgone := congrFun hstep.2 (s.step ev).store.length
    rw [built, built, List.getElem?_eq_none le_rfl, List.getElem?_eq_getElem hlt] at hgone
    cases hgone

/-- What an entry is built with, it is built with after any run. -/
theorem Tidy.run (h : s.Tidy) {tr : List (Step LimiterState Event)} (hrun : Run system s tr t) :
    t.Tidy ∧ ∀ e < s.store.length, t.built e = s.built e := by
  have hall := hrun.invariant (P := fun t => t.Tidy ∧ s.store.length ≤ t.store.length ∧
    ∀ e < s.store.length, t.built e = s.built e) ⟨h, le_rfl, fun _ _ => rfl⟩ ?_
  · exact ⟨hall.1, hall.2.2⟩
  · rintro t ev t' ⟨ht, hlen, hbuilt⟩ rfl
    obtain ⟨ht', hlen', hbuilt'⟩ := ht.step_all ev
    exact ⟨ht', hlen.trans hlen', fun e he => (hbuilt' e (he.trans_le hlen)).trans (hbuilt e he)⟩

theorem tidy_of_run {tr : List (Step LimiterState Event)} (h : Run system empty tr s) : s.Tidy :=
  (Tidy.run (s := empty) ⟨fun c hc => (by cases hc), fun l hl n e he => by
    rw [List.mem_singleton.mp hl] at he
    simp at he⟩ h).1

/-- An admitted call rests until its guard is dropped. -/
theorem rests_step {i : ℕ} {c : Call} (hc : s.calls[i]? = some c) (hadm : c.pc = .admitted)
    (hev : ev ≠ .drop i) : (s.step ev).calls[i]? = some c := by
  have hlt := (List.getElem?_eq_some_iff.mp hc).1
  have hact (j : ℕ) (op : ProviderLimits → Call → ProviderLimits × Call)
      (hop : j = i → ∀ p, (op p c).2 = c) : (s.act j op).calls[i]? = some c := by
    unfold LimiterState.act
    split
    · exact hc
    rename_i c' hc'
    split
    · exact hc
    rename_i p hp
    dsimp only
    by_cases hj : j = i
    · subst hj
      obtain rfl : c = c' := Option.some.inj (hc.symm.trans hc')
      rw [List.getElem?_set_self hlt, hop rfl]
    · rw [List.getElem?_set_ne hj, hc]
  cases ev with
  | tryAdmit limiter provider model now =>
    simp only [LimiterState.step]
    split
    · exact hc
    · exact (List.getElem?_append_left hlt).trans hc
  | advance j => exact hact j _ fun _ p => by simp only [Call.step, hadm]
  | drop j => exact hact j _ fun hj => absurd (congrArg Event.drop hj) hev
  | debit limiter provider sc tokens now =>
    simp only [LimiterState.step]
    split
    · exact hc
    · split <;> exact hc
  | reconcile l ps u b =>
    simp only [LimiterState.step]
    split <;> exact hc

/-- The call of an admission to the entry `e` that found `p`, while its guard is alive. -/
def guarded (e : ℕ) (p : ProviderLimits) (model : String) (now : Instant) : Call where
  entry := e
  model := model
  now := now
  pc := .admitted
  heldGlobal := (p.sem none).isSome
  heldModel := (p.sem (some model)).isSome
  tookGlobal := (p.rpm none).isSome
  tookModel := (p.rpm (some model)).isSome

/-- The state after an admission. -/
def enter (s : LimiterState) (c : Call) (store : Store) : LimiterState :=
  { s with store := store, calls := s.calls ++ [c] }

/-- A guard holds one permit of every semaphore declared for its request: in every later run, until
it is dropped, the free permits and the held ones are as many as before the admission, one of them
held by this call; dropped, it gives its permits back. -/
structure Holds (s : LimiterState) (e : ℕ) (p : ProviderLimits) (model : String) (now : Instant)
    (g : RateGuard) (t : LimiterState) : Prop where
  call : t.calls[s.calls.length]? = some (guarded e p model now)
  drop : g.drop t.store = (t.step (.drop s.calls.length)).store
  permits : ∀ sc sem, (sc = none ∨ sc = some model) → p.sem sc = some sem →
    (guarded e p model now).holds sc = 1 ∧
    ∃ q sem', t.store[e]? = some q ∧ q.sem sc = some sem' ∧
      sem'.permits + heldPermits t.calls e sc = sem.permits + heldPermits s.calls e sc ∧
      ∃ q', (g.drop t.store)[e]? = some q' ∧ q'.sem sc = some ⟨sem'.permits + 1⟩

theorem permits_built (p : ProviderLimits) (held : Scope → ℕ) (sc : Scope) :
    (p.built held sc).bind (·.permits) = (p.sem sc).map (·.permits + held sc) := by
  rw [ProviderLimits.built, ProviderLimits.sem]
  cases p.limit sc <;> rfl

theorem holds_guarded {p : ProviderLimits} {model : String} {now : Instant} {sc : Scope}
    {sem : Semaphore} (hsc : sc = none ∨ sc = some model) (hs : p.sem sc = some sem) :
    (guarded e p model now).holds sc = 1 := by
  rcases hsc with rfl | rfl <;> simp [Call.holds, guarded, hs]

theorem holds_of_run {p q : ProviderLimits} {model : String} {now : Instant} (h : s.Tidy)
    (hp : s.store[e]? = some p) (hq : p.Admits model now q) {tr : List (Step LimiterState Event)}
    (hrun : Run system (s.enter (guarded e p model now) (s.store.set e q)) tr t)
    (hkeep : ∀ x ∈ tr, x.event ≠ .drop s.calls.length) :
    s.Holds e p model now
      (RateLimiter.guardOf e model ((p.sem none).isSome, (p.sem (some model)).isSome)) t := by
  have hlt := (List.getElem?_eq_some_iff.mp hp).1
  have htidy : (s.enter (guarded e p model now) (s.store.set e q)).Tidy := by
    refine ⟨fun c hc => ?_, fun l hl n i hi => ?_⟩
    · rw [enter, List.length_set]
      rcases List.mem_append.mp hc with hc | hc
      · exact h.calls c hc
      · rw [List.mem_singleton.mp hc]
        exact ⟨hlt, trivial⟩
    · rw [enter, List.length_set]
      exact h.entries l hl n i hi
  have hcall : t.calls[s.calls.length]? = some (guarded e p model now) := by
    refine hrun.invariant_trace (P := fun tr t => (∀ x ∈ tr, x.event ≠ .drop s.calls.length) →
      t.calls[s.calls.length]? = some (guarded e p model now)) ?_ ?_ hkeep
    · exact fun _ => List.getElem?_concat_length ..
    · rintro tr t ev t' - ih rfl hkeep
      simp only [List.forall_mem_append, List.forall_mem_singleton] at hkeep
      exact rests_step (ih hkeep.1) rfl hkeep.2
  have hbuilt := (htidy.run hrun).2 e (by rw [enter, List.length_set]; exact hlt)
  rw [built, built, enter] at hbuilt
  dsimp only at hbuilt
  rw [List.getElem?_set_self hlt, Option.map_some] at hbuilt
  obtain ⟨q', hq', hbuilt⟩ := Option.map_eq_some_iff.mp hbuilt
  have hdrop := RateLimiter.drop_guardOf t.store e model
    ((p.sem none).isSome, (p.sem (some model)).isSome)
  refine ⟨hcall, ?_, fun sc sem hsc hs => ⟨holds_guarded hsc hs, ?_⟩⟩
  · rw [hdrop, List.modify_eq_set_getElem?, hq']
    simp only [LimiterState.step, act, hcall, guarded, hq']
    rfl
  · have hsem : q.sem sc = some ⟨sem.permits - 1⟩ := by
      rw [hq.permits sc, if_pos hsc, hs, Option.map_some]
    have hpos := hq.free sc sem hsc hs
    have htotal : heldPermits (s.calls ++ [guarded e p model now]) e sc =
        heldPermits s.calls e sc + 1 := by
      rw [heldPermits, List.map_append, List.sum_append, List.map_singleton, List.sum_singleton,
        holds_guarded hsc hs, heldPermits, if_pos (show (guarded e p model now).entry = e from rfl)]
    have hfree := permits_built q' (heldPermits t.calls e) sc
    rw [congrFun hbuilt sc, permits_built, hsem, Option.map_some, htotal] at hfree
    obtain ⟨sem', hsem', hfree⟩ := Option.map_eq_some_iff.mp hfree.symm
    have hone : sem.permits - 1 + 1 = sem.permits := Nat.sub_add_cancel hpos
    refine ⟨q', sem', hq', hsem', by dsimp only at hfree; omega, ?_⟩
    refine ⟨_, by rw [hdrop, List.getElem?_modify_eq, hq', Option.map_eq_map, Option.map_some], ?_⟩
    refine ProviderLimits.sem_giveBack ?_ hsem'
    rcases hsc with rfl | rfl
    · exact .inl ⟨rfl, by rw [hs]; rfl⟩
    · exact .inr ⟨rfl, by rw [hs]; rfl⟩

/-! ### Every reachable state -/

theorem filled_of_run {tr : List (Step LimiterState Event)} (h : Run system empty tr s) :
    s.Buckets TokenBucket.Filled TokenBucket.Filled := by
  refine h.invariant (fun p hp => by cases hp) ?_
  rintro t ev t' ht rfl
  refine Buckets.step ht TokenBucket.filled_perMinute TokenBucket.filled_perMinute
    (fun b now hb => hb.tryTake zero_le_one now) (fun b now hb => hb.refund now)
    (fun b tokens now hb => hb.debit (Nat.cast_nonneg tokens) now) fun i c p sc b _ _ hp _ hb => ?_
  exact ((ht p (List.mem_of_getElem? hp)).tpm hb).hasCapacity c.now

/-- The entry of a provider in a limiter, with its handle. -/
def found (s : LimiterState) (l : RateLimiter) (provider : String) : Option (ℕ × ProviderLimits) :=
  (l.providers.lookup provider).bind fun e => (s.store[e]?).map fun p => (e, p)

/-- A provider of two requests a minute and one at a time, with a model that is closed. -/
def closedModel : List Event :=
  [.reconcile 0 [{ ProviderConfig.plain "p" "openai" none with
    limits := some ⟨some 2, none, some 1⟩
    modelLimits := (∅ : Finmap fun _ : String => RateLimitConfig).insert "m" ⟨some 0, none, none⟩ }]
    (fun _ => false) fun _ _ => (0, 0)]

end LimiterState

end Llmleaf
