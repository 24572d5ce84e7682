import Llmleaf.RateLimit.Waits

/-!
# Refusals that unwind

The wait of a refusal is computed under the bucket's lock. A duration has less than `2 ^ 64`
seconds, a debt may take longer to refill: then the caller unwinds, the lock is poisoned, and every
later access of the bucket unwinds too.

- `Payable`: the debt of a bucket refills within the longest duration.
- `ProviderLimits.Each`: what holds of every bucket of an entry; `each_step` is the step lemma.
- `intact_iff`: in the interleaved runs, no lock is ever poisoned and no call unwinds exactly if
  every bucket is payable when a call asks it for capacity.
-/

namespace Llmleaf

open Runs

/-! ## One bucket -/

/-- The nanoseconds of the longest duration, and one. -/
def endOfTime : ℕ := 2 ^ 64 * nanos

theorem lt_endOfTime_iff {q : ℚ} (hq : 0 ≤ q) :
    roundHalfEven q < endOfTime ↔ q < endOfTime - 1 / 2 := by
  have hfloor := Nat.floor_le hq
  have hlt := Nat.lt_floor_add_one q
  constructor
  · intro h
    by_contra hge
    rw [not_lt] at hge
    rw [roundHalfEven_eq] at h
    have hpred : (endOfTime : ℚ) = ((endOfTime - 1 : ℕ) : ℚ) + 1 := by
      norm_num [endOfTime, nanos]
    rcases lt_or_ge ⌊q⌋₊ endOfTime with hle | hle
    · -- the floor is the largest duration, and odd
      have heq : ⌊q⌋₊ = endOfTime - 1 := by
        have hmore : ((endOfTime - 1 : ℕ) : ℚ) < ⌊q⌋₊ + 1 := by linarith
        have := Nat.cast_lt (α := ℚ) |>.mp (by rwa [← Nat.cast_add_one] at hmore)
        omega
      have hodd : (endOfTime - 1) % 2 = 1 := by decide
      have hup : RoundsUp q := by
        rcases lt_or_eq_of_le (show (1 : ℚ) / 2 ≤ q - ⌊q⌋₊ by rw [heq]; linarith) with h' | h'
        · exact .inl h'
        · exact .inr ⟨h'.symm, by rw [heq, hodd]⟩
      rw [if_pos hup, heq] at h
      exact absurd h (by decide)
    · split at h <;> omega
  · intro h
    have hround := roundHalfEven_le hq
    exact Nat.cast_lt (α := ℚ) |>.mp (by linarith)

namespace TokenBucket

variable {b : TokenBucket} {C : ℕ} {n deficit : ℚ} {now : Instant}

theorem waitFor_eq_none_iff (hd : 0 ≤ deficit) :
    b.waitFor deficit = none ↔
      0 < b.refillPerSec ∧ (endOfTime - 1 / 2 : ℚ) ≤ b.accrual deficit := by
  unfold waitFor
  split
  · rename_i h
    exact iff_of_false (by simp) fun hc => absurd hc.1 (not_lt.mpr h)
  · rename_i h
    rw [not_le] at h
    have hround := lt_endOfTime_iff (accrual_nonneg h hd)
    rw [max_eq_left hd, and_iff_right h, fromSecsF64, ← not_lt, ← hround]
    exact ite_eq_right_iff.trans (by simp [accrual, endOfTime])

/-- The debt of a bucket refills within the longest duration. -/
def Payable (b : TokenBucket) (now : Instant) : Prop :=
  b.refillPerSec ≤ 0 ∨ b.accrual (-(b.refill now).tokens + epsilon) < endOfTime - 1 / 2

instance (b : TokenBucket) (now : Instant) : Decidable (b.Payable now) :=
  inferInstanceAs (Decidable (_ ∨ _))

theorem waitFor_refill (b : TokenBucket) (now : Instant) (d : ℚ) :
    (b.refill now).waitFor d = b.waitFor d := by
  have hrate : (b.refill now).refillPerSec = b.refillPerSec := congrArg Prod.snd (b.size_refill now)
  rw [waitFor, waitFor, hrate]

/-- Refusing goes well exactly if the wait is a duration. -/
theorem refuse_eq {α : Type} (b : TokenBucket) (d : ℚ) (h : b.waitFor d ≠ none) :
    (b.refuse d : Reply α × TokenBucket) = (.wait ((b.waitFor d).getD 0), b) := by
  unfold refuse
  split
  · rename_i d' hd
    rw [hd]
    rfl
  · rename_i hd
    exact absurd hd h

/-- A bucket of request tokens: of a configured size, never in debt. -/
structure Requests (b : TokenBucket) : Prop where
  size : ∃ C : ℕ, b.size = perMinuteSize C
  nonneg : 0 ≤ b.tokens

theorem Requests.refill (h : b.Requests) (now : Instant) : (b.refill now).Requests where
  size := by rw [size_refill]; exact h.size
  nonneg := by
    obtain ⟨C, hC⟩ := h.size
    unfold TokenBucket.refill
    split
    · rename_i hpos
      have hrate : (0 : ℚ) ≤ b.refillPerSec := by
        rw [show b.refillPerSec = (C : ℚ) / 60 from congrArg Prod.snd hC]
        exact div_nonneg (Nat.cast_nonneg C) (by norm_num)
      have hcap : (0 : ℚ) ≤ b.capacity := by
        rw [show b.capacity = C from congrArg Prod.fst hC]
        exact Nat.cast_nonneg C
      exact le_min (add_nonneg h.nonneg (mul_nonneg hpos.le hrate)) hcap
    · exact h.nonneg

/-- The next request token accrues in a minute at most. -/
theorem Requests.waitFor (h : b.Requests) : b.waitFor (1 - b.tokens) ≠ none := by
  obtain ⟨C, hC⟩ := h.size
  have hrate : b.refillPerSec = (C : ℚ) / 60 := congrArg Prod.snd hC
  intro hnone
  by_cases hd : (0 : ℚ) ≤ 1 - b.tokens
  · obtain ⟨hr, hlong⟩ := (waitFor_eq_none_iff hd).mp hnone
    have hC1 : (1 : ℚ) ≤ C := by
      have hpos : (0 : ℚ) < C := by
        rw [hrate] at hr
        linarith
      exact_mod_cast hpos
    have hminute : b.accrual (1 - b.tokens) ≤ 60 * nanos := by
      rw [accrual]
      refine mul_le_mul_of_nonneg_right ?_ nanos_pos.le
      rw [div_le_iff₀ hr, hrate]
      linarith [h.nonneg]
    have hend : (endOfTime : ℚ) = 18446744073709551616 * nanos := by norm_num [endOfTime]
    have hn : (1 : ℚ) ≤ nanos := by norm_num [nanos]
    linarith
  · -- no token is missing
    rw [TokenBucket.waitFor] at hnone
    split at hnone
    · cases hnone
    · rw [max_eq_right (not_le.mp hd).le, zero_div] at hnone
      exact absurd hnone (by decide +kernel)

theorem tryTake_sound (h : b.Requests) (now : Instant) :
    (b.tryTake 1 now).2.Requests ∧ (b.tryTake 1 now).2.poisoned = b.poisoned ∧
      (b.poisoned = false → (b.tryTake 1 now).1 ≠ .panic) := by
  unfold tryTake
  split
  · rename_i hp
    exact ⟨h, rfl, fun hp' => absurd hp (by simp [hp'])⟩
  · have hr := h.refill now
    dsimp only
    split
    · rename_i hle
      exact ⟨⟨hr.size, sub_nonneg.mpr hle⟩, poisoned_refill, fun _ => by simp⟩
    · rw [refuse_eq _ _ hr.waitFor]
      exact ⟨hr, poisoned_refill, fun _ => by simp⟩

theorem refund_sound (h : b.Requests) (now : Instant) :
    (b.refund 1 now).2.Requests ∧ (b.refund 1 now).2.poisoned = b.poisoned ∧
      (b.poisoned = false → (b.refund 1 now).1 ≠ .panic) := by
  unfold refund
  split
  · rename_i hp
    exact ⟨h, rfl, fun hp' => absurd hp (by simp [hp'])⟩
  · have hr := h.refill now
    obtain ⟨C, hC⟩ := hr.size
    refine ⟨⟨⟨C, hC⟩, ?_⟩, poisoned_refill, fun _ => by simp⟩
    have hcap : (b.refill now).capacity = C := congrArg Prod.fst hC
    refine le_min (add_nonneg hr.nonneg zero_le_one) ?_
    rw [hcap]
    exact Nat.cast_nonneg C

/-- **A bucket is asked for capacity without unwinding exactly if it is payable.** -/
theorem hasCapacity_panic_iff (hb : b.size = perMinuteSize C) (hp : b.poisoned = false) :
    (b.hasCapacity now).1 = .panic ↔ ¬ b.Payable now := by
  have hcap : b.capacity = C := congrArg Prod.fst hb
  unfold hasCapacity
  rw [if_neg (by simp [hp])]
  dsimp only
  split
  · rename_i hpos
    refine iff_of_false (by simp) (not_not.mpr ?_)
    -- what is not missing accrues at once
    rw [Payable, or_iff_not_imp_left, not_le]
    intro hr
    have hless : b.accrual (-(b.refill now).tokens + epsilon) ≤ b.accrual epsilon :=
      mul_le_mul_of_nonneg_right (div_le_div_of_nonneg_right (by linarith) hr.le) nanos_pos.le
    have hend : (1 : ℚ) ≤ endOfTime := by norm_num [endOfTime, nanos]
    linarith [accrual_epsilon hb hr]
  · rename_i hneg
    have hd : (0 : ℚ) ≤ -(b.refill now).tokens + epsilon := by
      have heps : (0 : ℚ) < epsilon := by norm_num [epsilon]
      linarith
    have hnone := waitFor_eq_none_iff (b := b) hd
    rw [← waitFor_refill b now] at hnone
    rw [Payable, not_or, not_le, not_lt, ← hnone]
    unfold refuse
    split
    · rename_i d hd
      simp [hd]
    · rename_i hd
      simp [hd]

theorem hasCapacity_poisoned (hp : b.poisoned = false) (h : (b.hasCapacity now).1 ≠ .panic) :
    (b.hasCapacity now).2.poisoned = false := by
  unfold hasCapacity at h ⊢
  rw [if_neg (by simp [hp])] at h ⊢
  dsimp only at h ⊢
  split at h
  · rename_i hpos
    rw [if_pos hpos, poisoned_refill, hp]
  · rename_i hneg
    rw [if_neg hneg]
    unfold refuse at h ⊢
    split at h
    · exact poisoned_refill.trans hp
    · exact absurd rfl h

@[simp] theorem poisoned_debit : (b.debit n now).2.poisoned = b.poisoned := by
  unfold debit
  split
  · rfl
  · exact poisoned_refill

end TokenBucket

/-! ## Entries -/

namespace ProviderLimits

/-- Every request bucket of an entry is as `R` says, every token bucket as `T` says. -/
def Each (R T : TokenBucket → Prop) (p : ProviderLimits) : Prop :=
  ∀ sc l, p.limit sc = some l → (∀ b, l.rpm = some b → R b) ∧ ∀ b, l.tpm = some b → T b

variable {R T : TokenBucket → Prop} {p : ProviderLimits} {sc : Scope} {now : Instant}

theorem Each.rpm (h : p.Each R T) {b : TokenBucket} (hb : p.rpm sc = some b) : R b := by
  obtain ⟨l, hl, hb⟩ := Option.bind_eq_some_iff.mp hb
  exact (h sc l hl).1 b hb

theorem Each.tpm (h : p.Each R T) {b : TokenBucket} (hb : p.tpm sc = some b) : T b := by
  obtain ⟨l, hl, hb⟩ := Option.bind_eq_some_iff.mp hb
  exact (h sc l hl).2 b hb

theorem Each.setLimit (h : p.Each R T) {l : Limit} (hr : ∀ b, l.rpm = some b → R b)
    (ht : ∀ b, l.tpm = some b → T b) : (p.setLimit sc l).Each R T := by
  intro sc' l' hl'
  rw [limit_setLimit] at hl'
  split at hl'
  · cases hl'
    exact ⟨hr, ht⟩
  · exact h sc' l' hl'

theorem Each.setRpm (h : p.Each R T) {b : TokenBucket} (hb : R b) : (p.setRpm sc b).Each R T := by
  unfold ProviderLimits.setRpm
  split
  · rename_i l hl
    refine h.setLimit (fun b' hb' => ?_) (h sc l hl).2
    cases hb'
    exact hb
  · exact h

theorem Each.setTpm (h : p.Each R T) {b : TokenBucket} (hb : T b) : (p.setTpm sc b).Each R T := by
  unfold ProviderLimits.setTpm
  split
  · rename_i l hl
    refine h.setLimit (h sc l hl).1 fun b' hb' => ?_
    cases hb'
    exact hb
  · exact h

theorem Each.setSem (h : p.Each R T) (s : Semaphore) : (p.setSem sc s).Each R T := by
  unfold ProviderLimits.setSem
  split
  · rename_i l hl
    exact h.setLimit (h sc l hl).1 (h sc l hl).2
  · exact h

theorem Each.acquire (h : p.Each R T) (sc : Scope) : (p.acquire sc).2.Each R T := by
  unfold ProviderLimits.acquire
  split
  · exact h
  · split
    · exact h.setSem _
    · exact h

theorem acquire_ne_panic (p : ProviderLimits) (sc : Scope) : (p.acquire sc).1 ≠ .panic := by
  unfold acquire
  split
  · simp
  · split <;> simp

theorem Each.release (h : p.Each R T) (sc : Scope) : (p.release sc).Each R T := by
  unfold ProviderLimits.release
  split
  · exact h
  · exact h.setSem _

theorem Each.floor (h : p.Each R T) (hb : ∀ b, p.tpm sc = some b → T (b.hasCapacity now).2) :
    (p.floor sc now).2.Each R T := by
  unfold ProviderLimits.floor
  split
  · exact h
  · rename_i b hsc
    exact h.setTpm (hb b hsc)

theorem floor_panic_iff : (p.floor sc now).1 = .panic ↔
    ∃ b, p.tpm sc = some b ∧ (b.hasCapacity now).1 = .panic := by
  unfold floor
  split
  · rename_i hnone
    simp [hnone]
  · rename_i b hb
    simp [hb]

theorem Each.take (h : p.Each R T) (hb : ∀ b, p.rpm sc = some b → R (b.tryTake 1 now).2) :
    (p.take sc now).2.Each R T := by
  unfold ProviderLimits.take
  split
  · exact h
  · rename_i b hsc
    have hb := hb b hsc
    split <;> rename_i heq <;> rw [heq] at hb <;> exact h.setRpm hb

theorem take_panic_iff : (p.take sc now).1 = .panic ↔
    ∃ b, p.rpm sc = some b ∧ (b.tryTake 1 now).1 = .panic := by
  unfold take
  split
  · rename_i hnone
    simp [hnone]
  · rename_i b hb
    split <;> rename_i heq <;> simp [hb, heq]

theorem Each.refund (h : p.Each R T) (hb : ∀ b, p.rpm sc = some b → R (b.refund 1 now).2) :
    (p.refund sc now).2.Each R T := by
  unfold ProviderLimits.refund
  split
  · exact h
  · rename_i b hsc
    exact h.setRpm (hb b hsc)

theorem refund_panic_iff : (p.refund sc now).1 = .panic ↔
    ∃ b, p.rpm sc = some b ∧ (b.refund 1 now).1 = .panic := by
  unfold refund
  split
  · rename_i hnone
    simp [hnone]
  · rename_i b hb
    simp [hb]

theorem Each.debit (h : p.Each R T) {tokens : ℕ}
    (hb : ∀ b, p.tpm sc = some b → T (b.debit tokens now).2) :
    (p.debit sc tokens now).2.Each R T := by
  unfold ProviderLimits.debit
  split
  · exact h
  · rename_i b hsc
    exact h.setTpm (hb b hsc)

end ProviderLimits

/-! ## One operation -/

namespace Call

open ProviderLimits

variable {R T : TokenBucket → Prop} {p : ProviderLimits} {c : Call}

/-- The scope a call asks for token capacity next. -/
def asks (c : Call) : Option Scope :=
  match c.pc with
  | .tpmGlobal => some none
  | .tpmModel => some (some c.model)
  | _ => none

/-- The call has unwound. -/
def Unwound (c : Call) : Prop :=
  c.pc = .dropModel .panic ∨ c.pc = .dropGlobal .panic ∨ c.pc = .refused .panic

/-- The bucket that the call asks next is payable. -/
def Affords (p : ProviderLimits) (c : Call) : Prop :=
  ∀ sc b, c.asks = some sc → p.tpm sc = some b → b.Payable c.now

/-- An operation of an admission keeps what takes, refunds and the floor it asks keep. -/
theorem step_each (h : p.Each R T) (htake : ∀ b, R b → R (b.tryTake 1 c.now).2)
    (hrefund : ∀ b, R b → R (b.refund 1 c.now).2)
    (hfloor : ∀ sc b, c.asks = some sc → p.tpm sc = some b → T (b.hasCapacity c.now).2) :
    (step p c).1.Each R T := by
  have hacquire := fun sc => h.acquire sc
  have hfloor := fun sc hsc => h.floor (hfloor sc · hsc)
  have htake : ∀ sc, (p.take sc c.now).2.Each R T := fun sc =>
    h.take fun b hb => htake b (h.rpm hb)
  have hrefund : (p.refund none c.now).2.Each R T := h.refund fun b hb => hrefund b (h.rpm hb)
  unfold asks at hfloor
  rcases hpc : c.pc with _ | _ | _ | _ | _ | _ | d | why | why | why | _ | _ <;>
    simp only [step, hpc] at hfloor ⊢
  case semGlobal =>
    have h' := hacquire none
    rcases ha : p.acquire none with ⟨_ | d | _, p'⟩ <;> rw [ha] at h' <;> exact h'
  case semModel =>
    have h' := hacquire (some c.model)
    rcases ha : p.acquire (some c.model) with ⟨_ | d | _, p'⟩ <;> rw [ha] at h' <;> exact h'
  case tpmGlobal =>
    have h' := hfloor none rfl
    rcases ha : p.floor none c.now with ⟨_ | d | _, p'⟩ <;> rw [ha] at h' <;> exact h'
  case tpmModel =>
    have h' := hfloor (some c.model) rfl
    rcases ha : p.floor (some c.model) c.now with ⟨_ | d | _, p'⟩ <;> rw [ha] at h' <;> exact h'
  case rpmGlobal =>
    have h' := htake none
    rcases ha : p.take none c.now with ⟨_ | d | _, p'⟩ <;> rw [ha] at h' <;> exact h'
  case rpmModel =>
    have h' := htake (some c.model)
    rcases ha : p.take (some c.model) c.now with ⟨_ | d | _, p'⟩ <;> rw [ha] at h'
    · exact h'
    · dsimp only
      split <;> exact h'
    · exact h'
  case refundGlobal =>
    have h' := hrefund
    rcases ha : p.refund none c.now with ⟨_ | _ | _, p'⟩ <;> rw [ha] at h' <;> exact h'
  case dropModel =>
    split
    · exact h.release _
    · exact h
  case dropGlobal =>
    split
    · exact h.release _
    · exact h
  all_goals exact h

theorem drop_each (h : p.Each R T) : (drop p c).1.Each R T := by
  unfold drop
  split
  · dsimp only
    have hglobal : (if c.heldGlobal then p.release none else p).Each R T := by
      split
      · exact h.release _
      · exact h
    split
    · exact hglobal.release _
    · exact hglobal
  · exact h

/-- **A call unwinds exactly where it asks a bucket that is not payable.** -/
theorem step_unwound_iff (h : p.Each (fun b => b.Requests ∧ b.poisoned = false)
    fun b => (∃ C : ℕ, b.size = perMinuteSize C) ∧ b.poisoned = false) (hc : ¬ c.Unwound) :
    (step p c).2.Unwound ↔ ¬ c.Affords p := by
  have hfloor (sc : Scope) (hsc : c.asks = some sc) :
      (p.floor sc c.now).1 = .panic ↔ ¬ c.Affords p := by
    rw [floor_panic_iff, Affords]
    constructor
    · rintro ⟨b, hb, hpanic⟩ hall
      obtain ⟨⟨C, hC⟩, hp⟩ := h.tpm hb
      exact (TokenBucket.hasCapacity_panic_iff hC hp).mp hpanic (hall sc b hsc hb)
    · intro hall
      by_contra hnone
      refine hall fun sc' b hsc' hb => ?_
      obtain rfl : sc = sc' := Option.some.inj (hsc.symm.trans hsc')
      obtain ⟨⟨C, hC⟩, hp⟩ := h.tpm hb
      by_contra hpay
      exact hnone ⟨b, hb, (TokenBucket.hasCapacity_panic_iff hC hp).mpr hpay⟩
  have htake (sc : Scope) : (p.take sc c.now).1 ≠ .panic := by
    rw [Ne, take_panic_iff]
    rintro ⟨b, hb, hpanic⟩
    exact (b.tryTake_sound (h.rpm hb).1 c.now).2.2 (h.rpm hb).2 hpanic
  have hrefund : (p.refund none c.now).1 ≠ .panic := by
    rw [Ne, refund_panic_iff]
    rintro ⟨b, hb, hpanic⟩
    exact (b.refund_sound (h.rpm hb).1 c.now).2.2 (h.rpm hb).2 hpanic
  have hacquire := p.acquire_ne_panic
  have hidle (hasks : c.asks = none) : c.Affords p := fun sc b hsc => by simp [hasks] at hsc
  unfold asks at hfloor hidle
  unfold Unwound at hc ⊢
  rcases hpc : c.pc with _ | _ | _ | _ | _ | _ | d | why | why | why | _ | _ <;>
    simp only [step, hpc] at hfloor hidle hc ⊢
  case semGlobal =>
    have hidle := hidle trivial
    rcases ha : p.acquire none with ⟨_ | d | _, p'⟩
    · simp [hidle]
    · simp [fail, hidle]
    · exact absurd (congrArg Prod.fst ha) (hacquire none)
  case semModel =>
    have hidle := hidle trivial
    rcases ha : p.acquire (some c.model) with ⟨_ | d | _, p'⟩
    · simp [hidle]
    · simp [fail, hidle]
    · exact absurd (congrArg Prod.fst ha) (hacquire (some c.model))
  case tpmGlobal =>
    have hf := hfloor none rfl
    rcases ha : p.floor none c.now with ⟨_ | d | _, p'⟩ <;> rw [ha] at hf <;> simpa [fail] using hf
  case tpmModel =>
    have hf := hfloor (some c.model) rfl
    rcases ha : p.floor (some c.model) c.now with ⟨_ | d | _, p'⟩ <;> rw [ha] at hf <;>
      simpa [fail] using hf
  case rpmGlobal =>
    have hidle := hidle trivial
    rcases ha : p.take none c.now with ⟨_ | d | _, p'⟩
    · simp [hidle]
    · simp [fail, hidle]
    · exact absurd (congrArg Prod.fst ha) (htake none)
  case rpmModel =>
    have hidle := hidle trivial
    rcases ha : p.take (some c.model) c.now with ⟨_ | d | _, p'⟩
    · simp [hidle]
    · dsimp only
      split <;> simp [fail, hidle]
    · exact absurd (congrArg Prod.fst ha) (htake (some c.model))
  case refundGlobal =>
    have hidle := hidle trivial
    rcases ha : p.refund none c.now with ⟨_ | _ | _, p'⟩
    · simp [hidle]
    · simp [hidle]
    · exact absurd (congrArg Prod.fst ha) hrefund
  case admitted | released =>
    have hidle := hidle trivial
    simp [hidle]
  all_goals
    have hidle := hidle trivial
    simpa [hidle, hpc] using hc

theorem drop_unwound_iff : (drop p c).2.Unwound ↔ c.Unwound := by
  unfold drop
  split
  · rename_i hpc
    simp [Unwound, hpc]
  · rfl

theorem fresh_not_unwound (entry : ℕ) (model : String) (now : Instant) :
    ¬ (fresh entry model now).Unwound := by
  simp [Unwound, fresh]

end Call

/-! ## All entries -/

theorem ProviderLimits.Each.and {R R' T T' : TokenBucket → Prop} {p : ProviderLimits}
    (h : p.Each R T) (h' : p.Each R' T') :
    p.Each (fun b => R b ∧ R' b) fun b => T b ∧ T' b := fun sc l hl =>
  ⟨fun b hb => ⟨(h sc l hl).1 b hb, (h' sc l hl).1 b hb⟩,
    fun b hb => ⟨(h sc l hl).2 b hb, (h' sc l hl).2 b hb⟩⟩

theorem ProviderLimits.Each.mono {R R' T T' : TokenBucket → Prop} {p : ProviderLimits}
    (h : p.Each R T) (hr : ∀ b, R b → R' b) (ht : ∀ b, T b → T' b) : p.Each R' T' := fun sc l hl =>
  ⟨fun b hb => hr b ((h sc l hl).1 b hb), fun b hb => ht b ((h sc l hl).2 b hb)⟩

theorem ProviderLimits.each_fromConfig {R T : TokenBucket → Prop}
    (hr : ∀ C t, R (.perMinute C t)) (ht : ∀ C t, T (.perMinute C t)) (p : ProviderConfig)
    (born : Births) : (fromConfig p born).Each R T := by
  have hlimit : ∀ (cfg : RateLimitConfig) (b : Instant × Instant),
      (∀ b', (Limit.fromConfig cfg b).rpm = some b' → R b') ∧
        ∀ b', (Limit.fromConfig cfg b).tpm = some b' → T b' := by
    intro cfg b
    constructor
    · intro b' hb'
      obtain ⟨C, -, rfl⟩ := Option.map_eq_some_iff.mp hb'
      exact hr C b.1
    · intro b' hb'
      obtain ⟨C, -, rfl⟩ := Option.map_eq_some_iff.mp hb'
      exact ht C b.2
  intro sc l hl
  cases sc with
  | none =>
    cases hl
    unfold fromConfig
    cases p.limits with
    | none => exact ⟨fun b hb => (by cases hb), fun b hb => (by cases hb)⟩
    | some cfg => exact hlimit cfg _
  | some model =>
    simp only [fromConfig, limit, Finmap.lookup_mapVal, Option.map_eq_some_iff] at hl
    obtain ⟨cfg, -, rfl⟩ := hl
    exact hlimit cfg _

namespace LimiterState

/-- What holds of the buckets of all entries. -/
def Buckets (R T : TokenBucket → Prop) (s : LimiterState) : Prop := ∀ p ∈ s.store, p.Each R T

variable {R T : TokenBucket → Prop} {s : LimiterState}

theorem Buckets.set (h : s.Buckets R T) {e : ℕ} {p : ProviderLimits} (hp : p.Each R T)
    (calls : List Call) : Buckets R T { s with store := s.store.set e p, calls := calls } := by
  intro q hq
  rcases List.mem_or_eq_of_mem_set hq with hq | rfl
  · exact h q hq
  · exact hp

/-- What new buckets have, and takes, refunds, debits and the floor that is asked keep, all buckets
have after a step. -/
theorem Buckets.step (h : s.Buckets R T) (hr : ∀ C t, R (.perMinute C t))
    (ht : ∀ C t, T (.perMinute C t)) (htake : ∀ b now, R b → R (b.tryTake 1 now).2)
    (hrefund : ∀ b now, R b → R (b.refund 1 now).2)
    (hdebit : ∀ b (tokens : ℕ) now, T b → T (b.debit tokens now).2) {e : Event}
    (hfloor : ∀ i c p sc b, e = .advance i → s.calls[i]? = some c → s.store[c.entry]? = some p →
      c.asks = some sc → p.tpm sc = some b → T (b.hasCapacity c.now).2) :
    (s.step e).Buckets R T := by
  cases e with
  | tryAdmit limiter provider model now =>
    simp only [LimiterState.step]
    split
    · exact h
    · exact h
  | advance i =>
    simp only [LimiterState.step, act]
    split
    · exact h
    rename_i c hc
    split
    · exact h
    rename_i p hp
    exact h.set (Call.step_each (h p (List.mem_of_getElem? hp)) (htake · c.now) (hrefund · c.now)
      fun sc b hsc hb => hfloor i c p sc b rfl hc hp hsc hb) _
  | drop i =>
    simp only [LimiterState.step, act]
    split
    · exact h
    split
    · exact h
    rename_i p hp
    exact h.set (Call.drop_each (h p (List.mem_of_getElem? hp))) _
  | debit limiter provider sc tokens now =>
    simp only [LimiterState.step]
    split
    · exact h
    split
    · exact h
    rename_i p hp
    have hp := h p (List.mem_of_getElem? hp)
    exact h.set (hp.debit fun b hb => hdebit b tokens now (hp.tpm hb)) s.calls
  | reconcile limiter providers unchanged born =>
    simp only [LimiterState.step]
    split
    · exact h
    · rename_i l hl
      intro q hq
      rw [LimiterState.reconcile] at hq
      dsimp only at hq
      rw [(l.reconciled_spec s.store providers unchanged born).1] at hq
      rcases List.mem_append.mp hq with hq | hq
      · exact h q hq
      · obtain ⟨cfg, -, rfl⟩ := List.mem_map.mp hq
        exact ProviderLimits.each_fromConfig hr ht cfg born

/-- Every bucket has a configured size, and no request bucket is in debt. -/
abbrev Sound (s : LimiterState) : Prop :=
  s.Buckets TokenBucket.Requests fun b => ∃ C : ℕ, b.size = perMinuteSize C

theorem requests_perMinute (C : ℕ) (t : Instant) : (TokenBucket.perMinute C t).Requests :=
  ⟨⟨C, rfl⟩, Nat.cast_nonneg C⟩

theorem Sound.step (h : s.Sound) (e : Event) : (s.step e).Sound := by
  refine Buckets.step h requests_perMinute (fun C _ => ⟨C, rfl⟩)
    (fun b now hb => (b.tryTake_sound hb now).1) (fun b now hb => (b.refund_sound hb now).1)
    (fun b tokens now hb => ?_) fun i c p sc b _ _ hp _ hb => ?_
  · rwa [TokenBucket.size_debit]
  · rw [TokenBucket.size_hasCapacity]
    exact (h p (List.mem_of_getElem? hp)).tpm hb

/-- No lock is poisoned, and no call has unwound. -/
structure Intact (s : LimiterState) : Prop where
  locks : s.Buckets (fun b => b.poisoned = false) fun b => b.poisoned = false
  calls : ∀ c ∈ s.calls, ¬ c.Unwound

/-- The token bucket that a call asks in this step, if any, is payable. -/
def Affordable (s : LimiterState) (e : Event) : Prop :=
  ∀ i c p, e = .advance i → s.calls[i]? = some c → s.store[c.entry]? = some p → c.Affords p

theorem Intact.locks_step (h : s.Intact) (hs : s.Sound) {e : Event} (he : s.Affordable e) :
    (s.step e).Buckets (fun b => b.poisoned = false) fun b => b.poisoned = false := by
  have hboth : s.Buckets (fun b => b.Requests ∧ b.poisoned = false)
      fun b => (∃ C : ℕ, b.size = perMinuteSize C) ∧ b.poisoned = false :=
    fun p hp => (hs p hp).and (h.locks p hp)
  have hstep := Buckets.step hboth (fun C t => ⟨requests_perMinute C t, rfl⟩)
    (fun C t => ⟨⟨C, rfl⟩, rfl⟩)
    (fun b now hb => ⟨(b.tryTake_sound hb.1 now).1, (b.tryTake_sound hb.1 now).2.1.trans hb.2⟩)
    (fun b now hb => ⟨(b.refund_sound hb.1 now).1, (b.refund_sound hb.1 now).2.1.trans hb.2⟩)
    (fun b tokens now hb => ⟨by rw [TokenBucket.size_debit]; exact hb.1,
      TokenBucket.poisoned_debit.trans hb.2⟩)
    (e := e) fun i c p sc b hi hc hp hsc hb => by
      obtain ⟨⟨C, hC⟩, hlock⟩ := (hboth p (List.mem_of_getElem? hp)).tpm hb
      refine ⟨⟨C, by rw [TokenBucket.size_hasCapacity, hC]⟩, ?_⟩
      refine TokenBucket.hasCapacity_poisoned hlock fun hpanic => ?_
      exact (TokenBucket.hasCapacity_panic_iff hC hlock).mp hpanic (he i c p hi hc hp sc b hsc hb)
  exact fun p hp => (hstep p hp).mono (fun b hb => hb.2) fun b hb => hb.2

/-- **A step leaves the limiter intact exactly if the bucket it asks is payable.** -/
theorem Intact.step_iff (h : s.Intact) (hs : s.Sound) (e : Event) :
    (s.step e).Intact ↔ s.Affordable e := by
  have hunwound : ∀ i c p, s.calls[i]? = some c → s.store[c.entry]? = some p →
      ((Call.step p c).2.Unwound ↔ ¬ c.Affords p) := fun i c p hc hp =>
    Call.step_unwound_iff ((hs p (List.mem_of_getElem? hp)).and (h.locks p (List.mem_of_getElem? hp)))
      (h.calls c (List.mem_of_getElem? hc))
  constructor
  · rintro h' i c p rfl hc hp
    by_contra hnot
    refine h'.calls _ ?_ ((hunwound i c p hc hp).mpr hnot)
    simp only [LimiterState.step, act, hc, hp]
    exact List.mem_set (List.getElem?_eq_some_iff.mp hc).1 _
  · intro he
    refine ⟨h.locks_step hs he, fun c' hc' => ?_⟩
    cases e with
    | tryAdmit limiter provider model now =>
      simp only [LimiterState.step] at hc'
      split at hc'
      · exact h.calls c' hc'
      · rcases List.mem_append.mp hc' with hc' | hc'
        · exact h.calls c' hc'
        · rw [List.mem_singleton.mp hc']
          exact Call.fresh_not_unwound _ _ _
    | advance i =>
      simp only [LimiterState.step, act] at hc'
      split at hc'
      · exact h.calls c' hc'
      rename_i c hc
      split at hc'
      · exact h.calls c' hc'
      rename_i p hp
      rcases List.mem_or_eq_of_mem_set hc' with hc' | rfl
      · exact h.calls c' hc'
      · exact fun hu => (hunwound i c p hc hp).mp hu (he i c p rfl hc hp)
    | drop i =>
      simp only [LimiterState.step, act] at hc'
      split at hc'
      · exact h.calls c' hc'
      rename_i c hc
      split at hc'
      · exact h.calls c' hc'
      rcases List.mem_or_eq_of_mem_set hc' with hc' | rfl
      · exact h.calls c' hc'
      · rw [Call.drop_unwound_iff]
        exact h.calls c (List.mem_of_getElem? hc)
    | debit limiter provider sc tokens now =>
      simp only [LimiterState.step] at hc'
      split at hc'
      · exact h.calls c' hc'
      split at hc'
      · exact h.calls c' hc'
      · exact h.calls c' hc'
    | reconcile limiter providers unchanged born =>
      simp only [LimiterState.step] at hc'
      split at hc'
      · exact h.calls c' hc'
      · exact h.calls c' hc'

theorem sound_of_run {tr : List (Step LimiterState Event)} (h : Run system empty tr s) : s.Sound :=
  h.invariant (fun p hp => by cases hp) fun t e t' ht hstep => hstep ▸ ht.step e

/-- **In every run the limiter stays intact exactly if every bucket is payable when a call asks it.** -/
theorem intact_iff {tr : List (Step LimiterState Event)} (h : Run system empty tr s) :
    (∀ x ∈ tr, x.post.Intact) ↔ ∀ x ∈ tr, x.pre.Affordable x.event := by
  have hsound : ∀ x ∈ tr, x.post.Sound := fun x hx => by
    obtain ⟨tr', hrun, hstep⟩ := h.before_of_mem x hx
    exact sound_of_run (hrun.snoc hstep)
  have hstart : empty.Sound ∧ empty.Intact :=
    ⟨fun p hp => (by cases hp), fun p hp => (by cases hp), fun c hc => (by cases hc)⟩
  rw [← h.reached_iff (P := fun s => s.Sound ∧ s.Intact) (C := Affordable) hstart]
  · exact forall₂_congr fun x hx => (and_iff_right (hsound x hx)).symm
  · rintro t e t' ⟨hs, hi⟩ rfl
    rw [and_iff_right (hs.step e), hi.step_iff hs]

/-- A provider of one token a minute, a report of `4 * 10 ^ 17` tokens, and the next admission. -/
def hugeReport : List Event :=
  [.reconcile 0 [{ ProviderConfig.plain "p" "openai" none with limits := some ⟨none, some 1, none⟩ }]
      (fun _ => false) fun _ _ => (0, 0),
    .debit 1 "p" none (4 * 10 ^ 17) 0,
    .tryAdmit 1 "p" "m" 0, .advance 0, .advance 0, .advance 0]

theorem intact_iff_hugeReport :
    (∀ x ∈ trace step empty hugeReport, x.post.Intact) ↔
      ∀ x ∈ trace step empty hugeReport, x.pre.Affordable x.event :=
  intact_iff (Run.exec (· = empty) step empty hugeReport)

/-- The wait for the debt to refill is no duration: the admission unwinds. -/
theorem not_intact_hugeReport : ¬ (hugeReport.foldl step empty).Intact := by
  intro h
  have hpc : (hugeReport.foldl step empty).calls[0]?.map (·.pc) = some (.dropModel .panic) := by
    decide +kernel
  obtain ⟨c, hc, hpanic⟩ := Option.map_eq_some_iff.mp hpc
  exact h.calls c (List.mem_of_getElem? hc) (.inl hpanic)

end LimiterState

end Llmleaf
