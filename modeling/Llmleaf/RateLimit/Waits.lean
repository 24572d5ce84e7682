import Llmleaf.RateLimit.Bound
import Llmleaf.RateLimit.Size

/-!
# Wait hints

A bucket that refuses says how long to wait: the time in which the missing tokens accrue, rounded to
the nearest nanosecond. Where it is rounded down, the same call is refused again after that wait.

- `roundHalfEven_eq`: rounding, by what it does to the fraction.
- `level_iff`, `above_iff`: what a bucket has reached after a wait.
- `honest_iff`: exactly when a hint is kept, for both calls that refuse.
-/

namespace Llmleaf

/-! ## Rounding -/

/-- The fraction is rounded up. -/
def RoundsUp (q : ℚ) : Prop :=
  1 / 2 < q - ⌊q⌋₊ ∨ q - ⌊q⌋₊ = 1 / 2 ∧ ⌊q⌋₊ % 2 = 1

instance (q : ℚ) : Decidable (RoundsUp q) := inferInstanceAs (Decidable (_ ∨ _))

theorem roundHalfEven_eq (q : ℚ) :
    roundHalfEven q = if RoundsUp q then ⌊q⌋₊ + 1 else ⌊q⌋₊ := by
  unfold roundHalfEven
  dsimp only
  rcases lt_trichotomy (q - ⌊q⌋₊) (1 / 2) with h | h | h
  · have hdown : ¬ RoundsUp q := by rintro (h' | ⟨h', -⟩) <;> linarith
    rw [if_pos h, if_neg hdown]
  · rw [if_neg (by linarith), if_neg (by linarith)]
    rcases Nat.mod_two_eq_zero_or_one ⌊q⌋₊ with hm | hm
    · have hdown : ¬ RoundsUp q := by
        rintro (h' | ⟨-, h'⟩)
        · linarith
        · omega
      rw [if_pos hm, if_neg hdown]
    · have hup : RoundsUp q := .inr ⟨h, hm⟩
      rw [if_neg (by omega), if_pos hup]
  · have hup : RoundsUp q := .inl h
    rw [if_neg (by linarith), if_pos h, if_pos hup]

variable {q y : ℚ}

theorem roundHalfEven_le (hq : 0 ≤ q) : (roundHalfEven q : ℚ) ≤ q + 1 / 2 := by
  have hfloor := Nat.floor_le hq
  rw [roundHalfEven_eq]
  split
  · rename_i h
    rw [Nat.cast_add_one]
    rcases h with h | ⟨h, -⟩ <;> linarith
  · linarith

/-- What is rounded reaches the number exactly if the fraction is zero or rounded up. -/
theorem le_roundHalfEven_iff (hq : 0 ≤ q) : q ≤ roundHalfEven q ↔ q = ⌊q⌋₊ ∨ RoundsUp q := by
  have hfloor := Nat.floor_le hq
  have hlt := Nat.lt_floor_add_one q
  rw [roundHalfEven_eq]
  split
  · rename_i h
    rw [Nat.cast_add_one]
    exact iff_of_true hlt.le (.inr h)
  · rename_i h
    constructor
    · exact fun hle => .inl (le_antisymm hle hfloor)
    · exact fun heq => (heq.resolve_right h).le

/-- What is rounded passes a smaller number exactly if the floor does or the fraction is rounded
up. -/
theorem lt_roundHalfEven_iff (hy : y ≤ q) : y < roundHalfEven q ↔ y < ⌊q⌋₊ ∨ RoundsUp q := by
  have hlt := Nat.lt_floor_add_one q
  rw [roundHalfEven_eq]
  split
  · rename_i h
    rw [Nat.cast_add_one]
    exact iff_of_true (lt_of_le_of_lt hy hlt) (.inr h)
  · rename_i h
    rw [or_iff_left h]

/-- What was rounded and lags behind falls short of the number. -/
theorem lag_eq_zero {y : ℚ} {n lag : ℕ} (hn : 0 < n) (hy : (n : ℚ) < y + 1)
    (h : y ≤ ((n - lag : ℕ) : ℚ)) : lag = 0 := by
  by_contra hlag
  have hlost : n - lag + 1 ≤ n := by omega
  have hcast : ((n - lag : ℕ) : ℚ) + 1 ≤ n := by exact_mod_cast hlost
  linarith

/-- With a positive lag nothing that was rounded reaches the number, without one it depends on the
fraction. -/
theorem reach_iff (hq : 0 < q) (lag : ℕ) :
    0 < roundHalfEven q ∧ q ≤ ((roundHalfEven q - lag : ℕ) : ℚ) ↔
      lag = 0 ∧ (q = ⌊q⌋₊ ∨ RoundsUp q) := by
  have hround := roundHalfEven_le hq.le
  constructor
  · rintro ⟨hpos, hle⟩
    obtain rfl : lag = 0 := lag_eq_zero hpos (by linarith) hle
    exact ⟨rfl, (le_roundHalfEven_iff hq.le).mp hle⟩
  · rintro ⟨rfl, h⟩
    have hle := (le_roundHalfEven_iff hq.le).mpr h
    exact ⟨Nat.cast_pos.mp (lt_of_lt_of_le hq hle), hle⟩

theorem pass_iff (hy : 0 ≤ y) (hle : y ≤ q) (hnear : q < y + 1 / 2) (lag : ℕ) :
    0 < roundHalfEven q ∧ y < ((roundHalfEven q - lag : ℕ) : ℚ) ↔
      lag = 0 ∧ (y < ⌊q⌋₊ ∨ RoundsUp q) := by
  have hround := roundHalfEven_le (hy.trans hle)
  constructor
  · rintro ⟨hpos, hlt⟩
    obtain rfl : lag = 0 := lag_eq_zero hpos (by linarith) hlt.le
    exact ⟨rfl, (lt_roundHalfEven_iff hle).mp hlt⟩
  · rintro ⟨rfl, h⟩
    have hlt := (lt_roundHalfEven_iff hle).mpr h
    exact ⟨Nat.cast_pos.mp (lt_of_le_of_lt hy hlt), hlt⟩

/-! ## After a wait -/

namespace TokenBucket

variable {b : TokenBucket} {C : ℕ} {n deficit : ℚ} {now : Instant} {w : Duration}

theorem last_refill : (b.refill now).last = max now b.last := by
  unfold refill
  split
  · rename_i h
    exact (max_eq_left (secsSince_pos.mp h).le).symm
  · rename_i h
    rw [secsSince_pos, not_lt] at h
    exact (max_eq_right h).symm

@[simp] theorem poisoned_refill : (b.refill now).poisoned = b.poisoned := by
  unfold refill
  split <;> rfl

/-- The nanoseconds in which so many tokens accrue. -/
def accrual (b : TokenBucket) (n : ℚ) : ℚ := n / b.refillPerSec * nanos

theorem accrual_nonneg (hr : 0 < b.refillPerSec) (hn : 0 ≤ n) : 0 ≤ b.accrual n :=
  mul_nonneg (div_nonneg hn hr.le) nanos_pos.le

/-- A wait below the sentinel is the time in which the missing tokens accrue. -/
theorem wait_eq (h : b.waitFor deficit = some w) (hw : w < never) (hd : 0 ≤ deficit) :
    0 < b.refillPerSec ∧ w = roundHalfEven (b.accrual deficit) := by
  unfold waitFor at h
  split at h
  · cases h
    exact absurd hw (lt_irrefl _)
  · rename_i hr
    rw [max_eq_left hd, fromSecsF64] at h
    split at h
    · exact ⟨not_le.mp hr, (Option.some.inj h).symm⟩
    · cases h

/-- A refused take: nothing is taken, and the wait is for what is missing. -/
theorem tryTake_wait (h : (b.tryTake n now).1 = .wait w) :
    b.poisoned = false ∧ (b.refill now).tokens < n ∧
      (b.refill now).waitFor (n - (b.refill now).tokens) = some w ∧
      (b.tryTake n now).2 = b.refill now := by
  unfold tryTake at h ⊢
  split at h
  · cases h
  · rename_i hp
    rw [if_neg hp]
    dsimp only at h ⊢
    split at h
    · cases h
    · rename_i hlt
      rw [if_neg hlt]
      unfold refuse at h ⊢
      split at h
      · rename_i d hd
        cases h
        rw [hd]
        exact ⟨by simpa using hp, not_le.mp hlt, rfl, rfl⟩
      · cases h

/-- A refused floor: the wait is for what is missing and a little more. -/
theorem hasCapacity_wait (h : (b.hasCapacity now).1 = .wait w) :
    b.poisoned = false ∧ (b.refill now).tokens ≤ 0 ∧
      (b.refill now).waitFor (-(b.refill now).tokens + epsilon) = some w ∧
      (b.hasCapacity now).2 = b.refill now := by
  unfold hasCapacity at h ⊢
  split at h
  · cases h
  · rename_i hp
    rw [if_neg hp]
    dsimp only at h ⊢
    split at h
    · cases h
    · rename_i hlt
      rw [if_neg hlt]
      unfold refuse at h ⊢
      split at h
      · rename_i d hd
        cases h
        rw [hd]
        exact ⟨by simpa using hp, not_lt.mp hlt, rfl, rfl⟩
      · cases h

theorem tryTake_ok_iff (hp : b.poisoned = false) :
    (b.tryTake n now).1 = .ok () ↔ n ≤ (b.refill now).tokens := by
  unfold tryTake
  rw [if_neg (by simp [hp])]
  dsimp only
  split
  · rename_i h
    exact iff_of_true rfl h
  · rename_i h
    refine iff_of_false ?_ h
    unfold refuse
    split <;> simp

theorem hasCapacity_ok_iff (hp : b.poisoned = false) :
    (b.hasCapacity now).1 = .ok () ↔ 0 < (b.refill now).tokens := by
  unfold hasCapacity
  rw [if_neg (by simp [hp])]
  dsimp only
  split
  · rename_i h
    exact iff_of_true rfl h
  · rename_i h
    refine iff_of_false ?_ h
    unfold refuse
    split <;> simp

/-- The nanoseconds a bucket gains in a wait: fewer, where it was accessed later than `now`. -/
theorem secsSince_wait (now w last : ℕ) :
    secsSince (now + w) (max now last) = ((w - (last - now) : ℕ) : ℚ) / nanos := by
  have h : now + w - max now last = w - (last - now) := by omega
  rw [secsSince, h]

/-- The bucket after a wait. -/
theorem tokens_wait (b : TokenBucket) (now : Instant) (w : Duration) :
    ((b.refill now).refill (now + w)).tokens =
      if w ≤ b.last - now then (b.refill now).tokens
      else min ((b.refill now).tokens + ((w - (b.last - now) : ℕ) : ℚ) / nanos * b.refillPerSec)
        b.capacity := by
  have hsize := b.size_refill now
  have hcap : (b.refill now).capacity = b.capacity := congrArg Prod.fst hsize
  have hrate : (b.refill now).refillPerSec = b.refillPerSec := congrArg Prod.snd hsize
  rw [refill, last_refill, secsSince_wait, hcap, hrate]
  by_cases hw : w ≤ b.last - now
  · rw [if_pos hw, Nat.sub_eq_zero_of_le hw, if_neg (by simp)]
  · have hpos : (0 : ℚ) < ((w - (b.last - now) : ℕ) : ℚ) / nanos :=
      div_pos (Nat.cast_pos.mpr (Nat.sub_pos_of_lt (not_le.mp hw))) nanos_pos
    rw [if_neg hw, if_pos hpos]

/-- Tokens accrue in time exactly if they accrue in the nanoseconds there are. -/
theorem accrual_le_iff (hr : 0 < b.refillPerSec) (k : ℕ) :
    b.accrual deficit ≤ k ↔ deficit ≤ (k : ℚ) / nanos * b.refillPerSec := by
  rw [accrual, ← le_div_iff₀ nanos_pos, div_le_iff₀ hr]

theorem accrual_lt_iff (hr : 0 < b.refillPerSec) (k : ℕ) :
    b.accrual deficit < k ↔ deficit < (k : ℚ) / nanos * b.refillPerSec := by
  rw [accrual, ← lt_div_iff₀ nanos_pos, div_lt_iff₀ hr]

/-- A bucket has `n` tokens after a wait exactly if the missing ones accrue in it. -/
theorem le_tokens_wait (hr : 0 < b.refillPerSec) (hlt : (b.refill now).tokens < n) :
    n ≤ ((b.refill now).refill (now + w)).tokens ↔
      n ≤ b.capacity ∧ b.accrual (n - (b.refill now).tokens) ≤ ((w - (b.last - now) : ℕ) : ℚ) := by
  rw [accrual_le_iff hr, tokens_wait]
  split
  · rename_i hle
    rw [Nat.sub_eq_zero_of_le hle]
    refine iff_of_false (not_le.mpr hlt) fun h => ?_
    have := h.2
    rw [Nat.cast_zero, zero_div, zero_mul] at this
    linarith
  · rw [le_min_iff, sub_le_iff_le_add', and_comm]

/-- A bucket has some tokens after a wait exactly if the missing ones accrue before its end. -/
theorem tokens_wait_pos (hr : 0 < b.refillPerSec) (hcap : 0 < b.capacity)
    (hle : (b.refill now).tokens ≤ 0) :
    0 < ((b.refill now).refill (now + w)).tokens ↔
      b.accrual (-(b.refill now).tokens) < ((w - (b.last - now) : ℕ) : ℚ) := by
  rw [accrual_lt_iff hr, tokens_wait]
  split
  · rename_i hw
    rw [Nat.sub_eq_zero_of_le hw]
    refine iff_of_false (not_lt.mpr hle) fun h => ?_
    rw [Nat.cast_zero, zero_div, zero_mul] at h
    linarith
  · rw [lt_min_iff, and_iff_left hcap, neg_lt_iff_pos_add']

/-- The nudge of the floor is a small fraction of a nanosecond. -/
theorem accrual_epsilon (hb : b.size = perMinuteSize C) (hr : 0 < b.refillPerSec) :
    b.accrual epsilon < 1 / 2 := by
  have hrate : b.refillPerSec = (C : ℚ) / 60 := congrArg Prod.snd hb
  have hC : (1 : ℚ) ≤ C := by
    have hpos : (0 : ℚ) < C := by
      rw [hrate] at hr
      linarith
    exact_mod_cast hpos
  rw [accrual, div_mul_eq_mul_div, div_lt_iff₀ hr, hrate, epsilon, nanos]
  norm_num
  linarith

/-- **When a hint is kept.** A take that is refused succeeds after the wait exactly if the bucket was
not accessed later, could ever hold as much, and the time in which the missing tokens accrue is a
whole number of nanoseconds or rounded up. A floor that is refused is passed after the wait exactly
if the bucket was not accessed later, and that time is below the whole nanoseconds of the time with
the nudge, or this is rounded up. -/
theorem honest_iff (hb : b.size = perMinuteSize C) (hw : w < never) :
    ((b.tryTake n now).1 = .wait w →
      (0 < w ∧ ((b.tryTake n now).2.tryTake n (now + w)).1 = .ok () ↔
        b.last ≤ now ∧ n ≤ C ∧
          (b.accrual (n - (b.refill now).tokens) = ⌊b.accrual (n - (b.refill now).tokens)⌋₊ ∨
            RoundsUp (b.accrual (n - (b.refill now).tokens))))) ∧
    ((b.hasCapacity now).1 = .wait w →
      (0 < w ∧ ((b.hasCapacity now).2.hasCapacity (now + w)).1 = .ok () ↔
        b.last ≤ now ∧
          (b.accrual (-(b.refill now).tokens) <
              ⌊b.accrual (-(b.refill now).tokens + epsilon)⌋₊ ∨
            RoundsUp (b.accrual (-(b.refill now).tokens + epsilon))))) := by
  have hcap : b.capacity = C := congrArg Prod.fst hb
  have hrate : (b.refill now).refillPerSec = b.refillPerSec :=
    congrArg Prod.snd (b.size_refill now)
  have hrefill : ∀ d, (b.refill now).accrual d = b.accrual d := fun d => by
    rw [accrual, accrual, hrate]
  have hlag : b.last - now = 0 ↔ b.last ≤ now := Nat.sub_eq_zero_iff_le
  constructor
  · intro h
    obtain ⟨hp, hlt, hwait, hstate⟩ := tryTake_wait h
    obtain ⟨hr, hround⟩ := wait_eq hwait hw (sub_nonneg.mpr hlt.le)
    have hr' : 0 < b.refillPerSec := by rwa [hrate] at hr
    rw [hrefill] at hround
    have hpos : 0 < b.accrual (n - (b.refill now).tokens) :=
      mul_pos (div_pos (sub_pos.mpr hlt) hr') nanos_pos
    rw [hstate, tryTake_ok_iff (by rw [poisoned_refill, hp]), le_tokens_wait hr' hlt, hcap,
      and_left_comm, hround, reach_iff hpos, hlag, and_left_comm]
  · intro h
    obtain ⟨hp, hle, hwait, hstate⟩ := hasCapacity_wait h
    have heps : (0 : ℚ) < epsilon := by norm_num [epsilon]
    obtain ⟨hr, hround⟩ := wait_eq hwait hw (by linarith)
    have hr' : 0 < b.refillPerSec := by rwa [hrate] at hr
    rw [hrefill] at hround
    have hcap' : 0 < b.capacity := by
      have hrate : b.refillPerSec = (C : ℚ) / 60 := congrArg Prod.snd hb
      rw [hcap]
      rw [hrate] at hr'
      linarith
    have hsum : b.accrual (-(b.refill now).tokens + epsilon) =
        b.accrual (-(b.refill now).tokens) + b.accrual epsilon := by
      simp only [accrual, add_div, add_mul]
    rw [hstate, hasCapacity_ok_iff (by rw [poisoned_refill, hp]), tokens_wait_pos hr' hcap' hle,
      hround, pass_iff (accrual_nonneg hr' (by linarith)), hlag]
    · rw [hsum]
      linarith [accrual_nonneg hr' heps.le]
    · rw [hsum]
      linarith [accrual_epsilon hb hr']

/-- Seven requests a minute, all taken: a token takes 8571428571.4 nanoseconds to accrue. -/
def seven : TokenBucket := ⟨7, 7 / 60, 0, 0, false⟩

theorem honest_iff_seven :
    (0 < 8571428571 ∧ ((seven.tryTake 1 0).2.tryTake 1 (0 + 8571428571)).1 = .ok () ↔
      seven.last ≤ 0 ∧ (1 : ℚ) ≤ (7 : ℕ) ∧
        (seven.accrual (1 - (seven.refill 0).tokens) =
            ⌊seven.accrual (1 - (seven.refill 0).tokens)⌋₊ ∨
          RoundsUp (seven.accrual (1 - (seven.refill 0).tokens)))) :=
  (honest_iff (by decide +kernel) (by decide)).1 (by decide +kernel)

/-- Refused, the take is refused again after the wait it was told. -/
theorem not_honest_seven :
    ¬ ((seven.tryTake 1 0).1 = .wait 8571428571 → 8571428571 < never →
      0 < 8571428571 ∧ ((seven.tryTake 1 0).2.tryTake 1 (0 + 8571428571)).1 = .ok ()) := by
  decide +kernel

end TokenBucket

end Llmleaf
