import Mathlib.Algebra.Order.Archimedean.Basic
import Mathlib.Algebra.Order.Field.Rat
import Mathlib.Algebra.Order.Round
import Mathlib.Data.Int.Log
import Mathlib.Data.Rat.Floor
import Mathlib.Tactic.Linarith
import Mathlib.Tactic.Positivity
import Mathlib.Tactic.Ring

/-!
# Binary floating point

The values of a binary format as rationals, and the conversion of a rational into the format: to
the nearest value, of two equally near ones to the even one, and beyond the largest one to
infinity. The sign of zero is not kept, and there is no value for what is not a number.

- `Format.nearest`: the nearest multiple of `Format.unit`, which grows with the magnitude.
- `Format.nearest_eq_self`: a small enough multiple of a power of two is its own nearest value.
- `Format.nearest_nearest`: so is every nearest value.
- `Format.round_coe`: converting a value of the format gives it back.
-/

namespace Binary

/-- The nearest integer, of two equally near ones the even one. -/
def roundEven (q : ℚ) : ℤ :=
  let n := ⌊q⌋
  if q - n < 1 / 2 then n else if 1 / 2 < q - n then n + 1 else if n % 2 = 0 then n else n + 1

theorem roundEven_intCast (n : ℤ) : roundEven n = n := by
  simp [roundEven]

/-- A rounded number keeps the integer bounds of the number. -/
theorem abs_roundEven_le {q : ℚ} {n : ℤ} (h : |q| ≤ n) : |roundEven q| ≤ n := by
  have ⟨hl, hu⟩ := abs_le.mp h
  have hfl : -n ≤ ⌊q⌋ := Int.le_floor.mpr (by exact_mod_cast hl)
  have hfu : ⌊q⌋ ≤ n := Int.cast_le.mp ((Int.floor_le q).trans hu)
  -- rounding up stays below `n`: there is a fraction left above the floor
  have hup : ¬ q - ⌊q⌋ < 1 / 2 → ⌊q⌋ + 1 ≤ n := by
    intro hlt
    have : (⌊q⌋ : ℚ) < n := by linarith
    exact_mod_cast Int.add_one_le_iff.mpr (Int.cast_lt.mp this)
  rw [abs_le]
  unfold roundEven
  dsimp only
  split
  · exact ⟨hfl, hfu⟩
  · have := hup ‹_›
    split
    · omega
    · split <;> omega

/-- A format: the bits of a significand, the exponent of its least unit, and the exponent its
magnitudes stay below. -/
structure Format where
  precision : ℕ
  minExp : ℤ
  bound : ℕ
  pos : 0 < precision

namespace Format

def single : Format := ⟨24, -149, 128, by decide⟩

def double : Format := ⟨53, -1074, 1024, by decide⟩

variable (f : Format)

/-- The exponent of the unit at a magnitude. -/
def exponent (q : ℚ) : ℤ := max f.minExp (Int.log 2 |q| + 1 - f.precision)

/-- The distance of the neighbouring values at a magnitude. -/
def unit (q : ℚ) : ℚ := 2 ^ f.exponent q

/-- The nearest value, were there no largest one. -/
def nearest (q : ℚ) : ℚ := roundEven (q / f.unit q) * f.unit q

/-- The format has the value `q`. -/
def Mem (q : ℚ) : Prop := f.nearest q = q ∧ |q| < 2 ^ f.bound

instance (q : ℚ) : Decidable (f.Mem q) := inferInstanceAs (Decidable (_ ∧ _))

variable {f}

/-- A multiple of the unit at its magnitude is its own nearest value. -/
theorem nearest_of_multiple {q : ℚ} {n : ℤ} (h : q = n * f.unit q) : f.nearest q = q := by
  have hu : f.unit q ≠ 0 := (zpow_pos (by norm_num) _).ne'
  have hq : q / f.unit q = n := (div_eq_iff hu).mpr h
  rw [nearest, hq, roundEven_intCast]
  exact h.symm

/-- A multiple of a coarser power of two is one of a finer power. -/
theorem nearest_of_exponent_le {q : ℚ} {n e : ℤ} (h : q = n * 2 ^ e) (he : f.exponent q ≤ e) :
    f.nearest q = q := by
  obtain ⟨k, hk⟩ := Int.le.dest he
  refine nearest_of_multiple (n := n * 2 ^ k) ?_
  rw [unit]
  calc q = n * 2 ^ (f.exponent q + k) := by rw [hk]; exact h
    _ = (n * 2 ^ k : ℤ) * 2 ^ f.exponent q := by
      rw [zpow_add₀ (by norm_num), zpow_natCast]
      push_cast
      ring

theorem exponent_le {q : ℚ} {e : ℤ} (hq : q ≠ 0) (h : |q| < 2 ^ (e + f.precision))
    (he : f.minExp ≤ e) : f.exponent q ≤ e := by
  have hlog : Int.log 2 |q| < e + f.precision :=
    (Int.lt_zpow_iff_log_lt (by norm_num) (abs_pos.mpr hq)).mp (by exact_mod_cast h)
  exact max_le he (by omega)

/-- **A power of two, taken no more often than a significand counts, is a value.** -/
theorem nearest_eq_self {q : ℚ} {n e : ℤ} (h : q = n * 2 ^ e) (hn : |n| ≤ 2 ^ f.precision)
    (he : f.minExp ≤ e) : f.nearest q = q := by
  rcases eq_or_ne q 0 with rfl | hq
  · exact nearest_of_multiple (n := 0) (by simp)
  have hpow : (0 : ℚ) < 2 ^ e := zpow_pos (by norm_num) _
  have habs : |q| = |n| * 2 ^ e := by
    rw [h, abs_mul, abs_of_pos hpow, Int.cast_abs]
  rcases hn.lt_or_eq with hlt | heq
  · refine nearest_of_exponent_le h (exponent_le hq ?_ he)
    rw [habs, add_comm, zpow_add₀ (by norm_num), zpow_natCast]
    exact mul_lt_mul_of_pos_right (by exact_mod_cast hlt) hpow
  · -- the significand is full: half as often the next power
    obtain ⟨k, hk⟩ : ∃ k, f.precision = k + 1 := ⟨_, (Nat.sub_add_cancel f.pos).symm⟩
    obtain ⟨m, hm⟩ : (2 : ℤ) ∣ n := by
      have : (2 : ℤ) ∣ |n| := heq ▸ hk ▸ dvd_pow_self 2 (Nat.succ_ne_zero k)
      exact (dvd_abs _ _).mp this
    refine nearest_of_exponent_le (n := m) (e := e + 1) ?_ (exponent_le hq ?_ (by omega))
    · rw [h, hm, zpow_add₀ (by norm_num), zpow_one]
      push_cast
      ring
    · calc |q| = 2 ^ (e + f.precision) := by
            rw [habs, heq, add_comm, zpow_add₀ (by norm_num), zpow_natCast]
            push_cast
            ring
        _ < 2 ^ (e + 1 + f.precision) := zpow_lt_zpow_right₀ (by norm_num) (by omega)

theorem unit_pos (q : ℚ) : 0 < f.unit q := zpow_pos (by norm_num) _

/-- A magnitude is below the next power of its unit's significand. -/
theorem abs_div_unit_le (q : ℚ) : |q / f.unit q| ≤ (2 ^ f.precision : ℤ) := by
  rw [abs_div, abs_of_pos (unit_pos q), div_le_iff₀ (unit_pos q)]
  have hlog : |q| < 2 ^ (Int.log 2 |q| + 1) := by
    exact_mod_cast Int.lt_zpow_succ_log_self (b := 2) (by norm_num) |q|
  have hexp : Int.log 2 |q| + 1 ≤ f.precision + f.exponent q := by
    have := le_max_right f.minExp (Int.log 2 |q| + 1 - f.precision)
    unfold exponent
    omega
  calc |q| ≤ 2 ^ (Int.log 2 |q| + 1) := hlog.le
    _ ≤ 2 ^ (f.precision + f.exponent q) := zpow_le_zpow_right₀ (by norm_num) hexp
    _ = (2 ^ f.precision : ℤ) * f.unit q := by
      rw [zpow_add₀ (by norm_num), zpow_natCast, unit]
      push_cast
      rfl

theorem abs_roundEven_div_unit_le (q : ℚ) :
    |roundEven (q / f.unit q)| ≤ 2 ^ f.precision :=
  abs_roundEven_le (abs_div_unit_le q)

/-- The nearest value is a value. -/
theorem nearest_nearest (q : ℚ) : f.nearest (f.nearest q) = f.nearest q :=
  nearest_eq_self rfl (abs_roundEven_div_unit_le q) (le_max_left _ _)

/-- A value of a format is one of every wider format. -/
theorem Mem.nearest_eq {g : Format} {q : ℚ} (h : f.Mem q) (hp : f.precision ≤ g.precision)
    (he : g.minExp ≤ f.minExp) : g.nearest q = q :=
  nearest_eq_self h.1.symm
    ((abs_roundEven_div_unit_le q).trans (pow_le_pow_right₀ (by norm_num) hp))
    (he.trans (le_max_left _ _))

end Format

/-- A number of a format. -/
inductive Number (f : Format) where
  | finite (q : ℚ) (h : f.Mem q)
  | infinite (negative : Bool)
  deriving DecidableEq

/-- The conversion into a format. -/
def Format.round (f : Format) (q : ℚ) : Number f :=
  if h : |f.nearest q| < 2 ^ f.bound then .finite (f.nearest q) ⟨f.nearest_nearest q, h⟩
  else .infinite (q < 0)

/-- A value of the format is converted to itself. -/
theorem Format.round_coe {f : Format} {q : ℚ} (h : f.Mem q) : f.round q = .finite q h := by
  unfold Format.round
  simp only [h.1, h.2, dite_true]

end Binary
