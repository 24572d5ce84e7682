import Mathlib.Algebra.BigOperators.Group.List.Basic
import Mathlib.Algebra.Ring.Nat

/-!
# Logs with a bound on their size

A log that keeps items up to a total size. The first item that does not fit is left out, and with
it all later ones: what is kept is then no longer what has arrived, and the log says so.

- `Holds cap weight items log`: what the log knows of the items that have arrived.
- `Holds.push`: one more item.
- `Holds.kept_eq_iff`: everything is kept exactly if nothing has overflowed.
-/

/-- The kept items, the size of all items, and whether one was left out. -/
structure BoundedLog (α : Type*) where
  kept : List α
  size : ℕ
  overflow : Bool

namespace BoundedLog

variable {α : Type*} {cap : ℕ} {weight : α → ℕ} {items : List α} {log : BoundedLog α}

/-- Nothing has arrived. -/
def empty : BoundedLog α := ⟨[], 0, false⟩

/-- One more item has arrived. -/
def push (cap : ℕ) (weight : α → ℕ) (log : BoundedLog α) (a : α) : BoundedLog α :=
  if log.overflow || decide (cap < log.size + weight a) then
    ⟨log.kept, log.size + weight a, true⟩
  else ⟨log.kept ++ [a], log.size + weight a, log.overflow⟩

/-- What a log knows of the items that have arrived. -/
structure Holds (cap : ℕ) (weight : α → ℕ) (items : List α) (log : BoundedLog α) : Prop where
  size : log.size = (items.map weight).sum
  overflow : log.overflow = true ↔ cap < (items.map weight).sum
  /-- Without an overflow everything is kept. -/
  kept : log.overflow = false → log.kept = items
  /-- With one something is missing. -/
  missing : log.overflow = true → log.kept.length < items.length

theorem Holds.empty : Holds cap weight [] (BoundedLog.empty : BoundedLog α) where
  size := rfl
  overflow := by simp [BoundedLog.empty]
  kept _ := rfl
  missing h := by cases h

/-- The size of one more item. -/
theorem sum_concat (items : List α) (a : α) :
    ((items ++ [a]).map weight).sum = (items.map weight).sum + weight a := by simp

theorem Holds.push (h : Holds cap weight items log) (a : α) :
    Holds cap weight (items ++ [a]) (log.push cap weight a) := by
  have hsize := h.size
  unfold BoundedLog.push
  by_cases hover : log.overflow = true
  · have hlt := h.overflow.mp hover
    have hmissing := h.missing hover
    rw [hover, Bool.true_or, if_pos rfl]
    refine ⟨by rw [sum_concat, hsize], iff_of_true rfl ?_, nofun, fun _ => ?_⟩
    · rw [sum_concat]
      omega
    · simp only [List.length_append, List.length_singleton]
      omega
  · rw [Bool.not_eq_true] at hover
    have hkept := h.kept hover
    rw [hover, Bool.false_or]
    by_cases hfit : cap < log.size + weight a
    · rw [if_pos (decide_eq_true hfit)]
      refine ⟨by rw [sum_concat, hsize], iff_of_true rfl ?_, nofun, fun _ => ?_⟩
      · rw [sum_concat]
        omega
      · simp [hkept]
    · rw [if_neg (by simpa using hfit)]
      refine ⟨by rw [sum_concat, hsize], iff_of_false nofun ?_, fun _ => ?_, nofun⟩
      · rw [sum_concat]
        omega
      · rw [hkept]

/-- **Everything is kept** exactly if nothing has overflowed. -/
theorem Holds.kept_eq_iff (h : Holds cap weight items log) :
    log.kept = items ↔ log.overflow = false := by
  constructor
  · intro hkept
    by_contra hover
    have hmissing := h.missing ((Bool.not_eq_false _).mp hover)
    rw [hkept] at hmissing
    omega
  · exact h.kept

/-- What is kept without an overflow is within the bound. -/
theorem Holds.kept_le (h : Holds cap weight items log) (hover : log.overflow = false) :
    (log.kept.map weight).sum ≤ cap := by
  rw [h.kept hover]
  by_contra hlt
  rw [h.overflow.mpr (by omega)] at hover
  cases hover

end BoundedLog
