import Mathlib.Algebra.Order.Field.Basic
import Mathlib.Tactic.Linarith
import Mathlib.Tactic.Ring

/-!
# The account of a token bucket

A bucket starts full at `t0`, gains `rate` tokens a second up to its capacity and never goes below
zero. `Covers` says that the tokens in the bucket and those taken from it together never exceed
what it started with and what it has gained since. Refilling, taking and giving back preserve it,
so the tokens taken up to an instant are bounded.
-/

namespace Bucket

variable {𝕜 : Type*} [Field 𝕜] [LinearOrder 𝕜] [IsStrictOrderedRing 𝕜]

/-- The tokens in the bucket and the tokens `taken` from it are covered by the capacity and by what
was gained from `t0` to the last access. -/
structure Covers (cap rate tokens taken t0 last : 𝕜) : Prop where
  nonneg : 0 ≤ tokens
  started : t0 ≤ last
  covered : tokens + taken ≤ cap + rate * (last - t0)

variable {cap rate tokens taken t0 last : 𝕜}

omit [IsStrictOrderedRing 𝕜] in
theorem covers_full (hcap : 0 ≤ cap) : Covers cap rate cap 0 t0 t0 :=
  ⟨hcap, le_refl _, by simp⟩

namespace Covers

/-- Topping up by what has accrued, at most to the capacity. -/
theorem refill (h : Covers cap rate tokens taken t0 last) (hcap : 0 ≤ cap) (hrate : 0 ≤ rate)
    {now : 𝕜} (hnow : last ≤ now) :
    Covers cap rate (min (tokens + (now - last) * rate) cap) taken t0 now where
  nonneg := le_min (add_nonneg h.nonneg (mul_nonneg (sub_nonneg.mpr hnow) hrate)) hcap
  started := le_trans h.started hnow
  covered := by
    have hmin : min (tokens + (now - last) * rate) cap ≤ tokens + (now - last) * rate :=
      min_le_left _ _
    calc min (tokens + (now - last) * rate) cap + taken
        ≤ tokens + (now - last) * rate + taken := by linarith
      _ ≤ cap + rate * (last - t0) + (now - last) * rate := by linarith [h.covered]
      _ = cap + rate * (now - t0) := by ring

/-- Taking what is there. -/
theorem take (h : Covers cap rate tokens taken t0 last) {n : 𝕜} (hn : n ≤ tokens) :
    Covers cap rate (tokens - n) (taken + n) t0 last :=
  ⟨sub_nonneg.mpr hn, h.started, by linarith [h.covered]⟩

/-- Giving back, at most to the capacity. -/
theorem giveBack (h : Covers cap rate tokens taken t0 last) (hcap : 0 ≤ cap) {n : 𝕜} (hn : 0 ≤ n) :
    Covers cap rate (min (tokens + n) cap) (taken - n) t0 last :=
  ⟨le_min (add_nonneg h.nonneg hn) hcap, h.started, by
    linarith [h.covered, min_le_left (tokens + n) cap]⟩

/-- **What was taken up to `T` is at most the capacity and what accrued since `t0`.** -/
theorem taken_le (h : Covers cap rate tokens taken t0 last) (hrate : 0 ≤ rate) {T : 𝕜}
    (hT : last ≤ T) : taken ≤ cap + rate * (T - t0) := by
  have hmono : rate * (last - t0) ≤ rate * (T - t0) :=
    mul_le_mul_of_nonneg_left (by linarith) hrate
  linarith [h.nonneg, h.covered]

end Covers

end Bucket
