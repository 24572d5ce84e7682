import Mathlib.Data.List.Pairwise
import Mathlib.Data.List.Induction

/-!
# Selections where the first wins

From the front of a list, an element is kept unless it clashes with one that was kept before.

- `firsts_append_singleton`: the recursion from the end of the list.
- `clash_mem_iff`: where a clash is a common key, an element clashes with a kept one exactly if it
  clashes with any one before it.
- `firsts_diverge`, `firsts_eq_iff`: with more clashes the selection stays the same exactly if no two
  kept elements have the new clash.
-/

namespace List

variable {α : Type*}

/-- The elements that clash with no earlier kept one. -/
def firsts (clash : α → α → Bool) (l : List α) : List α :=
  l.foldl (fun kept a => if kept.any (clash · a) then kept else kept ++ [a]) []

variable {clash clash' : α → α → Bool} {l : List α}

@[simp] theorem firsts_nil : firsts clash [] = [] := rfl

theorem firsts_append_singleton (l : List α) (a : α) :
    firsts clash (l ++ [a]) =
      if (firsts clash l).any (clash · a) then firsts clash l else firsts clash l ++ [a] := by
  rw [firsts, foldl_append]
  rfl

/-- What is kept of a list is kept of a longer one. -/
theorem firsts_snoc (l : List α) (a : α) : firsts clash l <+: firsts clash (l ++ [a]) := by
  rw [firsts_append_singleton]
  split
  · exact prefix_rfl
  · exact prefix_append _ _

theorem mem_of_mem_firsts {a : α} (h : a ∈ firsts clash l) : a ∈ l := by
  induction l using reverseRecOn with
  | nil => cases h
  | append_singleton l b ih =>
    rw [firsts_append_singleton] at h
    split at h
    · exact mem_append_left _ (ih h)
    · rcases mem_append.mp h with h | h
      · exact mem_append_left _ (ih h)
      · exact mem_append_right _ h

theorem pairwise_firsts (l : List α) :
    (firsts clash l).Pairwise fun a b => clash a b = false := by
  induction l using reverseRecOn with
  | nil => exact .nil
  | append_singleton l b ih =>
    rw [firsts_append_singleton]
    split
    · exact ih
    · rename_i h
      refine pairwise_append.mpr ⟨ih, pairwise_singleton _ _, fun a ha c hc => ?_⟩
      rw [mem_singleton.mp hc]
      by_contra hab
      exact h (any_eq_true.mpr ⟨a, ha, by simpa using hab⟩)

/-- An element whose key was seen has the key of a kept one. -/
theorem clash_mem_iff {κ : Type*} [DecidableEq κ] (key : α → κ) (l : List α) (k : κ) :
    (∃ a ∈ firsts (fun a b => key a == key b) l, key a = k) ↔ ∃ a ∈ l, key a = k := by
  refine ⟨fun ⟨a, ha, hk⟩ => ⟨a, mem_of_mem_firsts ha, hk⟩, ?_⟩
  induction l using reverseRecOn with
  | nil => exact fun ⟨_, h, _⟩ => by cases h
  | append_singleton l b ih =>
    rintro ⟨a, ha, rfl⟩
    rw [firsts_append_singleton]
    rcases mem_append.mp ha with ha | ha
    · obtain ⟨c, hc, hk⟩ := ih ⟨a, ha, rfl⟩
      split
      · exact ⟨c, hc, hk⟩
      · exact ⟨c, mem_append_left _ hc, hk⟩
    · rw [mem_singleton.mp ha]
      split
      · rename_i h
        obtain ⟨c, hc, hk⟩ := any_eq_true.mp h
        exact ⟨c, hc, by simpa using hk⟩
      · exact ⟨b, mem_append_right _ (mem_singleton.mpr rfl), rfl⟩

/-- Where two selections part, the one with fewer clashes has kept two elements that have the other
clash, and the first of them is in both. -/
theorem firsts_diverge (h : firsts clash l ≠ firsts (fun a b => clash a b || clash' a b) l) :
    ∃ a b, firsts clash l = a ++ b ∧ ∃ x ∈ a, ∃ y ∈ b,
      clash' x y = true ∧ x ∈ firsts (fun a b => clash a b || clash' a b) l := by
  induction l using reverseRecOn with
  | nil => exact absurd rfl h
  | append_singleton l c ih =>
    by_cases heq : firsts clash l = firsts (fun a b => clash a b || clash' a b) l
    · -- the last element makes the difference
      rw [firsts_append_singleton, firsts_append_singleton, ← heq] at h
      by_cases hc : (firsts clash l).any (clash · c)
      · have hc' : (firsts clash l).any (fun a => clash a c || clash' a c) := by
          obtain ⟨a, ha, hac⟩ := any_eq_true.mp hc
          exact any_eq_true.mpr ⟨a, ha, by rw [hac, Bool.true_or]⟩
        rw [if_pos hc, if_pos hc'] at h
        exact absurd rfl h
      · by_cases hc' : (firsts clash l).any (fun a => clash a c || clash' a c)
        · obtain ⟨x, hx, hxc⟩ := any_eq_true.mp hc'
          have hnot : clash x c = false := by
            by_contra hxc'
            exact hc (any_eq_true.mpr ⟨x, hx, by simpa using hxc'⟩)
          rw [hnot, Bool.false_or] at hxc
          refine ⟨firsts clash l, [c], ?_, x, hx, c, mem_singleton.mpr rfl, hxc, ?_⟩
          · rw [firsts_append_singleton, if_neg hc]
          · exact (firsts_snoc l c).subset (heq ▸ hx)
        · rw [if_neg hc, if_neg hc'] at h
          exact absurd rfl h
    · obtain ⟨a, b, hab, x, hx, y, hy, hxy, hx'⟩ := ih heq
      have hpre : firsts clash l <+: firsts clash (l ++ [c]) := firsts_snoc l c
      obtain ⟨rest, hrest⟩ := hpre
      refine ⟨a, b ++ rest, ?_, x, hx, y, mem_append_left _ hy, hxy,
        (firsts_snoc l c).subset hx'⟩
      rw [← hrest, hab, append_assoc]

/-- **More clashes change nothing exactly if no two kept elements have them.** -/
theorem firsts_eq_iff :
    firsts clash l = firsts (fun a b => clash a b || clash' a b) l ↔
      (firsts clash l).Pairwise fun a b => clash' a b = false := by
  constructor
  · intro h
    rw [h]
    exact (pairwise_firsts l).imp fun hab => (Bool.or_eq_false_iff.mp hab).2
  · intro h
    by_contra hne
    obtain ⟨a, b, hab, x, hx, y, hy, hxy, -⟩ := firsts_diverge hne
    rw [hab] at h
    rw [(pairwise_append.mp h).2.2 x hx y hy] at hxy
    cases hxy

end List
