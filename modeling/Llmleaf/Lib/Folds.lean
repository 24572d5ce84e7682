import Mathlib.Algebra.BigOperators.Group.List.Basic

/-!
# Folds over interleaved items

A fold whose items belong to different parties: each party sees only its own part of the state.

- `project`: a part of the state that only some of the items change is folded from these items
  alone.
- `foldl_getLast`: a cell that every item overwrites holds the last one.
- `filter_key`: of items with different keys, one has a given key.
- `flatMap_filter`: items that contribute nothing may be left out.
- `flatMap_eq_iff`: pieces of the same lengths spell the same list when they are the same.
-/

namespace Folds

variable {α σ τ : Type*}

/-- A part of the state that only the items with `p` change is folded from these items alone. -/
theorem project {step : σ → α → σ} {step' : τ → α → τ} (π : σ → τ) (p : α → Bool)
    (hin : ∀ s a, p a = true → π (step s a) = step' (π s) a)
    (hout : ∀ s a, p a = false → π (step s a) = π s) (l : List α) (s : σ) :
    π (l.foldl step s) = (l.filter p).foldl step' (π s) := by
  induction l generalizing s with
  | nil => rfl
  | cons a l ih =>
    rw [List.foldl_cons, ih]
    by_cases h : p a = true
    · rw [List.filter_cons_of_pos h, List.foldl_cons, hin s a h]
    · rw [List.filter_cons_of_neg h, hout s a (by simpa using h)]

/-- A cell that the items `f` is defined on overwrite holds the last image. -/
theorem foldl_getLast (π : σ → τ) {step : σ → α → σ} (f : α → Option τ)
    (h : ∀ s a, π (step s a) = (f a).getD (π s)) (l : List α) (s : σ) :
    π (l.foldl step s) = ((l.filterMap f).getLast?).getD (π s) := by
  induction l generalizing s with
  | nil => rfl
  | cons a l ih =>
    rw [List.foldl_cons, ih, h]
    cases hf : f a with
    | none => rw [List.filterMap_cons_none hf, Option.getD_none]
    | some b =>
      rw [List.filterMap_cons_some hf, Option.getD_some, List.getLast?_cons, Option.getD_some]

/-- Pieces of the same lengths spell the same list when they are the same. -/
theorem flatMap_eq_iff {β : Type*} {f g : α → List β} {l : List α}
    (h : ∀ a ∈ l, (f a).length = (g a).length) :
    l.flatMap f = l.flatMap g ↔ ∀ a ∈ l, f a = g a := by
  induction l with
  | nil => simp
  | cons a l ih =>
    rw [List.flatMap_cons, List.flatMap_cons, List.forall_mem_cons,
      ← ih fun b hb => h b (List.mem_cons_of_mem _ hb)]
    constructor
    · intro heq
      exact List.append_inj heq (h a List.mem_cons_self)
    · rintro ⟨ha, hl⟩
      rw [ha, hl]

/-- Tests that agree on the items find the same. -/
theorem any_congr_left {p q : α → Bool} {l : List α} (h : ∀ a ∈ l, p a = q a) :
    l.any p = l.any q := by
  induction l with
  | nil => rfl
  | cons a l ih =>
    have ⟨ha, hl⟩ := List.forall_mem_cons.mp h
    rw [List.any_cons, List.any_cons, ha, ih hl]

/-- Items that contribute nothing may be left out. -/
theorem flatMap_filter {β : Type*} {f : α → List β} {p : α → Bool} {l : List α}
    (h : ∀ a ∈ l, p a = false → f a = []) : (l.filter p).flatMap f = l.flatMap f := by
  induction l with
  | nil => rfl
  | cons a l ih =>
    rw [List.flatMap_cons, ← ih fun b hb => h b (List.mem_cons_of_mem _ hb)]
    cases hp : p a with
    | true => rw [List.filter_cons_of_pos hp, List.flatMap_cons]
    | false =>
      rw [List.filter_cons_of_neg (by simpa using hp), h a List.mem_cons_self hp, List.nil_append]

/-- Of items with different keys, one has the key of an item of the list. -/
theorem filter_key {κ : Type*} [DecidableEq κ] {key : α → κ} {l : List α}
    (hnodup : (l.map key).Nodup) {a : α} (ha : a ∈ l) :
    l.filter (fun b => key b = key a) = [a] := by
  induction l with
  | nil => cases ha
  | cons b l ih =>
    obtain ⟨hb, hl⟩ := List.nodup_cons.mp hnodup
    rcases List.mem_cons.mp ha with rfl | ha
    · rw [List.filter_cons_of_pos (by simp), List.filter_eq_nil_iff.mpr fun c hc h => hb ?_]
      rw [← of_decide_eq_true h]
      exact List.mem_map_of_mem hc
    · rw [List.filter_cons_of_neg (fun h => hb ?_), ih hl ha]
      rw [of_decide_eq_true h]
      exact List.mem_map_of_mem ha

end Folds
