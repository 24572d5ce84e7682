import Mathlib.Data.List.Sort

/-!
# The longest match in a table

A table is sorted by length, longest first and stably, and searched for the first entry that
matches. `longest?` says what this finds without the sort: the longest matching entry, and of
several of that length the earliest.

- `find?_insertionSort`: the search of the sorted table finds `longest?`.
- `longest?_append`: of two tables one after the other, the second decides only by a strictly
  longer match.
- `longest?_mem`, `le_longest?`, `longest?_congr`: what is found, and when the order of the table
  does not matter.
-/

namespace LongestMatch

variable {α : Type*} (len : α → ℕ) (p : α → Bool)

/-- Longer entries come first. -/
abbrev byLen (a b : α) : Prop := len b ≤ len a

/-- Of two candidates the longer one, of two equally long ones the first. -/
def longer : Option α → Option α → Option α
  | none, y => y
  | some x, none => some x
  | some x, some y => if len y ≤ len x then some x else some y

/-- The longest matching entry, the earliest of that length. -/
def longest? : List α → Option α
  | [] => none
  | a :: l => longer len (if p a then some a else none) (longest? l)

@[simp] theorem longer_none_left (y : Option α) : longer len none y = y := rfl

@[simp] theorem longer_none_right (x : Option α) : longer len x none = x := by cases x <;> rfl

theorem longer_assoc (x y z : Option α) :
    longer len (longer len x y) z = longer len x (longer len y z) := by
  rcases x with _ | a
  · rfl
  rcases y with _ | b
  · rfl
  rcases z with _ | c
  · simp only [longer_none_right]
  by_cases hab : len b ≤ len a <;> by_cases hbc : len c ≤ len b
  · simp [longer, hab, hbc, le_trans hbc hab]
  · simp [longer, hab, hbc]
  · simp [longer, hab, hbc]
  · simp [longer, hab, hbc, show ¬ len c ≤ len a by omega]

/-- A second table decides only where it has a strictly longer match. -/
theorem longest?_append (l l' : List α) :
    longest? len p (l ++ l') = longer len (longest? len p l) (longest? len p l') := by
  induction l with
  | nil => simp [longest?]
  | cons a l ih => rw [List.cons_append, longest?, longest?, ih, longer_assoc]

/-- Inserting an entry where the length order puts it. -/
theorem find?_orderedInsert {a : α} {l : List α} (hl : l.Pairwise (byLen len)) :
    (l.orderedInsert (byLen len) a).find? p =
      longer len (if p a then some a else none) (l.find? p) := by
  induction l with
  | nil => cases h : p a <;> simp [h]
  | cons b l ih =>
    obtain ⟨hb, hl⟩ := List.pairwise_cons.mp hl
    rw [List.orderedInsert_cons]
    split
    · rename_i hab
      -- `a` goes first: nothing behind it is longer
      cases ha : p a
      · simp [List.find?, ha]
      · simp only [List.find?, ha, if_true]
        cases hbp : p b
        · cases hf : l.find? p with
          | none => rfl
          | some c =>
            have hc : len c ≤ len b := hb c (List.mem_of_find?_eq_some hf)
            simp only [longer]
            rw [if_pos (le_trans hc hab)]
        · simp only [longer]
          rw [if_pos hab]
    · rename_i hab
      cases hbp : p b
      · simp only [List.find?, hbp]
        exact ih hl
      · simp only [List.find?, hbp]
        cases ha : p a
        · rfl
        · simp only [if_true, longer]
          rw [if_neg hab]

/-- **The search of the table sorted by length finds the longest match.** -/
theorem find?_insertionSort (l : List α) :
    (l.insertionSort (byLen len)).find? p = longest? len p l := by
  induction l with
  | nil => rfl
  | cons a l ih =>
    have : Std.Total (byLen len) := ⟨fun a b => le_total _ _⟩
    have : IsTrans α (byLen len) := ⟨fun _ _ _ hab hbc => le_trans hbc hab⟩
    rw [List.insertionSort_cons, find?_orderedInsert len p (List.pairwise_insertionSort _ l), ih]
    rfl

/-! ## What is found -/

theorem longest?_mem {l : List α} {a : α} (h : longest? len p l = some a) : a ∈ l ∧ p a := by
  rw [← find?_insertionSort] at h
  exact ⟨(List.mem_insertionSort _).mp (List.mem_of_find?_eq_some h), List.find?_some h⟩

theorem longest?_eq_none {l : List α} : longest? len p l = none ↔ ∀ a ∈ l, ¬ p a := by
  rw [← find?_insertionSort, List.find?_eq_none]
  simp only [List.mem_insertionSort]

theorem le_longer_left {c a : α} {y : Option α} (h : longer len (some c) y = some a) :
    len c ≤ len a := by
  cases y with
  | none => cases h; exact le_refl _
  | some d =>
    rw [longer] at h
    split at h
    · cases h; exact le_refl _
    · cases h; omega

theorem le_longer_right {c a : α} {x : Option α} (h : longer len x (some c) = some a) :
    len c ≤ len a := by
  cases x with
  | none => cases h; exact le_refl _
  | some d =>
    rw [longer] at h
    split at h
    · cases h; assumption
    · cases h; exact le_refl _

/-- No match is longer than the one found. -/
theorem le_longest? {l : List α} {a : α} (h : longest? len p l = some a) :
    ∀ b ∈ l, p b → len b ≤ len a := by
  induction l generalizing a with
  | nil => simp
  | cons c l ih =>
    intro b hb hpb
    rw [longest?] at h
    rcases List.mem_cons.mp hb with rfl | hb
    · rw [if_pos hpb] at h
      exact le_longer_left len h
    · cases hl : longest? len p l with
      | none => exact absurd hpb ((longest?_eq_none len p).mp hl b hb)
      | some d =>
        rw [hl] at h
        exact le_trans (ih hl b hb hpb) (le_longer_right len h)

/-- The length of what is found does not depend on the order. -/
theorem len_longest?_congr {l l' : List α} (h : ∀ a, a ∈ l ↔ a ∈ l') :
    (longest? len p l).map len = (longest? len p l').map len := by
  cases hl : longest? len p l with
  | none =>
    have hl' : longest? len p l' = none :=
      (longest?_eq_none len p).mpr fun a ha => (longest?_eq_none len p).mp hl a ((h a).mpr ha)
    rw [hl']
  | some a =>
    obtain ⟨ha, hpa⟩ := longest?_mem len p hl
    cases hl' : longest? len p l' with
    | none => exact absurd hpa ((longest?_eq_none len p).mp hl' a ((h a).mp ha))
    | some b =>
      obtain ⟨hb, hpb⟩ := longest?_mem len p hl'
      have hab := le_longest? len p hl' a ((h a).mp ha) hpa
      have hba := le_longest? len p hl b ((h b).mpr hb) hpb
      simp only [Option.map_some, le_antisymm hab hba]

/-- Where equally long matches are equal, the order of the table does not matter. -/
theorem longest?_congr {l l' : List α} (h : ∀ a, a ∈ l ↔ a ∈ l')
    (huniq : ∀ a, longest? len p l = some a → ∀ b ∈ l, p b → len a = len b → a = b) :
    longest? len p l = longest? len p l' := by
  have hlen := len_longest?_congr len p h
  cases hl : longest? len p l with
  | none =>
    rw [hl] at hlen
    exact (Option.map_eq_none_iff.mp hlen.symm).symm
  | some a =>
    rw [hl, Option.map_some] at hlen
    obtain ⟨b, hb, hlen'⟩ := Option.map_eq_some_iff.mp hlen.symm
    obtain ⟨hmem, hpb⟩ := longest?_mem len p hb
    rw [hb, huniq a hl b ((h b).mpr hmem) hpb hlen'.symm]

/-- A first entry that matches and is as long as any match is found. -/
theorem longest?_cons_of_le {a : α} {l : List α} (ha : p a) (hle : ∀ b ∈ l, p b → len b ≤ len a) :
    longest? len p (a :: l) = some a := by
  rw [longest?, if_pos ha]
  cases hl : longest? len p l with
  | none => rfl
  | some b =>
    obtain ⟨hb, hpb⟩ := longest?_mem len p hl
    rw [longer, if_pos (hle b hb hpb)]

end LongestMatch
