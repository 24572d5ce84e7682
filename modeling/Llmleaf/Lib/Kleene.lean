import Mathlib.Data.List.Basic

/-!
# Verdicts that may be open

A verdict is yes, no, or open. A conjunction is decided by one no, a disjunction by one yes,
whatever is open beside it; "exactly one" waits for all of them.

- `all_eq_true`, `all_eq_false`, `any_eq_true`, `any_eq_false`: when a combination is decided.
- `all_keeps`, `any_keeps`, `atLeast_keeps`: a combination keeps a verdict that its members keep;
  `one_keeps` and `within_keeps`, one that rests on both verdicts of its members.
-/

namespace Kleene

def all (l : List (Option Bool)) : Option Bool :=
  if some false ∈ l then some false else if none ∈ l then none else some true

def any (l : List (Option Bool)) : Option Bool :=
  if some true ∈ l then some true else if none ∈ l then none else some false

/-- Is exactly one of them a yes? -/
def one (l : List (Option Bool)) : Option Bool :=
  if none ∈ l then none else some (l.count (some true) == 1)

/-- Are there so many yeses among them? -/
def atLeast (n : ℕ) (l : List (Option Bool)) : Option Bool :=
  if n ≤ l.count (some true) then some true
  else if l.countP (· != some false) < n then some false
  else none

/-- Is the number of yeses within bounds? -/
def within (lo hi : ℕ) (l : List (Option Bool)) : Option Bool :=
  all [atLeast lo l, (atLeast (hi + 1) l).map (!·)]

theorem eq_of_keeps {v w : Option Bool} (h : ∀ p, v = some p → w = some p)
    (h' : ∀ p, w = some p → v = some p) : v = w := by
  cases v with
  | some p => exact (h p rfl).symm
  | none =>
    cases w with
    | some p => exact h' p rfl
    | none => rfl

theorem map_not_eq_some {v : Option Bool} {p : Bool} : v.map (!·) = some p ↔ v = some (!p) := by
  rcases v with _ | _ | _ <;> cases p <;> simp

section

variable {l : List (Option Bool)}

theorem all_eq_true : all l = some true ↔ ∀ v ∈ l, v = some true := by
  unfold all
  constructor
  · intro h v hv
    split at h
    · cases h
    · split at h
      · cases h
      · rename_i hfalse hnone
        rcases v with _ | _ | _
        · exact absurd hv hnone
        · exact absurd hv hfalse
        · rfl
  · intro h
    have hfalse : some false ∉ l := fun hmem => by cases h _ hmem
    have hnone : none ∉ l := fun hmem => by cases h _ hmem
    rw [if_neg hfalse, if_neg hnone]

theorem all_eq_false : all l = some false ↔ some false ∈ l := by
  unfold all
  split
  · simpa
  · rename_i hfalse
    split <;> simpa using hfalse

theorem any_eq_true : any l = some true ↔ some true ∈ l := by
  unfold any
  split
  · simpa
  · rename_i htrue
    split <;> simpa using htrue

theorem any_eq_false : any l = some false ↔ ∀ v ∈ l, v = some false := by
  unfold any
  constructor
  · intro h v hv
    split at h
    · cases h
    · split at h
      · cases h
      · rename_i htrue hnone
        rcases v with _ | _ | _
        · exact absurd hv hnone
        · rfl
        · exact absurd hv htrue
  · intro h
    have htrue : some true ∉ l := fun hmem => by cases h _ hmem
    have hnone : none ∉ l := fun hmem => by cases h _ hmem
    rw [if_neg htrue, if_neg hnone]

@[simp] theorem all_singleton (v : Option Bool) : all [v] = v := by
  rcases v with _ | _ | _ <;> rfl

@[simp] theorem any_singleton (v : Option Bool) : any [v] = v := by
  rcases v with _ | _ | _ <;> rfl

/-- One of them is a yes. -/
theorem mem_of_one (h : one l = some true) : some true ∈ l := by
  unfold one at h
  split at h
  · cases h
  · have hcount : l.count (some true) = 1 := by simpa using h
    exact List.count_pos_iff.mp (by omega)

theorem atLeast_eq_true {n : ℕ} : atLeast n l = some true ↔ n ≤ l.count (some true) := by
  unfold atLeast
  split
  · simpa
  · rename_i hfew
    split <;> simpa using hfew

theorem atLeast_eq_false {n : ℕ} : atLeast n l = some false ↔ l.countP (· != some false) < n := by
  have hle : l.count (some true) ≤ l.countP (· != some false) := by
    refine List.countP_mono_left fun v _ htrue => ?_
    rw [eq_of_beq htrue]
    rfl
  unfold atLeast
  split
  · simp only [Option.some.injEq, Bool.true_eq_false, false_iff]
    omega
  · split
    · simpa
    · rename_i hopen
      simpa using hopen

end

section

variable {α : Type} {l : List α} {f g : α → Option Bool} {p : Bool}

theorem all_keeps (h : ∀ a ∈ l, f a = some p → g a = some p) (hf : all (l.map f) = some p) :
    all (l.map g) = some p := by
  cases p with
  | false =>
    obtain ⟨a, ha, hfalse⟩ := List.mem_map.mp (all_eq_false.mp hf)
    exact all_eq_false.mpr (List.mem_map.mpr ⟨a, ha, h a ha hfalse⟩)
  | true =>
    refine all_eq_true.mpr (List.forall_mem_map.mpr fun a ha => h a ha ?_)
    exact List.forall_mem_map.mp (all_eq_true.mp hf) a ha

theorem any_keeps (h : ∀ a ∈ l, f a = some p → g a = some p) (hf : any (l.map f) = some p) :
    any (l.map g) = some p := by
  cases p with
  | false =>
    refine any_eq_false.mpr (List.forall_mem_map.mpr fun a ha => h a ha ?_)
    exact List.forall_mem_map.mp (any_eq_false.mp hf) a ha
  | true =>
    obtain ⟨a, ha, htrue⟩ := List.mem_map.mp (any_eq_true.mp hf)
    exact any_eq_true.mpr (List.mem_map.mpr ⟨a, ha, h a ha htrue⟩)

theorem one_keeps (h : ∀ q, ∀ a ∈ l, f a = some q → g a = some q) (hf : one (l.map f) = some p) :
    one (l.map g) = some p := by
  have hnone : none ∉ l.map f := by
    intro hmem
    rw [one, if_pos hmem] at hf
    cases hf
  have heq : l.map g = l.map f := by
    refine List.map_congr_left fun a ha => ?_
    cases hfa : f a with
    | none => exact absurd (List.mem_map.mpr ⟨a, ha, hfa⟩) hnone
    | some b => exact h b a ha hfa
  rw [heq, hf]

theorem atLeast_keeps {n : ℕ} (h : ∀ a ∈ l, f a = some p → g a = some p)
    (hf : atLeast n (l.map f) = some p) : atLeast n (l.map g) = some p := by
  cases p with
  | false =>
    rw [atLeast_eq_false, List.countP_map] at hf ⊢
    refine Nat.lt_of_le_of_lt (List.countP_mono_left fun a ha hg => ?_) hf
    exact bne_iff_ne.mpr fun hfalse => bne_iff_ne.mp hg (h a ha hfalse)
  | true =>
    rw [atLeast_eq_true, List.count, List.countP_map] at hf ⊢
    refine Nat.le_trans hf (List.countP_mono_left fun a ha htrue => ?_)
    exact beq_iff_eq.mpr (h a ha (beq_iff_eq.mp htrue))

/-- An upper bound asks for the other verdict. -/
theorem within_keeps {lo hi : ℕ} (h : ∀ a ∈ l, f a = some p → g a = some p)
    (h' : l.length ≤ hi ∨ ∀ a ∈ l, f a = some (!p) → g a = some (!p))
    (hf : within lo hi (l.map f) = some p) : within lo hi (l.map g) = some p := by
  have hupper : (atLeast (hi + 1) (l.map f)).map (!·) = some p →
      (atLeast (hi + 1) (l.map g)).map (!·) = some p := by
    rw [map_not_eq_some, map_not_eq_some]
    rcases h' with hlen | h'
    · intro hatLeast
      have hfew : ∀ k : α → Option Bool, atLeast (hi + 1) (l.map k) = some false := by
        intro k
        have hle : (l.map k).countP (· != some false) ≤ (l.map k).length := List.countP_le_length
        rw [List.length_map] at hle
        exact atLeast_eq_false.mpr (by omega)
      rw [hfew] at hatLeast ⊢
      exact hatLeast
    · exact atLeast_keeps h'
  have hlower := atLeast_keeps (n := lo) h
  unfold within at hf ⊢
  cases p with
  | false =>
    rw [all_eq_false, List.mem_cons, List.mem_singleton] at hf ⊢
    exact hf.imp (fun heq => (hlower heq.symm).symm) fun heq => (hupper heq.symm).symm
  | true =>
    rw [all_eq_true, List.forall_mem_cons, List.forall_mem_singleton] at hf ⊢
    exact ⟨hlower hf.1, hupper hf.2⟩

end

end Kleene
