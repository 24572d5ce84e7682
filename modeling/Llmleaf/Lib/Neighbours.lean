import Mathlib.Data.List.Flatten
import Mathlib.Data.List.Forall2

/-!
# Lists of labelled lists

Neighbours of one label may be merged, and a list may be sorted into its elements with a property
and the others. Both keep the contents but for their arrangement, so that contents of the same
lengths are arranged alike exactly if they are the same.

- `merge`: neighbours of one label become one.
- `merge_run`: a run of one label counts as one element.
- `merge_eq_iff`: contents of the same lengths under the same labels.
- `filter_append_filter_iff`, `map_eq_sorted_iff`: a list that is its elements with a property and
  then the others.
-/

namespace Neighbours

section

variable {κ β : Type*} [DecidableEq κ]

/-- Put an element in front, merged with a neighbour of its label. -/
def join (k : κ) (bs : List β) : List (κ × List β) → List (κ × List β)
  | [] => [(k, bs)]
  | (k', bs') :: rest => if k = k' then (k, bs ++ bs') :: rest else (k, bs) :: (k', bs') :: rest

/-- Merge neighbours of one label. -/
def merge : List (κ × List β) → List (κ × List β)
  | [] => []
  | (k, bs) :: rest => join k bs (merge rest)

/-- Two elements of one label count as one. -/
theorem join_join (k : κ) (bs cs : List β) (l : List (κ × List β)) :
    join k bs (join k cs l) = join k (bs ++ cs) l := by
  cases l with
  | nil => exact if_pos rfl
  | cons e l =>
    obtain ⟨k', ds⟩ := e
    rw [join, join]
    by_cases h : k = k'
    · rw [if_pos h, if_pos h, join, if_pos rfl, List.append_assoc]
    · rw [if_neg h, if_neg h, join, if_pos rfl]

/-- **A run of one label counts as one element.** -/
theorem merge_run {k : κ} {run : List (κ × List β)} (hne : run ≠ []) (hrun : ∀ e ∈ run, e.1 = k)
    (l : List (κ × List β)) : merge (run ++ l) = join k (run.flatMap Prod.snd) (merge l) := by
  induction run with
  | nil => exact absurd rfl hne
  | cons e run ih =>
    obtain ⟨k', bs⟩ := e
    obtain rfl : k' = k := hrun _ List.mem_cons_self
    rw [List.cons_append, merge, List.flatMap_cons]
    cases run with
    | nil => rw [List.flatMap_nil, List.append_nil, List.nil_append]
    | cons e run =>
      rw [ih (List.cons_ne_nil _ _) fun e he => hrun e (List.mem_cons_of_mem _ he), join_join]

/-- The first label of what is merged. -/
theorem head_join (k : κ) (bs : List β) (l : List (κ × List β)) :
    ∃ cs l', join k bs l = (k, cs) :: l' := by
  cases l with
  | nil => exact ⟨bs, [], rfl⟩
  | cons e l =>
    rw [join]
    split
    · exact ⟨_, _, rfl⟩
    · exact ⟨_, _, rfl⟩

/-- **Contents of the same lengths under the same labels** are merged alike exactly if they are the
same. -/
theorem merge_eq_iff {a b : List (κ × List β)}
    (h : List.Forall₂ (fun x y => x.1 = y.1 ∧ x.2.length = y.2.length) a b) :
    merge a = merge b ↔ a = b := by
  constructor
  · intro heq
    induction h with
    | nil => rfl
    | @cons x y a b hxy hab ih =>
      obtain ⟨k, bs⟩ := x
      obtain ⟨k', cs⟩ := y
      obtain ⟨hk, hlen⟩ := hxy
      dsimp only at hk hlen
      subst hk
      rw [merge, merge] at heq
      cases hab with
      | nil => 
        cases heq
        rfl
      | @cons x' y' a b hxy' hab =>
        obtain ⟨k₁, bs₁⟩ := x'
        obtain ⟨k₂, cs₁⟩ := y'
        obtain ⟨hk', -⟩ := hxy'
        dsimp only at hk'
        subst hk'
        -- both begin with the label of the second element
        obtain ⟨ds, l, ha⟩ := head_join k₁ bs₁ (merge a)
        obtain ⟨es, l', hb⟩ := head_join k₁ cs₁ (merge b)
        rw [merge, merge] at heq ih
        rw [ha, hb] at heq ih
        rw [join, join] at heq
        have hboth : bs = cs ∧ ds = es ∧ l = l' := by
          split at heq
          · rw [List.cons.injEq, Prod.mk.injEq] at heq
            obtain ⟨⟨-, happend⟩, hl⟩ := heq
            obtain ⟨hbs, hds⟩ := List.append_inj happend hlen
            exact ⟨hbs, hds, hl⟩
          · simpa using heq
        obtain ⟨rfl, rfl, rfl⟩ := hboth
        rw [ih rfl]
  · rintro rfl
    rfl

end

/-! ## Sorted by a property -/

variable {α β : Type*}

/-- **A list is its elements with a property and then the others** exactly if none with it comes
after one without. -/
theorem filter_append_filter_iff {p : α → Bool} {l : List α} :
    l.filter p ++ l.filter (fun a => !p a) = l ↔ l.Pairwise fun a b => p b = true → p a = true := by
  induction l with
  | nil => exact iff_of_true rfl .nil
  | cons a l ih =>
    rw [List.pairwise_cons]
    cases ha : p a with
    | true =>
      rw [List.filter_cons_of_pos ha, List.filter_cons_of_neg (by simp [ha]), List.cons_append,
        List.cons.injEq, ih]
      simp
    | false =>
      rw [List.filter_cons_of_neg (by simp [ha]), List.filter_cons_of_pos (by simp [ha])]
      constructor
      · intro h
        -- an element with the property would be the first one
        have hnone : l.filter p = [] := by
          cases hl : l.filter p with
          | nil => rfl
          | cons b bs =>
            rw [hl, List.cons_append, List.cons.injEq] at h
            have hb : p b = true := List.of_mem_filter (hl ▸ List.mem_cons_self)
            rw [h.1, ha] at hb
            cases hb
        rw [List.filter_eq_nil_iff] at hnone
        exact ⟨fun b hb hpb => absurd hpb (hnone b hb),
          List.pairwise_of_forall_mem_list fun b _ c hc hpc => absurd hpc (hnone c hc)⟩
      · rintro ⟨hnone, -⟩
        have hfilter : l.filter p = [] :=
          List.filter_eq_nil_iff.mpr fun b hb hpb => by simpa using hnone b hb hpb
        have hall : l.filter (fun b => !p b) = l := by
          refine List.filter_eq_self.mpr fun b hb => ?_
          cases hpb : p b with
          | false => rfl
          | true => exact absurd (hnone b hb hpb) Bool.false_ne_true
        rw [hfilter, hall, List.nil_append]

/-- **Contents against others that are sorted by a property**, which they share. -/
theorem map_eq_sorted_iff {f g : α → β} {p : α → Bool} (kind : β → Bool) {l : List α}
    (hf : ∀ a ∈ l, kind (f a) = p a) (hg : ∀ a ∈ l, kind (g a) = p a) :
    l.map f = (l.filter p).map g ++ (l.filter fun a => !p a).map g ↔
      (∀ a ∈ l, f a = g a) ∧ l.Pairwise fun a b => p b = true → p a = true := by
  have hmem {a : α} (ha : a ∈ l.filter p ++ l.filter fun a => !p a) : a ∈ l :=
    (List.mem_append.mp ha).elim List.mem_of_mem_filter List.mem_of_mem_filter
  rw [← List.map_append]
  constructor
  · intro h
    have hkinds : l.map p = (l.filter p ++ l.filter fun a => !p a).map p := by
      have hsame := congrArg (List.map kind) h
      rw [List.map_map, List.map_map] at hsame
      rwa [List.map_congr_left (f := kind ∘ f) hf,
        List.map_congr_left (f := kind ∘ g) fun a ha => hg a (hmem ha)] at hsame
    have hsorted : (l.filter p ++ l.filter fun a => !p a).Pairwise
        fun a b => p b = true → p a = true := by
      refine List.pairwise_append.mpr ⟨?_, ?_, ?_⟩
      · exact List.pairwise_of_forall_mem_list fun a ha _ _ _ => List.of_mem_filter ha
      · refine List.pairwise_of_forall_mem_list fun _ _ b hb hpb => ?_
        simpa [hpb] using List.of_mem_filter hb
      · exact fun a ha _ _ _ => List.of_mem_filter ha
    have hl : l.Pairwise fun a b => p b = true → p a = true := by
      rw [← List.pairwise_map (R := fun x y => y = true → x = true) (f := p)] at hsorted ⊢
      rwa [hkinds]
    rw [filter_append_filter_iff.mpr hl] at h
    exact ⟨fun a ha => List.map_inj_left.mp h a ha, hl⟩
  · rintro ⟨hall, hsorted⟩
    rw [filter_append_filter_iff.mpr hsorted]
    exact List.map_congr_left hall

end Neighbours
