import Mathlib.Data.List.Forall2

/-!
# Traversals that may fail

`mapM_ok_iff` turns a successful traversal into a relation between the two lists; items that are
each read from what they were written as are read as a list (`mapM_map`). Lists are compared with what
their items become, where some become nothing (`forall₂_filterMap_iff`) or are not read at all
(`forall₂_of_filterMap_iff`).
-/

namespace Traverse

variable {α β γ δ ε : Type}

/-- A computation in two steps succeeds in both. -/
theorem bind_ok {x : Except ε α} {f : α → Except ε β} {b : β} (h : x >>= f = .ok b) :
    ∃ a, x = .ok a ∧ f a = .ok b := by
  cases x with
  | error e => cases h
  | ok a => exact ⟨a, rfl, h⟩

theorem map_ok {x : Except ε α} {f : α → β} {b : β} (h : x.map f = .ok b) :
    ∃ a, x = .ok a ∧ f a = b := by
  cases x with
  | error e => cases h
  | ok a => exact ⟨a, rfl, Except.ok.inj h⟩

/-- **A traversal succeeds exactly with the results of its items.** -/
theorem mapM_ok_iff {f : α → Except ε β} {as : List α} {bs : List β} :
    as.mapM f = .ok bs ↔ List.Forall₂ (fun a b => f a = .ok b) as bs := by
  induction as generalizing bs with
  | nil =>
    rw [List.mapM_nil, List.forall₂_nil_left_iff]
    exact ⟨fun h => (Except.ok.inj h).symm, fun h => h ▸ rfl⟩
  | cons a as ih =>
    rw [List.mapM_cons]
    constructor
    · intro h
      cases ha : f a with
      | error e => simp [ha, bind, Except.bind] at h
      | ok b =>
        cases has : as.mapM f with
        | error e => simp [ha, has, bind, Except.bind] at h
        | ok rest =>
          simp only [ha, has, bind, Except.bind, pure, Except.pure] at h
          cases h
          exact .cons ha (ih.mp has)
    · rintro (_ | ⟨ha, hrest⟩)
      simp [ha, ih.mpr hrest, bind, Except.bind, pure, Except.pure]

/-- A traversal succeeds where every item does. -/
theorem exists_mapM {f : α → Except ε β} {as : List α} (h : ∀ a ∈ as, ∃ b, f a = .ok b) :
    ∃ bs, as.mapM f = .ok bs := by
  induction as with
  | nil => exact ⟨[], rfl⟩
  | cons a as ih =>
    obtain ⟨b, hb⟩ := h a List.mem_cons_self
    obtain ⟨bs, hbs⟩ := ih fun x hx => h x (List.mem_cons_of_mem _ hx)
    exact ⟨b :: bs, mapM_ok_iff.mpr (.cons hb (mapM_ok_iff.mp hbs))⟩

/-- Checks succeed together exactly if each does. -/
theorem forM_ok_iff {f : α → Except ε Unit} {as : List α} :
    as.forM f = .ok () ↔ ∀ a ∈ as, f a = .ok () := by
  induction as with
  | nil => exact iff_of_true rfl fun _ h => absurd h List.not_mem_nil
  | cons a as ih =>
    rw [List.forall_mem_cons, ← ih]
    change (f a >>= fun _ => as.forM f) = .ok () ↔ _
    cases ha : f a with
    | error e => exact iff_of_false (fun h => by cases h) fun h => by cases h.1
    | ok u => exact ⟨fun h => ⟨rfl, h⟩, fun h => h.2⟩

/-- A result is that of an item. -/
theorem exists_of_mem {f : α → Except ε β} {as : List α} {bs : List β} (h : as.mapM f = .ok bs)
    {b : β} (hb : b ∈ bs) : ∃ a ∈ as, f a = .ok b := by
  induction mapM_ok_iff.mp h with
  | nil => cases hb
  | cons ha hrest ih =>
    rcases List.mem_cons.mp hb with rfl | hb
    · exact ⟨_, List.mem_cons_self, ha⟩
    · obtain ⟨a, hmem, hread⟩ := ih (mapM_ok_iff.mpr hrest) hb
      exact ⟨a, List.mem_cons_of_mem _ hmem, hread⟩

/-- The result at a place is that of the item there. -/
theorem getElem?_of_mapM {f : α → Except ε β} {as : List α} {bs : List β} (h : as.mapM f = .ok bs)
    {k : ℕ} {a : α} (ha : as[k]? = some a) : ∃ b, bs[k]? = some b ∧ f a = .ok b := by
  induction mapM_ok_iff.mp h generalizing k with
  | nil => simp at ha
  | cons hx hrest ih =>
    cases k with
    | zero => exact ⟨_, rfl, by simpa using Option.some.inj ha ▸ hx⟩
    | succ k => exact ih (mapM_ok_iff.mpr hrest) (by simpa using ha)

/-- The item at a place is what the result there was read from. -/
theorem source_of_mapM {f : α → Except ε β} {as : List α} {bs : List β} (h : as.mapM f = .ok bs)
    {k : ℕ} {b : β} (hb : bs[k]? = some b) : ∃ a, as[k]? = some a ∧ f a = .ok b := by
  obtain ⟨hlt, -⟩ := List.getElem?_eq_some_iff.mp hb
  have hlen := (mapM_ok_iff.mp h).length_eq
  have ha : as[k]? = some (as.get ⟨k, hlen ▸ hlt⟩) := List.getElem?_eq_getElem _
  obtain ⟨b', hb', hf⟩ := getElem?_of_mapM h ha
  exact ⟨_, ha, Option.some.inj (hb'.symm.trans hb) ▸ hf⟩

/-- What each item writes is read back. -/
theorem mapM_map {f : β → Except ε γ} {write : α → β} {g : α → γ} {as : List α}
    (h : ∀ a ∈ as, f (write a) = .ok (g a)) : (as.map write).mapM f = .ok (as.map g) := by
  rw [mapM_ok_iff, List.forall₂_map_left_iff, List.forall₂_map_right_iff, List.forall₂_same]
  exact h

/-- A traversal of two lists one after the other. -/
theorem mapM_append_ok {f : α → Except ε β} {as as' : List α} {bs bs' : List β}
    (h : as.mapM f = .ok bs) (h' : as'.mapM f = .ok bs') :
    (as ++ as').mapM f = .ok (bs ++ bs') := by
  rw [mapM_ok_iff] at *
  exact List.rel_append h h'

/-- A traversal of two lists is one of each. -/
theorem exists_append {f : α → Except ε β} {as as' : List α} {bs : List β}
    (h : (as ++ as').mapM f = .ok bs) :
    ∃ b b', bs = b ++ b' ∧ as.mapM f = .ok b ∧ as'.mapM f = .ok b' := by
  rw [List.mapM_append] at h
  cases hb : as.mapM f with
  | error e => rw [hb] at h; cases h
  | ok b =>
    cases hb' : as'.mapM f with
    | error e => rw [hb, hb'] at h; cases h
    | ok b' =>
      rw [hb, hb'] at h
      exact ⟨b, b', (Except.ok.inj h).symm, rfl, rfl⟩

theorem exists_cons {f : α → Except ε β} {a : α} {as : List α} {bs : List β}
    (h : (a :: as).mapM f = .ok bs) :
    ∃ b rest, bs = b :: rest ∧ f a = .ok b ∧ as.mapM f = .ok rest := by
  rcases List.forall₂_cons_left_iff.mp (mapM_ok_iff.mp h) with ⟨b, rest, ha, hrest, rfl⟩
  exact ⟨b, rest, rfl, ha, mapM_ok_iff.mpr hrest⟩

/-- What each item becomes is compared with it, where some become nothing. -/
theorem forall₂_filterMap_iff {R : α → β → Prop} {S : α → γ → Prop} {C : α → Prop}
    {f : β → Option γ} {as : List α} {bs : List β} (hR : List.Forall₂ R as bs)
    (h : ∀ a b, R a b → (f b).elim (¬ C a) fun c => S a c ↔ C a) :
    List.Forall₂ S as (bs.filterMap f) ↔ ∀ a ∈ as, C a := by
  induction hR with
  | nil => simp
  | @cons a b as bs hab hrest ih =>
    have hb := h a b hab
    rw [List.forall_mem_cons, ← ih]
    cases hf : f b with
    | some c =>
      rw [hf] at hb
      change S a c ↔ C a at hb
      rw [List.filterMap_cons_some hf, List.forall₂_cons, hb]
    | none =>
      rw [hf] at hb
      rw [List.filterMap_cons_none hf]
      refine iff_of_false (fun hall => ?_) fun hall => hb hall.1
      have hlen := hall.length_eq
      have hle := List.length_filterMap_le f bs
      rw [List.length_cons, hrest.length_eq] at hlen
      omega

/-- What the items become that are read at all, compared with all items. -/
theorem forall₂_of_filterMap_iff {R : β → γ → Prop} {S : α → δ → Prop} {C : α → Prop}
    {f : α → Option β} {g : γ → δ} {as : List α} {cs : List γ}
    (hR : List.Forall₂ R (as.filterMap f) cs)
    (hsome : ∀ a b c, f a = some b → R b c → (S a (g c) ↔ C a)) (hnone : ∀ a, f a = none → ¬ C a) :
    List.Forall₂ S as (cs.map g) ↔ ∀ a ∈ as, C a := by
  induction as generalizing cs with
  | nil =>
    cases hR
    simp
  | cons a as ih =>
    rw [List.forall_mem_cons]
    cases hf : f a with
    | some b =>
      rw [List.filterMap_cons_some hf] at hR
      obtain ⟨c, rest, hbc, hrest, rfl⟩ := List.forall₂_cons_left_iff.mp hR
      rw [List.map_cons, List.forall₂_cons, hsome a b c hf hbc, ih hrest]
    | none =>
      rw [List.filterMap_cons_none hf] at hR
      refine iff_of_false (fun hall => ?_) fun hall => hnone a hf hall.1
      have hlen := hall.length_eq
      have hle := List.length_filterMap_le f as
      rw [List.length_cons, List.length_map, ← hR.length_eq] at hlen
      omega

/-- Items that are all there. -/
theorem mapM_some {f : α → Option β} {g : α → β} {as : List α} (h : ∀ a ∈ as, f a = some (g a)) :
    as.mapM f = some (as.map g) := by
  induction as with
  | nil => rfl
  | cons a as ih =>
    rw [List.mapM_cons, h a List.mem_cons_self, ih fun b hb => h b (List.mem_cons_of_mem _ hb)]
    rfl

end Traverse
