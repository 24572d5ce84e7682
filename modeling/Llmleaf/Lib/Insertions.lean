import Mathlib.Data.List.Induction
import Mathlib.Data.List.InsertIdx

/-!
# Sequences of insertions

Elements are inserted into a list one after another, each at a place that may depend on the list
so far. Places beyond the end are clamped.

- `insertAll pos elt base ms`: the list after inserting the elements of `ms` into `base`.
- `SamePlaces`: two rules put every element at the same place.
- `SamePlaces.insertAll_eq`, `samePlaces_of_insertAll_eq`: two rules with the same places give the
  same list, and only these do if no two of the inserted elements are equal.
-/

namespace Insertions

variable {α μ : Type*}

/-- Inserting two elements gives the same list only at the same place, if they are new. -/
theorem insertIdx_inj {l l' : List α} {i j : ℕ} {a b : α} (hj : j ≤ l'.length) (hb : b ∉ l)
    (h : l.insertIdx i a = l'.insertIdx j b) : i = j ∧ a = b ∧ l = l' := by
  have hmem : b ∈ l.insertIdx i a := h ▸ (List.mem_insertIdx hj).mpr (.inl rfl)
  have hab : a = b := by
    rcases List.eq_or_mem_of_mem_insertIdx hmem with e | hmem
    · exact e.symm
    · exact absurd hmem hb
  subst hab
  have hget : (l.insertIdx i a)[j]? = some a := by
    rw [h, List.getElem?_insertIdx_self, if_pos hj]
  have hij : i = j := by
    rcases Nat.lt_trichotomy j i with hlt | heq | hgt
    · rw [List.getElem?_insertIdx_of_lt hlt] at hget
      exact absurd (List.mem_of_getElem? hget) hb
    · exact heq.symm
    · rw [List.getElem?_insertIdx_of_gt hgt] at hget
      exact absurd (List.mem_of_getElem? hget) hb
  subst hij
  exact ⟨rfl, rfl, List.insertIdx_injective i a h⟩

/-- An insertion before the last element. -/
theorem insertIdx_append_singleton {l : List α} {i : ℕ} (h : i ≤ l.length) (a b : α) :
    (l ++ [b]).insertIdx i a = l.insertIdx i a ++ [b] := by
  induction l generalizing i with
  | nil => obtain rfl : i = 0 := by simpa using h
           rfl
  | cons c l ih =>
    cases i with
    | zero => rfl
    | succ i =>
      have hi : i ≤ l.length := by simpa using h
      simp [ih hi]

/-- The elements of one kind, when an element of another kind is inserted. -/
theorem filter_insertIdx {p : α → Bool} {a : α} (ha : p a = false) (l : List α) (i : ℕ) :
    (l.insertIdx i a).filter p = l.filter p := by
  induction l generalizing i with
  | nil => cases i <;> simp [ha]
  | cons c l ih =>
    cases i with
    | zero => simp [ha]
    | succ i =>
      simp only [List.insertIdx_succ_cons, List.filter_cons, ih]

/-- The leading elements of one kind end where an element of another kind is inserted. -/
theorem takeWhile_insertIdx {p : α → Bool} {a : α} (ha : p a = false) {l : List α} {i : ℕ}
    (h : i ≤ l.length) :
    ((l.insertIdx i a).takeWhile p).length = min i (l.takeWhile p).length := by
  induction l generalizing i with
  | nil => obtain rfl : i = 0 := by simpa using h
           simp [ha]
  | cons c l ih =>
    cases i with
    | zero => simp [ha]
    | succ i =>
      have hi : i ≤ l.length := by simpa using h
      by_cases hc : p c = true
      · simp [hc, ih hi]
      · simp [hc]

/-- Where a rule puts an element. -/
def placeAt (pos : List α → μ → ℕ) (l : List α) (m : μ) : ℕ := min (pos l m) l.length

/-- Insert one element. -/
def insertOne (pos : List α → μ → ℕ) (elt : ℕ → μ → α) (l : List α) (m : μ) : List α :=
  l.insertIdx (placeAt pos l m) (elt (placeAt pos l m) m)

/-- Insert elements one after another. -/
def insertAll (pos : List α → μ → ℕ) (elt : ℕ → μ → α) (base : List α) (ms : List μ) : List α :=
  ms.foldl (insertOne pos elt) base

variable {pos pos' : List α → μ → ℕ} {elt elt' : ℕ → μ → α} {base : List α}

theorem placeAt_le (l : List α) (m : μ) : placeAt pos l m ≤ l.length := Nat.min_le_right _ _

theorem insertAll_snoc (ms : List μ) (m : μ) :
    insertAll pos elt base (ms ++ [m]) = insertOne pos elt (insertAll pos elt base ms) m :=
  List.foldl_append

theorem length_insertAll (pos : List α → μ → ℕ) (elt : ℕ → μ → α) (base : List α)
    (ms : List μ) :
    (insertAll pos elt base ms).length = base.length + ms.length := by
  induction ms using List.reverseRecOn with
  | nil => rfl
  | append_singleton ms m ih =>
    rw [insertAll_snoc, insertOne, List.length_insertIdx_of_le_length (placeAt_le _ _), ih,
      List.length_append, List.length_singleton, Nat.add_assoc]

/-- A map that neither the places nor the inserted elements depend on. -/
theorem map_insertAll {β : Type*} {f : α → β} {posf : List β → μ → ℕ} {eltf : ℕ → μ → β}
    (hpos : ∀ l m, posf (l.map f) m = pos l m) (helt : ∀ i m, f (elt i m) = eltf i m)
    (ms : List μ) :
    (insertAll pos elt base ms).map f = insertAll posf eltf (base.map f) ms := by
  induction ms using List.reverseRecOn with
  | nil => rfl
  | append_singleton ms m ih =>
    rw [insertAll_snoc, insertAll_snoc, ← ih, insertOne, insertOne, List.map_insertIdx, helt]
    simp only [placeAt, hpos, List.length_map]

/-- The elements of one kind, when elements of another kind are inserted. -/
theorem filter_insertAll {p : α → Bool} (helt : ∀ i m, p (elt i m) = false) (ms : List μ) :
    (insertAll pos elt base ms).filter p = base.filter p := by
  induction ms using List.reverseRecOn with
  | nil => rfl
  | append_singleton ms m ih =>
    rw [insertAll_snoc, insertOne, filter_insertIdx (helt _ _), ih]

/-- Insertions that do not reach the end leave a last element where it is. -/
theorem insertAll_append_singleton (place : μ → ℕ) {ms : List μ}
    (h : ∀ l m r, ms = l ++ m :: r → place m ≤ base.length + l.length) (a : α) :
    insertAll (fun _ => place) elt (base ++ [a]) ms =
      insertAll (fun _ => place) elt base ms ++ [a] := by
  induction ms using List.reverseRecOn with
  | nil => rfl
  | append_singleton ms m ih =>
    have hlast := h ms m [] rfl
    have hlen := length_insertAll (fun _ => place) elt base ms
    rw [insertAll_snoc, insertAll_snoc, ih fun l b r e => h l b (r ++ [m]) (by simp [e])]
    simp only [insertOne, placeAt, List.length_append, List.length_singleton, hlen,
      Nat.min_eq_left hlast, Nat.min_eq_left (Nat.le_succ_of_le hlast)]
    exact insertIdx_append_singleton (by omega) _ _

/-- Every element of the list was there or has been inserted. -/
theorem mem_insertAll {ms : List μ} {a : α} (h : a ∈ insertAll pos elt base ms) :
    a ∈ base ∨ ∃ m ∈ ms, ∃ i, a = elt i m := by
  induction ms using List.reverseRecOn with
  | nil => exact .inl h
  | append_singleton ms m ih =>
    rw [insertAll_snoc] at h
    rcases List.eq_or_mem_of_mem_insertIdx h with rfl | h
    · exact .inr ⟨m, by simp, _, rfl⟩
    · rcases ih h with hbase | ⟨m', hm', i, hi⟩
      · exact .inl hbase
      · exact .inr ⟨m', List.mem_append_left _ hm', i, hi⟩

/-- Every element of `ms` is inserted somewhere. -/
theorem exists_mem_insertAll (pos : List α → μ → ℕ) (elt : ℕ → μ → α) (base : List α)
    {ms : List μ} {m : μ} (h : m ∈ ms) :
    ∃ i, elt i m ∈ insertAll pos elt base ms := by
  induction ms using List.reverseRecOn with
  | nil => simp at h
  | append_singleton ms m' ih =>
    rw [insertAll_snoc]
    rcases List.mem_append.mp h with h | h
    · obtain ⟨i, hi⟩ := ih h
      exact ⟨i, List.subset_insertIdx _ _ _ hi⟩
    · obtain rfl : m = m' := by simpa using h
      exact ⟨_, (List.mem_insertIdx (placeAt_le _ _)).mpr (.inl rfl)⟩

/-- Two rules put every element at the same place. -/
def SamePlaces (pos pos' : List α → μ → ℕ) (elt elt' : ℕ → μ → α) (base : List α)
    (ms : List μ) : Prop :=
  ∀ l m r, ms = l ++ m :: r →
    placeAt pos (insertAll pos' elt' base l) m = placeAt pos' (insertAll pos' elt' base l) m ∧
      elt (placeAt pos' (insertAll pos' elt' base l) m) m =
        elt' (placeAt pos' (insertAll pos' elt' base l) m) m

theorem SamePlaces.init {ms : List μ} {m : μ}
    (h : SamePlaces pos pos' elt elt' base (ms ++ [m])) : SamePlaces pos pos' elt elt' base ms := by
  intro l a r e
  exact h l a (r ++ [m]) (by simp [e])

/-- Rules with the same places give the same list. -/
theorem SamePlaces.insertAll_eq {ms : List μ} (h : SamePlaces pos pos' elt elt' base ms) :
    insertAll pos elt base ms = insertAll pos' elt' base ms := by
  induction ms using List.reverseRecOn with
  | nil => rfl
  | append_singleton ms m ih =>
    obtain ⟨hplace, helt⟩ := h ms m [] rfl
    rw [insertAll_snoc, insertAll_snoc, ih h.init, insertOne, insertOne, hplace, helt]

/-- Elements of which no two are equal, wherever they are put, and none is in the list, give the
same list only under rules with the same places. -/
theorem samePlaces_of_insertAll_eq {ms : List μ} (hbase : ∀ m ∈ ms, ∀ i, elt' i m ∉ base)
    (hapart : ms.Pairwise fun m m' => ∀ i j, elt i m ≠ elt' j m')
    (h : insertAll pos elt base ms = insertAll pos' elt' base ms) :
    SamePlaces pos pos' elt elt' base ms := by
  induction ms using List.reverseRecOn with
  | nil => intro l m r e; simp at e
  | append_singleton ms m ih =>
    rw [insertAll_snoc, insertAll_snoc] at h
    obtain ⟨hapart', -, hlast⟩ := List.pairwise_append.mp hapart
    have hnew : elt' (placeAt pos' (insertAll pos' elt' base ms) m) m ∉
        insertAll pos elt base ms := by
      intro hmem
      rcases mem_insertAll hmem with hmem | ⟨m', hm', i, hi⟩
      · exact hbase m (by simp) _ hmem
      · exact hlast m' hm' m (by simp) _ _ hi.symm
    obtain ⟨hplace, helt, hlist⟩ := insertIdx_inj (placeAt_le _ _) hnew h
    have hinit := ih (fun m' hm' => hbase m' (List.mem_append_left _ hm')) hapart' hlist
    intro l a r e
    rcases List.eq_nil_or_concat r with rfl | ⟨r, b, rfl⟩
    · obtain ⟨rfl, rfl⟩ : ms = l ∧ m = a := by simpa using e
      rw [hlist] at hplace helt
      exact ⟨hplace, by rw [← helt, hplace]⟩
    · have hsplit : ms ++ [m] = (l ++ a :: r) ++ [b] := by simpa using e
      exact hinit l a r (List.append_inj' hsplit rfl).1

end Insertions
