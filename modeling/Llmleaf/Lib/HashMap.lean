import Mathlib.Data.Finmap
import Mathlib.Data.List.Induction
import Mathlib.Data.List.Sort

/-!
# Hash maps

A hash map is an association list with distinct keys, read through `AList.lookup`. The order of the
list carries no meaning: where a program iterates over a map, the model lists its pairs through a
`Shuffle`, so a result about the program holds for every iteration order.

- `pairs`, `values`: what an iteration yields; `mem_pairs`, `mem_values`: exactly the entries.
- `collect`: build a map from a list, the last pair of a key wins.
- `lookup_foldl_orInsert`: of pairs inserted without overwriting, the first of a key stays.
- `lookup_collect_append`, `lookup_collect_nodup`: what the built map holds.
- `lookup_collect_filterMap`: the map of some entries' images.
- `lookup_collect_values`: a map whose values know their key is rebuilt from any order of them.
- `values_insert`, `values_erase`: the values as a bag.
- `mapVal`: the image of a finite map, where equality of maps must not see the order either.
-/

/-- A hash map: distinct keys, each with one value. -/
abbrev HashMap (κ ν : Type) := AList fun _ : κ => ν

/-- An iteration order: some permutation of every list. -/
structure Shuffle (α : Type) where
  order : List α → List α
  perm : ∀ l, (order l).Perm l

namespace Shuffle

/-- The iteration order that is the order of the list. -/
def id (α : Type) : Shuffle α := ⟨fun l => l, fun _ => .refl _⟩

/-- The iteration order that yields `a` first, if it is there. -/
def front {α : Type} [DecidableEq α] (a : α) : Shuffle α where
  order l := if a ∈ l then a :: l.erase a else l
  perm l := by
    split
    · rename_i h
      exact (List.perm_cons_erase h).symm
    · exact .refl _

@[simp] theorem mem_order {α : Type} (s : Shuffle α) {l : List α} {a : α} :
    a ∈ s.order l ↔ a ∈ l :=
  (s.perm l).mem_iff

end Shuffle

namespace HashMap

variable {κ ν : Type}

/-- The entries as pairs. -/
def pairs (m : HashMap κ ν) : List (κ × ν) := m.entries.map fun e => (e.1, e.2)

/-- The values, without their keys. -/
def values (m : HashMap κ ν) : List ν := m.pairs.map Prod.snd

/-- The entries in the order of their keys. -/
def ascending [LinearOrder κ] (m : HashMap κ ν) : List (κ × ν) :=
  m.pairs.insertionSort fun a b => a.1 ≤ b.1

theorem mem_ascending [LinearOrder κ] {m : HashMap κ ν} {e : κ × ν} :
    e ∈ m.ascending ↔ e ∈ m.pairs := List.mem_insertionSort _

/-- The keys of the entries, in the order of `pairs`. -/
theorem pairs_keys (m : HashMap κ ν) : m.pairs.map Prod.fst = m.keys := by
  simp [pairs, AList.keys, List.keys, Function.comp_def]

theorem nodup_pairs_keys (m : HashMap κ ν) : (m.pairs.map Prod.fst).Nodup := by
  rw [pairs_keys]
  exact m.keys_nodup

theorem nodup_ascending_keys [LinearOrder κ] (m : HashMap κ ν) :
    (m.ascending.map Prod.fst).Nodup :=
  ((List.perm_insertionSort _ _).map _).nodup_iff.mpr m.nodup_pairs_keys

variable [DecidableEq κ]

theorem mem_pairs {m : HashMap κ ν} {k : κ} {v : ν} : (k, v) ∈ m.pairs ↔ m.lookup k = some v := by
  rw [← Option.mem_def, AList.mem_lookup_iff]
  constructor
  · intro h
    obtain ⟨⟨k', v'⟩, he, heq⟩ := List.mem_map.mp h
    cases heq
    exact he
  · exact fun h => List.mem_map.mpr ⟨⟨k, v⟩, h, rfl⟩

theorem mem_values {m : HashMap κ ν} {v : ν} : v ∈ m.values ↔ ∃ k, m.lookup k = some v := by
  simp only [values, List.mem_map, Prod.exists, exists_eq_right, mem_pairs]

theorem mem_iff_lookup {m : HashMap κ ν} {k : κ} : k ∈ m ↔ ∃ v, m.lookup k = some v := by
  rw [← AList.lookup_isSome, Option.isSome_iff_exists]

theorem not_mem_iff_lookup {m : HashMap κ ν} {k : κ} : k ∉ m ↔ m.lookup k = none :=
  AList.lookup_eq_none.symm

theorem lookup_insert_eq (m : HashMap κ ν) (k k' : κ) (v : ν) :
    (m.insert k v).lookup k' = if k' = k then some v else m.lookup k' := by
  split
  · rename_i h
    rw [h, AList.lookup_insert]
  · rename_i h
    rw [AList.lookup_insert_ne h]

theorem lookup_erase_eq (m : HashMap κ ν) (k k' : κ) :
    (m.erase k).lookup k' = if k' = k then none else m.lookup k' := by
  split
  · rename_i h
    rw [h, AList.lookup_erase]
  · rename_i h
    rw [AList.lookup_erase_ne h]

theorem length_insert_le (m : HashMap κ ν) (k : κ) (v : ν) :
    (m.insert k v).keys.length ≤ m.keys.length + 1 := by
  rw [AList.keys_insert, List.length_cons]
  exact Nat.add_le_add_right List.length_erase_le 1

/-- What is left after some keys have been erased was there before. -/
theorem lookup_foldl_erase {ks : List κ} {m : HashMap κ ν} {k : κ} {v : ν}
    (h : (ks.foldl (fun m k => m.erase k) m).lookup k = some v) : m.lookup k = some v := by
  induction ks generalizing m with
  | nil => exact h
  | cons k' ks ih =>
    have hrest := ih h
    rw [lookup_erase_eq] at hrest
    split at hrest
    · cases hrest
    · exact hrest

theorem length_foldl_erase (ks : List κ) (m : HashMap κ ν) :
    (ks.foldl (fun m k => m.erase k) m).keys.length ≤ m.keys.length := by
  induction ks generalizing m with
  | nil => exact le_rfl
  | cons k ks ih =>
    refine (ih (m.erase k)).trans ?_
    rw [AList.keys_erase]
    exact List.length_erase_le

/-- Insert a value unless the key has one. -/
def orInsert (m : HashMap κ ν) (k : κ) (v : ν) : HashMap κ ν := if k ∈ m then m else m.insert k v

theorem lookup_orInsert (m : HashMap κ ν) (k k' : κ) (v : ν) :
    (m.orInsert k v).lookup k' = (m.lookup k').or (if k = k' then some v else none) := by
  rw [orInsert]
  split
  · rename_i h
    obtain ⟨w, hw⟩ := mem_iff_lookup.mp h
    by_cases hk : k = k'
    · subst hk
      rw [hw, Option.some_or]
    · rw [if_neg hk, Option.or_none]
  · rename_i h
    rw [lookup_insert_eq]
    by_cases hk : k' = k
    · subst hk
      rw [if_pos rfl, if_pos rfl, not_mem_iff_lookup.mp h, Option.none_or]
    · rw [if_neg hk, if_neg (Ne.symm hk), Option.or_none]

/-- Inserting a list without overwriting: the map decides, then the first pair of a key. -/
theorem lookup_foldl_orInsert (l : List (κ × ν)) (m : HashMap κ ν) (k : κ) :
    (l.foldl (fun m e => m.orInsert e.1 e.2) m).lookup k =
      (m.lookup k).or ((l.find? fun e => e.1 = k).map Prod.snd) := by
  induction l generalizing m with
  | nil => simp
  | cons e l ih =>
    rw [List.foldl_cons, ih, lookup_orInsert, Option.or_assoc]
    congr 1
    by_cases hk : e.1 = k
    · simp [hk]
    · simp [hk]

/-- Replace the value of a key by its image, that of a missing key by the image of `d`. -/
def update (m : HashMap κ ν) (k : κ) (d : ν) (f : ν → ν) : HashMap κ ν :=
  m.insert k (f ((m.lookup k).getD d))

theorem lookup_update (m : HashMap κ ν) (k k' : κ) (d : ν) (f : ν → ν) :
    (m.update k d f).lookup k' = if k' = k then some (f ((m.lookup k).getD d)) else m.lookup k' :=
  lookup_insert_eq ..

theorem mem_update {m : HashMap κ ν} {k k' : κ} {d : ν} {f : ν → ν} :
    k' ∈ m.update k d f ↔ k' = k ∨ k' ∈ m := AList.mem_insert m

omit [DecidableEq κ] in
/-- Entries with distinct keys have one order. -/
theorem eq_of_perm_of_sorted [LinearOrder κ] {l l' : List (κ × ν)}
    (hnodup : (l.map Prod.fst).Nodup) (hperm : l.Perm l')
    (hl : l.Pairwise fun a b => a.1 ≤ b.1) (hl' : l'.Pairwise fun a b => a.1 ≤ b.1) : l = l' := by
  refine hperm.eq_of_pairwise ?_ hl hl'
  intro a b ha hb hab hba
  exact List.inj_on_of_nodup_map hnodup ha (hperm.mem_iff.mpr hb) (le_antisymm hab hba)

/-- A map given by a list of its entries: in the order of their keys. -/
theorem ascending_eq_sort [LinearOrder κ] {m : HashMap κ ν} {l : List (κ × ν)}
    (hnodup : (l.map Prod.fst).Nodup) (h : ∀ e, e ∈ l ↔ m.lookup e.1 = some e.2) :
    m.ascending = l.insertionSort fun a b => a.1 ≤ b.1 := by
  have hperm : m.ascending.Perm (l.insertionSort fun a b => a.1 ≤ b.1) := by
    refine (List.perm_insertionSort _ _).trans (.trans ?_ (List.perm_insertionSort _ _).symm)
    refine (List.perm_ext_iff_of_nodup m.nodup_pairs_keys.of_map hnodup.of_map).mpr fun e => ?_
    rw [h]
    exact mem_pairs
  exact eq_of_perm_of_sorted m.nodup_ascending_keys hperm (List.pairwise_insertionSort _ _)
    (List.pairwise_insertionSort _ _)

/-- The entries in the order of their keys do not depend on how the map was built. -/
theorem ascending_congr [LinearOrder κ] {m m' : HashMap κ ν}
    (h : ∀ k, m.lookup k = m'.lookup k) : m.ascending = m'.ascending :=
  ascending_eq_sort m'.nodup_pairs_keys fun e => by rw [h, ← mem_pairs]

omit [DecidableEq κ] in
/-- The keys in increasing order: any list of them without repetition is a permutation. -/
theorem ascending_keys_perm [LinearOrder κ] {m : HashMap κ ν} {keys : List κ} (hkeys : keys.Nodup)
    (h : ∀ k, k ∈ m ↔ k ∈ keys) : (m.ascending.map Prod.fst).Perm keys := by
  have hperm : (m.ascending.map Prod.fst).Perm (m.pairs.map Prod.fst) :=
    (List.perm_insertionSort _ _).map _
  refine hperm.trans ((List.perm_ext_iff_of_nodup m.nodup_pairs_keys hkeys).mpr fun k => ?_)
  rw [pairs_keys]
  exact AList.mem_keys.trans (h k)

/-- A map given on a list of keys in increasing order. -/
theorem ascending_eq_map [LinearOrder κ] {m : HashMap κ ν} {keys : List κ} {f : κ → ν}
    (hsorted : keys.Pairwise (· < ·))
    (h : ∀ k, m.lookup k = if k ∈ keys then some (f k) else none) :
    m.ascending = keys.map fun k => (k, f k) := by
  have hkeys : keys.Nodup := hsorted.imp fun hlt => ne_of_lt hlt
  have hnodup : ((keys.map fun k => (k, f k)).map Prod.fst).Nodup := by
    simpa [Function.comp_def] using hkeys
  have hle : (keys.map fun k => (k, f k)).Pairwise fun a b => a.1 ≤ b.1 :=
    List.pairwise_map.mpr (hsorted.imp fun hlt => le_of_lt hlt)
  rw [ascending_eq_sort hnodup fun e => ?_, hle.insertionSort_eq]
  rw [h, List.mem_map]
  constructor
  · rintro ⟨k, hk, rfl⟩
    exact if_pos hk
  · intro hf
    split at hf
    · rename_i hk
      exact ⟨e.1, hk, Prod.ext rfl (Option.some.inj hf)⟩
    · cases hf

/-! ## Filtering and mapping -/

/-- The entries that meet a condition. -/
def retain (f : κ → ν → Bool) (m : HashMap κ ν) : HashMap κ ν :=
  ⟨m.entries.filter fun e => f e.1 e.2, m.nodupKeys.sublist List.filter_sublist⟩

theorem lookup_retain (f : κ → ν → Bool) (m : HashMap κ ν) (k : κ) :
    (m.retain f).lookup k = (m.lookup k).filter (f k) := by
  apply Option.ext
  intro v
  rw [← Option.mem_def, ← Option.mem_def, AList.mem_lookup_iff, Option.mem_filter_iff,
    AList.mem_lookup_iff]
  simp [retain]

/-- Every value replaced by its image. -/
def map {μ : Type} (f : κ → ν → μ) (m : HashMap κ ν) : HashMap κ μ :=
  ⟨m.entries.map (Sigma.map (fun k => k) f), by
    rw [List.NodupKeys, List.keys, List.map_map]
    exact m.nodupKeys⟩

theorem lookup_map {μ : Type} (f : κ → ν → μ) (m : HashMap κ ν) (k : κ) :
    (m.map f).lookup k = (m.lookup k).map (f k) :=
  List.dlookup_map m.entries (fun _ _ h => h) f k

/-- The images in the order of the keys. -/
theorem ascending_map [LinearOrder κ] {μ : Type} (f : κ → ν → μ) (m : HashMap κ ν) :
    (m.map f).ascending = m.ascending.map fun e => (e.1, f e.1 e.2) := by
  have hfst : (m.ascending.map fun e => (e.1, f e.1 e.2)).map Prod.fst = m.ascending.map Prod.fst := by
    rw [List.map_map]
    rfl
  have hsorted : (m.ascending.map fun e => (e.1, f e.1 e.2)).Pairwise fun a b => a.1 ≤ b.1 :=
    List.pairwise_map.mpr (List.pairwise_insertionSort _ _)
  rw [ascending_eq_sort (hfst ▸ m.nodup_ascending_keys) fun e => ?_, hsorted.insertionSort_eq]
  obtain ⟨k, w⟩ := e
  rw [lookup_map, Option.map_eq_some_iff, List.mem_map]
  constructor
  · rintro ⟨⟨k', v⟩, hmem, heq⟩
    cases heq
    exact ⟨v, mem_pairs.mp (mem_ascending.mp hmem), rfl⟩
  · rintro ⟨v, hv, hw⟩
    exact ⟨(k, v), mem_ascending.mpr (mem_pairs.mpr hv), Prod.ext rfl hw⟩

/-! ## Building a map from a list -/

/-- Build a map from pairs: the last pair of a key wins. -/
def collect (l : List (κ × ν)) : HashMap κ ν := l.foldl (fun m e => m.insert e.1 e.2) ∅

/-- Inserting a list into a map. -/
theorem lookup_foldl_insert (l : List (κ × ν)) (m : HashMap κ ν) (k : κ) :
    (l.foldl (fun m e => m.insert e.1 e.2) m).lookup k = ((collect l).lookup k).or (m.lookup k) := by
  induction l using List.reverseRecOn with
  | nil => simp [collect]
  | append_singleton l e ih =>
    simp only [collect, List.foldl_append, List.foldl_cons, List.foldl_nil] at ih ⊢
    rw [lookup_insert_eq, lookup_insert_eq, ih]
    split <;> simp

@[simp] theorem lookup_collect_nil (k : κ) : (collect ([] : List (κ × ν))).lookup k = none := rfl

/-- Of two lists the later one decides, where it has the key. -/
theorem lookup_collect_append (a b : List (κ × ν)) (k : κ) :
    (collect (a ++ b)).lookup k = ((collect b).lookup k).or ((collect a).lookup k) := by
  rw [collect, List.foldl_append, lookup_foldl_insert]
  rfl

theorem lookup_collect_cons (e : κ × ν) (l : List (κ × ν)) (k : κ) :
    (collect (e :: l)).lookup k =
      ((collect l).lookup k).or (if k = e.1 then some e.2 else none) := by
  have h := lookup_collect_append [e] l k
  rw [List.singleton_append] at h
  rw [h]
  congr 1
  simp only [collect, List.foldl_cons, List.foldl_nil]
  rw [lookup_insert_eq]
  simp

theorem lookup_collect_mem {l : List (κ × ν)} {k : κ} {v : ν}
    (h : (collect l).lookup k = some v) : (k, v) ∈ l := by
  induction l with
  | nil => simp at h
  | cons e l ih =>
    rw [lookup_collect_cons] at h
    cases hl : (collect l).lookup k with
    | some w =>
      rw [hl] at h
      exact List.mem_cons_of_mem _ (ih (by rw [hl]; exact h))
    | none =>
      rw [hl] at h
      simp only [Option.none_or] at h
      split at h
      · rename_i he
        cases h
        rw [he]
        exact List.mem_cons_self ..
      · cases h

theorem lookup_collect_isSome {l : List (κ × ν)} {k : κ} :
    ((collect l).lookup k).isSome ↔ k ∈ l.map Prod.fst := by
  induction l with
  | nil => simp
  | cons e l ih =>
    rw [lookup_collect_cons, Option.isSome_or, Bool.or_eq_true, ih, List.map_cons, List.mem_cons]
    by_cases hk : k = e.1 <;> simp [hk]

theorem lookup_collect_eq_none {l : List (κ × ν)} {k : κ} :
    (collect l).lookup k = none ↔ k ∉ l.map Prod.fst := by
  rw [← lookup_collect_isSome, Option.not_isSome_iff_eq_none]

/-- With distinct keys the map holds exactly the listed pairs. -/
theorem lookup_collect_nodup {l : List (κ × ν)} (h : (l.map Prod.fst).Nodup) {k : κ} {v : ν} :
    (collect l).lookup k = some v ↔ (k, v) ∈ l := by
  refine ⟨lookup_collect_mem, fun hm => ?_⟩
  obtain ⟨w, hw⟩ := Option.isSome_iff_exists.mp
    (lookup_collect_isSome.mpr (List.mem_map_of_mem (f := Prod.fst) hm))
  have hkw := lookup_collect_mem hw
  have he : ((k, v) : κ × ν) = (k, w) := List.inj_on_of_nodup_map h hm hkw rfl
  cases he
  exact hw

/-- A map is rebuilt from its pairs in any order. -/
theorem lookup_collect_pairs (m : HashMap κ ν) (s : Shuffle (κ × ν)) (k : κ) :
    (collect (s.order m.pairs)).lookup k = m.lookup k := by
  have hnodup : ((s.order m.pairs).map Prod.fst).Nodup := by
    rw [List.Perm.nodup_iff ((s.perm _).map _)]
    exact m.nodup_pairs_keys
  apply Option.ext
  intro v
  rw [lookup_collect_nodup hnodup, s.mem_order, mem_pairs]

/-- Where every value knows its key, the map is rebuilt from its values in any order. -/
theorem lookup_collect_values {m : HashMap κ ν} (key : ν → κ) (hkey : ∀ k v, m.lookup k = some v → key v = k)
    (s : Shuffle ν) (k : κ) :
    (collect ((s.order m.values).map fun v => (key v, v))).lookup k = m.lookup k := by
  have hmap : ((m.values.map fun v => (key v, v)).map Prod.fst) = m.pairs.map Prod.fst := by
    simp only [values, List.map_map]
    refine List.map_congr_left fun e he => ?_
    exact hkey e.1 e.2 (mem_pairs.mp he)
  have hnodup : (((s.order m.values).map fun v => (key v, v)).map Prod.fst).Nodup := by
    rw [List.Perm.nodup_iff (((s.perm _).map _).map _), hmap]
    exact m.nodup_pairs_keys
  apply Option.ext
  intro v
  rw [lookup_collect_nodup hnodup, ← Option.mem_def]
  constructor
  · intro h
    obtain ⟨v', hv, heq⟩ := List.mem_map.mp h
    cases heq
    obtain ⟨k', hk'⟩ := mem_values.mp ((s.mem_order).mp hv)
    rw [hkey _ _ hk']
    exact hk'
  · intro h
    refine List.mem_map.mpr ⟨v, s.mem_order.mpr (mem_values.mpr ⟨k, h⟩), ?_⟩
    rw [hkey _ _ h]

omit [DecidableEq κ] in
theorem nodup_filterMap_keys {μ : Type} {l : List (κ × ν)} (h : (l.map Prod.fst).Nodup)
    (f : ν → Option μ) :
    ((l.filterMap fun e => (f e.2).map fun v => (e.1, v)).map Prod.fst).Nodup := by
  refine h.sublist ?_
  induction l with
  | nil => exact .slnil
  | cons e l ih =>
    have htail := ih (List.nodup_cons.mp h).2
    rw [List.filterMap_cons]
    cases f e.2 with
    | none => exact htail.cons _
    | some v => exact htail.cons_cons _

/-- A map made of some entries of another, each with an image of its value. -/
theorem lookup_collect_filterMap [LinearOrder κ] {μ : Type} (m : HashMap κ ν) (f : ν → Option μ)
    (k : κ) :
    (collect (m.ascending.filterMap fun e => (f e.2).map fun v => (e.1, v))).lookup k =
      (m.lookup k).bind f := by
  have hnodup : (m.ascending.map Prod.fst).Nodup :=
    ((List.perm_insertionSort _ _).map Prod.fst).nodup_iff.mpr m.nodup_pairs_keys
  apply Option.ext
  intro v
  rw [lookup_collect_nodup (nodup_filterMap_keys hnodup f), List.mem_filterMap,
    Option.bind_eq_some_iff]
  constructor
  · rintro ⟨⟨k', w⟩, he, hv⟩
    obtain ⟨v', hv', heq⟩ := Option.map_eq_some_iff.mp hv
    cases heq
    exact ⟨w, mem_pairs.mp (mem_ascending.mp he), hv'⟩
  · rintro ⟨w, hw, hv⟩
    exact ⟨(k, w), mem_ascending.mpr (mem_pairs.mpr hw), by rw [hv, Option.map_some]⟩

/-! ## What goes into the values and comes out of them -/

omit [DecidableEq κ] in
theorem values_eq (m : HashMap κ ν) : m.values = m.entries.map Sigma.snd := by
  rw [values, pairs, List.map_map]
  rfl

theorem values_insert {m : HashMap κ ν} {k : κ} (h : k ∉ m) (v : ν) :
    values (m.insert k v) = v :: m.values := by
  rw [values_eq, values_eq, AList.entries_insert_of_notMem h, List.map_cons]

theorem values_erase {m : HashMap κ ν} {k : κ} {v : ν} (h : m.lookup k = some v) :
    m.values.Perm (v :: values (m.erase k)) := by
  obtain ⟨w, l₁, l₂, -, hentries, herase⟩ :=
    List.exists_of_kerase (mem_iff_lookup.mpr ⟨v, h⟩ : k ∈ m.entries.keys)
  have hw : m.lookup k = some w :=
    AList.mem_lookup_iff.mpr (hentries ▸ List.mem_append_right _ List.mem_cons_self)
  cases h.symm.trans hw
  have hrest : (m.erase k).entries = l₁ ++ l₂ := herase
  rw [values_eq, values_eq, hrest, hentries, List.map_append, List.map_append]
  exact List.perm_middle

omit [DecidableEq κ] in
theorem values_retain (f : κ → ν → Bool) (m : HashMap κ ν) :
    (m.retain f).values.Sublist m.values := by
  rw [values_eq, values_eq]
  exact List.filter_sublist.map _

end HashMap

/-! ## Finite maps -/

namespace Finmap

variable {κ ν μ : Type}

/-- The map with every value replaced by its image. -/
def mapVal (f : κ → ν → μ) (m : Finmap fun _ : κ => ν) : Finmap fun _ : κ => μ :=
  m.liftOn
    (fun a => AList.toFinmap ⟨a.entries.map (Sigma.map (fun k => k) f), by
      rw [List.NodupKeys, List.keys, List.map_map]
      exact a.nodupKeys⟩)
    (fun _ _ h => AList.toFinmap_eq.mpr (h.map _))

@[simp] theorem lookup_mapVal [DecidableEq κ] (f : κ → ν → μ) (m : Finmap fun _ : κ => ν) (k : κ) :
    (m.mapVal f).lookup k = (m.lookup k).map (f k) := by
  induction m using Finmap.induction_on with
  | H a =>
    simp only [mapVal, liftOn_toFinmap, lookup_toFinmap]
    exact List.dlookup_map a.entries (fun _ _ h => h) f k

end Finmap
