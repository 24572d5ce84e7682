import Llmleaf.Keys.Names
import Llmleaf.Lib.Firsts

/-!
# What a pulled roster installs

An install goes through the roster and keeps the entries whose ids and names are clean and whose
display ids are new. The keys are stored by raw id.

- `lookup_installed`: what is stored for a raw id is its last kept entry.
- `firstWins`: the roster in which the first entry wins, for raw ids as for display ids.
- **Result** (`firstWins_installed_iff`): this is what is installed exactly if no two clean entries
  that open a display id have one raw id.
-/

namespace Llmleaf

namespace IdentityInput

/-- The id under which events and scopes name the key. -/
def displayId (k : IdentityInput) : KeyId := k.name.getD k.id

/-- No control bytes in id and name. -/
def clean (k : IdentityInput) : Bool := !(hasControlBytes k.id || k.name.any hasControlBytes)

/-- The state an entry installs, with the verdict the key had. -/
def state (k : IdentityInput) (prev : HashMap KeyId KeyState) : KeyState where
  name := k.name
  pwHash := k.pwHash
  configAllowed := allowList k.allowedModels
  verdict := ((prev.lookup k.id).map (·.verdict)).getD .default

end IdentityInput

/-- Two entries with one display id. -/
def sameDisplay (k k' : IdentityInput) : Bool := k.displayId == k'.displayId

/-- Two entries with one raw id. -/
def sameId (k k' : IdentityInput) : Bool := k.id == k'.id

/-- The clean entries of a roster whose ids and display ids no earlier one of them has. -/
def firstWins (roster : List IdentityInput) : List IdentityInput :=
  (roster.filter (·.clean)).firsts fun k k' => sameDisplay k k' || sameId k k'

/-- The clean entries of a roster whose display ids no earlier one of them has. -/
def openings (roster : List IdentityInput) : List IdentityInput :=
  (roster.filter (·.clean)).firsts sameDisplay

/-- A clean entry with a display id that no clean entry before it has. -/
def Opens (before : List IdentityInput) (k : IdentityInput) : Prop :=
  k.clean ∧ ∀ k' ∈ before, k'.clean → k'.displayId ≠ k.displayId

theorem openings_append_singleton (roster : List IdentityInput) (k : IdentityInput) :
    (Opens roster k ∧ openings (roster ++ [k]) = openings roster ++ [k]) ∨
      (¬ Opens roster k ∧ openings (roster ++ [k]) = openings roster) := by
  rw [openings, openings, List.filter_append]
  by_cases hclean : k.clean = true
  · rw [List.filter_singleton, hclean, cond_true, List.firsts_append_singleton]
    have hany : (((roster.filter (·.clean)).firsts sameDisplay).any (sameDisplay · k)) = true ↔
        ∃ k' ∈ roster, k'.clean ∧ k'.displayId = k.displayId := by
      rw [List.any_eq_true]
      have hmem : (∃ a ∈ (roster.filter (·.clean)).firsts sameDisplay, a.displayId = k.displayId) ↔
          ∃ a ∈ roster.filter (·.clean), a.displayId = k.displayId :=
        List.clash_mem_iff IdentityInput.displayId _ _
      simpa [sameDisplay, and_assoc] using hmem
    split
    · rename_i h
      obtain ⟨k', hk', hclean', hdisplay⟩ := hany.mp h
      exact .inr ⟨fun ho => ho.2 k' hk' hclean' hdisplay, rfl⟩
    · rename_i h
      exact .inl ⟨⟨hclean, fun k' hk' hclean' hdisplay => h (hany.mpr ⟨k', hk', hclean', hdisplay⟩)⟩,
        rfl⟩
  · refine .inr ⟨fun ho => hclean ho.1, ?_⟩
    rw [List.filter_singleton, Bool.not_eq_true _ |>.mp hclean, cond_false, List.append_nil]

/-- The kept entries are those that open their display id. -/
theorem mem_openings {roster : List IdentityInput} {k : IdentityInput} :
    k ∈ openings roster ↔ ∃ a b, roster = a ++ k :: b ∧ Opens a k := by
  induction roster using List.reverseRecOn with
  | nil => simp [openings]
  | append_singleton roster k' ih =>
    have hsplit : (∃ a b, roster ++ [k'] = a ++ k :: b ∧ Opens a k) ↔
        (∃ a b, roster = a ++ k :: b ∧ Opens a k) ∨ k = k' ∧ Opens roster k := by
      constructor
      · rintro ⟨a, b, heq, ho⟩
        rcases List.eq_nil_or_concat b with rfl | ⟨b, k'', rfl⟩
        · obtain ⟨rfl, rfl⟩ := List.append_singleton_inj.mp heq
          exact .inr ⟨rfl, ho⟩
        · rw [List.concat_eq_append, ← List.cons_append, ← List.append_assoc] at heq
          obtain ⟨rfl, rfl⟩ := List.append_singleton_inj.mp heq
          exact .inl ⟨a, b, rfl, ho⟩
      · rintro (⟨a, b, rfl, ho⟩ | ⟨rfl, ho⟩)
        · exact ⟨a, b ++ [k'], by simp, ho⟩
        · exact ⟨roster, [], rfl, ho⟩
    rw [hsplit, ← ih]
    rcases openings_append_singleton roster k' with ⟨ho, heq⟩ | ⟨ho, heq⟩ <;> rw [heq]
    · rw [List.mem_append, List.mem_singleton]
      exact or_congr_right ⟨fun h => ⟨h, h ▸ ho⟩, fun h => h.1⟩
    · exact (or_iff_left fun h : k = k' ∧ Opens roster k => ho (h.1 ▸ h.2)).symm

namespace KeyStore

variable (prev : HashMap KeyId KeyState)

/-- **The loop**: it stores its kept entries under their raw ids, later ones over earlier ones. -/
theorem foldl_installOne (roster : List IdentityInput) :
    (∀ id, (roster.foldl (installOne prev) (∅, ∅)).1.lookup id =
      (HashMap.collect ((openings roster).map fun k => (k.id, k.state prev))).lookup id) ∧
    ∀ d, d ∈ (roster.foldl (installOne prev) (∅, ∅)).2 ↔
      ∃ k ∈ roster, k.clean ∧ k.displayId = d := by
  induction roster using List.reverseRecOn with
  | nil => exact ⟨fun _ => rfl, fun d => by simp⟩
  | append_singleton roster k ih =>
    obtain ⟨hkeys, hseen⟩ := ih
    have hopens := openings_append_singleton roster k
    rw [List.foldl_append, List.foldl_cons, List.foldl_nil, installOne]
    dsimp only
    split
    · rename_i hdirty
      have hdirty : k.clean = false := by rw [IdentityInput.clean, hdirty]; rfl
      obtain ⟨-, heq⟩ := hopens.resolve_left fun h => by
        rw [h.1.1] at hdirty
        cases hdirty
      refine ⟨by rwa [heq], fun d => ?_⟩
      rw [hseen]
      simp [hdirty]
    · rename_i hclean
      have hclean : k.clean = true := by
        rw [IdentityInput.clean, Bool.not_eq_true _ |>.mp hclean]
        rfl
      split
      · rename_i hdisplay
        obtain ⟨k', hk', hclean', hd⟩ := (hseen _).mp hdisplay
        obtain ⟨-, heq⟩ := hopens.resolve_left fun h => h.1.2 k' hk' hclean' hd
        refine ⟨by rwa [heq], fun d => ?_⟩
        rw [hseen]
        constructor
        · rintro ⟨k₀, hk₀, h⟩
          exact ⟨k₀, List.mem_append_left _ hk₀, h⟩
        · rintro ⟨k₀, hk₀, hc, rfl⟩
          rcases List.mem_append.mp hk₀ with hk₀ | hk₀
          · exact ⟨k₀, hk₀, hc, rfl⟩
          · rw [List.mem_singleton.mp hk₀]
            exact ⟨k', hk', hclean', hd⟩
      · rename_i hdisplay
        have ho : Opens roster k := ⟨hclean, fun k' hk' hclean' hd =>
          hdisplay ((hseen _).mpr ⟨k', hk', hclean', hd⟩)⟩
        obtain ⟨-, heq⟩ := hopens.resolve_right fun h => h.1 ho
        refine ⟨fun id => ?_, fun d => ?_⟩
        · rw [heq, List.map_append, HashMap.lookup_collect_append, HashMap.lookup_insert_eq, hkeys,
            List.map_singleton, HashMap.lookup_collect_cons, HashMap.lookup_collect_nil,
            Option.none_or]
          split
          · rfl
          · rfl
        · rw [Finset.mem_insert, hseen]
          simp only [List.mem_append, or_and_right, exists_or, List.mem_singleton, exists_eq_left,
            hclean, true_and]
          exact or_comm.trans (or_congr_right eq_comm)

/-- What is installed for a raw id is its last kept entry. -/
theorem lookup_installed (store : KeyStore) (roster : List IdentityInput) (id : KeyId) :
    (store.installIdentities roster).snapshot.keys.lookup id =
      (HashMap.collect ((openings roster).map fun k =>
        (k.id, k.state store.snapshot.keys))).lookup id :=
  (foldl_installOne store.snapshot.keys roster).1 id

/-! ## The first entry -/

/-- What the store holds is the roster in which the first entry wins. -/
def FirstWinsInstalled (store : KeyStore) (roster : List IdentityInput) : Prop :=
  ∀ id state, (store.installIdentities roster).snapshot.keys.lookup id = some state ↔
    ∃ k ∈ firstWins roster, k.id = id ∧ k.state store.snapshot.keys = state

/-- Of two kept entries with one raw id the first one does not win. -/
theorem not_firstWinsInstalled (store : KeyStore) {roster : List IdentityInput}
    (h : openings roster ≠ firstWins roster) : ¬ FirstWinsInstalled store roster := by
  obtain ⟨a, b, hab, k, hk, k', hk', hid, hwins⟩ := List.firsts_diverge h
  have hid : k.id = k'.id := by simpa [sameId] using hid
  intro hinst
  have hfirst := (hinst k.id _).mpr ⟨k, hwins, rfl, rfl⟩
  have hpair : ((roster.filter (·.clean)).firsts sameDisplay).Pairwise
      fun a b => sameDisplay a b = false := List.pairwise_firsts _
  rw [lookup_installed, openings, hab, List.map_append, HashMap.lookup_collect_append] at hfirst
  -- a later entry is stored over the first one
  have hlater : ((HashMap.collect (b.map fun k => (k.id, k.state store.snapshot.keys))).lookup
      k.id).isSome := by
    rw [HashMap.lookup_collect_isSome, List.map_map]
    exact List.mem_map.mpr ⟨k', hk', hid.symm⟩
  obtain ⟨state, hstate⟩ := Option.isSome_iff_exists.mp hlater
  rw [hstate, Option.some_or, Option.some.injEq] at hfirst
  obtain ⟨k'', hk'', heq⟩ := List.mem_map.mp (HashMap.lookup_collect_mem hstate)
  rw [Prod.mk.injEq] at heq
  obtain ⟨hid'', rfl⟩ := heq
  have hname : k''.name = k.name := congrArg KeyState.name hfirst
  rw [hab] at hpair
  have hdisplay := (List.pairwise_append.mp hpair).2.2 k hk k'' hk''
  rw [sameDisplay, IdentityInput.displayId, IdentityInput.displayId, hname, hid'',
    beq_self_eq_true] at hdisplay
  cases hdisplay

theorem firstWinsInstalled_iff (store : KeyStore) (roster : List IdentityInput) :
    FirstWinsInstalled store roster ↔
      (openings roster).Pairwise fun k k' => sameId k k' = false := by
  have heq : openings roster = firstWins roster ↔
      (openings roster).Pairwise fun k k' => sameId k k' = false := List.firsts_eq_iff
  constructor
  · intro h
    by_contra hnot
    exact not_firstWinsInstalled store (fun h' => hnot (heq.mp h')) h
  · intro h id state
    have hnodup : (((openings roster).map fun k =>
        (k.id, k.state store.snapshot.keys)).map Prod.fst).Nodup := by
      rw [List.map_map]
      refine List.Pairwise.map _ (fun k k' hk => ?_) h
      simpa [sameId] using hk
    rw [lookup_installed, HashMap.lookup_collect_nodup hnodup, List.mem_map, heq.mpr h]
    simp only [Prod.mk.injEq]

/-- No two clean entries that open a display id have one raw id. -/
def RawIdsDiffer (roster : List IdentityInput) : Prop :=
  ∀ a k b k' c, roster = a ++ k :: (b ++ k' :: c) → Opens a k → Opens (a ++ k :: b) k' →
    k.id ≠ k'.id

theorem rawIdsDiffer_iff (roster : List IdentityInput) :
    RawIdsDiffer roster ↔ (openings roster).Pairwise fun k k' => sameId k k' = false := by
  induction roster using List.reverseRecOn with
  | nil =>
    refine iff_of_true (fun a k b k' c heq => ?_) .nil
    cases a <;> cases heq
  | append_singleton roster k' ih =>
    have hsplit : RawIdsDiffer (roster ++ [k']) ↔
        RawIdsDiffer roster ∧ (Opens roster k' → ∀ k ∈ openings roster, k.id ≠ k'.id) := by
      constructor
      · intro h
        refine ⟨fun a k b k₀ c heq => h a k b k₀ (c ++ [k']) (by simp [heq]), fun ho k hk => ?_⟩
        obtain ⟨a, b, rfl, ho'⟩ := mem_openings.mp hk
        exact h a k b k' [] (by simp) ho' ho
      · rintro ⟨hr, hk'⟩ a k b k₀ c heq ho ho'
        rcases List.eq_nil_or_concat c with rfl | ⟨c, k'', rfl⟩
        · obtain ⟨rfl, rfl⟩ := List.append_singleton_inj.mp (heq.trans (by simp :
            a ++ k :: (b ++ [k₀]) = (a ++ k :: b) ++ [k₀]))
          exact hk' ho' k (mem_openings.mpr ⟨a, b, rfl, ho⟩)
        · obtain ⟨rfl, rfl⟩ := List.append_singleton_inj.mp (heq.trans (by simp :
            a ++ k :: (b ++ k₀ :: (c.concat k'')) = (a ++ k :: (b ++ k₀ :: c)) ++ [k'']))
          exact hr a k b k₀ c rfl ho ho'
    rw [hsplit, ih]
    rcases openings_append_singleton roster k' with ⟨ho, heq⟩ | ⟨ho, heq⟩ <;> rw [heq]
    · rw [List.pairwise_append]
      simp [ho, sameId]
    · simp [ho]

/-- **A pulled roster**: the store holds, for raw ids as for display ids, the first clean entry and
its data, exactly if no two clean entries that open a display id have one raw id. -/
theorem firstWins_installed_iff (store : KeyStore) (roster : List IdentityInput) :
    (FirstWinsInstalled store roster ∧
      ∀ id id' state state', (store.installIdentities roster).snapshot.keys.lookup id = some state →
        (store.installIdentities roster).snapshot.keys.lookup id' = some state' →
        state.displayId id = state'.displayId id' → id = id') ↔
      RawIdsDiffer roster := by
  rw [rawIdsDiffer_iff, ← firstWinsInstalled_iff store]
  exact and_iff_left fun id id' state state' h h' =>
    (rosterSnapshot_wellNamed store.snapshot roster).unique h h'

/-- One raw id under two names. -/
def renamedTwin : List IdentityInput :=
  [⟨"a", "hash1", some "x", none⟩, ⟨"a", "hash2", some "y", none⟩]

/-- The second entry is stored over the first. -/
theorem not_firstWins_renamedTwin : ¬ FirstWinsInstalled ⟨⟨∅, 0⟩, ∅⟩ renamedTwin := by
  intro h
  have hsecond : ((installIdentities ⟨⟨∅, 0⟩, ∅⟩ renamedTwin).snapshot.keys.lookup "a").map
      (·.pwHash) = some "hash2" := by decide +kernel
  have hfirst : (firstWins renamedTwin).map (·.pwHash) = ["hash1"] := by decide +kernel
  obtain ⟨state, hstate, hhash⟩ := Option.map_eq_some_iff.mp hsecond
  obtain ⟨k, hk, -, rfl⟩ := (h "a" state).mp hstate
  have hmem := List.mem_map_of_mem (f := fun k => k.pwHash) hk
  rw [hfirst, List.mem_singleton] at hmem
  rw [show (k.state _).pwHash = k.pwHash from rfl, hmem] at hhash
  exact absurd hhash (by decide)

end KeyStore

end Llmleaf
