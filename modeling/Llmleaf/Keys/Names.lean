import Llmleaf.Keys.Cache

/-!
# Display ids

A request is authenticated by a key's raw id, but everything behind the authorization names the key
by its display id: its name, or its id if it has none. Loading and installing keep display ids
unique and free of control bytes, so a display id stands for one key.

- `KeySnapshot.WellNamed`: unique, clean display ids; `KeyNode.run_wellNamed`: every snapshot of a
  run has them.
- `enforce_ok`: the identity an authorization returns is the display id of its key.
- `modelScope_permits`: the scope found by a display id permits what the key's allow-lists permit.
-/

namespace Llmleaf

/-- Display ids stand for one key each and hold no control bytes. -/
structure KeySnapshot.WellNamed (snap : KeySnapshot) : Prop where
  unique : ∀ {id id' state state'}, snap.keys.lookup id = some state →
    snap.keys.lookup id' = some state' → state.displayId id = state'.displayId id' → id = id'
  clean : ∀ {id state}, snap.keys.lookup id = some state →
    hasControlBytes (state.displayId id) = false

/-! ## Loading and installing -/

theorem hasControlBytes_getD {name : Option String} {id : String}
    (hid : hasControlBytes id = false) (hname : name.any hasControlBytes = false) :
    hasControlBytes (name.getD id) = false := by
  cases name with
  | none => exact hid
  | some n => exact hname

/-- A key of the store from a configuration is one of the configured keys, without a verdict. -/
theorem fromConfig_lookup {resolve : Secret → Option String} {keys : List KeyConfig} {id : String}
    {state : KeyState} (h : (KeyStore.fromConfig resolve keys).snapshot.keys.lookup id = some state) :
    ∃ k ∈ keys, k.id = id ∧ k.name = state.name ∧ state.verdict = .default := by
  unfold KeyStore.fromConfig at h
  induction keys using List.reverseRecOn with
  | nil => cases h
  | append_singleton keys k ih =>
    simp only [List.foldl_append, List.foldl_cons, List.foldl_nil] at h
    split at h
    · obtain ⟨k', hk', hrest⟩ := ih h
      exact ⟨k', List.mem_append_left _ hk', hrest⟩
    · rw [HashMap.lookup_insert_eq] at h
      split at h
      · rename_i hid
        cases h
        exact ⟨k, List.mem_append_right _ (List.mem_singleton.mpr rfl), hid.symm, rfl, rfl⟩
      · obtain ⟨k', hk', hrest⟩ := ih h
        exact ⟨k', List.mem_append_left _ hk', hrest⟩

/-- The keys of a valid configuration are well named. -/
theorem fromConfig_wellNamed {resolve : Secret → Option String} {keys : List KeyConfig}
    (hvalid : validateKeys keys = true) :
    (KeyStore.fromConfig resolve keys).snapshot.WellNamed := by
  simp only [validateKeys, Bool.and_eq_true, List.all_eq_true, Bool.not_eq_true',
    decide_eq_true_eq] at hvalid
  obtain ⟨⟨hclean, -⟩, hdisplay⟩ := hvalid
  constructor
  · intro id id' state state' h h' heq
    obtain ⟨k, hk, rfl, hname, -⟩ := fromConfig_lookup h
    obtain ⟨k', hk', rfl, hname', -⟩ := fromConfig_lookup h'
    rw [KeyState.displayId, KeyState.displayId, ← hname, ← hname'] at heq
    rw [List.inj_on_of_nodup_map hdisplay hk hk' heq]
  · intro id state h
    obtain ⟨k, hk, rfl, hname, -⟩ := fromConfig_lookup h
    rw [KeyState.displayId, ← hname]
    exact hasControlBytes_getD (hclean k hk).1 (hclean k hk).2

/-- The roster installed so far: its keys are well named and their display ids are recorded. -/
structure RosterSound (acc : HashMap KeyId KeyState × Finset String) : Prop where
  named : KeySnapshot.WellNamed ⟨acc.1, 0⟩
  recorded : ∀ {id state}, acc.1.lookup id = some state → state.displayId id ∈ acc.2

theorem installOne_sound (prev : HashMap KeyId KeyState) {acc : HashMap KeyId KeyState × Finset String}
    (h : RosterSound acc) (k : IdentityInput) : RosterSound (KeyStore.installOne prev acc k) := by
  unfold KeyStore.installOne
  dsimp only
  split
  · exact h
  rename_i hclean
  split
  · exact h
  rename_i hnew
  simp only [Bool.or_eq_true, not_or, Bool.not_eq_true] at hclean
  -- the entry's own display id is in no other key
  have hother : ∀ {id state}, acc.1.lookup id = some state →
      state.displayId id ≠ k.name.getD k.id := fun hl heq => hnew (heq ▸ h.recorded hl)
  constructor
  · constructor
    · intro id id' state state' hl hl' heq
      rw [HashMap.lookup_insert_eq] at hl hl'
      split at hl <;> split at hl'
      · rename_i he he'
        rw [he, he']
      · cases hl
        rename_i he _
        subst he
        exact absurd heq.symm (hother hl')
      · cases hl'
        rename_i he
        subst he
        exact absurd heq (hother hl)
      · exact h.named.unique hl hl' heq
    · intro id state hl
      rw [HashMap.lookup_insert_eq] at hl
      split at hl
      · rename_i he
        cases hl
        subst he
        exact hasControlBytes_getD hclean.1 hclean.2
      · exact h.named.clean hl
  · intro id state hl
    rw [HashMap.lookup_insert_eq] at hl
    split at hl
    · rename_i he
      cases hl
      subst he
      exact Finset.mem_insert_self _ _
    · exact Finset.mem_insert_of_mem (h.recorded hl)

/-- Whatever the roster, what is installed is well named. -/
theorem rosterSnapshot_wellNamed (snap : KeySnapshot) (roster : List IdentityInput) :
    (KeyStore.rosterSnapshot snap roster).WellNamed := by
  have hsound : RosterSound (roster.foldl (KeyStore.installOne snap.keys) (∅, ∅)) := by
    induction roster using List.reverseRecOn with
    | nil => exact ⟨⟨nofun, nofun⟩, nofun⟩
    | append_singleton roster k ih =>
      rw [List.foldl_append]
      exact installOne_sound _ ih k
  exact ⟨hsound.named.unique, hsound.named.clean⟩

/-- An installed key is one of the roster, with the verdict it had before. -/
theorem rosterSnapshot_lookup {snap : KeySnapshot} {roster : List IdentityInput} {id : String}
    {state : KeyState} (h : (KeyStore.rosterSnapshot snap roster).keys.lookup id = some state) :
    ∃ k ∈ roster, k.id = id ∧ k.name = state.name ∧
      state.verdict = ((snap.keys.lookup id).map (·.verdict)).getD .default := by
  unfold KeyStore.rosterSnapshot at h
  dsimp only at h
  induction roster using List.reverseRecOn with
  | nil => cases h
  | append_singleton roster k ih =>
    have hearlier : ∀ {acc : HashMap KeyId KeyState}, acc.lookup id = some state →
        acc = (roster.foldl (KeyStore.installOne snap.keys) (∅, ∅)).1 →
        ∃ k' ∈ roster ++ [k], k'.id = id ∧ k'.name = state.name ∧
          state.verdict = ((snap.keys.lookup id).map (·.verdict)).getD .default := by
      rintro _ hl rfl
      obtain ⟨k', hk', hrest⟩ := ih hl
      exact ⟨k', List.mem_append_left _ hk', hrest⟩
    rw [List.foldl_append, List.foldl_cons, List.foldl_nil, KeyStore.installOne] at h
    dsimp only at h
    split at h
    · exact hearlier h rfl
    split at h
    · exact hearlier h rfl
    rw [HashMap.lookup_insert_eq] at h
    split at h
    · rename_i hid
      cases h
      exact ⟨k, List.mem_append_right _ (List.mem_singleton.mpr rfl), hid.symm, rfl, by rw [hid]⟩
    · exact hearlier h rfl

theorem verdictSnapshot_wellNamed {snap : KeySnapshot} (h : snap.WellNamed)
    (overlay : HashMap KeyId Verdict) : (KeyStore.verdictSnapshot snap overlay).WellNamed := by
  have hlookup : ∀ {id state}, (KeyStore.verdictSnapshot snap overlay).keys.lookup id = some state →
      ∃ old, snap.keys.lookup id = some old ∧ old.displayId id = state.displayId id := by
    intro id state hl
    rw [KeyStore.verdictSnapshot, HashMap.lookup_map] at hl
    obtain ⟨old, hold, rfl⟩ := Option.map_eq_some_iff.mp hl
    exact ⟨old, hold, rfl⟩
  constructor
  · intro id id' state state' hl hl' heq
    obtain ⟨old, hold, hd⟩ := hlookup hl
    obtain ⟨old', hold', hd'⟩ := hlookup hl'
    exact h.unique hold hold' (by rw [hd, hd', heq])
  · intro id state hl
    obtain ⟨old, hold, hd⟩ := hlookup hl
    exact hd ▸ h.clean hold

namespace KeyNode

variable {verify : String → String → Bool}

/-- The current snapshot and one about to be installed are well named. -/
def WellNamed (node : KeyNode) : Prop :=
  node.store.snapshot.WellNamed ∧ ∀ snap, node.pending = some snap → snap.WellNamed

theorem step_wellNamed {node : KeyNode} (h : node.WellNamed) (e : Event) :
    (node.step verify e).WellNamed := by
  cases e with
  | clone token model now => simp only [step]; split <;> exact h
  | advance i => simp only [step]; split <;> exact h
  | pruneFor roster =>
    simp only [step]
    split
    · exact h
    · refine ⟨h.1, fun snap hs => ?_⟩
      cases hs
      exact rosterSnapshot_wellNamed _ _
  | swap =>
    simp only [step]
    split
    · exact h
    · rename_i snap hp
      exact ⟨h.2 snap hp, fun _ hs => by cases hs⟩
  | verdicts overlay =>
    simp only [step]
    split
    · exact h
    · exact ⟨verdictSnapshot_wellNamed h.1 overlay, h.2⟩

/-- **In every run from a valid configuration the current snapshot is well named.** -/
theorem run_wellNamed {resolve : Secret → Option String} {keys : List KeyConfig} {node : KeyNode}
    {tr : List (Runs.Step KeyNode Event)} (hvalid : validateKeys keys = true)
    (hr : Runs.Run (system verify) (start (.fromConfig resolve keys)) tr node) :
    node.store.snapshot.WellNamed := by
  have hnode : node.WellNamed := by
    refine hr.invariant (P := WellNamed) ⟨fromConfig_wellNamed hvalid, nofun⟩ ?_
    rintro t e _ h rfl
    exact step_wellNamed h e
  exact hnode.1

end KeyNode

/-! ## What an authorization returns -/

section

variable {state : KeyState} {id who : KeyId} {now : ℕ}

/-- Whether both allow-lists of a key permit a model. -/
def KeyState.permits (state : KeyState) (model : String) : Bool :=
  state.configAllowed.all (fun s => allowSetPermits s model) &&
    state.verdict.allowedModels.all (fun s => allowSetPermits s model)

theorem any_refuses (allowed : Option (Finset String)) (model : String) :
    (allowed.any fun s => !allowSetPermits s model) = !allowed.all fun s => allowSetPermits s model := by
  cases allowed <;> rfl

theorem enforce_gate_some (state : KeyState) (id model : String) :
    enforce.gate state id (some model) =
      if state.permits model then .ok (state.displayId id) else .error .modelNotAllowed := by
  rw [enforce.gate, any_refuses, any_refuses, KeyState.permits]
  cases state.configAllowed.all fun s => allowSetPermits s model with
  | false => rfl
  | true => cases state.verdict.allowedModels.all fun s => allowSetPermits s model <;> rfl

/-- **The returned identity is the key's display id**, and what a request for a model is answered
then depends on the allow-lists alone. -/
theorem enforce_ok (h : enforce state id none now = .ok who) :
    who = state.displayId id ∧ ∀ model, enforce state id (some model) now =
      if state.permits model then .ok who else .error .modelNotAllowed := by
  unfold enforce at h ⊢
  split at h
  · cases h
  rename_i hblocked
  simp only [hblocked]
  cases hs : state.verdict.suspendedUntil with
  | none =>
    simp only [hs] at h ⊢
    cases h
    exact ⟨rfl, fun model => enforce_gate_some state id model⟩
  | some until_ =>
    simp only [hs] at h ⊢
    split at h
    · cases h
    · rename_i hlt
      cases h
      refine ⟨rfl, fun model => ?_⟩
      rw [if_neg Bool.false_ne_true, if_neg hlt]
      exact enforce_gate_some state id model

theorem enforce_gate_ok {model : Option String} (h : enforce.gate state id model = .ok who) :
    who = state.displayId id := by
  cases model with
  | none => exact (Except.ok.inj h).symm
  | some model =>
    rw [enforce_gate_some] at h
    split at h
    · exact (Except.ok.inj h).symm
    · cases h

theorem enforce_gate_not_suspended {model : Option String} {until_ : ℕ} :
    enforce.gate state id model ≠ .error (.suspended until_) := by
  cases model with
  | none => exact nofun
  | some model =>
    rw [enforce_gate_some]
    split <;> exact nofun

/-- With or without a model, the returned identity is the key's display id. -/
theorem enforce_ok_who {model : Option String} (h : enforce state id model now = .ok who) :
    who = state.displayId id := by
  unfold enforce at h
  split at h
  · cases h
  · split at h
    · split at h
      · cases h
      · exact enforce_gate_ok h
    · exact enforce_gate_ok h

/-- A key that is not blocked is refused as suspended exactly while its suspension lasts. -/
theorem enforce_suspended_iff {model : Option String} {until_ : ℕ}
    (hblocked : state.verdict.blocked = false) :
    enforce state id model now = .error (.suspended until_) ↔
      state.verdict.suspendedUntil = some until_ ∧ now < until_ := by
  rw [enforce, hblocked, if_neg Bool.false_ne_true]
  cases state.verdict.suspendedUntil with
  | none => exact iff_of_false enforce_gate_not_suspended fun h => nomatch h.1
  | some u =>
    dsimp only
    split
    · rename_i hlt
      refine ⟨fun h => ?_, fun h => ?_⟩
      · cases h
        exact ⟨rfl, hlt⟩
      · cases h.1
        rfl
    · rename_i hge
      refine iff_of_false enforce_gate_not_suspended fun h => hge ?_
      cases h.1
      exact h.2

/-- The key with a display id, if there is one. -/
def KeySnapshot.byDisplay (snap : KeySnapshot) (order : Shuffle (KeyId × KeyState)) (who : KeyId) :
    Option (KeyId × KeyState) :=
  (order.order snap.keys.pairs).find? fun e => e.2.displayId e.1 == who

theorem byDisplay_eq_some {snap : KeySnapshot} (h : snap.WellNamed)
    (order : Shuffle (KeyId × KeyState)) (hkey : snap.keys.lookup id = some state) :
    snap.byDisplay order (state.displayId id) = some (id, state) := by
  have hmem : (id, state) ∈ order.order snap.keys.pairs :=
    order.mem_order.mpr (HashMap.mem_pairs.mpr hkey)
  cases hf : snap.byDisplay order (state.displayId id) with
  | none =>
    have hnone := List.find?_eq_none.mp hf _ hmem
    simp at hnone
  | some e =>
    have hdisplay := List.find?_some hf
    have hlookup := HashMap.mem_pairs.mp (order.mem_order.mp (List.mem_of_find?_eq_some hf))
    have hid : e.1 = id := h.unique hlookup hkey (beq_iff_eq.mp hdisplay)
    rw [hid, hkey] at hlookup
    cases hlookup
    rw [← hid]

/-- A model scope permits what the allow-lists of the key with that display id permit, and
everything if there is no such key. -/
theorem modelScope_permits (store : KeyStore) (order : Shuffle (KeyId × KeyState)) (who : KeyId)
    (model : String) :
    (store.modelScope order who).all (fun scope => scope.permits model) =
      (store.snapshot.byDisplay order who).all (fun e => e.2.permits model) := by
  rw [KeyStore.modelScope, KeySnapshot.byDisplay]
  split
  · rename_i h
    rw [h]
    rfl
  · rename_i id state h
    rw [h]
    simp only [Option.all_some, KeyState.permits]
    split
    · rename_i hc hv
      rw [hc, hv]
      rfl
    · rfl

end

end Llmleaf
