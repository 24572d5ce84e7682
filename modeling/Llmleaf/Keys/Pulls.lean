import Llmleaf.Keys.Names

/-!
# Pulls of identities and verdicts

Two refreshers install what they pull on their own clocks: rosters replace the identities, overlays
the verdicts. A roster carries the verdicts of the keys that stay and has none for the keys it adds,
and an overlay ignores the ids that have no key.

- `KeyStore.opened`: the key a token opens; `authorizeInner_opened`: authorizing is opening a key and
  enforcing its verdict.
- `lookup_rosterSnapshot`: a roster installs the same keys on any store, but for their verdicts.
- **Result** (`pulls_commute_iff`): when the two orders of a roster and an overlay answer alike, and
  the verdict in force after an overlay and any rosters.
-/

namespace Llmleaf

/-! ## Opening a key -/

/-- The state of a key with another verdict. -/
def KeyState.withVerdict (state : KeyState) (v : Verdict) : KeyState := { state with verdict := v }

namespace KeyStore

/-- The key of a cached token, unless it is gone or was rotated. -/
def warmKey (snap : KeySnapshot) (verified : HashMap String VerifiedEntry) (token : String) :
    Option (KeyId × KeyState) :=
  (verified.lookup token).bind fun entry =>
    (snap.keys.lookup entry.id).bind fun state =>
      if entry.identityGen = snap.identityGen ∨ entry.pwHash = state.pwHash then
        some (entry.id, state)
      else none

/-- The key a token decodes to, if its password verifies. -/
def coldKey (verify : String → String → Bool) (snap : KeySnapshot) (token : String) :
    Option (KeyId × KeyState) :=
  (decodeToken token).bind fun e =>
    (snap.keys.lookup e.1).bind fun state =>
      if verify e.2 state.pwHash then some (e.1, state) else none

/-- The key a token opens. -/
def opened (verify : String → String → Bool) (self : KeyStore) (token : String) :
    Option (KeyId × KeyState) :=
  (warmKey self.snapshot self.verified token).or (coldKey verify self.snapshot token)

/-- The answer for the key that was opened. -/
def answer (key : Option (KeyId × KeyState)) (model : Option String) (now : ℕ) :
    Except AuthError KeyId :=
  match key with
  | none => .error .unknown
  | some (id, state) => enforce state id model now

section

variable (verify : String → String → Bool) (store : KeyStore) (token : String)
  (model : Option String) (now : ℕ)

theorem warmPath_eq (snap : KeySnapshot) (verified : HashMap String VerifiedEntry) :
    warmPath snap verified token model now =
      (warmKey snap verified token).map fun key => enforce key.2 key.1 model now := by
  unfold warmPath warmKey
  cases verified.lookup token with
  | none => rfl
  | some entry =>
    cases hkey : snap.keys.lookup entry.id with
    | none => simp only [hkey, Option.bind_some, Option.bind_none, Option.map_none]
    | some state =>
      simp only [hkey, Option.bind_some]
      split <;> rfl

theorem coldPath_eq (snap : KeySnapshot) :
    (coldPath verify snap token model now).1 = answer (coldKey verify snap token) model now := by
  unfold coldPath coldKey
  cases decodeToken token with
  | none => rfl
  | some e =>
    cases hkey : snap.keys.lookup e.1 with
    | none => simp only [hkey, Option.bind_some, Option.bind_none, answer]
    | some state =>
      simp only [hkey, Option.bind_some]
      split <;> rfl

/-- **Authorizing is opening a key and enforcing its verdict.** -/
theorem authorizeInner_opened : (store.authorizeInner verify token model now).1 =
    answer (store.opened verify token) model now := by
  rw [authorizeInner, warmPath_eq, opened]
  cases warmKey store.snapshot store.verified token with
  | some key => rfl
  | none => exact coldPath_eq verify token model now store.snapshot

end

/-- Stores that differ in verdicts alone open the same keys. -/
theorem opened_withVerdict {a b : KeyStore} (verdict : KeyId → Verdict)
    (hverified : b.verified = a.verified)
    (hgen : b.snapshot.identityGen = a.snapshot.identityGen)
    (hkeys : ∀ id, b.snapshot.keys.lookup id =
      (a.snapshot.keys.lookup id).map fun state => state.withVerdict (verdict id))
    (verify : String → String → Bool) (token : String) :
    b.opened verify token =
      (a.opened verify token).map fun key => (key.1, key.2.withVerdict (verdict key.1)) := by
  have hwarm : warmKey b.snapshot b.verified token =
      (warmKey a.snapshot a.verified token).map
        fun key => (key.1, key.2.withVerdict (verdict key.1)) := by
    rw [warmKey, warmKey, hverified]
    cases a.verified.lookup token with
    | none => rfl
    | some entry =>
      simp only [Option.bind_some, hkeys, hgen]
      cases a.snapshot.keys.lookup entry.id with
      | none => rfl
      | some state =>
        simp only [Option.map_some, Option.bind_some, KeyState.withVerdict]
        split <;> rfl
  have hcold : coldKey verify b.snapshot token =
      (coldKey verify a.snapshot token).map
        fun key => (key.1, key.2.withVerdict (verdict key.1)) := by
    rw [coldKey, coldKey]
    cases decodeToken token with
    | none => rfl
    | some e =>
      simp only [Option.bind_some, hkeys]
      cases a.snapshot.keys.lookup e.1 with
      | none => rfl
      | some state =>
        simp only [Option.map_some, Option.bind_some, KeyState.withVerdict]
        split <;> rfl
  rw [opened, opened, hwarm, hcold]
  cases warmKey a.snapshot a.verified token <;> rfl

/-! ## Installing -/

/-- The verdict an overlay has for a key. -/
def entryOf (overlay : HashMap KeyId Verdict) (id : KeyId) : Verdict :=
  (overlay.lookup id).getD .default

/-- The verdict a store has for a key it may hold. -/
def verdictOf (store : KeyStore) (id : KeyId) : Verdict :=
  ((store.snapshot.keys.lookup id).map (·.verdict)).getD .default

/-- **A roster installs the same keys on any store**, each with the verdict it had there. -/
theorem lookup_rosterSnapshot (a b : KeyStore) (roster : List IdentityInput) (id : KeyId) :
    (b.installIdentities roster).snapshot.keys.lookup id =
      ((a.installIdentities roster).snapshot.keys.lookup id).map
        fun state => state.withVerdict (b.verdictOf id) := by
  have hfold : ∀ (roster : List IdentityInput),
      (roster.foldl (installOne b.snapshot.keys) (∅, ∅)).2 =
        (roster.foldl (installOne a.snapshot.keys) (∅, ∅)).2 ∧
      ∀ id, (roster.foldl (installOne b.snapshot.keys) (∅, ∅)).1.lookup id =
        ((roster.foldl (installOne a.snapshot.keys) (∅, ∅)).1.lookup id).map
          fun state => state.withVerdict (b.verdictOf id) := by
    intro roster
    induction roster using List.reverseRecOn with
    | nil => exact ⟨rfl, fun _ => rfl⟩
    | append_singleton roster k ih =>
      obtain ⟨hseen, hkeys⟩ := ih
      simp only [List.foldl_append, List.foldl_cons, List.foldl_nil, installOne]
      split
      · exact ⟨hseen, hkeys⟩
      rw [hseen]
      split
      · exact ⟨hseen, hkeys⟩
      refine ⟨rfl, fun id => ?_⟩
      dsimp only
      rw [HashMap.lookup_insert_eq, HashMap.lookup_insert_eq]
      split
      · rename_i hid
        rw [hid]
        rfl
      · exact hkeys id
  exact (hfold roster).2 id

/-- The cache after a roster, on stores that hold the same keys. -/
theorem prune_congr {verified : HashMap String VerifiedEntry} {a b : HashMap KeyId KeyState}
    (h : ∀ id, id ∈ b ↔ id ∈ a) : prune verified b = prune verified a := by
  unfold prune
  simp only [h]

theorem lookup_installVerdicts (store : KeyStore) (overlay : HashMap KeyId Verdict) (id : KeyId) :
    (store.installVerdicts overlay).snapshot.keys.lookup id =
      (store.snapshot.keys.lookup id).map fun state => state.withVerdict (entryOf overlay id) :=
  HashMap.lookup_map _ store.snapshot.keys id

theorem verdictOf_installVerdicts (store : KeyStore) (overlay : HashMap KeyId Verdict)
    (id : KeyId) : (store.installVerdicts overlay).verdictOf id =
      if id ∈ store.snapshot.keys then entryOf overlay id else .default := by
  rw [verdictOf, lookup_installVerdicts]
  split
  · rename_i h
    obtain ⟨state, hstate⟩ := HashMap.mem_iff_lookup.mp h
    rw [hstate]
    rfl
  · rename_i h
    rw [HashMap.not_mem_iff_lookup.mp h]
    rfl

end KeyStore

/-! ## Verdicts that restrict nothing -/

/-- A verdict takes nothing from what a key has without one. -/
structure KeyState.Unrestricted (state : KeyState) (v : Verdict) : Prop where
  blocked : v.blocked = false
  suspended : ∀ until_, v.suspendedUntil = some until_ → until_ = 0
  models : ∀ allowed, v.allowedModels = some allowed → ∀ model,
    state.configAllowed.all (fun set => allowSetPermits set model) = true →
      allowSetPermits allowed model = true

theorem KeyState.unrestricted_default (state : KeyState) : state.Unrestricted .default where
  blocked := rfl
  suspended _ h := by cases h
  models _ h := by cases h

/-- A verdict that neither blocks nor suspends leaves the model gates. -/
theorem enforce_free (state : KeyState) {v : Verdict} {now : ℕ} (hblocked : v.blocked = false)
    (hsuspended : ∀ until_, v.suspendedUntil = some until_ → until_ ≤ now) (id : KeyId)
    (model : Option String) :
    enforce (state.withVerdict v) id model now = enforce.gate (state.withVerdict v) id model := by
  rw [enforce, show (state.withVerdict v).verdict = v from rfl, hblocked,
    if_neg Bool.false_ne_true]
  split
  · rename_i until_ hu
    exact if_neg (Nat.not_lt.mpr (hsuspended until_ hu))
  · rfl

/-- Without a verdict only the gate of the identity is left. -/
theorem enforce_default (state : KeyState) (id : KeyId) (model : Option String) (now : ℕ) :
    enforce (state.withVerdict .default) id model now =
      enforce.gate (state.withVerdict .default) id model :=
  enforce_free state rfl (fun _ h => by cases h) id model

/-- The gate of a verdict closes no more than that of the identity exactly if it permits what that
one does. -/
theorem gate_unrestricted_iff (state : KeyState) (v : Verdict) (id : KeyId) (m : String) :
    enforce.gate (state.withVerdict v) id (some m) =
        enforce.gate (state.withVerdict .default) id (some m) ↔
      ∀ allowed, v.allowedModels = some allowed →
        state.configAllowed.all (fun set => allowSetPermits set m) = true →
          allowSetPermits allowed m = true := by
  have hall : state.configAllowed.all (fun set => allowSetPermits set m) =
      !state.configAllowed.any fun set => !allowSetPermits set m := by
    cases state.configAllowed with
    | none => rfl
    | some set => exact (Bool.not_not _).symm
  rw [hall]
  dsimp only [enforce.gate, KeyState.withVerdict, Verdict.default]
  cases state.configAllowed.any fun set => !allowSetPermits set m with
  | true => exact iff_of_true rfl fun _ _ h => by cases h
  | false =>
    cases v.allowedModels with
    | none => exact iff_of_true rfl fun _ h => by cases h
    | some allowed =>
      cases hm : allowSetPermits allowed m with
      | true =>
        refine iff_of_true ?_ fun _ h _ => by cases h; exact hm
        rw [Option.any_some, hm]
        rfl
      | false => simp [hm]

/-- Such a verdict answers every request as none does, and no other one does. -/
theorem enforce_unrestricted_iff (state : KeyState) (v : Verdict) (id : KeyId) :
    (∀ model now, enforce (state.withVerdict v) id model now =
      enforce (state.withVerdict .default) id model now) ↔ state.Unrestricted v := by
  simp only [enforce_default]
  constructor
  · intro h
    have hblocked : v.blocked = false := by
      by_contra hb
      have hnone := h none 0
      rw [enforce, if_pos (Bool.not_eq_false _ ▸ hb)] at hnone
      cases hnone
    refine ⟨hblocked, fun until_ hu => ?_, fun allowed ha m => ?_⟩
    · by_contra hpos
      have hnone := h none 0
      rw [enforce, show (state.withVerdict v).verdict = v from rfl, hblocked,
        if_neg Bool.false_ne_true, hu] at hnone
      dsimp only at hnone
      rw [if_pos (Nat.pos_of_ne_zero hpos)] at hnone
      cases hnone
    · have hgate := h (some m) (v.suspendedUntil.getD 0)
      rw [enforce_free state hblocked (fun until_ hu => by rw [hu]; rfl)] at hgate
      exact (gate_unrestricted_iff state v id m).mp hgate allowed ha
  · intro h model now
    rw [enforce_free state h.blocked fun until_ hu => h.suspended until_ hu ▸ Nat.zero_le _]
    cases model with
    | none => rfl
    | some m =>
      exact (gate_unrestricted_iff state v id m).mpr fun allowed ha => h.models allowed ha m

/-! ## Two orders -/

namespace KeyStore

variable (verify : String → String → Bool) (store : KeyStore)

/-- Opened keys answer alike exactly if their verdicts do. -/
theorem answer_eq_iff {key : Option (KeyId × KeyState)} {f g : KeyId → Verdict} :
    (∀ model now, answer (key.map fun k => (k.1, k.2.withVerdict (f k.1))) model now =
        answer (key.map fun k => (k.1, k.2.withVerdict (g k.1))) model now) ↔
      ∀ id state, key = some (id, state) → ∀ model now,
        enforce (state.withVerdict (f id)) id model now =
          enforce (state.withVerdict (g id)) id model now := by
  cases key with
  | none => exact iff_of_true (fun _ _ => rfl) fun _ _ h => by cases h
  | some k =>
    constructor
    · rintro h _ _ ⟨⟩
      exact h
    · exact fun h => h _ _ rfl

/-- The two orders answer alike exactly if the overlay restricts no key that the roster adds. -/
theorem orders_iff (roster : List IdentityInput) (overlay : HashMap KeyId Verdict) :
    (∀ token model now,
      (((store.installIdentities roster).installVerdicts overlay).authorizeInner
          verify token model now).1 =
        (((store.installVerdicts overlay).installIdentities roster).authorizeInner
          verify token model now).1) ↔
      ∀ token id state,
        (store.installIdentities roster).opened verify token = some (id, state) →
        id ∉ store.snapshot.keys → state.Unrestricted (entryOf overlay id) := by
  have hcache : ((store.installVerdicts overlay).installIdentities roster).verified =
      (store.installIdentities roster).verified := by
    refine prune_congr fun id => ?_
    rw [HashMap.mem_iff_lookup, HashMap.mem_iff_lookup]
    rw [show (rosterSnapshot (store.installVerdicts overlay).snapshot roster).keys.lookup id = _
      from lookup_rosterSnapshot store (store.installVerdicts overlay) roster id]
    simp only [Option.map_eq_some_iff]
    exact ⟨fun ⟨_, state, h, _⟩ => ⟨state, h⟩, fun ⟨state, h⟩ => ⟨_, state, h, rfl⟩⟩
  have hfirst := fun token => opened_withVerdict (entryOf overlay)
    (a := store.installIdentities roster)
    (b := (store.installIdentities roster).installVerdicts overlay) rfl rfl
    (fun id => lookup_installVerdicts (store.installIdentities roster) overlay id) verify token
  have hsecond := fun token => opened_withVerdict (store.installVerdicts overlay).verdictOf
    (a := store.installIdentities roster)
    (b := (store.installVerdicts overlay).installIdentities roster) hcache rfl
    (fun id => lookup_rosterSnapshot store (store.installVerdicts overlay) roster id) verify token
  simp only [authorizeInner_opened, hfirst, hsecond]
  refine forall_congr' fun token => answer_eq_iff.trans ?_
  refine forall₃_congr fun id state _ => ?_
  rw [verdictOf_installVerdicts]
  by_cases hid : id ∈ store.snapshot.keys
  · rw [if_pos hid]
    exact iff_of_true (fun _ _ => rfl) fun h => absurd hid h
  · rw [if_neg hid, enforce_unrestricted_iff, forall_prop_of_true hid]

/-- The verdict in force after an overlay and some rosters: the entry of the overlay for a key that
was there and has stayed, none for one that was added since. -/
theorem lookup_after_rosters (overlay : HashMap KeyId Verdict)
    (rosters : List (List IdentityInput)) (id : KeyId) :
    ((rosters.foldl installIdentities (store.installVerdicts overlay)).snapshot.keys.lookup
        id).map (·.verdict) =
      ((rosters.foldl installIdentities store).snapshot.keys.lookup id).map fun _ =>
        if ∀ n ≤ rosters.length,
            id ∈ ((rosters.take n).foldl installIdentities store).snapshot.keys then
          entryOf overlay id
        else .default := by
  induction rosters using List.reverseRecOn with
  | nil =>
    rw [List.foldl_nil, List.foldl_nil, lookup_installVerdicts]
    cases hkey : store.snapshot.keys.lookup id with
    | none => rfl
    | some state =>
      rw [Option.map_some, Option.map_some, Option.map_some, if_pos]
      · rfl
      · intro n _
        rw [List.take_nil]
        exact HashMap.mem_iff_lookup.mpr ⟨state, hkey⟩
  | append_singleton rosters roster ih =>
    rw [List.foldl_append, List.foldl_append, List.foldl_cons, List.foldl_cons, List.foldl_nil,
      List.foldl_nil, lookup_rosterSnapshot (rosters.foldl installIdentities store)]
    cases hkey : ((rosters.foldl installIdentities store).installIdentities
        roster).snapshot.keys.lookup id with
    | none => rfl
    | some state =>
      have hstays : (∀ n ≤ (rosters ++ [roster]).length, id ∈
            (((rosters ++ [roster]).take n).foldl installIdentities store).snapshot.keys) ↔
          ∀ n ≤ rosters.length, id ∈ ((rosters.take n).foldl installIdentities store).snapshot.keys := by
        rw [List.length_append, List.length_singleton]
        constructor
        · intro h n hn
          have := h n (Nat.le_succ_of_le hn)
          rwa [List.take_append_of_le_length hn] at this
        · intro h n hn
          rcases Nat.le_or_eq_of_le_succ hn with hn | rfl
          · rw [List.take_append_of_le_length hn]
            exact h n hn
          · rw [List.take_of_length_le (by simp), List.foldl_append]
            exact HashMap.mem_iff_lookup.mpr ⟨state, hkey⟩
      simp only [hstays]
      rw [Option.map_some, Option.map_some, Option.map_some, KeyState.withVerdict, verdictOf, ih]
      cases hbefore : (rosters.foldl installIdentities store).snapshot.keys.lookup id with
      | some old => rfl
      | none =>
        rw [if_neg]
        · rfl
        · intro h
          have hlast := h rosters.length le_rfl
          rw [List.take_length] at hlast
          exact HashMap.not_mem_iff_lookup.mpr hbefore hlast

/-- **Pulls of identities and verdicts.** Installing a roster and an overlay in either order answers
every request alike exactly if the overlay restricts no key that the roster adds and a token opens.
The verdict in force is the entry of the last overlay for the keys that were there and have stayed,
and none for those that were added since. -/
theorem pulls_commute_iff (roster : List IdentityInput) (overlay : HashMap KeyId Verdict) :
    ((∀ token model now,
      (((store.installIdentities roster).installVerdicts overlay).authorizeInner
          verify token model now).1 =
        (((store.installVerdicts overlay).installIdentities roster).authorizeInner
          verify token model now).1) ↔
      ∀ token id state,
        (store.installIdentities roster).opened verify token = some (id, state) →
        id ∉ store.snapshot.keys → state.Unrestricted (entryOf overlay id)) ∧
    ∀ rosters : List (List IdentityInput), ∀ id,
      ((rosters.foldl installIdentities (store.installVerdicts overlay)).snapshot.keys.lookup
          id).map (·.verdict) =
        ((rosters.foldl installIdentities store).snapshot.keys.lookup id).map fun _ =>
          if ∀ n ≤ rosters.length,
              id ∈ ((rosters.take n).foldl installIdentities store).snapshot.keys then
            entryOf overlay id
          else .default :=
  ⟨orders_iff verify store roster overlay,
    fun rosters id => lookup_after_rosters store overlay rosters id⟩

/-- A key is blocked before the roster that brings it has been pulled: the block is lost. -/
theorem block_of_added_key_lost :
    let roster : List IdentityInput := [⟨"narrow", KeyNode.storedHash, none, none⟩]
    let overlay : HashMap KeyId Verdict := HashMap.collect [("narrow", ⟨true, none, none⟩)]
    let store : KeyStore := ⟨⟨∅, 0⟩, ∅⟩
    let token := "bmFycm93OnMzY3JldA=="
    (((store.installIdentities roster).installVerdicts overlay).authorizeInner
        KeyNode.verifyStored token (some "gpt-4o") 0).1 = .error .blocked ∧
      (((store.installVerdicts overlay).installIdentities roster).authorizeInner
        KeyNode.verifyStored token (some "gpt-4o") 0).1 = .ok "narrow" := by
  decide +kernel

end KeyStore

end Llmleaf
