import Llmleaf.Keys.Pulls

/-!
# How large the cache of proven tokens gets

A token is cached once its password has verified, and stays until a roster drops its key. The cache
is meant to hold one token a key.

- `KeyStore.Op`: what happens to a store, one operation after the other.
- `Proved`: a token has been proven for a key that has stayed in the roster since; `cached_iff` says
  that these are the cached tokens.
- **Result** (`bounded_iff`): the cache is no larger than the roster, with one token a key, exactly
  if no two tokens of one key have been proven so.
-/

namespace Llmleaf.KeyStore

open Runs

variable {verify : String → String → Bool}

/-- An operation of the store. -/
inductive Op where
  | authorize (token : String) (model : Option String) (now : ℕ)
  | installIdentities (roster : List IdentityInput)
  | installVerdicts (overlay : HashMap KeyId Verdict)

/-- The store after an operation. -/
def perform (verify : String → String → Bool) (self : KeyStore) : Op → KeyStore
  | .authorize token model now => (self.authorizeInner verify token model now).2
  | .installIdentities roster => self.installIdentities roster
  | .installVerdicts overlay => self.installVerdicts overlay

/-- The runs of a store from the keys of a configuration. -/
def system (verify : String → String → Bool) : Sys KeyStore Op :=
  .ofFun (fun s => ∃ resolve keys, s = fromConfig resolve keys) (perform verify)

/-! ## What is cached -/

/-- The token is cached for the key. -/
def Cached (store : KeyStore) (token : String) (id : KeyId) : Prop :=
  (store.verified.lookup token).map (·.id) = some id

/-- The step proves the token for the key: it presents it, and the password verifies. -/
def Proves (verify : String → String → Bool) (x : Step KeyStore Op) (token : String) (id : KeyId) :
    Prop :=
  (∃ model now, x.event = .authorize token model now) ∧
    (coldKey verify x.pre.snapshot token).map (·.1) = some id

/-- The token was proven for the key, and the key has been in the roster ever since. -/
def Proved (verify : String → String → Bool) (tr : List (Step KeyStore Op)) (token : String)
    (id : KeyId) : Prop :=
  ∃ a x b, tr = a ++ x :: b ∧ Proves verify x token id ∧ ∀ y ∈ b, id ∈ y.post.snapshot.keys

theorem proved_snoc (tr : List (Step KeyStore Op)) (y : Step KeyStore Op) (token : String)
    (id : KeyId) :
    Proved verify (tr ++ [y]) token id ↔
      Proves verify y token id ∨ Proved verify tr token id ∧ id ∈ y.post.snapshot.keys := by
  constructor
  · rintro ⟨a, x, b, heq, hx, hstays⟩
    rcases List.eq_nil_or_concat b with rfl | ⟨b, y', rfl⟩
    · obtain ⟨rfl, rfl⟩ := List.append_singleton_inj.mp heq
      exact .inl hx
    · rw [List.concat_eq_append, ← List.cons_append, ← List.append_assoc] at heq
      obtain ⟨rfl, rfl⟩ := List.append_singleton_inj.mp heq
      rw [List.concat_eq_append] at hstays
      exact .inr ⟨⟨a, x, b, rfl, hx, fun z hz => hstays z (List.mem_append_left _ hz)⟩,
        hstays y (by simp)⟩
  · rintro (hy | ⟨⟨a, x, b, rfl, hx, hstays⟩, hy⟩)
    · exact ⟨tr, y, [], rfl, hy, fun _ hz => by cases hz⟩
    · refine ⟨a, x, b ++ [y], by simp, hx, fun z hz => ?_⟩
      rcases List.mem_append.mp hz with hz | hz
      · exact hstays z hz
      · rwa [List.mem_singleton.mp hz]

/-- What is cached belongs to a key of the roster, the one its token names. -/
def Tidy (store : KeyStore) : Prop :=
  ∀ token id, store.Cached token id →
    id ∈ store.snapshot.keys ∧ (decodeToken token).map (·.1) = some id

theorem coldKey_eq_some {snap : KeySnapshot} {token : String} {id : KeyId}
    (h : (coldKey verify snap token).map (·.1) = some id) :
    id ∈ snap.keys ∧ (decodeToken token).map (·.1) = some id := by
  obtain ⟨⟨id', state⟩, hkey, rfl⟩ := Option.map_eq_some_iff.mp h
  obtain ⟨⟨id, password⟩, hdec, hkey⟩ := Option.bind_eq_some_iff.mp hkey
  obtain ⟨state', hstate, hkey⟩ := Option.bind_eq_some_iff.mp hkey
  dsimp only at hstate hkey
  split at hkey
  · cases hkey
    exact ⟨HashMap.mem_iff_lookup.mpr ⟨_, hstate⟩, by rw [hdec]; rfl⟩
  · cases hkey

/-- The cold path wants the key it opens cached. -/
theorem coldPath_cached (snap : KeySnapshot) (token : String) (model : Option String) (now : ℕ) :
    (coldPath verify snap token model now).2.map (·.id) =
      (coldKey verify snap token).map (·.1) := by
  unfold coldPath coldKey
  cases decodeToken token with
  | none => rfl
  | some e =>
    cases hkey : snap.keys.lookup e.1 with
    | none => simp only [hkey, Option.bind_some, Option.bind_none, Option.map_none]
    | some state =>
      simp only [hkey, Option.bind_some]
      split <;> rfl

theorem cached_insert {store : KeyStore} (token token' : String) (entry : VerifiedEntry)
    (id : KeyId) :
    ({ store with verified := store.verified.insert token entry } : KeyStore).Cached token' id ↔
      (token' = token ∧ entry.id = id) ∨ (token' ≠ token ∧ store.Cached token' id) := by
  rw [Cached, HashMap.lookup_insert_eq]
  by_cases h : token' = token
  · simp [h]
  · simp [h, Cached]

/-- **An authorization** caches its token if it proves it, and no other. -/
theorem cached_authorize {store : KeyStore} (h : store.Tidy) (token : String)
    (model : Option String) (now : ℕ) (token' : String) (id : KeyId) :
    (store.authorizeInner verify token model now).2.Cached token' id ↔
      (token' = token ∧ (coldKey verify store.snapshot token).map (·.1) = some id) ∨
        store.Cached token' id := by
  -- a token that is cached already is cached for the key it proves
  have hsame : ∀ id', (coldKey verify store.snapshot token).map (·.1) = some id' →
      store.Cached token id → id = id' := fun id' hkey hcached =>
    Option.some.inj ((h token id hcached).2.symm.trans (coldKey_eq_some hkey).2)
  have hentry : (coldPath verify store.snapshot token model now).2.map (·.id) = _ :=
    coldPath_cached store.snapshot token model now
  rw [authorizeInner]
  split
  · rename_i answer hwarm
    refine (or_iff_right_of_imp ?_).symm
    rintro ⟨rfl, hkey⟩
    unfold warmPath at hwarm
    split at hwarm
    · cases hwarm
    · rename_i e he
      have hcached : store.Cached token' e.id := by rw [Cached, he, Option.map_some]
      obtain rfl : e.id = id :=
        Option.some.inj ((h token' e.id hcached).2.symm.trans (coldKey_eq_some hkey).2)
      exact hcached
  · dsimp only
    rcases hcold : (coldPath verify store.snapshot token model now).2 with _ | entry
    · rw [hcold] at hentry
      rw [remember, ← hentry]
      simp
    · rw [hcold] at hentry
      rw [remember, cached_insert, ← hentry, Option.map_some, Option.some.injEq]
      constructor
      · rintro (hnew | ⟨-, hold⟩)
        · exact .inl hnew
        · exact .inr hold
      · rintro (hnew | hold)
        · exact .inl hnew
        · by_cases htoken : token' = token
          · subst htoken
            exact .inl ⟨rfl, (hsame entry.id hentry.symm hold).symm⟩
          · exact .inr ⟨htoken, hold⟩

/-- A roster drops the cached tokens of the keys it does not have. -/
theorem cached_installIdentities (store : KeyStore) (roster : List IdentityInput) (token : String)
    (id : KeyId) :
    (store.installIdentities roster).Cached token id ↔
      store.Cached token id ∧ id ∈ (store.installIdentities roster).snapshot.keys := by
  have hlookup : (store.installIdentities roster).verified.lookup token =
      (store.verified.lookup token).filter fun e =>
        decide (e.id ∈ (store.installIdentities roster).snapshot.keys) :=
    HashMap.lookup_retain _ _ _
  rw [Cached, Cached, hlookup]
  cases store.verified.lookup token with
  | none => simp
  | some e =>
    rw [Option.filter_some]
    split
    · rename_i hmem
      rw [decide_eq_true_eq] at hmem
      refine ⟨fun he => ⟨he, ?_⟩, fun he => he.1⟩
      rw [← Option.some.inj he]
      exact hmem
    · rename_i hmem
      rw [decide_eq_true_eq] at hmem
      refine iff_of_false (by simp) ?_
      rintro ⟨he, hid⟩
      obtain rfl : e.id = id := Option.some.inj he
      exact hmem hid

theorem mem_installVerdicts (store : KeyStore) (overlay : HashMap KeyId Verdict) (id : KeyId) :
    id ∈ (store.installVerdicts overlay).snapshot.keys ↔ id ∈ store.snapshot.keys := by
  rw [HashMap.mem_iff_lookup, HashMap.mem_iff_lookup, lookup_installVerdicts]
  simp

theorem snapshot_authorizeInner (store : KeyStore) (token : String) (model : Option String)
    (now : ℕ) : (store.authorizeInner verify token model now).2.snapshot = store.snapshot := by
  rw [authorizeInner]
  split <;> rfl

/-- **One step**: what is cached after it was proven by it, or was cached and has its key. -/
theorem cached_step {store : KeyStore} (h : store.Tidy) (op : Op) :
    (store.perform verify op).Tidy ∧ ∀ token id,
      (store.perform verify op).Cached token id ↔
        Proves verify ⟨store, op, store.perform verify op⟩ token id ∨
          store.Cached token id ∧ id ∈ (store.perform verify op).snapshot.keys := by
  have hno {op : Op} (hop : ∀ token model now, op ≠ .authorize token model now) (token : String)
      (id : KeyId) : ¬ Proves verify ⟨store, op, store.perform verify op⟩ token id :=
    fun ⟨⟨model, now, heq⟩, _⟩ => hop token model now heq
  cases op with
  | authorize token model now =>
    have hcached : ∀ token' id,
        (store.authorizeInner verify token model now).2.Cached token' id ↔ _ :=
      cached_authorize h token model now
    have hsnap : (store.authorizeInner verify token model now).2.snapshot = store.snapshot :=
      snapshot_authorizeInner store token model now
    have hproves : ∀ token' id, Proves verify ⟨store, .authorize token model now,
        store.perform verify (.authorize token model now)⟩ token' id ↔
          token' = token ∧ (coldKey verify store.snapshot token).map (·.1) = some id := by
      intro token' id
      constructor
      · rintro ⟨⟨model', now', heq⟩, hkey⟩
        cases heq
        exact ⟨rfl, hkey⟩
      · rintro ⟨rfl, hkey⟩
        exact ⟨⟨model, now, rfl⟩, hkey⟩
    refine ⟨fun token' id hc => ?_, fun token' id => ?_⟩
    · rw [perform, hsnap]
      rcases (hcached token' id).mp hc with ⟨rfl, hkey⟩ | hc
      · exact coldKey_eq_some hkey
      · exact h token' id hc
    · rw [hproves, perform, hcached, hsnap]
      exact or_congr_right ⟨fun hc => ⟨hc, (h token' id hc).1⟩, fun hc => hc.1⟩
  | installIdentities roster =>
    have hcached := cached_installIdentities store roster
    refine ⟨fun token id hc => ?_, fun token id => ?_⟩
    · obtain ⟨hc, hid⟩ := (hcached token id).mp hc
      exact ⟨hid, (h token id hc).2⟩
    · rw [or_iff_right (hno (by simp) token id)]
      exact hcached token id
  | installVerdicts overlay =>
    refine ⟨fun token id hc => ?_, fun token id => ?_⟩
    · exact ⟨(mem_installVerdicts store overlay id).mpr (h token id hc).1, (h token id hc).2⟩
    · rw [or_iff_right (hno (by simp) token id), perform, mem_installVerdicts]
      exact ⟨fun hc => ⟨hc, (h token id hc).1⟩, fun hc => hc.1⟩

/-- **The run**: the cached tokens are those that were proven for a key that has stayed. -/
theorem cached_iff {s t : KeyStore} {tr : List (Step KeyStore Op)} (hs : (system verify).init s)
    (h : Run (system verify) s tr t) :
    t.Tidy ∧ ∀ token id, t.Cached token id ↔ Proved verify tr token id := by
  refine h.invariant_trace (P := fun tr t =>
    t.Tidy ∧ ∀ token id, t.Cached token id ↔ Proved verify tr token id) ?_ ?_
  · obtain ⟨resolve, keys, rfl⟩ := hs
    have hnone : ∀ token id, ¬ (fromConfig resolve keys).Cached token id :=
      fun token id hc => by cases hc
    refine ⟨fun token id hc => absurd hc (hnone token id), fun token id => ?_⟩
    refine iff_of_false (hnone token id) ?_
    rintro ⟨a, x, b, heq, -⟩
    exact absurd (congrArg List.length heq) (by simp)
  · rintro tr t op t' - ⟨htidy, hcached⟩ rfl
    have hop : (t.perform verify op).Tidy ∧ _ := cached_step htidy op
    obtain ⟨htidy', hstep⟩ := hop
    refine ⟨htidy', fun token id => ?_⟩
    rw [hstep, proved_snoc, hcached]

/-! ## The bound -/

/-- At most one token is cached for a key, and no more tokens than there are keys. -/
structure Bounded (store : KeyStore) : Prop where
  one : ∀ token token' id, store.Cached token id → store.Cached token' id → token = token'
  size : store.verified.keys.length ≤ store.snapshot.keys.keys.length

/-- Tokens of different keys are no more than the keys. -/
theorem Tidy.size {store : KeyStore} (h : store.Tidy)
    (hone : ∀ token token' id, store.Cached token id → store.Cached token' id → token = token') :
    store.verified.keys.length ≤ store.snapshot.keys.keys.length := by
  have hcached : ∀ e ∈ store.verified.pairs, store.Cached e.1 e.2.id := fun e he => by
    rw [Cached, HashMap.mem_pairs.mp he, Option.map_some]
  have hnodup : (store.verified.pairs.map fun e => e.2.id).Nodup := by
    refine List.Nodup.map_on ?_ (List.Nodup.of_map _ store.verified.nodup_pairs_keys)
    intro e he e' he' hid
    exact List.inj_on_of_nodup_map store.verified.nodup_pairs_keys he he'
      (hone e.1 e'.1 e'.2.id (hid ▸ hcached e he) (hcached e' he'))
  have hsub : (store.verified.pairs.map fun e => e.2.id) ⊆ store.snapshot.keys.keys := by
    intro id hid
    obtain ⟨e, he, rfl⟩ := List.mem_map.mp hid
    exact AList.mem_keys.mp (h e.1 e.2.id (hcached e he)).1
  have hle := (List.subperm_of_subset hnodup hsub).length_le
  rw [List.length_map] at hle
  rwa [← HashMap.pairs_keys, List.length_map]

/-- **The cache is bounded by the keys exactly if no two tokens were proven for one key that has
stayed in the roster since.** -/
theorem bounded_iff {s t : KeyStore} {tr : List (Step KeyStore Op)} (hs : (system verify).init s)
    (h : Run (system verify) s tr t) :
    t.Bounded ↔ ∀ token token' id, Proved verify tr token id → Proved verify tr token' id →
      token = token' := by
  obtain ⟨htidy, hcached⟩ := cached_iff hs h
  simp only [← hcached]
  exact ⟨fun hb => hb.one, fun hone => ⟨hone, htidy.size hone⟩⟩

/-- One credential, spelled with and without padding. -/
def twoSpellings : List Op :=
  [.authorize "bmFycm93OnMzY3JldA==" none 0, .authorize "bmFycm93OnMzY3JldA" none 0]

theorem bounded_iff_twoSpellings :
    let tr := trace (perform KeyNode.verifyStored) KeyNode.narrowStore twoSpellings
    (twoSpellings.foldl (perform KeyNode.verifyStored) KeyNode.narrowStore).Bounded ↔
      ∀ token token' id, Proved KeyNode.verifyStored tr token id →
        Proved KeyNode.verifyStored tr token' id → token = token' :=
  bounded_iff ⟨_, _, rfl⟩
    (Run.exec _ (perform KeyNode.verifyStored) KeyNode.narrowStore twoSpellings)

/-- The decoder takes both spellings: the one key has two tokens in the cache. -/
theorem not_bounded_twoSpellings :
    ¬ (twoSpellings.foldl (perform KeyNode.verifyStored) KeyNode.narrowStore).Bounded := by
  intro h
  exact absurd h.size (by decide +kernel)

end Llmleaf.KeyStore
