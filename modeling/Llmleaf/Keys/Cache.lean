import Llmleaf.Keys
import Llmleaf.Lib.Runs

/-!
# The cache of proven tokens

Authorizations run at the same time as installs. Each one clones the snapshot, reads the cache,
verifies and inserts, and every one of these steps may interleave with the steps of others and with
the two halves of an identity install, which prunes the cache before it swaps the snapshot.

- `AuthCall.step`: the next step of an authorization; `runAlone_eq_authorizeInner`: without
  interleaving, three steps are `KeyStore.authorizeInner`.
- `KeyNode.system`: the interleaved runs.
- **Invariant** (`KeyNode.Sound`): there is one record of the hashes of every identity generation
  that all snapshots agree with, and every cached entry carries a hash of that record which its
  token verifies against.
- **Result** (`KeyNode.answer_eq_coldPath`): an authorization answers what the cold path alone
  answers on its snapshot.
-/

namespace Llmleaf

/-! ## One authorization -/

/-- What an authorization does next, or how it has ended. -/
inductive AuthPhase where
  | readCache
  | verify
  | insert (answer : Except AuthError KeyId) (entry : VerifiedEntry)
  | done (answer : Except AuthError KeyId)

/-- An authorization on its way, with the snapshot it has cloned. -/
structure AuthCall where
  token : String
  model : Option String
  now : ℕ
  snap : KeySnapshot
  phase : AuthPhase

namespace AuthCall

/-- The answer of the cold path alone. -/
def coldAnswer (verify : String → String → Bool) (c : AuthCall) : Except AuthError KeyId :=
  (KeyStore.coldPath verify c.snap c.token c.model c.now).1

/-- The next step of an authorization on the cache. -/
def step (verify : String → String → Bool) (verified : HashMap String VerifiedEntry)
    (c : AuthCall) : HashMap String VerifiedEntry × AuthCall :=
  match c.phase with
  | .readCache =>
    match KeyStore.warmPath c.snap verified c.token c.model c.now with
    | some answer => (verified, { c with phase := .done answer })
    | none => (verified, { c with phase := .verify })
  | .verify =>
    match KeyStore.coldPath verify c.snap c.token c.model c.now with
    | (answer, some entry) => (verified, { c with phase := .insert answer entry })
    | (answer, none) => (verified, { c with phase := .done answer })
  | .insert answer entry =>
    (verified.insert c.token entry, { c with phase := .done answer })
  | .done _ => (verified, c)

/-- One step after another. -/
def runAlone (verify : String → String → Bool) :
    ℕ → HashMap String VerifiedEntry × AuthCall → HashMap String VerifiedEntry × AuthCall
  | 0, s => s
  | n + 1, s => runAlone verify n (step verify s.1 s.2)

/-- **Without interleaving, the steps of an authorization are `authorizeInner`.** -/
theorem runAlone_eq_authorizeInner (verify : String → String → Bool) (store : KeyStore)
    (token : String) (model : Option String) (now : ℕ) :
    let s := runAlone verify 3 (store.verified, ⟨token, model, now, store.snapshot, .readCache⟩)
    s.2.phase = .done (store.authorizeInner verify token model now).1 ∧
      s.1 = (store.authorizeInner verify token model now).2.verified := by
  rw [KeyStore.authorizeInner]
  cases hw : KeyStore.warmPath store.snapshot store.verified token model now with
  | some answer => simp only [runAlone, step, hw, and_self]
  | none =>
    rcases hc : KeyStore.coldPath verify store.snapshot token model now with ⟨answer, _ | entry⟩ <;>
      simp only [runAlone, step, hw, hc, KeyStore.remember, and_self]

end AuthCall

/-! ## The interleaved system -/

/-- A node's key state: the store, the snapshot of an identity install that has pruned the cache and
still holds the write lock, and the authorizations. -/
structure KeyNode where
  store : KeyStore
  pending : Option KeySnapshot
  calls : List AuthCall

namespace KeyNode

/-- An authorization clones the snapshot or takes its next step, an identity install prunes the
cache or swaps the snapshot, or a verdict overlay is installed. -/
inductive Event where
  | clone (token : String) (model : Option String) (now : ℕ)
  | advance (call : ℕ)
  | pruneFor (roster : List IdentityInput)
  | swap
  | verdicts (overlay : HashMap KeyId Verdict)

/-- Whether an event begins an identity install. -/
def Event.isInstall : Event → Bool
  | .pruneFor _ => true
  | _ => false

/-- The number of identity installs. -/
def installs (es : List Event) : ℕ := es.countP Event.isInstall

/-- The state after an event. While an install holds the write lock, no one clones or installs. -/
def step (verify : String → String → Bool) (node : KeyNode) : Event → KeyNode
  | .clone token model now =>
    match node.pending with
    | some _ => node
    | none =>
      { node with calls := node.calls ++ [⟨token, model, now, node.store.snapshot, .readCache⟩] }
  | .advance i =>
    match node.calls[i]? with
    | none => node
    | some c =>
      { node with
        store := { node.store with verified := (c.step verify node.store.verified).1 }
        calls := node.calls.set i (c.step verify node.store.verified).2 }
  | .pruneFor roster =>
    match node.pending with
    | some _ => node
    | none =>
      let snap := KeyStore.rosterSnapshot node.store.snapshot roster
      { node with
        store := { node.store with verified := KeyStore.prune node.store.verified snap.keys }
        pending := some snap }
  | .swap =>
    match node.pending with
    | none => node
    | some snap => { node with store := { node.store with snapshot := snap }, pending := none }
  | .verdicts overlay =>
    match node.pending with
    | some _ => node
    | none => { node with store := node.store.installVerdicts overlay }

/-- A store that serves its first request. -/
def start (store : KeyStore) : KeyNode := ⟨store, none, []⟩

/-- The runs of a node from the keys of a configuration. -/
def system (verify : String → String → Bool) : Runs.Sys KeyNode Event :=
  .ofFun (fun node => ∃ resolve keys, node = start (.fromConfig resolve keys)) (step verify)

/-- The two halves of an identity install are `installIdentities`. -/
theorem swap_pruneFor (verify : String → String → Bool) (store : KeyStore) (calls : List AuthCall)
    (roster : List IdentityInput) :
    ((KeyNode.mk store none calls).step verify (.pruneFor roster)).step verify .swap =
      ⟨store.installIdentities roster, none, calls⟩ := rfl

end KeyNode

/-! ## What the cache rests on -/

/-- The hash a snapshot stores for a key. -/
def KeySnapshot.hash (snap : KeySnapshot) (id : KeyId) : Option String :=
  (snap.keys.lookup id).map (·.pwHash)

/-- The hash of every key in every identity generation. -/
abbrev HashRecord := ℕ → KeyId → Option String

/-- A snapshot of a generation up to `top` holds the recorded hashes. -/
structure KeySnapshot.Recorded (record : HashRecord) (top : ℕ) (snap : KeySnapshot) : Prop where
  gen_le : snap.identityGen ≤ top
  hash_eq : ∀ id, snap.hash id = record snap.identityGen id

/-- A token verifies against the hash of its entry, and that hash is a recorded one. -/
structure VerifiedEntry.Proven (verify : String → String → Bool) (record : HashRecord) (top : ℕ)
    (token : String) (e : VerifiedEntry) : Prop where
  gen_le : e.identityGen ≤ top
  hash_eq : record e.identityGen e.id = some e.pwHash
  verifies : ∃ password, decodeToken token = some (e.id, password) ∧ verify password e.pwHash = true

section

variable {verify : String → String → Bool} {record record' : HashRecord} {top top' : ℕ}

theorem KeySnapshot.Recorded.extend {snap : KeySnapshot} (h : snap.Recorded record top)
    (htop : top ≤ top') (hsame : ∀ gen ≤ top, record' gen = record gen) :
    snap.Recorded record' top' := by
  refine ⟨h.gen_le.trans htop, fun id => ?_⟩
  rw [hsame _ h.gen_le]
  exact h.hash_eq id

theorem VerifiedEntry.Proven.extend {token : String} {e : VerifiedEntry}
    (h : e.Proven verify record top token) (htop : top ≤ top')
    (hsame : ∀ gen ≤ top, record' gen = record gen) : e.Proven verify record' top' token := by
  refine ⟨h.gen_le.trans htop, ?_, h.verifies⟩
  rw [hsame _ h.gen_le]
  exact h.hash_eq

/-- The cold path of a token whose password verifies. -/
theorem coldPath_verified {snap : KeySnapshot} {token id password : String} {state : KeyState}
    (hdec : decodeToken token = some (id, password)) (hkey : snap.keys.lookup id = some state)
    (hver : verify password state.pwHash = true) (model : Option String) (now : ℕ) :
    KeyStore.coldPath verify snap token model now =
      (enforce state id model now, some ⟨id, snap.identityGen, state.pwHash⟩) := by
  simp only [KeyStore.coldPath, hdec, hkey, hver, if_true]

/-- An entry the cold path wants cached names a key of the snapshot and its hash, and the token
verifies against it. -/
theorem coldPath_entry {snap : KeySnapshot} {token : String} {model : Option String} {now : ℕ}
    {answer : Except AuthError KeyId} {e : VerifiedEntry}
    (h : KeyStore.coldPath verify snap token model now = (answer, some e)) :
    e.identityGen = snap.identityGen ∧ snap.hash e.id = some e.pwHash ∧
      ∃ password, decodeToken token = some (e.id, password) ∧
        verify password e.pwHash = true := by
  unfold KeyStore.coldPath at h
  split at h
  · cases h
  · rename_i id password hdec
    split at h
    · cases h
    · rename_i state hkey
      split at h
      · rename_i hver
        cases h
        exact ⟨rfl, by rw [KeySnapshot.hash, hkey]; rfl, password, hdec, hver⟩
      · cases h

/-- A token the cold path does not answer `unknown` verifies against its key's hash. -/
theorem coldPath_known {snap : KeySnapshot} {token : String} {model : Option String} {now : ℕ}
    (h : (KeyStore.coldPath verify snap token model now).1 ≠ .error .unknown) :
    ∃ id password state, decodeToken token = some (id, password) ∧
      snap.keys.lookup id = some state ∧ verify password state.pwHash = true ∧
      (KeyStore.coldPath verify snap token model now).1 = enforce state id model now := by
  unfold KeyStore.coldPath at h ⊢
  split at h
  · exact absurd rfl h
  · rename_i id password hdec
    split at h
    · exact absurd rfl h
    · rename_i state hkey
      split at h
      · rename_i hver
        exact ⟨id, password, state, hdec, hkey, hver, by simp only [hver, if_true]⟩
      · exact absurd rfl h

/-- **A warm answer is the cold answer.** Within one generation the record fixes the key's hash;
across generations the hashes are compared. -/
theorem warmPath_eq_coldPath {snap : KeySnapshot} {verified : HashMap String VerifiedEntry}
    {token : String} {model : Option String} {now : ℕ} {answer : Except AuthError KeyId}
    (hsnap : snap.Recorded record top)
    (hcache : ∀ e, verified.lookup token = some e → e.Proven verify record top token)
    (h : KeyStore.warmPath snap verified token model now = some answer) :
    answer = (KeyStore.coldPath verify snap token model now).1 := by
  unfold KeyStore.warmPath at h
  split at h
  · cases h
  · rename_i e he
    split at h
    · cases h
    · rename_i state hkey
      obtain ⟨password, hdec, hver⟩ := (hcache e he).verifies
      split at h
      · rename_i htrust
        cases h
        have hhash : e.pwHash = state.pwHash := by
          rcases htrust with hgen | hhash
          · have hrec := hsnap.hash_eq e.id
            rw [← hgen, (hcache e he).hash_eq, KeySnapshot.hash, hkey] at hrec
            exact (Option.some.inj hrec).symm
          · exact hhash
        rw [coldPath_verified hdec hkey (hhash ▸ hver)]
      · cases h

/-- An authorization answers as the cold path does, so far as it has an answer. -/
def AuthCall.Sound (verify : String → String → Bool) (record : HashRecord) (top : ℕ)
    (c : AuthCall) : Prop :=
  c.snap.Recorded record top ∧
    match c.phase with
    | .readCache | .verify => True
    | .insert answer entry =>
      answer = c.coldAnswer verify ∧ entry.Proven verify record top c.token
    | .done answer => answer = c.coldAnswer verify

theorem AuthCall.Sound.extend {c : AuthCall} (h : c.Sound verify record top) (htop : top ≤ top')
    (hsame : ∀ gen ≤ top, record' gen = record gen) : c.Sound verify record' top' := by
  obtain ⟨hsnap, hphase⟩ := h
  refine ⟨hsnap.extend htop hsame, ?_⟩
  cases hp : c.phase with
  | insert answer entry =>
    rw [hp] at hphase
    exact ⟨hphase.1, hphase.2.extend htop hsame⟩
  | readCache | verify => trivial
  | done answer => rw [hp] at hphase; exact hphase

/-- One step of an authorization keeps its promise and that of the cache. -/
theorem AuthCall.step_sound {c : AuthCall} {verified : HashMap String VerifiedEntry}
    (hc : c.Sound verify record top)
    (hcache : ∀ token e, verified.lookup token = some e → e.Proven verify record top token) :
    (c.step verify verified).2.Sound verify record top ∧
      ∀ token e, (c.step verify verified).1.lookup token = some e →
        e.Proven verify record top token := by
  obtain ⟨hsnap, hphase⟩ := hc
  unfold AuthCall.step
  cases hp : c.phase with
  | readCache =>
    cases hw : KeyStore.warmPath c.snap verified c.token c.model c.now with
    | some answer => exact ⟨⟨hsnap, warmPath_eq_coldPath hsnap (hcache c.token) hw⟩, hcache⟩
    | none => exact ⟨⟨hsnap, trivial⟩, hcache⟩
  | verify =>
    rcases hcold : KeyStore.coldPath verify c.snap c.token c.model c.now with ⟨answer, _ | entry⟩
    · refine ⟨⟨hsnap, ?_⟩, hcache⟩
      simp only [AuthCall.coldAnswer, hcold]
    · obtain ⟨hgen, hhash, hver⟩ := coldPath_entry hcold
      refine ⟨⟨hsnap, ?_, ⟨hgen ▸ hsnap.gen_le, ?_, hver⟩⟩, hcache⟩
      · simp only [AuthCall.coldAnswer, hcold]
      · rw [hgen, ← hsnap.hash_eq]
        exact hhash
  | insert answer entry =>
    rw [hp] at hphase
    refine ⟨⟨hsnap, hphase.1⟩, fun token e he => ?_⟩
    rw [HashMap.lookup_insert_eq] at he
    split at he
    · rename_i htok
      cases he
      rw [htok]
      exact hphase.2
    · exact hcache token e he
  | done answer => exact ⟨⟨hsnap, hphase⟩, hcache⟩

end

/-! ## The invariant -/

namespace KeyNode

/-- All snapshots, cached entries and authorizations of a node rest on one record, whose latest
generation is that of the snapshot installed or about to be. -/
structure Sound (verify : String → String → Bool) (record : HashRecord) (top : ℕ) (node : KeyNode) :
    Prop where
  top_eq : (node.pending.getD node.store.snapshot).identityGen = top
  current : node.store.snapshot.Recorded record top
  pending : ∀ snap, node.pending = some snap → snap.Recorded record top
  cache : ∀ token e, node.store.verified.lookup token = some e → e.Proven verify record top token
  calls : ∀ c ∈ node.calls, c.Sound verify record top

section

variable {verify : String → String → Bool} {record : HashRecord} {top : ℕ} {node : KeyNode}

/-- A started node rests on the hashes of its own snapshot. -/
theorem start_sound (resolve : Secret → Option String) (keys : List KeyConfig) :
    (start (.fromConfig resolve keys)).Sound verify
      (fun _ => (KeyStore.fromConfig resolve keys).snapshot.hash) 0 where
  top_eq := rfl
  current := ⟨le_rfl, fun _ => rfl⟩
  pending := by
    intro snap h
    cases h
  cache := by
    intro token e he
    cases he
  calls := by
    intro c hc
    cases hc

theorem verdictSnapshot_hash (snap : KeySnapshot) (overlay : HashMap KeyId Verdict) (id : KeyId) :
    (KeyStore.verdictSnapshot snap overlay).hash id = snap.hash id := by
  rw [KeySnapshot.hash, KeyStore.verdictSnapshot, HashMap.lookup_map, Option.map_map]
  rfl

/-- What the first half of an identity install adds: a fresh generation, recorded beside the old
ones. -/
theorem pruneFor_sound (h : node.Sound verify record top) (hidle : node.pending = none)
    (hroom : top + 1 < 2 ^ 64) (roster : List IdentityInput) :
    ∃ record', (node.step verify (.pruneFor roster)).Sound verify record' (top + 1) := by
  let snap := KeyStore.rosterSnapshot node.store.snapshot roster
  have hgen : snap.identityGen = top + 1 := by
    have htop := h.top_eq
    rw [hidle] at htop
    show (node.store.snapshot.identityGen + 1) % 2 ^ 64 = top + 1
    rw [show node.store.snapshot.identityGen = top from htop]
    exact Nat.mod_eq_of_lt hroom
  have hstep : node.step verify (.pruneFor roster) =
      { node with
        store := { node.store with verified := KeyStore.prune node.store.verified snap.keys }
        pending := some snap } := by
    simp only [step, hidle]
    rfl
  have hle : top ≤ top + 1 := Nat.le_succ top
  have hsame : ∀ gen ≤ top, Function.update record (top + 1) snap.hash gen = record gen :=
    fun gen hgen => Function.update_of_ne (Nat.lt_succ_of_le hgen).ne _ _
  refine ⟨Function.update record (top + 1) snap.hash, ?_⟩
  rw [hstep]
  constructor
  · exact hgen
  · exact h.current.extend hle hsame
  · intro s hs
    cases hs
    refine ⟨hgen.le, fun id => ?_⟩
    rw [hgen, Function.update_self]
  · intro token e he
    -- pruning only removes entries
    refine (h.cache token e ?_).extend hle hsame
    exact (Option.filter_eq_some_iff.mp ((HashMap.lookup_retain _ _ _).symm.trans he)).1
  · exact fun c hc => (h.calls c hc).extend hle hsame

/-- **One step.** A sound node stays sound, and only an install adds a generation. -/
theorem step_sound {e : Event} (h : node.Sound verify record top)
    (hroom : e.isInstall = true → top + 1 < 2 ^ 64) :
    ∃ record' top', top' ≤ top + e.isInstall.toNat ∧
      (node.step verify e).Sound verify record' top' := by
  cases e with
  | clone token model now =>
    refine ⟨record, top, Nat.le_add_right _ _, ?_⟩
    cases hp : node.pending with
    | some snap => simp only [step, hp]; exact h
    | none =>
      simp only [step, hp]
      refine ⟨?_, h.current, by simp, h.cache, fun c hc => ?_⟩
      · have htop := h.top_eq
        rwa [hp] at htop
      · rcases List.mem_append.mp hc with hc | hc
        · exact h.calls c hc
        · rw [List.mem_singleton.mp hc]
          exact ⟨h.current, trivial⟩
  | advance i =>
    refine ⟨record, top, Nat.le_add_right _ _, ?_⟩
    cases hi : node.calls[i]? with
    | none => simp only [step, hi]; exact h
    | some c =>
      obtain ⟨hcall, hcache⟩ := AuthCall.step_sound (h.calls c (List.mem_of_getElem? hi)) h.cache
      simp only [step, hi]
      refine ⟨h.top_eq, h.current, h.pending, hcache, fun d hd => ?_⟩
      rcases List.mem_or_eq_of_mem_set hd with hd | rfl
      · exact h.calls d hd
      · exact hcall
  | pruneFor roster =>
    cases hp : node.pending with
    | some snap =>
      refine ⟨record, top, Nat.le_add_right _ _, ?_⟩
      simp only [step, hp]
      exact h
    | none =>
      obtain ⟨record', hsound⟩ := pruneFor_sound h hp (hroom rfl) roster
      exact ⟨record', top + 1, le_rfl, hsound⟩
  | swap =>
    refine ⟨record, top, Nat.le_add_right _ _, ?_⟩
    cases hp : node.pending with
    | none => simp only [step, hp]; exact h
    | some snap =>
      simp only [step, hp]
      refine ⟨?_, h.pending snap hp, by simp, h.cache, h.calls⟩
      have htop := h.top_eq
      rwa [hp] at htop
  | verdicts overlay =>
    refine ⟨record, top, Nat.le_add_right _ _, ?_⟩
    cases hp : node.pending with
    | some snap => simp only [step, hp]; exact h
    | none =>
      simp only [step, hp]
      have htop := h.top_eq
      rw [hp] at htop
      refine ⟨htop, ⟨h.current.gen_le, fun id => ?_⟩, by simp, h.cache, h.calls⟩
      exact (verdictSnapshot_hash _ _ _).trans (h.current.hash_eq id)

/-- **The run.** With fewer than `2 ^ 64` identity installs every state reached is sound. -/
theorem run_sound {s t : KeyNode} {tr : List (Runs.Step KeyNode Event)}
    (hs : (system verify).init s) (hr : Runs.Run (system verify) s tr t)
    (hfew : installs (Runs.events tr) < 2 ^ 64) :
    ∃ record top, t.Sound verify record top := by
  have hinv : installs (Runs.events tr) < 2 ^ 64 →
      ∃ record top, top ≤ installs (Runs.events tr) ∧ t.Sound verify record top := by
    refine hr.invariant_trace (P := fun tr t => installs (Runs.events tr) < 2 ^ 64 →
      ∃ record top, top ≤ installs (Runs.events tr) ∧ t.Sound verify record top) ?_ ?_
    · intro _
      obtain ⟨resolve, keys, rfl⟩ := hs
      exact ⟨_, 0, le_rfl, start_sound resolve keys⟩
    · rintro tr t e t' - ih rfl hfew
      have hcount : installs (Runs.events (tr ++ [⟨t, e, t.step verify e⟩])) =
          installs (Runs.events tr) + e.isInstall.toNat := by
        rw [Runs.events_append, Runs.events_singleton, installs, installs, List.countP_append,
          List.countP_singleton]
        cases e.isInstall <;> rfl
      rw [hcount] at hfew ⊢
      obtain ⟨record, top, hle, hsound⟩ := ih (lt_of_le_of_lt (Nat.le_add_right _ _) hfew)
      obtain ⟨record', top', hle', hsound'⟩ := step_sound (e := e) hsound fun he => by
        rw [he] at hfew
        exact lt_of_le_of_lt (Nat.add_le_add_right hle 1) hfew
      exact ⟨record', top', hle'.trans (Nat.add_le_add_right hle _), hsound'⟩
  obtain ⟨record, top, -, hsound⟩ := hinv hfew
  exact ⟨record, top, hsound⟩

/-- In a sound node the store answers as the cold path alone. -/
theorem Sound.authorizeInner_eq (h : node.Sound verify record top) (token : String)
    (model : Option String) (now : ℕ) :
    (node.store.authorizeInner verify token model now).1 =
      (KeyStore.coldPath verify node.store.snapshot token model now).1 := by
  rw [KeyStore.authorizeInner]
  cases hw : KeyStore.warmPath node.store.snapshot node.store.verified token model now with
  | some answer => exact warmPath_eq_coldPath h.current (h.cache token) hw
  | none => rfl

/-- An authorization answers as the cold path alone does on the snapshot it cloned. -/
theorem run_answer {s t : KeyNode} {tr : List (Runs.Step KeyNode Event)}
    (hs : (system verify).init s) (hr : Runs.Run (system verify) s tr t)
    (hfew : installs (Runs.events tr) < 2 ^ 64) {c : AuthCall} (hc : c ∈ t.calls)
    {answer : Except AuthError KeyId} (hdone : c.phase = .done answer) :
    answer = (KeyStore.coldPath verify c.snap c.token c.model c.now).1 := by
  obtain ⟨record, top, hsound⟩ := run_sound hs hr hfew
  have hphase := (hsound.calls c hc).2
  rw [hdone] at hphase
  exact hphase

/-- **Every authorization answers what the cold path alone answers on the snapshot it cloned.** In
particular one that is not refused as unknown has a token whose password verifies against the hash
of its key in that snapshot. -/
theorem answer_eq_coldPath {s t : KeyNode} {tr : List (Runs.Step KeyNode Event)}
    (hs : (system verify).init s) (hr : Runs.Run (system verify) s tr t)
    (hfew : installs (Runs.events tr) < 2 ^ 64) :
    ∀ c ∈ t.calls, ∀ answer, c.phase = .done answer →
      answer = (KeyStore.coldPath verify c.snap c.token c.model c.now).1 ∧
      (answer ≠ .error .unknown → ∃ id password state,
        decodeToken c.token = some (id, password) ∧ c.snap.keys.lookup id = some state ∧
        verify password state.pwHash = true ∧ answer = enforce state id c.model c.now) := by
  intro c hc answer hdone
  have hanswer := run_answer hs hr hfew hc hdone
  refine ⟨hanswer, fun hne => ?_⟩
  rw [hanswer] at hne ⊢
  exact coldPath_known hne

end

/-! ## Rotating a key and back -/

/-- A hash that the password `s3cret` verifies against. -/
def storedHash : String := "$2y$04$IcVq6nhz5Tf85lBpWclgKeDjWxWMHlIXLE696.T7m9Eg12HekWFJO"

/-- A hash of some other password. -/
def rotatedHash : String := "$2y$12$u9eQ8FzvKdGjx52a1JQGN.O/Bcr0G0noVF3iy5Qtu43vwlshmAxRy"

/-- One key with a stored hash, a token of it proven before and after a rotation and after the hash
is rotated back; the second authorization inserts nothing, the last one is answered warm. -/
def rotation : List Event :=
  let token := "bmFycm93OnMzY3JldA=="
  let roster := fun hash => [⟨"narrow", hash, none, some ["gpt-4o"]⟩]
  [.clone token (some "gpt-4o") 0, .advance 0, .advance 0, .pruneFor (roster rotatedHash),
    .advance 0, .swap, .clone token (some "gpt-4o") 1, .advance 1, .advance 1,
    .pruneFor (roster storedHash), .swap, .clone token (some "o3") 2, .advance 2]

/-- The store of that key. -/
def narrowStore : KeyStore :=
  .fromConfig (fun hash => some hash.text) [⟨"narrow", ⟨storedHash⟩, none, some ["gpt-4o"]⟩]

/-- The verification of the two hashes. -/
def verifyStored (password hash : String) : Bool := password == "s3cret" && hash == storedHash

theorem answer_eq_coldPath_rotation :
    let node := rotation.foldl (step verifyStored) (start narrowStore)
    node.calls.map (·.phase) =
      [.done (.ok "narrow"), .done (.error .unknown), .done (.error .modelNotAllowed)] ∧
    ∀ c ∈ node.calls, ∀ answer, c.phase = .done answer →
      answer = (KeyStore.coldPath verifyStored c.snap c.token c.model c.now).1 ∧
      (answer ≠ .error .unknown → ∃ id password state,
        decodeToken c.token = some (id, password) ∧ c.snap.keys.lookup id = some state ∧
        verifyStored password state.pwHash = true ∧ answer = enforce state id c.model c.now) :=
  ⟨by rfl, answer_eq_coldPath ⟨_, _, rfl⟩ (Runs.Run.exec _ _ (start narrowStore) rotation)
    (by decide)⟩

end KeyNode

/-! ## A store between two identity installs -/

namespace KeyStore

variable {verify : String → String → Bool} {store : KeyStore}

/-- The cache rests on the hashes of the store's own snapshot. -/
def Rests (verify : String → String → Bool) (store : KeyStore) : Prop :=
  ∀ token e, store.verified.lookup token = some e →
    e.Proven verify (fun _ => store.snapshot.hash) store.snapshot.identityGen token

theorem Rests.authorizeInner_eq (h : store.Rests verify) (token : String) (model : Option String)
    (now : ℕ) :
    (store.authorizeInner verify token model now).1 =
      (coldPath verify store.snapshot token model now).1 := by
  rw [authorizeInner]
  cases hw : warmPath store.snapshot store.verified token model now with
  | some answer => exact warmPath_eq_coldPath ⟨le_rfl, fun _ => rfl⟩ (h token) hw
  | none => rfl

/-- An authorization keeps the snapshot and a cache that rests on it. -/
theorem Rests.authorizeInner (h : store.Rests verify) (token : String) (model : Option String)
    (now : ℕ) :
    (store.authorizeInner verify token model now).2.snapshot = store.snapshot ∧
      (store.authorizeInner verify token model now).2.Rests verify := by
  rw [KeyStore.authorizeInner]
  cases warmPath store.snapshot store.verified token model now with
  | some answer => exact ⟨rfl, h⟩
  | none =>
    refine ⟨rfl, fun token' e he => ?_⟩
    rcases hcold : coldPath verify store.snapshot token model now with ⟨answer, _ | entry⟩
    · simp only [hcold, remember] at he
      exact h token' e he
    · simp only [hcold, remember] at he
      rw [HashMap.lookup_insert_eq] at he
      split at he
      · rename_i htok
        cases he
        obtain ⟨hgen, hhash, hver⟩ := coldPath_entry hcold
        exact ⟨hgen.le, hhash, htok ▸ hver⟩
      · exact h token' e he

theorem Rests.installVerdicts (h : store.Rests verify) (overlay : HashMap KeyId Verdict) :
    (store.installVerdicts overlay).Rests verify := by
  intro token e he
  obtain ⟨hgen, hhash, hver⟩ := h token e he
  exact ⟨hgen, (KeyNode.verdictSnapshot_hash store.snapshot overlay e.id).trans hhash, hver⟩

end KeyStore

end Llmleaf
