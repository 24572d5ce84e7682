import Llmleaf.Keys.Credential
import Llmleaf.Keys.Pulls
import Llmleaf.Keys.Roster
import Llmleaf.Web.Attribution

/-!
# Issuing keys

The control plane issues a key: it hashes the password, stores the row and hands the operator the
token. The node pulls the roster and is to accept the token. The control plane refuses an empty id
only; the node splits tokens at the first colon, decodes them into a small buffer, and drops the
keys whose ids or names hold control bytes or whose display ids are taken.

- `createKey`, `createKeys`: one call, and a sequence of calls that are all accepted.
- `lookup_roster_iff`: the keys that the node installs.
- **Result** (`tokens_accepted_iff`): every token is accepted as its key exactly if the node keeps
  all the keys and can read all the tokens.
-/

namespace Llmleaf.Web

open Strings

/-- What the operator enters. -/
structure NewKey where
  id : String
  password : String
  name : Option String
  allowedModels : String

/-- What the operator is shown, once. -/
structure NewKeyResult where
  id : String
  bearerToken : String
  password : String
  deriving DecidableEq

/-- What a call draws from outside: a password, a salt and the time. -/
structure Draw where
  randomToken : String
  salt : String
  nowMs : UInt64

/-- The models of a text, between commas and blanks. -/
def splitModels (raw : String) : List String :=
  let pieces := raw.toList.splitOnP fun c => c = ',' ∨ c = ' ' ∨ c = '\n' ∨ c = '\t'
  (pieces.map fun piece => trim (String.ofList piece)).filter (· ≠ "")

namespace NewKey

def keyId (input : NewKey) : String := trim input.id

/-- The password that was supplied, else the one that was drawn. -/
def chosenPassword (input : NewKey) (draw : Draw) : String :=
  if trim input.password = "" then draw.randomToken else trim input.password

def keyName (input : NewKey) : Option String := (input.name.map trim).filter (· ≠ "")

/-- The id under which the node reports the key. -/
def displayId (input : NewKey) : KeyId := input.keyName.getD input.keyId

end NewKey

section

variable (hash : String → String → Except String String) (dbError : String)

/-- Create a key. The hash is made of a salt and the password. -/
def createKey (db : Db) (input : NewKey) (draw : Draw) : Except String (Db × NewKeyResult) :=
  let id := input.keyId
  if id = "" then .error "key id is required"
  else
    let password := input.chosenPassword draw
    match hash draw.salt password with
    | .error e => .error ("hashing failed: " ++ e)
    | .ok pwHash =>
      match db.create id pwHash input.keyName (splitModels input.allowedModels) draw.nowMs with
      | none => .error ("could not create key '" ++ id ++ "': " ++ dbError)
      | some db => .ok (db, ⟨id, bearer id password, password⟩)

/-- Create keys one after the other; the calls are all accepted. -/
def createKeys : Db → List (NewKey × Draw) → Except String (Db × List NewKeyResult)
  | db, [] => .ok (db, [])
  | db, (input, draw) :: calls =>
    match createKey hash dbError db input draw with
    | .error e => .error e
    | .ok (db, result) =>
      match createKeys db calls with
      | .error e => .error e
      | .ok (db, results) => .ok (db, result :: results)

end

namespace Issue

variable {verify : String → String → Bool} {hash : String → String → Except String String}
  {dbError : String}

/-! ## What has been created -/

/-- The row of a call. -/
structure RowOf (verify : String → String → Bool) (call : NewKey × Draw) (row : KeyRecord) :
    Prop where
  name : row.name = call.1.keyName
  verifies : verify (call.1.chosenPassword call.2) row.pwHash = true

/-- The token of a call. -/
def tokenOf (call : NewKey × Draw) : String :=
  bearer call.1.keyId (call.1.chosenPassword call.2)

/-- **One call**: a row is added under an id that was free. -/
theorem createKey_ok (hhash : ∀ salt p h, hash salt p = .ok h → verify p h = true) {db db' : Db}
    {call : NewKey × Draw} {result : NewKeyResult}
    (h : createKey hash dbError db call.1 call.2 = .ok (db', result)) :
    call.1.keyId ∉ db.keys ∧
      result = ⟨call.1.keyId, tokenOf call, call.1.chosenPassword call.2⟩ ∧
      ∃ row, RowOf verify call row ∧ db'.keys = db.keys.insert call.1.keyId row := by
  unfold createKey at h
  dsimp only at h
  split at h
  · cases h
  · split at h
    · cases h
    · rename_i pwHash hpw
      split at h
      · cases h
      · rename_i db₁ hcreate
        cases h
        unfold Db.create at hcreate
        split at hcreate
        · cases hcreate
        · rename_i hfree
          cases hcreate
          exact ⟨hfree, rfl, _, ⟨rfl, hhash _ _ _ hpw⟩, rfl⟩

/-- **A sequence of calls**: rows are added under ids that were free and are different, and all
others stay. -/
theorem createKeys_ok (hhash : ∀ salt p h, hash salt p = .ok h → verify p h = true)
    {calls : List (NewKey × Draw)} {db db' : Db} {results : List NewKeyResult}
    (h : createKeys hash dbError db calls = .ok (db', results)) :
    results = calls.map (fun c => ⟨c.1.keyId, tokenOf c, c.1.chosenPassword c.2⟩) ∧
      (calls.map fun c => c.1.keyId).Nodup ∧ (∀ c ∈ calls, c.1.keyId ∉ db.keys) ∧
      (∀ c ∈ calls, ∃ row, db'.keys.lookup c.1.keyId = some row ∧ RowOf verify c row) ∧
      ∀ id, id ∉ calls.map (fun c => c.1.keyId) → db'.keys.lookup id = db.keys.lookup id := by
  induction calls generalizing db results with
  | nil =>
    cases h
    refine ⟨rfl, .nil, ?_, ?_, fun _ _ => rfl⟩
    · intro c hc
      cases hc
    · intro c hc
      cases hc
  | cons call calls ih =>
    rw [createKeys] at h
    split at h
    · cases h
    · rename_i db₁ result hcreate
      split at h
      · cases h
      · rename_i db₂ rest hrest
        cases h
        obtain ⟨hfree, rfl, row, hrow, hkeys⟩ := createKey_ok hhash hcreate
        obtain ⟨rfl, hnodup, hfresh, hrows, hother⟩ := ih hrest
        have hnew : call.1.keyId ∉ calls.map fun c => c.1.keyId := by
          intro hmem
          obtain ⟨c, hc, heq⟩ := List.mem_map.mp hmem
          refine hfresh c hc ?_
          rw [hkeys, heq, AList.mem_insert]
          exact .inl rfl
        refine ⟨rfl, List.nodup_cons.mpr ⟨hnew, hnodup⟩, ?_, ?_, ?_⟩
        · intro c hc
          obtain rfl | hc := List.mem_cons.mp hc
          · exact hfree
          · intro hmem
            refine hfresh c hc ?_
            rw [hkeys, AList.mem_insert]
            exact .inr hmem
        · intro c hc
          obtain rfl | hc := List.mem_cons.mp hc
          · refine ⟨row, ?_, hrow⟩
            rw [hother _ hnew, hkeys, AList.lookup_insert]
          · exact hrows c hc
        · intro id hid
          have hne : id ≠ call.1.keyId := List.ne_of_not_mem_cons hid
          have hid : id ∉ calls.map fun c => c.1.keyId := List.not_mem_of_not_mem_cons hid
          rw [hother id hid, hkeys, AList.lookup_insert_ne hne]

/-- The database holds the rows of the calls and no others. -/
structure Created (verify : String → String → Bool) (calls : List (NewKey × Draw)) (db : Db) :
    Prop where
  distinct : (calls.map fun c => c.1.keyId).Nodup
  row : ∀ c ∈ calls, ∃ row, db.keys.lookup c.1.keyId = some row ∧ RowOf verify c row
  only : ∀ id row, db.keys.lookup id = some row → ∃ c ∈ calls, c.1.keyId = id

theorem created (hhash : ∀ salt p h, hash salt p = .ok h → verify p h = true)
    {calls : List (NewKey × Draw)} {events : List EventRow} {db : Db} {results : List NewKeyResult}
    (h : createKeys hash dbError ⟨∅, events⟩ calls = .ok (db, results)) :
    Created verify calls db := by
  obtain ⟨-, hnodup, -, hrows, hother⟩ := createKeys_ok hhash h
  refine ⟨hnodup, hrows, fun id row hrow => ?_⟩
  by_contra hno
  rw [hother id fun hmem => hno (List.mem_map.mp hmem)] at hrow
  cases hrow

/-! ## What the node installs -/

/-- The roster that the node pulls. -/
def pulled (db : Db) : List IdentityInput := db.roster.map KeyDto.installed

/-- An entry of the roster is a row. -/
theorem mem_pulled {db : Db} {k : IdentityInput} (hk : k ∈ pulled db) :
    ∃ row, db.keys.lookup k.id = some row ∧ k.name = row.name ∧ k.pwHash = row.pwHash := by
  obtain ⟨dto, hdto, rfl⟩ := List.mem_map.mp hk
  obtain ⟨⟨id, row⟩, he, rfl⟩ := List.mem_map.mp hdto
  exact ⟨row, HashMap.mem_pairs.mp (HashMap.mem_ascending.mp he), rfl, rfl⟩

theorem pulled_ids (db : Db) : ((pulled db).map IdentityInput.id).Nodup := by
  have hids : (pulled db).map IdentityInput.id = db.keys.ascending.map Prod.fst := by
    rw [pulled, Db.roster, List.map_map, List.map_map]
    rfl
  rw [hids]
  exact db.keys.nodup_ascending_keys

/-- Every row is in the roster. -/
theorem pulled_of_row {db : Db} {id : String} {row : KeyRecord}
    (h : db.keys.lookup id = some row) : (row.toDto id).installed ∈ pulled db :=
  List.mem_map_of_mem (List.mem_map.mpr
    ⟨(id, row), HashMap.mem_ascending.mpr (HashMap.mem_pairs.mpr h), rfl⟩)

/-- **The keys that are installed** from a roster with different ids: its kept entries. -/
theorem lookup_roster_iff (store : KeyStore) {roster : List IdentityInput}
    (hids : (roster.map IdentityInput.id).Nodup) {id : KeyId} {state : KeyState} :
    (store.installIdentities roster).snapshot.keys.lookup id = some state ↔
      ∃ k ∈ openings roster, k.id = id ∧ k.state store.snapshot.keys = state := by
  rw [KeyStore.lookup_installed]
  constructor
  · intro h
    obtain ⟨k, hk, heq⟩ := List.mem_map.mp (HashMap.lookup_collect_mem h)
    rw [Prod.mk.injEq] at heq
    exact ⟨k, hk, heq⟩
  · rintro ⟨k, hk, rfl, rfl⟩
    have hsome : k.id ∈ ((openings roster).map fun k =>
        (k.id, k.state store.snapshot.keys)).map Prod.fst := by
      rw [List.map_map]
      exact List.mem_map_of_mem (f := IdentityInput.id) hk
    obtain ⟨state, hstate⟩ := Option.isSome_iff_exists.mp (HashMap.lookup_collect_isSome.mpr hsome)
    obtain ⟨k', hk', heq⟩ := List.mem_map.mp (HashMap.lookup_collect_mem hstate)
    rw [Prod.mk.injEq] at heq
    have hsame : k' = k := List.inj_on_of_nodup_map hids
      (List.mem_of_mem_filter (List.mem_of_mem_firsts hk'))
      (List.mem_of_mem_filter (List.mem_of_mem_firsts hk)) heq.1
    rw [hstate, ← heq.2, hsame]

/-! ## Tokens that are accepted -/

/-- The token of a call is accepted as the key it was issued for: the key is installed, and the
answer is its display id, which no other key has. -/
def Accepted (verify : String → String → Bool) (store : KeyStore) (now : ℕ)
    (call : NewKey × Draw) : Prop :=
  ∃ state, store.snapshot.keys.lookup call.1.keyId = some state ∧
    (store.authorizeIdentity verify (tokenOf call) now).1 = .ok (state.displayId call.1.keyId)

/-- **Issued tokens authenticate**, and the node tells their keys apart. -/
structure Authenticate (verify : String → String → Bool) (store : KeyStore) (now : ℕ)
    (calls : List (NewKey × Draw)) : Prop where
  accepted : ∀ c ∈ calls, Accepted verify store now c
  told_apart : ∀ c ∈ calls, ∀ c' ∈ calls, c.1.keyId ≠ c'.1.keyId →
    (store.authorizeIdentity verify (tokenOf c) now).1 ≠
      (store.authorizeIdentity verify (tokenOf c') now).1

/-- The node keeps all the keys and can read all the tokens. -/
structure Readable (calls : List (NewKey × Draw)) : Prop where
  noColon : ∀ c ∈ calls, ':' ∉ c.1.keyId.toList
  fits : ∀ c ∈ calls, FitsToken c.1.keyId (c.1.chosenPassword c.2)
  clean : ∀ c ∈ calls, hasControlBytes c.1.keyId = false ∧ c.1.keyName.any hasControlBytes = false
  displayIds : (calls.map fun c => c.1.displayId).Nodup

/-- **What acceptance takes.** -/
theorem accepted_only {db : Db} {store : KeyStore} {c : NewKey × Draw} {now : ℕ} {state : KeyState}
    (hstate : (store.installIdentities (pulled db)).snapshot.keys.lookup c.1.keyId = some state)
    (hanswer : (KeyStore.coldPath verify (store.installIdentities (pulled db)).snapshot (tokenOf c)
      none now).1 = .ok (state.displayId c.1.keyId)) :
    ':' ∉ c.1.keyId.toList ∧ FitsToken c.1.keyId (c.1.chosenPassword c.2) := by
  have hknown : (KeyStore.coldPath verify (store.installIdentities (pulled db)).snapshot (tokenOf c)
      none now).1 ≠ .error .unknown := by
    rw [hanswer]
    intro heq
    cases heq
  obtain ⟨id, password, state', hdecode, hstate', -, heq⟩ := coldPath_known hknown
  have hwho := enforce_ok_who (heq.symm.trans hanswer)
  have hid : c.1.keyId = id :=
    (rosterSnapshot_wellNamed store.snapshot (pulled db)).unique hstate hstate' hwho
  have hcolon : ':' ∉ c.1.keyId.toList := fun hmem =>
    decodeToken_bearer_colon hmem _ hdecode hid.symm
  refine ⟨hcolon, ?_⟩
  rw [tokenOf, decodeToken_bearer hcolon] at hdecode
  split at hdecode
  · assumption
  · cases hdecode

section

variable {calls : List (NewKey × Draw)} {db : Db} (h : Created verify calls db)

include h

/-- An entry of the roster is the key of a call. -/
theorem Created.entry {k : IdentityInput} (hk : k ∈ pulled db) :
    ∃ c ∈ calls, c.1.keyId = k.id ∧ c.1.keyName = k.name := by
  obtain ⟨row, hrow, hname, -⟩ := mem_pulled hk
  obtain ⟨c, hc, hid⟩ := h.only _ _ hrow
  obtain ⟨row', hrow', hof⟩ := h.row c hc
  rw [hid, hrow] at hrow'
  cases hrow'
  exact ⟨c, hc, hid, by rw [hname, hof.name]⟩

/-- A key that is installed is that of a call; its hash verifies the password. -/
theorem Created.installed {store : KeyStore} {c : NewKey × Draw} (hc : c ∈ calls)
    {state : KeyState}
    (hstate : (store.installIdentities (pulled db)).snapshot.keys.lookup c.1.keyId = some state) :
    ∃ k ∈ openings (pulled db), k.id = c.1.keyId ∧ k.name = c.1.keyName ∧
      state = k.state store.snapshot.keys ∧
      verify (c.1.chosenPassword c.2) state.pwHash = true := by
  obtain ⟨k, hk, hid, rfl⟩ := (lookup_roster_iff store (pulled_ids db)).mp hstate
  obtain ⟨row, hrow, hname, hhash⟩ :=
    mem_pulled (List.mem_of_mem_filter (List.mem_of_mem_firsts hk))
  obtain ⟨row', hrow', hof⟩ := h.row c hc
  rw [hid, hrow'] at hrow
  cases hrow
  refine ⟨k, hk, hid, hname.trans hof.name, rfl, ?_⟩
  show verify _ k.pwHash = true
  rw [hhash]
  exact hof.verifies

/-- Where ids and names are clean and display ids differ, every key is installed. -/
theorem Created.keeps (hclean : ∀ c ∈ calls, hasControlBytes c.1.keyId = false ∧
      c.1.keyName.any hasControlBytes = false)
    (hdisplay : (calls.map fun c => c.1.displayId).Nodup) (store : KeyStore)
    {c : NewKey × Draw} (hc : c ∈ calls) :
    ∃ state, (store.installIdentities (pulled db)).snapshot.keys.lookup c.1.keyId = some state := by
  obtain ⟨row, hrow, hof⟩ := h.row c hc
  have hmem := pulled_of_row hrow
  obtain ⟨before, after, hsplit⟩ := List.append_of_mem hmem
  have hopen : (row.toDto c.1.keyId).installed ∈ openings (pulled db) := by
    refine mem_openings.mpr ⟨before, after, hsplit, ?_, fun k hk _ heq => ?_⟩
    · obtain ⟨hid, hname⟩ := hclean c hc
      show (!(hasControlBytes c.1.keyId || row.name.any hasControlBytes)) = true
      rw [hof.name, hid, hname]
      rfl
    · -- an earlier entry with the display id would be the key of the same call
      have hk' : k ∈ pulled db := by
        rw [hsplit]
        exact List.mem_append_left _ hk
      obtain ⟨c', hc', hid', hname'⟩ := h.entry hk'
      have hdisplay' : c'.1.displayId = c.1.displayId := by
        rw [NewKey.displayId, NewKey.displayId, hid', hname', ← hof.name]
        exact heq
      have hcc := List.inj_on_of_nodup_map hdisplay hc' hc hdisplay'
      have hids := pulled_ids db
      rw [hsplit, List.map_append, List.map_cons] at hids
      refine (List.disjoint_of_nodup_append hids) (List.mem_map_of_mem hk) ?_
      rw [← hid', hcc]
      exact List.mem_cons_self
  exact ⟨_, (lookup_roster_iff store (pulled_ids db)).mpr ⟨_, hopen, rfl, rfl⟩⟩

/-- A token that can be read opens its key. -/
theorem Created.opens {store : KeyStore} {c : NewKey × Draw} (hc : c ∈ calls)
    (hcolon : ':' ∉ c.1.keyId.toList) (hfits : FitsToken c.1.keyId (c.1.chosenPassword c.2))
    (hverdict : store.verdictOf c.1.keyId = Llmleaf.Verdict.default) {state : KeyState}
    (hstate : (store.installIdentities (pulled db)).snapshot.keys.lookup c.1.keyId = some state)
    (now : ℕ) :
    (KeyStore.coldPath verify (store.installIdentities (pulled db)).snapshot (tokenOf c) none
      now).1 = .ok (state.displayId c.1.keyId) := by
  obtain ⟨k, -, hid, -, rfl, hverifies⟩ := h.installed hc hstate
  have hdecode : decodeToken (tokenOf c) = some (c.1.keyId, c.1.chosenPassword c.2) := by
    rw [tokenOf, decodeToken_bearer hcolon, if_pos hfits]
  have hfree : (k.state store.snapshot.keys).verdict = .default := by
    rw [← hverdict, ← hid]
    rfl
  rw [coldPath_verified hdecode hstate hverifies]
  show enforce _ _ none now = _
  rw [enforce, hfree]
  rfl

/-- Installed keys have clean ids and names, and different display ids. -/
theorem Created.kept_only {store : KeyStore}
    (hall : ∀ c ∈ calls, ∃ state,
      (store.installIdentities (pulled db)).snapshot.keys.lookup c.1.keyId = some state) :
    (∀ c ∈ calls, hasControlBytes c.1.keyId = false ∧
      c.1.keyName.any hasControlBytes = false) ∧
      (calls.map fun c => c.1.displayId).Nodup := by
  constructor
  · intro c hc
    obtain ⟨state, hstate⟩ := hall c hc
    obtain ⟨k, hk, hid, hname, -, -⟩ := h.installed hc hstate
    obtain ⟨_, _, -, hopens, -⟩ := mem_openings.mp hk
    rw [← hid, ← hname]
    simpa [IdentityInput.clean] using hopens
  · refine List.Nodup.map_on (fun c hc c' hc' heq => ?_) h.distinct.of_map
    obtain ⟨state, hstate⟩ := hall c hc
    obtain ⟨state', hstate'⟩ := hall c' hc'
    obtain ⟨k, -, hid, hname, rfl, -⟩ := h.installed hc hstate
    obtain ⟨k', -, hid', hname', rfl, -⟩ := h.installed hc' hstate'
    have hsame := (rosterSnapshot_wellNamed store.snapshot (pulled db)).unique hstate hstate' (by
      show k.name.getD _ = k'.name.getD _
      rw [hname, hname']
      exact heq)
    exact List.inj_on_of_nodup_map h.distinct hc hc' hsame

end

/-- **After the roster has been installed**, the cold path decides. -/
theorem accepted_iff_readable {calls : List (NewKey × Draw)} {db : Db}
    (h : Created verify calls db) {store : KeyStore} {now : ℕ}
    (hverdicts : ∀ c ∈ calls, store.verdictOf c.1.keyId = Llmleaf.Verdict.default)
    (hcold : ∀ token, ((store.installIdentities (pulled db)).authorizeIdentity verify token now).1 =
      (KeyStore.coldPath verify (store.installIdentities (pulled db)).snapshot token none now).1) :
    Authenticate verify (store.installIdentities (pulled db)) now calls ↔ Readable calls := by
  constructor
  · intro hall
    have hinstalled : ∀ c ∈ calls, ∃ state,
        (store.installIdentities (pulled db)).snapshot.keys.lookup c.1.keyId = some state :=
      fun c hc => (hall.accepted c hc).imp fun _ hstate => hstate.1
    have hread : ∀ c ∈ calls,
        ':' ∉ c.1.keyId.toList ∧ FitsToken c.1.keyId (c.1.chosenPassword c.2) := by
      intro c hc
      obtain ⟨state, hstate, hanswer⟩ := hall.accepted c hc
      exact accepted_only hstate ((hcold _).symm.trans hanswer)
    obtain ⟨hclean, hdisplay⟩ := h.kept_only hinstalled
    exact ⟨fun c hc => (hread c hc).1, fun c hc => (hread c hc).2, hclean, hdisplay⟩
  · intro hread
    have haccepted : ∀ c ∈ calls, Accepted verify (store.installIdentities (pulled db)) now c := by
      intro c hc
      obtain ⟨state, hstate⟩ := h.keeps hread.clean hread.displayIds store hc
      refine ⟨state, hstate, (hcold _).trans ?_⟩
      exact h.opens hc (hread.noColon c hc) (hread.fits c hc) (hverdicts c hc) hstate now
    refine ⟨haccepted, fun c hc c' hc' hne heq => ?_⟩
    obtain ⟨state, hstate, hanswer⟩ := haccepted c hc
    obtain ⟨state', hstate', hanswer'⟩ := haccepted c' hc'
    rw [hanswer, hanswer', Except.ok.injEq] at heq
    exact hne ((rosterSnapshot_wellNamed store.snapshot (pulled db)).unique hstate hstate' heq)

/-- **Issued tokens.** After a sequence of accepted calls, each of which hands out the token of its
key, a node in any state that installs the roster accepts every token as its key, and tells the keys
apart, exactly if it keeps all the keys and can read all the tokens. -/
theorem tokens_accepted_iff (hhash : ∀ salt p h, hash salt p = .ok h → verify p h = true)
    {calls : List (NewKey × Draw)} {events : List EventRow} {db : Db} {results : List NewKeyResult}
    (hcalls : createKeys hash dbError ⟨∅, events⟩ calls = .ok (db, results))
    {s node : KeyNode} {tr : List (Runs.Step KeyNode KeyNode.Event)}
    (hs : (KeyNode.system verify).init s) (hr : Runs.Run (KeyNode.system verify) s tr node)
    (hfew : KeyNode.installs (Runs.events tr) + 1 < 2 ^ 64) (hidle : node.pending = none)
    (hverdicts : ∀ c ∈ calls, node.store.verdictOf c.1.keyId = Llmleaf.Verdict.default)
    (now : ℕ) :
    results.map NewKeyResult.bearerToken = calls.map tokenOf ∧
      (Authenticate verify (node.store.installIdentities (pulled db)) now calls ↔
        Readable calls) := by
  constructor
  · rw [(createKeys_ok hhash hcalls).1, List.map_map]
    rfl
  · obtain ⟨store, pending, auths⟩ := node
    cases hidle
    -- the install is two more steps of the run
    have hprune : (KeyNode.system verify).step ⟨store, none, auths⟩ (.pruneFor (pulled db))
        ((KeyNode.mk store none auths).step verify (.pruneFor (pulled db))) := rfl
    have hswap : (KeyNode.system verify).step
        ((KeyNode.mk store none auths).step verify (.pruneFor (pulled db))) .swap
        ⟨store.installIdentities (pulled db), none, auths⟩ := rfl
    have hcount : ∀ x y : Runs.Step KeyNode KeyNode.Event,
        x.event = .pruneFor (pulled db) → y.event = .swap →
        KeyNode.installs (Runs.events (tr ++ [x] ++ [y])) =
          KeyNode.installs (Runs.events tr) + 1 := by
      intro x y hx hy
      rw [Runs.events_append, Runs.events_append, Runs.events_singleton, Runs.events_singleton, hx,
        hy, KeyNode.installs, KeyNode.installs, List.countP_append, List.countP_append]
      rfl
    obtain ⟨record, top, hsound⟩ := KeyNode.run_sound hs ((hr.snoc hprune).snoc hswap)
      (by rwa [hcount _ _ rfl rfl])
    exact accepted_iff_readable (created hhash hcalls) hverdicts
      fun token => hsound.authorizeInner_eq token none now

/-! ## An id with a colon -/

/-- A salted hash of one password; any other one is refused. -/
def hashStored (_salt password : String) : Except String String :=
  if password = "s3cret" then .ok KeyNode.storedHash else .error "no such hash"

theorem verify_hashStored : ∀ salt p h, hashStored salt p = .ok h →
    KeyNode.verifyStored p h = true := by
  intro salt p h hok
  unfold hashStored at hok
  split at hok
  · rename_i hp
    cases hok
    rw [hp]
    decide
  · cases hok

/-- One call, for an id. -/
def callFor (id : String) : NewKey × Draw := (⟨id, "s3cret", none, ""⟩, ⟨"drawn", "salt", 0⟩)

/-- A node that has installed the keys of calls, and what it answers to their tokens. -/
def answersAfter (calls : List (NewKey × Draw)) : Option (List (Option KeyId)) :=
  (createKeys hashStored "taken" ⟨∅, []⟩ calls).toOption.map fun p =>
    calls.map fun c => (((KeyStore.fromConfig (fun _ => none) []).installIdentities
      (pulled p.1)).authorizeIdentity KeyNode.verifyStored (tokenOf c) 0).1.toOption

theorem exists_answered {calls : List (NewKey × Draw)} {answers : List (Option KeyId)}
    (h : answersAfter calls = some answers) : ∃ db results,
      createKeys hashStored "taken" ⟨∅, []⟩ calls = .ok (db, results) ∧
        (calls.map fun c => (((KeyStore.fromConfig (fun _ => none) []).installIdentities
          (pulled db)).authorizeIdentity KeyNode.verifyStored (tokenOf c) 0).1.toOption) =
            answers := by
  rw [answersAfter] at h
  cases hcalls : createKeys hashStored "taken" ⟨∅, []⟩ calls with
  | error e =>
    rw [hcalls] at h
    cases h
  | ok p =>
    rw [hcalls] at h
    exact ⟨p.1, p.2, rfl, Option.some.inj h⟩

theorem tokens_accepted_iff_narrow : ∃ db results,
    createKeys hashStored "taken" ⟨∅, []⟩ [callFor " narrow "] = .ok (db, results) ∧
      results.map NewKeyResult.bearerToken = [callFor " narrow "].map tokenOf ∧
      (Authenticate KeyNode.verifyStored
          ((KeyStore.fromConfig (fun _ => none) []).installIdentities (pulled db)) 0
          [callFor " narrow "] ↔
        Readable [callFor " narrow "]) := by
  have hanswers : answersAfter [callFor " narrow "] = some [some "narrow"] := by decide +kernel
  obtain ⟨db, results, hcalls, -⟩ := exists_answered hanswers
  exact ⟨db, results, hcalls, tokens_accepted_iff verify_hashStored hcalls
    ⟨fun _ => none, [], rfl⟩ .nil (by decide) rfl (fun _ _ => rfl) 0⟩

/-- The node reads the part before the colon as the id. -/
theorem token_with_colon_refused : ∃ db results,
    createKeys hashStored "taken" ⟨∅, []⟩ [callFor "team:a"] = .ok (db, results) ∧
      ¬ Authenticate KeyNode.verifyStored
        ((KeyStore.fromConfig (fun _ => none) []).installIdentities (pulled db)) 0
        [callFor "team:a"] := by
  have hanswers : answersAfter [callFor "team:a"] = some [none] := by decide +kernel
  obtain ⟨db, results, hcalls, hrefused⟩ := exists_answered hanswers
  refine ⟨db, results, hcalls, fun hall => ?_⟩
  obtain ⟨state, -, hanswer⟩ := hall.accepted _ List.mem_cons_self
  rw [List.map_singleton, hanswer] at hrefused
  cases hrefused

end Issue

end Llmleaf.Web
