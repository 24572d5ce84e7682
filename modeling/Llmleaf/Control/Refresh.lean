import Llmleaf.Keys.Pulls
import Llmleaf.Web.Issue
import Llmleaf.Web.Wire

/-!
# The pulls of keys and verdicts

Two loops of the node poll the control plane: one pulls the roster of keys, the other the verdicts.
A pull is a document on its way; the control plane may change its mind while it is, requests are
authorized all the time, and a pull that fails leaves what the last one installed.

- `Plane.step`: the database of the control plane, the two pulls and the node's key state.
- `Stage`: how far the node has caught up with the last change of the database; a full cycle is a
  roster served, read and installed, and then verdicts served and installed.
- **Invariant** (`Plane.Meaning`): what each stage says about the node and the pulls on their way.
- **Results** (`answered_as_fresh`, `admitted_backed`): after a cycle every request is answered as
  by a node that knows nothing but the database, whatever the node held before; and at all times
  what is admitted rests on a key of the configuration or on a row that the database has held.
-/

namespace Llmleaf

/-! ## What a database stands for -/

/-- The answer of the cold path depends on the keys alone. -/
theorem KeyStore.coldPath_congr {snap snap' : KeySnapshot}
    (h : ∀ id, snap.keys.lookup id = snap'.keys.lookup id) (verify : String → String → Bool)
    (token : String) (model : Option String) (now : ℕ) :
    (coldPath verify snap token model now).1 = (coldPath verify snap' token model now).1 := by
  simp only [coldPath_eq, coldKey, h]

namespace Web.Db

open Issue (pulled)

/-- The verdict of an id. -/
def verdictOf (db : Db) (id : KeyId) : Llmleaf.Verdict :=
  ((db.verdicts.lookup id).map Verdict.installed).getD .default

/-- A new node that has pulled the roster and the verdicts. -/
def fresh (db : Db) : KeyStore :=
  ((KeyStore.mk ⟨∅, 0⟩ ∅).installIdentities (pulled db)).installVerdicts
    (db.verdicts.map fun _ v => v.installed)

/-- What such a node answers. -/
def answer (verify : String → String → Bool) (db : Db) (token : String) (model : Option String)
    (now : ℕ) : Except AuthError KeyId :=
  (KeyStore.coldPath verify db.fresh.snapshot token model now).1

/-- **What a pulled roster installs**: the keys of a new node, with the verdicts they had. -/
theorem lookup_pulled (db : Db) (store : KeyStore) (id : KeyId) :
    (KeyStore.rosterSnapshot store.snapshot (pulled db)).keys.lookup id =
      (db.fresh.snapshot.keys.lookup id).map fun k => k.withVerdict (store.verdictOf id) := by
  rw [fresh, KeyStore.lookup_installVerdicts, Option.map_map]
  exact KeyStore.lookup_rosterSnapshot (.mk ⟨∅, 0⟩ ∅) store (pulled db) id

/-- The verdicts of a new node are those of the database. -/
theorem verdict_fresh {db : Db} {id : KeyId} {state : KeyState}
    (h : db.fresh.snapshot.keys.lookup id = some state) : state.verdict = db.verdictOf id := by
  rw [fresh, KeyStore.lookup_installVerdicts, Option.map_eq_some_iff] at h
  obtain ⟨state', -, rfl⟩ := h
  show KeyStore.entryOf _ id = _
  rw [KeyStore.entryOf, HashMap.lookup_map]
  rfl

end Web.Db

namespace Control

open Runs Web

/-! ## The system -/

/-- The database of the control plane, a node's key state, and the answers to its two pulls that are
on their way. -/
structure Plane where
  db : Db
  node : KeyNode
  identity : Option Value
  limits : Option Value

/-- The control plane changes its database; it answers a pull; the answer arrives, or the pull
fails; the install swaps the snapshot; or a request is authorized. -/
inductive PlaneEvent where
  | edit (db : Db)
  | serveIdentity
  | identityFailed
  | identityArrived
  | swap
  | serveLimits
  | limitsFailed
  | limitsArrived
  | authorize (token : String) (model : Option String) (now : ℕ)
  | advance (call : ℕ)

namespace Plane

/-- What an identity pull makes of an answer: one that cannot be read installs nothing. -/
def installRoster (verify : String → String → Bool) (node : KeyNode) (body : Value) : KeyNode :=
  match readRoster body with
  | some roster => node.step verify (.pruneFor roster)
  | none => node

/-- What a verdict pull makes of an answer. -/
def installOverlay (verify : String → String → Bool) (node : KeyNode) (body : Value) : KeyNode :=
  match readVerdicts body with
  | some overlay => node.step verify (.verdicts overlay)
  | none => node

/-- The state after an event, if it can happen: a loop pulls again when it is done with the last
pull, and an install waits for the write lock. -/
def step (verify : String → String → Bool) (s : Plane) : PlaneEvent → Option Plane
  | .edit db => some { s with db := db }
  | .serveIdentity =>
    if s.identity.isNone && s.node.pending.isNone then
      some { s with identity := some (rosterBody s.db) }
    else none
  | .identityFailed => s.identity.map fun _ => { s with identity := none }
  | .identityArrived =>
    if s.node.pending.isNone then
      s.identity.map fun body =>
        { s with identity := none, node := installRoster verify s.node body }
    else none
  | .swap => s.node.pending.map fun _ => { s with node := s.node.step verify .swap }
  | .serveLimits =>
    if s.limits.isNone then some { s with limits := some (verdictsBody s.db) } else none
  | .limitsFailed => s.limits.map fun _ => { s with limits := none }
  | .limitsArrived =>
    if s.node.pending.isNone then
      s.limits.map fun body =>
        { s with limits := none, node := installOverlay verify s.node body }
    else none
  | .authorize token model now =>
    if s.node.pending.isNone then
      some { s with node := s.node.step verify (.clone token model now) }
    else none
  | .advance i => some { s with node := s.node.step verify (.advance i) }

/-- All that an event can do. -/
inductive Move (verify : String → String → Bool) (s : Plane) : PlaneEvent → Plane → Prop
  | edit (db : Db) : Move verify s (.edit db) { s with db := db }
  | serveIdentity (hidle : s.node.pending = none) :
    Move verify s .serveIdentity { s with identity := some (rosterBody s.db) }
  | identityFailed : Move verify s .identityFailed { s with identity := none }
  | identityArrived (body : Value) (hbody : s.identity = some body)
      (hidle : s.node.pending = none) :
    Move verify s .identityArrived
      { s with identity := none, node := installRoster verify s.node body }
  | swap (snap : KeySnapshot) (hsnap : s.node.pending = some snap) :
    Move verify s .swap { s with node := s.node.step verify .swap }
  | serveLimits (hidle : s.limits = none) :
    Move verify s .serveLimits { s with limits := some (verdictsBody s.db) }
  | limitsFailed : Move verify s .limitsFailed { s with limits := none }
  | limitsArrived (body : Value) (hbody : s.limits = some body) (hidle : s.node.pending = none) :
    Move verify s .limitsArrived
      { s with limits := none, node := installOverlay verify s.node body }
  | authorize (token : String) (model : Option String) (now : ℕ)
      (hidle : s.node.pending = none) :
    Move verify s (.authorize token model now)
      { s with node := s.node.step verify (.clone token model now) }
  | advance (i : ℕ) : Move verify s (.advance i) { s with node := s.node.step verify (.advance i) }

theorem move {verify : String → String → Bool} {s s' : Plane} {e : PlaneEvent}
    (h : s.step verify e = some s') : Move verify s e s' := by
  cases e with
  | edit db =>
    cases h
    exact .edit db
  | advance i =>
    cases h
    exact .advance i
  | serveIdentity =>
    simp only [step, Option.ite_none_right_eq_some, Bool.and_eq_true,
      Option.isNone_iff_eq_none] at h
    obtain ⟨⟨-, hidle⟩, h⟩ := h
    cases h
    exact .serveIdentity hidle
  | serveLimits =>
    simp only [step, Option.ite_none_right_eq_some, Option.isNone_iff_eq_none] at h
    obtain ⟨hidle, h⟩ := h
    cases h
    exact .serveLimits hidle
  | authorize token model now =>
    simp only [step, Option.ite_none_right_eq_some, Option.isNone_iff_eq_none] at h
    obtain ⟨hidle, h⟩ := h
    cases h
    exact .authorize token model now hidle
  | identityFailed =>
    obtain ⟨-, -, rfl⟩ := Option.map_eq_some_iff.mp h
    exact .identityFailed
  | limitsFailed =>
    obtain ⟨-, -, rfl⟩ := Option.map_eq_some_iff.mp h
    exact .limitsFailed
  | swap =>
    obtain ⟨snap, hsnap, rfl⟩ := Option.map_eq_some_iff.mp h
    exact .swap snap hsnap
  | identityArrived =>
    simp only [step, Option.ite_none_right_eq_some, Option.isNone_iff_eq_none] at h
    obtain ⟨hidle, h⟩ := h
    obtain ⟨body, hbody, rfl⟩ := Option.map_eq_some_iff.mp h
    exact .identityArrived body hbody hidle
  | limitsArrived =>
    simp only [step, Option.ite_none_right_eq_some, Option.isNone_iff_eq_none] at h
    obtain ⟨hidle, h⟩ := h
    obtain ⟨body, hbody, rfl⟩ := Option.map_eq_some_iff.mp h
    exact .limitsArrived body hbody hidle

/-- A node that starts from its configuration. -/
def start (db : Db) (store : KeyStore) : Plane := ⟨db, .start store, none, none⟩

/-- The runs of a node and its control plane. -/
def system (verify : String → String → Bool) (resolve : Secret → Option String)
    (keys : List KeyConfig) : Sys Plane PlaneEvent :=
  .ofOption (fun s => ∃ db, s = start db (.fromConfig resolve keys)) (step verify)

/-- What a step of the system is to the node's keys. -/
def keyEvent (x : Runs.Step Plane PlaneEvent) : Option KeyNode.Event :=
  match x.event with
  | .identityArrived => (x.pre.identity.bind readRoster).map .pruneFor
  | .swap => some .swap
  | .limitsArrived => (x.pre.limits.bind readVerdicts).map .verdicts
  | .authorize token model now => some (.clone token model now)
  | .advance i => some (.advance i)
  | _ => none

/-- The number of rosters installed in a run. -/
def installs (tr : List (Runs.Step Plane PlaneEvent)) : ℕ :=
  KeyNode.installs (events (project Plane.node keyEvent tr))

section

variable {verify : String → String → Bool} {resolve : Secret → Option String}
  {keys : List KeyConfig} {s s' t : Plane} {tr : List (Runs.Step Plane PlaneEvent)}

/-- A run of the system is a run of the node's keys. -/
theorem run_node (hs : (system verify resolve keys).init s)
    (hr : Run (system verify resolve keys) s tr t) :
    (KeyNode.system verify).init s.node ∧
      Run (KeyNode.system verify) s.node (project Plane.node keyEvent tr) t.node := by
  obtain ⟨db, rfl⟩ := hs
  refine ⟨⟨resolve, keys, rfl⟩, hr.project fun s e s' hstep => ?_⟩
  cases move hstep with
  | edit | serveIdentity | serveLimits | identityFailed | limitsFailed => exact .inr ⟨rfl, rfl⟩
  | swap | advance | authorize => exact .inl ⟨_, rfl, rfl⟩
  | identityArrived body hbody =>
    simp only [keyEvent, hbody, Option.bind_some, installRoster]
    cases readRoster body with
    | none => exact .inr ⟨rfl, rfl⟩
    | some roster => exact .inl ⟨_, rfl, rfl⟩
  | limitsArrived body hbody =>
    simp only [keyEvent, hbody, Option.bind_some, installOverlay]
    cases readVerdicts body with
    | none => exact .inr ⟨rfl, rfl⟩
    | some overlay => exact .inl ⟨_, rfl, rfl⟩

end

/-! ## How far the node has caught up -/

/-- The stages of a cycle of pulls since the database has changed. -/
inductive Stage where
  | stale
  | rosterServed
  | rosterRead
  | rosterIn
  | overlayServed
  | settled
  deriving DecidableEq

/-- The stage after an event. -/
def Stage.next : Stage → PlaneEvent → Stage
  | _, .edit _ => .stale
  | .stale, .serveIdentity => .rosterServed
  | .rosterServed, .identityFailed => .stale
  | .rosterServed, .identityArrived => .rosterRead
  | .rosterRead, .swap => .rosterIn
  | .rosterIn, .serveLimits => .overlayServed
  | .overlayServed, .limitsFailed => .rosterIn
  | .overlayServed, .limitsArrived => .settled
  | stage, _ => stage

/-- The stage after some events. -/
def stage (es : List PlaneEvent) : Stage := es.foldl Stage.next .stale

/-- A snapshot holds the keys of a new node, with verdicts of its own. -/
def SameKeys (db : Db) (snap : KeySnapshot) : Prop :=
  ∀ id, (snap.keys.lookup id).map (·.withVerdict .default) =
    (db.fresh.snapshot.keys.lookup id).map (·.withVerdict .default)

/-- The keys of a snapshot have the verdicts of the database. -/
def SameVerdicts (db : Db) (snap : KeySnapshot) : Prop :=
  ∀ id state, snap.keys.lookup id = some state → state.verdict = db.verdictOf id

/-- The node holds the roster, and so does what is on its way to it. -/
structure HoldsRoster (s : Plane) : Prop where
  current : SameKeys s.db s.node.store.snapshot
  pending : ∀ snap, s.node.pending = some snap → SameKeys s.db snap
  identity : ∀ body, s.identity = some body → body = rosterBody s.db

/-- The node has the verdicts, and so does what is on its way to it. -/
structure HoldsVerdicts (s : Plane) : Prop where
  current : SameVerdicts s.db s.node.store.snapshot
  pending : ∀ snap, s.node.pending = some snap → SameVerdicts s.db snap
  limits : ∀ body, s.limits = some body → body = verdictsBody s.db

/-- What a stage says. -/
def Meaning (s : Plane) : Stage → Prop
  | .stale => True
  | .rosterServed => s.identity = some (rosterBody s.db) ∧ s.node.pending = none
  | .rosterRead => s.identity = none ∧ ∃ snap, s.node.pending = some snap ∧ SameKeys s.db snap
  | .rosterIn => s.HoldsRoster
  | .overlayServed => s.HoldsRoster ∧ s.limits = some (verdictsBody s.db)
  | .settled => s.HoldsRoster ∧ s.HoldsVerdicts

/-! ## What the installs do -/

section

open Issue (pulled)

variable {db : Db} {snap : KeySnapshot} {node : KeyNode}

theorem sameKeys_pulled (db : Db) (snap : KeySnapshot) :
    SameKeys db (KeyStore.rosterSnapshot snap (pulled db)) := by
  intro id
  rw [db.lookup_pulled ⟨snap, ∅⟩ id, Option.map_map]
  rfl

/-- A key of a node that holds the roster is one of a new node. -/
theorem SameKeys.held (h : SameKeys db snap) {id : KeyId} {key : KeyState}
    (hkey : db.fresh.snapshot.keys.lookup id = some key) :
    ∃ state, snap.keys.lookup id = some state ∧
      state.withVerdict .default = key.withVerdict .default := by
  have hid := h id
  rw [hkey, Option.map_some] at hid
  exact Option.map_eq_some_iff.mp hid

/-- A roster leaves the verdicts of a node that holds it already. -/
theorem SameVerdicts.pulled (h : SameVerdicts db snap) (hkeys : SameKeys db snap) :
    SameVerdicts db (KeyStore.rosterSnapshot snap (pulled db)) := by
  intro id state hstate
  rw [db.lookup_pulled ⟨snap, ∅⟩ id, Option.map_eq_some_iff] at hstate
  obtain ⟨key, hkey, rfl⟩ := hstate
  obtain ⟨old, hold, -⟩ := hkeys.held hkey
  have hverdict : (KeyStore.mk snap ∅).verdictOf id = old.verdict := by
    rw [KeyStore.verdictOf, hold]
    rfl
  exact hverdict.trans (h id old hold)

theorem SameKeys.overlay (h : SameKeys db snap) (overlay : HashMap KeyId Verdict) :
    SameKeys db (KeyStore.verdictSnapshot snap overlay) := by
  intro id
  rw [← h id, KeyStore.verdictSnapshot, HashMap.lookup_map, Option.map_map]
  rfl

theorem sameVerdicts_overlay {overlay : HashMap KeyId Verdict}
    (h : ∀ id, overlay.lookup id = (db.verdicts.lookup id).map Verdict.installed)
    (snap : KeySnapshot) : SameVerdicts db (KeyStore.verdictSnapshot snap overlay) := by
  intro id state hstate
  rw [KeyStore.verdictSnapshot, HashMap.lookup_map, Option.map_eq_some_iff] at hstate
  obtain ⟨old, -, rfl⟩ := hstate
  rw [h id]
  rfl

/-- The keys of a new node are all that a caught-up node has. -/
theorem lookup_eq_fresh (hkeys : SameKeys db snap) (hverdicts : SameVerdicts db snap) (id : KeyId) :
    snap.keys.lookup id = db.fresh.snapshot.keys.lookup id := by
  cases hkey : db.fresh.snapshot.keys.lookup id with
  | none =>
    have hid := hkeys id
    rw [hkey] at hid
    exact Option.map_eq_none_iff.mp hid
  | some key =>
    obtain ⟨state, hstate, hsame⟩ := hkeys.held hkey
    have hverdict : state.verdict = key.verdict :=
      (hverdicts id state hstate).trans (Db.verdict_fresh hkey).symm
    have heq : state = key := by
      have h := congrArg (·.withVerdict key.verdict) hsame
      show state = key
      calc state = state.withVerdict key.verdict := by rw [← hverdict]; rfl
        _ = key := h
    rw [hstate, heq]

/-- What a served roster does to a node that no install holds. -/
theorem installRoster_served (verify : String → String → Bool) (db : Db)
    (hidle : node.pending = none) :
    (installRoster verify node (rosterBody db)).store.snapshot = node.store.snapshot ∧
      (installRoster verify node (rosterBody db)).pending =
        some (KeyStore.rosterSnapshot node.store.snapshot (pulled db)) ∧
      (installRoster verify node (rosterBody db)).calls = node.calls := by
  simp only [installRoster, readRoster_rosterBody, KeyNode.step, hidle]
  exact ⟨trivial, rfl, trivial⟩

/-- What served verdicts do to such a node. -/
theorem installOverlay_served (verify : String → String → Bool) (db : Db)
    (hidle : node.pending = none) :
    ∃ overlay : HashMap KeyId Verdict,
      (∀ id, overlay.lookup id = (db.verdicts.lookup id).map Verdict.installed) ∧
      installOverlay verify node (verdictsBody db) =
        { node with store := node.store.installVerdicts overlay } := by
  refine ⟨_, lookup_readEntries db, ?_⟩
  simp only [installOverlay, readVerdicts_eq, KeyNode.step, hidle]

end

/-! ## The stages -/

section

variable {verify : String → String → Bool} {s s' : Plane} {e : PlaneEvent}

/-- Nothing but a change of the database takes the roster away again. -/
theorem HoldsRoster.step (h : s.HoldsRoster) (hmove : Move verify s e s')
    (hdb : s'.db = s.db) : s'.HoldsRoster := by
  cases hmove with
  | edit db =>
    cases hdb
    exact h
  | serveIdentity => exact { h with identity := fun body hbody => (Option.some.inj hbody).symm }
  | identityFailed => exact { h with identity := fun body hbody => by cases hbody }
  | serveLimits | limitsFailed => exact ⟨h.current, h.pending, h.identity⟩
  | identityArrived body hbody hidle =>
    obtain rfl := h.identity body hbody
    obtain ⟨hsnap, hpending, -⟩ := installRoster_served verify s.db hidle
    refine ⟨?_, fun snap hp => ?_, fun body hbody => by cases hbody⟩
    · show SameKeys s.db (installRoster verify s.node (rosterBody s.db)).store.snapshot
      rw [hsnap]
      exact h.current
    · obtain rfl := Option.some.inj (hpending.symm.trans hp)
      exact sameKeys_pulled s.db _
  | swap snap hsnap =>
    have hnode : s.node.step verify .swap =
        { s.node with store := { s.node.store with snapshot := snap }, pending := none } := by
      simp only [KeyNode.step, hsnap]
    rw [hnode]
    exact ⟨h.pending snap hsnap, fun _ hp => absurd hp.symm (Option.some_ne_none _), h.identity⟩
  | limitsArrived body hbody hidle =>
    simp only [installOverlay]
    cases readVerdicts body with
    | none => exact ⟨h.current, h.pending, h.identity⟩
    | some overlay =>
      simp only [KeyNode.step, hidle]
      exact ⟨h.current.overlay overlay, fun _ hp => absurd hp.symm (Option.some_ne_none _),
        h.identity⟩
  | authorize token model now hidle =>
    simp only [KeyNode.step, hidle]
    exact ⟨h.current, fun _ hp => absurd hp.symm (Option.some_ne_none _), h.identity⟩
  | advance i =>
    simp only [KeyNode.step]
    cases s.node.calls[i]? <;> exact ⟨h.current, h.pending, h.identity⟩

/-- And nothing else takes the verdicts away. -/
theorem HoldsVerdicts.step (h : s.HoldsVerdicts) (hroster : s.HoldsRoster)
    (hmove : Move verify s e s') (hdb : s'.db = s.db) : s'.HoldsVerdicts := by
  cases hmove with
  | edit db =>
    cases hdb
    exact h
  | serveIdentity | identityFailed => exact ⟨h.current, h.pending, h.limits⟩
  | serveLimits => exact { h with limits := fun body hbody => (Option.some.inj hbody).symm }
  | limitsFailed => exact { h with limits := fun body hbody => by cases hbody }
  | identityArrived body hbody hidle =>
    obtain rfl := hroster.identity body hbody
    obtain ⟨hsnap, hpending, -⟩ := installRoster_served verify s.db hidle
    refine ⟨?_, fun snap hp => ?_, h.limits⟩
    · show SameVerdicts s.db (installRoster verify s.node (rosterBody s.db)).store.snapshot
      rw [hsnap]
      exact h.current
    · obtain rfl := Option.some.inj (hpending.symm.trans hp)
      exact h.current.pulled hroster.current
  | swap snap hsnap =>
    have hnode : s.node.step verify .swap =
        { s.node with store := { s.node.store with snapshot := snap }, pending := none } := by
      simp only [KeyNode.step, hsnap]
    rw [hnode]
    exact ⟨h.pending snap hsnap, fun _ hp => absurd hp.symm (Option.some_ne_none _), h.limits⟩
  | limitsArrived body hbody hidle =>
    obtain rfl := h.limits body hbody
    obtain ⟨overlay, hoverlay, hnode⟩ := installOverlay_served verify s.db hidle
    rw [hnode]
    refine ⟨sameVerdicts_overlay hoverlay _, fun snap hp => ?_, fun body hbody => ?_⟩
    · cases hidle.symm.trans hp
    · cases hbody
  | authorize token model now hidle =>
    simp only [KeyNode.step, hidle]
    exact ⟨h.current, fun _ hp => absurd hp.symm (Option.some_ne_none _), h.limits⟩
  | advance i =>
    simp only [KeyNode.step]
    cases s.node.calls[i]? <;> exact ⟨h.current, h.pending, h.limits⟩

theorem Move.db_eq (hmove : Move verify s e s') (hedit : ∀ db, e ≠ .edit db) : s'.db = s.db := by
  cases hmove with
  | edit db => exact absurd rfl (hedit db)
  | _ => rfl

/-- **One step.** What a stage says goes over to what the next one says. -/
theorem meaning_step {stage : Stage} (h : s.Meaning stage) (hmove : Move verify s e s') :
    s'.Meaning (stage.next e) := by
  by_cases hedit : ∃ db, e = .edit db
  · obtain ⟨db, rfl⟩ := hedit
    cases stage <;> exact trivial
  rw [not_exists] at hedit
  have hdb := hmove.db_eq hedit
  cases stage with
  | stale =>
    cases hmove with
    | serveIdentity hidle => exact ⟨rfl, hidle⟩
    | _ => exact trivial
  | rosterServed =>
    obtain ⟨hbody, hidle⟩ := h
    cases hmove with
    | edit db => exact absurd rfl (hedit db)
    | serveIdentity => exact ⟨rfl, hidle⟩
    | serveLimits | limitsFailed => exact ⟨hbody, hidle⟩
    | identityFailed => exact trivial
    | identityArrived body hbody' =>
      obtain rfl := Option.some.inj (hbody.symm.trans hbody')
      exact ⟨rfl, _, (installRoster_served verify s.db hidle).2.1, sameKeys_pulled s.db _⟩
    | swap snap hsnap => cases hidle.symm.trans hsnap
    | limitsArrived body =>
      simp only [installOverlay]
      cases readVerdicts body with
      | none => exact ⟨hbody, hidle⟩
      | some overlay =>
        simp only [KeyNode.step, hidle]
        exact ⟨hbody, rfl⟩
    | authorize =>
      simp only [KeyNode.step, hidle]
      exact ⟨hbody, rfl⟩
    | advance i =>
      simp only [KeyNode.step]
      cases s.node.calls[i]? <;> exact ⟨hbody, hidle⟩
  | rosterRead =>
    obtain ⟨hnone, snap, hsnap, hsame⟩ := h
    cases hmove with
    | edit db => exact absurd rfl (hedit db)
    | serveIdentity hidle | identityArrived _ _ hidle | limitsArrived _ _ hidle
    | authorize _ _ _ hidle => cases hsnap.symm.trans hidle
    | identityFailed => exact ⟨rfl, snap, hsnap, hsame⟩
    | serveLimits | limitsFailed => exact ⟨hnone, snap, hsnap, hsame⟩
    | swap =>
      have hnode : s.node.step verify .swap =
          { s.node with store := { s.node.store with snapshot := snap }, pending := none } := by
        simp only [KeyNode.step, hsnap]
      rw [hnode]
      exact ⟨hsame, fun _ hp => absurd hp.symm (Option.some_ne_none _),
        fun body hbody => absurd (hbody.symm.trans hnone) (Option.some_ne_none _)⟩
    | advance i =>
      simp only [KeyNode.step]
      cases s.node.calls[i]? <;> exact ⟨hnone, snap, hsnap, hsame⟩
  | rosterIn =>
    have hroster := HoldsRoster.step h hmove hdb
    cases hmove with
    | edit db => exact absurd rfl (hedit db)
    | serveLimits => exact ⟨hroster, rfl⟩
    | _ => exact hroster
  | overlayServed =>
    have hroster := h.1.step hmove hdb
    cases hmove with
    | edit db => exact absurd rfl (hedit db)
    | limitsFailed => exact hroster
    | limitsArrived body hbody hidle =>
      obtain rfl := Option.some.inj (h.2.symm.trans hbody)
      obtain ⟨overlay, hoverlay, hnode⟩ := installOverlay_served verify s.db hidle
      refine ⟨hroster, ?_⟩
      rw [hnode]
      refine ⟨sameVerdicts_overlay hoverlay _, fun snap hp => ?_, fun body hbody => ?_⟩
      · cases hidle.symm.trans hp
      · cases hbody
    | serveLimits hidle => cases h.2.symm.trans hidle
    | _ => exact ⟨hroster, h.2⟩
  | settled =>
    have hroster := h.1.step hmove hdb
    have hverdicts := h.2.step h.1 hmove hdb
    cases hmove with
    | edit db => exact absurd rfl (hedit db)
    | _ => exact ⟨hroster, hverdicts⟩

end

section

variable {verify : String → String → Bool} {resolve : Secret → Option String}
  {keys : List KeyConfig} {s t u u' : Plane} {e : PlaneEvent}
  {tr before after : List (Runs.Step Plane PlaneEvent)} {token : String} {model : Option String}
  {now : ℕ}

/-- **The run.** -/
theorem run_meaning (hr : Run (system verify resolve keys) s tr t) :
    t.Meaning (stage (events tr)) := by
  refine hr.invariant_trace (P := fun tr t => t.Meaning (stage (events tr))) trivial ?_
  rintro tr t e t' - ih hstep
  have hsnoc : stage (events (tr ++ [⟨t, e, t'⟩])) = (stage (events tr)).next e := by
    rw [events_append, events_singleton, stage, List.foldl_append]
    rfl
  rw [hsnoc]
  exact meaning_step ih (move hstep)

/-! ## After a cycle -/

/-- What an authorization was asked, and the snapshot it cloned. -/
def asked (c : AuthCall) : String × Option String × ℕ × KeySnapshot :=
  (c.token, c.model, c.now, c.snap)

/-- A step of an authorization leaves what it was asked. -/
theorem asked_step (verify : String → String → Bool)
    (verified : HashMap String VerifiedEntry) (c : AuthCall) :
    asked (c.step verify verified).2 = asked c := by
  unfold AuthCall.step
  repeat' split
  all_goals rfl

/-- Authorizations are only added, and keep what they were asked. -/
theorem asked_prefix {e : KeyNode.Event} (node : KeyNode) :
    node.calls.map asked <+: (node.step verify e).calls.map asked := by
  cases e with
  | clone token model now =>
    simp only [KeyNode.step]
    cases node.pending with
    | none =>
      rw [List.map_append]
      exact List.prefix_append _ _
    | some snap => exact List.prefix_rfl
  | advance i =>
    simp only [KeyNode.step]
    cases hi : node.calls[i]? with
    | none => exact List.prefix_rfl
    | some c =>
      have hsame : (node.calls.set i (c.step verify node.store.verified).2).map asked =
          node.calls.map asked := by
        obtain ⟨hlt, rfl⟩ := List.getElem?_eq_some_iff.mp hi
        have hlt' : i < (node.calls.map asked).length := by rwa [List.length_map]
        rw [List.map_set, asked_step, ← List.getElem_map asked (h := hlt')]
        exact List.set_getElem_self hlt'
      exact hsame ▸ List.prefix_rfl
  | pruneFor | swap | verdicts =>
    simp only [KeyNode.step]
    cases node.pending <;> exact List.prefix_rfl

theorem step_asked (hmove : Move verify u e u') :
    u.node.calls.map asked <+: u'.node.calls.map asked := by
  cases hmove with
  | edit | serveIdentity | identityFailed | serveLimits | limitsFailed => exact List.prefix_rfl
  | swap | authorize | advance => exact asked_prefix u.node
  | identityArrived body =>
    simp only [installRoster]
    cases readRoster body with
    | none => exact List.prefix_rfl
    | some roster => exact asked_prefix u.node
  | limitsArrived body =>
    simp only [installOverlay]
    cases readVerdicts body with
    | none => exact List.prefix_rfl
    | some overlay => exact asked_prefix u.node

theorem asked_started (hmove : Move verify u (.authorize token model now) u') :
    (u'.node.calls.map asked)[u.node.calls.length]? =
      some (token, model, now, u.node.store.snapshot) := by
  cases hmove with
  | authorize _ _ _ hidle =>
    simp only [KeyNode.step, hidle]
    simp [asked]

/-- The databases of a run. -/
def databases (s : Plane) (tr : List (Runs.Step Plane PlaneEvent)) : List Db :=
  s.db :: tr.map (·.post.db)

/-- A key of the configuration, or of a row that one of the databases has. -/
def Backed (resolve : Secret → Option String) (keys : List KeyConfig) (dbs : List Db) (id : KeyId)
    (state : KeyState) : Prop :=
  (∃ k ∈ keys, k.id = id ∧ resolve k.pwHash = some state.pwHash ∧
    state.configAllowed = allowList k.allowedModels) ∨
  ∃ db ∈ dbs, ∃ row, db.keys.lookup id = some row ∧ state.pwHash = row.pwHash ∧
    state.configAllowed = allowList (row.toDto id).allowedModels

/-- All keys of a snapshot are backed. -/
def AllBacked (resolve : Secret → Option String) (keys : List KeyConfig) (dbs : List Db)
    (snap : KeySnapshot) : Prop :=
  ∀ id state, snap.keys.lookup id = some state → Backed resolve keys dbs id state

/-- All keys that a node or an authorization uses are backed, and so is what is pulled. -/
structure Rests (resolve : Secret → Option String) (keys : List KeyConfig) (dbs : List Db)
    (s : Plane) : Prop where
  db : s.db ∈ dbs
  current : AllBacked resolve keys dbs s.node.store.snapshot
  pending : ∀ snap, s.node.pending = some snap → AllBacked resolve keys dbs snap
  calls : ∀ c ∈ s.node.calls, AllBacked resolve keys dbs c.snap
  identity : ∀ body, s.identity = some body → ∃ db ∈ dbs, body = rosterBody db

theorem AllBacked.mono {dbs dbs' : List Db} {snap : KeySnapshot}
    (h : AllBacked resolve keys dbs snap) (hsub : dbs ⊆ dbs') :
    AllBacked resolve keys dbs' snap := by
  intro id state hstate
  rcases h id state hstate with hconfig | ⟨db, hdb, hrow⟩
  · exact .inl hconfig
  · exact .inr ⟨db, hsub hdb, hrow⟩

theorem Rests.mono {dbs dbs' : List Db} (h : s.Rests resolve keys dbs) (hsub : dbs ⊆ dbs') :
    s.Rests resolve keys dbs' where
  db := hsub h.db
  current := h.current.mono hsub
  pending snap hsnap := (h.pending snap hsnap).mono hsub
  calls c hc := (h.calls c hc).mono hsub
  identity body hbody := by
    obtain ⟨db, hdb, rfl⟩ := h.identity body hbody
    exact ⟨db, hsub hdb, rfl⟩

theorem AllBacked.overlay {dbs : List Db} {snap : KeySnapshot}
    (h : AllBacked resolve keys dbs snap) (overlay : HashMap KeyId Verdict) :
    AllBacked resolve keys dbs (KeyStore.verdictSnapshot snap overlay) := by
  intro id state hstate
  rw [KeyStore.verdictSnapshot, HashMap.lookup_map, Option.map_eq_some_iff] at hstate
  obtain ⟨old, hold, rfl⟩ := hstate
  exact h id old hold

/-- A pulled roster installs rows of the database that served it. -/
theorem allBacked_pulled {dbs : List Db} {db : Db} (hdb : db ∈ dbs) (snap : KeySnapshot) :
    AllBacked resolve keys dbs (KeyStore.rosterSnapshot snap (Issue.pulled db)) := by
  intro id state hstate
  obtain ⟨k, hk, rfl, rfl⟩ :=
    (Issue.lookup_roster_iff ⟨snap, ∅⟩ (Issue.pulled_ids db)).mp hstate
  obtain ⟨dto, hdto, rfl⟩ :=
    List.mem_map.mp (List.mem_of_mem_filter (List.mem_of_mem_firsts hk))
  obtain ⟨⟨id, row⟩, he, rfl⟩ := List.mem_map.mp hdto
  exact .inr ⟨db, hdb, row, HashMap.mem_pairs.mp (HashMap.mem_ascending.mp he), rfl, rfl⟩

theorem allBacked_fromConfig (dbs : List Db) :
    AllBacked resolve keys dbs (KeyStore.fromConfig resolve keys).snapshot := by
  intro id state hstate
  refine .inl ?_
  unfold KeyStore.fromConfig at hstate
  induction keys using List.reverseRecOn with
  | nil => cases hstate
  | append_singleton keys k ih =>
    have hearlier := fun h => (ih h).imp fun _ hk => And.imp_left (List.mem_append_left [k]) hk
    simp only [List.foldl_append, List.foldl_cons, List.foldl_nil] at hstate
    split at hstate
    · exact hearlier hstate
    · rename_i pwHash hhash
      rw [HashMap.lookup_insert_eq] at hstate
      split at hstate
      · rename_i hid
        cases hstate
        exact ⟨k, List.mem_append_right _ (List.mem_singleton.mpr rfl), hid.symm, hhash, rfl⟩
      · exact hearlier hstate

/-- **One step.** -/
theorem Rests.step {dbs : List Db} (hrests : u.Rests resolve keys dbs)
    (hmove : Move verify u e u') :
    u'.Rests resolve keys (dbs ++ [u'.db]) := by
  have hlast : u'.db ∈ dbs ++ [u'.db] := List.mem_append_right _ (List.mem_singleton.mpr rfl)
  have h : u.Rests resolve keys (dbs ++ [u'.db]) := hrests.mono (List.subset_append_left _ _)
  cases hmove with
  | edit => exact ⟨hlast, h.current, h.pending, h.calls, h.identity⟩
  | serveLimits | limitsFailed => exact ⟨h.db, h.current, h.pending, h.calls, h.identity⟩
  | serveIdentity =>
    exact { h with identity := fun body hbody => ⟨u.db, hlast, (Option.some.inj hbody).symm⟩ }
  | identityFailed =>
    exact { h with identity := fun body hbody => absurd hbody.symm (Option.some_ne_none _) }
  | identityArrived body hbody hidle =>
    obtain ⟨db, hdb, rfl⟩ := h.identity body hbody
    obtain ⟨hsnap, hpending, hcalls⟩ := installRoster_served verify db hidle
    refine ⟨hlast, ?_, fun snap hp => ?_, ?_, fun body hbody => ?_⟩
    · show AllBacked _ _ _ (installRoster verify u.node (rosterBody db)).store.snapshot
      rw [hsnap]
      exact h.current
    · obtain rfl := Option.some.inj (hpending.symm.trans hp)
      exact allBacked_pulled hdb _
    · show ∀ c ∈ (installRoster verify u.node (rosterBody db)).calls, _
      rw [hcalls]
      exact h.calls
    · cases hbody
  | swap snap hsnap =>
    simp only [KeyNode.step, hsnap]
    exact ⟨hlast, h.pending snap hsnap, fun _ hp => absurd hp.symm (Option.some_ne_none _), h.calls,
      h.identity⟩
  | limitsArrived body hbody hidle =>
    simp only [installOverlay]
    cases readVerdicts body with
    | none => exact ⟨hlast, h.current, h.pending, h.calls, h.identity⟩
    | some overlay =>
      simp only [KeyNode.step, hidle]
      exact ⟨hlast, h.current.overlay overlay, fun _ hp => absurd hp.symm (Option.some_ne_none _),
        h.calls, h.identity⟩
  | authorize token model now hidle =>
    simp only [KeyNode.step, hidle]
    refine ⟨hlast, h.current, fun _ hp => absurd hp.symm (Option.some_ne_none _), fun c hc => ?_,
      h.identity⟩
    rcases List.mem_append.mp hc with hc | hc
    · exact h.calls c hc
    · rw [List.mem_singleton.mp hc]
      exact h.current
  | advance i =>
    simp only [KeyNode.step]
    cases hi : u.node.calls[i]? with
    | none => exact ⟨hlast, h.current, h.pending, h.calls, h.identity⟩
    | some c =>
      refine ⟨hlast, h.current, h.pending, fun d hd => ?_, h.identity⟩
      rcases List.mem_or_eq_of_mem_set hd with hd | rfl
      · exact h.calls d hd
      · have hsnap := congrArg (·.2.2.2) (asked_step verify u.node.store.verified c)
        rw [show (c.step verify u.node.store.verified).2.snap = c.snap from hsnap]
        exact h.calls c (List.mem_of_getElem? hi)

/-- **The run.** -/
theorem run_rests (hs : (system verify resolve keys).init s)
    (hr : Run (system verify resolve keys) s tr t) : t.Rests resolve keys (databases s tr) := by
  refine hr.invariant_trace (P := fun tr t => t.Rests resolve keys (databases s tr)) ?_ ?_
  · obtain ⟨db, rfl⟩ := hs
    exact ⟨List.mem_cons_self, allBacked_fromConfig _,
      fun _ hp => absurd hp.symm (Option.some_ne_none _), fun c hc => absurd hc List.not_mem_nil,
      fun _ hbody => absurd hbody.symm (Option.some_ne_none _)⟩
  · rintro tr t e t' - ih hstep
    have hsnoc : databases s (tr ++ [⟨t, e, t'⟩]) = databases s tr ++ [t'.db] := by
      rw [databases, List.map_append]
      rfl
    rw [hsnoc]
    exact ih.step (move hstep)

/-- What is admitted passes the allow-list of the key. -/
theorem permits_of_enforce {state : KeyState} {id who : KeyId} {model : String}
    (h : enforce state id (some model) now = .ok who) :
    state.configAllowed.all (allowSetPermits · model) = true := by
  have hgate : enforce.gate state id (some model) = .ok who := by
    unfold enforce at h
    split at h
    · cases h
    · split at h
      · split at h
        · cases h
        · exact h
      · exact h
  rw [enforce_gate_some, KeyState.permits] at hgate
  split at hgate
  · rename_i hpermits
    exact (Bool.and_eq_true_iff.mp hpermits).1
  · cases hgate

end

/-! ## A key that is blocked after its first request -/

theorem installs_le (tr : List (Runs.Step Plane PlaneEvent)) : installs tr ≤ tr.length := by
  refine List.countP_le_length.trans ?_
  rw [events, List.length_map, project]
  exact List.length_filterMap_le ..

/-- What an authorization has answered. -/
def answered (c : AuthCall) : Option (Except AuthError KeyId) :=
  match c.phase with
  | .done answer => some answer
  | _ => none

theorem done_of_answered {c : AuthCall} {answer : Except AuthError KeyId}
    (h : answered c = some answer) : c.phase = .done answer := by
  unfold answered at h
  split at h
  · rename_i hphase
    rw [hphase, Option.some.inj h]
  · cases h

/-- A cycle of pulls. -/
def cycle : List PlaneEvent :=
  [.serveIdentity, .identityArrived, .swap, .serveLimits, .limitsArrived]

/-- A key is pulled and used, and then it is blocked. -/
def thenBlocked : List PlaneEvent :=
  cycle ++ [.authorize Metered.bearerAlpha none 0, .advance 0, .advance 0, .advance 0,
    .edit (Metered.alphaKey.setBlocked "alpha" true 1)] ++ cycle

/-- A node without keys of its own. -/
def keyless : Plane := start Metered.alphaKey (.fromConfig (fun _ => none) [])

theorem run_thenBlocked : ∃ before u u' after t,
    Run (system KeyNode.verifyStored (fun _ => none) []) keyless
      (before ++ ⟨u, .authorize Metered.bearerAlpha none 9, u'⟩ :: after) t ∧
    events before = thenBlocked ∧ after.length = 1 ∧ u.node.calls.length = 1 ∧
    t.node.calls.map answered = [some (.ok "beta"), some (.error .blocked)] := by
  obtain ⟨u, hu⟩ := Option.isSome_iff_exists.mp
    (by decide +kernel : (thenBlocked.foldlM (step KeyNode.verifyStored) keyless).isSome = true)
  have hcalls : (thenBlocked.foldlM (step KeyNode.verifyStored) keyless).map
      (fun u => u.node.calls.length) = some 1 := by decide +kernel
  have hafter : (thenBlocked.foldlM (step KeyNode.verifyStored) keyless).bind (fun u =>
      (step KeyNode.verifyStored u (.authorize Metered.bearerAlpha none 9)).bind fun u =>
        (step KeyNode.verifyStored u (.advance 1)).map fun t => t.node.calls.map answered) =
      some [some (.ok "beta"), some (.error .blocked)] := by decide +kernel
  rw [hu, Option.map_some, Option.some.injEq] at hcalls
  rw [hu, Option.bind_some] at hafter
  obtain ⟨u', hstart, hafter⟩ := Option.bind_eq_some_iff.mp hafter
  obtain ⟨t, hadvance, hanswered⟩ := Option.map_eq_some_iff.mp hafter
  obtain ⟨before, hbefore, hevents⟩ := Run.execOption
    (fun s => ∃ db, s = start db (.fromConfig (fun _ => none) [])) hu
  have hrun : Run (system KeyNode.verifyStored (fun _ => none) []) keyless _ t :=
    (hbefore.snoc hstart).snoc hadvance
  rw [List.append_assoc] at hrun
  exact ⟨before, u, u', _, t, hrun, hevents, rfl, hcalls, hanswered⟩

/-- So short a run has few installs. -/
theorem few_thenBlocked {before after : List (Runs.Step Plane PlaneEvent)}
    {x : Runs.Step Plane PlaneEvent} (hevents : events before = thenBlocked)
    (hafter : after.length = 1) : installs (before ++ x :: after) < 2 ^ 64 := by
  refine lt_of_le_of_lt (installs_le _) ?_
  have hlen := congrArg List.length hevents
  rw [events, List.length_map] at hlen
  rw [List.length_append, List.length_cons, hlen, hafter]
  decide

end Plane

end Control

end Llmleaf
