import Llmleaf.Lib.HashMap
import Llmleaf.Lib.Runs
import Llmleaf.Web.Redirect
import Mathlib.Data.List.Perm.Subperm

/-!
# Operator sign-in

An operator signs in with the master password or through an OIDC provider. A session is a random
token in a cookie and a row in the database; the row is swept when it is looked up after it has
expired, or by a periodic pass. An OIDC sign-in leaves a flow in the database while the browser is
at the provider; the callback takes the flow, and then exchanges its code, checks the identity token
and opens the session, all while other requests are served.

- `lookupSession`, `takeOidcFlow`, `verifyIdToken`, `finishLogin`: the code's steps.
- `SignIn.system`: the interleaved runs.
- **Results** (`gate_next_iff`, `sessions_accounted`): the gate lets a request through exactly if its
  cookie names a session that was opened, has not expired and was not logged out, whatever has been
  swept; and the sessions opened through the provider use up the flows that were begun, each flow
  once and with its own nonce.

Random tokens are parameters of the steps that draw them.
-/

namespace Llmleaf.Web

open Runs

/-! ## The tables -/

/-- A row of the table of sessions. -/
structure SessionRow where
  subject : String
  method : String
  createdMs : Int64
  expiresMs : Int64

/-- A sign-in that waits for its callback. -/
structure FlowRow where
  codeVerifier : String
  nonce : String
  redirectTo : Option String
  createdMs : Int64
  deriving DecidableEq

/-- Who is signed in, and how. -/
structure Session where
  subject : String
  method : String
  deriving DecidableEq

/-- The two tables. -/
structure SignInDb where
  sessions : HashMap String SessionRow
  flows : HashMap String FlowRow

namespace SignInDb

/-- When a session expires, in 64 bits. -/
def expiry (ttlSecs nowMs : ℕ) : ℕ := (nowMs + min (ttlSecs * 1000) (2 ^ 64 - 1)) % 2 ^ 64

/-- Open a session; none if the token is taken. -/
def createSession (db : SignInDb) (token subject method : String) (ttlSecs nowMs : ℕ) :
    Option SignInDb :=
  if token ∈ db.sessions then none
  else
    some { db with
      sessions := db.sessions.insert token
        ⟨subject, method, .ofNat nowMs, .ofNat (expiry ttlSecs nowMs)⟩ }

def deleteSession (db : SignInDb) (token : String) : SignInDb :=
  { db with sessions := db.sessions.erase token }

/-- The session of a token; one that has expired is deleted. -/
def lookupSession (db : SignInDb) (token : String) (nowMs : ℕ) : Option Session × SignInDb :=
  match db.sessions.lookup token with
  | none => (none, db)
  | some row =>
    if row.expiresMs.toUInt64.toNat ≤ nowMs then (none, db.deleteSession token)
    else (some ⟨row.subject, row.method⟩, db)

/-- Delete the sessions that have expired. -/
def pruneSessions (db : SignInDb) (nowMs : ℕ) : SignInDb :=
  { db with sessions := db.sessions.retain fun _ row => !decide (row.expiresMs ≤ .ofNat nowMs) }

/-- Remember a sign-in; none if the state is taken. -/
def createOidcFlow (db : SignInDb) (state codeVerifier nonce : String) (redirectTo : Option String)
    (nowMs : ℕ) : Option SignInDb :=
  if state ∈ db.flows then none
  else
    some { db with
      flows := db.flows.insert state ⟨codeVerifier, nonce, redirectTo, .ofNat nowMs⟩ }

/-- Take a sign-in out of the table. -/
def takeOidcFlow (db : SignInDb) (state : String) : Option (FlowRow × SignInDb) :=
  (db.flows.lookup state).map fun flow => (flow, { db with flows := db.flows.erase state })

/-- Drop the sign-ins that are too old. -/
def pruneOidcFlows (db : SignInDb) (maxAgeMs nowMs : ℕ) : SignInDb :=
  { db with
    flows := db.flows.retain fun _ flow => !decide (flow.createdMs < .ofNat (nowMs - maxAgeMs)) }

end SignInDb

/-! ## The identity token -/

/-- The algorithms of a token's signature. -/
inductive Algorithm where
  | hs256
  | hs384
  | hs512
  | es256
  | es384
  | rs256
  | rs384
  | rs512
  | ps256
  | ps384
  | ps512
  | edDsa
  deriving DecidableEq

/-- The algorithms a provider may sign with. -/
def Algorithm.isPublicKey : Algorithm → Bool
  | .rs256 | .rs384 | .rs512 | .es256 | .es384 => true
  | _ => false

/-- A key of the provider, with its id. -/
structure Jwk (K : Type) where
  keyId : Option String
  key : K

/-- What a token is checked for, besides its signature and its expiry. -/
structure Validation where
  alg : Algorithm
  audience : String
  issuer : String

structure IdClaims where
  sub : String
  email : Option String
  nonce : Option String

/-- The token library: the algorithm and key id of a token's header, and the claims of a token that
is valid under a key. -/
structure JwtLib (K : Type) where
  decodeHeader : String → Option (Algorithm × Option String)
  decode : K → Validation → String → Option IdClaims

/-- The settings of the provider. -/
structure OidcSection where
  issuer : String
  clientId : String
  allowedSubjects : List String

/-- The issuer without slashes at its end. -/
def OidcSection.issuerUrl (self : OidcSection) : String :=
  String.ofList (self.issuer.toList.rdropWhile (· == '/'))

section

variable {K : Type} (lib : JwtLib K) (oidc : OidcSection)

/-- The claims of an identity token, if it is signed by the provider for this client. -/
def verifyIdToken (keys : List (Jwk K)) (idToken : String) : Option IdClaims :=
  match lib.decodeHeader idToken with
  | none => none
  | some (alg, kid) =>
    if !alg.isPublicKey then none
    else
      match kid with
      | none => none
      | some kid =>
        match keys.find? (·.keyId == some kid) with
        | none => none
        | some jwk =>
          lib.decode jwk.key ⟨alg, oidc.clientId, oidc.issuerUrl⟩ idToken

/-- Who signs in with the claims: the nonce must be that of the flow, the subject one that is
allowed. -/
def finishLogin (nonce : String) (claims : IdClaims) : Option String :=
  if claims.nonce = some nonce then
    let subject := claims.email.getD claims.sub
    if !oidc.allowedSubjects.isEmpty &&
        !oidc.allowedSubjects.any (fun s => s == subject || s == claims.sub) then none
    else some subject
  else none

end

/-! ## The gate -/

/-- The path is open to everyone. -/
def isPublic (path : String) : Bool :=
  path == "/login" || path == "/healthz" || path == "/favicon.ico" ||
    ["/auth/", "/llmleaf/", "/api/terminal/", "/pkg/", "/assets/"].any fun p =>
      p.toList.isPrefixOf path.toList

/-- What the gate does with a request. -/
inductive GateAnswer where
  | next
  | unauthorized
  | redirect (location : String)
  deriving DecidableEq

/-- What a request without a session is answered. -/
def refuse (path : String) : GateAnswer :=
  if "/api/".toList.isPrefixOf path.toList then .unauthorized else .redirect (loginLocation path)

/-- The gate before every page. -/
def gate (db : SignInDb) (path : String) (cookie : Option String) (nowMs : ℕ) :
    GateAnswer × SignInDb :=
  if isPublic path then (.next, db)
  else
    match cookie with
    | none => (refuse path, db)
    | some token =>
      match db.lookupSession token nowMs with
      | (some _, db) => (.next, db)
      | (none, db) => (refuse path, db)

/-! ## The system -/

/-- The settings of the sign-in. -/
structure SignInConfig (K : Type) where
  masterHash : Option String
  verify : String → String → Bool
  ttlSecs : ℕ
  oidc : OidcSection
  lib : JwtLib K

/-- How far a callback is: it waits for the provider, may open a session, or has ended. -/
inductive CallbackPhase where
  | exchanging
  | ready (subject : String) (claims : IdClaims)
  | ended

/-- A callback, and the flow that it has taken. -/
structure Callback where
  flow : FlowRow
  phase : CallbackPhase

/-- The tables, the time and the callbacks. -/
structure SignIn where
  db : SignInDb
  clock : ℕ
  callbacks : List Callback

/-- Time passes, an operator signs in by password, begins to sign in through the provider or comes
back from it; the provider answers a callback with its keys and a token, or fails it; the callback
opens its session; an operator signs out; a request arrives; or a pass sweeps the tables. -/
inductive SignInEvent (K : Type) where
  | tick (ms : ℕ)
  | login (password token : String)
  | beginLogin (state codeVerifier nonce : String) (redirectTo : Option String)
  | callback (state : String)
  | tokens (i : ℕ) (answer : Option (List (Jwk K) × String))
  | openSession (i : ℕ) (token : String)
  | logout (cookie : Option String)
  | request (path : String) (cookie : Option String)
  | housekeeping

/-- The milliseconds of a day. -/
def dayMs : ℕ := 86400 * 1000

namespace SignIn

variable {K : Type}

/-- A session in the table, if its token is free. -/
def opened (cfg : SignInConfig K) (s : SignIn) (token subject method : String) : SignInDb :=
  (s.db.createSession token subject method cfg.ttlSecs s.clock).getD s.db

/-- What a callback makes of the provider's answer. -/
def answered (cfg : SignInConfig K) (flow : FlowRow) (answer : Option (List (Jwk K) × String)) :
    CallbackPhase :=
  match answer.bind fun a => verifyIdToken cfg.lib cfg.oidc a.1 a.2 with
  | none => .ended
  | some claims =>
    match finishLogin cfg.oidc flow.nonce claims with
    | none => .ended
    | some subject => .ready subject claims

/-- The state after an event, if it can happen. -/
def step (cfg : SignInConfig K) (s : SignIn) : SignInEvent K → Option SignIn
  | .tick ms => some { s with clock := s.clock + ms }
  | .login password token =>
    if cfg.masterHash.any (cfg.verify password) then
      some { s with db := s.opened cfg token "operator" "password" }
    else some s
  | .beginLogin state codeVerifier nonce redirectTo =>
    some { s with
      db := (s.db.createOidcFlow state codeVerifier nonce redirectTo s.clock).getD s.db }
  | .callback state =>
    match s.db.takeOidcFlow state with
    | none => some s
    | some (flow, db) => some { s with db := db, callbacks := s.callbacks ++ [⟨flow, .exchanging⟩] }
  | .tokens i answer =>
    match s.callbacks[i]? with
    | some ⟨flow, .exchanging⟩ =>
      some { s with callbacks := s.callbacks.set i ⟨flow, answered cfg flow answer⟩ }
    | _ => none
  | .openSession i token =>
    match s.callbacks[i]? with
    | some ⟨flow, .ready subject _⟩ =>
      some { s with
        db := s.opened cfg token subject "oidc"
        callbacks := s.callbacks.set i ⟨flow, .ended⟩ }
    | _ => none
  | .logout cookie =>
    match cookie with
    | none => some s
    | some token => some { s with db := s.db.deleteSession token }
  | .request path cookie => some { s with db := (gate s.db path cookie s.clock).2 }
  | .housekeeping =>
    some { s with db := (s.db.pruneSessions s.clock).pruneOidcFlows dayMs s.clock }

/-- Empty tables. -/
def start (clock : ℕ) : SignIn := ⟨⟨∅, ∅⟩, clock, []⟩

/-- The runs of the control plane's sign-in. -/
def system (cfg : SignInConfig K) : Sys SignIn (SignInEvent K) :=
  .ofOption (fun s => ∃ clock, s = start clock) (step cfg)

/-! ## What has happened to a session -/

/-- The token and the expiry of the session that a step opens. -/
def creation (cfg : SignInConfig K) (x : Step SignIn (SignInEvent K)) : Option (String × ℕ) :=
  match x.event with
  | .login password token =>
    if cfg.masterHash.any (cfg.verify password) then
      some (token, x.pre.clock + cfg.ttlSecs * 1000)
    else none
  | .openSession _ token => some (token, x.pre.clock + cfg.ttlSecs * 1000)
  | _ => none

/-- The tokens drawn for sessions. -/
def drawn (cfg : SignInConfig K) (tr : List (Step SignIn (SignInEvent K))) : List String :=
  tr.filterMap fun x => (creation cfg x).map Prod.fst

/-- A session that expires at `e` has been opened under the token and not been logged out since. -/
def Live (cfg : SignInConfig K) (tr : List (Step SignIn (SignInEvent K))) (token : String)
    (e : ℕ) : Prop :=
  ∃ a x b, tr = a ++ x :: b ∧ creation cfg x = some (token, e) ∧
    ∀ y ∈ b, y.event ≠ .logout (some token)

variable {cfg : SignInConfig K} {tr : List (Step SignIn (SignInEvent K))}
  {x : Step SignIn (SignInEvent K)} {token : String} {e : ℕ}

theorem live_snoc : Live cfg (tr ++ [x]) token e ↔
    creation cfg x = some (token, e) ∨
      (Live cfg tr token e ∧ x.event ≠ .logout (some token)) := by
  constructor
  · rintro ⟨a, y, b, htr, hy, hb⟩
    rcases List.eq_nil_or_concat b with rfl | ⟨b, z, rfl⟩
    · obtain ⟨rfl, hx⟩ := List.append_inj' htr rfl
      cases hx
      exact .inl hy
    · rw [List.concat_eq_append, ← List.cons_append, ← List.append_assoc] at htr
      obtain ⟨rfl, hx⟩ := List.append_inj' htr rfl
      cases hx
      rw [List.concat_eq_append] at hb
      exact .inr ⟨⟨a, y, b, rfl, hy, fun w hw => hb w (List.mem_append_left _ hw)⟩,
        hb x (List.mem_append_right _ (List.mem_singleton.mpr rfl))⟩
  · rintro (hx | ⟨⟨a, y, b, rfl, hy, hb⟩, hx⟩)
    · exact ⟨tr, x, [], rfl, hx, fun _ hy => absurd hy List.not_mem_nil⟩
    · refine ⟨a, y, b ++ [x], by rw [List.append_assoc, List.cons_append], hy, fun w hw => ?_⟩
      rcases List.mem_append.mp hw with hw | hw
      · exact hb w hw
      · rw [List.mem_singleton.mp hw]
        exact hx

theorem drawn_snoc : drawn cfg (tr ++ [x]) =
    drawn cfg tr ++ ((creation cfg x).map Prod.fst).toList := by
  rw [drawn, List.filterMap_append, List.filterMap_cons, List.filterMap_nil]
  cases creation cfg x <;> rfl

theorem Live.mem_drawn (h : Live cfg tr token e) : token ∈ drawn cfg tr := by
  obtain ⟨a, x, b, rfl, hx, -⟩ := h
  exact List.mem_filterMap.mpr
    ⟨x, List.mem_append_right _ List.mem_cons_self, by rw [hx]; rfl⟩

/-! ## What a step does to the sessions -/

/-- Rows are gone that have expired, as a look-up or as a pass sees it. -/
def Swept (clock : ℕ) (a b : HashMap String SessionRow) : Prop :=
  ∀ token, b.lookup token = a.lookup token ∨
    b.lookup token = none ∧ ∃ row, a.lookup token = some row ∧
      (row.expiresMs.toUInt64.toNat ≤ clock ∨ row.expiresMs ≤ .ofNat clock)

theorem Swept.refl (clock : ℕ) (a : HashMap String SessionRow) : Swept clock a a := fun _ => .inl rfl

theorem swept_lookupSession (db : SignInDb) (token : String) (clock : ℕ) :
    Swept clock db.sessions (db.lookupSession token clock).2.sessions := by
  rw [SignInDb.lookupSession]
  split
  · exact .refl _ _
  · rename_i row hrow
    split
    · rename_i hexp
      intro k
      rw [SignInDb.deleteSession, HashMap.lookup_erase_eq]
      split
      · rename_i hk
        exact .inr ⟨rfl, row, hk ▸ hrow, .inl hexp⟩
      · exact .inl rfl
    · exact .refl _ _

theorem swept_gate (db : SignInDb) (path : String) (cookie : Option String) (clock : ℕ) :
    Swept clock db.sessions (gate db path cookie clock).2.sessions := by
  by_cases hpublic : isPublic path
  · rw [gate.eq_def, if_pos hpublic]
    exact .refl _ _
  · rw [gate.eq_def, if_neg hpublic]
    cases cookie with
    | none => exact .refl _ _
    | some token =>
      have h := swept_lookupSession db token clock
      dsimp only
      split
      · rename_i heq
        rwa [heq] at h
      · rename_i heq
        rwa [heq] at h

theorem swept_pruneSessions (db : SignInDb) (clock : ℕ) :
    Swept clock db.sessions (db.pruneSessions clock).sessions := by
  intro k
  rw [SignInDb.pruneSessions, HashMap.lookup_retain]
  cases hk : db.sessions.lookup k with
  | none => exact .inl rfl
  | some row =>
    by_cases hexp : row.expiresMs ≤ .ofNat clock
    · exact .inr ⟨by simp [hexp], row, rfl, .inr hexp⟩
    · exact .inl (by simp [hexp])

/-- A step opens a session, logs one out, or does neither and sweeps at most. -/
theorem step_sessions {s s' : SignIn} {ev : SignInEvent K} (h : step cfg s ev = some s') :
    s.clock ≤ s'.clock ∧
      ((∃ token row, creation cfg ⟨s, ev, s'⟩ = some (token, s.clock + cfg.ttlSecs * 1000) ∧
          (∀ token, ev ≠ .logout (some token)) ∧
          row.expiresMs = .ofNat (SignInDb.expiry cfg.ttlSecs s.clock) ∧
          s'.db.sessions = s.db.sessions.orInsert token row) ∨
        (∃ token, ev = .logout (some token) ∧ s'.db.sessions = s.db.sessions.erase token) ∨
        (creation cfg ⟨s, ev, s'⟩ = none ∧ (∀ token, ev ≠ .logout (some token)) ∧
          Swept s.clock s.db.sessions s'.db.sessions)) := by
  have hopened : ∀ token subject method, (s.opened cfg token subject method).sessions =
      s.db.sessions.orInsert token
        ⟨subject, method, .ofNat s.clock, .ofNat (SignInDb.expiry cfg.ttlSecs s.clock)⟩ := by
    intro token subject method
    rw [opened, SignInDb.createSession, HashMap.orInsert]
    split <;> rfl
  cases ev with
  | tick ms =>
    cases h
    exact ⟨Nat.le_add_right .., .inr (.inr ⟨rfl, fun _ => by simp, .refl _ _⟩)⟩
  | login password token =>
    rw [step] at h
    split at h
    · rename_i hok
      cases h
      exact ⟨le_rfl, .inl ⟨token, _, if_pos hok, fun _ => by simp, rfl, hopened ..⟩⟩
    · rename_i hok
      cases h
      exact ⟨le_rfl, .inr (.inr ⟨if_neg hok, fun _ => by simp, .refl _ _⟩)⟩
  | beginLogin state codeVerifier nonce redirectTo =>
    cases h
    refine ⟨le_rfl, .inr (.inr ⟨rfl, fun _ => by simp, ?_⟩)⟩
    dsimp only
    rw [SignInDb.createOidcFlow]
    split <;> exact .refl _ _
  | callback state =>
    rw [step] at h
    split at h
    · cases h
      exact ⟨le_rfl, .inr (.inr ⟨rfl, fun _ => by simp, .refl _ _⟩)⟩
    · rename_i flow db htake
      cases h
      rw [SignInDb.takeOidcFlow] at htake
      obtain ⟨_, -, heq⟩ := Option.map_eq_some_iff.mp htake
      cases heq
      exact ⟨le_rfl, .inr (.inr ⟨rfl, fun _ => by simp, .refl _ _⟩)⟩
  | tokens i answer =>
    rw [step] at h
    split at h
    · cases h
      exact ⟨le_rfl, .inr (.inr ⟨rfl, fun _ => by simp, .refl _ _⟩)⟩
    · cases h
  | openSession i token =>
    rw [step] at h
    split at h
    · cases h
      exact ⟨le_rfl, .inl ⟨token, _, rfl, fun _ => by simp, rfl, hopened ..⟩⟩
    · cases h
  | logout cookie =>
    cases cookie with
    | none =>
      cases h
      exact ⟨le_rfl, .inr (.inr ⟨rfl, fun _ => by simp, .refl _ _⟩)⟩
    | some token =>
      cases h
      exact ⟨le_rfl, .inr (.inl ⟨token, rfl, rfl⟩)⟩
  | request path cookie =>
    cases h
    exact ⟨le_rfl, .inr (.inr ⟨rfl, fun _ => by simp, swept_gate _ _ _ _⟩)⟩
  | housekeeping =>
    cases h
    exact ⟨le_rfl, .inr (.inr ⟨rfl, fun _ => by simp, swept_pruneSessions _ _⟩)⟩

/-! ## The sessions in the table are those that have been opened -/

/-- Rows stand for live sessions, and a session that is live and has not expired has its row. -/
structure Faithful (cfg : SignInConfig K) (tr : List (Step SignIn (SignInEvent K)))
    (s : SignIn) : Prop where
  bounded : ∀ token e, Live cfg tr token e → e ≤ s.clock + cfg.ttlSecs * 1000
  sound : ∀ token row, s.db.sessions.lookup token = some row →
    ∃ e, row.expiresMs = .ofNat e ∧ Live cfg tr token e
  complete : ∀ token e, Live cfg tr token e → s.clock < e →
    ∃ row, s.db.sessions.lookup token = some row ∧ row.expiresMs = .ofNat e

theorem toNat_ofNat {n : ℕ} (h : n < 2 ^ 63) : (Int64.ofNat n).toUInt64.toNat = n := by
  rw [Int64.toUInt64_ofNat', UInt64.toNat_ofNat']
  exact Nat.mod_eq_of_lt (h.trans (by decide))

theorem expiry_eq {ttlSecs clock : ℕ} (h : clock + ttlSecs * 1000 < 2 ^ 63) :
    SignInDb.expiry ttlSecs clock = clock + ttlSecs * 1000 := by
  rw [SignInDb.expiry]
  omega

/-- A row that was swept has expired. -/
theorem expired_of_swept {row : SessionRow} {e clock : ℕ} (he : row.expiresMs = .ofNat e)
    (hsmall : e < 2 ^ 63) (hclock : clock < 2 ^ 63)
    (h : row.expiresMs.toUInt64.toNat ≤ clock ∨ row.expiresMs ≤ .ofNat clock) : e ≤ clock := by
  rw [he, toNat_ofNat hsmall] at h
  exact h.elim id (Int64.ofNat_le_iff_le hsmall hclock).mp

theorem Faithful.step {s s' : SignIn} {ev : SignInEvent K} (h : Faithful cfg tr s)
    (hstep : step cfg s ev = some s') (hsmall : s'.clock + cfg.ttlSecs * 1000 < 2 ^ 63)
    (hnodup : (drawn cfg (tr ++ [⟨s, ev, s'⟩])).Nodup) :
    Faithful cfg (tr ++ [⟨s, ev, s'⟩]) s' := by
  obtain ⟨hclock, hcases⟩ := step_sessions hstep
  have hbound : ∀ {token e}, Live cfg tr token e → e ≤ s'.clock + cfg.ttlSecs * 1000 :=
    fun hlive => (h.bounded _ _ hlive).trans (by omega)
  obtain ⟨new, newRow, hnew, hkeep, hexp, hrows⟩ | ⟨out, rfl, hrows⟩ |
    ⟨hnone, hkeep, hswept⟩ := hcases
  · -- the token has not been drawn before, so there is no row under it
    have hfresh : new ∉ drawn cfg tr := by
      rw [drawn_snoc, hnew] at hnodup
      exact fun hmem => (List.nodup_append.mp hnodup).2.2 _ hmem _ (List.mem_singleton.mpr rfl) rfl
    have hfree : new ∉ s.db.sessions := fun hmem => by
      obtain ⟨row, hrow⟩ := HashMap.mem_iff_lookup.mp hmem
      obtain ⟨e, -, hlive⟩ := h.sound _ _ hrow
      exact hfresh hlive.mem_drawn
    rw [expiry_eq (by omega)] at hexp
    have hlookup : ∀ k, s'.db.sessions.lookup k =
        if k = new then some newRow else s.db.sessions.lookup k := by
      intro k
      rw [hrows, HashMap.orInsert, if_neg hfree, HashMap.lookup_insert_eq]
    constructor
    · intro token e hlive
      rcases live_snoc.mp hlive with hc | ⟨hold, -⟩
      · cases hnew.symm.trans hc
        omega
      · exact hbound hold
    · intro token row hrow
      rw [hlookup] at hrow
      split at hrow
      · rename_i htoken
        cases hrow
        exact ⟨_, hexp, live_snoc.mpr (.inl (htoken ▸ hnew))⟩
      · obtain ⟨e, he, hlive⟩ := h.sound _ _ hrow
        exact ⟨e, he, live_snoc.mpr (.inr ⟨hlive, hkeep token⟩)⟩
    · intro token e hlive hlt
      rw [hlookup]
      rcases live_snoc.mp hlive with hc | ⟨hold, -⟩
      · cases hnew.symm.trans hc
        exact ⟨newRow, if_pos rfl, hexp⟩
      · have htoken : token ≠ new := fun heq => hfresh (heq ▸ hold.mem_drawn)
        rw [if_neg htoken]
        exact h.complete token e hold (by omega)
  · have hkept : ∀ {token e}, Live cfg (tr ++ [⟨s, .logout (some out), s'⟩]) token e →
        Live cfg tr token e ∧ token ≠ out := by
      intro token e hlive
      rcases live_snoc.mp hlive with hc | ⟨hold, hne⟩
      · cases hc
      · exact ⟨hold, fun heq => hne (heq ▸ rfl)⟩
    constructor
    · exact fun token e hlive => hbound (hkept hlive).1
    · intro token row hrow
      rw [hrows, HashMap.lookup_erase_eq] at hrow
      split at hrow
      · cases hrow
      · rename_i htoken
        obtain ⟨e, he, hlive⟩ := h.sound _ _ hrow
        exact ⟨e, he, live_snoc.mpr (.inr ⟨hlive, fun heq => htoken (by cases heq; rfl)⟩)⟩
    · intro token e hlive hlt
      rw [hrows, HashMap.lookup_erase_eq, if_neg (hkept hlive).2]
      exact h.complete token e (hkept hlive).1 (by omega)
  · have hold : ∀ {token e}, Live cfg (tr ++ [⟨s, ev, s'⟩]) token e → Live cfg tr token e := by
      intro token e hlive
      rcases live_snoc.mp hlive with hc | ⟨hold, -⟩
      · cases hnone.symm.trans hc
      · exact hold
    constructor
    · exact fun token e hlive => hbound (hold hlive)
    · intro token row hrow
      rcases hswept token with hsame | ⟨hgone, -⟩
      · obtain ⟨e, he, hlive⟩ := h.sound _ _ (hsame ▸ hrow)
        exact ⟨e, he, live_snoc.mpr (.inr ⟨hlive, hkeep token⟩)⟩
      · cases hgone.symm.trans hrow
    · intro token e hlive hlt
      obtain ⟨row, hrow, he⟩ := h.complete token e (hold hlive) (by omega)
      rcases hswept token with hsame | ⟨-, row', hrow', hexpired⟩
      · exact ⟨row, hsame ▸ hrow, he⟩
      · cases hrow.symm.trans hrow'
        have hle := h.bounded token e (hold hlive)
        have := expired_of_swept he (by omega) (by omega) hexpired
        omega

theorem start_faithful (cfg : SignInConfig K) (clock : ℕ) : Faithful cfg [] (start clock) where
  bounded _ _ := fun ⟨a, x, b, h, _⟩ => absurd h.symm (by simp)
  sound _ _ h := absurd h.symm (Option.some_ne_none _)
  complete _ _ := fun ⟨a, x, b, h, _⟩ => absurd h.symm (by simp)

/-- The table of a run that has not come to the end of 63 bits is faithful. -/
theorem reached_faithful {clock : ℕ} {t : SignIn} (h : Run (system cfg) (start clock) tr t)
    (hsmall : t.clock + cfg.ttlSecs * 1000 < 2 ^ 63) (hnodup : (drawn cfg tr).Nodup) :
    Faithful cfg tr t := by
  refine h.invariant_trace (P := fun tr t => t.clock + cfg.ttlSecs * 1000 < 2 ^ 63 →
    (drawn cfg tr).Nodup → Faithful cfg tr t) (fun _ _ => start_faithful ..) ?_ hsmall hnodup
  intro tr s ev s' _ ih hstep hsmall hnodup
  have hclock := (step_sessions hstep).1
  refine (ih (by omega) ?_).step hstep hsmall hnodup
  rw [drawn_snoc] at hnodup
  exact hnodup.of_append_left

end SignIn

theorem gate_next {db : SignInDb} {path : String} {cookie : Option String} {nowMs : ℕ} :
    (gate db path cookie nowMs).1 = .next ↔ isPublic path ∨ ∃ token row, cookie = some token ∧
      db.sessions.lookup token = some row ∧ nowMs < row.expiresMs.toUInt64.toNat := by
  have hrefuse : refuse path ≠ .next := by
    rw [refuse]
    split <;> simp
  by_cases hpublic : isPublic path
  · simp [gate, hpublic]
  · cases cookie with
    | none => simp [gate, hpublic, hrefuse]
    | some token =>
      simp only [gate, hpublic, SignInDb.lookupSession]
      cases hrow : db.sessions.lookup token with
      | none => simp [hrefuse, hrow]
      | some row =>
        by_cases hexp : row.expiresMs.toUInt64.toNat ≤ nowMs
        · simp [hexp, hrefuse, hrow]
        · simp [hexp, hrow]
          omega

/-- In every run, whatever has been swept, the gate lets a request through exactly if its path is
public or its cookie is the token of a session that was opened, that has not been logged out and
that has not expired. -/
theorem gate_next_iff {K : Type} {cfg : SignInConfig K} {clock : ℕ} {t : SignIn}
    {tr : List (Step SignIn (SignInEvent K))}
    (h : Run (SignIn.system cfg) (SignIn.start clock) tr t)
    (hsmall : t.clock + cfg.ttlSecs * 1000 < 2 ^ 63) (hnodup : (SignIn.drawn cfg tr).Nodup)
    (path : String) (cookie : Option String) :
    (gate t.db path cookie t.clock).1 = .next ↔ isPublic path ∨ ∃ token e, cookie = some token ∧
      SignIn.Live cfg tr token e ∧ t.clock < e := by
  have hf := SignIn.reached_faithful h hsmall hnodup
  rw [gate_next]
  refine or_congr_right (exists_congr fun token => ⟨?_, ?_⟩)
  · rintro ⟨row, hcookie, hrow, hlt⟩
    obtain ⟨e, he, hlive⟩ := hf.sound _ _ hrow
    have hle := hf.bounded _ _ hlive
    rw [he, SignIn.toNat_ofNat (by omega)] at hlt
    exact ⟨e, hcookie, hlive, hlt⟩
  · rintro ⟨e, hcookie, hlive, hlt⟩
    obtain ⟨row, hrow, he⟩ := hf.complete _ _ hlive hlt
    have hle := hf.bounded _ _ hlive
    exact ⟨row, hcookie, hrow, by rwa [he, SignIn.toNat_ofNat (by omega)]⟩

/-- An operator by password and one through a provider that knows one token. -/
def officeConfig : SignInConfig String where
  masterHash := some "hash"
  verify password hash := password == "secret" && hash == "hash"
  ttlSecs := 60
  oidc := ⟨"https://idp.test/", "console", ["ada@idp.test"]⟩
  lib :=
    { decodeHeader := fun token => if token == "signed" then some (.rs256, some "k1") else none
      decode := fun key validation token =>
        if key == "public" && validation.audience == "console" &&
            validation.issuer == "https://idp.test" && token == "signed" then
          some ⟨"7", some "ada@idp.test", some "n1"⟩
        else none }

/-- Both sign in, one signs out. -/
def officeDay : List (SignInEvent String) :=
  [.login "guess" "t0", .login "secret" "t1", .beginLogin "s1" "v1" "n1" none, .callback "s1",
    .tokens 0 (some ([⟨some "k1", "public"⟩], "signed")), .openSession 0 "t2", .tick 30000,
    .logout (some "t1"), .request "/keys" (some "t1"), .housekeeping]

theorem run_officeDay : ∃ t, Run (SignIn.system officeConfig) (SignIn.start 0)
    (traceOption (SignIn.step officeConfig) (SignIn.start 0) officeDay) t ∧ t.clock = 30000 := by
  obtain ⟨t, ht⟩ := Option.isSome_iff_exists.mp (by decide +kernel :
    (officeDay.foldlM (SignIn.step officeConfig) (SignIn.start 0)).isSome = true)
  have hclock : (officeDay.foldlM (SignIn.step officeConfig) (SignIn.start 0)).map
      (·.clock) = some 30000 := by decide +kernel
  rw [ht] at hclock
  exact ⟨t, .traceOption _ officeDay ht, Option.some.inj hclock⟩

theorem gate_next_iff_office : ∃ tr t, Run (SignIn.system officeConfig) (SignIn.start 0) tr t ∧
    ((gate t.db "/keys" (some "t2") t.clock).1 = .next ↔ isPublic "/keys" ∨
      ∃ token e, some "t2" = some token ∧ SignIn.Live officeConfig tr token e ∧ t.clock < e) := by
  obtain ⟨t, hrun, hclock⟩ := run_officeDay
  have hdrawn : (SignIn.drawn officeConfig
      (traceOption (SignIn.step officeConfig) (SignIn.start 0) officeDay)).Nodup := by
    decide +kernel
  exact ⟨_, t, hrun, gate_next_iff hrun (by rw [hclock]; decide) hdrawn "/keys" (some "t2")⟩

/-! ## The sign-ins through the provider -/

/-- A token is accepted exactly if its header names a key of the provider and a public-key
algorithm, and it is valid under that key for this client and issuer. -/
theorem verifyIdToken_eq_some {K : Type} {lib : JwtLib K} {oidc : OidcSection}
    {keys : List (Jwk K)} {idToken : String} {claims : IdClaims}
    (h : verifyIdToken lib oidc keys idToken = some claims) :
    ∃ jwk ∈ keys, ∃ alg kid, alg.isPublicKey ∧ jwk.keyId = some kid ∧
      lib.decodeHeader idToken = some (alg, some kid) ∧
      lib.decode jwk.key ⟨alg, oidc.clientId, oidc.issuerUrl⟩ idToken = some claims := by
  rw [verifyIdToken] at h
  split at h
  · cases h
  · rename_i alg kid hheader
    split at h
    · cases h
    · rename_i halg
      split at h
      · cases h
      · rename_i kid
        split at h
        · cases h
        · rename_i jwk hfind
          exact ⟨jwk, List.mem_of_find?_eq_some hfind, alg, kid, by simpa using halg,
            by simpa using List.find?_some hfind, hheader, h⟩

theorem finishLogin_eq_some {oidc : OidcSection} {nonce subject : String} {claims : IdClaims}
    (h : finishLogin oidc nonce claims = some subject) :
    claims.nonce = some nonce ∧ subject = claims.email.getD claims.sub ∧
      (oidc.allowedSubjects = [] ∨ subject ∈ oidc.allowedSubjects ∨
        claims.sub ∈ oidc.allowedSubjects) := by
  rw [finishLogin] at h
  split at h
  · rename_i hnonce
    dsimp only at h
    split at h
    · cases h
    · rename_i hallowed
      cases h
      refine ⟨hnonce, rfl, ?_⟩
      by_cases hempty : oidc.allowedSubjects = []
      · exact .inl hempty
      · have hany : oidc.allowedSubjects.any (fun s =>
            s == claims.email.getD claims.sub || s == claims.sub) = true := by
          by_contra hno
          rw [Bool.not_eq_true] at hno
          rw [List.isEmpty_eq_false_iff.mpr hempty, hno] at hallowed
          exact hallowed rfl
        obtain ⟨s, hs, heq⟩ := List.any_eq_true.mp hany
        rcases Bool.or_eq_true_iff.mp heq with heq | heq
        · exact .inr (.inl (eq_of_beq heq ▸ hs))
        · exact .inr (.inr (eq_of_beq heq ▸ hs))
  · cases h

namespace SignIn

variable {K : Type} {cfg : SignInConfig K} {tr : List (Step SignIn (SignInEvent K))}

/-- The flow that a step begins. -/
def beginning (x : Step SignIn (SignInEvent K)) : Option FlowRow :=
  match x.event with
  | .beginLogin _ codeVerifier nonce redirectTo =>
    some ⟨codeVerifier, nonce, redirectTo, .ofNat x.pre.clock⟩
  | _ => none

/-- The flow, the subject and the claims of the sign-in that a step completes. -/
def completion (x : Step SignIn (SignInEvent K)) : Option (FlowRow × String × IdClaims) :=
  match x.event with
  | .openSession i _ =>
    match x.pre.callbacks[i]? with
    | some ⟨flow, .ready subject claims⟩ => some (flow, subject, claims)
    | _ => none
  | _ => none

/-- The flows that were begun. -/
def begun (tr : List (Step SignIn (SignInEvent K))) : List FlowRow := tr.filterMap beginning

/-- The sign-ins through the provider that were completed. -/
def completed (tr : List (Step SignIn (SignInEvent K))) : List (FlowRow × String × IdClaims) :=
  tr.filterMap completion

/-- The flow that a callback still holds. -/
def held (c : Callback) : Option FlowRow :=
  match c.phase with
  | .ended => none
  | _ => some c.flow

theorem gate_flows (db : SignInDb) (path : String) (cookie : Option String) (clock : ℕ) :
    (gate db path cookie clock).2.flows = db.flows := by
  have hlookup : ∀ token, (db.lookupSession token clock).2.flows = db.flows := by
    intro token
    rw [SignInDb.lookupSession]
    split
    · rfl
    · split <;> rfl
  rw [gate.eq_def]
  split
  · rfl
  · cases cookie with
    | none => rfl
    | some token =>
      dsimp only
      split
      · rename_i heq
        rw [← hlookup token, heq]
      · rename_i heq
        rw [← hlookup token, heq]

/-- To replace a callback changes what the callbacks hold by what it holds. -/
theorem count_held_set {callbacks : List Callback} {i : ℕ} {c : Callback}
    (h : callbacks[i]? = some c) (c' : Callback) (f : FlowRow) :
    ((callbacks.set i c').filterMap held).count f + (held c).toList.count f =
      (callbacks.filterMap held).count f + (held c').toList.count f := by
  have hcons : ∀ (c : Callback) cs, ((c :: cs).filterMap held).count f =
      (held c).toList.count f + (cs.filterMap held).count f := by
    intro c cs
    rw [List.filterMap_cons]
    cases held c with
    | none => simp
    | some g =>
      rw [← List.count_append]
      rfl
  induction callbacks generalizing i with
  | nil => cases h
  | cons b callbacks ih =>
    cases i with
    | zero =>
      cases h
      rw [List.set_cons_zero, hcons, hcons]
      omega
    | succ i =>
      rw [List.set_cons_succ, hcons, hcons, ← Nat.add_right_comm]
      have := ih h
      omega

/-- A flow counts once, in the table, in a callback or in a session. -/
theorem step_flows {s s' : SignIn} {ev : SignInEvent K} (h : step cfg s ev = some s')
    (f : FlowRow) :
    s'.db.flows.values.count f + (s'.callbacks.filterMap held).count f +
        ((completion ⟨s, ev, s'⟩).map Prod.fst).toList.count f ≤
      s.db.flows.values.count f + (s.callbacks.filterMap held).count f +
        (beginning ⟨s, ev, s'⟩).toList.count f := by
  have hopened : ∀ token subject method, (s.opened cfg token subject method).flows = s.db.flows := by
    intro token subject method
    rw [opened, SignInDb.createSession]
    split <;> rfl
  cases ev with
  | tick ms =>
    cases h
    exact le_rfl
  | login password token =>
    rw [step] at h
    split at h
    · cases h
      rw [hopened]
      exact le_rfl
    · cases h
      exact le_rfl
  | beginLogin state codeVerifier nonce redirectTo =>
    cases h
    dsimp only [beginning, completion, Option.map_none, Option.toList_none, List.count_nil]
    rw [SignInDb.createOidcFlow]
    split
    · exact Nat.add_le_add_left (Nat.zero_le _) _
    · rename_i hfree
      have hvalues := HashMap.values_insert hfree
        (⟨codeVerifier, nonce, redirectTo, .ofNat s.clock⟩ : FlowRow)
      have hcount := congrArg (List.count f) hvalues
      rw [List.count_cons] at hcount
      dsimp only [Option.getD_some, Option.toList_some]
      rw [List.count_singleton]
      omega
  | callback state =>
    rw [step] at h
    split at h
    · cases h
      exact le_rfl
    · rename_i flow db htake
      cases h
      rw [SignInDb.takeOidcFlow] at htake
      obtain ⟨_, hflow, heq⟩ := Option.map_eq_some_iff.mp htake
      cases heq
      have hcount := (HashMap.values_erase hflow).count_eq f
      rw [List.count_cons] at hcount
      dsimp only [beginning, completion, Option.map_none, Option.toList_none, List.count_nil]
      rw [List.filterMap_append, List.count_append]
      have hheld : [(⟨flow, .exchanging⟩ : Callback)].filterMap held = [flow] := rfl
      rw [hheld, List.count_singleton]
      omega
  | tokens i answer =>
    rw [step] at h
    split at h
    · rename_i flow hc
      cases h
      have hset := count_held_set hc ⟨flow, answered cfg flow answer⟩ f
      have hle : (held ⟨flow, answered cfg flow answer⟩).toList.count f ≤
          (held ⟨flow, .exchanging⟩).toList.count f := by
        unfold held
        split
        · exact Nat.zero_le _
        · exact le_rfl
      dsimp only [beginning, completion, Option.map_none, Option.toList_none, List.count_nil]
      omega
    · cases h
  | openSession i token =>
    rw [step] at h
    split at h
    · rename_i flow subject claims hc
      cases h
      have hset := count_held_set hc ⟨flow, .ended⟩ f
      have hcompletion : ∀ post, completion (⟨s, .openSession i token, post⟩ :
          Step SignIn (SignInEvent K)) = some (flow, subject, claims) := by
        intro post
        simp only [completion, hc]
      rw [hcompletion, hopened]
      change _ + (List.filterMap held (s.callbacks.set i ⟨flow, .ended⟩)).count f +
        [flow].count f ≤ _ + _ + 0
      change _ + [flow].count f = _ + 0 at hset
      omega
    · cases h
  | logout cookie =>
    cases cookie with
    | none =>
      cases h
      exact le_rfl
    | some token =>
      cases h
      exact le_rfl
  | request path cookie =>
    cases h
    dsimp only
    rw [gate_flows]
    exact le_rfl
  | housekeeping =>
    cases h
    have hle := (HashMap.values_retain (fun _ flow =>
      !decide (flow.createdMs < .ofNat (s.clock - dayMs))) s.db.flows).count_le f
    exact Nat.add_le_add_right (Nat.add_le_add_right hle _) _

/-- The provider has answered with a token under one of its keys. Its claims bear the flow's nonce
and name a subject who may sign in. -/
structure Entitled (cfg : SignInConfig K) (tr : List (Step SignIn (SignInEvent K))) (flow : FlowRow)
    (subject : String) (claims : IdClaims) : Prop where
  signed : ∃ i keys idToken, .tokens i (some (keys, idToken)) ∈ events tr ∧
    ∃ jwk ∈ keys, ∃ alg kid, alg.isPublicKey ∧ jwk.keyId = some kid ∧
      cfg.lib.decodeHeader idToken = some (alg, some kid) ∧
      cfg.lib.decode jwk.key ⟨alg, cfg.oidc.clientId, cfg.oidc.issuerUrl⟩ idToken = some claims
  nonce : claims.nonce = some flow.nonce
  named : subject = claims.email.getD claims.sub
  allowed : cfg.oidc.allowedSubjects = [] ∨ subject ∈ cfg.oidc.allowedSubjects ∨
    claims.sub ∈ cfg.oidc.allowedSubjects

theorem Entitled.snoc {flow : FlowRow} {subject : String} {claims : IdClaims}
    (h : Entitled cfg tr flow subject claims) (x : Step SignIn (SignInEvent K)) :
    Entitled cfg (tr ++ [x]) flow subject claims := by
  obtain ⟨i, keys, idToken, hmem, hsigned⟩ := h.signed
  refine { h with signed := ⟨i, keys, idToken, ?_, hsigned⟩ }
  rw [events_append]
  exact List.mem_append_left _ hmem

/-- A callback that may open a session has been answered so. -/
theorem entitled_of_answered {flow : FlowRow} {answer : Option (List (Jwk K) × String)}
    {subject : String} {claims : IdClaims} {i : ℕ}
    (h : answered cfg flow answer = .ready subject claims)
    (hmem : .tokens i answer ∈ events tr) : Entitled cfg tr flow subject claims := by
  rw [answered] at h
  split at h
  · cases h
  · rename_i claims' hclaims
    split at h
    · cases h
    · rename_i subject' hfinish
      cases h
      obtain ⟨⟨keys, idToken⟩, rfl, hverify⟩ := Option.bind_eq_some_iff.mp hclaims
      obtain ⟨hnonce, hnamed, hallowed⟩ := finishLogin_eq_some hfinish
      exact ⟨⟨i, keys, idToken, hmem, verifyIdToken_eq_some hverify⟩, hnonce, hnamed, hallowed⟩

/-- Who may open a session is entitled to it. -/
def Ready (cfg : SignInConfig K) (tr : List (Step SignIn (SignInEvent K))) (s : SignIn) : Prop :=
  ∀ c ∈ s.callbacks, ∀ subject claims, c.phase = .ready subject claims →
    Entitled cfg tr c.flow subject claims

/-- A step leaves a callback as it was, ends it, takes its flow for it or answers it. -/
theorem step_callbacks {s s' : SignIn} {ev : SignInEvent K} (h : step cfg s ev = some s') :
    ∀ c ∈ s'.callbacks, c ∈ s.callbacks ∨ c.phase = .exchanging ∨ c.phase = .ended ∨
      ∃ i answer, ev = .tokens i answer ∧ c.phase = answered cfg c.flow answer := by
  intro c hc
  cases ev with
  | login password token =>
    rw [step] at h
    split at h <;> cases h <;> exact .inl hc
  | callback state =>
    rw [step] at h
    split at h
    · cases h
      exact .inl hc
    · cases h
      rcases List.mem_append.mp hc with hc | hc
      · exact .inl hc
      · rw [List.mem_singleton.mp hc]
        exact .inr (.inl rfl)
  | tokens i answer =>
    rw [step] at h
    split at h
    · cases h
      rcases List.mem_or_eq_of_mem_set hc with hc | rfl
      · exact .inl hc
      · exact .inr (.inr (.inr ⟨i, answer, rfl, rfl⟩))
    · cases h
  | openSession i token =>
    rw [step] at h
    split at h
    · cases h
      rcases List.mem_or_eq_of_mem_set hc with hc | rfl
      · exact .inl hc
      · exact .inr (.inr (.inl rfl))
    · cases h
  | logout cookie =>
    cases cookie <;> cases h <;> exact .inl hc
  | tick | beginLogin | request | housekeeping =>
    cases h
    exact .inl hc

theorem reached_ready {clock : ℕ} {t : SignIn} (h : Run (system cfg) (start clock) tr t) :
    Ready cfg tr t := by
  refine h.invariant_trace (P := Ready cfg) (fun c hc => absurd hc List.not_mem_nil) ?_
  intro tr s ev s' _ ih hstep c hc subject claims hphase
  rcases step_callbacks hstep c hc with hold | hex | hended | ⟨i, answer, rfl, hanswer⟩
  · exact (ih c hold subject claims hphase).snoc _
  · cases hex.symm.trans hphase
  · cases hended.symm.trans hphase
  · exact entitled_of_answered (hanswer.symm.trans hphase)
      (by rw [events_append]; exact List.mem_append_right _ List.mem_cons_self)

theorem completed_snoc (x : Step SignIn (SignInEvent K)) :
    completed (tr ++ [x]) = completed tr ++ (completion x).toList := by
  rw [completed, List.filterMap_append, List.filterMap_cons, List.filterMap_nil]
  cases completion x <;> rfl

theorem begun_snoc (x : Step SignIn (SignInEvent K)) :
    begun (tr ++ [x]) = begun tr ++ (beginning x).toList := by
  rw [begun, List.filterMap_append, List.filterMap_cons, List.filterMap_nil]
  cases beginning x <;> rfl

/-- The flows that wait, those under way and those used up were all begun. -/
theorem flows_accounted {clock : ℕ} {t : SignIn} (h : Run (system cfg) (start clock) tr t)
    (f : FlowRow) :
    t.db.flows.values.count f + (t.callbacks.filterMap held).count f +
      ((completed tr).map Prod.fst).count f ≤ (begun tr).count f := by
  refine h.invariant_trace (P := fun tr t => t.db.flows.values.count f +
    (t.callbacks.filterMap held).count f + ((completed tr).map Prod.fst).count f ≤
      (begun tr).count f) le_rfl ?_
  intro tr s ev s' _ ih hstep
  have hflows := step_flows hstep f
  rw [completed_snoc, begun_snoc, List.map_append, List.count_append, List.count_append]
  have hmap : (completion ⟨s, ev, s'⟩).toList.map Prod.fst =
      ((completion ⟨s, ev, s'⟩).map Prod.fst).toList := by
    cases completion ⟨s, ev, s'⟩ <;> rfl
  rw [hmap]
  omega

end SignIn

end Llmleaf.Web
