import Llmleaf.Realtime.Session
import Llmleaf.Server

/-!
# The models of a bridged session

The handshake authorizes one model. A `session.update` may name another one, and every later turn
uses it without a further authorization.

- `Bridge.step_model`, `Bridge.step_calls`: what a frame does to the session's model and to the
  requests handed to the engine.
- **Result** (`models_authorized_iff`): all models of a session and all its requests are permitted to
  the caller exactly when every handled `session.update` names a permitted one.
-/

namespace Llmleaf.Realtime

/-! ## The handshake -/

/-- Why a handshake is refused. -/
inductive HandshakeError where
  | missingCredential
  | missingModel
  | auth (e : AuthError)
  deriving DecidableEq

/-- Authorize a handshake for the model it names: the caller and the model of the session. -/
def realtimeWs {K : Type} (state : AppState K) (env : AuthEnv K) (token model : Option String)
    (now : ℕ) : Except HandshakeError (KeyId × String) × AppState K :=
  match token with
  | none => (.error .missingCredential, state)
  | some token =>
    match model.filter (· != "") with
    | none => (.error .missingModel, state)
    | some model =>
      match state.authorizeToken env token model now with
      | (.error e, state) => (.error (.auth e), state)
      | (.ok key, state) => (.ok (key, model), state)

/-- Whether a bearer is permitted to use a model, as the caller `key`. -/
def MayUse {K : Type} (state : AppState K) (env : AuthEnv K) (token : String) (now : ℕ)
    (key : KeyId) (model : String) : Prop :=
  (state.authorizeToken env token model now).1 = .ok key

instance {K : Type} (state : AppState K) (env : AuthEnv K) (token : String) (now : ℕ) (key : KeyId)
    (model : String) : Decidable (MayUse state env token now key model) :=
  inferInstanceAs (Decidable (_ = _))

theorem realtimeWs_ok {K : Type} {state : AppState K} {env : AuthEnv K} {token : String}
    {q : Option String} {now : ℕ} {key : KeyId} {model : String}
    (h : (realtimeWs state env (some token) q now).1 = .ok (key, model)) :
    MayUse state env token now key model := by
  unfold realtimeWs at h
  dsimp only at h
  split at h
  · cases h
  · rename_i m _
    rw [MayUse]
    generalize hr : state.authorizeToken env token m now = r at h
    obtain ⟨answer, after⟩ := r
    cases answer with
    | error e => cases h
    | ok key' =>
      cases h
      rw [hr]

/-! ## What a frame does to the model -/

/-- The model a frame names for the session: the text `session.model` of a `session.update`. -/
def patchedModel (env : SessionEnv) : IncomingFrame → Option String
  | .binary => none
  | .text t =>
    match (env.fromStr t).map parseClientEvent with
    | some (.sessionUpdate patch) => patch.model
    | _ => none

namespace Bridge

variable (env : SessionEnv)

/-- Sending changes neither the session nor the requests made. -/
structure Keeps (b b' : Bridge) : Prop where
  key : b'.key = b.key
  session : b'.session = b.session
  calls : b'.calls = b.calls

theorem Keeps.refl (b : Bridge) : Keeps b b := ⟨rfl, rfl, rfl⟩

theorem Keeps.trans {a b c : Bridge} (h : Keeps a b) (h' : Keeps b c) : Keeps a c :=
  ⟨h'.key.trans h.key, h'.session.trans h.session, h'.calls.trans h.calls⟩

theorem send_keeps (b : Bridge) (frame : Value) : Keeps b (b.send env frame).1 := ⟨rfl, rfl, rfl⟩

theorem sendAll_keeps (frames : List Value) (b : Bridge) : Keeps b (b.sendAll env frames).1 := by
  induction frames generalizing b with
  | nil => exact .refl b
  | cons frame frames ih =>
    have hsent := send_keeps env b frame
    rw [sendAll]
    split
    · rename_i b' h
      rw [h] at hsent
      exact hsent.trans (ih b')
    · rename_i b' h
      rw [h] at hsent
      exact hsent

theorem streamTurn_keeps (items : List (Except ModelError StreamChunk)) (b : Bridge)
    (scaffold : ResponseScaffold) (reason : FinishReason) (usage : Usage) :
    Keeps b (b.streamTurn env scaffold reason usage items).bridge := by
  induction items generalizing b scaffold reason usage with
  | nil => exact .refl b
  | cons item items ih =>
    cases item with
    | error e => exact send_keeps env b _
    | ok chunk =>
      have hsent := sendAll_keeps env (scaffold.onChunk chunk).2 b
      unfold streamTurn
      dsimp only
      split
      · rename_i b' h
        rw [h] at hsent
        exact hsent.trans (ih ..)
      · rename_i b' h
        rw [h] at hsent
        exact hsent

/-- What a step that names no model may do: keep the session's model, and hand over requests for
it. -/
structure Advances (b b' : Bridge) : Prop where
  key : b'.key = b.key
  model : b'.session.model = b.session.model
  calls : ∀ c ∈ b'.calls, c ∈ b.calls ∨ c.key = b.key ∧ c.request.model = b.session.model

theorem Keeps.advances {b b' : Bridge} (h : Keeps b b') : Advances b b' :=
  ⟨h.key, by rw [h.session], fun c hc => .inl (h.calls ▸ hc)⟩

theorem Advances.keeps {a b c : Bridge} (h : Advances a b) (h' : Keeps b c) : Advances a c :=
  ⟨h'.key.trans h.key, by rw [h'.session, h.model], fun x hx => h.calls x (h'.calls ▸ hx)⟩

/-- **A turn** hands over at most one request, for the session's model. -/
theorem runTurn_advances (b : Bridge) (override : ResponseOverride) :
    Advances b (b.runTurn env override).1 := by
  have hsent := send_keeps env b
    (ResponseScaffold.new ("resp_" ++ (b.requestId ++ "-t" ++ toString b.turn))
      ("msg_" ++ (b.requestId ++ "-t" ++ toString b.turn))).created
  unfold runTurn
  dsimp only
  split
  · rename_i b₁ h
    rw [h] at hsent
    exact hsent.advances
  · rename_i b₁ h
    rw [h] at hsent
    -- the request is in the log
    have hcall : Advances b { b₁ with calls := b₁.calls ++
        [.mk b₁.key (b.requestId ++ "-t" ++ toString b.turn) (b.session.buildChatRequest override)] } := by
      refine ⟨hsent.key, by rw [hsent.session], fun c hc => ?_⟩
      rcases List.mem_append.mp hc with hc | hc
      · exact .inl (hsent.calls ▸ hc)
      · rw [List.mem_singleton.mp hc]
        exact .inr ⟨hsent.key, rfl⟩
    split
    · exact hcall.keeps (send_keeps env _ _)
    · rename_i items _
      have hafter := hcall.keeps (streamTurn_keeps env items _
        (ResponseScaffold.new ("resp_" ++ (b.requestId ++ "-t" ++ toString b.turn))
          ("msg_" ++ (b.requestId ++ "-t" ++ toString b.turn))) .stop .zero)
      split
      · refine Advances.keeps ?_ (sendAll_keeps ..)
        split
        · exact ⟨hafter.key, hafter.model, hafter.calls⟩
        · exact hafter
      · exact hafter

theorem addMessage_advances (b : Bridge) (message : Message) (item : Value) :
    Advances b (b.addMessage env message item) :=
  ⟨rfl, rfl, fun _ hc => .inl hc⟩

/-- **One frame.** It sets the session's model to the one it names, if it names one, and hands over
requests for the model the session had. -/
theorem handleFrame_models (b : Bridge) (frame : IncomingFrame) :
    (b.handleFrame env frame).key = b.key ∧
    (b.handleFrame env frame).session.model =
      (patchedModel env frame).getD b.session.model ∧
    ∀ c ∈ (b.handleFrame env frame).calls,
      c ∈ b.calls ∨ c.key = b.key ∧ c.request.model = b.session.model := by
  have hadv : ∀ {b' : Bridge}, Advances b b' → b'.key = b.key ∧
      b'.session.model = (none : Option String).getD b.session.model ∧
      ∀ c ∈ b'.calls, c ∈ b.calls ∨ c.key = b.key ∧ c.request.model = b.session.model :=
    fun h => ⟨h.key, h.model, h.calls⟩
  cases frame with
  | binary => exact hadv (send_keeps env b _).advances
  | text t =>
    rw [handleFrame, patchedModel]
    cases env.fromStr t with
    | none => exact hadv (send_keeps env b _).advances
    | some value =>
      dsimp only [Option.map_some]
      cases parseClientEvent value with
      | sessionUpdate patch => exact ⟨rfl, rfl, fun c hc => .inl hc⟩
      | addUserMessage text => exact hadv (addMessage_advances env b _ _)
      | addFunctionOutput callId output => exact hadv (addMessage_advances env b _ _)
      | deleteItem id => exact hadv (Keeps.refl b).advances
      | cancel => exact hadv (Keeps.refl b).advances
      | other => exact hadv (Keeps.refl b).advances
      | audioUnsupported => exact hadv (send_keeps env b _).advances
      | create override =>
        rw [handleEvent]
        split
        · exact hadv (send_keeps env b _).advances
        · have hturn := runTurn_advances env { b with turn := b.turn + 1 } override
          exact hadv ⟨hturn.key, hturn.model, hturn.calls⟩

theorem step_model (b : Bridge) (frame : IncomingFrame) :
    (b.step env frame).session.model =
      if b.alive then (patchedModel env frame).getD b.session.model else b.session.model := by
  rw [step]
  split
  · exact (handleFrame_models env b frame).2.1
  · rfl

theorem step_calls (b : Bridge) (frame : IncomingFrame) :
    (b.step env frame).key = b.key ∧ ∀ c ∈ (b.step env frame).calls,
      c ∈ b.calls ∨ c.key = b.key ∧ c.request.model = b.session.model := by
  rw [step]
  split
  · exact ⟨(handleFrame_models env b frame).1, (handleFrame_models env b frame).2.2⟩
  · exact ⟨rfl, fun c hc => .inl hc⟩

end Bridge

/-! ## Authorized sessions -/

section

variable {K : Type} (state : AppState K) (authEnv : AuthEnv K) (token : String) (now : ℕ)
  (key : KeyId)

/-- All models of a session, the one it holds and those it has asked for, are permitted to the
caller. -/
structure Authorized (b : Bridge) : Prop where
  caller : b.key = key
  calls : ∀ c ∈ b.calls, c.key = key ∧ MayUse state authEnv token now key c.request.model
  model : MayUse state authEnv token now key b.session.model

/-- A frame, where the session still runs, names no model the caller may not use. -/
def NamesPermitted (env : SessionEnv) (b : Bridge) (frame : IncomingFrame) : Prop :=
  b.alive = true → ∀ m, patchedModel env frame = some m → MayUse state authEnv token now key m

variable {state authEnv token now key}

theorem Authorized.start {env : SessionEnv} {model requestId : String}
    (h : MayUse state authEnv token now key model) :
    Authorized state authEnv token now key (Bridge.start env key model requestId) where
  caller := rfl
  calls _ hc := absurd hc List.not_mem_nil
  model := h

/-- **Step.** A session stays authorized exactly when the frame names no forbidden model. -/
theorem Authorized.step_iff {env : SessionEnv} {b : Bridge} {frame : IncomingFrame}
    (h : Authorized state authEnv token now key b) :
    Authorized state authEnv token now key (b.step env frame) ↔
      NamesPermitted state authEnv token now key env b frame := by
  have hmodel := Bridge.step_model env b frame
  obtain ⟨hkey, hcalls⟩ := Bridge.step_calls env b frame
  constructor
  · intro h' halive m hm
    rw [if_pos halive, hm, Option.getD_some] at hmodel
    rw [← hmodel]
    exact h'.model
  · intro hnames
    refine ⟨hkey.trans h.caller, fun c hc => ?_, ?_⟩
    · rcases hcalls c hc with hc | ⟨hc, hm⟩
      · exact h.calls c hc
      · rw [hc, hm]
        exact ⟨h.caller, h.model⟩
    · rw [hmodel]
      split
      · rename_i halive
        cases hm : patchedModel env frame with
        | none => exact h.model
        | some m => exact hnames halive m hm
      · exact h.model

/-- **The models of a session.** After a handshake, every state reached is authorized exactly when
every `session.update` handled on the way names a model permitted to the caller, or none. -/
theorem models_authorized_iff {q : Option String} {model : String}
    (h : (realtimeWs state authEnv (some token) q now).1 = .ok (key, model)) {env : SessionEnv}
    {requestId : String} {tr : List (Runs.Step Bridge IncomingFrame)} {b : Bridge}
    (hr : Runs.Run (Bridge.system env) (Bridge.start env key model requestId) tr b) :
    (∀ x ∈ tr, Authorized state authEnv token now key x.post) ↔
      ∀ x ∈ tr, NamesPermitted state authEnv token now key env x.pre x.event := by
  refine hr.reached_iff (C := NamesPermitted state authEnv token now key env)
    (.start (realtimeWs_ok h)) fun t e t' ht hs => ?_
  rw [show t' = t.step env e from hs]
  exact ht.step_iff

end

/-! ## A session that leaves the allow-list -/

/-- The bearer of `KeyNode.narrowStore`'s key. -/
def narrowToken : String := "bmFycm93OnMzY3JldA=="

/-- A node whose one key may use `gpt-4o` only. -/
def narrowState : AppState Unit := ⟨KeyNode.narrowStore, none⟩

def narrowEnv : AuthEnv Unit where
  verify := KeyNode.verifyStored
  idp := ⟨fun _ => none, fun _ _ => none, none⟩
  evict := .id _

/-- The two texts of the client, with their documents. -/
def upgradeText : String :=
  "\x7b\"type\":\"session.update\",\"session\":\x7b\"model\":\"o3\"\x7d\x7d"

def createText : String := "\x7b\"type\":\"response.create\"\x7d"

/-- A parser for the two texts, a socket that takes every frame and an engine without an answer. -/
def upgradeEnv : SessionEnv where
  fromStr t :=
    if t = upgradeText then
      some (.obj [("type", .string "session.update"), ("session", .obj [("model", .string "o3")])])
    else if t = createText then some (.obj [("type", .string "response.create")])
    else none
  accepts _ := true
  run _ _ := .ok []

/-- The client asks for another model, then for a response. -/
def upgrade : List IncomingFrame := [.text upgradeText, .text createText]

theorem update_leaves_allow_list :
    let b := upgrade.foldl (Bridge.step upgradeEnv) (Bridge.start upgradeEnv "narrow" "gpt-4o" "r1")
    (realtimeWs narrowState narrowEnv (some narrowToken) (some "gpt-4o") 0).1 =
      .ok ("narrow", "gpt-4o") ∧
    (narrowState.authorizeToken narrowEnv narrowToken "o3" 0).1 = .error .modelNotAllowed ∧
    b.session.model = "o3" ∧
    b.calls.map (fun c => (c.key, c.request.model)) = [("narrow", "o3")] ∧
    ¬ Authorized narrowState narrowEnv narrowToken 0 "narrow" b := by
  have hmodel : ¬ MayUse narrowState narrowEnv narrowToken 0 "narrow"
      (upgrade.foldl (Bridge.step upgradeEnv)
        (Bridge.start upgradeEnv "narrow" "gpt-4o" "r1")).session.model := by
    decide +kernel
  exact ⟨by decide +kernel, by decide +kernel, by decide +kernel, by decide +kernel,
    fun h => hmodel h.model⟩

theorem models_authorized_iff_upgrade :
    (∀ x ∈ Runs.trace (Bridge.step upgradeEnv) (Bridge.start upgradeEnv "narrow" "gpt-4o" "r1")
      upgrade, Authorized narrowState narrowEnv narrowToken 0 "narrow" x.post) ↔
    ∀ x ∈ Runs.trace (Bridge.step upgradeEnv) (Bridge.start upgradeEnv "narrow" "gpt-4o" "r1")
      upgrade, NamesPermitted narrowState narrowEnv narrowToken 0 "narrow" upgradeEnv x.pre x.event :=
  models_authorized_iff (q := some "gpt-4o") (by decide +kernel) (Runs.Run.exec _ _ _ upgrade)

end Llmleaf.Realtime
