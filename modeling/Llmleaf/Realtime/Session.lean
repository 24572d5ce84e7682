import Llmleaf.Lib.Runs
import Llmleaf.Realtime.Wire

/-!
# The realtime bridge

A stateful session in front of the stateless chat pipeline. Client frames change the session; a
`response.create` builds a chat request from it, hands it to the engine and frames the answer. The
session ends when the consumer's socket no longer takes a frame.

Outside the session are the JSON parser, the socket and the engine (`SessionEnv`).

- `handleFrame`: one client frame; `runTurn`: one turn.
- `system`: the sessions over any sequence of frames; `runBridgeReplaying_eq`: the loop over replayed
  and live messages is such a run.
-/

namespace Llmleaf.Realtime

open Value

/-- The accumulated state of a session. -/
structure BridgeSession where
  model : String
  instructions : Option String
  messages : List Message
  tools : List ToolDef
  toolChoice : Option ToolChoice
  maxTokens : Option ℕ
  textOnly : Bool
  extra : Map
  itemSeq : ℕ
  deriving DecidableEq

namespace BridgeSession

def new (model : String) : BridgeSession := ⟨model, none, [], [], none, none, true, [], 0⟩

/-- Apply a patch: only the fields it names change. -/
def apply (self : BridgeSession) (patch : SessionPatch) : BridgeSession where
  model := patch.model.getD self.model
  instructions := patch.instructions.or self.instructions
  messages := self.messages
  tools := patch.tools.getD self.tools
  toolChoice := patch.toolChoice.or self.toolChoice
  maxTokens :=
    match patch.maxOutputTokens with
    | some (.num n) => some n
    | some .inf => none
    | none => self.maxTokens
  textOnly :=
    match patch.outputModalities with
    | some m => !m.any (· == "audio")
    | none => self.textOnly
  extra := patch.extra.foldl (fun m e => m.insert e.1 e.2) self.extra
  itemSeq := self.itemSeq

/-- Whether a turn asks for audio. -/
def wantsAudio (self : BridgeSession) (override : ResponseOverride) : Bool :=
  match override.outputModalities with
  | some m => m.any (· == "audio")
  | none => !self.textOnly

/-- The chat request of a turn. -/
def buildChatRequest (self : BridgeSession) (override : ResponseOverride) : ChatRequest where
  model := self.model
  messages :=
    (match override.instructions.or self.instructions with
      | some sys => [Message.ofText .system sys]
      | none => []) ++ self.messages
  maxTokens :=
    match override.maxOutputTokens with
    | some (.num n) => some n
    | some .inf => none
    | none => self.maxTokens
  temperature := none
  topP := none
  stop := []
  stream := true
  tools := override.tools.getD self.tools
  toolChoice := override.toolChoice.or self.toolChoice
  thinking := none
  extra := self.extra

/-- A tool as the dialect writes it. -/
def toolToRealtime (t : ToolDef) : Value :=
  obj [("type", string "function"), ("name", string t.name),
    ("description", ofOption t.description), ("parameters", t.parameters)]

def toolChoiceToRealtime : Option ToolChoice → Value
  | some .auto | none => string "auto"
  | some .none => string "none"
  | some .required => string "required"
  | some (.named name) => obj [("type", string "function"), ("name", string name)]

/-- The session as the consumer sees it. -/
def sessionObject (self : BridgeSession) : Value :=
  obj [("object", string "realtime.session"), ("type", string "realtime"),
    ("model", string self.model),
    ("output_modalities", array [string (if self.textOnly then "text" else "audio")]),
    ("instructions", string (self.instructions.getD "")),
    ("tools", array (self.tools.map toolToRealtime)),
    ("tool_choice", toolChoiceToRealtime self.toolChoice),
    ("max_output_tokens", (self.maxTokens.map nat).getD (string "inf"))]

def sessionFrame (self : BridgeSession) (ty : String) : Value :=
  obj [("type", string ty), ("session", self.sessionObject)]

/-- The id of the next item. -/
def nextItemId (self : BridgeSession) : String := "item_" ++ toString (self.itemSeq + 1)

/-- Echo a created item. -/
def itemAdded (self : BridgeSession) (item : Value) : BridgeSession × Value :=
  ({ self with itemSeq := self.itemSeq + 1 },
    obj [("type", string "conversation.item.added"), ("item", item)])

end BridgeSession

/-! ## The session loop -/

/-- What a session does not control. -/
structure SessionEnv where
  /-- The document of a text, if it is JSON. -/
  fromStr : String → Option Value
  /-- Whether the socket takes the `n`th frame. -/
  accepts : ℕ → Bool
  /-- The engine's answer in the `n`th turn. -/
  run : ℕ → ChatRequest → Except EngineError (List (Except ModelError StreamChunk))

/-- A request handed to the engine. -/
structure EngineCall where
  key : String
  requestId : String
  request : ChatRequest
  deriving DecidableEq

/-- A bridged session: its state, the frames offered to the socket, the requests handed over, and
whether the socket still takes frames. -/
structure Bridge where
  key : String
  requestId : String
  session : BridgeSession
  turn : ℕ
  sent : List Value
  calls : List EngineCall
  alive : Bool
  deriving DecidableEq

/-- A client frame; a binary one has nothing the bridge can use. -/
inductive IncomingFrame where
  | text (text : String)
  | binary
  deriving DecidableEq

namespace Bridge

/-- Offer a frame to the socket. -/
def send (env : SessionEnv) (b : Bridge) (frame : Value) : Bridge × Bool :=
  ({ b with sent := b.sent ++ [frame] }, env.accepts b.sent.length)

/-- Offer frames up to the first the socket does not take. -/
def sendAll (env : SessionEnv) : Bridge → List Value → Bridge × Bool
  | b, [] => (b, true)
  | b, frame :: frames =>
    match b.send env frame with
    | (b, true) => sendAll env b frames
    | (b, false) => (b, false)

/-- Offer a frame; the session ends if the socket does not take it. -/
def sendOrBreak (env : SessionEnv) (b : Bridge) (frame : Value) : Bridge :=
  let r := b.send env frame
  { r.1 with alive := r.2 }

/-- What a stream has left behind. -/
structure Streamed where
  bridge : Bridge
  scaffold : ResponseScaffold
  reason : FinishReason
  usage : Usage
  alive : Bool

/-- Frame a stream up to its end, its first error or a dead socket. -/
def streamTurn (env : SessionEnv) (b : Bridge) (scaffold : ResponseScaffold)
    (reason : FinishReason) (usage : Usage) : List (Except ModelError StreamChunk) → Streamed
  | [] => ⟨b, scaffold, reason, usage, true⟩
  | .error e :: _ =>
    ⟨(b.send env (errorFrame "upstream_error" e.text)).1, scaffold, .error, usage, true⟩
  | .ok chunk :: items =>
    let usage :=
      match chunk with
      | .usage u => u
      | _ => usage
    let reason :=
      match chunk with
      | .finish _ r => r
      | _ => reason
    let (scaffold, frames) := scaffold.onChunk chunk
    match b.sendAll env frames with
    | (b, true) => streamTurn env b scaffold reason usage items
    | (b, false) => ⟨b, scaffold, reason, usage, false⟩

/-- Run one turn; `false` if the socket has died. -/
def runTurn (env : SessionEnv) (b : Bridge) (override : ResponseOverride) : Bridge × Bool :=
  let rid := b.requestId ++ "-t" ++ toString b.turn
  let req := b.session.buildChatRequest override
  let scaffold := ResponseScaffold.new ("resp_" ++ rid) ("msg_" ++ rid)
  match b.send env scaffold.created with
  | (b, false) => (b, false)
  | (b, true) =>
    let b := { b with calls := b.calls ++ [EngineCall.mk b.key rid req] }
    match env.run b.turn req with
    | .error e => ((b.send env (errorFrame "upstream_error" e.text)).1, true)
    | .ok items =>
      let s := b.streamTurn env scaffold .stop .zero items
      if s.alive then
        let b :=
          if override.persist then
            { s.bridge with session :=
                { s.bridge.session with
                  messages := s.bridge.session.messages ++ [s.scaffold.assistantMessage] } }
          else s.bridge
        b.sendAll env (s.scaffold.finish s.reason s.usage)
      else (s.bridge, false)

/-- Add a message to the history and echo its item. -/
def addMessage (env : SessionEnv) (b : Bridge) (message : Message) (item : Value) : Bridge :=
  let session := { b.session with messages := b.session.messages ++ [message] }
  let (session, frame) := session.itemAdded item
  { b with session := session }.sendOrBreak env frame

/-- Act on a client event. -/
def handleEvent (env : SessionEnv) (b : Bridge) : ClientEvent → Bridge
  | .sessionUpdate patch =>
    let session := b.session.apply patch
    { b with session := session }.sendOrBreak env (session.sessionFrame "session.updated")
  | .addUserMessage text =>
    b.addMessage env (.ofText .user text)
      (obj [("id", string b.session.nextItemId), ("object", string "realtime.item"),
        ("type", string "message"), ("role", string "user"),
        ("content", array [obj [("type", string "input_text"), ("text", string text)]])])
  | .addFunctionOutput callId output =>
    b.addMessage env
      { role := .tool
        content := [.text output]
        toolCalls := []
        toolCallId := some callId
        name := none }
      (obj [("id", string b.session.nextItemId), ("object", string "realtime.item"),
        ("type", string "function_call_output"), ("call_id", string callId),
        ("output", string output)])
  | .deleteItem _ | .cancel | .other => b
  | .audioUnsupported =>
    (b.send env (errorFrame "unsupported_modality"
      "audio is not available for the routed provider")).1
  | .create override =>
    if b.session.wantsAudio override then
      (b.send env (errorFrame "unsupported_modality"
        ("audio output is not available for the routed provider; " ++
          "set output_modalities to [\"text\"]"))).1
    else
      let r := { b with turn := b.turn + 1 }.runTurn env override
      { r.1 with alive := r.2 }

/-- Handle one client frame. -/
def handleFrame (env : SessionEnv) (b : Bridge) : IncomingFrame → Bridge
  | .binary =>
    (b.send env (errorFrame "unsupported_modality"
      "audio input is not available for the routed provider")).1
  | .text text =>
    match env.fromStr text with
    | none => (b.send env (errorFrame "invalid_request_error" "frame is not valid JSON")).1
    | some value => b.handleEvent env (parseClientEvent value)

/-- The next frame of a session, if the session still runs. -/
def step (env : SessionEnv) (b : Bridge) (frame : IncomingFrame) : Bridge :=
  if b.alive then b.handleFrame env frame else b

/-- A session that has offered `session.created`. -/
def start (env : SessionEnv) (key model requestId : String) : Bridge :=
  let b : Bridge :=
    { key := key
      requestId := requestId
      session := .new model
      turn := 0
      sent := []
      calls := []
      alive := true }
  b.sendOrBreak env (b.session.sessionFrame "session.created")

/-- The sessions a handshake can open, over any frames. -/
def system (env : SessionEnv) : Runs.Sys Bridge IncomingFrame :=
  .ofFun (fun b => ∃ key model requestId, b = start env key model requestId) (step env)

end Bridge

/-! ## Replayed and live messages -/

/-- A buffered message of the native path. -/
inductive RealtimeWire where
  | text (text : String)
  | binary (bytes : List UInt8)
  | close

/-- What the socket receives. -/
inductive WsMessage where
  | text (text : String)
  | binary (bytes : List UInt8)
  | close
  | ping
  | pong
  | frame

/-- The loop over the buffered messages. -/
def replayLoop (env : SessionEnv) : Bridge → List RealtimeWire → Bridge
  | b, [] => b
  | b, wire :: wires =>
    match wire with
    | .close => replayLoop env b wires
    | .text t =>
      let b := b.handleFrame env (.text t)
      if b.alive then replayLoop env b wires else b
    | .binary _ =>
      let b := b.handleFrame env .binary
      if b.alive then replayLoop env b wires else b

/-- The loop over what the socket receives, `none` for an error. -/
def liveLoop (env : SessionEnv) : Bridge → List (Option WsMessage) → Bridge
  | b, [] => b
  | b, incoming :: rest =>
    match incoming with
    | none | some .close => b
    | some .ping | some .pong | some .frame => liveLoop env b rest
    | some (.text t) =>
      let b := b.handleFrame env (.text t)
      if b.alive then liveLoop env b rest else b
    | some (.binary _) =>
      let b := b.handleFrame env .binary
      if b.alive then liveLoop env b rest else b

/-- The session over buffered messages, then live ones. -/
def runBridgeReplaying (env : SessionEnv) (key model requestId : String)
    (replay : List RealtimeWire) (live : List (Option WsMessage)) : Bridge :=
  let b := Bridge.start env key model requestId
  if b.alive then
    let b := replayLoop env b replay
    if b.alive then liveLoop env b live else b
  else b

/-- The client frame of a buffered message. -/
def RealtimeWire.toFrame : RealtimeWire → Option IncomingFrame
  | text t => some (.text t)
  | binary _ => some .binary
  | close => none

/-- Whether the socket's loop ends with a message. -/
def isEnd : Option WsMessage → Bool
  | none | some .close => true
  | _ => false

/-- The client frame of a received message. -/
def liveFrame : Option WsMessage → Option IncomingFrame
  | some (.text t) => some (.text t)
  | some (.binary _) => some .binary
  | _ => none

/-- The client frames of a session. -/
def framesOf (replay : List RealtimeWire) (live : List (Option WsMessage)) : List IncomingFrame :=
  replay.filterMap RealtimeWire.toFrame ++ (live.takeWhile fun m => !isEnd m).filterMap liveFrame

/-- A dead session stays as it is. -/
theorem foldl_step_dead {env : SessionEnv} {b : Bridge} (h : b.alive = false)
    (frames : List IncomingFrame) : frames.foldl (Bridge.step env) b = b := by
  induction frames with
  | nil => rfl
  | cons frame frames ih =>
    rw [List.foldl_cons, Bridge.step, if_neg (by rw [h]; exact Bool.false_ne_true)]
    exact ih

/-- The first of some frames, in a live session. -/
theorem foldl_step_cons {env : SessionEnv} {b : Bridge} (h : b.alive = true) (frame : IncomingFrame)
    (frames : List IncomingFrame) :
    (frame :: frames).foldl (Bridge.step env) b =
      if (b.handleFrame env frame).alive then
        frames.foldl (Bridge.step env) (b.handleFrame env frame)
      else b.handleFrame env frame := by
  rw [List.foldl_cons, Bridge.step, if_pos h]
  split
  · rfl
  · rename_i hdead
    exact foldl_step_dead (Bool.eq_false_iff.mpr hdead) frames

/-- A live session goes on with the frames that are left, a dead one does not. -/
theorem loop_congr {b r s : Bridge} (h : b.alive = true → r = s) :
    (if b.alive then r else b) = if b.alive then s else b := by
  cases ha : b.alive with
  | true => exact h ha
  | false => rfl

theorem replayLoop_eq {env : SessionEnv} (wires : List RealtimeWire) {b : Bridge}
    (h : b.alive = true) :
    replayLoop env b wires = (wires.filterMap RealtimeWire.toFrame).foldl (Bridge.step env) b := by
  induction wires generalizing b with
  | nil => rfl
  | cons wire wires ih =>
    cases wire with
    | close => exact ih h
    | text t => exact (loop_congr ih).trans (foldl_step_cons h (.text t) _).symm
    | binary bytes => exact (loop_congr ih).trans (foldl_step_cons h .binary _).symm

theorem liveLoop_eq {env : SessionEnv} (live : List (Option WsMessage)) {b : Bridge}
    (h : b.alive = true) :
    liveLoop env b live =
      ((live.takeWhile fun m => !isEnd m).filterMap liveFrame).foldl (Bridge.step env) b := by
  induction live generalizing b with
  | nil => rfl
  | cons incoming live ih =>
    cases incoming with
    | none => rfl
    | some msg =>
      cases msg with
      | close => rfl
      | ping | pong | frame => exact ih h
      | text t => exact (loop_congr ih).trans (foldl_step_cons h (.text t) _).symm
      | binary bytes => exact (loop_congr ih).trans (foldl_step_cons h .binary _).symm

/-- **The session loop is a run** over the replayed and then the live frames. -/
theorem runBridgeReplaying_eq (env : SessionEnv) (key model requestId : String)
    (replay : List RealtimeWire) (live : List (Option WsMessage)) :
    runBridgeReplaying env key model requestId replay live =
      (framesOf replay live).foldl (Bridge.step env) (Bridge.start env key model requestId) := by
  rw [runBridgeReplaying, framesOf, List.foldl_append]
  cases hstart : (Bridge.start env key model requestId).alive with
  | false =>
    rw [foldl_step_dead hstart, foldl_step_dead hstart]
    rfl
  | true =>
    rw [if_pos rfl, replayLoop_eq replay hstart]
    generalize (replay.filterMap RealtimeWire.toFrame).foldl (Bridge.step env) _ = b
    dsimp only
    cases hb : b.alive with
    | false => rw [foldl_step_dead hb, if_neg Bool.false_ne_true]
    | true => rw [if_pos rfl, liveLoop_eq live hb]

end Llmleaf.Realtime
