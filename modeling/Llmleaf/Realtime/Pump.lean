import Llmleaf.Lifecycle
import Llmleaf.Realtime.Session

/-!
# The native realtime pump

A native session joins two processes by two bounded channels. The core pumps between the consumer's
socket and the channels, the provider between the channels and the upstream's socket. Each waits for
whichever side has something, and while it passes that on it takes nothing from either. Until the
provider's first frame the core probes: it buffers the consumer's frames, to replay them on the
chat bridge should the provider fail. At the end the core sends a close and awaits the provider.

A step is one of these waits being over. What the sockets do, and in which order, is free; a task
that panics is not modelled.

- `NativeSession.step`: the next step of the core, the provider or a socket.
- `Stuck`: the core waits for the provider, and the provider for the core; `run_deadlock_iff`: these
  are the states without a next step, but for the finished ones.
- **Result** (`never_stuck_iff`): which steps a run has to avoid to never get stuck.
- `finished_events`: the events of a session are those of its lifecycle.
-/

namespace Llmleaf.Realtime

open Value

/-! ## The processes -/

/-- The capacity of a channel. -/
def channelCapacity : ℕ := 64

/-- The most bytes buffered for a replay. -/
def maxRealtimeReplayBytes : ℕ := 8 * 1024 * 1024

/-- How a session ends. -/
inductive NativeOutcome where
  | completed
  | failed (error : String)
  /-- On the chat bridge, with the frames to replay. -/
  | fellBack (replay : List RealtimeWire)

/-- The ending of the lifecycle. The turns of the bridge have events of their own. -/
def NativeOutcome.ending : NativeOutcome → NativeEnd
  | .completed => .completed
  | .failed error => .failed error
  | .fellBack _ => .fellBack []

/-- What the core is waiting for. -/
inductive CorePhase where
  /-- A frame of either side, before the provider has sent any. -/
  | probe
  /-- Room for a frame of the consumer, while probing. -/
  | probeSend (wire : RealtimeWire)
  /-- The result of a provider that has ended without a frame. -/
  | probeEnded
  /-- The end of the canceled provider. -/
  | canceling
  /-- The consumer to take a frame. -/
  | forward (wire : RealtimeWire)
  /-- A frame of either side. -/
  | pump
  /-- Room for a frame of the consumer. -/
  | pumpSend (wire : RealtimeWire)
  /-- Room for the close. -/
  | closing
  /-- The end of the provider. -/
  | awaiting
  | done (outcome : NativeOutcome)

/-- What the provider is waiting for. -/
inductive ProviderPhase where
  | connecting
  /-- A frame of either side. -/
  | pump
  /-- The upstream to take a frame. -/
  | write (wire : RealtimeWire)
  /-- Room for a frame of the upstream. -/
  | send (wire : RealtimeWire)
  /-- Room for the upstream's close. -/
  | sendClose
  /-- The upstream to take the close. -/
  | writeClose
  | returned (result : Except ModelError Unit)

/-- What the upstream's socket yields. -/
inductive UpstreamFrame where
  | text (text : String)
  | binary (bytes : List UInt8)
  | close
  /-- A ping, a pong or a raw frame. -/
  | control
  | error (text : String)
  | ended

/-- What the pumps rest on, and whom the session is for. -/
structure NativeEnv where
  /-- The document of a text, if it is JSON. -/
  fromStr : String → Option Value
  price : String → Usage → Usage
  requestId : String
  key : String
  model : String
  provider : String
  upstreamModel : String

/-- A native session. -/
structure NativeSession where
  core : CorePhase
  provider : ProviderPhase
  /-- The frames on their way to the provider. -/
  inbound : List RealtimeWire
  /-- The frames on their way to the core. -/
  outbound : List RealtimeWire
  replay : List RealtimeWire
  replayBytes : ℕ
  replayOverflow : Bool
  /-- The usage each forwarded frame reports. -/
  forwarded : List (Option Usage)
  emitted : List Event

/-- What happens next. -/
inductive NativeEvent where
  /-- The consumer's socket yields a message, `none` for an error or its end. -/
  | receive (msg : Option WsMessage)
  /-- The consumer's socket has taken a frame, or failed to. -/
  | delivered (ok : Bool)
  /-- The core finds a frame of the provider, or that there will be none. -/
  | coreRecv
  /-- The core's send to the provider is over. -/
  | coreSend
  /-- The provider's task is over. -/
  | coreJoin
  /-- The provider's connection is up, or has failed. -/
  | connect (result : Except ModelError Unit)
  /-- The provider finds a frame of the core, or that there will be none. -/
  | providerRecv
  /-- The provider's send to the core is over. -/
  | providerSend
  | upstream (frame : UpstreamFrame)
  /-- The upstream's socket has taken a frame, or failed to. -/
  | written (ok : Bool)

/-- The usage a server frame reports. -/
def usageFromServerFrame (fromStr : String → Option Value) (text : String) : Option Usage :=
  match fromStr text with
  | none => none
  | some v =>
    if (v.get "type").bind asStr ≠ some "response.done" then none
    else
      ((v.get "response").bind (·.get "usage")).map fun usage =>
        { promptTokens := ((usage.get "input_tokens").bind asU64).getD 0
          completionTokens := ((usage.get "output_tokens").bind asU64).getD 0
          totalTokens := ((usage.get "total_tokens").bind asU64).getD 0
          costUsd := none
          cacheReadTokens := 0
          cacheCreationTokens := 0 }

namespace ProviderPhase

/-- The provider has dropped its ends of the channels. -/
def ended : ProviderPhase → Bool
  | returned _ => true
  | _ => false

end ProviderPhase

namespace CorePhase

/-- The core has dropped its ends of the channels. -/
def ended : CorePhase → Bool
  | done _ => true
  | _ => false

end CorePhase

namespace NativeSession

variable (env : NativeEnv)

/-- Whether the core's send is over: there is room, or no receiver. -/
def inboundReady (s : NativeSession) : Bool :=
  s.provider.ended || decide (s.inbound.length < channelCapacity)

/-- Whether the provider's send is over. -/
def outboundReady (s : NativeSession) : Bool :=
  s.core.ended || decide (s.outbound.length < channelCapacity)

/-- A frame of the consumer goes to the provider, and into the replay as long as it has room. -/
def probeFrame (s : NativeSession) (wire : RealtimeWire) (len : ℕ) : NativeSession :=
  let replayBytes := s.replayBytes + len
  if s.replayOverflow || decide (maxRealtimeReplayBytes < replayBytes) then
    { s with
      core := .probeSend wire
      replayBytes := replayBytes
      replayOverflow := true }
  else
    { s with
      core := .probeSend wire
      replay := s.replay ++ [wire]
      replayBytes := replayBytes }

/-- The usage a frame of the provider reports. -/
def wireUsage : RealtimeWire → Option Usage
  | .text t => usageFromServerFrame env.fromStr t
  | .binary _ | .close => none

/-- Begin to forward a frame of the provider: its usage is tapped. -/
def forwardNativeWire (s : NativeSession) (wire : RealtimeWire) : NativeSession :=
  let usage := wireUsage env wire
  { s with
    core := .forward wire
    forwarded := s.forwarded ++ [usage]
    emitted := s.emitted ++ usage.toList.map fun u =>
      .usage env.requestId env.key env.model (env.price env.model u) }

/-- The session is over. -/
def finish (s : NativeSession) (outcome : NativeOutcome) : NativeSession :=
  { s with
    core := .done outcome
    emitted := s.emitted ++
      match outcome with
      | .completed | .fellBack _ => [.requestCompleted env.requestId none]
      | .failed error => [.requestFailed env.requestId error] }

/-- The core meets a message of the consumer. -/
def receive (s : NativeSession) (msg : Option WsMessage) : Option NativeSession :=
  match s.core, msg with
  | .probe, some (.text t) => some (s.probeFrame (.text t) t.utf8ByteSize)
  | .probe, some (.binary b) => some (s.probeFrame (.binary b) b.length)
  | .probe, some .close | .probe, none => some { s with core := .canceling }
  | .probe, some .ping | .probe, some .pong | .probe, some .frame => some s
  | .pump, some (.text t) => some { s with core := .pumpSend (.text t) }
  | .pump, some (.binary b) => some { s with core := .pumpSend (.binary b) }
  | .pump, some .close | .pump, none => some { s with core := .closing }
  | .pump, some .ping | .pump, some .pong | .pump, some .frame => some s
  | _, _ => none

/-- The core meets a frame of the provider. -/
def coreRecv (s : NativeSession) : Option NativeSession :=
  match s.core, s.outbound with
  | .probe, wire :: rest | .pump, wire :: rest =>
    some ({ s with outbound := rest }.forwardNativeWire env wire)
  | .probe, [] => if s.provider.ended then some { s with core := .probeEnded } else none
  | .pump, [] => if s.provider.ended then some { s with core := .closing } else none
  | _, _ => none

/-- A frame has been sent to the consumer. -/
def delivered (s : NativeSession) (ok : Bool) : Option NativeSession :=
  match s.core with
  | .forward .close => some { s with core := .closing }
  | .forward _ => some { s with core := if ok then .pump else .closing }
  | _ => none

/-- A frame for the provider; without a receiver it is gone. -/
def sendInbound (s : NativeSession) (wire : RealtimeWire) : NativeSession :=
  if s.provider.ended then s else { s with inbound := s.inbound ++ [wire] }

/-- A frame for the core; without a receiver it is gone. -/
def sendOutbound (s : NativeSession) (wire : RealtimeWire) : NativeSession :=
  if s.core.ended then s else { s with outbound := s.outbound ++ [wire] }

/-- The core's send is over. -/
def coreSend (s : NativeSession) : Option NativeSession :=
  match s.inboundReady, s.core with
  | true, .probeSend wire => some { s.sendInbound wire with core := .probe }
  | true, .pumpSend wire =>
    some { s.sendInbound wire with core := if s.provider.ended then .closing else .pump }
  | true, .closing => some { s.sendInbound .close with core := .awaiting }
  | _, _ => none

/-- The provider's task has ended, or been canceled. -/
def coreJoin (s : NativeSession) : Option NativeSession :=
  match s.core, s.provider with
  | .canceling, _ => some (s.finish env .completed)
  | .probeEnded, .returned (.ok ()) => some (s.finish env .completed)
  | .probeEnded, .returned (.error _) =>
    some <| s.finish env <|
      if s.replayOverflow then
        .failed "realtime probe exceeded its replay buffer before the upstream produced a frame"
      else .fellBack s.replay
  | .awaiting, .returned (.ok ()) => some (s.finish env .completed)
  | .awaiting, .returned (.error e) => some (s.finish env (.failed e.text))
  | _, _ => none

/-- The provider connects. -/
def connect (s : NativeSession) (result : Except ModelError Unit) : Option NativeSession :=
  match s.provider, result with
  | .connecting, .ok () => some { s with provider := .pump }
  | .connecting, .error e => some { s with provider := .returned (.error e) }
  | _, _ => none

/-- The provider meets a frame of the core. -/
def providerRecv (s : NativeSession) : Option NativeSession :=
  match s.provider, s.inbound with
  | .pump, .close :: rest => some { s with provider := .writeClose, inbound := rest }
  | .pump, wire :: rest => some { s with provider := .write wire, inbound := rest }
  | .pump, [] => if s.core.ended then some { s with provider := .writeClose } else none
  | _, _ => none

/-- The provider meets a frame of the upstream. -/
def upstream (s : NativeSession) (frame : UpstreamFrame) : Option NativeSession :=
  match s.provider, frame with
  | .pump, .text t => some { s with provider := .send (.text t) }
  | .pump, .binary b => some { s with provider := .send (.binary b) }
  | .pump, .close | .pump, .ended => some { s with provider := .sendClose }
  | .pump, .control => some s
  | .pump, .error e =>
    some { s with provider := .returned (.error (.unavailable ("realtime upstream: " ++ e))) }
  | _, _ => none

/-- A frame has been sent to the upstream. -/
def written (s : NativeSession) (ok : Bool) : Option NativeSession :=
  match s.provider with
  | .write _ => some { s with provider := if ok then .pump else .returned (.ok ()) }
  | .writeClose => some { s with provider := .returned (.ok ()) }
  | _ => none

/-- The provider's send is over. -/
def providerSend (s : NativeSession) : Option NativeSession :=
  match s.outboundReady, s.provider with
  | true, .send wire =>
    some
      { s.sendOutbound wire with
        provider := if s.core.ended then .returned (.ok ()) else .pump }
  | true, .sendClose => some { s.sendOutbound .close with provider := .returned (.ok ()) }
  | _, _ => none

/-- The next state, for an event that can happen. -/
def step (s : NativeSession) : NativeEvent → Option NativeSession
  | .receive msg => s.receive msg
  | .delivered ok => s.delivered ok
  | .coreRecv => s.coreRecv env
  | .coreSend => s.coreSend
  | .coreJoin => s.coreJoin env
  | .connect result => s.connect result
  | .providerRecv => s.providerRecv
  | .providerSend => s.providerSend
  | .upstream frame => s.upstream frame
  | .written ok => s.written ok

/-- A session before its first step. -/
def start : NativeSession where
  core := .probe
  provider := .connecting
  inbound := []
  outbound := []
  replay := []
  replayBytes := 0
  replayOverflow := false
  forwarded := []
  emitted := [.requestStarted env.requestId env.key env.model none,
    .requestRouted env.requestId env.provider env.upstreamModel]

def system : Runs.Sys NativeSession NativeEvent := .ofOption (· = start env) (step env)

/-! ## Waiting for each other -/

/-- The core waits for the provider: for room in the inbound channel, or for its end. -/
def coreHeld (s : NativeSession) : Bool :=
  match s.core with
  | .probeSend _ | .pumpSend _ | .closing => !s.inboundReady
  | .probeEnded | .awaiting => !s.provider.ended
  | _ => false

/-- The provider waits for the core: for room in the outbound channel. -/
def providerHeld (s : NativeSession) : Bool :=
  match s.provider with
  | .send _ | .sendClose => !s.outboundReady
  | _ => false

/-- The core and the provider wait for each other. -/
def Stuck (s : NativeSession) : Prop := s.coreHeld = true ∧ s.providerHeld = true

instance (s : NativeSession) : Decidable s.Stuck := inferInstanceAs (Decidable (_ ∧ _))

/-- With this event the core takes on a frame or the close for the inbound channel. -/
def coreSends (s : NativeSession) : NativeEvent → Bool
  | .receive (some (.text _)) | .receive (some (.binary _)) => true
  | .receive (some .close) | .receive none =>
    match s.core with
    | .pump => true
    | _ => false
  | .delivered ok =>
    match s.core with
    | .forward .close => true
    | _ => !ok
  | _ => false

/-- With this event the provider takes on a frame or the close for the outbound channel. -/
def providerSends : NativeEvent → Bool
  | .upstream (.text _) | .upstream (.binary _) | .upstream .close | .upstream .ended => true
  | _ => false

/-- A step makes neither process wait for the other while that one waits for it. -/
structure Clear (s : NativeSession) (e : NativeEvent) : Prop where
  /-- The core takes on nothing for a full inbound channel while the provider waits. -/
  inbound : s.coreSends e = true → s.inboundReady = false → s.providerHeld = false
  /-- The close does not go in while the provider waits. -/
  close : e = .coreSend → s.core = .closing → s.providerHeld = false
  /-- The provider takes on nothing for a full outbound channel while the core waits. -/
  outbound : providerSends e = true → s.outboundReady = false → s.coreHeld = false

variable {env} {s t : NativeSession}

theorem not_stuck_of_core (h : t.coreHeld = false) : ¬ t.Stuck := fun hs => by
  rw [Stuck, h] at hs
  exact Bool.false_ne_true hs.1

theorem not_stuck_of_provider (h : t.providerHeld = false) : ¬ t.Stuck := fun hs => by
  rw [Stuck, h] at hs
  exact Bool.false_ne_true hs.2

/-- A step with which neither process takes on anything is clear. -/
theorem clear_of_idle {e : NativeEvent} (hcore : s.coreSends e = false)
    (hclose : e = .coreSend → s.core ≠ .closing) (hprovider : providerSends e = false) :
    s.Clear e where
  inbound h := by rw [hcore] at h; cases h
  close h hc := absurd hc (hclose h)
  outbound h := by rw [hprovider] at h; cases h

theorem probeFrame_eq (s : NativeSession) (wire : RealtimeWire) (len : ℕ) :
    ∃ replay overflow, s.probeFrame wire len =
      { s with
        core := .probeSend wire
        replay := replay
        replayBytes := s.replayBytes + len
        replayOverflow := overflow } := by
  unfold probeFrame
  dsimp only
  split
  · exact ⟨s.replay, true, rfl⟩
  · exact ⟨s.replay ++ [wire], s.replayOverflow, rfl⟩

/-- Where the core alone may begin to wait, the step is clear exactly if it does not get stuck. -/
theorem clear_iff_of_core {e : NativeEvent} (he : e ≠ .coreSend) (hp : providerSends e = false)
    (hcore : t.coreHeld = (s.coreSends e && !s.inboundReady))
    (hprovider : t.providerHeld = s.providerHeld) : ¬ t.Stuck ↔ s.Clear e := by
  rw [Stuck, hcore, hprovider, Bool.and_eq_true, Bool.not_eq_true']
  constructor
  · intro h
    refine ⟨fun hsends hready => ?_, fun hc => absurd hc he, fun hs => ?_⟩
    · exact Bool.eq_false_iff.mpr fun hheld => h ⟨⟨hsends, hready⟩, hheld⟩
    · rw [hp] at hs
      cases hs
  · rintro h ⟨⟨hsends, hready⟩, hheld⟩
    rw [h.inbound hsends hready] at hheld
    cases hheld

/-- Where the provider alone may begin to wait. -/
theorem clear_iff_of_provider {e : NativeEvent} (he : e ≠ .coreSend) (hc : s.coreSends e = false)
    (hcore : t.coreHeld = s.coreHeld)
    (hprovider : t.providerHeld = (providerSends e && !s.outboundReady)) :
    ¬ t.Stuck ↔ s.Clear e := by
  rw [Stuck, hcore, hprovider, Bool.and_eq_true, Bool.not_eq_true']
  constructor
  · intro h
    refine ⟨fun hs => ?_, fun hs => absurd hs he, fun hsends hready => ?_⟩
    · rw [hc] at hs
      cases hs
    · exact Bool.eq_false_iff.mpr fun hheld => h ⟨hheld, hsends, hready⟩
  · rintro h ⟨hheld, hsends, hready⟩
    rw [h.outbound hsends hready] at hheld
    cases hheld

/-- Where neither begins to wait, the step is clear. -/
theorem clear_iff_of_idle {e : NativeEvent} (hclear : s.Clear e)
    (h : t.coreHeld = false ∨ t.providerHeld = false) : ¬ t.Stuck ↔ s.Clear e :=
  iff_of_true (h.elim not_stuck_of_core not_stuck_of_provider) hclear

/-- A step with which the core turns from one wait to another: the channels, the provider and what
was emitted stay. -/
structure Internal (s t : NativeSession) (e : NativeEvent) : Prop where
  live : s.core.ended = false
  core : t.core.ended = false
  settled : t.core ≠ .probeEnded
  provider : t.provider = s.provider
  outbound : t.outbound = s.outbound
  emitted : t.emitted = s.emitted
  forwarded : t.forwarded = s.forwarded
  held : t.coreHeld = (s.coreSends e && !s.inboundReady)

theorem Internal.clear_iff {e : NativeEvent} (h : Internal s t e) (he : e ≠ .coreSend)
    (hp : providerSends e = false) : ¬ t.Stuck ↔ s.Clear e := by
  refine clear_iff_of_core he hp h.held ?_
  unfold providerHeld outboundReady
  rw [h.provider, h.outbound, h.live, h.core]

/-- A message of the consumer. -/
theorem receive_internal {msg : Option WsMessage} (h : s.receive msg = some t) :
    Internal s t (.receive msg) := by
  obtain ⟨core, provider, inbound, outbound, replay, replayBytes, replayOverflow, forwarded,
    emitted⟩ := s
  unfold receive at h
  cases core with
  | probe =>
    rcases msg with _ | (_ | _ | _ | _ | _ | _)
    case some.text | some.binary =>
      obtain ⟨replay', overflow, hframe⟩ := probeFrame_eq ⟨.probe, provider, inbound, outbound,
        replay, replayBytes, replayOverflow, forwarded, emitted⟩ _ _
      cases h
      rw [hframe]
      exact ⟨rfl, rfl, fun hp => (by cases hp), rfl, rfl, rfl, rfl, rfl⟩
    all_goals
      cases h
      exact ⟨rfl, rfl, fun hp => (by cases hp), rfl, rfl, rfl, rfl, rfl⟩
  | pump =>
    rcases msg with _ | (_ | _ | _ | _ | _ | _) <;> cases h <;>
      exact ⟨rfl, rfl, fun hp => (by cases hp), rfl, rfl, rfl, rfl, rfl⟩
  | probeSend | probeEnded | canceling | forward | pumpSend | closing | awaiting | done => cases h

/-- The consumer's socket has taken a frame. -/
theorem delivered_internal {ok : Bool} (h : s.delivered ok = some t) :
    Internal s t (.delivered ok) := by
  obtain ⟨core, provider, inbound, outbound, replay, replayBytes, replayOverflow, forwarded,
    emitted⟩ := s
  unfold delivered at h
  cases core with
  | forward wire =>
    cases wire <;> cases h <;> cases ok <;>
      exact ⟨rfl, rfl, fun hp => (by cases hp), rfl, rfl, rfl, rfl, rfl⟩
  | probe | probeSend | probeEnded | canceling | pump | pumpSend | closing | awaiting | done =>
    cases h

theorem receive_iff {msg : Option WsMessage} (h : s.receive msg = some t) :
    ¬ t.Stuck ↔ s.Clear (.receive msg) :=
  (receive_internal h).clear_iff (fun he => by cases he) rfl

theorem delivered_iff {ok : Bool} (h : s.delivered ok = some t) :
    ¬ t.Stuck ↔ s.Clear (.delivered ok) :=
  (delivered_internal h).clear_iff (fun he => by cases he) rfl

theorem coreRecv_iff (h : s.coreRecv env = some t) : ¬ t.Stuck ↔ s.Clear .coreRecv := by
  have hclear : s.Clear .coreRecv := clear_of_idle rfl (fun he => by cases he) rfl
  refine clear_iff_of_idle hclear ?_
  unfold coreRecv at h
  split at h
  iterate 2
    · cases h
      exact .inl rfl
  · split at h
    · rename_i hended
      cases h
      exact .inl (by rw [coreHeld, hended]; rfl)
    · cases h
  · split at h
    · rename_i hended
      cases h
      exact .inl (by simp [coreHeld, inboundReady, hended])
    · cases h
  · cases h

/-- A provider that waits has not ended. -/
theorem ended_of_providerHeld (h : s.providerHeld = true) : s.provider.ended = false := by
  unfold providerHeld at h
  split at h
  · rename_i hp
    rw [hp]
    rfl
  · rename_i hp
    rw [hp]
    rfl
  · cases h

/-- A frame that is sent leaves the processes as they are. -/
theorem sendInbound_eq (s : NativeSession) (wire : RealtimeWire) :
    ∃ inbound, s.sendInbound wire = { s with inbound := inbound } := by
  unfold sendInbound
  split
  · exact ⟨s.inbound, rfl⟩
  · exact ⟨s.inbound ++ [wire], rfl⟩

theorem sendOutbound_eq (s : NativeSession) (wire : RealtimeWire) :
    ∃ outbound, s.sendOutbound wire = { s with outbound := outbound } := by
  unfold sendOutbound
  split
  · exact ⟨s.outbound, rfl⟩
  · exact ⟨s.outbound ++ [wire], rfl⟩

theorem coreSend_iff (h : s.coreSend = some t) : ¬ t.Stuck ↔ s.Clear .coreSend := by
  unfold coreSend at h
  split at h
  · rename_i hcore
    cases h
    refine clear_iff_of_idle (clear_of_idle rfl (fun _ hc => ?_) rfl) (.inl rfl)
    rw [hcore] at hc
    cases hc
  · rename_i wire _ hcore
    cases h
    refine clear_iff_of_idle (clear_of_idle rfl (fun _ hc => ?_) rfl) ?_
    · rw [hcore] at hc
      cases hc
    · obtain ⟨inbound, hsent⟩ := sendInbound_eq s wire
      rw [hsent]
      cases hended : s.provider.ended with
      | true => exact .inl (by simp [coreHeld, inboundReady, hended])
      | false => exact .inl rfl
  · -- with the close in the channel the core awaits the provider
    rename_i hcore
    cases h
    obtain ⟨inbound, hsent⟩ := sendInbound_eq s .close
    rw [hsent]
    have hheld : providerHeld { s with inbound := inbound, core := .awaiting } =
        s.providerHeld := by
      unfold providerHeld outboundReady
      rw [hcore]
      rfl
    rw [Stuck, hheld]
    constructor
    · intro hfree
      refine ⟨fun hs => (by cases hs), fun _ _ => Bool.eq_false_iff.mpr fun hp => ?_,
        fun hs => by cases hs⟩
      exact hfree ⟨by rw [coreHeld, ended_of_providerHeld hp]; rfl, hp⟩
    · rintro hclear ⟨-, hp⟩
      rw [hclear.close rfl hcore] at hp
      cases hp
  · cases h

/-- Joining the provider ends the session. -/
theorem coreJoin_cases (h : s.coreJoin env = some t) :
    s.core.ended = false ∧ ∃ outcome, t = s.finish env outcome := by
  unfold coreJoin at h
  cases hcore : s.core with
  | canceling =>
    rw [hcore] at h
    cases h
    exact ⟨rfl, _, rfl⟩
  | probeEnded | awaiting =>
    rw [hcore] at h
    cases hprovider : s.provider with
    | returned r =>
      rw [hprovider] at h
      cases r <;> cases h <;> exact ⟨rfl, _, rfl⟩
    | connecting | pump | write | send | sendClose | writeClose =>
      rw [hprovider] at h
      cases h
  | probe | probeSend | forward | pump | pumpSend | closing | done =>
    rw [hcore] at h
    cases h

theorem coreJoin_iff (h : s.coreJoin env = some t) : ¬ t.Stuck ↔ s.Clear .coreJoin := by
  refine clear_iff_of_idle (clear_of_idle rfl (fun he => by cases he) rfl) (.inl ?_)
  obtain ⟨-, outcome, rfl⟩ := coreJoin_cases h
  rfl

theorem connect_iff {result : Except ModelError Unit} (h : s.connect result = some t) :
    ¬ t.Stuck ↔ s.Clear (.connect result) := by
  refine clear_iff_of_idle (clear_of_idle rfl (fun he => by cases he) rfl) ?_
  unfold connect at h
  split at h <;> cases h <;> exact .inr rfl

theorem providerRecv_iff (h : s.providerRecv = some t) : ¬ t.Stuck ↔ s.Clear .providerRecv := by
  refine clear_iff_of_idle (clear_of_idle rfl (fun he => by cases he) rfl) ?_
  unfold providerRecv at h
  split at h
  · cases h
    exact .inr rfl
  · cases h
    exact .inr rfl
  · split at h <;> cases h
    exact .inr rfl
  · cases h

theorem written_iff {ok : Bool} (h : s.written ok = some t) :
    ¬ t.Stuck ↔ s.Clear (.written ok) := by
  refine clear_iff_of_idle (clear_of_idle rfl (fun he => by cases he) rfl) ?_
  unfold written at h
  split at h
  · cases h
    cases ok <;> exact .inr rfl
  · cases h
    exact .inr rfl
  · cases h

theorem providerSend_iff (h : s.providerSend = some t) : ¬ t.Stuck ↔ s.Clear .providerSend := by
  refine clear_iff_of_idle (clear_of_idle rfl (fun he => by cases he) rfl) ?_
  unfold providerSend at h
  split at h
  · cases h
    cases hended : s.core.ended <;> exact .inr rfl
  · cases h
    exact .inr rfl
  · cases h

theorem upstream_iff {frame : UpstreamFrame} (h : s.upstream frame = some t) :
    ¬ t.Stuck ↔ s.Clear (.upstream frame) := by
  have he : NativeEvent.upstream frame ≠ .coreSend := fun he => by cases he
  have hidle : providerSends (.upstream frame) = false → s.Clear (.upstream frame) :=
    clear_of_idle rfl fun hc => absurd hc he
  obtain ⟨core, provider, inbound, outbound, replay, replayBytes, replayOverflow, forwarded,
    emitted⟩ := s
  unfold upstream at h
  cases provider with
  | pump =>
    cases frame with
    | text | binary | close | ended =>
      cases h
      exact clear_iff_of_provider he rfl rfl rfl
    | control | error =>
      cases h
      exact clear_iff_of_idle (hidle rfl) (.inr rfl)
  | connecting | write | send | sendClose | writeClose | returned => cases h

/-- **Step.** A step does not get stuck exactly if it is clear. -/
theorem step_iff {e : NativeEvent} (h : s.step env e = some t) : ¬ t.Stuck ↔ s.Clear e := by
  cases e with
  | receive msg => exact receive_iff h
  | delivered ok => exact delivered_iff h
  | coreRecv => exact coreRecv_iff h
  | coreSend => exact coreSend_iff h
  | coreJoin => exact coreJoin_iff h
  | connect result => exact connect_iff h
  | providerRecv => exact providerRecv_iff h
  | providerSend => exact providerSend_iff h
  | upstream frame => exact upstream_iff h
  | written ok => exact written_iff h

/-- **Never stuck.** No state of a run is stuck exactly if every step of it is clear. -/
theorem never_stuck_iff {tr : List (Runs.Step NativeSession NativeEvent)}
    (hs : (system env).init s) (hr : Runs.Run (system env) s tr t) :
    (∀ x ∈ tr, ¬ x.post.Stuck) ↔ ∀ x ∈ tr, x.pre.Clear x.event := by
  refine hr.reached_iff (P := fun s => ¬ s.Stuck) (C := Clear) ?_ fun _ _ _ _ h => step_iff h
  cases hs
  exact not_stuck_of_core rfl

/-! ## Deadlocks -/

/-- The core only awaits the result of a provider without a frame when there is one. -/
def Settled (s : NativeSession) : Prop := s.core = .probeEnded → s.provider.ended = true

variable (env) in
/-- The core has no step. -/
structure CoreIdle (s : NativeSession) : Prop where
  receive : ∀ msg, s.receive msg = none
  delivered : ∀ ok, s.delivered ok = none
  coreRecv : s.coreRecv env = none
  coreSend : s.coreSend = none
  coreJoin : s.coreJoin env = none

/-- The provider has no step. -/
structure ProviderIdle (s : NativeSession) : Prop where
  connect : ∀ r, s.connect r = none
  providerRecv : s.providerRecv = none
  providerSend : s.providerSend = none
  upstream : ∀ frame, s.upstream frame = none
  written : ∀ ok, s.written ok = none

/-- A core that waits has no step. -/
theorem coreHeld_no_step (h : s.coreHeld = true) : s.CoreIdle env := by
  unfold coreHeld at h
  cases hcore : s.core with
  | probeSend | pumpSend | closing =>
    rw [hcore] at h
    have hready : s.inboundReady = false := by simpa using h
    refine ⟨fun _ => ?_, fun _ => ?_, ?_, ?_, ?_⟩
    · unfold receive
      rw [hcore]
    · unfold delivered
      rw [hcore]
    · unfold coreRecv
      rw [hcore]
    · unfold coreSend
      rw [hcore, hready]
    · unfold coreJoin
      rw [hcore]
  | probeEnded | awaiting =>
    rw [hcore] at h
    refine ⟨fun _ => ?_, fun _ => ?_, ?_, ?_, ?_⟩
    · unfold receive
      rw [hcore]
    · unfold delivered
      rw [hcore]
    · unfold coreRecv
      rw [hcore]
    · unfold coreSend
      rw [hcore]
      cases s.inboundReady <;> rfl
    · unfold coreJoin
      rw [hcore]
      cases hp : s.provider with
      | returned =>
        rw [hp] at h
        cases h
      | connecting | pump | write | send | sendClose | writeClose => rfl
  | probe | canceling | forward | pump | done =>
    rw [hcore] at h
    cases h

/-- A provider that waits has no step. -/
theorem providerHeld_no_step (h : s.providerHeld = true) : s.ProviderIdle := by
  unfold providerHeld at h
  cases hprovider : s.provider with
  | send | sendClose =>
    rw [hprovider] at h
    have hready : s.outboundReady = false := by simpa using h
    refine ⟨fun _ => ?_, ?_, ?_, fun _ => ?_, fun _ => ?_⟩
    · unfold connect
      rw [hprovider]
    · unfold providerRecv
      rw [hprovider]
    · unfold providerSend
      rw [hprovider, hready]
    · unfold upstream
      rw [hprovider]
    · unfold written
      rw [hprovider]
  | connecting | pump | write | writeClose | returned =>
    rw [hprovider] at h
    cases h

/-- A core that is done has no step. -/
theorem core_ended_no_step (h : s.core.ended = true) : s.CoreIdle env := by
  cases hcore : s.core with
  | done =>
    refine ⟨fun _ => ?_, fun _ => ?_, ?_, ?_, ?_⟩
    · unfold receive
      rw [hcore]
    · unfold delivered
      rw [hcore]
    · unfold coreRecv
      rw [hcore]
    · unfold coreSend
      rw [hcore]
      cases s.inboundReady <;> rfl
    · unfold coreJoin
      rw [hcore]
  | probe | probeSend | probeEnded | canceling | forward | pump | pumpSend | closing | awaiting =>
    rw [hcore] at h
    cases h

/-- A provider that has ended has no step. -/
theorem provider_ended_no_step (h : s.provider.ended = true) : s.ProviderIdle := by
  cases hprovider : s.provider with
  | returned =>
    refine ⟨fun _ => ?_, ?_, ?_, fun _ => ?_, fun _ => ?_⟩
    · unfold connect
      rw [hprovider]
    · unfold providerRecv
      rw [hprovider]
    · unfold providerSend
      rw [hprovider]
      cases s.outboundReady <;> rfl
    · unfold upstream
      rw [hprovider]
    · unfold written
      rw [hprovider]
  | connecting | pump | write | send | sendClose | writeClose =>
    rw [hprovider] at h
    cases h

/-- A core that does not wait has a next step, or is done. -/
theorem core_progress (hs : s.Settled) (hended : s.core.ended = false) (hheld : s.coreHeld = false) :
    ∃ e, (s.step env e).isSome = true := by
  have hjoin : s.provider.ended = true → ∃ r, s.provider = .returned r := by
    intro h
    cases hp : s.provider with
    | returned r => exact ⟨r, rfl⟩
    | connecting | pump | write | send | sendClose | writeClose => rw [hp] at h; cases h
  unfold coreHeld at hheld
  cases hcore : s.core with
  | probe | pump =>
    refine ⟨.receive (some .ping), ?_⟩
    rw [step]
    unfold receive
    rw [hcore]
    rfl
  | forward wire =>
    cases wire <;>
    · refine ⟨.delivered true, ?_⟩
      rw [step]
      unfold delivered
      rw [hcore]
      rfl
  | canceling =>
    refine ⟨.coreJoin, ?_⟩
    rw [step]
    unfold coreJoin
    rw [hcore]
    rfl
  | probeSend | pumpSend | closing =>
    rw [hcore] at hheld
    have hready : s.inboundReady = true := by simpa using hheld
    refine ⟨.coreSend, ?_⟩
    rw [step]
    unfold coreSend
    rw [hcore, hready]
    rfl
  | probeEnded =>
    obtain ⟨r, hr⟩ := hjoin (hs hcore)
    cases r <;>
    · refine ⟨.coreJoin, ?_⟩
      rw [step]
      unfold coreJoin
      rw [hcore, hr]
      rfl
  | awaiting =>
    rw [hcore] at hheld
    obtain ⟨r, hr⟩ := hjoin (by simpa using hheld)
    cases r <;>
    · refine ⟨.coreJoin, ?_⟩
      rw [step]
      unfold coreJoin
      rw [hcore, hr]
      rfl
  | done outcome =>
    rw [hcore] at hended
    cases hended

/-- A provider that does not wait has a next step, or has ended. -/
theorem provider_progress (hended : s.provider.ended = false) (hheld : s.providerHeld = false) :
    ∃ e, (s.step env e).isSome = true := by
  unfold providerHeld at hheld
  cases hprovider : s.provider with
  | connecting =>
    refine ⟨.connect (.ok ()), ?_⟩
    rw [step]
    unfold connect
    rw [hprovider]
    rfl
  | pump =>
    refine ⟨.upstream .control, ?_⟩
    rw [step]
    unfold upstream
    rw [hprovider]
    rfl
  | write | writeClose =>
    refine ⟨.written true, ?_⟩
    rw [step]
    unfold written
    rw [hprovider]
    rfl
  | send | sendClose =>
    rw [hprovider] at hheld
    have hready : s.outboundReady = true := by simpa using hheld
    refine ⟨.providerSend, ?_⟩
    rw [step]
    unfold providerSend
    rw [hprovider, hready]
    rfl
  | returned r =>
    rw [hprovider] at hended
    cases hended

/-- **Deadlock.** The states without a next step are the stuck ones and the finished ones. -/
theorem deadlock_iff (hs : s.Settled) : (∀ e, s.step env e = none) ↔
    s.Stuck ∨ (s.core.ended = true ∧ s.provider.ended = true) := by
  constructor
  · intro h
    by_contra hnot
    obtain ⟨hfree, hlive⟩ := not_or.mp hnot
    have hnext : ∃ e, (s.step env e).isSome = true := by
      cases hcore : s.core.ended with
      | false =>
        cases hheld : s.coreHeld with
        | false => exact core_progress hs hcore hheld
        | true =>
          have hprovider : s.providerHeld = false :=
            Bool.eq_false_iff.mpr fun hp => hfree ⟨hheld, hp⟩
          cases hended : s.provider.ended with
          | false => exact provider_progress hended hprovider
          | true =>
            -- a provider that has ended holds nothing up
            unfold coreHeld at hheld
            split at hheld <;> simp [inboundReady, hended] at hheld
      | true =>
        have hended : s.provider.ended = false :=
          Bool.eq_false_iff.mpr fun hp => hlive ⟨hcore, hp⟩
        refine provider_progress hended ?_
        unfold providerHeld outboundReady
        rw [hcore]
        split <;> rfl
    obtain ⟨e, he⟩ := hnext
    rw [h e] at he
    cases he
  · intro h e
    have hcore : s.CoreIdle env :=
      h.elim (fun h => coreHeld_no_step h.1) fun h => core_ended_no_step h.1
    have hprovider : s.ProviderIdle :=
      h.elim (fun h => providerHeld_no_step h.2) fun h => provider_ended_no_step h.2
    cases e with
    | receive msg => exact hcore.receive msg
    | delivered ok => exact hcore.delivered ok
    | coreRecv => exact hcore.coreRecv
    | coreSend => exact hcore.coreSend
    | coreJoin => exact hcore.coreJoin
    | connect r => exact hprovider.connect r
    | providerRecv => exact hprovider.providerRecv
    | providerSend => exact hprovider.providerSend
    | upstream frame => exact hprovider.upstream frame
    | written ok => exact hprovider.written ok

/-! ## The events of a session -/

/-- What a session has emitted: its start, the usage it has forwarded and, if it is over, its end. -/
def announced (env : NativeEnv) (forwarded : List (Option Usage)) : CorePhase → List Event
  | .done outcome =>
    NativeRealtime.events env.price env.key
      ⟨env.model, env.requestId, env.provider, env.upstreamModel, forwarded, outcome.ending⟩
  | _ =>
    [.requestStarted env.requestId env.key env.model none,
      .requestRouted env.requestId env.provider env.upstreamModel] ++
    forwarded.filterMap
      (·.map fun u => .usage env.requestId env.key env.model (env.price env.model u))

/-- Until it is over, the phase of a session has no part in what it has emitted. -/
theorem announced_live {core core' : CorePhase} (h : core.ended = false) (h' : core'.ended = false)
    (forwarded : List (Option Usage)) :
    announced env forwarded core = announced env forwarded core' := by
  have hpump : ∀ {core : CorePhase}, core.ended = false →
      announced env forwarded core = announced env forwarded .pump := by
    intro core h
    cases core with
    | done => cases h
    | probe | probeSend | probeEnded | canceling | forward | pump | pumpSend | closing
      | awaiting => rfl
  rw [hpump h, hpump h']

/-- What holds in every run. -/
structure Sound (env : NativeEnv) (s : NativeSession) : Prop where
  settled : s.Settled
  emitted : s.emitted = announced env s.forwarded s.core

/-- A step of the core that emits nothing. -/
theorem Sound.quiet (h : s.Sound env) (hcore : s.core.ended = false) (hcore' : t.core.ended = false)
    (hemitted : t.emitted = s.emitted) (hforwarded : t.forwarded = s.forwarded)
    (hsettled : t.Settled) : t.Sound env where
  settled := hsettled
  emitted := by rw [hemitted, hforwarded, h.emitted, announced_live hcore hcore']

/-- A step of the provider. -/
theorem Sound.provider (h : s.Sound env) (hcore : t.core = s.core) (hemitted : t.emitted = s.emitted)
    (hforwarded : t.forwarded = s.forwarded)
    (hended : s.provider.ended = true → t.provider.ended = true) : t.Sound env where
  settled hp := hended (h.settled (hcore ▸ hp))
  emitted := by rw [hemitted, hforwarded, h.emitted, hcore]

/-- Forwarding announces the usage of the frame. -/
theorem Sound.forward (h : s.Sound env) (hcore : s.core.ended = false) (wire : RealtimeWire)
    (outbound : List RealtimeWire) :
    (forwardNativeWire env { s with outbound := outbound } wire).Sound env := by
  refine ⟨fun hp => (by cases hp), ?_⟩
  unfold forwardNativeWire
  dsimp only
  rw [h.emitted, announced_live hcore (show CorePhase.ended .pump = false from rfl)]
  simp only [announced, List.filterMap_append, List.append_assoc]
  cases wireUsage env wire <;> rfl

/-- The end announces how the session has ended. -/
theorem Sound.finish (h : s.Sound env) (hcore : s.core.ended = false) (outcome : NativeOutcome) :
    (s.finish env outcome).Sound env where
  settled hp := by cases hp
  emitted := by
    change s.emitted ++ _ = _
    rw [h.emitted, announced_live hcore (show CorePhase.ended .pump = false from rfl)]
    cases outcome <;> rfl

/-- Turning from one wait to another announces nothing. -/
theorem Sound.internal (h : s.Sound env) {e : NativeEvent} (ht : Internal s t e) : t.Sound env :=
  h.quiet ht.live ht.core ht.emitted ht.forwarded fun hp => absurd hp ht.settled

theorem Sound.coreRecv (h : s.Sound env) (ht : s.coreRecv env = some t) : t.Sound env := by
  unfold NativeSession.coreRecv at ht
  split at ht
  iterate 2
    · rename_i hcore _
      cases ht
      exact h.forward (by rw [hcore]; rfl) _ _
  · rename_i hcore _
    split at ht
    · rename_i hended
      cases ht
      exact h.quiet (by rw [hcore]; rfl) rfl rfl rfl fun _ => hended
    · cases ht
  · rename_i hcore _
    split at ht
    · cases ht
      exact h.quiet (by rw [hcore]; rfl) rfl rfl rfl fun hp => by cases hp
    · cases ht
  · cases ht

theorem Sound.coreSend (h : s.Sound env) (ht : s.coreSend = some t) : t.Sound env := by
  unfold NativeSession.coreSend at ht
  split at ht
  · rename_i wire _ hcore
    obtain ⟨inbound, hsent⟩ := sendInbound_eq s wire
    rw [hsent] at ht
    cases ht
    exact h.quiet (by rw [hcore]; rfl) rfl rfl rfl fun hp => by cases hp
  · rename_i wire _ hcore
    obtain ⟨inbound, hsent⟩ := sendInbound_eq s wire
    rw [hsent] at ht
    cases ht
    refine h.quiet (by rw [hcore]; rfl) ?_ rfl rfl fun hp => ?_
    · cases s.provider.ended <;> rfl
    · dsimp only at hp
      split at hp <;> cases hp
  · rename_i hcore
    obtain ⟨inbound, hsent⟩ := sendInbound_eq s .close
    rw [hsent] at ht
    cases ht
    exact h.quiet (by rw [hcore]; rfl) rfl rfl rfl fun hp => by cases hp
  · cases ht

theorem Sound.coreJoin (h : s.Sound env) (ht : s.coreJoin env = some t) : t.Sound env := by
  obtain ⟨hcore, outcome, rfl⟩ := coreJoin_cases ht
  exact h.finish hcore outcome

/-- Whether an event is one of the provider or of the upstream's socket. -/
def ofProvider : NativeEvent → Bool
  | .connect _ | .providerRecv | .providerSend | .upstream _ | .written _ => true
  | _ => false

/-- Such a step is taken by a provider that has not ended, and leaves the core and what was emitted
as they are. -/
theorem provider_frame {e : NativeEvent} (he : ofProvider e = true) (ht : s.step env e = some t) :
    s.provider.ended = false ∧ t.core = s.core ∧ t.emitted = s.emitted ∧
      t.forwarded = s.forwarded := by
  have hlive : s.provider.ended = false := by
    by_contra hended
    rw [Bool.not_eq_false] at hended
    have hidle := provider_ended_no_step hended
    cases e with
    | connect r => exact Option.some_ne_none t (ht.symm.trans (hidle.connect r))
    | providerRecv => exact Option.some_ne_none t (ht.symm.trans hidle.providerRecv)
    | providerSend => exact Option.some_ne_none t (ht.symm.trans hidle.providerSend)
    | upstream frame => exact Option.some_ne_none t (ht.symm.trans (hidle.upstream frame))
    | written ok => exact Option.some_ne_none t (ht.symm.trans (hidle.written ok))
    | receive | delivered | coreRecv | coreSend | coreJoin => cases he
  refine ⟨hlive, ?_⟩
  cases e with
  | connect r =>
    simp only [NativeSession.step, connect] at ht
    split at ht <;> cases ht <;> exact ⟨rfl, rfl, rfl⟩
  | providerRecv =>
    simp only [NativeSession.step, providerRecv] at ht
    split at ht
    · cases ht
      exact ⟨rfl, rfl, rfl⟩
    · cases ht
      exact ⟨rfl, rfl, rfl⟩
    · split at ht <;> cases ht
      exact ⟨rfl, rfl, rfl⟩
    · cases ht
  | providerSend =>
    simp only [NativeSession.step, providerSend] at ht
    split at ht
    · obtain ⟨outbound, hsent⟩ := sendOutbound_eq s _
      rw [hsent] at ht
      cases ht
      exact ⟨rfl, rfl, rfl⟩
    · obtain ⟨outbound, hsent⟩ := sendOutbound_eq s .close
      rw [hsent] at ht
      cases ht
      exact ⟨rfl, rfl, rfl⟩
    · cases ht
  | upstream frame =>
    simp only [NativeSession.step, upstream] at ht
    split at ht <;> cases ht <;> exact ⟨rfl, rfl, rfl⟩
  | written ok =>
    simp only [NativeSession.step, written] at ht
    split at ht <;> cases ht <;> exact ⟨rfl, rfl, rfl⟩
  | receive | delivered | coreRecv | coreSend | coreJoin => cases he

theorem Sound.step {e : NativeEvent} (h : s.Sound env) (hstep : s.step env e = some t) :
    t.Sound env := by
  cases e with
  | receive msg => exact h.internal (receive_internal hstep)
  | delivered ok => exact h.internal (delivered_internal hstep)
  | coreRecv => exact h.coreRecv hstep
  | coreSend => exact h.coreSend hstep
  | coreJoin => exact h.coreJoin hstep
  | connect | providerRecv | providerSend | upstream | written =>
    obtain ⟨hlive, hcore, hemitted, hforwarded⟩ := provider_frame rfl hstep
    exact h.provider hcore hemitted hforwarded fun hended => by rw [hlive] at hended; cases hended

theorem run_sound {tr : List (Runs.Step NativeSession NativeEvent)}
    (hs : (system env).init s) (hr : Runs.Run (system env) s tr t) : t.Sound env := by
  refine hr.invariant (P := Sound env) ?_ fun _ _ _ h hstep => h.step hstep
  cases hs
  exact ⟨fun hp => (by cases hp), rfl⟩

/-- **The events of a session.** Once it is over they are those of its lifecycle. -/
theorem finished_events {tr : List (Runs.Step NativeSession NativeEvent)}
    (hs : (system env).init s) (hr : Runs.Run (system env) s tr t) {outcome : NativeOutcome}
    (hdone : t.core = .done outcome) :
    t.emitted = NativeRealtime.events env.price env.key
      ⟨env.model, env.requestId, env.provider, env.upstreamModel, t.forwarded, outcome.ending⟩ := by
  rw [(run_sound hs hr).emitted, hdone]
  rfl

/-- A state of a run has no next step exactly if it is stuck or finished. -/
theorem run_deadlock_iff {tr : List (Runs.Step NativeSession NativeEvent)}
    (hs : (system env).init s) (hr : Runs.Run (system env) s tr t) :
    (∀ e, t.step env e = none) ↔ t.Stuck ∨ (t.core.ended = true ∧ t.provider.ended = true) :=
  deadlock_iff (run_sound hs hr).settled

/-! ## A consumer that leaves while the upstream streams -/

/-- A session of a model. -/
def oneSession : NativeEnv where
  fromStr _ := none
  price _ u := u
  requestId := "r1"
  key := "k1"
  model := "gpt-realtime"
  provider := "openai"
  upstreamModel := "gpt-realtime"

/-- The upstream's first frame reaches the consumer, who takes no more while `n` frames follow. -/
def streaming (n : ℕ) : List NativeEvent :=
  [.connect (.ok ()), .upstream (.text "a"), .providerSend, .coreRecv] ++
    (List.replicate n [NativeEvent.upstream (.text "a"), .providerSend]).flatten

/-- The consumer leaves with the outbound channel full and one more frame on its way: the close goes
in, and the core awaits a provider that waits for room. -/
theorem leaving_consumer_sticks :
    let events := streaming 64 ++ [.upstream (.text "a"), .delivered false, .coreSend]
    ∃ tr t, Runs.Run (system oneSession) (start oneSession) tr t ∧ Runs.events tr = events ∧
      t.Stuck := by
  intro events
  have hstuck : (events.foldlM (step oneSession) (start oneSession)).any
      (fun t => decide t.Stuck) = true := by decide +kernel
  obtain ⟨t, ht, hdecide⟩ := (Option.any_eq_true ..).mp hstuck
  obtain ⟨tr, hrun, hevents⟩ := Runs.Run.execOption (· = start oneSession) ht
  exact ⟨tr, t, hrun, hevents, of_decide_eq_true hdecide⟩

/-- The session of a consumer that leaves with room in the outbound channel is over. -/
theorem never_stuck_iff_leaving :
    let events := streaming 60 ++
      [.delivered false, .coreSend, .providerRecv, .written true, .coreJoin]
    ∃ tr t, Runs.Run (system oneSession) (start oneSession) tr t ∧ Runs.events tr = events ∧
      t.core.ended = true ∧
      ((∀ x ∈ tr, ¬ x.post.Stuck) ↔ ∀ x ∈ tr, x.pre.Clear x.event) := by
  intro events
  have hended : (events.foldlM (step oneSession) (start oneSession)).any (·.core.ended) = true := by
    decide +kernel
  obtain ⟨t, ht, hcore⟩ := (Option.any_eq_true ..).mp hended
  obtain ⟨tr, hrun, hevents⟩ := Runs.Run.execOption (· = start oneSession) ht
  exact ⟨tr, t, hrun, hevents, hcore, never_stuck_iff rfl hrun⟩

end NativeSession

end Llmleaf.Realtime
