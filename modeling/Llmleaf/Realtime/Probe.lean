import Llmleaf.Lib.BoundedLog
import Llmleaf.Realtime.Pump

/-!
# The probe of a native session

Until the provider's first frame the core keeps the consumer's frames, in a log of bounded size, to
replay them on the chat bridge should the provider fail.

- `received`, `probed`: the frames that the consumer has sent, and those before the core looked at
  the provider; both are read off the events of a run.
- `Probed`: what holds in every run; the log holds the probed frames, and a session that has ended
  without a frame of the provider has ended as `Stage` says.
- **Result** (`probe_fallback`): a session falls back with all frames of its consumer or not at all.
- `fellBack_live`: the bridge then serves the session as though it had served it from the start.
-/

namespace Llmleaf.Realtime

/-- The size of a frame. -/
def wireSize : RealtimeWire → ℕ
  | .text t => t.utf8ByteSize
  | .binary bytes => bytes.length
  | .close => 0

/-- The frame that the consumer sends with an event. -/
def consumerFrame : NativeEvent → Option RealtimeWire
  | .receive (some (.text t)) => some (.text t)
  | .receive (some (.binary bytes)) => some (.binary bytes)
  | _ => none

/-- Whether the core finds a frame of the provider, or that there will be none. -/
def looks : NativeEvent → Bool
  | .coreRecv => true
  | _ => false

/-- Whether the consumer leaves. -/
def leaves : NativeEvent → Bool
  | .receive (some .close) | .receive none => true
  | _ => false

/-- The frames that the consumer has sent. -/
def received (events : List NativeEvent) : List RealtimeWire := events.filterMap consumerFrame

/-- Those before the core looked at the provider. -/
def probed (events : List NativeEvent) : List RealtimeWire :=
  received (events.takeWhile fun e => !looks e)

/-- The messages of the consumer's socket, `none` for an error. -/
def messages (events : List NativeEvent) : List (Option WsMessage) :=
  events.filterMap fun e =>
    match e with
    | .receive msg => some msg
    | _ => none

/-- The core has not looked at the provider. -/
def Probing (events : List NativeEvent) : Prop := ∀ e ∈ events, looks e = false

/-- The consumer has left. -/
def Left (events : List NativeEvent) : Prop := ∃ e ∈ events, leaves e = true

section

variable {events : List NativeEvent} {e : NativeEvent}

theorem received_concat_of_none (h : consumerFrame e = none) :
    received (events ++ [e]) = received events := by
  rw [received, List.filterMap_append, List.filterMap_cons_none h, List.filterMap_nil,
    List.append_nil]
  rfl

theorem received_concat_of_some {wire : RealtimeWire} (h : consumerFrame e = some wire) :
    received (events ++ [e]) = received events ++ [wire] := by
  rw [received, List.filterMap_append, List.filterMap_cons_some h, List.filterMap_nil]
  rfl

theorem Probing.concat (h : Probing events) (he : looks e = false) : Probing (events ++ [e]) := by
  intro f hf
  rcases List.mem_append.mp hf with hf | hf
  · exact h f hf
  · rw [List.mem_singleton.mp hf]
    exact he

theorem not_probing_concat (h : ¬ Probing events) : ¬ Probing (events ++ [e]) :=
  fun hprobing => h fun f hf => hprobing f (List.mem_append_left _ hf)

theorem Left.concat (h : Left events) : Left (events ++ [e]) := by
  obtain ⟨f, hf, hleaves⟩ := h
  exact ⟨f, List.mem_append_left _ hf, hleaves⟩

theorem not_left_concat (h : ¬ Left events) (he : leaves e = false) : ¬ Left (events ++ [e]) := by
  rintro ⟨f, hf, hleaves⟩
  rcases List.mem_append.mp hf with hf | hf
  · exact h ⟨f, hf, hleaves⟩
  · rw [List.mem_singleton.mp hf, he] at hleaves
    cases hleaves

/-- A consumer that sends a frame does not leave. -/
theorem stays_of_frame {wire : RealtimeWire} (h : consumerFrame e = some wire) :
    leaves e = false := by
  unfold consumerFrame at h
  split at h
  · rfl
  · rfl
  · cases h

/-- A bridge that replays what a consumer has sent handles the frames that it would have handled
live. -/
theorem framesOf_received (h : ¬ Left events) (live : List (Option WsMessage)) :
    framesOf (received events) live = framesOf [] (messages events ++ live) := by
  have hstays : ∀ msg ∈ messages events, (!isEnd msg) = true := by
    intro msg hmsg
    obtain ⟨e, he, hsome⟩ := List.mem_filterMap.mp hmsg
    cases e with
    | receive m =>
      cases hsome
      refine Bool.eq_true_of_not_eq_false fun hend => h ⟨_, he, ?_⟩
      rcases msg with _ | (_ | _ | _ | _ | _ | _) <;> first | rfl | cases hend
    | _ => cases hsome
  have hframes : (received events).filterMap RealtimeWire.toFrame =
      (messages events).filterMap liveFrame := by
    rw [received, messages, List.filterMap_filterMap, List.filterMap_filterMap]
    refine List.filterMap_congr fun e _ => ?_
    cases e with
    | receive msg => rcases msg with _ | (_ | _ | _ | _ | _ | _) <;> rfl
    | _ => rfl
  rw [framesOf, framesOf, List.takeWhile_append_of_pos hstays, List.filterMap_append, hframes,
    List.filterMap_nil, List.nil_append]

/-- While the core probes, everything that is received is probed. -/
theorem Probing.probed_eq (h : Probing events) : probed events = received events := by
  rw [probed, List.takeWhile_eq_self_iff.mpr]
  intro f hf
  rw [h f hf]
  rfl

/-- Later on nothing is. -/
theorem probed_concat_of_not (h : ¬ Probing events) : probed (events ++ [e]) = probed events := by
  rw [probed, List.takeWhile_append, if_neg]
  · rfl
  · intro hlen
    refine h fun f hf => ?_
    have hall := List.takeWhile_eq_self_iff.mp ((List.takeWhile_prefix _).eq_of_length hlen) f hf
    simpa using hall

/-- An event without a frame. -/
theorem probed_concat_of_none (h : consumerFrame e = none) :
    probed (events ++ [e]) = probed events := by
  by_cases hprobing : Probing events
  · by_cases he : looks e = true
    · have hlast : (events ++ [e]).takeWhile (fun e => !looks e) = events := by
        rw [List.takeWhile_append_of_pos fun f hf => by rw [hprobing f hf]; rfl,
          List.takeWhile_cons_of_neg (by simp [he]), List.append_nil]
      rw [probed, hlast, hprobing.probed_eq]
    · rw [(hprobing.concat (Bool.eq_false_iff.mpr he)).probed_eq, hprobing.probed_eq,
        received_concat_of_none h]
  · exact probed_concat_of_not hprobing

end

namespace NativeSession

/-- The error of a session whose frames did not fit. -/
def replayError : String :=
  "realtime probe exceeded its replay buffer before the upstream produced a frame"

/-- The frames kept for a replay. -/
def replayLog (s : NativeSession) : BoundedLog RealtimeWire :=
  ⟨s.replay, s.replayBytes, s.replayOverflow⟩

section

variable {env : NativeEnv} {s t : NativeSession} {events : List NativeEvent} {e : NativeEvent}

/-- A frame of the consumer goes into the log. -/
theorem probeFrame_log (s : NativeSession) (wire : RealtimeWire) :
    (s.probeFrame wire (wireSize wire)).replayLog =
      s.replayLog.push maxRealtimeReplayBytes wireSize wire := by
  unfold probeFrame BoundedLog.push
  exact apply_ite replayLog _ _ _

/-- Only frames of the consumer do. -/
theorem replayLog_eq (hstep : s.step env e = some t) (he : consumerFrame e = none) :
    t.replayLog = s.replayLog := by
  cases e with
  | receive msg =>
    simp only [NativeSession.step, receive] at hstep
    split at hstep <;> cases hstep <;> first | rfl | cases he
  | delivered ok =>
    simp only [NativeSession.step, delivered] at hstep
    split at hstep <;> cases hstep <;> rfl
  | coreRecv =>
    simp only [NativeSession.step, coreRecv] at hstep
    split at hstep
    · cases hstep
      rfl
    · cases hstep
      rfl
    · split at hstep <;> cases hstep
      rfl
    · split at hstep <;> cases hstep
      rfl
    · cases hstep
  | coreSend =>
    simp only [NativeSession.step, coreSend] at hstep
    split at hstep
    iterate 3
      · obtain ⟨inbound, hsent⟩ := sendInbound_eq s _
        rw [hsent] at hstep
        cases hstep
        rfl
    · cases hstep
  | coreJoin =>
    obtain ⟨-, outcome, rfl⟩ := coreJoin_cases hstep
    rfl
  | connect r =>
    simp only [NativeSession.step, connect] at hstep
    split at hstep <;> cases hstep <;> rfl
  | providerRecv =>
    simp only [NativeSession.step, providerRecv] at hstep
    split at hstep
    · cases hstep
      rfl
    · cases hstep
      rfl
    · split at hstep <;> cases hstep
      rfl
    · cases hstep
  | providerSend =>
    simp only [NativeSession.step, providerSend] at hstep
    split at hstep
    iterate 2
      · obtain ⟨outbound, hsent⟩ := sendOutbound_eq s _
        rw [hsent] at hstep
        cases hstep
        rfl
    · cases hstep
  | upstream frame =>
    simp only [NativeSession.step, upstream] at hstep
    split at hstep <;> cases hstep <;> rfl
  | written ok =>
    simp only [NativeSession.step, written] at hstep
    split at hstep <;> cases hstep <;> rfl

/-- Where a session is after some events: before the core has looked at the provider nothing was
forwarded, later on something was. It has fallen back with its whole log, or not at all. -/
def Stage (events : List NativeEvent) (s : NativeSession) : CorePhase → Prop
  | .probe | .probeSend _ => Probing events ∧ s.forwarded = [] ∧ ¬ Left events
  | .probeEnded =>
    received events = probed events ∧ s.forwarded = [] ∧ ¬ Left events ∧ s.provider.ended = true
  | .canceling => Left events
  | .forward _ | .pump | .pumpSend _ | .closing | .awaiting =>
    ¬ Probing events ∧ s.forwarded ≠ []
  | .done outcome =>
    (∀ replay, outcome = .fellBack replay →
      received events = probed events ∧ replay = s.replay ∧ s.replayOverflow = false ∧
        ¬ Left events) ∧
    (s.forwarded = [] → ¬ Left events → s.provider.ended = true ∧
      ∀ e, s.provider = .returned (.error e) → s.replayOverflow = true →
        outcome = .failed replayError)

/-- What holds in every run. -/
structure Probed (events : List NativeEvent) (s : NativeSession) : Prop where
  log : s.replayLog.Holds maxRealtimeReplayBytes wireSize (probed events)
  stage : Stage events s s.core

/-- An event that is none of a frame of the consumer, its leaving and a look at the provider. -/
theorem Stage.concat {core : CorePhase} (h : Stage events s core) (hlooks : looks e = false)
    (hnone : consumerFrame e = none) (hleaves : leaves e = false) :
    Stage (events ++ [e]) s core := by
  cases core with
  | probe | probeSend wire =>
    obtain ⟨hprobing, hforwarded, hleft⟩ := h
    exact ⟨hprobing.concat hlooks, hforwarded, not_left_concat hleft hleaves⟩
  | probeEnded =>
    obtain ⟨hall, hforwarded, hleft, hended⟩ := h
    refine ⟨?_, hforwarded, not_left_concat hleft hleaves, hended⟩
    rw [received_concat_of_none hnone, probed_concat_of_none hnone]
    exact hall
  | canceling => exact Left.concat h
  | forward wire | pump | pumpSend wire | closing | awaiting => exact ⟨not_probing_concat h.1, h.2⟩
  | done outcome =>
    refine ⟨fun replay houtcome => ?_, fun hf hleft => h.2 hf fun hl => hleft hl.concat⟩
    rw [received_concat_of_none hnone, probed_concat_of_none hnone]
    obtain ⟨hall, hreplay, hover, hleft⟩ := h.1 replay houtcome
    exact ⟨hall, hreplay, hover, not_left_concat hleft hleaves⟩

/-- A step of the provider leaves the stage as it is. -/
theorem Stage.provider (h : Stage events s s.core) (he : ofProvider e = true)
    (hstep : s.step env e = some t) : Stage (events ++ [e]) t t.core := by
  obtain ⟨hlive, hcore, -, hforwarded⟩ := provider_frame he hstep
  have hnone : consumerFrame e = none := by cases e <;> first | rfl | cases he
  have hlooks : looks e = false := by cases e <;> first | rfl | cases he
  have hleaves : leaves e = false := by cases e <;> first | rfl | cases he
  have hlog := replayLog_eq hstep hnone
  replace h := h.concat hlooks hnone hleaves
  rw [hcore]
  cases hphase : s.core with
  | probe | probeSend wire =>
    rw [hphase] at h
    exact ⟨h.1, hforwarded.trans h.2.1, h.2.2⟩
  | probeEnded =>
    rw [hphase] at h
    obtain ⟨-, -, -, hended⟩ := h
    rw [hlive] at hended
    cases hended
  | canceling =>
    rw [hphase] at h
    exact h
  | forward wire | pump | pumpSend wire | closing | awaiting =>
    rw [hphase] at h
    exact ⟨h.1, hforwarded ▸ h.2⟩
  | done outcome =>
    rw [hphase] at h
    refine ⟨fun replay houtcome => ?_, fun hf hleft => ?_⟩
    · obtain ⟨hall, hreplay, hover, hleft⟩ := h.1 replay houtcome
      exact ⟨hall, hreplay.trans (congrArg BoundedLog.kept hlog).symm,
        (congrArg BoundedLog.overflow hlog).trans hover, hleft⟩
    · obtain ⟨hended, -⟩ := h.2 (hforwarded.symm.trans hf) hleft
      rw [hlive] at hended
      cases hended

/-- What the core makes of a message of the consumer. -/
theorem receive_cases {msg : Option WsMessage} (hstep : s.receive msg = some t) :
    (∃ wire, consumerFrame (.receive msg) = some wire ∧
      (s.core = .probe ∧ t = s.probeFrame wire (wireSize wire) ∨
        s.core = .pump ∧ t = { s with core := .pumpSend wire })) ∨
    consumerFrame (.receive msg) = none ∧
      (leaves (.receive msg) = true ∧
        (s.core = .probe ∧ t = { s with core := .canceling } ∨
          s.core = .pump ∧ t = { s with core := .closing }) ∨
        leaves (.receive msg) = false ∧ t = s) := by
  unfold NativeSession.receive at hstep
  split at hstep <;> rename_i hcore
  · exact .inl ⟨_, rfl, .inl ⟨hcore, (Option.some.inj hstep).symm⟩⟩
  · exact .inl ⟨_, rfl, .inl ⟨hcore, (Option.some.inj hstep).symm⟩⟩
  iterate 2 exact .inr ⟨rfl, .inl ⟨rfl, .inl ⟨hcore, (Option.some.inj hstep).symm⟩⟩⟩
  iterate 3 exact .inr ⟨rfl, .inr ⟨rfl, (Option.some.inj hstep).symm⟩⟩
  · exact .inl ⟨_, rfl, .inr ⟨hcore, (Option.some.inj hstep).symm⟩⟩
  · exact .inl ⟨_, rfl, .inr ⟨hcore, (Option.some.inj hstep).symm⟩⟩
  iterate 2 exact .inr ⟨rfl, .inl ⟨rfl, .inr ⟨hcore, (Option.some.inj hstep).symm⟩⟩⟩
  iterate 3 exact .inr ⟨rfl, .inr ⟨rfl, (Option.some.inj hstep).symm⟩⟩
  · cases hstep

/-- A message of the consumer. -/
theorem Probed.receive {msg : Option WsMessage} (h : Probed events s)
    (hstep : s.receive msg = some t) : Probed (events ++ [.receive msg]) t := by
  have hstage := h.stage
  obtain ⟨wire, hwire, ⟨hcore, rfl⟩ | ⟨hcore, rfl⟩⟩ |
      ⟨hnone, ⟨hleaves, hcore⟩ | ⟨hstays, rfl⟩⟩ := receive_cases hstep
  · rw [hcore] at hstage
    obtain ⟨hprobing, hforwarded, hleft⟩ := hstage
    have hall := hprobing.concat (e := .receive msg) rfl
    refine ⟨?_, ?_⟩
    · rw [hall.probed_eq, received_concat_of_some hwire, ← hprobing.probed_eq, probeFrame_log]
      exact h.log.push wire
    · obtain ⟨replay, overflow, hframe⟩ := probeFrame_eq s wire (wireSize wire)
      rw [hframe]
      exact ⟨hall, hforwarded, not_left_concat hleft (stays_of_frame hwire)⟩
  · rw [hcore] at hstage
    refine ⟨?_, not_probing_concat hstage.1, hstage.2⟩
    rw [probed_concat_of_not hstage.1]
    exact h.log
  · have hlog : s.replayLog.Holds maxRealtimeReplayBytes wireSize
        (probed (events ++ [.receive msg])) := by
      rw [probed_concat_of_none hnone]
      exact h.log
    obtain ⟨hcore, rfl⟩ | ⟨hcore, rfl⟩ := hcore
    · exact ⟨hlog, _, List.mem_append_right _ (List.mem_singleton_self _), hleaves⟩
    · rw [hcore] at hstage
      exact ⟨hlog, not_probing_concat hstage.1, hstage.2⟩
  · refine ⟨?_, hstage.concat rfl hnone hstays⟩
    rw [probed_concat_of_none hnone]
    exact h.log

theorem Stage.delivered {ok : Bool} (h : Stage events s s.core) (hstep : s.delivered ok = some t) :
    Stage (events ++ [.delivered ok]) t t.core := by
  unfold NativeSession.delivered at hstep
  split at hstep
  · rename_i hcore
    rw [hcore] at h
    cases hstep
    exact ⟨not_probing_concat h.1, h.2⟩
  · rename_i hcore
    rw [hcore] at h
    cases hstep
    cases ok <;> exact ⟨not_probing_concat h.1, h.2⟩
  · cases hstep

/-- The core looks at the provider: what was probed is all that was received so far. -/
theorem Stage.coreRecv (h : Stage events s s.core) (hstep : s.coreRecv env = some t) :
    Stage (events ++ [.coreRecv]) t t.core := by
  have hlooked : ¬ Probing (events ++ [.coreRecv]) := fun hprobing =>
    nomatch hprobing .coreRecv (List.mem_append_right _ (List.mem_singleton_self _))
  unfold NativeSession.coreRecv at hstep
  split at hstep
  iterate 2
    · cases hstep
      exact ⟨hlooked, List.append_ne_nil_of_right_ne_nil _ (List.cons_ne_nil _ _)⟩
  · rename_i hcore _
    rw [hcore] at h
    split at hstep
    · rename_i hended
      cases hstep
      obtain ⟨hprobing, hforwarded, hleft⟩ := h
      refine ⟨?_, hforwarded, not_left_concat hleft rfl, hended⟩
      rw [received_concat_of_none rfl, probed_concat_of_none rfl, hprobing.probed_eq]
    · cases hstep
  · rename_i hcore _
    rw [hcore] at h
    split at hstep
    · cases hstep
      exact ⟨hlooked, h.2⟩
    · cases hstep
  · cases hstep

theorem Stage.coreSend (h : Stage events s s.core) (hstep : s.coreSend = some t) :
    Stage (events ++ [.coreSend]) t t.core := by
  unfold NativeSession.coreSend at hstep
  split at hstep
  · rename_i wire _ hcore
    obtain ⟨inbound, hsent⟩ := sendInbound_eq s wire
    rw [hsent] at hstep
    rw [hcore] at h
    cases hstep
    exact ⟨h.1.concat rfl, h.2.1, not_left_concat h.2.2 rfl⟩
  · rename_i wire _ hcore
    obtain ⟨inbound, hsent⟩ := sendInbound_eq s wire
    rw [hsent] at hstep
    rw [hcore] at h
    cases hstep
    dsimp only
    cases s.provider.ended <;> exact ⟨not_probing_concat h.1, h.2⟩
  · rename_i hcore
    obtain ⟨inbound, hsent⟩ := sendInbound_eq s .close
    rw [hsent] at hstep
    rw [hcore] at h
    cases hstep
    exact ⟨not_probing_concat h.1, h.2⟩
  · cases hstep

/-- The end: a provider that has failed without a frame decides what is done with the log. -/
theorem Stage.coreJoin (h : Stage events s s.core) (hstep : s.coreJoin env = some t) :
    Stage (events ++ [.coreJoin]) t t.core := by
  unfold NativeSession.coreJoin at hstep
  split at hstep
  · rename_i hcore
    rw [hcore] at h
    cases hstep
    exact ⟨nofun, fun _ hleft => absurd (Left.concat h) hleft⟩
  · rename_i hcore hprovider
    rw [hcore] at h
    cases hstep
    refine ⟨nofun, fun _ _ => ⟨h.2.2.2, fun e he => ?_⟩⟩
    cases hprovider.symm.trans he
  · rename_i hcore hprovider
    rw [hcore] at h
    cases hstep
    refine ⟨fun replay houtcome => ?_, fun _ _ => ⟨h.2.2.2, fun e _ hover => if_pos hover⟩⟩
    split at houtcome
    · cases houtcome
    · rename_i hover
      cases houtcome
      rw [received_concat_of_none rfl, probed_concat_of_none rfl]
      exact ⟨h.1, rfl, Bool.eq_false_iff.mpr hover, not_left_concat h.2.2.1 rfl⟩
  iterate 2
    · rename_i hcore _
      rw [hcore] at h
      cases hstep
      exact ⟨nofun, fun hf => absurd hf h.2⟩
  · cases hstep

theorem Probed.step (h : Probed events s) (hstep : s.step env e = some t) :
    Probed (events ++ [e]) t := by
  by_cases hreceive : ∃ msg, e = .receive msg
  · obtain ⟨msg, rfl⟩ := hreceive
    exact h.receive hstep
  · have hnone : consumerFrame e = none := by
      cases e with
      | receive msg => exact absurd ⟨msg, rfl⟩ hreceive
      | _ => rfl
    refine ⟨?_, ?_⟩
    · rw [replayLog_eq hstep hnone, probed_concat_of_none hnone]
      exact h.log
    · cases e with
      | receive msg => exact absurd ⟨msg, rfl⟩ hreceive
      | delivered ok => exact h.stage.delivered hstep
      | coreRecv => exact h.stage.coreRecv hstep
      | coreSend => exact h.stage.coreSend hstep
      | coreJoin => exact h.stage.coreJoin hstep
      | connect | providerRecv | providerSend | upstream | written => exact h.stage.provider rfl hstep

theorem run_probed {tr : List (Runs.Step NativeSession NativeEvent)} (hs : (system env).init s)
    (hr : Runs.Run (system env) s tr t) : Probed (Runs.events tr) t := by
  refine hr.invariant_trace (P := fun tr t => Probed (Runs.events tr) t) ?_ ?_
  · cases hs
    exact ⟨.empty, nofun, rfl, nofun⟩
  · intro tr t e t' _ h hstep
    rw [Runs.events_append, Runs.events_singleton]
    exact h.step hstep

/-- **Fallback.** A session falls back with all frames of its consumer, in order, and only if they
fit. Where frames were left out it does not, and fails if the provider fails without a frame and the
consumer is still there. -/
theorem probe_fallback {tr : List (Runs.Step NativeSession NativeEvent)}
    (hs : (system env).init s) (hr : Runs.Run (system env) s tr t) :
    (∀ replay, t.core = .done (.fellBack replay) →
      replay = received (Runs.events tr) ∧
        (replay.map wireSize).sum ≤ maxRealtimeReplayBytes) ∧
    (t.replay ≠ probed (Runs.events tr) →
      (∀ replay, t.core ≠ .done (.fellBack replay)) ∧
      ∀ e, t.core.ended = true → t.provider = .returned (.error e) → t.forwarded = [] →
        ¬ Left (Runs.events tr) → t.core = .done (.failed replayError)) := by
  have h := run_probed hs hr
  have hstage := h.stage
  refine ⟨fun replay hcore => ?_, fun hmissing => ?_⟩
  · rw [hcore] at hstage
    obtain ⟨hall, rfl, hover, -⟩ := hstage.1 replay rfl
    exact ⟨(h.log.kept hover).trans hall.symm, h.log.kept_le hover⟩
  · have hover : t.replayOverflow = true :=
      (Bool.not_eq_false _).mp fun hover => hmissing (h.log.kept hover)
    refine ⟨fun replay hcore => ?_, fun e hended hprovider hforwarded hleft => ?_⟩
    · rw [hcore] at hstage
      obtain ⟨-, -, hfits, -⟩ := hstage.1 replay rfl
      rw [hover] at hfits
      cases hfits
    · cases hcore : t.core with
      | done outcome =>
        rw [hcore] at hstage
        rw [(hstage.2 hforwarded hleft).2 e hprovider hover]
      | _ =>
        rw [hcore] at hended
        cases hended

/-- **Nothing is lost or duplicated.** The bridge of a session that falls back is the one that would
have served the consumer from its first frame on. -/
theorem fellBack_live {tr : List (Runs.Step NativeSession NativeEvent)}
    (hs : (system env).init s) (hr : Runs.Run (system env) s tr t) {replay : List RealtimeWire}
    (hcore : t.core = .done (.fellBack replay)) (bridge : SessionEnv)
    (key model requestId : String) (live : List (Option WsMessage)) :
    runBridgeReplaying bridge key model requestId replay live =
      runBridgeReplaying bridge key model requestId [] (messages (Runs.events tr) ++ live) := by
  have h := run_probed hs hr
  have hstage := h.stage
  rw [hcore] at hstage
  obtain ⟨hall, rfl, hover, hleft⟩ := hstage.1 replay rfl
  have hreplay : t.replay = received (Runs.events tr) := (h.log.kept hover).trans hall.symm
  rw [runBridgeReplaying_eq, runBridgeReplaying_eq, hreplay, framesOf_received hleft]

end

/-- The provider cannot connect, with a frame of the consumer in the log. -/
def refused : List NativeEvent :=
  [.receive (some (.text "a")), .coreSend, .connect (.error (.unavailable "refused")), .coreRecv,
    .coreJoin]

theorem probe_fallback_refused :
    ∃ tr t, Runs.Run (system oneSession) (start oneSession) tr t ∧ Runs.events tr = refused ∧
      t.core.ended = true ∧
      (∀ replay, t.core = .done (.fellBack replay) →
        replay = received (Runs.events tr) ∧
          (replay.map wireSize).sum ≤ maxRealtimeReplayBytes) ∧
      (t.replay ≠ probed (Runs.events tr) →
        (∀ replay, t.core ≠ .done (.fellBack replay)) ∧
        ∀ e, t.core.ended = true → t.provider = .returned (.error e) → t.forwarded = [] →
          ¬ Left (Runs.events tr) → t.core = .done (.failed replayError)) := by
  have hended : (refused.foldlM (step oneSession) (start oneSession)).any (·.core.ended) = true := by
    decide +kernel
  obtain ⟨t, ht, hcore⟩ := (Option.any_eq_true ..).mp hended
  obtain ⟨tr, hrun, hevents⟩ := Runs.Run.execOption (· = start oneSession) ht
  exact ⟨tr, t, hrun, hevents, hcore, probe_fallback rfl hrun⟩

/-- The consumer sends a frame; the upstream answers one and closes. -/
def answered (bytes : List UInt8) : List NativeEvent :=
  [.receive (some (.binary bytes)), .coreSend, .connect (.ok ()),
    .upstream (.text "a"), .providerSend, .coreRecv, .delivered true,
    .upstream .ended, .providerSend, .coreRecv, .delivered true, .coreSend, .coreJoin]

/-- A frame that does not fit is left out, and the session completes all the same. -/
theorem answered_run (bytes : List UInt8) (h : maxRealtimeReplayBytes < bytes.length) :
    ∃ t, (answered bytes).foldlM (step oneSession) (start oneSession) = some t ∧ t.replay = [] ∧
      t.core = .done .completed := by
  have hfirst : step oneSession (start oneSession) (.receive (some (.binary bytes))) =
      some { start oneSession with
        core := .probeSend (.binary bytes)
        replayBytes := bytes.length
        replayOverflow := true } := by
    simp [step, receive, start, probeFrame, h]
  rw [answered, List.foldlM_cons, hfirst]
  exact ⟨_, rfl, rfl, rfl⟩

/-- A session with a frame left out may complete. -/
theorem overflow_completes :
    ¬ ∀ (env : NativeEnv) (s t : NativeSession) (tr : List (Runs.Step NativeSession NativeEvent)),
      (system env).init s → Runs.Run (system env) s tr t → t.core.ended = true →
        t.replay ≠ probed (Runs.events tr) →
          (∀ replay, t.core ≠ .done (.fellBack replay)) ∧
            ∃ error, t.core = .done (.failed error) := by
  intro hall
  obtain ⟨t, ht, hreplay, hcore⟩ :=
    answered_run (List.replicate (maxRealtimeReplayBytes + 1) 0) (by simp)
  obtain ⟨tr, hrun, hevents⟩ := Runs.Run.execOption (· = start oneSession) ht
  obtain ⟨-, error, hfailed⟩ := hall oneSession _ t tr rfl hrun (by rw [hcore]; rfl)
    (by rw [hreplay, hevents]; exact (List.cons_ne_nil _ _).symm)
  rw [hcore] at hfailed
  cases hfailed

end NativeSession

end Llmleaf.Realtime
