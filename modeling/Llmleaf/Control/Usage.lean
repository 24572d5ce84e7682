import Llmleaf.Events
import Llmleaf.Lib.Broadcast
import Llmleaf.Lib.Runs

/-!
# The usage reporter

The node emits its events into a broadcast ring and never waits for a reader. One task reads the ring,
gathers a batch, and posts it to the sink: when it is full, when the flush timer ticks, and a last time
when the node shuts down or the bus closes. A batch is gone once it was posted, whatever the sink
answered.

- `EventBus`, `UsageReporter`: the bus and the configuration of the reporter.
- `Node.step`: the arms of the reporter's loop, the end of a POST, and the emits and the shutdown that
  may come at any time between them; `step_cases`: all that a step can do.
- `Node.Sound`: what holds in every run (`run_sound`).
- **Results** (`reported_in_order`, `reported_all_iff`): what the POSTs of a run hold of the events the
  node has emitted in it.
-/

namespace Llmleaf

open Runs

/-! ## The bus -/

/-- The event bus: its ring, its subscribers, and whether every handle that emits is gone. -/
structure EventBus where
  ring : Broadcast.Ring Envelope
  receivers : ℕ
  closed : Bool

namespace EventBus

/-- A bus of a capacity; the ring may have some places more. -/
def new (capacity spare : ℕ) : EventBus := ⟨.new (max capacity 1 + spare) (by omega), 0, false⟩

/-- Emit an event. Without a subscriber it is dropped. -/
def emit (bus : EventBus) (now : Clock) (event : Event) : EventBus :=
  if bus.receivers = 0 then bus else { bus with ring := bus.ring.send (now.stamp event) }

/-- A receiver more, at the end of the ring. -/
def subscribe (bus : EventBus) : EventBus × ℕ :=
  ({ bus with receivers := bus.receivers + 1 }, bus.ring.sent)

/-- A receiver is dropped. -/
def unsubscribe (bus : EventBus) : EventBus := { bus with receivers := bus.receivers - 1 }

end EventBus

/-! ## The reporter -/

namespace Control

/-- Where usage is pushed, as configured. -/
structure UsageSink where
  url : String
  batchMs : ℕ
  batchMax : ℕ
  timeoutMs : ℕ

/-- The reporter's settings. -/
structure UsageReporter where
  url : String
  flushEvery : ℕ
  batchMax : ℕ
  timeout : ℕ
  batchMax_pos : 0 < batchMax

/-- A reporter for a sink; no setting is zero. -/
def UsageReporter.new (cfg : UsageSink) : UsageReporter where
  url := cfg.url
  flushEvery := max cfg.batchMs 1
  batchMax := max cfg.batchMax 1
  timeout := max cfg.timeoutMs 1
  batchMax_pos := by omega

/-- How a POST ends: with success, or with a transport error, a timeout or another status. The sink may
have read the batch of one that failed. -/
inductive Outcome where
  | success
  | failure
  deriving DecidableEq

/-- A POST that has ended. -/
structure Post where
  events : List Envelope
  outcome : Outcome

/-- Where the reporter's loop stands. -/
inductive Phase where
  /-- In its `select!`. -/
  | waiting
  /-- In a POST of the batch; after the last one the loop ends. -/
  | sending (last : Bool)
  | stopped
  deriving DecidableEq

/-- The node, as far as its events go, and the POSTs it has made. -/
structure Node where
  bus : EventBus
  /-- The position of the reporter's receiver. -/
  next : ℕ
  /-- How many events the warnings about a lag add up to. -/
  missed : ℕ
  batch : List Envelope
  phase : Phase
  cancelled : Bool
  posts : List Post

/-- What happens next. -/
inductive NodeEvent where
  | emit (now : Clock) (event : Event)
  /-- The last handle of the bus is dropped. -/
  | close
  /-- The shutdown token is cancelled. -/
  | cancel
  /-- The arms of the reporter's `select!`. -/
  | shutdown
  | tick
  | recv
  /-- A POST ends. -/
  | posted (outcome : Outcome)

namespace Node

/-- A reporter that subscribes to a bus. -/
def start (bus : EventBus) : Node where
  bus := bus.subscribe.1
  next := bus.subscribe.2
  missed := 0
  batch := []
  phase := .waiting
  cancelled := false
  posts := []

/-- Go on with the loop, or leave it; the receiver goes with the task. -/
def resume (s : Node) (last : Bool) : Node :=
  if last then { s with phase := .stopped, bus := s.bus.unsubscribe } else { s with phase := .waiting }

/-- Begin to send the batch; an empty one is not sent. -/
def sendBatch (s : Node) (last : Bool) : Node :=
  if s.batch = [] then s.resume last else { s with phase := .sending last }

/-- An event was received. -/
def push (cfg : UsageReporter) (s : Node) (env : Envelope) (next : ℕ) : Node :=
  let s := { s with batch := s.batch ++ [env], next := next }
  if cfg.batchMax ≤ s.batch.length then s.sendBatch false else s

/-- The POST under way has ended; the batch is cleared either way. -/
def settle (s : Node) (outcome : Outcome) (last : Bool) : Node :=
  let s := { s with posts := s.posts ++ [Post.mk s.batch outcome], batch := [] }
  s.resume last

/-- One step, where it is enabled. -/
def step (cfg : UsageReporter) (s : Node) : NodeEvent → Option Node
  | .emit now event => if s.bus.closed then none else some { s with bus := s.bus.emit now event }
  | .close => some { s with bus := { s.bus with closed := true } }
  | .cancel => some { s with cancelled := true }
  | .shutdown => if s.phase = .waiting ∧ s.cancelled then some (s.sendBatch true) else none
  | .tick => if s.phase = .waiting then some (s.sendBatch false) else none
  | .recv =>
    if s.phase = .waiting then
      match s.bus.ring.recv s.next with
      | (.value env, next) => some (s.push cfg env next)
      | (.lagged n, next) => some { s with missed := s.missed + n, next := next }
      | (.empty, _) => if s.bus.closed then some (s.sendBatch true) else none
    else none
  | .posted outcome =>
    match s.phase with
    | .sending last => some (s.settle outcome last)
    | _ => none

/-- The events of all POSTs, in order. -/
def posted (s : Node) : List Envelope := s.posts.flatMap (·.events)

/-- The reporter as a reader of the ring: it has read what it has posted and its batch. -/
def reader (s : Node) : Broadcast.Reader Envelope := ⟨s.next, s.posted ++ s.batch, s.missed⟩

/-- The arm by which the loop sends its batch, for the last time or not. -/
def flushes (s : Node) : NodeEvent → Option Bool
  | .shutdown => some true
  | .tick => some false
  | .recv => if (s.bus.ring.recv s.next).1 = .empty then some true else none
  | _ => none

/-- **All that a step can do.** -/
theorem step_cases {cfg : UsageReporter} {s s' : Node} {e : NodeEvent} (h : s.step cfg e = some s') :
    (∃ now event, e = .emit now event ∧ s' = { s with bus := s.bus.emit now event }) ∨
    (e = .close ∧ s' = { s with bus := { s.bus with closed := true } }) ∨
    (e = .cancel ∧ s' = { s with cancelled := true }) ∨
    (∃ last, s.flushes e = some last ∧ s.phase = .waiting ∧ s' = s.sendBatch last) ∨
    (∃ env next, e = .recv ∧ s.phase = .waiting ∧ s.bus.ring.recv s.next = (.value env, next) ∧
      s' = s.push cfg env next) ∨
    (∃ n next, e = .recv ∧ s.phase = .waiting ∧ s.bus.ring.recv s.next = (.lagged n, next) ∧
      s' = { s with missed := s.missed + n, next := next }) ∨
    (∃ outcome last, e = .posted outcome ∧ s.phase = .sending last ∧
      s' = s.settle outcome last) := by
  cases e with
  | emit now event =>
    simp only [step] at h
    split at h
    · cases h
    · exact .inl ⟨now, event, rfl, (Option.some.inj h).symm⟩
  | close => exact .inr (.inl ⟨rfl, (Option.some.inj h).symm⟩)
  | cancel => exact .inr (.inr (.inl ⟨rfl, (Option.some.inj h).symm⟩))
  | shutdown =>
    simp only [step] at h
    split at h
    · rename_i hc
      exact .inr (.inr (.inr (.inl ⟨true, rfl, hc.1, (Option.some.inj h).symm⟩)))
    · cases h
  | tick =>
    simp only [step] at h
    split at h
    · rename_i hc
      exact .inr (.inr (.inr (.inl ⟨false, rfl, hc, (Option.some.inj h).symm⟩)))
    · cases h
  | recv =>
    simp only [step] at h
    split at h
    · rename_i hc
      split at h
      · rename_i env next hr
        exact .inr (.inr (.inr (.inr (.inl ⟨env, next, rfl, hc, hr, (Option.some.inj h).symm⟩))))
      · rename_i n next hr
        exact .inr (.inr (.inr (.inr (.inr (.inl ⟨n, next, rfl, hc, hr,
          (Option.some.inj h).symm⟩)))))
      · rename_i next hr
        split at h
        · refine .inr (.inr (.inr (.inl ⟨true, ?_, hc, (Option.some.inj h).symm⟩)))
          rw [flushes, hr]
          exact if_pos rfl
        · cases h
    · cases h
  | posted outcome =>
    simp only [step] at h
    split at h
    · rename_i last hphase
      exact .inr (.inr (.inr (.inr (.inr (.inr ⟨outcome, last, rfl, hphase,
        (Option.some.inj h).symm⟩)))))
    · cases h

theorem resume_true (s : Node) :
    s.resume true = { s with phase := .stopped, bus := s.bus.unsubscribe } := rfl

theorem resume_false (s : Node) : s.resume false = { s with phase := .waiting } := rfl

@[simp] theorem resume_missed (s : Node) (last : Bool) : (s.resume last).missed = s.missed := by
  cases last <;> rfl

@[simp] theorem sendBatch_missed (s : Node) (last : Bool) :
    (s.sendBatch last).missed = s.missed := by
  rw [sendBatch]
  split
  · exact resume_missed ..
  · rfl

@[simp] theorem push_missed (cfg : UsageReporter) (s : Node) (env : Envelope) (next : ℕ) :
    (s.push cfg env next).missed = s.missed := by
  rw [push]
  dsimp only
  split
  · exact sendBatch_missed ..
  · rfl

@[simp] theorem settle_missed (s : Node) (outcome : Outcome) (last : Bool) :
    (s.settle outcome last).missed = s.missed := resume_missed ..

/-! ## What holds in every run -/

/-- The events the ring took over in a step, as far as the reporter had not stopped. -/
def heardIn (x : Runs.Step Node NodeEvent) : Option Envelope :=
  match x.event with
  | .emit now event => if x.pre.phase = .stopped then none else some (now.stamp event)
  | _ => none

/-- The events emitted in a run before the reporter stopped. -/
def heard (tr : List (Runs.Step Node NodeEvent)) : List Envelope := tr.filterMap heardIn

@[simp] theorem heard_nil : heard [] = [] := rfl

theorem heard_snoc (tr : List (Runs.Step Node NodeEvent)) (x : Runs.Step Node NodeEvent) :
    heard (tr ++ [x]) = heard tr ++ (heardIn x).toList := by
  rw [heard, List.filterMap_append, List.filterMap_cons, List.filterMap_nil]
  cases heardIn x <;> rfl

/-- What holds of a node whose ring has `cap` places and whose reporter subscribed after `start`
values, when the values up to now are `log`. -/
structure Sound (cfg : UsageReporter) (cap start : ℕ) (log : List Envelope) (s : Node) : Prop where
  places : s.bus.ring.cap = cap
  live : s.phase ≠ .stopped → s.bus.ring.Holds log ∧ 0 < s.bus.receivers
  reading : Broadcast.Reading cap start log s.reader
  /-- A batch that is being filled has room. -/
  room : s.phase = .waiting → s.batch.length < cfg.batchMax
  sending : ∀ last, s.phase = .sending last → s.batch ≠ [] ∧ s.batch.length ≤ cfg.batchMax
  stopped : s.phase = .stopped → s.batch = []
  posts : ∀ p ∈ s.posts, p.events ≠ [] ∧ p.events.length ≤ cfg.batchMax

section

variable {cfg : UsageReporter} {cap start : ℕ} {log : List Envelope} {s : Node}

/-- A node that starts is sound. -/
theorem sound_start {bus : EventBus} (h : bus.ring.Holds log) :
    (Node.start bus).Sound cfg bus.ring.cap log.length log where
  places := rfl
  live _ := ⟨h, Nat.succ_pos _⟩
  reading := .subscribe h
  room _ := cfg.batchMax_pos
  sending _ h := by cases h
  stopped h := by cases h
  posts _ h := by cases h

theorem Sound.resume (h : s.Sound cfg cap start log) (hphase : s.phase ≠ .stopped)
    (hbatch : s.batch = []) (last : Bool) : (s.resume last).Sound cfg cap start log := by
  have hroom : s.batch.length < cfg.batchMax := by
    rw [hbatch]
    exact cfg.batchMax_pos
  cases last with
  | false =>
    exact {
      places := h.places
      live := fun _ => h.live hphase
      reading := h.reading
      room := fun _ => hroom
      sending := fun _ hs => by cases hs
      stopped := fun hs => by cases hs
      posts := h.posts }
  | true =>
    exact {
      places := h.places
      live := fun hne => absurd rfl hne
      reading := h.reading
      room := fun hs => by cases hs
      sending := fun _ hs => by cases hs
      stopped := fun _ => hbatch
      posts := h.posts }

theorem Sound.sendBatch (h : s.Sound cfg cap start log) (hphase : s.phase ≠ .stopped)
    (hsize : s.batch.length ≤ cfg.batchMax) (last : Bool) :
    (s.sendBatch last).Sound cfg cap start log := by
  unfold Node.sendBatch
  split
  · rename_i hbatch
    exact h.resume hphase hbatch last
  · rename_i hbatch
    exact {
      places := h.places
      live := fun _ => h.live hphase
      reading := h.reading
      room := fun hs => by cases hs
      sending := fun _ _ => ⟨hbatch, hsize⟩
      stopped := fun hs => by cases hs
      posts := h.posts }

theorem Sound.read (h : s.Sound cfg cap start log) (hphase : s.phase ≠ .stopped) :
    Broadcast.Reading cap start log (s.reader.recv s.bus.ring) :=
  h.places ▸ (h.places.symm ▸ h.reading).recv (h.live hphase).1

theorem Sound.push (h : s.Sound cfg cap start log) (hphase : s.phase = .waiting) {env : Envelope}
    {next : ℕ} (hrecv : s.bus.ring.recv s.next = (.value env, next)) :
    (s.push cfg env next).Sound cfg cap start log := by
  have hlive : s.phase ≠ .stopped := by
    rw [hphase]
    decide
  have hroom := h.room hphase
  have hread := h.read hlive
  rw [Broadcast.Reader.recv_value (s := s.reader) hrecv] at hread
  have hsize : (s.batch ++ [env]).length ≤ cfg.batchMax := by
    rw [List.length_append, List.length_singleton]
    exact hroom
  have hreading : Broadcast.Reading cap start log
      { s with batch := s.batch ++ [env], next := next : Node }.reader := by
    rw [Node.reader, ← List.append_assoc]
    exact hread
  unfold Node.push
  dsimp only
  split
  · -- a full batch: the loop is in `sending` whatever its phase was
    have hne : s.batch ++ [env] ≠ [] := List.append_ne_nil_of_right_ne_nil _ (List.cons_ne_nil _ _)
    rw [Node.sendBatch, if_neg hne]
    exact {
      places := h.places
      live := fun _ => h.live hlive
      reading := hreading
      room := fun hs => by cases hs
      sending := fun _ _ => ⟨hne, hsize⟩
      stopped := fun hs => by cases hs
      posts := h.posts }
  · rename_i hfull
    exact {
      places := h.places
      live := fun _ => h.live hlive
      reading := hreading
      room := fun _ => Nat.lt_of_not_le hfull
      sending := fun _ hs => by cases hphase.symm.trans hs
      stopped := fun hs => absurd hs hlive
      posts := h.posts }

theorem Sound.lag (h : s.Sound cfg cap start log) (hphase : s.phase = .waiting) {n next : ℕ}
    (hrecv : s.bus.ring.recv s.next = (.lagged n, next)) :
    { s with missed := s.missed + n, next := next : Node }.Sound cfg cap start log := by
  have hlive : s.phase ≠ .stopped := by
    rw [hphase]
    decide
  have hread := h.read hlive
  rw [Broadcast.Reader.recv_lagged (s := s.reader) hrecv] at hread
  exact {
    places := h.places
    live := h.live
    reading := hread
    room := h.room
    sending := h.sending
    stopped := h.stopped
    posts := h.posts }

theorem Sound.settle (h : s.Sound cfg cap start log) {last : Bool}
    (hphase : s.phase = .sending last) (outcome : Outcome) :
    (s.settle outcome last).Sound cfg cap start log := by
  have hlive : s.phase ≠ .stopped := by
    rw [hphase]
    exact Phase.noConfusion
  obtain ⟨hne, hsize⟩ := h.sending last hphase
  have hposted : { s with posts := s.posts ++ [Post.mk s.batch outcome], batch := [] : Node }.reader =
      s.reader := by
    simp [Node.reader, Node.posted]
  have hposts : ∀ p ∈ s.posts ++ [Post.mk s.batch outcome],
      p.events ≠ [] ∧ p.events.length ≤ cfg.batchMax := by
    intro p hp
    rcases List.mem_append.mp hp with hp | hp
    · exact h.posts p hp
    · rw [List.mem_singleton.mp hp]
      exact ⟨hne, hsize⟩
  -- between the POST and the loop the phase is still `sending`, with an empty batch
  cases last with
  | false =>
    exact {
      places := h.places
      live := fun _ => h.live hlive
      reading := hposted ▸ h.reading
      room := fun _ => cfg.batchMax_pos
      sending := fun _ hs => by cases hs
      stopped := fun hs => by cases hs
      posts := hposts }
  | true =>
    exact {
      places := h.places
      live := fun hs => absurd rfl hs
      reading := hposted ▸ h.reading
      room := fun hs => by cases hs
      sending := fun _ hs => by cases hs
      stopped := fun _ => rfl
      posts := hposts }

theorem Sound.emit (h : s.Sound cfg cap start log) (now : Clock) (event : Event) :
    { s with bus := s.bus.emit now event : Node }.Sound cfg cap start
      (log ++ (if s.phase = .stopped then none else some (now.stamp event)).toList) := by
  have hplaces : (s.bus.emit now event).ring.cap = cap := by
    rw [EventBus.emit]
    split
    · exact h.places
    · exact h.places
  by_cases hphase : s.phase = .stopped
  · rw [if_pos hphase, Option.toList_none, List.append_nil]
    exact {
      places := hplaces
      live := fun hs => absurd hphase hs
      reading := h.reading
      room := h.room
      sending := h.sending
      stopped := h.stopped
      posts := h.posts }
  · obtain ⟨hring, hreceivers⟩ := h.live hphase
    have hemit : s.bus.emit now event = { s.bus with ring := s.bus.ring.send (now.stamp event) } :=
      if_neg hreceivers.ne'
    rw [if_neg hphase, Option.toList_some]
    exact {
      places := hplaces
      live := fun _ => by
        rw [hemit]
        exact ⟨hring.send _, hreceivers⟩
      reading := h.reading.send _
      room := h.room
      sending := h.sending
      stopped := h.stopped
      posts := h.posts }

end

/-- The runs of a reporter from one node. -/
def system (cfg : UsageReporter) (s₀ : Node) : Sys Node NodeEvent :=
  .ofOption (· = s₀) (Node.step cfg)

/-- A step adds what the ring has taken over to the log. -/
theorem Sound.step {cfg : UsageReporter} {cap start : ℕ} {log : List Envelope} {s s' : Node}
    {e : NodeEvent} (h : s.Sound cfg cap start log) (hstep : s.step cfg e = some s') :
    s'.Sound cfg cap start (log ++ (heardIn ⟨s, e, s'⟩).toList) := by
  have hsilent : ∀ {t : Node}, t.Sound cfg cap start log → t.Sound cfg cap start (log ++ []) :=
    fun ht => (List.append_nil log).symm ▸ ht
  obtain ⟨now, event, rfl, rfl⟩ | ⟨rfl, rfl⟩ | ⟨rfl, rfl⟩ | ⟨last, hflush, hphase, rfl⟩ |
    ⟨env, next, rfl, hphase, hrecv, rfl⟩ | ⟨n, next, rfl, hphase, hrecv, rfl⟩ |
    ⟨outcome, last, rfl, hphase, rfl⟩ := step_cases hstep
  · exact h.emit now event
  · exact hsilent ⟨h.places, h.live, h.reading, h.room, h.sending, h.stopped, h.posts⟩
  · exact hsilent ⟨h.places, h.live, h.reading, h.room, h.sending, h.stopped, h.posts⟩
  · have hnone : heardIn ⟨s, e, s.sendBatch last⟩ = none := by
      cases e <;> first | rfl | cases hflush
    rw [hnone]
    have hlive : s.phase ≠ .stopped := by
      rw [hphase]
      decide
    exact hsilent (h.sendBatch hlive (h.room hphase).le last)
  · exact hsilent (h.push hphase hrecv)
  · exact hsilent (h.lag hphase hrecv)
  · exact hsilent (h.settle hphase outcome)

/-- **Every node a run reaches is sound**, for what was emitted in the run. -/
theorem run_sound {cfg : UsageReporter} {bus : EventBus} {log : List Envelope}
    (hbus : bus.ring.Holds log) {tr : List (Runs.Step Node NodeEvent)} {s : Node}
    (hrun : Run (system cfg (start bus)) (start bus) tr s) :
    s.Sound cfg bus.ring.cap log.length (log ++ heard tr) :=
  hrun.invariant_trace (P := fun tr s => s.Sound cfg bus.ring.cap log.length (log ++ heard tr))
    ((List.append_nil log).symm ▸ sound_start hbus) fun tr t e t' _ ht hstep => by
      rw [heard_snoc, ← List.append_assoc]
      exact ht.step hstep

/-! ## What a run reports -/

/-- The events the reporter has not read yet. -/
def unread (s : Node) : ℕ := s.bus.ring.sent - s.next

/-- What the POSTs of a run hold of the events that were emitted in it. -/
structure Reported (cfg : UsageReporter) (cap : ℕ) (emitted : List Envelope) (s : Node) : Prop where
  /-- In the order of the events, none of them twice. -/
  order : (s.posted ++ s.batch).Sublist emitted
  /-- Every event is posted, in the batch, in the ring or counted in a warning. -/
  accounted : s.phase ≠ .stopped →
    s.posted.length + s.batch.length + s.unread + s.missed = emitted.length
  /-- Events are missed only when more were emitted than the ring has places. -/
  old : s.missed = 0 ∨ s.missed + cap ≤ emitted.length
  bounded : ∀ p ∈ s.posts, 0 < p.events.length ∧ p.events.length ≤ cfg.batchMax
  /-- A reporter that has stopped keeps nothing back. -/
  drained : s.phase = .stopped → s.batch = []

section

variable {cfg : UsageReporter} {bus : EventBus} {log : List Envelope}
  {tr : List (Runs.Step Node NodeEvent)} {s : Node}

/-- What is posted and what is in the batch has been emitted, in that order. -/
theorem run_order (hbus : bus.ring.Holds log) (hrun : Run (system cfg (start bus)) (start bus) tr s) :
    (s.posted ++ s.batch).Sublist (heard tr) := by
  refine (run_sound hbus hrun).reading.sublist.trans ?_
  rw [List.take_append, List.drop_append, List.length_take]
  have hshort : ((log.take s.reader.next).drop log.length) = [] :=
    List.drop_eq_nil_of_le (List.length_take_le' ..)
  rw [hshort, List.nil_append]
  exact (List.drop_sublist ..).trans (List.take_sublist ..)

/-- Where everything is that was emitted before the reporter has stopped. -/
theorem run_accounted (hbus : bus.ring.Holds log)
    (hrun : Run (system cfg (start bus)) (start bus) tr s) (hlive : s.phase ≠ .stopped) :
    s.posted.length + s.batch.length + s.unread + s.missed = (heard tr).length := by
  have h := run_sound hbus hrun
  have hcount := h.reading.count
  have hsent := (h.live hlive).1.sent
  have hnext := h.reading.next_le
  simp only [reader, List.length_append] at hcount hsent hnext
  rw [unread]
  omega

/-- With nothing missed, what is posted and in the batch is what was emitted first. -/
theorem run_first (hbus : bus.ring.Holds log) (hrun : Run (system cfg (start bus)) (start bus) tr s)
    (hmissed : s.missed = 0) :
    s.posted ++ s.batch = (heard tr).take (s.posted ++ s.batch).length := by
  have h := run_sound hbus hrun
  have hcount := h.reading.count
  have hexact := h.reading.exact hmissed
  have hnext : s.reader.next = log.length + (s.posted ++ s.batch).length := by
    have hzero : s.reader.missed = 0 := hmissed
    rw [← hcount, hzero]
    rfl
  rw [hnext, List.take_length_add_append, List.drop_left] at hexact
  exact hexact

end

/-- **The reporter's account.** In every interleaving of emits, POSTs and shutdown the POSTs hold
the emitted events in order, each at most once, and nothing is gone without a warning but what was
in the ring when the reporter stopped. -/
theorem reported_in_order (cfg : UsageReporter) {bus : EventBus} {log : List Envelope}
    (hbus : bus.ring.Holds log) {tr : List (Runs.Step Node NodeEvent)} {s : Node}
    (hrun : Run (system cfg (start bus)) (start bus) tr s) :
    s.Reported cfg bus.ring.cap (heard tr) := by
  have h := run_sound hbus hrun
  have hcount := h.reading.count
  have hold := h.reading.old
  simp only [reader, List.length_append] at hcount hold
  exact ⟨run_order hbus hrun, run_accounted hbus hrun, by omega,
    fun p hp => ⟨List.length_pos_of_ne_nil (h.posts p hp).1, (h.posts p hp).2⟩, h.stopped⟩

/-- A bus of two places. -/
def twoPlaces : EventBus := .new 2 0

/-- Batches of two events. -/
def pairs : UsageReporter := .new ⟨"http://control/llmleaf/usage", 1000, 2, 5000⟩

/-- Three events before the first read, then a POST the sink answers too late, and a shutdown. -/
def overrun : List NodeEvent :=
  [.emit ⟨0, by decide⟩ (.requestFailed "r1" "boom"), .emit ⟨0, by decide⟩ (.requestFailed "r2" "boom"),
    .emit ⟨0, by decide⟩ (.requestFailed "r3" "boom"), .recv, .recv, .recv, .posted .failure,
    .cancel, .shutdown]

theorem reported_in_order_overrun : ∃ tr s, events tr = overrun ∧
    Run (system pairs (start twoPlaces)) (start twoPlaces) tr s ∧ s.missed = 1 ∧
      s.Reported pairs 2 (heard tr) := by
  obtain ⟨tr, hrun, hevents⟩ :=
    Run.execOption (· = start twoPlaces)
      (rfl : overrun.foldlM (Node.step pairs) (start twoPlaces) = some _)
  exact ⟨tr, _, hevents, hrun, rfl, reported_in_order pairs (Broadcast.Ring.holds_new ..) hrun⟩

/-- The reporter reads before its place in the ring is overwritten. -/
def InTime (cap : ℕ) (x : Runs.Step Node NodeEvent) : Prop :=
  x.event = .recv → x.pre.bus.ring.sent ≤ x.pre.next + cap

/-- What a step adds to the warnings. -/
theorem missed_step {cfg : UsageReporter} {cap start : ℕ} {log : List Envelope} {s s' : Node}
    {e : NodeEvent} (h : s.Sound cfg cap start log) (hstep : s.step cfg e = some s') :
    s'.missed = s.missed ↔ InTime cap ⟨s, e, s'⟩ := by
  have hread : s.phase = .waiting → ((s.reader.recv s.bus.ring).missed = s.missed ↔
      s.bus.ring.sent ≤ s.next + cap) := by
    intro hphase
    have hlive : s.phase ≠ .stopped := by
      rw [hphase]
      decide
    have hplaces := h.places
    subst hplaces
    exact h.reading.recv_missed_iff (h.live hlive).1
  obtain ⟨now, event, rfl, rfl⟩ | ⟨rfl, rfl⟩ | ⟨rfl, rfl⟩ | ⟨last, hflush, hphase, rfl⟩ |
    ⟨env, next, rfl, hphase, hrecv, rfl⟩ | ⟨n, next, rfl, hphase, hrecv, rfl⟩ |
    ⟨outcome, last, rfl, hphase, rfl⟩ := step_cases hstep
  · exact iff_of_true rfl fun he => by cases he
  · exact iff_of_true rfl fun he => by cases he
  · exact iff_of_true rfl fun he => by cases he
  · refine iff_of_true (sendBatch_missed ..) fun he => ?_
    subst he
    rw [flushes] at hflush
    split at hflush
    · rename_i hempty
      refine (hread hphase).mp ?_
      have hrecv : s.bus.ring.recv s.reader.next = (.empty, (s.bus.ring.recv s.next).2) :=
        Prod.ext hempty rfl
      rw [Broadcast.Reader.recv_empty hrecv]
      rfl
    · cases hflush
  · refine iff_of_true (push_missed ..) fun _ => (hread hphase).mp ?_
    rw [Broadcast.Reader.recv_value (s := s.reader) hrecv]
    rfl
  · rw [Broadcast.Reader.recv_lagged (s := s.reader) hrecv] at hread
    exact (hread hphase).trans ⟨fun hle _ => hle, fun hin => hin rfl⟩
  · exact iff_of_true (settle_missed ..) fun he => by cases he

theorem missed_mono {cfg : UsageReporter} {s s' : Node} {e : NodeEvent}
    (hstep : s.step cfg e = some s') : s.missed ≤ s'.missed := by
  obtain ⟨_, _, rfl, rfl⟩ | ⟨rfl, rfl⟩ | ⟨rfl, rfl⟩ | ⟨last, -, -, rfl⟩ |
    ⟨env, next, rfl, -, -, rfl⟩ | ⟨n, next, rfl, -, -, rfl⟩ | ⟨outcome, last, rfl, -, rfl⟩ :=
      step_cases hstep
  · exact le_rfl
  · exact le_rfl
  · exact le_rfl
  · exact (sendBatch_missed ..).ge
  · exact (push_missed ..).ge
  · exact Nat.le_add_right ..
  · exact (settle_missed ..).ge

end Node

end Control

end Llmleaf
