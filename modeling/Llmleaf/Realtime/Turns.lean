import Llmleaf.Lib.Strings
import Llmleaf.Realtime.Session

/-!
# The turns of a bridged session

On the wire a turn opens with `response.created` and closes with `response.done`, both with the id
of its response. The engine may refuse the request of a turn, before its stream or with an error in
it; an error in the stream closes the response as failed, a refusal only sends an error frame.

- `Framed id closed frames`: the frames of one turn, the closing one only if `closed`.
- `step_serves`: a step sends the frames of one turn, or frames that neither open nor close one.
- `run_closings`: no two frames of a session close the same response.
- **Result** (`turns_terminate_iff`): over a socket that takes every frame, every response that is
  opened is closed, once and last in its turn, exactly if the engine refuses no turn.
-/

namespace Llmleaf.Realtime

open Value

/-- The response that a frame of a type is about. -/
def responseIn (ty : String) (frame : Value) : Option String :=
  if typeOf frame = some ty then ((frame.get "response").bind (·.get "id")).bind asStr else none

/-- The response that a frame opens. -/
def createdId (frame : Value) : Option String := responseIn "response.created" frame

/-- The response that a frame closes. -/
def doneId (frame : Value) : Option String := responseIn "response.done" frame

/-- A frame of another type. -/
theorem responseIn_of_typeOf {ty ty' : String} {frame : Value} (h : typeOf frame = some ty')
    (hne : ty' ≠ ty) : responseIn ty frame = none := by
  rw [responseIn, if_neg]
  rw [h]
  exact fun heq => hne (Option.some.inj heq)

/-! ## Frames that neither open nor close a response -/

/-- The frames neither open nor close a response. -/
def Plain (frames : List Value) : Prop := ∀ f ∈ frames, createdId f = none ∧ doneId f = none

namespace Plain

theorem nil : Plain [] := by
  intro f hf
  cases hf

theorem append {a b : List Value} (ha : Plain a) (hb : Plain b) : Plain (a ++ b) := by
  intro f hf
  rcases List.mem_append.mp hf with hf | hf
  · exact ha f hf
  · exact hb f hf

theorem of_prefix {a b : List Value} (h : a <+: b) (hb : Plain b) : Plain a :=
  fun f hf => hb f (h.subset hf)

/-- One more frame, of another type. -/
theorem cons {frame : Value} {frames : List Value} {ty : String} (hty : typeOf frame = some ty)
    (hcreated : ty ≠ "response.created") (hdone : ty ≠ "response.done") (h : Plain frames) :
    Plain (frame :: frames) := by
  intro f hf
  rcases List.mem_cons.mp hf with rfl | hf
  · exact ⟨responseIn_of_typeOf hty hcreated, responseIn_of_typeOf hty hdone⟩
  · exact h f hf

theorem created {frames : List Value} (h : Plain frames) : frames.filterMap createdId = [] :=
  List.filterMap_eq_nil_iff.mpr fun f hf => (h f hf).1

theorem done {frames : List Value} (h : Plain frames) : frames.filterMap doneId = [] :=
  List.filterMap_eq_nil_iff.mpr fun f hf => (h f hf).2

end Plain

/-- The type of an object that is written type first. -/
theorem typeOf_obj {ty : String} {fields : List (String × Value)}
    (h : ∀ e ∈ fields, e.1 ≠ "type") : typeOf (obj (("type", string ty) :: fields)) = some ty := by
  have hnone : fields.reverse.find? (·.1 = "type") = none :=
    List.find?_eq_none.mpr fun e he => by simpa using h e (List.mem_reverse.mp he)
  rw [typeOf, get_obj, List.reverse_cons, List.find?_append, hnone]
  rfl

theorem plain_errorFrame (code message : String) : Plain [errorFrame code message] :=
  .cons (typeOf_obj (by simp)) (by simp) (by simp) .nil

namespace ResponseScaffold

variable (self : ResponseScaffold)

theorem plain_onContent (delta : String) : Plain (self.onContent delta).2 := by
  refine Plain.append ?_ (.cons (typeOf_obj (by simp)) (by simp) (by simp) .nil)
  split
  · exact .nil
  · exact .cons (typeOf_obj (by simp)) (by simp) (by simp)
      (.cons (typeOf_obj (by simp)) (by simp) (by simp) .nil)

theorem plain_onToolCall (call : ToolCallDelta) : Plain (self.onToolCall call).2 := by
  have hopening : ∀ item, Plain (if (self.toolEntry call).opened then [] else
      [obj [("type", string "response.output_item.added"), ("response_id", string self.responseId),
        ("output_index", nat (self.toolEntry call).outputIndex), ("item", item)]]) := by
    intro item
    split
    · exact .nil
    · exact .cons (typeOf_obj (by simp)) (by simp) (by simp) .nil
  rw [onToolCall]
  cases call.arguments with
  | none => exact hopening _
  | some args =>
    exact (hopening _).append (.cons (typeOf_obj (by simp)) (by simp) (by simp) .nil)

/-- A chunk opens and closes no response. -/
theorem plain_onChunk (chunk : StreamChunk) : Plain (self.onChunk chunk).2 := by
  cases chunk with
  | content i delta => exact self.plain_onContent delta
  | toolCall i call => exact self.plain_onToolCall call
  | _ => exact .nil

/-- The response of a turn keeps its id. -/
@[simp] theorem onChunk_responseId (chunk : StreamChunk) :
    (self.onChunk chunk).1.responseId = self.responseId := by
  cases chunk with
  | toolCall i call =>
    simp only [onChunk, onToolCall]
    cases call.arguments <;> rfl
  | _ => rfl

theorem plain_textDone : Plain self.textDone :=
  .cons (typeOf_obj (by simp)) (by simp) (by simp) <|
    .cons (typeOf_obj (by simp)) (by simp) (by simp) <|
    .cons (typeOf_obj (by simp)) (by simp) (by simp) <|
    .cons (typeOf_obj (by simp)) (by simp) (by simp) .nil

theorem plain_toolDone (tool : ToolAcc) : Plain (self.toolDone tool) :=
  .cons (typeOf_obj (by simp)) (by simp) (by simp) <|
    .cons (typeOf_obj (by simp)) (by simp) (by simp) .nil

theorem createdId_created : createdId self.created = some self.responseId := by
  simp [createdId, responseIn, created, typeOf, get_obj, asStr]

theorem doneId_created : doneId self.created = none :=
  responseIn_of_typeOf (typeOf_obj (by simp)) (by simp)

/-- The closing frames end with the one that closes the response. -/
theorem finish_eq (reason : FinishReason) (usage : Usage) :
    ∃ inner last, self.finish reason usage = inner ++ [last] ∧ Plain inner ∧
      createdId last = none ∧ doneId last = some self.responseId := by
  refine ⟨_, _, rfl, Plain.append ?_ ?_, ?_, ?_⟩
  · split
    · exact self.plain_textDone
    · exact .nil
  · intro f hf
    obtain ⟨e, -, hf⟩ := List.mem_flatMap.mp hf
    exact self.plain_toolDone e.2 f hf
  · exact responseIn_of_typeOf (typeOf_obj (by simp)) (by simp)
  · simp [doneId, responseIn, typeOf, get_obj, asStr]

end ResponseScaffold

/-! ## The frames of a turn -/

/-- The frames of a turn: the one that opens the response, plain ones, and the one that closes it
if it is `closed`. -/
def Framed (id : String) (closed : Bool) (frames : List Value) : Prop :=
  ∃ first inner tail, frames = first :: inner ++ tail ∧ createdId first = some id ∧
    doneId first = none ∧ Plain inner ∧
    if closed then ∃ last, tail = [last] ∧ createdId last = none ∧ doneId last = some id
    else tail = []

namespace Framed

variable {id : String} {closed : Bool} {frames : List Value}

/-- An opened response without its closing frame. -/
theorem opened {first : Value} {inner : List Value} (hcreated : createdId first = some id)
    (hdone : doneId first = none) (h : Plain inner) : Framed id false (first :: inner) :=
  ⟨first, inner, [], by simp, hcreated, hdone, h, rfl⟩

/-- An opened response with its closing frame. -/
theorem close {last : Value} (h : Framed id false frames) (hcreated : createdId last = none)
    (hdone : doneId last = some id) : Framed id true (frames ++ [last]) := by
  obtain ⟨first, inner, _, rfl, hfirst, hnone, hinner, rfl⟩ := h
  exact ⟨first, inner, [last], by simp, hfirst, hnone, hinner, last, rfl, hcreated, hdone⟩

/-- More plain frames before the closing one. -/
theorem append {more : List Value} (h : Framed id false frames) (hmore : Plain more) :
    Framed id false (frames ++ more) := by
  obtain ⟨first, inner, _, rfl, hfirst, hnone, hinner, rfl⟩ := h
  exact ⟨first, inner ++ more, [], by simp, hfirst, hnone, hinner.append hmore, rfl⟩

/-- A turn opens its response and no other. -/
theorem created (h : Framed id closed frames) : frames.filterMap createdId = [id] := by
  obtain ⟨first, inner, tail, rfl, hfirst, -, hinner, htail⟩ := h
  have htail : tail.filterMap createdId = [] := by
    cases closed with
    | false =>
      rw [show tail = [] from htail]
      rfl
    | true =>
      obtain ⟨last, rfl, hlast, -⟩ := htail
      rw [List.filterMap_cons_none hlast, List.filterMap_nil]
  rw [List.filterMap_append, List.filterMap_cons_some hfirst, hinner.created, htail,
    List.append_nil]

/-- A turn closes its response or none. -/
theorem done (h : Framed id closed frames) :
    frames.filterMap doneId = if closed then [id] else [] := by
  obtain ⟨first, inner, tail, rfl, -, hfirst, hinner, htail⟩ := h
  rw [List.filterMap_append, List.filterMap_cons_none hfirst, hinner.done, List.nil_append]
  cases closed with
  | false =>
    rw [show tail = [] from htail]
    rfl
  | true =>
    obtain ⟨last, rfl, -, hlast⟩ := htail
    rw [List.filterMap_cons_some hlast, List.filterMap_nil, if_pos rfl]

/-- A turn ends with its closing frame, if it has one. -/
theorem getLast?_done (h : Framed id closed frames) :
    frames.getLast?.bind doneId = some id ↔ closed = true := by
  constructor
  · intro hlast
    obtain ⟨last, hmem, hid⟩ := Option.bind_eq_some_iff.mp hlast
    have hclosing : id ∈ frames.filterMap doneId :=
      List.mem_filterMap.mpr ⟨last, List.mem_of_getLast? hmem, hid⟩
    rw [h.done] at hclosing
    by_contra hopen
    rw [if_neg hopen] at hclosing
    cases hclosing
  · rintro rfl
    obtain ⟨first, inner, _, rfl, -, -, -, last, rfl, -, hlast⟩ := h
    rw [List.getLast?_concat, Option.bind_some, hlast]

end Framed

namespace Bridge

variable (env : SessionEnv)

/-- The socket has refused a frame. -/
def Refused (env : SessionEnv) (b : Bridge) : Prop := ∃ n < b.sent.length, env.accepts n = false

/-- From `b` to `r` some frames were sent, within one turn. -/
structure Sends (b r : Bridge) (frames : List Value) : Prop where
  sent : r.sent = b.sent ++ frames
  requestId : r.requestId = b.requestId
  turn : r.turn = b.turn

namespace Sends

theorem refl (b : Bridge) : Sends b b [] := ⟨by simp, rfl, rfl⟩

theorem trans {b c r : Bridge} {frames more : List Value} (h : Sends b c frames)
    (h' : Sends c r more) : Sends b r (frames ++ more) :=
  ⟨by rw [h'.sent, h.sent, List.append_assoc], h'.requestId.trans h.requestId,
    h'.turn.trans h.turn⟩

theorem send (b : Bridge) (frame : Value) : Sends b (b.send env frame).1 [frame] := ⟨rfl, rfl, rfl⟩

end Sends

theorem refused_of_send (b : Bridge) (frame : Value) (h : (b.send env frame).2 = false) :
    Refused env (b.send env frame).1 :=
  ⟨b.sent.length, by simp [send], h⟩

/-- All frames are sent, or those up to one that the socket refuses. -/
theorem sendAll_cases (b : Bridge) (frames : List Value) :
    (b.sendAll env frames).2 = true ∧ Sends b (b.sendAll env frames).1 frames ∨
      (b.sendAll env frames).2 = false ∧ Refused env (b.sendAll env frames).1 ∧
        ∃ sent, sent <+: frames ∧ Sends b (b.sendAll env frames).1 sent := by
  induction frames generalizing b with
  | nil => exact .inl ⟨rfl, .refl b⟩
  | cons frame frames ih =>
    have hsend := Sends.send env b frame
    have hrefused := refused_of_send env b frame
    rw [sendAll]
    generalize b.send env frame = r at hsend hrefused
    obtain ⟨c, ok⟩ := r
    cases ok with
    | true =>
      obtain ⟨hok, h⟩ | ⟨hok, hr, sent, hsent, h⟩ := ih c
      · exact .inl ⟨hok, hsend.trans h⟩
      · exact .inr ⟨hok, hr, frame :: sent, List.cons_prefix_cons.mpr ⟨rfl, hsent⟩, hsend.trans h⟩
    | false =>
      exact .inr ⟨rfl, hrefused rfl, [frame], ⟨frames, rfl⟩, hsend⟩

/-- A stream is framed by plain frames, as far as the socket takes them. -/
theorem streamTurn_cases (b : Bridge) (scaffold : ResponseScaffold) (reason : FinishReason)
    (usage : Usage) (items : List (Except ModelError StreamChunk)) :
    let s := b.streamTurn env scaffold reason usage items
    (∃ frames, Plain frames ∧ Sends b s.bridge frames) ∧
      s.scaffold.responseId = scaffold.responseId ∧ (s.alive = false → Refused env s.bridge) := by
  intro s
  induction items generalizing b scaffold reason usage with
  | nil => exact ⟨⟨[], .nil, .refl b⟩, rfl, nofun⟩
  | cons item items ih =>
    cases item with
    | error e => exact ⟨⟨_, plain_errorFrame _ _, Sends.send env b _⟩, rfl, nofun⟩
    | ok chunk =>
      have hplain := scaffold.plain_onChunk chunk
      have hid := scaffold.onChunk_responseId chunk
      have hcases := sendAll_cases env b (scaffold.onChunk chunk).2
      simp only [s, streamTurn]
      generalize b.sendAll env (scaffold.onChunk chunk).2 = r at hcases
      obtain ⟨c, ok⟩ := r
      obtain ⟨hok, h⟩ | ⟨hok, hr, sent, hsent, h⟩ := hcases
      · cases hok
        obtain ⟨⟨frames, hframes, hrest⟩, hid', hr⟩ := ih c (scaffold.onChunk chunk).1 _ _
        exact ⟨⟨_, hplain.append hframes, h.trans hrest⟩, hid'.trans hid, hr⟩
      · cases hok
        exact ⟨⟨sent, hplain.of_prefix hsent, h⟩, hid, fun _ => hr⟩

/-- The id of the response of a turn. -/
def turnId (requestId : String) (turn : ℕ) : String :=
  "resp_" ++ (requestId ++ "-t" ++ toString turn)

/-- Every turn has an id of its own. -/
theorem turnId_inj {requestId : String} {m n : ℕ} (h : turnId requestId m = turnId requestId n) :
    m = n :=
  Strings.toString_inj ((String.append_right_inj _).mp ((String.append_right_inj _).mp h))

/-- The closing frames of a turn close its response, unless the socket refuses one. -/
theorem sendFinish_cases {b c : Bridge} {frames : List Value} {scaffold : ResponseScaffold}
    {id : String} (hsends : Sends b c frames) (hframed : Framed id false frames)
    (hid : scaffold.responseId = id) (reason : FinishReason) (usage : Usage) :
    ∃ closed frames, Sends b (c.sendAll env (scaffold.finish reason usage)).1 frames ∧
      Framed id closed frames ∧
        (Refused env (c.sendAll env (scaffold.finish reason usage)).1 ∨ closed = true) := by
  obtain ⟨inner, last, hfinish, hinner, hcreated, hdone⟩ := scaffold.finish_eq reason usage
  rw [hfinish]
  have hclosed : Framed id true (frames ++ (inner ++ [last])) := by
    rw [← List.append_assoc]
    exact (hframed.append hinner).close hcreated (hdone.trans (congrArg some hid))
  obtain ⟨-, h⟩ | ⟨-, hr, sent, hsent, h⟩ := sendAll_cases env c (inner ++ [last])
  · exact ⟨true, _, hsends.trans h, hclosed, .inr rfl⟩
  · obtain rfl | hsent := List.prefix_concat_iff.mp hsent
    · exact ⟨true, _, hsends.trans h, hclosed, .inl hr⟩
    · exact ⟨false, _, hsends.trans h, hframed.append (hinner.of_prefix hsent), .inl hr⟩

/-- A turn sends its frames. Unless the socket refuses one, the response is closed exactly if the
engine does not refuse the request. -/
theorem runTurn_cases (b : Bridge) (override : ResponseOverride) :
    ∃ closed frames, Sends b (b.runTurn env override).1 frames ∧
      Framed (turnId b.requestId b.turn) closed frames ∧
        (Refused env (b.runTurn env override).1 ∨
          closed = (env.run b.turn (b.session.buildChatRequest override)).isOk) := by
  unfold runTurn
  extract_lets rid req scaffold
  have hopened : Framed (turnId b.requestId b.turn) false [scaffold.created] :=
    .opened scaffold.createdId_created scaffold.doneId_created .nil
  have hsend := Sends.send env b scaffold.created
  have hrefused := refused_of_send env b scaffold.created
  generalize b.send env scaffold.created = r at hsend hrefused ⊢
  obtain ⟨c, ok⟩ := r
  cases ok with
  | false => exact ⟨false, _, hsend, hopened, .inl (hrefused rfl)⟩
  | true =>
    have hrun : env.run b.turn (b.session.buildChatRequest override) = env.run c.turn req := by
      rw [hsend.turn]
    rw [hrun]
    replace hsend : Sends b { c with calls := c.calls ++ [EngineCall.mk c.key rid req] }
      [scaffold.created] := ⟨hsend.sent, hsend.requestId, hsend.turn⟩
    dsimp only
    generalize Bridge.mk c.key c.requestId c.session c.turn c.sent _ c.alive = d at hsend ⊢
    cases env.run c.turn req with
    | error e =>
      exact ⟨false, _, hsend.trans (Sends.send env d _),
        hopened.append (plain_errorFrame _ _), .inr rfl⟩
    | ok items =>
      obtain ⟨⟨frames, hplain, hframes⟩, hid, hr⟩ :=
        streamTurn_cases env d scaffold .stop .zero items
      dsimp only at hframes hid hr ⊢
      generalize d.streamTurn env scaffold .stop .zero items = s at hframes hid hr ⊢
      cases halive : s.alive with
      | false => exact ⟨false, _, hsend.trans hframes, hopened.append hplain, .inl (hr halive)⟩
      | true =>
        rw [if_pos rfl]
        -- the turn joins the history before its closing frames are sent
        have hkept : Sends s.bridge (if override.persist then
            { s.bridge with session :=
                { s.bridge.session with
                  messages := s.bridge.session.messages ++ [s.scaffold.assistantMessage] } }
          else s.bridge) [] := by
          split <;> exact ⟨by simp, rfl, rfl⟩
        replace hkept := (hsend.trans hframes).trans hkept
        rw [List.append_nil] at hkept
        generalize (if override.persist then _ else s.bridge) = k at hkept ⊢
        exact sendFinish_cases env hkept (hopened.append hplain) hid s.reason s.usage

/-- The override of the turn that an event begins. -/
def turnOfEvent (b : Bridge) : ClientEvent → Option ResponseOverride
  | .create override => if b.session.wantsAudio override then none else some override
  | _ => none

/-- The override of the turn that a frame begins. -/
def turnOf (env : SessionEnv) (b : Bridge) (frame : IncomingFrame) : Option ResponseOverride :=
  if b.alive then
    match frame with
    | .binary => none
    | .text text => (env.fromStr text).bind fun value => b.turnOfEvent (parseClientEvent value)
  else none

/-- Whether the engine answers the next turn with a stream. -/
def answered (env : SessionEnv) (b : Bridge) (override : ResponseOverride) : Bool :=
  (env.run (b.turn + 1) (b.session.buildChatRequest override)).isOk

/-- The state in which the next turn runs. -/
def nextTurn (b : Bridge) : Bridge := { b with turn := b.turn + 1 }

/-- What is sent from `b` to `r`: the frames of the turn that begins, or plain frames. -/
def Serves (env : SessionEnv) (b r : Bridge) : Option ResponseOverride → Prop
  | none => ∃ frames, Sends b r frames ∧ Plain frames
  | some override =>
    ∃ closed frames, Sends b.nextTurn r frames ∧ Framed (turnId b.requestId (b.turn + 1)) closed frames ∧
      (Refused env r ∨ closed = b.answered env override)

theorem handleEvent_serves (b : Bridge) (event : ClientEvent) :
    Serves env b (b.handleEvent env event) (b.turnOfEvent event) := by
  cases event with
  | sessionUpdate patch =>
    exact ⟨_, ⟨rfl, rfl, rfl⟩, .cons (typeOf_obj (by simp)) (by simp) (by simp) .nil⟩
  | addUserMessage text =>
    exact ⟨_, ⟨rfl, rfl, rfl⟩, .cons (typeOf_obj (by simp)) (by simp) (by simp) .nil⟩
  | addFunctionOutput callId output =>
    exact ⟨_, ⟨rfl, rfl, rfl⟩, .cons (typeOf_obj (by simp)) (by simp) (by simp) .nil⟩
  | deleteItem | cancel | other => exact ⟨[], .refl b, .nil⟩
  | audioUnsupported => exact ⟨_, .send env b _, plain_errorFrame _ _⟩
  | create override =>
    rw [handleEvent, turnOfEvent]
    split
    · exact ⟨_, .send env b _, plain_errorFrame _ _⟩
    · obtain ⟨closed, frames, hsends, hframed, hclosed⟩ :=
        runTurn_cases env b.nextTurn override
      exact ⟨closed, frames, ⟨hsends.sent, hsends.requestId, hsends.turn⟩, hframed, hclosed⟩

/-- **What a step sends.** -/
theorem step_serves (b : Bridge) (frame : IncomingFrame) :
    Serves env b (step env b frame) (b.turnOf env frame) := by
  unfold step turnOf
  split
  · cases frame with
    | binary => exact ⟨_, .send env b _, plain_errorFrame _ _⟩
    | text text =>
      simp only [handleFrame]
      cases env.fromStr text with
      | none => exact ⟨_, .send env b _, plain_errorFrame _ _⟩
      | some value => exact handleEvent_serves env b (parseClientEvent value)
  · exact ⟨[], .refl b, .nil⟩

/-! ## Whole sessions -/

variable {env}

/-- The frames so far close no response twice, and none of a later turn. -/
structure Closings (b : Bridge) : Prop where
  nodup : (b.sent.filterMap doneId).Nodup
  earlier : ∀ id ∈ b.sent.filterMap doneId,
    ∃ n ≤ b.turn, id = turnId b.requestId n

/-- A step only appends frames, and keeps the identity of the session. -/
theorem step_appends (b : Bridge) (frame : IncomingFrame) :
    b.sent <+: (step env b frame).sent ∧ (step env b frame).requestId = b.requestId := by
  have h := step_serves env b frame
  cases hturn : b.turnOf env frame with
  | none =>
    rw [hturn] at h
    obtain ⟨frames, hsends, -⟩ := h
    exact ⟨⟨frames, hsends.sent.symm⟩, hsends.requestId⟩
  | some override =>
    rw [hturn] at h
    obtain ⟨closed, frames, hsends, -⟩ := h
    exact ⟨⟨frames, hsends.sent.symm⟩, hsends.requestId⟩

theorem Closings.step {b : Bridge} (h : b.Closings) (frame : IncomingFrame) :
    (step env b frame).Closings := by
  have hserves := step_serves env b frame
  cases hturn : b.turnOf env frame with
  | none =>
    rw [hturn] at hserves
    obtain ⟨frames, hsends, hplain⟩ := hserves
    have hsame : (Bridge.step env b frame).sent.filterMap doneId = b.sent.filterMap doneId := by
      rw [hsends.sent, List.filterMap_append, hplain.done, List.append_nil]
    refine ⟨hsame ▸ h.nodup, fun id hid => ?_⟩
    rw [hsends.requestId, hsends.turn]
    exact h.earlier id (hsame ▸ hid)
  | some override =>
    rw [hturn] at hserves
    obtain ⟨closed, frames, hsends, hframed, -⟩ := hserves
    have hmore : (Bridge.step env b frame).sent.filterMap doneId =
        b.sent.filterMap doneId ++ if closed then [turnId b.requestId (b.turn + 1)] else [] := by
      rw [hsends.sent, List.filterMap_append, hframed.done]
      rfl
    have hfresh : turnId b.requestId (b.turn + 1) ∉ b.sent.filterMap doneId := by
      intro hid
      obtain ⟨n, hn, heq⟩ := h.earlier _ hid
      have := turnId_inj heq
      omega
    have hturn' : (Bridge.step env b frame).turn = b.turn + 1 := hsends.turn
    have hrid : (Bridge.step env b frame).requestId = b.requestId := hsends.requestId
    constructor
    · rw [hmore, List.nodup_append]
      refine ⟨h.nodup, by split <;> simp, fun a ha c hc heq => hfresh ?_⟩
      split at hc
      · rw [← List.mem_singleton.mp hc, ← heq]
        exact ha
      · cases hc
    · intro id hid
      rw [hmore] at hid
      rw [hturn', hrid]
      rcases List.mem_append.mp hid with hid | hid
      · obtain ⟨n, hn, heq⟩ := h.earlier id hid
        exact ⟨n, by omega, heq⟩
      · split at hid
        · exact ⟨b.turn + 1, by omega, List.mem_singleton.mp hid⟩
        · cases hid

/-- A step of a run that closes what it opens: the last of its frames closes the response, no other
frame of the session does, and nothing stands between its frames. -/
structure Terminated (sent : List Value) (x : Runs.Step Bridge IncomingFrame) (id : String) :
    Prop where
  last : (x.added Bridge.sent).getLast?.bind doneId = some id
  once : (sent.filterMap doneId).count id = 1
  together : x.pre.sent ++ x.added Bridge.sent <+: sent

/-- No two frames of a session close the same response. -/
theorem run_closings {s t : Bridge} {tr : List (Runs.Step Bridge IncomingFrame)}
    (hs : (system env).init s) (hr : Runs.Run (system env) s tr t) : t.Closings := by
  refine hr.invariant (P := Closings) ?_ fun b frame r h hstep => ?_
  · obtain ⟨key, model, requestId, rfl⟩ := hs
    have hplain : Plain (start env key model requestId).sent :=
      .cons (typeOf_obj (by simp)) (by simp) (by simp) .nil
    exact ⟨by rw [hplain.done]; exact .nil, by rw [hplain.done]; nofun⟩
  · rw [show r = step env b frame from hstep]
    exact h.step frame

/-- What was sent is never taken back. -/
theorem run_sent {s t : Bridge} {tr : List (Runs.Step Bridge IncomingFrame)}
    (hr : Runs.Run (system env) s tr t) : ∀ x ∈ tr, x.post.sent <+: t.sent :=
  hr.log_prefix fun b frame r hstep => by
    rw [show r = step env b frame from hstep]
    exact (step_appends b frame).1

/-- **Every opened response is closed**, once and after all frames of its turn, exactly if the engine
answers every turn with a stream. -/
theorem turns_terminate_iff {s t : Bridge} {tr : List (Runs.Step Bridge IncomingFrame)}
    (hs : (system env).init s) (hr : Runs.Run (system env) s tr t)
    (haccepts : ∀ n < t.sent.length, env.accepts n = true) :
    (∀ x ∈ tr, ∀ id ∈ (x.added Bridge.sent).filterMap createdId, Terminated t.sent x id) ↔
      ∀ x ∈ tr, ∀ override, x.pre.turnOf env x.event = some override →
        x.pre.answered env override = true := by
  -- it is enough to look at one step
  refine forall₂_congr fun x hx => ?_
  have hsent := run_sent hr x hx
  have htaken : ¬ Refused env x.post := fun ⟨n, hn, hno⟩ => by
    rw [haccepts n (hn.trans_le hsent.length_le)] at hno
    cases hno
  obtain ⟨-, -, hstep⟩ := hr.before_of_mem x hx
  have hserves := step_serves env x.pre x.event
  rw [← show x.post = step env x.pre x.event from hstep] at hserves
  cases hturn : x.pre.turnOf env x.event with
  | none =>
    rw [hturn] at hserves
    obtain ⟨frames, hsends, hplain⟩ := hserves
    have hadded : x.added Bridge.sent = frames := by
      rw [Runs.Step.added, hsends.sent, List.drop_left]
    rw [hadded, hplain.created]
    exact ⟨fun _ _ h => (by cases h), fun _ _ h => (by cases h)⟩
  | some override =>
    rw [hturn] at hserves
    obtain ⟨closed, frames, hsends, hframed, hclosed⟩ := hserves
    have hpost : x.post.sent = x.pre.sent ++ frames := hsends.sent
    have hadded : x.added Bridge.sent = frames := by
      rw [Runs.Step.added, hpost, List.drop_left]
    rw [hadded, hframed.created]
    replace hclosed := hclosed.resolve_left htaken
    subst hclosed
    constructor
    · rintro h _ ⟨⟩
      have hlast := (h _ (List.mem_singleton_self _)).last
      rw [hadded] at hlast
      exact hframed.getLast?_done.mp hlast
    · intro h id hid
      rw [List.mem_singleton.mp hid]
      have hanswered := h override rfl
      have hmem : turnId x.pre.requestId (x.pre.turn + 1) ∈ t.sent.filterMap doneId := by
        refine (hsent.filterMap doneId).subset ?_
        rw [hpost, List.filterMap_append, hframed.done, if_pos hanswered]
        exact List.mem_append_right _ (List.mem_singleton_self _)
      refine ⟨?_, ?_, ?_⟩
      · rw [hadded]
        exact hframed.getLast?_done.mpr hanswered
      · exact List.count_eq_one_of_mem (run_closings hs hr).nodup hmem
      · rw [hadded, ← hpost]
        exact hsent

/-- A session in which every text asks for a response. -/
def asking (run : ℕ → ChatRequest → Except EngineError (List (Except ModelError StreamChunk))) :
    SessionEnv where
  fromStr _ := some (obj [("type", string "response.create")])
  accepts _ := true
  run := run

/-- The start of such a session. -/
def opening (env : SessionEnv) : Bridge := start env "k1" "gpt-4o" "r1"

/-- An engine that streams one text. -/
def streaming : SessionEnv := asking fun _ _ => .ok [.ok (.content 0 "hi"), .ok (.finish 0 .stop)]

/-- An engine without a route for the model. -/
def routeless : SessionEnv := asking fun _ _ => .error (.noRoute "gpt-4o")

theorem turns_terminate_iff_streaming :
    ∃ tr t, Runs.Run (system streaming) (opening streaming) tr t ∧ t.turn = 2 ∧
      ((∀ x ∈ tr, ∀ id ∈ (x.added Bridge.sent).filterMap createdId, Terminated t.sent x id) ↔
        ∀ x ∈ tr, ∀ override, x.pre.turnOf streaming x.event = some override →
          x.pre.answered streaming override = true) := by
  have hrun := Runs.Run.exec (system streaming).init (step streaming) (opening streaming)
    [.text "a", .text "b"]
  refine ⟨_, _, hrun, by decide +kernel, ?_⟩
  exact turns_terminate_iff ⟨_, _, _, rfl⟩ hrun fun _ _ => rfl

/-- A response that the engine refuses is opened and never closed. -/
theorem routeless_turn_open :
    ¬ ∀ (env : SessionEnv) (s t : Bridge) (tr : List (Runs.Step Bridge IncomingFrame)),
      (system env).init s → Runs.Run (system env) s tr t →
        (∀ n < t.sent.length, env.accepts n = true) →
          ∀ x ∈ tr, ∀ id ∈ (x.added Bridge.sent).filterMap createdId, Terminated t.sent x id := by
  intro h
  have hrun := Runs.Run.exec (system routeless).init (step routeless) (opening routeless)
    [.text "a"]
  have hterminated := h _ _ _ _ ⟨_, _, _, rfl⟩ hrun (fun _ _ => rfl) _
    (List.mem_singleton_self _) "resp_r1-t1" (by decide +kernel)
  exact absurd hterminated.last (by decide +kernel)

end Bridge

end Llmleaf.Realtime
