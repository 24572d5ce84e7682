import Llmleaf.Compat.Responses.Request
import Llmleaf.Compat.Responses.Wire
import Llmleaf.Lib.Folds
import Llmleaf.Lib.Traverse
import Mathlib.Data.List.ReduceOption

/-!
# Replayed reasoning

A client sends the output items of a turn back as input items. The parser holds reasoning back and
attaches it to the next item of the assistant.

- `Reads`: what is known of an item that was read, by its type.
- `turns`: the reasoning of each assistant message, in the batches in which it reached the message.
  Each batch is put in front of the ones before it (`Batches.run`).
- **Result** (`reasoning_order_iff`): when the reasoning of an input keeps its order.
- **Result** (`outputItems_replayed`): the items of a choice are read back as one message.
-/

namespace Llmleaf.Responses

/-! ## Reasoning order -/

/-- What a part tells of the reasoning: an open text or an encrypted block. -/
def told : ContentPart → Option (String ⊕ String)
  | .thinking thinking _ => some (.inl thinking)
  | .redactedThinking data => some (.inr data)
  | _ => none

/-- The reasoning of some parts. -/
def toldIn (parts : List ContentPart) : List (String ⊕ String) := parts.filterMap told

/-- The reasoning of some messages. -/
def toldBy (msgs : List Message) : List (String ⊕ String) := msgs.flatMap (toldIn ·.content)

/-- The texts under a key of a reasoning item. -/
def entryTexts (item : Value) (key : String) : List String :=
  (item.itemsAt [key]).filterMap (·.textAt ["text"])

/-- The texts and the encrypted block of a reasoning item. -/
def reasoningOf (item : Value) : List (String ⊕ String) :=
  if item.textAt ["type"] = some "reasoning" then
    (entryTexts item "summary" ++ entryTexts item "content").map .inl ++
      (item.textAt ["encrypted_content"]).toList.map .inr
  else []

/-- The tool call of a function-call item. -/
def callOf (item : Value) : ToolCall :=
  ⟨strField item "call_id", strField item "name", strField item "arguments"⟩

@[simp] theorem toldIn_append (a b : List ContentPart) : toldIn (a ++ b) = toldIn a ++ toldIn b :=
  List.filterMap_append

@[simp] theorem toldBy_append (a b : List Message) : toldBy (a ++ b) = toldBy a ++ toldBy b :=
  List.flatMap_append

@[simp] theorem toldBy_singleton (m : Message) : toldBy [m] = toldIn m.content :=
  List.flatMap_singleton ..

theorem toldIn_signLast (parts : List ContentPart) (signature : Option String) :
    toldIn (signLast parts signature) = toldIn parts := by
  unfold signLast
  split
  · rename_i thinking signed signature hlast
    conv_rhs => rw [← List.dropLast_append_getLast? _ hlast]
    simp [toldIn, told]
  · rfl

theorem toldIn_reasoningEntries (item : Value) (key : String) :
    toldIn (reasoningEntries item key) = (entryTexts item key).map .inl := by
  unfold toldIn reasoningEntries entryTexts
  rw [List.filterMap_map]
  exact congrFun (List.filterMap_eq_map' (f := Sum.inl)) _

/-- The parts of a reasoning item tell its texts and its encrypted block. -/
theorem toldIn_collectReasoning {item : Value} (h : item.textAt ["type"] = some "reasoning") :
    toldIn (collectReasoning item) = reasoningOf item := by
  rw [reasoningOf, if_pos h, collectReasoning, toldIn_append, toldIn_signLast, toldIn_append,
    toldIn_reasoningEntries, toldIn_reasoningEntries, List.map_append]
  congr 1
  cases item.textAt ["encrypted_content"] <;> rfl

/-- What is known of an item that was read, by its type. -/
inductive Reads (item : Value) : InputItem → Prop where
  | message {role : Role} {content : List ContentPart}
      (htype : item.textAt ["type"] = none ∨ item.textAt ["type"] = some "message")
      (hrole : role = .assistant ↔ item.textAt ["role"] = some "assistant")
      (hcontent : toldIn content = []) : Reads item (.message role content)
  | call (htype : item.textAt ["type"] = some "function_call") : Reads item (.call (callOf item))
  | output {callId text : String} (htype : item.textAt ["type"] = some "function_call_output") :
      Reads item (.output callId text)
  | reasoning (htype : item.textAt ["type"] = some "reasoning") :
      Reads item (.reasoning (collectReasoning item))
  | compaction {id content encryptedContent signature : Option String}
      (htype : item.textAt ["type"] = some "compaction") :
      Reads item (.compaction id content encryptedContent signature)

section

variable {debug : String → String}

/-- A content part is no reasoning. -/
theorem told_contentPart {value : Value} {part : ContentPart}
    (h : parseInputContentPart debug value = .ok (some part)) : told part = none := by
  unfold parseInputContentPart at h
  split at h
  · split at h
    all_goals first
      | (cases h; rfl)
      | cases h
      | skip
    split at h
    · cases h; rfl
    · cases h
  · cases h

theorem toldIn_content {value : Option Value} {content : List ContentPart}
    (h : parseInputContent debug value = .ok content) : toldIn content = [] := by
  unfold parseInputContent at h
  split at h
  · cases h; rfl
  · cases h; rfl
  · cases h; rfl
  · rename_i parts
    cases hparts : parts.mapM (parseInputContentPart debug) with
    | error e => rw [hparts] at h; cases h
    | ok read =>
      rw [hparts] at h
      cases h
      rw [toldIn, List.filterMap_eq_nil_iff]
      intro part hpart
      obtain ⟨value, -, hread⟩ :=
        Traverse.exists_of_mem hparts (List.reduceOption_mem_iff.mp hpart)
      exact told_contentPart hread
  · cases h

theorem parseInputRole_assistant {s : String} {role : Role} (h : parseInputRole s = .ok role) :
    role = .assistant ↔ s = "assistant" := by
  unfold parseInputRole at h
  split at h <;> cases h <;> simp

/-- **What was read of an item.** -/
theorem readItem_reads {item : Value} {i : InputItem} (h : readItem debug item = .ok i) :
    Reads item i := by
  have hmessage : ∀ {roleStr : String}, item.textAt ["role"] = some roleStr →
      (item.textAt ["type"] = none ∨ item.textAt ["type"] = some "message") →
      (do
        let role ← parseInputRole roleStr
        let content ← parseInputContent debug (item.get "content")
        return InputItem.message role content) = Except.ok i → Reads item i := by
    intro roleStr hrole htype hread
    cases hr : parseInputRole roleStr with
    | error e => rw [hr] at hread; cases hread
    | ok role =>
      cases hc : parseInputContent debug (item.get "content") with
      | error e => rw [hr, hc] at hread; cases hread
      | ok content =>
        rw [hr, hc] at hread
        cases hread
        refine .message htype ?_ (toldIn_content hc)
        rw [parseInputRole_assistant hr, hrole, Option.some.injEq]
  unfold readItem at h
  split at h
  · split at h
    · rename_i htype
      split at h
      · exact hmessage ‹_› (.inl htype) h
      · cases h
    · rename_i htype
      split at h
      · exact hmessage ‹_› (.inr htype) h
      · cases h
    · cases h; exact .call ‹_›
    · cases h; exact .output ‹_›
    · cases h; exact .reasoning ‹_›
    · dsimp only at h
      split at h
      · cases h
      · cases h; exact .compaction ‹_›
    · cases h
    · cases h
  · cases h

end

/-- The reasoning of each assistant message, in the batches in which it reaches the message: `last`
are those of the message that is still open, `pending` is held back. -/
def turns (last : Option (List (List (String ⊕ String)))) (pending : List (String ⊕ String)) :
    List Value → List (List (List (String ⊕ String)))
  | [] => last.toList ++ [[pending]]
  | item :: items =>
    match item.textAt ["type"] with
    | some "reasoning" => turns last (pending ++ reasoningOf item) items
    | some "function_call" => turns (some (last.getD [] ++ [pending])) [] items
    | some "function_call_output" => last.toList ++ turns none pending items
    | some "compaction" => last.toList ++ [[pending]] ++ turns (some []) [] items
    | _ =>
      if item.textAt ["role"] = some "assistant" then
        last.toList ++ turns (some [pending]) [] items
      else last.toList ++ turns none pending items

theorem reasoningOf_eq_nil {item : Value} (h : item.textAt ["type"] ≠ some "reasoning") :
    reasoningOf item = [] := if_neg h

/-- The batches of an input are its reasoning in order. -/
theorem flatten_turns (last : Option (List (List (String ⊕ String))))
    (pending : List (String ⊕ String)) (items : List Value) :
    (turns last pending items).flatMap List.flatten =
      (last.getD []).flatten ++ pending ++ items.flatMap reasoningOf := by
  have hlast : ∀ last : Option (List (List (String ⊕ String))),
      last.toList.flatMap List.flatten = (last.getD []).flatten := by
    rintro (_ | bs) <;> simp
  fun_induction turns last pending items with
  | case1 last pending => simp [hlast]
  | case2 last pending item items htype ih => simp [ih]
  | case3 last pending item items htype ih =>
    simp [ih, @reasoningOf_eq_nil item (by simp [htype])]
  | case4 last pending item items htype ih =>
    simp [ih, hlast, @reasoningOf_eq_nil item (by simp [htype])]
  | case5 last pending item items htype ih =>
    simp [ih, hlast, @reasoningOf_eq_nil item (by simp [htype])]
  | case6 last pending item items _ _ _ _ hrole ih =>
    simp [ih, hlast, @reasoningOf_eq_nil item (by assumption)]
  | case7 last pending item items _ _ _ _ hrole ih =>
    simp [ih, hlast, @reasoningOf_eq_nil item (by assumption)]

/-- The messages so far are closed ones and the one that is still open. -/
inductive Batches : List Message → Option (List (List (String ⊕ String))) → List Message → Prop
  | closed {out : List Message} (h : ∀ m ∈ out.getLast?, m.role ≠ .assistant) :
      Batches out none out
  | opened {closed : List Message} {m : Message} {batches : List (List (String ⊕ String))}
      (hrole : m.role = .assistant) (h : toldIn m.content = batches.reverse.flatten) :
      Batches closed (some batches) (closed ++ [m])

/-- What a message tells when each batch is put in front of the ones before it. -/
abbrev Backwards (batches : List (List (String ⊕ String))) : List (String ⊕ String) :=
  batches.reverse.flatten

namespace Batches

variable {closed out : List Message} {last : Option (List (List (String ⊕ String)))}

theorem toldBy_eq (h : Batches closed last out) :
    toldBy out = toldBy closed ++ last.toList.flatMap Backwards := by
  cases h with
  | closed => simp
  | opened _ h => simp [h]

/-- A call joins the open message, or opens one. -/
theorem call (h : Batches closed last out) (pending : List ContentPart) (c : ToolCall) :
    ∃ out', Inputs.take ⟨out, pending⟩ (.call c) = ⟨out', []⟩ ∧
      Batches closed (some (last.getD [] ++ [toldIn pending])) out' := by
  cases h with
  | closed h =>
    refine ⟨closed ++ [prependPending pending (Inputs.turn [] [c])], ?_, .opened rfl ?_⟩
    · unfold Inputs.take
      dsimp only
      split
      · rename_i hlast
        exact absurd rfl (h _ hlast)
      · rfl
    · simp [prependPending, Inputs.turn, toldIn]
  | @opened m batches hrole h =>
    obtain ⟨role, content, calls, callId, name⟩ := m
    cases hrole
    refine ⟨closed ++ [prependPending pending ⟨.assistant, content, calls ++ [c], callId, name⟩],
      ?_, .opened rfl ?_⟩
    · simp [Inputs.take]
    · simpa [prependPending] using h

theorem other {role : Role} (hrole : role ≠ .assistant) (out : List Message) (content : List ContentPart)
    (callId : Option String) :
    Batches (out ++ [⟨role, content, [], callId, none⟩]) none
      (out ++ [⟨role, content, [], callId, none⟩]) := by
  refine .closed fun m hm => ?_
  rw [List.getLast?_concat, Option.mem_some_iff] at hm
  exact hm ▸ hrole

theorem toldBy_flush (out : List Message) (pending : List ContentPart) :
    toldBy (Inputs.flush ⟨out, pending⟩).out = toldBy out ++ toldIn pending := by
  unfold Inputs.flush
  split
  · rename_i h
    cases h
    simp [toldIn]
  · simp [Inputs.turn]

/-- **The messages tell the batches of each message backwards.** -/
theorem run {items : List Value} {ins : List InputItem} (hreads : List.Forall₂ Reads items ins)
    (h : Batches closed last out) (pending : List ContentPart) :
    toldBy (ins.foldl Inputs.take ⟨out, pending⟩).flush.out =
      toldBy closed ++ (turns last (toldIn pending) items).flatMap Backwards := by
  induction hreads generalizing closed out last pending with
  | nil =>
    rw [List.foldl_nil, toldBy_flush, h.toldBy_eq]
    simp [turns, Backwards]
  | @cons item i items ins hread _ ih =>
    rw [List.foldl_cons]
    cases hread with
    | @message role content htype hrole hcontent =>
      by_cases ha : role = .assistant
      · subst ha
        have hstep : Batches out (some [toldIn pending])
            (out ++ [prependPending pending (Inputs.turn content [])]) :=
          .opened rfl (by simp [prependPending, Inputs.turn, hcontent])
        have hturns : turns last (toldIn pending) (item :: items) =
            last.toList ++ turns (some [toldIn pending]) [] items := by
          rcases htype with ht | ht <;> simp [turns, ht, hrole.mp rfl]
        rw [hturns, List.flatMap_append, ← List.append_assoc, ← h.toldBy_eq]
        exact ih hstep []
      · have hturns : turns last (toldIn pending) (item :: items) =
            last.toList ++ turns none (toldIn pending) items := by
          rcases htype with ht | ht <;> simp [turns, ht, mt hrole.mpr ha]
        have htake : Inputs.take ⟨out, pending⟩ (.message role content) =
            ⟨out ++ [⟨role, content, [], none, none⟩], pending⟩ := by
          cases role <;> first | rfl | exact absurd rfl ha
        rw [htake, ih (other ha out content none) pending, hturns, List.flatMap_append,
          ← List.append_assoc, ← h.toldBy_eq, toldBy_append, toldBy_singleton, hcontent,
          List.append_nil]
    | call htype =>
      obtain ⟨out', htake, hstep⟩ := h.call pending (callOf item)
      have hturns : turns last (toldIn pending) (item :: items) =
          turns (some (last.getD [] ++ [toldIn pending])) [] items := by simp [turns, htype]
      rw [htake, hturns]
      exact ih hstep []
    | @output callId text htype =>
      have hturns : turns last (toldIn pending) (item :: items) =
          last.toList ++ turns none (toldIn pending) items := by simp [turns, htype]
      rw [Inputs.take, ih (other (by decide) out [.text text] (some callId)) pending, hturns,
        List.flatMap_append, ← List.append_assoc, ← h.toldBy_eq, toldBy_append, toldBy_singleton]
      simp [toldIn, told]
    | reasoning htype =>
      have hturns : turns last (toldIn pending) (item :: items) =
          turns last (toldIn (pending ++ collectReasoning item)) items := by
        simp [turns, htype, toldIn_collectReasoning htype]
      rw [hturns]
      exact ih h (pending ++ collectReasoning item)
    | @compaction id content encryptedContent signature htype =>
      have hturns : turns last (toldIn pending) (item :: items) =
          last.toList ++ [[toldIn pending]] ++ turns (some []) [] items := by simp [turns, htype]
      have hstep : Batches (Inputs.flush ⟨out, pending⟩).out (some [])
          ((Inputs.flush ⟨out, pending⟩).out ++
            [Inputs.turn [.compaction none id content encryptedContent signature] []]) :=
        .opened rfl (by simp [Inputs.turn, toldIn, told])
      refine (ih hstep []).trans ?_
      rw [toldBy_flush, h.toldBy_eq, hturns]
      simp [Backwards, toldIn]

end Batches

/-! ### Calls and the reasoning before them -/

/-- A message makes the call, and tells the reasoning. -/
def Joins (c : ToolCall) (reasoning : List (String ⊕ String)) (m : Message) : Prop :=
  c ∈ m.toolCalls ∧ reasoning <:+: toldIn m.content

namespace Inputs

variable {c : ToolCall} {reasoning : List (String ⊕ String)} {st : Inputs}

/-- The reasoning that is held back leads the content. -/
theorem infix_prepend (pending content : List ContentPart)
    (h : reasoning <:+: toldIn pending ∨ reasoning <:+: toldIn content) :
    reasoning <:+: toldIn (pending ++ content) := by
  rw [toldIn_append]
  rcases h with h | h
  · exact h.trans (List.prefix_append _ _).isInfix
  · exact h.trans (List.suffix_append _ _).isInfix

/-- The last message is the assistant's, and what it becomes when a call joins it. -/
theorem take_call (st : Inputs) (c : ToolCall) :
    (∃ front content calls callId name,
      st.out = front ++ [⟨.assistant, content, calls, callId, name⟩] ∧
      st.take (.call c) =
        ⟨front ++ [⟨.assistant, st.pending ++ content, calls ++ [c], callId, name⟩], []⟩) ∨
    ((∀ m ∈ st.out.getLast?, m.role ≠ .assistant) ∧
      st.take (.call c) = ⟨st.out ++ [turn st.pending [c]], []⟩) := by
  rcases List.eq_nil_or_concat st.out with hout | ⟨front, m, hout⟩
  · right
    simp [take, hout, prependPending, turn]
  · obtain ⟨role, content, calls, callId, name⟩ := m
    rw [List.concat_eq_append] at hout
    by_cases ha : role = .assistant
    · left
      subst ha
      exact ⟨front, content, calls, callId, name, hout, by simp [take, hout, prependPending]⟩
    · right
      refine ⟨by simpa [hout] using ha, ?_⟩
      have hlast : st.out.getLast? = some ⟨role, content, calls, callId, name⟩ := by simp [hout]
      rw [take, hlast]
      split
      · rename_i h
        cases h
        exact absurd rfl ha
      · simp [prependPending, turn]

/-- A message that joins call and reasoning goes on doing so. -/
theorem keeps (i : InputItem) (h : ∃ m ∈ st.out, Joins c reasoning m) :
    ∃ m ∈ (st.take i).out, Joins c reasoning m := by
  obtain ⟨m, hm, hj⟩ := h
  have hmore : ∀ more : List Message, ∃ m ∈ st.out ++ more, Joins c reasoning m :=
    fun more => ⟨m, List.mem_append_left _ hm, hj⟩
  cases i with
  | message role content => cases role <;> exact hmore _
  | output callId text => exact hmore _
  | reasoning parts => exact ⟨m, hm, hj⟩
  | compaction id content encryptedContent signature =>
    rw [take, flush]
    dsimp only
    split
    · exact hmore _
    · rw [List.append_assoc]
      exact hmore _
  | call c' =>
    rcases st.take_call c' with ⟨front, content, calls, callId, name, hout, htake⟩ | ⟨-, htake⟩
    · rw [htake]
      rw [hout, List.mem_append, List.mem_singleton] at hm
      rcases hm with hm | rfl
      · exact ⟨m, List.mem_append_left _ hm, hj⟩
      · exact ⟨_, List.mem_append_right _ (List.mem_singleton_self _),
          List.mem_append_left _ hj.1, infix_prepend _ _ (.inr hj.2)⟩
    · rw [htake]
      exact hmore _

theorem keeps_run (ins : List InputItem) (h : ∃ m ∈ st.out, Joins c reasoning m) :
    ∃ m ∈ (ins.foldl take st).flush.out, Joins c reasoning m := by
  induction ins generalizing st with
  | nil =>
    obtain ⟨m, hm, hj⟩ := h
    refine ⟨m, ?_, hj⟩
    rw [List.foldl_nil, flush]
    split
    · exact hm
    · exact List.mem_append_left _ hm
  | cons i ins ih => exact ih (keeps i h)

/-- The reasoning is held back, or told by an assistant's message that a call would join. -/
def Ready (reasoning : List (String ⊕ String)) (st : Inputs) : Prop :=
  reasoning <:+: toldIn st.pending ∨
    ∃ m ∈ st.out.getLast?, m.role = .assistant ∧ reasoning <:+: toldIn m.content

/-- A call joins the reasoning, which stays ready for the next one. -/
theorem Ready.call (h : Ready reasoning st) (c : ToolCall) :
    (∃ m ∈ (st.take (.call c)).out, Joins c reasoning m) ∧
      Ready reasoning (st.take (.call c)) := by
  suffices ∃ m ∈ (st.take (.call c)).out.getLast?, m.role = .assistant ∧ Joins c reasoning m by
    obtain ⟨m, hm, hrole, hj⟩ := this
    exact ⟨⟨m, List.mem_of_mem_getLast? hm, hj⟩, .inr ⟨m, hm, hrole, hj.2⟩⟩
  rcases st.take_call c with ⟨front, content, calls, callId, name, hout, htake⟩ | ⟨hlast, htake⟩
  · have hor : reasoning <:+: toldIn st.pending ∨ reasoning <:+: toldIn content := by
      refine h.imp_right fun ⟨m, hm, _, hi⟩ => ?_
      rw [hout, List.getLast?_concat, Option.mem_some_iff] at hm
      rw [← hm] at hi
      exact hi
    refine ⟨_, by rw [htake, List.getLast?_concat]; rfl, rfl,
      List.mem_append_right _ (List.mem_singleton_self _), infix_prepend _ _ hor⟩
  · have hp : reasoning <:+: toldIn st.pending := by
      refine h.resolve_right ?_
      rintro ⟨m, hm, hrole, -⟩
      exact hlast m hm hrole
    exact ⟨_, by rw [htake, List.getLast?_concat]; rfl, rfl, List.mem_singleton_self _, hp⟩

theorem Ready.hold (h : Ready reasoning st) (parts : List ContentPart) :
    Ready reasoning (st.take (.reasoning parts)) := by
  refine h.imp_left fun hi => ?_
  rw [take, toldIn_append]
  exact hi.trans (List.prefix_append _ _).isInfix

end Inputs

/-- The messages tell the reasoning of the items in order, and a call is made by a message that
tells the reasoning right before it. -/
structure ReasoningKept (items : List Value) (msgs : List Message) : Prop where
  order : toldBy msgs = items.flatMap reasoningOf
  joined : ∀ pre r mid c post, items = pre ++ r :: (mid ++ c :: post) →
    r.textAt ["type"] = some "reasoning" →
    (∀ i ∈ mid, i.textAt ["type"] = some "reasoning" ∨ i.textAt ["type"] = some "function_call") →
    c.textAt ["type"] = some "function_call" →
    ∃ m ∈ msgs, Joins (callOf c) (reasoningOf r) m

section

variable {debug : String → String}

theorem readItem_reasoning {item : Value} {i : InputItem} (h : readItem debug item = .ok i)
    (htype : item.textAt ["type"] = some "reasoning") : i = .reasoning (collectReasoning item) := by
  cases readItem_reads h <;> simp_all

theorem readItem_call {item : Value} {i : InputItem} (h : readItem debug item = .ok i)
    (htype : item.textAt ["type"] = some "function_call") : i = .call (callOf item) := by
  cases readItem_reads h <;> simp_all

/-- Calls and reasoning in between leave the reasoning ready for a call. -/
theorem ready_run {mid : List Value} {ins : List InputItem} (h : mid.mapM (readItem debug) = .ok ins)
    (hmid : ∀ i ∈ mid, i.textAt ["type"] = some "reasoning" ∨
      i.textAt ["type"] = some "function_call")
    {reasoning : List (String ⊕ String)} {st : Inputs} (hst : st.Ready reasoning) :
    (ins.foldl Inputs.take st).Ready reasoning := by
  induction Traverse.mapM_ok_iff.mp h generalizing st with
  | nil => exact hst
  | cons hi hrest ih =>
    rw [List.foldl_cons]
    refine ih (Traverse.mapM_ok_iff.mpr hrest) (fun i hi => hmid i (List.mem_cons_of_mem _ hi)) ?_
    rcases hmid _ List.mem_cons_self with htype | htype
    · rw [readItem_reasoning hi htype]
      exact hst.hold _
    · rw [readItem_call hi htype]
      exact (hst.call _).2

/-- **A call is made by a message that tells the reasoning right before it.** -/
theorem joined {out msgs : List Message} {pre mid post : List Value} {r c : Value}
    (h : parseInputArray debug (pre ++ r :: (mid ++ c :: post)) out = .ok msgs)
    (hr : r.textAt ["type"] = some "reasoning")
    (hmid : ∀ i ∈ mid, i.textAt ["type"] = some "reasoning" ∨
      i.textAt ["type"] = some "function_call")
    (hc : c.textAt ["type"] = some "function_call") :
    ∃ m ∈ msgs, Joins (callOf c) (reasoningOf r) m := by
  unfold parseInputArray at h
  cases hins : (pre ++ r :: (mid ++ c :: post)).mapM (readItem debug) with
  | error e => rw [hins] at h; cases h
  | ok ins =>
    rw [hins] at h
    cases h
    obtain ⟨ipre, rest, rfl, -, hrest⟩ := Traverse.exists_append hins
    obtain ⟨ir, rest, rfl, hread, hrest⟩ := Traverse.exists_cons hrest
    obtain ⟨imid, rest, rfl, hreads, hrest⟩ := Traverse.exists_append hrest
    obtain ⟨ic, ipost, rfl, hcall, -⟩ := Traverse.exists_cons hrest
    rw [readItem_reasoning hread hr, readItem_call hcall hc]
    simp only [List.foldl_append, List.foldl_cons]
    refine Inputs.keeps_run ipost ((ready_run hreads hmid ?_).call (callOf c)).1
    -- held back, the reasoning is the end of what is pending
    refine .inl ?_
    rw [Inputs.take, toldIn_append, toldIn_collectReasoning hr]
    exact (List.suffix_append _ _).isInfix

theorem instructions_system (body : Value) :
    Batches (instructions body) none (instructions body) ∧ toldBy (instructions body) = [] := by
  unfold instructions
  split
  · split
    · exact ⟨.closed (by simp), rfl⟩
    · exact ⟨.closed (by simp [Message.ofText]), rfl⟩
  · exact ⟨.closed (by simp), rfl⟩

/-- **The reasoning of an input keeps its order exactly when every assistant message reads the same
with its batches in the order of the input and in the order in which they are prepended.** -/
theorem reasoning_order_iff (body : Value) {items : List Value} {msgs : List Message}
    (h : parseInputArray debug items (instructions body) = .ok msgs) :
    ReasoningKept items msgs ↔
      ∀ batches ∈ turns none [] items, batches.reverse.flatten = batches.flatten := by
  have ⟨htracks, htold⟩ := instructions_system body
  have horder : toldBy msgs = (turns none [] items).flatMap Backwards := by
    unfold parseInputArray at h
    cases hins : items.mapM (readItem debug) with
    | error e => rw [hins] at h; cases h
    | ok ins =>
      rw [hins] at h
      cases h
      have hreads := (Traverse.mapM_ok_iff.mp hins).imp fun _ _ => readItem_reads
      rw [htracks.run hreads [], htold]
      rfl
  have hin : items.flatMap reasoningOf = (turns none [] items).flatMap List.flatten := by
    rw [flatten_turns]
    rfl
  have hlen : ∀ b ∈ turns none [] items, (Backwards b).length = b.flatten.length := fun b _ => by
    simp [Backwards, List.length_flatten, List.sum_reverse]
  rw [← Folds.flatMap_eq_iff hlen, ← horder, ← hin]
  exact ⟨fun hk => hk.order, fun ho => ⟨ho, fun pre r mid c post hitems => by
    subst hitems
    exact joined h⟩⟩

end

/-- A reasoning item of one text. -/
def reasoningItem (text : String) : Value :=
  .obj [("type", .string "reasoning"), ("summary", .array []),
    ("content", .array [.obj [("type", .string "reasoning_text"), ("text", .string text)]])]

/-- A function-call item. -/
def callItem (id : String) : Value :=
  .obj [("type", .string "function_call"), ("call_id", .string id), ("name", .string "f"),
    ("arguments", .string "\x7b\x7d")]

theorem reasoning_order_iff_once :
    ReasoningKept [reasoningItem "a", callItem "1"]
      [Inputs.turn [.thinking "a" none] [⟨"1", "f", "\x7b\x7d"⟩]] :=
  (@reasoning_order_iff id .null _ _ (by decide +kernel)).mpr (by decide +kernel)

/-- Two calls of one turn, each after reasoning of its own: the reasoning is swapped. -/
theorem reasoning_swapped :
    parseInputArray id [reasoningItem "a", callItem "1", reasoningItem "b", callItem "2"] [] =
        .ok [Inputs.turn [.thinking "b" none, .thinking "a" none]
          [⟨"1", "f", "\x7b\x7d"⟩, ⟨"2", "f", "\x7b\x7d"⟩]] ∧
      ¬ ReasoningKept [reasoningItem "a", callItem "1", reasoningItem "b", callItem "2"]
        [Inputs.turn [.thinking "b" none, .thinking "a" none]
          [⟨"1", "f", "\x7b\x7d"⟩, ⟨"2", "f", "\x7b\x7d"⟩]] := by
  refine ⟨by decide +kernel, fun h => ?_⟩
  have : toldBy [Inputs.turn [.thinking "b" none, .thinking "a" none] []] =
      [.inl "a", .inl "b"] := h.order
  exact absurd this (by decide)

/-! ## Replayed output items -/

namespace Item

/-- The reasoning parts that an item is read as. -/
def parts (content : Option (List String)) (encryptedContent signature : Option String) :
    List ContentPart :=
  signLast ((content.getD []).map (.thinking · none)) signature ++
    (encryptedContent.map .redactedThinking).toList

/-- What an item other than a compaction is read as. -/
def input : Item → InputItem
  | reasoning _ content encryptedContent signature =>
    .reasoning (parts content encryptedContent signature)
  | message _ _ content => .message .assistant (content.map .text)
  | functionCall _ callId name arguments _ => .call ⟨callId, name, arguments⟩
  | compaction id encryptedContent content signature =>
    .compaction (some id) content encryptedContent signature

@[simp] theorem input_setId (item : Item) (id : String) (h : item.idPrefix.isSome) :
    (item.setId id).input = item.input := by
  cases item with
  | compaction => cases h
  | _ => rfl

variable {debug : String → String}

/-- **An output item is read back by its type.** -/
theorem readItem_json (item : Item) (h : item.idPrefix.isSome) :
    readItem debug item.json = .ok item.input := by
  cases item with
  | reasoning id content encryptedContent signature =>
    have hsummary : reasoningEntries (json (.reasoning id content encryptedContent signature))
        "summary" = [] := by simp [reasoningEntries, json, Value.asArray]
    have hcontent : reasoningEntries (json (.reasoning id content encryptedContent signature))
        "content" = (content.getD []).map (.thinking · none) := by
      cases content <;> simp [reasoningEntries, json, Value.asArray, reasoningText, Value.asStr,
        List.filterMap_map, Function.comp_def]
    have hcollect : collectReasoning (json (.reasoning id content encryptedContent signature)) =
        parts content encryptedContent signature := by
      rw [collectReasoning, hsummary, hcontent]
      simp [json, parts]
    rw [input, ← hcollect]
    simp [readItem, json, Value.asStr]
  | message id status content =>
    have hparts : (content.map outputText).mapM (parseInputContentPart debug) =
        .ok (content.map fun text => some (.text text)) := by
      refine Traverse.mapM_map fun text _ => ?_
      simp [parseInputContentPart, outputText, strField, Value.asStr]
    have hcontent : parseInputContent debug (some (.array (content.map outputText))) =
        .ok (content.map .text) := by
      rw [parseInputContent, hparts]
      simp [Except.map, List.reduceOption, List.filterMap_map]
    simp [readItem, json, Value.asStr, parseInputRole, hcontent, input, bind, Except.bind, pure,
      Except.pure]
  | functionCall id callId name arguments status =>
    simp [readItem, json, Value.asStr, strField, input]
  | compaction => cases h

end Item

/-- The reasoning parts of some items. -/
def readParts (items : List Item) : List ContentPart :=
  items.flatMap fun item => match item.input with
    | .reasoning parts => parts
    | _ => []

/-- Every item is a reasoning item. -/
def AllReasoning (items : List Item) : Prop := ∀ item ∈ items, item.kind = "reasoning"

theorem readParts_append (a b : List Item) : readParts (a ++ b) = readParts a ++ readParts b :=
  List.flatMap_append

/-- An open run is read back with its signature on the last text. -/
theorem flushReasoning_parts (requestId : String) (items : List Item) (texts : List String) :
    readParts (flushReasoning requestId items texts none) =
      readParts items ++ texts.map (.thinking · none) := by
  unfold flushReasoning
  split
  · rename_i h
    simp [h]
  · simp [readParts, Item.input, Item.parts, signLast]

theorem flushReasoning_signed (requestId : String) (items : List Item) (texts : List String)
    (text signature : String) :
    readParts (flushReasoning requestId items (texts ++ [text]) (some signature)) =
      readParts items ++ texts.map (.thinking · none) ++ [.thinking text (some signature)] := by
  rw [flushReasoning, if_neg (by simp), readParts_append]
  simp [readParts, Item.input, Item.parts, signLast]

theorem allReasoning_flush {items : List Item} (h : AllReasoning items) (requestId : String)
    (texts : List String) (signature : Option String) :
    AllReasoning (flushReasoning requestId items texts signature) := by
  unfold flushReasoning
  split
  · exact h
  · intro item hitem
    rcases List.mem_append.mp hitem with hitem | hitem
    · exact h item hitem
    · rw [List.mem_singleton.mp hitem]
      rfl

/-- One reasoning part more is read back. -/
theorem reasoningStep_read {acc : List Item × List String} (h : AllReasoning acc.1)
    (requestId : String) {part : ContentPart} (hpart : (told part).isSome) :
    AllReasoning (reasoningStep requestId acc part).1 ∧
      readParts (reasoningStep requestId acc part).1 ++
          (reasoningStep requestId acc part).2.map (.thinking · none) =
        readParts acc.1 ++ acc.2.map (.thinking · none) ++ [part] := by
  cases part with
  | thinking text signature =>
    cases signature with
    | none => exact ⟨h, by simp [reasoningStep]⟩
    | some signature =>
      refine ⟨allReasoning_flush h _ _ _, ?_⟩
      change readParts (flushReasoning requestId acc.1 (acc.2 ++ [text]) (some signature)) ++ [] = _
      rw [flushReasoning_signed, List.append_nil]
  | redactedThinking data =>
    refine ⟨fun item hitem => ?_, ?_⟩
    · rcases List.mem_append.mp hitem with hitem | hitem
      · exact allReasoning_flush h _ _ _ item hitem
      · rw [List.mem_singleton.mp hitem]
        rfl
    · change readParts (flushReasoning requestId acc.1 acc.2 none ++ _) ++ [] = _
      rw [List.append_nil, readParts_append, flushReasoning_parts]
      simp [readParts, Item.input, Item.parts, signLast]
  | _ => cases hpart

/-- **The items of reasoning parts are read back as these parts.** -/
theorem reasoningItems_read (requestId : String) {thinking : List ContentPart}
    (h : ∀ p ∈ thinking, (told p).isSome) :
    AllReasoning (reasoningItems requestId thinking) ∧
      readParts (reasoningItems requestId thinking) = thinking := by
  have hrun : ∀ (l : List ContentPart) (acc : List Item × List String),
      (∀ p ∈ l, (told p).isSome) → AllReasoning acc.1 →
      AllReasoning (l.foldl (reasoningStep requestId) acc).1 ∧
        readParts (l.foldl (reasoningStep requestId) acc).1 ++
            (l.foldl (reasoningStep requestId) acc).2.map (.thinking · none) =
          readParts acc.1 ++ acc.2.map (.thinking · none) ++ l := by
    intro l
    induction l with
    | nil => exact fun acc _ hacc => ⟨hacc, by simp⟩
    | cons part l ih =>
      intro acc hl hacc
      have ⟨hall, hread⟩ := reasoningStep_read hacc requestId (hl part List.mem_cons_self)
      have ⟨hall', hread'⟩ := ih _ (fun p hp => hl p (List.mem_cons_of_mem _ hp)) hall
      exact ⟨hall', by rw [List.foldl_cons, hread', hread, List.append_assoc]; rfl⟩
  have ⟨hall, hread⟩ := hrun thinking ([], []) h (fun item hitem => by cases hitem)
  refine ⟨allReasoning_flush hall _ _ _, ?_⟩
  change readParts (flushReasoning requestId _ _ none) = thinking
  rw [flushReasoning_parts, hread]
  rfl

namespace Inputs

/-- Reasoning items only add to what is held back. -/
theorem take_reasoning {items : List Item} (h : AllReasoning items) (out : List Message)
    (pending : List ContentPart) :
    (items.map Item.input).foldl take ⟨out, pending⟩ = ⟨out, pending ++ readParts items⟩ := by
  induction items generalizing pending with
  | nil => simp [readParts]
  | cons item items ih =>
    have hkind := h item List.mem_cons_self
    cases item with
    | reasoning id content encryptedContent signature =>
      rw [List.map_cons, List.foldl_cons, Item.input, take,
        ih fun item hitem => h item (List.mem_cons_of_mem _ hitem)]
      simp [readParts, Item.input]
    | _ => simp [Item.kind] at hkind

/-- Calls join the assistant's message before them. -/
theorem take_calls (calls : List ToolCall) (out : List Message) (content : List ContentPart)
    (made : List ToolCall) :
    (calls.map InputItem.call).foldl take ⟨out ++ [turn content made], []⟩ =
      ⟨out ++ [turn content (made ++ calls)], []⟩ := by
  induction calls generalizing made with
  | nil => simp
  | cons call calls ih =>
    have hstep : take ⟨out ++ [turn content made], []⟩ (.call call) =
        ⟨out ++ [turn content (made ++ [call])], []⟩ := by
      simp [take, turn, prependPending]
    rw [List.map_cons, List.foldl_cons, hstep, ih, List.append_assoc, List.singleton_append]

/-- The first call of a turn without a text opens a message for the reasoning. -/
theorem take_first_call {out : List Message} (hlast : ∀ m ∈ out.getLast?, m.role ≠ .assistant)
    (pending : List ContentPart) (call : ToolCall) :
    take ⟨out, pending⟩ (.call call) = ⟨out ++ [turn pending [call]], []⟩ := by
  rcases (⟨out, pending⟩ : Inputs).take_call call with ⟨front, content, calls, callId, name, hout,
    -⟩ | ⟨-, htake⟩
  · refine absurd rfl (hlast ⟨.assistant, content, calls, callId, name⟩ ?_)
    dsimp only at hout
    rw [hout, List.getLast?_concat]
    rfl
  · exact htake

end Inputs

/-- The text part of a turn, if there is a text. -/
def textPart (text : String) : List ContentPart := if text = "" then [] else [.text text]

/-- What a turn says after its reasoning. -/
def spokenItems (text : String) (calls : List ToolCall) : List InputItem :=
  (if text = "" then [] else [InputItem.message .assistant [.text text]]) ++
    calls.map InputItem.call

/-- A turn of reasoning, perhaps a text, and calls, after messages that do not end with the
assistant's. -/
theorem Inputs.take_spoken {out : List Message} (hlast : ∀ m ∈ out.getLast?, m.role ≠ .assistant)
    (pending : List ContentPart) (text : String) (calls : List ToolCall) :
    (spokenItems text calls).foldl Inputs.take ⟨out, pending⟩ =
      if text = "" ∧ calls = [] then ⟨out, pending⟩
      else ⟨out ++ [Inputs.turn (pending ++ textPart text) calls], []⟩ := by
  unfold spokenItems textPart
  by_cases htext : text = ""
  · cases calls with
    | nil => simp [htext]
    | cons call calls =>
      simp only [htext, if_true, List.nil_append, List.append_nil, List.map_cons, List.foldl_cons,
        Inputs.take_first_call hlast, Inputs.take_calls, List.singleton_append]
      simp
  · have hstep : Inputs.take ⟨out, pending⟩ (.message .assistant [.text text]) =
        ⟨out ++ [Inputs.turn (pending ++ [.text text]) []], []⟩ := rfl
    simp only [htext, if_false, List.singleton_append, List.foldl_cons, hstep, Inputs.take_calls,
      List.nil_append, false_and]

/-- The message that the items of a choice are read back as. -/
def replayed (choice : Choice) : List Message :=
  let content := choice.thinking ++ textPart choice.text
  if content = [] ∧ choice.toolCalls = [] then [] else [Inputs.turn content choice.toolCalls]

/-- At the end, reasoning with nothing after it is a message, too. -/
theorem Inputs.flush_spoken {out : List Message} (hlast : ∀ m ∈ out.getLast?, m.role ≠ .assistant)
    (choice : Choice) :
    ((spokenItems choice.text choice.toolCalls).foldl Inputs.take ⟨out, choice.thinking⟩).flush.out =
      out ++ replayed choice := by
  rw [Inputs.take_spoken hlast]
  unfold replayed textPart
  split
  · rename_i h
    by_cases ht : choice.thinking = [] <;> simp [h, ht, Inputs.flush]
  · rename_i h
    by_cases htext : choice.text = ""
    · have hcalls : choice.toolCalls ≠ [] := fun hc => h ⟨htext, hc⟩
      simp [htext, hcalls, Inputs.flush]
    · simp [htext, Inputs.flush]

theorem renumber_input (requestId : String) {items : List Item}
    (h : ∀ item ∈ items, item.idPrefix.isSome) :
    (renumber requestId items).map Item.input = items.map Item.input ∧
      ∀ item ∈ renumber requestId items, item.idPrefix.isSome := by
  have hset : ∀ (item : Item) (id : String), item.idPrefix.isSome →
      (item.setId id).idPrefix.isSome := by
    rintro (_ | _ | _ | _) id hitem <;> first | rfl | cases hitem
  induction items using List.reverseRecOn with
  | nil => exact ⟨rfl, fun item hitem => by cases hitem⟩
  | append_singleton items item ih =>
    have ⟨hmap, hall⟩ := ih fun i hi => h i (List.mem_append_left _ hi)
    have hitem : item.idPrefix.isSome := h item (List.mem_append_right _ List.mem_cons_self)
    obtain ⟨kind, hkind⟩ := Option.isSome_iff_exists.mp hitem
    rw [renumber, List.mapIdx_concat, ← renumber, hkind]
    refine ⟨?_, fun i hi => ?_⟩
    · rw [List.map_append, hmap, List.map_append, List.map_singleton, List.map_singleton,
        Item.input_setId _ _ hitem]
    · rcases List.mem_append.mp hi with hi | hi
      · exact hall i hi
      · rw [List.mem_singleton.mp hi]
        exact hset item _ hitem

/-- The items of a choice say its reasoning, its text and its calls. -/
theorem plainItems_input (requestId : String) (choice : Choice) :
    (plainItems requestId choice).map Item.input =
      (reasoningItems requestId choice.thinking).map Item.input ++
        spokenItems choice.text choice.toolCalls := by
  have hcalls : ∀ (calls : List ToolCall) (items : List Item),
      (calls.foldl (pushCall requestId) items).map Item.input =
        items.map Item.input ++ calls.map .call := by
    intro calls
    induction calls with
    | nil => simp
    | cons call calls ih =>
      intro items
      rw [List.foldl_cons, ih, pushCall]
      simp [Item.input]
  unfold plainItems spokenItems
  dsimp only
  rw [hcalls]
  split <;> simp [Item.input]

theorem plainItems_idPrefix (requestId : String) (choice : Choice)
    (h : ∀ p ∈ choice.thinking, (told p).isSome) :
    ∀ item ∈ plainItems requestId choice, item.idPrefix.isSome := by
  have hinput : ∀ item : Item, (∀ id content encryptedContent signature,
      item.input ≠ .compaction id content encryptedContent signature) → item.idPrefix.isSome := by
    rintro (_ | _ | _ | _) hitem <;> first | rfl | exact absurd rfl (hitem _ _ _ _)
  intro item hitem
  refine hinput item fun id content encryptedContent signature hcompaction => ?_
  have hmem := List.mem_map_of_mem (f := Item.input) hitem
  rw [plainItems_input, hcompaction] at hmem
  rcases List.mem_append.mp hmem with hmem | hmem
  · obtain ⟨r, hr, hinput⟩ := List.mem_map.mp hmem
    have hkind := (reasoningItems_read requestId h).1 r hr
    cases r with
    | compaction => simp [Item.kind] at hkind
    | _ => cases hinput
  · unfold spokenItems at hmem
    split at hmem <;> simp at hmem

/-- **The output items of a choice, sent back after another party's message, are read as one message
with its reasoning, its text and its calls.** -/
theorem outputItems_replayed {debug : String → String} {before : List Value}
    {out msgs : List Message} (h : parseInputArray debug before out = .ok msgs)
    (hlast : ∀ m ∈ msgs.getLast?, m.role ≠ .assistant) (requestId : String) {choice : Choice}
    (hcompaction : choice.compaction = []) (hthinking : ∀ p ∈ choice.thinking, (told p).isSome) :
    parseInputArray debug (before ++ (outputItems requestId choice).map Item.json) out =
      .ok (msgs ++ replayed choice) := by
  have hids := plainItems_idPrefix requestId choice hthinking
  have ⟨hinput, hids'⟩ := renumber_input requestId hids
  have hitems : ((outputItems requestId choice).map Item.json).mapM (readItem debug) =
      .ok ((plainItems requestId choice).map Item.input) := by
    rw [← hinput, outputItems, hcompaction]
    exact Traverse.mapM_map fun item hitem => Item.readItem_json item (hids' item hitem)
  unfold parseInputArray at h ⊢
  cases hins : before.mapM (readItem debug) with
  | error e => rw [hins] at h; cases h
  | ok ins =>
    rw [hins] at h
    -- nothing is held back: it would have become a last message of the assistant's
    have hst : ins.foldl Inputs.take ⟨out, []⟩ = ⟨msgs, []⟩ := by
      have hmsgs : (ins.foldl Inputs.take ⟨out, []⟩).flush.out = msgs := Except.ok.inj h
      generalize ins.foldl Inputs.take ⟨out, []⟩ = st at hmsgs
      obtain ⟨o, pending⟩ := st
      unfold Inputs.flush at hmsgs
      dsimp only at hmsgs
      split at hmsgs
      · rename_i hp
        rw [hmsgs, hp]
      · refine absurd rfl (hlast (Inputs.turn pending []) ?_)
        rw [← hmsgs, List.getLast?_concat]
        rfl
    have ⟨hall, hread⟩ := reasoningItems_read requestId hthinking
    rw [Traverse.mapM_append_ok hins hitems, Except.map]
    rw [List.foldl_append, hst, plainItems_input, List.foldl_append, Inputs.take_reasoning hall,
      hread, List.nil_append, Inputs.flush_spoken hlast]

/-- A choice with signed, unsigned and encrypted reasoning, a text and two calls. -/
def signedChoice : Choice where
  output := []
  index := 0
  text := "t"
  thinking := [.thinking "" none, .thinking "a" (some "s"), .redactedThinking "e",
    .thinking "" (some "")]
  compaction := []
  toolCalls := [⟨"1", "f", "\x7b\x7d"⟩, ⟨"2", "g", ""⟩]
  finishReason := none

theorem outputItems_replayed_signed :
    parseInputArray id ([.obj [("role", .string "user"), ("content", .string "q")]] ++
        (outputItems "r" signedChoice).map Item.json) [] =
      .ok ([.ofText .user "q"] ++ [Inputs.turn (signedChoice.thinking ++ [.text "t"])
        signedChoice.toolCalls]) :=
  outputItems_replayed (by decide +kernel) (by decide) "r" rfl (by decide)

end Llmleaf.Responses
