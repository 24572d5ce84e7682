import Llmleaf.Chat.Collect
import Llmleaf.Compat.Responses

/-!
# The items of a Responses stream

`Live` is the encoder without its frames: what it accumulates, and the output items in the order
in which they were begun, each a `Run` of chunks. Only the last of them can be open.

- `Refines w s`: the encoder accumulates what `s` does and has finished the items of `s`, each
  under its position; one lemma for each operation, `Refines.encode` for one chunk.
- `streamFrames_refines`: what a whole stream has finished, and the snapshot it ends with.
-/

namespace Llmleaf.Responses

/-- A compaction chunk, with the number of items that were begun before it. -/
structure Mark where
  live : ℕ
  outputIndex : Option ℕ
  id : Option String
  delta : String
  encryptedContent : Option String
  signature : Option String
  deriving DecidableEq

namespace Mark

/-- The content that the encoder gives a compaction. -/
def content (m : Mark) : Option String := if m.delta = "" then none else some m.delta

/-- The part that the encoder accumulates. -/
def livePart (m : Mark) : ContentPart :=
  .compaction (m.outputIndex.or (some m.live)) m.id m.content m.encryptedContent m.signature

end Mark

/-- An output item in the making: a run of chunks of one kind. -/
inductive Run where
  | reasoning (text : String) (sig : Option String)
  | redacted (data : String)
  | message (text : String)
  | call (canon : ℕ) (acc : ToolCall)
  | compaction (mark : Mark)
  deriving DecidableEq

namespace Run

/-- The item a run is finished as, at its output index. -/
def item (requestId : String) (index : ℕ) : Run → Item
  | reasoning text sig => .reasoning (itemId "rs" requestId index) (some [text]) none sig
  | redacted data => .reasoning (itemId "rs" requestId index) none (some data) none
  | message text => .message (itemId "msg" requestId index) "completed" [text]
  | call _ acc =>
    .functionCall (itemId "fc" requestId index) acc.id acc.name acc.arguments "completed"
  | compaction mark =>
    .compaction (mark.id.getD (itemId "cmp" requestId index)) mark.encryptedContent mark.content
      mark.signature

/-- Continue reasoning. -/
def think (delta : String) : Run → Option Run
  | reasoning text sig => some (reasoning (text ++ delta) sig)
  | _ => none

/-- Sign reasoning. -/
def sign (signature : String) : Run → Run
  | reasoning text _ => reasoning text (some signature)
  | run => run

/-- Continue a message. -/
def say (delta : String) : Run → Option Run
  | message text => some (message (text ++ delta))
  | _ => none

/-- Continue the fragments of a call. -/
def fragment (canon : ℕ) (acc : ToolCall) : Run → Option Run
  | call k _ => if k = canon then some (call canon acc) else none
  | _ => none

end Run

/-- What is accumulated, the finished items and the open one. -/
structure Live where
  acc : Accumulated
  done : List Run
  cur : Option Run

namespace Live

/-- Nothing has arrived. -/
def empty : Live := ⟨.empty, [], none⟩

/-- The items in the order in which they were begun. -/
def runs (s : Live) : List Run := s.done ++ s.cur.toList

/-- Finish the open item. -/
def close (s : Live) : Live := ⟨s.acc, s.runs, none⟩

/-- Take in an item that arrives whole. -/
def whole (s : Live) (run : Run) : Live := ⟨s.acc, s.runs ++ [run], none⟩

/-- Continue the open item, or begin a new one. -/
def extend (s : Live) (f : Run → Option Run) (new : Run) : Live :=
  match s.cur.bind f with
  | some run => { s with cur := some run }
  | none => ⟨s.acc, s.runs, some new⟩

/-- Change what is accumulated. -/
def accumulate (s : Live) (f : Accumulated → Accumulated) : Live := { s with acc := f s.acc }

/-- The call of an index with one more fragment. -/
def called (s : Live) (call : ToolCallDelta) : ToolCall :=
  Collected.addFragment call ((s.acc.tools.lookup call.index).getD ⟨"", "", ""⟩)

theorem lookup_called (s : Live) {call : ToolCallDelta} {tools : HashMap ℕ ToolCall}
    (htools : tools = s.acc.tools.update call.index ⟨"", "", ""⟩ (Collected.addFragment call))
    (k : ℕ) : tools.lookup k =
      if k = call.index then some (s.called call) else s.acc.tools.lookup k := by
  rw [htools, HashMap.lookup_update]
  rfl

/-- Take in a chunk of choice 0, or one that belongs to no choice. -/
def take (s : Live) : StreamChunk → Live
  | .start _ _ => s
  | .thinking _ delta =>
    (s.accumulate fun acc => { acc with thinkText := acc.thinkText ++ delta }).extend
      (Run.think delta) (.reasoning delta none)
  | .thinkingSignature _ signature =>
    { s.accumulate fun acc => { acc with thinkSig := some signature } with
      cur := s.cur.map (Run.sign signature) }
  | .redactedThinking _ data =>
    (s.accumulate fun acc => { acc with redacted := acc.redacted ++ [data] }).whole (.redacted data)
  | .compaction outputIndex _ delta id encryptedContent signature =>
    let mark : Mark := ⟨s.runs.length, outputIndex, id, delta, encryptedContent, signature⟩
    (s.accumulate fun acc => { acc with compaction := acc.compaction ++ [mark.livePart] }).whole
      (.compaction mark)
  | .outputItem _ message =>
    s.accumulate fun acc => { acc with orderedOutput := acc.orderedOutput ++ [message] }
  | .content _ delta =>
    (s.accumulate fun acc => { acc with text := acc.text ++ delta }).extend
      (Run.say delta) (.message delta)
  | .toolCall _ call =>
    (s.accumulate fun acc =>
      { acc with tools := acc.tools.update call.index ⟨"", "", ""⟩ (Collected.addFragment call) })
      |>.extend (Run.fragment call.index (s.called call)) (.call call.index (s.called call))
  | .usage u => s.accumulate fun acc => { acc with usage := u }
  | .finish _ reason => s.close.accumulate fun acc => { acc with finish := some reason }

/-- Take in a chunk; chunks of other choices are ignored. -/
def step (s : Live) (c : StreamChunk) : Live := if c.index.getD 0 = 0 then s.take c else s

end Live

/-- What a stream accumulates, and its items. -/
def live (chunks : List StreamChunk) : Live := chunks.foldl Live.step .empty

/-! ## The encoder refines it -/

/-- The item that a frame finishes, with its output index. -/
def Frame.finished (f : Frame) : Option (ℕ × Item) :=
  match f.data with
  | .item index item =>
    if f.event = "response.output_item.done" then some (index, item) else none
  | _ => none

/-- The finished items in the order of their frames. -/
def doneItems (frames : List Frame) : List (ℕ × Item) := frames.filterMap Frame.finished

/-- The open item on the wire is the open run. -/
inductive OpenAs (requestId : String) (index : ℕ) (tools : HashMap ℕ ToolCall) :
    Option OpenItem → Option Run → Prop
  | closed : OpenAs requestId index tools none none
  | reasoning (text : String) (sig : Option String) :
    OpenAs requestId index tools (some (.reasoning index (itemId "rs" requestId index) text sig))
      (some (.reasoning text sig))
  | message (text : String) :
    OpenAs requestId index tools (some (.message index (itemId "msg" requestId index) text))
      (some (.message text))
  | call (canon : ℕ) (acc : ToolCall) (h : tools.lookup canon = some acc) :
    OpenAs requestId index tools (some (.tool index (itemId "fc" requestId index) canon))
      (some (.call canon acc))

/-- The encoder accumulates what `s` does, has finished the items of `s` and has its open item
open. -/
structure Refines (w : Writing) (s : Live) : Prop where
  acc : w.enc.acc = s.acc
  begun : w.enc.outputIndex = s.runs.length
  opened : OpenAs w.enc.requestId s.done.length s.acc.tools w.enc.openItem s.cur
  finished : doneItems w.out = s.done.mapIdx fun i run => (i, run.item w.enc.requestId i)
  started : s.runs ≠ [] → w.enc.started

theorem doneItems_push (w : Writing) (event : String) (data : Payload) :
    doneItems (w.push event data).out =
      doneItems w.out ++ (Frame.finished ⟨event, data, w.enc.seq⟩).toList := by
  simp only [doneItems, Writing.push, List.filterMap_append]
  cases h : Frame.finished ⟨event, data, w.enc.seq⟩ <;> simp [h]

theorem closeOpen_enc (w : Writing) :
    ∃ seq, w.closeOpen.enc = { w.enc with openItem := none, seq := seq } := by
  unfold Writing.closeOpen
  split
  · rename_i ho
    exact ⟨w.enc.seq, by rw [← ho]⟩
  · exact ⟨_, rfl⟩
  · exact ⟨_, rfl⟩
  · exact ⟨_, rfl⟩

@[simp] theorem requestId_closeOpen (w : Writing) :
    w.closeOpen.enc.requestId = w.enc.requestId := by
  obtain ⟨seq, henc⟩ := closeOpen_enc w
  rw [henc]

@[simp] theorem outputIndex_closeOpen (w : Writing) :
    w.closeOpen.enc.outputIndex = w.enc.outputIndex := by
  obtain ⟨seq, henc⟩ := closeOpen_enc w
  rw [henc]

@[simp] theorem started_closeOpen (w : Writing) : w.closeOpen.enc.started = w.enc.started := by
  obtain ⟨seq, henc⟩ := closeOpen_enc w
  rw [henc]

theorem keepOpen_updateOpen (o : Writing × ℕ) (item : ℕ → OpenItem) (f : OpenItem → OpenItem) :
    (Writing.keepOpen o item).1.updateOpen f =
      ⟨{ o.1.enc with openItem := some (f (item o.2)) }, o.1.out⟩ := rfl

/-- Either the call of the index is open, or a new fragment of it does not touch what is open. -/
theorem OpenAs.call_or {requestId : String} {index canon : ℕ} {tools tools' : HashMap ℕ ToolCall}
    {o : Option OpenItem} {cur : Option Run} (h : OpenAs requestId index tools o cur)
    (htools : ∀ k, k ≠ canon → tools'.lookup k = tools.lookup k) :
    (o = some (.tool index (itemId "fc" requestId index) canon) ∧
      ∃ acc, cur = some (.call canon acc)) ∨
    (OpenAs requestId index tools' o cur ∧ (∀ i id, o ≠ some (.tool i id canon)) ∧
      ∀ acc, cur.bind (Run.fragment canon acc) = none) := by
  cases h with
  | closed => exact .inr ⟨.closed, by simp, fun _ => rfl⟩
  | reasoning text sig => exact .inr ⟨.reasoning _ _, by simp, fun _ => rfl⟩
  | message text => exact .inr ⟨.message _, by simp, fun _ => rfl⟩
  | call k acc hacc =>
    by_cases hk : k = canon
    · exact .inl ⟨by rw [hk], acc, by rw [hk]⟩
    · refine .inr ⟨.call _ _ (by rw [htools k hk, hacc]), ?_, fun acc => ?_⟩
      · simp [hk]
      · simp [Run.fragment, hk]

theorem openTool_fresh {w : Writing} {call : ToolCallDelta}
    (h : ∀ i id, w.enc.openItem ≠ some (.tool i id call.index)) :
    w.openTool call = Writing.keepOpen
      (w.addItem fun index => .functionCall (itemId "fc" w.enc.requestId index) (call.id.getD "")
        (call.name.getD "") "" "in_progress")
      fun index => .tool index (itemId "fc" w.enc.requestId index) call.index := by
  unfold Writing.openTool
  split
  · rename_i index id canon ho
    rw [if_neg fun hk : canon = call.index => h index id (hk ▸ ho)]
  · rfl

theorem started_ensureStarted (w : Writing) : w.ensureStarted.enc.started := by
  unfold Writing.ensureStarted
  split
  · assumption
  · rfl

/-- Chunks of other choices are ignored. -/
theorem encode_other (w : Writing) {c : StreamChunk} (hc : c.index.getD 0 ≠ 0) :
    w.encode c = w := by
  cases c <;> simp_all [StreamChunk.index, Writing.encode]

namespace Refines

variable {w : Writing} {s : Live}

/-- A frame that finishes no item. -/
theorem push (h : Refines w s) (event : String) (data : Payload)
    (hf : Frame.finished ⟨event, data, w.enc.seq⟩ = none) : Refines (w.push event data) s := by
  refine ⟨h.acc, h.begun, h.opened, ?_, h.started⟩
  rw [doneItems_push, hf, Option.toList_none, List.append_nil]
  exact h.finished

theorem ensureStarted (h : Refines w s) : Refines w.ensureStarted s := by
  unfold Writing.ensureStarted
  split
  · exact h
  · have h' : Refines { w with enc.started := true } s :=
      ⟨h.acc, h.begun, h.opened, h.finished, fun _ => rfl⟩
    exact (h'.push _ _ rfl).push _ _ rfl

/-- A change of what is accumulated and of the open item, on both sides. -/
theorem reopen (h : Refines w s) (f : Accumulated → Accumulated) (o : Option OpenItem)
    (cur : Option Run) (hsome : cur.isSome = s.cur.isSome)
    (ho : OpenAs w.enc.requestId s.done.length (f s.acc).tools o cur) :
    Refines ⟨{ w.enc with acc := f w.enc.acc, openItem := o }, w.out⟩ ⟨f s.acc, s.done, cur⟩ := by
  have hlen : (s.done ++ cur.toList).length = s.runs.length := by
    cases cur <;> cases hc : s.cur <;> simp_all [Live.runs]
  refine ⟨congrArg f h.acc, ?_, ho, h.finished, fun hruns => h.started fun hnil => hruns ?_⟩
  · exact h.begun.trans hlen.symm
  · rw [hnil] at hlen
    exact List.length_eq_zero_iff.mp hlen

/-- A change of what is accumulated that keeps the calls, on both sides. -/
theorem accumulate (h : Refines w s) (f : Accumulated → Accumulated)
    (hf : ∀ acc, (f acc).tools = acc.tools) : Refines (w.accumulate f) (s.accumulate f) :=
  h.reopen f _ _ rfl ((hf s.acc).symm ▸ h.opened)

/-- The item that is finished when the open one is closed. -/
theorem doneItems_closeOpen (h : Refines w s) : doneItems w.closeOpen.out = doneItems w.out ++
    s.cur.toList.map fun run => (s.done.length, run.item w.enc.requestId s.done.length) := by
  have hopened := h.opened
  have hacc := h.acc
  generalize ho : w.enc.openItem = o, s.cur = cur at hopened
  unfold Writing.closeOpen
  simp only [ho]
  cases hopened with
  | closed => simp
  | reasoning text sig =>
    rw [doneItems_push, doneItems_push]
    simp [Frame.finished, Run.item]
  | message text =>
    rw [doneItems_push, doneItems_push, doneItems_push]
    simp [Frame.finished, Run.item]
  | call canon acc hcall =>
    rw [doneItems_push, doneItems_push, hacc, hcall]
    simp [Frame.finished, Run.item]

/-- Finishing the open item. -/
theorem closeOpen (h : Refines w s) : Refines w.closeOpen s.close := by
  obtain ⟨seq, henc⟩ := closeOpen_enc w
  have hruns : s.close.runs = s.runs := List.append_nil _
  refine ⟨?_, ?_, ?_, ?_, ?_⟩
  · rw [henc]
    exact h.acc
  · rw [henc, hruns]
    exact h.begun
  · rw [henc]
    exact .closed
  · rw [h.doneItems_closeOpen, h.finished, henc, Live.close, Live.runs, List.mapIdx_append]
    cases s.cur <;> simp
  · rw [henc, hruns]
    exact h.started

/-- An item is added: the next one is open under the index handed back. -/
theorem addItem (h : Refines w s) (hstarted : w.enc.started) (item : ℕ → Item) (run : Run)
    {opened : OpenItem}
    (ho : OpenAs w.enc.requestId s.runs.length s.acc.tools (some opened) (some run)) :
    (w.addItem item).2 = s.runs.length ∧
      Refines { (w.addItem item).1 with enc.openItem := some opened } ⟨s.acc, s.runs, some run⟩ := by
  obtain ⟨seq, henc⟩ := closeOpen_enc w
  have hclose := h.closeOpen
  have hindex : (w.addItem item).2 = s.runs.length := by
    rw [Writing.addItem, henc]
    exact h.begun
  refine ⟨hindex, ?_, ?_, ?_, ?_, fun _ => ?_⟩
  · exact hclose.acc
  · simp only [Writing.addItem, Writing.push, henc, Live.runs, h.begun]
    simp [Nat.add_assoc]
  · simp only [Writing.addItem, Writing.push, henc]
    exact ho
  · have hout : doneItems (w.addItem item).1.out = doneItems w.closeOpen.out := by
      rw [Writing.addItem, doneItems_push]
      simp [Frame.finished]
    simp only [hout, hclose.finished]
    rfl
  · simp only [Writing.addItem, Writing.push, henc]
    exact hstarted

/-- An item that arrives whole. -/
theorem wholeItem (h : Refines w s) (hstarted : w.enc.started) (item : ℕ → Item) (run : Run)
    (hitem : item s.runs.length = run.item w.enc.requestId s.runs.length) :
    Refines (w.wholeItem item) (s.whole run) := by
  obtain ⟨seq, henc⟩ := closeOpen_enc w
  have hclose := h.closeOpen
  have hindex : w.closeOpen.enc.outputIndex = s.runs.length :=
    (outputIndex_closeOpen w).trans h.begun
  refine ⟨?_, ?_, ?_, ?_, fun _ => ?_⟩
  · exact hclose.acc
  · simp only [Writing.wholeItem, Writing.addItem, Writing.push, hindex, Live.runs, Live.whole]
    simp [Nat.add_assoc]
  · simp only [Writing.wholeItem, Writing.addItem, Writing.push, henc]
    exact .closed
  · simp only [Writing.wholeItem, Writing.addItem, hindex]
    rw [doneItems_push, doneItems_push, hclose.finished, Live.whole, List.mapIdx_append]
    simp [Frame.finished, Live.close, hitem, Writing.push, henc]
  · simp only [Writing.wholeItem, Writing.addItem, Writing.push, henc]
    exact hstarted

/-- Reasoning goes on, or begins. -/
theorem think (h : Refines w s) (hstarted : w.enc.started) (delta : String) :
    Refines (w.openReasoning.1.updateOpen (.pushReasoning delta))
      (s.extend (Run.think delta) (.reasoning delta none)) := by
  obtain ⟨hindex, hfresh⟩ := h.addItem hstarted
    (fun index => .reasoning (itemId "rs" w.enc.requestId index) (some []) none none)
    (.reasoning delta none) (.reasoning delta none)
  have hopened := h.opened
  generalize ho : w.enc.openItem = o, hc : s.cur = cur at hopened
  cases hopened with
  | reasoning text sig =>
    have hsame : w.openReasoning.1 = w := by
      unfold Writing.openReasoning
      rw [ho]
    have hcur := h.reopen id (some (.reasoning s.done.length
      (itemId "rs" w.enc.requestId s.done.length) (text ++ delta) sig))
      (some (.reasoning (text ++ delta) sig)) (by rw [hc]; rfl) (.reasoning _ _)
    rw [hsame, Writing.updateOpen, ho, Live.extend, hc]
    exact hcur
  | closed | message | call =>
    unfold Writing.openReasoning
    simp only [ho]
    rw [keepOpen_updateOpen, hindex, Live.extend, hc]
    simp only [OpenItem.pushReasoning, String.empty_append]
    exact hfresh

/-- A message goes on, or begins. -/
theorem say (h : Refines w s) (hstarted : w.enc.started) (delta : String) :
    Refines (w.openMessage.1.updateOpen (.pushMessage delta))
      (s.extend (Run.say delta) (.message delta)) := by
  obtain ⟨hindex, hfresh⟩ := h.addItem hstarted
    (fun index => .message (itemId "msg" w.enc.requestId index) "in_progress" [])
    (.message delta) (.message delta)
  have hopened := h.opened
  generalize ho : w.enc.openItem = o, hc : s.cur = cur at hopened
  cases hopened with
  | message text =>
    have hsame : w.openMessage.1 = w := by
      unfold Writing.openMessage
      rw [ho]
    have hcur := h.reopen id (some (.message s.done.length
      (itemId "msg" w.enc.requestId s.done.length) (text ++ delta)))
      (some (.message (text ++ delta))) (by rw [hc]; rfl) (.message _)
    rw [hsame, Writing.updateOpen, ho, Live.extend, hc]
    exact hcur
  | closed | reasoning | call =>
    unfold Writing.openMessage
    simp only [ho]
    rw [keepOpen_updateOpen, hindex, Live.extend, hc]
    have hpart := hfresh.push "response.content_part.added"
      (.piece (itemId "msg" w.enc.requestId s.runs.length) s.runs.length "") rfl
    simp only [OpenItem.pushMessage, String.empty_append]
    exact hpart

/-- The fragments of a call go on, or a call begins; its fragment is accumulated before. -/
theorem fragment (h : Refines w s) (hstarted : w.enc.started) (call : ToolCallDelta)
    (f : Accumulated → Accumulated)
    (hf : (f s.acc).tools = s.acc.tools.update call.index ⟨"", "", ""⟩
      (Collected.addFragment call)) :
    Refines ((w.accumulate f).openTool call).1
      ((s.accumulate f).extend (Run.fragment call.index (s.called call))
        (.call call.index (s.called call))) := by
  have hcall : (f s.acc).tools.lookup call.index = some (s.called call) := by
    rw [s.lookup_called hf, if_pos rfl]
  have htools (k : ℕ) (hk : k ≠ call.index) : (f s.acc).tools.lookup k = s.acc.tools.lookup k := by
    rw [s.lookup_called hf, if_neg hk]
  rcases h.opened.call_or htools with ⟨ho, acc, hc⟩ | ⟨hopened, ho, hc⟩
  · have hsame : ((w.accumulate f).openTool call).1 = w.accumulate f := by
      unfold Writing.openTool Writing.accumulate
      simp [ho]
    have hcur := h.reopen f w.enc.openItem (some (.call call.index (s.called call)))
      (by rw [hc]; rfl) (by rw [ho]; exact .call _ _ hcall)
    rw [hsame, Live.extend]
    simp only [Live.accumulate, hc, Option.bind_some, Run.fragment, if_true]
    exact hcur
  · have h' : Refines (w.accumulate f) (s.accumulate f) := h.reopen f _ _ rfl hopened
    obtain ⟨hindex, hnew⟩ := h'.addItem hstarted
      (fun index => .functionCall (itemId "fc" (w.accumulate f).enc.requestId index)
        (call.id.getD "") (call.name.getD "") "" "in_progress")
      (.call call.index (s.called call)) (.call _ _ hcall)
    have hextend : (s.accumulate f).extend (Run.fragment call.index (s.called call))
        (.call call.index (s.called call)) = ⟨f s.acc, s.runs, some (.call call.index (s.called call))⟩ := by
      unfold Live.extend
      rw [show (s.accumulate f).cur = s.cur from rfl, hc]
      rfl
    rw [openTool_fresh (w := w.accumulate f) ho, hextend, Writing.keepOpen, hindex]
    exact hnew

/-- Nothing has begun before the start, so the stream may still be renamed. -/
theorem rename (h : Refines w s) (hstarted : w.enc.started = false) (id : String) :
    Refines { w with enc.requestId := id } s := by
  have hruns : s.runs = [] := by
    by_contra hne
    rw [h.started hne] at hstarted
    exact Bool.noConfusion hstarted
  obtain ⟨hdone, hcur⟩ := List.append_eq_nil_iff.mp hruns
  have hopened := h.opened
  have hfinished := h.finished
  rw [Option.toList_eq_nil_iff.mp hcur] at hopened
  rw [hdone] at hfinished
  refine ⟨h.acc, h.begun, ?_, ?_, h.started⟩
  · rw [Option.toList_eq_nil_iff.mp hcur]
    generalize w.enc.openItem = o at hopened
    cases hopened
    exact .closed
  · rw [hdone]
    exact hfinished

/-- Signing the open reasoning. -/
theorem sign (h : Refines w s) (signature : String) :
    Refines ((w.accumulate fun acc => { acc with thinkSig := some signature }).updateOpen
      (.sign signature)) (s.take (.thinkingSignature 0 signature)) := by
  refine h.reopen (fun acc => { acc with thinkSig := some signature }) _ _ (by simp) ?_
  show OpenAs _ _ s.acc.tools (w.enc.openItem.map (.sign signature)) (s.cur.map (.sign signature))
  have hopened := h.opened
  generalize w.enc.openItem = o, s.cur = cur at hopened
  cases hopened with
  | closed => exact .closed
  | reasoning text sig => exact .reasoning _ _
  | message text => exact .message _
  | call canon acc hacc => exact .call _ _ hacc

/-- One chunk of choice 0, or one that belongs to no choice. -/
theorem take (h : Refines w s) {c : StreamChunk} (hc : c.index.getD 0 = 0) :
    Refines (w.encode c) (s.take c) := by
  have hs := h.ensureStarted
  have hstarted := started_ensureStarted w
  cases c with
  | start id model =>
    simp only [Writing.encode, Live.take]
    split
    · rename_i hnew
      simp only [Bool.and_eq_true, Bool.not_eq_eq_eq_not, Bool.not_true] at hnew
      exact (h.rename hnew.1 id).ensureStarted
    · exact hs
  | usage u => exact h.accumulate (fun acc => { acc with usage := u }) fun _ => rfl
  | thinking index delta =>
    obtain rfl : index = 0 := hc
    have hacc := hs.accumulate (fun acc => { acc with thinkText := acc.thinkText ++ delta })
      fun _ => rfl
    simp only [Writing.encode, ne_eq, not_true_eq_false, if_false]
    exact (hacc.think hstarted delta).push _ _ rfl
  | thinkingSignature index signature =>
    obtain rfl : index = 0 := hc
    simp only [Writing.encode, ne_eq, not_true_eq_false, if_false]
    exact h.sign signature
  | redactedThinking index data =>
    obtain rfl : index = 0 := hc
    have hacc := hs.accumulate (fun acc => { acc with redacted := acc.redacted ++ [data] })
      fun _ => rfl
    simp only [Writing.encode, ne_eq, not_true_eq_false, if_false]
    exact hacc.wholeItem hstarted _ (.redacted data) rfl
  | compaction outputIndex index delta id encryptedContent signature =>
    obtain rfl : index = 0 := hc
    have hclose := hs.closeOpen
    let mark : Mark := ⟨s.runs.length, outputIndex, id, delta, encryptedContent, signature⟩
    have hacc := hclose.accumulate
      (fun acc => { acc with compaction := acc.compaction ++ [mark.livePart] }) fun _ => rfl
    have hlive : w.ensureStarted.closeOpen.enc.outputIndex = s.runs.length :=
      (outputIndex_closeOpen _).trans hs.begun
    have hstarted' : w.ensureStarted.closeOpen.enc.started := by
      rw [started_closeOpen]
      exact hstarted
    have hruns : (s.close.accumulate
        fun acc => { acc with compaction := acc.compaction ++ [mark.livePart] }).runs = s.runs :=
      List.append_nil _
    have hwhole := hacc.wholeItem hstarted'
      (fun _ => .compaction (id.getD (itemId "cmp" w.ensureStarted.closeOpen.enc.requestId
        s.runs.length)) encryptedContent mark.content signature) (.compaction mark)
      (by rw [hruns]; rfl)
    rw [Live.whole, hruns] at hwhole
    simp only [Writing.encode, ne_eq, not_true_eq_false, if_false, hlive]
    exact hwhole
  | outputItem index message =>
    obtain rfl : index = 0 := hc
    simp only [Writing.encode, ne_eq, not_true_eq_false, if_false]
    exact h.accumulate (fun acc => { acc with orderedOutput := acc.orderedOutput ++ [message] })
      fun _ => rfl
  | content index delta =>
    obtain rfl : index = 0 := hc
    have hacc := hs.accumulate (fun acc => { acc with text := acc.text ++ delta }) fun _ => rfl
    simp only [Writing.encode, ne_eq, not_true_eq_false, if_false]
    exact (hacc.say hstarted delta).push _ _ rfl
  | toolCall index call =>
    obtain rfl : index = 0 := hc
    have hcall := hs.fragment hstarted call (fun acc => { acc with
      tools := acc.tools.update call.index ⟨"", "", ""⟩ (Collected.addFragment call) }) rfl
    simp only [Writing.encode, ne_eq, not_true_eq_false, if_false]
    split
    · exact hcall
    · exact hcall.push _ _ rfl
  | finish index reason =>
    obtain rfl : index = 0 := hc
    simp only [Writing.encode, ne_eq, not_true_eq_false, if_false]
    exact h.closeOpen.accumulate (fun acc => { acc with finish := some reason }) fun _ => rfl

/-- One chunk. -/
theorem encode (h : Refines w s) (c : StreamChunk) : Refines (w.encode c) (s.step c) := by
  unfold Live.step
  by_cases hc : c.index.getD 0 = 0
  · rw [if_pos hc]
    exact h.take hc
  · rw [if_neg hc, encode_other w hc]
    exact h

theorem new (requestId model : String) (created : ℕ) (echo : RequestEcho) :
    Refines (.new requestId model created echo) .empty :=
  ⟨rfl, rfl, .closed, rfl, fun h => absurd rfl h⟩

/-- A run of chunks. -/
theorem foldl (h : Refines w s) (chunks : List StreamChunk) :
    Refines (chunks.foldl Writing.encode w) (chunks.foldl Live.step s) := by
  induction chunks generalizing w s with
  | nil => exact h
  | cons c chunks ih => exact ih (h.encode c)

end Refines

/-! ## A whole stream -/

/-- The snapshot a frame carries. -/
def Frame.snapshot (f : Frame) : Option Response :=
  match f.data with
  | .response response => some response
  | _ => none

/-- The snapshot a stream ends with. -/
def terminal (frames : List Frame) : Option Response := frames.getLast?.bind Frame.snapshot

/-- The id under which the items of a stream are numbered. -/
def streamId (requestId model : String) (created : ℕ) (echo : RequestEcho)
    (chunks : List StreamChunk) : String :=
  (chunks.foldl Writing.encode (.new requestId model created echo)).enc.requestId

theorem requestId_end (w : Writing) :
    w.ensureStarted.closeOpen.enc.requestId = w.enc.requestId := by
  rw [requestId_closeOpen]
  unfold Writing.ensureStarted
  split <;> rfl

/-- The items that a stream finishes are those it has begun, in their order. -/
theorem doneItems_streamFrames (requestId model : String) (created : ℕ) (echo : RequestEcho)
    (chunks : List StreamChunk) :
    doneItems (streamFrames requestId model created echo chunks) =
      (live chunks).runs.mapIdx fun i run =>
        (i, run.item (streamId requestId model created echo chunks) i) := by
  have hend := ((Refines.new requestId model created echo).foldl chunks).ensureStarted.closeOpen
  rw [streamFrames, Writing.finish, doneItems_push, hend.finished, requestId_end]
  exact List.append_nil _

/-- What a response says: its output array, its status, why it is incomplete, and the usage. -/
def Response.answer (r : Response) : List Item × String × Option String × Option UsageOut :=
  (r.output, r.status, r.incompleteDetails, r.usage)

/-- The output array of a choice. -/
def choiceItems (requestId : String) (c : Choice) : List Item :=
  if c.output = [] then outputItems requestId c else orderedOutputItems requestId c.output

/-- The answer of a response with this first choice. -/
def answerOf (requestId : String) (choice : Option Choice) (usage : Usage) :
    List Item × String × Option String × Option UsageOut :=
  ((choice.map (choiceItems requestId)).getD [], (statusFor (choice.bind Choice.finishReason)).1,
    (statusFor (choice.bind Choice.finishReason)).2, some (usageJson usage))

theorem answer_responseToResponses (resp : ChatResponse) (echo : RequestEcho) (created : ℕ) :
    (responseToResponses resp echo created).answer =
      answerOf resp.id resp.choices.head? resp.usage := rfl

/-- The snapshot is that of the accumulated choice. -/
theorem terminal_streamFrames (requestId model : String) (created : ℕ) (echo : RequestEcho)
    (chunks : List StreamChunk) :
    (terminal (streamFrames requestId model created echo chunks)).map Response.answer =
      some (answerOf (streamId requestId model created echo chunks)
        (some (live chunks).acc.choice) (live chunks).acc.usage) := by
  have hend := ((Refines.new requestId model created echo).foldl chunks).ensureStarted.closeOpen
  have hid := requestId_end (chunks.foldl Writing.encode (.new requestId model created echo))
  have hlast (w : Writing) : terminal w.finish.out = some w.ensureStarted.closeOpen.snapshot := by
    rw [terminal, Writing.finish, Writing.push, List.getLast?_append]
    rfl
  rw [streamFrames, hlast, Option.map_some, Writing.snapshot, answer_responseToResponses, hid,
    hend.acc]
  rfl

end Llmleaf.Responses
