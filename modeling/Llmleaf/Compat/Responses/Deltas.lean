import Llmleaf.Compat.Responses.Items

/-!
# The deltas of a Responses item

Between `output_item.added` and the `*.done` events of an item its text comes in deltas. The text of
reasoning and of a message is kept by the open item. The arguments of a call are kept by call index
and outlive the item: if another item stands between two fragments of a call, the second fragment
opens a second item, which ends with the arguments of both.

- `AddsUp w rest`: every ended text is the sum of its deltas, and so is the open one up to `rest`.
- `Follows`: which calls have a run, and how often, by the chunks that touch them.
- `deltas_add_up_iff`: the deltas add up and each call is carried once, iff no call is interrupted.
-/

namespace Llmleaf.Responses

/-! ## Deltas and their sums -/

/-- The events of the deltas of an item. -/
def deltaEvents : List String :=
  ["response.reasoning_text.delta", "response.output_text.delta",
    "response.function_call_arguments.delta"]

/-- The events that repeat a text or arguments whole. -/
def textDoneEvents : List String :=
  ["response.reasoning_text.done", "response.output_text.done", "response.content_part.done",
    "response.function_call_arguments.done"]

/-- The text or the arguments of an item that comes in deltas; redacted reasoning and compactions
arrive whole. -/
def Item.text : Item → Option String
  | .reasoning _ content _ _ => content.map String.join
  | .message _ _ content => some (String.join content)
  | .functionCall _ _ _ arguments _ => some arguments
  | .compaction _ _ _ _ => none

namespace Frame

/-- Whether a frame adds the item of an output index. -/
def adds (i : ℕ) (f : Frame) : Bool :=
  match f.data with
  | .item index _ => f.event = "response.output_item.added" ∧ index = i
  | _ => false

/-- What a frame says of the item of an output index. -/
def delta (i : ℕ) (f : Frame) : String :=
  match f.data with
  | .piece _ index text => if f.event ∈ deltaEvents ∧ index = i then text else ""
  | _ => ""

/-- The text or the arguments of a `*.done` event, with the output index of its item. -/
def total (f : Frame) : Option (ℕ × String) :=
  match f.data with
  | .piece _ index text => if f.event ∈ textDoneEvents then some (index, text) else none
  | .item index item =>
    if f.event = "response.output_item.done" then item.text.map (index, ·) else none
  | _ => none

end Frame

/-- What ends a text adds no item. -/
theorem Frame.adds_of_total {f : Frame} {d : ℕ × String} (h : f.total = some d) (i : ℕ) :
    f.adds i = false := by
  unfold total at h
  unfold adds
  cases hd : f.data <;> simp_all

/-- What ends a text brings no delta. -/
theorem Frame.delta_of_total {f : Frame} {d : ℕ × String} (h : f.total = some d) (i : ℕ) :
    f.delta i = "" := by
  unfold total at h
  unfold delta
  split at h
  · rename_i hd
    rw [hd]
    split at h
    · rename_i hdone
      refine if_neg fun hdelta => ?_
      simp only [textDoneEvents, List.mem_cons, List.not_mem_nil, or_false] at hdone
      rcases hdone with e | e | e | e <;> simp [deltaEvents, e] at hdelta
    · cases h
  · rename_i hd
    rw [hd]
  · cases h

/-- The deltas of an item since it was added, joined. -/
def spoken (i : ℕ) (frames : List Frame) : String :=
  frames.foldl (fun text f => if f.adds i then "" else text ++ f.delta i) ""

/-- The text or the arguments of every `*.done` event are the deltas of its item, joined. -/
def DeltasAddUp (frames : List Frame) : Prop :=
  ∀ pre d post i text, frames = pre ++ d :: post → d.total = some (i, text) → spoken i pre = text

/-- The call that an item carries. -/
def Item.call : Item → Option ToolCall
  | .functionCall _ callId name arguments _ => some ⟨callId, name, arguments⟩
  | _ => none

/-- The calls of the finished items. -/
def functionCalls (frames : List Frame) : List ToolCall :=
  (doneItems frames).filterMap fun d => d.2.call

/-- The calls of choice 0 as the collector has them, one for each call index. -/
def canonicalCalls (chunks : List StreamChunk) : List ToolCall :=
  ((chunks.foldl Collected.step .empty).choice 0).toolCalls

/-- Whether a chunk is a fragment of a call of choice 0, or belongs to another item of it; some
chunks belong to none. -/
def touches (k : ℕ) : StreamChunk → Option Bool
  | .toolCall 0 call => some (call.index = k)
  | .content 0 _ | .thinking 0 _ | .redactedThinking 0 _ | .compaction _ 0 _ _ _ _
  | .finish 0 _ => some false
  | _ => none

/-- Between two fragments of a call a chunk belongs to another item. -/
def Interrupted (k : ℕ) (chunks : List StreamChunk) : Prop :=
  [true, false, true].Sublist (chunks.filterMap (touches k))

instance (k : ℕ) (chunks : List StreamChunk) : Decidable (Interrupted k chunks) :=
  inferInstanceAs (Decidable (List.Sublist _ _))

theorem spoken_concat (i : ℕ) (frames : List Frame) (f : Frame) :
    spoken i (frames ++ [f]) = if f.adds i then "" else spoken i frames ++ f.delta i := by
  rw [spoken, List.foldl_concat, ← spoken]

/-- One more frame: its own sum counts. -/
theorem deltasAddUp_concat (frames : List Frame) (f : Frame) :
    DeltasAddUp (frames ++ [f]) ↔
      DeltasAddUp frames ∧ ∀ i text, f.total = some (i, text) → spoken i frames = text := by
  constructor
  · intro h
    refine ⟨fun pre d post i text e hd => ?_, fun i text hf => h frames f [] i text rfl hf⟩
    exact h pre d (post ++ [f]) i text (by rw [e]; simp) hd
  · rintro ⟨hframes, hf⟩ pre d post i text e hd
    rcases List.eq_nil_or_concat post with rfl | ⟨post', f', rfl⟩
    · obtain ⟨rfl, rfl⟩ := List.append_singleton_inj.mp e
      exact hf i text hd
    · rw [List.concat_eq_append, ← List.cons_append, ← List.append_assoc] at e
      obtain ⟨rfl, -⟩ := List.append_singleton_inj.mp e
      exact hframes pre d post' i text rfl hd

/-- The text of the frame at a position, as the frames before it say it. -/
theorem DeltasAddUp.spoken_take {frames : List Frame} (h : DeltasAddUp frames) {n i : ℕ}
    {text : String} (hn : frames[n]?.bind Frame.total = some (i, text)) :
    spoken i (frames.take n) = text := by
  obtain ⟨d, hd, htotal⟩ := Option.bind_eq_some_iff.mp hn
  obtain ⟨hlt, rfl⟩ := List.getElem?_eq_some_iff.mp hd
  exact h (frames.take n) frames[n] (frames.drop (n + 1)) i text (by simp) htotal

/-! ## The encoder -/

/-- Every ended text is the sum of its deltas, and the text that is being ended is so far. -/
def Ended (w : Writing) (i : ℕ) (text : String) : Prop :=
  DeltasAddUp w.out ∧ spoken i w.out = text

/-- One more event that ends the text. -/
theorem Ended.push {w : Writing} {i : ℕ} {text : String} (h : Ended w i text) (event : String)
    (data : Payload) (htotal : Frame.total ⟨event, data, w.enc.seq⟩ = some (i, text)) :
    Ended (w.push event data) i text := by
  obtain ⟨hsums, hspoken⟩ := h
  refine ⟨(deltasAddUp_concat _ _).mpr ⟨hsums, fun j t ht => ?_⟩, ?_⟩
  · rw [htotal] at ht
    cases ht
    exact hspoken
  · rw [Writing.push, spoken_concat, Frame.adds_of_total htotal, Frame.delta_of_total htotal]
    simpa using hspoken

/-- The text of the open item, or the arguments of its call. -/
def Writing.textOf (w : Writing) : OpenItem → String
  | .reasoning _ _ text _ | .message _ _ text => text
  | .tool _ _ canon => ((w.enc.acc.tools.lookup canon).getD ⟨"", "", ""⟩).arguments

theorem Writing.ensureStarted_enc (w : Writing) :
    w.ensureStarted.enc.openItem = w.enc.openItem ∧ w.ensureStarted.enc.acc = w.enc.acc := by
  unfold Writing.ensureStarted
  split <;> exact ⟨rfl, rfl⟩

theorem Writing.textOf_addItem (w : Writing) (item : ℕ → Item) (opened : OpenItem) :
    (w.addItem item).1.textOf opened = w.textOf opened := by
  obtain ⟨seq, henc⟩ := closeOpen_enc w
  have hacc : (w.addItem item).1.enc.acc = w.enc.acc := by
    rw [Writing.addItem, Writing.push, henc]
  cases opened <;> simp only [Writing.textOf, hacc]

theorem Writing.tag_openReasoning (w : Writing) :
    w.openReasoning.1.enc.openItem.map OpenItem.tag = some w.openReasoning.2 := by
  unfold Writing.openReasoning
  split
  · rename_i ho
    rw [ho]
    rfl
  · rfl

theorem Writing.tag_openMessage (w : Writing) :
    w.openMessage.1.enc.openItem.map OpenItem.tag = some w.openMessage.2 := by
  unfold Writing.openMessage
  split
  · rename_i ho
    rw [ho]
    rfl
  · rfl

theorem Writing.tag_openTool (w : Writing) (call : ToolCallDelta) :
    (w.openTool call).1.enc.openItem.map OpenItem.tag = some (w.openTool call).2 := by
  unfold Writing.openTool
  split
  · rename_i ho
    split
    · rw [ho]
      rfl
    · rfl
  · rfl

/-- Every ended text is the sum of its deltas, and so is the text of the open item, up to a rest
that is still to be written. -/
structure AddsUp (w : Writing) (rest : String) : Prop where
  sums : DeltasAddUp w.out
  opened : ∀ item, w.enc.openItem = some item → spoken item.tag.1 w.out ++ rest = w.textOf item

namespace AddsUp

variable {w : Writing} {rest : String}

/-- A frame that ends no text, adds no item and brings no delta. -/
theorem push (h : AddsUp w rest) (event : String) (data : Payload)
    (htotal : Frame.total ⟨event, data, w.enc.seq⟩ = none)
    (hquiet : ∀ i, Frame.adds i ⟨event, data, w.enc.seq⟩ = false ∧
      Frame.delta i ⟨event, data, w.enc.seq⟩ = "") : AddsUp (w.push event data) rest := by
  refine ⟨(deltasAddUp_concat _ _).mpr ⟨h.sums, by simp [htotal]⟩, fun item ho => ?_⟩
  obtain ⟨hadds, hdelta⟩ := hquiet item.tag.1
  rw [Writing.push, spoken_concat, hadds, if_neg Bool.false_ne_true, hdelta, String.append_empty]
  exact h.opened item ho

theorem ensureStarted (h : AddsUp w rest) : AddsUp w.ensureStarted rest := by
  unfold Writing.ensureStarted
  split
  · exact h
  · have h' : AddsUp { w with enc.started := true } rest := ⟨h.sums, h.opened⟩
    exact (h'.push _ _ rfl fun _ => ⟨rfl, rfl⟩).push _ _ rfl fun _ => ⟨rfl, rfl⟩

/-- A change of what is accumulated that keeps the calls. -/
theorem accumulate (h : AddsUp w rest) (f : Accumulated → Accumulated)
    (hf : ∀ acc, (f acc).tools = acc.tools) : AddsUp (w.accumulate f) rest := by
  refine ⟨h.sums, fun item ho => ?_⟩
  rw [← show w.textOf item = (w.accumulate f).textOf item by
    cases item <;> simp [Writing.textOf, Writing.accumulate, hf]]
  exact h.opened item ho

/-- The rest of the open item, as a delta. -/
theorem pushPiece (h : AddsUp w rest) {tag : ℕ × String} {event : String}
    (htag : w.enc.openItem.map OpenItem.tag = some tag) (hevent : event ∈ deltaEvents) :
    AddsUp (w.pushPiece tag event rest) "" := by
  have htotal : Frame.total ⟨event, .piece tag.2 tag.1 rest, w.enc.seq⟩ = none := by
    refine if_neg fun hdone => ?_
    simp only [deltaEvents, List.mem_cons, List.not_mem_nil, or_false] at hevent
    rcases hevent with rfl | rfl | rfl <;> simp [textDoneEvents] at hdone
  refine ⟨(deltasAddUp_concat _ _).mpr ⟨h.sums, by simp [htotal]⟩, fun item ho => ?_⟩
  have hitem : item.tag = tag := by
    rw [show w.enc.openItem = some item from ho] at htag
    exact Option.some.inj htag
  have hdelta : Frame.delta tag.1 ⟨event, .piece tag.2 tag.1 rest, w.enc.seq⟩ = rest :=
    if_pos ⟨hevent, rfl⟩
  rw [Writing.pushPiece, Writing.push, spoken_concat, hitem, hdelta, String.append_empty, ← hitem]
  exact h.opened item ho

/-- Ending the open item. -/
theorem closeOpen (h : AddsUp w "") : AddsUp w.closeOpen "" := by
  have hclosed := Writing.openItem_closeOpen w
  refine ⟨?_, fun item ho => by rw [hclosed] at ho; cases ho⟩
  have hended {item : OpenItem} (ho : w.enc.openItem = some item) :
      Ended { w with enc.openItem := none } item.tag.1 (w.textOf item) :=
    ⟨h.sums, (String.append_empty).symm.trans (h.opened item ho)⟩
  unfold Writing.closeOpen
  split
  · exact h.sums
  · rename_i index id text sig ho
    exact (((hended ho).push "response.reasoning_text.done" (.piece id index text) rfl).push
      "response.output_item.done" (.item index (.reasoning id (some [text]) none sig))
      (by simp [Frame.total, Item.text, OpenItem.tag, Writing.textOf])).1
  · rename_i index id text ho
    exact ((((hended ho).push "response.output_text.done" (.piece id index text) rfl).push
      "response.content_part.done" (.piece id index text) rfl).push
      "response.output_item.done" (.item index (.message id "completed" [text]))
      (by simp [Frame.total, Item.text, OpenItem.tag, Writing.textOf])).1
  · rename_i index id canon ho
    exact (((hended ho).push "response.function_call_arguments.done" (.piece id index _) rfl).push
      "response.output_item.done" (.item index (.functionCall id _ _ _ "completed")) rfl).1

/-- Adding an item ends the open one; nothing is said of the new one. -/
theorem addItem (h : AddsUp w "") (item : ℕ → Item) :
    DeltasAddUp (w.addItem item).1.out ∧ spoken (w.addItem item).2 (w.addItem item).1.out = "" := by
  simp only [Writing.addItem, Writing.push, spoken_concat, deltasAddUp_concat]
  exact ⟨⟨h.closeOpen.sums, fun i text ht => by cases ht⟩, if_pos (by simp [Frame.adds])⟩

/-- An item that arrives whole has no text of its own. -/
theorem wholeItem (h : AddsUp w "") (item : ℕ → Item) (hitem : ∀ i, (item i).text = none) :
    AddsUp (w.wholeItem item) "" := by
  have hclosed : (w.wholeItem item).enc.openItem = none := Writing.openItem_closeOpen w
  refine ⟨?_, fun item ho => by rw [hclosed] at ho; cases ho⟩
  simp only [Writing.wholeItem, Writing.push, deltasAddUp_concat]
  refine ⟨(h.addItem item).1, fun i text ht => ?_⟩
  simp [Frame.total, hitem] at ht

/-- An added item that is kept open, with the text it is opened with still to be written. -/
theorem keepOpen (h : DeltasAddUp w.out) {index : ℕ} (hnew : spoken index w.out = "")
    (item : ℕ → OpenItem) (hindex : (item index).tag.1 = index)
    (hrest : w.textOf (item index) = rest) : AddsUp (Writing.keepOpen (w, index) item).1 rest := by
  refine ⟨h, fun opened ho => ?_⟩
  obtain rfl : item index = opened := Option.some.inj ho
  show spoken (item index).tag.1 w.out ++ rest = Writing.textOf _ (item index)
  rw [hindex, hnew, String.empty_append, ← hrest]
  cases item index <;> rfl

/-- Reasoning is open, with a delta still to be written. -/
theorem think (h : AddsUp w "") (delta : String) :
    AddsUp (w.openReasoning.1.updateOpen (.pushReasoning delta)) delta := by
  have hadded := h.addItem
    fun index => .reasoning (itemId "rs" w.enc.requestId index) (some []) none none
  unfold Writing.openReasoning
  split
  · rename_i index id text sig ho
    refine ⟨h.sums, fun item hitem => ?_⟩
    rw [Writing.updateOpen, ho] at hitem
    cases hitem
    have hopened := h.opened _ ho
    rw [String.append_empty] at hopened
    exact congrArg (· ++ delta) hopened
  · exact keepOpen hadded.1 hadded.2
      (fun index => .reasoning index (itemId "rs" w.enc.requestId index) ("" ++ delta) none) rfl
      String.empty_append

/-- A message is open, with a delta still to be written. -/
theorem say (h : AddsUp w "") (delta : String) :
    AddsUp (w.openMessage.1.updateOpen (.pushMessage delta)) delta := by
  obtain ⟨hsums, hspoken⟩ := h.addItem
    fun index => .message (itemId "msg" w.enc.requestId index) "in_progress" []
  unfold Writing.openMessage
  split
  · rename_i index id text ho
    refine ⟨h.sums, fun item hitem => ?_⟩
    rw [Writing.updateOpen, ho] at hitem
    cases hitem
    have hopened := h.opened _ ho
    rw [String.append_empty] at hopened
    exact congrArg (· ++ delta) hopened
  · refine keepOpen ?_ ?_
      (fun index => .message index (itemId "msg" w.enc.requestId index) ("" ++ delta)) rfl
      String.empty_append
    · exact (deltasAddUp_concat _ _).mpr ⟨hsums, fun i text ht => by cases ht⟩
    · exact (spoken_concat ..).trans (congrArg (· ++ "") hspoken)

/-- The call of an index is open, with the arguments of a fragment still to be written. A call that
is not open has not come before. -/
theorem fragment (h : AddsUp w "") (call : ToolCallDelta) (f : Accumulated → Accumulated)
    (hf : (f w.enc.acc).tools = w.enc.acc.tools.update call.index ⟨"", "", ""⟩
      (Collected.addFragment call))
    (hfresh : (∃ i id, w.enc.openItem = some (.tool i id call.index)) ∨
      w.enc.acc.tools.lookup call.index = none) :
    AddsUp ((w.accumulate f).openTool call).1 (call.arguments.getD "") := by
  have hlookup (k : ℕ) : (w.accumulate f).enc.acc.tools.lookup k = if k = call.index then
      some (Collected.addFragment call ((w.enc.acc.tools.lookup call.index).getD ⟨"", "", ""⟩))
      else w.enc.acc.tools.lookup k := by
    rw [Writing.accumulate, hf, HashMap.lookup_update]
  have hcall (i : ℕ) (id : String) : (w.accumulate f).textOf (.tool i id call.index) =
      w.textOf (.tool i id call.index) ++ call.arguments.getD "" := by
    simp only [Writing.textOf, hlookup, if_true, Option.getD_some]
    rfl
  by_cases hopen : ∃ i id, w.enc.openItem = some (.tool i id call.index)
  · obtain ⟨i, id, ho⟩ := hopen
    have hsame : (w.accumulate f).openTool call = (w.accumulate f, i, id) := by
      unfold Writing.openTool Writing.accumulate
      simp [ho]
    rw [hsame]
    refine ⟨h.sums, fun item hitem => ?_⟩
    have hitem' : w.enc.openItem = some item := hitem
    rw [ho, Option.some.injEq] at hitem'
    obtain rfl := hitem'
    have hopened := h.opened _ ho
    rw [String.append_empty] at hopened
    rw [hcall, ← hopened]
    rfl
  · have hnone := hfresh.resolve_left hopen
    have h' : AddsUp (w.accumulate f) "" := by
      refine ⟨h.sums, fun item ho => ?_⟩
      have hopened := h.opened item ho
      cases item with
      | reasoning | message => exact hopened
      | tool i id canon =>
        have hcanon : canon ≠ call.index := fun e => hopen ⟨i, id, e ▸ ho⟩
        rw [Writing.textOf, hlookup, if_neg hcanon]
        exact hopened
    rw [openTool_fresh (w := w.accumulate f) fun i id ho => hopen ⟨i, id, ho⟩]
    obtain ⟨hsums, hspoken⟩ := h'.addItem fun index =>
      .functionCall (itemId "fc" (w.accumulate f).enc.requestId index) (call.id.getD "")
        (call.name.getD "") "" "in_progress"
    refine keepOpen hsums hspoken (fun index =>
      .tool index (itemId "fc" (w.accumulate f).enc.requestId index) call.index) rfl ?_
    rw [Writing.textOf_addItem, hcall, Writing.textOf, hnone]
    exact String.empty_append

/-- One chunk; a fragment of a call goes on with the open item, or the call is new. -/
theorem encode (h : AddsUp w "") (c : StreamChunk) (hfresh : ∀ call, c = .toolCall 0 call →
    (∃ i id, w.enc.openItem = some (.tool i id call.index)) ∨
      w.enc.acc.tools.lookup call.index = none) : AddsUp (w.encode c) "" := by
  have hs := h.ensureStarted
  cases c with
  | start id model =>
    simp only [Writing.encode]
    split
    · have h' : AddsUp { w with enc.requestId := id } "" := ⟨h.sums, h.opened⟩
      exact h'.ensureStarted
    · exact hs
  | usage u => exact h.accumulate (fun acc => { acc with usage := u }) fun _ => rfl
  | thinking index delta =>
    simp only [Writing.encode]
    split
    · exact h
    · have hadds := (hs.accumulate
        (fun acc => { acc with thinkText := acc.thinkText ++ delta }) fun _ => rfl).think delta
      refine hadds.pushPiece ?_ (by simp [deltaEvents])
      rw [Writing.tag_updateOpen _ (OpenItem.tag_pushReasoning delta)]
      exact Writing.tag_openReasoning _
  | thinkingSignature index signature =>
    simp only [Writing.encode]
    split
    · exact h
    · have h' := h.accumulate (fun acc => { acc with thinkSig := some signature }) fun _ => rfl
      refine ⟨h'.sums, fun item ho => ?_⟩
      obtain ⟨opened, hopened, rfl⟩ := Option.map_eq_some_iff.mp ho
      rw [OpenItem.tag_sign]
      refine (h'.opened opened hopened).trans ?_
      cases opened <;> rfl
  | redactedThinking index data =>
    simp only [Writing.encode]
    split
    · exact h
    · exact (hs.accumulate (fun acc => { acc with redacted := acc.redacted ++ [data] })
        fun _ => rfl).wholeItem _ fun _ => rfl
  | compaction outputIndex index delta id encryptedContent signature =>
    simp only [Writing.encode]
    split
    · exact h
    · exact (hs.closeOpen.accumulate (fun acc => { acc with compaction := acc.compaction ++ _ })
        fun _ => rfl).wholeItem _ fun _ => rfl
  | outputItem index message =>
    simp only [Writing.encode]
    split
    · exact h
    · exact h.accumulate
        (fun acc => { acc with orderedOutput := acc.orderedOutput ++ [message] }) fun _ => rfl
  | content index delta =>
    simp only [Writing.encode]
    split
    · exact h
    · have hadds := (hs.accumulate
        (fun acc => { acc with text := acc.text ++ delta }) fun _ => rfl).say delta
      refine hadds.pushPiece ?_ (by simp [deltaEvents])
      rw [Writing.tag_updateOpen _ (OpenItem.tag_pushMessage delta)]
      exact Writing.tag_openMessage _
  | toolCall index call =>
    simp only [Writing.encode]
    split
    · exact h
    · rename_i hindex
      obtain ⟨hopen, hacc⟩ := w.ensureStarted_enc
      have hfresh' := hfresh call (by rw [not_not.mp hindex])
      rw [← hopen, ← hacc] at hfresh'
      have hadds := hs.fragment call (fun acc => { acc with
        tools := acc.tools.update call.index ⟨"", "", ""⟩ (Collected.addFragment call) }) rfl hfresh'
      split
      · rename_i hargs
        rwa [hargs] at hadds
      · exact hadds.pushPiece (Writing.tag_openTool _ call) (by simp [deltaEvents])
  | finish index reason =>
    simp only [Writing.encode]
    split
    · exact h
    · exact h.closeOpen.accumulate (fun acc => { acc with finish := some reason }) fun _ => rfl

end AddsUp

/-! ## The runs of a call -/

/-- The index of the call of a run. -/
def Run.canon (run : Run) : Option ℕ := run.entry.map Prod.fst

/-- The calls of the items in the order in which they were begun. -/
def Live.canons (s : Live) : List ℕ := s.runs.filterMap Run.canon

/-- The open call. -/
def Live.canon (s : Live) : Option ℕ := s.cur.bind Run.canon

/-- What belongs to an item is a fragment of a call or of something else. -/
theorem touches_some {k : ℕ} {c : StreamChunk} {b : Bool} (h : touches k c = some b) :
    (c.callIndex = none ∧ b = false) ∨ ∃ call, c = .toolCall 0 call ∧ decide (call.index = k) = b := by
  unfold touches at h
  split at h
  · exact .inr ⟨_, rfl, Option.some.inj h⟩
  all_goals first | exact .inl ⟨rfl, (Option.some.inj h).symm⟩ | cases h

/-- A sublist uses the last element or does not. -/
theorem concat_sublist_concat {α : Type} {l l' : List α} {a b : α} :
    (l ++ [a]).Sublist (l' ++ [b]) ↔ (l ++ [a]).Sublist l' ∨ a = b ∧ l.Sublist l' := by
  rw [← List.reverse_sublist, ← @List.reverse_sublist _ _ l',
    ← @List.reverse_sublist _ l]
  simp only [List.reverse_append, List.reverse_singleton, List.singleton_append]
  exact List.cons_sublist_cons'

/-- Something else after the last fragment is no interruption yet. -/
theorem reopens_concat_false {l : List Bool} :
    [true, false, true].Sublist (l ++ [false]) ↔ [true, false, true].Sublist l := by
  rw [show [true, false, true] = [true, false] ++ [true] from rfl, concat_sublist_concat]
  simp

/-- One fragment after another is no interruption. -/
theorem reopens_concat_of_last {l : List Bool} (h : l.getLast? = some true) :
    [true, false, true].Sublist (l ++ [true]) ↔ [true, false, true].Sublist l := by
  obtain ⟨l, rfl⟩ := List.getLast?_eq_some_iff.mp h
  rw [show [true, false, true] = [true, false] ++ [true] from rfl, concat_sublist_concat,
    concat_sublist_concat, show [true, false] = [true] ++ [false] from rfl, concat_sublist_concat]
  simp only [Bool.false_eq_true, false_and, or_false, true_and]
  exact ⟨fun h => h.elim id .inr, .inl⟩

/-- A fragment after something else is an interruption if there has been a fragment. -/
theorem reopens_concat_of_not_last {l : List Bool} (h : l.getLast? ≠ some true) :
    [true, false, true].Sublist (l ++ [true]) ↔ true ∈ l := by
  rw [show [true, false, true] = [true, false] ++ [true] from rfl, concat_sublist_concat]
  constructor
  · rintro (hsub | ⟨-, hsub⟩) <;> exact hsub.subset (by simp)
  · intro hmem
    rcases List.eq_nil_or_concat l with rfl | ⟨l, b, rfl⟩
    · cases hmem
    · rw [List.concat_eq_append] at h hmem ⊢
      obtain rfl : b = false := by simpa using h
      rw [show [true, false] = [true] ++ [false] from rfl, concat_sublist_concat (l := [true])]
      exact .inr ⟨rfl, .inr ⟨rfl, List.singleton_sublist.mpr (by simpa using hmem)⟩⟩

/-- Which call is open and how many items each call has, by what has touched them. -/
structure Follows (s : Live) (k : ℕ) (touched : List Bool) : Prop where
  opened : s.canon = some k ↔ touched.getLast? = some true
  begun : k ∈ s.canons ↔ true ∈ touched
  once : s.canons.count k ≤ 1 ↔ ¬ [true, false, true].Sublist touched

namespace Live

/-- An open item that is continued keeps its call; a new one brings its own. -/
theorem canons_extend (s : Live) {f : Run → Option Run} {new : Run}
    (hf : ∀ run run', f run = some run' → run.canon = new.canon ∧ run'.canon = new.canon) :
    (s.extend f new).canon = new.canon ∧ (s.extend f new).canons =
      if (s.cur.bind f).isSome then s.canons else s.canons ++ new.canon.toList := by
  unfold extend
  cases h : s.cur.bind f with
  | some run' =>
    obtain ⟨run, hcur, hrun⟩ := Option.bind_eq_some_iff.mp h
    obtain ⟨hold, hnew⟩ := hf run run' hrun
    exact ⟨hnew, by
      simp [canons, runs, hcur, List.filterMap_append, List.filterMap_cons, hold, hnew]⟩
  | none =>
    refine ⟨rfl, ?_⟩
    cases hc : new.canon <;> simp [canons, runs, List.filterMap_append, hc]

/-- An item that is no call, continued or begun. -/
theorem canons_extend_none (s : Live) {f : Run → Option Run} {new : Run}
    (hf : ∀ run run', f run = some run' → run.canon = none ∧ run'.canon = none)
    (hnew : new.canon = none) :
    (s.extend f new).canon = none ∧ (s.extend f new).canons = s.canons := by
  obtain ⟨hcanon, hcanons⟩ := @canons_extend s f new fun run run' h => by
    rw [hnew]
    exact hf run run' h
  rw [hnew] at hcanon hcanons
  exact ⟨hcanon, by simpa using hcanons⟩

/-- A fragment goes on with its call if that is open, and begins an item of it otherwise. -/
theorem canons_fragment (s : Live) (k : ℕ) (acc : ToolCall) :
    (s.extend (Run.fragment k acc) (.call k acc)).canon = some k ∧
      (s.extend (Run.fragment k acc) (.call k acc)).canons =
        if s.canon = some k then s.canons else s.canons ++ [k] := by
  obtain ⟨hcanon, hcanons⟩ := @canons_extend s (Run.fragment k acc) (.call k acc)
    fun run run' h => by
      obtain ⟨old, rfl, rfl⟩ := Run.fragment_some h
      exact ⟨rfl, rfl⟩
  have hopen : (s.cur.bind (Run.fragment k acc)).isSome ↔ s.canon = some k := by
    unfold canon
    cases s.cur with
    | none => simp
    | some run => cases run <;> simp [Run.fragment, Run.canon, Run.entry]
  simp only [hopen] at hcanons
  exact ⟨hcanon, hcanons⟩

/-- A chunk of another item, continued, begun or whole, or the end. -/
theorem canons_step_other (s : Live) {k : ℕ} {c : StreamChunk} (hc : touches k c = some false)
    (hcall : c.callIndex = none) : (s.step c).canon = none ∧ (s.step c).canons = s.canons := by
  have hindex : c.index.getD 0 = 0 := by
    unfold touches at hc
    split at hc <;> first | rfl | cases hc
  rw [step, if_pos hindex]
  cases c with
  | thinking index delta =>
    exact (s.accumulate _).canons_extend_none (fun run run' h => by
      obtain ⟨text, sig, rfl, rfl⟩ := Run.think_some h
      exact ⟨rfl, rfl⟩) rfl
  | content index delta =>
    exact (s.accumulate _).canons_extend_none (fun run run' h => by
      obtain ⟨text, rfl, rfl⟩ := Run.say_some h
      exact ⟨rfl, rfl⟩) rfl
  | redactedThinking index data =>
    exact ⟨rfl, by simp [take, whole, canons, runs, accumulate, Run.canon, Run.entry]⟩
  | compaction outputIndex index delta id encryptedContent signature =>
    exact ⟨rfl, by simp [take, whole, canons, runs, accumulate, Run.canon, Run.entry]⟩
  | finish index reason => exact ⟨rfl, by simp [take, close, canons, runs, accumulate]⟩
  | toolCall index call => cases hcall
  | start | usage | thinkingSignature | outputItem => cases hc

/-- A fragment of a call of choice 0. -/
theorem canons_step_call (s : Live) (call : ToolCallDelta) :
    (s.step (.toolCall 0 call)).canon = some call.index ∧ (s.step (.toolCall 0 call)).canons =
      if s.canon = some call.index then s.canons else s.canons ++ [call.index] :=
  canons_fragment (s.accumulate fun acc => { acc with
    tools := acc.tools.update call.index ⟨"", "", ""⟩ (Collected.addFragment call) }) _ _

/-- A chunk that belongs to no item. -/
theorem canons_step_none (s : Live) {k : ℕ} {c : StreamChunk} (hc : touches k c = none) :
    (s.step c).canon = s.canon ∧ (s.step c).canons = s.canons := by
  rw [step]
  split
  · rename_i hindex
    cases c with
    | start | usage | outputItem => exact ⟨rfl, rfl⟩
    | thinkingSignature index signature =>
      have hsign (run : Run) : (run.sign signature).canon = run.canon := by cases run <;> rfl
      cases hcur : s.cur <;>
        simp [canon, canons, runs, take, accumulate, hcur, List.filterMap_append,
          List.filterMap_cons, hsign]
    | _ =>
      obtain rfl := hindex
      cases hc
  · exact ⟨rfl, rfl⟩

end Live

namespace Follows

variable {s : Live} {k : ℕ} {touched : List Bool}

/-- Something else is open after it, and the call has the items it had. -/
theorem aside (h : Follows s k touched) {s' : Live} (hopen : s'.canon ≠ some k)
    (hmem : k ∈ s'.canons ↔ k ∈ s.canons) (hcount : s'.canons.count k = s.canons.count k) :
    Follows s' k (touched ++ [false]) := by
  refine ⟨by simp [hopen], by simp [hmem, h.begun], ?_⟩
  rw [hcount, h.once, reopens_concat_false]

/-- A fragment of the call. -/
theorem fragment (h : Follows s k touched) {s' : Live} (hopen : s'.canon = some k)
    (hcanons : s'.canons = if s.canon = some k then s.canons else s.canons ++ [k]) :
    Follows s' k (touched ++ [true]) := by
  obtain ⟨hopened, hbegun, honce⟩ := h
  by_cases hk : s.canon = some k
  · have hlast := hopened.mp hk
    rw [if_pos hk] at hcanons
    refine ⟨by simp [hopen], ?_, ?_⟩
    · rw [hcanons, hbegun]
      simp [List.mem_of_getLast? hlast]
    · rw [hcanons, honce, reopens_concat_of_last hlast]
  · have hlast : touched.getLast? ≠ some true := fun e => hk (hopened.mpr e)
    rw [if_neg hk] at hcanons
    refine ⟨by simp [hopen], by simp [hcanons], ?_⟩
    rw [hcanons, reopens_concat_of_not_last hlast, ← hbegun, List.count_append,
      List.count_singleton_self, ← List.count_eq_zero]
    omega

/-- One more chunk. -/
theorem step (h : Follows s k touched) (c : StreamChunk) :
    Follows (s.step c) k (touched ++ (touches k c).toList) := by
  cases hc : touches k c with
  | none =>
    obtain ⟨hcanon, hcanons⟩ := s.canons_step_none hc
    obtain ⟨hopened, hbegun, honce⟩ := h
    rw [Option.toList_none, List.append_nil]
    exact ⟨hcanon ▸ hopened, hcanons ▸ hbegun, hcanons ▸ honce⟩
  | some b =>
    rw [Option.toList_some]
    rcases touches_some hc with ⟨hcall, rfl⟩ | ⟨call, rfl, rfl⟩
    · obtain ⟨hcanon, hcanons⟩ := s.canons_step_other hc hcall
      exact h.aside (by simp [hcanon]) (by rw [hcanons]) (by rw [hcanons])
    · obtain ⟨hcanon, hcanons⟩ := s.canons_step_call call
      by_cases hk : call.index = k
      · subst hk
        rw [decide_eq_true rfl]
        exact h.fragment hcanon hcanons
      · rw [decide_eq_false hk]
        refine h.aside (by simp [hcanon, hk]) ?_ ?_ <;> rw [hcanons] <;> split
        · rfl
        · simp [Ne.symm hk]
        · rfl
        · simp [hk]

end Follows

/-- What a stream has begun. -/
theorem follows_live (chunks : List StreamChunk) (k : ℕ) :
    Follows (live chunks) k (chunks.filterMap (touches k)) := by
  induction chunks using List.reverseRecOn with
  | nil => exact ⟨by simp [live, Live.empty, Live.canon], by simp [live, Live.empty, Live.canons,
      Live.runs], by simp [live, Live.empty, Live.canons, Live.runs]⟩
  | append_singleton chunks c ih =>
    rw [live, List.foldl_concat, ← live, List.filterMap_append]
    have h := ih.step c
    cases hc : touches k c <;> simpa [hc] using h

/-! ## A whole stream -/

theorem Live.canons_eq (s : Live) : s.canons = (s.runs.filterMap Run.entry).map Prod.fst := by
  rw [List.map_filterMap]
  rfl

/-- A fragment that interrupts nothing belongs to a new call or to the open one. -/
theorem new_or_open {chunks : List StreamChunk} {call : ToolCallDelta}
    (h : ¬ Interrupted call.index (chunks ++ [.toolCall 0 call])) :
    (live chunks).acc.tools.lookup call.index = none ∨
      ∃ acc, (live chunks).cur = some (.call call.index acc) := by
  have hfollows := follows_live chunks call.index
  by_cases hopen : (live chunks).canon = some call.index
  · obtain ⟨run, hcur, hrun⟩ := Option.bind_eq_some_iff.mp hopen
    obtain ⟨acc, rfl⟩ : ∃ acc, run = .call call.index acc := by
      cases run <;> cases hrun
      exact ⟨_, rfl⟩
    exact .inr ⟨acc, hcur⟩
  · have hlast : (chunks.filterMap (touches call.index)).getLast? ≠ some true :=
      fun e => hopen (hfollows.opened.mpr e)
    have htouched : (chunks ++ [StreamChunk.toolCall 0 call]).filterMap (touches call.index) =
        chunks.filterMap (touches call.index) ++ [true] := by
      simp [List.filterMap_append, touches]
    rw [Interrupted, htouched, reopens_concat_of_not_last hlast, ← hfollows.begun,
      Live.canons_eq] at h
    left
    rw [(tracks_live chunks).tools, List.filter_eq_nil_iff.mpr]
    · rfl
    · intro e he hkey
      exact h (List.mem_map.mpr ⟨e, he, of_decide_eq_true hkey⟩)

theorem not_interrupted_prefix {k : ℕ} {chunks more : List StreamChunk}
    (h : ¬ Interrupted k (chunks ++ more)) : ¬ Interrupted k chunks := fun hk =>
  h (hk.trans (List.Sublist.filterMap _ (List.sublist_append_left _ _)))

/-- Without interruptions every text adds up. -/
theorem adds_live (requestId model : String) (created : ℕ) (echo : RequestEcho)
    {chunks : List StreamChunk} (h : ∀ k, ¬ Interrupted k chunks) :
    AddsUp (chunks.foldl Writing.encode (.new requestId model created echo)) "" := by
  induction chunks using List.reverseRecOn with
  | nil =>
    refine ⟨fun pre d post i text e => ?_, fun item ho => by cases ho⟩
    cases pre <;> cases e
  | append_singleton chunks c ih =>
    rw [List.foldl_concat]
    refine (ih fun k => not_interrupted_prefix (h k)).encode c fun call hcall => ?_
    subst hcall
    have hrefines := (Refines.new requestId model created echo).foldl chunks
    have hopened := hrefines.opened
    rcases new_or_open (h call.index) with hnone | ⟨acc, hcur⟩
    · rw [hrefines.acc]
      exact .inr hnone
    · rw [← live, hcur] at hopened
      left
      generalize (chunks.foldl Writing.encode
        (.new requestId model created echo)).enc.openItem = opened at hopened ⊢
      cases hopened
      exact ⟨_, _, rfl⟩

theorem functionCalls_streamFrames (requestId model : String) (created : ℕ) (echo : RequestEcho)
    (chunks : List StreamChunk) :
    functionCalls (streamFrames requestId model created echo chunks) =
      ((live chunks).runs.filterMap Run.entry).map Prod.snd := by
  rw [functionCalls, doneItems_streamFrames, List.map_filterMap]
  generalize streamId requestId model created echo chunks = id
  generalize (live chunks).runs = runs
  induction runs using List.reverseRecOn with
  | nil => rfl
  | append_singleton runs run ih =>
    rw [List.mapIdx_concat, List.filterMap_append, List.filterMap_append, ih]
    cases run <;> rfl

theorem canonicalCalls_eq (chunks : List StreamChunk) :
    canonicalCalls chunks = (live chunks).acc.tools.ascending.map Prod.snd := by
  have h := congrArg Choice.toolCalls (choice_live chunks)
  exact h.symm

/-- The items carry the calls one by one if no call has two. -/
theorem perm_calls_iff (chunks : List StreamChunk) :
    (((live chunks).runs.filterMap Run.entry).map Prod.snd).Perm (canonicalCalls chunks) ↔
      ∀ k, ¬ Interrupted k chunks := by
  have htools := (tracks_live chunks).tools
  have honce : (((live chunks).runs.filterMap Run.entry).map Prod.fst).Nodup ↔
      ∀ k, ¬ Interrupted k chunks := by
    rw [← Live.canons_eq, List.nodup_iff_count_le_one]
    exact forall_congr' fun k => (follows_live chunks k).once
  rw [canonicalCalls_eq, ← honce]
  constructor
  · intro h
    have hlen := h.length_eq
    rw [List.length_map, List.length_map] at hlen
    exact nodup_calls htools hlen.le
  · intro h
    rw [ascending_calls h htools]
    exact ((List.perm_insertionSort _ _).map _).symm

/-- **The deltas of every item add up to its text or arguments, and every call of choice 0 is
carried by one function call item**, exactly if no other item stands between two fragments of one
call. -/
theorem deltas_add_up_iff (requestId model : String) (created : ℕ) (echo : RequestEcho)
    (chunks : List StreamChunk) :
    (DeltasAddUp (streamFrames requestId model created echo chunks) ∧
      (functionCalls (streamFrames requestId model created echo chunks)).Perm
        (canonicalCalls chunks)) ↔ ∀ k, ¬ Interrupted k chunks := by
  rw [functionCalls_streamFrames, perm_calls_iff]
  refine ⟨fun h => h.2, fun h => ⟨?_, h⟩⟩
  have hend := (adds_live requestId model created echo h).ensureStarted.closeOpen
  rw [streamFrames, Writing.finish, Writing.push, deltasAddUp_concat]
  exact ⟨hend.sums, fun i text ht => by cases ht⟩

/-- Text between two fragments of a call: its second item ends with more than was said of it, and
the call is carried twice. -/
theorem not_deltasAddUp_reopened :
    ¬ DeltasAddUp (streamFrames "r" "m" 0 .empty
        [.toolCall 0 ⟨0, some "c", some "f", some "x"⟩, .content 0 "a",
          .toolCall 0 ⟨0, none, none, some "y"⟩, .finish 0 .toolCalls]) ∧
    ¬ (functionCalls (streamFrames "r" "m" 0 .empty
        [.toolCall 0 ⟨0, some "c", some "f", some "x"⟩, .content 0 "a",
          .toolCall 0 ⟨0, none, none, some "y"⟩, .finish 0 .toolCalls])).Perm
      (canonicalCalls [.toolCall 0 ⟨0, some "c", some "f", some "x"⟩, .content 0 "a",
          .toolCall 0 ⟨0, none, none, some "y"⟩, .finish 0 .toolCalls]) := by
  constructor
  · intro h
    have htotal : (streamFrames "r" "m" 0 .empty
        [.toolCall 0 ⟨0, some "c", some "f", some "x"⟩, .content 0 "a",
          .toolCall 0 ⟨0, none, none, some "y"⟩, .finish 0 .toolCalls])[14]?.bind Frame.total =
      some (2, "xy") := by decide
    have hspoken := h.spoken_take htotal
    revert hspoken
    decide
  · decide

end Llmleaf.Responses
