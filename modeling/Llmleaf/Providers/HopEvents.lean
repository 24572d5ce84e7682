import Llmleaf.Compat.Responses.Deltas
import Llmleaf.Compat.Responses.Wire
import Llmleaf.Providers.ResponsesWire

/-!
# The events of the encoder of a node

A node that calls another speaks Responses with it: the frames of the encoder of the one are the
events of the mapper of the other.

- `Begun w s rest`: the frames so far render the finished items to the mapper, and the open one up to
  a rest of its text; one lemma for each operation of the encoder.
- `Written.take`: one chunk.
-/

namespace Llmleaf.NodeHop

open Responses ResponsesWire

/-! ## The events of the encoder -/

/-- The documents of the frames that the mapper reads. -/
def readEvents (frames : List Frame) : List Value := (frames.map Frame.json).filter (Handled ·)

theorem handled_json (f : Frame) : Handled f.json ↔ f.event ∈ handled := by
  simp only [Handled, Frame.textAt_type, Option.some.injEq]
  constructor
  · rintro ⟨_, hmem, rfl⟩
    exact hmem
  · exact fun h => ⟨_, h, rfl⟩

theorem readEvents_concat (frames : List Frame) (f : Frame) :
    readEvents (frames ++ [f]) =
      readEvents frames ++ if f.event ∈ handled then [f.json] else [] := by
  simp only [readEvents, List.map_append, List.filter_append, List.map_singleton,
    List.filter_singleton, handled_json, Bool.cond_decide]

/-- What the mapper compares of an item when it is added and when it is complete. -/
def SameHead (a b : Value) : Prop :=
  ∀ key ∈ ["type", "id", "call_id", "name"], a.textAt [key] = b.textAt [key]

/-- The events of an open item: it was added, and pieces of its text were brought, up to a rest. -/
inductive OpensItem (item : Value) (rest : String) : List Value → Prop
  | intro {added : Value} {pieces : List String} {deltas : List Value} :
    ResponsesWire.Adds item added → List.Forall₂ (Brings (deltaTypes item) item) pieces deltas →
    String.join pieces ++ rest = deltaText item → OpensItem item rest (added :: deltas)

namespace OpensItem

variable {item done event : Value} {rest : String} {position : ℕ} {events : List Value}

/-- The rest is brought. -/
theorem bring (h : OpensItem item rest events) (hb : Brings (deltaTypes item) item rest event) :
    OpensItem item "" (events ++ [event]) := by
  cases h with
  | intro hadd hdeltas htext =>
    refine .intro hadd (List.rel_append hdeltas (.cons hb .nil)) ?_
    rw [String.append_empty, String.join_append, ← htext]
    simp [String.join]

/-- The item is complete. -/
theorem complete (h : OpensItem item "" events) (hdone : Completes item position done) :
    RendersItem item position (events ++ [done]) := by
  cases h with
  | intro hadd hdeltas htext =>
    exact .intro hadd hdeltas (by rwa [String.append_empty] at htext) hdone

/-- There is more to say of the item. -/
theorem grow (h : OpensItem item "" events) {item' : Value} (hhead : SameHead item item')
    (htext : deltaText item' = deltaText item ++ rest) : OpensItem item' rest events := by
  cases h with
  | intro hadd hdeltas hsum =>
    rename_i added pieces deltas
    have hkind := hhead "type" (by simp)
    have hid := hhead "id" (by simp)
    have htypes : deltaTypes item' = deltaTypes item := by rw [deltaTypes, deltaTypes, hkind]
    refine @OpensItem.intro _ _ _ pieces _ ⟨hadd.type, ?_, ?_, ?_, ?_⟩ ?_ ?_
    · rw [hadd.kind, hkind]
    · rw [hadd.id, hid]
    · rw [hadd.callId, hhead "call_id" (by simp)]
    · rw [hadd.name, hhead "name" (by simp)]
    · rw [htypes]
      exact hdeltas.imp fun piece event hb => ⟨hb.type, hb.id.trans hid, hb.piece⟩
    · rw [htext, ← hsum, String.append_empty]

end OpensItem

theorem rendersItems_concat {items : List (Value × ℕ)} {events more : List Value} {item : Value}
    {position : ℕ} (h : RendersItems items events) (hitem : RendersItem item position more) :
    RendersItems (items ++ [(item, position)]) (events ++ more) := by
  induction h with
  | nil =>
    rw [List.nil_append, List.nil_append, ← List.append_nil more]
    exact .cons hitem .nil
  | cons hfirst _ ih =>
    rw [List.cons_append, List.append_assoc]
    exact .cons hfirst ih

/-! ## The documents of the items -/

theorem textAt_item {f : Frame} {index : ℕ} {item : Item} (h : f.data = .item index item)
    (key : String) : f.json.textAt ["item", key] = item.json.textAt [key] := by
  simp [Value.textAt, Value.path_cons, (Frame.get_item h).1]

/-- The event that adds an item of that head. -/
theorem adds_json {f : Frame} {index : ℕ} {item : Item} {v : Value}
    (hevent : f.event = "response.output_item.added") (hdata : f.data = .item index item)
    (hhead : SameHead item.json v) : ResponsesWire.Adds v f.json := by
  refine ⟨Frame.textAt_type.trans (by rw [hevent]), ?_, ?_, ?_, ?_⟩ <;>
    rw [textAt_item hdata, hhead _ (by simp)]

theorem completes_json {f : Frame} {index : ℕ} {item : Item}
    (hevent : f.event = "response.output_item.done") (hdata : f.data = .item index item) :
    Completes item.json index f.json :=
  ⟨Frame.textAt_type.trans (by rw [hevent]), (Frame.get_item hdata).1, (Frame.get_item hdata).2⟩

theorem sameHead_reasoning {id : String} {content content' : Option (List String)}
    {encryptedContent encryptedContent' signature signature' : Option String} :
    SameHead (Item.reasoning id content encryptedContent signature).json
      (Item.reasoning id content' encryptedContent' signature').json := by
  intro key hkey
  simp only [List.mem_cons, List.not_mem_nil, or_false] at hkey
  rcases hkey with rfl | rfl | rfl | rfl <;> simp [Item.json]

theorem sameHead_message {id status status' : String} {content content' : List String} :
    SameHead (Item.message id status content).json (Item.message id status' content').json := by
  intro key hkey
  simp only [List.mem_cons, List.not_mem_nil, or_false] at hkey
  rcases hkey with rfl | rfl | rfl | rfl <;> simp [Item.json]

theorem sameHead_call {id callId name arguments arguments' status status' : String} :
    SameHead (Item.functionCall id callId name arguments status).json
      (Item.functionCall id callId name arguments' status').json := by
  intro key hkey
  simp only [List.mem_cons, List.not_mem_nil, or_false] at hkey
  rcases hkey with rfl | rfl | rfl | rfl <;> simp [Item.json]

/-- The text an item comes in. -/
def spokenText : Run → String
  | .reasoning text _ | .message text => text
  | .call _ acc => acc.arguments
  | .redacted _ | .compaction _ => ""

theorem textAt_outputText (text : String) :
    (Item.outputText text).textAt ["type"] = some "output_text" ∧
      (Item.outputText text).textAt ["text"] = some text := by
  simp [Item.outputText, Value.asStr]

theorem deltaText_item (requestId : String) (index : ℕ) (run : Run) :
    deltaText (run.item requestId index).json = spokenText run := by
  cases run with
  | reasoning text sig =>
    simp [deltaText, reasoningTexts, Run.item, Item.json, Value.asStr, Value.asArray,
      Item.reasoningText, spokenText, List.flatMap]
  | redacted data =>
    simp [deltaText, reasoningTexts, Run.item, Item.json, Value.asStr, Value.asArray, spokenText,
      List.flatMap]
  | message text =>
    simp [deltaText, outputTexts, Run.item, Item.json, Value.asStr, Value.asArray, spokenText,
      textAt_outputText]
  | call canon acc =>
    simp [deltaText, Run.item, Item.json, Value.asStr, spokenText]
  | compaction mark =>
    simp [deltaText, Run.item, Item.json, Value.asStr, spokenText]

/-- The events that bring the text of an item. -/
theorem deltaTypes_item (requestId : String) (index : ℕ) (run : Run) :
    deltaTypes (run.item requestId index).json = match run with
      | .reasoning _ _ | .redacted _ =>
        ["response.reasoning_summary_text.delta", "response.reasoning_text.delta"]
      | .message _ => ["response.output_text.delta"]
      | .call _ _ => ["response.function_call_arguments.delta"]
      | .compaction _ => [] := by
  cases run <;> simp [deltaTypes, Run.item, Item.json, Value.asStr]

theorem textAt_id (requestId : String) (index : ℕ) (run : Run) :
    (run.item requestId index).json.textAt ["id"] = some (run.item requestId index).id := by
  cases run <;> simp [Run.item, Item.json, Item.id, Value.asStr]

/-- A delta brings its text. -/
theorem brings_json {f : Frame} {index : ℕ} {id text : String} {item : Value} {types : List String}
    (hevent : f.event ∈ deltaEvents) (htypes : f.event ∈ types)
    (hdata : f.data = .piece id index text) (hid : item.textAt ["id"] = some id) :
    Brings types item text f.json := by
  refine ⟨⟨_, htypes, Frame.textAt_type⟩, by rw [Frame.textAt_piece hdata, hid], ?_⟩
  simp only [deltaEvents, List.mem_cons, List.not_mem_nil, or_false] at hevent
  rcases hevent with he | he | he <;>
    simp [Frame.json, Frame.fields, hdata, he, pieceFields, Value.asStr]

theorem zipIdx_numbered_concat (requestId : String) (runs : List Run) (run : Run) :
    ((Responses.numbered requestId (runs ++ [run])).map Item.json).zipIdx =
      ((Responses.numbered requestId runs).map Item.json).zipIdx ++
        [((run.item requestId runs.length).json, runs.length)] := by
  rw [numbered_concat, List.map_append, List.zipIdx_append, List.length_map, length_numbered]
  simp

/-! ## What is written -/

/-- The events of what is open: none, or those of the open item. -/
def OpenEvents (requestId : String) (index : ℕ) (rest : String) (events : List Value) :
    Option Run → Prop
  | none => events = []
  | some run => OpensItem (run.item requestId index).json rest events

/-- The stream has begun: the events render the finished items, and what is open up to a rest. -/
inductive Begun (w : Writing) (s : Live) (rest : String) : Prop
  | intro {created : Value} {closed opened : List Value}
    (read : readEvents w.out = created :: (closed ++ opened))
    (creates : created.textAt ["type"] = some "response.created")
    (closed : RendersItems ((Responses.numbered w.enc.requestId s.done).map Item.json).zipIdx closed)
    (opened : OpenEvents w.enc.requestId s.done.length rest opened s.cur)

/-- What is written so far: nothing, or it has begun. -/
def Written (w : Writing) (s : Live) : Prop :=
  (w.enc.started = true ∧ Begun w s "") ∨ (w.enc.started = false ∧ readEvents w.out = [])

/-- The event that completes the open item when it is closed. -/
theorem readEvents_closeOpen {w : Writing} {s : Live} (h : Refines w s) : ∃ seq,
    readEvents w.closeOpen.out = readEvents w.out ++ s.cur.toList.map fun run =>
      Frame.json ⟨"response.output_item.done",
        .item s.done.length (run.item w.enc.requestId s.done.length), seq⟩ := by
  have hopened := h.opened
  have hacc := h.acc
  generalize ho : w.enc.openItem = o, s.cur = cur at hopened
  unfold Writing.closeOpen
  simp only [ho]
  cases hopened with
  | closed => simp
  | reasoning text sig =>
    simp only [Writing.push, readEvents_concat]
    exact ⟨_, by simp [handled, Run.item]; rfl⟩
  | message text =>
    simp only [Writing.push, readEvents_concat]
    exact ⟨_, by simp [handled, Run.item]; rfl⟩
  | call canon acc hcall =>
    simp only [Writing.push, readEvents_concat]
    exact ⟨_, by simp [handled, Run.item, hacc, hcall]; rfl⟩

namespace Begun

variable {w : Writing} {s : Live} {rest : String}

/-- A frame that the mapper does not read. -/
theorem push (h : Begun w s rest) {event : String} (data : Payload) (hevent : event ∉ handled) :
    Begun (w.push event data) s rest := by
  obtain ⟨hread, hcreated, hclosed, hopened⟩ := h
  refine .intro ?_ hcreated hclosed hopened
  rw [Writing.push, readEvents_concat, if_neg hevent, List.append_nil, hread]

/-- A change that writes nothing and keeps the items. -/
theorem same (h : Begun w s rest) {w' : Writing} {s' : Live} (hout : w'.out = w.out)
    (hid : w'.enc.requestId = w.enc.requestId) (hdone : s'.done = s.done)
    (hcur : s'.cur = s.cur) : Begun w' s' rest := by
  obtain ⟨hread, hcreated, hclosed, hopened⟩ := h
  refine .intro (by rw [hout, hread]) hcreated ?_ ?_
  · rwa [hid, hdone]
  · rwa [hid, hdone, hcur]

/-- There is more to say of the open item. -/
theorem grow (h : Begun w s "") {run run' : Run} (hcur : s.cur = some run)
    (hhead : SameHead (run.item w.enc.requestId s.done.length).json
      (run'.item w.enc.requestId s.done.length).json)
    (htext : spokenText run' = spokenText run ++ rest) {w' : Writing} (hout : w'.out = w.out)
    (hid : w'.enc.requestId = w.enc.requestId) (acc : Accumulated) :
    Begun w' ⟨acc, s.done, some run'⟩ rest := by
  obtain ⟨hread, hcreated, hclosed, hopened⟩ := h
  rw [hcur] at hopened
  have hopen : OpensItem _ rest _ :=
    hopened.grow hhead (by rw [deltaText_item, deltaText_item, htext])
  rw [← hid] at hclosed hopen
  exact .intro (by rw [hout, hread]) hcreated hclosed hopen

/-- The rest of the open item, as a delta. -/
theorem pushPiece (h : Begun w s rest) (hr : Refines w s) {tag : ℕ × String}
    (htag : w.enc.openItem.map OpenItem.tag = some tag) {event : String}
    (hevent : event ∈ deltaEvents) (htypes : ∀ run, s.cur = some run →
      event ∈ deltaTypes (run.item w.enc.requestId s.done.length).json) :
    Begun (w.pushPiece tag event rest) s "" := by
  obtain ⟨run, hcur, rfl⟩ : ∃ run, s.cur = some run ∧
      tag = (s.done.length, (run.item w.enc.requestId s.done.length).id) := by
    have hopened := hr.opened
    generalize w.enc.openItem = o, s.cur = cur at hopened htag
    cases hopened with
    | closed => cases htag
    | reasoning | message | call =>
      rw [Option.map_some, Option.some.injEq] at htag
      exact ⟨_, rfl, htag.symm⟩
  have htypes := htypes run hcur
  obtain ⟨hread, hcreated, hclosed, hopened⟩ := h
  have hhandled : event ∈ handled := by
    simp only [deltaEvents, List.mem_cons, List.not_mem_nil, or_false] at hevent
    rcases hevent with rfl | rfl | rfl <;> simp [handled]
  rw [hcur] at hopened
  have hbring := hopened.bring (brings_json
    (f := ⟨event, .piece _ s.done.length rest, w.enc.seq⟩) hevent htypes rfl (textAt_id _ _ _))
  refine .intro ?_ hcreated hclosed (by rw [hcur]; exact hbring)
  rw [Writing.pushPiece, Writing.push, readEvents_concat, if_pos hhandled, hread,
    List.cons_append, List.append_assoc]

/-- The open item is complete. -/
theorem complete (h : Begun w s "") {run : Run} (hcur : s.cur = some run) {w' : Writing}
    (hid : w'.enc.requestId = w.enc.requestId) {n : ℕ}
    (hread' : readEvents w'.out = readEvents w.out ++ [Frame.json ⟨"response.output_item.done",
      .item s.done.length (run.item w.enc.requestId s.done.length), n⟩]) (acc : Accumulated) :
    Begun w' ⟨acc, s.done ++ [run], none⟩ "" := by
  obtain ⟨hread, hcreated, hclosed, hopened⟩ := h
  rw [hcur] at hopened
  have hitem := rendersItems_concat hclosed (hopened.complete (completes_json
    (f := ⟨"response.output_item.done", .item s.done.length _, n⟩) rfl rfl))
  rw [← zipIdx_numbered_concat] at hitem
  refine @Begun.intro _ _ _ _ _ [] ?_ hcreated (by rw [hid]; exact hitem) rfl
  rw [hread', hread]
  simp

/-- Ending the open item. -/
theorem closeOpen (hr : Refines w s) (h : Begun w s "") : Begun w.closeOpen s.close "" := by
  have hid := requestId_closeOpen w
  obtain ⟨n, hevents⟩ := readEvents_closeOpen hr
  cases hcur : s.cur with
  | none =>
    obtain ⟨hread, hcreated, hclosed, hopened⟩ := h
    rw [hcur] at hevents hopened
    obtain rfl := hopened
    have hdone : s.close.done = s.done := by simp [Live.close, Live.runs, hcur]
    refine @Begun.intro _ _ _ _ _ [] ?_ hcreated (by rwa [hid, hdone]) rfl
    rw [hevents, hread]
    exact List.append_nil _
  | some run =>
    rw [hcur] at hevents
    have hclose : s.close = ⟨s.acc, s.done ++ [run], none⟩ := by
      simp [Live.close, Live.runs, hcur]
    rw [hclose]
    exact h.complete hcur hid hevents s.acc

/-- An item is added and kept open, with the text it is opened with still to be brought. -/
theorem addItem (hr : Refines w s) (h : Begun w s "") {item : ℕ → Item} {run : Run}
    (hhead : SameHead (item s.runs.length).json (run.item w.enc.requestId s.runs.length).json)
    (opened : OpenItem) (acc : Accumulated) :
    Begun { (w.addItem item).1 with enc.openItem := some opened } ⟨acc, s.runs, some run⟩
      (spokenText run) := by
  have hid := requestId_closeOpen w
  have hindex : w.closeOpen.enc.outputIndex = s.runs.length :=
    (outputIndex_closeOpen w).trans hr.begun
  obtain ⟨hread, hcreated, hclosed, hopened⟩ := closeOpen hr h
  obtain rfl := hopened
  let f : Frame := ⟨"response.output_item.added", .item s.runs.length (item s.runs.length),
    w.closeOpen.enc.seq⟩
  have hadds : ResponsesWire.Adds (run.item w.enc.requestId s.runs.length).json f.json :=
    adds_json rfl rfl hhead
  have hopen : OpensItem (run.item w.closeOpen.enc.requestId s.runs.length).json (spokenText run)
      [f.json] := by
    rw [hid]
    exact @OpensItem.intro _ _ _ [] _ hadds .nil (by rw [deltaText_item, String.join_nil]; simp)
  refine @Begun.intro _ _ _ _ _ [f.json] ?_ hcreated hclosed hopen
  simp only [Writing.addItem, Writing.push, hindex]
  rw [readEvents_concat, if_pos (by simp [handled]), hread, List.append_nil]
  rfl

/-- An item that arrives whole. -/
theorem wholeItem (hr : Refines w s) (h : Begun w s "") {item : ℕ → Item} {run : Run}
    (hitem : item s.runs.length = run.item w.enc.requestId s.runs.length)
    (htext : spokenText run = "") (acc : Accumulated) :
    Begun (w.wholeItem item) ⟨acc, s.runs ++ [run], none⟩ "" := by
  have hid := requestId_closeOpen w
  have hindex : w.closeOpen.enc.outputIndex = s.runs.length :=
    (outputIndex_closeOpen w).trans hr.begun
  have hadded := @addItem _ _ hr h item run (by rw [hitem]; exact fun _ _ => rfl)
    (.message 0 "" "") acc
  rw [htext] at hadded
  refine @complete _ _ hadded _ rfl (w.wholeItem item) rfl (w.closeOpen.enc.seq + 1) ?_ acc
  simp only [Writing.wholeItem, Writing.addItem, Writing.push, hindex, hitem, hid]
  rw [readEvents_concat, if_pos (by simp [handled])]

/-- Reasoning goes on, or begins; the delta is still to be brought. -/
theorem think (hr : Refines w s) (h : Begun w s "") (delta : String) :
    Begun (w.openReasoning.1.updateOpen (.pushReasoning delta))
      (s.extend (Run.think delta) (.reasoning delta none)) delta := by
  have hopened := hr.opened
  have hfresh := @addItem _ _ hr h
    (fun index => .reasoning (itemId "rs" w.enc.requestId index) (some []) none none)
    (.reasoning delta none) sameHead_reasoning
    (.reasoning s.runs.length (itemId "rs" w.enc.requestId s.runs.length) delta none) s.acc
  generalize ho : w.enc.openItem = o, hc : s.cur = cur at hopened
  cases hopened with
  | reasoning text sig =>
    have hsame : w.openReasoning.1 = w := by
      unfold Writing.openReasoning
      rw [ho]
    rw [hsame, Live.extend, hc]
    exact @grow _ _ _ h _ (.reasoning (text ++ delta) sig) hc sameHead_reasoning rfl
      (w.updateOpen (.pushReasoning delta)) rfl rfl s.acc
  | closed | message | call =>
    unfold Writing.openReasoning
    simp only [ho]
    rw [Live.extend, hc]
    exact hfresh.same rfl rfl rfl rfl

/-- A message goes on, or begins. -/
theorem say (hr : Refines w s) (h : Begun w s "") (delta : String) :
    Begun (w.openMessage.1.updateOpen (.pushMessage delta))
      (s.extend (Run.say delta) (.message delta)) delta := by
  have hopened := hr.opened
  have hfresh := @addItem _ _ hr h
    (fun index => .message (itemId "msg" w.enc.requestId index) "in_progress" [])
    (.message delta) sameHead_message
    (.message s.runs.length (itemId "msg" w.enc.requestId s.runs.length) delta) s.acc
  generalize ho : w.enc.openItem = o, hc : s.cur = cur at hopened
  cases hopened with
  | message text =>
    have hsame : w.openMessage.1 = w := by
      unfold Writing.openMessage
      rw [ho]
    rw [hsame, Live.extend, hc]
    exact @grow _ _ _ h _ (.message (text ++ delta)) hc sameHead_message rfl
      (w.updateOpen (.pushMessage delta)) rfl rfl s.acc
  | closed | reasoning | call =>
    unfold Writing.openMessage
    simp only [ho]
    rw [Live.extend, hc]
    have hpart := @push _ _ _ hfresh "response.content_part.added" (.piece
      (itemId "msg" w.enc.requestId w.closeOpen.enc.outputIndex) w.closeOpen.enc.outputIndex "")
      (by simp [handled])
    exact hpart.same rfl rfl rfl rfl

/-- The fragments of a call go on, or a call begins: one that goes on keeps its id and name. -/
theorem fragment (hr : Refines w s) (h : Begun w s "") (call : ToolCallDelta)
    (f : Accumulated → Accumulated)
    (hf : (f s.acc).tools = s.acc.tools.update call.index ⟨"", "", ""⟩ (Collected.addFragment call))
    (hcall : s.acc.tools.lookup call.index = none ∨ ∃ acc, s.cur = some (.call call.index acc) ∧
      call.id.getD acc.id = acc.id ∧ call.name.getD acc.name = acc.name) :
    Begun ((w.accumulate f).openTool call).1 ((s.accumulate f).extend
      (Run.fragment call.index (s.called call)) (.call call.index (s.called call)))
      (call.arguments.getD "") := by
  have htools (k : ℕ) (hk : k ≠ call.index) : (f s.acc).tools.lookup k = s.acc.tools.lookup k := by
    rw [s.lookup_called hf, if_neg hk]
  rcases hr.opened.call_or htools with ⟨ho, acc, hc⟩ | ⟨hopened, ho, hc⟩
  · have hsame : ((w.accumulate f).openTool call).1 = w.accumulate f := by
      unfold Writing.openTool Writing.accumulate
      simp [ho]
    have hacc : s.acc.tools.lookup call.index = some acc := by
      have hopened := hr.opened
      rw [hc] at hopened
      generalize w.enc.openItem = o at hopened
      cases hopened
      assumption
    obtain ⟨acc', hcur, hid, hname⟩ := hcall.resolve_left (by simp [hacc])
    obtain rfl : acc = acc' := by
      rw [hc] at hcur
      cases hcur
      rfl
    have hcalled : s.called call = ⟨acc.id, acc.name, acc.arguments ++ call.arguments.getD ""⟩ := by
      simp [Live.called, hacc, Collected.addFragment, hid, hname]
    rw [hsame, Live.extend]
    simp only [Live.accumulate, hc, Option.bind_some, Run.fragment, if_true]
    rw [hcalled]
    exact @grow _ _ _ h _ (.call call.index
      ⟨acc.id, acc.name, acc.arguments ++ call.arguments.getD ""⟩) hc sameHead_call rfl
      (w.accumulate f) rfl rfl (f s.acc)
  · have hnone : s.acc.tools.lookup call.index = none := by
      refine hcall.resolve_right ?_
      rintro ⟨acc, hcur, -⟩
      have hgo := hc acc
      simp [hcur, Run.fragment] at hgo
    have hcalled : s.called call =
        ⟨call.id.getD "", call.name.getD "", call.arguments.getD ""⟩ := by
      simp [Live.called, hnone, Collected.addFragment]
    have hr' : Refines (w.accumulate f) (s.accumulate f) := hr.reopen f _ _ rfl hopened
    have h' : Begun (w.accumulate f) (s.accumulate f) "" := h.same rfl rfl rfl rfl
    have hfresh := @addItem _ _ hr' h'
      (fun index => .functionCall (itemId "fc" (w.accumulate f).enc.requestId index)
        (call.id.getD "") (call.name.getD "") "" "in_progress")
      (.call call.index (s.called call)) (by rw [hcalled]; exact sameHead_call)
      (.tool s.runs.length (itemId "fc" w.enc.requestId s.runs.length) call.index) (f s.acc)
    have hextend : (s.accumulate f).extend (Run.fragment call.index (s.called call))
        (.call call.index (s.called call)) =
          ⟨f s.acc, s.runs, some (.call call.index (s.called call))⟩ := by
      unfold Live.extend
      rw [show (s.accumulate f).cur = s.cur from rfl, hc]
      rfl
    rw [openTool_fresh (w := w.accumulate f) ho, hextend]
    have hrest : spokenText (.call call.index (s.called call)) = call.arguments.getD "" := by
      rw [hcalled]
      rfl
    rw [hrest] at hfresh
    exact hfresh.same rfl rfl rfl rfl

end Begun

namespace Written

variable {w : Writing} {s : Live}

/-- The start opens the envelope. -/
theorem ensureStarted (hr : Refines w s) (h : Written w s) : Begun w.ensureStarted s "" := by
  unfold Writing.ensureStarted
  rcases h with ⟨hstarted, h⟩ | ⟨hstarted, hread⟩
  · rwa [if_pos hstarted]
  · have hruns : s.runs = [] := by
      by_contra hne
      rw [hr.started hne] at hstarted
      cases hstarted
    obtain ⟨hdone, hcur⟩ := List.append_eq_nil_iff.mp hruns
    have hcur := Option.toList_eq_nil_iff.mp hcur
    rw [if_neg (by simp [hstarted])]
    refine @Begun.intro _ _ _
      (Frame.json ⟨"response.created", .response w.inProgressSnapshot, w.enc.seq⟩) [] [] ?_
      Frame.textAt_type ?_ ?_
    · simp only [Writing.push, readEvents_concat]
      rw [hread, if_pos (by simp [handled]), if_neg (by simp [handled])]
      rfl
    · rw [hdone]
      exact .nil
    · rw [hcur]
      rfl

/-- What is open or accumulated changes, without a frame. -/
theorem same (h : Written w s) {w' : Writing} {s' : Live} (hout : w'.out = w.out)
    (hid : w'.enc.requestId = w.enc.requestId) (hstarted : w'.enc.started = w.enc.started)
    (hdone : s'.done = s.done) (hcur : s'.cur = s.cur) : Written w' s' := by
  rcases h with ⟨hs, h⟩ | ⟨hs, hread⟩
  · exact .inl ⟨hstarted.trans hs, h.same hout hid hdone hcur⟩
  · exact .inr ⟨hstarted.trans hs, by rw [hout, hread]⟩

/-- Signing the open reasoning. -/
theorem sign (h : Written w s) (signature : String) :
    Written ((w.accumulate fun acc => { acc with thinkSig := some signature }).updateOpen
      (.sign signature)) (s.take (.thinkingSignature 0 signature)) := by
  rcases h with ⟨hstarted, h⟩ | ⟨hstarted, hread⟩
  · refine .inl ⟨hstarted, ?_⟩
    cases hcur : s.cur with
    | none => exact h.same rfl rfl rfl (by simp [Live.take, hcur])
    | some run =>
      have htake : s.take (.thinkingSignature 0 signature) =
          ⟨{ s.acc with thinkSig := some signature }, s.done, some (run.sign signature)⟩ := by
        simp [Live.take, Live.accumulate, hcur]
      have hhead : SameHead (run.item w.enc.requestId s.done.length).json
          ((run.sign signature).item w.enc.requestId s.done.length).json := by
        cases run with
        | reasoning => exact sameHead_reasoning
        | _ => exact fun _ _ => rfl
      have htext : spokenText (run.sign signature) = spokenText run ++ "" := by
        cases run <;> exact String.append_empty.symm
      rw [htake]
      exact (@Begun.grow _ _ _ h _ _ hcur hhead htext w rfl rfl s.acc).same rfl rfl rfl rfl
  · exact .inr ⟨hstarted, hread⟩

/-- Ending the open item; before the start none is open. -/
theorem closeOpen (hr : Refines w s) (h : Written w s) : Written w.closeOpen s.close := by
  rcases h with ⟨hstarted, h⟩ | ⟨hstarted, hread⟩
  · exact .inl ⟨by rwa [started_closeOpen], Begun.closeOpen hr h⟩
  · have hcur : s.cur = none := by
      cases hcur : s.cur with
      | none => rfl
      | some run =>
        rw [hr.started (by simp [Live.runs, hcur])] at hstarted
        cases hstarted
    obtain ⟨n, hevents⟩ := readEvents_closeOpen hr
    rw [hcur, hread] at hevents
    exact .inr ⟨by rwa [started_closeOpen], hevents⟩

/-- One chunk of choice 0, or one that belongs to no choice; a fragment of a call keeps its id and
name. -/
theorem take (hr : Refines w s) (h : Written w s) {c : StreamChunk} (hc : c.index.getD 0 = 0)
    (hcall : ∀ call, c = .toolCall 0 call → s.acc.tools.lookup call.index = none ∨
      ∃ acc, s.cur = some (.call call.index acc) ∧
        call.id.getD acc.id = acc.id ∧ call.name.getD acc.name = acc.name) :
    Written (w.encode c) (s.take c) := by
  have hrt := hr.take hc
  have hrs := hr.ensureStarted
  have hs := ensureStarted hr h
  have hstarted := started_ensureStarted w
  cases c with
  | start id model =>
    simp only [Writing.encode, Live.take]
    split
    · rename_i hnew
      simp only [Bool.and_eq_true, Bool.not_eq_eq_eq_not, Bool.not_true] at hnew
      have hrenamed : Written { w with enc.requestId := id } s := by
        refine .inr ⟨hnew.1, ?_⟩
        rcases h with ⟨hold, -⟩ | ⟨-, hread⟩
        · rw [hnew.1] at hold
          cases hold
        · exact hread
      exact .inl ⟨started_ensureStarted _, ensureStarted (hr.rename hnew.1 id) hrenamed⟩
    · exact .inl ⟨hstarted, hs⟩
  | usage u => exact h.same rfl rfl rfl rfl rfl
  | thinking index delta =>
    obtain rfl : index = 0 := hc
    have hacc := hrs.accumulate (fun acc => { acc with thinkText := acc.thinkText ++ delta })
      fun _ => rfl
    refine .inl ⟨hrt.started (Live.runs_extend_ne _ _ _), ?_⟩
    simp only [Writing.encode, ne_eq, not_true_eq_false, if_false]
    refine (Begun.think hacc (hs.same rfl rfl rfl rfl) delta).pushPiece
      (hacc.think hstarted delta) ?_ (by simp [deltaEvents]) fun run hrun => ?_
    · rw [Writing.tag_updateOpen _ (OpenItem.tag_pushReasoning delta)]
      exact Writing.tag_openReasoning _
    · obtain ⟨text, sig, rfl⟩ : ∃ text sig, run = .reasoning text sig := by
        rcases Live.cur_extend hrun with ⟨old, hold⟩ | rfl
        · obtain ⟨text, sig, -, rfl⟩ := Run.think_some hold
          exact ⟨_, _, rfl⟩
        · exact ⟨_, _, rfl⟩
      simp [deltaTypes_item]
  | thinkingSignature index signature =>
    obtain rfl : index = 0 := hc
    simp only [Writing.encode, ne_eq, not_true_eq_false, if_false]
    exact h.sign signature
  | redactedThinking index data =>
    obtain rfl : index = 0 := hc
    have hacc := hrs.accumulate (fun acc => { acc with redacted := acc.redacted ++ [data] })
      fun _ => rfl
    refine .inl ⟨hrt.started (by simp [Live.take, Live.whole, Live.runs]), ?_⟩
    simp only [Writing.encode, ne_eq, not_true_eq_false, if_false]
    exact @Begun.wholeItem _ _ hacc (hs.same rfl rfl rfl rfl) _ (.redacted data) rfl rfl _
  | compaction outputIndex index delta id encryptedContent signature =>
    obtain rfl : index = 0 := hc
    let mark : Mark := ⟨s.runs.length, outputIndex, id, delta, encryptedContent, signature⟩
    let f : Accumulated → Accumulated := fun acc =>
      { acc with compaction := acc.compaction ++ [mark.livePart] }
    have hacc := hrs.closeOpen.accumulate f fun _ => rfl
    have hlive : w.ensureStarted.closeOpen.enc.outputIndex = s.runs.length :=
      (outputIndex_closeOpen _).trans hrs.begun
    have hruns : (s.close.accumulate f).runs = s.runs := List.append_nil _
    refine .inl ⟨hrt.started (by simp [Live.take, Live.whole, Live.runs]), ?_⟩
    simp only [Writing.encode, ne_eq, not_true_eq_false, if_false, hlive]
    have hwhole := @Begun.wholeItem _ _ hacc ((Begun.closeOpen hrs hs).same rfl rfl rfl rfl)
      (fun _ => .compaction (id.getD (itemId "cmp" w.ensureStarted.closeOpen.enc.requestId
        s.runs.length)) encryptedContent mark.content signature) (.compaction mark)
      (by rw [hruns]; rfl) rfl (f s.acc)
    rw [hruns] at hwhole
    exact hwhole
  | outputItem index message =>
    obtain rfl : index = 0 := hc
    simp only [Writing.encode, ne_eq, not_true_eq_false, if_false]
    exact h.same rfl rfl rfl rfl rfl
  | content index delta =>
    obtain rfl : index = 0 := hc
    have hacc := hrs.accumulate (fun acc => { acc with text := acc.text ++ delta }) fun _ => rfl
    refine .inl ⟨hrt.started (Live.runs_extend_ne _ _ _), ?_⟩
    simp only [Writing.encode, ne_eq, not_true_eq_false, if_false]
    refine (Begun.say hacc (hs.same rfl rfl rfl rfl) delta).pushPiece
      (hacc.say hstarted delta) ?_ (by simp [deltaEvents]) fun run hrun => ?_
    · rw [Writing.tag_updateOpen _ (OpenItem.tag_pushMessage delta)]
      exact Writing.tag_openMessage _
    · obtain ⟨text, rfl⟩ : ∃ text, run = .message text := by
        rcases Live.cur_extend hrun with ⟨old, hold⟩ | rfl
        · obtain ⟨text, -, rfl⟩ := Run.say_some hold
          exact ⟨_, rfl⟩
        · exact ⟨_, rfl⟩
      simp [deltaTypes_item]
  | toolCall index call =>
    obtain rfl : index = 0 := hc
    let f : Accumulated → Accumulated := fun acc => { acc with
      tools := acc.tools.update call.index ⟨"", "", ""⟩ (Collected.addFragment call) }
    refine .inl ⟨hrt.started (Live.runs_extend_ne _ _ _), ?_⟩
    have hbegun := Begun.fragment hrs hs call f rfl (hcall call rfl)
    simp only [Writing.encode, ne_eq, not_true_eq_false, if_false]
    split
    · rename_i hargs
      rw [hargs] at hbegun
      exact hbegun
    · refine hbegun.pushPiece (hrs.fragment hstarted call f rfl) (Writing.tag_openTool _ call)
        (by simp [deltaEvents]) fun run hrun => ?_
      obtain ⟨acc, rfl⟩ : ∃ acc, run = .call call.index acc := by
        rcases Live.cur_extend hrun with ⟨old, hold⟩ | rfl
        · obtain ⟨acc, -, rfl⟩ := Run.fragment_some hold
          exact ⟨_, rfl⟩
        · exact ⟨_, rfl⟩
      simp [deltaTypes_item]
  | finish index reason =>
    obtain rfl : index = 0 := hc
    simp only [Writing.encode, ne_eq, not_true_eq_false, if_false]
    exact (closeOpen hr h).same rfl rfl rfl rfl rfl

end Written

end Llmleaf.NodeHop
