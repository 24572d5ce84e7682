import Llmleaf.Chat.Gathered
import Llmleaf.Realtime.Models
import Llmleaf.Realtime.Turns

/-!
# The history of a bridged turn

While a turn streams, its chunks are taken in twice: the scaffold frames them for the client and
keeps what the next turn replays, and the collector folds the same chunks into a response. The
scaffold looks at no choice index, so the two are compared on turns of a single choice.

- `Keeps`: the scaffold's record of the chunks is what the choice gathers from them.
- `Told`: the scaffold's texts are the sums of the deltas it has framed.
- `runTurn_persists`: what a turn adds to the history of its session.
- **Result** (`onChunks_faithful`): the persisted message is the collected choice, and every text of
  a closing frame is the sum of the deltas of its item.
-/

namespace Llmleaf

/-! ## Turns of a single choice -/

/-- Every chunk is of the choice or of no choice. -/
def OfOneChoice (i : ℕ) (chunks : List StreamChunk) : Prop :=
  ∀ c ∈ chunks, c.index = none ∨ c.index = some i

instance (i : ℕ) (chunks : List StreamChunk) : Decidable (OfOneChoice i chunks) :=
  inferInstanceAs (Decidable (∀ c ∈ chunks, c.index = none ∨ c.index = some i))

/-- A turn of a single choice is collected to this choice, or to none if it is empty. -/
theorem OfOneChoice.choices {i : ℕ} {chunks : List StreamChunk} (h : OfOneChoice i chunks) :
    (collectChunks chunks).choices =
      if ofChoice i chunks = [] then [] else [(chunks.foldl Collected.step .empty).choice i] := by
  have hmem : ∀ j, j ∈ (chunks.foldl Collected.step .empty).indices ↔ ofChoice j chunks ≠ [] := by
    intro j
    rw [Collected.mem_indices_foldl]
    simp [Collected.mem_indices, Collected.empty]
  have honly : ∀ j ∈ (chunks.foldl Collected.step .empty).indices, j = i := by
    intro j hj
    obtain ⟨c, hc⟩ := List.exists_mem_of_ne_nil _ ((hmem j).mp hj)
    obtain ⟨hc, hindex⟩ := List.mem_filter.mp hc
    have hindex : c.index = some j := of_decide_eq_true hindex
    rcases h c hc with hi | hi
    · rw [hi] at hindex
      cases hindex
    · rw [hi] at hindex
      exact (Option.some.inj hindex).symm
  have hnodup : (chunks.foldl Collected.step .empty).indices.Nodup := List.nodup_dedup _
  change (chunks.foldl Collected.step .empty).indices.map _ = _
  split
  · rename_i hnil
    have hnone : (chunks.foldl Collected.step .empty).indices = [] :=
      List.eq_nil_iff_forall_not_mem.mpr fun j hj =>
        (hmem j).mp hj (by rw [honly j hj, hnil])
    rw [hnone, List.map_nil]
  · rename_i hne
    have hperm : (chunks.foldl Collected.step .empty).indices.Perm [i] :=
      (List.perm_ext_iff_of_nodup hnodup (List.nodup_singleton i)).mpr fun j => by
        rw [List.mem_singleton]
        exact ⟨honly j, fun hj => (hmem j).mpr (by rw [hj]; exact hne)⟩
    rw [List.perm_singleton.mp hperm, List.map_singleton]

namespace Realtime

open Value

namespace ResponseScaffold

/-- Take in the chunks of a stream: the last state, and all frames. -/
def onChunks (self : ResponseScaffold) : List StreamChunk → ResponseScaffold × List Value
  | [] => (self, [])
  | chunk :: chunks =>
    let (self, frames) := self.onChunk chunk
    let (self, more) := self.onChunks chunks
    (self, frames ++ more)

/-- The chunks of a stream up to its first error. -/
def readChunks : List (Except ModelError StreamChunk) → List StreamChunk
  | [] | .error _ :: _ => []
  | .ok chunk :: items => chunk :: readChunks items

/-- The scaffold of a turn whose frames the socket has taken. -/
theorem streamTurn_scaffold (env : SessionEnv) (items : List (Except ModelError StreamChunk))
    (b : Bridge) (self : ResponseScaffold) (reason : FinishReason) (usage : Usage)
    (h : (b.streamTurn env self reason usage items).alive = true) :
    (b.streamTurn env self reason usage items).scaffold =
      (self.onChunks (readChunks items)).1 := by
  induction items generalizing b self reason usage with
  | nil => rfl
  | cons item items ih =>
    cases item with
    | error e => rfl
    | ok chunk =>
      simp only [Bridge.streamTurn] at h ⊢
      generalize b.sendAll env (self.onChunk chunk).2 = r at h ⊢
      obtain ⟨b', ok⟩ := r
      cases ok with
      | true => exact ih _ _ _ _ h
      | false => cases h

/-! ## What the scaffold keeps -/

/-- A tool call of the turn, as the history carries it. -/
def ToolAcc.intoCall (tool : ToolAcc) : ToolCall := ⟨tool.callId, tool.name, tool.arguments⟩

/-- The record of the scaffold is what a choice has gathered. -/
structure Keeps (i : ℕ) (s : ResponseScaffold) (g : Gathered) : Prop where
  text : s.text = g.text
  thinking : s.thinking = g.thinking
  signature : s.thinkingSignature = g.signature
  redacted : s.redacted = g.redacted
  compaction : (gathered i s.compaction).compaction = g.compaction
  compactions : OfOneChoice i s.compaction
  calls : ∀ k, (s.tools.lookup k).map ToolAcc.intoCall = (g.calls k).map PartialToolCall.intoCall

theorem keeps_new (i : ℕ) (responseId itemId : String) : Keeps i (new responseId itemId) 0 :=
  ⟨rfl, rfl, rfl, rfl, rfl, fun _ h => (nomatch h), fun _ => rfl⟩

/-- The record of a call after a fragment. -/
theorem lookup_onToolCall (self : ResponseScaffold) (call : ToolCallDelta) (k : ℕ) :
    (self.onToolCall call).1.tools.lookup k =
      if k = call.index then
        some { self.toolEntry call with
          opened := true
          arguments := (self.toolEntry call).arguments ++ call.arguments.getD "" }
      else self.tools.lookup k := by
  rw [onToolCall]
  cases call.arguments with
  | none => simp [HashMap.lookup_insert_eq]
  | some args => simp [HashMap.lookup_insert_eq]

theorem onToolCall_text (self : ResponseScaffold) (call : ToolCallDelta) :
    (self.onToolCall call).1.text = self.text ∧
      (self.onToolCall call).1.thinking = self.thinking ∧
      (self.onToolCall call).1.thinkingSignature = self.thinkingSignature ∧
      (self.onToolCall call).1.redacted = self.redacted ∧
      (self.onToolCall call).1.compaction = self.compaction ∧
      (self.onToolCall call).1.itemId = self.itemId ∧
      (self.onToolCall call).1.textOpened = self.textOpened := by
  rw [onToolCall]
  cases call.arguments <;> exact ⟨rfl, rfl, rfl, rfl, rfl, rfl, rfl⟩

/-- A fragment adds to the record of its call what it adds to the collected call. -/
theorem intoCall_toolEntry (self : ResponseScaffold) (call : ToolCallDelta) :
    ToolAcc.intoCall { self.toolEntry call with
        opened := true
        arguments := (self.toolEntry call).arguments ++ call.arguments.getD "" } =
      Collected.addFragment call
        (((self.tools.lookup call.index).map ToolAcc.intoCall).getD ⟨"", "", ""⟩) := by
  rw [toolEntry]
  cases self.tools.lookup call.index with
  | none => rfl
  | some tool => rfl

/-- **One chunk** of the turn. -/
theorem Keeps.step {i : ℕ} {self : ResponseScaffold} {g : Gathered} (h : Keeps i self g)
    {c : StreamChunk} (hc : c.index = none ∨ c.index = some i) :
    Keeps i (self.onChunk c).1 (g + gathered i [c]) := by
  obtain ⟨htext, hthinking, hsig, hred, hcomp, hof, hcalls⟩ := h
  have hpart : c.index = some i → gathered i [c] = Gathered.part c := gathered_one
  cases c with
  | start _ _ | usage _ =>
    rw [gathered_other (by simp [StreamChunk.index]), add_zero]
    exact ⟨htext, hthinking, hsig, hred, hcomp, hof, hcalls⟩
  | outputItem j _ | content j _ | thinking j _ | thinkingSignature j _ | redactedThinking j _
  | finish j _ =>
    rw [hpart (hc.resolve_left (by simp [StreamChunk.index]))]
    refine ⟨?_, ?_, ?_, ?_, ?_, hof, fun k => ?_⟩ <;>
      simp [onChunk, onContent, Gathered.part, htext, hthinking, hsig, hred, hcomp, hcalls]
  | compaction o j delta id encrypted signature =>
    have hj := hc.resolve_left (by simp [StreamChunk.index])
    rw [hpart hj]
    refine ⟨?_, ?_, ?_, ?_, ?_, ?_, fun k => ?_⟩
    case refine_5 =>
      rw [onChunk, gathered_append, Gathered.compaction_add, hcomp, hpart hj]
      rfl
    case refine_6 =>
      intro c hmem
      rcases List.mem_append.mp hmem with hmem | hmem
      · exact hof c hmem
      · rw [List.mem_singleton.mp hmem]
        exact .inr hj
    all_goals simp [onChunk, Gathered.part, htext, hthinking, hsig, hred, hcalls]
  | toolCall j call =>
    rw [hpart (hc.resolve_left (by simp [StreamChunk.index]))]
    obtain ⟨ht, hth, hs, hr, hco, -, -⟩ := self.onToolCall_text call
    rw [onChunk]
    refine ⟨?_, ?_, ?_, ?_, ?_, ?_, fun k => ?_⟩
    case refine_6 =>
      rw [hco]
      exact hof
    case refine_7 =>
      rw [lookup_onToolCall, Gathered.calls_add]
      by_cases hk : k = call.index
      · subst hk
        rw [if_pos rfl, Option.map_some, intoCall_toolEntry, hcalls]
        cases hg : g.calls call.index with
        | none => simp [Gathered.part, PartialToolCall.addFragment_empty]
        | some p => simp [Gathered.part, PartialToolCall.addFragment_intoCall]
      · rw [if_neg hk, hcalls]
        simp [Gathered.part, Ne.symm hk]
    all_goals simp [ht, hth, hs, hr, hco, htext, hthinking, hsig, hred, hcomp, Gathered.part]

/-- **A run**: after any chunks of the turn the record is what the choice has gathered. -/
theorem Keeps.run {i : ℕ} {self : ResponseScaffold} {g : Gathered} (h : Keeps i self g)
    {chunks : List StreamChunk} (hof : OfOneChoice i chunks) :
    Keeps i (self.onChunks chunks).1 (g + gathered i chunks) := by
  induction chunks generalizing self g with
  | nil =>
    rw [gathered_nil, add_zero]
    exact h
  | cons c chunks ih =>
    rw [gathered_cons, ← add_assoc]
    exact ih (h.step (hof c List.mem_cons_self)) fun c' hc' => hof c' (List.mem_cons_of_mem _ hc')

/-! ## The persisted message -/

/-- The text part of a message, if there is a text. -/
def textParts (text : String) : List ContentPart := if text ≠ "" then [.text text] else []

/-- A message has the parts and the calls of a collected response: compactions first, then the
reasoning, then the text. -/
structure IsTurnOf (m : Message) (r : ChatResponse) : Prop where
  content : m.content = r.choices.flatMap fun c => c.compaction ++ c.thinking ++ textParts c.text
  toolCalls : m.toolCalls = r.choices.flatMap Choice.toolCalls

/-- The calls of the record, in the order of their indices. -/
theorem Keeps.toolCalls {i : ℕ} {self : ResponseScaffold} {chunks : List StreamChunk}
    (h : Keeps i self (gathered i chunks)) :
    self.assistantMessage.toolCalls =
      ((chunks.foldl Collected.step .empty).choice i).toolCalls := by
  have hlookup : ∀ k, (self.tools.map fun _ tool => ToolAcc.intoCall tool).lookup k =
      ((((chunks.foldl Collected.step .empty).tools.lookup i).getD ∅).lookup k) := by
    intro k
    rw [HashMap.lookup_map, h.calls, Collected.lookup_calls, (slot_holds chunks i).calls]
  have hasc := HashMap.ascending_congr hlookup
  rw [HashMap.ascending_map] at hasc
  rw [Collected.choice, ← hasc, List.map_map]
  rfl

/-- The compactions of the record are collected as those of the choice. -/
theorem Keeps.compactions_eq {i : ℕ} {self : ResponseScaffold} {g : Gathered}
    (h : Keeps i self g) :
    (if self.compaction = [] then []
      else (collectChunks self.compaction).choices.flatMap (·.compaction)) = g.compaction := by
  rw [← h.compaction]
  split
  · rename_i hnil
    rw [hnil]
    rfl
  · rw [h.compactions.choices]
    split
    · rename_i hnil
      rw [← gathered_ofChoice, hnil]
      rfl
    · rw [List.flatMap_singleton, ← (slot_holds self.compaction i).compaction]
      rfl

/-- **The persisted message** is the collected turn. -/
theorem Keeps.isTurnOf {i : ℕ} {self : ResponseScaffold} {chunks : List StreamChunk}
    (h : Keeps i self (gathered i chunks)) (hof : OfOneChoice i chunks) :
    IsTurnOf self.assistantMessage (collectChunks chunks) := by
  have hcontent : self.assistantMessage.content =
      (gathered i chunks).compaction ++
        ((chunks.foldl Collected.step .empty).choice i).thinking ++
          textParts (gathered i chunks).text := by
    rw [assistantMessage, h.compactions_eq, choice_thinking, h.text, h.thinking, h.signature,
      h.redacted, List.append_assoc _ _ (List.map _ _)]
    rfl
  have hs := slot_holds chunks i
  by_cases hnil : ofChoice i chunks = []
  · have hzero : gathered i chunks = 0 := by
      rw [← gathered_ofChoice, hnil]
      rfl
    have hempty : self.assistantMessage.toolCalls = [] := by
      have hcalls : ∀ k, (gathered i chunks).calls k = ([] : List PartialToolCall)[k]? := by
        intro k
        rw [hzero]
        rfl
      rw [h.toolCalls, choice_of_calls chunks i hcalls]
      rfl
    constructor
    · rw [hof.choices, if_pos hnil, hcontent, choice_thinking, hzero]
      rfl
    · rw [hof.choices, if_pos hnil, hempty]
      rfl
  · constructor
    · rw [hof.choices, if_neg hnil, List.flatMap_singleton, hcontent, ← hs.compaction, ← hs.text]
      rfl
    · rw [hof.choices, if_neg hnil, List.flatMap_singleton, h.toolCalls]

end ResponseScaffold

/-! ## The frames of the turn -/

/-- The item and the text under a field of a frame about an item. -/
def textFor (v : Value) (idKey key : String) : Option (String × String) :=
  (v.textAt [idKey]).bind fun item => (v.textAt [key]).map (item, ·)

/-- The delta of a frame, with its item. -/
def delta (frame : Value) : Option (String × String) :=
  if typeOf frame = some "response.output_text.delta" ∨
      typeOf frame = some "response.function_call_arguments.delta" then
    textFor frame "item_id" "delta"
  else none

/-- The deltas of an item among some frames. -/
def deltasOf (item : String) (frames : List Value) : List String :=
  ((frames.filterMap delta).filter fun d => d.1 = item).map Prod.snd

/-- The text or the arguments of a finished item, with its id. -/
def itemText (item : Value) : Option (String × String) :=
  if typeOf item = some "message" then
    (item.textAt ["id"]).map fun id =>
      (id, String.join ((item.itemsAt ["content"]).filterMap (textAt · ["text"])))
  else if typeOf item = some "function_call" then textFor item "id" "arguments"
  else none

/-- The texts and arguments that a frame gives whole, each with its item. -/
def wholeTexts (frame : Value) : List (String × String) :=
  match typeOf frame with
  | some "response.output_text.done" => (textFor frame "item_id" "text").toList
  | some "response.content_part.done" =>
    ((frame.textAt ["item_id"]).bind fun item =>
      (frame.textAt ["part", "text"]).map (item, ·)).toList
  | some "response.function_call_arguments.done" => (textFor frame "item_id" "arguments").toList
  | some "response.output_item.done" | some "conversation.item.done" =>
    ((frame.get "item").bind itemText).toList
  | some "response.done" =>
    (frame.itemsAt ["response", "output"]).filterMap itemText
  | _ => []

namespace ResponseScaffold

/-- The item of a tool call. -/
def callItem (itemId : String) (k : ℕ) : String := itemId ++ "_call_" ++ toString k

theorem callItem_inj {itemId : String} {j k : ℕ} (h : callItem itemId j = callItem itemId k) :
    j = k :=
  Strings.toString_inj ((String.append_right_inj _).mp h)

/-- The item of a call is not that of the text. -/
theorem callItem_ne (itemId : String) (k : ℕ) : callItem itemId k ≠ itemId := by
  intro h
  have hlen := congrArg (fun s : String => s.toList.length) h
  simp [callItem, String.toList_append] at hlen

variable (self : ResponseScaffold)

/-- A text fragment is framed as one delta. -/
theorem delta_onContent (text : String) :
    (self.onContent text).2.filterMap delta = [(self.itemId, text)] := by
  rw [onContent]
  cases self.textOpened <;>
    simp [delta, textFor, textAt, path_cons, typeOf, get_obj, asStr]

/-- A fragment of a call is framed as a delta of its arguments, if it has any. -/
theorem delta_onToolCall (call : ToolCallDelta) :
    (self.onToolCall call).2.filterMap delta =
      (call.arguments.map ((self.toolEntry call).itemId, ·)).toList := by
  rw [onToolCall]
  cases call.arguments <;> cases (self.toolEntry call).opened <;>
    simp [delta, textFor, textAt, path_cons, typeOf, get_obj, asStr]

/-- The texts of the closing frames of the text item. -/
theorem wholeTexts_textDone {frame : Value} (h : frame ∈ self.textDone) :
    wholeTexts frame = [(self.itemId, self.text)] := by
  simp only [textDone, List.mem_cons, List.not_mem_nil, or_false] at h
  rcases h with rfl | rfl | rfl | rfl <;>
    simp [wholeTexts, itemText, textFor, textAt, itemsAt, path_cons, typeOf, get_obj, asStr, asArray, textContent]

theorem wholeTexts_toolDone (tool : ToolAcc) {frame : Value} (h : frame ∈ self.toolDone tool) :
    wholeTexts frame = [(tool.itemId, tool.arguments)] := by
  simp only [toolDone, List.mem_cons, List.not_mem_nil, or_false] at h
  rcases h with rfl | rfl <;>
    simp [wholeTexts, itemText, textFor, textAt, path_cons, typeOf, get_obj, asStr]

theorem filterMap_output : self.output.filterMap itemText =
    (if self.textOpened then [(self.itemId, self.text)] else []) ++
      self.tools.ascending.map fun e => (e.2.itemId, e.2.arguments) := by
  rw [output, List.filterMap_append, List.filterMap_map]
  congr 1
  · cases self.textOpened <;>
      simp [itemText, textFor, textAt, itemsAt, path_cons, typeOf, get_obj, asStr, asArray, textContent]
  · rw [← List.filterMap_eq_map]
    refine List.filterMap_congr fun e _ => ?_
    simp [itemText, textFor, textAt, path_cons, typeOf, get_obj, asStr]

end ResponseScaffold

/-! ## What the client is told -/

theorem deltasOf_append (item : String) (a b : List Value) :
    deltasOf item (a ++ b) = deltasOf item a ++ deltasOf item b := by
  simp only [deltasOf, List.filterMap_append, List.filter_append, List.map_append]

/-- The deltas of frames that carry one delta. -/
theorem deltasOf_one {frames : List Value} {item text : String}
    (h : frames.filterMap delta = [(item, text)]) (other : String) :
    deltasOf other frames = if item = other then [text] else [] := by
  rw [deltasOf, h]
  by_cases hitem : item = other <;> simp [hitem]

namespace ResponseScaffold

/-- The texts of the scaffold are the sums of the deltas in some frames, and every delta is of an
item that the scaffold has opened. -/
structure Told (s : ResponseScaffold) (frames : List Value) : Prop where
  text : s.text = String.join (deltasOf s.itemId frames)
  calls : ∀ k tool, s.tools.lookup k = some tool → tool.itemId = callItem s.itemId k ∧
    tool.arguments = String.join (deltasOf (callItem s.itemId k) frames)
  items : ∀ d ∈ frames.filterMap delta, d.1 = s.itemId ∧ s.textOpened = true ∨
    ∃ k ∈ s.tools, d.1 = callItem s.itemId k

theorem told_new (responseId itemId : String) : Told (new responseId itemId) [] :=
  ⟨rfl, fun _ _ h => (nomatch h), fun _ h => (nomatch h)⟩

variable {self : ResponseScaffold} {frames : List Value}

/-- A call that has not begun has no deltas. -/
theorem Told.unopened (h : Told self frames) {k : ℕ} (hk : self.tools.lookup k = none) :
    deltasOf (callItem self.itemId k) frames = [] := by
  rw [deltasOf, List.map_eq_nil_iff, List.filter_eq_nil_iff]
  intro d hd heq
  have heq : d.1 = callItem self.itemId k := of_decide_eq_true heq
  rcases h.items d hd with ⟨hitem, -⟩ | ⟨k', hk', hitem⟩
  · exact callItem_ne _ _ (heq.symm.trans hitem)
  · obtain rfl : k' = k := callItem_inj (hitem.symm.trans heq)
    obtain ⟨tool, htool⟩ := HashMap.mem_iff_lookup.mp hk'
    rw [htool] at hk
    cases hk

/-- The record that a fragment continues: its item, and the arguments so far. -/
theorem Told.entry (h : Told self frames) (call : ToolCallDelta) :
    (self.toolEntry call).itemId = callItem self.itemId call.index ∧
      (self.toolEntry call).arguments =
        String.join (deltasOf (callItem self.itemId call.index) frames) := by
  rw [toolEntry]
  cases hk : self.tools.lookup call.index with
  | none =>
    rw [h.unopened hk]
    exact ⟨rfl, rfl⟩
  | some tool => exact h.calls _ tool hk

theorem Told.onContent (h : Told self frames) (text : String) :
    Told (self.onContent text).1 (frames ++ (self.onContent text).2) := by
  have hone := deltasOf_one (self.delta_onContent text)
  have hid : (self.onContent text).1.itemId = self.itemId := rfl
  constructor
  · rw [hid, deltasOf_append, hone, if_pos rfl, String.join_append]
    change self.text ++ text = _
    rw [h.text]
    simp
  · intro k tool hk
    obtain ⟨hitem, hargs⟩ := h.calls k tool hk
    refine ⟨hitem, ?_⟩
    rw [hid, deltasOf_append, hone, if_neg (callItem_ne _ _).symm, List.append_nil]
    exact hargs
  · intro d hd
    rw [List.filterMap_append, self.delta_onContent, List.mem_append, List.mem_singleton] at hd
    rcases hd with hd | rfl
    · exact (h.items d hd).imp (fun hi => ⟨hi.1, rfl⟩) id
    · exact .inl ⟨rfl, rfl⟩

theorem Told.onToolCall (h : Told self frames) (call : ToolCallDelta) :
    Told (self.onToolCall call).1 (frames ++ (self.onToolCall call).2) := by
  obtain ⟨hitem, hargs⟩ := h.entry call
  obtain ⟨htext, -, -, -, -, hid, hopened⟩ := self.onToolCall_text call
  have hdelta := self.delta_onToolCall call
  rw [hitem] at hdelta
  have hown : String.join (deltasOf (callItem self.itemId call.index) (self.onToolCall call).2) =
      call.arguments.getD "" := by
    rw [deltasOf, hdelta]
    cases call.arguments <;> simp [String.join]
  have hother : ∀ item, item ≠ callItem self.itemId call.index →
      deltasOf item (self.onToolCall call).2 = [] := by
    intro item hne
    rw [deltasOf, hdelta]
    cases call.arguments <;> simp [Ne.symm hne]
  constructor
  · rw [htext, hid, deltasOf_append, hother _ (callItem_ne _ _).symm, List.append_nil]
    exact h.text
  · intro k tool hk
    rw [lookup_onToolCall] at hk
    rw [hid, deltasOf_append, String.join_append]
    split at hk
    · rename_i hkey
      cases hk
      rw [hkey, hown, ← hargs]
      exact ⟨hitem, rfl⟩
    · rename_i hkey
      rw [hother _ fun heq => hkey (callItem_inj heq)]
      obtain ⟨hitem', hargs'⟩ := h.calls k tool hk
      refine ⟨hitem', hargs'.trans ?_⟩
      simp [String.join]
  · have hgrow : ∀ k, k ∈ (self.onToolCall call).1.tools ↔ k = call.index ∨ k ∈ self.tools := by
      intro k
      rw [HashMap.mem_iff_lookup, lookup_onToolCall, HashMap.mem_iff_lookup]
      by_cases hk : k = call.index <;> simp [hk]
    intro d hd
    rw [List.filterMap_append, hdelta, List.mem_append] at hd
    rw [hid, hopened]
    rcases hd with hd | hd
    · refine (h.items d hd).imp id fun hk => ?_
      obtain ⟨k, hk, hitem⟩ := hk
      exact ⟨k, (hgrow k).mpr (.inr hk), hitem⟩
    · refine .inr ⟨call.index, (hgrow _).mpr (.inl rfl), ?_⟩
      cases harguments : call.arguments with
      | none =>
        rw [harguments] at hd
        cases hd
      | some args =>
        rw [harguments] at hd
        exact congrArg Prod.fst (List.mem_singleton.mp hd)

/-- **One chunk**: whatever it is, the deltas keep up with the record. -/
theorem Told.step (h : Told self frames) (c : StreamChunk) :
    Told (self.onChunk c).1 (frames ++ (self.onChunk c).2) := by
  cases c with
  | content i text => exact h.onContent text
  | toolCall i call => exact h.onToolCall call
  | _ =>
    rw [onChunk, List.append_nil]
    exact ⟨h.text, h.calls, h.items⟩

/-- **A run** of chunks. -/
theorem Told.run (h : Told self frames) (chunks : List StreamChunk) :
    Told (self.onChunks chunks).1 (frames ++ (self.onChunks chunks).2) := by
  induction chunks generalizing self frames with
  | nil =>
    rw [onChunks, List.append_nil]
    exact h
  | cons c chunks ih =>
    rw [onChunks, ← List.append_assoc]
    exact ih (h.step c)

/-- The closing frames: those of the text, those of every call, and the one of the response. -/
theorem finish_last (self : ResponseScaffold) (reason : FinishReason) (usage : Usage) :
    ∃ last, self.finish reason usage = (if self.textOpened then self.textDone else []) ++
        self.tools.ascending.flatMap (fun e => self.toolDone e.2) ++ [last] ∧
      typeOf last = some "response.done" ∧ wholeTexts last = self.output.filterMap itemText := by
  refine ⟨_, rfl, ?_, ?_⟩
  · simp [typeOf, get_obj, asStr]
  · simp [wholeTexts, itemsAt, path_cons, typeOf, get_obj, asStr, asArray]

theorem mem_filterMap_output {e : String × String} : e ∈ self.output.filterMap itemText ↔
    self.textOpened = true ∧ e = (self.itemId, self.text) ∨
      ∃ k tool, self.tools.lookup k = some tool ∧ e = (tool.itemId, tool.arguments) := by
  rw [filterMap_output, List.mem_append, List.mem_map]
  refine or_congr ?_ ⟨?_, ?_⟩
  · cases self.textOpened <;> simp
  · rintro ⟨⟨k, tool⟩, hmem, rfl⟩
    exact ⟨k, tool, HashMap.mem_pairs.mp (HashMap.mem_ascending.mp hmem), rfl⟩
  · rintro ⟨k, tool, hk, rfl⟩
    exact ⟨(k, tool), HashMap.mem_ascending.mpr (HashMap.mem_pairs.mpr hk), rfl⟩

/-- The texts of the closing frames are those of the output. -/
theorem wholeTexts_finish {reason : FinishReason} {usage : Usage} {frame : Value}
    (h : frame ∈ self.finish reason usage) {e : String × String} (he : e ∈ wholeTexts frame) :
    e ∈ self.output.filterMap itemText := by
  obtain ⟨last, hfinish, -, hlast⟩ := self.finish_last reason usage
  rw [hfinish, List.mem_append, List.mem_append, List.mem_flatMap, List.mem_singleton] at h
  rcases h with (h | ⟨⟨k, tool⟩, hmem, h⟩) | rfl
  · split at h
    · rename_i hopened
      rw [self.wholeTexts_textDone h, List.mem_singleton] at he
      exact mem_filterMap_output.mpr (.inl ⟨hopened, he⟩)
    · cases h
  · rw [self.wholeTexts_toolDone tool h, List.mem_singleton] at he
    exact mem_filterMap_output.mpr
      (.inr ⟨k, tool, HashMap.mem_pairs.mp (HashMap.mem_ascending.mp hmem), he⟩)
  · rwa [hlast] at he

/-- Every text of the output is the sum of the deltas of its item. -/
theorem Told.sum (h : Told self frames) {e : String × String}
    (he : e ∈ self.output.filterMap itemText) : e.2 = String.join (deltasOf e.1 frames) := by
  rcases mem_filterMap_output.mp he with ⟨-, rfl⟩ | ⟨k, tool, hk, rfl⟩
  · exact h.text
  · obtain ⟨hitem, hargs⟩ := h.calls k tool hk
    rw [hitem]
    exact hargs

/-- Every item with a delta is in the output. -/
theorem Told.covers (h : Told self frames) {d : String × String}
    (hd : d ∈ frames.filterMap delta) :
    (d.1, String.join (deltasOf d.1 frames)) ∈ self.output.filterMap itemText := by
  rw [mem_filterMap_output]
  rcases h.items d hd with ⟨hitem, hopened⟩ | ⟨k, hk, hitem⟩
  · rw [hitem, ← h.text]
    exact .inl ⟨hopened, rfl⟩
  · obtain ⟨tool, htool⟩ := HashMap.mem_iff_lookup.mp hk
    obtain ⟨hid, hargs⟩ := h.calls k tool htool
    rw [hitem, ← hargs, ← hid]
    exact .inr ⟨k, tool, htool, rfl⟩

/-- The text of an item is given whole before the response is closed. -/
theorem exists_done {reason : FinishReason} {usage : Usage} {e : String × String}
    (he : e ∈ self.output.filterMap itemText) {ty : String}
    (hty : ty = "response.output_item.done" ∨ ty = "response.done") :
    ∃ frame ∈ self.finish reason usage, typeOf frame = some ty ∧ e ∈ wholeTexts frame := by
  obtain ⟨last, hfinish, hlasttype, hlast⟩ := self.finish_last reason usage
  rw [hfinish]
  rcases hty with rfl | rfl
  · rcases mem_filterMap_output.mp he with ⟨hopened, rfl⟩ | ⟨k, tool, hk, rfl⟩
    · obtain ⟨frame, hmem, hframe⟩ : ∃ frame ∈ self.textDone,
          typeOf frame = some "response.output_item.done" := by
        simp [textDone, typeOf, get_obj, asStr]
      refine ⟨frame, ?_, hframe, by rw [self.wholeTexts_textDone hmem]; exact .head _⟩
      rw [if_pos hopened]
      exact List.mem_append_left _ (List.mem_append_left _ hmem)
    · obtain ⟨frame, hmem, hframe⟩ : ∃ frame ∈ self.toolDone tool,
          typeOf frame = some "response.output_item.done" := by
        simp [toolDone, typeOf, get_obj, asStr]
      refine ⟨frame, ?_, hframe, by rw [self.wholeTexts_toolDone tool hmem]; exact .head _⟩
      refine List.mem_append_left _ (List.mem_append_right _ (List.mem_flatMap.mpr ?_))
      exact ⟨(k, tool), HashMap.mem_ascending.mpr (HashMap.mem_pairs.mpr hk), hmem⟩
  · exact ⟨last, List.mem_append_right _ (.head _), hlasttype, by rw [hlast]; exact he⟩

/-! ## The turn -/

/-- **What a turn adds to the history**: nothing, or the collected turn. -/
theorem runTurn_persists (env : SessionEnv) (b : Bridge) (override : ResponseOverride)
    {items : List (Except ModelError StreamChunk)}
    (hitems : env.run b.turn (b.session.buildChatRequest override) = .ok items) {i : ℕ}
    (h : OfOneChoice i (readChunks items)) :
    let after := (b.runTurn env override).1.session.messages
    after = b.session.messages ∨
      ∃ m, after = b.session.messages ++ [m] ∧ IsTurnOf m (collectChunks (readChunks items)) := by
  intro after
  have hsent := Bridge.send_keeps env b
    (new ("resp_" ++ (b.requestId ++ "-t" ++ toString b.turn))
      ("msg_" ++ (b.requestId ++ "-t" ++ toString b.turn))).created
  subst after
  unfold Bridge.runTurn
  dsimp only
  split
  · rename_i b₁ hb
    rw [hb] at hsent
    exact .inl (by rw [hsent.session])
  · rename_i b₁ hb
    rw [hb] at hsent
    have hturn : b.turn = b₁.turn := congrArg (fun r => r.1.turn) hb
    have hrun : env.run b₁.turn (b.session.buildChatRequest override) = .ok items := by
      rw [← hturn]
      exact hitems
    rw [hrun]
    dsimp only
    generalize hb₂ : ({ b₁ with calls := b₁.calls ++ _ } : Bridge) = b₂
    have hsession : b₂.session = b.session := by
      rw [← hb₂]
      exact hsent.session
    have hkeep := Bridge.streamTurn_keeps env items b₂
      (new ("resp_" ++ (b.requestId ++ "-t" ++ toString b.turn))
        ("msg_" ++ (b.requestId ++ "-t" ++ toString b.turn))) .stop .zero
    have hscaffold := streamTurn_scaffold env items b₂
      (new ("resp_" ++ (b.requestId ++ "-t" ++ toString b.turn))
        ("msg_" ++ (b.requestId ++ "-t" ++ toString b.turn))) .stop .zero
    split
    · rename_i halive
      rw [(Bridge.sendAll_keeps env _ _).session]
      split
      · refine .inr ⟨_, by rw [hkeep.session, hsession], ?_⟩
        rw [hscaffold halive]
        have hrun := (keeps_new i ("resp_" ++ (b.requestId ++ "-t" ++ toString b.turn))
          ("msg_" ++ (b.requestId ++ "-t" ++ toString b.turn))).run h
        rw [zero_add] at hrun
        exact hrun.isTurnOf h
      · exact .inl (by rw [hkeep.session, hsession])
    · exact .inl (by rw [hkeep.session, hsession])

/-- **The bridge keeps step with the collector**: on every turn of a single choice the persisted
message is the collected turn, every text of a closing frame is the sum of the deltas of its item,
and every item with deltas is closed with its text. -/
theorem onChunks_faithful (responseId itemId : String) {i : ℕ} {chunks : List StreamChunk}
    (h : OfOneChoice i chunks) (reason : FinishReason) (usage : Usage) :
    let turn := (new responseId itemId).onChunks chunks
    let closing := turn.1.finish reason usage
    IsTurnOf turn.1.assistantMessage (collectChunks chunks) ∧
    (∀ frame ∈ closing, ∀ e ∈ wholeTexts frame, e.2 = String.join (deltasOf e.1 turn.2)) ∧
    ∀ d ∈ turn.2.filterMap delta, ∀ ty ∈ ["response.output_item.done", "response.done"],
      ∃ frame ∈ closing, typeOf frame = some ty ∧
        (d.1, String.join (deltasOf d.1 turn.2)) ∈ wholeTexts frame := by
  intro turn closing
  have hkeeps : Keeps i turn.1 (gathered i chunks) := by
    have hrun := (keeps_new i responseId itemId).run h
    rwa [zero_add] at hrun
  have htold : Told turn.1 turn.2 := (told_new responseId itemId).run chunks
  refine ⟨hkeeps.isTurnOf h, fun frame hframe e he => ?_, fun d hd ty hty => ?_⟩
  · exact htold.sum (wholeTexts_finish hframe he)
  · exact exists_done (htold.covers hd) (by simpa using hty)

/-- A turn that thinks, speaks and calls two tools, the second first. -/
theorem onChunks_faithful_calls :
    let chunks : List StreamChunk := [.start "id" "m", .thinking 0 "hm", .thinkingSignature 0 "s",
      .content 0 "a", .toolCall 0 ⟨1, some "c1", some "f", some "[1,"⟩, .content 0 "b",
      .toolCall 0 ⟨0, some "c0", some "g", none⟩, .toolCall 0 ⟨1, none, none, some "2]"⟩,
      .finish 0 .toolCalls]
    let turn := (new "resp_1" "msg_1").onChunks chunks
    IsTurnOf turn.1.assistantMessage (collectChunks chunks) ∧
      turn.1.assistantMessage.toolCalls = [⟨"c0", "g", ""⟩, ⟨"c1", "f", "[1,2]"⟩] ∧
      deltasOf "msg_1" turn.2 = ["a", "b"] :=
  ⟨(onChunks_faithful "resp_1" "msg_1" (i := 0) (by decide) .toolCalls .zero).1,
    by decide +kernel, by decide +kernel⟩

end ResponseScaffold

end Realtime

end Llmleaf
