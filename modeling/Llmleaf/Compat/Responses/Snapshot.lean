import Llmleaf.Compat.Responses.Live
import Llmleaf.Lib.Insertions

/-!
# The snapshot of a Responses stream and the collected response

Both render a choice: the encoder the one it has accumulated (`Accumulated.choice`), the
collected response that of `collectChunks`. They differ in nothing but the compactions.

- `Folded s col`: the encoder has accumulated what the collector has collected of choice 0.
- `plainItems_choice`: the items of an accumulated choice without its compactions.
- `items_live`, `items_collected`: the two output arrays, as insertions of the same compactions
  into the same items at different places.
- `terminal_eq_collected`: when the snapshot is the collected response.
-/

namespace Llmleaf.Responses

/-! ## What one chunk does to the items -/

namespace Live

theorem acc_extend (s : Live) (f : Run → Option Run) (new : Run) :
    (s.extend f new).acc = s.acc := by
  unfold extend
  split <;> rfl

/-- A kind of item that is neither continued nor begun stays as it is. -/
theorem filterMap_extend {β : Type*} {g : Run → Option β} {f : Run → Option Run} {new : Run}
    (hf : ∀ run run', f run = some run' → g run' = g run) (hnew : g new = none) (s : Live) :
    (s.extend f new).runs.filterMap g = s.runs.filterMap g := by
  unfold extend
  split
  · rename_i run' h
    obtain ⟨run, hcur, hrun⟩ := Option.bind_eq_some_iff.mp h
    simp [runs, hcur, List.filterMap_append, List.filterMap_cons, hf run run' hrun]
  · simp [runs, List.filterMap_append, hnew]

end Live

/-- The compaction of an item. -/
def Run.mark : Run → Option Mark
  | .compaction mark => some mark
  | _ => none

/-- The compactions among the items. -/
def marks (runs : List Run) : List Mark := runs.filterMap Run.mark

/-- The compaction that a chunk of choice 0 begins, after so many items. -/
def markOf (live : ℕ) : StreamChunk → Option Mark
  | .compaction outputIndex _ delta id encryptedContent signature =>
    some ⟨live, outputIndex, id, delta, encryptedContent, signature⟩
  | _ => none

theorem Run.mark_think {delta : String} (run run' : Run) (h : run.think delta = some run') :
    run'.mark = run.mark := by
  cases run <;> cases h
  rfl

theorem Run.mark_say {delta : String} (run run' : Run) (h : run.say delta = some run') :
    run'.mark = run.mark := by
  cases run <;> cases h
  rfl

theorem Run.mark_fragment {canon : ℕ} {acc : ToolCall} (run run' : Run)
    (h : run.fragment canon acc = some run') : run'.mark = run.mark := by
  unfold Run.fragment at h
  split at h
  · split at h
    · cases h
      rfl
    · cases h
  · cases h

/-- Only a compaction chunk adds a compaction. -/
theorem marks_take (s : Live) (c : StreamChunk) :
    marks (s.take c).runs = marks s.runs ++ (markOf s.runs.length c).toList := by
  cases c with
  | thinking index delta =>
    exact (Live.filterMap_extend Run.mark_think rfl _).trans (List.append_nil _).symm
  | content index delta =>
    exact (Live.filterMap_extend Run.mark_say rfl _).trans (List.append_nil _).symm
  | toolCall index call =>
    exact (Live.filterMap_extend Run.mark_fragment rfl _).trans (List.append_nil _).symm
  | thinkingSignature index signature =>
    have hsign (run : Run) : (run.sign signature).mark = run.mark := by cases run <;> rfl
    cases hc : s.cur <;> simp [marks, Live.take, Live.runs, Live.accumulate, markOf, hc, hsign,
      List.filterMap_append, List.filterMap_cons]
  | redactedThinking index data =>
    simp [marks, Live.take, Live.whole, Live.runs, Live.accumulate, markOf, Run.mark]
  | compaction outputIndex index delta id encryptedContent signature =>
    simp [marks, Live.take, Live.whole, Live.runs, Live.accumulate, markOf, Run.mark]
  | finish index reason => simp [marks, Live.take, Live.close, Live.runs, Live.accumulate, markOf]
  | _ => simp [Live.take, Live.accumulate, Live.runs, markOf]

/-! ## The two folds -/

namespace Mark

/-- The content that the collector gives a compaction. -/
def collectedContent (m : Mark) : Option String :=
  if m.encryptedContent.isNone && (m.id.isNone || m.delta != "") then some m.delta else none

/-- The part that the collector collects. -/
def collectedPart (m : Mark) : ContentPart :=
  .compaction m.outputIndex m.id m.collectedContent m.encryptedContent m.signature

end Mark

/-- What is accumulated with one more chunk of choice 0, after so many items. -/
def Accumulated.step (acc : Accumulated) (live : ℕ) : StreamChunk → Accumulated
  | .start _ _ => acc
  | .thinking _ delta => { acc with thinkText := acc.thinkText ++ delta }
  | .thinkingSignature _ signature => { acc with thinkSig := some signature }
  | .redactedThinking _ data => { acc with redacted := acc.redacted ++ [data] }
  | .compaction outputIndex _ delta id encryptedContent signature =>
    let mark : Mark := ⟨live, outputIndex, id, delta, encryptedContent, signature⟩
    { acc with compaction := acc.compaction ++ [mark.livePart] }
  | .outputItem _ message => { acc with orderedOutput := acc.orderedOutput ++ [message] }
  | .content _ delta => { acc with text := acc.text ++ delta }
  | .toolCall _ call =>
    { acc with tools := acc.tools.update call.index ⟨"", "", ""⟩ (Collected.addFragment call) }
  | .usage u => { acc with usage := u }
  | .finish _ reason => { acc with finish := some reason }

theorem Live.acc_take (s : Live) (c : StreamChunk) :
    (s.take c).acc = s.acc.step s.runs.length c := by
  cases c with
  | thinking | content | toolCall => exact Live.acc_extend _ _ _
  | _ => rfl

/-- The encoder has accumulated what the collector has collected of choice 0, apart from what each
makes of a compaction. -/
structure Folded (acc : Accumulated) (slot : Slot) (ms : List Mark) : Prop where
  text : acc.text = slot.text.getD ""
  thinking : (acc.thinkText, acc.thinkSig) = slot.thinking.getD ("", none)
  redacted : acc.redacted = slot.redacted.getD []
  output : acc.orderedOutput = slot.output.getD []
  calls : ∀ k, acc.tools.lookup k = slot.calls k
  finish : acc.finish = slot.finish
  live : acc.compaction = ms.map Mark.livePart
  collected : slot.compaction.getD [] = ms.map Mark.collectedPart

theorem Folded.step {acc : Accumulated} {slot : Slot} {ms : List Mark} (h : Folded acc slot ms)
    (live : ℕ) (c : StreamChunk) :
    Folded (acc.step live c) (slot.step c) (ms ++ (markOf live c).toList) := by
  obtain ⟨ht, hth, hr, ho, hcalls, hf, hl, hcol⟩ := h
  have hnil : ms ++ ([] : List Mark) = ms := List.append_nil ms
  cases c with
  | start | usage => exact ⟨ht, hth, hr, ho, hcalls, hf, hnil.symm ▸ hl, hnil.symm ▸ hcol⟩
  | toolCall index call =>
    refine ⟨ht, hth, hr, ho, fun k => ?_, hf, hnil.symm ▸ hl, hnil.symm ▸ hcol⟩
    simp only [Accumulated.step, Slot.step, HashMap.lookup_update, Function.update_apply, hcalls]
  | thinking index delta =>
    refine ⟨ht, ?_, hr, ho, hcalls, hf, hnil.symm ▸ hl, hnil.symm ▸ hcol⟩
    simp only [Accumulated.step, Slot.step, ← hth, Option.getD_some]
  | thinkingSignature index signature =>
    refine ⟨ht, ?_, hr, ho, hcalls, hf, hnil.symm ▸ hl, hnil.symm ▸ hcol⟩
    simp only [Accumulated.step, Slot.step, ← hth, Option.getD_some]
  | redactedThinking index data =>
    refine ⟨ht, hth, ?_, ho, hcalls, hf, hnil.symm ▸ hl, hnil.symm ▸ hcol⟩
    simp only [Accumulated.step, Slot.step, hr, Option.getD_some]
  | outputItem index message =>
    refine ⟨ht, hth, hr, ?_, hcalls, hf, hnil.symm ▸ hl, hnil.symm ▸ hcol⟩
    simp only [Accumulated.step, Slot.step, ho, Option.getD_some]
  | content index delta =>
    refine ⟨?_, hth, hr, ho, hcalls, hf, hnil.symm ▸ hl, hnil.symm ▸ hcol⟩
    simp only [Accumulated.step, Slot.step, ht, Option.getD_some]
  | finish index reason => exact ⟨ht, hth, hr, ho, hcalls, rfl, hnil.symm ▸ hl, hnil.symm ▸ hcol⟩
  | compaction outputIndex index delta id encryptedContent signature =>
    refine ⟨ht, hth, hr, ho, hcalls, hf, ?_, ?_⟩
    · simp [Accumulated.step, markOf, hl]
    · simp [Slot.step, markOf, hcol, Mark.collectedPart, Mark.collectedContent, Slot.compactionPart]

theorem slot_step (col : Collected) (c : StreamChunk) :
    (col.step c).slot 0 = if c.index.getD 0 = 0 then (col.slot 0).step c else col.slot 0 := by
  cases hi : c.index with
  | none =>
    rw [Collected.slot_step_other col 0 c (by simp [hi]), Option.getD_none, if_pos rfl]
    cases c <;> first | rfl | cases hi
  | some i =>
    rw [Option.getD_some]
    by_cases h0 : i = 0
    · rw [Collected.slot_step_same col 0 c (by rw [hi, h0]), if_pos h0]
    · rw [Collected.slot_step_other col 0 c (by simp [hi, h0]), if_neg h0]

/-- The chunks of choice 0, folded on both sides. -/
theorem folded_live (chunks : List StreamChunk) :
    Folded (live chunks).acc ((chunks.foldl Collected.step .empty).slot 0)
      (marks (live chunks).runs) := by
  induction chunks using List.reverseRecOn with
  | nil => exact ⟨rfl, rfl, rfl, rfl, fun _ => rfl, rfl, rfl, rfl⟩
  | append_singleton chunks c ih =>
    rw [live, List.foldl_concat, List.foldl_concat, slot_step, ← live, Live.step]
    by_cases hc : c.index.getD 0 = 0
    · rw [if_pos hc, if_pos hc, Live.acc_take, marks_take]
      exact ih.step _ c
    · rw [if_neg hc, if_neg hc]
      exact ih

/-- The two choices differ in nothing but the compaction parts. -/
theorem choice_live (chunks : List StreamChunk) :
    (live chunks).acc.choice =
      { (chunks.foldl Collected.step .empty).choice 0 with
        compaction := (marks (live chunks).runs).map Mark.livePart } := by
  obtain ⟨ht, hth, hr, ho, hcalls, hf, hl, -⟩ := folded_live chunks
  generalize chunks.foldl Collected.step .empty = col at *
  have hthinking : (live chunks).acc.choice.thinking = (col.choice 0).thinking := by
    simp only [Accumulated.choice, Collected.choice, Collected.thinkingParts, hr]
    simp only [Collected.slot] at hth ⊢
    cases hlookup : col.thinkings.lookup 0 with
    | none =>
      rw [hlookup, Option.getD_none, Prod.mk.injEq] at hth
      simp [hth.1, hth.2]
    | some thinking =>
      rw [hlookup, Option.getD_some] at hth
      simp [← hth]
  have htools : (live chunks).acc.tools.ascending =
      ((col.tools.lookup 0).getD ∅).ascending := HashMap.ascending_congr fun k => by
    rw [hcalls, Collected.lookup_calls]
  simp only [Accumulated.choice, Collected.choice, ht, ho, hf, hl, htools] at hthinking ⊢
  rw [hthinking]
  rfl

/-! ## The items without their compactions -/

/-- The items of runs that stand at the positions from 0 on. -/
def numbered (requestId : String) (runs : List Run) : List Item := runs.mapIdx (Run.item requestId)

theorem numbered_concat (requestId : String) (runs : List Run) (run : Run) :
    numbered requestId (runs ++ [run]) =
      numbered requestId runs ++ [run.item requestId runs.length] := List.mapIdx_concat

theorem length_numbered (requestId : String) (runs : List Run) :
    (numbered requestId runs).length = runs.length := List.length_mapIdx

/-- The items of what is accumulated, without the compactions: the reasoning, the redacted
reasoning, the message, the calls. -/
def Accumulated.plainRuns (acc : Accumulated) : List Run :=
  (if acc.thinkText ≠ "" ∨ acc.thinkSig.isSome then [.reasoning acc.thinkText acc.thinkSig]
    else []) ++ acc.redacted.map .redacted ++
    (if acc.text = "" then [] else [.message acc.text]) ++
    acc.tools.ascending.map fun e => .call e.1 e.2

theorem foldl_redacted (requestId : String) (runs : List Run) (datas : List String) :
    (datas.map ContentPart.redactedThinking).foldl (reasoningStep requestId)
        (numbered requestId runs, []) =
      (numbered requestId (runs ++ datas.map .redacted), []) := by
  induction datas generalizing runs with
  | nil => simp
  | cons data datas ih =>
    have hstep : reasoningStep requestId (numbered requestId runs, []) (.redactedThinking data) =
        (numbered requestId (runs ++ [.redacted data]), []) := by
      rw [numbered_concat]
      simp [reasoningStep, flushReasoning, length_numbered, Run.item]
    rw [List.map_cons, List.foldl_cons, hstep, ih]
    simp

/-- Reasoning and redacted reasoning. -/
theorem reasoningItems_choice (requestId : String) (acc : Accumulated) :
    reasoningItems requestId acc.choice.thinking =
      numbered requestId ((if acc.thinkText ≠ "" ∨ acc.thinkSig.isSome then
        [.reasoning acc.thinkText acc.thinkSig] else []) ++ acc.redacted.map .redacted) := by
  have hfold (thinking : List ContentPart) {runs : List Run} (h : thinking.foldl
      (reasoningStep requestId) ([], []) = (numbered requestId runs, [])) :
      reasoningItems requestId thinking = numbered requestId runs := by
    simp [reasoningItems, h, flushReasoning]
  simp only [Accumulated.choice]
  split
  · cases hsig : acc.thinkSig with
    | some signature =>
      refine hfold _ ?_
      rw [List.foldl_append]
      exact foldl_redacted requestId [.reasoning acc.thinkText (some signature)] acc.redacted
    | none =>
      -- unsigned text is flushed by the first redacted block, or at the end
      cases hred : acc.redacted with
      | nil => rfl
      | cons data datas =>
        refine hfold _ ?_
        rw [List.foldl_append]
        exact foldl_redacted requestId [.reasoning acc.thinkText none, .redacted data] datas
  · exact hfold _ (foldl_redacted requestId [] acc.redacted)

theorem foldl_pushCall (requestId : String) (runs : List Run) (calls : List (ℕ × ToolCall)) :
    (calls.map Prod.snd).foldl (pushCall requestId) (numbered requestId runs) =
      numbered requestId (runs ++ calls.map fun e => .call e.1 e.2) := by
  induction calls generalizing runs with
  | nil => simp
  | cons e calls ih =>
    have hstep : pushCall requestId (numbered requestId runs) e.2 =
        numbered requestId (runs ++ [.call e.1 e.2]) := by
      rw [numbered_concat, pushCall, length_numbered]
      rfl
    rw [List.map_cons, List.foldl_cons, hstep, ih]
    simp

/-- The items of an accumulated choice, before its compactions are put in place. -/
theorem plainItems_choice (requestId : String) (acc : Accumulated) :
    plainItems requestId acc.choice = numbered requestId acc.plainRuns := by
  have htext (runs : List Run) :
      (if acc.choice.text = "" then numbered requestId runs
        else numbered requestId runs ++
          [.message (itemId "msg" requestId (numbered requestId runs).length) "completed"
            [acc.choice.text]]) =
      numbered requestId (runs ++ if acc.text = "" then [] else [.message acc.text]) := by
    rw [show acc.choice.text = acc.text from rfl]
    split
    · rw [List.append_nil]
    · rw [numbered_concat, length_numbered]
      rfl
  simp only [plainItems]
  rw [reasoningItems_choice, htext]
  exact foldl_pushCall ..

/-! ## Counting the items -/

/-- Some reasoning text, or a signature. -/
def reasons : StreamChunk → Bool
  | .thinking _ delta => delta != ""
  | .thinkingSignature _ _ => true
  | _ => false

/-- A redacted reasoning block. -/
def redacts : StreamChunk → Bool
  | .redactedThinking _ _ => true
  | _ => false

/-- Some visible text. -/
def speaks : StreamChunk → Bool
  | .content _ delta => delta != ""
  | _ => false

/-- The number of reasoning items of a stream. -/
def leadingCount (chunks : List StreamChunk) : ℕ :=
  (if (ofChoice 0 chunks).any reasons then 1 else 0) + (ofChoice 0 chunks).countP redacts

/-- The number of items of a stream besides compactions: the reasoning items, a message if there
is any text, an item for each call index. -/
def plainCount (chunks : List StreamChunk) : ℕ :=
  leadingCount chunks + (if (ofChoice 0 chunks).any speaks then 1 else 0) +
    ((ofChoice 0 chunks).filterMap StreamChunk.callIndex).dedup.length

theorem text_foldl (l : List StreamChunk) (slot : Slot) :
    ((l.foldl Slot.step slot).text.getD "" ≠ "" ↔
      slot.text.getD "" ≠ "" ∨ l.any speaks = true) := by
  induction l generalizing slot with
  | nil => simp
  | cons c l ih =>
    rw [List.foldl_cons, ih, List.any_cons, Bool.or_eq_true, ← or_assoc]
    refine or_congr_left ?_
    cases c with
    | content index delta => simp [Slot.step, speaks, imp_iff_not_or]
    | _ => simp [Slot.step, speaks]

theorem thinking_foldl (l : List StreamChunk) (slot : Slot) :
    (((l.foldl Slot.step slot).thinking.getD ("", none)).1 ≠ "" ∨
        ((l.foldl Slot.step slot).thinking.getD ("", none)).2.isSome) ↔
      ((slot.thinking.getD ("", none)).1 ≠ "" ∨ (slot.thinking.getD ("", none)).2.isSome) ∨
        l.any reasons = true := by
  induction l generalizing slot with
  | nil => simp
  | cons c l ih =>
    rw [List.foldl_cons, ih, List.any_cons, Bool.or_eq_true, ← or_assoc]
    refine or_congr_left ?_
    cases c with
    | thinking index delta => simp [Slot.step, reasons, imp_iff_not_or, or_right_comm]
    | thinkingSignature index signature => simp [Slot.step, reasons]
    | _ => simp [Slot.step, reasons]

theorem redacted_foldl (l : List StreamChunk) (slot : Slot) :
    ((l.foldl Slot.step slot).redacted.getD []).length =
      (slot.redacted.getD []).length + l.countP redacts := by
  induction l generalizing slot with
  | nil => simp
  | cons c l ih =>
    rw [List.foldl_cons, ih, List.countP_cons]
    cases c with
    | redactedThinking index data => simp [Slot.step, redacts]; omega
    | _ => simp [Slot.step, redacts]

theorem calls_foldl (l : List StreamChunk) (slot : Slot) (k : ℕ) :
    ((l.foldl Slot.step slot).calls k).isSome ↔
      (slot.calls k).isSome ∨ k ∈ l.filterMap StreamChunk.callIndex := by
  induction l generalizing slot with
  | nil => simp
  | cons c l ih =>
    rw [List.foldl_cons, ih]
    cases c with
    | toolCall index call =>
      by_cases hk : k = call.index
      · simp [Slot.step, StreamChunk.callIndex, hk]
      · simp [Slot.step, StreamChunk.callIndex, hk]
    | _ => simp [Slot.step, StreamChunk.callIndex]

/-- The slot of choice 0 is folded from its chunks. -/
theorem slot_chunks (chunks : List StreamChunk) :
    (chunks.foldl Collected.step .empty).slot 0 = (ofChoice 0 chunks).foldl Slot.step .empty :=
  Collected.slot_foldl chunks .empty 0

theorem reasons_live (chunks : List StreamChunk) :
    (live chunks).acc.thinkText ≠ "" ∨ (live chunks).acc.thinkSig.isSome ↔
      (ofChoice 0 chunks).any reasons = true := by
  have hth := (folded_live chunks).thinking
  have hfold := thinking_foldl (ofChoice 0 chunks) .empty
  rw [← slot_chunks, ← hth] at hfold
  simpa [Slot.empty] using hfold

theorem speaks_live (chunks : List StreamChunk) :
    (live chunks).acc.text ≠ "" ↔ (ofChoice 0 chunks).any speaks = true := by
  have hfold := text_foldl (ofChoice 0 chunks) .empty
  rw [← slot_chunks, ← (folded_live chunks).text] at hfold
  simpa [Slot.empty] using hfold

theorem output_live (chunks : List StreamChunk) :
    (live chunks).acc.choice.output = outputMessages 0 chunks := by
  have hfold := output_foldl (ofChoice 0 chunks) .empty
  rw [← slot_chunks, ← (folded_live chunks).output] at hfold
  exact hfold

theorem redacted_live (chunks : List StreamChunk) :
    (live chunks).acc.redacted.length = (ofChoice 0 chunks).countP redacts := by
  have hfold := redacted_foldl (ofChoice 0 chunks) .empty
  rw [← slot_chunks, ← (folded_live chunks).redacted] at hfold
  simpa [Slot.empty] using hfold

theorem mem_tools_live (chunks : List StreamChunk) (k : ℕ) :
    k ∈ (live chunks).acc.tools ↔ k ∈ (ofChoice 0 chunks).filterMap StreamChunk.callIndex := by
  have hfold := calls_foldl (ofChoice 0 chunks) .empty k
  rw [← slot_chunks, ← (folded_live chunks).calls, AList.lookup_isSome] at hfold
  simpa [Slot.empty] using hfold

theorem calls_length (chunks : List StreamChunk) :
    (live chunks).acc.tools.ascending.length =
      ((ofChoice 0 chunks).filterMap StreamChunk.callIndex).dedup.length := by
  have hperm := HashMap.ascending_keys_perm (m := (live chunks).acc.tools)
    (List.nodup_dedup ((ofChoice 0 chunks).filterMap StreamChunk.callIndex)) fun k => by
      rw [mem_tools_live, List.mem_dedup]
  simpa using hperm.length_eq

/-- The leading reasoning items. -/
def leading (items : List Item) : ℕ :=
  (items.takeWhile fun item => item.kind = "reasoning").length

theorem leading_append {a b : List Item} (ha : ∀ item ∈ a, item.kind = "reasoning")
    (hb : ∀ item ∈ b, item.kind ≠ "reasoning") : leading (a ++ b) = a.length := by
  have hnil : (b.takeWhile fun item => item.kind = "reasoning") = [] := by
    cases b with
    | nil => rfl
    | cons item b => simp [hb item (by simp)]
  rw [leading, List.takeWhile_append_of_pos (by simpa using ha), hnil, List.append_nil]

theorem exists_of_mem_mapIdx {f : ℕ → Run → Item} {runs : List Run} {item : Item}
    (h : item ∈ runs.mapIdx f) : ∃ run ∈ runs, ∃ i, item = f i run := by
  obtain ⟨i, hi, rfl⟩ := List.mem_mapIdx.mp h
  exact ⟨_, List.getElem_mem hi, i, rfl⟩

theorem leading_plainRuns (requestId : String) (chunks : List StreamChunk) :
    leading (numbered requestId (live chunks).acc.plainRuns) = leadingCount chunks := by
  have hred := redacted_live chunks
  have hreasons := reasons_live chunks
  generalize (live chunks).acc = acc at *
  rw [Accumulated.plainRuns, List.append_assoc, numbered, List.mapIdx_append, leading_append]
  · rw [List.length_mapIdx, List.length_append, List.length_map, hred, leadingCount]
    simp only [← hreasons]
    split <;> rfl
  · intro item hitem
    obtain ⟨run, hrun, i, rfl⟩ := exists_of_mem_mapIdx hitem
    rcases List.mem_append.mp hrun with hrun | hrun
    · split at hrun
      · rw [List.mem_singleton.mp hrun]
        rfl
      · cases hrun
    · obtain ⟨data, -, rfl⟩ := List.mem_map.mp hrun
      rfl
  · intro item hitem
    obtain ⟨run, hrun, i, rfl⟩ := exists_of_mem_mapIdx hitem
    rcases List.mem_append.mp hrun with hrun | hrun
    · split at hrun
      · cases hrun
      · rw [List.mem_singleton.mp hrun]
        simp [Run.item, Item.kind]
    · obtain ⟨e, -, rfl⟩ := List.mem_map.mp hrun
      simp [Run.item, Item.kind]

theorem length_plainRuns (chunks : List StreamChunk) :
    (live chunks).acc.plainRuns.length = plainCount chunks := by
  have hred := redacted_live chunks
  have hreasons := reasons_live chunks
  have hspeaks := speaks_live chunks
  have hcalls := calls_length chunks
  generalize (live chunks).acc = acc at *
  simp only [Accumulated.plainRuns, plainCount, leadingCount, List.length_append, List.length_map,
    hred, hcalls, ← hreasons, ← hspeaks, ite_not]
  split <;> split <;> rfl

theorem mark_plainRuns {acc : Accumulated} {run : Run} (h : run ∈ acc.plainRuns) :
    run.mark = none := by
  simp only [Accumulated.plainRuns, List.mem_append, List.mem_map, or_assoc] at h
  rcases h with h | ⟨data, -, rfl⟩ | h | ⟨e, -, rfl⟩
  · split at h
    · rw [List.mem_singleton.mp h]
      rfl
    · cases h
  · rfl
  · split at h
    · cases h
    · rw [List.mem_singleton.mp h]
      rfl
  · rfl

theorem Run.kind_item {requestId : String} (run : Run) (i : ℕ) (h : run.mark = none) :
    (run.item requestId i).kind ≠ "compaction" := by
  cases run <;> simp_all [Run.item, Run.mark, Item.kind]

/-! ## Putting the compactions in place -/

open Insertions

/-- The item of a compaction at an index. -/
def Mark.item (requestId : String) (content : Mark → Option String) (index : ℕ) (m : Mark) : Item :=
  .compaction (m.id.getD (itemId "cmp" requestId index)) m.encryptedContent (content m) m.signature

/-- Where the encoder puts a compaction. -/
def livePlace (_ : List Item) (m : Mark) : ℕ := m.outputIndex.getD m.live

/-- Where the collected response has a compaction. -/
def collectedPlace (items : List Item) (m : Mark) : ℕ := m.outputIndex.getD (leading items)

theorem foldl_livePart (requestId : String) (base : List Item) (ms : List Mark) :
    (ms.map Mark.livePart).foldl (insertCompaction requestId) base =
      insertAll livePlace (Mark.item requestId Mark.content) base ms := by
  have hone (items : List Item) (m : Mark) : insertCompaction requestId items m.livePart =
      insertOne livePlace (Mark.item requestId Mark.content) items m := by
    cases ho : m.outputIndex <;>
      simp [insertCompaction, Mark.livePart, insertOne, placeAt, livePlace, Mark.item, ho]
  rw [List.foldl_map, insertAll]
  exact List.foldl_ext _ _ _ fun items m _ => hone items m

theorem foldl_collectedPart (requestId : String) (base : List Item) (ms : List Mark) :
    (ms.map Mark.collectedPart).foldl (insertCompaction requestId) base =
      insertAll collectedPlace (Mark.item requestId Mark.collectedContent) base ms := by
  rw [List.foldl_map, insertAll]
  rfl

/-- The two output arrays of what is accumulated and collected: the same compactions in the same
items. -/
theorem outputItems_live (requestId : String) (chunks : List StreamChunk) :
    outputItems requestId (live chunks).acc.choice = renumber requestId
      (insertAll livePlace (Mark.item requestId Mark.content)
        (numbered requestId (live chunks).acc.plainRuns) (marks (live chunks).runs)) := by
  have hlive := (folded_live chunks).live
  rw [outputItems, plainItems_choice, ← foldl_livePart, ← hlive]
  rfl

theorem outputItems_collected (requestId : String) (chunks : List StreamChunk) :
    outputItems requestId ((chunks.foldl Collected.step .empty).choice 0) = renumber requestId
      (insertAll collectedPlace (Mark.item requestId Mark.collectedContent)
        (numbered requestId (live chunks).acc.plainRuns) (marks (live chunks).runs)) := by
  have hcol : ((chunks.foldl Collected.step .empty).choice 0).compaction =
    (marks (live chunks).runs).map Mark.collectedPart := (folded_live chunks).collected
  have hplain : plainItems requestId ((chunks.foldl Collected.step .empty).choice 0) =
      plainItems requestId (live chunks).acc.choice := by
    rw [choice_live]
    rfl
  rw [outputItems, hcol, hplain, plainItems_choice, foldl_collectedPart]

/-- An item without an id that reflects its position. -/
def Item.bare (item : Item) : Item := if item.idPrefix.isSome then item.setId "" else item

theorem Item.kind_bare (item : Item) : item.bare.kind = item.kind := by
  cases item <;> rfl

theorem Item.bare_setId (item : Item) (id : String) (h : item.idPrefix.isSome) :
    (item.setId id).bare = item.bare := by
  cases item <;> first | rfl | cases h

/-- The ids say nothing but the positions. -/
theorem map_bare_renumber (requestId : String) (items : List Item) :
    (renumber requestId items).map Item.bare = items.map Item.bare := by
  induction items using List.reverseRecOn with
  | nil => rfl
  | append_singleton items item ih =>
    rw [renumber, List.mapIdx_concat, ← renumber, List.map_append, ih, List.map_append]
    refine congrArg _ (congrArg (fun item => [item]) ?_)
    split
    · rename_i kind h
      exact item.bare_setId _ (by rw [h]; rfl)
    · rfl

theorem leading_map_bare (items : List Item) : leading (items.map Item.bare) = leading items := by
  simp only [leading, List.takeWhile_map, List.length_map, Function.comp_def, Item.kind_bare]

theorem leading_le (items : List Item) : leading items ≤ items.length :=
  (List.takeWhile_sublist _).length_le

theorem leading_insertIdx {items : List Item} {item : Item} (hitem : item.kind ≠ "reasoning")
    {i : ℕ} (hi : i ≤ items.length) :
    leading (items.insertIdx i item) = min i (leading items) :=
  takeWhile_insertIdx (by simpa using hitem) hi

/-- The reasoning items that lead the array after some compactions have been put in place. -/
theorem leading_insertAll (requestId : String) (base : List Item) (ms : List Mark) :
    leading (insertAll collectedPlace (Mark.item requestId Mark.collectedContent) base ms) =
      (ms.filterMap Mark.outputIndex).foldl min (leading base) := by
  induction ms using List.reverseRecOn with
  | nil => rfl
  | append_singleton ms m ih =>
    rw [insertAll_snoc, insertOne, leading_insertIdx (by simp [Mark.item, Item.kind])
      (placeAt_le _ _), List.filterMap_append, List.foldl_append, ← ih]
    generalize insertAll collectedPlace (Mark.item requestId Mark.collectedContent) base ms = items
    have hle := leading_le items
    cases ho : m.outputIndex <;> simp [placeAt, collectedPlace, ho] <;> omega

/-! ## When the two are the same -/

namespace Mark

/-- Both sides give the compaction the same content: none if it is encrypted, and some text if it
is neither encrypted nor named. -/
def Plain (m : Mark) : Prop :=
  (m.encryptedContent ≠ none → m.delta = "") ∧
    (m.encryptedContent = none → m.id = none → m.delta ≠ "")

theorem content_eq_iff (m : Mark) : m.content = m.collectedContent ↔ m.Plain := by
  unfold content collectedContent Plain
  by_cases hd : m.delta = "" <;> cases m.encryptedContent <;> cases m.id <;> simp [hd]

/-- Two compactions differ, wherever they are put. -/
def Apart (a b : Mark) : Prop :=
  a.encryptedContent ≠ b.encryptedContent ∨ a.delta ≠ b.delta ∨ a.signature ≠ b.signature ∨
    ∃ x y, a.id = some x ∧ b.id = some y ∧ x ≠ y

theorem content_injective {a b : Mark} (h : a.content = b.content) : a.delta = b.delta := by
  unfold content at h
  split at h <;> split at h <;> simp_all

end Mark

/-- Every compaction without an output index comes where the reasoning items that lead the array
end: after so many items of the stream as lead it then. -/
def PlacesAgree (lead size : ℕ) (ms : List Mark) : Prop :=
  ∀ l m r, ms = l ++ m :: r → m.outputIndex = none →
    min m.live (size + l.length) = (l.filterMap Mark.outputIndex).foldl min lead

theorem samePlaces_iff (requestId : String) (base : List Item) (ms : List Mark) :
    SamePlaces livePlace collectedPlace (Mark.item requestId Mark.content)
      (Mark.item requestId Mark.collectedContent) base ms ↔
    PlacesAgree (leading base) base.length ms ∧ ∀ m ∈ ms, m.Plain := by
  have hitem (m : Mark) (i : ℕ) : m.item requestId Mark.content i =
      m.item requestId Mark.collectedContent i ↔ m.Plain := by
    simp [Mark.item, ← Mark.content_eq_iff]
  have hplace (l : List Mark) (m : Mark) :
      placeAt livePlace (insertAll collectedPlace (Mark.item requestId Mark.collectedContent)
        base l) m = placeAt collectedPlace (insertAll collectedPlace
          (Mark.item requestId Mark.collectedContent) base l) m ↔
      (m.outputIndex = none →
        min m.live (base.length + l.length) =
          (l.filterMap Mark.outputIndex).foldl min (leading base)) := by
    rw [← leading_insertAll requestId, ← length_insertAll collectedPlace
      (Mark.item requestId Mark.collectedContent)]
    generalize insertAll collectedPlace (Mark.item requestId Mark.collectedContent) base l = items
    have hle := leading_le items
    cases ho : m.outputIndex with
    | none => simp [placeAt, livePlace, collectedPlace, ho, Nat.min_eq_left hle]
    | some i => simp [placeAt, livePlace, collectedPlace, ho]
  constructor
  · intro h
    refine ⟨fun l m r e => (hplace l m).mp (h l m r e).1, fun m hm => ?_⟩
    obtain ⟨l, r, e⟩ := List.append_of_mem hm
    exact (hitem m _).mp (h l m r e).2
  · rintro ⟨hplaces, hplain⟩ l m r e
    have hm : m ∈ ms := by simp [e]
    exact ⟨(hplace l m).mpr (hplaces l m r e), (hitem m _).mpr (hplain m hm)⟩

/-- The same array gives every compaction the same content on both sides. -/
theorem plain_of_insertAll_eq {requestId : String} {base : List Item} {ms : List Mark}
    (hbase : ∀ item ∈ base, item.kind ≠ "compaction")
    (h : insertAll livePlace (Mark.item requestId Mark.content) base ms =
      insertAll collectedPlace (Mark.item requestId Mark.collectedContent) base ms) :
    ∀ m ∈ ms, m.Plain := by
  intro m hm
  constructor
  · intro henc
    obtain ⟨i, hi⟩ := exists_mem_insertAll livePlace (Mark.item requestId Mark.content) base hm
    rw [h] at hi
    rcases mem_insertAll hi with hi | ⟨m', -, j, hj⟩
    · exact absurd rfl (hbase _ hi)
    · simp only [Mark.item, Item.compaction.injEq] at hj
      obtain ⟨-, henc', hcontent, -⟩ := hj
      rw [henc'] at henc
      have hnone : m'.collectedContent = none := by
        simp [Mark.collectedContent, Option.isNone_iff_eq_none, henc]
      rw [hnone, Mark.content] at hcontent
      by_contra hd
      rw [if_neg hd] at hcontent
      cases hcontent
  · intro henc hid hd
    obtain ⟨i, hi⟩ := exists_mem_insertAll collectedPlace
      (Mark.item requestId Mark.collectedContent) base hm
    rw [← h] at hi
    rcases mem_insertAll hi with hi | ⟨m', -, j, hj⟩
    · exact absurd rfl (hbase _ hi)
    · simp only [Mark.item, Item.compaction.injEq] at hj
      obtain ⟨-, -, hcontent, -⟩ := hj
      simp only [Mark.collectedContent, henc, hid, hd, Mark.content] at hcontent
      split at hcontent
      · simp at hcontent
      · rename_i hne
        exact hne (by simp)

/-- Compactions of which no two are equal are told apart in the array. -/
theorem pairwise_item_ne {requestId : String} {ms : List Mark} (hplain : ∀ m ∈ ms, m.Plain)
    (hapart : ms.Pairwise Mark.Apart) : ms.Pairwise fun m m' => ∀ i j,
      m.item requestId Mark.content i ≠ m'.item requestId Mark.collectedContent j := by
  refine hapart.imp_of_mem fun {m m'} _ hm' hne i j hitem => ?_
  simp only [Mark.item, Item.compaction.injEq, ← m'.content_eq_iff.mpr (hplain m' hm')] at hitem
  obtain ⟨hid, henc, hcontent, hsig⟩ := hitem
  rcases hne with h | h | h | ⟨x, y, hx, hy, hxy⟩
  · exact h henc
  · exact h (Mark.content_injective hcontent)
  · exact h hsig
  · rw [hx, hy] at hid
    exact hxy hid

/-- The compactions of a stream, each with the number of items that were begun before it. -/
def compactions (chunks : List StreamChunk) : List Mark := marks (live chunks).runs

/-- What the stream gives the encoder and the collector alike: whole messages, which stand for all
items; or compactions of the same content at the same places. -/
def Alike (chunks : List StreamChunk) : Prop :=
  outputMessages 0 chunks ≠ [] ∨
    PlacesAgree (leadingCount chunks) (plainCount chunks) (compactions chunks) ∧
      ∀ m ∈ compactions chunks, m.Plain

theorem outputItems_eq_of_alike (requestId : String) {chunks : List StreamChunk}
    (h : PlacesAgree (leadingCount chunks) (plainCount chunks) (compactions chunks) ∧
      ∀ m ∈ compactions chunks, m.Plain) :
    outputItems requestId (live chunks).acc.choice =
      outputItems requestId ((chunks.foldl Collected.step .empty).choice 0) := by
  rw [outputItems_live, outputItems_collected]
  refine congrArg _ (SamePlaces.insertAll_eq ((samePlaces_iff requestId _ _).mpr ?_))
  rw [leading_plainRuns, length_numbered, length_plainRuns]
  exact h

theorem alike_of_outputItems_eq {requestId : String} {chunks : List StreamChunk}
    (hapart : (compactions chunks).Pairwise Mark.Apart)
    (h : outputItems requestId (live chunks).acc.choice =
      outputItems requestId ((chunks.foldl Collected.step .empty).choice 0)) :
    PlacesAgree (leadingCount chunks) (plainCount chunks) (compactions chunks) ∧
      ∀ m ∈ compactions chunks, m.Plain := by
  rw [outputItems_live, outputItems_collected] at h
  have hbare := congrArg (List.map Item.bare) h
  have helt (content : Mark → Option String) (i : ℕ) (m : Mark) :
      (m.item requestId content i).bare = m.item requestId content i := rfl
  have hlive (l : List Item) (m : Mark) : livePlace (l.map Item.bare) m = livePlace l m := rfl
  have hlead (l : List Item) (m : Mark) :
      collectedPlace (l.map Item.bare) m = collectedPlace l m := by
    rw [collectedPlace, collectedPlace, leading_map_bare]
  rw [map_bare_renumber, map_bare_renumber, map_insertAll hlive (helt _),
    map_insertAll hlead (helt _)] at hbare
  have hbase : ∀ item ∈ (numbered requestId (live chunks).acc.plainRuns).map Item.bare,
      item.kind ≠ "compaction" := by
    intro item hitem
    obtain ⟨plain, hplain, rfl⟩ := List.mem_map.mp hitem
    obtain ⟨run, hrun, i, rfl⟩ := exists_of_mem_mapIdx hplain
    rw [Item.kind_bare]
    exact run.kind_item i (mark_plainRuns hrun)
  have hplain := plain_of_insertAll_eq hbase hbare
  have hnew : ∀ m ∈ marks (live chunks).runs, ∀ i, m.item requestId Mark.collectedContent i ∉
      (numbered requestId (live chunks).acc.plainRuns).map Item.bare :=
    fun m _ i hmem => hbase _ hmem rfl
  have hsame := samePlaces_of_insertAll_eq hnew (pairwise_item_ne hplain hapart) hbare
  rw [samePlaces_iff, leading_map_bare, List.length_map, leading_plainRuns, length_numbered,
    length_plainRuns] at hsame
  exact hsame

/-! ## The answers -/

theorem usage_live (chunks : List StreamChunk) :
    (live chunks).acc.usage = (chunks.foldl Collected.step .empty).usage := by
  have hlive : (chunks.foldl Live.step .empty).acc.usage = _ := Folds.foldl_getLast
    (fun s : Live => s.acc.usage) StreamChunk.reported (fun s c => by
      unfold Live.step
      split
      · rw [Live.acc_take]
        cases c <;> rfl
      · rename_i hc
        cases c <;> first | rfl | exact absurd rfl hc) chunks .empty
  rw [Collected.usage_foldl]
  exact hlive

/-- The collected response of a stream of choice 0 is that of its slot, also without any chunk. -/
theorem answer_collected (requestId : String) (echo : RequestEcho) (created : ℕ)
    {chunks : List StreamChunk} (hzero : ∀ c ∈ chunks, c.index.getD 0 = 0) :
    (responseToResponses { collectChunks chunks with id := requestId } echo created).answer =
      answerOf requestId (some ((chunks.foldl Collected.step .empty).choice 0))
        (chunks.foldl Collected.step .empty).usage := by
  have hmem (i : ℕ) : i ∈ (chunks.foldl Collected.step .empty).indices ↔
      ofChoice i chunks ≠ [] := by
    rw [Collected.mem_indices_foldl]
    simp [Collected.mem_indices, Collected.empty]
  have honly (i : ℕ) (hi : ofChoice i chunks ≠ []) : i = 0 := by
    obtain ⟨c, hc⟩ := List.exists_mem_of_ne_nil _ hi
    obtain ⟨hc, hindex⟩ := List.mem_filter.mp hc
    have h0 := hzero c hc
    rw [of_decide_eq_true hindex] at h0
    exact h0
  rw [answer_responseToResponses]
  simp only [collectChunks, List.head?_map]
  cases hhead : (chunks.foldl Collected.step .empty).indices.head? with
  | some i =>
    have hi := honly i ((hmem i).mp (List.mem_of_head? hhead))
    rw [hi]
    rfl
  | none =>
    have hempty : ofChoice 0 chunks = [] := by
      by_contra hne
      have h0 := (hmem 0).mpr hne
      rw [List.head?_eq_none_iff.mp hhead] at h0
      cases h0
    have hslot : (chunks.foldl Collected.step .empty).slot 0 = Collected.empty.slot 0 := by
      rw [slot_chunks, hempty]
      rfl
    rw [Collected.choice_congr hslot]
    rfl

/-- The snapshot that ends the stream says what the collected response says. -/
def SameAnswer (requestId model : String) (created : ℕ) (echo : RequestEcho)
    (chunks : List StreamChunk) : Prop :=
  (terminal (streamFrames requestId model created echo chunks)).map Response.answer =
    some (responseToResponses { collectChunks chunks with
      id := streamId requestId model created echo chunks } echo created).answer

/-- **When the snapshot of a stream of choice 0 is the collected response**: if the stream gives
both sides the same compactions; and only then, if no two of its compactions are equal. -/
theorem sameAnswer_iff_alike (requestId model : String) (created : ℕ) (echo : RequestEcho)
    (chunks : List StreamChunk) (hzero : ∀ c ∈ chunks, c.index.getD 0 = 0) :
    (Alike chunks → SameAnswer requestId model created echo chunks) ∧
    ((compactions chunks).Pairwise Mark.Apart →
      SameAnswer requestId model created echo chunks → Alike chunks) := by
  have hchoice := choice_live chunks
  have houtput := output_live chunks
  unfold SameAnswer Alike
  rw [terminal_streamFrames, answer_collected _ _ _ hzero, Option.some.injEq, usage_live]
  generalize streamId requestId model created echo chunks = id
  have hcol : ((chunks.foldl Collected.step .empty).choice 0).output =
      outputMessages 0 chunks := by
    rw [← houtput, hchoice]
  have hfinish : ((chunks.foldl Collected.step .empty).choice 0).finishReason =
      (live chunks).acc.choice.finishReason := by rw [hchoice]
  simp only [answerOf, Option.map_some, Option.getD_some, Option.bind_some, hfinish, Prod.mk.injEq,
    and_true, choiceItems, houtput, hcol]
  by_cases hnil : outputMessages 0 chunks = []
  · simp only [hnil, if_true, ne_eq, not_true_eq_false, false_or]
    exact ⟨outputItems_eq_of_alike id, alike_of_outputItems_eq⟩
  · simp [hnil]

/-- Reasoning, text and an encrypted compaction with its output index. -/
theorem sameAnswer_compaction :
    SameAnswer "r" "m" 0 .empty [.thinking 0 "a", .content 0 "b",
      .compaction (some 2) 0 "" (some "c") (some "data") none, .finish 0 .stop] := by
  refine (sameAnswer_iff_alike "r" "m" 0 .empty [.thinking 0 "a", .content 0 "b",
    .compaction (some 2) 0 "" (some "c") (some "data") none, .finish 0 .stop] (by decide)).1
    (.inr ⟨?_, ?_⟩)
  · intro l m r e hm
    have hmem : m ∈ [(⟨2, some 2, some "c", "", some "data", none⟩ : Mark)] := by
      rw [show [(⟨2, some 2, some "c", "", some "data", none⟩ : Mark)] = l ++ m :: r from e]
      simp
    rw [List.mem_singleton.mp hmem] at hm
    cases hm
  · intro m hm
    rw [List.mem_singleton.mp hm]
    exact ⟨fun _ => rfl, fun h => nomatch h⟩

/-- A compaction without an output index after text: the snapshot has it after the message, the
collected response before it. -/
theorem not_sameAnswer_after_text :
    ¬ SameAnswer "r" "m" 0 .empty [.content 0 "a",
      .compaction none 0 "summary" none none none] := by
  intro h
  have hkinds := congrArg (Option.map fun answer => answer.1.map Item.kind) h
  revert hkinds
  decide

end Llmleaf.Responses
