import Llmleaf.Chat
import Llmleaf.Lib.Folds

/-!
# Collecting, choice by choice

`collectChunks` keeps seven maps over the indices of the choices. Read at one index they form a
`Slot`, which only the chunks of that choice change.

- `slot_collect`: the slot of a choice is folded from the chunks of the choice alone.
- `foldl_clear`, `foldl_calls`: within a choice every tool call is folded from its own fragments.
- `mem_indices`, `indices_sorted`: there is one choice for each index that occurs, in order.
-/

namespace Llmleaf

namespace StreamChunk

/-- The choice a chunk belongs to. -/
def index : StreamChunk → Option ℕ
  | .outputItem index _ | .content index _ | .thinking index _ | .thinkingSignature index _
  | .redactedThinking index _ | .compaction _ index _ _ _ _ | .toolCall index _ | .finish index _ =>
    some index
  | .start _ _ | .usage _ => none

/-- The call a chunk is a fragment of. -/
def callIndex : StreamChunk → Option ℕ
  | .toolCall _ call => some call.index
  | _ => none

/-- The identity a chunk opens the stream with. -/
def opened : StreamChunk → Option (String × String)
  | .start id model => some (id, model)
  | _ => none

/-- The usage a chunk reports. -/
def reported : StreamChunk → Option Usage
  | .usage u => some u
  | _ => none

end StreamChunk

/-- The chunks of a choice. -/
def ofChoice (i : ℕ) (chunks : List StreamChunk) : List StreamChunk :=
  chunks.filter fun c => c.index = some i

/-- The fragments of a tool call of a choice. -/
def ofCall (i k : ℕ) (chunks : List StreamChunk) : List StreamChunk :=
  (ofChoice i chunks).filter fun c => c.callIndex = some k

/-- The chunks of a choice that are no fragments of tool calls. -/
def besidesCalls (i : ℕ) (chunks : List StreamChunk) : List StreamChunk :=
  (ofChoice i chunks).filter fun c => c.callIndex = none

/-- The last identity a stream opened with. -/
def lastStart (chunks : List StreamChunk) : Option (String × String) :=
  (chunks.filterMap StreamChunk.opened).getLast?

/-- The last usage of a stream. -/
def lastUsage (chunks : List StreamChunk) : Option Usage :=
  (chunks.filterMap StreamChunk.reported).getLast?

/-! ## Slots -/

/-- What is collected so far of one choice. -/
@[ext]
structure Slot where
  output : Option (List Message)
  text : Option String
  thinking : Option (String × Option String)
  redacted : Option (List String)
  compaction : Option (List ContentPart)
  calls : ℕ → Option ToolCall
  finish : Option FinishReason

namespace Slot

/-- Nothing collected of a choice. -/
def empty : Slot := ⟨none, none, none, none, none, fun _ => none, none⟩

/-- The collected part that a compaction chunk becomes. -/
def compactionPart (outputIndex : Option ℕ) (delta : String)
    (id encryptedContent signature : Option String) : ContentPart :=
  .compaction outputIndex id
    (if encryptedContent.isNone && (id.isNone || delta != "") then some delta else none)
    encryptedContent signature

/-- Take in one chunk of the choice. -/
def step (s : Slot) : StreamChunk → Slot
  | .outputItem _ message => { s with output := some (s.output.getD [] ++ [message]) }
  | .content _ delta => { s with text := some (s.text.getD "" ++ delta) }
  | .thinking _ delta =>
    let (text, signature) := s.thinking.getD ("", none)
    { s with thinking := some (text ++ delta, signature) }
  | .thinkingSignature _ signature =>
    { s with thinking := some ((s.thinking.getD ("", none)).1, some signature) }
  | .redactedThinking _ data => { s with redacted := some (s.redacted.getD [] ++ [data]) }
  | .compaction outputIndex _ delta id encryptedContent signature =>
    let part := compactionPart outputIndex delta id encryptedContent signature
    { s with compaction := some (s.compaction.getD [] ++ [part]) }
  | .toolCall _ call =>
    let acc := (s.calls call.index).getD ⟨"", "", ""⟩
    { s with calls := Function.update s.calls call.index (some (Collected.addFragment call acc)) }
  | .finish _ reason => { s with finish := some reason }
  | .start _ _ | .usage _ => s

/-- The slot without its tool calls. -/
def clear (s : Slot) : Slot := { s with calls := fun _ => none }

/-- Take in one fragment of a tool call. -/
def callStep (acc : Option ToolCall) : StreamChunk → Option ToolCall
  | .toolCall _ call => some (Collected.addFragment call (acc.getD ⟨"", "", ""⟩))
  | _ => acc

theorem clear_step (s : Slot) (c : StreamChunk) (h : c.callIndex = none) :
    (s.step c).clear = s.clear.step c := by
  cases c <;> first | rfl | cases h

theorem clear_step_call (s : Slot) (c : StreamChunk) (h : c.callIndex ≠ none) :
    (s.step c).clear = s.clear := by
  cases c <;> first | rfl | exact absurd rfl h

theorem calls_step (s : Slot) (c : StreamChunk) (k : ℕ) (h : c.callIndex = some k) :
    (s.step c).calls k = callStep (s.calls k) c := by
  cases c <;> cases h
  simp [step, callStep]

theorem calls_step_other (s : Slot) (c : StreamChunk) (k : ℕ) (h : c.callIndex ≠ some k) :
    (s.step c).calls k = s.calls k := by
  cases c with
  | toolCall index call =>
    have hk : k ≠ call.index := fun e => h (by rw [e]; rfl)
    simp [step, hk]
  | _ => rfl

/-- What is no tool call is folded from the chunks that are no fragments. -/
theorem foldl_clear (l : List StreamChunk) (s : Slot) :
    (l.foldl step s).clear = (l.filter fun c => c.callIndex = none).foldl step s.clear :=
  Folds.project clear _ (fun s c h => clear_step s c (of_decide_eq_true h))
    (fun s c h => clear_step_call s c (of_decide_eq_false h)) l s

/-- A tool call is folded from its own fragments. -/
theorem foldl_calls (l : List StreamChunk) (s : Slot) (k : ℕ) :
    (l.foldl step s).calls k =
      (l.filter fun c => c.callIndex = some k).foldl callStep (s.calls k) :=
  Folds.project (calls · k) _ (fun s c h => calls_step s c k (of_decide_eq_true h))
    (fun s c h => calls_step_other s c k (of_decide_eq_false h)) l s

/-- A slot depends on the fragments of different calls only through the order within each. -/
theorem foldl_congr {l l' : List StreamChunk}
    (hrest : (l.filter fun c => c.callIndex = none) = l'.filter fun c => c.callIndex = none)
    (hcalls : ∀ k, (l.filter fun c => c.callIndex = some k) =
      l'.filter fun c => c.callIndex = some k) (s : Slot) :
    l.foldl step s = l'.foldl step s := by
  have hclear : (l.foldl step s).clear = (l'.foldl step s).clear := by
    rw [foldl_clear, foldl_clear, hrest]
  have hk : (l.foldl step s).calls = (l'.foldl step s).calls := by
    funext k
    rw [foldl_calls, foldl_calls, hcalls]
  obtain ⟨ho, ht, hth, hr, hc, -, hf⟩ := Slot.ext_iff.mp hclear
  exact Slot.ext ho ht hth hr hc hk hf

end Slot

namespace Collected

/-- The maps at one index. -/
def slot (acc : Collected) (i : ℕ) : Slot where
  output := acc.outputs.lookup i
  text := acc.texts.lookup i
  thinking := acc.thinkings.lookup i
  redacted := acc.redacteds.lookup i
  compaction := acc.compactions.lookup i
  calls k := (acc.tools.lookup i).bind (·.lookup k)
  finish := acc.finishes.lookup i

theorem slot_empty (i : ℕ) : empty.slot i = .empty := rfl

/-- A chunk of a choice steps the slot of the choice. -/
theorem slot_step_same (acc : Collected) (i : ℕ) (c : StreamChunk) (h : c.index = some i) :
    (acc.step c).slot i = (acc.slot i).step c := by
  cases c <;> cases h
  case toolCall call =>
    simp only [step, slot, Slot.step, HashMap.lookup_update, if_true]
    congr
    funext k
    rw [Option.bind_some, HashMap.lookup_update, Function.update_apply]
    cases acc.tools.lookup i <;> rfl
  all_goals simp [step, slot, Slot.step, HashMap.lookup_update, Slot.compactionPart]

/-- Every other chunk leaves it. -/
theorem slot_step_other (acc : Collected) (i : ℕ) (c : StreamChunk) (h : c.index ≠ some i) :
    (acc.step c).slot i = acc.slot i := by
  cases c <;> simp only [StreamChunk.index, ne_eq, Option.some.injEq] at h <;>
    simp [step, slot, HashMap.lookup_update, Ne.symm h]

/-- **The slot of a choice is folded from the chunks of the choice alone.** -/
theorem slot_foldl (chunks : List StreamChunk) (acc : Collected) (i : ℕ) :
    (chunks.foldl step acc).slot i = (ofChoice i chunks).foldl Slot.step (acc.slot i) :=
  Folds.project (slot · i) _ (fun s c h => slot_step_same s i c (of_decide_eq_true h))
    (fun s c h => slot_step_other s i c (of_decide_eq_false h)) chunks acc

theorem lookup_calls (acc : Collected) (i k : ℕ) :
    ((acc.tools.lookup i).getD ∅).lookup k = (acc.slot i).calls k := by
  cases hl : acc.tools.lookup i <;> simp [slot, hl]

/-- The choice of an index can be read off its slot. -/
theorem choice_congr {acc acc' : Collected} {i : ℕ} (h : acc.slot i = acc'.slot i) :
    acc.choice i = acc'.choice i := by
  obtain ⟨ho, ht, hth, hr, hc, hcalls, hf⟩ := Slot.ext_iff.mp h
  have htools := HashMap.ascending_congr fun k =>
    show ((acc.tools.lookup i).getD ∅).lookup k = ((acc'.tools.lookup i).getD ∅).lookup k by
      rw [lookup_calls, lookup_calls, h]
  simp only [slot] at ho ht hth hr hc hf
  simp only [choice, ho, ht, hth, hr, hc, hf, htools]

/-! ## The indices -/

theorem mem_indices (acc : Collected) (i : ℕ) :
    i ∈ acc.indices ↔ i ∈ acc.texts ∨ i ∈ acc.finishes ∨ i ∈ acc.tools ∨ i ∈ acc.thinkings ∨
      i ∈ acc.redacteds ∨ i ∈ acc.outputs ∨ i ∈ acc.compactions := by
  simp only [indices, List.mem_dedup, List.mem_insertionSort, List.mem_append, AList.mem_keys,
    or_assoc]

theorem mem_indices_step (acc : Collected) (c : StreamChunk) (i : ℕ) :
    i ∈ (acc.step c).indices ↔ c.index = some i ∨ i ∈ acc.indices := by
  cases c <;> simp only [mem_indices, step, StreamChunk.index, HashMap.mem_update,
    AList.mem_insert, Option.some.injEq, reduceCtorEq, false_or] <;> grind

/-- A choice is collected for every index that occurs. -/
theorem mem_indices_foldl (chunks : List StreamChunk) (acc : Collected) (i : ℕ) :
    i ∈ (chunks.foldl step acc).indices ↔ ofChoice i chunks ≠ [] ∨ i ∈ acc.indices := by
  induction chunks generalizing acc with
  | nil => simp [ofChoice]
  | cons c chunks ih =>
    rw [List.foldl_cons, ih, mem_indices_step]
    by_cases h : c.index = some i
    · simp [ofChoice, h]
    · simp [ofChoice, h]

/-- The indices are listed in strictly increasing order. -/
theorem indices_sorted (acc : Collected) : acc.indices.Pairwise (· < ·) := by
  have hle : acc.indices.Pairwise (· ≤ ·) :=
    (List.pairwise_insertionSort (· ≤ ·) _).sublist (List.dedup_sublist _)
  have hne : acc.indices.Pairwise (· ≠ ·) := List.nodup_dedup _
  exact hle.imp₂ (fun a b h h' => lt_of_le_of_ne h h') hne

theorem indices_congr {acc acc' : Collected} (h : ∀ i, i ∈ acc.indices ↔ i ∈ acc'.indices) :
    acc.indices = acc'.indices := by
  have hnodup (acc : Collected) : acc.indices.Nodup := List.nodup_dedup _
  have hperm := (List.perm_ext_iff_of_nodup (hnodup acc) (hnodup acc')).mpr h
  exact hperm.eq_of_pairwise (fun a b _ _ hab hba => absurd hab (lt_asymm hba))
    acc.indices_sorted acc'.indices_sorted

/-! ## The response -/

theorem id_model_foldl (chunks : List StreamChunk) :
    ((chunks.foldl step empty).id, (chunks.foldl step empty).model) =
      (lastStart chunks).getD ("", "") :=
  Folds.foldl_getLast (fun acc : Collected => (acc.id, acc.model)) StreamChunk.opened
    (fun acc c => by cases c <;> rfl) chunks empty

theorem usage_foldl (chunks : List StreamChunk) :
    (chunks.foldl step empty).usage = (lastUsage chunks).getD .zero :=
  Folds.foldl_getLast Collected.usage StreamChunk.reported
    (fun acc c => by cases c <;> rfl) chunks empty

end Collected

open Collected

theorem choices_index (chunks : List StreamChunk) :
    (collectChunks chunks).choices.map Choice.index = (chunks.foldl step .empty).indices := by
  simp only [collectChunks, List.map_map]
  exact List.map_id _

/-- Streams that occupy the same slots in the same way are collected to the same response. -/
theorem collectChunks_congr {a b : List StreamChunk} (hstart : lastStart a = lastStart b)
    (husage : lastUsage a = lastUsage b) (hoccur : ∀ i, ofChoice i a ≠ [] ↔ ofChoice i b ≠ [])
    (hslot : ∀ i, (ofChoice i a).foldl Slot.step .empty = (ofChoice i b).foldl Slot.step .empty) :
    collectChunks a = collectChunks b := by
  have hindices : (a.foldl step .empty).indices = (b.foldl step .empty).indices := by
    refine indices_congr fun i => ?_
    rw [mem_indices_foldl, mem_indices_foldl, hoccur]
  have hchoice (i : ℕ) : (a.foldl step .empty).choice i = (b.foldl step .empty).choice i := by
    refine choice_congr ?_
    rw [slot_foldl, slot_foldl, slot_empty, hslot]
  have hid := (id_model_foldl a).trans (hstart ▸ (id_model_foldl b).symm)
  have hu := (usage_foldl a).trans (husage ▸ (usage_foldl b).symm)
  simp only [Prod.mk.injEq] at hid
  simp only [collectChunks, hid.1, hid.2, hu, hindices, funext hchoice]

/-- Two streams with the same chunks of every choice, the same last identity and the same last
usage. -/
structure SameChoices (a b : List StreamChunk) : Prop where
  choices : ∀ i, ofChoice i a = ofChoice i b
  start : lastStart a = lastStart b
  usage : lastUsage a = lastUsage b

/-- Two streams whose choices have the same fragments of every tool call and the same other
chunks, the same last identity and the same last usage. -/
structure SameCalls (a b : List StreamChunk) : Prop where
  rest : ∀ i, besidesCalls i a = besidesCalls i b
  calls : ∀ i k, ofCall i k a = ofCall i k b
  start : lastStart a = lastStart b
  usage : lastUsage a = lastUsage b

/-- A choice occurs if it has a fragment of a call or another chunk. -/
theorem ofChoice_ne_nil (i : ℕ) (chunks : List StreamChunk) :
    ofChoice i chunks ≠ [] ↔ besidesCalls i chunks ≠ [] ∨ ∃ k, ofCall i k chunks ≠ [] := by
  simp only [besidesCalls, ofCall, ne_eq, List.filter_eq_nil_iff, decide_eq_true_eq, not_forall,
    not_not]
  constructor
  · intro h
    obtain ⟨c, hc⟩ := List.exists_mem_of_ne_nil _ h
    cases hk : c.callIndex with
    | none => exact .inl ⟨c, hc, hk⟩
    | some k => exact .inr ⟨k, c, hc, hk⟩
  · rintro (⟨c, hc, -⟩ | ⟨k, c, hc, -⟩) <;> exact List.ne_nil_of_mem hc

/-- **Collection does not depend on how the choices are interleaved**, nor on how the fragments of
different tool calls of a choice are; there is one choice for each index that occurs, in order. -/
theorem collectChunks_interleaving (a b : List StreamChunk) :
    (SameChoices a b → collectChunks a = collectChunks b) ∧
    (SameCalls a b → collectChunks a = collectChunks b) ∧
    ((collectChunks a).choices.map Choice.index).Pairwise (· < ·) ∧
    ∀ i, i ∈ (collectChunks a).choices.map Choice.index ↔ ofChoice i a ≠ [] := by
  refine ⟨fun h => ?_, fun h => ?_, ?_, fun i => ?_⟩
  · exact collectChunks_congr h.start h.usage (fun i => by rw [h.choices]) fun i => by
      rw [h.choices]
  · refine collectChunks_congr h.start h.usage (fun i => ?_) fun i => ?_
    · rw [ofChoice_ne_nil, ofChoice_ne_nil, h.rest]
      simp only [h.calls]
    · exact Slot.foldl_congr (h.rest i) (h.calls i) .empty
  · rw [choices_index]
    exact indices_sorted _
  · rw [choices_index, mem_indices_foldl]
    simp [mem_indices, empty]

/-- Two texts, two choices, two tool calls of one of them: any order of the choices. -/
theorem collectChunks_interleaving_two :
    let a : List StreamChunk := [.content 0 "a", .toolCall 1 ⟨0, none, none, some "x"⟩,
      .toolCall 1 ⟨1, none, none, some "y"⟩]
    let b : List StreamChunk := [.toolCall 1 ⟨1, none, none, some "y"⟩, .content 0 "a",
      .toolCall 1 ⟨0, none, none, some "x"⟩]
    collectChunks a = collectChunks b := by
  refine (collectChunks_interleaving _ _).2.1 ⟨fun i => ?_, fun i k => ?_, rfl, rfl⟩
  · rcases i with _ | _ | i <;> rfl
  · rcases i with _ | _ | i <;> rcases k with _ | _ | k <;> rfl

/-! ## Signed reasoning -/

/-- Take in a chunk of a choice: the reasoning blocks closed by their signatures, and the
reasoning text since the last of them. -/
def blockStep (acc : List (String × String) × String) :
    StreamChunk → List (String × String) × String
  | .thinking _ delta => (acc.1, acc.2 ++ delta)
  | .thinkingSignature _ signature => (acc.1 ++ [(acc.2, signature)], "")
  | _ => acc

/-- The reasoning blocks of a choice, each with the signature that closes it. -/
def signedBlocks (i : ℕ) (chunks : List StreamChunk) : List (String × String) :=
  ((ofChoice i chunks).foldl blockStep ([], "")).1

/-- The reasoning text of a choice after its last signature. -/
def unsignedText (i : ℕ) (chunks : List StreamChunk) : String :=
  ((ofChoice i chunks).foldl blockStep ([], "")).2

/-- The signed reasoning parts among the parts of a message. -/
def signedParts (parts : List ContentPart) : List (String × String) :=
  parts.filterMap fun
    | .thinking text (some signature) => some (text, signature)
    | _ => none

/-- The message a chunk delivers whole. -/
def StreamChunk.delivered : StreamChunk → Option Message
  | .outputItem _ message => some message
  | _ => none

/-- The messages that the stream delivers whole for a choice. -/
def outputMessages (i : ℕ) (chunks : List StreamChunk) : List Message :=
  (ofChoice i chunks).filterMap StreamChunk.delivered

/-- The collected reasoning has the text of all blocks and of what follows them, and the last
signature. -/
def Gathers (blocks : List (String × String) × String) (slot : Slot) : Prop :=
  slot.thinking.getD ("", none) =
    (String.join (blocks.1.map Prod.fst) ++ blocks.2, (blocks.1.map Prod.snd).getLast?)

theorem Gathers.step {blocks : List (String × String) × String} {slot : Slot}
    (h : Gathers blocks slot) (c : StreamChunk) : Gathers (blockStep blocks c) (slot.step c) := by
  unfold Gathers at h ⊢
  cases c with
  | thinking index delta => simp [blockStep, Slot.step, h, String.append_assoc]
  | thinkingSignature index signature => simp [blockStep, Slot.step, h]
  | _ => exact h

theorem gathers_foldl (l : List StreamChunk) :
    Gathers (l.foldl blockStep ([], "")) (l.foldl Slot.step .empty) :=
  List.foldl_rel (r := Gathers) (by simp [Gathers, Slot.empty]) fun c _ _ _ h => h.step c

/-- The collected messages are those delivered whole. -/
theorem output_foldl (l : List StreamChunk) (slot : Slot) :
    (l.foldl Slot.step slot).output.getD [] =
      slot.output.getD [] ++ l.filterMap StreamChunk.delivered := by
  induction l generalizing slot with
  | nil => simp
  | cons c l ih =>
    rw [List.foldl_cons, ih]
    cases c with
    | outputItem index message => simp [Slot.step, StreamChunk.delivered]
    | _ => rfl

/-- The signed reasoning that is collected: one part, if there was a signature at all. -/
theorem signedParts_thinkingParts (thinking : Option (String × Option String))
    (redacted : Option (List String)) :
    signedParts (thinkingParts thinking redacted) =
      ((thinking.getD ("", none)).2.map fun s => ((thinking.getD ("", none)).1, s)).toList := by
  have hred (l : List String) : signedParts (l.map .redactedThinking) = [] := by
    simp [signedParts, List.filterMap_map]
  simp only [signedParts] at hred
  rcases thinking with _ | ⟨text, _ | signature⟩
  · simp [signedParts, thinkingParts, hred]
  · by_cases h : text = "" <;> simp [signedParts, thinkingParts, hred, h]
  · simp [signedParts, thinkingParts, hred]

/-- One collected part holds every block of a list exactly if there is at most one block, with
nothing after it. -/
theorem sublist_gathered_iff (blocks : List (String × String)) (rest : String) :
    blocks.Sublist ((blocks.map Prod.snd).getLast?.map fun s =>
      (String.join (blocks.map Prod.fst) ++ rest, s)).toList ↔
    blocks.length ≤ 1 ∧ (blocks ≠ [] → rest = "") := by
  rcases blocks with _ | ⟨⟨text, signature⟩, _ | ⟨b, blocks⟩⟩
  · simp
  · have hself : text = text ++ rest ↔ rest = "" := by
      rw [← String.toList_inj, String.toList_append, List.self_eq_append_right,
        String.toList_eq_nil_iff]
    simpa [String.join] using hself
  · constructor
    · intro h
      have hlen := h.length_le
      have hone := Option.length_toList_le (o := (((text, signature) :: b :: blocks).map
        Prod.snd).getLast?.map fun s =>
          (String.join (((text, signature) :: b :: blocks).map Prod.fst) ++ rest, s))
      simp only [List.length_cons] at hlen
      omega
    · rintro ⟨hlen, -⟩
      simp only [List.length_cons] at hlen
      omega

/-- A collected choice holds signed blocks verbatim and in order, either in its reasoning or in
the messages it carries whole. -/
def Choice.Carries (c : Choice) (blocks : List (String × String)) : Prop :=
  blocks.Sublist (signedParts c.thinking) ∨
    blocks.Sublist (signedParts (c.output.flatMap Message.content))

/-- **When signatures survive collection**: at most one signed block with no reasoning after it,
or all blocks are delivered in whole messages too. -/
theorem collectChunks_carries_iff (chunks : List StreamChunk) (i : ℕ)
    (h : ofChoice i chunks ≠ []) :
    (∃ c ∈ (collectChunks chunks).choices, c.index = i ∧ c.Carries (signedBlocks i chunks)) ↔
      (signedBlocks i chunks).length ≤ 1 ∧
          (signedBlocks i chunks ≠ [] → unsignedText i chunks = "") ∨
        (signedBlocks i chunks).Sublist
          (signedParts ((outputMessages i chunks).flatMap Message.content)) := by
  have hmem : (chunks.foldl step .empty).choice i ∈ (collectChunks chunks).choices :=
    List.mem_map_of_mem ((mem_indices_foldl chunks .empty i).mpr (.inl h))
  have honly : ∀ c ∈ (collectChunks chunks).choices, c.index = i →
      c = (chunks.foldl step .empty).choice i := by
    intro c hc hi
    obtain ⟨j, -, rfl⟩ := List.mem_map.mp hc
    rw [← hi]
    rfl
  have hthinking := signedParts_thinkingParts
    ((chunks.foldl step .empty).slot i).thinking ((chunks.foldl step .empty).slot i).redacted
  have houtput := output_foldl (ofChoice i chunks) .empty
  have hgather := gathers_foldl (ofChoice i chunks)
  rw [Gathers] at hgather
  rw [slot_foldl, slot_empty, hgather] at hthinking
  rw [← slot_empty i, ← slot_foldl] at houtput hthinking
  have hcarries : ((chunks.foldl step .empty).choice i).Carries (signedBlocks i chunks) ↔ _ :=
    or_congr (hthinking ▸ sublist_gathered_iff (signedBlocks i chunks) (unsignedText i chunks))
      (iff_of_eq (by rw [show ((chunks.foldl step .empty).choice i).output =
        outputMessages i chunks from houtput]))
  rw [← hcarries]
  constructor
  · rintro ⟨c, hc, hi, hcar⟩
    rw [← honly c hc hi]
    exact hcar
  · intro hcar
    exact ⟨_, hmem, rfl, hcar⟩

/-- One signed block beside text and a call is carried. -/
theorem collectChunks_carries_one :
    let chunks : List StreamChunk := [.thinking 0 "a", .thinking 0 "b", .thinkingSignature 0 "s",
      .content 0 "text"]
    ∃ c ∈ (collectChunks chunks).choices, c.index = 0 ∧ c.Carries [("ab", "s")] :=
  (collectChunks_carries_iff [.thinking 0 "a", .thinking 0 "b", .thinkingSignature 0 "s",
    .content 0 "text"] 0 (by decide)).mpr (.inl ⟨by decide, fun _ => by decide⟩)

/-- Two signed blocks around a text are merged under the second signature. -/
theorem collectChunks_merges_blocks :
    let chunks : List StreamChunk := [.thinking 0 "a", .thinkingSignature 0 "s",
      .content 0 "text", .thinking 0 "b", .thinkingSignature 0 "t"]
    signedBlocks 0 chunks = [("a", "s"), ("b", "t")] ∧
      ∀ c ∈ (collectChunks chunks).choices, ¬ c.Carries (signedBlocks 0 chunks) := by
  refine ⟨by decide, ?_⟩
  unfold Choice.Carries
  decide

end Llmleaf
