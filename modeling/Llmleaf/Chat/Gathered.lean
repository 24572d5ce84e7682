import Llmleaf.Chat.Collect

/-!
# What a choice gathers

Two streams are collected to the same response although they cut their texts differently. What a
choice gathers from its chunks (texts joined, lists appended, the last signature and the last finish
reason, the same for every tool call) is a sum in a monoid, so streams can be compared piece by
piece.

- `Gathered`, `gathered`: what the chunks of a choice amount to, a sum over the chunks.
- `SameFrame.collectChunks_iff`: two streams of the same choices are collected to the same response
  exactly if every choice is; it is if it gathers the same (`choice_eq_of_gathered`).
- `gathered_text`, `gathered_calls`, `gathered_finish`: the fields, by the chunks that change them.
- `part_content_add`, `part_thinking_add`, `part_toolCall_add`: cutting a text changes nothing.
-/

namespace Llmleaf

/-- What the fragments of a tool call amount to. -/
@[ext]
structure PartialToolCall where
  id : Option String
  name : Option String
  arguments : String
  deriving DecidableEq

namespace PartialToolCall

/-- The fragments of a call, then further ones. -/
def append (a b : PartialToolCall) : PartialToolCall where
  id := b.id.or a.id
  name := b.name.or a.name
  arguments := a.arguments ++ b.arguments

theorem append_assoc (a b c : PartialToolCall) :
    (a.append b).append c = a.append (b.append c) := by
  simp [append, Option.or_assoc, String.append_assoc]

/-- The finished call; what no fragment names is empty. -/
def intoCall (p : PartialToolCall) : ToolCall := ⟨p.id.getD "", p.name.getD "", p.arguments⟩

/-- A fragment. -/
def ofDelta (call : ToolCallDelta) : PartialToolCall :=
  ⟨call.id, call.name, call.arguments.getD ""⟩

theorem addFragment_intoCall (p : PartialToolCall) (call : ToolCallDelta) :
    Collected.addFragment call p.intoCall = (p.append (ofDelta call)).intoCall := by
  cases hid : call.id <;> cases hname : call.name <;>
    simp [Collected.addFragment, intoCall, append, ofDelta, hid, hname]

theorem addFragment_empty (call : ToolCallDelta) :
    Collected.addFragment call ⟨"", "", ""⟩ = (ofDelta call).intoCall := by
  simp [Collected.addFragment, intoCall, ofDelta]

end PartialToolCall

/-- What the chunks of a choice amount to. -/
@[ext]
structure Gathered where
  output : List Message
  text : String
  thinking : String
  signature : Option String
  redacted : List String
  compaction : List ContentPart
  calls : ℕ → Option PartialToolCall
  finish : Option FinishReason

namespace Gathered

instance : Zero Gathered := ⟨⟨[], "", "", none, [], [], fun _ => none, none⟩⟩

instance : Add Gathered where
  add a b :=
    { output := a.output ++ b.output
      text := a.text ++ b.text
      thinking := a.thinking ++ b.thinking
      signature := b.signature.or a.signature
      redacted := a.redacted ++ b.redacted
      compaction := a.compaction ++ b.compaction
      calls k := Option.merge PartialToolCall.append (a.calls k) (b.calls k)
      finish := b.finish.or a.finish }

section

variable (a b : Gathered)

@[simp] theorem output_zero : (0 : Gathered).output = [] := rfl
@[simp] theorem text_zero : (0 : Gathered).text = "" := rfl
@[simp] theorem thinking_zero : (0 : Gathered).thinking = "" := rfl
@[simp] theorem signature_zero : (0 : Gathered).signature = none := rfl
@[simp] theorem redacted_zero : (0 : Gathered).redacted = [] := rfl
@[simp] theorem compaction_zero : (0 : Gathered).compaction = [] := rfl
@[simp] theorem calls_zero (k : ℕ) : (0 : Gathered).calls k = none := rfl
@[simp] theorem finish_zero : (0 : Gathered).finish = none := rfl

@[simp] theorem output_add : (a + b).output = a.output ++ b.output := rfl
@[simp] theorem text_add : (a + b).text = a.text ++ b.text := rfl
@[simp] theorem thinking_add : (a + b).thinking = a.thinking ++ b.thinking := rfl
@[simp] theorem signature_add : (a + b).signature = b.signature.or a.signature := rfl
@[simp] theorem redacted_add : (a + b).redacted = a.redacted ++ b.redacted := rfl
@[simp] theorem compaction_add : (a + b).compaction = a.compaction ++ b.compaction := rfl
@[simp] theorem calls_add (k : ℕ) :
    (a + b).calls k = Option.merge PartialToolCall.append (a.calls k) (b.calls k) := rfl
@[simp] theorem finish_add : (a + b).finish = b.finish.or a.finish := rfl

end

theorem merge_assoc (a b c : Option PartialToolCall) :
    Option.merge PartialToolCall.append (Option.merge PartialToolCall.append a b) c =
      Option.merge PartialToolCall.append a (Option.merge PartialToolCall.append b c) := by
  cases a <;> cases b <;> cases c <;> simp [PartialToolCall.append_assoc]

protected theorem add_assoc (a b c : Gathered) : a + b + c = a + (b + c) := by
  refine Gathered.ext ?_ ?_ ?_ ?_ ?_ ?_ (funext fun k => ?_) ?_
  case refine_7 => exact merge_assoc _ _ _
  all_goals simp [String.append_assoc, Option.or_assoc]

protected theorem zero_add (a : Gathered) : 0 + a = a := by
  refine Gathered.ext ?_ ?_ ?_ ?_ ?_ ?_ (funext fun k => ?_) ?_ <;> simp

protected theorem add_zero (a : Gathered) : a + 0 = a := by
  refine Gathered.ext ?_ ?_ ?_ ?_ ?_ ?_ (funext fun k => ?_) ?_ <;> simp

/-- What is gathered forms a monoid: nothing, and one after the other. -/
instance : AddMonoid Gathered where
  add_assoc := Gathered.add_assoc
  zero_add := Gathered.zero_add
  add_zero := Gathered.add_zero
  nsmul := nsmulRec

theorem text_sum (l : List Gathered) : l.sum.text = String.join (l.map Gathered.text) := by
  induction l with
  | nil => rfl
  | cons g l ih => rw [List.sum_cons, text_add, ih, List.map_cons, String.join_cons]

theorem thinking_sum (l : List Gathered) :
    l.sum.thinking = String.join (l.map Gathered.thinking) := by
  induction l with
  | nil => rfl
  | cons g l ih => rw [List.sum_cons, thinking_add, ih, List.map_cons, String.join_cons]

/-- What one chunk of the choice adds. -/
def part : StreamChunk → Gathered
  | .outputItem _ message => { (0 : Gathered) with output := [message] }
  | .content _ delta => { (0 : Gathered) with text := delta }
  | .thinking _ delta => { (0 : Gathered) with thinking := delta }
  | .thinkingSignature _ signature => { (0 : Gathered) with signature := some signature }
  | .redactedThinking _ data => { (0 : Gathered) with redacted := [data] }
  | .compaction outputIndex _ delta id encryptedContent signature =>
    { (0 : Gathered) with
      compaction := [Slot.compactionPart outputIndex delta id encryptedContent signature] }
  | .toolCall _ call =>
    { (0 : Gathered) with
      calls := fun k => if call.index = k then some (.ofDelta call) else none }
  | .finish _ reason => { (0 : Gathered) with finish := some reason }
  | .start _ _ | .usage _ => 0

end Gathered

/-- What a choice gathers from a stream. -/
def gathered (i : ℕ) (chunks : List StreamChunk) : Gathered :=
  ((ofChoice i chunks).map Gathered.part).sum

theorem gathered_nil (i : ℕ) : gathered i [] = 0 := rfl

theorem gathered_append (i : ℕ) (a b : List StreamChunk) :
    gathered i (a ++ b) = gathered i a + gathered i b := by
  simp only [gathered, ofChoice, List.filter_append, List.map_append, List.sum_append]

theorem gathered_cons (i : ℕ) (c : StreamChunk) (chunks : List StreamChunk) :
    gathered i (c :: chunks) = gathered i [c] + gathered i chunks :=
  gathered_append i [c] chunks

theorem gathered_flatMap {α : Type} (i : ℕ) (f : α → List StreamChunk) (l : List α) :
    gathered i (l.flatMap f) = (l.map fun a => gathered i (f a)).sum := by
  induction l with
  | nil => rfl
  | cons a l ih => rw [List.flatMap_cons, gathered_append, ih, List.map_cons, List.sum_cons]

theorem ofChoice_append (i : ℕ) (a b : List StreamChunk) :
    ofChoice i (a ++ b) = ofChoice i a ++ ofChoice i b := List.filter_append _ _

theorem ofChoice_eq_self {i : ℕ} {chunks : List StreamChunk} (h : ∀ c ∈ chunks, c.index = some i) :
    ofChoice i chunks = chunks :=
  List.filter_eq_self.mpr fun c hc => decide_eq_true (h c hc)

theorem ofChoice_eq_nil {i : ℕ} {chunks : List StreamChunk} (h : ∀ c ∈ chunks, c.index ≠ some i) :
    ofChoice i chunks = [] :=
  List.filter_eq_nil_iff.mpr fun c hc hi => h c hc (of_decide_eq_true hi)

/-- Where every item has chunks of one choice, those of a choice come from its items. -/
theorem ofChoice_flatMap {α : Type} {index : α → ℕ} {f : α → List StreamChunk}
    (h : ∀ a, ∀ c ∈ f a, c.index = some (index a)) (i : ℕ) (l : List α) :
    ofChoice i (l.flatMap f) = (l.filter fun a => index a = i).flatMap f := by
  induction l with
  | nil => rfl
  | cons a l ih =>
    rw [List.flatMap_cons, ofChoice_append, ih]
    by_cases hi : index a = i
    · rw [ofChoice_eq_self (hi ▸ h a), List.filter_cons_of_pos (by simpa using hi),
        List.flatMap_cons]
    · rw [ofChoice_eq_nil fun c hc => by rw [h a c hc]; simpa using hi, List.nil_append,
        List.filter_cons_of_neg (by simpa using hi)]

/-- Only the chunks of the choice count. -/
theorem gathered_ofChoice (i : ℕ) (chunks : List StreamChunk) :
    gathered i (ofChoice i chunks) = gathered i chunks := by
  simp [gathered, ofChoice]

/-- A chunk of the choice adds its part. -/
theorem gathered_one {i : ℕ} {c : StreamChunk} (h : c.index = some i) :
    gathered i [c] = Gathered.part c := by
  simp [gathered, ofChoice, h]

/-- A chunk of another choice, or of none, adds nothing. -/
theorem gathered_other {i : ℕ} {c : StreamChunk} (h : c.index ≠ some i) :
    gathered i [c] = 0 := by
  simp [gathered, ofChoice, h]

/-! ## The response -/

namespace Slot

/-- What is collected so far of a choice is what it has gathered. -/
structure Holds (s : Slot) (g : Gathered) : Prop where
  output : s.output.getD [] = g.output
  text : s.text.getD "" = g.text
  thinking : s.thinking.getD ("", none) = (g.thinking, g.signature)
  redacted : s.redacted.getD [] = g.redacted
  compaction : s.compaction.getD [] = g.compaction
  calls : ∀ k, s.calls k = (g.calls k).map PartialToolCall.intoCall
  finish : s.finish = g.finish

theorem holds_empty : empty.Holds 0 := ⟨rfl, rfl, rfl, rfl, rfl, fun _ => rfl, rfl⟩

/-- A chunk adds to what is collected what it adds to what is gathered. -/
theorem Holds.step {s : Slot} {g : Gathered} (h : s.Holds g) (c : StreamChunk) :
    (s.step c).Holds (g + Gathered.part c) := by
  obtain ⟨ho, ht, hth, hr, hc, hcalls, hf⟩ := h
  cases c with
  | toolCall index call =>
    refine ⟨?_, ?_, ?_, ?_, ?_, fun k => ?_, ?_⟩
    case refine_6 =>
      by_cases hk : call.index = k
      · subst hk
        cases hg : g.calls call.index with
        | none => simp [Slot.step, Gathered.part, hcalls, hg, PartialToolCall.addFragment_empty]
        | some p =>
          simp [Slot.step, Gathered.part, hcalls, hg, PartialToolCall.addFragment_intoCall]
      · simp [Slot.step, Gathered.part, hcalls, hk, Ne.symm hk]
    all_goals simp [Slot.step, Gathered.part, ho, ht, hth, hr, hc, hf]
  | start id model => simpa [Slot.step, Gathered.part] using ⟨ho, ht, hth, hr, hc, hcalls, hf⟩
  | usage u => simpa [Slot.step, Gathered.part] using ⟨ho, ht, hth, hr, hc, hcalls, hf⟩
  | _ =>
    refine ⟨?_, ?_, ?_, ?_, ?_, fun k => ?_, ?_⟩ <;>
      simp [Slot.step, Gathered.part, ho, ht, hth, hr, hc, hcalls, hf]

theorem Holds.foldl {s : Slot} {g : Gathered} (h : s.Holds g) (l : List StreamChunk) :
    (l.foldl Slot.step s).Holds (g + (l.map Gathered.part).sum) := by
  induction l generalizing s g with
  | nil => simpa using h
  | cons c l ih =>
    rw [List.foldl_cons, List.map_cons, List.sum_cons, ← add_assoc]
    exact ih (h.step c)

end Slot

open Collected

/-- The collected slot of a choice holds what the choice gathers. -/
theorem slot_holds (chunks : List StreamChunk) (i : ℕ) :
    ((chunks.foldl step empty).slot i).Holds (gathered i chunks) := by
  have h := Slot.holds_empty.foldl (ofChoice i chunks)
  rwa [zero_add, ← slot_empty i, ← slot_foldl] at h

theorem thinkingParts_getD (thinking : Option (String × Option String))
    (redacted : Option (List String)) :
    thinkingParts thinking redacted =
      thinkingParts (some (thinking.getD ("", none))) (some (redacted.getD [])) := by
  cases thinking <;> simp [thinkingParts]

/-- The reasoning of a collected choice. -/
theorem choice_thinking (chunks : List StreamChunk) (i : ℕ) :
    ((chunks.foldl step empty).choice i).thinking =
      thinkingParts (some ((gathered i chunks).thinking, (gathered i chunks).signature))
        (some (gathered i chunks).redacted) := by
  have hs := slot_holds chunks i
  have hth := hs.thinking
  have hr := hs.redacted
  simp only [slot] at hth hr
  rw [choice, thinkingParts_getD, hth, hr]

/-- The collected choice, by what it gathers. -/
def Gathered.choice (g : Gathered) (index : ℕ) (toolCalls : List ToolCall) : Choice where
  output := g.output
  index := index
  text := g.text
  thinking := thinkingParts (some (g.thinking, g.signature)) (some g.redacted)
  compaction := g.compaction
  toolCalls := toolCalls
  finishReason := g.finish

/-- The tool calls of a choice, where what it gathers has one for each `k` in `keys`. -/
theorem choice_gathered (chunks : List StreamChunk) (i : ℕ) {keys : List ℕ}
    {call : ℕ → PartialToolCall} (hsorted : keys.Pairwise (· < ·))
    (h : ∀ k, (gathered i chunks).calls k = if k ∈ keys then some (call k) else none) :
    (chunks.foldl step empty).choice i =
      (gathered i chunks).choice i (keys.map fun k => (call k).intoCall) := by
  have hs := slot_holds chunks i
  have hcalls : (((chunks.foldl step empty).tools.lookup i).getD ∅).ascending =
      keys.map fun k => (k, (call k).intoCall) := by
    refine HashMap.ascending_eq_map hsorted fun k => ?_
    rw [lookup_calls, hs.calls, h]
    split <;> rfl
  have hth := choice_thinking chunks i
  rw [choice] at hth
  rw [choice, Gathered.choice, ← hs.output, ← hs.text, ← hs.compaction, ← hs.finish, ← hth, hcalls,
    List.map_map]
  rfl

/-- The tool calls of a choice, where it gathers them numbered from zero. -/
theorem choice_of_calls (chunks : List StreamChunk) (i : ℕ) {calls : List PartialToolCall}
    (h : ∀ k, (gathered i chunks).calls k = calls[k]?) :
    (chunks.foldl step empty).choice i =
      (gathered i chunks).choice i (calls.map PartialToolCall.intoCall) := by
  have hkeys (k : ℕ) : (gathered i chunks).calls k =
      if k ∈ List.range calls.length then some (calls[k]?.getD ⟨none, none, ""⟩) else none := by
    rw [h]
    by_cases hk : k < calls.length
    · rw [if_pos (List.mem_range.mpr hk), List.getElem?_eq_getElem hk, Option.getD_some]
    · rw [if_neg (by simpa using hk), List.getElem?_eq_none (by omega)]
  rw [choice_gathered chunks i List.pairwise_lt_range hkeys]
  congr 1
  refine List.ext_getElem (by simp) fun k hk hk' => ?_
  simp [List.length_map] at hk'
  simp [List.getElem?_eq_getElem hk']

/-- What is gathered beside the messages. -/
def Gathered.besidesOutput (g : Gathered) : Gathered := { g with output := [] }

theorem Gathered.besidesOutput_add (a b : Gathered) :
    (a + b).besidesOutput = a.besidesOutput + b.besidesOutput := rfl

theorem choice_output (chunks : List StreamChunk) (i : ℕ) :
    ((chunks.foldl step empty).choice i).output = (gathered i chunks).output :=
  (slot_holds chunks i).output

/-- Choices that gather the same beside the messages differ at most in the messages. -/
theorem choice_eq_iff {a b : List StreamChunk} {i : ℕ}
    (h : (gathered i a).besidesOutput = (gathered i b).besidesOutput) :
    (a.foldl step empty).choice i = (b.foldl step empty).choice i ↔
      (gathered i a).output = (gathered i b).output := by
  have ha := slot_holds a i
  have hb := slot_holds b i
  obtain ⟨-, htext, hthinking, hsignature, hredacted, hcompaction, hcalls, hfinish⟩ :=
    Gathered.ext_iff.mp h
  simp only [Gathered.besidesOutput] at htext hthinking hsignature hredacted hcompaction hcalls hfinish
  have htools := HashMap.ascending_congr fun k =>
    show (((a.foldl step empty).tools.lookup i).getD ∅).lookup k =
        (((b.foldl step empty).tools.lookup i).getD ∅).lookup k by
      rw [lookup_calls, lookup_calls, ha.calls, hb.calls, hcalls]
  have hth := choice_thinking a i
  rw [hthinking, hsignature, hredacted, ← choice_thinking b i] at hth
  have ht := ha.text.trans (htext.trans hb.text.symm)
  have hc := ha.compaction.trans (hcompaction.trans hb.compaction.symm)
  have hf := ha.finish.trans (hfinish.trans hb.finish.symm)
  rw [← choice_output, ← choice_output]
  constructor
  · exact congrArg Choice.output
  · intro ho
    simp only [slot] at ht hc hf
    simp only [choice] at hth ho ⊢
    simp only [hth, ho, ht, hc, hf, htools]

/-- Choices that gather the same are collected to the same choice. -/
theorem choice_eq_of_gathered {a b : List StreamChunk} {i : ℕ}
    (h : gathered i a = gathered i b) :
    (a.foldl step empty).choice i = (b.foldl step empty).choice i :=
  (choice_eq_iff (congrArg _ h)).mpr (congrArg _ h)

/-- Two streams of the same choices that open with the same identity. -/
structure SameFrame (a b : List StreamChunk) : Prop where
  start : lastStart a = lastStart b
  occur : ∀ i, ofChoice i a ≠ [] ↔ ofChoice i b ≠ []

/-- In a stream of the same choices, the identity and the indices are collected alike. -/
theorem SameFrame.collect {a b : List StreamChunk} (h : SameFrame a b) :
    (collectChunks a).id = (collectChunks b).id ∧
      (collectChunks a).model = (collectChunks b).model ∧
      (a.foldl step empty).indices = (b.foldl step empty).indices := by
  have hid := (id_model_foldl a).trans (h.start ▸ (id_model_foldl b).symm)
  simp only [Prod.mk.injEq] at hid
  refine ⟨hid.1, hid.2, indices_congr fun i => ?_⟩
  rw [mem_indices_foldl, mem_indices_foldl, h.occur]

/-- What is read off the collected choices is the same exactly if it is for every choice. -/
theorem SameFrame.map_choices_iff {β : Type} {a b : List StreamChunk} (h : SameFrame a b)
    (f : Choice → β) : (collectChunks a).choices.map f = (collectChunks b).choices.map f ↔
      ∀ i, ofChoice i a ≠ [] →
        f ((a.foldl step empty).choice i) = f ((b.foldl step empty).choice i) := by
  obtain ⟨-, -, hindices⟩ := h.collect
  simp only [collectChunks, List.map_map]
  rw [← hindices, List.map_inj_left]
  refine forall_congr' fun i => imp_congr_left ?_
  rw [mem_indices_foldl]
  simp [mem_indices, empty]

/-- **Streams of the same choices are collected to the same response** exactly if every choice is
collected alike and the last usage is the same. -/
theorem SameFrame.collectChunks_iff {a b : List StreamChunk} (h : SameFrame a b) :
    collectChunks a = collectChunks b ↔
      (lastUsage a).getD .zero = (lastUsage b).getD .zero ∧
      ∀ i, ofChoice i a ≠ [] →
        (a.foldl step empty).choice i = (b.foldl step empty).choice i := by
  obtain ⟨hid, hmodel, -⟩ := h.collect
  have hchoices := h.map_choices_iff id
  simp only [List.map_id_fun, id_eq] at hchoices
  rw [← usage_foldl, ← usage_foldl, ← hchoices]
  constructor
  · intro heq
    exact ⟨congrArg ChatResponse.usage heq, congrArg ChatResponse.choices heq⟩
  · rintro ⟨husage, heq⟩
    simp only [collectChunks] at hid hmodel heq ⊢
    rw [hid, hmodel, heq, husage]

/-- **A response depends only on what its choices gather**, on which choices there are, and on the
last identity and usage. -/
theorem SameFrame.collectChunks_gathered {a b : List StreamChunk} (hframe : SameFrame a b)
    (h : ∀ i, gathered i a = gathered i b) : collectChunks a = collectChunks b ↔
      (lastUsage a).getD .zero = (lastUsage b).getD .zero :=
  hframe.collectChunks_iff.trans (and_iff_left fun i _ => choice_eq_of_gathered (h i))

/-- A stream of the choice zero and no other. -/
structure SingleChoice (chunks : List StreamChunk) : Prop where
  only : ∀ c ∈ chunks, ∀ i, c.index = some i → i = 0
  some : ∃ c ∈ chunks, c.index = some 0

theorem SingleChoice.ofChoice_ne_nil {chunks : List StreamChunk} (h : SingleChoice chunks) (i : ℕ) :
    ofChoice i chunks ≠ [] ↔ i = 0 := by
  constructor
  · intro hi
    obtain ⟨c, hc⟩ := List.exists_mem_of_ne_nil _ hi
    obtain ⟨hmem, hindex⟩ := List.mem_filter.mp hc
    exact h.only c hmem i (of_decide_eq_true hindex)
  · rintro rfl
    obtain ⟨c, hc, hindex⟩ := h.some
    exact List.ne_nil_of_mem (List.mem_filter.mpr ⟨hc, decide_eq_true hindex⟩)

/-- Of a single choice there is nothing but it to show. -/
theorem SingleChoice.forall_iff {chunks : List StreamChunk} (h : SingleChoice chunks)
    {p : ℕ → Prop} : (∀ i, ofChoice i chunks ≠ [] → p i) ↔ p 0 := by
  simp only [h.ofChoice_ne_nil, forall_eq]

theorem SingleChoice.sameFrame {a b : List StreamChunk} (ha : SingleChoice a) (hb : SingleChoice b)
    (hstart : lastStart a = lastStart b) : SameFrame a b :=
  ⟨hstart, fun i => (ha.ofChoice_ne_nil i).trans (hb.ofChoice_ne_nil i).symm⟩

/-- Of single choices, only what the choice gathers and the usage are to be compared. -/
theorem SingleChoice.collectChunks_gathered {a b : List StreamChunk} (ha : SingleChoice a)
    (hb : SingleChoice b) (hstart : lastStart a = lastStart b)
    (h : gathered 0 a = gathered 0 b) : collectChunks a = collectChunks b ↔
      (lastUsage a).getD .zero = (lastUsage b).getD .zero := by
  refine (ha.sameFrame hb hstart).collectChunks_gathered fun i => ?_
  by_cases hi : i = 0
  · rw [hi, h]
  · have hnil {l : List StreamChunk} (hl : SingleChoice l) : gathered i l = 0 := by
      rw [gathered, not_not.mp ((hl.ofChoice_ne_nil i).not.mpr hi)]
      rfl
    rw [hnil ha, hnil hb]

/-- A stream of one choice between its identity and a report, if there is one. -/
def framed (id model : String) (body : List StreamChunk) (report : Option Usage) :
    List StreamChunk :=
  .start id model :: (body ++ (report.map StreamChunk.usage).toList)

section

variable {id model : String} {body : List StreamChunk} {report : Option Usage}

theorem opened_of_index {c : StreamChunk} {i : ℕ} (h : c.index = some i) : c.opened = none := by
  cases c <;> first | rfl | cases h

theorem reported_of_index {c : StreamChunk} {i : ℕ} (h : c.index = some i) :
    c.reported = none := by
  cases c <;> first | rfl | cases h

theorem lastStart_framed (h : ∀ c ∈ body, c.index = some 0) :
    lastStart (framed id model body report) = some (id, model) := by
  rw [lastStart, framed, List.filterMap_cons, List.filterMap_append,
    List.filterMap_eq_nil_iff.mpr fun c hc => opened_of_index (h c hc)]
  cases report <;> rfl

theorem lastUsage_framed (h : ∀ c ∈ body, c.index = some 0) :
    lastUsage (framed id model body report) = report := by
  rw [lastUsage, framed, List.filterMap_cons, List.filterMap_append,
    List.filterMap_eq_nil_iff.mpr fun c hc => reported_of_index (h c hc)]
  cases report <;> rfl

theorem gathered_framed (i : ℕ) : gathered i (framed id model body report) = gathered i body := by
  rw [framed, gathered_cons, gathered_other (by simp [StreamChunk.index]), zero_add,
    gathered_append]
  cases report with
  | none => rw [Option.map_none, Option.toList_none, gathered_nil, add_zero]
  | some u =>
    rw [Option.map_some, Option.toList_some, gathered_other (by simp [StreamChunk.index]), add_zero]

theorem single_framed (h : ∀ c ∈ body, c.index = some 0) (hne : body ≠ []) :
    SingleChoice (framed id model body report) := by
  constructor
  · intro c hc i hi
    rcases List.mem_cons.mp hc with rfl | hc
    · cases hi
    · rcases List.mem_append.mp hc with hc | hc
      · rw [h c hc] at hi
        exact (Option.some.inj hi).symm
      · cases report with
        | none => cases hc
        | some u =>
          cases List.mem_singleton.mp hc
          cases hi
  · obtain ⟨c, hc⟩ := List.exists_mem_of_ne_nil _ hne
    exact ⟨c, List.mem_cons_of_mem _ (List.mem_append_left _ hc), h c hc⟩

/-- Of two streams of one choice that gather the same, only the reports are to be compared. -/
theorem collectChunks_framed {body' : List StreamChunk} {report' : Option Usage}
    (h : ∀ c ∈ body, c.index = some 0) (h' : ∀ c ∈ body', c.index = some 0) (hne : body ≠ [])
    (hne' : body' ≠ []) (hgathered : gathered 0 body = gathered 0 body') :
    collectChunks (framed id model body report) = collectChunks (framed id model body' report') ↔
      report.getD .zero = report'.getD .zero := by
  have hbody : SingleChoice (framed id model body report) := single_framed h hne
  have hbody' : SingleChoice (framed id model body' report') := single_framed h' hne'
  have hall := hbody.collectChunks_gathered hbody' ((lastStart_framed h).trans (lastStart_framed h').symm)
    (by rw [gathered_framed, gathered_framed, hgathered])
  rwa [lastUsage_framed h, lastUsage_framed h'] at hall

end

/-! ## What is gathered, field by field -/

namespace StreamChunk

/-- The visible text a chunk adds to the choice `i`. -/
def textOf (i : ℕ) : StreamChunk → Option String
  | .content index delta => if index = i then some delta else none
  | _ => none

/-- The reasoning text a chunk adds to the choice `i`. -/
def thinkingOf (i : ℕ) : StreamChunk → Option String
  | .thinking index delta => if index = i then some delta else none
  | _ => none

/-- The reason with which a chunk ends the choice `i`. -/
def finishOf (i : ℕ) : StreamChunk → Option FinishReason
  | .finish index reason => if index = i then some reason else none
  | _ => none

theorem filterMap_finishOf (i : ℕ) (chunks : List StreamChunk) :
    chunks.filterMap (finishOf i) = (ofChoice i chunks).filterMap (finishOf i) := by
  rw [ofChoice, List.filterMap_filter]
  refine List.filterMap_congr fun c _ => ?_
  cases c with
  | finish index reason => by_cases h : index = i <;> simp [finishOf, StreamChunk.index, h]
  | _ => simp [finishOf]

/-- The fragment a chunk adds to the call `k` of the choice `i`. -/
def fragmentOf (i k : ℕ) : StreamChunk → Option ToolCallDelta
  | .toolCall index call => if index = i ∧ call.index = k then some call else none
  | _ => none

end StreamChunk

/-- The call that fragments add up to, if there are any. -/
def PartialToolCall.ofDeltas (fragments : List ToolCallDelta) : Option PartialToolCall :=
  if fragments = [] then none
  else some ⟨(fragments.filterMap ToolCallDelta.id).getLast?,
    (fragments.filterMap ToolCallDelta.name).getLast?,
    String.join (fragments.filterMap ToolCallDelta.arguments)⟩

theorem PartialToolCall.ofDeltas_cons (call : ToolCallDelta) (fragments : List ToolCallDelta) :
    ofDeltas (call :: fragments) =
      Option.merge append (some (ofDelta call)) (ofDeltas fragments) := by
  have hlast {α : Type} (o : Option α) (l : List α) :
      (o.toList ++ l).getLast? = l.getLast?.or o := by
    cases o <;> cases l <;> simp [List.getLast?_cons]
  have hcons {α : Type} (f : ToolCallDelta → Option α) :
      (call :: fragments).filterMap f = (f call).toList ++ fragments.filterMap f := by
    rw [List.filterMap_cons]
    cases f call <;> rfl
  have hjoin : String.join call.arguments.toList = call.arguments.getD "" := by
    cases call.arguments <;> simp [String.join]
  rw [ofDeltas, if_neg (List.cons_ne_nil _ _), hcons, hcons, hcons, hlast, hlast,
    String.join_append, hjoin]
  by_cases hnil : fragments = []
  · simp [ofDeltas, hnil, ofDelta, String.join]
  · rw [ofDeltas, if_neg hnil]
    rfl

/-- A call whose first fragment names it, followed by fragments of its arguments. -/
theorem PartialToolCall.ofDeltas_arguments (call : ToolCallDelta) (arguments : List String) :
    ofDeltas (call :: arguments.map fun a => ⟨call.index, none, none, some a⟩) =
      some ⟨call.id, call.name, call.arguments.getD "" ++ String.join arguments⟩ := by
  rw [ofDeltas_cons]
  cases arguments with
  | nil => simp [ofDeltas, ofDelta, String.join]
  | cons a arguments =>
    simp [ofDeltas, ofDelta, append, List.filterMap_map, List.filterMap_some]

section

variable (i : ℕ) (c : StreamChunk) (chunks : List StreamChunk)

theorem text_singleton : (gathered i [c]).text = (c.textOf i).getD "" := by
  by_cases h : c.index = some i
  · rw [gathered_one h]
    cases c <;> cases h <;> simp [StreamChunk.textOf, Gathered.part]
  · rw [gathered_other h]
    cases c <;> simp_all [StreamChunk.index, StreamChunk.textOf]

theorem thinking_singleton : (gathered i [c]).thinking = (c.thinkingOf i).getD "" := by
  by_cases h : c.index = some i
  · rw [gathered_one h]
    cases c <;> cases h <;> simp [StreamChunk.thinkingOf, Gathered.part]
  · rw [gathered_other h]
    cases c <;> simp_all [StreamChunk.index, StreamChunk.thinkingOf]

theorem finish_singleton : (gathered i [c]).finish = c.finishOf i := by
  by_cases h : c.index = some i
  · rw [gathered_one h]
    cases c <;> cases h <;> simp [StreamChunk.finishOf, Gathered.part]
  · rw [gathered_other h]
    cases c <;> simp_all [StreamChunk.index, StreamChunk.finishOf]

theorem calls_singleton (k : ℕ) :
    (gathered i [c]).calls k = (c.fragmentOf i k).map PartialToolCall.ofDelta := by
  by_cases h : c.index = some i
  · rw [gathered_one h]
    cases c <;> cases h <;> simp [StreamChunk.fragmentOf, Gathered.part, apply_ite]
  · rw [gathered_other h]
    cases c <;> simp_all [StreamChunk.index, StreamChunk.fragmentOf]

/-- The texts of the choice, joined. -/
theorem gathered_text :
    (gathered i chunks).text = String.join (chunks.filterMap (StreamChunk.textOf i)) := by
  induction chunks with
  | nil => rfl
  | cons c chunks ih =>
    rw [gathered_cons, Gathered.text_add, ih, text_singleton, List.filterMap_cons]
    cases c.textOf i <;> simp

theorem gathered_thinking :
    (gathered i chunks).thinking = String.join (chunks.filterMap (StreamChunk.thinkingOf i)) := by
  induction chunks with
  | nil => rfl
  | cons c chunks ih =>
    rw [gathered_cons, Gathered.thinking_add, ih, thinking_singleton, List.filterMap_cons]
    cases c.thinkingOf i <;> simp

theorem text_eq_empty (h : ∀ c ∈ chunks, c.textOf i = none) : (gathered i chunks).text = "" := by
  rw [gathered_text, List.filterMap_eq_nil_iff.mpr h]
  rfl

theorem thinking_eq_empty (h : ∀ c ∈ chunks, c.thinkingOf i = none) :
    (gathered i chunks).thinking = "" := by
  rw [gathered_thinking, List.filterMap_eq_nil_iff.mpr h]
  rfl

/-- The last reason that ends the choice. -/
theorem gathered_finish :
    (gathered i chunks).finish = (chunks.filterMap (StreamChunk.finishOf i)).getLast? := by
  induction chunks with
  | nil => rfl
  | cons c chunks ih =>
    rw [gathered_cons, Gathered.finish_add, ih, finish_singleton, List.filterMap_cons]
    cases c.finishOf i <;> simp [List.getLast?_cons]

/-- The fragments of a call, added up. -/
theorem gathered_calls (k : ℕ) : (gathered i chunks).calls k =
    PartialToolCall.ofDeltas (chunks.filterMap (StreamChunk.fragmentOf i k)) := by
  induction chunks with
  | nil => rfl
  | cons c chunks ih =>
    rw [gathered_cons, Gathered.calls_add, ih, calls_singleton, List.filterMap_cons]
    cases c.fragmentOf i k with
    | none => simp
    | some call => exact (PartialToolCall.ofDeltas_cons call _).symm

variable {i chunks}

/-- Chunks that are no fragments bring no calls. -/
theorem calls_eq_none (h : ∀ c ∈ chunks, c.callIndex = none) (k : ℕ) :
    (gathered i chunks).calls k = none := by
  rw [gathered_calls, List.filterMap_eq_nil_iff.mpr fun c hc => ?_]
  · rfl
  · have hcall := h c hc
    cases c <;> first | rfl | cases hcall

/-- Chunks that are no messages bring none. -/
theorem output_eq_nil (h : ∀ c ∈ chunks, ∀ index message, c ≠ .outputItem index message) :
    (gathered i chunks).output = [] := by
  induction chunks with
  | nil => rfl
  | cons c chunks ih =>
    rw [gathered_cons, Gathered.output_add, ih fun c' hc' => h c' (List.mem_cons_of_mem _ hc')]
    by_cases hc : c.index = some i
    · rw [gathered_one hc]
      cases c with
      | outputItem index message => exact absurd rfl (h _ List.mem_cons_self index message)
      | _ => rfl
    · rw [gathered_other hc]
      rfl

end

/-- A chunk of a text, a call or a finish, or of no choice. -/
def StreamChunk.Plain : StreamChunk → Prop
  | .start _ _ | .usage _ | .content _ _ | .thinking _ _ | .toolCall _ _ | .finish _ _ => True
  | .outputItem _ _ | .thinkingSignature _ _ | .redactedThinking _ _ | .compaction _ _ _ _ _ _ =>
    False

/-- From plain chunks nothing but texts, calls and a finish is gathered. -/
theorem gathered_plain (i : ℕ) {chunks : List StreamChunk} (h : ∀ c ∈ chunks, c.Plain) :
    (gathered i chunks).output = [] ∧ (gathered i chunks).signature = none ∧
      (gathered i chunks).redacted = [] ∧ (gathered i chunks).compaction = [] := by
  induction chunks with
  | nil => exact ⟨rfl, rfl, rfl, rfl⟩
  | cons c chunks ih =>
    obtain ⟨ho, hs, hr, hc⟩ := ih fun c' hc' => h c' (List.mem_cons_of_mem _ hc')
    rw [gathered_cons]
    by_cases hi : c.index = some i
    · rw [gathered_one hi]
      have hplain := h c List.mem_cons_self
      cases c <;> first | exact hplain.elim | simp [Gathered.part, ho, hs, hr, hc]
    · rw [gathered_other hi, zero_add]
      exact ⟨ho, hs, hr, hc⟩

/-- Plain streams gather the same if they gather the same texts, calls and finish. -/
theorem gathered_eq_of_plain {i : ℕ} {a b : List StreamChunk} (ha : ∀ c ∈ a, c.Plain)
    (hb : ∀ c ∈ b, c.Plain) (htext : (gathered i a).text = (gathered i b).text)
    (hthinking : (gathered i a).thinking = (gathered i b).thinking)
    (hcalls : ∀ k, (gathered i a).calls k = (gathered i b).calls k)
    (hfinish : (gathered i a).finish = (gathered i b).finish) : gathered i a = gathered i b := by
  obtain ⟨hoa, hsa, hra, hca⟩ := gathered_plain i ha
  obtain ⟨hob, hsb, hrb, hcb⟩ := gathered_plain i hb
  exact Gathered.ext (hoa.trans hob.symm) htext hthinking (hsa.trans hsb.symm)
    (hra.trans hrb.symm) (hca.trans hcb.symm) (funext hcalls) hfinish

/-! ## Cutting texts -/

namespace Gathered

variable (i : ℕ)

@[simp] theorem part_content_empty : part (.content i "") = 0 := rfl

@[simp] theorem part_thinking_empty : part (.thinking i "") = 0 := rfl

theorem part_content_add (a b : String) :
    part (.content i a) + part (.content i b) = part (.content i (a ++ b)) := by
  refine Gathered.ext ?_ ?_ ?_ ?_ ?_ ?_ (funext fun k => ?_) ?_ <;> simp [part]

theorem part_thinking_add (a b : String) :
    part (.thinking i a) + part (.thinking i b) = part (.thinking i (a ++ b)) := by
  refine Gathered.ext ?_ ?_ ?_ ?_ ?_ ?_ (funext fun k => ?_) ?_ <;> simp [part]

/-- A further fragment of a call adds to its arguments. -/
theorem part_toolCall_add (k : ℕ) (id name : Option String) (a b : String) :
    part (.toolCall i ⟨k, id, name, some a⟩) + part (.toolCall i ⟨k, none, none, some b⟩) =
      part (.toolCall i ⟨k, id, name, some (a ++ b)⟩) := by
  refine Gathered.ext ?_ ?_ ?_ ?_ ?_ ?_ (funext fun j => ?_) ?_
  case refine_7 =>
    by_cases h : k = j <;> simp [part, h, PartialToolCall.append, PartialToolCall.ofDelta]
  all_goals simp [part]

theorem part_toolCall_none (k : ℕ) (id name : Option String) :
    part (.toolCall i ⟨k, id, name, none⟩) = part (.toolCall i ⟨k, id, name, some ""⟩) := rfl

/-- The fragments of a text add up to the text. -/
theorem sum_content (fragments : List String) :
    (fragments.map fun s => part (.content i s)).sum = part (.content i (String.join fragments)) := by
  induction fragments with
  | nil => rfl
  | cons s fragments ih =>
    rw [List.map_cons, List.sum_cons, ih, part_content_add, String.join_cons]

theorem sum_thinking (fragments : List String) :
    (fragments.map fun s => part (.thinking i s)).sum =
      part (.thinking i (String.join fragments)) := by
  induction fragments with
  | nil => rfl
  | cons s fragments ih =>
    rw [List.map_cons, List.sum_cons, ih, part_thinking_add, String.join_cons]

/-- The first fragment of a call and those that follow add up to the call. -/
theorem sum_toolCall (k : ℕ) (id name : Option String) (a : String) (fragments : List String) :
    part (.toolCall i ⟨k, id, name, some a⟩) +
        (fragments.map fun s => part (.toolCall i ⟨k, none, none, some s⟩)).sum =
      part (.toolCall i ⟨k, id, name, some (a ++ String.join fragments)⟩) := by
  induction fragments generalizing a with
  | nil => simp
  | cons s fragments ih =>
    rw [List.map_cons, List.sum_cons, ← add_assoc, part_toolCall_add, ih, String.join_cons,
      String.append_assoc]

end Gathered

/-! ## Numbered calls -/

section

variable {α β : Type} (isCall : α → Prop) [DecidablePred isCall] (part : ℕ → α → Gathered)

/-- What entries gather, those that are calls numbered from `k` on. -/
def numbered : ℕ → List α → Gathered
  | _, [] => 0
  | k, a :: l => part k a + numbered (if isCall a then k + 1 else k) l

/-- The calls are numbered in the order of their entries. -/
theorem calls_numbered {call : α → PartialToolCall}
    (h : ∀ k a j, (part k a).calls j = if isCall a ∧ k = j then some (call a) else none)
    (k : ℕ) (l : List α) (j : ℕ) : (numbered isCall part k l).calls j =
      if k ≤ j then (l.filter isCall)[j - k]?.map call else none := by
  induction l generalizing k with
  | nil => simp [numbered]
  | cons a l ih =>
    rw [numbered, Gathered.calls_add, h, ih]
    by_cases ha : isCall a
    · rw [List.filter_cons_of_pos (p := fun a => decide (isCall a)) (decide_eq_true ha)]
      rcases lt_trichotomy k j with hk | hk | hk
      · obtain ⟨i, rfl⟩ : ∃ i, j = k + 1 + i := ⟨j - (k + 1), by omega⟩
        have hi : k + 1 + i - k = i + 1 := by omega
        simp [ha, hk.ne, hk.le, hi]
      · simp [ha, hk]
      · simp [ha, hk.ne', Nat.not_le.mpr hk, Nat.not_le.mpr (Nat.lt_succ_of_lt hk)]
    · rw [List.filter_cons_of_neg (p := fun a => decide (isCall a)) (by simpa using ha)]
      simp [ha]

/-- Entries that gather alike, seen through `f`, gather alike. -/
theorem numbered_congr {f : Gathered → Gathered} (hf : ∀ a b, f (a + b) = f a + f b)
    {part' : ℕ → α → Gathered} (h : ∀ k a, f (part k a) = f (part' k a)) (k : ℕ) (l : List α) :
    f (numbered isCall part k l) = f (numbered isCall part' k l) := by
  induction l generalizing k with
  | nil => rfl
  | cons a l ih => rw [numbered, numbered, hf, hf, h, ih]

theorem numbered_map (g : β → α) (k : ℕ) (l : List β) : numbered isCall part k (l.map g) =
    numbered (fun b => isCall (g b)) (fun k b => part k (g b)) k l := by
  induction l generalizing k with
  | nil => rfl
  | cons b l ih => rw [List.map_cons, numbered, numbered, ih]

end

end Llmleaf
