import Llmleaf.Providers.HopEvents

/-!
# From one node to another

What the mapper of a calling node makes of the frames of the node it calls.

- `readEvents_streamFrames`: the frames, as renderings of the items of the stream.
- `decode_streamFrames`: what the mapper makes of them.
- `hop_preserves`: what is collected of that, by what the called node would collect.
-/

namespace Llmleaf.NodeHop

open Responses ResponsesWire

/-! ## Streams that can be handed on -/

/-- The fragments of a call of choice 0. -/
def fragments (k : ℕ) (chunks : List StreamChunk) : List ToolCallDelta :=
  chunks.filterMap (StreamChunk.fragmentOf 0 k)

/-- The first fragment of every call has its id and name. -/
def Announced (chunks : List StreamChunk) : Prop :=
  ∀ k first rest, fragments k chunks = first :: rest → ∃ id name,
    first.id = some id ∧ first.name = some name ∧
      ∀ call ∈ rest, (∀ id' ∈ call.id, id' = id) ∧ ∀ name' ∈ call.name, name' = name

/-- Every signature directly follows reasoning. -/
def SignedAtOnce (chunks : List StreamChunk) : Prop :=
  ∀ pre signature post, chunks = pre ++ .thinkingSignature 0 signature :: post →
    ∃ delta, pre.getLast? = some (.thinking 0 delta)

theorem Announced.init {chunks : List StreamChunk} {c : StreamChunk}
    (h : Announced (chunks ++ [c])) : Announced chunks := by
  intro k first rest hfirst
  obtain ⟨id, name, hid, hname, hrest⟩ := h k first (rest ++ fragments k [c]) (by
    rw [fragments, List.filterMap_append, ← fragments, hfirst]
    rfl)
  exact ⟨id, name, hid, hname, fun call hcall => hrest call (List.mem_append_left _ hcall)⟩

/-- A call as its fragments have it. -/
theorem tools_live (chunks : List StreamChunk) (k : ℕ) : (live chunks).acc.tools.lookup k =
    (PartialToolCall.ofDeltas (fragments k chunks)).map PartialToolCall.intoCall := by
  rw [(folded_live chunks).calls, (slot_holds chunks 0).calls, gathered_calls]
  rfl

/-- What all that is given agrees on is the last given. -/
theorem getLast?_of_forall {α : Type} {l : List α} {a : α} (hmem : a ∈ l) (h : ∀ b ∈ l, b = a) :
    l.getLast? = some a := by
  rw [List.getLast?_eq_some_getLast (List.ne_nil_of_mem hmem)]
  exact congrArg some (h _ (List.getLast_mem _))

/-- A call that was announced keeps its id and name. -/
theorem Announced.keeps {chunks : List StreamChunk} {call : ToolCallDelta}
    (h : Announced (chunks ++ [.toolCall 0 call])) {acc : ToolCall}
    (hacc : (live chunks).acc.tools.lookup call.index = some acc) :
    call.id.getD acc.id = acc.id ∧ call.name.getD acc.name = acc.name := by
  rw [tools_live, Option.map_eq_some_iff] at hacc
  obtain ⟨p, hp, rfl⟩ := hacc
  have hall : fragments call.index (chunks ++ [.toolCall 0 call]) =
      fragments call.index chunks ++ [call] := by
    simp [fragments, List.filterMap_append, StreamChunk.fragmentOf]
  cases hfirst : fragments call.index chunks with
  | nil => simp [hfirst, PartialToolCall.ofDeltas] at hp
  | cons first rest =>
    rw [hfirst, List.cons_append] at hall
    obtain ⟨id, name, hid, hname, hrest⟩ := h _ _ _ hall
    have hlast {f : ToolCallDelta → Option String} {x : String} (hx : f first = some x)
        (hf : ∀ c ∈ rest, ∀ y ∈ f c, y = x) : ((first :: rest).filterMap f).getLast? = some x := by
      refine getLast?_of_forall (List.mem_filterMap.mpr ⟨first, List.mem_cons_self, hx⟩) ?_
      intro y hy
      obtain ⟨c, hc, hcy⟩ := List.mem_filterMap.mp hy
      rcases List.mem_cons.mp hc with rfl | hc
      · rw [hx] at hcy
        exact (Option.some.inj hcy).symm
      · exact hf c hc y hcy
    rw [hfirst, PartialToolCall.ofDeltas, if_neg (List.cons_ne_nil _ _), Option.some.injEq,
      hlast hid fun c hc => (hrest c (List.mem_append_left _ hc)).1,
      hlast hname fun c hc => (hrest c (List.mem_append_left _ hc)).2] at hp
    obtain ⟨hcid, hcname⟩ := hrest call (by simp)
    subst hp
    refine ⟨?_, ?_⟩
    · cases hci : call.id with
      | none => rfl
      | some id' => exact hcid id' hci
    · cases hcn : call.name with
      | none => rfl
      | some name' => exact hcname name' hcn

/-- What a stream has written. -/
theorem written_live (requestId model : String) (created : ℕ) (echo : RequestEcho)
    {chunks : List StreamChunk} (hcontiguous : ∀ k, ¬ Interrupted k chunks)
    (hannounced : Announced chunks) :
    Written (chunks.foldl Writing.encode (.new requestId model created echo)) (live chunks) := by
  induction chunks using List.reverseRecOn with
  | nil => exact .inr ⟨rfl, rfl⟩
  | append_singleton chunks c ih =>
    have hr := (Refines.new requestId model created echo).foldl chunks
    have hwritten := ih (fun k => not_interrupted_prefix (hcontiguous k)) hannounced.init
    rw [List.foldl_concat, live, List.foldl_concat, ← live, Live.step]
    rw [← live] at hr
    by_cases hc : c.index.getD 0 = 0
    · rw [if_pos hc]
      refine Written.take hr hwritten hc fun call hcall => ?_
      subst hcall
      refine (new_or_open (hcontiguous call.index)).imp id fun hopen => ?_
      obtain ⟨acc, hcur⟩ := hopen
      have hacc : (live chunks).acc.tools.lookup call.index = some acc := by
        have hopened := hr.opened
        rw [hcur] at hopened
        generalize (chunks.foldl Writing.encode
          (.new requestId model created echo)).enc.openItem = opened at hopened
        cases hopened
        assumption
      exact ⟨acc, hcur, hannounced.keeps hacc⟩
    · rw [if_neg hc, encode_other _ hc]
      exact hwritten

/-! ## The whole stream -/

/-- The state of the mapper before the stream. -/
def freshState (fallback : String) (preserveOrder : Bool) : ResponsesSseState :=
  { ResponsesSseState.new fallback with preserveOrder := preserveOrder }

/-- The documents of the items of a stream, each with its position. -/
def itemsOf (requestId : String) (runs : List Run) : List (Value × ℕ) :=
  ((Responses.numbered requestId runs).map Item.json).zipIdx

/-- The frames of a stream, as the mapper reads them. -/
theorem readEvents_streamFrames (requestId model : String) (created : ℕ) (echo : RequestEcho)
    {chunks : List StreamChunk} (hcontiguous : ∀ k, ¬ Interrupted k chunks)
    (hannounced : Announced chunks) : ∃ first items last r,
    readEvents (streamFrames requestId model created echo chunks) = first :: (items ++ [last]) ∧
      first.textAt ["type"] = some "response.created" ∧
      RendersItems (itemsOf (streamId requestId model created echo chunks) (live chunks).runs)
        items ∧
      (∃ type ∈ ["response.completed", "response.incomplete", "response.failed"],
        last.textAt ["type"] = some type) ∧
      last.get "response" = some (Response.json r) ∧
      r.answer = answerOf (streamId requestId model created echo chunks)
        (some (live chunks).acc.choice) (live chunks).acc.usage := by
  have hr := (Refines.new requestId model created echo).foldl chunks
  have hwritten := written_live requestId model created echo hcontiguous hannounced
  obtain ⟨hread, hcreated, hclosed, hopened⟩ := Begun.closeOpen hr.ensureStarted
    (Written.ensureStarted hr hwritten)
  obtain rfl := hopened
  rw [requestId_end, ← streamId] at hclosed
  have hanswer := terminal_streamFrames requestId model created echo chunks
  have hid : streamId requestId model created echo chunks =
    (chunks.foldl Writing.encode (.new requestId model created echo)).enc.requestId := rfl
  rw [streamFrames, Writing.finish, Writing.push] at hanswer ⊢
  generalize (chunks.foldl Writing.encode
    (.new requestId model created echo)).ensureStarted.closeOpen = closed at *
  rw [terminal, List.getLast?_concat, Option.bind_some, Frame.snapshot, Option.map_some,
    Option.some.injEq] at hanswer
  refine ⟨_, _, Frame.json ⟨Writing.terminalEvent closed.snapshot.status,
    .response closed.snapshot, closed.enc.seq⟩, closed.snapshot, ?_, hcreated, hclosed,
    ⟨_, Writing.terminalEvent_mem _, Frame.textAt_type⟩, Frame.get_response rfl, hanswer⟩
  have hterminal : Writing.terminalEvent closed.snapshot.status ∈ handled := by
    have hmem := Writing.terminalEvent_mem closed.snapshot.status
    simp only [List.mem_cons, List.not_mem_nil, or_false] at hmem
    rcases hmem with h | h | h <;> simp [handled, h]
  rw [readEvents_concat, if_pos hterminal, hread]
  simp

/-- What the mapper makes of an item of a stream, at its position. -/
def hopPart (preserveOrder : Bool) (requestId : String) (runs : List Run) : Gathered :=
  numbered (fun p : Value × ℕ => IsCall p.1) (itemPart preserveOrder) 0 (itemsOf requestId runs)

/-- **What the mapper makes of a stream**: one start, the items, their usage and one finish. -/
theorem decode_streamFrames (requestId model : String) (created : ℕ) (echo : RequestEcho)
    {chunks : List StreamChunk} (hcontiguous : ∀ k, ¬ Interrupted k chunks)
    (hannounced : Announced chunks) (fallback : String) (preserveOrder : Bool) :
    ∃ id name body r st', mapEvents canonical
        ((streamFrames requestId model created echo chunks).map Frame.json)
        (freshState fallback preserveOrder) =
      .ok (.start id name :: (body ++ [.usage (responsesUsage (usageJson
        (live chunks).acc.usage).json), .finish 0 r]), st') ∧
      (∀ c ∈ body, c.index = some 0) ∧
      gathered 0 body = hopPart preserveOrder (streamId requestId model created echo chunks)
        (live chunks).runs ∧
      (∀ reason ∈ (live chunks).acc.finish, reason ∈ [.length, .contentFilter, .error] →
        r = reason) := by
  obtain ⟨first, items, last, response, hread, hcreated, hitems, ⟨type, hmem, htype⟩, hresponse,
    hanswer⟩ := readEvents_streamFrames requestId model created echo hcontiguous hannounced
  obtain ⟨id, name, hfirst⟩ : ∃ id name, canonical first (freshState fallback preserveOrder) =
      .ok ([.start id name], { freshState fallback preserveOrder with seenStart := true }) :=
    ⟨_, _, canonical_created hcreated rfl⟩
  have hidentified : ∀ p ∈ itemsOf (streamId requestId model created echo chunks)
      (live chunks).runs, IsCall p.1 → (p.1.textAt ["id"]).isSome := by
    intro p hp _
    obtain ⟨item, hitem, hp⟩ := List.mem_map.mp (List.fst_mem_of_mem_zipIdx hp)
    obtain ⟨run, -, i, rfl⟩ := exists_of_mem_mapIdx hitem
    rw [← hp, textAt_id]
    rfl
  obtain ⟨body, t, hrun, -, hindex, hpart⟩ := hitems.run hidentified
    { freshState fallback preserveOrder with seenStart := true }
  have husage : response.json.get "usage" = some (usageJson (live chunks).acc.usage).json := by
    have h : response.usage = some (usageJson (live chunks).acc.usage) :=
      congrArg (fun a => a.2.2.2) hanswer
    simp [Response.json, h]
  have hlast : canonical last t = .ok ([.usage (responsesUsage (usageJson
      (live chunks).acc.usage).json), .finish 0 (responsesFinishReason response.json
        t.sawFunctionCall)], { t with finished := true }) := by
    rw [canonical_last hmem htype hresponse, husage]
    rfl
  refine ⟨id, name, body, responsesFinishReason response.json t.sawFunctionCall,
    { t with finished := true }, ?_, hindex, hpart, ?_⟩
  · rw [mapEvents_filter canonical_unread, ← readEvents, hread, mapEvents_cons hfirst
      (mapEvents_append hrun (mapEvents_cons hlast rfl))]
    simp
  · intro reason hreason hmem
    have hstatus : response.status = (statusFor (live chunks).acc.finish).1 :=
      congrArg (fun a => a.2.1) hanswer
    have hdetails : response.incompleteDetails = (statusFor (live chunks).acc.finish).2 :=
      congrArg (fun a => a.2.2.1) hanswer
    have hfinish : (live chunks).acc.finish = some reason := hreason
    simp only [List.mem_cons, List.not_mem_nil, or_false] at hmem
    rcases hmem with rfl | rfl | rfl <;>
      simp [responsesFinishReason, Response.json, hstatus, hdetails, hfinish, statusFor,
        Value.textAt, Value.path_cons, Value.asStr]

/-! ## What the items amount to -/

/-- The signature that comes with a completed item. -/
def sealedBy : Run → Option String
  | .reasoning _ sig => sig.filter (· ≠ "")
  | _ => none

/-- What the mapper makes of a compaction item at a position. -/
def hoppedPart (requestId : String) (index : ℕ) (m : Mark) : ContentPart :=
  Slot.compactionPart (some (index % 2 ^ 32)) m.delta
    (some (m.id.getD (itemId "cmp" requestId index))) m.encryptedContent m.signature

theorem content_getD (m : Mark) : m.content.getD "" = m.delta := by
  unfold Mark.content
  split <;> simp_all

/-- What an item of a stream amounts to, besides a call. -/
theorem gathered_item (requestId : String) (callIndex index : ℕ) (run : Run) :
    let g := gathered 0 (itemChunks callIndex (run.item requestId index).json index)
    g.text = run.words.getD "" ∧ g.thinking = run.thought.getD "" ∧ g.signature = sealedBy run ∧
      g.redacted = (run.data.filter (· ≠ "")).toList ∧
      g.compaction = (run.mark.map (hoppedPart requestId index)).toList ∧ g.finish = none := by
  cases run with
  | reasoning text sig =>
    have hchunks : itemChunks callIndex (Run.item requestId index (.reasoning text sig)).json index =
        thinkingChunk 0 (some text) ++
          ((sig.filter (· ≠ "")).map (StreamChunk.thinkingSignature 0)).toList := by
      simp [itemChunks, reasoningTexts, sealedChunks, Run.item, Item.json, Value.asStr,
        Value.asArray, Item.reasoningText, List.flatMap]
    rw [hchunks, gathered_append, gathered_thinkingChunk]
    cases hsig : sig.filter (· ≠ "") with
    | none =>
      simp only [sealedBy, hsig]
      simp [Run.words, Run.thought, Run.data, Run.mark, gathered_nil, Gathered.part]
    | some signature =>
      simp only [sealedBy, hsig, Option.map_some, Option.toList_some]
      rw [gathered_one rfl]
      simp [Run.words, Run.thought, Run.data, Run.mark, Gathered.part]
  | redacted data =>
    have hchunks : itemChunks callIndex (Run.item requestId index (.redacted data)).json index =
        (((some data).filter (· ≠ "")).map (StreamChunk.redactedThinking 0)).toList := by
      simp [itemChunks, reasoningTexts, sealedChunks, Run.item, Item.json, Value.asStr,
        Value.asArray, List.flatMap]
    rw [hchunks]
    cases hdata : (some data).filter (· ≠ "") with
    | none =>
      simp only [Run.data, hdata]
      simp [sealedBy, Run.words, Run.thought, Run.mark, gathered_nil]
    | some sent =>
      simp only [Run.data, hdata, Option.map_some, Option.toList_some]
      rw [gathered_one rfl]
      simp [sealedBy, Run.words, Run.thought, Run.mark, Gathered.part]
  | message text =>
    have hchunks : itemChunks callIndex (Run.item requestId index (.message text)).json index =
        contentChunk 0 (some text) := by
      simp [itemChunks, outputTexts, Run.item, Item.json, Value.asStr, Value.asArray,
        textAt_outputText, List.flatMap]
    rw [hchunks, gathered_contentChunk]
    simp [sealedBy, Run.words, Run.thought, Run.data, Run.mark, Gathered.part]
  | call canon acc =>
    have hchunks : itemChunks callIndex (Run.item requestId index (.call canon acc)).json index =
        [.toolCall 0 ⟨callIndex, some acc.id, some acc.name, some acc.arguments⟩] := by
      simp [itemChunks, Run.item, Item.json, Value.asStr]
    rw [hchunks, gathered_one rfl]
    simp [sealedBy, Run.words, Run.thought, Run.data, Run.mark, Gathered.part]
  | compaction mark =>
    have hchunks : itemChunks callIndex (Run.item requestId index (.compaction mark)).json index =
        [.compaction (some (index % 2 ^ 32)) 0 mark.delta
          (some (mark.id.getD (itemId "cmp" requestId index))) mark.encryptedContent
          mark.signature] := by
      simp [itemChunks, compactionChunk, Run.item, Item.json, Value.asStr, content_getD]
    rw [hchunks, gathered_one rfl]
    simp [sealedBy, Run.words, Run.thought, Run.data, Run.mark, Gathered.part, hoppedPart]

/-- The document of an item with its position. -/
def placed (requestId : String) (p : Run × ℕ) : Value × ℕ := ((p.1.item requestId p.2).json, p.2)

theorem itemsOf_eq (requestId : String) (runs : List Run) :
    itemsOf requestId runs = runs.zipIdx.map (placed requestId) := by
  induction runs using List.reverseRecOn with
  | nil => rfl
  | append_singleton runs run ih =>
    rw [itemsOf, zipIdx_numbered_concat, ← itemsOf, ih, List.zipIdx_append, List.map_append]
    simp [placed]

theorem gathered_placed (preserveOrder : Bool) (requestId : String) (k : ℕ) (p : Run × ℕ) :
    let g := itemPart preserveOrder k (placed requestId p)
    g.text = p.1.words.getD "" ∧ g.thinking = p.1.thought.getD "" ∧ g.signature = sealedBy p.1 ∧
      g.redacted = (p.1.data.filter (· ≠ "")).toList ∧
      g.compaction = (p.1.mark.map (hoppedPart requestId p.2)).toList ∧ g.finish = none := by
  obtain ⟨ht, hth, hs, hr, hc, hf⟩ := gathered_item requestId k p.2 p.1
  simp only [itemPart, placed, gathered_messageChunk]
  refine ⟨?_, ?_, ?_, ?_, ?_, ?_⟩
  · rw [Gathered.text_add, ht]
    exact String.append_empty
  · rw [Gathered.thinking_add, hth]
    exact String.append_empty
  · rw [Gathered.signature_add, hs]
    rfl
  · rw [Gathered.redacted_add, hr]
    exact List.append_nil _
  · rw [Gathered.compaction_add, hc]
    exact List.append_nil _
  · rw [Gathered.finish_add, hf]
    rfl

/-- What the mapper makes of items, besides the calls. -/
theorem gathered_items (preserveOrder : Bool) (requestId : String) (k : ℕ) (l : List (Run × ℕ)) :
    let g := numbered (fun p : Value × ℕ => IsCall p.1) (itemPart preserveOrder) k
      (l.map (placed requestId))
    g.text = String.join (l.filterMap fun p => p.1.words) ∧
      g.thinking = String.join (l.filterMap fun p => p.1.thought) ∧
      g.signature = (l.filterMap fun p => sealedBy p.1).getLast? ∧
      g.redacted = (l.filterMap fun p => p.1.data).filter (· ≠ "") ∧
      g.compaction = (l.filterMap fun p => p.1.mark.map (hoppedPart requestId p.2)) ∧
      g.finish = none := by
  induction l generalizing k with
  | nil => exact ⟨rfl, rfl, rfl, rfl, rfl, rfl⟩
  | cons p l ih =>
    obtain ⟨htext, hthinking, hsignature, hredacted, hcompaction, hfinish⟩ :=
      ih (if IsCall (placed requestId p).1 then k + 1 else k)
    obtain ⟨ht, hth, hs, hr, hc, hf⟩ := gathered_placed preserveOrder requestId k p
    simp only [List.map_cons, numbered, List.filterMap_cons]
    refine ⟨?_, ?_, ?_, ?_, ?_, ?_⟩
    · rw [Gathered.text_add, ht, htext]
      cases p.1.words <;> simp
    · rw [Gathered.thinking_add, hth, hthinking]
      cases p.1.thought <;> simp
    · rw [Gathered.signature_add, hs, hsignature]
      cases sealedBy p.1 <;> simp [List.getLast?_cons]
    · rw [Gathered.redacted_add, hr, hredacted]
      cases p.1.data with
      | none => rfl
      | some data => by_cases hdata : data = "" <;> simp [Option.filter, hdata]
    · rw [Gathered.compaction_add, hc, hcompaction]
      cases p.1.mark <;> rfl
    · rw [Gathered.finish_add, hf, hfinish]
      rfl

/-- The call of an item, as the mapper has it. -/
def hoppedCall (e : ℕ × ToolCall) : PartialToolCall :=
  ⟨some e.2.id, some e.2.name, e.2.arguments⟩

theorem calls_hopPart (preserveOrder : Bool) (requestId : String) (runs : List Run) (k : ℕ) :
    (hopPart preserveOrder requestId runs).calls k =
      ((runs.filterMap Run.entry).map hoppedCall)[k]? := by
  have hcalls (l : List (Run × ℕ)) : ((l.map (placed requestId)).filter fun p => IsCall p.1).map
      (fun p => callPart p.1) = (l.filterMap fun p => p.1.entry).map hoppedCall := by
    induction l with
    | nil => rfl
    | cons p l ih =>
      rw [List.map_cons, List.filter_cons, List.filterMap_cons]
      obtain ⟨run, i⟩ := p
      cases run with
      | call canon acc =>
        have hcall : IsCall (placed requestId (.call canon acc, i)).1 := by
          simp [IsCall, placed, Run.item, Item.json, Value.asStr]
        rw [if_pos (decide_eq_true hcall), List.map_cons, ih]
        simp [Run.entry, hoppedCall, callPart, placed, Run.item, Item.json, Value.asStr]
      | _ =>
        rw [if_neg (by simp [IsCall, placed, Run.item, Item.json, Value.asStr]), ih]
        rfl
  rw [hopPart, itemsOf_eq, calls_numbered _ _ (calls_itemPart preserveOrder), if_pos (Nat.zero_le k),
    Nat.sub_zero, ← List.getElem?_map, hcalls]
  congr 2
  conv_rhs => rw [← List.zipIdx_map_fst 0 runs, List.filterMap_map]
  rfl

/-! ## Signatures -/

/-- The signature of an item. -/
def signatureOf : Run → Option String
  | .reasoning _ sig => sig
  | _ => none

/-- The last signature is that of the last signed item. -/
def Signs (s : Live) : Prop := s.acc.thinkSig = (s.runs.filterMap signatureOf).getLast?

theorem Signs.extend {s : Live} (h : Signs s) {f : Accumulated → Accumulated}
    (hf : (f s.acc).thinkSig = s.acc.thinkSig) {g : Run → Option Run} {new : Run}
    (hg : ∀ run run', g run = some run' → signatureOf run' = signatureOf run)
    (hnew : signatureOf new = none) : Signs ((s.accumulate f).extend g new) := by
  rw [Signs, Live.acc_extend, Live.filterMap_extend hg hnew]
  exact hf.trans h

theorem Signs.whole {s : Live} (h : Signs s) {f : Accumulated → Accumulated}
    (hf : (f s.acc).thinkSig = s.acc.thinkSig) {run : Run} (hrun : signatureOf run = none) :
    Signs ((s.accumulate f).whole run) := by
  have hruns : ((s.accumulate f).whole run).runs = s.runs ++ [run] := List.append_nil _
  rw [Signs, hruns, List.filterMap_append, List.filterMap_cons_none hrun, List.filterMap_nil,
    List.append_nil]
  exact hf.trans h

/-- One chunk; a signature finds its reasoning open. -/
theorem Signs.take {s : Live} (h : Signs s) (c : StreamChunk)
    (hsigned : ∀ index signature, c = .thinkingSignature index signature →
      ∃ text sig, s.cur = some (.reasoning text sig)) : Signs (s.take c) := by
  cases c with
  | thinkingSignature index signature =>
    obtain ⟨text, sig, hcur⟩ := hsigned index signature rfl
    simp [Signs, Live.take, Live.runs, Live.accumulate, hcur, Run.sign, signatureOf]
  | thinking index delta =>
    refine h.extend rfl (fun run run' hrun => ?_) rfl
    obtain ⟨text, sig, rfl, rfl⟩ := Run.think_some hrun
    rfl
  | content index delta =>
    refine h.extend rfl (fun run run' hrun => ?_) rfl
    obtain ⟨text, rfl, rfl⟩ := Run.say_some hrun
    rfl
  | toolCall index call =>
    refine h.extend rfl (fun run run' hrun => ?_) rfl
    obtain ⟨old, rfl, rfl⟩ := Run.fragment_some hrun
    rfl
  | redactedThinking index data => exact h.whole rfl rfl
  | compaction outputIndex index delta id encryptedContent signature => exact h.whole rfl rfl
  | finish index reason =>
    have hruns : (s.take (.finish index reason)).runs = s.runs := List.append_nil _
    rw [Signs, hruns]
    exact h
  | start | usage | outputItem => exact h

theorem SignedAtOnce.init {chunks : List StreamChunk} {c : StreamChunk}
    (h : SignedAtOnce (chunks ++ [c])) : SignedAtOnce chunks := by
  intro pre signature post e
  exact h pre signature (post ++ [c]) (by rw [e]; simp)

/-- After reasoning, reasoning is open. -/
theorem cur_thinking (chunks : List StreamChunk) (delta : String) :
    ∃ text sig, (live (chunks ++ [.thinking 0 delta])).cur = some (.reasoning text sig) := by
  have hstep : live (chunks ++ [.thinking 0 delta]) = (live chunks).take (.thinking 0 delta) := by
    rw [live, List.foldl_concat, ← live]
    rfl
  rw [hstep, Live.take, Live.extend]
  split
  · rename_i run' hrun
    obtain ⟨run, -, hrun⟩ := Option.bind_eq_some_iff.mp hrun
    obtain ⟨text, sig, rfl, rfl⟩ := Run.think_some hrun
    exact ⟨_, _, rfl⟩
  · exact ⟨_, _, rfl⟩

/-- The signature of a stream that signs at once is that of its last signed item. -/
theorem signs_live {chunks : List StreamChunk} (h : SignedAtOnce chunks) :
    Signs (live chunks) := by
  induction chunks using List.reverseRecOn with
  | nil => rfl
  | append_singleton chunks c ih =>
    have hs := ih h.init
    rw [live, List.foldl_concat, ← live, Live.step]
    split
    · rename_i hc
      refine hs.take c fun index signature he => ?_
      subst he
      obtain rfl : index = 0 := hc
      obtain ⟨delta, hlast⟩ := h chunks signature [] rfl
      obtain ⟨pre, rfl⟩ := List.getLast?_eq_some_iff.mp hlast
      exact cur_thinking pre delta
    · exact hs

/-- A last signature that is not empty is the last of the signatures that are not. -/
theorem sealedBy_eq (run : Run) : sealedBy run = (signatureOf run).filter (· ≠ "") := by
  cases run <;> rfl

theorem getLast?_sealedBy {runs : List Run}
    (h : (runs.filterMap signatureOf).getLast? ≠ some "") :
    (runs.filterMap sealedBy).getLast? = (runs.filterMap signatureOf).getLast? := by
  induction runs using List.reverseRecOn with
  | nil => rfl
  | append_singleton runs run ih =>
    rw [List.filterMap_append] at h ⊢
    rw [List.filterMap_append]
    cases hsig : signatureOf run with
    | none =>
      have hseal : sealedBy run = none := by
        rw [sealedBy_eq, hsig]
        rfl
      simp only [List.filterMap_cons_none hsig, List.filterMap_cons_none hseal, List.filterMap_nil,
        List.append_nil] at h ⊢
      exact ih h
    | some signature =>
      have hne : signature ≠ "" := by
        rintro rfl
        simp [hsig] at h
      have hseal : sealedBy run = some signature := by
        rw [sealedBy_eq, hsig]
        exact Option.filter_eq_some_iff.mpr ⟨rfl, decide_eq_true hne⟩
      simp [hsig, hseal]

/-! ## The order of the calls -/

/-- The calls of choice 0 in the order in which they begin. -/
def begun (chunks : List StreamChunk) : List ℕ :=
  ((ofChoice 0 chunks).filterMap StreamChunk.callIndex).eraseDups

theorem begun_call (chunks : List StreamChunk) (call : ToolCallDelta) :
    begun (chunks ++ [.toolCall 0 call]) =
      if call.index ∈ begun chunks then begun chunks else begun chunks ++ [call.index] := by
  have hnew : (ofChoice 0 [StreamChunk.toolCall 0 call]).filterMap StreamChunk.callIndex =
      [call.index] := rfl
  rw [begun, ofChoice_append, List.filterMap_append, hnew, List.eraseDups_append]
  simp only [begun, List.mem_eraseDups]
  generalize (ofChoice 0 chunks).filterMap StreamChunk.callIndex = before
  by_cases h : call.index ∈ before
  · simp [List.removeAll, h]
  · simp [List.removeAll, h, List.eraseDups_cons]

theorem begun_other (chunks : List StreamChunk) {c : StreamChunk}
    (hc : ∀ call, c ≠ .toolCall 0 call) : begun (chunks ++ [c]) = begun chunks := by
  have hnone : (ofChoice 0 [c]).filterMap StreamChunk.callIndex = [] := by
    refine List.filterMap_eq_nil_iff.mpr fun c' hmem => ?_
    obtain ⟨hmem, hindex⟩ := List.mem_filter.mp hmem
    obtain rfl := List.mem_singleton.mp hmem
    cases c' with
    | toolCall index call =>
      obtain rfl : index = 0 := Option.some.inj (of_decide_eq_true hindex)
      exact absurd rfl (hc call)
    | _ => rfl
  rw [begun, ofChoice_append, List.filterMap_append, hnone, List.append_nil, begun]

/-- The items of uninterrupted calls stand in the order in which the calls begin. -/
theorem canons_live {chunks : List StreamChunk} (h : ∀ k, ¬ Interrupted k chunks) :
    (live chunks).canons = begun chunks := by
  induction chunks using List.reverseRecOn with
  | nil => rfl
  | append_singleton chunks c ih =>
    have hs := ih fun k => not_interrupted_prefix (h k)
    have hstep : live (chunks ++ [c]) = (live chunks).step c := by
      rw [live, List.foldl_concat, ← live]
    by_cases hcall : ∃ call, c = .toolCall 0 call
    · obtain ⟨call, rfl⟩ := hcall
      have honce := (follows_live _ call.index).once.mpr (h call.index)
      rw [hstep, ((live chunks).canons_step_call call).2] at honce ⊢
      rw [begun_call, ← hs]
      split at honce
      · rename_i hopen
        have hin : call.index ∈ (live chunks).canons := by
          obtain ⟨run, hcur, hrun⟩ := Option.bind_eq_some_iff.mp hopen
          exact List.mem_filterMap.mpr ⟨run, by simp [Live.runs, hcur], hrun⟩
        rw [if_pos hopen, if_pos hin]
      · rename_i hopen
        have hout : call.index ∉ (live chunks).canons := by
          rw [List.count_append, List.count_singleton_self] at honce
          exact List.count_eq_zero.mp (by omega)
        rw [if_neg hopen, if_neg hout]
    · rw [hstep, begun_other chunks fun call e => hcall ⟨call, e⟩, ← hs]
      cases htouch : touches 0 c with
      | none => exact ((live chunks).canons_step_none htouch).2
      | some b =>
        rcases touches_some htouch with ⟨hnone, rfl⟩ | ⟨call, hc, -⟩
        · exact ((live chunks).canons_step_other htouch hnone).2
        · exact absurd ⟨call, hc⟩ hcall

/-! ## The answer -/

/-- The text of reasoning. -/
def thoughtOf : ContentPart → Option String
  | .thinking text _ => some text
  | _ => none

/-- The signature of reasoning. -/
def sealOf : ContentPart → Option String
  | .thinking _ signature => signature
  | _ => none

/-- The data of redacted reasoning. -/
def dataOf : ContentPart → Option String
  | .redactedThinking data => some data
  | _ => none

/-- The same compaction: a content that is missing is empty, and an id that is given is kept. -/
def SamePayload (a b : ContentPart) : Prop :=
  ∃ index index' id id' content content' encryptedContent signature,
    a = .compaction index id content encryptedContent signature ∧
    b = .compaction index' id' content' encryptedContent signature ∧
    content'.getD "" = content.getD "" ∧ (id.isSome → id' = id)

/-- Choice 0, as a stream is collected. -/
def answer (chunks : List StreamChunk) : Choice := (chunks.foldl Collected.step .empty).choice 0

/-- Only a call that has fragments is interrupted. -/
theorem mem_of_interrupted {k : ℕ} {chunks : List StreamChunk} (h : Interrupted k chunks) :
    k ∈ chunks.filterMap StreamChunk.callIndex := by
  obtain ⟨c, hc, htouch⟩ := List.mem_filterMap.mp
    (h.subset (show true ∈ [true, false, true] by simp))
  rcases touches_some htouch with ⟨-, hfalse⟩ | ⟨call, rfl, hk⟩
  · cases hfalse
  · exact List.mem_filterMap.mpr ⟨_, hc, congrArg some (of_decide_eq_true hk)⟩

theorem mem_of_fragments {k : ℕ} {chunks : List StreamChunk} (h : fragments k chunks ≠ []) :
    k ∈ chunks.filterMap StreamChunk.callIndex := by
  obtain ⟨call, hcall⟩ := List.exists_mem_of_ne_nil _ h
  obtain ⟨c, hc, hcall⟩ := List.mem_filterMap.mp hcall
  cases c <;> simp [StreamChunk.fragmentOf] at hcall
  exact List.mem_filterMap.mpr ⟨_, hc, by simp [StreamChunk.callIndex, ← hcall.1.2, hcall]⟩

/-- What the calling node collects, by what the called node would. -/
structure HandedOn (chunks decoded : List StreamChunk) : Prop where
  start : ∃ opened, decoded.filterMap StreamChunk.opened = [opened]
  finish : ∃ reason, decoded.filterMap (StreamChunk.finishOf 0) = [reason] ∧
    ∀ reason' ∈ (answer chunks).finishReason,
      reason' ∈ [FinishReason.length, .contentFilter, .error] → reason = reason'
  text : (answer decoded).text = (answer chunks).text
  thinking : String.join ((answer decoded).thinking.filterMap thoughtOf) =
    String.join ((answer chunks).thinking.filterMap thoughtOf)
  signature : (answer chunks).thinking.filterMap sealOf ≠ [""] →
    (answer decoded).thinking.filterMap sealOf = (answer chunks).thinking.filterMap sealOf
  redacted : (answer decoded).thinking.filterMap dataOf =
    ((answer chunks).thinking.filterMap dataOf).filter (· ≠ "")
  compaction : List.Forall₂ SamePayload (answer chunks).compaction (answer decoded).compaction
  toolCalls : ∃ call : ℕ → ToolCall,
    (answer chunks).toolCalls = ((begun chunks).insertionSort (· ≤ ·)).map call ∧
      (answer decoded).toolCalls = (begun chunks).map call
  usage : (decoded.foldl Collected.step .empty).usage =
    { (chunks.foldl Collected.step .empty).usage with costUsd := none, cacheCreationTokens := 0 }

/-- The reasoning of a choice. -/
theorem thinkingParts_some (text : String) (sig : Option String) (datas : List String) :
    let parts := Collected.thinkingParts (some (text, sig)) (some datas)
    String.join (parts.filterMap thoughtOf) = text ∧ parts.filterMap sealOf = sig.toList ∧
      parts.filterMap dataOf = datas := by
  have hdatas {β : Type} (f : ContentPart → Option β) : (datas.map .redactedThinking).filterMap f =
      datas.filterMap fun data => f (.redactedThinking data) := by
    rw [List.filterMap_map]
    rfl
  have hnone {β : Type} : datas.filterMap (fun _ => (none : Option β)) = [] := by simp
  by_cases h : text ≠ "" ∨ sig.isSome
  · simp only [Collected.thinkingParts, if_pos h, Option.getD_some, List.filterMap_append, hdatas]
    cases sig <;> simp [thoughtOf, sealOf, dataOf]
  · simp only [Collected.thinkingParts, if_neg h, Option.getD_some, List.nil_append, hdatas]
    simp only [not_or, not_not, Option.not_isSome_iff_eq_none] at h
    obtain ⟨rfl, rfl⟩ := h
    simp [thoughtOf, sealOf, dataOf]

/-- What is collected of a stream, by what is accumulated of it. -/
theorem answer_live (chunks : List StreamChunk) :
    (answer chunks).text = (live chunks).acc.text ∧
      (answer chunks).thinking = Collected.thinkingParts
        (some ((live chunks).acc.thinkText, (live chunks).acc.thinkSig))
        (some (live chunks).acc.redacted) ∧
      (answer chunks).compaction = (marks (live chunks).runs).map Mark.collectedPart ∧
      (answer chunks).toolCalls = (live chunks).acc.tools.ascending.map Prod.snd ∧
      (answer chunks).finishReason = (live chunks).acc.finish := by
  have h := choice_live chunks
  rw [← answer] at h
  have hthinking := congrArg Choice.thinking h
  exact ⟨(congrArg Choice.text h).symm, hthinking.symm, (folded_live chunks).collected,
    (congrArg Choice.toolCalls h).symm, (congrArg Choice.finishReason h).symm⟩

/-- The calls of a stream without interruptions: by index when collected, as they begin when
handed on. -/
theorem calls_live {chunks : List StreamChunk} (h : ∀ k, ¬ Interrupted k chunks) :
    ∃ call : ℕ → ToolCall,
      (live chunks).acc.tools.ascending.map Prod.snd =
        ((begun chunks).insertionSort (· ≤ ·)).map call ∧
      ((live chunks).runs.filterMap Run.entry).map Prod.snd = (begun chunks).map call := by
  have htools := (tracks_live chunks).tools
  have hcanons := (Live.canons_eq _).symm.trans (canons_live h)
  have hnodup : (((live chunks).runs.filterMap Run.entry).map Prod.fst).Nodup := by
    rw [← Live.canons_eq, List.nodup_iff_count_le_one]
    exact fun k => (follows_live chunks k).once.mpr (h k)
  let call (k : ℕ) : ToolCall := ((live chunks).acc.tools.lookup k).getD ⟨"", "", ""⟩
  have hentries : (live chunks).runs.filterMap Run.entry =
      (begun chunks).map fun k => (k, call k) := by
    rw [← hcanons, List.map_map]
    refine (List.map_id _).symm.trans (List.map_congr_left fun e he => ?_)
    have hlookup := (mem_calls_iff hnodup htools e).mp he
    simp [call, hlookup]
  refine ⟨call, ?_, ?_⟩
  · have hsort := List.map_insertionSort (fun a b : ℕ => a ≤ b)
      (fun a b : ℕ × ToolCall => a.1 ≤ b.1) (fun k => (k, call k)) (begun chunks)
      fun _ _ _ _ => Iff.rfl
    rw [ascending_calls hnodup htools, hentries, ← hsort, List.map_map]
    rfl
  · rw [hentries, List.map_map]
    rfl

theorem samePayload_hoppedPart (requestId : String) (index : ℕ) (m : Mark) :
    SamePayload m.collectedPart (hoppedPart requestId index m) := by
  refine ⟨m.outputIndex, some (index % 2 ^ 32), m.id, _, m.collectedContent,
    if m.encryptedContent.isNone && m.delta != "" then some m.delta else none, m.encryptedContent,
    m.signature, rfl, rfl, ?_, fun hid => ?_⟩
  · cases henc : m.encryptedContent <;> cases hid : m.id <;> by_cases hdelta : m.delta = "" <;>
      simp [Mark.collectedContent, henc, hid, hdelta]
  · obtain ⟨id, hid⟩ := Option.isSome_iff_exists.mp hid
    rw [hid]
    rfl

theorem forall₂_hoppedPart (requestId : String) (l : List (Run × ℕ)) :
    List.Forall₂ SamePayload ((l.filterMap fun p => p.1.mark).map Mark.collectedPart)
      (l.filterMap fun p => p.1.mark.map (hoppedPart requestId p.2)) := by
  induction l with
  | nil => exact .nil
  | cons p l ih =>
    rw [List.filterMap_cons, List.filterMap_cons]
    cases p.1.mark with
    | none => exact ih
    | some m => exact .cons (samePayload_hoppedPart requestId p.2 m) ih

/-- What the items of a stream are gathered to. -/
theorem gathered_hopPart (preserveOrder : Bool) (requestId : String) (chunks : List StreamChunk) :
    let g := hopPart preserveOrder requestId (live chunks).runs
    g.text = (live chunks).acc.text ∧ g.thinking = (live chunks).acc.thinkText ∧
      g.signature = ((live chunks).runs.filterMap sealedBy).getLast? ∧
      g.redacted = (live chunks).acc.redacted.filter (· ≠ "") ∧
      List.Forall₂ SamePayload ((marks (live chunks).runs).map Mark.collectedPart) g.compaction ∧
      g.finish = none := by
  have htracks := tracks_live chunks
  obtain ⟨htext, hthinking, hsignature, hredacted, hcompaction, hfinish⟩ :=
    gathered_items preserveOrder requestId 0 (live chunks).runs.zipIdx
  have hfst {β : Type} (f : Run → Option β) :
      ((live chunks).runs.zipIdx.filterMap fun p => f p.1) = (live chunks).runs.filterMap f := by
    conv_rhs => rw [← List.zipIdx_map_fst 0 (live chunks).runs, List.filterMap_map]
    rfl
  simp only [hopPart, itemsOf_eq]
  rw [hfst Run.words, ← htracks.text] at htext
  rw [hfst Run.thought, ← htracks.thinkText] at hthinking
  rw [hfst sealedBy] at hsignature
  rw [hfst Run.data, ← htracks.redacted] at hredacted
  refine ⟨htext, hthinking, hsignature, hredacted, ?_, hfinish⟩
  rw [hcompaction, marks, ← hfst Run.mark]
  exact forall₂_hoppedPart requestId _

/-- What a report of tokens is read as. -/
theorem responsesUsage_json (u : Usage) :
    responsesUsage (usageJson u).json = { u with costUsd := none, cacheCreationTokens := 0 } := by
  simp [responsesUsage, usageJson, UsageOut.json, Value.count, Value.asU64, Value.nat]

/-- **A hop between nodes hands on the answer**: one start and one finish, the texts, the calls as
they begin, what is redacted or signed unless it is empty, the compactions and the token counts that
a report can carry. -/
theorem hop_preserves (requestId model : String) (created : ℕ) (echo : RequestEcho)
    (chunks : List StreamChunk) (hcontiguous : ∀ k, ¬ Interrupted k chunks)
    (hannounced : Announced chunks) (hsigned : SignedAtOnce chunks) (fallback : String)
    (preserveOrder : Bool) :
    ∃ decoded st', mapEvents canonical
        ((streamFrames requestId model created echo chunks).map Frame.json)
        (freshState fallback preserveOrder) = .ok (decoded, st') ∧ HandedOn chunks decoded := by
  obtain ⟨id, name, body, reason, st', hdecode, hindex, hpart, hreason⟩ :=
    decode_streamFrames requestId model created echo hcontiguous hannounced fallback preserveOrder
  refine ⟨_, st', hdecode, ?_⟩
  obtain ⟨htext, hthinking, hcompaction, hcalls, hfinish⟩ := answer_live chunks
  obtain ⟨gtext, gthinking, gsignature, gredacted, gcompaction, gfinish⟩ := gathered_hopPart
    preserveOrder (streamId requestId model created echo chunks) chunks
  obtain ⟨call, hsorted, hbegun⟩ := calls_live hcontiguous
  set u := responsesUsage (usageJson (live chunks).acc.usage).json with hu
  set decoded := StreamChunk.start id name :: (body ++ [.usage u, .finish 0 reason]) with hdecoded
  have hgathered : gathered 0 decoded = gathered 0 body + Gathered.part (.finish 0 reason) := by
    rw [hdecoded, gathered_cons, gathered_other (by simp [StreamChunk.index]), zero_add,
      gathered_append, gathered_cons 0 (.usage u), gathered_other (by simp [StreamChunk.index]),
      zero_add, gathered_one rfl]
  have hkeys (k : ℕ) : (gathered 0 decoded).calls k =
      (((live chunks).runs.filterMap Run.entry).map hoppedCall)[k]? := by
    rw [hgathered, Gathered.calls_add, hpart, calls_hopPart]
    cases (((live chunks).runs.filterMap Run.entry).map hoppedCall)[k]? <;> rfl
  have hchoice : answer decoded = _ := choice_of_calls decoded 0 hkeys
  rw [hgathered, hpart] at hchoice
  have hparts := thinkingParts_some (live chunks).acc.thinkText (live chunks).acc.thinkSig
    (live chunks).acc.redacted
  rw [← hthinking] at hparts
  have hparts' := thinkingParts_some (live chunks).acc.thinkText
    ((live chunks).runs.filterMap sealedBy).getLast? ((live chunks).acc.redacted.filter (· ≠ ""))
  have hthinking' : (answer decoded).thinking = Collected.thinkingParts
      (some ((live chunks).acc.thinkText, ((live chunks).runs.filterMap sealedBy).getLast?))
      (some ((live chunks).acc.redacted.filter (· ≠ ""))) := by
    rw [hchoice, Gathered.choice, Gathered.thinking_add, Gathered.signature_add,
      Gathered.redacted_add, gthinking, gsignature, gredacted]
    simp [Gathered.part]
  rw [← hthinking'] at hparts'
  have hbody {β : Type} {f : StreamChunk → Option β} (hf : ∀ c ∈ body, f c = none) :
      decoded.filterMap f = [.start id name, .usage u, .finish 0 reason].filterMap f := by
    rw [hdecoded, List.filterMap_cons, List.filterMap_append, List.filterMap_eq_nil_iff.mpr hf]
    rfl
  refine ⟨⟨(id, name), ?_⟩, ⟨reason, ?_, ?_⟩, ?_, ?_, ?_, ?_, ?_, ⟨call, ?_, ?_⟩, ?_⟩
  · rw [hbody fun c hc => opened_of_index (hindex c hc)]
    rfl
  · have hnone : body.filterMap (StreamChunk.finishOf 0) = [] := by
      rw [← List.getLast?_eq_none_iff, ← gathered_finish, hpart, gfinish]
    rw [hbody (List.filterMap_eq_nil_iff.mp hnone)]
    rfl
  · rw [hfinish]
    exact hreason
  · rw [hchoice, htext]
    simp [Gathered.choice, Gathered.part, gtext]
  · rw [hparts.1, hparts'.1]
  · rw [hparts.2.1, hparts'.2.1]
    have hsigns := signs_live hsigned
    intro hne
    rw [hsigns, getLast?_sealedBy]
    rintro hempty
    rw [hsigns, hempty] at hne
    exact hne rfl
  · rw [hparts.2.2, hparts'.2.2]
  · rw [hchoice, hcompaction, Gathered.choice, Gathered.compaction_add]
    simpa [Gathered.part] using gcompaction
  · rw [hcalls, hsorted]
  · rw [hchoice, ← hbegun, Gathered.choice, List.map_map]
    exact List.map_congr_left fun e _ => rfl
  · rw [Collected.usage_foldl, lastUsage,
      hbody fun c hc => reported_of_index (hindex c hc), ← usage_live]
    exact responsesUsage_json _

/-- Signed reasoning and a call in two fragments. -/
def handed : List StreamChunk :=
  [.thinking 0 "t", .thinkingSignature 0 "s", .toolCall 0 ⟨1, some "c", some "f", some "x"⟩,
    .toolCall 0 ⟨1, none, none, some "y"⟩, .finish 0 .toolCalls]

theorem hop_preserves_call : (∀ k, ¬ Interrupted k handed) ∧ Announced handed ∧
    SignedAtOnce handed ∧ ∃ decoded st', mapEvents canonical
      ((streamFrames "r" "m" 0 .empty handed).map Frame.json) (freshState "m" false) =
        .ok (decoded, st') ∧ HandedOn handed decoded := by
  have hcontiguous (k : ℕ) : ¬ Interrupted k handed := by
    intro h
    have hk := mem_of_interrupted h
    simp [handed, StreamChunk.callIndex] at hk
    subst hk
    revert h
    decide
  have hannounced : Announced handed := by
    intro k first rest h
    have hk := mem_of_fragments (h ▸ List.cons_ne_nil first rest)
    simp [handed, StreamChunk.callIndex] at hk
    subst hk
    cases h
    refine ⟨"c", "f", rfl, rfl, fun call hcall => ?_⟩
    obtain rfl := List.mem_singleton.mp
      (show call ∈ [(⟨1, none, none, some "y"⟩ : ToolCallDelta)] from hcall)
    simp
  have hsigned : SignedAtOnce handed := by
    intro pre signature post h
    rcases pre with _ | ⟨a, _ | ⟨b, _ | ⟨c, _ | ⟨d, _ | ⟨e, pre⟩⟩⟩⟩⟩ <;> simp [handed] at h
    exact ⟨"t", by rw [h.1]; rfl⟩
  exact ⟨hcontiguous, hannounced, hsigned,
    hop_preserves "r" "m" 0 .empty handed hcontiguous hannounced hsigned "m" false⟩

/-- Two calls of which the second begins first, of the first of which the name changes; an empty
signature, an empty block, a compaction without content and a count of written cache. -/
def lossy : List StreamChunk :=
  [.thinking 0 "t", .thinkingSignature 0 "", .redactedThinking 0 "",
    .toolCall 0 ⟨1, some "b", some "g", some "x"⟩, .toolCall 0 ⟨0, some "a", some "f", none⟩,
    .toolCall 0 ⟨0, none, some "h", some "y"⟩, .compaction none 0 "" none none none,
    .usage { Usage.zero with cacheCreationTokens := 1 }, .finish 0 .toolCalls]

/-- The content of a compaction. -/
def contentOf : ContentPart → Option String
  | .compaction _ _ content _ _ => content
  | _ => none

/-- What that stream has lost when it is handed on. -/
def Lost (decoded : List StreamChunk) : Prop :=
  (answer decoded).toolCalls.map ToolCall.id ≠ (answer lossy).toolCalls.map ToolCall.id ∧
  (∀ call ∈ (answer decoded).toolCalls, call.name ≠ "h") ∧
  (answer decoded).thinking.filterMap sealOf ≠ (answer lossy).thinking.filterMap sealOf ∧
  (answer decoded).thinking.filterMap dataOf ≠ (answer lossy).thinking.filterMap dataOf ∧
  (answer decoded).compaction.map contentOf ≠ (answer lossy).compaction.map contentOf ∧
  (decoded.foldl Collected.step .empty).usage.cacheCreationTokens ≠
    (lossy.foldl Collected.step .empty).usage.cacheCreationTokens

instance (decoded : List StreamChunk) : Decidable (Lost decoded) :=
  inferInstanceAs (Decidable (_ ∧ _))

/-- That stream loses the order of its calls, a name, its signature, its empty block, a content and
a count. -/
theorem not_hop_preserves : (∀ k, ¬ Interrupted k lossy) ∧ SignedAtOnce lossy ∧
    (∀ k first rest, fragments k lossy = first :: rest → first.id.isSome ∧ first.name.isSome) ∧
    (∃ call ∈ (answer lossy).toolCalls, call.name = "h") ∧
    ∃ decoded st', mapEvents canonical ((streamFrames "r" "m" 0 .empty lossy).map Frame.json)
        (freshState "m" false) = .ok (decoded, st') ∧ Lost decoded := by
  have hmem {k : ℕ} (h : k ∈ lossy.filterMap StreamChunk.callIndex) : k = 1 ∨ k = 0 := by
    simpa [lossy, StreamChunk.callIndex, eq_comm] using h
  refine ⟨fun k h => ?_, fun pre signature post h => ?_, fun k first rest h => ?_, by decide, ?_⟩
  · rcases hmem (mem_of_interrupted h) with rfl | rfl <;> revert h <;> decide
  · rcases pre with
      _ | ⟨a, _ | ⟨b, _ | ⟨c, _ | ⟨d, _ | ⟨e, _ | ⟨f, _ | ⟨g, _ | ⟨i, _ | ⟨j, pre⟩⟩⟩⟩⟩⟩⟩⟩⟩ <;>
      simp [lossy] at h
    exact ⟨"t", by rw [h.1]; rfl⟩
  · rcases hmem (mem_of_fragments (h ▸ List.cons_ne_nil first rest)) with rfl | rfl <;>
      cases h <;> exact ⟨rfl, rfl⟩
  · have hlost : ((mapEvents canonical ((streamFrames "r" "m" 0 .empty lossy).map Frame.json)
        (freshState "m" false)).toOption.any fun p => Lost p.1) = true := by decide +kernel
    cases hrun : mapEvents canonical ((streamFrames "r" "m" 0 .empty lossy).map Frame.json)
        (freshState "m" false) with
    | error e =>
      rw [hrun] at hlost
      cases hlost
    | ok p =>
      rw [hrun] at hlost
      exact ⟨p.1, p.2, rfl, of_decide_eq_true hlost⟩

end Llmleaf.NodeHop
