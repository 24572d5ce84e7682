import Llmleaf.Compat.Responses.Snapshot

/-!
# The live items of a Responses stream and its snapshot

The live items stand in the order in which they were begun (`Live.runs`); the snapshot regroups
them: one reasoning item, the redacted ones, one message, the calls by index, and the compactions
put in place.

- `Tracks s`: what is accumulated, read off the runs.
- `shown_runs`: the live items, as insertions of the compactions into the other items.
- `plain_eq_iff`: when the other items are those of the snapshot.
- `itemsMatch_of_arranged`, `arranged_of_itemsMatch`: when the two arrays show the same items.
-/

namespace Llmleaf.Responses

open Insertions

/-! ## What the runs say -/

namespace Run

/-- The text of reasoning. -/
def thought : Run → Option String
  | reasoning text _ => some text
  | _ => none

/-- The data of redacted reasoning. -/
def data : Run → Option String
  | redacted data => some data
  | _ => none

/-- The text of a message. -/
def words : Run → Option String
  | message text => some text
  | _ => none

/-- A call with its index. -/
def entry : Run → Option (ℕ × ToolCall)
  | call canon acc => some (canon, acc)
  | _ => none

theorem think_some {delta : String} {run run' : Run} (h : run.think delta = some run') :
    ∃ text sig, run = reasoning text sig ∧ run' = reasoning (text ++ delta) sig := by
  cases run <;> cases h
  exact ⟨_, _, rfl, rfl⟩

theorem say_some {delta : String} {run run' : Run} (h : run.say delta = some run') :
    ∃ text, run = message text ∧ run' = message (text ++ delta) := by
  cases run <;> cases h
  exact ⟨_, rfl, rfl⟩

theorem fragment_some {canon : ℕ} {acc : ToolCall} {run run' : Run}
    (h : run.fragment canon acc = some run') :
    ∃ old, run = call canon old ∧ run' = call canon acc := by
  unfold fragment at h
  split at h
  · split at h
    · rename_i hk
      exact ⟨_, by rw [hk], (Option.some.inj h).symm⟩
    · cases h
  · cases h

end Run

/-- Either the last item goes on, or a new one begins. -/
theorem Live.runs_extend (s : Live) (f : Run → Option Run) (new : Run) :
    (∃ run run', f run = some run' ∧ s.runs = s.done ++ [run] ∧
      (s.extend f new).runs = s.done ++ [run']) ∨ (s.extend f new).runs = s.runs ++ [new] := by
  unfold extend
  split
  · rename_i run' h
    obtain ⟨run, hcur, hrun⟩ := Option.bind_eq_some_iff.mp h
    exact .inl ⟨run, run', hrun, by simp [runs, hcur], rfl⟩
  · exact .inr rfl

/-- The open item was open before, or it is new. -/
theorem Live.cur_extend {s : Live} {f : Run → Option Run} {new run : Run}
    (h : (s.extend f new).cur = some run) : (∃ old, f old = some run) ∨ run = new := by
  unfold extend at h
  split at h
  · rename_i run' hrun
    obtain ⟨old, -, hold⟩ := Option.bind_eq_some_iff.mp hrun
    obtain rfl : run' = run := Option.some.inj h
    exact .inl ⟨old, hold⟩
  · exact .inr (Option.some.inj h).symm

theorem Live.runs_extend_ne (s : Live) (f : Run → Option Run) (new : Run) :
    (s.extend f new).runs ≠ [] := by
  rcases s.runs_extend f new with ⟨run, run', -, -, h⟩ | h <;> simp [h]

theorem Live.runs_extend_accumulate (s : Live) (g : Accumulated → Accumulated)
    (f : Run → Option Run) (new : Run) :
    ((s.accumulate g).extend f new).runs = (s.extend f new).runs := by
  unfold extend accumulate
  cases s.cur.bind f <;> rfl

/-- Every compaction knows its position. -/
def Placed (runs : List Run) : Prop :=
  ∀ (i : ℕ) (run : Run) (m : Mark), runs[i]? = some run → run.mark = some m → m.live = i

theorem Placed.snoc {runs : List Run} {run : Run} (h : Placed runs)
    (hrun : ∀ m, run.mark = some m → m.live = runs.length) : Placed (runs ++ [run]) := by
  intro i r m hi hm
  rw [List.getElem?_append] at hi
  split at hi
  · exact h i r m hi hm
  · rename_i hlt
    obtain ⟨hlen, heq⟩ := List.getElem?_eq_some_iff.mp hi
    simp only [List.length_singleton] at hlen
    simp only [List.getElem_singleton] at heq
    rw [hrun m (heq ▸ hm)]
    omega

theorem Placed.init {runs : List Run} {run : Run} (h : Placed (runs ++ [run])) :
    Placed runs ∧ ∀ m, run.mark = some m → m.live = runs.length := by
  refine ⟨fun i r m hi hm => h i r m ?_ hm, fun m hm => h runs.length run m (by simp) hm⟩
  obtain ⟨hlt, -⟩ := List.getElem?_eq_some_iff.mp hi
  rw [List.getElem?_append_left hlt, hi]

/-- What is accumulated, read off the items: the texts joined, each call in its last run. -/
structure Tracks (acc : Accumulated) (runs : List Run) : Prop where
  text : acc.text = String.join (runs.filterMap Run.words)
  thinkText : acc.thinkText = String.join (runs.filterMap Run.thought)
  redacted : acc.redacted = runs.filterMap Run.data
  tools : ∀ k, acc.tools.lookup k =
    (((runs.filterMap Run.entry).filter (·.1 = k)).getLast?).map Prod.snd
  placed : Placed runs

namespace Tracks

variable {s : Live} {acc acc' : Accumulated} {runs : List Run} {run run' : Run}

theorem concat_iff : Tracks acc (runs ++ [run]) ↔
    acc.text = String.join (runs.filterMap Run.words) ++ run.words.getD "" ∧
      acc.thinkText = String.join (runs.filterMap Run.thought) ++ run.thought.getD "" ∧
      acc.redacted = runs.filterMap Run.data ++ run.data.toList ∧
      (∀ k, acc.tools.lookup k = ((run.entry.filter (·.1 = k)).or
        ((runs.filterMap Run.entry).filter (·.1 = k)).getLast?).map Prod.snd) ∧
      Placed runs ∧ ∀ m, run.mark = some m → m.live = runs.length := by
  have hjoin (g : Run → Option String) : String.join ((runs ++ [run]).filterMap g) =
      String.join (runs.filterMap g) ++ (g run).getD "" := by
    rw [List.filterMap_append, List.filterMap_cons]
    cases g run <;> simp
  have hdata : (runs ++ [run]).filterMap Run.data =
      runs.filterMap Run.data ++ run.data.toList := by
    rw [List.filterMap_append, List.filterMap_cons]
    cases run.data <;> rfl
  have hentry (k : ℕ) : (((runs ++ [run]).filterMap Run.entry).filter (·.1 = k)).getLast? =
      (run.entry.filter (·.1 = k)).or ((runs.filterMap Run.entry).filter (·.1 = k)).getLast? := by
    rw [List.filterMap_append, List.filterMap_cons]
    cases run.entry with
    | none => simp
    | some e => by_cases hk : e.1 = k <;> simp [hk, Option.filter]
  constructor
  · rintro ⟨htext, hthink, hred, htools, hplaced⟩
    rw [hjoin] at htext hthink
    rw [hdata] at hred
    simp only [hentry] at htools
    exact ⟨htext, hthink, hred, htools, hplaced.init⟩
  · rintro ⟨htext, hthink, hred, htools, hplaced, hmark⟩
    rw [← hjoin] at htext hthink
    rw [← hdata] at hred
    simp only [← hentry] at htools
    exact ⟨htext, hthink, hred, htools, hplaced.snoc hmark⟩

/-- One more item, accumulated. -/
theorem snoc (h : Tracks acc runs) (htext : acc'.text = acc.text ++ run.words.getD "")
    (hthink : acc'.thinkText = acc.thinkText ++ run.thought.getD "")
    (hred : acc'.redacted = acc.redacted ++ run.data.toList)
    (htools : ∀ k, acc'.tools.lookup k =
      ((run.entry.filter (·.1 = k)).map Prod.snd).or (acc.tools.lookup k))
    (hmark : ∀ m, run.mark = some m → m.live = runs.length) : Tracks acc' (runs ++ [run]) := by
  refine concat_iff.mpr ⟨?_, ?_, ?_, fun k => ?_, h.placed, hmark⟩
  · rw [htext, h.text]
  · rw [hthink, h.thinkText]
  · rw [hred, h.redacted]
  · rw [htools, h.tools, Option.map_or]

/-- The last item changes, and what it adds with it. -/
theorem change (h : Tracks acc (runs ++ [run]))
    (htext : ∀ t, acc.text = t ++ run.words.getD "" → acc'.text = t ++ run'.words.getD "")
    (hthink : ∀ t, acc.thinkText = t ++ run.thought.getD "" →
      acc'.thinkText = t ++ run'.thought.getD "")
    (hred : ∀ l, acc.redacted = l ++ run.data.toList → acc'.redacted = l ++ run'.data.toList)
    (htools : ∀ k e, acc.tools.lookup k = ((run.entry.filter (·.1 = k)).or e).map Prod.snd →
      acc'.tools.lookup k = ((run'.entry.filter (·.1 = k)).or e).map Prod.snd)
    (hmark : run'.mark = run.mark) : Tracks acc' (runs ++ [run']) := by
  obtain ⟨ht, hth, hr, hto, hplaced, hlast⟩ := concat_iff.mp h
  refine concat_iff.mpr ⟨htext _ ht, hthink _ hth, hred _ hr, fun k => htools k _ (hto k), hplaced,
    ?_⟩
  rw [hmark]
  exact hlast

/-- The open item goes on, or a new one begins. -/
theorem extend (h : Tracks s.acc s.runs) {f : Run → Option Run} {new : Run}
    (hgrow : ∀ run run', f run = some run' → Tracks s.acc (s.done ++ [run]) →
      Tracks acc' (s.done ++ [run']))
    (hnew : Tracks acc' (s.runs ++ [new])) : Tracks acc' (s.extend f new).runs := by
  rcases s.runs_extend f new with ⟨run, run', hrun, hruns, hruns'⟩ | hruns'
  · rw [hruns']
    exact hgrow run run' hrun (hruns ▸ h)
  · rw [hruns']
    exact hnew

/-- Reasoning goes on, or begins. -/
theorem think (h : Tracks s.acc s.runs) (delta : String) :
    Tracks { s.acc with thinkText := s.acc.thinkText ++ delta }
      (s.extend (Run.think delta) (.reasoning delta none)).runs := by
  refine h.extend (fun run run' hrun h => ?_) ?_
  · obtain ⟨text, sig, rfl, rfl⟩ := Run.think_some hrun
    refine h.change (fun _ ht => ht) (fun t ht => ?_) (fun _ hr => hr) (fun _ _ ht => ht) rfl
    rw [ht]
    exact String.append_assoc
  · exact h.snoc String.append_empty.symm rfl (List.append_nil _).symm (fun _ => rfl)
      (by simp [Run.mark])

/-- A message goes on, or begins. -/
theorem say (h : Tracks s.acc s.runs) (delta : String) :
    Tracks { s.acc with text := s.acc.text ++ delta }
      (s.extend (Run.say delta) (.message delta)).runs := by
  refine h.extend (fun run run' hrun h => ?_) ?_
  · obtain ⟨text, rfl, rfl⟩ := Run.say_some hrun
    refine h.change (fun t ht => ?_) (fun _ ht => ht) (fun _ hr => hr) (fun _ _ ht => ht) rfl
    rw [ht]
    exact String.append_assoc
  · exact h.snoc rfl String.append_empty.symm (List.append_nil _).symm (fun _ => rfl)
      (by simp [Run.mark])

/-- The fragments of a call go on, or a call begins. -/
theorem fragment (h : Tracks s.acc s.runs) (call : ToolCallDelta) :
    Tracks { s.acc with
        tools := s.acc.tools.update call.index ⟨"", "", ""⟩ (Collected.addFragment call) }
      (s.extend (Run.fragment call.index (s.called call)) (.call call.index (s.called call))).runs := by
  refine h.extend (fun run run' hrun h => ?_) ?_
  · obtain ⟨old, rfl, rfl⟩ := Run.fragment_some hrun
    refine h.change (fun _ ht => ht) (fun _ ht => ht) (fun _ hr => hr) (fun k e ht => ?_) rfl
    rw [s.lookup_called rfl]
    by_cases hk : call.index = k
    · simp [Run.entry, Option.filter, hk]
    · simpa [Run.entry, Option.filter, hk, Ne.symm hk] using ht
  · refine h.snoc String.append_empty.symm String.append_empty.symm (List.append_nil _).symm
      (fun k => ?_) (by simp [Run.mark])
    rw [s.lookup_called rfl]
    by_cases hk : call.index = k
    · simp [Run.entry, Option.filter, hk]
    · simp [Run.entry, Option.filter, hk, Ne.symm hk]

/-- A signature changes no text. -/
theorem sign (h : Tracks s.acc s.runs) (signature : String) :
    Tracks { s.acc with thinkSig := some signature }
      (s.done ++ (s.cur.map (Run.sign signature)).toList) := by
  rw [Live.runs] at h
  cases hcur : s.cur with
  | none =>
    rw [hcur] at h
    exact ⟨h.text, h.thinkText, h.redacted, h.tools, h.placed⟩
  | some run =>
    rw [hcur] at h
    cases run <;>
      exact h.change (fun _ ht => ht) (fun _ ht => ht) (fun _ hr => hr) (fun _ _ ht => ht) rfl

/-- What is accumulated of choice 0 after one more chunk. -/
theorem take (h : Tracks s.acc s.runs) (c : StreamChunk) :
    Tracks (s.take c).acc (s.take c).runs := by
  rw [Live.acc_take]
  cases c with
  | thinking index delta =>
    rw [Live.take, Live.runs_extend_accumulate]
    exact h.think delta
  | content index delta =>
    rw [Live.take, Live.runs_extend_accumulate]
    exact h.say delta
  | toolCall index call =>
    rw [Live.take, Live.runs_extend_accumulate]
    exact h.fragment call
  | thinkingSignature index signature => exact h.sign signature
  | redactedThinking index data =>
    have hruns : (s.take (.redactedThinking index data)).runs = s.runs ++ [.redacted data] :=
      List.append_nil _
    rw [hruns]
    exact h.snoc String.append_empty.symm String.append_empty.symm rfl (fun _ => rfl)
      (by simp [Run.mark])
  | compaction outputIndex index delta id encryptedContent signature =>
    have hruns : (s.take (.compaction outputIndex index delta id encryptedContent signature)).runs =
        s.runs ++ [.compaction ⟨s.runs.length, outputIndex, id, delta, encryptedContent,
          signature⟩] := List.append_nil _
    rw [hruns]
    refine h.snoc String.append_empty.symm String.append_empty.symm (List.append_nil _).symm
      (fun _ => rfl) fun m hm => ?_
    rw [← Option.some.inj hm]
  | finish index reason =>
    obtain ⟨htext, hthink, hred, htools, hplaced⟩ := h
    have hruns : (s.take (.finish index reason)).runs = s.runs := List.append_nil _
    rw [hruns]
    exact ⟨htext, hthink, hred, htools, hplaced⟩
  | start | usage | outputItem =>
    obtain ⟨htext, hthink, hred, htools, hplaced⟩ := h
    exact ⟨htext, hthink, hred, htools, hplaced⟩

end Tracks

/-- What a stream has accumulated. -/
theorem tracks_live (chunks : List StreamChunk) :
    Tracks (live chunks).acc (live chunks).runs := by
  induction chunks using List.reverseRecOn with
  | nil =>
    refine ⟨rfl, rfl, rfl, fun _ => rfl, fun i run m hi _ => ?_⟩
    cases hi
  | append_singleton chunks c ih =>
    rw [live, List.foldl_concat, ← live, Live.step]
    split
    · exact ih.take c
    · exact ih

/-! ## What an item shows -/

/-- What is compared of two items: the type, the id, the texts, the arguments and the encrypted
content. -/
structure Shown where
  kind : String
  id : String
  texts : Option (List String)
  arguments : Option String
  encryptedContent : Option String
  deriving DecidableEq

/-- What an item shows. -/
def Item.shown : Item → Shown
  | .reasoning id content encryptedContent _ =>
    ⟨"reasoning", id, content, none, encryptedContent⟩
  | .message id _ content => ⟨"message", id, some content, none, none⟩
  | .functionCall id _ _ arguments _ => ⟨"function_call", id, none, some arguments, none⟩
  | .compaction id encryptedContent content _ =>
    ⟨"compaction", id, content.map ([·]), none, encryptedContent⟩

namespace Shown

/-- The prefix of the ids that reflect a position. -/
def idPrefix (s : Shown) : Option String :=
  if s.kind = "reasoning" then some "rs"
  else if s.kind = "message" then some "msg"
  else if s.kind = "function_call" then some "fc"
  else none

/-- Without an id that reflects a position. -/
def bare (s : Shown) : Shown := if s.idPrefix.isSome then { s with id := "" } else s

/-- With the id of its position. -/
def atIndex (requestId : String) (idx : ℕ) (s : Shown) : Shown :=
  match s.idPrefix with
  | some kind => { s with id := itemId kind requestId idx }
  | none => s

end Shown

theorem Item.shown_bare (item : Item) : item.bare.shown = item.shown.bare := by
  cases item <;> rfl

/-- Two arrays whose ids reflect the positions show the same if they do without these ids. -/
theorem shown_renumber_iff (requestId : String) (a b : List Item) :
    (renumber requestId a).map Item.shown = (renumber requestId b).map Item.shown ↔
      a.map (fun item => item.bare.shown) = b.map fun item => item.bare.shown := by
  have hbare (items : List Item) : ((renumber requestId items).map Item.shown).map Shown.bare =
      items.map fun item => item.bare.shown := by
    have h := congrArg (List.map Item.shown) (map_bare_renumber requestId items)
    simpa [Function.comp_def, Item.shown_bare] using h
  have hat (items : List Item) : (renumber requestId items).map Item.shown =
      (items.map fun item => item.bare.shown).mapIdx (Shown.atIndex requestId) := by
    induction items using List.reverseRecOn with
    | nil => rfl
    | append_singleton items item ih =>
      rw [renumber, List.mapIdx_concat, ← renumber, List.map_append, ih, List.map_append,
        List.map_singleton, List.map_singleton, List.mapIdx_concat, List.length_map]
      cases item <;> rfl
  constructor
  · intro h
    rw [← hbare, ← hbare, h]
  · intro h
    rw [hat, hat, h]

/-- The items of a list of runs have the ids of their positions. -/
theorem renumber_numbered (requestId : String) (runs : List Run) :
    renumber requestId (numbered requestId runs) = numbered requestId runs := by
  induction runs using List.reverseRecOn with
  | nil => rfl
  | append_singleton runs run ih =>
    rw [numbered_concat, renumber, List.mapIdx_concat, ← renumber, ih, length_numbered]
    cases run <;> rfl

/-- What a run shows, without an id. -/
def Run.said : Run → Shown
  | .reasoning text _ => ⟨"reasoning", "", some [text], none, none⟩
  | .redacted data => ⟨"reasoning", "", none, none, some data⟩
  | .message text => ⟨"message", "", some [text], none, none⟩
  | .call _ acc => ⟨"function_call", "", none, some acc.arguments, none⟩
  | .compaction mark =>
    ⟨"compaction", "", mark.content.map ([·]), none, mark.encryptedContent⟩

theorem Run.bare_item {requestId : String} {run : Run} (h : run.mark = none) (i : ℕ) :
    (run.item requestId i).bare.shown = run.said := by
  cases run <;> first | rfl | cases h

/-- What a compaction shows at a position. -/
def Mark.shown (requestId : String) (index : ℕ) (m : Mark) : Shown :=
  (m.item requestId Mark.content index).shown

/-- The runs that are no compactions. -/
def plain (runs : List Run) : List Run := runs.filter fun run => run.mark.isNone

theorem length_plain (runs : List Run) : (plain runs).length + (marks runs).length = runs.length := by
  induction runs with
  | nil => rfl
  | cons run runs ih =>
    simp only [plain, marks] at ih ⊢
    cases hm : run.mark <;> simp [hm, ← ih] <;> omega

/-- Insert at the positions where the compactions are live. -/
def atLive (_ : List Shown) (m : Mark) : ℕ := m.live

/-- A compaction is live after the items and compactions that were begun before it. -/
theorem live_le {runs : List Run} (h : Placed runs) (l : List Mark) (m : Mark) (r : List Mark)
    (e : marks runs = l ++ m :: r) : m.live ≤ (plain runs).length + l.length := by
  obtain ⟨a, b, rfl, ha, hb⟩ := List.filterMap_eq_append_iff.mp e
  obtain ⟨b₁, run, b₂, rfl, hnone, hrun, -⟩ := List.filterMap_eq_cons_iff.mp hb
  have hlive : m.live = a.length + b₁.length := h (a.length + b₁.length) run m (by simp) hrun
  have hlen := length_plain a
  have hb₁ : (plain b₁).length = b₁.length := by
    rw [plain, List.filter_eq_self.mpr fun run hmem => by simp [hnone run hmem]]
  have ha' : (marks a).length = l.length := by rw [← ha]; rfl
  have hplain : (plain (a ++ (b₁ ++ run :: b₂))).length =
      (plain a).length + (plain b₁).length + (plain (run :: b₂)).length := by
    simp [plain, Nat.add_assoc]
  omega

/-- The live items: the compactions put into the other items at their live positions. -/
theorem shown_runs (requestId : String) {runs : List Run} (h : Placed runs) :
    (numbered requestId runs).map (fun item => item.bare.shown) =
      insertAll atLive (Mark.shown requestId) ((plain runs).map Run.said) (marks runs) := by
  induction runs using List.reverseRecOn with
  | nil => rfl
  | append_singleton runs run ih =>
    obtain ⟨hinit, hlast⟩ := h.init
    rw [numbered_concat, List.map_append, ih hinit]
    cases hm : run.mark with
    | none =>
      have hplain : plain (runs ++ [run]) = plain runs ++ [run] := by simp [plain, hm]
      have hmarks : marks (runs ++ [run]) = marks runs := by simp [marks, hm]
      rw [hplain, hmarks, List.map_append, List.map_singleton, List.map_singleton,
        Run.bare_item hm]
      refine (insertAll_append_singleton Mark.live (fun l m r e => ?_) _).symm
      rw [List.length_map]
      exact live_le hinit l m r e
    | some m =>
      have hplain : plain (runs ++ [run]) = plain runs := by simp [plain, hm]
      have hmarks : marks (runs ++ [run]) = marks runs ++ [m] := by simp [marks, hm]
      have hlen := length_insertAll atLive (Mark.shown requestId) ((plain runs).map Run.said)
        (marks runs)
      rw [List.length_map, length_plain] at hlen
      have hitem : (run.item requestId runs.length).bare.shown =
          m.shown requestId runs.length := by
        cases run <;> cases hm
        rfl
      rw [hplain, hmarks, insertAll_snoc, insertOne, placeAt, atLive, hlast m hm, hlen,
        Nat.min_self, List.map_singleton, hitem, ← hlen, List.insertIdx_length_self]

/-- The items of the snapshot: the compactions put into the other items at their output indices. -/
def atOutputIndex (_ : List Shown) (m : Mark) : ℕ := m.outputIndex.getD m.live

theorem shown_outputItems (requestId : String) (chunks : List StreamChunk) :
    (insertAll livePlace (Mark.item requestId Mark.content)
        (numbered requestId (live chunks).acc.plainRuns) (compactions chunks)).map
        (fun item => item.bare.shown) =
      insertAll atOutputIndex (Mark.shown requestId) ((live chunks).acc.plainRuns.map Run.said)
        (compactions chunks) := by
  have hbase : (numbered requestId (live chunks).acc.plainRuns).map
      (fun item => item.bare.shown) = (live chunks).acc.plainRuns.map Run.said := by
    refine List.ext_getElem? fun i => ?_
    simp only [numbered, List.getElem?_map, List.getElem?_mapIdx, Option.map_map]
    cases hrun : (live chunks).acc.plainRuns[i]? with
    | none => rfl
    | some run =>
      exact congrArg some (Run.bare_item (mark_plainRuns (List.mem_of_getElem? hrun)) i)
  have hpos (l : List Item) (m : Mark) :
      atOutputIndex (l.map fun item => item.bare.shown) m = livePlace l m := rfl
  have helt (i : ℕ) (m : Mark) : (fun item : Item => item.bare.shown)
      (m.item requestId Mark.content i) = m.shown requestId i := rfl
  rw [map_insertAll hpos helt, hbase]

/-- Compactions show that they are compactions. -/
theorem filter_shown (requestId : String) (pos : List Shown → Mark → ℕ) {runs : List Run}
    (h : ∀ run ∈ runs, run.mark = none) (ms : List Mark) :
    (insertAll pos (Mark.shown requestId) (runs.map Run.said) ms).filter
      (fun s => s.kind ≠ "compaction") = runs.map Run.said := by
  rw [filter_insertAll fun i m => by simp [Mark.shown, Mark.item, Item.shown]]
  refine List.filter_eq_self.mpr fun s hs => ?_
  obtain ⟨run, hrun, rfl⟩ := List.mem_map.mp hs
  have hm := h run hrun
  cases run <;> simp_all [Run.said, Run.mark]

/-! ## The items besides the compactions -/

/-- The runs in the order of the snapshot. -/
def ordered (thoughts : List (String × Option String)) (datas texts : List String)
    (calls : List (ℕ × ToolCall)) : List Run :=
  thoughts.map (fun t => .reasoning t.1 t.2) ++ datas.map .redacted ++ texts.map .message ++
    calls.map fun e => .call e.1 e.2

/-- The items besides compactions arrive as the snapshot lists them: one reasoning item at most,
there if there is reasoning at all; the redacted ones; one message at most, there if there is text;
and the calls, each in one run, their arguments in the order of the call indices. -/
def InOrder (chunks : List StreamChunk) : Prop :=
  ∃ (thoughts : List (String × Option String)) (datas texts : List String)
    (calls : List (ℕ × ToolCall)),
    plain (live chunks).runs = ordered thoughts datas texts calls ∧
    thoughts.length = (if (ofChoice 0 chunks).any reasons then 1 else 0) ∧
    texts.length = (if (ofChoice 0 chunks).any speaks then 1 else 0) ∧
    (calls.map Prod.fst).Nodup ∧
    (calls.insertionSort fun a b => a.1 ≤ b.1).map (fun e => e.2.arguments) =
      calls.map fun e => e.2.arguments

/-- Calls of different indices, each as the map has it, are the entries of the map. -/
theorem mem_calls_iff {tools : HashMap ℕ ToolCall} {calls : List (ℕ × ToolCall)}
    (hnodup : (calls.map Prod.fst).Nodup)
    (h : ∀ k, tools.lookup k = ((calls.filter (·.1 = k)).getLast?).map Prod.snd)
    (e : ℕ × ToolCall) : e ∈ calls ↔ tools.lookup e.1 = some e.2 := by
  rw [h]
  constructor
  · intro he
    have hne : calls.filter (·.1 = e.1) ≠ [] :=
      List.ne_nil_of_mem (List.mem_filter.mpr ⟨he, decide_eq_true rfl⟩)
    rw [List.getLast?_eq_some_getLast hne, Option.map_some]
    obtain ⟨hmem, hkey⟩ := List.mem_filter.mp (List.getLast_mem hne)
    rw [List.inj_on_of_nodup_map hnodup hmem he (of_decide_eq_true hkey)]
  · intro he
    obtain ⟨e', he', hval⟩ := Option.map_eq_some_iff.mp he
    obtain ⟨hmem, hkey⟩ := List.mem_filter.mp (List.mem_of_getLast? he')
    rwa [Prod.ext (of_decide_eq_true hkey) hval] at hmem

/-- The entries of the map, by index. -/
theorem ascending_calls {tools : HashMap ℕ ToolCall} {calls : List (ℕ × ToolCall)}
    (hnodup : (calls.map Prod.fst).Nodup)
    (h : ∀ k, tools.lookup k = ((calls.filter (·.1 = k)).getLast?).map Prod.snd) :
    tools.ascending = calls.insertionSort fun a b => a.1 ≤ b.1 :=
  HashMap.ascending_eq_sort hnodup (mem_calls_iff hnodup h)

/-- Calls of which the map has the last of each index are of different indices if there are no more
of them than in the map. -/
theorem nodup_calls {tools : HashMap ℕ ToolCall} {calls : List (ℕ × ToolCall)}
    (h : ∀ k, tools.lookup k = ((calls.filter (·.1 = k)).getLast?).map Prod.snd)
    (hlen : calls.length ≤ tools.ascending.length) : (calls.map Prod.fst).Nodup := by
  have hsub : tools.ascending.map Prod.fst ⊆ calls.map Prod.fst := by
    intro k hk
    obtain ⟨e, he, rfl⟩ := List.mem_map.mp hk
    have hlookup := HashMap.mem_pairs.mp (HashMap.mem_ascending.mp he)
    rw [h] at hlookup
    obtain ⟨e', he', -⟩ := Option.map_eq_some_iff.mp hlookup
    obtain ⟨hmem, hkey⟩ := List.mem_filter.mp (List.mem_of_getLast? he')
    exact List.mem_map.mpr ⟨e', hmem, of_decide_eq_true hkey⟩
  have hperm := (List.subperm_of_subset tools.nodup_ascending_keys hsub).perm_of_length_le
    (by simpa using hlen)
  exact hperm.nodup_iff.mp tools.nodup_ascending_keys

/-- Texts of which all but at most one are missing: joined, they are the one. -/
theorem eq_of_length_eq_ite {texts : List String} {p : Prop} [Decidable p]
    (h : texts.length = if p then 1 else 0) :
    texts = if p then [String.join texts] else [] := by
  split at h
  · obtain ⟨text, rfl⟩ := List.length_eq_one_iff.mp h
    simp [*]
  · rw [if_neg ‹_›]
    exact List.length_eq_zero_iff.mp h

/-- What is accumulated, when the runs come in that order. -/
theorem Tracks.ordered {acc : Accumulated} {runs : List Run} (h : Tracks acc runs)
    {thoughts : List (String × Option String)} {datas texts : List String}
    {calls : List (ℕ × ToolCall)} (hplain : plain runs = ordered thoughts datas texts calls) :
    acc.thinkText = String.join (thoughts.map Prod.fst) ∧ acc.redacted = datas ∧
      acc.text = String.join texts ∧
      ∀ k, acc.tools.lookup k = ((calls.filter (·.1 = k)).getLast?).map Prod.snd := by
  have hobs {β : Type} (g : Run → Option β) (hg : ∀ m, g (.compaction m) = none) :
      runs.filterMap g = (Responses.ordered thoughts datas texts calls).filterMap g := by
    rw [← hplain, plain, List.filterMap_filter]
    refine List.filterMap_congr fun run _ => ?_
    cases run <;> first | rfl | simp [Run.mark, hg]
  have hnone {α β : Type} (l : List α) : l.filterMap (fun _ => (none : Option β)) = [] := by simp
  obtain ⟨htext, hthink, hred, htools, -⟩ := h
  rw [hobs Run.words fun _ => rfl] at htext
  rw [hobs Run.thought fun _ => rfl] at hthink
  rw [hobs Run.data fun _ => rfl] at hred
  rw [hobs Run.entry fun _ => rfl] at htools
  simp only [Responses.ordered, List.filterMap_append, List.filterMap_map, Function.comp_def,
    Run.words, Run.thought, Run.data, Run.entry, Prod.mk.eta, List.filterMap_some,
    List.append_nil, List.nil_append, hnone] at htext hthink hred htools
  exact ⟨by rw [hthink]; simp, hred, htext, htools⟩

/-- The items of the snapshot come in that order. -/
theorem plainRuns_eq_ordered (acc : Accumulated) : acc.plainRuns =
    ordered (if acc.thinkText ≠ "" ∨ acc.thinkSig.isSome then [(acc.thinkText, acc.thinkSig)]
      else []) acc.redacted (if acc.text = "" then [] else [acc.text]) acc.tools.ascending := by
  unfold Accumulated.plainRuns ordered
  split <;> split <;> rfl

/-- Runs in that order show the same if their parts do. -/
theorem said_ordered_congr {thoughts thoughts' : List (String × Option String)}
    {datas datas' texts texts' : List String} {calls calls' : List (ℕ × ToolCall)}
    (ht : thoughts.map Prod.fst = thoughts'.map Prod.fst) (hd : datas = datas')
    (hx : texts = texts')
    (hc : calls.map (fun e => e.2.arguments) = calls'.map fun e => e.2.arguments) :
    (ordered thoughts datas texts calls).map Run.said =
      (ordered thoughts' datas' texts' calls').map Run.said := by
  have hthoughts := congrArg
    (List.map fun text => (⟨"reasoning", "", some [text], none, none⟩ : Shown)) ht
  have hcalls := congrArg
    (List.map fun arguments => (⟨"function_call", "", none, some arguments, none⟩ : Shown)) hc
  simp only [List.map_map, Function.comp_def] at hthoughts hcalls
  simp only [ordered, List.map_append, List.map_map, Function.comp_def, Run.said, hthoughts,
    hcalls, hd, hx]

/-- What shows the same as runs of one kind is of that kind, if the kind can be seen. -/
theorem exists_eq_map {α : Type} {f : α → Run} (hf : ∀ run a, run.said = (f a).said → ∃ b, f b = run)
    {l : List Run} {as : List α} (h : l.map Run.said = (as.map f).map Run.said) :
    ∃ bs : List α, l = bs.map f ∧
      bs.map (fun b => (f b).said) = as.map fun a => (f a).said := by
  rw [List.map_map] at h
  have hmem : l ∈ Set.range (List.map f) := by
    rw [Set.range_list_map]
    intro run hrun
    have hsaid := List.mem_map_of_mem (f := Run.said) hrun
    rw [h] at hsaid
    obtain ⟨a, -, ha⟩ := List.mem_map.mp hsaid
    exact hf run a ha.symm
  obtain ⟨bs, rfl⟩ := hmem
  rw [List.map_map] at h
  exact ⟨bs, rfl, h⟩

/-- What shows the same as runs in that order comes in that order. -/
theorem exists_ordered {thoughts' : List (String × Option String)} {datas texts : List String}
    {calls' : List (ℕ × ToolCall)} {runs : List Run}
    (h : runs.map Run.said = (ordered thoughts' datas texts calls').map Run.said) :
    ∃ thoughts calls, runs = ordered thoughts datas texts calls ∧
      thoughts.map Prod.fst = thoughts'.map Prod.fst ∧
      calls.map (fun e => e.2.arguments) = calls'.map fun e => e.2.arguments := by
  simp only [ordered, List.map_append, List.map_eq_append_iff] at h
  obtain ⟨r₁₂₃, r₄, rfl, ⟨r₁₂, r₃, rfl, ⟨r₁, r₂, rfl, h₁, h₂⟩, h₃⟩, h₄⟩ := h
  obtain ⟨thoughts, rfl, ht⟩ := exists_eq_map (fun run t e => by
    cases run with
    | reasoning text sig => exact ⟨(text, sig), rfl⟩
    | _ => simp [Run.said] at e) h₁
  obtain ⟨datas', rfl, hd⟩ := exists_eq_map (fun run data e => by
    cases run with
    | redacted data => exact ⟨data, rfl⟩
    | _ => simp [Run.said] at e) h₂
  obtain ⟨texts', rfl, hx⟩ := exists_eq_map (fun run text e => by
    cases run with
    | message text => exact ⟨text, rfl⟩
    | _ => simp [Run.said] at e) h₃
  obtain ⟨calls, rfl, hc⟩ := exists_eq_map (fun run e he => by
    cases run with
    | call canon acc => exact ⟨(canon, acc), rfl⟩
    | _ => simp [Run.said] at he) h₄
  have hdatas : datas' = datas :=
    List.map_injective_iff.mpr (fun a b e => by simpa [Run.said] using e) hd
  have htexts : texts' = texts :=
    List.map_injective_iff.mpr (fun a b e => by simpa [Run.said] using e) hx
  have hthought : Function.Injective fun text : String => (Run.reasoning text none).said :=
    fun a b e => by simpa [Run.said] using e
  have hcall : Function.Injective fun arguments : String =>
      (Run.call 0 ⟨"", "", arguments⟩).said := fun a b e => by simpa [Run.said] using e
  rw [hdatas, htexts]
  refine ⟨thoughts, calls, rfl, List.map_injective_iff.mpr hthought ?_,
    List.map_injective_iff.mpr hcall ?_⟩
  · rw [List.map_map, List.map_map]
    exact ht
  · rw [List.map_map, List.map_map]
    exact hc

/-- **When the items besides the compactions are those of the snapshot.** -/
theorem plain_said_iff (chunks : List StreamChunk) :
    (live chunks).acc.plainRuns.map Run.said = (plain (live chunks).runs).map Run.said ↔
      InOrder chunks := by
  have htracks := tracks_live chunks
  have hreasons := reasons_live chunks
  have hspeaks := speaks_live chunks
  unfold InOrder
  generalize (live chunks).runs = runs at *
  generalize (live chunks).acc = acc at *
  rw [plainRuns_eq_ordered]
  simp only [← hreasons, ← hspeaks]
  constructor
  · intro h
    obtain ⟨thoughts, calls, hplain, ht, hc⟩ := exists_ordered h.symm
    obtain ⟨-, -, -, htools⟩ := htracks.ordered hplain
    have hnodup : (calls.map Prod.fst).Nodup := by
      have hlen := congrArg List.length hc
      rw [List.length_map, List.length_map] at hlen
      exact nodup_calls htools hlen.le
    refine ⟨thoughts, _, _, calls, hplain, ?_, ?_, hnodup, ?_⟩
    · have hlen := congrArg List.length ht
      rw [List.length_map, List.length_map] at hlen
      rw [hlen]
      split <;> rfl
    · by_cases htext : acc.text = "" <;> simp [htext]
    · rw [← ascending_calls hnodup htools]
      exact hc.symm
  · rintro ⟨thoughts, datas, texts, calls, hplain, hthoughts, htexts, hnodup, hsort⟩
    obtain ⟨hthink, hred, htext, htools⟩ := htracks.ordered hplain
    rw [hplain, ascending_calls hnodup htools]
    refine said_ordered_congr ?_ hred ?_ hsort
    · rw [← List.length_map (f := Prod.fst)] at hthoughts
      have hone := eq_of_length_eq_ite hthoughts
      rw [hone, ← hthink]
      split <;> rfl
    · have hone := eq_of_length_eq_ite htexts
      rw [hone, ← htext]
      by_cases htext : acc.text = "" <;> simp [htext]

/-! ## The two arrays -/

/-- Every finished item is shown by the snapshot at its output index, and the snapshot has no other
items. -/
def ItemsMatch (frames : List Frame) : Prop :=
  ∃ r, terminal frames = some r ∧
    (∀ d ∈ doneItems frames, ∃ item, r.output[d.1]? = some item ∧ item.shown = d.2.shown) ∧
    ∀ i < r.output.length, ∃ d ∈ doneItems frames, d.1 = i

/-- Two arrays match position by position if they show the same. -/
theorem matches_iff (output items : List Item) :
    ((∀ d : ℕ × Item, items[d.1]? = some d.2 →
        ∃ item, output[d.1]? = some item ∧ item.shown = d.2.shown) ∧
      ∀ i < output.length, ∃ d : ℕ × Item, items[d.1]? = some d.2 ∧ d.1 = i) ↔
    output.map Item.shown = items.map Item.shown := by
  constructor
  · rintro ⟨hdone, honly⟩
    refine List.ext_getElem? fun i => ?_
    rw [List.getElem?_map, List.getElem?_map]
    cases hi : items[i]? with
    | some item =>
      obtain ⟨item', hitem', hshown⟩ := hdone (i, item) hi
      rw [hitem', Option.map_some, Option.map_some, hshown]
    | none =>
      have hlen : output.length ≤ i := by
        by_contra hlt
        obtain ⟨d, hd, rfl⟩ := honly i (by omega)
        rw [hi] at hd
        cases hd
      rw [List.getElem?_eq_none hlen]
  · intro h
    have hget (i : ℕ) : output[i]?.map Item.shown = items[i]?.map Item.shown := by
      rw [← List.getElem?_map, ← List.getElem?_map, h]
    refine ⟨fun d hd => ?_, fun i hi => ?_⟩
    · have hi := hget d.1
      rw [hd, Option.map_some, Option.map_eq_some_iff] at hi
      exact hi
    · have hi' := hget i
      rw [List.getElem?_eq_getElem hi, Option.map_some, eq_comm, Option.map_eq_some_iff] at hi'
      obtain ⟨item, hitem, -⟩ := hi'
      exact ⟨(i, item), hitem, rfl⟩

theorem itemsMatch_iff (requestId model : String) (created : ℕ) (echo : RequestEcho)
    (chunks : List StreamChunk) :
    ItemsMatch (streamFrames requestId model created echo chunks) ↔
      (choiceItems (streamId requestId model created echo chunks)
        (live chunks).acc.choice).map Item.shown =
      (numbered (streamId requestId model created echo chunks) (live chunks).runs).map
        Item.shown := by
  rw [← matches_iff, ItemsMatch, doneItems_streamFrames]
  have hterminal := terminal_streamFrames requestId model created echo chunks
  generalize streamId requestId model created echo chunks = id at *
  obtain ⟨r, hr, hanswer⟩ := Option.map_eq_some_iff.mp hterminal
  have houtput : r.output = choiceItems id (live chunks).acc.choice := congrArg Prod.fst hanswer
  have hmem (d : ℕ × Item) :
      d ∈ ((live chunks).runs.mapIdx fun i run => (i, run.item id i)) ↔
        (numbered id (live chunks).runs)[d.1]? = some d.2 := by
    rw [List.mem_iff_getElem?]
    simp only [numbered, List.getElem?_mapIdx, Option.map_eq_some_iff]
    constructor
    · rintro ⟨i, run, hrun, rfl⟩
      exact ⟨run, hrun, rfl⟩
    · rintro ⟨run, hrun, hd⟩
      exact ⟨d.1, run, hrun, Prod.ext rfl hd⟩
  simp only [hr, Option.some.injEq, exists_eq_left', hmem, houtput]

/-- Two compactions show something different, wherever they are put. -/
def Mark.Distinct (a b : Mark) : Prop :=
  a.encryptedContent ≠ b.encryptedContent ∨ a.delta ≠ b.delta ∨
    ∃ x y, a.id = some x ∧ b.id = some y ∧ x ≠ y

/-- Every output index that is given to a compaction, cut to the array so far, is its live one. -/
def PlacesLive (size : ℕ) (ms : List Mark) : Prop :=
  ∀ l m r, ms = l ++ m :: r → ∀ i, m.outputIndex = some i → min i (size + l.length) = m.live

/-- The stream arrives as the snapshot lists it; or it delivers whole messages, which the snapshot
lists instead, and these show what the stream shows live. -/
def Arranged (requestId : String) (chunks : List StreamChunk) : Prop :=
  if outputMessages 0 chunks = [] then
    InOrder chunks ∧ PlacesLive (plainCount chunks) (compactions chunks)
  else
    (orderedOutputItems requestId (outputMessages 0 chunks)).map Item.shown =
      (numbered requestId (live chunks).runs).map Item.shown

theorem samePlaces_live_iff (requestId : String) {base : List Shown} {ms : List Mark}
    (hlive : ∀ l m r, ms = l ++ m :: r → m.live ≤ base.length + l.length) :
    SamePlaces atOutputIndex atLive (Mark.shown requestId) (Mark.shown requestId) base ms ↔
      PlacesLive base.length ms := by
  have hplace (l : List Mark) (m : Mark) (r : List Mark) (e : ms = l ++ m :: r) :
      placeAt atOutputIndex (insertAll atLive (Mark.shown requestId) base l) m =
        placeAt atLive (insertAll atLive (Mark.shown requestId) base l) m ↔
      ∀ i, m.outputIndex = some i → min i (base.length + l.length) = m.live := by
    have hle := hlive l m r e
    cases ho : m.outputIndex <;>
      simp [placeAt, atOutputIndex, atLive, length_insertAll, ho, Nat.min_eq_left hle]
  constructor
  · exact fun h l m r e => (hplace l m r e).mp (h l m r e).1
  · exact fun h l m r e => ⟨(hplace l m r e).mpr (h l m r e), rfl⟩

theorem pairwise_shown_ne {requestId : String} {ms : List Mark}
    (h : ms.Pairwise Mark.Distinct) :
    ms.Pairwise fun m m' => ∀ i j, m.shown requestId i ≠ m'.shown requestId j := by
  refine h.imp fun {m m'} hne i j hshown => ?_
  simp only [Mark.shown, Mark.item, Item.shown, Shown.mk.injEq, true_and] at hshown
  obtain ⟨hid, htexts, henc⟩ := hshown
  have hcontent : m.content = m'.content :=
    Option.map_injective (fun a b e => by simpa using e) htexts
  rcases hne with h | h | ⟨x, y, hx, hy, hxy⟩
  · exact h henc
  · exact h (Mark.content_injective hcontent)
  · rw [hx, hy] at hid
    exact hxy hid

/-- The two arrays, as insertions into the other items. -/
theorem outputItems_shown_iff (requestId : String) (chunks : List StreamChunk) :
    (outputItems requestId (live chunks).acc.choice).map Item.shown =
        (numbered requestId (live chunks).runs).map Item.shown ↔
      insertAll atOutputIndex (Mark.shown requestId) ((live chunks).acc.plainRuns.map Run.said)
          (compactions chunks) =
        insertAll atLive (Mark.shown requestId) ((plain (live chunks).runs).map Run.said)
          (compactions chunks) := by
  have hplaced := (tracks_live chunks).placed
  rw [outputItems_live, ← renumber_numbered requestId (live chunks).runs, shown_renumber_iff,
    ← compactions, shown_outputItems, shown_runs requestId hplaced]
  rfl

theorem outputItems_eq_of_inOrder (requestId : String) {chunks : List StreamChunk}
    (h : InOrder chunks ∧ PlacesLive (plainCount chunks) (compactions chunks)) :
    (outputItems requestId (live chunks).acc.choice).map Item.shown =
      (numbered requestId (live chunks).runs).map Item.shown := by
  have hplain := (plain_said_iff chunks).mpr h.1
  have hlive := live_le (tracks_live chunks).placed
  have hlen := congrArg List.length hplain
  rw [List.length_map, List.length_map, length_plainRuns] at hlen
  rw [outputItems_shown_iff, hplain]
  refine SamePlaces.insertAll_eq ((samePlaces_live_iff requestId fun l m r e => ?_).mpr ?_)
  · rw [List.length_map]
    exact hlive l m r e
  · rw [List.length_map, ← hlen]
    exact h.2

theorem inOrder_of_outputItems_eq {requestId : String} {chunks : List StreamChunk}
    (hdistinct : (compactions chunks).Pairwise Mark.Distinct)
    (h : (outputItems requestId (live chunks).acc.choice).map Item.shown =
      (numbered requestId (live chunks).runs).map Item.shown) :
    InOrder chunks ∧ PlacesLive (plainCount chunks) (compactions chunks) := by
  have hlive := live_le (tracks_live chunks).placed
  rw [outputItems_shown_iff] at h
  have hfilter := congrArg (List.filter fun s => s.kind ≠ "compaction") h
  rw [filter_shown requestId _ fun run hrun => mark_plainRuns hrun,
    filter_shown requestId _ fun run hrun => by simpa using (List.mem_filter.mp hrun).2] at hfilter
  have hlen := congrArg List.length hfilter
  rw [List.length_map, List.length_map, length_plainRuns] at hlen
  rw [hfilter] at h
  have hnew : ∀ m ∈ compactions chunks, ∀ i, m.shown requestId i ∉
      (plain (live chunks).runs).map Run.said := by
    intro m _ i hmem
    obtain ⟨run, hrun, hsaid⟩ := List.mem_map.mp hmem
    have hmark : run.mark = none := by simpa using (List.mem_filter.mp hrun).2
    cases run <;> simp_all [Run.said, Run.mark, Mark.shown, Mark.item, Item.shown]
  have hsame := samePlaces_of_insertAll_eq hnew (pairwise_shown_ne hdistinct) h
  rw [samePlaces_live_iff requestId fun l m r e => by
    rw [List.length_map]
    exact hlive l m r e, List.length_map, ← hlen] at hsame
  exact ⟨(plain_said_iff chunks).mp hfilter, hsame⟩

end Llmleaf.Responses
