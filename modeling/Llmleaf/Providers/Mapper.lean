import Llmleaf.Chat.Gathered

/-!
# Event mappers

Every upstream has two mappers into the canonical stream: one for a collected response and one for
the events of a streamed one, which keeps a state from event to event.

- `mapEvents`: the concatenated output of an event mapper, up to its first error.
- `contentChunk`, `thinkingChunk`, `functionDelta`: what the mappers have in common.
-/

namespace Llmleaf

/-- The output of an event mapper over a list of events. -/
def mapEvents {σ : Type} (map : Value → σ → Except ModelError (List StreamChunk × σ)) :
    List Value → σ → Except ModelError (List StreamChunk × σ)
  | [], state => .ok ([], state)
  | event :: events, state => do
    let (chunks, state) ← map event state
    let (rest, state) ← mapEvents map events state
    .ok (chunks ++ rest, state)

theorem mapEvents_cons {σ : Type} {map : Value → σ → Except ModelError (List StreamChunk × σ)}
    {event : Value} {events : List Value} {s s' s'' : σ} {chunks rest : List StreamChunk}
    (h : map event s = .ok (chunks, s')) (hrest : mapEvents map events s' = .ok (rest, s'')) :
    mapEvents map (event :: events) s = .ok (chunks ++ rest, s'') := by
  rw [mapEvents, h]
  change (do let (rest, state) ← mapEvents map events s'; _) = _
  rw [hrest]
  rfl

theorem mapEvents_append {σ : Type} {map : Value → σ → Except ModelError (List StreamChunk × σ)}
    {a b : List Value} {s s' s'' : σ} {chunks rest : List StreamChunk}
    (h : mapEvents map a s = .ok (chunks, s')) (hrest : mapEvents map b s' = .ok (rest, s'')) :
    mapEvents map (a ++ b) s = .ok (chunks ++ rest, s'') := by
  induction a generalizing s chunks with
  | nil =>
    cases h
    exact hrest
  | cons event a ih =>
    rw [mapEvents] at h
    cases hmap : map event s with
    | error e => rw [hmap] at h; cases h
    | ok p =>
      obtain ⟨c, t⟩ := p
      rw [hmap] at h
      change (do let (rest, state) ← mapEvents map a t; _) = _ at h
      cases htail : mapEvents map a t with
      | error e => rw [htail] at h; cases h
      | ok p =>
        rw [htail] at h
        cases h
        rw [List.cons_append, mapEvents_cons hmap (ih htail), List.append_assoc]

/-- Where every event maps to chunks and leaves the state, the chunks are those of all events. -/
theorem mapEvents_flatMap {σ : Type} {map : Value → σ → Except ModelError (List StreamChunk × σ)}
    {s : σ} {chunks : Value → List StreamChunk} {events : List Value}
    (h : ∀ e ∈ events, map e s = .ok (chunks e, s)) :
    mapEvents map events s = .ok (events.flatMap chunks, s) := by
  induction events with
  | nil => rfl
  | cons e events ih =>
    rw [List.flatMap_cons]
    exact mapEvents_cons (h e List.mem_cons_self) (ih fun e' he => h e' (List.mem_cons_of_mem _ he))

/-- Where every event brings a piece and leaves the state, the chunks are those of all pieces. -/
theorem mapEvents_pieces {σ α : Type} {map : Value → σ → Except ModelError (List StreamChunk × σ)}
    {brings : α → Value → Prop} {pieces : List α} {events : List Value}
    (h : List.Forall₂ brings pieces events) {s : σ} {f : α → List StreamChunk}
    (hone : ∀ piece event, brings piece event → map event s = .ok (f piece, s)) :
    mapEvents map events s = .ok (pieces.flatMap f, s) := by
  induction h with
  | nil => rfl
  | cons hb _ ih => exact mapEvents_cons (hone _ _ hb) ih

/-- Events that map to nothing and leave the state may be left out. -/
theorem mapEvents_filter {σ : Type} {map : Value → σ → Except ModelError (List StreamChunk × σ)}
    {p : Value → Prop} [DecidablePred p] (h : ∀ e s, ¬ p e → map e s = .ok ([], s))
    (events : List Value) (s : σ) :
    mapEvents map events s = mapEvents map (events.filter (p ·)) s := by
  induction events generalizing s with
  | nil => rfl
  | cons e events ih =>
    by_cases he : p e
    · rw [List.filter_cons_of_pos (by simpa using he), mapEvents, mapEvents]
      congr 1
      funext ⟨chunks, t⟩
      simp only [ih]
    · rw [List.filter_cons_of_neg (by simpa using he), ← ih, mapEvents, h e s he]
      change (do let (rest, state) ← mapEvents map events s; _) = _
      cases mapEvents map events s <;> rfl

/-! ## What the mappers have in common -/

/-- The chunk of a visible text that is not empty. -/
def contentChunk (index : ℕ) (text : Option String) : List StreamChunk :=
  match text with
  | some text => if text = "" then [] else [.content index text]
  | none => []

/-- The chunk of a reasoning text that is not empty. -/
def thinkingChunk (index : ℕ) (text : Option String) : List StreamChunk :=
  match text with
  | some text => if text = "" then [] else [.thinking index text]
  | none => []

/-- Reading on below a field, or below null where there is none. -/
theorem Value.textAt_getD (v : Value) (field key : String) (more : List String) :
    ((v.get field).getD .null).textAt (key :: more) = v.textAt (field :: key :: more) := by
  rw [Value.textAt, ← Value.path_one, Value.path_getD]
  rfl

/-- A tool call, or a fragment of one, in the form of a function call. -/
def functionDelta (index : ℕ) (call : Value) : ToolCallDelta where
  index := index
  id := call.textAt ["id"]
  name := call.textAt ["function", "name"]
  arguments := call.textAt ["function", "arguments"]

section

variable (i j : ℕ) (text : Option String)

theorem gathered_contentChunk : gathered i (contentChunk j text) =
    if j = i then Gathered.part (.content i (text.getD "")) else 0 := by
  cases text with
  | none => split <;> rfl
  | some text =>
    by_cases htext : text = ""
    · simp [contentChunk, htext, gathered_nil]
    · simp only [contentChunk, if_neg htext, Option.getD_some]
      split
      · subst j
        exact gathered_one rfl
      · exact gathered_other (by simpa [StreamChunk.index])

theorem gathered_thinkingChunk : gathered i (thinkingChunk j text) =
    if j = i then Gathered.part (.thinking i (text.getD "")) else 0 := by
  cases text with
  | none => split <;> rfl
  | some text =>
    by_cases htext : text = ""
    · simp [thinkingChunk, htext, gathered_nil]
    · simp only [thinkingChunk, if_neg htext, Option.getD_some]
      split
      · subst j
        exact gathered_one rfl
      · exact gathered_other (by simpa [StreamChunk.index])

theorem index_contentChunk : ∀ c ∈ contentChunk j text, c.index = some j := by
  unfold contentChunk
  split
  · split <;> simp [StreamChunk.index]
  · simp

theorem index_thinkingChunk : ∀ c ∈ thinkingChunk j text, c.index = some j := by
  unfold thinkingChunk
  split
  · split <;> simp [StreamChunk.index]
  · simp

@[simp] theorem fragments_contentChunk (k : ℕ) :
    (contentChunk j text).filterMap (StreamChunk.fragmentOf i k) = [] := by
  unfold contentChunk
  split
  · split <;> simp [StreamChunk.fragmentOf]
  · rfl

@[simp] theorem fragments_thinkingChunk (k : ℕ) :
    (thinkingChunk j text).filterMap (StreamChunk.fragmentOf i k) = [] := by
  unfold thinkingChunk
  split
  · split <;> simp [StreamChunk.fragmentOf]
  · rfl

@[simp] theorem finishes_contentChunk :
    (contentChunk j text).filterMap (StreamChunk.finishOf i) = [] := by
  unfold contentChunk
  split
  · split <;> simp [StreamChunk.finishOf]
  · rfl

@[simp] theorem finishes_thinkingChunk :
    (thinkingChunk j text).filterMap (StreamChunk.finishOf i) = [] := by
  unfold thinkingChunk
  split
  · split <;> simp [StreamChunk.finishOf]
  · rfl

theorem plain_contentChunk : ∀ c ∈ contentChunk j text, c.Plain := by
  unfold contentChunk
  split
  · split <;> simp [StreamChunk.Plain]
  · simp

theorem plain_thinkingChunk : ∀ c ∈ thinkingChunk j text, c.Plain := by
  unfold thinkingChunk
  split
  · split <;> simp [StreamChunk.Plain]
  · simp

end

/-- Pieces of a choice add their parts. -/
theorem gathered_pieces {i : ℕ} {f : String → StreamChunk}
    (hf : ∀ piece, (f piece).index = some i) (pieces : List String) :
    gathered i (pieces.flatMap fun piece => [f piece]) =
      (pieces.map fun piece => Gathered.part (f piece)).sum := by
  rw [gathered_flatMap]
  congr 1
  exact List.map_congr_left fun piece _ => gathered_one (hf piece)

theorem index_pieces {i : ℕ} {f : String → StreamChunk}
    (hf : ∀ piece, (f piece).index = some i) (pieces : List String) :
    ∀ c ∈ pieces.flatMap fun piece => [f piece], c.index = some i := by
  intro c hc
  obtain ⟨piece, -, hc⟩ := List.mem_flatMap.mp hc
  rw [List.mem_singleton.mp hc, hf]

/-- A piece that may be absent adds its part. -/
theorem gathered_piece {i : ℕ} {f : String → StreamChunk}
    (hf : ∀ piece, (f piece).index = some i) (piece : Option String) :
    gathered i (piece.map f).toList =
      (piece.map fun piece => Gathered.part (f piece)).getD 0 := by
  cases piece with
  | none => rfl
  | some piece => exact gathered_one (hf piece)

/-- Of the calls listed in a response, the one at a position is whole. -/
theorem fragments_mapIdx (i k : ℕ) (calls : List Value) :
    (calls.mapIdx fun j call => StreamChunk.toolCall i (functionDelta j call)).filterMap
      (StreamChunk.fragmentOf i k) = (calls[k]?.map (functionDelta k)).toList := by
  induction calls using List.reverseRecOn with
  | nil => rfl
  | append_singleton calls call ih =>
    rw [List.mapIdx_append, List.filterMap_append, ih, List.getElem?_append]
    rcases lt_trichotomy k calls.length with h | h | h
    · simp [StreamChunk.fragmentOf, functionDelta, h, Nat.ne_of_gt h]
    · simp [StreamChunk.fragmentOf, functionDelta, h]
    · simp [StreamChunk.fragmentOf, functionDelta, Nat.ne_of_lt h, Nat.not_lt.mpr (Nat.le_of_lt h)]
      omega

end Llmleaf
