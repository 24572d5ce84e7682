import Llmleaf.Lib.Lines

/-!
# Reading line by line

A reader makes something of every line of a text, and may be done with it before its end.

- `Reading`, `readAll`: what is made of a line, and of some lines.
- `readText`: what is made of a text that ends, or that breaks off.
- `readAll_flatMap`: blocks of lines that each make up one item.
- **Result** (`readText_broken`): of a text that breaks off anywhere, the first items are read.
-/

namespace Lines

variable {α β ι : Type}

/-- What a line is read as: nothing, the end, an item, or the last item. -/
inductive Reading (ι : Type) where
  | skip
  | done
  | item (i : ι)
  | last (i : ι)
  deriving DecidableEq

/-- What the last line gives, when nothing comes behind it. -/
def Reading.flush : Reading ι → List ι
  | .item i | .last i => [i]
  | .skip | .done => []

variable (read : List α → Reading ι)

/-- The items of some lines, and whether the reader is done. -/
def readAll : List (List α) → List ι × Bool
  | [] => ([], false)
  | line :: lines =>
    match read line with
    | .skip => readAll lines
    | .done => ([], true)
    | .item i => (i :: (readAll lines).1, (readAll lines).2)
    | .last i => ([i], true)

/-- The items that come behind some lines, if the reader is not done with them. -/
def continued (items : List ι × Bool) (more : List ι) : List ι :=
  if items.2 then items.1 else items.1 ++ more

section

variable [DecidableEq α] (sep : α)

/-- The items of a text. With an `error` it breaks off, and what is left behind the last line is
lost; without one, what is left is read as a line. -/
def readText (text : List α) (error : Option ι) : List ι :=
  continued (readAll read (cut sep [] text).1) <|
    match error with
    | some error => [error]
    | none => if (cut sep [] text).2 = [] then [] else (read (cut sep [] text).2).flush

end

variable {read}

theorem readAll_append (lines more : List (List α)) : readAll read (lines ++ more) =
    (continued (readAll read lines) (readAll read more).1,
      (readAll read lines).2 || (readAll read more).2) := by
  induction lines with
  | nil => rfl
  | cons line lines ih =>
    rw [List.cons_append, readAll, readAll]
    cases read line with
    | skip => exact ih
    | done => rfl
    | item i =>
      rw [ih]
      cases h : (readAll read lines).2 <;> simp [continued, h]
    | last i => rfl

/-- The first lines give the first items. -/
theorem readAll_mono {lines lines' : List (List α)} (h : lines <+: lines') :
    (readAll read lines).1 <+: (readAll read lines').1 := by
  obtain ⟨more, rfl⟩ := h
  rw [readAll_append, continued]
  split
  · exact List.prefix_rfl
  · exact List.prefix_append _ _

/-- Where the reader is done with the first lines, nothing else is read. -/
theorem readAll_done {lines lines' : List (List α)} (h : lines <+: lines')
    (hdone : (readAll read lines).2 = true) : readAll read lines' = readAll read lines := by
  obtain ⟨more, rfl⟩ := h
  rw [readAll_append, continued, if_pos hdone, hdone, Bool.true_or, ← hdone]

/-- Blocks of lines that make up an item each. -/
theorem readAll_flatMap {f : β → List (List α)} {g : β → ι} {blocks : List β}
    (h : ∀ b ∈ blocks, readAll read (f b) = ([g b], false)) :
    readAll read (blocks.flatMap f) = (blocks.map g, false) := by
  induction blocks with
  | nil => rfl
  | cons b blocks ih =>
    obtain ⟨hb, hblocks⟩ := List.forall_mem_cons.mp h
    rw [List.flatMap_cons, readAll_append, hb, ih hblocks]
    rfl

section

variable [DecidableEq α] {sep : α}

/-- Lines that are each ended by the separator, and what comes behind them. -/
theorem cut_joined {lines : List (List α)} (h : ∀ line ∈ lines, sep ∉ line) (rest : List α) :
    cut sep [] (lines.flatMap (· ++ [sep]) ++ rest) =
      (lines ++ (cut sep [] rest).1, (cut sep [] rest).2) := by
  induction lines with
  | nil => rfl
  | cons line lines ih =>
    obtain ⟨hline, hlines⟩ := List.forall_mem_cons.mp h
    rw [List.flatMap_cons, List.append_assoc, List.append_assoc, cut_append, cut_of_not_mem hline,
      List.singleton_append, cut, if_pos rfl, ih hlines]
    rfl

/-- A text that starts with a line. -/
theorem readText_line {line : List α} (h : sep ∉ line) (text : List α) (error : Option ι) :
    readText read sep (line ++ sep :: text) error =
      match read line with
      | .skip => readText read sep text error
      | .done => []
      | .item i => i :: readText read sep text error
      | .last i => [i] := by
  have hcut : cut sep [] (line ++ sep :: text) =
      (line :: (cut sep [] text).1, (cut sep [] text).2) := by
    rw [cut_append, cut_of_not_mem h, cut, if_pos rfl]
    rfl
  unfold readText
  rw [hcut, readAll]
  cases read line with
  | skip => rfl
  | done => rfl
  | item i =>
    cases hdone : (readAll read (cut sep [] text).1).2 <;> simp [continued, hdone]
  | last i => rfl

/-- A text without a whole line. -/
theorem readText_rest {text : List α} (h : sep ∉ text) (error : Option ι) :
    readText read sep text error =
      match error with
      | some error => [error]
      | none => if text = [] then [] else (read text).flush := by
  unfold readText
  rw [cut_of_not_mem h, List.nil_append]
  rfl

theorem cut_mono {text text' : List α} (h : text <+: text') :
    (cut sep [] text).1 <+: (cut sep [] text').1 := by
  obtain ⟨more, rfl⟩ := h
  rw [cut_append]
  exact List.prefix_append _ _

/-- **A text that breaks off anywhere gives the first items of the whole**: all of them, or some
and the error. -/
theorem readText_broken {text text' : List α} (h : text <+: text') (error : ι) :
    readText read sep text (some error) = (readAll read (cut sep [] text').1).1 ∨
      ∃ items, items <+: (readAll read (cut sep [] text').1).1 ∧
        readText read sep text (some error) = items ++ [error] := by
  rw [readText, continued]
  split
  · rename_i hdone
    rw [readAll_done (cut_mono h) hdone]
    exact .inl rfl
  · exact .inr ⟨_, readAll_mono (cut_mono h), rfl⟩

/-- Once the reader is done, what comes behind does not matter. -/
theorem readText_done {text text' : List α} (h : text <+: text') {items : List ι}
    (hdone : readAll read (cut sep [] text).1 = (items, true)) (error : Option ι) :
    readText read sep text' error = items := by
  unfold readText continued
  rw [readAll_done (cut_mono h) (by rw [hdone]), hdone, if_pos rfl]

end

end Lines
