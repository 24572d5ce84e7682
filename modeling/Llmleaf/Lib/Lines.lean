import Mathlib.Data.List.Forall2

/-!
# Lines through a bounded buffer

A stream of symbols comes in chunks. Its lines are cut off at the separator; what is left of a chunk
waits in a buffer, which is dropped when it has grown beyond a bound.

- `cut`: the lines of a text and what is left of it.
- `feed`, `run`: the lines that the chunks of a stream make up.
- `run_truncated`: every line of the stream comes out, whole or without a long beginning.
- `run_two`: any beginning beyond the bound can be lost.
- **Result** (`filterMap_run_iff`): what is read from the lines depends on how the stream is cut into
  chunks, unless nothing is read from any long line or from any end of it.
-/

namespace Lines

variable {α β : Type}

/-- A line of the stream, whole or without a beginning that is longer than the bound. -/
def Truncated (bound : ℕ) (out line : List α) : Prop :=
  ∃ dropped, line = dropped ++ out ∧ (dropped = [] ∨ bound < dropped.length)

theorem truncated_self (bound : ℕ) (line : List α) : Truncated bound line line :=
  ⟨[], rfl, .inl rfl⟩

/-- Lines that are read alike are read to the same. -/
theorem filterMap_congr_forall₂ {read : List α → Option β} {r : List α → List α → Prop}
    {outs lines : List (List α)} (h : List.Forall₂ r outs lines)
    (hread : ∀ out line, line ∈ lines → r out line → read out = read line) :
    outs.filterMap read = lines.filterMap read := by
  induction h with
  | nil => rfl
  | cons hr _ ih =>
    rw [List.filterMap_cons, List.filterMap_cons, hread _ _ List.mem_cons_self hr,
      ih fun out line hl => hread out line (List.mem_cons_of_mem _ hl)]

variable [DecidableEq α] (sep : α)

/-- The lines of a text, the first of them begun with `buf`, and what is left behind the last. -/
def cut : List α → List α → List (List α) × List α
  | buf, [] => ([], buf)
  | buf, a :: text =>
    if a = sep then
      let (lines, rest) := cut [] text
      (buf :: lines, rest)
    else cut (buf ++ [a]) text

/-- The lines that end in a chunk, and the buffer after it. -/
def feed (bound : ℕ) (buf chunk : List α) : List (List α) × List α :=
  let (lines, rest) := cut sep [] (buf ++ chunk)
  (lines, if bound < rest.length then [] else rest)

/-- The lines of a stream in chunks. -/
def run (bound : ℕ) : List α → List (List α) → List (List α)
  | _, [] => []
  | buf, chunk :: chunks =>
    let (lines, buf) := feed sep bound buf chunk
    lines ++ run bound buf chunks

variable {sep}

theorem cut_append (buf a b : List α) : cut sep buf (a ++ b) =
    ((cut sep buf a).1 ++ (cut sep (cut sep buf a).2 b).1, (cut sep (cut sep buf a).2 b).2) := by
  induction a generalizing buf with
  | nil => rfl
  | cons x a ih =>
    by_cases hx : x = sep
    · simp only [List.cons_append, cut, if_pos hx, ih]
    · simp only [List.cons_append, cut, if_neg hx, ih]

/-- A text without a separator is left whole. -/
theorem cut_of_not_mem {text : List α} (h : sep ∉ text) (buf : List α) :
    cut sep buf text = ([], buf ++ text) := by
  induction text generalizing buf with
  | nil => rw [cut, List.append_nil]
  | cons a text ih =>
    rw [List.mem_cons, not_or] at h
    rw [cut, if_neg (Ne.symm h.1), ih h.2, List.append_assoc, List.singleton_append]

/-- What is left has no separator. -/
theorem not_mem_rest {buf : List α} (h : sep ∉ buf) (text : List α) :
    sep ∉ (cut sep buf text).2 := by
  induction text generalizing buf with
  | nil => exact h
  | cons a text ih =>
    by_cases ha : a = sep
    · simp only [cut, if_pos ha]
      exact ih List.not_mem_nil
    · simp only [cut, if_neg ha]
      exact ih (by simpa using ⟨h, Ne.symm ha⟩)

/-- What stands before the buffer stands before the first line, or before what is left. -/
theorem cut_before (dropped buf text : List α) : cut sep (dropped ++ buf) text =
    match cut sep buf text with
    | ([], rest) => ([], dropped ++ rest)
    | (line :: lines, rest) => ((dropped ++ line) :: lines, rest) := by
  induction text generalizing buf with
  | nil => rfl
  | cons a text ih =>
    by_cases ha : a = sep
    · simp only [cut, if_pos ha]
    · simp only [cut, if_neg ha, List.append_assoc, ih]

/-- A buffer without separator is the beginning of the first line. -/
theorem feed_eq {buf : List α} (h : sep ∉ buf) (bound : ℕ) (chunk : List α) :
    feed sep bound buf chunk = ((cut sep buf chunk).1,
      if bound < (cut sep buf chunk).2.length then [] else (cut sep buf chunk).2) := by
  rw [feed, cut_append, cut_of_not_mem h, List.nil_append, List.nil_append]

/-! ## What comes out -/

/-- **Every line of the stream comes out**, some of them truncated. The invariant is that what was
dropped of the line being read is nothing, or longer than the bound. -/
theorem run_truncated_from {bound : ℕ} {dropped buf : List α}
    (hdropped : dropped = [] ∨ bound < dropped.length) (hbuf : sep ∉ buf)
    (chunks : List (List α)) : List.Forall₂ (Truncated bound) (run sep bound buf chunks)
      (cut sep (dropped ++ buf) chunks.flatten).1 := by
  induction chunks generalizing dropped buf with
  | nil => exact .nil
  | cons chunk chunks ih =>
    have hrest : sep ∉ (cut sep buf chunk).2 := not_mem_rest hbuf chunk
    rw [run, feed_eq hbuf, List.flatten_cons, cut_append, cut_before]
    generalize cut sep buf chunk = p at hrest
    obtain ⟨lines, rest⟩ := p
    cases lines with
    | nil =>
      dsimp only
      rw [List.nil_append, List.nil_append]
      split
      · -- the buffer joins what was dropped
        have hlong : bound < (dropped ++ rest).length := by
          rw [List.length_append]
          omega
        have := ih (.inr hlong) (List.not_mem_nil (a := sep))
        rwa [List.append_nil] at this
      · exact ih hdropped hrest
    | cons line lines =>
      dsimp only
      have hlines : List.Forall₂ (Truncated bound) (line :: lines) ((dropped ++ line) :: lines) :=
        .cons ⟨dropped, rfl, hdropped⟩ (List.forall₂_same.mpr fun l _ => truncated_self bound l)
      refine List.rel_append hlines ?_
      split
      · have := ih (.inr ‹_›) (List.not_mem_nil (a := sep))
        rwa [List.append_nil] at this
      · exact @ih [] _ (.inl rfl) hrest

theorem run_truncated (bound : ℕ) (chunks : List (List α)) :
    List.Forall₂ (Truncated bound) (run sep bound [] chunks) (cut sep [] chunks.flatten).1 :=
  run_truncated_from (.inl rfl) List.not_mem_nil chunks

/-! ## What can be lost -/

/-- The first line of a text. -/
theorem cut_eq_cons {buf text line : List α} {lines : List (List α)}
    (h : (cut sep buf text).1 = line :: lines) :
    ∃ tail rest, line = buf ++ tail ∧ text = tail ++ sep :: rest ∧ sep ∉ tail ∧
      (cut sep [] rest).1 = lines := by
  induction text generalizing buf with
  | nil => cases h
  | cons a text ih =>
    by_cases ha : a = sep
    · simp only [cut, if_pos ha, List.cons.injEq] at h
      exact ⟨[], text, by rw [h.1, List.append_nil], by rw [ha, List.nil_append],
        List.not_mem_nil, h.2⟩
    · simp only [cut, if_neg ha] at h
      obtain ⟨tail, rest, hline, htext, htail, hlines⟩ := ih h
      refine ⟨a :: tail, rest, by rw [hline, List.append_assoc, List.singleton_append],
        by rw [htext, List.cons_append], ?_, hlines⟩
      rw [List.mem_cons, not_or]
      exact ⟨Ne.symm ha, htail⟩

/-- A line stands behind the lines before it, and is ended by a separator. -/
theorem cut_eq_append {text line : List α} {before after : List (List α)}
    (h : (cut sep [] text).1 = before ++ line :: after) :
    ∃ start rest, text = start ++ (line ++ sep :: rest) ∧ sep ∉ line ∧
      cut sep [] start = (before, []) ∧ (cut sep [] rest).1 = after := by
  induction before generalizing text with
  | nil =>
    obtain ⟨tail, rest, rfl, htext, htail, hafter⟩ := cut_eq_cons h
    exact ⟨[], rest, htext, htail, rfl, hafter⟩
  | cons first before ih =>
    obtain ⟨tail, rest, hfirst, htext, htail, hlines⟩ := cut_eq_cons h
    rw [List.nil_append] at hfirst
    subst first
    obtain ⟨start, rest', hrest, hline, hstart, hafter⟩ := ih hlines
    refine ⟨tail ++ sep :: start, rest', by rw [htext, hrest]; simp, hline, ?_, hafter⟩
    rw [cut_append, cut_of_not_mem htail, cut, if_pos rfl, hstart]
    rfl

/-- **A beginning of a line beyond the bound is lost** where a chunk ends behind it. -/
theorem run_two {bound q : ℕ} {start line rest : List α} {before : List (List α)}
    (hstart : cut sep [] start = (before, [])) (hline : sep ∉ line) (hq : bound < q)
    (hle : q ≤ line.length) :
    run sep bound [] [start ++ line.take q, line.drop q ++ sep :: rest] =
      before ++ line.drop q :: (cut sep [] rest).1 := by
  have htake : sep ∉ line.take q := fun h => hline (List.mem_of_mem_take h)
  have hdrop : sep ∉ line.drop q := fun h => hline (List.mem_of_mem_drop h)
  have hlong : bound < (line.take q).length := by
    rw [List.length_take]
    omega
  simp only [run, feed, List.nil_append, cut_append, hstart, cut_of_not_mem htake,
    cut_of_not_mem hdrop, if_pos hlong, cut, if_true, List.append_nil]

/-! ## Reading the lines -/

/-- Nothing is read from a line beyond the bound, nor from an end of it behind the bound. -/
def Silent (bound : ℕ) (read : List α → Option β) (line : List α) : Prop :=
  bound < line.length → read line = none ∧ ∀ q, bound < q → read (line.drop q) = none

variable {bound : ℕ} {read : List α → Option β}

/-- Where the long lines are silent, the lines are read as if the stream was in one piece. -/
theorem filterMap_run {chunks : List (List α)}
    (h : ∀ line ∈ (cut sep [] chunks.flatten).1, Silent bound read line) :
    (run sep bound [] chunks).filterMap read = (cut sep [] chunks.flatten).1.filterMap read := by
  refine filterMap_congr_forall₂ (run_truncated bound chunks) fun out line hmem hout => ?_
  obtain ⟨dropped, hline, rfl | hlong⟩ := hout
  · rw [hline, List.nil_append]
  · have hdrop : line.drop dropped.length = out := by rw [hline, List.drop_left]
    have hlen : bound < line.length := by
      rw [hline, List.length_append]
      omega
    obtain ⟨hwhole, hend⟩ := h line hmem hlen
    rw [hwhole, ← hdrop, hend _ hlong]

/-- **What is read does not depend on the chunks exactly if the long lines are silent.** -/
theorem filterMap_run_iff (hnil : read [] = none) (text : List α) :
    (∀ chunks chunks' : List (List α), chunks.flatten = text → chunks'.flatten = text →
        (run sep bound [] chunks).filterMap read = (run sep bound [] chunks').filterMap read) ↔
      ∀ line ∈ (cut sep [] text).1, Silent bound read line := by
  constructor
  · intro hall line hmem hlong
    obtain ⟨before, after, hlines⟩ := List.append_of_mem hmem
    obtain ⟨start, rest, htext, hline, hstart, hafter⟩ := cut_eq_append hlines
    have hwhole : run sep bound [] [text] = before ++ line :: after := by
      rw [run, feed, List.nil_append, ← hlines]
      exact List.append_nil _
    -- a chunk that ends within the line, and one that ends just before its separator
    have hsplit {q : ℕ} (hle : q ≤ line.length) :
        [start ++ line.take q, line.drop q ++ sep :: rest].flatten = text := by
      rw [htext, List.flatten_cons, List.flatten_cons, List.flatten_nil, List.append_nil,
        List.append_assoc, ← List.append_assoc (line.take q), List.take_append_drop]
    have hlost {q : ℕ} (hq : bound < q) (hle : q ≤ line.length) :
        (before ++ line.drop q :: after).filterMap read =
          (before ++ [] :: after).filterMap read := by
      have hend := @run_two _ _ _ _ _ _ _ rest _ hstart hline hlong (Nat.le_refl _)
      rw [List.drop_length] at hend
      rw [← hafter, ← run_two hstart hline hq hle, ← hend]
      have := hall _ _ (hsplit hle) (hsplit (Nat.le_refl _))
      rwa [List.drop_length] at this
    have hnone {out : List α} (h : (before ++ out :: after).filterMap read =
        (before ++ [] :: after).filterMap read) : read out = none := by
      rw [List.filterMap_append, List.filterMap_append, List.append_cancel_left_eq,
        List.filterMap_cons_none hnil, List.filterMap_cons] at h
      cases hout : read out with
      | none => rfl
      | some b =>
        rw [hout] at h
        exact absurd h (List.cons_ne_self _ _)
    constructor
    · refine hnone ?_
      have hend := @run_two _ _ _ _ _ _ _ rest _ hstart hline hlong (Nat.le_refl _)
      rw [List.drop_length, hafter] at hend
      rw [← hwhole, ← hend]
      have := hall [text] _ (by simp) (hsplit (Nat.le_refl _))
      rwa [List.drop_length] at this
    · intro q hq
      by_cases hle : q ≤ line.length
      · exact hnone (hlost hq hle)
      · rw [List.drop_eq_nil_of_le (by omega), hnil]
  · rintro h chunks chunks' rfl hchunks'
    rw [filterMap_run h, filterMap_run (by rwa [hchunks']), hchunks']

end Lines
