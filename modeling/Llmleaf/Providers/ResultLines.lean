import Llmleaf.Batch
import Llmleaf.Lib.Lines

/-!
# Batch result files

The results of a batch come as a file of JSON lines, which is read while it arrives. A line that is
complete is parsed; what is left of a chunk waits in a buffer, whose length is checked between two
chunks only.

- `buildJsonl`, `parseLine`, `jsonlResultStream`: the writer and the reader.
- `upToOverlong`: what is read line by line up to the first malformed or overlong line.
- `Tame`: no overlong line is read, or nothing but the end of the file is left to be read from it on.
- **Result** (`resultLines_iff`): every way of cutting a file into chunks reads it line by line exactly
  if its lines are tame; for a written file, if no line is overlong.
-/

namespace Llmleaf.ResultLines

/-- The longest line that is kept while it is not complete. -/
def maxJsonlLineBytes : ℕ := 16 * 1024 * 1024

def isAsciiWhitespace (b : UInt8) : Bool := b = 32 || b = 9 || b = 10 || b = 12 || b = 13

def trimAscii (b : List UInt8) : List UInt8 :=
  ((b.dropWhile isAsciiWhitespace).reverse.dropWhile isAsciiWhitespace).reverse

/-- An element of the result stream, or the error that ends it. -/
abbrev Item := Except ModelError BatchResult

/-- The error of a line that is too long. -/
def overlong : ModelError :=
  .unavailable ("batch result line exceeds " ++ toString maxJsonlLineBytes ++ " bytes")

section

-- reading of a document, with the text of the error, and the mapper of the provider
variable (fromSlice : List UInt8 → Except String Value) (parse : Value → Option BatchResult)

/-- One line without its newline; a blank one is skipped. -/
def parseLine (raw : List UInt8) : Except ModelError (Option BatchResult) :=
  if trimAscii raw = [] then .ok none
  else
    match fromSlice (trimAscii raw) with
    | .ok value => .ok (parse value)
    | .error text => .error (.mapping text)

/-- What the complete lines add to the stream, and `more` behind them unless one is malformed. -/
def emit (more : List Item) : List (List UInt8) → List Item
  | [] => more
  | line :: lines =>
    match parseLine fromSlice parse line with
    | .ok (some result) => .ok result :: emit more lines
    | .ok none => emit more lines
    | .error e => [.error e]

/-- **The results of a file**, as its chunks arrive. -/
def jsonlResultStream : List UInt8 → List (Except ModelError (List UInt8)) → List Item
  -- a final line that is not terminated
  | buf, [] => emit fromSlice parse [] [buf]
  | _, .error e :: _ => [.error e]
  | buf, .ok chunk :: body =>
    let (lines, buf) := Lines.cut 10 [] (buf ++ chunk)
    emit fromSlice parse
      (if maxJsonlLineBytes < buf.length then [.error overlong] else jsonlResultStream buf body) lines

/-- What is read line by line, up to the first malformed or overlong line. -/
def upToOverlong : List (List UInt8) → List Item
  | [] => []
  | line :: lines =>
    if maxJsonlLineBytes < line.length then [.error overlong]
    else
      match parseLine fromSlice parse line with
      | .ok (some result) => .ok result :: upToOverlong lines
      | .ok none => upToOverlong lines
      | .error e => [.error e]

/-- The lines of a file, the unterminated last one among them. -/
def fileLines (text : List UInt8) : List (List UInt8) :=
  (Lines.cut 10 [] text).1 ++ [(Lines.cut 10 [] text).2]

/-- A line that is skipped. -/
def Skipped (line : List UInt8) : Prop := parseLine fromSlice parse line = .ok none

/-- Of the lines up to the first malformed one, none is overlong, or else from the first that is all
are skipped, and the unterminated rest is overlong too. -/
def Tame (rest : List UInt8) : List (List UInt8) → Prop
  | [] => True
  | line :: lines =>
    if maxJsonlLineBytes < line.length then
      (∀ l ∈ line :: lines, Skipped fromSlice parse l) ∧ maxJsonlLineBytes < rest.length
    else
      match parseLine fromSlice parse line with
      | .ok _ => Tame rest lines
      | .error _ => True

end

section

variable {fromSlice : List UInt8 → Except String Value} {parse : Value → Option BatchResult}

/-- A malformed line is no overlong one. -/
theorem parseLine_ne_overlong (raw : List UInt8) : parseLine fromSlice parse raw ≠ .error overlong := by
  unfold parseLine overlong
  split
  · intro h
    cases h
  · split
    · intro h
      cases h
    · intro h
      cases h

theorem emit_skipped {lines : List (List UInt8)} (h : ∀ l ∈ lines, Skipped fromSlice parse l)
    (more : List Item) : emit fromSlice parse more lines = more := by
  induction lines with
  | nil => rfl
  | cons line lines ih =>
    obtain ⟨hline, hlines⟩ := List.forall_mem_cons.mp h
    rw [emit, hline]
    exact ih hlines

/-- Nothing but the overlong error comes out only if all lines are skipped. -/
theorem emit_eq_overlong {more : List Item} {lines : List (List UInt8)}
    (h : emit fromSlice parse more lines = [.error overlong]) :
    (∀ l ∈ lines, Skipped fromSlice parse l) ∧ more = [.error overlong] := by
  induction lines with
  | nil => exact ⟨by simp, h⟩
  | cons line lines ih =>
    rw [emit] at h
    split at h
    · cases h
    · rename_i hline
      obtain ⟨hlines, hmore⟩ := ih h
      exact ⟨List.forall_mem_cons.mpr ⟨hline, hlines⟩, hmore⟩
    · rename_i e hline
      cases h
      exact absurd hline (parseLine_ne_overlong line)

/-- Skipped lines lead to the overlong rest. -/
theorem upToOverlong_skipped {lines : List (List UInt8)} {rest : List UInt8}
    (h : ∀ l ∈ lines, Skipped fromSlice parse l) (hrest : maxJsonlLineBytes < rest.length) :
    upToOverlong fromSlice parse (lines ++ [rest]) = [.error overlong] := by
  induction lines with
  | nil => exact if_pos hrest
  | cons line lines ih =>
    obtain ⟨hline, hlines⟩ := List.forall_mem_cons.mp h
    rw [List.cons_append, upToOverlong]
    split
    · rfl
    · rw [hline]
      exact ih hlines

/-- The last line is read as it is, unless it is overlong. -/
theorem upToOverlong_last (rest : List UInt8) : upToOverlong fromSlice parse [rest] =
    if maxJsonlLineBytes < rest.length then [.error overlong]
    else emit fromSlice parse [] [rest] := by
  rw [upToOverlong, upToOverlong, emit, emit]

theorem tame_skipped {lines : List (List UInt8)} {rest : List UInt8}
    (h : ∀ l ∈ lines, Skipped fromSlice parse l) (hrest : maxJsonlLineBytes < rest.length) :
    Tame fromSlice parse rest lines := by
  induction lines with
  | nil => trivial
  | cons line lines ih =>
    obtain ⟨hline, hlines⟩ := List.forall_mem_cons.mp h
    rw [Tame]
    split
    · exact ⟨h, hrest⟩
    · rw [hline]
      exact ih hlines

/-- **The lines of a chunk**: where they are tame with what follows them, they are read line by line. -/
theorem emit_tame {lines after : List (List UInt8)} {rest : List UInt8} {more : List Item}
    (h : Tame fromSlice parse rest (lines ++ after))
    (hmore : Tame fromSlice parse rest after →
      more = upToOverlong fromSlice parse (after ++ [rest])) :
    emit fromSlice parse more lines = upToOverlong fromSlice parse (lines ++ (after ++ [rest])) := by
  induction lines with
  | nil => exact hmore h
  | cons line lines ih =>
    rw [List.cons_append, Tame] at h
    split at h
    · rename_i hlong
      -- all that follows is skipped, up to the overlong rest
      obtain ⟨hskipped, hrest⟩ := h
      rw [← List.cons_append] at hskipped
      obtain ⟨hlines, hafter⟩ := List.forall_mem_append.mp hskipped
      rw [emit_skipped hlines, hmore (tame_skipped hafter hrest), upToOverlong_skipped hafter hrest,
        ← List.append_assoc, upToOverlong_skipped hskipped hrest]
    · rename_i hshort
      rw [List.cons_append, emit, upToOverlong, if_neg hshort]
      cases hline : parseLine fromSlice parse line with
      | error e => rfl
      | ok result =>
        rw [hline] at h
        cases result with
        | none => exact ih h
        | some result => exact congrArg _ (ih h)

/-- What waits in the buffer stands before the first line that follows. -/
theorem upToOverlong_buffer {buf : List UInt8} (h : maxJsonlLineBytes < buf.length)
    (text : List UInt8) : upToOverlong fromSlice parse
      ((Lines.cut 10 buf text).1 ++ [(Lines.cut 10 buf text).2]) = [.error overlong] := by
  have hbefore := @Lines.cut_before _ _ 10 buf [] text
  rw [List.append_nil] at hbefore
  rw [hbefore]
  split
  · exact if_pos (by rw [List.length_append]; omega)
  · exact if_pos (by rw [List.length_append]; omega)

theorem cut_buffer {buf : List UInt8} (h : 10 ∉ buf) (text : List UInt8) :
    Lines.cut 10 [] (buf ++ text) = Lines.cut 10 buf text := by
  rw [Lines.cut_append, Lines.cut_of_not_mem h]
  rfl

/-- **A file whose lines are tame is read line by line**, however it is cut. -/
theorem stream_tame {chunks : List (List UInt8)} {buf : List UInt8} (hbuf : 10 ∉ buf)
    (h : Tame fromSlice parse (Lines.cut 10 buf chunks.flatten).2
      (Lines.cut 10 buf chunks.flatten).1) (hshort : buf.length ≤ maxJsonlLineBytes) :
    jsonlResultStream fromSlice parse buf (chunks.map .ok) = upToOverlong fromSlice parse
      ((Lines.cut 10 buf chunks.flatten).1 ++ [(Lines.cut 10 buf chunks.flatten).2]) := by
  induction chunks generalizing buf with
  | nil =>
    rw [List.flatten_nil, Lines.cut, List.nil_append, upToOverlong_last,
      if_neg (Nat.not_lt.mpr hshort)]
    rfl
  | cons chunk chunks ih =>
    rw [List.flatten_cons, Lines.cut_append] at h ⊢
    rw [List.map_cons, jsonlResultStream, cut_buffer hbuf]
    dsimp only at h ⊢
    have hrest : 10 ∉ (Lines.cut 10 buf chunk).2 := Lines.not_mem_rest hbuf chunk
    rw [List.append_assoc]
    refine emit_tame h fun hafter => ?_
    split
    · rename_i hlong
      exact (upToOverlong_buffer hlong _).symm
    · rename_i hlong
      exact ih hrest hafter (Nat.not_lt.mp hlong)

/-- A file that comes in one piece. -/
theorem stream_whole (text : List UInt8) : jsonlResultStream fromSlice parse [] [.ok text] =
    emit fromSlice parse (upToOverlong fromSlice parse [(Lines.cut 10 [] text).2])
      (Lines.cut 10 [] text).1 := by
  rw [jsonlResultStream, upToOverlong_last]
  rfl

/-- In one piece, only tame lines are read line by line. -/
theorem tame_of_emit {lines : List (List UInt8)} {rest : List UInt8} {last : List Item}
    (hlast : last = [.error overlong] → maxJsonlLineBytes < rest.length)
    (h : emit fromSlice parse last lines = upToOverlong fromSlice parse (lines ++ [rest])) :
    Tame fromSlice parse rest lines := by
  induction lines with
  | nil => trivial
  | cons line lines ih =>
    rw [List.cons_append, upToOverlong] at h
    rw [Tame]
    split
    · rename_i hlong
      rw [if_pos hlong] at h
      obtain ⟨hskipped, hover⟩ := emit_eq_overlong h
      exact ⟨hskipped, hlast hover⟩
    · rename_i hshort
      rw [if_neg hshort, emit] at h
      cases hline : parseLine fromSlice parse line with
      | error e => trivial
      | ok result =>
        rw [hline] at h
        cases result with
        | none => exact ih h
        | some result => exact ih (List.cons.inj h).2

/-- The last line alone is overlong only by its length. -/
theorem last_overlong {rest : List UInt8}
    (h : upToOverlong fromSlice parse [rest] = [.error overlong]) :
    maxJsonlLineBytes < rest.length := by
  rw [upToOverlong_last] at h
  by_contra hrest
  rw [if_neg hrest] at h
  have hnil := (emit_eq_overlong h).2
  cases hnil

/-! ## Written files -/

/-- The lines of some documents. -/
def buildJsonl (write : Value → List UInt8) (vs : List Value) : List UInt8 :=
  vs.flatMap fun v => write v ++ [10]

/-- What the writer of documents is relied on for: one line without space around it, which is read as
the document. -/
structure Written (fromSlice : List UInt8 → Except String Value) (write : Value → List UInt8)
    (v : Value) : Prop where
  newline : 10 ∉ write v
  trimmed : trimAscii (write v) = write v
  nonempty : write v ≠ []
  read : fromSlice (write v) = .ok v

variable {write : Value → List UInt8} {vs : List Value}

theorem Written.parseLine_eq {v : Value} (h : Written fromSlice write v) :
    parseLine fromSlice parse (write v) = .ok (parse v) := by
  rw [parseLine, h.trimmed, if_neg h.nonempty, h.read]

/-- A written file has the written lines, and no rest. -/
theorem cut_buildJsonl (h : ∀ v ∈ vs, Written fromSlice write v) :
    Lines.cut 10 [] (buildJsonl write vs) = (vs.map write, []) := by
  induction vs with
  | nil => rfl
  | cons v vs ih =>
    obtain ⟨hv, hvs⟩ := List.forall_mem_cons.mp h
    have hrest : buildJsonl write (v :: vs) = write v ++ (10 :: buildJsonl write vs) := by
      rw [buildJsonl, List.flatMap_cons, List.append_assoc]
      rfl
    rw [hrest, cut_buffer hv.newline, Lines.cut, if_pos rfl, ih hvs]
    rfl

/-- The written lines are read as the documents. -/
theorem emit_written (h : ∀ v ∈ vs, Written fromSlice write v) (more : List Item) :
    emit fromSlice parse more (vs.map write) = (vs.filterMap parse).map .ok ++ more := by
  induction vs with
  | nil => rfl
  | cons v vs ih =>
    obtain ⟨hv, hvs⟩ := List.forall_mem_cons.mp h
    rw [List.map_cons, emit, hv.parseLine_eq]
    cases hparse : parse v with
    | none => rw [List.filterMap_cons_none hparse, ← ih hvs]
    | some result =>
      rw [List.filterMap_cons_some hparse, List.map_cons, List.cons_append, ← ih hvs]

theorem upToOverlong_written (h : ∀ v ∈ vs, Written fromSlice write v)
    (hshort : ∀ v ∈ vs, (write v).length ≤ maxJsonlLineBytes) :
    upToOverlong fromSlice parse (vs.map write ++ [[]]) = (vs.filterMap parse).map .ok := by
  induction vs with
  | nil => rfl
  | cons v vs ih =>
    obtain ⟨hv, hvs⟩ := List.forall_mem_cons.mp h
    obtain ⟨hs, hshort⟩ := List.forall_mem_cons.mp hshort
    rw [List.map_cons, List.cons_append, upToOverlong, if_neg (Nat.not_lt.mpr hs), hv.parseLine_eq]
    cases hparse : parse v with
    | none => rw [List.filterMap_cons_none hparse, ← ih hvs hshort]
    | some result => rw [List.filterMap_cons_some hparse, List.map_cons, ← ih hvs hshort]

theorem tame_written (h : ∀ v ∈ vs, Written fromSlice write v)
    (hshort : ∀ v ∈ vs, (write v).length ≤ maxJsonlLineBytes) :
    Tame fromSlice parse [] (vs.map write) := by
  induction vs with
  | nil => trivial
  | cons v vs ih =>
    obtain ⟨hv, hvs⟩ := List.forall_mem_cons.mp h
    obtain ⟨hs, hshort⟩ := List.forall_mem_cons.mp hshort
    rw [List.map_cons, Tame, if_neg (Nat.not_lt.mpr hs), hv.parseLine_eq]
    exact ih hvs hshort

/-- A chunk that ends behind an overlong line fails. -/
theorem stream_overlong {v : Value} {before : List Value} (hv : Written fromSlice write v)
    (hbefore : ∀ v ∈ before, Written fromSlice write v)
    (hlong : maxJsonlLineBytes < (write v).length) (rest : List UInt8) :
    jsonlResultStream fromSlice parse [] [.ok (buildJsonl write before ++ write v), .ok rest] =
      (before.filterMap parse).map .ok ++ [.error overlong] := by
  rw [jsonlResultStream, List.nil_append, Lines.cut_append, cut_buildJsonl hbefore,
    Lines.cut_of_not_mem hv.newline]
  dsimp only
  rw [List.append_nil, List.nil_append, if_pos hlong, emit_written hbefore]

/-- **The results of a file are read line by line however it is cut** exactly if its lines are tame;
those of a written file are exactly if no line is overlong. -/
theorem resultLines_iff :
    (∀ text : List UInt8, (∀ chunks : List (List UInt8), chunks.flatten = text →
        jsonlResultStream fromSlice parse [] (chunks.map .ok) =
          upToOverlong fromSlice parse (fileLines text)) ↔
      Tame fromSlice parse (Lines.cut 10 [] text).2 (Lines.cut 10 [] text).1) ∧
    ∀ (write : Value → List UInt8) (vs : List Value), (∀ v ∈ vs, Written fromSlice write v) →
      ((∀ chunks : List (List UInt8), chunks.flatten = buildJsonl write vs →
          jsonlResultStream fromSlice parse [] (chunks.map .ok) = (vs.filterMap parse).map .ok) ↔
        ∀ v ∈ vs, (write v).length ≤ maxJsonlLineBytes) := by
  constructor
  · intro text
    constructor
    · intro h
      have hwhole := h [text] (by simp)
      rw [List.map_singleton, stream_whole] at hwhole
      exact tame_of_emit last_overlong hwhole
    · rintro h chunks rfl
      exact stream_tame List.not_mem_nil h (Nat.zero_le _)
  · intro write vs hwritten
    constructor
    · intro h v hv
      by_contra hlong
      obtain ⟨before, after, rfl⟩ := List.append_of_mem hv
      obtain ⟨hbefore, hrest⟩ := List.forall_mem_append.mp hwritten
      have hcut := h [buildJsonl write before ++ write v, 10 :: buildJsonl write after] (by
        simp [buildJsonl])
      rw [List.map_cons, List.map_singleton, stream_overlong (hrest v List.mem_cons_self) hbefore
        (Nat.not_le.mp hlong)] at hcut
      have hmem : (.error overlong : Item) ∈
          ((before ++ v :: after).filterMap parse).map .ok := by
        rw [← hcut]
        exact List.mem_append_right _ List.mem_cons_self
      obtain ⟨result, -, hresult⟩ := List.mem_map.mp hmem
      cases hresult
    · intro hshort chunks hchunks
      have hcut := cut_buildJsonl hwritten
      have htame : Tame fromSlice parse (Lines.cut 10 [] chunks.flatten).2
          (Lines.cut 10 [] chunks.flatten).1 := by
        rw [hchunks, hcut]
        exact tame_written hwritten hshort
      rw [stream_tame List.not_mem_nil htame (Nat.zero_le _), hchunks, hcut,
        upToOverlong_written hwritten hshort]

end

/-! ## Two files -/

/-- A reader for one document, and its writer. -/
def readNull (b : List UInt8) : Except String Value :=
  if b = [110, 117, 108, 108] then .ok .null else .error "expected null"

def writeNull (_ : Value) : List UInt8 := [110, 117, 108, 108]

theorem resultLines_null :
    (∀ chunks : List (List UInt8), chunks.flatten = buildJsonl writeNull [.null] →
        jsonlResultStream readNull (fun _ => some ⟨"a", .expired⟩) [] (chunks.map .ok) =
          [.ok ⟨"a", .expired⟩]) ↔
      ∀ v ∈ [Value.null], (writeNull v).length ≤ maxJsonlLineBytes := by
  refine resultLines_iff.2 writeNull [.null] fun v hv => ?_
  rw [List.mem_singleton.mp hv]
  exact ⟨by decide, by decide, by decide, rfl⟩

/-- A result line just beyond the bound is a result if it comes in one chunk, and an error if it comes
in two. -/
theorem overlong_line_depends :
    let line : List UInt8 := List.replicate (maxJsonlLineBytes + 1) 97
    let stream := jsonlResultStream (fun _ => .ok .null) (fun _ => some ⟨"a", .expired⟩) []
    stream [.ok (line ++ [10])] = [.ok ⟨"a", .expired⟩] ∧
      stream [.ok line, .ok [10]] = [.error overlong] := by
  intro line
  have hline : Written (fun _ => .ok .null) (fun _ => line) .null := by
    refine ⟨by simp [line], ?_, by simp [line], rfl⟩
    simp [line, trimAscii, isAsciiWhitespace]
  have hlong : maxJsonlLineBytes < line.length := by simp [line]
  clear_value line
  constructor
  · have hcut : Lines.cut 10 [] (line ++ [10]) = ([line], []) := by
      rw [cut_buffer hline.newline]
      rfl
    rw [stream_whole, hcut, emit, hline.parseLine_eq]
    rfl
  · have hbefore : ∀ v ∈ ([] : List Value), Written (fun _ => .ok .null) (fun _ => line) v := by simp
    exact stream_overlong hline hbefore hlong [10]

end Llmleaf.ResultLines
