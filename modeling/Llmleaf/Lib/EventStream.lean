import Llmleaf.Lib.LineReader
import Llmleaf.Lib.Strings

/-!
# Event streams

The text format of server-sent events: a name, data, and an empty line. Data of one line stands
behind `data:` on a line of its own.

- `fromUtf8Lossy`: the text of any bytes, where those that are no UTF-8 are replaced.
- `Event.lines`, `Event.bytes`: an event as it is written.
- `cut_events`: the lines of some events.
-/

namespace EventStream

/-! ## Text from bytes -/

/-- The first character of some bytes, and what comes behind it. -/
def firstChar (bs : List UInt8) : Option (Char × List UInt8) :=
  [1, 2, 3, 4].findSome? fun n => do
    let [c] := (← Strings.fromUtf8 (bs.take n)).toList | none
    some (c, bs.drop n)

/-- A byte that continues a character. -/
def isContinuation (b : UInt8) : Bool := 0x80 ≤ b && b ≤ 0xBF

/-- The second byte may follow the first in a character of three or four bytes. -/
def mayFollow (first second : UInt8) : Bool :=
  if first = 0xE0 then 0xA0 ≤ second && second ≤ 0xBF
  else if first = 0xED then 0x80 ≤ second && second ≤ 0x9F
  else if first = 0xF0 then 0x90 ≤ second && second ≤ 0xBF
  else if first = 0xF4 then 0x80 ≤ second && second ≤ 0x8F
  else 0xE1 ≤ first && first ≤ 0xF3 && isContinuation second

/-- How many of the bytes, which start with no character, are replaced at once: as many as a
character can start with. -/
def broken : List UInt8 → ℕ
  | first :: second :: third :: _ =>
    if mayFollow first second then
      if 0xF0 ≤ first && isContinuation third then 3 else 2
    else 1
  | [first, second] => if mayFollow first second then 2 else 1
  | bs => bs.length

/-- Character by character, with a replacement for what is none. -/
def decodeLossy : ℕ → List UInt8 → List Char
  | 0, _ => []
  | _, [] => []
  | n + 1, bs =>
    match firstChar bs with
    | some (c, rest) => c :: decodeLossy n rest
    | none => Char.ofNat 0xFFFD :: decodeLossy n (bs.drop (broken bs))

/-- The text of some bytes, where those that are no UTF-8 are replaced. -/
def fromUtf8Lossy (bs : List UInt8) : String :=
  (Strings.fromUtf8 bs).getD (String.ofList (decodeLossy bs.length bs))

theorem fromUtf8Lossy_bytes (s : String) : fromUtf8Lossy (Strings.bytes s) = s := by
  rw [fromUtf8Lossy, Strings.fromUtf8_bytes, Option.getD_some]

/-! ## Events -/

/-- An event with data of one line. -/
structure Event where
  name : Option String
  data : String

/-- A text without the end of a line. -/
def OneLine (s : String) : Prop := '\n' ∉ s.toList ∧ '\r' ∉ s.toList

instance (s : String) : Decidable (OneLine s) := inferInstanceAs (Decidable (_ ∧ _))

namespace Event

/-- The lines of an event, of which the last is empty. -/
def lines (e : Event) : List String :=
  (e.name.map ("event: " ++ ·)).toList ++ ["data: " ++ e.data, ""]

/-- An event as it is written. -/
def bytes (e : Event) : List UInt8 := (e.lines.map Strings.bytes).flatMap (· ++ [10])

/-- The name and the data are on one line each. -/
structure OneLine (e : Event) : Prop where
  name : ∀ name ∈ e.name, EventStream.OneLine name
  data : EventStream.OneLine e.data

end Event

/-- A text without the end of a line has no byte of one. -/
theorem OneLine.not_mem_bytes {s : String} (h : OneLine s) : 10 ∉ Strings.bytes s := by
  rw [Strings.mem_bytes (by decide)]
  rintro ⟨c, hc, hn⟩
  refine h.1 ?_
  rwa [show '\n' = c from Char.toNat_inj.mp hn.symm]

theorem OneLine.append {s t : String} (hs : OneLine s) (ht : OneLine t) : OneLine (s ++ t) := by
  unfold OneLine at *
  rw [String.toList_append, List.mem_append, List.mem_append]
  exact ⟨not_or.mpr ⟨hs.1, ht.1⟩, not_or.mpr ⟨hs.2, ht.2⟩⟩

theorem Event.not_mem_line {e : Event} (h : e.OneLine) :
    ∀ line ∈ e.lines.map Strings.bytes, 10 ∉ line := by
  intro line hline
  obtain ⟨text, htext, rfl⟩ := List.mem_map.mp hline
  simp only [Event.lines, List.mem_append, Option.mem_toList, Option.map_eq_some_iff,
    List.mem_cons, List.not_mem_nil, or_false] at htext
  rcases htext with ⟨name, hname, rfl⟩ | rfl | rfl
  · exact (OneLine.append (by decide) (h.name name hname)).not_mem_bytes
  · exact (OneLine.append (by decide) h.data).not_mem_bytes
  · exact OneLine.not_mem_bytes (by decide)

/-- **The lines of some events**, and of what comes behind them. -/
theorem cut_events {events : List Event} (h : ∀ e ∈ events, e.OneLine) (rest : List UInt8) :
    Lines.cut 10 [] (events.flatMap Event.bytes ++ rest) =
      (events.flatMap (fun e => e.lines.map Strings.bytes) ++ (Lines.cut 10 [] rest).1,
        (Lines.cut 10 [] rest).2) := by
  have hbytes : events.flatMap Event.bytes =
      (events.flatMap fun e => e.lines.map Strings.bytes).flatMap (· ++ [10]) := by
    rw [List.flatMap_assoc]
    rfl
  rw [hbytes]
  refine Lines.cut_joined (fun line hline => ?_) rest
  obtain ⟨e, he, hmem⟩ := List.mem_flatMap.mp hline
  exact e.not_mem_line (h e he) line hmem

end EventStream
