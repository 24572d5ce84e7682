import Mathlib.Data.List.Basic
import Mathlib.Order.MinMax

/-!
# Broadcast rings

A bounded ring that is written without waiting: when it is full, a new value overwrites the oldest.
A reader keeps the position it reads next. When its position has been overwritten it is told how many
values it has missed, and goes on at the oldest one that is left.

- `Ring.send`, `Ring.recv`: the two sides; `recv_cases` says all a read can do.
- `Ring.Holds`: the ring of a log, the list of all values ever sent.
- `Reading`: what a reader has of a log. It is kept by every send (`Reading.send`) and every read
  (`Reading.recv`), so a reader has the log in order, each value once, with as many gaps as it was
  told of (`Reading.exact` where it was told of none).
-/

namespace Broadcast

variable {α : Type*}

/-! ## The ring -/

/-- A ring: the newest of the values sent so far, oldest first. -/
@[ext]
structure Ring (α : Type*) where
  cap : ℕ
  sent : ℕ
  held : List α
  cap_pos : 0 < cap
  length_held : held.length = min sent cap

/-- What a read finds. -/
inductive Recv (α : Type*) where
  | empty
  | lagged (n : ℕ)
  | value (a : α)
  deriving DecidableEq

namespace Ring

/-- A ring that nothing was sent to. -/
def new (cap : ℕ) (h : 0 < cap) : Ring α := ⟨cap, 0, [], h, by simp⟩

/-- Send a value; a full ring drops its oldest. -/
def send (r : Ring α) (a : α) : Ring α where
  cap := r.cap
  sent := r.sent + 1
  held := (if r.held.length < r.cap then r.held else r.held.tail) ++ [a]
  cap_pos := r.cap_pos
  length_held := by
    have hlen := r.length_held
    have hpos := r.cap_pos
    split <;> simp <;> omega

/-- The position of the oldest value held. -/
def oldest (r : Ring α) : ℕ := r.sent - r.held.length

/-- Read at a position: what is found, and the position after it. -/
def recv (r : Ring α) (next : ℕ) : Recv α × ℕ :=
  if next < r.oldest then (.lagged (r.oldest - next), r.oldest)
  else
    match r.held[next - r.oldest]? with
    | some a => (.value a, next + 1)
    | none => (.empty, next)

@[simp] theorem send_cap (r : Ring α) (a : α) : (r.send a).cap = r.cap := rfl

@[simp] theorem send_sent (r : Ring α) (a : α) : (r.send a).sent = r.sent + 1 := rfl

/-! ## The log of a ring -/

/-- The ring after a log was sent. -/
structure Holds (r : Ring α) (log : List α) : Prop where
  sent : r.sent = log.length
  held : r.held = log.drop (log.length - r.cap)

theorem holds_new (cap : ℕ) (h : 0 < cap) : (new cap h : Ring α).Holds [] :=
  ⟨rfl, List.drop_nil.symm⟩

theorem Holds.send {r : Ring α} {log : List α} (h : r.Holds log) (a : α) :
    (r.send a).Holds (log ++ [a]) := by
  have hlen := r.length_held
  rw [h.sent] at hlen
  refine ⟨by rw [send_sent, h.sent, List.length_append, List.length_singleton], ?_⟩
  rw [send_cap, List.length_append, List.length_singleton]
  change (if r.held.length < r.cap then r.held else r.held.tail) ++ [a] = _
  by_cases hfull : r.held.length < r.cap
  · have hroom : log.length + 1 ≤ r.cap := by omega
    rw [if_pos hfull, h.held, Nat.sub_eq_zero_of_le hroom,
      Nat.sub_eq_zero_of_le (Nat.le_of_succ_le hroom), List.drop_zero, List.drop_zero]
  · have hfull' : r.cap ≤ log.length := by omega
    have hpos := r.cap_pos
    have hold : log.length - r.cap + 1 = log.length + 1 - r.cap := by omega
    have hle : log.length + 1 - r.cap ≤ log.length := by omega
    rw [if_neg hfull, h.held, List.tail_drop, hold, List.drop_append_of_le_length hle]

theorem Holds.oldest {r : Ring α} {log : List α} (h : r.Holds log) :
    r.oldest = log.length - r.cap := by
  rw [Ring.oldest, r.length_held, h.sent]
  omega

/-- **All that a read can do.** It finds the value at its position, nothing once it has read the
log, or that its position was overwritten. -/
theorem Holds.recv_cases {r : Ring α} {log : List α} (h : r.Holds log) {next : ℕ}
    (hnext : next ≤ log.length) :
    (∃ a, log[next]? = some a ∧ log.length ≤ next + r.cap ∧ r.recv next = (.value a, next + 1)) ∨
    (next = log.length ∧ r.recv next = (.empty, next)) ∨
    (next + r.cap < log.length ∧
      r.recv next = (.lagged (log.length - r.cap - next), log.length - r.cap)) := by
  rw [recv, h.oldest]
  by_cases hlag : next < log.length - r.cap
  · exact .inr (.inr ⟨by omega, if_pos hlag⟩)
  · rw [if_neg hlag, h.held, List.getElem?_drop]
    have hpos : log.length - r.cap + (next - (log.length - r.cap)) = next := by omega
    rw [hpos]
    rcases Nat.lt_or_eq_of_le hnext with hlt | heq
    · have hget := List.getElem?_eq_getElem hlt
      exact .inl ⟨log[next], hget, by omega, by rw [hget]⟩
    · exact .inr (.inl ⟨heq, by rw [List.getElem?_eq_none heq.ge]⟩)

end Ring

/-! ## A reader -/

/-- A reader: what it has read, how many values it was told it has missed, and where it reads
next. -/
structure Reader (α : Type*) where
  next : ℕ
  got : List α
  missed : ℕ

/-- A reader that subscribes now. -/
def Reader.subscribe (r : Ring α) : Reader α := ⟨r.sent, [], 0⟩

/-- Read once. -/
def Reader.recv (r : Ring α) (s : Reader α) : Reader α :=
  match r.recv s.next with
  | (.value a, next) => ⟨next, s.got ++ [a], s.missed⟩
  | (.lagged n, next) => ⟨next, s.got, s.missed + n⟩
  | (.empty, next) => ⟨next, s.got, s.missed⟩

theorem Reader.recv_value {r : Ring α} {s : Reader α} {a : α} {next : ℕ}
    (h : r.recv s.next = (.value a, next)) : s.recv r = ⟨next, s.got ++ [a], s.missed⟩ := by
  rw [Reader.recv, h]

theorem Reader.recv_lagged {r : Ring α} {s : Reader α} {n next : ℕ}
    (h : r.recv s.next = (.lagged n, next)) : s.recv r = ⟨next, s.got, s.missed + n⟩ := by
  rw [Reader.recv, h]

theorem Reader.recv_empty {r : Ring α} {s : Reader α} {next : ℕ}
    (h : r.recv s.next = (.empty, next)) : s.recv r = ⟨next, s.got, s.missed⟩ := by
  rw [Reader.recv, h]

/-- What a reader that subscribed after `start` values has of a log that went through a ring of
`cap` places. -/
structure Reading (cap start : ℕ) (log : List α) (s : Reader α) : Prop where
  sublist : s.got.Sublist ((log.take s.next).drop start)
  count : start + s.got.length + s.missed = s.next
  next_le : s.next ≤ log.length
  /-- Only values that were overwritten are missed. -/
  old : s.missed = 0 ∨ start + s.missed + cap ≤ log.length

namespace Reading

variable {cap start : ℕ} {log : List α} {s : Reader α}

theorem subscribe {r : Ring α} (h : r.Holds log) :
    Reading cap log.length log (Reader.subscribe r) where
  sublist := List.nil_sublist _
  count := h.sent.symm
  next_le := h.sent.le
  old := .inl rfl

theorem send (h : Reading cap start log s) (a : α) : Reading cap start (log ++ [a]) s where
  sublist := by
    rw [List.take_append_of_le_length h.next_le]
    exact h.sublist
  count := h.count
  next_le := by
    rw [List.length_append]
    exact h.next_le.trans (Nat.le_add_right ..)
  old := h.old.imp_right fun hold => by
    rw [List.length_append]
    omega

/-- The values up to a later position hold those up to an earlier one. -/
theorem sublist_mono {next next' : ℕ} (hle : next ≤ next') {l : List α}
    (h : l.Sublist ((log.take next).drop start)) : l.Sublist ((log.take next').drop start) := by
  have htake : (log.take next).Sublist (log.take next') := by
    rw [← Nat.min_eq_left hle, ← List.take_take]
    exact List.take_sublist ..
  exact h.trans (htake.drop start)

theorem recv {r : Ring α} (hr : r.Holds log) (h : Reading r.cap start log s) :
    Reading r.cap start log (s.recv r) := by
  have hcount := h.count
  have hnext := h.next_le
  obtain ⟨a, hget, -, hrecv⟩ | ⟨-, hrecv⟩ | ⟨hlag, hrecv⟩ := hr.recv_cases hnext
  · rw [Reader.recv_value hrecv]
    have hlt : s.next < log.length := (List.getElem?_eq_some_iff.mp hget).1
    refine ⟨?_, ?_, hlt, h.old⟩
    · rw [List.take_add_one, hget, List.drop_append_of_le_length (by simp; omega)]
      exact h.sublist.append (List.Sublist.refl [a])
    · simp only [List.length_append, List.length_singleton]
      omega
  · rw [Reader.recv_empty hrecv]
    exact ⟨h.sublist, hcount, hnext, h.old⟩
  · rw [Reader.recv_lagged hrecv]
    have hle : s.next ≤ log.length - r.cap := by omega
    refine ⟨sublist_mono hle h.sublist, ?_, Nat.sub_le .., .inr ?_⟩ <;> dsimp only <;> omega

/-- A reader that has missed nothing has read everything up to its position. -/
theorem exact (h : Reading cap start log s) (hmissed : s.missed = 0) :
    s.got = (log.take s.next).drop start := by
  have hcount := h.count
  have hnext := h.next_le
  refine h.sublist.eq_of_length ?_
  rw [List.length_drop, List.length_take]
  omega

/-- A read misses something exactly where the reader is further behind than the ring is long. -/
theorem recv_missed_iff {r : Ring α} (hr : r.Holds log) (h : Reading r.cap start log s) :
    (s.recv r).missed = s.missed ↔ r.sent ≤ s.next + r.cap := by
  rw [hr.sent]
  obtain ⟨a, -, hle, hrecv⟩ | ⟨hend, hrecv⟩ | ⟨hlag, hrecv⟩ := hr.recv_cases h.next_le
  · rw [Reader.recv_value hrecv]
    exact iff_of_true rfl hle
  · rw [Reader.recv_empty hrecv]
    exact iff_of_true rfl (hend ▸ Nat.le_add_right ..)
  · rw [Reader.recv_lagged hrecv]
    dsimp only
    omega

end Reading

end Broadcast
