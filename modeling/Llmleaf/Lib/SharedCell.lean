import Mathlib.Order.Lattice
import Mathlib.Order.BoundedOrder.Basic

/-!
# A cell with two writers

Two writers share one value of a linear order. The *holder* writes it outright; the *raiser* raises
it to at least some value and releases what it has raised. One tag remembers whether the raiser wrote
last, and a release resets the cell only under that tag.

The reference keeps the two apart, a slot for each writer, and shows the larger of the two.

- `Cell.Agrees`: the cell shows what the slots show.
- `set_agrees_iff`, `touch_agrees_iff`, `raise_agrees`, `release_agrees_iff`: when a write leaves the
  two in agreement. A raise always does. The holder's write does if the raiser's slot is not above
  it, and a release does if the writer the tag does not name has nothing to show.
-/

namespace SharedCell

/-- The shared value, and whether the raiser wrote it last. -/
structure Cell (α : Type*) where
  value : α
  raised : Bool

/-- What each writer has asked for. -/
structure Slots (α : Type*) where
  held : α
  raised : α

section

variable {α : Type*} [LinearOrder α]

namespace Cell

/-- The holder writes a value. -/
def set (_ : Cell α) (v : α) : Cell α := ⟨v, false⟩

/-- The holder takes the tag without a new value. -/
def touch (c : Cell α) : Cell α := { c with raised := false }

/-- The raiser asks for at least `t`. -/
def raise (c : Cell α) (t : α) : Cell α := if c.value < t then ⟨t, true⟩ else c

/-- The raiser gives up its value. -/
def release [OrderBot α] (c : Cell α) : Cell α := if c.raised then ⟨⊥, false⟩ else c

end Cell

namespace Slots

/-- What the two slots show. -/
def value (s : Slots α) : α := max s.held s.raised

def set (s : Slots α) (v : α) : Slots α := { s with held := v }

def raise (s : Slots α) (t : α) : Slots α := { s with raised := max s.raised t }

def release [OrderBot α] (s : Slots α) : Slots α := { s with raised := ⊥ }

/-- The slots of a cell: the writer under the tag holds all of it. -/
def ofCell [OrderBot α] (c : Cell α) : Slots α := if c.raised then ⟨⊥, c.value⟩ else ⟨c.value, ⊥⟩

end Slots

/-- A cell shows what the slots show. -/
def Cell.Agrees (c : Cell α) (s : Slots α) : Prop := c.value = s.value

theorem ofCell_agrees [OrderBot α] (c : Cell α) : c.Agrees (.ofCell c) := by
  rw [Cell.Agrees, Slots.ofCell]
  split
  · exact (max_eq_right bot_le).symm
  · exact (max_eq_left bot_le).symm

theorem set_agrees_iff {c : Cell α} {s : Slots α} {v : α} :
    (c.set v).Agrees (s.set v) ↔ s.raised ≤ v :=
  eq_comm.trans sup_eq_left

theorem touch_agrees_iff {c : Cell α} {s : Slots α} : c.touch.Agrees s ↔ c.Agrees s := Iff.rfl

theorem raise_value (c : Cell α) (t : α) : (c.raise t).value = max c.value t := by
  rw [Cell.raise]
  split
  · rename_i h
    exact (max_eq_right h.le).symm
  · rename_i h
    exact (max_eq_left (le_of_not_gt h)).symm

theorem raise_agrees {c : Cell α} {s : Slots α} (h : c.Agrees s) (t : α) :
    (c.raise t).Agrees (s.raise t) := by
  rw [Cell.Agrees, raise_value, show c.value = s.value from h]
  exact max_assoc ..

theorem release_agrees_iff [OrderBot α] {c : Cell α} {s : Slots α} (h : c.Agrees s) :
    c.release.Agrees s.release ↔ if c.raised then s.held = ⊥ else s.raised ≤ s.held := by
  have hslots : s.release.value = s.held := max_eq_left bot_le
  rw [Cell.Agrees, hslots, Cell.release]
  split
  · exact eq_comm
  · rw [show c.value = s.value from h]
    exact sup_eq_left

end

end SharedCell
