import Llmleaf.Json

/-!
# Fields of an object

How a derived reader takes a field: it must be there, it may be missing or null, or it has a default
for when it is missing.
-/

namespace Llmleaf

namespace Map

variable {α : Type}

/-- A field that must be there. -/
def required (m : Map) (key : String) (read : Value → Option α) : Option α := (m.get key).bind read

/-- A field that may be missing or null. -/
def optional (m : Map) (key : String) (read : Value → Option α) : Option (Option α) :=
  match m.get key with
  | none => some none
  | some .null => some none
  | some v => (read v).map some

/-- A field with a default. -/
def defaulted (m : Map) (key : String) (d : α) (read : Value → Option α) : Option α :=
  match m.get key with
  | none => some d
  | some v => read v

section

variable {m : Map} {key : String} {read : Value → Option α} {v : Value} {a d : α}

theorem required_of_get (hget : m.get key = some v) (hread : read v = some a) :
    m.required key read = some a := by rw [required, hget, Option.bind_some, hread]

theorem optional_of_none (hget : m.get key = none) : m.optional key read = some none := by
  rw [optional, hget]

theorem optional_of_get (hget : m.get key = some v) (hread : read v = some a) (hv : v ≠ .null) :
    m.optional key read = some (some a) := by
  rw [optional, hget]
  cases v <;> first | exact absurd rfl hv | simp only [hread, Option.map_some]

/-- An optional field that was written from a value is read back. -/
theorem optional_of_map {β : Type} (write : β → Value) (read : Value → Option α) (f : β → α)
    (hnull : ∀ b, write b ≠ .null) (hread : ∀ b, read (write b) = some (f b)) {b : Option β}
    (hget : m.get key = b.map write) : m.optional key read = some (b.map f) := by
  cases b with
  | none => exact optional_of_none hget
  | some b => exact optional_of_get hget (hread b) (hnull b)

theorem defaulted_of_get (hget : m.get key = some v) (hread : read v = some a) :
    m.defaulted key d read = some a := by
  rw [defaulted, hget]
  exact hread

theorem defaulted_of_none (hget : m.get key = none) : m.defaulted key d read = some d := by
  rw [defaulted, hget]

end

end Map

@[simp] theorem Value.asU64_nat (n : ℕ) : (Value.nat n).asU64 = some n := rfl

@[simp] theorem Value.asStr_string (s : String) : (Value.string s).asStr = some s := rfl

/-- The fields of an object. -/
def Value.asObject : Value → Option Map
  | .object m => some m
  | _ => none

end Llmleaf
