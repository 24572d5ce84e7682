import Llmleaf.Json
import Mathlib.Data.List.Forall2

/-!
# What a document says

Two documents may say the same although they differ: a field that is missing, null or an empty list
says nothing, and a number may be written as an integer or with a fraction.

- `said`: what a field says, if anything; `Only keys v`: the other fields say nothing.
- `Same`, `SameField`: documents, and fields, that say the same.
- `same_build_iff`: a document against one that is written field by field.
- `OptText`, `ArrayOf`: the fields that hold a text, or an array of some items, or say nothing.
-/

namespace Llmleaf.Value

/-- What a field says: nothing if it is missing, null or an empty list. -/
def said (o : Option Value) : Option Value := o.filter fun v => v ≠ null ∧ v ≠ array []

/-- The other fields of a document say nothing. -/
def Only (keys : List String) (v : Value) : Prop := ∀ key ∉ keys, said (v.get key) = none

/-- Documents that say the same. -/
inductive Same : Value → Value → Prop
  | refl (v : Value) : Same v v
  | number {a b : Number} (h : (number a).asF64 = (number b).asF64) : Same (number a) (number b)
  | array {xs ys : List Value} (h : List.Forall₂ Same xs ys) : Same (array xs) (array ys)
  | object {m m' : Map} (h : ∀ key, Option.Rel Same (said (m.get key)) (said (m'.get key))) :
    Same (object m) (object m')

/-- Fields that say the same. -/
abbrev SameField (a b : Option Value) : Prop := Option.Rel Same (said a) (said b)

@[simp] theorem said_none : said none = none := rfl
@[simp] theorem said_null : said (some null) = none := rfl
@[simp] theorem said_bool (b : Bool) : said (some (bool b)) = some (bool b) := rfl
@[simp] theorem said_string (s : String) : said (some (string s)) = some (string s) := rfl
@[simp] theorem said_number (n : Number) : said (some (number n)) = some (number n) := rfl
@[simp] theorem said_object (m : Map) : said (some (object m)) = some (object m) := rfl
@[simp] theorem said_array_nil : said (some (array [])) = none := rfl
@[simp] theorem said_array_cons (x : Value) (xs : List Value) :
    said (some (array (x :: xs))) = some (array (x :: xs)) := rfl

theorem eq_some_of_said {o : Option Value} {v : Value} (h : said o = some v) : o = some v :=
  (Option.filter_eq_some_iff.mp h).1

/-! ## Documents -/

theorem same_string_iff {v : Value} {s : String} : Same v (string s) ↔ v = string s := by
  constructor
  · rintro (_ | _)
    rfl
  · rintro rfl
    exact .refl _

theorem same_number_iff {v : Value} {n : Number} :
    Same v (number n) ↔ ∃ n', v = number n' ∧ (number n').asF64 = (number n).asF64 := by
  constructor
  · rintro (_ | h)
    · exact ⟨n, rfl, rfl⟩
    · exact ⟨_, rfl, h⟩
  · rintro ⟨n', rfl, h⟩
    exact .number h

theorem same_array_iff {v : Value} {ys : List Value} :
    Same v (array ys) ↔ ∃ xs, v = array xs ∧ List.Forall₂ Same xs ys := by
  constructor
  · rintro (_ | _ | h)
    · exact ⟨ys, rfl, List.forall₂_same.mpr fun y _ => .refl y⟩
    · exact ⟨_, rfl, h⟩
  · rintro ⟨xs, rfl, h⟩
    exact .array h

theorem SameField.refl (o : Option Value) : SameField o o := by
  unfold SameField
  cases said o with
  | none => exact .none
  | some v => exact .some (.refl v)

theorem same_object_iff {v : Value} {m' : Map} :
    Same v (object m') ↔ ∃ m : Map, v = object m ∧ ∀ key, SameField (m.get key) (m'.get key) := by
  constructor
  · rintro (_ | _ | _ | h)
    · exact ⟨m', rfl, fun key => .refl _⟩
    · exact ⟨_, rfl, h⟩
  · rintro ⟨m, rfl, h⟩
    exact .object h

/-! ## Fields -/

@[simp] theorem sameField_none_iff {o : Option Value} : SameField o none ↔ said o = none := by
  unfold SameField
  cases said o with
  | none => exact ⟨fun _ => rfl, fun _ => .none⟩
  | some v => exact ⟨fun h => (nomatch h), fun h => (nomatch h)⟩

/-- A field that is to say something is compared as a document. -/
theorem sameField_some_iff {o : Option Value} {w : Value} (hw : said (some w) = some w)
    (hsame : ∀ v, Same v w → said (some v) = some v) :
    SameField o (some w) ↔ ∃ v, o = some v ∧ Same v w := by
  unfold SameField
  rw [hw]
  constructor
  · intro h
    cases ho : said o with
    | none => rw [ho] at h; cases h
    | some v =>
      rw [ho] at h
      cases h with
      | some h => exact ⟨v, eq_some_of_said ho, h⟩
  · rintro ⟨v, rfl, h⟩
    rw [hsame v h]
    exact .some h

theorem sameField_string_iff {o : Option Value} {s : String} :
    SameField o (some (string s)) ↔ o = some (string s) := by
  rw [sameField_some_iff rfl fun v h => by rw [same_string_iff.mp h]; rfl]
  simp only [same_string_iff, exists_eq_right]

theorem sameField_number_iff {o : Option Value} {n : Number} : SameField o (some (number n)) ↔
    ∃ n', o = some (number n') ∧ (number n').asF64 = (number n).asF64 := by
  rw [sameField_some_iff rfl fun v h => by obtain ⟨n', rfl, -⟩ := same_number_iff.mp h; rfl]
  simp only [same_number_iff]
  constructor
  · rintro ⟨v, hv, n', rfl, h⟩
    exact ⟨n', hv, h⟩
  · rintro ⟨n', hv, h⟩
    exact ⟨_, hv, n', rfl, h⟩

theorem sameField_object_iff {o : Option Value} {m' : Map} : SameField o (some (object m')) ↔
    ∃ v, o = some v ∧ Same v (object m') :=
  sameField_some_iff rfl fun v h => by obtain ⟨m, rfl, -⟩ := same_object_iff.mp h; rfl

/-! ## Documents that are written field by field -/

theorem get_build_not_mem {fields : List (String × Option Value)} {key : String}
    (h : key ∉ fields.map Prod.fst) : (Map.build fields).get key = none := by
  induction fields with
  | nil => rfl
  | cons e fields ih =>
    rw [List.map_cons, List.mem_cons, not_or] at h
    rw [Map.get_build_cons, ih h.2, if_neg (Ne.symm h.1), Option.none_or]

theorem get_build_mem {fields : List (String × Option Value)}
    (hnodup : (fields.map Prod.fst).Nodup) {e : String × Option Value} (he : e ∈ fields) :
    (Map.build fields).get e.1 = e.2 := by
  induction fields with
  | nil => cases he
  | cons x fields ih =>
    obtain ⟨hx, hnodup⟩ := List.nodup_cons.mp hnodup
    rw [Map.get_build_cons]
    rcases List.mem_cons.mp he with rfl | he
    · rw [get_build_not_mem hx, if_pos rfl, Option.none_or]
    · rw [ih hnodup he, if_neg, Option.or_none]
      exact fun heq => hx (heq ▸ List.mem_map_of_mem he)

/-- **A document against a written one**: no other field says anything, and the written ones say the
same. -/
theorem same_build_iff {v : Value} {fields : List (String × Option Value)}
    (hnodup : (fields.map Prod.fst).Nodup) : Same v (build fields) ↔
      (∃ m, v = object m) ∧ v.Only (fields.map Prod.fst) ∧
        fields.Forall fun e => SameField (v.get e.1) e.2 := by
  rw [same_object_iff, List.forall_iff_forall_mem]
  constructor
  · rintro ⟨m, rfl, h⟩
    refine ⟨⟨m, rfl⟩, fun key hkey => ?_, fun e he => ?_⟩
    · have := h key
      rwa [get_build_not_mem hkey, sameField_none_iff] at this
    · have := h e.1
      rwa [get_build_mem hnodup he] at this
  · rintro ⟨⟨m, rfl⟩, honly, h⟩
    refine ⟨m, rfl, fun key => ?_⟩
    by_cases hkey : key ∈ fields.map Prod.fst
    · obtain ⟨e, he, rfl⟩ := List.mem_map.mp hkey
      rw [get_build_mem hnodup he]
      exact h e he
    · rw [get_build_not_mem hkey, sameField_none_iff]
      exact honly key hkey

/-- The same where some of the written fields are compared in a way of their own. -/
theorem sameFields_build_iff {v : Value} {fields : List (String × Option Value)}
    (hnodup : (fields.map Prod.fst).Nodup) {own : List String}
    (hown : ∀ key ∈ own, key ∈ fields.map Prod.fst) :
    (∀ key ∉ own, SameField (v.get key) ((build fields).get key)) ↔
      v.Only (fields.map Prod.fst) ∧
        fields.Forall fun e => e.1 ∉ own → SameField (v.get e.1) e.2 := by
  rw [List.forall_iff_forall_mem]
  constructor
  · intro h
    refine ⟨fun key hkey => ?_, fun e he hne => ?_⟩
    · have := h key fun hmem => hkey (hown key hmem)
      rwa [get_object, get_build_not_mem hkey, sameField_none_iff] at this
    · have := h e.1 hne
      rwa [get_object, get_build_mem hnodup he] at this
  · rintro ⟨honly, h⟩ key hne
    rw [get_object]
    by_cases hkey : key ∈ fields.map Prod.fst
    · obtain ⟨e, he, rfl⟩ := List.mem_map.mp hkey
      rw [get_build_mem hnodup he]
      exact h e he hne
    · rw [get_build_not_mem hkey, sameField_none_iff]
      exact honly key hkey

theorem obj_eq_build (fields : List (String × Value)) :
    obj fields = build (fields.map fun e => (e.1, some e.2)) := by
  rw [obj, build, Map.build, List.foldl_map]
  rfl

theorem same_obj_iff {v : Value} {fields : List (String × Value)}
    (hnodup : (fields.map Prod.fst).Nodup) : Same v (obj fields) ↔
      (∃ m, v = object m) ∧ v.Only (fields.map Prod.fst) ∧
        fields.Forall fun e => SameField (v.get e.1) (some e.2) := by
  have hkeys : (fields.map fun e => (e.1, some e.2)).map Prod.fst = fields.map Prod.fst := by
    rw [List.map_map]
    rfl
  rw [obj_eq_build, same_build_iff (by rwa [hkeys]), hkeys, List.forall_map_iff]
  rfl

theorem sameField_build_iff {o : Option Value} {fields : List (String × Option Value)}
    (hnodup : (fields.map Prod.fst).Nodup) : SameField o (some (build fields)) ↔
      ∃ v, o = some v ∧ (∃ m, v = object m) ∧ v.Only (fields.map Prod.fst) ∧
        fields.Forall fun e => SameField (v.get e.1) e.2 := by
  rw [sameField_object_iff]
  simp only [same_build_iff hnodup]

theorem sameField_obj_iff {o : Option Value} {fields : List (String × Value)}
    (hnodup : (fields.map Prod.fst).Nodup) : SameField o (some (obj fields)) ↔
      ∃ v, o = some v ∧ (∃ m, v = object m) ∧ v.Only (fields.map Prod.fst) ∧
        fields.Forall fun e => SameField (v.get e.1) (some e.2) := by
  have hiff : SameField o (some (obj fields)) ↔ ∃ v, o = some v ∧ Same v (obj fields) :=
    sameField_object_iff
  rw [hiff]
  simp only [same_obj_iff hnodup]

/-! ## Kinds of fields -/

/-- A text, or nothing said. -/
def OptText (o : Option Value) : Prop := said o = none ∨ ∃ s, o = some (string s)

/-- An array of some items, or nothing said. -/
def ArrayOf (p : Value → Prop) (o : Option Value) : Prop :=
  said o = none ∨ ∃ xs, o = some (array xs) ∧ ∀ x ∈ xs, p x

/-- A text is kept, and nothing else. -/
theorem sameField_text_iff (o : Option Value) :
    SameField o ((o.bind asStr).map string) ↔ OptText o := by
  rcases o with _ | _ | _ | _ | s | _ | _
  case some.string => exact iff_of_true (.refl _) (.inr ⟨s, rfl⟩)
  all_goals simp [asStr, OptText]

/-- **A list that is left out when it is empty**, against the field it was read from. -/
theorem sameField_array_iff {o : Option Value} {items : List Value} {p : Value → Prop}
    (hother : (∀ xs, o ≠ some (array xs)) → items = [])
    (hitems : ∀ xs, o = some (array xs) → (List.Forall₂ Same xs items ↔ ∀ x ∈ xs, p x)) :
    SameField o (if items = [] then none else some (array items)) ↔ ArrayOf p o := by
  by_cases hnil : items = []
  · rw [if_pos hnil, sameField_none_iff]
    refine ⟨.inl, ?_⟩
    rintro (h | ⟨xs, rfl, h⟩)
    · exact h
    · have hxs := (hitems xs rfl).mpr h
      rw [hnil, List.forall₂_nil_right_iff] at hxs
      rw [hxs, said_array_nil]
  · obtain ⟨xs, rfl⟩ : ∃ xs, o = some (array xs) := by
      by_contra hno
      exact hnil (hother fun xs hxs => hno ⟨xs, hxs⟩)
    obtain ⟨y, ys, rfl⟩ := List.exists_cons_of_ne_nil hnil
    rw [if_neg hnil, sameField_some_iff rfl fun v h => by
      obtain ⟨xs, rfl, hxs⟩ := same_array_iff.mp h
      obtain ⟨x, xs, -, -, rfl⟩ := List.forall₂_cons_right_iff.mp hxs
      rfl]
    constructor
    · rintro ⟨v, hv, h⟩
      cases hv
      obtain ⟨_, heq, h⟩ := same_array_iff.mp h
      cases heq
      exact .inr ⟨xs, rfl, (hitems xs rfl).mp h⟩
    · rintro (h | ⟨_, heq, h⟩)
      · cases xs with
        | nil =>
          have := (hitems [] rfl).mpr (by simp)
          cases this
        | cons x xs => cases h
      · cases heq
        exact ⟨_, rfl, same_array_iff.mpr ⟨xs, rfl, (hitems xs rfl).mpr h⟩⟩

end Llmleaf.Value
