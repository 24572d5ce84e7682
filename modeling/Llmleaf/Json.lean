import Llmleaf.Lib.Binary

/-!
# JSON values

The document model the configuration, the wire formats and the events share. An object is the list
of its fields in key order with distinct keys, as the ordered map of the source keeps them; a
number keeps the three representations it distinguishes (a finite float is the rational it
denotes).
-/

namespace Llmleaf

/-- A JSON number: an unsigned, a negative or a floating-point one. -/
inductive Number where
  | posInt (n : Nat)
  | negInt (n : Int)
  | float (q : ℚ)
  deriving DecidableEq

/-- A JSON document. -/
inductive Value where
  | null
  | bool (b : Bool)
  | number (n : Number)
  | string (s : String)
  | array (xs : List Value)
  | object (fields : List (String × Value))

/-- The fields of an object. -/
abbrev Map := List (String × Value)

/-- Insert a field, replacing one of that name. -/
def Map.insert (m : Map) (key : String) (value : Value) : Map :=
  match m with
  | [] => [(key, value)]
  | e :: m =>
    if key < e.1 then (key, value) :: e :: m
    else if key = e.1 then (key, value) :: m
    else e :: Map.insert m key value

/-- A field that was just inserted is found, the others are as before. -/
theorem Map.find?_insert (m : Map) (key : String) (value : Value) (name : String) :
    (m.insert key value).find? (·.1 = name) =
      if key = name then some (key, value) else m.find? (·.1 = name) := by
  fun_induction Map.insert m key value with
  | case1 => by_cases h : key = name <;> simp [h]
  | case2 e m _ => by_cases h : key = name <;> simp [h]
  | case3 e m _ heq => by_cases h : key = name <;> simp [h, ← heq]
  | case4 e m _ hne ih =>
    by_cases he : e.1 = name
    · rw [List.find?_cons_of_pos (by simpa using he), List.find?_cons_of_pos (by simpa using he),
        if_neg fun h => hne (h.trans he.symm)]
    · rw [List.find?_cons_of_neg (by simpa using he), List.find?_cons_of_neg (by simpa using he), ih]

namespace Map

/-- The value of a field. -/
def get (m : Map) (key : String) : Option Value := (m.find? (·.1 = key)).map Prod.snd

/-- What is left when some fields are taken out. -/
def without (m : Map) (keys : List String) : Map := m.filter (·.1 ∉ keys)

/-- Give a field another value. -/
def set (m : Map) (key : String) (value : Value) : Map := (m.without [key]).insert key value

/-- Add a field unless there is one of that name. -/
def orInsert (m : Map) (key : String) (value : Value) : Map :=
  if (m.get key).isSome then m else m.insert key value

/-- Add the fields of `more` that are not there. -/
def orInsertAll (m more : Map) : Map := more.foldl (fun m e => m.orInsert e.1 e.2) m

/-- Add a field that may have no value. -/
def insertSome (m : Map) (key : String) (value : Option Value) : Map :=
  match value with
  | some value => m.insert key value
  | none => m

/-- The fields that have a value, inserted in the given order. -/
def build (fields : List (String × Option Value)) : Map :=
  fields.foldl (fun m e => Map.insertSome m e.1 e.2) []

/-- The fields stand in key order, each key once. -/
def Sorted (m : Map) : Prop := m.Pairwise (·.1 < ·.1)

instance (m : Map) : Decidable m.Sorted := inferInstanceAs (Decidable (m.Pairwise _))

@[simp] theorem get_nil (key : String) : get [] key = none := rfl

theorem get_cons (e : String × Value) (m : Map) (key : String) :
    get (e :: m) key = if e.1 = key then some e.2 else get m key := by
  unfold get
  rw [List.find?_cons]
  by_cases h : e.1 = key <;> simp [h]

theorem get_insert (m : Map) (key : String) (value : Value) (name : String) :
    (m.insert key value).get name = if key = name then some value else m.get name := by
  unfold get
  rw [find?_insert]
  split <;> rfl

theorem get_orInsert (m : Map) (key : String) (value : Value) (name : String) :
    (m.orInsert key value).get name =
      (m.get name).or (if key = name then some value else none) := by
  unfold orInsert
  split
  · rename_i h
    by_cases hk : key = name
    · subst hk
      rw [Option.or_of_isSome h]
    · simp [hk]
  · rename_i h
    rw [get_insert]
    by_cases hk : key = name
    · subst hk
      simp [Option.not_isSome_iff_eq_none.mp h]
    · simp [hk]

/-- A field that is there stays, the others come from `more`. -/
theorem get_orInsertAll (m more : Map) (name : String) :
    (m.orInsertAll more).get name = (m.get name).or (more.get name) := by
  induction more generalizing m with
  | nil => simp [orInsertAll]
  | cons e more ih =>
    change ((m.orInsert e.1 e.2).orInsertAll more).get name = _
    rw [ih, get_orInsert, Option.or_assoc, get_cons]
    split <;> simp

theorem get_insertSome (m : Map) (key : String) (value : Option Value) (name : String) :
    (m.insertSome key value).get name = (if key = name then value else none).or (m.get name) := by
  cases value with
  | none => simp [insertSome]
  | some value =>
    rw [insertSome, get_insert]
    split <;> simp

@[simp] theorem get_build_nil (name : String) : (build []).get name = none := rfl

/-- A later field of the same name counts. -/
@[simp] theorem get_build_cons (key : String) (value : Option Value)
    (fields : List (String × Option Value)) (name : String) :
    (build ((key, value) :: fields)).get name =
      ((build fields).get name).or (if key = name then value else none) := by
  have hfold : ∀ m : Map, get (fields.foldl (fun m e => Map.insertSome m e.1 e.2) m) name =
      ((build fields).get name).or (m.get name) := by
    unfold build
    induction fields with
    | nil => exact fun m => rfl
    | cons e fields ih =>
      intro m
      simp only [List.foldl_cons]
      rw [ih, ih (Map.insertSome [] e.1 e.2), get_insertSome, get_insertSome, get_nil,
        Option.or_none, Option.or_assoc]
  exact (hfold _).trans (by rw [get_insertSome, get_nil, Option.or_none])

theorem get_without (m : Map) (keys : List String) (name : String) :
    (m.without keys).get name = if name ∈ keys then none else m.get name := by
  induction m with
  | nil => simp [without]
  | cons e m ih =>
    unfold without at ih ⊢
    rw [List.filter_cons, get_cons]
    by_cases he : e.1 = name
    · subst he
      by_cases hk : e.1 ∈ keys
      · simpa [hk] using ih
      · simp [hk, get_cons]
    · rw [if_neg he]
      split
      · rw [get_cons, if_neg he, ih]
      · rw [ih]

theorem get_set (m : Map) (key : String) (value : Value) (name : String) :
    (m.set key value).get name = if key = name then some value else m.get name := by
  rw [set, get_insert, get_without]
  by_cases h : key = name
  · rw [if_pos h, if_pos h]
  · rw [if_neg h, if_neg h, if_neg (by simpa using Ne.symm h)]

/-- The fields with their values changed. -/
theorem get_mapValues (m : Map) (f : String → Value → Value) (key : String) :
    get (m.map fun e => (e.1, f e.1 e.2)) key = (m.get key).map (f key) := by
  induction m with
  | nil => rfl
  | cons e m ih =>
    rw [List.map_cons, get_cons, get_cons, ih]
    split
    · rename_i hkey
      rw [← hkey]
      rfl
    · rfl

/-! ### Order -/

theorem mem_insert {m : Map} {key : String} {value : Value} {e : String × Value}
    (h : e ∈ m.insert key value) : e = (key, value) ∨ e ∈ m := by
  fun_induction insert m key value with
  | case1 => exact .inl (List.mem_singleton.mp h)
  | case2 =>
    rcases List.mem_cons.mp h with rfl | h
    · exact .inl rfl
    · exact .inr h
  | case3 =>
    rcases List.mem_cons.mp h with rfl | h
    · exact .inl rfl
    · exact .inr (List.mem_cons_of_mem _ h)
  | case4 e' m _ _ ih =>
    rcases List.mem_cons.mp h with rfl | h
    · exact .inr List.mem_cons_self
    · exact (ih h).imp_right (List.mem_cons_of_mem _)

theorem mem_of_get {m : Map} {key : String} {value : Value} (h : m.get key = some value) :
    (key, value) ∈ m := by
  obtain ⟨e, he, rfl⟩ := Option.map_eq_some_iff.mp h
  have hk : e.1 = key := by simpa using List.find?_some he
  exact hk ▸ List.mem_of_find?_eq_some he

theorem isSome_get_iff {m : Map} {key : String} :
    (m.get key).isSome = true ↔ ∃ e ∈ m, e.1 = key := by
  simp [get, List.find?_isSome]

/-- A field that is not there cannot be taken out. -/
theorem without_of_none {m : Map} {key : String} (h : m.get key = none) : m.without [key] = m := by
  refine List.filter_eq_self.mpr fun e he => ?_
  rw [get, Option.map_eq_none_iff, List.find?_eq_none] at h
  simpa using h e he

theorem mem_of_mem_without {m : Map} {keys : List String} {e : String × Value}
    (h : e ∈ m.without keys) : e ∈ m := List.mem_of_mem_filter h

theorem mem_orInsert {m : Map} {key : String} {value : Value} {e : String × Value}
    (h : e ∈ m.orInsert key value) : e = (key, value) ∨ e ∈ m := by
  unfold orInsert at h
  split at h
  · exact .inr h
  · exact mem_insert h

theorem mem_orInsertAll {m more : Map} {e : String × Value} (h : e ∈ m.orInsertAll more) :
    e ∈ m ∨ e ∈ more := by
  induction more generalizing m with
  | nil => exact .inl h
  | cons x more ih =>
    rcases ih (m := m.orInsert x.1 x.2) h with h | h
    · rcases mem_orInsert h with rfl | h
      · exact .inr List.mem_cons_self
      · exact .inl h
    · exact .inr (List.mem_cons_of_mem _ h)

theorem Sorted.insert {m : Map} (h : m.Sorted) (key : String) (value : Value) :
    (m.insert key value).Sorted := by
  unfold Sorted at h ⊢
  fun_induction Map.insert m key value with
  | case1 => simp
  | case2 e m hlt =>
    refine List.pairwise_cons.mpr ⟨fun x hx => ?_, h⟩
    rcases List.mem_cons.mp hx with rfl | hx
    · exact hlt
    · exact String.lt_trans hlt ((List.pairwise_cons.mp h).1 x hx)
  | case3 e m _ heq =>
    have ⟨hhead, htail⟩ := List.pairwise_cons.mp h
    exact List.pairwise_cons.mpr ⟨fun x hx => heq ▸ hhead x hx, htail⟩
  | case4 e m hlt hne ih =>
    have ⟨hhead, htail⟩ := List.pairwise_cons.mp h
    refine List.pairwise_cons.mpr ⟨fun x hx => ?_, ih htail⟩
    rcases mem_insert hx with rfl | hx
    · change e.1 < key
      by_contra hle
      exact hne (String.le_antisymm hle hlt)
    · exact hhead x hx

theorem sorted_build (fields : List (String × Option Value)) : (build fields).Sorted := by
  suffices ∀ m : Map, m.Sorted → Sorted (fields.foldl (fun m e => Map.insertSome m e.1 e.2) m) from
    this [] List.Pairwise.nil
  induction fields with
  | nil => exact fun m hm => hm
  | cons e fields ih =>
    obtain ⟨key, _ | value⟩ := e
    · exact ih
    · exact fun m hm => ih _ (hm.insert key value)

theorem Sorted.orInsertAll {m : Map} (h : m.Sorted) (more : Map) :
    (m.orInsertAll more).Sorted := by
  induction more generalizing m with
  | nil => exact h
  | cons e more ih =>
    refine ih (m := m.orInsert e.1 e.2) ?_
    unfold orInsert
    split
    · exact h
    · exact h.insert e.1 e.2

theorem Sorted.without {m : Map} (h : m.Sorted) (keys : List String) : (m.without keys).Sorted :=
  h.filter _

/-- A field of a later key is not found in front of the sorted fields. -/
theorem Sorted.get_head {e : String × Value} {m : Map} (h : Sorted (e :: m)) {key : String}
    (hk : ¬ e.1 < key) (hne : e.1 ≠ key) : get (e :: m) key = none := by
  rw [get_cons, if_neg hne, get, Option.map_eq_none_iff, List.find?_eq_none]
  intro x hx
  have hlt := (List.pairwise_cons.mp h).1 x hx
  simp only [decide_eq_true_eq]
  rintro rfl
  exact hk hlt

theorem Sorted.get_of_mem {m : Map} (h : m.Sorted) {e : String × Value} (he : e ∈ m) :
    m.get e.1 = some e.2 := by
  induction m with
  | nil => cases he
  | cons e' m ih =>
    obtain ⟨hhead, htail⟩ := List.pairwise_cons.mp h
    rw [get_cons]
    rcases List.mem_cons.mp he with rfl | he
    · rw [if_pos rfl]
    · rw [if_neg fun heq => String.lt_irrefl _ (heq ▸ hhead e he)]
      exact ih htail he

/-- **Sorted fields are determined by their values.** -/
theorem Sorted.ext {a b : Map} (ha : a.Sorted) (hb : b.Sorted)
    (h : ∀ key, a.get key = b.get key) : a = b := by
  induction a generalizing b with
  | nil =>
    cases b with
    | nil => rfl
    | cons e b => simpa [get_cons] using h e.1
  | cons e a ih =>
    cases b with
    | nil => simpa [get_cons] using h e.1
    | cons e' b =>
      have he : e.1 = e'.1 := by
        by_contra hne
        by_cases hlt : e.1 < e'.1
        · have := h e.1
          rw [hb.get_head (String.lt_asymm hlt) (Ne.symm hne), get_cons, if_pos rfl] at this
          cases this
        · have := h e'.1
          rw [ha.get_head hlt hne, get_cons, if_pos rfl] at this
          cases this
      have hv : e.2 = e'.2 := by
        have := h e.1
        rw [get_cons, get_cons, if_pos rfl, if_pos he.symm] at this
        exact Option.some.inj this
      have ⟨hea, hta⟩ := List.pairwise_cons.mp ha
      have ⟨heb, htb⟩ := List.pairwise_cons.mp hb
      have htail : a = b := by
        refine ih hta htb fun key => ?_
        by_cases hk : e.1 = key
        · rw [get, get, List.find?_eq_none.mpr, List.find?_eq_none.mpr]
          · intro x hx
            have := heb x hx
            simp only [decide_eq_true_eq]
            rintro rfl
            rw [← he, hk] at this
            exact String.lt_irrefl _ this
          · intro x hx
            have := hea x hx
            simp only [decide_eq_true_eq]
            rintro rfl
            rw [hk] at this
            exact String.lt_irrefl _ this
        · have := h key
          rwa [get_cons, get_cons, if_neg hk, if_neg (he ▸ hk)] at this
      rw [htail, show e = e' from Prod.ext he hv]

end Map

namespace Value

/-- The object of some fields, given in any order. -/
def obj (fields : List (String × Value)) : Value :=
  object (fields.foldl (fun m e => Map.insert m e.1 e.2) [])

/-- The object of the fields that have a value. -/
abbrev build (fields : List (String × Option Value)) : Value := object (Map.build fields)

/-- The document of a natural number. -/
def nat (n : Nat) : Value := number (.posInt n)

/-- The document of a text that may be missing. -/
def ofOption (s : Option String) : Value :=
  match s with
  | some s => string s
  | none => null

/-! ## Equality -/

mutual

/-- Decidable equality of documents, by recursion through arrays and objects. -/
def decEq : (a b : Value) → Decidable (a = b)
  | null, null => isTrue rfl
  | bool a, bool b => decidable_of_iff (a = b) (by simp)
  | number a, number b => decidable_of_iff (a = b) (by simp)
  | string a, string b => decidable_of_iff (a = b) (by simp)
  | array a, array b =>
    have := decEqItems a b
    decidable_of_iff (a = b) (by simp)
  | object a, object b =>
    have := decEqFields a b
    decidable_of_iff (a = b) (by simp)
  | null, bool _ | null, number _ | null, string _ | null, array _ | null, object _
  | bool _, null | bool _, number _ | bool _, string _ | bool _, array _ | bool _, object _
  | number _, null | number _, bool _ | number _, string _ | number _, array _ | number _, object _
  | string _, null | string _, bool _ | string _, number _ | string _, array _ | string _, object _
  | array _, null | array _, bool _ | array _, number _ | array _, string _ | array _, object _
  | object _, null | object _, bool _ | object _, number _ | object _, string _
  | object _, array _ => isFalse nofun

/-- Decidable equality of array items. -/
def decEqItems : (a b : List Value) → Decidable (a = b)
  | [], [] => isTrue rfl
  | [], _ :: _ => isFalse nofun
  | _ :: _, [] => isFalse nofun
  | x :: xs, y :: ys =>
    have := decEq x y
    have := decEqItems xs ys
    decidable_of_iff (x = y ∧ xs = ys) (by simp)

/-- Decidable equality of object fields. -/
def decEqFields : (a b : List (String × Value)) → Decidable (a = b)
  | [], [] => isTrue rfl
  | [], _ :: _ => isFalse nofun
  | _ :: _, [] => isFalse nofun
  | (k, x) :: xs, (l, y) :: ys =>
    have := decEq x y
    have := decEqFields xs ys
    decidable_of_iff ((k = l ∧ x = y) ∧ xs = ys) (by simp)

end

instance : DecidableEq Value := decEq

/-! ## Reading -/

/-- The field `key` of an object. -/
def get (v : Value) (key : String) : Option Value :=
  match v with
  | object fields => (fields.find? (·.1 = key)).map Prod.snd
  | _ => none

/-- The last field of a name counts. -/
theorem get_obj (fields : List (String × Value)) (name : String) :
    (obj fields).get name = (fields.reverse.find? (·.1 = name)).map Prod.snd := by
  change ((fields.foldl (fun m e => Map.insert m e.1 e.2) []).find? (·.1 = name)).map Prod.snd = _
  congr 1
  rw [← List.foldr_reverse]
  induction fields.reverse with
  | nil => rfl
  | cons e fields ih =>
    obtain ⟨key, value⟩ := e
    rw [List.foldr_cons, Map.find?_insert, List.find?_cons, ih]
    by_cases h : key = name <;> simp [h]

/-- The text of a string. -/
def asStr : Value → Option String
  | string s => some s
  | _ => none

/-- A text that may be missing is read back. -/
@[simp] theorem asStr_map_string (s : Option String) : (s.map string).bind asStr = s := by
  cases s <;> rfl

/-- The items of an array. -/
def asArray : Value → Option (List Value)
  | array xs => some xs
  | _ => none

/-- The value of a boolean. -/
def asBool : Value → Option Bool
  | bool b => some b
  | _ => none

/-- The value of an unsigned integer. -/
def asU64 : Value → Option Nat
  | number (.posInt n) => some n
  | _ => none

/-- The floating-point value of a number. -/
def asF64 : Value → Option ℚ
  | number (.posInt n) => some n
  | number (.negInt n) => some n
  | number (.float q) => some q
  | _ => none

/-- The single-precision value of a number: it is read in double precision first. -/
def asF32 (v : Value) : Option (Binary.Number .single) :=
  v.asF64.map fun q => Binary.Format.single.round (Binary.Format.double.nearest q)

/-- The document of a single-precision number; there is none for infinity. -/
def ofF32 : Binary.Number .single → Value
  | .finite q _ => number (.float q)
  | .infinite _ => null

/-- A finite single-precision number is read back. -/
theorem asF32_ofF32 {q : ℚ} (h : Binary.Format.single.Mem q) :
    (ofF32 (.finite q h)).asF32 = some (.finite q h) := by
  have hd : Binary.Format.double.nearest q = q := h.nearest_eq (by decide) (by decide)
  change some (Binary.Format.single.round (Binary.Format.double.nearest q)) = _
  rw [hd, Binary.Format.round_coe h]

/-- The value under a path of fields. -/
def path (v : Value) (keys : List String) : Option Value := keys.foldlM get v

@[simp] theorem path_nil (v : Value) : v.path [] = some v := rfl

theorem path_cons (v : Value) (key : String) (keys : List String) :
    v.path (key :: keys) = (v.get key).bind (·.path keys) := rfl

theorem path_one (v : Value) (key : String) : v.path [key] = v.get key :=
  bind_pure (v.get key)

@[simp] theorem get_object (m : Map) (key : String) : (object m).get key = m.get key := rfl

theorem path_append (v : Value) (keys more : List String) :
    v.path (keys ++ more) = (v.path keys).bind (·.path more) :=
  List.foldlM_append

/-- Reading on below a value, or below null where there is none. -/
theorem path_getD (v : Value) (keys : List String) (key : String) (more : List String) :
    ((v.path keys).getD null).path (key :: more) = v.path (keys ++ key :: more) := by
  rw [path_append]
  cases v.path keys <;> rfl

/-- Change the value under a path of fields, if there is one. -/
def modifyAt (v : Value) (keys : List String) (f : Value → Value) : Value :=
  match keys with
  | [] => f v
  | key :: keys =>
    match v with
    | object fields =>
      match Map.get fields key with
      | some w => object (Map.set fields key (w.modifyAt keys f))
      | none => v
    | _ => v

/-- The value that was changed is found. -/
theorem path_modifyAt (v : Value) (keys : List String) (f : Value → Value) :
    (v.modifyAt keys f).path keys = (v.path keys).map f := by
  induction keys generalizing v with
  | nil => rfl
  | cons key keys ih =>
    cases v with
    | object fields =>
      rw [path_cons, path_cons, modifyAt, get_object]
      cases hget : Map.get fields key with
      | none => simp [hget]
      | some w => simp [Map.get_set, ih]
    | _ => rfl

/-- The text under a path of fields. -/
def textAt (v : Value) (keys : List String) : Option String := (v.path keys).bind asStr

@[simp] theorem textAt_object (m : Map) (key : String) :
    (object m).textAt [key] = (m.get key).bind asStr := by
  rw [textAt, path_one]
  rfl

/-- The items under a path of fields; none if there is no array. -/
def itemsAt (v : Value) (keys : List String) : List Value := ((v.path keys).bind asArray).getD []

@[simp] theorem itemsAt_object (m : Map) (key : String) :
    (object m).itemsAt [key] = ((m.get key).bind asArray).getD [] := by
  rw [itemsAt, path_one]
  rfl

/-- The unsigned integer under a path of fields. -/
def natAt (v : Value) (keys : List String) : Option ℕ := (v.path keys).bind asU64

/-- The index under a path of fields, cut to 32 bits; a missing one is zero. -/
def indexAt (v : Value) (keys : List String) : ℕ := (v.natAt keys).getD 0 % 2 ^ 32

example : (object [("a", array [null, string "x"])]).get "a" = some (array [null, string "x"]) := by
  decide

end Value

end Llmleaf
