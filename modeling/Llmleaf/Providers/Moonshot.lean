import Llmleaf.Batch
import Llmleaf.Lib.Folds
import Llmleaf.Lib.Strings

/-!
# Moonshot's flavored schemas

Moonshot accepts a subset of JSON Schema. `flavorSchema` rewrites a schema into it: at each node the
local rules run in a fixed order, then the walk goes into the subschemas the node is left with.

- `rewriteNode`: the local rules of a node; each returns whether it changed something.
- `subschemas`: the positions the walk enters; `height`: how deep it can go.
- `flavorNode_object`: the walk rewrites a node, then each of its subschemas.
-/

namespace Llmleaf.Moonshot

/-- A rewrite of a node: what it leaves, and whether it reports a change. -/
abbrev Rule := Map → Map × Bool

/-! ## The local rules -/

/-- Merge one field of a branch. The maps of properties are united, so are the required names;
otherwise the field that is there stays. -/
def mergeField (obj : Map) (e : String × Value) : Map :=
  match obj.get e.1 with
  | none => obj.insert e.1 e.2
  | some existing =>
    match existing, e.2 with
    | .object existing, .object moved =>
      if e.1 = "properties" ∨ e.1 = "patternProperties" then
        obj.set e.1 (.object (Map.orInsertAll existing moved))
      else obj
    | .array existing, .array moved =>
      if e.1 = "required" then
        obj.set e.1 (.array (moved.foldl
          (fun names name => if name ∈ names then names else names ++ [name]) existing))
      else obj
    | _, _ => obj

def mergeBranch (obj : Map) (branch : Value) : Map :=
  match branch with
  | .object branch => branch.foldl mergeField obj
  | _ => obj

/-- The branches of `allOf` are merged into the node. -/
def mergeAllOf : Rule := fun obj =>
  match obj.get "allOf" with
  | none => (obj, false)
  | some (.array branches) => (branches.foldl mergeBranch (obj.without ["allOf"]), true)
  | some _ => (obj.without ["allOf"], true)

def constToEnum : Rule := fun obj =>
  match obj.get "const" with
  | none => (obj, false)
  | some c => ((obj.without ["const"]).insert "enum" (.array [c]), true)

/-- `oneOf` joins `anyOf`; it is dropped where `anyOf` is no list. -/
def oneOfToAnyOf : Rule := fun obj =>
  match obj.get "oneOf" with
  | none => (obj, false)
  | some oneOf =>
    let rest := obj.without ["oneOf"]
    match rest.get "anyOf", oneOf with
    | some (.array existing), .array moved => (rest.set "anyOf" (.array (existing ++ moved)), true)
    | some _, _ => (rest, true)
    | none, oneOf => (rest.insert "anyOf" oneOf, true)

def isString : Value → Bool
  | .string _ => true
  | _ => false

/-- A list of types becomes a branch for each of them, unless there are branches. -/
def splitTypeArray : Rule := fun obj =>
  match obj.get "type" with
  | some (.array [.string single]) => (obj.set "type" (.string single), true)
  | some (.array types) =>
    let branches := (types.filter isString).map fun t => Value.object [("type", t)]
    let rest := obj.without ["type"]
    if rest.get "anyOf" = none ∧ branches ≠ [] then (rest.insert "anyOf" (.array branches), true)
    else (rest, true)
  | _ => (obj, false)

/-- A reference with other keys beside it moves into a branch of its own. -/
def isolateRef : Rule := fun obj =>
  match obj.get "$ref" with
  | none => (obj, false)
  | some reference =>
    if obj.length ≤ 1 then (obj, false)
    else
      let rest := obj.without ["$ref"]
      let branch := Value.object [("$ref", reference)]
      match rest.get "anyOf" with
      | some (.array existing) => (rest.set "anyOf" (.array (existing ++ [branch])), true)
      | _ => (rest.set "anyOf" (.array [branch]), true)

/-- A branch takes the type of its parent, unless it has one or refers elsewhere. -/
def pushType (ty : Value) : Value → Value
  | .object branch =>
    if (Map.get branch "$ref").isSome then .object branch else .object (Map.orInsert branch "type" ty)
  | branch => branch

def pushTypeIntoAnyOf : Rule := fun obj =>
  match obj.get "anyOf", obj.get "type" with
  | some (.array branches), some ty =>
    ((obj.without ["type"]).set "anyOf" (.array (branches.map (pushType ty))), true)
  | some _, some _ => (obj.without ["type"], true)
  | _, _ => (obj, false)

/-- Take the list under a key out of the node; none if it is no list. -/
def takeList (obj : Map) (key : String) : Map × List Value :=
  match obj.get key with
  | some (.array xs) => (obj.without [key], xs)
  | _ => (obj, [])

/-- Take the schemas of a tuple out of the node. A schema for the items after the prefix is one more
branch. -/
def takeItems (obj : Map) (prefixes : List Value) : Map × List Value :=
  match obj.get "items" with
  | some (.array tuple) => (obj.without ["items"], prefixes ++ tuple)
  | some items =>
    if prefixes = [] then (obj, prefixes) else (obj.without ["items"], prefixes ++ [items])
  | none => (obj, prefixes)

/-- The schemas of a tuple become the branches of one schema for all items. -/
def foldTupleItems : Rule := fun obj =>
  let (obj, prefixes) := takeList obj "prefixItems"
  let (obj, branches) := takeItems obj prefixes
  if branches = [] then (obj, false)
  else (obj.insert "items" (.object [("anyOf", .array branches)]), true)

/-- The type of a literal. -/
def literalType : Value → Option String
  | .string _ => some "string"
  | .number (.float _) => some "number"
  | .number _ => some "integer"
  | .bool _ => some "boolean"
  | _ => none

/-- The type that holds of two literals: integers are numbers too. -/
def joinTypes (a b : String) : Option String :=
  if a = b then some a
  else if a ∈ ["integer", "number"] ∧ b ∈ ["integer", "number"] then some "number"
  else none

/-- The type of a list of literals, if there is one. -/
def enumLiteralType (values : List Value) : Option String :=
  match values with
  | [] => none
  | v :: values => do
    let first ← literalType v
    values.foldlM (fun ty v => do joinTypes ty (← literalType v)) first

/-- The type that the keywords of a node pin down. -/
def inferredType (obj : Map) : Option String :=
  let has (keys : List String) : Bool := keys.any fun key => (obj.get key).isSome
  if has ["properties", "patternProperties", "required", "additionalProperties"] then some "object"
  else if has ["items", "contains", "minItems", "maxItems", "uniqueItems"] then some "array"
  else
    match obj.get "enum" with
    | some (.array values) => enumLiteralType values
    | _ =>
      if has ["pattern", "format", "minLength", "maxLength"] then some "string"
      else if has ["minimum", "maximum", "exclusiveMinimum", "exclusiveMaximum", "multipleOf"] then
        some "number"
      else none

/-- Does a node say what it accepts? -/
def declares (obj : Map) : Bool := ["type", "anyOf", "$ref"].any fun key => (obj.get key).isSome

def inferMissingType : Rule := fun obj =>
  if declares obj then (obj, false)
  else
    match inferredType obj with
    | some ty => (obj.insert "type" (.string ty), true)
    | none => (obj, false)

/-- Is this the name of one of the properties? -/
def isKnown (properties : Map) (name : Value) : Bool :=
  match name with
  | .string name => (properties.get name).isSome
  | _ => false

/-- Required names that are no properties are dropped. -/
def pruneRequired : Rule := fun obj =>
  match obj.get "properties", obj.get "required" with
  | some (.object properties), some (.array required) =>
    let kept := required.filter (isKnown properties)
    if kept = [] ∧ required ≠ [] then (obj.without ["required"], true)
    else if kept.length = required.length then (obj, false)
    else (obj.set "required" (.array kept), true)
  | _, _ => (obj, false)

def rewriteRefTarget : Rule := fun obj =>
  match obj.get "$ref" with
  | some (.string reference) =>
    match Strings.stripPrefix reference "#/definitions/" with
    | some rest => (obj.set "$ref" (.string ("#/$defs/" ++ rest)), true)
    | none => (obj, false)
  | _ => (obj, false)

/-- One rule after another. -/
def Rule.andThen (r s : Rule) : Rule := fun obj => ((s (r obj).1).1, (r obj).2 || (s (r obj).1).2)

theorem Rule.andThen_fst (r s : Rule) (obj : Map) : (r.andThen s obj).1 = (s (r obj).1).1 := rfl

/-- The local rules of a node, in their order. -/
def rewriteNode : Rule :=
  mergeAllOf.andThen <| constToEnum.andThen <| oneOfToAnyOf.andThen <| splitTypeArray.andThen <|
  isolateRef.andThen <| pushTypeIntoAnyOf.andThen <| foldTupleItems.andThen <|
  inferMissingType.andThen <| pruneRequired.andThen rewriteRefTarget

/-- The node when its branches are complete: merged, with its types and its reference split off. -/
def branched (obj : Map) : Map :=
  (isolateRef (splitTypeArray (oneOfToAnyOf (constToEnum (mergeAllOf obj).1).1).1).1).1

theorem rewriteNode_fst (obj : Map) :
    (rewriteNode obj).1 = (rewriteRefTarget (pruneRequired (inferMissingType (foldTupleItems
      (pushTypeIntoAnyOf (branched obj)).1).1).1).1).1 := by
  simp only [rewriteNode, Rule.andThen_fst, branched]

/-! ### The fields a rule leaves as they are -/

section

variable {obj : Map} {key : String}

theorem get_without_of_ne {removed : String} (h : key ≠ removed) :
    (obj.without [removed]).get key = obj.get key := by
  rw [Map.get_without, if_neg (by simpa using h)]

theorem get_insert_of_ne {name : String} {value : Value} (h : key ≠ name) :
    (obj.insert name value).get key = obj.get key := by
  rw [Map.get_insert, if_neg (Ne.symm h)]

theorem get_set_of_ne {name : String} {value : Value} (h : key ≠ name) :
    (obj.set name value).get key = obj.get key := by
  rw [Map.get_set, if_neg (Ne.symm h)]

theorem constToEnum_get (hc : key ≠ "const") (he : key ≠ "enum") :
    (constToEnum obj).1.get key = obj.get key := by
  unfold constToEnum
  split
  · rfl
  · rw [get_insert_of_ne he, get_without_of_ne hc]

theorem oneOfToAnyOf_get (ho : key ≠ "oneOf") (ha : key ≠ "anyOf") :
    (oneOfToAnyOf obj).1.get key = obj.get key := by
  unfold oneOfToAnyOf
  split
  · rfl
  · dsimp only
    split
    · rw [get_set_of_ne ha, get_without_of_ne ho]
    · rw [get_without_of_ne ho]
    · rw [get_insert_of_ne ha, get_without_of_ne ho]

theorem splitTypeArray_get (ht : key ≠ "type") (ha : key ≠ "anyOf") :
    (splitTypeArray obj).1.get key = obj.get key := by
  unfold splitTypeArray
  split
  · rw [get_set_of_ne ht]
  · dsimp only
    split
    · rw [get_insert_of_ne ha, get_without_of_ne ht]
    · rw [get_without_of_ne ht]
  · rfl

theorem isolateRef_get (hr : key ≠ "$ref") (ha : key ≠ "anyOf") :
    (isolateRef obj).1.get key = obj.get key := by
  unfold isolateRef
  split
  · rfl
  · split
    · rfl
    · dsimp only
      split <;> rw [get_set_of_ne ha, get_without_of_ne hr]

theorem pushTypeIntoAnyOf_get (ht : key ≠ "type") (ha : key ≠ "anyOf") :
    (pushTypeIntoAnyOf obj).1.get key = obj.get key := by
  unfold pushTypeIntoAnyOf
  split
  · rw [get_set_of_ne ha, get_without_of_ne ht]
  · rw [get_without_of_ne ht]
  · rfl

theorem takeList_get {name : String} (h : key ≠ name) :
    (takeList obj name).1.get key = obj.get key := by
  unfold takeList
  split
  · exact get_without_of_ne h
  · rfl

theorem takeItems_get {prefixes : List Value} (h : key ≠ "items") :
    (takeItems obj prefixes).1.get key = obj.get key := by
  unfold takeItems
  split
  · exact get_without_of_ne h
  · split
    · rfl
    · exact get_without_of_ne h
  · rfl

theorem foldTupleItems_get (hp : key ≠ "prefixItems") (hi : key ≠ "items") :
    (foldTupleItems obj).1.get key = obj.get key := by
  simp only [foldTupleItems]
  split
  · rw [takeItems_get hi, takeList_get hp]
  · rw [get_insert_of_ne hi, takeItems_get hi, takeList_get hp]

theorem inferMissingType_get (ht : key ≠ "type") :
    (inferMissingType obj).1.get key = obj.get key := by
  unfold inferMissingType
  split
  · rfl
  · split
    · exact get_insert_of_ne ht
    · rfl

theorem pruneRequired_get (hr : key ≠ "required") :
    (pruneRequired obj).1.get key = obj.get key := by
  unfold pruneRequired
  split
  · dsimp only
    split
    · exact get_without_of_ne hr
    · split
      · rfl
      · exact get_set_of_ne hr
  · rfl

theorem rewriteRefTarget_get (hr : key ≠ "$ref") :
    (rewriteRefTarget obj).1.get key = obj.get key := by
  unfold rewriteRefTarget
  split
  · split
    · exact get_set_of_ne hr
    · rfl
  · rfl

/-- A type that was split is no list any more. -/
theorem splitTypeArray_type (types : List Value) :
    (splitTypeArray obj).1.get "type" ≠ some (.array types) := by
  unfold splitTypeArray
  split
  · simp [Map.get_set]
  · dsimp only
    split
    · simp [Map.get_insert, Map.get_without]
    · simp [Map.get_without]
  · rename_i h
    exact h types

end

/-! ## The walk -/

/-- The keys of one subschema. -/
def oneKeys : List String :=
  ["items", "additionalProperties", "not", "if", "then", "else", "contains", "propertyNames"]

/-- The keys of a map of subschemas. -/
def mapKeys : List String := ["properties", "patternProperties", "$defs"]

/-- Rewrite the subschemas of a field with `flavor`. -/
def walkField (flavor : Value → Value × Bool) (key : String) (value : Value) : Value × Bool :=
  if key ∈ oneKeys then flavor value
  else
    match value with
    | .array items =>
      if key = "anyOf" then
        (.array (items.map fun item => (flavor item).1), items.any fun item => (flavor item).2)
      else (value, false)
    | .object map =>
      if key ∈ mapKeys then
        (.object (map.map fun e => (e.1, (flavor e.2).1)), map.any fun e => (flavor e.2).2)
      else (value, false)
    | _ => (value, false)

/-- Rewrite a node, then its subschemas, down to a depth. A value that is no object stays. -/
def flavorDeep : ℕ → Value → Value × Bool
  | depth + 1, .object obj =>
    let (obj, changed) := rewriteNode obj
    (.object (obj.map fun e => (e.1, (walkField (flavorDeep depth) e.1 e.2).1)),
      changed || obj.any fun e => (walkField (flavorDeep depth) e.1 e.2).2)
  | _, value => (value, false)

/-- The subschemas of a field. -/
def subschemas (key : String) (value : Value) : List Value :=
  if key ∈ oneKeys then [value]
  else
    match value with
    | .array items => if key = "anyOf" then items else []
    | .object map => if key ∈ mapKeys then map.map Prod.snd else []
    | _ => []

/-- The subschemas that a node is left with. -/
def children (schema : Value) : List Value :=
  match schema with
  | .object obj => (rewriteNode obj).1.flatMap fun e => subschemas e.1 e.2
  | _ => []

def typeHeight : Value → ℕ
  | .array _ => 1
  | _ => 0

mutual

/-- How deep the walk can go below a value. -/
def height : Value → ℕ
  | .object obj => 1 + fieldsHeight obj
  | _ => 0

/-- The depth below the fields of a node. A reference, a type of several and the items of a tuple
may move into a node of their own. -/
def fieldsHeight : List (String × Value) → ℕ
  | [] => 0
  | (key, value) :: obj =>
    max (if key = "items" ∨ key = "prefixItems" then 1 + max (height value) (itemsHeight value)
      else if key ∈ oneKeys then height value
      else if key = "anyOf" ∨ key = "oneOf" ∨ key = "allOf" then itemsHeight value
      else if key ∈ mapKeys then valuesHeight value
      else if key = "type" then typeHeight value
      else if key = "$ref" then 1
      else 0) (fieldsHeight obj)

def itemsHeight : Value → ℕ
  | .array items => listHeight items
  | _ => 0

def listHeight : List Value → ℕ
  | [] => 0
  | item :: items => max (height item) (listHeight items)

def valuesHeight : Value → ℕ
  | .object map => mapHeight map
  | _ => 0

def mapHeight : List (String × Value) → ℕ
  | [] => 0
  | (_, value) :: map => max (height value) (mapHeight map)

end

/-- **Rewrite a node and the subschemas below it.** -/
def flavorNode (schema : Value) : Value × Bool := flavorDeep (height schema) schema

/-- The definitions of the root move; those under the new name stay. -/
def definitionsToDefs (root : Value) : Value × Bool :=
  match root with
  | .object obj =>
    match Map.get obj "definitions" with
    | none => (root, false)
    | some defs =>
      let rest := Map.without obj ["definitions"]
      match rest.get "$defs", defs with
      | some (.object existing), .object moved =>
        (.object (rest.set "$defs" (.object (Map.orInsertAll existing moved))), true)
      | some _, _ => (.object rest, true)
      | none, defs => (.object (rest.insert "$defs" defs), true)
  | _ => (root, false)

/-- **Rewrite a schema into the flavored subset**; the flag says whether something changed. -/
def flavorSchema (schema : Value) : Value × Bool :=
  let (schema, moved) := definitionsToDefs schema
  let (schema, changed) := flavorNode schema
  (schema, moved || changed)

/-! ## The provider -/

/-- Rewrite the parameters of every tool. -/
def flavorTools (tools : List ToolDef) : List ToolDef :=
  tools.map fun tool => { tool with parameters := (flavorSchema tool.parameters).1 }

/-- The request that `chat` hands to the inner provider: the schema of a structured response is
rewritten too. -/
def chat (req : ChatRequest) : ChatRequest :=
  { req with
    tools := flavorTools req.tools
    extra :=
      match req.extra.get "response_format" with
      | some format => req.extra.set "response_format"
          (format.modifyAt ["json_schema", "schema"] fun schema => (flavorSchema schema).1)
      | none => req.extra }

/-- The submission that `batch_create` hands to the inner provider. -/
def batchCreate (spec : BatchSpec) : BatchSpec :=
  ⟨spec.items.map fun item =>
    { item with request := { item.request with tools := flavorTools item.request.tools } }⟩

/-! ## The depth suffices -/

def fieldHeight (key : String) (value : Value) : ℕ :=
  if key = "items" ∨ key = "prefixItems" then 1 + max (height value) (itemsHeight value)
  else if key ∈ oneKeys then height value
  else if key = "anyOf" ∨ key = "oneOf" ∨ key = "allOf" then itemsHeight value
  else if key ∈ mapKeys then valuesHeight value
  else if key = "type" then typeHeight value
  else if key = "$ref" then 1
  else 0

theorem fieldsHeight_le {obj : Map} {n : ℕ} :
    fieldsHeight obj ≤ n ↔ ∀ e ∈ obj, fieldHeight e.1 e.2 ≤ n := by
  induction obj with
  | nil => simp [fieldsHeight]
  | cons e obj ih =>
    rw [List.forall_mem_cons, ← ih, fieldsHeight, max_le_iff]
    rfl

theorem listHeight_le {items : List Value} {n : ℕ} :
    listHeight items ≤ n ↔ ∀ item ∈ items, height item ≤ n := by
  induction items with
  | nil => simp [listHeight]
  | cons item items ih => rw [List.forall_mem_cons, ← ih, listHeight, max_le_iff]

theorem mapHeight_le {map : Map} {n : ℕ} :
    mapHeight map ≤ n ↔ ∀ e ∈ map, height e.2 ≤ n := by
  induction map with
  | nil => simp [mapHeight]
  | cons e map ih => rw [List.forall_mem_cons, ← ih, mapHeight, max_le_iff]

@[simp] theorem fieldHeight_items (value : Value) :
    fieldHeight "items" value = 1 + max (height value) (itemsHeight value) := rfl

@[simp] theorem fieldHeight_prefixItems (value : Value) :
    fieldHeight "prefixItems" value = 1 + max (height value) (itemsHeight value) := rfl

@[simp] theorem fieldHeight_anyOf (value : Value) :
    fieldHeight "anyOf" value = itemsHeight value := rfl

@[simp] theorem fieldHeight_oneOf (value : Value) :
    fieldHeight "oneOf" value = itemsHeight value := rfl

@[simp] theorem fieldHeight_allOf (value : Value) :
    fieldHeight "allOf" value = itemsHeight value := rfl

@[simp] theorem fieldHeight_properties (value : Value) :
    fieldHeight "properties" value = valuesHeight value := rfl

@[simp] theorem fieldHeight_patternProperties (value : Value) :
    fieldHeight "patternProperties" value = valuesHeight value := rfl

@[simp] theorem fieldHeight_type (value : Value) :
    fieldHeight "type" value = typeHeight value := rfl

@[simp] theorem fieldHeight_ref (value : Value) : fieldHeight "$ref" value = 1 := rfl

@[simp] theorem fieldHeight_enum (value : Value) : fieldHeight "enum" value = 0 := rfl

@[simp] theorem fieldHeight_required (value : Value) : fieldHeight "required" value = 0 := rfl

/-- The walk goes at most `n` deep below the fields of a node. -/
def Low (n : ℕ) (obj : Map) : Prop := ∀ e ∈ obj, fieldHeight e.1 e.2 ≤ n

section Low

variable {n : ℕ} {obj : Map} {key : String} {value : Value}

theorem Low.get (h : Low n obj) (hget : obj.get key = some value) : fieldHeight key value ≤ n :=
  h _ (Map.mem_of_get hget)

theorem Low.without (h : Low n obj) (keys : List String) : Low n (obj.without keys) :=
  fun e he => h e (Map.mem_of_mem_without he)

theorem Low.insert (h : Low n obj) (hv : fieldHeight key value ≤ n) :
    Low n (obj.insert key value) := by
  intro e he
  rcases Map.mem_insert he with rfl | he
  · exact hv
  · exact h e he

theorem Low.set (h : Low n obj) (hv : fieldHeight key value ≤ n) : Low n (obj.set key value) :=
  (h.without _).insert hv

theorem height_object_le : height (.object obj) ≤ n + 1 ↔ Low n obj := by
  rw [height, Nat.add_comm, Nat.add_le_add_iff_right]
  exact fieldsHeight_le

/-- Two maps of schemas united are as deep as the deeper of them. -/
theorem mapHeight_orInsertAll {a b : Map} (ha : mapHeight a ≤ n) (hb : mapHeight b ≤ n) :
    mapHeight (Map.orInsertAll a b) ≤ n := by
  refine mapHeight_le.mpr fun e he => ?_
  rcases Map.mem_orInsertAll he with he | he
  · exact mapHeight_le.mp ha e he
  · exact mapHeight_le.mp hb e he

theorem mergeField_low (h : Low n obj) {e : String × Value} (he : fieldHeight e.1 e.2 ≤ n) :
    Low n (mergeField obj e) := by
  obtain ⟨key, value⟩ := e
  unfold mergeField
  cases hget : obj.get key with
  | none => exact h.insert he
  | some existing =>
    have hold := h.get hget
    cases existing with
    | object existing =>
      cases value with
      | object moved =>
        dsimp only at hold he ⊢
        split
        · rename_i hkey
          refine h.set ?_
          rcases hkey with rfl | rfl <;>
            simp only [fieldHeight_properties, fieldHeight_patternProperties, valuesHeight]
              at hold he ⊢ <;>
            exact mapHeight_orInsertAll hold he
        · exact h
      | _ => exact h
    | array existing =>
      cases value with
      | array moved =>
        dsimp only
        split
        · rename_i hkey
          subst hkey
          exact h.set (by simp)
        · exact h
      | _ => exact h
    | _ => exact h

theorem mergeBranch_low (h : Low n obj) {branch : Value} (hb : height branch ≤ n) :
    Low n (mergeBranch obj branch) := by
  cases branch with
  | object branch =>
    rw [height] at hb
    have hfields : ∀ e ∈ branch, fieldHeight e.1 e.2 ≤ n := fieldsHeight_le.mp (by omega)
    clear hb
    change Low n (branch.foldl mergeField obj)
    induction branch generalizing obj with
    | nil => exact h
    | cons e branch ih =>
      have ⟨he, hrest⟩ := List.forall_mem_cons.mp hfields
      exact ih (mergeField_low h he) hrest
  | _ => exact h

theorem mergeAllOf_low (h : Low n obj) : Low n (mergeAllOf obj).1 := by
  unfold mergeAllOf
  cases hget : obj.get "allOf" with
  | none => exact h
  | some allOf =>
    cases allOf with
    | array branches =>
      have hb : ∀ branch ∈ branches, height branch ≤ n := by
        have := h.get hget
        rw [fieldHeight_allOf, itemsHeight] at this
        exact listHeight_le.mp this
      clear hget
      change Low n (branches.foldl mergeBranch (obj.without ["allOf"]))
      have hrest := h.without ["allOf"]
      generalize obj.without ["allOf"] = rest at hrest
      induction branches generalizing rest with
      | nil => exact hrest
      | cons branch branches ih =>
        have ⟨hbranch, hmore⟩ := List.forall_mem_cons.mp hb
        exact ih hmore _ (mergeBranch_low hrest hbranch)
    | _ => exact h.without _

theorem constToEnum_low (h : Low n obj) : Low n (constToEnum obj).1 := by
  unfold constToEnum
  split
  · exact h
  · exact (h.without _).insert (by simp)

theorem oneOfToAnyOf_low (h : Low n obj) : Low n (oneOfToAnyOf obj).1 := by
  unfold oneOfToAnyOf
  split
  · exact h
  · rename_i oneOf hget
    have hone := h.get hget
    rw [fieldHeight_oneOf] at hone
    dsimp only
    split
    · rename_i existing moved hany
      refine (h.without _).set ?_
      have hany := (h.without _).get hany
      rw [fieldHeight_anyOf] at hany ⊢
      exact listHeight_le.mpr fun item hitem => (List.mem_append.mp hitem).elim
        (listHeight_le.mp hany item) (listHeight_le.mp hone item)
    · exact h.without _
    · exact (h.without _).insert (by simpa using hone)

theorem splitTypeArray_low (h : Low n obj) : Low n (splitTypeArray obj).1 := by
  unfold splitTypeArray
  split
  · exact h.set (by simp [typeHeight])
  · rename_i types _ hget
    have htype : 1 ≤ n := by simpa [typeHeight] using h.get hget
    dsimp only
    split
    · refine (h.without _).insert ?_
      rw [fieldHeight_anyOf, itemsHeight, listHeight_le]
      intro item hitem
      obtain ⟨t, ht, rfl⟩ := List.mem_map.mp hitem
      have ht := (List.mem_filter.mp ht).2
      cases t with
      | string t => exact htype
      | _ => cases ht
    · exact h.without _
  · exact h

/-- A depth that suffices for a schema: a reference of its own has nothing below it. -/
def Enough (n : ℕ) (schema : Value) : Prop :=
  height schema ≤ n ∨ 1 ≤ n ∧ ∃ reference, schema = .object [("$ref", reference)]

/-- The subschemas of a node, and the tuples that will become one. -/
structure Reach (n : ℕ) (obj : Map) : Prop where
  children : ∀ e ∈ obj, ∀ c ∈ subschemas e.1 e.2, Enough n c
  tuples : ∀ e ∈ obj, e.1 = "items" ∨ e.1 = "prefixItems" → fieldHeight e.1 e.2 ≤ n

theorem enough_subschemas (h : fieldHeight key value ≤ n) : ∀ c ∈ subschemas key value, Enough n c := by
  intro c hc
  left
  unfold subschemas at hc
  unfold fieldHeight at h
  split at hc
  · rename_i hkey
    obtain rfl := List.mem_singleton.mp hc
    split at h
    · omega
    · exact h
  · rename_i hkey
    split at hc
    · rename_i items
      split at hc
      · rename_i hany
        subst hany
        exact listHeight_le.mp (by simpa [oneKeys, itemsHeight] using h) c hc
      · cases hc
    · rename_i map
      split at hc
      · rename_i hmap
        obtain ⟨e, he, rfl⟩ := List.mem_map.mp hc
        have hne : ¬ (key = "items" ∨ key = "prefixItems") ∧
            ¬ (key = "anyOf" ∨ key = "oneOf" ∨ key = "allOf") := by
          simp only [mapKeys, List.mem_cons, List.not_mem_nil, or_false] at hmap
          rcases hmap with rfl | rfl | rfl <;> decide
        rw [if_neg hne.1, if_neg hkey, if_neg hne.2, if_pos hmap] at h
        exact mapHeight_le.mp h e he
      · cases hc
    · cases hc

theorem Low.reach (h : Low n obj) : Reach n obj :=
  ⟨fun e he => enough_subschemas (h e he), fun e he _ => h e he⟩

theorem Reach.without (h : Reach n obj) (keys : List String) : Reach n (obj.without keys) :=
  ⟨fun e he => h.children e (Map.mem_of_mem_without he),
    fun e he => h.tuples e (Map.mem_of_mem_without he)⟩

theorem Reach.insert (h : Reach n obj) (hc : ∀ c ∈ subschemas key value, Enough n c)
    (ht : key = "items" ∨ key = "prefixItems" → fieldHeight key value ≤ n) :
    Reach n (obj.insert key value) := by
  constructor <;> intro e he <;> rcases Map.mem_insert he with rfl | he
  · exact hc
  · exact h.children e he
  · exact ht
  · exact h.tuples e he

theorem Reach.anyOf (h : Reach n obj) {items : List Value} (hget : obj.get "anyOf" = some (.array items)) :
    ∀ item ∈ items, Enough n item :=
  fun item hitem => h.children _ (Map.mem_of_get hget) item (by simpa [subschemas, oneKeys] using hitem)

/-- Replace the branches of a node. -/
theorem Reach.setAnyOf (h : Reach n obj) {items : List Value} (hi : ∀ item ∈ items, Enough n item) :
    Reach n (obj.set "anyOf" (.array items)) :=
  (h.without _).insert (by simpa [subschemas, oneKeys] using hi) (by simp)

theorem isolateRef_reach (h : Low n obj) : Reach n (isolateRef obj).1 := by
  unfold isolateRef
  split
  · exact h.reach
  · rename_i reference hget
    have hn : 1 ≤ n := by simpa using h.get hget
    have hbranch : Enough n (.object [("$ref", reference)]) := .inr ⟨hn, reference, rfl⟩
    have hrest := h.reach.without ["$ref"]
    split
    · exact h.reach
    · dsimp only
      split
      · rename_i existing hany
        refine hrest.setAnyOf fun item hitem => ?_
        rcases List.mem_append.mp hitem with hitem | hitem
        · exact hrest.anyOf hany item hitem
        · exact List.mem_singleton.mp hitem ▸ hbranch
      · exact hrest.setAnyOf fun item hitem => List.mem_singleton.mp hitem ▸ hbranch

/-- A type that is no list takes no room in a branch. -/
theorem enough_pushType {ty branch : Value} (hty : typeHeight ty = 0) (h : Enough n branch) :
    Enough n (pushType ty branch) := by
  cases branch with
  | object branch =>
    rw [pushType]
    split
    · exact h
    · rename_i href
      have hheight : height (.object branch) ≤ n := by
        rcases h with h | ⟨-, reference, hb⟩
        · exact h
        · cases hb
          exact absurd rfl href
      left
      obtain ⟨n, rfl⟩ : ∃ m, n = m + 1 := ⟨n - 1, by rw [height] at hheight; omega⟩
      rw [height_object_le] at hheight ⊢
      intro e he
      rcases Map.mem_orInsert he with rfl | he
      · rw [fieldHeight_type, hty]
        exact Nat.zero_le _
      · exact hheight e he
  | _ => exact h

theorem pushTypeIntoAnyOf_reach (h : Reach n obj)
    (hty : ∀ types, obj.get "type" ≠ some (.array types)) :
    Reach n (pushTypeIntoAnyOf obj).1 := by
  unfold pushTypeIntoAnyOf
  split
  · rename_i branches ty hany hget
    have hty : typeHeight ty = 0 := by
      cases ty with
      | array types => exact absurd hget (hty types)
      | _ => rfl
    refine (h.without _).setAnyOf fun item hitem => ?_
    obtain ⟨branch, hbranch, rfl⟩ := List.mem_map.mp hitem
    exact enough_pushType hty (h.anyOf hany branch hbranch)
  · exact h.without _
  · exact h

/-- A schema of a tuple leaves room for the node it moves below. -/
theorem Reach.tuple (h : Reach n obj) (hkey : key = "items" ∨ key = "prefixItems")
    (hget : obj.get key = some value) : height value < n ∧ itemsHeight value < n := by
  have ht := h.tuples _ (Map.mem_of_get hget) hkey
  rw [show fieldHeight key value = _ from if_pos hkey] at ht
  omega

theorem takeList_reach (h : Reach n obj) (hkey : key = "items" ∨ key = "prefixItems") :
    Reach n (takeList obj key).1 ∧ ∀ x ∈ (takeList obj key).2, height x < n := by
  unfold takeList
  split
  · rename_i xs hget
    have hn := (h.tuple hkey hget).2
    exact ⟨h.without _, fun x hx => (listHeight_le.mp le_rfl x hx).trans_lt hn⟩
  · exact ⟨h, nofun⟩

theorem takeItems_reach (h : Reach n obj) {prefixes : List Value}
    (hprefixes : ∀ x ∈ prefixes, height x < n) :
    Reach n (takeItems obj prefixes).1 ∧ ∀ x ∈ (takeItems obj prefixes).2, height x < n := by
  unfold takeItems
  split
  · rename_i tuple hget
    have hn := (h.tuple (.inl rfl) hget).2
    refine ⟨h.without _, fun x hx => (List.mem_append.mp hx).elim (hprefixes x) fun hx => ?_⟩
    exact (listHeight_le.mp le_rfl x hx).trans_lt hn
  · rename_i items _ hget
    split
    · exact ⟨h, hprefixes⟩
    · refine ⟨h.without _, fun x hx => (List.mem_append.mp hx).elim (hprefixes x) fun hx => ?_⟩
      exact List.mem_singleton.mp hx ▸ (h.tuple (.inl rfl) hget).1
  · exact ⟨h, hprefixes⟩

theorem foldTupleItems_children (h : Reach n obj) :
    ∀ e ∈ (foldTupleItems obj).1, ∀ c ∈ subschemas e.1 e.2, Enough n c := by
  obtain ⟨hrest, hprefixes⟩ := takeList_reach h (.inr rfl)
  obtain ⟨hrest, hbranches⟩ := takeItems_reach hrest hprefixes
  simp only [foldTupleItems]
  generalize takeItems _ _ = taken at hrest hbranches
  obtain ⟨rest, branches⟩ := taken
  dsimp only at hrest hbranches ⊢
  split
  · exact hrest.children
  · rename_i hne
    intro e he
    rcases Map.mem_insert he with rfl | he
    · intro c hc
      obtain rfl : c = .object [("anyOf", .array branches)] := by simpa [subschemas, oneKeys] using hc
      left
      obtain ⟨branch, hbranch⟩ := List.exists_mem_of_ne_nil _ hne
      obtain ⟨n, rfl⟩ : ∃ m, n = m + 1 := ⟨n - 1, by have := hbranches branch hbranch; omega⟩
      refine height_object_le.mpr fun e he => ?_
      rw [List.mem_singleton.mp he, fieldHeight_anyOf, itemsHeight, listHeight_le]
      exact fun item hitem => Nat.lt_succ_iff.mp (hbranches item hitem)
    · exact hrest.children e he

/-- Fields without subschemas do not count. -/
theorem children_insert (h : ∀ e ∈ obj, ∀ c ∈ subschemas e.1 e.2, Enough n c)
    (hs : subschemas key value = []) :
    ∀ e ∈ obj.insert key value, ∀ c ∈ subschemas e.1 e.2, Enough n c := by
  intro e he
  rcases Map.mem_insert he with rfl | he
  · rw [hs]
    exact nofun
  · exact h e he

theorem children_without (h : ∀ e ∈ obj, ∀ c ∈ subschemas e.1 e.2, Enough n c)
    (keys : List String) : ∀ e ∈ obj.without keys, ∀ c ∈ subschemas e.1 e.2, Enough n c :=
  fun e he => h e (Map.mem_of_mem_without he)

theorem inferMissingType_children (h : ∀ e ∈ obj, ∀ c ∈ subschemas e.1 e.2, Enough n c) :
    ∀ e ∈ (inferMissingType obj).1, ∀ c ∈ subschemas e.1 e.2, Enough n c := by
  unfold inferMissingType
  split
  · exact h
  · split
    · exact children_insert h (by simp [subschemas, oneKeys])
    · exact h

theorem pruneRequired_children (h : ∀ e ∈ obj, ∀ c ∈ subschemas e.1 e.2, Enough n c) :
    ∀ e ∈ (pruneRequired obj).1, ∀ c ∈ subschemas e.1 e.2, Enough n c := by
  unfold pruneRequired
  split
  · dsimp only
    split
    · exact children_without h _
    · split
      · exact h
      · exact children_insert (children_without h _) (by simp [subschemas, oneKeys])
  · exact h

theorem rewriteRefTarget_children (h : ∀ e ∈ obj, ∀ c ∈ subschemas e.1 e.2, Enough n c) :
    ∀ e ∈ (rewriteRefTarget obj).1, ∀ c ∈ subschemas e.1 e.2, Enough n c := by
  unfold rewriteRefTarget
  split
  · split
    · exact children_insert (children_without h _) (by simp [subschemas, oneKeys])
    · exact h
  · exact h

theorem branched_reach (h : Low n obj) : Reach n (branched obj) :=
  isolateRef_reach (splitTypeArray_low (oneOfToAnyOf_low (constToEnum_low (mergeAllOf_low h))))

theorem branched_type (types : List Value) : (branched obj).get "type" ≠ some (.array types) := by
  rw [branched, isolateRef_get (by decide) (by decide)]
  exact splitTypeArray_type types

theorem rewriteNode_children (h : Low n obj) :
    ∀ e ∈ (rewriteNode obj).1, ∀ c ∈ subschemas e.1 e.2, Enough n c := by
  rw [rewriteNode_fst]
  exact rewriteRefTarget_children (pruneRequired_children (inferMissingType_children
    (foldTupleItems_children (pushTypeIntoAnyOf_reach (branched_reach h) branched_type))))

/-- A reference of its own is met by the last rule only. -/
theorem rewrite_reference (reference : Value) :
    (pruneRequired (inferMissingType (foldTupleItems
      (pushTypeIntoAnyOf [("$ref", reference)]).1).1).1).1 = [("$ref", reference)] := by
  simp [pushTypeIntoAnyOf, foldTupleItems, takeList, takeItems, inferMissingType, declares,
    pruneRequired, Map.get_cons]

theorem branched_reference (reference : Value) :
    branched [("$ref", reference)] = [("$ref", reference)] := by
  simp [branched, mergeAllOf, constToEnum, oneOfToAnyOf, splitTypeArray, isolateRef, Map.get_cons]

theorem rewriteRefTarget_reference (reference : Value) :
    ∃ target, (rewriteRefTarget [("$ref", reference)]).1 = [("$ref", target)] ∧
      ∀ text, target = .string text → Strings.stripPrefix text "#/definitions/" = none := by
  cases reference with
  | string text =>
    cases h : Strings.stripPrefix text "#/definitions/" with
    | none => exact ⟨.string text, by simp [rewriteRefTarget, Map.get_cons, h], by simp [h]⟩
    | some rest =>
      refine ⟨.string ("#/$defs/" ++ rest), ?_, ?_⟩
      · simp [rewriteRefTarget, Map.get_cons, h, Map.set, Map.without, Map.insert]
      · rintro _ ⟨⟩
        rw [Option.eq_none_iff_forall_ne_some]
        intro tail htail
        have heq := congrArg String.toList (Strings.stripPrefix_eq_some.mp htail)
        simp at heq
  | _ => exact ⟨_, rfl, by simp⟩

/-- A reference of its own has no subschemas. -/
theorem children_reference (reference : Value) : children (.object [("$ref", reference)]) = [] := by
  obtain ⟨target, htarget, -⟩ := rewriteRefTarget_reference reference
  rw [children, rewriteNode_fst, branched_reference, rewrite_reference, htarget]
  cases target <;> simp [subschemas, oneKeys, mapKeys]

/-- **The subschemas of a rewritten node are less deep.** -/
theorem enough_children {schema : Value} (h : Enough (n + 1) schema) :
    ∀ c ∈ children schema, Enough n c := by
  rcases h with h | ⟨-, reference, rfl⟩
  · cases schema with
    | object obj =>
      intro c hc
      obtain ⟨e, he, hc⟩ := List.mem_flatMap.mp hc
      exact rewriteNode_children (height_object_le.mp h) e he c hc
    | _ => exact nofun
  · rw [children_reference]
    exact nofun

end Low

/-! ## The walk, without its depth -/

/-- A field is rewritten through its subschemas. -/
theorem walkField_congr {f g : Value → Value × Bool} {key : String} {value : Value}
    (h : ∀ c ∈ subschemas key value, f c = g c) : walkField f key value = walkField g key value := by
  unfold walkField
  unfold subschemas at h
  split
  · rename_i hkey
    rw [if_pos hkey] at h
    exact h value (List.mem_singleton_self _)
  · rename_i hkey
    rw [if_neg hkey] at h
    split
    · split
      · rename_i items hany
        simp only [if_pos hany] at h
        rw [List.map_congr_left fun c hc => congrArg Prod.fst (h c hc),
          Folds.any_congr_left fun c hc => congrArg Prod.snd (h c hc)]
      · rfl
    · split
      · rename_i map hmap
        simp only [if_pos hmap] at h
        have heq (e : String × Value) (he : e ∈ map) : f e.2 = g e.2 :=
          h e.2 (List.mem_map_of_mem he)
        rw [List.map_congr_left fun e he => by rw [heq e he],
          Folds.any_congr_left fun e he => congrArg Prod.snd (heq e he)]
      · rfl
    · rfl

theorem enough_height (schema : Value) : Enough (height schema) schema := .inl le_rfl

/-- A schema that is no object has no depth; an object has some. -/
theorem not_enough_zero {obj : Map} : ¬ Enough 0 (.object obj) := by
  rintro (h | ⟨h, -⟩)
  · rw [height] at h
    omega
  · omega

theorem flavorDeep_enough {n m : ℕ} {schema : Value} (hn : Enough n schema) (hm : Enough m schema) :
    flavorDeep n schema = flavorDeep m schema := by
  induction n generalizing m schema with
  | zero =>
    cases schema with
    | object obj => exact absurd hn not_enough_zero
    | _ => cases m <;> rfl
  | succ n ih =>
    cases schema with
    | object obj =>
      cases m with
      | zero => exact absurd hm not_enough_zero
      | succ m =>
        have hfield (e : String × Value) (he : e ∈ (rewriteNode obj).1) :
            walkField (flavorDeep n) e.1 e.2 = walkField (flavorDeep m) e.1 e.2 :=
          walkField_congr fun c hc =>
            have hchild : c ∈ children (.object obj) := List.mem_flatMap.mpr ⟨e, he, hc⟩
            ih (enough_children hn c hchild) (enough_children hm c hchild)
        simp only [flavorDeep]
        rw [List.map_congr_left fun e he => by rw [hfield e he],
          Folds.any_congr_left fun e he => congrArg Prod.snd (hfield e he)]
    | _ => cases m <;> rfl

/-- **The walk rewrites a node, then each of its subschemas.** -/
theorem flavorNode_object (obj : Map) :
    flavorNode (.object obj) =
      (.object ((rewriteNode obj).1.map fun e => (e.1, (walkField flavorNode e.1 e.2).1)),
        (rewriteNode obj).2 || (rewriteNode obj).1.any fun e => (walkField flavorNode e.1 e.2).2) := by
  obtain ⟨n, hn⟩ : ∃ n, height (.object obj) = n + 1 := ⟨fieldsHeight obj, by rw [height]; omega⟩
  have hdepth : Enough (n + 1) (.object obj) := .inl hn.le
  have hfield (e : String × Value) (he : e ∈ (rewriteNode obj).1) :
      walkField (flavorDeep n) e.1 e.2 = walkField flavorNode e.1 e.2 :=
    walkField_congr fun c hc =>
      have hchild : c ∈ children (.object obj) := List.mem_flatMap.mpr ⟨e, he, hc⟩
      flavorDeep_enough (enough_children hdepth c hchild) (enough_height c)
  rw [flavorNode, hn]
  simp only [flavorDeep]
  rw [List.map_congr_left fun e he => by rw [hfield e he],
    Folds.any_congr_left fun e he => congrArg Prod.snd (hfield e he)]

/-- A schema that is no object is left as it is. -/
theorem flavorNode_of_not_object {schema : Value} (h : ∀ obj, schema ≠ .object obj) :
    flavorNode schema = (schema, false) := by
  cases schema with
  | object obj => exact absurd rfl (h obj)
  | _ => rfl

/-- What holds of a schema when it holds of its subschemas, holds of every schema. -/
theorem schema_induction {motive : Value → Prop}
    (step : ∀ schema, (∀ c ∈ children schema, motive c) → motive schema) (schema : Value) :
    motive schema := by
  suffices ∀ n schema, Enough n schema → motive schema from this _ _ (enough_height schema)
  intro n
  induction n with
  | zero =>
    intro schema h
    cases schema with
    | object obj => exact absurd h not_enough_zero
    | _ => exact step _ nofun
  | succ n ih => exact fun schema h => step schema fun c hc => ih c (enough_children h c hc)

end Llmleaf.Moonshot
