import Llmleaf.Providers.MoonshotRules

/-!
# What a flavored schema is

The walk rewrites the nodes it visits, each once. What the rules of a node establish therefore holds
at every position of the result, but for the keywords that a merged branch brings along after their
rule has run.

- `parts`: the subschemas of a value; `Position` and `Visited`: the nodes of a schema, and those the
  walk finds on its way.
- **Results**: `flavored_iff`, when the result is in the flavored subset; `flavorSchema_again_iff`,
  when a second rewrite changes nothing and the flag tells whether the first one did.
-/

namespace Llmleaf.Moonshot

/-- The subschemas of a value as it stands. -/
def parts (schema : Value) : List Value :=
  match schema with
  | .object obj => obj.flatMap fun e => subschemas e.1 e.2
  | _ => []

/-- A node of a schema: the root or a node of a subschema. -/
def Position : Value → Value → Prop := Relation.ReflTransGen fun schema c => c ∈ parts schema

/-- A node that the walk rewrites, as it finds it. -/
def Visited : Value → Value → Prop := Relation.ReflTransGen fun schema c => c ∈ children schema

/-- The fields of a node after the walk went through its subschemas. -/
def walked (obj : Map) : Map := obj.map fun e => (e.1, (walkField flavorNode e.1 e.2).1)

variable {obj : Map} {key : String} {value schema : Value}

theorem flavorNode_fst (obj : Map) :
    (flavorNode (.object obj)).1 = .object (walked (rewriteNode obj).1) := by
  rw [flavorNode_object]
  rfl

theorem get_walked :
    (walked obj).get key = (obj.get key).map fun v => (walkField flavorNode key v).1 :=
  Map.get_mapValues obj (fun key v => (walkField flavorNode key v).1) key

theorem isSome_get_walked : ((walked obj).get key).isSome = (obj.get key).isSome := by
  rw [get_walked, Option.isSome_map]

/-- The walk leaves the fields that hold no subschemas. -/
theorem get_walked_of_ne (h : key ∉ oneKeys ++ "anyOf" :: mapKeys) :
    (walked obj).get key = obj.get key := by
  have hfield (v : Value) : (walkField flavorNode key v).1 = v := by
    simp only [List.mem_append, List.mem_cons, not_or] at h
    cases v <;> simp [walkField, h]
  rw [get_walked]
  simp [hfield]

/-- The kind of a value stays. -/
theorem flavorNode_array {xs : List Value} (h : (flavorNode value).1 = .array xs) :
    value = .array xs := by
  cases value with
  | object obj =>
    rw [flavorNode_fst] at h
    cases h
  | _ => exact h

/-- The subschemas of a walked field are those of the field, rewritten. -/
theorem subschemas_walkField :
    subschemas key (walkField flavorNode key value).1 =
      (subschemas key value).map fun c => (flavorNode c).1 := by
  by_cases hone : key ∈ oneKeys
  · simp [subschemas, walkField, hone]
  · cases value with
    | array items =>
      obtain rfl | hany := eq_or_ne key "anyOf"
      · simp [subschemas, walkField, hone]
      · simp [subschemas, walkField, hone, hany]
    | object map =>
      by_cases hmap : key ∈ mapKeys <;>
        simp [subschemas, walkField, hone, hmap, Function.comp_def]
    | _ => simp [subschemas, walkField, hone]

/-- **The subschemas of the result are the rewritten subschemas.** -/
theorem parts_flavorNode (schema : Value) :
    parts (flavorNode schema).1 = (children schema).map fun c => (flavorNode c).1 := by
  cases schema with
  | object obj =>
    rw [flavorNode_fst, parts, children, walked, List.flatMap_map, List.map_flatMap]
    exact List.flatMap_congr fun e _ => subschemas_walkField
  | _ => rfl

/-- The nodes of the result are the rewritten nodes. -/
theorem position_flavorNode {node : Value} :
    Position (flavorNode schema).1 node ↔ ∃ found, Visited schema found ∧ node = (flavorNode found).1 := by
  constructor
  · intro h
    induction h with
    | refl => exact ⟨schema, .refl, rfl⟩
    | tail _ hc ih =>
      obtain ⟨found, hfound, rfl⟩ := ih
      rw [parts_flavorNode] at hc
      obtain ⟨c, hmem, rfl⟩ := List.mem_map.mp hc
      exact ⟨c, hfound.tail hmem, rfl⟩
  · rintro ⟨found, h, rfl⟩
    induction h with
    | refl => exact .refl
    | tail _ hc ih =>
      refine ih.tail ?_
      rw [parts_flavorNode]
      exact List.mem_map_of_mem hc

/-! ## Settled nodes stay settled -/

theorem declares_walked : declares (walked obj) = declares obj := by
  simp only [declares, List.any_cons, List.any_nil, isSome_get_walked]

theorem inferredType_walked : inferredType (walked obj) = inferredType obj := by
  have henum : (walked obj).get "enum" = obj.get "enum" := get_walked_of_ne (by decide)
  simp only [inferredType, List.any_cons, List.any_nil, isSome_get_walked, henum]
  rfl

/-- The names of the properties stay. -/
theorem properties_walked {properties : Map}
    (h : (walked obj).get "properties" = some (.object properties)) :
    ∃ before, obj.get "properties" = some (.object before) ∧
      ∀ name, isKnown properties name = isKnown before name := by
  rw [get_walked] at h
  obtain ⟨v, hv, h⟩ := Option.map_eq_some_iff.mp h
  cases v with
  | object before =>
    refine ⟨before, hv, fun name => ?_⟩
    have hmap : properties = before.map fun e => (e.1, (flavorNode e.2).1) := by
      simpa [walkField, oneKeys, mapKeys, eq_comm] using h
    subst hmap
    cases name with
    | string name =>
      rw [isKnown, isKnown, Map.get_mapValues before (fun _ v => (flavorNode v).1), Option.isSome_map]
    | _ => rfl
  | _ => simp [walkField, oneKeys] at h

theorem Settled.walked (h : Settled obj) : Settled (walked obj) where
  const := by rw [get_walked, h.const]; rfl
  oneOf := by rw [get_walked, h.oneOf]; rfl
  type types := by rw [get_walked_of_ne (by decide)]; exact h.type types
  reference href := by
    rw [isSome_get_walked] at href
    simpa [Moonshot.walked] using h.reference href
  anyOf hany := by
    rw [isSome_get_walked] at hany
    rw [get_walked, h.anyOf hany]
    rfl
  prefixItems xs := by rw [get_walked_of_ne (by decide)]; exact h.prefixItems xs
  items xs := by
    rw [get_walked]
    intro hget
    obtain ⟨v, hv, hlist⟩ := Option.map_eq_some_iff.mp hget
    exact h.items xs (hv.trans (congrArg some (flavorNode_array hlist)))
  inferred := by
    rw [declares_walked, inferredType_walked]
    exact h.inferred
  required properties names hp hr := by
    rw [get_walked_of_ne (by decide)] at hr
    obtain ⟨before, hbefore, hknown⟩ := properties_walked hp
    intro name hname
    rw [hknown]
    exact h.required before names hbefore hr name hname
  target reference href := by
    rw [get_walked_of_ne (by decide)] at href
    exact h.target reference href

/-! ## What merging brings -/

/-- A branch of `allOf` has the key. -/
def Brings (obj : Map) (key : String) : Prop :=
  ∃ branch ∈ (Value.object obj).itemsAt ["allOf"], (branch.get key).isSome

/-- A field leaves those of other keys. -/
theorem mergeField_get_of_ne {e : String × Value} (h : key ≠ e.1) :
    (mergeField obj e).get key = obj.get key := by
  unfold mergeField
  split
  · exact get_insert_of_ne h
  · split
    · split
      · exact get_set_of_ne h
      · rfl
    · split
      · exact get_set_of_ne h
      · rfl
    · rfl

/-- A field that is not united comes from the node or from the first branch that has it. -/
theorem mergeField_get {e : String × Value} (h : key ∉ ["properties", "patternProperties", "required"]) :
    (mergeField obj e).get key = (obj.get key).or (if e.1 = key then some e.2 else none) := by
  by_cases hkey : e.1 = key
  · unfold mergeField
    subst hkey
    simp only [List.mem_cons, List.not_mem_nil, or_false, not_or] at h
    cases hget : obj.get e.1 with
    | none => simp [Map.get_insert]
    | some existing => cases existing <;> cases e.2 <;> simp [h, hget]
  · rw [if_neg hkey, Option.or_none]
    exact mergeField_get_of_ne (Ne.symm hkey)

theorem mergeBranch_get {branch : Value}
    (h : key ∉ ["properties", "patternProperties", "required"]) :
    (mergeBranch obj branch).get key = (obj.get key).or (branch.get key) := by
  cases branch with
  | object branch =>
    change (branch.foldl mergeField obj).get key = (obj.get key).or (Map.get branch key)
    induction branch generalizing obj with
    | nil => simp
    | cons e branch ih =>
      rw [List.foldl_cons, ih, mergeField_get h, Option.or_assoc, Map.get_cons]
      split <;> simp
  | _ => exact Option.or_none.symm

theorem mergeBranches_get {branches : List Value}
    (h : key ∉ ["properties", "patternProperties", "required"]) :
    (branches.foldl mergeBranch obj).get key = (obj.get key).or (branches.findSome? (·.get key)) := by
  induction branches generalizing obj with
  | nil => simp
  | cons branch branches ih =>
    rw [List.foldl_cons, ih, mergeBranch_get h, Option.or_assoc, List.findSome?_cons]
    cases branch.get key <;> rfl

/-- **Merging brings the fields of the branches.** -/
theorem mergeAllOf_get (h : key ∉ ["properties", "patternProperties", "required"]) :
    (mergeAllOf obj).1.get key = ((obj.without ["allOf"]).get key).or
      (((Value.object obj).itemsAt ["allOf"]).findSome? (·.get key)) := by
  rw [Value.itemsAt_object]
  unfold mergeAllOf
  split
  · rename_i hall
    rw [hall, Map.get_without]
    split
    · rename_i hkey
      simp_all
    · simp
  · rename_i branches hall
    rw [mergeBranches_get h, hall]
    rfl
  · rename_i v hno hall
    rw [hall]
    cases v with
    | array branches => exact absurd rfl (hno branches)
    | _ => exact Option.or_none.symm

theorem mergeAllOf_isSome (h : key ∉ ["properties", "patternProperties", "required"]) :
    ((mergeAllOf obj).1.get key).isSome ↔ ((obj.without ["allOf"]).get key).isSome ∨ Brings obj key := by
  rw [mergeAllOf_get h, Option.isSome_or, Bool.or_eq_true, List.findSome?_isSome_iff]
  rfl

/-- After merging there is an `allOf` only where a branch has one. -/
theorem rewriteNode_allOf : (rewriteNode obj).1.get "allOf" = none ↔ ¬ Brings obj "allOf" := by
  rw [rewriteNode_get (by decide), ← Option.not_isSome_iff_eq_none, mergeAllOf_isSome (by decide)]
  simp [Map.get_without]

/-! ## The flavored subset -/

/-- A node of the flavored subset. -/
structure Flavored (obj : Map) : Prop where
  allOf : obj.get "allOf" = none
  oneOf : obj.get "oneOf" = none
  const : obj.get "const" = none
  type : ∀ types, obj.get "type" ≠ some (.array types)
  items : ∀ xs, obj.get "items" ≠ some (.array xs)
  prefixItems : ∀ xs, obj.get "prefixItems" ≠ some (.array xs)
  anyOf : (obj.get "anyOf").isSome → obj.get "type" = none
  reference : (obj.get "$ref").isSome → ∀ e ∈ obj, e.1 = "$ref"
  required : ∀ names name, obj.get "required" = some (.array names) → .string name ∈ names →
    ∃ properties, obj.get "properties" = some (.object properties) ∧ (Map.get properties name).isSome
  target : ∀ reference, obj.get "$ref" = some (.string reference) →
    Strings.stripPrefix reference "#/definitions/" = none

/-- A name is required of a node, merged with its branches, that declares no properties. -/
def Unowned (obj : Map) : Prop :=
  ∃ names name, (mergeAllOf obj).1.get "required" = some (.array names) ∧ .string name ∈ names ∧
    ∀ properties, (mergeAllOf obj).1.get "properties" ≠ some (.object properties)

/-- Without properties the required names stay as they are. -/
theorem rewriteNode_required
    (h : ∀ properties, (mergeAllOf obj).1.get "properties" ≠ some (.object properties)) :
    (rewriteNode obj).1.get "required" = (mergeAllOf obj).1.get "required" := by
  rw [rewriteNode_fst, rewriteRefTarget_get (by decide), pruneRequired_of_properties,
    inferMissingType_get (by decide), foldTupleItems_get (by decide) (by decide),
    pushTypeIntoAnyOf_get (by decide) (by decide), branched,
    isolateRef_get (by decide) (by decide), splitTypeArray_get (by decide) (by decide),
    oneOfToAnyOf_get (by decide) (by decide), constToEnum_get (by decide) (by decide)]
  rw [inferMissingType_get (by decide), foldTupleItems_get (by decide) (by decide),
    pushTypeIntoAnyOf_get (by decide) (by decide), branched,
    isolateRef_get (by decide) (by decide), splitTypeArray_get (by decide) (by decide),
    oneOfToAnyOf_get (by decide) (by decide), constToEnum_get (by decide) (by decide)]
  exact h

/-- The properties of a node are an object as they were. -/
theorem walked_properties (h : ∀ properties, (walked obj).get "properties" ≠ some (.object properties))
    (properties : Map) : obj.get "properties" ≠ some (.object properties) := by
  intro hget
  refine h (properties.map fun e => (e.1, (flavorNode e.2).1)) ?_
  rw [get_walked, hget]
  simp [walkField, oneKeys, mapKeys]

/-- **When a rewritten node is in the subset.** -/
theorem flavored_walked_iff :
    Flavored (walked (rewriteNode obj).1) ↔ ¬ Brings obj "allOf" ∧ ¬ Unowned obj := by
  have hsettled := (rewriteNode_settled obj).walked
  have hproperties := @rewriteNode_get obj "properties" (by decide)
  constructor
  · intro h
    refine ⟨rewriteNode_allOf.mp ?_, ?_⟩
    · rw [← get_walked_of_ne (by decide)]
      exact h.allOf
    · rintro ⟨names, name, hnames, hname, hno⟩
      rw [← rewriteNode_required hno, ← get_walked_of_ne (by decide)] at hnames
      obtain ⟨properties, hp, -⟩ := h.required names name hnames hname
      obtain ⟨before, hbefore, -⟩ := properties_walked hp
      exact hno before (hproperties ▸ hbefore)
  · rintro ⟨hbrings, hunowned⟩
    refine ⟨?_, hsettled.oneOf, hsettled.const, hsettled.type, hsettled.items, hsettled.prefixItems,
      hsettled.anyOf, fun href e he => ?_, fun names name hnames hname => ?_, hsettled.target⟩
    · rw [get_walked_of_ne (by decide)]
      exact rewriteNode_allOf.mpr hbrings
    · have hlen := hsettled.reference href
      obtain ⟨v, hv⟩ := Option.isSome_iff_exists.mp href
      match hw : walked (rewriteNode obj).1 with
      | [] => simp [hw] at he
      | [x] =>
        rw [hw] at he hv
        rw [List.mem_singleton.mp he, ← List.mem_singleton.mp (Map.mem_of_get hv)]
      | _ :: _ :: _ => simp [hw] at hlen
    · by_contra hno
      have hnot (properties : Map) :
          (walked (rewriteNode obj).1).get "properties" ≠ some (.object properties) := fun hp =>
        hno ⟨properties, hp, by
          simpa [isKnown] using hsettled.required properties names hp hnames _ hname⟩
      have hmerged (properties : Map) :
          (mergeAllOf obj).1.get "properties" ≠ some (.object properties) :=
        hproperties ▸ walked_properties hnot properties
      rw [get_walked_of_ne (by decide), rewriteNode_required hmerged] at hnames
      exact hunowned ⟨names, name, hnames, hname, hmerged⟩

theorem definitionsToDefs_definitions (schema : Value) :
    (definitionsToDefs schema).1.get "definitions" = none := by
  unfold definitionsToDefs
  split
  · rename_i obj
    split
    · assumption
    · dsimp only
      split <;> simp [Map.get_set, Map.get_insert, Map.get_without]
  · rename_i hno
    cases schema with
    | object obj => exact absurd rfl (hno obj)
    | _ => rfl

/-- The root has no definitions unless a branch brings them. -/
theorem flavorSchema_definitions (schema : Value) :
    (flavorSchema schema).1.get "definitions" = none ↔
      ∀ obj, (definitionsToDefs schema).1 = .object obj → ¬ Brings obj "definitions" := by
  have hroot := definitionsToDefs_definitions schema
  change (flavorNode (definitionsToDefs schema).1).1.get "definitions" = none ↔ _
  cases hs : (definitionsToDefs schema).1 with
  | object obj =>
    rw [hs, Value.get_object] at hroot
    rw [flavorNode_fst, Value.get_object, get_walked_of_ne (by decide), rewriteNode_get (by decide),
      ← Option.not_isSome_iff_eq_none, mergeAllOf_isSome (by decide),
      get_without_of_ne (by decide), hroot]
    simp
  | _ => simp [flavorNode_of_not_object, Value.get]

/-- **When a schema is rewritten into the subset.** Every node of the result is flavored and the root
has no definitions exactly when the walk finds no node with an `allOf` below its `allOf`, no required
names without properties, and no definitions below the `allOf` of the root. -/
theorem flavored_iff (schema : Value) :
    ((∀ obj, Position (flavorSchema schema).1 (.object obj) → Flavored obj) ∧
        (flavorSchema schema).1.get "definitions" = none) ↔
      (∀ obj, Visited (definitionsToDefs schema).1 (.object obj) →
        ¬ Brings obj "allOf" ∧ ¬ Unowned obj) ∧
      ∀ obj, (definitionsToDefs schema).1 = .object obj → ¬ Brings obj "definitions" := by
  rw [flavorSchema_definitions]
  refine and_congr_left fun _ => ?_
  constructor
  · intro h obj hvisited
    refine flavored_walked_iff.mp (h _ ?_)
    exact position_flavorNode.mpr ⟨_, hvisited, (flavorNode_fst obj).symm⟩
  · intro h node hnode
    obtain ⟨found, hfound, heq⟩ := position_flavorNode.mp hnode
    cases found with
    | object obj =>
      rw [flavorNode_fst] at heq
      rw [Value.object.inj heq]
      exact flavored_walked_iff.mpr (h obj hfound)
    | _ =>
      rw [flavorNode_of_not_object (by simp)] at heq
      cases heq

/-- The merged branch brings an `allOf` of its own. -/
theorem flavored_residue :
    ¬ ∀ schema, (∀ obj, Position (flavorSchema schema).1 (.object obj) → Flavored obj) ∧
      (flavorSchema schema).1.get "definitions" = none := by
  intro h
  let typed : Value := .object [("type", .string "object")]
  let nested : Value := .object [("allOf", .array [typed])]
  have hresult : (flavorSchema (.object [("allOf", .array [nested])])).1 = nested := by decide
  have hroot : Position (flavorSchema (.object [("allOf", .array [nested])])).1 nested := by
    rw [hresult]
    exact .refl
  exact absurd ((h _).1 _ hroot).allOf (by decide)

/-! ## What the walk reports and changes -/

/-- A node that the walk leaves as it is. -/
def Conformant (obj : Map) : Prop := obj.get "allOf" = none ∧ Settled obj

theorem Settled.not_hasEmptyTuple (h : Settled obj) : ¬ HasEmptyTuple obj :=
  fun hempty => hempty.elim (h.prefixItems []) (h.items [])

theorem conformant_iff : Conformant obj ↔ Quiet obj ∧ ¬ HasEmptyTuple obj := by
  constructor
  · rintro ⟨hall, hsettled⟩
    have hempty := hsettled.not_hasEmptyTuple
    exact ⟨⟨hall, hsettled.reference, by rwa [dropEmpty_of_not hempty]⟩, hempty⟩
  · rintro ⟨hquiet, hempty⟩
    exact ⟨hquiet.allOf, dropEmpty_of_not hempty ▸ hquiet.settled⟩

theorem Conformant.rewriteNode_eq (h : Conformant obj) : rewriteNode obj = (obj, false) := by
  obtain ⟨hquiet, hempty⟩ := conformant_iff.mp h
  rw [hquiet.rewriteNode_eq, dropEmpty_of_not hempty]

theorem Conformant.children_eq (h : Conformant obj) :
    children (.object obj) = parts (.object obj) := by
  rw [children, parts, h.rewriteNode_eq]

theorem rewriteNode_false_iff : (rewriteNode obj).2 = false ↔ Quiet obj :=
  ⟨quiet_of_false, fun h => by rw [h.rewriteNode_eq]⟩

/-- A field reports what its subschemas report. -/
theorem walkField_false :
    (walkField flavorNode key value).2 = false ↔
      ∀ c ∈ subschemas key value, (flavorNode c).2 = false := by
  by_cases hone : key ∈ oneKeys
  · simp [subschemas, walkField, hone]
  · cases value with
    | array items =>
      obtain rfl | hany := eq_or_ne key "anyOf"
      · simp [subschemas, walkField, hone]
      · simp [subschemas, walkField, hone, hany]
    | object map =>
      by_cases hmap : key ∈ mapKeys
      · simp only [walkField, subschemas, if_neg hone, if_pos hmap, List.any_eq_false,
          List.forall_mem_map, Bool.not_eq_true]
      · simp [subschemas, walkField, hone, hmap]
    | _ => simp [subschemas, walkField, hone]

theorem flavorNode_false_object :
    (flavorNode (.object obj)).2 = false ↔
      Quiet obj ∧ ∀ c ∈ children (.object obj), (flavorNode c).2 = false := by
  rw [flavorNode_object, Bool.or_eq_false_iff, rewriteNode_false_iff, List.any_eq_false]
  simp only [Bool.not_eq_true, walkField_false, children, List.mem_flatMap, forall_exists_index,
    and_imp]
  exact and_congr_right fun _ => ⟨fun h c e he hc => h e he c hc, fun h e he c hc => h c e he hc⟩

/-- The first step of a walk. -/
theorem visited_iff {node : Value} :
    Visited schema node ↔ schema = node ∨ ∃ c ∈ children schema, Visited c node :=
  Relation.ReflTransGen.cases_head_iff

/-- **The walk reports nothing exactly when every node it visits is quiet.** -/
theorem flavorNode_false_iff :
    (flavorNode schema).2 = false ↔ ∀ obj, Visited schema (.object obj) → Quiet obj := by
  induction schema using schema_induction with
  | step schema ih =>
    cases schema with
    | object root =>
      rw [flavorNode_false_object]
      constructor
      · rintro ⟨hquiet, hchildren⟩ obj hvisited
        rcases visited_iff.mp hvisited with heq | ⟨c, hc, hvisited⟩
        · exact Value.object.inj heq ▸ hquiet
        · exact (ih c hc).mp (hchildren c hc) obj hvisited
      · intro h
        refine ⟨h root .refl, fun c hc => (ih c hc).mpr fun obj hvisited => ?_⟩
        exact h obj (visited_iff.mpr (.inr ⟨c, hc, hvisited⟩))
    | _ =>
      rw [flavorNode_of_not_object (by simp)]
      refine iff_of_true rfl fun obj hvisited => ?_
      rcases visited_iff.mp hvisited with heq | ⟨c, hc, -⟩
      · cases heq
      · cases hc

/-- A field is left as it is when its subschemas are. -/
theorem walkField_eq_self (h : ∀ c ∈ subschemas key value, (flavorNode c).1 = c) :
    (walkField flavorNode key value).1 = value := by
  rw [walkField_congr (g := fun c => (c, (flavorNode c).2)) fun c hc => Prod.ext (h c hc) rfl]
  unfold walkField
  split
  · rfl
  · split
    · split <;> simp
    · split <;> simp
    · rfl

theorem walked_eq_self (h : ∀ c ∈ parts (.object obj), (flavorNode c).1 = c) : walked obj = obj := by
  refine (List.map_congr_left fun e he => ?_).trans (List.map_id obj)
  rw [walkField_eq_self fun c hc => h c (List.mem_flatMap.mpr ⟨e, he, hc⟩)]
  rfl

theorem sizeOf_get {v : Value} (h : schema.get key = some v) : sizeOf v < sizeOf schema := by
  cases schema with
  | object obj =>
    have hmem := List.sizeOf_lt_of_mem (Map.mem_of_get h)
    simp only [Prod.mk.sizeOf_spec, Value.object.sizeOf_spec] at hmem ⊢
    omega
  | _ => cases h

/-- Merging leaves no `allOf` as it is: what a branch brings is smaller. -/
theorem allOf_of_merged (h : (mergeAllOf obj).1.get "allOf" = obj.get "allOf") :
    obj.get "allOf" = none := by
  by_contra hsome
  obtain ⟨v, hv⟩ := Option.ne_none_iff_exists'.mp hsome
  rw [hv, mergeAllOf_get (by decide), Map.get_without, if_pos (by decide), Option.none_or,
    Value.itemsAt_object, hv] at h
  obtain ⟨branch, hbranch, hget⟩ := List.exists_of_findSome?_eq_some h
  cases v with
  | array branches =>
    have hsize := sizeOf_get hget
    have hmem := List.sizeOf_lt_of_mem hbranch
    simp only [Option.bind_some, Value.asArray, Option.getD_some, Value.array.sizeOf_spec]
      at hsize hmem
    omega
  | _ => cases hbranch

/-- A root that is left as it is conforms. -/
theorem conformant_of_walked (h : walked (rewriteNode obj).1 = obj) : Conformant obj := by
  have hall : obj.get "allOf" = none := by
    refine allOf_of_merged ?_
    conv_rhs => rw [← h]
    rw [get_walked_of_ne (by decide), rewriteNode_get (by decide)]
  exact ⟨hall, h ▸ (rewriteNode_settled obj).walked⟩

/-- **The walk leaves a schema exactly when every node of it conforms**, and then reports nothing. -/
theorem flavorNode_fst_eq_iff :
    (flavorNode schema).1 = schema ↔ ∀ obj, Position schema (.object obj) → Conformant obj := by
  induction schema using schema_induction with
  | step schema ih =>
    cases schema with
    | object root =>
      rw [flavorNode_fst]
      constructor
      · intro h obj hposition
        have hwalked := Value.object.inj h
        have hroot := conformant_of_walked hwalked
        -- the subschemas are the rewritten ones, so each of them is left as it is
        have hparts := parts_flavorNode (.object root)
        rw [flavorNode_fst, h, ← hroot.children_eq] at hparts
        have hsame := List.map_inj_left.mp (hparts.symm.trans (List.map_id _).symm)
        rcases Relation.ReflTransGen.cases_head_iff.mp hposition with heq | ⟨c, hc, hposition⟩
        · exact Value.object.inj heq ▸ hroot
        · rw [← hroot.children_eq] at hc
          exact (ih c hc).mp (hsame c hc) obj hposition
      · intro h
        have hroot := h root .refl
        rw [hroot.rewriteNode_eq, walked_eq_self]
        intro c hc
        refine (ih c (hroot.children_eq ▸ hc)).mpr fun obj hposition => ?_
        exact h obj (.head hc hposition)
    | _ =>
      rw [flavorNode_of_not_object (by simp)]
      refine iff_of_true rfl fun obj hposition => ?_
      rcases Relation.ReflTransGen.cases_head_iff.mp hposition with heq | ⟨c, hc, -⟩
      · cases heq
      · cases hc

/-- In a conforming schema the walk visits the nodes where they stand. -/
theorem visited_of_conformant (h : ∀ obj, Position schema (.object obj) → Conformant obj)
    {node : Value} (hvisited : Visited schema node) : Position schema node := by
  induction hvisited with
  | refl => exact .refl
  | @tail found c _ hc ih =>
    cases found with
    | object obj => exact ih.tail ((h obj ih).children_eq ▸ hc)
    | _ => cases hc

theorem position_of_conformant (h : ∀ obj, Visited schema (.object obj) → Conformant obj)
    {node : Value} (hposition : Position schema node) : Visited schema node := by
  induction hposition with
  | refl => exact .refl
  | @tail found c _ hc ih =>
    cases found with
    | object obj => exact ih.tail ((h obj ih).children_eq ▸ hc)
    | _ => cases hc

theorem conformant_visited_iff :
    (∀ obj, Position schema (.object obj) → Conformant obj) ↔
      ∀ obj, Visited schema (.object obj) → Conformant obj :=
  ⟨fun h obj hvisited => h obj (visited_of_conformant h hvisited),
    fun h obj hposition => h obj (position_of_conformant h hposition)⟩

/-- **A rewritten schema is left by a second walk** unless a merged branch brought an `allOf`. -/
theorem flavorNode_again_iff :
    (flavorNode (flavorNode schema).1).1 = (flavorNode schema).1 ↔
      ∀ obj, Visited schema (.object obj) → ¬ Brings obj "allOf" := by
  rw [flavorNode_fst_eq_iff]
  constructor
  · intro h obj hvisited
    have hnode := h _ (position_flavorNode.mpr ⟨_, hvisited, (flavorNode_fst obj).symm⟩)
    rw [← rewriteNode_allOf, ← get_walked_of_ne (by decide)]
    exact hnode.1
  · intro h node hnode
    obtain ⟨found, hfound, heq⟩ := position_flavorNode.mp hnode
    cases found with
    | object obj =>
      rw [flavorNode_fst] at heq
      rw [Value.object.inj heq]
      refine ⟨?_, (rewriteNode_settled obj).walked⟩
      rw [get_walked_of_ne (by decide)]
      exact rewriteNode_allOf.mpr (h obj hfound)
    | _ =>
      rw [flavorNode_of_not_object (by simp)] at heq
      cases heq

/-! ## Whole schemas -/

theorem definitionsToDefs_of_none (h : schema.get "definitions" = none) :
    definitionsToDefs schema = (schema, false) := by
  cases schema with
  | object obj =>
    rw [Value.get_object] at h
    simp only [definitionsToDefs, h]
  | _ => rfl

/-- Definitions that move are reported; the `allOf` of the root stays. -/
theorem definitionsToDefs_object (obj : Map) :
    ∃ moved : Map, (definitionsToDefs (.object obj)).1 = .object moved ∧
      moved.get "allOf" = obj.get "allOf" ∧
      ((definitionsToDefs (.object obj)).2 = false ↔ obj.get "definitions" = none) := by
  unfold definitionsToDefs
  dsimp only
  split
  · rename_i hnone
    exact ⟨obj, rfl, rfl, by simp [hnone]⟩
  · rename_i defs hdefs
    split
    · refine ⟨_, rfl, ?_, by simp [hdefs]⟩
      rw [get_set_of_ne (by decide), get_without_of_ne (by decide)]
    · exact ⟨_, rfl, get_without_of_ne (by decide), by simp [hdefs]⟩
    · refine ⟨_, rfl, ?_, by simp [hdefs]⟩
      rw [get_insert_of_ne (by decide), get_without_of_ne (by decide)]

theorem definitionsToDefs_false_iff (schema : Value) :
    (definitionsToDefs schema).2 = false ↔ schema.get "definitions" = none := by
  cases schema with
  | object obj => exact (definitionsToDefs_object obj).choose_spec.2.2
  | _ => simp [definitionsToDefs, Value.get]

/-- **What the rewrite reports.** -/
theorem flavorSchema_false_iff :
    (flavorSchema schema).2 = false ↔
      schema.get "definitions" = none ∧ ∀ obj, Visited schema (.object obj) → Quiet obj := by
  change ((definitionsToDefs schema).2 || (flavorNode (definitionsToDefs schema).1).2) = false ↔ _
  rw [Bool.or_eq_false_iff, definitionsToDefs_false_iff]
  refine and_congr_right fun hnone => ?_
  rw [definitionsToDefs_of_none hnone, flavorNode_false_iff]

/-- **The rewrite leaves a schema exactly when it has no definitions and all its nodes conform.** -/
theorem flavorSchema_fst_eq_iff :
    (flavorSchema schema).1 = schema ↔
      schema.get "definitions" = none ∧ ∀ obj, Position schema (.object obj) → Conformant obj := by
  have hnode (hnone : schema.get "definitions" = none) :
      (flavorSchema schema).1 = (flavorNode schema).1 := by
    change (flavorNode (definitionsToDefs schema).1).1 = _
    rw [definitionsToDefs_of_none hnone]
  constructor
  · intro h
    have hnone : schema.get "definitions" = none := by
      conv_lhs => rw [← h]
      rw [flavorSchema_definitions]
      rintro moved hmoved
      cases schema with
      | object obj =>
        obtain ⟨moved', hmoved', hall, -⟩ := definitionsToDefs_object obj
        obtain rfl : moved' = moved := Value.object.inj (hmoved'.symm.trans hmoved)
        -- the root kept its `allOf`, so it has none
        change (flavorNode (definitionsToDefs (.object obj)).1).1 = _ at h
        rw [hmoved, flavorNode_fst] at h
        have hmerged : (mergeAllOf moved').1.get "allOf" = Map.get moved' "allOf" := by
          rw [hall, ← Value.object.inj h, get_walked_of_ne (by decide), rewriteNode_get (by decide)]
        rintro ⟨branch, hbranch, -⟩
        rw [Value.itemsAt_object, allOf_of_merged hmerged] at hbranch
        cases hbranch
      | _ => cases hmoved
    exact ⟨hnone, flavorNode_fst_eq_iff.mp ((hnode hnone).symm.trans h)⟩
  · rintro ⟨hnone, h⟩
    exact (hnode hnone).trans (flavorNode_fst_eq_iff.mpr h)

/-- A schema that is left as it is reports nothing. -/
theorem flavorSchema_eq_iff : flavorSchema schema = (schema, false) ↔ (flavorSchema schema).1 = schema := by
  refine ⟨fun h => by rw [h], fun h => Prod.ext h (flavorSchema_false_iff.mpr ?_)⟩
  obtain ⟨hnone, hposition⟩ := flavorSchema_fst_eq_iff.mp h
  exact ⟨hnone, fun obj hvisited =>
    (conformant_iff.mp (conformant_visited_iff.mp hposition obj hvisited)).1⟩

/-- **When a second rewrite changes nothing and the flag is exact.** -/
theorem flavorSchema_again_iff (schema : Value) :
    (flavorSchema (flavorSchema schema).1 = ((flavorSchema schema).1, false) ∧
        ((flavorSchema schema).2 = false ↔ (flavorSchema schema).1 = schema)) ↔
      (∀ obj, Visited (definitionsToDefs schema).1 (.object obj) → ¬ Brings obj "allOf") ∧
      (∀ obj, (definitionsToDefs schema).1 = .object obj → ¬ Brings obj "definitions") ∧
      ¬ (schema.get "definitions" = none ∧ (∀ obj, Visited schema (.object obj) → Quiet obj) ∧
        ∃ obj, Visited schema (.object obj) ∧ HasEmptyTuple obj) := by
  rw [← and_assoc]
  refine and_congr ?_ ?_
  · rw [flavorSchema_eq_iff, flavorSchema_fst_eq_iff, flavorSchema_definitions, and_comm]
    refine and_congr_left fun _ => ?_
    rw [← flavorNode_fst_eq_iff]
    exact flavorNode_again_iff
  · rw [flavorSchema_false_iff, flavorSchema_fst_eq_iff, conformant_visited_iff]
    simp only [conformant_iff]
    constructor
    · rintro h ⟨hnone, hquiet, obj, hvisited, hempty⟩
      exact ((h.mp ⟨hnone, hquiet⟩).2 obj hvisited).2 hempty
    · intro h
      constructor
      · rintro ⟨hnone, hquiet⟩
        exact ⟨hnone, fun obj hvisited =>
          ⟨hquiet obj hvisited, fun hempty => h ⟨hnone, hquiet, obj, hvisited, hempty⟩⟩⟩
      · rintro ⟨hnone, hconformant⟩
        exact ⟨hnone, fun obj hvisited => (hconformant obj hvisited).1⟩

/-- An empty tuple goes without a report. -/
theorem flavorSchema_unreported :
    ¬ ∀ schema, flavorSchema (flavorSchema schema).1 = ((flavorSchema schema).1, false) ∧
      ((flavorSchema schema).2 = false ↔ (flavorSchema schema).1 = schema) := by
  intro h
  have hflag := (h (.object [("items", .array []), ("type", .string "array")])).2
  exact absurd hflag (by decide)

/-! ## Chat and batch -/

/-- The schema of a structured response. -/
def responseSchema (req : ChatRequest) : Option Value :=
  (Value.object req.extra).path ["response_format", "json_schema", "schema"]

/-- `chat` rewrites the schema of the response. -/
theorem responseSchema_chat (req : ChatRequest) :
    responseSchema (chat req) = (responseSchema req).map fun schema => (flavorSchema schema).1 := by
  simp only [responseSchema, chat, Value.path_cons, Value.get_object]
  cases hget : req.extra.get "response_format" with
  | none => simp [hget]
  | some format =>
    rw [Map.get_set, if_pos rfl, Option.bind_some, Option.bind_some]
    exact Value.path_modifyAt format ["json_schema", "schema"] _

/-- **When chat and batch send the same schemas.** An item of a batch carries the schemas that `chat`
sends for its request exactly when the schema of its response, if there is one, needs no rewrite. -/
theorem batch_schemas_iff {spec : BatchSpec} {k : ℕ} {item : BatchItem}
    (hitem : spec.items[k]? = some item) :
    ∃ given, (batchCreate spec).items[k]? = some given ∧
      ((given.request.tools.map ToolDef.parameters =
            (chat item.request).tools.map ToolDef.parameters ∧
          responseSchema given.request = responseSchema (chat item.request)) ↔
        ∀ schema, responseSchema item.request = some schema →
          schema.get "definitions" = none ∧
          ∀ obj, Position schema (.object obj) → Conformant obj) := by
  refine ⟨_, by rw [batchCreate, List.getElem?_map, hitem]; rfl, ?_⟩
  have hkeep : responseSchema
      { item.request with tools := flavorTools item.request.tools } = responseSchema item.request := rfl
  rw [hkeep, responseSchema_chat]
  refine (and_iff_right rfl).trans ?_
  cases responseSchema item.request with
  | none => simp
  | some schema =>
    rw [Option.map_some, Option.some_inj, eq_comm, flavorSchema_fst_eq_iff]
    simp

/-- A request whose response is to follow a schema. -/
def structured (schema : Value) : ChatRequest where
  model := "kimi"
  messages := []
  maxTokens := none
  temperature := none
  topP := none
  stop := []
  stream := false
  tools := []
  toolChoice := none
  thinking := none
  extra := [("response_format", .object [("json_schema", .object [("schema", schema)])])]

theorem batch_schemas_iff_one :
    ∃ given, (batchCreate ⟨[⟨"a", structured (.object [])⟩]⟩).items[0]? = some given ∧
      ((given.request.tools.map ToolDef.parameters =
            (chat (structured (.object []))).tools.map ToolDef.parameters ∧
          responseSchema given.request = responseSchema (chat (structured (.object [])))) ↔
        ∀ schema, responseSchema (structured (.object [])) = some schema →
          schema.get "definitions" = none ∧
          ∀ obj, Position schema (.object obj) → Conformant obj) :=
  batch_schemas_iff (rfl : (BatchSpec.mk [⟨"a", structured (.object [])⟩]).items[0]? =
    some (BatchItem.mk "a" (structured (.object []))))

/-- A batch keeps the schema that `chat` rewrites. -/
theorem batch_keeps_const :
    ¬ ∀ (spec : BatchSpec) (k : ℕ) (item given : BatchItem), spec.items[k]? = some item →
      (batchCreate spec).items[k]? = some given →
      given.request.tools.map ToolDef.parameters =
          (chat item.request).tools.map ToolDef.parameters ∧
        responseSchema given.request = responseSchema (chat item.request) := by
  intro h
  let item : BatchItem := ⟨"a", structured (.object [("const", .null)])⟩
  exact absurd (h ⟨[item]⟩ 0 item item rfl rfl).2 (by decide)

end Llmleaf.Moonshot
