import Llmleaf.Providers.Moonshot

/-!
# The rules of a node

The local rules of `rewriteNode` run once, in a fixed order.

- `Settled`: no rule but the merging of `allOf` has anything to do; `rewriteNode_settled` says that
  this is so after the rules, since none brings back what an earlier one took away.
- `Quiet`: no rule reports a change (`quiet_of_false`); such a node only loses its empty tuples
  (`Quiet.rewriteNode_eq`).
-/

namespace Llmleaf.Moonshot

/-! ## Settled nodes -/

/-- No rule but the merging of `allOf` applies to the node. -/
structure Settled (obj : Map) : Prop where
  const : obj.get "const" = none
  oneOf : obj.get "oneOf" = none
  type : ∀ types, obj.get "type" ≠ some (.array types)
  reference : (obj.get "$ref").isSome → obj.length ≤ 1
  anyOf : (obj.get "anyOf").isSome → obj.get "type" = none
  prefixItems : ∀ xs, obj.get "prefixItems" ≠ some (.array xs)
  items : ∀ xs, obj.get "items" ≠ some (.array xs)
  inferred : declares obj = true ∨ inferredType obj = none
  required : ∀ properties names, obj.get "properties" = some (.object properties) →
    obj.get "required" = some (.array names) → ∀ name ∈ names, isKnown properties name = true
  target : ∀ reference, obj.get "$ref" = some (.string reference) →
    Strings.stripPrefix reference "#/definitions/" = none

/-- Take a list without schemas out of the node. -/
def dropAt (obj : Map) (key : String) : Map :=
  if obj.get key = some (.array []) then obj.without [key] else obj

/-- The node without its empty tuples. -/
def dropEmpty (obj : Map) : Map := dropAt (dropAt obj "prefixItems") "items"

/-- A node at which no rule reports a change; an empty tuple goes without a report. -/
structure Quiet (obj : Map) : Prop where
  allOf : obj.get "allOf" = none
  reference : (obj.get "$ref").isSome → obj.length ≤ 1
  settled : Settled (dropEmpty obj)

/-- A node with a tuple of no schemas. -/
def HasEmptyTuple (obj : Map) : Prop :=
  obj.get "prefixItems" = some (.array []) ∨ obj.get "items" = some (.array [])

variable {obj : Map}

theorem dropAt_of_ne {key : String} (h : obj.get key ≠ some (.array [])) : dropAt obj key = obj :=
  if_neg h

theorem dropAt_get {key name : String} (h : key ≠ name) : (dropAt obj name).get key = obj.get key := by
  unfold dropAt
  split
  · exact get_without_of_ne h
  · rfl

theorem dropEmpty_get {key : String} (hp : key ≠ "prefixItems") (hi : key ≠ "items") :
    (dropEmpty obj).get key = obj.get key := (dropAt_get hi).trans (dropAt_get hp)

theorem dropEmpty_of_not (h : ¬ HasEmptyTuple obj) : dropEmpty obj = obj := by
  rw [dropEmpty, dropAt_of_ne fun hp => h (.inl hp), dropAt_of_ne fun hi => h (.inr hi)]

theorem takeList_of_nil {key : String} (h : ∀ x xs, obj.get key ≠ some (.array (x :: xs))) :
    takeList obj key = (dropAt obj key, []) := by
  unfold takeList
  split
  · rename_i xs hget
    cases xs with
    | nil => rw [dropAt, if_pos hget]
    | cons x xs => exact absurd hget (h x xs)
  · rename_i hno
    rw [dropAt_of_ne (hno [])]

theorem takeItems_of_nil (h : ∀ x xs, obj.get "items" ≠ some (.array (x :: xs))) :
    takeItems obj [] = (dropAt obj "items", []) := by
  unfold takeItems
  split
  · rename_i xs hget
    cases xs with
    | nil => rw [dropAt, if_pos hget, List.append_nil]
    | cons x xs => exact absurd hget (h x xs)
  · rename_i items hno hget
    rw [dropAt_of_ne (by rw [hget]; exact fun h => hno [] (Option.some.inj h)), if_pos rfl]
  · rename_i hget
    rw [dropAt_of_ne (by simp [hget])]

/-- Without schemas in its tuples a node only loses the empty ones. -/
theorem foldTupleItems_of_nil (hp : ∀ x xs, obj.get "prefixItems" ≠ some (.array (x :: xs)))
    (hi : ∀ x xs, obj.get "items" ≠ some (.array (x :: xs))) :
    foldTupleItems obj = (dropEmpty obj, false) := by
  have hitems : takeItems (dropAt obj "prefixItems") [] = (dropEmpty obj, []) :=
    takeItems_of_nil fun x xs => by rw [dropAt_get (by decide)]; exact hi x xs
  simp only [foldTupleItems, takeList_of_nil hp, hitems, if_true]

/-- A list of schemas under a key is not dropped. -/
theorem not_list_of_dropAt {key : String} (h : ∀ xs, (dropAt obj key).get key ≠ some (.array xs))
    (x : Value) (xs : List Value) : obj.get key ≠ some (.array (x :: xs)) := by
  intro hget
  have hdrop : dropAt obj key = obj := dropAt_of_ne (by simp [hget])
  exact h (x :: xs) (by rw [hdrop, hget])

theorem Settled.foldTupleItems_eq (h : Settled (dropEmpty obj)) :
    foldTupleItems obj = (dropEmpty obj, false) := by
  refine foldTupleItems_of_nil (not_list_of_dropAt fun xs => ?_) fun x xs => ?_
  · rw [← @dropAt_get (dropAt obj "prefixItems") _ "items" (by decide)]
    exact h.prefixItems xs
  · rw [← @dropAt_get obj _ "prefixItems" (by decide)]
    exact not_list_of_dropAt h.items x xs

theorem pruneRequired_of_known (h : ∀ properties names,
    obj.get "properties" = some (.object properties) → obj.get "required" = some (.array names) →
      ∀ name ∈ names, isKnown properties name = true) : pruneRequired obj = (obj, false) := by
  unfold pruneRequired
  split
  · rename_i properties required hproperties hrequired
    have hkept : required.filter (isKnown properties) = required :=
      List.filter_eq_self.mpr (h properties required hproperties hrequired)
    simp only [hkept]
    split
    · rename_i hempty
      exact absurd hempty.1 hempty.2
    · rfl
  · rfl

/-- **A quiet node only loses its empty tuples**, and no rule reports it. -/
theorem Quiet.rewriteNode_eq (h : Quiet obj) : rewriteNode obj = (dropEmpty obj, false) := by
  have hs := h.settled
  have hget {key : String} (hp : key ≠ "prefixItems") (hi : key ≠ "items") :=
    @dropEmpty_get obj _ hp hi
  have hmerge : mergeAllOf obj = (obj, false) := by rw [mergeAllOf, h.allOf]
  have hconst : constToEnum obj = (obj, false) := by
    rw [constToEnum, ← hget (by decide) (by decide), hs.const]
  have hone : oneOfToAnyOf obj = (obj, false) := by
    rw [oneOfToAnyOf, ← hget (by decide) (by decide), hs.oneOf]
  have htype : splitTypeArray obj = (obj, false) := by
    unfold splitTypeArray
    rw [← hget (by decide) (by decide)]
    split
    · exact absurd ‹_› (hs.type _)
    · exact absurd ‹_› (hs.type _)
    · rfl
  have href : isolateRef obj = (obj, false) := by
    unfold isolateRef
    split
    · rfl
    · rename_i hsome
      rw [if_pos (h.reference (by rw [hsome]; rfl))]
  have hany : pushTypeIntoAnyOf obj = (obj, false) := by
    unfold pushTypeIntoAnyOf
    rw [← hget (by decide) (by decide), ← hget (by decide) (by decide)]
    split
    · rename_i hany htype
      cases (hs.anyOf (by rw [hany]; rfl)).symm.trans htype
    · rename_i hany htype
      cases (hs.anyOf (by rw [hany]; rfl)).symm.trans htype
    · rfl
  have hfold := hs.foldTupleItems_eq
  have hinfer : inferMissingType (dropEmpty obj) = (dropEmpty obj, false) := by
    unfold inferMissingType
    rcases hs.inferred with hdecl | hinf
    · rw [if_pos hdecl]
    · rw [hinf]
      split <;> rfl
  have hprune := pruneRequired_of_known hs.required
  have htarget : rewriteRefTarget (dropEmpty obj) = (dropEmpty obj, false) := by
    unfold rewriteRefTarget
    split
    · rename_i reference href
      rw [hs.target reference href]
    · rfl
  simp only [rewriteNode, Rule.andThen, hmerge, hconst, hone, htype, href, hany, hfold, hinfer,
    hprune, htarget, Bool.or_false]

/-! ## What the rules establish -/

theorem constToEnum_const : (constToEnum obj).1.get "const" = none := by
  unfold constToEnum
  split
  · assumption
  · simp [Map.get_insert, Map.get_without]

theorem oneOfToAnyOf_oneOf : (oneOfToAnyOf obj).1.get "oneOf" = none := by
  unfold oneOfToAnyOf
  split
  · assumption
  · dsimp only
    split <;> simp [Map.get_set, Map.get_insert, Map.get_without]

/-- A reference that stays has no keys beside it. -/
theorem isolateRef_reference :
    (isolateRef obj).1.get "$ref" = none ∨ (isolateRef obj).1.length ≤ 1 := by
  unfold isolateRef
  split
  · exact .inl ‹_›
  · split
    · exact .inr ‹_›
    · left
      dsimp only
      split <;> simp [Map.get_set, Map.get_without]

theorem pushTypeIntoAnyOf_type :
    (pushTypeIntoAnyOf obj).1.get "anyOf" = none ∨ (pushTypeIntoAnyOf obj).1.get "type" = none := by
  unfold pushTypeIntoAnyOf
  split
  · simp [Map.get_set, Map.get_without]
  · simp [Map.get_without]
  · rename_i hlist hno
    cases hany : obj.get "anyOf" with
    | none => exact .inl rfl
    | some anyOf =>
      cases htype : obj.get "type" with
      | none => exact .inr rfl
      | some ty => exact absurd htype (hno anyOf ty hany)

/-- The type stays or is gone. -/
theorem pushTypeIntoAnyOf_keeps : (pushTypeIntoAnyOf obj).1.get "type" = none ∨
    (pushTypeIntoAnyOf obj).1.get "type" = obj.get "type" := by
  unfold pushTypeIntoAnyOf
  split
  · simp [Map.get_set, Map.get_without]
  · simp [Map.get_without]
  · exact .inr rfl

theorem takeList_list {key : String} (xs : List Value) :
    (takeList obj key).1.get key ≠ some (.array xs) := by
  unfold takeList
  split
  · simp [Map.get_without]
  · rename_i h
    exact h xs

theorem foldTupleItems_prefixItems (xs : List Value) :
    (foldTupleItems obj).1.get "prefixItems" ≠ some (.array xs) := by
  simp only [foldTupleItems]
  split
  · rw [takeItems_get (by decide)]
    exact takeList_list xs
  · rw [get_insert_of_ne (by decide), takeItems_get (by decide)]
    exact takeList_list xs

theorem takeItems_items {prefixes : List Value} (xs : List Value) :
    (takeItems obj prefixes).1.get "items" ≠ some (.array xs) := by
  unfold takeItems
  split
  · simp [Map.get_without]
  · rename_i items hno hget
    split
    · rw [hget]
      exact fun h => hno xs (Option.some.inj h)
    · simp [Map.get_without]
  · rename_i hget
    simp [hget]

theorem foldTupleItems_items (xs : List Value) :
    (foldTupleItems obj).1.get "items" ≠ some (.array xs) := by
  simp only [foldTupleItems]
  split
  · exact takeItems_items xs
  · simp [Map.get_insert]

/-- A node without a type has nothing to infer one from, and was left as it is. -/
theorem inferMissingType_inferred :
    declares (inferMissingType obj).1 = true ∨
      (inferMissingType obj).1 = obj ∧ inferredType obj = none := by
  unfold inferMissingType
  split
  · exact .inl ‹_›
  · split
    · left
      simp [declares, Map.get_insert]
    · exact .inr ⟨rfl, ‹_›⟩

/-- The type stays, or a node without branches gets the name of one. -/
theorem inferMissingType_type : (inferMissingType obj).1.get "type" = obj.get "type" ∨
    obj.get "anyOf" = none ∧ ∃ ty, (inferMissingType obj).1.get "type" = some (.string ty) := by
  unfold inferMissingType
  split
  · exact .inl rfl
  · rename_i hdecl
    split
    · refine .inr ⟨?_, _, by rw [Map.get_insert, if_pos rfl]⟩
      simp only [declares, List.any_cons, List.any_nil, Bool.or_false, Bool.or_eq_true,
        not_or] at hdecl
      simpa using hdecl.2.1
    · exact .inl rfl

theorem pruneRequired_required {properties : Map} {names : List Value}
    (hp : (pruneRequired obj).1.get "properties" = some (.object properties))
    (hr : (pruneRequired obj).1.get "required" = some (.array names)) :
    ∀ name ∈ names, isKnown properties name = true := by
  rw [pruneRequired_get (by decide)] at hp
  unfold pruneRequired at hr
  rw [hp] at hr
  cases hreq : obj.get "required" with
  | none => simp [hreq] at hr
  | some required =>
    cases required with
    | array required =>
      simp only [hreq] at hr
      split at hr
      · simp [Map.get_without] at hr
      · split at hr
        · rename_i hlen
          obtain rfl : required = names := by simpa [hreq] using hr
          exact List.filter_eq_self.mp (List.filter_sublist.eq_of_length hlen)
        · obtain rfl : required.filter (isKnown properties) = names := by
            simpa [Map.get_set] using hr
          exact fun name hname => (List.mem_filter.mp hname).2
    | _ => simp [hreq] at hr

/-- A node with properties has the type of an object. -/
theorem properties_of_inferredType (h : inferredType obj = none) : obj.get "properties" = none := by
  unfold inferredType at h
  dsimp only at h
  split at h
  · cases h
  · rename_i hno
    simp only [List.any_cons, Bool.or_eq_true, not_or] at hno
    simpa using hno.1

/-- A node that declares no properties keeps its required names. -/
theorem pruneRequired_of_properties (h : ∀ properties, obj.get "properties" ≠ some (.object properties)) :
    pruneRequired obj = (obj, false) := by
  unfold pruneRequired
  split
  · exact absurd ‹_› (h _)
  · rfl

theorem rewriteRefTarget_of_none (h : obj.get "$ref" = none) :
    rewriteRefTarget obj = (obj, false) := by
  rw [rewriteRefTarget, h]

/-- A node that is a reference of its own, or has none. -/
theorem branched_cases (obj : Map) :
    (branched obj).get "$ref" = none ∨ ∃ reference, branched obj = [("$ref", reference)] := by
  rcases @isolateRef_reference ((splitTypeArray (oneOfToAnyOf (constToEnum
    (mergeAllOf obj).1).1).1).1) with h | h
  · exact .inl h
  · change (branched obj).length ≤ 1 at h
    match hb : branched obj with
    | [] => exact .inl rfl
    | [(key, value)] =>
      by_cases hkey : key = "$ref"
      · exact .inr ⟨value, by rw [hkey]⟩
      · exact .inl (by simp [Map.get_cons, hkey])
    | _ :: _ :: _ => simp [hb] at h

theorem settled_reference {target : Value}
    (h : ∀ text, target = .string text → Strings.stripPrefix text "#/definitions/" = none) :
    Settled [("$ref", target)] := by
  constructor <;> simp_all [Map.get_cons, declares]

/-- What the rules between the merging and the last leave of a key. -/
theorem rewriteNode_get {key : String}
    (h : key ∉ ["const", "enum", "oneOf", "anyOf", "type", "$ref", "prefixItems", "items",
      "required"]) :
    (rewriteNode obj).1.get key = (mergeAllOf obj).1.get key := by
  simp only [List.mem_cons, List.not_mem_nil, or_false, not_or] at h
  obtain ⟨hc, he, ho, ha, ht, href, hp, hi, hr⟩ := h
  rw [rewriteNode_fst, rewriteRefTarget_get href, pruneRequired_get hr, inferMissingType_get ht,
    foldTupleItems_get hp hi, pushTypeIntoAnyOf_get ht ha, branched, isolateRef_get href ha,
    splitTypeArray_get ht ha, oneOfToAnyOf_get ho ha, constToEnum_get hc he]

/-- **After the rules of a node none of them applies again**, but for what merging brought. -/
theorem rewriteNode_settled (obj : Map) : Settled (rewriteNode obj).1 := by
  rcases branched_cases obj with href | ⟨reference, hb⟩
  · -- no rule after the isolation adds a reference
    rw [rewriteNode_fst]
    generalize hnode : branched obj = node at href
    have hconst : node.get "const" = none := by
      rw [← hnode, branched, isolateRef_get (by decide) (by decide),
        splitTypeArray_get (by decide) (by decide), oneOfToAnyOf_get (by decide) (by decide)]
      exact constToEnum_const
    have hone : node.get "oneOf" = none := by
      rw [← hnode, branched, isolateRef_get (by decide) (by decide),
        splitTypeArray_get (by decide) (by decide)]
      exact oneOfToAnyOf_oneOf
    have htype (types : List Value) : node.get "type" ≠ some (.array types) := hnode ▸ branched_type types
    clear hnode
    have href : (pruneRequired (inferMissingType (foldTupleItems
        (pushTypeIntoAnyOf node).1).1).1).1.get "$ref" = none := by
      rw [pruneRequired_get (by decide), inferMissingType_get (by decide),
        foldTupleItems_get (by decide) (by decide), pushTypeIntoAnyOf_get (by decide) (by decide)]
      exact href
    rw [rewriteRefTarget_of_none href]
    exact {
      const := by
        rw [pruneRequired_get (by decide), inferMissingType_get (by decide),
          foldTupleItems_get (by decide) (by decide), pushTypeIntoAnyOf_get (by decide) (by decide),
          hconst]
      oneOf := by
        rw [pruneRequired_get (by decide), inferMissingType_get (by decide),
          foldTupleItems_get (by decide) (by decide), pushTypeIntoAnyOf_get (by decide) (by decide),
          hone]
      type := by
        intro types
        rw [pruneRequired_get (by decide)]
        rcases @inferMissingType_type (foldTupleItems (pushTypeIntoAnyOf node).1).1
          with h | ⟨-, ty, h⟩
        · rw [h, foldTupleItems_get (by decide) (by decide)]
          rcases @pushTypeIntoAnyOf_keeps node with h | h
          · simp [h]
          · exact h ▸ htype types
        · simp [h]
      reference := by simp [href]
      anyOf := by
        intro hany
        rw [pruneRequired_get (by decide), inferMissingType_get (by decide)] at hany
        rw [pruneRequired_get (by decide)]
        rcases @inferMissingType_type (foldTupleItems (pushTypeIntoAnyOf node).1).1
          with h | ⟨h, -⟩
        · rw [foldTupleItems_get (by decide) (by decide)] at hany
          rw [h, foldTupleItems_get (by decide) (by decide)]
          exact pushTypeIntoAnyOf_type.resolve_left (Option.isSome_iff_ne_none.mp hany)
        · simp [h] at hany
      prefixItems := by
        intro xs
        rw [pruneRequired_get (by decide), inferMissingType_get (by decide)]
        exact foldTupleItems_prefixItems xs
      items := by
        intro xs
        rw [pruneRequired_get (by decide), inferMissingType_get (by decide)]
        exact foldTupleItems_items xs
      inferred := by
        rcases @inferMissingType_inferred (foldTupleItems (pushTypeIntoAnyOf node).1).1
          with h | ⟨h, hnone⟩
        · left
          simp only [declares, List.any_cons, List.any_nil] at h ⊢
          rwa [pruneRequired_get (by decide), pruneRequired_get (by decide),
            pruneRequired_get (by decide)]
        · right
          rw [h, pruneRequired_of_properties]
          · exact hnone
          · rw [properties_of_inferredType hnone]
            intro properties hproperties
            cases hproperties
      required := fun properties names => pruneRequired_required
      target := by simp [href] }
  · obtain ⟨target, htarget, hno⟩ := rewriteRefTarget_reference reference
    rw [rewriteNode_fst, hb, rewrite_reference, htarget]
    exact settled_reference hno

/-! ## What a rule reports -/

theorem Rule.andThen_false {r t : Rule} :
    (r.andThen t obj).2 = false ↔ (r obj).2 = false ∧ (t (r obj).1).2 = false := by
  simp [Rule.andThen]

theorem mergeAllOf_false (h : (mergeAllOf obj).2 = false) :
    obj.get "allOf" = none ∧ (mergeAllOf obj).1 = obj := by
  unfold mergeAllOf at h ⊢
  split at h
  · rename_i hget
    simp [hget]
  · cases h
  · cases h

theorem constToEnum_false (h : (constToEnum obj).2 = false) : (constToEnum obj).1 = obj := by
  unfold constToEnum at h ⊢
  split at h
  · rfl
  · cases h

theorem oneOfToAnyOf_false (h : (oneOfToAnyOf obj).2 = false) : (oneOfToAnyOf obj).1 = obj := by
  unfold oneOfToAnyOf at h ⊢
  split at h
  · rfl
  · dsimp only at h
    split at h <;> cases h

theorem splitTypeArray_false (h : (splitTypeArray obj).2 = false) : (splitTypeArray obj).1 = obj := by
  unfold splitTypeArray at h ⊢
  split at h
  · cases h
  · dsimp only at h
    split at h <;> cases h
  · rfl

theorem isolateRef_false (h : (isolateRef obj).2 = false) :
    (isolateRef obj).1 = obj ∧ ((obj.get "$ref").isSome → obj.length ≤ 1) := by
  unfold isolateRef at h ⊢
  split at h
  · rename_i hget
    simp [hget]
  · split at h
    · rename_i hlen
      simp [hlen]
    · dsimp only at h
      split at h <;> cases h

theorem pushTypeIntoAnyOf_false (h : (pushTypeIntoAnyOf obj).2 = false) :
    (pushTypeIntoAnyOf obj).1 = obj := by
  unfold pushTypeIntoAnyOf at h ⊢
  split at h
  · cases h
  · cases h
  · rfl

theorem foldTupleItems_false (h : (foldTupleItems obj).2 = false) :
    (foldTupleItems obj).1 = dropEmpty obj := by
  have hbranches : (takeItems (takeList obj "prefixItems").1 (takeList obj "prefixItems").2).2 = [] := by
    by_contra hne
    simp [foldTupleItems, hne] at h
  have hp (x : Value) (xs : List Value) : obj.get "prefixItems" ≠ some (.array (x :: xs)) := by
    intro hget
    have hlist : (takeList obj "prefixItems").2 = x :: xs := by rw [takeList, hget]
    rw [hlist, takeItems] at hbranches
    split at hbranches <;> simp at hbranches
  rw [takeList_of_nil hp] at hbranches
  have hi (x : Value) (xs : List Value) : obj.get "items" ≠ some (.array (x :: xs)) := by
    intro hget
    rw [takeItems, dropAt_get (by decide), hget] at hbranches
    simp at hbranches
  rw [foldTupleItems_of_nil hp hi]

theorem inferMissingType_false (h : (inferMissingType obj).2 = false) :
    (inferMissingType obj).1 = obj := by
  unfold inferMissingType at h ⊢
  split
  · rfl
  · rename_i hdecl
    rw [if_neg hdecl] at h
    split at h
    · cases h
    · rfl

theorem pruneRequired_false (h : (pruneRequired obj).2 = false) : (pruneRequired obj).1 = obj := by
  unfold pruneRequired at h ⊢
  split at h
  · dsimp only at h ⊢
    split at h
    · cases h
    · rename_i hsome
      rw [if_neg hsome]
      split at h
      · rename_i hlen
        rw [if_pos hlen]
      · cases h
  · rfl

theorem rewriteRefTarget_false (h : (rewriteRefTarget obj).2 = false) :
    (rewriteRefTarget obj).1 = obj := by
  unfold rewriteRefTarget at h ⊢
  split at h
  · split at h
    · cases h
    · rfl
  · rfl

/-- **A node at which no rule reports a change is quiet.** -/
theorem quiet_of_false (h : (rewriteNode obj).2 = false) : Quiet obj := by
  have hsettled := rewriteNode_settled obj
  rw [rewriteNode_fst, branched] at hsettled
  simp only [rewriteNode, Rule.andThen_false] at h
  obtain ⟨hmerge, hconst, hone, htype, href, hany, hfold, hinfer, hprune, htarget⟩ := h
  obtain ⟨hall, hmerge⟩ := mergeAllOf_false hmerge
  rw [hmerge] at hconst hone htype href hany hfold hinfer hprune htarget hsettled
  rw [constToEnum_false hconst] at hone htype href hany hfold hinfer hprune htarget hsettled
  rw [oneOfToAnyOf_false hone] at htype href hany hfold hinfer hprune htarget hsettled
  rw [splitTypeArray_false htype] at href hany hfold hinfer hprune htarget hsettled
  obtain ⟨href, halone⟩ := isolateRef_false href
  rw [href] at hany hfold hinfer hprune htarget hsettled
  rw [pushTypeIntoAnyOf_false hany] at hfold hinfer hprune htarget hsettled
  rw [foldTupleItems_false hfold] at hinfer hprune htarget hsettled
  rw [inferMissingType_false hinfer] at hprune htarget hsettled
  rw [pruneRequired_false hprune] at htarget hsettled
  rw [rewriteRefTarget_false htarget] at hsettled
  exact ⟨hall, halone, hsettled⟩

end Llmleaf.Moonshot
