import Llmleaf.Providers.MoonshotWidens

/-!
# What a merged node accepts

The branches of `allOf` are merged field by field. The properties, the patterns and the required
names are united; of every other key the first value stays, and is judged beside the fields that
others brought.

- `Merges`: what a field is judged by comes along with it; then the merged node accepts what the
  node accepted (`mergeAllOf_meets`).
- `Survives`: no field is lost; then it refuses what the node refused (`mergeAllOf_fails`).
-/

namespace Llmleaf.Moonshot

open JsonSchema

/-- The fields of a schema that is a node. -/
def asNode : Value → Option Map
  | .object obj => some obj
  | _ => none

/-- The branches of `allOf` that are nodes. -/
def branchesOf (obj : Map) : List Map := ((Value.object obj).itemsAt ["allOf"]).filterMap asNode

/-- Where the fields of a merged node come from. -/
def sources (obj : Map) : List Map := obj.without ["allOf"] :: branchesOf obj

/-- Where the field of a key comes from. -/
def source (obj : Map) (key : String) : Option Map :=
  (sources obj).find? fun S => (S.get key).isSome

variable {D : Dialect} {refs : String → Value → Option Bool} {obj : Map} {x : Value} {key : String}

theorem mem_branchesOf {branch : Map} :
    branch ∈ branchesOf obj ↔ .object branch ∈ (Value.object obj).itemsAt ["allOf"] := by
  rw [branchesOf, List.mem_filterMap]
  constructor
  · rintro ⟨v, hv, heq⟩
    cases v <;> cases heq
    exact hv
  · exact fun h => ⟨_, h, rfl⟩

/-- **Merging goes through the fields of the branches in order.** -/
theorem mergeAllOf_eq (obj : Map) :
    (mergeAllOf obj).1 = (branchesOf obj).flatten.foldl mergeField (obj.without ["allOf"]) := by
  have hfold : ∀ (branches : List Value) (node : Map), branches.foldl mergeBranch node =
      (branches.filterMap asNode).flatten.foldl mergeField node := by
    intro branches
    induction branches with
    | nil => exact fun _ => rfl
    | cons branch branches ih =>
      intro node
      rw [List.foldl_cons, ih]
      cases branch with
      | object branch =>
        have hnode : asNode (.object branch) = some branch := rfl
        rw [List.filterMap_cons_some hnode, List.flatten_cons, List.foldl_append]
        rfl
      | _ => rfl
  rw [branchesOf, Value.itemsAt_object]
  unfold mergeAllOf
  split
  · rename_i hnone
    rw [hnone, Map.without_of_none hnone]
    rfl
  · rename_i branches hsome
    rw [hsome]
    exact hfold branches _
  · rename_i v hno hsome
    rw [hsome]
    cases v with
    | array branches => exact absurd rfl (hno branches)
    | _ => rfl

/-! ## United fields -/

/-- The keys whose fields are united. -/
def unitedKeys : List String := ["properties", "patternProperties", "required"]

theorem all_orInsertAll {existing moved : Map} {f : String × Value → Option Bool}
    (h : Kleene.all (existing.map f) = some true) (h' : Kleene.all (moved.map f) = some true) :
    Kleene.all ((Map.orInsertAll existing moved).map f) = some true := by
  rw [Kleene.all_eq_true, List.forall_mem_map] at h h' ⊢
  exact fun e he => (Map.mem_orInsertAll he).elim (h e) (h' e)

theorem mem_unite {names moved : List Value} {name : Value}
    (h : name ∈ moved.foldl
      (fun names name => if name ∈ names then names else names ++ [name]) names) :
    name ∈ names ∨ name ∈ moved := by
  induction moved generalizing names with
  | nil => exact .inl h
  | cons n moved ih =>
    rw [List.foldl_cons] at h
    rcases ih h with h | h
    · split at h
      · exact .inl h
      · rcases List.mem_append.mp h with h | h
        · exact .inl h
        · exact .inr (List.mem_singleton.mp h ▸ List.mem_cons_self)
    · exact .inr (List.mem_cons_of_mem _ h)

/-- A united field rests on no other. -/
theorem field_united {obj obj' : Map} (hkey : key ∈ unitedKeys) (h : obj'.get key = obj.get key) :
    field D (judge D refs) refs obj' x key = field D (judge D refs) refs obj x key := by
  refine field_congr h fun kw hkw near hnear => ?_
  simp only [unitedKeys, List.mem_cons, List.not_mem_nil, or_false] at hkey
  rcases hkey with rfl | rfl | rfl <;> cases hkw <;> cases hnear

/-- **Two united fields that are met are met together.** -/
theorem mergeField_united {e : String × Value} (hkey : key ∈ unitedKeys)
    (h : field D (judge D refs) refs obj x key = some true)
    (he : e.1 = key → field D (judge D refs) refs [e] x key = some true) :
    field D (judge D refs) refs (mergeField obj e) x key = some true := by
  obtain ⟨name, value⟩ := e
  by_cases hname : name = key
  · subst hname
    have hsingle : Map.get [(name, value)] name = some value := by simp [Map.get_cons]
    replace he := he rfl
    simp only [unitedKeys, List.mem_cons, List.not_mem_nil, or_false] at hkey
    unfold mergeField
    dsimp only
    split
    · have hget : (obj.insert name value).get name = Map.get [(name, value)] name := by
        rw [Map.get_insert, if_pos rfl, hsingle]
      rw [field_united (by simpa [unitedKeys] using hkey) hget]
      exact he
    · rename_i existing hexisting
      split
      · rename_i existing moved
        rcases hkey with rfl | rfl | rfl
        · rw [field_eq .properties rfl hexisting] at h
          rw [field_eq .properties rfl hsingle] at he
          rw [if_pos (by decide), field_eq .properties rfl (by rw [Map.get_set, if_pos rfl])]
          exact all_orInsertAll h he
        · rw [field_eq .patternProperties rfl hexisting] at h
          rw [field_eq .patternProperties rfl hsingle] at he
          rw [if_pos (by decide), field_eq .patternProperties rfl (by rw [Map.get_set, if_pos rfl])]
          exact all_orInsertAll h he
        · rw [if_neg (by decide)]
          exact h
      · rename_i existing moved
        rcases hkey with rfl | rfl | rfl
        · rw [if_neg (by decide)]
          exact h
        · rw [if_neg (by decide)]
          exact h
        · rw [field_eq .required rfl hexisting] at h
          rw [field_eq .required rfl hsingle] at he
          rw [if_pos rfl, field_eq .required rfl (by rw [Map.get_set, if_pos rfl])]
          have hexisting : requires existing x = some true := h
          have hmoved : requires moved x = some true := he
          show requires _ x = some true
          rw [requires_eq_true] at hexisting hmoved ⊢
          exact fun name hname => (mem_unite hname).elim (hexisting name) (hmoved name)
      · exact h
  · rw [field_united hkey (mergeField_get_of_ne (Ne.symm hname))]
    exact h

theorem merged_united {entries : Map} (hkey : key ∈ unitedKeys)
    (h : field D (judge D refs) refs obj x key = some true)
    (hentries : ∀ e ∈ entries, e.1 = key → field D (judge D refs) refs [e] x key = some true) :
    field D (judge D refs) refs (entries.foldl mergeField obj) x key = some true := by
  induction entries generalizing obj with
  | nil => exact h
  | cons e entries ih =>
    rw [List.forall_mem_cons] at hentries
    exact ih (mergeField_united hkey h hentries.1) hentries.2

/-! ## The names a merged node speaks of -/

/-- Is a name one of the map of schemas under a key? -/
def Speaks (obj : Map) (key name : String) : Prop := (Map.get (mapAt obj key) name).isSome = true

theorem speaks_congr {obj obj' : Map} {name : String} (h : obj'.get key = obj.get key) :
    Speaks obj' key name ↔ Speaks obj key name := by
  rw [Speaks, Speaks, mapAt, mapAt, h]

/-- What is met under the key of a map is a map. -/
theorem object_of_met (hkey : key ∈ ["properties", "patternProperties"])
    (h : field D (judge D refs) refs obj x key = some true) {v : Value} (hv : obj.get key = some v) :
    ∃ m, v = .object m := by
  simp only [List.mem_cons, List.not_mem_nil, or_false] at hkey
  rcases hkey with rfl | rfl
  · rw [field_eq .properties rfl hv] at h
    cases v with
    | object m => exact ⟨m, rfl⟩
    | _ => cases h
  · rw [field_eq .patternProperties rfl hv] at h
    cases v with
    | object m => exact ⟨m, rfl⟩
    | _ => cases h

/-- A name stays, and a field brings its own. -/
theorem mergeField_speaks {e : String × Value} {name : String}
    (hkey : key ∈ ["properties", "patternProperties"])
    (h : field D (judge D refs) refs obj x key = some true)
    (hname : Speaks obj key name ∨ ∃ m, e = (key, .object m) ∧ (Map.get m name).isSome = true) :
    Speaks (mergeField obj e) key name := by
  obtain ⟨k, value⟩ := e
  by_cases hk : k = key
  · subst hk
    unfold mergeField
    split
    · rename_i hnone
      rcases hname with hname | ⟨m, heq, hm⟩
      · rw [Speaks, mapAt, hnone] at hname
        cases hname
      · cases heq
        rw [Speaks, mapAt, Map.get_insert, if_pos rfl]
        exact hm
    · rename_i existing hexisting
      obtain ⟨old, rfl⟩ := object_of_met hkey h hexisting
      have hunited : k = "properties" ∨ k = "patternProperties" := by simpa using hkey
      cases value with
      | object moved =>
        dsimp only
        rw [if_pos hunited, Speaks, mapAt, Map.get_set, if_pos rfl]
        dsimp only
        rw [Map.get_orInsertAll, Option.isSome_or, Bool.or_eq_true]
        rcases hname with hname | ⟨m, heq, hm⟩
        · rw [Speaks, mapAt, hexisting] at hname
          exact .inl hname
        · cases heq
          exact .inr hm
      | _ =>
        refine hname.elim id ?_
        rintro ⟨m, heq, -⟩
        cases heq
  · rw [speaks_congr (mergeField_get_of_ne (Ne.symm hk))]
    refine hname.resolve_right ?_
    rintro ⟨m, heq, -⟩
    cases heq
    exact hk rfl

theorem united_of_map (hkey : key ∈ ["properties", "patternProperties"]) : key ∈ unitedKeys := by
  simp only [List.mem_cons, List.not_mem_nil, or_false] at hkey
  rcases hkey with rfl | rfl <;> decide

theorem merged_speaks {entries : Map} {name : String}
    (hkey : key ∈ ["properties", "patternProperties"])
    (h : field D (judge D refs) refs obj x key = some true)
    (hentries : ∀ e ∈ entries, e.1 = key → field D (judge D refs) refs [e] x key = some true)
    (hname : Speaks obj key name ∨
      ∃ m, (key, .object m) ∈ entries ∧ (Map.get m name).isSome = true) :
    Speaks (entries.foldl mergeField obj) key name := by
  induction entries generalizing obj with
  | nil =>
    refine hname.resolve_right ?_
    rintro ⟨m, hm, -⟩
    cases hm
  | cons e entries ih =>
    rw [List.forall_mem_cons] at hentries
    refine ih (mergeField_united (united_of_map hkey) h hentries.1) hentries.2 ?_
    rcases hname with hname | ⟨m, hm, hname⟩
    · exact .inl (mergeField_speaks hkey h (.inl hname))
    · rcases List.mem_cons.mp hm with heq | hm
      · exact .inl (mergeField_speaks hkey h (.inr ⟨m, heq.symm, hname⟩))
      · exact .inr ⟨m, hm, hname⟩

/-! ## Merged nodes that are met -/

/-- What the fields of a merged node are judged by comes along with them. -/
structure Merges (obj : Map) : Prop where
  sorted : ∀ branch ∈ branchesOf obj, Map.Sorted branch
  cond : ∀ S, source obj "if" = some S →
    ∀ near ∈ ["then", "else"], (mergeAllOf obj).1.get near = S.get near
  items : ∀ S, source obj "items" = some S → prefixCount S ≤ prefixCount (mergeAllOf obj).1
  additionalItems : ∀ S, source obj "additionalItems" = some S →
    (∀ xs, (mergeAllOf obj).1.get "items" ≠ some (.array xs)) ∨
      (mergeAllOf obj).1.get "items" = S.get "items"
  contains : ∀ S, source obj "contains" = some S →
    ∀ near ∈ ["minContains", "maxContains"], (mergeAllOf obj).1.get near = S.get near

/-- Without `allOf` there is nothing to merge. -/
theorem merges_of_none (h : obj.get "allOf" = none) : Merges obj := by
  have hbranches : branchesOf obj = [] := by
    rw [branchesOf, Value.itemsAt_object, h]
    rfl
  have hmerged : (mergeAllOf obj).1 = obj := by rw [mergeAllOf, h]
  have hsource : ∀ {key S}, source obj key = some S → S = obj := by
    intro key S hS
    have hmem := List.mem_of_find?_eq_some hS
    rw [sources, hbranches, Map.without_of_none h] at hmem
    exact List.mem_singleton.mp hmem
  refine ⟨by simp [hbranches], ?_, ?_, ?_, ?_⟩ <;> intro S hS <;> rw [hsource hS, hmerged]
  · exact fun _ _ => rfl
  · exact .inr rfl
  · exact fun _ _ => rfl

theorem sources_met (h : Meets D refs obj x) : ∀ S ∈ sources obj, Meets D refs S x := by
  intro S hS
  rcases List.mem_cons.mp hS with rfl | hS
  · exact h.without "allOf" (by decide)
  · rw [mem_branchesOf, Value.itemsAt_object] at hS
    cases hall : obj.get "allOf" with
    | none => simp [hall] at hS
    | some v =>
      obtain ⟨branches, rfl, hbranches⟩ := h.allOf hall
      have hmem : .object S ∈ branches := by simpa [hall, Value.asArray] using hS
      exact judge_iff_meets.mp (hbranches _ hmem)

theorem branches_united (h : Meets D refs obj x)
    (hsorted : ∀ branch ∈ branchesOf obj, Map.Sorted branch) (hkey : key ∈ unitedKeys) :
    ∀ e ∈ (branchesOf obj).flatten, e.1 = key →
      field D (judge D refs) refs [e] x key = some true := by
  rintro e he rfl
  obtain ⟨branch, hbranch, he⟩ := List.mem_flatten.mp he
  have hget := (hsorted branch hbranch).get_of_mem he
  have hsingle : Map.get [e] e.1 = some e.2 := by simp [Map.get_cons]
  rw [field_united hkey (hsingle.trans hget.symm)]
  exact sources_met h branch (List.mem_cons_of_mem _ hbranch) e.1

/-- The names a source speaks of, the merged node speaks of. -/
theorem speaks_merged (h : Meets D refs obj x)
    (hsorted : ∀ branch ∈ branchesOf obj, Map.Sorted branch)
    (hkey : key ∈ ["properties", "patternProperties"]) {S : Map} (hS : S ∈ sources obj)
    {name : String} (hname : Speaks S key name) : Speaks (mergeAllOf obj).1 key name := by
  rw [mergeAllOf_eq]
  refine merged_speaks hkey (sources_met h _ List.mem_cons_self key)
    (branches_united h hsorted (united_of_map hkey)) ?_
  rcases List.mem_cons.mp hS with rfl | hbranch
  · exact .inl hname
  · right
    unfold Speaks mapAt at hname
    split at hname
    · rename_i m hm
      exact ⟨m, List.mem_flatten.mpr ⟨S, hbranch, Map.mem_of_get hm⟩, hname⟩
    · cases hname

theorem covers_iff {name : String} : covers D obj name = true ↔
    Speaks obj "properties" name ∨
      ∃ pattern, Speaks obj "patternProperties" pattern ∧ D.isMatch pattern name = true := by
  simp only [covers, Bool.or_eq_true, List.any_eq_true, decide_eq_true_eq, Speaks,
    Map.isSome_get_iff]
  refine or_congr Iff.rfl ?_
  constructor
  · rintro ⟨p, hp, hmatch⟩
    exact ⟨p.1, ⟨p, hp, rfl⟩, hmatch⟩
  · rintro ⟨_, ⟨p, hp, rfl⟩, hmatch⟩
    exact ⟨p, hp, hmatch⟩

/-- A field that is not united comes from its source. -/
theorem source_of_get (hkey : key ∉ unitedKeys) {v : Value}
    (hv : (mergeAllOf obj).1.get key = some v) :
    ∃ S ∈ sources obj, source obj key = some S ∧ S.get key = some v := by
  have hfind : (source obj key).bind (fun S => S.get key) = some v := by
    rw [mergeAllOf_get hkey] at hv
    rw [← hv, source, sources, List.find?_cons]
    cases hbase : (obj.without ["allOf"]).get key with
    | some w => simp [hbase]
    | none =>
      rw [Option.none_or, branchesOf]
      induction (Value.object obj).itemsAt ["allOf"] with
      | nil => rfl
      | cons branch branches ih =>
        rw [List.findSome?_cons]
        cases branch with
        | object branch =>
          have hnode : asNode (.object branch) = some branch := rfl
          rw [List.filterMap_cons_some hnode, List.find?_cons, Value.get_object]
          cases hget : Map.get branch key with
          | some w => simp [hget]
          | none => simpa [hget] using ih
        | _ => exact ih
  obtain ⟨S, hS, hget⟩ := Option.bind_eq_some_iff.mp hfind
  exact ⟨S, List.mem_of_find?_eq_some hS, hS, hget⟩

/-- **A merged node is met by what met the node.** -/
theorem mergeAllOf_meets (h : Meets D refs obj x) (hmerges : Merges obj) :
    Meets D refs (mergeAllOf obj).1 x := by
  intro key
  by_cases hkey : key ∈ unitedKeys
  · rw [mergeAllOf_eq]
    exact merged_united hkey (sources_met h _ List.mem_cons_self key)
      (branches_united h hmerges.sorted hkey)
  · cases hv : (mergeAllOf obj).1.get key with
    | none => exact field_none hv
    | some v =>
      obtain ⟨S, hS, hsource, hget⟩ := source_of_get hkey hv
      have hmet := sources_met h S hS key
      cases hkw : Keyword.ofKey key with
      | none =>
        rw [field_congr (hv.trans hget.symm) (by simp [hkw])]
        exact hmet
      | some kw =>
        rw [field_eq kw hkw hget] at hmet
        rw [field_eq kw hkw hv]
        cases kw with
        | cond =>
          obtain rfl := Keyword.key_of_ofKey hkw (by decide)
          have hnear : ∀ near ∈ neighbours .cond, (mergeAllOf obj).1.get near = S.get near :=
            hmerges.cond S hsource
          rw [keyword_congr hnear]
          exact hmet
        | additionalProperties =>
          refine Kleene.all_keeps (fun m _ hm => ?_) hmet
          by_cases hcovers : covers D S m.1 = true
          · rw [if_pos (covers_iff.mpr ((covers_iff.mp hcovers).imp ?_ ?_))]
            · exact speaks_merged h hmerges.sorted (by decide) hS
            · rintro ⟨pattern, hpattern, hmatch⟩
              exact ⟨pattern, speaks_merged h hmerges.sorted (by decide) hS hpattern, hmatch⟩
          · rw [if_neg hcovers] at hm
            split
            · rfl
            · exact hm
        | items =>
          obtain rfl := Keyword.key_of_ofKey hkw (by decide)
          by_cases htuple : ∃ xs, v = .array xs
          · obtain ⟨xs, rfl⟩ := htuple
            exact hmet
          · rw [items_schema fun xs hxs => htuple ⟨xs, hxs⟩, Kleene.all_eq_true,
              List.forall_mem_map] at hmet ⊢
            exact fun y hy => hmet y (List.drop_subset_drop_left _ (hmerges.items S hsource) hy)
        | additionalItems =>
          obtain rfl := Keyword.key_of_ofKey hkw (by decide)
          rcases hmerges.additionalItems S hsource with hschema | hsame
          · exact additionalItems_schema hschema
          · rw [keyword_congr (by simpa [neighbours] using hsame)]
            exact hmet
        | contains =>
          obtain rfl := Keyword.key_of_ofKey hkw (by decide)
          have hnear : ∀ near ∈ neighbours .contains, (mergeAllOf obj).1.get near = S.get near :=
            hmerges.contains S hsource
          rw [keyword_congr hnear]
          exact hmet
        | _ =>
          rw [keyword_congr (by simp [neighbours])]
          exact hmet

/-! ## Merged nodes that fail -/

/-- Merging loses no field, nor what one is judged by. -/
structure Survives (obj : Map) : Prop where
  branches : .bool false ∉ (Value.object obj).itemsAt ["allOf"]
  kept : ∀ S ∈ sources obj, ∀ key, (S.get key).isSome = true →
    (mergeAllOf obj).1.get key = S.get key ∧ ∀ kw, Keyword.ofKey key = some kw →
      ∀ near ∈ neighbours kw, (mergeAllOf obj).1.get near = S.get near

/-- **A merged node fails where the node failed.** -/
theorem mergeAllOf_fails (h : Fails D refs obj x) (hsurvives : Survives obj) :
    Fails D refs (mergeAllOf obj).1 x := by
  -- a field that fails is one of a source
  have hsource : ∃ S ∈ sources obj, Fails D refs S x := by
    obtain ⟨key, hfalse⟩ := h
    by_cases hkey : key = "allOf"
    · subst hkey
      cases hall : obj.get "allOf" with
      | none => exact Fails.absurd_none hall hfalse
      | some v =>
        rw [field_eq .allOf rfl hall] at hfalse
        cases v with
        | array branches =>
          obtain ⟨b, hb, hjudge⟩ := List.mem_map.mp (Kleene.all_eq_false.mp hfalse)
          have hmem : b ∈ (Value.object obj).itemsAt ["allOf"] := by
            simpa [hall, Value.asArray] using hb
          cases b with
          | object branch =>
            exact ⟨branch, List.mem_cons_of_mem _ (mem_branchesOf.mpr hmem),
              judge_iff_fails.mp hjudge⟩
          | bool b =>
            cases hjudge
            exact absurd hmem hsurvives.branches
          | _ =>
            rw [judge_other (by simp) (by simp)] at hjudge
            cases hjudge
        | _ => cases hfalse
    · refine ⟨_, List.mem_cons_self, key, ?_⟩
      rw [field_congr (get_without_of_ne hkey) fun kw _ near hnear => get_without_of_ne ?_]
      · exact hfalse
      · rintro rfl
        exact absurd (neighbours_subset kw hnear) (by decide)
  obtain ⟨S, hS, key, hfalse⟩ := hsource
  cases hvalue : S.get key with
  | none => exact Fails.absurd_none hvalue hfalse
  | some v =>
    obtain ⟨hsame, hnear⟩ := hsurvives.kept S hS key (by rw [hvalue]; rfl)
    exact ⟨key, (field_congr hsame hnear).trans hfalse⟩

end Llmleaf.Moonshot
