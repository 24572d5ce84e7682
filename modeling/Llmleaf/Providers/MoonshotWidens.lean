import Llmleaf.JsonSchema
import Llmleaf.Providers.MoonshotSubset

/-!
# What a rewritten node accepts

Each local rule by itself: when it accepts what the node accepted (`Meets`), and when it still
refuses what the node refused (`Fails`), as it must below `not` and `if`.

- `Covered`: a tuple of which no element goes unjudged; `foldTupleItems_meets`.
- `Pinned`: a node whose type is no news; `inferMissingType_meets`.
- `Tight`: a node of which the rules take nothing away.
- **Results**: `ruled_meets` and `ruled_fails`, all the rules after the merging of `allOf`.
-/

namespace Llmleaf.Moonshot

open JsonSchema

section

variable {D : Dialect} {refs : String → Value → Option Bool} {obj : Map} {x : Value}

/-! ## Rules that only widen -/

theorem constToEnum_meets (h : Meets D refs obj x) : Meets D refs (constToEnum obj).1 x := by
  unfold constToEnum
  split
  · exact h
  · rename_i c hc
    have hconst : keyword D (judge D refs) refs obj .const c x = some true := h.met _ rfl hc
    refine (h.without _ (by decide)).insert .enum rfl (by decide) ?_
    show some ([c].any fun v => equal v x) = some true
    rw [List.any_cons, List.any_nil, Bool.or_false]
    exact hconst

theorem oneOfToAnyOf_meets (h : Meets D refs obj x) : Meets D refs (oneOfToAnyOf obj).1 x := by
  unfold oneOfToAnyOf
  split
  · exact h
  · rename_i oneOf hone
    obtain ⟨moved, rfl, b, hb, hjudge⟩ := h.oneOf hone
    have hrest := h.without "oneOf" (by decide)
    dsimp only
    split
    · rename_i existing moved' hexisting hmoved
      cases hmoved
      exact hrest.set .anyOf rfl (by decide) (anyOf_met (List.mem_append_right _ hb) hjudge)
    · exact hrest
    · exact hrest.insert .anyOf rfl (by decide) (anyOf_met hb hjudge)

theorem splitTypeArray_meets (h : Meets D refs obj x) : Meets D refs (splitTypeArray obj).1 x := by
  unfold splitTypeArray
  split
  · rename_i single htype
    obtain ⟨ty, hty, hhas⟩ := typed_array (h.type htype)
    cases List.mem_singleton.mp hty
    exact h.set .type rfl (by decide) (congrArg some hhas)
  · rename_i types _ htype
    obtain ⟨ty, hty, hhas⟩ := typed_array (h.type htype)
    have hrest := h.without "type" (by decide)
    dsimp only
    split
    · refine hrest.insert .anyOf rfl (by decide) (anyOf_met
        (List.mem_map.mpr ⟨.string ty, List.mem_filter.mpr ⟨hty, rfl⟩, rfl⟩) ?_)
      rw [judge_type, hhas]
    · exact hrest
  · exact h

theorem isolateRef_meets (h : Meets D refs obj x) : Meets D refs (isolateRef obj).1 x := by
  unfold isolateRef
  split
  · exact h
  · rename_i reference href
    split
    · exact h
    · have hrest := h.without "$ref" (by decide)
      have hjudge : judge D refs (.object [("$ref", reference)]) x = some true := by
        rw [judge_single rfl]
        have hmet : keyword D (judge D refs) refs obj .ref reference x = some true :=
          h.met _ rfl href
        cases reference with
        | string r => exact hmet
        | _ => cases hmet
      dsimp only
      split
      · exact hrest.set .anyOf rfl (by decide) (anyOf_met (by simp) hjudge)
      · exact hrest.set .anyOf rfl (by decide) (anyOf_met (by simp) hjudge)

theorem judge_pushType {ty b : Value} (hty : typed ty x = some true)
    (hb : judge D refs b x = some true) : judge D refs (pushType ty b) x = some true := by
  cases b with
  | object branch =>
    rw [pushType]
    split
    · exact hb
    · rw [judge_iff_meets] at hb ⊢
      unfold Map.orInsert
      split
      · exact hb
      · exact hb.insert .type rfl (by decide) hty
  | _ => exact hb

theorem pushTypeIntoAnyOf_meets (h : Meets D refs obj x) :
    Meets D refs (pushTypeIntoAnyOf obj).1 x := by
  unfold pushTypeIntoAnyOf
  split
  · rename_i branches ty hany htype
    have htyped := h.type htype
    obtain ⟨_, heq, b, hb, hjudge⟩ := h.anyOf hany
    cases heq
    refine (h.without "type" (by decide)).set .anyOf rfl (by decide) ?_
    exact anyOf_met (List.mem_map_of_mem hb) (judge_pushType htyped hjudge)
  · exact h.without _ (by decide)
  · exact h

theorem branched_meets (h : Meets D refs (mergeAllOf obj).1 x) : Meets D refs (branched obj) x :=
  isolateRef_meets (splitTypeArray_meets (oneOfToAnyOf_meets (constToEnum_meets h)))

/-- Fewer names are required. -/
theorem pruneRequired_meets (h : Meets D refs obj x) : Meets D refs (pruneRequired obj).1 x := by
  unfold pruneRequired
  split
  · rename_i properties required _ hrequired
    have hmet : requires required x = some true := h.met .required rfl hrequired
    dsimp only
    split
    · exact h.without "required" (by decide)
    · split
      · exact h
      · refine h.set .required rfl (by decide) ?_
        show requires _ x = some true
        have hsub : required.filter (isKnown properties) ⊆ required := List.filter_subset_self _
        rw [requires_eq_true] at hmet ⊢
        exact fun name hname => hmet name (hsub hname)
  · exact h

/-! ## Tuples -/

/-- The list under a key; none if it is no list. -/
def tupleAt (obj : Map) (key : String) : List Value := (takeList obj key).2

theorem tupleAt_of_array {key : String} {xs : List Value} (h : obj.get key = some (.array xs)) :
    tupleAt obj key = xs := by
  rw [tupleAt, takeList, h]

theorem tupleAt_of_not_array {key : String} (h : ∀ xs, obj.get key ≠ some (.array xs)) :
    tupleAt obj key = [] := by
  unfold tupleAt takeList
  split
  · exact absurd ‹_› (h _)
  · rfl

theorem prefixCount_eq : prefixCount obj = (tupleAt obj "prefixItems").length := by
  unfold prefixCount
  split
  · rw [tupleAt_of_array ‹_›]
  · rename_i hno
    rw [tupleAt_of_not_array hno, List.length_nil]

/-- The branches that the schemas of a tuple become. -/
def tupleBranches (obj : Map) : List Value :=
  (takeItems (takeList obj "prefixItems").1 (tupleAt obj "prefixItems")).2

theorem items_takeList : (takeList obj "prefixItems").1.get "items" = obj.get "items" :=
  takeList_get (by decide)

theorem tupleBranches_of_array {xs : List Value} (h : obj.get "items" = some (.array xs)) :
    tupleBranches obj = tupleAt obj "prefixItems" ++ xs := by
  rw [tupleBranches, takeItems, items_takeList, h]

theorem tupleBranches_of_schema {s : Value} (h : obj.get "items" = some s)
    (hs : ∀ xs, s ≠ .array xs) :
    tupleBranches obj =
      if tupleAt obj "prefixItems" = [] then [] else tupleAt obj "prefixItems" ++ [s] := by
  rw [tupleBranches, takeItems, items_takeList, h]
  split
  · rename_i xs heq
    exact absurd (Option.some.inj heq) (hs xs)
  · rename_i items _ heq
    cases heq
    split
    · assumption
    · rfl
  · rename_i heq
    cases heq

theorem tupleBranches_of_none (h : obj.get "items" = none) :
    tupleBranches obj = tupleAt obj "prefixItems" := by
  rw [tupleBranches, takeItems, items_takeList, h]

/-- The branches are the schemas of the prefix, and what `items` adds. -/
theorem tupleBranches_cases (obj : Map) :
    (∃ xs, obj.get "items" = some (.array xs) ∧
        tupleBranches obj = tupleAt obj "prefixItems" ++ xs) ∨
      (∃ s, obj.get "items" = some s ∧ (∀ xs, s ≠ .array xs) ∧ tupleBranches obj =
        if tupleAt obj "prefixItems" = [] then [] else tupleAt obj "prefixItems" ++ [s]) ∨
      (obj.get "items" = none ∧ tupleBranches obj = tupleAt obj "prefixItems") := by
  cases hitems : obj.get "items" with
  | none => exact .inr (.inr ⟨rfl, tupleBranches_of_none hitems⟩)
  | some s =>
    cases s with
    | array xs => exact .inl ⟨xs, rfl, tupleBranches_of_array hitems⟩
    | _ => exact .inr (.inl ⟨_, rfl, by simp, tupleBranches_of_schema hitems (by simp)⟩)

/-- The elements behind a tuple have a schema, or there are none, or a branch accepts them all. -/
inductive Covered (obj : Map) : Prop where
  | noTuple (hfront : tupleAt obj "prefixItems" = []) (htuple : tupleAt obj "items" = [])
  | schema (s : Value) (hitems : obj.get "items" = some s) (hs : ∀ xs, s ≠ .array xs)
  | bounded (v : Value) (n : ℕ) (hmax : obj.get "maxItems" = some v) (hn : natural v = some n)
      (hle : n ≤ max (tupleAt obj "prefixItems").length (tupleAt obj "items").length)
  | closed (xs : List Value) (hitems : obj.get "items" = some (.array xs))
      (hadditional : obj.get "additionalItems" = some (.bool false))
  | free (s : Value) (hs : s ∈ tupleBranches obj) (hall : s = .bool true ∨ s = .object [])

/-- A tuple judges its elements. -/
theorem zip_met {V : Value → Value → Option Bool} {tuple ys : List Value}
    (h : Kleene.all ((tuple.zip ys).map fun p => V p.1 p.2) = some true) {i : ℕ}
    (hi : i < tuple.length) (hy : i < ys.length) : V tuple[i] ys[i] = some true := by
  rw [Kleene.all_eq_true, List.forall_mem_map] at h
  refine h (tuple[i], ys[i]) ?_
  refine List.mem_iff_getElem.mpr ⟨i, ?_, List.getElem_zip⟩
  rw [List.length_zip]
  omega

/-- The schemas of a tuple judge the elements they stand for. -/
theorem tupleAt_met (h : Meets D refs obj x) {key : String}
    (hkey : key = "prefixItems" ∨ key = "items") {i : ℕ} (hi : i < (elements x).length)
    (htuple : i < (tupleAt obj key).length) :
    judge D refs (tupleAt obj key)[i] (elements x)[i] = some true := by
  cases hget : obj.get key with
  | none => simp [tupleAt, takeList, hget] at htuple
  | some v =>
    cases v with
    | array ts =>
      have hmet : Kleene.all (((tupleAt obj key).zip (elements x)).map fun p =>
          judge D refs p.1 p.2) = some true := by
        rw [tupleAt_of_array hget]
        rcases hkey with rfl | rfl
        · exact h.met .prefixItems rfl hget
        · exact h.met .items rfl hget
      exact zip_met hmet htuple hi
    | _ => simp [tupleAt, takeList, hget] at htuple

/-- The elements behind a position. -/
theorem getElem_mem_drop {ys : List Value} {n i : ℕ} (hle : n ≤ i) (hi : i < ys.length) :
    ys[i] ∈ ys.drop n :=
  List.mem_drop_iff_getElem.mpr ⟨i - n, by omega, by congr 1; omega⟩

theorem mem_branches_of_prefix {s : Value} (h : s ∈ tupleAt obj "prefixItems") :
    s ∈ tupleBranches obj := by
  rcases tupleBranches_cases obj with ⟨xs, -, heq⟩ | ⟨s, -, -, heq⟩ | ⟨-, heq⟩
  · rw [heq]
    exact List.mem_append_left _ h
  · rw [heq, if_neg (List.ne_nil_of_mem h)]
    exact List.mem_append_left _ h
  · rw [heq]
    exact h

theorem mem_branches_of_tuple {s : Value} (h : s ∈ tupleAt obj "items") :
    s ∈ tupleBranches obj := by
  rcases tupleBranches_cases obj with ⟨xs, hitems, heq⟩ | ⟨s, hitems, hs, -⟩ | ⟨hitems, -⟩
  · rw [heq, ← tupleAt_of_array hitems]
    exact List.mem_append_right _ h
  · rw [tupleAt_of_not_array fun xs hxs => hs xs (Option.some.inj (hitems.symm.trans hxs))] at h
    exact absurd h List.not_mem_nil
  · rw [tupleAt_of_not_array (by simp [hitems])] at h
    exact absurd h List.not_mem_nil

/-- **Each element of a covered tuple meets one of the branches.** -/
theorem tupleBranches_met (h : Meets D refs obj x) (hcovered : Covered obj)
    (hne : tupleBranches obj ≠ []) {y : Value} (hy : y ∈ elements x) :
    ∃ b ∈ tupleBranches obj, judge D refs b y = some true := by
  obtain ⟨i, hi, rfl⟩ := List.mem_iff_getElem.mp hy
  by_cases hfront : i < (tupleAt obj "prefixItems").length
  · exact ⟨_, mem_branches_of_prefix (List.getElem_mem hfront),
      tupleAt_met h (.inl rfl) hi hfront⟩
  · by_cases htuple : i < (tupleAt obj "items").length
    · exact ⟨_, mem_branches_of_tuple (List.getElem_mem htuple),
        tupleAt_met h (.inr rfl) hi htuple⟩
    · -- an element behind the tuple
      cases hcovered with
      | noTuple hnoPrefix hnoTuple =>
        refine absurd ?_ hne
        rcases tupleBranches_cases obj with ⟨xs, hitems, heq⟩ | ⟨s, -, -, heq⟩ | ⟨-, heq⟩
        · rw [heq, hnoPrefix, ← tupleAt_of_array hitems, hnoTuple, List.append_nil]
        · rw [heq, if_pos hnoPrefix]
        · rw [heq, hnoPrefix]
      | schema s hitems hs =>
        have hmet := h.met .items rfl hitems
        rw [items_schema hs, Kleene.all_eq_true, List.forall_mem_map, prefixCount_eq] at hmet
        refine ⟨s, ?_, hmet _ (getElem_mem_drop (by omega) hi)⟩
        rw [tupleBranches_of_schema hitems hs] at hne ⊢
        split at hne
        · exact absurd rfl hne
        · rename_i hcons
          rw [if_neg hcons]
          exact List.mem_append_right _ (List.mem_singleton_self s)
      | bounded v n hmax hn hle =>
        have hmet := h.met .maxItems rfl hmax
        rw [keyword, hn] at hmet
        have hlen : (elements x).length ≤ n := by simpa using hmet
        omega
      | free s hs hall =>
        refine ⟨s, hs, ?_⟩
        rcases hall with rfl | rfl
        · exact judge_bool true _
        · exact judge_iff_meets.mpr fun key => field_none rfl
      | closed xs hitems hadditional =>
        have hmet := h.met .additionalItems rfl hadditional
        rw [tupleAt_of_array hitems] at htuple
        rw [keyword, hitems, Kleene.all_eq_true, List.forall_mem_map] at hmet
        cases hmet _ (getElem_mem_drop (by omega) hi)

/-- What the schemas of a tuple leave behind. -/
def tupleRest (obj : Map) : Map :=
  (takeItems (takeList obj "prefixItems").1 (tupleAt obj "prefixItems")).1

theorem foldTupleItems_fst : (foldTupleItems obj).1 =
    if tupleBranches obj = [] then tupleRest obj
    else (tupleRest obj).insert "items" (.object [("anyOf", .array (tupleBranches obj))]) := by
  have hfold : foldTupleItems obj =
      if tupleBranches obj = [] then (tupleRest obj, false)
      else
        ((tupleRest obj).insert "items" (.object [("anyOf", .array (tupleBranches obj))]), true) :=
    rfl
  rw [hfold, apply_ite Prod.fst]

theorem tupleRest_items (h : tupleBranches obj = []) : (tupleRest obj).get "items" = none ∨
    tupleAt obj "prefixItems" = [] ∧ (tupleRest obj).get "items" = obj.get "items" ∧
      ∀ xs, obj.get "items" ≠ some (.array xs) := by
  rcases tupleBranches_cases obj with ⟨xs, hitems, -⟩ | ⟨s, hitems, hs, heq⟩ | ⟨hitems, heq⟩
  · left
    rw [tupleRest, takeItems, items_takeList, hitems]
    simp [Map.get_without]
  · right
    have hnil : tupleAt obj "prefixItems" = [] := by
      by_contra hne
      rw [heq, if_neg hne] at h
      simp at h
    refine ⟨hnil, ?_, fun xs hxs => hs xs (Option.some.inj (hitems.symm.trans hxs))⟩
    rw [tupleRest, takeItems, items_takeList, hitems, hnil]
    split
    · rename_i xs hxs
      exact absurd (Option.some.inj hxs) (hs xs)
    · rw [if_pos rfl, items_takeList, hitems]
    · rename_i hnone
      cases hnone
  · left
    rw [tupleRest, takeItems, items_takeList, hitems]
    simp only
    rw [items_takeList, hitems]

/-- Of a node that is met nothing is left under the key of a prefix. -/
theorem Meets.foldTupleItems_prefixItems (h : Meets D refs obj x) :
    (foldTupleItems obj).1.get "prefixItems" = none := by
  have hrest : (tupleRest obj).get "prefixItems" = none := by
    rw [tupleRest, takeItems_get (by decide)]
    unfold takeList
    split
    · rw [Map.get_without, if_pos (by decide)]
    · rename_i hno
      cases hget : obj.get "prefixItems" with
      | none => rfl
      | some v =>
        have hmet := h.met .prefixItems rfl hget
        cases v with
        | array xs => exact absurd hget (hno xs)
        | _ => cases hmet
  rw [foldTupleItems_fst]
  split
  · exact hrest
  · rw [get_insert_of_ne (by decide), hrest]

theorem foldTupleItems_meets (h : Meets D refs obj x) (hcovered : Covered obj) :
    Meets D refs (foldTupleItems obj).1 x := by
  have hcount : prefixCount (foldTupleItems obj).1 = 0 := by
    rw [prefixCount_eq, tupleAt_of_not_array foldTupleItems_prefixItems, List.length_nil]
  refine h.update ["prefixItems", "items", "additionalItems"] ?_ ?_ ?_
  · intro key hkey kw hkw near hnear
    cases kw with
    | items | additionalItems =>
      obtain rfl := Keyword.key_of_ofKey hkw (by decide)
      simp [Keyword.key] at hkey
    | cond | additionalProperties | contains => revert near; decide
    | _ => cases hnear
  · intro key hkey
    simp only [List.mem_cons, List.not_mem_nil, or_false, not_or] at hkey
    exact foldTupleItems_get hkey.1 hkey.2.1
  · intro key hkey
    simp only [List.mem_cons, List.not_mem_nil, or_false] at hkey
    rcases hkey with rfl | rfl | rfl
    · exact field_none (Meets.foldTupleItems_prefixItems h)
    · by_cases hnil : tupleBranches obj = []
      · rcases tupleRest_items hnil with hnone | ⟨hnoPrefix, hsame, hschema⟩
        · exact field_none (by rw [foldTupleItems_fst, if_pos hnil, hnone])
        · have hget : (foldTupleItems obj).1.get "items" = obj.get "items" := by
            rw [foldTupleItems_fst, if_pos hnil, hsame]
          cases hitems : obj.get "items" with
          | none => exact field_none (hget.trans hitems)
          | some s =>
            have hs : ∀ xs, s ≠ .array xs := by
              rintro xs rfl
              exact hschema xs hitems
            have hmet := h.met .items rfl hitems
            rw [items_schema hs, prefixCount_eq, hnoPrefix] at hmet
            rw [field_eq .items rfl (hget.trans hitems), items_schema hs, hcount]
            exact hmet
      · have hget : (foldTupleItems obj).1.get "items" =
            some (.object [("anyOf", .array (tupleBranches obj))]) := by
          rw [foldTupleItems_fst, if_neg hnil, Map.get_insert, if_pos rfl]
        rw [field_eq .items rfl hget, items_schema (by simp), hcount, List.drop_zero,
          Kleene.all_eq_true, List.forall_mem_map]
        intro y hy
        obtain ⟨b, hb, hjudge⟩ := tupleBranches_met h hcovered hnil hy
        rw [judge_anyOf, Kleene.any_eq_true]
        exact List.mem_map.mpr ⟨b, hb, hjudge⟩
    · cases hget : (foldTupleItems obj).1.get "additionalItems" with
      | none => exact field_none hget
      | some v =>
        rw [field_eq .additionalItems rfl hget]
        exact additionalItems_schema foldTupleItems_items

/-! ## Inferred types -/

theorem hasType_of_literalType {v : Value} {ty : String} (h : literalType v = some ty) :
    hasType v ty = true := by
  unfold literalType at h
  split at h <;> cases h
  · rfl
  · rfl
  · rename_i n hfloat
    cases n with
    | posInt n => rfl
    | negInt n => rfl
    | float q => exact absurd rfl (hfloat q)
  · rfl

/-- What has a type has the type it is joined to. -/
theorem hasType_joinTypes {v : Value} {a b ty : String} (h : joinTypes a b = some ty)
    (hv : hasType v a = true ∨ hasType v b = true) : hasType v ty = true := by
  have hnumber : ∀ {c : String}, c ∈ ["integer", "number"] → hasType v c = true →
      hasType v "number" = true := by
    intro c hc hv
    simp only [List.mem_cons, List.not_mem_nil, or_false] at hc
    rcases hc with rfl | rfl
    · cases v <;> first | rfl | cases hv
    · exact hv
  unfold joinTypes at h
  split at h
  · rename_i heq
    cases h
    exact hv.elim id fun hb => heq ▸ hb
  · split at h
    · rename_i hmem
      cases h
      exact hv.elim (hnumber hmem.1) (hnumber hmem.2)
    · cases h

/-- The type of a list of literals is the type of each. -/
theorem hasType_of_enumLiteralType {values : List Value} {ty : String}
    (h : enumLiteralType values = some ty) : ∀ v ∈ values, hasType v ty = true := by
  have hfold : ∀ (values : List Value) (first ty : String) (seen : Value → Prop),
      (∀ v, seen v → hasType v first = true) →
      values.foldlM (fun ty v => do joinTypes ty (← literalType v)) first = some ty →
      (∀ v, seen v → hasType v ty = true) ∧ ∀ v ∈ values, hasType v ty = true := by
    intro values
    induction values with
    | nil =>
      rintro first ty seen hseen h
      cases h
      exact ⟨hseen, nofun⟩
    | cons w values ih =>
      intro first ty seen hseen h
      rw [List.foldlM_cons] at h
      obtain ⟨next, hnext, h⟩ := Option.bind_eq_some_iff.mp h
      obtain ⟨tw, htw, hjoin⟩ := Option.bind_eq_some_iff.mp hnext
      obtain ⟨hprev, hrest⟩ := ih next ty (fun v => seen v ∨ v = w) (by
        rintro v (hv | rfl)
        · exact hasType_joinTypes hjoin (.inl (hseen v hv))
        · exact hasType_joinTypes hjoin (.inr (hasType_of_literalType htw))) h
      refine ⟨fun v hv => hprev v (.inl hv), fun v hv => ?_⟩
      rcases List.mem_cons.mp hv with rfl | hv
      · exact hprev v (.inr rfl)
      · exact hrest v hv
  cases values with
  | nil => cases h
  | cons w values =>
    obtain ⟨first, hfirst, h⟩ := Option.bind_eq_some_iff.mp h
    obtain ⟨hw, hrest⟩ := hfold values first ty (· = w)
      (by rintro v rfl; exact hasType_of_literalType hfirst) h
    intro v hv
    rcases List.mem_cons.mp hv with rfl | hv
    · exact hw v rfl
    · exact hrest v hv

/-- The type that is inferred for a node is one that its instances are known to have, or that all
the values it lists have. -/
def Implied (known : List Value) (obj : Map) : Prop :=
  ∀ ty, inferredType obj = some ty →
    (∀ y, (∀ v ∈ known, typed v y = some true) → hasType y ty = true) ∨
      ∃ values, obj.get "enum" = some (.array values) ∧ ∀ v ∈ values, hasType v ty = true

/-- A type that is inferred from a list of literals is theirs. -/
theorem implied_of_literals {known values : List Value}
    (henum : obj.get "enum" = some (.array values))
    (hnone : ∀ key ∈ ["properties", "patternProperties", "required", "additionalProperties",
      "items", "contains", "minItems", "maxItems", "uniqueItems"], obj.get key = none) :
    Implied known obj := by
  intro ty hty
  refine .inr ⟨values, henum, ?_⟩
  simp only [List.forall_mem_cons] at hnone
  simp [inferredType, hnone, henum] at hty
  exact hasType_of_enumLiteralType hty

theorem inferMissingType_meets {known : List Value} (h : Meets D refs obj x)
    (hknown : ∀ v ∈ known, typed v x = some true)
    (himplied : declares obj = true ∨ Implied known obj) :
    Meets D refs (inferMissingType obj).1 x := by
  unfold inferMissingType
  split
  · exact h
  · rename_i hno
    split
    · rename_i ty hinferred
      have hty : hasType x ty = true := by
        rcases himplied.resolve_left hno ty hinferred with hall | ⟨values, henum, hvalues⟩
        · exact hall x hknown
        · have hmet : keyword D (judge D refs) refs obj .enum (.array values) x = some true :=
            h.met _ rfl henum
          obtain ⟨v, hv, hequal⟩ := List.any_eq_true.mp (Option.some.inj hmet)
          exact hasType_of_equal hequal (hvalues v hv)
      exact h.insert .type rfl (by decide) (congrArg some hty)
    · exact h

theorem declares_iff : declares obj = true ↔
    (obj.get "type").isSome ∨ (obj.get "anyOf").isSome ∨ (obj.get "$ref").isSome := by
  simp [declares]

theorem declares_oneOfToAnyOf (h : declares obj = true ∨ (obj.get "oneOf").isSome) :
    declares (oneOfToAnyOf obj).1 = true := by
  have htype : (oneOfToAnyOf obj).1.get "type" = obj.get "type" :=
    oneOfToAnyOf_get (by decide) (by decide)
  have href : (oneOfToAnyOf obj).1.get "$ref" = obj.get "$ref" :=
    oneOfToAnyOf_get (by decide) (by decide)
  have hany : (obj.get "anyOf").isSome ∨ (obj.get "oneOf").isSome →
      ((oneOfToAnyOf obj).1.get "anyOf").isSome := by
    intro h
    unfold oneOfToAnyOf
    split
    · rename_i hnone
      simpa [hnone] using h
    · dsimp only
      split
      · rw [Map.get_set, if_pos rfl]
        rfl
      · rename_i hsome _ _
        rw [hsome]
        rfl
      · rw [Map.get_insert, if_pos rfl]
        rfl
  rw [declares_iff, htype, href]
  rw [declares_iff] at h
  tauto

theorem declares_splitTypeArray (hmeets : Meets D refs obj x) (h : declares obj = true) :
    declares (splitTypeArray obj).1 = true := by
  unfold splitTypeArray
  split
  · rw [declares_iff, Map.get_set, if_pos rfl]
    exact .inl rfl
  · rename_i types _ htype
    obtain ⟨ty, hty, -⟩ := typed_array (hmeets.type htype)
    have hne : (types.filter isString).map (fun t => Value.object [("type", t)]) ≠ [] :=
      List.ne_nil_of_mem (List.mem_map_of_mem (List.mem_filter.mpr ⟨hty, rfl⟩))
    have hany : (obj.without ["type"]).get "anyOf" = obj.get "anyOf" :=
      get_without_of_ne (by decide)
    dsimp only
    split
    · rw [declares_iff, Map.get_insert, Map.get_insert, if_pos rfl]
      exact .inr (.inl rfl)
    · rename_i hno
      rw [declares_iff, hany]
      rw [hany] at hno
      exact .inr (.inl (Option.isSome_iff_ne_none.mpr fun hnone => hno ⟨hnone, hne⟩))
  · exact h

theorem declares_isolateRef (h : declares obj = true) : declares (isolateRef obj).1 = true := by
  unfold isolateRef
  split
  · exact h
  · split
    · exact h
    · dsimp only
      split <;>
      · rw [declares_iff, Map.get_set, Map.get_set, if_pos rfl]
        exact .inr (.inl rfl)

theorem declares_pushTypeIntoAnyOf (h : declares obj = true) :
    declares (pushTypeIntoAnyOf obj).1 = true := by
  unfold pushTypeIntoAnyOf
  split
  · rw [declares_iff, Map.get_set, Map.get_set, if_pos rfl]
    exact .inr (.inl rfl)
  · rename_i hany _
    have hrest : (obj.without ["type"]).get "anyOf" = obj.get "anyOf" :=
      get_without_of_ne (by decide)
    rw [declares_iff, hrest, hany]
    exact .inr (.inl rfl)
  · exact h

theorem declares_foldTupleItems : declares (foldTupleItems obj).1 = declares obj := by
  simp only [declares, List.any_cons, List.any_nil]
  rw [foldTupleItems_get (by decide) (by decide), foldTupleItems_get (by decide) (by decide),
    foldTupleItems_get (by decide) (by decide)]

/-- Without a type, branches and a reference the rules in between have nothing to do. -/
theorem branched_of_bare (hdeclares : declares (mergeAllOf obj).1 = false)
    (hone : (mergeAllOf obj).1.get "oneOf" = none) :
    (pushTypeIntoAnyOf (branched obj)).1 = (constToEnum (mergeAllOf obj).1).1 := by
  have hget : ∀ {key}, key ≠ "const" → key ≠ "enum" →
      (constToEnum (mergeAllOf obj).1).1.get key = (mergeAllOf obj).1.get key :=
    fun hc he => constToEnum_get hc he
  have hno : ¬ declares (mergeAllOf obj).1 = true := by simp [hdeclares]
  simp only [declares_iff, not_or, Option.not_isSome_iff_eq_none] at hno
  obtain ⟨htype, hany, href⟩ := hno
  rw [branched]
  generalize (constToEnum (mergeAllOf obj).1).1 = node at hget
  rw [← hget (by decide) (by decide)] at htype hany href hone
  simp [oneOfToAnyOf, splitTypeArray, isolateRef, pushTypeIntoAnyOf, htype, hany, href, hone]

/-- A node, merged with its branches, has a type, or branches, or a reference; or the type that is
inferred for it is implied. -/
def Pinned (known : List Value) (obj : Map) : Prop :=
  declares obj = true ∨ (obj.get "oneOf").isSome ∨
    Implied known (foldTupleItems (constToEnum obj).1).1

theorem pinned_meets {known : List Value} (h : Meets D refs (mergeAllOf obj).1 x)
    (hpinned : Pinned known (mergeAllOf obj).1) :
    declares (foldTupleItems (pushTypeIntoAnyOf (branched obj)).1).1 = true ∨
      Implied known (foldTupleItems (pushTypeIntoAnyOf (branched obj)).1).1 := by
  by_cases hbare : declares (mergeAllOf obj).1 = true ∨ ((mergeAllOf obj).1.get "oneOf").isSome
  · left
    have hconst : declares (constToEnum (mergeAllOf obj).1).1 = true ∨
        ((constToEnum (mergeAllOf obj).1).1.get "oneOf").isSome := by
      rw [declares_iff] at hbare ⊢
      rwa [constToEnum_get (by decide) (by decide), constToEnum_get (by decide) (by decide),
        constToEnum_get (by decide) (by decide), constToEnum_get (by decide) (by decide)]
    have hmeets := oneOfToAnyOf_meets (constToEnum_meets h)
    rw [declares_foldTupleItems]
    exact declares_pushTypeIntoAnyOf (declares_isolateRef
      (declares_splitTypeArray hmeets (declares_oneOfToAnyOf hconst)))
  · right
    rw [not_or] at hbare
    rw [branched_of_bare (by simpa using hbare.1) (by simpa using hbare.2)]
    exact (hpinned.resolve_left hbare.1).resolve_left hbare.2

/-- The node when only the renaming of its reference is left. -/
def ruled (obj : Map) : Map :=
  (pruneRequired (inferMissingType (foldTupleItems
    (pushTypeIntoAnyOf (branched obj)).1).1).1).1

/-- What the rules before the folding of tuples leave of a key. -/
theorem branched_get {key : String}
    (hkey : key ∉ ["const", "enum", "oneOf", "anyOf", "type", "$ref"]) :
    (pushTypeIntoAnyOf (branched obj)).1.get key = (mergeAllOf obj).1.get key := by
  simp only [List.mem_cons, List.not_mem_nil, or_false, not_or] at hkey
  obtain ⟨hc, he, ho, ha, ht, href⟩ := hkey
  rw [pushTypeIntoAnyOf_get ht ha, branched, isolateRef_get href ha, splitTypeArray_get ht ha,
    oneOfToAnyOf_get ho ha, constToEnum_get hc he]

/-- **A merged node that is met is met after the rules.** -/
theorem ruled_meets {known : List Value} (h : Meets D refs (mergeAllOf obj).1 x)
    (hknown : ∀ v ∈ known, typed v x = some true) (hcovered : Covered (mergeAllOf obj).1)
    (hpinned : Pinned known (mergeAllOf obj).1) : Meets D refs (ruled obj) x := by
  have htuple : ∀ key, key ∉ ["const", "enum", "oneOf", "anyOf", "type", "$ref"] →
      tupleAt (pushTypeIntoAnyOf (branched obj)).1 key = tupleAt (mergeAllOf obj).1 key := by
    intro key hkey
    unfold tupleAt takeList
    rw [branched_get hkey]
    split <;> rfl
  have hbranches : tupleBranches (pushTypeIntoAnyOf (branched obj)).1 =
      tupleBranches (mergeAllOf obj).1 := by
    have hitems : (pushTypeIntoAnyOf (branched obj)).1.get "items" =
        (mergeAllOf obj).1.get "items" := branched_get (by decide)
    rcases tupleBranches_cases (mergeAllOf obj).1 with ⟨xs, hget, heq⟩ | ⟨s, hget, hs, heq⟩ |
      ⟨hget, heq⟩
    · rw [heq, tupleBranches_of_array (hitems.trans hget), htuple _ (by decide)]
    · rw [heq, tupleBranches_of_schema (hitems.trans hget) hs, htuple _ (by decide)]
    · rw [heq, tupleBranches_of_none (hitems.trans hget), htuple _ (by decide)]
  have hcovered' : Covered (pushTypeIntoAnyOf (branched obj)).1 := by
    cases hcovered with
    | noTuple hfront hitems =>
      exact .noTuple ((htuple _ (by decide)).trans hfront) ((htuple _ (by decide)).trans hitems)
    | schema s hitems hs => exact .schema s ((branched_get (by decide)).trans hitems) hs
    | bounded v n hmax hn hle =>
      refine .bounded v n ((branched_get (by decide)).trans hmax) hn ?_
      rwa [htuple _ (by decide), htuple _ (by decide)]
    | free s hs hall => exact .free s (hbranches ▸ hs) hall
    | closed xs hitems hadditional =>
      exact .closed xs ((branched_get (by decide)).trans hitems)
        ((branched_get (by decide)).trans hadditional)
  have hfold := foldTupleItems_meets (pushTypeIntoAnyOf_meets (branched_meets h)) hcovered'
  exact pruneRequired_meets (inferMissingType_meets hfold hknown (pinned_meets h hpinned))

/-! ## Nodes that stay refused -/

/-- The rules take nothing from a node, merged with its branches, that it refuses. -/
structure Tight (obj : Map) : Prop where
  enum : obj.get "const" = none ∨ obj.get "enum" = none
  oneOf : obj.get "oneOf" = none
  anyOf : obj.get "anyOf" = none ∨ obj.get "type" = none ∧ obj.get "$ref" = none
  reference : obj.get "$ref" = none ∨ obj.get "type" = none
  prefixItems : ∀ xs, obj.get "prefixItems" ≠ some (.array xs)
  items : ∀ xs, obj.get "items" ≠ some (.array xs)
  required : ∀ properties names, obj.get "properties" = some (.object properties) →
    obj.get "required" = some (.array names) → ∀ name ∈ names, isKnown properties name = true

theorem Fails.absurd_none {key : String} {C : Prop} (hnone : obj.get key = none)
    (h : field D (judge D refs) refs obj x key = some false) : C := by
  rw [field_none hnone] at h
  cases h

theorem constToEnum_fails (h : Fails D refs obj x)
    (henum : obj.get "const" = none ∨ obj.get "enum" = none) :
    Fails D refs (constToEnum obj).1 x := by
  unfold constToEnum
  split
  · exact h
  · rename_i c hc
    have hnone : obj.get "enum" = none := henum.resolve_left (by simp [hc])
    refine h.update ["const", "enum"] (near_of_alone (by decide)) ?_ ?_
    · intro key hkey
      simp only [List.mem_cons, List.not_mem_nil, or_false, not_or] at hkey
      rw [get_insert_of_ne hkey.2, get_without_of_ne hkey.1]
    · intro key hkey hfalse
      simp only [List.mem_cons, List.not_mem_nil, or_false] at hkey
      rcases hkey with rfl | rfl
      · refine ⟨"enum", ?_⟩
        rw [field_eq .const rfl hc] at hfalse
        have hequal : equal c x = false := Option.some.inj hfalse
        rw [field_eq .enum rfl (by rw [Map.get_insert, if_pos rfl])]
        show some ([c].any fun v => equal v x) = some false
        rw [List.any_cons, List.any_nil, Bool.or_false, hequal]
      · exact Fails.absurd_none hnone hfalse

theorem typed_array_false {types : List Value} (h : typed (.array types) x = some false) :
    types ≠ [] ∧ ∀ t ∈ types, ∃ ty, t = .string ty ∧ hasType x ty = false := by
  rw [typed] at h
  split at h
  · rename_i hstrings
    refine ⟨hstrings.1, fun t ht => ?_⟩
    have hfalse := List.any_eq_false.mp (Option.some.inj h) t ht
    have hstring := List.all_eq_true.mp hstrings.2 t ht
    cases t with
    | string ty => exact ⟨ty, rfl, by simpa [Value.asStr] using hfalse⟩
    | _ => cases hstring
  · cases h

theorem splitTypeArray_fails (h : Fails D refs obj x)
    (hany : obj.get "anyOf" = none ∨ obj.get "type" = none) :
    Fails D refs (splitTypeArray obj).1 x := by
  unfold splitTypeArray
  split
  · rename_i single htype
    refine h.update ["type"] (near_of_alone (by decide)) ?_ ?_
    · intro key hkey
      exact get_set_of_ne (by simpa using hkey)
    · intro key hkey hfalse
      obtain rfl := List.mem_singleton.mp hkey
      refine ⟨"type", ?_⟩
      rw [field_eq .type rfl htype] at hfalse
      have htyped : typed (.array [.string single]) x = some false := hfalse
      obtain ⟨-, hno⟩ := typed_array_false htyped
      obtain ⟨ty, heq, hhas⟩ := hno _ (List.mem_singleton_self _)
      cases heq
      rw [field_eq .type rfl (by rw [Map.get_set, if_pos rfl])]
      exact congrArg some hhas
  · rename_i types _ htype
    have hnone : obj.get "anyOf" = none := hany.resolve_right (by simp [htype])
    have hrest : (obj.without ["type"]).get "anyOf" = none :=
      (get_without_of_ne (by decide)).trans hnone
    have hbranches : typed (.array types) x = some false →
        (types.filter isString).map (fun t => Value.object [("type", t)]) ≠ [] := by
      intro hfalse
      obtain ⟨hne, hno⟩ := typed_array_false hfalse
      obtain ⟨t, ht⟩ := List.exists_mem_of_ne_nil _ hne
      obtain ⟨ty, rfl, -⟩ := hno t ht
      exact List.ne_nil_of_mem (List.mem_map_of_mem (List.mem_filter.mpr ⟨ht, rfl⟩))
    refine h.update ["type", "anyOf"] (near_of_alone (by decide)) ?_ ?_
    · intro key hkey
      simp only [List.mem_cons, List.not_mem_nil, or_false, not_or] at hkey
      dsimp only
      split
      · rw [get_insert_of_ne hkey.2, get_without_of_ne hkey.1]
      · rw [get_without_of_ne hkey.1]
    · intro key hkey hfalse
      simp only [List.mem_cons, List.not_mem_nil, or_false] at hkey
      rcases hkey with rfl | rfl
      · rw [field_eq .type rfl htype] at hfalse
        have htyped : typed (.array types) x = some false := hfalse
        refine ⟨"anyOf", ?_⟩
        dsimp only
        rw [if_pos ⟨hrest, hbranches htyped⟩,
          field_eq .anyOf rfl (by rw [Map.get_insert, if_pos rfl])]
        refine Kleene.any_eq_false.mpr (List.forall_mem_map.mpr (List.forall_mem_map.mpr ?_))
        intro t ht
        obtain ⟨ty, rfl, hhas⟩ := (typed_array_false htyped).2 t (List.mem_filter.mp ht).1
        rw [judge_type, hhas]
      · exact Fails.absurd_none hnone hfalse
  · exact h

theorem isolateRef_fails (h : Fails D refs obj x)
    (hany : obj.get "anyOf" = none ∨ obj.get "$ref" = none) :
    Fails D refs (isolateRef obj).1 x := by
  unfold isolateRef
  split
  · exact h
  · rename_i reference href
    have hnone : obj.get "anyOf" = none := hany.resolve_right (by simp [href])
    have hrest : (obj.without ["$ref"]).get "anyOf" = none :=
      (get_without_of_ne (by decide)).trans hnone
    split
    · exact h
    · dsimp only
      rw [hrest]
      refine h.update ["$ref", "anyOf"] (near_of_alone (by decide)) ?_ ?_
      · intro key hkey
        simp only [List.mem_cons, List.not_mem_nil, or_false, not_or] at hkey
        rw [get_set_of_ne hkey.2, get_without_of_ne hkey.1]
      · intro key hkey hfalse
        simp only [List.mem_cons, List.not_mem_nil, or_false] at hkey
        rcases hkey with rfl | rfl
        · refine ⟨"anyOf", ?_⟩
          rw [field_eq .ref rfl href] at hfalse
          rw [field_eq .anyOf rfl (by rw [Map.get_set, if_pos rfl])]
          show Kleene.any ([Value.object [("$ref", reference)]].map fun b => judge D refs b x) = _
          rw [List.map_singleton, Kleene.any_singleton, judge_single rfl]
          cases reference with
          | string r => exact hfalse
          | _ => cases hfalse
        · exact Fails.absurd_none hnone hfalse

theorem inferMissingType_fails (h : Fails D refs obj x) :
    Fails D refs (inferMissingType obj).1 x := by
  unfold inferMissingType
  split
  · exact h
  · rename_i hno
    split
    · simp only [declares_iff, not_or, Option.not_isSome_iff_eq_none] at hno
      refine h.update ["type"] (near_of_alone (by decide)) ?_ ?_
      · intro key hkey
        exact get_insert_of_ne (by simpa using hkey)
      · intro key hkey hfalse
        obtain rfl := List.mem_singleton.mp hkey
        exact Fails.absurd_none hno.1 hfalse
    · exact h

theorem pushTypeIntoAnyOf_of_none (h : obj.get "anyOf" = none ∨ obj.get "type" = none) :
    (pushTypeIntoAnyOf obj).1 = obj := by
  rcases h with h | h <;> simp [pushTypeIntoAnyOf, h]

theorem oneOfToAnyOf_of_none (h : obj.get "oneOf" = none) : (oneOfToAnyOf obj).1 = obj := by
  rw [oneOfToAnyOf, h]

theorem splitTypeArray_of_none (h : obj.get "type" = none) : (splitTypeArray obj).1 = obj := by
  rw [splitTypeArray, h]

/-- A type is either left or becomes branches. -/
theorem splitTypeArray_alone (h : obj.get "anyOf" = none) :
    (splitTypeArray obj).1.get "anyOf" = none ∨ (splitTypeArray obj).1.get "type" = none := by
  unfold splitTypeArray
  split
  · left
    rw [get_set_of_ne (by decide), h]
  · right
    dsimp only
    split
    · rw [get_insert_of_ne (by decide), Map.get_without, if_pos (by decide)]
    · rw [Map.get_without, if_pos (by decide)]
  · exact .inl h

/-- A merged node that fails fails with its branches; its type is among them if it has any. -/
theorem branched_fails (h : Fails D refs (mergeAllOf obj).1 x) (htight : Tight (mergeAllOf obj).1) :
    Fails D refs (branched obj) x ∧
      ((branched obj).get "anyOf" = none ∨ (branched obj).get "type" = none) := by
  have hconst : ∀ {key}, key ≠ "const" → key ≠ "enum" →
      (constToEnum (mergeAllOf obj).1).1.get key = (mergeAllOf obj).1.get key :=
    fun hc he => constToEnum_get hc he
  have hone : (oneOfToAnyOf (constToEnum (mergeAllOf obj).1).1).1 =
      (constToEnum (mergeAllOf obj).1).1 :=
    oneOfToAnyOf_of_none ((hconst (by decide) (by decide)).trans htight.oneOf)
  have hnode := constToEnum_fails h htight.enum
  have hany : (constToEnum (mergeAllOf obj).1).1.get "anyOf" = none ∨
      (constToEnum (mergeAllOf obj).1).1.get "type" = none ∧
        (constToEnum (mergeAllOf obj).1).1.get "$ref" = none := by
    rw [hconst (by decide) (by decide), hconst (by decide) (by decide),
      hconst (by decide) (by decide)]
    exact htight.anyOf
  have href : (constToEnum (mergeAllOf obj).1).1.get "$ref" = none ∨
      (constToEnum (mergeAllOf obj).1).1.get "type" = none := by
    rw [hconst (by decide) (by decide), hconst (by decide) (by decide)]
    exact htight.reference
  rw [branched, hone]
  generalize (constToEnum (mergeAllOf obj).1).1 = node at hnode hany href
  have hsplit := splitTypeArray_fails hnode (hany.imp_right And.left)
  rcases href with href | htype
  · have hsame : (isolateRef (splitTypeArray node).1).1 = (splitTypeArray node).1 := by
      rw [isolateRef, splitTypeArray_get (by decide) (by decide), href]
    rw [hsame]
    refine ⟨hsplit, ?_⟩
    rcases hany with hany | ⟨htype, -⟩
    · exact splitTypeArray_alone hany
    · rw [splitTypeArray_of_none htype]
      exact .inr htype
  · rw [splitTypeArray_of_none htype] at hsplit ⊢
    refine ⟨isolateRef_fails hsplit (hany.imp_right And.right), .inr ?_⟩
    rw [isolateRef_get (by decide) (by decide), htype]

/-- **A merged node that fails fails after the rules.** -/
theorem ruled_fails (h : Fails D refs (mergeAllOf obj).1 x) (htight : Tight (mergeAllOf obj).1) :
    Fails D refs (ruled obj) x := by
  have hbranches := branched_fails h htight
  have hfold : (foldTupleItems (pushTypeIntoAnyOf (branched obj)).1).1 =
      (pushTypeIntoAnyOf (branched obj)).1 := by
    have hfront : ∀ xs,
        (pushTypeIntoAnyOf (branched obj)).1.get "prefixItems" ≠ some (.array xs) := by
      rw [branched_get (by decide)]
      exact htight.prefixItems
    have hitems : ∀ xs, (pushTypeIntoAnyOf (branched obj)).1.get "items" ≠ some (.array xs) := by
      rw [branched_get (by decide)]
      exact htight.items
    rw [foldTupleItems_of_nil (fun _ _ => hfront _) fun _ _ => hitems _]
    exact dropEmpty_of_not fun hempty => hempty.elim (hfront []) (hitems [])
  have hknown : ∀ properties names,
      (inferMissingType (pushTypeIntoAnyOf (branched obj)).1).1.get "properties" =
        some (.object properties) →
      (inferMissingType (pushTypeIntoAnyOf (branched obj)).1).1.get "required" =
        some (.array names) → ∀ name ∈ names, isKnown properties name = true := by
    rw [inferMissingType_get (by decide), inferMissingType_get (by decide),
      branched_get (by decide), branched_get (by decide)]
    exact htight.required
  rw [ruled, hfold, pruneRequired_of_known hknown]
  refine inferMissingType_fails ?_
  rw [pushTypeIntoAnyOf_of_none hbranches.2]
  exact hbranches.1

end

end Llmleaf.Moonshot
