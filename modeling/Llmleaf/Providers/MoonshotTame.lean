import Llmleaf.Providers.MoonshotMerging

/-!
# When the rewrite only widens

A schema is judged through its nodes: some are asked what they accept, those below `not` what they
refuse, those below `if` both. The rewrite keeps the verdict of a node when the rules keep it, and
its references lead where they led.

- `Judged`: the nodes a verdict rests on, with what they are asked.
- `Tame`: the rules keep what each of them is asked; `flavorSchema_widens`: then the rewritten
  schema validates every instance the original accepted.
- `flavorNode_keeps`: one walk, given the references; `followed_keeps`: any number of references.
-/

namespace Llmleaf.Moonshot

open JsonSchema

/-! ## The walk through the fields -/

section

variable {D : Dialect} {refs : String → Value → Option Bool} {obj : Map} {x value : Value}
  {key : String} {kw : Keyword}

/-- The keys the walk enters are keywords. -/
theorem ofKey_of_walked (h : Keyword.ofKey key = none) : key ∉ oneKeys ++ "anyOf" :: mapKeys := by
  have hall : ∀ key ∈ oneKeys ++ "anyOf" :: mapKeys, Keyword.ofKey key ≠ none := by decide
  exact fun hmem => hall key hmem h

theorem mapAt_walked (hkey : key ∈ mapKeys) : mapAt (walked obj) key =
    (mapAt obj key).map fun e => (e.1, (flavorNode e.2).1) := by
  have hone : key ∉ oneKeys := by
    simp only [mapKeys, List.mem_cons, List.not_mem_nil, or_false] at hkey
    rcases hkey with rfl | rfl | rfl <;> decide
  have hany : key ≠ "anyOf" := by
    rintro rfl
    revert hkey
    decide
  unfold mapAt
  rw [get_walked]
  cases obj.get key with
  | none => rfl
  | some v => cases v <;> simp [walkField, hone, hkey, hany]

theorem covers_walked (name : String) : covers D (walked obj) name = covers D obj name := by
  unfold covers
  rw [mapAt_walked (by decide), mapAt_walked (by decide), List.any_map, List.any_map]
  rfl

theorem whenPresent_walked (hkey : key ∈ oneKeys) :
    whenPresent (judge D refs) (walked obj) key x =
      whenPresent (fun s => judge D refs (flavorNode s).1) obj key x := by
  unfold whenPresent
  rw [get_walked]
  cases obj.get key with
  | none => rfl
  | some v => simp [walkField, hkey]

/-- The keywords whose schemas the walk enters, where no tuple is left. -/
def entered : List Keyword :=
  [.anyOf, .not, .cond, .properties, .patternProperties, .additionalProperties, .propertyNames,
    .items, .contains]

/-- **A walked keyword applies the rewritten schemas.** -/
theorem keyword_walked (hkw : kw ∈ entered) (hitems : ∀ xs, obj.get "items" ≠ some (.array xs))
    (hvalue : obj.get kw.key = some value) :
    keyword D (judge D refs) refs (walked obj) kw (walkField flavorNode kw.key value).1 x =
      keyword D (fun s => judge D refs (flavorNode s).1) refs obj kw value x := by
  have hone : ∀ {key}, key ∈ oneKeys →
      (walkField flavorNode key value).1 = (flavorNode value).1 :=
    fun hkey => congrArg Prod.fst (if_pos hkey)
  cases kw with
  | anyOf =>
    cases value with
    | array bs =>
      show Kleene.any ((bs.map fun b => (flavorNode b).1).map fun b => judge D refs b x) = _
      rw [List.map_map]
      rfl
    | _ => rfl
  | not =>
    rw [hone (by decide)]
    rfl
  | cond =>
    rw [hone (by decide)]
    unfold keyword
    dsimp only
    rw [whenPresent_walked (by decide), whenPresent_walked (by decide)]
  | properties =>
    cases value with
    | object m =>
      show Kleene.all ((m.map fun e => (e.1, (flavorNode e.2).1)).map _) = _
      rw [List.map_map]
      rfl
    | _ => rfl
  | patternProperties =>
    cases value with
    | object m =>
      show Kleene.all ((m.map fun e => (e.1, (flavorNode e.2).1)).map _) = _
      rw [List.map_map]
      rfl
    | _ => rfl
  | additionalProperties =>
    rw [hone (by decide)]
    simp only [keyword, covers_walked]
  | propertyNames =>
    rw [hone (by decide)]
    rfl
  | items =>
    have hschema : ∀ xs, value ≠ .array xs := by
      rintro xs rfl
      exact hitems xs hvalue
    have hcount : prefixCount (walked obj) = prefixCount obj := by
      rw [prefixCount, prefixCount, get_walked_of_ne (by decide)]
    rw [hone (by decide), items_schema fun xs hxs => hschema xs (flavorNode_array hxs),
      items_schema hschema, hcount]
  | contains =>
    have hmin : limit (walked obj) "minContains" = limit obj "minContains" :=
      funext fun _ => limit_congr (get_walked_of_ne (by decide))
    have hmax : limit (walked obj) "maxContains" = limit obj "maxContains" :=
      funext fun _ => limit_congr (get_walked_of_ne (by decide))
    rw [hone (by decide)]
    simp only [keyword, hmin, hmax]
  | _ => exact absurd hkw (by decide)

/-- The schemas that an entered keyword applies are those the walk goes into. -/
theorem piece_child {sign : Sign} {c : Value} (hkw : kw ∈ entered)
    (hitems : ∀ xs, (rewriteNode obj).1.get "items" ≠ some (.array xs))
    (hvalue : (rewriteNode obj).1.get kw.key = some value)
    (hc : (sign, c) ∈ pieces (rewriteNode obj).1 kw value) : c ∈ children (.object obj) := by
  have hmem : ∀ {key v}, (rewriteNode obj).1.get key = some v → c ∈ subschemas key v →
      c ∈ children (.object obj) :=
    fun hget hsub => List.mem_flatMap.mpr ⟨_, Map.mem_of_get hget, hsub⟩
  have hone : ∀ {key v}, key ∈ oneKeys → (rewriteNode obj).1.get key = some v → c = v →
      c ∈ children (.object obj) := by
    rintro key v hkey hget rfl
    have hsub : subschemas key c = [c] := if_pos hkey
    exact hmem hget (hsub ▸ List.mem_singleton_self c)
  cases kw with
  | anyOf =>
    cases value with
    | array bs => exact hmem hvalue (mem_of_piece hc)
    | _ => cases hc
  | not | additionalProperties | propertyNames | contains =>
    exact hone (by decide) hvalue (Prod.ext_iff.mp (List.mem_singleton.mp hc)).2
  | cond =>
    rcases List.mem_cons.mp hc with heq | hc
    · exact hone (by decide) hvalue (Prod.ext_iff.mp heq).2
    · obtain ⟨key, hkey, hget⟩ := List.mem_filterMap.mp (mem_of_piece hc)
      refine hone ?_ hget rfl
      simp only [List.mem_cons, List.not_mem_nil, or_false] at hkey
      rcases hkey with rfl | rfl <;> decide
  | properties | patternProperties =>
    cases value with
    | object m =>
      obtain ⟨e, he, heq⟩ := List.mem_map.mp hc
      refine hmem hvalue (List.mem_map.mpr ⟨e, he, ?_⟩)
      exact (Prod.ext_iff.mp heq).2
    | _ => cases hc
  | items =>
    cases value with
    | array xs => exact absurd hvalue (hitems xs)
    | _ => exact hone (by decide) hvalue (Prod.ext_iff.mp (List.mem_singleton.mp hc)).2
  | _ => exact absurd hkw (by decide)

end

/-! ## The nodes a verdict rests on -/

/-- The name that the rewrite gives a reference. -/
def renamed (reference : String) : String :=
  match Strings.stripPrefix reference "#/definitions/" with
  | some rest => "#/$defs/" ++ rest
  | none => reference

/-- What a reference of a schema leads to. -/
def target (D : Dialect) (schema : Value) (reference : String) : Option Value :=
  match fragment D reference with
  | some [] => some (definitionsToDefs schema).1
  | some path => pointer schema path
  | none => none

/-- The type that the instances of a node are known to have when the node accepts them. -/
def typesOf : Bool → Map → List Value
  | true, obj => ((mergeAllOf obj).1.get "type").toList
  | false, _ => []

/-- **The verdict that a schema is asked for**, on instances of known types: the root is asked what
it accepts, and each keyword asks for verdicts of the schemas it applies. The first index tells
whether the walk rewrites the schema; it leaves those of a nested `allOf` as they are. -/
inductive Judged (D : Dialect) (schema : Value) : Bool → Bool → List Value → Value → Prop
  | root : Judged D schema true true [] (definitionsToDefs schema).1
  | piece {p q : Bool} {known : List Value} {obj : Map} {key : String} {kw : Keyword}
      {value c : Value} {sign : Sign} :
      Judged D schema true p known (.object obj) → (rewriteNode obj).1.get key = some value →
      Keyword.ofKey key = some kw → (sign, c) ∈ pieces (rewriteNode obj).1 kw value →
      sign.asks p q →
      Judged D schema (kw ≠ .allOf) q (if kw.inPlace then typesOf p obj ++ known else []) c
  | target {p : Bool} {known : List Value} {obj : Map} {reference : String} {t : Value} :
      Judged D schema true p known (.object obj) →
      (mergeAllOf obj).1.get "$ref" = some (.string reference) →
      target D schema reference = some t → Judged D schema true p (typesOf p obj ++ known) t
  | leftPiece {p q : Bool} {known : List Value} {obj : Map} {key : String} {kw : Keyword}
      {value c : Value} {sign : Sign} :
      Judged D schema false p known (.object obj) → obj.get key = some value →
      Keyword.ofKey key = some kw → (sign, c) ∈ pieces obj kw value → sign.asks p q →
      Judged D schema false q (if kw.inPlace then known else []) c
  | leftTarget {p : Bool} {known : List Value} {obj : Map} {reference : String} {t : Value} :
      Judged D schema false p known (.object obj) → obj.get "$ref" = some (.string reference) →
      target D schema reference = some t → Judged D schema true p known t

/-- A path that the walk keeps. -/
inductive Stays : Value → List String → Value → Prop
  | here (v : Value) : Stays v [] v
  | one {obj : Map} {key : String} {v t : Value} {path : List String} :
      key ∈ oneKeys → (rewriteNode obj).1.get key = some v → Stays v path t →
      Stays (.object obj) (key :: path) t
  | entry {obj m : Map} {key name : String} {v t : Value} {path : List String} :
      key ∈ mapKeys → (rewriteNode obj).1.get key = some (.object m) → m.get name = some v →
      Stays v path t → Stays (.object obj) (key :: name :: path) t
  | branch {obj : Map} {bs : List Value} {token : String} {i : ℕ} {v t : Value}
      {path : List String} :
      (rewriteNode obj).1.get "anyOf" = some (.array bs) →
      Strings.parseUnsigned (2 ^ 64) token.toList = some i → bs[i]? = some v → Stays v path t →
      Stays (.object obj) ("anyOf" :: token :: path) t

/-- The rules keep what a node is asked. -/
def Kept : Bool → List Value → Map → Prop
  | true, known, obj => Merges obj ∧ Covered (mergeAllOf obj).1 ∧ Pinned known (mergeAllOf obj).1
  | false, _, obj => Survives obj ∧ Tight (mergeAllOf obj).1

/-- A reference leads, under a name, to the rewritten schema. -/
def Leads (D : Dialect) (schema : Value) (reference name : String) : Prop :=
  ∀ t, target D schema reference = some t →
    ∃ path, fragment D name = some path ∧ Stays (definitionsToDefs schema).1 path t

/-- **The schemas that the rewrite only widens.** -/
structure Tame (D : Dialect) (schema : Value) : Prop where
  /-- The rules keep what the nodes are asked. -/
  nodes : ∀ p known (obj : Map), Judged D schema true p known (.object obj) → Kept p known obj
  /-- A renamed reference leads where it led. -/
  references : ∀ p known (obj : Map) reference, Judged D schema true p known (.object obj) →
    (mergeAllOf obj).1.get "$ref" = some (.string reference) →
    Leads D schema reference (renamed reference)
  /-- A reference below a nested `allOf` keeps its name, and leads where it led. -/
  nested : ∀ p known (obj : Map) reference, Judged D schema false p known (.object obj) →
    obj.get "$ref" = some (.string reference) → Leads D schema reference reference

/-- References keep the verdicts that a schema is asked for, on either side of the rewrite. -/
structure Carries (D : Dialect) (schema : Value) (refs refs' : String → Value → Option Bool) :
    Prop where
  renamed : ∀ p known (obj : Map) reference, Judged D schema true p known (.object obj) →
    (mergeAllOf obj).1.get "$ref" = some (.string reference) →
    ∀ x, (∀ v ∈ typesOf p obj ++ known, typed v x = some true) →
      refs reference x = some p → refs' (renamed reference) x = some p
  left : ∀ p known (obj : Map) reference, Judged D schema false p known (.object obj) →
    obj.get "$ref" = some (.string reference) →
    ∀ x, (∀ v ∈ known, typed v x = some true) →
      refs reference x = some p → refs' reference x = some p

section

variable {D : Dialect} {schema : Value} {refs refs' : String → Value → Option Bool} {obj : Map}
  {x : Value} {p : Bool} {known : List Value}

theorem Kept.ruled (h : Kept p known obj) (hknown : ∀ v ∈ known, typed v x = some true)
    (hjudge : judge D refs (.object obj) x = some p) :
    judge D refs (.object (ruled obj)) x = some p := by
  cases p with
  | true =>
    obtain ⟨hmerges, hcovered, hpinned⟩ := h
    rw [judge_iff_meets] at hjudge ⊢
    exact ruled_meets (mergeAllOf_meets hjudge hmerges) hknown hcovered hpinned
  | false =>
    obtain ⟨hsurvives, htight⟩ := h
    rw [judge_iff_fails] at hjudge ⊢
    exact ruled_fails (mergeAllOf_fails hjudge hsurvives) htight

/-- What a node accepts has its type. -/
theorem Kept.types (h : Kept p known obj) (hknown : ∀ v ∈ known, typed v x = some true)
    (hjudge : judge D refs (.object obj) x = some p) :
    ∀ v ∈ typesOf p obj ++ known, typed v x = some true := by
  intro v hv
  rcases List.mem_append.mp hv with hv | hv
  · cases p with
    | true =>
      have hmeets := mergeAllOf_meets (judge_iff_meets.mp hjudge) h.1
      exact hmeets.type (Option.mem_toList.mp hv)
    | false => cases hv
  · exact hknown v hv

/-! ### References -/

theorem rewriteRefTarget_string (reference : String) :
    (rewriteRefTarget [("$ref", .string reference)]).1 = [("$ref", .string (renamed reference))] := by
  cases h : Strings.stripPrefix reference "#/definitions/" with
  | none => simp [rewriteRefTarget, renamed, Map.get_cons, h]
  | some rest =>
    simp [rewriteRefTarget, renamed, Map.get_cons, h, Map.set, Map.without, Map.insert]

/-- A reference that is left alone was one of the merged node. -/
theorem branched_ref {v : Value} (h : (branched obj).get "$ref" = some v) :
    (mergeAllOf obj).1.get "$ref" = some v := by
  rw [← constToEnum_get (by decide) (by decide), ← oneOfToAnyOf_get (by decide) (by decide),
    ← splitTypeArray_get (by decide) (by decide)]
  unfold branched isolateRef at h
  split at h
  · exact h
  · split at h
    · exact h
    · dsimp only at h
      split at h <;>
      · rw [get_set_of_ne (by decide), Map.get_without, if_pos (by decide)] at h
        cases h

theorem ruled_ref : (ruled obj).get "$ref" = (branched obj).get "$ref" := by
  rw [ruled, pruneRequired_get (by decide), inferMissingType_get (by decide),
    foldTupleItems_get (by decide) (by decide), pushTypeIntoAnyOf_get (by decide) (by decide)]

/-! ### One walk -/

/-- The nodes of the walk keep a verdict when its fields do. -/
theorem field_walked (hsettled : Settled (rewriteNode obj).1)
    (href : (rewriteNode obj).1.get "$ref" = none)
    (hnested : ∀ bs, (rewriteNode obj).1.get "allOf" = some (.array bs) → ∀ b ∈ bs,
      judge D refs b x = some p → judge D refs' b x = some p)
    (hpieces : ∀ kw ∈ entered, ∀ value, (rewriteNode obj).1.get kw.key = some value →
      ∀ e ∈ pieces (rewriteNode obj).1 kw value, ∀ q, e.1.asks p q →
        ∀ y, (kw.inPlace = true → y = x) →
          judge D refs e.2 y = some q → judge D refs' (flavorNode e.2).1 y = some q)
    (key : String) (h : field D (judge D refs) refs (rewriteNode obj).1 x key = some p) :
    field D (judge D refs') refs' (walked (rewriteNode obj).1) x key = some p := by
  generalize (rewriteNode obj).1 = node at *
  cases hvalue : node.get key with
  | none =>
    rw [field_none hvalue] at h
    rw [field_none (by rw [get_walked, hvalue]; rfl)]
    exact h
  | some value =>
    have hwalked : (walked node).get key = some (walkField flavorNode key value).1 := by
      rw [get_walked, hvalue]
      rfl
    cases hkw : Keyword.ofKey key with
    | none =>
      have hsame : (walked node).get key = node.get key := get_walked_of_ne (ofKey_of_walked hkw)
      unfold field at h ⊢
      rw [hsame]
      rw [hvalue, hkw] at h ⊢
      exact h
    | some kw =>
      rw [field_eq kw hkw hvalue] at h
      by_cases hentered : kw ∈ entered
      · have hne : kw ≠ .inert := by
          rintro rfl
          revert hentered
          decide
        obtain rfl := Keyword.key_of_ofKey hkw hne
        rw [field_eq kw hkw hwalked, keyword_walked hentered hsettled.items hvalue]
        refine keyword_keeps (hpieces kw hentered value hvalue) ?_ h
        rintro r rfl -
        exact absurd hentered (by decide)
      · -- the walk leaves the field, and its verdict does not rest on the walk
        cases kw with
        | inert =>
          rw [field_eq .inert hkw hwalked]
          exact h
        | type | const | enum | required | maxItems =>
          obtain rfl := Keyword.key_of_ofKey hkw (by decide)
          rw [field_eq _ hkw ((get_walked_of_ne (by decide)).trans hvalue)]
          cases value <;> exact h
        | allOf =>
          obtain rfl := Keyword.key_of_ofKey hkw (by decide)
          have hsame : (walked node).get "allOf" = node.get "allOf" := get_walked_of_ne (by decide)
          rw [field_eq .allOf hkw (hsame.trans hvalue)]
          cases value with
          | array bs => exact Kleene.all_keeps (hnested bs hvalue) h
          | _ => exact h
        | oneOf =>
          obtain rfl := Keyword.key_of_ofKey hkw (by decide)
          cases hsettled.oneOf.symm.trans hvalue
        | ref =>
          obtain rfl := Keyword.key_of_ofKey hkw (by decide)
          cases href.symm.trans hvalue
        | prefixItems =>
          obtain rfl := Keyword.key_of_ofKey hkw (by decide)
          cases value with
          | array ps => exact absurd hvalue (hsettled.prefixItems ps)
          | _ => cases h
        | additionalItems =>
          obtain rfl := Keyword.key_of_ofKey hkw (by decide)
          rw [additionalItems_schema hsettled.items] at h
          rw [field_eq .additionalItems hkw hwalked,
            additionalItems_schema hsettled.walked.items]
          exact h
        | _ => exact absurd (by decide) hentered

/-- What the walk leaves keeps its verdicts, when references keep them. -/
theorem left_keeps (hrefs : Carries D schema refs refs') {v : Value}
    (hjudged : Judged D schema false p known v)
    (hknown : ∀ v ∈ known, typed v x = some true) (h : judge D refs v x = some p) :
    judge D refs' v x = some p := by
  induction hn : levels v using Nat.strong_induction_on generalizing v p known x with
  | h n ih =>
    cases v with
    | object obj =>
      refine judge_keeps (fun key hkey => field_keeps ?_ ?_ hkey) h
      · intro value kw hvalue hkw e he q hq y hy hjudge
        have hlt := levels_piece hvalue he
        refine ih _ (hn ▸ hlt) (.leftPiece hjudged hvalue hkw he hq) ?_ hjudge rfl
        split
        · rename_i hplace
          rw [hy hplace]
          exact hknown
        · exact nofun
      · intro r hkw hvalue
        obtain rfl := Keyword.key_of_ofKey hkw (by decide)
        exact hrefs.left p known obj r hjudged hvalue x hknown
    | bool b => exact h
    | _ =>
      rw [judge_other (by simp) (by simp)] at h
      cases h

/-- **The walk keeps the verdicts that a tame schema is asked for**, when references keep them. -/
theorem flavorNode_keeps (htame : Tame D schema) (hrefs : Carries D schema refs refs') {v : Value}
    (hjudged : Judged D schema true p known v)
    (hknown : ∀ v ∈ known, typed v x = some true) (h : judge D refs v x = some p) :
    judge D refs' (flavorNode v).1 x = some p := by
  induction v using schema_induction generalizing p known x with
  | step v ih =>
    cases v with
    | object obj =>
      rw [flavorNode_fst]
      have hkept := htame.nodes p known obj hjudged
      have htypes := hkept.types hknown h
      have hruled := hkept.ruled hknown h
      have hsettled := rewriteNode_settled obj
      have hrewritten : (rewriteNode obj).1 = (rewriteRefTarget (ruled obj)).1 :=
        rewriteNode_fst obj
      rcases branched_cases obj with href | ⟨reference, hbare⟩
      · have hnone : (ruled obj).get "$ref" = none := ruled_ref.trans href
        have hsame : (rewriteNode obj).1 = ruled obj := by
          rw [hrewritten, rewriteRefTarget_of_none hnone]
        rw [← hsame] at hruled hnone
        refine judge_keeps (field_walked hsettled hnone ?_ ?_) hruled
        · intro bs hbs b hb
          have hpiece : (Sign.same, b) ∈ pieces (rewriteNode obj).1 .allOf (.array bs) :=
            List.mem_map_of_mem hb
          exact left_keeps hrefs (.piece hjudged hbs rfl hpiece rfl) htypes
        · intro kw hkw value hvalue e he q hq y hy hjudge
          have hkeys : ∀ kw ∈ entered,
              Keyword.ofKey kw.key = some kw ∧ decide (kw ≠ .allOf) = true := by decide
          have hpiece := Judged.piece hjudged hvalue (hkeys kw hkw).1 he hq
          rw [(hkeys kw hkw).2] at hpiece
          refine ih e.2 (piece_child hkw hsettled.items hvalue he) hpiece ?_ hjudge
          split
          · rename_i hplace
            rw [hy hplace]
            exact htypes
          · exact nofun
      · -- a reference of its own
        have hsame : ruled obj = [("$ref", reference)] := by
          rw [ruled, hbare, rewrite_reference]
        have hget : (mergeAllOf obj).1.get "$ref" = some reference :=
          branched_ref (by rw [hbare]; simp [Map.get_cons])
        rw [hsame, judge_single rfl] at hruled
        cases reference with
        | string r =>
          have hwalked : walked (rewriteNode obj).1 = [("$ref", .string (renamed r))] := by
            rw [hrewritten, hsame, rewriteRefTarget_string]
            rfl
          rw [hwalked, judge_ref]
          exact hrefs.renamed p known obj r hjudged hget x htypes hruled
        | _ => cases hruled
    | bool b => exact h
    | _ =>
      rw [judge_other (by simp) (by simp)] at h
      cases h

/-! ### Any number of references -/

theorem pointer_cons (v : Value) (token : String) (path : List String) :
    pointer v (token :: path) = (step v token).bind fun w => pointer w path := rfl

/-- **A path that stays leads to the rewritten schema.** -/
theorem Stays.pointer {v t : Value} {path : List String} (h : Stays v path t) :
    pointer (flavorNode v).1 path = some (flavorNode t).1 := by
  induction h with
  | here v => rfl
  | @one obj key v t path hkey hv _ ih =>
    have hstep : step (flavorNode (.object obj)).1 key = some (flavorNode v).1 := by
      rw [flavorNode_fst]
      show (walked (rewriteNode obj).1).get key = _
      rw [get_walked, hv]
      exact congrArg some (congrArg Prod.fst (if_pos hkey))
    rw [pointer_cons, hstep]
    exact ih
  | @entry obj m key name v t path hkey hm hv _ ih =>
    have hone : key ∉ oneKeys ∧ key ≠ "anyOf" := by
      simp only [mapKeys, List.mem_cons, List.not_mem_nil, or_false] at hkey
      rcases hkey with rfl | rfl | rfl <;> decide
    have hstep : step (flavorNode (.object obj)).1 key =
        some (.object (m.map fun e => (e.1, (flavorNode e.2).1))) := by
      rw [flavorNode_fst]
      show (walked (rewriteNode obj).1).get key = _
      rw [get_walked, hm]
      simp [walkField, hone, hkey]
    have hname : step (.object (m.map fun e => (e.1, (flavorNode e.2).1))) name =
        some (flavorNode v).1 := by
      show Map.get (m.map fun e => (e.1, (flavorNode e.2).1)) name = _
      rw [Map.get_mapValues m (fun _ v => (flavorNode v).1), hv]
      rfl
    rw [pointer_cons, hstep, Option.bind_some, pointer_cons, hname]
    exact ih
  | @branch obj bs token i v t path hbs htoken hv _ ih =>
    have hstep : step (flavorNode (.object obj)).1 "anyOf" =
        some (.array (bs.map fun b => (flavorNode b).1)) := by
      rw [flavorNode_fst]
      show (walked (rewriteNode obj).1).get "anyOf" = _
      rw [get_walked, hbs]
      rfl
    have hindex : step (.array (bs.map fun b => (flavorNode b).1)) token =
        some (flavorNode v).1 := by
      rw [step, htoken, Option.bind_some, List.getElem?_map, hv]
      rfl
    rw [pointer_cons, hstep, Option.bind_some, pointer_cons, hindex]
    exact ih

/-- A reference to another document keeps its name. -/
theorem renamed_of_outside {reference : String} (h : fragment D reference = none) :
    renamed reference = reference := by
  unfold renamed
  split
  · rename_i rest hfront
    have heq := Strings.stripPrefix_eq_some.mp hfront
    have hpath : Strings.stripPrefix reference "#/" = some ("definitions/" ++ rest) :=
      Strings.stripPrefix_eq_some.mpr (by rw [heq, ← String.append_assoc]; rfl)
    unfold fragment at h
    split at h
    · cases h
    · rw [hpath] at h
      cases h
  · rfl

/-- The definitions are read through references only. -/
theorem judge_definitionsToDefs (h : judge D refs schema x = some p) :
    judge D refs (definitionsToDefs schema).1 x = some p := by
  cases schema with
  | object obj =>
    have hget : ∃ moved : Map, (definitionsToDefs (.object obj)).1 = .object moved ∧
        ∀ key, key ≠ "definitions" → key ≠ "$defs" → moved.get key = Map.get obj key := by
      unfold definitionsToDefs
      dsimp only
      split
      · exact ⟨obj, rfl, fun _ _ _ => rfl⟩
      · split
        · exact ⟨_, rfl, fun key hdefinitions hdefs => by
            rw [get_set_of_ne hdefs, get_without_of_ne hdefinitions]⟩
        · exact ⟨_, rfl, fun key hdefinitions _ => get_without_of_ne hdefinitions⟩
        · exact ⟨_, rfl, fun key hdefinitions hdefs => by
            rw [get_insert_of_ne hdefs, get_without_of_ne hdefinitions]⟩
    obtain ⟨moved, hmoved, hget⟩ := hget
    rw [hmoved]
    refine judge_keeps (fun key hkey => ?_) h
    by_cases hinert : key = "definitions" ∨ key = "$defs"
    · have htrue : ∀ node : Map, field D (judge D refs) refs node x key = some true := by
        intro node
        cases hvalue : node.get key with
        | none => exact field_none hvalue
        | some value =>
          rw [field_eq .inert (by rcases hinert with rfl | rfl <;> rfl) hvalue]
          rfl
      rw [htrue] at hkey ⊢
      exact hkey
    · rw [not_or] at hinert
      rw [field_congr (hget key hinert.1 hinert.2) fun kw _ near hnear => ?_]
      · exact hkey
      · have hmem := neighbours_subset kw hnear
        refine hget near ?_ ?_ <;>
        · rintro rfl
          exact absurd hmem (by decide)
  | _ => exact h

/-- A reference that leads on keeps the verdict of what it leads to. -/
theorem Leads.followed {reference name : String} {hops : ℕ} (hleads : Leads D schema reference name)
    (houtside : fragment D reference = none → name = reference)
    (hkeeps : ∀ t, target D schema reference = some t →
      judge D (followed D schema hops) t x = some p →
      judge D (followed D (flavorSchema schema).1 hops) (flavorNode t).1 x = some p)
    (h : followed D schema (hops + 1) reference x = some p) :
    followed D (flavorSchema schema).1 (hops + 1) name x = some p := by
  cases hfragment : fragment D reference with
  | none =>
    rw [JsonSchema.followed, hfragment] at h
    rw [houtside hfragment, JsonSchema.followed, hfragment]
    exact h
  | some path =>
    have hverdict : ∃ t, target D schema reference = some t ∧
        judge D (JsonSchema.followed D schema hops) t x = some p := by
      rw [JsonSchema.followed, hfragment] at h
      obtain ⟨t, ht, hjudge⟩ := Option.bind_eq_some_iff.mp h
      cases path with
      | nil =>
        cases ht
        exact ⟨_, by rw [target, hfragment], judge_definitionsToDefs hjudge⟩
      | cons token path => exact ⟨t, by rw [target, hfragment]; exact ht, hjudge⟩
    obtain ⟨t, htarget, hjudge⟩ := hverdict
    obtain ⟨path', hpath, hstays⟩ := hleads t htarget
    rw [JsonSchema.followed, hpath]
    exact Option.bind_eq_some_iff.mpr ⟨_, hstays.pointer, hkeeps t htarget hjudge⟩

/-- **References keep the verdicts that a tame schema is asked for**, however many follow. -/
theorem followed_keeps (htame : Tame D schema) (hops : ℕ) :
    Carries D schema (followed D schema hops) (followed D (flavorSchema schema).1 hops) := by
  induction hops with
  | zero =>
    constructor <;> intro p known obj reference _ _ x _ h
    · cases h
    · cases h
  | succ hops ih =>
    constructor <;> intro p known obj reference hjudged href x hknown
    · have hleads := htame.references p known obj reference hjudged href
      refine hleads.followed renamed_of_outside fun t ht => ?_
      exact flavorNode_keeps htame ih (.target hjudged href ht) hknown
    · have hleads := htame.nested p known obj reference hjudged href
      refine hleads.followed (fun _ => rfl) fun t ht => ?_
      exact flavorNode_keeps htame ih (.leftTarget hjudged href ht) hknown

end

/-! ## Schemas on both sides -/

/-- A dialect without patterns, in which the other keywords ask for nothing. -/
def plain : Dialect where
  isMatch _ _ := false
  assertion _ _ _ := some true
  outside _ _ := none
  unescape token := token

/-- A reference of its own. -/
def lone : Map := [("$ref", .string "#/definitions/a")]

/-- A node that lists one value. -/
def listed : Map := [("const", .string "x")]

/-- A definition under its former name. -/
def defined : Value :=
  .object [("$ref", .string "#/definitions/a"), ("definitions", .object [("a", .object listed)])]

/-- The root, with its definitions moved. -/
def moved : Map :=
  [("$defs", .object [("a", .object listed)]), ("$ref", .string "#/definitions/a")]

/-- The nodes that the definition is read through. -/
theorem judged_defined {w p : Bool} {known : List Value} {v : Value}
    (h : Judged plain defined w p known v) : w = true ∧ p = true ∧ known = [] ∧
      (v = .object moved ∨ v = .object lone ∨ v = .object listed) := by
  induction h with
  | root => exact ⟨rfl, rfl, rfl, .inl (by decide)⟩
  | @piece p q known obj key kw value c sign _ hvalue hkw hc hq ih =>
    obtain ⟨-, rfl, rfl, hobj⟩ := ih
    have hmem := Map.mem_of_get hvalue
    rcases hobj with heq | heq | heq <;> cases heq
    · have hrewritten : (rewriteNode moved).1 = [("$defs", .object [("a", .object listed)]),
          ("anyOf", .array [.object lone])] := by decide
      rw [hrewritten] at hmem hc
      simp only [List.mem_cons, List.not_mem_nil, or_false, Prod.mk.injEq] at hmem
      rcases hmem with ⟨rfl, rfl⟩ | ⟨rfl, rfl⟩ <;> cases hkw
      · cases hc
      · obtain ⟨rfl, rfl⟩ : sign = .same ∧ c = .object lone := by simpa [pieces] using hc
        exact ⟨rfl, hq, by decide, .inr (.inl rfl)⟩
    · have hrewritten : (rewriteNode lone).1 = [("$ref", .string "#/$defs/a")] := by decide
      rw [hrewritten] at hmem hc
      simp only [List.mem_cons, List.not_mem_nil, or_false, Prod.mk.injEq] at hmem
      obtain ⟨rfl, rfl⟩ := hmem
      cases hkw
      cases hc
    · have hrewritten : (rewriteNode listed).1 =
          [("enum", .array [.string "x"]), ("type", .string "string")] := by decide
      rw [hrewritten] at hmem hc
      simp only [List.mem_cons, List.not_mem_nil, or_false, Prod.mk.injEq] at hmem
      rcases hmem with ⟨rfl, rfl⟩ | ⟨rfl, rfl⟩ <;> cases hkw <;> cases hc
  | @target p known obj reference t _ href htarget ih =>
    obtain ⟨-, rfl, rfl, hobj⟩ := ih
    have hfound : target plain defined "#/definitions/a" = some (.object listed) := by decide
    rcases hobj with heq | heq | heq <;> cases heq
    · have hget : (mergeAllOf moved).1.get "$ref" = some (.string "#/definitions/a") := by decide
      cases hget.symm.trans href
      cases hfound.symm.trans htarget
      exact ⟨rfl, rfl, by decide, .inr (.inr rfl)⟩
    · have hget : (mergeAllOf lone).1.get "$ref" = some (.string "#/definitions/a") := by decide
      cases hget.symm.trans href
      cases hfound.symm.trans htarget
      exact ⟨rfl, rfl, by decide, .inr (.inr rfl)⟩
    · have hget : (mergeAllOf listed).1.get "$ref" = none := by decide
      cases hget.symm.trans href
  | leftPiece _ _ _ _ _ ih => cases ih.1
  | leftTarget _ _ _ ih => cases ih.1

theorem tame_defined : Tame plain defined where
  nodes p known obj h := by
    obtain ⟨-, rfl, rfl, hobj⟩ := judged_defined h
    rcases hobj with heq | heq | heq <;> cases heq
    · exact ⟨merges_of_none (by decide), .noTuple (by decide) (by decide), .inl (by decide)⟩
    · exact ⟨merges_of_none (by decide), .noTuple (by decide) (by decide), .inl (by decide)⟩
    · have henum : (foldTupleItems (constToEnum (mergeAllOf listed).1).1).1.get "enum" =
          some (.array [.string "x"]) := by decide
      exact ⟨merges_of_none (by decide), .noTuple (by decide) (by decide),
        .inr (.inr (implied_of_literals henum (by decide)))⟩
  references p known obj reference h href t htarget := by
    have hstays : Stays (.object moved) ["$defs", "a"] (.object listed) :=
      .entry (m := [("a", .object listed)]) (by decide) (by decide) (by decide) (.here _)
    have hmoved : (definitionsToDefs defined).1 = .object moved := by decide
    have hreference : reference = "#/definitions/a" := by
      obtain ⟨-, rfl, rfl, hobj⟩ := judged_defined h
      rcases hobj with heq | heq | heq <;> cases heq
      · have hget : (mergeAllOf moved).1.get "$ref" = some (.string "#/definitions/a") := by decide
        cases hget.symm.trans href
        rfl
      · have hget : (mergeAllOf lone).1.get "$ref" = some (.string "#/definitions/a") := by decide
        cases hget.symm.trans href
        rfl
      · have hget : (mergeAllOf listed).1.get "$ref" = none := by decide
        cases hget.symm.trans href
    subst hreference
    have hfound : target plain defined "#/definitions/a" = some (.object listed) := by decide
    cases hfound.symm.trans htarget
    exact ⟨["$defs", "a"], by decide, hmoved ▸ hstays⟩
  nested p known obj reference h := by
    cases (judged_defined h).1

end Llmleaf.Moonshot
