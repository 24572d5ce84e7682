import Llmleaf.Json
import Llmleaf.Lib.Kleene
import Llmleaf.Lib.Strings

/-!
# JSON Schema

When an instance is valid against a schema, for the keywords of the 2020-12 dialect that apply
schemas, name types or list values, with the tuples and the definitions of draft-07. A verdict is
yes, no, or open: it is open where a keyword is malformed, and where references lead nowhere or in
circles. The keywords that are judged by what others looked at (`unevaluatedItems`,
`unevaluatedProperties`) are not among them.

- `judge`: the verdict of a schema, given those of the references.
- `followed`: the verdicts of references, through at most so many references in a row.
- `Valid`: some number of references settles the verdict, and it is yes.
- `keyword_keeps`: a verdict rests on those of the schemas that a keyword applies.
- `judge_object`: a node is judged by its fields, each on its own but for a few neighbours.
-/

namespace Llmleaf.JsonSchema

/-! ## Instances -/

/-- Is a number an integer? -/
def isInteger (n : Number) : Bool := ((Value.number n).asF64.map Rat.den) == some 1

/-- Does an instance have a type? -/
def hasType (x : Value) (ty : String) : Bool :=
  match x with
  | .null => ty == "null"
  | .bool _ => ty == "boolean"
  | .number n => ty == "number" || (ty == "integer" && isInteger n)
  | .string _ => ty == "string"
  | .array _ => ty == "array"
  | .object _ => ty == "object"

mutual

/-- Are two instances equal? Numbers are equal by their value, objects in any order. -/
def equal : Value → Value → Bool
  | .null, .null => true
  | .bool a, .bool b => a == b
  | .number a, .number b => (Value.number a).asF64 == (Value.number b).asF64
  | .string a, .string b => a == b
  | .array xs, .array ys => equalItems xs ys
  | .object m, .object m' => m.length == m'.length && equalFields m m'
  | _, _ => false

def equalItems : List Value → List Value → Bool
  | [], [] => true
  | v :: xs, w :: ys => equal v w && equalItems xs ys
  | _, _ => false

def equalFields : List (String × Value) → Map → Bool
  | [], _ => true
  | (key, v) :: m, m' => ((m'.get key).elim false fun w => equal v w) && equalFields m m'

end

/-- Equal instances have the same types. -/
theorem hasType_of_equal {v x : Value} {ty : String} (h : equal v x = true)
    (hty : hasType v ty = true) : hasType x ty = true := by
  cases v <;> cases x <;> simp only [equal, Bool.false_eq_true] at h <;> try exact hty
  rename_i m n
  have hinteger : isInteger n = isInteger m := by
    rw [isInteger, isInteger, eq_of_beq h]
  rw [hasType] at hty ⊢
  rwa [hinteger]

/-- The members of an object. -/
def members : Value → Map
  | .object fields => fields
  | _ => []

/-- The elements of an array. -/
def elements : Value → List Value
  | .array xs => xs
  | _ => []

/-- The natural number that a number is. -/
def natural (v : Value) : Option ℕ :=
  v.asF64.bind fun q => if q.den = 1 ∧ 0 ≤ q then some q.num.toNat else none

/-! ## Keywords -/

/-- The keywords with a meaning of their own. `inert` ones are read by others. -/
inductive Keyword where
  | type | const | enum | required
  | allOf | anyOf | oneOf | not | cond
  | properties | patternProperties | additionalProperties | propertyNames
  | items | prefixItems | additionalItems | contains | maxItems
  | ref | inert
  deriving DecidableEq

def Keyword.ofKey (key : String) : Option Keyword :=
  match key with
  | "type" => some .type
  | "const" => some .const
  | "enum" => some .enum
  | "required" => some .required
  | "allOf" => some .allOf
  | "anyOf" => some .anyOf
  | "oneOf" => some .oneOf
  | "not" => some .not
  | "if" => some .cond
  | "properties" => some .properties
  | "patternProperties" => some .patternProperties
  | "additionalProperties" => some .additionalProperties
  | "propertyNames" => some .propertyNames
  | "items" => some .items
  | "prefixItems" => some .prefixItems
  | "additionalItems" => some .additionalItems
  | "contains" => some .contains
  | "maxItems" => some .maxItems
  | "$ref" => some .ref
  | "then" | "else" | "minContains" | "maxContains" | "$defs" | "definitions" => some .inert
  | _ => none

/-- The key of a keyword; one of them for the inert ones. -/
def Keyword.key : Keyword → String
  | .type => "type"
  | .const => "const"
  | .enum => "enum"
  | .required => "required"
  | .allOf => "allOf"
  | .anyOf => "anyOf"
  | .oneOf => "oneOf"
  | .not => "not"
  | .cond => "if"
  | .properties => "properties"
  | .patternProperties => "patternProperties"
  | .additionalProperties => "additionalProperties"
  | .propertyNames => "propertyNames"
  | .items => "items"
  | .prefixItems => "prefixItems"
  | .additionalItems => "additionalItems"
  | .contains => "contains"
  | .maxItems => "maxItems"
  | .ref => "$ref"
  | .inert => "$defs"

theorem Keyword.key_of_ofKey {key : String} {kw : Keyword} (h : Keyword.ofKey key = some kw)
    (hne : kw ≠ .inert) : key = kw.key := by
  unfold Keyword.ofKey at h
  split at h <;> cases h <;> first | rfl | exact absurd rfl hne

/-- What schemas are judged with beside the keywords: patterns, the other keywords, references to
other documents, and the names in a pointer. -/
structure Dialect where
  isMatch : String → String → Bool
  assertion : String → Value → Value → Option Bool
  outside : String → Value → Option Bool
  unescape : String → String

/-- The verdict of a type, or of a list of them. -/
def typed (value x : Value) : Option Bool :=
  match value with
  | .string ty => some (hasType x ty)
  | .array types =>
    if types ≠ [] ∧ types.all (fun t => t.asStr.isSome) then
      some (types.any fun t => t.asStr.any (hasType x))
    else none
  | _ => none

/-- The verdict of a list of required names. -/
def requires (names : List Value) (x : Value) : Option Bool :=
  if names.all (fun name => name.asStr.isSome) then
    match x with
    | .object fields =>
      some (names.all fun name => name.asStr.any fun n => (Map.get fields n).isSome)
    | _ => some true
  else none

theorem requires_eq_true {names : List Value} {x : Value} : requires names x = some true ↔
    ∀ name ∈ names, name.asStr.isSome = true ∧ ∀ fields, x = .object fields →
      (name.asStr.any fun n => (Map.get fields n).isSome) = true := by
  unfold requires
  constructor
  · intro h name hname
    split at h
    · rename_i hnames
      refine ⟨List.all_eq_true.mp hnames name hname, ?_⟩
      rintro fields rfl
      exact List.all_eq_true.mp (Option.some.inj h) name hname
    · cases h
  · intro h
    rw [if_pos (List.all_eq_true.mpr fun name hname => (h name hname).1)]
    cases x with
    | object fields =>
      exact congrArg some (List.all_eq_true.mpr fun name hname => (h name hname).2 fields rfl)
    | _ => rfl

/-- The map of schemas under a key. -/
def mapAt (obj : Map) (key : String) : Map :=
  match obj.get key with
  | some (.object m) => m
  | _ => []

/-- How many elements have a schema of their own. -/
def prefixCount (obj : Map) : ℕ :=
  match obj.get "prefixItems" with
  | some (.array ps) => ps.length
  | _ => 0

/-- A limit that may be missing. -/
def limit (obj : Map) (key : String) (default : ℕ) : Option ℕ :=
  match obj.get key with
  | some v => natural v
  | none => some default

section

variable (D : Dialect) (V : Value → Value → Option Bool) (refs : String → Value → Option Bool)

/-- Do the properties or the patterns of a node speak of a name? -/
def covers (obj : Map) (name : String) : Bool :=
  (mapAt obj "properties").any (·.1 = name) ||
    (mapAt obj "patternProperties").any fun p => D.isMatch p.1 name

/-- The verdict of a field that may be missing. -/
def whenPresent (obj : Map) (key : String) (x : Value) : Option Bool :=
  match obj.get key with
  | some s => V s x
  | none => some true

/-- **The verdict of a keyword**, given those of the schemas it applies. -/
def keyword (obj : Map) (kw : Keyword) (value x : Value) : Option Bool :=
  match kw, value with
  | .type, value => typed value x
  | .const, value => some (equal value x)
  | .enum, .array values => some (values.any fun v => equal v x)
  | .required, .array names => requires names x
  | .allOf, .array bs => Kleene.all (bs.map fun b => V b x)
  | .anyOf, .array bs => Kleene.any (bs.map fun b => V b x)
  | .oneOf, .array bs => Kleene.one (bs.map fun b => V b x)
  | .not, s => (V s x).map (!·)
  | .cond, s =>
    match V s x with
    | some true => whenPresent V obj "then" x
    | some false => whenPresent V obj "else" x
    | none => none
  | .properties, .object props =>
    Kleene.all (props.map fun p => ((members x).get p.1).elim (some true) (V p.2))
  | .patternProperties, .object patterns =>
    Kleene.all (patterns.map fun p =>
      Kleene.all ((members x).map fun m => if D.isMatch p.1 m.1 then V p.2 m.2 else some true))
  | .additionalProperties, s =>
    Kleene.all ((members x).map fun m => if covers D obj m.1 then some true else V s m.2)
  | .propertyNames, s => Kleene.all ((members x).map fun m => V s (.string m.1))
  | .items, .array tuple => Kleene.all ((tuple.zip (elements x)).map fun p => V p.1 p.2)
  | .items, s => Kleene.all (((elements x).drop (prefixCount obj)).map fun y => V s y)
  | .prefixItems, .array ps => Kleene.all ((ps.zip (elements x)).map fun p => V p.1 p.2)
  -- only a tuple leaves elements over
  | .additionalItems, s =>
    match obj.get "items" with
    | some (.array tuple) => Kleene.all (((elements x).drop tuple.length).map fun y => V s y)
    | _ => some true
  | .contains, s =>
    match x with
    | .array ys => do
      let lo ← limit obj "minContains" 1
      let hi ← limit obj "maxContains" ys.length
      Kleene.within lo hi (ys.map fun y => V s y)
    | _ => some true
  | .maxItems, value => (natural value).map fun n => decide ((elements x).length ≤ n)
  | .ref, .string r => refs r x
  | .inert, _ => some true
  | _, _ => none

/-- The verdict of a field of a node. -/
def field (obj : Map) (x : Value) (key : String) : Option Bool :=
  match obj.get key with
  | some value =>
    match Keyword.ofKey key with
    | some kw => keyword D V refs obj kw value x
    | none => D.assertion key value x
  | none => some true

end

/-- How the verdict of a keyword rests on that of a schema it applies. -/
inductive Sign where
  | same | flipped | both
  deriving DecidableEq

/-- The verdicts of the schema that a verdict of the keyword can rest on. -/
def Sign.asks : Sign → Bool → Bool → Prop
  | .same, p, q => q = p
  | .flipped, p, q => q = !p
  | .both, _, _ => True

/-- The schemas a keyword applies. -/
def pieces (obj : Map) (kw : Keyword) (value : Value) : List (Sign × Value) :=
  match kw, value with
  | .allOf, .array bs | .anyOf, .array bs | .prefixItems, .array bs => bs.map (Sign.same, ·)
  | .oneOf, .array bs => bs.map (Sign.both, ·)
  | .not, s => [(.flipped, s)]
  | .cond, s => (.both, s) :: (["then", "else"].filterMap obj.get).map (Sign.same, ·)
  | .properties, .object m | .patternProperties, .object m => m.map fun p => (.same, p.2)
  | .items, .array tuple => tuple.map (Sign.same, ·)
  | .contains, s => [(if (obj.get "maxContains").isSome then .both else .same, s)]
  | .additionalProperties, s | .propertyNames, s | .items, s | .additionalItems, s => [(.same, s)]
  | _, _ => []

/-- Does a keyword apply its schemas to the instance itself? -/
def Keyword.inPlace : Keyword → Bool
  | .allOf | .anyOf | .oneOf | .not | .cond => true
  | _ => false

/-! ## Schemas -/

mutual

/-- How deep the schemas of a value are nested. -/
def levels : Value → ℕ
  | .array xs => 1 + itemsLevels xs
  | .object obj => 1 + fieldsLevels obj
  | _ => 1

def itemsLevels : List Value → ℕ
  | [] => 0
  | v :: xs => max (levels v) (itemsLevels xs)

def fieldsLevels : List (String × Value) → ℕ
  | [] => 0
  | (_, v) :: obj => max (levels v) (fieldsLevels obj)

end

section

variable (D : Dialect) (refs : String → Value → Option Bool)

/-- Judge an instance, down to a depth. -/
def judgeDeep : ℕ → Value → Value → Option Bool
  | _ + 1, .bool b, _ => some b
  | depth + 1, .object obj, x =>
    Kleene.all ((obj.map Prod.fst).map (field D (judgeDeep depth) refs obj x))
  | _, _, _ => none

/-- **The verdict of a schema**, given those of the references. -/
def judge (s x : Value) : Option Bool := judgeDeep D refs (levels s) s x

end

/-! ## References -/

/-- One step of a pointer: a field, or an element by its index. -/
def step (v : Value) (token : String) : Option Value :=
  match v with
  | .object m => Map.get m token
  | .array xs => (Strings.parseUnsigned (2 ^ 64) token.toList).bind fun i => xs[i]?
  | _ => none

/-- What a pointer leads to. -/
def pointer (v : Value) (path : List String) : Option Value := path.foldlM step v

/-- The path of a reference within its document. -/
def fragment (D : Dialect) (r : String) : Option (List String) :=
  if r = "#" then some []
  else (Strings.stripPrefix r "#/").map fun rest =>
    (rest.toList.splitOn '/').map fun token => D.unescape (String.ofList token)

/-- The verdict of a reference, through at most so many references in a row. -/
def followed (D : Dialect) (root : Value) : ℕ → String → Value → Option Bool
  | 0, _, _ => none
  | hops + 1, r, x =>
    match fragment D r with
    | some path => (pointer root path).bind fun s => judge D (followed D root hops) s x
    | none => D.outside r x

/-- **An instance is valid against a schema.** -/
def Valid (D : Dialect) (s x : Value) : Prop := ∃ hops, judge D (followed D s hops) s x = some true

/-! ## Verdicts and what they rest on -/

section

variable {D : Dialect} {V W : Value → Value → Option Bool}
  {refs refs' : String → Value → Option Bool} {obj : Map} {kw : Keyword} {value x : Value}
  {p : Bool}

theorem whenPresent_keeps {key : String}
    (h : ∀ s, obj.get key = some s → V s x = some p → W s x = some p)
    (hv : whenPresent V obj key x = some p) : whenPresent W obj key x = some p := by
  unfold whenPresent at hv ⊢
  split at hv
  · rename_i s hs
    exact h s hs hv
  · exact hv

/-- **A verdict rests on the schemas a keyword applies** and on the reference it follows. -/
theorem keyword_keeps
    (hpieces : ∀ e ∈ pieces obj kw value, ∀ q, e.1.asks p q → ∀ y, (kw.inPlace = true → y = x) →
      V e.2 y = some q → W e.2 y = some q)
    (hrefs : ∀ r, kw = .ref → value = .string r → refs r x = some p → refs' r x = some p)
    (h : keyword D V refs obj kw value x = some p) : keyword D W refs' obj kw value x = some p := by
  have hsame : ∀ s, (Sign.same, s) ∈ pieces obj kw value → ∀ y, (kw.inPlace = true → y = x) →
      V s y = some p → W s y = some p := fun s hs => hpieces _ hs p rfl
  cases kw with
  | type | const | maxItems | inert => exact h
  | enum | required => cases value <;> exact h
  | allOf =>
    cases value with
    | array bs =>
      exact Kleene.all_keeps (fun b hb => hsame b (List.mem_map_of_mem hb) x fun _ => rfl) h
    | _ => exact h
  | anyOf =>
    cases value with
    | array bs =>
      exact Kleene.any_keeps (fun b hb => hsame b (List.mem_map_of_mem hb) x fun _ => rfl) h
    | _ => exact h
  | oneOf =>
    cases value with
    | array bs =>
      refine Kleene.one_keeps (fun q b hb => ?_) h
      exact hpieces _ (List.mem_map_of_mem hb) q trivial x fun _ => rfl
    | _ => exact h
  | not =>
    have hpiece := hpieces (.flipped, value) (List.mem_singleton_self _) (!p) rfl x fun _ => rfl
    exact Kleene.map_not_eq_some.mpr (hpiece (Kleene.map_not_eq_some.mp h))
  | cond =>
    have hbranch : ∀ key ∈ ["then", "else"],
        whenPresent V obj key x = some p → whenPresent W obj key x = some p := by
      intro key hkey
      refine whenPresent_keeps fun s hs => hsame s ?_ x fun _ => rfl
      refine List.mem_cons_of_mem _ (List.mem_map_of_mem ?_)
      exact List.mem_filterMap.mpr ⟨key, hkey, hs⟩
    have hcond : ∀ q, V value x = some q → W value x = some q :=
      fun q => hpieces (.both, value) List.mem_cons_self q trivial x fun _ => rfl
    unfold keyword at h ⊢
    dsimp only at h ⊢
    cases hv : V value x with
    | none =>
      rw [hv] at h
      cases h
    | some c =>
      rw [hv] at h
      rw [hcond c hv]
      cases c with
      | true => exact hbranch "then" (by simp) h
      | false => exact hbranch "else" (by simp) h
  | properties =>
    cases value with
    | object props =>
      refine Kleene.all_keeps (fun e he => ?_) h
      cases (members x).get e.1 with
      | none => exact id
      | some y => exact hsame e.2 (List.mem_map.mpr ⟨e, he, rfl⟩) y nofun
    | _ => exact h
  | patternProperties =>
    cases value with
    | object patterns =>
      refine Kleene.all_keeps (fun e he => Kleene.all_keeps fun m _ => ?_) h
      by_cases hmatch : D.isMatch e.1 m.1
      · rw [if_pos hmatch, if_pos hmatch]
        exact hsame e.2 (List.mem_map.mpr ⟨e, he, rfl⟩) m.2 nofun
      · rw [if_neg hmatch, if_neg hmatch]
        exact id
    | _ => exact h
  | additionalProperties =>
    refine Kleene.all_keeps (fun m _ => ?_) h
    by_cases hcovers : covers D obj m.1
    · rw [if_pos hcovers, if_pos hcovers]
      exact id
    · rw [if_neg hcovers, if_neg hcovers]
      exact hsame value (by simp [pieces]) m.2 nofun
  | propertyNames => exact Kleene.all_keeps (fun m _ => hsame value (by simp [pieces]) _ nofun) h
  | items =>
    cases value with
    | array tuple =>
      refine Kleene.all_keeps (fun e he => hsame e.1 ?_ e.2 nofun) h
      exact List.mem_map_of_mem (List.of_mem_zip he).1
    | _ => exact Kleene.all_keeps (fun y _ => hsame _ (by simp [pieces]) y nofun) h
  | prefixItems =>
    cases value with
    | array ps =>
      refine Kleene.all_keeps (fun e he => hsame e.1 ?_ e.2 nofun) h
      exact List.mem_map_of_mem (List.of_mem_zip he).1
    | _ => exact h
  | additionalItems =>
    unfold keyword at h ⊢
    dsimp only at h ⊢
    split at h
    · exact Kleene.all_keeps (fun y _ => hsame value (by simp [pieces]) y nofun) h
    · exact h
  | contains =>
    cases x with
    | array ys =>
      obtain ⟨lo, hlo, h⟩ := Option.bind_eq_some_iff.mp h
      obtain ⟨hi, hhi, h⟩ := Option.bind_eq_some_iff.mp h
      refine Option.bind_eq_some_iff.mpr ⟨lo, hlo, Option.bind_eq_some_iff.mpr ⟨hi, hhi, ?_⟩⟩
      cases hmax : obj.get "maxContains" with
      | none =>
        rw [limit, hmax] at hhi
        refine Kleene.within_keeps (fun y _ => hsame value (by simp [pieces, hmax]) y nofun) ?_ h
        exact .inl (Option.some.inj hhi).le
      | some v =>
        have hboth : ∀ q, ∀ y, V value y = some q → W value y = some q :=
          fun q y => hpieces (.both, value) (by simp [pieces, hmax]) q trivial y nofun
        exact Kleene.within_keeps (fun y _ => hboth p y) (.inr fun y _ => hboth (!p) y) h
    | _ => exact h
  | ref =>
    cases value with
    | string r => exact hrefs r rfl rfl h
    | _ => exact h

theorem field_keeps {key : String}
    (hpieces : ∀ value kw, obj.get key = some value → Keyword.ofKey key = some kw →
      ∀ e ∈ pieces obj kw value, ∀ q, e.1.asks p q → ∀ y, (kw.inPlace = true → y = x) →
        V e.2 y = some q → W e.2 y = some q)
    (hrefs : ∀ r, Keyword.ofKey key = some .ref → obj.get key = some (.string r) →
      refs r x = some p → refs' r x = some p)
    (h : field D V refs obj x key = some p) : field D W refs' obj x key = some p := by
  unfold field at h ⊢
  cases hvalue : obj.get key with
  | none => rwa [hvalue] at h
  | some value =>
    rw [hvalue] at h
    dsimp only at h ⊢
    cases hkw : Keyword.ofKey key with
    | none => rwa [hkw] at h
    | some kw =>
      rw [hkw] at h
      refine keyword_keeps (hpieces value kw hvalue hkw) ?_ h
      rintro r rfl rfl
      exact hrefs r hkw hvalue

/-! ### Depth -/

theorem levels_of_mem {xs : List Value} {v : Value} (h : v ∈ xs) : levels v ≤ itemsLevels xs := by
  induction xs with
  | nil => cases h
  | cons w xs ih =>
    rw [itemsLevels]
    rcases List.mem_cons.mp h with rfl | h
    · exact le_max_left _ _
    · exact (ih h).trans (le_max_right _ _)

theorem levels_of_mem_fields {m : Map} {e : String × Value} (h : e ∈ m) :
    levels e.2 ≤ fieldsLevels m := by
  induction m with
  | nil => cases h
  | cons e' m ih =>
    rw [fieldsLevels]
    rcases List.mem_cons.mp h with rfl | h
    · exact le_max_left _ _
    · exact (ih h).trans (le_max_right _ _)

theorem levels_pos (v : Value) : 0 < levels v := by
  cases v <;> simp [levels]

/-- A piece of a list of schemas is one of them. -/
theorem mem_of_piece {sign : Sign} {bs : List Value} {e : Sign × Value}
    (h : e ∈ bs.map (sign, ·)) : e.2 ∈ bs := by
  obtain ⟨b, hb, rfl⟩ := List.mem_map.mp h
  exact hb

/-- The schemas of a value are nested less deep than what it is a field of. -/
theorem levels_piece {key : String} (hvalue : obj.get key = some value) {e : Sign × Value}
    (h : e ∈ pieces obj kw value) : levels e.2 < levels (.object obj) := by
  have hfield : ∀ {key v}, obj.get key = some v → levels v < levels (.object obj) := by
    intro key v hv
    have hle : levels v ≤ fieldsLevels obj := levels_of_mem_fields (Map.mem_of_get hv)
    rw [levels]
    omega
  have hmem : ∀ {xs}, value = .array xs → e.2 ∈ xs → levels e.2 < levels (.object obj) := by
    rintro xs rfl hs
    have hlt := hfield hvalue
    have hle := levels_of_mem hs
    rw [levels] at hlt
    omega
  have hmap : ∀ {m : Map}, value = .object m → e ∈ m.map (fun p => (Sign.same, p.2)) →
      levels e.2 < levels (.object obj) := by
    rintro m rfl hs
    obtain ⟨f, hf, rfl⟩ := List.mem_map.mp hs
    have hlt := hfield hvalue
    have hle := levels_of_mem_fields hf
    rw [levels] at hlt
    dsimp only
    omega
  unfold pieces at h
  split at h
  · exact hmem rfl (mem_of_piece h)
  · exact hmem rfl (mem_of_piece h)
  · exact hmem rfl (mem_of_piece h)
  · exact hmem rfl (mem_of_piece h)
  · exact List.mem_singleton.mp h ▸ hfield hvalue
  · rcases List.mem_cons.mp h with rfl | h
    · exact hfield hvalue
    · obtain ⟨key, -, hs⟩ := List.mem_filterMap.mp (mem_of_piece h)
      exact hfield hs
  · exact hmap rfl h
  · exact hmap rfl h
  · exact hmem rfl (mem_of_piece h)
  all_goals first
    | exact List.mem_singleton.mp h ▸ hfield hvalue
    | cases h

/-- **Enough depth** settles the verdict. -/
theorem judgeDeep_enough {depth depth' : ℕ} {s : Value} (h : levels s ≤ depth)
    (h' : levels s ≤ depth') (x : Value) (p : Bool) (hjudge : judgeDeep D refs depth s x = some p) :
    judgeDeep D refs depth' s x = some p := by
  induction depth generalizing depth' s x p with
  | zero => cases hjudge
  | succ depth ih =>
    obtain ⟨depth', rfl⟩ : ∃ d, depth' = d + 1 :=
      ⟨depth' - 1, by have := levels_pos s; omega⟩
    cases s with
    | object obj =>
      refine Kleene.all_keeps (fun key _ => field_keeps ?_ fun r _ _ => id) hjudge
      intro value kw hvalue _ e he q _ y _
      have hlt := levels_piece hvalue he
      exact ih (by omega) (by omega) y q
    | bool b => exact hjudge
    | _ => cases hjudge

end

section

variable {D : Dialect} {refs refs' : String → Value → Option Bool} {obj obj' : Map}

/-- **A node is judged by its fields.** -/
theorem judge_object (x : Value) : judge D refs (.object obj) x =
    Kleene.all ((obj.map Prod.fst).map (field D (judge D refs) refs obj x)) := by
  obtain ⟨depth, hdepth⟩ : ∃ d, levels (.object obj) = d + 1 :=
    ⟨levels (.object obj) - 1, by have := levels_pos (.object obj); omega⟩
  have hfield : ∀ key, field D (judgeDeep D refs depth) refs obj x key =
      field D (judge D refs) refs obj x key := by
    intro key
    refine Kleene.eq_of_keeps (fun p => field_keeps ?_ fun r _ _ => id)
      fun p => field_keeps ?_ fun r _ _ => id <;>
      intro value kw hvalue _ e he q _ y _ <;> have hlt := levels_piece hvalue he
    · exact judgeDeep_enough (by omega) le_rfl y q
    · exact judgeDeep_enough le_rfl (by omega) y q
  rw [judge, hdepth, judgeDeep]
  exact congrArg Kleene.all (List.map_congr_left fun key _ => hfield key)

@[simp] theorem judge_bool (b : Bool) (x : Value) : judge D refs (.bool b) x = some b := rfl

/-- What is no schema has no verdict. -/
theorem judge_other {s : Value} (hobject : ∀ obj, s ≠ .object obj) (hbool : ∀ b, s ≠ .bool b)
    (x : Value) : judge D refs s x = none := by
  cases s with
  | object obj => exact absurd rfl (hobject obj)
  | bool b => exact absurd rfl (hbool b)
  | _ => simp [judge, judgeDeep]

/-! ## Fields -/

section

variable {V : Value → Value → Option Bool} {kw : Keyword} {key : String} {value x : Value}

theorem field_eq (kw : Keyword) (hkey : Keyword.ofKey key = some kw)
    (hvalue : obj.get key = some value) :
    field D V refs obj x key = keyword D V refs obj kw value x := by
  rw [field, hvalue]
  dsimp only
  rw [hkey]

theorem field_none (hvalue : obj.get key = none) : field D V refs obj x key = some true := by
  rw [field, hvalue]

/-- The fields beside a keyword that its verdict rests on. -/
def neighbours : Keyword → List String
  | .cond => ["then", "else"]
  | .additionalProperties => ["properties", "patternProperties"]
  | .items => ["prefixItems"]
  | .additionalItems => ["items"]
  | .contains => ["minContains", "maxContains"]
  | _ => []

theorem limit_congr {name : String} {default : ℕ} (h : obj'.get name = obj.get name) :
    limit obj' name default = limit obj name default := by
  rw [limit, limit, h]

theorem keyword_congr (h : ∀ near ∈ neighbours kw, obj'.get near = obj.get near) :
    keyword D V refs obj' kw value x = keyword D V refs obj kw value x := by
  cases kw with
  | cond =>
    have hthen : obj'.get "then" = obj.get "then" := h _ (by simp [neighbours])
    have helse : obj'.get "else" = obj.get "else" := h _ (by simp [neighbours])
    simp only [keyword, whenPresent, hthen, helse]
  | additionalProperties =>
    have hprops : obj'.get "properties" = obj.get "properties" := h _ (by simp [neighbours])
    have hpatterns : obj'.get "patternProperties" = obj.get "patternProperties" :=
      h _ (by simp [neighbours])
    have hcovers : ∀ name, covers D obj' name = covers D obj name := by
      intro name
      unfold covers mapAt
      rw [hprops, hpatterns]
    simp only [keyword, hcovers]
  | items =>
    have hfront : obj'.get "prefixItems" = obj.get "prefixItems" := h _ (by simp [neighbours])
    cases value <;> simp only [keyword, prefixCount, hfront]
  | additionalItems =>
    have hitems : obj'.get "items" = obj.get "items" := h _ (by simp [neighbours])
    simp only [keyword, hitems]
  | contains =>
    have hmin : obj'.get "minContains" = obj.get "minContains" := h _ (by simp [neighbours])
    have hmax : obj'.get "maxContains" = obj.get "maxContains" := h _ (by simp [neighbours])
    simp only [keyword, limit_congr hmin, limit_congr hmax]
  | _ => cases value <;> rfl

/-- **A field that stays, beside neighbours that stay, is judged as before.** -/
theorem field_congr (hvalue : obj'.get key = obj.get key)
    (h : ∀ kw, Keyword.ofKey key = some kw → ∀ near ∈ neighbours kw, obj'.get near = obj.get near) :
    field D V refs obj' x key = field D V refs obj x key := by
  unfold field
  rw [hvalue]
  cases obj.get key with
  | none => rfl
  | some value =>
    cases hkw : Keyword.ofKey key with
    | none => rfl
    | some kw => exact keyword_congr (h kw hkw)

/-- The fields that others rest on. -/
def neighbourKeys : List String :=
  ["then", "else", "properties", "patternProperties", "prefixItems", "items", "minContains",
    "maxContains"]

theorem neighbours_subset (kw : Keyword) : neighbours kw ⊆ neighbourKeys := by
  cases kw <;> decide

theorem items_schema (h : ∀ xs, value ≠ .array xs) : keyword D V refs obj .items value x =
    Kleene.all (((elements x).drop (prefixCount obj)).map fun y => V value y) := by
  cases value with
  | array xs => exact absurd rfl (h xs)
  | _ => rfl

/-- Without a tuple there are no additional items. -/
theorem additionalItems_schema (h : ∀ xs, obj.get "items" ≠ some (.array xs)) :
    keyword D V refs obj .additionalItems value x = some true := by
  unfold keyword
  dsimp only
  split
  · exact absurd ‹_› (h _)
  · rfl

/-! ### Nodes that are met -/

/-- Every field of a node is met. -/
def Meets (D : Dialect) (refs : String → Value → Option Bool) (obj : Map) (x : Value) : Prop :=
  ∀ key, field D (judge D refs) refs obj x key = some true

/-- Some field of a node fails. -/
def Fails (D : Dialect) (refs : String → Value → Option Bool) (obj : Map) (x : Value) : Prop :=
  ∃ key, field D (judge D refs) refs obj x key = some false

theorem judge_iff_meets : judge D refs (.object obj) x = some true ↔ Meets D refs obj x := by
  rw [judge_object, Kleene.all_eq_true, List.forall_mem_map]
  constructor
  · intro h key
    cases hvalue : obj.get key with
    | none => rw [field, hvalue]
    | some value => exact h key (List.mem_map_of_mem (Map.mem_of_get hvalue))
  · exact fun h key _ => h key

theorem judge_iff_fails : judge D refs (.object obj) x = some false ↔ Fails D refs obj x := by
  rw [judge_object, Kleene.all_eq_false, List.mem_map]
  constructor
  · rintro ⟨key, -, h⟩
    exact ⟨key, h⟩
  · rintro ⟨key, h⟩
    cases hvalue : obj.get key with
    | none =>
      rw [field_none hvalue] at h
      cases h
    | some value => exact ⟨key, List.mem_map_of_mem (Map.mem_of_get hvalue), h⟩

/-- **A node keeps a verdict that its fields keep.** -/
theorem judge_keeps {p : Bool}
    (h : ∀ key, field D (judge D refs) refs obj x key = some p →
      field D (judge D refs') refs' obj' x key = some p)
    (hjudge : judge D refs (.object obj) x = some p) : judge D refs' (.object obj') x = some p := by
  cases p with
  | true =>
    rw [judge_iff_meets] at hjudge ⊢
    exact fun key => h key (hjudge key)
  | false =>
    rw [judge_iff_fails] at hjudge ⊢
    obtain ⟨key, hkey⟩ := hjudge
    exact ⟨key, h key hkey⟩

theorem Meets.met (h : Meets D refs obj x) (kw : Keyword) (hkey : Keyword.ofKey key = some kw)
    (hvalue : obj.get key = some value) :
    keyword D (judge D refs) refs obj kw value x = some true := by
  rw [← field_eq kw hkey hvalue]
  exact h key

/-- **Some fields are changed**, none of which another field rests on. -/
theorem Meets.update (h : Meets D refs obj x) (changed : List String)
    (hnear : ∀ key ∉ changed, ∀ kw, Keyword.ofKey key = some kw → ∀ near ∈ neighbours kw,
      near ∉ changed)
    (hsame : ∀ key ∉ changed, obj'.get key = obj.get key)
    (hnew : ∀ key ∈ changed, field D (judge D refs) refs obj' x key = some true) :
    Meets D refs obj' x := by
  intro key
  by_cases hkey : key ∈ changed
  · exact hnew key hkey
  · rw [field_congr (hsame key hkey) fun kw hkw near hmem =>
      hsame near (hnear key hkey kw hkw near hmem)]
    exact h key

theorem Fails.update (h : Fails D refs obj x) (changed : List String)
    (hnear : ∀ key ∉ changed, ∀ kw, Keyword.ofKey key = some kw → ∀ near ∈ neighbours kw,
      near ∉ changed)
    (hsame : ∀ key ∉ changed, obj'.get key = obj.get key)
    (hnew : ∀ key ∈ changed, field D (judge D refs) refs obj x key = some false →
      Fails D refs obj' x) :
    Fails D refs obj' x := by
  obtain ⟨key, hfalse⟩ := h
  by_cases hkey : key ∈ changed
  · exact hnew key hkey hfalse
  · refine ⟨key, ?_⟩
    rw [field_congr (hsame key hkey) fun kw hkw near hmem =>
      hsame near (hnear key hkey kw hkw near hmem)]
    exact hfalse

/-- No field rests on those that are no neighbours. -/
theorem near_of_alone {changed : List String} (h : ∀ key ∈ changed, key ∉ neighbourKeys) :
    ∀ key ∉ changed, ∀ kw, Keyword.ofKey key = some kw → ∀ near ∈ neighbours kw, near ∉ changed :=
  fun _ _ kw _ near hnear hmem => h near hmem (neighbours_subset kw hnear)

/-- A field is taken out. -/
theorem Meets.without (h : Meets D refs obj x) (key : String) (hkey : key ∉ neighbourKeys) :
    Meets D refs (obj.without [key]) x := by
  refine h.update [key] (near_of_alone (by simpa using hkey)) ?_ ?_
  · intro name hname
    rw [Map.get_without, if_neg hname]
  · intro name hname
    exact field_none (by rw [Map.get_without, if_pos hname])

/-- A field is put in, or in the place of another. -/
theorem Meets.put (h : Meets D refs obj x)
    (hget : ∀ name, obj'.get name = if key = name then some value else obj.get name)
    (hkey : Keyword.ofKey key = some kw) (halone : key ∉ neighbourKeys)
    (hmet : keyword D (judge D refs) refs obj kw value x = some true) :
    Meets D refs obj' x := by
  have hsame : ∀ name ∉ [key], obj'.get name = obj.get name := by
    intro name hname
    rw [hget, if_neg fun heq => hname (by rw [heq]; exact List.mem_singleton_self name)]
  have hnear : ∀ near ∈ neighbourKeys, near ∉ [key] := by
    rintro near hnear hmem
    exact halone (List.mem_singleton.mp hmem ▸ hnear)
  refine h.update [key] (near_of_alone (by simpa using halone)) hsame ?_
  intro name hname
  rw [List.mem_singleton.mp hname, field_eq kw hkey (by rw [hget, if_pos rfl]), keyword_congr]
  · exact hmet
  · exact fun near hmem => hsame near (hnear near (neighbours_subset kw hmem))

theorem Meets.insert (h : Meets D refs obj x) (kw : Keyword) (hkey : Keyword.ofKey key = some kw)
    (halone : key ∉ neighbourKeys)
    (hmet : keyword D (judge D refs) refs obj kw value x = some true) :
    Meets D refs (obj.insert key value) x :=
  h.put (Map.get_insert obj key value) hkey halone hmet

theorem Meets.set (h : Meets D refs obj x) (kw : Keyword) (hkey : Keyword.ofKey key = some kw)
    (halone : key ∉ neighbourKeys)
    (hmet : keyword D (judge D refs) refs obj kw value x = some true) :
    Meets D refs (obj.set key value) x :=
  h.put (Map.get_set obj key value) hkey halone hmet

/-! ### What the keywords ask for -/

/-- One of a list of types is had. -/
theorem typed_array {types : List Value} (h : typed (.array types) x = some true) :
    ∃ ty, .string ty ∈ types ∧ hasType x ty = true := by
  rw [typed] at h
  split at h
  · obtain ⟨t, ht, hhas⟩ := List.any_eq_true.mp (Option.some.inj h)
    cases t with
    | string ty => exact ⟨ty, ht, hhas⟩
    | _ => cases hhas
  · cases h

theorem Meets.type (h : Meets D refs obj x) (hvalue : obj.get "type" = some value) :
    typed value x = some true := by
  have hmet : keyword D (judge D refs) refs obj .type value x = some true := h.met _ rfl hvalue
  exact hmet

theorem anyOf_met {bs : List Value} {b : Value} (hb : b ∈ bs) (hjudge : V b x = some true) :
    keyword D V refs obj .anyOf (.array bs) x = some true :=
  Kleene.any_eq_true.mpr (List.mem_map.mpr ⟨b, hb, hjudge⟩)

theorem Meets.anyOf (h : Meets D refs obj x) (hvalue : obj.get "anyOf" = some value) :
    ∃ bs, value = .array bs ∧ ∃ b ∈ bs, judge D refs b x = some true := by
  have hmet := h.met _ rfl hvalue
  cases value with
  | array bs =>
    obtain ⟨b, hb, hjudge⟩ := List.mem_map.mp (Kleene.any_eq_true.mp hmet)
    exact ⟨bs, rfl, b, hb, hjudge⟩
  | _ => cases hmet

theorem Meets.oneOf (h : Meets D refs obj x) (hvalue : obj.get "oneOf" = some value) :
    ∃ bs, value = .array bs ∧ ∃ b ∈ bs, judge D refs b x = some true := by
  have hmet := h.met _ rfl hvalue
  cases value with
  | array bs =>
    obtain ⟨b, hb, hjudge⟩ := List.mem_map.mp (Kleene.mem_of_one hmet)
    exact ⟨bs, rfl, b, hb, hjudge⟩
  | _ => cases hmet

theorem Meets.allOf (h : Meets D refs obj x) (hvalue : obj.get "allOf" = some value) :
    ∃ bs, value = .array bs ∧ ∀ b ∈ bs, judge D refs b x = some true := by
  have hmet := h.met _ rfl hvalue
  cases value with
  | array bs => exact ⟨bs, rfl, List.forall_mem_map.mp (Kleene.all_eq_true.mp hmet)⟩
  | _ => cases hmet

/-- A node of one field is judged by it. -/
theorem judge_single (hkey : Keyword.ofKey key = some kw) :
    judge D refs (.object [(key, value)]) x =
      keyword D (judge D refs) refs [(key, value)] kw value x := by
  have hget : Map.get [(key, value)] key = some value := by simp [Map.get_cons]
  rw [judge_object, List.map_singleton, List.map_singleton, field_eq kw hkey hget,
    Kleene.all_singleton]

theorem judge_type (ty : String) :
    judge D refs (.object [("type", .string ty)]) x = some (hasType x ty) := by
  rw [judge_single rfl]
  rfl

theorem judge_ref (r : String) : judge D refs (.object [("$ref", .string r)]) x = refs r x := by
  rw [judge_single rfl]
  rfl

theorem judge_anyOf (bs : List Value) :
    judge D refs (.object [("anyOf", .array bs)]) x =
      Kleene.any (bs.map fun b => judge D refs b x) := by
  rw [judge_single rfl]
  rfl

end

end

end Llmleaf.JsonSchema
