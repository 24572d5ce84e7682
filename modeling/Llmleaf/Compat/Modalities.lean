import Llmleaf.Modalities

/-!
# The surfaces of decisions, rerank and embeddings

What a node makes of the requests of these surfaces, and how it writes their responses. A request
keeps what it does not know in `extra`.

- `parseDecisionsRequest`, `parseRerankRequest`, `parseEmbeddingRequest`: the requests.
- `responseToWire`, `responseToOpenai`: the responses.
- `Value.Canonical`: the documents that can be parsed, with the fields of every object in key order.
-/

namespace Llmleaf

/-! ## Documents that were parsed -/

/-- The fields of every object in a document are in key order, each key once. -/
inductive Value.Canonical : Value → Prop
  | null : Canonical .null
  | bool (b : Bool) : Canonical (.bool b)
  | number (n : Number) : Canonical (.number n)
  | string (s : String) : Canonical (.string s)
  | array {xs : List Value} (h : ∀ x ∈ xs, Canonical x) : Canonical (.array xs)
  | object {m : Map} (hm : m.Sorted) (h : ∀ e ∈ m, Canonical e.2) : Canonical (.object m)

/-- A map whose document is canonical. -/
abbrev Map.Canonical (m : Map) : Prop := (Value.object m).Canonical

namespace Map.Canonical

variable {m : Map}

theorem sorted (h : m.Canonical) : m.Sorted := by
  cases h
  assumption

theorem of_mem (h : m.Canonical) : ∀ e ∈ m, e.2.Canonical := by
  cases h
  assumption

theorem get (h : m.Canonical) {key : String} {value : Value} (hget : m.get key = some value) :
    value.Canonical :=
  h.of_mem _ (Map.mem_of_get hget)

theorem insert (h : m.Canonical) (key : String) {value : Value} (hvalue : value.Canonical) :
    (Map.insert m key value).Canonical := by
  refine .object (h.sorted.insert key value) fun e he => ?_
  rcases Map.mem_insert he with rfl | he
  · exact hvalue
  · exact h.of_mem e he

theorem without (h : m.Canonical) (keys : List String) : (m.without keys).Canonical :=
  .object (h.sorted.without keys) fun e he => h.of_mem e (Map.mem_of_mem_without he)

theorem nil : Map.Canonical [] := .object List.Pairwise.nil fun _ he => absurd he List.not_mem_nil

theorem build {fields : List (String × Option Value)}
    (h : ∀ e ∈ fields, ∀ v ∈ e.2, v.Canonical) : (Map.build fields).Canonical := by
  suffices ∀ m : Map, m.Canonical →
      Map.Canonical (fields.foldl (fun m e => Map.insertSome m e.1 e.2) m) from this [] nil
  induction fields with
  | nil => exact fun m hm => hm
  | cons e fields ih =>
    intro m hm
    have hrest := ih fun e' he' => h e' (List.mem_cons_of_mem _ he')
    obtain ⟨key, _ | value⟩ := e
    · exact hrest m hm
    · exact hrest _ (hm.insert key (h _ List.mem_cons_self value rfl))

theorem orInsertAll (h : m.Canonical) {more : Map} (hmore : more.Canonical) :
    (m.orInsertAll more).Canonical := by
  refine .object (h.sorted.orInsertAll more) fun e he => ?_
  rcases Map.mem_orInsertAll he with he | he
  · exact h.of_mem e he
  · exact hmore.of_mem e he

end Map.Canonical

/-! ## Decisions -/

namespace Decisions

/-- A text, an object or an array. -/
def isStructured : Value → Bool
  | .string _ | .object _ | .array _ => true
  | _ => false

/-- The rule of a kind of question for its criteria. -/
def criteriaError (id kind : String) (criteria : Option Value) : Option String :=
  match kind, criteria with
  | "noul", none => none
  | "noul", some (.object criteria) =>
    if criteria.any fun e => !isStructured e.2 then
      some ("`questions." ++ id ++ ".criteria` values must be strings, objects, or arrays")
    else none
  | "noul", some _ => some ("`questions." ++ id ++ ".criteria` must be an object")
  | "choice", some (.object criteria) =>
    if criteria.isEmpty then
      some ("`questions." ++ id ++ ".criteria` must contain at least one option")
    else if criteria.any fun e => !decide (e.2 = .null) && !isStructured e.2 then
      some ("`questions." ++ id ++ ".criteria` values must be null, strings, objects, or arrays")
    else none
  | "choice", _ => some ("`questions." ++ id ++ ".criteria` is required and must be an object")
  | _, some (.array criteria) =>
    if criteria.isEmpty || criteria.any fun v => !isStructured v then
      some ("`questions." ++ id ++
        ".criteria` must be a non-empty array of strings, objects, or arrays")
    else none
  | _, _ => some ("`questions." ++ id ++ ".criteria` is required and must be an array")

/-- What is wrong with a question, if anything is. -/
def validateQuestion (id : String) : Value → Option String
  | .object question =>
    match (Map.get question "type").bind Value.asStr with
    | none =>
      some ("`questions." ++ id ++ ".type` is required and must be noul, choice, or score")
    | some kind =>
      if kind ∉ ["noul", "choice", "score"] then
        some ("`questions." ++ id ++ ".type` must be noul, choice, or score")
      else if !(Map.get question "instructions").any isStructured then
        some ("`questions." ++ id ++
          ".instructions` is required and must be a string, object, or array")
      else criteriaError id kind (Map.get question "criteria")
  | _ => some ("`questions." ++ id ++ "` must be an object")

/-- Whether a session id is missing, or a text that is not too long. -/
def sessionOk (extra : Map) : Bool :=
  match extra.get "session_id" with
  | none => true
  | some (.string id) => id.length ≤ 256
  | some _ => false

/-- The fields a request is read from. -/
def requestKeys : List String := ["model", "state", "questions"]

def parseDecisionsRequest : Value → Except ModelError DecisionsRequest
  | .object obj =>
    match Map.get obj "model" with
    | some (.string model) =>
      if model = "" then
        .error (.mapping "`model` is required and must be a non-empty string")
      else
        match (Map.get obj "state").filter isStructured with
        | none => .error (.mapping "`state` is required and must be a string, object, or array")
        | some state =>
          match Map.get obj "questions" with
          | some (.object (question :: questions)) =>
            match (question :: questions).findSome? fun e => validateQuestion e.1 e.2 with
            | some message => .error (.mapping message)
            | none =>
              if sessionOk (Map.without obj requestKeys) then
                .ok ⟨model, state, question :: questions, Map.without obj requestKeys⟩
              else
                .error (.mapping "`session_id` must be a string of at most 256 characters")
          | _ => .error (.mapping "`questions` is required and must be a non-empty object")
    | _ => .error (.mapping "`model` is required and must be a non-empty string")
  | _ => .error (.mapping "request body must be a JSON object")

/-- The response, with the fields of the upstream that are not known. -/
def responseToWire (resp : DecisionsResponse) : Value :=
  let usage := ((resp.usageExtra.insert "input_tokens" (.nat resp.usage.promptTokens)).insert
    "output_tokens" (.nat resp.usage.completionTokens)).insertSome
      "cost" (resp.usage.costUsd.map fun q => .number (.float q))
  .object (((resp.extra.insert "model" (.string resp.model)).insert
    "answers" (.object resp.answers)).insert "usage" (.object usage))

end Decisions

/-! ## Rerank -/

namespace Rerank

/-- A result, its score in single precision. -/
structure Result where
  index : ℕ
  relevanceScore : Binary.Number .single
  document : Option Value

structure Response where
  model : String
  results : List Result
  usage : Usage

/-- A candidate document of the array. -/
def parseDocument : Value → Except ModelError RerankDocument
  | .string s => .ok (.text s)
  | .object obj => .ok (.rich obj)
  | _ => .error (.mapping "`documents` items must be strings or objects")

def parseDocuments : Option Value → Except ModelError (List RerankDocument)
  | some (.array (item :: items)) => (item :: items).mapM parseDocument
  | _ =>
    .error (.mapping "`documents` is required and must be a non-empty array of strings or objects")

/-- The fields a request is read from. -/
def requestKeys : List String := ["model", "query", "documents", "top_n", "return_documents"]

def parseRerankRequest : Value → Except ModelError RerankRequest
  | .object obj =>
    match Map.get obj "model" with
    | some (.string model) =>
      match Map.get obj "query" with
      | some (.string query) =>
        match parseDocuments (Map.get obj "documents") with
        | .error e => .error e
        | .ok documents =>
          .ok {
            model, query, documents
            topN := ((Map.get obj "top_n").bind Value.asU64).map (· % 2 ^ 32)
            returnDocuments := (Map.get obj "return_documents").bind Value.asBool
            extra := Map.without obj requestKeys }
      | _ => .error (.mapping "`query` is required and must be a string")
    | _ => .error (.mapping "`model` is required and must be a string")
  | _ => .error (.mapping "request body must be a JSON object")

/-- A result on the wire. -/
def Result.toWire (r : Result) : Value :=
  .build [("index", some (.nat r.index)), ("relevance_score", some (.ofF32 r.relevanceScore)),
    ("document", r.document)]

def responseToWire (resp : Response) : Value :=
  .build [("model", some (.string resp.model)), ("object", some (.string "list")),
    ("results", some (.array (resp.results.map Result.toWire))),
    ("usage", some (.build [("cost_usd", resp.usage.costUsd.map fun q => .number (.float q)),
      ("total_tokens", some (.nat resp.usage.totalTokens))]))]

end Rerank

/-! ## Embeddings -/

namespace Embeddings

/-- A vector in single precision, and the input it is of. -/
structure Vector where
  index : ℕ
  vector : List (Binary.Number .single)

structure Response where
  model : String
  embeddings : List Vector
  usage : Usage

/-- A text of the array of inputs. -/
def parseItem : Value → Except ModelError String
  | .string s => .ok s
  | _ => .error (.mapping "`input` array must contain strings (token-id input is unsupported)")

def parseInput : Option Value → Except ModelError (List String)
  | some (.string s) => .ok [s]
  | some (.array items) => items.mapM parseItem
  | _ => .error (.mapping "`input` is required and must be a string or array of strings")

/-- The fields a request is read from. -/
def requestKeys : List String := ["model", "input", "dimensions", "encoding_format"]

def parseEmbeddingRequest : Value → Except ModelError EmbeddingRequest
  | .object obj =>
    match Map.get obj "model" with
    | some (.string model) =>
      match parseInput (Map.get obj "input") with
      | .error e => .error e
      | .ok input =>
        .ok {
          model, input
          dimensions := ((Map.get obj "dimensions").bind Value.asU64).map (· % 2 ^ 32)
          encodingFormat := (Map.get obj "encoding_format").bind Value.asStr
          extra := Map.without obj requestKeys }
    | _ => .error (.mapping "`model` is required and must be a string")
  | _ => .error (.mapping "request body must be a JSON object")

/-- A vector on the wire; `base64` writes one as text. -/
def Vector.toWire (base64 : Option (List (Binary.Number .single) → String)) (e : Vector) : Value :=
  .build [
    ("embedding", some (match base64 with
      | none => .array (e.vector.map .ofF32)
      | some encode => .string (encode e.vector))),
    ("index", some (.nat e.index)), ("object", some (.string "embedding"))]

/-- The response in the encoding that was asked for. -/
def responseToOpenai (encode : List (Binary.Number .single) → String) (resp : Response)
    (encodingFormat : Option String) : Value :=
  let base64 := if encodingFormat = some "base64" then some encode else none
  .build [("data", some (.array (resp.embeddings.map (Vector.toWire base64)))),
    ("model", some (.string resp.model)), ("object", some (.string "list")),
    ("usage", some (.build [("cost_usd", resp.usage.costUsd.map fun q => .number (.float q)),
      ("prompt_tokens", some (.nat resp.usage.promptTokens)),
      ("total_tokens", some (.nat resp.usage.totalTokens))]))]

end Embeddings

end Llmleaf
