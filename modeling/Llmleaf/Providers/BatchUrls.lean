import Llmleaf.Batch.Codec
import Llmleaf.Lib.Urls
import Llmleaf.Providers.Brand

/-!
# The URLs of batch calls

Every provider that serves batches puts the upstream's id of a batch into the path of its URLs. The
id comes out of the batch id a consumer presents, and an unsigned one may hold any text.

`llmleaf` writes the id as a component of the URL; the others write it as it is.

- `BatchProvider.url`: the URL of a call for an upstream id.
- `Confined`: the URL names that batch and nothing else.
- `token_confined_iff`: exactly which ids are confined, for each provider.
-/

namespace Llmleaf.BatchUrls

open BatchId Strings

/-- A call for a batch that exists. -/
inductive Operation where
  | retrieve
  | cancel
  | results
  deriving DecidableEq

/-- A provider with a batch interface of its own. -/
inductive BatchProvider where
  | anthropic
  | gemini
  /-- An OpenAI-compatible upstream; the wrappers around some brands pass batch calls on. -/
  | compat (brand : Brand)
  | llmleaf

/-! ## The URLs as the providers build them -/

namespace Anthropic

def endpoint (cx : ProviderCx) : String := cx.endpointOr "https://api.anthropic.com"

def url (cx : ProviderCx) (upstreamId : String) : Operation → String
  | .retrieve => endpoint cx ++ "/v1/messages/batches/" ++ upstreamId
  | .cancel => endpoint cx ++ "/v1/messages/batches/" ++ upstreamId ++ "/cancel"
  | .results => endpoint cx ++ "/v1/messages/batches/" ++ upstreamId ++ "/results"

end Anthropic

namespace Gemini

def endpoint (cx : ProviderCx) : String :=
  cx.endpointOr "https://generativelanguage.googleapis.com/v1beta"

/-- The results of an inline batch are on the batch itself. -/
def url (cx : ProviderCx) (upstreamId : String) : Operation → String
  | .retrieve => endpoint cx ++ "/batches/" ++ upstreamId
  | .cancel => endpoint cx ++ "/batches/" ++ upstreamId ++ ":cancel"
  | .results => endpoint cx ++ "/batches/" ++ upstreamId

end Gemini

namespace Compat

/-- The URL of the batch object, which retrieving and fetching results both start with. -/
def fetchBatchValue (brand : Brand) (cx : ProviderCx) (upstreamId : String) : String :=
  brand.batchCollection cx ++ "/" ++ upstreamId ++ brand.batchQuery cx

def url (brand : Brand) (cx : ProviderCx) (upstreamId : String) :
    Operation → Except ModelError String
  | .retrieve | .results => do
    brand.ensureBatch
    return fetchBatchValue brand cx upstreamId
  | .cancel => do
    brand.ensureBatch
    return brand.batchCollection cx ++ "/" ++ upstreamId ++ "/cancel" ++ brand.batchQuery cx

/-- The URLs of the result files, under the ids that the upstream's answer has for them. -/
def resultFiles (brand : Brand) (cx : ProviderCx) (fileIds : List String) : List String :=
  fileIds.map fun id => brand.batchFiles cx ++ "/" ++ id ++ "/content" ++ brand.batchQuery cx

end Compat

namespace Node

def base (cx : ProviderCx) : String := cx.endpointOr Brand.llmleaf.defaultEndpoint

def batchUrl (cx : ProviderCx) (upstreamId suffix : String) : String :=
  base cx ++ "/batches/" ++ Urls.percentEncode upstreamId ++ suffix

def url (cx : ProviderCx) (upstreamId : String) : Operation → String
  | .retrieve => batchUrl cx upstreamId ""
  | .cancel => batchUrl cx upstreamId "/cancel"
  | .results => batchUrl cx upstreamId "/results"

end Node

namespace BatchProvider

/-- The URL of a call for an upstream id, where the provider makes one. -/
def url (self : BatchProvider) (cx : ProviderCx) (upstreamId : String) (op : Operation) :
    Except ModelError String :=
  match self with
  | anthropic => .ok (Anthropic.url cx upstreamId op)
  | gemini => .ok (Gemini.url cx upstreamId op)
  | compat brand => Compat.url brand cx upstreamId op
  | llmleaf => .ok (Node.url cx upstreamId op)

/-- The URLs asked for after that one: files with results, by their own ids. -/
def fileUrls (self : BatchProvider) (cx : ProviderCx) (op : Operation) (fileIds : List String) :
    List String :=
  match self, op with
  | compat brand, .results => Compat.resultFiles brand cx fileIds
  | _, _ => []

/-- All URLs of a call, in order. -/
def requests (self : BatchProvider) (cx : ProviderCx) (upstreamId : String) (op : Operation)
    (fileIds : List String) : Except ModelError (List String) := do
  let url ← self.url cx upstreamId op
  return url :: self.fileUrls cx op fileIds

/-- The provider serves batches. -/
def Serves : BatchProvider → Prop
  | compat brand => brand.batchFlavor ≠ .unsupported
  | _ => True

/-! ## What the URLs are meant to be -/

def endpoint (self : BatchProvider) (cx : ProviderCx) : String :=
  match self with
  | anthropic => Anthropic.endpoint cx
  | gemini => Gemini.endpoint cx
  | compat brand => brand.batchEndpoint cx
  | llmleaf => Node.base cx

/-- The fixed path of the batch collection. -/
def collection : BatchProvider → String
  | anthropic => "/v1/messages/batches"
  | gemini | llmleaf => "/batches"
  | compat brand =>
    match brand.batchFlavor with
    | .mistralJobs => "/batch/jobs"
    | .azureOpenAi => "/openai/batches"
    | _ => "/batches"

/-- The fixed text after the id. -/
def suffix (self : BatchProvider) (op : Operation) : String :=
  match self, op with
  | _, .retrieve => ""
  | gemini, .cancel => ":cancel"
  | _, .cancel => "/cancel"
  | anthropic, .results | llmleaf, .results => "/results"
  | _, .results => ""

/-- The fixed query. -/
def query (self : BatchProvider) (cx : ProviderCx) : String :=
  match self with
  | compat brand => brand.batchQuery cx
  | _ => ""

/-- How the provider writes an id. -/
def segment (self : BatchProvider) (upstreamId : String) : String :=
  match self with
  | llmleaf => Urls.percentEncode upstreamId
  | _ => upstreamId

/-- The path of a call below the collection, for a segment. -/
def resource (self : BatchProvider) (op : Operation) (segment : String) : List (List Char) :=
  match self, op with
  | gemini, .cancel => [(segment ++ ":cancel").toList]
  | _, .cancel => [segment.toList, "cancel".toList]
  | anthropic, .results | llmleaf, .results => [segment.toList, "results".toList]
  | _, _ => [segment.toList]

end BatchProvider

/-- **The URL of a call names the batch and nothing else**: between the fixed texts is one segment,
which reads as the id, whatever the path of the collection is. -/
structure Confined (p : BatchProvider) (cx : ProviderCx) (upstreamId : String) (op : Operation)
    (url : String) : Prop where
  named : ∃ segment : String,
    url = p.endpoint cx ++ p.collection ++ "/" ++ segment ++ (p.suffix op ++ p.query cx) ∧
    Urls.IsSegment segment.toList (p.suffix op ++ p.query cx).toList ∧
    Urls.percentDecode (bytes segment) = bytes upstreamId ∧
    ∀ path, Urls.readPath path (segment ++ (p.suffix op ++ p.query cx)).toList =
      path ++ p.resource op segment
  /-- No other id has this URL. -/
  alone : ∀ other, p.url cx other op = .ok url → other = upstreamId

/-- The id means nothing in a URL. -/
structure Inert (p : BatchProvider) (cx : ProviderCx) (upstreamId : String) : Prop where
  delimited : ∀ c ∈ upstreamId.toList, Urls.isDelimiter c = false
  kept : ∀ c ∈ upstreamId.toList, Urls.isDropped c = false
  plain : ¬ Urls.HasEscape (bytes upstreamId)
  /-- Without a query the id is the end of a URL. -/
  ended : p.query cx = "" → ∀ c, upstreamId.toList.getLast? = some c → Urls.isTrimmed c = false

/-- The ids whose URLs are confined. -/
def Safe (p : BatchProvider) (cx : ProviderCx) (upstreamId : String) : Prop :=
  upstreamId ≠ "." ∧ upstreamId ≠ ".." ∧
    match p with
    | .llmleaf => True
    | _ => Inert p cx upstreamId

variable {p : BatchProvider} {cx : ProviderCx}

/-! ## The pieces of a URL -/

theorem batchCollection_eq (brand : Brand) (cx : ProviderCx) :
    brand.batchCollection cx =
      brand.batchEndpoint cx ++ (BatchProvider.compat brand).collection := by
  rw [Brand.batchCollection, BatchProvider.collection]
  cases brand.batchFlavor with
  | _ => rfl

/-- The URL of a call is the fixed texts around the id as the provider writes it. -/
theorem url_eq (hp : p.Serves) (upstreamId : String) (op : Operation) :
    p.url cx upstreamId op = .ok (p.endpoint cx ++ p.collection ++ "/" ++
      p.segment upstreamId ++ (p.suffix op ++ p.query cx)) := by
  have hmessages : "/v1/messages/batches/" = "/v1/messages/batches" ++ "/" := by decide
  have hbatches : "/batches/" = "/batches" ++ "/" := by decide
  cases p with
  | anthropic =>
    cases op with
    | _ => simp only [BatchProvider.url, Anthropic.url, hmessages, BatchProvider.endpoint,
        BatchProvider.collection, BatchProvider.segment, BatchProvider.suffix,
        BatchProvider.query, String.append_empty, String.append_assoc]
  | gemini =>
    cases op with
    | _ => simp only [BatchProvider.url, Gemini.url, hbatches, BatchProvider.endpoint,
        BatchProvider.collection, BatchProvider.segment, BatchProvider.suffix,
        BatchProvider.query, String.append_empty, String.append_assoc]
  | compat brand =>
    have hserves : brand.ensureBatch = .ok () := if_neg hp
    have hends : (BatchProvider.compat brand).endpoint cx ++
        (BatchProvider.compat brand).collection = brand.batchCollection cx :=
      (batchCollection_eq brand cx).symm
    cases op with
    | _ =>
      simp only [hends, BatchProvider.url, BatchProvider.segment, BatchProvider.query,
        Compat.url, Compat.fetchBatchValue, hserves, BatchProvider.suffix, String.empty_append,
        String.append_assoc]
      rfl
  | llmleaf =>
    cases op with
    | _ => simp only [BatchProvider.url, Node.url, Node.batchUrl, hbatches,
        BatchProvider.endpoint, BatchProvider.collection, BatchProvider.segment,
        BatchProvider.suffix, BatchProvider.query, String.append_empty, String.append_assoc]

theorem segment_inj {a b : String} (h : p.segment a = p.segment b) : a = b := by
  cases p with
  | llmleaf =>
    have hbytes := congrArg (fun s => Urls.percentDecode (bytes s)) h
    rw [← bytes_inj, ← Urls.percentDecode_percentEncode a, ← Urls.percentDecode_percentEncode b]
    exact hbytes
  | _ => exact h

/-- A URL determines the text between its fixed ones. -/
theorem around_inj {front back a b : String} (h : front ++ a ++ back = front ++ b ++ back) :
    a = b := by
  rwa [String.append_left_inj, String.append_right_inj] at h

theorem url_inj (hp : p.Serves) {a b : String} {op : Operation}
    (h : p.url cx a op = p.url cx b op) : a = b := by
  rw [url_eq hp, url_eq hp] at h
  exact segment_inj (around_inj (Except.ok.inj h))

/-- What stands after the id is a fixed piece of a path, then the query. -/
theorem isQuery_query (p : BatchProvider) (cx : ProviderCx) :
    Urls.IsQuery (p.query cx).toList := by
  cases p with
  | compat brand =>
    rw [BatchProvider.query, Brand.batchQuery]
    split
    · rw [String.toList_append]
      exact .inr ⟨_, rfl⟩
    · exact .inl rfl
  | _ => exact .inl rfl

/-- The three kinds of a suffix: none, a segment below the id, or a rest of its segment. -/
theorem suffix_cases (p : BatchProvider) (op : Operation) :
    (p.suffix op = "" ∧ ∀ s, p.resource op s = [s.toList]) ∨
    (∃ word, Urls.IsWord word ∧ (p.suffix op).toList = '/' :: word ∧
      ∀ s, p.resource op s = [s.toList, word]) ∨
    (p = .gemini ∧ (p.suffix op).toList = ":cancel".toList ∧
      ∀ s, p.resource op s = [s.toList ++ ":cancel".toList]) := by
  have hcancel : Urls.IsWord "cancel".toList := by decide
  have hresults : Urls.IsWord "results".toList := by decide
  cases op with
  | retrieve => exact .inl ⟨by cases p with | _ => rfl, fun s => by cases p with | _ => rfl⟩
  | cancel =>
    cases p with
    | gemini => exact .inr (.inr ⟨rfl, rfl, fun s => congrArg (fun t => [t]) String.toList_append⟩)
    | anthropic | llmleaf => exact .inr (.inl ⟨_, hcancel, rfl, fun s => rfl⟩)
    | compat brand =>
      have hsuffix : (BatchProvider.compat brand).suffix .cancel = "/cancel" := rfl
      exact .inr (.inl ⟨_, hcancel, by rw [hsuffix]; rfl, fun s => rfl⟩)
  | results =>
    cases p with
    | anthropic | llmleaf => exact .inr (.inl ⟨_, hresults, rfl, fun s => rfl⟩)
    | _ => exact .inl ⟨rfl, fun s => rfl⟩

theorem isWord_verb : Urls.IsWord ":cancel".toList := by decide

/-- The path that is read for a segment. -/
theorem readPath_resource {segment : String} {op : Operation}
    (h : Urls.IsSegment segment.toList (p.suffix op ++ p.query cx).toList)
    (path : List (List Char)) :
    Urls.readPath path (segment ++ (p.suffix op ++ p.query cx)).toList =
      path ++ p.resource op segment := by
  have hq := isQuery_query p cx
  rw [String.toList_append] at h
  rw [String.toList_append, String.toList_append]
  rcases suffix_cases p op with ⟨hs, hr⟩ | ⟨word, hw, hs, hr⟩ | ⟨-, hs, hr⟩
  · rw [hs, String.toList_empty, List.nil_append] at h ⊢
    rw [hr]
    exact Urls.readPath_whole h hq path
  · rw [hs] at h ⊢
    rw [hr]
    exact Urls.readPath_below hw h hq path
  · rw [hs] at h ⊢
    rw [hr]
    exact Urls.readPath_joined isWord_verb h hq path

/-! ## Which ids are segments -/

/-- The segment of an id ends where the id does, but for the cancellation at Gemini. -/
theorem segmentRest_post (p : BatchProvider) (cx : ProviderCx) (op : Operation) :
    Urls.segmentRest (Urls.clean (p.suffix op ++ p.query cx).toList) = [] ∨
      p = .gemini ∧
        Urls.segmentRest (Urls.clean (p.suffix op ++ p.query cx).toList) = ":cancel".toList := by
  have hq := isQuery_query p cx
  rw [String.toList_append]
  rcases suffix_cases p op with ⟨hs, -⟩ | ⟨word, hw, hs, -⟩ | ⟨hp, hs, -⟩
  · rw [hs, String.toList_empty, List.nil_append]
    exact .inl hq.clean.segmentRest
  · rw [hs, Urls.clean_slash hw]
    exact .inl (Urls.segmentRest_slash _)
  · subst hp
    rw [hs]
    exact .inr ⟨rfl, rfl⟩

/-- Where nothing is read after the id, there is no query. -/
theorem query_empty {op : Operation}
    (h : Urls.clean (p.suffix op ++ p.query cx).toList = []) : p.query cx = "" := by
  have hq := isQuery_query p cx
  have hword : Urls.clean (p.query cx).toList = [] := by
    rw [String.toList_append] at h
    rcases suffix_cases p op with ⟨hs, -⟩ | ⟨word, hw, hs, -⟩ | ⟨-, hs, -⟩
    · rwa [hs, String.toList_empty, List.nil_append] at h
    · rw [hs, Urls.clean_slash hw] at h
      cases h
    · rw [hs, isWord_verb.clean_append] at h
      cases h
  rcases hq with hq | ⟨rest, hq⟩
  · exact String.toList_inj.mp hq
  · rw [hq] at hword
    rw [Urls.clean_cons (by decide) (by decide)] at hword
    cases hword

theorem isSegment_inert {upstreamId : String} (h : Inert p cx upstreamId) (hone : upstreamId ≠ ".")
    (htwo : upstreamId ≠ "..") (op : Operation) :
    Urls.IsSegment upstreamId.toList (p.suffix op ++ p.query cx).toList where
  delimited := h.delimited
  kept := h.kept
  ended := fun hclean => h.ended (query_empty hclean)
  named := by
    have hself := (Urls.percentDecode_eq_self _).mpr h.plain
    rcases segmentRest_post p cx op with hrest | ⟨-, hrest⟩
    · rw [hrest, List.append_nil]
      exact Urls.not_dots hself hone htwo
    · rw [hrest]
      have hlast : ∀ d ∈ Urls.singleDots ++ Urls.doubleDots, d.getLast? ≠ some 'l' := by decide
      exact fun hmem => hlast _ hmem (by rw [List.getLast?_append]; rfl)

theorem isSegment_segment {upstreamId : String} (h : Safe p cx upstreamId) (op : Operation) :
    Urls.IsSegment (p.segment upstreamId).toList (p.suffix op ++ p.query cx).toList := by
  obtain ⟨hone, htwo, hinert⟩ := h
  cases p with
  | llmleaf =>
    refine Urls.isSegment_percentEncode hone htwo ?_
    rcases segmentRest_post .llmleaf cx op with hrest | ⟨hp, -⟩
    · exact hrest
    · cases hp
  | _ => exact isSegment_inert hinert hone htwo op

theorem percentDecode_segment {upstreamId : String} (h : Safe p cx upstreamId) :
    Urls.percentDecode (bytes (p.segment upstreamId)) = bytes upstreamId := by
  obtain ⟨-, -, hinert⟩ := h
  cases p with
  | llmleaf => exact Urls.percentDecode_percentEncode upstreamId
  | _ => exact (Urls.percentDecode_eq_self _).mpr hinert.plain

/-- An id whose URL names its segment is safe: retrieving shows it. -/
theorem safe_of_named {upstreamId : String}
    (h : Urls.IsSegment (p.segment upstreamId).toList (p.query cx).toList)
    (hdecode : Urls.percentDecode (bytes (p.segment upstreamId)) = bytes upstreamId) :
    Safe p cx upstreamId := by
  have hnamed := h.named
  rw [(isQuery_query p cx).clean.segmentRest, List.append_nil] at hnamed
  have hdots : (".").toList ∈ Urls.singleDots ++ Urls.doubleDots ∧
      ("..").toList ∈ Urls.singleDots ++ Urls.doubleDots := by decide
  have hone : upstreamId ≠ "." := by
    rintro rfl
    cases p with
    | llmleaf => exact hnamed (by decide)
    | _ => exact hnamed hdots.1
  have htwo : upstreamId ≠ ".." := by
    rintro rfl
    cases p with
    | llmleaf => exact hnamed (by decide)
    | _ => exact hnamed hdots.2
  refine ⟨hone, htwo, ?_⟩
  have hinert : Urls.IsSegment upstreamId.toList (p.query cx).toList →
      Urls.percentDecode (bytes upstreamId) = bytes upstreamId → Inert p cx upstreamId :=
    fun h hdecode => ⟨h.delimited, h.kept, (Urls.percentDecode_eq_self _).mp hdecode,
      fun hquery => h.ended (by rw [hquery]; rfl)⟩
  cases p with
  | llmleaf => trivial
  | _ => exact hinert h hdecode

/-! ## Confinement -/

/-- The URLs asked for an id are confined exactly if the id is safe. -/
theorem confined_of_serves (hp : p.Serves) (upstreamId : String) :
    (∀ op, ∃ url, p.url cx upstreamId op = .ok url ∧ Confined p cx upstreamId op url) ↔
      Safe p cx upstreamId := by
  constructor
  · intro h
    obtain ⟨url, hurl, ⟨segment, heq, hsegment, hdecode, -⟩, -⟩ := h .retrieve
    rw [url_eq hp, heq] at hurl
    have hsame : segment = p.segment upstreamId := (around_inj (Except.ok.inj hurl)).symm
    subst hsame
    have hsuffix : p.suffix .retrieve = "" := by cases p with | _ => rfl
    rw [hsuffix, String.empty_append] at hsegment
    exact safe_of_named hsegment hdecode
  · intro h op
    have hsegment := isSegment_segment h op
    refine ⟨_, url_eq hp _ op, ⟨p.segment upstreamId, rfl, hsegment, percentDecode_segment h,
      readPath_resource hsegment⟩, fun other hother => ?_⟩
    exact url_inj hp (hother.trans (url_eq hp _ op).symm)

/-- A call asks for the URL of the id, then for the files of the answer. -/
theorem requests_eq (upstreamId url : String) (op : Operation) (fileIds : List String) :
    p.requests cx upstreamId op fileIds = .ok (url :: p.fileUrls cx op fileIds) ↔
      p.url cx upstreamId op = .ok url := by
  rw [BatchProvider.requests]
  cases h : p.url cx upstreamId op with
  | error e => exact iff_of_false (fun h => by cases h) (fun h => by cases h)
  | ok found =>
    change Except.ok (found :: _) = Except.ok (url :: _) ↔ _
    rw [Except.ok.injEq, Except.ok.injEq, List.cons.injEq, and_iff_left rfl]

/-- **Exactly which tokens are confined.** A consumer's token decodes to some upstream id, without
a signer to any. The URL the provider asks for it names that batch, whatever the call, if and only
if the id is safe; the other URLs of a call are those of files, and the id is not in them. -/
theorem token_confined_iff (token : String) (signer : Option BatchIdSigner) (hp : p.Serves) :
    (∀ decoded, decodeBatch token signer = some decoded → ∀ op, ∃ url,
      (∀ fileIds, p.requests cx decoded.upstream op fileIds =
        .ok (url :: p.fileUrls cx op fileIds)) ∧ Confined p cx decoded.upstream op url) ↔
    ∀ decoded, decodeBatch token signer = some decoded → Safe p cx decoded.upstream := by
  simp only [requests_eq, forall_const]
  exact forall_congr' fun decoded => imp_congr_right fun _ =>
    confined_of_serves hp decoded.upstream

/-- A context without settings. -/
def plainCx : ProviderCx := ⟨"", none, none, []⟩

/-- For one upstream. -/
theorem token_confined_iff_openai :
    (BatchProvider.compat .openai).Serves ∧
      ((∀ decoded, decodeBatch "batch_eA" none = some decoded → ∀ op, ∃ url,
        (∀ fileIds, (BatchProvider.compat .openai).requests plainCx decoded.upstream op fileIds =
          .ok (url :: (BatchProvider.compat .openai).fileUrls plainCx op fileIds)) ∧
            Confined (.compat .openai) plainCx decoded.upstream op url) ↔
      ∀ decoded, decodeBatch "batch_eA" none = some decoded →
        Safe (.compat .openai) plainCx decoded.upstream) :=
  have hserves : Brand.openai.batchFlavor ≠ .unsupported := by decide
  ⟨hserves, token_confined_iff _ _ hserves⟩

/-- A consumer's token leads the node to its upstream's files. -/
theorem crafted_token_escapes :
    decodeBatch (encodeBatch "anthropic" "../../files/f?" "" none) none =
        some ⟨"anthropic", "../../files/f?", none⟩ ∧
      BatchProvider.anthropic.url plainCx "../../files/f?" .cancel =
        .ok "https://api.anthropic.com/v1/messages/batches/../../files/f?/cancel" ∧
      Urls.readPath ["v1".toList, "messages".toList, "batches".toList]
        "../../files/f?/cancel".toList = ["v1".toList, "files".toList, "f".toList] ∧
      ¬ ∀ token signer, (∀ decoded, decodeBatch token signer = some decoded → ∀ op, ∃ url,
        BatchProvider.anthropic.url plainCx decoded.upstream op = .ok url ∧
          Confined .anthropic plainCx decoded.upstream op url) := by
  have hdecode : decodeBatch (encodeBatch "anthropic" "../../files/f?" "" none) none =
      some ⟨"anthropic", "../../files/f?", none⟩ :=
    decodeBatch_eq_some_iff.mpr ⟨"", rfl, rfl, by decide, by decide, by decide⟩
  refine ⟨hdecode, by decide, by decide, fun hall => ?_⟩
  have hsafe := (@confined_of_serves .anthropic plainCx trivial _).mp
    (hall _ _ _ hdecode)
  have hdelimited := hsafe.2.2.delimited '/' (by decide)
  exact absurd hdelimited (by decide)

end Llmleaf.BatchUrls
