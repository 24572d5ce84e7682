import Llmleaf.Lib.Relay
import Llmleaf.Lib.Traverse
import Llmleaf.Pipeline
import Llmleaf.Providers.Modalities

/-!
# Decisions, rerank and embeddings through chains of nodes

Nodes may stand one behind the other: each accepts a request, routes its model and sends it to the
next one, and prices and replies the response on the way back. What the provider behind the last node
is sent, and what the consumer before the first one gets, is as if there was one node that routes as
all of them do.

- `RelayNode`: what a node does to a request and a response.
- **Results** (`decisions_relayed`, `rerank_relayed`, `embeddings_relayed`): a chain of nodes is one
  exchange with the provider. Decisions are priced once, by the node closest to the provider that can;
  the others by the node closest to the consumer. A vector loses what is not finite.
-/

namespace Llmleaf

open Relay

/-- A node: the upstream model of each model, and its prices. -/
structure RelayNode where
  route : String → String
  pricing : Pricing

namespace RelayNode

/-- The model that is left after all the routes. -/
def routed (nodes : List RelayNode) (model : String) : String :=
  nodes.foldl (fun model node => node.route model) model

@[simp] theorem routed_nil (model : String) : routed [] model = model := rfl

@[simp] theorem routed_cons (node : RelayNode) (nodes : List RelayNode) (model : String) :
    routed (node :: nodes) model = routed nodes (node.route model) := rfl

/-- A node as it relays requests and responses of one kind; `rule` says how it prices. -/
def hop {ρ τ : Type} [Addressed ρ] (withUsage : τ → (Usage → Usage) → τ)
    (rule : Pricing → String → Usage → Usage) (node : RelayNode) : Hop ρ τ where
  forward r := Addressed.withModel r (node.route (Addressed.model r))
  back r t := withUsage t (rule node.pricing (Addressed.model r))

end RelayNode

theorem Map.without_insert_of_mem {key : String} {keys : List String} (h : key ∈ keys) (m : Map)
    (value : Value) : (m.insert key value).without keys = m.without keys := by
  fun_induction Map.insert m key value with
  | case1 => simp [Map.without, h]
  | case2 => simp [Map.without, h]
  | case3 e m _ heq => simp [Map.without, h, ← heq]
  | case4 e m _ _ ih =>
    unfold Map.without at ih ⊢
    rw [List.filter_cons, List.filter_cons, ih]

theorem Map.without_of_forall {m : Map} {keys : List String} (h : ∀ key ∈ keys, m.get key = none) :
    m.without keys = m := by
  refine List.filter_eq_self.mpr fun e he => decide_eq_true fun hmem => ?_
  have hsome := Map.isSome_get_iff.mpr ⟨e, he, rfl⟩
  rw [h _ hmem] at hsome
  cases hsome

/-- What is added to fields that are read is what is left when they are taken out. -/
theorem Map.without_orInsertAll {base extra : Map} {keys : List String} (hbase : base.Sorted)
    (hextra : extra.Sorted) (hread : ∀ name, name ∉ keys → base.get name = none)
    (hunread : ∀ key ∈ keys, extra.get key = none) :
    (base.orInsertAll extra).without keys = extra := by
  refine ((hbase.orInsertAll extra).without keys).ext hextra fun name => ?_
  rw [Map.get_without, Map.get_orInsertAll]
  split
  · rename_i hname
    exact (hunread name hname).symm
  · rename_i hname
    rw [hread name hname, Option.none_or]

theorem toOption_eq_some {ε α : Type} {x : Except ε α} {a : α} (h : x.toOption = some a) :
    x = .ok a := by
  cases x with
  | error e => cases h
  | ok b => exact congrArg Except.ok (Option.some.inj h)

/-- Two nodes: the first renames a model, the second has its price. -/
def relayNodes : List RelayNode :=
  [⟨fun model => if model = "triage" then "jev" else model, ⟨∅⟩⟩,
    ⟨fun model => "systemone/" ++ model, ⟨HashMap.collect [("jev", ⟨some 2, none, some 8⟩)]⟩⟩]

/-! ## Decisions -/

namespace Decisions

/-- How decisions cross the wire. -/
def surface : Surface Value DecisionsRequest DecisionsResponse where
  accept v := (parseDecisionsRequest v).toOption
  send := requestToWire
  receive r v := (responseFromWire v r.model).toOption
  reply _ t := responseToWire t

/-- A request as it is parsed. -/
structure Accepted (r : DecisionsRequest) : Prop where
  model : r.model ≠ ""
  state : isStructured r.state = true
  stateCanonical : r.state.Canonical
  questions : r.questions ≠ []
  valid : (r.questions.findSome? fun e => validateQuestion e.1 e.2) = none
  questionsCanonical : r.questions.Canonical
  session : sessionOk r.extra = true
  extra : r.extra.Canonical
  unread : ∀ key ∈ requestKeys, r.extra.get key = none

theorem accepted_of_parse {v : Value} {r : DecisionsRequest} (hv : v.Canonical)
    (h : parseDecisionsRequest v = .ok r) : Accepted r := by
  cases v with
  | object obj =>
    have hobj : Map.Canonical obj := hv
    rw [parseDecisionsRequest] at h
    split at h
    · rename_i model hmodel
      split at h
      · cases h
      · rename_i hempty
        split at h
        · cases h
        · rename_i state hstate
          split at h
          · rename_i question questions hquestions
            split at h
            · cases h
            · rename_i hvalid
              split at h
              · rename_i hsession
                cases h
                obtain ⟨hget, hstructured⟩ := Option.filter_eq_some_iff.mp hstate
                exact ⟨hempty, hstructured, hobj.get hget, List.cons_ne_nil _ _, hvalid,
                  hobj.get hquestions, hsession, hobj.without _, fun key hkey => by
                    rw [Map.get_without, if_pos hkey]⟩
              · cases h
          · cases h
    · cases h
  | null | bool | number | string | array => cases h

theorem parse_requestToWire {r : DecisionsRequest} (h : Accepted r) :
    parseDecisionsRequest (requestToWire r) = .ok r := by
  obtain ⟨model, state, questions, extra⟩ := r
  obtain ⟨question, questions, rfl⟩ := List.exists_cons_of_ne_nil h.questions
  rw [requestToWire]
  generalize hobj : ((Map.insert extra "model" (.string model)).insert "state" state).insert
    "questions" (.object (question :: questions)) = obj
  have hmodel : Map.get obj "model" = some (.string model) := by
    rw [← hobj]
    simp [Map.get_insert]
  have hstate : (Map.get obj "state").filter isStructured = some state := by
    rw [← hobj]
    simp [Map.get_insert, h.state]
  have hquestions : Map.get obj "questions" = some (.object (question :: questions)) := by
    rw [← hobj]
    simp [Map.get_insert]
  have hextra : Map.without obj requestKeys = extra := by
    rw [← hobj, Map.without_insert_of_mem (by decide), Map.without_insert_of_mem (by decide),
      Map.without_insert_of_mem (by decide)]
    exact Map.without_of_forall h.unread
  have hsession : sessionOk extra = true := h.session
  simp only [parseDecisionsRequest, hmodel, if_neg h.model, hstate, hquestions, h.valid, hextra,
    hsession, if_true]

section

variable {α : Type} {read : Value → Option α} {object : Map} {key alt name : String}

theorem takeEither_some {n : α} (h : (Map.get object key).bind read = some n) :
    takeEither read object key alt = (some n, object.without [key]) := by
  rw [takeEither, h]

theorem takeEither_none (h : (Map.get object key).bind read = none) :
    takeEither read object key alt =
      (((object.without [key]).get alt).bind read, (object.without [key]).without [alt]) := by
  rw [takeEither, h]

theorem takeEither_canonical (h : object.Canonical) :
    (takeEither read object key alt).2.Canonical := by
  cases hget : (Map.get object key).bind read with
  | some n =>
    rw [takeEither_some hget]
    exact h.without _
  | none =>
    rw [takeEither_none hget]
    exact (h.without _).without _

/-- A field that is not there is not there afterwards, nor is the one that was taken. -/
theorem takeEither_get_eq_none (h : object.get name = none ∨ name = key) :
    (takeEither read object key alt).2.get name = none := by
  have hrest : (object.without [key]).get name = none := by
    rw [Map.get_without]
    rcases h with h | rfl
    · rw [h, ite_self]
    · rw [if_pos (List.mem_singleton.mpr rfl)]
  cases hget : (Map.get object key).bind read with
  | some n =>
    rw [takeEither_some hget]
    exact hrest
  | none =>
    rw [takeEither_none hget, Map.get_without, hrest, ite_self]

/-- Where nothing is read, the other field is gone too. -/
theorem takeEither_alt (h : (takeEither read object key alt).1 = none) :
    (takeEither read object key alt).2.get alt = none := by
  cases hget : (Map.get object key).bind read with
  | some n =>
    rw [takeEither_some hget] at h
    cases h
  | none => rw [takeEither_none hget, Map.get_without, if_pos (List.mem_singleton.mpr rfl)]

end

/-- A response as it is read. -/
structure Received (t : DecisionsResponse) : Prop where
  answers : t.answers.Canonical
  extra : t.extra.Canonical
  unread : ∀ key ∈ responseKeys, t.extra.get key = none
  usageExtra : t.usageExtra.Canonical
  uncounted : ∀ key ∈ ["input_tokens", "output_tokens", "cost"], t.usageExtra.get key = none
  uncosted : t.usage.costUsd = none → t.usageExtra.get "cost_usd" = none
  total : t.usage.totalTokens =
    min (t.usage.promptTokens + t.usage.completionTokens) (2 ^ 64 - 1)
  uncached : t.usage.cacheReadTokens = 0 ∧ t.usage.cacheCreationTokens = 0

theorem responseFromWire_eq_ok {v : Value} {fallback : String} {t : DecisionsResponse}
    (h : responseFromWire v fallback = .ok t) : ∃ object usage, v = .object object ∧
      Map.get object "answers" = some (.object t.answers) ∧
      Map.get object "usage" = some usage ∧ parseUsage usage = .ok (t.usage, t.usageExtra) ∧
      t.extra = Map.without object responseKeys := by
  cases v with
  | object object =>
    rw [responseFromWire] at h
    obtain ⟨model, -, h⟩ := Traverse.bind_ok h
    split at h
    · rename_i answers hanswers
      split at h
      · rename_i usage husage
        cases hparse : parseUsage usage with
        | error e =>
          rw [hparse] at h
          cases h
        | ok u =>
          rw [hparse] at h
          cases h
          exact ⟨object, usage, rfl, hanswers, husage, hparse, rfl⟩
      · cases h
    · cases h
  | null | bool | number | string | array => cases h

theorem received_of_read {v : Value} {fallback : String} {t : DecisionsResponse}
    (hv : v.Canonical) (h : responseFromWire v fallback = .ok t) : Received t := by
  obtain ⟨object, usage, rfl, hanswers, husage, hparse, hextra⟩ := responseFromWire_eq_ok h
  have hobject : Map.Canonical object := hv
  cases usage with
  | object usage =>
    have husage : Map.Canonical usage := hobject.get husage
    obtain ⟨hu, hue⟩ := Prod.mk.inj (Except.ok.inj hparse)
    refine ⟨hobject.get hanswers, hextra ▸ hobject.without _, fun key hkey => ?_, ?_,
      fun key hkey => ?_, fun hcost => ?_, hu ▸ rfl, hu ▸ ⟨rfl, rfl⟩⟩
    · rw [hextra, Map.get_without, if_pos hkey]
    · rw [← hue]
      exact takeEither_canonical (takeEither_canonical (takeEither_canonical husage))
    · rw [← hue]
      simp only [List.mem_cons, List.not_mem_nil, or_false] at hkey
      rcases hkey with rfl | rfl | rfl
      · exact takeEither_get_eq_none (.inl (takeEither_get_eq_none (.inl
          (takeEither_get_eq_none (.inr rfl)))))
      · exact takeEither_get_eq_none (.inl (takeEither_get_eq_none (.inr rfl)))
      · exact takeEither_get_eq_none (.inr rfl)
    · rw [← hue]
      exact takeEither_alt ((congrArg Usage.costUsd hu).trans hcost)
  | null | bool | number | string | array => cases hparse

/-- The usage object of a response. -/
def usageToWire (t : DecisionsResponse) : Map :=
  ((t.usageExtra.insert "input_tokens" (.nat t.usage.promptTokens)).insert "output_tokens"
    (.nat t.usage.completionTokens)).insertSome "cost"
      (t.usage.costUsd.map fun q => .number (.float q))

/-- A usage object that holds what was counted and nothing else that is read. -/
theorem parseUsage_of_get {object usageExtra : Map} {p c : ℕ} {cost : Option ℚ}
    (hobject : object.Canonical) (hextra : usageExtra.Canonical)
    (hget : ∀ name, object.get name =
      if name = "cost" then cost.map fun q => .number (.float q)
      else if name = "output_tokens" then some (.nat c)
      else if name = "input_tokens" then some (.nat p) else usageExtra.get name)
    (huncounted : ∀ key ∈ ["input_tokens", "output_tokens", "cost"], usageExtra.get key = none)
    (huncosted : cost = none → usageExtra.get "cost_usd" = none) :
    parseUsage (.object object) =
      .ok (⟨p, c, min (p + c) (2 ^ 64 - 1), cost, 0, 0⟩, usageExtra) := by
  have hprompt : takeEither Value.asU64 object "input_tokens" "prompt_tokens" =
      (some p, object.without ["input_tokens"]) :=
    takeEither_some (by simp [hget, Value.asU64, Value.nat])
  have hcompletion : takeEither Value.asU64 (object.without ["input_tokens"]) "output_tokens"
      "completion_tokens" = (some c, (object.without ["input_tokens"]).without ["output_tokens"]) :=
    takeEither_some (by simp [hget, Map.get_without, Value.asU64, Value.nat])
  generalize hrest : (object.without ["input_tokens"]).without ["output_tokens"] = rest
    at hcompletion
  have hrestGet : ∀ name, rest.get name =
      if name = "cost" then cost.map fun q => .number (.float q) else usageExtra.get name := by
    intro name
    have hin := huncounted "input_tokens" (by decide)
    have hout := huncounted "output_tokens" (by decide)
    rw [← hrest, Map.get_without, Map.get_without, hget]
    by_cases h1 : name = "output_tokens"
    · subst h1
      simp [hout]
    · by_cases h2 : name = "input_tokens"
      · subst h2
        simp [hin]
      · simp [h1, h2]
  have hrestCanonical : rest.Canonical := hrest ▸ (hobject.without _).without _
  -- what is left is the cost and what is not read
  have hlast : takeEither Value.asF64 rest "cost" "cost_usd" = (cost, usageExtra) := by
    have hcost := huncounted "cost" (by decide)
    have hwithout : ∀ keys, "cost" ∈ keys → (∀ key ∈ keys, usageExtra.get key = none) →
        rest.without keys = usageExtra := by
      intro keys hmem hkeys
      refine (hrestCanonical.without keys).sorted.ext hextra.sorted fun name => ?_
      rw [Map.get_without, hrestGet]
      split
      · rename_i hname
        exact (hkeys name hname).symm
      · rename_i hname
        rw [if_neg fun heq : name = "cost" => hname (heq ▸ hmem)]
    cases cost with
    | some q =>
      rw [takeEither_some (n := q) (by simp [hrestGet, Value.asF64]),
        hwithout ["cost"] (by decide) (by simpa using hcost)]
    | none =>
      have husd := huncosted rfl
      have hone : rest.without ["cost"] = usageExtra :=
        hwithout ["cost"] (by decide) (by simpa using hcost)
      rw [takeEither_none (by simp [hrestGet]), hone, husd, Map.without_of_none husd]
      rfl
  simp only [parseUsage, hprompt, hcompletion, hlast, Option.getD_some]

/-- The usage object of a response is read back. -/
theorem parseUsage_usageToWire {t : DecisionsResponse} (h : Received t) :
    parseUsage (.object (usageToWire t)) = .ok (t.usage, t.usageExtra) := by
  have hobject : (usageToWire t).Canonical := by
    have hcounts := (h.usageExtra.insert "input_tokens" (.number (.posInt t.usage.promptTokens))).insert
      "output_tokens" (.number (.posInt t.usage.completionTokens))
    rw [usageToWire]
    cases t.usage.costUsd with
    | none => exact hcounts
    | some q => exact hcounts.insert "cost" (.number _)
  have hget : ∀ name, (usageToWire t).get name =
      if name = "cost" then t.usage.costUsd.map fun q => .number (.float q)
      else if name = "output_tokens" then some (.nat t.usage.completionTokens)
      else if name = "input_tokens" then some (.nat t.usage.promptTokens)
      else t.usageExtra.get name := by
    intro name
    rw [usageToWire, Map.get_insertSome, Map.get_insert, Map.get_insert]
    by_cases h1 : name = "cost"
    · subst h1
      simp [h.uncounted "cost" (by decide)]
    · simp [h1, Ne.symm h1, eq_comm]
  rw [parseUsage_of_get hobject h.usageExtra hget h.uncounted h.uncosted]
  have husage : (⟨t.usage.promptTokens, t.usage.completionTokens,
      min (t.usage.promptTokens + t.usage.completionTokens) (2 ^ 64 - 1), t.usage.costUsd, 0, 0⟩ :
        Usage) = t.usage := by
    obtain ⟨hread, hcreation⟩ := h.uncached
    rw [← h.total]
    generalize t.usage = u at hread hcreation ⊢
    cases u
    cases hread
    cases hcreation
    rfl
  rw [husage]

theorem responseFromWire_responseToWire {t : DecisionsResponse} (h : Received t)
    (fallback : String) : responseFromWire (responseToWire t) fallback = .ok t := by
  have hwire : responseToWire t = .object (((t.extra.insert "model" (.string t.model)).insert
    "answers" (.object t.answers)).insert "usage" (.object (usageToWire t))) := rfl
  rw [hwire]
  generalize hobject : ((Map.insert t.extra "model" (.string t.model)).insert
    "answers" (.object t.answers)).insert "usage" (.object (usageToWire t)) = object
  have hmodel : Map.get object "model" = some (.string t.model) := by
    rw [← hobject]
    simp [Map.get_insert]
  have hanswers : Map.get object "answers" = some (.object t.answers) := by
    rw [← hobject]
    simp [Map.get_insert]
  have husage : Map.get object "usage" = some (.object (usageToWire t)) := by
    rw [← hobject]
    simp [Map.get_insert]
  have hextra : Map.without object responseKeys = t.extra := by
    rw [← hobject, Map.without_insert_of_mem (by decide), Map.without_insert_of_mem (by decide),
      Map.without_insert_of_mem (by decide)]
    exact Map.without_of_forall h.unread
  simp only [responseFromWire, hmodel, hanswers, husage, hextra, parseUsage_usageToWire h]
  rfl

theorem surface_faithful : surface.Faithful Value.Canonical Accepted Received id id where
  accepted hw h := accepted_of_parse hw (toOption_eq_some h)
  received hv h := received_of_read hv (toOption_eq_some h)
  wf_send h := ((h.extra.insert "model" (.string _)).insert "state" h.stateCanonical).insert
    "questions" h.questionsCanonical
  accept_send h := congrArg Except.toOption (parse_requestToWire h)
  receive_reply _ h := congrArg Except.toOption (responseFromWire_responseToWire h _)
  settle_keeps _ h := h

/-- A node relays decisions; a reported cost stays. -/
def nodeHop : RelayNode → Hop DecisionsRequest DecisionsResponse :=
  RelayNode.hop (fun t price => { t with usage := price t.usage }) Pricing.keepReported

/-- The usage as the nodes price it: the one closest to the provider first. -/
def priced : List RelayNode → String → Usage → Usage
  | [], _, usage => usage
  | node :: nodes, model, usage =>
    node.pricing.keepReported model (priced nodes (node.route model) usage)

theorem nodeHop_keeps {node : RelayNode} (h : ∀ model, model ≠ "" → node.route model ≠ "") :
    (nodeHop node).Keeps Accepted Received := by
  constructor
  · exact fun r hr => { hr with model := h _ hr.model }
  · intro r t ht
    change Received { t with usage := node.pricing.keepReported r.model t.usage }
    unfold Pricing.keepReported
    split
    · rename_i hnone
      exact { ht with uncosted := fun _ => ht.uncosted (Option.isNone_iff_eq_none.mp hnone) }
    · exact ht

theorem forwards_nodeHop {nodes : List RelayNode} {r : DecisionsRequest} :
    forwards id (nodes.map nodeHop) r = { r with model := RelayNode.routed nodes r.model } := by
  induction nodes generalizing r with
  | nil => rfl
  | cons node nodes ih =>
    cases nodes with
    | nil => rfl
    | cons node' nodes => exact ih

theorem backs_nodeHop {nodes : List RelayNode} {r : DecisionsRequest} {t : DecisionsResponse} :
    backs id id (nodes.map nodeHop) r t = { t with usage := priced nodes r.model t.usage } := by
  induction nodes generalizing r with
  | nil => rfl
  | cons node nodes ih =>
    cases nodes with
    | nil => rfl
    | cons node' nodes => exact congrArg ((nodeHop node).back r) ih

/-- A question, and a provider's answer to it. -/
def triageBody : Value :=
  .object [("model", .string "triage"),
    ("questions", .object [("urgent", .object [("instructions", .string "Now?"),
      ("type", .string "noul")])]), ("state", .string "payouts failed")]

def triageAnswer : Value :=
  .object [("answers", .object [("urgent", .bool true)]), ("id", .string "gen-1"),
    ("model", .string "jev-1.13"), ("usage", .object [("input_tokens", .number (.posInt 4))])]

end Decisions

/-! ## Numbers of single precision -/

/-- Only a finite number is on the wire. -/
def finite? : Binary.Number .single → Option (Binary.Number .single)
  | .finite q h => some (.finite q h)
  | .infinite _ => none

theorem asF32_ofF32 (x : Binary.Number .single) : (Value.ofF32 x).asF32 = finite? x := by
  cases x with
  | finite q h => exact Value.asF32_ofF32 h
  | infinite => rfl

/-- Items that are read one by one, wherever they stand. -/
theorem mapIdx_map_eq {α β γ : Type} {read : ℕ → β → γ} {write : α → β} {g : α → γ} {l : List α}
    (h : ∀ i, ∀ a ∈ l, read i (write a) = g a) : (l.map write).mapIdx read = l.map g := by
  refine List.ext_getElem (by simp) fun i hi _ => ?_
  rw [List.getElem_mapIdx, List.getElem_map, List.getElem_map]
  exact h i _ (List.getElem_mem _)

/-- A number that fits in 32 bits keeps its value. -/
theorem map_mod_of_lt {n : Option ℕ} (h : ∀ k ∈ n, k < 2 ^ 32) : n.map (· % 2 ^ 32) = n := by
  cases n with
  | none => rfl
  | some k => exact congrArg some (Nat.mod_eq_of_lt (h k rfl))

/-- What every node but the last has done is no other than what one of them does. -/
theorem map_ite_map {α β : Type} {f : α → α} (h : ∀ a, f (f a) = f a) (nodes : List β)
    (l : List α) [Decidable (nodes = [])] : (if nodes = [] then l else l.map f).map f = l.map f := by
  split
  · rfl
  · rw [List.map_map]
    exact List.map_congr_left fun a _ => h a

/-! ## Rerank -/

namespace Rerank

/-- How rerank crosses the wire. -/
def surface : Surface Value RerankRequest Response where
  accept v := (parseRerankRequest v).toOption
  send := rerankRequestToOpenai
  receive r v := some (openaiToRerank v r.model)
  reply _ t := responseToWire t

/-- A request as it is parsed. -/
structure Accepted (r : RerankRequest) : Prop where
  documents : r.documents ≠ []
  canonical : ∀ d ∈ r.documents, (documentToWire d).Canonical
  topN : ∀ n ∈ r.topN, n < 2 ^ 32
  extra : r.extra.Canonical
  unread : ∀ key ∈ requestKeys, r.extra.get key = none

theorem parseDocument_documentToWire (d : RerankDocument) :
    parseDocument (documentToWire d) = .ok d := by
  cases d <;> rfl

theorem documentToWire_of_parse {v : Value} {d : RerankDocument} (h : parseDocument v = .ok d) :
    documentToWire d = v := by
  cases v with
  | string | object =>
    cases h
    rfl
  | null | bool | number | array => cases h

theorem accepted_of_parse {v : Value} {r : RerankRequest} (hv : v.Canonical)
    (h : parseRerankRequest v = .ok r) : Accepted r := by
  cases v with
  | object obj =>
    have hobj : Map.Canonical obj := hv
    rw [parseRerankRequest] at h
    split at h
    · split at h
      · split at h
        · cases h
        · rename_i documents hdocuments
          cases h
          refine ⟨?_, ?_, ?_, hobj.without _, fun key hkey => by
            rw [Map.get_without, if_pos hkey]⟩
          · rw [parseDocuments.eq_def] at hdocuments
            split at hdocuments
            · obtain ⟨d, rest, rfl, -⟩ := Traverse.exists_cons hdocuments
              exact List.cons_ne_nil _ _
            · cases hdocuments
          · intro d hd
            rw [parseDocuments.eq_def] at hdocuments
            split at hdocuments
            · rename_i item items heq
              obtain ⟨w, hw, hparse⟩ := Traverse.exists_of_mem hdocuments hd
              have harray := hobj.get heq
              rw [documentToWire_of_parse hparse]
              cases harray
              rename_i hitems
              exact hitems w hw
            · cases hdocuments
          · intro n hn
            obtain ⟨m, -, rfl⟩ := Option.map_eq_some_iff.mp hn
            exact Nat.mod_lt _ (by decide)
      · cases h
    · cases h
  | null | bool | number | string | array => cases h

/-- What is known of a request is on the wire, and the rest is what is left. -/
theorem parse_rerankRequestToOpenai {r : RerankRequest} (h : Accepted r) :
    parseRerankRequest (rerankRequestToOpenai r) = .ok r := by
  obtain ⟨model, query, documents, topN, returnDocuments, extra⟩ := r
  obtain ⟨document, documents, rfl⟩ := List.exists_cons_of_ne_nil h.documents
  have hunread : ∀ key ∈ requestKeys, extra.get key = none := h.unread
  rw [rerankRequestToOpenai]
  generalize hobj : (Map.build [("model", some (.string model)), ("query", some (.string query)),
    ("documents", some (.array ((document :: documents).map documentToWire))),
    ("top_n", topN.map .nat), ("return_documents", returnDocuments.map .bool)]).orInsertAll
      extra = obj
  have hmodel : Map.get obj "model" = some (.string model) := by
    simp [← hobj, Map.get_orInsertAll]
  have hquery : Map.get obj "query" = some (.string query) := by
    simp [← hobj, Map.get_orInsertAll]
  have hdocuments : parseDocuments (Map.get obj "documents") = .ok (document :: documents) := by
    have hget : Map.get obj "documents" =
        some (.array ((document :: documents).map documentToWire)) := by
      simp [← hobj, Map.get_orInsertAll]
    rw [hget]
    change ((document :: documents).map documentToWire).mapM parseDocument = _
    exact (Traverse.mapM_map fun d _ => parseDocument_documentToWire d).trans
      (congrArg Except.ok (List.map_id _))
  have htop : (Map.get obj "top_n").bind Value.asU64 = topN := by
    rw [← hobj, Map.get_orInsertAll, hunread "top_n" (by decide)]
    cases topN <;> simp [Value.asU64, Value.nat]
  have hreturn : (Map.get obj "return_documents").bind Value.asBool = returnDocuments := by
    rw [← hobj, Map.get_orInsertAll, hunread "return_documents" (by decide)]
    cases returnDocuments <;> simp [Value.asBool]
  have hextra : Map.without obj requestKeys = extra := by
    rw [← hobj]
    refine Map.without_orInsertAll (Map.sorted_build _) h.extra.sorted (fun name hname => ?_) hunread
    simp only [requestKeys, List.mem_cons, List.not_mem_nil, not_or, or_false] at hname
    simp [Ne.symm hname.1, Ne.symm hname.2.1, Ne.symm hname.2.2.1, Ne.symm hname.2.2.2.1,
      Ne.symm hname.2.2.2.2]
  simp only [parseRerankRequest, hmodel, hquery, hdocuments, htop, hreturn, hextra,
    map_mod_of_lt h.topN]

/-- A response as it is read. -/
structure Received (t : Response) : Prop where
  index : ∀ r ∈ t.results, r.index < 2 ^ 32
  document : ∀ r ∈ t.results, r.document ≠ some .null
  prompt : t.usage.promptTokens = t.usage.totalTokens
  completion : t.usage.completionTokens = 0
  uncached : t.usage.cacheReadTokens = 0 ∧ t.usage.cacheCreationTokens = 0

theorem received_of_read (v : Value) (fallback : String) : Received (openaiToRerank v fallback) where
  index r hr := by
    obtain ⟨i, hi, rfl⟩ := List.mem_mapIdx.mp hr
    exact Nat.mod_lt _ (by decide)
  document r hr := by
    obtain ⟨i, hi, rfl⟩ := List.mem_mapIdx.mp hr
    intro hnull
    simpa using (Option.filter_eq_some_iff.mp hnull).2
  prompt := rfl
  completion := rfl
  uncached := ⟨rfl, rfl⟩

/-- A score that is not finite is lost. -/
def Result.settled (r : Result) : Result :=
  { r with relevanceScore := (finite? r.relevanceScore).getD (Binary.Format.single.round 0) }

/-- What is left of a response after it was on the wire; its price is not. -/
def Response.settled (t : Response) : Response :=
  { t with results := t.results.map Result.settled, usage := { t.usage with costUsd := none } }

theorem readResult_toWire {r : Result} (hindex : r.index < 2 ^ 32)
    (hdocument : r.document ≠ some .null) (i : ℕ) : readResult r.toWire i = r.settled := by
  have hreadIndex : (r.toWire.get "index").bind Value.asU64 = some r.index := by
    simp [Result.toWire, Value.asU64, Value.nat]
  have hreadScore : (r.toWire.get "relevance_score").bind Value.asF32 = finite? r.relevanceScore := by
    simp [Result.toWire, asF32_ofF32]
  have hreadDocument : (r.toWire.get "document").filter (fun v => !decide (v = .null)) =
      r.document := by
    have hget : r.toWire.get "document" = r.document := by simp [Result.toWire]
    rw [hget]
    cases hd : r.document with
    | none => rfl
    | some d => exact Option.filter_some_pos (by simpa using fun h : d = .null => hdocument (h ▸ hd))
  simp only [readResult, hreadIndex, hreadScore, hreadDocument, Option.getD_some,
    Nat.mod_eq_of_lt hindex, Result.settled]

theorem openaiToRerank_responseToWire {t : Response} (h : Received t) (fallback : String) :
    openaiToRerank (responseToWire t) fallback = t.settled := by
  have hmodel : ((responseToWire t).get "model").bind Value.asStr = some t.model := by
    simp [responseToWire, Value.asStr]
  have hresults : ((responseToWire t).get "results").bind Value.asArray =
      some (t.results.map Result.toWire) := by
    simp [responseToWire, Value.asArray]
  have htotal : (((responseToWire t).get "usage").bind (·.get "total_tokens")).bind Value.asU64 =
      some t.usage.totalTokens := by
    simp [responseToWire, Value.asU64, Value.nat]
  have hread : (t.results.map Result.toWire).mapIdx (fun i item => readResult item i) =
      t.results.map Result.settled :=
    mapIdx_map_eq fun i r hr => readResult_toWire (h.index r hr) (h.document r hr) i
  have husage : rerankUsage (responseToWire t) = { t.usage with costUsd := none } := by
    rw [rerankUsage, htotal, Option.some_or, Option.getD_some]
    obtain ⟨hcacheRead, hcreation⟩ := h.uncached
    have hprompt := h.prompt
    have hcompletion := h.completion
    generalize t.usage = u at hprompt hcompletion hcacheRead hcreation ⊢
    cases u
    cases hprompt
    cases hcompletion
    cases hcacheRead
    cases hcreation
    rfl
  rw [openaiToRerank, hmodel, hresults, Option.getD_some, Option.getD_some, hread, husage]
  rfl

theorem surface_faithful :
    surface.Faithful Value.Canonical Accepted Received id Response.settled where
  accepted hw h := accepted_of_parse hw (toOption_eq_some h)
  received _ h := Option.some.inj h ▸ received_of_read ..
  wf_send {r} h := by
    refine Map.Canonical.orInsertAll (Map.Canonical.build fun e he v hv => ?_) h.extra
    simp only [List.mem_cons, List.not_mem_nil, or_false] at he
    rcases he with rfl | rfl | rfl | rfl | rfl
    · cases hv
      exact .string _
    · cases hv
      exact .string _
    · cases hv
      refine .array fun x hx => ?_
      obtain ⟨d, hd, rfl⟩ := List.mem_map.mp hx
      exact h.canonical d hd
    · obtain ⟨n, -, rfl⟩ := Option.map_eq_some_iff.mp hv
      exact .number _
    · obtain ⟨b, -, rfl⟩ := Option.map_eq_some_iff.mp hv
      exact .bool _
  accept_send h := congrArg Except.toOption (parse_rerankRequestToOpenai h)
  receive_reply _ h := congrArg some (openaiToRerank_responseToWire h _)
  settle_keeps t h := by
    refine ⟨?_, ?_, h.prompt, h.completion, h.uncached⟩
    · intro r hr
      obtain ⟨r', hr', rfl⟩ := List.mem_map.mp hr
      exact h.index r' hr'
    · intro r hr
      obtain ⟨r', hr', rfl⟩ := List.mem_map.mp hr
      exact h.document r' hr'

/-- A node relays rerank and prices it itself. -/
def nodeHop : RelayNode → Hop RerankRequest Response :=
  RelayNode.hop (fun t price => { t with usage := price t.usage }) Pricing.price

theorem nodeHop_keeps (node : RelayNode) : (nodeHop node).Keeps Accepted Received :=
  ⟨fun _ hr => { hr with }, fun _ _ ht => { ht with }⟩

theorem forwards_nodeHop {nodes : List RelayNode} {r : RerankRequest} :
    forwards id (nodes.map nodeHop) r = { r with model := RelayNode.routed nodes r.model } := by
  induction nodes generalizing r with
  | nil => rfl
  | cons node nodes ih =>
    cases nodes with
    | nil => rfl
    | cons node' nodes => exact ih

theorem finite?_round_zero :
    finite? (Binary.Format.single.round 0) = some (Binary.Format.single.round 0) := by
  have hzero : Binary.Format.single.nearest 0 = 0 := by
    have hround : Binary.roundEven 0 = 0 := mod_cast Binary.roundEven_intCast 0
    rw [Binary.Format.nearest, zero_div, hround, Int.cast_zero, zero_mul]
  have hsmall : |Binary.Format.single.nearest 0| < 2 ^ Binary.Format.single.bound := by
    rw [hzero, abs_zero]
    positivity
  rw [Binary.Format.round, dif_pos hsmall]
  rfl

theorem Result.settled_settled (r : Result) : r.settled.settled = r.settled := by
  have hscore : ∀ x, finite? x = some x ∨ finite? x = none := by
    intro x
    cases x with
    | finite q h => exact .inl rfl
    | infinite => exact .inr rfl
  rcases hscore r.relevanceScore with h | h
  · simp only [Result.settled, h, Option.getD_some]
  · simp only [Result.settled, h, Option.getD_none, finite?_round_zero, Option.getD_some]

/-- The first node prices what the provider has reported; the response of another node has been on
the wire. -/
theorem backs_nodeHop {node : RelayNode} {nodes : List RelayNode} {r : RerankRequest} {t : Response} :
    backs id Response.settled ((node :: nodes).map nodeHop) r t =
      { t with
        results := if nodes = [] then t.results else t.results.map Result.settled
        usage := node.pricing.price r.model t.usage } := by
  induction nodes generalizing node r with
  | nil => rfl
  | cons node' nodes ih =>
    have hinner := congrArg ((nodeHop node).back r ∘ Response.settled)
      (@ih node' ((nodeHop node).forward r))
    refine hinner.trans ?_
    change ({ t with
      results := (if nodes = [] then t.results else t.results.map Result.settled).map Result.settled
      usage := node.pricing.price r.model t.usage } : Response) = _
    rw [map_ite_map Result.settled_settled, if_neg (List.cons_ne_nil _ _)]

/-- A chain of nodes is one exchange with the provider: it is sent the request under the model that
all routes lead to, and the consumer gets its response with the price of the first node. -/
theorem rerank_relayed {node : RelayNode} {nodes : List RelayNode} {provider : Value → Option Value}
    (hprovider : ∀ w v, provider w = some v → v.Canonical) {body : Value} (hbody : body.Canonical) :
    chain surface ((node :: nodes).map nodeHop) provider body =
      (parseRerankRequest body).toOption.bind fun r =>
        (provider (rerankRequestToOpenai
            { r with model := RelayNode.routed (node :: nodes) r.model })).map fun v =>
          let t := openaiToRerank v (RelayNode.routed (node :: nodes) r.model)
          responseToWire { t with
            results := if nodes = [] then t.results else t.results.map Result.settled
            usage := node.pricing.price r.model t.usage } := by
  have hkeeps : ∀ h ∈ (node :: nodes).map nodeHop, h.Keeps Accepted Received := by
    intro h hh
    obtain ⟨node, -, rfl⟩ := List.mem_map.mp hh
    exact nodeHop_keeps node
  rw [chain_eq surface_faithful hprovider (by simp) hkeeps hbody]
  simp only [forwards_nodeHop, backs_nodeHop]
  refine Option.bind_congr fun r _ => ?_
  exact Option.map_eq_bind.symm

/-- A search, and a provider's ranking. -/
def searchBody : Value :=
  .object [("documents", .array [.string "paris", .string "berlin"]), ("model", .string "rank"),
    ("query", .string "france")]

def searchAnswer : Value :=
  .object [("results", .array [.object [("index", .number (.posInt 0)),
    ("relevance_score", .number (.float (1 / 2)))]])]

theorem rerank_relayed_search : ∃ node nodes, node :: nodes = relayNodes ∧
    chain surface ((node :: nodes).map nodeHop) (fun _ => some searchAnswer) searchBody =
      (parseRerankRequest searchBody).toOption.bind fun r =>
        (some searchAnswer).map fun v =>
          let t := openaiToRerank v (RelayNode.routed (node :: nodes) r.model)
          responseToWire { t with
            results := if nodes = [] then t.results else t.results.map Result.settled
            usage := node.pricing.price r.model t.usage } := by
  have hanswer : searchAnswer.Canonical := by
    refine .object (by decide) ?_
    simp only [List.forall_mem_cons]
    refine ⟨.array ?_, by simp⟩
    simp only [List.forall_mem_cons]
    refine ⟨.object (by decide) ?_, by simp⟩
    simp [Value.Canonical.number]
  have hbody : searchBody.Canonical := by
    refine .object (by decide) ?_
    simp only [List.forall_mem_cons]
    refine ⟨.array ?_, .string _, .string _, by simp⟩
    simp [Value.Canonical.string]
  refine ⟨_, _, rfl, rerank_relayed (fun w v h => ?_) hbody⟩
  cases h
  exact hanswer

end Rerank

/-! ## Embeddings -/

namespace Embeddings

variable {encode : List (Binary.Number .single) → String}

/-- How embeddings cross the wire. -/
def surface (encode : List (Binary.Number .single) → String) :
    Surface Value EmbeddingRequest Response where
  accept v := (parseEmbeddingRequest v).toOption
  send := embeddingRequestToOpenai
  receive r v := some (openaiToEmbeddings v r.model)
  reply r t := responseToOpenai encode t r.encodingFormat

/-- A request as it is parsed. -/
structure Accepted (r : EmbeddingRequest) : Prop where
  dimensions : ∀ n ∈ r.dimensions, n < 2 ^ 32
  extra : r.extra.Canonical
  unread : ∀ key ∈ requestKeys, r.extra.get key = none

theorem accepted_of_parse {v : Value} {r : EmbeddingRequest} (hv : v.Canonical)
    (h : parseEmbeddingRequest v = .ok r) : Accepted r := by
  cases v with
  | object obj =>
    have hobj : Map.Canonical obj := hv
    rw [parseEmbeddingRequest] at h
    split at h
    · split at h
      · cases h
      · cases h
        refine ⟨fun n hn => ?_, hobj.without _, fun key hkey => by
          rw [Map.get_without, if_pos hkey]⟩
        obtain ⟨m, -, rfl⟩ := Option.map_eq_some_iff.mp hn
        exact Nat.mod_lt _ (by decide)
    · cases h
  | null | bool | number | string | array => cases h

/-- A request for the vectors as numbers. -/
def asFloat (r : EmbeddingRequest) : EmbeddingRequest := { r with encodingFormat := some "float" }

theorem parse_embeddingRequestToOpenai {r : EmbeddingRequest} (h : Accepted r) :
    parseEmbeddingRequest (embeddingRequestToOpenai r) = .ok (asFloat r) := by
  obtain ⟨model, input, dimensions, encodingFormat, extra⟩ := r
  have hunread : ∀ key ∈ requestKeys, extra.get key = none := h.unread
  rw [embeddingRequestToOpenai]
  generalize hobj : (Map.build [("model", some (.string model)),
    ("input", some (.array (input.map .string))), ("encoding_format", some (.string "float")),
    ("dimensions", dimensions.map .nat)]).orInsertAll extra = obj
  have hmodel : Map.get obj "model" = some (.string model) := by
    simp [← hobj, Map.get_orInsertAll]
  have hinput : parseInput (Map.get obj "input") = .ok input := by
    have hget : Map.get obj "input" = some (.array (input.map .string)) := by
      simp [← hobj, Map.get_orInsertAll]
    rw [hget]
    change (input.map Value.string).mapM parseItem = _
    exact (Traverse.mapM_map (f := parseItem) (g := id) fun s _ => rfl).trans
      (congrArg Except.ok (List.map_id _))
  have hformat : (Map.get obj "encoding_format").bind Value.asStr = some "float" := by
    simp [← hobj, Map.get_orInsertAll, Value.asStr]
  have hdimensions : (Map.get obj "dimensions").bind Value.asU64 = dimensions := by
    rw [← hobj, Map.get_orInsertAll, hunread "dimensions" (by decide)]
    cases dimensions <;> simp [Value.asU64, Value.nat]
  have hextra : Map.without obj requestKeys = extra := by
    rw [← hobj]
    refine Map.without_orInsertAll (Map.sorted_build _) h.extra.sorted (fun name hname => ?_) hunread
    simp only [requestKeys, List.mem_cons, List.not_mem_nil, not_or, or_false] at hname
    simp [Ne.symm hname.1, Ne.symm hname.2.1, Ne.symm hname.2.2.1, Ne.symm hname.2.2.2]
  simp only [parseEmbeddingRequest, hmodel, hinput, hformat, hdimensions, hextra,
    map_mod_of_lt h.dimensions]
  rfl

/-- A response as it is read. -/
structure Received (t : Response) : Prop where
  index : ∀ e ∈ t.embeddings, e.index < 2 ^ 32
  completion : t.usage.completionTokens = 0
  uncached : t.usage.cacheReadTokens = 0 ∧ t.usage.cacheCreationTokens = 0

theorem received_of_read (v : Value) (fallback : String) :
    Received (openaiToEmbeddings v fallback) where
  index e he := by
    obtain ⟨i, hi, rfl⟩ := List.mem_mapIdx.mp he
    exact Nat.mod_lt _ (by decide)
  completion := rfl
  uncached := ⟨rfl, rfl⟩

/-- The numbers that are not finite are lost. -/
def Vector.settled (e : Vector) : Vector := { e with vector := e.vector.filterMap finite? }

/-- What is left of a response after it was on the wire; its price is not. -/
def Response.settled (t : Response) : Response :=
  { t with embeddings := t.embeddings.map Vector.settled, usage := { t.usage with costUsd := none } }

theorem Vector.settled_settled (e : Vector) : e.settled.settled = e.settled := by
  have hfinite : ∀ x, (finite? x).bind finite? = finite? x := by
    intro x
    cases x <;> rfl
  simp only [Vector.settled, List.filterMap_filterMap, hfinite]

theorem readVector_toWire {e : Vector} (hindex : e.index < 2 ^ 32) (i : ℕ) :
    readVector (e.toWire none) i = e.settled := by
  have hreadIndex : ((e.toWire none).get "index").bind Value.asU64 = some e.index := by
    simp [Vector.toWire, Value.asU64, Value.nat]
  have hreadVector : ((e.toWire none).get "embedding").bind Value.asArray =
      some (e.vector.map .ofF32) := by
    simp [Vector.toWire, Value.asArray]
  have hread : (e.vector.map Value.ofF32).filterMap Value.asF32 = e.vector.filterMap finite? := by
    rw [List.filterMap_map]
    exact List.filterMap_congr fun x _ => asF32_ofF32 x
  simp only [readVector, hreadIndex, hreadVector, Option.getD_some, hread,
    Nat.mod_eq_of_lt hindex, Vector.settled]

theorem openaiToEmbeddings_responseToOpenai {t : Response} (h : Received t) (fallback : String) :
    openaiToEmbeddings (responseToOpenai encode t (some "float")) fallback = t.settled := by
  generalize hv : responseToOpenai encode t (some "float") = v
  have hmodel : (v.get "model").bind Value.asStr = some t.model := by
    simp [← hv, responseToOpenai, Value.asStr]
  have hdata : (v.get "data").bind Value.asArray = some (t.embeddings.map (Vector.toWire none)) := by
    simp [← hv, responseToOpenai, Value.asArray]
  have hprompt : ((v.get "usage").bind (·.get "prompt_tokens")).bind Value.asU64 =
      some t.usage.promptTokens := by
    simp [← hv, responseToOpenai, Value.asU64, Value.nat]
  have htotal : ((v.get "usage").bind (·.get "total_tokens")).bind Value.asU64 =
      some t.usage.totalTokens := by
    simp [← hv, responseToOpenai, Value.asU64, Value.nat]
  have hread : (t.embeddings.map (Vector.toWire none)).mapIdx (fun i item => readVector item i) =
      t.embeddings.map Vector.settled :=
    mapIdx_map_eq fun i e he => readVector_toWire (h.index e he) i
  have husage : readUsage v = { t.usage with costUsd := none } := by
    rw [readUsage, hprompt, htotal, Option.getD_some, Option.getD_some]
    obtain ⟨hcacheRead, hcreation⟩ := h.uncached
    have hcompletion := h.completion
    generalize t.usage = u at hcompletion hcacheRead hcreation ⊢
    cases u
    cases hcompletion
    cases hcacheRead
    cases hcreation
    rfl
  rw [openaiToEmbeddings, hmodel, hdata, Option.getD_some, Option.getD_some, hread, husage]
  rfl

theorem surface_faithful :
    (surface encode).Faithful Value.Canonical Accepted Received asFloat Response.settled where
  accepted hw h := accepted_of_parse hw (toOption_eq_some h)
  received _ h := Option.some.inj h ▸ received_of_read ..
  wf_send {r} h := by
    refine Map.Canonical.orInsertAll (Map.Canonical.build fun e he v hv => ?_) h.extra
    simp only [List.mem_cons, List.not_mem_nil, or_false] at he
    rcases he with rfl | rfl | rfl | rfl
    · cases hv
      exact .string _
    · cases hv
      refine .array fun x hx => ?_
      obtain ⟨s, -, rfl⟩ := List.mem_map.mp hx
      exact .string s
    · cases hv
      exact .string _
    · obtain ⟨n, -, rfl⟩ := Option.map_eq_some_iff.mp hv
      exact .number _
  accept_send h := congrArg Except.toOption (parse_embeddingRequestToOpenai h)
  receive_reply _ h := congrArg some (openaiToEmbeddings_responseToOpenai h _)
  settle_keeps t h := by
    refine ⟨?_, h.completion, h.uncached⟩
    intro e he
    obtain ⟨e', he', rfl⟩ := List.mem_map.mp he
    exact h.index e' he'

/-- A node relays embeddings and prices them itself. -/
def nodeHop : RelayNode → Hop EmbeddingRequest Response :=
  RelayNode.hop (fun t price => { t with usage := price t.usage }) Pricing.price

theorem nodeHop_keeps (node : RelayNode) : (nodeHop node).Keeps Accepted Received :=
  ⟨fun _ hr => { hr with }, fun _ _ ht => { ht with }⟩

/-- The last node sends its request under the model that is left. -/
theorem send_forwards_nodeHop {nodes : List RelayNode} {r : EmbeddingRequest} :
    embeddingRequestToOpenai (forwards asFloat (nodes.map nodeHop) r) =
        embeddingRequestToOpenai { r with model := RelayNode.routed nodes r.model } ∧
      (forwards asFloat (nodes.map nodeHop) r).model = RelayNode.routed nodes r.model := by
  induction nodes generalizing r with
  | nil => exact ⟨rfl, rfl⟩
  | cons node nodes ih =>
    cases nodes with
    | nil => exact ⟨rfl, rfl⟩
    | cons node' nodes => exact ih (r := asFloat ((nodeHop node).forward r))

/-- The first node prices what the provider has reported; the response of another node has been on
the wire. -/
theorem backs_nodeHop {node : RelayNode} {nodes : List RelayNode} {r : EmbeddingRequest} {t : Response} :
    backs asFloat Response.settled ((node :: nodes).map nodeHop) r t =
      { t with
        embeddings := if nodes = [] then t.embeddings else t.embeddings.map Vector.settled
        usage := node.pricing.price r.model t.usage } := by
  induction nodes generalizing node r with
  | nil => rfl
  | cons node' nodes ih =>
    have hinner := congrArg ((nodeHop node).back r ∘ Response.settled)
      (@ih node' (asFloat ((nodeHop node).forward r)))
    refine hinner.trans ?_
    change ({ t with
      embeddings :=
        (if nodes = [] then t.embeddings else t.embeddings.map Vector.settled).map Vector.settled
      usage := node.pricing.price r.model t.usage } : Response) = _
    rw [map_ite_map Vector.settled_settled, if_neg (List.cons_ne_nil _ _)]

/-- A chain of nodes is one exchange with the provider: it is sent the request under the model that
all routes lead to, and the consumer gets its vectors in the encoding it has asked for, with the
price of the first node. -/
theorem embeddings_relayed {node : RelayNode} {nodes : List RelayNode} {provider : Value → Option Value}
    (hprovider : ∀ w v, provider w = some v → v.Canonical) {body : Value} (hbody : body.Canonical) :
    chain (surface encode) ((node :: nodes).map nodeHop) provider body =
      (parseEmbeddingRequest body).toOption.bind fun r =>
        (provider (embeddingRequestToOpenai
            { r with model := RelayNode.routed (node :: nodes) r.model })).map fun v =>
          let t := openaiToEmbeddings v (RelayNode.routed (node :: nodes) r.model)
          responseToOpenai encode { t with
            embeddings := if nodes = [] then t.embeddings else t.embeddings.map Vector.settled
            usage := node.pricing.price r.model t.usage } r.encodingFormat := by
  have hkeeps : ∀ h ∈ (node :: nodes).map nodeHop, h.Keeps Accepted Received := by
    intro h hh
    obtain ⟨node, -, rfl⟩ := List.mem_map.mp hh
    exact nodeHop_keeps node
  rw [chain_eq surface_faithful hprovider (by simp) hkeeps hbody]
  refine Option.bind_congr fun r _ => ?_
  obtain ⟨hsend, hmodel⟩ := @send_forwards_nodeHop (node :: nodes) r
  change ((provider (embeddingRequestToOpenai _)).bind fun v =>
    some (responseToOpenai encode (backs _ _ _ _ (openaiToEmbeddings v (forwards asFloat _ r).model))
      r.encodingFormat)) = _
  rw [hsend, hmodel]
  simp only [backs_nodeHop]
  exact Option.map_eq_bind.symm

/-- A text, and a provider's vector of it. -/
def textBody : Value :=
  .object [("encoding_format", .string "base64"), ("input", .string "hi"), ("model", .string "emb")]

def textAnswer : Value :=
  .object [("data", .array [.object [("embedding", .array [.number (.float (1 / 2))])]])]

theorem embeddings_relayed_text : ∃ node nodes, node :: nodes = relayNodes ∧
    chain (surface fun _ => "AAAAPw==") ((node :: nodes).map nodeHop) (fun _ => some textAnswer)
        textBody =
      (parseEmbeddingRequest textBody).toOption.bind fun r =>
        (some textAnswer).map fun v =>
          let t := openaiToEmbeddings v (RelayNode.routed (node :: nodes) r.model)
          responseToOpenai (fun _ => "AAAAPw==") { t with
            embeddings := if nodes = [] then t.embeddings else t.embeddings.map Vector.settled
            usage := node.pricing.price r.model t.usage } r.encodingFormat := by
  have hanswer : textAnswer.Canonical := by
    refine .object (by decide) ?_
    simp only [List.forall_mem_cons]
    refine ⟨.array ?_, by simp⟩
    simp only [List.forall_mem_cons]
    refine ⟨.object (by decide) ?_, by simp⟩
    simp only [List.forall_mem_cons]
    refine ⟨.array ?_, by simp⟩
    simp [Value.Canonical.number]
  have hbody : textBody.Canonical := by
    refine .object (by decide) ?_
    simp [Value.Canonical.string]
  refine ⟨_, _, rfl, embeddings_relayed (fun w v h => ?_) hbody⟩
  cases h
  exact hanswer

end Embeddings

end Llmleaf
