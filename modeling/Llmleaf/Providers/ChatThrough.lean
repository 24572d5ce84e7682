import Llmleaf.Compat.Openai.Request
import Llmleaf.Lib.Traverse
import Llmleaf.Providers.OpenaiRequest
import Llmleaf.Same

/-!
# A chat-completions request on its way through

A request is read into the canonical model and written again for a chat-completions upstream. What
the canonical model has no place for is lost on the way, unless it is a whole field of the body.

- `SameRequest a b`: the bodies mean the same, up to the spellings that the gateway chooses.
- `Carried`: the body says nothing that the canonical model has no place for.
- **Result** (`through_iff`): a body that is accepted is written with the same meaning exactly when
  it is carried.
-/

namespace Llmleaf.ChatThrough

open Openai OpenaiWire Value

/-! ## What a body means -/

/-- The role, by its canonical name. -/
def roleOf (m : Value) : Option String :=
  (m.textAt ["role"]).map fun
    | "developer" => "system"
    | "function" => "tool"
    | r => r

/-- The parts of a content; a text is one part. -/
def contentItems (o : Option Value) : List Value :=
  match o with
  | none | some null => []
  | some (string text) => [obj [("type", string "text"), ("text", string text)]]
  | some (array parts) => parts
  | some v => [v]

/-- Messages that mean the same. -/
structure SameMessage (m m' : Value) : Prop where
  role : roleOf m = roleOf m'
  content : List.Forall₂ Same (contentItems (m.get "content")) (contentItems (m'.get "content"))
  rest : ∀ key ∉ ["role", "content"], SameField (m.get key) (m'.get key)

/-- The stop sequences; a single one is a list. -/
def stopItems (o : Option Value) : List Value :=
  match said o with
  | none => []
  | some (array items) => items
  | some v => [v]

/-- The output caps that a body sets, under either name. -/
def caps (v : Value) : List Value :=
  (said (v.get "max_completion_tokens")).toList ++ (said (v.get "max_tokens")).toList

/-- The effort, collapsed to the three of the wire where it is on the ladder. -/
def effort (o : Option Value) : Option Value :=
  (said o).map fun
    | string "minimal" | string "low" => string "low"
    | string "medium" | string "med" => string "medium"
    | string "high" | string "xhigh" | string "highx" | string "max" => string "high"
    | v => v

/-- The fields that are compared in a way of their own, or chosen by the gateway. -/
def ownFields : List String :=
  ["messages", "stop", "max_completion_tokens", "max_tokens", "reasoning_effort", "stream",
    "stream_options"]

/-- **Bodies that mean the same.** -/
structure SameRequest (a b : Value) : Prop where
  messages : List.Forall₂ SameMessage (a.itemsAt ["messages"]) (b.itemsAt ["messages"])
  stop : stopItems (a.get "stop") = stopItems (b.get "stop")
  caps : caps a = caps b
  effort : effort (a.get "reasoning_effort") = effort (b.get "reasoning_effort")
  rest : ∀ key ∉ ownFields, SameField (a.get key) (b.get key)

/-! ## What the canonical model has a place for -/

/-- A content part that is carried: a text, an image by its address and detail, or audio. -/
def PartCarried (p : Value) : Prop :=
  match p.textAt ["type"] with
  | some "text" => p.Only ["type", "text"] ∧ (p.textAt ["text"]).isSome
  | some "image_url" => p.Only ["type", "image_url"] ∧
    ∃ image, p.get "image_url" = some image ∧ image.Only ["url", "detail"] ∧
      OptText (image.get "detail")
  | some "input_audio" => p.Only ["type", "input_audio"] ∧
    ∃ audio, p.get "input_audio" = some audio ∧ audio.Only ["data", "format"]
  | _ => False

/-- A tool call that is carried: a function call with an id, a name and arguments. -/
def CallCarried (c : Value) : Prop :=
  c.Only ["id", "type", "function"] ∧ (c.textAt ["id"]).isSome ∧
    c.textAt ["type"] = some "function" ∧
    ∃ f, c.get "function" = some f ∧ f.Only ["name", "arguments"] ∧ (f.textAt ["name"]).isSome ∧
      (f.textAt ["arguments"]).isSome

/-- A message that is carried. -/
structure MessageCarried (m : Value) : Prop where
  only : m.Only ["role", "content", "tool_calls", "tool_call_id", "name"]
  content : ∀ p ∈ contentItems (m.get "content"), PartCarried p
  toolCalls : ArrayOf CallCarried (m.get "tool_calls")
  toolCallId : OptText (m.get "tool_call_id")
  name : OptText (m.get "name")

/-- A tool that is carried: a function with a name, a description and parameters. -/
def ToolCarried (t : Value) : Prop :=
  t.Only ["type", "function"] ∧ t.textAt ["type"] = some "function" ∧
    ∃ f, t.get "function" = some f ∧ f.Only ["name", "description", "parameters"] ∧
      OptText (f.get "description")

/-- A tool choice that is carried: a mode, or a function by its name. -/
def ChoiceCarried (o : Option Value) : Prop :=
  said o = none ∨ o = some (string "auto") ∨ o = some (string "none") ∨
    o = some (string "required") ∨
    ∃ v, o = some v ∧ v.Only ["type", "function"] ∧ v.textAt ["type"] = some "function" ∧
      ∃ f, v.get "function" = some f ∧ f.Only ["name"] ∧ (f.textAt ["name"]).isSome

/-- A sampling parameter that is carried: a number of single precision. -/
def NumberCarried (o : Option Value) : Prop :=
  said o = none ∨ ∃ q, o.bind asF64 = some q ∧ Binary.Format.single.Mem q

/-- Stop sequences that are carried: texts. -/
def StopCarried (o : Option Value) : Prop := ∀ v ∈ stopItems o, ∃ s, v = string s

/-- An output cap that is carried: the one that counts is a number of 32 bits, and another one has
a field of its own. -/
structure CapCarried (maxTokensField : String) (v : Value) : Prop where
  first : said ((v.get "max_completion_tokens").or (v.get "max_tokens")) = none ∨
    ∃ n, (v.get "max_completion_tokens").or (v.get "max_tokens") = some (nat n) ∧ n < 2 ^ 32
  second : said (v.get "max_completion_tokens") ≠ none → said (v.get "max_tokens") ≠ none →
    maxTokensField = "max_completion_tokens"

/-- **A body that is carried.** -/
structure Carried (maxTokensField : String) (v : Value) : Prop where
  messages : ∀ m ∈ v.itemsAt ["messages"], MessageCarried m
  tools : ArrayOf ToolCarried (v.get "tools")
  toolChoice : ChoiceCarried (v.get "tool_choice")
  temperature : NumberCarried (v.get "temperature")
  topP : NumberCarried (v.get "top_p")
  stop : StopCarried (v.get "stop")
  cap : CapCarried maxTokensField v

/-! ## Parts, calls and tools -/

theorem textAt_one (v : Value) (key : String) : v.textAt [key] = (v.get key).bind asStr := by
  rw [textAt, path_one]

theorem textAt_eq_some {v : Value} {key s : String} :
    v.textAt [key] = some s ↔ v.get key = some (string s) := by
  rw [textAt_one, Option.bind_eq_some_iff]
  constructor
  · rintro ⟨w, hw, h⟩
    cases w <;> cases h
    exact hw
  · intro h
    exact ⟨_, h, rfl⟩

theorem textAt_two (v : Value) (key key' : String) :
    v.textAt [key, key'] = (v.get key).bind (·.textAt [key']) := by
  rw [textAt, path_cons, Option.bind_assoc]
  rfl

theorem object_of_get {v w : Value} {key : String} (h : v.get key = some w) :
    ∃ m, v = object m := by
  cases v with
  | object m => exact ⟨m, rfl⟩
  | _ => cases h

theorem object_of_textAt {v : Value} {key s : String} (h : v.textAt [key] = some s) :
    ∃ m, v = object m := object_of_get (textAt_eq_some.mp h)

/-- A text is compared as it is read. -/
theorem sameField_text_eq {v : Value} {key s : String} :
    SameField (v.get key) (some (string s)) ↔ v.textAt [key] = some s := by
  rw [sameField_string_iff, textAt_eq_some]

/-- A text that must be there is kept, and nothing else. -/
theorem sameField_textAt_iff {v : Value} {key : String} :
    SameField (v.get key) (some (string ((v.textAt [key]).getD ""))) ↔
      (v.textAt [key]).isSome := by
  rw [sameField_text_eq]
  cases v.textAt [key] <;> simp

/-- An image is written as it was read exactly if it has nothing but an address and a detail. -/
theorem image_iff {image : Value} {url : String} (hurl : image.textAt ["url"] = some url) :
    SameField (some image) (some (build [("url", some (string url)),
      ("detail", ((image.get "detail").bind asStr).map string)])) ↔
        image.Only ["url", "detail"] ∧ OptText (image.get "detail") := by
  rw [sameField_build_iff (by simp)]
  simp only [List.map_cons, List.map_nil, List.Forall, Option.some.injEq, exists_eq_left',
    sameField_text_eq, hurl, true_and, sameField_text_iff, object_of_textAt hurl]

theorem audio_iff {audio : Value} {data format : String} (hdata : audio.textAt ["data"] = some data)
    (hformat : audio.textAt ["format"] = some format) :
    SameField (some audio) (some (obj [("data", string data), ("format", string format)])) ↔
      audio.Only ["data", "format"] := by
  rw [sameField_obj_iff (by simp)]
  simp only [List.map_cons, List.map_nil, List.Forall, Option.some.injEq, exists_eq_left',
    sameField_text_eq, hdata, hformat, true_and, and_true, object_of_textAt hdata]

/-- **A content part** is written as it was read exactly if it is carried. -/
theorem part_iff {debug : String → String} {p : Value} {part : ContentPart}
    (h : parseContentPart debug p = .ok part) :
    (contentPart part).elim (¬ PartCarried p) fun q => Same p q ↔ PartCarried p := by
  obtain ⟨m, hm⟩ : ∃ m, p = object m := by
    cases p with
    | object m => exact ⟨m, rfl⟩
    | _ => cases h
  have hobject : (∃ m, p = object m) ↔ True := iff_true_intro ⟨m, hm⟩
  unfold PartCarried
  unfold parseContentPart at h
  rw [hm] at h
  dsimp only at h
  rw [← hm] at h
  split at h
  · rename_i htype
    cases h
    rw [htype]
    have hfield := sameField_text_eq.mpr htype
    simp only [contentPart, Option.elim_some]
    rw [same_obj_iff (by simp)]
    simp only [List.map_cons, List.map_nil, List.Forall, hobject, hfield, sameField_textAt_iff,
      true_and]
  · rename_i htype
    split at h
    · rename_i url hurl
      cases h
      rw [htype]
      have hfield := sameField_text_eq.mpr htype
      rw [textAt_two] at hurl
      obtain ⟨image, himage, hurl⟩ := Option.bind_eq_some_iff.mp hurl
      have hdetail : p.textAt ["image_url", "detail"] = (image.get "detail").bind asStr := by
        rw [textAt_two, himage, Option.bind_some, textAt_one]
      simp only [contentPart, Option.elim_some]
      rw [same_obj_iff (by simp)]
      simp only [List.map_cons, List.map_nil, List.Forall, hobject, hfield, true_and, himage,
        hdetail, image_iff hurl, Option.some.injEq, exists_eq_left']
    · cases h
  · rename_i htype
    rw [htype]
    have hfield := sameField_text_eq.mpr htype
    split at h
    · rename_i audio haudio
      split at h
      · cases h
      · rename_i data hdata
        split at h
        · cases h
        · rename_i format hformat
          cases h
          have hdata := (Option.filter_eq_some_iff.mp hdata).1
          have hformat := (Option.filter_eq_some_iff.mp hformat).1
          rw [textAt_two, haudio, Option.bind_some] at hdata hformat
          simp only [contentPart, Option.elim_some]
          rw [same_obj_iff (by simp)]
          simp only [List.map_cons, List.map_nil, List.Forall, hobject, hfield, true_and, haudio,
            audio_iff hdata hformat, Option.some.injEq, exists_eq_left']
    · cases h
  · rename_i htype
    split at h
    · cases h
    · cases h
      simp only [contentPart, Option.elim_none]
      rw [htype]
      exact id
  · cases h

/-- **A tool call** is written as it was read exactly if it is carried. -/
theorem call_iff (c : Value) : Same c (toolCallToOpenai (parseToolCall c)) ↔ CallCarried c := by
  have hfn {f : Value} (hf : c.get "function" = some f) (key : String) :
      c.textAt ["function", key] = f.textAt [key] := by
    rw [textAt_two, hf, Option.bind_some]
  rw [toolCallToOpenai, same_obj_iff (by simp)]
  simp only [List.map_cons, List.map_nil, List.Forall, parseToolCall]
  rw [sameField_obj_iff (by simp), sameField_textAt_iff, sameField_text_eq]
  simp only [List.map_cons, List.map_nil, List.Forall]
  constructor
  · rintro ⟨-, honly, hid, htype, f, hf, -, hfonly, hname, hargs⟩
    rw [hfn hf, sameField_textAt_iff] at hname hargs
    exact ⟨honly, hid, htype, f, hf, hfonly, hname, hargs⟩
  · rintro ⟨honly, hid, htype, f, hf, hfonly, hname, hargs⟩
    obtain ⟨name, hsome⟩ := Option.isSome_iff_exists.mp hname
    refine ⟨object_of_get hf, honly, hid, htype, f, hf, object_of_textAt hsome, hfonly, ?_⟩
    rw [hfn hf, hfn hf, sameField_textAt_iff, sameField_textAt_iff]
    exact ⟨hname, hargs⟩

/-- **A tool** with a function is written as it was read exactly if it is carried. -/
theorem tool_iff {t f : Value} (hf : t.get "function" = some f) {d : ToolDef}
    (h : parseFunction f = .ok d) : Same t (toolToOpenai d) ↔ ToolCarried t := by
  unfold parseFunction at h
  split at h
  · rename_i name hname
    cases h
    have hparameters : SameField (f.get "parameters") (some ((f.get "parameters").getD null)) := by
      cases f.get "parameters" with
      | none => exact .none
      | some v => exact .refl _
    rw [toolToOpenai, same_obj_iff (by simp)]
    simp only [List.map_cons, List.map_nil, List.Forall]
    rw [sameField_build_iff (by simp), sameField_text_eq]
    simp only [List.map_cons, List.map_nil, List.Forall, hf, Option.some.injEq, exists_eq_left',
      hparameters, sameField_text_eq, hname, textAt_one f "description", sameField_text_iff,
      true_and, and_true, object_of_get hf, object_of_textAt hname, ToolCarried]
  · cases h

/-- A tool choice that names a function. -/
theorem named_iff {v : Value} {name : String} (hname : v.textAt ["function", "name"] = some name) :
    SameField (some v) (some (toolChoiceToOpenai (.named name))) ↔
      v.Only ["type", "function"] ∧ v.textAt ["type"] = some "function" ∧
        ∃ f, v.get "function" = some f ∧ f.Only ["name"] ∧ (f.textAt ["name"]).isSome := by
  rw [textAt_two] at hname
  obtain ⟨f, hf, hname⟩ := Option.bind_eq_some_iff.mp hname
  rw [toolChoiceToOpenai, sameField_obj_iff (by simp)]
  simp only [List.map_cons, List.map_nil, List.Forall, Option.some.injEq, exists_eq_left',
    sameField_text_eq]
  rw [sameField_obj_iff (by simp)]
  simp only [List.map_cons, List.map_nil, List.Forall, hf, Option.some.injEq, exists_eq_left',
    sameField_text_eq, hname, object_of_get hf, object_of_textAt hname, true_and, and_true,
    Option.isSome_some]

/-- **A tool choice** is written as it was read exactly if it is carried. -/
theorem choice_iff (o : Option Value) :
    SameField o ((parseToolChoice o).map toolChoiceToOpenai) ↔ ChoiceCarried o := by
  -- a choice that is not read is left out
  have hout (hnone : parseToolChoice o = none) (hmode : ∀ s ∈ ["auto", "none", "required"],
      o ≠ some (string s)) (hname : ∀ v, o = some v → v.textAt ["function", "name"] = none) :
      SameField o ((parseToolChoice o).map toolChoiceToOpenai) ↔ ChoiceCarried o := by
    rw [hnone, Option.map_none, sameField_none_iff]
    refine ⟨.inl, ?_⟩
    rintro (h | h | h | h | ⟨v, rfl, -, -, f, hf, -, h⟩)
    · exact h
    · exact absurd h (hmode _ (by simp))
    · exact absurd h (hmode _ (by simp))
    · exact absurd h (hmode _ (by simp))
    · have hno := hname v rfl
      rw [textAt_two, hf, Option.bind_some] at hno
      rw [hno] at h
      cases h
  rcases o with _ | v
  · exact hout rfl (by simp) (by simp)
  cases v with
  | string s =>
    by_cases hs : s ∈ ["auto", "none", "required"]
    · simp only [List.mem_cons, List.not_mem_nil, or_false] at hs
      rcases hs with rfl | rfl | rfl
      · exact iff_of_true (.refl _) (.inr (.inl rfl))
      · exact iff_of_true (.refl _) (.inr (.inr (.inl rfl)))
      · exact iff_of_true (.refl _) (.inr (.inr (.inr (.inl rfl))))
    · simp only [List.mem_cons, List.not_mem_nil, or_false, not_or] at hs
      refine hout ?_ (by simpa using hs) fun v hv => ?_
      · simp [parseToolChoice, hs]
      · cases hv
        rfl
  | object m =>
    cases hname : (object m).textAt ["function", "name"] with
    | none =>
      refine hout ?_ (by simp) fun v hv => ?_
      · rw [parseToolChoice, hname]
        rfl
      · cases hv
        exact hname
    | some name =>
      rw [parseToolChoice, hname]
      refine (named_iff hname).trans ⟨fun h => .inr (.inr (.inr (.inr ⟨_, rfl, h⟩))), ?_⟩
      rintro (h | h | h | h | ⟨v, hv, h⟩)
      · cases h
      · cases h
      · cases h
      · cases h
      · cases hv
        exact h
  | _ =>
    refine hout rfl (by simp) fun v hv => ?_
    cases hv
    rfl

/-- **A sampling parameter** is written as it was read exactly if it is carried. -/
theorem number_iff (o : Option Value) :
    SameField o ((o.bind asF32).map ofF32) ↔ NumberCarried o := by
  -- what is no number is left out
  have hout (hnone : o.bind asF64 = none) :
      SameField o ((o.bind asF32).map ofF32) ↔ NumberCarried o := by
    have hf32 : o.bind asF32 = none := by
      cases o with
      | none => rfl
      | some v =>
        rw [Option.bind_some] at hnone ⊢
        rw [asF32, hnone]
        rfl
    rw [hf32, Option.map_none, sameField_none_iff, NumberCarried, hnone]
    simp
  rcases o with _ | v
  · exact hout rfl
  cases v with
  | number n =>
    obtain ⟨q, hq⟩ : ∃ q, (number n).asF64 = some q := by cases n <;> exact ⟨_, rfl⟩
    have hcarried : NumberCarried (some (number n)) ↔ Binary.Format.single.Mem q := by
      simp [NumberCarried, hq]
    rw [hcarried, Option.bind_some, asF32, hq]
    change SameField _ (some (ofF32 (Binary.Format.single.round
      (Binary.Format.double.nearest q)))) ↔ _
    constructor
    · intro h
      generalize Binary.Format.single.round (Binary.Format.double.nearest q) = x at h
      cases x with
      | finite q' h' =>
        obtain ⟨n', hn', heq⟩ := sameField_number_iff.mp h
        cases hn'
        rw [hq] at heq
        cases heq
        exact h'
      | infinite negative => cases h
    · intro h
      have hd : Binary.Format.double.nearest q = q := h.nearest_eq (by decide) (by decide)
      rw [hd, Binary.Format.round_coe h]
      exact sameField_number_iff.mpr ⟨n, rfl, hq⟩
  | _ => exact hout rfl

/-! ## Messages -/

/-- The canonical content of a message, as parts on the wire. -/
theorem contentItems_messageContent (msg : Message) :
    contentItems (some (messageContent msg)) = msg.content.filterMap contentPart := by
  rw [messageContent]
  split
  · rename_i hnil
    rw [hnil]
    rfl
  · rename_i text htext
    rw [htext]
    rfl
  · rfl

/-- The parts of a content are read one by one. -/
theorem forall₂_contentItems {debug : String → String} {o : Option Value}
    {parts : List ContentPart} (h : parseContent debug o = .ok parts) :
    List.Forall₂ (fun p part => parseContentPart debug p = .ok part) (contentItems o) parts := by
  unfold parseContent at h
  split at h
  · cases h
    exact .nil
  · cases h
    exact .nil
  · cases h
    refine .cons ?_ .nil
    rw [obj_eq_build]
    simp [parseContentPart, build, textAt_object, asStr]
  · exact Traverse.mapM_ok_iff.mp h
  · cases h

/-- The role is kept, by its canonical name. -/
theorem roleOf_written {m : Value} {r : String} {role : Role}
    (hm : m.get "role" = some (string r)) (h : parseRole r = .ok role) :
    roleOf m = some (roleName role) := by
  rw [roleOf, textAt_eq_some.mpr hm, Option.map_some]
  unfold parseRole at h
  split at h <;> cases h <;> rfl

theorem parseRole_roleName (role : Role) : parseRole (roleName role) = .ok role := by
  cases role <;> rfl

/-- The calls of a message are written as they were read exactly if they are carried. -/
theorem calls_iff (o : Option Value) :
    SameField o (if parseToolCalls o = [] then none
      else some (array ((parseToolCalls o).map toolCallToOpenai))) ↔ ArrayOf CallCarried o := by
  have hnil : (parseToolCalls o).map toolCallToOpenai = [] ↔ parseToolCalls o = [] :=
    List.map_eq_nil_iff
  simp only [← hnil]
  refine sameField_array_iff (fun hother => ?_) fun xs hxs => ?_
  · rw [hnil, parseToolCalls]
    exact hother
  · subst hxs
    rw [parseToolCalls, List.map_map, List.forall₂_map_right_iff, List.forall₂_same]
    simp only [Function.comp_apply, call_iff]

/-- A compaction field that says nothing adds no part. -/
theorem compaction_of_said {debug : String → String} {o : Option Value} {parts : List ContentPart}
    (hsaid : said o = none) (h : parseCompaction debug o = .ok parts) : parts = [] := by
  unfold parseCompaction at h
  split at h
  · rename_i items
    cases items with
    | nil => exact (Except.ok.inj h).symm
    | cons item items => cases hsaid
  · exact (Except.ok.inj h).symm

/-- **A message** is written as it was read exactly if it is carried. -/
theorem message_iff {debug : String → String} {m : Value} {msg : Message}
    (h : parseMessage debug m = .ok msg) :
    SameMessage m (messageToOpenai msg) ↔ MessageCarried m := by
  unfold parseMessage at h
  split at h
  · rename_i fields
    split at h
    · rename_i r hr
      obtain ⟨role, hrole, h⟩ := Traverse.bind_ok h
      obtain ⟨content, hcontent, h⟩ := Traverse.bind_ok h
      obtain ⟨compaction, hcompaction, h⟩ := Traverse.bind_ok h
      generalize hm : object fields = m at hr hcontent hcompaction h ⊢
      have hmsg := Except.ok.inj h
      have hrest : (∀ key ∉ ["role", "content"],
          SameField (m.get key) ((messageToOpenai msg).get key)) ↔
            m.Only ["role", "content", "tool_calls", "tool_call_id", "name"] ∧
              ArrayOf CallCarried (m.get "tool_calls") ∧ OptText (m.get "tool_call_id") ∧
                OptText (m.get "name") := by
        rw [messageToOpenai, sameFields_build_iff (by simp) (by simp)]
        simp only [List.map_cons, List.map_nil, List.Forall, ← hmsg, calls_iff, textAt_one,
          sameField_text_iff]
        simp
      have hgot : (messageToOpenai msg).get "content" = some (messageContent msg) := by
        rw [messageToOpenai, get_object]
        exact get_build_mem (by simp) (e := ("content", some (messageContent msg))) (by simp)
      have hrolename : roleOf m = roleOf (messageToOpenai msg) := by
        have hwritten : (messageToOpenai msg).get "role" = some (string (roleName msg.role)) := by
          rw [messageToOpenai, get_object]
          exact get_build_mem (by simp) (e := ("role", some (string (roleName msg.role)))) (by simp)
        rw [roleOf_written hr hrole, roleOf_written hwritten (parseRole_roleName msg.role), ← hmsg]
      have hparts := Traverse.forall₂_filterMap_iff (S := Same) (C := PartCarried)
        (f := contentPart) (forall₂_contentItems hcontent) fun p part => part_iff
      -- the parts beside the content are none if nothing else is said
      have hcontentiff (honly : said (m.get "compaction") = none) :
          List.Forall₂ Same (contentItems (m.get "content"))
            (contentItems ((messageToOpenai msg).get "content")) ↔
              ∀ p ∈ contentItems (m.get "content"), PartCarried p := by
        rw [hgot, contentItems_messageContent, ← hparts, ← hmsg,
          compaction_of_said honly hcompaction, List.append_nil]
      constructor
      · rintro ⟨-, hsame, hfields⟩
        obtain ⟨honly, hcalls, hid, hname⟩ := hrest.mp hfields
        exact ⟨honly, (hcontentiff (honly _ (by simp))).mp hsame, hcalls, hid, hname⟩
      · rintro ⟨honly, hitems, hcalls, hid, hname⟩
        exact ⟨hrolename, (hcontentiff (honly _ (by simp))).mpr hitems,
          hrest.mpr ⟨honly, hcalls, hid, hname⟩⟩
    · cases h
  · cases h

/-! ## The request -/

/-- What an accepted body is read as, field by field. -/
structure Reads (debug : String → String) (body : Value) (req : ChatRequest) : Prop where
  model : body.get "model" = some (string req.model)
  messages : parseMessages debug (body.get "messages") = .ok req.messages
  tools : parseTools (body.get "tools") = .ok req.tools
  maxTokens : req.maxTokens = (((body.get "max_completion_tokens").or
    (body.get "max_tokens")).bind asU64).map (· % 2 ^ 32)
  temperature : req.temperature = (body.get "temperature").bind asF32
  topP : req.topP = (body.get "top_p").bind asF32
  stop : req.stop = parseStop (body.get "stop")
  toolChoice : req.toolChoice = parseToolChoice (body.get "tool_choice")
  thinking : req.thinking = effortOf body
  extra : ∀ key, Map.get req.extra key = if key ∈ modeled body then none else body.get key

theorem reads_of_parse {debug : String → String} {body : Value} {req : ChatRequest}
    (h : parseChatRequest debug body = .ok req) : Reads debug body req := by
  unfold parseChatRequest at h
  split at h
  · rename_i fields
    split at h
    · rename_i model hmodel
      obtain ⟨messages, hmessages, h⟩ := Traverse.bind_ok h
      obtain ⟨tools, htools, h⟩ := Traverse.bind_ok h
      cases h
      exact ⟨hmodel, hmessages, htools, rfl, rfl, rfl, rfl, rfl, rfl,
        fun key => Map.get_without _ _ _⟩
    · cases h
  · cases h

/-- The names of the output cap. -/
def capNames : List String := ["max_completion_tokens", "max_tokens"]

section

variable {debug : String → String} {body : Value} {req : ChatRequest} {field : String}
variable {stream : Bool}

/-- The modelled fields have different names. -/
theorem nodup_modeledFields (hfield : field ∈ capNames) : ((["model", "messages", field,
    "temperature", "top_p", "stop", "tools", "tool_choice", "reasoning_effort"]).Nodup) := by
  simp only [capNames, List.mem_cons, List.not_mem_nil, or_false] at hfield
  rcases hfield with rfl | rfl <;> decide

/-- A field of the body that the gateway does not choose. -/
theorem written_get {key : String} (hstream : key ≠ "stream") (hoptions : key ≠ "stream_options") :
    (requestToOpenai req field stream).get key =
      ((modeledFields req field).get key).or (Map.get req.extra key) := by
  unfold requestToOpenai
  cases stream with
  | false =>
    simp [Map.get_insert, Map.get_orInsertAll, Ne.symm hstream]
  | true =>
    simp [Map.get_insert, Map.get_orInsertAll, Ne.symm hstream, Ne.symm hoptions]

/-- A modelled field is written as the mapper has it, and no unmodelled one stands in its place. -/
theorem written_modeled (hfield : field ∈ capNames) (hr : Reads debug body req)
    {key : String} {o : Option Value}
    (hmem : (key, o) ∈ [("model", some (string req.model)),
      ("messages", some (array (req.messages.map messageToOpenai))),
      ("temperature", req.temperature.map ofF32), ("top_p", req.topP.map ofF32),
      ("stop", if req.stop = [] then none else some (array (req.stop.map string))),
      ("tools", if req.tools = [] then none else some (array (req.tools.map toolToOpenai))),
      ("tool_choice", req.toolChoice.map toolChoiceToOpenai)]) :
    (requestToOpenai req field stream).get key = o := by
  have hkey : key ∈ ["model", "messages", "temperature", "top_p", "stop", "tools",
      "tool_choice"] := List.mem_map_of_mem (f := Prod.fst) hmem
  have hread : key ∈ modeled body := by
    simp only [List.mem_cons, List.not_mem_nil, or_false] at hkey
    rcases hkey with rfl | rfl | rfl | rfl | rfl | rfl | rfl <;> simp [modeled]
  have hown : key ≠ "stream" ∧ key ≠ "stream_options" := by
    constructor
    · rintro rfl
      simp at hkey
    · rintro rfl
      simp at hkey
  rw [written_get hown.1 hown.2, hr.extra, if_pos hread, Option.or_none]
  rw [modeledFields]
  apply get_build_mem (e := (key, o))
  · exact nodup_modeledFields hfield
  · simp only [List.mem_cons, List.not_mem_nil, or_false] at hmem ⊢
    tauto

/-- A field that is not modelled is written as it stands. -/
theorem written_other (hfield : field ∈ capNames) (hr : Reads debug body req) {key : String}
    (hstream : key ≠ "stream") (hoptions : key ≠ "stream_options")
    (hkey : key ∉ ["model", "messages", "max_completion_tokens", "max_tokens", "temperature",
      "top_p", "stop", "tools", "tool_choice", "reasoning_effort"]) :
    (requestToOpenai req field stream).get key = body.get key := by
  have hmodeled : (modeledFields req field).get key = none := by
    refine get_build_not_mem ?_
    simp only [capNames, List.mem_cons, List.not_mem_nil, or_false, not_or] at hfield hkey
    rcases hfield with rfl | rfl <;> simp [hkey]
  have hread : key ∉ modeled body := by
    simp only [List.mem_cons, List.not_mem_nil, or_false, not_or] at hkey
    simp [modeled, hkey, hstream]
  rw [written_get hstream hoptions, hmodeled, hr.extra, if_neg hread, Option.none_or]

/-- **The tools** are written as they were read exactly if they are carried. -/
theorem tools_iff {o : Option Value} {tools : List ToolDef} (h : parseTools o = .ok tools) :
    SameField o (if tools = [] then none else some (array (tools.map toolToOpenai))) ↔
      ArrayOf ToolCarried o := by
  have hnil : tools.map toolToOpenai = [] ↔ tools = [] := List.map_eq_nil_iff
  simp only [← hnil]
  refine sameField_array_iff (fun hother => ?_) fun xs hxs => ?_
  · rw [hnil]
    unfold parseTools at h
    split at h
    · rename_i items
      exact absurd rfl (hother items)
    · exact (Except.ok.inj h).symm
  · subst hxs
    refine Traverse.forall₂_of_filterMap_iff (Traverse.mapM_ok_iff.mp h)
      (fun t f d hf hd => tool_iff hf hd) fun t hf => ?_
    rintro ⟨-, -, f, hsome, -⟩
    rw [hf] at hsome
    cases hsome

/-- **The fields that are compared as they stand.** -/
theorem rest_iff (hfield : field ∈ capNames) (hr : Reads debug body req) :
    (∀ key ∉ ownFields,
      SameField (body.get key) ((requestToOpenai req field stream).get key)) ↔
        ArrayOf ToolCarried (body.get "tools") ∧ ChoiceCarried (body.get "tool_choice") ∧
          NumberCarried (body.get "temperature") ∧ NumberCarried (body.get "top_p") := by
  have htools : (requestToOpenai req field stream).get "tools" =
      if req.tools = [] then none else some (array (req.tools.map toolToOpenai)) :=
    written_modeled hfield hr (by simp)
  have hchoice : (requestToOpenai req field stream).get "tool_choice" =
      (parseToolChoice (body.get "tool_choice")).map toolChoiceToOpenai :=
    written_modeled hfield hr (by simp [hr.toolChoice])
  have htemperature : (requestToOpenai req field stream).get "temperature" =
      ((body.get "temperature").bind asF32).map ofF32 :=
    written_modeled hfield hr (by simp [hr.temperature])
  have htopP : (requestToOpenai req field stream).get "top_p" =
      ((body.get "top_p").bind asF32).map ofF32 :=
    written_modeled hfield hr (by simp [hr.topP])
  rw [← tools_iff hr.tools, ← choice_iff, ← number_iff, ← number_iff, ← htools, ← hchoice,
    ← htemperature, ← htopP]
  constructor
  · intro h
    exact ⟨h _ (by decide), h _ (by decide), h _ (by decide), h _ (by decide)⟩
  · rintro ⟨h₁, h₂, h₃, h₄⟩ key hkey
    by_cases hmodeled : key ∈ ["model", "tools", "tool_choice", "temperature", "top_p"]
    · simp only [List.mem_cons, List.not_mem_nil, or_false] at hmodeled
      rcases hmodeled with rfl | rfl | rfl | rfl | rfl
      · have hmodel : (requestToOpenai req field stream).get "model" = some (string req.model) :=
          written_modeled hfield hr (by simp)
        rw [hmodel, hr.model]
        exact .refl _
      · exact h₁
      · exact h₂
      · exact h₃
      · exact h₄
    · simp only [ownFields, List.mem_cons, List.not_mem_nil, or_false, not_or] at hkey hmodeled
      rw [written_other hfield hr (by tauto) (by tauto) (by simp; tauto)]
      exact .refl _

/-- The texts of a list are the whole list exactly if there is nothing else. -/
theorem texts_iff (l : List Value) :
    l = (l.filterMap asStr).map string ↔ ∀ v ∈ l, ∃ s, v = string s := by
  constructor
  · intro h v hv
    rw [h] at hv
    obtain ⟨s, -, rfl⟩ := List.mem_map.mp hv
    exact ⟨s, rfl⟩
  · intro h
    induction l with
    | nil => rfl
    | cons v l ih =>
      obtain ⟨s, rfl⟩ := h v List.mem_cons_self
      have hs : (string s).asStr = some s := rfl
      rw [List.filterMap_cons_some hs, List.map_cons,
        ← ih fun w hw => h w (List.mem_cons_of_mem _ hw)]

/-- **The stop sequences** are written as they were read exactly if they are texts. -/
theorem stop_iff (o : Option Value) :
    stopItems o = stopItems (if parseStop o = [] then none
      else some (array ((parseStop o).map string))) ↔ StopCarried o := by
  -- the items on the wire are the texts that were read
  have hwritten (l : List String) :
      stopItems (if l = [] then none else some (array (l.map string))) = l.map string := by
    cases l <;> rfl
  rw [hwritten, StopCarried]
  rcases o with _ | v
  · simp [stopItems, parseStop]
  cases v with
  | array l =>
    have hitems : stopItems (some (array l)) = l := by cases l <;> rfl
    rw [hitems, parseStop, texts_iff]
  | _ => simp [stopItems, parseStop]

theorem asU64_eq_some {v : Value} {n : ℕ} : v.asU64 = some n ↔ v = nat n := by
  constructor
  · intro h
    unfold asU64 at h
    split at h <;> cases h
    rfl
  · rintro rfl
    rfl

/-- A number is cut to itself exactly if it has 32 bits. -/
theorem nat_cut_iff {n : ℕ} : nat n = nat (n % 2 ^ 32) ↔ n < 2 ^ 32 := by
  constructor
  · intro h
    have heq : n = n % 2 ^ 32 := by simpa [nat] using h
    omega
  · intro h
    rw [Nat.mod_eq_of_lt h]

/-- A cap is kept exactly if it says nothing or has 32 bits. -/
theorem cap_iff (o : Option Value) :
    said o = ((o.bind asU64).map (· % 2 ^ 32)).map nat ↔
      said o = none ∨ ∃ n, o = some (nat n) ∧ n < 2 ^ 32 := by
  cases ho : o.bind asU64 with
  | none =>
    refine ⟨.inl, fun h => h.resolve_right ?_⟩
    rintro ⟨n, rfl, -⟩
    cases ho
  | some n =>
    obtain ⟨v, rfl, hv⟩ := Option.bind_eq_some_iff.mp ho
    cases asU64_eq_some.mp hv
    simp only [nat, said_number, Option.map_some, Option.some.injEq]
    rw [show number (.posInt n) = nat n from rfl,
      show number (.posInt (n % 2 ^ 32)) = nat (n % 2 ^ 32) from rfl, nat_cut_iff]
    simp [nat]

/-- The output cap stands under its own name and no other. -/
theorem get_cap (hfield : field ∈ capNames) {key : String} (hkey : key ∈ capNames) :
    (modeledFields req field).get key = if key = field then req.maxTokens.map nat else none := by
  rw [modeledFields]
  by_cases heq : key = field
  · subst heq
    rw [if_pos rfl]
    apply get_build_mem (e := (key, req.maxTokens.map nat))
    · exact nodup_modeledFields hfield
    · simp
  · rw [if_neg heq]
    refine get_build_not_mem ?_
    simp only [capNames, List.mem_cons, List.not_mem_nil, or_false] at hkey
    rcases hkey with rfl | rfl <;> simp [heq]

/-- The caps on the wire, where `x` is the canonical one: the second field is passed on only beside
the first. -/
theorem wireCaps_iff {m t x : Option Value} (hfield : field ∈ capNames)
    (hx : x = (((m.or t).bind asU64).map (· % 2 ^ 32)).map nat) :
    (said m).toList ++ (said t).toList =
        (said (if "max_completion_tokens" = field then x else none)).toList ++
          (said ((if "max_tokens" = field then x else none).or
            (if m.isSome then t else none))).toList ↔
      said (m.or t) = x ∧ (said m ≠ none → said t ≠ none → field = "max_completion_tokens") := by
  have hsaid : said x = x := by
    rw [hx]
    cases ((m.or t).bind asU64).map (· % 2 ^ 32) <;> rfl
  have htoList : ∀ a b : Option Value, a.toList = b.toList ↔ a = b := by
    intro a b
    cases a <;> cases b <;> simp
  simp only [capNames, List.mem_cons, List.not_mem_nil, or_false] at hfield
  cases m with
  | none => rcases hfield with rfl | rfl <;> simp [hsaid, htoList]
  | some v =>
    rcases hfield with rfl | rfl
    · simp [hsaid, htoList]
    · cases x with
      | none =>
        simp only [Option.some_or, Option.isSome_some, if_true]
        simp
        exact fun h hne => absurd h hne
      | some w =>
        -- a canonical cap was read from the first field, which then says something
        have hv : said (some v) ≠ none := by
          intro hno
          rw [Option.some_or, Option.bind_some] at hx
          cases hu : v.asU64 with
          | none => rw [hu] at hx; cases hx
          | some n =>
            rw [asU64_eq_some.mp hu] at hno
            cases hno
        rw [Option.ne_none_iff_exists'] at hv
        obtain ⟨v', hv⟩ := hv
        cases ht : said t with
        | none => simp [hv, hsaid]
        | some t' => simp [hv, hsaid]

/-- **The output cap** is written as it was read exactly if it is carried. -/
theorem caps_iff (hfield : field ∈ capNames) (hr : Reads debug body req) :
    caps body = caps (requestToOpenai req field stream) ↔ CapCarried field body := by
  have hfirst : Map.get req.extra "max_completion_tokens" = none := by
    rw [hr.extra, if_pos (by simp [modeled])]
  have hsecond : Map.get req.extra "max_tokens" =
      if (body.get "max_completion_tokens").isSome then body.get "max_tokens" else none := by
    rw [hr.extra]
    by_cases hsome : (body.get "max_completion_tokens").isSome = true
    · rw [if_pos hsome, if_neg]
      simp [modeled, hsome]
    · rw [if_neg hsome, if_pos]
      simp [modeled, hsome]
  unfold caps
  rw [written_get (by decide) (by decide), get_cap hfield (by decide), hfirst, Option.or_none,
    written_get (by decide) (by decide), get_cap hfield (by decide), hsecond,
    wireCaps_iff hfield (by rw [hr.maxTokens]), hr.maxTokens, cap_iff]
  exact ⟨fun h => ⟨h.1, h.2⟩, fun h => ⟨h.first, h.second⟩⟩

/-- **The effort** is always written with its meaning. -/
theorem effort_written (hfield : field ∈ capNames) (hr : Reads debug body req) :
    effort (body.get "reasoning_effort") =
      effort ((requestToOpenai req field stream).get "reasoning_effort") := by
  have hmodeled : (modeledFields req field).get "reasoning_effort" =
      (effortOf body).map fun t => string (thinkingEffort t) := by
    rw [modeledFields, ← hr.thinking]
    apply get_build_mem
      (e := ("reasoning_effort", req.thinking.map fun t => string (thinkingEffort t)))
    · exact nodup_modeledFields hfield
    · simp
  have hextra : Map.get req.extra "reasoning_effort" =
      if (effortOf body).isSome then none else body.get "reasoning_effort" := by
    rw [hr.extra]
    cases heffort : effortOf body <;> simp [modeled, heffort]
  rw [written_get (by decide) (by decide), hmodeled, hextra]
  cases heffort : effortOf body with
  | none => simp
  | some t =>
    obtain ⟨s, hs, ht⟩ := Option.bind_eq_some_iff.mp heffort
    rw [textAt_eq_some.mp hs]
    unfold parseReasoningEffort at ht
    split at ht <;> cases ht <;> rfl

/-- **A body that is accepted** is written with the same meaning exactly when it is carried. -/
theorem through_iff (h : parseChatRequest debug body = .ok req) (hfield : field ∈ capNames)
    (stream : Bool) :
    SameRequest body (requestToOpenai req field stream) ↔ Carried field body := by
  have hr := reads_of_parse h
  have hstop : (requestToOpenai req field stream).get "stop" =
      if parseStop (body.get "stop") = [] then none
      else some (array ((parseStop (body.get "stop")).map string)) :=
    written_modeled hfield hr (by simp [hr.stop])
  have hmessages : List.Forall₂ SameMessage (body.itemsAt ["messages"])
      ((requestToOpenai req field stream).itemsAt ["messages"]) ↔
        ∀ m ∈ body.itemsAt ["messages"], MessageCarried m := by
    have hwritten : (requestToOpenai req field stream).itemsAt ["messages"] =
        req.messages.filterMap fun msg => some (messageToOpenai msg) := by
      have hget : (requestToOpenai req field stream).get "messages" =
          some (array (req.messages.map messageToOpenai)) := written_modeled hfield hr (by simp)
      rw [itemsAt, path_one, hget, List.filterMap_eq_map']
      rfl
    have hread : List.Forall₂ (fun m msg => parseMessage debug m = .ok msg)
        (body.itemsAt ["messages"]) req.messages := by
      have hparse := hr.messages
      unfold parseMessages at hparse
      split at hparse
      · rename_i items hitems
        rw [itemsAt, path_one, hitems]
        exact Traverse.mapM_ok_iff.mp hparse
      · cases hparse
    rw [hwritten]
    exact Traverse.forall₂_filterMap_iff hread fun m msg => message_iff
  constructor
  · rintro ⟨hmsg, hst, hcaps, -, hrest⟩
    obtain ⟨htools, hchoice, htemperature, htopP⟩ := (rest_iff hfield hr).mp hrest
    exact ⟨hmessages.mp hmsg, htools, hchoice, htemperature, htopP,
      (stop_iff _).mp (hstop ▸ hst), (caps_iff hfield hr).mp hcaps⟩
  · rintro ⟨hmsg, htools, hchoice, htemperature, htopP, hst, hcap⟩
    exact ⟨hmessages.mpr hmsg, hstop ▸ (stop_iff _).mpr hst, (caps_iff hfield hr).mpr hcap,
      effort_written hfield hr, (rest_iff hfield hr).mpr ⟨htools, hchoice, htemperature, htopP⟩⟩

end

/-! ## Two bodies -/

/-- A plain question with an output cap. -/
def question : Value := object [
  ("model", string "gpt-4o"),
  ("messages", array [object [("role", string "user"), ("content", string "hi")]]),
  ("max_tokens", nat 64)]

/-- A question that offers some of the tools only. -/
def narrowed : Value := object [
  ("model", string "gpt-4o"),
  ("messages", array [object [("role", string "user"), ("content", string "hi")]]),
  ("tool_choice", object [("type", string "allowed_tools"),
    ("allowed_tools", object [("mode", string "auto"), ("tools", array [])])])]

/-- The plain question is written with its meaning. -/
theorem through_question :
    ∃ req, parseChatRequest id question = .ok req ∧ question ≠ narrowed ∧
      (SameRequest question (requestToOpenai req "max_completion_tokens" true) ↔
        Carried "max_completion_tokens" question) := by
  refine ⟨_, rfl, by decide, ?_⟩
  exact through_iff (rfl : parseChatRequest id question = _) (by decide) true

theorem narrowed_choice : parseToolChoice (narrowed.get "tool_choice") = none := rfl

/-- The choice among the tools is gone: the upstream may call any of them. -/
theorem narrowed_not_through : ∃ req, parseChatRequest id narrowed = .ok req ∧
    ¬ SameRequest narrowed (requestToOpenai req "max_tokens" false) := by
  obtain ⟨req, h⟩ : ∃ req, parseChatRequest id narrowed = .ok req := ⟨_, rfl⟩
  have hr := reads_of_parse h
  refine ⟨req, h, fun hsame => ?_⟩
  have hwritten : (requestToOpenai req "max_tokens" false).get "tool_choice" = none :=
    written_modeled (o := none) (by decide) hr (by simp [hr.toolChoice, narrowed_choice])
  have hchoice := hsame.rest "tool_choice" (by decide)
  rw [hwritten, sameField_none_iff] at hchoice
  cases hchoice

end Llmleaf.ChatThrough
