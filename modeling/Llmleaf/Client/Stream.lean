import Llmleaf.Fields
import Llmleaf.Lib.EventStream

/-!
# The streams of the client

The client takes the lines off the bytes as they come, and makes an item of every line that it reads:
a chunk of a chat completion, an event of a response, or the result of a request of a batch.

- `decoded`: the loop that takes the lines off, and asks for more bytes when there is none.
- `sseChunks`, `sseResponses`, `ndjsonLines`: the three streams.
- **Result** (`streams_by_line`): each is what its bytes are read as line by line, in whatever
  pieces they come.
-/

namespace Llmleaf

/-- A signed number of 64 bits. -/
def Value.asI64 : Value → Option ℤ
  | .number (.posInt n) => if n < 2 ^ 63 then some n else none
  | .number (.negInt n) => some n
  | _ => none

namespace Client

open EventStream Lines

/-- An error of the client; the text of a failed decoding is not kept. -/
inductive Error where
  | api (status : ℕ) (message : String)
  | http (message : String)
  | json
  deriving DecidableEq

/-- A body in the pieces in which the connection brings it. -/
abbrev ByteStream := List (Except Error (List UInt8))

/-! ## The lines -/

/-- Pop one complete line off the buffer. -/
def takeLine (buf : List UInt8) : Option (String × List UInt8) :=
  if 10 ∈ buf then
    some (fromUtf8Lossy (buf.take (buf.idxOf 10)), buf.drop (buf.idxOf 10 + 1))
  else none

/-- What remains in the buffer at the end of the body. -/
def takeRemaining (buf : List UInt8) : Option String :=
  if buf = [] then none else some (fromUtf8Lossy buf)

theorem length_takeLine {buf rest : List UInt8} {line : String}
    (h : takeLine buf = some (line, rest)) : rest.length < buf.length := by
  unfold takeLine at h
  split at h
  · rename_i hmem
    have hlt := List.idxOf_lt_length_of_mem hmem
    cases h
    rw [List.length_drop]
    omega
  · cases h

/-- The items of a body, with what is in the buffer before it. -/
def decoded {α : Type} (read : String → Reading (Except Error α)) (buf : List UInt8)
    (body : ByteStream) : List (Except Error α) :=
  match _h : takeLine buf with
  | some (line, rest) =>
    match read line with
    | .skip => decoded read rest body
    | .done => []
    | .item i => i :: decoded read rest body
    | .last i => [i]
  | none =>
    match body with
    | .ok chunk :: body => decoded read (buf ++ chunk) body
    | .error e :: _ => [.error e]
    | [] => ((takeRemaining buf).map fun line => (read line).flush).getD []
  termination_by (body.length, buf.length)
  decreasing_by
    · exact Prod.Lex.right _ (length_takeLine _h)
    · exact Prod.Lex.right _ (length_takeLine _h)
    · exact Prod.Lex.left _ _ (Nat.lt_succ_self _)

/-! ## The chunks of a chat completion -/

/-- A text without the ends of lines behind it. -/
def trimLineEnd (line : String) : String :=
  String.ofList (line.toList.rdropWhile (· ∈ ['\r', '\n']))

/-- The data of a line, if it has any. -/
def dataOf (line : String) : Option String :=
  ((Strings.stripPrefix (trimLineEnd line) "data:").map Strings.trim).filter (· ≠ "")

inductive SseLine where
  | json (text : String)
  | done
  | skip
  deriving DecidableEq

/-- Interpret a line of an event stream. -/
def parseSseDataLine (line : String) : SseLine :=
  match dataOf line with
  | none => .skip
  | some body => if body = "[DONE]" then .done else .json body

/-- A chunk of a chat completion; its choices and its usage are the rest. -/
structure ChatCompletionChunk (χ : Type) where
  id : String
  object : String
  created : ℤ
  model : String
  rest : χ
  deriving DecidableEq

/-- Decode a chunk. -/
def ChatCompletionChunk.decode {χ : Type} (rest : Map → Option χ) (v : Value) :
    Option (ChatCompletionChunk χ) := do
  let m ← v.asObject
  return {
    id := ← m.required "id" Value.asStr
    object := ← m.required "object" Value.asStr
    created := ← m.required "created" Value.asI64
    model := ← m.required "model" Value.asStr
    rest := ← rest m }

/-! ## The events of a response -/

/-- An event of a response; the fields that belong to one kind of event are the rest. -/
structure ResponsesStreamEvent (ρ μ : Type) where
  kind : String
  sequenceNumber : ℕ
  response : Option ρ
  message : Option String
  rest : μ
  deriving DecidableEq

/-- How the parts of an event are decoded, and the message of an error in a response. -/
structure EventParts (ρ μ : Type) where
  response : Value → Option ρ
  errorMessage : ρ → Option String
  rest : Map → Option μ

namespace ResponsesStreamEvent

variable {ρ μ : Type}

/-- Decode an event. -/
def decode (parts : EventParts ρ μ) (v : Value) : Option (ResponsesStreamEvent ρ μ) := do
  let m ← v.asObject
  return {
    kind := ← m.required "type" Value.asStr
    sequenceNumber := ← m.defaulted "sequence_number" 0 Value.asU64
    response := ← m.optional "response" parts.response
    message := ← m.optional "message" Value.asStr
    rest := ← parts.rest m }

/-- The stream ends behind the event. -/
def isTerminal (e : ResponsesStreamEvent ρ μ) : Bool :=
  e.kind ∈ ["response.completed", "response.incomplete", "response.failed"]

def isError (e : ResponsesStreamEvent ρ μ) : Bool := e.kind = "error"

/-- The event is of a known namespace. -/
def isRecognised (e : ResponsesStreamEvent ρ μ) : Bool :=
  e.kind = "error" || "response.".toList <+: e.kind.toList

/-- The message of an error, or of the error in a failed response. -/
def errorMessage (parts : EventParts ρ μ) (e : ResponsesStreamEvent ρ μ) : String :=
  (e.message.or (e.response.bind parts.errorMessage)).getD ""

end ResponsesStreamEvent

inductive ResponsesFrame (ρ μ : Type) where
  | event (event : ResponsesStreamEvent ρ μ)
  | error (error : Error)
  | decode (error : Error)
  | skip
  deriving DecidableEq

/-! ## The streams -/

section

variable {α χ ρ μ : Type} (parse : String → Option Value)

/-- What a line of a chat completion is read as. -/
def chunkReading (rest : Map → Option χ) (line : String) :
    Reading (Except Error (ChatCompletionChunk χ)) :=
  match parseSseDataLine line with
  | .done => .done
  | .skip => .skip
  | .json text =>
    .item (((parse text).bind (ChatCompletionChunk.decode rest)).elim (.error .json) .ok)

/-- The chunks of a chat completion, up to the sentinel. -/
def sseChunks (rest : Map → Option χ) (body : ByteStream) :
    List (Except Error (ChatCompletionChunk χ)) :=
  decoded (chunkReading parse rest) [] body

/-- Interpret a line of the stream of a response. -/
def parseResponsesFrame (parts : EventParts ρ μ) (line : String) : ResponsesFrame ρ μ :=
  match dataOf line with
  | none => .skip
  | some body =>
    match (parse body).bind (ResponsesStreamEvent.decode parts) with
    | none => .decode .json
    | some event =>
      if ¬ event.isRecognised then .skip
      else if event.isError then .error (.api 502 (event.errorMessage parts))
      else .event event

/-- What a line of a response is read as. -/
def eventReading (parts : EventParts ρ μ) (line : String) :
    Reading (Except Error (ResponsesStreamEvent ρ μ)) :=
  match parseResponsesFrame parse parts line with
  | .skip => .skip
  | .decode error => .item (.error error)
  | .error error => .last (.error error)
  | .event event => if event.isTerminal then .last (.ok event) else .item (.ok event)

/-- The events of a response, up to the terminal one. -/
def sseResponses (parts : EventParts ρ μ) (body : ByteStream) :
    List (Except Error (ResponsesStreamEvent ρ μ)) :=
  decoded (eventReading parse parts) [] body

/-- What a line of documents is read as. -/
def lineReading (decode : Value → Option α) (line : String) : Reading (Except Error α) :=
  let trimmed := Strings.trim line
  if trimmed = "" then .skip
  else .item (((parse trimmed).bind decode).elim (.error .json) .ok)

/-- The documents of a body, one on each line. -/
def ndjsonLines (decode : Value → Option α) (body : ByteStream) : List (Except Error α) :=
  decoded (lineReading parse decode) [] body

end

/-! ## Line by line -/

/-- The bytes of a body up to its first error, and that error. -/
def received : ByteStream → List UInt8 × Option Error
  | [] => ([], none)
  | .ok chunk :: body => (chunk ++ (received body).1, (received body).2)
  | .error e :: _ => ([], some e)

theorem takeLine_eq_some {buf rest : List UInt8} {line : String}
    (h : takeLine buf = some (line, rest)) :
    ∃ bytes, 10 ∉ bytes ∧ buf = bytes ++ 10 :: rest ∧ line = fromUtf8Lossy bytes := by
  unfold takeLine at h
  split at h
  · rename_i hmem
    have hlt := List.idxOf_lt_length_of_mem hmem
    cases h
    refine ⟨buf.take (buf.idxOf 10), fun hin => ?_, ?_, rfl⟩
    · exact absurd (List.mem_take_iff_idxOf_lt hmem |>.mp hin) (lt_irrefl _)
    · have hdrop : buf.drop (buf.idxOf 10) = 10 :: buf.drop (buf.idxOf 10 + 1) := by
        rw [List.drop_eq_getElem_cons hlt, List.getElem_idxOf]
      rw [← hdrop, List.take_append_drop]
  · cases h

theorem not_mem_of_takeLine {buf : List UInt8} (h : takeLine buf = none) : 10 ∉ buf := by
  unfold takeLine at h
  split at h
  · cases h
  · assumption

/-- **The loop reads line by line.** -/
theorem decoded_eq {α : Type} (read : String → Reading (Except Error α)) (buf : List UInt8)
    (body : ByteStream) : decoded read buf body =
      readText (fun line => read (fromUtf8Lossy line)) 10 (buf ++ (received body).1)
        ((received body).2.map .error) := by
  fun_induction decoded read buf body with
  | case1 buf body line rest h hread ih =>
    obtain ⟨bytes, hbytes, rfl, rfl⟩ := takeLine_eq_some h
    rw [ih, List.append_assoc, List.cons_append, readText_line hbytes, hread]
  | case2 buf body line rest h hread =>
    obtain ⟨bytes, hbytes, rfl, rfl⟩ := takeLine_eq_some h
    rw [List.append_assoc, List.cons_append, readText_line hbytes, hread]
  | case3 buf body line rest h i hread ih =>
    obtain ⟨bytes, hbytes, rfl, rfl⟩ := takeLine_eq_some h
    rw [ih, List.append_assoc, List.cons_append, readText_line hbytes, hread]
  | case4 buf body line rest h i hread =>
    obtain ⟨bytes, hbytes, rfl, rfl⟩ := takeLine_eq_some h
    rw [List.append_assoc, List.cons_append, readText_line hbytes, hread]
  | case5 buf h chunk body ih =>
    rw [ih, received, List.append_assoc]
  | case6 buf h e body =>
    rw [received, List.append_nil, readText_rest (not_mem_of_takeLine h)]
    rfl
  | case7 buf h =>
    rw [received, List.append_nil, readText_rest (not_mem_of_takeLine h), takeRemaining]
    by_cases hbuf : buf = [] <;> simp [hbuf]

section

variable {α χ ρ μ : Type} (parse : String → Option Value)

/-- A reader of lines, as a reader of their bytes. -/
abbrev ofBytes (read : String → Reading α) (line : List UInt8) : Reading α :=
  read (fromUtf8Lossy line)

/-- **Each stream is what its bytes are read as, line by line**: how the connection cuts them does
not matter, be it within a line or within a character. -/
theorem streams_by_line (chunkRest : Map → Option χ) (parts : EventParts ρ μ)
    (decode : Value → Option α) (body : ByteStream) :
    sseChunks parse chunkRest body = readText (ofBytes (chunkReading parse chunkRest)) 10
        (received body).1 ((received body).2.map .error) ∧
      sseResponses parse parts body = readText (ofBytes (eventReading parse parts)) 10
        (received body).1 ((received body).2.map .error) ∧
      ndjsonLines parse decode body = readText (ofBytes (lineReading parse decode)) 10
        (received body).1 ((received body).2.map .error) :=
  ⟨decoded_eq _ [] body, decoded_eq _ [] body, decoded_eq _ [] body⟩

end

end Client

end Llmleaf
