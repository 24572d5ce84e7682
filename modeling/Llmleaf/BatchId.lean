import Llmleaf.Lib.Base64
import Llmleaf.Lib.Strings
import Mathlib.Data.List.DropRight

/-!
# Batch ids

The id of a batch carries which provider owns the job, the provider's own id for it and, with a
signer, the key that created it and a tag over these fields: separated by the byte `0x1f`, in URL-safe
base64 behind a fixed start. Decoding checks the tag and splits off the provider from the left and
the owner from the right.

The fields are not escaped, so a separator inside one moves the boundaries: `decode_encode_signed`
says what comes back for any fields, `firstField` of the provider name and `lastField` of the owner.
-/

namespace Llmleaf.BatchId

open Strings Base64

/-- The separator, as a byte and as a character. -/
def sep : UInt8 := 0x1f

@[inherit_doc sep]
def sepChar : Char := Char.ofNat 0x1f

/-- The text of the separator. -/
def sepText : String := String.ofList [sepChar]

def batchPrefix : String := "batch_"

def filePrefix : String := "file_"

/-- The length of a tag. -/
def tagLen : ℕ := 16

/-- The signer of a node, with its secret in the keyed hash. -/
structure BatchIdSigner where
  mac : List UInt8 → List UInt8
  /-- The hash has 32 bytes. -/
  mac_length : ∀ payload, (mac payload).length = 32

namespace BatchIdSigner

/-- The truncated hash. -/
def tag (self : BatchIdSigner) (payload : List UInt8) : List UInt8 := (self.mac payload).take tagLen

/-- Compare a tag without an early exit. -/
def verify (self : BatchIdSigner) (payload tag : List UInt8) : Bool :=
  if tag.length ≠ tagLen then false
  else ((self.tag payload).zip tag).foldl (fun acc e => acc ||| (e.1 ^^^ e.2)) 0 == 0

theorem tag_length (self : BatchIdSigner) (payload : List UInt8) :
    (self.tag payload).length = tagLen := by
  rw [tag, List.length_take, self.mac_length]
  rfl

/-- The tag of a payload verifies. -/
theorem verify_tag (self : BatchIdSigner) (payload : List UInt8) :
    self.verify payload (self.tag payload) = true := by
  have hzip : ∀ l : List UInt8,
      (l.zip l).foldl (fun acc e => acc ||| (e.1 ^^^ e.2)) (0 : UInt8) = 0 := by
    intro l
    induction l with
    | nil => rfl
    | cons b l ih =>
      rw [List.zip_cons_cons, List.foldl_cons, UInt8.xor_self, UInt8.or_zero]
      exact ih
  rw [verify, if_neg (not_not_intro (self.tag_length payload)), hzip]
  rfl

end BatchIdSigner

/-! ## Splitting -/

/-- What is before and after the first separator. -/
def splitOnce (bytes : List UInt8) : Option (List UInt8 × List UInt8) :=
  match bytes.findIdx? (· == sep) with
  | none => none
  | some i => some (bytes.take i, bytes.drop (i + 1))

/-- What is before and after the last separator. -/
def rsplitOnce (bytes : List UInt8) : Option (List UInt8 × List UInt8) :=
  match bytes.reverse.findIdx? (· == sep) with
  | none => none
  | some i => some (bytes.take (bytes.length - 1 - i), bytes.drop (bytes.length - i))

theorem findIdx?_sep {a r : List UInt8} (h : sep ∉ a) :
    (a ++ sep :: r).findIdx? (· == sep) = some a.length := by
  rw [List.findIdx?_append, List.findIdx?_cons]
  have hnone : a.findIdx? (· == sep) = none := by
    rw [List.findIdx?_eq_none_iff]
    exact fun b hb => beq_eq_false_iff_ne.mpr fun he => h (he ▸ hb)
  simp [hnone]

theorem splitOnce_append {a r : List UInt8} (h : sep ∉ a) :
    splitOnce (a ++ sep :: r) = some (a, r) := by
  rw [splitOnce, findIdx?_sep h]
  simp

theorem rsplitOnce_append {a r : List UInt8} (h : sep ∉ r) :
    rsplitOnce (a ++ sep :: r) = some (a, r) := by
  have hrev : (a ++ sep :: r).reverse = r.reverse ++ sep :: a.reverse := by simp
  rw [rsplitOnce, hrev, findIdx?_sep (by rwa [List.mem_reverse])]
  have hlen : (a ++ sep :: r).length = a.length + 1 + r.length := by simp; omega
  simp only [List.length_reverse, hlen]
  rw [show a.length + 1 + r.length - 1 - r.length = a.length by omega,
    show a.length + 1 + r.length - r.length = a.length + 1 by omega, List.take_left' rfl,
    ← List.singleton_append, ← List.append_assoc, List.drop_left' (by simp)]

/-! ## Encoding and decoding -/

/-- A decoded id. The owner is known for signed ids only. -/
structure DecodedBatch where
  provider : String
  upstream : String
  owner : Option String
  deriving DecidableEq

/-- Three fields in one buffer. -/
def join3 (a b c : List UInt8) : List UInt8 := a ++ sep :: (b ++ sep :: c)

/-- A text from an encoded buffer. -/
def wrap (pfx : String) (payload : List UInt8) : String :=
  pfx ++ String.ofList (encode urlSafe payload)

/-- The buffer of an encoded text; `none` is the malformed id. -/
def decodePayload (pfx token : String) : Option (List UInt8) :=
  (stripPrefix token pfx).bind fun b64 => decode urlSafe b64.toList

/-- The unsigned form: provider and upstream id. -/
def encodeWith (pfx provider upstreamId : String) : String :=
  wrap pfx (bytes provider ++ sep :: bytes upstreamId)

/-- Encode a batch id; with a signer it binds the owner. -/
def encodeBatch (provider upstreamId owner : String) (signer : Option BatchIdSigner) : String :=
  match signer with
  | some signer =>
    let head := join3 (bytes provider) (bytes upstreamId) (bytes owner)
    wrap batchPrefix (head ++ sep :: signer.tag head)
  | none => encodeWith batchPrefix provider upstreamId

/-- The two fields of an unsigned id. -/
def splitFields (bytes : List UInt8) : Option (String × String) :=
  match splitOnce bytes with
  | none => none
  | some (provider, upstream) =>
    if provider = [] then none
    else
      match fromUtf8 provider, fromUtf8 upstream with
      | some provider, some upstream => some (provider, upstream)
      | _, _ => none

/-- The three fields of a signed head. -/
def splitHead (head : List UInt8) : Option DecodedBatch :=
  match splitOnce head with
  | none => none
  | some (provider, rest) =>
    match rsplitOnce rest with
    | none => none
    | some (upstream, owner) =>
      if provider = [] then none
      else
        match fromUtf8 provider, fromUtf8 upstream, fromUtf8 owner with
        | some provider, some upstream, some owner => some ⟨provider, upstream, some owner⟩
        | _, _, _ => none

/-- Decode a batch id, with a signer only if its tag verifies; `none` is the malformed id. -/
def decodeBatch (token : String) (signer : Option BatchIdSigner) : Option DecodedBatch :=
  match decodePayload batchPrefix token with
  | none => none
  | some bytes =>
    match signer with
    | some signer =>
      -- the tag may contain separators, so it is split off by its length
      if bytes.length < tagLen + 1 ∨ bytes[bytes.length - tagLen - 1]? ≠ some sep then none
      else
        let head := (bytes.take (bytes.length - tagLen)).dropLast
        let tag := bytes.drop (bytes.length - tagLen)
        if signer.verify head tag then splitHead head else none
    | none => (splitFields bytes).map fun e => ⟨e.1, e.2, none⟩

/-- Encode the id of a file. -/
def encodeFile (provider upstreamId : String) : String := encodeWith filePrefix provider upstreamId

/-- The provider and the upstream id of a file. -/
def decodeFile (token : String) : Option (String × String) :=
  (decodePayload filePrefix token).bind splitFields

theorem decodePayload_wrap (pfx : String) (payload : List UInt8) :
    decodePayload pfx (wrap pfx payload) = some payload := by
  rw [decodePayload, wrap, stripPrefix_append, Option.bind_some, String.toList_ofList,
    decode_encode]

/-- A signed id decodes to the fields of its head. -/
theorem decodeBatch_signed (signer : BatchIdSigner) (head : List UInt8) :
    decodeBatch (wrap batchPrefix (head ++ sep :: signer.tag head)) (some signer) =
      splitHead head := by
  have hsplit : head ++ sep :: signer.tag head = (head ++ [sep]) ++ signer.tag head := by simp
  have hlen : (head ++ sep :: signer.tag head).length = head.length + 1 + tagLen := by
    rw [hsplit, List.length_append, signer.tag_length, List.length_append, List.length_singleton]
  have hdrop : head.length + 1 + tagLen - tagLen = (head ++ [sep]).length := by simp
  rw [decodeBatch, decodePayload_wrap]
  dsimp only
  rw [hlen, hdrop, if_neg]
  · rw [hsplit, List.take_left' rfl, List.drop_left' rfl, List.dropLast_concat,
      signer.verify_tag, if_pos rfl]
  · rintro (h | h)
    · omega
    · refine h ?_
      simp

/-! ## The fields that come back -/

/-- What is before the first separator of a text. -/
def firstField (s : String) : String := String.ofList (s.toList.takeWhile (· ≠ sepChar))

/-- What is after the last separator of a text. -/
def lastField (s : String) : String := String.ofList (s.toList.rtakeWhile (· ≠ sepChar))

theorem mem_bytes_sep {s : String} : sep ∈ bytes s ↔ sepChar ∈ s.toList := by
  rw [mem_bytes (by decide)]
  constructor
  · rintro ⟨c, hc, he⟩
    rwa [show sepChar = c from Char.toNat_inj.mp he.symm]
  · exact fun h => ⟨_, h, by decide⟩

theorem bytes_sepText : bytes sepText = [sep] := by decide

/-- Fields between which the separators are unambiguous come back as they are. -/
theorem splitHead_join3 {p o : String} (u : String) (hp : sepChar ∉ p.toList)
    (ho : sepChar ∉ o.toList) :
    splitHead (join3 (bytes p) (bytes u) (bytes o)) =
      if p = "" then none else some ⟨p, u, some o⟩ := by
  rw [splitHead, join3, splitOnce_append (mem_bytes_sep.not.mpr hp)]
  dsimp only
  rw [rsplitOnce_append (mem_bytes_sep.not.mpr ho)]
  simp only [bytes_eq_nil, fromUtf8_bytes]

theorem sep_not_mem_firstField (s : String) : sepChar ∉ (firstField s).toList := by
  rw [firstField, String.toList_ofList]
  intro h
  simpa using List.mem_takeWhile_imp h

theorem sep_not_mem_lastField (s : String) : sepChar ∉ (lastField s).toList := by
  rw [lastField, String.toList_ofList]
  intro h
  simpa using List.mem_rtakeWhile_imp h

theorem lastField_eq_self {s : String} : lastField s = s ↔ sepChar ∉ s.toList := by
  refine ⟨fun h => h ▸ sep_not_mem_lastField s, fun h => ?_⟩
  rw [lastField, List.rtakeWhile_eq_self_iff.mpr, String.ofList_toList]
  exact fun c hc => decide_eq_true fun he => h (he ▸ hc)

/-- A text is its first field, or its first field, a separator and a rest. -/
theorem firstField_split (s : String) : s = firstField s ∨ ∃ t, s = firstField s ++ (sepText ++ t) := by
  have hlist : ∀ l : List Char, l = l.takeWhile (· ≠ sepChar) ∨
      ∃ t, l = l.takeWhile (· ≠ sepChar) ++ sepChar :: t := by
    intro l
    induction l with
    | nil => exact .inl rfl
    | cons c l ih =>
      by_cases hc : c = sepChar
      · exact .inr ⟨l, by simp [hc]⟩
      · have htake : (c :: l).takeWhile (· ≠ sepChar) = c :: l.takeWhile (· ≠ sepChar) :=
          List.takeWhile_cons_of_pos (decide_eq_true hc)
        rw [htake]
        rcases ih with ih | ⟨t, ih⟩
        · exact .inl (by rw [← ih])
        · exact .inr ⟨t, by rw [List.cons_append, ← ih]⟩
  rcases hlist s.toList with h | ⟨t, h⟩
  · exact .inl (by rw [firstField, ← h, String.ofList_toList])
  · refine .inr ⟨String.ofList t, String.toList_inj.mp ?_⟩
    rw [String.toList_append, String.toList_append, firstField, String.toList_ofList,
      String.toList_ofList, sepText, String.toList_ofList]
    exact h

/-- A text is its last field, or some start, a separator and its last field. -/
theorem lastField_split (s : String) : s = lastField s ∨ ∃ t, s = t ++ (sepText ++ lastField s) := by
  rcases firstField_split (String.ofList s.toList.reverse) with h | ⟨t, h⟩
  · refine .inl (String.toList_inj.mp ?_)
    have h' := congrArg (fun s => s.toList.reverse) h
    simpa [firstField, lastField, List.rtakeWhile, List.rdropWhile] using h'
  · refine .inr ⟨String.ofList t.toList.reverse, String.toList_inj.mp ?_⟩
    have h' := congrArg (fun s => s.toList.reverse) h
    simpa [firstField, lastField, List.rtakeWhile, sepText] using h'

/-- Whatever the fields, the buffer is one of unambiguous fields: the first field of the provider
name, something, and the last field of the owner. -/
theorem join3_fields (p u o : String) : ∃ y : String,
    join3 (bytes p) (bytes u) (bytes o) =
      join3 (bytes (firstField p)) (bytes y) (bytes (lastField o)) := by
  have hleft : ∃ x : String, ∀ r : List UInt8,
      bytes p ++ sep :: (bytes u ++ r) = bytes (firstField p) ++ sep :: (bytes x ++ r) := by
    rcases firstField_split p with h | ⟨t, h⟩
    · exact ⟨u, fun r => by rw [← h]⟩
    · refine ⟨t ++ (sepText ++ u), fun r => ?_⟩
      have hp : bytes p = bytes (firstField p) ++ ([sep] ++ bytes t) := by
        rw [← bytes_sepText, ← bytes_append, ← bytes_append, ← h]
      rw [hp]
      simp [bytes_append, bytes_sepText]
  obtain ⟨x, hx⟩ := hleft
  rcases lastField_split o with h | ⟨t, h⟩
  · exact ⟨x, by rw [join3, hx, ← h, join3]⟩
  · refine ⟨x ++ (sepText ++ t), ?_⟩
    have ho : bytes o = bytes t ++ ([sep] ++ bytes (lastField o)) := by
      rw [← bytes_sepText, ← bytes_append, ← bytes_append, ← h]
    rw [join3, hx, join3, ho]
    simp [bytes_append, bytes_sepText]

/-- **What a signed id decodes to**, for any fields. -/
theorem decode_encode_signed (signer : BatchIdSigner) (provider upstreamId owner : String) :
    ∃ upstream, decodeBatch (encodeBatch provider upstreamId owner (some signer)) (some signer) =
      if firstField provider = "" then none
      else some ⟨firstField provider, upstream, some (lastField owner)⟩ := by
  obtain ⟨y, hy⟩ := join3_fields provider upstreamId owner
  refine ⟨y, ?_⟩
  rw [encodeBatch, decodeBatch_signed, hy,
    splitHead_join3 y (sep_not_mem_firstField _) (sep_not_mem_lastField _)]

end Llmleaf.BatchId
