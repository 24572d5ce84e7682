import Llmleaf.BatchId

/-!
# Batch ids as a codec

Decoding inverts encoding, and encoding inverts decoding.

- `splitOnce_eq_some`, `rsplitOnce_eq_some`, `splitHead_eq_some`, `splitFields_eq_some`: a split puts
  the parts back together.
- `verify_iff`: exactly the tag of a payload verifies.
- **Result** (`codec`): a batch id stands for its fields and they for it, file ids are no batch ids,
  and with a signer only a tagged id decodes.
-/

namespace Llmleaf.BatchId

open Strings Base64

/-! ## Splitting -/

theorem splitOnce_eq_some {bs a r : List UInt8} :
    splitOnce bs = some (a, r) ↔ bs = a ++ sep :: r ∧ sep ∉ a := by
  refine ⟨fun h => ?_, fun ⟨h, ha⟩ => h ▸ splitOnce_append ha⟩
  unfold splitOnce at h
  split at h
  · cases h
  · rename_i i hi
    cases h
    obtain ⟨hlt, hsep, hbefore⟩ := List.findIdx?_eq_some_iff_getElem.mp hi
    rw [beq_iff_eq] at hsep
    refine ⟨?_, fun hmem => ?_⟩
    · rw [← hsep, List.getElem_cons_drop hlt, List.take_append_drop]
    · obtain ⟨j, hj, hjsep⟩ := List.mem_iff_getElem.mp hmem
      rw [List.length_take] at hj
      rw [List.getElem_take] at hjsep
      exact hbefore j (by omega) (beq_iff_eq.mpr hjsep)

theorem rsplitOnce_eq_some {bs a r : List UInt8} :
    rsplitOnce bs = some (a, r) ↔ bs = a ++ sep :: r ∧ sep ∉ r := by
  refine ⟨fun h => ?_, fun ⟨h, hr⟩ => h ▸ rsplitOnce_append hr⟩
  -- the last separator is the first one from behind
  have hrev : splitOnce bs.reverse = some (r.reverse, a.reverse) := by
    unfold rsplitOnce at h
    split at h
    · cases h
    · rename_i i hi
      cases h
      have hlt := (List.findIdx?_eq_some_iff_getElem.mp hi).1
      rw [List.length_reverse] at hlt
      rw [splitOnce, hi]
      dsimp only
      rw [List.take_reverse, List.drop_reverse, Nat.sub_sub, Nat.add_comm 1 i]
  obtain ⟨heq, hmem⟩ := splitOnce_eq_some.mp hrev
  refine ⟨?_, by rwa [List.mem_reverse] at hmem⟩
  have := congrArg List.reverse heq
  simpa using this

/-- The fields of an unsigned id are those it was made of. -/
theorem splitFields_eq_some {bs : List UInt8} {provider upstream : String} :
    splitFields bs = some (provider, upstream) ↔
      bs = bytes provider ++ sep :: bytes upstream ∧ provider ≠ "" ∧ sepChar ∉ provider.toList := by
  constructor
  · intro h
    unfold splitFields at h
    split at h
    · cases h
    rename_i p u hsplit
    obtain ⟨rfl, hp⟩ := splitOnce_eq_some.mp hsplit
    split at h
    · cases h
    rename_i hne
    split at h
    · rename_i provider' upstream' hprovider hupstream
      cases h
      obtain rfl := bytes_of_fromUtf8 hprovider
      obtain rfl := bytes_of_fromUtf8 hupstream
      refine ⟨rfl, ?_, mem_bytes_sep.not.mp hp⟩
      rintro rfl
      exact hne rfl
    · cases h
  · rintro ⟨rfl, hne, hp⟩
    rw [splitFields, splitOnce_append (mem_bytes_sep.not.mpr hp)]
    dsimp only
    rw [if_neg (bytes_eq_nil.not.mpr hne), fromUtf8_bytes, fromUtf8_bytes]

/-- The fields of a signed head are those it was made of. -/
theorem splitHead_eq_some {head : List UInt8} {d : DecodedBatch} :
    splitHead head = some d ↔
      ∃ owner, d.owner = some owner ∧
        head = join3 (bytes d.provider) (bytes d.upstream) (bytes owner) ∧
        d.provider ≠ "" ∧ sepChar ∉ d.provider.toList ∧ sepChar ∉ owner.toList := by
  constructor
  · intro h
    unfold splitHead at h
    split at h
    · cases h
    rename_i p rest hsplit
    obtain ⟨rfl, hp⟩ := splitOnce_eq_some.mp hsplit
    split at h
    · cases h
    rename_i u o hsplit'
    obtain ⟨rfl, ho⟩ := rsplitOnce_eq_some.mp hsplit'
    split at h
    · cases h
    rename_i hne
    split at h
    · rename_i provider upstream owner hprovider hupstream howner
      cases h
      obtain rfl := bytes_of_fromUtf8 hprovider
      obtain rfl := bytes_of_fromUtf8 hupstream
      obtain rfl := bytes_of_fromUtf8 howner
      refine ⟨owner, rfl, rfl, ?_, mem_bytes_sep.not.mp hp, mem_bytes_sep.not.mp ho⟩
      rintro rfl
      exact hne rfl
    · cases h
  · rintro ⟨owner, howner, rfl, hne, hp, ho⟩
    rw [splitHead_join3 d.upstream hp ho, if_neg hne, ← howner]

/-! ## Tags -/

theorem foldl_xor_eq_zero {l l' : List UInt8} (hlen : l.length = l'.length) (acc : UInt8) :
    (l.zip l').foldl (fun acc e => acc ||| (e.1 ^^^ e.2)) acc = 0 ↔ acc = 0 ∧ l = l' := by
  induction l generalizing l' acc with
  | nil =>
    rw [List.length_eq_zero_iff.mp (hlen.symm.trans rfl)]
    simp
  | cons b l ih =>
    cases l' with
    | nil => cases hlen
    | cons b' l' =>
      rw [List.zip_cons_cons, List.foldl_cons, ih (Nat.succ.inj hlen), UInt8.or_eq_zero_iff,
        UInt8.xor_eq_zero_iff, List.cons.injEq, and_assoc]

/-- **Exactly the tag of a payload verifies.** -/
theorem BatchIdSigner.verify_iff (self : BatchIdSigner) (payload tag : List UInt8) :
    self.verify payload tag = true ↔ tag = self.tag payload := by
  refine ⟨fun h => ?_, fun h => h ▸ self.verify_tag payload⟩
  unfold verify at h
  split at h
  · cases h
  · rename_i hlen
    rw [not_not] at hlen
    have hlen' : (self.tag payload).length = tag.length := (self.tag_length payload).trans hlen.symm
    exact ((foldl_xor_eq_zero hlen' 0).mp (beq_iff_eq.mp h)).2.symm

/-! ## The codec -/

/-- What a text decodes to is what it encodes. -/
theorem decodePayload_eq_some {pfx token : String} {bs : List UInt8} :
    decodePayload pfx token = some bs ↔ token = wrap pfx bs := by
  refine ⟨fun h => ?_, fun h => h ▸ decodePayload_wrap pfx bs⟩
  obtain ⟨b64, hstrip, hdecode⟩ := Option.bind_eq_some_iff.mp h
  rw [stripPrefix_eq_some.mp hstrip, wrap, encode_decode urlSafe_canonical hdecode,
    String.ofList_toList]

/-- An id with a signer: its head, its tag, and the fields of the head. -/
theorem decodeBatch_signed_eq_some {token : String} {signer : BatchIdSigner} {d : DecodedBatch} :
    decodeBatch token (some signer) = some d ↔
      ∃ head, token = wrap batchPrefix (head ++ sep :: signer.tag head) ∧
        splitHead head = some d := by
  constructor
  · intro h
    unfold decodeBatch at h
    split at h
    · cases h
    rename_i bs hbs
    dsimp only at h
    split at h
    · cases h
    rename_i hlayout
    split at h
    · rename_i hverify
      rw [not_or, not_lt, not_not] at hlayout
      obtain ⟨hlen, hsep⟩ := hlayout
      obtain ⟨hlt, hsep⟩ := List.getElem?_eq_some_iff.mp hsep
      rw [BatchIdSigner.verify_iff] at hverify
      refine ⟨_, ?_, h⟩
      rw [decodePayload_eq_some.mp hbs, ← hverify]
      congr 1
      -- the buffer is its head, the separator before the tag, and the tag
      have hhead : (bs.take (bs.length - tagLen)).dropLast =
          bs.take (bs.length - tagLen - 1) := by
        rw [List.dropLast_take (Nat.sub_lt (by omega) (by decide))]
      have htail : bs.drop (bs.length - tagLen - 1) = sep :: bs.drop (bs.length - tagLen) := by
        rw [List.drop_eq_getElem_cons hlt, hsep, show bs.length - tagLen - 1 + 1 =
          bs.length - tagLen by omega]
      rw [hhead, ← htail, List.take_append_drop]
    · cases h
  · rintro ⟨head, rfl, h⟩
    rw [decodeBatch_signed, h]

theorem decodeBatch_unsigned_eq_some {token : String} {d : DecodedBatch} :
    decodeBatch token none = some d ↔ d.owner = none ∧
      ∃ bs, token = wrap batchPrefix bs ∧ splitFields bs = some (d.provider, d.upstream) := by
  constructor
  · intro h
    unfold decodeBatch at h
    split at h
    · cases h
    rename_i bs hbs
    obtain ⟨e, he, rfl⟩ := Option.map_eq_some_iff.mp h
    exact ⟨rfl, bs, decodePayload_eq_some.mp hbs, he⟩
  · rintro ⟨hnone, bs, rfl, h⟩
    rw [decodeBatch, decodePayload_wrap]
    dsimp only
    rw [h, Option.map_some, ← hnone]

/-- Texts behind the two starts are never the same. -/
theorem wrap_ne (bs bs' : List UInt8) : wrap batchPrefix bs ≠ wrap filePrefix bs' := by
  intro h
  have := congrArg String.toList h
  rw [wrap, wrap, String.toList_append, String.toList_append] at this
  cases this

theorem decodePayload_batchPrefix (bs : List UInt8) :
    decodePayload filePrefix (wrap batchPrefix bs) = none :=
  Option.eq_none_iff_forall_ne_some.mpr fun bs' h => wrap_ne bs bs' (decodePayload_eq_some.mp h)

theorem decodePayload_filePrefix (bs : List UInt8) :
    decodePayload batchPrefix (wrap filePrefix bs) = none :=
  Option.eq_none_iff_forall_ne_some.mpr fun bs' h =>
    wrap_ne bs' bs (decodePayload_eq_some.mp h).symm

/-- A batch id is wrapped behind its start. -/
theorem exists_wrap_encodeBatch (provider upstreamId owner : String)
    (signer : Option BatchIdSigner) :
    ∃ bs, encodeBatch provider upstreamId owner signer = wrap batchPrefix bs := by
  cases signer <;> exact ⟨_, rfl⟩

/-- What an encoded id decodes to. -/
def decoded (provider upstreamId owner : String) (signer : Option BatchIdSigner) : DecodedBatch :=
  ⟨provider, upstreamId, signer.map fun _ => owner⟩

/-- **Decoding is inverse to encoding**, for provider names and owners without separators. -/
theorem decodeBatch_eq_some_iff {token : String} {signer : Option BatchIdSigner}
    {d : DecodedBatch} :
    decodeBatch token signer = some d ↔
      ∃ owner, token = encodeBatch d.provider d.upstream owner signer ∧
        d = decoded d.provider d.upstream owner signer ∧ d.provider ≠ "" ∧
        sepChar ∉ d.provider.toList ∧ sepChar ∉ owner.toList := by
  obtain ⟨provider, upstream, owner⟩ := d
  cases signer with
  | some signer =>
    rw [decodeBatch_signed_eq_some]
    simp only [splitHead_eq_some, decoded, Option.map_some]
    constructor
    · rintro ⟨head, rfl, o, rfl, rfl, h⟩
      exact ⟨o, rfl, rfl, h⟩
    · rintro ⟨o, rfl, heq, h⟩
      cases heq
      exact ⟨_, rfl, o, rfl, rfl, h⟩
  | none =>
    rw [decodeBatch_unsigned_eq_some]
    simp only [splitFields_eq_some, decoded, Option.map_none]
    constructor
    · rintro ⟨rfl, bs, rfl, rfl, hne, hp⟩
      exact ⟨"", rfl, rfl, hne, hp, by decide⟩
    · rintro ⟨o, rfl, heq, hne, hp, -⟩
      cases heq
      exact ⟨rfl, _, rfl, rfl, hne, hp⟩

/-- **The codec of batch ids.** An id decodes to the fields it was made of. What decodes is the id
made of the fields it decodes to, none of which moves a boundary. File ids and batch ids are apart.
With a signer, what decodes carries the tag of its head. -/
theorem codec :
    (∀ (provider upstreamId owner : String) (signer : Option BatchIdSigner),
      provider ≠ "" → sepChar ∉ provider.toList → sepChar ∉ owner.toList →
        decodeBatch (encodeBatch provider upstreamId owner signer) signer =
          some (decoded provider upstreamId owner signer)) ∧
    (∀ (token : String) (signer : Option BatchIdSigner) (d : DecodedBatch),
      decodeBatch token signer = some d →
        ∃ owner, token = encodeBatch d.provider d.upstream owner signer ∧
          d = decoded d.provider d.upstream owner signer ∧ d.provider ≠ "" ∧
          sepChar ∉ d.provider.toList ∧ sepChar ∉ owner.toList) ∧
    ((∀ (token : String) (signer : Option BatchIdSigner),
        decodeBatch token signer = none ∨ decodeFile token = none) ∧
      (∀ (provider upstreamId : String) (signer : Option BatchIdSigner),
        decodeBatch (encodeFile provider upstreamId) signer = none) ∧
      ∀ (provider upstreamId owner : String) (signer : Option BatchIdSigner),
        decodeFile (encodeBatch provider upstreamId owner signer) = none) ∧
    ∀ (token : String) (signer : BatchIdSigner) (d : DecodedBatch),
      decodeBatch token (some signer) = some d →
        ∃ head tag, token = wrap batchPrefix (head ++ sep :: tag) ∧
          signer.verify head tag = true ∧ splitHead head = some d := by
  refine ⟨fun provider upstreamId owner signer hne hp ho =>
      decodeBatch_eq_some_iff.mpr ⟨owner, rfl, rfl, hne, hp, ho⟩,
    fun token signer d h => decodeBatch_eq_some_iff.mp h,
    ⟨fun token signer => ?_, fun provider upstreamId signer => ?_,
      fun provider upstreamId owner signer => ?_⟩, fun token signer d h => ?_⟩
  · rw [or_iff_not_imp_left]
    intro h
    obtain ⟨d, hd⟩ := Option.ne_none_iff_exists'.mp h
    obtain ⟨owner, rfl, -⟩ := decodeBatch_eq_some_iff.mp hd
    obtain ⟨bs, hbs⟩ := exists_wrap_encodeBatch d.provider d.upstream owner signer
    rw [hbs, decodeFile, decodePayload_batchPrefix, Option.bind_none]
  · rw [decodeBatch, encodeFile, encodeWith, decodePayload_filePrefix]
  · obtain ⟨bs, hbs⟩ := exists_wrap_encodeBatch provider upstreamId owner signer
    rw [hbs, decodeFile, decodePayload_batchPrefix, Option.bind_none]
  · obtain ⟨head, htoken, hhead⟩ := decodeBatch_signed_eq_some.mp h
    exact ⟨head, signer.tag head, htoken, signer.verify_tag head, hhead⟩

/-- An upstream id with a separator comes back with its signer's tag. -/
theorem codec_separated :
    let signer : BatchIdSigner := ⟨fun payload => (payload.take 32).rightpad 32 0, fun payload => by
      rw [List.length_rightpad, List.length_take]; omega⟩
    decodeBatch (encodeBatch "openai" ("job" ++ sepText ++ "1") "team" (some signer)) (some signer) =
      some ⟨"openai", "job" ++ sepText ++ "1", some "team"⟩ :=
  codec.1 _ _ _ _ (by decide) (by decide) (by decide)

end Llmleaf.BatchId
