import Llmleaf.Compat.Embeddings
import Llmleaf.Keys.Credential

/-!
# The decoder and its buffer

The decoder of tokens, access by access: it reads a text by index, takes a slice of it and writes
bytes into a buffer that its caller owns. A read out of range, an overflowing counter and a shift by
the width stop the program (`Fault`).

- `b64DecodeInto_refines`: on every text and every buffer no access faults, and what is written is
  what the decoder of `Keys` decodes.
- `decoder_inverts_encoder`: what the encoder of the embeddings wrote is read back, padded or not.
-/

namespace Llmleaf.Buffer

open Strings Credential

/-- What stops the program. -/
inductive Fault where
  | index
  | slice
  | overflow
  deriving DecidableEq, Repr

/-! ## The decoder -/

/-- `bytes[i]`. -/
def index (bytes : List UInt8) (i : ℕ) : Except Fault UInt8 :=
  match bytes[i]? with
  | some b => .ok b
  | none => .error .index

/-- `&bytes[..end]`. -/
def sliceTo (bytes : List UInt8) (n : ℕ) : Except Fault (List UInt8) :=
  if n ≤ bytes.length then .ok (bytes.take n) else .error .slice

def add (x y : UInt32) : Except Fault UInt32 :=
  if x.toNat + y.toNat < 2 ^ 32 then .ok (x + y) else .error .overflow

def shiftRight (x k : UInt32) : Except Fault UInt32 :=
  if k < 32 then .ok (x >>> k) else .error .overflow

/-- Where the padding at the end begins, of which at most two characters count. -/
def bodyEnd (bytes : List UInt8) : ℕ → ℕ → Except Fault ℕ
  | 0, _ => .ok 0
  | last + 1, pad => do
    let b ← index bytes last
    if b = 61 ∧ pad < 2 then bodyEnd bytes last (pad + 1) else .ok (last + 1)

/-- Decode the characters bit by bit into the buffer: how many bytes are written, if the input is
valid and fits, and the buffer that is left. -/
def decodeLoop : List UInt8 → UInt32 → UInt32 → ℕ → List UInt8 →
    Except Fault (Option ℕ × List UInt8)
  | [], _, _, written, out => .ok (some written, out)
  | b :: rest, acc, nbits, written, out =>
    match sextet b with
    | none => .ok (none, out)
    | some s => do
      let acc := (acc <<< 6) ||| s
      let nbits ← add nbits 6
      if 8 ≤ nbits then
        let nbits := nbits - 8
        let byte ← shiftRight acc nbits
        -- the buffer is written through `get_mut` only
        if written < out.length then
          decodeLoop rest acc nbits (written + 1) (out.set written byte.toUInt8)
        else .ok (none, out)
      else decodeLoop rest acc nbits written out

/-- **Decode base64**, padded or not, into a buffer. -/
def b64DecodeInto (input : String) (out : List UInt8) : Except Fault (Option ℕ × List UInt8) := do
  let bytes := bytes input
  let last ← bodyEnd bytes bytes.length 0
  let body ← sliceTo bytes last
  if body.length % 4 = 1 then .ok (none, out) else decodeLoop body 0 0 0 out

/-- The key id and the password a token stands for, through a buffer on the stack. -/
def decodeToken (token : String) : Except Fault (Option (String × String)) := do
  let (n, buf) ← b64DecodeInto token (List.replicate maxTokenDecoded 0)
  match n with
  | none => .ok none
  | some n => do
    let decoded ← sliceTo buf n
    .ok (splitCredential decoded)

/-! ## The padding -/

theorem index_eq {bytes : List UInt8} {i : ℕ} {b : UInt8} (h : bytes[i]? = some b) :
    index bytes i = .ok b := by
  rw [index, h]

/-- Nothing is stripped where there is no padding, or where enough of it is gone. -/
theorem strip_stop {pad : ℕ} {l : List UInt8} (h : pad = 0 ∨ l.head? ≠ some 61) :
    stripPadding.go pad l = l := by
  unfold stripPadding.go
  split
  · rcases h with h | h
    · cases h
    · exact absurd rfl h
  · rfl

/-- **The end of the body** is where the padding is stripped. -/
theorem bodyEnd_eq {bytes : List UInt8} {last : ℕ} (h : last ≤ bytes.length) (pad : ℕ) :
    ∃ n ≤ last, bodyEnd bytes last pad = .ok n ∧
      stripPadding.go (2 - pad) (bytes.take last).reverse = (bytes.take n).reverse := by
  induction last generalizing pad with
  | zero => exact ⟨0, le_rfl, rfl, strip_stop (.inr (by simp))⟩
  | succ last ih =>
    have hb : bytes[last]? = some bytes[last] := List.getElem?_eq_getElem h
    have htake : (bytes.take (last + 1)).reverse = bytes[last] :: (bytes.take last).reverse := by
      rw [List.take_add_one, hb, Option.toList_some, List.reverse_append]
      rfl
    have hstep : bodyEnd bytes (last + 1) pad =
        if bytes[last] = 61 ∧ pad < 2 then bodyEnd bytes last (pad + 1) else .ok (last + 1) := by
      rw [bodyEnd, index_eq hb]
      rfl
    rw [hstep]
    by_cases hstrip : bytes[last] = 61 ∧ pad < 2
    · obtain ⟨n, hn, hend, hgo⟩ := ih (by omega) (pad + 1)
      refine ⟨n, by omega, by rw [if_pos hstrip, hend], ?_⟩
      rw [htake, hstrip.1, show 2 - pad = 2 - (pad + 1) + 1 by omega, stripPadding.go, hgo]
    · refine ⟨last + 1, le_rfl, if_neg hstrip, strip_stop ?_⟩
      rw [htake]
      by_cases hpad : pad < 2
      · exact .inr fun hhead => hstrip ⟨Option.some.inj hhead, hpad⟩
      · exact .inl (by omega)

/-! ## The loop -/

/-- How a run of the decoder refines what is decoded, from a buffer that holds `bs` and then `tail`:
the run ends, it keeps the size of the buffer, and where bytes are decoded they begin with `bs` and
are followed by what they leave of `tail`. -/
def Refines (run : Except Fault (Option ℕ × List UInt8)) (decoded : Option (List UInt8))
    (bs tail : List UInt8) : Prop :=
  ∃ left, run = .ok (decoded.map List.length, left) ∧ left.length = (bs ++ tail).length ∧
    ∀ all ∈ decoded, ∃ more, all = bs ++ more ∧ more.length ≤ tail.length ∧
      left = all ++ tail.drop more.length

/-- A run that decodes nothing. -/
theorem Refines.none (bs tail : List UInt8) :
    Refines (.ok (Option.none, bs ++ tail)) Option.none bs tail :=
  ⟨bs ++ tail, rfl, rfl, by simp⟩

/-- One byte more is written. -/
theorem Refines.cons {run : Except Fault (Option ℕ × List UInt8)} {decoded : Option (List UInt8)}
    {bs tail : List UInt8} {byte old : UInt8} (h : Refines run decoded (bs ++ [byte]) tail) :
    Refines run decoded bs (old :: tail) := by
  obtain ⟨left, hrun, hlen, hall⟩ := h
  refine ⟨left, hrun, by simpa using hlen, fun all hmem => ?_⟩
  obtain ⟨more, rfl, hmore, rfl⟩ := hall all hmem
  exact ⟨byte :: more, by simp, by simpa using hmore, by simp⟩

/-- Fewer than eight bits are left between two characters: no counter overflows and no shift is
by the width. -/
theorem counters {nbits : UInt32} (h : nbits < 8) : add nbits 6 = .ok (nbits + 6) ∧
    (¬ 8 ≤ nbits + 6 → nbits + 6 < 8) ∧ (8 ≤ nbits + 6 → nbits + 6 - 8 < 8) := by
  have hn : nbits.toNat < 8 := UInt32.lt_iff_toNat_lt.mp h
  have hsix : UInt32.toNat 6 = 6 := rfl
  have height : UInt32.toNat 8 = 8 := rfl
  have hsum : (nbits + 6).toNat = nbits.toNat + 6 := by
    rw [UInt32.toNat_add, hsix, Nat.mod_eq_of_lt (by omega)]
  refine ⟨if_pos (by omega), fun hle => UInt32.not_le.mp hle, fun hle => ?_⟩
  rw [UInt32.lt_iff_toNat_lt, UInt32.toNat_sub_of_le _ _ hle, hsum, height]
  omega

/-- **The loop** writes what it decodes, behind what is written already. -/
theorem loop_refines {body : List UInt8} (acc : UInt32) {nbits : UInt32} (hbits : nbits < 8)
    (bs tail : List UInt8) :
    Refines (decodeLoop body acc nbits bs.length (bs ++ tail))
      (b64Loop (bs ++ tail).length body acc nbits bs) bs tail := by
  induction body generalizing acc nbits bs tail with
  | nil =>
    refine ⟨bs ++ tail, rfl, rfl, ?_⟩
    rintro _ ⟨⟩
    exact ⟨[], by simp⟩
  | cons b body ih =>
    obtain ⟨hadd, hless, hmore⟩ := counters hbits
    unfold decodeLoop b64Loop
    cases sextet b with
    | none => exact .none bs tail
    | some s =>
      rw [hadd]
      show Refines (if 8 ≤ nbits + 6 then _ else _) (if 8 ≤ nbits + 6 then _ else _) bs tail
      by_cases hbyte : 8 ≤ nbits + 6
      · have hshift : shiftRight ((acc <<< 6) ||| s) (nbits + 6 - 8) =
            .ok (((acc <<< 6) ||| s) >>> (nbits + 6 - 8)) :=
          if_pos (UInt32.lt_trans (hmore hbyte) (by decide))
        rw [if_pos hbyte, if_pos hbyte, hshift]
        show Refines (if bs.length < (bs ++ tail).length then _ else _) _ bs tail
        cases tail with
        | nil =>
          rw [if_neg (by simp), if_neg (by simp)]
          exact .none bs []
        | cons old tail =>
          rw [if_pos (by simp), if_pos (by simp)]
          have hset : ∀ byte, (bs ++ old :: tail).set bs.length byte = bs ++ [byte] ++ tail := by
            intro byte
            simp
          have hlen : ∀ byte, bs.length + 1 = (bs ++ [byte]).length := by simp
          have hsize : ∀ byte, (bs ++ old :: tail).length = (bs ++ [byte] ++ tail).length := by simp
          rw [hset, hlen, hsize]
          exact .cons (ih _ (hmore hbyte) _ _)
      · rw [if_neg hbyte, if_neg hbyte]
        exact ih _ (hless hbyte) _ _

/-! ## The decoder -/

/-- **The decoder never faults**, and it writes what is decoded to the front of its buffer. -/
theorem b64DecodeInto_refines (input : String) (out : List UInt8) :
    Refines (b64DecodeInto input out) (Llmleaf.b64DecodeInto input out.length) [] out := by
  obtain ⟨n, hn, hend, hstrip⟩ := bodyEnd_eq (le_refl (bytes input).length) 0
  rw [List.take_length] at hstrip
  have hbody : stripPadding (bytes input) = (bytes input).take n := by
    rw [stripPadding, show stripPadding.go 2 (bytes input).reverse = _ from hstrip,
      List.reverse_reverse]
  have hslice : sliceTo (bytes input) n = .ok ((bytes input).take n) := if_pos hn
  unfold b64DecodeInto Llmleaf.b64DecodeInto
  rw [hbody]
  show Refines (bodyEnd (bytes input) (bytes input).length 0 >>= _) _ [] out
  rw [hend]
  show Refines (sliceTo (bytes input) n >>= _) _ [] out
  rw [hslice]
  show Refines (if ((bytes input).take n).length % 4 = 1 then _ else _)
    (if ((bytes input).take n).length % 4 = 1 then _ else _) [] out
  by_cases hmod : ((bytes input).take n).length % 4 = 1
  · rw [if_pos hmod, if_pos hmod]
    exact .none [] out
  · rw [if_neg hmod, if_neg hmod]
    exact loop_refines 0 (by decide) [] out

/-- **Through the buffer** a token stands for the credential that `Keys` reads. -/
theorem decodeToken_eq (token : String) : decodeToken token = .ok (Llmleaf.decodeToken token) := by
  obtain ⟨left, hrun, -, hall⟩ :=
    b64DecodeInto_refines token (List.replicate maxTokenDecoded 0)
  rw [List.length_replicate] at hrun hall
  unfold decodeToken Llmleaf.decodeToken
  rw [hrun]
  cases hdecoded : Llmleaf.b64DecodeInto token maxTokenDecoded with
  | none => rfl
  | some bs =>
    obtain ⟨more, hbs, -, hleft⟩ := hall bs hdecoded
    have hslice : sliceTo left bs.length = .ok bs := by
      rw [hleft, sliceTo, if_pos (by simp), List.take_left]
    show (sliceTo left bs.length >>= fun decoded => Except.ok (splitCredential decoded)) = _
    rw [hslice]
    rfl

/-- An encoding that fits is read back. -/
theorem reads_back {text : String} {bs out : List UInt8} (hfit : bs.length ≤ out.length)
    (htext : Llmleaf.b64DecodeInto text out.length =
      if bs.length ≤ out.length then some bs else none) :
    b64DecodeInto text out = .ok (some bs.length, bs ++ out.drop bs.length) := by
  rw [if_pos hfit] at htext
  obtain ⟨left, hrun, -, hall⟩ := b64DecodeInto_refines text out
  obtain ⟨more, hmore, -, hleft⟩ := hall bs htext
  rw [List.nil_append] at hmore
  rw [hrun, htext, hleft, hmore]
  rfl

/-- **The decoder inverts the encoder** of the embeddings, with its padding or without; on every
text it ends with no more bytes than the buffer has, and no access on its way is out of range. -/
theorem decoder_inverts_encoder (bs out : List UInt8) (input : String) :
    (bs.length ≤ out.length →
      b64DecodeInto (Embeddings.base64Encode bs) out =
          .ok (some bs.length, bs ++ out.drop bs.length) ∧
        b64DecodeInto (Embeddings.unpadded (Embeddings.base64Encode bs)) out =
          .ok (some bs.length, bs ++ out.drop bs.length)) ∧
    ∃ result left, b64DecodeInto input out = .ok (result, left) ∧ left.length = out.length ∧
      ∀ n ∈ result, n ≤ out.length := by
  refine ⟨fun hfit => ⟨?_, ?_⟩, ?_⟩
  · rw [Embeddings.base64Encode_eq]
    exact reads_back hfit (b64DecodeInto_padded bs out.length)
  · rw [Embeddings.unpadded_base64Encode]
    exact reads_back hfit (b64DecodeInto_unpadded bs out.length)
  · obtain ⟨left, hrun, hlen, hall⟩ := b64DecodeInto_refines input out
    refine ⟨_, left, hrun, by simpa using hlen, fun n hn => ?_⟩
    obtain ⟨all, hmem, rfl⟩ := Option.mem_map.mp hn
    obtain ⟨more, rfl, hmore, -⟩ := hall all hmem
    simpa using hmore

/-- Two bytes in a buffer of three. -/
theorem decoder_inverts_encoder_fo :
    b64DecodeInto "Zm8=" [1, 2, 3] = .ok (some 2, [102, 111, 3]) ∧
      b64DecodeInto "Zm8" [1, 2, 3] = .ok (some 2, [102, 111, 3]) :=
  (decoder_inverts_encoder [102, 111] [1, 2, 3] "").1 (by decide)

end Llmleaf.Buffer
