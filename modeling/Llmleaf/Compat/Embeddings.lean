import Llmleaf.Lib.Base64
import Mathlib.Data.List.DropRight

/-!
# Vectors as texts

The Embeddings surface hands out a vector as the base64 of its little-endian bytes. The encoder
packs three bytes into a word and takes its digits off the top.

- `base64Encode_eq`: the encoder is the padded codec over the standard alphabet.
- `unpadded_base64Encode`: without its padding it is the strict one.
-/

namespace Llmleaf.Embeddings

open Base64

theorem length_standardDigits : standardDigits.length = 64 := by decide +kernel

/-- The lowest six bits of a word are a place in the alphabet. -/
theorem masked_lt (n : UInt32) : (n &&& 63).toNat < standardDigits.length := by
  rw [length_standardDigits, UInt32.toNat_and]
  exact Nat.and_lt_two_pow _ (by decide : UInt32.toNat 63 < 2 ^ 6)

/-- The digit of the lowest six bits of a word. -/
def letter (n : UInt32) : Char := standardDigits.get ⟨(n &&& 63).toNat, masked_lt n⟩

/-- Chunks of three bytes; the last may be shorter. -/
def chunks : List UInt8 → List (List UInt8)
  | a :: b :: c :: rest => [a, b, c] :: chunks rest
  | [a, b] => [[a, b]]
  | [a] => [[a]]
  | [] => []

/-- Three bytes in one word; missing ones are zero. -/
def packed (chunk : List UInt8) : UInt32 :=
  let b0 := (chunk.getD 0 0).toUInt32
  let b1 := (chunk.getD 1 0).toUInt32
  let b2 := (chunk.getD 2 0).toUInt32
  (b0 <<< 16) ||| (b1 <<< 8) ||| b2

/-- The four characters of a chunk. -/
def encodeChunk (chunk : List UInt8) : List Char :=
  let n := packed chunk
  [letter (n >>> 18), letter (n >>> 12), if 1 < chunk.length then letter (n >>> 6) else '=',
    if 2 < chunk.length then letter n else '=']

/-- **Encode bytes** as base64 with padding. -/
def base64Encode (bytes : List UInt8) : String := String.ofList ((chunks bytes).flatMap encodeChunk)

/-- The little-endian bytes of a number of single precision, by its bits. -/
def toLeBytes (f : UInt32) : List UInt8 :=
  [f.toUInt8, (f >>> 8).toUInt8, (f >>> 16).toUInt8, (f >>> 24).toUInt8]

/-- Encode a vector of numbers of single precision. -/
def encodeF32Base64 (vector : List UInt32) : String := base64Encode (vector.flatMap toLeBytes)

/-- A text without the padding at its end. -/
def unpadded (s : String) : String := String.ofList (s.toList.rdropWhile (· == '='))

/-! ## One chunk -/

theorem toNat_packed (chunk : List UInt8) : (packed chunk).toNat =
    (chunk.getD 0 0).toNat * 65536 + (chunk.getD 1 0).toNat * 256 + (chunk.getD 2 0).toNat := by
  have h0 := (chunk.getD 0 0).toNat_lt
  have h1 := (chunk.getD 1 0).toNat_lt
  have h2 := (chunk.getD 2 0).toNat_lt
  unfold packed
  generalize chunk.getD 0 0 = a at *
  generalize chunk.getD 1 0 = b at *
  generalize chunk.getD 2 0 = c at *
  have hhigh : (a.toUInt32 <<< 16).toNat = a.toNat <<< 16 := by
    rw [UInt32.toNat_shiftLeft, UInt8.toNat_toUInt32, show UInt32.toNat 16 % 32 = 16 from rfl,
      Nat.shiftLeft_eq]
    omega
  have hmiddle : (b.toUInt32 <<< 8).toNat = b.toNat <<< 8 := by
    rw [UInt32.toNat_shiftLeft, UInt8.toNat_toUInt32, show UInt32.toNat 8 % 32 = 8 from rfl,
      Nat.shiftLeft_eq]
    omega
  have hlow : b.toNat <<< 8 < 2 ^ 16 := by
    rw [Nat.shiftLeft_eq]
    omega
  rw [UInt32.toNat_or, UInt32.toNat_or, hhigh, hmiddle, UInt8.toNat_toUInt32,
    ← Nat.shiftLeft_add_eq_or_of_lt hlow]
  have hsum : a.toNat <<< 16 + b.toNat <<< 8 = (a.toNat * 256 + b.toNat) <<< 8 := by
    simp only [Nat.shiftLeft_eq]
    omega
  rw [hsum, ← Nat.shiftLeft_add_eq_or_of_lt (by omega), Nat.shiftLeft_eq]
  omega

/-- A digit by the value of its word. -/
theorem letter_eq (n : UInt32) : letter n = standard.digit (n.toNat % 64) := by
  have hmask : (n &&& 63).toNat = n.toNat % 64 := by
    rw [UInt32.toNat_and, show UInt32.toNat 63 = 2 ^ 6 - 1 from rfl, Nat.and_two_pow_sub_one_eq_mod]
  show standardDigits.get ⟨(n &&& 63).toNat, masked_lt n⟩ = standardDigits.getD (n.toNat % 64) 'A'
  rw [List.getD_eq_getElem?_getD, List.getElem?_eq_getElem (hmask ▸ masked_lt n),
    Option.getD_some, List.get_eq_getElem]
  simp only [hmask]

theorem letter_shifted (n k : UInt32) (hk : k.toNat < 32) :
    letter (n >>> k) = standard.digit ((n.toNat >>> k.toNat) % 64) := by
  rw [letter_eq, UInt32.toNat_shiftRight, Nat.mod_eq_of_lt hk]

/-- **A chunk** is encoded as the codec encodes it, and padded. -/
theorem encodeChunk_eq (chunk : List UInt8) : encodeChunk chunk =
    [standard.digit ((packed chunk).toNat / 262144 % 64),
      standard.digit ((packed chunk).toNat / 4096 % 64),
      if 1 < chunk.length then standard.digit ((packed chunk).toNat / 64 % 64) else '=',
      if 2 < chunk.length then standard.digit ((packed chunk).toNat % 64) else '='] := by
  unfold encodeChunk
  dsimp only
  rw [letter_shifted _ 18 (by decide), letter_shifted _ 12 (by decide),
    letter_shifted _ 6 (by decide), letter_eq]
  simp only [Nat.shiftRight_eq_div_pow]
  rfl

/-- The digits of three bytes in one word. -/
theorem digits_packed {a b c : ℕ} (ha : a < 256) (hb : b < 256) (hc : c < 256) :
    (a * 65536 + b * 256 + c) / 262144 % 64 = a / 4 ∧
      (a * 65536 + b * 256 + c) / 4096 % 64 = a % 4 * 16 + b / 16 ∧
      (a * 65536 + b * 256 + c) / 64 % 64 = b % 16 * 4 + c / 64 ∧
      (a * 65536 + b * 256 + c) % 64 = c % 64 := by
  refine ⟨?_, ?_, ?_, ?_⟩ <;> omega

/-! ## All chunks -/

/-- **The encoder** is the padded codec. -/
theorem base64Encode_eq (bytes : List UInt8) :
    base64Encode bytes = String.ofList (encodePadded standard bytes) := by
  unfold base64Encode
  congr 1
  induction bytes using chunks.induct with
  | case1 a b c rest ih =>
    obtain ⟨h0, h1, h2, h3⟩ := digits_packed a.toNat_lt b.toNat_lt c.toNat_lt
    -- four more digits leave the padding as it is
    have hmod : (4 - ((encode standard rest).length + 1 + 1 + 1 + 1) % 4) % 4 =
        (4 - (encode standard rest).length % 4) % 4 := by omega
    rw [chunks, List.flatMap_cons, ih, encodeChunk_eq, toNat_packed]
    simp only [encodePadded, encode, List.getD_cons_zero, List.getD_cons_succ, List.length_cons,
      List.length_nil, List.cons_append, List.nil_append, hmod, h0, h1, h2, h3]
    rfl
  | case2 a b =>
    obtain ⟨h0, h1, h2, -⟩ := digits_packed a.toNat_lt b.toNat_lt (by decide : 0 < 256)
    rw [chunks, List.flatMap_singleton, encodeChunk_eq, toNat_packed]
    simp only [encodePadded, encode, List.getD_cons_zero, List.getD_cons_succ, List.getD_nil,
      UInt8.toNat_zero, h0, h1, h2]
    rfl
  | case3 a =>
    obtain ⟨h0, h1, -, -⟩ := digits_packed a.toNat_lt (by decide : 0 < 256) (by decide : 0 < 256)
    rw [chunks, List.flatMap_singleton, encodeChunk_eq, toNat_packed]
    simp only [encodePadded, encode, List.getD_cons_zero, List.getD_cons_succ, List.getD_nil,
      UInt8.toNat_zero, h0, h1]
    rfl
  | case4 => rfl

/-- No digit is padding. -/
theorem digit_ne_padding {i : ℕ} (hi : i < 64) : standard.digit i ≠ '=' := by
  revert i
  decide +kernel

/-- Without its padding an encoding is that of the strict codec. -/
theorem unpadded_base64Encode (bytes : List UInt8) :
    unpadded (base64Encode bytes) = String.ofList (encode standard bytes) := by
  rw [base64Encode_eq, unpadded, String.toList_ofList, encodePadded]
  congr 1
  have hdigits : ∀ c ∈ encode standard bytes, ¬ (c == '=') = true := by
    intro c hc
    obtain ⟨i, hi, rfl⟩ := mem_encode hc
    simpa using digit_ne_padding hi
  induction (4 - (encode standard bytes).length % 4) % 4 with
  | zero =>
    rw [List.replicate_zero, List.append_nil, List.rdropWhile_eq_self_iff]
    exact fun hne => hdigits _ (List.getLast_mem hne)
  | succ n ih =>
    rw [List.replicate_succ', ← List.append_assoc, List.rdropWhile_concat_pos _ _ _ rfl, ih]

end Llmleaf.Embeddings
