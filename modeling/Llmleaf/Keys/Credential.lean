import Llmleaf.Keys
import Llmleaf.Lib.Base64

/-!
# Tokens of a credential

A token is the base64 of `id:password`, and the node decodes it bit by bit into a buffer of fixed
size. `decodeToken_bearer`: a token is decoded exactly if the credential fits the buffer, and then
into what stands before and after its first colon.
-/

namespace Llmleaf

open Strings

/-- The token of a credential. -/
def bearer (id password : String) : String :=
  String.ofList (Base64.encodePadded Base64.standard (bytes (id ++ ":" ++ password)))

namespace Credential

/-! ## The loop -/

/-- The byte of a digit. -/
def digitByte (c : Char) : UInt8 := c.toNat.toUInt8

theorem sextet_digit {i : ℕ} (hi : i < 64) :
    sextet (digitByte (Base64.standard.digit i)) = some (UInt32.ofNat i) := by
  revert i
  decide +kernel

/-- A digit shifted in from the right. -/
def push (acc : UInt32) (i : ℕ) : UInt32 := (acc <<< 6) ||| UInt32.ofNat i

theorem toNat_push (acc : UInt32) {i : ℕ} (hi : i < 64) :
    (push acc i).toNat = (acc.toNat * 64 + i) % 2 ^ 32 := by
  have hdigit : (UInt32.ofNat i).toNat = i := UInt32.toNat_ofNat_of_lt (lt_trans hi (by decide))
  have hshift : acc.toNat <<< (UInt32.toNat 6 % 32) % 2 ^ 32 = (acc.toNat % 2 ^ 26) <<< 6 := by
    rw [show UInt32.toNat 6 % 32 = 6 from rfl, Nat.shiftLeft_eq, Nat.shiftLeft_eq]
    omega
  rw [push, UInt32.toNat_or, UInt32.toNat_shiftLeft, hdigit, hshift,
    ← Nat.shiftLeft_add_eq_or_of_lt (by omega), Nat.shiftLeft_eq]
  omega

/-- A byte that is emitted, by its value. -/
theorem emitted_eq {acc k : UInt32} {a : UInt8} (hk : k.toNat < 32)
    (h : acc.toNat / 2 ^ k.toNat % 256 = a.toNat) : (acc >>> k).toUInt8 = a := by
  refine UInt8.toNat_inj.mp ?_
  rw [UInt32.toNat_toUInt8, UInt32.toNat_shiftRight, Nat.mod_eq_of_lt hk,
    Nat.shiftRight_eq_div_pow]
  exact h

section

variable {capacity : ℕ} {i : ℕ} (hi : i < 64) (rest : List UInt8) {acc nbits : UInt32}
  (out : List UInt8)

include hi

/-- The loop takes in a digit that completes no byte. -/
theorem loop_push (hbits : ¬ 8 ≤ nbits + 6) :
    b64Loop capacity (digitByte (Base64.standard.digit i) :: rest) acc nbits out =
      b64Loop capacity rest (push acc i) (nbits + 6) out := by
  rw [b64Loop, sextet_digit hi]
  exact if_neg hbits

/-- The loop takes in a digit that completes a byte. -/
theorem loop_emit {a : UInt8} (hbits : 8 ≤ nbits + 6) (hk : (nbits + 6 - 8).toNat < 32)
    (ha : (push acc i).toNat / 2 ^ (nbits + 6 - 8).toNat % 256 = a.toNat) :
    b64Loop capacity (digitByte (Base64.standard.digit i) :: rest) acc nbits out =
      if out.length < capacity then
        b64Loop capacity rest (push acc i) (nbits + 6 - 8) (out ++ [a])
      else none := by
  rw [b64Loop, sextet_digit hi]
  have hemit := emitted_eq hk ha
  rw [push] at hemit
  simp only [if_pos hbits, hemit]
  rfl

end

section

variable (capacity : ℕ) (rest : List UInt8) (acc : UInt32) (out : List UInt8)

/-- Two digits complete a first byte; four bits of the second are left. -/
theorem loop_first (a : UInt8) {x : ℕ} (hx : x < 16) : ∃ acc' : UInt32, acc'.toNat % 16 = x ∧
    b64Loop capacity (digitByte (Base64.standard.digit (a.toNat / 4)) ::
        digitByte (Base64.standard.digit (a.toNat % 4 * 16 + x)) :: rest) acc 0 out =
      if out.length < capacity then b64Loop capacity rest acc' 4 (out ++ [a]) else none := by
  have ha := a.toNat_lt
  refine ⟨push (push acc (a.toNat / 4)) (a.toNat % 4 * 16 + x), ?_, ?_⟩
  · rw [toNat_push _ (by omega)]
    omega
  · rw [loop_push (by omega) _ _ (by decide),
      loop_emit (a := a) (by omega) _ _ (by decide) (by decide)]
    · rfl
    · rw [toNat_push _ (by omega), toNat_push _ (by omega),
        show (0 + 6 + 6 - 8 : UInt32).toNat = 4 from rfl]
      omega

/-- A third digit completes a second byte; two bits of the third are left. -/
theorem loop_second (b : UInt8) {y : ℕ} (hy : y < 4) (hacc : acc.toNat % 16 = b.toNat / 16) :
    ∃ acc' : UInt32, acc'.toNat % 4 = y ∧
      b64Loop capacity (digitByte (Base64.standard.digit (b.toNat % 16 * 4 + y)) :: rest) acc 4
          out =
        if out.length < capacity then b64Loop capacity rest acc' 2 (out ++ [b]) else none := by
  have hb := b.toNat_lt
  refine ⟨push acc (b.toNat % 16 * 4 + y), ?_, ?_⟩
  · rw [toNat_push _ (by omega)]
    omega
  · rw [loop_emit (a := b) (by omega) _ _ (by decide) (by decide)]
    · rfl
    · rw [toNat_push _ (by omega), show (4 + 6 - 8 : UInt32).toNat = 2 from rfl]
      omega

/-- A fourth digit completes a third byte. -/
theorem loop_third (c : UInt8) (hacc : acc.toNat % 4 = c.toNat / 64) :
    ∃ acc' : UInt32,
      b64Loop capacity (digitByte (Base64.standard.digit (c.toNat % 64)) :: rest) acc 2 out =
        if out.length < capacity then b64Loop capacity rest acc' 0 (out ++ [c]) else none := by
  have hc := c.toNat_lt
  refine ⟨push acc (c.toNat % 64), ?_⟩
  rw [loop_emit (a := c) (by omega) _ _ (by decide) (by decide)]
  · rfl
  · rw [toNat_push _ (by omega), show (2 + 6 - 8 : UInt32).toNat = 0 from rfl]
    omega

end

/-- **The loop reads an encoding** into the buffer, if it fits. -/
theorem loop_encode (capacity : ℕ) (bs : List UInt8) (acc : UInt32) {out : List UInt8}
    (hout : out.length ≤ capacity) :
    b64Loop capacity ((Base64.encode Base64.standard bs).map digitByte) acc 0 out =
      if out.length + bs.length ≤ capacity then some (out ++ bs) else none := by
  induction bs using Base64.encode.induct generalizing acc out with
  | case1 a b c rest ih =>
    have hb := b.toNat_lt
    have hc := c.toNat_lt
    obtain ⟨acc₁, hacc₁, hfirst⟩ := loop_first capacity
      (digitByte (Base64.standard.digit (b.toNat % 16 * 4 + c.toNat / 64)) ::
        digitByte (Base64.standard.digit (c.toNat % 64)) ::
          (Base64.encode Base64.standard rest).map digitByte) acc out a
      (x := b.toNat / 16) (by omega)
    obtain ⟨acc₂, hacc₂, hsecond⟩ := loop_second capacity
      (digitByte (Base64.standard.digit (c.toNat % 64)) ::
        (Base64.encode Base64.standard rest).map digitByte) acc₁ (out ++ [a]) b
      (y := c.toNat / 64) (by omega) hacc₁
    obtain ⟨acc₃, hthird⟩ := loop_third capacity
      ((Base64.encode Base64.standard rest).map digitByte) acc₂ (out ++ [a] ++ [b]) c hacc₂
    simp only [Base64.encode, List.map_cons]
    rw [hfirst, hsecond, hthird]
    simp only [List.length_append, List.length_cons, List.length_nil]
    by_cases hfit : out.length + 3 ≤ capacity
    · rw [if_pos (by omega), if_pos (by omega), if_pos (by omega), ih acc₃ (by simpa using hfit)]
      simp only [List.length_append, List.length_cons, List.length_nil, List.append_assoc,
        List.cons_append, List.nil_append]
      congr 1
      exact propext (by omega)
    · rw [if_neg (c := out.length + (rest.length + 1 + 1 + 1) ≤ capacity) (by omega)]
      split
      · split
        · exact if_neg (by omega)
        · rfl
      · rfl
  | case2 a b =>
    have hb := b.toNat_lt
    obtain ⟨acc₁, hacc₁, hfirst⟩ := loop_first capacity
      [digitByte (Base64.standard.digit (b.toNat % 16 * 4))] acc out a
      (x := b.toNat / 16) (by omega)
    obtain ⟨acc₂, -, hsecond⟩ := loop_second capacity [] acc₁ (out ++ [a]) b
      (y := 0) (by omega) hacc₁
    simp only [Base64.encode, List.map_cons, List.map_nil]
    rw [Nat.add_zero] at hsecond
    rw [hfirst, hsecond]
    simp only [List.length_append, List.length_cons, List.length_nil, b64Loop]
    by_cases hfit : out.length + 2 ≤ capacity
    · rw [if_pos (by omega), if_pos (by omega), if_pos (by omega), List.append_assoc]
      rfl
    · rw [if_neg (c := out.length + (0 + 1 + 1) ≤ capacity) (by omega)]
      split
      · exact if_neg (by omega)
      · rfl
  | case3 a =>
    obtain ⟨acc₁, -, hfirst⟩ := loop_first capacity [] acc out a (x := 0) (by omega)
    simp only [Base64.encode, List.map_cons, List.map_nil]
    rw [Nat.add_zero] at hfirst
    rw [hfirst]
    simp only [List.length_cons, List.length_nil, b64Loop]
    rfl
  | case4 =>
    rw [List.length_nil, if_pos (by omega)]
    simp [Base64.encode, b64Loop]

/-! ## The token as a text -/

/-- Up to as many padding characters as there are left to strip are stripped. -/
theorem strip_go (pad n : ℕ) (h : n ≤ pad) {l : List UInt8} (hl : l.head? ≠ some 61) :
    stripPadding.go pad (List.replicate n 61 ++ l) = l := by
  induction n generalizing pad with
  | zero =>
    rw [List.replicate_zero, List.nil_append]
    unfold stripPadding.go
    split
    · exact absurd rfl hl
    · rfl
  | succ n ih =>
    obtain ⟨pad, rfl⟩ : ∃ k, pad = k + 1 := ⟨pad - 1, by omega⟩
    rw [List.replicate_succ, List.cons_append, stripPadding.go]
    exact ih pad (by omega)

theorem strip_padded (n : ℕ) (hn : n ≤ 2) {l : List UInt8} (hl : ∀ b ∈ l, b ≠ 61) :
    stripPadding (l ++ List.replicate n 61) = l := by
  have hhead : l.reverse.head? ≠ some 61 := fun h =>
    hl 61 (List.mem_reverse.mp (List.mem_of_head? h)) rfl
  rw [stripPadding, List.reverse_append, List.reverse_replicate, strip_go 2 n hn hhead,
    List.reverse_reverse]

/-- The digits are characters of one byte, and no padding. -/
theorem digit_ascii {i : ℕ} (hi : i < 64) : (Base64.standard.digit i).toNat < 128 ∧
    digitByte (Base64.standard.digit i) ≠ 61 := by
  revert i
  decide +kernel

/-- The bytes of an encoding with some padding. -/
theorem bytes_digits (bs : List UInt8) (n : ℕ) :
    bytes (String.ofList (Base64.encode Base64.standard bs ++ List.replicate n '=')) =
      (Base64.encode Base64.standard bs).map digitByte ++ List.replicate n 61 := by
  have hascii : ∀ cs : List Char, (∀ c ∈ cs, c.toNat < 128) →
      cs.flatMap String.utf8EncodeChar = cs.map digitByte := by
    intro cs hcs
    induction cs with
    | nil => rfl
    | cons c cs ih =>
      have hc := hcs c List.mem_cons_self
      have hchar : c.val.toNat = c.toNat := rfl
      rw [List.flatMap_cons, ih fun c' hc' => hcs c' (List.mem_cons_of_mem _ hc'),
        String.utf8EncodeChar, hchar, if_pos (by omega)]
      rfl
  rw [bytes_eq_flatMap, String.toList_ofList, hascii, List.map_append, List.map_replicate]
  · rfl
  · intro c hc
    obtain hc | hc := List.mem_append.mp hc
    · obtain ⟨i, hi, rfl⟩ := Base64.mem_encode hc
      exact (digit_ascii hi).1
    · rw [List.eq_of_mem_replicate hc]
      decide

/-- **Decoding an encoding** with as much padding as is stripped: the bytes, if they fit the
buffer. -/
theorem b64DecodeInto_digits (bs : List UInt8) {n : ℕ} (hn : n ≤ 2) (capacity : ℕ) :
    b64DecodeInto (String.ofList (Base64.encode Base64.standard bs ++ List.replicate n '='))
      capacity = if bs.length ≤ capacity then some bs else none := by
  have hstrip : stripPadding (bytes (String.ofList
      (Base64.encode Base64.standard bs ++ List.replicate n '='))) =
      (Base64.encode Base64.standard bs).map digitByte := by
    rw [bytes_digits]
    refine strip_padded n hn fun b hb => ?_
    obtain ⟨c, hc, rfl⟩ := List.mem_map.mp hb
    obtain ⟨i, hi, rfl⟩ := Base64.mem_encode hc
    exact (digit_ascii hi).2
  have hloop := loop_encode capacity bs 0 (List.length_nil.trans_le (Nat.zero_le capacity))
  rw [List.length_nil, Nat.zero_add, List.nil_append] at hloop
  rw [b64DecodeInto, hstrip, List.length_map, if_neg (Base64.length_encode_mod bs), hloop]

/-- **Decoding a token**: the bytes, if they fit the buffer. -/
theorem b64DecodeInto_padded (bs : List UInt8) (capacity : ℕ) :
    b64DecodeInto (String.ofList (Base64.encodePadded Base64.standard bs)) capacity =
      if bs.length ≤ capacity then some bs else none := by
  have hlen : (Base64.encode Base64.standard bs).length % 4 ≠ 1 := Base64.length_encode_mod bs
  exact b64DecodeInto_digits bs (by omega) capacity

/-- Decoding a token whose padding was left out. -/
theorem b64DecodeInto_unpadded (bs : List UInt8) (capacity : ℕ) :
    b64DecodeInto (String.ofList (Base64.encode Base64.standard bs)) capacity =
      if bs.length ≤ capacity then some bs else none := by
  have h := b64DecodeInto_digits bs (Nat.zero_le 2) capacity
  rwa [List.replicate_zero, List.append_nil] at h

/-! ## The first colon -/

/-- A credential is split where its first colon stands. -/
theorem splitCredential_colon {id : String} (hid : ':' ∉ id.toList) (password : String) :
    splitCredential (bytes (id ++ ":" ++ password)) = some (id, password) := by
  have hno : (58 : UInt8) ∉ bytes id := by
    rw [mem_bytes (by decide)]
    rintro ⟨c, hc, hcolon⟩
    have heq : c = ':' := Char.toNat_inj.mp hcolon
    exact hid (heq ▸ hc)
  have hbytes : bytes (id ++ ":" ++ password) = bytes id ++ 58 :: bytes password := by
    rw [bytes_append, bytes_append, List.append_assoc]
    rfl
  have hfind : (bytes id ++ 58 :: bytes password).findIdx? (· == 58) = some (bytes id).length := by
    rw [List.findIdx?_append, List.findIdx?_eq_none_iff.mpr fun b hb => by
      simpa using fun h : b = 58 => hno (h ▸ hb)]
    simp [List.findIdx?_cons]
  rw [splitCredential, hbytes, hfind]
  dsimp only
  rw [List.take_left, show (bytes id).length + 1 = (bytes id ++ [58]).length by simp,
    show bytes id ++ 58 :: bytes password = (bytes id ++ [58]) ++ bytes password by simp,
    List.drop_left, fromUtf8_bytes, fromUtf8_bytes]

/-- A text with a colon, by its first one. -/
theorem exists_first_colon {s : String} (h : ':' ∈ s.toList) :
    ∃ before after : String, ':' ∉ before.toList ∧ s = before ++ ":" ++ after := by
  obtain ⟨a, b, hs, ha⟩ := List.eq_append_cons_of_mem h
  refine ⟨String.ofList a, String.ofList b, by rwa [String.toList_ofList], ?_⟩
  rw [← String.toList_inj, String.toList_append, String.toList_append, String.toList_ofList,
    String.toList_ofList, String.toList_ofList, hs, List.append_assoc]
  rfl

end Credential

open Credential

/-- The credential fits the buffer of the node. -/
def FitsToken (id password : String) : Prop :=
  (bytes id).length + 1 + (bytes password).length ≤ maxTokenDecoded

instance (id password : String) : Decidable (FitsToken id password) :=
  inferInstanceAs (Decidable (_ ≤ _))

/-- **What a token is decoded to**, if its id has no colon. -/
theorem decodeToken_bearer {id : String} (hid : ':' ∉ id.toList) (password : String) :
    decodeToken (bearer id password) =
      if FitsToken id password then some (id, password) else none := by
  have hlen : (bytes (id ++ ":" ++ password)).length =
      (bytes id).length + 1 + (bytes password).length := by
    rw [bytes_append, bytes_append, List.length_append, List.length_append]
    rfl
  rw [decodeToken, bearer, b64DecodeInto_padded, hlen]
  by_cases hfits : (bytes id).length + 1 + (bytes password).length ≤ maxTokenDecoded
  · rw [if_pos hfits, if_pos (show FitsToken id password from hfits)]
    exact splitCredential_colon hid password
  · rw [if_neg hfits, if_neg (show ¬ FitsToken id password from hfits)]
    rfl

/-- A token whose id has a colon is decoded to a shorter id. -/
theorem decodeToken_bearer_colon {id : String} (hid : ':' ∈ id.toList) (password : String)
    {id' password' : String} (h : decodeToken (bearer id password) = some (id', password')) :
    id' ≠ id := by
  obtain ⟨before, after, hbefore, rfl⟩ := exists_first_colon hid
  have hsame : bearer (before ++ ":" ++ after) password =
      bearer before (after ++ ":" ++ password) := by
    rw [bearer, bearer]
    simp only [String.append_assoc]
  rw [hsame, decodeToken_bearer hbefore] at h
  split at h
  · cases h
    intro heq
    rw [heq] at hbefore
    exact hbefore hid
  · cases h

end Llmleaf
