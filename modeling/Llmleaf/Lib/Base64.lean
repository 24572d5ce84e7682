import Mathlib.Data.Nat.Notation

/-!
# Base64

The strict codec without padding over an alphabet of 64 characters: three bytes become four
characters, a last group of one or two bytes two or three. Decoding refuses a last group whose
unused bits are not zero.

- `decode_encode`: decoding inverts encoding.
- `encode_decode`: where a value has one character, encoding inverts decoding.
- `urlSafe`: the URL-safe alphabet.
-/

namespace Base64

/-- An alphabet: 64 digits and their values. -/
structure Alphabet where
  digit : ℕ → Char
  value : Char → Option ℕ
  value_digit : ∀ i < 64, value (digit i) = some i

/-- The byte of a value below 256. -/
def byte (n : ℕ) : UInt8 := UInt8.ofNat n

variable (A : Alphabet)

/-- Encode bytes. -/
def encode : List UInt8 → List Char
  | a :: b :: c :: rest =>
    A.digit (a.toNat / 4) :: A.digit (a.toNat % 4 * 16 + b.toNat / 16) ::
      A.digit (b.toNat % 16 * 4 + c.toNat / 64) :: A.digit (c.toNat % 64) :: encode rest
  | [a, b] =>
    [A.digit (a.toNat / 4), A.digit (a.toNat % 4 * 16 + b.toNat / 16), A.digit (b.toNat % 16 * 4)]
  | [a] => [A.digit (a.toNat / 4), A.digit (a.toNat % 4 * 16)]
  | [] => []

/-- Decode characters, if they encode something. -/
def decode : List Char → Option (List UInt8)
  | w :: x :: y :: z :: rest =>
    match A.value w, A.value x, A.value y, A.value z, decode rest with
    | some w, some x, some y, some z, some bs =>
      some (byte (w * 4 + x / 16) :: byte (x % 16 * 16 + y / 4) :: byte (y % 4 * 64 + z) :: bs)
    | _, _, _, _, _ => none
  | [w, x, y] =>
    match A.value w, A.value x, A.value y with
    | some w, some x, some y =>
      if y % 4 = 0 then some [byte (w * 4 + x / 16), byte (x % 16 * 16 + y / 4)] else none
    | _, _, _ => none
  | [w, x] =>
    match A.value w, A.value x with
    | some w, some x => if x % 16 = 0 then some [byte (w * 4 + x / 16)] else none
    | _, _ => none
  | [_] => none
  | [] => some []

theorem byte_eq {n : ℕ} {a : UInt8} (h : n = a.toNat) : byte n = a := by
  rw [byte, h, UInt8.ofNat_toNat]

/-- **Decoding inverts encoding.** -/
theorem decode_encode (bs : List UInt8) : decode A (encode A bs) = some bs := by
  induction bs using encode.induct with
  | case1 a b c rest ih =>
    have ha := a.toNat_lt
    have hb := b.toNat_lt
    have hc := c.toNat_lt
    simp only [encode, decode, ih]
    rw [A.value_digit _ (by omega), A.value_digit _ (by omega), A.value_digit _ (by omega),
      A.value_digit _ (by omega)]
    simp only
    rw [byte_eq (a := a) (by omega), byte_eq (a := b) (by omega), byte_eq (a := c) (by omega)]
  | case2 a b =>
    have ha := a.toNat_lt
    have hb := b.toNat_lt
    simp only [encode, decode]
    rw [A.value_digit _ (by omega), A.value_digit _ (by omega), A.value_digit _ (by omega)]
    simp only
    rw [if_pos (by omega), byte_eq (a := a) (by omega), byte_eq (a := b) (by omega)]
  | case3 a =>
    have ha := a.toNat_lt
    simp only [encode, decode]
    rw [A.value_digit _ (by omega), A.value_digit _ (by omega)]
    simp only
    rw [if_pos (by omega), byte_eq (a := a) (by omega)]
  | case4 => rfl

/-- Every value of an alphabet belongs to one character. -/
def Alphabet.Canonical (A : Alphabet) : Prop := ∀ c i, A.value c = some i → i < 64 ∧ A.digit i = c

theorem toNat_byte {n : ℕ} (h : n < 256) : (byte n).toNat = n := by
  rw [byte, UInt8.toNat_ofNat']
  exact Nat.mod_eq_of_lt h

variable {A}

/-- **What decodes is what encodes.** -/
theorem encode_decode (hA : A.Canonical) :
    ∀ {cs : List Char} {bs : List UInt8}, decode A cs = some bs → encode A bs = cs
  | w :: x :: y :: z :: rest, bs, h => by
    rw [decode] at h
    split at h
    · rename_i w' x' y' z' bs' hw hx hy hz hrest
      cases h
      obtain ⟨hw64, hw⟩ := hA _ _ hw
      obtain ⟨hx64, hx⟩ := hA _ _ hx
      obtain ⟨hy64, hy⟩ := hA _ _ hy
      obtain ⟨hz64, hz⟩ := hA _ _ hz
      rw [encode, encode_decode hA hrest, toNat_byte (by omega), toNat_byte (by omega),
        toNat_byte (by omega), show (w' * 4 + x' / 16) / 4 = w' by omega,
        show (w' * 4 + x' / 16) % 4 * 16 + (x' % 16 * 16 + y' / 4) / 16 = x' by omega,
        show (x' % 16 * 16 + y' / 4) % 16 * 4 + (y' % 4 * 64 + z') / 64 = y' by omega,
        show (y' % 4 * 64 + z') % 64 = z' by omega, hw, hx, hy, hz]
    · cases h
  | [w, x, y], bs, h => by
    rw [decode] at h
    split at h
    · rename_i w' x' y' hw hx hy
      split at h
      · rename_i hzero
        cases h
        obtain ⟨hw64, hw⟩ := hA _ _ hw
        obtain ⟨hx64, hx⟩ := hA _ _ hx
        obtain ⟨hy64, hy⟩ := hA _ _ hy
        rw [encode, toNat_byte (by omega), toNat_byte (by omega),
          show (w' * 4 + x' / 16) / 4 = w' by omega,
          show (w' * 4 + x' / 16) % 4 * 16 + (x' % 16 * 16 + y' / 4) / 16 = x' by omega,
          show (x' % 16 * 16 + y' / 4) % 16 * 4 = y' by omega, hw, hx, hy]
      · cases h
    · cases h
  | [w, x], bs, h => by
    rw [decode] at h
    split at h
    · rename_i w' x' hw hx
      split at h
      · rename_i hzero
        cases h
        obtain ⟨hw64, hw⟩ := hA _ _ hw
        obtain ⟨hx64, hx⟩ := hA _ _ hx
        rw [encode, toNat_byte (by omega), show (w' * 4 + x' / 16) / 4 = w' by omega,
          show (w' * 4 + x' / 16) % 4 * 16 = x' by omega, hw, hx]
      · cases h
    · cases h
  | [_], bs, h => by cases h
  | [], bs, h => by
    cases h
    rfl

/-- The digits of the URL-safe alphabet. -/
def urlSafeDigits : List Char :=
  "ABCDEFGHIJKLMNOPQRSTUVWXYZabcdefghijklmnopqrstuvwxyz0123456789-_".toList

/-- The URL-safe alphabet. -/
def urlSafe : Alphabet where
  digit i := urlSafeDigits.getD i 'A'
  value c := urlSafeDigits.findIdx? (· == c)
  value_digit := by decide +kernel

theorem urlSafe_canonical : urlSafe.Canonical := by
  intro c i h
  obtain ⟨hi, hc, -⟩ := List.findIdx?_eq_some_iff_getElem.mp h
  refine ⟨hi, ?_⟩
  show urlSafeDigits.getD i 'A' = c
  rw [List.getD_eq_getElem?_getD, List.getElem?_eq_getElem hi, Option.getD_some]
  exact beq_iff_eq.mp hc

example : String.ofList (encode urlSafe [102, 111, 111, 98]) = "Zm9vYg" := by decide

/-! ## Padding -/

/-- The digits of the standard alphabet. -/
def standardDigits : List Char :=
  "ABCDEFGHIJKLMNOPQRSTUVWXYZabcdefghijklmnopqrstuvwxyz0123456789+/".toList

/-- The standard alphabet. -/
def standard : Alphabet where
  digit i := standardDigits.getD i 'A'
  value c := standardDigits.findIdx? (· == c)
  value_digit := by decide +kernel

/-- Encode bytes, with padding to groups of four characters. -/
def encodePadded (A : Alphabet) (bs : List UInt8) : List Char :=
  encode A bs ++ List.replicate ((4 - (encode A bs).length % 4) % 4) '='

/-- What is encoded are digits. -/
theorem mem_encode {bs : List UInt8} {c : Char} (h : c ∈ encode A bs) :
    ∃ i < 64, c = A.digit i := by
  induction bs using encode.induct with
  | case1 a b d rest ih =>
    have ha := a.toNat_lt
    have hb := b.toNat_lt
    have hd := d.toNat_lt
    simp only [encode, List.mem_cons] at h
    obtain rfl | rfl | rfl | rfl | h := h
    · exact ⟨_, by omega, rfl⟩
    · exact ⟨_, by omega, rfl⟩
    · exact ⟨_, by omega, rfl⟩
    · exact ⟨_, by omega, rfl⟩
    · exact ih h
  | case2 a b =>
    have ha := a.toNat_lt
    have hb := b.toNat_lt
    simp only [encode, List.mem_cons, List.not_mem_nil, or_false] at h
    obtain rfl | rfl | rfl := h <;> exact ⟨_, by omega, rfl⟩
  | case3 a =>
    have ha := a.toNat_lt
    simp only [encode, List.mem_cons, List.not_mem_nil, or_false] at h
    obtain rfl | rfl := h <;> exact ⟨_, by omega, rfl⟩
  | case4 => cases h

/-- No encoding has one character more than groups of four. -/
theorem length_encode_mod (bs : List UInt8) : (encode A bs).length % 4 ≠ 1 := by
  induction bs using encode.induct with
  | case1 a b d rest ih =>
    simp only [encode, List.length_cons]
    omega
  | case2 a b => simp [encode]
  | case3 a => simp [encode]
  | case4 => simp [encode]

example : String.ofList (encodePadded standard [102, 111, 111, 98]) = "Zm9vYg==" := by decide

end Base64
