import Mathlib.Data.List.DropRight
import Mathlib.Data.List.Infix

/-!
# Strings by their characters

The string operations of the program, on the list of characters: a well-formed text has a prefix
as bytes exactly when it has it as characters. `stripPrefix_eq_some` turns a successful operation
into an equation between texts.
-/

namespace Strings

/-- The text after `p`, where `s` starts with `p`. -/
def stripPrefix (s p : String) : Option String :=
  if p.toList <+: s.toList then some (String.ofList (s.toList.drop p.toList.length)) else none

/-- White space, as Unicode has it. -/
def isWhitespace (c : Char) : Bool :=
  let n := c.toNat
  (0x9 ≤ n && n ≤ 0xD) || (0x2000 ≤ n && n ≤ 0x200A) ||
    n ∈ [0x20, 0x85, 0xA0, 0x1680, 0x2028, 0x2029, 0x202F, 0x205F, 0x3000]

/-- A text without the white space around it. -/
def trim (s : String) : String :=
  String.ofList ((s.toList.dropWhile isWhitespace).rdropWhile isWhitespace)

/-- The debug form of an optional text, given that of a text. -/
def debugOption (debug : String → String) : Option String → String
  | some s => "Some(" ++ debug s ++ ")"
  | none => "None"

theorem stripPrefix_eq_some {s p r : String} : stripPrefix s p = some r ↔ s = p ++ r := by
  unfold stripPrefix
  constructor
  · intro h
    split at h
    · rename_i hp
      obtain ⟨t, ht⟩ := hp
      cases h
      rw [← String.toList_inj, String.toList_append, String.toList_ofList, ← ht,
        List.drop_left]
    · cases h
  · rintro rfl
    rw [String.toList_append, if_pos (List.prefix_append _ _), List.drop_left,
      String.ofList_toList]

theorem stripPrefix_append (p r : String) : stripPrefix (p ++ r) p = some r :=
  stripPrefix_eq_some.mpr rfl

/-- Two prefixes of one text with equally many bytes are equal. -/
theorem prefix_unique {p q r t : String} (h : p ++ r = q ++ t)
    (hlen : p.utf8ByteSize = q.utf8ByteSize) : p = q := by
  have hl : p.toList ++ r.toList = q.toList ++ t.toList := by
    rw [← String.toList_append, h, String.toList_append]
  have hcase := List.prefix_or_prefix_of_prefix (List.prefix_append p.toList r.toList)
    (hl ▸ List.prefix_append q.toList t.toList)
  -- the longer of the two adds no byte, so it adds nothing
  have key : ∀ {a b : String}, a.toList <+: b.toList → a.utf8ByteSize = b.utf8ByteSize → a = b := by
    rintro a b ⟨c, hc⟩ hab
    have hb : b = a ++ String.ofList c := by
      rw [← String.toList_inj, String.toList_append, String.toList_ofList, hc]
    rw [hb, String.utf8ByteSize_append] at hab
    have hc0 : (String.ofList c).utf8ByteSize = 0 := by omega
    rw [hb, String.utf8ByteSize_eq_zero_iff.mp hc0, String.append_empty]
  rcases hcase with hc | hc
  · exact key hc hlen
  · exact (key hc hlen.symm).symm

/-- An unsigned number below `bound`, as decimals after an optional sign. -/
def parseUnsigned (bound : ℕ) (s : List Char) : Option ℕ :=
  let digits := match s with
    | '+' :: digits => digits
    | digits => digits
  let n := Nat.ofDigitChars 10 digits 0
  if digits ≠ [] ∧ digits.all Char.isDigit ∧ n < bound then some n else none

/-- The text after the first place where `p` stands. -/
def afterFirst (p : List Char) : List Char → Option (List Char)
  | [] => if p = [] then some [] else none
  | c :: s => if p <+: c :: s then some ((c :: s).drop p.length) else afterFirst p s

/-! ## Separators -/

/-- Of two texts that are each followed by `sep` in one text, the longer goes on with `sep` after
the shorter. -/
theorem extends_of_lt {sep : Char} {a b r t : List Char} (h : a ++ sep :: r = b ++ sep :: t)
    (hlen : a.length < b.length) : ∃ s, b = a ++ sep :: s ∧ r = s ++ sep :: t := by
  rcases List.append_eq_append_iff.mp h with ⟨c, hb, hc⟩ | ⟨c, ha, -⟩
  · cases c with
    | nil => simp [hb] at hlen
    | cons x s =>
      simp only [List.cons_append, List.cons.injEq] at hc
      exact ⟨s, by rw [hb, ← hc.1], hc.2⟩
  · rw [ha, List.length_append] at hlen
    omega

/-- A longer list of characters has more bytes. -/
theorem utf8ByteSize_lt_of_extends {a b : String} {c : Char} {s : List Char}
    (h : b.toList = a.toList ++ c :: s) : a.utf8ByteSize < b.utf8ByteSize := by
  have hb : b = a ++ String.ofList (c :: s) := by
    rw [← String.toList_inj, h, String.toList_append, String.toList_ofList]
  have hne : String.ofList (c :: s) ≠ "" := fun h0 => by
    have := congrArg String.toList h0
    rw [String.toList_ofList] at this
    cases this
  have hpos := String.utf8ByteSize_eq_zero_iff.not.mpr hne
  rw [hb, String.utf8ByteSize_append]
  omega

/-- Some text without `sep` ends none of the listed texts. -/
theorem exists_fresh (sep : Char) (texts : List String) :
    ∃ rest : String, rest ≠ "" ∧ sep ∉ rest.toList ∧ ∀ t ∈ texts, ∀ a, a ++ rest ≠ t := by
  obtain ⟨n, hn⟩ : ∃ n, ∀ t ∈ texts, t.toList.length < n := by
    induction texts with
    | nil => exact ⟨0, by simp⟩
    | cons t ts ih =>
      obtain ⟨n, hn⟩ := ih
      refine ⟨max n (t.toList.length + 1), fun u hu => ?_⟩
      rcases List.mem_cons.mp hu with rfl | hu
      · omega
      · have := hn u hu
        omega
  obtain ⟨c, hc⟩ : ∃ c, c ≠ sep := by
    by_cases h : 'x' = sep
    · exact ⟨'y', fun hy => absurd (h.trans hy.symm) (by decide)⟩
    · exact ⟨'x', h⟩
  have hlist : (String.ofList (List.replicate (n + 1) c)).toList = List.replicate (n + 1) c :=
    String.toList_ofList
  refine ⟨String.ofList (List.replicate (n + 1) c), fun h => ?_, ?_, fun t ht a h => ?_⟩
  · rw [h] at hlist
    cases hlist
  · rw [hlist]
    intro hmem
    exact hc (List.eq_of_mem_replicate hmem).symm
  · have hlen := hn t ht
    rw [← h, String.toList_append, hlist, List.length_append, List.length_replicate] at hlen
    omega

/-! ## Joins -/

theorem join_eq_empty {l : List String} : String.join l = "" ↔ ∀ s ∈ l, s = "" := by
  induction l with
  | nil => simp
  | cons s l ih => rw [String.join_cons, String.append_eq_empty_iff, ih, List.forall_mem_cons]

theorem join_filterMap {α : Type*} (f : α → Option String) (l : List α) :
    String.join (l.filterMap f) = String.join (l.map fun a => (f a).getD "") := by
  induction l with
  | nil => rfl
  | cons a l ih =>
    rw [List.filterMap_cons, List.map_cons, String.join_cons, ← ih]
    cases f a <;> simp

/-- Where some pieces of a text may be left out, nothing is lost exactly if none is. -/
theorem join_kept {α : Type*} {f g : α → String} {l : List α}
    (h : ∀ a ∈ l, g a = f a ∨ g a = "") :
    String.join (l.map g) = String.join (l.map f) ↔ ∀ a ∈ l, g a = f a := by
  constructor
  · intro heq
    -- a lost piece makes the text shorter
    have key : ∀ l : List α, (∀ a ∈ l, g a = f a ∨ g a = "") →
        (String.join (l.map g)).length ≤ (String.join (l.map f)).length ∧
        ((String.join (l.map g)).length = (String.join (l.map f)).length →
          ∀ a ∈ l, g a = f a) := by
      intro l
      induction l with
      | nil => simp
      | cons a l ih =>
        intro h
        obtain ⟨hle, hall⟩ := ih fun b hb => h b (List.mem_cons_of_mem _ hb)
        simp only [List.map_cons, String.join_cons, String.length_append, List.forall_mem_cons]
        rcases h a List.mem_cons_self with ha | ha
        · rw [ha]
          exact ⟨by omega, fun hlen => ⟨rfl, hall (by omega)⟩⟩
        · rw [ha, String.length_empty]
          refine ⟨by omega, fun hlen => ?_⟩
          have hzero : (f a).length = 0 := by omega
          exact ⟨(String.length_eq_zero_iff.mp hzero).symm, hall (by omega)⟩
    exact (key l h).2 (congrArg String.length heq)
  · intro hall
    rw [List.map_congr_left hall]

/-! ## Bytes -/

/-- The bytes of a text. -/
def bytes (s : String) : List UInt8 := s.toByteArray.data.toList

/-- A text from its bytes, if they are UTF-8. -/
def fromUtf8 (bs : List UInt8) : Option String := String.fromUTF8? ⟨⟨bs⟩⟩

theorem bytes_append (a b : String) : bytes (a ++ b) = bytes a ++ bytes b := by simp [bytes]

theorem fromUtf8_bytes (s : String) : fromUtf8 (bytes s) = some s := by
  have h : ByteArray.mk ⟨bytes s⟩ = s.toByteArray := rfl
  rw [fromUtf8, h, String.fromUTF8?, dif_pos s.isValidUTF8]
  rfl

theorem bytes_eq_nil {s : String} : bytes s = [] ↔ s = "" := by
  constructor
  · intro h
    have hs := fromUtf8_bytes s
    rw [h] at hs
    exact (Option.some.inj hs).symm.trans rfl
  · rintro rfl
    rfl

theorem bytes_inj {s t : String} : bytes s = bytes t ↔ s = t := by
  refine ⟨fun h => ?_, congrArg bytes⟩
  have hs := fromUtf8_bytes s
  rw [h, fromUtf8_bytes] at hs
  exact (Option.some.inj hs).symm

theorem bytes_of_fromUtf8 {bs : List UInt8} {s : String} (h : fromUtf8 bs = some s) :
    bytes s = bs := by
  rw [fromUtf8, String.fromUTF8?] at h
  split at h
  · cases h
    rfl
  · cases h

theorem bytes_eq_flatMap (s : String) : bytes s = s.toList.flatMap String.utf8EncodeChar := by
  rw [bytes, ← String.utf8Encode_toList, List.utf8Encode]
  simp

/-- In the encoding of a character, a byte below 128 stands for that very character. -/
theorem mem_utf8EncodeChar {c : Char} {b : UInt8} (hb : b.toNat < 128) :
    b ∈ String.utf8EncodeChar c ↔ c.toNat = b.toNat := by
  have hchar : c.val.toNat = c.toNat := rfl
  unfold String.utf8EncodeChar
  simp only [hchar]
  -- by the length of the encoding; all bytes of a longer one are at least 128
  split
  · simp [← UInt8.toNat_inj]
    omega
  · split
    · simp [← UInt8.toNat_inj]
      omega
    · split
      · simp [← UInt8.toNat_inj]
        omega
      · simp [← UInt8.toNat_inj]
        omega

/-- A byte below 128 is in a text exactly when its character is. -/
theorem mem_bytes {s : String} {b : UInt8} (hb : b.toNat < 128) :
    b ∈ bytes s ↔ ∃ c ∈ s.toList, c.toNat = b.toNat := by
  simp only [bytes_eq_flatMap, List.mem_flatMap, mem_utf8EncodeChar hb]

/-- The decimals of a number determine it. -/
theorem toString_inj {m n : ℕ} (h : toString m = toString n) : m = n := by
  rw [Nat.toString_eq_ofList_toDigits, Nat.toString_eq_ofList_toDigits, String.ofList_inj] at h
  rw [← Nat.ofDigitChars_toDigits (b := 10) (n := m) (by omega) (by omega), h,
    Nat.ofDigitChars_toDigits (by omega) (by omega)]

/-- The decimals of a number are read back. -/
theorem parseUnsigned_toString {bound n : ℕ} (h : n < bound) :
    parseUnsigned bound (toString n).toList = some n := by
  rw [Nat.toString_eq_ofList_toDigits, String.toList_ofList]
  have hdigit : ∀ c ∈ Nat.toDigits 10 n, c.isDigit := fun c hc =>
    Nat.isDigit_of_mem_toDigits (by omega) (by omega) hc
  have hsign (digits : List Char) : Nat.toDigits 10 n ≠ '+' :: digits := by
    intro heq
    have hplus := hdigit '+' (heq ▸ List.mem_cons_self)
    revert hplus
    decide
  have hmatch : (match Nat.toDigits 10 n with
      | '+' :: digits => digits
      | digits => digits) = Nat.toDigits 10 n := by
    split
    · rename_i digits heq
      exact absurd heq (hsign digits)
    · rfl
  unfold parseUnsigned
  dsimp only
  rw [hmatch, Nat.ofDigitChars_ten_toDigits,
    if_pos ⟨Nat.toDigits_ne_nil, List.all_eq_true.mpr hdigit, h⟩]

end Strings
