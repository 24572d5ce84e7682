import Llmleaf.Lib.Urls

/-!
# Form bodies

Names and values as an HTML form or a query writes them: pairs joined by `&`, a name and its value
by `=`, and each of the two with its bytes escaped. Writers differ in the bytes they leave as they
are and in whether they write a blank as `+`; a reader takes them all.

- `Style`: a writer; `Style.Safe`: it leaves none of the four marks as it is.
- `decode_encode`: a component is read back.
- `parse_write`: so are the pairs, whatever bytes are in them.
- `decode_eq_self`: the components that stand for themselves.
- `Rewrites.percentDecode`: a component that is escaped once more where it holds no escape is read
  alike.
-/

namespace Forms

open Urls Strings

/-- A writer of components: the bytes it leaves, and whether a blank is a `+`. -/
structure Style where
  plain : UInt8 → Bool
  plus : Bool

/-- The bytes with a meaning of their own: `&`, `=`, `%` and `+`. -/
def marks : List UInt8 := [0x26, 0x3D, 0x25, 0x2B]

/-- The escape of a byte. -/
def escape (b : UInt8) : List UInt8 := [0x25, hexDigit (b.toNat / 16), hexDigit (b.toNat % 16)]

/-- What is read of a byte that is not part of an escape. -/
def blank (b : UInt8) : UInt8 := if b = 0x2B then 0x20 else b

/-- The bytes that a component stands for. -/
def decode (bs : List UInt8) : List UInt8 := percentDecode (bs.map blank)

/-- The pairs of a body: its parts between `&` that are not empty, each split at its first `=`. -/
def parse (bs : List UInt8) : List (List UInt8 × List UInt8) :=
  ((bs.splitOn 0x26).filter (· ≠ [])).map fun part =>
    (decode (part.takeWhile (· ≠ 0x3D)), decode ((part.dropWhile (· ≠ 0x3D)).drop 1))

/-- An escape makes a text shorter. -/
theorem length_percentDecode_lt {bs : List UInt8} (h : HasEscape bs) :
    (percentDecode bs).length < bs.length := by
  fun_induction percentDecode bs with
  | case1 b h l rest e he ih =>
    have hle := length_percentDecode_le rest
    simp only [List.length_cons]
    omega
  | case2 b x l rest he ih =>
    have hlt := ih ((hasEscape_cons he).mp h)
    simp only [List.length_cons] at hlt ⊢
    omega
  | case3 bs hshort =>
    refine absurd h (not_hasEscape_short ?_)
    rcases bs with _ | ⟨b, _ | ⟨x, _ | ⟨l, rest⟩⟩⟩
    · simp
    · simp
    · simp
    · exact absurd rfl (hshort b x l rest)

/-- **The components that stand for themselves** have no `+` and no escape. -/
theorem decode_eq_self (bs : List UInt8) : decode bs = bs ↔ 0x2B ∉ bs ∧ ¬ HasEscape bs := by
  have hblank : bs.map blank = bs ↔ 0x2B ∉ bs := by
    have hiff : bs.map blank = bs.map id ↔ ∀ b ∈ bs, blank b = b := List.map_inj_left
    rw [List.map_id] at hiff
    rw [hiff]
    constructor
    · intro h hplus
      exact absurd (h _ hplus) (by decide)
    · intro h b hb
      exact if_neg fun he : b = 0x2B => h (he ▸ hb)
  constructor
  · intro h
    have hno : ¬ HasEscape (bs.map blank) := fun hescape => by
      have hlt := length_percentDecode_lt hescape
      rw [show percentDecode (bs.map blank) = bs from h, List.length_map] at hlt
      exact Nat.lt_irrefl _ hlt
    have hmap : bs.map blank = bs := ((percentDecode_eq_self _).mpr hno).symm.trans h
    exact ⟨hblank.mp hmap, hmap ▸ hno⟩
  · rintro ⟨hplus, hescape⟩
    rw [decode, hblank.mpr hplus, (percentDecode_eq_self _).mpr hescape]

theorem hexDigit_plain : ∀ n : ℕ, n < 16 →
    hexDigit n ∉ marks ∧ blank (hexDigit n) = hexDigit n := by decide

/-- An escape holds no `+`. -/
theorem map_blank_escape (b : UInt8) : (escape b).map blank = escape b := by
  have hb := b.toNat_lt
  simp only [escape, List.map_cons, (hexDigit_plain (b.toNat / 16) (by omega)).2,
    (hexDigit_plain (b.toNat % 16) (by omega)).2]
  rfl

/-! ## Escaping more than was escaped -/

/-- A byte is written as another one or as the escape of one, but the bytes of escapes never are. -/
def Rewrites (f : UInt8 → List UInt8) (g : UInt8 → UInt8) : Prop :=
  ∀ b, f b = [g b] ∨ f b = escape (g b) ∧ g b ≠ 0x25 ∧ hexValue (g b) = none

theorem percentDecode_escape (b : UInt8) (rest : List UInt8) :
    percentDecode (escape b ++ rest) = b :: percentDecode rest := by
  simp only [escape, List.cons_append, List.nil_append, percentDecode, escaped_hexDigit]

/-- A `%` that starts no escape. -/
theorem percentDecode_percent {bs : List UInt8}
    (h : ∀ x y rest, bs = x :: y :: rest → escaped 0x25 x y = none) :
    percentDecode (0x25 :: bs) = 0x25 :: percentDecode bs := by
  rcases bs with _ | ⟨x, _ | ⟨y, rest⟩⟩
  · rfl
  · rfl
  · rw [percentDecode, h x y rest rfl]

/-- A digit is written as it is. -/
theorem Rewrites.digit {f : UInt8 → List UInt8} {g : UInt8 → UInt8} (h : Rewrites f g) {b : UInt8}
    (hdigit : hexValue (g b) ≠ none) : f b = [g b] := by
  rcases h b with hb | ⟨-, -, hnone⟩
  · exact hb
  · exact absurd hnone hdigit

/-- A digit in what is written was one before. -/
theorem Rewrites.of_digit {f : UInt8 → List UInt8} {g : UInt8 → UInt8} (h : Rewrites f g)
    {bs rest : List UInt8} {x : UInt8} (heq : bs.flatMap f = x :: rest)
    (hdigit : hexValue x ≠ none) : ∃ b bs', bs = b :: bs' ∧ f b = [x] ∧ g b = x ∧
      bs'.flatMap f = rest := by
  cases bs with
  | nil => cases heq
  | cons b bs =>
    rw [List.flatMap_cons] at heq
    rcases h b with hb | ⟨hb, -⟩
    · rw [hb] at heq
      obtain ⟨rfl, hrest⟩ := List.cons.inj heq
      exact ⟨b, bs, rfl, hb, rfl, hrest⟩
    · rw [hb] at heq
      obtain ⟨rfl, -⟩ := List.cons.inj heq
      exact absurd rfl hdigit

theorem escaped_percent {x y : UInt8} :
    escaped 0x25 x y = none ↔ hexValue x = none ∨ hexValue y = none := by
  rw [escaped, if_pos rfl]
  cases hexValue x <;> cases hexValue y <;> simp

/-- **More escapes are read alike.** -/
theorem Rewrites.percentDecode {f : UInt8 → List UInt8} {g : UInt8 → UInt8} (h : Rewrites f g)
    (bs : List UInt8) : Urls.percentDecode (bs.flatMap f) = Urls.percentDecode (bs.map g) := by
  induction hn : bs.length using Nat.strong_induction_on generalizing bs with
  | _ n ih =>
  cases bs with
  | nil => rfl
  | cons b bs =>
    have hih : ∀ bs' : List UInt8, bs'.length < (b :: bs).length →
        Urls.percentDecode (bs'.flatMap f) = Urls.percentDecode (bs'.map g) :=
      fun bs' hlt => ih _ (hn ▸ hlt) bs' rfl
    rw [List.flatMap_cons, List.map_cons]
    by_cases hpercent : g b = 0x25
    · have hb : f b = [0x25] := by
        rcases h b with hb | ⟨-, hne, -⟩
        · rw [hb, hpercent]
        · exact absurd hpercent hne
      rw [hb, hpercent, List.singleton_append]
      by_cases hescape : ∃ x y rest, bs.flatMap f = x :: y :: rest ∧ escaped 0x25 x y ≠ none
      · -- the digits of an escape are written as they are
        obtain ⟨x, y, rest, heq, hsome⟩ := hescape
        rw [ne_eq, escaped_percent, not_or] at hsome
        obtain ⟨b₁, bs₁, rfl, hf₁, hg₁, heq₁⟩ := h.of_digit heq hsome.1
        obtain ⟨b₂, bs₂, rfl, hf₂, hg₂, heq₂⟩ := h.of_digit heq₁ hsome.2
        obtain ⟨e, he⟩ := Option.ne_none_iff_exists'.mp (mt escaped_percent.mp (not_or.mpr hsome))
        simp only [List.flatMap_cons, hf₁, hf₂, List.singleton_append, List.map_cons, hg₁, hg₂,
          Urls.percentDecode, he]
        rw [hih bs₂ (by simp only [List.length_cons]; omega)]
      · have hno : ∀ x y rest, bs.map g = x :: y :: rest → escaped 0x25 x y = none := by
          intro x y rest heq
          by_contra hsome
          obtain ⟨b₁, bs₁, rfl, rfl, hrest⟩ := List.map_eq_cons_iff.mp heq
          obtain ⟨b₂, bs₂, rfl, rfl, rfl⟩ := List.map_eq_cons_iff.mp hrest
          have hdigits := not_or.mp (mt escaped_percent.mpr hsome)
          refine hescape ⟨g b₁, g b₂, bs₂.flatMap f, ?_, hsome⟩
          rw [List.flatMap_cons, List.flatMap_cons, h.digit hdigits.1, h.digit hdigits.2]
          rfl
        rw [percentDecode_percent hno, percentDecode_percent fun x y rest heq => by_contra fun hs =>
          hescape ⟨x, y, rest, heq, hs⟩, hih bs (Nat.lt_succ_self _)]
    · rw [percentDecode_plain hpercent, ← hih bs (Nat.lt_succ_self _)]
      rcases h b with hb | ⟨hb, -⟩
      · rw [hb, List.singleton_append, percentDecode_plain hpercent]
      · rw [hb, percentDecode_escape]

/-- The first part of a body. -/
theorem parse_part {name value : List UInt8} (hname : 0x26 ∉ name ∧ 0x3D ∉ name)
    (hvalue : 0x26 ∉ value) :
    parse (name ++ 0x3D :: value) = [(decode name, decode value)] ∧
    ∀ rest, parse (name ++ 0x3D :: value ++ 0x26 :: rest) =
      (decode name, decode value) :: parse rest := by
  have hpart : 0x26 ∉ name ++ 0x3D :: value := by
    simp only [List.mem_append, List.mem_cons, not_or]
    exact ⟨hname.1, by decide, hvalue⟩
  have hkept : ∀ parts : List (List UInt8), ((name ++ 0x3D :: value) :: parts).filter (· ≠ []) =
      (name ++ 0x3D :: value) :: parts.filter (· ≠ []) := fun parts => by simp
  have htake : ∀ b ∈ name, decide (b ≠ 0x3D) = true := fun b hb =>
    decide_eq_true fun he => hname.2 (he ▸ hb)
  have hpair : (decode ((name ++ 0x3D :: value).takeWhile (· ≠ 0x3D)),
      decode (((name ++ 0x3D :: value).dropWhile (· ≠ 0x3D)).drop 1)) =
      (decode name, decode value) := by
    rw [List.takeWhile_append_of_pos htake, List.dropWhile_append_of_pos htake]
    simp
  refine ⟨?_, fun rest => ?_⟩
  · rw [parse, List.splitOn_eq_singleton hpart, hkept, List.filter_nil, List.map_singleton, hpair]
  · rw [parse, List.splitOn_append_cons_self, List.splitOn_eq_singleton hpart,
      List.singleton_append, hkept, List.map_cons, hpair]
    rfl

namespace Style

/-- No mark is left as it is. -/
def Safe (s : Style) : Prop := ∀ b ∈ marks, s.plain b = false

variable (s : Style)

def encodeByte (b : UInt8) : List UInt8 :=
  if s.plain b then [b]
  else if s.plus && b == 0x20 then [0x2B]
  else escape b

/-- A component. -/
def encode (bs : List UInt8) : List UInt8 := bs.flatMap s.encodeByte

/-- A text as a component. -/
def text (t : String) : String :=
  String.ofList ((s.encode (bytes t)).map fun b => Char.ofNat b.toNat)

/-- A name and its value. -/
def writePair (pair : List UInt8 × List UInt8) : List UInt8 :=
  s.encode pair.1 ++ 0x3D :: s.encode pair.2

/-- A body. -/
def write (pairs : List (List UInt8 × List UInt8)) : List UInt8 :=
  [0x26].intercalate (pairs.map s.writePair)

variable {s}


/-- What is written for a byte holds no separator. -/
theorem encodeByte_separators (h : s.Safe) (b : UInt8) :
    0x26 ∉ s.encodeByte b ∧ 0x3D ∉ s.encodeByte b := by
  have hb := b.toNat_lt
  obtain ⟨hhigh, -⟩ := hexDigit_plain (b.toNat / 16) (by omega)
  obtain ⟨hlow, -⟩ := hexDigit_plain (b.toNat % 16) (by omega)
  have hmark : ∀ m ∈ marks, s.plain b = true → m ≠ b := fun m hm hp he => by
    rw [← he, h m hm] at hp
    cases hp
  unfold encodeByte
  split
  · rename_i hp
    simp only [List.mem_singleton]
    exact ⟨hmark _ (by decide) hp, hmark _ (by decide) hp⟩
  · split
    · decide
    · have hne : ∀ m ∈ marks, m ≠ hexDigit (b.toNat / 16) ∧ m ≠ hexDigit (b.toNat % 16) :=
        fun m hm => ⟨fun he => hhigh (he ▸ hm), fun he => hlow (he ▸ hm)⟩
      simp only [escape, List.mem_cons, List.not_mem_nil, or_false, not_or]
      exact ⟨⟨by decide, hne _ (by decide)⟩, by decide, hne _ (by decide)⟩

theorem encode_separators (h : s.Safe) (bs : List UInt8) :
    0x26 ∉ s.encode bs ∧ 0x3D ∉ s.encode bs := by
  simp only [encode, List.mem_flatMap, not_exists, not_and]
  exact ⟨fun b _ => (encodeByte_separators h b).1, fun b _ => (encodeByte_separators h b).2⟩

/-- The bytes of a component. -/
theorem mem_encode {bs : List UInt8} {c : UInt8} (hc : c ∈ s.encode bs) :
    s.plain c = true ∨ c = 0x2B ∨ c = 0x25 ∨ ∃ n < 16, c = hexDigit n := by
  obtain ⟨b, -, hc⟩ := List.mem_flatMap.mp hc
  have hb := b.toNat_lt
  unfold encodeByte at hc
  split at hc
  · rename_i hp
    rw [List.mem_singleton.mp hc]
    exact .inl hp
  · split at hc
    · exact .inr (.inl (List.mem_singleton.mp hc))
    · simp only [escape, List.mem_cons, List.not_mem_nil, or_false] at hc
      rcases hc with rfl | rfl | rfl
      · exact .inr (.inr (.inl rfl))
      · exact .inr (.inr (.inr ⟨_, by omega, rfl⟩))
      · exact .inr (.inr (.inr ⟨_, by omega, rfl⟩))

/-- A text as a component is ASCII if the bytes left as they are are. -/
theorem bytes_text (h : ∀ b, s.plain b = true → b.toNat < 128) (t : String) :
    bytes (s.text t) = s.encode (bytes t) := by
  refine bytes_ofAscii fun c hc => ?_
  rcases mem_encode hc with hplain | rfl | rfl | ⟨n, hn, rfl⟩
  · exact h c hplain
  · decide
  · decide
  · have hdigits : ∀ n : ℕ, n < 16 → (hexDigit n).toNat < 128 := by decide
    exact hdigits n hn

/-- A byte is read back. -/
theorem decode_encodeByte (h : s.Safe) (b : UInt8) (rest : List UInt8) :
    decode (s.encodeByte b ++ rest) = b :: decode rest := by
  have hb := b.toNat_lt
  have hplain : ∀ m ∈ marks, s.plain b = true → b ≠ m := fun m hm hp he => by
    rw [he, h m hm] at hp
    cases hp
  unfold encodeByte
  split
  · rename_i hp
    rw [List.singleton_append, decode, List.map_cons, blank, if_neg (hplain _ (by decide) hp),
      percentDecode_plain (hplain _ (by decide) hp)]
    rfl
  · split
    · rename_i hblank
      rw [Bool.and_eq_true, beq_iff_eq] at hblank
      rw [hblank.2, List.singleton_append, decode, List.map_cons, blank, if_pos rfl,
        percentDecode_plain (by decide)]
      rfl
    · rw [decode, List.map_append, map_blank_escape, percentDecode_escape]
      rfl

/-- **A component is read back.** -/
theorem decode_encode (h : s.Safe) (bs : List UInt8) : decode (s.encode bs) = bs := by
  induction bs with
  | nil => rfl
  | cons b bs ih => rw [encode, List.flatMap_cons, decode_encodeByte h, ← encode, ih]

/-- **A body is read back**: the same pairs in the same order. -/
theorem parse_write (h : s.Safe) (pairs : List (List UInt8 × List UInt8)) :
    parse (s.write pairs) = pairs := by
  induction pairs with
  | nil => rfl
  | cons pair pairs ih =>
    obtain ⟨hone, hmore⟩ := parse_part (encode_separators h pair.1) (encode_separators h pair.2).1
    rw [decode_encode h, decode_encode h] at hone hmore
    cases pairs with
    | nil => simpa [write, writePair, List.intercalate] using hone
    | cons next pairs =>
      rw [show s.write (pair :: next :: pairs) =
        s.encode pair.1 ++ 0x3D :: s.encode pair.2 ++ 0x26 :: s.write (next :: pairs) by
          simp [write, writePair, List.intercalate], hmore, ih]

end Style

end Forms
