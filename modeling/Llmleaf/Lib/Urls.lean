import Llmleaf.Lib.Strings

/-!
# Path segments of a URL

What an HTTP client makes of the path of a URL (`readPath`): control characters and blanks around
the text go, tabs and line ends go everywhere, a backslash is a slash, a dot segment is gone. A
text put into a URL is one segment of its path (`IsSegment`) when nothing of this touches it;
`readPath_segment` is the path that is read then.

`percentEncode` is a text as a component: it reads back (`percentDecode_percentEncode`), and it is a
segment unless the text is one or two dots.
-/

namespace Urls

open Strings

/-! ## Percent-encoding -/

/-- The value of a hexadecimal digit. -/
def hexValue (b : UInt8) : Option ℕ :=
  let n := b.toNat
  if 0x30 ≤ n ∧ n ≤ 0x39 then some (n - 0x30)
  else if 0x41 ≤ n ∧ n ≤ 0x46 then some (n - 0x41 + 10)
  else if 0x61 ≤ n ∧ n ≤ 0x66 then some (n - 0x61 + 10)
  else none

/-- The byte that three bytes spell, if they are an escape. -/
def escaped (b h l : UInt8) : Option UInt8 :=
  if b = 0x25 then
    match hexValue h, hexValue l with
    | some x, some y => some (UInt8.ofNat (16 * x + y))
    | _, _ => none
  else none

/-- The bytes that a text stands for; a `%` that starts no escape is itself. -/
def percentDecode : List UInt8 → List UInt8
  | b :: h :: l :: rest =>
    match escaped b h l with
    | some e => e :: percentDecode rest
    | none => b :: percentDecode (h :: l :: rest)
  | bs => bs

/-- Somewhere three bytes are an escape. -/
def HasEscape (bs : List UInt8) : Prop :=
  ∃ a h l b, bs = a ++ 0x25 :: h :: l :: b ∧ (escaped 0x25 h l).isSome

theorem length_percentDecode_le (bs : List UInt8) : (percentDecode bs).length ≤ bs.length := by
  fun_induction percentDecode bs with
  | case1 b h l rest e he ih =>
    simp only [List.length_cons]
    omega
  | case2 b h l rest he ih =>
    simp only [List.length_cons] at ih ⊢
    omega
  | case3 bs => exact Nat.le_refl _

theorem not_hasEscape_short {bs : List UInt8} (hlen : bs.length < 3) : ¬ HasEscape bs := by
  rintro ⟨a, h, l, b, rfl, -⟩
  simp only [List.length_append, List.length_cons] at hlen
  omega

theorem hasEscape_cons {b h l : UInt8} {rest : List UInt8} (hnone : escaped b h l = none) :
    HasEscape (b :: h :: l :: rest) ↔ HasEscape (h :: l :: rest) := by
  constructor
  · rintro ⟨a, x, y, r, heq, hsome⟩
    cases a with
    | nil =>
      rw [List.nil_append, List.cons.injEq, List.cons.injEq, List.cons.injEq] at heq
      obtain ⟨rfl, rfl, rfl, rfl⟩ := heq
      rw [hnone] at hsome
      cases hsome
    | cons c a => exact ⟨a, x, y, r, (List.cons.injEq .. ▸ heq).2, hsome⟩
  · rintro ⟨a, x, y, r, heq, hsome⟩
    exact ⟨b :: a, x, y, r, by rw [heq]; rfl, hsome⟩

/-- A text stands for itself exactly when it holds no escape. -/
theorem percentDecode_eq_self (bs : List UInt8) : percentDecode bs = bs ↔ ¬ HasEscape bs := by
  fun_induction percentDecode bs with
  | case1 b h l rest e he ih =>
    have hlen := length_percentDecode_le rest
    have hb : b = 0x25 := by
      by_contra hb
      rw [escaped, if_neg hb] at he
      cases he
    subst hb
    refine iff_of_false (fun heq => ?_) (not_not_intro ⟨[], h, l, rest, rfl, by rw [he]; rfl⟩)
    have := congrArg List.length heq
    simp only [List.length_cons] at this
    omega
  | case2 b h l rest he ih => rw [List.cons_inj_right, ih, hasEscape_cons he]
  | case3 bs hshort =>
    refine iff_of_true rfl (not_hasEscape_short ?_)
    match bs with
    | [] | [_] | [_, _] => simp
    | b :: h :: l :: rest => exact absurd rfl (hshort b h l rest)

/-- The byte is its own component: letters, digits and four marks. -/
def isUnreserved (b : UInt8) : Bool :=
  let n := b.toNat
  (0x30 ≤ n && n ≤ 0x39) || (0x41 ≤ n && n ≤ 0x5A) || (0x61 ≤ n && n ≤ 0x7A) ||
    n ∈ [0x2D, 0x5F, 0x2E, 0x7E]

/-- An upper-case hexadecimal digit. -/
def hexDigit (n : ℕ) : UInt8 := UInt8.ofNat (if n < 10 then 0x30 + n else 0x41 + n - 10)

def encodeByte (b : UInt8) : List UInt8 :=
  if isUnreserved b then [b] else [0x25, hexDigit (b.toNat / 16), hexDigit (b.toNat % 16)]

/-- A text as a component of a URL. -/
def percentEncode (s : String) : String :=
  String.ofList (((bytes s).flatMap encodeByte).map fun b => Char.ofNat b.toNat)

theorem escaped_hexDigit (b : UInt8) :
    escaped 0x25 (hexDigit (b.toNat / 16)) (hexDigit (b.toNat % 16)) = some b := by
  have hdigit : ∀ n : ℕ, n < 16 → hexValue (hexDigit n) = some n := by decide
  have hb := b.toNat_lt
  rw [escaped, if_pos rfl, hdigit _ (by omega), hdigit _ (by omega)]
  dsimp only
  rw [Nat.div_add_mod, UInt8.ofNat_toNat]

theorem percentDecode_plain {b : UInt8} (hb : b ≠ 0x25) (rest : List UInt8) :
    percentDecode (b :: rest) = b :: percentDecode rest := by
  match rest with
  | [] | [_] => rfl
  | h :: l :: rest => rw [percentDecode, escaped, if_neg hb]

/-- The bytes of a component are read back. -/
theorem percentDecode_encodeBytes (bs : List UInt8) :
    percentDecode (bs.flatMap encodeByte) = bs := by
  induction bs with
  | nil => rfl
  | cons b bs ih =>
    rw [List.flatMap_cons, encodeByte]
    split
    · rename_i hb
      have hne : b ≠ 0x25 := fun he => absurd (he ▸ hb) (by decide)
      rw [List.singleton_append, percentDecode_plain hne, ih]
    · simp only [List.cons_append, List.nil_append, percentDecode, escaped_hexDigit, ih]

theorem encodeByte_ascii (b c : UInt8) (h : c ∈ encodeByte b) :
    isUnreserved c = true ∨ c = 0x25 := by
  have hdigit : ∀ n : ℕ, n < 16 → isUnreserved (hexDigit n) = true := by decide
  have hb := b.toNat_lt
  unfold encodeByte at h
  split at h
  · rename_i hu
    rw [List.mem_singleton.mp h]
    exact .inl hu
  · simp only [List.mem_cons, List.not_mem_nil, or_false] at h
    rcases h with rfl | rfl | rfl
    · exact .inr rfl
    · exact .inl (hdigit _ (by omega))
    · exact .inl (hdigit _ (by omega))

/-- The bytes of a text of bytes below 128 are these bytes. -/
theorem bytes_ofAscii {bs : List UInt8} (h : ∀ b ∈ bs, b.toNat < 128) :
    bytes (String.ofList (bs.map fun b => Char.ofNat b.toNat)) = bs := by
  rw [bytes_eq_flatMap, String.toList_ofList]
  induction bs with
  | nil => rfl
  | cons b bs ih =>
    have hb := h b List.mem_cons_self
    have hvalid : b.toNat.isValidChar := .inl (by omega)
    have hchar : (Char.ofNat b.toNat).val.toNat = b.toNat := by
      rw [Char.ofNat, dif_pos hvalid]
      rfl
    rw [List.map_cons, List.flatMap_cons, ih fun c hc => h c (List.mem_cons_of_mem _ hc),
      String.utf8EncodeChar, hchar, if_pos (by omega), List.singleton_append,
      UInt8.ofNat_toNat]

theorem unreserved_lt {b : UInt8} (h : isUnreserved b = true ∨ b = 0x25) : b.toNat < 128 := by
  rcases h with h | rfl
  · simp [isUnreserved] at h
    omega
  · decide

/-- **A component is read back.** -/
theorem percentDecode_percentEncode (s : String) :
    percentDecode (bytes (percentEncode s)) = bytes s := by
  rw [percentEncode, bytes_ofAscii, percentDecode_encodeBytes]
  intro c hc
  obtain ⟨b, -, hb⟩ := List.mem_flatMap.mp hc
  exact unreserved_lt (encodeByte_ascii b c hb)

/-! ## Reading a path -/

/-- The character ends a segment. -/
def isDelimiter (c : Char) : Bool := c ∈ ['/', '\\', '?', '#']

/-- The character is dropped wherever it stands. -/
def isDropped (c : Char) : Bool := c ∈ ['\t', '\n', '\r']

/-- The character is dropped at the end. -/
def isTrimmed (c : Char) : Bool := c.toNat ≤ 0x20

/-- What is read of the end of a URL. -/
def clean (text : List Char) : List Char := (text.filter (!isDropped ·)).rdropWhile isTrimmed

/-- The spellings of the segment that names the same place. -/
def singleDots : List (List Char) := [".", "%2e", "%2E"].map String.toList

/-- The spellings of the segment that names the place above. -/
def doubleDots : List (List Char) :=
  ["..", ".%2e", ".%2E", "%2e.", "%2E.", "%2e%2e", "%2e%2E", "%2E%2e", "%2E%2E"].map String.toList

/-- A path with one more segment, the last one or not. -/
def push (path : List (List Char)) (segment : List Char) (last : Bool) : List (List Char) :=
  if segment ∈ doubleDots then path.dropLast ++ if last then [[]] else []
  else if segment ∈ singleDots then path ++ if last then [[]] else []
  else path ++ [segment]

/-- The path that is read, from the segments and the part of a segment already behind. -/
def resolve (path : List (List Char)) (segment : List Char) : List Char → List (List Char)
  | [] => push path segment true
  | c :: rest =>
    if c = '/' ∨ c = '\\' then resolve (push path segment false) [] rest
    else if isDelimiter c then push path segment true
    else resolve path (segment ++ [c]) rest

/-- The path of a URL that goes on with a text after the segments `path` and a slash. -/
def readPath (path : List (List Char)) (text : List Char) : List (List Char) :=
  resolve path [] (clean text)

/-- The path that is read on after a whole segment. -/
def readOn (path : List (List Char)) : List Char → List (List Char)
  | [] => path
  | c :: rest => if c = '/' ∨ c = '\\' then resolve path [] rest else path

/-- The rest of the segment that a text starts in. -/
def segmentRest (text : List Char) : List Char := text.takeWhile (!isDelimiter ·)

/-- A text, with `post` after it in a URL, is one segment of the path or the start of one. -/
structure IsSegment (text post : List Char) : Prop where
  delimited : ∀ c ∈ text, isDelimiter c = false
  kept : ∀ c ∈ text, isDropped c = false
  ended : clean post = [] → ∀ c, text.getLast? = some c → isTrimmed c = false
  named : text ++ segmentRest (clean post) ∉ singleDots ++ doubleDots

theorem rdropWhile_append {α : Type*} (p : α → Bool) (a b : List α) :
    (a ++ b).rdropWhile p =
      if b.rdropWhile p = [] then a.rdropWhile p else a ++ b.rdropWhile p := by
  induction b using List.reverseRecOn with
  | nil => simp
  | append_singleton b x ih =>
    rw [← List.append_assoc, List.rdropWhile_concat, List.rdropWhile_concat]
    split
    · exact ih
    · rw [if_neg (by simp), List.append_assoc]

theorem clean_append {text post : List Char} (hkept : ∀ c ∈ text, isDropped c = false)
    (hended : clean post = [] → ∀ c, text.getLast? = some c → isTrimmed c = false) :
    clean (text ++ post) = text ++ clean post := by
  have hfilter : text.filter (!isDropped ·) = text :=
    List.filter_eq_self.mpr fun c hc => by rw [hkept c hc]; rfl
  unfold clean at hended ⊢
  rw [List.filter_append, hfilter, rdropWhile_append]
  split
  · rename_i hnil
    rw [hnil, List.append_nil, List.rdropWhile_eq_self_iff]
    intro hne
    rw [hended hnil _ (List.getLast?_eq_some_getLast hne)]
    decide
  · rfl

theorem clean_cons {c : Char} (hkept : isDropped c = false) (hended : isTrimmed c = false)
    (post : List Char) : clean (c :: post) = c :: clean post :=
  @clean_append [c] post (fun _ hd => List.mem_singleton.mp hd ▸ hkept)
    fun _ _ hd => Option.some.inj hd ▸ hended

theorem resolve_append {text : List Char} (h : ∀ c ∈ text, isDelimiter c = false)
    (path : List (List Char)) (segment rest : List Char) :
    resolve path segment (text ++ rest) = resolve path (segment ++ text) rest := by
  induction text generalizing segment with
  | nil => rw [List.append_nil, List.nil_append]
  | cons c text ih =>
    have hc := h c List.mem_cons_self
    have hslash : ¬ (c = '/' ∨ c = '\\') := by
      rintro (rfl | rfl)
      · exact absurd hc (by decide)
      · exact absurd hc (by decide)
    rw [List.cons_append, resolve, if_neg hslash, if_neg (by rw [hc]; decide),
      ih fun d hd => h d (List.mem_cons_of_mem _ hd), List.append_assoc, List.singleton_append]

theorem resolve_segment {segment : List Char} (h : segment ∉ singleDots ++ doubleDots)
    (path : List (List Char)) {rest : List Char} (hrest : segmentRest rest = []) :
    resolve path segment rest = readOn (path ++ [segment]) rest := by
  rw [List.mem_append, not_or] at h
  have hpush : ∀ last, push path segment last = path ++ [segment] := fun last => by
    rw [push, if_neg h.2, if_neg h.1]
  cases rest with
  | nil => exact hpush true
  | cons c rest =>
    have hdelim : isDelimiter c = true := by
      by_contra hc
      rw [segmentRest, List.takeWhile_cons_of_pos (by simpa using hc)] at hrest
      cases hrest
    rw [resolve, readOn, hpush, hpush, if_pos hdelim]

theorem segmentRest_mem {text : List Char} {c : Char} (h : c ∈ segmentRest text) :
    isDelimiter c = false := by
  simpa using List.mem_takeWhile_imp h

/-- **The path after a segment**: the text is one segment of it, with what follows in the same
segment. -/
theorem readPath_segment {text post : List Char} (h : IsSegment text post)
    (path : List (List Char)) : readPath path (text ++ post) =
      readOn (path ++ [text ++ segmentRest (clean post)])
        ((clean post).dropWhile (!isDelimiter ·)) := by
  have hsplit : clean post =
      segmentRest (clean post) ++ (clean post).dropWhile (!isDelimiter ·) :=
    List.takeWhile_append_dropWhile.symm
  rw [readPath, clean_append h.kept h.ended]
  nth_rewrite 1 [hsplit]
  rw [← List.append_assoc, resolve_append, List.nil_append, resolve_segment h.named]
  · rw [segmentRest, List.takeWhile_eq_nil_iff]
    intro hpos
    exact List.dropWhile_get_zero_not _ _ hpos
  · intro c hc
    rcases List.mem_append.mp hc with hc | hc
    · exact h.delimited c hc
    · exact segmentRest_mem hc

/-! ## Texts that are segments -/

theorem percentDecode_dots : ∀ d ∈ singleDots ++ doubleDots,
    percentDecode (bytes (String.ofList d)) = bytes "." ∨
      percentDecode (bytes (String.ofList d)) = bytes ".." := by
  decide +kernel

/-- A spelling of a text other than one or two dots is no dot segment. -/
theorem not_dots {s text : String} (hdecode : percentDecode (bytes text) = bytes s)
    (hone : s ≠ ".") (htwo : s ≠ "..") : text.toList ∉ singleDots ++ doubleDots := by
  intro hmem
  have hdots := percentDecode_dots _ hmem
  rw [String.ofList_toList, hdecode] at hdots
  rcases hdots with h | h
  · exact hone (bytes_inj.mp h)
  · exact htwo (bytes_inj.mp h)

theorem percentEncode_chars {s : String} {c : Char} (h : c ∈ (percentEncode s).toList) :
    ∃ b : UInt8, c = Char.ofNat b.toNat ∧ (isUnreserved b = true ∨ b = 0x25) := by
  rw [percentEncode, String.toList_ofList] at h
  obtain ⟨b, hb, rfl⟩ := List.mem_map.mp h
  obtain ⟨a, -, ha⟩ := List.mem_flatMap.mp hb
  exact ⟨b, rfl, encodeByte_ascii a b ha⟩

/-- The characters of a component mean nothing in a URL. -/
theorem percentEncode_inert {s : String} {c : Char} (h : c ∈ (percentEncode s).toList) :
    isDelimiter c = false ∧ isDropped c = false ∧ isTrimmed c = false := by
  have hall : ∀ n : ℕ, n < 256 → isUnreserved (UInt8.ofNat n) = true ∨ UInt8.ofNat n = 0x25 →
      isDelimiter (Char.ofNat n) = false ∧ isDropped (Char.ofNat n) = false ∧
        isTrimmed (Char.ofNat n) = false := by
    decide +kernel
  obtain ⟨b, rfl, hb⟩ := percentEncode_chars h
  exact hall b.toNat b.toNat_lt (by rwa [UInt8.ofNat_toNat])

/-- A component is a segment, unless the text is one or two dots. -/
theorem isSegment_percentEncode {s : String} (hone : s ≠ ".") (htwo : s ≠ "..")
    {post : List Char} (hpost : segmentRest (clean post) = []) :
    IsSegment (percentEncode s).toList post where
  delimited := fun _ hc => (percentEncode_inert hc).1
  kept := fun _ hc => (percentEncode_inert hc).2.1
  ended := fun _ _ hc => (percentEncode_inert (List.mem_of_getLast? hc)).2.2
  named := by
    rw [hpost, List.append_nil]
    exact not_dots (percentDecode_percentEncode s) hone htwo

/-! ## Fixed texts after a segment -/

/-- A fixed piece of a path. -/
structure IsWord (word : List Char) : Prop where
  inert : ∀ c ∈ word, isDelimiter c = false ∧ isDropped c = false ∧ isTrimmed c = false
  named : word ∉ singleDots ++ doubleDots

instance (word : List Char) : Decidable (IsWord word) :=
  decidable_of_iff (word.all (fun c => !isDelimiter c && !isDropped c && !isTrimmed c) = true ∧
    word ∉ singleDots ++ doubleDots)
    ⟨fun h => ⟨by simpa [and_assoc] using h.1, h.2⟩,
      fun h => ⟨by simpa [and_assoc] using h.inert, h.named⟩⟩

/-- Nothing, or a query. -/
def IsQuery (text : List Char) : Prop := text = [] ∨ ∃ rest, text = '?' :: rest

theorem IsQuery.clean {text : List Char} (h : IsQuery text) : IsQuery (Urls.clean text) := by
  rcases h with rfl | ⟨rest, rfl⟩
  · exact .inl rfl
  · exact .inr ⟨Urls.clean rest, clean_cons (by decide) (by decide) rest⟩

theorem IsQuery.segmentRest {text : List Char} (h : IsQuery text) :
    Urls.segmentRest text = [] := by
  rcases h with rfl | ⟨rest, rfl⟩
  · rfl
  · rfl

theorem IsQuery.readOn {text : List Char} (h : IsQuery text) (path : List (List Char)) :
    Urls.readOn path text = path := by
  rcases h with rfl | ⟨rest, rfl⟩
  · rfl
  · rfl

theorem IsWord.clean_append {word : List Char} (h : IsWord word) (post : List Char) :
    clean (word ++ post) = word ++ clean post :=
  Urls.clean_append (fun c hc => (h.inert c hc).2.1)
    fun _ c hc => (h.inert c (List.mem_of_getLast? hc)).2.2

/-- A segment at the end of the path. -/
theorem readPath_whole {text post : List Char} (h : IsSegment text post) (hpost : IsQuery post)
    (path : List (List Char)) : readPath path (text ++ post) = path ++ [text] := by
  rw [readPath, clean_append h.kept h.ended, resolve_append h.delimited, List.nil_append,
    resolve_segment _ _ hpost.clean.segmentRest, hpost.clean.readOn]
  have hnamed := h.named
  rwa [hpost.clean.segmentRest, List.append_nil] at hnamed

theorem segmentRest_slash (rest : List Char) : segmentRest ('/' :: rest) = [] := rfl

theorem clean_slash {word : List Char} (hw : IsWord word) (post : List Char) :
    clean ('/' :: word ++ post) = '/' :: (word ++ clean post) := by
  rw [← hw.clean_append]
  exact clean_cons (by decide) (by decide) _

/-- A segment with a fixed one below it. -/
theorem readPath_below {text word post : List Char} (hw : IsWord word)
    (h : IsSegment text ('/' :: word ++ post)) (hpost : IsQuery post)
    (path : List (List Char)) :
    readPath path (text ++ ('/' :: word ++ post)) = path ++ [text, word] := by
  have hnamed := h.named
  have hsep : ('/' : Char) = '/' ∨ ('/' : Char) = '\\' := .inl rfl
  rw [clean_slash hw, segmentRest_slash, List.append_nil] at hnamed
  rw [readPath, clean_append h.kept h.ended, resolve_append h.delimited, List.nil_append,
    clean_slash hw, resolve_segment hnamed _ (segmentRest_slash _), readOn, if_pos hsep,
    resolve_append fun c hc => (hw.inert c hc).1, List.nil_append,
    resolve_segment hw.named _ hpost.clean.segmentRest, hpost.clean.readOn, List.append_assoc,
    List.singleton_append]

/-- A segment that a fixed text goes on with. -/
theorem readPath_joined {text word post : List Char} (hw : IsWord word)
    (h : IsSegment text (word ++ post)) (hpost : IsQuery post) (path : List (List Char)) :
    readPath path (text ++ (word ++ post)) = path ++ [text ++ word] := by
  have hdelim : ∀ c ∈ word, isDelimiter c = false := fun c hc => (hw.inert c hc).1
  have hrest : segmentRest (word ++ clean post) = word := by
    have hq := hpost.clean.segmentRest
    unfold segmentRest at hq ⊢
    rw [List.takeWhile_append_of_pos fun c hc => by rw [hdelim c hc]; rfl, hq, List.append_nil]
  have hnamed := h.named
  rw [hw.clean_append, hrest] at hnamed
  rw [readPath, clean_append h.kept h.ended, resolve_append h.delimited, List.nil_append,
    hw.clean_append, resolve_append hdelim, resolve_segment hnamed _ hpost.clean.segmentRest,
    hpost.clean.readOn]

end Urls
