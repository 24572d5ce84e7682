import Mathlib.Data.List.Infix
import Mathlib.Data.List.Forall2

/-!
# Glob patterns

A pattern is a word in which one letter, the star, stands for any word and every other letter for
itself.

- `Globs`: the language of a pattern.
- `globs_leftmost`: of two stars with letters between them, only the later needs to move.
- `SelfSync`: a code whose words are found again in any text, as those of UTF-8 are.
- `globs_flatMap`: such a code keeps the language, if the star is a letter of its own.
-/

namespace Glob

variable {α β : Type*} {star : α} {p t u lit : List α}

/-- The language of a pattern: a text in as many pieces as the pattern has letters. -/
def Globs (star : α) (p t : List α) : Prop :=
  ∃ pieces, List.Forall₂ (fun c piece => c = star ∨ piece = [c]) p pieces ∧ pieces.flatten = t

theorem globs_nil : Globs star [] t ↔ t = [] := by
  constructor
  · rintro ⟨pieces, h, rfl⟩
    cases h
    rfl
  · rintro rfl
    exact ⟨[], .nil, rfl⟩

theorem globs_star : Globs star (star :: p) t ↔ ∃ s u, t = s ++ u ∧ Globs star p u := by
  constructor
  · rintro ⟨pieces, h, rfl⟩
    cases h with
    | cons _ h => exact ⟨_, _, rfl, _, h, rfl⟩
  · rintro ⟨s, u, rfl, pieces, h, rfl⟩
    exact ⟨s :: pieces, .cons (.inl rfl) h, rfl⟩

theorem globs_letter {c : α} (hc : c ≠ star) :
    Globs star (c :: p) t ↔ ∃ u, t = c :: u ∧ Globs star p u := by
  constructor
  · rintro ⟨pieces, h, rfl⟩
    cases h with
    | cons hpiece h =>
      obtain rfl := hpiece.resolve_left hc
      exact ⟨_, rfl, _, h, rfl⟩
  · rintro ⟨u, rfl, pieces, h, rfl⟩
    exact ⟨[c] :: pieces, .cons (.inr rfl) h, rfl⟩

/-- Letters before a pattern. -/
theorem globs_letters (hlit : star ∉ lit) :
    Globs star (lit ++ p) t ↔ ∃ u, t = lit ++ u ∧ Globs star p u := by
  induction lit generalizing t with
  | nil => simp
  | cons c lit ih =>
    rw [List.mem_cons, not_or] at hlit
    rw [List.cons_append, globs_letter (Ne.symm hlit.1)]
    constructor
    · rintro ⟨v, rfl, h⟩
      obtain ⟨u, rfl, hp⟩ := (ih hlit.2).mp h
      exact ⟨u, rfl, hp⟩
    · rintro ⟨u, rfl, h⟩
      exact ⟨lit ++ u, rfl, (ih hlit.2).mpr ⟨u, rfl, h⟩⟩

/-- A star at the front takes more. -/
theorem Globs.of_suffix (h : Globs star (star :: p) u) (hu : u <:+ t) : Globs star (star :: p) t := by
  obtain ⟨s, rfl⟩ := hu
  obtain ⟨s', v, rfl, hp⟩ := globs_star.mp h
  exact globs_star.mpr ⟨s ++ s', v, (List.append_assoc _ _ _).symm, hp⟩

/-- A star takes nothing, or one letter and then more. -/
theorem globs_star_cons {c : α} :
    Globs star (star :: p) (c :: t) ↔ Globs star p (c :: t) ∨ Globs star (star :: p) t := by
  constructor
  · intro h
    obtain ⟨s, u, hu, hp⟩ := globs_star.mp h
    cases s with
    | nil =>
      rw [List.nil_append] at hu
      exact .inl (hu ▸ hp)
    | cons d s =>
      obtain ⟨-, rfl⟩ := List.cons.inj hu
      exact .inr (globs_star.mpr ⟨s, u, rfl, hp⟩)
  · rintro (h | h)
    · exact globs_star.mpr ⟨[], c :: t, rfl, h⟩
    · exact h.of_suffix (List.suffix_cons c t)

theorem globs_star_nil : Globs star (star :: p) [] ↔ Globs star p [] := by
  constructor
  · intro h
    obtain ⟨s, u, hu, h⟩ := globs_star.mp h
    obtain ⟨-, rfl⟩ := List.append_eq_nil_iff.mp hu.symm
    exact h
  · exact fun h => globs_star.mpr ⟨[], [], rfl, h⟩

/-- A star takes nothing, or the first letter. -/
theorem globs_star_tail :
    Globs star (star :: p) t ↔ Globs star p t ∨ Globs star (star :: p) t.tail := by
  cases t with
  | nil => rw [List.tail_nil, globs_star_nil, or_self]
  | cons c t => exact globs_star_cons

/-- The empty text is in the language of nothing but stars. -/
theorem globs_empty : Globs star p [] ↔ ∀ c ∈ p, c = star := by
  induction p with
  | nil => simp [globs_nil]
  | cons c p ih =>
    rw [List.forall_mem_cons]
    by_cases hc : c = star
    · rw [hc, globs_star_nil, ih]
      simp
    · simp [globs_letter hc, hc]

/-- **Of two stars only the later needs to move**: where the first could match further on, the
second matches what is left after the leftmost occurrence of the letters between them. -/
theorem globs_leftmost (hlit : star ∉ lit) (h : Globs star (star :: (lit ++ star :: p)) u)
    (hu : u <:+ lit ++ t) : Globs star (star :: p) t := by
  obtain ⟨s, v, rfl, hs⟩ := globs_star.mp h
  obtain ⟨w, rfl, hp⟩ := (globs_letters hlit).mp hs
  refine hp.of_suffix ?_
  have hw : w <:+ lit ++ t :=
    (List.suffix_append lit w).trans ((List.suffix_append s (lit ++ w)).trans hu)
  have hlen := hu.length_le
  simp only [List.length_append] at hlen
  exact List.suffix_of_suffix_length_le hw (List.suffix_append lit t) (by omega)

/-! ## Codes -/

/-- A code whose words can be told apart, each begun by a letter that goes on with no word. -/
structure SelfSync (enc : α → List β) (first : β → Prop) : Prop where
  apart : ∀ {c d x y}, enc c ++ x = enc d ++ y → c = d
  begins : ∀ c, ∃ b bs, enc c = b :: bs ∧ first b ∧ ∀ x ∈ bs, ¬ first x

namespace SelfSync

variable {enc : α → List β} {first : β → Prop}

/-- A word found in a text is there as a word. -/
theorem split (h : SelfSync enc first) {c : α} {cs : List α} {s r : List β}
    (heq : cs.flatMap enc = s ++ (enc c ++ r)) :
    ∃ before after, cs = before ++ c :: after ∧ s = before.flatMap enc ∧ r = after.flatMap enc := by
  induction cs generalizing s with
  | nil =>
    obtain ⟨b, bs, hb, -⟩ := h.begins c
    simp [hb] at heq
  | cons d cs ih =>
    rw [List.flatMap_cons] at heq
    rcases List.append_eq_append_iff.mp heq with ⟨w, hs, hw⟩ | ⟨w, hd, hw⟩
    · -- the first word lies in `s`
      obtain ⟨before, after, rfl, rfl, rfl⟩ := ih hw
      exact ⟨d :: before, after, rfl, hs, rfl⟩
    · cases s with
      | nil =>
        obtain rfl : d = c := h.apart heq
        exact ⟨[], cs, rfl, rfl, (List.append_cancel_left heq).symm⟩
      | cons x s =>
        cases w with
        | nil =>
          obtain ⟨before, after, rfl, hs, rfl⟩ := ih (s := []) hw.symm
          refine ⟨d :: before, after, rfl, ?_, rfl⟩
          rw [List.append_nil] at hd
          rw [List.flatMap_cons, ← hs, List.append_nil, hd]
        | cons y w =>
          -- the word would begin within another
          obtain ⟨b, bs, hb, hfirst, -⟩ := h.begins c
          obtain ⟨b', bs', hb', -, hrest⟩ := h.begins d
          rw [hb] at hw
          rw [hb'] at hd
          obtain ⟨rfl, -⟩ := List.cons.inj hw
          obtain ⟨-, rfl⟩ := List.cons.inj hd
          exact absurd hfirst (hrest b (by simp))

end SelfSync

/-- **A self-synchronising code keeps the language of a pattern**, if the star is coded by a letter
that is in no other word. -/
theorem globs_flatMap {enc : α → List β} {first : β → Prop} (h : SelfSync enc first) {bstar : β}
    (hstar : enc star = [bstar]) (hother : ∀ c ≠ star, bstar ∉ enc c) :
    Globs bstar (p.flatMap enc) (t.flatMap enc) ↔ Globs star p t := by
  constructor
  · -- what a star in front leaves may begin within a word, unless a word follows
    suffices key : ∀ t, (Globs bstar (p.flatMap enc) (t.flatMap enc) → Globs star p t) ∧
        (Globs bstar (bstar :: p.flatMap enc) (t.flatMap enc) → Globs star (star :: p) t) from
      (key t).1
    induction p with
    | nil =>
      intro t
      refine ⟨fun hg => ?_, fun _ => globs_star.mpr ⟨t, [], (List.append_nil t).symm,
        globs_nil.mpr rfl⟩⟩
      rw [List.flatMap_nil, globs_nil] at hg
      cases t with
      | nil => exact globs_nil.mpr rfl
      | cons d t =>
        obtain ⟨b, bs, hb, -⟩ := h.begins d
        simp [hb] at hg
    | cons c p ih =>
      intro t
      by_cases hc : c = star
      · rw [hc, List.flatMap_cons, hstar, List.singleton_append]
        refine ⟨(ih t).2, fun hg => ?_⟩
        obtain ⟨s, u, hu, hp⟩ := globs_star.mp hg
        have hmore := (ih t).2 (hp.of_suffix ⟨s, hu.symm⟩)
        exact globs_star.mpr ⟨[], t, rfl, hmore⟩
      · have hword := hother c hc
        rw [List.flatMap_cons]
        have hfound : ∀ {s u : List β}, t.flatMap enc = s ++ u →
            Globs bstar (enc c ++ p.flatMap enc) u →
            ∃ before after, t = before ++ c :: after ∧ s = before.flatMap enc ∧ Globs star p after := by
          intro s u hu hg
          obtain ⟨v, rfl, hp⟩ := (globs_letters hword).mp hg
          obtain ⟨before, after, ht, hs, rfl⟩ := h.split hu
          exact ⟨before, after, ht, hs, (ih after).1 hp⟩
        constructor
        · intro hg
          obtain ⟨before, after, rfl, hs, hp⟩ := hfound (s := []) rfl hg
          have hbefore : before = [] := by
            cases before with
            | nil => rfl
            | cons d before =>
              obtain ⟨b, bs, hb, -⟩ := h.begins d
              simp [hb] at hs
          rw [hbefore]
          exact (globs_letter hc).mpr ⟨after, rfl, hp⟩
        · intro hg
          obtain ⟨s, u, hu, hg⟩ := globs_star.mp hg
          obtain ⟨before, after, rfl, -, hp⟩ := hfound hu hg
          exact globs_star.mpr ⟨before, c :: after, rfl, (globs_letter hc).mpr ⟨after, rfl, hp⟩⟩
  · intro hg
    induction p generalizing t with
    | nil => rw [globs_nil.mp hg]; exact globs_nil.mpr rfl
    | cons c p ih =>
      rw [List.flatMap_cons]
      by_cases hc : c = star
      · rw [hc] at hg ⊢
        obtain ⟨s, u, rfl, hp⟩ := globs_star.mp hg
        rw [hstar, List.singleton_append, List.flatMap_append]
        exact globs_star.mpr ⟨_, _, rfl, ih hp⟩
      · obtain ⟨u, rfl, hp⟩ := (globs_letter hc).mp hg
        rw [List.flatMap_cons]
        exact (globs_letters (hother c hc)).mpr ⟨_, rfl, ih hp⟩

end Glob
