import Llmleaf.Keys
import Llmleaf.Lib.Glob

/-!
# Wildcard matching

The glob loop keeps the last star only, and starts over behind it on every mismatch. It ends, and
it accepts the language of the pattern.

- `wildcardStep`: one turn of the loop; `wildcardRun` takes at most so many turns.
- `Hope`: what a position of the loop can still match. Every turn keeps it (`step_spec`), since a
  new star makes the one before it superfluous.
- `utf8_sync`: the encodings of characters are found again among the bytes of a text, so that the
  loop over bytes decides the language over characters.
- `wildcardMatch_exact`: the matcher ends and is exact.
-/

namespace Llmleaf

open Glob Strings

/-! ## One turn -/

/-- A position of the loop: what is left of the pattern and of the text, and the last star. -/
structure Cursor where
  p : List UInt8
  t : List UInt8
  star : Option (List UInt8 × List UInt8)

/-- One turn of the loop, or its answer. -/
def wildcardStep (c : Cursor) : Cursor ⊕ Bool :=
  match c.t with
  | [] => .inr (c.p.all (· == starByte))
  | b :: t =>
    let backtrack : Cursor ⊕ Bool :=
      match c.star with
      | some (sp, st) => .inl ⟨sp, st.tail, some (sp, st.tail)⟩
      | none => .inr false
    match c.p with
    | x :: p =>
      if x = starByte then .inl ⟨p, b :: t, some (p, b :: t)⟩
      else if x = b then .inl ⟨p, t, c.star⟩
      else backtrack
    | [] => backtrack

/-- The answer of the loop, if it comes within so many turns. -/
def wildcardRun : ℕ → Cursor → Option Bool
  | 0, _ => none
  | n + 1, c =>
    match wildcardStep c with
    | .inl c => wildcardRun n c
    | .inr answer => some answer

theorem wildcardLoop_succ (fuel : ℕ) (c : Cursor) :
    wildcardLoop (fuel + 1) c.p c.t c.star =
      match wildcardStep c with
      | .inl c' => wildcardLoop fuel c'.p c'.t c'.star
      | .inr answer => answer := by
  obtain ⟨p, t, star⟩ := c
  cases t with
  | nil => rfl
  | cons b t =>
    cases p with
    | nil => cases star <;> rfl
    | cons x p =>
      simp only [wildcardLoop, wildcardStep]
      split_ifs
      · rfl
      · rfl
      · cases star <;> rfl

/-- The loop with as much fuel has the answer. -/
theorem wildcardLoop_eq {n : ℕ} {c : Cursor} {answer : Bool} (h : wildcardRun n c = some answer) :
    wildcardLoop n c.p c.t c.star = answer := by
  induction n generalizing c with
  | zero => cases h
  | succ n ih =>
    rw [wildcardLoop_succ]
    rw [wildcardRun] at h
    split at h
    · exact ih h
    · exact Option.some.inj h

/-- More turns do not change the answer. -/
theorem wildcardRun_mono {n m : ℕ} {c : Cursor} {answer : Bool}
    (h : wildcardRun n c = some answer) (hle : n ≤ m) : wildcardRun m c = some answer := by
  induction n generalizing c m with
  | zero => cases h
  | succ n ih =>
    obtain ⟨m, rfl⟩ := Nat.exists_eq_add_of_le' (Nat.lt_of_lt_of_le (Nat.succ_pos n) hle)
    rw [wildcardRun] at h ⊢
    split at h
    · exact ih h (by omega)
    · exact h

/-! ## What a position can still match -/

/-- A position matches what is left, or the last star takes one more byte. -/
def Hope (c : Cursor) : Prop :=
  Globs starByte c.p c.t ∨
    ∃ sp st, c.star = some (sp, st) ∧ Globs starByte (starByte :: sp) st.tail

/-- The last star was followed by bytes that stand for themselves. -/
structure Follows (N : ℕ) (c : Cursor) : Prop where
  pattern : c.p.length ≤ N
  star : ∀ sp st, c.star = some (sp, st) →
    sp.length ≤ N ∧ ∃ lit, starByte ∉ lit ∧ sp = lit ++ c.p ∧ st = lit ++ c.t

/-- What the turns count down: the text the last star may still take, then the pattern. -/
def turnsLeft (N : ℕ) (c : Cursor) : ℕ :=
  ((c.star.map fun s => s.2.length).getD c.t.length) * (N + 1) + c.p.length

/-- A turn goes on with the same hope, or the answer is whether there is any. -/
def StepSpec (N : ℕ) (c : Cursor) : Cursor ⊕ Bool → Prop
  | .inl c' => Follows N c' ∧ turnsLeft N c' < turnsLeft N c ∧ (Hope c' ↔ Hope c)
  | .inr answer => answer = true ↔ Hope c

section

variable {N : ℕ} {p t sp st : List UInt8} {b x : UInt8} {star : Option (List UInt8 × List UInt8)}

/-- At the end of the text only stars may be left. -/
theorem end_spec (h : Follows N ⟨p, [], star⟩) :
    StepSpec N ⟨p, [], star⟩ (.inr (p.all (· == starByte))) := by
  have hall : p.all (· == starByte) = true ↔ Globs starByte p [] := by
    rw [globs_empty, List.all_eq_true]
    simp
  refine hall.trans ⟨.inl, ?_⟩
  rintro (hg | ⟨sp, st, rfl, hg⟩)
  · exact hg
  · obtain ⟨-, lit, hlit, (rfl : sp = lit ++ p), (rfl : st = lit ++ [])⟩ := h.star sp st rfl
    rw [List.append_nil] at hg
    cases lit with
    | nil => exact globs_star_nil.mp hg
    | cons c lit =>
      -- the letters behind the star are longer than the text it has left
      obtain ⟨s, u, hu, hs⟩ := globs_star.mp hg
      obtain ⟨v, rfl, -⟩ := (globs_letters hlit).mp hs
      have hlen := congrArg List.length hu
      simp only [List.tail_cons, List.length_append, List.length_cons] at hlen
      omega

/-- A new star makes the last one superfluous. -/
theorem star_spec (h : Follows N ⟨starByte :: p, b :: t, star⟩) :
    StepSpec N ⟨starByte :: p, b :: t, star⟩ (.inl ⟨p, b :: t, some (p, b :: t)⟩) := by
  have hp : p.length + 1 ≤ N := h.pattern
  refine ⟨⟨show p.length ≤ N by omega, ?_⟩, ?_, ?_⟩
  · rintro sp st hstar
    cases hstar
    exact ⟨by omega, [], List.not_mem_nil, rfl, rfl⟩
  · cases star with
    | none => simp [turnsLeft]
    | some s =>
      obtain ⟨-, lit, -, -, hst⟩ := h.star s.1 s.2 rfl
      have hle : (t.length + 1) * (N + 1) ≤ s.2.length * (N + 1) := by
        refine Nat.mul_le_mul_right _ ?_
        rw [hst, List.length_append, List.length_cons]
        omega
      simp only [turnsLeft, Option.map_some, Option.getD_some, List.length_cons]
      omega
  · have hnew : Hope ⟨p, b :: t, some (p, b :: t)⟩ ↔
        Globs starByte (starByte :: p) (b :: t) := by
      rw [globs_star_tail]
      simp [Hope]
    rw [hnew]
    refine ⟨.inl, ?_⟩
    rintro (hg | ⟨sp, st, hstar, hg⟩)
    · exact hg
    · obtain ⟨-, lit, hlit, rfl, rfl⟩ := h.star sp st hstar
      exact globs_leftmost hlit hg (List.tail_suffix _)

/-- A letter stands for itself. -/
theorem letter_spec (hx : x ≠ starByte) (h : Follows N ⟨x :: p, x :: t, star⟩) :
    StepSpec N ⟨x :: p, x :: t, star⟩ (.inl ⟨p, t, star⟩) := by
  have hp : p.length + 1 ≤ N := h.pattern
  refine ⟨⟨show p.length ≤ N by omega, ?_⟩, ?_, ?_⟩
  · rintro sp st hstar
    obtain ⟨hle, lit, hlit, rfl, rfl⟩ := h.star sp st hstar
    refine ⟨hle, lit ++ [x], ?_, by simp, by simp⟩
    rw [List.mem_append, List.mem_singleton, not_or]
    exact ⟨hlit, hx.symm⟩
  · cases star with
    | none =>
      simp only [turnsLeft, Option.map_none, Option.getD_none, List.length_cons, Nat.add_mul]
      omega
    | some s =>
      simp only [turnsLeft, Option.map_some, Option.getD_some, List.length_cons]
      omega
  · refine or_congr ?_ Iff.rfl
    rw [globs_letter hx]
    simp

/-- Where nothing matches, the last star takes one more byte. -/
theorem backtrack_spec : ¬ Globs starByte p (b :: t) → Follows N ⟨p, b :: t, star⟩ →
    StepSpec N ⟨p, b :: t, star⟩
      (match star with
      | some (sp, st) => .inl ⟨sp, st.tail, some (sp, st.tail)⟩
      | none => .inr false) := by
  intro hfail h
  cases star with
  | none =>
    refine iff_of_false Bool.false_ne_true ?_
    rintro (hg | ⟨sp, st, hstar, -⟩)
    · exact hfail hg
    · cases hstar
  | some s =>
    obtain ⟨sp, st⟩ := s
    obtain ⟨hsp, lit, -, hlit, hst⟩ := h.star sp st rfl
    refine ⟨⟨hsp, ?_⟩, ?_, ?_⟩
    · rintro sp' st' hstar
      cases hstar
      exact ⟨hsp, [], List.not_mem_nil, rfl, rfl⟩
    · obtain ⟨c, st', rfl⟩ : ∃ c st', st = c :: st' := by
        cases st with
        | nil => simp at hst
        | cons c st' => exact ⟨c, st', rfl⟩
      simp only [turnsLeft, Option.map_some, Option.getD_some, List.tail_cons, List.length_cons,
        Nat.add_mul]
      omega
    · have hold : Hope ⟨p, b :: t, some (sp, st)⟩ ↔ Globs starByte (starByte :: sp) st.tail := by
        simp [Hope, hfail]
      rw [hold, globs_star_tail]
      simp [Hope]

end

/-- **A turn keeps the hope of the position**, and there are fewer turns left after it. -/
theorem step_spec {N : ℕ} {c : Cursor} (h : Follows N c) : StepSpec N c (wildcardStep c) := by
  obtain ⟨p, t, star⟩ := c
  cases t with
  | nil => exact end_spec h
  | cons b t =>
    cases p with
    | nil => exact backtrack_spec (by rw [globs_nil]; exact List.cons_ne_nil b t) h
    | cons x p =>
      simp only [wildcardStep]
      split_ifs with hstar hb
      · rw [hstar] at h ⊢
        exact star_spec h
      · rw [← hb] at h ⊢
        exact letter_spec hstar h
      · refine backtrack_spec ?_ h
        rw [globs_letter hstar]
        rintro ⟨u, hu, -⟩
        exact hb (List.cons.inj hu).1.symm

/-- The loop ends with the answer. -/
theorem run_spec {N n : ℕ} {c : Cursor} (h : Follows N c) (hn : turnsLeft N c < n) :
    ∃ answer, wildcardRun n c = some answer ∧ (answer = true ↔ Hope c) := by
  induction n generalizing c with
  | zero => omega
  | succ n ih =>
    have hstep := step_spec h
    rw [wildcardRun]
    cases hc : wildcardStep c with
    | inl c' =>
      rw [hc] at hstep
      obtain ⟨h', hless, hhope⟩ := hstep
      obtain ⟨answer, hrun, hanswer⟩ := ih h' (by omega)
      exact ⟨answer, hrun, hanswer.trans hhope⟩
    | inr answer =>
      rw [hc] at hstep
      exact ⟨answer, rfl, hstep⟩

/-! ## Bytes and characters -/

/-- **UTF-8 is self-synchronising.** -/
theorem utf8_sync : SelfSync String.utf8EncodeChar UInt8.IsUTF8FirstByte where
  apart := by
    intro c d x y h
    have hdecode : ∀ (c : Char) (x : List UInt8),
        (String.utf8EncodeChar c ++ x).toByteArray.utf8DecodeChar? 0 = some c := by
      intro c x
      rw [List.toByteArray_append]
      exact ByteArray.utf8DecodeChar?_utf8EncodeChar_append
    exact Option.some.inj ((hdecode c x).symm.trans (h ▸ hdecode d y))
  begins := by
    intro c
    have hfirst : ∀ (i : ℕ) (hi : i < (String.utf8EncodeChar c).length),
        (String.utf8EncodeChar c)[i].IsUTF8FirstByte ↔ i = 0 := fun i hi =>
      UInt8.isUTF8FirstByte_getElem_utf8EncodeChar
    generalize hbs : String.utf8EncodeChar c = bs at hfirst
    cases bs with
    | nil => exact absurd hbs String.utf8EncodeChar_ne_nil
    | cons b bs =>
      refine ⟨b, bs, rfl, (hfirst 0 (by simp)).mpr rfl, fun x hx hbyte => ?_⟩
      obtain ⟨i, hi, rfl⟩ := List.mem_iff_getElem.mp hx
      exact absurd ((hfirst (i + 1) (by simpa using hi)).mp hbyte) (by omega)

/-- A pattern means the same over the bytes and over the characters. -/
theorem globs_bytes (pattern model : String) :
    Globs starByte (bytes pattern) (bytes model) ↔ Globs '*' pattern.toList model.toList := by
  rw [bytes_eq_flatMap, bytes_eq_flatMap]
  refine globs_flatMap utf8_sync (by decide) fun c hc hmem => hc ?_
  rw [mem_utf8EncodeChar (by decide)] at hmem
  exact Char.ext (UInt32.toNat_inj.mp hmem)

/-! ## The matcher -/

/-- **Wildcard matching is exact**: the loop ends, it accepts exactly the texts in the language of
the pattern over the bytes, and these are those in its language over the characters. -/
theorem wildcardMatch_exact (pattern model : String) :
    wildcardRun (((bytes model).length + 1) * ((bytes pattern).length + 1))
      ⟨bytes pattern, bytes model, none⟩ = some (wildcardMatch pattern model) ∧
    (wildcardMatch pattern model = true ↔ Globs starByte (bytes pattern) (bytes model)) ∧
    (wildcardMatch pattern model = true ↔ Globs '*' pattern.toList model.toList) := by
  have hfollows : Follows (bytes pattern).length ⟨bytes pattern, bytes model, none⟩ :=
    ⟨le_rfl, fun _ _ h => by cases h⟩
  have hturns : turnsLeft (bytes pattern).length ⟨bytes pattern, bytes model, none⟩ <
      ((bytes model).length + 1) * ((bytes pattern).length + 1) := by
    simp only [turnsLeft, Option.map_none, Option.getD_none, Nat.add_mul]
    omega
  obtain ⟨answer, hrun, hanswer⟩ := run_spec hfollows hturns
  have hmatch : wildcardMatch pattern model = answer := by
    refine wildcardLoop_eq (wildcardRun_mono hrun ?_)
    rw [Nat.mul_comm]
    exact Nat.mul_le_mul (by omega) (by omega)
  have hexact : wildcardMatch pattern model = true ↔
      Globs starByte (bytes pattern) (bytes model) := by
    rw [hmatch, hanswer]
    simp [Hope]
  exact ⟨hmatch ▸ hrun, hexact, hexact.trans (globs_bytes pattern model)⟩

end Llmleaf
