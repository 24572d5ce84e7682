import Mathlib.Data.List.Induction

/-!
# Streams of bracketed blocks

A stream of frames in which blocks follow one another: each is opened by one frame, filled by
others and closed by one, under a tag that the three kinds of frames share; the tags are numbered
from 0 on.

- `Bracketed G n open? frames`: the stream so far, with `n` blocks begun and at most one open. It
  has one constructor for each thing a writer of such a stream can do.
- `Bracketed.blocks`: a stream with no open block is a list of whole blocks, the `i`-th of them
  with number `i`.
-/

/-- Which frames open, fill and close the block of a tag, and the number of the tag. -/
structure BlockGrammar (τ φ : Type*) where
  number : τ → ℕ
  opens : τ → φ → Prop
  fills : τ → φ → Prop
  closes : τ → φ → Prop

namespace BlockGrammar

variable {τ φ : Type*} (G : BlockGrammar τ φ)

/-- A whole block: the opening frame, the frames inside, the closing frame. -/
def IsBlock (t : τ) (frames : List φ) : Prop :=
  ∃ first inner last, frames = first :: inner ++ [last] ∧
    G.opens t first ∧ (∀ f ∈ inner, G.fills t f) ∧ G.closes t last

/-- Whole blocks, the `i`-th with number `i`. -/
def Numbered (blocks : List (List φ)) : Prop :=
  ∀ i block, blocks[i]? = some block → ∃ t, G.number t = i ∧ G.IsBlock t block

/-- The frames so far, the number of blocks begun, and the tag of the open block. -/
inductive Bracketed : ℕ → Option τ → List φ → Prop
  | nil : Bracketed 0 none []
  | opened {n frames t f} : Bracketed n none frames → G.number t = n → G.opens t f →
      Bracketed (n + 1) (some t) (frames ++ [f])
  | filled {n frames t f} : Bracketed n (some t) frames → G.fills t f →
      Bracketed n (some t) (frames ++ [f])
  | closed {n frames t f} : Bracketed n (some t) frames → G.closes t f →
      Bracketed n none (frames ++ [f])

variable {G}

theorem Numbered.nil : G.Numbered [] := by
  intro i block h
  simp at h

/-- One more block, with the next number. -/
theorem Numbered.snoc {blocks : List (List φ)} {block : List φ} {t : τ} (h : G.Numbered blocks)
    (ht : G.number t = blocks.length) (hb : G.IsBlock t block) :
    G.Numbered (blocks ++ [block]) := by
  intro i b hi
  rw [List.getElem?_append] at hi
  split at hi
  · exact h i b hi
  · rename_i hlt
    obtain ⟨hlen, heq⟩ := List.getElem?_eq_some_iff.mp hi
    simp only [List.length_singleton] at hlen
    simp only [List.getElem_singleton] at heq
    exact ⟨t, by omega, heq ▸ hb⟩

namespace Bracketed

/-- The whole blocks so far, and the beginning of the open one. -/
theorem split {n : ℕ} {t? : Option τ} {frames : List φ} (h : G.Bracketed n t? frames) :
    ∃ blocks, G.Numbered blocks ∧ match t? with
      | none => frames = blocks.flatten ∧ blocks.length = n
      | some t => ∃ first inner, frames = blocks.flatten ++ first :: inner ∧
          blocks.length + 1 = n ∧ G.number t = blocks.length ∧ G.opens t first ∧
          ∀ f ∈ inner, G.fills t f := by
  induction h with
  | nil => exact ⟨[], .nil, rfl, rfl⟩
  | @opened n frames t f _ ht hf ih =>
    obtain ⟨blocks, hblocks, rfl, hlen⟩ := ih
    exact ⟨blocks, hblocks, f, [], rfl, by omega, by omega, hf, by simp⟩
  | @filled n frames t f _ hf ih =>
    obtain ⟨blocks, hblocks, first, inner, rfl, hlen, ht, hfirst, hinner⟩ := ih
    refine ⟨blocks, hblocks, first, inner ++ [f], by simp, hlen, ht, hfirst, fun g hg => ?_⟩
    rcases List.mem_append.mp hg with hg | hg
    · exact hinner g hg
    · rw [List.mem_singleton.mp hg]
      exact hf
  | @closed n frames t f _ hf ih =>
    obtain ⟨blocks, hblocks, first, inner, rfl, hlen, ht, hfirst, hinner⟩ := ih
    have hblock : G.IsBlock t (first :: inner ++ [f]) :=
      ⟨first, inner, f, rfl, hfirst, hinner, hf⟩
    exact ⟨blocks ++ [first :: inner ++ [f]], hblocks.snoc ht hblock, by simp, by simp [hlen]⟩

/-- **A stream with no open block is a list of whole blocks**, numbered from 0 on. -/
theorem blocks {n : ℕ} {frames : List φ} (h : G.Bracketed n none frames) :
    ∃ blocks, frames = blocks.flatten ∧ blocks.length = n ∧ G.Numbered blocks := by
  obtain ⟨blocks, hblocks, hframes, hlen⟩ := h.split
  exact ⟨blocks, hframes, hlen, hblocks⟩

/-- Every frame opens, fills or closes a block. -/
theorem mem {n : ℕ} {t? : Option τ} {frames : List φ} (h : G.Bracketed n t? frames) :
    ∀ f ∈ frames, ∃ t, G.opens t f ∨ G.fills t f ∨ G.closes t f := by
  induction h with
  | nil => simp
  | opened _ _ hf ih =>
    exact List.forall_mem_append.mpr ⟨ih, List.forall_mem_singleton.mpr ⟨_, .inl hf⟩⟩
  | filled _ hf ih =>
    exact List.forall_mem_append.mpr ⟨ih, List.forall_mem_singleton.mpr ⟨_, .inr (.inl hf)⟩⟩
  | closed _ hf ih =>
    exact List.forall_mem_append.mpr ⟨ih, List.forall_mem_singleton.mpr ⟨_, .inr (.inr hf)⟩⟩

end Bracketed

end BlockGrammar
