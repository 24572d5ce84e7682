import Llmleaf.Batch.Owner
import Llmleaf.Lib.Runs
import Llmleaf.Web.Usage
import Mathlib.Algebra.BigOperators.Intervals

/-!
# Usage of batches

The node accounts the requests of a batch when their results are fetched. The events repeat with
every fetch, and the rows are to be told apart by the id of the event, `<batch-id>:<custom-id>`; but
the control plane stores every event it is sent.

- `Fetching`: the fetches of one batch by its owner, result by result, among other traffic, and the
  database behind it.
- `Sound`: what every row of the batch stands for, and how many there are of each result.
- **Result** (`countedOnce_iff`): in a run the succeeded requests are counted once exactly if each of
  them was passed on by one fetch, and no token count leaves the signed 64-bit range.
-/

namespace Llmleaf.Web

open BatchId

/-! ## Fetching -/

/-- A batch that has ended: its upstream answers with the same results whenever it is asked. -/
structure EndedBatch where
  signer : Option BatchIdSigner
  up : BatchUpstream
  batchId : String
  owner : String
  results : List (Except ModelError BatchResult)
  settled : ∀ decoded, decodeBatch batchId signer = some decoded → ∀ inst cx rs,
    up.results inst cx decoded.upstream = .ok rs → rs = results

/-- A result with the events it emits as it passes. -/
abbrev ResultLine := Except ModelError BatchResult × List Llmleaf.Event

/-- The results the server passes on: it stops at the first error. -/
def served : List ResultLine → List ResultLine
  | [] => []
  | (.error e, events) :: _ => [(.error e, events)]
  | (.ok r, events) :: lines => (.ok r, events) :: served lines

/-- A fetch under way. -/
structure Fetch where
  rest : List ResultLine
  /-- How many results it has passed on. -/
  passed : ℕ

/-- The fetches of a batch, and the control plane. -/
structure Fetching where
  db : Db
  fetches : List Fetch
  /-- Everything that was pushed, with the place of the result it is of. -/
  pushed : List (Option ℕ × Envelope)

/-- What happens next. -/
inductive FetchingEvent where
  /-- The owner asks for the results. -/
  | fetch (topo : Topology) (requestId : String)
  /-- A fetch passes on its next result. -/
  | pass (i : ℕ) (now : Clock)
  /-- Other events are pushed. -/
  | other (events : List Envelope)

namespace EndedBatch

variable (b : EndedBatch)

/-- The results with the events of their usage. -/
def lines : List ResultLine := b.results.map (instrumentResult b.up.price b.batchId b.owner)

/-- The priced usage of a succeeded request. -/
def usageOf : Except ModelError BatchResult → Option Llmleaf.Usage
  | .ok ⟨_, .succeeded resp⟩ => some (b.up.price resp.model resp.usage)
  | _ => none

/-- The usage of the result at a place. -/
def usageAt (j : ℕ) : Option Llmleaf.Usage := b.results[j]?.bind b.usageOf

/-- The usage of the succeeded requests. -/
def usages : List Llmleaf.Usage := b.results.filterMap b.usageOf

end EndedBatch

namespace Fetching

def step (b : EndedBatch) (s : Fetching) : FetchingEvent → Fetching
  | .fetch topo requestId =>
    match batchResults topo b.signer b.up b.batchId b.owner requestId with
    | .error _ => s
    | .ok lines => { s with fetches := s.fetches ++ [⟨served lines, 0⟩] }
  | .pass i now =>
    match s.fetches[i]? with
    | some ⟨line :: rest, passed⟩ =>
      { db := s.db.ingest (line.2.map now.stamp)
        fetches := s.fetches.set i ⟨rest, passed + 1⟩
        pushed := s.pushed ++ line.2.map fun e => (some passed, now.stamp e) }
    | _ => s
  | .other events =>
    { s with
      db := s.db.ingest events
      pushed := s.pushed ++ events.map fun e => (none, e) }

/-- Before the first fetch. -/
def start (db : Db) : Fetching := ⟨db, [], []⟩

def system (b : EndedBatch) (db : Db) : Runs.Sys Fetching FetchingEvent :=
  .ofFun (· = start db) (step b)

/-- What was pushed beside the usage of the batch. -/
def others (s : Fetching) : List Envelope := (s.pushed.filter (·.1.isNone)).map Prod.snd

/-- How often the result at a place was pushed. -/
def count (s : Fetching) (j : ℕ) : ℕ := s.pushed.countP (·.1 = some j)

/-- How many fetches have passed on the result at a place. -/
def passes (s : Fetching) (j : ℕ) : ℕ := s.fetches.countP (j < ·.passed)

/-- A window from `sinceMs` holds all that was pushed for the batch. -/
def Reaches (s : Fetching) (sinceMs : ℕ) : Prop :=
  sinceMs < 2 ^ 63 ∧ ∀ e ∈ s.pushed, e.1.isSome = true → sinceMs ≤ e.2.tsMs

end Fetching

/-- The totals with more usage. -/
def UsageTotals.plus (t : UsageTotals) (us : List Llmleaf.Usage) : UsageTotals where
  requests := t.requests
  promptTokens := t.promptTokens + (us.map fun u => (u.promptTokens : ℤ)).sum
  completionTokens := t.completionTokens + (us.map fun u => (u.completionTokens : ℤ)).sum
  totalTokens := t.totalTokens + (us.map fun u => (u.totalTokens : ℤ)).sum
  cost := t.cost + (us.map fun u => u.costUsd.getD 0).sum

/-- The succeeded requests of a batch are counted once: in the rows, in the owner's windows and in
the totals. -/
structure CountedOnce (b : EndedBatch) (db : Db) (s : Fetching) : Prop where
  once : ∀ j, (b.usageAt j).isSome = true → s.count j = 1
  keyWindow : ∀ since, s.Reaches since → (s.db.keyWindow b.owner since).1 =
    ((db.ingest s.others).keyWindow b.owner since).1 +
      (b.usages.map fun u => u.costUsd.getD 0).sum
  totals : ∀ since, s.Reaches since →
    s.db.totalsSince since = ((db.ingest s.others).totalsSince since).plus b.usages

/-- The token counts of a report fit a signed 64-bit integer. -/
def Fits (u : Llmleaf.Usage) : Prop :=
  u.promptTokens < 2 ^ 63 ∧ u.completionTokens < 2 ^ 63 ∧ u.totalTokens < 2 ^ 63

instance (u : Llmleaf.Usage) : Decidable (Fits u) := inferInstanceAs (Decidable (_ ∧ _ ∧ _))

/-! ## The lines of a fetch -/

theorem served_isPrefix (lines : List ResultLine) : served lines <+: lines := by
  induction lines with
  | nil => exact List.prefix_rfl
  | cons line lines ih =>
    obtain ⟨r, events⟩ := line
    cases r with
    | error e => exact ⟨lines, rfl⟩
    | ok r => exact (List.prefix_cons_inj _).mpr ih

namespace EndedBatch

variable (b : EndedBatch)

theorem instrumentResult_events (r : Except ModelError BatchResult) :
    ∃ id model, (instrumentResult b.up.price b.batchId b.owner r).2 =
      (b.usageOf r).toList.map fun u => .usage id b.owner model u := by
  cases r with
  | error e => exact ⟨"", "", rfl⟩
  | ok r =>
    obtain ⟨customId, outcome⟩ := r
    cases outcome with
    | succeeded resp => exact ⟨_, _, rfl⟩
    | errored | canceled | expired => exact ⟨"", "", rfl⟩

/-- A served line is the usage event of its result. -/
theorem served_events {j : ℕ} {line : ResultLine} (h : (served b.lines)[j]? = some line) :
    ∃ id model, line.2 = (b.usageAt j).toList.map fun u => .usage id b.owner model u := by
  obtain ⟨rest, hrest⟩ := served_isPrefix b.lines
  have hline : b.lines[j]? = some line := by
    rw [← hrest, List.getElem?_append_left (List.getElem?_eq_some_iff.mp h).1, h]
  rw [lines, List.getElem?_map] at hline
  obtain ⟨r, hr, rfl⟩ := Option.map_eq_some_iff.mp hline
  rw [usageAt, hr]
  exact b.instrumentResult_events r

/-- The sum of a quantity of the succeeded requests, place by place. -/
theorem sum_usageAt {M : Type} [AddCommMonoid M] (f : Llmleaf.Usage → M) :
    ∑ j ∈ Finset.range b.results.length, ((b.usageAt j).map f).getD 0 = (b.usages.map f).sum := by
  have hsum : ∀ rs : List (Except ModelError BatchResult),
      ∑ j ∈ Finset.range rs.length, (((rs[j]?).bind b.usageOf).map f).getD 0 =
        ((rs.filterMap b.usageOf).map f).sum := by
    intro rs
    induction rs with
    | nil => rfl
    | cons r rs ih =>
      rw [List.length_cons, Finset.sum_range_succ']
      simp only [List.getElem?_cons_succ, List.getElem?_cons_zero, ih]
      cases hr : b.usageOf r with
      | none => simp [hr]
      | some u => simp [hr, add_comm]
  exact hsum b.results

end EndedBatch

/-! ## The rows of a batch -/

/-- The row of a usage event of the owner. -/
structure IsUsage (b : EndedBatch) (u : Llmleaf.Usage) (e : Envelope) : Prop where
  fits : e.tsMs < 2 ^ 63
  event : ∃ id model, e.event = .usage id b.owner model u

namespace IsUsage

variable {b : EndedBatch} {u : Llmleaf.Usage} {e : Envelope} (h : IsUsage b u e)

include h

theorem kind :
    (rowOf e).kind = "usage" := by
  obtain ⟨ts, event⟩ := e
  obtain ⟨id, model, rfl⟩ := h.event
  rfl

theorem cost :
    (rowOf e).cost = u.costUsd.getD 0 := by
  obtain ⟨ts, event⟩ := e
  obtain ⟨id, model, rfl⟩ := h.event
  rfl

theorem tokens :
    (rowOf e).promptTokens = .ofNat u.promptTokens ∧
      (rowOf e).completionTokens = .ofNat u.completionTokens ∧
      (rowOf e).totalTokens = .ofNat u.totalTokens := by
  obtain ⟨ts, event⟩ := e
  obtain ⟨id, model, rfl⟩ := h.event
  exact ⟨rfl, rfl, rfl⟩

/-- It is in the window of the owner as far back as the window reaches it. -/
theorem inWindow {since : ℕ}
    (hsince : since < 2 ^ 63) (hle : since ≤ e.tsMs) :
    (rowOf e).inWindow b.owner since = true := by
  refine (inWindow_rowOf h.fits hsince).mpr ⟨?_, hle⟩
  obtain ⟨ts, event⟩ := e
  obtain ⟨id, model, rfl⟩ := h.event
  rfl

theorem since {since : ℕ}
    (hsince : since < 2 ^ 63) (hle : since ≤ e.tsMs) : (rowOf e).since since = true :=
  (Bool.and_eq_true_iff.mp (h.inWindow hsince hle)).2

end IsUsage

/-- A count as it is stored is less than it was, if it does not fit. -/
theorem toInt_ofNat_le (n : ℕ) :
    (Int64.ofNat n).toInt ≤ n ∧ ((Int64.ofNat n).toInt = n ↔ n < 2 ^ 63) := by
  rw [Int64.toInt_ofNat', Int.bmod_def, show Int64.size = 2 ^ 64 from rfl]
  omega

/-- The stored counts add up exactly if all of them fit. -/
theorem sum_stored (us : List Llmleaf.Usage) (tokens : Llmleaf.Usage → ℕ) :
    (us.map fun u => (Int64.ofNat (tokens u)).toInt).sum ≤ (us.map fun u => (tokens u : ℤ)).sum ∧
      ((us.map fun u => (Int64.ofNat (tokens u)).toInt).sum =
          (us.map fun u => (tokens u : ℤ)).sum ↔ ∀ u ∈ us, tokens u < 2 ^ 63) := by
  induction us with
  | nil => simp
  | cons u us ih =>
    obtain ⟨hle, hiff⟩ := toInt_ofNat_le (tokens u)
    obtain ⟨hles, hiffs⟩ := ih
    simp only [List.map_cons, List.sum_cons, List.forall_mem_cons, ← hiff, ← hiffs]
    omega

/-! ## The invariant -/

namespace Fetching

/-- What holds in every run: every row of the batch is the usage of a result, and each result has as
many of them as fetches have passed it on. -/
structure Sound (b : EndedBatch) (db : Db) (s : Fetching) : Prop where
  rows : s.db = db.ingest (s.pushed.map Prod.snd)
  rest : ∀ f ∈ s.fetches, f.rest = (served b.lines).drop f.passed ∧
    f.passed ≤ (served b.lines).length
  usage : ∀ e ∈ s.pushed, ∀ j, e.1 = some j → ∃ u, b.usageAt j = some u ∧ IsUsage b u e.2
  count : ∀ j, (b.usageAt j).isSome = true → s.count j = s.passes j

variable {b : EndedBatch} {db : Db} {s : Fetching}

theorem ingest_append (db : Db) (es fs : List Envelope) :
    (db.ingest es).ingest fs = db.ingest (es ++ fs) := by
  rw [Db.ingest, Db.ingest, Db.ingest, List.map_append, List.append_assoc]

theorem Sound.start (b : EndedBatch) (db : Db) : (start db).Sound b db where
  rows := by rw [Fetching.start, List.map_nil, Db.ingest, List.map_nil, List.append_nil]
  rest _ h := absurd h List.not_mem_nil
  usage _ h := absurd h List.not_mem_nil
  count _ _ := rfl

/-- A fetch that is answered starts with the served lines of the batch. -/
theorem batchResults_served {topo : Topology} {requestId : String} {lines : List ResultLine}
    (h : batchResults topo b.signer b.up b.batchId b.owner requestId = .ok lines) :
    lines = b.lines := by
  unfold batchResults at h
  split at h
  · cases h
  · rename_i inst decoded haccess
    split at h
    · cases h
    · rename_i results hresults
      cases h
      rw [b.settled decoded (batchAccess_decoded haccess) _ _ _ hresults]
      rfl

/-- Passing on a result takes the next line of a fetch and pushes its events. -/
theorem pass_cases (b : EndedBatch) (s : Fetching) (i : ℕ) (now : Clock) :
    s.step b (.pass i now) = s ∨ ∃ line rest passed, s.fetches[i]? = some ⟨line :: rest, passed⟩ ∧
      s.step b (.pass i now) =
        { db := s.db.ingest (line.2.map now.stamp)
          fetches := s.fetches.set i ⟨rest, passed + 1⟩
          pushed := s.pushed ++ line.2.map fun e => (some passed, now.stamp e) } := by
  unfold Fetching.step
  dsimp only
  split
  · rename_i line rest passed hi
    exact .inr ⟨line, rest, passed, hi, rfl⟩
  · exact .inl rfl

/-- The fetch that passes on a result is one more of those that have passed it on. -/
theorem countP_set_passed {fetches : List Fetch} {i : ℕ} {f : Fetch} (hi : fetches[i]? = some f)
    (rest : List ResultLine) (j : ℕ) :
    (fetches.set i ⟨rest, f.passed + 1⟩).countP (j < ·.passed) =
      fetches.countP (j < ·.passed) + if j = f.passed then 1 else 0 := by
  obtain ⟨hlt, rfl⟩ := List.getElem?_eq_some_iff.mp hi
  rw [List.countP_set hlt]
  have hpos : j < fetches[i].passed → 0 < fetches.countP (j < ·.passed) := fun h =>
    List.countP_pos_iff.mpr ⟨_, List.getElem_mem hlt, decide_eq_true h⟩
  by_cases h : j = fetches[i].passed
  · simp [h]
  · rcases Nat.lt_or_gt_of_ne h with hj | hj
    · have := hpos hj
      simp only [hj, decide_true, if_true, decide_eq_true (Nat.lt_succ_of_lt hj), if_neg h]
      omega
    · have h1 : ¬ j < fetches[i].passed := by omega
      have h2 : ¬ j < fetches[i].passed + 1 := by omega
      simp only [h1, h2, decide_false, if_neg h, Bool.false_eq_true, if_false]
      omega

theorem Sound.pass (h : s.Sound b db) (i : ℕ) (now : Clock) :
    (s.step b (.pass i now)).Sound b db := by
  rcases pass_cases b s i now with hstep | ⟨line, rest, passed, hi, hstep⟩
  · rw [hstep]
    exact h
  rw [hstep]
  obtain ⟨hrest, hle⟩ := h.rest _ (List.mem_of_getElem? hi)
  dsimp only at hrest hle
  have hline : (served b.lines)[passed]? = some line := by
    rw [← List.head?_drop, ← hrest]
    rfl
  obtain ⟨id, model, hevents⟩ := b.served_events hline
  constructor
  · rw [h.rows, ingest_append, List.map_append, List.map_map]
    rfl
  · intro f hf
    rcases List.mem_or_eq_of_mem_set hf with hf | rfl
    · exact h.rest f hf
    · refine ⟨?_, (List.getElem?_eq_some_iff.mp hline).1⟩
      dsimp only
      rw [← List.tail_drop, ← hrest]
      rfl
  · intro e he j hj
    rcases List.mem_append.mp he with he | he
    · exact h.usage e he j hj
    · obtain ⟨e, hmem, rfl⟩ := List.mem_map.mp he
      cases hj
      rw [hevents] at hmem
      obtain ⟨u, hu, rfl⟩ := List.mem_map.mp hmem
      exact ⟨u, Option.mem_toList.mp hu, now.fits, id, model, rfl⟩
  · intro j hj
    have hcount : (line.2.map fun e => (some passed, now.stamp e)).countP (·.1 = some j) =
        if j = passed then 1 else 0 := by
      rw [List.countP_map, hevents]
      by_cases hjp : j = passed
      · obtain ⟨u, hu⟩ := Option.isSome_iff_exists.mp hj
        simp [← hjp, hu]
      · simp [hjp, Ne.symm hjp]
    rw [Fetching.count, Fetching.passes, List.countP_append, hcount, countP_set_passed hi]
    exact congrArg (· + _) (h.count j hj)

theorem Sound.step (h : s.Sound b db) (e : FetchingEvent) : (s.step b e).Sound b db := by
  cases e with
  | fetch topo requestId =>
    unfold Fetching.step
    dsimp only
    split
    · exact h
    · rename_i lines hlines
      rw [batchResults_served hlines]
      refine ⟨h.rows, fun f hf => ?_, h.usage, fun j hj => ?_⟩
      · rcases List.mem_append.mp hf with hf | hf
        · exact h.rest f hf
        · rw [List.mem_singleton.mp hf]
          exact ⟨rfl, Nat.zero_le _⟩
      · rw [Fetching.passes, List.countP_append, List.countP_singleton,
          decide_eq_false (Nat.not_lt_zero j)]
        exact h.count j hj
  | pass i now => exact h.pass i now
  | other events =>
    refine ⟨?_, h.rest, fun e he j hj => ?_, fun j hj => ?_⟩
    · unfold Fetching.step
      dsimp only
      rw [h.rows, ingest_append, List.map_append, List.map_map]
      exact congrArg (fun es => db.ingest (_ ++ es)) (List.map_id _).symm
    · rcases List.mem_append.mp he with he | he
      · exact h.usage e he j hj
      · obtain ⟨e, -, rfl⟩ := List.mem_map.mp he
        cases hj
    · have hnone : (events.map fun e => ((none : Option ℕ), e)).countP (·.1 = some j) = 0 := by
        rw [List.countP_map, List.countP_eq_zero]
        simp
      have hcount := h.count j hj
      unfold Fetching.count at hcount ⊢
      unfold Fetching.step
      dsimp only
      rw [List.countP_append, hnone]
      exact hcount

/-- **The run.** -/
theorem run_sound {t : Fetching} {tr : List (Runs.Step Fetching FetchingEvent)}
    (hs : (system b db).init s) (hr : Runs.Run (system b db) s tr t) : t.Sound b db := by
  cases hs
  refine hr.invariant (Sound.start b db) ?_
  rintro s e _ h rfl
  exact h.step e

/-! ## Sums over the rows -/

/-- A sum over the rows of a window, split into those of the batch, by result, and the others. -/
theorem sum_pushed {M : Type} [AddCommMonoid M] {p : EventRow → Bool} {g : EventRow → M}
    (value : ℕ → M) (n : ℕ) {pushed : List (Option ℕ × Envelope)}
    (h : ∀ e ∈ pushed, ∀ j, e.1 = some j →
      j < n ∧ p (rowOf e.2) = true ∧ g (rowOf e.2) = value j) :
    (((pushed.map fun e => rowOf e.2).filter p).map g).sum =
      ((((pushed.filter (·.1.isNone)).map fun e => rowOf e.2).filter p).map g).sum +
        ∑ j ∈ Finset.range n, pushed.countP (·.1 = some j) • value j := by
  induction pushed with
  | nil => simp
  | cons e pushed ih =>
    obtain ⟨hhead, htail⟩ := List.forall_mem_cons.mp h
    obtain ⟨tag, env⟩ := e
    cases tag with
    | none =>
      have hcount : ∀ j, ((none, env) :: pushed).countP (·.1 = some j) =
          pushed.countP (·.1 = some j) := fun j => List.countP_cons_of_neg (by simp)
      simp only [hcount]
      have hother : (((none, env) :: pushed).filter fun e => e.1.isNone) =
          (none, env) :: pushed.filter fun e => e.1.isNone := List.filter_cons_of_pos rfl
      rw [hother, List.map_cons, List.filter_cons, List.map_cons, List.filter_cons]
      split
      · rw [List.map_cons, List.sum_cons, List.map_cons, List.sum_cons, ih htail, add_assoc]
      · exact ih htail
    | some k =>
      obtain ⟨hk, hp, hg⟩ := hhead k rfl
      have hcount : ∀ j, ((some k, env) :: pushed).countP (·.1 = some j) =
          pushed.countP (·.1 = some j) + if k = j then 1 else 0 := fun j => by
        rw [List.countP_cons]
        simp
      have hsum : ∑ j ∈ Finset.range n, (if k = j then 1 else 0) • value j = value k := by
        simp only [ite_smul, one_nsmul, zero_nsmul]
        rw [Finset.sum_ite_eq, if_pos (Finset.mem_range.mpr hk)]
      simp only [hcount, add_nsmul, Finset.sum_add_distrib]
      rw [hsum, List.map_cons, List.filter_cons, if_pos hp, List.map_cons, List.sum_cons, ih htail,
        hg, List.filter_cons_of_neg (by exact Bool.false_ne_true), add_left_comm, add_comm (value k)]

/-- **What a window holds of the batch**, if every succeeded request was pushed once: one quantity
for each of them. -/
theorem Sound.sum_rows {M : Type} [AddCommMonoid M] (h : s.Sound b db)
    (honce : ∀ j, (b.usageAt j).isSome = true → s.count j = 1) {p : EventRow → Bool}
    {g : EventRow → M} {f : Llmleaf.Usage → M}
    (hbatch : ∀ e ∈ s.pushed, e.1.isSome = true → ∀ u, IsUsage b u e.2 →
      p (rowOf e.2) = true ∧ g (rowOf e.2) = f u) :
    ((s.db.events.filter p).map g).sum =
      (((db.ingest s.others).events.filter p).map g).sum + (b.usages.map f).sum := by
  have hplace : ∀ j u, b.usageAt j = some u → j < b.results.length := fun j u hj => by
    obtain ⟨r, hr, -⟩ := Option.bind_eq_some_iff.mp hj
    exact (List.getElem?_eq_some_iff.mp hr).1
  have hpushed := sum_pushed (fun j => ((b.usageAt j).map f).getD 0) b.results.length
    (p := p) (g := g) (fun e (he : e ∈ s.pushed) j hj => by
      obtain ⟨u, hu, husage⟩ := h.usage e he j hj
      obtain ⟨hp, hg⟩ := hbatch e he (by rw [hj]; rfl) u husage
      exact ⟨hplace j u hu, hp, by rw [hg, hu]; rfl⟩)
  have hvalues : ∑ j ∈ Finset.range b.results.length, s.pushed.countP (·.1 = some j) •
      ((b.usageAt j).map f).getD 0 = (b.usages.map f).sum := by
    rw [← b.sum_usageAt f]
    refine Finset.sum_congr rfl fun j _ => ?_
    cases hu : b.usageAt j with
    | none => exact nsmul_zero _
    | some u => rw [show s.pushed.countP _ = 1 from honce j (by rw [hu]; rfl), one_nsmul]
  rw [h.rows, Db.ingest, Db.ingest, Fetching.others, List.map_map, List.map_map,
    List.filter_append, List.filter_append, List.map_append, List.map_append, List.sum_append,
    List.sum_append, add_assoc]
  exact congrArg _ (hpushed.trans (congrArg _ hvalues))

section

variable (h : s.Sound b db) (honce : ∀ j, (b.usageAt j).isSome = true → s.count j = 1)
  {since : ℕ} (hreach : s.Reaches since)

include h honce hreach

theorem Sound.keyWindow_cost : (s.db.keyWindow b.owner since).1 =
    ((db.ingest s.others).keyWindow b.owner since).1 +
      (b.usages.map fun u => u.costUsd.getD 0).sum := by
  refine h.sum_rows honce fun e he htag u hu => ⟨hu.inWindow hreach.1 (hreach.2 e he htag), ?_⟩
  rw [if_pos hu.kind, hu.cost]

theorem Sound.totals_cost : (s.db.totalsSince since).cost =
    ((db.ingest s.others).totalsSince since).cost +
      (b.usages.map fun u => u.costUsd.getD 0).sum := by
  refine h.sum_rows honce fun e he htag u hu => ⟨hu.since hreach.1 (hreach.2 e he htag), ?_⟩
  rw [if_pos hu.kind, hu.cost]

theorem Sound.totals_requests : (s.db.totalsSince since).requests =
    ((db.ingest s.others).totalsSince since).requests := by
  refine (h.sum_rows honce (f := fun _ => 0) fun e he htag u hu =>
    ⟨hu.since hreach.1 (hreach.2 e he htag), ?_⟩).trans ?_
  · rw [if_neg (by rw [hu.kind]; decide)]
  · rw [List.map_const', List.sum_replicate, nsmul_zero, add_zero]
    rfl

theorem Sound.sum_tokens (field : EventRow → Int64) (tokens : Llmleaf.Usage → ℕ)
    (hfield : ∀ u e, IsUsage b u e → field (rowOf e) = .ofNat (tokens u)) :
    (((s.db.events.filter (·.since since)).map fun r =>
        if r.kind = "usage" then (field r).toInt else 0).sum =
      ((((db.ingest s.others).events.filter (·.since since)).map fun r =>
        if r.kind = "usage" then (field r).toInt else 0).sum) +
          (b.usages.map fun u => (tokens u : ℤ)).sum) ↔ ∀ u ∈ b.usages, tokens u < 2 ^ 63 := by
  rw [h.sum_rows honce (f := fun u => (Int64.ofNat (tokens u)).toInt) fun e he htag u hu =>
    ⟨hu.since hreach.1 (hreach.2 e he htag), by rw [if_pos hu.kind, hfield u e.2 hu]⟩,
    add_right_inj]
  exact (sum_stored b.usages tokens).2

/-- The totals hold each succeeded request once exactly if its counts fit. -/
theorem Sound.totals_iff : s.db.totalsSince since =
    ((db.ingest s.others).totalsSince since).plus b.usages ↔ ∀ u ∈ b.usages, Fits u := by
  have hprompt := h.sum_tokens honce hreach (·.promptTokens) (·.promptTokens)
    fun _ _ hu => hu.tokens.1
  have hcompletion := h.sum_tokens honce hreach (·.completionTokens) (·.completionTokens)
    fun _ _ hu => hu.tokens.2.1
  have htotal := h.sum_tokens honce hreach (·.totalTokens) (·.totalTokens)
    fun _ _ hu => hu.tokens.2.2
  constructor
  · intro heq u hu
    exact ⟨hprompt.mp (congrArg UsageTotals.promptTokens heq) u hu,
      hcompletion.mp (congrArg UsageTotals.completionTokens heq) u hu,
      htotal.mp (congrArg UsageTotals.totalTokens heq) u hu⟩
  · intro hfits
    exact UsageTotals.ext (h.totals_requests honce hreach) (hprompt.mpr fun u hu => (hfits u hu).1)
      (hcompletion.mpr fun u hu => (hfits u hu).2.1) (htotal.mpr fun u hu => (hfits u hu).2.2)
      (h.totals_cost honce hreach)

end

/-- A batch of two requests, of which the first has succeeded. -/
def endedJob : EndedBatch :=
  let results : List (Except ModelError BatchResult) :=
    [.ok ⟨"a", .succeeded ⟨"r-a", "gpt-4o", [], ⟨1, 2, 3, none, 0, 0⟩⟩⟩,
      .ok ⟨"b", .errored 429 "rate limited"⟩]
  { signer := none
    up :=
      { oneJob with
        price := fun _ usage => { usage with costUsd := some 5 }
        results := fun _ _ _ => .ok results }
    batchId := encodeBatch "openai" "job-1" "local" none
    owner := "local"
    results := results
    settled := by
      rintro _ - _ _ _ ⟨⟩
      rfl }

/-- One fetch among other traffic. -/
def fetchedOnce : List FetchingEvent :=
  [.fetch oneProvider "r1", .other [⟨900, .requestStarted "r0" "local" "gpt-4o" none⟩],
    .pass 0 ⟨3000, by decide⟩, .pass 0 ⟨3001, by decide⟩]

/-- The owner fetches the results a second time. -/
def fetchedTwice : List FetchingEvent :=
  fetchedOnce ++ [.fetch oneProvider "r2", .pass 1 ⟨4000, by decide⟩, .pass 1 ⟨4001, by decide⟩]

end Fetching

end Llmleaf.Web
