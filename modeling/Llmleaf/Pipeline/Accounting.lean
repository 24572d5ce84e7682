import Llmleaf.Pipeline

/-!
# Accounting for a stream

A provider may report usage once, at the end of its stream, or update the report as it goes. A
collected response keeps the last report. The instrumented stream debits and accounts for every one.

- `Usage.sum`: reports taken together, `Usage.IsVacant`: a report without a token.
- `drain_events`: the events of an instrumented stream are those of `instrumentStream`.
- `drain_accounts`: what an instrumented stream that ends yields, debits and emits.
- **Result** (`instrument_accounts_once_iff`): what is debited and emitted for a stream is the usage of
  its collected response exactly if every report but the last is vacant.
-/

namespace Llmleaf

open Dispatch (World Pos Dispatched)

/-! ## Reports taken together -/

namespace Usage

/-- Two costs taken together, unknown only if both are. -/
def addCost : Option ℚ → Option ℚ → Option ℚ
  | none, none => none
  | c, c' => some (c.getD 0 + c'.getD 0)

theorem addCost_some (c c' : ℚ) : addCost (some c) (some c') = some (c + c') := rfl

/-- Two reports taken together. -/
def add (a b : Usage) : Usage where
  promptTokens := a.promptTokens + b.promptTokens
  completionTokens := a.completionTokens + b.completionTokens
  totalTokens := a.totalTokens + b.totalTokens
  costUsd := addCost a.costUsd b.costUsd
  cacheReadTokens := a.cacheReadTokens + b.cacheReadTokens
  cacheCreationTokens := a.cacheCreationTokens + b.cacheCreationTokens

/-- All reports of a list taken together. -/
def sum (us : List Usage) : Usage := us.foldr add zero

/-- A report without a token. -/
structure IsVacant (u : Usage) : Prop where
  promptTokens : u.promptTokens = 0
  completionTokens : u.completionTokens = 0
  totalTokens : u.totalTokens = 0
  cacheReadTokens : u.cacheReadTokens = 0
  cacheCreationTokens : u.cacheCreationTokens = 0

@[simp] theorem sum_cons (u : Usage) (us : List Usage) : sum (u :: us) = u.add (sum us) := rfl

theorem sum_totalTokens (us : List Usage) : (sum us).totalTokens = (us.map totalTokens).sum := by
  induction us with
  | nil => rfl
  | cons u us ih => rw [sum_cons, List.map_cons, List.sum_cons, ← ih]; rfl

theorem add_zero (u : Usage) : u.add zero = u := by
  obtain ⟨_, _, _, cost, _, _⟩ := u
  cases cost <;> simp [add, addCost, zero]

end Usage

/-- The cost of a vacant report. -/
theorem ModelPricing.cost_vacant {rate : ModelPricing} {u : Usage} (h : u.IsVacant) :
    rate.cost u = 0 := by
  simp [ModelPricing.cost, h.promptTokens, h.completionTokens]

namespace Pricing

variable (pricing : Pricing) (model : String)

/-- Taken together with a vacant report of the same model, a priced report is what it is. -/
theorem vacant_add {u x : Usage} (h : u.IsVacant) :
    (pricing.price model u).add (pricing.price model x) = pricing.price model x := by
  have hcost : Usage.addCost (pricing.costUsd model u) (pricing.costUsd model x) =
      pricing.costUsd model x := by
    unfold costUsd
    cases pricing.models.lookup model with
    | none => rfl
    | some rate =>
      cases hrate : rate.hasNoRate with
      | true => simp [hrate, Usage.addCost]
      | false => simp [hrate, Usage.addCost_some, ModelPricing.cost_vacant h]
  simp only [Usage.add, price, hcost, h.promptTokens, h.completionTokens, h.totalTokens,
    h.cacheReadTokens, h.cacheCreationTokens, Nat.zero_add]

/-- **Priced reports add up to the last exactly if the others are vacant.** -/
theorem sum_eq_last_iff (us : List Usage) (x : Usage) :
    Usage.sum ((us ++ [x]).map (pricing.price model)) = pricing.price model x ↔
      ∀ u ∈ us, u.IsVacant := by
  constructor
  · intro h
    have hfield : ∀ f : Usage → ℕ, f .zero = 0 → (∀ a b, f (a.add b) = f a + f b) →
        (∀ u, f (pricing.price model u) = f u) → ∀ u ∈ us, f u = 0 := by
      intro f hzero hadd hprice
      have hsum : ∀ vs : List Usage, f (Usage.sum (vs.map (pricing.price model))) =
          (vs.map f).sum := by
        intro vs
        induction vs with
        | nil => exact hzero
        | cons v vs ih => rw [List.map_cons, Usage.sum_cons, hadd, hprice, ih, List.map_cons,
            List.sum_cons]
      have hx := congrArg f h
      rw [hsum, hprice, List.map_append, List.sum_append] at hx
      have hnil : (us.map f).sum = 0 := by simpa using hx
      simpa using List.sum_eq_zero_iff_forall_eq_nat.mp hnil
    exact fun u hu =>
      ⟨hfield Usage.promptTokens rfl (fun _ _ => rfl) (fun _ => rfl) u hu,
        hfield Usage.completionTokens rfl (fun _ _ => rfl) (fun _ => rfl) u hu,
        hfield Usage.totalTokens rfl (fun _ _ => rfl) (fun _ => rfl) u hu,
        hfield Usage.cacheReadTokens rfl (fun _ _ => rfl) (fun _ => rfl) u hu,
        hfield Usage.cacheCreationTokens rfl (fun _ _ => rfl) (fun _ => rfl) u hu⟩
  · intro h
    induction us with
    | nil => exact Usage.add_zero _
    | cons u us ih =>
      rw [List.cons_append, List.map_cons, Usage.sum_cons,
        ih fun v hv => h v (List.mem_cons_of_mem _ hv)]
      exact vacant_add pricing model (h u List.mem_cons_self)

end Pricing

/-! ## Collecting -/

/-- The usage reports among the elements of a stream. -/
def reportsOf {α : Type} (reports : Reports α) (items : List (Except ModelError α)) : List Usage :=
  items.filterMap fun
    | .error _ => none
    | .ok chunk => (reports.report chunk).1

/-- The elements of a stream, unless it fails. -/
def chunksOf {α : Type} (items : List (Except ModelError α)) : Except ModelError (List α) :=
  items.mapM id

/-- Collect a stream into a response. -/
def collect (items : List (Except ModelError StreamChunk)) : Except ModelError ChatResponse :=
  (chunksOf items).map collectChunks

/-- The collected response of an instrumented stream, if it neither fails nor unwinds. -/
def Ended.collected (t : Ended (Yielded StreamChunk)) : Option ChatResponse :=
  match t.answer with
  | .ok y => if y.unwound then none else (collect y.items).toOption
  | _ => none

theorem chunksOf_ok {α : Type} {items : List (Except ModelError α)} {chunks : List α}
    (h : chunksOf items = .ok chunks) : items = chunks.map .ok := by
  induction items generalizing chunks with
  | nil =>
    cases h
    rfl
  | cons item items ih =>
    rw [chunksOf, List.mapM_cons] at h
    cases item with
    | error e => cases h
    | ok chunk =>
      change (chunksOf items >>= fun chunks => pure (chunk :: chunks)) = .ok chunks at h
      cases hrest : chunksOf items with
      | error e =>
        rw [hrest] at h
        cases h
      | ok rest =>
        rw [hrest] at h
        cases h
        rw [List.map_cons, ← ih hrest]

theorem collect_all_ok {items : List (Except ModelError StreamChunk)} {resp : ChatResponse}
    (h : collect items = .ok resp) : ∀ item ∈ items, ∃ chunk, item = .ok chunk := by
  unfold collect at h
  cases hc : chunksOf items with
  | error e =>
    rw [hc] at h
    cases h
  | ok chunks =>
    intro item hitem
    rw [chunksOf_ok hc] at hitem
    obtain ⟨chunk, _, rfl⟩ := List.mem_map.mp hitem
    exact ⟨chunk, rfl⟩

theorem step_usage (acc : Collected) (chunk : StreamChunk) :
    (acc.step chunk).usage = chunk.report.1.getD acc.usage := by
  cases chunk <;> rfl

theorem foldl_step_usage (chunks : List StreamChunk) (acc : Collected) :
    (chunks.foldl Collected.step acc).usage =
      ((chunks.filterMap fun c => c.report.1).getLast?).getD acc.usage := by
  induction chunks generalizing acc with
  | nil => rfl
  | cons chunk chunks ih =>
    rw [List.foldl_cons, ih, step_usage, List.filterMap_cons]
    cases chunk.report.1 with
    | none => rfl
    | some u =>
      dsimp only
      rw [List.getLast?_cons]
      rfl

/-- **A collected response has the last report**, or none. -/
theorem collect_usage {items : List (Except ModelError StreamChunk)} {resp : ChatResponse}
    (h : collect items = .ok resp) :
    resp.usage = ((reportsOf chatReports items).getLast?).getD .zero := by
  unfold collect at h
  cases hc : chunksOf items with
  | error e =>
    rw [hc] at h
    cases h
  | ok chunks =>
    rw [hc] at h
    cases h
    rw [chunksOf_ok hc, reportsOf, List.filterMap_map]
    exact foldl_step_usage chunks .empty

/-! ## What a stream accounts for -/

/-- The usage an event accounts for. -/
def Event.accounts : Event → Option Usage
  | .usage _ _ _ u => some u
  | _ => none

/-- The tokens a list of debits takes from the buckets. -/
def debited (ds : List Debit) : ℕ := (ds.map Debit.tokens).sum

/-- The usage a list of events accounts for. -/
def accounted (es : List Event) : Usage := Usage.sum (es.filterMap Event.accounts)

section

variable {α : Type} (reports : Reports α) (pricing : Pricing) (meanwhile : ℕ → World → World)
  (debitClock : ℕ → Instant) (d : Dispatched (List (Except ModelError α)))

/-- **The events of a stream that ends** are those of its lifecycle. -/
theorem drain_events {finish : Option FinishReason} {items : List (Except ModelError α)} {p : Pos}
    (hunwound : (drain reports pricing meanwhile debitClock d finish items p).unwound = false) :
    (drain reports pricing meanwhile debitClock d finish items p).events =
      instrumentStream pricing.price reports.report d.requestId d.key d.logicalModel true finish
        items := by
  induction items generalizing finish p with
  | nil => rfl
  | cons item items ih =>
    cases item with
    | error e => rfl
    | ok chunk =>
      rw [drain] at hunwound ⊢
      rw [instrumentStream]
      rcases hr : reports.report chunk with ⟨usage, finished⟩
      rw [hr] at hunwound
      cases usage with
      | some u =>
        dsimp only at hunwound ⊢
        rcases hmade : (d.debit (pricing.price d.logicalModel u).totalTokens
          (debitClock (p.pause meanwhile).moments) (p.pause meanwhile)).made with ⟨reply, store⟩
        rw [hmade] at hunwound
        cases reply with
        | panic => cases hunwound
        | ok | wait => exact congrArg _ (ih hunwound)
      | none =>
        cases finished with
        | some reason => exact ih hunwound
        | none => exact ih hunwound

/-- **What a stream that ends accounts for**: every report, priced for its logical model. -/
theorem drain_accounts {finish : Option FinishReason} {items : List (Except ModelError α)} {p : Pos}
    (hunwound : (drain reports pricing meanwhile debitClock d finish items p).unwound = false)
    (hok : ∀ item ∈ (drain reports pricing meanwhile debitClock d finish items p).items,
      ∃ chunk, item = .ok chunk) :
    let s := drain reports pricing meanwhile debitClock d finish items p
    let priced := (reportsOf reports items).map (pricing.price d.logicalModel)
    reportsOf reports s.items = priced ∧ s.debits.map Debit.tokens = priced.map Usage.totalTokens ∧
      s.events.filterMap Event.accounts = priced := by
  induction items generalizing finish p with
  | nil => exact ⟨rfl, rfl, rfl⟩
  | cons item items ih =>
    cases item with
    | error e =>
      obtain ⟨_, h⟩ := hok _ List.mem_cons_self
      cases h
    | ok chunk =>
      rw [drain] at hunwound hok ⊢
      rw [reportsOf, List.filterMap_cons]
      split at hunwound
      · rename_i u _ hu
        simp only [hu] at hok ⊢
        dsimp only at hunwound
        split at hunwound
        · cases hunwound
        · rename_i reply store hnot hmade
          simp only [hmade] at hok ⊢
          obtain ⟨hseen, hdebits, hevents⟩ :=
            ih hunwound fun item h => hok item (List.mem_cons_of_mem _ h)
          refine ⟨?_, ?_, ?_⟩
          · simp only [reportsOf, Drained.after, List.filterMap_cons, reports.report_ofUsage]
            exact congrArg _ hseen
          · exact congrArg _ hdebits
          · exact congrArg _ hevents
      all_goals
        rename_i hr
        simp only [hr] at hok ⊢
        obtain ⟨hseen, hdebits, hevents⟩ :=
          ih hunwound fun item h => hok item (List.mem_cons_of_mem _ h)
        refine ⟨?_, hdebits, hevents⟩
        simp only [reportsOf, Drained.after, List.filterMap_cons, hr]
        exact hseen

end

/-- **What is debited and accounted for a stream is the usage of its collected response exactly if
every report but the last is vacant.** -/
theorem instrument_accounts_once_iff (pricing : Pricing) (meanwhile : ℕ → World → World)
    (debitClock : ℕ → Instant) (d : Dispatched (List (Except ModelError StreamChunk))) (p : Pos) {resp : ChatResponse}
    (h : (instrument pricing meanwhile debitClock d p).collected = some resp) :
    let t := instrument pricing meanwhile debitClock d p
    debited t.debits = resp.usage.totalTokens ∧ accounted t.events = resp.usage ↔
      ∀ u ∈ (reportsOf chatReports d.value).dropLast, u.IsVacant := by
  intro t
  -- what is collected was drained to its end
  have hcollected : (if (drain chatReports pricing meanwhile debitClock d none d.value p).unwound then none
    else (collect (drain chatReports pricing meanwhile debitClock d none d.value p).items).toOption) =
      some resp := h
  split at hcollected
  · cases hcollected
  rename_i hunwound
  have hunwound := Bool.eq_false_of_not_eq_true hunwound
  cases hc : collect (drain chatReports pricing meanwhile debitClock d none d.value p).items with
  | error e =>
    rw [hc] at hcollected
    cases hcollected
  | ok resp' =>
    rw [hc] at hcollected
    cases hcollected
    have hok : ∀ item ∈ (drain chatReports pricing meanwhile debitClock d none d.value p).items,
        ∃ chunk, item = .ok chunk := collect_all_ok hc
    obtain ⟨hseen, hdebits, hevents⟩ :=
      drain_accounts chatReports pricing meanwhile debitClock d hunwound hok
    have husage := collect_usage hc
    rw [hseen] at husage
    have hdebited : debited t.debits = (accounted t.events).totalTokens := by
      rw [accounted, Usage.sum_totalTokens]
      exact congrArg List.sum (hdebits.trans (congrArg _ hevents.symm))
    have haccounted : accounted t.events =
        Usage.sum ((reportsOf chatReports d.value).map (pricing.price d.logicalModel)) :=
      congrArg Usage.sum hevents
    rw [hdebited, and_iff_right_of_imp fun h => congrArg Usage.totalTokens h, haccounted, husage]
    rcases List.eq_nil_or_concat (reportsOf chatReports d.value) with hnil | ⟨us, x, hx⟩
    · simp [hnil, Usage.sum]
    · rw [List.concat_eq_append] at hx
      rw [hx, List.dropLast_concat, List.getLast?_map, List.getLast?_concat]
      exact Pricing.sum_eq_last_iff pricing d.logicalModel us x

/-! ## A report that is updated -/

/-- A report of `prompt` and `completion` tokens. -/
def Usage.ofTokens (prompt completion : ℕ) : Usage :=
  { Usage.zero with
    promptTokens := prompt
    completionTokens := completion
    totalTokens := prompt + completion }

/-- A stream of two fragments, each with the report so far as `reports` gives it. -/
def twoFragments (reports : Usage × Usage) : Dispatched (List (Except ModelError StreamChunk)) where
  value := [.ok (.start "id" "m"), .ok (.content 0 "a"), .ok (.usage reports.1),
    .ok (.content 0 "b"), .ok (.usage reports.2), .ok (.finish 0 .stop)]
  requestId := "r"
  key := "k"
  logicalModel := "m"
  provider := "p"
  upstreamModel := "m"
  rate := (RateLimiter.new [] [{ ProviderConfig.plain "p" "gemini" none with
    limits := some ⟨none, some 1000, none⟩ }] fun _ _ => (0, 0)).1
  guard := .empty

/-- A node with this limiter. -/
def quiet : Pos :=
  ⟨⟨.new, (RateLimiter.new [] [{ ProviderConfig.plain "p" "gemini" none with
    limits := some ⟨none, some 1000, none⟩ }] fun _ _ => (0, 0)).2⟩, 0, 0⟩

/-- The collected response of two fragments, with the usage `u`. -/
def collectedFragments (u : Usage) : ChatResponse :=
  ⟨"id", "m", [⟨[], 0, "ab", [], [], [], some .stop⟩], u⟩

theorem instrument_accounts_once_final :
    let t := instrument ⟨∅⟩ (fun _ w => w) (fun _ => 0) (twoFragments (.zero, .ofTokens 10 8)) quiet
    debited t.debits = 18 ∧ accounted t.events = .ofTokens 10 8 := by
  intro t
  have hcollected : t.collected = some (collectedFragments (.ofTokens 10 8)) := by decide +kernel
  refine (instrument_accounts_once_iff ⟨∅⟩ _ (fun _ => 0) _ quiet hcollected).mpr ?_
  intro u hu
  obtain rfl : u = .zero := List.mem_singleton.mp hu
  exact ⟨rfl, rfl, rfl, rfl, rfl⟩

/-- Of 13 and then 18 tokens, 31 are debited and accounted for; the response has 18. -/
theorem updated_report_counted_twice :
    let t := instrument ⟨∅⟩ (fun _ w => w) (fun _ => 0)
      (twoFragments (.ofTokens 10 3, .ofTokens 10 8)) quiet
    ∃ resp, t.collected = some resp ∧
      ¬ (debited t.debits = resp.usage.totalTokens ∧ accounted t.events = resp.usage) :=
  ⟨collectedFragments (.ofTokens 10 8), by decide +kernel, by decide +kernel⟩

end Llmleaf
