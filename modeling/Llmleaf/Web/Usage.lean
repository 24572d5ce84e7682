import Llmleaf.Web.Db

/-!
# Usage

The events a node pushes are stored row by row, each under the key it names; the limiter reads a
key's window from the rows under its id.

- `ingest`, `pruneBefore`: the writes to the table of events.
- `keyWindow`, `activeKeys`: what the limiter reads; `inWindow_rowOf`: the rows of a window.
- `totalsSince`: what a dashboard reads.
- `keyWindow_prune`: a window ignores the rows before it, pruned or not.
-/

namespace Llmleaf.Web

/-! ## The wire -/

/-- Token accounting as pushed. -/
structure Usage where
  promptTokens : ℕ
  completionTokens : ℕ
  totalTokens : ℕ
  costUsd : Option ℚ

/-- A pushed event; `unknown` is any event of a newer node. -/
inductive Event where
  | requestStarted (id key model : String) (request : Option Value)
  | requestRouted (id provider upstreamModel : String)
  | usage (id key model : String) (usage : Usage)
  | requestCompleted (id : String) (finish : Option String)
  | requestFailed (id error : String)
  | providerHealth (provider status : String)
  | unknown

/-- A finish reason on the wire. -/
def finishText : FinishReason → String
  | .stop => "stop"
  | .length => "length"
  | .toolCalls => "tool_calls"
  | .contentFilter => "content_filter"
  | .error => "error"
  | .compaction => "compaction"

/-- What arrives of an event. -/
def Event.received : Llmleaf.Event → Event
  | .requestStarted id key model request => .requestStarted id key model request
  | .requestRouted id provider upstreamModel => .requestRouted id provider upstreamModel
  | .usage id key model u =>
    .usage id key model ⟨u.promptTokens, u.completionTokens, u.totalTokens, u.costUsd⟩
  | .requestCompleted id finish => .requestCompleted id (finish.map finishText)
  | .requestFailed id error => .requestFailed id error
  | .providerHealth provider status => .providerHealth provider status

/-! ## The table of events -/

/-- The row of an event. -/
def decompose (tsMs : Int64) (event : Event) : EventRow :=
  let row := fun kind requestId keyId model provider (pt ct tt : ℕ) cost detail =>
    EventRow.mk tsMs kind requestId keyId model provider (.ofNat pt) (.ofNat ct) (.ofNat tt) cost
      detail
  match event with
  | .requestStarted id key model _ =>
    row "request_started" (some id) (some key) (some model) none 0 0 0 0 none
  | .requestRouted id provider upstreamModel =>
    row "request_routed" (some id) none none (some provider) 0 0 0 0 (some upstreamModel)
  | .usage id key model usage =>
    row "usage" (some id) (some key) (some model) none usage.promptTokens usage.completionTokens
      usage.totalTokens (usage.costUsd.getD 0) (some (toString usage.totalTokens ++ " tok"))
  | .requestCompleted id finish =>
    row "request_completed" (some id) none none none 0 0 0 0 finish
  | .requestFailed id error =>
    row "request_failed" (some id) none none none 0 0 0 0 (some error)
  | .providerHealth provider status =>
    row "provider_health" none none none (some provider) 0 0 0 0 (some status)
  | .unknown => row "unknown" none none none none 0 0 0 0 none

/-- The row a pushed envelope is stored as. -/
def rowOf (env : Envelope) : EventRow := decompose (.ofNat env.tsMs) (.received env.event)

/-- The start of a window of `secs` seconds, in milliseconds. -/
def sinceSecsAgo (now : Clock) (secs : ℕ) : ℕ := (now.secs - secs) * 1000

namespace EventRow

/-- Whether a row is not older than an instant. -/
def since (row : EventRow) (sinceMs : ℕ) : Bool := decide (Int64.ofNat sinceMs ≤ row.tsMs)

/-- Whether a row lies in the window of a key. -/
def inWindow (row : EventRow) (keyId : String) (sinceMs : ℕ) : Bool :=
  row.keyId == some keyId && row.since sinceMs

end EventRow

/-- The totals of a dashboard. A sum that leaves 64 bits is an error of the database. -/
@[ext]
structure UsageTotals where
  requests : ℕ
  promptTokens : ℤ
  completionTokens : ℤ
  totalTokens : ℤ
  cost : ℚ
  deriving DecidableEq

namespace Db

/-- Store a pushed batch. -/
def ingest (db : Db) (events : List Envelope) : Db :=
  { db with events := db.events ++ events.map rowOf }

/-- A key's cost and its requests since an instant. -/
def keyWindow (db : Db) (keyId : String) (sinceMs : ℕ) : ℚ × ℕ :=
  let rows := db.events.filter (·.inWindow keyId sinceMs)
  ((rows.map fun r => if r.kind = "usage" then r.cost else 0).sum,
    (rows.map fun r => if r.kind = "request_started" then 1 else 0).sum)

/-- The totals since an instant. -/
def totalsSince (db : Db) (sinceMs : ℕ) : UsageTotals :=
  let rows := db.events.filter (·.since sinceMs)
  { requests := (rows.map fun r => if r.kind = "request_started" then 1 else 0).sum
    promptTokens := (rows.map fun r => if r.kind = "usage" then r.promptTokens.toInt else 0).sum
    completionTokens :=
      (rows.map fun r => if r.kind = "usage" then r.completionTokens.toInt else 0).sum
    totalTokens := (rows.map fun r => if r.kind = "usage" then r.totalTokens.toInt else 0).sum
    cost := (rows.map fun r => if r.kind = "usage" then r.cost else 0).sum }

/-- The keys named since an instant. -/
def activeKeys (db : Db) (sinceMs : ℕ) : List String :=
  ((db.events.filter (·.since sinceMs)).filterMap (·.keyId)).dedup

/-- Delete the events before an instant. -/
def pruneBefore (db : Db) (tsMs : ℕ) : Db :=
  { db with events := db.events.filter fun r => !decide (r.tsMs < Int64.ofNat tsMs) }

end Db

/-! ## Windows -/

/-- The window's start fits the clock. -/
theorem sinceSecsAgo_fits (now : Clock) (secs : ℕ) : sinceSecsAgo now secs < 2 ^ 63 := by
  have hfits := now.fits
  rw [sinceSecsAgo, Clock.secs]
  omega

theorem sinceSecsAgo_anti (now : Clock) {a b : ℕ} (h : a ≤ b) :
    sinceSecsAgo now b ≤ sinceSecsAgo now a := by
  rw [sinceSecsAgo, sinceSecsAgo]
  omega

/-- A pushed event is in the window of the key it names, and of no other, as far back as the window
reaches it. -/
theorem inWindow_rowOf {env : Envelope} (hts : env.tsMs < 2 ^ 63) {keyId : String} {sinceMs : ℕ}
    (hsince : sinceMs < 2 ^ 63) :
    (rowOf env).inWindow keyId sinceMs = true ↔
      (rowOf env).keyId = some keyId ∧ sinceMs ≤ env.tsMs := by
  have htime : (rowOf env).tsMs = Int64.ofNat env.tsMs := by
    obtain ⟨ts, event⟩ := env
    cases event <;> rfl
  rw [EventRow.inWindow, EventRow.since, htime, Bool.and_eq_true, beq_iff_eq, decide_eq_true_eq,
    Int64.ofNat_le_iff_le hsince hts]

/-- A later instant is reached by fewer rows. -/
theorem EventRow.since_anti {row : EventRow} {a b : ℕ} (hb : b < 2 ^ 63) (hab : a ≤ b)
    (h : row.since b = true) : row.since a = true := by
  rw [since, decide_eq_true_eq] at h ⊢
  exact Int64.le_trans ((Int64.ofNat_le_iff_le (hab.trans_lt hb) hb).mpr hab) h

/-- Pruning before a window's start leaves the window. -/
theorem Db.keyWindow_prune (db : Db) {before sinceMs : ℕ} (hsince : sinceMs < 2 ^ 63)
    (hle : before ≤ sinceMs) (keyId : String) :
    (db.pruneBefore before).keyWindow keyId sinceMs = db.keyWindow keyId sinceMs := by
  have hrows : (db.pruneBefore before).events.filter (·.inWindow keyId sinceMs) =
      db.events.filter (·.inWindow keyId sinceMs) := by
    rw [Db.pruneBefore, List.filter_filter]
    refine List.filter_congr fun row _ => ?_
    cases hw : row.inWindow keyId sinceMs with
    | false => rfl
    | true =>
      have hsince' := row.since_anti hsince hle (Bool.and_eq_true_iff.mp hw).2
      rw [EventRow.since, decide_eq_true_eq] at hsince'
      rw [Bool.true_and, decide_eq_false (Int64.not_lt.mpr hsince')]
      rfl
  rw [Db.keyWindow, hrows, Db.keyWindow]

theorem Db.mem_activeKeys {db : Db} {keyId : String} {sinceMs : ℕ} :
    keyId ∈ db.activeKeys sinceMs ↔ ∃ row ∈ db.events, row.inWindow keyId sinceMs = true := by
  rw [Db.activeKeys, List.mem_dedup, List.mem_filterMap]
  simp only [List.mem_filter, EventRow.inWindow, Bool.and_eq_true, beq_iff_eq]
  exact ⟨fun ⟨row, ⟨hm, hs⟩, hk⟩ => ⟨row, hm, hk, hs⟩, fun ⟨row, hm, hk, hs⟩ => ⟨row, ⟨hm, hs⟩, hk⟩⟩

/-- Where a key has no row, its window is empty. -/
theorem Db.keyWindow_inactive {db : Db} {keyId : String} {sinceMs : ℕ}
    (h : ∀ row ∈ db.events, row.inWindow keyId sinceMs = false) :
    db.keyWindow keyId sinceMs = (0, 0) := by
  have hrows : db.events.filter (·.inWindow keyId sinceMs) = [] :=
    List.filter_eq_nil_iff.mpr fun row hm => by rw [h row hm]; exact Bool.false_ne_true
  rw [Db.keyWindow, hrows]
  rfl

end Llmleaf.Web
