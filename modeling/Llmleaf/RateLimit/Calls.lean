import Llmleaf.Lib.Runs
import Llmleaf.RateLimit

/-!
# Concurrent admissions

Admissions run at the same time and interleave between their bucket and semaphore operations, each
of which is atomic. A `Call` is an admission with a program counter; a system state holds the store
of entries, all limiters built so far (a request keeps the one it started with) and the calls.

- `Call.step`: the next operation of an admission.
- `step_alone`: without interleaving, nine steps are `ProviderLimits.tryAdmit`.
- `LimiterState.step`, `LimiterState.system`: the interleaved runs, with debits and reconciliations.
-/

namespace Llmleaf

/-- Why a call does not get through. -/
inductive Refusal where
  | wait (d : Duration)
  | panic
  deriving DecidableEq

/-- What a call does next, or how it has ended. -/
inductive Pc where
  | semGlobal
  | semModel
  | tpmGlobal
  | tpmModel
  | rpmGlobal
  | rpmModel
  | refundGlobal (d : Duration)
  | dropModel (why : Refusal)
  | dropGlobal (why : Refusal)
  | refused (why : Refusal)
  /-- Admitted, with its guard alive. -/
  | admitted
  /-- Admitted, with its guard dropped. -/
  | released
  deriving DecidableEq

/-- One `tryAdmit` on its way. -/
structure Call where
  entry : ℕ
  model : String
  now : Instant
  pc : Pc
  heldGlobal : Bool
  heldModel : Bool
  /-- A request token of the provider's bucket is taken and not given back. -/
  tookGlobal : Bool
  /-- A request token of the model's bucket is taken. -/
  tookModel : Bool
  deriving DecidableEq

namespace Call

/-- A call that has not done anything yet. -/
def fresh (entry : ℕ) (model : String) (now : Instant) : Call where
  entry := entry
  model := model
  now := now
  pc := .semGlobal
  heldGlobal := false
  heldModel := false
  tookGlobal := false
  tookModel := false

/-- A call whose operation failed: its permits are dropped next. -/
def fail (c : Call) (why : Refusal) : Call := { c with pc := .dropModel why }

/-- The next operation of a call on its entry. -/
def step (p : ProviderLimits) (c : Call) : ProviderLimits × Call :=
  match c.pc with
  | .semGlobal =>
    match p.acquire none with
    | (.ok held, p) => (p, { c with heldGlobal := held, pc := .semModel })
    | (.wait d, p) => (p, c.fail (.wait d))
    | (.panic, p) => (p, c.fail .panic)
  | .semModel =>
    match p.acquire (some c.model) with
    | (.ok held, p) => (p, { c with heldModel := held, pc := .tpmGlobal })
    | (.wait d, p) => (p, c.fail (.wait d))
    | (.panic, p) => (p, c.fail .panic)
  | .tpmGlobal =>
    match p.floor none c.now with
    | (.ok (), p) => (p, { c with pc := .tpmModel })
    | (.wait d, p) => (p, c.fail (.wait d))
    | (.panic, p) => (p, c.fail .panic)
  | .tpmModel =>
    match p.floor (some c.model) c.now with
    | (.ok (), p) => (p, { c with pc := .rpmGlobal })
    | (.wait d, p) => (p, c.fail (.wait d))
    | (.panic, p) => (p, c.fail .panic)
  | .rpmGlobal =>
    match p.take none c.now with
    | (.ok took, p) => (p, { c with tookGlobal := took, pc := .rpmModel })
    | (.wait d, p) => (p, c.fail (.wait d))
    | (.panic, p) => (p, c.fail .panic)
  | .rpmModel =>
    match p.take (some c.model) c.now with
    | (.ok took, p) => (p, { c with tookModel := took, pc := .admitted })
    | (.wait d, p) =>
      if c.tookGlobal then (p, { c with pc := .refundGlobal d }) else (p, c.fail (.wait d))
    | (.panic, p) => (p, c.fail .panic)
  | .refundGlobal d =>
    match p.refund none c.now with
    | (.ok (), p) | (.wait _, p) => (p, { c with tookGlobal := false, pc := .dropModel (.wait d) })
    | (.panic, p) => (p, c.fail .panic)
  | .dropModel why =>
    (if c.heldModel then p.release (some c.model) else p,
      { c with heldModel := false, pc := .dropGlobal why })
  | .dropGlobal why =>
    (if c.heldGlobal then p.release none else p,
      { c with heldGlobal := false, pc := .refused why })
  | .refused _ | .admitted | .released => (p, c)

/-- Drop the guard of an admitted call. -/
def drop (p : ProviderLimits) (c : Call) : ProviderLimits × Call :=
  match c.pc with
  | .admitted =>
    let p := if c.heldGlobal then p.release none else p
    let p := if c.heldModel then p.release (some c.model) else p
    (p, { c with heldGlobal := false, heldModel := false, pc := .released })
  | _ => (p, c)

/-- Whether the call was admitted, its guard alive or not. -/
def isAdmitted (c : Call) : Bool := c.pc = .admitted || c.pc = .released

end Call

/-! ## Without interleaving -/

/-- The reply of an ended call. -/
def Call.reply (c : Call) : Reply (Bool × Bool) :=
  match c.pc with
  | .refused (.wait d) => .wait d
  | .refused .panic => .panic
  | _ => .ok (c.heldGlobal, c.heldModel)

/-- One operation after another, nine of them. -/
def Call.runAlone : ℕ → ProviderLimits × Call → ProviderLimits × Call
  | 0, s => s
  | n + 1, s => Call.runAlone n (Call.step s.1 s.2)

namespace Call

/-- A failed call gives back its permits in two steps and then rests. -/
theorem runAlone_fail (p : ProviderLimits) (c : Call) (why : Refusal) (n : ℕ) :
    runAlone (n + 2) (p, c.fail why) =
      (p.unwind c.heldGlobal c.heldModel c.model,
        { c with heldGlobal := false, heldModel := false, pc := .refused why }) := by
  have hrest : ∀ (n : ℕ) (p : ProviderLimits) (c : Call), c.pc = .refused why →
      runAlone n (p, c) = (p, c) := by
    intro n
    induction n with
    | zero => exact fun _ _ _ => rfl
    | succ n ih =>
      intro p c hc
      rw [runAlone, show step p c = (p, c) by simp only [step, hc]]
      exact ih p c hc
  rw [runAlone, runAlone, hrest n _ _ rfl]
  rfl

/-- **Without interleaving, the nine steps of a call are one admission.** -/
theorem runAlone_eq_tryAdmit (p : ProviderLimits) (entry : ℕ) (model : String) (now : Instant) :
    let s := runAlone 9 (p, fresh entry model now)
    (s.2.reply, s.1) = p.tryAdmit model now := by
  -- one case per operation; a failed one ends in `runAlone_fail`
  rw [runAlone, ProviderLimits.tryAdmit]
  rcases hsg : p.acquire none with ⟨_ | d | _, p₁⟩ <;> simp only [step, fresh, hsg]
  rotate_left
  · rw [runAlone_fail]; rfl
  · rw [runAlone_fail]; rfl
  rw [runAlone]
  rcases hsm : p₁.acquire (some model) with ⟨_ | d | _, p₂⟩ <;> simp only [step, hsm]
  rotate_left
  · rw [runAlone_fail]; rfl
  · rw [runAlone_fail]; rfl
  rw [runAlone]
  rcases htg : p₂.floor none now with ⟨_ | d | _, p₃⟩ <;> simp only [step, htg]
  rotate_left
  · rw [runAlone_fail]; rfl
  · rw [runAlone_fail]; rfl
  rw [runAlone]
  rcases htm : p₃.floor (some model) now with ⟨_ | d | _, p₄⟩ <;> simp only [step, htm]
  rotate_left
  · rw [runAlone_fail]; rfl
  · rw [runAlone_fail]; rfl
  rw [runAlone]
  rcases hrg : p₄.take none now with ⟨took | d | _, p₅⟩ <;> simp only [step, hrg]
  rotate_left
  · rw [runAlone_fail]; rfl
  · rw [runAlone_fail]; rfl
  rw [runAlone]
  rcases hrm : p₅.take (some model) now with ⟨_ | d | _, p₆⟩ <;> simp only [step, hrm]
  · rfl
  · cases took
    · simp only [Bool.false_eq_true, if_false]
      rw [runAlone_fail]; rfl
    · simp only [if_true]
      rw [runAlone]
      rcases hrf : p₆.refund none now with ⟨_ | _ | _, p₇⟩ <;> simp only [step, hrf] <;> rfl
  · rw [runAlone_fail]; rfl

end Call

/-! ## The interleaved system -/

/-- What an entry was built from: a history variable, no operation reads it. -/
structure Origin where
  config : ProviderConfig
  born : Births

/-- The store, every limiter that was built, and the admissions made through them. -/
structure LimiterState where
  store : Store
  origins : List Origin
  limiters : List RateLimiter
  calls : List Call

namespace LimiterState

/-- One atomic step: an admission starts or performs its next operation, a guard is dropped, a debit
reaches one bucket, or a limiter is reconciled for a new provider set. -/
inductive Event where
  | tryAdmit (limiter : ℕ) (provider model : String) (now : Instant)
  | advance (call : ℕ)
  | drop (call : ℕ)
  | debit (limiter : ℕ) (provider : String) (scope : Scope) (tokens : ℕ) (now : Instant)
  | reconcile (limiter : ℕ) (providers : List ProviderConfig) (unchanged : String → Bool)
      (born : Births)

/-- The instant a caller passes with an event. -/
def Event.instant : Event → Option Instant
  | .tryAdmit _ _ _ now | .debit _ _ _ _ now => some now
  | _ => none

/-- The providers of a reconciliation that get a fresh entry. -/
def rebuilt (unchanged : String → Bool) (born : Births) (providers : List ProviderConfig) :
    List ProviderConfig :=
  providers.filter fun p => !unchanged p.name && !(ProviderLimits.fromConfig p born).isVacant

/-- The state in which a limiter of a held snapshot is reconciled. -/
def reconcile (s : LimiterState) (l : RateLimiter) (providers : List ProviderConfig)
    (unchanged : String → Bool) (born : Births) : LimiterState :=
  let r := l.reconciled s.store providers unchanged born
  { s with
    store := r.2
    origins := s.origins ++ (rebuilt unchanged born providers).map fun p => ⟨p, born⟩
    limiters := s.limiters ++ [r.1] }

/-- Apply the next operation `op` of the call `i`. -/
def act (s : LimiterState) (i : ℕ) (op : ProviderLimits → Call → ProviderLimits × Call) :
    LimiterState :=
  match s.calls[i]? with
  | none => s
  | some c =>
    match s.store[c.entry]? with
    | none => s
    | some p =>
      { s with
        store := s.store.set c.entry (op p c).1
        calls := s.calls.set i (op p c).2 }

/-- The entry of a provider in one of the limiters. -/
def entry (s : LimiterState) (limiter : ℕ) (provider : String) : Option ℕ :=
  match s.limiters[limiter]? with
  | none => none
  | some l => l.providers.lookup provider

/-- The state after an event. -/
def step (s : LimiterState) : Event → LimiterState
  | .tryAdmit limiter provider model now =>
    match s.entry limiter provider with
    | none => s
    | some e => { s with calls := s.calls ++ [.fresh e model now] }
  | .advance i => s.act i Call.step
  | .drop i => s.act i Call.drop
  | .debit limiter provider sc tokens now =>
    match s.entry limiter provider with
    | none => s
    | some e =>
      match s.store[e]? with
      | none => s
      | some p => { s with store := s.store.set e (p.debit sc tokens now).2 }
  | .reconcile limiter providers unchanged born =>
    match s.limiters[limiter]? with
    | none => s
    | some l => s.reconcile l providers unchanged born

/-- No entry and the empty limiter, from which the first one is built. -/
def empty : LimiterState := ⟨[], [], [⟨∅⟩], []⟩

/-- The runs of admissions, debits and reconciliations. -/
def system : Runs.Sys LimiterState Event := .ofFun (· = empty) step

/-- The admitted requests of an entry's scope. -/
def admitted (s : LimiterState) (e : ℕ) (sc : Scope) : ℕ :=
  s.calls.countP fun c => c.isAdmitted && c.entry == e && sc.all (c.model == ·)

/-- The largest instant a caller has passed. -/
def tMax (es : List Event) : Instant := (es.filterMap Event.instant).foldl max 0

end LimiterState

end Llmleaf
