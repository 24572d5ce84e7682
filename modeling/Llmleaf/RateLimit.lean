import Llmleaf.Config
import Llmleaf.Lib.HashMap
import Mathlib.Algebra.Order.Floor.Semiring
import Mathlib.Data.Rat.Floor

/-!
# Node-local rate limiting

Token buckets, semaphores and the limiter that asks them, operation by operation. A limiter maps a
provider to the handle of a shared entry, since a topology swap carries entries over: the entries
live in a store, and every limiter that holds a handle sees the same buckets.

Bucket arithmetic is over the rationals; instants and durations count nanoseconds. Computing a
refusal's wait can fail (a duration of `2 ^ 64` seconds does not exist): the caller then unwinds
with the bucket's lock held, and every later access to this bucket unwinds too.
-/

namespace Llmleaf

/-- A monotonic instant, in nanoseconds. -/
abbrev Instant := ℕ

/-- A duration, in nanoseconds. -/
abbrev Duration := ℕ

/-- The nanoseconds of a second. -/
def nanos : ℕ := 1000000000

/-- The wait while only concurrency binds. -/
def concurrencyPoll : Duration := 50 * 1000000

/-- The wait of a limit that never refills. -/
def never : Duration := 86400 * nanos

/-- The seconds between two instants, zero if the second is earlier. -/
def secsSince (now last : Instant) : ℚ := ((now - last : ℕ) : ℚ) / nanos

/-- The nearest natural number, the even one of two equally near. -/
def roundHalfEven (q : ℚ) : ℕ :=
  let low := ⌊q⌋₊
  let rest := q - low
  if rest < 1 / 2 then low else if 1 / 2 < rest then low + 1 else if low % 2 = 0 then low else low + 1

/-- The duration of `secs` seconds to the nearest nanosecond, if it has one. -/
def fromSecsF64 (secs : ℚ) : Option Duration :=
  let d := roundHalfEven (secs * nanos)
  if d < 2 ^ 64 * nanos then some d else none

/-- The reply of an operation under a bucket's lock. -/
inductive Reply (α : Type) where
  | ok (a : α)
  | wait (d : Duration)
  /-- The caller unwinds. -/
  | panic
  deriving DecidableEq

/-! ## Token buckets -/

/-- A bucket of `capacity` tokens that refills at `refillPerSec`, topped up on access. -/
structure TokenBucket where
  capacity : ℚ
  refillPerSec : ℚ
  tokens : ℚ
  last : Instant
  /-- A caller unwound with the lock held. -/
  poisoned : Bool
  deriving DecidableEq

namespace TokenBucket

/-- A full bucket of one minute's worth, created at `now`. -/
def perMinute (perMin : ℕ) (now : Instant) : TokenBucket where
  capacity := perMin
  refillPerSec := (perMin : ℚ) / 60
  tokens := perMin
  last := now
  poisoned := false

/-- Add the tokens accrued since the last access. -/
def refill (b : TokenBucket) (now : Instant) : TokenBucket :=
  if 0 < secsSince now b.last then
    { b with
      tokens := min (b.tokens + secsSince now b.last * b.refillPerSec) b.capacity
      last := now }
  else b

/-- The time to accrue `deficit` tokens, if it is a duration. -/
def waitFor (b : TokenBucket) (deficit : ℚ) : Option Duration :=
  if b.refillPerSec ≤ 0 then some never
  else fromSecsF64 (max deficit 0 / b.refillPerSec)

/-- Refuse with the wait for `deficit` tokens; unwinding there poisons the lock. -/
def refuse {α : Type} (b : TokenBucket) (deficit : ℚ) : Reply α × TokenBucket :=
  match b.waitFor deficit with
  | some d => (.wait d, b)
  | none => (.panic, { b with poisoned := true })

/-- Take `n` tokens if there are as many. -/
def tryTake (b : TokenBucket) (n : ℚ) (now : Instant) : Reply Unit × TokenBucket :=
  if b.poisoned then (.panic, b)
  else
    let b := b.refill now
    if n ≤ b.tokens then (.ok (), { b with tokens := b.tokens - n })
    else b.refuse (n - b.tokens)

/-- Give back `n` tokens, up to the capacity. -/
def refund (b : TokenBucket) (n : ℚ) (now : Instant) : Reply Unit × TokenBucket :=
  if b.poisoned then (.panic, b)
  else
    let b := b.refill now
    (.ok (), { b with tokens := min (b.tokens + n) b.capacity })

/-- The machine epsilon of the source's floats. -/
def epsilon : ℚ := 1 / 2 ^ 52

/-- Admit while there are tokens; take none. -/
def hasCapacity (b : TokenBucket) (now : Instant) : Reply Unit × TokenBucket :=
  if b.poisoned then (.panic, b)
  else
    let b := b.refill now
    if 0 < b.tokens then (.ok (), b) else b.refuse (-b.tokens + epsilon)

/-- Take `n` tokens, below zero if need be. -/
def debit (b : TokenBucket) (n : ℚ) (now : Instant) : Reply Unit × TokenBucket :=
  if b.poisoned then (.panic, b)
  else
    let b := b.refill now
    (.ok (), { b with tokens := b.tokens - n })

end TokenBucket

/-! ## Scopes -/

/-- A counting semaphore: its free permits. -/
structure Semaphore where
  permits : ℕ
  deriving DecidableEq

/-- The limits of one scope, a provider or one of its models. -/
structure Limit where
  rpm : Option TokenBucket
  tpm : Option TokenBucket
  sem : Option Semaphore
  deriving DecidableEq

namespace Limit

/-- The scope without limits. -/
def unlimited : Limit := ⟨none, none, none⟩

/-- The scope `cfg` declares; its buckets are created at the two instants. -/
def fromConfig (cfg : RateLimitConfig) (born : Instant × Instant) : Limit where
  rpm := cfg.requestsPerMin.map fun n => .perMinute n born.1
  tpm := cfg.tokensPerMin.map fun n => .perMinute n born.2
  sem := cfg.maxConcurrent.map fun n => ⟨n⟩

/-- Whether the scope declares no limit at all. -/
def isUnlimited (l : Limit) : Bool := l.rpm.isNone && l.tpm.isNone && l.sem.isNone

end Limit

/-- The live limits of one provider. -/
structure ProviderLimits where
  global : Limit
  perModel : Finmap fun _ : String => Limit
  deriving DecidableEq

/-- A scope of an entry: the provider, or one of its models. -/
abbrev Scope := Option String

namespace ProviderLimits

/-- The limits of a scope, if the entry has it. -/
def limit (p : ProviderLimits) : Scope → Option Limit
  | none => some p.global
  | some model => p.perModel.lookup model

/-- The entry with the limits of a scope it has replaced. -/
def setLimit (p : ProviderLimits) (sc : Scope) (l : Limit) : ProviderLimits :=
  match sc with
  | none => { p with global := l }
  | some model => { p with perModel := p.perModel.insert model l }

theorem limit_setLimit (p : ProviderLimits) (sc sc' : Scope) (l : Limit) :
    (p.setLimit sc l).limit sc' = if sc' = sc then some l else p.limit sc' := by
  cases sc with
  | none => cases sc' <;> rfl
  | some m =>
    cases sc' with
    | none => rfl
    | some m' =>
      simp only [setLimit, limit, Option.some.injEq]
      split
      · rename_i h
        rw [h, Finmap.lookup_insert]
      · rename_i h
        rw [Finmap.lookup_insert_of_ne _ h]

/-- The requests-per-minute bucket of a scope. -/
def rpm (p : ProviderLimits) (sc : Scope) : Option TokenBucket := (p.limit sc).bind (·.rpm)

/-- The tokens-per-minute bucket of a scope. -/
def tpm (p : ProviderLimits) (sc : Scope) : Option TokenBucket := (p.limit sc).bind (·.tpm)

/-- The semaphore of a scope. -/
def sem (p : ProviderLimits) (sc : Scope) : Option Semaphore := (p.limit sc).bind (·.sem)

/-- Replace the requests-per-minute bucket of a scope. -/
def setRpm (p : ProviderLimits) (sc : Scope) (b : TokenBucket) : ProviderLimits :=
  match p.limit sc with
  | some l => p.setLimit sc { l with rpm := some b }
  | none => p

/-- Replace the tokens-per-minute bucket of a scope. -/
def setTpm (p : ProviderLimits) (sc : Scope) (b : TokenBucket) : ProviderLimits :=
  match p.limit sc with
  | some l => p.setLimit sc { l with tpm := some b }
  | none => p

/-- Replace the semaphore of a scope. -/
def setSem (p : ProviderLimits) (sc : Scope) (s : Semaphore) : ProviderLimits :=
  match p.limit sc with
  | some l => p.setLimit sc { l with sem := some s }
  | none => p

/-! ### Reading a scope after an update -/

theorem rpm_setRpm {p : ProviderLimits} {sc : Scope} (b : TokenBucket) (sc' : Scope)
    (h : (p.limit sc).isSome) : (p.setRpm sc b).rpm sc' = if sc' = sc then some b else p.rpm sc' := by
  obtain ⟨l, hl⟩ := Option.isSome_iff_exists.mp h
  simp only [setRpm, hl, rpm, limit_setLimit]
  split <;> rfl

@[simp] theorem rpm_setTpm (p : ProviderLimits) (sc sc' : Scope) (b : TokenBucket) :
    (p.setTpm sc b).rpm sc' = p.rpm sc' := by
  unfold setTpm
  split
  · rename_i l hl
    rw [rpm, limit_setLimit]
    split
    · rename_i h
      rw [h, rpm, hl]
      rfl
    · rfl
  · rfl

@[simp] theorem rpm_setSem (p : ProviderLimits) (sc sc' : Scope) (s : Semaphore) :
    (p.setSem sc s).rpm sc' = p.rpm sc' := by
  unfold setSem
  split
  · rename_i l hl
    rw [rpm, limit_setLimit]
    split
    · rename_i h
      rw [h, rpm, hl]
      rfl
    · rfl
  · rfl

end ProviderLimits

/-! ## The limiter -/

/-- The entries of all limiters, addressed by handle. -/
abbrev Store := List ProviderLimits

/-- A limiter: the entry of every limited provider. -/
structure RateLimiter where
  providers : HashMap String ℕ

/-- When the buckets of a provider's scopes are created, requests and tokens per minute. -/
abbrev Births := String → Scope → Instant × Instant

/-- The permits an admitted request holds, by the scope they came from. -/
structure RateGuard where
  global : Option (ℕ × Scope)
  model : Option (ℕ × Scope)
  deriving DecidableEq

/-- The guard that holds nothing. -/
def RateGuard.empty : RateGuard := ⟨none, none⟩

namespace ProviderLimits

/-- The entry a provider's configuration declares. -/
def fromConfig (p : ProviderConfig) (born : Births) : ProviderLimits where
  global := (p.limits.map fun cfg => Limit.fromConfig cfg (born p.name none)).getD .unlimited
  perModel := p.modelLimits.mapVal fun model cfg => Limit.fromConfig cfg (born p.name (some model))

/-- Whether the entry limits nothing, so that the provider gets none. -/
def isVacant (p : ProviderLimits) : Bool := p.global.isUnlimited && decide (p.perModel = ∅)

end ProviderLimits

namespace RateLimiter

/-- One provider of a reconciliation: keep the live entry, build a fresh one, or have none. -/
def reconcileOne (self : RateLimiter) (unchanged : String → Bool) (born : Births)
    (acc : RateLimiter × Store) (p : ProviderConfig) : RateLimiter × Store :=
  if unchanged p.name then
    match self.providers.lookup p.name with
    | some entry => (⟨acc.1.providers.insert p.name entry⟩, acc.2)
    | none => acc
  else
    let entry := ProviderLimits.fromConfig p born
    if entry.isVacant then acc
    else (⟨acc.1.providers.insert p.name acc.2.length⟩, acc.2 ++ [entry])

/-- The limiter of a new provider set: unchanged providers keep their live entries. -/
def reconciled (self : RateLimiter) (store : Store) (providers : List ProviderConfig)
    (unchanged : String → Bool) (born : Births) : RateLimiter × Store :=
  providers.foldl (self.reconcileOne unchanged born) (⟨∅⟩, store)

/-- The limiter of a configuration. -/
def new (store : Store) (providers : List ProviderConfig) (born : Births) : RateLimiter × Store :=
  reconciled ⟨∅⟩ store providers (fun _ => false) born

end RateLimiter

namespace ProviderLimits

/-- Acquire a permit of a scope: whether one is held afterwards, or the wait. -/
def acquire (p : ProviderLimits) (sc : Scope) : Reply Bool × ProviderLimits :=
  match p.sem sc with
  | none => (.ok false, p)
  | some s =>
    if 0 < s.permits then (.ok true, p.setSem sc ⟨s.permits - 1⟩) else (.wait concurrencyPoll, p)

/-- Give back a permit of a scope. -/
def release (p : ProviderLimits) (sc : Scope) : ProviderLimits :=
  match p.sem sc with
  | none => p
  | some s => p.setSem sc ⟨s.permits + 1⟩

/-- Give back the permits held by a request that does not get through, the model's first. -/
def unwind (p : ProviderLimits) (heldGlobal heldModel : Bool) (model : String) : ProviderLimits :=
  let p := if heldModel then p.release (some model) else p
  if heldGlobal then p.release none else p

/-- The tokens-per-minute floor of a scope. -/
def floor (p : ProviderLimits) (sc : Scope) (now : Instant) : Reply Unit × ProviderLimits :=
  match p.tpm sc with
  | none => (.ok (), p)
  | some b =>
    let (r, b) := b.hasCapacity now
    (r, p.setTpm sc b)

/-- The requests-per-minute take of a scope: whether a token was taken, or the wait. -/
def take (p : ProviderLimits) (sc : Scope) (now : Instant) : Reply Bool × ProviderLimits :=
  match p.rpm sc with
  | none => (.ok false, p)
  | some b =>
    match b.tryTake 1 now with
    | (.ok (), b) => (.ok true, p.setRpm sc b)
    | (.wait d, b) => (.wait d, p.setRpm sc b)
    | (.panic, b) => (.panic, p.setRpm sc b)

/-- Give the requests-per-minute token of a scope back. -/
def refund (p : ProviderLimits) (sc : Scope) (now : Instant) : Reply Unit × ProviderLimits :=
  match p.rpm sc with
  | none => (.ok (), p)
  | some b =>
    let (r, b) := b.refund 1 now
    (r, p.setRpm sc b)

/-- Admit one request to the entry: permits, then token floors, then request takes, each for the
provider and then the model. What was acquired is undone when a later step refuses. -/
def tryAdmit (p : ProviderLimits) (model : String) (now : Instant) :
    Reply (Bool × Bool) × ProviderLimits :=
  match p.acquire none with
  | (.wait d, p) => (.wait d, p)
  | (.panic, p) => (.panic, p)
  | (.ok heldGlobal, p) =>
    match p.acquire (some model) with
    | (.wait d, p) => (.wait d, p.unwind heldGlobal false model)
    | (.panic, p) => (.panic, p.unwind heldGlobal false model)
    | (.ok heldModel, p) =>
      match p.floor none now with
      | (.wait d, p) => (.wait d, p.unwind heldGlobal heldModel model)
      | (.panic, p) => (.panic, p.unwind heldGlobal heldModel model)
      | (.ok (), p) =>
        match p.floor (some model) now with
        | (.wait d, p) => (.wait d, p.unwind heldGlobal heldModel model)
        | (.panic, p) => (.panic, p.unwind heldGlobal heldModel model)
        | (.ok (), p) =>
          match p.take none now with
          | (.wait d, p) => (.wait d, p.unwind heldGlobal heldModel model)
          | (.panic, p) => (.panic, p.unwind heldGlobal heldModel model)
          | (.ok tookGlobal, p) =>
            match p.take (some model) now with
            | (.ok _, p) => (.ok (heldGlobal, heldModel), p)
            | (.panic, p) => (.panic, p.unwind heldGlobal heldModel model)
            | (.wait d, p) =>
              if tookGlobal then
                match p.refund none now with
                | (.ok (), p) | (.wait _, p) => (.wait d, p.unwind heldGlobal heldModel model)
                | (.panic, p) => (.panic, p.unwind heldGlobal heldModel model)
              else (.wait d, p.unwind heldGlobal heldModel model)

end ProviderLimits

namespace RateLimiter

/-- The guard of an admission to the entry `e`, from the permits it took. -/
def guardOf (e : ℕ) (model : String) (held : Bool × Bool) : RateGuard where
  global := if held.1 then some (e, none) else none
  model := if held.2 then some (e, some model) else none

/-- Admit one request to `(provider, model)` at `now`, or say how long to wait. -/
def tryAdmit (self : RateLimiter) (store : Store) (provider model : String) (now : Instant) :
    Reply RateGuard × Store :=
  match self.providers.lookup provider with
  | none => (.ok .empty, store)
  | some e =>
    match store[e]? with
    | none => (.ok .empty, store)
    | some p =>
      match p.tryAdmit model now with
      | (.ok held, p) => (.ok (guardOf e model held), store.set e p)
      | (.wait d, p) => (.wait d, store.set e p)
      | (.panic, p) => (.panic, store.set e p)

end RateLimiter

namespace ProviderLimits

/-- Debit the tokens-per-minute bucket of a scope. -/
def debit (p : ProviderLimits) (sc : Scope) (tokens : ℕ) (now : Instant) :
    Reply Unit × ProviderLimits :=
  match p.tpm sc with
  | none => (.ok (), p)
  | some b =>
    let (r, b) := b.debit tokens now
    (r, p.setTpm sc b)

end ProviderLimits

/-- Debit reported tokens from the buckets of `(provider, model)`. -/
def RateLimiter.debitTokens (self : RateLimiter) (store : Store) (provider model : String)
    (tokens : ℕ) (now : Instant) : Reply Unit × Store :=
  match self.providers.lookup provider with
  | none => (.ok (), store)
  | some e =>
    match store[e]? with
    | none => (.ok (), store)
    | some p =>
      match p.debit none tokens now with
      | (.ok (), p) | (.wait _, p) =>
        let (r, p) := p.debit (some model) tokens now
        (r, store.set e p)
      | (.panic, p) => (.panic, store.set e p)

/-- Release the permits of a dropped guard. -/
def RateGuard.drop (g : RateGuard) (store : Store) : Store :=
  let give (held : Option (ℕ × Scope)) (store : Store) : Store :=
    match held with
    | none => store
    | some (e, sc) => store.modify e fun p => p.release sc
  give g.model (give g.global store)

end Llmleaf
