import Llmleaf.RateLimit.Calls

/-!
# What an entry is built with

An entry is built from a configuration: the capacities and refill rates of its buckets, and the
permits of its semaphores. Admissions and debits move tokens and permits, but what an entry is built
with stays: a permit that is not free is held by one call.

- `ProviderLimits.built`, `ProviderConfig.declares`: what an entry is built with, and what a
  configuration asks for.
- `Call.step_built`: the step lemma, one case per operation of an admission.
- `LimiterState.built_step`: no request changes what any entry is built with.
-/

namespace Llmleaf

/-- The capacity and the refill rate of a bucket. -/
def TokenBucket.size (b : TokenBucket) : ℚ × ℚ := (b.capacity, b.refillPerSec)

/-- The size of a bucket of `perMin` a minute. -/
def perMinuteSize (perMin : ℕ) : ℚ × ℚ := (perMin, (perMin : ℚ) / 60)

/-- The bucket sizes and the permits of one scope. -/
structure ScopeSize where
  rpm : Option (ℚ × ℚ)
  tpm : Option (ℚ × ℚ)
  permits : Option ℕ
  deriving DecidableEq

/-- What a configuration declares for a scope. -/
def RateLimitConfig.size (cfg : RateLimitConfig) : ScopeSize where
  rpm := cfg.requestsPerMin.map perMinuteSize
  tpm := cfg.tokensPerMin.map perMinuteSize
  permits := cfg.maxConcurrent

/-- What a provider's configuration declares, by scope. -/
def ProviderConfig.declares (p : ProviderConfig) : Scope → Option ScopeSize
  | none => some ((p.limits.map RateLimitConfig.size).getD ⟨none, none, none⟩)
  | some model => (p.modelLimits.lookup model).map RateLimitConfig.size

/-- What a scope is built with, while `held` of its permits are held. -/
def Limit.built (l : Limit) (held : ℕ) : ScopeSize where
  rpm := l.rpm.map TokenBucket.size
  tpm := l.tpm.map TokenBucket.size
  permits := l.sem.map (·.permits + held)

/-- What an entry is built with, by scope. -/
def ProviderLimits.built (p : ProviderLimits) (held : Scope → ℕ) (sc : Scope) : Option ScopeSize :=
  (p.limit sc).map (·.built (held sc))

/-! ## Buckets -/

namespace TokenBucket

variable (b : TokenBucket) (n : ℚ) (now : Instant)

@[simp] theorem size_refill : (b.refill now).size = b.size := by
  unfold refill
  split <;> rfl

@[simp] theorem size_refuse {α : Type} : (b.refuse n : Reply α × TokenBucket).2.size = b.size := by
  unfold refuse
  split <;> rfl

@[simp] theorem size_tryTake : (b.tryTake n now).2.size = b.size := by
  unfold tryTake
  split
  · rfl
  · dsimp only
    split
    · exact b.size_refill now
    · rw [size_refuse, size_refill]

@[simp] theorem size_refund : (b.refund n now).2.size = b.size := by
  unfold refund
  split
  · rfl
  · exact b.size_refill now

@[simp] theorem size_hasCapacity : (b.hasCapacity now).2.size = b.size := by
  unfold hasCapacity
  split
  · rfl
  · dsimp only
    split
    · exact b.size_refill now
    · rw [size_refuse, size_refill]

@[simp] theorem size_debit : (b.debit n now).2.size = b.size := by
  unfold debit
  split
  · rfl
  · exact b.size_refill now

end TokenBucket

/-! ## Entries -/

namespace ProviderLimits

variable {p : ProviderLimits} {held held' : Scope → ℕ} {sc : Scope}

/-- Replacing the limits of a scope by ones built alike. -/
theorem built_setLimit {l l' : Limit} (h : p.limit sc = some l)
    (hl : l'.built (held' sc) = l.built (held sc)) (hheld : ∀ sc', sc' ≠ sc → held' sc' = held sc') :
    (p.setLimit sc l').built held' = p.built held := by
  funext sc'
  rw [built, built, limit_setLimit]
  split
  · rename_i hsc
    rw [hsc, h, Option.map_some, Option.map_some, hl]
  · rename_i hsc
    rw [hheld sc' hsc]

theorem built_setRpm {b b' : TokenBucket} (h : p.rpm sc = some b) (hb : b'.size = b.size) :
    (p.setRpm sc b').built held = p.built held := by
  obtain ⟨l, hl, hrpm⟩ := Option.bind_eq_some_iff.mp h
  rw [setRpm, hl]
  refine built_setLimit hl ?_ fun _ _ => rfl
  simp [Limit.built, hrpm, hb]

theorem built_setTpm {b b' : TokenBucket} (h : p.tpm sc = some b) (hb : b'.size = b.size) :
    (p.setTpm sc b').built held = p.built held := by
  obtain ⟨l, hl, htpm⟩ := Option.bind_eq_some_iff.mp h
  rw [setTpm, hl]
  refine built_setLimit hl ?_ fun _ _ => rfl
  simp [Limit.built, htpm, hb]

/-- What the semaphore loses, its holders gain. -/
theorem built_setSem {s s' : Semaphore} (h : p.sem sc = some s)
    (hs : s'.permits + held' sc = s.permits + held sc)
    (hheld : ∀ sc', sc' ≠ sc → held' sc' = held sc') :
    (p.setSem sc s').built held' = p.built held := by
  obtain ⟨l, hl, hsem⟩ := Option.bind_eq_some_iff.mp h
  rw [setSem, hl]
  refine built_setLimit hl ?_ hheld
  simp [Limit.built, hsem, hs]

/-- Where there is no semaphore, nothing is held of it. -/
theorem built_congr_held (h : p.sem sc = none) (hheld : ∀ sc', sc' ≠ sc → held' sc' = held sc') :
    p.built held' = p.built held := by
  funext sc'
  by_cases hsc : sc' = sc
  · subst hsc
    rw [built, built]
    cases hl : p.limit sc' with
    | none => rfl
    | some l =>
      rw [sem, hl, Option.bind_some] at h
      simp [Limit.built, h]
  · rw [built, built, hheld sc' hsc]

variable (p sc)

theorem built_floor (now : Instant) (held : Scope → ℕ) : (p.floor sc now).2.built held = p.built held := by
  unfold floor
  split
  · rfl
  · rename_i b hb
    exact built_setTpm hb (b.size_hasCapacity now)

theorem built_debit (tokens : ℕ) (now : Instant) :
    (p.debit sc tokens now).2.built held = p.built held := by
  unfold debit
  split
  · rfl
  · rename_i b hb
    exact built_setTpm hb (b.size_debit tokens now)

theorem built_take (now : Instant) (held : Scope → ℕ) : (p.take sc now).2.built held = p.built held := by
  unfold take
  split
  · rfl
  · rename_i b hb
    have hsize := b.size_tryTake 1 now
    rcases htry : b.tryTake 1 now with ⟨_ | _ | _, b'⟩ <;> rw [htry] at hsize <;>
      exact built_setRpm hb hsize

theorem built_refund (now : Instant) (held : Scope → ℕ) : (p.refund sc now).2.built held = p.built held := by
  unfold refund
  split
  · rfl
  · rename_i b hb
    exact built_setRpm hb (b.size_refund 1 now)

/-- A permit that is acquired is held by the caller. -/
theorem built_acquire (hheld : ∀ sc', sc' ≠ sc → held' sc' = held sc')
    (hsc : held' sc = held sc + (if (p.acquire sc).1 = .ok true then 1 else 0)) :
    (p.acquire sc).2.built held' = p.built held := by
  unfold acquire at hsc ⊢
  split at hsc
  · rename_i h
    exact built_congr_held h hheld
  · rename_i s h
    split at hsc
    · rename_i hpos
      rw [if_pos hpos]
      rw [if_pos rfl] at hsc
      refine built_setSem h ?_ hheld
      simp only
      omega
    · rename_i hpos
      rw [if_neg hpos]
      have heq : held' = held := by
        funext sc'
        by_cases hs : sc' = sc
        · rw [hs, hsc, if_neg (by simp), Nat.add_zero]
        · exact hheld sc' hs
      rw [heq]

/-- A permit that is given back was held. -/
theorem built_release (hheld : ∀ sc', sc' ≠ sc → held' sc' = held sc')
    (hsc : held' sc + 1 = held sc) : (p.release sc).built held' = p.built held := by
  unfold release
  split
  · rename_i h
    exact built_congr_held h hheld
  · rename_i s h
    refine built_setSem h ?_ hheld
    simp only
    omega

end ProviderLimits

/-- A fresh entry is built as its configuration declares. -/
theorem ProviderLimits.built_fromConfig (p : ProviderConfig) (born : Births) :
    (fromConfig p born).built (fun _ => 0) = p.declares := by
  have hsize : ∀ (cfg : RateLimitConfig) (b : Instant × Instant),
      (Limit.fromConfig cfg b).built 0 = cfg.size := fun cfg b => by
    simp only [Limit.built, Limit.fromConfig, RateLimitConfig.size, Option.map_map]
    cases cfg.maxConcurrent <;> rfl
  funext sc
  cases sc with
  | none =>
    rw [built, limit, ProviderConfig.declares, Option.map_some, fromConfig]
    cases p.limits with
    | none => rfl
    | some cfg => exact congrArg some (hsize cfg _)
  | some model =>
    rw [built, limit, ProviderConfig.declares, fromConfig, Finmap.lookup_mapVal, Option.map_map]
    cases p.modelLimits.lookup model with
    | none => rfl
    | some cfg => exact congrArg some (hsize cfg _)

/-! ## Calls -/

namespace Call

/-- The permits a call holds, by scope. -/
def holds (c : Call) : Scope → ℕ
  | none => c.heldGlobal.toNat
  | some model => (c.heldModel && c.model == model).toNat

/-- A call holds no permit before it has acquired one. -/
def Unheld (c : Call) : Prop :=
  match c.pc with
  | .semGlobal => c.heldGlobal = false ∧ c.heldModel = false
  | .semModel => c.heldModel = false
  | _ => True

theorem holds_congr {c c' : Call} (hg : c'.heldGlobal = c.heldGlobal)
    (hm : c'.heldModel = c.heldModel) (hmodel : c'.model = c.model) : c'.holds = c.holds := by
  funext sc
  cases sc <;> simp [holds, hg, hm, hmodel]

/-- Whether a call holds the model's permit does not matter for the other scopes. -/
theorem holds_ne_model {c c' : Call} (hg : c'.heldGlobal = c.heldGlobal)
    (hmodel : c'.model = c.model) {sc : Scope} (h : sc ≠ some c.model) :
    c'.holds sc = c.holds sc := by
  cases sc with
  | none => simp [holds, hg]
  | some m =>
    have hne : (c.model == m) = false := beq_false_of_ne fun he => h (congrArg some he.symm)
    simp [holds, hmodel, hne]

/-- Whether a call holds the provider's permit does not matter for its models. -/
theorem holds_ne_global {c c' : Call} (hm : c'.heldModel = c.heldModel)
    (hmodel : c'.model = c.model) {sc : Scope} (h : sc ≠ none) : c'.holds sc = c.holds sc := by
  cases sc with
  | none => exact absurd rfl h
  | some m => simp [holds, hm, hmodel]

/-- What an operation may do: keep what the entry is built with, and stay with its request. -/
structure Keeps (p : ProviderLimits) (c : Call) (r : ProviderLimits × Call) : Prop where
  built : r.1.built r.2.holds = p.built c.holds
  unheld : r.2.Unheld
  entry : r.2.entry = c.entry

variable {p : ProviderLimits} {c : Call}

/-- An operation that moves no permit. -/
theorem Keeps.of_same {p' : ProviderLimits} {c' : Call}
    (hbuilt : ∀ held, p'.built held = p.built held) (hg : c'.heldGlobal = c.heldGlobal)
    (hm : c'.heldModel = c.heldModel) (hmodel : c'.model = c.model) (hunheld : c'.Unheld)
    (hentry : c'.entry = c.entry) : Keeps p c (p', c') where
  built := by rw [holds_congr hg hm hmodel, hbuilt]
  unheld := hunheld
  entry := hentry

/-- Giving the model's permit back, if it is held. -/
theorem built_dropModel {c' : Call} (hg : c'.heldGlobal = c.heldGlobal)
    (hmodel : c'.model = c.model) (hm : c'.heldModel = false) :
    (if c.heldModel then p.release (some c.model) else p).built c'.holds = p.built c.holds := by
  split
  · rename_i hheld
    refine p.built_release (some c.model) (fun _ hne => holds_ne_model hg hmodel hne) ?_
    simp [holds, hm, hheld]
  · rename_i hheld
    rw [holds_congr hg (hm.trans (Bool.eq_false_iff.mpr hheld).symm) hmodel]

/-- Giving the provider's permit back, if it is held. -/
theorem built_dropGlobal {c' : Call} (hm : c'.heldModel = c.heldModel)
    (hmodel : c'.model = c.model) (hg : c'.heldGlobal = false) :
    (if c.heldGlobal then p.release none else p).built c'.holds = p.built c.holds := by
  split
  · rename_i hheld
    refine p.built_release none (fun _ hne => holds_ne_global hm hmodel hne) ?_
    simp [holds, hg, hheld]
  · rename_i hheld
    rw [holds_congr (hg.trans (Bool.eq_false_iff.mpr hheld).symm) hm hmodel]

/-- **One operation of an admission** keeps what the entry is built with. -/
theorem step_keeps (h : c.Unheld) : Keeps p c (step p c) := by
  unfold Unheld at h
  rcases hpc : c.pc with _ | _ | _ | _ | _ | _ | d | why | why | why | _ | _ <;>
    simp only [hpc] at h <;> simp only [step, hpc]
  case semGlobal =>
    have hbuilt : ∀ c' : Call, c'.heldModel = c.heldModel → c'.model = c.model →
        c'.heldGlobal = decide ((p.acquire none).1 = .ok true) →
        (p.acquire none).2.built c'.holds = p.built c.holds := by
      intro c' hm hmodel hg
      refine p.built_acquire none (fun _ hne => holds_ne_global hm hmodel hne) ?_
      rw [holds, holds, hg, h.1]
      by_cases hok : (p.acquire none).1 = .ok true <;> simp [hok]
    rcases ha : p.acquire none with ⟨held | d | _, p'⟩ <;> rw [ha] at hbuilt
    · exact ⟨hbuilt _ rfl rfl (by cases held <;> simp), h.2, rfl⟩
    · exact ⟨hbuilt _ rfl rfl (h.1.trans (by simp)), trivial, rfl⟩
    · exact ⟨hbuilt _ rfl rfl (h.1.trans (by simp)), trivial, rfl⟩
  case semModel =>
    have hbuilt : ∀ c' : Call, c'.heldGlobal = c.heldGlobal → c'.model = c.model →
        c'.heldModel = decide ((p.acquire (some c.model)).1 = .ok true) →
        (p.acquire (some c.model)).2.built c'.holds = p.built c.holds := by
      intro c' hg hmodel hm
      refine p.built_acquire (some c.model) (fun _ hne => holds_ne_model hg hmodel hne) ?_
      rw [holds, holds, hm, h, hmodel]
      by_cases hok : (p.acquire (some c.model)).1 = .ok true <;> simp [hok]
    rcases ha : p.acquire (some c.model) with ⟨held | d | _, p'⟩ <;> rw [ha] at hbuilt
    · exact ⟨hbuilt _ rfl rfl (by cases held <;> simp), trivial, rfl⟩
    · exact ⟨hbuilt _ rfl rfl (h.trans (by simp)), trivial, rfl⟩
    · exact ⟨hbuilt _ rfl rfl (h.trans (by simp)), trivial, rfl⟩
  case tpmGlobal =>
    have hbuilt := p.built_floor none c.now
    rcases ha : p.floor none c.now with ⟨_ | d | _, p'⟩ <;> rw [ha] at hbuilt <;>
      exact .of_same hbuilt rfl rfl rfl trivial rfl
  case tpmModel =>
    have hbuilt := p.built_floor (some c.model) c.now
    rcases ha : p.floor (some c.model) c.now with ⟨_ | d | _, p'⟩ <;> rw [ha] at hbuilt <;>
      exact .of_same hbuilt rfl rfl rfl trivial rfl
  case rpmGlobal =>
    have hbuilt := p.built_take none c.now
    rcases ha : p.take none c.now with ⟨took | d | _, p'⟩ <;> rw [ha] at hbuilt <;>
      exact .of_same hbuilt rfl rfl rfl trivial rfl
  case rpmModel =>
    have hbuilt := p.built_take (some c.model) c.now
    rcases ha : p.take (some c.model) c.now with ⟨took | d | _, p'⟩ <;> rw [ha] at hbuilt
    · exact .of_same hbuilt rfl rfl rfl trivial rfl
    · dsimp only
      split <;> exact .of_same hbuilt rfl rfl rfl trivial rfl
    · exact .of_same hbuilt rfl rfl rfl trivial rfl
  case refundGlobal =>
    have hbuilt := p.built_refund none c.now
    rcases ha : p.refund none c.now with ⟨_ | _ | _, p'⟩ <;> rw [ha] at hbuilt <;>
      exact .of_same hbuilt rfl rfl rfl trivial rfl
  case dropModel => exact ⟨built_dropModel rfl rfl rfl, trivial, rfl⟩
  case dropGlobal => exact ⟨built_dropGlobal rfl rfl rfl, trivial, rfl⟩
  case refused => exact .of_same (fun _ => rfl) rfl rfl rfl (by simp only [Unheld, hpc]) rfl
  case admitted => exact .of_same (fun _ => rfl) rfl rfl rfl (by simp only [Unheld, hpc]) rfl
  case released => exact .of_same (fun _ => rfl) rfl rfl rfl (by simp only [Unheld, hpc]) rfl

/-- **Dropping a guard** keeps what the entry is built with. -/
theorem drop_keeps (h : c.Unheld) : Keeps p c (drop p c) := by
  unfold drop
  split
  · refine ⟨?_, trivial, rfl⟩
    -- the provider's permit first, then the model's
    have hglobal : (if c.heldGlobal then p.release none else p).built
        { c with heldGlobal := false }.holds = p.built c.holds := built_dropGlobal rfl rfl rfl
    rw [← hglobal]
    exact built_dropModel (c := { c with heldGlobal := false }) rfl rfl rfl
  · exact .of_same (fun _ => rfl) rfl rfl rfl h rfl

end Call

/-! ## All calls -/

namespace LimiterState

/-- The permits all calls hold of a scope of the entry `e`. -/
def heldPermits (calls : List Call) (e : ℕ) (sc : Scope) : ℕ :=
  (calls.map fun c => if c.entry = e then c.holds sc else 0).sum

/-- What the entry `e` is built with. -/
def built (s : LimiterState) (e : ℕ) : Option (Scope → Option ScopeSize) :=
  (s.store[e]?).map (·.built (heldPermits s.calls e))

private theorem sum_map_set_add {α : Type} (f : α → ℕ) {l : List α} {i : ℕ} {a : α} (a' : α)
    (h : l[i]? = some a) : ((l.set i a').map f).sum + f a = (l.map f).sum + f a' := by
  induction l generalizing i with
  | nil => simp at h
  | cons b l ih =>
    cases i with
    | zero =>
      simp only [List.getElem?_cons_zero, Option.some.injEq] at h
      simp only [h, List.set_cons_zero, List.map_cons, List.sum_cons]
      omega
    | succ i =>
      simp only [List.getElem?_cons_succ] at h
      have := ih h
      simp only [List.set_cons_succ, List.map_cons, List.sum_cons]
      omega

theorem heldPermits_set {calls : List Call} {i : ℕ} {c c' : Call} (h : calls[i]? = some c)
    (hentry : c'.entry = c.entry) (sc : Scope) :
    heldPermits (calls.set i c') c.entry sc + c.holds sc =
      heldPermits calls c.entry sc + c'.holds sc := by
  have hsum := sum_map_set_add (fun x => if x.entry = c.entry then x.holds sc else 0) c' h
  simpa only [heldPermits, hentry, if_true] using hsum

theorem heldPermits_set_ne {calls : List Call} {i : ℕ} {c c' : Call} (h : calls[i]? = some c)
    (hentry : c'.entry = c.entry) {e : ℕ} (he : c.entry ≠ e) (sc : Scope) :
    heldPermits (calls.set i c') e sc = heldPermits calls e sc := by
  have hsum := sum_map_set_add (fun x => if x.entry = e then x.holds sc else 0) c' h
  simpa only [heldPermits, hentry, if_neg he, Nat.add_zero] using hsum

theorem heldPermits_fresh (calls : List Call) (entry : ℕ) (model : String) (now : Instant) (e : ℕ) :
    heldPermits (calls ++ [.fresh entry model now]) e = heldPermits calls e := by
  funext sc
  have h : (Call.fresh entry model now).holds sc = 0 := by cases sc <;> rfl
  simp [heldPermits, h]

end LimiterState

/-- More permits held by others change nothing. -/
theorem ProviderLimits.built_add {p p' : ProviderLimits} {held held' total total' : Scope → ℕ}
    (h : p'.built held' = p.built held)
    (htotal : ∀ sc, total' sc + held sc = total sc + held' sc) :
    p'.built total' = p.built total := by
  funext sc
  have hsc := congrFun h sc
  have ht := htotal sc
  rw [built, built] at hsc ⊢
  cases hl : p.limit sc with
  | none =>
    rw [hl, Option.map_none, Option.map_eq_none_iff] at hsc
    rw [hsc]
    rfl
  | some l =>
    cases hl' : p'.limit sc with
    | none => rw [hl, hl'] at hsc; cases hsc
    | some l' =>
      rw [hl, hl', Option.map_some, Option.map_some, Option.some.injEq] at hsc
      rw [Option.map_some, Option.map_some]
      simp only [Limit.built, ScopeSize.mk.injEq, Option.some.injEq] at hsc ⊢
      refine ⟨hsc.1, hsc.2.1, ?_⟩
      cases hs : l.sem with
      | none =>
        rw [hs, Option.map_none, Option.map_eq_none_iff] at hsc
        rw [hsc.2.2]
        rfl
      | some m =>
        cases hs' : l'.sem with
        | none => rw [hs, hs'] at hsc; cases hsc.2.2
        | some m' =>
          rw [hs, hs', Option.map_some, Option.map_some, Option.some.injEq] at hsc
          rw [Option.map_some, Option.map_some, Option.some.injEq]
          omega

namespace LimiterState

/-- Every call belongs to an entry of the store and holds no permit it has not acquired, and every
limiter's entries are there. -/
structure Tidy (s : LimiterState) : Prop where
  calls : ∀ c ∈ s.calls, c.entry < s.store.length ∧ c.Unheld
  entries : ∀ l ∈ s.limiters, ∀ n e, l.providers.lookup n = some e → e < s.store.length

namespace Tidy

variable {s : LimiterState}

theorem lt_of_entry (h : s.Tidy) {limiter : ℕ} {provider : String} {e : ℕ}
    (he : s.entry limiter provider = some e) : e < s.store.length := by
  unfold LimiterState.entry at he
  split at he
  · cases he
  · rename_i l hl
    exact h.entries l (List.mem_of_getElem? hl) provider e he

/-- A call performs an operation that keeps its entry. -/
theorem act (h : s.Tidy) (i : ℕ) {op : ProviderLimits → Call → ProviderLimits × Call}
    (hop : ∀ {p c}, c.Unheld → Call.Keeps p c (op p c)) :
    (s.act i op).Tidy ∧ (s.act i op).built = s.built := by
  unfold LimiterState.act
  split
  · exact ⟨h, rfl⟩
  rename_i c hc
  split
  · exact ⟨h, rfl⟩
  rename_i p hp
  obtain ⟨hlt, hunheld⟩ := h.calls c (List.mem_of_getElem? hc)
  obtain ⟨hbuilt, hunheld', hentry⟩ := hop hunheld (p := p)
  refine ⟨⟨fun c' hc' => ?_, fun l hl n e he => by simpa using h.entries l hl n e he⟩, ?_⟩
  · rw [List.length_set]
    rcases List.mem_or_eq_of_mem_set hc' with hc' | rfl
    · exact h.calls c' hc'
    · exact ⟨hentry ▸ hlt, hunheld'⟩
  · funext e
    rw [built, built]
    dsimp only
    by_cases he : c.entry = e
    · subst he
      rw [List.getElem?_set_self hlt, hp, Option.map_some, Option.map_some]
      exact congrArg some (ProviderLimits.built_add hbuilt fun sc => heldPermits_set hc hentry sc)
    · rw [List.getElem?_set_ne he]
      exact congrArg (Option.map · _) (funext fun p => congrArg p.built
        (funext fun sc => heldPermits_set_ne hc hentry he sc))

/-- **No request changes what an entry is built with.** -/
theorem step (h : s.Tidy) {e : Event} (he : ∀ l ps u b, e ≠ .reconcile l ps u b) :
    (s.step e).Tidy ∧ (s.step e).built = s.built := by
  cases e with
  | tryAdmit limiter provider model now =>
    simp only [LimiterState.step]
    split
    · exact ⟨h, rfl⟩
    · rename_i e hentry
      refine ⟨⟨fun c hc => ?_, h.entries⟩, ?_⟩
      · rcases List.mem_append.mp hc with hc | hc
        · exact h.calls c hc
        · rw [List.mem_singleton.mp hc]
          exact ⟨h.lt_of_entry hentry, rfl, rfl⟩
      · funext e'
        rw [built, built, heldPermits_fresh]
  | advance i => exact h.act i Call.step_keeps
  | drop i => exact h.act i Call.drop_keeps
  | debit limiter provider sc tokens now =>
    simp only [LimiterState.step]
    split
    · exact ⟨h, rfl⟩
    rename_i e hentry
    split
    · exact ⟨h, rfl⟩
    rename_i p hp
    refine ⟨⟨fun c hc => by simpa using h.calls c hc,
      fun l hl n e he => by simpa using h.entries l hl n e he⟩, ?_⟩
    funext e'
    rw [built, built]
    dsimp only
    by_cases he : e = e'
    · subst he
      rw [List.getElem?_set_self (h.lt_of_entry hentry), hp, Option.map_some, Option.map_some,
        ProviderLimits.built_debit]
    · rw [List.getElem?_set_ne he]
  | reconcile l ps u b => exact absurd rfl (he l ps u b)

end Tidy

end LimiterState

end Llmleaf
