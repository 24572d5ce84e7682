import Llmleaf.Lib.HashMap
import Llmleaf.Lib.Runs

/-!
# The login throttle

The failed logins of a client are counted from the first one on, in a window of five minutes; when
the count is full, further attempts are refused until the window has passed. An attempt asks the
throttle, verifies the password, and then records the failure or clears the count: three critical
sections, between which other attempts take theirs.

- `check`, `recordFailure`, `reset`: the throttle. The clock readings of one call are taken as one.
- `Logins.step`: the attempts of all clients, interleaved in any way.
- `Sound`: what a paced run keeps; `Sound.step`: one step.
- **Result** (`throttled`): in a run whose steps are paced, no client has more than ten wrong
  passwords verified within five minutes without a successful login.
-/

namespace Llmleaf.Web.Throttle

open Runs

/-- The failures that a client may have in a window. -/
def maxFailures : ℕ := 10

/-- The length of a window, in nanoseconds. -/
def window : ℕ := 5 * 60 * 10 ^ 9

structure Entry where
  failures : ℕ
  windowStart : ℕ
  deriving DecidableEq

/-- The time since the window began. -/
def Entry.elapsed (e : Entry) (now : ℕ) : ℕ := now - e.windowStart

/-- The seconds until the window has passed. -/
def remainingSecs (e : Entry) (now : ℕ) : ℕ := max ((window - e.elapsed now) / 10 ^ 9) 1

section

variable {Ip : Type} [DecidableEq Ip]

/-- Whether a client may attempt a login. -/
def check (entries : HashMap Ip Entry) (ip : Ip) (now : ℕ) : Except ℕ Unit :=
  match entries.lookup ip with
  | some e =>
    if maxFailures ≤ e.failures ∧ e.elapsed now < window then .error (remainingSecs e now)
    else .ok ()
  | none => .ok ()

/-- The entry of a client after another failure. -/
def failed (e : Option Entry) (now : ℕ) : Entry :=
  let e := e.getD ⟨0, now⟩
  let e := if window ≤ e.elapsed now then ⟨0, now⟩ else e
  { e with failures := e.failures + 1 }

/-- Record a failed attempt; a large map loses the windows that have passed. -/
def recordFailure (entries : HashMap Ip Entry) (ip : Ip) (now : ℕ) : HashMap Ip Entry :=
  let entries := entries.insert ip (failed (entries.lookup ip) now)
  if 10000 < entries.keys.length then HashMap.retain (fun _ e => e.elapsed now < window) entries
  else entries

/-- Forget the failures of a client. -/
def reset (entries : HashMap Ip Entry) (ip : Ip) : HashMap Ip Entry := entries.erase ip

/-- The failures of the window that runs, if one does. -/
def running (entries : HashMap Ip Entry) (ip : Ip) (now : ℕ) : Option ℕ :=
  (entries.lookup ip).bind fun e => if e.elapsed now < window then some e.failures else none

/-- An attempt passes where no window runs, or where the running one has room. -/
theorem check_ok_iff {entries : HashMap Ip Entry} {ip : Ip} {now : ℕ} :
    check entries ip now = .ok () ↔ ∀ failures ∈ running entries ip now, failures < maxFailures := by
  unfold check running
  cases entries.lookup ip with
  | none => simp
  | some e => by_cases helapsed : e.elapsed now < window <;> simp [helapsed]

theorem elapsed_self (failures now : ℕ) : (Entry.mk failures now).elapsed now < window := by
  simp [Entry.elapsed, window]

/-- After a failure a window runs. -/
theorem elapsed_failed (e : Option Entry) (now : ℕ) : (failed e now).elapsed now < window := by
  unfold failed
  dsimp only
  split
  · exact elapsed_self _ _
  · rename_i h
    simpa [Entry.elapsed] using h

/-- A failure is counted in the window that runs, or begins one. -/
theorem running_recordFailure (entries : HashMap Ip Entry) (ip ip' : Ip) (now : ℕ) :
    running (recordFailure entries ip now) ip' now =
      if ip' = ip then some ((running entries ip now).getD 0 + 1) else running entries ip' now := by
  have hretain : ∀ m : HashMap Ip Entry,
      running (m.retain fun _ e => e.elapsed now < window) ip' now = running m ip' now := by
    intro m
    unfold running
    rw [HashMap.lookup_retain]
    cases m.lookup ip' with
    | none => rfl
    | some e => by_cases h : e.elapsed now < window <;> simp [h, Option.filter]
  have hinsert : running (entries.insert ip (failed (entries.lookup ip) now)) ip' now =
      if ip' = ip then some ((running entries ip now).getD 0 + 1) else running entries ip' now := by
    unfold running
    rw [HashMap.lookup_insert_eq]
    by_cases hip : ip' = ip
    · rw [if_pos hip, if_pos hip, Option.bind_some, if_pos (elapsed_failed _ _)]
      unfold failed
      cases entries.lookup ip with
      | none => simp [Entry.elapsed, window]
      | some e =>
        by_cases h : e.elapsed now < window
        · simp [h, Nat.not_le.mpr h]
        · simp [h, Nat.not_lt.mp h]
    · rw [if_neg hip, if_neg hip]
  unfold recordFailure
  dsimp only
  split
  · rw [hretain, hinsert]
  · exact hinsert

theorem running_reset (entries : HashMap Ip Entry) (ip ip' : Ip) (now : ℕ) :
    running (reset entries ip) ip' now = if ip' = ip then none else running entries ip' now := by
  unfold running reset
  rw [HashMap.lookup_erase_eq]
  by_cases hip : ip' = ip <;> simp [hip]

/-- A window that runs later ran before. -/
theorem running_later {entries : HashMap Ip Entry} {ip : Ip} {now failures : ℕ} (ns : ℕ)
    (h : running entries ip (now + ns) = some failures) :
    running entries ip now = some failures := by
  obtain ⟨e, he, hfailures⟩ := Option.bind_eq_some_iff.mp h
  unfold running
  rw [he, Option.bind_some]
  unfold Entry.elapsed at hfailures ⊢
  by_cases helapsed : now + ns - e.windowStart < window
  · rw [if_pos helapsed] at hfailures
    rw [if_pos (by omega), hfailures]
  · rw [if_neg helapsed] at hfailures
    cases hfailures

/-! ## Attempts -/

/-- An attempt that the throttle let through, with its password's verdict once there is one. -/
structure Attempt (Ip : Type) where
  ip : Ip
  right : Option Bool
  deriving DecidableEq

/-- What an observer sees of the logins. -/
inductive Login (Ip : Type) where
  | wrong (ip : Ip) (time : ℕ)
  | success (ip : Ip) (time : ℕ)
  deriving DecidableEq

def Login.time : Login Ip → ℕ
  | .wrong _ t | .success _ t => t

/-- The throttle with the attempts in flight; the log has the latest login first. -/
structure Logins (Ip : Type) where
  entries : HashMap Ip Entry
  clock : ℕ
  flight : List (Attempt Ip)
  log : List (Login Ip)

/-- A critical section of an attempt, or time that passes. -/
inductive Event (Ip : Type) where
  | tick (ns : ℕ)
  | check (ip : Ip)
  | verify (ip : Ip) (right : Bool)
  | recordFailure (ip : Ip)
  | reset (ip : Ip)

/-- A fresh process. -/
def Logins.start (clock : ℕ) : Logins Ip := ⟨∅, clock, [], []⟩

/-- **One step**, if there is an attempt that is ready for it. Attempts of one client at one point
are alike. -/
def Logins.step (s : Logins Ip) : Event Ip → Option (Logins Ip)
  | .tick ns => some { s with clock := s.clock + ns }
  | .check ip =>
    match Throttle.check s.entries ip s.clock with
    | .ok () => some { s with flight := ⟨ip, none⟩ :: s.flight }
    | .error _ => some s
  | .verify ip right =>
    if ⟨ip, none⟩ ∈ s.flight then
      some { s with
        flight := ⟨ip, some right⟩ :: s.flight.erase ⟨ip, none⟩
        log := if right then s.log else .wrong ip s.clock :: s.log }
    else none
  | .recordFailure ip =>
    if ⟨ip, some false⟩ ∈ s.flight then
      some { s with
        entries := Throttle.recordFailure s.entries ip s.clock
        flight := s.flight.erase ⟨ip, some false⟩ }
    else none
  | .reset ip =>
    if ⟨ip, some true⟩ ∈ s.flight then
      some { s with
        entries := Throttle.reset s.entries ip
        flight := s.flight.erase ⟨ip, some true⟩
        log := .success ip s.clock :: s.log }
    else none

/-- The logins of a process that starts at some time. -/
def system (Ip : Type) [DecidableEq Ip] : Sys (Logins Ip) (Event Ip) :=
  .ofOption (fun s => ∃ clock, s = .start clock) Logins.step

/-- The time of a client's wrong password. -/
def Login.wrongTime (ip : Ip) : Login Ip → Option ℕ
  | .wrong ip' t => if ip' = ip then some t else none
  | .success _ _ => none

/-- The times of a client's wrong passwords. -/
def wrongTimes (ip : Ip) (log : List (Login Ip)) : List ℕ := log.filterMap (Login.wrongTime ip)

/-- The times of a client's wrong passwords since its last successful login. -/
def live (ip : Ip) : List (Login Ip) → List ℕ
  | [] => []
  | .wrong ip' t :: log => if ip' = ip then t :: live ip log else live ip log
  | .success ip' _ :: log => if ip' = ip then [] else live ip log

/-- The wrong passwords of the last window since the last successful login. -/
def young (log : List (Login Ip)) (ip : Ip) (now : ℕ) : ℕ :=
  (live ip log).countP fun t => now < t + window

/-- The attempts of a client that are in flight. -/
def pending (flight : List (Attempt Ip)) (ip : Ip) : ℕ := flight.countP fun a => a.ip = ip

/-- Those of them whose wrong password is not recorded yet. -/
def unrecorded (flight : List (Attempt Ip)) (ip : Ip) : ℕ := flight.count ⟨ip, some false⟩

/-- The others. -/
def undecided (flight : List (Attempt Ip)) (ip : Ip) : ℕ :=
  flight.count ⟨ip, none⟩ + flight.count ⟨ip, some true⟩

/-- **A paced step**: a check lets an attempt through only while the failures counted and the attempts
in flight leave room for it; and where no window runs, every failure of the last five minutes is still
to be recorded. -/
def Paced (s : Logins Ip) : Event Ip → Prop
  | .check ip =>
    match running s.entries ip s.clock with
    | some failures => failures < maxFailures → failures + pending s.flight ip < maxFailures
    | none => young s.log ip s.clock ≤ unrecorded s.flight ip ∧ pending s.flight ip < maxFailures
  | .recordFailure ip =>
    running s.entries ip s.clock = none → young s.log ip s.clock ≤ unrecorded s.flight ip
  | .tick _ | .verify _ _ | .reset _ => True

/-- What a paced run keeps: the wrong passwords of the last window and the attempts that may bring
another one are within the budget, and a window that runs has counted what is recorded. -/
structure Sound (s : Logins Ip) (ip : Ip) : Prop where
  budget : young s.log ip s.clock + undecided s.flight ip ≤ maxFailures
  counted : ∀ failures, running s.entries ip s.clock = some failures →
    young s.log ip s.clock ≤ failures + unrecorded s.flight ip

/-! ## The steps -/

theorem pending_eq (flight : List (Attempt Ip)) (ip : Ip) :
    pending flight ip = unrecorded flight ip + undecided flight ip := by
  unfold pending unrecorded undecided
  induction flight with
  | nil => rfl
  | cons a l ih =>
    obtain ⟨ip', right⟩ := a
    simp only [List.countP_cons, List.count_cons, ih]
    by_cases hip : ip' = ip
    · rcases right with _ | _ | _ <;> simp [hip] <;> omega
    · simp [hip]

/-- Time makes failures old. -/
theorem young_later (log : List (Login Ip)) (ip : Ip) (now ns : ℕ) :
    young log ip (now + ns) ≤ young log ip now := by
  refine List.countP_mono_left fun t _ h => ?_
  simp only [decide_eq_true_eq] at h ⊢
  omega

/-- A wrong password is young. -/
theorem young_wrong (log : List (Login Ip)) (ip' ip : Ip) (now : ℕ) :
    young (.wrong ip' now :: log) ip now = young log ip now + if ip' = ip then 1 else 0 := by
  rw [young, young, live]
  by_cases hip : ip' = ip
  · rw [if_pos hip, if_pos hip, List.countP_cons_of_pos]
    simp [window]
  · rw [if_neg hip, if_neg hip, Nat.add_zero]

theorem young_success (log : List (Login Ip)) (ip' ip : Ip) (time now : ℕ) :
    young (.success ip' time :: log) ip now = if ip' = ip then 0 else young log ip now := by
  rw [young, young, live]
  by_cases hip : ip' = ip
  · rw [if_pos hip, if_pos hip]
    rfl
  · rw [if_neg hip, if_neg hip]

section

variable {s : Logins Ip} {ip : Ip}

theorem Sound.tick (h : Sound s ip) (ns : ℕ) : Sound { s with clock := s.clock + ns } ip where
  budget := (Nat.add_le_add_right (young_later s.log ip s.clock ns) _).trans h.budget
  counted _ hrunning :=
    (young_later s.log ip s.clock ns).trans (h.counted _ (running_later ns hrunning))

/-- A paced check adds one attempt within the budget. -/
theorem Sound.check (h : Sound s ip) {ip' : Ip} (hpaced : Paced s (.check ip'))
    (hok : Throttle.check s.entries ip' s.clock = .ok ()) :
    Sound { s with flight := ⟨ip', none⟩ :: s.flight } ip := by
  have hunrecorded : unrecorded (⟨ip', none⟩ :: s.flight) ip = unrecorded s.flight ip := by
    simp [unrecorded]
  have hundecided : undecided (⟨ip', none⟩ :: s.flight) ip =
      undecided s.flight ip + if ip' = ip then 1 else 0 := by
    simp [undecided, List.count_cons]
    omega
  constructor
  · show young s.log ip s.clock + undecided (⟨ip', none⟩ :: s.flight) ip ≤ maxFailures
    rw [hundecided]
    have hbudget := h.budget
    by_cases hip : ip' = ip
    · subst hip
      rw [if_pos rfl]
      have hpending := pending_eq s.flight ip'
      have hroom := check_ok_iff.mp hok
      unfold Paced at hpaced
      cases hrunning : running s.entries ip' s.clock with
      | none =>
        simp only [hrunning] at hpaced
        omega
      | some failures =>
        simp only [hrunning] at hpaced
        have hcounted := h.counted failures hrunning
        have hpaced := hpaced (hroom failures hrunning)
        omega
    · rw [if_neg hip]
      exact hbudget
  · intro failures hrunning
    show young s.log ip s.clock ≤ failures + unrecorded (⟨ip', none⟩ :: s.flight) ip
    rw [hunrecorded]
    exact h.counted failures hrunning

/-- A verdict turns an undecided attempt into a wrong password, or into a right one. -/
theorem Sound.verify (h : Sound s ip) {ip' : Ip} (hmem : ⟨ip', none⟩ ∈ s.flight) (right : Bool) :
    Sound { s with
      flight := ⟨ip', some right⟩ :: s.flight.erase ⟨ip', none⟩
      log := if right then s.log else .wrong ip' s.clock :: s.log } ip := by
  have hpos := List.count_pos_iff.mpr hmem
  have hbudget := h.budget
  have hcounted := h.counted
  generalize hflight : (⟨ip', some right⟩ :: s.flight.erase ⟨ip', none⟩) = flight
  by_cases hip : ip' = ip
  · subst hip
    cases right with
    | true =>
      have hunrecorded : unrecorded flight ip' = unrecorded s.flight ip' := by
        simp [unrecorded, ← hflight]
      have hundecided : undecided flight ip' = undecided s.flight ip' := by
        simp [undecided, ← hflight]
        omega
      exact ⟨hundecided ▸ hbudget, hunrecorded ▸ hcounted⟩
    | false =>
      have hunrecorded : unrecorded flight ip' = unrecorded s.flight ip' + 1 := by
        simp [unrecorded, ← hflight]
      have hundecided : undecided flight ip' + 1 = undecided s.flight ip' := by
        simp [undecided, ← hflight]
        omega
      have hyoung := young_wrong s.log ip' ip' s.clock
      rw [if_pos rfl] at hyoung
      constructor
      · show young (.wrong ip' s.clock :: s.log) ip' s.clock + undecided flight ip' ≤ maxFailures
        omega
      · intro failures hrunning
        have hcounted := hcounted failures hrunning
        show young (.wrong ip' s.clock :: s.log) ip' s.clock ≤ failures + unrecorded flight ip'
        omega
  · -- another client's attempt
    have hunrecorded : unrecorded flight ip = unrecorded s.flight ip := by
      simp [unrecorded, ← hflight, hip]
    have hundecided : undecided flight ip = undecided s.flight ip := by
      simp [undecided, ← hflight, List.count_erase, hip]
    have hyoung : young (if right then s.log else .wrong ip' s.clock :: s.log) ip s.clock =
        young s.log ip s.clock := by
      cases right with
      | true => rfl
      | false =>
        have hyoung := young_wrong s.log ip' ip s.clock
        rwa [if_neg hip] at hyoung
    constructor
    · show young (if right then s.log else .wrong ip' s.clock :: s.log) ip s.clock +
        undecided flight ip ≤ maxFailures
      rw [hyoung, hundecided]
      exact hbudget
    · intro failures hrunning
      show young (if right then s.log else .wrong ip' s.clock :: s.log) ip s.clock ≤
        failures + unrecorded flight ip
      rw [hyoung, hunrecorded]
      exact hcounted failures hrunning

/-- A paced failure is counted. -/
theorem Sound.recordFailure (h : Sound s ip) {ip' : Ip} (hpaced : Paced s (.recordFailure ip'))
    (hmem : ⟨ip', some false⟩ ∈ s.flight) :
    Sound { s with
      entries := Throttle.recordFailure s.entries ip' s.clock
      flight := s.flight.erase ⟨ip', some false⟩ } ip := by
  have hpos := List.count_pos_iff.mpr hmem
  have hundecided : undecided (s.flight.erase ⟨ip', some false⟩) ip = undecided s.flight ip := by
    simp [undecided]
  constructor
  · show young s.log ip s.clock + undecided (s.flight.erase ⟨ip', some false⟩) ip ≤ maxFailures
    rw [hundecided]
    exact h.budget
  · intro failures hrunning
    show young s.log ip s.clock ≤ failures + unrecorded (s.flight.erase ⟨ip', some false⟩) ip
    rw [running_recordFailure] at hrunning
    by_cases hip : ip = ip'
    · subst hip
      rw [if_pos rfl] at hrunning
      have hunrecorded : unrecorded (s.flight.erase ⟨ip, some false⟩) ip + 1 =
          unrecorded s.flight ip := by
        simp only [unrecorded, List.count_erase_self]
        omega
      cases hbefore : running s.entries ip s.clock with
      | none =>
        -- a new window begins: what is young is still to be recorded
        have hpaced := hpaced hbefore
        rw [hbefore] at hrunning
        cases hrunning
        omega
      | some before =>
        have hcounted := h.counted before hbefore
        rw [hbefore] at hrunning
        cases hrunning
        simp only [Option.getD_some]
        omega
    · rw [if_neg hip] at hrunning
      have hunrecorded : unrecorded (s.flight.erase ⟨ip', some false⟩) ip =
          unrecorded s.flight ip := by
        simp [unrecorded, List.count_erase, Ne.symm hip]
      rw [hunrecorded]
      exact h.counted failures hrunning

/-- A successful login clears the count. -/
theorem Sound.reset (h : Sound s ip) (ip' : Ip) :
    Sound { s with
      entries := Throttle.reset s.entries ip'
      flight := s.flight.erase ⟨ip', some true⟩
      log := .success ip' s.clock :: s.log } ip := by
  have hundecided : undecided (s.flight.erase ⟨ip', some true⟩) ip ≤ undecided s.flight ip := by
    simp only [undecided, List.count_erase]
    omega
  have hunrecorded : unrecorded (s.flight.erase ⟨ip', some true⟩) ip = unrecorded s.flight ip := by
    simp [unrecorded]
  have hyoung := young_success s.log ip' ip s.clock s.clock
  have hbudget := h.budget
  constructor
  · show young (.success ip' s.clock :: s.log) ip s.clock +
      undecided (s.flight.erase ⟨ip', some true⟩) ip ≤ maxFailures
    rw [hyoung]
    split <;> omega
  · intro failures hrunning
    show young (.success ip' s.clock :: s.log) ip s.clock ≤
      failures + unrecorded (s.flight.erase ⟨ip', some true⟩) ip
    rw [running_reset] at hrunning
    by_cases hip : ip = ip'
    · rw [if_pos hip] at hrunning
      cases hrunning
    · rw [if_neg hip] at hrunning
      rw [hyoung, if_neg (Ne.symm hip), hunrecorded]
      exact h.counted failures hrunning

/-- **One step** of a paced run. -/
theorem Sound.step {s' : Logins Ip} {e : Event Ip} (h : Sound s ip) (hstep : s.step e = some s')
    (hpaced : Paced s e) : Sound s' ip := by
  cases e with
  | tick ns =>
    cases hstep
    exact h.tick ns
  | check ip' =>
    unfold Logins.step at hstep
    dsimp only at hstep
    split at hstep
    · rename_i hok
      cases hstep
      exact h.check hpaced hok
    · cases hstep
      exact h
  | verify ip' right =>
    obtain ⟨hmem, hstep⟩ := Option.ite_none_right_eq_some.mp hstep
    cases hstep
    exact h.verify hmem right
  | recordFailure ip' =>
    obtain ⟨hmem, hstep⟩ := Option.ite_none_right_eq_some.mp hstep
    cases hstep
    exact h.recordFailure hpaced hmem
  | reset ip' =>
    obtain ⟨-, hstep⟩ := Option.ite_none_right_eq_some.mp hstep
    cases hstep
    exact h.reset ip'

end

/-! ## The log -/

/-- The log of a run: its times go back from the clock. -/
def Ordered (s : Logins Ip) : Prop :=
  (∀ l ∈ s.log, l.time ≤ s.clock) ∧ s.log.Pairwise fun l l' => l'.time ≤ l.time

/-- What a step adds to the log happens at once. -/
theorem log_step {s s' : Logins Ip} {e : Event Ip} (hstep : s.step e = some s') :
    s'.log = s.log ∨ s'.clock = s.clock ∧ ∃ ip, s'.log = .wrong ip s.clock :: s.log ∨
      s'.log = .success ip s.clock :: s.log := by
  cases e with
  | tick ns =>
    cases hstep
    exact .inl rfl
  | check ip =>
    unfold Logins.step at hstep
    dsimp only at hstep
    split at hstep <;> cases hstep <;> exact .inl rfl
  | verify ip right =>
    obtain ⟨-, hstep⟩ := Option.ite_none_right_eq_some.mp hstep
    cases hstep
    cases right with
    | true => exact .inl rfl
    | false => exact .inr ⟨rfl, ip, .inl rfl⟩
  | recordFailure ip =>
    obtain ⟨-, hstep⟩ := Option.ite_none_right_eq_some.mp hstep
    cases hstep
    exact .inl rfl
  | reset ip =>
    obtain ⟨-, hstep⟩ := Option.ite_none_right_eq_some.mp hstep
    cases hstep
    exact .inr ⟨rfl, ip, .inr rfl⟩

theorem clock_step {s s' : Logins Ip} {e : Event Ip} (hstep : s.step e = some s') :
    s.clock ≤ s'.clock := by
  cases e with
  | tick ns =>
    cases hstep
    exact Nat.le_add_right ..
  | check ip =>
    unfold Logins.step at hstep
    dsimp only at hstep
    split at hstep <;> cases hstep <;> exact Nat.le_refl _
  | verify ip right | recordFailure ip | reset ip =>
    obtain ⟨-, hstep⟩ := Option.ite_none_right_eq_some.mp hstep
    cases hstep
    exact Nat.le_refl _

theorem Ordered.step {s s' : Logins Ip} {e : Event Ip} (h : Ordered s)
    (hstep : s.step e = some s') : Ordered s' := by
  obtain ⟨hclock, hsorted⟩ := h
  have hcons : ∀ l : Login Ip, l.time = s.clock →
      (∀ l' ∈ l :: s.log, l'.time ≤ s.clock) ∧
        (l :: s.log).Pairwise fun l l' => l'.time ≤ l.time := by
    intro l hl
    refine ⟨List.forall_mem_cons.mpr ⟨hl.le, hclock⟩, List.pairwise_cons.mpr ⟨?_, hsorted⟩⟩
    intro l' hl'
    rw [hl]
    exact hclock l' hl'
  rcases log_step hstep with hlog | ⟨hnow, ip, hlog | hlog⟩
  · rw [Ordered, hlog]
    exact ⟨fun l hl => (hclock l hl).trans (clock_step hstep), hsorted⟩
  · rw [Ordered, hlog, hnow]
    exact hcons _ rfl
  · rw [Ordered, hlog, hnow]
    exact hcons _ rfl

/-- The wrong passwords of a client in a stretch of time of one window's length. -/
def wrongIn (log : List (Login Ip)) (ip : Ip) (since : ℕ) : ℕ :=
  (wrongTimes ip log).countP fun t => since ≤ t ∧ t < since + window

/-- No successful login of a client in it. -/
def NoSuccess (log : List (Login Ip)) (ip : Ip) (since : ℕ) : Prop :=
  ∀ t, .success ip t ∈ log → ¬ (since ≤ t ∧ t < since + window)

theorem wrongIn_wrong (log : List (Login Ip)) (ip' ip : Ip) (t since : ℕ) :
    wrongIn (.wrong ip' t :: log) ip since =
      wrongIn log ip since + if ip' = ip ∧ since ≤ t ∧ t < since + window then 1 else 0 := by
  unfold wrongIn wrongTimes
  by_cases hip : ip' = ip
  · have htime : Login.wrongTime ip (.wrong ip' t) = some t := if_pos hip
    rw [List.filterMap_cons_some htime, List.countP_cons]
    simp [hip]
  · have htime : Login.wrongTime ip (.wrong ip' t) = none := if_neg hip
    rw [List.filterMap_cons_none htime]
    simp [hip]

theorem wrongIn_success (log : List (Login Ip)) (ip' ip : Ip) (t since : ℕ) :
    wrongIn (.success ip' t :: log) ip since = wrongIn log ip since := by
  have htime : Login.wrongTime ip (.success ip' t) = none := rfl
  rw [wrongIn, wrongIn, wrongTimes, wrongTimes, List.filterMap_cons_none htime]

/-- Nothing is counted before the stretch begins. -/
theorem wrongIn_before {log : List (Login Ip)} {since : ℕ} (h : ∀ l ∈ log, l.time < since)
    (ip : Ip) : wrongIn log ip since = 0 := by
  induction log with
  | nil => rfl
  | cons l log ih =>
    obtain ⟨hl, hlog⟩ := List.forall_mem_cons.mp h
    cases l with
    | wrong ip' t =>
      have ht : t < since := hl
      rw [wrongIn_wrong, ih hlog, if_neg (by omega)]
    | success ip' t => rw [wrongIn_success, ih hlog]

/-- **What is counted in a stretch that reaches to now is young**: a successful login would lie before
it. -/
theorem wrongIn_le_young {log : List (Login Ip)} {ip : Ip} {since now : ℕ}
    (hnow : now < since + window) (hclock : ∀ l ∈ log, l.time ≤ now)
    (hsorted : log.Pairwise fun l l' => l'.time ≤ l.time) (hno : NoSuccess log ip since) :
    wrongIn log ip since ≤ young log ip now := by
  induction log with
  | nil => exact Nat.zero_le _
  | cons l log ih =>
    obtain ⟨hl, hlog⟩ := List.forall_mem_cons.mp hclock
    obtain ⟨hhead, htail⟩ := List.pairwise_cons.mp hsorted
    have ih := ih hlog htail fun t ht => hno t (List.mem_cons_of_mem _ ht)
    cases l with
    | wrong ip' t =>
      rw [wrongIn_wrong, young, live]
      unfold young at ih
      by_cases hip : ip' = ip
      · rw [if_pos hip, List.countP_cons]
        by_cases ht : since ≤ t
        · have : now < t + window := by omega
          simp only [this, decide_true, if_true]
          split <;> omega
        · rw [if_neg fun h => ht h.2.1]
          omega
      · rw [if_neg hip, if_neg fun h => hip h.1]
        exact ih
    | success ip' t =>
      rw [wrongIn_success, young_success]
      by_cases hip : ip' = ip
      · subst hip
        have hno := hno t List.mem_cons_self
        have hl : t ≤ now := hl
        have hbefore : t < since := by omega
        rw [if_pos rfl, wrongIn_before fun l hl => (hhead l hl).trans_lt hbefore]
      · rw [if_neg hip]
        exact ih

end

end Llmleaf.Web.Throttle
