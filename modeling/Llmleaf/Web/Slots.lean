import Llmleaf.Lib.Runs
import Llmleaf.Lib.SharedCell
import Llmleaf.Web.Keys
import Mathlib.Order.Lattice.Nat

/-!
# Operator and limiter

Operator and limiter write the suspension of a key into one column, under one tag. The reference
keeps a slot for each: the operator's with block, narrowing and suspension, the limiter's with its
suspension, and shows the later of the two suspensions.

- `KeyOp.row_cell`: what each write does to the column and the tag, as a write to a shared cell.
- `TwoSlots.apply`: the reference.
- **Result** (`verdicts_agree_iff`): over any interleaving a pulled verdict is that of the reference
  exactly as long as no write meets one of the cases in `Separate` where the column loses a slot.
-/

namespace Llmleaf.Web

open SharedCell

/-! ## The writes -/

/-- A write to a key's verdict: four of the operator, two of the limiter. -/
inductive KeyOp where
  | setBlocked (blocked : Bool)
  | setSuspended (until_ : Option UInt64)
  | setNarrow (models : List String)
  | setVerdict (blocked : Bool) (suspendedUntil : Option UInt64) (verdictModels : List String)
  | limiterSuspend (until_ : UInt64)
  | limiterClear

/-- A write, its key and its time. -/
structure KeyCall where
  id : String
  op : KeyOp
  nowMs : UInt64

/-- The database after a write. -/
def Db.apply (db : Db) (c : KeyCall) : Db :=
  match c.op with
  | .setBlocked blocked => db.setBlocked c.id blocked c.nowMs
  | .setSuspended until_ => db.setSuspended c.id until_ c.nowMs
  | .setNarrow models => db.setNarrow c.id models c.nowMs
  | .setVerdict blocked suspendedUntil models =>
    db.setVerdict c.id blocked suspendedUntil models "manual" c.nowMs
  | .limiterSuspend until_ => db.limiterSuspend c.id until_ c.nowMs
  | .limiterClear => db.limiterClear c.id c.nowMs

/-- A row after a write. -/
def KeyOp.row (op : KeyOp) (nowMs : UInt64) (r : KeyRecord) : KeyRecord :=
  match op with
  | .setBlocked blocked => r.setBlocked blocked nowMs
  | .setSuspended until_ => r.setSuspended until_ nowMs
  | .setNarrow models => r.setNarrow models nowMs
  | .setVerdict blocked suspendedUntil models =>
    r.setVerdict blocked suspendedUntil models "manual" nowMs
  | .limiterSuspend until_ => r.limiterSuspend until_ nowMs
  | .limiterClear => r.limiterClear nowMs

theorem Db.apply_eq (db : Db) (c : KeyCall) : db.apply c = db.updateKey c.id (c.op.row c.nowMs) := by
  cases c with
  | mk id op nowMs => cases op <;> rfl

/-! ## The reference -/

/-- The instant of a suspension; `⊥` is none. -/
def instant (until_ : Option UInt64) : WithBot ℕ := until_.map UInt64.toNat

/-- What the operator has decided about a key. -/
structure OperatorSlot where
  blocked : Bool
  narrowing : List String
  suspension : WithBot ℕ

/-- A key's verdict with a slot for each writer. -/
structure TwoSlots where
  operator : OperatorSlot
  limiter : WithBot ℕ

/-- What is shown of a block, a suspension and a narrowing. -/
def showVerdict (blocked : Bool) (suspension : WithBot ℕ) (narrowing : List String) :
    Option Verdict :=
  if blocked = false ∧ suspension = ⊥ ∧ narrowing = [] then none
  else
    some
      { blocked := blocked
        suspendedUntil := suspension
        allowedModels := if narrowing = [] then none else some narrowing }

theorem ite_nil_inj {l l' : List String}
    (h : (if l = [] then none else some l) = if l' = [] then none else some l') : l = l' := by
  by_cases hl : l = [] <;> by_cases hl' : l' = []
  · rw [hl, hl']
  · rw [if_pos hl, if_neg hl'] at h
    cases h
  · rw [if_neg hl, if_pos hl'] at h
    cases h
  · rw [if_neg hl, if_neg hl'] at h
    exact Option.some.inj h

/-- What is shown determines what it is shown of. -/
theorem showVerdict_inj {b b' : Bool} {u u' : WithBot ℕ} {l l' : List String} :
    showVerdict b u l = showVerdict b' u' l' ↔ b = b' ∧ u = u' ∧ l = l' := by
  constructor
  · intro h
    rw [showVerdict, showVerdict] at h
    by_cases hc : b = false ∧ u = ⊥ ∧ l = [] <;> by_cases hc' : b' = false ∧ u' = ⊥ ∧ l' = []
    · rw [hc.1, hc.2.1, hc.2.2, hc'.1, hc'.2.1, hc'.2.2]
      exact ⟨rfl, rfl, rfl⟩
    · rw [if_pos hc, if_neg hc'] at h
      cases h
    · rw [if_neg hc, if_pos hc'] at h
      cases h
    · rw [if_neg hc, if_neg hc'] at h
      obtain ⟨hb, hu, hl⟩ := Verdict.mk.inj (Option.some.inj h)
      exact ⟨hb, hu, ite_nil_inj hl⟩
  · rintro ⟨rfl, rfl, rfl⟩
    rfl

namespace TwoSlots

/-- The suspensions of the two slots. -/
def suspensions (s : TwoSlots) : Slots (WithBot ℕ) := ⟨s.operator.suspension, s.limiter⟩

/-- The verdict: the later suspension counts. -/
def toVerdict (s : TwoSlots) : Option Verdict :=
  showVerdict s.operator.blocked (max s.operator.suspension s.limiter) s.operator.narrowing

/-- The reference: each writer writes its own slot. -/
def apply (s : TwoSlots) : KeyOp → TwoSlots
  | .setBlocked blocked => { s with operator := { s.operator with blocked := blocked } }
  | .setSuspended until_ => { s with operator := { s.operator with suspension := instant until_ } }
  | .setNarrow models => { s with operator := { s.operator with narrowing := models } }
  | .setVerdict blocked suspendedUntil models =>
    { s with operator := ⟨blocked, models, instant suspendedUntil⟩ }
  | .limiterSuspend until_ => { s with limiter := max s.limiter (instant (some until_)) }
  | .limiterClear => { s with limiter := ⊥ }

end TwoSlots

/-! ## The row as a shared cell -/

namespace KeyRecord

/-- The suspension column and the tag. -/
def cell (r : KeyRecord) : Cell (WithBot ℕ) :=
  ⟨r.suspendedUntil.map (·.toUInt64.toNat), r.ownedByLimiter⟩

/-- The slots of a row: its suspension belongs to the writer under the tag. -/
def slots (r : KeyRecord) : TwoSlots :=
  let s := Slots.ofCell r.cell
  ⟨⟨r.blocked != 0, parseModels r.verdictModels, s.held⟩, s.raised⟩

theorem toVerdict_eq (r : KeyRecord) :
    r.toVerdict = showVerdict (r.blocked != 0) r.cell.value (parseModels r.verdictModels) := by
  have hnone : r.suspendedUntil.isNone = true ↔ r.cell.value = ⊥ :=
    Option.isNone_iff_eq_none.trans Option.map_eq_none_iff.symm
  rw [toVerdict, showVerdict]
  simp only [Bool.and_eq_true, Bool.not_eq_true', List.isEmpty_iff, hnone, and_assoc]
  rfl

/-- A row shows what its slots show. -/
theorem toVerdict_slots (r : KeyRecord) : r.toVerdict = r.slots.toVerdict := by
  rw [toVerdict_eq, show r.cell.value = (Slots.ofCell r.cell).value from ofCell_agrees r.cell]
  rfl

end KeyRecord

/-- Whether the signed comparison of two instants agrees with their order. -/
def SameSide (s : Int64) (t : UInt64) : Prop := s < t.toInt64 ↔ s.toUInt64 < t

section

variable (r : KeyRecord) (nowMs : UInt64)

theorem setBlocked_cell (blocked : Bool) : (r.setBlocked blocked nowMs).cell = r.cell.touch := rfl

theorem setNarrow_cell (models : List String) : (r.setNarrow models nowMs).cell = r.cell.touch := rfl

theorem setSuspended_cell (until_ : Option UInt64) :
    (r.setSuspended until_ nowMs).cell = r.cell.set (instant until_) := by
  cases until_ <;> rfl

theorem setVerdict_cell (blocked : Bool) (until_ : Option UInt64) (models : List String) :
    (r.setVerdict blocked until_ models "manual" nowMs).cell = r.cell.set (instant until_) := by
  have htag : (r.setVerdict blocked until_ models "manual" nowMs).ownedByLimiter = false := by
    rw [KeyRecord.ownedByLimiter, KeyRecord.setVerdict]
    dsimp only
    split <;> rfl
  rw [KeyRecord.cell, htag]
  cases until_ <;> rfl

theorem limiterClear_cell : (r.limiterClear nowMs).cell = r.cell.release := by
  rw [KeyRecord.limiterClear, Cell.release, show r.cell.raised = r.ownedByLimiter from rfl]
  split <;> rfl

/-- The limiter's write raises the column exactly if the signed comparison is right. -/
theorem limiterSuspend_value_iff (until_ : UInt64) :
    (r.limiterSuspend until_ nowMs).cell.value = max r.cell.value (instant (some until_)) ↔
      ∀ i, r.suspendedUntil = some i → SameSide i until_ := by
  have hvalue : (r.limiterSuspend until_ nowMs).cell.value =
      if r.suspendedUntil.all (· < until_.toInt64) then instant (some until_)
      else r.cell.value := by
    rw [KeyRecord.limiterSuspend]
    split <;> rfl
  rw [hvalue]
  cases hs : r.suspendedUntil with
  | none =>
    rw [show r.cell.value = ⊥ by rw [KeyRecord.cell, hs]; rfl, max_eq_right bot_le]
    exact iff_of_true rfl nofun
  | some i =>
    have hmax : max r.cell.value (instant (some until_)) =
        WithBot.some (max i.toUInt64.toNat until_.toNat) := by
      rw [show r.cell.value = WithBot.some i.toUInt64.toNat by rw [KeyRecord.cell, hs]; rfl]
      exact (WithBot.coe_max ..).symm
    rw [hmax, show r.cell.value = WithBot.some i.toUInt64.toNat by rw [KeyRecord.cell, hs]; rfl,
      Option.all_some, show instant (some until_) = WithBot.some until_.toNat from rfl]
    simp only [Option.some.injEq, forall_eq', SameSide, decide_eq_true_eq, UInt64.lt_iff_toNat_lt]
    split
    · rename_i hlt
      have hne : i.toUInt64.toNat ≠ until_.toNat := by
        intro he
        rw [← UInt64.toNat_inj.mp he, Int64.toInt64_toUInt64] at hlt
        exact Int64.lt_irrefl hlt
      rw [WithBot.coe_inj, iff_true_left hlt, eq_comm, sup_eq_right]
      omega
    · rename_i hge
      rw [WithBot.coe_inj, iff_false_left hge, eq_comm, sup_eq_left]
      omega

end

/-! ## The refinement -/

/-- A row shows what the slots show, part by part. -/
theorem toVerdict_eq_iff {r : KeyRecord} {s : TwoSlots} :
    r.toVerdict = s.toVerdict ↔ (r.blocked != 0) = s.operator.blocked ∧
      r.cell.Agrees s.suspensions ∧ parseModels r.verdictModels = s.operator.narrowing := by
  rw [KeyRecord.toVerdict_eq, TwoSlots.toVerdict, showVerdict_inj]
  rfl

/-- The writes after which the column still shows both slots. An operator's suspension ends no
earlier than the limiter's, the limiter compares two instants on the same side of `2 ^ 63`, and a
lifted suspension is the limiter's alone, or one it has no part in. -/
def Separate (r : KeyRecord) (s : TwoSlots) : KeyOp → Prop
  | .setBlocked _ | .setNarrow _ => True
  | .setSuspended until_ | .setVerdict _ until_ _ => s.limiter ≤ instant until_
  | .limiterSuspend until_ => ∀ i, r.suspendedUntil = some i → SameSide i until_
  | .limiterClear =>
    if r.ownedByLimiter then s.operator.suspension = ⊥ else s.limiter ≤ s.operator.suspension

theorem flag_ne_zero (b : Bool) : ((if b then 1 else 0 : Int64) != 0) = b := by
  cases b <;> rfl

/-- **One write.** A row that shows its slots shows them after the write exactly if the write keeps
them separate. -/
theorem row_agrees_iff {r : KeyRecord} {s : TwoSlots} (h : r.toVerdict = s.toVerdict) (op : KeyOp)
    (nowMs : UInt64) :
    (op.row nowMs r).toVerdict = (s.apply op).toVerdict ↔ Separate r s op := by
  obtain ⟨hb, hu, hl⟩ := toVerdict_eq_iff.mp h
  rw [toVerdict_eq_iff]
  cases op with
  | setBlocked blocked =>
    refine iff_of_true ⟨flag_ne_zero blocked, ?_, hl⟩ trivial
    rw [KeyOp.row, setBlocked_cell]
    exact touch_agrees_iff.mpr hu
  | setNarrow models =>
    refine iff_of_true ⟨hb, ?_, parseModels_modelsToJson models⟩ trivial
    rw [KeyOp.row, setNarrow_cell]
    exact touch_agrees_iff.mpr hu
  | setSuspended until_ =>
    refine (and_iff_right hb).trans ((and_iff_left hl).trans ?_)
    rw [KeyOp.row, setSuspended_cell]
    exact set_agrees_iff (s := s.suspensions)
  | setVerdict blocked until_ models =>
    refine (and_iff_right (flag_ne_zero blocked)).trans
      ((and_iff_left (parseModels_modelsToJson models)).trans ?_)
    rw [KeyOp.row, setVerdict_cell]
    exact set_agrees_iff (s := s.suspensions)
  | limiterSuspend until_ =>
    have hother : ((KeyOp.limiterSuspend until_).row nowMs r).blocked = r.blocked ∧
        ((KeyOp.limiterSuspend until_).row nowMs r).verdictModels = r.verdictModels := by
      rw [KeyOp.row, KeyRecord.limiterSuspend]
      split <;> exact ⟨rfl, rfl⟩
    rw [hother.1, hother.2]
    refine (and_iff_right hb).trans ((and_iff_left hl).trans ?_)
    have hraised : (r.cell.raise (instant (some until_))).Agrees
        (s.apply (.limiterSuspend until_)).suspensions := raise_agrees hu _
    rw [Cell.Agrees, ← hraised, raise_value]
    exact limiterSuspend_value_iff r nowMs until_
  | limiterClear =>
    have hother : (KeyOp.limiterClear.row nowMs r).blocked = r.blocked ∧
        (KeyOp.limiterClear.row nowMs r).verdictModels = r.verdictModels := by
      rw [KeyOp.row, KeyRecord.limiterClear]
      split <;> exact ⟨rfl, rfl⟩
    rw [hother.1, hother.2]
    refine (and_iff_right hb).trans ((and_iff_left hl).trans ?_)
    rw [KeyOp.row, limiterClear_cell]
    exact release_agrees_iff hu

/-! ## Runs -/

/-- The database, and the reference's slots of one key. -/
structure Shared where
  db : Db
  slots : TwoSlots

namespace Shared

variable (k : String)

/-- One write, to any key. -/
def step (s : Shared) (c : KeyCall) : Shared where
  db := s.db.apply c
  slots := if c.id = k then s.slots.apply c.op else s.slots

/-- The writes to a database that has the key, the slots starting as its row has them. -/
def system : Runs.Sys Shared KeyCall :=
  .ofFun (fun s => ∃ r, s.db.keys.lookup k = some r ∧ s.slots = r.slots) (step k)

/-- The pulled verdict of the key is the reference's. -/
def Agrees (s : Shared) : Prop := s.db.verdicts.lookup k = s.slots.toVerdict

/-- A write to the key keeps the slots separate. -/
def KeepsSeparate (s : Shared) (c : KeyCall) : Prop :=
  c.id = k → ∀ r, s.db.keys.lookup k = some r → Separate r s.slots c.op

variable {k}

theorem lookup_apply (db : Db) (c : KeyCall) :
    (db.apply c).keys.lookup k =
      (db.keys.lookup k).map fun r => if k = c.id then c.op.row c.nowMs r else r := by
  rw [Db.apply_eq, Db.lookup_updateKey]

theorem agrees_iff {s : Shared} {r : KeyRecord} (h : s.db.keys.lookup k = some r) :
    s.Agrees k ↔ r.toVerdict = s.slots.toVerdict := by
  rw [Agrees, Db.lookup_verdicts, h]
  rfl

theorem step_agrees_iff {s : Shared} (hkey : k ∈ s.db.keys) (h : s.Agrees k) (c : KeyCall) :
    (s.step k c).Agrees k ↔ s.KeepsSeparate k c := by
  obtain ⟨r, hr⟩ := HashMap.mem_iff_lookup.mp hkey
  have hr' := lookup_apply (k := k) s.db c
  rw [hr, Option.map_some] at hr'
  rw [agrees_iff hr', KeepsSeparate]
  have hagree := (agrees_iff hr).mp h
  by_cases hid : c.id = k
  · rw [if_pos hid.symm, step, if_pos hid, row_agrees_iff hagree]
    simp [hid, hr]
  · rw [if_neg (Ne.symm hid), step, if_neg hid]
    exact iff_of_true hagree fun he => absurd he hid

/-- The key stays in the database. -/
theorem run_mem {s t : Shared} {tr : List (Runs.Step Shared KeyCall)}
    (hr : Runs.Run (system k) s tr t) (h : k ∈ s.db.keys) : k ∈ t.db.keys := by
  refine hr.invariant (P := fun s => k ∈ s.db.keys) h ?_
  rintro s c _ hs rfl
  obtain ⟨r, hr⟩ := HashMap.mem_iff_lookup.mp hs
  have hr' := lookup_apply (k := k) s.db c
  rw [hr, Option.map_some] at hr'
  exact HashMap.mem_iff_lookup.mpr ⟨_, hr'⟩

/-- **Operator and limiter over a run.** In all states reached the pulled verdict of the key is that
of two independent slots exactly if every write keeps them separate. -/
theorem verdicts_agree_iff {s t : Shared} {tr : List (Runs.Step Shared KeyCall)}
    (hs : (system k).init s) (hr : Runs.Run (system k) s tr t) :
    (∀ x ∈ tr, x.post.Agrees k) ↔ ∀ x ∈ tr, x.pre.KeepsSeparate k x.event := by
  obtain ⟨r, hkey, hslots⟩ := hs
  have hmem : k ∈ s.db.keys := HashMap.mem_iff_lookup.mpr ⟨r, hkey⟩
  have hstart : s.Agrees k := by
    rw [agrees_iff hkey, hslots]
    exact r.toVerdict_slots
  have hreached := hr.reached_iff (P := fun s => k ∈ s.db.keys ∧ s.Agrees k)
    (C := KeepsSeparate k) ⟨hmem, hstart⟩ ?_
  · rw [← hreached]
    refine forall₂_congr fun x hx => (and_iff_right ?_).symm
    obtain ⟨tr', hbefore, hstep⟩ := hr.before_of_mem x hx
    exact run_mem (hbefore.snoc hstep) hmem
  · rintro s c _ ⟨hs, hagree⟩ rfl
    rw [and_iff_right (run_mem (.snoc (M := system k) .nil rfl) hs)]
    exact step_agrees_iff hs hagree c

/-- A database with one new key. -/
def oneKey : Db := ((Db.mk ∅ []).create "k" "$2y$12$h" none [] 0).getD ⟨∅, []⟩

/-- The new key, and empty slots. -/
def fresh : Shared := ⟨oneKey, ⟨⟨false, [], ⊥⟩, ⊥⟩⟩

/-- The operator suspends, the limiter suspends for longer and lifts its suspension again. -/
def operatorLost : List KeyCall :=
  [⟨"k", .setSuspended (some 100), 0⟩, ⟨"k", .limiterSuspend 200, 0⟩, ⟨"k", .limiterClear, 0⟩]

/-- The limiter suspends, the operator blocks, the limiter lifts its suspension again. -/
def limiterStuck : List KeyCall :=
  [⟨"k", .limiterSuspend 200, 0⟩, ⟨"k", .setBlocked true, 0⟩, ⟨"k", .limiterClear, 0⟩]

theorem verdicts_agree_iff_fresh :
    (∀ x ∈ Runs.trace (step "k") fresh operatorLost, x.post.Agrees "k") ↔
      ∀ x ∈ Runs.trace (step "k") fresh operatorLost, x.pre.KeepsSeparate "k" x.event :=
  verdicts_agree_iff ⟨_, rfl, rfl⟩ (Runs.Run.exec _ _ fresh operatorLost)

theorem slots_collide :
    let lost := operatorLost.foldl (step "k") fresh
    let stuck := limiterStuck.foldl (step "k") fresh
    lost.db.verdicts.lookup "k" = none ∧
    lost.slots.toVerdict = some ⟨false, some 100, none⟩ ∧
    stuck.db.verdicts.lookup "k" = some ⟨true, some 200, none⟩ ∧
    stuck.slots.toVerdict = some ⟨true, none, none⟩ := by
  decide +kernel

end Shared

end Llmleaf.Web
