import Llmleaf.Web.Keys
import Llmleaf.Web.Usage

/-!
# The limiter

One pass of the limiter reads the windows of every key with recent activity and of every key it has
suspended, suspends those over a cap and lifts its suspension from the others. The clock readings of
one pass are taken as one.

- `suspendUntil`: the policy; `Reached`: when it suspends (`suspendUntil_isSome`).
- `pass`: the pass, in any order of the keys.
- **Result** (`lookup_pass`): what a pass does to every row.
-/

namespace Llmleaf.Web

def daySecs : ℕ := 86400

def costWindowSecs : ℕ := 30 * daySecs

def eventRetentionSecs : ℕ := 90 * daySecs

/-- The limiter's configuration. -/
structure LimiterSection where
  enabled : Bool
  monthlyCostCap : ℚ
  dailyRequestCap : ℕ

namespace LimiterSection

/-- Whether a pass enforces anything. -/
def limits (cfg : LimiterSection) : Bool :=
  cfg.enabled && !(decide (cfg.monthlyCostCap ≤ 0) && cfg.dailyRequestCap == 0)

end LimiterSection

/-! ## The policy -/

/-- Until when a key with these windows is suspended, if it is over a cap. -/
def suspendUntil (cfg : LimiterSection) (now : ℕ) (cost30 : ℚ) (reqs24 : ℕ) : Option ℕ :=
  let suspend : Option ℕ :=
    if 0 < cfg.monthlyCostCap ∧ cfg.monthlyCostCap ≤ cost30 then some (now + daySecs) else none
  if 0 < cfg.dailyRequestCap ∧ cfg.dailyRequestCap ≤ reqs24 then
    let midnight := (now / daySecs + 1) * daySecs
    some ((suspend.map (max · midnight)).getD midnight)
  else suspend

/-- A key has reached a cap. -/
def Reached (cfg : LimiterSection) (cost30 : ℚ) (reqs24 : ℕ) : Prop :=
  (0 < cfg.monthlyCostCap ∧ cfg.monthlyCostCap ≤ cost30) ∨
    (0 < cfg.dailyRequestCap ∧ cfg.dailyRequestCap ≤ reqs24)

section

variable {cfg : LimiterSection} {now : ℕ} {cost30 : ℚ} {reqs24 : ℕ}

theorem suspendUntil_isSome :
    (suspendUntil cfg now cost30 reqs24).isSome ↔ Reached cfg cost30 reqs24 := by
  unfold suspendUntil Reached
  dsimp only
  split
  · rename_i hreq
    exact iff_of_true rfl (.inr hreq)
  · rename_i hreq
    split
    · rename_i hcost
      exact iff_of_true rfl (.inl hcost)
    · rename_i hcost
      exact iff_of_false Bool.false_ne_true fun h => h.elim hcost hreq

/-- The next multiple of a number is at most that number away. -/
theorem next_multiple_bounds (now : ℕ) {d : ℕ} (hd : 0 < d) :
    now < (now / d + 1) * d ∧ (now / d + 1) * d ≤ now + d := by
  have hmod := Nat.mod_lt now hd
  have hdiv := Nat.div_add_mod now d
  rw [Nat.add_mul, Nat.one_mul, Nat.mul_comm]
  omega

/-- A suspension ends in the future, within a day. -/
theorem suspendUntil_bounds {until_ : ℕ} (h : suspendUntil cfg now cost30 reqs24 = some until_) :
    now < until_ ∧ until_ ≤ now + daySecs := by
  have hday : 0 < daySecs := by decide
  obtain ⟨hlt, hle⟩ := next_multiple_bounds now hday
  unfold suspendUntil at h
  dsimp only at h
  split at h
  · obtain rfl := Option.some.inj h
    split
    · rw [Option.map_some, Option.getD_some]
      exact ⟨hlt.trans_le (le_max_right ..), max_le le_rfl hle⟩
    · rw [Option.map_none, Option.getD_none]
      exact ⟨hlt, hle⟩
  · split at h
    · obtain rfl := Option.some.inj h
      exact ⟨Nat.lt_add_of_pos_right hday, le_rfl⟩
    · cases h

end

/-! ## The pass -/

/-- What the policy says about a key of the database. -/
def verdictFor (cfg : LimiterSection) (now : Clock) (db : Db) (key : String) : Option ℕ :=
  let cost30 := (db.keyWindow key (sinceSecsAgo now costWindowSecs)).1
  let reqs24 := (db.keyWindow key (sinceSecsAgo now daySecs)).2
  suspendUntil cfg now.secs cost30 reqs24

/-- Suspend a key over a cap, or lift the limiter's suspension. -/
def passKey (cfg : LimiterSection) (now : Clock) (db : Db) (key : String) : Db :=
  match verdictFor cfg now db key with
  | some until_ => db.limiterSuspend key (.ofNat until_) (.ofNat now.ms)
  | none => db.limiterClear key (.ofNat now.ms)

/-- The keys a pass looks at. -/
def scope (now : Clock) (db : Db) : List String :=
  (db.activeKeys (sinceSecsAgo now costWindowSecs) ++ db.limiterSuspendedIds).dedup

/-- One pass: prune old events, then enforce the caps if there are any. -/
def pass (cfg : LimiterSection) (order : Shuffle String) (now : Clock) (db : Db) : Db :=
  let db := db.pruneBefore (sinceSecsAgo now eventRetentionSecs)
  if cfg.limits then (order.order (scope now db)).foldl (passKey cfg now) db else db

/-- The policy ignores what a pass prunes. -/
theorem verdictFor_prune (cfg : LimiterSection) (now : Clock) (db : Db) (id : String) :
    verdictFor cfg now (db.pruneBefore (sinceSecsAgo now eventRetentionSecs)) id =
      verdictFor cfg now db id := by
  rw [verdictFor, Db.keyWindow_prune db (sinceSecsAgo_fits ..) (sinceSecsAgo_anti now (by decide)),
    Db.keyWindow_prune db (sinceSecsAgo_fits ..) (sinceSecsAgo_anti now (by decide))]
  rfl

/-- A suspension the policy asks for fits the column. -/
theorem verdictFor_fits {cfg : LimiterSection} {now : Clock} {db : Db} {id : String} {until_ : ℕ}
    (h : verdictFor cfg now db id = some until_) : until_ < 2 ^ 63 := by
  have hle := (suspendUntil_bounds h).2
  have hfits := now.fits
  rw [Clock.secs, daySecs] at hle
  omega

/-- The policy has nothing against a key without recent activity. -/
theorem verdictFor_inactive {cfg : LimiterSection} {now : Clock} {db : Db} {id : String}
    (h : id ∉ db.activeKeys (sinceSecsAgo now costWindowSecs)) : verdictFor cfg now db id = none := by
  have hout : ∀ row ∈ db.events, row.inWindow id (sinceSecsAgo now costWindowSecs) = false :=
    fun row hm => Bool.eq_false_iff.mpr fun hw => h (Db.mem_activeKeys.mpr ⟨row, hm, hw⟩)
  have hout' : ∀ row ∈ db.events, row.inWindow id (sinceSecsAgo now daySecs) = false := by
    intro row hm
    refine Bool.eq_false_iff.mpr fun hw => Bool.eq_false_iff.mp (hout row hm) ?_
    rw [EventRow.inWindow, Bool.and_eq_true] at hw ⊢
    exact ⟨hw.1, row.since_anti (sinceSecsAgo_fits ..) (sinceSecsAgo_anti now (by decide)) hw.2⟩
  have hreached : ¬ Reached cfg 0 0 := by
    rintro (⟨hpos, hle⟩ | ⟨hpos, hle⟩)
    · exact absurd hpos (not_lt.mpr hle)
    · exact absurd hpos (Nat.not_lt.mpr hle)
  rw [verdictFor, Db.keyWindow_inactive hout, Db.keyWindow_inactive hout']
  exact Option.not_isSome_iff_eq_none.mp fun hs => hreached (suspendUntil_isSome.mp hs)

/-! ## What a pass does -/

/-- A row the limiter has looked at. -/
def limitRow (cfg : LimiterSection) (now : Clock) (db : Db) (key : String) (r : KeyRecord) :
    KeyRecord :=
  match verdictFor cfg now db key with
  | some until_ => r.limiterSuspend (.ofNat until_) (.ofNat now.ms)
  | none => r.limiterClear (.ofNat now.ms)

theorem passKey_eq (cfg : LimiterSection) (now : Clock) (db : Db) (key : String) :
    passKey cfg now db key = db.updateKey key (limitRow cfg now db key) := by
  unfold passKey limitRow
  split <;> rfl

/-- The policy reads the table of events only. -/
theorem verdictFor_congr {cfg : LimiterSection} {now : Clock} {db db' : Db}
    (h : db'.events = db.events) (key : String) :
    verdictFor cfg now db' key = verdictFor cfg now db key := by
  unfold verdictFor Db.keyWindow
  rw [h]

theorem limitRow_congr {cfg : LimiterSection} {now : Clock} {db db' : Db}
    (h : db'.events = db.events) (key : String) :
    limitRow cfg now db' key = limitRow cfg now db key := by
  funext r
  rw [limitRow, verdictFor_congr h]
  rfl

/-- Updating the rows of distinct keys one after the other. -/
theorem foldl_passKey {cfg : LimiterSection} {now : Clock} {keys : List String} (db : Db)
    (hnodup : keys.Nodup) :
    (keys.foldl (passKey cfg now) db).events = db.events ∧
      ∀ k, (keys.foldl (passKey cfg now) db).keys.lookup k =
        (db.keys.lookup k).map fun r => if k ∈ keys then limitRow cfg now db k r else r := by
  induction keys generalizing db with
  | nil => exact ⟨rfl, fun k => by simp⟩
  | cons key keys ih =>
    obtain ⟨hnew, hnodup⟩ := List.nodup_cons.mp hnodup
    rw [List.foldl_cons, passKey_eq]
    obtain ⟨hevents, hkeys⟩ := ih (db.updateKey key (limitRow cfg now db key)) hnodup
    refine ⟨hevents, fun k => ?_⟩
    rw [hkeys, Db.lookup_updateKey, Option.map_map]
    congr 1
    funext r
    simp only [Function.comp_apply, List.mem_cons, limitRow_congr (Db.updateKey_events ..)]
    by_cases hk : k = key
    · subst hk
      rw [if_neg hnew, if_pos rfl, if_pos (.inl rfl)]
    · simp only [hk, if_false, false_or]

/-- **A pass, row by row.** The events before the retention are pruned; with limits every key in
scope is looked at. -/
theorem lookup_pass (cfg : LimiterSection) (order : Shuffle String) (now : Clock) (db : Db)
    (k : String) :
    let pruned := db.pruneBefore (sinceSecsAgo now eventRetentionSecs)
    (pass cfg order now db).keys.lookup k =
      (db.keys.lookup k).map fun r =>
        if cfg.limits = true ∧ k ∈ scope now pruned then limitRow cfg now pruned k r else r := by
  rw [pass]
  dsimp only
  cases hlimits : cfg.limits with
  | false => simp [Db.pruneBefore]
  | true =>
    have hnodup : (order.order (scope now (db.pruneBefore
        (sinceSecsAgo now eventRetentionSecs)))).Nodup :=
      (order.perm _).nodup_iff.mpr (List.nodup_dedup _)
    rw [if_pos rfl, (foldl_passKey _ hnodup).2]
    simp only [Shuffle.mem_order, true_and]
    rfl

end Llmleaf.Web
