import Llmleaf.Keys
import Llmleaf.Web.Db
import Mathlib.Data.String.Basic

/-!
# The key roster and the verdicts

What a node pulls from the control plane, and what the operator and the limiter set. A verdict
shares its row with the key: a block, a suspension, a narrowing, and one tag for who wrote last.

- `roster`, `verdicts`: the two pulls.
- `KeyOp`: the writes of the operator and the limiter, each an update of one row (`KeyOp.row`).
-/

namespace Llmleaf.Web

/-- One key of the pulled roster. -/
structure KeyDto where
  id : String
  pwHash : String
  name : Option String
  allowedModels : Option (List String)
  deriving DecidableEq

/-- A pulled verdict. -/
structure Verdict where
  blocked : Bool
  suspendedUntil : Option ℕ
  allowedModels : Option (List String)
  deriving DecidableEq

namespace KeyRecord

def toDto (self : KeyRecord) (id : String) : KeyDto :=
  let allowed := parseModels self.allowedModels
  { id := id
    pwHash := self.pwHash
    name := self.name
    allowedModels := if allowed = [] then none else some allowed }

/-- The verdict of a row, none for an unrestricted key. -/
def toVerdict (self : KeyRecord) : Option Verdict :=
  let blocked := self.blocked != 0
  let verdictModels := parseModels self.verdictModels
  if !blocked && self.suspendedUntil.isNone && verdictModels.isEmpty then none
  else
    some
      { blocked := blocked
        suspendedUntil := self.suspendedUntil.map (·.toUInt64.toNat)
        allowedModels := if verdictModels.isEmpty then none else some verdictModels }

end KeyRecord

namespace Db

/-- The roster a node pulls, in the order of the ids. -/
def roster (db : Db) : List KeyDto := db.keys.ascending.map fun e => e.2.toDto e.1

/-- The verdicts a node pulls: the restricted keys. -/
def verdicts (db : Db) : HashMap String Verdict :=
  HashMap.collect (db.keys.ascending.filterMap fun e => e.2.toVerdict.map fun v => (e.1, v))

/-- Insert a new key; none if the id is taken. -/
def create (db : Db) (id pwHash : String) (name : Option String) (allowedModels : List String)
    (nowMs : UInt64) : Option Db :=
  if id ∈ db.keys then none
  else
    let record : KeyRecord :=
      { pwHash := pwHash
        name := name
        allowedModels := modelsToJson allowedModels
        blocked := 0
        suspendedUntil := none
        verdictModels := none
        verdictSource := none
        createdAtMs := nowMs.toInt64
        updatedAtMs := nowMs.toInt64 }
    some { db with keys := db.keys.insert id record }

end Db

/-! ## Writing verdicts -/

namespace KeyRecord

/-- Set the full verdict; an empty one has no owner. -/
def setVerdict (self : KeyRecord) (blocked : Bool) (suspendedUntil : Option UInt64)
    (verdictModels : List String) (source : String) (nowMs : UInt64) : KeyRecord :=
  let cleared := !blocked && suspendedUntil.isNone && verdictModels.isEmpty
  { self with
    blocked := if blocked then 1 else 0
    suspendedUntil := suspendedUntil.map (·.toInt64)
    verdictModels := modelsToJson verdictModels
    verdictSource := if cleared then none else some source
    updatedAtMs := nowMs.toInt64 }

/-- Set or clear the block. -/
def setBlocked (self : KeyRecord) (blocked : Bool) (nowMs : UInt64) : KeyRecord :=
  { self with
    blocked := if blocked then 1 else 0
    verdictSource := some "manual"
    updatedAtMs := nowMs.toInt64 }

/-- Suspend until an instant, or lift the suspension. -/
def setSuspended (self : KeyRecord) (until_ : Option UInt64) (nowMs : UInt64) : KeyRecord :=
  { self with
    suspendedUntil := until_.map (·.toInt64)
    verdictSource := some "manual"
    updatedAtMs := nowMs.toInt64 }

/-- Set or clear the narrowing. -/
def setNarrow (self : KeyRecord) (models : List String) (nowMs : UInt64) : KeyRecord :=
  { self with
    verdictModels := modelsToJson models
    verdictSource := some "manual"
    updatedAtMs := nowMs.toInt64 }

/-- Suspend until an instant, unless the row is suspended at least that long. -/
def limiterSuspend (self : KeyRecord) (until_ nowMs : UInt64) : KeyRecord :=
  if self.suspendedUntil.all (· < until_.toInt64) then
    { self with
      suspendedUntil := some until_.toInt64
      verdictSource := some "limiter"
      updatedAtMs := nowMs.toInt64 }
  else self

/-- Whether the limiter wrote the verdict last. -/
def ownedByLimiter (self : KeyRecord) : Bool := self.verdictSource == some "limiter"

/-- Lift the suspension under the limiter's tag. -/
def limiterClear (self : KeyRecord) (nowMs : UInt64) : KeyRecord :=
  if self.ownedByLimiter then
    { self with
      suspendedUntil := none
      verdictSource := none
      updatedAtMs := nowMs.toInt64 }
  else self

end KeyRecord

namespace Db

def setVerdict (db : Db) (keyId : String) (blocked : Bool) (suspendedUntil : Option UInt64)
    (verdictModels : List String) (source : String) (nowMs : UInt64) : Db :=
  db.updateKey keyId fun r => r.setVerdict blocked suspendedUntil verdictModels source nowMs

def setBlocked (db : Db) (id : String) (blocked : Bool) (nowMs : UInt64) : Db :=
  db.updateKey id fun r => r.setBlocked blocked nowMs

def setSuspended (db : Db) (id : String) (until_ : Option UInt64) (nowMs : UInt64) : Db :=
  db.updateKey id fun r => r.setSuspended until_ nowMs

def setNarrow (db : Db) (id : String) (models : List String) (nowMs : UInt64) : Db :=
  db.updateKey id fun r => r.setNarrow models nowMs

def limiterSuspend (db : Db) (keyId : String) (until_ nowMs : UInt64) : Db :=
  db.updateKey keyId fun r => r.limiterSuspend until_ nowMs

def limiterClear (db : Db) (keyId : String) (nowMs : UInt64) : Db :=
  db.updateKey keyId fun r => r.limiterClear nowMs

/-- The keys under the limiter's tag that are suspended. -/
def limiterSuspendedIds (db : Db) : List String :=
  (db.keys.pairs.filter fun e => e.2.ownedByLimiter && e.2.suspendedUntil.isSome).map Prod.fst

end Db

/-! ## What the pulls say -/

/-- The pulled verdict of a key is that of its row. -/
theorem Db.lookup_verdicts (db : Db) (id : String) :
    db.verdicts.lookup id = (db.keys.lookup id).bind KeyRecord.toVerdict :=
  HashMap.lookup_collect_filterMap db.keys KeyRecord.toVerdict id

end Llmleaf.Web
