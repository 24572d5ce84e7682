import Llmleaf.Events
import Llmleaf.Json
import Llmleaf.Lib.HashMap

/-!
# The control plane's database

The two tables the control plane keeps for the nodes: the consumer keys with their verdicts, and the
events the nodes have pushed. Integers are stored in signed 64-bit columns; a JSON column holds a
document.

- `updateKey`: what an `UPDATE` of one row does; `lookup_updateKey`: to every row.
- `parseModels_modelsToJson`: a stored model list is read back.
-/

namespace Llmleaf.Web

/-- A row of the table of keys, under its id. -/
structure KeyRecord where
  pwHash : String
  name : Option String
  allowedModels : Option Value
  blocked : Int64
  suspendedUntil : Option Int64
  verdictModels : Option Value
  verdictSource : Option String
  createdAtMs : Int64
  updatedAtMs : Int64

/-- A row of the table of events. -/
structure EventRow where
  tsMs : Int64
  kind : String
  requestId : Option String
  keyId : Option String
  model : Option String
  provider : Option String
  promptTokens : Int64
  completionTokens : Int64
  totalTokens : Int64
  cost : ℚ
  detail : Option String
  deriving DecidableEq

/-- The database. -/
structure Db where
  keys : HashMap String KeyRecord
  events : List EventRow

/-- Update the row with an id, if there is one. -/
def Db.updateKey (db : Db) (id : String) (f : KeyRecord → KeyRecord) : Db :=
  { db with keys := db.keys.map fun k r => if k = id then f r else r }

@[simp] theorem Db.updateKey_events (db : Db) (id : String) (f : KeyRecord → KeyRecord) :
    (db.updateKey id f).events = db.events := rfl

theorem Db.lookup_updateKey (db : Db) (id k : String) (f : KeyRecord → KeyRecord) :
    (db.updateKey id f).keys.lookup k =
      (db.keys.lookup k).map fun r => if k = id then f r else r := by
  rw [Db.updateKey, HashMap.lookup_map]

/-! ## Model lists -/

/-- The texts of an array of strings. -/
def asStrings (v : Value) : Option (List String) := v.asArray.bind fun xs => xs.mapM Value.asStr

/-- Read a model list; anything but an array of strings is empty. -/
def parseModels (raw : Option Value) : List String := (raw.bind asStrings).getD []

/-- The column of a model list: none for the empty one. -/
def modelsToJson (models : List String) : Option Value :=
  if models = [] then none else some (.array (models.map .string))

theorem asStrings_array (models : List String) :
    asStrings (.array (models.map .string)) = some models := by
  have hmap : (models.map Value.string).mapM Value.asStr = some models := by
    induction models with
    | nil => rfl
    | cons m models ih =>
      rw [List.map_cons, List.mapM_cons, ih]
      rfl
  exact hmap

/-- A stored model list is read back. -/
theorem parseModels_modelsToJson (models : List String) :
    parseModels (modelsToJson models) = models := by
  rw [modelsToJson]
  split
  · rename_i h
    rw [h]
    rfl
  · rw [parseModels, Option.bind_some, asStrings_array]
    rfl

end Llmleaf.Web
