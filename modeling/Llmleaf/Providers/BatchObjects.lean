import Llmleaf.Batch

/-!
# Batch objects on the wire

A batch job as the OpenAI-compatible upstreams report it. The dialects share the shape and differ in
the words for a status and in where the counts are.
-/

namespace Llmleaf

open Value

/-- The status a text names; unknown ones are in progress. -/
def mapBatchStatus (s : String) : BatchStatus :=
  match s.toLower with
  | "validating" => .validating
  | "in_progress" | "running" | "queued" => .inProgress
  | "finalizing" => .finalizing
  | "completed" | "success" | "done" => .completed
  | "failed" => .failed
  | "expired" | "timeout_exceeded" => .expired
  | "cancelling" | "cancellation_requested" | "stopping" => .canceling
  | "cancelled" | "canceled" | "stopped" => .canceled
  | _ => .inProgress

/-- The counts of a job, nested or flat; what is neither done nor failed is being processed. -/
def batchCounts (value : Value) : BatchCounts :=
  let (total, succeeded, errored) :=
    match value.get "request_counts" with
    | some rc =>
      ((rc.natAt ["total"]).getD 0, (rc.natAt ["completed"]).getD 0, (rc.natAt ["failed"]).getD 0)
    | none =>
      ((value.natAt ["total_requests"]).getD 0, (value.natAt ["succeeded_requests"]).getD 0,
        (value.natAt ["failed_requests"]).getD 0)
  { total := total
    processing := total - (succeeded + errored)
    succeeded := succeeded
    errored := errored
    canceled := 0
    expired := 0 }

/-- A job from its object. -/
def batchValueToHandle (value : Value) : BatchHandle where
  id := (value.textAt ["id"]).getD ""
  status := ((((value.get "status").or (value.get "processing_status")).bind asStr).map
    mapBatchStatus).getD .inProgress
  counts := batchCounts value
  createdAt := value.natAt ["created_at"]
  expiresAt := value.natAt ["expires_at"]
  endedAt := (value.natAt ["completed_at"]).or (value.natAt ["ended_at"])
  endpoint := value.textAt ["endpoint"]
  extra := []

/-! ## Dialects with objects of their own -/

/-- The fields of `value` among `keys` that are not null, as they are. -/
def keptFields (value : Value) (keys : List String) : Map :=
  Map.build (keys.map fun key => (key, (value.get key).filter (· ≠ null)))

/-- A job of Anthropic; its instants are texts and stay out of the typed fields. -/
def anthropicBatchToHandle (value : Value) : BatchHandle :=
  let count := fun key => (value.natAt ["request_counts", key]).getD 0
  { id := (value.textAt ["id"]).getD ""
    status := match value.textAt ["processing_status"] with
      | some "canceling" => .canceling
      | some "ended" => .completed
      | _ => .inProgress
    counts :=
      { total := count "processing" + count "succeeded" + count "errored" + count "canceled" +
          count "expired"
        processing := count "processing"
        succeeded := count "succeeded"
        errored := count "errored"
        canceled := count "canceled"
        expired := count "expired" }
    createdAt := none
    expiresAt := none
    endedAt := none
    endpoint := some "/v1/messages"
    extra := keptFields value ["created_at", "expires_at", "ended_at"] }

/-- The status of a Gemini state, by the word after its last underscore. -/
def mapGeminiBatchState (s : String) : BatchStatus :=
  match String.ofList (s.toList.rtakeWhile (· ≠ '_')) with
  | "PENDING" | "RUNNING" => .inProgress
  | "SUCCEEDED" => .completed
  | "FAILED" => .failed
  | "CANCELLED" => .canceled
  | "EXPIRED" => .expired
  | _ => .inProgress

/-- The counts of a Gemini job, as numbers or as texts of numbers. -/
def geminiBatchCounts (stats : Value) : BatchCounts :=
  let n := fun key => (((stats.get key).bind fun v =>
    v.asU64.or (v.asStr.bind fun s => Strings.parseUnsigned (2 ^ 64) s.toList))).getD 0
  { total := n "requestCount"
    processing := n "pendingRequestCount"
    succeeded := n "successfulRequestCount"
    errored := n "failedRequestCount"
    canceled := 0
    expired := 0 }

/-- A job of Gemini, by the name of its operation. -/
def geminiBatchToHandle (value : Value) : BatchHandle where
  id := ((value.textAt ["name"]).map fun n => (Strings.stripPrefix n "batches/").getD n).getD ""
  status := ((value.textAt ["metadata", "state"]).map mapGeminiBatchState).getD .inProgress
  counts := ((value.path ["metadata", "batchStats"]).map geminiBatchCounts).getD
    ⟨0, 0, 0, 0, 0, 0⟩
  createdAt := none
  expiresAt := none
  endedAt := none
  endpoint := some "/v1beta/models:generateContent"
  extra := []

end Llmleaf
