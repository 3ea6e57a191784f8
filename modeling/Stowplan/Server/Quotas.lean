/-
  File:      Stowplan/Server/Quotas.lean
  Subject:   HOW LARGE A SNAPSHOT MAY BE (quotas.ts, snapshot-quota-usage.ts, api-quotas.ts).

  A snapshot may exceed a limit only where it already did: `assertSnapshotWithinQuotas` refuses
  growth beyond one.
-/
import Stowplan.Domain.Retention

namespace Stowplan

/-- The quotas of a snapshot. -/
inductive SnapshotQuota where
  | activitiesPerSnapshot | activityPatchesPerSnapshot | auditEventsPerSnapshot
  | commandReceiptsPerSnapshot | itemsPerSnapshot | locationsPerSnapshot | plansPerSnapshot
  | planStepsPerSnapshot | storedSnapshotBytes
  deriving DecidableEq

/-- `API_QUOTAS[quota]`. -/
def SnapshotQuota.limit : SnapshotQuota → Nat
  | .activitiesPerSnapshot => 10000
  | .activityPatchesPerSnapshot => 50000
  | .auditEventsPerSnapshot => 10000
  | .commandReceiptsPerSnapshot => 20000
  | .itemsPerSnapshot => 4000
  | .locationsPerSnapshot => 1000
  | .plansPerSnapshot => 250
  | .planStepsPerSnapshot => 5000
  | .storedSnapshotBytes => 1800000

/-- `API_QUOTAS.commandsPerSyncRequest`. -/
def commandsPerSyncRequest : Nat := 100

/-- `quotaMessages[quota]`. -/
def SnapshotQuota.message : SnapshotQuota → String
  | .activitiesPerSnapshot => "This workspace has reached its activity record limit"
  | .activityPatchesPerSnapshot => "This workspace has reached its activity patch limit"
  | .auditEventsPerSnapshot => "This workspace has reached its audit event limit"
  | .commandReceiptsPerSnapshot => "This workspace has reached its compact command receipt limit"
  | .itemsPerSnapshot => "This workspace has reached its item record limit"
  | .locationsPerSnapshot => "This workspace has reached its location record limit"
  | .plansPerSnapshot => "This workspace has reached its plan record limit"
  | .planStepsPerSnapshot => "This workspace has reached its plan step limit"
  | .storedSnapshotBytes => "This workspace has reached its stored snapshot size limit"

/-- `SNAPSHOT_QUOTA_ORDER`. -/
def snapshotQuotaOrder : List SnapshotQuota :=
  [.locationsPerSnapshot, .itemsPerSnapshot, .plansPerSnapshot, .planStepsPerSnapshot,
    .activitiesPerSnapshot, .auditEventsPerSnapshot, .activityPatchesPerSnapshot,
    .commandReceiptsPerSnapshot, .storedSnapshotBytes]

/-- `QuotaExceededError`. -/
structure QuotaExceededError where
  quota : SnapshotQuota
  actual : Nat

/-- `snapshotQuotaUsage(state)[quota]`. -/
def snapshotQuotaUsage [Host] (state : WorkspaceState) : SnapshotQuota → Nat
  | .activitiesPerSnapshot => state.activities.length
  | .activityPatchesPerSnapshot => (state.activities.map (·.patches.length)).sum
  | .auditEventsPerSnapshot => state.audit.length
  | .commandReceiptsPerSnapshot => state.commandReceipts.length
  | .itemsPerSnapshot => state.items.length
  | .locationsPerSnapshot => state.locations.length
  | .plansPerSnapshot => state.plans.length
  | .planStepsPerSnapshot => (state.plans.map (·.steps.length)).sum
  | .storedSnapshotBytes => JsValue.serializedBytes (encode state)

/-- The quota is exceeded, and by more than before. -/
def exceeds (usage : SnapshotQuota → Nat) (previous : Option (SnapshotQuota → Nat))
    (quota : SnapshotQuota) : Bool :=
  decide (quota.limit < usage quota) &&
    match previous with
    | none => true
    | some previous => decide (previous quota < usage quota)

/-- `assertSnapshotWithinQuotas(value, { previousUsage })`. -/
def assertSnapshotWithinQuotas [Host] (state : WorkspaceState)
    (previousUsage : Option (SnapshotQuota → Nat)) :
    Except QuotaExceededError (SnapshotQuota → Nat) :=
  let usage := snapshotQuotaUsage state
  match snapshotQuotaOrder.find? (exceeds usage previousUsage) with
  | some quota => .error ⟨quota, usage quota⟩
  | none => .ok usage

/-- The limits a snapshot's history is compacted to. -/
def snapshotHistoryLimits : HistoryRetentionLimits where
  activities := SnapshotQuota.activitiesPerSnapshot.limit
  activityPatches := SnapshotQuota.activityPatchesPerSnapshot.limit
  auditEvents := SnapshotQuota.auditEventsPerSnapshot.limit
  commandReceipts := SnapshotQuota.commandReceiptsPerSnapshot.limit
  serializedBytes := SnapshotQuota.storedSnapshotBytes.limit

end Stowplan
