import Ace3.Remediation.JobKind
import Mathlib.Algebra.Group.Nat.Defs

/-!
# Remediations and File Collections

The rows, statements and results of two of the tables, each as an instance of `JobKind`.
-/

namespace Ace3.Remediation

open Lib

/-- What the worker sees of an exception: the name of its class and its text. -/
structure Raised where
  className : String
  text : String
  deriving DecidableEq

def Raised.message (raised : Raised) : String :=
  raised.className ++ ": " ++ raised.text

def calculateBackoffDelay (attempt initialDelay maxDelay : Nat) : Nat :=
  min (initialDelay * 2 ^ attempt) maxDelay

/-- Enough time has passed since the row was last written, or it never was. -/
def isPastDelay (now : Nat) (updateTime : Option Nat) (requiredDelay : Nat) : Bool :=
  updateTime.isNone || hasElapsed now updateTime requiredDelay

/-! ## §1 Remediations -/

inductive RemediationAction where
  | remove
  | restore
  deriving DecidableEq

inductive RemediatorStatus where
  | delayed
  | error
  | failed
  | ignore
  | success
  | cancelled
  deriving DecidableEq

def RemediatorStatus.remediationStatus : RemediatorStatus → JobStatus
  | .delayed => .inProgress
  | _ => .completed

/-- A row of the table `remediation`. -/
structure RemediationRow where
  action : RemediationAction
  name : String
  type : String
  key : String
  restoreKey : Option String := none
  insertDate : Nat
  updateTime : Option Nat := none
  status : JobStatus := .new
  result : Option RemediatorStatus := none
  lock : Option LockUuid := none
  lockTime : Option Nat := none
  deriving DecidableEq

/-- The arguments of `queue_remediation`. -/
structure RemediationRequest where
  action : RemediationAction
  remediatorName : String
  observableType : String
  observableValue : String
  restoreKey : Option String := none
  deriving DecidableEq

def queueRemediation (now : Nat) (request : RemediationRequest) : RemediationRow where
  action := request.action
  name := request.remediatorName
  type := request.observableType
  key := request.observableValue
  restoreKey := request.restoreKey
  insertDate := now

structure RemediationWorkItem where
  id : Nat
  action : RemediationAction
  name : String
  type : String
  key : String
  restoreKey : Option String
  deriving DecidableEq

def createRemediationWorkItem (id : Nat) (row : RemediationRow) : RemediationWorkItem where
  id := id
  action := row.action
  name := row.name
  type := row.type
  key := row.key
  restoreKey := row.restoreKey

/-- The settings of a collector, and the names its listeners are registered for. -/
structure RemediationCollector where
  listeners : List String
  lockTimeoutSeconds : Nat := 300
  delayTimeSeconds : Nat := 60
  deriving DecidableEq

/-- The filters of `collect_work_items`. -/
def RemediationCollector.selects (collector : RemediationCollector) (now : Nat)
    (row : RemediationRow) : Bool :=
  collector.listeners.contains row.name
    && (row.lock.isNone || hasElapsed now row.lockTime collector.lockTimeoutSeconds)
    && row.status ≠ .completed
    && isPastDelay now row.updateTime collector.delayTimeSeconds

/-- What `Remediator.remediate` returns. -/
structure RemediatorResult where
  status : RemediatorStatus
  message : Option String := none
  restoreKey : Option String := none
  deriving DecidableEq

def RemediatorResult.ofOutcome : Except Raised RemediatorResult → RemediatorResult
  | .ok result => result
  | .error raised => { status := .error, message := some raised.message }

def RemediationRow.remediate (now : Nat) (result : RemediatorResult) (row : RemediationRow) :
    RemediationRow :=
  { row with
    lock := none
    status := result.status.remediationStatus
    result := some result.status
    restoreKey := result.restoreKey
    updateTime := some now }

inductive RemediationCancelCall where
  | remediations (ids : List Nat)
  | currentRemediation (remediatorName observableType observableValue : String)

/-- `cancel_remediations` changes rows that are in progress, `cancel_current_remediation` the row
with the id it has read. -/
inductive RemediationCancelUpdate where
  | inProgress (ids : List Nat)
  | byId (id : Nat)

/-- `get_current_remediation`: the newest row for the target. -/
def getCurrentRemediation (table : Table RemediationRow)
    (remediatorName observableType observableValue : String) : Option (Nat × RemediationRow) :=
  table.last? fun row => row.2.name = remediatorName ∧ row.2.type = observableType ∧
    row.2.key = observableValue

def RemediationCancelCall.update? (call : RemediationCancelCall) (table : Table RemediationRow) :
    Option RemediationCancelUpdate :=
  match call with
  | .remediations ids => some (.inProgress ids)
  | .currentRemediation remediatorName observableType observableValue =>
    (getCurrentRemediation table remediatorName observableType observableValue).map (.byId ·.1)

def RemediationCancelUpdate.cancels (update : RemediationCancelUpdate)
    (row : Nat × RemediationRow) : Bool :=
  match update with
  | .inProgress ids => row.1 ∈ ids ∧ row.2.status = .inProgress
  | .byId id => row.1 = id

/-- `cancel_remediations` returns the number of its ids, and a history entry says for each of them
that it was cancelled. -/
def RemediationCancelUpdate.reports (update : RemediationCancelUpdate)
    (row : Nat × RemediationRow) : Bool :=
  match update with
  | .inProgress ids => row.1 ∈ ids
  | .byId id => row.1 = id

/-- The values of both cancelling `UPDATE`s. -/
def RemediationRow.cancel (now : Nat) (row : RemediationRow) : RemediationRow :=
  { row with status := .completed, result := some .cancelled, updateTime := some now }

/-- The values `retry_remediations` sets. -/
def RemediationRow.retry (row : RemediationRow) : RemediationRow :=
  { row with status := .new, result := none, updateTime := none, lock := none, lockTime := none }

/-- The table `remediation` with its collector, its workers and its users. -/
def remediations : JobKind where
  Row := RemediationRow
  Request := RemediationRequest
  Collector := RemediationCollector
  WorkItem := RemediationWorkItem
  Outcome := Except Raised RemediatorResult
  CancelCall := RemediationCancelCall
  CancelUpdate := RemediationCancelUpdate
  queue := queueRemediation
  status := (·.status)
  isCancelled row := row.status = .completed ∧ row.result = some .cancelled
  lock := (·.lock)
  lockTimedOut collector now row := hasElapsed now row.lockTime collector.lockTimeoutSeconds
  selects := RemediationCollector.selects
  stopsWhenEmpty := false
  locked lockUuid now row :=
    { row with lock := some lockUuid, lockTime := some now, status := .inProgress }
  createWorkItem _ id row := some (createRemediationWorkItem id row)
  itemId := (·.id)
  finish _ now _ outcome row := row.remediate now (RemediatorResult.ofOutcome outcome)
  cancelUpdate? := RemediationCancelCall.update?
  cancels := RemediationCancelUpdate.cancels
  reports := RemediationCancelUpdate.reports
  cancel := RemediationRow.cancel
  retries row := row.status = .completed
  retry _ row := row.retry
  lock_queue _ _ := rfl
  selects_status collector now row h := by
    simp only [RemediationCollector.selects, Bool.and_eq_true, decide_eq_true_eq] at h
    exact h.1.2
  selects_lock collector now row h := by
    simp only [RemediationCollector.selects, Bool.and_eq_true, Bool.or_eq_true,
      Option.isNone_iff_eq_none] at h
    exact h.1.1.2
  lock_locked _ _ _ := rfl
  itemId_createWorkItem _ _ _ _ h := by
    cases h
    rfl
  lock_finish _ _ _ _ _ := rfl
  isCancelled_cancel _ _ := by simp [RemediationRow.cancel]
  status_of_isCancelled _ h := by
    simp only [decide_eq_true_eq] at h
    exact h.1
  lock_cancel _ _ := .inl rfl
  lock_retry _ _ _ := rfl

/-! ## §2 File collections -/

inductive FileCollectorStatus where
  | delayed
  | error
  | failed
  | success
  | cancelled
  | hostOffline
  | fileNotFound
  deriving DecidableEq

def FileCollectorStatus.isFinal : FileCollectorStatus → Bool
  | .success | .fileNotFound | .failed | .cancelled => true
  | _ => false

def FileCollectorStatus.collectionStatus (status : FileCollectorStatus) : JobStatus :=
  if status.isFinal then .completed else .inProgress

/-- A row of the table `file_collection`. -/
structure FileCollection where
  name : String
  type : String
  key : String
  alertUuid : String
  insertDate : Nat
  updateTime : Option Nat := none
  status : JobStatus := .new
  result : Option FileCollectorStatus := none
  resultMessage : Option String := none
  collectedFilePath : Option String := none
  collectedFileSha256 : Option String := none
  retryCount : Nat := 0
  maxRetries : Nat
  lock : Option LockUuid := none
  lockTime : Option Nat := none
  deriving DecidableEq

/-- The arguments of `queue_file_collection`, which refuses an empty `alert_uuid`. -/
structure FileCollectionRequest where
  collectorName : String
  observableType : String
  observableValue : String
  alertUuid : String
  maxRetries : Nat := 10
  alertUuid_ne : alertUuid ≠ ""
  deriving DecidableEq

def queueFileCollection (now : Nat) (request : FileCollectionRequest) : FileCollection where
  name := request.collectorName
  type := request.observableType
  key := request.observableValue
  alertUuid := request.alertUuid
  insertDate := now
  maxRetries := request.maxRetries

structure FileCollectionWorkItem where
  id : Nat
  name : String
  type : String
  key : String
  alertUuid : String
  storageDir : String
  retryCount : Nat
  maxRetries : Nat
  deriving DecidableEq

def createFileCollectionWorkItem (alerts : List Alert) (id : Nat) (row : FileCollection) :
    Option FileCollectionWorkItem :=
  match alerts.find? (·.uuid = row.alertUuid) with
  | some alert => some
      { id := id, name := row.name, type := row.type, key := row.key, alertUuid := row.alertUuid
        storageDir := alert.storageDir, retryCount := row.retryCount
        maxRetries := row.maxRetries }
  | none => none

/-- The settings of a collector, and the names its listeners are registered for. -/
structure FileCollectionCollector where
  listeners : List String
  lockTimeoutSeconds : Nat := 300
  initialRetryDelaySeconds : Nat := 60
  maxRetryDelaySeconds : Nat := 3600
  maxCollectionTimeSeconds : Nat := 604800
  deriving DecidableEq

/-- The delay the collector asks for after the attempts of a row so far. -/
def FileCollectionCollector.requiredDelay (collector : FileCollectionCollector)
    (row : FileCollection) : Nat :=
  calculateBackoffDelay row.retryCount collector.initialRetryDelaySeconds
    collector.maxRetryDelaySeconds

/-- The filters of `collect_work_items`, in the query and after it. -/
def FileCollectionCollector.selects (collector : FileCollectionCollector) (now : Nat)
    (row : FileCollection) : Bool :=
  collector.listeners.contains row.name
    && (row.lock.isNone || hasElapsed now row.lockTime collector.lockTimeoutSeconds)
    && row.status ≠ .completed
    && now < row.insertDate + collector.maxCollectionTimeSeconds
    && isPastDelay now row.updateTime (collector.requiredDelay row)

structure FileCollectorResult where
  status : FileCollectorStatus
  message : Option String := none
  collectedFilePath : Option String := none
  collectedFileSha256 : Option String := none
  deriving DecidableEq

def FileCollectorResult.ofOutcome : Except Raised FileCollectorResult → FileCollectorResult
  | .ok result => result
  | .error raised => { status := .error, message := some raised.message }

def shouldRetry (result : FileCollectorResult) (retryCount maxRetries : Nat) : Bool :=
  if result.status.isFinal then false else retryCount < maxRetries

def FileCollection.collect (now : Nat) (item : FileCollectionWorkItem)
    (result : FileCollectorResult) (row : FileCollection) : FileCollection :=
  { row with
    lock := none
    status :=
      if result.status.isFinal || !shouldRetry result (item.retryCount + 1) item.maxRetries then
        .completed
      else result.status.collectionStatus
    result := some result.status
    resultMessage := result.message
    collectedFilePath := result.collectedFilePath
    collectedFileSha256 := result.collectedFileSha256
    updateTime := some now
    retryCount := item.retryCount + 1 }

def cancelFileCollection (id : Nat) (table : Table FileCollection) : Option Nat :=
  if table.rows.any fun row => row.1 = id ∧ row.2.status ≠ .completed then some id else none

/-- The values `cancel_file_collection` sets. -/
def FileCollection.cancel (now : Nat) (row : FileCollection) : FileCollection :=
  { row with status := .completed, result := some .cancelled, updateTime := some now }

/-- The values `retry_file_collection` sets. -/
def FileCollection.retry (now : Nat) (row : FileCollection) : FileCollection :=
  { row with
    status := .new, result := none, resultMessage := none, lock := none, lockTime := none
    updateTime := some now, retryCount := 0 }

/-- The table `file_collection` with its collector, its workers and its users. -/
def fileCollections : JobKind where
  Row := FileCollection
  Request := FileCollectionRequest
  Collector := FileCollectionCollector
  WorkItem := FileCollectionWorkItem
  Outcome := Except Raised FileCollectorResult
  CancelCall := Nat
  CancelUpdate := Nat
  queue := queueFileCollection
  status := (·.status)
  isCancelled row := row.status = .completed ∧ row.result = some .cancelled
  lock := (·.lock)
  lockTimedOut collector now row := hasElapsed now row.lockTime collector.lockTimeoutSeconds
  selects := FileCollectionCollector.selects
  stopsWhenEmpty := true
  locked lockUuid now row :=
    { row with lock := some lockUuid, lockTime := some now, status := .inProgress }
  createWorkItem := createFileCollectionWorkItem
  itemId := (·.id)
  finish _ now item outcome row := row.collect now item (FileCollectorResult.ofOutcome outcome)
  cancelUpdate? := cancelFileCollection
  cancels id row := row.1 = id
  reports id row := row.1 = id
  cancel := FileCollection.cancel
  retries _ := true
  retry := FileCollection.retry
  lock_queue _ _ := rfl
  selects_status collector now row h := by
    simp only [FileCollectionCollector.selects, Bool.and_eq_true, decide_eq_true_eq] at h
    exact h.1.1.2
  selects_lock collector now row h := by
    simp only [FileCollectionCollector.selects, Bool.and_eq_true, Bool.or_eq_true,
      Option.isNone_iff_eq_none] at h
    exact h.1.1.1.2
  lock_locked _ _ _ := rfl
  itemId_createWorkItem alerts id row item h := by
    unfold createFileCollectionWorkItem at h
    split at h
    · cases h
      rfl
    · cases h
  lock_finish _ _ _ _ _ := rfl
  isCancelled_cancel _ _ := by simp [FileCollection.cancel]
  status_of_isCancelled _ h := by
    simp only [decide_eq_true_eq] at h
    exact h.1
  lock_cancel _ _ := .inl rfl
  lock_retry _ _ _ := rfl

end Ace3.Remediation
