import Ace3.Remediation.Jobs

/-!
# External Remediation Checks

The third table of jobs: a check asks a vendor, again and again until its deadline, whether the
vendor has removed a target by itself.
-/

namespace Ace3.Remediation

open Lib

/-! ## §1 Rows and outcomes -/

/-- The `result` column of a check. -/
inductive CheckResult where
  | confirmed
  | notFound
  | expired
  | error
  | cancelled
  | superseded
  deriving DecidableEq

/-- A row of the table `external_remediation_check`; the context is the decoded `context_json`. -/
structure ExternalRemediationCheck where
  probeName : String
  observableType : String
  observableValue : String
  alertUuid : String
  insertDate : Nat
  updateTime : Option Nat := none
  status : JobStatus := .new
  result : Option CheckResult := none
  resultMessage : Option String := none
  retryCount : Nat := 0
  maxRetries : Nat
  deadline : Nat
  lock : Option LockUuid := none
  lockTime : Option Nat := none
  eventsJson : Option String := none
  lastError : Option String := none
  context : Option String := none
  deriving DecidableEq

/-- The arguments of `queue_external_check`, which refuses an empty `alert_uuid`. -/
structure ExternalCheckRequest where
  probeName : String
  observableType : String
  observableValue : String
  alertUuid : String
  maxRetries : Nat
  deadlineSeconds : Nat
  context : Option String := none
  alertUuid_ne : ¬ alertUuid = ""
  deriving DecidableEq

def queueExternalCheck (now : Nat) (request : ExternalCheckRequest) :
    ExternalRemediationCheck where
  probeName := request.probeName
  observableType := request.observableType
  observableValue := request.observableValue
  alertUuid := request.alertUuid
  insertDate := now
  maxRetries := request.maxRetries
  deadline := now + request.deadlineSeconds
  context := request.context

structure CheckWorkItem where
  id : Nat
  probeName : String
  observableType : String
  observableValue : String
  alertUuid : String
  retryCount : Nat
  maxRetries : Nat
  deadline : Nat
  context : Option String
  deriving DecidableEq

def buildWorkItem (id : Nat) (row : ExternalRemediationCheck) : CheckWorkItem where
  id := id
  probeName := row.probeName
  observableType := row.observableType
  observableValue := row.observableValue
  alertUuid := row.alertUuid
  retryCount := row.retryCount
  maxRetries := row.maxRetries
  deadline := row.deadline
  context := row.context

/-- Exactly one of the five outcomes of an attempt. -/
inductive ProbeOutcomeKind where
  | foundEvents (events : String)
  | notFound
  | pending
  | transientError (text : String)
  | permanentError (text : String)
  deriving DecidableEq

/-- What `probe` returns. -/
structure ProbeOutcome where
  kind : ProbeOutcomeKind
  message : Option String := none
  deriving DecidableEq

def ProbeOutcome.ofAttempt : Except Raised ProbeOutcome → ProbeOutcome
  | .ok outcome => outcome
  | .error raised =>
    { kind := .transientError raised.message, message := some ("probe raised " ++ raised.className) }

/-! ## §2 The collector and the workers -/

/-- The settings of a collector, and its listeners with the delays of their probes. -/
structure ExternalRemediationCheckCollector where
  listeners : List (String × Option (Nat × Nat))
  lockTimeoutSeconds : Nat := 300
  initialRetryDelaySeconds : Nat := 60
  maxRetryDelaySeconds : Nat := 3600
  deriving DecidableEq

def ExternalRemediationCheckCollector.backoffDelays
    (collector : ExternalRemediationCheckCollector) (probeName : String) : Nat × Nat :=
  match collector.listeners.lookup probeName with
  | some (some delays) => delays
  | _ => (collector.initialRetryDelaySeconds, collector.maxRetryDelaySeconds)

def ExternalRemediationCheckCollector.isReady (collector : ExternalRemediationCheckCollector)
    (now : Nat) (row : ExternalRemediationCheck) : Bool :=
  row.deadline ≤ now ||
    isPastDelay now row.updateTime
      (calculateBackoffDelay row.retryCount (collector.backoffDelays row.probeName).1
        (collector.backoffDelays row.probeName).2)

/-- The filters of `collect_work_items`, in the query and after it. -/
def ExternalRemediationCheckCollector.selects (collector : ExternalRemediationCheckCollector)
    (now : Nat) (row : ExternalRemediationCheck) : Bool :=
  (collector.listeners.map (·.1)).contains row.probeName
    && (row.lock.isNone || hasElapsed now row.lockTime collector.lockTimeoutSeconds)
    && row.status ≠ .completed
    && collector.isReady now row

namespace ExternalRemediationCheck

/-- The values `finalize_expired` sets. -/
def finalizeExpired (now : Nat) (row : ExternalRemediationCheck) : ExternalRemediationCheck :=
  { row with
    lock := none, lockTime := none, status := .completed, result := some .expired
    updateTime := some now }

/-- The values `finalize_superseded` sets. -/
def finalizeSuperseded (now : Nat) (reason : String) (row : ExternalRemediationCheck) :
    ExternalRemediationCheck :=
  { row with
    lock := none, lockTime := none, status := .completed, result := some .superseded
    resultMessage := some reason, updateTime := some now }

def noteAttempt (now : Nat) (outcome : ProbeOutcome) (retryCount : Nat)
    (row : ExternalRemediationCheck) : ExternalRemediationCheck :=
  { row with
    lock := none, lockTime := none, resultMessage := outcome.message, updateTime := some now
    retryCount := retryCount }

def persistProbeOutcome (now : Nat) (outcome : ProbeOutcome) (retryCount maxRetries : Nat)
    (row : ExternalRemediationCheck) : ExternalRemediationCheck :=
  let noted := row.noteAttempt now outcome (retryCount + 1)
  match outcome.kind with
  | .foundEvents events =>
    { noted with status := .completed, result := some .confirmed, eventsJson := some events }
  | .notFound => { noted with status := .completed, result := some .notFound }
  | .pending =>
    if maxRetries ≤ retryCount + 1 then
      { noted with
        status := .completed, result := some .expired
        resultMessage := some s!"retries exhausted after {retryCount + 1} attempts" }
    else { noted with status := .new, result := none }
  | .permanentError text =>
    { noted with status := .completed, result := some .error, lastError := some text }
  | .transientError text =>
    if maxRetries ≤ retryCount + 1 then
      { noted with status := .completed, result := some .error, lastError := some text }
    else { noted with status := .new, result := none, lastError := some text }

/-- The values of both cancelling `UPDATE`s. -/
def cancel (now : Nat) (row : ExternalRemediationCheck) : ExternalRemediationCheck :=
  { row with
    status := .completed, result := some .cancelled, updateTime := some now
    lock := none, lockTime := none }

end ExternalRemediationCheck

/-- What a worker finds out: whether the target is confirmed by someone else, and if not, what its
probe returns. -/
structure CheckAttempt where
  supersededReason : Option String := none
  outcome : Except Raised ProbeOutcome

/-- `ExternalRemediationCheckWorker.process`, which takes the time once, at its start. -/
def ExternalRemediationCheck.process (startedAt : Nat) (item : CheckWorkItem)
    (attempt : CheckAttempt) (row : ExternalRemediationCheck) : ExternalRemediationCheck :=
  if item.deadline ≤ startedAt then row.finalizeExpired startedAt
  else
    match attempt.supersededReason with
    | some reason => row.finalizeSuperseded startedAt reason
    | none =>
      row.persistProbeOutcome startedAt (ProbeOutcome.ofAttempt attempt.outcome) item.retryCount
        item.maxRetries

inductive CheckCancelCall where
  | externalCheck (id : Nat)
  | externalChecksForAlert (alertUuid : String)

/-- `cancel_external_check` goes on for a row that is there and not completed, the sweep of an
alert goes on in any case. -/
def CheckCancelCall.update? (call : CheckCancelCall)
    (table : Table ExternalRemediationCheck) : Option CheckCancelCall :=
  match call with
  | .externalCheck id =>
    if table.rows.any fun row => row.1 = id ∧ row.2.status ≠ .completed then some call else none
  | .externalChecksForAlert _ => some call

/-- The `WHERE` of the `UPDATE`; the rows for which the call reports success are the same. -/
def CheckCancelCall.cancels (call : CheckCancelCall) (row : Nat × ExternalRemediationCheck) :
    Bool :=
  match call with
  | .externalCheck id => row.1 = id
  | .externalChecksForAlert alertUuid =>
    row.2.alertUuid = alertUuid ∧ row.2.status ≠ .completed

/-! ## §3 The tables -/

theorem ExternalRemediationCheck.lock_process (startedAt : Nat) (item : CheckWorkItem)
    (attempt : CheckAttempt) (row : ExternalRemediationCheck) :
    (row.process startedAt item attempt).lock = none := by
  unfold process
  split
  · rfl
  · split
    · rfl
    · unfold persistProbeOutcome
      -- one case for each outcome, and one for each side of the retry limit
      split <;> first | rfl | (split <;> rfl)

/-- The table `external_remediation_check` with its collector, its workers and its users; no call
retries a check. -/
def externalChecks : JobKind where
  Row := ExternalRemediationCheck
  Request := ExternalCheckRequest
  Collector := ExternalRemediationCheckCollector
  WorkItem := CheckWorkItem
  Outcome := CheckAttempt
  CancelCall := CheckCancelCall
  CancelUpdate := CheckCancelCall
  queue := queueExternalCheck
  status := (·.status)
  isCancelled row := row.status = .completed ∧ row.result = some .cancelled
  lock := (·.lock)
  lockTimedOut collector now row := hasElapsed now row.lockTime collector.lockTimeoutSeconds
  selects := ExternalRemediationCheckCollector.selects
  stopsWhenEmpty := true
  locked lockUuid now row :=
    { row with lock := some lockUuid, lockTime := some now, status := .inProgress }
  createWorkItem _ id row := some (buildWorkItem id row)
  itemId := (·.id)
  finish startedAt _ item attempt row := row.process startedAt item attempt
  cancelUpdate? := CheckCancelCall.update?
  cancels := CheckCancelCall.cancels
  reports := CheckCancelCall.cancels
  cancel := ExternalRemediationCheck.cancel
  retries _ := false
  retry _ row := row
  lock_queue _ _ := rfl
  selects_status collector now row h := by
    simp only [ExternalRemediationCheckCollector.selects, Bool.and_eq_true,
      decide_eq_true_eq] at h
    exact h.1.2
  selects_lock collector now row h := by
    simp only [ExternalRemediationCheckCollector.selects, Bool.and_eq_true, Bool.or_eq_true,
      Option.isNone_iff_eq_none] at h
    exact h.1.1.2
  lock_locked _ _ _ := rfl
  itemId_createWorkItem _ _ _ _ h := by
    cases h
    rfl
  lock_finish startedAt _ item attempt row := row.lock_process startedAt item attempt
  isCancelled_cancel _ _ := by simp [ExternalRemediationCheck.cancel]
  status_of_isCancelled _ h := by
    simp only [decide_eq_true_eq] at h
    exact h.1
  lock_cancel _ _ := .inr rfl
  lock_retry _ _ h := by cases h

inductive JobTable where
  | remediation
  | fileCollection
  | externalRemediationCheck
  deriving DecidableEq

/-- What the rows of a table are, and what is done with them. -/
def JobTable.kind : JobTable → JobKind
  | .remediation => remediations
  | .fileCollection => fileCollections
  | .externalRemediationCheck => externalChecks

end Ace3.Remediation
