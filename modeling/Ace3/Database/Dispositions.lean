import Ace3.EmailArchive.LocalArchive
import Ace3.Lib.Sql

/-!
# Dispositions of Alerts

`set_dispositions` and `set_disposition_reviews` of `saq/database/util/alert.py`. Each reads a
snapshot of the alerts, updates their rows under a guard, puts them back into the workload, and
logs an audit line for each alert that it takes to have changed.
-/

namespace Ace3.Database

open Lib.Sql

/-! ## §1 Tables -/

/-- `VALID_DISPOSITIONS`. -/
inductive Disposition where
  | opened
  | falsePositive
  | ignore
  | unknown
  | reviewed
  | grayware
  | policyViolation
  | reconnaissance
  | weaponization
  | delivery
  | exploitation
  | installation
  | commandAndControl
  | exfil
  | damage
  | insiderDataControl
  | insiderDataExfil
  | approvedBusiness
  | approvedPersonal
  deriving DecidableEq

/-- `VALID_DISPOSITION_REVIEWS`. -/
inductive DispositionReview where
  | unreviewed
  | correct
  | incorrect
  deriving DecidableEq

structure AlertRow where
  uuid : String
  companyId : Option Nat
  location : String
  storageDir : String
  insertDate : Nat
  eventTime : Option Nat
  tool : String
  toolInstance : String
  alertType : String
  description : Option String
  queue : String
  disposition : Option Disposition
  dispositionUserId : Option Nat
  dispositionTime : Option Nat
  ownerId : Option Nat
  ownerTime : Option Nat
  dispositionReview : DispositionReview
  reviewUserId : Option Nat
  reviewTime : Option Nat
  incorrectDisposition : Option Disposition
  incorrectDispositionUserId : Option Nat
  incorrectDispositionTime : Option Nat
  deriving DecidableEq

/-- A row of `workload`. -/
structure WorkloadEntry where
  uuid : String
  nodeId : Nat
  analysisMode : String
  insertDate : Nat
  companyId : Nat
  storageDir : String
  deriving DecidableEq

/-- A row of `comments`. -/
structure Comment where
  userId : Nat
  uuid : String
  comment : String
  deriving DecidableEq

/-- The tables that the two functions use. The uuids of the alerts are unique. -/
structure AlertDb where
  alerts : List AlertRow
  uuids : (alerts.map (·.uuid)).Nodup
  workload : List WorkloadEntry
  comments : List Comment
  /-- The names of the companies, and of the users, by their ids. -/
  company : List (Nat × String)
  users : List (Nat × String)
  /-- The ids of the nodes and their names. -/
  nodes : List (Nat × String)

namespace AlertDb

def alert? (db : AlertDb) (uuid : String) : Option AlertRow := db.alerts.find? (·.uuid = uuid)

end AlertDb

/-! ## §2 Snapshots and audit lines -/

/-- The metadata of an alert that `_fetch_disposition_context` reads. -/
structure DispositionContext where
  alertUuid : String
  alertDescription : Option String
  oldDisposition : Option Disposition
  alertType : String
  alertTool : String
  alertToolInstance : String
  alertQueue : String
  alertInsertDate : Nat
  alertEventTime : Option Nat
  alertCompany : Option String
  alertOwner : Option String
  deriving DecidableEq

/-- A log line of `_log_disposition_changes`, with its extra fields. -/
structure AuditLine where
  event : String
  context : DispositionContext
  newDisposition : Option Disposition
  reviewResult : Option DispositionReview
  dispositionUser : Option String
  dispositionComment : Option String
  deriving DecidableEq

namespace AlertDb

/-- The joins with `company` and `users` find at most one row each. -/
def context (db : AlertDb) (alert : AlertRow) : DispositionContext where
  alertUuid := alert.uuid
  alertDescription := alert.description
  oldDisposition := alert.disposition
  alertType := alert.alertType
  alertTool := alert.tool
  alertToolInstance := alert.toolInstance
  alertQueue := alert.queue
  alertInsertDate := alert.insertDate
  alertEventTime := alert.eventTime
  alertCompany := alert.companyId.bind (db.company.lookup ·)
  alertOwner := alert.ownerId.bind (db.users.lookup ·)

/-- `_fetch_disposition_context`: the values of the dictionary, whose keys are the uuids. -/
def fetchDispositionContext (db : AlertDb) (alertUuids : List String) : List DispositionContext :=
  (db.alerts.filter (·.uuid ∈ alertUuids)).map db.context

def fetchUsername (db : AlertDb) (userId : Nat) : Option String := db.users.lookup userId

end AlertDb

/-! ## §3 Statements -/

namespace AlertDb

def updateAlerts (db : AlertDb) (condition : AlertRow → Truth) (set : AlertRow → AlertRow)
    (hset : ∀ alert, (set alert).uuid = alert.uuid) : AlertDb :=
  { db with
    alerts := db.alerts.map fun alert => if condition alert = some true then set alert else alert
    uuids := by
      have huuid : (fun alert : AlertRow => (if condition alert = some true then set alert
          else alert).uuid) = (·.uuid) := by
        funext alert
        split
        · exact hset alert
        · rfl
      rw [List.map_map]
      exact (congrArg (fun f => (db.alerts.map f).Nodup) huuid).mpr db.uuids }

/-- `INSERT INTO comments`, for each uuid of the call. -/
def addComments (db : AlertDb) (alertUuids : List String) (userId : Nat) (comment : String) :
    AlertDb :=
  { db with comments := db.comments ++ alertUuids.map (⟨userId, ·, comment⟩) }

/-- `INSERT IGNORE INTO workload`: an entry for a uuid and a mode that is there stays, and one
without a company is not taken. -/
def insertIgnore (workload : List WorkloadEntry) (entry : Option WorkloadEntry) :
    List WorkloadEntry :=
  match entry with
  | none => workload
  | some entry =>
    if workload.any fun other => other.uuid = entry.uuid ∧ other.analysisMode = entry.analysisMode
    then workload else workload ++ [entry]

def analysisModeDispositioned : String := "dispositioned"

def selectedEntries (db : AlertDb) (now : Nat) (alert : AlertRow) : List (Option WorkloadEntry) :=
  (db.nodes.filter (·.2 = alert.location)).map fun node => alert.companyId.map fun companyId =>
    ⟨alert.uuid, node.1, analysisModeDispositioned, now, companyId, alert.storageDir⟩

def requeue (db : AlertDb) (now : Nat) (alertUuids : List String) : AlertDb :=
  { db with
    workload := ((db.alerts.filter (·.uuid ∈ alertUuids)).flatMap (db.selectedEntries now)).foldl
      insertIgnore db.workload }

end AlertDb

/-! ## §4 The two functions -/

/-- `column != value`, for a value that may be `None`. -/
def isNot (column value : Option Disposition) : Truth := (equals column value).not

def AlertRow.setDisposition (now userId : Nat) (disposition : Option Disposition)
    (alert : AlertRow) : AlertRow :=
  { alert with
    disposition := disposition
    dispositionUserId := some userId
    dispositionTime := some now
    ownerId := if alert.ownerId.isNone then some userId else alert.ownerId
    ownerTime := if alert.ownerTime.isNone then some now else alert.ownerTime }

def AlertRow.correctDisposition (now reviewerId : Nat) (corrected : Option Disposition)
    (alert : AlertRow) : AlertRow :=
  let preserved :=
    { alert with
      incorrectDisposition := alert.disposition
      incorrectDispositionUserId := alert.dispositionUserId
      incorrectDispositionTime := alert.dispositionTime }
  { preserved.setDisposition now reviewerId corrected with
    dispositionReview := .incorrect
    reviewUserId := some reviewerId
    reviewTime := some now }

def AlertRow.confirmDisposition (now reviewerId : Nat) (alert : AlertRow) : AlertRow :=
  { alert with
    dispositionReview := .correct
    reviewUserId := some reviewerId
    reviewTime := some now }

namespace AlertRow

@[simp] theorem uuid_setDisposition (now userId : Nat) (disposition : Option Disposition)
    (alert : AlertRow) : (alert.setDisposition now userId disposition).uuid = alert.uuid := rfl

@[simp] theorem uuid_correctDisposition (now reviewerId : Nat) (corrected : Option Disposition)
    (alert : AlertRow) : (alert.correctDisposition now reviewerId corrected).uuid = alert.uuid := rfl

@[simp] theorem uuid_confirmDisposition (now reviewerId : Nat) (alert : AlertRow) :
    (alert.confirmDisposition now reviewerId).uuid = alert.uuid := rfl

end AlertRow

namespace AlertDb

def addCommentIfAny (db : AlertDb) (alertUuids : List String) (userId : Nat)
    (comment : Option String) : AlertDb :=
  match comment with
  | none => db
  | some comment => if comment = "" then db else db.addComments alertUuids userId comment

/-- Unless the new disposition is `IGNORE`, the alerts go back into the workload. -/
def requeueUnlessIgnored (db : AlertDb) (now : Nat) (alertUuids : List String)
    (disposition : Option Disposition) : AlertDb :=
  if disposition ≠ some .ignore then db.requeue now alertUuids else db

/-- `set_dispositions`, with the lines that it logs. -/
def setDispositions (db : AlertDb) (now : Nat) (alertUuids : List String)
    (disposition : Option Disposition) (userId : Nat) (userComment : Option String) :
    Option (AlertDb × List AuditLine) :=
  if alertUuids.isEmpty then none
  else
    let context := db.fetchDispositionContext alertUuids
    let actingUsername := db.fetchUsername userId
    let updated := db.updateAlerts
      (fun alert => Truth.and
        (Truth.or (isNull alert.disposition) (isNot alert.disposition disposition))
        (some (alert.uuid ∈ alertUuids)))
      (·.setDisposition now userId disposition) (AlertRow.uuid_setDisposition now userId disposition)
    let commented := updated.addCommentIfAny alertUuids userId userComment
    let changed := context.filter (·.oldDisposition ≠ disposition)
    some (commented.requeueUnlessIgnored now alertUuids disposition, changed.map fun row =>
      ⟨"AUDIT: alert dispositioned", row, disposition, none, actingUsername, userComment⟩)

/-- `REVIEW_COMMENT_PREFIX` before the stripped comment. -/
def prefixedComment (reviewComment : Option String) : Option String :=
  (reviewComment.filter (· ≠ "")).map fun comment => "[REVIEW] " ++ EmailArchive.strip comment

/-- `set_disposition_reviews`, with the lines that it logs. -/
def setDispositionReviews (db : AlertDb) (now : Nat) (alertUuids : List String)
    (reviewResult : DispositionReview) (reviewerId : Nat) (corrected : Option Disposition)
    (reviewComment : Option String) : Option (AlertDb × List AuditLine) :=
  if alertUuids.isEmpty then none
  else
    let context := db.fetchDispositionContext alertUuids
    let actingUsername := db.fetchUsername reviewerId
    if reviewResult = .incorrect then
      let updated := db.updateAlerts
        (fun alert => Truth.and (isNot alert.disposition corrected)
          (some (alert.uuid ∈ alertUuids)))
        (·.correctDisposition now reviewerId corrected)
        (AlertRow.uuid_correctDisposition now reviewerId corrected)
      let commented := updated.addCommentIfAny alertUuids reviewerId (prefixedComment reviewComment)
      let changed := context.filter (·.oldDisposition ≠ corrected)
      some (commented.requeueUnlessIgnored now alertUuids corrected, changed.map fun row =>
        ⟨"AUDIT: alert disposition reviewed", row, corrected, some reviewResult, actingUsername,
          reviewComment⟩)
    else
      let updated := db.updateAlerts (fun alert => some (alert.uuid ∈ alertUuids))
        (·.confirmDisposition now reviewerId) (AlertRow.uuid_confirmDisposition now reviewerId)
      let commented := updated.addCommentIfAny alertUuids reviewerId (prefixedComment reviewComment)
      some (commented, context.map fun row =>
        ⟨"AUDIT: alert disposition reviewed", row, row.oldDisposition, some reviewResult,
          actingUsername, reviewComment⟩)

end AlertDb

end Ace3.Database
