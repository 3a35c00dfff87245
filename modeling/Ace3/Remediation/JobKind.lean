import Mathlib.Logic.Function.Basic
import Ace3.Lib.Table

/-!
# Tables of Jobs

Remediations, file collections and external remediation checks are rows of three tables that are
worked off alike. A collector selects the rows that are due, locks them with a fresh uuid and hands
the rows it finds locked to queues; a worker executes an item and writes the outcome back; a user
cancels and retries rows. Each is one or two SQL statements, which interleave with those of others.

The lock uuids are numbered in the order in which they are drawn, and one clock stands for `NOW()`
and for `datetime.now(UTC)`.
-/

namespace Ace3.Remediation

open Lib

/-- The `status` column: `NEW`, `IN_PROGRESS`, `COMPLETED`. -/
inductive JobStatus where
  | new
  | inProgress
  | completed
  deriving DecidableEq

/-- A `uuid4()` drawn by `collect_work_items`. -/
abbrev LockUuid := Nat

/-- The columns of the table `alerts` that the creation of a work item reads. -/
structure Alert where
  uuid : String
  storageDir : String
  deriving DecidableEq

/-- `NOW() >= DATE_ADD(time, INTERVAL seconds SECOND)`, which is not true of a NULL time. -/
def hasElapsed (now : Nat) (time : Option Nat) (seconds : Nat) : Bool :=
  match time with
  | some time => time + seconds ≤ now
  | none => false

/-! ## §1 What a table supplies -/

/-- One kind of job: its rows, and the statements of its collector, its workers and its users. -/
structure JobKind where
  Row : Type
  Request : Type
  Collector : Type
  WorkItem : Type
  Outcome : Type
  CancelCall : Type
  CancelUpdate : Type
  /-- The row a request is queued as. -/
  queue : Nat → Request → Row
  status : Row → JobStatus
  /-- The row is `COMPLETED` with the result `CANCELLED`. -/
  isCancelled : Row → Bool
  lock : Row → Option LockUuid
  /-- The lock of the row is old enough for the collector to take it over. -/
  lockTimedOut : Collector → Nat → Row → Bool
  /-- `collect_work_items` selects the row. -/
  selects : Collector → Nat → Row → Bool
  /-- `collect_work_items` returns before it locks anything when it has selected nothing. -/
  stopsWhenEmpty : Bool
  /-- The locking `UPDATE`. -/
  locked : LockUuid → Nat → Row → Row
  /-- The work item of a row that is locked, if it can be created. -/
  createWorkItem : List Alert → Nat → Row → Option WorkItem
  itemId : WorkItem → Nat
  /-- The `UPDATE` of a worker that started the item at the first time and ends at the second. -/
  finish : Nat → Nat → WorkItem → Outcome → Row → Row
  /-- The `UPDATE` a cancel call goes on to execute, decided by what it reads first. -/
  cancelUpdate? : CancelCall → Table Row → Option CancelUpdate
  /-- The rows the `UPDATE` changes. -/
  cancels : CancelUpdate → Nat × Row → Bool
  /-- The rows for which the call reports success. -/
  reports : CancelUpdate → Nat × Row → Bool
  cancel : Nat → Row → Row
  /-- The rows a retry for their id resets. -/
  retries : Row → Bool
  retry : Nat → Row → Row
  lock_queue : ∀ now request, lock (queue now request) = none
  selects_status : ∀ collector now row, selects collector now row → status row ≠ .completed
  selects_lock : ∀ collector now row, selects collector now row →
    lock row = none ∨ lockTimedOut collector now row
  lock_locked : ∀ uuid now row, lock (locked uuid now row) = some uuid
  itemId_createWorkItem : ∀ alerts id row item, createWorkItem alerts id row = some item →
    itemId item = id
  lock_finish : ∀ started now item outcome row, lock (finish started now item outcome row) = none
  isCancelled_cancel : ∀ now row, isCancelled (cancel now row)
  status_of_isCancelled : ∀ row, isCancelled row → status row = .completed
  lock_cancel : ∀ now row, lock (cancel now row) = lock row ∨ lock (cancel now row) = none
  lock_retry : ∀ now row, retries row → lock (retry now row) = none

/-! ## §2 The processes -/

/-- Where a collector is in `collect_work_items`. -/
inductive CollectorPhase where
  | idle
  | selected (targetIds : List Nat)
  | locked (lockUuid : LockUuid)
  deriving DecidableEq

def CollectorPhase.targetIds : CollectorPhase → List Nat
  | .selected targetIds => targetIds
  | _ => []

/-- The table, the clock, the collectors, the worker queues and the calls under way. -/
structure JobState (kind : JobKind) where
  table : Table kind.Row
  now : Nat := 0
  phase : Nat → CollectorPhase := fun _ => .idle
  nextLock : LockUuid := 0
  /-- The items that were returned to a collector and wait for a worker. -/
  queue : List kind.WorkItem := []
  /-- The items that workers execute, with the time at which they started. -/
  executing : List (kind.WorkItem × Nat) := []
  /-- The cancel calls that are about to execute their `UPDATE`. -/
  cancelling : List kind.CancelUpdate := []
  /-- The rows that a worker has completed and nobody has retried since. -/
  completed : List Nat := []
  /-- The rows whose cancellation was reported and that nobody has retried since. -/
  cancelled : List Nat := []

/-- One statement of a process; the processes and the items of a queue are named by position. -/
inductive JobEvent (kind : JobKind) where
  | queue (request : kind.Request)
  | tick (seconds : Nat)
  | select (process : Nat) (collector : kind.Collector)
  | lock (process : Nat)
  | readBack (process : Nat) (alerts : List Alert)
  | start (position : Nat)
  | finish (position : Nat) (outcome : kind.Outcome)
  | checkCancel (call : kind.CancelCall)
  | cancel (position : Nat)
  | retry (ids : List Nat)
  | delete (ids : List Nat)

namespace JobState

variable {kind : JobKind}

def init : JobState kind where
  table := Table.empty

/-- The row is with a worker: in a queue, or being executed. -/
def handedOut (s : JobState kind) : List Nat :=
  s.queue.map kind.itemId ++ s.executing.map fun work => kind.itemId work.1

def selectedIds (s : JobState kind) (collector : kind.Collector) : List Nat :=
  (s.table.rows.filter fun row => kind.selects collector s.now row.2).map (·.1)

def phaseAfterSelect (s : JobState kind) (collector : kind.Collector) : CollectorPhase :=
  if kind.stopsWhenEmpty ∧ s.selectedIds collector = [] then .idle
  else .selected (s.selectedIds collector)

/-- The work items of the rows that hold the lock, for those that can be created. -/
def lockedItems (s : JobState kind) (lockUuid : LockUuid) (alerts : List Alert) :
    List kind.WorkItem :=
  (s.table.rows.filter fun row => kind.lock row.2 = some lockUuid).filterMap fun row =>
    kind.createWorkItem alerts row.1 row.2

/-- What the collector returns when it reads back what it has locked. -/
def returned (s : JobState kind) (process : Nat) (alerts : List Alert) : List kind.WorkItem :=
  match s.phase process with
  | .locked lockUuid => s.lockedItems lockUuid alerts
  | _ => []

/-- The locking `UPDATE`, under a fresh uuid. -/
def lockTargets (s : JobState kind) (process : Nat) (targetIds : List Nat) : JobState kind :=
  { s with
    table := s.table.updateWhere (fun row => row.1 ∈ targetIds) (kind.locked s.nextLock s.now)
    phase := Function.update s.phase process (.locked s.nextLock)
    nextLock := s.nextLock + 1 }

/-- A collector gets to the next of its three statements, or stays where it is. -/
def lock (s : JobState kind) (process : Nat) : JobState kind :=
  match s.phase process with
  | .selected targetIds => s.lockTargets process targetIds
  | _ => s

/-- The collector hands what it returned to the queues. -/
def readBack (s : JobState kind) (process : Nat) (alerts : List Alert) : JobState kind :=
  match s.phase process with
  | .locked _ =>
    { s with
      queue := s.queue ++ s.returned process alerts
      phase := Function.update s.phase process .idle }
  | _ => s

def start (s : JobState kind) (position : Nat) : JobState kind :=
  match s.queue[position]? with
  | some item =>
    { s with queue := s.queue.eraseIdx position, executing := s.executing ++ [(item, s.now)] }
  | none => s

/-- The table after a worker has written the outcome of an item. -/
def writeOutcome (s : JobState kind) (work : kind.WorkItem × Nat) (outcome : kind.Outcome) :
    Table kind.Row :=
  s.table.updateWhere (fun row => row.1 = kind.itemId work.1)
    (kind.finish work.2 s.now work.1 outcome)

def completedIds (table : Table kind.Row) (id : Nat) : List Nat :=
  (table.rows.filter fun row => row.1 = id ∧ kind.status row.2 = .completed).map (·.1)

/-- A worker has executed an item, writes the outcome and releases the lock. -/
def finish (s : JobState kind) (position : Nat) (outcome : kind.Outcome) : JobState kind :=
  match s.executing[position]? with
  | some work =>
    { s with
      table := s.writeOutcome work outcome
      executing := s.executing.eraseIdx position
      completed := s.completed ++ completedIds (s.writeOutcome work outcome) (kind.itemId work.1) }
  | none => s

/-- A cancel call reads what it needs, and gives up or goes on. -/
def checkCancel (s : JobState kind) (call : kind.CancelCall) : JobState kind :=
  { s with cancelling := s.cancelling ++ (kind.cancelUpdate? call s.table).toList }

/-- The rows for which the call will have reported success. -/
def reported (s : JobState kind) (update : kind.CancelUpdate) : List Nat :=
  (s.table.rows.filter (kind.reports update)).map (·.1)

/-- A cancel call executes its `UPDATE` and reports success. -/
def cancel (s : JobState kind) (position : Nat) : JobState kind :=
  match s.cancelling[position]? with
  | some update =>
    { s with
      table := s.table.updateWhere (kind.cancels update) (kind.cancel s.now)
      cancelling := s.cancelling.eraseIdx position
      cancelled := s.cancelled ++ s.reported update }
  | none => s

def isRetried (ids : List Nat) (row : Nat × kind.Row) : Bool :=
  row.1 ∈ ids ∧ kind.retries row.2

def notRetried (s : JobState kind) (ids : List Nat) (id : Nat) : Bool :=
  !s.table.rows.any fun row => row.1 = id ∧ isRetried ids row

def retry (s : JobState kind) (ids : List Nat) : JobState kind :=
  { s with
    table := s.table.updateWhere (isRetried ids) (kind.retry s.now)
    completed := s.completed.filter (s.notRetried ids)
    cancelled := s.cancelled.filter (s.notRetried ids) }

def step (s : JobState kind) : JobEvent kind → JobState kind
  | .queue request => { s with table := s.table.insert (kind.queue s.now request) }
  | .tick seconds => { s with now := s.now + seconds }
  | .select process collector =>
    { s with phase := Function.update s.phase process (s.phaseAfterSelect collector) }
  | .lock process => s.lock process
  | .readBack process alerts => s.readBack process alerts
  | .start position => s.start position
  | .finish position outcome => s.finish position outcome
  | .checkCancel call => s.checkCancel call
  | .cancel position => s.cancel position
  | .retry ids => s.retry ids
  | .delete ids => { s with table := s.table.deleteWhere fun row => row.1 ∈ ids }

end JobState

end Ace3.Remediation
