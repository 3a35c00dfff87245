import Ace3.Lib.Table

/-!
# The Collection Tables

The tables `incoming_workload` and `work_distribution` with the statements of
`saq/collectors/workload_repository.py`, each committed by itself, and the choice of target groups
of `saq/collectors/submission_scheduler.py`. The columns of the locks and times of delivery are
left out here, and so is `type_id`: these are the rows of one collector.
-/

namespace Ace3.Collectors

open List
open Lib

/-! ## §1 Submissions and groups -/

/-- A `Submission` with the fields of its root that collection looks at. -/
structure Submission where
  uuid : String
  analysisMode : String
  key : Option String
  groupAssignments : List String
  deriving DecidableEq

/-- The key of a submission that is checked for duplicates: `if submission.key`. -/
def Submission.dedupKey (submission : Submission) : Option String :=
  submission.key.filter (· ≠ "")

/-- The name of a `RemoteNodeGroup`, and its id in `work_distribution_groups`. -/
structure NodeGroup where
  name : String
  groupId : Nat
  deriving DecidableEq

/-- The groups of a collector. `create_or_get_work_distribution_group` gives each its own id. -/
structure RemoteNodeGroups where
  groups : List NodeGroup
  nodup : (groups.map (·.groupId)).Nodup

/-- `_determine_target_groups`: the assigned groups, or all where none of them is known. -/
def RemoteNodeGroups.determineTargetGroups (remoteNodeGroups : RemoteNodeGroups)
    (submission : Submission) : List NodeGroup :=
  if submission.groupAssignments = [] then remoteNodeGroups.groups
  else
    let targets := remoteNodeGroups.groups.filter (·.name ∈ submission.groupAssignments)
    if targets = [] then remoteNodeGroups.groups else targets

theorem RemoteNodeGroups.nodup_targets (remoteNodeGroups : RemoteNodeGroups)
    (submission : Submission) :
    ((remoteNodeGroups.determineTargetGroups submission).map (·.groupId)).Nodup := by
  have hfilter : ((remoteNodeGroups.groups.filter
      (·.name ∈ submission.groupAssignments)).map (·.groupId)).Nodup :=
    remoteNodeGroups.nodup.sublist (filter_sublist.map _)
  unfold determineTargetGroups
  split
  · exact remoteNodeGroups.nodup
  · simp only
    split
    · exact remoteNodeGroups.nodup
    · exact hfilter

/-! ## §2 Statements -/

/-- A row of `incoming_workload`; `work` is the uuid of the root. -/
structure IncomingWorkload where
  mode : String
  work : String
  deriving DecidableEq

/-- The values of `work_distribution.status`. -/
inductive WorkStatus where
  | ready
  | locked
  | completed
  | error
  deriving DecidableEq

def WorkStatus.isPending : WorkStatus → Bool
  | .ready | .locked => true
  | .completed | .error => false

/-- A row of `work_distribution`, with the primary key `(group_id, work_id)`. -/
structure WorkDistribution where
  groupId : Nat
  workId : Nat
  status : WorkStatus
  deriving DecidableEq

structure CollectionTables where
  incomingWorkload : Table IncomingWorkload
  workDistribution : List WorkDistribution

namespace CollectionTables

def empty : CollectionTables := ⟨.empty, []⟩

/-- `insert_workload`: the id of the new row is returned. -/
def insertWorkload (tables : CollectionTables) (row : IncomingWorkload) : CollectionTables × Nat :=
  ({ tables with incomingWorkload := tables.incomingWorkload.insert row },
    tables.incomingWorkload.nextId)

def isAssigned (tables : CollectionTables) (workId groupId : Nat) : Bool :=
  tables.workDistribution.any fun row => row.workId = workId ∧ row.groupId = groupId

/-- `assign_work_to_group`, which raises where the work item is gone (the foreign key) or has been
assigned to the group before (the primary key). -/
def assignWorkToGroup (tables : CollectionTables) (workId groupId : Nat) :
    Option CollectionTables :=
  if tables.incomingWorkload.hasId workId ∧ ¬ tables.isAssigned workId groupId then
    some { tables with
      workDistribution := tables.workDistribution ++ [⟨groupId, workId, .ready⟩] }
  else none

/-- The rows that `get_completed_workloads` can return: those that are assigned to some group and
are still to be delivered to none of those they are assigned to. -/
def completedWorkloads (tables : CollectionTables) : List (Nat × String) :=
  (tables.incomingWorkload.rows.filter fun row =>
      (tables.workDistribution.any (·.workId = row.1)) ∧
        tables.workDistribution.all fun entry => entry.workId = row.1 → ¬ entry.status.isPending
    ).map fun row => (row.1, row.2.work)

/-- `delete_workload`; the assignments are deleted with the row. -/
def deleteWorkload (tables : CollectionTables) (workId : Nat) : CollectionTables where
  incomingWorkload := tables.incomingWorkload.deleteWhere (·.1 = workId)
  workDistribution := tables.workDistribution.filter (·.workId ≠ workId)

/-! ## §3 What the statements keep -/

variable {tables tables' : CollectionTables} {workId groupId : Nat}

theorem isAssigned_iff :
    tables.isAssigned workId groupId ↔ ∃ row ∈ tables.workDistribution,
      row.workId = workId ∧ row.groupId = groupId := by
  simp [isAssigned]

theorem assignWorkToGroup_eq_some (h : tables.assignWorkToGroup workId groupId = some tables') :
    tables.incomingWorkload.hasId workId ∧ ¬ tables.isAssigned workId groupId ∧
      tables' = { tables with
        workDistribution := tables.workDistribution ++ [⟨groupId, workId, .ready⟩] } := by
  unfold assignWorkToGroup at h
  split at h
  next hfree => exact ⟨hfree.1, hfree.2, (Option.some.inj h).symm⟩
  next => cases h

theorem exists_assignWorkToGroup (hthere : tables.incomingWorkload.hasId workId)
    (hfree : ¬ tables.isAssigned workId groupId) :
    tables.assignWorkToGroup workId groupId = some { tables with
      workDistribution := tables.workDistribution ++ [⟨groupId, workId, .ready⟩] } :=
  if_pos ⟨hthere, hfree⟩

/-- The work item that a returned row names is assigned, and all its entries are finished. -/
theorem mem_completedWorkloads {row : Nat × String} :
    row ∈ tables.completedWorkloads ↔
      (∃ mode, (row.1, ⟨mode, row.2⟩) ∈ tables.incomingWorkload.rows) ∧
      (∃ entry ∈ tables.workDistribution, entry.workId = row.1) ∧
      ∀ entry ∈ tables.workDistribution, entry.workId = row.1 → ¬ entry.status.isPending := by
  obtain ⟨id, work⟩ := row
  simp only [completedWorkloads, mem_map, mem_filter, Bool.decide_and,
    Bool.and_eq_true, decide_eq_true_eq, any_eq_true, all_eq_true, Prod.exists,
    Prod.mk.injEq]
  constructor
  · rintro ⟨_, ⟨mode, _⟩, ⟨hmem, hany, hall⟩, rfl, rfl⟩
    exact ⟨⟨mode, hmem⟩, hany, hall⟩
  · rintro ⟨⟨mode, hmem⟩, hany, hall⟩
    exact ⟨id, ⟨mode, work⟩, ⟨hmem, hany, hall⟩, rfl, rfl⟩

end CollectionTables

end Ace3.Collectors
