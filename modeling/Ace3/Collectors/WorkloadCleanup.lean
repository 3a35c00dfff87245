import Ace3.Collectors.CollectionTables
import Ace3.Lib.Runs

/-!
# Clean-up Waits for the Groups It Can See

The scheduler of `saq/collectors/submission_scheduler.py` inserts a workload row and assigns it to
its target groups one by one, each in its own transaction; the delivery threads of
`saq/collectors/remote_node.py` lock entries and finish them; and `execute_workload_cleanup` of
`saq/collectors/base_collector.py` deletes what `get_completed_workloads` returned. That query
counts the entries that are there: a group that is not assigned yet holds nothing back.
-/

namespace Ace3.Collectors

open List
open Lib Lib.Runs

namespace CollectionTables

def setStatus (tables : CollectionTables) (condition : WorkDistribution → Bool)
    (status : WorkStatus) : CollectionTables where
  incomingWorkload := tables.incomingWorkload
  workDistribution := tables.workDistribution.map fun entry =>
    if condition entry then { entry with status := status } else entry

/-- A batch is locked: entries of the group that are READY, or have been LOCKED for ten minutes. -/
def lockBatch (tables : CollectionTables) (groupId : Nat) (workIds : List Nat) :
    CollectionTables :=
  tables.setStatus
    (fun entry => entry.groupId = groupId ∧ entry.workId ∈ workIds ∧ entry.status.isPending)
    .locked

def clearWorkLocks (tables : CollectionTables) (groupId : Nat) : CollectionTables :=
  tables.setStatus (fun entry => entry.status = .locked ∧ entry.groupId = groupId) .ready

def finish (tables : CollectionTables) (groupId workId : Nat) (completed : Bool) :
    CollectionTables :=
  tables.setStatus (fun entry => entry.groupId = groupId ∧ entry.workId = workId)
    (if completed then .completed else .error)

/-- The queue of a group that is not in full delivery mode is cleared. -/
def clearQueue (tables : CollectionTables) (groupId : Nat) : CollectionTables :=
  tables.setStatus (fun entry => entry.groupId = groupId) .error

/-- The group has the status COMPLETED or ERROR for the work item. -/
def IsFinished (tables : CollectionTables) (workId groupId : Nat) : Prop :=
  ∃ entry ∈ tables.workDistribution, entry.workId = workId ∧ entry.groupId = groupId ∧
    ¬ entry.status.isPending

theorem IsFinished.setStatus {tables : CollectionTables} {workId groupId : Nat}
    (h : tables.IsFinished workId groupId) {condition : WorkDistribution → Bool}
    {status : WorkStatus}
    (hkeeps : ∀ entry, condition entry → ¬ entry.status.isPending → ¬ status.isPending) :
    (tables.setStatus condition status).IsFinished workId groupId := by
  obtain ⟨entry, hentry, hwork, hgroup, hfinished⟩ := h
  refine ⟨_, mem_map_of_mem hentry, ?_⟩
  split
  next hcondition => exact ⟨hwork, hgroup, hkeeps entry hcondition hfinished⟩
  next => exact ⟨hwork, hgroup, hfinished⟩

theorem IsFinished.assign {tables tables' : CollectionTables} {workId groupId workId' groupId' : Nat}
    (h : tables.IsFinished workId groupId)
    (hassign : tables.assignWorkToGroup workId' groupId' = some tables') :
    tables'.IsFinished workId groupId := by
  obtain ⟨-, -, rfl⟩ := assignWorkToGroup_eq_some hassign
  obtain ⟨entry, hentry, hfinished⟩ := h
  exact ⟨entry, mem_append_left _ hentry, hfinished⟩

theorem IsFinished.deleteWorkload {tables : CollectionTables} {workId groupId other : Nat}
    (h : tables.IsFinished workId groupId) (hother : workId ≠ other) :
    (tables.deleteWorkload other).IsFinished workId groupId := by
  obtain ⟨entry, hentry, hwork, hrest⟩ := h
  refine ⟨entry, mem_filter.mpr ⟨hentry, ?_⟩, hwork, hrest⟩
  simpa [hwork] using hother

theorem nodup_completedWorkloads (tables : CollectionTables)
    (hnodup : (tables.incomingWorkload.rows.map (·.1)).Nodup) :
    (tables.completedWorkloads.map (·.1)).Nodup := by
  unfold completedWorkloads
  rw [map_map]
  exact hnodup.sublist (filter_sublist.map _)

end CollectionTables

/-! ## §1 The threads -/

inductive SchedulerPoint where
  | idle
  | inserting (submission : Submission)
  | assigning (workId : Nat) (remaining : List NodeGroup)
  deriving DecidableEq

/-- What `execute_workload_cleanup` does next with the rows it has read. -/
inductive CleanupPoint where
  /-- The directory of the first row is to be deleted. -/
  | directories (rows : List (Nat × String))
  /-- The directory is deleted, its row is to be. -/
  | workload (row : Nat × String) (rows : List (Nat × String))
  deriving DecidableEq

def CleanupPoint.rows : CleanupPoint → List (Nat × String)
  | .directories rows => rows
  | .workload row rows => row :: rows

/-- A workload that was inserted, with the groups the scheduler chose for it. -/
structure ScheduledWork where
  workId : Nat
  uuid : String
  groups : List NodeGroup
  deriving DecidableEq

/-- The tables and the incoming directory; the two threads of the collector; and, for what is said
about runs, the submissions prepared and the workloads inserted so far. -/
structure CleanupState where
  tables : CollectionTables
  incoming : List String
  scheduler : SchedulerPoint
  cleanup : CleanupPoint
  prepared : List String
  scheduled : List ScheduledWork

inductive CleanupEvent where
  /-- `prepare_submission_files` moves a directory, which has a new uuid. -/
  | prepare (submission : Submission)
  | insertWorkload
  | assignWorkToGroup
  /-- The scheduler raises and leaves the submission at that. -/
  | giveUp
  /-- A delivery thread locks entries of its group. -/
  | lockBatch (groupId : Nat) (workIds : List Nat)
  | clearWorkLocks (groupId : Nat)
  /-- A delivery thread is done with an item: COMPLETED, or ERROR. -/
  | finish (groupId workId : Nat) (completed : Bool)
  /-- No node is available, and the group is not in full delivery mode. -/
  | clearQueue (groupId : Nat)
  /-- `get_completed_workloads`; the LIMIT may leave rows out. -/
  | readCompleted (selected : List (Nat × String))
  | deleteSubmissionDirectory (deleted : Bool)
  | deleteWorkload
  /-- The process dies and is started again. -/
  | crash
  deriving DecidableEq

/-! ## §2 Steps -/

namespace CleanupState

def start : CleanupState where
  tables := .empty
  incoming := []
  scheduler := .idle
  cleanup := .directories []
  prepared := []
  scheduled := []

/-- The rows that `get_completed_workloads` returns. -/
def read (s : CleanupState) (selected : List (Nat × String)) : List (Nat × String) :=
  (s.tables.completedWorkloads.filter (· ∈ selected)).take 100

/-- One step of one of the threads. What cannot be next changes nothing. -/
def step (remoteNodeGroups : RemoteNodeGroups) (s : CleanupState) : CleanupEvent → CleanupState
  | .prepare submission =>
    if s.scheduler = .idle ∧ submission.uuid ∉ s.prepared then
      { s with
        incoming := s.incoming ++ [submission.uuid]
        scheduler := .inserting submission
        prepared := s.prepared ++ [submission.uuid] }
    else s
  | .insertWorkload =>
    match s.scheduler with
    | .inserting submission =>
      let (tables, workId) := s.tables.insertWorkload ⟨submission.analysisMode, submission.uuid⟩
      let groups := remoteNodeGroups.determineTargetGroups submission
      { s with
        tables := tables
        scheduler := .assigning workId groups
        scheduled := s.scheduled ++ [⟨workId, submission.uuid, groups⟩] }
    | _ => s
  | .assignWorkToGroup =>
    match s.scheduler with
    | .assigning _ [] => { s with scheduler := .idle }
    | .assigning workId (group :: remaining) =>
      match s.tables.assignWorkToGroup workId group.groupId with
      | none => { s with scheduler := .idle }
      | some tables => { s with tables := tables, scheduler := .assigning workId remaining }
    | _ => s
  | .giveUp => { s with scheduler := .idle }
  | .lockBatch groupId workIds => { s with tables := s.tables.lockBatch groupId workIds }
  | .clearWorkLocks groupId => { s with tables := s.tables.clearWorkLocks groupId }
  | .finish groupId workId completed =>
    { s with tables := s.tables.finish groupId workId completed }
  | .clearQueue groupId => { s with tables := s.tables.clearQueue groupId }
  | .readCompleted selected =>
    match s.cleanup with
    | .directories [] => { s with cleanup := .directories (s.read selected) }
    | _ => s
  | .deleteSubmissionDirectory deleted =>
    match s.cleanup with
    | .directories (row :: rows) =>
      if deleted then
        { s with
          incoming := s.incoming.filter (· ≠ row.2)
          cleanup := .workload row rows }
      else { s with cleanup := .directories rows }
    | _ => s
  | .deleteWorkload =>
    match s.cleanup with
    | .workload row rows =>
      { s with tables := s.tables.deleteWorkload row.1, cleanup := .directories rows }
    | _ => s
  | .crash => { s with scheduler := .idle, cleanup := .directories [] }

variable {remoteNodeGroups : RemoteNodeGroups} {s : CleanupState}

/-! ## §3 What the clean-up thread has read -/

/-- Every group chosen for the workload has the status COMPLETED or ERROR for it. -/
def Delivered (s : CleanupState) (work : ScheduledWork) : Prop :=
  ∀ group ∈ work.groups, s.tables.IsFinished work.workId group.groupId

def Removes (remoteNodeGroups : RemoteNodeGroups) (s : CleanupState) (event : CleanupEvent)
    (work : ScheduledWork) : Prop :=
  work.uuid ∈ s.incoming ∧ work.uuid ∉ (s.step remoteNodeGroups event).incoming ∨
    s.tables.incomingWorkload.hasId work.workId ∧
      ¬ (s.step remoteNodeGroups event).tables.incomingWorkload.hasId work.workId

/-- The directory and the row of a submission are removed only when each chosen group is done. -/
def WaitsForGroups (remoteNodeGroups : RemoteNodeGroups) (s : CleanupState)
    (event : CleanupEvent) : Prop :=
  ∀ work ∈ s.scheduled, s.Removes remoteNodeGroups event work → s.Delivered work

/-- What the clean-up thread reads has been assigned to all the groups chosen for it. -/
def ReadsAssigned (s : CleanupState) : CleanupEvent → Prop
  | .readCompleted selected => ∀ row ∈ s.read selected, ∀ work ∈ s.scheduled,
      work.workId = row.1 → ∀ group ∈ work.groups, s.tables.isAssigned work.workId group.groupId
  | _ => True

/-- What holds of the tables and of the rows that are being cleaned up. -/
structure Inv (s : CleanupState) : Prop where
  workIds : ∀ a ∈ s.scheduled, ∀ b ∈ s.scheduled, a.workId = b.workId → a = b
  uuids : ∀ a ∈ s.scheduled, ∀ b ∈ s.scheduled, a.uuid = b.uuid → a = b
  issued : ∀ work ∈ s.scheduled, work.workId < s.tables.incomingWorkload.nextId
  prepared : ∀ work ∈ s.scheduled, work.uuid ∈ s.prepared
  inserting : ∀ submission, s.scheduler = .inserting submission →
    submission.uuid ∈ s.prepared ∧ ∀ work ∈ s.scheduled, work.uuid ≠ submission.uuid
  rows : ∀ row ∈ s.tables.incomingWorkload.rows, ∃ work ∈ s.scheduled,
    work.workId = row.1 ∧ work.uuid = row.2.work
  distinct : (s.tables.incomingWorkload.rows.map (·.1)).Nodup
  cleaned : ∀ row ∈ s.cleanup.rows, ∃ work ∈ s.scheduled,
    work.workId = row.1 ∧ work.uuid = row.2 ∧ s.Delivered work
  once : (s.cleanup.rows.map (·.1)).Nodup

theorem inv_start : start.Inv where
  workIds := nofun
  uuids := nofun
  issued := nofun
  prepared := nofun
  inserting := nofun
  rows := nofun
  distinct := nodup_nil
  cleaned := nofun
  once := nodup_nil

theorem Inv.update (h : s.Inv) {tables : CollectionTables} {point : SchedulerPoint}
    (hrows : tables.incomingWorkload = s.tables.incomingWorkload)
    (hkeeps : ∀ workId groupId, s.tables.IsFinished workId groupId →
      tables.IsFinished workId groupId)
    (hpoint : ∀ submission, point = .inserting submission → s.scheduler = point) :
    ({ s with tables := tables, scheduler := point } : CleanupState).Inv where
  workIds := h.workIds
  uuids := h.uuids
  issued := by
    rw [hrows]
    exact h.issued
  prepared := h.prepared
  inserting := fun submission hsame =>
    h.inserting submission ((hpoint submission hsame).trans hsame)
  rows := by
    rw [hrows]
    exact h.rows
  distinct := by
    rw [hrows]
    exact h.distinct
  cleaned := by
    intro row hrow
    obtain ⟨work, hwork, hid, huuid, hdelivered⟩ := h.cleaned row hrow
    exact ⟨work, hwork, hid, huuid, fun group hgroup => hkeeps _ _ (hdelivered group hgroup)⟩
  once := h.once

theorem Inv.setStatus (h : s.Inv) {condition : WorkDistribution → Bool} {status : WorkStatus}
    (hkeeps : ∀ entry, condition entry → ¬ entry.status.isPending → ¬ status.isPending) :
    ({ s with tables := s.tables.setStatus condition status } : CleanupState).Inv :=
  h.update rfl (fun _ _ hfinished => hfinished.setStatus hkeeps) fun _ _ => rfl

theorem Inv.goOn (h : s.Inv) {point : SchedulerPoint}
    (hpoint : ∀ submission, point ≠ .inserting submission) :
    ({ s with scheduler := point } : CleanupState).Inv :=
  h.update rfl (fun _ _ hfinished => hfinished)
    fun submission hsame => absurd hsame (hpoint submission)

theorem Inv.leave (h : s.Inv) {incoming : List String} {point : CleanupPoint}
    (hrows : point.rows.Sublist s.cleanup.rows) :
    ({ s with incoming := incoming, cleanup := point } : CleanupState).Inv where
  workIds := h.workIds
  uuids := h.uuids
  issued := h.issued
  prepared := h.prepared
  inserting := h.inserting
  rows := h.rows
  distinct := h.distinct
  cleaned := fun row hrow => h.cleaned row (hrows.subset hrow)
  once := h.once.sublist (hrows.map _)

theorem Inv.prepare (h : s.Inv) {submission : Submission} (hnew : submission.uuid ∉ s.prepared) :
    ({ s with
      incoming := s.incoming ++ [submission.uuid]
      scheduler := .inserting submission
      prepared := s.prepared ++ [submission.uuid] } : CleanupState).Inv where
  workIds := h.workIds
  uuids := h.uuids
  issued := h.issued
  prepared := fun work hwork => mem_append_left _ (h.prepared work hwork)
  inserting := by
    rintro _ ⟨⟩
    refine ⟨mem_append_right _ (mem_singleton_self _), fun work hwork huuid => ?_⟩
    exact hnew (huuid ▸ h.prepared work hwork)
  rows := h.rows
  distinct := h.distinct
  cleaned := h.cleaned
  once := h.once

theorem Inv.insertWorkload (h : s.Inv) {submission : Submission}
    (hpoint : s.scheduler = .inserting submission) (groups : List NodeGroup) :
    ({ s with
      tables := (s.tables.insertWorkload ⟨submission.analysisMode, submission.uuid⟩).1
      scheduler := .assigning s.tables.incomingWorkload.nextId groups
      scheduled := s.scheduled ++
        [⟨s.tables.incomingWorkload.nextId, submission.uuid, groups⟩] } : CleanupState).Inv := by
  obtain ⟨hprepared, hnew⟩ := h.inserting submission hpoint
  constructor
  case workIds =>
    intro a ha b hb hid
    rcases mem_append.mp ha with ha | ha <;> rcases mem_append.mp hb with hb | hb
    · exact h.workIds a ha b hb hid
    · rw [mem_singleton.mp hb] at hid
      exact absurd hid (Nat.ne_of_lt (h.issued a ha))
    · rw [mem_singleton.mp ha] at hid
      exact absurd hid.symm (Nat.ne_of_lt (h.issued b hb))
    · rw [mem_singleton.mp ha, mem_singleton.mp hb]
  case uuids =>
    intro a ha b hb huuid
    rcases mem_append.mp ha with ha | ha <;> rcases mem_append.mp hb with hb | hb
    · exact h.uuids a ha b hb huuid
    · rw [mem_singleton.mp hb] at huuid
      exact absurd huuid (hnew a ha)
    · rw [mem_singleton.mp ha] at huuid
      exact absurd huuid.symm (hnew b hb)
    · rw [mem_singleton.mp ha, mem_singleton.mp hb]
  case issued =>
    intro work hwork
    rcases mem_append.mp hwork with hold | hlast
    · exact Nat.lt_succ_of_lt (h.issued work hold)
    · rw [mem_singleton.mp hlast]
      exact Nat.lt_succ_self _
  case prepared =>
    intro work hwork
    rcases mem_append.mp hwork with hold | hlast
    · exact h.prepared work hold
    · rw [mem_singleton.mp hlast]
      exact hprepared
  case inserting => exact nofun
  case rows =>
    intro row hrow
    rcases Table.mem_rows_insert.mp hrow with hold | rfl
    · obtain ⟨work, hwork, hids⟩ := h.rows row hold
      exact ⟨work, mem_append_left _ hwork, hids⟩
    · exact ⟨_, mem_append_right _ (mem_singleton_self _), rfl, rfl⟩
  case distinct =>
    show (List.map (·.1) (s.tables.incomingWorkload.rows ++ _)).Nodup
    rw [map_append, nodup_append]
    refine ⟨h.distinct, pairwise_singleton _ _, ?_⟩
    intro id hid id' hid'
    obtain ⟨row, hrow, rfl⟩ := mem_map.mp hid
    obtain rfl := mem_singleton.mp hid'
    exact Nat.ne_of_lt (s.tables.incomingWorkload.id_lt row hrow)
  case cleaned =>
    intro row hrow
    obtain ⟨work, hwork, hrest⟩ := h.cleaned row hrow
    exact ⟨work, mem_append_left _ hwork, hrest⟩
  case once => exact h.once

/-- The clean-up thread reads rows that are assigned to all their groups: each of these groups is
done, since none of the entries is still to be delivered. -/
theorem Inv.readCompleted (h : s.Inv) {selected : List (Nat × String)}
    (hassigned : s.ReadsAssigned (.readCompleted selected)) :
    ({ s with cleanup := .directories (s.read selected) } : CleanupState).Inv where
  workIds := h.workIds
  uuids := h.uuids
  issued := h.issued
  prepared := h.prepared
  inserting := h.inserting
  rows := h.rows
  distinct := h.distinct
  cleaned := by
    intro row hrow
    have hcompleted : row ∈ s.tables.completedWorkloads :=
      mem_of_mem_filter (mem_of_mem_take hrow)
    obtain ⟨⟨mode, hmem⟩, -, hfinished⟩ := CollectionTables.mem_completedWorkloads.mp hcompleted
    obtain ⟨work, hwork, hid, huuid⟩ := h.rows _ hmem
    refine ⟨work, hwork, hid, huuid, fun group hgroup => ?_⟩
    obtain ⟨entry, hentry, hworkId, hgroupId⟩ :=
      CollectionTables.isAssigned_iff.mp (hassigned row hrow work hwork hid group hgroup)
    exact ⟨entry, hentry, hworkId, hgroupId, hfinished entry hentry (hworkId.trans hid)⟩
  once := by
    have hsublist : (s.read selected).Sublist s.tables.completedWorkloads :=
      (take_sublist _ _).trans filter_sublist
    exact (s.tables.nodup_completedWorkloads h.distinct).sublist (hsublist.map _)

theorem Inv.deleteWorkload (h : s.Inv) {row : Nat × String} {rows : List (Nat × String)}
    (hpoint : s.cleanup = .workload row rows) :
    ({ s with tables := s.tables.deleteWorkload row.1, cleanup := .directories rows } :
      CleanupState).Inv := by
  have honce := h.once
  have hcleaned := h.cleaned
  rw [hpoint] at honce hcleaned
  obtain ⟨hother, honce⟩ := nodup_cons.mp honce
  refine ⟨h.workIds, h.uuids, h.issued, h.prepared, h.inserting, ?_, ?_, ?_, honce⟩
  · intro left hleft
    exact h.rows left (Table.mem_rows_deleteWhere.mp hleft).1
  · exact h.distinct.sublist (filter_sublist.map _)
  · intro left hleft
    obtain ⟨work, hwork, hid, huuid, hdelivered⟩ := hcleaned left (mem_cons_of_mem _ hleft)
    refine ⟨work, hwork, hid, huuid, fun group hgroup => ?_⟩
    apply (hdelivered group hgroup).deleteWorkload
    intro hsame
    apply hother
    exact mem_map.mpr ⟨left, hleft, hid.symm.trans hsame⟩

theorem Inv.step (h : s.Inv) (event : CleanupEvent) (hevent : s.ReadsAssigned event) :
    (s.step remoteNodeGroups event).Inv := by
  cases event with
  | prepare submission =>
    simp only [CleanupState.step]
    split
    next hfree => exact h.prepare hfree.2
    next => exact h
  | insertWorkload =>
    simp only [CleanupState.step]
    split
    next submission hpoint => exact h.insertWorkload hpoint _
    next => exact h
  | assignWorkToGroup =>
    simp only [CleanupState.step]
    split
    next => exact h.goOn nofun
    next workId group remaining hpoint =>
      cases hassign : s.tables.assignWorkToGroup workId group.groupId with
      | none => exact h.goOn nofun
      | some tables =>
        obtain ⟨-, -, htables⟩ := CollectionTables.assignWorkToGroup_eq_some hassign
        refine h.update (by rw [htables]) ?_ nofun
        exact fun _ _ hfinished => hfinished.assign hassign
    next => exact h
  | giveUp => exact h.goOn nofun
  | lockBatch groupId workIds =>
    -- only entries that are still to be delivered are locked
    apply h.setStatus
    intro entry hcondition hfinished
    simp only [Bool.decide_and, Bool.and_eq_true, decide_eq_true_eq] at hcondition
    exact absurd hcondition.2.2 hfinished
  | clearWorkLocks groupId =>
    apply h.setStatus
    intro entry hcondition hfinished
    simp only [Bool.decide_and, Bool.and_eq_true, decide_eq_true_eq] at hcondition
    exact absurd (by rw [hcondition.1]; rfl) hfinished
  | finish groupId workId completed =>
    apply h.setStatus
    intro _ _ _
    cases completed <;> exact nofun
  | clearQueue groupId => exact h.setStatus fun _ _ _ => nofun
  | readCompleted selected =>
    simp only [CleanupState.step]
    split
    next => exact h.readCompleted hevent
    next => exact h
  | deleteSubmissionDirectory deleted =>
    simp only [CleanupState.step]
    split
    next row rows hpoint =>
      have hrows : s.cleanup.rows = row :: rows := by rw [hpoint]; rfl
      split
      · exact h.leave (by rw [hrows]; exact List.Sublist.refl _)
      · exact h.leave (by rw [hrows]; exact sublist_cons_self _ _)
    next => exact h
  | deleteWorkload =>
    simp only [CleanupState.step]
    split
    next row rows hpoint => exact h.deleteWorkload hpoint
    next => exact h
  | crash =>
    have hidle : ({ s with scheduler := .idle } : CleanupState).Inv := h.goOn nofun
    exact hidle.leave (nil_sublist _)

/-! ## §4 Clean-up waits -/

/-- The step leaves every directory and every row. -/
structure Keeps (s t : CleanupState) : Prop where
  incoming : ∀ uuid ∈ s.incoming, uuid ∈ t.incoming
  rows : ∀ workId, s.tables.incomingWorkload.hasId workId → t.tables.incomingWorkload.hasId workId

theorem Keeps.not_removes {event : CleanupEvent} {work : ScheduledWork}
    (h : s.Keeps (s.step remoteNodeGroups event)) : ¬ s.Removes remoteNodeGroups event work := by
  rintro (⟨hin, hgone⟩ | ⟨hthere, hgone⟩)
  · exact hgone (h.incoming _ hin)
  · exact hgone (h.rows _ hthere)

/-- Directories and rows are removed by the clean-up thread only, and only those that it has read. -/
theorem removes_cases (s : CleanupState) (remoteNodeGroups : RemoteNodeGroups)
    (event : CleanupEvent) :
    s.Keeps (s.step remoteNodeGroups event) ∨
      ∃ row ∈ s.cleanup.rows, ∀ work, s.Removes remoteNodeGroups event work →
        work.uuid = row.2 ∨ work.workId = row.1 := by
  have hsame (point : SchedulerPoint) (status : CleanupPoint) :
      s.Keeps { s with scheduler := point, cleanup := status } :=
    ⟨fun _ hmem => hmem, fun _ hthere => hthere⟩
  cases event with
  | prepare submission =>
    left
    simp only [step]
    split
    · exact ⟨fun _ hmem => mem_append_left _ hmem, fun _ hthere => hthere⟩
    · exact hsame _ _
  | insertWorkload =>
    left
    simp only [step]
    split
    next submission hpoint =>
      refine ⟨fun _ hmem => hmem, fun workId hthere => ?_⟩
      obtain ⟨value, hmem⟩ := Table.hasId_iff.mp hthere
      exact Table.hasId_iff.mpr ⟨value, Table.mem_rows_insert.mpr (.inl hmem)⟩
    next => exact hsame _ _
  | assignWorkToGroup =>
    left
    simp only [step]
    split
    next => exact hsame _ _
    next workId group remaining hpoint =>
      cases hassign : s.tables.assignWorkToGroup workId group.groupId with
      | none => exact hsame _ _
      | some tables =>
        obtain ⟨-, -, rfl⟩ := CollectionTables.assignWorkToGroup_eq_some hassign
        exact ⟨fun _ hmem => hmem, fun _ hthere => hthere⟩
    next => exact hsame _ _
  | readCompleted selected =>
    left
    simp only [step]
    split <;> exact hsame _ _
  | deleteSubmissionDirectory deleted =>
    simp only [step]
    split
    next row rows hpoint =>
      cases deleted with
      | false => exact .inl (hsame _ _)
      | true =>
        refine .inr ⟨row, by rw [hpoint]; exact mem_cons_self, fun work hremoves => ?_⟩
        simp only [Removes, step, hpoint, if_true, mem_filter, decide_eq_true_eq] at hremoves
        rcases hremoves with ⟨hin, hgone⟩ | ⟨hthere, hgone⟩
        · exact .inl (not_not.mp fun hne => hgone ⟨hin, by simpa using hne⟩)
        · exact absurd hthere hgone
    next => exact .inl (hsame _ _)
  | deleteWorkload =>
    simp only [step]
    split
    next row rows hpoint =>
      refine .inr ⟨row, by rw [hpoint]; exact mem_cons_self, fun work hremoves => ?_⟩
      simp only [Removes, step, hpoint] at hremoves
      rcases hremoves with ⟨hin, hgone⟩ | ⟨hthere, hgone⟩
      · exact absurd hin hgone
      · refine .inr (not_not.mp fun hne => hgone ?_)
        obtain ⟨value, hmem⟩ := Table.hasId_iff.mp hthere
        refine Table.hasId_iff.mpr ⟨value, Table.mem_rows_deleteWhere.mpr ⟨hmem, ?_⟩⟩
        simpa using hne
    next => exact .inl (hsame _ _)
  | _ => exact .inl ⟨fun _ hmem => hmem, fun _ hthere => hthere⟩

theorem Inv.waits (h : s.Inv) (event : CleanupEvent) :
    s.WaitsForGroups remoteNodeGroups event := by
  intro work hwork hremoves
  rcases s.removes_cases remoteNodeGroups event with hkeeps | ⟨row, hrow, hread⟩
  · exact absurd hremoves hkeeps.not_removes
  · obtain ⟨work', hwork', hid, huuid, hdelivered⟩ := h.cleaned row hrow
    rcases hread work hremoves with hsame | hsame
    · rwa [h.uuids work hwork work' hwork' (hsame.trans huuid.symm)]
    · rwa [h.workIds work hwork work' hwork' (hsame.trans hid.symm)]

/-- In every run in which the clean-up thread reads nothing that is still to be assigned, each
directory and each row is removed only when every group chosen for it has COMPLETED or ERROR. -/
theorem cleanup_waits_for_groups (remoteNodeGroups : RemoteNodeGroups) (events : List CleanupEvent)
    (h : Along (step remoteNodeGroups) ReadsAssigned start events) :
    Along (step remoteNodeGroups) (WaitsForGroups remoteNodeGroups) start events :=
  Along.of_invariant Inv (fun _ event hs hevent => hs.step event hevent)
    (fun _ event hs _ => hs.waits event) inv_start h

/-! Two groups. -/

def twoGroups : RemoteNodeGroups :=
  ⟨[⟨"primary", 1⟩, ⟨"qa", 2⟩], by decide⟩

def forAllGroups : Submission := ⟨"5c1d", "analysis", none, []⟩

/-- Both groups are assigned and done before the clean-up thread reads the row. -/
def cleanedWhenDelivered : List CleanupEvent :=
  [.prepare forAllGroups, .insertWorkload, .assignWorkToGroup, .assignWorkToGroup,
    .lockBatch 1 [1], .finish 1 1 true, .lockBatch 2 [1], .finish 2 1 false,
    .readCompleted [(1, "5c1d")], .deleteSubmissionDirectory true, .deleteWorkload]

/-- The first group is done before the second is assigned. -/
def cleanedBeforeAssigned : List CleanupEvent :=
  [.prepare forAllGroups, .insertWorkload, .assignWorkToGroup, .lockBatch 1 [1], .finish 1 1 true,
    .readCompleted [(1, "5c1d")], .deleteSubmissionDirectory true]

theorem cleanedWhenDelivered_waits :
    Along (step twoGroups) (WaitsForGroups twoGroups) start cleanedWhenDelivered := by
  apply cleanup_waits_for_groups
  simp only [cleanedWhenDelivered, along_cons, along_nil, ReadsAssigned, and_true, true_and]
  decide

/-- The directory is removed although the second group has not even been assigned. -/
theorem removed_before_second_group :
    ¬ Along (step twoGroups) (WaitsForGroups twoGroups) start cleanedBeforeAssigned := by
  intro h
  have hlast := ((along_append _ _ (cleanedBeforeAssigned.take 6)
    (cleanedBeforeAssigned.drop 6)).mp h).2.1
  have hremoves := hlast ⟨1, "5c1d", twoGroups.groups⟩ (by decide) (.inl (by decide))
  obtain ⟨entry, hentry, -, hgroup, -⟩ := hremoves ⟨"qa", 2⟩ (by decide)
  revert entry
  decide

end CleanupState

end Ace3.Collectors
