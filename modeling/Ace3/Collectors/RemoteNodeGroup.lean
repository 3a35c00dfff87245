import Ace3.Collectors.CollectionTables
import Ace3.Collectors.RemoteNode

/-!
# The Delivery Thread of a Group

`RemoteNodeGroup.execute` of `saq/collectors/remote_node.py`, called again and again by the one
thread of a group. A call asks for the nodes, locks a batch where nothing is locked, and goes over
all that is locked. The steps are a new assignment, the beginning of a call, and the delivery of the
next item of its batch.
-/

namespace Ace3.Collectors

open List Function

/-! ## §1 The group -/

/-- The settings of a `RemoteNodeGroup`, with what its constructor and its configuration check. -/
structure RemoteNodeGroup where
  coverage : Nat
  fullDelivery : Bool
  batchSize : Nat
  maxDeliveryAttempts : Nat
  limits : NodeLimits
  /-- `analysis_mode_priority`, where a mode without a row has 0. -/
  priority : String → Int
  coverage_pos : 0 < coverage
  coverage_le : coverage ≤ 100
  attempts_pos : 1 ≤ maxDeliveryAttempts

/-- A row of `work_distribution` of the group, with the mode of its workload. -/
structure WorkItem where
  workId : Nat
  analysisMode : String
  status : WorkStatus
  attemptCount : Nat
  deriving DecidableEq

structure NodeQuery where
  tables : NodeTables
  now : Nat
  modes : List String

/-- The rows of the group, and its thread: the counter, what the running call asked, and what is
left of its batch. For statements about runs, the items that came to the counter, each with whether
it was ever selected, those that were submitted, and the failures. -/
structure DeliveryState where
  rows : List WorkItem
  coverageCounter : Nat
  query : Option NodeQuery
  batch : List (Nat × String)
  passed : List (Nat × Bool)
  submitted : List Nat
  failed : List Nat

/-! ## §2 What can happen -/

inductive DeliveryOutcome where
  /-- Its root cannot be loaded. -/
  | unloadable
  | submitted
  /-- `submit` raises; MaxRetryError, NewConnectionError, ConnectionError and HTTPError can be
  retried. -/
  | raised (retriable : Bool)
  deriving DecidableEq

inductive DeliveryEvent where
  /-- The scheduler assigns a work item to the group. -/
  | assign (workId : Nat) (analysisMode : String)
  /-- A call begins, with the tables of nodes as they are then. -/
  | execute (tables : NodeTables) (now : Nat)
  | deliver (outcome : DeliveryOutcome)

/-! ## §3 Steps -/

namespace DeliveryState

def start : DeliveryState where
  rows := []
  coverageCounter := 0
  query := none
  batch := []
  passed := []
  submitted := []
  failed := []

/-- The modes of the items that are still to be delivered. -/
def queuedModes (rows : List WorkItem) : List String :=
  (rows.filter (·.status.isPending)).map (·.analysisMode)

def orderedBefore (group : RemoteNodeGroup) (a b : WorkItem) : Prop :=
  group.priority b.analysisMode < group.priority a.analysisMode ∨
    group.priority a.analysisMode = group.priority b.analysisMode ∧ a.workId ≤ b.workId

instance (group : RemoteNodeGroup) : DecidableRel (orderedBefore group) := fun a b =>
  inferInstanceAs (Decidable (group.priority b.analysisMode < group.priority a.analysisMode ∨
    group.priority a.analysisMode = group.priority b.analysisMode ∧ a.workId ≤ b.workId))

def lockBatch (group : RemoteNodeGroup) (available : List String) (rows : List WorkItem) :
    List WorkItem :=
  let ready := rows.filter fun row => row.status = .ready ∧ row.analysisMode ∈ available
  let locked : List Nat :=
    ((ready.insertionSort (orderedBefore group)).take group.batchSize).map (·.workId)
  rows.map fun row => if row.workId ∈ locked then { row with status := .locked } else row

def workBatch (group : RemoteNodeGroup) (rows : List WorkItem) : List (Nat × String) :=
  ((rows.filter (·.status = .locked)).insertionSort (orderedBefore group)).map fun row =>
    (row.workId, row.analysisMode)

def update (workId : Nat) (set : WorkItem → WorkItem) (rows : List WorkItem) : List WorkItem :=
  rows.map fun row => if row.workId = workId then set row else row

def setStatus (workId : Nat) (status : WorkStatus) (rows : List WorkItem) : List WorkItem :=
  update workId (fun row => { row with status := status }) rows

/-- `record_delivery_attempt`: the rows, and the number of attempts that is read. -/
def recordDeliveryAttempt (group : RemoteNodeGroup) (workId : Nat) (rows : List WorkItem) :
    List WorkItem × Nat :=
  let rows := update workId (fun row => { row with attemptCount := row.attemptCount + 1 }) rows
  match rows.find? (·.workId = workId) with
  | none => (rows, group.maxDeliveryAttempts)
  | some row => (rows, row.attemptCount)

def note (workId : Nat) (selected : Bool) (passed : List (Nat × Bool)) : List (Nat × Bool) :=
  if passed.any (·.1 = workId) then
    passed.map fun item => if item.1 = workId then (item.1, item.2 || selected) else item
  else passed ++ [(workId, selected)]

def nodes (group : RemoteNodeGroup) (s : DeliveryState) : List RemoteNode :=
  match s.query with
  | none => []
  | some query => query.tables.nodeStatus group.limits query.now query.modes

def selects (group : RemoteNodeGroup) (s : DeliveryState) : Bool :=
  100 ≤ s.coverageCounter + group.coverage

def execute (group : RemoteNodeGroup) (s : DeliveryState) (tables : NodeTables) (now : Nat) :
    DeliveryState :=
  let modes := queuedModes s.rows
  -- NO_WORK_AVAILABLE
  if modes = [] then s
  else
    let nodes := tables.nodeStatus group.limits now modes
    if nodes = [] then
      -- NO_NODES_AVAILABLE; without full delivery the queue is cleared
      if group.fullDelivery then s
      else { s with rows := s.rows.map fun row => { row with status := .error } }
    else
      let available := availableModes nodes modes
      -- NO_NODES_AVAILABLE
      if available = [] then s
      else
        let rows := if s.rows.any (·.status = .locked) then s.rows
          else lockBatch group available s.rows
        { s with
          rows := rows
          query := some ⟨tables, now, modes⟩
          batch := workBatch group rows }

/-- `submit` raises for a selected item. -/
def fail (group : RemoteNodeGroup) (s : DeliveryState) (workId : Nat) (retriable : Bool) :
    DeliveryState :=
  let s := { s with failed := s.failed ++ [workId] }
  if group.fullDelivery ∧ retriable then
    let (rows, attempts) := recordDeliveryAttempt group workId s.rows
    -- the item stays locked and is delivered again
    if attempts < group.maxDeliveryAttempts then { s with rows := rows }
    else { s with rows := setStatus workId .error rows }
  else { s with rows := setStatus workId .error s.rows }

def send (group : RemoteNodeGroup) (s : DeliveryState) (workId : Nat) (analysisMode : String)
    (outcome : DeliveryOutcome) : DeliveryState :=
  match target? (s.nodes group) analysisMode with
  -- `target[0]` raises, and the call ends
  | none => { s with batch := [] }
  | some _ =>
    match outcome with
    | .raised retriable => s.fail group workId retriable
    | _ =>
      { s with
        rows := setStatus workId .completed s.rows
        submitted := s.submitted ++ [workId] }

def deliver (group : RemoteNodeGroup) (s : DeliveryState) (outcome : DeliveryOutcome) :
    DeliveryState :=
  match s.batch with
  | [] => s
  | (workId, analysisMode) :: batch =>
    let s := { s with batch := batch }
    match outcome with
    | .unloadable => { s with rows := setStatus workId .error s.rows }
    | outcome =>
      if s.selects group then
        let s := { s with
          coverageCounter := s.coverageCounter + group.coverage - 100
          passed := note workId true s.passed }
        s.send group workId analysisMode outcome
      else
        -- skipped due to coverage constraints
        { s with
          coverageCounter := s.coverageCounter + group.coverage
          passed := note workId false s.passed
          rows := setStatus workId .completed s.rows }

/-- One step. A work item is assigned once, and a call begins when the one before has ended. -/
def step (group : RemoteNodeGroup) (s : DeliveryState) : DeliveryEvent → DeliveryState
  | .assign workId analysisMode =>
    if s.rows.any (·.workId = workId) then s
    else { s with rows := s.rows ++ [⟨workId, analysisMode, .ready, 0⟩] }
  | .execute tables now => if s.batch = [] then s.execute group tables now else s
  | .deliver outcome => s.deliver group outcome

/-! ## §4 Updates and batches -/

variable {group : RemoteNodeGroup} {s : DeliveryState} {rows : List WorkItem} {workId : Nat}
  {row : WorkItem} {analysisMode : String} {batch : List (Nat × String)}

variable {set : WorkItem → WorkItem}

theorem mem_update : row ∈ update workId set rows ↔
    ∃ old ∈ rows, (if old.workId = workId then set old else old) = row := by
  simp [update]

theorem mem_update_of_ne (hrow : row ∈ rows) (hne : row.workId ≠ workId) :
    row ∈ update workId set rows :=
  mem_update.mpr ⟨row, hrow, if_neg hne⟩

theorem map_workId_update (hset : ∀ row, (set row).workId = row.workId) :
    (update workId set rows).map (·.workId) = rows.map (·.workId) := by
  rw [update, map_map]
  apply map_congr_left
  intro row _
  rw [comp_apply, apply_ite WorkItem.workId, hset, ite_self]

theorem mem_lockBatch {available : List String} (hrow : row ∈ lockBatch group available rows)
    (hids : (rows.map (·.workId)).Nodup) : row ∈ rows ∨
      ∃ old ∈ rows, old.status = .ready ∧ old.analysisMode ∈ available ∧
        row = { old with status := .locked } := by
  obtain ⟨old, hold, hset⟩ := mem_map.mp hrow
  split at hset
  next hlocked =>
    obtain ⟨taken, htaken, hid⟩ := mem_map.mp hlocked
    have hready := mem_of_mem_take htaken
    rw [mem_insertionSort, mem_filter, decide_eq_true_eq] at hready
    obtain rfl := inj_on_of_nodup_map hids hready.1 hold hid
    exact .inr ⟨taken, hold, hready.2.1, hready.2.2, hset.symm⟩
  next => exact .inl (hset ▸ hold)

theorem map_workId_lockBatch {available : List String} :
    (lockBatch group available rows).map (·.workId) = rows.map (·.workId) := by
  rw [lockBatch, map_map]
  apply map_congr_left
  intro row _
  rw [comp_apply, apply_ite WorkItem.workId, ite_self]

theorem mem_workBatch {item : Nat × String} : item ∈ workBatch group rows ↔
    ∃ row ∈ rows, row.status = .locked ∧ (row.workId, row.analysisMode) = item := by
  simp [workBatch, and_assoc]

theorem nodup_workBatch (hids : (rows.map (·.workId)).Nodup) :
    ((workBatch group rows).map (·.1)).Nodup := by
  have hperm : ((workBatch group rows).map (·.1)).Perm
      ((rows.filter (·.status = .locked)).map (·.workId)) := by
    rw [workBatch, map_map]
    exact (perm_insertionSort _ _).map _
  exact hperm.nodup_iff.mpr (hids.sublist (filter_sublist.map _))

theorem update_update {set set' : WorkItem → WorkItem} (hset : ∀ row, (set row).workId = row.workId) :
    update workId set' (update workId set rows) = update workId (set' ∘ set) rows := by
  simp only [update, map_map]
  apply map_congr_left
  intro row _
  rw [comp_apply]
  by_cases hid : row.workId = workId
  · rw [if_pos hid, if_pos ((hset row).trans hid), if_pos hid, comp_apply]
  · rw [if_neg hid, if_neg hid, if_neg hid]

theorem update_id : update workId id rows = rows := by
  simp [update]

/-! ## §5 Deliveries -/

def selected (group : RemoteNodeGroup) (s : DeliveryState) (workId : Nat)
    (batch : List (Nat × String)) : DeliveryState :=
  { s with
    batch := batch
    coverageCounter := s.coverageCounter + group.coverage - 100
    passed := note workId true s.passed }

theorem deliver_eq {outcome : DeliveryOutcome} (hbatch : s.batch = (workId, analysisMode) :: batch)
    (hloaded : outcome ≠ .unloadable) : s.deliver group outcome =
      if s.selects group then
        (selected group s workId batch).send group workId analysisMode outcome
      else
        { s with
          batch := batch
          coverageCounter := s.coverageCounter + group.coverage
          passed := note workId false s.passed
          rows := setStatus workId .completed s.rows } := by
  simp only [DeliveryState.deliver, hbatch]
  cases outcome with
  | unloadable => exact absurd rfl hloaded
  | submitted | raised _ => rfl

/-- An update that leaves the id and the mode of a row. -/
structure Relabels (set : WorkItem → WorkItem) : Prop where
  workId : ∀ row, (set row).workId = row.workId
  analysisMode : ∀ row, (set row).analysisMode = row.analysisMode

theorem deliver_rows (group : RemoteNodeGroup) (outcome : DeliveryOutcome)
    (hbatch : s.batch = (workId, analysisMode) :: batch) :
    (∃ set, Relabels set ∧ (s.deliver group outcome).rows = update workId set s.rows) ∧
      (∀ item ∈ (s.deliver group outcome).batch, item ∈ batch) ∧
      (s.deliver group outcome).query = s.query := by
  have hstatus (status : WorkStatus) :
      Relabels fun row => { row with status := status } := ⟨fun _ => rfl, fun _ => rfl⟩
  by_cases hloaded : outcome = .unloadable
  · subst hloaded
    simp only [deliver, hbatch]
    exact ⟨⟨_, hstatus .error, rfl⟩, fun _ hitem => hitem, trivial⟩
  rw [deliver_eq hbatch hloaded]
  split
  · simp only [send]
    split
    · exact ⟨⟨id, ⟨fun _ => rfl, fun _ => rfl⟩, update_id.symm⟩, nofun, rfl⟩
    · split
      · simp only [fail]
        split
        · -- the attempt is counted, and the row may get a status as well
          have hcounted : Relabels fun row : WorkItem =>
              { row with attemptCount := row.attemptCount + 1 } := ⟨fun _ => rfl, fun _ => rfl⟩
          have hrows : (recordDeliveryAttempt group workId (selected group s workId batch).rows).1 =
              update workId (fun row => { row with attemptCount := row.attemptCount + 1 }) s.rows := by
            unfold recordDeliveryAttempt
            simp only
            split <;> rfl
          split
          · exact ⟨⟨_, hcounted, hrows⟩, fun _ hitem => hitem, rfl⟩
          · refine ⟨⟨fun row => { row with status := .error, attemptCount := row.attemptCount + 1 },
              ⟨fun _ => rfl, fun _ => rfl⟩, ?_⟩, fun _ hitem => hitem, rfl⟩
            rw [hrows]
            exact update_update fun _ => rfl
        · exact ⟨⟨_, hstatus .error, rfl⟩, fun _ hitem => hitem, rfl⟩
      · exact ⟨⟨_, hstatus .completed, rfl⟩, fun _ hitem => hitem, rfl⟩
  · exact ⟨⟨_, hstatus .completed, rfl⟩, fun _ hitem => hitem, rfl⟩

def sendsAll : RemoteNodeGroup where
  coverage := 100
  fullDelivery := true
  batchSize := 32
  maxDeliveryAttempts := 3
  limits := ⟨1, 30, []⟩
  priority := fun _ => 0
  coverage_pos := by decide
  coverage_le := by decide
  attempts_pos := by decide

end DeliveryState

end Ace3.Collectors
