import Ace3.Engine.WorkloadProtocol
import Mathlib.Data.List.Dedup
import Mathlib.Data.List.Perm.Basic

/-!
# Draining a Node

What the nodes do in `execute_drain_routines`
(`saq/engine/node_manager/distributed_node_manager.py`, `saq/engine/node_manager/drain.py` and the
status statements of `saq/database/util/node.py`), statement by statement, among the workers, the
submissions and the collectors of the cluster.
-/

namespace Ace3.Engine

open Lib
open Database

/-! ## §1 Tables -/

abbrev NodeId := Nat

/-- `VALID_NODE_STATUSES`, of nodes and of collectors. -/
inductive NodeStatus where
  | starting
  | running
  | drainingCollectors
  | draining
  | drained
  | stopped
  deriving DecidableEq

/-- A row of `nodes`. -/
structure NodeRow where
  id : NodeId
  name : String
  location : String
  companyId : Nat
  lastUpdate : Nat
  status : NodeStatus
  anyMode : Bool
  deriving DecidableEq

/-- A row of `collector_status`. -/
structure CollectorRow where
  nodeId : NodeId
  name : String
  status : NodeStatus
  lastUpdate : Nat
  deriving DecidableEq

/-- The columns of a row of `workload` or `delayed_analysis` that say where the root is. -/
structure RowLocation where
  nodeId : NodeId
  storageDir : String
  deriving DecidableEq

/-- A row of the listing of `transfer_delayed_analysis`. -/
structure Candidate where
  uuid : RootUuid
  storageDir : String
  deriving DecidableEq

/-- The central database and the workers of all nodes. -/
structure Central where
  site : Site
  workloadAt : Nat → RowLocation
  delayedAt : Nat → RowLocation
  nodes : List NodeRow
  nodeModes : List (NodeId × AnalysisMode)
  nodeModesExcluded : List (NodeId × AnalysisMode)
  collectors : List CollectorRow
  /-- In seconds. -/
  now : Nat

structure ClusterConfig where
  /-- The node that a worker belongs to. -/
  workerNode : Nat → NodeId
  companyId : NodeId → Nat
  nodeStatusUpdateFrequency : NodeId → Nat
  defaultAnalysisMode : AnalysisMode

/-- The default of `transfer_delayed_analysis`. -/
def transferLimit : Nat := 16

namespace Central

/-! ## §2 Queries -/

variable (db : Central) (n : NodeId)

/-- `get_node_status`. -/
def status : Option NodeStatus := (db.nodes.find? (·.id = n)).map (·.status)

def workloadOn : List WorkloadRow :=
  db.site.tables.workload.rows.filter fun row => (db.workloadAt row.1).nodeId = n

def delayedOn : List DelayedRow :=
  db.site.tables.delayedAnalysis.rows.filter fun row => (db.delayedAt row.1).nodeId = n

/-- `SELECT ... FROM delayed_analysis WHERE node_id = %s AND uuid IN (...)`. -/
def delayedOf (uuids : List RootUuid) : List DelayedRow :=
  (db.delayedOn n).filter (·.2.uuid ∈ uuids)

def pendingCollectors (staleSeconds : Nat) : List CollectorRow :=
  db.collectors.filter fun collector =>
    collector.nodeId = n ∧ ¬ (collector.status = .drained ∨ collector.status = .stopped) ∧
      db.now - collector.lastUpdate ≤ staleSeconds

/-- A node that `get_compatible_transfer_target` may choose. -/
def compatible (config : ClusterConfig) (analysisMode : AnalysisMode) (node : NodeRow) : Bool :=
  node.id ≠ n ∧ node.companyId = config.companyId n ∧ node.status = .running ∧
    db.now - node.lastUpdate ≤ config.nodeStatusUpdateFrequency n * 2 ∧
    (node.anyMode ∧ (node.id, analysisMode) ∉ db.nodeModesExcluded ∨
      (node.id, analysisMode) ∈ db.nodeModes)

def compatibleNodes (config : ClusterConfig) (analysisMode : AnalysisMode) : List NodeRow :=
  db.nodes.filter (db.compatible n config analysisMode)

/-- `get_compatible_transfer_target` can return this. The database breaks ties as it likes. -/
def isTransferTarget (config : ClusterConfig) (analysisMode : AnalysisMode) :
    Option NodeRow → Bool
  | none => db.compatibleNodes n config analysisMode = []
  | some node =>
    node ∈ db.compatibleNodes n config analysisMode ∧
      ∀ other ∈ db.compatibleNodes n config analysisMode,
        (db.workloadOn node.id).length ≤ (db.workloadOn other.id).length

/-- The roots with delayed analysis on the node that are neither in the workload nor locked. -/
def candidates : List Candidate :=
  (((db.delayedOn n).filter fun row =>
    ¬ (db.site.tables.workload.rows.any (·.2.uuid = row.2.uuid)) ∧
      db.site.locks row.2.uuid = none).map fun row =>
        ⟨row.2.uuid, (db.delayedAt row.1).storageDir⟩).dedup

/-! ## §3 Statements -/

/-- `UPDATE nodes SET status = %s WHERE id = %s AND status IN (...) AND ...`. -/
def transitionStatus (toStatus : NodeStatus) (fromStatuses : List NodeStatus) (condition : Bool) :
    Central :=
  { db with nodes := db.nodes.map fun node =>
      if node.id = n ∧ node.status ∈ fromStatuses ∧ condition then
        { node with status := toStatus }
      else node }

def checkAndAdvanceCollectorsDrained (staleSeconds : Nat) : Central :=
  db.transitionStatus n .draining [.drainingCollectors] (db.pendingCollectors n staleSeconds = [])

def revertDrainingIfCollectorPending (staleSeconds : Nat) : Central :=
  db.transitionStatus n .drainingCollectors [.draining] (db.pendingCollectors n staleSeconds ≠ [])

def checkAndMarkDrained (expectedDelayedCount staleSeconds : Nat) : Central :=
  db.transitionStatus n .drained [.draining]
    (db.workloadOn n = [] ∧ (db.delayedOn n).length = expectedDelayedCount ∧
      db.pendingCollectors n staleSeconds = [])

def revertDrainedIfWorkAppeared : Central :=
  db.transitionStatus n .draining [.drained] (db.workloadOn n ≠ [])

/-- `UPDATE delayed_analysis SET node_id = %s, storage_dir = %s WHERE uuid = %s
AND node_id = %s`. -/
def repointDelayed (uuid : RootUuid) (location : RowLocation) : Central :=
  { db with delayedAt := fun id =>
      if id ∈ (db.delayedOf n [uuid]).map (·.1) then location else db.delayedAt id }

/-- The `UPDATE`s of `transfer_work_target`. -/
def repointRoot (uuid : RootUuid) (location : RowLocation) : Central :=
  { db with
    workloadAt := fun id =>
      if db.site.tables.workload.rows.any (fun row => row.1 = id ∧ row.2.uuid = uuid) then location
      else db.workloadAt id
    delayedAt := fun id =>
      if db.site.tables.delayedAnalysis.rows.any (fun row => row.1 = id ∧ row.2.uuid = uuid) then
        location
      else db.delayedAt id }

def updateCollectorStatus (name : String) (status : NodeStatus) : Central :=
  { db with collectors :=
      (db.collectors.filter fun collector => ¬ (collector.nodeId = n ∧ collector.name = name)) ++
        [⟨n, name, status, db.now⟩] }

/-! ## §4 Everybody else -/

inductive Event where
  /-- A worker, or somebody who adds to the workload. `place` is where the roots are. -/
  | work (e : WorkEvent) (place : RootUuid → RowLocation)
  /-- The storage directory of a root becomes its work directory, or the other way. -/
  | relocate (uuid : RootUuid) (storageDir : String)
  /-- A lock is recovered, or cleared when a node starts. -/
  | dropLock (uuid : RootUuid)
  | reportCollector (n : NodeId) (name : String) (status : NodeStatus)
  /-- `initialize_node` of a new node. -/
  | addNode (node : NodeRow)
  /-- `assign_node_analysis_modes`. -/
  | assignModes (n : NodeId) (anyMode : Bool) (modes excluded : List AnalysisMode)
  /-- `update_node_status`. -/
  | updateNode (n : NodeId) (location : String)
  /-- The engine of a node starts, runs and stops. -/
  | setStarting (n : NodeId)
  | setRunning (n : NodeId)
  | setStopped (n : NodeId)
  /-- `drain_node` and `resume_node`. -/
  | drain (n : NodeId)
  | resume (n : NodeId)
  /-- `reconcile_stale_node_statuses`. -/
  | reconcile (staleSeconds : Nat)
  | clock (seconds : Nat)

/-- The locations of the rows after an insert: the id of a new row was not handed out before. -/
def placeNew {α : Type} (old new : Table α) (locationOf : α → RowLocation)
    (locations : Nat → RowLocation) (id : Nat) : RowLocation :=
  if id < old.nextId then locations id
  else ((new.rows.find? (·.1 = id)).map fun row => locationOf row.2).getD (locations id)

def requestLocation (config : ClusterConfig) (e : WorkEvent) (place : RootUuid → RowLocation)
    (request : DelayedAnalysis) : RowLocation :=
  match e.worker with
  | some w => ⟨config.workerNode w, (place request.uuid).storageDir⟩
  | none => place request.uuid

/-- An event of the workers, on the tables with all their columns. -/
def workStep (config : ClusterConfig) (e : WorkEvent) (place : RootUuid → RowLocation) : Central :=
  let site := db.site.step config.defaultAnalysisMode e
  { db with
    site := site
    workloadAt := placeNew db.site.tables.workload site.tables.workload
      (fun item => place item.uuid) db.workloadAt
    delayedAt := placeNew db.site.tables.delayedAnalysis site.tables.delayedAnalysis
      (requestLocation config e place) db.delayedAt }

/-- The same, where a worker lists the delayed requests of its node only, and its node becomes the
place of what it transfers. -/
def work (config : ClusterConfig) (e : WorkEvent) (place : RootUuid → RowLocation) : Central :=
  match e with
  | .listDelayed w rows =>
    if ∀ row ∈ rows, row ∈ db.delayedOn (config.workerNode w) then db.workStep config e place
    else db
  | .verify w .succeeded =>
    match db.site.phase w with
    | .verify row _ =>
      if db.site.tables.workload.hasId row.1 then
        (db.workStep config e place).repointRoot row.2.uuid
          ⟨config.workerNode w, (place row.2.uuid).storageDir⟩
      else db.workStep config e place
    | _ => db
  | _ => db.workStep config e place

/-- The statuses that `resume_node` and `reconcile_stale_node_statuses` end. -/
def resumable : List NodeStatus := [.drainingCollectors, .draining, .drained]

def reconcilable : List NodeStatus := [.starting, .running, .draining, .drained]

def step (config : ClusterConfig) : Event → Central
  | .work e place => db.work config e place
  | .relocate uuid storageDir =>
    { db with
      workloadAt := fun id =>
        if db.site.tables.workload.rows.any (fun row => row.1 = id ∧ row.2.uuid = uuid) then
          { db.workloadAt id with storageDir := storageDir }
        else db.workloadAt id
      delayedAt := fun id =>
        if db.site.tables.delayedAnalysis.rows.any (fun row => row.1 = id ∧ row.2.uuid = uuid) then
          { db.delayedAt id with storageDir := storageDir }
        else db.delayedAt id }
  | .dropLock uuid =>
    { db with site := db.site.setLocks (db.site.locks.forceReleaseLock uuid none) }
  | .reportCollector n name status => db.updateCollectorStatus n name status
  | .addNode node =>
    if db.nodes.all (·.id ≠ node.id) then
      { db with nodes := db.nodes ++ [{ node with status := .stopped, lastUpdate := db.now }] }
    else db
  | .assignModes n anyMode modes excluded =>
    { db with
      nodes := db.nodes.map fun node => if node.id = n then { node with anyMode } else node
      nodeModes := (db.nodeModes.filter (·.1 ≠ n)) ++ modes.map (n, ·)
      nodeModesExcluded := (db.nodeModesExcluded.filter (·.1 ≠ n)) ++ excluded.map (n, ·) }
  | .updateNode n location =>
    { db with nodes := db.nodes.map fun node =>
        if node.id = n then { node with location, lastUpdate := db.now } else node }
  | .setStarting n =>
    { db with nodes := db.nodes.map fun node =>
        if node.id = n then { node with status := .starting } else node }
  | .setRunning n =>
    { db with nodes := db.nodes.map fun node =>
        if node.id = n then { node with status := .running } else node }
  | .setStopped n =>
    { db with nodes := db.nodes.map fun node =>
        if node.id = n then { node with status := .stopped } else node }
  | .drain n => db.transitionStatus n .drainingCollectors [.running] true
  | .resume n => db.transitionStatus n .running resumable true
  | .reconcile staleSeconds =>
    { db with nodes := db.nodes.map fun node =>
        if staleSeconds < db.now - node.lastUpdate ∧ node.status ∈ reconcilable then
          { node with status := .stopped }
        else node }
  | .clock seconds => { db with now := db.now + seconds }

end Central

/-! ## §5 Drain passes -/

/-- The variables of `transfer_delayed_analysis`. -/
structure TransferPass where
  /-- The candidates that are left, from the current one. -/
  candidates : List Candidate
  transferred : Nat
  skipped : Nat
  untransferable : List RootUuid
  deriving DecidableEq

namespace TransferPass

def start (candidates : List Candidate) : TransferPass := ⟨candidates, 0, 0, []⟩

def finished (t : TransferPass) : Bool :=
  t.candidates = [] ∨ transferLimit ≤ t.transferred + t.skipped

/-- `break`: the candidates that are left are skipped. -/
def skipRest (t : TransferPass) : TransferPass :=
  { t with candidates := [], skipped := t.skipped + t.candidates.length }

def skip (t : TransferPass) : TransferPass :=
  { t with candidates := t.candidates.tail, skipped := t.skipped + 1 }

def noTarget (t : TransferPass) (uuid : RootUuid) : TransferPass :=
  { t with candidates := t.candidates.tail, untransferable := t.untransferable ++ [uuid] }

def done (t : TransferPass) : TransferPass :=
  { t with candidates := t.candidates.tail, transferred := t.transferred + 1 }

end TransferPass

inductive DrainPass where
  | idle
  /-- After `get_node_status`. -/
  | dispatch (status : NodeStatus)
  /-- Before the listing of `transfer_delayed_analysis`. -/
  | list
  /-- In its loop. -/
  | candidate (t : TransferPass)
  | findTarget (t : TransferPass) (candidate : Candidate) (analysisMode : AnalysisMode)
  | acquire (t : TransferPass) (candidate : Candidate) (node : NodeRow) (lockUuid : LockUuid)
      (stage : Locks.AcquireStage)
  | upload (t : TransferPass) (candidate : Candidate) (node : NodeRow) (lockUuid : LockUuid)
  | repoint (t : TransferPass) (candidate : Candidate) (node : NodeRow) (lockUuid : LockUuid)
      (remoteStorageDir : String)
  /-- In the `finally`, with the variables that the loop goes on with. -/
  | release (t : TransferPass) (uuid : RootUuid) (lockUuid : LockUuid)
  /-- Before the rows of the untransferable roots are counted. -/
  | count (t : TransferPass)
  /-- Before `check_and_mark_drained`, with the rows that were counted. -/
  | mark (untransferable : List RootUuid) (counted : List DelayedRow)
  deriving DecidableEq

inductive DrainEvent where
  /-- `get_node_status`. -/
  | begin
  /-- The next statement, where nothing but the database says what comes of it. -/
  | proceed
  /-- The listing, in the order that the database returns. -/
  | list (candidates : List Candidate)
  /-- `root.load()`: the analysis mode, or an error. -/
  | load (analysisMode : Option AnalysisMode)
  /-- What `get_compatible_transfer_target` returns, and the lock uuid that is drawn. -/
  | findTarget (node : Option NodeRow) (lockUuid : LockUuid)
  /-- `ace_api.upload`: the storage directory that comes back, if it does. -/
  | upload (remoteStorageDir : Option String)
  /-- The current statement raises. -/
  | raise
  /-- The controller dies. -/
  | die
  deriving DecidableEq

/-- The central database, and the drain pass of every node. -/
structure DrainState where
  db : Central
  pass : NodeId → DrainPass

namespace DrainState

def start (db : Central) : DrainState := ⟨db, fun _ => .idle⟩

def setPass (s : DrainState) (n : NodeId) (pass : DrainPass) : DrainState :=
  { s with pass := Function.update s.pass n pass }

def setDb (s : DrainState) (db : Central) : DrainState := { s with db := db }

/-- The age from which the status of a collector is stale. -/
def staleSeconds (config : ClusterConfig) (n : NodeId) : Nat :=
  config.nodeStatusUpdateFrequency n * 4

def dispatch (config : ClusterConfig) (s : DrainState) (n : NodeId) : NodeStatus → DrainState
  | .drainingCollectors =>
    (s.setDb (s.db.checkAndAdvanceCollectorsDrained n (staleSeconds config n))).setPass n .idle
  | .draining =>
    let db := s.db.revertDrainingIfCollectorPending n (staleSeconds config n)
    (s.setDb db).setPass n
      (if s.db.status n = some .draining ∧
          s.db.pendingCollectors n (staleSeconds config n) ≠ [] then
        .idle
      else .list)
  | .drained => (s.setDb (s.db.revertDrainedIfWorkAppeared n)).setPass n .idle
  | .starting | .running | .stopped => s.setPass n .idle

/-- One statement of `acquire_lock`. -/
def acquire (s : DrainState) (n : NodeId) (t : TransferPass) (candidate : Candidate)
    (node : NodeRow) (lockUuid : LockUuid) (stage : Locks.AcquireStage) : DrainState :=
  match s.db.site.locks.acquireLock 0 s.db.now candidate.uuid lockUuid false stage with
  | (locks, outcome) =>
    (s.setDb { s.db with site := s.db.site.setLocks locks }).setPass n
      (match outcome with
      | .next stage => .acquire t candidate node lockUuid stage
      | .returned true => .upload t candidate node lockUuid
      | .returned false => .candidate t.skip)

/-- The next statement of a pass, where nothing but the database says what comes of it. -/
def proceed (config : ClusterConfig) (s : DrainState) (n : NodeId) : DrainState :=
  match s.pass n with
  | .dispatch status => s.dispatch config n status
  | .candidate t => if t.finished then s.setPass n (.count t.skipRest) else s
  | .acquire t candidate node lockUuid stage => s.acquire n t candidate node lockUuid stage
  | .repoint t candidate node lockUuid remoteStorageDir =>
    -- without a row that is still here the upload stands and nothing points at it
    (s.setDb (s.db.repointDelayed n candidate.uuid ⟨node.id, remoteStorageDir⟩)).setPass n
      (.release (if s.db.delayedOf n [candidate.uuid] = [] then t.skip else t.done) candidate.uuid
        lockUuid)
  | .release t uuid lockUuid =>
    (s.setDb { s.db with
      site := s.db.site.setLocks (s.db.site.locks.releaseLock uuid lockUuid) }).setPass n
      (.candidate t)
  | .count t =>
    s.setPass n (if t.skipped = 0 then
      .mark t.untransferable (s.db.delayedOf n t.untransferable)
    else .idle)
  | .mark _ counted =>
    (s.setDb (s.db.checkAndMarkDrained n counted.length (staleSeconds config n))).setPass n .idle
  | .idle | .list | .findTarget .. | .upload .. => s

/-- A statement of a pass raises: in the `try` of the loop the lock is released and the candidate
is skipped, everywhere else the pass is over. -/
def raise (s : DrainState) (n : NodeId) : DrainState :=
  match s.pass n with
  | .upload t candidate _ lockUuid | .repoint t candidate _ lockUuid _ =>
    s.setPass n (.release t.skip candidate.uuid lockUuid)
  | _ => s.setPass n .idle

/-- The state after an event of a pass. An event whose pass is not at that point of its program
changes nothing. -/
def passStep (config : ClusterConfig) (s : DrainState) (n : NodeId) : DrainEvent → DrainState
  | .begin =>
    match s.pass n, s.db.status n with
    | .idle, some status => s.setPass n (.dispatch status)
    | _, _ => s
  | .proceed => s.proceed config n
  | .list candidates =>
    match s.pass n with
    | .list =>
      if candidates.Perm (s.db.candidates n) then
        s.setPass n (.candidate (.start candidates))
      else s
    | _ => s
  | .load analysisMode =>
    match s.pass n with
    | .candidate t =>
      match t.finished, t.candidates with
      | false, candidate :: _ =>
        match analysisMode with
        | some analysisMode => s.setPass n (.findTarget t candidate analysisMode)
        | none => s.setPass n (.candidate t.skip)
      | _, _ => s
    | _ => s
  | .findTarget node lockUuid =>
    match s.pass n with
    | .findTarget t candidate analysisMode =>
      if s.db.isTransferTarget n config analysisMode node then
        match node with
        | some node => s.setPass n (.acquire t candidate node lockUuid .insert)
        | none => s.setPass n (.candidate (t.noTarget candidate.uuid))
      else s
    | _ => s
  | .upload remoteStorageDir =>
    match s.pass n with
    | .upload t candidate node lockUuid =>
      match remoteStorageDir with
      | some remoteStorageDir => s.setPass n (.repoint t candidate node lockUuid remoteStorageDir)
      | none => s.setPass n (.release t.skip candidate.uuid lockUuid)
    | _ => s
  | .raise => s.raise n
  | .die => s.setPass n .idle

end DrainState

inductive ClusterEvent where
  | pass (n : NodeId) (e : DrainEvent)
  | central (e : Central.Event)

def DrainState.step (config : ClusterConfig) (s : DrainState) : ClusterEvent → DrainState
  | .pass n e => s.passStep config n e
  | .central e => s.setDb (s.db.step config e)

end Ace3.Engine
