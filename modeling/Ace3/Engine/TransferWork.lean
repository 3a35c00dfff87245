import Ace3.Database.Locking
import Ace3.Database.Retry

/-!
# Transferring Work

`transfer_work_target` of `saq/engine/workload_manager/database.py`, with what `get_work_target`
does around it, for a root whose workload is on another node. `execute_with_retry` updates the rows,
with the errors that each call meets. Log lines, `report_exception` and `tar_path`, which is always
`None`, are left out.
-/

namespace Ace3.Engine

open Database

/-! ## §1 What a transfer changes -/

/-- The node and the directory that a row names. The node is named by its id in `workload` and in
`delayed_analysis`, and by its name in `alerts`. -/
structure RowPlace where
  node : String
  storageDir : String
  deriving DecidableEq

structure RootRows where
  workload : List RowPlace
  delayedAnalysis : List RowPlace
  alerts : List RowPlace
  deriving DecidableEq

inductive Copy where
  | complete
  | incomplete
  deriving DecidableEq

structure NodeKey where
  id : String
  name : String
  deriving DecidableEq

structure TransferSetting where
  uuid : RootUuid
  /-- Of the lock manager of the worker. -/
  lockUuid : LockUuid
  /-- This node, and its `storage_dir_from_uuid`. -/
  here : NodeKey
  targetDir : String
  /-- The remote node, and the directory that it serves for the root. -/
  remote : NodeKey
  remoteDir : String
  /-- `get_work_target` transfers from other nodes only, and `nodes.name` is unique. -/
  ids_ne : here.id ≠ remote.id
  names_ne : here.name ≠ remote.name

structure TransferWorld where
  /-- The row of the root in `locks`. -/
  lock : Option LockUuid
  rows : RootRows
  /-- `nodes.location` of the remote node. -/
  remoteHost : Option String
  /-- The target directory on this node. -/
  target : Option Copy
  /-- The directory of the root on the remote node. -/
  remote : Option Copy
  deriving DecidableEq

/-! ## §2 Outcomes -/

/-- How a call ends: it does what it is for, it raises (or answers no), or the process dies. -/
inductive CallOutcome where
  | ok
  | raises
  | dies
  deriving DecidableEq

inductive CommitOutcome where
  | ok
  | raises (applied : Bool)
  | dies
  deriving DecidableEq

/-- What `shutil.rmtree` leaves, if it does not remove the directory. -/
inductive RmtreeOutcome where
  | removed
  | raises (touched : Bool)
  | dies (touched : Bool)
  deriving DecidableEq

/-- What the remote node is left with when it does not answer that it cleared the directory. -/
inductive ClearOutcome where
  | ok
  | raises (left : Option Copy)
  | dies (left : Option Copy)
  deriving DecidableEq

/-- How the calls of a transfer end. Those of later calls are not looked at. -/
structure TransferOutcomes where
  acquireLock : CallOutcome
  makedirs : CallOutcome
  /-- `get_db_connection` and the query for the location of the remote node. -/
  lookUp : CallOutcome
  download : CallOutcome
  /-- The errors that each of the three updates meets. -/
  updates : Nat → List Failure
  /-- The process dies during the updates. -/
  diesUpdating : Bool
  commit : CommitOutcome
  load : CallOutcome
  save : CallOutcome
  rmtree : RmtreeOutcome
  clear : ClearOutcome
  /-- The `release_lock` of `transfer_work_target`, and the one of `get_work_target`. -/
  releaseLock : CallOutcome
  releaseAgain : CallOutcome

/-- How `transfer_work_target` ends: with the root, with `False` or `None`, or not at all. -/
inductive TransferEnd where
  | root
  | nothing
  | died
  deriving DecidableEq

/-! ## §3 The updates -/

def updateWorkload : String := "UPDATE workload SET node_id = %s, storage_dir = %s WHERE uuid = %s"

def updateDelayedAnalysis : String :=
  "UPDATE delayed_analysis SET node_id = %s, storage_dir = %s WHERE uuid = %s"

def updateAlerts : String := "UPDATE alerts SET location = %s, storage_dir = %s WHERE uuid = %s"

def RootRows.update (e : Execution) (rows : RootRows) : RootRows :=
  match e.statement.params with
  | [node, storageDir, _] =>
    let place : RowPlace := ⟨node, storageDir⟩
    if e.statement.sql = updateWorkload then
      { rows with workload := rows.workload.map fun _ => place }
    else if e.statement.sql = updateDelayedAnalysis then
      { rows with delayedAnalysis := rows.delayedAnalysis.map fun _ => place }
    else if e.statement.sql = updateAlerts then
      { rows with alerts := rows.alerts.map fun _ => place }
    else rows
  | _ => rows

namespace TransferSetting

variable (setting : TransferSetting) (o : TransferOutcomes) (w : TransferWorld)

/-- The calls of `execute_with_retry`. -/
def updates (failures : Nat → List Failure) : List Call :=
  [⟨.sql updateWorkload, .tuple [setting.here.id, setting.targetDir, setting.uuid], 15,
      failures 0⟩,
    ⟨.sql updateDelayedAnalysis, .tuple [setting.here.id, setting.targetDir, setting.uuid], 15,
      failures 1⟩,
    ⟨.sql updateAlerts, .tuple [setting.here.name, setting.targetDir, setting.uuid], 15,
      failures 2⟩]

/-! ## §4 `transfer_work_target` -/

def releaseLock : TransferWorld :=
  if w.lock = some setting.lockUuid then { w with lock := none } else w

def giveUp (outcome : CallOutcome) : TransferWorld × TransferEnd :=
  match outcome with
  | .ok => (setting.releaseLock w, .nothing)
  | .raises => (w, .nothing)
  | .dies => (w, .died)

/-- What is left of the target directory when it could not be removed. -/
def leftTarget (touched : Bool) : TransferWorld :=
  if touched then { w with target := w.target.map fun _ => .incomplete } else w

/-- The `except` clause. -/
def cleanUp : TransferWorld × TransferEnd :=
  match o.rmtree with
  | .removed => setting.giveUp { w with target := none } o.releaseLock
  | .raises touched => setting.giveUp (leftTarget w touched) o.releaseLock
  | .dies touched => (leftTarget w touched, .died)

/-- The remote node is told to clear its copy, and the root is returned whatever it answers. -/
def clearRemote : TransferWorld × TransferEnd :=
  match o.clear with
  | .ok => ({ w with remote := none }, .root)
  | .raises left => ({ w with remote := left }, .root)
  | .dies left => ({ w with remote := left }, .died)

/-- `root.load()` and `root.save()`, with the location set in between. The files of the root stay
as they are when one of them raises, since the JSON file is replaced by a rename. -/
def loadAndSave : TransferWorld × TransferEnd :=
  match o.load with
  | .raises => setting.cleanUp o w
  | .dies => (w, .died)
  | .ok =>
    match o.save with
    | .raises => setting.cleanUp o w
    | .dies => (w, .died)
    | .ok => clearRemote o w

/-- The updates and their commit. An exception returns the connection, which rolls it back. -/
def updateRows : TransferWorld × TransferEnd :=
  if o.diesUpdating then (w, .died)
  else
    match executeSequence RootRows.update 0 (setting.updates o.updates) ⟨w.rows, w.rows⟩ with
    | (_, .raised) => setting.cleanUp o w
    | (connection, .returned) =>
      let committed := { w with rows := connection.committed }
      match o.commit with
      | .ok => setting.loadAndSave o committed
      | .raises applied => setting.cleanUp o (if applied then committed else w)
      | .dies => (w, .died)

/-- `ace_api.download`. The remote node answers that it does not know a root without a directory. -/
def downloadRoot : TransferWorld × TransferEnd :=
  match o.download, w.remote with
  | .ok, some copy => setting.updateRows o { w with target := some copy }
  | .ok, none | .raises, _ => setting.cleanUp o w
  | .dies, _ => (w, .died)

/-- The query for the remote node. Without a row the lock is released and the directory stays. -/
def lookUpRemote : TransferWorld × TransferEnd :=
  match o.lookUp with
  | .raises => setting.cleanUp o w
  | .dies => (w, .died)
  | .ok =>
    match w.remoteHost with
    | none => setting.giveUp w o.releaseLock
    | some _ => setting.downloadRoot o w

def transferWorkTarget : TransferWorld × TransferEnd :=
  match o.acquireLock with
  | .raises => (w, .nothing)
  | .dies => (w, .died)
  | .ok =>
    if w.lock = none ∨ w.lock = some setting.lockUuid then
      let locked := { w with lock := some setting.lockUuid }
      if w.target ≠ none then setting.giveUp locked o.releaseLock
      else
        match o.makedirs with
        | .raises => setting.giveUp locked o.releaseLock
        | .dies => (locked, .died)
        | .ok => setting.lookUpRemote o { locked with target := some .incomplete }
    else (w, .nothing)

/-! ## §5 `get_work_target` -/

/-- What comes of a transfer in the end, and whether the root is returned. A lock whose process died
is recovered once it has expired. -/
def afterTransfer : TransferWorld × TransferEnd → TransferWorld × Bool
  | (w, .root) => (w, true)
  | (w, .nothing) =>
    match o.releaseAgain with
    | .ok | .dies => (setting.releaseLock w, false)
    | .raises => (w, false)
  | (w, .died) => (setting.releaseLock w, false)

def getWorkTarget : TransferWorld × Bool :=
  setting.afterTransfer o (setting.transferWorkTarget o w)

end TransferSetting

end Ace3.Engine
