import Ace3.Collectors.CollectionTables

/-!
# The Collection Loop

`execute_collection_loop` and `process_submission` of `saq/collectors/base_collector.py` with the
file manager, the duplicate filter and the scheduler they call. The directories, the keys and the
tables are persistent; where the collection thread is is lost when the process dies.

The loop is cut at its persistent effects: the key is marked, the directory is moved, the workload
row is inserted, and each group is assigned. Between two of them the process may die, and each of
them may raise.
-/

namespace Ace3.Collectors

/-! ## §1 The state of a collector -/

/-- What a collector is started with: the digest of keys, and the groups it sends to. -/
structure CollectorSettings (Digest : Type) where
  sha256Str : String → Digest
  remoteNodeGroups : RemoteNodeGroups

inductive SchedulingPoint where
  /-- No submission is being processed. -/
  | idle
  /-- `is_duplicate` is to be asked. -/
  | checking (submission : Submission)
  | marking (submission : Submission) (key : String)
  | moving (submission : Submission)
  | inserting (submission : Submission)
  | assigning (submission : Submission) (workId : Nat) (remaining : List NodeGroup)
  deriving DecidableEq

def SchedulingPoint.submission? : SchedulingPoint → Option Submission
  | .idle => none
  | .checking submission | .marking submission _ | .moving submission | .inserting submission
  | .assigning submission _ _ => some submission

/-- A collector: the directories, the keys of the duplicate filter and the tables; the collection
thread; and, for what is said about runs, everything staged and everything discarded so far. -/
structure CollectorState (Digest : Type) where
  staging : List Submission
  incoming : List Submission
  error : List Submission
  persistentKeys : List Digest
  tables : CollectionTables
  pending : List String
  point : SchedulingPoint
  staged : List Submission
  discarded : List Submission

/-! ## §2 What can happen -/

/-- How an effect ends. Where it raises, the directory can be moved to the error directory or, as a
last resort, is dropped. -/
inductive EffectResult where
  | done
  | raised (movable : Bool)
  deriving DecidableEq

inductive CollectorEvent (Digest : Type) where
  /-- A collector stages a submission, which has a new uuid. -/
  | stage (submission : Submission)
  /-- `list_staged_submissions` at the start of a pass; the order is that of the mtimes. -/
  | list (uuids : List String)
  /-- `iter_staged_submissions` goes on; the root can be loaded, or not. -/
  | load (readable movable : Bool)
  | proceed (result : EffectResult)
  /-- The pass ends early, at a shutdown. -/
  | stop
  | crash
  /-- `delete_expired_persistent_keys`. -/
  | clearExpired (expired : List Digest)
  deriving DecidableEq

/-! ## §3 Steps -/

namespace CollectorState

variable {Digest : Type} [DecidableEq Digest]

def start : CollectorState Digest where
  staging := []
  incoming := []
  error := []
  persistentKeys := []
  tables := .empty
  pending := []
  point := .idle
  staged := []
  discarded := []

def unstage (s : CollectorState Digest) (submission : Submission) : CollectorState Digest :=
  { s with staging := s.staging.filter (·.uuid ≠ submission.uuid) }

/-- `quarantine_staged_submission`: nothing happens where the directory is not staged any more. -/
def quarantine (s : CollectorState Digest) (submission : Submission) (movable : Bool) :
    CollectorState Digest :=
  if s.staging.any (·.uuid = submission.uuid) then
    if movable then { s.unstage submission with error := s.error ++ [submission] }
    else s.unstage submission
  else s

/-- The exception handler of the loop over submissions. -/
def fail (s : CollectorState Digest) (submission : Submission) (movable : Bool) :
    CollectorState Digest :=
  { s.quarantine submission movable with point := .idle }

/-- The next effect of `process_submission` is carried out. -/
def proceed (settings : CollectorSettings Digest) (s : CollectorState Digest) :
    CollectorState Digest :=
  match s.point with
  | .idle => s
  | .checking submission =>
    match submission.dedupKey with
    | none => { s with point := .moving submission }
    | some key =>
      if settings.sha256Str key ∈ s.persistentKeys then
        -- `discard_staged_submission`
        { s.unstage submission with
          discarded := s.discarded ++ [submission]
          point := .idle }
      else { s with point := .marking submission key }
  | .marking submission key =>
    { s with
      persistentKeys := s.persistentKeys ++ [settings.sha256Str key]
      point := .moving submission }
  | .moving submission =>
    -- `RootAnalysis.move` raises where the destination exists
    if s.incoming.any (·.uuid = submission.uuid) then s.fail submission true
    else
      { s.unstage submission with
        incoming := s.incoming ++ [submission]
        point := .inserting submission }
  | .inserting submission =>
    let (tables, workId) := s.tables.insertWorkload ⟨submission.analysisMode, submission.uuid⟩
    { s with
      tables := tables
      point := .assigning submission workId
        (settings.remoteNodeGroups.determineTargetGroups submission) }
  | .assigning _ _ [] => { s with point := .idle }
  | .assigning submission workId (group :: remaining) =>
    match s.tables.assignWorkToGroup workId group.groupId with
    | none => s.fail submission true
    | some tables => { s with tables := tables, point := .assigning submission workId remaining }

/-- One step of a collector. What cannot be next changes nothing. -/
def step (settings : CollectorSettings Digest) (s : CollectorState Digest) :
    CollectorEvent Digest → CollectorState Digest
  | .stage submission =>
    if s.staged.any (·.uuid = submission.uuid) then s
    else
      { s with
        staging := s.staging ++ [submission]
        staged := s.staged ++ [submission] }
  | .list uuids =>
    match s.point, s.pending with
    | .idle, [] =>
      { s with pending := uuids.filter fun uuid => s.staging.any (·.uuid = uuid) }
    | _, _ => s
  | .load readable movable =>
    match s.point, s.pending with
    | .idle, uuid :: pending =>
      let s := { s with pending := pending }
      match s.staging.find? (·.uuid = uuid) with
      | none => s
      | some submission =>
        if readable then { s with point := .checking submission }
        else s.quarantine submission movable
    | _, _ => s
  | .proceed .done => s.proceed settings
  | .proceed (.raised movable) =>
    match s.point.submission? with
    | none => s
    | some submission => s.fail submission movable
  | .stop => if s.point = .idle then { s with pending := [] } else s
  | .crash => { s with point := .idle, pending := [] }
  | .clearExpired expired =>
    { s with persistentKeys := s.persistentKeys.filter (· ∉ expired) }

end CollectorState

end Ace3.Collectors
