import Ace3.Database.Locking

/-!
# Workers, Keepalives and Recovery

Who issues the statements of the lock table, and in which order: the main thread and the
keepalive thread of each worker (`saq/engine/worker.py`, `saq/engine/lock_manager/distributed.py`)
and the calls of `recover_lost_root` (`saq/engine/recovery.py`). An event is one atomic
statement, the passing of time, or the death of a worker; a list of events is an interleaving. An
event whose party is not at that point changes nothing.
-/

namespace Ace3.Engine

open Database

/-! ## §1 The parties -/

inductive MainThread where
  | idle
  /-- Inside `acquire_lock`, called while looking for a work target. -/
  | acquiring (uuid : RootUuid) (stage : Locks.AcquireStage)
  /-- `acquire_lock` returned `True`; the lock is released when the work target is cleared. -/
  | holds (uuid : RootUuid)
  /-- Inside `_handle_failed_analysis`, after `get_lock_uuid` returned. -/
  | failedAnalysis (uuid : RootUuid) (observed : Option LockUuid)
  deriving DecidableEq

inductive KeepaliveThread where
  | stopped
  /-- Inside the `acquire_lock` of `start_keepalive`. -/
  | starting (stage : Locks.AcquireStage)
  | waiting
  /-- Inside the `acquire_lock` of a tick. -/
  | ticking (stage : Locks.AcquireStage)
  /-- `on_lock_lost` has been called and the loop has ended. -/
  | lockLost
  deriving DecidableEq

structure Worker where
  main : MainThread
  keepalive : KeepaliveThread
  deriving DecidableEq

/-- Where one call of `recover_lost_root` is. -/
inductive Recovery where
  | notCalled
  | acquiring (uuid : RootUuid) (stage : Locks.AcquireStage)
  | reclaimed (uuid : RootUuid)
  | returned
  deriving DecidableEq

/-- The database and all parties. A worker process that has died is `none`; the process that
replaces it belongs to another worker object with a lock uuid of its own. -/
structure Cluster where
  now : Nat
  locks : Locks
  workers : Nat → Option Worker
  recoveries : Nat → Recovery

namespace Cluster

def init : Cluster where
  now := 0
  locks := fun _ => none
  workers := fun _ => some ⟨.idle, .stopped⟩
  recoveries := fun _ => .notCalled

def owner (s : Cluster) (uuid : RootUuid) : Option LockUuid :=
  s.locks.getLockUuid uuid

/-- A live worker that has acquired the lock of a root and not released it since. -/
def Holds (s : Cluster) (w : Nat) (uuid : RootUuid) : Prop :=
  ∃ keepalive, s.workers w = some ⟨.holds uuid, keepalive⟩

def setWorker (s : Cluster) (w : Nat) (worker : Option Worker) : Cluster :=
  { s with workers := Function.update s.workers w worker }

def setRecovery (s : Cluster) (call : Nat) (recovery : Recovery) : Cluster :=
  { s with recoveries := Function.update s.recoveries call recovery }

def setLocks (s : Cluster) (locks : Locks) : Cluster :=
  { s with locks := locks }

/-! ## §2 What a statement of `acquire_lock` does for its caller -/

/-- One statement of an `acquire_lock` on behalf of a worker, with what becomes of the worker
when the call goes on, returns `True` or returns `False`. -/
def acquireAs (timeout : Nat) (s : Cluster) (w : Nat) (uuid : RootUuid) (stage : Locks.AcquireStage)
    (goesOn : Locks.AcquireStage → Worker) (acquired failed : Worker) : Cluster :=
  match s.locks.acquireLock timeout s.now uuid (.worker w) false stage with
  | (locks, .next stage) => (s.setLocks locks).setWorker w (some (goesOn stage))
  | (locks, .returned true) => (s.setLocks locks).setWorker w (some acquired)
  | (locks, .returned false) => (s.setLocks locks).setWorker w (some failed)

/-- The `acquire_lock` with which a worker looks for work. -/
def acquireMain (timeout : Nat) (s : Cluster) (w : Nat) (keepalive : KeepaliveThread)
    (uuid : RootUuid) (stage : Locks.AcquireStage) : Cluster :=
  s.acquireAs timeout w uuid stage (fun stage => ⟨.acquiring uuid stage, keepalive⟩)
    ⟨.holds uuid, keepalive⟩ ⟨.idle, keepalive⟩

/-- The `acquire_lock` of `start_keepalive`. When it fails, `execute` returns and the worker
looks for other work. -/
def acquireStart (timeout : Nat) (s : Cluster) (w : Nat) (uuid : RootUuid)
    (stage : Locks.AcquireStage) : Cluster :=
  s.acquireAs timeout w uuid stage (fun stage => ⟨.holds uuid, .starting stage⟩)
    ⟨.holds uuid, .waiting⟩ ⟨.idle, .stopped⟩

/-- The `acquire_lock` of a keepalive tick. When it fails, `on_lock_lost` is called and the
loop ends. -/
def acquireTick (timeout : Nat) (s : Cluster) (w : Nat) (uuid : RootUuid)
    (stage : Locks.AcquireStage) : Cluster :=
  s.acquireAs timeout w uuid stage (fun stage => ⟨.holds uuid, .ticking stage⟩)
    ⟨.holds uuid, .waiting⟩ ⟨.holds uuid, .lockLost⟩

/-- One statement of the `acquire_lock` of `recover_lost_root`. -/
def acquireRecovery (timeout : Nat) (s : Cluster) (call : Nat) (uuid : RootUuid)
    (stage : Locks.AcquireStage) : Cluster :=
  match s.locks.acquireLock timeout s.now uuid (.recovery call) true stage with
  | (locks, .next stage) => (s.setLocks locks).setRecovery call (.acquiring uuid stage)
  | (locks, .returned true) => (s.setLocks locks).setRecovery call (.reclaimed uuid)
  | (locks, .returned false) => (s.setLocks locks).setRecovery call .returned

end Cluster

/-! ## §3 Events -/

inductive Event where
  | advance (seconds : Nat)
  | die (w : Nat)
  /-- The first statement of `acquire_lock`, and each later one. -/
  | acquire (w : Nat) (uuid : RootUuid)
  | resumeAcquire (w : Nat)
  /-- The first statement of `start_keepalive`, that of a tick, and each later one of both. -/
  | startKeepalive (w : Nat)
  | tick (w : Nat)
  | resumeKeepalive (w : Nat)
  /-- `stop_keepalive`, which waits for a tick under way, and then `release_lock`. -/
  | release (w : Nat)
  /-- The two statements of `_handle_failed_analysis`. -/
  | readFailed (w : Nat) (uuid : RootUuid)
  | forceRelease (w : Nat)
  /-- The statements of `recover_lost_root`. -/
  | recover (call : Nat) (uuid : RootUuid)
  | resumeRecover (call : Nat)
  | releaseRecovered (call : Nat)
  deriving DecidableEq

/-- The lock uuid on whose behalf the lock table is changed. -/
def Event.requester : Event → Option LockUuid
  | .acquire w _ | .resumeAcquire w | .startKeepalive w | .tick w | .resumeKeepalive w
  | .release w => some (.worker w)
  | .recover call _ | .resumeRecover call | .releaseRecovered call => some (.recovery call)
  | .advance _ | .die _ | .readFailed _ _ | .forceRelease _ => none

/-- The worker whose program, or whose death, the event is. -/
def Event.worker : Event → Option Nat
  | .die w | .acquire w _ | .resumeAcquire w | .startKeepalive w | .tick w | .resumeKeepalive w
  | .release w | .readFailed w _ | .forceRelease w => some w
  | .advance _ | .recover _ _ | .resumeRecover _ | .releaseRecovered _ => none

namespace Cluster

def step (timeout : Nat) (s : Cluster) : Event → Cluster
  | .advance seconds => { s with now := s.now + seconds }
  | .die w => s.setWorker w none
  | .acquire w uuid =>
    match s.workers w with
    | some ⟨.idle, keepalive⟩ => s.acquireMain timeout w keepalive uuid .insert
    | _ => s
  | .resumeAcquire w =>
    match s.workers w with
    | some ⟨.acquiring uuid stage, keepalive⟩ => s.acquireMain timeout w keepalive uuid stage
    | _ => s
  | .startKeepalive w =>
    match s.workers w with
    | some ⟨.holds uuid, .stopped⟩ => s.acquireStart timeout w uuid .insert
    | _ => s
  | .tick w =>
    match s.workers w with
    | some ⟨.holds uuid, .waiting⟩ => s.acquireTick timeout w uuid .insert
    | _ => s
  | .resumeKeepalive w =>
    match s.workers w with
    | some ⟨.holds uuid, .starting stage⟩ => s.acquireStart timeout w uuid stage
    | some ⟨.holds uuid, .ticking stage⟩ => s.acquireTick timeout w uuid stage
    | _ => s
  | .release w =>
    match s.workers w with
    | some ⟨.holds uuid, .stopped⟩ | some ⟨.holds uuid, .waiting⟩
    | some ⟨.holds uuid, .lockLost⟩ =>
      (s.setLocks (s.locks.releaseLock uuid (.worker w))).setWorker w (some ⟨.idle, .stopped⟩)
    | _ => s
  | .readFailed w uuid =>
    match s.workers w with
    | some ⟨.idle, keepalive⟩ =>
      s.setWorker w (some ⟨.failedAnalysis uuid (s.locks.getLockUuid uuid), keepalive⟩)
    | _ => s
  | .forceRelease w =>
    match s.workers w with
    | some ⟨.failedAnalysis uuid observed, keepalive⟩ =>
      (s.setLocks (s.locks.forceReleaseLock uuid observed)).setWorker w (some ⟨.idle, keepalive⟩)
    | _ => s
  | .recover call uuid =>
    match s.recoveries call with
    | .notCalled => s.acquireRecovery timeout call uuid .insert
    | _ => s
  | .resumeRecover call =>
    match s.recoveries call with
    | .acquiring uuid stage => s.acquireRecovery timeout call uuid stage
    | _ => s
  | .releaseRecovered call =>
    match s.recoveries call with
    | .reclaimed uuid =>
      (s.setLocks (s.locks.releaseLock uuid (.recovery call))).setRecovery call .returned
    | _ => s

/-! ## §4 What the statements can change -/

/-- The events that find their party at that point of its program, each with its effect. -/
inductive Fires (timeout : Nat) (s : Cluster) : Event → Cluster → Prop where
  | advance {seconds : Nat} : Fires timeout s (.advance seconds) { s with now := s.now + seconds }
  | die {w : Nat} : Fires timeout s (.die w) (s.setWorker w none)
  | acquire {w : Nat} {uuid : RootUuid} {keepalive : KeepaliveThread}
      (h : s.workers w = some ⟨.idle, keepalive⟩) :
      Fires timeout s (.acquire w uuid) (s.acquireMain timeout w keepalive uuid .insert)
  | resumeAcquire {w : Nat} {uuid : RootUuid} {stage : Locks.AcquireStage}
      {keepalive : KeepaliveThread} (h : s.workers w = some ⟨.acquiring uuid stage, keepalive⟩) :
      Fires timeout s (.resumeAcquire w) (s.acquireMain timeout w keepalive uuid stage)
  | startKeepalive {w : Nat} {uuid : RootUuid} (h : s.workers w = some ⟨.holds uuid, .stopped⟩) :
      Fires timeout s (.startKeepalive w) (s.acquireStart timeout w uuid .insert)
  | resumeStart {w : Nat} {uuid : RootUuid} {stage : Locks.AcquireStage}
      (h : s.workers w = some ⟨.holds uuid, .starting stage⟩) :
      Fires timeout s (.resumeKeepalive w) (s.acquireStart timeout w uuid stage)
  | tick {w : Nat} {uuid : RootUuid} (h : s.workers w = some ⟨.holds uuid, .waiting⟩) :
      Fires timeout s (.tick w) (s.acquireTick timeout w uuid .insert)
  | resumeTick {w : Nat} {uuid : RootUuid} {stage : Locks.AcquireStage}
      (h : s.workers w = some ⟨.holds uuid, .ticking stage⟩) :
      Fires timeout s (.resumeKeepalive w) (s.acquireTick timeout w uuid stage)
  | release {w : Nat} {uuid : RootUuid} {keepalive : KeepaliveThread}
      (h : s.workers w = some ⟨.holds uuid, keepalive⟩) :
      Fires timeout s (.release w)
        ((s.setLocks (s.locks.releaseLock uuid (.worker w))).setWorker w (some ⟨.idle, .stopped⟩))
  | readFailed {w : Nat} {uuid : RootUuid} {keepalive : KeepaliveThread}
      (h : s.workers w = some ⟨.idle, keepalive⟩) :
      Fires timeout s (.readFailed w uuid)
        (s.setWorker w (some ⟨.failedAnalysis uuid (s.locks.getLockUuid uuid), keepalive⟩))
  | forceRelease {w : Nat} {uuid : RootUuid} {observed : Option LockUuid}
      {keepalive : KeepaliveThread}
      (h : s.workers w = some ⟨.failedAnalysis uuid observed, keepalive⟩) :
      Fires timeout s (.forceRelease w)
        ((s.setLocks (s.locks.forceReleaseLock uuid observed)).setWorker w
          (some ⟨.idle, keepalive⟩))
  | recover {call : Nat} {uuid : RootUuid} (h : s.recoveries call = .notCalled) :
      Fires timeout s (.recover call uuid) (s.acquireRecovery timeout call uuid .insert)
  | resumeRecover {call : Nat} {uuid : RootUuid} {stage : Locks.AcquireStage}
      (h : s.recoveries call = .acquiring uuid stage) :
      Fires timeout s (.resumeRecover call) (s.acquireRecovery timeout call uuid stage)
  | releaseRecovered {call : Nat} {uuid : RootUuid} (h : s.recoveries call = .reclaimed uuid) :
      Fires timeout s (.releaseRecovered call)
        ((s.setLocks (s.locks.releaseLock uuid (.recovery call))).setRecovery call .returned)

theorem step_cases (timeout : Nat) (s : Cluster) (e : Event) :
    s.step timeout e = s ∨ Fires timeout s e (s.step timeout e) := by
  cases e with
  | advance seconds => exact .inr .advance
  | die w => exact .inr .die
  | acquire w uuid =>
    simp only [step]
    split
    next h => exact .inr (.acquire h)
    next => exact .inl rfl
  | resumeAcquire w =>
    simp only [step]
    split
    next h => exact .inr (.resumeAcquire h)
    next => exact .inl rfl
  | startKeepalive w =>
    simp only [step]
    split
    next h => exact .inr (.startKeepalive h)
    next => exact .inl rfl
  | tick w =>
    simp only [step]
    split
    next h => exact .inr (.tick h)
    next => exact .inl rfl
  | resumeKeepalive w =>
    simp only [step]
    split
    next h => exact .inr (.resumeStart h)
    next h => exact .inr (.resumeTick h)
    next => exact .inl rfl
  | release w =>
    simp only [step]
    split
    next h => exact .inr (.release h)
    next h => exact .inr (.release h)
    next h => exact .inr (.release h)
    next => exact .inl rfl
  | readFailed w uuid =>
    simp only [step]
    split
    next h => exact .inr (.readFailed h)
    next => exact .inl rfl
  | forceRelease w =>
    simp only [step]
    split
    next h => exact .inr (.forceRelease h)
    next => exact .inl rfl
  | recover call uuid =>
    simp only [step]
    split
    next h => exact .inr (.recover h)
    next => exact .inl rfl
  | resumeRecover call =>
    simp only [step]
    split
    next h => exact .inr (.resumeRecover h)
    next => exact .inl rfl
  | releaseRecovered call =>
    simp only [step]
    split
    next h => exact .inr (.releaseRecovered h)
    next => exact .inl rfl

section Change

variable {timeout : Nat} {s : Cluster}

@[simp] theorem owner_setWorker (w : Nat) (worker : Option Worker) (uuid : RootUuid) :
    (s.setWorker w worker).owner uuid = s.owner uuid := rfl

@[simp] theorem owner_setLocks (locks : Locks) (uuid : RootUuid) :
    (s.setLocks locks).owner uuid = locks.getLockUuid uuid := rfl

@[simp] theorem setWorker_workers_self (w : Nat) (worker : Option Worker) :
    (s.setWorker w worker).workers w = worker := Function.update_self ..

theorem setWorker_workers_of_ne {w w' : Nat} (h : w' ≠ w) (worker : Option Worker) :
    (s.setWorker w worker).workers w' = s.workers w' := Function.update_of_ne h ..

/-- What one statement of a worker's `acquire_lock` does: it inserts the row that was missing
and returns `True`; or no lock changes its holder, and the call goes on or returns whether the
caller is the holder. -/
theorem acquireAs_cases (w : Nat) (uuid : RootUuid) (stage : Locks.AcquireStage)
    (goesOn : Locks.AcquireStage → Worker) (acquired failed : Worker) :
    (stage = .insert ∧ s.locks uuid = none ∧
      s.acquireAs timeout w uuid stage goesOn acquired failed =
        (s.setLocks (Function.update s.locks uuid (some ⟨.worker w, s.now⟩))).setWorker w
          (some acquired)) ∨
    ∃ locks worker, s.acquireAs timeout w uuid stage goesOn acquired failed =
        (s.setLocks locks).setWorker w (some worker) ∧
      (∀ uuid', locks.getLockUuid uuid' = s.owner uuid') ∧
      ((∃ stage', stage' ≠ .insert ∧ worker = goesOn stage') ∨
        s.owner uuid = some (.worker w) ∧ worker = acquired ∨
        s.owner uuid ≠ some (.worker w) ∧ worker = failed) := by
  have hacquires := s.locks.acquires_acquireLock timeout s.now uuid (.worker w) stage
  unfold acquireAs
  generalize s.locks.acquireLock timeout s.now uuid (.worker w) false stage = result at hacquires ⊢
  cases hacquires with
  | inserted hfree => exact .inl ⟨rfl, hfree, rfl⟩
  | goesOn hstage howner => exact .inr ⟨_, _, rfl, howner, .inl ⟨_, hstage, rfl⟩⟩
  | verified hown => exact .inr ⟨_, _, rfl, fun _ => rfl, .inr (.inl ⟨hown, rfl⟩)⟩
  | failed hown => exact .inr ⟨_, _, rfl, fun _ => rfl, .inr (.inr ⟨hown, rfl⟩)⟩

/-- What one statement of `recover_lost_root`'s `acquire_lock` does: it inserts the row that was
missing, takes an expired one over or renews its own, or changes no lock. -/
theorem acquireRecovery_cases (call : Nat) (uuid : RootUuid) (stage : Locks.AcquireStage) :
    ∃ locks recovery, s.acquireRecovery timeout call uuid stage =
        (s.setLocks locks).setRecovery call recovery ∧
      (locks = s.locks ∨
        locks = Function.update s.locks uuid (some ⟨.recovery call, s.now⟩) ∧
          (s.locks uuid = none ∨ ∃ row, s.locks uuid = some row ∧
            (row.lockUuid = .recovery call ∨ row.expired timeout s.now))) := by
  cases stage with
  | insert =>
    cases hrow : s.locks uuid with
    | none =>
      refine ⟨_, .reclaimed uuid, ?_, .inr ⟨rfl, .inl rfl⟩⟩
      simp only [acquireRecovery, Locks.acquireLock, Locks.insert, hrow]
    | some row =>
      refine ⟨s.locks, .acquiring uuid .update, ?_, .inl rfl⟩
      simp only [acquireRecovery, Locks.acquireLock, Locks.insert, hrow]
  | update =>
    refine ⟨_, .acquiring uuid .verify, rfl, ?_⟩
    unfold Locks.update
    cases hrow : s.locks uuid with
    | none => exact .inl rfl
    | some row =>
      simp only [true_and]
      split
      next h => exact .inr ⟨rfl, .inr ⟨row, rfl, h⟩⟩
      next => exact .inl rfl
  | verify =>
    by_cases hown : s.owner uuid = some (.recovery call)
    · refine ⟨s.locks, .reclaimed uuid, ?_, .inl rfl⟩
      simp only [acquireRecovery, Locks.acquireLock, show s.locks.getLockUuid uuid = _ from hown,
        decide_true]
    · refine ⟨s.locks, .returned, ?_, .inl rfl⟩
      have hown' : s.locks.getLockUuid uuid ≠ some (.recovery call) := hown
      simp only [acquireRecovery, Locks.acquireLock, hown', decide_false]

/-- The ways in which the holder of a lock can change in one event. -/
inductive OwnerChange (timeout : Nat) (s : Cluster) (e : Event) (uuid : RootUuid) : Prop where
  | unchanged (h : (s.step timeout e).owner uuid = s.owner uuid)
  | inserted (lockUuid : LockUuid) (hfree : s.owner uuid = none)
      (hrequester : e.requester = some lockUuid)
      (h : (s.step timeout e).owner uuid = some lockUuid)
      (hholds : ∀ w, lockUuid = .worker w → (s.step timeout e).Holds w uuid)
  | takenOver (call : Nat) (row : LockRow) (hrow : s.locks uuid = some row)
      (hexpired : row.expired timeout s.now)
      (h : (s.step timeout e).owner uuid = some (.recovery call))
  | released (lockUuid : LockUuid) (hown : s.owner uuid = some lockUuid)
      (hrelease : ∀ w, lockUuid = .worker w → e = .release w)
      (h : (s.step timeout e).owner uuid = none)
  | forceReleased (w : Nat) (keepalive : KeepaliveThread) (observed : Option LockUuid)
      (hevent : e = .forceRelease w)
      (hworker : s.workers w = some ⟨.failedAnalysis uuid observed, keepalive⟩)
      (hmatch : observed = none ∨ observed = s.owner uuid)
      (h : (s.step timeout e).owner uuid = none)

variable {e : Event} {root : RootUuid}

/-- A worker's `acquire_lock` changes the holder of no lock but the missing one it inserts. -/
theorem OwnerChange.of_acquireAs {w : Nat} {stage : Locks.AcquireStage}
    {goesOn : Locks.AcquireStage → Worker} {keepalive : KeepaliveThread} {failed : Worker}
    (hstep : s.step timeout e =
      s.acquireAs timeout w root stage goesOn ⟨.holds root, keepalive⟩ failed)
    (hrequester : e.requester = some (.worker w)) (uuid : RootUuid) :
    OwnerChange timeout s e uuid := by
  rcases s.acquireAs_cases w root stage goesOn ⟨.holds root, keepalive⟩ failed with
    ⟨-, hfree, hinsert⟩ | ⟨locks, worker, hlocks, howner, -⟩
  · rw [hinsert] at hstep
    by_cases huuid : uuid = root
    · subst huuid
      refine .inserted (.worker w) (Locks.getLockUuid_eq_none_iff.mpr hfree) hrequester ?_ ?_
      · rw [hstep, owner_setWorker, owner_setLocks, Locks.getLockUuid_update_self]
        rfl
      · rintro w' ⟨⟩
        exact ⟨keepalive, by rw [hstep, setWorker_workers_self]⟩
    · refine .unchanged ?_
      rw [hstep, owner_setWorker, owner_setLocks, Locks.getLockUuid_update_of_ne huuid]
      rfl
  · refine .unchanged ?_
    rw [hstep, hlocks, owner_setWorker, owner_setLocks, howner]

theorem OwnerChange.of_acquireRecovery {call : Nat} {stage : Locks.AcquireStage}
    (hstep : s.step timeout e = s.acquireRecovery timeout call root stage)
    (hrequester : e.requester = some (.recovery call)) (uuid : RootUuid) :
    OwnerChange timeout s e uuid := by
  obtain ⟨locks, recovery, hlocks, hcases⟩ := s.acquireRecovery_cases call root stage
  rw [hlocks] at hstep
  have howner : (s.step timeout e).owner uuid = locks.getLockUuid uuid := by rw [hstep]; rfl
  rcases hcases with rfl | ⟨rfl, hrow⟩
  · exact .unchanged howner
  · by_cases huuid : uuid = root
    · subst huuid
      rw [Locks.getLockUuid_update_self] at howner
      rcases hrow with hfree | ⟨row, hrow, hown | hexpired⟩
      · exact .inserted (.recovery call) (Locks.getLockUuid_eq_none_iff.mpr hfree) hrequester
          howner fun w h => by cases h
      · -- renewing its own lock leaves the holder as it was
        refine .unchanged (howner.trans ?_)
        simp [owner, Locks.getLockUuid, hrow, hown]
      · exact .takenOver call row hrow hexpired howner
    · exact .unchanged (howner.trans (Locks.getLockUuid_update_of_ne huuid _))

theorem OwnerChange.of_releaseLock {lockUuid : LockUuid}
    (howner : ∀ uuid, (s.step timeout e).owner uuid =
      (s.locks.releaseLock root lockUuid).getLockUuid uuid)
    (hrelease : ∀ w, lockUuid = .worker w → e = .release w) (uuid : RootUuid) :
    OwnerChange timeout s e uuid := by
  have h := howner uuid
  rw [Locks.getLockUuid_releaseLock] at h
  split at h
  next hown => exact .released lockUuid (hown.1 ▸ hown.2) hrelease h
  next => exact .unchanged h

theorem ownerChange_step (timeout : Nat) (s : Cluster) (e : Event) (uuid : RootUuid) :
    OwnerChange timeout s e uuid := by
  rcases s.step_cases timeout e with hidle | hfires
  · exact .unchanged (by rw [hidle])
  generalize hs' : s.step timeout e = s' at hfires
  cases hfires with
  | advance | die | readFailed => exact .unchanged (by rw [hs']; rfl)
  | acquire | resumeAcquire | startKeepalive | resumeStart | tick | resumeTick =>
    exact .of_acquireAs hs' rfl uuid
  | release => exact .of_releaseLock (fun _ => by rw [hs']; rfl) (by rintro _ ⟨⟩; rfl) uuid
  | recover | resumeRecover => exact .of_acquireRecovery hs' rfl uuid
  | releaseRecovered => exact .of_releaseLock (fun _ => by rw [hs']; rfl) (by rintro _ ⟨⟩) uuid
  | @forceRelease w root observed keepalive hworker =>
    by_cases huuid : uuid = root
    · subst huuid
      cases observed with
      | none =>
        refine .forceReleased w keepalive none rfl hworker (.inl rfl) ?_
        rw [hs', owner_setWorker, owner_setLocks, Locks.forceReleaseLock,
          Locks.getLockUuid_update_self]
        rfl
      | some lockUuid =>
        have howner : (s.step timeout (.forceRelease w)).owner uuid =
            (s.locks.releaseLock uuid lockUuid).getLockUuid uuid := by rw [hs']; rfl
        rw [Locks.getLockUuid_releaseLock] at howner
        split at howner
        next hown =>
          exact .forceReleased w keepalive (some lockUuid) rfl hworker (.inr hown.2.symm) howner
        next => exact .unchanged howner
    · refine .unchanged ?_
      rw [hs', owner_setWorker, owner_setLocks]
      cases observed with
      | none => exact Locks.getLockUuid_update_of_ne huuid none
      | some lockUuid =>
        rw [Locks.forceReleaseLock, Locks.getLockUuid_releaseLock, if_neg fun h => huuid h.1]
        rfl

/-! ## §5 What an event leaves as it is -/

theorem acquireAs_eq (timeout w : Nat) (uuid : RootUuid) (stage : Locks.AcquireStage)
    (goesOn : Locks.AcquireStage → Worker) (acquired failed : Worker) :
    ∃ worker, s.acquireAs timeout w uuid stage goesOn acquired failed =
      (s.setLocks (s.locks.acquireLock timeout s.now uuid (.worker w) false stage).1).setWorker w
        (some worker) := by
  unfold acquireAs
  split <;> rename_i h <;> rw [h] <;> exact ⟨_, rfl⟩

theorem acquireRecovery_eq (timeout call : Nat) (uuid : RootUuid) (stage : Locks.AcquireStage) :
    ∃ recovery, s.acquireRecovery timeout call uuid stage =
      (s.setLocks (s.locks.acquireLock timeout s.now uuid (.recovery call) true stage).1).setRecovery
        call recovery := by
  unfold acquireRecovery
  split <;> rename_i h <;> rw [h] <;> exact ⟨_, rfl⟩

theorem acquireRecovery_workers (call : Nat) (uuid : RootUuid) (stage : Locks.AcquireStage) :
    (s.acquireRecovery timeout call uuid stage).workers = s.workers := by
  obtain ⟨recovery, heq⟩ := s.acquireRecovery_eq timeout call uuid stage
  rw [heq]
  rfl

/-- The rows of a table that are not old rows were written at the current time. -/
def RowsFrom (s : Cluster) (locks : Locks) : Prop :=
  ∀ uuid row, locks uuid = some row → s.locks uuid = some row ∨ row.lockTime = s.now

/-- An event lets time pass, or changes rows and the state of a single party. -/
inductive Shape (s : Cluster) (e : Event) : Cluster → Prop where
  | advance (seconds : Nat) (hevent : e = .advance seconds) :
      Shape s e { s with now := s.now + seconds }
  | worker (locks : Locks) (w : Nat) (worker : Option Worker) (hrows : s.RowsFrom locks)
      (halive : worker.isSome → (s.workers w).isSome) :
      Shape s e ((s.setLocks locks).setWorker w worker)
  | recovery (locks : Locks) (call : Nat) (recovery : Recovery) (hrows : s.RowsFrom locks) :
      Shape s e ((s.setLocks locks).setRecovery call recovery)

theorem shape_acquireAs {w : Nat} (hw : (s.workers w).isSome) (uuid : RootUuid)
    (stage : Locks.AcquireStage) (goesOn : Locks.AcquireStage → Worker) (acquired failed : Worker) :
    Shape s e (s.acquireAs timeout w uuid stage goesOn acquired failed) := by
  obtain ⟨worker, heq⟩ := s.acquireAs_eq timeout w uuid stage goesOn acquired failed
  rw [heq]
  exact .worker _ w (some worker) (fun _ _ => Locks.acquireLock_row) fun _ => hw

theorem shape_acquireRecovery (call : Nat) (uuid : RootUuid) (stage : Locks.AcquireStage) :
    Shape s e (s.acquireRecovery timeout call uuid stage) := by
  obtain ⟨recovery, heq⟩ := s.acquireRecovery_eq timeout call uuid stage
  rw [heq]
  exact .recovery _ call recovery fun _ _ => Locks.acquireLock_row

theorem shape_of_fires {s' : Cluster} (hfires : Fires timeout s e s') :
    Shape s e s' := by
  cases hfires with
  | advance => exact .advance _ rfl
  | die => exact .worker s.locks _ none (fun _ _ => .inl) nofun
  | acquire h | resumeAcquire h | startKeepalive h | resumeStart h | tick h | resumeTick h =>
    exact shape_acquireAs (by rw [h]; rfl) ..
  | release h =>
    exact .worker _ _ _ (fun _ _ hrow => .inl (Locks.releaseLock_row hrow))
      fun _ => by rw [h]; rfl
  | readFailed h => exact .worker s.locks _ _ (fun _ _ => .inl) fun _ => by rw [h]; rfl
  | forceRelease h =>
    exact .worker _ _ _ (fun _ _ hrow => .inl (Locks.forceReleaseLock_row hrow))
      fun _ => by rw [h]; rfl
  | recover | resumeRecover => exact shape_acquireRecovery ..
  | releaseRecovered =>
    exact .recovery _ _ _ fun _ _ hrow => .inl (Locks.releaseLock_row hrow)

theorem isSome_of_shape {s' : Cluster} (hshape : Shape s e s') {w : Nat} (h : (s'.workers w).isSome) :
    (s.workers w).isSome := by
  cases hshape with
  | advance | recovery => exact h
  | worker locks w' worker _ halive =>
    by_cases hw : w = w'
    · subst hw
      rw [setWorker_workers_self] at h
      exact halive h
    · rwa [setWorker_workers_of_ne hw] at h

end Change

end Cluster

end Ace3.Engine
