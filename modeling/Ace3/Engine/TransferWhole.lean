import Ace3.Engine.TransferWork
import Ace3.Database.RetryWholeness
import Mathlib.Tactic.SplitIfs

/-!
# When Transfers Are All or Nothing

After a transfer that fails somewhere the rows of the root should name one node and directory with a
complete copy, the lock should be free, and nothing should be in the way of the next attempt.
-/

namespace Ace3.Engine

open List
open Database

/-! ## §1 All or nothing -/

def RootRows.Name (rows : RootRows) (node : NodeKey) (storageDir : String) : Prop :=
  (∀ place ∈ rows.workload, place = ⟨node.id, storageDir⟩) ∧
    (∀ place ∈ rows.delayedAnalysis, place = ⟨node.id, storageDir⟩) ∧
    ∀ place ∈ rows.alerts, place = ⟨node.name, storageDir⟩

namespace TransferSetting

variable (setting : TransferSetting) (o : TransferOutcomes) (w : TransferWorld)

def copyAt (node : NodeKey) (storageDir : String) : Option Copy :=
  if node = setting.here ∧ storageDir = setting.targetDir then w.target
  else if node = setting.remote ∧ storageDir = setting.remoteDir then w.remote
  else none

/-- The workload of the root is on the remote node, with a complete copy. -/
structure Queued : Prop where
  name : w.rows.Name setting.remote setting.remoteDir
  workload : w.rows.workload ≠ []
  remote : w.remote = some .complete

structure AllOrNothing (before after : TransferWorld) (returned : Bool) : Prop where
  /-- The rows all name one node and directory, which holds a complete copy. -/
  copy : ∃ node storageDir, after.rows.Name node storageDir ∧
    setting.copyAt after node storageDir = some .complete
  lock : after.lock = some setting.lockUuid → returned
  /-- A target directory that was not there is not in the way of the next transfer. -/
  retry : after.rows.Name setting.remote setting.remoteDir → before.target = none →
    after.target = none

end TransferSetting

inductive TransferPoint where
  | refused
  /-- The process dies before the target directory is there. -/
  | diedEarly
  /-- The target directory is there already, or cannot be created. -/
  | noDirectory
  | unknownNode
  /-- Something raises after the directory was created and before the rows are committed. -/
  | failedBefore
  | diedBefore
  /-- Something raises after the rows were committed. -/
  | failedAfter
  | diedAfter
  | finished
  deriving DecidableEq

namespace TransferSetting

variable (setting : TransferSetting) (o : TransferOutcomes) (w : TransferWorld)

def pointAfter : TransferPoint :=
  match o.load, o.save, o.clear with
  | .raises, _, _ | .ok, .raises, _ => .failedAfter
  | .dies, _, _ | .ok, .dies, _ | .ok, .ok, .dies _ => .diedAfter
  | .ok, .ok, _ => .finished

def pointUpdating : TransferPoint :=
  if o.diesUpdating then .diedBefore
  else if NoCallRaises (setting.updates o.updates) then
    match o.commit with
    | .ok => pointAfter o
    | .raises applied => if applied then .failedAfter else .failedBefore
    | .dies => .diedBefore
  else .failedBefore

/-- The first call of the transfer that does not go through says where it is left. -/
def point : TransferPoint :=
  if w.lock ≠ none ∧ w.lock ≠ some setting.lockUuid then
    if o.acquireLock = .dies then .diedEarly else .refused
  else
    match o.acquireLock, w.target, o.makedirs, o.lookUp, w.remoteHost, o.download with
    | .raises, _, _, _, _, _ => .refused
    | .dies, _, _, _, _, _ => .diedEarly
    | .ok, some _, _, _, _, _ | .ok, none, .raises, _, _, _ => .noDirectory
    | .ok, none, .dies, _, _, _ => .diedEarly
    | .ok, none, .ok, .raises, _, _ => .failedBefore
    | .ok, none, .ok, .dies, _, _ => .diedBefore
    | .ok, none, .ok, .ok, none, _ => .unknownNode
    | .ok, none, .ok, .ok, some _, .raises => .failedBefore
    | .ok, none, .ok, .ok, some _, .dies => .diedBefore
    | .ok, none, .ok, .ok, some _, .ok => setting.pointUpdating o

/-- An error makes the update start the transaction over. -/
def startsOver (number : Nat) : Bool :=
  (setting.updates o.updates)[number]?.any (·.rollsBack)

def MovesAll : Prop := setting.startsOver o 1 = false ∧ setting.startsOver o 2 = false

instance : Decidable (setting.MovesAll o) := inferInstanceAs (Decidable (_ ∧ _))

/-- The update of the workload is taken back, and those that stay meet no row. -/
def MovesNothing : Prop :=
  w.rows.alerts = [] ∧
    (setting.startsOver o 2 ∨ setting.startsOver o 1 ∧ w.rows.delayedAnalysis = [])

/-- One of the two releases of the lock does not raise. -/
def Unlocks : Prop := o.releaseLock ≠ .raises ∨ o.releaseAgain ≠ .raises

instance : Decidable (Unlocks o) := inferInstanceAs (Decidable (_ ∨ _))

/-- The clean-up removes the directory and releases the lock. -/
def Removes : Prop := o.rmtree = .removed ∧ Unlocks o

def Keeps : Prop := o.rmtree = .dies false ∨ o.rmtree = .raises false ∧ Unlocks o

/-- When a transfer is all or nothing, by the point where it is left. -/
def WholeWhen : Prop :=
  match setting.point o w with
  | .diedEarly => True
  | .refused => w.lock = some setting.lockUuid → o.releaseAgain ≠ .raises
  | .noDirectory => Unlocks o
  | .unknownNode | .diedBefore => False
  | .failedBefore => Removes o
  | .failedAfter => setting.MovesAll o ∧ Keeps o ∨ setting.MovesNothing o w ∧ Removes o
  | .diedAfter | .finished => setting.MovesAll o

/-! ## §2 What a transfer leaves behind -/

def created (copy : Copy) : TransferWorld :=
  { w with lock := some setting.lockUuid, target := some copy }

def committedRows (rows : RootRows) : RootRows :=
  (executeSequence RootRows.update 0 (setting.updates o.updates) ⟨rows, rows⟩).1.committed

def moved : TransferWorld :=
  { setting.created w .complete with rows := setting.committedRows o w.rows }

/-- The result of `transfer_work_target` where it is left at a point. -/
inductive Leaves : TransferPoint → TransferWorld × TransferEnd → Prop where
  | refused : Leaves .refused (w, .nothing)
  | diedEarly (lock : Option LockUuid) (hlock : lock = w.lock ∨ lock = some setting.lockUuid) :
      Leaves .diedEarly ({ w with lock }, .died)
  | noDirectory :
      Leaves .noDirectory
        (setting.giveUp { w with lock := some setting.lockUuid } o.releaseLock)
  | unknownNode (hfree : w.target = none) :
      Leaves .unknownNode (setting.giveUp (setting.created w .incomplete) o.releaseLock)
  | failedBefore (copy : Copy) (hfree : w.target = none) :
      Leaves .failedBefore (setting.cleanUp o (setting.created w copy))
  | diedBefore (copy : Copy) (hfree : w.target = none) :
      Leaves .diedBefore (setting.created w copy, .died)
  | failedAfter (hfree : w.target = none) (hupdates : NoCallRaises (setting.updates o.updates)) :
      Leaves .failedAfter (setting.cleanUp o (setting.moved o w))
  | diedAfter (remote : Option Copy) (hfree : w.target = none)
      (hupdates : NoCallRaises (setting.updates o.updates)) :
      Leaves .diedAfter ({ setting.moved o w with remote }, .died)
  | finished (remote : Option Copy) (hfree : w.target = none)
      (hupdates : NoCallRaises (setting.updates o.updates)) :
      Leaves .finished ({ setting.moved o w with remote }, .root)

variable {setting o w}

theorem leaves_loadAndSave (hfree : w.target = none)
    (hupdates : NoCallRaises (setting.updates o.updates)) :
    setting.Leaves o w (pointAfter o) (setting.loadAndSave o (setting.moved o w)) := by
  unfold pointAfter loadAndSave clearRemote
  cases o.load with
  | raises => exact .failedAfter hfree hupdates
  | dies => exact .diedAfter _ hfree hupdates
  | ok =>
    cases o.save with
    | raises => exact .failedAfter hfree hupdates
    | dies => exact .diedAfter _ hfree hupdates
    | ok =>
      cases o.clear with
      | ok => exact .finished none hfree hupdates
      | raises left => exact .finished left hfree hupdates
      | dies left => exact .diedAfter left hfree hupdates

theorem leaves_updateRows (hfree : w.target = none) :
    setting.Leaves o w (setting.pointUpdating o)
      (setting.updateRows o (setting.created w .complete)) := by
  unfold pointUpdating updateRows
  cases o.diesUpdating with
  | true => exact .diedBefore .complete hfree
  | false =>
    simp only [Bool.false_eq_true, if_false]
    have houtcome : (executeSequence RootRows.update 0 (setting.updates o.updates)
        ⟨w.rows, w.rows⟩).2 = (executeSequence (fun _ s => s) 0 (setting.updates o.updates)
          (⟨(), ()⟩ : Connection Unit)).2 :=
      executeSequence_outcome _ _ _ _
    cases hresult : executeSequence RootRows.update 0 (setting.updates o.updates)
        ⟨w.rows, w.rows⟩ with
    | mk connection outcome =>
      rw [hresult] at houtcome
      have hrows : connection.committed = setting.committedRows o w.rows := by
        rw [committedRows, hresult]
      rw [show (setting.created w .complete).rows = w.rows from rfl, hresult]
      cases outcome with
      | raised =>
        rw [if_neg (fun hupdates : NoCallRaises _ => by
          rw [NoCallRaises, ← houtcome] at hupdates
          cases hupdates)]
        exact .failedBefore .complete hfree
      | returned =>
        have hupdates : NoCallRaises (setting.updates o.updates) := houtcome.symm
        rw [if_pos hupdates]
        have hmoved : { setting.created w .complete with rows := connection.committed } =
            setting.moved o w := by
          rw [hrows]
          rfl
        simp only [hmoved]
        cases o.commit with
        | ok => exact leaves_loadAndSave hfree hupdates
        | raises applied =>
          cases applied with
          | true => exact .failedAfter hfree hupdates
          | false => exact .failedBefore .complete hfree
        | dies => exact .diedBefore .complete hfree

variable (setting o) in
theorem leaves_transferWorkTarget (hremote : w.remote = some .complete) :
    setting.Leaves o w (setting.point o w) (setting.transferWorkTarget o w) := by
  obtain ⟨lock, rows, remoteHost, target, remote⟩ := w
  obtain rfl : remote = some .complete := hremote
  unfold point transferWorkTarget
  by_cases hlock : lock = none ∨ lock = some setting.lockUuid
  · rw [if_neg (by simpa only [not_and_or, not_not] using hlock)]
    simp only [if_pos hlock]
    cases o.acquireLock with
    | raises => exact .refused
    | dies => exact .diedEarly lock (.inl rfl)
    | ok =>
      cases target with
      | some copy => exact .noDirectory
      | none =>
        -- the directory is not there yet
        simp only [ne_eq, not_true_eq_false, if_false]
        cases o.makedirs with
        | raises => exact .noDirectory
        | dies => exact .diedEarly _ (.inr rfl)
        | ok =>
          unfold lookUpRemote
          cases o.lookUp with
          | raises => exact .failedBefore .incomplete rfl
          | dies => exact .diedBefore .incomplete rfl
          | ok =>
            cases remoteHost with
            | none => exact .unknownNode rfl
            | some host =>
              simp only [downloadRoot]
              cases o.download with
              | raises => exact .failedBefore .incomplete rfl
              | dies => exact .diedBefore .incomplete rfl
              | ok => exact leaves_updateRows rfl
  · rw [if_pos (not_or.mp hlock)]
    simp only [if_neg hlock]
    cases o.acquireLock with
    | dies => exact .diedEarly lock (.inl rfl)
    | raises => exact .refused
    | ok => exact .refused

/-! ## §3 What the updates commit -/

theorem left_sql (statements : List Statement) (attempts attempt count : Nat)
    (failures : List Failure) :
    (Operation.sql statements).left attempts attempt count failures [] = [] := by
  induction failures generalizing attempt count with
  | nil => rfl
  | cons failure failures ih =>
    unfold Operation.left
    by_cases hhits : failure.hits (.sql statements) false attempt
    · rw [if_pos hhits]
      cases hverdict : verdict (.sql statements) attempts count failure with
      | retry => exact ih _ _
      | raise => rfl
      | goOn =>
        -- only functions go on after an error
        unfold verdict at hverdict
        split at hverdict
        · cases hverdict
        · split_ifs at hverdict with _ _ hcallable
          cases hcallable
    · rw [if_neg hhits]

theorem added_sql (text : String) (values : List String) (failures : List Failure) :
    let call : Call := ⟨.sql text, .tuple values, 15, failures⟩
    call.left ++ call.statements = [⟨text, values⟩] := by
  simp only [Call.left, Call.statements, Call.onOperation, Operation.ofArguments,
    Operation.ofSqls, length_singleton, if_true, map_cons, map_nil, left_sql,
    nil_append, Operation.statements]

theorem committedRows_eq (hupdates : NoCallRaises (setting.updates o.updates)) (rows : RootRows) :
    setting.committedRows o rows =
      { workload := if setting.MovesAll o then
          rows.workload.map fun _ => ⟨setting.here.id, setting.targetDir⟩ else rows.workload
        delayedAnalysis := if setting.startsOver o 2 = false then
          rows.delayedAnalysis.map fun _ => ⟨setting.here.id, setting.targetDir⟩
          else rows.delayedAnalysis
        alerts := rows.alerts.map fun _ => ⟨setting.here.name, setting.targetDir⟩ } := by
  have hcommitted : setting.committedRows o rows =
      effect RootRows.update (surviving 0 (setting.updates o.updates) []) rows :=
    executeSequence_returned _ 0 rows []
      ((executeSequence_outcome _ 0 _ (⟨(), ()⟩ : Connection Unit)).trans hupdates)
  have hsecond : setting.startsOver o 1 = Call.rollsBack ⟨.sql updateDelayedAnalysis,
      .tuple [setting.here.id, setting.targetDir, setting.uuid], 15, o.updates 1⟩ := rfl
  have hthird : setting.startsOver o 2 = Call.rollsBack ⟨.sql updateAlerts,
      .tuple [setting.here.name, setting.targetDir, setting.uuid], 15, o.updates 2⟩ := rfl
  simp only [hcommitted, MovesAll, hsecond, hthird, updates, surviving, added_sql, ite_self,
    nil_append]
  generalize Call.rollsBack _ = second
  generalize Call.rollsBack _ = third
  cases second <;> cases third <;> rfl

/-! ## §4 All or nothing -/

theorem copyAt_here : setting.copyAt w setting.here setting.targetDir = w.target :=
  if_pos ⟨rfl, rfl⟩

theorem copyAt_remote : setting.copyAt w setting.remote setting.remoteDir = w.remote := by
  rw [copyAt, if_neg fun h => setting.ids_ne (congrArg NodeKey.id h.1).symm, if_pos ⟨rfl, rfl⟩]

theorem eq_of_copyAt {node : NodeKey} {storageDir : String} {copy : Copy}
    (h : setting.copyAt w node storageDir = some copy) :
    node = setting.here ∧ w.target = some copy ∨
      node = setting.remote ∧ storageDir = setting.remoteDir := by
  unfold copyAt at h
  split_ifs at h with hhere hremote
  · exact .inl ⟨hhere.1, h⟩
  · exact .inr hremote

variable {after : TransferWorld} {returned : Bool}

/-- Where the rows stay, the lock has to be free and the target directory must not be left. -/
theorem allOrNothing_of_stays (after : TransferWorld) (hqueued : setting.Queued w)
    (hrows : after.rows = w.rows)
    (hremote : after.remote = w.remote) :
    setting.AllOrNothing w after returned ↔
      (after.lock = some setting.lockUuid → returned) ∧
        (w.target = none → after.target = none) := by
  constructor
  · intro h
    exact ⟨h.lock, h.retry (hrows ▸ hqueued.name)⟩
  · rintro ⟨hlock, htarget⟩
    refine ⟨⟨setting.remote, setting.remoteDir, hrows ▸ hqueued.name, ?_⟩, hlock, fun _ => htarget⟩
    rw [copyAt_remote, hremote, hqueued.remote]

theorem allOrNothing_of_moves (hqueued : setting.Queued w) (hmoves : setting.MovesAll o)
    (hupdates : NoCallRaises (setting.updates o.updates))
    (hrows : after.rows = setting.committedRows o w.rows) :
    setting.AllOrNothing w after returned ↔
      (after.lock = some setting.lockUuid → returned) ∧ after.target = some .complete := by
  have hname : after.rows.Name setting.here setting.targetDir := by
    rw [hrows, committedRows_eq hupdates, if_pos hmoves, if_pos hmoves.2]
    refine ⟨?_, ?_, ?_⟩ <;>
    · intro place hplace
      obtain ⟨_, _, rfl⟩ := mem_map.mp hplace
      rfl
  -- the workload is not on the remote node any more
  have hnot : ∀ node storageDir, after.rows.Name node storageDir → node ≠ setting.remote := by
    rintro _ storageDir hother rfl
    obtain ⟨place, hplace⟩ := exists_mem_of_ne_nil after.rows.workload (by
      rw [hrows, committedRows_eq hupdates, if_pos hmoves]
      simpa using hqueued.workload)
    have hplaces := (hname.1 place hplace).symm.trans (hother.1 place hplace)
    exact setting.ids_ne (congrArg RowPlace.node hplaces)
  constructor
  · rintro ⟨⟨node, storageDir, hother, hcopy⟩, hlock, -⟩
    refine ⟨hlock, ?_⟩
    rcases eq_of_copyAt hcopy with ⟨-, htarget⟩ | ⟨hremote, -⟩
    · exact htarget
    · exact absurd hremote (hnot _ _ hother)
  · rintro ⟨hlock, htarget⟩
    refine ⟨⟨setting.here, setting.targetDir, hname, ?_⟩, hlock, fun hremote => ?_⟩
    · rw [copyAt_here, htarget]
    · exact absurd rfl (hnot _ _ hremote)

theorem committedRows_of_movesNothing (hnothing : setting.MovesNothing o w)
    (hupdates : NoCallRaises (setting.updates o.updates)) :
    setting.committedRows o w.rows = w.rows := by
  obtain ⟨halerts, hover⟩ := hnothing
  have hmoves : ¬ setting.MovesAll o := by
    rintro ⟨hsecond, hthird⟩
    rcases hover with hover | ⟨hover, -⟩
    · rw [hthird] at hover
      cases hover
    · rw [hsecond] at hover
      cases hover
  obtain ⟨_, ⟨workload, delayedAnalysis, alerts⟩, _, _, _⟩ := w
  obtain rfl : alerts = [] := halerts
  rw [committedRows_eq hupdates, if_neg hmoves]
  rcases hover with hover | ⟨-, hdelayed⟩
  · rw [if_neg (by rw [hover]; exact Bool.noConfusion)]
    rfl
  · obtain rfl : delayedAnalysis = [] := hdelayed
    split_ifs <;> rfl

theorem not_allOrNothing_of_mixed (hqueued : setting.Queued w) (hmoves : ¬ setting.MovesAll o)
    (hnothing : ¬ setting.MovesNothing o w) (hupdates : NoCallRaises (setting.updates o.updates))
    (hrows : after.rows = setting.committedRows o w.rows) :
    ¬ setting.AllOrNothing w after returned := by
  rintro ⟨⟨node, storageDir, hname, hcopy⟩, -, -⟩
  rw [hrows, committedRows_eq hupdates, if_neg hmoves] at hname
  obtain ⟨hworkload, hdelayed, halerts⟩ := hname
  obtain ⟨place, hplace⟩ := exists_mem_of_ne_nil _ hqueued.workload
  have hid : node.id = setting.remote.id := by
    have hplaces := (hworkload place hplace).symm.trans (hqueued.name.1 place hplace)
    exact congrArg RowPlace.node hplaces
  have hremote : node = setting.remote := by
    rcases eq_of_copyAt hcopy with ⟨rfl, -⟩ | ⟨hremote, -⟩
    · exact absurd hid setting.ids_ne
    · exact hremote
  subst hremote
  apply hnothing
  constructor
  · -- an alert is always moved
    by_contra hne
    obtain ⟨alert, halert⟩ := exists_mem_of_ne_nil _ hne
    have hplace := halerts _ (mem_map_of_mem halert)
    exact setting.names_ne (congrArg RowPlace.node hplace)
  · by_cases hthird : setting.startsOver o 2 = true
    · exact .inl hthird
    · have hfalse := Bool.eq_false_iff.mpr hthird
      refine .inr ⟨?_, ?_⟩
      · by_contra hsecond
        exact hmoves ⟨Bool.eq_false_iff.mpr hsecond, hfalse⟩
      · -- and delayed analysis too, if the last update does not start over
        by_contra hne
        obtain ⟨request, hrequest⟩ := exists_mem_of_ne_nil _ hne
        rw [if_pos hfalse] at hdelayed
        have hplace := hdelayed _ (mem_map_of_mem hrequest)
        exact setting.ids_ne (congrArg RowPlace.node hplace)

/-! ### The lock -/

theorem releaseLock_lock : (setting.releaseLock w).lock ≠ some setting.lockUuid := by
  unfold releaseLock
  split_ifs with hlock
  · exact nofun
  · exact hlock

variable (setting w) in
theorem releaseLock_fields : (setting.releaseLock w).rows = w.rows ∧
    (setting.releaseLock w).target = w.target ∧ (setting.releaseLock w).remote = w.remote := by
  unfold releaseLock
  split_ifs <;> exact ⟨rfl, rfl, rfl⟩

variable (setting o w) in
theorem afterTransfer_giveUp (hlock : w.lock = some setting.lockUuid) :
    ∃ lock, setting.afterTransfer o (setting.giveUp w o.releaseLock) = ({ w with lock }, false) ∧
      (lock ≠ some setting.lockUuid ↔ Unlocks o) := by
  obtain ⟨_, rows, remoteHost, target, remote⟩ := w
  obtain rfl := hlock
  have hrelease : setting.releaseLock ⟨some setting.lockUuid, rows, remoteHost, target, remote⟩ =
      ⟨none, rows, remoteHost, target, remote⟩ := if_pos rfl
  have hnone : setting.releaseLock ⟨none, rows, remoteHost, target, remote⟩ =
      ⟨none, rows, remoteHost, target, remote⟩ := if_neg nofun
  unfold Unlocks giveUp afterTransfer
  cases o.releaseLock with
  | ok =>
    refine ⟨none, ?_, by simp⟩
    cases o.releaseAgain with
    | ok | dies => rw [hrelease]; exact congrArg (·, false) hnone
    | raises => rw [hrelease]
  | raises =>
    cases o.releaseAgain with
    | ok | dies => exact ⟨none, congrArg (·, false) hrelease, by simp⟩
    | raises => exact ⟨some setting.lockUuid, rfl, by simp⟩
  | dies => exact ⟨none, congrArg (·, false) hrelease, by simp⟩

variable (setting o w) in
/-- The rows and the remote copy are not touched by the clean-up, and the target directory is gone
or left. -/
theorem afterTransfer_cleanUp {copy : Copy} (hlock : w.lock = some setting.lockUuid)
    (htarget : w.target = some copy) :
    ∃ after, setting.afterTransfer o (setting.cleanUp o w) = (after, false) ∧
      after.rows = w.rows ∧ after.remote = w.remote ∧
      (after.lock ≠ some setting.lockUuid ∧ after.target = none ↔ Removes o) ∧
      (after.lock ≠ some setting.lockUuid ∧ after.target = some .complete ↔
        copy = .complete ∧ Keeps o) := by
  unfold cleanUp Removes Keeps
  cases hrmtree : o.rmtree with
  | removed =>
    obtain ⟨lock, hend, hunlocks⟩ :=
      afterTransfer_giveUp setting o { w with target := none } hlock
    exact ⟨_, hend, rfl, rfl, by simp [hunlocks], by simp⟩
  | raises touched =>
    cases touched with
    | false =>
      obtain ⟨lock, hend, hunlocks⟩ := afterTransfer_giveUp setting o w hlock
      exact ⟨_, hend, rfl, rfl, by simp [htarget], by simp [hunlocks, htarget, and_comm]⟩
    | true =>
      obtain ⟨lock, hend, hunlocks⟩ :=
        afterTransfer_giveUp setting o (leftTarget w true) hlock
      exact ⟨_, hend, rfl, rfl, by simp [leftTarget, htarget], by simp [leftTarget, htarget]⟩
  | dies touched =>
    -- the lock of the process is recovered
    refine ⟨_, rfl, ?_, ?_, ?_, ?_⟩
    · rw [(releaseLock_fields ..).1]
      cases touched <;> rfl
    · rw [(releaseLock_fields ..).2.2]
      cases touched <;> rfl
    · rw [(releaseLock_fields ..).2.1]
      cases touched <;> simp [leftTarget, htarget]
    · rw [(releaseLock_fields ..).2.1]
      cases touched <;> simp [leftTarget, htarget, releaseLock_lock]

theorem allOrNothing_of_died (left : TransferWorld) (hqueued : setting.Queued w)
    (hrows : left.rows = w.rows) (hremote : left.remote = w.remote) :
    setting.AllOrNothing w (setting.releaseLock left) false ↔
      (w.target = none → left.target = none) := by
  have hfields := releaseLock_fields setting left
  rw [allOrNothing_of_stays _ hqueued (hfields.1.trans hrows) (hfields.2.2.trans hremote),
    hfields.2.1]
  exact and_iff_right fun hlock => absurd hlock releaseLock_lock

theorem allOrNothing_iff_of_kept (hqueued : setting.Queued w) (hfree : w.target = none)
    (hupdates : NoCallRaises (setting.updates o.updates))
    (hrows : after.rows = setting.committedRows o w.rows) (htarget : after.target = some .complete)
    (hlock : after.lock = some setting.lockUuid → returned) :
    setting.AllOrNothing w after returned ↔ setting.MovesAll o := by
  by_cases hmoves : setting.MovesAll o
  · rw [allOrNothing_of_moves hqueued hmoves hupdates hrows]
    exact iff_of_true ⟨hlock, htarget⟩ hmoves
  · refine iff_of_false (fun h => ?_) hmoves
    by_cases hnothing : setting.MovesNothing o w
    · -- the rows are as before, and the copy on this node is in the way
      have hstays : after.rows = w.rows :=
        hrows.trans (committedRows_of_movesNothing hnothing hupdates)
      have hgone := h.retry (hstays ▸ hqueued.name) hfree
      rw [htarget] at hgone
      cases hgone
    · exact not_allOrNothing_of_mixed hqueued hmoves hnothing hupdates hrows h

/-! ### The condition -/

/-- A transfer of queued work is all or nothing exactly when its point allows it. -/
theorem transfer_all_or_nothing_iff (setting : TransferSetting) (o : TransferOutcomes)
    (w : TransferWorld) (hqueued : setting.Queued w) :
    setting.AllOrNothing w (setting.getWorkTarget o w).1 (setting.getWorkTarget o w).2 ↔
      setting.WholeWhen o w := by
  have hleaves := leaves_transferWorkTarget setting o hqueued.remote
  unfold getWorkTarget WholeWhen
  generalize setting.point o w = point at hleaves ⊢
  generalize setting.transferWorkTarget o w = result at hleaves ⊢
  cases hleaves with
  | refused =>
    rw [afterTransfer]
    cases o.releaseAgain with
    | ok | dies =>
      refine (allOrNothing_of_died w hqueued rfl rfl).trans ?_
      simp
    | raises =>
      refine (allOrNothing_of_stays w hqueued rfl rfl).trans ?_
      simp
  | diedEarly lock hlock =>
    refine (allOrNothing_of_died { w with lock } hqueued rfl rfl).trans ?_
    simp
  | noDirectory =>
    obtain ⟨lock, hend, hunlocks⟩ := afterTransfer_giveUp setting o
      { w with lock := some setting.lockUuid } rfl
    rw [hend]
    refine (allOrNothing_of_stays { w with lock } hqueued rfl rfl).trans ?_
    rw [← hunlocks]
    simp
  | unknownNode hfree =>
    -- the new directory stays
    obtain ⟨lock, hend, -⟩ := afterTransfer_giveUp setting o
      (setting.created w .incomplete) rfl
    rw [hend]
    refine (allOrNothing_of_stays { setting.created w .incomplete with lock } hqueued rfl
      rfl).trans ?_
    simp [hfree, created]
  | failedBefore copy hfree =>
    obtain ⟨after, hend, hrows, hremote, hremoved, -⟩ := afterTransfer_cleanUp
      setting o (setting.created w copy) rfl rfl
    rw [hend]
    refine (allOrNothing_of_stays _ hqueued hrows hremote).trans ?_
    rw [← hremoved]
    simp [hfree]
  | diedBefore copy hfree =>
    refine (allOrNothing_of_died (setting.created w copy) hqueued rfl rfl).trans ?_
    simp [hfree, created]
  | failedAfter hfree hupdates =>
    obtain ⟨after, hend, hrows, hremote, hremoved, hkept⟩ := afterTransfer_cleanUp
      setting o (setting.moved o w) rfl rfl
    rw [hend]
    by_cases hmoves : setting.MovesAll o
    · have hsomething : ¬ setting.MovesNothing o w := by
        rintro ⟨-, hover | ⟨hover, -⟩⟩
        · rw [hmoves.2] at hover
          cases hover
        · rw [hmoves.1] at hover
          cases hover
      rw [allOrNothing_of_moves hqueued hmoves hupdates hrows]
      simp only [Bool.false_eq_true, imp_false, hkept, hmoves, hsomething, true_and, false_and,
        or_false]
    · by_cases hnothing : setting.MovesNothing o w
      · have hstays : after.rows = w.rows :=
          hrows.trans (committedRows_of_movesNothing hnothing hupdates)
        rw [allOrNothing_of_stays _ hqueued hstays hremote]
        simp only [Bool.false_eq_true, imp_false, hfree, true_imp_iff, hremoved, hmoves, hnothing,
          true_and, false_and, false_or]
      · simp only [hmoves, hnothing, false_and, or_false, iff_false]
        exact not_allOrNothing_of_mixed hqueued hmoves hnothing hupdates hrows
  | diedAfter remote hfree hupdates =>
    have hfields := releaseLock_fields setting { setting.moved o w with remote }
    exact allOrNothing_iff_of_kept hqueued hfree hupdates hfields.1 hfields.2.1
      fun hlock => absurd hlock releaseLock_lock
  | finished remote hfree hupdates =>
    exact allOrNothing_iff_of_kept hqueued hfree hupdates rfl rfl fun _ => rfl

def fromNode2 : TransferSetting where
  uuid := "root"
  lockUuid := .worker 0
  here := ⟨"1", "node-1"⟩
  targetDir := "data/node-1/roo/root"
  remote := ⟨"2", "node-2"⟩
  remoteDir := "data/node-2/roo/root"
  ids_ne := by decide
  names_ne := by decide

def onNode2 : TransferWorld where
  lock := some (.worker 0)
  rows := ⟨[⟨"2", "data/node-2/roo/root"⟩], [], [⟨"node-2", "data/node-2/roo/root"⟩]⟩
  remoteHost := some "node-2:443"
  target := none
  remote := some .complete

def allOk : TransferOutcomes where
  acquireLock := .ok
  makedirs := .ok
  lookUp := .ok
  download := .ok
  updates := fun _ => []
  diesUpdating := false
  commit := .ok
  load := .ok
  save := .ok
  rmtree := .removed
  clear := .ok
  releaseLock := .ok
  releaseAgain := .ok

theorem queued_onNode2 : fromNode2.Queued onNode2 :=
  ⟨⟨by decide, by decide, by decide⟩, by decide, rfl⟩

/-- A transfer without errors moves the alert. -/
theorem transfer_all_or_nothing_ok :
    fromNode2.AllOrNothing onNode2 (fromNode2.getWorkTarget allOk onNode2).1
      (fromNode2.getWorkTarget allOk onNode2).2 := by
  apply (transfer_all_or_nothing_iff fromNode2 allOk onNode2 queued_onNode2).mpr
  have hpoint : fromNode2.point allOk onNode2 = .finished := by decide
  rw [WholeWhen, hpoint]
  show fromNode2.MovesAll allOk
  decide

/-- The moved root cannot be loaded: its directory is removed although the rows name it. -/
theorem unreadable_root_is_lost :
    ¬ ∀ (setting : TransferSetting) (o : TransferOutcomes) (w : TransferWorld), setting.Queued w →
      setting.AllOrNothing w (setting.getWorkTarget o w).1 (setting.getWorkTarget o w).2 := by
  intro h
  have hwhole := h fromNode2 { allOk with load := .raises } onNode2 queued_onNode2
  have hrows : (fromNode2.getWorkTarget { allOk with load := .raises } onNode2).1.rows =
      fromNode2.committedRows { allOk with load := .raises } onNode2.rows := by decide
  have htarget := ((allOrNothing_of_moves queued_onNode2 (by decide) (by decide) hrows).mp hwhole).2
  revert htarget
  decide

end TransferSetting

end Ace3.Engine
