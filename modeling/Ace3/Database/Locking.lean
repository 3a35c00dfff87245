import Mathlib.Logic.Function.Basic
import Mathlib.Tactic.SplitIfs

/-!
# The Lock Table

The table `locks` and the statements of `saq/database/util/locking.py`. A row says which lock
uuid holds the lock of a root uuid, and since when. Each statement is atomic; a function that
issues several of them is a sequence of stages.

The columns `lock_owner` and `node_id`, which none of the modelled statements reads, and the
`SELECT` that `acquire_lock` logs after a failed insert are left out.
-/

namespace Ace3.Database

open Function

/-! ## §1 Rows -/

/-- The uuid of a root analysis, the primary key of `locks`. -/
abbrev RootUuid := String

/-- A value that `uuid4()` returned: drawn once by the lock manager of a worker object, or by
one call of `recover_lost_root`. Distinct draws are distinct. -/
inductive LockUuid where
  | worker (id : Nat)
  | recovery (call : Nat)
  deriving DecidableEq

structure LockRow where
  lockUuid : LockUuid
  lockTime : Nat
  deriving DecidableEq

/-- `TIMESTAMPDIFF(SECOND, lock_time, NOW()) >= lock_timeout_seconds`. -/
def LockRow.expired (timeout now : Nat) (row : LockRow) : Bool :=
  timeout ≤ now - row.lockTime

/-- The table `locks`. -/
abbrev Locks := RootUuid → Option LockRow

namespace Locks

/-! ## §2 Statements -/

def getLockUuid (locks : Locks) (uuid : RootUuid) : Option LockUuid :=
  (locks uuid).map (·.lockUuid)

/-- `INSERT INTO locks`: no table stands for the `IntegrityError` on an existing row. -/
def insert (locks : Locks) (now : Nat) (uuid : RootUuid) (lockUuid : LockUuid) : Option Locks :=
  match locks uuid with
  | some _ => none
  | none => some (Function.update locks uuid (some ⟨lockUuid, now⟩))

/-- The `UPDATE` of `acquire_lock`: renews the caller's own lock and, with
`allow_expired_takeover`, takes an expired one over. -/
def update (locks : Locks) (timeout now : Nat) (uuid : RootUuid) (lockUuid : LockUuid)
    (allowExpiredTakeover : Bool) : Locks :=
  match locks uuid with
  | none => locks
  | some row =>
    if row.lockUuid = lockUuid ∨ allowExpiredTakeover ∧ row.expired timeout now then
      Function.update locks uuid (some ⟨lockUuid, now⟩)
    else locks

def releaseLock (locks : Locks) (uuid : RootUuid) (lockUuid : LockUuid) : Locks :=
  if locks.getLockUuid uuid = some lockUuid then Function.update locks uuid none else locks

/-- `force_release_lock`: without a lock uuid the row is deleted unconditionally. -/
def forceReleaseLock (locks : Locks) (uuid : RootUuid) : Option LockUuid → Locks
  | none => Function.update locks uuid none
  | some lockUuid => locks.releaseLock uuid lockUuid

/-! ## §3 `acquire_lock` -/

/-- The statements of `acquire_lock` that decide its result. -/
inductive AcquireStage where
  | insert
  | update
  | verify
  deriving DecidableEq

/-- After a statement, `acquire_lock` goes on to the next one or returns. -/
inductive AcquireOutcome where
  | next (stage : AcquireStage)
  | returned (acquired : Bool)
  deriving DecidableEq

/-- One statement of `acquire_lock`. -/
def acquireLock (locks : Locks) (timeout now : Nat) (uuid : RootUuid) (lockUuid : LockUuid)
    (allowExpiredTakeover : Bool) : AcquireStage → Locks × AcquireOutcome
  | .insert =>
    match locks.insert now uuid lockUuid with
    | some locks' => (locks', .returned true)
    | none => (locks, .next .update)
  | .update => (locks.update timeout now uuid lockUuid allowExpiredTakeover, .next .verify)
  | .verify => (locks, .returned (locks.getLockUuid uuid = some lockUuid))

/-! ## §4 Who holds a lock after a statement -/

variable {locks : Locks} {timeout now : Nat} {uuid uuid' : RootUuid} {lockUuid : LockUuid}

theorem getLockUuid_update_self (row : Option LockRow) :
    getLockUuid (Function.update locks uuid row) uuid = row.map (·.lockUuid) := by
  simp [getLockUuid]

theorem getLockUuid_update_of_ne (h : uuid' ≠ uuid) (row : Option LockRow) :
    getLockUuid (Function.update locks uuid row) uuid' = locks.getLockUuid uuid' := by
  simp [getLockUuid, update_of_ne h]

theorem getLockUuid_eq_none_iff : locks.getLockUuid uuid = none ↔ locks uuid = none := by
  simp [getLockUuid]

theorem getLockUuid_update_false :
    (locks.update timeout now uuid lockUuid false).getLockUuid uuid' =
      locks.getLockUuid uuid' := by
  unfold update
  cases hrow : locks uuid with
  | none => rfl
  | some row =>
    by_cases hown : row.lockUuid = lockUuid
    · simp only [hown, true_or, if_true]
      by_cases huuid : uuid' = uuid
      · subst huuid
        rw [getLockUuid_update_self]
        simp [getLockUuid, hrow, hown]
      · exact getLockUuid_update_of_ne huuid _
    · simp [hown]

/-- What one statement of `acquire_lock` without takeover does and returns: it inserts the row
that was missing; or no lock changes its holder, and the call goes on or returns whether the
caller is the holder. -/
inductive Acquires (locks : Locks) (now : Nat) (uuid : RootUuid) (lockUuid : LockUuid) :
    AcquireStage → Locks × AcquireOutcome → Prop where
  | inserted (hfree : locks uuid = none) :
      Acquires locks now uuid lockUuid .insert
        (Function.update locks uuid (some ⟨lockUuid, now⟩), .returned true)
  | goesOn {stage stage' : AcquireStage} {locks' : Locks} (hstage : stage' ≠ .insert)
      (howner : ∀ uuid', locks'.getLockUuid uuid' = locks.getLockUuid uuid') :
      Acquires locks now uuid lockUuid stage (locks', .next stage')
  | verified (hown : locks.getLockUuid uuid = some lockUuid) :
      Acquires locks now uuid lockUuid .verify (locks, .returned true)
  | failed (hown : locks.getLockUuid uuid ≠ some lockUuid) :
      Acquires locks now uuid lockUuid .verify (locks, .returned false)

theorem acquires_acquireLock (locks : Locks) (timeout now : Nat) (uuid : RootUuid)
    (lockUuid : LockUuid) (stage : AcquireStage) :
    Acquires locks now uuid lockUuid stage
      (locks.acquireLock timeout now uuid lockUuid false stage) := by
  cases stage with
  | insert =>
    simp only [acquireLock, insert]
    cases hrow : locks uuid with
    | none => exact .inserted hrow
    | some _ => exact .goesOn (by simp) fun _ => rfl
  | update => exact .goesOn (by simp) fun _ => getLockUuid_update_false
  | verify =>
    simp only [acquireLock]
    by_cases hown : locks.getLockUuid uuid = some lockUuid
    · simpa only [hown, decide_true] using .verified hown
    · simpa only [hown, decide_false] using .failed hown

theorem getLockUuid_releaseLock :
    (locks.releaseLock uuid lockUuid).getLockUuid uuid' =
      if uuid' = uuid ∧ locks.getLockUuid uuid = some lockUuid then none
      else locks.getLockUuid uuid' := by
  unfold releaseLock
  by_cases hown : locks.getLockUuid uuid = some lockUuid
  · by_cases huuid : uuid' = uuid
    · subst huuid
      simp [hown, getLockUuid_update_self]
    · simp [hown, huuid, getLockUuid_update_of_ne huuid]
  · simp [hown]

/-! ## §5 How old a row is after a statement -/

theorem acquireLock_row {allowExpiredTakeover : Bool} {stage : AcquireStage} {row : LockRow}
    (h : (locks.acquireLock timeout now uuid lockUuid allowExpiredTakeover stage).1 uuid' =
      some row) : locks uuid' = some row ∨ row.lockTime = now := by
  have hwritten (written : LockRow) (htime : written.lockTime = now)
      (h : Function.update locks uuid (some written) uuid' = some row) :
      locks uuid' = some row ∨ row.lockTime = now := by
    by_cases huuid : uuid' = uuid
    · subst huuid
      rw [update_self] at h
      exact .inr (Option.some.inj h ▸ htime)
    · rw [update_of_ne huuid] at h
      exact .inl h
  cases stage with
  | insert =>
    simp only [acquireLock, insert] at h
    cases hrow : locks uuid with
    | some _ => simp only [hrow] at h; exact .inl h
    | none => simp only [hrow] at h; exact hwritten ⟨lockUuid, now⟩ rfl h
  | update =>
    simp only [acquireLock, update] at h
    cases hrow : locks uuid with
    | none => simp only [hrow] at h; exact .inl h
    | some old =>
      simp only [hrow] at h
      split_ifs at h
      · exact hwritten ⟨lockUuid, now⟩ rfl h
      · exact .inl h
  | verify => exact .inl h

theorem releaseLock_row {row : LockRow} (h : locks.releaseLock uuid lockUuid uuid' = some row) :
    locks uuid' = some row := by
  unfold releaseLock at h
  split at h
  next =>
    by_cases huuid : uuid' = uuid
    · simp [huuid] at h
    · rwa [update_of_ne huuid] at h
  next => exact h

theorem forceReleaseLock_row {observed : Option LockUuid} {row : LockRow}
    (h : locks.forceReleaseLock uuid observed uuid' = some row) : locks uuid' = some row := by
  cases observed with
  | some lockUuid => exact releaseLock_row h
  | none =>
    by_cases huuid : uuid' = uuid
    · simp [forceReleaseLock, huuid] at h
    · rwa [forceReleaseLock, update_of_ne huuid] at h

end Locks

end Ace3.Database
