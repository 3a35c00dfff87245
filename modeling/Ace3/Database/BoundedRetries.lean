import Ace3.Database.Retry
import Ace3.Lib.Runs
import Mathlib.Tactic.SplitIfs

/-!
# How Often an Operation Is Tried

The two loops of `saq/database/retry.py`, against every pattern of errors. Both are endless loops
that only a `return` or a `raise` leaves.

The sleep between two attempts and the log lines are left out.
-/

namespace Ace3.Database

open Lib.EndlessLoop

/-! ## §1 Exceptions and the pattern of errors -/

/-- The classes of exceptions that the two `except` clauses tell apart. -/
inductive ExceptionKind where
  /-- `pymysql.err.OperationalError`. -/
  | operationalError
  /-- `sqlalchemy.exc.DBAPIError`. -/
  | dbapiError
  | other
  deriving DecidableEq

/-- An exception; `code` is `e.args[0]`, and `e.orig.args[0]` of a `DBAPIError`. -/
structure RaisedException where
  kind : ExceptionKind
  code : Nat
  message : String
  deriving DecidableEq

/-- An exception of the class, for a deadlock or a lock wait. -/
def RaisedException.isLock (kind : ExceptionKind) (e : RaisedException) : Bool :=
  e.kind = kind ∧ (e.code = 1213 ∨ e.code = 1205)

/-- What the database does: by the number of the run, and for a statement by its place in it. -/
structure Pattern where
  /-- `execute`, with the row count of the statement. -/
  execute : (run place : Nat) → Statement → Except RaisedException Nat
  commit : (run : Nat) → Except RaisedException Unit
  rollback : (run : Nat) → Except RaisedException Unit

/-- A callable, with its arguments: what it returns or raises in each run. -/
abbrev Callable (α : Type) := (run : Nat) → Except RaisedException α

variable {α : Type}

/-! ## §2 `execute_with_retry` -/

/-- `sql_or_func`, with the parameters of the statements. -/
inductive RetryTarget (α : Type) where
  | callable (func : Callable α)
  | sql (statements : List Statement)

/-- An element of `results`. -/
inductive RetryResult (α : Type) where
  | returned (value : α)
  | rowcount (count : Nat)
  deriving DecidableEq

/-- The value of `execute_with_retry`: the only result, or the list of them. -/
inductive RetryValue (α : Type) where
  | single (result : RetryResult α)
  | many (results : List (RetryResult α))
  deriving DecidableEq

namespace RetryTarget

/-- The body of the `try`, in the run with this number. -/
def attempt (db : Pattern) (target : RetryTarget α) (commit : Bool) (run : Nat) :
    Except RaisedException (RetryValue α) := do
  let results ← match target with
    | .callable func => (fun value => [.returned value]) <$> func run
    | .sql statements =>
      statements.zipIdx.mapM fun entry => .rowcount <$> db.execute run entry.2 entry.1
  if commit then db.commit run
  return match results with
    | [result] => .single result
    | results => .many results

variable (db : Pattern) (target : RetryTarget α) (attempts : Nat) (commit : Bool)

/-- One turn of the loop, while the variable `count` has this value. -/
def turnOfLoop (run count : Nat) : Turn Nat (Except RaisedException (RetryValue α)) :=
  match target.attempt db commit run with
  | .ok value => .leave (.ok value)
  | .error e =>
    if e.kind = .operationalError then
      if (e.code = 1213 ∨ e.code = 1205) ∧ count < attempts then
        match db.rollback run with
        | .error _ => .leave (.error e)
        | .ok () => .again (count + 1)
      else
        match target with
        -- no branch of the source raises the error here
        | .callable _ => .again count
        | .sql _ => .leave (.error e)
    else .leave (.error e)

end RetryTarget

/-! ## §3 `retry_on_deadlock` -/

/-- An element of `targets`. What is neither an executable nor a callable is passed over. -/
inductive DeadlockTarget (α : Type) where
  | executable (statement : Statement)
  | callable (func : Callable α)
  | other

namespace DeadlockTarget

/-- The targets in order; the value is that of the last callable, `None` without one. -/
def runAll (session : Pattern) (run : Nat) :
    (place : Nat) → List (DeadlockTarget α) → Option α → Except RaisedException (Option α)
  | _, [], lastResult => .ok lastResult
  | place, .executable statement :: targets, lastResult => do
    let _ ← session.execute run place statement
    runAll session run (place + 1) targets lastResult
  | place, .callable func :: targets, _ => do
    let value ← func run
    runAll session run (place + 1) targets (some value)
  | place, .other :: targets, lastResult => runAll session run (place + 1) targets lastResult

variable (session : Pattern) (targets : List (DeadlockTarget α)) (attempts : Nat) (commit : Bool)

/-- The body of the `try`, in the run with this number. -/
def attempt (run : Nat) : Except RaisedException (Option α) := do
  let lastResult ← runAll session run 0 targets none
  if commit then session.commit run
  return lastResult

/-- One turn of the loop, while the variable `current_attempt` has this value. -/
def turnOfLoop (run currentAttempt : Nat) : Turn Nat (Except RaisedException (Option α)) :=
  match attempt session targets commit run with
  | .ok value => .leave (.ok value)
  | .error e =>
    if e.kind = .dbapiError then
      if e.code = 1213 ∨ e.code = 1205 ∧ currentAttempt < attempts then
        match session.rollback run with
        | .error rollbackError => .leave (.error rollbackError)
        | .ok () => .again (currentAttempt + 1)
      else .leave (.error e)
    else .leave (.error e)

end DeadlockTarget

/-! ## §4 The bound -/

/-- The loop runs the operation once and at most `attempts` times more, again only after an error
for which it may be tried again, and returns or raises what the last run did. -/
def RetriesAreBounded {β : Type} (body : Nat → Nat → Turn Nat (Except RaisedException β))
    (counter : Nat) (own : Nat → Except RaisedException β) (isLock : RaisedException → Bool)
    (attempts : Nat) : Prop :=
  ∃ last ≤ attempts, LeavesAt body counter last (own last) ∧
    ∀ run < last, ∃ e, own run = .error e ∧ isLock e = true

/-- `execute_with_retry` keeps the bound. -/
def RetryTarget.Bounded (db : Pattern) (target : RetryTarget α) (attempts : Nat) (commit : Bool) :
    Prop :=
  RetriesAreBounded (target.turnOfLoop db attempts commit) 1 (target.attempt db commit)
    (·.isLock .operationalError) attempts

/-- `retry_on_deadlock` keeps the bound. -/
def DeadlockTarget.Bounded (session : Pattern) (targets : List (DeadlockTarget α)) (attempts : Nat)
    (commit : Bool) : Prop :=
  RetriesAreBounded (turnOfLoop session targets attempts commit) 0 (attempt session targets commit)
    (·.isLock .dbapiError) attempts

/-! ## §5 The patterns that are bounded -/

namespace RaisedException

theorem isLock_iff {kind : ExceptionKind} {e : RaisedException} :
    e.isLock kind = true ↔ e.kind = kind ∧ (e.code = 1213 ∨ e.code = 1205) := by
  simp [isLock]

end RaisedException

namespace RetryTarget

variable {db : Pattern} {target : RetryTarget α} {attempts : Nat} {commit : Bool} {run count : Nat}

def LockedAt (db : Pattern) (target : RetryTarget α) (commit : Bool) (run : Nat) : Prop :=
  ∃ e, target.attempt db commit run = .error e ∧ e.isLock .operationalError = true

/-- The run returns, or raises something that is not an `OperationalError`. -/
def EndsAt (db : Pattern) (target : RetryTarget α) (commit : Bool) (run : Nat) : Prop :=
  ∀ e, target.attempt db commit run = .error e → e.kind ≠ .operationalError

theorem turnOfLoop_of_locked (hlocked : LockedAt db target commit run) (hcount : count < attempts) :
    target.turnOfLoop db attempts commit run count =
      match db.rollback run with
      | .error _ => .leave (target.attempt db commit run)
      | .ok () => .again (count + 1) := by
  obtain ⟨e, he, hlock⟩ := hlocked
  obtain ⟨hkind, hcode⟩ := RaisedException.isLock_iff.mp hlock
  simp only [turnOfLoop, he, hkind, if_true, if_pos (And.intro hcode hcount)]

theorem turnOfLoop_of_exhausted {func : Callable α}
    (hlocked : LockedAt db (.callable func) commit run) (hcount : ¬ count < attempts) :
    turnOfLoop db (.callable func) attempts commit run count = .again count := by
  obtain ⟨e, he, hlock⟩ := hlocked
  obtain ⟨hkind, -⟩ := RaisedException.isLock_iff.mp hlock
  simp only [turnOfLoop, he, hkind, if_true, if_neg (fun h => hcount (And.right h))]

theorem turnOfLoop_of_ends (hends : EndsAt db target commit run) :
    target.turnOfLoop db attempts commit run count = .leave (target.attempt db commit run) := by
  cases hattempt : target.attempt db commit run with
  | ok value => simp only [turnOfLoop, hattempt]
  | error e => simp only [turnOfLoop, hattempt, if_neg (hends e hattempt)]

/-- The variable `count` before a run, when every earlier one has failed with a lock error. -/
def countBefore (attempts run : Nat) : Nat := min (run + 1) (max 1 attempts)

theorem countBefore_lt_iff : countBefore attempts run < attempts ↔ run + 1 < attempts := by
  rw [countBefore]
  omega

/-- A function whose runs all fail with lock errors is called again as long as the rollbacks go
through, and as often as it likes once no attempt is left. -/
theorem turn_callable_iff {func : Callable α} {n : Nat}
    (hlocked : ∀ run < n, LockedAt db (.callable func) commit run) :
    turn (turnOfLoop db (.callable func) attempts commit) 1 n = some count ↔
      count = countBefore attempts n ∧
        ∀ run < n, run + 1 < attempts → db.rollback run = .ok () := by
  induction n generalizing count with
  | zero =>
    have hone : countBefore attempts 0 = 1 := by
      unfold countBefore
      omega
    simp [turn, hone, eq_comm]
  | succ n ih =>
    rw [turn_succ_eq_some]
    have hbefore := fun run hrun => hlocked run (Nat.lt_succ_of_lt hrun)
    constructor
    · rintro ⟨before, hturn, hagain⟩
      obtain ⟨rfl, hrollbacks⟩ := (ih hbefore).mp hturn
      by_cases hcount : countBefore attempts n < attempts
      · rw [turnOfLoop_of_locked (hlocked n (Nat.lt_succ_self n)) hcount] at hagain
        cases hrollback : db.rollback n with
        | error e => simp only [hrollback, reduceCtorEq] at hagain
        | ok done =>
          simp only [hrollback, Turn.again.injEq] at hagain
          refine ⟨?_, fun run hrun hleft => ?_⟩
          · rw [← hagain]
            unfold countBefore at hcount ⊢
            omega
          · rcases Nat.lt_succ_iff_lt_or_eq.mp hrun with hrun | rfl
            · exact hrollbacks run hrun hleft
            · exact hrollback
      · rw [turnOfLoop_of_exhausted (hlocked n (Nat.lt_succ_self n)) hcount] at hagain
        simp only [Turn.again.injEq] at hagain
        refine ⟨?_, fun run hrun hleft => ?_⟩
        · rw [← hagain]
          unfold countBefore at hcount ⊢
          omega
        · rcases Nat.lt_succ_iff_lt_or_eq.mp hrun with hrun | rfl
          · exact hrollbacks run hrun hleft
          · exact absurd (countBefore_lt_iff.mpr hleft) hcount
    · rintro ⟨rfl, hrollbacks⟩
      refine ⟨countBefore attempts n,
        (ih hbefore).mpr ⟨rfl, fun run hrun => hrollbacks run (Nat.lt_succ_of_lt hrun)⟩, ?_⟩
      by_cases hcount : countBefore attempts n < attempts
      · rw [turnOfLoop_of_locked (hlocked n (Nat.lt_succ_self n)) hcount,
          hrollbacks n (Nat.lt_succ_self n) (countBefore_lt_iff.mp hcount)]
        unfold countBefore at hcount ⊢
        simp only [Turn.again.injEq]
        omega
      · rw [turnOfLoop_of_exhausted (hlocked n (Nat.lt_succ_self n)) hcount]
        unfold countBefore at hcount ⊢
        simp only [Turn.again.injEq]
        omega

/-- A function is left in peace by the loop if, within the bound and after nothing but lock errors,
it ends otherwise than with an `OperationalError`, or a rollback fails that is still tried. -/
def EndsInTime (db : Pattern) (func : Callable α) (attempts : Nat) (commit : Bool) : Prop :=
  ∃ last ≤ attempts,
    (∀ run < last, LockedAt db (.callable func) commit run ∧
      (run + 1 < attempts → db.rollback run = .ok ())) ∧
    (EndsAt db (.callable func) commit last ∨
      LockedAt db (.callable func) commit last ∧ last + 1 < attempts ∧ db.rollback last ≠ .ok ())

theorem bounded_callable_iff (func : Callable α) :
    Bounded db (.callable func) attempts commit ↔ EndsInTime db func attempts commit := by
  apply exists_congr
  intro last
  apply and_congr_right
  intro _
  constructor
  · rintro ⟨⟨count, hturn, hleave⟩, hlocked⟩
    obtain ⟨rfl, hrollbacks⟩ := (turn_callable_iff hlocked).mp hturn
    refine ⟨fun run hrun => ⟨hlocked run hrun, hrollbacks run hrun⟩, ?_⟩
    by_cases hends : EndsAt db (.callable func) commit last
    · exact Or.inl hends
    · right
      simp only [EndsAt, not_forall, not_not] at hends
      obtain ⟨e, he, hkind⟩ := hends
      simp only [turnOfLoop, he, hkind, if_true] at hleave
      split_ifs at hleave with hretry
      have hlock : LockedAt db (.callable func) commit last :=
        ⟨e, he, RaisedException.isLock_iff.mpr ⟨hkind, hretry.1⟩⟩
      refine ⟨hlock, countBefore_lt_iff.mp hretry.2, fun hrollback => ?_⟩
      simp only [hrollback, reduceCtorEq] at hleave
  · rintro ⟨hbefore, hlast⟩
    have hlocked := fun run hrun => (hbefore run hrun).1
    refine ⟨⟨countBefore attempts last,
      (turn_callable_iff hlocked).mpr ⟨rfl, fun run hrun => (hbefore run hrun).2⟩, ?_⟩, hlocked⟩
    rcases hlast with hends | ⟨hlock, hleft, hrollback⟩
    · exact turnOfLoop_of_ends hends
    · rw [turnOfLoop_of_locked hlock (countBefore_lt_iff.mpr hleft)]
      cases hresult : db.rollback last with
      | error e => rfl
      | ok done => exact absurd hresult hrollback

theorem turn_sql {statements : List Statement} {n : Nat}
    (hturn : turn (turnOfLoop db (.sql statements : RetryTarget α) attempts commit) 1 n =
      some count) :
    count = n + 1 ∧ (n = 0 ∨ n < attempts) ∧
      ∀ run < n, LockedAt db (.sql statements : RetryTarget α) commit run := by
  refine turn_invariant (fun n count => count = n + 1 ∧ (n = 0 ∨ n < attempts) ∧
    ∀ run < n, LockedAt db (.sql statements : RetryTarget α) commit run) ⟨rfl, Or.inl rfl, nofun⟩
    (fun n count after hinv hagain => ?_) hturn
  obtain ⟨rfl, -, hlocked⟩ := hinv
  cases hattempt : attempt db (.sql statements : RetryTarget α) commit n with
  | ok value => simp only [turnOfLoop, hattempt, reduceCtorEq] at hagain
  | error e =>
    simp only [turnOfLoop, hattempt] at hagain
    split_ifs at hagain with hkind hretry
    refine ⟨?_, Or.inr hretry.2, fun run hrun => ?_⟩
    · cases hrollback : db.rollback n with
      | error e => simp only [hrollback, reduceCtorEq] at hagain
      | ok done => simpa only [hrollback, Turn.again.injEq, eq_comm] using hagain
    · rcases Nat.lt_succ_iff_lt_or_eq.mp hrun with hrun | rfl
      · exact hlocked run hrun
      · exact ⟨e, hattempt, RaisedException.isLock_iff.mpr ⟨hkind, hretry.1⟩⟩

theorem leave_sql {statements : List Statement}
    {outcome : Except RaisedException (RetryValue α)}
    (hleave : turnOfLoop db (.sql statements) attempts commit run count = .leave outcome) :
    outcome = attempt db (.sql statements) commit run := by
  cases hattempt : attempt db (.sql statements : RetryTarget α) commit run with
  | ok value => simpa only [turnOfLoop, hattempt, Turn.leave.injEq, eq_comm] using hleave
  | error e =>
    simp only [turnOfLoop, hattempt] at hleave
    split_ifs at hleave with hkind hretry
    · cases hrollback : db.rollback run with
      | error e' => simpa only [hrollback, Turn.leave.injEq, eq_comm] using hleave
      | ok done => simp only [hrollback, reduceCtorEq] at hleave
    · simpa only [Turn.leave.injEq, eq_comm] using hleave
    · simpa only [Turn.leave.injEq, eq_comm] using hleave

theorem bounded_sql (statements : List Statement) :
    Bounded db (.sql statements : RetryTarget α) attempts commit := by
  have hnone : turn (turnOfLoop db (.sql statements : RetryTarget α) attempts commit) 1
      (attempts + 1) = none := by
    cases hturn : turn (turnOfLoop db (.sql statements : RetryTarget α) attempts commit) 1
        (attempts + 1) with
    | none => rfl
    | some count =>
      obtain ⟨-, hturn, -⟩ := turn_sql hturn
      omega
  obtain ⟨last, hlast, outcome, count, hturn, hleave⟩ := exists_leavesAt hnone
  refine ⟨last, Nat.lt_succ_iff.mp hlast, ⟨count, hturn, ?_⟩, (turn_sql hturn).2.2⟩
  rw [← leave_sql hleave]
  exact hleave

end RetryTarget

namespace DeadlockTarget

variable {session : Pattern} {targets : List (DeadlockTarget α)} {attempts : Nat} {commit : Bool}
  {run count : Nat}

def LockedAt (session : Pattern) (targets : List (DeadlockTarget α)) (commit : Bool) (run : Nat) :
    Prop :=
  ∃ e, attempt session targets commit run = .error e ∧ e.isLock .dbapiError = true

/-- The targets end in time if, within the bound and after nothing but lock errors that were rolled
back, they return, or raise something that is not a deadlock, nor a lock wait with an attempt left.
A rollback that fails counts only where it raises the very same exception. -/
def EndsInTime (session : Pattern) (targets : List (DeadlockTarget α)) (attempts : Nat)
    (commit : Bool) : Prop :=
  ∃ last ≤ attempts,
    (∀ run < last, LockedAt session targets commit run ∧ session.rollback run = .ok ()) ∧
    ∀ e, attempt session targets commit last = .error e → e.kind = .dbapiError →
      e.code = 1213 ∨ e.code = 1205 ∧ last < attempts → session.rollback last = .error e

theorem turnOfLoop_of_locked (hlocked : LockedAt session targets commit run)
    (hcount : count < attempts) :
    turnOfLoop session targets attempts commit run count =
      match session.rollback run with
      | .error rollbackError => .leave (.error rollbackError)
      | .ok () => .again (count + 1) := by
  obtain ⟨e, he, hlock⟩ := hlocked
  obtain ⟨hkind, hcode⟩ := RaisedException.isLock_iff.mp hlock
  simp only [turnOfLoop, he, hkind, if_true, hcount, and_true, if_pos hcode]

/-- The loop reaches a run within the bound when every rollback before it has gone through. -/
theorem turn_iff {n : Nat} (hn : n ≤ attempts)
    (hlocked : ∀ run < n, LockedAt session targets commit run) :
    turn (turnOfLoop session targets attempts commit) 0 n = some count ↔
      count = n ∧ ∀ run < n, session.rollback run = .ok () := by
  induction n generalizing count with
  | zero => simp [turn, eq_comm]
  | succ n ih =>
    rw [turn_succ_eq_some]
    have hbefore := fun run hrun => hlocked run (Nat.lt_succ_of_lt hrun)
    have hturn := turnOfLoop_of_locked (hlocked n (Nat.lt_succ_self n)) hn
    constructor
    · rintro ⟨before, hreached, hagain⟩
      obtain ⟨rfl, hrollbacks⟩ := (ih (Nat.le_of_succ_le hn) hbefore).mp hreached
      rw [hturn] at hagain
      cases hrollback : session.rollback before with
      | error e => simp only [hrollback, reduceCtorEq] at hagain
      | ok done =>
        simp only [hrollback, Turn.again.injEq] at hagain
        refine ⟨hagain.symm, fun run hrun => ?_⟩
        rcases Nat.lt_succ_iff_lt_or_eq.mp hrun with hrun | rfl
        · exact hrollbacks run hrun
        · exact hrollback
    · rintro ⟨rfl, hrollbacks⟩
      refine ⟨n, (ih (Nat.le_of_succ_le hn) hbefore).mpr
        ⟨rfl, fun run hrun => hrollbacks run (Nat.lt_succ_of_lt hrun)⟩, ?_⟩
      rw [hturn, hrollbacks n (Nat.lt_succ_self n)]

theorem leave_own_iff :
    turnOfLoop session targets attempts commit run count =
        .leave (attempt session targets commit run) ↔
      ∀ e, attempt session targets commit run = .error e → e.kind = .dbapiError →
        e.code = 1213 ∨ e.code = 1205 ∧ count < attempts → session.rollback run = .error e := by
  cases hattempt : attempt session targets commit run with
  | ok value => simp [turnOfLoop, hattempt]
  | error e =>
    simp only [turnOfLoop, hattempt, Except.error.injEq, forall_eq']
    split_ifs with hkind hretry
    · cases hrollback : session.rollback run with
      | error e' => simp [hkind, hretry]
      | ok done => simp [hkind, hretry]
    · simp [hretry]
    · simp [hkind]

theorem bounded_iff :
    Bounded session targets attempts commit ↔ EndsInTime session targets attempts commit := by
  apply exists_congr
  intro last
  apply and_congr_right
  intro hlast
  constructor
  · rintro ⟨⟨count, hturn, hleave⟩, hlocked⟩
    obtain ⟨rfl, hrollbacks⟩ := (turn_iff hlast hlocked).mp hturn
    exact ⟨fun run hrun => ⟨hlocked run hrun, hrollbacks run hrun⟩, leave_own_iff.mp hleave⟩
  · rintro ⟨hbefore, hown⟩
    have hlocked := fun run hrun => (hbefore run hrun).1
    exact ⟨⟨last, (turn_iff hlast hlocked).mpr ⟨rfl, fun run hrun => (hbefore run hrun).2⟩,
      leave_own_iff.mpr hown⟩, hlocked⟩

end DeadlockTarget

/-- Which patterns each loop is bounded for: SQL statements with every pattern, a function and the
targets of `retry_on_deadlock` with those that let them end in time. -/
theorem retries_bounded_iff (db : Pattern) (attempts : Nat) (commit : Bool) :
    (∀ statements, (RetryTarget.sql statements : RetryTarget α).Bounded db attempts commit) ∧
      (∀ func : Callable α, (RetryTarget.callable func).Bounded db attempts commit ↔
        RetryTarget.EndsInTime db func attempts commit) ∧
      ∀ targets : List (DeadlockTarget α), DeadlockTarget.Bounded db targets attempts commit ↔
        DeadlockTarget.EndsInTime db targets attempts commit :=
  ⟨RetryTarget.bounded_sql, RetryTarget.bounded_callable_iff,
    fun _ => DeadlockTarget.bounded_iff⟩

/-- A database where every statement fails with the code, and rollbacks go through. -/
def failing (kind : ExceptionKind) (code : Nat) : Pattern where
  execute _ _ _ := .error ⟨kind, code, ""⟩
  commit _ := .ok ()
  rollback _ := .ok ()

/-- A function that always meets an access error (1045) is called for ever, and so is a statement
that always meets a deadlock, although fifteen attempts are asked for. -/
theorem retries_without_end :
    (∀ run outcome, ¬ LeavesAt (RetryTarget.turnOfLoop (failing .operationalError 1045)
      (.callable fun _ => .error ⟨.operationalError, 1045, "Access denied"⟩ : RetryTarget Unit)
      15 false) 1 run outcome) ∧
    ∀ run outcome, ¬ LeavesAt (DeadlockTarget.turnOfLoop (failing .dbapiError 1213)
      [(.executable ⟨"UPDATE users SET enabled = 0", []⟩ : DeadlockTarget Unit)]
      15 false) 0 run outcome := by
  constructor
  · exact not_leavesAt_of_forall_again fun _ count => ⟨count, rfl⟩
  · exact not_leavesAt_of_forall_again fun _ count => ⟨count + 1, rfl⟩

end Ace3.Database
