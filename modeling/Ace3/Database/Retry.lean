import Mathlib.Data.List.Basic

/-!
# Statements with Retry

`execute_with_retry` of `saq/database/retry.py`, on one connection, and sequences of its calls
that are ended by a commit, as `assign_node_analysis_modes` and `transfer_work_target` issue them.

The sleep between two attempts, the log lines and the returned row counts are left out.
-/

namespace Ace3.Database

/-! ## §1 Statements and connections -/

/-- A parameterized SQL statement and its parameters. -/
structure Statement where
  sql : String
  params : List String
  deriving DecidableEq

/-- The execution of a statement on behalf of a call. The number of the call is part of it,
since the same text may have another effect later (`NOW()`, a generated key). -/
structure Execution where
  call : Nat
  statement : Statement
  deriving DecidableEq

def Execution.ofCall (call : Nat) (statements : List Statement) : List Execution :=
  statements.map (⟨call, ·⟩)

structure Connection (σ : Type) where
  committed : σ
  /-- What the open transaction of the connection sees. -/
  current : σ

namespace Connection

variable {σ : Type}

/-- `cursor.execute` of each statement in turn. -/
def execute (run : Execution → σ → σ) (connection : Connection σ) (executions : List Execution) :
    Connection σ :=
  { connection with current := executions.foldl (fun s e => run e s) connection.current }

/-- `db.rollback()`. -/
def rollback (connection : Connection σ) : Connection σ :=
  { connection with current := connection.committed }

/-- `db.commit()`. -/
def commit (connection : Connection σ) : Connection σ :=
  { connection with committed := connection.current }

end Connection

/-! ## §2 Errors -/

/-- An exception that a statement or a commit raises. -/
inductive DbError where
  /-- `pymysql.err.OperationalError` with this code in `e.args[0]`. -/
  | operational (code : Nat)
  | other
  deriving DecidableEq

namespace DbError

/-- `ER_LOCK_DEADLOCK`. -/
def deadlock : DbError := .operational 1213

def lockWaitTimeout : DbError := .operational 1205

/-- `e.args[0] == 1213 or e.args[0] == 1205`. -/
def isLockError (e : DbError) : Bool := e = deadlock ∨ e = lockWaitTimeout

/-- What the server does to the open transaction when it reports the error. -/
def onServer {σ : Type} (e : DbError) (connection : Connection σ) : Connection σ :=
  if e = deadlock then connection.rollback else connection

end DbError

/-- An error of an attempt: after how many of its statements it comes, and whether the rollback
that answers it raises an exception too. -/
structure Failure where
  after : Nat
  error : DbError
  rollbackRaises : Bool
  deriving DecidableEq

/-! ## §3 The arguments of a call -/

/-- The argument `sql_or_func`. A function executes statements of its own choice: the list for
the first time it is called, for the second time, and so on. -/
inductive SqlOrFunc where
  | sql (text : String)
  | sqls (texts : List String)
  | callable (func : Nat → List Statement)

/-- The argument `params`. -/
inductive Params where
  | tuple (values : List String)
  | none
  | tuples (values : List (List String))

inductive Operation where
  | sql (statements : List Statement)
  | callable (func : Nat → List Statement)

namespace Operation

/-- Pairs the statements with their parameters; no operation stands for the `ValueError` on
lists of different lengths. -/
def ofSqls (texts : List String) : Params → Option Operation
  | .tuple values =>
    if texts.length = 1 then some (.sql (texts.map (⟨·, values⟩))) else none
  | .none => some (.sql (texts.map (⟨·, []⟩)))
  | .tuples values =>
    if texts.length = values.length then some (.sql (List.zipWith Statement.mk texts values))
    else none

/-- What the arguments ask for; `*params` fails when `params` is `None`. -/
def ofArguments : SqlOrFunc → Params → Option Operation
  | .sql text, params => ofSqls [text] params
  | .sqls texts, params => ofSqls texts params
  | .callable _, .none => none
  | .callable func, _ => some (.callable func)

/-- `callable(sql_or_func)`. -/
def isCallable : Operation → Bool
  | .sql _ => false
  | .callable _ => true

/-- The statements of an attempt, the attempts being counted from zero. -/
def statements : Operation → Nat → List Statement
  | .sql statements, _ => statements
  | .callable func, attempt => func attempt

end Operation

/-! ## §4 `execute_with_retry` -/

inductive Outcome where
  | returned
  | raised
  deriving DecidableEq

/-- The answer of the `except` clause to an error: the transaction is rolled back and the
attempt repeated, the error is raised again, or the attempt is repeated as things are. The last
one happens to functions: the `raise` stands inside the branch for SQL statements. -/
inductive Verdict where
  | retry
  | raise
  | goOn
  deriving DecidableEq

/-- The `except` clause, in the attempt with number `count`. -/
def verdict (op : Operation) (attempts count : Nat) (failure : Failure) : Verdict :=
  match failure.error with
  | .other => .raise
  | .operational code =>
    if (DbError.operational code).isLockError ∧ count < attempts then
      if failure.rollbackRaises then .raise else .retry
    else if op.isCallable then .goOn
    else .raise

def Failure.hits (failure : Failure) (op : Operation) (commit : Bool) (attempt : Nat) : Bool :=
  failure.after < (op.statements attempt).length ∨
    commit ∧ failure.after = (op.statements attempt).length

section Execution

variable {σ : Type} (run : Execution → σ → σ)

/-- The loop of `execute_with_retry`, in the attempt with this index while the variable `count`
has this value. -/
def retryLoop (op : Operation) (attempts : Nat) (commit : Bool) (call : Nat) :
    (attempt count : Nat) → List Failure → Connection σ → Connection σ × Outcome
  | attempt, _, [], connection => goesThrough attempt connection
  | attempt, count, failure :: failures, connection =>
    if failure.hits op commit attempt then
      let failed := failure.error.onServer
        (connection.execute run (Execution.ofCall call ((op.statements attempt).take failure.after)))
      match verdict op attempts count failure with
      | .retry =>
        retryLoop op attempts commit call (attempt + 1) (count + 1) failures failed.rollback
      | .raise => (failed, .raised)
      | .goOn => retryLoop op attempts commit call (attempt + 1) count failures failed
    else goesThrough attempt connection
where
  /-- The attempt without an error. -/
  goesThrough (attempt : Nat) (connection : Connection σ) : Connection σ × Outcome :=
    let executed := connection.execute run (Execution.ofCall call (op.statements attempt))
    (if commit then executed.commit else executed, .returned)

/-- A call of `execute_with_retry` without commit, with the errors that it meets. -/
structure Call where
  sqlOrFunc : SqlOrFunc
  params : Params
  attempts : Nat
  failures : List Failure

def executeWithRetry (call : Call) (commit : Bool) (number : Nat) (connection : Connection σ) :
    Connection σ × Outcome :=
  match Operation.ofArguments call.sqlOrFunc call.params with
  | none => (connection, .raised)
  | some op => retryLoop run op call.attempts commit number 0 1 call.failures connection

/-- The calls one after the other and then `db.commit()`. An exception leaves the sequence. -/
def executeSequence : (number : Nat) → List Call → Connection σ → Connection σ × Outcome
  | _, [], connection => (connection.commit, .returned)
  | number, call :: calls, connection =>
    match executeWithRetry run call false number connection with
    | (connection, .returned) => executeSequence (number + 1) calls connection
    | (connection, .raised) => (connection, .raised)

end Execution

/-! ## §5 A sequence of the source -/

/-- The calls of `assign_node_analysis_modes`, one for each statement, with the errors that
they meet. -/
def assignNodeAnalysisModes (nodeId : String) (analysisModes excludedAnalysisModes : List String)
    (failures : Nat → List Failure) : List Call :=
  let anyMode := if analysisModes.isEmpty then "1" else "0"
  let statements : List (String × List String) :=
    [("UPDATE nodes SET any_mode = %s WHERE id = %s", [anyMode, nodeId]),
      ("DELETE FROM node_modes WHERE node_id = %s", [nodeId]),
      ("DELETE FROM node_modes_excluded WHERE node_id = %s", [nodeId])] ++
    analysisModes.map (fun mode =>
      ("INSERT INTO node_modes ( node_id, analysis_mode ) VALUES ( %s, %s )", [nodeId, mode])) ++
    excludedAnalysisModes.map (fun mode =>
      ("INSERT INTO node_modes_excluded ( node_id, analysis_mode ) VALUES ( %s, %s )",
        [nodeId, mode]))
  statements.mapIdx fun number statement =>
    ⟨.sql statement.1, .tuple statement.2, 15, failures number⟩

end Ace3.Database
