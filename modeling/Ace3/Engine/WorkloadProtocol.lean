import Ace3.Database.Workload

/-!
# Picking Up, Executing and Clearing Work

What the workers of an engine do with the tables `workload`, `delayed_analysis` and `locks`
(`saq/engine/workload_manager/database.py`, `saq/engine/worker.py`,
`saq/engine/analysis_orchestrator.py`), statement by statement, and what others add to the
workload. A list of events is an interleaving; an event whose worker is not at that point changes
nothing. Workers take free locks only, so time plays no role.

The two listings choose among the rows that are not locked; an event names the rows chosen.
-/

namespace Ace3.Engine

open Lib
open Database

/-! ## §1 Work targets -/

abbrev DelayedRow := Nat × DelayedAnalysis

abbrev WorkloadRow := Nat × WorkloadItem

/-- What a worker is handed: a `DelayedAnalysisRequest`, or a `RootAnalysis` with the analysis
mode it was constructed with, which is none after a transfer from another node. -/
inductive WorkTarget where
  | delayed (row : DelayedRow)
  | root (row : WorkloadRow) (analysisMode : Option AnalysisMode)
  deriving DecidableEq

namespace WorkTarget

def uuid : WorkTarget → RootUuid
  | delayed row => row.2.uuid
  | root row _ => row.2.uuid

/-- The mode of the root once it is loaded, given the mode saved with it. A root that is moved
to the work directory is loaded before the mode of the workload is looked at. -/
def modeAfterLoad (saved : AnalysisMode) (relocated : Bool) : WorkTarget → AnalysisMode
  | delayed _ => saved
  | root _ none => saved
  | root _ (some analysisMode) => if relocated then saved else analysisMode

/-- `original_analysis_mode`, before and after the root is loaded. -/
def originalAnalysisMode (loaded : Option AnalysisMode) : WorkTarget → Option AnalysisMode
  | delayed _ => loaded
  | root _ analysisMode => loaded.or analysisMode

def clear (loaded : Option AnalysisMode) (tables : WorkTables) : WorkTarget → WorkTables
  | delayed row => tables.deleteDelayedAnalysis row.1
  | root row analysisMode =>
    tables.deleteWorkload row.2.uuid ((root row analysisMode).originalAnalysisMode loaded)

end WorkTarget

/-! ## §2 Workers -/

inductive WorkerPhase where
  | idle
  /-- In the loop of `get_delayed_analysis_work_target`, with the listed rows still to try. -/
  | tryDelayed (rows : List DelayedRow)
  | acquireDelayed (row : DelayedRow) (rest : List DelayedRow) (stage : Locks.AcquireStage)
  /-- In the loop of `get_work_target`. -/
  | tryWork (rows : List WorkloadRow)
  | acquireWork (row : WorkloadRow) (rest : List WorkloadRow) (stage : Locks.AcquireStage)
  /-- Holding the lock, before the row is selected again by its id. -/
  | verify (row : WorkloadRow) (rest : List WorkloadRow)
  /-- The row was gone: the lock is released and the loop goes on. -/
  | releaseStale (row : WorkloadRow) (rest : List WorkloadRow)
  /-- In `execute`, with the mode of the root once it has been loaded. -/
  | execute (target : WorkTarget) (loaded : Option AnalysisMode)
  /-- Before the last `release_lock`. -/
  | release (uuid : RootUuid)
  deriving DecidableEq

/-- Whether a row belongs to another node, and how its transfer went. -/
inductive Transfer where
  | notNeeded
  | succeeded
  | failed
  deriving DecidableEq

inductive WorkEvent where
  /-- The listing of `get_delayed_analysis_work_target`. -/
  | listDelayed (w : Nat) (rows : List DelayedRow)
  /-- The listing of `get_work_target`. -/
  | listWork (w : Nat) (rows : List WorkloadRow)
  /-- The next statement of `acquire_lock` or `release_lock`. -/
  | proceed (w : Nat)
  /-- The second `SELECT` of `get_work_target`, and the transfer after it. -/
  | verify (w : Nat) (transfer : Transfer)
  /-- The root is loaded from disk, with the mode saved there. -/
  | load (w : Nat) (saved : AnalysisMode) (relocated : Bool)
  /-- A module delays its analysis. -/
  | delay (w : Nat) (observableUuid analysisModule : String)
  /-- The analysis is aborted and its delayed requests are dropped. -/
  | abort (w : Nat)
  /-- The `DELETE` of `clear_work_target`. -/
  | clear (w : Nat)
  /-- `add_workload` or `root.schedule`, by anybody. -/
  | addWorkload (uuid : RootUuid) (analysisMode : Option AnalysisMode)
  /-- `set_dispositions`. -/
  | setDispositions (alertUuids : List RootUuid) (disposition : String)
  deriving DecidableEq

def WorkEvent.worker : WorkEvent → Option Nat
  | listDelayed w _ | listWork w _ | proceed w | verify w _ | load w _ _ | delay w _ _ | abort w
  | clear w => some w
  | addWorkload _ _ | setDispositions _ _ => none

structure Site where
  locks : Locks
  tables : WorkTables
  phase : Nat → WorkerPhase

namespace Site

def init : Site where
  locks := fun _ => none
  tables := .empty
  phase := fun _ => .idle

def setPhase (s : Site) (w : Nat) (phase : WorkerPhase) : Site :=
  { s with phase := Function.update s.phase w phase }

def setLocks (s : Site) (locks : Locks) : Site :=
  { s with locks := locks }

def setTables (s : Site) (tables : WorkTables) : Site :=
  { s with tables := tables }

/-- One statement of a worker's `acquire_lock` on a listed row. -/
def acquire (s : Site) (w : Nat) (uuid : RootUuid) (stage : Locks.AcquireStage)
    (goesOn : Locks.AcquireStage → WorkerPhase) (acquired failed : WorkerPhase) : Site :=
  match s.locks.acquireLock 0 0 uuid (.worker w) false stage with
  | (locks, .next stage) => (s.setLocks locks).setPhase w (goesOn stage)
  | (locks, .returned true) => (s.setLocks locks).setPhase w acquired
  | (locks, .returned false) => (s.setLocks locks).setPhase w failed

/-- `acquire_lock` in `get_delayed_analysis_work_target`: the request is returned as listed. -/
def acquireDelayed (s : Site) (w : Nat) (row : DelayedRow) (rest : List DelayedRow)
    (stage : Locks.AcquireStage) : Site :=
  s.acquire w row.2.uuid stage (.acquireDelayed row rest) (.execute (.delayed row) none)
    (.tryDelayed rest)

/-- `acquire_lock` in `get_work_target`. -/
def acquireWork (s : Site) (w : Nat) (row : WorkloadRow) (rest : List WorkloadRow)
    (stage : Locks.AcquireStage) : Site :=
  s.acquire w row.2.uuid stage (.acquireWork row rest) (.verify row rest) (.tryWork rest)

def releaseLock (s : Site) (w : Nat) (uuid : RootUuid) (phase : WorkerPhase) : Site :=
  (s.setLocks (s.locks.releaseLock uuid (.worker w))).setPhase w phase

/-! ## §3 Steps -/

/-- The next statement of `acquire_lock` or `release_lock` of a worker. -/
def proceed (s : Site) (w : Nat) : Site :=
  match s.phase w with
  | .tryDelayed [] => s.setPhase w .idle
  | .tryDelayed (row :: rest) => s.acquireDelayed w row rest .insert
  | .acquireDelayed row rest stage => s.acquireDelayed w row rest stage
  | .tryWork [] => s.setPhase w .idle
  | .tryWork (row :: rest) => s.acquireWork w row rest .insert
  | .acquireWork row rest stage => s.acquireWork w row rest stage
  | .releaseStale row rest => s.releaseLock w row.2.uuid (.tryWork rest)
  | .release uuid => s.releaseLock w uuid .idle
  | .idle | .verify _ _ | .execute _ _ => s

/-- The row is handed out if it is still there and, where necessary, could be transferred. -/
def verify (s : Site) (w : Nat) (transfer : Transfer) : Site :=
  match s.phase w with
  | .verify row rest =>
    if s.tables.workload.hasId row.1 then
      match transfer with
      | .notNeeded => s.setPhase w (.execute (.root row (some row.2.analysisMode)) none)
      | .succeeded => s.setPhase w (.execute (.root row none) none)
      | .failed => s.setPhase w (.release row.2.uuid)
    else s.setPhase w (.releaseStale row rest)
  | _ => s

def step (defaultAnalysisMode : AnalysisMode) (s : Site) : WorkEvent → Site
  | .listDelayed w rows =>
    if s.phase w = .idle ∧
        ∀ row ∈ rows, row ∈ s.tables.delayedAnalysis.rows ∧ s.locks row.2.uuid = none then
      s.setPhase w (.tryDelayed rows)
    else s
  | .listWork w rows =>
    if s.phase w = .idle ∧
        ∀ row ∈ rows, row ∈ s.tables.workload.rows ∧ s.locks row.2.uuid = none then
      s.setPhase w (.tryWork rows)
    else s
  | .proceed w => s.proceed w
  | .verify w transfer => s.verify w transfer
  | .load w saved relocated =>
    match s.phase w with
    | .execute target none =>
      s.setPhase w (.execute target (some (target.modeAfterLoad saved relocated)))
    | _ => s
  | .delay w observableUuid analysisModule =>
    match s.phase w with
    | .execute target _ =>
      s.setTables
        (s.tables.addDelayedAnalysisRequest ⟨target.uuid, observableUuid, analysisModule⟩)
    | _ => s
  | .abort w =>
    match s.phase w with
    | .execute target _ => s.setTables (s.tables.clearDelayedAnalysisRequests target.uuid)
    | _ => s
  | .clear w =>
    match s.phase w with
    | .execute target loaded =>
      (s.setTables (target.clear loaded s.tables)).setPhase w (.release target.uuid)
    | _ => s
  | .addWorkload uuid analysisMode =>
    s.setTables (s.tables.addWorkload defaultAnalysisMode uuid analysisMode)
  | .setDispositions alertUuids disposition =>
    s.setTables (s.tables.setDispositions alertUuids disposition)

/-! ## §4 What a step leaves to the others -/

variable {s : Site} {w w' : Nat}

@[simp] theorem setPhase_phase_self (phase : WorkerPhase) : (s.setPhase w phase).phase w = phase :=
  Function.update_self ..

@[simp] theorem setLocks_phase (locks : Locks) : (s.setLocks locks).phase = s.phase := rfl

@[simp] theorem setTables_phase (tables : WorkTables) : (s.setTables tables).phase = s.phase := rfl

theorem setPhase_phase_of_ne (hw : w' ≠ w) (phase : WorkerPhase) :
    (s.setPhase w phase).phase w' = s.phase w' :=
  Function.update_of_ne hw ..

theorem acquire_phase_of_ne (hw : w' ≠ w) (uuid : RootUuid) (stage : Locks.AcquireStage)
    (goesOn : Locks.AcquireStage → WorkerPhase) (acquired failed : WorkerPhase) :
    (s.acquire w uuid stage goesOn acquired failed).phase w' = s.phase w' := by
  unfold acquire
  split <;> rw [setPhase_phase_of_ne hw, setLocks_phase]

theorem step_phase_of_ne {defaultAnalysisMode : AnalysisMode} {e : WorkEvent}
    (hother : e.worker ≠ some w) : (s.step defaultAnalysisMode e).phase w = s.phase w := by
  have hne {w' : Nat} (h : some w' ≠ some w) : w ≠ w' := fun hw => h (hw ▸ rfl)
  cases e with
  | addWorkload _ _ | setDispositions _ _ => rfl
  | proceed w' =>
    have hw := hne hother
    simp only [step, proceed, acquireDelayed, acquireWork, releaseLock]
    split <;> simp only [acquire_phase_of_ne hw, setPhase_phase_of_ne hw, setLocks_phase]
  | verify w' transfer =>
    have hw := hne hother
    simp only [step, verify]
    split
    · split
      · cases transfer <;> exact setPhase_phase_of_ne hw _
      · exact setPhase_phase_of_ne hw _
    · rfl
  | delay _ _ _ | abort _ =>
    simp only [step]
    split <;> rfl
  | _ =>
    have hw := hne hother
    simp only [step]
    split
    · simp only [setPhase_phase_of_ne hw, setTables_phase]
    · rfl

end Site

end Ace3.Engine
