import Ace3.Database.Locking
import Ace3.Lib.Table

/-!
# The Workload Tables

The tables `workload` and `delayed_analysis`, with the statements of
`saq/database/util/workload.py`, `saq/database/util/alert.py`,
`saq/database/util/delayed_analysis.py` and `saq/engine/workload_manager/database.py` that
insert and delete their rows. `storage_dir` and the columns that only choose which rows a node
looks at are left out.
-/

namespace Ace3.Database

open Lib

/-! ## §1 Rows -/

abbrev AnalysisMode := String

def analysisModeDispositioned : AnalysisMode := "dispositioned"

def dispositionIgnore : String := "IGNORE"

/-- A row of `delayed_analysis`: the request to go on with a delayed analysis. -/
structure DelayedAnalysis where
  uuid : RootUuid
  observableUuid : String
  analysisModule : String
  deriving DecidableEq

/-- A row of `workload`: the request to analyze a root in a mode. -/
structure WorkloadItem where
  uuid : RootUuid
  analysisMode : AnalysisMode
  deriving DecidableEq

instance : LawfulBEq (ℕ × DelayedAnalysis) := inferInstance

instance : LawfulBEq (ℕ × WorkloadItem) := inferInstance

instance : LawfulBEq (Option AnalysisMode) := inferInstance

/-- The two tables. `workload` has a unique key on `(uuid, analysis_mode)`. -/
structure WorkTables where
  delayedAnalysis : Table DelayedAnalysis
  workload : Table WorkloadItem

namespace WorkTables

def empty : WorkTables := ⟨.empty, .empty⟩

/-! ## §2 Statements -/

/-- A row of `workload` with this key. -/
def Queued (tables : WorkTables) (item : WorkloadItem) : Prop :=
  ∃ id, (id, item) ∈ tables.workload.rows

/-- The insert of `add_workload` (`ON DUPLICATE KEY UPDATE uuid=uuid`) and of
`set_dispositions` (`INSERT IGNORE`): an existing row stays as it is. -/
def insertWorkload (tables : WorkTables) (item : WorkloadItem) : WorkTables :=
  if tables.workload.rows.any (·.2 = item) then tables
  else { tables with workload := tables.workload.insert item }

/-- `add_workload`, also under the name `root.schedule`: a root without a mode gets the
default mode of the engine. -/
def addWorkload (tables : WorkTables) (defaultAnalysisMode : AnalysisMode) (uuid : RootUuid)
    (analysisMode : Option AnalysisMode) : WorkTables :=
  tables.insertWorkload ⟨uuid, analysisMode.getD defaultAnalysisMode⟩

/-- The workload insert of `set_dispositions`, for the alerts its `SELECT` finds. -/
def setDispositions (tables : WorkTables) (alertUuids : List RootUuid) (disposition : String) :
    WorkTables :=
  if disposition ≠ dispositionIgnore then
    alertUuids.foldl (fun tables uuid => tables.insertWorkload ⟨uuid, analysisModeDispositioned⟩)
      tables
  else tables

def addDelayedAnalysisRequest (tables : WorkTables) (request : DelayedAnalysis) : WorkTables :=
  { tables with delayedAnalysis := tables.delayedAnalysis.insert request }

def clearDelayedAnalysisRequests (tables : WorkTables) (uuid : RootUuid) : WorkTables :=
  { tables with delayedAnalysis := tables.delayedAnalysis.deleteWhere (·.2.uuid = uuid) }

def deleteDelayedAnalysis (tables : WorkTables) (id : Nat) : WorkTables :=
  { tables with delayedAnalysis := tables.delayedAnalysis.deleteWhere (·.1 = id) }

/-- `DELETE FROM workload WHERE uuid = %s AND analysis_mode = %s`; the comparison with a mode
that is `None` is never true. -/
def deleteWorkload (tables : WorkTables) (uuid : RootUuid) (analysisMode : Option AnalysisMode) :
    WorkTables :=
  { tables with
    workload := tables.workload.deleteWhere fun row =>
      row.2.uuid = uuid ∧ some row.2.analysisMode = analysisMode }

/-! ## §3 Which requests are queued after a statement -/

variable {tables : WorkTables} {item item' : WorkloadItem}

theorem queued_iff_any :
    tables.Queued item ↔ tables.workload.rows.any (·.2 = item) := by
  simp only [Queued, List.any_eq_true, decide_eq_true_eq]
  constructor
  · rintro ⟨id, hrow⟩
    exact ⟨_, hrow, rfl⟩
  · rintro ⟨⟨id, _⟩, hrow, rfl⟩
    exact ⟨id, hrow⟩

instance : Decidable (tables.Queued item) := decidable_of_iff _ queued_iff_any.symm

theorem queued_insertWorkload :
    (tables.insertWorkload item).Queued item' ↔ tables.Queued item' ∨ item' = item := by
  unfold insertWorkload
  split
  next h =>
    refine ⟨.inl, ?_⟩
    rintro (h' | rfl)
    · exact h'
    · exact queued_iff_any.mpr h
  next =>
    simp only [Queued, Table.mem_rows_insert, Prod.mk.injEq, exists_or, exists_eq_left]

theorem queued_setDispositions (alertUuids : List RootUuid) (disposition : String) :
    (tables.setDispositions alertUuids disposition).Queued item' ↔
      tables.Queued item' ∨ disposition ≠ dispositionIgnore ∧
        ∃ uuid ∈ alertUuids, item' = ⟨uuid, analysisModeDispositioned⟩ := by
  unfold setDispositions
  split
  next hdisposition =>
    simp only [hdisposition, ne_eq, not_false_eq_true, true_and]
    clear hdisposition
    induction alertUuids generalizing tables with
    | nil => simp
    | cons uuid alertUuids ih =>
      rw [List.foldl_cons, ih, queued_insertWorkload]
      simp only [List.mem_cons, exists_eq_or_imp, or_assoc]
  next hdisposition => simp [hdisposition]

theorem queued_deleteWorkload (uuid : RootUuid) (analysisMode : Option AnalysisMode) :
    (tables.deleteWorkload uuid analysisMode).Queued item' ↔
      tables.Queued item' ∧ ¬ (item'.uuid = uuid ∧ some item'.analysisMode = analysisMode) := by
  simp only [Queued, deleteWorkload, Table.mem_rows_deleteWhere, decide_eq_true_eq,
    exists_and_right]

end WorkTables

end Ace3.Database
