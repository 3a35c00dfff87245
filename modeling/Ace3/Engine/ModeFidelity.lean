import Ace3.Engine.WorkloadProtocol

/-!
# The Analysis Mode of an Execution

`Worker.execute` (`saq/engine/worker.py`) with `_process_work_item`
(`saq/engine/analysis_orchestrator.py`) and `clear_work_target`
(`saq/engine/workload_manager/database.py`), for a row of `workload`: in which mode the root is
analyzed, and which row is deleted afterwards. A root has its mode in two fields; loading it
overwrites both.
-/

namespace Ace3.Engine

open Database

/-! ## §1 The mode fields of a root -/

def analysisModeCorrelation : AnalysisMode := "correlation"

/-- `_analysis_mode` and `_original_analysis_mode`. -/
structure RootModes where
  analysisMode : Option AnalysisMode
  originalAnalysisMode : Option AnalysisMode
  deriving DecidableEq

namespace RootModes

/-- The constructor of `RootAnalysis`; `override_analysis_mode` and `deserialize` write the two
fields in the same way. -/
def ofMode (analysisMode : Option AnalysisMode) : RootModes := ⟨analysisMode, analysisMode⟩

/-- The setter of `analysis_mode`. -/
def setAnalysisMode (modes : RootModes) (value : Option AnalysisMode) : RootModes :=
  ⟨value, modes.originalAnalysisMode.or value⟩

end RootModes

/-- How a load of the JSON file ends: with the root loaded, or with an exception raised before
or after the mode fields are read. -/
inductive LoadOutcome where
  | loaded
  | failsBeforeMode
  | failsAfterMode
  deriving DecidableEq

/-- The entry `analysis_mode` of the JSON file: it may be missing, and it may be `null`. -/
abbrev SavedMode := Option (Option AnalysisMode)

/-- `deserialize`, as far as the mode fields are concerned. -/
def RootModes.deserialize (modes : RootModes) (saved : SavedMode) (outcome : LoadOutcome) :
    RootModes :=
  match outcome with
  | .failsBeforeMode => modes
  | .loaded | .failsAfterMode => (saved.map ofMode).getD modes

/-! ## §2 One execution of a workload row -/

structure WorkConditions where
  row : WorkloadRow
  /-- The row named another node and `transfer_work_target` was called. -/
  transferred : Bool
  /-- The lock is kept open, or the engine is in single threaded mode. -/
  keepaliveStarts : Bool
  /-- `work_dir` is configured. -/
  workDir : Bool
  /-- `storage_dir` is the directory of the root below the data directory. -/
  inDataDir : Bool
  saved : SavedMode
  loadOutcome : LoadOutcome
  /-- The move to the work directory or the tracking of it raises an exception. -/
  relocationRaises : Bool
  /-- The storage directory does not exist. -/
  storageMissing : Bool
  /-- `_check_disposition` finds a disposition that stops the analysis of an alert. -/
  stopsOnDisposition : Bool
  /-- What modules and detections assign to `analysis_mode`, in order. -/
  assigned : List (Option AnalysisMode)
  deriving DecidableEq

namespace WorkConditions

def handedModes (c : WorkConditions) : RootModes :=
  .ofMode (if c.transferred then none else some c.row.2.analysisMode)

/-- `Worker.execute` switches to the work directory: a root that is no alert and still lies below
the data directory, which is where a transfer has put it. -/
def relocates (c : WorkConditions) : Bool :=
  c.handedModes.analysisMode ∉ [some analysisModeCorrelation, some analysisModeDispositioned] ∧
    c.workDir ∧ (c.inDataDir ∨ c.transferred)

/-- The mode fields when the root has been loaded, or when its load has raised an exception. -/
def modesRead (c : WorkConditions) : RootModes :=
  c.handedModes.deserialize c.saved c.loadOutcome

/-- `_process_work_item`, for a root with these mode fields that may be loaded already: the mode
fields, and whether the root is to be analyzed. A load of a loaded root changes nothing. -/
def processWorkItem (c : WorkConditions) (modes : RootModes) (isLoaded : Bool) :
    RootModes × Bool :=
  if c.storageMissing then (modes, false)
  else
    let current := modes.analysisMode
    let read := if isLoaded then modes else c.modesRead
    if ¬ isLoaded ∧ c.loadOutcome ≠ .loaded then (read, false)
    else if current ≠ none ∧ read.analysisMode ≠ current then (.ofMode current, true)
    else (read, true)

/-- The `try` block of `Worker.execute` up to the analysis. -/
def prepare (c : WorkConditions) : RootModes × Bool :=
  if c.relocates then
    if c.loadOutcome ≠ .loaded ∨ c.relocationRaises then (c.modesRead, false)
    else c.processWorkItem c.modesRead true
  else c.processWorkItem c.handedModes false

def checkDisposition (c : WorkConditions) (modes : RootModes) : Bool :=
  modes.analysisMode = some analysisModeCorrelation ∧ c.stopsOnDisposition

structure Result where
  /-- The mode in which the root was analyzed, if it was. -/
  analyzedIn : Option (Option AnalysisMode)
  /-- `clear_work_target` was reached. -/
  cleared : Bool
  tables : WorkTables

/-- The root is set up and no disposition stops its analysis. -/
def analyzes (c : WorkConditions) : Bool :=
  c.prepare.2 && !c.checkDisposition c.prepare.1

def modesAtEnd (c : WorkConditions) : RootModes :=
  if c.analyzes then c.assigned.foldl .setAnalysisMode c.prepare.1 else c.prepare.1

/-- `Worker.execute`, for the tables as they are when `clear_work_target` is reached. A worker
that cannot keep its lock open leaves the row alone. -/
def execute (c : WorkConditions) (tables : WorkTables) : Result :=
  if c.keepaliveStarts then
    ⟨if c.analyzes then some c.prepare.1.analysisMode else none, true,
      tables.deleteWorkload c.row.2.uuid c.modesAtEnd.originalAnalysisMode⟩
  else ⟨none, false, tables⟩

/-! ## §3 When the row decides -/

/-- The root is analyzed in the mode of the row only, and exactly this row is deleted. -/
def Faithful (c : WorkConditions) : Prop :=
  ∀ tables : WorkTables,
    (∀ mode, (c.execute tables).analyzedIn = some mode → mode = some c.row.2.analysisMode) ∧
      ((c.execute tables).cleared → ∀ item,
        (c.execute tables).tables.Queued item ↔ tables.Queued item ∧ item ≠ c.row.2)

/-- The mode that the JSON file puts in the place of the one the root was handed out with. -/
def modeRead (c : WorkConditions) : SavedMode :=
  match c.loadOutcome with
  | .failsBeforeMode => none
  | .loaded | .failsAfterMode => if c.storageMissing ∧ ¬ c.relocates then none else c.saved

/-- The root still has the mode of the row in hand when it has been loaded, or the JSON file
says the same mode. -/
def keepsMode (c : WorkConditions) : Bool :=
  !c.keepaliveStarts ||
    match c.modeRead with
    | none => !c.transferred
    | some mode =>
      mode = some c.row.2.analysisMode ||
        !c.transferred && !c.relocates && c.loadOutcome = .loaded

/-- The mode with which the root enters its analysis, or is given up. -/
def preparedMode (c : WorkConditions) : Option AnalysisMode :=
  match c.modeRead with
  | none => if c.transferred then none else some c.row.2.analysisMode
  | some mode =>
    if ¬ c.transferred ∧ ¬ c.relocates ∧ c.loadOutcome = .loaded then some c.row.2.analysisMode
    else mode

variable {c : WorkConditions}

theorem modesRead_eq :
    c.modesRead = .ofMode ((match c.loadOutcome with
      | .failsBeforeMode => none
      | .loaded | .failsAfterMode => c.saved).getD
        (if c.transferred then none else some c.row.2.analysisMode)) := by
  unfold modesRead RootModes.deserialize handedModes
  cases c.loadOutcome <;> cases c.saved <;> rfl

theorem prepare_modes : c.prepare.1 = .ofMode c.preparedMode := by
  unfold prepare preparedMode modeRead processWorkItem
  by_cases hrelocates : c.relocates
  · -- the load for the move is the one that counts
    simp only [hrelocates, modesRead_eq]
    cases c.loadOutcome <;> cases c.saved <;> cases c.relocationRaises <;>
      cases c.storageMissing <;> simp [RootModes.ofMode]
  · simp only [hrelocates, modesRead_eq, handedModes]
    cases c.transferred <;> cases c.storageMissing <;> cases c.loadOutcome <;>
      rcases c.saved with _ | _ | mode <;> simp [RootModes.ofMode]
    -- the mode that was loaded is overridden
    by_cases hmode : mode = c.row.2.analysisMode <;> simp [hmode]

theorem foldl_setAnalysisMode (assigned : List (Option AnalysisMode)) (modes : RootModes)
    (hmode : modes.originalAnalysisMode ≠ none) :
    (assigned.foldl .setAnalysisMode modes).originalAnalysisMode =
      modes.originalAnalysisMode := by
  induction assigned generalizing modes with
  | nil => rfl
  | cons value assigned ih =>
    have hkept : (modes.setAnalysisMode value).originalAnalysisMode =
        modes.originalAnalysisMode := by
      obtain ⟨original, horiginal⟩ := Option.ne_none_iff_exists'.mp hmode
      simp [RootModes.setAnalysisMode, horiginal]
    rw [List.foldl_cons, ih _ (hkept ▸ hmode), hkept]

theorem deletes_row_iff {item : WorkloadItem} {original : Option AnalysisMode} :
    (∀ (tables : WorkTables) (item' : WorkloadItem),
      (tables.deleteWorkload item.uuid original).Queued item' ↔
        tables.Queued item' ∧ item' ≠ item) ↔ original = some item.analysisMode := by
  simp only [WorkTables.queued_deleteWorkload]
  constructor
  · intro h
    have hqueued : (WorkTables.empty.insertWorkload item).Queued item :=
      WorkTables.queued_insertWorkload.mpr (.inr rfl)
    by_contra hne
    have := (h _ item).mp ⟨hqueued, fun hdeleted => hne hdeleted.2.symm⟩
    exact this.2 rfl
  · rintro rfl tables item'
    rw [Option.some_inj, ← WorkloadItem.mk.injEq]

theorem faithful_iff_preparedMode :
    c.Faithful ↔ (c.keepaliveStarts → c.preparedMode = some c.row.2.analysisMode) := by
  unfold Faithful execute modesAtEnd
  cases c.keepaliveStarts with
  | false => simp
  | true =>
    simp only [if_true, prepare_modes, forall_const]
    cases c.analyzes with
    | true =>
      simp only [if_true, Option.some_inj, forall_eq']
      constructor
      · exact fun h => (h .empty).1
      · intro hmode tables
        rw [foldl_setAnalysisMode _ _ (by simp [RootModes.ofMode, hmode])]
        exact ⟨hmode, deletes_row_iff.mpr hmode tables⟩
    | false =>
      simp only [Bool.false_eq_true, if_false, reduceCtorEq, false_implies, implies_true,
        true_and]
      exact deletes_row_iff

theorem preparedMode_iff :
    (c.keepaliveStarts → c.preparedMode = some c.row.2.analysisMode) ↔ c.keepsMode := by
  unfold preparedMode keepsMode
  cases c.keepaliveStarts with
  | false => simp
  | true =>
    cases c.modeRead with
    | none => cases c.transferred <;> simp
    | some mode =>
      by_cases hkept : ¬ c.transferred ∧ ¬ c.relocates ∧ c.loadOutcome = .loaded
      · simp [hkept]
      · simp only [hkept, if_false, forall_const, Bool.or_eq_true, decide_eq_true_eq,
          Bool.and_eq_true, Bool.not_eq_true', Bool.not_true, Bool.false_eq_true, false_or]
        simp only [Bool.not_eq_true, ← and_assoc] at hkept ⊢
        simp [hkept]

/-- For every row that a worker is handed, on each path and whatever mode the JSON file says:
the root is analyzed in the mode of the row and exactly this row is deleted, exactly when the
worker still has the mode of the row when the root has been loaded, or loads the same. -/
theorem execute_faithful_iff (c : WorkConditions) : c.Faithful ↔ c.keepsMode :=
  faithful_iff_preparedMode.trans preparedMode_iff

/-- An alert is put back into the workload by a module, and its directory is moved to the work
directory first: it is analyzed as what it was saved, and its row stays. -/
def relocatedAlert : WorkConditions where
  row := (1, ⟨"root", "event"⟩)
  transferred := false
  keepaliveStarts := true
  workDir := true
  inDataDir := true
  saved := some (some analysisModeCorrelation)
  loadOutcome := .loaded
  relocationRaises := false
  storageMissing := false
  stopsOnDisposition := false
  assigned := []

theorem relocatedAlert_not_faithful : ¬ ∀ c : WorkConditions, c.Faithful := by
  intro h
  have hmode := (h relocatedAlert .empty).1 (some analysisModeCorrelation) rfl
  revert hmode
  decide

end WorkConditions

end Ace3.Engine
