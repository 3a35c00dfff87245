import Ace3.Engine.ModeFidelity

/-!
# The Lifecycle of a Root

`AnalysisOrchestrator` (`saq/engine/analysis_orchestrator.py`) over the history of one root: each
execution is handed a work target, sets the root up and analyzes it, decides about alerting when
no other work is outstanding, cleans up, and has its work target cleared. The executions of a root
follow one another, since each holds its lock; requests arrive at any time.

Its statements and file operations succeed. What the analysis modules leave in the tree, assign to
the mode and delay is part of the events.
-/

namespace Ace3.Engine

open Database

/-! ## §1 The root -/

def queueDefault : String := "default"

/-- The tree of a root, as far as alerting looks at it: the queue that each of its detection
points requests, whether it is whitelisted, and the queue of the root. -/
structure RootTree where
  detectionPoints : List (Option String)
  whitelisted : Bool
  queue : String
  deriving DecidableEq

def RootTree.hasDetections (tree : RootTree) : Bool := !tree.detectionPoints.isEmpty

structure StoredRoot where
  analysisMode : Option AnalysisMode
  tree : RootTree
  deriving DecidableEq

/-! ## §2 Decisions -/

structure OrchestratorConfig where
  alertingEnabled : Bool
  forcedAlerts : Bool
  nonDetectableModes : List AnalysisMode
  /-- The setting `cleanup` of an analysis mode. -/
  cleanup : AnalysisMode → Bool
  defaultAnalysisMode : AnalysisMode

namespace OrchestratorConfig

/-- Detections made in this mode may become an alert. -/
def detectable (config : OrchestratorConfig) (analysisMode : Option AnalysisMode) : Bool :=
  analysisMode ∉ config.nonDetectableModes.map some

/-- The setting `cleanup` of the mode of a root. -/
def cleansUp (config : OrchestratorConfig) (analysisMode : Option AnalysisMode) : Bool :=
  analysisMode.any config.cleanup

end OrchestratorConfig

def firstQueue : List String → Option String
  | [] => none
  | queue :: queues =>
    some (queues.foldl (fun least queue => if queue < least then queue else least) queue)

/-- `_apply_detection_queue`; no tree stands for the `IndexError` when every detection point
requests the empty queue. -/
def applyDetectionQueue (tree : RootTree) : Option RootTree :=
  if tree.queue ≠ queueDefault then some tree
  else if tree.detectionPoints = [] then some tree
  else if none ∈ tree.detectionPoints then some tree
  else
    (firstQueue (tree.detectionPoints.reduceOption.filter (· ≠ ""))).map fun queue =>
      { tree with queue }

/-- The root is to become an alert: the tests of `_handle_detection_points`. -/
def becomesAlert (config : OrchestratorConfig) (analysisMode : Option AnalysisMode)
    (tree : RootTree) : Bool :=
  config.detectable analysisMode ∧ (config.forcedAlerts ∨ ¬ tree.whitelisted) ∧
    (tree.hasDetections ∨ config.forcedAlerts) ∧ config.alertingEnabled

/-- `_handle_detection_points`: the mode fields and the tree of a root that it switches to
correlation mode. An exception of it is logged, and nothing has changed. -/
def handleDetectionPoints (config : OrchestratorConfig) (modes : RootModes) (tree : RootTree) :
    Option (RootModes × RootTree) :=
  if becomesAlert config modes.analysisMode tree then
    let routed :=
      if modes.analysisMode = some analysisModeCorrelation then some tree
      else applyDetectionQueue tree
    routed.map (modes.setAnalysisMode (some analysisModeCorrelation), ·)
  else none

/-- A row of `workload` counts as outstanding when its mode is not the original mode of the
execution; in SQL no mode differs from `NULL`. -/
def outstandingWorkload (uuid : RootUuid) (original : Option AnalysisMode) (row : WorkloadRow) :
    Bool :=
  row.2.uuid = uuid ∧ original ≠ none ∧ some row.2.analysisMode ≠ original

/-- A row of `delayed_analysis` counts as outstanding when it is not the one being executed. -/
def outstandingDelayed (uuid : RootUuid) (target : WorkTarget) (row : DelayedRow) : Bool :=
  row.2.uuid = uuid &&
    match target with
    | .delayed own => row.1 != own.1
    | .root _ _ => true

/-- `_check_for_outstanding_work`; nobody else holds the lock of the root. -/
def checkForOutstandingWork (tables : WorkTables) (uuid : RootUuid) (target : WorkTarget)
    (original : Option AnalysisMode) : Bool :=
  tables.workload.rows.any (outstandingWorkload uuid original) ||
    tables.delayedAnalysis.rows.any (outstandingDelayed uuid target)

/-! ## §3 Histories -/

inductive ExecutionPhase where
  | idle
  | handed (target : WorkTarget)
  /-- Before `_handle_post_analysis_logic`, with the root in memory. -/
  | analyzed (target : WorkTarget) (modes : RootModes) (tree : RootTree)
  /-- After detection points and mode changes have been handled. -/
  | decided (target : WorkTarget) (modes : RootModes)
  /-- Before the `DELETE` of `clear_work_target`, with the mode it deletes by; `decided` says
  that the post analysis logic was reached. -/
  | finished (target : WorkTarget) (original : Option AnalysisMode) (decided : Bool)
  deriving DecidableEq

structure RootHistory where
  tables : WorkTables
  stored : StoredRoot
  storageExists : Bool
  /-- The root has a row in `alerts`. -/
  alert : Bool
  /-- The mode in which its last execution left the root. -/
  analysisMode : Option AnalysisMode
  /-- A decision has put the root in correlation mode. -/
  switched : Bool
  phase : ExecutionPhase

/-- How an analysis goes: it is skipped for the disposition of the alert, it completes, or it
raises an exception, a timeout included, and its delayed requests are dropped. -/
inductive AnalysisOutcome where
  | skipped
  | completed
  | aborted
  deriving DecidableEq

/-- What the modules of an execution do: the tree they leave, the modes they assign, and the
analyses they delay, each with its observable and its module. -/
structure ModuleEffects where
  outcome : AnalysisOutcome
  tree : RootTree
  assigned : List AnalysisMode
  delays : List (String × String)
  deriving DecidableEq

inductive RootEvent where
  /-- A worker is handed a row of the root. -/
  | pick (target : WorkTarget)
  /-- The worker loses the lock or is killed before the root is saved. -/
  | abandon (delays : List (String × String))
  /-- `_process_work_item` fails: the directory is missing, or the root or the request does not
  load. The mode fields of the root are then as far as they got. -/
  | endEarly (original : Option AnalysisMode)
  | analyze (relocated : Bool) (effects : ModuleEffects)
  | decide
  | cleanUp
  | clear
  /-- `add_workload`, by anybody. -/
  | addWorkload (analysisMode : Option AnalysisMode)
  /-- `set_dispositions`, when the root is an alert that its `SELECT` finds. -/
  | setDisposition (disposition : String)
  deriving DecidableEq

def modesAfterLoad (stored : Option AnalysisMode) (relocated : Bool) : WorkTarget → RootModes
  | .delayed _ | .root _ none => .ofMode stored
  | .root _ (some analysisMode) => .ofMode (if relocated then stored else some analysisMode)

namespace RootHistory

variable (config : OrchestratorConfig) (uuid : RootUuid)

/-- A root as it is submitted: it is stored and queued, and an alert if it is in correlation
mode. -/
def submit (stored : StoredRoot) : RootHistory where
  tables := WorkTables.empty.addWorkload config.defaultAnalysisMode uuid stored.analysisMode
  stored := stored
  storageExists := true
  alert := stored.analysisMode = some analysisModeCorrelation
  analysisMode := stored.analysisMode
  switched := false
  phase := .idle

def addDelays (tables : WorkTables) (delays : List (String × String)) : WorkTables :=
  delays.foldl (fun tables delay => tables.addDelayedAnalysisRequest ⟨uuid, delay.1, delay.2⟩)
    tables

/-- What a worker may be handed: a row of `workload` that is there, or a row of
`delayed_analysis` that was there when it was listed. -/
def canPick (h : RootHistory) (target : WorkTarget) : Bool :=
  target.uuid = uuid &&
    match target with
    | .delayed _ => true
    | .root row analysisMode =>
      decide (row ∈ h.tables.workload.rows) &&
        decide (analysisMode ∈ [none, some row.2.analysisMode])

/-- From `_check_disposition` to the end of `_execute_analysis`. -/
def analyze (h : RootHistory) (target : WorkTarget) (relocated : Bool) (effects : ModuleEffects) :
    RootHistory :=
  let modes := modesAfterLoad h.stored.analysisMode relocated target
  match effects.outcome with
  | .skipped =>
    if modes.analysisMode = some analysisModeCorrelation then
      { h with phase := .analyzed target modes h.stored.tree }
    else h
  | outcome =>
    let modes := effects.assigned.foldl (fun modes mode => modes.setAnalysisMode (some mode)) modes
    let tables := addDelays uuid h.tables effects.delays
    { h with
      tables :=
        if outcome = .aborted then tables.clearDelayedAnalysisRequests uuid else tables
      stored := ⟨modes.analysisMode, effects.tree⟩
      phase := .analyzed target modes effects.tree }

def convertToAlert (h : RootHistory) (modes : RootModes) (tree : RootTree) : RootHistory :=
  { h with stored := ⟨modes.analysisMode, tree⟩, alert := true }

def handleAnalysisModeChanges (h : RootHistory) (modes : RootModes) (tree : RootTree) :
    RootHistory × RootModes :=
  if modes.analysisMode ≠ modes.originalAnalysisMode then
    let h := if modes.analysisMode = some analysisModeCorrelation then h.convertToAlert modes tree
      else h
    -- scheduling a root without a mode gives it the default mode
    let modes :=
      if modes.analysisMode = none then modes.setAnalysisMode (some config.defaultAnalysisMode)
      else modes
    ({ h with
        tables := h.tables.addWorkload config.defaultAnalysisMode uuid modes.analysisMode }, modes)
  else (h, modes)

/-- The switch to correlation mode, if there is one: detection points are handled when no other
work is outstanding. -/
def switchesTo (h : RootHistory) (target : WorkTarget) (modes : RootModes) (tree : RootTree) :
    Option (RootModes × RootTree) :=
  if checkForOutstandingWork h.tables uuid target modes.originalAnalysisMode then none
  else handleDetectionPoints config modes tree

/-- `_check_outstanding_work_and_handle_detections` and `_handle_analysis_mode_changes`. -/
def decide (h : RootHistory) (target : WorkTarget) (modes : RootModes) (tree : RootTree) :
    RootHistory :=
  let switch := h.switchesTo config uuid target modes tree
  let (modes, tree) := switch.getD (modes, tree)
  let (h', modes) := h.handleAnalysisModeChanges config uuid modes tree
  { h' with
    analysisMode := modes.analysisMode
    switched := h.switched || switch.isSome
    phase := .decided target modes }

/-- `_handle_cleanup`. -/
def cleanUp (h : RootHistory) (target : WorkTarget) (modes : RootModes) : RootHistory :=
  { h with
    storageExists := h.storageExists ∧
      ¬ (config.cleansUp modes.analysisMode ∧
        ¬ checkForOutstandingWork h.tables uuid target modes.originalAnalysisMode)
    phase := .finished target modes.originalAnalysisMode true }

def clear (h : RootHistory) (target : WorkTarget) (original : Option AnalysisMode) :
    RootHistory :=
  { h with
    tables :=
      match target with
      | .delayed row => h.tables.deleteDelayedAnalysis row.1
      | .root _ _ => h.tables.deleteWorkload uuid original
    phase := .idle }

/-- The state after an event. An event that does not fit the phase changes nothing. -/
def step (h : RootHistory) : RootEvent → RootHistory
  | .pick target =>
    if h.phase = .idle ∧ h.canPick uuid target then { h with phase := .handed target } else h
  | .abandon delays =>
    match h.phase with
    | .handed _ => { h with tables := addDelays uuid h.tables delays, phase := .idle }
    | _ => h
  | .endEarly original =>
    match h.phase with
    | .handed target => { h with phase := .finished target original false }
    | _ => h
  | .analyze relocated effects =>
    match h.phase with
    | .handed target => if h.storageExists then h.analyze uuid target relocated effects else h
    | _ => h
  | .decide =>
    match h.phase with
    | .analyzed target modes tree => h.decide config uuid target modes tree
    | _ => h
  | .cleanUp =>
    match h.phase with
    | .decided target modes => h.cleanUp config uuid target modes
    | _ => h
  | .clear =>
    match h.phase with
    | .finished target original _ => h.clear uuid target original
    | _ => h
  | .addWorkload analysisMode =>
    { h with tables := h.tables.addWorkload config.defaultAnalysisMode uuid analysisMode }
  | .setDisposition disposition =>
    if h.alert then { h with tables := h.tables.setDispositions [uuid] disposition } else h

end RootHistory

end Ace3.Engine
