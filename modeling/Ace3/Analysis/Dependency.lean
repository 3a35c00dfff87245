import Mathlib.Data.List.Basic

/-!
# Analysis Dependencies

The data of `saq/analysis/dependency.py`: one `AnalysisDependency` says that the analysis of
`source_observable` by the module generating `source_analysis_type` waits for the analysis of
`target_observable` of type `target_analysis_type`.

Observables are named by uuid and analysis types by the `MODULE_PATH` that keys
`Observable.analysis`. `next` and `prev` are positions in `dependency_tracking`, which only grows
while the engine analyzes a root.
-/

namespace Ace3.Analysis

abbrev Uuid := String

/-- A `MODULE_PATH` result such as `saq.modules.test:WaitAnalysis_A`. -/
abbrev ModulePath := String

/-! ## §1 The registry as the dependencies see it -/

/-- What `Observable.analysis` holds under a module path: the sentinel `False` recorded by
`add_no_analysis`, or an `Analysis` with its `completed` and `delayed` flags. -/
inductive AnalysisSlot where
  | noAnalysis
  | analysis (completed delayed : Bool)
  deriving DecidableEq

def AnalysisSlot.isDelayed : AnalysisSlot → Bool
  | .noAnalysis => false
  | .analysis _ delayed => delayed

/-- The observables of a tree by uuid, each with its `analysis` dictionary. -/
structure ObservableRegistry where
  getById : Uuid → Option (ModulePath → Option AnalysisSlot)

def ObservableRegistry.isDelayed (registry : ObservableRegistry) (uuid : Uuid)
    (analysisType : ModulePath) : Bool :=
  match registry.getById uuid with
  | none => false
  | some analysis => (analysis analysisType).any AnalysisSlot.isDelayed

/-! ## §2 Dependencies -/

/-- A node of the dependency graph: an observable and a type of analysis of it. -/
structure AnalysisNode where
  observableId : Uuid
  analysisType : ModulePath
  deriving DecidableEq

/-- `STATUS_READY`, `STATUS_FAILED`, `STATUS_COMPLETED` and `STATUS_RESOLVED`. -/
inductive DependencyStatus where
  | ready
  | failed
  | completed
  | resolved
  deriving DecidableEq

/-- `AnalysisDependency.increment_status`: a failed or resolved dependency keeps its status. -/
def DependencyStatus.increment : DependencyStatus → DependencyStatus
  | .ready => .completed
  | .completed => .resolved
  | status => status

/-- The dictionary that `AnalysisDependency.json` returns and `from_json` reads. -/
structure DependencyJson where
  targetObservableId : Uuid
  targetAnalysisType : ModulePath
  sourceObservableId : Uuid
  sourceAnalysisType : ModulePath
  status : DependencyStatus
  failureReason : Option String
  deriving DecidableEq

/-- A dependency object: its serialized fields and the links `_link_dependencies` sets. -/
structure AnalysisDependency extends DependencyJson where
  next : Option Nat
  prev : Option Nat
  deriving DecidableEq

namespace DependencyJson

def target (dep : DependencyJson) : AnalysisNode :=
  ⟨dep.targetObservableId, dep.targetAnalysisType⟩

def source (dep : DependencyJson) : AnalysisNode :=
  ⟨dep.sourceObservableId, dep.sourceAnalysisType⟩

/-- A dependency as `add_dependency` constructs it. -/
def new (source target : AnalysisNode) : DependencyJson where
  targetObservableId := target.observableId
  targetAnalysisType := target.analysisType
  sourceObservableId := source.observableId
  sourceAnalysisType := source.analysisType
  status := .ready
  failureReason := none

@[simp] theorem target_new (source target : AnalysisNode) : (new source target).target = target :=
  rfl

@[simp] theorem source_new (source target : AnalysisNode) : (new source target).source = source :=
  rfl

end DependencyJson

/-- `AnalysisDependency.from_json`: the links are not serialized. -/
def AnalysisDependency.fromJson (json : DependencyJson) : AnalysisDependency :=
  { json with next := none, prev := none }

@[simp] theorem AnalysisDependency.fromJson_toDependencyJson (json : DependencyJson) :
    (AnalysisDependency.fromJson json).toDependencyJson = json := rfl

@[simp] theorem AnalysisDependency.fromJson_next (json : DependencyJson) :
    (AnalysisDependency.fromJson json).next = none := rfl

end Ace3.Analysis
