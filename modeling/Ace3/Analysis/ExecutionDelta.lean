import Ace3.Analysis.Observable

/-!
# Module Execution Deltas

The records of `saq/analysis/module_execution_delta.py`: what one module execution changed, with
the properties that `put_cached_delta` looks at, and their dict forms. A dict with fixed keys is
a structure of options here, where none stands for a missing key.
-/

namespace Ace3.Analysis

/-! ## §1 Records -/

/-- A relationship as a delta holds it, with the type, value and time of its target. -/
structure RelationshipDict where
  type : Option String
  target : Option NodeUuid
  targetType : Option ObservableType
  targetValue : Option String
  targetTime : Option String
  deriving DecidableEq

structure ObservableDiff where
  addedTags : List String
  removedTags : List String
  addedDetections : List DetectionDict
  removedDetections : List DetectionDict
  addedDirectives : List String
  removedDirectives : List String
  addedRelationships : List RelationshipDict
  removedRelationships : List RelationshipDict
  addedExcludedAnalysis : List String
  removedExcludedAnalysis : List String
  addedLimitedAnalysis : List String
  removedLimitedAnalysis : List String
  /-- Scalar transitions: before and after, or none if unchanged. -/
  groupingTarget : Option (Bool × Bool)
  redirection : Option (Option NodeUuid × Option NodeUuid)
  ignored : Option (Bool × Bool)
  deriving DecidableEq

structure ObservableSpec where
  uuid : NodeUuid
  type : ObservableType
  value : String
  time : Option String
  initialTags : List String
  initialDirectives : List String
  initialDetections : List DetectionDict
  initialExcludedAnalysis : List String
  initialLimitedAnalysis : List String
  filePath : Option String
  volatile : Bool
  initialRelationships : List RelationshipDict
  initialRedirection : Option NodeUuid
  deriving DecidableEq

structure RootDiff where
  addedTags : List String
  removedTags : List String
  addedDetections : List DetectionDict
  removedDetections : List DetectionDict
  deriving DecidableEq

structure AnalysisChildrenDiff where
  analysisModulePath : AnalysisPath
  parentObservableUuid : NodeUuid
  addedChildUuids : List NodeUuid
  removedChildUuids : List NodeUuid
  deriving DecidableEq

/-- The dict of `_serialize_analysis`. -/
structure AnalysisDict where
  modulePath : AnalysisPath
  summary : Option String
  summaryDetails : Option (List SummaryDetail)
  completed : Option Bool
  delayed : Option Bool
  externalDetailsPath : Option String
  tags : Option (List String)
  details : Option Details
  deriving DecidableEq

structure ModuleExecutionDelta where
  modulePath : String
  moduleInstance : Option String
  moduleVersion : Int
  observableUuid : NodeUuid
  observableType : ObservableType
  observableValue : String
  createdAt : String
  executionTimeMs : Nat
  rootUuid : String
  analysis : Option AnalysisDict
  targetObservableDiff : ObservableDiff
  newObservables : List ObservableSpec
  rootDiff : RootDiff
  cacheKey : Option String
  wideDiff : Bool
  otherObservableDiffs : List (NodeUuid × ObservableDiff)
  analysisChildrenDiffs : List AnalysisChildrenDiff
  fromCacheHit : Bool
  cachedAt : Option String
  deriving DecidableEq

/-! ## §2 Properties -/

namespace ObservableDiff

def empty : ObservableDiff where
  addedTags := []
  removedTags := []
  addedDetections := []
  removedDetections := []
  addedDirectives := []
  removedDirectives := []
  addedRelationships := []
  removedRelationships := []
  addedExcludedAnalysis := []
  removedExcludedAnalysis := []
  addedLimitedAnalysis := []
  removedLimitedAnalysis := []
  groupingTarget := none
  redirection := none
  ignored := none

def hasRemovals (diff : ObservableDiff) : Bool :=
  diff.removedTags ≠ [] ∨ diff.removedDetections ≠ [] ∨ diff.removedDirectives ≠ [] ∨
    diff.removedRelationships ≠ [] ∨ diff.removedExcludedAnalysis ≠ [] ∨
    diff.removedLimitedAnalysis ≠ []

/-- `is_empty`, field by field. -/
def isEmpty (diff : ObservableDiff) : Bool :=
  diff.addedTags = [] ∧ diff.removedTags = [] ∧ diff.addedDetections = [] ∧
    diff.removedDetections = [] ∧ diff.addedDirectives = [] ∧ diff.removedDirectives = [] ∧
    diff.addedRelationships = [] ∧ diff.removedRelationships = [] ∧
    diff.addedExcludedAnalysis = [] ∧ diff.removedExcludedAnalysis = [] ∧
    diff.addedLimitedAnalysis = [] ∧ diff.removedLimitedAnalysis = [] ∧
    diff.groupingTarget = none ∧ diff.redirection = none ∧ diff.ignored = none

end ObservableDiff

namespace RootDiff

def empty : RootDiff := ⟨[], [], [], []⟩

def isEmpty (diff : RootDiff) : Bool :=
  diff.addedTags = [] ∧ diff.removedTags = [] ∧ diff.addedDetections = [] ∧
    diff.removedDetections = []

end RootDiff

def AnalysisChildrenDiff.isEmpty (diff : AnalysisChildrenDiff) : Bool :=
  diff.addedChildUuids = [] ∧ diff.removedChildUuids = []

namespace ModuleExecutionDelta

def hasRemovals (delta : ModuleExecutionDelta) : Bool :=
  delta.targetObservableDiff.hasRemovals ∨ delta.rootDiff.removedTags ≠ [] ∨
    delta.rootDiff.removedDetections ≠ [] ∨ delta.otherObservableDiffs.any (·.2.hasRemovals) ∨
    delta.analysisChildrenDiffs.any (·.removedChildUuids ≠ [])

def isEmpty (delta : ModuleExecutionDelta) : Bool :=
  delta.targetObservableDiff.isEmpty ∧ delta.newObservables = [] ∧ delta.rootDiff.isEmpty ∧
    delta.analysis = none ∧ delta.otherObservableDiffs = [] ∧ delta.analysisChildrenDiffs = []

def fileObservableSpecs (delta : ModuleExecutionDelta) : List ObservableSpec :=
  delta.newObservables.filter (·.type = fFile)

/-- The uuids that a relationship or redirection of the delta may point to. -/
def scope (delta : ModuleExecutionDelta) : List NodeUuid :=
  delta.observableUuid :: delta.newObservables.map (·.uuid)

def outOfScope (delta : ModuleExecutionDelta) (rel : RelationshipDict) : Bool :=
  rel.target.all (· ∉ delta.scope)

/-- `out_of_scope_relationship_targets`. It looks at the relationships of the target and at the
relationships and redirections of new observables, not at the redirection of the target. -/
def outOfScopeRelationshipTargets (delta : ModuleExecutionDelta) : List RelationshipDict :=
  delta.targetObservableDiff.addedRelationships.filter delta.outOfScope ++
    delta.newObservables.flatMap fun spec =>
      spec.initialRelationships.filter delta.outOfScope ++
        match spec.initialRedirection with
        | none => []
        | some uuid =>
          if uuid ∈ delta.scope then [] else [⟨some "redirection", some uuid, none, none, none⟩]

end ModuleExecutionDelta

/-! ## §3 References -/

/-- A relationship of a type, or a redirection, from one observable to another. -/
structure Reference where
  source : NodeUuid
  /-- None for a redirection. -/
  rType : Option String
  target : NodeUuid
  deriving DecidableEq

def RelationshipDict.reference (source : NodeUuid) (rel : RelationshipDict) : Option Reference :=
  match rel.type, rel.target with
  | some rType, some target => if rType = "" then none else some ⟨source, some rType, target⟩
  | _, _ => none

def ObservableSpec.references (spec : ObservableSpec) : List Reference :=
  spec.initialRelationships.filterMap (·.reference spec.uuid) ++
    (spec.initialRedirection.map (Reference.mk spec.uuid none)).toList

namespace ModuleExecutionDelta

def references (delta : ModuleExecutionDelta) : List Reference :=
  delta.newObservables.flatMap (·.references) ++
    delta.targetObservableDiff.addedRelationships.filterMap (·.reference delta.observableUuid) ++
    ((delta.targetObservableDiff.redirection.bind (·.2)).map
      (Reference.mk delta.observableUuid none)).toList

end ModuleExecutionDelta

end Ace3.Analysis
