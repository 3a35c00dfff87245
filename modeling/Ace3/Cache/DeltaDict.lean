import Ace3.Lib.Json

/-!
# Deltas and Their Dictionaries

The records of `saq/analysis/module_execution_delta.py` as the analysis result cache sees them:
analysis entries, detections and relationships are dictionaries of any content. `to_dict` leaves
empty fields out, and `from_dict` fills them in again. A value of another type, which `to_dict`
does not write, makes `from_dict` fail here.
-/

namespace Ace3.Cache

open Lib.Json

/-! ## §1 Records -/

structure ObservableDiff where
  addedTags : List String
  removedTags : List String
  addedDetections : List Dict
  removedDetections : List Dict
  addedDirectives : List String
  removedDirectives : List String
  addedRelationships : List Dict
  removedRelationships : List Dict
  addedExcludedAnalysis : List String
  removedExcludedAnalysis : List String
  addedLimitedAnalysis : List String
  removedLimitedAnalysis : List String
  groupingTarget : Option (Bool × Bool)
  redirection : Option (Option String × Option String)
  ignored : Option (Bool × Bool)

structure ObservableSpec where
  uuid : String
  type : String
  value : String
  time : Option String
  initialTags : List String
  initialDirectives : List String
  initialDetections : List Dict
  initialExcludedAnalysis : List String
  initialLimitedAnalysis : List String
  filePath : Option String
  volatile : Bool
  initialRelationships : List Dict
  initialRedirection : Option String

structure RootDiff where
  addedTags : List String
  removedTags : List String
  addedDetections : List Dict
  removedDetections : List Dict

structure AnalysisChildrenDiff where
  analysisModulePath : String
  parentObservableUuid : String
  addedChildUuids : List String
  removedChildUuids : List String

structure ModuleExecutionDelta where
  modulePath : String
  moduleInstance : Option String
  moduleVersion : Int
  observableUuid : String
  observableType : String
  observableValue : String
  createdAt : String
  executionTimeMs : Int
  rootUuid : String
  analysis : Option Dict
  targetObservableDiff : ObservableDiff
  newObservables : List ObservableSpec
  rootDiff : RootDiff
  cacheKey : Option String
  wideDiff : Bool
  otherObservableDiffs : List (String × ObservableDiff)
  analysisChildrenDiffs : List AnalysisChildrenDiff
  fromCacheHit : Bool
  cachedAt : Option String

/-! ## §2 `to_dict` -/

/-- A string, left out when it is `None`. -/
def strField (value : Option String) : Option Value := value.map .str

def flagField (value : Bool) : Option Value := if value then some (.bool true) else none

def stringsField : List String → Option Value := listField .str

/-- A list of dictionaries, left out when it is empty. -/
def dictsField : List Dict → Option Value := listField .dict

/-- `list(...)` of a pair of flags. -/
def flagsField (value : Option (Bool × Bool)) : Option Value :=
  value.map fun (before, after) => .list [.bool before, .bool after]

def optionalStr : Option String → Value
  | none => .null
  | some s => .str s

/-- `list(...)` of a pair of strings or `None`. -/
def redirectionField (value : Option (Option String × Option String)) : Option Value :=
  value.map fun (before, after) => .list [optionalStr before, optionalStr after]

namespace ObservableDiff

def empty : ObservableDiff where
  addedTags := []
  removedTags := []
  addedDetections := []
  removedDetections := []
  addedDirectives := []
  removedDirectives := []
  addedRelationships := []
  removedRelationships := []
  addedExcludedAnalysis := []
  removedExcludedAnalysis := []
  addedLimitedAnalysis := []
  removedLimitedAnalysis := []
  groupingTarget := none
  redirection := none
  ignored := none

def isEmpty (diff : ObservableDiff) : Bool :=
  diff.addedTags.isEmpty && diff.removedTags.isEmpty && diff.addedDetections.isEmpty &&
    diff.removedDetections.isEmpty && diff.addedDirectives.isEmpty &&
    diff.removedDirectives.isEmpty && diff.addedRelationships.isEmpty &&
    diff.removedRelationships.isEmpty && diff.addedExcludedAnalysis.isEmpty &&
    diff.removedExcludedAnalysis.isEmpty && diff.addedLimitedAnalysis.isEmpty &&
    diff.removedLimitedAnalysis.isEmpty && diff.groupingTarget.isNone &&
    diff.redirection.isNone && diff.ignored.isNone

def hasRemovals (diff : ObservableDiff) : Bool :=
  !diff.removedTags.isEmpty || !diff.removedDetections.isEmpty ||
    !diff.removedDirectives.isEmpty || !diff.removedRelationships.isEmpty ||
    !diff.removedExcludedAnalysis.isEmpty || !diff.removedLimitedAnalysis.isEmpty

def toDict (diff : ObservableDiff) : Dict := .ofFields [
  ("added_tags", stringsField diff.addedTags),
  ("removed_tags", stringsField diff.removedTags),
  ("added_detections", dictsField diff.addedDetections),
  ("removed_detections", dictsField diff.removedDetections),
  ("added_directives", stringsField diff.addedDirectives),
  ("removed_directives", stringsField diff.removedDirectives),
  ("added_relationships", dictsField diff.addedRelationships),
  ("removed_relationships", dictsField diff.removedRelationships),
  ("added_excluded_analysis", stringsField diff.addedExcludedAnalysis),
  ("removed_excluded_analysis", stringsField diff.removedExcludedAnalysis),
  ("added_limited_analysis", stringsField diff.addedLimitedAnalysis),
  ("removed_limited_analysis", stringsField diff.removedLimitedAnalysis),
  ("grouping_target", flagsField diff.groupingTarget),
  ("redirection", redirectionField diff.redirection),
  ("ignored", flagsField diff.ignored)]

end ObservableDiff

def ObservableSpec.toDict (spec : ObservableSpec) : Dict := .ofFields [
  ("uuid", some (.str spec.uuid)),
  ("type", some (.str spec.type)),
  ("value", some (.str spec.value)),
  ("time", strField spec.time),
  ("initial_tags", stringsField spec.initialTags),
  ("initial_directives", stringsField spec.initialDirectives),
  ("initial_detections", dictsField spec.initialDetections),
  ("initial_excluded_analysis", stringsField spec.initialExcludedAnalysis),
  ("initial_limited_analysis", stringsField spec.initialLimitedAnalysis),
  ("file_path", strField spec.filePath),
  ("volatile", flagField spec.volatile),
  ("initial_relationships", dictsField spec.initialRelationships),
  ("initial_redirection", strField spec.initialRedirection)]

namespace RootDiff

def empty : RootDiff := ⟨[], [], [], []⟩

def isEmpty (diff : RootDiff) : Bool :=
  diff.addedTags.isEmpty && diff.removedTags.isEmpty && diff.addedDetections.isEmpty &&
    diff.removedDetections.isEmpty

def toDict (diff : RootDiff) : Dict := .ofFields [
  ("added_tags", stringsField diff.addedTags),
  ("removed_tags", stringsField diff.removedTags),
  ("added_detections", dictsField diff.addedDetections),
  ("removed_detections", dictsField diff.removedDetections)]

end RootDiff

namespace AnalysisChildrenDiff

def isEmpty (diff : AnalysisChildrenDiff) : Bool :=
  diff.addedChildUuids.isEmpty && diff.removedChildUuids.isEmpty

def toDict (diff : AnalysisChildrenDiff) : Dict := .ofFields [
  ("analysis_module_path", some (.str diff.analysisModulePath)),
  ("parent_observable_uuid", some (.str diff.parentObservableUuid)),
  ("added_child_uuids", stringsField diff.addedChildUuids),
  ("removed_child_uuids", stringsField diff.removedChildUuids)]

end AnalysisChildrenDiff

/-- A dictionary, left out when it is `None`. -/
def dictField (value : Option Dict) : Option Value := value.map .dict

def recordField (isEmpty : Bool) (toDict : Dict) : Option Value :=
  if isEmpty then none else some (.dict toDict)

namespace ModuleExecutionDelta

def otherObservableDiffsField (diffs : List (String × ObservableDiff)) : Option Value :=
  if diffs.isEmpty then none
  else some (.dict ((diffs.filter (!·.2.isEmpty)).map fun item =>
    (item.1, .dict item.2.toDict)))

def analysisChildrenDiffsField (diffs : List AnalysisChildrenDiff) : Option Value :=
  if diffs.isEmpty then none
  else some (.list ((diffs.filter (!·.isEmpty)).map fun diff => .dict diff.toDict))

def toDict (delta : ModuleExecutionDelta) : Dict := .ofFields [
  ("module_path", some (.str delta.modulePath)),
  ("module_version", some (.int delta.moduleVersion)),
  ("observable_uuid", some (.str delta.observableUuid)),
  ("observable_type", some (.str delta.observableType)),
  ("observable_value", some (.str delta.observableValue)),
  ("created_at", some (.str delta.createdAt)),
  ("execution_time_ms", some (.int delta.executionTimeMs)),
  ("module_instance", strField delta.moduleInstance),
  ("root_uuid", if delta.rootUuid = "" then none else some (.str delta.rootUuid)),
  ("analysis", dictField delta.analysis),
  ("target_observable_diff",
    recordField delta.targetObservableDiff.isEmpty delta.targetObservableDiff.toDict),
  ("new_observables", listField (fun spec => .dict spec.toDict) delta.newObservables),
  ("root_diff", recordField delta.rootDiff.isEmpty delta.rootDiff.toDict),
  ("cache_key", strField delta.cacheKey),
  ("wide_diff", flagField delta.wideDiff),
  ("other_observable_diffs", otherObservableDiffsField delta.otherObservableDiffs),
  ("analysis_children_diffs", analysisChildrenDiffsField delta.analysisChildrenDiffs),
  ("from_cache_hit", flagField delta.fromCacheHit),
  ("cached_at", strField delta.cachedAt)]

end ModuleExecutionDelta

/-! ## §3 `from_dict` -/

def str? : Value → Option String
  | .str s => some s
  | _ => none

def int? : Value → Option Int
  | .int i => some i
  | _ => none

def dict? : Value → Option Dict
  | .dict items => some items
  | _ => none

/-- The value of `d.get(key)`, a string or `None`. -/
def optionalStr? : Option Value → Option (Option String)
  | none | some .null => some none
  | some (.str s) => some (some s)
  | some _ => none

/-- The flag behind `d.get(key, False)`. -/
def flag? : Option Value → Option Bool
  | none => some false
  | some (.bool b) => some b
  | some _ => none

/-- `tuple(d[key])` of a pair of flags, if the key is there. -/
def flags? : Option Value → Option (Option (Bool × Bool))
  | none => some none
  | some (.list [.bool before, .bool after]) => some (some (before, after))
  | some _ => none

/-- `tuple(d[key])` of a pair of strings or `None`, if the key is there. -/
def redirection? : Option Value → Option (Option (Option String × Option String))
  | none => some none
  | some (.list [before, after]) => do
    some (some (← optionalStr? (some before), ← optionalStr? (some after)))
  | some _ => none

def ObservableDiff.fromDict (data : Dict) : Option ObservableDiff := do
  some {
    addedTags := ← listOf str? (data.get "added_tags")
    removedTags := ← listOf str? (data.get "removed_tags")
    addedDetections := ← listOf dict? (data.get "added_detections")
    removedDetections := ← listOf dict? (data.get "removed_detections")
    addedDirectives := ← listOf str? (data.get "added_directives")
    removedDirectives := ← listOf str? (data.get "removed_directives")
    addedRelationships := ← listOf dict? (data.get "added_relationships")
    removedRelationships := ← listOf dict? (data.get "removed_relationships")
    addedExcludedAnalysis := ← listOf str? (data.get "added_excluded_analysis")
    removedExcludedAnalysis := ← listOf str? (data.get "removed_excluded_analysis")
    addedLimitedAnalysis := ← listOf str? (data.get "added_limited_analysis")
    removedLimitedAnalysis := ← listOf str? (data.get "removed_limited_analysis")
    groupingTarget := ← flags? (data.get "grouping_target")
    redirection := ← redirection? (data.get "redirection")
    ignored := ← flags? (data.get "ignored") }

def ObservableSpec.fromDict (data : Dict) : Option ObservableSpec := do
  some {
    uuid := ← (data.get "uuid").bind str?
    type := ← (data.get "type").bind str?
    value := ← (data.get "value").bind str?
    time := ← optionalStr? (data.get "time")
    initialTags := ← listOf str? (data.get "initial_tags")
    initialDirectives := ← listOf str? (data.get "initial_directives")
    initialDetections := ← listOf dict? (data.get "initial_detections")
    initialExcludedAnalysis := ← listOf str? (data.get "initial_excluded_analysis")
    initialLimitedAnalysis := ← listOf str? (data.get "initial_limited_analysis")
    filePath := ← optionalStr? (data.get "file_path")
    volatile := ← flag? (data.get "volatile")
    initialRelationships := ← listOf dict? (data.get "initial_relationships")
    initialRedirection := ← optionalStr? (data.get "initial_redirection") }

def RootDiff.fromDict (data : Dict) : Option RootDiff := do
  some {
    addedTags := ← listOf str? (data.get "added_tags")
    removedTags := ← listOf str? (data.get "removed_tags")
    addedDetections := ← listOf dict? (data.get "added_detections")
    removedDetections := ← listOf dict? (data.get "removed_detections") }

def AnalysisChildrenDiff.fromDict (data : Dict) : Option AnalysisChildrenDiff := do
  some {
    analysisModulePath := ← (data.get "analysis_module_path").bind str?
    parentObservableUuid := ← (data.get "parent_observable_uuid").bind str?
    addedChildUuids := ← listOf str? (data.get "added_child_uuids")
    removedChildUuids := ← listOf str? (data.get "removed_child_uuids") }

def observableDiffs? : Option Value → Option (List (String × ObservableDiff))
  | none => some []
  | some (.dict items) => items.mapM fun (uuid, value) => do
    some (uuid, ← (dict? value).bind ObservableDiff.fromDict)
  | some _ => none

/-- `data.get("analysis")`. -/
def analysis? : Option Value → Option (Option Dict)
  | none | some .null => some none
  | some value => (dict? value).map some

/-- `data.get(key, default)` of a value that is there or has a default. -/
def valueOr {α : Type*} (decode : Value → Option α) (default : α) : Option Value → Option α
  | none => some default
  | some value => decode value

def ModuleExecutionDelta.fromDict (data : Dict) : Option ModuleExecutionDelta := do
  some {
    modulePath := ← (data.get "module_path").bind str?
    moduleInstance := ← optionalStr? (data.get "module_instance")
    moduleVersion := ← (data.get "module_version").bind int?
    observableUuid := ← (data.get "observable_uuid").bind str?
    observableType := ← (data.get "observable_type").bind str?
    observableValue := ← (data.get "observable_value").bind str?
    createdAt := ← (data.get "created_at").bind str?
    executionTimeMs := ← valueOr int? 0 (data.get "execution_time_ms")
    rootUuid := ← valueOr str? "" (data.get "root_uuid")
    analysis := ← analysis? (data.get "analysis")
    targetObservableDiff :=
      ← valueOr (fun value => (dict? value).bind ObservableDiff.fromDict) .empty
        (data.get "target_observable_diff")
    newObservables :=
      ← listOf (fun value => (dict? value).bind ObservableSpec.fromDict)
        (data.get "new_observables")
    rootDiff :=
      ← valueOr (fun value => (dict? value).bind RootDiff.fromDict) .empty (data.get "root_diff")
    cacheKey := ← optionalStr? (data.get "cache_key")
    wideDiff := ← flag? (data.get "wide_diff")
    otherObservableDiffs := ← observableDiffs? (data.get "other_observable_diffs")
    analysisChildrenDiffs :=
      ← listOf (fun value => (dict? value).bind AnalysisChildrenDiff.fromDict)
        (data.get "analysis_children_diffs")
    fromCacheHit := ← flag? (data.get "from_cache_hit")
    cachedAt := ← optionalStr? (data.get "cached_at") }

/-! ## §4 Questions about a delta -/

namespace ModuleExecutionDelta

def hasRemovals (delta : ModuleExecutionDelta) : Bool :=
  delta.targetObservableDiff.hasRemovals ||
    !delta.rootDiff.removedTags.isEmpty || !delta.rootDiff.removedDetections.isEmpty ||
    delta.otherObservableDiffs.any (·.2.hasRemovals) ||
    delta.analysisChildrenDiffs.any (!·.removedChildUuids.isEmpty)

def isEmpty (delta : ModuleExecutionDelta) : Bool :=
  delta.targetObservableDiff.isEmpty && delta.newObservables.isEmpty && delta.rootDiff.isEmpty &&
    delta.analysis.isNone && delta.otherObservableDiffs.isEmpty &&
    delta.analysisChildrenDiffs.isEmpty

def fFile : String := "file"

def fileObservableSpecs (delta : ModuleExecutionDelta) : List ObservableSpec :=
  delta.newObservables.filter (·.type = fFile)

def allowed (delta : ModuleExecutionDelta) : List String :=
  delta.observableUuid :: delta.newObservables.map (·.uuid)

def outOfScope (delta : ModuleExecutionDelta) (rel : Dict) : Bool :=
  match rel.get "target" with
  | some (.str target) => target ∉ delta.allowed
  | _ => true

def outOfScopeRelationshipTargets (delta : ModuleExecutionDelta) : List Dict :=
  delta.targetObservableDiff.addedRelationships.filter delta.outOfScope ++
    delta.newObservables.flatMap fun spec =>
      spec.initialRelationships.filter delta.outOfScope ++
        match spec.initialRedirection with
        | none => []
        | some target =>
          if target ∈ delta.allowed then []
          else [[("type", .str "redirection"), ("target", .str target)]]

end ModuleExecutionDelta

end Ace3.Cache
