import Ace3.Analysis.RootAnalysis
import Ace3.Analysis.ExecutionDelta

/-!
# Writing and Replaying Cached Deltas

`put_cached_delta` and `apply_delta` of `saq/analysis/cache.py`. Beside the root, a replay keeps
the endpoints it has written: which relationship or redirection was set on which observable.
-/

namespace Ace3.Analysis

/-! ## §1 `put_cached_delta` -/

/-- What `put_cached_delta` reads beside the delta. -/
structure CacheWrite where
  /-- `cache_ttl` of the module. -/
  cacheTtl : Option Nat
  /-- The size of the file at a path in the source root, unless it is missing; no root at all is
  none. -/
  fileSize : Option (String → Option Nat)
  fileBlobMaxBytes : Nat
  enabled : Bool
  /-- `generate_cache_key`. -/
  cacheKey : Option String
  /-- The sha256 of the bytes found at a path when they are stored. -/
  storedSha : String → String
  compressedSize : Nat
  maxCompressedBytes : Nat

/-- `_validate_file_specs` finds no reason to refuse. -/
def CacheWrite.validFileSpec (w : CacheWrite) (spec : ObservableSpec) : Bool :=
  match w.fileSize, spec.filePath with
  | some fileSize, some path =>
    path ≠ "" ∧ (fileSize path).any fun size => w.fileBlobMaxBytes = 0 ∨ size ≤ w.fileBlobMaxBytes
  | _, _ => false

/-- `put_cached_delta` writes a row. -/
def CacheWrite.putCachedDelta (w : CacheWrite) (rt : Runtime) (delta : ModuleExecutionDelta) :
    Bool :=
  w.cacheTtl ≠ none ∧ ¬ delta.isEmpty ∧ ¬ delta.hasRemovals ∧
    delta.outOfScopeRelationshipTargets = [] ∧
    delta.analysis.all (fun analysis => analysis.delayed ≠ some true) ∧
    delta.fileObservableSpecs.all w.validFileSpec ∧ w.enabled ∧
    (delta.cacheKey.or w.cacheKey) ≠ none ∧
    delta.fileObservableSpecs.all (fun spec =>
      rt.hasBlob spec.value ∨ w.storedSha (spec.filePath.getD "") = spec.value) ∧
    w.compressedSize ≤ w.maxCompressedBytes

/-! ## §2 Replayed endpoints -/

/-- `uuid_map`: the observables of this root that stand for those of the source root, the last
entry first. -/
abbrev UuidMap := List (NodeUuid × NodeUuid)

/-- A relationship or redirection of the delta that was set on the observable `source` of this
root, to the uuid `target`. -/
structure EndpointWrite where
  reference : Reference
  source : NodeUuid
  target : NodeUuid
  deriving DecidableEq

/-- A root during a replay, and the endpoints written so far. -/
structure Replay where
  root : RootAnalysis
  writes : List EndpointWrite
  deriving DecidableEq

/-! ## §3 The steps of `apply_delta` -/

/-- `add_detection_point` with what a detection dict holds, unless its description is empty. -/
def addDetectionDict (rt : Runtime) (detection : DetectionDict) : Option DetectionPoint :=
  match detection.description with
  | none => none
  | some description =>
    if description = "" then none
    else some (.new rt description detection.details detection.queue detection.signatureUuid
      detection.signatureVersion)

namespace Observable

def addDetectionDicts (rt : Runtime) (detections : List DetectionDict) (o : Observable) :
    Observable :=
  (detections.filterMap (addDetectionDict rt)).foldl addDetectionPoint o

def applySpec (rt : Runtime) (spec : ObservableSpec) (o : Observable) : Observable :=
  let o := spec.initialTags.foldl addTag o
  let o := spec.initialDirectives.foldl addDirective o
  let o := o.addDetectionDicts rt spec.initialDetections
  let o := spec.initialExcludedAnalysis.foldl addExcludedAnalysis o
  spec.initialLimitedAnalysis.foldl addLimitedAnalysis o

def applyMarks (rt : Runtime) (diff : ObservableDiff) (o : Observable) : Observable :=
  diff.addedDirectives.foldl addDirective
    ((diff.addedTags.foldl addTag o).addDetectionDicts rt diff.addedDetections)

def applyLimits (diff : ObservableDiff) (o : Observable) : Observable :=
  let o := diff.addedExcludedAnalysis.foldl addExcludedAnalysis o
  let o := diff.addedLimitedAnalysis.foldl addLimitedAnalysis o
  match diff.groupingTarget with
  | none => o
  | some (_, after) => { o with groupingTarget := after }

def applyIgnored (diff : ObservableDiff) (o : Observable) : Observable :=
  match diff.ignored with
  | none => o
  | some (_, after) => { o with ignored := after }

end Observable

/-- The time of a spec or relationship dict; a time that does not parse is dropped. -/
def parseTime (rt : Runtime) (time : Option String) : Option ObservableTime :=
  time.bind fun s => if s = "" then none else rt.parseEventTime s

namespace RootAnalysis

/-- `_apply_observable_spec`: the root and the observable that was added, if any; none when the
file cannot be stored. -/
def applyObservableSpec (rt : Runtime) (root : RootAnalysis) (parent : Parent)
    (spec : ObservableSpec) : Option (RootAnalysis × Option NodeUuid) :=
  let added :=
    if spec.type = fFile then
      root.addFileObservable rt parent spec.value spec.filePath spec.volatile
    else
      some (root.addObservableBySpec rt parent spec.type spec.value (parseTime rt spec.time)
        spec.volatile)
  added.map fun
    | (root, none) => (root, none)
    | (root, some o) => (root.modify o.uuid (·.applySpec rt spec), some o.uuid)

/-- The loop over `new_observables` that fills `uuid_map`. -/
def applyObservableSpecs (rt : Runtime) (parent : Parent) (root : RootAnalysis)
    (uuidMap : UuidMap) : List ObservableSpec → Option (RootAnalysis × UuidMap)
  | [] => some (root, uuidMap)
  | spec :: specs =>
    match root.applyObservableSpec rt parent spec with
    | none => none
    | some (root, none) => root.applyObservableSpecs rt parent uuidMap specs
    | some (root, some uuid) => root.applyObservableSpecs rt parent ((spec.uuid, uuid) :: uuidMap) specs

/-- The last way in which `_apply_relationship` looks for a target. -/
def resolveBySpec (rt : Runtime) (root : RootAnalysis) (rel : RelationshipDict) :
    Option NodeUuid :=
  match rel.targetType with
  | none => none
  | some type =>
    if type = "" then none
    else (root.getObservableBySpec rt type rel.targetValue (parseTime rt rel.targetTime)).map
      (·.uuid)

def resolveTarget (rt : Runtime) (root : RootAnalysis) (uuidMap : UuidMap)
    (rel : RelationshipDict) (target : NodeUuid) : Option NodeUuid :=
  (uuidMap.lookup target).or <| ((root.getObservable target).map (·.uuid)).or <|
    root.resolveBySpec rt rel

end RootAnalysis

namespace Replay

/-- `_apply_relationship` on the observable `source`, which stands for `recorded`. -/
def applyRelationship (rt : Runtime) (uuidMap : UuidMap) (recorded source : NodeUuid)
    (replay : Replay) (rel : RelationshipDict) : Option Replay :=
  match rel.reference recorded with
  | none => some replay
  | some reference =>
    match replay.root.resolveTarget rt uuidMap rel reference.target with
    | none => some replay
    | some uuid =>
      (replay.root.addRelationship rt source (reference.rType.getD "") uuid).map fun root =>
        ⟨root, replay.writes ++ [⟨reference, source, uuid⟩]⟩

/-- `observable._redirection = ...`. -/
def setRedirection (replay : Replay) (recorded source : NodeUuid)
    (redirection : Option (NodeUuid × NodeUuid)) : Replay where
  root := replay.root.modify source fun o => { o with redirection := redirection.map (·.2) }
  writes := replay.writes ++
    (redirection.map fun (target, uuid) => ⟨⟨recorded, none, target⟩, source, uuid⟩).toList

/-- The redirection of a new observable in the second pass. -/
def applySpecRedirection (uuidMap : UuidMap) (recorded source : NodeUuid)
    (redirection : Option NodeUuid) (replay : Replay) : Replay :=
  match redirection with
  | none => replay
  | some target =>
    match (uuidMap.lookup target).or ((replay.root.getObservable target).map (·.uuid)) with
    | none => replay
    | some uuid => replay.setRedirection recorded source (some (target, uuid))

/-- The second pass over one of `new_observables`. -/
def applySpecEndpoints (rt : Runtime) (uuidMap : UuidMap) (replay : Replay)
    (spec : ObservableSpec) : Option Replay :=
  match uuidMap.lookup spec.uuid with
  | none => some replay
  | some source =>
    (spec.initialRelationships.foldlM (applyRelationship rt uuidMap spec.uuid source) replay).map
      (applySpecRedirection uuidMap spec.uuid source spec.initialRedirection)

/-- A change of one observable that sets no endpoint. -/
def modify (replay : Replay) (uuid : NodeUuid) (f : Observable → Observable) : Replay :=
  { replay with root := replay.root.modify uuid f }

/-- The redirection of the analyzed observable is assigned as the uuid it was in the source
root. -/
def applyRedirection (recorded target : NodeUuid)
    (redirection : Option (Option NodeUuid × Option NodeUuid)) (replay : Replay) : Replay :=
  match redirection with
  | none => replay
  | some (_, after) => replay.setRedirection recorded target (after.map fun uuid => (uuid, uuid))

def applyObservableDiff (rt : Runtime) (target sourceObservableUuid : NodeUuid)
    (diff : ObservableDiff) (replay : Replay) : Option Replay :=
  (diff.addedRelationships.foldlM
    (applyRelationship rt [(sourceObservableUuid, target)] sourceObservableUuid target)
    (replay.modify target (·.applyMarks rt diff))).map fun replay =>
      ((replay.modify target (·.applyLimits diff)).applyRedirection sourceObservableUuid target
        diff.redirection).modify target (·.applyIgnored diff)

end Replay

namespace RootAnalysis

def applyRootDiff (rt : Runtime) (root : RootAnalysis) (diff : RootDiff) : RootAnalysis :=
  { root with
    tags := diff.addedTags.foldl addNew root.tags
    detections := (diff.addedDetections.filterMap (addDetectionDict rt)).foldl addNew
      root.detections }

/-- `_class()` and the `analysis.json` setter: the analysis that a dict describes. The instance
of the module path is not set on it. -/
def rehydrated (rt : Runtime) (dict : AnalysisDict) : AnalysisObject where
  modulePath :=
    if rt.canImport dict.modulePath.classPath then ⟨dict.modulePath.classPath, none⟩
    else dict.modulePath
  summary := dict.summary
  summaryDetails := dict.summaryDetails.getD []
  completed := dict.completed.getD true
  delayed := dict.delayed.getD false
  tags := dict.tags.getD []
  details := dict.details.getD (.object "{}")
  observables := []

/-- `add_analysis_to_tree`: the slot of the analysis is set. -/
def addAnalysis (root : RootAnalysis) (target : NodeUuid) (analysis : AnalysisObject) :
    RootAnalysis :=
  root.modify target (·.setAnalysis analysis)

def rehydrateAnalysis (rt : Runtime) (root : RootAnalysis) (target : NodeUuid)
    (dict : Option AnalysisDict) : RootAnalysis × Option AnalysisPath :=
  match dict with
  | none => (root, none)
  | some dict =>
    match (root.getObservable target).bind (·.analysis.lookup dict.modulePath) with
    | some (some _) => (root, some dict.modulePath)
    | _ => (root.addAnalysis target (rehydrated rt dict), some (rehydrated rt dict).modulePath)

end RootAnalysis

/-! ## §4 `apply_delta` -/

/-- The first half of `apply_delta`: the analysis and the new observables, with `uuid_map`; none
when a file cannot be staged or stored. -/
def replayObservables (rt : Runtime) (root : RootAnalysis) (target : NodeUuid)
    (delta : ModuleExecutionDelta) : Option (RootAnalysis × UuidMap) :=
  if delta.wideDiff ∨ ¬ delta.fileObservableSpecs.all (fun spec => rt.hasBlob spec.value) then none
  else
    let (root, analysisPath) := root.rehydrateAnalysis rt target delta.analysis
    root.applyObservableSpecs rt (analysisPath.elim .root (.analysis target))
      [(delta.observableUuid, target)] delta.newObservables

/-- The second half: relationships and redirections of the new observables, what changed on the
target, and what changed on the root. -/
def replayChanges (rt : Runtime) (root : RootAnalysis) (uuidMap : UuidMap) (target : NodeUuid)
    (delta : ModuleExecutionDelta) : Option Replay :=
  ((delta.newObservables.foldlM (Replay.applySpecEndpoints rt uuidMap) ⟨root, []⟩).bind
      (Replay.applyObservableDiff rt target delta.observableUuid delta.targetObservableDiff)).map
    fun replay => { replay with root := replay.root.applyRootDiff rt delta.rootDiff }

/-- `apply_delta` on the observable `target` of a root; none when it raises. Every file is staged
from the blob store before the root is touched. -/
def applyDelta (rt : Runtime) (root : RootAnalysis) (target : NodeUuid)
    (delta : ModuleExecutionDelta) : Option Replay :=
  (replayObservables rt root target delta).bind fun (root, uuidMap) =>
    replayChanges rt root uuidMap target delta

end Ace3.Analysis
