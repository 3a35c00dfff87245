import Ace3.Analysis.Dependency
import Ace3.Lib.Digraph

/-!
# The Dependency Manager

The operations of `saq/analysis/dependency_manager.py` and the properties of
`saq/analysis/dependency.py` that walk the `next` links.

The cycle check walks backwards over the tracked dependencies, and `failed`, `delayed` and `score`
walk forwards over `next`, without a bound in the source. The model gives each one more step than
there are dependencies; a walk that would take longer repeats a dependency, and its result is
`DependencyError.diverges`.
-/

namespace Ace3.Analysis

open Lib.Digraph

/-- The ways an operation on dependencies ends without a result. -/
inductive DependencyError where
  /-- `RuntimeError("CIRCULAR DEPENDENCY ERROR: ...")` of `_check_circular_dependency`. -/
  | circularDependency
  /-- `RuntimeError("source observable {} not found")` of `delayed`. -/
  | sourceObservableNotFound (uuid : Uuid)
  /-- An attribute of `None`, where `get_by_id` found no observable. -/
  | attributeError
  /-- The recursion or loop never ends. -/
  | diverges
  deriving DecidableEq

/-- The state of an `AnalysisDependencyManager`; the position of a dependency in
`dependency_tracking` is its object identity. -/
structure AnalysisDependencyManager where
  dependencyTracking : List AnalysisDependency
  deriving DecidableEq

/-- The arguments of a call of `add_dependency`: the observables are objects of the tree, so
the registry holds both. -/
structure DependencyRequest (registry : ObservableRegistry) where
  source : AnalysisNode
  target : AnalysisNode
  source_registered : (registry.getById source.observableId).isSome
  target_registered : (registry.getById target.observableId).isSome

namespace AnalysisDependencyManager

def empty : AnalysisDependencyManager := ⟨[]⟩

/-! ## §1 Queries -/

def getDependenciesForObservable (manager : AnalysisDependencyManager) (uuid : Uuid) :
    List AnalysisDependency :=
  manager.dependencyTracking.filter (·.targetObservableId = uuid)

/-- `get_dependency_by_type`: the position of the first dependency on this analysis. -/
def getDependencyByType (manager : AnalysisDependencyManager) (node : AnalysisNode) : Option Nat :=
  manager.dependencyTracking.findIdx? (·.target = node)

/-- The dependencies whose target is a given node, as the cycle check selects them. -/
def dependenciesOn (manager : AnalysisDependencyManager) (node : AnalysisNode) :
    List AnalysisDependency :=
  (manager.getDependenciesForObservable node.observableId).filter
    (·.targetAnalysisType = node.analysisType)

/-- The successor that the `next` attribute of a dependency object refers to. -/
def next (manager : AnalysisDependencyManager) (i : Nat) : Option Nat :=
  manager.dependencyTracking[i]?.bind (·.next)

/-- `AnalysisDependency.score`: the number of dependencies after this one in its chain. -/
def score (manager : AnalysisDependencyManager) (i : Nat) : Except DependencyError Nat :=
  match chain manager.next manager.dependencyTracking.length (manager.next i) with
  | none => .error .diverges
  | some visited => .ok visited.length

def hasFailed (manager : AnalysisDependencyManager) (i : Nat) : Bool :=
  manager.dependencyTracking[i]?.any (·.status = .failed)

def failed (manager : AnalysisDependencyManager) (i : Nat) : Except DependencyError Bool :=
  scan manager.next (fun j => .ok (manager.hasFailed j)) .diverges
    manager.dependencyTracking.length (some i)

def targetDelayed (registry : ObservableRegistry) (manager : AnalysisDependencyManager) (i : Nat) :
    Except DependencyError Bool :=
  match manager.dependencyTracking[i]? with
  | none => .ok false
  | some dep =>
    if (registry.getById dep.targetObservableId).isNone then .error .attributeError
    else .ok (registry.isDelayed dep.targetObservableId dep.targetAnalysisType)

/-- `AnalysisDependency.delayed`: the source analysis, or a target analysis in the chain, is
delayed. -/
def delayed (registry : ObservableRegistry) (manager : AnalysisDependencyManager) (i : Nat) :
    Except DependencyError Bool :=
  match manager.dependencyTracking[i]? with
  | none => .ok false
  | some dep =>
    if (registry.getById dep.sourceObservableId).isNone then
      .error (.sourceObservableNotFound dep.sourceObservableId)
    else if registry.isDelayed dep.sourceObservableId dep.sourceAnalysisType then .ok true
    else scan manager.next (targetDelayed registry manager) .diverges
      manager.dependencyTracking.length (some i)

def resolved (manager : AnalysisDependencyManager) (i : Nat) : Bool :=
  manager.dependencyTracking[i]?.any (·.status = .resolved)

/-- `active_dependencies`: neither failed, delayed nor resolved, sorted by score (the sort of
the source is stable). -/
def activeDependencies (registry : ObservableRegistry) (manager : AnalysisDependencyManager) :
    Except DependencyError (List Nat) := do
  let buffer ← (List.range manager.dependencyTracking.length).filterM fun i => do
    if ← manager.failed i then return false
    if ← manager.delayed registry i then return false
    return !manager.resolved i
  let scored ← buffer.mapM fun i => return (← manager.score i, i)
  return (scored.mergeSort fun a b => a.1 ≤ b.1).map (·.2)

/-! ## §2 The cycle check -/

/-- `resolve_node` of `_check_circular_dependency`, with the type of the new dependency's
target analysis. A source observable missing from the registry is only noticed by the first
line of the recursive call, which reads its `uuid`. -/
def resolveNode (registry : ObservableRegistry) (manager : AnalysisDependencyManager)
    (targetType : ModulePath) : Nat → AnalysisNode → Except DependencyError Unit
  | 0, _ => .error .diverges
  | fuel + 1, node =>
    (manager.dependenciesOn node).forM fun dep => do
      if targetType = dep.sourceAnalysisType then throw .circularDependency
      if (registry.getById dep.sourceObservableId).isNone then throw .attributeError
      resolveNode registry manager targetType fuel dep.source

def checkCircularDependency (registry : ObservableRegistry) (manager : AnalysisDependencyManager)
    (source target : AnalysisNode) : Except DependencyError Unit :=
  resolveNode registry manager target.analysisType
    (manager.dependencyTracking.length + 1) source

/-! ## §3 Adding, linking and reloading -/

/-- `_link_dependencies(target_dep)` for the dependency object at position `t`: every other
dependency whose target is its source gets it as `next`, and the last of these is its `prev`. -/
def linkDependencies (tracking : List AnalysisDependency) (t : Nat) : List AnalysisDependency :=
  match tracking[t]? with
  | none => tracking
  | some targetDep =>
    let linked := (List.range tracking.length).filter fun s =>
      s ≠ t ∧ tracking[s]?.any (·.target = targetDep.source)
    tracking.mapIdx fun s dep =>
      if s = t then { dep with prev := linked.getLast?.or dep.prev }
      else if s ∈ linked then { dep with next := some t }
      else dep

/-- The position of the tracked dependency with these two ends, if there is one. -/
def find (manager : AnalysisDependencyManager) (source target : AnalysisNode) : Option Nat :=
  manager.dependencyTracking.findIdx? fun dep => dep.source = source ∧ dep.target = target

def track (manager : AnalysisDependencyManager) (source target : AnalysisNode) :
    AnalysisDependencyManager :=
  ⟨linkDependencies
    (manager.dependencyTracking ++ [AnalysisDependency.fromJson (.new source target)])
    manager.dependencyTracking.length⟩

def addDependency {registry : ObservableRegistry} (manager : AnalysisDependencyManager)
    (request : DependencyRequest registry) :
    Except DependencyError (AnalysisDependencyManager × Nat) :=
  match manager.find request.source request.target with
  | some i => .ok (manager, i)
  | none => do
    checkCircularDependency registry manager request.source request.target
    return (manager.track request.source request.target, manager.dependencyTracking.length)

def serialize (manager : AnalysisDependencyManager) : List DependencyJson :=
  manager.dependencyTracking.map (·.toDependencyJson)

/-- `deserialize`: the objects are rebuilt without links, then each is linked in turn. -/
def deserialize (data : List DependencyJson) : AnalysisDependencyManager :=
  ⟨(List.range data.length).foldl linkDependencies (data.map AnalysisDependency.fromJson)⟩

def setStatusFailed (manager : AnalysisDependencyManager) (i : Nat) (reason : Option String) :
    AnalysisDependencyManager :=
  ⟨manager.dependencyTracking.modify i fun dep =>
    { dep with status := .failed, failureReason := reason }⟩

/-- `set_status_completed`, `set_status_resolved` and `increment_status`: a new status, and the
failure reason stays. -/
def setStatus (manager : AnalysisDependencyManager) (i : Nat)
    (update : DependencyStatus → DependencyStatus) : AnalysisDependencyManager :=
  ⟨manager.dependencyTracking.modify i fun dep => { dep with status := update dep.status }⟩

end AnalysisDependencyManager

end Ace3.Analysis
