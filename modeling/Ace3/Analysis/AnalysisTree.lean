import Ace3.Analysis.Observable
import Mathlib.Logic.Function.Basic

/-!
# The Analysis Tree

The observables and analyses of a root as objects that refer to each other, and the operations
of the `AnalysisTreeManager` on them (`saq/analysis/analysis_tree/analysis_tree_manager.py`,
`saq/analysis/observable_registry.py`, `saq/analysis/observable.py`, `saq/analysis/root.py`).
An observable is an object of its own, whose uuid tells it from all others.
-/

namespace Ace3.Analysis

/-! ## §1 Objects -/

/-- What the objects of a tree are made with, and the settings of their types. -/
structure TreeObjects (ι κ : Type*) where
  type : ι → ObservableType
  /-- `None` where the class of the type takes any value. -/
  value : ι → Option String
  time : ι → Option ObservableTime
  /-- The path of a `FileObservable`. -/
  filePath : ι → Option String
  /-- `_compare_value` compares these: the values themselves, or their caseless forms. -/
  compareKey : ObservableType → String → String
  observableLimits : ObservableType → Option Nat
  modulePath : κ → AnalysisPath

variable {ι κ : Type*} [DecidableEq ι] [DecidableEq κ]

namespace TreeObjects

variable (n : TreeObjects ι κ)

/-- `o == other`. A `FileObservable` equals one with the same content and path, and no other
observable. -/
def equal (o other : ι) : Bool :=
  if n.type o = fFile then
    n.type other = fFile ∧ n.value o = n.value other ∧ n.filePath o = n.filePath other
  else
    other = o ∨ (n.type other = n.type o ∧ n.time o = n.time other ∧
      (n.value o).map (n.compareKey (n.type o)) = (n.value other).map (n.compareKey (n.type o)))

/-- `value is None or not value.strip()`. -/
def emptyValue (o : ι) : Bool := (n.value o).all isBlank

end TreeObjects

/-! ## §2 The tree -/

/-- An `AnalysisDependency`. -/
structure TrackedDependency (ι : Type*) where
  sourceObservable : ι
  sourceAnalysis : AnalysisPath
  targetObservable : ι
  targetAnalysis : AnalysisPath
  deriving DecidableEq

structure AnalysisTree (ι κ : Type*) where
  /-- The observables in the registry, in the order of its dict. -/
  store : List ι
  /-- `_observables` of the root. -/
  rootObservables : List ι
  /-- `_analysis` of an observable: none stands for `False`, no analysis was generated. -/
  slots : ι → List (AnalysisPath × Option κ)
  /-- `_observables` of an analysis. -/
  observables : κ → List ι
  relationships : ι → List (String × ι)
  links : ι → List ι
  redirection : ι → Option ι
  dependencyTracking : List (TrackedDependency ι)

namespace AnalysisTree

def new : AnalysisTree ι κ :=
  ⟨[], [], fun _ => [], fun _ => [], fun _ => [], fun _ => [], fun _ => none, []⟩

/-- `all_analysis` of an observable. -/
def analysesOf (t : AnalysisTree ι κ) (o : ι) : List κ := (t.slots o).filterMap (·.2)

def allNonRootAnalysis (t : AnalysisTree ι κ) : List κ := t.store.flatMap t.analysesOf

def childrenOf (t : AnalysisTree ι κ) : Option κ → List ι
  | none => t.rootObservables
  | some a => t.observables a

/-! ## §3 Adding and removing -/

variable (n : TreeObjects ι κ)

/-- `record`: the observable that is in the registry, or none when the value is empty, the limit
of the type is reached, or the file is too large, which raises. -/
def record (t : AnalysisTree ι κ) (o : ι) (tooLarge : Bool) : AnalysisTree ι κ × Option ι :=
  if n.emptyValue o then (t, none)
  else
    match t.store.find? fun stored => n.equal stored o with
    | some stored => (t, some stored)
    | none =>
      if (n.observableLimits (n.type o)).any
        (· ≤ (t.store.filter fun stored => n.type stored = n.type o).length) then (t, none)
      else if n.type o = fFile ∧ tooLarge then (t, none)
      else ({ t with store := t.store ++ [o] }, some o)

def addChild (t : AnalysisTree ι κ) (parent : Option κ) (o : ι) : AnalysisTree ι κ :=
  match parent with
  | none => { t with rootObservables := t.rootObservables ++ [o] }
  | some a => { t with observables := Function.update t.observables a (t.observables a ++ [o]) }

def addObservable (t : AnalysisTree ι κ) (parent : Option κ) (o : ι) (tooLarge : Bool) :
    AnalysisTree ι κ × Option ι :=
  match (t.childrenOf parent).find? fun child => n.equal child o with
  | some child => (t, some child)
  | none =>
    match t.record n o tooLarge with
    | (t, none) => (t, none)
    | (t, some stored) => (t.addChild parent stored, some stored)

/-- `add_observable_by_spec`, of what `create_observable` returns. -/
def addObservableBySpec (t : AnalysisTree ι κ) (parent : Option κ) (created : Option ι)
    (tooLarge : Bool) : AnalysisTree ι κ × Option ι :=
  match created with
  | none => (t, none)
  | some o =>
    match t.record n o tooLarge with
    | (t, none) => (t, none)
    | (t, some stored) => t.addObservable n parent stored tooLarge

/-- `remove` of the registry. -/
def remove (t : AnalysisTree ι κ) (o : ι) : AnalysisTree ι κ :=
  { t with store := t.store.filter (· ≠ o) }

def setSlot (slots : List (AnalysisPath × Option κ)) (path : AnalysisPath) (a : Option κ) :
    List (AnalysisPath × Option κ) :=
  if slots.any (·.1 = path) then slots.map fun slot => if slot.1 = path then (path, a) else slot
  else slots ++ [(path, a)]

def addAnalysis (t : AnalysisTree ι κ) (o : ι) (a : κ) : AnalysisTree ι κ :=
  { t with slots := Function.update t.slots o (setSlot (t.slots o) (n.modulePath a) (some a)) }

/-- `add_no_analysis`, which does not replace anything. -/
def addNoAnalysis (t : AnalysisTree ι κ) (o : ι) (path : AnalysisPath) : AnalysisTree ι κ :=
  if (t.slots o).any (·.1 = path) then t
  else { t with slots := Function.update t.slots o (t.slots o ++ [(path, none)]) }

/-! ## §4 `delete_analysis` -/

/-- `_analysis.pop(module_path, None)`. -/
def unlink (t : AnalysisTree ι κ) (o : ι) (path : AnalysisPath) : AnalysisTree ι κ :=
  { t with slots := Function.update t.slots o ((t.slots o).filter (·.1 ≠ path)) }

def referenced (t : AnalysisTree ι κ) (o : ι) : Prop :=
  ∃ a ∈ t.allNonRootAnalysis, ∃ child ∈ t.observables a, n.equal child o

instance (t : AnalysisTree ι κ) (o : ι) : Decidable (t.referenced n o) :=
  inferInstanceAs (Decidable (∃ a ∈ t.allNonRootAnalysis, ∃ child ∈ t.observables a, _))

def dropDependencies (t : AnalysisTree ι κ) (o : ι) : AnalysisTree ι κ :=
  { t with
    dependencyTracking := t.dependencyTracking.filter fun dep =>
      dep.sourceObservable ≠ o ∧ dep.targetObservable ≠ o }

/-- What `remove_analysis_node` does with one of the observables of an analysis: those that came
with the root or that another analysis has are kept, the others go after their analyses. -/
def pruneChild (original : List ι) (removeNode : AnalysisTree ι κ → ι → κ → AnalysisTree ι κ)
    (t : AnalysisTree ι κ) (child : ι) : AnalysisTree ι κ :=
  if child ∈ original ∨ t.referenced n child then t
  else
    let t := (t.analysesOf child).foldl (fun t a => removeNode t child a) t
    (t.dropDependencies child).remove child

/-- `remove_analysis_node`: the analysis is unlinked, and then its observables are pruned. The
walk goes at most this deep. -/
def removeAnalysisNode (original : List ι) : Nat → AnalysisTree ι κ → ι → κ → AnalysisTree ι κ
  | 0, t, _, _ => t
  | depth + 1, t, o, a =>
    (t.observables a).foldl (pruneChild n original (removeAnalysisNode original depth))
      (t.unlink o (n.modulePath a))

/-- `delete_analysis`. No more nodes are unlinked than there are. -/
def deleteAnalysis (t : AnalysisTree ι κ) (o : ι) (a : κ) : AnalysisTree ι κ :=
  if (n.modulePath a, some a) ∈ t.slots o then
    t.removeAnalysisNode n t.rootObservables (t.allNonRootAnalysis.length + 1) o a
  else t

/-! ## §5 Other references, and `_reset` -/

def addRelationship (t : AnalysisTree ι κ) (o : ι) (rType : String) (target : ι) :
    AnalysisTree ι κ :=
  if rType ∈ validRelationshipTypes ∧
      ¬ ∃ r ∈ t.relationships o, r.1 = rType ∧ n.equal r.2 target then
    { t with
      relationships := Function.update t.relationships o (t.relationships o ++ [(rType, target)]) }
  else t

/-- `add_link`, unless the target links back to an observable that equals this one. -/
def addLink (t : AnalysisTree ι κ) (o target : ι) : AnalysisTree ι κ :=
  if ∃ linked ∈ t.links target, linked ∈ t.store ∧ n.equal linked o then t
  else if target ∈ t.links o then t
  else { t with links := Function.update t.links o (t.links o ++ [target]) }

/-- The setter of `redirection`. -/
def setRedirection (t : AnalysisTree ι κ) (o target : ι) : AnalysisTree ι κ :=
  { t with redirection := Function.update t.redirection o (some target) }

/-- `add_dependency`, unless the dependency is tracked already or closes a circle, which
raises. -/
def addDependency (t : AnalysisTree ι κ) (dep : TrackedDependency ι) (circular : Bool) :
    AnalysisTree ι κ :=
  if dep ∈ t.dependencyTracking ∨ circular then t
  else { t with dependencyTracking := t.dependencyTracking ++ [dep] }

/-- `_reset`: all but the observables of the root go, and these lose their analyses. -/
def reset (t : AnalysisTree ι κ) : AnalysisTree ι κ :=
  { t with
    slots := fun o => if o ∈ t.rootObservables then [] else t.slots o
    store := t.store.filter (· ∈ t.rootObservables) }

end AnalysisTree

end Ace3.Analysis
