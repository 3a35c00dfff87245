import Ace3.Analysis.Observable

/-!
# The Observables of a Root

The part of a `RootAnalysis` that a module execution sees: its observable registry
(`saq/analysis/observable_registry.py`), which observables its analyses have
(`saq/analysis/analysis_tree/analysis_tree_manager.py`), and its own tags and detection points.
Whoever changes an observable changes its entry in the registry.
-/

namespace Ace3.Analysis

structure RootAnalysis where
  /-- Which root this is, and how many uuids have been drawn for it. -/
  number : Nat
  draws : Nat
  /-- The store of the observable registry, in the order of its dict. -/
  observables : List Observable
  /-- The uuids of its own `_observables`. -/
  children : List NodeUuid
  tags : List String
  detections : List DetectionPoint
  deriving DecidableEq

/-- The analysis that a new observable is added to: the root itself, or an analysis of one of its
observables. -/
inductive Parent where
  | root
  | analysis (observable : NodeUuid) (modulePath : AnalysisPath)
  deriving DecidableEq

namespace RootAnalysis

/-! ## §1 Lookups -/

def getObservable (root : RootAnalysis) (uuid : NodeUuid) : Option Observable :=
  root.observables.find? (·.uuid = uuid)

/-- `get_observable_by_spec`: the first observable that equals a plain `Observable` of this type,
value and time. A `FileObservable` equals no plain `Observable`. -/
def getObservableBySpec (rt : Runtime) (root : RootAnalysis) (type : ObservableType)
    (value : Option String) (time : Option ObservableTime) : Option Observable :=
  value.bind fun value =>
    root.observables.find? fun o => o.type ≠ fFile ∧ o.matchesSpec rt type value time

def getByType (root : RootAnalysis) (type : ObservableType) : List Observable :=
  root.observables.filter (·.type = type)

/-! ## §2 Changes -/

def modify (root : RootAnalysis) (uuid : NodeUuid) (f : Observable → Observable) : RootAnalysis :=
  { root with observables := root.observables.map fun o => if o.uuid = uuid then f o else o }

def nextUuid (root : RootAnalysis) : NodeUuid :=
  ⟨root.number, root.draws⟩

/-- `record`: the new observable, the existing one that equals it, or none when the value is
blank or the limit of its type is reached. -/
def record (rt : Runtime) (root : RootAnalysis) (observable : Observable) :
    RootAnalysis × Option Observable :=
  if isBlank observable.value then (root, none)
  else
    match root.observables.find? fun o => o.eq rt observable.toObservableIdentity with
    | some o => (root, some o)
    | none =>
      if (rt.observableLimits observable.type).any (· ≤ (root.getByType observable.type).length)
      then (root, none)
      else ({ root with observables := root.observables ++ [observable] }, some observable)

def recordBySpec (rt : Runtime) (root : RootAnalysis) (type : ObservableType) (value : String)
    (time : Option ObservableTime) (volatile : Bool) : RootAnalysis × Option Observable :=
  match rt.construct type value with
  | none => (root, none)
  | some value =>
    { root with draws := root.draws + 1 }.record rt
      (.new ⟨root.nextUuid, type, value, time, none⟩ volatile)

def childrenOf (root : RootAnalysis) : Parent → List NodeUuid
  | .root => root.children
  | .analysis uuid modulePath =>
    match (root.getObservable uuid).bind (·.analysis.lookup modulePath) with
    | some (some analysis) => analysis.observables
    | _ => []

/-- `add_observable_to_tree`. -/
def addChild (root : RootAnalysis) (parent : Parent) (child : NodeUuid) : RootAnalysis :=
  match parent with
  | .root => { root with children := root.children ++ [child] }
  | .analysis uuid modulePath =>
    root.modify uuid fun o =>
      { o with
        analysis := o.analysis.map fun slot =>
          if slot.1 = modulePath then
            (slot.1, slot.2.map fun a => { a with observables := a.observables ++ [child] })
          else slot }

def getExistingObservable (rt : Runtime) (root : RootAnalysis) (parent : Parent)
    (observable : ObservableIdentity) : Option Observable :=
  (root.childrenOf parent).findSome? fun uuid =>
    (root.getObservable uuid).filter (·.eq rt observable)

def addObservable (rt : Runtime) (root : RootAnalysis) (parent : Parent)
    (observable : Observable) : RootAnalysis × Option Observable :=
  match root.getExistingObservable rt parent observable.toObservableIdentity with
  | some existing => (root, some existing)
  | none =>
    match root.record rt observable with
    | (root, none) => (root, none)
    | (root, some observable) => (root.addChild parent observable.uuid, some observable)

def addObservableBySpec (rt : Runtime) (root : RootAnalysis) (parent : Parent)
    (type : ObservableType) (value : String) (time : Option ObservableTime) (volatile : Bool) :
    RootAnalysis × Option Observable :=
  match root.recordBySpec rt type value time volatile with
  | (root, none) => (root, none)
  | (root, some observable) => root.addObservable rt parent observable

/-- `add_file_observable` of a staged blob, which raises when the file cannot be stored. -/
def addFileObservable (rt : Runtime) (root : RootAnalysis) (parent : Parent) (content : String)
    (targetPath : Option String) (volatile : Bool) : Option (RootAnalysis × Option Observable) :=
  match rt.storeFile content targetPath with
  | none => none
  | some (sha256, path) =>
    some ({ root with draws := root.draws + 1 }.addObservable rt parent
      (.new ⟨root.nextUuid, fFile, sha256, none, some path⟩ volatile))

/-- `r.target == target`. -/
def sameObservable (rt : Runtime) (root : RootAnalysis) (uuid uuid' : NodeUuid) : Bool :=
  (root.getObservable uuid).any fun o =>
    (root.getObservable uuid').any fun o' => o.eq rt o'.toObservableIdentity

def addRelationship (rt : Runtime) (root : RootAnalysis) (source : NodeUuid) (rType : String)
    (target : NodeUuid) : Option RootAnalysis :=
  if rType ∈ validRelationshipTypes then
    some <| root.modify source fun o =>
      if o.relationships.any fun r => r.rType = rType ∧ root.sameObservable rt r.target target then
        o
      else { o with relationships := o.relationships ++ [⟨rType, target⟩] }
  else none

end RootAnalysis

end Ace3.Analysis
