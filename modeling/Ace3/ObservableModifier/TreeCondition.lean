import Ace3.Analysis.TreeDeletion
import Ace3.Lib.StackWalk
import Ace3.ObservableModifier.NestedValue

/-!
# Tree Conditions

The conditions of a rule on the analysis tree around an observable
(`TreeCondition` in `saq/modules/util/observable_modifier.py`). An analysis is one of an observable,
or none for the root.
-/

namespace Ace3.ObservableModifier

open Analysis Lib Lib.Json

variable {ι κ : Type*} [DecidableEq ι] [DecidableEq κ]

/-! ## §1 Objects -/

/-- What the objects of a tree are, besides how they refer to each other. -/
structure Scene (ι κ : Type*) where
  objects : TreeObjects ι κ
  /-- `analysis.observable`. -/
  observableOf : κ → ι
  /-- `module_path` of an analysis, and of the root. -/
  modulePath : Option κ → String
  /-- The details that `_load_details_for_match` returns. -/
  details : Option κ → Value
  /-- `getattr(obs, attr, None)`, as a text. -/
  getattr : ι → String → Option String
  /-- `is_subtype` of the type hierarchy. -/
  isSubtype : ObservableType → ObservableType → Bool
  /-- How `str` writes a string inside of a list or a dictionary. -/
  quote : String → String

namespace Scene

variable (s : Scene ι κ) (t : AnalysisTree ι κ)

/-- `analysis.observable`, which is `None` for the root. -/
def observable? (a : Option κ) : Option ι := a.map s.observableOf

/-- `str(observable.value)`. -/
def valueText (o : ι) : String := (s.objects.value o).getD "None"

/-! ## §2 The walks -/

/-- `all_analysis` of the root, which comes first. -/
def allAnalysis : List (Option κ) := none :: t.allNonRootAnalysis.map some

/-- `has_observable`. The root has every observable of the registry. -/
def hasObservable (a : Option κ) (o : ι) : Bool :=
  match a with
  | none => t.store.any (s.objects.equal · o)
  | some a => (t.observables a).any (s.objects.equal · o)

def parents (o : ι) : List (Option κ) := (allAnalysis t).filter (s.hasObservable t · o)

def parentsAbove (a : Option κ) : List (Option κ) :=
  match s.observable? a with
  | none => []
  | some o => s.parents t o

/-- `_get_ancestor_analyses`, which takes at most so many analyses from its stack. -/
def ancestorAnalyses (steps : Nat) (o : ι) : Option (List (Option κ)) :=
  StackWalk.walk (s.parentsAbove t) steps [] (s.parents t o).reverse



/-- One turn of the loop over the parents: the observables that were visited, and the analyses. -/
def siblingStep (state : List ι × List κ) (parent : Option κ) : List ι × List κ :=
  match s.observable? parent with
  | none => state
  | some o =>
    if o ∈ state.1 then state else (state.1 ++ [o], (t.analysesOf o).foldl addNew state.2)

/-- `_get_sibling_analyses`. -/
def siblingAnalyses (o : ι) : List κ := ((s.parents t o).foldl (s.siblingStep t) ([], [])).2

def analysesBelow (t : AnalysisTree ι κ) (a : κ) : List κ := (t.observables a).flatMap t.analysesOf

/-- `_get_descendant_analyses`. -/
def descendantAnalyses (t : AnalysisTree ι κ) (steps : Nat) (o : ι) : Option (List κ) :=
  StackWalk.walk (analysesBelow t) steps [] ((t.analysesOf o).flatMap (analysesBelow t)).reverse

def observablesBelow (t : AnalysisTree ι κ) (o : ι) : List ι :=
  (t.analysesOf o).flatMap t.observables

/-- `_get_descendant_observables`. -/
def descendantObservables (t : AnalysisTree ι κ) (steps : Nat) (o : ι) : Option (List ι) :=
  StackWalk.walk (observablesBelow t) steps [] (observablesBelow t o).reverse

end Scene

/-! ## §3 Conditions -/

inductive Scope where
  | ancestors | descendants | parent | siblings | self | global
  deriving DecidableEq

structure TreeCondition where
  analysisType : String
  scope : Scope
  detailsMatch : List (String × Pattern)
  observableMatch : List (String × Pattern)
  producesObservableType : Option ObservableType
  producesObservableValue : Option Pattern
  negate : Bool
  matchCount : Option Nat

namespace TreeCondition

variable (tc : TreeCondition) (s : Scene ι κ) (t : AnalysisTree ι κ)

def checkObservable (o : Option ι) : Bool :=
  match o with
  | none => false
  | some o => tc.observableMatch.all fun entry => (s.getattr o entry.1).any entry.2

def checkProducesObservable (type : ObservableType) (a : Option κ) : Bool :=
  (t.childrenOf a).any fun produced =>
    s.isSubtype (s.objects.type produced) type &&
      tc.producesObservableValue.all fun pattern => pattern (s.valueText produced)

/-- An analysis in the scope passes all checks of the loop. -/
def matchesAnalysis (a : Option κ) : Bool :=
  (tc.analysisType = "" || s.modulePath a = tc.analysisType) &&
    (tc.detailsMatch.isEmpty || checkDetails s.quote tc.detailsMatch (s.details a)) &&
    (tc.observableMatch.isEmpty || tc.checkObservable s (s.observable? a)) &&
    tc.producesObservableType.all fun type => tc.checkProducesObservable s t type a

/-- The condition is about the observables below, whether they have analyses or not. -/
def ofObservables : Bool :=
  tc.scope = .descendants && !tc.observableMatch.isEmpty && tc.analysisType = "" &&
    tc.detailsMatch.isEmpty

def analysesInScope (steps : Nat) (o : ι) : Option (List (Option κ)) :=
  match tc.scope with
  | .ancestors => s.ancestorAnalyses t steps o
  | .descendants => (Scene.descendantAnalyses t steps o).map (·.map some)
  | .parent => some (s.parents t o)
  | .siblings => some ((s.siblingAnalyses t o).map some)
  | .self => some ((t.analysesOf o).map some)
  | .global => some (Scene.allAnalysis t)

def outcome {α : Type*} (test : α → Bool) (scope : List α) : Bool :=
  match tc.matchCount with
  | none => scope.any test
  | some count => scope.countP test = count

def evaluateInner (typeIndex : Option (List String)) (steps : Nat) (o : ι) : Option Bool :=
  if tc.analysisType ≠ "" ∧ typeIndex.any (tc.analysisType ∉ ·) then
    some (tc.matchCount = some 0)
  else if tc.ofObservables then
    (Scene.descendantObservables t steps o).map (tc.outcome fun below =>
      tc.checkObservable s (some below))
  else (tc.analysesInScope s t steps o).map (tc.outcome (tc.matchesAnalysis s t))

def evaluate (typeIndex : Option (List String)) (steps : Nat) (o : ι) : Option Bool :=
  (tc.evaluateInner s t typeIndex steps o).map fun result => if tc.negate then !result else result

end TreeCondition

end Ace3.ObservableModifier
