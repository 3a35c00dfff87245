import Ace3.Analysis.DetectionPath
import Ace3.Lib.BreadthFirst
import Ace3.Lib.PathTree
import Mathlib.Data.Prod.Lex
import Mathlib.Data.String.Basic

/-!
# Detection Chains

How each detection of a tree came about: from which observables, by which analyses
(`saq/analysis/detection_chain.py`).
-/

namespace Ace3.Analysis

open List
open Lib Lib.BreadthFirst Lib.StableSort

/-- The text of a `module_path`. -/
def AnalysisPath.text (path : AnalysisPath) : String :=
  path.inst.elim path.classPath fun inst => path.classPath ++ ":" ++ inst

/-! ## §1 Chains -/

/-- A `ChainStep`: the observable, and by which analysis it was extracted. -/
abbrev ChainStep (ι κ : Type*) := ι × Option κ

structure DetectionChain (ι κ δ : Type*) where
  detection : δ
  owner : TreeNode ι κ
  steps : List (ChainStep ι κ)

/-- A `MergedTreeNode`. Its key is the observable, its label is `extracted_by`, and its marks are
the detections. -/
abbrev MergedTreeNode (ι κ δ : Type*) := PathTree ι (Option κ) δ

-- The order of the observables is that of their uuids.
variable {ι κ δ : Type*} [LinearOrder ι] [DecidableEq δ]

namespace AnalysisTree

variable (n : TreeObjects ι κ) (t : AnalysisTree ι κ) (observableOf : κ → Option ι)

def parents (o : ι) : List (Option κ) :=
  t.allAnalysis.filter fun a => (t.childrenOf a).any fun child => n.equal child o

/-- The parents from which the walk goes on, each with its observable, in their order. -/
def candidateParents (current : ι) : List (κ × ι) :=
  sortBy (fun candidate => toLex (candidate.2, (n.modulePath candidate.1).text))
    ((t.parents n current).filterMap fun
      | none => none
      | some a => ((observableOf a).filter (· ≠ current)).map fun o => (a, o))

def endsWalk (current : ι) : Bool := (t.candidateParents n observableOf current).isEmpty

/-- `_walk_to_root`. Each observable is queued once, so the queue is empty after so many steps. -/
def walkToRoot (observable : ι) : Option (List (ChainStep ι κ)) :=
  (search (t.candidateParents n observableOf) (t.endsWalk n observableOf)
      (t.allNonRootAnalysis.length + 2) [observable] [(observable, [])]).map fun
    | some (current, path) =>
      (path.map (fun step : ι × κ => (step.1, some step.2)) ++ [(current, none)]).reverse
    | none => [(observable, none)]

omit [LinearOrder ι] in
/-- The observable from which the chain of a node starts. -/
def carrier : TreeNode ι κ → Option ι
  | .observable o => some o
  | .analysis none => none
  | .analysis (some a) => observableOf a

def carriedDetections (detections : TreeNode ι κ → List δ) : List (δ × TreeNode ι κ × ι) :=
  (t.allAnalysis.map TreeNode.analysis ++ t.store.map TreeNode.observable).flatMap fun node =>
    (detections node).filterMap fun detection =>
      (carrier observableOf node).map fun o => (detection, node, o)

def buildDetectionChains (detections : TreeNode ι κ → List δ) :
    Option (List (DetectionChain ι κ δ)) :=
  (t.carriedDetections observableOf detections).mapM fun (detection, owner, o) =>
    (t.walkToRoot n observableOf o).map fun steps => ⟨detection, owner, steps⟩

end AnalysisTree

def buildMergedDetectionTree (chains : List (DetectionChain ι κ δ)) :
    List (MergedTreeNode ι κ δ) :=
  chains.foldl (fun roots chain => PathTree.add chain.detection chain.steps roots) []

/-! ## §2 Lineages -/

namespace AnalysisTree

variable (n : TreeObjects ι κ) (t : AnalysisTree ι κ) (observableOf : κ → Option ι)

def Extracts (a : κ) (parent o : ι) : Prop :=
  a ∈ t.allNonRootAnalysis ∧ (∃ child ∈ t.observables a, n.equal child o = true) ∧
    observableOf a = some parent ∧ parent ≠ o

def TrueRoot (o : ι) : Prop := ∀ a parent, ¬ t.Extracts n observableOf a parent o

/-- A chain that ends with this observable: the first one was not extracted, as far as the chain
goes, and each other one from the one before. -/
structure Chain (steps : List (ChainStep ι κ)) (r o : ι) : Prop where
  starts : ∃ rest, steps = (r, none) :: rest
  ends : ∃ extractedBy, steps.getLast? = some (o, extractedBy)
  linked : steps.IsChain fun step next =>
    ∃ a, next.2 = some a ∧ t.Extracts n observableOf a step.1 next.1

def Lineage (steps : List (ChainStep ι κ)) (o : ι) : Prop :=
  ∃ r, t.Chain n observableOf steps r o ∧ t.TrueRoot n observableOf r

variable {n t observableOf} {a : κ} {o p r : ι} {steps : List (ChainStep ι κ)}
  {path : List (ι × κ)}

theorem mem_candidateParents : (a, p) ∈ t.candidateParents n observableOf o ↔
    t.Extracts n observableOf a p o := by
  rw [candidateParents, mem_sortBy, mem_filterMap, Extracts]
  constructor
  · rintro ⟨parent, hparent, heq⟩
    rw [parents, mem_filter, any_eq_true] at hparent
    cases parent with
    | none => cases heq
    | some a' =>
      rw [Option.map_eq_some_iff] at heq
      obtain ⟨p', hfilter, heq⟩ := heq
      obtain ⟨rfl, rfl⟩ := Prod.mk.inj heq
      obtain ⟨hobservable, hne⟩ := Option.filter_eq_some_iff.mp hfilter
      obtain ⟨hmem, hchild⟩ := hparent
      exact ⟨by simpa [allAnalysis] using hmem, hchild, hobservable, of_decide_eq_true hne⟩
  · rintro ⟨hmem, hchild, hobservable, hne⟩
    refine ⟨some a, ?_, ?_⟩
    · rw [parents, mem_filter, any_eq_true]
      exact ⟨by simpa [allAnalysis] using hmem, hchild⟩
    · rw [Option.map_eq_some_iff]
      exact ⟨p, Option.filter_eq_some_iff.mpr ⟨hobservable, decide_eq_true hne⟩, rfl⟩

theorem trueRoot_iff : t.endsWalk n observableOf o = true ↔ t.TrueRoot n observableOf o := by
  rw [endsWalk, List.isEmpty_iff, eq_nil_iff_forall_not_mem]
  constructor
  · exact fun h a p hextracts => h (a, p) (mem_candidateParents.mpr hextracts)
  · exact fun h candidate hmem => h candidate.1 candidate.2 (mem_candidateParents.mp hmem)

def toSteps (path : List (ι × κ)) (r : ι) : List (ChainStep ι κ) :=
  (path.map (fun step : ι × κ => (step.1, some step.2)) ++ [(r, none)]).reverse

omit [LinearOrder ι] in
theorem toSteps_snoc (path : List (ι × κ)) (o r : ι) (a : κ) :
    toSteps (path ++ [(o, a)]) r = (r, none) :: (o, some a) :: (toSteps path o).tail := by
  simp [toSteps]

omit [LinearOrder ι] in
theorem toSteps_eq_cons (path : List (ι × κ)) (r : ι) :
    toSteps path r = (r, none) :: (toSteps path r).tail := by
  simp [toSteps]

omit [LinearOrder ι] in
@[simp] theorem length_toSteps (path : List (ι × κ)) (r : ι) :
    (toSteps path r).length = path.length + 1 := by
  simp [toSteps]

theorem chain_singleton_iff {e : Option κ} :
    t.Chain n observableOf [(p, e)] r o ↔ e = none ∧ p = r ∧ p = o := by
  constructor
  · rintro ⟨⟨rest, hstarts⟩, ⟨extractedBy, hends⟩, -⟩
    obtain ⟨rfl, rfl⟩ := Prod.mk.inj (List.cons.inj hstarts).1
    obtain ⟨rfl, -⟩ := Prod.mk.inj (Option.some.inj hends)
    exact ⟨rfl, rfl, rfl⟩
  · rintro ⟨rfl, rfl, rfl⟩
    exact ⟨⟨[], rfl⟩, ⟨none, rfl⟩, isChain_singleton _⟩

theorem chain_cons_cons_iff {e e' : Option κ} {q : ι} {rest : List (ChainStep ι κ)} :
    t.Chain n observableOf ((q, e) :: (p, e') :: rest) r o ↔
      e = none ∧ q = r ∧ (∃ a, e' = some a ∧ t.Extracts n observableOf a r p) ∧
        t.Chain n observableOf ((p, none) :: rest) p o := by
  constructor
  · rintro ⟨⟨_, hstarts⟩, ⟨extractedBy, hends⟩, hlinked⟩
    obtain ⟨rfl, rfl⟩ := Prod.mk.inj (List.cons.inj hstarts).1
    obtain ⟨hfirst, hlinked⟩ := isChain_cons_cons.mp hlinked
    refine ⟨rfl, rfl, hfirst, ⟨rest, rfl⟩, ?_, ?_⟩
    · cases rest with
      | nil =>
        obtain ⟨rfl, -⟩ := Prod.mk.inj (Option.some.inj hends)
        exact ⟨none, rfl⟩
      | cons next rest => exact ⟨extractedBy, hends⟩
    · cases rest with
      | nil => exact isChain_singleton _
      | cons next rest =>
        exact isChain_cons_cons.mpr (isChain_cons_cons.mp hlinked)
  · rintro ⟨rfl, rfl, hfirst, -, ⟨extractedBy, hends⟩, hlinked⟩
    refine ⟨⟨_, rfl⟩, ?_, isChain_cons_cons.mpr ⟨hfirst, ?_⟩⟩
    · cases rest with
      | nil =>
        obtain ⟨rfl, -⟩ := Prod.mk.inj (Option.some.inj hends)
        exact ⟨e', rfl⟩
      | cons next rest => exact ⟨extractedBy, hends⟩
    · cases rest with
      | nil => exact isChain_singleton _
      | cons next rest =>
        exact isChain_cons_cons.mpr (isChain_cons_cons.mp hlinked)

theorem chain_of_walk (h : Lib.BreadthFirst.Walk (Edge (t.candidateParents n observableOf)) o path r) :
    t.Chain n observableOf (toSteps path r) r o := by
  induction h with
  | start => exact chain_singleton_iff.mpr ⟨rfl, rfl, rfl⟩
  | @step path p r a h hedge ih =>
    rw [toSteps_snoc]
    rw [toSteps_eq_cons] at ih
    exact chain_cons_cons_iff.mpr
      ⟨rfl, rfl, ⟨a, rfl, mem_candidateParents.mp hedge⟩, ih⟩

theorem walk_of_chain (h : t.Chain n observableOf steps r o) :
    ∃ path, steps = toSteps path r ∧
      Lib.BreadthFirst.Walk (Edge (t.candidateParents n observableOf)) o path r := by
  obtain ⟨rest, rfl⟩ := h.starts
  induction rest generalizing r with
  | nil =>
    obtain ⟨-, -, rfl⟩ := chain_singleton_iff.mp h
    exact ⟨[], rfl, .start⟩
  | cons next rest ih =>
    obtain ⟨p, extractedBy⟩ := next
    obtain ⟨-, -, ⟨a, rfl, hextracts⟩, hrest⟩ := chain_cons_cons_iff.mp h
    obtain ⟨path, heq, hwalk⟩ := ih hrest
    refine ⟨path ++ [(p, a)], ?_, .step hwalk (mem_candidateParents.mpr hextracts)⟩
    rw [toSteps_snoc, ← heq, tail_cons]

/-! ## §3 The walk -/

/-- Which analysis a chain has for an observable, where it comes from another one: the first. -/
def extractedBy (n : TreeObjects ι κ) (t : AnalysisTree ι κ) (observableOf : κ → Option ι)
    (parent : Option ι) (o : ι) : Option κ :=
  parent.bind fun p =>
    ((t.candidateParents n observableOf o).find? fun candidate => candidate.2 = p).map (·.1)

theorem labelled_of_walk (h : Lib.BreadthFirst.Walk (First (t.candidateParents n observableOf)) o path r) :
    PathTree.Labelled (t.extractedBy n observableOf) none (toSteps path r) := by
  induction h with
  | start => exact ⟨rfl, trivial⟩
  | @step path p r a h hfirst ih =>
    rw [toSteps_snoc]
    rw [toSteps_eq_cons] at ih
    refine ⟨rfl, ?_, ih.2⟩
    show some a = ((t.candidateParents n observableOf p).find? _).map (·.1)
    rw [hfirst]
    rfl

theorem walkToRoot_spec (n : TreeObjects ι κ) (t : AnalysisTree ι κ) (observableOf : κ → Option ι)
    (o : ι) : ∃ steps, t.walkToRoot n observableOf o = some steps ∧
      (t.Lineage n observableOf steps o ∧
          (∀ other, t.Lineage n observableOf other o → steps.length ≤ other.length) ∨
        (∀ other, ¬ t.Lineage n observableOf other o) ∧ steps = [(o, none)]) ∧
      PathTree.Labelled (t.extractedBy n observableOf) none steps := by
  have hinside : ∀ current a p, Edge (t.candidateParents n observableOf) current a p →
      p ∈ o :: t.allNonRootAnalysis.filterMap observableOf := by
    intro current a p h
    obtain ⟨hmem, -, hobservable, -⟩ := mem_candidateParents.mp h
    exact mem_cons_of_mem _ (mem_filterMap.mpr ⟨a, hmem, hobservable⟩)
  have hsteps : (o :: t.allNonRootAnalysis.filterMap observableOf).length <
      t.allNonRootAnalysis.length + 2 := by
    have hle := length_filterMap_le observableOf t.allNonRootAnalysis
    rw [length_cons]
    omega
  obtain ⟨answer, heq, hcorrect⟩ :=
    @search_correct _ _ _ _ (t.endsWalk n observableOf) _ _ _ hinside (mem_cons_self ..) hsteps
  rw [walkToRoot, heq]
  cases answer with
  | some answer =>
    obtain ⟨r, path⟩ := answer
    obtain ⟨hgoal, hwalk, hmin⟩ := hcorrect
    have hchain := chain_of_walk (hwalk.mono fun _ _ _ => First.edge)
    refine ⟨toSteps path r, rfl, .inl ⟨⟨r, hchain, trueRoot_iff.mp hgoal⟩, ?_⟩,
      labelled_of_walk hwalk⟩
    rintro other ⟨r', hother, hroot⟩
    obtain ⟨path', rfl, hwalk'⟩ := walk_of_chain hother
    rw [length_toSteps, length_toSteps]
    exact Nat.succ_le_succ (hmin path' r' hwalk' (trueRoot_iff.mpr hroot))
  | none =>
    refine ⟨[(o, none)], rfl, .inr ⟨?_, rfl⟩, rfl, trivial⟩
    rintro other ⟨r, hother, hroot⟩
    obtain ⟨path, rfl, hwalk⟩ := walk_of_chain hother
    have hgoal := hcorrect path r hwalk
    rw [trueRoot_iff.mpr hroot] at hgoal
    cases hgoal

/-! ## §4 The merged tree -/

theorem represents_merged {f : Option ι → ι → Option κ} (chains : List (DetectionChain ι κ δ))
    (hlabelled : ∀ chain ∈ chains, PathTree.Labelled f none chain.steps) :
    PathTree.Represents f none {marked | ∃ chain ∈ chains, (chain.steps, chain.detection) = marked}
      (buildMergedDetectionTree chains) := by
  induction chains using List.reverseRecOn with
  | nil =>
    exact PathTree.represents_empty.congr fun step path m => by simp
  | append_singleton chains chain ih =>
    rw [buildMergedDetectionTree, foldl_append]
    have hadded := (ih fun chain hchain => hlabelled chain (mem_append_left _ hchain)).add
      (hlabelled chain (by simp)) chain.detection
    refine hadded.congr fun step path m => ?_
    simp only [Set.mem_insert_iff, Set.mem_ofPred_eq, mem_append, mem_singleton]
    constructor
    · rintro (heq | ⟨other, hother, heq⟩)
      · exact ⟨chain, .inr rfl, heq.symm⟩
      · exact ⟨other, .inl hother, heq⟩
    · rintro ⟨other, hother | rfl, heq⟩
      · exact .inr ⟨other, hother, heq⟩
      · exact .inl heq.symm

omit [DecidableEq δ] in
theorem mem_buildDetectionChains (n : TreeObjects ι κ) (t : AnalysisTree ι κ)
    (observableOf : κ → Option ι) (detections : TreeNode ι κ → List δ) :
    ∃ chains, t.buildDetectionChains n observableOf detections = some chains ∧
      ∀ chain, chain ∈ chains ↔ ∃ o,
        (chain.detection, chain.owner, o) ∈ t.carriedDetections observableOf detections ∧
          t.walkToRoot n observableOf o = some chain.steps := by
  rw [buildDetectionChains]
  induction t.carriedDetections observableOf detections with
  | nil => exact ⟨[], rfl, fun chain => by simp⟩
  | cons found rest ih =>
    obtain ⟨detection, owner, o⟩ := found
    obtain ⟨chains, heq, hmem⟩ := ih
    obtain ⟨steps, hwalk, -⟩ := walkToRoot_spec n t observableOf o
    refine ⟨⟨detection, owner, steps⟩ :: chains, ?_, fun chain => ?_⟩
    · rw [mapM_cons, heq]
      dsimp only
      rw [hwalk]
      rfl
    · rw [mem_cons, hmem]
      constructor
      · rintro (rfl | ⟨o', hin, heq'⟩)
        · exact ⟨o, mem_cons_self .., hwalk⟩
        · exact ⟨o', mem_cons_of_mem _ hin, heq'⟩
      · rintro ⟨o', hin, heq'⟩
        rcases mem_cons.mp hin with hfirst | hin
        · obtain ⟨rfl, rfl, rfl⟩ := by simpa using hfirst
          rw [hwalk] at heq'
          cases heq'
          exact .inl rfl
        · exact .inr ⟨o', hin, heq'⟩

/-- Every walk ends with a shortest lineage, or with the observable alone where there is none. The
merged tree has the chains of all detections, with these at their ends, and it has no other edges:
each path begins a chain, and it ends at a leaf unless one goes on. -/
theorem detection_chains_spec (n : TreeObjects ι κ) (t : AnalysisTree ι κ)
    (observableOf : κ → Option ι) (detections : TreeNode ι κ → List δ) :
    (∀ o, ∃ steps, t.walkToRoot n observableOf o = some steps ∧
      (t.Lineage n observableOf steps o ∧
          (∀ other, t.Lineage n observableOf other o → steps.length ≤ other.length) ∨
        (∀ other, ¬ t.Lineage n observableOf other o) ∧ steps = [(o, none)])) ∧
    ∃ chains, t.buildDetectionChains n observableOf detections = some chains ∧
      (∀ chain, chain ∈ chains ↔ ∃ o,
        (chain.detection, chain.owner, o) ∈ t.carriedDetections observableOf detections ∧
          t.walkToRoot n observableOf o = some chain.steps) ∧
      (∀ path, (∃ last, PathTree.Path (buildMergedDetectionTree chains) path last) ↔
        path ≠ [] ∧ ∃ chain ∈ chains, path <+: chain.steps) ∧
      ∀ path last, PathTree.Path (buildMergedDetectionTree chains) path last →
        (∀ detection, detection ∈ last.marks ↔
          ∃ chain ∈ chains, chain.steps = path ∧ chain.detection = detection) ∧
        (last.children = [] ↔ ∀ chain ∈ chains, path <+: chain.steps → chain.steps = path) := by
  constructor
  · intro o
    obtain ⟨steps, hwalk, hspec, -⟩ := walkToRoot_spec n t observableOf o
    exact ⟨steps, hwalk, hspec⟩
  obtain ⟨chains, hchains, hmem⟩ := mem_buildDetectionChains n t observableOf detections
  -- All steps come from walks, which agree on how an observable was extracted from another.
  have hlabelled : ∀ chain ∈ chains,
      PathTree.Labelled (t.extractedBy n observableOf) none chain.steps := by
    intro chain hchain
    obtain ⟨o, -, hwalk⟩ := (hmem chain).mp hchain
    obtain ⟨steps, heq, -, hlabelled⟩ := walkToRoot_spec n t observableOf o
    rw [heq] at hwalk
    cases hwalk
    exact hlabelled
  have hrep := represents_merged chains hlabelled
  refine ⟨chains, hchains, hmem, fun path => ?_, fun path last hpath => ⟨fun detection => ?_, ?_⟩⟩
  · rw [hrep.path_iff]
    simp
  · rw [hrep.marks_iff hpath]
    simp
  · rw [hrep.leaf_iff hpath]
    simp

/-! Two observables came with the root, and the analysis of the first one has the second. -/

/-- Both observables are of one type and differ in their values. -/
def rootPairObjects : TreeObjects ℕ ℕ where
  type _ := "fqdn"
  value o := some (if o = 0 then "example.com" else "www.example.com")
  time _ := none
  filePath _ := none
  compareKey _ value := value
  observableLimits _ := none
  modulePath _ := ⟨"saq.modules.dns:FQDNAnalysis", none⟩

def rootPair : AnalysisTree ℕ ℕ where
  store := [0, 1]
  rootObservables := [0, 1]
  slots o := if o = 0 then [(rootPairObjects.modulePath 0, some 0)] else []
  observables _ := [1]
  relationships _ := []
  links _ := []
  redirection _ := none
  dependencyTracking := []

theorem candidateParents_rootPair :
    rootPair.candidateParents rootPairObjects (fun _ => some 0) 0 = [] ∧
      rootPair.candidateParents rootPairObjects (fun _ => some 0) 1 = [(0, 0)] := by
  have hparents : rootPair.parents rootPairObjects 0 = [none] ∧
      rootPair.parents rootPairObjects 1 = [none, some 0] := by decide
  simp [candidateParents, hparents, sortBy]

/-- The walk goes on from an observable that came with the root, and a chain may end at an inner
node of the merged tree. -/
theorem walk_passes_root_observable : ∃ steps chains,
    rootPair.walkToRoot rootPairObjects (fun _ => some 0) 1 = some steps ∧
      (∃ other, rootPair.Chain rootPairObjects (fun _ => some 0) other 1 1 ∧
        1 ∈ rootPair.rootObservables ∧ other.length < steps.length) ∧
      rootPair.buildDetectionChains rootPairObjects (fun _ => some 0)
        (fun node => if node = .root ∨ node = .analysis (some 0) then [] else ["detection"]) =
          some chains ∧
      ∃ chain ∈ chains, ∀ last,
        PathTree.Path (buildMergedDetectionTree chains) chain.steps last → last.children ≠ [] := by
  have hwalk₀ : rootPair.walkToRoot rootPairObjects (fun _ => some 0) 0 = some [(0, none)] := by
    simp [walkToRoot, search, endsWalk, candidateParents_rootPair]
  have hwalk₁ : rootPair.walkToRoot rootPairObjects (fun _ => some 0) 1 =
      some [(0, none), (1, some 0)] := by
    have hlength : rootPair.allNonRootAnalysis.length = 1 := by decide
    simp [walkToRoot, search, endsWalk, candidateParents_rootPair, discover, hlength]
  refine ⟨_, [⟨"detection", .observable 0, [(0, none)]⟩,
    ⟨"detection", .observable 1, [(0, none), (1, some 0)]⟩], hwalk₁,
    ⟨[(1, none)], chain_singleton_iff.mpr ⟨rfl, rfl, rfl⟩, by decide, by decide⟩, ?_,
    ⟨"detection", .observable 0, [(0, none)]⟩, mem_cons_self .., ?_⟩
  · have hcarried : rootPair.carriedDetections (fun _ => some 0)
        (fun node => if node = .root ∨ node = .analysis (some 0) then [] else ["detection"]) =
          [("detection", .observable 0, 0), ("detection", .observable 1, 1)] := by decide
    rw [buildDetectionChains, hcarried]
    simp [hwalk₀, hwalk₁]
  · intro last hpath
    obtain ⟨tree, hin, -, ⟨-, rfl⟩ | hpath⟩ := PathTree.path_cons_iff.mp hpath
    · obtain rfl := mem_singleton.mp hin
      exact cons_ne_nil _ _
    · exact absurd hpath PathTree.not_path_nil

end AnalysisTree

end Ace3.Analysis
